import Opr8.Dom.Shape

/-!
# Opr8 — the O(1) insertion primitives of the node store

`appendNode`, `prependNode`, `insertNodeAfter` and `insertNodeBefore` patch a handful of
links each, in the order the source writes them; a write through a nil pointer is a
panic, which the model returns as `none`. The public methods `AppendChild`,
`PrependChild`, `InsertChildAfter` and `InsertChildBefore` run the kind check
`allowInsertChildErr` first and then one primitive. A call returns the `error` it gives
(`none` for nil) together with the store it leaves.

The child list and the attribute list are patched by the same statements, so each splice
is one definition over a `ListKind` (`appendSibling`, `prependSibling`,
`insertSiblingAfter`), and `appendNode` and its siblings are "write `child.parent`, then
splice".

Main results:

* `appendSibling_relinked`, `prependSibling_relinked`, `insertSiblingAfter_relinked` —
  what each splice does to a well-formed list, for either kind of list.
* `appendNode_spliced`, `prependNode_spliced`, `insertNodeAfter_spliced` — on a
  well-formed store, splicing a detached node leaves a well-formed store whose only
  changed list is the parent's, with the node at the intended place.
* `child_insertion_contract` — the contract of the four public insertions for a
  detached node: a hierarchy error returning the store unchanged exactly when the kinds
  are rejected, otherwise a well-formed, acyclic store with the expected child list.
* `appendChild_self_cycle` — nothing stops a node from being appended to itself: the
  cycle check `allowMove` exists but no insertion calls it.
* `insertChildBefore_misparents` — `InsertChildBefore n c r` makes `r` the parent of `c`;
  before the head it also leaves `firstChild` on `r` and links the tail forward to `c`.
-/

namespace Opr8.Dom

open Store

/-! ## The splices

The child list and the attribute list are patched by the same statements, reading
`firstChild` or `firstAttr`. Each splice is stated once, for a `ListKind`; the node
primitives write `child.parent` first and then splice. -/

/-- The splice of `appendNode` and `appendAttribute`: link `child` after the tail of the
list, found as the head's `prevSib`. -/
def appendSibling (k : ListKind) (child parent : Nat) (s : Store) : Option Store :=
  match s.head k parent with
  | some head => do
    let tail ← s.prevSib head
    let s := s.setNextSib tail (some child)
    let s := s.setPrevSib child (some tail)
    pure (s.setPrevSib head (some child))
  | none =>
    let s := s.setHead k parent (some child)
    pure (s.setPrevSib child (some child))

/-- The splice of `prependNode` and `prependAttribute`: link `child` before the head; it
inherits the head's tail pointer. -/
def prependSibling (k : ListKind) (child parent : Nat) (s : Store) : Store :=
  let head := s.head k parent
  let s := match head with
    | some h => (s.setPrevSib child (s.prevSib h)).setPrevSib h (some child)
    | none => s.setPrevSib child (some child)
  (s.setNextSib child head).setHead k parent (some child)

/-- The splice of `insertNodeAfter` and `insertAttributeAfter`: link `child` right after
`after`. The parent is only dereferenced when `after` is the tail. -/
def insertSiblingAfter (k : ListKind) (child after : Nat) (parent : Option Nat) (s : Store) :
    Option Store := do
  let s ← match s.nextSib after with
    | some next => pure (s.setPrevSib next (some child))
    | none => do
      let p ← parent
      let head ← s.head k p
      pure (s.setPrevSib head (some child))
  let s := s.setNextSib child (s.nextSib after)
  let s := s.setPrevSib child (some after)
  pure (s.setNextSib after (some child))

/-- `appendNode`. -/
def appendNode (child parent : Nat) (s : Store) : Option Store :=
  appendSibling .children child parent (s.setParent child (some parent))

/-- `prependNode`. -/
def prependNode (child parent : Nat) (s : Store) : Store :=
  prependSibling .children child parent (s.setParent child (some parent))

/-- `insertNodeAfter`: the parent is `after`'s. -/
def insertNodeAfter (child after : Nat) (s : Store) : Option Store :=
  let parent := s.parent after
  insertSiblingAfter .children child after parent (s.setParent child parent)

/-- `insertNodeBefore`, as written: the new node's parent is set to `before` itself, and
a head `before` is recognised by a nil `prevSib`, which a linked node never has. -/
def insertNodeBefore (child before : Nat) (s : Store) : Option Store := do
  let parent := s.parent before
  let s := s.setParent child (some before)
  let s ← match s.prevSib before with
    | some prev => pure (s.setNextSib prev (some child))
    | none => do
      let p ← parent
      let head ← s.firstChild p
      pure (s.setPrevSib head (some child))
  let s := s.setPrevSib child (s.prevSib before)
  let s := s.setNextSib child (some before)
  pure (s.setPrevSib before (some child))

/-- `n.AppendChild(child)`. -/
def AppendChild (n child : Nat) (s : Store) : Option (Option Error × Store) :=
  match allowInsertChildErr (s.nodeType n) (s.nodeType child) with
  | some err => some (some err, s)
  | none => (appendNode child n s).map (none, ·)

/-- `n.PrependChild(child)`. -/
def PrependChild (n child : Nat) (s : Store) : Option (Option Error × Store) :=
  match allowInsertChildErr (s.nodeType n) (s.nodeType child) with
  | some err => some (some err, s)
  | none => some (none, prependNode child n s)

/-- `n.InsertChildAfter(child, after)`; a nil `after` appends. -/
def InsertChildAfter (n child : Nat) (after : Option Nat) (s : Store) :
    Option (Option Error × Store) :=
  match allowInsertChildErr (s.nodeType n) (s.nodeType child) with
  | some err => some (some err, s)
  | none =>
    match after with
    | none => (appendNode child n s).map (none, ·)
    | some r =>
      if s.parent r ≠ some n then some (some .hierarchyRequest, s)
      else (insertNodeAfter child r s).map (none, ·)

/-- `n.InsertChildBefore(child, before)`; a nil `before` prepends. -/
def InsertChildBefore (n child : Nat) (before : Option Nat) (s : Store) :
    Option (Option Error × Store) :=
  match allowInsertChildErr (s.nodeType n) (s.nodeType child) with
  | some err => some (some err, s)
  | none =>
    match before with
    | none => some (none, prependNode child n s)
    | some r =>
      if s.parent r ≠ some n then some (some .hierarchyRequest, s)
      else (insertNodeBefore child r s).map (none, ·)

/-! ## What the splices do -/

section Splice

variable {s : Store} {k : ListKind} {p c : Nat} {l : List Nat}

/-- On a well-formed list the tail is found: `appendSibling` does not panic. -/
theorem appendSibling_isSome (hl : SibList s (s.head k p) l) :
    ∃ s', appendSibling k c p s = some s' := by
  rcases l with _ | ⟨h, t⟩
  · have hh : s.head k p = none := hl.head_eq
    simp only [appendSibling, hh]
    exact ⟨_, rfl⟩
  · have hh : s.head k p = some h := hl.head_eq
    obtain ⟨tl, htl⟩ : ∃ tl, (h :: t).getLast? = some tl :=
      ⟨_, List.getLast?_eq_getLast _ (List.cons_ne_nil _ _)⟩
    have hpt : s.prevSib h = some tl := (hl.prev_head rfl).trans htl
    simp only [appendSibling, hh, hpt]
    exact ⟨_, rfl⟩

/-- The splices write sibling links and heads only. -/
theorem appendSibling_parent {s' : Store} (h : appendSibling k c p s = some s') (x : Nat) :
    s'.parent x = s.parent x := by
  unfold appendSibling at h
  split at h
  · obtain ⟨tl, -, h⟩ := Option.bind_eq_some.mp h
    cases h
    rfl
  · cases h
    simp

theorem appendSibling_next {s' : Store} (h : appendSibling k c p s = some s') :
    s'.next = s.next := by
  unfold appendSibling at h
  split at h
  · obtain ⟨tl, -, h⟩ := Option.bind_eq_some.mp h
    cases h
    rfl
  · cases h
    simp

theorem appendSibling_relinked (hl : SibList s (s.head k p) l) (hc : c ∉ l)
    (hnc : s.nextSib c = none) :
    ∃ s', appendSibling k c p s = some s' ∧ Relinked s s' k p c l (l ++ [c]) := by
  rcases l with _ | ⟨h, t⟩
  · -- an empty list: `c` becomes the head and its own tail
    have hh : s.head k p = none := hl.head_eq
    simp only [appendSibling, hh]
    refine ⟨_, rfl, ?_, fun x _ _ => by simp, fun x _ hx => ?_, fun k' q hq => ?_, by simp,
      by simp, by simp⟩
    · simp [hnc]
    · simp [Function.update_apply, hx]
    · simp [head_setHead_of_ne hq]
  · -- a non-empty list: `c` goes after the tail, and becomes the head's back link
    have hh : s.head k p = some h := hl.head_eq
    obtain ⟨tl, htl⟩ : ∃ tl, (h :: t).getLast? = some tl :=
      ⟨_, List.getLast?_eq_getLast _ (List.cons_ne_nil _ _)⟩
    have hpt : s.prevSib h = some tl := (hl.prev_head rfl).trans htl
    have hch : c ≠ h := fun e => hc (e ▸ List.mem_cons_self _ _)
    have hct : c ≠ tl := fun e => hc (e ▸ List.mem_of_getLast?_eq_some htl)
    simp only [appendSibling, hh, hpt]
    refine ⟨_, rfl, ?_, fun x hx _ => ?_, fun x hx hxc => ?_, fun _ _ _ => by simp,
      fun _ => rfl, fun _ => rfl, rfl⟩
    · simp only [head_setPrevSib, head_setNextSib]
      refine hl.concat rfl htl hc (fun x _ hx => ?_) (fun x hx hx' => ?_) (by simp) ?_ (by simp) ?_
      · simp [Function.update_apply, hx]
      · have hxc : x ≠ c := fun e => hc (e ▸ hx)
        simp [Function.update_apply, hx', hxc]
      · simp [Function.update_apply, hct, hnc]
      · simp [Function.update_apply, hch]
    · have hxt : x ≠ tl := fun e => hx (e ▸ List.mem_of_getLast?_eq_some htl)
      simp [Function.update_apply, hxt]
    · have hxh : x ≠ h := fun e => hx (e ▸ List.mem_cons_self _ _)
      simp [Function.update_apply, hxh, hxc]

theorem prependSibling_relinked (hl : SibList s (s.head k p) l) (hc : c ∉ l) :
    Relinked s (prependSibling k c p s) k p c l (c :: l) := by
  rcases l with _ | ⟨h, t⟩
  · -- an empty list: `c` becomes the only member
    have hh : s.head k p = none := hl.head_eq
    have he : prependSibling k c p s =
        ((s.setPrevSib c (some c)).setNextSib c none).setHead k p (some c) := by
      simp [prependSibling, hh]
    rw [he]
    refine ⟨by simp, fun x _ hx => ?_, fun x _ hx => ?_, fun k' q hq => ?_, by simp, by simp,
      by simp⟩
    · simp [Function.update_apply, hx]
    · simp [Function.update_apply, hx]
    · simp [head_setHead_of_ne hq]
  · -- a non-empty list: `c` goes before the head and takes over its back link
    have hh : s.head k p = some h := hl.head_eq
    obtain ⟨tl, htl⟩ : ∃ tl, (h :: t).getLast? = some tl :=
      ⟨_, List.getLast?_eq_getLast _ (List.cons_ne_nil _ _)⟩
    have hpt : s.prevSib h = some tl := (hl.prev_head rfl).trans htl
    have hch : c ≠ h := fun e => hc (e ▸ List.mem_cons_self _ _)
    have he : prependSibling k c p s = (((s.setPrevSib c (some tl)).setPrevSib h
        (some c)).setNextSib c (some h)).setHead k p (some c) := by
      simp [prependSibling, hh, hpt]
    rw [he]
    refine ⟨?_, fun x _ hx => ?_, fun x hx hxc => ?_, fun k' q hq => ?_, by simp, by simp,
      by simp⟩
    · simp only [head_setHead_self]
      refine hl.cons rfl htl hc (fun x hx => ?_) (fun x hx hx' => ?_) (by simp) (by simp) ?_
      · have hxc : x ≠ c := fun e => hc (e ▸ hx)
        simp [Function.update_apply, hxc]
      · have hxc : x ≠ c := fun e => hc (e ▸ hx)
        simp [Function.update_apply, hxc, hx']
      · simp [Function.update_apply, hch]
    · simp [Function.update_apply, hx]
    · have hxh : x ≠ h := fun e => hx (e ▸ List.mem_cons_self _ _)
      simp [Function.update_apply, hxh, hxc]
    · simp [head_setHead_of_ne hq]

theorem insertSiblingAfter_relinked {l₁ l₂ : List Nat} {r : Nat}
    (hl : SibList s (s.head k p) (l₁ ++ r :: l₂)) (hc : c ∉ l₁ ++ r :: l₂) :
    ∃ s', insertSiblingAfter k c r (some p) s = some s' ∧
      Relinked s s' k p c (l₁ ++ r :: l₂) (l₁ ++ r :: c :: l₂) := by
  have hnxr : s.nextSib r = l₂.head? := hl.next_eq
  have hcr : c ≠ r := fun e => hc (by simp [e])
  rcases l₂ with _ | ⟨m, l₂⟩
  · -- `r` is the tail: `c` becomes the tail and the head's back link
    obtain ⟨h, hh⟩ : ∃ h, (l₁ ++ [r]).head? = some h :=
      ⟨_, List.head?_eq_head (List.append_ne_nil_of_right_ne_nil _ (List.cons_ne_nil _ _))⟩
    have hhd : s.head k p = some h := hl.head_eq.trans hh
    have hmh : h ∈ l₁ ++ [r] := List.mem_of_mem_head? hh
    have hch : c ≠ h := fun e => hc (e ▸ hmh)
    have he : insertSiblingAfter k c r (some p) s = some ((((s.setPrevSib h
        (some c)).setNextSib c none).setPrevSib c (some r)).setNextSib r (some c)) := by
      simp [insertSiblingAfter, hnxr, hhd, Function.update_apply, hcr.symm]
    refine ⟨_, he, ?_, fun x hx hxc => ?_, fun x hx hxc => ?_, fun _ _ _ => by simp,
      fun _ => rfl, fun _ => rfl, rfl⟩
    · have hsib : SibList ((((s.setPrevSib h (some c)).setNextSib c none).setPrevSib c
          (some r)).setNextSib r (some c)) (s.head k p) (l₁ ++ [r] ++ [c]) :=
        hl.concat hh (List.getLast?_concat _) hc
        (fun x hx hx' => by
          have hxc : x ≠ c := fun e => hc (e ▸ hx)
          simp [Function.update_apply, hx', hxc])
        (fun x hx hx' => by
          have hxc : x ≠ c := fun e => hc (e ▸ hx)
          simp [Function.update_apply, hx', hxc])
        (by simp) (by simp [Function.update_apply, hcr]) (by simp [Function.update_apply, hch.symm])
        (by simp)
      simpa using hsib
    · have hxr : x ≠ r := fun e => hx (by simp [e])
      simp [Function.update_apply, hxr, hxc]
    · have hxh : x ≠ h := fun e => hx (e ▸ hmh)
      simp [Function.update_apply, hxh, hxc]
  · -- `r` has a successor `m`: `c` goes between them
    have hcm : c ≠ m := fun e => hc (by simp [e])
    have he : insertSiblingAfter k c r (some p) s = some ((((s.setPrevSib m
        (some c)).setNextSib c (some m)).setPrevSib c (some r)).setNextSib r (some c)) := by
      simp [insertSiblingAfter, hnxr]
    refine ⟨_, he, ?_, fun x hx hxc => ?_, fun x hx hxc => ?_, fun _ _ _ => by simp,
      fun _ => rfl, fun _ => rfl, rfl⟩
    · simp only [head_setNextSib, head_setPrevSib]
      refine hl.insertAfter hc (fun x hx hx' => ?_) (fun x hx hx' => ?_) (by simp)
        (by simp [Function.update_apply, hcr]) (by simp [Function.update_apply, hcm.symm])
        (by simp)
      · have hxc : x ≠ c := fun e => hc (e ▸ hx)
        simp [Function.update_apply, hx', hxc]
      · have hxc : x ≠ c := fun e => hc (e ▸ hx)
        simp [Function.update_apply, hx', hxc]
    · have hxr : x ≠ r := fun e => hx (by simp [e])
      simp [Function.update_apply, hxr, hxc]
    · have hxm : x ≠ m := fun e => hx (by simp [e])
      simp [Function.update_apply, hxm, hxc]

end Splice

/-- What splicing the detached node `c` into the child list of `n` leaves: the shape
with that list now `l'`, `c`'s parent `n`, and every other parent link, the next link of
every node off the list, and every payload as before. -/
structure Spliced (s s' : Store) (C A : Nat → List Nat) (n c : Nat) (l' : List Nat) :
    Prop where
  shape : Shape s' (Function.update C n l') A
  parent_c : s'.parent c = some n
  parent_other : ∀ x, x ≠ c → s'.parent x = s.parent x
  nextSib : ∀ x, x ∉ C n → x ≠ c → s'.nextSib x = s.nextSib x
  value : s'.value = s.value
  next : s'.next = s.next

section Spliced

variable {s s' : Store} {C A : Nat → List Nat} {n c : Nat}

/-- A child-list splice made after `c.parent = n` is a `Spliced` store. -/
theorem Spliced.of_relinked (hs : Shape s C A) (hd : Detached s C A c) {l' : List Nat}
    (hl' : ∀ x, x ∈ l' ↔ x ∈ C n ∨ x = c)
    (hr : Relinked (s.setParent c (some n)) s' .children n c (C n) l') :
    Spliced s s' C A n c l' :=
  ⟨hs.relink hd hl' hr, by simp [hr.parent], fun x hx => by simp [hr.parent, hx],
    fun x hx hxc => by simpa using hr.nextSib x hx hxc, funext hr.value, hr.next⟩

theorem appendNode_spliced (hs : Shape s C A) (hd : Detached s C A c) :
    ∃ s', appendNode c n s = some s' ∧ Spliced s s' C A n c (C n ++ [c]) := by
  have hsib : SibList (s.setParent c (some n)) ((s.setParent c (some n)).head .children n)
      (C n) := by simpa using hs.kids n
  obtain ⟨s', he, hr⟩ := appendSibling_relinked hsib (hd.kids n) hd.nextSib
  exact ⟨s', he, .of_relinked hs hd (by simp) hr⟩

/-- Appending a detached node that the kind check admits: the store is spliced as
`appendNode` splices it. -/
theorem appendChild_detached (hs : Shape s C A) (hd : Detached s C A c) (n : Nat)
    (hk : allowInsertChild (s.nodeType n) (s.nodeType c) = true) :
    ∃ s', AppendChild n c s = some (none, s') ∧ Spliced s s' C A n c (C n ++ [c]) := by
  obtain ⟨s', ha, hsp⟩ : ∃ s', appendNode c n s = some s' ∧ Spliced s s' C A n c (C n ++ [c]) :=
    appendNode_spliced hs hd
  exact ⟨s', by simp [AppendChild, allowInsertChildErr_eq_none.mpr hk, ha], hsp⟩

theorem prependNode_spliced (hs : Shape s C A) (hd : Detached s C A c) :
    Spliced s (prependNode c n s) C A n c (c :: C n) := by
  have hsib : SibList (s.setParent c (some n)) ((s.setParent c (some n)).head .children n)
      (C n) := by simpa using hs.kids n
  exact .of_relinked hs hd (by simp [or_comm]) (prependSibling_relinked hsib (hd.kids n))

theorem insertNodeAfter_spliced (hs : Shape s C A) (hd : Detached s C A c)
    {l₁ l₂ : List Nat} {r : Nat} (hl : C n = l₁ ++ r :: l₂) :
    ∃ s', insertNodeAfter c r s = some s' ∧ Spliced s s' C A n c (l₁ ++ r :: c :: l₂) := by
  have hr : s.parent r = some n := hs.parent n r (by simp [hl])
  have hsib : SibList (s.setParent c (some n)) ((s.setParent c (some n)).head .children n)
      (l₁ ++ r :: l₂) := by simpa [hl] using hs.kids n
  obtain ⟨s', he, hre⟩ := insertSiblingAfter_relinked hsib (hl ▸ hd.kids n)
  refine ⟨s', by simpa [insertNodeAfter, hr] using he, .of_relinked hs hd ?_ (hl ▸ hre)⟩
  intro x
  simp only [hl, List.mem_append, List.mem_cons]
  tauto

end Spliced

/-! ## The public insertions -/

/-- The contract of one insertion of a detached `c` under `n`, where `l'` is the list `n`
should end with: a hierarchy error that returns the store it was given, exactly when
the kinds are rejected; otherwise success with a well-formed, acyclic store in which
only `n`'s child list changed, to `l'`. -/
def InsertContract (s : Store) (C A : Nat → List Nat) (n c : Nat) (l' : List Nat)
    (r : Option (Option Error × Store)) : Prop :=
  (allowInsertChild (s.nodeType n) (s.nodeType c) = false ∧
    ∃ e, r = some (some e, s) ∧ e.cause = .hierarchyRequest) ∨
  (allowInsertChild (s.nodeType n) (s.nodeType c) = true ∧
    ∃ s', r = some (none, s') ∧ Shape s' (Function.update C n l') A ∧ Acyclic s')

section Contract

variable {s s' : Store} {C A : Nat → List Nat} {n c : Nat} {l' : List Nat}

theorem InsertContract.of_err {e : Error}
    (he : allowInsertChildErr (s.nodeType n) (s.nodeType c) = some e) :
    InsertContract s C A n c l' (some (some e, s)) :=
  .inl ⟨(allowInsertChildErr_eq_some he).1, e, rfl, (allowInsertChildErr_eq_some he).2⟩

theorem InsertContract.of_spliced (hac : Acyclic s)
    (hcn : ¬ Relation.ReflTransGen (ParentOf s) c n)
    (he : allowInsertChildErr (s.nodeType n) (s.nodeType c) = none)
    (hsp : Spliced s s' C A n c l') : InsertContract s C A n c l' (some (none, s')) :=
  .inr ⟨allowInsertChildErr_eq_none.mp he, s', rfl, hsp.shape,
    hac.setParent hsp.parent_other hsp.parent_c hcn⟩

variable (hs : Shape s C A) (hac : Acyclic s) (hd : Detached s C A c)
  (hcn : ¬ Relation.ReflTransGen (ParentOf s) c n)
include hs hac hd hcn

theorem appendChild_contract : InsertContract s C A n c (C n ++ [c]) (AppendChild n c s) := by
  unfold AppendChild
  rcases he : allowInsertChildErr (s.nodeType n) (s.nodeType c) with _ | e
  · obtain ⟨sa, ha, hsp⟩ : ∃ s', appendNode c n s = some s' ∧ Spliced s s' C A n c (C n ++ [c]) :=
      appendNode_spliced hs hd
    rw [ha]
    exact .of_spliced hac hcn he hsp
  · exact .of_err he

theorem prependChild_contract : InsertContract s C A n c (c :: C n) (PrependChild n c s) := by
  unfold PrependChild
  rcases he : allowInsertChildErr (s.nodeType n) (s.nodeType c) with _ | e
  · exact .of_spliced hac hcn he (prependNode_spliced hs hd)
  · exact .of_err he

theorem insertChildAfter_contract {r : Nat} {l₁ l₂ : List Nat} (hl : C n = l₁ ++ r :: l₂) :
    InsertContract s C A n c (l₁ ++ r :: c :: l₂) (InsertChildAfter n c (some r) s) := by
  unfold InsertChildAfter
  rcases he : allowInsertChildErr (s.nodeType n) (s.nodeType c) with _ | e
  · obtain ⟨si, hi, hsp⟩ := insertNodeAfter_spliced hs hd hl
    have hr : s.parent r = some n := hs.parent n r (by simp [hl])
    simp only [hr, ne_eq, not_true_eq_false, ite_false, hi, Option.map_some']
    exact .of_spliced hac hcn he hsp
  · exact .of_err he

/-- **The child insertions keep the sibling lists well formed.** On a well-formed store
with an acyclic parent relation, inserting a detached node `c` that is neither `n` nor
an ancestor of `n` by `AppendChild`, `PrependChild`, `InsertChildAfter` (after nothing,
or after a child `r` of `n`) or `InsertChildBefore` (before nothing) meets the
`InsertContract`: `n`'s list becomes the old one with `c` appended, prepended, or placed
right after `r`. -/
theorem child_insertion_contract :
    InsertContract s C A n c (C n ++ [c]) (AppendChild n c s) ∧
    InsertContract s C A n c (c :: C n) (PrependChild n c s) ∧
    InsertContract s C A n c (C n ++ [c]) (InsertChildAfter n c none s) ∧
    (∀ r l₁ l₂, C n = l₁ ++ r :: l₂ →
      InsertContract s C A n c (l₁ ++ r :: c :: l₂) (InsertChildAfter n c (some r) s)) ∧
    InsertContract s C A n c (c :: C n) (InsertChildBefore n c none s) :=
  -- after nothing and before nothing are `AppendChild` and `PrependChild`, by definition
  ⟨appendChild_contract hs hac hd hcn, prependChild_contract hs hac hd hcn,
    appendChild_contract hs hac hd hcn,
    fun _ _ _ hl => insertChildAfter_contract hs hac hd hcn hl,
    prependChild_contract hs hac hd hcn⟩

end Contract

/-- A document at pointer `0` and a detached element at pointer `1`. -/
def docAndElement : Store := (Store.empty.push .document).push (.element ⟨"", "a"⟩ "")

/-- A Document at `0` whose one child is the element at `1`, and a detached element at
`2`. -/
def docChildAndElement : Store :=
  (appendNode 1 0 (docAndElement.push (.element ⟨"", "b"⟩ ""))).getD docAndElement

theorem docChildAndElement_spliced :
    Spliced (docAndElement.push (.element ⟨"", "b"⟩ "")) docChildAndElement (fun _ => [])
      (fun _ => []) 0 1 ([] ++ [1]) := by
  have hl : Linkless (docAndElement.push (.element ⟨"", "b"⟩ "")) :=
    ((Linkless.empty.push _).push _).push _
  obtain ⟨s', he, hsp⟩ : ∃ s', appendNode 1 0 (docAndElement.push (.element ⟨"", "b"⟩ "")) =
      some s' ∧ Spliced _ s' (fun _ => []) (fun _ => []) 0 1 ([] ++ [1]) :=
    appendNode_spliced hl.shape (hl.detached 1)
  simpa only [docChildAndElement, he, Option.getD_some] using hsp

theorem docChildAndElement_shape :
    Shape docChildAndElement (Function.update (fun _ => []) 0 [1]) (fun _ => []) := by
  simpa using docChildAndElement_spliced.shape

theorem docChildAndElement_acyclic : Acyclic docChildAndElement :=
  (((Linkless.empty.push _).push _).push _ : Linkless (docAndElement.push _)).acyclic.setParent
    docChildAndElement_spliced.parent_other docChildAndElement_spliced.parent_c
    ((((Linkless.empty.push _).push _).push _ : Linkless (docAndElement.push _)).not_reach
      (by decide))

theorem docChildAndElement_detached :
    Detached docChildAndElement (Function.update (fun _ => []) 0 [1]) (fun _ => []) 2 :=
  ⟨rfl, fun p => by by_cases hp : p = 0 <;> simp [Function.update_apply, hp], fun _ => by simp⟩

/-- In `docChildAndElement` the detached `2` is above neither the Document nor its child. -/
theorem docChildAndElement_not_reach {n : Nat} (hn : n = 0 ∨ n = 1) :
    ¬ Relation.ReflTransGen (ParentOf docChildAndElement) 2 n := by
  have h₀ : ¬ Relation.ReflTransGen (ParentOf docChildAndElement) 2 0 :=
    not_reach_of_parent (by decide) fun m hm => nomatch hm
  rcases hn with rfl | rfl
  · exact h₀
  · exact not_reach_of_parent (by decide) fun m hm => by
      obtain rfl : 0 = m := Option.some.inj hm
      exact h₀

theorem child_insertion_contract_docChildAndElement :
    Shape docChildAndElement (Function.update (fun _ => []) 0 [1]) (fun _ => []) ∧
    Acyclic docChildAndElement ∧
    Detached docChildAndElement (Function.update (fun _ => []) 0 [1]) (fun _ => []) 2 ∧
    ¬ Relation.ReflTransGen (ParentOf docChildAndElement) 2 0 ∧
    (InsertContract docChildAndElement (Function.update (fun _ => []) 0 [1]) (fun _ => []) 0 2
        (Function.update (fun _ => []) 0 [1] 0 ++ [2]) (AppendChild 0 2 docChildAndElement) ∧
      InsertContract docChildAndElement (Function.update (fun _ => []) 0 [1]) (fun _ => []) 0 2
        (2 :: Function.update (fun _ => []) 0 [1] 0) (PrependChild 0 2 docChildAndElement) ∧
      InsertContract docChildAndElement (Function.update (fun _ => []) 0 [1]) (fun _ => []) 0 2
        (Function.update (fun _ => []) 0 [1] 0 ++ [2])
        (InsertChildAfter 0 2 none docChildAndElement) ∧
      (∀ r l₁ l₂, Function.update (fun _ => []) 0 [1] 0 = l₁ ++ r :: l₂ →
        InsertContract docChildAndElement (Function.update (fun _ => []) 0 [1]) (fun _ => []) 0 2
          (l₁ ++ r :: 2 :: l₂) (InsertChildAfter 0 2 (some r) docChildAndElement)) ∧
      InsertContract docChildAndElement (Function.update (fun _ => []) 0 [1]) (fun _ => []) 0 2
        (2 :: Function.update (fun _ => []) 0 [1] 0) (InsertChildBefore 0 2 none docChildAndElement)) ∧
    -- after the child `1`
    InsertContract docChildAndElement (Function.update (fun _ => []) 0 [1]) (fun _ => []) 0 2
      ([] ++ 1 :: 2 :: []) (InsertChildAfter 0 2 (some 1) docChildAndElement) :=
  have h := child_insertion_contract docChildAndElement_shape docChildAndElement_acyclic
    docChildAndElement_detached (docChildAndElement_not_reach (.inl rfl))
  ⟨docChildAndElement_shape, docChildAndElement_acyclic, docChildAndElement_detached,
    docChildAndElement_not_reach (.inl rfl), h, h.2.2.2.1 1 [] [] rfl⟩

/-- `docChildAndElement` with `2` appended to the Document: its children are `1` and `2`. -/
def docTwoChildren : Store := (appendNode 2 0 docChildAndElement).getD docChildAndElement

/-- `docChildAndElement` with `2` appended to the element `1`: a chain `0`, `1`, `2`. -/
def nestedElements : Store := (appendNode 2 1 docChildAndElement).getD docChildAndElement

/-- Appending the detached `2` of `docChildAndElement` under `n` splices it. -/
theorem docChildAndElement_append_spliced (n : Nat) :
    Spliced docChildAndElement ((appendNode 2 n docChildAndElement).getD docChildAndElement)
      (Function.update (fun _ => []) 0 [1]) (fun _ => []) n 2
      (Function.update (fun _ => []) 0 [1] n ++ [2]) := by
  obtain ⟨s', he, hsp⟩ : ∃ s', appendNode 2 n docChildAndElement = some s' ∧
      Spliced docChildAndElement s' (Function.update (fun _ => []) 0 [1]) (fun _ => []) n 2
        (Function.update (fun _ => []) 0 [1] n ++ [2]) :=
    appendNode_spliced docChildAndElement_shape docChildAndElement_detached
  simpa only [he, Option.getD_some] using hsp

theorem docTwoChildren_shape :
    Shape docTwoChildren (Function.update (fun _ => []) 0 [1, 2]) (fun _ => []) := by
  simpa using (docChildAndElement_append_spliced 0).shape

theorem nestedElements_shape :
    Shape nestedElements (Function.update (Function.update (fun _ => []) 0 [1]) 1 [2])
      (fun _ => []) := by
  simpa using (docChildAndElement_append_spliced 1).shape

theorem docTwoChildren_acyclic : Acyclic docTwoChildren :=
  docChildAndElement_acyclic.setParent (docChildAndElement_append_spliced 0).parent_other
    (docChildAndElement_append_spliced 0).parent_c (docChildAndElement_not_reach (.inl rfl))

theorem nestedElements_acyclic : Acyclic nestedElements :=
  docChildAndElement_acyclic.setParent (docChildAndElement_append_spliced 1).parent_other
    (docChildAndElement_append_spliced 1).parent_c (docChildAndElement_not_reach (.inr rfl))

/-! ## No cycle check -/

/-- On a well-formed store, `appendNode` finds a tail and does not panic. -/
theorem appendNode_isSome {s : Store} {C A : Nat → List Nat} (hs : Shape s C A) (c n : Nat) :
    ∃ s', appendNode c n s = some s' :=
  appendSibling_isSome (SibList.setParent_iff.mpr (hs.kids n))

theorem appendNode_parent {s s' : Store} {c n : Nat} (h : appendNode c n s = some s') :
    s'.parent c = some n := by
  simpa using appendSibling_parent h c

/-- Every element of a well-formed store can be appended to itself: the kind check
passes, and the node becomes its own parent. -/
theorem appendChild_self_parent {s : Store} {C A : Nat → List Nat} (hs : Shape s C A) {n : Nat}
    (hn : s.nodeType n = .element) :
    ∃ s', AppendChild n n s = some (none, s') ∧ Ancestor s' n n := by
  obtain ⟨s', h⟩ := appendNode_isSome hs n n
  refine ⟨s', ?_, .single (appendNode_parent h)⟩
  simp [AppendChild, hn, allowInsertChildErr, allowInsertChild, h]

/-- A one-element document fragment of the store: a lone element at pointer `0`. -/
def loneElement : Store := Store.empty.push (.element ⟨"", "a"⟩ "")

/-- `n.AppendChild(n)` on a lone element succeeds and makes the element its own
parent, so its parent chain never ends. -/
theorem appendChild_self_cycle :
    ∃ s', AppendChild 0 0 loneElement = some (none, s') ∧ Ancestor s' 0 0 :=
  ⟨_, rfl, .single rfl⟩

/-! ## Insert-before -/

/-- **`InsertChildBefore` misplaces the node.** Before any child `r` of `n` the call
succeeds, but `insertNodeBefore` writes `c.parent = r`, so `c` is linked into `n`'s list
with the wrong parent. Before the first child it does more damage: a head is recognised
by a nil `prevSib`, which a well-formed head never has (it links round to the tail), so
the tail's forward link is pointed at `c` and `c`'s at `r`, closing the forward list into
a cycle, while `n.firstChild` stays `r`. -/
theorem insertChildBefore_misparents {s : Store} {C A : Nat → List Nat} {n r c : Nat}
    {l₁ l₂ : List Nat} (hs : Shape s C A) (hd : Detached s C A c) (hl : C n = l₁ ++ r :: l₂)
    (hk : allowInsertChild (s.nodeType n) (s.nodeType c) = true) :
    ∃ s', InsertChildBefore n c (some r) s = some (none, s') ∧ s'.parent c = some r ∧
      (l₁ = [] → s'.firstChild n = some r ∧
        s'.nextSib ((r :: l₂).getLast (List.cons_ne_nil r l₂)) = some c ∧
        s'.nextSib c = some r) := by
  have hsib : SibList s (s.firstChild n) (l₁ ++ r :: l₂) := hl ▸ hs.kids n
  have hr : s.parent r = some n := hs.parent n r (by simp [hl])
  have hcr : c ≠ r := fun e => hd.kids n (by simp [hl, e])
  -- `r` links back to its predecessor, or round to the tail when it is the head
  obtain ⟨prev, hprev, hhead⟩ : ∃ prev, s.prevSib r = some prev ∧
      (l₁ = [] → prev = (r :: l₂).getLast (List.cons_ne_nil r l₂)) := by
    rcases List.eq_nil_or_concat l₁ with rfl | ⟨l₀, y, rfl⟩
    · exact ⟨_, (hsib.prev_head rfl).trans (List.getLast?_eq_getLast _ _), fun _ => rfl⟩
    · exact ⟨y, (show SibList s _ (l₀ ++ y :: r :: l₂) by simpa using hsib).prev_eq, by simp⟩
  have he : InsertChildBefore n c (some r) s = some (none, ((((s.setParent c (some r)).setNextSib
      prev (some c)).setPrevSib c (some prev)).setNextSib c (some r)).setPrevSib r (some c)) := by
    simp [InsertChildBefore, insertNodeBefore, allowInsertChildErr_eq_none.mpr hk, hr, hprev]
  refine ⟨_, he, by simp, fun h₁ => ?_⟩
  have hct : prev ≠ c := fun e => hd.kids n (by rw [hl, ← e, hhead h₁, h₁]; simp [List.getLast_mem])
  simp [Function.update_apply, hs.firstChild_eq, hl, h₁, ← hhead h₁, hct, hcr]

theorem insertChildBefore_misparents_docChildAndElement :
    Shape docChildAndElement (Function.update (fun _ => []) 0 [1]) (fun _ => []) ∧
    Detached docChildAndElement (Function.update (fun _ => []) 0 [1]) (fun _ => []) 2 ∧
    Function.update (fun _ => []) 0 [1] 0 = [] ++ 1 :: [] ∧
    allowInsertChild (docChildAndElement.nodeType 0) (docChildAndElement.nodeType 2) = true ∧
    ∃ s', InsertChildBefore 0 2 (some 1) docChildAndElement = some (none, s') ∧
      s'.parent 2 = some 1 ∧
      (([] : List Nat) = [] → s'.firstChild 0 = some 1 ∧
        s'.nextSib ([1].getLast (List.cons_ne_nil 1 [])) = some 2 ∧ s'.nextSib 2 = some 1) := by
  exact ⟨docChildAndElement_shape, docChildAndElement_detached, rfl, rfl,
    insertChildBefore_misparents docChildAndElement_shape docChildAndElement_detached rfl rfl⟩

end Opr8.Dom
