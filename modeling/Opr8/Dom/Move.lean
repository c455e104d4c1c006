import Opr8.Dom.Navigate

/-!
# Opr8 — the move check `allowMove`

`allowMove(parent, child)` is the check the source keeps for moving a node that may
already be in a tree: the kinds must admit `child` under `parent`, the two must have the
same owner document, and `child` must not be met walking up from `parent`, `parent`
itself included. No insertion calls it (`appendChild_self_cycle`).

Both of its loops follow parent links. In a store of arbitrary links they need not end,
so each is given the `s.next` rounds the other loops get, `none` standing for a loop that
has not ended. Once the parent relation is acyclic and every parent link names an
allocated node (`ParentsBelow`), every parent chain ends within those rounds.

Main results:

* `parentChain_isSome`, `mem_parentChain` — on such a store the parent chain of an
  allocated node ends within `s.next` rounds, and holds exactly the node and its
  ancestors.
* `allowMove_decides` — `allowMove` then returns, and answers true exactly when the kinds
  admit the child and the child is neither the parent nor one of its ancestors. The
  owner-document test never turns a move away: both owners are nil.
* `acyclic_setParent_iff` — a write of `c.parent = n` keeps the parent relation acyclic
  exactly when `c` is neither `n` nor an ancestor of `n`.
* `allowMove_iff_insert` — so `allowMove p c` answers true exactly when `AppendChild`,
  `PrependChild`, or `InsertChildAfter` next to a child of `p`, inserting `c` under `p`
  succeeds without an error and leaves the parent relation acyclic: it is the cycle check
  the insertions lack.
-/

namespace Opr8.Dom

open Store

namespace Store

/-- The loop of `allowMove`, `for cur := parent; cur != nil; cur = cur.parent`, within
`fuel` rounds: false at `child`, true once the chain ends. -/
def moveLoop (s : Store) (child : Nat) : Nat → Option Nat → Option Bool
  | _, none => some true
  | 0, some _ => none
  | fuel + 1, some cur =>
    if cur = child then some false else s.moveLoop child fuel (s.parent cur)

end Store

/-- `allowMove(parent, child)`; the owner documents are compared as the nodes found. -/
def allowMove (parent child : Nat) (s : Store) : Option Bool :=
  if !allowInsertChild (s.nodeType parent) (s.nodeType child) then some false
  else do
    let dp ← s.OwnerDocument parent
    let dc ← s.OwnerDocument child
    if dp ≠ dc then pure false else s.moveLoop child s.next (some parent)

/-- Every parent link names an allocated node. -/
def ParentsBelow (s : Store) : Prop := ∀ x y, s.parent x = some y → y < s.next

/-! ## Parent chains -/

section Chains

variable {s : Store}

@[simp] theorem Store.parentChain_none (fuel : Nat) : s.parentChain fuel none = some [] := by
  cases fuel <;> rfl

theorem Store.parentChain_some {fuel p : Nat} {l : List Nat}
    (h : s.parentChain (fuel + 1) (some p) = some l) :
    ∃ l', s.parentChain fuel (s.parent p) = some l' ∧ l = p :: l' := by
  obtain ⟨l', hl', rfl⟩ := Option.map_eq_some'.mp h
  exact ⟨l', hl', rfl⟩

/-- The loop of `allowMove` over a chain that ends: true when `child` is not on it. -/
theorem moveLoop_of_parentChain (c : Nat) : ∀ {fuel : Nat} {h : Option Nat} {l : List Nat},
    s.parentChain fuel h = some l → s.moveLoop c fuel h = some (decide (c ∉ l))
  | fuel, none, l, hl => by
    obtain rfl : l = [] := by simpa using hl.symm
    cases fuel <;> rfl
  | 0, some _, _, hl => nomatch hl
  | fuel + 1, some p, _, hl => by
    obtain ⟨l', hl', rfl⟩ := Store.parentChain_some hl
    by_cases hp : p = c
    · simp [moveLoop, hp]
    · simp [moveLoop, hp, moveLoop_of_parentChain c hl', Ne.symm hp]

/-- **A chain that ends holds the node it starts from and its ancestors**, and nothing
else. -/
theorem mem_parentChain : ∀ {fuel : Nat} {h : Option Nat} {l : List Nat},
    s.parentChain fuel h = some l →
      ∀ x, x ∈ l ↔ ∃ p, h = some p ∧ Relation.ReflTransGen (ParentOf s) x p
  | fuel, none, l, hl, x => by
    obtain rfl : l = [] := by simpa using hl.symm
    simp
  | 0, some _, _, hl, _ => nomatch hl
  | fuel + 1, some p, _, hl, x => by
    obtain ⟨l', hl', rfl⟩ := Store.parentChain_some hl
    rw [List.mem_cons, mem_parentChain hl' x]
    simp only [Option.some.injEq, exists_eq_left']
    rw [Relation.ReflTransGen.cases_tail_iff]
    exact or_congr eq_comm (exists_congr fun q => and_comm)

/-- A chain that runs out of rounds has met `fuel + 1` nodes, each the parent of the one
before. -/
theorem parentChain_eq_none : ∀ {fuel : Nat} {h : Option Nat}, s.parentChain fuel h = none →
    ∃ l x, l.length = fuel ∧ Seg s.parent h l (some x)
  | _, none, hl => by simp at hl
  | 0, some x, _ => ⟨[], x, rfl, rfl⟩
  | fuel + 1, some p, hl => by
    obtain ⟨l, x, hlen, hseg⟩ := parentChain_eq_none (Option.map_eq_none'.mp hl)
    exact ⟨p :: l, x, by simp [hlen], rfl, hseg⟩

/-- The nodes met above `p` are ancestors of `p`. -/
theorem ancestor_of_seg : ∀ {p : Nat} {l : List Nat} {e : Option Nat},
    Seg s.parent (s.parent p) l e → ∀ m ∈ l ++ e.toList, Ancestor s m p
  | _, [], _, hs, m, hm => by
    rw [List.nil_append, ← seg_nil.mp hs] at hm
    exact .single (Option.mem_toList.mp hm)
  | _, q :: l, _, ⟨hq, hs⟩, m, hm => by
    rcases List.mem_cons.mp hm with rfl | hm
    · exact .single hq
    · exact .tail (ancestor_of_seg hs m hm) hq

/-- In an acyclic store a parent segment meets no node twice. -/
theorem Seg.nodup_of_acyclic (hac : Acyclic s) : ∀ {h : Option Nat} {l : List Nat}
    {e : Option Nat}, Seg s.parent h l e → (l ++ e.toList).Nodup
  | _, [], e, _ => by cases e <;> simp
  | _, p :: _, _, ⟨rfl, hs⟩ =>
    List.nodup_cons.mpr ⟨fun hm => hac p (ancestor_of_seg hs p hm), hs.nodup_of_acyclic hac⟩

/-- Above an allocated node every node met is allocated. -/
theorem lt_of_reflTransGen (hpb : ParentsBelow s) {m p : Nat} (hp : p < s.next)
    (h : Relation.ReflTransGen (ParentOf s) m p) : m < s.next := by
  rcases Relation.ReflTransGen.cases_head h with rfl | ⟨c, hc, -⟩
  · exact hp
  · exact hpb c m hc

/-- The nodes of a parent segment from `p`, and the node it ends at, are `p` and its
ancestors. -/
theorem reflTransGen_of_seg {p : Nat} {l : List Nat} {e : Option Nat}
    (hs : Seg s.parent (some p) l e) :
    ∀ m ∈ l ++ e.toList, Relation.ReflTransGen (ParentOf s) m p := by
  rcases l with _ | ⟨q, l⟩
  · obtain rfl := seg_nil.mp hs
    intro m hm
    obtain rfl : m = p := by simpa using hm
    exact .refl
  · obtain ⟨hq, hs⟩ := hs
    obtain rfl := Option.some_injective _ hq
    intro m hm
    rcases List.mem_cons.mp hm with rfl | hm
    · exact .refl
    · exact (ancestor_of_seg hs m hm).to_reflTransGen

variable (hac : Acyclic s) (hpb : ParentsBelow s)
include hac hpb

/-- **The parent chain of an allocated node ends** within `s.next` rounds: a chain that
did not would meet `s.next + 1` distinct allocated nodes. -/
theorem parentChain_isSome {p : Nat} (hp : p < s.next) :
    ∃ l, s.parentChain s.next (some p) = some l := by
  rcases hc : s.parentChain s.next (some p) with _ | l
  · obtain ⟨l, x, hlen, hseg⟩ := parentChain_eq_none hc
    have := length_le_of_nodup (hseg.nodup_of_acyclic hac)
      fun m hm => lt_of_reflTransGen hpb hp (reflTransGen_of_seg hseg m hm)
    rw [List.length_append, hlen, Option.toList_some, List.length_singleton] at this
    omega
  · exact ⟨l, rfl⟩

/-- `OwnerDocument` returns nil on every node: the chain it walks ends. -/
theorem ownerDocument_eq_nil (n : Nat) : s.OwnerDocument n = some none := by
  obtain ⟨l, hl⟩ : ∃ l, s.parentChain s.next (s.parent n) = some l := by
    rcases h : s.parent n with _ | q
    · exact ⟨[], Store.parentChain_none _⟩
    · exact parentChain_isSome hac hpb (hpb n q h)
  rw [OwnerDocument, s.ownerLoop_eq, hl]
  rfl

/-- **Parent chains end, and `OwnerDocument` is nil on every node.** On an acyclic store
whose parent links name allocated nodes, the loop up the parent links from an allocated
node ends within the `s.next` rounds it is given, having met exactly the node and its
ancestors. `OwnerDocument` walks the same links, so it returns on every node, and what it
returns is nil. -/
theorem parentChain_ends {p : Nat} (hp : p < s.next) :
    (∃ l, s.parentChain s.next (some p) = some l ∧
      ∀ x, x ∈ l ↔ Relation.ReflTransGen (ParentOf s) x p) ∧
    ∀ n, s.OwnerDocument n = some none := by
  obtain ⟨l, hl⟩ := parentChain_isSome hac hpb hp
  exact ⟨⟨l, hl, fun x => by simp [mem_parentChain hl]⟩, ownerDocument_eq_nil hac hpb⟩

/-- What `allowMove` answers: the kinds, and whether `c` is off the parent chain of `p`. -/
theorem allowMove_eq_of_parentChain {p : Nat} {l : List Nat}
    (hl : s.parentChain s.next (some p) = some l) (c : Nat) :
    allowMove p c s = some (allowInsertChild (s.nodeType p) (s.nodeType c) && decide (c ∉ l)) := by
  cases hk : allowInsertChild (s.nodeType p) (s.nodeType c)
  · simp [allowMove, hk]
  · simp [allowMove, hk, ownerDocument_eq_nil hac hpb, moveLoop_of_parentChain c hl]

theorem allowMove_eq_true_iff {p : Nat} (hp : p < s.next) (c : Nat) :
    allowMove p c s = some true ↔ allowInsertChild (s.nodeType p) (s.nodeType c) = true ∧
      ¬ Relation.ReflTransGen (ParentOf s) c p := by
  obtain ⟨l, hl⟩ := parentChain_isSome hac hpb hp
  simp [allowMove_eq_of_parentChain hac hpb hl, mem_parentChain hl]

/-- **`allowMove` decides the move.** On an acyclic store whose parent links name
allocated nodes, `allowMove p c` for an allocated `p` returns, and answers true exactly
when the kinds admit `c` under `p` and `c` is neither `p` nor an ancestor of `p`. The
comparison of owner documents never turns the move away: `OwnerDocument` is nil on both
sides. -/
theorem allowMove_decides {p : Nat} (hp : p < s.next) (c : Nat) :
    ∃ b, allowMove p c s = some b ∧
      (b = true ↔ allowInsertChild (s.nodeType p) (s.nodeType c) = true ∧
        ¬ Relation.ReflTransGen (ParentOf s) c p) := by
  obtain ⟨l, hl⟩ := parentChain_isSome hac hpb hp
  exact ⟨_, allowMove_eq_of_parentChain hac hpb hl c, by simp [mem_parentChain hl]⟩

end Chains

/-- No node of a store of fresh nodes has a parent. -/
theorem Linkless.parentsBelow {s : Store} (h : Linkless s) : ParentsBelow s :=
  fun x y hx => by simp [(h x).1] at hx

/-- A splice under an allocated node keeps every parent link on an allocated node. -/
theorem ParentsBelow.of_spliced {s s' : Store} {C A : Nat → List Nat} {n c : Nat}
    {l' : List Nat} (hpb : ParentsBelow s) (hsp : Spliced s s' C A n c l') (hn : n < s.next) :
    ParentsBelow s' := fun x y hx => by
  rw [hsp.next]
  by_cases hxc : x = c
  · subst hxc
    obtain rfl : n = y := Option.some.inj (hsp.parent_c.symm.trans hx)
    exact hn
  · exact hpb x y (by rwa [← hsp.parent_other x hxc])

/-- A store whose parent links were all there before, on no fewer nodes, keeps every
parent link on an allocated node. -/
theorem ParentsBelow.of_parent_sub {s s' : Store} (hpb : ParentsBelow s) (hn : s.next ≤ s'.next)
    (h : ∀ x y, s'.parent x = some y → s.parent x = some y) : ParentsBelow s' :=
  fun x y hx => lt_of_lt_of_le (hpb x y (h x y hx)) hn

theorem nestedElements_parentsBelow : ParentsBelow nestedElements :=
  ((((Linkless.empty.push _).push _).push _ : Linkless (docAndElement.push _)).parentsBelow.of_spliced
    docChildAndElement_spliced (by decide)).of_spliced (docChildAndElement_append_spliced 1)
    (by decide)

/-- Up from the element `2` of `nestedElements` the chain meets `2`, `1` and the Document. -/
theorem parentChain_ends_nestedElements :
    Acyclic nestedElements ∧ ParentsBelow nestedElements ∧ 2 < nestedElements.next ∧
    nestedElements.parentChain nestedElements.next (some 2) = some [2, 1, 0] ∧
    (∃ l, nestedElements.parentChain nestedElements.next (some 2) = some l ∧
      ∀ x, x ∈ l ↔ Relation.ReflTransGen (ParentOf nestedElements) x 2) ∧
    ∀ n, nestedElements.OwnerDocument n = some none :=
  ⟨nestedElements_acyclic, nestedElements_parentsBelow, by decide, rfl,
    parentChain_ends nestedElements_acyclic nestedElements_parentsBelow
      (show 2 < nestedElements.next by decide)⟩

/-- Moving the element `1` of `nestedElements` under its own child `2`: the kinds admit
it, but `1` is on the chain up from `2`, and `allowMove` answers false. -/
theorem allowMove_decides_nestedElements :
    Acyclic nestedElements ∧ ParentsBelow nestedElements ∧ 2 < nestedElements.next ∧
    allowInsertChild (nestedElements.nodeType 2) (nestedElements.nodeType 1) = true ∧
    allowMove 2 1 nestedElements = some false ∧
    ∃ b, allowMove 2 1 nestedElements = some b ∧
      (b = true ↔ allowInsertChild (nestedElements.nodeType 2) (nestedElements.nodeType 1) = true ∧
        ¬ Relation.ReflTransGen (ParentOf nestedElements) 1 2) :=
  ⟨nestedElements_acyclic, nestedElements_parentsBelow, by decide, rfl, rfl,
    allowMove_decides nestedElements_acyclic nestedElements_parentsBelow
      (show 2 < nestedElements.next by decide) 1⟩

/-! ## What the insertions do to the parent relation -/

section Acyclic

variable {s s' : Store} {c n : Nat}

/-- A chain up from `n` to `c` survives a change that keeps the parent link of every node
other than `c`. -/
theorem reflTransGen_of_parent_frame (hpa : ∀ x, x ≠ c → s'.parent x = s.parent x)
    (h : Relation.ReflTransGen (ParentOf s) c n) : Relation.ReflTransGen (ParentOf s') c n := by
  induction h with
  | refl => exact .refl
  | @tail b d _ hbd ih =>
    by_cases hd : d = c
    · exact hd ▸ .refl
    · exact ih.tail (by rw [ParentOf, hpa d hd]; exact hbd)

/-- **Writing `c.parent = n` keeps the parent relation acyclic exactly when `c` is neither
`n` nor an ancestor of `n`**; otherwise the chain from `n` up to `c` closes into a
cycle through the new link. -/
theorem acyclic_setParent_iff (hac : Acyclic s) (hpa : ∀ x, x ≠ c → s'.parent x = s.parent x)
    (hpc : s'.parent c = some n) :
    Acyclic s' ↔ ¬ Relation.ReflTransGen (ParentOf s) c n :=
  ⟨fun hac' hcn => hac' c (.tail' (reflTransGen_of_parent_frame hpa hcn) hpc),
    hac.setParent hpa hpc⟩

/-- What an insertion of `c` under `n` may do to the parent links: when the kinds are
rejected, an error with the store as it was; otherwise success, with `c.parent = n` and
every other parent link kept. -/
def Reparents (s : Store) (n c : Nat) (r : Option (Option Error × Store)) : Prop :=
  (allowInsertChild (s.nodeType n) (s.nodeType c) = false → ∃ e, r = some (some e, s)) ∧
  (allowInsertChild (s.nodeType n) (s.nodeType c) = true → ∃ s', r = some (none, s') ∧
    (∀ x, x ≠ c → s'.parent x = s.parent x) ∧ s'.parent c = some n)

/-- Such an insertion ends without an error in an acyclic store exactly when the kinds
admit `c` and `c` is neither `n` nor an ancestor of `n`. -/
theorem Reparents.acyclic_iff {r : Option (Option Error × Store)} (hr : Reparents s n c r)
    (hac : Acyclic s) :
    (∃ s', r = some (none, s') ∧ Acyclic s') ↔
      allowInsertChild (s.nodeType n) (s.nodeType c) = true ∧
        ¬ Relation.ReflTransGen (ParentOf s) c n := by
  cases hk : allowInsertChild (s.nodeType n) (s.nodeType c)
  · obtain ⟨e, rfl⟩ := hr.1 hk
    simp
  · obtain ⟨s', rfl, hpa, hpc⟩ := hr.2 hk
    simp [acyclic_setParent_iff hac hpa hpc]

end Acyclic

/-! ## The insertions reparent the node -/

section Insertions

variable {s s' : Store} {k : ListKind} {C A : Nat → List Nat} {c p : Nat}

theorem prependSibling_parent (c p : Nat) (s : Store) (x : Nat) :
    (prependSibling k c p s).parent x = s.parent x := by
  cases h : s.head k p <;> simp [prependSibling, h]

theorem insertSiblingAfter_parent {a : Nat} {par : Option Nat}
    (h : insertSiblingAfter k c a par s = some s') (x : Nat) : s'.parent x = s.parent x := by
  simp only [insertSiblingAfter] at h
  split at h
  · simp at h
    simp [← h]
  · simp [Option.bind_eq_some] at h
    obtain ⟨q, -, hd, -, rfl⟩ := h
    simp

/-- On a well-formed list the splice after a member does not panic, whatever `c` is. -/
theorem insertSiblingAfter_isSome (c : Nat) {l₁ l₂ : List Nat} {r : Nat}
    (hl : SibList s (s.head k p) (l₁ ++ r :: l₂)) :
    ∃ s', insertSiblingAfter k c r (some p) s = some s' := by
  obtain ⟨h, hh⟩ : ∃ h, (l₁ ++ r :: l₂).head? = some h :=
    ⟨_, List.head?_eq_head (List.append_ne_nil_of_right_ne_nil _ (List.cons_ne_nil _ _))⟩
  have hhd : s.head k p = some h := hl.head_eq.trans hh
  cases hn : s.nextSib r <;> simp [insertSiblingAfter, hn, hhd]

theorem allowInsertChildErr_of_false {a b : NodeType} (hk : allowInsertChild a b = false) :
    ∃ e, allowInsertChildErr a b = some e :=
  Option.ne_none_iff_exists'.mp fun h => by simp [allowInsertChildErr_eq_none.mp h] at hk

/-- A splice made after `c.parent = p` writes no other parent link. -/
theorem reparents_of_setParent {r : Option (Option Error × Store)}
    (herr : ∀ e, allowInsertChildErr (s.nodeType p) (s.nodeType c) = some e →
      r = some (some e, s))
    (hok : allowInsertChild (s.nodeType p) (s.nodeType c) = true → ∃ s', r = some (none, s') ∧
      ∀ x, s'.parent x = (s.setParent c (some p)).parent x) :
    Reparents s p c r := by
  refine ⟨fun hk => ?_, fun hk => ?_⟩
  · obtain ⟨e, he⟩ := allowInsertChildErr_of_false hk
    exact ⟨e, herr e he⟩
  · obtain ⟨s', hr, hs⟩ := hok hk
    exact ⟨s', hr, fun x hx => by simp [hs, hx], by simp [hs]⟩

variable (hs : Shape s C A)
include hs

theorem appendChild_reparents : Reparents s p c (AppendChild p c s) :=
  reparents_of_setParent (fun e he => by simp [AppendChild, he]) fun hk => by
    obtain ⟨s', h⟩ := appendNode_isSome hs c p
    exact ⟨s', by simp [AppendChild, allowInsertChildErr_eq_none.mpr hk, h],
      appendSibling_parent h⟩

omit hs in
theorem prependChild_reparents : Reparents s p c (PrependChild p c s) :=
  reparents_of_setParent (fun e he => by simp [PrependChild, he]) fun hk =>
    ⟨prependNode c p s, by simp [PrependChild, allowInsertChildErr_eq_none.mpr hk],
      prependSibling_parent _ _ _⟩

theorem insertChildAfter_reparents {l₁ l₂ : List Nat} {r : Nat} (hl : C p = l₁ ++ r :: l₂) :
    Reparents s p c (InsertChildAfter p c (some r) s) := by
  have hr : s.parent r = some p := hs.parent p r (by simp [hl])
  refine reparents_of_setParent (fun e he => by simp [InsertChildAfter, he]) fun hk => ?_
  obtain ⟨s', h⟩ := insertSiblingAfter_isSome c
    (show SibList (s.setParent c (some p)) ((s.setParent c (some p)).head .children p)
      (l₁ ++ r :: l₂) by simpa [hl] using hs.kids p)
  exact ⟨s', by simp [InsertChildAfter, allowInsertChildErr_eq_none.mpr hk, hr, insertNodeAfter, h],
    insertSiblingAfter_parent h⟩

/-- **`allowMove` is the cycle check the insertions lack.** On a well-formed acyclic store
whose parent links name allocated nodes, `allowMove p c` for an allocated `p` answers true
exactly when inserting `c` under `p` by `AppendChild`, by `PrependChild`, or by
`InsertChildAfter` after a child of `p`, succeeds without an error and leaves the parent
relation acyclic. The node `c` may be linked anywhere. -/
theorem allowMove_iff_insert (hac : Acyclic s) (hpb : ParentsBelow s) (hp : p < s.next)
    (c : Nat) :
    (allowMove p c s = some true ↔ ∃ s', AppendChild p c s = some (none, s') ∧ Acyclic s') ∧
    (allowMove p c s = some true ↔ ∃ s', PrependChild p c s = some (none, s') ∧ Acyclic s') ∧
    ∀ l₁ r l₂, C p = l₁ ++ r :: l₂ → (allowMove p c s = some true ↔
      ∃ s', InsertChildAfter p c (some r) s = some (none, s') ∧ Acyclic s') := by
  rw [allowMove_eq_true_iff hac hpb hp]
  exact ⟨((appendChild_reparents hs).acyclic_iff hac).symm,
    (prependChild_reparents.acyclic_iff hac).symm,
    fun _ _ _ hl => ((insertChildAfter_reparents hs hl).acyclic_iff hac).symm⟩

omit hs in
/-- The element `1` of `nestedElements` inserted under itself, next to its child `2`: each
insertion answers nil but closes a cycle, and `allowMove 1 1` answers false. -/
theorem allowMove_iff_insert_nestedElements :
    Shape nestedElements (Function.update (Function.update (fun _ => []) 0 [1]) 1 [2])
      (fun _ => []) ∧ Acyclic nestedElements ∧ ParentsBelow nestedElements ∧
    1 < nestedElements.next ∧ allowMove 1 1 nestedElements = some false ∧
    ((allowMove 1 1 nestedElements = some true ↔
        ∃ s', AppendChild 1 1 nestedElements = some (none, s') ∧ Acyclic s') ∧
      (allowMove 1 1 nestedElements = some true ↔
        ∃ s', PrependChild 1 1 nestedElements = some (none, s') ∧ Acyclic s') ∧
      ∀ l₁ r l₂, Function.update (Function.update (fun _ => []) 0 [1]) 1 [2] 1 = l₁ ++ r :: l₂ →
        (allowMove 1 1 nestedElements = some true ↔
          ∃ s', InsertChildAfter 1 1 (some r) nestedElements = some (none, s') ∧ Acyclic s')) ∧
    -- after the child `2`
    (allowMove 1 1 nestedElements = some true ↔
      ∃ s', InsertChildAfter 1 1 (some 2) nestedElements = some (none, s') ∧ Acyclic s') :=
  have h := allowMove_iff_insert nestedElements_shape nestedElements_acyclic
    nestedElements_parentsBelow (show 1 < nestedElements.next by decide) 1
  ⟨nestedElements_shape, nestedElements_acyclic, nestedElements_parentsBelow, by decide, rfl, h,
    h.2.2 [] 2 [] rfl⟩

end Insertions

end Opr8.Dom
