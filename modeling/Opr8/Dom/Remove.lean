import Opr8.Dom.Kinds

/-!
# Opr8 — removing an attribute

`removeAttribute(attr, parent)` unlinks `attr` from the attribute list of `parent`. It has
no caller. Its first statement, `_ = attr.value.(Attr)`, asserts that the payload
implements `Attr`, and `Attr` is `Node` with nothing added. No payload type has the
methods of `Node`: they belong to `*node` and to the wrappers such as `attrNode`. So the
assertion panics on every node, and the statements after it never run.

Those statements are still worth checking, since they are what `removeAttribute` is meant
to do (`unlinkAttribute`). They tell the four positions apart with no index: a nil
`attr.nextSib` marks the tail, whose successor in the circle is the head; a nil forward
link of `attr.prevSib` marks the head, whose predecessor in the circle is the tail.

Main results:

* `SibList.eraseHead`, `SibList.eraseTail`, `SibList.eraseMiddle` — the links a removal
  leaves, as statements about a well-formed sibling list.
* `unlinkAttribute_relinked` — on a well-formed attribute list, the unlinking leaves the
  list with the attribute removed, the attribute with no sibling links, and every other
  list as it was.
* `Shape.unlinkAttr` — so the store keeps its shape, with that attribute list shortened
  and the attribute detached.
* `removeAttribute_always_panics` — `removeAttribute` panics on every store and every
  pair of nodes, while the unlinking it guards would have been correct.
-/

namespace Opr8.Dom

open Store

/-! ## The type assertion -/

/-- The methods of `Node`, which `Attr` embeds and adds nothing to. -/
def nodeMethods : List String :=
  ["Name", "Value", "SetValue", "ChildValue", "NodeType", "Parent", "OwnerDocument",
    "FirstChild", "LastChild", "NextSibling", "PreviousSibling", "ChildrenByName",
    "ChildByName", "AppendChild", "PrependChild", "InsertChildAfter", "InsertChildBefore",
    "nodePtr"]

/-- The type assertion `v.(Attr)` on a payload. -/
def Value.implementsAttr (v : Value) : Bool := nodeMethods.all (· ∈ v.methods)

/-- No payload type implements `Attr`, not even `*attribute`. -/
theorem Value.implementsAttr_eq_false (v : Value) : v.implementsAttr = false := by
  cases v <;> rfl

/-! ## The model -/

/-- The statements of `removeAttribute` after its type assertion. The tail is the node
with no forward link; the head is the node whose backward neighbour has none. A nil
`attr.prevSib` is dereferenced: Go panics, and the model answers `none`. -/
def unlinkAttribute (attr parent : Nat) (s : Store) : Option Store :=
  match s.firstAttr parent with
  | none => some s
  | some head => do
    let s := match s.nextSib attr with
      | some next => s.setPrevSib next (s.prevSib attr)
      | none => s.setPrevSib head (s.prevSib attr)
    let prev ← s.prevSib attr
    let s := match s.nextSib prev with
      | some _ => s.setNextSib prev (s.nextSib attr)
      | none => s.setFirstAttr parent (s.nextSib attr)
    pure ((s.setPrevSib attr none).setNextSib attr none)

/-- `removeAttribute(attr, parent)`: the assertion `attr.value.(Attr)` panics on a nil
payload and on one that does not implement `Attr`. -/
def removeAttribute (attr parent : Nat) (s : Store) : Option Store :=
  match s.value attr with
  | some v => if v.implementsAttr then unlinkAttribute attr parent s else none
  | none => none

/-- The assertion fails on every payload, so `removeAttribute` panics on every call. -/
theorem removeAttribute_eq_none (attr parent : Nat) (s : Store) :
    removeAttribute attr parent s = none := by
  unfold removeAttribute
  split
  · rw [Value.implementsAttr_eq_false]
    rfl
  · rfl

/-! ## Removal from a sibling list -/

section Seg

variable {f g : Nat → Option Nat} {h e : Option Nat}

/-- Bypassing `x`: when `y`'s link now goes where `x`'s went, and no other member's link
changed, the segment holds without `x`. -/
theorem Seg.skip {l₁ l₂ : List Nat} {y x : Nat} (hs : Seg f h (l₁ ++ y :: x :: l₂) e)
    (hg : ∀ p ∈ l₁ ++ l₂, g p = f p) (hy : g y = f x) : Seg g h (l₁ ++ y :: l₂) e := by
  obtain ⟨m, h₁, rfl, -, h₂⟩ := seg_append.mp hs
  refine seg_append.mpr ⟨_, h₁.congr fun p hp => hg p (List.mem_append_left _ hp), rfl, ?_⟩
  rw [hy]
  exact h₂.congr fun p hp => hg p (List.mem_append_right _ hp)

end Seg

namespace SibList

variable {s s' : Store} {hd : Option Nat} {l : List Nat} {a : Nat}

/-- The tail has no forward link. -/
theorem next_getLast {t : Nat} (hl : SibList s hd l) (ht : l.getLast? = some t) :
    s.nextSib t = none := by
  obtain ⟨L, rfl⟩ := List.getLast?_eq_some_iff.mp ht
  exact hl.next_eq

/-- Removing the head `a` of a list of two or more: the successor `m` is the new head and
takes over `a`'s backward link, the tail. -/
theorem eraseHead {m : Nat} {M : List Nat} (hl : SibList s hd (a :: m :: M))
    (hn : ∀ p ∈ m :: M, s'.nextSib p = s.nextSib p) (hp : ∀ p ∈ M, s'.prevSib p = s.prevSib p)
    (hpm : s'.prevSib m = s.prevSib a) : SibList s' (some m) (m :: M) := by
  obtain ⟨nd, ⟨-, hna, hnext⟩, hprev⟩ := hl
  obtain ⟨t, ht⟩ : ∃ t, (m :: M).getLast? = some t :=
    ⟨_, List.getLast?_eq_getLast _ (List.cons_ne_nil _ _)⟩
  refine ⟨(List.nodup_cons.mp nd).2, ⟨rfl, ?_⟩, ?_⟩
  · rw [hn m (List.mem_cons_self _ _)]
    exact hnext.congr fun p hp' => hn p (List.mem_cons_of_mem _ hp')
  · simp only [List.getLast?_cons_cons, ht, List.reverse_cons, List.append_assoc,
      List.singleton_append, List.cons_append] at hprev ⊢
    obtain ⟨k, h₁, rfl, -, hpa⟩ := seg_append.mp hprev
    refine seg_append.mpr ⟨_, h₁.congr fun p hp' => hp p (List.mem_reverse.mp hp'), rfl, ?_⟩
    exact hpm.trans hpa

/-- Removing the tail `a` after `y`: `y` has no forward link any more, and the head `h`
points back to it. -/
theorem eraseTail {L : List Nat} {y h : Nat} (hl : SibList s hd (L ++ [y, a]))
    (hh : (L ++ [y]).head? = some h) (hn : ∀ p ∈ L, s'.nextSib p = s.nextSib p)
    (hny : s'.nextSib y = none) (hp : ∀ p ∈ L ++ [y], p ≠ h → s'.prevSib p = s.prevSib p)
    (hph : s'.prevSib h = some y) : SibList s' hd (L ++ [y]) := by
  obtain ⟨nd, hnext, hprev⟩ := hl
  have nd' : (L ++ [y]).Nodup := nd.sublist (by simp)
  refine ⟨nd', ?_, ?_⟩
  · obtain ⟨k, h₁, rfl, -, -⟩ := seg_append.mp hnext
    exact seg_concat.mpr ⟨h₁.congr hn, hny⟩
  · rw [show (L ++ [y, a]).getLast? = some a by simp,
      show (L ++ [y, a]).reverse = a :: y :: L.reverse by simp] at hprev
    rw [show (L ++ [y]).getLast? = some y by simp,
      show (L ++ [y]).reverse = y :: L.reverse by simp]
    obtain ⟨-, -, hprev⟩ := hprev
    refine ⟨rfl, ?_⟩
    rcases L with _ | ⟨h', L'⟩
    · -- `y` is also the head: it points back to itself
      cases hh
      exact hph
    · -- the backward run from `y` ends at the head, whose link is now `y`
      cases hh
      have hy : y ≠ h := fun e => by simp [e] at nd'
      have hh' : ∀ p ∈ L', p ≠ h := fun p hp' e => by simp_all
      rw [List.reverse_cons, seg_concat] at hprev ⊢
      refine ⟨?_, hph⟩
      rw [hp y (by simp) hy]
      exact hprev.1.congr fun p hp' =>
        hp p (by simp [List.mem_reverse.mp hp']) (hh' p (List.mem_reverse.mp hp'))

/-- Removing `a` between `y` and `m`: each now links to the other. -/
theorem eraseMiddle {L M : List Nat} {y m : Nat} (hl : SibList s hd (L ++ y :: a :: m :: M))
    (hn : ∀ p ∈ L ++ m :: M, s'.nextSib p = s.nextSib p) (hny : s'.nextSib y = some m)
    (hp : ∀ p ∈ L ++ y :: M, s'.prevSib p = s.prevSib p) (hpm : s'.prevSib m = some y) :
    SibList s' hd (L ++ y :: m :: M) := by
  have hpa : s.prevSib a = some y := hl.prev_eq
  obtain ⟨nd, hnext, hprev⟩ := hl
  obtain ⟨t, ht⟩ : ∃ t, (m :: M).getLast? = some t :=
    ⟨_, List.getLast?_eq_getLast _ (List.cons_ne_nil _ _)⟩
  obtain ⟨k, -, rfl, -, hna, -⟩ := seg_append.mp hnext
  refine ⟨nd.sublist ((((List.Sublist.refl _).cons a).cons₂ y).append_left L),
    hnext.skip hn (hny.trans hna.symm), ?_⟩
  rw [show (L ++ y :: a :: m :: M).getLast? = some t by simp [List.getLast?_append, ht],
    show (L ++ y :: a :: m :: M).reverse = M.reverse ++ m :: a :: y :: L.reverse by simp]
    at hprev
  rw [show (L ++ y :: m :: M).getLast? = some t by simp [List.getLast?_append, ht],
    show (L ++ y :: m :: M).reverse = M.reverse ++ m :: y :: L.reverse by simp]
  have hrev : M.reverse ++ y :: L.reverse = (L ++ y :: M).reverse := by simp
  exact hprev.skip (fun p hp' => hp p (List.mem_reverse.mp (hrev ▸ hp'))) (hpm.trans hpa.symm)

end SibList

/-! ## The unlinking -/

/-- On a well-formed attribute list holding `a`, the unlinking removes `a` from the list,
clears `a`'s sibling links, and changes no other list. The four cases are the four
branches the code takes. -/
theorem unlinkAttribute_relinked {s : Store} {e a : Nat} {l₁ l₂ : List Nat}
    (hl : SibList s (s.firstAttr e) (l₁ ++ a :: l₂)) :
    ∃ s', unlinkAttribute a e s = some s' ∧
      Relinked s s' .attributes e a (l₁ ++ a :: l₂) (l₁ ++ l₂) ∧
      s'.prevSib a = none ∧ s'.nextSib a = none := by
  have nd := hl.nodup
  rcases l₁.eq_nil_or_concat with rfl | ⟨L, y, rfl⟩ <;> rcases l₂ with _ | ⟨m, M⟩
  · -- the only attribute: the list becomes empty
    obtain ⟨hhd, hna, hpa⟩ := SibList.singleton_iff.mp hl
    have he : unlinkAttribute a e s = some ((((s.setPrevSib a (some a)).setFirstAttr e
        none).setPrevSib a none).setNextSib a none) := by
      simp [unlinkAttribute, hhd, hna, hpa]
    refine ⟨_, he, ⟨?_, fun x _ hx => ?_, fun x _ hx => ?_, fun k q hq => ?_, fun _ => rfl,
      fun _ => rfl, rfl⟩, by simp, by simp⟩
    · simp only [head_attributes, setNextSib_firstAttr, setPrevSib_firstAttr,
        setFirstAttr_firstAttr, Function.update_same]
      exact SibList.nil
    · simp [Function.update_apply, hx]
    · simp [Function.update_apply, hx]
    · cases k <;> simp_all [Function.update_apply]
  · -- the head of two or more: its successor becomes the head
    obtain ⟨t, ht⟩ : ∃ t, (m :: M).getLast? = some t :=
      ⟨_, List.getLast?_eq_getLast _ (List.cons_ne_nil _ _)⟩
    have hhd : s.firstAttr e = some a := hl.head_eq
    have hna : s.nextSib a = some m := hl.next_eq
    have hpa : s.prevSib a = some t := (hl.prev_head rfl).trans (by simpa using ht)
    have hnt : s.nextSib t = none := hl.next_getLast (by simpa using ht)
    have hmM : ∀ p ∈ m :: M, p ≠ a := fun p hp h => by simp_all
    have ham : a ≠ m := (hmM m (List.mem_cons_self _ _)).symm
    have he : unlinkAttribute a e s = some ((((s.setPrevSib m (some t)).setFirstAttr e
        (some m)).setPrevSib a none).setNextSib a none) := by
      simp [unlinkAttribute, hhd, hna, hpa, hnt, Function.update_apply, ham]
    refine ⟨_, he, ⟨?_, fun x hx hxa => ?_, fun x hx hxa => ?_, fun k q hq => ?_, fun _ => rfl,
      fun _ => rfl, rfl⟩, by simp, by simp⟩
    · simp only [head_attributes, setNextSib_firstAttr, setPrevSib_firstAttr,
        setFirstAttr_firstAttr, Function.update_same, List.nil_append]
      refine hl.eraseHead (fun p hp => ?_) (fun p hp => ?_) ?_
      · simp [Function.update_apply, hmM p hp]
      · have hpm : p ≠ m := fun h => by simp_all
        simp [Function.update_apply, hmM p (List.mem_cons_of_mem _ hp), hpm]
      · simp [Function.update_apply, ham.symm, hpa]
    · simp [Function.update_apply, hxa]
    · have hxm : x ≠ m := fun h => hx (by simp [h])
      simp [Function.update_apply, hxa, hxm]
    · cases k <;> simp_all [Function.update_apply]
  · -- the tail after `y`: `y` becomes the tail
    rw [List.concat_eq_append] at hl nd ⊢
    have hl' : SibList s (s.firstAttr e) (L ++ [y, a]) := by simpa using hl
    obtain ⟨h, hh⟩ : ∃ h, (L ++ [y]).head? = some h :=
      ⟨_, List.head?_eq_head (List.append_ne_nil_of_right_ne_nil _ (List.cons_ne_nil _ _))⟩
    have hhd : s.firstAttr e = some h := hl'.head_eq.trans (by simpa using hh)
    have hna : s.nextSib a = none := hl.next_eq
    have hpa : s.prevSib a = some y := hl'.prev_eq
    have hny : s.nextSib y = some a := hl'.next_eq
    have hmem : ∀ p ∈ L ++ [y], p ≠ a := fun p hp h =>
      (List.nodup_append.mp nd).2.2 hp (List.mem_singleton.mpr h)
    have hah : a ≠ h := (hmem h (List.mem_of_mem_head? hh)).symm
    have he : unlinkAttribute a e s = some ((((s.setPrevSib h (some y)).setNextSib y
        none).setPrevSib a none).setNextSib a none) := by
      simp [unlinkAttribute, hhd, hna, hpa, hny, Function.update_apply, hah]
    have hyL : y ∉ L := fun h =>
      (List.nodup_cons.mp (List.nodup_middle.mp hl'.nodup)).1 (List.mem_append_left _ h)
    refine ⟨_, he, ⟨?_, fun x hx hxa => ?_, fun x hx hxa => ?_, fun _ _ _ => by simp, fun _ => rfl,
      fun _ => rfl, rfl⟩, by simp, by simp⟩
    · simp only [head_attributes, setNextSib_firstAttr, setPrevSib_firstAttr, List.append_nil]
      refine hl'.eraseTail hh (fun p hp => ?_) ?_ (fun p hp hph => ?_) ?_
      · have hpy : p ≠ y := fun h => hyL (h ▸ hp)
        simp [Function.update_apply, hmem p (by simp [hp]), hpy]
      · simp [Function.update_apply, hmem y (by simp)]
      · simp [Function.update_apply, hmem p hp, hph]
      · simp [Function.update_apply, hah.symm]
    · have hxy : x ≠ y := fun h => hx (by simp [h])
      simp [Function.update_apply, hxa, hxy]
    · have hxh : x ≠ h := fun e => hx (List.mem_append_left _ (e ▸ List.mem_of_mem_head? hh))
      simp [Function.update_apply, hxa, hxh]
  · -- between `y` and `m`: they now link to each other
    rw [List.concat_eq_append] at hl nd ⊢
    have hl' : SibList s (s.firstAttr e) (L ++ y :: a :: m :: M) := by simpa using hl
    obtain ⟨h, hhd⟩ : ∃ h, s.firstAttr e = some h :=
      ⟨_, hl'.head_eq.trans (List.head?_eq_head (by simp))⟩
    have hna : s.nextSib a = some m := hl.next_eq
    have hpa : s.prevSib a = some y := hl'.prev_eq
    have hny : s.nextSib y = some a := hl'.next_eq
    have hnot : a ∉ L ++ y :: m :: M := by
      simpa using (List.nodup_cons.mp (List.nodup_middle.mp nd)).1
    have hmem : ∀ p ∈ L ++ y :: m :: M, p ≠ a := fun p hp h => hnot (h ▸ hp)
    have hym : y ≠ m := fun h =>
      (List.nodup_cons.mp hl'.nodup.of_append_right).1 (by simp [h])
    have ham : a ≠ m := (hmem m (by simp)).symm
    have hyn : y ∉ L ++ m :: M := fun h =>
      (List.nodup_cons.mp (List.nodup_middle.mp hl'.nodup)).1
        ((((List.Sublist.refl _).cons a).append_left L).subset h)
    have hmn : m ∉ L ++ y :: M := fun h =>
      (List.nodup_cons.mp (List.nodup_middle.mp (show ((L ++ [y, a]) ++ m :: M).Nodup by
        simpa using hl'.nodup))).1 (by
          rw [List.append_assoc]
          exact ((((List.Sublist.refl M).cons a).cons₂ y).append_left L).subset h)
    have he : unlinkAttribute a e s = some ((((s.setPrevSib m (some y)).setNextSib y
        (some m)).setPrevSib a none).setNextSib a none) := by
      simp [unlinkAttribute, hhd, hna, hpa, hny, Function.update_apply, ham]
    refine ⟨_, he, ⟨?_, fun x hx hxa => ?_, fun x hx hxa => ?_, fun _ _ _ => by simp, fun _ => rfl,
      fun _ => rfl, rfl⟩, by simp, by simp⟩
    · simp only [head_attributes, setNextSib_firstAttr, setPrevSib_firstAttr, List.append_assoc,
        List.singleton_append]
      refine hl'.eraseMiddle (fun p hp => ?_) ?_ (fun p hp => ?_) ?_
      · have hpy : p ≠ y := fun h => hyn (h ▸ hp)
        simp [Function.update_apply, hmem p (by simp_all), hpy]
      · simp [Function.update_apply, hmem y (by simp), hym.symm]
      · have hpm : p ≠ m := fun h => hmn (h ▸ hp)
        simp [Function.update_apply, hmem p (by simp_all), hpm]
      · simp [Function.update_apply, ham.symm]
    · have hxy : x ≠ y := fun h => hx (by simp [h])
      simp [Function.update_apply, hxa, hxy]
    · have hxm : x ≠ m := fun h => hx (by simp [h])
      simp [Function.update_apply, hxa, hxm]

/-- **Unlinking keeps the shape.** Removing `a` from the attribute list of `e` leaves the
store well formed, with that list shortened and `a` on no list. -/
theorem Shape.unlinkAttr {s : Store} {C A : Nat → List Nat} (hs : Shape s C A) {e a : Nat}
    {l₁ l₂ : List Nat} (he : A e = l₁ ++ a :: l₂) :
    ∃ s', unlinkAttribute a e s = some s' ∧ Shape s' C (Function.update A e (l₁ ++ l₂)) ∧
      Detached s' C (Function.update A e (l₁ ++ l₂)) a ∧ s'.prevSib a = none := by
  obtain ⟨s', h, hr, hpa, hna⟩ := unlinkAttribute_relinked (he ▸ hs.attrs e)
  have ha : a ∈ A e := by simp [he]
  have hnot : a ∉ l₁ ++ l₂ := by
    have nd := he ▸ (hs.attrs e).nodup
    exact (List.nodup_cons.mp (List.nodup_middle.mp nd)).1
  refine ⟨s', h, hs.replaceAttrs (fun p hp => hs.kids_attrs p e a hp ha)
    (fun q hq hq' => hs.attrs_disjoint q e hq a hq' ha)
    (fun x hx => .inl (he ▸ (((List.Sublist.refl l₂).cons a).append_left l₁).subset hx))
    (by rw [he]; exact hr),
    ⟨hna, fun p hp => hs.kids_attrs p e a hp ha, fun q hq => ?_⟩, hpa⟩
  by_cases hqe : q = e
  · subst hqe
    rw [Function.update_same] at hq
    exact hnot hq
  · rw [Function.update_noteq hqe] at hq
    exact hs.attrs_disjoint q e hqe a hq ha

/-- An element with three attributes, `x`, `y` and `z`, at `2`, `3` and `4`. -/
def docAndAttributes : Store :=
  (appendAttrs 1 [⟨⟨"", "x"⟩, "1"⟩, ⟨⟨"", "y"⟩, "2"⟩, ⟨⟨"", "z"⟩, "3"⟩] docAndElement).getD
    docAndElement

theorem docAndAttributes_shape :
    Shape docAndAttributes (fun _ => []) (Function.update (fun _ => []) 1 [2, 3, 4]) := by
  have hl : Linkless docAndElement := (Linkless.empty.push _).push _
  obtain ⟨s', h, hs, -⟩ := appendAttrs_spec [⟨⟨"", "x"⟩, "1"⟩, ⟨⟨"", "y"⟩, "2"⟩,
    ⟨⟨"", "z"⟩, "3"⟩] hl.shape (.nil _) (show 1 < docAndElement.next by decide)
  obtain rfl : s' = docAndAttributes := by simp [docAndAttributes, h]
  exact hs

/-- The middle attribute: the store keeps its shape with `[2, 4]` on the element, and `y`
is left out. -/
theorem Shape.unlinkAttr_docAndAttributes :
    Shape docAndAttributes (fun _ => []) (Function.update (fun _ => []) 1 [2, 3, 4]) ∧
    Function.update (fun _ => []) 1 [2, 3, 4] 1 = [2] ++ 3 :: [4] ∧
    (∃ s', unlinkAttribute 3 1 docAndAttributes = some s' ∧
      Shape s' (fun _ => []) (Function.update (Function.update (fun _ => []) 1 [2, 3, 4]) 1
        ([2] ++ [4])) ∧
      Detached s' (fun _ => []) (Function.update (Function.update (fun _ => []) 1 [2, 3, 4]) 1
        ([2] ++ [4])) 3 ∧ s'.prevSib 3 = none) ∧
    (unlinkAttribute 3 1 docAndAttributes).map (fun s' => s'.walk s'.next (s'.firstAttr 1)) =
      some (some [2, 4]) :=
  ⟨docAndAttributes_shape, rfl,
    docAndAttributes_shape.unlinkAttr (show Function.update (fun _ => []) 1 [2, 3, 4] 1 =
      [2] ++ 3 :: [4] from rfl), by decide⟩

theorem removeAttribute_always_panics :
    (∀ (attr parent : Nat) (s : Store), removeAttribute attr parent s = none) ∧
    ∀ (s : Store) (e a : Nat) (l₁ l₂ : List Nat),
      SibList s (s.firstAttr e) (l₁ ++ a :: l₂) →
      ∃ s', unlinkAttribute a e s = some s' ∧
        Relinked s s' .attributes e a (l₁ ++ a :: l₂) (l₁ ++ l₂) ∧
        s'.prevSib a = none ∧ s'.nextSib a = none ∧
        (l₁ = [] → s'.firstAttr e = s.nextSib a) ∧
        (l₂ = [] → l₁ ≠ [] → ∀ h, s.firstAttr e = some h → s'.prevSib h = s.prevSib a) ∧
        (l₁ = [] → l₂ = [] → s'.firstAttr e = none) := by
  refine ⟨removeAttribute_eq_none, fun s e a l₁ l₂ hl => ?_⟩
  obtain ⟨s', h, hr, hpa, hna⟩ := unlinkAttribute_relinked hl
  have hsib : SibList s' (s'.firstAttr e) (l₁ ++ l₂) := hr.sib
  refine ⟨s', h, hr, hpa, hna, ?_, ?_, ?_⟩
  · -- the head: the successor takes its place
    rintro rfl
    rw [hsib.head_eq, hl.next_eq]
    rfl
  · -- the tail: the head points back to the predecessor
    rintro rfl hne hd hhd
    obtain ⟨L, y, rfl⟩ := (l₁.eq_nil_or_concat.resolve_left hne)
    rw [List.concat_eq_append] at hl hsib
    have hd₁ : ((L ++ [y]) ++ []).head? = some hd := by
      rw [List.append_nil, ← List.head?_append_of_ne_nil _ (by simp), ← hl.head_eq, hhd]
    rw [hsib.prev_head hd₁, (show SibList s _ (L ++ y :: a :: []) by simpa using hl).prev_eq]
    simp
  · -- the only attribute: the list is empty
    rintro rfl rfl
    exact hsib.head_eq

/-- The one attribute of an element: `removeAttribute` panics, and the unlinking it guards
would have emptied the list. -/
theorem removeAttribute_always_panics_docAndAttributed :
    SibList docAndAttributed (docAndAttributed.firstAttr 1) ([] ++ 2 :: []) ∧
    removeAttribute 2 1 docAndAttributed = none ∧
    ∃ s', unlinkAttribute 2 1 docAndAttributed = some s' ∧ s'.firstAttr 1 = none ∧
      s'.prevSib 2 = none ∧ s'.nextSib 2 = none := by
  have hl : SibList docAndAttributed (docAndAttributed.firstAttr 1) ([] ++ 2 :: []) := by
    simpa using docAndAttributed_shape.1.attrs 1
  obtain ⟨s', h, -, hp, hn, -, -, hsole⟩ := removeAttribute_always_panics.2 _ 1 2 [] [] hl
  exact ⟨hl, removeAttribute_always_panics.1 2 1 _, s', h, hsole rfl rfl, hp, hn⟩

end Opr8.Dom
