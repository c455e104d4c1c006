import Opr8.Dom.SibList

/-!
# Opr8 — well-formed stores and the parent relation

`Shape s C A` says the store `s` is well formed with child lists `C` and attribute
lists `A`: every list is a circular-tail `SibList`, every child points back to its
parent, and no node sits on two lists. A node is `Detached` when it is on no list and
has no next sibling; that is what a freshly created node looks like.

The parent links form the relation `ParentOf`; `Ancestor` is its transitive closure and
a store is `Acyclic` when no node is its own ancestor.

Main results:

* `Shape.relink`, `Shape.relinkAttr` — splicing a detached node into one child list or
  one attribute list (a `Relinked` store) keeps the shape, with only that list updated;
  `Shape.replaceAttrs` is the attribute case for any new list drawn from the old one and
  the node, which also covers unlinking.
* `Acyclic.setParent` — giving a parentless node a parent that is not below it keeps
  the parent relation acyclic.
-/

namespace Opr8.Dom

/-- The store's child lists are `C` and its attribute lists are `A`. -/
structure Shape (s : Store) (C A : Nat → List Nat) : Prop where
  kids : ∀ p, SibList s (s.firstChild p) (C p)
  parent : ∀ p, ∀ c ∈ C p, s.parent c = some p
  attrs : ∀ p, SibList s (s.firstAttr p) (A p)
  attrs_disjoint : ∀ p q, p ≠ q → ∀ a ∈ A p, a ∉ A q
  kids_attrs : ∀ p q, ∀ c ∈ C p, c ∉ A q

/-- A store whose sibling lists are all well formed. -/
def WellFormed (s : Store) : Prop := ∃ C A, Shape s C A

/-- A node on no list, with no next sibling. Its `prevSib` and parent links are left
open: every splice overwrites the first, none reads the second, and the Builder sets the
parent of an element long before linking it. -/
structure Detached (s : Store) (C A : Nat → List Nat) (c : Nat) : Prop where
  nextSib : s.nextSib c = none
  kids : ∀ p, c ∉ C p
  attrs : ∀ p, c ∉ A p

/-- What splicing `c` into the list `k` of `p` leaves: that list, `l` before, is now `l'`,
and the sibling links of every node off the old list other than `c`, every other head,
the parents, the payloads and the frontier are unchanged. -/
structure Relinked (s s' : Store) (k : ListKind) (p c : Nat) (l l' : List Nat) : Prop where
  sib : SibList s' (s'.head k p) l'
  nextSib : ∀ x, x ∉ l → x ≠ c → s'.nextSib x = s.nextSib x
  prevSib : ∀ x, x ∉ l → x ≠ c → s'.prevSib x = s.prevSib x
  head : ∀ k' q, k' ≠ k ∨ q ≠ p → s'.head k' q = s.head k' q
  parent : ∀ x, s'.parent x = s.parent x
  value : ∀ x, s'.value x = s.value x
  next : s'.next = s.next

/-- A parent link is not part of being detached. -/
theorem Detached.setParent {s : Store} {C A : Nat → List Nat} {n : Nat} (hd : Detached s C A n)
    (c : Nat) (v : Option Nat) : Detached (s.setParent c v) C A n :=
  ⟨hd.nextSib, hd.kids, hd.attrs⟩

namespace Shape

variable {s s' : Store} {C A : Nat → List Nat}

/-- A node is on the child list of its parent only. -/
theorem eq_of_mem (hs : Shape s C A) {p q c : Nat} (hp : c ∈ C p) (hq : c ∈ C q) : p = q :=
  Option.some_injective _ ((hs.parent p c hp).symm.trans (hs.parent q c hq))

/-- `firstChild` is the head of the child list. -/
theorem firstChild_eq (hs : Shape s C A) (p : Nat) : s.firstChild p = (C p).head? :=
  (hs.kids p).head_eq

/-- Setting the parent link of a node on no child list keeps the shape. -/
theorem setParent (hs : Shape s C A) {c : Nat} (hc : ∀ p, c ∉ C p) (v : Option Nat) :
    Shape (s.setParent c v) C A :=
  ⟨fun p => by simpa using hs.kids p,
    fun p x hx => by
      simp [Function.update_noteq (fun h : x = c => hc p (h ▸ hx)), hs.parent p x hx],
    fun p => by simpa using hs.attrs p, hs.attrs_disjoint, hs.kids_attrs⟩

/-- **Relinking one child list.** If `s'` is a splice of `c` into the child list of `n`
made after `c.parent = n`, and the new list holds the old children and `c`, then `s'`
has the shape of `s` with that list replaced. -/
theorem relink (hs : Shape s C A) {c n : Nat} (hd : Detached s C A c) {l' : List Nat}
    (hl' : ∀ x, x ∈ l' ↔ x ∈ C n ∨ x = c)
    (hr : Relinked (s.setParent c (some n)) s' .children n c (C n) l') :
    Shape s' (Function.update C n l') A := by
  -- members of other lists are neither on `n`'s list nor `c`
  have other : ∀ p, p ≠ n → ∀ x ∈ C p, x ∉ C n ∧ x ≠ c := fun p hp x hx =>
    ⟨fun hn => hp (hs.eq_of_mem hx hn), fun h => hd.kids p (h ▸ hx)⟩
  have attr : ∀ q, ∀ a ∈ A q, a ∉ C n ∧ a ≠ c := fun q a ha =>
    ⟨fun hn => hs.kids_attrs n q a hn ha, fun h => hd.attrs q (h ▸ ha)⟩
  have hfa : ∀ p, s'.firstAttr p = s.firstAttr p := fun p => by
    simpa using hr.head .attributes p (.inl (by decide))
  refine ⟨fun p => ?_, fun p x hx => ?_, fun p => ?_, hs.attrs_disjoint, fun p q x hx => ?_⟩
  · by_cases hp : p = n
    · subst hp
      simpa using hr.sib
    · have hfc : s'.firstChild p = s.firstChild p := by simpa using hr.head .children p (.inr hp)
      rw [Function.update_noteq hp, hfc]
      exact (hs.kids p).congr
        (fun x hx => by simpa using hr.nextSib x (other p hp x hx).1 (other p hp x hx).2)
        (fun x hx => by simpa using hr.prevSib x (other p hp x hx).1 (other p hp x hx).2)
  · rw [hr.parent x, Store.setParent_parent]
    by_cases hxc : x = c
    · by_cases hp : p = n
      · rw [hxc, hp, Function.update_same]
      · exact absurd hxc (other p hp x (by simpa [Function.update_noteq hp] using hx)).2
    · rw [Function.update_noteq hxc]
      by_cases hp : p = n
      · subst hp
        exact hs.parent p x (((hl' x).mp (by simpa using hx)).resolve_right hxc)
      · exact hs.parent p x (by simpa [Function.update_noteq hp] using hx)
  · rw [hfa]
    exact (hs.attrs p).congr
      (fun a ha => by simpa using hr.nextSib a (attr p a ha).1 (attr p a ha).2)
      (fun a ha => by simpa using hr.prevSib a (attr p a ha).1 (attr p a ha).2)
  · by_cases hp : p = n
    · subst hp
      simp only [Function.update_same] at hx
      rcases (hl' x).mp hx with hx | rfl
      · exact hs.kids_attrs p q x hx
      · exact hd.attrs q
    · rw [Function.update_noteq hp] at hx
      exact hs.kids_attrs p q x hx

/-- **Replacing one attribute list.** If `s'` changes only the attribute list of `n`, to a
list `l'` of old attributes of `n` and `a`, and `a` is on no child list and no other
attribute list, then `s'` has the shape of `s` with that list replaced. This covers
splicing `a` in and unlinking it. -/
theorem replaceAttrs (hs : Shape s C A) {a n : Nat} (hak : ∀ p, a ∉ C p)
    (haa : ∀ q, q ≠ n → a ∉ A q) {l' : List Nat} (hl' : ∀ x ∈ l', x ∈ A n ∨ x = a)
    (hr : Relinked s s' .attributes n a (A n) l') :
    Shape s' C (Function.update A n l') := by
  -- members of other lists are neither on `n`'s attribute list nor `a`
  have kid : ∀ p, ∀ x ∈ C p, x ∉ A n ∧ x ≠ a := fun p x hx =>
    ⟨hs.kids_attrs p n x hx, fun h => hak p (h ▸ hx)⟩
  have other : ∀ q, q ≠ n → ∀ x ∈ A q, x ∉ A n ∧ x ≠ a := fun q hq x hx =>
    ⟨hs.attrs_disjoint q n hq x hx, fun h => haa q hq (h ▸ hx)⟩
  -- a member of the new list is an old attribute of `n` or `a`, on no other list
  have fresh : ∀ q, q ≠ n → ∀ x ∈ l', x ∉ A q := fun q hq x hx hxq => by
    rcases hl' x hx with hx | rfl
    · exact hs.attrs_disjoint n q (Ne.symm hq) x hx hxq
    · exact haa q hq hxq
  refine ⟨fun p => ?_, fun p x hx => ?_, fun p => ?_, fun p q hpq x hx => ?_,
    fun p q x hx => ?_⟩
  · have hfc : s'.firstChild p = s.firstChild p := by
      simpa using hr.head .children p (.inl (by decide))
    rw [hfc]
    exact (hs.kids p).congr (fun x hx => hr.nextSib x (kid p x hx).1 (kid p x hx).2)
      (fun x hx => hr.prevSib x (kid p x hx).1 (kid p x hx).2)
  · rw [hr.parent x]
    exact hs.parent p x hx
  · by_cases hp : p = n
    · subst hp
      simpa using hr.sib
    · have hfa : s'.firstAttr p = s.firstAttr p := by simpa using hr.head .attributes p (.inr hp)
      rw [Function.update_noteq hp, hfa]
      exact (hs.attrs p).congr (fun x hx => hr.nextSib x (other p hp x hx).1 (other p hp x hx).2)
        (fun x hx => hr.prevSib x (other p hp x hx).1 (other p hp x hx).2)
  · by_cases hp : p = n
    · subst hp
      rw [Function.update_same] at hx
      rw [Function.update_noteq (Ne.symm hpq)]
      exact fresh q (Ne.symm hpq) x hx
    · rw [Function.update_noteq hp] at hx
      by_cases hq : q = n
      · subst hq
        rw [Function.update_same]
        exact fun hx' => (other p hp x hx).2 ((hl' x hx').resolve_left (other p hp x hx).1)
      · rw [Function.update_noteq hq]
        exact hs.attrs_disjoint p q hpq x hx
  · by_cases hq : q = n
    · subst hq
      rw [Function.update_same]
      exact fun hx' => (kid p x hx).2 ((hl' x hx').resolve_left (kid p x hx).1)
    · rw [Function.update_noteq hq]
      exact hs.kids_attrs p q x hx

/-- **Relinking one attribute list.** If `s'` is a splice of the detached `a` into the
attribute list of `n`, and the new list holds the old attributes and `a`, then `s'` has
the shape of `s` with that list replaced. -/
theorem relinkAttr (hs : Shape s C A) {a n : Nat} (hd : Detached s C A a) {l' : List Nat}
    (hl' : ∀ x, x ∈ l' ↔ x ∈ A n ∨ x = a)
    (hr : Relinked s s' .attributes n a (A n) l') :
    Shape s' C (Function.update A n l') :=
  hs.replaceAttrs hd.kids (fun q _ => hd.attrs q) (fun x hx => (hl' x).mp hx) hr

end Shape

/-- `a` is the parent of `d`. -/
def ParentOf (s : Store) (a d : Nat) : Prop := s.parent d = some a

/-- `a` is a proper ancestor of `d`: `d`'s chain of parent links reaches `a`. -/
def Ancestor (s : Store) : Nat → Nat → Prop := Relation.TransGen (ParentOf s)

/-- No node is its own ancestor. -/
def Acyclic (s : Store) : Prop := ∀ p, ¬ Ancestor s p p

section Acyclic

variable {s s' : Store} {c n : Nat}

/-- After `c.parent = n` on a parentless `c`, an ancestor chain either existed before,
or runs from above `n` through the new link into `c`'s subtree. -/
theorem ancestor_of_setParent (hpa : ∀ x, x ≠ c → s'.parent x = s.parent x)
    (hpc : s'.parent c = some n) {a b : Nat} (h : Ancestor s' a b) :
    Ancestor s a b ∨
      (Relation.ReflTransGen (ParentOf s) a n ∧ Relation.ReflTransGen (ParentOf s) c b) := by
  induction h with
  | @single b hab =>
    by_cases hb : b = c
    · subst hb
      have : _ = n := Option.some_injective _ (hab.symm.trans hpc)
      exact .inr ⟨this ▸ .refl, .refl⟩
    · exact .inl (.single (by rw [ParentOf, ← hpa b hb]; exact hab))
  | @tail b d _ hbd ih =>
    by_cases hd : d = c
    · subst hd
      have hbn : b = n := Option.some_injective _ (hbd.symm.trans hpc)
      subst hbn
      rcases ih with ih | ih
      · exact .inr ⟨ih.to_reflTransGen, .refl⟩
      · exact .inr ⟨ih.1, .refl⟩
    · have hbd' : ParentOf s b d := by rw [ParentOf, ← hpa d hd]; exact hbd
      rcases ih with ih | ih
      · exact .inl (.tail ih hbd')
      · exact .inr ⟨ih.1, ih.2.tail hbd'⟩

/-- Walking up from `n`: a node `c` other than `n` is `n` or above it only through `n`'s
parent. -/
theorem not_reach_of_parent {s : Store} {c n : Nat} (hcn : c ≠ n)
    (hm : ∀ m, s.parent n = some m → ¬ Relation.ReflTransGen (ParentOf s) c m) :
    ¬ Relation.ReflTransGen (ParentOf s) c n := fun hr => by
  rcases Relation.ReflTransGen.cases_tail hr with rfl | ⟨q, hq, hqn⟩
  · exact hcn rfl
  · exact hm q hqn hq

/-- Giving a parentless node `c` the parent `n`, where `c` is neither `n` nor one of
`n`'s ancestors, keeps the parent relation acyclic. -/
theorem Acyclic.setParent (hac : Acyclic s) (hpa : ∀ x, x ≠ c → s'.parent x = s.parent x)
    (hpc : s'.parent c = some n) (hcn : ¬ Relation.ReflTransGen (ParentOf s) c n) :
    Acyclic s' := fun p hp => by
  rcases ancestor_of_setParent hpa hpc hp with h | ⟨h1, h2⟩
  · exact hac p h
  · exact hcn (h2.trans h1)

/-- A store whose parent links were all there before stays acyclic. -/
theorem Acyclic.of_parent_sub (hac : Acyclic s)
    (h : ∀ x y, s'.parent x = some y → s.parent x = some y) : Acyclic s' :=
  fun p hp => hac p (Relation.TransGen.mono (fun a d had => h d a had) hp)

end Acyclic

/-! ## Stores of unlinked nodes -/

/-- No node has any link: the store holds only freshly created nodes. -/
def Linkless (s : Store) : Prop :=
  ∀ p, s.parent p = none ∧ s.firstChild p = none ∧ s.nextSib p = none ∧
    s.prevSib p = none ∧ s.firstAttr p = none

namespace Linkless

variable {s : Store}

theorem empty : Linkless Store.empty := fun _ => ⟨rfl, rfl, rfl, rfl, rfl⟩

theorem push (h : Linkless s) (v : Value) : Linkless (s.push v) := fun p => by
  by_cases hp : p = s.next
  · subst hp
    simp
  · simp [Function.update_noteq hp, h p]

theorem shape (h : Linkless s) : Shape s (fun _ => []) (fun _ => []) :=
  ⟨fun p => (h p).2.1 ▸ SibList.nil, by simp, fun p => (h p).2.2.2.2 ▸ SibList.nil,
    by simp, by simp⟩

theorem acyclic (h : Linkless s) : Acyclic s := fun p hp => by
  obtain ⟨q, hq, -⟩ := Relation.TransGen.head'_iff.mp hp
  simp [ParentOf, (h q).1] at hq

theorem detached (h : Linkless s) (c : Nat) : Detached s (fun _ => []) (fun _ => []) c :=
  ⟨(h c).2.2.1, by simp, by simp⟩

theorem not_reach (h : Linkless s) {c n : Nat} (hcn : c ≠ n) :
    ¬ Relation.ReflTransGen (ParentOf s) c n :=
  not_reach_of_parent hcn fun m hm => by simp [(h n).1] at hm

end Linkless

end Opr8.Dom
