import Mathlib.Logic.Relation
import Mathlib.Data.List.Nodup
import Opr8.Dom.Store

/-!
# Opr8 — the circular-tail sibling list

A parent reaches its children through `firstChild` and `nextSib`; the list ends at a nil
`nextSib`. The backward links close into a circle instead: every child's `prevSib` is its
predecessor, and the head's `prevSib` is the tail. That makes the tail one step from the
head, and it is the only way the node store finds the last child.

`Seg link h l e` says that following `link` from `h` meets exactly the pointers of `l`,
in order, and then arrives at `e`. A list `l` is a well-formed sibling list from `head`
(`SibList`) when it has no duplicates, `nextSib` runs through it from `head` to nil, and
`prevSib` runs through it backwards from the tail and returns to the tail.

`Shape s C A` is the well-formedness of a whole store against an abstraction: `C p` is
the child list of `p` and `A p` its attribute list, every list is a `SibList`, children
point back to their parent, and no node is on two lists. The abstraction is determined by
the store (`Seg.unique`), so `Shape` pins down "the" child list of every node.

Main results:

* `SibList.concat`, `SibList.cons`, `SibList.insertAfter` — the splices the insertion
  primitives perform, as statements about the links they leave.
* `Shape.relink` — a store that changes one child list by adding a detached node, and
  touches nothing else, keeps its shape.
-/

namespace Opr8.Dom

/-- Following `link` from `h` visits the pointers of `l` in order and then reaches `e`. -/
def Seg (link : Nat → Option Nat) : Option Nat → List Nat → Option Nat → Prop
  | h, [], e => h = e
  | h, p :: l, e => h = some p ∧ Seg link (link p) l e

section Seg

variable {f g : Nat → Option Nat} {h e : Option Nat}

@[simp] theorem seg_nil : Seg f h [] e ↔ h = e := Iff.rfl

@[simp] theorem seg_cons {p : Nat} {l : List Nat} :
    Seg f h (p :: l) e ↔ h = some p ∧ Seg f (f p) l e := Iff.rfl

theorem seg_append {l₁ l₂ : List Nat} :
    Seg f h (l₁ ++ l₂) e ↔ ∃ m, Seg f h l₁ m ∧ Seg f m l₂ e := by
  induction l₁ generalizing h with
  | nil => simp
  | cons p l ih => simp [ih, and_assoc]

theorem seg_concat {l : List Nat} {x : Nat} :
    Seg f h (l ++ [x]) e ↔ Seg f h l (some x) ∧ f x = e := by
  rw [seg_append]
  constructor
  · rintro ⟨m, h1, rfl, h2⟩
    exact ⟨h1, h2⟩
  · rintro ⟨h1, h2⟩
    exact ⟨_, h1, rfl, h2⟩

/-- A segment only reads the links of its own members. -/
theorem Seg.congr {l : List Nat} (hs : Seg f h l e) (hfg : ∀ p ∈ l, g p = f p) :
    Seg g h l e := by
  induction l generalizing h with
  | nil => exact hs
  | cons p l ih =>
    obtain ⟨rfl, hs⟩ := hs
    refine ⟨rfl, ?_⟩
    rw [hfg p (List.mem_cons_self _ _)]
    exact ih hs fun q hq => hfg q (List.mem_cons_of_mem _ hq)

/-- A list that ends at nil starts at its head. -/
theorem Seg.head_eq {l : List Nat} (hs : Seg f h l none) : h = l.head? := by
  cases l with
  | nil => exact hs
  | cons p l => exact hs.1

/-- A list that ends at nil is determined by where it starts. -/
theorem Seg.unique {l l' : List Nat} (hs : Seg f h l none) (hs' : Seg f h l' none) :
    l = l' := by
  induction l generalizing h l' with
  | nil => cases l' <;> simp_all
  | cons p l ih =>
    cases l' with
    | nil => simp_all
    | cons q l' =>
      obtain ⟨rfl, hs⟩ := hs
      obtain ⟨hq, hs'⟩ := hs'
      cases hq
      rw [ih hs hs']

end Seg

/-- A well-formed sibling list from `head`: duplicate-free, forward links from `head`
to nil, backward links from the tail round to the tail. -/
structure SibList (s : Store) (head : Option Nat) (l : List Nat) : Prop where
  nodup : l.Nodup
  next : Seg s.nextSib head l none
  prev : Seg s.prevSib l.getLast? l.reverse l.getLast?

namespace SibList

variable {s s' : Store} {hd : Option Nat} {l : List Nat} {c : Nat}

theorem head_eq (hl : SibList s hd l) : hd = l.head? := hl.next.head_eq

/-- A member's forward link is the next member, nil for the tail. -/
theorem next_eq {l₁ l₂ : List Nat} {r : Nat} (hl : SibList s hd (l₁ ++ r :: l₂)) :
    s.nextSib r = l₂.head? := by
  obtain ⟨m, -, rfl, h⟩ := seg_append.mp hl.next
  exact h.head_eq

/-- The head's backward link is the tail. -/
theorem prev_head {h : Nat} (hl : SibList s hd l) (hh : l.head? = some h) :
    s.prevSib h = l.getLast? := by
  have hp := hl.prev
  obtain ⟨l₁, rfl⟩ := List.head?_eq_some_iff.mp hh
  simp only [List.reverse_cons, seg_concat] at hp
  exact hp.2

/-- A member's backward link is the member before it. -/
theorem prev_eq {l₁ l₂ : List Nat} {y x : Nat} (hl : SibList s hd (l₁ ++ y :: x :: l₂)) :
    s.prevSib x = some y := by
  have hp := hl.prev
  rw [show (l₁ ++ y :: x :: l₂).reverse = l₂.reverse ++ x :: y :: l₁.reverse by simp] at hp
  obtain ⟨m, -, h⟩ := seg_append.mp hp
  exact h.2.1

theorem nil : SibList s none [] := ⟨List.nodup_nil, rfl, rfl⟩

@[simp] theorem singleton_iff :
    SibList s hd [c] ↔ hd = some c ∧ s.nextSib c = none ∧ s.prevSib c = some c := by
  constructor
  · intro hl
    have h1 := hl.next
    have h2 := hl.prev
    simp only [seg_cons, seg_nil, List.getLast?_singleton, List.reverse_singleton,
      true_and] at h1 h2
    exact ⟨h1.1, h1.2, h2⟩
  · rintro ⟨h1, h2, h3⟩
    exact ⟨List.nodup_singleton c, by simp [h1, h2], by simp [h3]⟩

/-- A sibling list does not read parent links. -/
@[simp] theorem setParent_iff {v : Option Nat} : SibList (s.setParent c v) hd l ↔ SibList s hd l :=
  ⟨fun h => ⟨h.1, h.2, h.3⟩, fun h => ⟨h.1, h.2, h.3⟩⟩

/-- A sibling list only reads the sibling links of its members. -/
theorem congr (hl : SibList s hd l) (hn : ∀ p ∈ l, s'.nextSib p = s.nextSib p)
    (hp : ∀ p ∈ l, s'.prevSib p = s.prevSib p) : SibList s' hd l :=
  ⟨hl.nodup, hl.next.congr hn, hl.prev.congr fun p hm => hp p (List.mem_reverse.mp hm)⟩

/-- The splice of `appendNode`: the old tail `t` now points forward to `c`, and `c`
is the new backward link of the head `h`. -/
theorem concat {h t : Nat} (hl : SibList s hd l) (hh : l.head? = some h)
    (ht : l.getLast? = some t) (hc : c ∉ l)
    (hn : ∀ p ∈ l, p ≠ t → s'.nextSib p = s.nextSib p)
    (hp : ∀ p ∈ l, p ≠ h → s'.prevSib p = s.prevSib p)
    (hnt : s'.nextSib t = some c) (hnc : s'.nextSib c = none)
    (hph : s'.prevSib h = some c) (hpc : s'.prevSib c = some t) :
    SibList s' hd (l ++ [c]) := by
  obtain ⟨nd, hnext, hprev⟩ := hl
  refine ⟨nd.append (List.nodup_singleton c) (by simpa using hc), ?_, ?_⟩
  · -- forward: the old list up to its tail, then `c`
    obtain ⟨l₀, rfl⟩ := List.getLast?_eq_some_iff.mp ht
    have ht₀ : t ∉ l₀ := by simpa using (List.nodup_append.mp nd).2.2
    rw [seg_concat] at hnext
    rw [seg_concat, seg_concat]
    exact ⟨⟨hnext.1.congr fun p hp' => hn p (by simp [hp'])
      (by rintro rfl; exact ht₀ hp'), hnt⟩, hnc⟩
  · -- backward: `c`, then the old list reversed down to the head
    obtain ⟨l₁, rfl⟩ := List.head?_eq_some_iff.mp hh
    have hh₁ : h ∉ l₁ := (List.nodup_cons.mp nd).1
    rw [ht] at hprev
    simp only [List.reverse_cons, seg_concat] at hprev
    simp only [List.getLast?_concat, List.reverse_append, List.reverse_cons,
      List.reverse_nil, List.nil_append, List.singleton_append, seg_cons, true_and, hpc,
      List.append_assoc, seg_concat]
    exact ⟨hprev.1.congr fun p hp' => hp p (by simp_all)
      (by rintro rfl; exact hh₁ (List.mem_reverse.mp hp')), hph⟩

/-- The splice of `prependNode`: `c` takes the old tail as its backward link and
points forward to the old head `h`. -/
theorem cons {h t : Nat} (hl : SibList s hd l) (hh : l.head? = some h)
    (ht : l.getLast? = some t) (hc : c ∉ l) (hn : ∀ p ∈ l, s'.nextSib p = s.nextSib p)
    (hp : ∀ p ∈ l, p ≠ h → s'.prevSib p = s.prevSib p)
    (hnc : s'.nextSib c = some h) (hph : s'.prevSib h = some c)
    (hpc : s'.prevSib c = some t) : SibList s' (some c) (c :: l) := by
  obtain ⟨nd, hnext, hprev⟩ := hl
  refine ⟨List.nodup_cons.mpr ⟨hc, nd⟩, ⟨rfl, ?_⟩, ?_⟩
  · rw [hnc, ← hh, ← SibList.head_eq ⟨nd, hnext, hprev⟩]
    exact hnext.congr hn
  · obtain ⟨l₁, rfl⟩ := List.head?_eq_some_iff.mp hh
    have hh₁ : h ∉ l₁ := (List.nodup_cons.mp nd).1
    rw [ht] at hprev
    simp only [List.reverse_cons, seg_concat] at hprev
    simp only [List.getLast?_cons_cons, ht, List.reverse_cons, seg_concat, hpc, and_true]
    exact ⟨hprev.1.congr fun p hp' => hp p (by simp_all)
      (by rintro rfl; exact hh₁ (List.mem_reverse.mp hp')), hph⟩

/-- The splice of `insertNodeAfter` when `r` has a successor `n`: `c` goes between
them, and `n` points back to `c`. -/
theorem insertAfter {l₁ l₂ : List Nat} {r n : Nat} (hl : SibList s hd (l₁ ++ r :: n :: l₂))
    (hc : c ∉ l₁ ++ r :: n :: l₂)
    (hn : ∀ p ∈ l₁ ++ r :: n :: l₂, p ≠ r → s'.nextSib p = s.nextSib p)
    (hp : ∀ p ∈ l₁ ++ r :: n :: l₂, p ≠ n → s'.prevSib p = s.prevSib p)
    (hnr : s'.nextSib r = some c) (hnc : s'.nextSib c = some n)
    (hpn : s'.prevSib n = some c) (hpc : s'.prevSib c = some r) :
    SibList s' hd (l₁ ++ r :: c :: n :: l₂) := by
  obtain ⟨nd, hnext, hprev⟩ := hl
  have hr : ∀ p ∈ l₁ ++ n :: l₂, p ≠ r := by
    rintro p hp' rfl
    exact (List.nodup_cons.mp (List.nodup_middle.mp nd)).1 hp'
  have hn' : ∀ p ∈ (l₁ ++ [r]) ++ l₂, p ≠ n := by
    have nd' : ((l₁ ++ [r]) ++ n :: l₂).Nodup := by simpa using nd
    intro p hp' h
    subst h
    exact (List.nodup_cons.mp (List.nodup_middle.mp nd')).1 hp'
  refine ⟨?_, ?_, ?_⟩
  · rw [show l₁ ++ r :: c :: n :: l₂ = (l₁ ++ [r]) ++ c :: n :: l₂ by simp, List.nodup_middle]
    exact List.nodup_cons.mpr ⟨by simpa using hc, by simpa using nd⟩
  · rw [seg_append] at hnext ⊢
    obtain ⟨m, h1, rfl, hrn, h2⟩ := hnext
    refine ⟨_, h1.congr fun p hp' => hn p (by simp [hp']) (hr p (by simp [hp'])), rfl, ?_⟩
    simp only [seg_cons, hnr, hnc, true_and]
    rw [hn n (by simp) (hr n (by simp))]
    exact h2.congr fun p hp' => hn p (by simp [hp']) (hr p (by simp [hp']))
  · obtain ⟨t, ht⟩ : ∃ t, (n :: l₂).getLast? = some t :=
      ⟨_, List.getLast?_eq_getLast _ (List.cons_ne_nil _ _)⟩
    simp only [List.getLast?_append, List.getLast?_cons_cons, ht, Option.or_some,
      List.reverse_append, List.reverse_cons, List.reverse_nil, List.nil_append,
      List.append_assoc, List.singleton_append, List.cons_append] at hprev ⊢
    rw [seg_append] at hprev ⊢
    obtain ⟨m, h1, rfl, hnr', h2⟩ := hprev
    refine ⟨_, h1.congr fun p hp' => hp p (by simp_all) (hn' p (by simp_all)), rfl, ?_⟩
    simp only [seg_cons, hpn, hpc, true_and]
    rw [hp r (by simp) (hn' r (by simp))]
    exact h2.congr fun p hp' => hp p (by simp_all) (hn' p (by simp_all))

end SibList

end Opr8.Dom
