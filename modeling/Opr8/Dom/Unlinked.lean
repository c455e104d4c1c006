import Opr8.Dom.Builder
import Opr8.Dom.Navigate

/-!
# Opr8 — nodes on no list

`&node{...}` leaves every link of a new node nil, and only a splice writes a `prevSib`: that
of the node it links and that of the head of the list it links it into. A node on no list
that no node has as a head (`Unlinked`) keeps its nil backward link through every splice
that links another node. The Builder links only the nodes it creates and, at an end tag,
its cursor, whose parent link is set; so the root of a run, which has no parent, stays
unlinked for the whole run (`Builder.feed_unlinked`). `PreviousSibling` reads
`n.prevSib.nextSib`, and on such a node it reads through nil.

Main results:

* `Builder.handle_unlinked`, `Builder.feed_unlinked` — every handler of the Builder keeps a
  node without parent unlinked.
* `previousSibling_unlinked_panics` — `PreviousSibling` panics on a node as it is created,
  on the element a start tag opens, and on the Document root after every Builder run.
-/

namespace Opr8.Dom

open Xml Store

/-- The node `r` exists, has a nil backward link, and is no node's first child or first
attribute. -/
structure Unlinked (s : Store) (r : Nat) : Prop where
  lt : r < s.next
  prevSib : s.prevSib r = none
  head : ∀ k p, s.head k p ≠ some r

namespace Unlinked

variable {s s' : Store} {r c p : Nat}

theorem head_push (s : Store) (v : Value) (k : ListKind) (p : Nat) :
    (s.push v).head k p = if p = s.next then none else s.head k p := by
  cases k <;> simp [Function.update_apply, eq_comm]

/-- A node as `&node{...}` creates it, in a store whose heads are all allocated. -/
theorem fresh (hh : ∀ k p, s.head k p ≠ some s.next) (v : Value) : Unlinked (s.push v) s.next :=
  ⟨by simp, by simp, fun k p => by rw [head_push]; split_ifs <;> simp [hh]⟩

theorem push (h : Unlinked s r) (v : Value) : Unlinked (s.push v) r :=
  ⟨by simp; have := h.lt; omega, by simp [Function.update_noteq (ne_of_lt h.lt), h.prevSib],
    fun k p => by rw [head_push]; split_ifs <;> simp [h.head]⟩

theorem setParent (h : Unlinked s r) (v : Option Nat) : Unlinked (s.setParent c v) r :=
  ⟨h.lt, h.prevSib, fun k p => by simpa using h.head k p⟩

/-- A splice linking another node writes the backward links of that node and of a head
only. -/
theorem appendSibling {k : ListKind} (h : Unlinked s r) (hc : c ≠ r)
    (ha : Dom.appendSibling k c p s = some s') : Unlinked s' r := by
  have hnext := appendSibling_next ha
  unfold Dom.appendSibling at ha
  split at ha
  · rename_i hd hh
    obtain ⟨tl, -, ha⟩ := Option.bind_eq_some.mp ha
    cases ha
    have hdr : hd ≠ r := fun e => h.head k p (e ▸ hh)
    refine ⟨hnext ▸ h.lt, ?_, fun k' p' => by simpa using h.head k' p'⟩
    simp [Function.update_noteq hdr.symm, Function.update_noteq hc.symm, h.prevSib]
  · cases ha
    refine ⟨hnext ▸ h.lt, by simp [Function.update_noteq hc.symm, h.prevSib], fun k' p' => ?_⟩
    rw [head_setPrevSib]
    by_cases hkp : k' = k ∧ p' = p
    · obtain ⟨rfl, rfl⟩ := hkp
      simpa using hc
    · rw [head_setHead_of_ne (by tauto)]
      exact h.head k' p'

theorem appendAttrs (n : Nat) : ∀ (attrs : List Attr) {s s' : Store}, Unlinked s r →
    Dom.appendAttrs n attrs s = some s' → Unlinked s' r
  | [], _, _, h, ha => by
    cases ha
    exact h
  | a :: as, s, _, h, ha => by
    obtain ⟨s₁, h₁, h₂⟩ := Option.bind_eq_some.mp ha
    exact appendAttrs n as ((h.push _).appendSibling (ne_of_lt h.lt).symm h₁) h₂

theorem appendChild {e : Option Error} (h : Unlinked s r) (hc : c ≠ r)
    (ha : AppendChild p c s = some (e, s')) : Unlinked s' r := by
  unfold AppendChild at ha
  split at ha
  · cases ha
    exact h
  · obtain ⟨s₁, h₁, h₂⟩ := Option.map_eq_some'.mp ha
    cases h₂
    exact (h.setParent _).appendSibling hc h₁

end Unlinked

/-! ## Parent links the Builder writes -/

theorem appendAttrs_parent (n : Nat) : ∀ (attrs : List Attr) {s s' : Store},
    appendAttrs n attrs s = some s' → ∀ q, q < s.next → s'.parent q = s.parent q
  | [], _, _, ha, _, _ => by cases ha; rfl
  | a :: as, s, _, ha, q, hq => by
    obtain ⟨s₁, h₁, h₂⟩ := Option.bind_eq_some.mp ha
    have hq₁ : q < s₁.next := by rw [appendSibling_next h₁]; simp; omega
    rw [appendAttrs_parent n as h₂ q hq₁, appendSibling_parent h₁]
    simp [Function.update_noteq (ne_of_lt hq)]

theorem appendChild_parent {s s' : Store} {p c q : Nat} {e : Option Error} (hq : q ≠ c)
    (ha : AppendChild p c s = some (e, s')) : s'.parent q = s.parent q := by
  unfold AppendChild at ha
  split at ha
  · cases ha
    rfl
  · obtain ⟨s₁, h₁, h₂⟩ := Option.map_eq_some'.mp ha
    cases h₂
    simp [appendSibling_parent h₁, Function.update_noteq hq]

namespace Builder

variable {s s' : Store} {r : Nat} {b b' : Builder} {e : Option Error}

/-- A node created by `push` and `appendAttrs` leaves an unlinked node without parent so. -/
theorem created_unlinked {v : Value} {attrs : List Attr} {s₁ : Store} (hu : Unlinked s r)
    (hp : s.parent r = none) (ha : appendAttrs s.next attrs (s.push v) = some s₁) :
    Unlinked s₁ r ∧ s₁.parent r = none := by
  refine ⟨(hu.push v).appendAttrs _ _ ha, ?_⟩
  rw [appendAttrs_parent _ _ ha r (by simp; have := hu.lt; omega)]
  simp [Function.update_noteq (ne_of_lt hu.lt), hp]

/-- Appending a node created after `r` to the cursor. -/
theorem appendToCursor_unlinked {c : Nat} {s₁ : Store} (hu : Unlinked s₁ r) (hp : s₁.parent r = none)
    (hne : c ≠ r) (h : b.appendToCursor (c, s₁) = some (e, b', s')) :
    Unlinked s' r ∧ s'.parent r = none := by
  obtain ⟨⟨e', s₂⟩, h₁, h₂⟩ := Option.map_eq_some'.mp h
  cases h₂
  exact ⟨hu.appendChild hne h₁, (appendChild_parent (Ne.symm hne) h₁).trans hp⟩

/-- **Every handler keeps a node without parent unlinked.** -/
theorem handle_unlinked {t : Token} (h : handle t b s = some (e, b', s')) (hu : Unlinked s r)
    (hp : s.parent r = none) : Unlinked s' r ∧ s'.parent r = none := by
  have hne : s.next ≠ r := (ne_of_lt hu.lt).symm
  have hpush : ∀ v, Unlinked (s.push v) r ∧ (s.push v).parent r = none := fun v =>
    ⟨hu.push v, by simp [Function.update_noteq hne.symm, hp]⟩
  -- the branches that leave the store as it was
  have hkeep : ∀ {b₀ : Builder} {e₀ : Option Error}, some (e₀, b₀, s) = some (e, b', s') →
      Unlinked s' r ∧ s'.parent r = none := by
    rintro _ _ h
    cases h
    exact ⟨hu, hp⟩
  cases t with
  | startElement se =>
    obtain ⟨⟨c, s₁⟩, hc, h₂⟩ := Option.map_eq_some'.mp h
    cases h₂
    obtain ⟨s₂, h₁, h₃⟩ := Option.map_eq_some'.mp hc
    cases h₃
    obtain ⟨hu₂, hp₂⟩ := created_unlinked hu hp h₁
    exact ⟨hu₂.setParent _, by simp [Function.update_noteq hne.symm, hp₂]⟩
  | endElement n =>
    simp only [handle_endElement, Builder.EndElement] at h
    split at h
    · exact hkeep h
    · rename_i q hq
      have hcr : b.node ≠ r := fun e => by rw [e, hp] at hq; cases hq
      split at h <;> cases h
      all_goals exact ⟨hu.appendChild hcr ‹_›, (appendChild_parent (Ne.symm hcr) ‹_›).trans hp⟩
  | charData cd =>
    simp only [handle_charData, Builder.CharData] at h
    split at h
    · exact hkeep h
    · split_ifs at h <;> first
        | exact hkeep h
        | exact appendToCursor_unlinked (hpush _).1 (hpush _).2 hne h
  | comment c =>
    simp only [handle_comment, Builder.Comment] at h
    split_ifs at h
    · exact hkeep h
    · split at h
      · exact hkeep h
      · exact appendToCursor_unlinked (hpush _).1 (hpush _).2 hne h
  | procInst pi =>
    simp only [handle_procInst, Builder.ProcInst] at h
    split at h
    · exact hkeep h
    · split_ifs at h
      · -- a declaration: created with its attributes, then appended
        obtain ⟨⟨c, s₁⟩, hc, h₂⟩ := Option.bind_eq_some.mp h
        obtain ⟨s₂, h₁, h₃⟩ := Option.map_eq_some'.mp hc
        cases h₃
        obtain ⟨hu₂, hp₂⟩ := created_unlinked hu hp h₁
        exact appendToCursor_unlinked hu₂ hp₂ hne h₂
      · exact appendToCursor_unlinked (hpush _).1 (hpush _).2 hne h
      · exact hkeep h
  | directive d => exact hkeep h

/-- **A run keeps a node without parent unlinked**, whatever it returns. -/
theorem feed_unlinked : ∀ (ts : List Token) {b b' : Builder} {s s' : Store} {e : Option Error},
    feed ts b s = some (e, b', s') → Unlinked s r → s.parent r = none →
      Unlinked s' r ∧ s'.parent r = none
  | [], _, _, _, _, _, h, hu, hp => by
    cases h
    exact ⟨hu, hp⟩
  | t :: ts, b, _, s, _, _, h, hu, hp => by
    rw [feed_cons] at h
    rcases hh : handle t b s with _ | ⟨_ | e₁, b₁, s₁⟩ <;> rw [hh] at h
    · cases h
    · obtain ⟨hu₁, hp₁⟩ := handle_unlinked hh hu hp
      exact feed_unlinked ts h hu₁ hp₁
    · cases h
      exact handle_unlinked hh hu hp

end Builder

/-- A node with a nil backward link makes `PreviousSibling` read through nil. -/
theorem previousSibling_of_unlinked {s : Store} {r : Nat} (h : Unlinked s r) :
    s.PreviousSibling r = none := by
  simp [Store.PreviousSibling, h.prevSib]

/-- In a well-formed store every head is an allocated node. -/
theorem Shape.head_ne_next {s : Store} {C A : Nat → List Nat} (hs : Shape s C A)
    (hb : Bounded s C A) (k : ListKind) (p : Nat) : s.head k p ≠ some s.next := fun h => by
  have hmem : ∀ l : List Nat, (∀ q ∈ l, q < s.next) → l.head? = some s.next → False :=
    fun l hl hh => lt_irrefl _ (hl _ (List.mem_of_mem_head? hh))
  cases k
  · exact hmem _ (hb.kids p) ((hs.kids p).head_eq ▸ h)
  · exact hmem _ (hb.attrs p) ((hs.attrs p).head_eq ▸ h)

/-- **`PreviousSibling` panics on a node on no list.** It reads `n.prevSib.nextSib`, and the
backward link is nil until a splice links the node. On a well-formed store: every node as
it is created, the element the Builder's start tag creates and moves its cursor to, which
stays unlinked until its end tag, and the Document `NewDocument` creates, after every run
of a Builder on it, whatever the tokens and the run's outcome. -/
theorem previousSibling_unlinked_panics {s : Store} {C A : Nat → List Nat} (hs : Shape s C A)
    (hb : Bounded s C A) :
    (∀ v : Value, (s.push v).PreviousSibling s.next = none) ∧
    (∀ (se : StartElement) (b b' : Builder) (s' : Store),
      Builder.StartElement se b s = some (none, b', s') → s'.PreviousSibling b'.node = none) ∧
    ∀ (ts : List Token) (b b' : Builder) (e : Option Error) (s' : Store),
      Builder.feed ts b (newDocument s).2 = some (e, b', s') →
        s'.PreviousSibling (newDocument s).1 = none := by
  have hfresh := Unlinked.fresh (Shape.head_ne_next hs hb)
  refine ⟨fun v => previousSibling_of_unlinked (hfresh v), fun se b b' s' h => ?_,
    fun ts b b' e s' h => ?_⟩
  · obtain ⟨⟨c, s₁⟩, hc, h₂⟩ := Option.map_eq_some'.mp h
    cases h₂
    obtain ⟨s₂, h₁, h₃⟩ := Option.map_eq_some'.mp hc
    cases h₃
    exact previousSibling_of_unlinked (((hfresh _).appendAttrs _ _ h₁).setParent _)
  · exact previousSibling_of_unlinked (Builder.feed_unlinked ts h (hfresh _) (by simp [newDocument])).1

theorem previousSibling_unlinked_panics_empty :
    Shape Store.empty (fun _ => []) (fun _ => []) ∧ Bounded Store.empty (fun _ => []) (fun _ => []) ∧
    ((∀ v : Value, (Store.empty.push v).PreviousSibling Store.empty.next = none) ∧
    (∀ (se : StartElement) (b b' : Builder) (s' : Store),
      Builder.StartElement se b Store.empty = some (none, b', s') →
        s'.PreviousSibling b'.node = none) ∧
    ∀ (ts : List Token) (b b' : Builder) (e : Option Error) (s' : Store),
      Builder.feed ts b (newDocument Store.empty).2 = some (e, b', s') →
        s'.PreviousSibling (newDocument Store.empty).1 = none) :=
  ⟨Linkless.empty.shape, Bounded.nil _,
    previousSibling_unlinked_panics Linkless.empty.shape (Bounded.nil _)⟩

end Opr8.Dom
