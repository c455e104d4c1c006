import Mathlib.Data.Finset.Card
import Opr8.Dom.Create

/-!
# Opr8 — reading the tree: navigation and the child iterator

The read side of the node API follows the links the write side keeps. `LastChild` reads
the head's backward link, the only way to the tail. `PreviousSibling` reads the backward
link and answers nil when the node it reaches has no forward link: that node is the tail,
so the node asked about is the head. A node whose backward link is nil, one on no list,
makes that test read through nil: Go panics, and the model answers `none`.

`iterChildren` and `ChildrenByName` walk the child list by its forward links. In a store
of arbitrary links such a loop need not end, so the model gives it `s.next` rounds, which
a list of distinct allocated nodes never exceeds; `none` stands for a loop that has not
ended.

`nodeIterator` (`NodeIterator`) is a cursor over a parent's children with a filter.
`NextSibling` first moves forward off the child it stands on (from nothing, to the first
child), then scans forward to a child the filter accepts; `PreviousSibling` moves back
(from nothing, to the last child) and scans backward while the node it stands on has a
forward link. The move goes through the Go `Node` interface, and calling `nodePtr` on a
nil interface panics: moving forward off the last child, moving back off the head, or
starting on a parent with no children. The backward scan stops at the first node with no
forward link, the tail: started from nothing it stands on the tail at once, and answers
nil.

Under `Shape s C A` every read agrees with the abstract lists.

Main results:

* `iterChildren_eq`, `childrenByName_eq` — the loops visit exactly the child list.
* `lastChild_eq`, `previousSibling_eq` — the tail, and a child's predecessor (nil for the
  head).
* `NodeIterator.nextSibling_fresh`, `NodeIterator.nextSibling_on` — a forward step finds
  the first accepted child after the one the iterator stands on, and panics when there is
  none to move to.
* `NodeIterator.previousSibling_fresh`, `NodeIterator.previousSibling_on` — a backward
  step finds the last accepted child before it, down to the head; from nothing it answers
  nil at once.
* `NodeIterator.nextSibling_run_restarts`, `NodeIterator.previousSibling_run_nil` — runs of
  the iterator: forward it answers nil after the last accepted child and then starts over,
  or panics; backward it answers nil at every step.
* `Store.ownerDocument_misses` — `OwnerDocument` answers nil wherever its walk ends, even at
  a document: it asks the payload for `Document`, which no payload implements.
-/

namespace Opr8.Dom

open Xml

/-- The name a payload gives as a `Namer`: elements and attributes have one. -/
def Value.namer? : Value → Option Name
  | .element name _ => some name
  | .attribute a => some a.name
  | _ => none

/-- The method set of each payload's dynamic type (`*element`, `*attribute`, `*text`, ...),
as the source declares it, with the methods promoted from embedded fields (`text` in
`comment`, `xml.ProcInst` in `procinst` and `declaration`). -/
def Value.methods : Value → List String
  | .element .. => ["nodeType", "Name", "Prefix"]
  | .attribute _ => ["Name", "nodeType", "SetValue"]
  | .text _ => ["String", "Empty", "Data", "charData", "nodeType", "SetValue", "SetData",
      "DeleteData", "ReplaceData", "AppendData", "InsertData"]
  | .comment _ => ["nodeType", "String", "Empty", "Data", "charData", "SetValue", "SetData",
      "DeleteData", "ReplaceData", "AppendData", "InsertData"]
  | .procinst _ => ["Copy", "nodeType", "Target", "Inst"]
  | .declaration _ => ["Copy", "nodeType", "Target", "Inst"]
  | .document => ["nodeType", "Context"]
  | .documentFragment => ["nodeType"]

/-- The methods of the `Document` interface: those of `Node` (with `Namer`, `Valuer`,
`ValueSetter` and `nodePtr`), then its own. -/
def documentMethods : List String :=
  ["Name", "Value", "SetValue", "ChildValue", "NodeType", "Parent", "OwnerDocument",
    "FirstChild", "LastChild", "NextSibling", "PreviousSibling", "ChildrenByName",
    "ChildByName", "AppendChild", "PrependChild", "InsertChildAfter", "InsertChildBefore",
    "nodePtr", "Context", "DocumentElement"]

/-- The type assertion `v.(Document)` on a payload: its dynamic type has every method of
`Document`. -/
def Value.implementsDocument (v : Value) : Bool := documentMethods.all (· ∈ v.methods)

/-- No payload type implements `Document`: the methods of `Node` belong to `*node` and to
the wrappers such as `documentNode`, never to a payload. -/
theorem Value.implementsDocument_eq_false (v : Value) : v.implementsDocument = false := by
  cases v <;> rfl

namespace Store

/-- `n.LastChild()`: the head's backward link. -/
def LastChild (s : Store) (n : Nat) : Option Nat := (s.firstChild n).bind s.prevSib

/-- `n.PreviousSibling()`: the backward link, unless the node it reaches has no forward
link; `none` when the backward link is nil and the test panics. -/
def PreviousSibling (s : Store) (n : Nat) : Option (Option Nat) :=
  (s.prevSib n).map fun p => if (s.nextSib p).isSome then some p else none

/-- The nodes `for it := h; it != nil; it = it.nextSib` visits, in order, within `fuel`
rounds. -/
def walk (s : Store) : Nat → Option Nat → Option (List Nat)
  | _, none => some []
  | 0, some _ => none
  | fuel + 1, some p => (s.walk fuel (s.nextSib p)).map (p :: ·)

/-- `iterChildren`: the children the callback runs on, in order. -/
def iterChildren (s : Store) (n : Nat) : Option (List Nat) := s.walk s.next (s.firstChild n)

/-- `n.ChildrenByName(name)`: the children whose payload is a `Namer` of that name. -/
def ChildrenByName (s : Store) (n : Nat) (name : Name) : Option (List Nat) :=
  (s.iterChildren n).map (List.filter fun c => (s.value c).bind Value.namer? = some name)

/-- `n.ChildByName(name)`: the first of them, nil for none. -/
def ChildByName (s : Store) (n : Nat) (name : Name) : Option (Option Nat) :=
  (s.ChildrenByName n name).map List.head?

/-- The nodes `for it := h; it != nil; it = it.parent` visits, in order, within `fuel`
rounds. -/
def parentChain (s : Store) : Nat → Option Nat → Option (List Nat)
  | _, none => some []
  | 0, some _ => none
  | fuel + 1, some p => (s.parentChain fuel (s.parent p)).map (p :: ·)

/-- The loop of `OwnerDocument` from `it` on, within `fuel` rounds: the first node whose
payload passes the assertion `it.value.(Document)`, nil when the chain ends first. A nil
payload fails the assertion. -/
def ownerLoop (s : Store) : Nat → Option Nat → Option (Option Nat)
  | _, none => some none
  | 0, some _ => none
  | fuel + 1, some it =>
    if (s.value it).any Value.implementsDocument then some (some it)
    else s.ownerLoop fuel (s.parent it)

/-- `n.OwnerDocument()`: the loop from `n.parent`, with the rounds `walk` is given. -/
def OwnerDocument (s : Store) (n : Nat) : Option (Option Nat) :=
  s.ownerLoop s.next (s.parent n)

/-- What the documentation describes: the node at the top of the parent chain when it is
a Document, nil otherwise. -/
def ownerDocumentSpec (s : Store) (n : Nat) : Option (Option Nat) :=
  (s.parentChain s.next (s.parent n)).map fun l =>
    l.getLast?.filter fun d => decide (s.nodeType d = .document)

@[simp] theorem walk_none (s : Store) (fuel : Nat) : s.walk fuel none = some [] := by
  cases fuel <;> rfl

end Store

/-! ## The iterator -/

/-- `nodeIterator`: the parent whose children it visits, and the child it stands on (`wrap`),
nil before the first step and after a step that found nothing. The filter `match` is passed
to each step. -/
structure NodeIterator where
  parent : Nat
  wrap : Option Nat
deriving DecidableEq, Repr

/-- The forward loop of `NextSibling`, `for cur := start; cur != nil; cur = cur.nextSib`:
the first node the filter accepts, nil when the loop runs out. -/
def scanNext (s : Store) (keep : Nat → Bool) : Nat → Option Nat → Option (Option Nat)
  | _, none => some none
  | 0, some _ => none
  | fuel + 1, some c => if keep c then some (some c) else scanNext s keep fuel (s.nextSib c)

/-- The backward loop of `PreviousSibling`, `for cur := start; cur.nextSib != nil;
cur = cur.prevSib`. A nil backward link makes the next test read through nil: `none`. -/
def scanPrev (s : Store) (keep : Nat → Bool) : Nat → Nat → Option (Option Nat)
  | 0, _ => none
  | fuel + 1, c =>
    if (s.nextSib c).isNone then some none
    else if keep c then some (some c)
    else
      match s.prevSib c with
      | none => none
      | some p => scanPrev s keep fuel p

namespace NodeIterator

/-- The first statement of `NextSibling`: the node the iterator moves to, the parent's
first child from nothing, else the next sibling. -/
def forward (s : Store) (it : NodeIterator) : Option Nat :=
  match it.wrap with
  | none => s.firstChild it.parent
  | some w => s.nextSib w

/-- The first statement of `PreviousSibling`: the parent's last child from nothing, else
`w.PreviousSibling()`, which panics (`none`) on a nil backward link. -/
def backward (s : Store) (it : NodeIterator) : Option (Option Nat) :=
  match it.wrap with
  | none => some (s.LastChild it.parent)
  | some w => s.PreviousSibling w

/-- `it.NextSibling()`: the node found and the moved iterator; `none` when `nodePtr` is
called on a nil interface. -/
def NextSibling (s : Store) (keep : Nat → Bool) (it : NodeIterator) :
    Option (Option Nat × NodeIterator) :=
  match it.forward s with
  | none => none
  | some c => (scanNext s keep s.next (some c)).map fun r => (r, { it with wrap := r })

/-- `it.PreviousSibling()`. -/
def PreviousSibling (s : Store) (keep : Nat → Bool) (it : NodeIterator) :
    Option (Option Nat × NodeIterator) :=
  match it.backward s with
  | some (some c) => (scanPrev s keep s.next c).map fun r => (r, { it with wrap := r })
  | _ => none

/-- `k` successive calls of an iterator step: what each call returns and where the
iterator ends, or `none` when one of them panics. -/
def run (step : NodeIterator → Option (Option Nat × NodeIterator)) :
    Nat → NodeIterator → Option (List (Option Nat) × NodeIterator)
  | 0, it => some ([], it)
  | k + 1, it => (step it).bind fun ri => (run step k ri.2).map fun rsi => (ri.1 :: rsi.1, rsi.2)

variable {step : NodeIterator → Option (Option Nat × NodeIterator)} {it it' : NodeIterator}
  {k : Nat}

@[simp] theorem run_zero : run step 0 it = some ([], it) := rfl

theorem run_succ_of {r : Option Nat} (h : step it = some (r, it')) :
    run step (k + 1) it = (run step k it').map fun rsi => (r :: rsi.1, rsi.2) := by
  simp [run, h]

theorem run_succ_of_none (h : step it = none) : run step (k + 1) it = none := by
  simp [run, h]

end NodeIterator

/-! ## Loops over a well-formed list -/

/-- A list of distinct pointers below `n` has at most `n` members. -/
theorem length_le_of_nodup {l : List Nat} {n : Nat} (hl : l.Nodup) (h : ∀ x ∈ l, x < n) :
    l.length ≤ n := by
  rw [← List.toFinset_card_of_nodup hl, ← Finset.card_range n]
  exact Finset.card_le_card fun x hx => Finset.mem_range.mpr (h x (List.mem_toFinset.mp hx))

section Loops

variable {s : Store} {C A : Nat → List Nat}

theorem walk_of_seg : ∀ {fuel : Nat} {h : Option Nat} {l : List Nat},
    Seg s.nextSib h l none → l.length ≤ fuel → s.walk fuel h = some l
  | _, _, [], hs, _ => by rw [seg_nil.mp hs, Store.walk_none]
  | fuel + 1, _, p :: l, ⟨rfl, hs⟩, hl => by
    simp [Store.walk, walk_of_seg hs (by simpa using hl)]
  | 0, _, _ :: _, _, hl => absurd hl (by simp)

theorem scanNext_of_seg (keep : Nat → Bool) : ∀ {fuel : Nat} {h : Option Nat} {l : List Nat},
    Seg s.nextSib h l none → l.length ≤ fuel → scanNext s keep fuel h = some (l.find? keep)
  | fuel, _, [], hs, _ => by rw [seg_nil.mp hs]; cases fuel <;> rfl
  | fuel + 1, _, p :: l, ⟨rfl, hs⟩, hl => by
    by_cases hk : keep p
    · simp [scanNext, hk]
    · simp [scanNext, hk, scanNext_of_seg keep hs (by simpa using hl)]
  | 0, _, _ :: _, _, hl => absurd hl (by simp)

/-- The tail of a list has no forward link. -/
theorem SibList.next_tail {hd : Option Nat} {l : List Nat} {t : Nat} (hl : SibList s hd l)
    (ht : l.getLast? = some t) : s.nextSib t = none := by
  obtain ⟨l₀, rfl⟩ := List.getLast?_eq_some_iff.mp ht
  exact hl.next_eq

/-- **The backward scan**, from a node of a list other than the tail: it checks that node
and its predecessors down to the head, then reaches the tail and stops. `rl` is the part
of the list before the node, reversed. -/
theorem scanPrev_of_sib {hd : Option Nat} {l : List Nat} (hl : SibList s hd l)
    (keep : Nat → Bool) : ∀ (rl : List Nat) (c : Nat) (l₂ : List Nat) (fuel : Nat),
    l = rl.reverse ++ c :: l₂ → l₂ ≠ [] → rl.length + 2 ≤ fuel →
    scanPrev s keep fuel c = some ((c :: rl).find? keep) := by
  intro rl
  induction rl with
  | nil =>
    -- the head: past it the backward link reaches the tail, which stops the loop
    rintro c l₂ (_ | _ | fuel) rfl hl₂ hf
    · omega
    · omega
    obtain ⟨x, l₂, rfl⟩ := List.exists_cons_of_ne_nil hl₂
    have hn : s.nextSib c = some x := hl.next_eq
    obtain ⟨t, ht⟩ : ∃ t, (c :: x :: l₂).getLast? = some t :=
      ⟨_, List.getLast?_eq_getLast _ (List.cons_ne_nil _ _)⟩
    have hp : s.prevSib c = some t := (hl.prev_head rfl).trans ht
    by_cases hk : keep c
    · simp [scanPrev, hn, hk]
    · simp [scanPrev, hn, hk, hp, hl.next_tail ht]
  | cons y rl ih =>
    rintro c l₂ (_ | fuel) rfl hl₂ hf
    · omega
    obtain ⟨x, l₂, rfl⟩ := List.exists_cons_of_ne_nil hl₂
    have hl' : SibList s hd (rl.reverse ++ y :: c :: x :: l₂) := by simpa using hl
    have hn : s.nextSib c = some x :=
      (show SibList s hd ((rl.reverse ++ [y]) ++ c :: x :: l₂) by simpa using hl).next_eq
    have hp : s.prevSib c = some y := hl'.prev_eq
    by_cases hk : keep c
    · simp [scanPrev, hn, hk]
    · have := ih y (c :: x :: l₂) fuel (by simp) (List.cons_ne_nil _ _) (by simp at hf; omega)
      simp [scanPrev, hn, hk, hp, this]

end Loops

/-! ## Reads under a well-formed store -/

section Reads

variable {s : Store} {C A : Nat → List Nat}

/-- **`iterChildren` visits the child list**, in order. -/
theorem iterChildren_eq (hs : Shape s C A) (hb : Bounded s C A) (p : Nat) :
    s.iterChildren p = some (C p) :=
  walk_of_seg (hs.kids p).next (length_le_of_nodup (hs.kids p).nodup (hb.kids p))

/-- **`LastChild` is the tail** of the child list. -/
theorem lastChild_eq (hs : Shape s C A) (p : Nat) : s.LastChild p = (C p).getLast? := by
  rw [Store.LastChild, hs.firstChild_eq]
  cases h : (C p).head? with
  | none => simp [List.head?_eq_none_iff.mp h]
  | some c => exact (hs.kids p).prev_head h

/-- **`PreviousSibling` of a child is the child before it**, nil for the head. -/
theorem previousSibling_eq (hs : Shape s C A) {p c : Nat} {l₁ l₂ : List Nat}
    (h : C p = l₁ ++ c :: l₂) : s.PreviousSibling c = some l₁.getLast? := by
  have hl := hs.kids p
  rw [h] at hl
  rcases List.eq_nil_or_concat l₁ with rfl | ⟨l₀, y, rfl⟩
  · -- the head's backward link is the tail, which has no forward link
    obtain ⟨t, ht⟩ : ∃ t, (c :: l₂).getLast? = some t :=
      ⟨_, List.getLast?_eq_getLast _ (List.cons_ne_nil _ _)⟩
    simp [Store.PreviousSibling, (hl.prev_head rfl).trans ht, hl.next_tail ht]
  · -- the child before points forward to `c`
    have hl' : SibList s (s.firstChild p) (l₀ ++ y :: c :: l₂) := by simpa using hl
    simp [Store.PreviousSibling, hl'.prev_eq, hl'.next_eq]

namespace NodeIterator

/-- A forward step, given the list the move lands on. -/
theorem nextSibling_of_seg (keep : Nat → Bool) {it : NodeIterator} {rest : List Nat}
    (hseg : Seg s.nextSib (it.forward s) rest none) (hlen : rest.length ≤ s.next) :
    it.NextSibling s keep =
      if rest = [] then none else some (rest.find? keep, { it with wrap := rest.find? keep }) := by
  have hscan := scanNext_of_seg keep hseg hlen
  cases rest with
  | nil => simp [NextSibling, seg_nil.mp hseg]
  | cons c rest =>
    rw [hseg.1] at hscan
    simp [NextSibling, hseg.1, hscan]

/-- **A fresh iterator's forward step** finds the first accepted child; it panics on a
parent with no children. -/
theorem nextSibling_fresh (hs : Shape s C A) (hb : Bounded s C A) (keep : Nat → Bool)
    (p : Nat) :
    NextSibling s keep ⟨p, none⟩ =
      if C p = [] then none else some ((C p).find? keep, ⟨p, (C p).find? keep⟩) :=
  nextSibling_of_seg keep (hs.kids p).next (length_le_of_nodup (hs.kids p).nodup (hb.kids p))

/-- **A forward step from a child** finds the first accepted child after it; it panics on
the last child. -/
theorem nextSibling_on (hs : Shape s C A) (hb : Bounded s C A) (keep : Nat → Bool)
    {p w : Nat} {l₁ l₂ : List Nat} (h : C p = l₁ ++ w :: l₂) :
    NextSibling s keep ⟨p, some w⟩ =
      if l₂ = [] then none else some (l₂.find? keep, ⟨p, l₂.find? keep⟩) := by
  have hseg := (hs.kids p).next
  rw [h, seg_append] at hseg
  obtain ⟨m, -, rfl, hseg⟩ := hseg
  have hlen := length_le_of_nodup (hs.kids p).nodup (hb.kids p)
  rw [h] at hlen
  exact nextSibling_of_seg keep hseg (by simp at hlen; omega)

/-- **A fresh iterator's backward step** stands on the tail, which has no forward link, and
answers nil at once; it panics on a parent with no children. -/
theorem previousSibling_fresh (hs : Shape s C A) (hb : Bounded s C A) (keep : Nat → Bool)
    (p : Nat) :
    PreviousSibling s keep ⟨p, none⟩ = if C p = [] then none else some (none, ⟨p, none⟩) := by
  simp only [PreviousSibling, backward, lastChild_eq hs]
  cases ht : (C p).getLast? with
  | none => simp [List.getLast?_eq_none_iff.mp ht]
  | some t =>
    have hne : C p ≠ [] := by rintro h; simp [h] at ht
    obtain ⟨f, hf⟩ : ∃ f, s.next = f + 1 :=
      ⟨s.next - 1, by have := hb.kids p t (List.mem_of_mem_getLast? ht); omega⟩
    simp [hne, hf, scanPrev, (hs.kids p).next_tail ht]

/-- **A backward step from a child** finds the last accepted child before it, down to the
head; it panics on the head. -/
theorem previousSibling_on (hs : Shape s C A) (hb : Bounded s C A) (keep : Nat → Bool)
    {p w : Nat} {l₁ l₂ : List Nat} (h : C p = l₁ ++ w :: l₂) :
    PreviousSibling s keep ⟨p, some w⟩ =
      if l₁ = [] then none else some (l₁.reverse.find? keep, ⟨p, l₁.reverse.find? keep⟩) := by
  simp only [PreviousSibling, backward, previousSibling_eq hs h]
  rcases List.eq_nil_or_concat l₁ with rfl | ⟨l₀, y, rfl⟩
  · simp
  · -- the scan starts on `y`, which points forward to `w`
    have hlen := length_le_of_nodup (hs.kids p).nodup (hb.kids p)
    rw [h] at hlen
    have hscan := scanPrev_of_sib (hs.kids p) keep l₀.reverse y (w :: l₂) s.next
      (by simp [h]) (List.cons_ne_nil _ _) (by simp at hlen ⊢; omega)
    simp [hscan]

/-! ### Whole runs of calls -/

variable (hs : Shape s C A) (hb : Bounded s C A) (keep : Nat → Bool) (p : Nat)
include hs hb

/-- **A run of forward calls.** When the next call scans the list `l`, the rest of `p`'s
children, the calls return the children of `l` the filter accepts, in order, and then
nil, which leaves the iterator fresh for the `j` calls after it. When `l` is empty or its
last child is accepted, the call after the accepted ones panics instead: it moves past
the last child. -/
theorem run_nextSibling (j : Nat) : ∀ (l l₁ : List Nat) (it : NodeIterator),
    C p = l₁ ++ l →
    NextSibling s keep it = (if l = [] then none else some (l.find? keep, ⟨p, l.find? keep⟩)) →
    run (NextSibling s keep) ((l.filter keep).length + 1 + j) it =
      if l = [] ∨ l.getLast?.any keep then none
      else (run (NextSibling s keep) j ⟨p, none⟩).map fun rsi =>
        ((l.filter keep).map some ++ none :: rsi.1, rsi.2) := by
  intro l
  induction' hn : l.length using Nat.strong_induction_on with n ih generalizing l
  intro l₁ it h hstep
  rcases hf : l.find? keep with _ | x
  · -- nothing is accepted: the call answers nil and the iterator starts over
    have hno : ∀ y ∈ l, keep y = false := by simpa using List.find?_eq_none.mp hf
    rw [hf] at hstep
    rw [List.filter_eq_nil_iff.mpr (by simpa using hno), List.length_nil, Nat.zero_add,
      Nat.add_comm]
    rcases hl : l.getLast? with _ | y
    · obtain rfl := List.getLast?_eq_none_iff.mp hl
      simp [run_succ_of_none (by simpa using hstep)]
    · have hne : l ≠ [] := by rintro rfl; simp at hl
      simp [run_succ_of (by simpa [hne] using hstep), hne,
        hno y (List.mem_of_getLast?_eq_some hl)]
  · -- `x` is the first accepted child: the call returns it and stands on it
    obtain ⟨hx, l₃, l₄, rfl, hl₃⟩ := List.find?_eq_some.mp hf
    rw [hf] at hstep
    have hfil : (l₃ ++ x :: l₄).filter keep = x :: l₄.filter keep := by
      simp [List.filter_append, List.filter_eq_nil_iff.mpr (by simpa using hl₃), hx]
    have hrest := ih l₄.length (by simp [← hn]; omega) l₄ rfl (l₁ ++ l₃ ++ [x]) ⟨p, some x⟩
      (by simp [h]) (nextSibling_on hs hb keep (by simp [h] : C p = (l₁ ++ l₃) ++ x :: l₄))
    rw [hfil, List.length_cons, show (l₄.filter keep).length + 1 + 1 + j =
      ((l₄.filter keep).length + 1 + j) + 1 by omega, run_succ_of (by simpa using hstep), hrest]
    rcases hl : l₄.getLast? with _ | z
    · obtain rfl := List.getLast?_eq_none_iff.mp hl
      simp [hx]
    · have hne : l₄ ≠ [] := by rintro rfl; simp at hl
      by_cases hz : keep z <;>
        simp [hl, hne, hz, List.getLast?_cons, Option.map_map, Function.comp_def]

/-- **Forward iteration does not stop at the end.** On a fresh iterator over `p`'s
children, the calls return the accepted children in order and then nil, but that nil
makes the iterator fresh again, so the call after it starts over at the first accepted
child. And when the parent has no children, or its last child is accepted, the call after
the accepted children panics: it asks the last child for its next sibling and calls
`nodePtr` on the nil it gets. -/
theorem nextSibling_run_restarts :
    run (NextSibling s keep) (((C p).filter keep).length + 2) ⟨p, none⟩ =
      if C p = [] ∨ (C p).getLast?.any keep then none
      else some (((C p).filter keep).map some ++ [none, (C p).find? keep],
        ⟨p, (C p).find? keep⟩) := by
  have hone : run (NextSibling s keep) 1 ⟨p, none⟩ =
      if C p = [] then none else some ([(C p).find? keep], ⟨p, (C p).find? keep⟩) := by
    by_cases hc : C p = []
    · simp [run_succ_of_none ((nextSibling_fresh hs hb keep p).trans (by simp [hc])), hc]
    · have hstep :
          NextSibling s keep ⟨p, none⟩ = some ((C p).find? keep, ⟨p, (C p).find? keep⟩) := by
        simp [nextSibling_fresh hs hb keep p, hc]
      simp [run_succ_of hstep, hc]
  rw [run_nextSibling hs hb keep p 1 (C p) [] ⟨p, none⟩ rfl (nextSibling_fresh hs hb keep p), hone]
  split_ifs <;> simp_all

omit hs hb in
/-- The children of `docChildAndElement` stay below its frontier. -/
theorem docChildAndElement_bounded :
    Bounded docChildAndElement (Function.update (fun _ => []) 0 [1]) (fun _ => []) := by
  have hn : docChildAndElement.next = 3 := rfl
  refine ⟨fun q x hx => ?_, by simp, fun q hq => ?_⟩
  · by_cases h : q = 0 <;> simp_all [Function.update_apply]
  · simp [Function.update_apply, show q ≠ 0 by omega]

omit hs hb in
/-- Over the children `1` and `2` of `docTwoChildren`: with a filter accepting `1` only, the
call after the nil starts over and returns `1` again; with one accepting the last child,
the call after it panics. -/
theorem nextSibling_run_restarts_docTwoChildren :
    Shape docTwoChildren (Function.update (fun _ => []) 0 [1, 2]) (fun _ => []) ∧
    Bounded docTwoChildren (Function.update (fun _ => []) 0 [1, 2]) (fun _ => []) ∧
    run (NextSibling docTwoChildren fun c => c == 1) 3 ⟨0, none⟩ =
      some ([some 1, none, some 1], ⟨0, some 1⟩) ∧
    run (NextSibling docTwoChildren fun c => c == 2) 3 ⟨0, none⟩ = none :=
  ⟨docTwoChildren_shape, docTwoChildren_bounded,
    (nextSibling_run_restarts docTwoChildren_shape docTwoChildren_bounded _ 0).trans rfl,
    (nextSibling_run_restarts docTwoChildren_shape docTwoChildren_bounded _ 0).trans rfl⟩

/-- **Backward iteration finds nothing.** Every call on a fresh iterator over `p`'s
children answers nil and leaves the iterator fresh: the first step stands on the last
child, which has no forward link, so the scan stops before looking at it. On a parent
with no children the first call panics. -/
theorem previousSibling_run_nil (k : Nat) :
    run (PreviousSibling s keep) (k + 1) ⟨p, none⟩ =
      if C p = [] then none else some (List.replicate (k + 1) none, ⟨p, none⟩) := by
  by_cases hc : C p = []
  · simp [run_succ_of_none ((previousSibling_fresh hs hb keep p).trans (by simp [hc])), hc]
  · have hstep : PreviousSibling s keep ⟨p, none⟩ = some (none, ⟨p, none⟩) := by
      simp [previousSibling_fresh hs hb keep p, hc]
    induction k with
    | zero => simp [run_succ_of hstep, hc]
    | succ k ih =>
      rw [run_succ_of hstep, ih]
      simp [hc, List.replicate_succ]

omit hs hb in
theorem previousSibling_run_nil_docChildAndElement :
    Shape docChildAndElement (Function.update (fun _ => []) 0 [1]) (fun _ => []) ∧
    Bounded docChildAndElement (Function.update (fun _ => []) 0 [1]) (fun _ => []) ∧
    run (PreviousSibling docChildAndElement fun _ => true) (1 + 1) ⟨0, none⟩ =
      if Function.update (fun _ => []) 0 [1] 0 = [] then none
      else some (List.replicate (1 + 1) none, ⟨0, none⟩) :=
  ⟨docChildAndElement_shape, docChildAndElement_bounded,
    previousSibling_run_nil docChildAndElement_shape docChildAndElement_bounded _ 0 1⟩

end NodeIterator

end Reads

/-! ## The owner document -/

namespace Store

/-- The loop of `OwnerDocument` walks the whole parent chain: no payload passes its type
assertion, so it answers nil where the chain ends and runs on where it does not. -/
theorem ownerLoop_eq (s : Store) :
    ∀ (fuel : Nat) (it : Option Nat), s.ownerLoop fuel it = (s.parentChain fuel it).map fun _ => none
  | fuel, none => by cases fuel <;> rfl
  | 0, some _ => rfl
  | fuel + 1, some it => by
    have hno : (s.value it).any Value.implementsDocument = false := by
      cases s.value it <;> simp [Value.implementsDocument_eq_false]
    simp only [ownerLoop, hno, parentChain, ownerLoop_eq s fuel, Option.map_map]
    rfl

/-- **`OwnerDocument` never finds the document.** The loop asserts `it.value.(Document)`,
but `value` holds the payload, `*document` for a Document node, and no payload type has
the methods of `Document`. So the assertion fails at every node of the parent chain, and
the loop answers nil once the chain ends; when it ends at a Document, the documentation
has that Document. -/
theorem ownerDocument_misses (s : Store) (n : Nat) :
    s.OwnerDocument n = (s.parentChain s.next (s.parent n)).map (fun _ => none) ∧
    ∀ (l : List Nat) (d : Nat), s.parentChain s.next (s.parent n) = some (l ++ [d]) →
      s.nodeType d = .document →
      s.ownerDocumentSpec n = some (some d) ∧ s.OwnerDocument n = some none := by
  refine ⟨s.ownerLoop_eq _ _, fun l d hc hd => ⟨?_, ?_⟩⟩
  · simp [ownerDocumentSpec, hc, hd]
  · rw [OwnerDocument, s.ownerLoop_eq, hc]
    rfl

theorem ownerDocument_misses_docChildAndElement :
    docChildAndElement.parentChain docChildAndElement.next (docChildAndElement.parent 1) =
      some ([] ++ [0]) ∧ docChildAndElement.nodeType 0 = .document ∧
    (docChildAndElement.ownerDocumentSpec 1 = some (some 0) ∧
      docChildAndElement.OwnerDocument 1 = some none) :=
  ⟨by decide, rfl, (ownerDocument_misses docChildAndElement 1).2 [] 0 (by decide) rfl⟩

end Store

end Opr8.Dom
