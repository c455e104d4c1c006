import Mathlib.Data.List.Basic
import Opr8.Dom.Node
import Opr8.Dom.Tree

/-!
# Opr8 — creating nodes and attributes

Every node of the store is created by `&node{value: ...}`, the model's `Store.push`, which
hands out the allocation frontier with every link nil. For that node to be fresh, no list
may already mention the frontier: `Bounded s C A` says every list member is below it and no
node at or above it heads a list. Under `Bounded`, allocation keeps the shape and yields a
`Detached` node (`Shape.push`, `Bounded.detached_push`).

Attributes are spliced by the same statements as children (`appendSibling` and its
siblings over `ListKind.attributes`), except that the attribute's parent link is never
written. `newStartElement` and `newDeclaration` create a node and append one fresh
attribute per entry (`appendAttrs`), which is all the Builder needs to know about them.

Main results:

* `appendAttrs_spec` — appending fresh attributes extends exactly one attribute list,
  with the attributes in order, and changes nothing else below the old frontier.
* `newStartElement_spec`, `newDeclaration_spec` — the node they create, as a `Created`
  record.
* `appendAttribute_orphan` — `AppendAttribute` leaves the attribute's parent nil, so
  `InsertAttributeAfter` and `InsertAttributeBefore` anchored at it fail with a hierarchy
  error.
* `declaration_pairs_roundTrip` — `kvPairs` reads back every list of pairs printed
  `key="value"` and joined by spaces, so `newDeclaration` and `CreateXMLDeclaration` give the
  declaration exactly those attributes, in order.
-/

namespace Opr8.Dom

open Xml Store

/-! ## Allocation -/

/-- Every list member is below the allocation frontier, and no node at or above it heads
a list. -/
structure Bounded (s : Store) (C A : Nat → List Nat) : Prop where
  kids : ∀ p, ∀ q ∈ C p, q < s.next
  attrs : ∀ p, ∀ q ∈ A p, q < s.next
  fresh : ∀ p, s.next ≤ p → C p = [] ∧ A p = []

namespace Bounded

variable {s s' : Store} {C A : Nat → List Nat}

/-- No list mentions any node. -/
theorem nil (s : Store) : Bounded s (fun _ => []) (fun _ => []) := ⟨by simp, by simp, by simp⟩

theorem of_le (hb : Bounded s C A) (h : s.next ≤ s'.next) : Bounded s' C A :=
  ⟨fun p q hq => lt_of_lt_of_le (hb.kids p q hq) h,
    fun p q hq => lt_of_lt_of_le (hb.attrs p q hq) h, fun p hp => hb.fresh p (le_trans h hp)⟩

theorem push (hb : Bounded s C A) (v : Value) : Bounded (s.push v) C A :=
  hb.of_le (Nat.le_succ _)

theorem update_kids (hb : Bounded s C A) {n : Nat} (hn : n < s.next) {l : List Nat}
    (hl : ∀ q ∈ l, q < s.next) : Bounded s (Function.update C n l) A := by
  refine ⟨fun p q hq => ?_, hb.attrs, fun p hp => ?_⟩
  · by_cases h : p = n
    · subst h
      exact hl q (by simpa using hq)
    · exact hb.kids p q (by rwa [Function.update_noteq h] at hq)
  · rw [Function.update_noteq (by omega)]
    exact hb.fresh p hp

theorem update_attrs (hb : Bounded s C A) {n : Nat} (hn : n < s.next) {l : List Nat}
    (hl : ∀ q ∈ l, q < s.next) : Bounded s C (Function.update A n l) := by
  refine ⟨hb.kids, fun p q hq => ?_, fun p hp => ?_⟩
  · by_cases h : p = n
    · subst h
      exact hl q (by simpa using hq)
    · exact hb.attrs p q (by rwa [Function.update_noteq h] at hq)
  · rw [Function.update_noteq (by omega)]
    exact hb.fresh p hp

/-- The allocated node is on no list and has no links. -/
theorem detached_push (hb : Bounded s C A) (v : Value) : Detached (s.push v) C A s.next :=
  ⟨by simp, fun p h => lt_irrefl _ (hb.kids p _ h), fun p h => lt_irrefl _ (hb.attrs p _ h)⟩

end Bounded

/-- The lists of the sample stores name allocated nodes. -/
theorem docTwoChildren_bounded :
    Bounded docTwoChildren (Function.update (fun _ => []) 0 [1, 2]) (fun _ => []) :=
  (Bounded.nil _).update_kids (by decide) (by decide)

theorem nestedElements_bounded :
    Bounded nestedElements (Function.update (Function.update (fun _ => []) 0 [1]) 1 [2])
      (fun _ => []) :=
  ((Bounded.nil _).update_kids (by decide) (by decide)).update_kids (by decide) (by decide)

/-- Allocation keeps a list of allocated nodes. -/
theorem SibList.push {s : Store} {hd : Option Nat} {l : List Nat} (h : SibList s hd l)
    (hl : ∀ q ∈ l, q < s.next) (v : Value) : SibList (s.push v) hd l :=
  h.congr (fun q hq => by simp [Function.update_noteq (ne_of_lt (hl q hq))])
    (fun q hq => by simp [Function.update_noteq (ne_of_lt (hl q hq))])

/-- Allocation keeps the shape: no list mentions the new node. -/
theorem Shape.push {s : Store} {C A : Nat → List Nat} (hs : Shape s C A) (hb : Bounded s C A)
    (v : Value) : Shape (s.push v) C A := by
  have hlist : ∀ {hd : Option Nat} {l : List Nat}, (∀ q ∈ l, q < s.next) → SibList s hd l →
      SibList (s.push v) hd l := fun hl h => h.push hl v
  refine ⟨fun p => ?_, fun p c hc => ?_, fun p => ?_, hs.attrs_disjoint, hs.kids_attrs⟩
  · by_cases hp : p = s.next
    · subst hp
      rw [(hb.fresh _ le_rfl).1]
      simpa using SibList.nil
    · simpa [Function.update_noteq hp] using hlist (hb.kids p) (hs.kids p)
  · simpa [Function.update_noteq (ne_of_lt (hb.kids p c hc))] using hs.parent p c hc
  · by_cases hp : p = s.next
    · subst hp
      rw [(hb.fresh _ le_rfl).2]
      simpa using SibList.nil
    · simpa [Function.update_noteq hp] using hlist (hb.attrs p) (hs.attrs p)

/-- `s'` keeps the parent link, the next link and the payload of `q`. -/
def Kept (s s' : Store) (q : Nat) : Prop :=
  s'.parent q = s.parent q ∧ s'.nextSib q = s.nextSib q ∧ s'.value q = s.value q

theorem Kept.trans {s₁ s₂ s₃ : Store} {q : Nat} (h₁ : Kept s₁ s₂ q) (h₂ : Kept s₂ s₃ q) :
    Kept s₁ s₃ q :=
  ⟨h₂.1.trans h₁.1, h₂.2.1.trans h₁.2.1, h₂.2.2.trans h₁.2.2⟩

theorem Kept.push {s : Store} {q : Nat} (hq : q < s.next) (v : Value) : Kept s (s.push v) q := by
  simp [Kept, Function.update_noteq (ne_of_lt hq)]

/-! ## The attribute list -/

/-- `appendAttribute`: the attribute's parent link is not written. -/
def appendAttribute (attr parent : Nat) (s : Store) : Option Store :=
  appendSibling .attributes attr parent s

/-- `prependAttribute`. -/
def prependAttribute (attr parent : Nat) (s : Store) : Store :=
  prependSibling .attributes attr parent s

/-- `insertAttributeAfter`: both nodes must hold attributes, or the call panics. -/
def insertAttributeAfter (attr place parent : Nat) (s : Store) : Option Store :=
  if s.nodeType place ≠ .attribute ∨ s.nodeType attr ≠ .attribute then none
  else insertSiblingAfter .attributes attr place (some parent) s

/-- `insertAttributeBefore`, as written: a head `place` is recognised by a nil `prevSib`,
which a linked attribute never has, and the new attribute then becomes the head. -/
def insertAttributeBefore (attr place parent : Nat) (s : Store) : Option Store :=
  if s.nodeType place ≠ .attribute ∨ s.nodeType attr ≠ .attribute then none
  else
    let s := match s.prevSib place with
      | some pprev => s.setNextSib pprev (some attr)
      | none => s.setFirstAttr parent (some attr)
    let s := s.setPrevSib attr (s.prevSib place)
    let s := s.setNextSib attr (some place)
    some (s.setPrevSib place (some attr))

/-- `newAttribute`. -/
def newAttribute (a : Attr) (s : Store) : Nat × Store := (s.next, s.push (.attribute a))

/-- `n.AppendAttribute(a)`. -/
def AppendAttribute (n : Nat) (a : Attr) (s : Store) : Option (Option Error × Store) :=
  match allowInsertAttributeErr (s.nodeType n) with
  | some err => some (some err, s)
  | none =>
    let (p, s) := newAttribute a s
    (appendAttribute p n s).map (none, ·)

/-- `n.PrependAttribute(a)`. -/
def PrependAttribute (n : Nat) (a : Attr) (s : Store) : Option (Option Error × Store) :=
  match allowInsertAttributeErr (s.nodeType n) with
  | some err => some (some err, s)
  | none =>
    let (p, s) := newAttribute a s
    some (none, prependAttribute p n s)

/-- `n.InsertAttributeAfter(a, after)`; a nil `after` appends. -/
def InsertAttributeAfter (n : Nat) (a : Attr) (after : Option Nat) (s : Store) :
    Option (Option Error × Store) :=
  match allowInsertAttributeErr (s.nodeType n) with
  | some err => some (some err, s)
  | none =>
    match after with
    | none =>
      let (p, s) := newAttribute a s
      (appendAttribute p n s).map (none, ·)
    | some r =>
      if s.parent r ≠ some n then some (some .hierarchyRequest, s)
      else
        let (p, s) := newAttribute a s
        (insertAttributeAfter p r n s).map (none, ·)

/-- `n.InsertAttributeBefore(a, before)`; a nil `before` prepends. -/
def InsertAttributeBefore (n : Nat) (a : Attr) (before : Option Nat) (s : Store) :
    Option (Option Error × Store) :=
  match allowInsertAttributeErr (s.nodeType n) with
  | some err => some (some err, s)
  | none =>
    match before with
    | none =>
      let (p, s) := newAttribute a s
      some (none, prependAttribute p n s)
    | some r =>
      if s.parent r ≠ some n then some (some .hierarchyRequest, s)
      else
        let (p, s) := newAttribute a s
        (insertAttributeBefore p r n s).map (none, ·)

/-- The loop of `newStartElement` and `newDeclaration`: allocate each attribute in turn
and append it to `n`. -/
def appendAttrs (n : Nat) : List Attr → Store → Option Store
  | [], s => some s
  | a :: as, s => do
    let (p, s) := newAttribute a s
    let s ← appendAttribute p n s
    appendAttrs n as s

section AppendAttrs

variable {C : Nat → List Nat} {n : Nat}

theorem appendAttrs_spec : ∀ (attrs : List Attr) {s : Store} {A : Nat → List Nat},
    Shape s C A → Bounded s C A → n < s.next →
    ∃ s', appendAttrs n attrs s = some s' ∧
      Shape s' C (Function.update A n (A n ++ List.range' s.next attrs.length)) ∧
      Bounded s' C (Function.update A n (A n ++ List.range' s.next attrs.length)) ∧
      s'.next = s.next + attrs.length ∧
      (List.range' s.next attrs.length).map s'.attrOf = attrs.map some ∧
      (∀ q < s.next, s'.value q = s.value q) ∧
      (∀ q < s.next, q ∉ A n → Kept s s' q)
  | [], s, A, hs, hb, _ => by
    refine ⟨s, rfl, ?_, ?_, rfl, rfl, fun _ _ => rfl, fun _ _ _ => ⟨rfl, rfl, rfl⟩⟩ <;>
      simpa using ‹_›
  | a :: as, s, A, hs, hb, hn => by
    -- the fresh attribute `p` goes to the end of `n`'s list
    have hs₁ := hs.push hb (.attribute a)
    have hd := hb.detached_push (.attribute a)
    have hsib : SibList (s.push (.attribute a)) ((s.push (.attribute a)).head .attributes n)
        (A n) := hs₁.attrs n
    obtain ⟨s₂, h₂, hr⟩ := appendSibling_relinked hsib (hd.attrs n) hd.nextSib
    have hs₂ := hs₁.relinkAttr hd (by simp) hr
    have hb₂ : Bounded s₂ C (Function.update A n (A n ++ [s.next])) := by
      refine ((hb.push (.attribute a)).update_attrs (by simp; omega) ?_).of_le (by rw [hr.next])
      intro q hq
      rcases List.mem_append.mp hq with hq | hq
      · exact lt_of_lt_of_le (hb.attrs n q hq) (Nat.le_succ _)
      · simp_all
    have hnext₂ : s₂.next = s.next + 1 := by rw [hr.next]; rfl
    obtain ⟨s', h', hs', hb', hnext', hvals, hvlt, hkept⟩ :=
      appendAttrs_spec as hs₂ hb₂ (by omega)
    have hA : Function.update (Function.update A n (A n ++ [s.next])) n
        ((A n ++ [s.next]) ++ List.range' s₂.next as.length) =
        Function.update A n (A n ++ List.range' s.next (as.length + 1)) := by
      rw [Function.update_idem, hnext₂, List.range'_succ, List.append_assoc]
      rfl
    simp only [Function.update_same, hA] at hs' hb'
    have hp : s'.attrOf s.next = some a := by
      simp [Store.attrOf, hvlt s.next (by omega), hr.value]
    refine ⟨s', ?_, hs', hb', by simp [hnext', hnext₂]; omega, ?_, fun q hq => ?_, ?_⟩
    · simp only [appendAttrs, newAttribute]
      rw [show appendAttribute s.next n (s.push (.attribute a)) = some s₂ from h₂]
      exact h'
    · rw [List.length_cons, List.range'_succ, List.map_cons, hp, ← hnext₂, hvals]
      rfl
    · rw [hvlt q (by omega), hr.value]
      simp [Function.update_noteq (ne_of_lt hq)]
    · intro q hq hqA
      have hqp : q ≠ s.next := ne_of_lt hq
      refine ((Kept.push hq _).trans ⟨hr.parent q, hr.nextSib q hqA hqp, hr.value q⟩).trans
        (hkept q (by omega) ?_)
      simp [Function.update_same, hqA, hqp]

end AppendAttrs

/-- The attribute appends write no parent link: every parent link after them was there
before. -/
theorem appendAttrs_parent_sub (n : Nat) : ∀ (attrs : List Attr) {s s' : Store},
    appendAttrs n attrs s = some s' → ∀ x y, s'.parent x = some y → s.parent x = some y
  | [], _, _, h, _, _, hx => by
    cases h
    exact hx
  | a :: as, s, _, h, x, y, hx => by
    obtain ⟨s₁, h₁, h₂⟩ := Option.bind_eq_some.mp h
    have hx₁ := appendAttrs_parent_sub n as h₂ x y hx
    rw [appendSibling_parent h₁] at hx₁
    by_cases hxn : x = s.next
    · simp [hxn] at hx₁
    · simpa [Function.update_noteq hxn] using hx₁

/-! ## The public attribute insertions -/

/-- `AppendAttribute` under a parent that may hold attributes is one round of the
`appendAttrs` loop. -/
theorem appendAttribute_eq_appendAttrs {s : Store} {n : Nat} {a : Attr}
    (hk : allowInsertAttribute (s.nodeType n) = true) :
    AppendAttribute n a s = (appendAttrs n [a] s).map (none, ·) := by
  simp [AppendAttribute, allowInsertAttributeErr, hk, appendAttrs, newAttribute]

/-- **Appended attributes have no parent.** Under an Element or a Declaration of a
well-formed store, `AppendAttribute` puts one fresh attribute node at the end of the
list, but `appendAttribute` never writes that node's parent link, so its `Parent()` is
nil rather than its owner. `InsertAttributeAfter` and `InsertAttributeBefore` compare
the reference's `Parent()` with the owner first: at that attribute both report a
hierarchy error and insert nothing. -/
theorem appendAttribute_orphan {s : Store} {C A : Nat → List Nat} (hs : Shape s C A)
    (hb : Bounded s C A) {n : Nat} (hn : n < s.next)
    (hk : allowInsertAttribute (s.nodeType n) = true) (a b : Attr) :
    ∃ s', AppendAttribute n a s = some (none, s') ∧
      Shape s' C (Function.update A n (A n ++ [s.next])) ∧ s'.parent s.next = none ∧
      InsertAttributeAfter n b (some s.next) s' = some (some .hierarchyRequest, s') ∧
      InsertAttributeBefore n b (some s.next) s' = some (some .hierarchyRequest, s') := by
  obtain ⟨s', h', hs', -, -, -, hval, -⟩ := appendAttrs_spec [a] hs hb hn
  have happ : appendAttribute s.next n (s.push (.attribute a)) = some s' := by
    simpa [appendAttrs, newAttribute] using h'
  have hpar : s'.parent s.next = none := by simpa using appendSibling_parent happ s.next
  have hk' : allowInsertAttributeErr (s'.nodeType n) = none := by
    simp [allowInsertAttributeErr, Store.nodeType, hval n hn, ← hk]
  refine ⟨s', by rw [appendAttribute_eq_appendAttrs hk, h']; rfl, by simpa using hs', hpar, ?_, ?_⟩
  · simp [InsertAttributeAfter, hk', hpar]
  · simp [InsertAttributeBefore, hk', hpar]

theorem appendAttribute_orphan_loneElement :
    Shape loneElement (fun _ => []) (fun _ => []) ∧
    Bounded loneElement (fun _ => []) (fun _ => []) ∧ 0 < loneElement.next ∧
    allowInsertAttribute (loneElement.nodeType 0) = true ∧
    ∃ s', AppendAttribute 0 ⟨⟨"", "x"⟩, "1"⟩ loneElement = some (none, s') ∧
      Shape s' (fun _ => []) (Function.update (fun _ => []) 0 ([] ++ [loneElement.next])) ∧
      s'.parent loneElement.next = none ∧
      InsertAttributeAfter 0 ⟨⟨"", "y"⟩, "2"⟩ (some loneElement.next) s' =
        some (some .hierarchyRequest, s') ∧
      InsertAttributeBefore 0 ⟨⟨"", "y"⟩, "2"⟩ (some loneElement.next) s' =
        some (some .hierarchyRequest, s') :=
  have hl : Linkless loneElement := Linkless.empty.push _
  ⟨hl.shape, .nil _, by decide, by decide,
    appendAttribute_orphan hl.shape (.nil _) (by decide) (by decide) _ _⟩

/-! ## Node constructors -/

/-- `newText`. -/
def newText (cd : String) (s : Store) : Nat × Store := (s.next, s.push (.text cd))

/-- `newComment`. -/
def newComment (c : String) (s : Store) : Nat × Store := (s.next, s.push (.comment c))

/-- `newProcInst`. -/
def newProcInst (pi : ProcInst) (s : Store) : Nat × Store := (s.next, s.push (.procinst pi))

/-- `CreateAttribute`: an attribute node on no list. -/
def CreateAttribute (a : Attr) (s : Store) : Nat × Store := newAttribute a s

/-- `newDocumentFragment`: a fragment node whose parent link is its host. -/
def newDocumentFragment (host : Nat) (s : Store) : Nat × Store :=
  (s.next, (s.push .documentFragment).setParent s.next (some host))

/-- `CreateDocumentFragment`. -/
def CreateDocumentFragment (host : Nat) (s : Store) : Nat × Store := newDocumentFragment host s

/-- A fragment created on a well-formed store keeps the shape and the bounds; the new node
is detached, and its parent link names the host. -/
theorem createDocumentFragment_spec {s : Store} {C A : Nat → List Nat} (hs : Shape s C A)
    (hb : Bounded s C A) (host : Nat) :
    Shape (CreateDocumentFragment host s).2 C A ∧ Bounded (CreateDocumentFragment host s).2 C A ∧
      Detached (CreateDocumentFragment host s).2 C A s.next ∧
      (CreateDocumentFragment host s).2.parent s.next = some host :=
  ⟨(hs.push hb _).setParent (hb.detached_push .documentFragment).kids _,
    (hb.push .documentFragment).of_le le_rfl, (hb.detached_push .documentFragment).setParent _ _,
    by simp [CreateDocumentFragment, newDocumentFragment]⟩

/-- `newDocument`; the context is not modelled. -/
def newDocument (s : Store) : Nat × Store := (s.next, s.push .document)

/-- `newStartElement`: an element named as the start tag, with its attributes in order. -/
def newStartElement (se : StartElement) (s : Store) : Option (Nat × Store) :=
  let n := s.next
  (appendAttrs n se.attr (s.push (.element se.name ""))).map (n, ·)

/-- `bytes.Fields`: the maximal runs of non-space characters. -/
def fields (s : List Char) : List (List Char) := (s.splitOnP isSpace).filter (· ≠ [])

/-- One field of `kvPairs`: `key="value"` or `key='value'` gives `[key, value]`, anything
else nothing. -/
def kvField (field : List Char) : List String :=
  match field.indexOf? '=' with
  | none => []
  | some idx =>
    match field.drop (idx + 1) with
    | [] => []
    | q :: rest =>
      if q ≠ '\'' ∧ q ≠ '"' then []
      else match rest.indexOf? q with
        | some j => [String.mk (field.take idx), String.mk (rest.take j)]
        | none => []

/-- `kvPairs`: keys and values, alternating, of the well-formed fields. -/
def kvPairs (input : String) : List String := (fields input.data).flatMap kvField

/-- The loop of `newDeclaration` over `kvPairs`: pair `pairs[i*2]` with `pairs[i*2+1]`
for `i < len(pairs)/2`. -/
def pairUp : List String → List (String × String)
  | k :: v :: rest => (k, v) :: pairUp rest
  | _ => []

/-- The attributes `newDeclaration` gives a declaration: one per parsed pair, named by the
key with no namespace. -/
def declAttrs (pi : ProcInst) : List Attr :=
  (pairUp (kvPairs pi.inst)).map fun kv => ⟨⟨"", kv.1⟩, kv.2⟩

/-- `newDeclaration`. -/
def newDeclaration (pi : ProcInst) (s : Store) : Option (Nat × Store) :=
  let n := s.next
  (appendAttrs n (declAttrs pi) (s.push (.declaration pi))).map (n, ·)

/-- `CreateXMLDeclaration`: the declaration of `fmt.Sprintf` applied to
`version="1.0" encoding="%s"`. -/
def CreateXMLDeclaration (encoding : String) (s : Store) : Option (Nat × Store) :=
  newDeclaration ⟨"xml", "version=\"1.0\" encoding=\"" ++ encoding ++ "\""⟩ s

example : kvPairs "version=\"1.0\" encoding='UTF-8' junk x=1" =
    ["version", "1.0", "encoding", "UTF-8"] := by decide

/-- What creating the node `s.next` with payload `v` and the attributes `attrs` leaves:
the node and its attributes are the only new nodes; the node is on no list, its
attribute list is exactly the new attributes, and nothing below the old frontier
changed. -/
structure Created (s s' : Store) (C A : Nat → List Nat) (v : Value) (attrs : List Attr) :
    Prop where
  shape : Shape s' C (Function.update A s.next (List.range' (s.next + 1) attrs.length))
  bounded : Bounded s' C (Function.update A s.next (List.range' (s.next + 1) attrs.length))
  detached : Detached s' C (Function.update A s.next (List.range' (s.next + 1) attrs.length))
    s.next
  value : s'.value s.next = some v
  attr_values : (List.range' (s.next + 1) attrs.length).map s'.attrOf = attrs.map some
  kept : ∀ q < s.next, Kept s s' q
  next : s'.next = s.next + 1 + attrs.length

/-- Creating a node and appending fresh attributes to it. -/
theorem created_of_appendAttrs {s : Store} {C A : Nat → List Nat} (hs : Shape s C A)
    (hb : Bounded s C A) (v : Value) (attrs : List Attr) :
    ∃ s', appendAttrs s.next attrs (s.push v) = some s' ∧ Created s s' C A v attrs := by
  have hA : A s.next = [] := (hb.fresh _ le_rfl).2
  obtain ⟨s', h, hs', hb', hnext, hvals, hvlt, hkept⟩ :=
    appendAttrs_spec attrs (hs.push hb v) (hb.push v) (Nat.lt_succ_self s.next)
  simp only [push_next, hA, List.nil_append] at hs' hb' hnext hvals hkept
  have hk : ∀ q < s.next, Kept s s' q := fun q hq =>
    (Kept.push hq v).trans (hkept q (by omega) (by simp))
  have hd : Kept (s.push v) s' s.next := hkept _ (Nat.lt_succ_self _) (by simp)
  refine ⟨s', h, hs', hb', ⟨?_, fun p hp => ?_, fun p hp => ?_⟩, ?_, hvals, hk, by omega⟩
  · simp [hd.2.1]
  · exact lt_irrefl _ (hb.kids p _ hp)
  · by_cases hpn : p = s.next
    · subst hpn
      simp only [Function.update_same, List.mem_range'_1] at hp
      omega
    · rw [Function.update_noteq hpn] at hp
      exact lt_irrefl _ (hb.attrs p _ hp)
  · rw [hd.2.2]
    simp

section Created

variable {s s' : Store} {C A : Nat → List Nat} {v : Value} {attrs : List Attr}

/-- Creation changes nothing below the old frontier. -/
theorem Created.agreeOn (hc : Created s s' C A v attrs) :
    AgreeOn (· < s.next) s s' C C A
      (Function.update A s.next (List.range' (s.next + 1) attrs.length)) :=
  fun q hq => ⟨(hc.kept q hq).2.2, rfl, Function.update_noteq (ne_of_lt hq) _ _⟩

/-- A node detached before the creation stays detached. -/
theorem Created.detached_of_lt (hc : Created s s' C A v attrs) {n : Nat}
    (hd : Detached s C A n) (hn : n < s.next) :
    Detached s' C (Function.update A s.next (List.range' (s.next + 1) attrs.length)) n := by
  refine ⟨(hc.kept n hn).2.1.trans hd.nextSib, hd.kids, fun p hp => ?_⟩
  by_cases hps : p = s.next
  · subst hps
    simp only [Function.update_same, List.mem_range'_1] at hp
    omega
  · exact hd.attrs p (by rwa [Function.update_noteq hps] at hp)

/-- The created node stands for the tree of its payload and attributes, over any node set
holding it and its attributes. -/
theorem Created.repIn (hc : Created s s' C A v attrs) (hb : Bounded s C A) {K : Nat → Prop}
    (hK : ∀ q, s.next ≤ q → q < s'.next → K q) :
    RepIn K s' C (Function.update A s.next (List.range' (s.next + 1) attrs.length)) s.next
      (.node v attrs []) := by
  have hnext := hc.next
  refine repIn_node.mpr ⟨hK _ le_rfl (by omega), hc.value, fun a ha => ?_, ?_, ?_⟩
  · simp only [Function.update_same, List.mem_range'_1] at ha
    exact hK a (by omega) (by omega)
  · simpa using hc.attr_values
  · simp [(hb.fresh _ le_rfl).1]

end Created

/-- A node without attributes, `s.push v`, is created. -/
theorem created_push {s : Store} {C A : Nat → List Nat} (hs : Shape s C A) (hb : Bounded s C A)
    (v : Value) : Created s (s.push v) C A v [] := by
  obtain ⟨s', h, hc⟩ := created_of_appendAttrs hs hb v []
  cases h
  exact hc

theorem newStartElement_spec {s : Store} {C A : Nat → List Nat} (hs : Shape s C A)
    (hb : Bounded s C A) (se : StartElement) :
    ∃ s', newStartElement se s = some (s.next, s') ∧
      Created s s' C A (.element se.name "") se.attr := by
  obtain ⟨s', h, hc⟩ := created_of_appendAttrs hs hb (.element se.name "") se.attr
  exact ⟨s', by simp [newStartElement, h], hc⟩

theorem newDeclaration_spec {s : Store} {C A : Nat → List Nat} (hs : Shape s C A)
    (hb : Bounded s C A) (pi : ProcInst) :
    ∃ s', newDeclaration pi s = some (s.next, s') ∧
      Created s s' C A (.declaration pi) (declAttrs pi) := by
  obtain ⟨s', h, hc⟩ := created_of_appendAttrs hs hb (.declaration pi) (declAttrs pi)
  exact ⟨s', by simp [newDeclaration, h], hc⟩

/-! ## Printing and parsing declaration pairs

The inverse `kvPairs` is meant to be: pairs printed `key="value"` and joined by single
spaces, as `CreateXMLDeclaration` prints its two. The printing is this development's; the
code has only the one `Sprintf`. -/

/-- One pair printed as `key="value"`. -/
def printPair (p : String × String) : String := p.1 ++ "=\"" ++ p.2 ++ "\""

/-- Pairs printed and joined by single spaces. -/
def printPairs : List (String × String) → String
  | [] => ""
  | [p] => printPair p
  | p :: q :: ps => printPair p ++ " " ++ printPairs (q :: ps)

/-- A pair `kvPairs` can read back: the key holds no space and no `=`, the value no space
and no double quote. -/
def Printable (p : String × String) : Prop :=
  (∀ c ∈ p.1.data, isSpace c = false ∧ c ≠ '=') ∧ ∀ c ∈ p.2.data, isSpace c = false ∧ c ≠ '"'

instance : DecidablePred Printable := fun _ => inferInstanceAs (Decidable (_ ∧ _))

theorem indexOf?_append_cons {α : Type} [BEq α] [LawfulBEq α] {a : α} {k : List α} (hk : a ∉ k)
    (rest : List α) : (k ++ a :: rest).indexOf? a = some k.length := by
  have : k.findIdx? (· == a) = none :=
    List.findIdx?_eq_none_iff.mpr fun x hx => beq_eq_false_iff_ne.mpr (ne_of_mem_of_not_mem hx hk)
  simp [List.indexOf?, this]

theorem printPair_data (p : String × String) :
    (printPair p).data = p.1.data ++ '=' :: '"' :: (p.2.data ++ ['"']) := by
  simp [printPair]

theorem printPair_ne_nil (p : String × String) : (printPair p).data ≠ [] := by
  simp [printPair_data]

theorem printPair_noSpace {p : String × String} (hp : Printable p) :
    ∀ c ∈ (printPair p).data, ¬ isSpace c := by
  simp only [printPair_data, List.mem_append, List.mem_cons, List.not_mem_nil, or_false]
  rintro c (h | rfl | rfl | h | rfl)
  all_goals first | decide | simp [(hp.1 c h).1] | simp [(hp.2 c h).1]

/-- The key ends at the first `=`, and the value at the first quote after the opening one. -/
theorem kvField_printPair {p : String × String} (hp : Printable p) :
    kvField (printPair p).data = [p.1, p.2] := by
  have hk : '=' ∉ p.1.data := fun h => (hp.1 _ h).2 rfl
  have hv : '"' ∉ p.2.data := fun h => (hp.2 _ h).2 rfl
  have hd : (p.1.data ++ '=' :: '"' :: (p.2.data ++ ['"'])).drop (p.1.data.length + 1) =
      '"' :: (p.2.data ++ ['"']) := by
    rw [← List.drop_drop, List.drop_left]
    rfl
  rw [printPair_data, kvField, indexOf?_append_cons hk]
  simp only [hd, if_neg (show ¬('"' ≠ '\'' ∧ '"' ≠ '"') by decide), indexOf?_append_cons hv,
    List.take_left]

/-- `bytes.Fields` splits the printing back into the printed pairs. -/
theorem fields_printPairs : ∀ ps : List (String × String), (∀ p ∈ ps, Printable p) →
    fields (printPairs ps).data = ps.map fun p => (printPair p).data
  | [], _ => rfl
  | [p], h => by
    simp [fields, printPairs, List.splitOnP_eq_single _ _ (printPair_noSpace (h p (by simp))),
      printPair_ne_nil]
  | p :: q :: ps, h => by
    have ih := fields_printPairs (q :: ps) fun x hx => h x (List.mem_cons_of_mem _ hx)
    simp only [fields] at ih ⊢
    rw [printPairs, String.data_append, String.data_append,
      show (" " : String).data = [' '] from rfl, List.append_assoc, List.singleton_append,
      List.splitOnP_first _ _ (printPair_noSpace (h p (by simp))) _ (by decide),
      List.filter_cons_of_pos (by simpa using printPair_ne_nil p), ih]
    rfl

theorem pairUp_flatMap (ps : List (String × String)) :
    pairUp (ps.flatMap fun p => [p.1, p.2]) = ps := by
  induction ps with
  | nil => rfl
  | cons p ps ih =>
    rw [List.flatMap_cons]
    exact congrArg (p :: ·) ih

theorem kvPairs_printPairs {ps : List (String × String)} (h : ∀ p ∈ ps, Printable p) :
    kvPairs (printPairs ps) = ps.flatMap fun p => [p.1, p.2] := by
  rw [kvPairs, fields_printPairs ps h, List.flatMap_map]
  exact List.flatMap_congr fun p hp => kvField_printPair (h p hp)

theorem declAttrs_printPairs (target : String) {ps : List (String × String)}
    (h : ∀ p ∈ ps, Printable p) :
    declAttrs ⟨target, printPairs ps⟩ = ps.map fun p => ⟨⟨"", p.1⟩, p.2⟩ := by
  rw [declAttrs, kvPairs_printPairs h, pairUp_flatMap]

theorem newDeclaration_printPairs {s : Store} {C A : Nat → List Nat} (hs : Shape s C A)
    (hb : Bounded s C A) (target : String) {ps : List (String × String)}
    (h : ∀ p ∈ ps, Printable p) :
    ∃ s', newDeclaration ⟨target, printPairs ps⟩ s = some (s.next, s') ∧
      Created s s' C A (.declaration ⟨target, printPairs ps⟩) (ps.map fun p => ⟨⟨"", p.1⟩, p.2⟩) := by
  simpa only [declAttrs_printPairs target h] using newDeclaration_spec hs hb ⟨target, printPairs ps⟩

theorem createXMLDeclaration_inst (enc : String) :
    ("version=\"1.0\" encoding=\"" ++ enc ++ "\"" : String) =
      printPairs [("version", "1.0"), ("encoding", enc)] := String.ext rfl

theorem declaration_pairs_roundTrip :
    (∀ ps : List (String × String), (∀ p ∈ ps, Printable p) →
      kvPairs (printPairs ps) = ps.flatMap (fun p => [p.1, p.2]) ∧
      ∀ (target : String) (s : Store) (C A : Nat → List Nat), Shape s C A → Bounded s C A →
        ∃ s', newDeclaration ⟨target, printPairs ps⟩ s = some (s.next, s') ∧
          Created s s' C A (.declaration ⟨target, printPairs ps⟩)
            (ps.map fun p => ⟨⟨"", p.1⟩, p.2⟩)) ∧
    ∀ enc : String, (∀ c ∈ enc.data, isSpace c = false ∧ c ≠ '"') →
      ∀ (s : Store) (C A : Nat → List Nat), Shape s C A → Bounded s C A →
        ∃ s', CreateXMLDeclaration enc s = some (s.next, s') ∧
          Created s s' C A (.declaration ⟨"xml", "version=\"1.0\" encoding=\"" ++ enc ++ "\""⟩)
            [⟨⟨"", "version"⟩, "1.0"⟩, ⟨⟨"", "encoding"⟩, enc⟩] := by
  refine ⟨fun ps h => ⟨kvPairs_printPairs h, fun target s C A hs hb =>
    newDeclaration_printPairs hs hb target h⟩, fun enc henc s C A hs hb => ?_⟩
  have hp : ∀ p ∈ [("version", "1.0"), ("encoding", enc)], Printable p := by
    simp only [List.mem_cons, List.not_mem_nil, or_false]
    rintro p (rfl | rfl)
    · decide
    · exact ⟨(by decide : ∀ c ∈ "encoding".data, isSpace c = false ∧ c ≠ '='), henc⟩
  rw [CreateXMLDeclaration, createXMLDeclaration_inst]
  exact newDeclaration_printPairs hs hb "xml" hp

theorem declaration_pairs_roundTrip_utf8 :
    kvPairs (printPairs [("version", "1.0"), ("standalone", "yes")]) =
      ["version", "1.0", "standalone", "yes"] ∧
    ∃ s', CreateXMLDeclaration "UTF-8" Store.empty = some (0, s') ∧
      Created Store.empty s' (fun _ => []) (fun _ => [])
        (.declaration ⟨"xml", "version=\"1.0\" encoding=\"UTF-8\""⟩)
        [⟨⟨"", "version"⟩, "1.0"⟩, ⟨⟨"", "encoding"⟩, "UTF-8"⟩] :=
  ⟨(declaration_pairs_roundTrip.1 _ (by decide)).1,
    declaration_pairs_roundTrip.2 "UTF-8" (by decide) _ _ _ Linkless.empty.shape (Bounded.nil _)⟩

end Opr8.Dom
