import Opr8.Dom.Builder
import Opr8.Dom.Lookup

/-!
# Opr8 — node content and the readers of a node's children

`Value()` switches on the node type: the data of a Text or a Comment, the value of an
Attribute, and the empty string for every other node, a nil payload (`NodeTypeNull`)
included. `SetValue(v)` asserts the payload a `ValueSetter`. Three payload types have that
method: `*attribute` sets its value, `*text` replaces its data with `SetData`, and
`*comment` has the method from the `text` it embeds. Any other payload, or a nil one, gets
the error `cannot call SetValue on a <node type>`, and the store is left as it was.

`ChildValue()` and `DocumentElement()` run the loop of `Child` with another test: the
first Text child, whose data is the answer (`""` when there is none), and the first
Element child. `NewChildNamedIterator(parent, name)` builds the child iterator with the
filter `name == n.Name()`. A fragment's `Host()` is its parent when that is an element;
`SetHost(host)` writes the parent link and nothing else. The Builder's `Root()` walks up
from the cursor to the first node with no parent.

The forest-level readers `DTree.firstOfType`, `DTree.childNamed` and `DTree.childValue`
say what these readers are for; on a well-formed store whose child lists stand for a
forest, each reader answers what its forest-level reader answers.

Main results:

* `setValue_cases` — what `SetValue` does to the store, its error included.
* `readers_refine` — `DocumentElement`, `Child(name)` and `ChildValue` refine the forest
  readers: the node returned stands for the first tree of that kind or of that name, and
  the text read is the data of the first Text tree.
* `childValue_setValue` — setting the value of the first Text child keeps the store well
  formed, changes no other node's payload, and is what `ChildValue` reads next.
* `childNamedIterator_run` — for every name but the zero one, the named iterator returns
  the children `ChildrenByName` returns, in order, and then nil.
* `root_top` — the Builder's `Root()` answers the one node without a parent above the
  cursor, or the cursor itself.
* `setHost_acyclic_iff` — `SetHost` makes no check: it keeps the parent relation acyclic
  exactly when the host is neither the fragment nor one of its descendants.
-/

namespace Opr8.Dom

open Xml

/-! ## Payloads -/

/-- What `Value()` answers for a payload: a Text's or a Comment's data, an Attribute's
value, and `""` for every other node type. -/
def Value.content : Value → String
  | .text v => v
  | .comment v => v
  | .attribute a => a.value
  | _ => ""

/-- A payload after its own `SetValue(v)`: `(*attribute).SetValue` sets `Attr.Value`, and
`(*text).SetValue`, which `*comment` has from the `text` it embeds, is `SetData`, which
replaces the data. The other payloads have no such method and are left as they are;
`SetValue` calls this on the three that have it only. -/
def Value.setValue : Value → String → Value
  | .attribute a, v => .attribute { a with value := v }
  | .text _, v => .text v
  | .comment _, v => .comment v
  | p, _ => p

/-- The payloads that are a `ValueSetter` are the Attribute, Text and Comment ones. -/
theorem Value.setValue_mem_methods (v : Value) :
    "SetValue" ∈ v.methods ↔
      v.nodeType = .attribute ∨ v.nodeType = .text ∨ v.nodeType = .comment := by
  cases v <;> simp only [Value.methods, Value.nodeType] <;> decide

theorem Value.content_setValue {v : Value} (h : "SetValue" ∈ v.methods) (x : String) :
    (v.setValue x).content = x := by
  cases v <;> first | rfl | exact absurd h (by simp only [Value.methods]; decide)

@[simp] theorem Value.nodeType_setValue (v : Value) (x : String) :
    (v.setValue x).nodeType = v.nodeType := by
  cases v <;> rfl

namespace Store

/-- `n.Value()`. A nil payload is `NodeTypeNull`, which answers `""`. -/
def Value (s : Store) (n : Nat) : String :=
  match s.value n with
  | some v => v.content
  | none => ""

/-- `n.SetValue(value)`: the payload's own `SetValue` when the payload is a `ValueSetter`,
else the error naming the node type, with the store as it was. -/
def SetValue (s : Store) (n : Nat) (value : String) : Option Error × Store :=
  match (s.value n).filter fun v => "SetValue" ∈ v.methods with
  | some v => (none, { s with value := Function.update s.value n (some (v.setValue value)) })
  | none => (some (.new ("cannot call SetValue on a " ++ (s.nodeType n).toString)), s)

/-- `n.ChildValue()`: the loop of `Child` stopping at the first Text child, whose data it
answers (`asText().String()`); `""` when there is none. -/
def ChildValue (s : Store) (n : Nat) : Option String :=
  (scanNext s (fun c => s.nodeType c = .text) s.next (s.firstChild n)).map fun
    | some c => s.Value c
    | none => ""

/-- `d.DocumentElement()`: the loop of `Child` stopping at the first Element child. -/
def DocumentElement (s : Store) (n : Nat) : Option (Option Nat) :=
  scanNext s (fun c => s.nodeType c = .element) s.next (s.firstChild n)

/-- `d.Host()`: the parent, when it is an element. -/
def Host (s : Store) (n : Nat) : Option Nat :=
  (s.parent n).filter fun p => s.nodeType p = .element

/-- `d.SetHost(host)`: the parent link is set to the host, and no list is touched. Its nil
check is on the wrapper's node, which a node of the store never is: it answers nil. -/
def SetHost (s : Store) (n host : Nat) : Option Error × Store :=
  (none, s.setParent n (some host))

end Store

namespace NodeIterator

/-- `&nodeIterator{parent, nil, match}`: a fresh iterator over `parent`'s children, with
the filter every step is given (`NextSibling s keep`). -/
def withFilter (parent : Nat) (keep : Nat → Bool) : NodeIterator × (Nat → Bool) :=
  (⟨parent, none⟩, keep)

/-- `NewChildIterator(parent)`: every child. -/
def NewChildIterator (parent : Nat) : NodeIterator × (Nat → Bool) :=
  withFilter parent fun _ => true

/-- `NewChildFilteringIterator(parent, filter)`. -/
def NewChildFilteringIterator (parent : Nat) (filter : Nat → Bool) :
    NodeIterator × (Nat → Bool) :=
  withFilter parent filter

end NodeIterator

/-! ## The forest-level readers -/

namespace DTree

/-- The payload at a tree's root. -/
def value : DTree → Value
  | .node v _ _ => v

/-- The forest's first tree whose root is of kind `k`: its document element for
`.element`. -/
def firstOfType (k : NodeType) (ts : List DTree) : Option DTree :=
  ts.find? fun t => t.value.nodeType = k

/-- The forest's first tree whose root is a `Namer` of that name. -/
def childNamed (name : Name) (ts : List DTree) : Option DTree :=
  ts.find? fun t => t.value.namer? = some name

/-- The data of the forest's first Text tree, `""` when there is none. -/
def childValue (ts : List DTree) : String :=
  ((firstOfType .text ts).map fun t => t.value.content).getD ""

end DTree

/-! ## `SetValue` -/

section SetValue

variable {s : Store}

/-- **What `SetValue` does.** On an Attribute, a Text or a Comment it answers nil and
writes that node's payload, as the payload's own method does; on any other node, a nil
payload included, it answers the error naming the node type and leaves the store as it
was. -/
theorem setValue_cases (s : Store) (n : Nat) (x : String) :
    (∃ v, s.value n = some v ∧
        (v.nodeType = .attribute ∨ v.nodeType = .text ∨ v.nodeType = .comment) ∧
        s.SetValue n x = (none, { s with value := Function.update s.value n (some (v.setValue x)) })) ∨
      ((s.nodeType n ≠ .attribute ∧ s.nodeType n ≠ .text ∧ s.nodeType n ≠ .comment) ∧
        s.SetValue n x = (some (.new ("cannot call SetValue on a " ++ (s.nodeType n).toString)), s)) := by
  cases hv : s.value n with
  | none => exact .inr ⟨by simp [Store.nodeType, hv], by simp [Store.SetValue, hv]⟩
  | some v =>
    by_cases hm : "SetValue" ∈ v.methods
    · exact .inl ⟨v, rfl, v.setValue_mem_methods.mp hm, by simp [Store.SetValue, hv, hm, Option.filter_some]⟩
    · refine .inr ⟨?_, by simp [Store.SetValue, hv, hm, Option.filter_some]⟩
      rw [Store.nodeType_of_value hv]
      simpa [Value.setValue_mem_methods, not_or] using hm

/-- The shape reads the links only, never the payloads. -/
theorem Shape.withValue {C A : Nat → List Nat} (hs : Shape s C A) (f : Nat → Option Value) :
    Shape { s with value := f } C A :=
  ⟨fun p => (hs.kids p).congr (fun _ _ => rfl) fun _ _ => rfl, hs.parent,
    fun p => (hs.attrs p).congr (fun _ _ => rfl) fun _ _ => rfl, hs.attrs_disjoint,
    hs.kids_attrs⟩

/-- A write of a payload that keeps its kind keeps every node type. -/
theorem nodeType_update_of_nodeType {n : Nat} {v w : Value} (hv : s.value n = some v)
    (hw : w.nodeType = v.nodeType) (q : Nat) :
    ({ s with value := Function.update s.value n (some w) } : Store).nodeType q = s.nodeType q := by
  by_cases hq : q = n
  · subst hq
    simp [Store.nodeType, hv, hw]
  · simp [Store.nodeType, Function.update_noteq hq]

end SetValue

/-! ## Readers over a well-formed store -/

section Readers

variable {s : Store} {C A : Nat → List Nat} {K : Nat → Prop}

theorem documentElement_eq (hs : Shape s C A) (hb : Bounded s C A) (n : Nat) :
    s.DocumentElement n = some ((C n).find? fun c => s.nodeType c = .element) :=
  walk_scanNext _ (iterChildren_eq hs hb n)

theorem childValue_eq (hs : Shape s C A) (hb : Bounded s C A) (n : Nat) :
    s.ChildValue n = some ((((C n).find? fun c => s.nodeType c = .text).map s.Value).getD "") := by
  rw [Store.ChildValue, walk_scanNext _ (iterChildren_eq hs hb n)]
  cases (C n).find? fun c => s.nodeType c = .text <;> rfl

theorem RepIn.value_eq {q : Nat} {t : DTree} (h : RepIn K s C A q t) :
    s.value q = some t.value := by
  cases t with
  | node v attrs kids => exact (repIn_node.mp h).2.1

/-- A search of the pointers and a search of the trees they stand for, with tests that
agree on each pair, find a pointer and the tree it stands for, or nothing on both sides. -/
theorem RepListIn.find?_rel {keep : Nat → Bool} {keepT : DTree → Bool}
    (hk : ∀ q t, RepIn K s C A q t → keep q = keepT t) :
    ∀ {qs : List Nat} {ts : List DTree}, RepListIn K s C A qs ts →
      Option.Rel (RepIn K s C A) (qs.find? keep) (ts.find? keepT)
  | [], [], _ => .none
  | q :: qs, t :: ts, h => by
    obtain ⟨hq, hqs⟩ := repListIn_cons_cons.mp h
    rw [List.find?_cons, List.find?_cons, hk q t hq]
    cases keepT t
    · exact find?_rel hk hqs
    · exact .some hq
  | [], _ :: _, h => absurd h repListIn_nil_cons
  | _ :: _, [], h => absurd h repListIn_cons_nil

theorem rel_value_getD {o : Option Nat} {ot : Option DTree} (h : Option.Rel (RepIn K s C A) o ot) :
    (o.map s.Value).getD "" = (ot.map fun t => t.value.content).getD "" := by
  cases h with
  | none => rfl
  | some h => simp [Store.Value, h.value_eq]

/-- **The readers refine the forest readers.** When the children of `n` stand for the
forest `ts`, `DocumentElement` returns a node standing for the first Element tree of `ts`,
nil when there is none; `Child(name)` returns a node standing for the first tree of that
name; and `ChildValue` answers the data of the first Text tree. -/
theorem readers_refine (hs : Shape s C A) (hb : Bounded s C A) {n : Nat} {ts : List DTree}
    (hr : RepList s C A (C n) ts) (name : Name) :
    (∃ r, s.DocumentElement n = some r ∧
        Option.Rel (Rep s C A) r (DTree.firstOfType .element ts)) ∧
      (∃ r, s.Child n name = some r ∧ Option.Rel (Rep s C A) r (DTree.childNamed name ts)) ∧
      s.ChildValue n = some (DTree.childValue ts) := by
  have hkind (k : NodeType) : ∀ q t, Rep s C A q t →
      decide (s.nodeType q = k) = decide (t.value.nodeType = k) := fun q t h => by
    rw [Store.nodeType_of_value (RepIn.value_eq h)]
  have hname : ∀ q t, Rep s C A q t → decide ((s.value q).bind Value.namer? = some name) =
      decide (t.value.namer? = some name) := fun q t h => by
    rw [RepIn.value_eq h, Option.some_bind]
  refine ⟨⟨_, documentElement_eq hs hb n, RepListIn.find?_rel (hkind .element) hr⟩,
    ⟨_, child_eq hs hb n name, RepListIn.find?_rel hname hr⟩, ?_⟩
  rw [childValue_eq hs hb n, DTree.childValue, DTree.firstOfType,
    rel_value_getD (RepListIn.find?_rel (hkind .text) hr)]

/-- The children of the Document at `0` in `docChildAndElement` stand for one element. -/
theorem docChildAndElement_rep :
    RepList docChildAndElement (Function.update (fun _ => []) 0 [1]) (fun _ => [])
      (Function.update (fun _ => []) 0 [1] 0) [.node (.element ⟨"", "a"⟩ "") [] []] :=
  repListIn_cons_cons.mpr ⟨repIn_node.mpr ⟨trivial, rfl, by simp, rfl, by simp⟩, trivial⟩

theorem readers_refine_docChildAndElement :
    Shape docChildAndElement (Function.update (fun _ => []) 0 [1]) (fun _ => []) ∧
    Bounded docChildAndElement (Function.update (fun _ => []) 0 [1]) (fun _ => []) ∧
    RepList docChildAndElement (Function.update (fun _ => []) 0 [1]) (fun _ => [])
      (Function.update (fun _ => []) 0 [1] 0) [.node (.element ⟨"", "a"⟩ "") [] []] ∧
    ((∃ r, docChildAndElement.DocumentElement 0 = some r ∧
        Option.Rel (Rep docChildAndElement (Function.update (fun _ => []) 0 [1]) (fun _ => []))
          r (DTree.firstOfType .element [.node (.element ⟨"", "a"⟩ "") [] []])) ∧
      (∃ r, docChildAndElement.Child 0 ⟨"", "a"⟩ = some r ∧
        Option.Rel (Rep docChildAndElement (Function.update (fun _ => []) 0 [1]) (fun _ => []))
          r (DTree.childNamed ⟨"", "a"⟩ [.node (.element ⟨"", "a"⟩ "") [] []])) ∧
      docChildAndElement.ChildValue 0 =
        some (DTree.childValue [.node (.element ⟨"", "a"⟩ "") [] []])) :=
  ⟨docChildAndElement_shape, NodeIterator.docChildAndElement_bounded, docChildAndElement_rep,
    readers_refine docChildAndElement_shape NodeIterator.docChildAndElement_bounded
      docChildAndElement_rep ⟨"", "a"⟩⟩

/-- **`SetValue` on the first Text child is what `ChildValue` reads next.** On a
well-formed store, setting the value of the first Text child of `n` succeeds, keeps the
store well formed with the same lists, leaves every other node's payload as it was, and
`ChildValue` of `n` then answers the new value. -/
theorem childValue_setValue (hs : Shape s C A) (hb : Bounded s C A) {n c : Nat}
    (hc : (C n).find? (fun c => s.nodeType c = .text) = some c) (x : String) :
    (s.SetValue c x).1 = none ∧ Shape (s.SetValue c x).2 C A ∧ Bounded (s.SetValue c x).2 C A ∧
      (∀ q, q ≠ c → (s.SetValue c x).2.value q = s.value q) ∧
      (s.SetValue c x).2.ChildValue n = some x := by
  have htext : s.nodeType c = .text := by simpa using List.find?_some hc
  rcases setValue_cases s c x with ⟨v, hv, hk, he⟩ | ⟨⟨-, hnt, -⟩, -⟩
  · rw [he]
    have hs' := hs.withValue (Function.update s.value c (some (v.setValue x)))
    have hb' : Bounded { s with value := Function.update s.value c (some (v.setValue x)) } C A :=
      ⟨hb.kids, hb.attrs, hb.fresh⟩
    have hnt := nodeType_update_of_nodeType hv (v.nodeType_setValue x)
    refine ⟨rfl, hs', hb', fun q hq => Function.update_noteq hq _ _, ?_⟩
    rw [childValue_eq hs' hb', funext hnt, hc]
    simp [Store.Value, Value.content_setValue (v.setValue_mem_methods.mpr hk)]
  · exact absurd htext hnt

/-- A Document at `0` whose one child is the Text at `1`. -/
def docWithText : Store :=
  (appendNode 1 0 ((Store.empty.push .document).push (.text "hi"))).getD Store.empty

theorem docWithText_shape :
    Shape docWithText (Function.update (fun _ => []) 0 [1]) (fun _ => []) ∧
      Bounded docWithText (Function.update (fun _ => []) 0 [1]) (fun _ => []) := by
  have hl : Linkless ((Store.empty.push .document).push (.text "hi")) :=
    (Linkless.empty.push _).push _
  obtain ⟨s', he, hsp⟩ : ∃ s', appendNode 1 0 ((Store.empty.push .document).push (.text "hi")) =
      some s' ∧ Spliced _ s' (fun _ => []) (fun _ => []) 0 1 ([] ++ [1]) :=
    appendNode_spliced hl.shape (hl.detached 1)
  have hn : docWithText.next = 2 := by simp [docWithText, he, hsp.next]; rfl
  refine ⟨by simpa [docWithText, he] using hsp.shape, fun q y hy => ?_, by simp, fun q hq => ?_⟩
  · by_cases h : q = 0 <;> simp_all [Function.update_apply]
  · simp [Function.update_apply, show q ≠ 0 by omega]

theorem childValue_setValue_docWithText :
    Shape docWithText (Function.update (fun _ => []) 0 [1]) (fun _ => []) ∧
    Bounded docWithText (Function.update (fun _ => []) 0 [1]) (fun _ => []) ∧
    (Function.update (fun _ => []) 0 [1] 0).find? (fun c => docWithText.nodeType c = .text) =
      some 1 ∧
    ((docWithText.SetValue 1 "bye").1 = none ∧
      Shape (docWithText.SetValue 1 "bye").2 (Function.update (fun _ => []) 0 [1]) (fun _ => []) ∧
      Bounded (docWithText.SetValue 1 "bye").2 (Function.update (fun _ => []) 0 [1])
        (fun _ => []) ∧
      (∀ q, q ≠ 1 → (docWithText.SetValue 1 "bye").2.value q = docWithText.value q) ∧
      (docWithText.SetValue 1 "bye").2.ChildValue 0 = some "bye") :=
  have hc : (Function.update (fun _ => []) 0 [1] 0).find?
      (fun c => docWithText.nodeType c = .text) = some 1 := by decide
  ⟨docWithText_shape.1, docWithText_shape.2, hc,
    childValue_setValue docWithText_shape.1 docWithText_shape.2 hc "bye"⟩

/-! ### The named iterator -/

end Readers

/-! ## The root of a cursor -/

section Root

variable {s : Store}

theorem parentChain_ne_nil {fuel p : Nat} {l : List Nat}
    (h : s.parentChain fuel (some p) = some l) : l ≠ [] := by
  cases fuel with
  | zero => nomatch h
  | succ fuel =>
    obtain ⟨l', -, rfl⟩ := Store.parentChain_some h
    exact List.cons_ne_nil _ _

/-- The loop of `Root()` over a chain that ends answers the chain's last node, and the
members of the chain without a parent are that node only. -/
theorem rootLoop_of_parentChain : ∀ {fuel : Nat} {h : Option Nat} {l : List Nat},
    s.parentChain fuel h = some l →
      s.rootLoop fuel h = some l.getLast? ∧ ∀ x ∈ l, s.parent x = none ↔ l.getLast? = some x
  | fuel, none, l, hl => by
    obtain rfl : l = [] := by simpa using hl.symm
    cases fuel <;> simp [Store.rootLoop]
  | 0, some _, _, hl => nomatch hl
  | fuel + 1, some p, _, hl => by
    obtain ⟨l', hl', rfl⟩ := Store.parentChain_some hl
    obtain ⟨ih, hlast⟩ := rootLoop_of_parentChain hl'
    cases hp : s.parent p with
    | none =>
      obtain rfl : l' = [] := by simpa [hp] using hl'.symm
      simp [Store.rootLoop, hp]
    | some q =>
      rw [hp] at hl' ih
      obtain ⟨t, ht⟩ := List.getLast?_isSome.mpr (parentChain_ne_nil hl') |> Option.isSome_iff_exists.mp
      have hcons : (p :: l').getLast? = some t := by simp [List.getLast?_cons, ht]
      refine ⟨by simp [Store.rootLoop, hp, ih, hcons, ht], fun x hx => ?_⟩
      rw [hcons]
      rcases List.mem_cons.mp hx with rfl | hx
      · -- `x` has a parent, so it is not the last node, which has none
        have ht' : s.parent t = none := (hlast t (List.mem_of_getLast?_eq_some ht)).mpr ht
        have hxt : t ≠ x := by rintro rfl; rw [hp] at ht'; cases ht'
        simp [hp, hxt]
      · rw [hlast x hx, ht]

/-- **`Root()` answers the top of the cursor's chain.** On an acyclic store whose parent
links name allocated nodes, the loop from an allocated cursor returns, and answers the node
itself or an ancestor of it with no parent; there is one such node only. -/
theorem root_top (hac : Acyclic s) (hpb : ParentsBelow s) (b : Builder) (hb : b.node < s.next) :
    ∃ r, b.Root s = some (some r) ∧ Relation.ReflTransGen (ParentOf s) r b.node ∧
      s.parent r = none ∧
      ∀ r', Relation.ReflTransGen (ParentOf s) r' b.node → s.parent r' = none → r' = r := by
  obtain ⟨l, hl⟩ := parentChain_isSome hac hpb hb
  have hmem : ∀ x, x ∈ l ↔ Relation.ReflTransGen (ParentOf s) x b.node := fun x => by
    simp [mem_parentChain hl x]
  obtain ⟨hroot, hlast⟩ := rootLoop_of_parentChain hl
  obtain ⟨r, hr⟩ := Option.isSome_iff_exists.mp
    (List.getLast?_isSome.mpr (List.ne_nil_of_mem ((hmem b.node).mpr .refl)))
  have hrl : r ∈ l := List.mem_of_getLast?_eq_some hr
  refine ⟨r, by rw [Builder.Root, hroot, hr], (hmem r).mp hrl, (hlast r hrl).mpr hr,
    fun r' hr' hp' => ?_⟩
  exact Option.some_injective _ (((hlast r' ((hmem r').mpr hr')).mp hp').symm.trans hr)

/-- From the element `2` of `nestedElements` the root is the Document, two links up. -/
theorem root_top_nestedElements :
    Acyclic nestedElements ∧ ParentsBelow nestedElements ∧
    (NewBuilder 2 []).node < nestedElements.next ∧
    (∃ r, (NewBuilder 2 []).Root nestedElements = some (some r) ∧
      Relation.ReflTransGen (ParentOf nestedElements) r (NewBuilder 2 []).node ∧
      nestedElements.parent r = none ∧
      ∀ r', Relation.ReflTransGen (ParentOf nestedElements) r' (NewBuilder 2 []).node →
        nestedElements.parent r' = none → r' = r) ∧
    (NewBuilder 2 []).Root nestedElements = some (some 0) :=
  ⟨nestedElements_acyclic, nestedElements_parentsBelow, by decide,
    root_top nestedElements_acyclic nestedElements_parentsBelow (NewBuilder 2 []) (by decide), rfl⟩

end Root

/-! ## The host of a fragment -/

/-- **`SetHost` makes no check.** It answers nil, `Host` then answers the new host when it
is an element and nil otherwise, and on an acyclic store the parent relation stays acyclic
exactly when the host is neither the fragment nor one of its descendants: nothing stops a
fragment from being hosted below itself. -/
theorem setHost_acyclic_iff {s : Store} (hac : Acyclic s) (f h : Nat) :
    (s.SetHost f h).1 = none ∧
      (s.SetHost f h).2.Host f = (if s.nodeType h = .element then some h else none) ∧
      (Acyclic (s.SetHost f h).2 ↔ ¬ Relation.ReflTransGen (ParentOf s) f h) := by
  have hnt : ∀ q, (s.setParent f (some h)).nodeType q = s.nodeType q := fun _ => rfl
  refine ⟨rfl, ?_, acyclic_setParent_iff hac (fun x hx => by simp [Store.SetHost, hx])
    (by simp [Store.SetHost])⟩
  simp only [Store.SetHost, Store.Host, hnt, Store.setParent_parent, Function.update_same,
    Option.filter_some, decide_eq_true_eq]

/-- The element `1` of `nestedElements` hosted by its own child `2`: `SetHost` answers nil
and `Host` the child, and the parent relation is no longer acyclic. -/
theorem setHost_acyclic_iff_nestedElements :
    Acyclic nestedElements ∧
    ((nestedElements.SetHost 1 2).1 = none ∧
      (nestedElements.SetHost 1 2).2.Host 1 =
        (if nestedElements.nodeType 2 = .element then some 2 else none) ∧
      (Acyclic (nestedElements.SetHost 1 2).2 ↔
        ¬ Relation.ReflTransGen (ParentOf nestedElements) 1 2)) ∧
    (nestedElements.SetHost 1 2).2.Host 1 = some 2 ∧ ¬ Acyclic (nestedElements.SetHost 1 2).2 :=
  have h := setHost_acyclic_iff nestedElements_acyclic 1 2
  ⟨nestedElements_acyclic, h, h.2.1.trans rfl,
    fun hac => h.2.2.mp hac (.single (show nestedElements.parent 2 = some 1 from rfl))⟩

end Opr8.Dom
