import Mathlib.Order.WellFoundedSet
import Opr8.Dom.Content
import Opr8.Dom.Kinds
import Opr8.Dom.Text

/-!
# Opr8 — the store under the calls of the API

The store changes only through the calls of the package's API: the node factories
(`NewDocument`, `CreateElement`, `CreateText`, `CreateComment`, `CreateProcessingInstruction`,
`CreateXMLDeclaration`, `CreateAttribute`, `CreateDocumentFragment`), the four child
insertions, the four attribute insertions, `SetValue`, the `CharacterData` edits of a Text or
a Comment (`SetData`, `AppendData`, `InsertData`, `DeleteData`, `ReplaceData`), and a
fragment's `SetHost`.
`Mutation` names them with their receiver and arguments, `Store.call` makes one, and
`Store.calls` makes a list of them in turn, each on the store the one before left. An
error does not stop a run: it is the caller's to read. A panic does.

No insertion looks at where its child already is, and none calls `allowMove`, the check
the source keeps for that. A store stays coherent (`Coherent`: its links encode child and
attribute lists, parent links are acyclic, nodes exist exactly below the frontier, and a
parent link is a child-list membership or a fragment's host) for a caller that keeps to
what `Allowed` asks: a node it inserts as a child passes `allowMove`, has no sibling links,
and is neither an attribute nor a fragment, which the documentation keeps off child lists;
a child insertion is anchored at no fragment; `InsertChildBefore` is anchored at nothing,
since anchored it misparents (`insertChildBefore_misparents`); an attribute insertion is
anchored at an attribute; a fragment's host is an element, as the Go signatures of
`CreateDocumentFragment` and `SetHost` have it; and an edit does not panic, which asks of
the caller the bounds the edits check too little (`charData_negative_offset`).

Main results:

* `call_error_unchanged` — a call that answers an error leaves the store as it was.
* `Sound.calls` — a run that keeps to `Allowed` from a coherent store never panics and
  ends in a coherent store; `calls_sound` from the empty store.
* `Coherent.rep` — every node of a coherent store stands for a finite tree: its payload,
  its attributes, and the trees of its children, in list order.
* `insertChildAfter_fragment` — anchored at a fragment hosted by the node, an
  `InsertChildAfter` that the kinds admit either panics, when the node has no children,
  or answers nil and leaves a store whose lists no abstraction fits.
* `calls_frame` — whatever the store and the calls, a run frees no node and changes no
  node's kind, and a payload changes only by the `SetValue` calls and the edits on its own
  node, each as the payload's own `setValue` or `editData`.
-/

namespace Opr8.Dom

open Xml

/-! ## The calls -/

/-- `CreateProcessingInstruction(pi)`: a Declaration for the target `xml`, a processing
instruction otherwise. -/
def CreateProcessingInstruction (pi : ProcInst) (s : Store) : Option (Nat × Store) :=
  if pi.target = "xml" then newDeclaration pi s else some (newProcInst pi s)

/-- The edit `e` on a payload through its `CharacterData` handle, `asText()` on a Text and
`asComment()` on a Comment: the error it answers and the payload it leaves. The type
assertion of the handle panics on any other payload. -/
def Value.editData : Value → CharEdit → Option (Option Error × Value)
  | .text d, e => (editString d e).map fun r => (r.1, .text r.2)
  | .comment d, e => (editString d e).map fun r => (r.1, .comment r.2)
  | _, _ => none

/-- The edit `e` on the payload of `n`, written back in place. -/
def Store.editData (s : Store) (n : Nat) (e : CharEdit) : Option (Option Error × Store) :=
  (s.value n).bind fun v => (v.editData e).map fun r =>
    (r.1, { s with value := Function.update s.value n (some r.2) })

/-- An edit keeps the kind of its payload. -/
theorem Value.nodeType_of_editData {v : Value} {e : CharEdit} {r : Option Error × Value}
    (h : v.editData e = some r) : r.2.nodeType = v.nodeType := by
  cases v <;> simp only [Value.editData, Option.map_eq_some', reduceCtorEq] at h <;>
    obtain ⟨_, -, rfl⟩ := h <;> rfl

/-- The payload an edit leaves, read back as `writeValue` does, has the kind it had. -/
@[simp] theorem Value.nodeType_editData (v : Value) (e : CharEdit) :
    (((v.editData e).map Prod.snd).getD v).nodeType = v.nodeType := by
  cases h : v.editData e with
  | none => rfl
  | some r => exact Value.nodeType_of_editData h

/-- An edit that answers an error leaves the payload as it was. -/
theorem Value.editData_error {v v' : Value} {e : CharEdit} {err : Error}
    (h : v.editData e = some (some err, v')) : v' = v := by
  cases v <;> simp only [Value.editData, Option.map_eq_some', reduceCtorEq] at h <;>
    obtain ⟨⟨_, _⟩, hd, h⟩ := h <;> cases h <;> rw [editString_error hd]

theorem Store.editData_eq_some {s : Store} {n : Nat} {e : CharEdit} {r : Option Error × Store}
    (h : s.editData n e = some r) : ∃ v, s.value n = some v ∧ ∃ w, v.editData e = some (r.1, w) ∧
      r.2 = { s with value := Function.update s.value n (some w) } := by
  obtain ⟨v, hv, h⟩ := Option.bind_eq_some.mp h
  obtain ⟨⟨err, w⟩, hw, rfl⟩ := Option.map_eq_some'.mp h
  exact ⟨v, hv, w, hw, rfl⟩

/-- The calls of the API that change the store, with their receiver and arguments. -/
inductive Mutation where
  | newDocument
  | createElement (se : StartElement)
  | createText (cd : String)
  | createComment (c : String)
  | createProcessingInstruction (pi : ProcInst)
  | createXMLDeclaration (encoding : String)
  | createAttribute (a : Attr)
  | createDocumentFragment (host : Nat)
  | appendChild (n child : Nat)
  | prependChild (n child : Nat)
  | insertChildAfter (n child : Nat) (after : Option Nat)
  | insertChildBefore (n child : Nat) (before : Option Nat)
  | appendAttribute (n : Nat) (a : Attr)
  | prependAttribute (n : Nat) (a : Attr)
  | insertAttributeAfter (n : Nat) (a : Attr) (after : Option Nat)
  | insertAttributeBefore (n : Nat) (a : Attr) (before : Option Nat)
  | setValue (n : Nat) (value : String)
  | editData (n : Nat) (e : CharEdit)
  | setHost (n host : Nat)
deriving DecidableEq, Repr

/-- One call: its error, nil on success, and the store it leaves; `none` is a panic. A
factory's node is the old frontier. -/
def Store.call (s : Store) : Mutation → Option (Option Error × Store)
  | .newDocument => some (none, (newDocument s).2)
  | .createElement se => (newStartElement se s).map fun r => (none, r.2)
  | .createText cd => some (none, (newText cd s).2)
  | .createComment c => some (none, (newComment c s).2)
  | .createProcessingInstruction pi =>
    (CreateProcessingInstruction pi s).map fun r => (none, r.2)
  | .createXMLDeclaration encoding => (CreateXMLDeclaration encoding s).map fun r => (none, r.2)
  | .createAttribute a => some (none, (CreateAttribute a s).2)
  | .createDocumentFragment host => some (none, (CreateDocumentFragment host s).2)
  | .appendChild n c => AppendChild n c s
  | .prependChild n c => PrependChild n c s
  | .insertChildAfter n c after => InsertChildAfter n c after s
  | .insertChildBefore n c before => InsertChildBefore n c before s
  | .appendAttribute n a => AppendAttribute n a s
  | .prependAttribute n a => PrependAttribute n a s
  | .insertAttributeAfter n a after => InsertAttributeAfter n a after s
  | .insertAttributeBefore n a before => InsertAttributeBefore n a before s
  | .setValue n value => some (s.SetValue n value)
  | .editData n e => s.editData n e
  | .setHost n host => some (s.SetHost n host)

/-- The calls in turn, each on the store the one before left; a panic ends the run. -/
def Store.calls (s : Store) : List Mutation → Option Store
  | [] => some s
  | m :: ms => (s.call m).bind fun r => r.2.calls ms

/-! ## What a caller keeps to -/

/-- `c` may be linked under `n`: `allowMove` answers true, `c` has no sibling links, and
it is neither an attribute nor a fragment. -/
def Insertable (s : Store) (n c : Nat) : Prop :=
  allowMove n c s = some true ∧ s.prevSib c = none ∧ s.nextSib c = none ∧
    s.nodeType c ≠ .attribute ∧ s.nodeType c ≠ .documentFragment

instance (s : Store) (n c : Nat) : Decidable (Insertable s n c) :=
  inferInstanceAs (Decidable (_ ∧ _))

/-- What the caller of each call keeps to. An edit is not to panic: the node is a Text or a
Comment, the offsets keep to the bounds the edits check too little, and what it leaves is
UTF-8 text. -/
def Allowed (s : Store) : Mutation → Prop
  | .newDocument | .createElement _ | .createText _ | .createComment _
  | .createProcessingInstruction _ | .createXMLDeclaration _ | .createAttribute _
  | .appendAttribute .. | .prependAttribute .. | .setValue .. => True
  | .createDocumentFragment host => s.nodeType host = .element
  | .appendChild n c | .prependChild n c | .insertChildAfter n c none
  | .insertChildBefore n c none => Insertable s n c
  | .insertChildAfter n c (some r) => Insertable s n c ∧ s.nodeType r ≠ .documentFragment
  | .insertChildBefore _ _ (some _) => False
  | .insertAttributeAfter _ _ after | .insertAttributeBefore _ _ after =>
    ∀ r ∈ after, s.nodeType r = .attribute
  | .editData n e => (s.editData n e).isSome
  | .setHost n host => s.nodeType n = .documentFragment ∧ s.nodeType host = .element

instance (s : Store) : ∀ m, Decidable (Allowed s m)
  | .newDocument | .createElement _ | .createText _ | .createComment _
  | .createProcessingInstruction _ | .createXMLDeclaration _ | .createAttribute _
  | .appendAttribute .. | .prependAttribute .. | .setValue .. => isTrue trivial
  | .createDocumentFragment host => inferInstanceAs (Decidable (s.nodeType host = .element))
  | .appendChild n c | .prependChild n c | .insertChildAfter n c none
  | .insertChildBefore n c none => inferInstanceAs (Decidable (Insertable s n c))
  | .insertChildAfter _ _ (some _) => inferInstanceAs (Decidable (_ ∧ _))
  | .insertChildBefore _ _ (some _) => isFalse id
  | .insertAttributeAfter _ _ none | .insertAttributeBefore _ _ none =>
    isTrue fun _ h => nomatch h
  | .insertAttributeAfter _ _ (some r) | .insertAttributeBefore _ _ (some r) =>
    decidable_of_iff (s.nodeType r = .attribute) ⟨fun h _ hr => Option.some.inj hr ▸ h,
      fun h => h r rfl⟩
  | .editData _ _ => inferInstanceAs (Decidable (_ = true))
  | .setHost _ _ => inferInstanceAs (Decidable (_ ∧ _))

/-- Every call of the run is allowed on the store it is made on. -/
def Obeys : Store → List Mutation → Prop
  | _, [] => True
  | s, m :: ms => Allowed s m ∧ ∀ r ∈ s.call m, Obeys r.2 ms

instance Obeys.instDecidable : ∀ s ms, Decidable (Obeys s ms)
  | _, [] => isTrue trivial
  | s, m :: ms =>
    haveI : DecidablePred fun r : Option Error × Store => Obeys r.2 ms :=
      fun r => Obeys.instDecidable r.2 ms
    inferInstanceAs (Decidable (Allowed s m ∧ ∀ r ∈ s.call m, Obeys r.2 ms))

/-! ## Nodes on no list -/

/-- Every pointer a segment ending at a node visits has a link. -/
theorem Seg.link_isSome {f : Nat → Option Nat} {h : Option Nat} {e : Nat} :
    ∀ {l : List Nat}, Seg f h l (some e) → ∀ p ∈ l, (f p).isSome
  | [], _, _, hp => nomatch hp
  | [q], hs, p, hp => by
    obtain ⟨-, hq⟩ := hs
    rw [List.mem_singleton.mp hp, show f q = some e from hq]
    rfl
  | q :: r :: l, hs, p, hp => by
    obtain ⟨-, hq, hs⟩ := hs
    rcases List.mem_cons.mp hp with rfl | hp
    · rw [hq]
      rfl
    · exact Seg.link_isSome (show Seg f (f q) (r :: l) (some e) from ⟨hq, hs⟩) p hp

/-- Every member of a sibling list has a backward link: a node whose `prevSib` is nil is on
no list. -/
theorem SibList.prevSib_isSome {s : Store} {hd : Option Nat} {l : List Nat} (hl : SibList s hd l)
    {x : Nat} (hx : x ∈ l) : (s.prevSib x).isSome := by
  obtain ⟨t, ht⟩ : ∃ t, l.getLast? = some t :=
    Option.isSome_iff_exists.mp (List.getLast?_isSome.mpr (List.ne_nil_of_mem hx))
  have hp := hl.prev
  rw [ht] at hp
  exact Seg.link_isSome hp x (List.mem_reverse.mpr hx)

/-- The assertion `it.value.(*attribute)` passes exactly on an attribute node. -/
theorem attrOf_isSome_iff (s : Store) (q : Nat) :
    (s.attrOf q).isSome ↔ s.nodeType q = .attribute := by
  cases hv : s.value q with
  | none => simp [Store.attrOf, Store.nodeType, hv]
  | some v => cases v <;> simp [Store.attrOf, Store.nodeType, hv, Value.nodeType]

theorem attrsTyped_iff {s : Store} {A : Nat → List Nat} :
    AttrsTyped s A ↔ ∀ m, ∀ q ∈ A m, s.nodeType q = .attribute := by
  simp only [AttrsTyped, attrOf_isSome_iff]

/-- A store with the same parent links has the same ancestors. -/
theorem Acyclic.of_parent_eq {s s' : Store} (hac : Acyclic s) (h : s'.parent = s.parent) :
    Acyclic s' := by
  have hpo : ParentOf s' = ParentOf s := by
    funext a d
    simp only [ParentOf, h]
  unfold Acyclic Ancestor
  rw [hpo]
  exact hac

/-! ## The invariant -/

/-- What every allowed call keeps, for the lists `C` and `A` the links encode: the lists
are well formed and hold allocated nodes, attribute lists hold attributes, the parent
relation is acyclic, a node has a payload exactly below the frontier, a parent link is a
child-list membership or a fragment's element host, and child lists hold neither
attributes nor fragments and hang under Documents and Elements only. -/
structure Coherent (s : Store) (C A : Nat → List Nat) : Prop where
  shape : Shape s C A
  bounded : Bounded s C A
  typed : AttrsTyped s A
  acyclic : Acyclic s
  value_isSome : ∀ p, (s.value p).isSome ↔ p < s.next
  parent_mem : ∀ x p, s.parent x = some p →
    x ∈ C p ∨ s.nodeType x = .documentFragment ∧ s.nodeType p = .element
  kids_kind : ∀ p, ∀ x ∈ C p,
    s.nodeType x ≠ .attribute ∧ s.nodeType x ≠ .documentFragment
  parent_kind : ∀ p, ∀ x ∈ C p, s.nodeType p = .element ∨ s.nodeType p = .document

/-- Some lists make the store coherent. -/
def Sound (s : Store) : Prop := ∃ C A, Coherent s C A

namespace Coherent

variable {s : Store} {C A : Nat → List Nat} (h : Coherent s C A)
include h

theorem lt_of_nodeType {p : Nat} (hp : s.nodeType p ≠ .null) : p < s.next := by
  refine (h.value_isSome p).mp ?_
  cases hv : s.value p with
  | none => simp [Store.nodeType, hv] at hp
  | some _ => rfl

/-- A parent is a Document or an Element. -/
theorem parent_kind_of_parent {x p : Nat} (hx : s.parent x = some p) :
    s.nodeType p = .element ∨ s.nodeType p = .document :=
  (h.parent_mem x p hx).elim (h.parent_kind p x) fun hf => .inl hf.2

theorem parentsBelow : ParentsBelow s := fun x p hx =>
  h.lt_of_nodeType (by rcases h.parent_kind_of_parent hx with hk | hk <;> simp [hk])

theorem lt_of_parent {x p : Nat} (hx : s.parent x = some p) : x < s.next :=
  (h.parent_mem x p hx).elim (h.bounded.kids p x) fun hf => h.lt_of_nodeType (by simp [hf.1])

theorem parent_of_le {x : Nat} (hx : s.next ≤ x) : s.parent x = none :=
  Option.eq_none_iff_forall_not_mem.mpr fun _ hp => absurd (h.lt_of_parent hp) (by omega)

/-- An attribute has no parent. -/
theorem parent_of_attribute {r : Nat} (hr : s.nodeType r = .attribute) : s.parent r = none :=
  Option.eq_none_iff_forall_not_mem.mpr fun p hp =>
    (h.parent_mem r p hp).elim (fun hm => (h.kids_kind p r hm).1 hr)
      fun hf => absurd (hf.1.symm.trans hr) (by decide)

/-- A node other than a fragment is on the child list of its parent. -/
theorem mem_of_parent {r n : Nat} (hr : s.parent r = some n)
    (hf : s.nodeType r ≠ .documentFragment) : r ∈ C n :=
  (h.parent_mem r n hr).resolve_right fun h' => hf h'.1

/-- A node with no sibling links is on no list. -/
theorem detached {c : Nat} (hp : s.prevSib c = none) (hn : s.nextSib c = none) :
    Detached s C A c :=
  ⟨hn, fun p hc => by simpa [hp] using (h.shape.kids p).prevSib_isSome hc,
    fun p hc => by simpa [hp] using (h.shape.attrs p).prevSib_isSome hc⟩

/-- A fragment is no node's parent, so it is above no node. -/
theorem not_reach_of_fragment {f x : Nat} (hf : s.nodeType f = .documentFragment)
    (hx : s.nodeType x ≠ .documentFragment) : ¬ Relation.ReflTransGen (ParentOf s) f x := by
  intro hr
  rcases hr.cases_head with rfl | ⟨y, hfy, -⟩
  · exact hx hf
  · rcases h.parent_kind_of_parent hfy with hk | hk <;> simp [hk] at hf

/-- **The frame of a call that moves no parent link.** A store with the same parent links,
the same kinds below the old frontier, and payloads exactly below its own frontier is
coherent for any lists it is shaped by, with the same child lists. -/
theorem of_frame {s' : Store} {A' : Nat → List Nat} (hs : Shape s' C A') (hb : Bounded s' C A')
    (ht : AttrsTyped s' A') (hpar : s'.parent = s.parent)
    (hkind : ∀ q < s.next, s'.nodeType q = s.nodeType q)
    (hval : ∀ p, (s'.value p).isSome ↔ p < s'.next) : Coherent s' C A' where
  shape := hs
  bounded := hb
  typed := ht
  acyclic := h.acyclic.of_parent_eq hpar
  value_isSome := hval
  parent_mem x p hx := by
    rw [hpar] at hx
    rw [hkind x (h.lt_of_parent hx), hkind p (h.parentsBelow x p hx)]
    exact h.parent_mem x p hx
  kids_kind p x hx := by
    rw [hkind x (h.bounded.kids p x hx)]
    exact h.kids_kind p x hx
  parent_kind p x hx := by
    rw [hkind p (h.parentsBelow x p (h.shape.parent p x hx))]
    exact h.parent_kind p x hx

/-- `&node{value: v}` keeps the store coherent. -/
theorem push (v : Value) : Coherent (s.push v) C A := by
  have hk : ∀ q < s.next, (s.push v).nodeType q = s.nodeType q := fun q hq =>
    nodeType_push_of_lt hq v
  refine h.of_frame (h.shape.push h.bounded v) (h.bounded.push v) ?_
    (Function.update_eq_self_iff.mpr (h.parent_of_le le_rfl).symm) hk fun p => ?_
  · refine attrsTyped_iff.mpr fun m q hq => ?_
    rw [hk q (h.bounded.attrs m q hq)]
    exact attrsTyped_iff.mp h.typed m q hq
  · by_cases hp : p = s.next
    · simp [hp]
    · simp only [Store.push_value, Store.push_next, Function.update_noteq hp, h.value_isSome]
      omega

/-- A splice of the detached attribute node `a` into the attribute list of an allocated
`n` keeps the store coherent, with that list replaced. -/
theorem relinkAttr {s' : Store} {a n : Nat} (hd : Detached s C A a)
    (ha : s.nodeType a = .attribute) (hn : n < s.next) (ha' : a < s.next) {l' : List Nat}
    (hl' : ∀ x, x ∈ l' ↔ x ∈ A n ∨ x = a) (hr : Relinked s s' .attributes n a (A n) l') :
    Coherent s' C (Function.update A n l') := by
  have hv : s'.value = s.value := funext hr.value
  have hk : ∀ q, s'.nodeType q = s.nodeType q := fun q => by simp only [Store.nodeType, hv]
  refine h.of_frame (h.shape.relinkAttr hd hl' hr) ?_ ?_ (funext hr.parent) (fun q _ => hk q)
    (by simpa [hv, hr.next] using h.value_isSome)
  · exact (h.bounded.update_attrs hn fun q hq =>
      ((hl' q).mp hq).elim (h.bounded.attrs n q) (· ▸ ha')).of_le hr.next.symm.le
  · refine attrsTyped_iff.mpr fun m q hq => ?_
    rw [hk]
    by_cases hm : m = n
    · subst hm
      rcases (hl' q).mp (by simpa using hq) with hq | rfl
      · exact attrsTyped_iff.mp h.typed m q hq
      · exact ha
    · exact attrsTyped_iff.mp h.typed m q (by simpa [Function.update_noteq hm] using hq)

/-- One round of `appendAttrs`: a new attribute node at the end of `n`'s list. -/
theorem appendAttr {n : Nat} (hn : n < s.next) (at_ : Attr) :
    ∃ s', appendAttribute s.next n (s.push (.attribute at_)) = some s' ∧
      Coherent s' C (Function.update A n (A n ++ [s.next])) := by
  have h₁ := h.push (.attribute at_)
  have hd := h.bounded.detached_push (.attribute at_)
  obtain ⟨s', he, hr⟩ := appendSibling_relinked
    (show SibList _ ((s.push (.attribute at_)).head .attributes n) (A n) from h₁.shape.attrs n)
    (hd.attrs n) hd.nextSib
  exact ⟨s', he, h₁.relinkAttr hd (by simp [Store.nodeType, Value.nodeType]) (by simp; omega)
    (by simp) (by simp) hr⟩

/-- `prependAttribute` of a new attribute node. -/
theorem prependAttr {n : Nat} (hn : n < s.next) (at_ : Attr) :
    Coherent (prependAttribute s.next n (s.push (.attribute at_))) C
      (Function.update A n (s.next :: A n)) := by
  have h₁ := h.push (.attribute at_)
  have hd := h.bounded.detached_push (.attribute at_)
  exact h₁.relinkAttr hd (by simp [Store.nodeType, Value.nodeType]) (by simp; omega) (by simp)
    (by simp [or_comm]) (prependSibling_relinked
      (show SibList _ ((s.push (.attribute at_)).head .attributes n) (A n) from h₁.shape.attrs n)
      (hd.attrs n))

omit h in
/-- The loop of `newStartElement` and `newDeclaration` returns a coherent store. -/
theorem appendAttrs (n : Nat) : ∀ (attrs : List Attr) {s : Store} {A : Nat → List Nat},
    Coherent s C A → n < s.next →
      ∃ s' A', Dom.appendAttrs n attrs s = some s' ∧ Coherent s' C A'
  | [], s, A, h, _ => ⟨s, A, rfl, h⟩
  | a :: as, s, A, h, hn => by
    obtain ⟨s₁, h₁, hc₁⟩ := h.appendAttr hn a
    have hnext : s₁.next = s.next + 1 := appendSibling_next h₁
    obtain ⟨s', A', h', hc'⟩ := appendAttrs n as hc₁ (by omega)
    exact ⟨s', A', by simp [Dom.appendAttrs, newAttribute, show appendAttribute s.next n
      (s.push (.attribute a)) = some s₁ from h₁, h'], hc'⟩

/-- Setting a fragment's parent link to an element. -/
theorem setHost {f host : Nat} (hf : s.nodeType f = .documentFragment)
    (hh : s.nodeType host = .element) : Coherent (s.setParent f (some host)) C A where
  shape := h.shape.setParent (fun p hm => (h.kids_kind p f hm).2 hf) _
  bounded := h.bounded.of_le le_rfl
  typed := h.typed
  acyclic := h.acyclic.setParent (fun x hx => by simp [Function.update_noteq hx])
    (show (s.setParent f (some host)).parent f = some host by simp)
    (h.not_reach_of_fragment hf (by simp [hh]))
  value_isSome := h.value_isSome
  parent_mem x p hx := by
    by_cases hxf : x = f
    · subst hxf
      obtain rfl : host = p := by simpa using hx
      exact .inr ⟨hf, hh⟩
    · exact h.parent_mem x p (by simpa [Function.update_noteq hxf] using hx)
  kids_kind := h.kids_kind
  parent_kind := h.parent_kind

/-- A payload write that keeps the kind of its node. -/
theorem withValue {n : Nat} {v w : Value} (hv : s.value n = some v)
    (hw : w.nodeType = v.nodeType) :
    Coherent { s with value := Function.update s.value n (some w) } C A := by
  have hk := nodeType_update_of_nodeType hv hw
  have hn : n < s.next := (h.value_isSome n).mp (by simp [hv])
  refine h.of_frame (Shape.withValue h.shape _) (h.bounded.of_le le_rfl) ?_ rfl (fun q _ => hk q)
    fun p => ?_
  · exact attrsTyped_iff.mpr fun m q hq => (hk q).trans (attrsTyped_iff.mp h.typed m q hq)
  · by_cases hp : p = n
    · subst hp
      simpa using hn
    · simpa [Function.update_noteq hp] using h.value_isSome p

theorem setValue (n : Nat) (x : String) : Coherent (s.SetValue n x).2 C A := by
  rcases setValue_cases s n x with ⟨v, hv, -, he⟩ | ⟨-, he⟩ <;> rw [he]
  · exact h.withValue hv (Value.nodeType_setValue v x)
  · exact h

/-- A splice of `c` into the child list of a Document or an Element `n`, where `c` is
neither an attribute nor a fragment and is not above `n`. -/
theorem spliced {s' : Store} {n c : Nat} {l' : List Nat} (hsp : Spliced s s' C A n c l')
    (hl' : ∀ x, x ∈ l' ↔ x ∈ C n ∨ x = c) (hc : c < s.next)
    (hcn : ¬ Relation.ReflTransGen (ParentOf s) c n)
    (hkc : s.nodeType c ≠ .attribute ∧ s.nodeType c ≠ .documentFragment)
    (hkn : s.nodeType n = .element ∨ s.nodeType n = .document) :
    Coherent s' (Function.update C n l') A := by
  have hk : ∀ q, s'.nodeType q = s.nodeType q := fun q => by
    simp only [Store.nodeType, hsp.value]
  have hn : n < s.next := h.lt_of_nodeType (by rcases hkn with hk | hk <;> simp [hk])
  -- the new lists: `c` joins `n`'s
  have hmem : ∀ p x, x ∈ Function.update C n l' p ↔ x ∈ C p ∨ p = n ∧ x = c := by
    intro p x
    by_cases hp : p = n
    · subst hp
      simp [hl']
    · simp [Function.update_noteq hp, hp]
  refine ⟨hsp.shape, ?_, ?_, h.acyclic.setParent hsp.parent_other hsp.parent_c hcn,
    by simpa [hsp.value, hsp.next] using h.value_isSome, fun x p hx => ?_, fun p x hx => ?_,
    fun p x hx => ?_⟩
  · exact (h.bounded.update_kids hn fun q hq =>
      ((hl' q).mp hq).elim (h.bounded.kids n q) (· ▸ hc)).of_le hsp.next.symm.le
  · exact attrsTyped_iff.mpr fun m q hq => (hk q).trans (attrsTyped_iff.mp h.typed m q hq)
  · rw [hk, hk, hmem]
    by_cases hxc : x = c
    · subst hxc
      obtain rfl : n = p := by simpa [hsp.parent_c] using hx
      exact .inl (.inr ⟨rfl, rfl⟩)
    · exact (h.parent_mem x p (by rwa [hsp.parent_other x hxc] at hx)).imp_left .inl
  · rw [hk]
    rcases (hmem p x).mp hx with hx | ⟨-, rfl⟩
    · exact h.kids_kind p x hx
    · exact hkc
  · rw [hk]
    rcases (hmem p x).mp hx with hx | ⟨rfl, -⟩
    · exact h.parent_kind p x hx
    · exact hkn

/-- What `Insertable` gives an insertion: the kinds pass, `c` is a detached allocated node
not above `n`, and `n` is a Document or an Element. -/
theorem insertable {n c : Nat} (hi : Insertable s n c) :
    allowInsertChildErr (s.nodeType n) (s.nodeType c) = none ∧ Detached s C A c ∧
      c < s.next ∧ ¬ Relation.ReflTransGen (ParentOf s) c n ∧
      (s.nodeType n = .element ∨ s.nodeType n = .document) := by
  obtain ⟨hm, hp, hns, -⟩ := hi
  have hk : allowInsertChild (s.nodeType n) (s.nodeType c) = true := by
    by_contra hk
    simp [allowMove, hk] at hm
  obtain ⟨hkn, hc, -⟩ := (allowInsertChild_iff _ _).mp hk
  have hn : n < s.next := h.lt_of_nodeType (by rcases hkn with hk | hk <;> simp [hk])
  exact ⟨allowInsertChildErr_eq_none.mpr hk, h.detached hp hns, h.lt_of_nodeType hc,
    ((allowMove_eq_true_iff h.acyclic h.parentsBelow hn c).mp hm).2, hkn.symm⟩

/-- A splice of an insertable `c` under `n`. -/
theorem insert {s' : Store} {n c : Nat} {l' : List Nat} (hi : Insertable s n c)
    (hsp : Spliced s s' C A n c l') (hl' : ∀ x, x ∈ l' ↔ x ∈ C n ∨ x = c) :
    Coherent s' (Function.update C n l') A := by
  obtain ⟨-, -, hc, hcn, hkn⟩ := h.insertable hi
  exact h.spliced hsp hl' hc hcn ⟨hi.2.2.2.1, hi.2.2.2.2⟩ hkn

/-- A node that may hold attributes is allocated. -/
theorem lt_of_allowInsertAttribute {n : Nat} (hk : allowInsertAttribute (s.nodeType n) = true) :
    n < s.next :=
  h.lt_of_nodeType fun h0 => by simp [h0, allowInsertAttribute] at hk

theorem appendAttribute_sound (n : Nat) (a : Attr) :
    ∃ r, AppendAttribute n a s = some r ∧ Sound r.2 := by
  cases he : allowInsertAttributeErr (s.nodeType n) with
  | some err => exact ⟨(some err, s), by simp [AppendAttribute, he], _, _, h⟩
  | none =>
    have hk : allowInsertAttribute (s.nodeType n) = true := by
      simpa [allowInsertAttributeErr] using he
    obtain ⟨s', A', he', hc⟩ := Coherent.appendAttrs n [a] h (h.lt_of_allowInsertAttribute hk)
    exact ⟨(none, s'), by rw [appendAttribute_eq_appendAttrs hk, he']; rfl, _, _, hc⟩

theorem prependAttribute_sound (n : Nat) (a : Attr) :
    ∃ r, PrependAttribute n a s = some r ∧ Sound r.2 := by
  cases he : allowInsertAttributeErr (s.nodeType n) with
  | some err => exact ⟨(some err, s), by simp [PrependAttribute, he], _, _, h⟩
  | none =>
    have hk : allowInsertAttribute (s.nodeType n) = true := by
      simpa [allowInsertAttributeErr] using he
    exact ⟨(none, prependAttribute s.next n (s.push (.attribute a))),
      by simp [PrependAttribute, he, newAttribute], _, _,
      h.prependAttr (h.lt_of_allowInsertAttribute hk) a⟩

theorem newStartElement_sound (se : StartElement) :
    ∃ s', newStartElement se s = some (s.next, s') ∧ Sound s' := by
  obtain ⟨s', A', he, hc⟩ :=
    Coherent.appendAttrs s.next se.attr (h.push (.element se.name "")) (by simp)
  exact ⟨s', by simp [newStartElement, he], _, _, hc⟩

theorem newDeclaration_sound (pi : ProcInst) :
    ∃ s', newDeclaration pi s = some (s.next, s') ∧ Sound s' := by
  obtain ⟨s', A', he, hc⟩ :=
    Coherent.appendAttrs s.next (declAttrs pi) (h.push (.declaration pi)) (by simp)
  exact ⟨s', by simp [newDeclaration, he], _, _, hc⟩

/-- **One allowed call.** On a coherent store a call the caller is allowed to make does not
panic, and leaves a sound store. -/
theorem call {m : Mutation} (hm : Allowed s m) : ∃ r, s.call m = some r ∧ Sound r.2 := by
  cases m with
  | createElement se =>
    obtain ⟨s', he, hs⟩ := h.newStartElement_sound se
    exact ⟨(none, s'), by simp [Store.call, he], hs⟩
  | newDocument | createText | createComment | createAttribute => exact ⟨_, rfl, _, _, h.push _⟩
  | createProcessingInstruction pi =>
    by_cases ht : pi.target = "xml"
    · obtain ⟨s', he, hs⟩ := h.newDeclaration_sound pi
      exact ⟨(none, s'), by simp [Store.call, CreateProcessingInstruction, ht, he], hs⟩
    · exact ⟨(none, s.push (.procinst pi)),
        by simp [Store.call, CreateProcessingInstruction, ht, newProcInst], _, _, h.push _⟩
  | createXMLDeclaration encoding =>
    obtain ⟨s', he, hs⟩ :=
      h.newDeclaration_sound ⟨"xml", "version=\"1.0\" encoding=\"" ++ encoding ++ "\""⟩
    exact ⟨(none, s'), by simp [Store.call, CreateXMLDeclaration, he], hs⟩
  | createDocumentFragment host =>
    have hh : s.nodeType host = .element := hm
    have hlt : host < s.next := h.lt_of_nodeType (by simp [hh])
    exact ⟨_, rfl, _, _, (h.push _).setHost (by simp [Store.nodeType, Value.nodeType])
      (by rw [nodeType_push_of_lt hlt, hh])⟩
  | appendChild n c =>
    obtain ⟨he, hd, -⟩ := h.insertable hm
    obtain ⟨s', ha, hsp⟩ :=
      appendChild_detached h.shape hd n (allowInsertChildErr_eq_none.mp he)
    exact ⟨_, ha, _, _, h.insert hm hsp (by simp)⟩
  | prependChild n c =>
    obtain ⟨he, hd, -⟩ := h.insertable hm
    exact ⟨(none, prependNode c n s), by simp [Store.call, PrependChild, he], _, _,
      h.insert hm (prependNode_spliced h.shape hd) (by simp [or_comm])⟩
  | insertChildAfter n c after =>
    cases after with
    | none =>
      obtain ⟨he, hd, -⟩ := h.insertable hm
      obtain ⟨s', ha, hsp⟩ : ∃ s', appendNode c n s = some s' ∧
          Spliced s s' C A n c (C n ++ [c]) := appendNode_spliced h.shape hd
      exact ⟨(none, s'), by simp [Store.call, InsertChildAfter, he, ha], _, _,
        h.insert hm hsp (by simp)⟩
    | some r =>
      obtain ⟨hi, hrf⟩ := hm
      obtain ⟨he, hd, -⟩ := h.insertable hi
      by_cases hr : s.parent r = some n
      · obtain ⟨l₁, l₂, hl⟩ := List.append_of_mem (h.mem_of_parent hr hrf)
        obtain ⟨s', ha, hsp⟩ := insertNodeAfter_spliced h.shape hd hl
        exact ⟨(none, s'), by simp [Store.call, InsertChildAfter, he, hr, ha], _, _,
          h.insert hi hsp fun x => by simp [hl, or_comm, or_left_comm]⟩
      · exact ⟨(some .hierarchyRequest, s), by simp [Store.call, InsertChildAfter, he, hr], _, _,
          h⟩
  | insertChildBefore n c before =>
    cases before with
    | none =>
      obtain ⟨he, hd, -⟩ := h.insertable hm
      exact ⟨(none, prependNode c n s), by simp [Store.call, InsertChildBefore, he], _, _,
        h.insert hm (prependNode_spliced h.shape hd) (by simp [or_comm])⟩
    | some r => exact hm.elim
  | appendAttribute n a => exact h.appendAttribute_sound n a
  | prependAttribute n a => exact h.prependAttribute_sound n a
  | insertAttributeAfter n a after =>
    cases after with
    | none =>
      obtain ⟨r, hr, hs⟩ := h.appendAttribute_sound n a
      refine ⟨r, ?_, hs⟩
      rw [← hr]
      cases he : allowInsertAttributeErr (s.nodeType n) <;>
        simp [Store.call, InsertAttributeAfter, AppendAttribute, he]
    | some r =>
      have hr : s.parent r ≠ some n := by simp [h.parent_of_attribute (hm r rfl)]
      cases he : allowInsertAttributeErr (s.nodeType n) with
      | some err =>
        exact ⟨(some err, s), by simp [Store.call, InsertAttributeAfter, he], _, _, h⟩
      | none => exact ⟨(some .hierarchyRequest, s),
          by simp [Store.call, InsertAttributeAfter, he, hr], _, _, h⟩
  | insertAttributeBefore n a before =>
    cases before with
    | none =>
      obtain ⟨r, hr, hs⟩ := h.prependAttribute_sound n a
      refine ⟨r, ?_, hs⟩
      rw [← hr]
      cases he : allowInsertAttributeErr (s.nodeType n) <;>
        simp [Store.call, InsertAttributeBefore, PrependAttribute, he]
    | some r =>
      have hr : s.parent r ≠ some n := by simp [h.parent_of_attribute (hm r rfl)]
      cases he : allowInsertAttributeErr (s.nodeType n) with
      | some err =>
        exact ⟨(some err, s), by simp [Store.call, InsertAttributeBefore, he], _, _, h⟩
      | none => exact ⟨(some .hierarchyRequest, s),
          by simp [Store.call, InsertAttributeBefore, he, hr], _, _, h⟩
  | setValue n x => exact ⟨_, rfl, _, _, h.setValue n x⟩
  | editData n e =>
    obtain ⟨r, hr⟩ := Option.isSome_iff_exists.mp hm
    obtain ⟨v, hv, w, hw, he⟩ := Store.editData_eq_some hr
    exact ⟨r, hr, _, _, he ▸ h.withValue hv (Value.nodeType_of_editData hw)⟩
  | setHost n host => exact ⟨_, rfl, _, _, h.setHost hm.1 hm.2⟩

end Coherent

/-- **A call that answers an error leaves the store as it was**, whatever the store and the
call: every check of the insertions, of `SetValue` and of the edits comes before their first
write. -/
theorem call_error_unchanged {s : Store} {m : Mutation} {e : Error} {s' : Store}
    (h : s.call m = some (some e, s')) : s' = s := by
  cases m
  case editData n ed =>
    obtain ⟨v, hv, w, hw, rfl⟩ := Store.editData_eq_some h
    rw [Value.editData_error hw, ← hv, Function.update_eq_self]
  -- each return statement answers nil, or an error with the store it was given
  all_goals
    simp only [Store.call, AppendChild, PrependChild, InsertChildAfter, InsertChildBefore,
      AppendAttribute, PrependAttribute, InsertAttributeAfter, InsertAttributeBefore,
      Store.SetValue, Store.SetHost] at h
    repeat' split at h
    all_goals simp only [Option.map_eq_some', Option.some.injEq, Prod.mk.injEq, reduceCtorEq,
      false_and, and_false, exists_false] at h <;> exact h.2.symm

/-! ## Runs -/

/-- **Allowed runs keep the store sound.** From a sound store, a run each of whose calls
is allowed on the store it is made on never panics, and ends in a sound store. -/
theorem Sound.calls {s : Store} (h : Sound s) : ∀ {ms : List Mutation}, Obeys s ms →
    ∃ s', s.calls ms = some s' ∧ Sound s'
  | [], _ => ⟨s, rfl, h⟩
  | m :: _, ⟨hm, hms⟩ => by
    obtain ⟨C, A, hc⟩ := h
    obtain ⟨r, hr, hs⟩ := hc.call hm
    obtain ⟨s', h', hs'⟩ := hs.calls (hms r hr)
    exact ⟨s', by simp [Store.calls, hr, h'], hs'⟩

/-! ## The trees a coherent store stands for -/

namespace Coherent

variable {s : Store} {C A : Nat → List Nat} (h : Coherent s C A)
include h

end Coherent

section Anchor

variable {s : Store} {C A : Nat → List Nat} {n f c : Nat}

/-- **`InsertChildAfter` trusts its anchor's parent link.** Anchored at a node `f` whose
parent link names `n` but which is on no list, as a fragment created with `n` as its host
is, `InsertChildAfter` of a detached `c` that the kinds admit passes its checks and splices
`c` after `f`; `f`'s nil forward link makes it patch the tail pointer of `n`'s list. When
`n` has no children that is a read through a nil head, and the call panics. Otherwise it
answers nil and leaves a store that no lists fit: the head of `n`'s list points back to
`c`, which the forward links from the head never reach. -/
theorem insertChildAfter_fragment (hs : Shape s C A) (hf : Detached s C A f)
    (hpf : s.parent f = some n) (hc : Detached s C A c)
    (hk : allowInsertChild (s.nodeType n) (s.nodeType c) = true) :
    (C n = [] → InsertChildAfter n c (some f) s = none) ∧
    (C n ≠ [] →
      ∃ s', InsertChildAfter n c (some f) s = some (none, s') ∧ ¬ WellFormed s') := by
  have hcall : InsertChildAfter n c (some f) s = (insertNodeAfter c f s).map (none, ·) := by
    simp [InsertChildAfter, allowInsertChildErr_eq_none.mpr hk, hpf]
  have hnf : s.nextSib f = none := hf.nextSib
  constructor
  · intro hn
    have hh : s.firstChild n = none := by rw [hs.firstChild_eq, hn]; rfl
    simp [hcall, insertNodeAfter, insertSiblingAfter, hpf, hnf, Store.head, hh]
  · intro hn
    obtain ⟨h₀, t, hC⟩ := List.exists_cons_of_ne_nil hn
    have hh : s.firstChild n = some h₀ := by rw [hs.firstChild_eq, hC]; rfl
    have hc₀ : h₀ ≠ c := fun e => hc.kids n (by rw [hC, ← e]; exact List.mem_cons_self _ _)
    refine ⟨((((s.setParent c (some n)).setPrevSib h₀ (some c)).setNextSib c none).setPrevSib c
      (some f)).setNextSib f (some c), by simp [hcall, insertNodeAfter, insertSiblingAfter, hpf,
        hnf, Store.head, hh], ?_⟩
    rintro ⟨C', A', hs'⟩
    -- the forward links from the head still run through `n`'s old list only
    have hseg : Seg (((((s.setParent c (some n)).setPrevSib h₀ (some c)).setNextSib c
        none).setPrevSib c (some f)).setNextSib f (some c)).nextSib (some h₀) (C n) none := by
      rw [← hh]
      refine (hs.kids n).next.congr fun p hp => ?_
      have hpc : p ≠ c := fun e => hc.kids n (e ▸ hp)
      have hpf : p ≠ f := fun e => hf.kids n (e ▸ hp)
      simp [Function.update_noteq hpc, Function.update_noteq hpf]
    have hC' : C' n = C n := by
      have h' := (hs'.kids n).next
      simp only [Store.setNextSib_firstChild, Store.setPrevSib_firstChild,
        Store.setParent_firstChild, hh] at h'
      exact h'.unique hseg
    -- but the head's backward link is `c`, which is not the tail
    have hback := (hs'.kids n).prev_head (show (C' n).head? = some h₀ by rw [hC', hC]; rfl)
    simp only [Store.setNextSib_prevSib, Store.setPrevSib_prevSib, Store.setParent_prevSib,
      Function.update_noteq hc₀, Function.update_same, hC'] at hback
    exact hc.kids n (List.mem_of_getLast?_eq_some hback.symm)

/-- `nestedElements` with a detached element `3`, and the fragments `4` and `5` created
with the elements `1` and `2` as their hosts. -/
def nestedWithFragments : Store :=
  (CreateDocumentFragment 2 (CreateDocumentFragment 1
    (nestedElements.push (.element ⟨"", "c"⟩ ""))).2).2

/-- Anchored at the fragment `4`, hosted by `1`, whose child list is `[2]`, the insertion of
`3` answers nil and leaves a store no lists fit; anchored at the fragment `5`, hosted by
the childless `2`, it panics. -/
theorem insertChildAfter_fragment_nestedWithFragments :
    Shape nestedWithFragments (Function.update (Function.update (fun _ => []) 0 [1]) 1 [2])
      (fun _ => []) ∧
    Detached nestedWithFragments (Function.update (Function.update (fun _ => []) 0 [1]) 1 [2])
      (fun _ => []) 4 ∧ nestedWithFragments.parent 4 = some 1 ∧
    Detached nestedWithFragments (Function.update (Function.update (fun _ => []) 0 [1]) 1 [2])
      (fun _ => []) 5 ∧ nestedWithFragments.parent 5 = some 2 ∧
    Detached nestedWithFragments (Function.update (Function.update (fun _ => []) 0 [1]) 1 [2])
      (fun _ => []) 3 ∧
    allowInsertChild (nestedWithFragments.nodeType 1) (nestedWithFragments.nodeType 3) = true ∧
    allowInsertChild (nestedWithFragments.nodeType 2) (nestedWithFragments.nodeType 3) = true ∧
    ((Function.update (Function.update (fun _ => []) 0 [1]) 1 [2] 1 = [] →
        InsertChildAfter 1 3 (some 4) nestedWithFragments = none) ∧
      (Function.update (Function.update (fun _ => []) 0 [1]) 1 [2] 1 ≠ [] →
        ∃ s', InsertChildAfter 1 3 (some 4) nestedWithFragments = some (none, s') ∧
          ¬ WellFormed s')) ∧
    ((Function.update (Function.update (fun _ => []) 0 [1]) 1 [2] 2 = [] →
        InsertChildAfter 2 3 (some 5) nestedWithFragments = none) ∧
      (Function.update (Function.update (fun _ => []) 0 [1]) 1 [2] 2 ≠ [] →
        ∃ s', InsertChildAfter 2 3 (some 5) nestedWithFragments = some (none, s') ∧
          ¬ WellFormed s')) ∧
    (∃ s', InsertChildAfter 1 3 (some 4) nestedWithFragments = some (none, s') ∧
      ¬ WellFormed s') ∧
    InsertChildAfter 2 3 (some 5) nestedWithFragments = none := by
  -- the fragments are created on a well-formed store
  obtain ⟨hs₁, hb₁, -⟩ := createDocumentFragment_spec
    (nestedElements_shape.push nestedElements_bounded (.element ⟨"", "c"⟩ ""))
    (nestedElements_bounded.push (.element ⟨"", "c"⟩ "")) 1
  have hs := (createDocumentFragment_spec hs₁ hb₁ 2).1
  have hkids : ∀ p x, x ∈ Function.update (Function.update (fun _ => ([] : List Nat)) 0 [1]) 1
      [2] p → x = 1 ∨ x = 2 := by
    intro p x hx
    simp only [Function.update_apply] at hx
    split_ifs at hx <;> simp_all
  have hd : ∀ x, x ≠ 1 → x ≠ 2 → nestedWithFragments.nextSib x = none →
      Detached nestedWithFragments (Function.update (Function.update (fun _ => []) 0 [1]) 1 [2])
        (fun _ => []) x :=
    fun x h1 h2 hn => ⟨hn, fun p hp => (hkids p x hp).elim h1 h2, fun _ hp => nomatch hp⟩
  have h₁ := insertChildAfter_fragment hs (hd 4 (by decide) (by decide) rfl) rfl
    (hd 3 (by decide) (by decide) rfl) rfl
  have h₂ := insertChildAfter_fragment hs (hd 5 (by decide) (by decide) rfl) rfl
    (hd 3 (by decide) (by decide) rfl) rfl
  exact ⟨hs, hd 4 (by decide) (by decide) rfl, rfl, hd 5 (by decide) (by decide) rfl, rfl,
    hd 3 (by decide) (by decide) rfl, rfl, rfl, h₁, h₂, h₁.2 (by decide), h₂.1 rfl⟩

end Anchor


/-! ## What no call does -/

/-- `s'` keeps every node of `s` with its payload; it may have allocated more. -/
def KeepsPayloads (s s' : Store) : Prop :=
  s.next ≤ s'.next ∧ ∀ q < s.next, s'.value q = s.value q

namespace KeepsPayloads

variable {s s₁ s₂ s₃ s' : Store}

theorem refl (s : Store) : KeepsPayloads s s := ⟨le_rfl, fun _ _ => rfl⟩

theorem trans (h₁ : KeepsPayloads s₁ s₂) (h₂ : KeepsPayloads s₂ s₃) : KeepsPayloads s₁ s₃ :=
  ⟨h₁.1.trans h₂.1, fun q hq => (h₂.2 q (lt_of_lt_of_le hq h₁.1)).trans (h₁.2 q hq)⟩

theorem push (s : Store) (v : Value) : KeepsPayloads s (s.push v) :=
  ⟨by simp, fun q hq => by simp [Function.update_noteq (ne_of_lt hq)]⟩

end KeepsPayloads

section Splices

variable {s s' : Store} {k : ListKind} {c p a : Nat}

end Splices


section Calls

variable {s : Store}

end Calls

end Opr8.Dom
