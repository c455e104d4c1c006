import Mathlib.Logic.Function.Basic
import Opr8.Dom.NodeType

/-!
# Opr8 — the node store

A Go `*node` is a record of five links and a payload:

    type node struct {
      parent           *node
      firstChild       *node
      nextSib, prevSib *node
      firstAttr        *node
      value nodeTyper
    }

The store keeps one map per field, from pointers to that field's value (the
component-as-array view of a heap of records), so a write to one field of one node is a
point update of one map and leaves every other field unchanged by construction. Pointers
are numbers below the allocation frontier `next`; allocation hands out `next` with every
link nil, as `&node{value: v}` does.

The payload `Value` is the closed set of concrete types behind `nodeTyper`. The document's
`context.Context` is not kept: no modelled function reads it.
-/

namespace Opr8.Dom

open Xml

/-- The concrete payloads of `node.value`: `*element`, `*attribute`, `*text`,
`*comment`, `*procinst`, `*declaration`, `*document`, `*documentFragment`. -/
inductive Value where
  | element (name : Name) (pfx : String)
  | attribute (attr : Attr)
  | text (value : String)
  | comment (value : String)
  | procinst (pi : ProcInst)
  | declaration (pi : ProcInst)
  | document
  | documentFragment
deriving DecidableEq, Repr

/-- `nodeType()` of each payload. -/
def Value.nodeType : Value → NodeType
  | .element .. => .element
  | .attribute _ => .attribute
  | .text _ => .text
  | .comment _ => .comment
  | .procinst _ => .processingInstruction
  | .declaration _ => .declaration
  | .document => .document
  | .documentFragment => .documentFragment

/-- `node.xmlName`: the name of a `Namer` payload (elements and attributes), else the
zero name. -/
def Value.xmlName : Value → Name
  | .element name _ => name
  | .attribute a => a.name
  | _ => ⟨"", ""⟩

/-- The heap of nodes, one map per field of `node`. -/
structure Store where
  parent : Nat → Option Nat
  firstChild : Nat → Option Nat
  nextSib : Nat → Option Nat
  prevSib : Nat → Option Nat
  firstAttr : Nat → Option Nat
  value : Nat → Option Value
  /-- The allocation frontier: the next pointer `new` hands out. -/
  next : Nat

namespace Store

/-- The store before any allocation. -/
def empty : Store :=
  ⟨fun _ => none, fun _ => none, fun _ => none, fun _ => none, fun _ => none, fun _ => none, 0⟩

/-- `n.parent = v` -/
@[simps] def setParent (s : Store) (p : Nat) (v : Option Nat) : Store :=
  { s with parent := Function.update s.parent p v }

/-- `n.firstChild = v` -/
@[simps] def setFirstChild (s : Store) (p : Nat) (v : Option Nat) : Store :=
  { s with firstChild := Function.update s.firstChild p v }

/-- `n.nextSib = v` -/
@[simps] def setNextSib (s : Store) (p : Nat) (v : Option Nat) : Store :=
  { s with nextSib := Function.update s.nextSib p v }

/-- `n.prevSib = v` -/
@[simps] def setPrevSib (s : Store) (p : Nat) (v : Option Nat) : Store :=
  { s with prevSib := Function.update s.prevSib p v }

/-- `n.firstAttr = v` -/
@[simps] def setFirstAttr (s : Store) (p : Nat) (v : Option Nat) : Store :=
  { s with firstAttr := Function.update s.firstAttr p v }

/-- The store after `&node{value: v}`; the new node is at the old `next`. -/
@[simps] def push (s : Store) (v : Value) : Store where
  parent := Function.update s.parent s.next none
  firstChild := Function.update s.firstChild s.next none
  nextSib := Function.update s.nextSib s.next none
  prevSib := Function.update s.prevSib s.next none
  firstAttr := Function.update s.firstAttr s.next none
  value := Function.update s.value s.next (some v)
  next := s.next + 1

/-- `n.NodeType()`: the payload's kind, `NodeTypeNull` for a nil payload. -/
def nodeType (s : Store) (p : Nat) : NodeType :=
  match s.value p with
  | some v => v.nodeType
  | none => .null

/-- `n.xmlName()`. -/
def xmlName (s : Store) (p : Nat) : Name :=
  match s.value p with
  | some v => v.xmlName
  | none => ⟨"", ""⟩

theorem nodeType_of_value {s : Store} {p : Nat} {v : Value} (h : s.value p = some v) :
    s.nodeType p = v.nodeType := by
  simp [nodeType, h]

/-! ## The two lists a node heads

Children and attributes are spliced by the same code, reading `firstChild` or
`firstAttr`; `ListKind` names the list and `head`/`setHead` select the field. -/

end Store

/-- A node's child list or its attribute list. -/
inductive ListKind where
  | children
  | attributes
deriving DecidableEq, Repr

namespace Store

/-- `n.firstChild` or `n.firstAttr`. -/
def head (s : Store) : ListKind → Nat → Option Nat
  | .children => s.firstChild
  | .attributes => s.firstAttr

/-- `n.firstChild = v` or `n.firstAttr = v`. -/
def setHead (s : Store) : ListKind → Nat → Option Nat → Store
  | .children => s.setFirstChild
  | .attributes => s.setFirstAttr

variable {s : Store} {k k' : ListKind} {p q : Nat} {v : Option Nat}

@[simp] theorem head_children : s.head .children = s.firstChild := rfl
@[simp] theorem head_attributes : s.head .attributes = s.firstAttr := rfl
@[simp] theorem setHead_children : s.setHead .children = s.setFirstChild := rfl
@[simp] theorem setHead_attributes : s.setHead .attributes = s.setFirstAttr := rfl

@[simp] theorem head_setParent : (s.setParent q v).head k = s.head k := by cases k <;> rfl
@[simp] theorem head_setNextSib : (s.setNextSib q v).head k = s.head k := by cases k <;> rfl
@[simp] theorem head_setPrevSib : (s.setPrevSib q v).head k = s.head k := by cases k <;> rfl
@[simp] theorem setHead_parent : (s.setHead k p v).parent = s.parent := by cases k <;> rfl
@[simp] theorem setHead_nextSib : (s.setHead k p v).nextSib = s.nextSib := by cases k <;> rfl
@[simp] theorem setHead_prevSib : (s.setHead k p v).prevSib = s.prevSib := by cases k <;> rfl
@[simp] theorem setHead_value : (s.setHead k p v).value = s.value := by cases k <;> rfl
@[simp] theorem setHead_next : (s.setHead k p v).next = s.next := by cases k <;> rfl

@[simp] theorem head_setHead_self : (s.setHead k p v).head k p = v := by
  cases k <;> simp

theorem head_setHead_of_ne (h : k' ≠ k ∨ q ≠ p) : (s.setHead k p v).head k' q = s.head k' q := by
  cases k <;> cases k' <;> simp_all [setHead, head, Function.update_apply]

end Store

end Opr8.Dom
