import Opr8.Xml

/-!
# Opr8 — node kinds, error values and the hierarchy rules

`dom/nodetype.go` numbers the node kinds; `dom/errors.go` declares the error values the
package returns; `allowInsertChild` and `allowInsertAttribute` (in the node store) are
the only structural checks made before a node is linked. Every insertion of the DOM goes
through them, so they are stated here once, with the error each `...Err` variant wraps.

Go's `error` is one interface type for the whole program: `Error` models its values as
they are built in the source (`errors.New`, `errors.Wrap`, and the sentinels), with
`Error.cause` the unwrapping `errors.Cause` performs. `errors.WithStack` only records a
stack trace, so the model leaves the error it wraps as it is.

`Bitflag` is the option set of the Builder and of the Marshaler.
-/

namespace Opr8

/-- The error values of the program. -/
inductive Error where
  /-- `ErrHierarchyRequest` -/
  | hierarchyRequest
  /-- `ErrIndexSize` -/
  | indexSize
  /-- `io.EOF`, the normal end of a token stream -/
  | eof
  /-- `io.ErrUnexpectedEOF` -/
  | unexpectedEOF
  /-- `errors.New` / `errors.Errorf` -/
  | new (msg : String)
  /-- `errors.Wrap` / `errors.Wrapf`: a message in front of a cause -/
  | wrap (msg : String) (cause : Error)
deriving DecidableEq, Repr

/-- `errors.Cause`: strip every wrapping message. -/
def Error.cause : Error → Error
  | .wrap _ c => c.cause
  | e => e

namespace Dom

/-- `NodeType`, numbered as in `dom/nodetype.go`; the kinds marked historical there are
never created. `NodeTypeNotation` is `notationDecl`, the Lean keyword being taken. -/
inductive NodeType where
  | null | element | attribute | text | cdataSection | entityReference | entity
  | processingInstruction | comment | document | documentType | documentFragment
  | notationDecl | declaration
deriving DecidableEq, Repr

/-- `NodeType.String`. Declarations print as processing instructions. -/
def NodeType.toString : NodeType → String
  | .null => "NULL"
  | .element => "ELEMENT_NODE"
  | .attribute => "ATTRIBUTE_NODE"
  | .text => "TEXT_NODE"
  | .cdataSection => "CDATA_SECTION_NODE"
  | .entityReference => "ENTITY_REFERENCE_NODE"
  | .entity => "ENTITY_NODE"
  | .processingInstruction => "PROCESSING_INSTRUCTION_NODE"
  | .comment => "COMMENT_NODE"
  | .document => "DOCUMENT_NODE"
  | .documentType => "DOCUMENT_TYPE_NODE"
  | .documentFragment => "DOCUMENT_FRAGMENT_NODE"
  | .notationDecl => "NOTATION_NODE"
  | .declaration => "PROCESSING_INSTRUCTION_NODE"

/-- `allowInsertChild`, check by check as the source makes them (the second test of
`child == 0` repeats the first). -/
def allowInsertChild (parent child : NodeType) : Bool :=
  if parent = .null ∨ child = .null then false
  else if parent ≠ .document ∧ parent ≠ .element then false
  else if child = .document ∨ child = .null then false
  else if parent ≠ .document ∧ (child = .documentType ∨ child = .declaration) then false
  else true

/-- `allowInsertChildErr`: `none` is Go's `nil`. -/
def allowInsertChildErr (parent child : NodeType) : Option Error :=
  if allowInsertChild parent child then none
  else some (.wrap ("parent node type " ++ parent.toString ++ " may not have a " ++
    child.toString ++ " child") .hierarchyRequest)

/-- `allowInsertAttribute`. -/
def allowInsertAttribute (parent : NodeType) : Bool :=
  parent = .element ∨ parent = .declaration

/-- `allowInsertAttributeErr`. -/
def allowInsertAttributeErr (parent : NodeType) : Option Error :=
  if allowInsertAttribute parent then none
  else some (.wrap ("parent node type " ++ parent.toString ++ " may not have a " ++
    NodeType.attribute.toString ++ " child") .hierarchyRequest)

/-- The rules in one statement: a child may be linked exactly under a Document or an
Element, never a Document or a null node, and a Declaration or DocumentType only
under a Document. -/
theorem allowInsertChild_iff (parent child : NodeType) :
    allowInsertChild parent child = true ↔
      (parent = .document ∨ parent = .element) ∧ child ≠ .null ∧ child ≠ .document ∧
        (child = .documentType ∨ child = .declaration → parent = .document) := by
  cases parent <;> cases child <;> decide

/-- The error variant fails exactly when the check does, with a hierarchy error. -/
theorem allowInsertChildErr_eq_some {parent child : NodeType} {e : Error} :
    allowInsertChildErr parent child = some e →
      allowInsertChild parent child = false ∧ e.cause = .hierarchyRequest := by
  unfold allowInsertChildErr
  split
  · simp
  · rintro ⟨⟩
    simp_all [Error.cause]

@[simp] theorem allowInsertChildErr_eq_none {parent child : NodeType} :
    allowInsertChildErr parent child = none ↔ allowInsertChild parent child = true := by
  unfold allowInsertChildErr
  split <;> simp_all

/-- `bitflag`: a set of option bits. -/
structure Bitflag where
  bits : UInt32
deriving DecidableEq, Repr

/-- `f.Has(other)`: some bit of `other` is set in `f`. -/
def Bitflag.Has (f other : Bitflag) : Bool := f.bits &&& other.bits != 0

/-- `f.Add(other)`. -/
def Bitflag.Add (f other : Bitflag) : Bitflag := ⟨f.bits ||| other.bits⟩

end Dom

end Opr8
