import Mathlib.Data.List.DropRight

/-!
# Opr8 — the XML library vocabulary

The DOM consumes and produces the token vocabulary of its XML library (`flexml`, a
fork of `encoding/xml`): qualified names, attributes, processing instructions and the
six token kinds. Those types are external to the repository; this module fixes them as
plain data, together with the two byte helpers of the Go standard library the decoders
call, `unicode.IsSpace` and `bytes.TrimSpace`.

Character data is kept as a `String`; the Go code holds it as `[]byte`, and nothing
modelled here looks at it below the level of characters.
-/

namespace Opr8.Xml

/-- `xml.Name`: a local name (Go field `Local`) annotated with a namespace (`Space`). -/
structure Name where
  space : String
  localName : String
deriving DecidableEq, Repr

/-- `xml.Attr`. -/
structure Attr where
  name : Name
  value : String
deriving DecidableEq, Repr

/-- `xml.ProcInst`: `<?target inst?>`. -/
structure ProcInst where
  target : String
  inst : String
deriving DecidableEq, Repr

/-- `xml.StartElement`. -/
structure StartElement where
  name : Name
  attr : List Attr
deriving DecidableEq, Repr

/-- `xml.Token`, the events a tokenizer delivers and an encoder accepts. -/
inductive Token where
  | startElement (se : StartElement)
  | endElement (name : Name)
  | charData (data : String)
  | comment (data : String)
  | procInst (pi : ProcInst)
  | directive (data : String)
deriving DecidableEq, Repr

/-- The tags still open after `ts`, innermost first, when every end tag names the
innermost open tag; `none` at the first end tag that does not, or that has nothing to
close. Other tokens are skipped. -/
def openTags : List Name → List Token → Option (List Name)
  | stk, [] => some stk
  | stk, .startElement se :: ts => openTags (se.name :: stk) ts
  | n :: stk, .endElement e :: ts => if e = n then openTags stk ts else none
  | [], .endElement _ :: _ => none
  | stk, .charData _ :: ts => openTags stk ts
  | stk, .comment _ :: ts => openTags stk ts
  | stk, .procInst _ :: ts => openTags stk ts
  | stk, .directive _ :: ts => openTags stk ts

/-- Every end tag closes the innermost open tag, by name, and none is left open: what an
XML encoder accepts of a token stream. -/
def WellBracketed (ts : List Token) : Prop := openTags [] ts = some []

instance : DecidablePred WellBracketed := fun _ => inferInstanceAs (Decidable (_ = _))

/-- `unicode.IsSpace`: the Latin-1 spaces, then the other `White_Space` code points. -/
def isSpace (c : Char) : Bool :=
  if c.val ≤ 0xFF then
    c = '\t' || c = '\n' || c = '\x0b' || c = '\x0c' || c = '\r' || c = ' ' ||
      c.val = 0x85 || c.val = 0xA0
  else
    c.val = 0x1680 || (0x2000 ≤ c.val && c.val ≤ 0x200A) || c.val = 0x2028 ||
      c.val = 0x2029 || c.val = 0x202F || c.val = 0x205F || c.val = 0x3000

/-- `bytes.TrimSpace`: drop leading, then trailing, white space. -/
def trimSpace (s : String) : String :=
  ⟨(s.data.dropWhile isSpace).rdropWhile isSpace⟩

/-- Trimming twice trims nothing more. -/
@[simp] theorem trimSpace_trimSpace (s : String) : trimSpace (trimSpace s) = trimSpace s := by
  simp only [trimSpace]
  congr 1
  generalize hx : s.data.dropWhile isSpace = x
  have hhead := List.head?_dropWhile_not isSpace s.data
  rw [hx] at hhead
  obtain ⟨u, hu⟩ := List.rdropWhile_prefix isSpace x
  rcases hr : x.rdropWhile isSpace with _ | ⟨b, v⟩
  · rfl
  · rw [hr] at hu
    subst hu
    simp only [List.cons_append, List.head?_cons] at hhead
    rw [List.dropWhile_cons_of_neg (by simpa using hhead), ← hr, List.rdropWhile_idempotent]

end Opr8.Xml
