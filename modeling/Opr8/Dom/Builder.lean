import Opr8.Dom.Create

/-!
# Opr8 — the streaming Builder

A `TokenDecoder` consumes the tokens of a document one handler call at a time.
`UnmarshalXML` hands each token to the handler for its kind, stops at the first error, and
passes the end of the stream to `End`; the tokenizer is outside the repository, so the
model takes the token list it yields (`TokenDecoder.feed` is the loop). `Begin` and
`Initialize` are not modelled: the Builder's `Begin` only rejects a nil cursor, which a
pointer of the model cannot be.

`Builder` is the schema-less decoder: a cursor node and a set of option bits.
`StartElement` creates a detached element whose parent link already points at the
cursor, and descends into it; the element is linked into its parent's child list only at
its `EndElement`, which follows that link up. `CharData`, `Comment` and `ProcInst` append
a new node to the cursor at once, as the options say.

Main results:

* `TokenDecoder.feed_append` — feeding two token lists is feeding the first, then, if it
  succeeded, the second.
* `Builder.charData_eq` — the `CharData` handler is the kind check, then the text
  `textOf` describes: what is kept of the data, stated as the options' documentation
  states it.
* `Builder.procInst_discarded_fails` — an `<?xml ...?>` instruction inside an element is
  refused by the kind check before the option that would discard it is read, so the run
  fails.
-/

namespace Opr8.Dom

open Xml Store

variable {σ : Type}

/-! ## Token decoders -/

/-- `TokenDecoder` over a state `σ`. A handler returns the `error` it gives (`none` for
nil) and the state it leaves, or panics (`none`); `End` gets the error that ended the
stream. -/
structure TokenDecoder (σ : Type) where
  StartElement : Xml.StartElement → σ → Option (Option Error × σ)
  EndElement : Name → σ → Option (Option Error × σ)
  CharData : String → σ → Option (Option Error × σ)
  Comment : String → σ → Option (Option Error × σ)
  ProcInst : Xml.ProcInst → σ → Option (Option Error × σ)
  Directive : String → σ → Option (Option Error × σ)
  End : Option Error → σ → Option Error

namespace TokenDecoder

/-- The type switch of `UnmarshalXML`: one token to the handler of its kind. -/
def handle (td : TokenDecoder σ) : Token → σ → Option (Option Error × σ)
  | .startElement se => td.StartElement se
  | .endElement n => td.EndElement n
  | .charData d => td.CharData d
  | .comment c => td.Comment c
  | .procInst pi => td.ProcInst pi
  | .directive d => td.Directive d

/-- The loop of `UnmarshalXML` before the end of the stream: each token in turn, up to
the first error or panic. -/
def feed (td : TokenDecoder σ) : List Token → σ → Option (Option Error × σ)
  | [], st => some (none, st)
  | t :: ts, st =>
    match td.handle t st with
    | none => none
    | some (some e, st) => some (some e, st)
    | some (none, st) => td.feed ts st

theorem feed_append (td : TokenDecoder σ) : ∀ (xs ys : List Token) (st : σ),
    td.feed (xs ++ ys) st =
      match td.feed xs st with
      | some (none, st) => td.feed ys st
      | r => r
  | [], _, _ => rfl
  | t :: xs, ys, st => by
    simp only [List.cons_append, feed]
    rcases td.handle t st with _ | ⟨_ | e, st'⟩
    · rfl
    · exact feed_append td xs ys st'
    · rfl

end TokenDecoder

/-- `UnmarshalXML`: the loop, then `End(io.EOF)` once the tokens run out. -/
def UnmarshalXML (td : TokenDecoder σ) (ts : List Token) (st : σ) : Option (Option Error × σ) :=
  match td.feed ts st with
  | some (none, st) => some (td.End (some .eof) st, st)
  | r => r

/-- The loop of `Root()`, of the Builder and of the Decoder: `for it := n; it != nil;
it = it.parent`, within `fuel` rounds, answering the first node with no parent. -/
def Store.rootLoop (s : Store) : Nat → Option Nat → Option (Option Nat)
  | _, none => some none
  | 0, some _ => none
  | fuel + 1, some it =>
    if s.parent it = none then some (some it) else s.rootLoop fuel (s.parent it)

/-! ## The Builder -/

/-- `Builder`: the cursor `Node` and the options. -/
structure Builder where
  node : Nat
  opts : Bitflag

-- The option bits, `1 << iota` in the order of their declaration.

/-- `parseDeclaration`. -/
def parseDeclaration : Bitflag := ⟨1⟩
/-- `parseDoctype`. -/
def parseDoctype : Bitflag := ⟨2⟩
/-- `parsePI`. -/
def parsePI : Bitflag := ⟨4⟩
/-- `parseComments`. -/
def parseComments : Bitflag := ⟨8⟩
/-- `parseTrimPCData`. -/
def parseTrimPCData : Bitflag := ⟨16⟩
/-- `parseWSPCData`. -/
def parseWSPCData : Bitflag := ⟨32⟩
/-- `parseFragment`. -/
def parseFragment : Bitflag := ⟨64⟩

/-- `NewBuilder(root, opts...)`: no option set, then each option applied in order. -/
def NewBuilder (root : Nat) (opts : List (Builder → Builder)) : Builder :=
  opts.foldl (fun b opt => opt b) ⟨root, ⟨0⟩⟩

/-- `WithTrimPCData()`. -/
def WithTrimPCData (b : Builder) : Builder := { b with opts := b.opts.Add parseTrimPCData }
/-- `WithComments()`. -/
def WithComments (b : Builder) : Builder := { b with opts := b.opts.Add parseComments }
/-- `WithDoctype()`; no handler reads the bit. -/
def WithDoctype (b : Builder) : Builder := { b with opts := b.opts.Add parseDoctype }
/-- `WithDeclaration()`. -/
def WithDeclaration (b : Builder) : Builder := { b with opts := b.opts.Add parseDeclaration }
/-- `WithProcInst()`. -/
def WithProcInst (b : Builder) : Builder := { b with opts := b.opts.Add parsePI }
/-- `WithWhitespacePCData()`. -/
def WithWhitespacePCData (b : Builder) : Builder := { b with opts := b.opts.Add parseWSPCData }
/-- `WithRootFragment()`; no handler reads the bit. -/
def WithRootFragment (b : Builder) : Builder := { b with opts := b.opts.Add parseFragment }
/-- `WithRootNode(n)`: the cursor. -/
def WithRootNode (n : Nat) (b : Builder) : Builder := { b with node := n }

namespace Builder

/-- `return un.Node.AppendChild(c)` for a node `c` just created: the cursor stays. -/
def appendToCursor (b : Builder) (c : Nat × Store) : Option (Option Error × Builder × Store) :=
  (AppendChild b.node c.1 c.2).map fun r => (r.1, b, r.2)

/-- `StartElement`: a new element whose parent link is the cursor; the cursor moves to
it. -/
def StartElement (se : Xml.StartElement) (b : Builder) (s : Store) :
    Option (Option Error × Builder × Store) :=
  (newStartElement se s).map fun c => (none, { b with node := c.1 }, c.2.setParent c.1 (some b.node))

/-- `EndElement`: link the cursor into its parent's child list and move up. The cursor
becomes `un.Node.Parent()`, the parent link `appendNode` has just written (`p`). -/
def EndElement (b : Builder) (s : Store) : Option (Option Error × Builder × Store) :=
  match s.parent b.node with
  | none => some (some (.wrap "context node has a nil parent" .hierarchyRequest), b, s)
  | some p =>
    match AppendChild p b.node s with
    | none => none
    | some (some e, s) => some (some e, b, s)
    | some (none, s) => some (none, { b with node := p }, s)

/-- `CharData`. -/
def CharData (cd : String) (b : Builder) (s : Store) : Option (Option Error × Builder × Store) :=
  match allowInsertChildErr (s.nodeType b.node) .text with
  | some err => some (some err, b, s)
  | none =>
    if cd = "" ∧ b.opts.Has parseWSPCData = false then some (none, b, s)
    else if b.opts.Has parseTrimPCData = false then b.appendToCursor (newText cd s)
    else
      let trimmed := trimSpace cd
      if b.opts.Has parseWSPCData = true ∨ trimmed ≠ "" then
        b.appendToCursor (newText trimmed s)
      else some (none, b, s)

/-- `Comment`: the option is read before the kind check. -/
def Comment (c : String) (b : Builder) (s : Store) : Option (Option Error × Builder × Store) :=
  if b.opts.Has parseComments = false then some (none, b, s)
  else
    match allowInsertChildErr (s.nodeType b.node) .comment with
    | some err => some (some err, b, s)
    | none => b.appendToCursor (newComment c s)

/-- The kind of node a processing instruction makes: a declaration for the target
`xml`. -/
def procInstType (pi : Xml.ProcInst) : NodeType :=
  if pi.target = "xml" then .declaration else .processingInstruction

/-- `ProcInst`: the kind check is made before the options are read. -/
def ProcInst (pi : Xml.ProcInst) (b : Builder) (s : Store) :
    Option (Option Error × Builder × Store) :=
  let nt := procInstType pi
  match allowInsertChildErr (s.nodeType b.node) nt with
  | some err => some (some err, b, s)
  | none =>
    if nt = .declaration ∧ b.opts.Has parseDeclaration = true then
      (newDeclaration pi s).bind b.appendToCursor
    else if nt = .processingInstruction ∧ b.opts.Has parsePI = true then
      b.appendToCursor (newProcInst pi s)
    else some (none, b, s)

/-- `Directive`. -/
def Directive (b : Builder) (s : Store) : Option (Option Error × Builder × Store) :=
  some (some (.new "TODO"), b, s)

/-- `End`: the end of the stream is success. -/
def End (err : Option Error) : Option Error := if err = some .eof then none else err

/-- `un.Root()`: the first node with no parent, up from the cursor. -/
def Root (b : Builder) (s : Store) : Option (Option Nat) := s.rootLoop s.next (some b.node)

/-- The Builder as a `TokenDecoder` over its cursor and the store. -/
def tokenDecoder : TokenDecoder (Builder × Store) where
  StartElement se st := Builder.StartElement se st.1 st.2
  EndElement _ st := Builder.EndElement st.1 st.2
  CharData cd st := Builder.CharData cd st.1 st.2
  Comment c st := Builder.Comment c st.1 st.2
  ProcInst pi st := Builder.ProcInst pi st.1 st.2
  Directive _ st := Builder.Directive st.1 st.2
  End err _ := Builder.End err

/-- The Builder's handler for one token. -/
def handle (t : Token) (b : Builder) (s : Store) : Option (Option Error × Builder × Store) :=
  tokenDecoder.handle t (b, s)

@[simp] theorem handle_startElement (se : Xml.StartElement) (b : Builder) (s : Store) :
    handle (.startElement se) b s = Builder.StartElement se b s := rfl

@[simp] theorem handle_endElement (n : Name) (b : Builder) (s : Store) :
    handle (.endElement n) b s = Builder.EndElement b s := rfl

@[simp] theorem handle_charData (cd : String) (b : Builder) (s : Store) :
    handle (.charData cd) b s = Builder.CharData cd b s := rfl

@[simp] theorem handle_comment (c : String) (b : Builder) (s : Store) :
    handle (.comment c) b s = Builder.Comment c b s := rfl

@[simp] theorem handle_procInst (pi : Xml.ProcInst) (b : Builder) (s : Store) :
    handle (.procInst pi) b s = Builder.ProcInst pi b s := rfl

@[simp] theorem handle_directive (d : String) (b : Builder) (s : Store) :
    handle (.directive d) b s = Builder.Directive b s := rfl

/-- The Builder fed a token list. -/
def feed (ts : List Token) (b : Builder) (s : Store) : Option (Option Error × Builder × Store) :=
  tokenDecoder.feed ts (b, s)

@[simp] theorem feed_nil (b : Builder) (s : Store) : feed [] b s = some (none, b, s) := rfl

theorem feed_cons (t : Token) (ts : List Token) (b : Builder) (s : Store) :
    feed (t :: ts) b s =
      match handle t b s with
      | none => none
      | some (some e, st) => some (some e, st)
      | some (none, b', s') => feed ts b' s' := by
  simp only [feed, handle, TokenDecoder.feed]
  rcases tokenDecoder.handle t (b, s) with _ | ⟨_ | e, st'⟩ <;> rfl

/-- At the end of the stream the Builder reports nothing: `UnmarshalXML` is the loop. -/
theorem unmarshalXML_eq (ts : List Token) (b : Builder) (s : Store) :
    UnmarshalXML tokenDecoder ts (b, s) = feed ts b s := by
  unfold UnmarshalXML feed
  split <;> simp_all [tokenDecoder, Builder.End]

/-! ## What CharData keeps -/

/-- The text a CharData event leaves, as the options are documented: the data, trimmed of
surrounding white space with trim-text on; nothing, with keep-whitespace-only-text off,
when the data is empty, or empty after trimming with trim-text on. -/
def textOf (opts : Bitflag) (cd : String) : Option String :=
  if opts.Has parseWSPCData = false ∧
      (cd = "" ∨ (opts.Has parseTrimPCData = true ∧ trimSpace cd = "")) then none
  else some (if opts.Has parseTrimPCData = true then trimSpace cd else cd)

/-- **CharData keeps what the options say.** The handler makes its kind check, then
appends a text node holding `textOf`, or nothing. -/
theorem charData_eq (cd : String) (b : Builder) (s : Store) :
    Builder.CharData cd b s =
      match allowInsertChildErr (s.nodeType b.node) .text with
      | some err => some (some err, b, s)
      | none =>
        match textOf b.opts cd with
        | none => some (none, b, s)
        | some d => b.appendToCursor (newText d s) := by
  unfold Builder.CharData textOf
  rcases allowInsertChildErr (s.nodeType b.node) .text with _ | err
  · cases hw : b.opts.Has parseWSPCData <;> cases ht : b.opts.Has parseTrimPCData <;>
      by_cases hcd : cd = "" <;> by_cases htr : trimSpace cd = "" <;> simp [hw, ht, hcd, htr]
  · rfl

/-- Kept text is kept as it is when read again. -/
theorem textOf_textOf {opts : Bitflag} {cd d : String} (h : textOf opts cd = some d) :
    textOf opts d = some d := by
  unfold textOf at h ⊢
  split at h
  · cases h
  · obtain rfl := Option.some.inj h
    cases ht : opts.Has parseTrimPCData <;> simp_all

/-! ## What ProcInst discards -/

/-- **A declaration the options discard still ends the run.** `ProcInst` makes the kind
check before it reads the options, and an instruction with the target `xml` makes a
Declaration, which only a Document may hold. With `parseDeclaration` off such an
instruction is dropped at the top of a document. But a start tag moves the cursor to its
element, and there the kind check fails: on a well-formed store, a run of a Builder on a
Document stops with the hierarchy error at that instruction, for every start tag before
it and whatever follows, the end tag that balances the sequence included. -/
theorem procInst_discarded_fails {s : Store} {C A : Nat → List Nat} (hs : Shape s C A)
    (hb : Bounded s C A) (b : Builder) (hd : s.nodeType b.node = .document)
    (hf : b.opts.Has parseDeclaration = false) (inst : String) :
    Builder.ProcInst ⟨"xml", inst⟩ b s = some (none, b, s) ∧
    ∀ (se : Xml.StartElement) (en : Name) (ts : List Token), ∃ b' s',
      Builder.feed (.startElement se :: .procInst ⟨"xml", inst⟩ :: .endElement en :: ts) b s =
        some (allowInsertChildErr .element .declaration, b', s') := by
  refine ⟨by simp [Builder.ProcInst, procInstType, hd, hf, allowInsertChildErr, allowInsertChild],
    fun se en ts => ?_⟩
  obtain ⟨s₁, h₁, hc⟩ := created_of_appendAttrs hs hb (.element se.name "") se.attr
  have hstart : Builder.StartElement se b s =
      some (none, { b with node := s.next }, s₁.setParent s.next (some b.node)) := by
    simp [Builder.StartElement, newStartElement, h₁]
  have hk : (s₁.setParent s.next (some b.node)).nodeType s.next = .element := by
    simp [Store.nodeType, hc.value, Value.nodeType]
  refine ⟨{ b with node := s.next }, s₁.setParent s.next (some b.node), ?_⟩
  rw [feed_cons, handle_startElement, hstart]
  dsimp only
  rw [feed_cons, handle_procInst]
  simp [Builder.ProcInst, procInstType, hk, allowInsertChildErr, allowInsertChild]

theorem procInst_discarded_fails_emptyDocument :
    Shape (newDocument Store.empty).2 (fun _ => []) (fun _ => []) ∧
    Bounded (newDocument Store.empty).2 (fun _ => []) (fun _ => []) ∧
    (newDocument Store.empty).2.nodeType (NewBuilder 0 []).node = .document ∧
    (NewBuilder 0 []).opts.Has parseDeclaration = false ∧
    (Builder.ProcInst ⟨"xml", "version=\"1.0\""⟩ (NewBuilder 0 []) (newDocument Store.empty).2 =
        some (none, NewBuilder 0 [], (newDocument Store.empty).2) ∧
      ∀ (se : Xml.StartElement) (en : Name) (ts : List Token), ∃ b' s',
        Builder.feed (.startElement se :: .procInst ⟨"xml", "version=\"1.0\""⟩ ::
            .endElement en :: ts) (NewBuilder 0 []) (newDocument Store.empty).2 =
          some (allowInsertChildErr .element .declaration, b', s')) :=
  have hl : Linkless (newDocument Store.empty).2 := Linkless.empty.push _
  ⟨hl.shape, Bounded.nil _, rfl, rfl,
    procInst_discarded_fails hl.shape (Bounded.nil _) (NewBuilder 0 []) rfl rfl _⟩

end Builder

end Opr8.Dom
