import Opr8.Datastore.Schema
import Opr8.Dom.BuilderSim

/-!
# Opr8 — the schema-guided decoder

`Decoder` is the TokenDecoder that builds a document while checking it against a YANG
schema. It holds a node cursor and a schema cursor. A start tag is resolved (`childname`)
and looked up under the schema cursor (`dataChild`); when both succeed, and the decoder is
not skipping, the element is created, appended to the node cursor at once, and becomes the
cursor. Either way a restore frame is pushed, a closure that puts both cursors back; a
start tag that fails is recorded as a decoding error, turns skipping on, and pushes a frame
that also turns it off. An end tag pops a frame and runs it. Character data is appended to
the node cursor, recorded as an error unless the schema cursor is a leaf, and then runs the
innermost frame without popping it.

The frames are kept defunctionalized, as the values their closures capture (`Restore`).
A pop on an empty stack is Go's index-out-of-range panic, `none`.

Main results:

* `decoder_skip_leak` — an invalid element inside an invalid element turns skipping off
  when it ends, so what follows it inside the outer one is built.
* `decoder_text_then_element` — after character data the cursor is the enclosing
  element's parent: an element after text inside a leaf is built beside the leaf, not in
  it, and no error is recorded.
* `feed_frames` — over a run, the restore stack holds one frame per open start tag.
* `charData_outside_root` — character data with no open tag pops an empty stack: before
  the root, or after a complete document.
* `initialize_order_dependent` — `Initialize` keeps the last recognised `format` pair, and
  with none it fails naming an empty key; `tdInit` with no arguments, as `ReadFrom` calls
  it, fails that way.
-/

namespace Opr8.Datastore

open Opr8.Dom Xml

/-- A restore frame: the schema and node cursors to put back, and whether to turn
skipping off (the frame of a start tag that failed). -/
structure Restore where
  schema : Option Entry
  node : Nat
  clearSkip : Bool

/-- `Decoder`: the node cursor, the module collection, the schema cursor (`nil` at the
top), the stack of restore frames (top first), the skip flag, the decoding errors in the
order they were recorded, and the name resolver. -/
structure Decoder where
  Node : Nat
  Modules : Collection
  schema : Option Entry
  stack : List Restore
  skip : Bool
  errors : List Error
  childname : NameLookup

/-- Running a restore frame. -/
def Restore.apply (f : Restore) (un : Decoder) : Decoder :=
  { un with schema := f.schema, Node := f.node, skip := if f.clearSkip then false else un.skip }

namespace Decoder

/-- The decoder a reader starts with: the cursor on `node`, the schema cursor at the top,
nothing on the stack, no error. -/
def new (node : Nat) (ms : Collection) (childname : NameLookup) : Decoder :=
  ⟨node, ms, none, [], false, [], childname⟩

/-- The method `dataChild`: the entry for `n` under the schema cursor, a top-level entry
when the cursor is at the top, checked against the namespace of `n` when it has one. -/
def dataChild (un : Decoder) (n : Name) : Except Error Entry :=
  let candidate : Except Error (Option Entry) :=
    match un.schema with
    | none =>
      match un.Modules.RootEntry n with
      | .ok e => .ok (some e)
      | .error _ => .error (errUnexpectedElementName n)
    | some e => .ok (Datastore.dataChild (some e) n)
  match candidate with
  | .error err => .error err
  | .ok none => .error (errUnexpectedElementName n)
  | .ok (some c) =>
    if n.space ≠ "" ∧ c.ns ≠ n.space then
      .error (.new ("unexpected child element <" ++ n.localName ++ "> in namespace " ++
        goQuote n.space ++ " (expected namespace " ++ goQuote c.ns ++ ")"))
    else .ok c

/-- Resolving a start tag's name and looking it up: the name to build and the entry. -/
def resolve (un : Decoder) (n : Name) : Except Error (Name × Entry) :=
  match un.childname.call un.Modules n with
  | .error err => .error err
  | .ok name =>
    match un.dataChild name with
    | .error err => .error err
    | .ok e => .ok (name, e)

/-- `StartElement`. A failure to append the element is returned at once, with no frame
pushed. -/
def StartElement (se : Xml.StartElement) (un : Decoder) (s : Store) :
    Option (Option Error × Decoder × Store) :=
  let restore : Restore := ⟨un.schema, un.Node, false⟩
  match un.resolve se.name with
  | .ok (name, newSchema) =>
    if un.skip then some (none, { un with stack := restore :: un.stack }, s)
    else
      match newStartElement { se with name := name } s with
      | none => none
      | some (newNode, s) =>
        match AppendChild un.Node newNode s with
        | none => none
        | some (some crit, s) => some (some crit, un, s)
        | some (none, s) =>
          some (none,
            { un with schema := some newSchema, Node := newNode, stack := restore :: un.stack }, s)
  | .error err =>
    let failed : Restore := { restore with clearSkip := true }
    some (none, { un with errors := un.errors ++ [err], skip := true, stack := failed :: un.stack },
      s)

/-- `EndElement`: pop a frame and run it. -/
def EndElement (un : Decoder) (s : Store) : Option (Option Error × Decoder × Store) :=
  match un.stack with
  | [] => none
  | f :: stack => some (none, f.apply { un with stack := stack }, s)

/-- `CharData`: unless skipping, record an error when the schema cursor is not a leaf,
append the text to the node cursor, and run the innermost frame, which stays on the
stack. -/
def CharData (cd : String) (un : Decoder) (s : Store) : Option (Option Error × Decoder × Store) :=
  if un.skip then some (none, un, s)
  else
    let un := if un.schema.map Entry.Kind = some .LeafEntry then un
      else { un with errors := un.errors ++ [.wrap "schema node is not a leaf" .hierarchyRequest] }
    match un.stack with
    | [] => none
    | update :: _ =>
      match AppendChild un.Node (newText cd s).1 (newText cd s).2 with
      | none => none
      | some (some crit, s) => some (some crit, un, s)
      | some (none, s) => some (none, update.apply un, s)

/-- `End`: the end of the stream is success when the node cursor has no parent. -/
def End (err : Option Error) (un : Decoder) (s : Store) : Option Error :=
  if err = some .eof then (if s.parent un.Node = none then none else some .unexpectedEOF)
  else err

/-- The decoder as a `TokenDecoder` over its state and the store; comments and processing
instructions are ignored, a directive is an error. -/
def tokenDecoder : TokenDecoder (Decoder × Store) where
  StartElement se st := Decoder.StartElement se st.1 st.2
  EndElement _ st := Decoder.EndElement st.1 st.2
  CharData cd st := Decoder.CharData cd st.1 st.2
  Comment _ st := some (none, st)
  ProcInst _ st := some (none, st)
  Directive _ st := some (some (.new "TODO"), st)
  End err st := Decoder.End err st.1 st.2

/-- The decoder's handler for one token. -/
def handle (t : Token) (un : Decoder) (s : Store) : Option (Option Error × Decoder × Store) :=
  tokenDecoder.handle t (un, s)

/-- The decoder fed a token list. -/
def feed (ts : List Token) (un : Decoder) (s : Store) : Option (Option Error × Decoder × Store) :=
  tokenDecoder.feed ts (un, s)

@[simp] theorem handle_startElement (se : Xml.StartElement) (un : Decoder) (s : Store) :
    handle (.startElement se) un s = Decoder.StartElement se un s := rfl

@[simp] theorem handle_endElement (n : Name) (un : Decoder) (s : Store) :
    handle (.endElement n) un s = Decoder.EndElement un s := rfl

@[simp] theorem handle_charData (cd : String) (un : Decoder) (s : Store) :
    handle (.charData cd) un s = Decoder.CharData cd un s := rfl

@[simp] theorem feed_nil (un : Decoder) (s : Store) : feed [] un s = some (none, un, s) := rfl

theorem feed_cons (t : Token) (ts : List Token) (un : Decoder) (s : Store) :
    feed (t :: ts) un s =
      match handle t un s with
      | none => none
      | some (some e, st) => some (some e, st)
      | some (none, un', s') => feed ts un' s' := by
  simp only [feed, handle, TokenDecoder.feed]
  rcases tokenDecoder.handle t (un, s) with _ | ⟨_ | e, st'⟩ <;> rfl

theorem feed_cons_ok {t : Token} {ts : List Token} {un un' : Decoder} {s s' : Store}
    (h : feed (t :: ts) un s = some (none, un', s')) :
    ∃ un₁ s₁, handle t un s = some (none, un₁, s₁) ∧
      feed ts un₁ s₁ = some (none, un', s') := by
  rw [feed_cons] at h
  rcases hh : handle t un s with _ | ⟨_ | e, un₁, s₁⟩ <;> rw [hh] at h
  · cases h
  · exact ⟨un₁, s₁, rfl, h⟩
  · cases h

/-! ## What a handler can do -/

/-- With the pass-through resolver a name is built as it is read. -/
theorem resolve_rfc6020 {un : Decoder} {n name : Name} {e : Entry}
    (hc : un.childname = .rfc6020) (h : un.resolve n = .ok (name, e)) : name = n := by
  simp only [resolve, hc, NameLookup.call, rfc6020Lookup] at h
  split at h
  · cases h
  · cases h
    rfl

/-- `StartElement` records at most one error. -/
theorem startElement_errors {se : Xml.StartElement} {un un' : Decoder} {s s' : Store}
    {e : Option Error} (h : Decoder.StartElement se un s = some (e, un', s')) :
    un.errors <+: un'.errors := by
  unfold Decoder.StartElement at h
  split at h
  · split at h
    · cases h
      exact List.prefix_refl _
    · split at h
      · cases h
      · split at h
        · cases h
        · cases h
          exact List.prefix_refl _
        · cases h
          exact List.prefix_refl _
  · cases h
    exact List.prefix_append _ _

/-- What `CharData` can do: nothing while skipping; otherwise, with at most the not-a-leaf
error recorded, append the text under the node cursor, stopping at a failed kind check or
else running the innermost frame. -/
theorem charData_cases {cd : String} {un un' : Decoder} {s s' : Store}
    {e : Option Error} (h : Decoder.CharData cd un s = some (e, un', s')) :
    (un.skip = true ∧ e = none ∧ un' = un ∧ s' = s) ∨
    (un.skip = false ∧ ∃ es f rest, un.errors <+: es ∧ un.stack = f :: rest ∧
      ((∃ crit, AppendChild un.Node s.next (s.push (.text cd)) = some (some crit, s') ∧
          e = some crit ∧ un' = { un with errors := es }) ∨
        (AppendChild un.Node s.next (s.push (.text cd)) = some (none, s') ∧ e = none ∧
          un' = f.apply { un with errors := es }))) := by
  unfold Decoder.CharData at h
  split at h
  · cases h
    exact .inl ⟨‹_›, rfl, rfl, rfl⟩
  · refine .inr ⟨by simpa using ‹¬un.skip = true›, ?_⟩
    obtain ⟨es, hes, hpre⟩ : ∃ es, (if un.schema.map Entry.Kind = some .LeafEntry then un
        else { un with
          errors := un.errors ++ [.wrap "schema node is not a leaf" .hierarchyRequest] }) =
        { un with errors := es } ∧ un.errors <+: es := by
      split
      · exact ⟨_, rfl, List.prefix_refl _⟩
      · exact ⟨_, rfl, List.prefix_append _ _⟩
    simp only [hes, newText] at h
    split at h
    · cases h
    · refine ⟨es, _, _, hpre, ‹_›, ?_⟩
      split at h
      · cases h
      · cases h
        exact .inl ⟨_, ‹_›, rfl, rfl⟩
      · cases h
        exact .inr ⟨‹_›, rfl, rfl⟩

/-- A handler records at most one error and forgets none. -/
theorem handle_errors {t : Token} {un un' : Decoder} {s s' : Store} {e : Option Error}
    (h : handle t un s = some (e, un', s')) : un.errors <+: un'.errors := by
  cases t with
  | startElement se => exact startElement_errors h
  | endElement n =>
    simp only [handle_endElement, Decoder.EndElement] at h
    split at h
    · cases h
    · cases h
      exact List.prefix_refl _
  | charData cd =>
    rcases charData_cases h with
      ⟨-, -, rfl, -⟩ | ⟨-, es, f, rest, hpre, -, ⟨_, -, -, rfl⟩ | ⟨-, -, rfl⟩⟩
    · exact List.prefix_refl _
    · exact hpre
    · exact hpre
  | comment | procInst | directive =>
    cases h
    exact List.prefix_refl _

/-- **The decoding errors only grow** over a run: a decoder that ends with none recorded none
on the way. -/
theorem feed_errors : ∀ (ts : List Token) {un un' : Decoder} {s s' : Store} {e : Option Error},
    feed ts un s = some (e, un', s') → un.errors <+: un'.errors
  | [], _, _, _, _, _, h => by
    simp only [feed_nil, Option.some.injEq, Prod.mk.injEq] at h
    obtain ⟨-, rfl, -⟩ := h
    exact List.prefix_refl _
  | t :: ts, un, _, s, _, _, h => by
    rw [feed_cons] at h
    rcases hh : handle t un s with _ | ⟨_ | e₁, un₁, s₁⟩ <;> rw [hh] at h
    · cases h
    · exact (handle_errors hh).trans (feed_errors ts h)
    · cases h
      exact handle_errors hh

/-! ## The restore stack over a run -/

/-- Skipping is on only while a frame that turns it off is on the stack. -/
def SkipFramed (un : Decoder) : Prop := un.skip = true → ∃ f ∈ un.stack, f.clearSkip = true

theorem startElement_frames {se : Xml.StartElement} {un un' : Decoder} {s s' : Store}
    (h : Decoder.StartElement se un s = some (none, un', s')) (hf : SkipFramed un) :
    ∃ f, un'.stack = f :: un.stack ∧ SkipFramed un' := by
  unfold Decoder.StartElement at h
  split at h
  · split at h
    · cases h
      exact ⟨_, rfl, fun hs => (hf hs).imp fun g hg => ⟨.tail _ hg.1, hg.2⟩⟩
    · split at h
      · cases h
      · split at h
        · cases h
        · cases h
        · cases h
          exact ⟨_, rfl, fun hs => absurd hs ‹_›⟩
  · cases h
    exact ⟨_, rfl, fun _ => ⟨_, .head _, rfl⟩⟩

theorem endElement_frames {un un' : Decoder} {s s' : Store}
    (h : Decoder.EndElement un s = some (none, un', s')) (hf : SkipFramed un) :
    ∃ f, un.stack = f :: un'.stack ∧ SkipFramed un' := by
  unfold Decoder.EndElement at h
  split at h
  · cases h
  · cases h
    refine ⟨_, ‹_›, fun hs => ?_⟩
    -- a frame that does not turn skipping off leaves the one that does below it
    rename_i f rest hst
    cases hc : f.clearSkip <;> simp only [Restore.apply, hc] at hs ⊢
    · obtain ⟨g, hg, hgc⟩ := hf (by simpa using hs)
      rw [hst] at hg
      rcases List.mem_cons.mp hg with rfl | hg
      · simp [hc] at hgc
      · exact ⟨g, hg, hgc⟩
    · cases hs

theorem charData_frames {cd : String} {un un' : Decoder} {s s' : Store}
    (h : Decoder.CharData cd un s = some (none, un', s')) (hf : SkipFramed un) :
    un'.stack = un.stack ∧ SkipFramed un' := by
  rcases charData_cases h with
    ⟨-, -, rfl, -⟩ | ⟨hs, es, f, rest, -, -, ⟨_, -, he, -⟩ | ⟨-, -, rfl⟩⟩
  · exact ⟨rfl, hf⟩
  · cases he
  · exact ⟨rfl, fun h' => by simp [Restore.apply, hs] at h'⟩

/-- **The stack follows the open tags.** Over a run that raises nothing, the decoder holds
one frame per open tag, and skipping stays framed. -/
theorem feed_frames : ∀ (ts : List Token) {stk stk' : List Name} {un un' : Decoder}
    {s s' : Store}, feed ts un s = some (none, un', s') → openTags stk ts = some stk' →
    stk.length = un.stack.length → SkipFramed un →
    stk'.length = un'.stack.length ∧ SkipFramed un'
  | [], _, _, _, _, _, _, h, ho, hl, hf => by
    simp only [feed_nil, Option.some.injEq, Prod.mk.injEq] at h
    obtain ⟨-, rfl, -⟩ := h
    simp only [openTags, Option.some.injEq] at ho
    exact ho ▸ ⟨hl, hf⟩
  | t :: ts, stk, _, un, _, s, _, h, ho, hl, hf => by
    obtain ⟨un₁, s₁, hh, hrest⟩ := feed_cons_ok h
    cases t with
    | startElement se =>
      obtain ⟨f, hst, hf₁⟩ := startElement_frames hh hf
      exact feed_frames ts hrest (by simpa [openTags] using ho) (by simp [hst, hl]) hf₁
    | endElement n =>
      obtain ⟨f, hst, hf₁⟩ := endElement_frames hh hf
      replace hst : un.stack = f :: un₁.stack := hst
      rcases stk with _ | ⟨m, stk⟩
      · cases ho
      · simp only [openTags] at ho
        split at ho
        · exact feed_frames ts hrest ho (by simpa [hst] using hl) hf₁
        · cases ho
    | charData cd =>
      obtain ⟨hst, hf₁⟩ := charData_frames hh hf
      exact feed_frames ts hrest (by simpa [openTags] using ho) (hst ▸ hl) hf₁
    | comment | procInst =>
      cases hh
      exact feed_frames ts hrest (by simpa [openTags] using ho) hl hf
    | directive => cases hh

/-- `CharData` with skipping off reads the innermost frame: on an empty stack it panics. -/
theorem charData_empty {cd : String} {un : Decoder} {s : Store} (hs : un.skip = false)
    (hst : un.stack = []) : Decoder.CharData cd un s = none := by
  unfold Decoder.CharData
  split
  · simp_all
  · split <;> simp_all

end Decoder

/-! ## Character data around the root -/

/-- **Character data outside the root element panics.** The reader passes the decoder
every token, white space around the root element included. `CharData` reads the innermost
restore frame by `pop`, which indexes the stack at `len-1`. Before the first start tag the
stack is empty; after a well-bracketed document the decoder got through, every frame it
pushed has been popped and skipping is off. Either way the read panics. -/
theorem charData_outside_root (n : Nat) (ms : Collection) (cl : NameLookup) (s : Store)
    (cd : String) :
    (∀ ts, Decoder.feed (.charData cd :: ts) (Decoder.new n ms cl) s = none) ∧
    ∀ ts, WellBracketed ts → ∀ un' s',
      Decoder.feed ts (Decoder.new n ms cl) s = some (none, un', s') →
      Decoder.feed (ts ++ [.charData cd]) (Decoder.new n ms cl) s = none := by
  refine ⟨fun ts => ?_, fun ts hw un' s' h => ?_⟩
  · rw [Decoder.feed_cons, Decoder.handle_charData, Decoder.charData_empty rfl rfl]
  · obtain ⟨hl, hf⟩ := Decoder.feed_frames ts h hw rfl (fun h => by cases h)
    have hst : un'.stack = [] := List.length_eq_zero.mp (by simpa using hl.symm)
    have hs : un'.skip = false := by
      cases hsk : un'.skip
      · rfl
      · simpa [hst] using hf hsk
    simp only [Decoder.feed, TokenDecoder.feed_append] at h ⊢
    rw [h]
    simp [TokenDecoder.feed, TokenDecoder.handle, Decoder.tokenDecoder,
      Decoder.charData_empty hs hst]

/-- A collection with one module, namespace `urn:m`, whose one top-level node is the leaf
`x`. -/
def leafModules : Collection :=
  ⟨[("m", ⟨some "urn:m",
    ⟨.DirectoryEntry, "urn:m", [("x", ⟨.LeafEntry, "urn:m", []⟩)]⟩⟩)], true⟩

theorem charData_outside_root_leaf :
    WellBracketed [.startElement ⟨⟨"urn:m", "x"⟩, []⟩, .endElement ⟨"urn:m", "x"⟩] ∧
    ((∀ ts, Decoder.feed (.charData "\n" :: ts) (Decoder.new 0 leafModules .rfc6020)
        emptyDocument = none) ∧
      ∀ ts, WellBracketed ts → ∀ un' s',
        Decoder.feed ts (Decoder.new 0 leafModules .rfc6020) emptyDocument =
          some (none, un', s') →
        Decoder.feed (ts ++ [.charData "\n"]) (Decoder.new 0 leafModules .rfc6020)
          emptyDocument = none) :=
  ⟨by decide, charData_outside_root 0 leafModules .rfc6020 emptyDocument "\n"⟩

/-! ## Two inputs the decoder mishandles -/

/-- **An invalid element's content leaks into the tree.** In the unknown element `bad`,
the unknown element `bad2` pushes a frame that turns skipping off when it ends; the valid
`x` after it, still inside `bad`, is built under the document. Without `bad` the document
stays empty. -/
theorem decoder_skip_leak :
    (Decoder.feed [.startElement ⟨⟨"urn:m", "bad"⟩, []⟩,
        .startElement ⟨⟨"urn:m", "bad2"⟩, []⟩, .endElement ⟨"urn:m", "bad2"⟩,
        .startElement ⟨⟨"urn:m", "x"⟩, []⟩, .endElement ⟨"urn:m", "x"⟩,
        .endElement ⟨"urn:m", "bad"⟩]
        (Decoder.new 0 leafModules .rfc6020) emptyDocument).map
      (fun r => (r.1, r.2.1.Node, r.2.1.skip, r.2.2.firstChild 0, r.2.2.value 1)) =
      some (none, 0, false, some 1, some (.element ⟨"urn:m", "x"⟩ "")) ∧
    (Decoder.feed [] (Decoder.new 0 leafModules .rfc6020) emptyDocument).map
      (fun r => r.2.2.firstChild 0) = some none := by
  decide

/-- A collection with one module, namespace `urn:m`, whose container `a` holds the leaves
`b` and `c`. -/
def abModules : Collection :=
  ⟨[("m", ⟨some "urn:m", ⟨.DirectoryEntry, "urn:m", [("a", ⟨.DirectoryEntry, "urn:m",
    [("b", ⟨.LeafEntry, "urn:m", []⟩), ("c", ⟨.LeafEntry, "urn:m", []⟩)]⟩)]⟩⟩)],
    true⟩

/-- `<a><b>1<c>2</c></b></a>`: text inside the leaf `b`, then an element. -/
def textThenElement : List Token :=
  [.startElement ⟨⟨"urn:m", "a"⟩, []⟩, .startElement ⟨⟨"", "b"⟩, []⟩, .charData "1",
    .startElement ⟨⟨"", "c"⟩, []⟩, .charData "2", .endElement ⟨"", "c"⟩,
    .endElement ⟨"", "b"⟩, .endElement ⟨"urn:m", "a"⟩]

/-- **Text moves the cursor out of its element.** On `textThenElement` the decoder records
no error and builds `c` (node 4) under `a` (node 1); the Builder, keeping white space and
trimming nothing, builds it under `b` (node 2), where the input has it. -/
theorem decoder_text_then_element :
    (Decoder.feed textThenElement (Decoder.new 0 abModules .rfc6020) emptyDocument).map
      (fun r => (r.1, r.2.1.errors, r.2.2.parent 4)) = some (none, [], some 1) ∧
    (Builder.feed textThenElement (NewBuilder 0 [WithWhitespacePCData]) emptyDocument).map
      (fun r => (r.1, r.2.2.parent 4)) = some (none, some 2) := by
  decide

/-! ## Configuration -/

/-- `%v` of a `[]string`: the elements between brackets, separated by spaces. -/
def goSliceString (kv : List String) : String := "[" ++ " ".intercalate kv ++ "]"

/-- The keys whose value `Initialize` reads as the format. -/
def isFormatKey (k : String) : Bool := k = "name.resolver" ∨ k = "mediatype" ∨ k = "format"

/-- `strings.ToLower`, on the ASCII letters (`Char.toLower`); Go also lowers the other
upper-case letters of Unicode. -/
def ToLower (s : String) : String := ⟨s.data.map Char.toLower⟩

/-- The loop of `Initialize` over the pairs: the last key read, and the format, the
lowercased value of the last recognized key. -/
def initLoop : List String → String × String → String × String
  | k :: v :: rest, (_, format) => initLoop rest (k, if isFormatKey k then ToLower v else format)
  | _, acc => acc

/-- The switch of `Initialize` on the format: the resolver it selects, `none` for the
`default` branch. -/
def formatLookup (format : String) : Option NameLookup :=
  if format = "rfc7951" ∨ format = "application/yang-data+json" ∨ format = "json" then
    some .rfc7951
  else if format = "default" ∨ format = "rfc6020" ∨ format = "application/yang-data+xml" ∨
      format = "xml" then some .rfc6020
  else none

namespace Decoder

/-- `un.Initialize(kv...)`: the error it returns, and the decoder it leaves. The resolver is
set to `rfc6020Lookup` before the switch, so a failed switch leaves that one. -/
def Initialize (kv : List String) (un : Decoder) : Option Error × Decoder :=
  if kv.length % 2 ≠ 0 then
    (some (.new ("called with odd number of arguments: " ++ goSliceString kv)), un)
  else
    let r := initLoop kv ("", "")
    match formatLookup r.2 with
    | some l => (none, { un with childname := l })
    | none =>
      (some (.new ("unsupported '" ++ r.1 ++ "' key value: " ++ r.2)),
        { un with childname := .rfc6020 })

/-- `tdInit(args...)` of an `Unmarshaler` whose TokenDecoder is the decoder: its own
`InitializeArgs` when they are a non-empty even list, else `args`. -/
def tdInit (initializeArgs args : List String) (un : Decoder) : Option Error × Decoder :=
  if 0 < initializeArgs.length ∧ initializeArgs.length % 2 = 0 then
    un.Initialize initializeArgs
  else un.Initialize args

end Decoder

/-- The argument list of the pairs `ps`, each key before its value. -/
def kvList (ps : List (String × String)) : List String := ps.flatMap fun p => [p.1, p.2]

theorem kvList_length_even (ps : List (String × String)) : (kvList ps).length % 2 = 0 := by
  induction ps with
  | nil => rfl
  | cons p ps ih =>
    simp only [kvList, List.flatMap_cons, List.length_append] at ih ⊢
    simp only [List.length_cons, List.length_nil]
    omega

theorem initLoop_append (ps qs : List (String × String)) (acc : String × String) :
    initLoop (kvList (ps ++ qs)) acc = initLoop (kvList qs) (initLoop (kvList ps) acc) := by
  induction ps generalizing acc with
  | nil => rfl
  | cons p ps ih => exact ih _

/-- Pairs with no recognized key leave the format as it was and the last key read. -/
theorem initLoop_unrecognized : ∀ (ps : List (String × String)) (k f : String),
    (∀ p ∈ ps, isFormatKey p.1 = false) →
      initLoop (kvList ps) (k, f) = ((ps.getLast?.map (·.1)).getD k, f)
  | [], _, _, _ => rfl
  | p :: ps, k, f, h => by
    have hp := h p (List.mem_cons_self _ _)
    rw [show initLoop (kvList (p :: ps)) (k, f) = initLoop (kvList ps) (p.1, f) by
      show initLoop (p.1 :: p.2 :: kvList ps) (k, f) = _
      simp only [initLoop, hp, Bool.false_eq_true, if_false]]
    rw [initLoop_unrecognized ps p.1 f fun q hq => h q (List.mem_cons_of_mem _ hq),
      List.getLast?_cons]
    cases ps.getLast? <;> rfl

/-- The last two pairs recognized: the format is the second one's value, lowered. -/
theorem initLoop_last_two (ps : List (String × String)) (acc : String × String)
    {k₁ v₁ k₂ v₂ : String} (h₂ : isFormatKey k₂ = true) :
    initLoop (kvList (ps ++ [(k₁, v₁), (k₂, v₂)])) acc = (k₂, ToLower v₂) := by
  rw [initLoop_append]
  simp [kvList, initLoop, h₂]

/-- **`Initialize` depends on the order of the pairs, and fails by default.** The loop keeps
the value of the last recognized key, so two recognized pairs that select different
resolvers select the second one's, in either order. And the switch has no branch for the
empty format: a list with no recognized key, the empty one included, fails with
`unsupported '<last key>' key value: `, where the documentation has the pass-through
default. The empty list is what `readerXML.ReadFrom` passes when no `InitializeArgs` are
set. -/
theorem initialize_order_dependent (un : Decoder) :
    (∀ ps : List (String × String), (∀ p ∈ ps, isFormatKey p.1 = false) →
      un.Initialize (kvList ps) =
        (some (.new ("unsupported '" ++ (ps.getLast?.map (·.1)).getD "" ++ "' key value: ")),
          { un with childname := .rfc6020 })) ∧
    un.tdInit [] [] = (some (.new "unsupported '' key value: "), { un with childname := .rfc6020 }) ∧
    ∀ (ps : List (String × String)) (k₁ v₁ k₂ v₂ : String) (l₁ l₂ : NameLookup),
      isFormatKey k₁ = true → isFormatKey k₂ = true →
      formatLookup (ToLower v₁) = some l₁ → formatLookup (ToLower v₂) = some l₂ →
      un.Initialize (kvList (ps ++ [(k₁, v₁), (k₂, v₂)])) = (none, { un with childname := l₂ }) ∧
      un.Initialize (kvList (ps ++ [(k₂, v₂), (k₁, v₁)])) = (none, { un with childname := l₁ }) := by
  have hlookup : formatLookup "" = none := by decide
  have hnone : ∀ ps : List (String × String), (∀ p ∈ ps, isFormatKey p.1 = false) →
      un.Initialize (kvList ps) =
        (some (.new ("unsupported '" ++ (ps.getLast?.map (·.1)).getD "" ++ "' key value: ")),
          { un with childname := .rfc6020 }) := fun ps h => by
    simp [Decoder.Initialize, kvList_length_even, initLoop_unrecognized ps "" "" h, hlookup]
  refine ⟨hnone, by simpa [Decoder.tdInit, kvList] using hnone [] (by simp),
    fun ps k₁ v₁ k₂ v₂ l₁ l₂ h₁ h₂ hl₁ hl₂ => ⟨?_, ?_⟩⟩
  · simp [Decoder.Initialize, kvList_length_even, initLoop_last_two ps _ h₂, hl₂]
  · simp [Decoder.Initialize, kvList_length_even, initLoop_last_two ps _ h₁, hl₁]

theorem initialize_order_dependent_format :
    isFormatKey "format" = true ∧ formatLookup (ToLower "json") = some .rfc7951 ∧
    formatLookup (ToLower "xml") = some .rfc6020 ∧
    ((Decoder.new 0 leafModules .rfc6020).Initialize
        (kvList ([] ++ [("format", "json"), ("format", "xml")])) =
        (none, { Decoder.new 0 leafModules .rfc6020 with childname := .rfc6020 }) ∧
      (Decoder.new 0 leafModules .rfc6020).Initialize
        (kvList ([] ++ [("format", "xml"), ("format", "json")])) =
        (none, { Decoder.new 0 leafModules .rfc6020 with childname := .rfc7951 })) :=
  have hj : formatLookup (ToLower "json") = some .rfc7951 := by decide
  have hx : formatLookup (ToLower "xml") = some .rfc6020 := by decide
  ⟨rfl, hj, hx, (initialize_order_dependent _).2.2 [] _ _ _ _ _ _ rfl rfl hj hx⟩

end Opr8.Datastore
