import Opr8.Datastore.Decoder

/-!
# Opr8 — the decoder over balanced input, and the end of the stream

Every frame the decoder pushes holds the two cursors of the moment it was pushed, and the
end tag that pops it puts them back. So over the events of an element, from its start tag
to its end tag, the decoder ends with the cursors and the stack it began with, whatever
the element held (`feed_tokens`); character data inside it moves the node cursor, but to
the frame's own cursor, and the stack stays. From an empty stack a balanced sequence thus
leaves the node cursor on the node the decoder began on (`feed_topLevel`).

`End(io.EOF)` reports success when the node cursor has no parent, not when the stack is
empty. No handler writes the parent link of a node that was there before it ran (`Grows`,
`feed_grows`), so on a root without a parent `End` succeeds whenever the cursor is back on
the root, which a start tag that is rejected never leaves, and character data directly
inside an element brings back at once.

Main results:

* `feed_grows` — a run only writes the parent links of the nodes it creates.
* `feed_tokens`, `feed_topLevel` — the restore stack over balanced input.
* `decoder_end_unclosed` — after every balanced sequence `End(io.EOF)` succeeds; it
  succeeds as well when the sequence goes on with a start tag that is rejected, or with a
  start tag and character data, and the element is never closed.
-/

namespace Opr8.Datastore

open Opr8.Dom Xml

/-! ## What a run writes -/

/-- `s'` extends `s`: it has every node of `s`, with the same parent link. -/
def Grows (s s' : Store) : Prop := s.next ≤ s'.next ∧ ∀ q < s.next, s'.parent q = s.parent q

theorem Grows.refl (s : Store) : Grows s s := ⟨le_rfl, fun _ _ => rfl⟩

theorem Grows.trans {s₁ s₂ s₃ : Store} (h₁ : Grows s₁ s₂) (h₂ : Grows s₂ s₃) : Grows s₁ s₃ :=
  ⟨h₁.1.trans h₂.1, fun q hq => (h₂.2 q (by have := h₁.1; omega)).trans (h₁.2 q hq)⟩

theorem grows_push (s : Store) (v : Value) : Grows s (s.push v) :=
  ⟨by simp, fun q hq => by simp [Function.update_noteq (ne_of_lt hq)]⟩

theorem grows_appendSibling {k : ListKind} {c p : Nat} {s s' : Store}
    (h : appendSibling k c p s = some s') : Grows s s' :=
  ⟨(appendSibling_next h).ge, fun q _ => appendSibling_parent h q⟩

theorem grows_appendAttrs (n : Nat) : ∀ (attrs : List Attr) {s s' : Store},
    appendAttrs n attrs s = some s' → Grows s s'
  | [], _, _, h => by
    cases h
    exact Grows.refl _
  | a :: as, s, _, h => by
    obtain ⟨s₁, h₁, h₂⟩ := Option.bind_eq_some.mp h
    exact (grows_push s _).trans ((grows_appendSibling h₁).trans (grows_appendAttrs n as h₂))

theorem grows_newStartElement {se : StartElement} {s s' : Store} {c : Nat}
    (h : newStartElement se s = some (c, s')) : c = s.next ∧ Grows s s' := by
  obtain ⟨s₁, h₁, h₂⟩ := Option.map_eq_some'.mp h
  cases h₂
  exact ⟨rfl, (grows_push s _).trans (grows_appendAttrs _ _ h₁)⟩

/-- Linking a node created after `s₀` writes no parent link of a node of `s₀`. -/
theorem grows_appendChild {s₀ s s' : Store} {p c : Nat} {e : Option Error} (hg : Grows s₀ s)
    (hc : s₀.next ≤ c) (h : AppendChild p c s = some (e, s')) : Grows s₀ s' := by
  unfold AppendChild at h
  split at h
  · cases h
    exact hg
  · obtain ⟨s₁, h₁, h₂⟩ := Option.map_eq_some'.mp h
    cases h₂
    refine ⟨hg.1.trans (by simp [appendSibling_next h₁]), fun q hq => ?_⟩
    rw [appendSibling_parent h₁, Store.setParent_parent, Function.update_noteq (by omega)]
    exact hg.2 q hq

namespace Decoder

theorem handle_grows {t : Token} {un un' : Decoder} {s s' : Store} {e : Option Error}
    (h : handle t un s = some (e, un', s')) : Grows s s' := by
  cases t with
  | startElement se =>
    simp only [handle_startElement, Decoder.StartElement] at h
    split at h
    · split at h
      · cases h
        exact Grows.refl _
      · split at h
        · cases h
        · rename_i c s₁ hn
          obtain ⟨rfl, hg⟩ := grows_newStartElement hn
          split at h <;> cases h
          all_goals exact grows_appendChild hg le_rfl ‹_›
    · cases h
      exact Grows.refl _
  | endElement n =>
    simp only [handle_endElement, Decoder.EndElement] at h
    split at h <;> cases h
    exact Grows.refl _
  | charData cd =>
    rcases charData_cases h with ⟨-, -, -, rfl⟩ | ⟨-, -, -, -, -, -, ⟨_, hA, -⟩ | ⟨hA, -⟩⟩
    · exact Grows.refl _
    all_goals exact grows_appendChild (grows_push s _) le_rfl hA
  | comment | procInst | directive =>
    cases h
    exact Grows.refl _

/-- **A run writes only the parent links of the nodes it creates.** -/
theorem feed_grows : ∀ (ts : List Token) {un un' : Decoder} {s s' : Store} {e : Option Error},
    feed ts un s = some (e, un', s') → Grows s s'
  | [], _, _, _, _, _, h => by
    cases h
    exact Grows.refl _
  | t :: ts, un, _, s, _, _, h => by
    rw [feed_cons] at h
    rcases hh : handle t un s with _ | ⟨_ | e₁, un₁, s₁⟩ <;> rw [hh] at h
    · cases h
    · exact (handle_grows hh).trans (feed_grows ts h)
    · cases h
      exact handle_grows hh

/-! ## Frames over balanced input -/

/-- A start tag that goes through pushes the frame of the cursors it found; it moves the
node cursor only to an element it creates, which leaves skipping as it was. -/
theorem startElement_push {se : Xml.StartElement} {un un' : Decoder} {s s' : Store}
    (h : Decoder.StartElement se un s = some (none, un', s')) :
    ∃ b, un'.stack = ⟨un.schema, un.Node, b⟩ :: un.stack ∧
      (un'.Node = un.Node ∨ un'.skip = un.skip) := by
  unfold Decoder.StartElement at h
  split at h
  · split at h
    · cases h
      exact ⟨_, rfl, .inl rfl⟩
    · split at h
      · cases h
      · split at h <;> cases h
        exact ⟨_, rfl, .inr rfl⟩
  · cases h
    exact ⟨_, rfl, .inl rfl⟩

/-- An end tag that goes through pops a frame and runs it. -/
theorem endElement_eq {un un' : Decoder} {s s' : Store} {e : Option Error}
    (h : Decoder.EndElement un s = some (e, un', s')) :
    ∃ f rest, un.stack = f :: rest ∧ un' = f.apply { un with stack := rest } := by
  unfold Decoder.EndElement at h
  split at h
  · cases h
  · cases h
    exact ⟨_, _, ‹_›, rfl⟩

theorem feed_append_ok {xs ys : List Token} {un un' : Decoder} {s s' : Store}
    (h : feed (xs ++ ys) un s = some (none, un', s')) :
    ∃ un₁ s₁, feed xs un s = some (none, un₁, s₁) ∧ feed ys un₁ s₁ = some (none, un', s') := by
  simp only [feed, TokenDecoder.feed_append] at h
  rcases hx : tokenDecoder.feed xs (un, s) with _ | ⟨_ | e, un₁, s₁⟩ <;> rw [hx] at h
  · cases h
  · exact ⟨un₁, s₁, hx, h⟩
  · cases h

theorem feed_single_ok {t : Token} {un un' : Decoder} {s s' : Store}
    (h : feed [t] un s = some (none, un', s')) : handle t un s = some (none, un', s') := by
  obtain ⟨un₁, s₁, hh, hrest⟩ := feed_cons_ok h
  cases hrest
  exact hh

/-- Skipping is off at an empty stack. -/
theorem SkipFramed.skip_eq {un : Decoder} (hf : SkipFramed un) (hst : un.stack = []) :
    un.skip = false := by
  cases hs : un.skip
  · rfl
  · simpa [hst] using hf hs

mutual
/-- **The events of one tree leave the stack as it was**, and skipping framed; those of an
element put both cursors back, through the frame its start tag pushed. -/
theorem feed_tokens : ∀ (t : TokenTree) {un un' : Decoder} {s s' : Store},
    feed t.tokens un s = some (none, un', s') → SkipFramed un →
      un'.stack = un.stack ∧ SkipFramed un' ∧
        ∀ se en inner, t = .element se en inner → un'.Node = un.Node ∧ un'.schema = un.schema
  | .element se en inner, un, un', s, s', h, hf => by
    obtain ⟨un₁, s₁, h₁, h₂⟩ := feed_cons_ok h
    obtain ⟨un₂, s₂, h₂, h₃⟩ := feed_append_ok h₂
    obtain ⟨b, hst₁, -⟩ := startElement_push h₁
    obtain ⟨-, -, hf₁⟩ := startElement_frames h₁ hf
    obtain ⟨hst₂, hf₂⟩ := feed_tokensList inner h₂ hf₁
    have h₃ := feed_single_ok h₃
    obtain ⟨-, -, hf'⟩ := endElement_frames h₃ hf₂
    obtain ⟨f, rest, hst, rfl⟩ := endElement_eq h₃
    obtain ⟨rfl, rfl⟩ := List.cons_eq_cons.mp (hst.symm.trans (hst₂.trans hst₁))
    exact ⟨rfl, hf', fun _ _ _ _ => ⟨rfl, rfl⟩⟩
  | .charData cd, _, _, _, _, h, hf =>
    have ⟨hst, hf'⟩ := charData_frames (feed_single_ok h) hf
    ⟨hst, hf', fun _ _ _ h => by cases h⟩
  | .comment _, _, _, _, _, h, hf => by
    cases feed_single_ok h
    exact ⟨rfl, hf, fun _ _ _ h => by cases h⟩
  | .procInst _, _, _, _, _, h, hf => by
    cases feed_single_ok h
    exact ⟨rfl, hf, fun _ _ _ h => by cases h⟩

/-- The events of a forest leave the stack as it was, and skipping framed. -/
theorem feed_tokensList : ∀ (f : List TokenTree) {un un' : Decoder} {s s' : Store},
    feed (TokenTree.tokensList f) un s = some (none, un', s') → SkipFramed un →
      un'.stack = un.stack ∧ SkipFramed un'
  | [], _, _, _, _, h, hf => by
    cases h
    exact ⟨rfl, hf⟩
  | t :: ts, _, _, _, _, h, hf => by
    obtain ⟨un₁, s₁, h₁, h₂⟩ := feed_append_ok h
    obtain ⟨hst₁, hf₁, -⟩ := feed_tokens t h₁ hf
    obtain ⟨hst₂, hf₂⟩ := feed_tokensList ts h₂ hf₁
    exact ⟨hst₂.trans hst₁, hf₂⟩
end

/-- **A balanced sequence from an empty stack** leaves both cursors where they began, the
stack empty and skipping off: at the top level every event is an element, a comment or a
processing instruction, since character data there pops an empty stack. -/
theorem feed_topLevel : ∀ (f : List TokenTree) {un un' : Decoder} {s s' : Store},
    feed (TokenTree.tokensList f) un s = some (none, un', s') → un.stack = [] →
      un.skip = false →
      un'.Node = un.Node ∧ un'.schema = un.schema ∧ un'.stack = [] ∧ un'.skip = false
  | [], _, _, _, _, h, hst, hs => by
    cases h
    exact ⟨rfl, rfl, hst, hs⟩
  | t :: ts, un, un', s, _, h, hst, hs => by
    obtain ⟨un₁, s₁, h₁, h₂⟩ := feed_append_ok h
    have hf : SkipFramed un := fun h => by simp [hs] at h
    have hrest : un₁.Node = un.Node → un₁.schema = un.schema → un₁.stack = [] →
        un'.Node = un.Node ∧ un'.schema = un.schema ∧ un'.stack = [] ∧ un'.skip = false :=
      fun hN hS hst₁ => by
        obtain ⟨hN', hS', hst', hs'⟩ := feed_topLevel ts h₂ hst₁
          ((feed_tokens t h₁ hf).2.1.skip_eq hst₁)
        exact ⟨hN'.trans hN, hS'.trans hS, hst', hs'⟩
    cases t with
    | element se en inner =>
      obtain ⟨hst₁, -, hel⟩ := feed_tokens _ h₁ hf
      obtain ⟨hN, hS⟩ := hel se en inner rfl
      exact hrest hN hS (hst₁.trans hst)
    | charData cd =>
      have h₁ := feed_single_ok h₁
      rw [handle_charData, charData_empty hs hst] at h₁
      cases h₁
    | comment c =>
      cases feed_single_ok h₁
      exact hrest rfl rfl hst
    | procInst pi =>
      cases feed_single_ok h₁
      exact hrest rfl rfl hst

end Decoder

/-! ## The end of the stream -/

/-- `End(io.EOF)` on a decoder whose cursor is a node without a parent. -/
theorem end_eof_of_root {un : Decoder} {s : Store} (h : s.parent un.Node = none) :
    Decoder.End (some .eof) un s = none := by
  simp [Decoder.End, h]

/-- **`End` tests the cursor, not the stack.** Let a decoder begin on a node `r` without a
parent. After every balanced sequence it gets through, `End(io.EOF)` succeeds. But it also
succeeds when that sequence is followed by a start tag the decoder rejects, which leaves
the cursor on `r`, or by a start tag and character data, whose frame puts the cursor back
on `r` at once; either way the element is never closed, where the documentation has
`io.ErrUnexpectedEOF`. -/
theorem decoder_end_unclosed (r : Nat) (ms : Collection) (cl : NameLookup) (s : Store)
    (hr : r < s.next) (hp : s.parent r = none) (f : List TokenTree) (un' : Decoder)
    (s' : Store)
    (hf : Decoder.feed (TokenTree.tokensList f) (Decoder.new r ms cl) s = some (none, un', s')) :
    Decoder.End (some .eof) un' s' = none ∧
    (∀ (se : Xml.StartElement) (err : Error), un'.resolve se.name = .error err →
      ∃ un'', Decoder.feed (TokenTree.tokensList f ++ [.startElement se])
          (Decoder.new r ms cl) s = some (none, un'', s') ∧
        Decoder.End (some .eof) un'' s' = none) ∧
    ∀ (se : Xml.StartElement) (cd : String) (un'' : Decoder) (s'' : Store),
      Decoder.feed (TokenTree.tokensList f ++ [.startElement se, .charData cd])
          (Decoder.new r ms cl) s = some (none, un'', s'') →
        Decoder.End (some .eof) un'' s'' = none := by
  obtain ⟨hN, -, hst, hsk⟩ := Decoder.feed_topLevel f hf rfl rfl
  have hg := Decoder.feed_grows _ hf
  have hroot : s'.parent un'.Node = none := by
    rw [hN]
    exact (hg.2 r hr).trans hp
  refine ⟨end_eof_of_root hroot, fun se err hrej => ?_, fun se cd un'' s'' h => ?_⟩
  · refine ⟨_, ?_, @end_eof_of_root { un' with
      errors := un'.errors ++ [err], skip := true,
      stack := { schema := un'.schema, node := un'.Node, clearSkip := true } :: un'.stack } _ hroot⟩
    simp only [Decoder.feed, TokenDecoder.feed_append] at hf ⊢
    rw [hf]
    simp [TokenDecoder.feed, TokenDecoder.handle, Decoder.tokenDecoder, Decoder.StartElement, hrej]
  · obtain ⟨un₁, s₁, h₁, h₂⟩ := Decoder.feed_append_ok h
    rw [hf] at h₁
    obtain ⟨rfl, rfl⟩ : un₁ = un' ∧ s₁ = s' := by simpa using h₁.symm
    obtain ⟨un₂, s₂, h₂, h₃⟩ := Decoder.feed_cons_ok h₂
    have h₃ := Decoder.feed_single_ok h₃
    have hg' := (hg.trans (Decoder.handle_grows h₂)).trans (Decoder.handle_grows h₃)
    obtain ⟨b, hst₂, hmove⟩ := Decoder.startElement_push h₂
    -- the text is skipped, on a cursor that a start tag turning skipping on leaves on `r`,
    -- or it runs the start tag's frame, whose cursor is `r`
    have hN₃ : un''.Node = r := by
      rcases Decoder.charData_cases h₃ with ⟨hs₂, -, rfl, -⟩ | ⟨-, es, g, rest, -, hg₂, hcase⟩
      · rcases hmove with hmove | hmove
        · exact hmove.trans hN
        · rw [hs₂, hsk] at hmove
          cases hmove
      · rw [hst₂] at hg₂
        obtain ⟨rfl, -⟩ := List.cons_eq_cons.mp hg₂
        rcases hcase with ⟨_, -, he, -⟩ | ⟨-, -, rfl⟩
        · cases he
        · exact hN
    exact end_eof_of_root (by rw [hN₃]; exact (hg'.2 r hr).trans hp)

/-- The leaf `x` of `leafModules`, and the unknown `y`, each left open before `End(io.EOF)`:
the start tag of `y` is rejected, and the one of `x` is given text; neither run reports an
error, each leaves its element's frame on the stack, and `End` succeeds. -/
theorem decoder_end_unclosed_leaf :
    0 < emptyDocument.next ∧ emptyDocument.parent 0 = none ∧
    Decoder.feed (TokenTree.tokensList []) (Decoder.new 0 leafModules .rfc6020) emptyDocument =
      some (none, Decoder.new 0 leafModules .rfc6020, emptyDocument) ∧
    Decoder.End (some .eof) (Decoder.new 0 leafModules .rfc6020) emptyDocument = none ∧
    (∃ err, (Decoder.new 0 leafModules .rfc6020).resolve ⟨"urn:m", "y"⟩ = .error err ∧
      ∃ un'', Decoder.feed [.startElement ⟨⟨"urn:m", "y"⟩, []⟩]
          (Decoder.new 0 leafModules .rfc6020) emptyDocument = some (none, un'', emptyDocument) ∧
        Decoder.End (some .eof) un'' emptyDocument = none) ∧
    (Decoder.feed [.startElement ⟨⟨"urn:m", "y"⟩, []⟩] (Decoder.new 0 leafModules .rfc6020)
        emptyDocument).map (fun r => r.2.1.stack.length) = some 1 ∧
    (∃ un'' s'', Decoder.feed [.startElement ⟨⟨"urn:m", "x"⟩, []⟩, .charData "1"]
        (Decoder.new 0 leafModules .rfc6020) emptyDocument = some (none, un'', s'') ∧
      Decoder.End (some .eof) un'' s'' = none) ∧
    (Decoder.feed [.startElement ⟨⟨"urn:m", "x"⟩, []⟩, .charData "1"]
        (Decoder.new 0 leafModules .rfc6020) emptyDocument).map
      (fun r => (r.2.1.errors, r.2.1.stack.length)) = some ([], 1) :=
  have h := decoder_end_unclosed 0 leafModules .rfc6020 emptyDocument (by decide) rfl [] _ _ rfl
  ⟨by decide, rfl, rfl, h.1, ⟨_, rfl, h.2.1 _ _ rfl⟩, by decide, ⟨_, _, rfl, h.2.2 ⟨⟨"urn:m", "x"⟩, []⟩ "1" _ _ rfl⟩,
    by decide⟩

/-! ## The root -/

/-- `un.Root()`: the loop of the Builder's `Root()`, through `Parent()`, which reads the
same link. -/
def Decoder.Root (un : Decoder) (s : Store) : Option (Option Nat) :=
  s.rootLoop s.next (some un.Node)

/-- **`Root()` is the node the decoder began on.** Let a decoder begin on a node `r`
without a parent. After every balanced sequence it gets through, `Root()` answers `r`, as
the package documentation has the caller rely on: the cursor is back on `r`, and no
handler wrote `r`'s parent link. -/
theorem decoder_root (r : Nat) (ms : Collection) (cl : NameLookup) (s : Store)
    (hr : r < s.next) (hp : s.parent r = none) (f : List TokenTree) (un' : Decoder)
    (s' : Store)
    (hf : Decoder.feed (TokenTree.tokensList f) (Decoder.new r ms cl) s = some (none, un', s')) :
    un'.Root s' = some (some r) := by
  obtain ⟨hN, -⟩ := Decoder.feed_topLevel f hf rfl rfl
  have hg := Decoder.feed_grows _ hf
  obtain ⟨k, hk⟩ : ∃ k, s'.next = k + 1 := ⟨s'.next - 1, by have := hg.1; omega⟩
  simp [Decoder.Root, hk, Store.rootLoop, hN, Decoder.new, (hg.2 r hr).trans hp]

theorem decoder_root_leaf :
    0 < emptyDocument.next ∧ emptyDocument.parent 0 = none ∧
    ∃ un' s', Decoder.feed (TokenTree.tokensList [.element ⟨⟨"urn:m", "x"⟩, []⟩ ⟨"urn:m", "x"⟩ []])
        (Decoder.new 0 leafModules .rfc6020) emptyDocument = some (none, un', s') ∧
      un'.Root s' = some (some 0) :=
  ⟨by decide, rfl, _, _, rfl,
    decoder_root 0 leafModules .rfc6020 emptyDocument (by decide) rfl
      [.element ⟨⟨"urn:m", "x"⟩, []⟩ ⟨"urn:m", "x"⟩ []] _ _ rfl⟩

end Opr8.Datastore
