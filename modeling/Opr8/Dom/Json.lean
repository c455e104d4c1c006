import Opr8.Dom.Builder

/-!
# Opr8 — the JSON bridge

`JSONDecoder` feeds a `TokenDecoder` from a JSON text, so that the consumers that build
documents from XML build them from JSON too. A member `k: v` becomes an element named
after `k` (`jsTagToName`): a scalar is the element's text, an object its children, and an
array repeats the element once per item. The decoder is a loop over state functions
(`jsDecodeStart`, `jsDecodeObject`, `jsDecodeArray`), each of which reads tokens, makes
TokenDecoder calls and returns the next state function; an object or array that is entered
pushes the state to resume, and its key, on an explicit stack.

The model takes the tokens `encoding/json` yields, with `UseNumber` on as both callers set
it, and the error its `Token` returns once they run out. `JValue.tokens` lists the tokens of
a JSON value.

The abstract side is a structural recursion over the value, `membersRun`: the calls the
decoder makes, said member by member. `JsCtx` says where an object being decoded sits, and
so what the stack holds, which tokens follow the object, and what the recursion still owes
once it is done (`JsCtx.owed`); by induction on the fuel, every configuration of that shape
runs the recursion (`machine`).

Main results:

* `runJSDecoder_fuel` — every state call that goes on reads a token, so `Run`'s bound on the
  number of calls is never reached.
* `run_object` — **the explicit stack is the recursion**: on a top-level object, `Run` makes
  the TokenDecoder calls of `membersRun` and ends with what they return.
* `membersRun_eq_feed` — with non-empty keys and no array directly inside an array, the
  recursion feeds the TokenDecoder the events `jsonFields` lists.
* `run_eq_fields` — a recording TokenDecoder sees exactly `jsonFields` of a top-level object;
  an array directly inside an array makes `Run` fail.
* `run_emptyKey_unclosed` — an object under the empty key, and an object in a top-level
  array, are opened and never closed.
* `run_cut_after_key` — a reader error after a key is dropped: `bail` is passed the nil
  error of the key's `Token`, and `Run` ends without error.
-/

namespace Opr8.Dom

open Xml

variable {σ : Type}

/-! ## Tokens and values -/

/-- A scalar as `encoding/json`'s `Token` yields it with `UseNumber` on: `nil`, a `bool`, a
`json.Number` literal, a `string`. No `float64` arrives. -/
inductive JsonScalar where
  | null
  | bool (b : Bool)
  | number (lit : String)
  | string (s : String)
deriving DecidableEq, Repr

/-- `json.Token`: a delimiter (`json.Delim`) or a scalar. -/
inductive JsonToken where
  | delim (c : Char)
  | scalar (s : JsonScalar)
deriving DecidableEq, Repr

/-- The opening brace, by its code point. -/
def lbrace : Char := '\x7b'

/-- The closing brace, by its code point. -/
def rbrace : Char := '\x7d'

/-- The closing delimiters, before which `More` is false. -/
def JsonToken.closes : JsonToken → Bool
  | .delim c => c == ']' || c == rbrace
  | .scalar _ => false

/-- The value `decode` is given for a scalar: the string itself, `%v` of a bool,
`Number.String()`, and the empty string for `nil`. -/
def JsonScalar.text : JsonScalar → String
  | .null => ""
  | .bool b => toString b
  | .number lit => lit
  | .string s => s

/-- `%T` of a token. -/
def JsonToken.goType : JsonToken → String
  | .delim _ => "json.Delim"
  | .scalar .null => "<nil>"
  | .scalar (.bool _) => "bool"
  | .scalar (.number _) => "json.Number"
  | .scalar (.string _) => "string"

/-- `%v` of a token: a `Delim` prints as its character. -/
def JsonToken.goValue : JsonToken → String
  | .delim c => c.toString
  | .scalar .null => "<nil>"
  | .scalar s => s.text

/-- `%#v` of a token: a `Delim`, a rune, prints its code point; a `json.Number` prints
quoted. No message quotes a string token, so no escaping is modelled. -/
def JsonToken.goSyntax : JsonToken → String
  | .delim c => toString c.toNat
  | .scalar .null => "<nil>"
  | .scalar (.bool b) => toString b
  | .scalar (.number lit) => "\"" ++ lit ++ "\""
  | .scalar (.string s) => "\"" ++ s ++ "\""

/-- A JSON value, the members of an object in the order of the text. -/
inductive JValue where
  | scalar (s : JsonScalar)
  | array (es : List JValue)
  | object (ms : List (String × JValue))

mutual
/-- The tokens `Token` yields for a value; commas and colons are not tokens. -/
def JValue.tokens : JValue → List JsonToken
  | .scalar s => [.scalar s]
  | .array es => .delim '[' :: elemsTokens es ++ [.delim ']']
  | .object ms => .delim lbrace :: membersTokens ms ++ [.delim rbrace]

/-- The tokens of array elements. -/
def elemsTokens : List JValue → List JsonToken
  | [] => []
  | e :: es => e.tokens ++ elemsTokens es

/-- The tokens of object members: each key, then its value. -/
def membersTokens : List (String × JValue) → List JsonToken
  | [] => []
  | (k, v) :: ms => .scalar (.string k) :: v.tokens ++ membersTokens ms
end

/-! ## The decoder -/

/-- `jsTagToName`: a key `space:local` split at its first colon when that colon is not the
key's first character; any other key is a local name. -/
def jsTagToName (input : String) : Name :=
  match input.data.span (fun c => c != ':') with
  | (c :: space, _ :: lcl) => ⟨⟨c :: space⟩, ⟨lcl⟩⟩
  | _ => ⟨"", input⟩

/-- `xmlNameToTag`: the key a name is written under, `space:local`, or the local name when
there is no namespace. -/
def xmlNameToTag (n : Name) : String :=
  let tag := n.space
  let tag := if tag ≠ "" then tag ++ ":" else tag
  tag ++ n.localName

/-- The state functions (`jsonDecoderFn`; `nil` is `none`). -/
inductive JsonDecoderFn where
  | start
  | object
  | array
deriving DecidableEq, Repr

/-- `jdState`: the state function to resume and the key it resumes under. -/
structure JdState where
  fn : Option JsonDecoderFn
  key : String
deriving DecidableEq, Repr

/-- `jdStack.pop` on the stack as a list, top first (`push` is `::`): the top frame, or the
zero `jdState` when the stack is empty. -/
def JdStack.pop : List JdState → JdState × List JdState
  | [] => (⟨none, ""⟩, [])
  | j :: s => (j, s)

/-- `JSONDecoder` but for its `json.Decoder`'s unread tokens, which the state functions take
as an argument: the error that `Token` returns once they run out (`io.EOF` after a whole
text), the error `bail` sets, the stack, and the TokenDecoder's state. -/
structure JSONDecoder (σ : Type) where
  readErr : Error
  error : Option Error
  stack : List JdState
  st : σ

/-- What a state call leaves: the next state function (`nil` ends the loop), the unread
tokens and the decoder; `none` when the TokenDecoder panicked. -/
abbrev JsStep (σ : Type) := Option (Option JsonDecoderFn × List JsonToken × JSONDecoder σ)

namespace JSONDecoder

/-- The decoder both callers build: no error and an empty stack. -/
def init (readErr : Error) (st : σ) : JSONDecoder σ := ⟨readErr, none, [], st⟩

/-- `ContextObject(name)`: push a frame that resumes `jsDecodeObject` under the key of
`name`, so that the object decoded next is closed as that element. -/
def ContextObject (d : JSONDecoder σ) (name : Name) : JSONDecoder σ :=
  { d with stack := ⟨some .object, xmlNameToTag name⟩ :: d.stack }

/-- `bail`: record the error and end the loop. -/
def bail (d : JSONDecoder σ) (err : Option Error) (ts : List JsonToken) : JsStep σ :=
  some (none, ts, { d with error := err })

/-- `if err != nil { return d.bail(err) }` after a TokenDecoder call that returned `r`;
otherwise `k` goes on from the TokenDecoder's new state. -/
def check (d : JSONDecoder σ) (ts : List JsonToken) (r : Option (Option Error × σ))
    (k : σ → JsStep σ) : JsStep σ :=
  match r with
  | none => none
  | some (some e, st) => { d with st := st }.bail (some e) ts
  | some (none, st) => k st

end JSONDecoder

/-- The error of `jsDecodeArray` at a delimiter other than an opening brace. -/
def nestedArraysError : Error := .new "decoding of nested arrays unsupported"

/-- `decode`: a `StartElement`, the value as `CharData`, and the `EndElement`, up to the
first error. -/
def decode (td : TokenDecoder σ) (name : Name) (value : String) (st : σ) :
    Option (Option Error × σ) :=
  td.feed [.startElement ⟨name, []⟩, .charData value, .endElement name] st

/-- `jsDecodeStart`: the text must open with an object or an array. -/
def jsDecodeStart (ts : List JsonToken) (d : JSONDecoder σ) : JsStep σ :=
  match ts with
  | [] => d.bail (some d.readErr) []
  | t :: ts =>
    if t = .delim lbrace then some (some .object, ts, d)
    else if t = .delim '[' then some (some .array, ts, d)
    else d.bail (some (.new ("unexpected JSON token (" ++ t.goType ++ ") " ++ t.goValue))) ts

/-- One round of `jsDecodeArray`'s loop, at a token `t` that does not close the array: the
item goes under the key of the frame below, which is popped and pushed back to be read. An
object item pushes the array's frame and is entered; `next` is the loop's next round. -/
def arrayItem (td : TokenDecoder σ) (t : JsonToken) (ts : List JsonToken) (d : JSONDecoder σ)
    (next : JSONDecoder σ → JsStep σ) : JsStep σ :=
  let prev := (JdStack.pop d.stack).1
  let d := { d with stack := prev :: (JdStack.pop d.stack).2 }
  let name := jsTagToName prev.key
  match t with
  | .delim c =>
    if c = lbrace then
      let d := { d with stack := ⟨some .array, prev.key⟩ :: d.stack }
      d.check ts (td.StartElement ⟨name, []⟩ d.st) fun st =>
        some (some .object, ts, { d with st := st })
    else d.bail (some nestedArraysError) ts
  | .scalar v => d.check ts (decode td name v.text d.st) fun st => next { d with st := st }

/-- `jsDecodeArray`: the items, then the closing delimiter, which pops the frame below and
resumes its state function, with no `EndElement`. -/
def jsDecodeArray (td : TokenDecoder σ) : List JsonToken → JSONDecoder σ → JsStep σ
  | [], d => d.bail (some d.readErr) []
  | t :: ts, d =>
    if t.closes then some ((JdStack.pop d.stack).1.fn, ts, { d with stack := (JdStack.pop d.stack).2 })
    else arrayItem td t ts d (jsDecodeArray td ts)

/-- The end of `jsDecodeObject`, after the closing delimiter: pop a frame, close its key's
element unless the key is empty, and resume the frame's state function. -/
def closeObject (td : TokenDecoder σ) (ts : List JsonToken) (d : JSONDecoder σ) : JsStep σ :=
  let prev := (JdStack.pop d.stack).1
  let d := { d with stack := (JdStack.pop d.stack).2 }
  if prev.key ≠ "" then
    d.check ts (td.EndElement (jsTagToName prev.key) d.st) fun st =>
      some (prev.fn, ts, { d with st := st })
  else some (prev.fn, ts, d)

/-- One round of `jsDecodeObject`'s loop: the key token `t1` and the value token `t2`. A
nested object pushes this state under its key, opens the key's element and is entered; a
nested array pushes this state and is entered; `next` is the loop's next round. -/
def objectMember (td : TokenDecoder σ) (t1 t2 : JsonToken) (ts : List JsonToken)
    (d : JSONDecoder σ) (next : JSONDecoder σ → JsStep σ) : JsStep σ :=
  match t1 with
  | .scalar (.string key) =>
    let name := jsTagToName key
    match t2 with
    | .delim c =>
      if c = '[' then
        some (some .array, ts, { d with stack := ⟨some .object, key⟩ :: d.stack })
      else if c = lbrace then
        let d := { d with stack := ⟨some .object, key⟩ :: d.stack }
        d.check ts (td.StartElement ⟨name, []⟩ d.st) fun st =>
          some (some .object, ts, { d with st := st })
      else
        d.bail (some (.new ("unexpected delimiter type: " ++ t2.goType ++ " (" ++
          t2.goSyntax ++ ")"))) ts
    | .scalar v => d.check ts (decode td name v.text d.st) fun st => next { d with st := st }
  | t1 =>
    d.bail (some (.new ("bad JSON object key type: " ++ t1.goType ++ " (" ++
      t1.goSyntax ++ ")"))) ts

/-- `jsDecodeObject`: the members, two tokens each, then the closing delimiter. When the
second `Token` of a member fails, `bail` is given the first one's nil error. -/
def jsDecodeObject (td : TokenDecoder σ) : List JsonToken → JSONDecoder σ → JsStep σ
  | [], d => d.bail (some d.readErr) []
  | [t1], d => if t1.closes then closeObject td [] d else d.bail none []
  | t1 :: t2 :: ts, d =>
    if t1.closes then closeObject td (t2 :: ts) d
    else objectMember td t1 t2 ts d (jsDecodeObject td ts)

/-- Calling a state function. -/
def JsonDecoderFn.call (td : TokenDecoder σ) :
    JsonDecoderFn → List JsonToken → JSONDecoder σ → JsStep σ
  | .start => jsDecodeStart
  | .object => jsDecodeObject td
  | .array => jsDecodeArray td

/-- `runJSDecoder`: call state functions until one returns `nil`, then return `d.error`,
with the TokenDecoder's state. The loop starts at `jsDecodeStart` whatever its `first`
argument says. At most `fuel` calls are made; `Run` allows enough (`runJSDecoder_fuel`). -/
def runJSDecoder (td : TokenDecoder σ) :
    Nat → JsonDecoderFn → List JsonToken → JSONDecoder σ → Option (Option Error × σ)
  | 0, _, _, _ => none
  | n + 1, f, ts, d =>
    match f.call td ts d with
    | none => none
    | some (none, _, d) => some (d.error, d.st)
    | some (some f, ts, d) => runJSDecoder td n f ts d

/-- `Run`: the loop, its error handed to the TokenDecoder's `End`. -/
def JSONDecoder.Run (td : TokenDecoder σ) (ts : List JsonToken) (d : JSONDecoder σ) :
    Option (Option Error × σ) :=
  (runJSDecoder td (ts.length + 1) .start ts d).map fun r => (td.End r.1 r.2, r.2)

/-! ## The loop stops -/

/-- The loop after a state call that left `r`, with `n` calls to go. -/
def resume (td : TokenDecoder σ) (n : Nat) : JsStep σ → Option (Option Error × σ)
  | none => none
  | some (none, _, d) => some (d.error, d.st)
  | some (some f, ts, d) => runJSDecoder td n f ts d

theorem runJSDecoder_succ (td : TokenDecoder σ) (n : Nat) (f : JsonDecoderFn)
    (ts : List JsonToken) (d : JSONDecoder σ) :
    runJSDecoder td (n + 1) f ts d = resume td n (f.call td ts d) := rfl

@[simp] theorem resume_bail (td : TokenDecoder σ) (n : Nat) (d : JSONDecoder σ) (e ts) :
    resume td n (d.bail e ts) = some (e, d.st) := rfl

/-- A `check` that goes on reads no token itself. -/
theorem check_next {d : JSONDecoder σ} {ts r k f ts' d'}
    (h : d.check ts r k = some (some f, ts', d')) : ∃ st, k st = some (some f, ts', d') := by
  unfold JSONDecoder.check at h
  rcases r with _ | ⟨_ | e, st⟩
  · cases h
  · exact ⟨st, h⟩
  · cases h

theorem arrayItem_next {td : TokenDecoder σ} {t ts d next f ts' d'}
    (h : arrayItem td t ts d next = some (some f, ts', d')) :
    ts' = ts ∨ ∃ d₀, next d₀ = some (some f, ts', d') := by
  unfold arrayItem at h
  rcases t with c | v
  · dsimp only at h
    split_ifs at h
    · obtain ⟨st, h⟩ := check_next h
      exact .inl (Prod.mk.inj (Prod.mk.inj (Option.some.inj h)).2).1.symm
    · cases h
  · obtain ⟨st, h⟩ := check_next h
    exact .inr ⟨_, h⟩

theorem closeObject_next {td : TokenDecoder σ} {ts d f ts' d'}
    (h : closeObject td ts d = some (some f, ts', d')) : ts' = ts := by
  unfold closeObject at h
  dsimp only at h
  split_ifs at h
  · obtain ⟨st, h⟩ := check_next h
    exact (Prod.mk.inj (Prod.mk.inj (Option.some.inj h)).2).1.symm
  · exact (Prod.mk.inj (Prod.mk.inj (Option.some.inj h)).2).1.symm

theorem objectMember_next {td : TokenDecoder σ} {t1 t2 ts d next f ts' d'}
    (h : objectMember td t1 t2 ts d next = some (some f, ts', d')) :
    ts' = ts ∨ ∃ d₀, next d₀ = some (some f, ts', d') := by
  unfold objectMember at h
  split at h
  · rcases t2 with c | v
    · dsimp only at h
      split_ifs at h
      · exact .inl (Prod.mk.inj (Prod.mk.inj (Option.some.inj h)).2).1.symm
      · obtain ⟨st, h⟩ := check_next h
        exact .inl (Prod.mk.inj (Prod.mk.inj (Option.some.inj h)).2).1.symm
      · cases h
    · obtain ⟨st, h⟩ := check_next h
      exact .inr ⟨_, h⟩
  · cases h

theorem jsDecodeArray_next (td : TokenDecoder σ) :
    ∀ (ts : List JsonToken) (d : JSONDecoder σ) {f ts' d'},
      jsDecodeArray td ts d = some (some f, ts', d') → ts'.length < ts.length
  | [], _, _, _, _, h => by cases h
  | t :: ts, d, f, ts', d', h => by
    unfold jsDecodeArray at h
    split_ifs at h
    · obtain ⟨-, rfl, -⟩ := Prod.mk.inj (Option.some.inj h); simp
    · rcases arrayItem_next h with rfl | ⟨d₀, h⟩
      · simp only [List.length_cons]; omega
      · have := jsDecodeArray_next td ts d₀ h
        simp only [List.length_cons]; omega

theorem jsDecodeObject_next (td : TokenDecoder σ) :
    ∀ (ts : List JsonToken) (d : JSONDecoder σ) {f ts' d'},
      jsDecodeObject td ts d = some (some f, ts', d') → ts'.length < ts.length
  | [], _, _, _, _, h => by cases h
  | [_], _, _, _, _, h => by
    unfold jsDecodeObject at h
    split_ifs at h
    · rw [closeObject_next h]; simp
    · cases h
  | t1 :: t2 :: ts, d, f, ts', d', h => by
    unfold jsDecodeObject at h
    split_ifs at h
    · rw [closeObject_next h]; simp
    · rcases objectMember_next h with rfl | ⟨d₀, h⟩
      · simp only [List.length_cons]; omega
      · have := jsDecodeObject_next td ts d₀ h
        simp only [List.length_cons]; omega

/-- Every state call that goes on has read a token. -/
theorem call_next (td : TokenDecoder σ) {f : JsonDecoderFn} {ts : List JsonToken}
    {d : JSONDecoder σ} {f' ts' d'} (h : f.call td ts d = some (some f', ts', d')) :
    ts'.length < ts.length := by
  cases f with
  | start =>
    rcases ts with _ | ⟨t, ts⟩
    · cases h
    · simp only [JsonDecoderFn.call, jsDecodeStart] at h
      split_ifs at h
      · obtain ⟨-, rfl, -⟩ := Prod.mk.inj (Option.some.inj h); simp
      · obtain ⟨-, rfl, -⟩ := Prod.mk.inj (Option.some.inj h); simp
      · cases h
  | object => exact jsDecodeObject_next td ts d h
  | array => exact jsDecodeArray_next td ts d h

/-- **The loop stops.** Given more calls than there are tokens, the loop ends on its own:
any larger bound gives the same result. -/
theorem runJSDecoder_fuel (td : TokenDecoder σ) :
    ∀ (n m : Nat) (f : JsonDecoderFn) (ts : List JsonToken) (d : JSONDecoder σ),
      ts.length < n → ts.length < m → runJSDecoder td n f ts d = runJSDecoder td m f ts d
  | 0, _, _, _, _, h, _ => absurd h (Nat.not_lt_zero _)
  | _, 0, _, _, _, _, h => absurd h (Nat.not_lt_zero _)
  | n + 1, m + 1, f, ts, d, hn, hm => by
    rw [runJSDecoder_succ, runJSDecoder_succ]
    rcases hc : f.call td ts d with _ | ⟨_ | f', ts', d'⟩
    · rfl
    · rfl
    · have := call_next td hc
      exact runJSDecoder_fuel td n m f' ts' d' (by omega) (by omega)

/-! ## The recursion the stack implements -/

/-- `r`, then `f` from the state it leaves when it succeeded; an error or a panic stands. -/
def thenOk (r : Option (Option Error × σ)) (f : σ → Option (Option Error × σ)) :
    Option (Option Error × σ) :=
  match r with
  | some (none, st) => f st
  | r => r

@[simp] theorem thenOk_ok (st : σ) (f : σ → Option (Option Error × σ)) :
    thenOk (some (none, st)) f = f st := rfl

@[simp] theorem thenOk_err (e : Error) (st : σ) (f : σ → Option (Option Error × σ)) :
    thenOk (some (some e, st)) f = some (some e, st) := rfl

theorem thenOk_assoc (r : Option (Option Error × σ)) (f g : σ → Option (Option Error × σ)) :
    thenOk (thenOk r f) g = thenOk r fun st => thenOk (f st) g := by
  rcases r with _ | ⟨_ | e, st⟩ <;> rfl

@[simp] theorem thenOk_done (r : Option (Option Error × σ)) :
    thenOk r (fun st => some (none, st)) = r := by
  rcases r with _ | ⟨_ | e, st⟩ <;> rfl

/-- Feeding a token list is the first token's handler, then the rest. -/
theorem feed_cons_thenOk (td : TokenDecoder σ) (t : Token) (ts : List Token) (st : σ) :
    td.feed (t :: ts) st = thenOk (td.handle t st) (td.feed ts) := by
  simp only [TokenDecoder.feed]
  rcases td.handle t st with _ | ⟨_ | e, st'⟩ <;> rfl

theorem feed_append_thenOk (td : TokenDecoder σ) (xs ys : List Token) (st : σ) :
    td.feed (xs ++ ys) st = thenOk (td.feed xs st) (td.feed ys) := by
  rw [TokenDecoder.feed_append]
  rcases td.feed xs st with _ | ⟨_ | e, st'⟩ <;> rfl

/-- What closing an object's frame does: `jsDecodeObject` issues the `EndElement` only
for a non-empty key. -/
def closeKey (td : TokenDecoder σ) (k : String) (st : σ) : Option (Option Error × σ) :=
  if k ≠ "" then td.EndElement (jsTagToName k) st else some (none, st)

mutual
/-- The TokenDecoder calls the decoder makes for the members of an object, by recursion
over the value. -/
def membersRun (td : TokenDecoder σ) : List (String × JValue) → σ → Option (Option Error × σ)
  | [], st => some (none, st)
  | (k, v) :: ms, st => thenOk (valueRun td k v st) fun st => membersRun td ms st

/-- The calls for a value under key `k`: a scalar is decoded; an object is the key's
element around its members, closed as `closeKey` says; an array is its items, each under
the key. -/
def valueRun (td : TokenDecoder σ) (k : String) : JValue → σ → Option (Option Error × σ)
  | .scalar s, st => decode td (jsTagToName k) s.text st
  | .object ms, st =>
    thenOk (td.StartElement ⟨jsTagToName k, []⟩ st) fun st =>
      thenOk (membersRun td ms st) (closeKey td k)
  | .array es, st => elemsRun td k es st

/-- The calls for the items of the array under key `k`, up to an item that is itself an
array. -/
def elemsRun (td : TokenDecoder σ) (k : String) : List JValue → σ → Option (Option Error × σ)
  | [], st => some (none, st)
  | .array _ :: _, st => some (some nestedArraysError, st)
  | .scalar s :: es, st => thenOk (valueRun td k (.scalar s) st) fun st => elemsRun td k es st
  | .object ms :: es, st => thenOk (valueRun td k (.object ms) st) fun st => elemsRun td k es st
end

/-- Where an object being decoded sits: at the top level; as the value under key `k` of an
object whose members `ms` follow; or as an item of the array under key `k`, followed by
the items `es` and then by the members `ms` of the object holding the array. -/
inductive JsCtx where
  | top
  | member (k : String) (ms : List (String × JValue)) (c : JsCtx)
  | elem (k : String) (es : List JValue) (ms : List (String × JValue)) (c : JsCtx)

namespace JsCtx

/-- The stack inside such an object. -/
def stack : JsCtx → List JdState
  | top => []
  | member k _ c => ⟨some .object, k⟩ :: c.stack
  | elem k _ _ c => ⟨some .array, k⟩ :: ⟨some .object, k⟩ :: c.stack

/-- The tokens after the object's closing brace. -/
def after : JsCtx → List JsonToken
  | top => []
  | member _ ms c => membersTokens ms ++ .delim rbrace :: c.after
  | elem _ es ms c => elemsTokens es ++ .delim ']' :: (membersTokens ms ++ .delim rbrace :: c.after)

/-- What the recursion still owes once the object is done. -/
def owed (td : TokenDecoder σ) : JsCtx → σ → Option (Option Error × σ)
  | top, st => some (none, st)
  | member k ms c, st => thenOk (closeKey td k st) fun st => thenOk (membersRun td ms st) (c.owed td)
  | elem k es ms c, st =>
    thenOk (closeKey td k st) fun st =>
      thenOk (elemsRun td k es st) fun st => thenOk (membersRun td ms st) (c.owed td)

end JsCtx

/-! ## The machine runs the recursion -/

section Machine

variable (td : TokenDecoder σ) (re : Error)

/-- Given `n` calls, the loop runs the recursion from every object and every array
configuration with fewer than `n` tokens: in an object, its members, then what its context
owes; in the array under key `k`, its items, then the members `ms` after it. -/
structure RunsRecursion (n : Nat) : Prop where
  object : ∀ ms (c : JsCtx) st, (membersTokens ms ++ .delim rbrace :: c.after).length < n →
    runJSDecoder td n .object (membersTokens ms ++ .delim rbrace :: c.after)
      ⟨re, none, c.stack, st⟩ = thenOk (membersRun td ms st) (c.owed td)
  array : ∀ k es ms (c : JsCtx) st,
    (elemsTokens es ++ .delim ']' :: (JsCtx.member k ms c).after).length < n →
    runJSDecoder td n .array (elemsTokens es ++ .delim ']' :: (JsCtx.member k ms c).after)
      ⟨re, none, ⟨some .object, k⟩ :: c.stack, st⟩ =
      thenOk (elemsRun td k es st) fun st => thenOk (membersRun td ms st) (c.owed td)

variable {td re}

theorem resume_check (n : Nat) (d : JSONDecoder σ) (ts : List JsonToken)
    (r : Option (Option Error × σ)) (k : σ → JsStep σ) :
    resume td n (d.check ts r k) = thenOk r fun st => resume td n (k st) := by
  rcases r with _ | ⟨_ | e, st⟩ <;> rfl

theorem jsDecodeObject_close {t : JsonToken} (ht : t.closes = true) (ts : List JsonToken)
    (d : JSONDecoder σ) : jsDecodeObject td (t :: ts) d = closeObject td ts d := by
  cases ts <;> simp only [jsDecodeObject, ht, if_true]

/-- Closing an object pops its frame, closes the key's element as `closeKey` says, and
resumes the frame's state function. -/
theorem resume_closeObject (n : Nat) (ts : List JsonToken) (d : JSONDecoder σ) :
    resume td n (closeObject td ts d) =
      thenOk (closeKey td (JdStack.pop d.stack).1.key d.st) fun st =>
        resume td n (some ((JdStack.pop d.stack).1.fn, ts,
          { d with stack := (JdStack.pop d.stack).2, st := st })) := by
  simp only [closeObject, closeKey]
  split_ifs
  · exact resume_check ..
  · rfl

theorem jsDecodeObject_member (k : String) (t2 : JsonToken) (ts : List JsonToken)
    (d : JSONDecoder σ) :
    jsDecodeObject td (.scalar (.string k) :: t2 :: ts) d =
      objectMember td (.scalar (.string k)) t2 ts d (jsDecodeObject td ts) := rfl

theorem objectMember_scalar (k : String) (v : JsonScalar) (ts : List JsonToken)
    (d : JSONDecoder σ) (next : JSONDecoder σ → JsStep σ) :
    objectMember td (.scalar (.string k)) (.scalar v) ts d next =
      d.check ts (decode td (jsTagToName k) v.text d.st) fun st => next { d with st := st } :=
  rfl

theorem objectMember_object (k : String) (ts : List JsonToken) (d : JSONDecoder σ)
    (next : JSONDecoder σ → JsStep σ) :
    objectMember td (.scalar (.string k)) (.delim lbrace) ts d next =
      let d := { d with stack := ⟨some .object, k⟩ :: d.stack }
      d.check ts (td.StartElement ⟨jsTagToName k, []⟩ d.st) fun st =>
        some (some .object, ts, { d with st := st }) := by
  simp only [objectMember]
  rw [if_neg (by decide)]
  rfl

theorem objectMember_array (k : String) (ts : List JsonToken) (d : JSONDecoder σ)
    (next : JSONDecoder σ → JsStep σ) :
    objectMember td (.scalar (.string k)) (.delim '[') ts d next =
      some (some .array, ts, { d with stack := ⟨some .object, k⟩ :: d.stack }) := by
  simp only [objectMember, if_true]

theorem jsDecodeArray_close (ts : List JsonToken) (d : JSONDecoder σ) :
    jsDecodeArray td (.delim ']' :: ts) d =
      some ((JdStack.pop d.stack).1.fn, ts, { d with stack := (JdStack.pop d.stack).2 }) := by
  simp [jsDecodeArray, JsonToken.closes]

theorem jsDecodeArray_item (t : JsonToken) (ht : t.closes = false) (ts : List JsonToken)
    (d : JSONDecoder σ) : jsDecodeArray td (t :: ts) d = arrayItem td t ts d (jsDecodeArray td ts) := by
  simp [jsDecodeArray, ht]

section Item

variable {j : JdState} {s : List JdState} {d : JSONDecoder σ} (hs : d.stack = j :: s)
include hs

theorem arrayItem_scalar (v : JsonScalar) (ts : List JsonToken) (next : JSONDecoder σ → JsStep σ) :
    arrayItem td (.scalar v) ts d next =
      d.check ts (decode td (jsTagToName j.key) v.text d.st) fun st => next { d with st := st } := by
  obtain ⟨re, err, stack, st⟩ := d
  subst hs
  rfl

theorem arrayItem_object (ts : List JsonToken) (next : JSONDecoder σ → JsStep σ) :
    arrayItem td (.delim lbrace) ts d next =
      let d := { d with stack := ⟨some .array, j.key⟩ :: d.stack }
      d.check ts (td.StartElement ⟨jsTagToName j.key, []⟩ d.st) fun st =>
        some (some .object, ts, { d with st := st }) := by
  obtain ⟨re, err, stack, st⟩ := d
  subst hs
  simp only [arrayItem, JdStack.pop, if_true]

end Item

theorem resume_arrayItem_array (n : Nat) (ts : List JsonToken)
    (d : JSONDecoder σ) (next : JSONDecoder σ → JsStep σ) :
    resume td n (arrayItem td (.delim '[') ts d next) = some (some nestedArraysError, d.st) := by
  simp only [arrayItem]
  rw [if_neg (by decide)]
  rfl

/-- Closing an object that sits in context `c` gives what `c` owes. -/
theorem close_sim {n : Nat} (ih : RunsRecursion td re n) (c : JsCtx) (st : σ)
    (hlen : c.after.length < n) :
    resume td n (jsDecodeObject td (.delim rbrace :: c.after) ⟨re, none, c.stack, st⟩) =
      c.owed td st := by
  rw [jsDecodeObject_close (by decide), resume_closeObject]
  cases c with
  | top => rfl
  | member k ms c => exact congrArg _ (funext fun st => ih.object ms c st hlen)
  | elem k es ms c => exact congrArg _ (funext fun st => ih.array k es ms c st hlen)

/-- In an object: the members, then what the context owes. -/
theorem object_sim {n : Nat} (ih : RunsRecursion td re n) (c : JsCtx) :
    ∀ ms st, (membersTokens ms ++ .delim rbrace :: c.after).length ≤ n →
      resume td n (jsDecodeObject td (membersTokens ms ++ .delim rbrace :: c.after)
        ⟨re, none, c.stack, st⟩) = thenOk (membersRun td ms st) (c.owed td)
  | [], st, hlen => by
    simp only [membersTokens, List.nil_append, List.length_cons] at hlen ⊢
    exact close_sim ih c st (by omega)
  | (k, .scalar s) :: ms, st, hlen => by
    simp only [membersTokens, JValue.tokens, List.cons_append, List.nil_append,
      List.length_cons] at hlen ⊢
    rw [jsDecodeObject_member, objectMember_scalar, resume_check, membersRun, valueRun,
      thenOk_assoc]
    exact congrArg _ (funext fun st => object_sim ih c ms st (by omega))
  | (k, .object ms₁) :: ms, st, hlen => by
    have e : membersTokens ((k, .object ms₁) :: ms) ++ .delim rbrace :: c.after =
        .scalar (.string k) :: .delim lbrace ::
          (membersTokens ms₁ ++ .delim rbrace :: (JsCtx.member k ms c).after) := by
      simp [membersTokens, JValue.tokens, JsCtx.after]
    rw [e] at hlen ⊢
    simp only [List.length_cons] at hlen
    rw [jsDecodeObject_member, objectMember_object, resume_check]
    simp only [membersRun, valueRun, thenOk_assoc]
    exact congrArg _ (funext fun st => ih.object ms₁ (.member k ms c) st (by omega))
  | (k, .array es) :: ms, st, hlen => by
    have e : membersTokens ((k, .array es) :: ms) ++ .delim rbrace :: c.after =
        .scalar (.string k) :: .delim '[' ::
          (elemsTokens es ++ .delim ']' :: (JsCtx.member k ms c).after) := by
      simp [membersTokens, JValue.tokens, JsCtx.after]
    rw [e] at hlen ⊢
    simp only [List.length_cons] at hlen
    rw [jsDecodeObject_member, objectMember_array]
    simp only [membersRun, valueRun, thenOk_assoc]
    exact ih.array k es ms c st (by omega)

/-- In the array under key `k`: the items, then the members `ms` after the array, then what
the context owes. -/
theorem array_sim {n : Nat} (ih : RunsRecursion td re n) (k : String) (ms) (c : JsCtx) :
    ∀ es st, (elemsTokens es ++ .delim ']' :: (JsCtx.member k ms c).after).length ≤ n →
      resume td n (jsDecodeArray td (elemsTokens es ++ .delim ']' :: (JsCtx.member k ms c).after)
        ⟨re, none, ⟨some .object, k⟩ :: c.stack, st⟩) =
        thenOk (elemsRun td k es st) fun st => thenOk (membersRun td ms st) (c.owed td)
  | [], st, hlen => by
    simp only [elemsTokens, List.nil_append, List.length_cons] at hlen ⊢
    rw [jsDecodeArray_close]
    exact ih.object ms c st (by simpa only [JsCtx.after] using hlen)
  | .scalar s :: es, st, hlen => by
    simp only [elemsTokens, JValue.tokens, List.cons_append, List.nil_append,
      List.length_cons] at hlen ⊢
    rw [jsDecodeArray_item (.scalar s) rfl, arrayItem_scalar rfl, resume_check, elemsRun, valueRun,
      thenOk_assoc]
    exact congrArg _ (funext fun st => array_sim ih k ms c es st (by omega))
  | .object ms₁ :: es, st, hlen => by
    have e : elemsTokens (.object ms₁ :: es) ++ .delim ']' :: (JsCtx.member k ms c).after =
        .delim lbrace :: (membersTokens ms₁ ++ .delim rbrace :: (JsCtx.elem k es ms c).after) := by
      simp [elemsTokens, JValue.tokens, JsCtx.after]
    rw [e] at hlen ⊢
    simp only [List.length_cons] at hlen
    rw [jsDecodeArray_item (.delim lbrace) rfl, arrayItem_object rfl, resume_check]
    simp only [elemsRun, valueRun, thenOk_assoc]
    exact congrArg _ (funext fun st => ih.object ms₁ (.elem k es ms c) st (by omega))
  | .array es₁ :: es, st, _ => by
    simp only [elemsTokens, JValue.tokens, List.cons_append]
    rw [jsDecodeArray_item (.delim '[') rfl, resume_arrayItem_array]
    rfl

end Machine

/-- **The stack invariant.** Given `n` calls, the loop runs the recursion from every object
and array configuration with fewer than `n` tokens. -/
theorem machine (td : TokenDecoder σ) (re : Error) : ∀ n, RunsRecursion td re n
  | 0 => ⟨fun _ _ _ h => absurd h (Nat.not_lt_zero _),
      fun _ _ _ _ _ h => absurd h (Nat.not_lt_zero _)⟩
  | n + 1 =>
    ⟨fun ms c st h => object_sim (machine td re n) c ms st (Nat.le_of_lt_succ h),
      fun k es ms c st h => array_sim (machine td re n) k ms c es st (Nat.le_of_lt_succ h)⟩

theorem jsDecodeStart_object (ts : List JsonToken) (d : JSONDecoder σ) :
    jsDecodeStart (.delim lbrace :: ts) d = some (some .object, ts, d) := by
  simp [jsDecodeStart]

/-- **The explicit stack is the recursion.** On a top-level object, `Run` makes the
TokenDecoder calls of `membersRun` and hands `End` what they return. -/
theorem run_object (td : TokenDecoder σ) (ms : List (String × JValue)) (re : Error) (st : σ) :
    JSONDecoder.Run td (JValue.object ms).tokens (JSONDecoder.init re st) =
      (membersRun td ms st).map fun r => (td.End r.1 r.2, r.2) := by
  have e : (JValue.object ms).tokens =
      .delim lbrace :: (membersTokens ms ++ .delim rbrace :: JsCtx.top.after) := by
    simp [JValue.tokens, JsCtx.after]
  rw [JSONDecoder.Run, e, List.length_cons, runJSDecoder_succ]
  have h := (machine td re _).object ms .top st (Nat.lt_succ_self _)
  simp only [JsCtx.owed, thenOk_done] at h
  rw [← h]
  rfl

/-! ## The events of an object -/

mutual
/-- The events of an object's members, each under its key's name. -/
def jsonFields : List (String × JValue) → List Token
  | [] => []
  | (k, v) :: ms => jsonField (jsTagToName k) v ++ jsonFields ms

/-- The events of a value under the name `K`: a scalar is an element holding its text, an
object an element around its members, and an array its items, each under `K`. -/
def jsonField (K : Name) : JValue → List Token
  | .scalar s => [.startElement ⟨K, []⟩, .charData s.text, .endElement K]
  | .object ms => .startElement ⟨K, []⟩ :: jsonFields ms ++ [.endElement K]
  | .array es => jsonFieldElems K es

/-- The events of array items under the name `K`. -/
def jsonFieldElems (K : Name) : List JValue → List Token
  | [] => []
  | e :: es => jsonField K e ++ jsonFieldElems K es
end

mutual
/-- Every key in the value is non-empty. -/
def JValue.keyed : JValue → Bool
  | .scalar _ => true
  | .array es => elemsKeyed es
  | .object ms => membersKeyed ms

/-- Every key in the items is non-empty. -/
def elemsKeyed : List JValue → Bool
  | [] => true
  | e :: es => e.keyed && elemsKeyed es

/-- Every key of the members, and in their values, is non-empty. -/
def membersKeyed : List (String × JValue) → Bool
  | [] => true
  | (k, v) :: ms => k != "" && v.keyed && membersKeyed ms
end

mutual
/-- No array in the value holds an array as an item. -/
def JValue.flat : JValue → Bool
  | .scalar _ => true
  | .array es => elemsFlat es
  | .object ms => membersFlat ms

/-- No item is an array, nor holds an array inside an array. -/
def elemsFlat : List JValue → Bool
  | [] => true
  | .array _ :: _ => false
  | .scalar _ :: es => elemsFlat es
  | .object ms :: es => membersFlat ms && elemsFlat es

/-- No member's value holds an array inside an array. -/
def membersFlat : List (String × JValue) → Bool
  | [] => true
  | (_, v) :: ms => v.flat && membersFlat ms
end

mutual
/-- With non-empty keys and no array inside an array, the recursion feeds the TokenDecoder
the events `jsonFields` lists. -/
theorem membersRun_eq_feed (td : TokenDecoder σ) : ∀ (ms : List (String × JValue)) (st : σ),
    membersKeyed ms = true → membersFlat ms = true → membersRun td ms st = td.feed (jsonFields ms) st
  | [], _, _, _ => rfl
  | (k, v) :: ms, st, hk, hf => by
    simp only [membersKeyed, membersFlat, Bool.and_eq_true, bne_iff_ne, ne_eq] at hk hf
    rw [membersRun, jsonFields, feed_append_thenOk, valueRun_eq_feed td k v st hk.1.1 hk.1.2 hf.1]
    exact congrArg _ (funext fun st => membersRun_eq_feed td ms st hk.2 hf.2)

theorem valueRun_eq_feed (td : TokenDecoder σ) (k : String) : ∀ (v : JValue) (st : σ),
    k ≠ "" → v.keyed = true → v.flat = true →
      valueRun td k v st = td.feed (jsonField (jsTagToName k) v) st
  | .scalar _, _, _, _, _ => rfl
  | .object ms, st, hk, hkv, hf => by
    have hc : closeKey td k = td.feed [.endElement (jsTagToName k)] := funext fun st => by
      rw [feed_cons_thenOk]
      simp only [closeKey, hk, ne_eq, not_false_eq_true, if_true]
      exact (thenOk_done _).symm
    rw [valueRun, jsonField, feed_append_thenOk, feed_cons_thenOk, thenOk_assoc, hc]
    exact congrArg _ (funext fun st => by rw [membersRun_eq_feed td ms st hkv hf])
  | .array es, st, hk, hkv, hf => elemsRun_eq_feed td k es st hk hkv hf

theorem elemsRun_eq_feed (td : TokenDecoder σ) (k : String) : ∀ (es : List JValue) (st : σ),
    k ≠ "" → elemsKeyed es = true → elemsFlat es = true →
      elemsRun td k es st = td.feed (jsonFieldElems (jsTagToName k) es) st
  | [], _, _, _, _ => rfl
  | .array _ :: _, _, _, _, hf => by simp [elemsFlat] at hf
  | .scalar s :: es, st, hk, hkv, hf => by
    simp only [elemsKeyed, elemsFlat, Bool.and_eq_true] at hkv hf
    rw [elemsRun, jsonFieldElems, feed_append_thenOk, valueRun_eq_feed td k _ st hk hkv.1 rfl]
    exact congrArg _ (funext fun st => elemsRun_eq_feed td k es st hk hkv.2 hf)
  | .object ms :: es, st, hk, hkv, hf => by
    simp only [elemsKeyed, elemsFlat, Bool.and_eq_true] at hkv hf
    rw [elemsRun, jsonFieldElems, feed_append_thenOk, valueRun_eq_feed td k _ st hk hkv.1 hf.1]
    exact congrArg _ (funext fun st => elemsRun_eq_feed td k es st hk hkv.2 hf.2)
end

/-- A TokenDecoder that accepts every call and records the events in order. -/
def tokenRecorder : TokenDecoder (List Token) where
  StartElement se evs := some (none, evs ++ [.startElement se])
  EndElement n evs := some (none, evs ++ [.endElement n])
  CharData cd evs := some (none, evs ++ [.charData cd])
  Comment c evs := some (none, evs ++ [.comment c])
  ProcInst pi evs := some (none, evs ++ [.procInst pi])
  Directive d evs := some (none, evs ++ [.directive d])
  End err _ := err

theorem tokenRecorder_handle (t : Token) (evs : List Token) :
    tokenRecorder.handle t evs = some (none, evs ++ [t]) := by
  cases t <;> rfl

theorem tokenRecorder_feed : ∀ (ts evs : List Token),
    tokenRecorder.feed ts evs = some (none, evs ++ ts)
  | [], evs => by simp [TokenDecoder.feed]
  | t :: ts, evs => by
    rw [feed_cons_thenOk, tokenRecorder_handle, thenOk_ok, tokenRecorder_feed ts]
    simp

theorem closeKey_recorder (k : String) (evs : List Token) :
    ∃ evs', closeKey tokenRecorder k evs = some (none, evs') := by
  unfold closeKey
  split_ifs
  · exact ⟨_, rfl⟩
  · exact ⟨_, rfl⟩

mutual
/-- Recorded, the recursion fails exactly at an array inside an array. -/
theorem membersRun_recorder : ∀ (ms : List (String × JValue)) (evs : List Token),
    ∃ evs', membersRun tokenRecorder ms evs =
      some (bif membersFlat ms then none else some nestedArraysError, evs')
  | [], evs => ⟨evs, rfl⟩
  | (k, v) :: ms, evs => by
    obtain ⟨evs₁, h₁⟩ := valueRun_recorder k v evs
    rw [membersRun, h₁]
    cases hv : v.flat
    · exact ⟨evs₁, by simp [membersFlat, hv]⟩
    · obtain ⟨evs₂, h₂⟩ := membersRun_recorder ms evs₁
      exact ⟨evs₂, by simpa [membersFlat, hv] using h₂⟩

theorem valueRun_recorder (k : String) : ∀ (v : JValue) (evs : List Token),
    ∃ evs', valueRun tokenRecorder k v evs = some (bif v.flat then none else some nestedArraysError, evs')
  | .scalar s, evs => ⟨_, tokenRecorder_feed _ evs⟩
  | .object ms, evs => by
    obtain ⟨evs₁, h₁⟩ := membersRun_recorder ms (evs ++ [.startElement ⟨jsTagToName k, []⟩])
    obtain ⟨evs₂, h₂⟩ := closeKey_recorder k evs₁
    show ∃ evs', thenOk (membersRun tokenRecorder ms _) (closeKey tokenRecorder k) = _
    rw [h₁]
    cases hf : membersFlat ms
    · exact ⟨evs₁, by simp only [JValue.flat, hf, cond_false, thenOk_err]⟩
    · exact ⟨evs₂, by simp only [JValue.flat, hf, cond_true, thenOk_ok, h₂]⟩
  | .array es, evs => by
    obtain ⟨evs₁, h₁⟩ := elemsRun_recorder k es evs
    exact ⟨evs₁, by rw [valueRun, h₁]; rfl⟩

theorem elemsRun_recorder (k : String) : ∀ (es : List JValue) (evs : List Token),
    ∃ evs', elemsRun tokenRecorder k es evs = some (bif elemsFlat es then none else some nestedArraysError, evs')
  | [], evs => ⟨evs, rfl⟩
  | .array _ :: _, evs => ⟨evs, rfl⟩
  | .scalar s :: es, evs => by
    obtain ⟨evs₂, h₂⟩ := elemsRun_recorder k es (evs ++ [.startElement ⟨jsTagToName k, []⟩, .charData s.text, .endElement (jsTagToName k)])
    refine ⟨evs₂, ?_⟩
    rw [elemsRun, valueRun, decode, tokenRecorder_feed, thenOk_ok, h₂]
    rfl
  | .object ms :: es, evs => by
    obtain ⟨evs₁, h₁⟩ := valueRun_recorder k (.object ms) evs
    have hflat : elemsFlat (.object ms :: es) = ((JValue.object ms).flat && elemsFlat es) := rfl
    rw [elemsRun, h₁, hflat]
    cases (JValue.object ms).flat
    · exact ⟨evs₁, rfl⟩
    · obtain ⟨evs₂, h₂⟩ := elemsRun_recorder k es evs₁
      exact ⟨evs₂, h₂⟩
end

/-- **The bridge is the recursion the text's shape gives.** Recorded, a top-level object
whose keys are non-empty and which has no array inside an array gives no error and exactly
the events `jsonFields` lists; an array inside an array makes `Run` fail. -/
theorem run_eq_fields (ms : List (String × JValue)) (re : Error) :
    (membersKeyed ms = true → membersFlat ms = true →
      JSONDecoder.Run tokenRecorder (JValue.object ms).tokens (JSONDecoder.init re []) =
        some (none, jsonFields ms)) ∧
    (membersFlat ms = false → ∃ evs,
      JSONDecoder.Run tokenRecorder (JValue.object ms).tokens (JSONDecoder.init re []) =
        some (some nestedArraysError, evs)) := by
  rw [run_object]
  refine ⟨fun hk hf => ?_, fun hf => ?_⟩
  · rw [membersRun_eq_feed tokenRecorder ms [] hk hf, tokenRecorder_feed]
    rfl
  · obtain ⟨evs, h⟩ := membersRun_recorder ms []
    exact ⟨evs, by rw [h, hf]; rfl⟩

theorem run_eq_fields_sample :
    membersKeyed [("a", .scalar (.number "1")),
      ("b", .array [.object [("c", .scalar .null)], .scalar (.bool true)])] = true ∧
    membersFlat [("a", .scalar (.number "1")),
      ("b", .array [.object [("c", .scalar .null)], .scalar (.bool true)])] = true ∧
    JSONDecoder.Run tokenRecorder (JValue.object [("a", .scalar (.number "1")),
      ("b", .array [.object [("c", .scalar .null)], .scalar (.bool true)])]).tokens
      (JSONDecoder.init .eof []) = some (none, jsonFields [("a", .scalar (.number "1")),
        ("b", .array [.object [("c", .scalar .null)], .scalar (.bool true)])]) ∧
    membersFlat [("a", .array [.array []])] = false ∧
    ∃ evs, JSONDecoder.Run tokenRecorder (JValue.object [("a", .array [.array []])]).tokens
      (JSONDecoder.init .eof []) = some (some nestedArraysError, evs) :=
  ⟨rfl, rfl, (run_eq_fields _ .eof).1 rfl rfl, rfl, (run_eq_fields _ .eof).2 rfl⟩

/-! ## Bracketing -/

mutual
/-- The events of members close every element they open. -/
theorem openTags_jsonFields : ∀ (ms : List (String × JValue)) (stk : List Name)
    (rest : List Token), openTags stk (jsonFields ms ++ rest) = openTags stk rest
  | [], _, _ => rfl
  | (k, v) :: ms, stk, rest => by
    rw [jsonFields, List.append_assoc, openTags_jsonField, openTags_jsonFields]

theorem openTags_jsonField (K : Name) : ∀ (v : JValue) (stk : List Name) (rest : List Token),
    openTags stk (jsonField K v ++ rest) = openTags stk rest
  | .scalar _, _, _ => by simp [jsonField, openTags]
  | .object ms, stk, rest => by
    simp only [jsonField, List.cons_append, List.append_assoc, openTags, openTags_jsonFields,
      List.singleton_append, List.nil_append, if_true]
  | .array es, stk, rest => openTags_jsonFieldElems K es stk rest

theorem openTags_jsonFieldElems (K : Name) : ∀ (es : List JValue) (stk : List Name)
    (rest : List Token), openTags stk (jsonFieldElems K es ++ rest) = openTags stk rest
  | [], _, _ => rfl
  | e :: es, stk, rest => by
    rw [jsonFieldElems, List.append_assoc, openTags_jsonField, openTags_jsonFieldElems]
end

/-- With non-empty keys, what a recorded top-level object gives without an error is
well-bracketed. -/
theorem run_wellBracketed_of_keyed (ms : List (String × JValue)) (re : Error)
    (evs : List Token) (hk : membersKeyed ms = true)
    (h : JSONDecoder.Run tokenRecorder (JValue.object ms).tokens (JSONDecoder.init re []) =
      some (none, evs)) : WellBracketed evs := by
  rw [run_object] at h
  cases hf : membersFlat ms
  · obtain ⟨evs', h'⟩ := membersRun_recorder ms []
    rw [h', hf] at h
    cases h
  · rw [membersRun_eq_feed tokenRecorder ms [] hk hf, tokenRecorder_feed] at h
    obtain rfl : [] ++ jsonFields ms = evs := (Prod.mk.inj (Option.some.inj h)).2
    simpa [WellBracketed] using openTags_jsonFields ms [] []

theorem run_wellBracketed_of_keyed_sample :
    membersKeyed [("a", .scalar (.number "1")),
      ("b", .array [.object [("c", .scalar .null)], .scalar (.bool true)])] = true ∧
    JSONDecoder.Run tokenRecorder (JValue.object [("a", .scalar (.number "1")),
      ("b", .array [.object [("c", .scalar .null)], .scalar (.bool true)])]).tokens
      (JSONDecoder.init .eof []) = some (none, jsonFields [("a", .scalar (.number "1")),
        ("b", .array [.object [("c", .scalar .null)], .scalar (.bool true)])]) ∧
    WellBracketed (jsonFields [("a", .scalar (.number "1")),
        ("b", .array [.object [("c", .scalar .null)], .scalar (.bool true)])]) :=
  ⟨rfl, rfl, run_wellBracketed_of_keyed [("a", .scalar (.number "1")),
    ("b", .array [.object [("c", .scalar .null)], .scalar (.bool true)])] .eof _ rfl rfl⟩

/-- **An object under the empty key is opened and never closed.** Neither is an object in a
top-level array, whose items go under the empty key of the zero frame. -/
theorem run_emptyKey_unclosed :
    JSONDecoder.Run tokenRecorder (JValue.object [("", .object [])]).tokens
        (JSONDecoder.init .eof []) = some (none, [.startElement ⟨⟨"", ""⟩, []⟩]) ∧
      ¬ WellBracketed [.startElement ⟨⟨"", ""⟩, []⟩] ∧
    JSONDecoder.Run tokenRecorder (JValue.array [.object [("a", .scalar (.string "1"))]]).tokens
        (JSONDecoder.init .eof []) =
      some (none, [.startElement ⟨⟨"", ""⟩, []⟩, .startElement ⟨⟨"", "a"⟩, []⟩, .charData "1",
        .endElement ⟨"", "a"⟩]) ∧
      ¬ WellBracketed [.startElement ⟨⟨"", ""⟩, []⟩, .startElement ⟨⟨"", "a"⟩, []⟩,
        .charData "1", .endElement ⟨"", "a"⟩] := by
  decide

/-! ## A read error after a key -/

/-- The members of an object whose values are scalars. -/
def scalarMembers (ms : List (String × JsonScalar)) : List (String × JValue) :=
  ms.map fun m => (m.1, .scalar m.2)

/-- An object whose tokens run out right after a key, every member before it complete
with a scalar value: the loop decodes those members, then bails with the nil error of the
key's `Token`. -/
theorem object_cut_after_key (td : TokenDecoder σ) (n : Nat) (k : String) :
    ∀ (ms : List (String × JsonScalar)) (d : JSONDecoder σ),
      resume td n (jsDecodeObject td (membersTokens (scalarMembers ms) ++ [.scalar (.string k)])
        d) = membersRun td (scalarMembers ms) d.st
  | [], d => by simp [scalarMembers, membersTokens, jsDecodeObject, JsonToken.closes, membersRun]
  | (k', v) :: ms, d => by
    simp only [scalarMembers, List.map_cons, membersTokens, JValue.tokens, List.cons_append,
      List.nil_append]
    rw [jsDecodeObject_member, objectMember_scalar, resume_check, membersRun, valueRun]
    exact congrArg _ (funext fun st => object_cut_after_key td n k ms _)

/-- On a top-level object cut off after a key, `Run` hands `End` the result of the members
before the key: the reader's error `re` reaches nothing. -/
theorem run_readError_dropped (td : TokenDecoder σ) (ms : List (String × JsonScalar))
    (k : String) (re : Error) (st : σ) :
    JSONDecoder.Run td (.delim lbrace :: (membersTokens (scalarMembers ms) ++
        [.scalar (.string k)])) (JSONDecoder.init re st) =
      (membersRun td (scalarMembers ms) st).map fun r => (td.End r.1 r.2, r.2) := by
  rw [JSONDecoder.Run, List.length_cons, runJSDecoder_succ]
  simp only [JsonDecoderFn.call, jsDecodeStart_object, resume]
  rw [List.length_append, List.length_singleton, runJSDecoder_succ]
  simp only [JsonDecoderFn.call, object_cut_after_key]
  rfl

/-- **A truncated object is decoded without error.** Cut a top-level object off right
after a key, every member before it complete with a scalar value. The second `Token` of
that member fails, but `jsDecodeObject` tests that error and then passes `bail` the first
`Token`'s, which is nil. So whatever the reader reports, `Run` returns nil once the members
before the key decode without error, for every TokenDecoder whose `End` reports nothing for
a nil error: the Builder's and the schema decoder's. -/
theorem run_cut_after_key (td : TokenDecoder σ) (hEnd : ∀ st, td.End none st = none)
    (ms : List (String × JsonScalar)) (k : String) (re : Error) (st st' : σ)
    (h : membersRun td (scalarMembers ms) st = some (none, st')) :
    JSONDecoder.Run td (.delim lbrace :: (membersTokens (scalarMembers ms) ++
        [.scalar (.string k)])) (JSONDecoder.init re st) = some (none, st') := by
  rw [run_readError_dropped, h]
  simp [hEnd]

theorem run_cut_after_key_builder :
    (∀ st, Builder.tokenDecoder.End none st = none) ∧
    membersRun Builder.tokenDecoder (scalarMembers []) (NewBuilder 0 [], Store.empty) =
      some (none, (NewBuilder 0 [], Store.empty)) ∧
    JSONDecoder.Run Builder.tokenDecoder (.delim lbrace :: (membersTokens (scalarMembers []) ++
        [.scalar (.string "a")])) (JSONDecoder.init .unexpectedEOF (NewBuilder 0 [], Store.empty)) =
      some (none, (NewBuilder 0 [], Store.empty)) :=
  ⟨fun _ => rfl, rfl, run_cut_after_key _ (fun _ => rfl) [] "a" .unexpectedEOF _ _ rfl⟩

/-! ## Keys and names

`jsTagToName` splits a key at its first colon when something comes before it;
`xmlNameToTag` joins a name's namespace and local name with a colon. Every key is the
join of its split, but a name is the split of its join only when the colon the join puts
in is the first one, after a nonempty namespace, or when there is no namespace and the
local name has no colon after its first character (`TagSafe`). A namespace URI such as
`urn:ietf:params:xml:ns:yang:ietf-interfaces` is not: its key splits at `urn`. -/

/-- The names whose key reads back as the name. -/
def TagSafe (n : Name) : Prop :=
  (n.space ≠ "" ∧ ':' ∉ n.space.data) ∨
    (n.space = "" ∧ (':' ∈ n.localName.data → n.localName.data.head? = some ':'))

instance (n : Name) : Decidable (TagSafe n) :=
  inferInstanceAs (Decidable ((n.space ≠ "" ∧ ':' ∉ n.space.data) ∨
    (n.space = "" ∧ (':' ∈ n.localName.data → n.localName.data.head? = some ':'))))

/-- The part of `pre ++ ':' :: post` before its first colon, and the rest, when `pre` has
no colon. -/
theorem span_first_colon {pre : List Char} (hpre : ':' ∉ pre) (post : List Char) :
    (pre ++ ':' :: post).takeWhile (fun c => c != ':') = pre ∧
      (pre ++ ':' :: post).dropWhile (fun c => c != ':') = ':' :: post := by
  induction pre with
  | nil => simp
  | cons c pre ih =>
    have hc : c ≠ ':' := fun h => hpre (h ▸ List.mem_cons_self _ _)
    simpa [hc] using ih (fun h => hpre (List.mem_cons_of_mem _ h))

/-- A list splits at its first colon in one way only. -/
theorem first_colon_unique {a b c d : List Char} (ha : ':' ∉ a) (hc : ':' ∉ c)
    (h : a ++ ':' :: b = c ++ ':' :: d) : a = c ∧ b = d := by
  obtain ⟨ha₁, ha₂⟩ := span_first_colon ha b
  obtain ⟨hc₁, hc₂⟩ := span_first_colon hc d
  rw [h] at ha₁ ha₂
  exact ⟨ha₁.symm.trans hc₁, (List.cons.inj (ha₂.symm.trans hc₂)).2⟩

/-- A key split at its first colon, with something before it. -/
theorem jsTagToName_split {t : String} {pre post : List Char} (ht : t.data = pre ++ ':' :: post)
    (hpre : ':' ∉ pre) (hne : pre ≠ []) : jsTagToName t = ⟨⟨pre⟩, ⟨post⟩⟩ := by
  obtain ⟨c, pre, rfl⟩ := List.exists_cons_of_ne_nil hne
  simp only [jsTagToName, List.span_eq_take_drop, ht, (span_first_colon hpre post).1,
    (span_first_colon hpre post).2]

/-- A key with no colon after its first character is a local name. -/
theorem jsTagToName_local {t : String} (ht : ':' ∈ t.data → t.data.head? = some ':') :
    jsTagToName t = ⟨"", t⟩ := by
  unfold jsTagToName
  split
  · rename_i c space x lcl h
    rw [List.span_eq_take_drop, Prod.mk.injEq] at h
    have hx : (c :: space) ++ x :: lcl = t.data := by
      rw [← h.1, ← h.2, List.takeWhile_append_dropWhile]
    have hcol : x = ':' := by
      have := List.head?_dropWhile_not (fun c => c != ':') t.data
      rw [h.2] at this
      simpa using this
    have hhead := ht (by rw [← hx, hcol]; simp)
    rw [← hx] at hhead
    have hc := List.mem_takeWhile_imp (h.1 ▸ List.mem_cons_self c space : c ∈ t.data.takeWhile _)
    exact absurd (by simpa using hhead) (by simpa using hc)
  · rfl

theorem exists_first_colon : ∀ {l : List Char}, ':' ∈ l → ∃ pre post, l = pre ++ ':' :: post ∧ ':' ∉ pre
  | c :: l, h => by
    by_cases hc : c = ':'
    · exact ⟨[], l, by simp [hc], List.not_mem_nil _⟩
    · obtain ⟨pre, post, rfl, hpre⟩ := exists_first_colon ((List.mem_cons.mp h).resolve_left (Ne.symm hc))
      exact ⟨c :: pre, post, rfl, by simp [hpre, Ne.symm hc]⟩

/-- A key splits at its first colon when a nonempty part comes before it. -/
theorem jsTagToName_cases (t : String) :
    (':' ∈ t.data → t.data.head? = some ':') ∨
      ∃ pre post, t.data = pre ++ ':' :: post ∧ ':' ∉ pre ∧ pre ≠ [] := by
  by_cases h : ':' ∈ t.data → t.data.head? = some ':'
  · exact .inl h
  · obtain ⟨hm, hh⟩ := Classical.not_imp.mp h
    obtain ⟨pre, post, hsplit, hpre⟩ := exists_first_colon hm
    refine .inr ⟨pre, post, hsplit, hpre, ?_⟩
    rintro rfl
    exact hh (by simp [hsplit])

theorem xmlNameToTag_jsTagToName (t : String) : xmlNameToTag (jsTagToName t) = t := by
  rcases jsTagToName_cases t with h | ⟨pre, post, hsplit, hpre, hne⟩
  · simp [jsTagToName_local h, xmlNameToTag]
  · have hs : (⟨pre⟩ : String) ≠ "" := fun he => hne (congrArg String.data he)
    rw [jsTagToName_split hsplit hpre hne]
    apply String.ext
    simp [xmlNameToTag, hs, hsplit]

theorem xmlNameToTag_data (s l : List Char) :
    (xmlNameToTag ⟨⟨s⟩, ⟨l⟩⟩).data = if s = [] then l else s ++ ':' :: l := by
  by_cases hs : s = []
  · subst hs
    simp [xmlNameToTag]
  · have hsne : (⟨s⟩ : String) ≠ "" := fun he => hs (congrArg String.data he)
    simp [xmlNameToTag, hs, hsne]

theorem jsTagToName_xmlNameToTag (n : Name) : jsTagToName (xmlNameToTag n) = n ↔ TagSafe n := by
  rcases n with ⟨⟨s⟩, ⟨l⟩⟩
  have htag := xmlNameToTag_data s l
  have hstr : ∀ a b : List Char, (⟨a⟩ : String) = ⟨b⟩ ↔ a = b :=
    fun a b => ⟨congrArg String.data, fun h => h ▸ rfl⟩
  rcases jsTagToName_cases (xmlNameToTag ⟨⟨s⟩, ⟨l⟩⟩) with h | ⟨pre, post, hsplit, hpre, hne⟩
  · -- the key is a local name: the name's namespace is empty, or starts with a colon
    rw [jsTagToName_local h]
    by_cases hs : s = []
    · subst hs
      simp only [if_pos] at htag
      simpa [TagSafe, htag, String.ext_iff] using h
    · rw [if_neg hs] at htag
      obtain ⟨c, s, rfl⟩ := List.exists_cons_of_ne_nil hs
      have hc : c = ':' := by simpa [htag] using h (by simp [htag])
      simp [TagSafe, String.ext_iff, hc]
  · -- the key splits at its first colon
    rw [jsTagToName_split hsplit hpre hne]
    by_cases hs : s = []
    · subst hs
      simp only [if_pos] at htag
      obtain rfl : l = pre ++ ':' :: post := htag.symm.trans hsplit
      obtain ⟨c, pre, rfl⟩ := List.exists_cons_of_ne_nil hne
      have hc : c ≠ ':' := fun h => hpre (h ▸ List.mem_cons_self _ _)
      simp [TagSafe, String.ext_iff, hc]
    · rw [if_neg hs, hsplit] at htag
      have hsafe : TagSafe ⟨⟨s⟩, ⟨l⟩⟩ ↔ ':' ∉ s := by simp [TagSafe, String.ext_iff, hs]
      rw [hsafe, Name.mk.injEq, hstr, hstr]
      exact ⟨fun h => h.1 ▸ hpre, fun hcol => first_colon_unique hpre hcol htag⟩

theorem run_contextObject (td : TokenDecoder σ) (ms : List (String × JValue)) (re : Error) (st : σ)
    (n : Name) :
    JSONDecoder.Run td ((JValue.object ms).tokens ++ [.delim rbrace])
        ((JSONDecoder.init re st).ContextObject n) =
      (thenOk (membersRun td ms st) (closeKey td (xmlNameToTag n))).map
        fun r => (td.End r.1 r.2, r.2) := by
  have e : (JValue.object ms).tokens ++ [.delim rbrace] = .delim lbrace ::
      (membersTokens ms ++ .delim rbrace :: (JsCtx.member (xmlNameToTag n) [] .top).after) := by
    simp [JValue.tokens, JsCtx.after, membersTokens]
  rw [JSONDecoder.Run, e, List.length_cons, runJSDecoder_succ]
  have h := (machine td re _).object ms (.member (xmlNameToTag n) [] .top) st (Nat.lt_succ_self _)
  simp only [JsCtx.owed, membersRun, thenOk_ok, thenOk_done] at h
  rw [← h]
  rfl

/-- **Keys and names round trip.** Every key is the key of the name it is read as, and a
name is read back from its key exactly when it is `TagSafe`. -/
theorem tag_roundTrip :
    (∀ t, xmlNameToTag (jsTagToName t) = t) ∧
      ∀ n, jsTagToName (xmlNameToTag n) = n ↔ TagSafe n :=
  ⟨xmlNameToTag_jsTagToName, jsTagToName_xmlNameToTag⟩

/-- A namespace URI is split at its scheme. -/
example : jsTagToName (xmlNameToTag ⟨"urn:x", "y"⟩) = ⟨"urn", "x:y"⟩ ∧ ¬ TagSafe ⟨"urn:x", "y"⟩ := by
  decide

/-- **`ContextObject` closes the element it names only for `TagSafe` names.** After
`ContextObject(n)`, an object followed by the closing brace of the object it sits in is
decoded as the members of `n`'s element, which is then closed by an `EndElement` of the
name the key of `n` reads back as: `n` exactly when `n` is `TagSafe`. -/
theorem contextObject_closes (td : TokenDecoder σ) (ms : List (String × JValue)) (re : Error)
    (st : σ) {n : Name} (hn : xmlNameToTag n ≠ "") :
    JSONDecoder.Run td ((JValue.object ms).tokens ++ [.delim rbrace])
        ((JSONDecoder.init re st).ContextObject n) =
      (thenOk (membersRun td ms st) (td.EndElement (jsTagToName (xmlNameToTag n)))).map
        (fun r => (td.End r.1 r.2, r.2)) ∧
    (jsTagToName (xmlNameToTag n) = n ↔ TagSafe n) := by
  have hk : closeKey td (xmlNameToTag n) = td.EndElement (jsTagToName (xmlNameToTag n)) :=
    funext fun _ => if_pos hn
  exact ⟨by rw [run_contextObject, hk], jsTagToName_xmlNameToTag n⟩

theorem contextObject_closes_recorder :
    xmlNameToTag ⟨"", "a"⟩ ≠ "" ∧
    (JSONDecoder.Run tokenRecorder ((JValue.object []).tokens ++ [.delim rbrace])
        ((JSONDecoder.init .eof []).ContextObject ⟨"", "a"⟩) =
      (thenOk (membersRun tokenRecorder [] []) (tokenRecorder.EndElement
        (jsTagToName (xmlNameToTag ⟨"", "a"⟩)))).map
        (fun r => (tokenRecorder.End r.1 r.2, r.2)) ∧
      (jsTagToName (xmlNameToTag ⟨"", "a"⟩) = ⟨"", "a"⟩ ↔ TagSafe ⟨"", "a"⟩)) :=
  ⟨by decide, contextObject_closes tokenRecorder [] .eof [] (by decide)⟩

end Opr8.Dom
