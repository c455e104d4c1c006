import Mathlib.Algebra.Group.Int
import Mathlib.Tactic.SplitIfs
import Opr8.Dom.NodeType

/-!
# Opr8 — character data and its edits

`text` holds the byte slice of a Text node, and of a Comment node, which embeds it. Its
`CharacterData` edits take Go `int` offsets and counts: `GoInt` is that type on a 64-bit
target, a value in `[-2^63, 2^63)`, whose `+` wraps (`GoInt.add`). `Bytes` is a Go byte
slice or string, whose length is an `int` too. A slice expression `v[i:j]` panics unless
`0 ≤ i ≤ j ≤ len(v)` (`slice`); the capacity beyond the length is not modelled, which no
edit below can observe: every expression that could read it is followed by another that
panics on the same arguments. `append` panics when the new length overflows `int`.
An edit returns the `error` it gives with the text it leaves, or `none` for a panic.

The node store keeps the data of a Text or Comment payload as a Lean string, the text its
UTF-8 bytes spell. `editString` makes an edit on such a string through its bytes
(`Bytes.ofString`) and reads the bytes it leaves back (`Bytes.toString?`); bytes that
spell no UTF-8 text, as an edit that cuts a character leaves, are beyond what a payload
holds, and `editString` answers `none` for them as for a panic.

Main results:

* `insertData_eq`, `deleteData_of_le`, `replaceData_of_le` — inside the documented bounds
  each edit gives the documented bytes; `deleteData_of_guard`, `replaceData_of_guard` —
  its guard fails with `ErrIndexSize` and the text unchanged; `text.edit_error_eq` — no
  edit changes the text when it returns an error.
* `deleteData_of_overflow` — an `offset+count` that wraps passes the guard and panics.
* `charData_negative_offset` — the guards of `DeleteData` and `ReplaceData` test the count
  and the end, not the offset: a negative offset that keeps the end in range passes them,
  and the slice expression then panics.
-/

namespace Opr8.Dom

/-! ## Go integers and byte slices -/

/-- Go's `int` on a 64-bit target. -/
structure GoInt where
  val : Int
  ge : -2 ^ 63 ≤ val
  lt : val < 2 ^ 63
deriving DecidableEq, Repr

namespace GoInt

/-- The two's complement reading of `x` modulo `2^64`. -/
def wrap (x : Int) : Int := (x + 2 ^ 63) % 2 ^ 64 - 2 ^ 63

theorem wrap_ge (x : Int) : -2 ^ 63 ≤ wrap x := by unfold wrap; omega

theorem wrap_lt (x : Int) : wrap x < 2 ^ 63 := by unfold wrap; omega

theorem wrap_of_range {x : Int} (h₁ : -2 ^ 63 ≤ x) (h₂ : x < 2 ^ 63) : wrap x = x := by
  unfold wrap; omega

/-- `a + b` on `int`: the sum, wrapped. -/
def add (a b : GoInt) : GoInt := ⟨wrap (a.val + b.val), wrap_ge _, wrap_lt _⟩

/-- A sum that does not overflow is the integer sum. -/
theorem add_val {a b : GoInt} (h₁ : -2 ^ 63 ≤ a.val + b.val) (h₂ : a.val + b.val < 2 ^ 63) :
    (a.add b).val = a.val + b.val :=
  wrap_of_range h₁ h₂

end GoInt

/-- A Go byte slice or string: its length is an `int`. -/
structure Bytes where
  data : List UInt8
  len_lt : data.length < 2 ^ 63
deriving DecidableEq, Repr

/-- The slice expression `v[i:j]`: a panic unless `0 ≤ i ≤ j ≤ len(v)`. -/
def slice (v : List UInt8) (i j : Int) : Option (List UInt8) :=
  if 0 ≤ i ∧ i ≤ j ∧ j ≤ v.length then some ((v.take j.toNat).drop i.toNat) else none

theorem slice_eq_some {v : List UInt8} {i j : Int} (h₀ : 0 ≤ i) (h₁ : i ≤ j)
    (h₂ : j ≤ v.length) : slice v i j = some ((v.take j.toNat).drop i.toNat) := by
  simp [slice, h₀, h₁, h₂]

theorem slice_eq_none {v : List UInt8} {i j : Int} (h : i < 0) : slice v i j = none := by
  simp [slice, Int.not_le.mpr h]

/-- `append` of the bytes `v`: a panic when the new length overflows `int`. -/
def mkBytes (v : List UInt8) : Option Bytes :=
  if h : v.length < 2 ^ 63 then some ⟨v, h⟩ else none

theorem mkBytes_of_lt {v : List UInt8} (h : v.length < 2 ^ 63) : mkBytes v = some ⟨v, h⟩ :=
  dif_pos h

/-! ## The edits -/

/-- `text`: the character data of a Text or Comment node. -/
structure text where
  value : Bytes
deriving DecidableEq, Repr

namespace text

/-- The length of the data, an `int`. -/
def len (t : text) : Int := t.value.data.length

/-- `t.InsertData(offset, arg)`. -/
def InsertData (t : text) (offset : GoInt) (arg : Bytes) : Option (Option Error × text) :=
  if 0 ≤ offset.val ∧ offset.val < t.len then do
    let pre ← slice t.value.data 0 offset.val
    let post ← slice t.value.data offset.val t.len
    let v ← mkBytes (pre ++ (arg.data ++ post))
    pure (none, ⟨v⟩)
  else some (some .indexSize, t)

/-- `t.DeleteData(offset, count)`. -/
def DeleteData (t : text) (offset count : GoInt) : Option (Option Error × text) :=
  if count.val < 0 ∨ (offset.add count).val > t.len then some (some .indexSize, t)
  else do
    let pre ← slice t.value.data 0 offset.val
    let post ← slice t.value.data (offset.add count).val t.len
    let v ← mkBytes (pre ++ post)
    pure (none, ⟨v⟩)

/-- `copy(t.value[offset:], src)`: the first `min(len(dst), len(src))` bytes from
`offset` on are overwritten. -/
def copyAt (v : List UInt8) (offset : Nat) (src : List UInt8) : List UInt8 :=
  let n := min (v.length - offset) src.length
  v.take offset ++ src.take n ++ v.drop (offset + n)

/-- `t.ReplaceData(offset, count, arg)`. -/
def ReplaceData (t : text) (offset count : GoInt) (arg : Bytes) : Option (Option Error × text) :=
  if count.val < 0 ∨ (offset.add count).val > t.len ∨ (arg.data.length : Int) < count.val then
    some (some .indexSize, t)
  else do
    let _ ← slice t.value.data offset.val t.len
    let src ← slice arg.data 0 count.val
    let v ← mkBytes (copyAt t.value.data offset.val.toNat src)
    pure (none, ⟨v⟩)

/-- `t.SetData(arg)`. -/
def SetData (_t : text) (arg : Bytes) : Option (Option Error × text) := some (none, ⟨arg⟩)

/-- `t.AppendData(arg)`. -/
def AppendData (t : text) (arg : Bytes) : Option (Option Error × text) := do
  let v ← mkBytes (t.value.data ++ arg.data)
  pure (none, ⟨v⟩)

end text

/-! ## What the edits do -/

namespace text

variable (t : text) (offset count : GoInt)

theorem len_eq : t.len = t.value.data.length := rfl

theorem len_lt : t.len < 2 ^ 63 := by
  have := t.value.len_lt
  rw [len_eq]
  omega

/-- **`InsertData` inside the bounds** gives `s[:offset] ++ arg ++ s[offset:]`, unless that
overflows `int`; outside them it fails with `ErrIndexSize` and the text unchanged. -/
theorem insertData_eq (arg : Bytes) :
    t.InsertData offset arg =
      if 0 ≤ offset.val ∧ offset.val < t.len then
        (mkBytes (t.value.data.take offset.val.toNat ++ (arg.data ++
          t.value.data.drop offset.val.toNat))).map fun v => (none, ⟨v⟩)
      else some (some .indexSize, t) := by
  unfold InsertData
  split_ifs with h
  · have h₁ : offset.val ≤ t.value.data.length := Int.le_of_lt h.2
    simp [slice, len_eq, h.1, h₁]
    cases mkBytes _ <;> rfl
  · rfl

/-- The guard of `DeleteData`: a negative count, or an end past the data, is
`ErrIndexSize` with the text unchanged. -/
theorem deleteData_of_guard (h : count.val < 0 ∨ (offset.add count).val > t.len) :
    t.DeleteData offset count = some (some .indexSize, t) := by
  simp [DeleteData, h]

/-- **`DeleteData` inside the bounds** gives `s[:offset] ++ s[offset+count:]`. -/
theorem deleteData_of_le (h₀ : 0 ≤ offset.val) (h₁ : 0 ≤ count.val)
    (h₂ : offset.val + count.val ≤ t.len) :
    (t.DeleteData offset count).map (fun r => (r.1, r.2.value.data)) =
      some (none, t.value.data.take offset.val.toNat ++
        t.value.data.drop (offset.val + count.val).toNat) := by
  have hlt := t.value.len_lt
  rw [len_eq] at h₂
  have hadd : (offset.add count).val = offset.val + count.val :=
    GoInt.add_val (by omega) (by omega)
  have hlen : (t.value.data.take offset.val.toNat ++
      t.value.data.drop (offset.val + count.val).toNat).length < 2 ^ 63 := by
    simp only [List.length_append, List.length_take, List.length_drop]; omega
  have hc : ¬ (count.val < 0 ∨ offset.val + count.val > t.value.data.length) := by omega
  simp [DeleteData, hadd, len_eq, hc, slice, h₀, show 0 ≤ offset.val + count.val by omega,
    show offset.val ≤ t.value.data.length by omega, h₂, mkBytes_of_lt hlen]

/-- The guard of `ReplaceData`. -/
theorem replaceData_of_guard (arg : Bytes) (h : count.val < 0 ∨
    (offset.add count).val > t.len ∨ (arg.data.length : Int) < count.val) :
    t.ReplaceData offset count arg = some (some .indexSize, t) := by
  simp [ReplaceData, h]

/-- **`ReplaceData` inside the bounds** overwrites `count` bytes at `offset` with the first
`count` bytes of `arg`. -/
theorem replaceData_of_le (arg : Bytes) (h₀ : 0 ≤ offset.val) (h₁ : 0 ≤ count.val)
    (h₂ : offset.val + count.val ≤ t.len) (h₃ : count.val ≤ arg.data.length) :
    (t.ReplaceData offset count arg).map (fun r => (r.1, r.2.value.data)) =
      some (none, t.value.data.take offset.val.toNat ++ arg.data.take count.val.toNat ++
        t.value.data.drop (offset.val + count.val).toNat) := by
  have hlt := t.value.len_lt
  rw [len_eq] at h₂
  have hadd : (offset.add count).val = offset.val + count.val :=
    GoInt.add_val (by omega) (by omega)
  have hcopy : copyAt t.value.data offset.val.toNat (arg.data.take count.val.toNat) =
      t.value.data.take offset.val.toNat ++ arg.data.take count.val.toNat ++
        t.value.data.drop (offset.val + count.val).toNat := by
    have hmin : min (t.value.data.length - offset.val.toNat)
        (arg.data.take count.val.toNat).length = count.val.toNat := by
      simp only [List.length_take]; omega
    simp only [copyAt, hmin, List.take_take, min_self]
    congr 2
    omega
  have hlen : (t.value.data.take offset.val.toNat ++ (arg.data.take count.val.toNat ++
      t.value.data.drop (offset.val + count.val).toNat)).length < 2 ^ 63 := by
    simp only [List.length_append, List.length_take, List.length_drop]; omega
  have hc : ¬ (count.val < 0 ∨ offset.val + count.val > t.value.data.length ∨
      (arg.data.length : Int) < count.val) := by omega
  simp [ReplaceData, hadd, len_eq, hc, slice, h₀, h₁, h₃,
    show offset.val ≤ t.value.data.length by omega, mkBytes_of_lt hlen, hcopy]

/-- **An end that overflows `int` panics**: `offset+count` wraps to a negative `int`,
which passes the guard of `DeleteData` and then starts the slice `t.value[offset+count:]`. -/
theorem deleteData_of_overflow (hc : 0 ≤ count.val) (hov : 2 ^ 63 ≤ offset.val + count.val) :
    t.DeleteData offset count = none := by
  have hneg : (offset.add count).val < 0 := by
    have := offset.lt; have := count.lt
    simp only [GoInt.add, GoInt.wrap]; omega
  have hg : ¬ (count.val < 0 ∨ (offset.add count).val > t.len) := by
    have := t.len_eq; omega
  simp [DeleteData, hg, slice_eq_none hneg]

end text

/-! ## The edits on a string -/

/-- The `CharacterData` edits, with their arguments. -/
inductive CharEdit where
  | setData (arg : String)
  | appendData (arg : String)
  | insertData (offset : GoInt) (arg : String)
  | deleteData (offset count : GoInt)
  | replaceData (offset count : GoInt) (arg : String)
deriving DecidableEq, Repr

/-- `[]byte(s)`: the bytes of a Go string, which a Lean string holds as its UTF-8
encoding. No Go string has `2^63` bytes. -/
def Bytes.ofString (s : String) : Option Bytes := mkBytes s.toUTF8.data.toList

/-- The characters `String.utf8DecodeChar?` reads off `a` from byte `i` on, at most `fuel`
of them; `none` at a byte that starts no character. -/
def decodeUTF8 (a : ByteArray) : Nat → Nat → Option (List Char)
  | 0, _ => some []
  | fuel + 1, i =>
    if i < a.size then do
      let c ← String.utf8DecodeChar? a i
      let cs ← decodeUTF8 a fuel (i + c.utf8Size)
      pure (c :: cs)
    else some []

/-- The Lean string whose UTF-8 encoding is `b`: every character takes a byte at least, so
`len(b)` steps read them all. `none` when `b` is no UTF-8 text, which a Go string may hold
and a Lean string cannot. -/
def Bytes.toString? (b : Bytes) : Option String :=
  (decodeUTF8 ⟨b.data.toArray⟩ b.data.length 0).map String.mk

namespace text

/-- The edit `e` on `t`, its string arguments as their bytes. -/
def edit (t : text) : CharEdit → Option (Option Error × text)
  | .setData arg => (Bytes.ofString arg).bind t.SetData
  | .appendData arg => (Bytes.ofString arg).bind t.AppendData
  | .insertData offset arg => (Bytes.ofString arg).bind (t.InsertData offset)
  | .deleteData offset count => t.DeleteData offset count
  | .replaceData offset count arg => (Bytes.ofString arg).bind (t.ReplaceData offset count)

/-- **An error leaves the text as it was**: the only error an edit returns is the
`ErrIndexSize` of its guard, before anything is written. -/
theorem edit_error_eq (t : text) {e : CharEdit} {err : Error} {t' : text}
    (h : t.edit e = some (some err, t')) : t' = t := by
  cases e <;> simp only [edit, Option.bind_eq_some] at h <;> (try obtain ⟨_, -, h⟩ := h) <;>
    simp only [SetData, AppendData, InsertData, DeleteData, ReplaceData] at h <;>
    (try split_ifs at h) <;> simp_all [Option.bind_eq_some]

end text

/-- The edit `e` on the data `d` of a Text or Comment payload: the error it answers and the
data it leaves, or `none` for a panic and for bytes that are no UTF-8 text. An error
writes nothing (`text.edit_error_eq`), and the data stays `d`. -/
def editString (d : String) (e : CharEdit) : Option (Option Error × String) :=
  (Bytes.ofString d).bind fun b => ((text.mk b).edit e).bind fun r =>
    match r.1 with
    | some err => some (some err, d)
    | none => r.2.value.toString?.map fun d' => (none, d')

example : editString "replaced" (.replaceData ⟨0, by decide, by decide⟩ ⟨6, by decide, by decide⟩
    "foobar") = some (none, "foobared") := by decide

/-- The error branch of `editString` keeps the data. -/
theorem editString_error {d d' : String} {e : CharEdit} {err : Error}
    (h : editString d e = some (some err, d')) : d' = d := by
  obtain ⟨b, -, h⟩ := Option.bind_eq_some.mp h
  obtain ⟨⟨_ | _, t'⟩, -, h⟩ := Option.bind_eq_some.mp h
  · obtain ⟨_, -, h⟩ := Option.map_eq_some'.mp h
    cases h
  · cases h
    rfl

/-! ## A negative offset -/

/-- **A negative offset panics.** `DeleteData` and `ReplaceData` check the count and the
end `offset+count`, but not the offset. A negative offset with a count that keeps the end
within the data, and an `arg` long enough, passes every check, and the slice expression
`t.value[:offset]` (in `DeleteData`) or `t.value[offset:]` (in `ReplaceData`) panics where
the documentation has `ErrIndexSize`. -/
theorem charData_negative_offset (t : text) (offset count : GoInt) (arg : Bytes)
    (ho : offset.val < 0) (hc : 0 ≤ count.val) (hend : offset.val + count.val ≤ t.len)
    (harg : count.val ≤ arg.data.length) :
    t.DeleteData offset count = none ∧ t.ReplaceData offset count arg = none := by
  have hadd : (offset.add count).val = offset.val + count.val :=
    GoInt.add_val (by have := offset.ge; omega) (by have := t.len_lt; omega)
  constructor
  · simp [text.DeleteData, hadd, Int.not_lt.mpr hc, Int.not_lt.mpr hend, slice, Int.not_le.mpr ho]
  · simp [text.ReplaceData, hadd, Int.not_lt.mpr hc, Int.not_lt.mpr hend, Int.not_lt.mpr harg,
      slice_eq_none ho]

/-- The text `abc`. -/
def abcText : text := ⟨⟨[97, 98, 99], by decide⟩⟩

/-- The `int` value `-1`. -/
def minusOne : GoInt := ⟨-1, by decide, by decide⟩

/-- The `int` value `1`. -/
def one : GoInt := ⟨1, by decide, by decide⟩

theorem charData_negative_offset_abc :
    minusOne.val < 0 ∧ 0 ≤ one.val ∧ minusOne.val + one.val ≤ abcText.len ∧
    one.val ≤ (⟨[120], by decide⟩ : Bytes).data.length ∧
    (abcText.DeleteData minusOne one = none ∧
      abcText.ReplaceData minusOne one ⟨[120], by decide⟩ = none) :=
  ⟨by decide, by decide, by decide, by decide,
    charData_negative_offset abcText minusOne one ⟨[120], by decide⟩ (by decide) (by decide)
      (by decide) (by decide)⟩

end Opr8.Dom
