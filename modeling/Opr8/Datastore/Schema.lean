import Mathlib.Data.List.Nodup
import Opr8.Xml
import Opr8.Dom.NodeType

/-!
# Opr8 — the YANG schema the decoder reads

The schema-guided decoder (`datastore.Decoder`) checks each element against a tree of
`yang.Entry` values, which the external YANG compiler builds. The model keeps of an entry
what the decoder reads: its kind, the namespace of its module (`Namespace().Name`), and its
children by name. `Dir` is a Go map, which has no order; the model keeps it as a list, in an
order it fixes, and looks a name up at its first occurrence.

The module collection (`modules.Collection`) is kept as its modules by name, each with its
namespace and its entry, and the `processed` flag its accessors check. Of the collection
the decoder uses `RootEntry` (the top-level entry for a namespace and a local name) and
`ModuleEntry` (a module by name, for YANG/JSON names).

A name is resolved before it is looked up: `rfc6020Lookup` passes it through,
`rfc7951Lookup` reads its namespace as a module name and puts the module's namespace in its
place.

`dataChildIn` is the lookup under any iteration order of the two maps it ranges over.
`dataChild_any_order` shows that, with the distinct keys every Go map has and at most one
candidate for the name, every order gives the answer of the fixed one.
-/

namespace Opr8.Datastore

open Opr8.Dom Xml

/-- `yang.EntryKind`. -/
inductive EntryKind where
  | LeafEntry
  | DirectoryEntry
  | AnyDataEntry
  | AnyXMLEntry
  | CaseEntry
  | ChoiceEntry
  | InputEntry
  | NotificationEntry
  | OutputEntry
  | DeviateEntry
deriving DecidableEq, Repr

/-- `yang.Entry`, as far as the decoder reads it. -/
structure Entry where
  Kind : EntryKind
  /-- `Namespace().Name`: the namespace of the entry's module. -/
  ns : String
  Dir : List (String × Entry)

/-- `e.Dir[name]`. -/
def Entry.child (e : Entry) (name : String) : Option Entry :=
  (e.Dir.find? fun c => c.1 == name).map (·.2)

/-- `isData`: a leaf, a container or list, an anyxml or an anydata node. -/
def isData (e : Entry) : Bool :=
  match e.Kind with
  | .LeafEntry | .DirectoryEntry | .AnyXMLEntry | .AnyDataEntry => true
  | _ => false

/-- `e.Dir[lcl]` when it is a data node. -/
def dataIn (e : Entry) (lcl : String) : Option Entry :=
  match e.child lcl with
  | some next => if isData next then some next else none
  | none => none

/-- One round of the loop of `dataChild`, at the child `ch`: a data node under `ch` when it
is a choice or a case, then one under a case child of `ch`. -/
def dataUnder (ch : Entry) (lcl : String) : Option Entry :=
  ((if ch.Kind = .ChoiceEntry ∨ ch.Kind = .CaseEntry then dataIn ch lcl else none) <|>
    ch.Dir.findSome? fun chch => if chch.2.Kind = .CaseEntry then dataIn chch.2 lcl else none)

/-- `dataChild(e, n)`: the data node named `n.Local` directly under `e`, else the first one
the loop over `e.Dir` finds under a choice or case child, or under a case grandchild. -/
def dataChild (e : Option Entry) (n : Name) : Option Entry :=
  match e with
  | none => none
  | some e => (dataIn e n.localName <|> e.Dir.findSome? fun ch => dataUnder ch.2 n.localName)

/-! ## The lookup under any iteration order

Go visits a map in an order it chooses anew at every `range`. `dataChildIn` is the loop of
`dataChild` with those orders given: `outer` for `e.Dir`, and `inner ch` for `ch.Dir` at
the child `ch`; a lookup `m[name]` reads the map, whatever the order. `dataChild` is the
loop in the order the model keeps. -/

/-- One round of the loop of `dataChild`, with the inner loop visiting `order`. -/
def dataUnderIn (order : List (String × Entry)) (ch : Entry) (lcl : String) : Option Entry :=
  ((if ch.Kind = .ChoiceEntry ∨ ch.Kind = .CaseEntry then dataIn ch lcl else none) <|>
    order.findSome? fun chch => if chch.2.Kind = .CaseEntry then dataIn chch.2 lcl else none)

/-- `dataChild(e, n)` with the loops visiting `outer` and `inner`. -/
def dataChildIn (outer : List (String × Entry)) (inner : String × Entry → List (String × Entry))
    (e : Entry) (lcl : String) : Option Entry :=
  dataIn e lcl <|> outer.findSome? fun ch => dataUnderIn (inner ch) ch.2 lcl

theorem dataChild_eq_in (e : Entry) (n : Name) :
    dataChild (some e) n = dataChildIn e.Dir (fun ch => ch.2.Dir) e n.localName := rfl

/-- The maps `dataChild` reads, `e.Dir`, the `Dir` of each child and of each grandchild,
have distinct keys, as Go maps do. -/
structure LookupMaps (e : Entry) : Prop where
  top : (e.Dir.map (·.1)).Nodup
  child : ∀ ch ∈ e.Dir, (ch.2.Dir.map (·.1)).Nodup
  grandchild : ∀ ch ∈ e.Dir, ∀ chch ∈ ch.2.Dir, (chch.2.Dir.map (·.1)).Nodup

/-- `x` is a data node held under the key `lcl` in the map `d`. -/
def DataNamed (d : List (String × Entry)) (lcl : String) (x : Entry) : Prop :=
  (lcl, x) ∈ d ∧ isData x = true

/-- The data nodes named `lcl` that the documentation has `dataChild` find under `e`: a
child of `e`, a child of a choice or case child of `e`, or a child of a case grandchild of
`e`. -/
def Candidate (e : Entry) (lcl : String) (x : Entry) : Prop :=
  DataNamed e.Dir lcl x ∨ ∃ ch ∈ e.Dir,
    ((ch.2.Kind = .ChoiceEntry ∨ ch.2.Kind = .CaseEntry) ∧ DataNamed ch.2.Dir lcl x) ∨
      ∃ chch ∈ ch.2.Dir, chch.2.Kind = .CaseEntry ∧ DataNamed chch.2.Dir lcl x

theorem dataIn_some {x d : Entry} {lcl : String} (h : dataIn x lcl = some d) :
    DataNamed x.Dir lcl d := by
  unfold dataIn Entry.child at h
  rcases hf : x.Dir.find? (fun c => c.1 == lcl) with _ | c <;> rw [hf] at h
  · cases h
  · simp only [Option.map_some'] at h
    split_ifs at h with hd
    cases h
    have hk : c.1 = lcl := by simpa using List.find?_some hf
    exact ⟨hk ▸ List.mem_of_find?_eq_some hf, hd⟩

/-- In a map with distinct keys, a lookup that finds no data node leaves none under the
key. -/
theorem dataIn_none {x : Entry} {lcl : String} (hk : (x.Dir.map (·.1)).Nodup)
    (h : dataIn x lcl = none) (d : Entry) : ¬ DataNamed x.Dir lcl d := by
  rintro ⟨hm, hd⟩
  unfold dataIn Entry.child at h
  rcases hf : x.Dir.find? (fun c => c.1 == lcl) with _ | c <;> rw [hf] at h
  · exact List.find?_eq_none.mp hf _ hm (by simp)
  · simp only [Option.map_some'] at h
    have hc : c = (lcl, d) := List.inj_on_of_nodup_map hk (List.mem_of_find?_eq_some hf) hm
      (by simpa using List.find?_some hf)
    subst hc
    simp [hd] at h

variable {outer : List (String × Entry)} {inner : String × Entry → List (String × Entry)}
  {e : Entry} {lcl : String}

/-- What the loop finds is a candidate, in any order. -/
theorem dataChildIn_sound (ho : outer.Perm e.Dir) (hi : ∀ ch ∈ e.Dir, (inner ch).Perm ch.2.Dir)
    {d : Entry} (h : dataChildIn outer inner e lcl = some d) : Candidate e lcl d := by
  rcases (Option.orElse_eq_some _ _ _).mp h with h | ⟨-, h⟩
  · exact .inl (dataIn_some h)
  obtain ⟨ch, hch, h⟩ := List.exists_of_findSome?_eq_some h
  have hch : ch ∈ e.Dir := ho.mem_iff.mp hch
  refine .inr ⟨ch, hch, ?_⟩
  rcases (Option.orElse_eq_some _ _ _).mp h with h | ⟨-, h⟩
  · split_ifs at h with hk
    exact .inl ⟨hk, dataIn_some h⟩
  · obtain ⟨chch, hchch, h⟩ := List.exists_of_findSome?_eq_some h
    split_ifs at h with hk
    exact .inr ⟨chch, (hi ch hch).mem_iff.mp hchch, hk, dataIn_some h⟩

/-- When the loop finds nothing, there is no candidate, in any order. -/
theorem dataChildIn_complete (hm : LookupMaps e) (ho : outer.Perm e.Dir)
    (hi : ∀ ch ∈ e.Dir, (inner ch).Perm ch.2.Dir) (h : dataChildIn outer inner e lcl = none)
    (x : Entry) : ¬ Candidate e lcl x := by
  obtain ⟨h₁, h₂⟩ := (Option.orElse_eq_none _ _).mp h
  rw [List.findSome?_eq_none_iff] at h₂
  rintro (hx | ⟨ch, hch, hx⟩)
  · exact dataIn_none hm.top h₁ x hx
  obtain ⟨h₃, h₄⟩ := (Option.orElse_eq_none _ _).mp (h₂ ch (ho.mem_iff.mpr hch))
  rw [List.findSome?_eq_none_iff] at h₄
  rcases hx with ⟨hk, hx⟩ | ⟨chch, hchch, hk, hx⟩
  · rw [if_pos hk] at h₃
    exact dataIn_none (hm.child ch hch) h₃ x hx
  · have h₅ := h₄ chch ((hi ch hch).mem_iff.mpr hchch)
    rw [if_pos hk] at h₅
    exact dataIn_none (hm.grandchild ch hch chch hchch) h₅ x hx

/-- **The lookup through choices and cases, in any order.** Let the maps under `e` have
distinct keys, and let at most one data node named `n` stand under `e`, under its choice
and case children and under its case grandchildren. Then whatever orders the loops visit
the maps in, `dataChild` returns that node when there is one and nil when there is none:
the same result as in the order the model keeps. -/
theorem dataChild_any_order (e : Entry) (n : Name) (hm : LookupMaps e)
    (huniq : ∀ x y, Candidate e n.localName x → Candidate e n.localName y → x = y)
    (outer : List (String × Entry)) (inner : String × Entry → List (String × Entry))
    (ho : outer.Perm e.Dir) (hi : ∀ ch ∈ e.Dir, (inner ch).Perm ch.2.Dir) :
    (∀ d, dataChildIn outer inner e n.localName = some d ↔ Candidate e n.localName d) ∧
    (dataChildIn outer inner e n.localName = none ↔ ∀ x, ¬ Candidate e n.localName x) ∧
    dataChildIn outer inner e n.localName = dataChild (some e) n := by
  -- both orders find the unique candidate, or both find nothing
  have hspec : ∀ {o : List (String × Entry)} {i : String × Entry → List (String × Entry)},
      o.Perm e.Dir → (∀ ch ∈ e.Dir, (i ch).Perm ch.2.Dir) →
      (∀ d, dataChildIn o i e n.localName = some d ↔ Candidate e n.localName d) ∧
      (dataChildIn o i e n.localName = none ↔ ∀ x, ¬ Candidate e n.localName x) :=
    fun ho hi => by
      have hiff : ∀ d, dataChildIn _ _ e n.localName = some d ↔ Candidate e n.localName d :=
        fun d => ⟨dataChildIn_sound ho hi, fun hd => by
          rcases hr : dataChildIn _ _ e n.localName with _ | d'
          · exact absurd hd (dataChildIn_complete hm ho hi hr d)
          · rw [huniq d' d (dataChildIn_sound ho hi hr) hd]⟩
      refine ⟨hiff, dataChildIn_complete hm ho hi, fun hno => ?_⟩
      rcases hr : dataChildIn _ _ e n.localName with _ | d'
      · rfl
      · exact absurd ((hiff d').mp hr) (hno d')
  obtain ⟨hs, hn⟩ := hspec ho hi
  obtain ⟨hs', hn'⟩ := hspec (List.Perm.refl e.Dir) (fun ch _ => List.Perm.refl ch.2.Dir)
  refine ⟨hs, hn, ?_⟩
  rw [dataChild_eq_in]
  rcases hr : dataChildIn outer inner e n.localName with _ | d
  · exact ((hn'.mpr (hn.mp hr))).symm
  · exact ((hs' d).mpr ((hs d).mp hr)).symm

/-- The leaf `mac`. -/
def macLeaf : Entry := ⟨.LeafEntry, "urn:m", []⟩

/-- A container holding the leaf `name` and the choice `addr`, whose case `eth` holds the
leaf `mac`. -/
def ifaceEntry : Entry :=
  ⟨.DirectoryEntry, "urn:m", [("name", ⟨.LeafEntry, "urn:m", []⟩),
    ("addr", ⟨.ChoiceEntry, "urn:m", [("eth", ⟨.CaseEntry, "urn:m", [("mac", macLeaf)]⟩)]⟩)]⟩

theorem dataChild_any_order_iface :
    LookupMaps ifaceEntry ∧
    (∀ x y, Candidate ifaceEntry "mac" x → Candidate ifaceEntry "mac" y → x = y) ∧
    ifaceEntry.Dir.reverse.Perm ifaceEntry.Dir ∧
    (∀ ch ∈ ifaceEntry.Dir, ch.2.Dir.Perm ch.2.Dir) ∧
    ((∀ d, dataChildIn ifaceEntry.Dir.reverse (fun ch => ch.2.Dir) ifaceEntry "mac" = some d ↔
        Candidate ifaceEntry "mac" d) ∧
      (dataChildIn ifaceEntry.Dir.reverse (fun ch => ch.2.Dir) ifaceEntry "mac" = none ↔
        ∀ x, ¬ Candidate ifaceEntry "mac" x) ∧
      dataChildIn ifaceEntry.Dir.reverse (fun ch => ch.2.Dir) ifaceEntry "mac" =
        dataChild (some ifaceEntry) ⟨"", "mac"⟩) := by
  have hm : LookupMaps ifaceEntry := ⟨by decide, by decide, by decide⟩
  have hc : ∀ x, Candidate ifaceEntry "mac" x → x = macLeaf := by
    rintro x (⟨hm, -⟩ | ⟨ch, hch, ⟨-, hm, -⟩ | ⟨chch, hchch, -, hm, -⟩⟩)
    · simp [ifaceEntry] at hm
    · simp only [ifaceEntry, List.mem_cons, List.mem_singleton, List.not_mem_nil,
        or_false] at hch
      rcases hch with rfl | rfl <;> simp at hm
    · simp only [ifaceEntry, List.mem_cons, List.mem_singleton, List.not_mem_nil,
        or_false] at hch
      rcases hch with rfl | rfl
      · simp at hchch
      · simp only [List.mem_singleton] at hchch
        subst hchch
        simpa using hm
  have hu : ∀ x y, Candidate ifaceEntry "mac" x → Candidate ifaceEntry "mac" y → x = y :=
    fun x y hx hy => (hc x hx).trans (hc y hy).symm
  exact ⟨hm, hu, List.reverse_perm _, fun ch _ => List.Perm.refl _,
    dataChild_any_order ifaceEntry ⟨"", "mac"⟩ hm hu _ _ (List.reverse_perm _)
      fun ch _ => List.Perm.refl _⟩

/-- A `yang.Module` as the collection reads it: its namespace (`nil` is `none`) and its
entry, `yang.ToEntry`. -/
structure Module where
  Namespace : Option String
  entry : Entry

/-- `modules.Collection`: the modules by name (a name with an `@` is an older revision),
and whether `Process` has run without error. -/
structure Collection where
  Modules : List (String × Module)
  processed : Bool

namespace Collection

/-- `ModuleEntry`: the entry of the module of that name. -/
def ModuleEntry (c : Collection) (name : String) : Except Error Entry :=
  if c.processed = false then .error (.new "must call Process first")
  else
    match c.Modules.find? fun m => m.1 == name with
    | some m => .ok m.2.entry
    | none => .error (.new "not found")

/-- `RootEntry`: over the latest revisions (`IterLatest`), the first module whose
namespace is the name's, and in it the top-level entry of the name's local part. -/
def RootEntry (c : Collection) (name : Name) : Except Error Entry :=
  if c.processed = false then .error (.new "must call Process first")
  else
    match (c.Modules.filter fun m => !m.1.data.contains '@').findSome? fun m =>
        if m.2.Namespace = some name.space then m.2.entry.child name.localName else none with
    | some e => .ok e
    | none => .error (.new "not found")

end Collection

/-- `%q` of a string: quoted, with quotes and backslashes escaped. Go also escapes control
and non-printable characters; the model leaves them as they are. -/
def goQuote (s : String) : String :=
  "\"" ++ String.join (s.data.map fun c =>
    if c = '"' then "\\\"" else if c = '\\' then "\\\\" else c.toString) ++ "\""

/-- `errUnexpectedElementName`. -/
def errUnexpectedElementName (n : Name) : Error :=
  if n.space ≠ "" then
    .new ("unexpected child element <" ++ n.localName ++ " xmlns=" ++ goQuote n.space ++ ">")
  else .new ("unexpected child element <" ++ n.localName ++ ">")

/-- `rfc6020Lookup`: YANG/XML names are used as they are. -/
def rfc6020Lookup (_ : Collection) (n : Name) : Except Error Name := .ok n

/-- `rfc7951Lookup`: in YANG/JSON the namespace of a name is a module name; it is replaced
by that module's namespace. -/
def rfc7951Lookup (ms : Collection) (n : Name) : Except Error Name :=
  if n.space = "" then .ok n
  else
    match ms.ModuleEntry n.space with
    | .ok mod => .ok ⟨mod.ns, n.localName⟩
    | .error _ =>
      .error (.new ("unexpected element <" ++ n.localName ++ "> in unknown module " ++
        goQuote n.space))

/-- The `nameLookup` a decoder holds. `Initialize` always sets one, so the nil function of
a decoder never initialized is not modelled. -/
inductive NameLookup where
  | rfc6020
  | rfc7951
deriving DecidableEq, Repr

/-- Calling the `nameLookup`. -/
def NameLookup.call : NameLookup → Collection → Name → Except Error Name
  | .rfc6020 => rfc6020Lookup
  | .rfc7951 => rfc7951Lookup

end Opr8.Datastore
