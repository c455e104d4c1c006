import Opr8.Datastore.Schema

/-!
# Opr8 — the module collection and its `processed` flag

A `modules.Collection` holds the modules the YANG library (`goyang`) has read, and a flag
that says whether `Process` has run since. `Import(name)` and `ReadString(name, data)`
answer nil for a module already held, refuse a name that ends in `.yang` or holds the path
separator, and otherwise have the library read the module, from the YANG path or from the
string; `Import` first refuses an empty YANG path. `ImportAll` reads every `.yang` file the
walk of the YANG path visits and gathers an `importError` for each visit that fails. Every
read that succeeds clears the flag. `Process` has the library resolve every module, and
sets the flag exactly when that answers no error. `ModuleEntry` and `RootEntry` refuse to
answer while the flag is clear. `GetSchemaNode` stops its loop at a module holding the node
but never assigns its result, so it answers nil for every node (`getSchemaNode_eq_none`).

The library is a parameter (`Yang`): its `Read`, `Parse` and `Process` answer an error or
nil, and the modules after the call. The walk of the file system is given by the visits it
makes (`Visit`); `expandYANGPath` and `filepath.Walk` are not modelled. The separator is
the Unix one, `/`.

A run of the collection is a list of calls (`Call`). When the library leaves the modules as
they were on every read that fails (`Yang.ReadsAtomic`), the flag is sound over every run:
while it is set, the modules are exactly what the last `Process` that answered no error
left, and the readers answer from those modules only.

Main results:

* `readModule_cases` — what `Import` and `ReadString` do, their errors included.
* `call_keeps` — a call other than `Process` clears the flag or leaves the collection as
  it was.
* `run_processed` — after any run in which the flag ends set, the collection is the one
  the run started from, or the one its last `Process` left, which answered no error.
-/

namespace Opr8

set_option linter.dupNamespace false in
/-- `err.Error()`: the text of an error. `errors.Wrap` puts its message before the
cause's, with `": "` between them. -/
def Error.Error : Error → String
  | .hierarchyRequest => "hierarchy request error"
  | .indexSize => "index size error"
  | .eof => "EOF"
  | .unexpectedEOF => "unexpected EOF"
  | .new msg => msg
  | .wrap msg cause => msg ++ ": " ++ cause.Error

end Opr8

namespace Opr8.Datastore

open Opr8.Dom Xml

/-- What the collection asks of the YANG library: `ms.Read(name)` finds a module on the
YANG path and reads it, `ms.Parse(data, name)` reads one from a string, and
`ms.Process()` resolves every module read. Each answers its errors and the modules after
the call. -/
structure Yang where
  Read : String → List (String × Module) → Option Error × List (String × Module)
  Parse : String → String → List (String × Module) → Option Error × List (String × Module)
  Process : List (String × Module) → List Error × List (String × Module)

/-- The library leaves the modules as they were on every read that fails. -/
def Yang.ReadsAtomic (y : Yang) : Prop :=
  (∀ n ms, (y.Read n ms).1.isSome → (y.Read n ms).2 = ms) ∧
    ∀ d n ms, (y.Parse d n ms).1.isSome → (y.Parse d n ms).2 = ms

/-- One call of the callback `filepath.Walk` makes: the path, the error met there, and
whether the file is regular. -/
structure Visit where
  path : String
  err : Option String
  regular : Bool

/-- `importError{path, msg}.Error()`. -/
def importError (path msg : String) : Error :=
  .new (if path ≠ "" then path ++ ": " ++ msg else msg)

/-- `strings.HasSuffix(moduleName, ".yang") || strings.Contains(moduleName,
string(os.PathSeparator))`. -/
def invalidModuleName (moduleName : String) : Bool :=
  moduleName.endsWith ".yang" || moduleName.contains '/'

/-- `NewCollection()`: no module, not processed. -/
def NewCollection : Collection := ⟨[], false⟩

namespace Collection

/-- `c.ms.Modules[moduleName] != nil`. -/
def holds (c : Collection) (moduleName : String) : Bool :=
  (c.Modules.find? fun m => m.1 == moduleName).isSome

/-- The body `Import` and `ReadString` share: nil for a module already held, the error
for an invalid name, else the library's read, whose success clears the flag. -/
def readModule (read : List (String × Module) → Option Error × List (String × Module))
    (c : Collection) (moduleName : String) : Option Error × Collection :=
  if c.holds moduleName then (none, c)
  else if invalidModuleName moduleName then
    (some (.new ("received invalid module name " ++ moduleName)), c)
  else
    match read c.Modules with
    | (none, ms) => (none, ⟨ms, false⟩)
    | (some e, ms) => (some e, { c with Modules := ms })

/-- `c.Import(moduleName)`, on the YANG path `path`. -/
def Import (y : Yang) (path : List String) (c : Collection) (moduleName : String) :
    Option Error × Collection :=
  if path.length = 0 then
    (some (.new "no module paths to search for YANG modules, use SetYANGPath"), c)
  else c.readModule (y.Read moduleName) moduleName

/-- `c.ReadString(moduleName, data)`. -/
def ReadString (y : Yang) (c : Collection) (moduleName data : String) :
    Option Error × Collection :=
  c.readModule (y.Parse data moduleName) moduleName

/-- The callback of `ImportAll` on one visit, with the errors gathered so far. -/
def importVisit (y : Yang) (st : List Error × Collection) (v : Visit) :
    List Error × Collection :=
  match v.err with
  | some e => (st.1 ++ [importError v.path e], st.2)
  | none =>
    if v.regular && v.path.endsWith ".yang" then
      match y.Read v.path st.2.Modules with
      | (some e, ms) => (st.1 ++ [importError v.path e.Error], { st.2 with Modules := ms })
      | (none, ms) => (st.1, ⟨ms, false⟩)
    else st

/-- `c.ImportAll()`, given the visits of the walk of the expanded YANG path, in order. -/
def ImportAll (y : Yang) (c : Collection) (visits : List Visit) : List Error × Collection :=
  visits.foldl (importVisit y) ([], c)

/-- `c.Process()`. -/
def Process (y : Yang) (c : Collection) : List Error × Collection :=
  ((y.Process c.Modules).1, ⟨(y.Process c.Modules).2, (y.Process c.Modules).1.isEmpty⟩)

/-- `c.ModulesLen()`: the names without an `@`, the latest revisions. -/
def ModulesLen (c : Collection) : Nat :=
  (c.Modules.filter fun m => !m.1.data.contains '@').length

/-- `c.IterLatest(f)`: `f` on each latest revision, in the map's order, up to the first
error, which it answers. -/
def IterLatest (c : Collection) (f : Module → Option Error) : Option Error :=
  (c.Modules.filter fun m => !m.1.data.contains '@').findSome? fun m => f m.2

/-- `c.GetSchemaNode(schemaNodeID)`, with the library's `Entry.Find`: the loop stops at the
first latest module holding the node, but the result `e` is never assigned, so both
returns answer its zero value. -/
def GetSchemaNode (find : Entry → String → Option Entry) (c : Collection)
    (schemaNodeID : String) : Option Entry :=
  let e : Option Entry := none
  if (c.IterLatest fun m =>
      if (find m.entry schemaNodeID).isSome then some (.new "match") else none).isSome then e
  else none

end Collection

/-- The calls a user makes on a collection. -/
inductive Call where
  | Import (moduleName : String)
  | ReadString (moduleName data : String)
  | ImportAll (visits : List Visit)
  | Process

namespace Collection

/-- The collection after one call. -/
def call (y : Yang) (path : List String) (c : Collection) : Call → Collection
  | .Import n => (c.Import y path n).2
  | .ReadString n d => (c.ReadString y n d).2
  | .ImportAll vs => (c.ImportAll y vs).2
  | .Process => (c.Process y).2

/-- The collection after a run of calls. -/
def run (y : Yang) (path : List String) (c : Collection) (ks : List Call) : Collection :=
  ks.foldl (call y path) c

end Collection

/-! ## One call -/

namespace Collection

variable {y : Yang} {path : List String} {c : Collection}

/-- **What `Import` and `ReadString` do.** A module already held: nil, nothing changes. An
invalid name: the error naming it, nothing changes. Otherwise the library's answer, with
its modules, and the flag cleared when it answers nil. -/
theorem readModule_cases
    (read : List (String × Module) → Option Error × List (String × Module))
    (c : Collection) (moduleName : String) :
    (c.holds moduleName = true ∧ c.readModule read moduleName = (none, c)) ∨
      (c.holds moduleName = false ∧ invalidModuleName moduleName = true ∧
        c.readModule read moduleName =
          (some (.new ("received invalid module name " ++ moduleName)), c)) ∨
      (c.holds moduleName = false ∧ invalidModuleName moduleName = false ∧
        c.readModule read moduleName = ((read c.Modules).1,
          ⟨(read c.Modules).2, c.processed && (read c.Modules).1.isSome⟩)) := by
  unfold readModule
  cases hh : c.holds moduleName
  · cases hv : invalidModuleName moduleName
    · rcases read c.Modules with ⟨_ | e, ms⟩ <;> simp
    · simp
  · simp

/-- `GetSchemaNode` answers nil for every node, whatever the modules hold. -/
theorem getSchemaNode_eq_none (find : Entry → String → Option Entry) (c : Collection)
    (schemaNodeID : String) : c.GetSchemaNode find schemaNodeID = none := by
  unfold GetSchemaNode
  split <;> rfl

/-- `c'` is `c`, or its flag is clear. -/
def Keeps (c c' : Collection) : Prop := c'.processed = false ∨ c' = c

theorem Keeps.refl (c : Collection) : Keeps c c := .inr rfl

theorem Keeps.trans {c c' c'' : Collection} (h : Keeps c c') (h' : Keeps c' c'') :
    Keeps c c'' := by
  rcases h' with h' | rfl
  · exact .inl h'
  · exact h

section Atomic

variable (hy : y.ReadsAtomic)
include hy

omit hy in
theorem readModule_keeps {read : List (String × Module) → Option Error × List (String × Module)}
    (hread : (read c.Modules).1.isSome → (read c.Modules).2 = c.Modules) (moduleName : String) :
    Keeps c (c.readModule read moduleName).2 := by
  rcases readModule_cases read c moduleName with ⟨-, h⟩ | ⟨-, -, h⟩ | ⟨-, -, h⟩ <;> rw [h]
  · exact .refl c
  · exact .refl c
  · cases he : (read c.Modules).1 with
    | none => exact .inl (by simp [he])
    | some e => exact .inr (by simp [he, hread (by simp [he])])

theorem importVisit_keeps (st : List Error × Collection) (v : Visit) :
    Keeps st.2 (importVisit y st v).2 := by
  unfold importVisit
  split
  · exact .refl _
  · split
    · rcases hr : y.Read v.path st.2.Modules with ⟨_ | e, ms⟩
      · exact .inl rfl
      · have hms : ms = st.2.Modules := by simpa [hr] using hy.1 v.path st.2.Modules
        subst hms
        exact .refl _
    · exact .refl _

theorem importAll_keeps (c : Collection) (vs : List Visit) : Keeps c (c.ImportAll y vs).2 := by
  suffices ∀ st : List Error × Collection, Keeps st.2 (vs.foldl (importVisit y) st).2 from
    this ([], c)
  induction vs with
  | nil => exact fun st => .refl _
  | cons v vs ih => exact fun st => (importVisit_keeps hy st v).trans (ih _)

/-- **A call other than `Process` never sets the flag.** It clears the flag, or leaves the
collection as it was: every read that does not clear it has failed, and left the modules. -/
theorem call_keeps (c : Collection) {k : Call} (hk : k ≠ .Process) :
    Keeps c (c.call y path k) := by
  cases k with
  | Import n =>
    simp only [call, Import]
    split
    · exact .refl c
    · exact readModule_keeps (hy.1 n c.Modules) n
  | ReadString n d => exact readModule_keeps (hy.2 d n c.Modules) n
  | ImportAll vs => exact importAll_keeps hy c vs
  | Process => exact absurd rfl hk

/-! ## Runs -/

omit hy in
theorem run_append (c : Collection) (ks : List Call) (k : Call) :
    c.run y path (ks ++ [k]) = (c.run y path ks).call y path k := by
  simp [run, List.foldl_append]

/-- **The flag is sound over every run.** When the flag ends set, either no call of the run
changed the collection, or the collection is what the last `Process` of the run left,
which answered no error: no call after it is a `Process`, and every one of them kept the
flag, so none read a module. -/
theorem run_processed (c : Collection) (ks : List Call)
    (h : (c.run y path ks).processed = true) :
    c.run y path ks = c ∨
      ∃ pre post, ks = pre ++ .Process :: post ∧ (∀ k ∈ post, k ≠ .Process) ∧
        (y.Process (c.run y path pre).Modules).1 = [] ∧
        c.run y path ks = ⟨(y.Process (c.run y path pre).Modules).2, true⟩ := by
  induction ks using List.reverseRecOn with
  | nil => exact .inl rfl
  | append_singleton ks k ih =>
    rw [run_append] at h ⊢
    by_cases hk : k = .Process
    · subst hk
      have he : (y.Process (c.run y path ks).Modules).1 = [] := by
        simpa [call, Process] using h
      exact .inr ⟨ks, [], rfl, nofun, he, by simp [call, Process, he]⟩
    · rcases (call_keeps hy (c.run y path ks) hk : Keeps _ ((c.run y path ks).call y path k))
        with hf | hkeep
      · exact absurd h (by simp [hf])
      · rw [hkeep] at h ⊢
        rcases ih h with hc | ⟨pre, post, rfl, hpost, he, hr⟩
        · exact .inl hc
        · -- the call `k` joins the calls after the last `Process`
          refine .inr ⟨pre, post ++ [k], by simp, fun k' hk' => ?_, he, hr⟩
          rcases List.mem_append.mp hk' with hk' | hk'
          · exact hpost k' hk'
          · exact (List.mem_singleton.mp hk') ▸ hk

end Atomic

/-- A library whose reads always succeed and add the module, and whose `Process` answers
no error and changes nothing. -/
def addingYang : Yang where
  Read n ms := (none, ms ++ [(n, ⟨none, ⟨.DirectoryEntry, "", []⟩⟩)])
  Parse _ n ms := (none, ms ++ [(n, ⟨none, ⟨.DirectoryEntry, "", []⟩⟩)])
  Process ms := ([], ms)

theorem run_processed_addingYang :
    addingYang.ReadsAtomic ∧
    (NewCollection.run addingYang ["yang"] [.Import "a", .Process]).processed = true ∧
    (NewCollection.run addingYang ["yang"] [.Import "a", .Process] = NewCollection ∨
      ∃ pre post, [Call.Import "a", .Process] = pre ++ .Process :: post ∧
        (∀ k ∈ post, k ≠ .Process) ∧
        (addingYang.Process (NewCollection.run addingYang ["yang"] pre).Modules).1 = [] ∧
        NewCollection.run addingYang ["yang"] [.Import "a", .Process] =
          ⟨(addingYang.Process (NewCollection.run addingYang ["yang"] pre).Modules).2, true⟩) :=
  have hy : addingYang.ReadsAtomic := .intro (fun _ _ h => nomatch h) fun _ _ _ h => nomatch h
  ⟨hy, rfl, run_processed hy NewCollection [.Import "a", .Process] rfl⟩

end Collection

end Opr8.Datastore
