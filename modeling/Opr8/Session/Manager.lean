import Mathlib.Data.UInt
import Opr8.Dom.NodeType

/-!
# Opr8 — the session manager

The session manager accepts sessions over transports and tracks each under the `ID` it
gave it, a `uint32` in which `0` names no session. `Accept` finds an acceptor for the
transport, draws IDs from its `IDGenerator` until one is valid and untracked, at most
`maxIDtries` times, has the acceptor open the session under that ID, and records it; a
goroutine removes the entry when the session ends. Calls hold the manager's lock, so a run
of the manager is a sequence of `Accept` calls and end-of-session removals (`Event`).

An `IDGenerator` is modelled by its `NextID` method over the generator's own state;
`genIncrement`, the default, counts in a `uint32` and skips `0`. A transport is given by
the type name `%T` prints and by its identity; a session by its `ID()` and its identity.
Go's parameter `using` is `transport` here, `using` being a Lean keyword.

Main results:

* `getID_of_collide`, `accept_of_collide` — when every ID the retry loop draws is `0` or
  tracked, the loop leaves the last one drawn, and `Accept` opens and records a session
  under it when that ID is not `0`.
* `run_churn` — with `genIncrement`, sessions that open and end one after another move
  its counter while the tracked sessions stay.
* `genIncrement_wrap_overwrites` — a run of the default manager in which `genIncrement`'s
  counter wraps while the sessions `1` to `16` are tracked: the next `Accept` records a new
  session under `16`, over the tracked one.
-/

namespace Opr8.Session

variable {G : Type}

/-! ## Identifiers and generators -/

theorem UInt32.toNat_inj {a b : UInt32} (h : a.toNat = b.toNat) : a = b :=
  UInt32.eq_of_toBitVec_eq (BitVec.eq_of_toNat_eq h)

theorem UInt32.toNat_add_one {g : UInt32} (h : g.toNat < 2 ^ 32 - 1) :
    (g + 1).toNat = g.toNat + 1 := by
  simp only [UInt32.toNat, UInt32.add_def] at *
  rw [BitVec.toNat_add]
  simp
  omega

/-- `IDGenerator`: the method `NextID` over the generator's state `G`. -/
structure IDGenerator (G : Type) where
  NextID : G → UInt32 × G

/-- `genIncrement`, whose state is its `id` field: count up, skipping `0`. -/
def genIncrement : IDGenerator UInt32 where
  NextID id :=
    let id := id + 1
    let id := if id = 0 then id + 1 else id
    (id, id)

theorem UInt32.add_one_ne_zero {g : UInt32} (h : g.toNat < 2 ^ 32 - 1) : g + 1 ≠ 0 :=
  fun e => by
    have h₁ := UInt32.toNat_add_one h
    rw [e] at h₁
    exact absurd h₁ (by simp)

theorem genIncrement_next {g : UInt32} (h : g.toNat < 2 ^ 32 - 1) :
    genIncrement.NextID g = (g + 1, g + 1) := by
  simp [genIncrement, UInt32.add_one_ne_zero h]

/-! ## The manager -/

/-- A transport: the type name `%T` prints for it, and its identity. -/
structure Transport where
  goType : String
  conn : Nat
deriving DecidableEq, Repr

/-- A server session: its `ID()`, and its identity. -/
structure Server where
  ID : UInt32
  ref : Nat
deriving DecidableEq, Repr

/-- `Acceptor`: whether it takes a transport, and the session it opens on one under an
ID. -/
structure Acceptor where
  Supported : Transport → Bool
  Accept : Transport → UInt32 → Except Error Server

/-- `manager`: the acceptors, the tracked sessions by ID, and the generator's state. -/
structure manager (G : Type) where
  acc : List Acceptor
  sessions : UInt32 → Option Server
  idgen : G

/-- `WithAcceptor`. -/
def WithAcceptor (acc : List Acceptor) (m : manager G) : manager G := { m with acc := m.acc ++ acc }

/-- `NewManager`, with the default generator `genIncrement` at `0`. -/
def NewManager (options : List (manager UInt32 → manager UInt32)) : manager UInt32 :=
  options.foldl (fun m option => option m) ⟨[], fun _ => none, 0⟩

/-- `maxIDtries`. -/
def maxIDtries : Nat := 16

/-- The retry loop of `Accept`: at most `n` draws, stopping at the first ID that is not `0`
and not tracked; otherwise `id` keeps the last one drawn. -/
def getID (gen : IDGenerator G) (sessions : UInt32 → Option Server) :
    Nat → UInt32 → G → UInt32 × G
  | 0, id, g => (id, g)
  | n + 1, _, g =>
    let (id, g) := gen.NextID g
    if id ≠ 0 ∧ sessions id = none then (id, g) else getID gen sessions n id g

/-- `mgr.Accept(ctx, transport)`: the session, or the error, and the manager it leaves. -/
def manager.Accept (gen : IDGenerator G) (mgr : manager G) (transport : Transport) :
    Except Error Server × manager G :=
  match mgr.acc.find? (·.Supported transport) with
  | none => (.error (.new ("failed to create session using transport " ++ transport.goType)), mgr)
  | some acceptor =>
    let (id, g) := getID gen mgr.sessions maxIDtries 0 mgr.idgen
    let mgr := { mgr with idgen := g }
    if id = 0 then
      (.error (.new ("failed to get unique session ID after " ++ toString maxIDtries ++
        " tries")), mgr)
    else
      match acceptor.Accept transport id with
      | .error err => (.error (.wrap "failed to accept transport" err), mgr)
      | .ok serverSession =>
        if serverSession.ID ≠ id then
          (.error (.new ("unexpected session ID " ++ toString serverSession.ID.toNat ++
            ", wanted " ++ toString id.toNat)), mgr)
        else (.ok serverSession,
          { mgr with sessions := Function.update mgr.sessions id (some serverSession) })

/-- What the manager sees happen: an `Accept` call, or the end of the session accepted
under an ID, whose goroutine deletes that ID's entry. -/
inductive Event where
  | accept (transport : Transport)
  | sessionEnd (id : UInt32)

/-- One event. -/
def manager.step (gen : IDGenerator G) (mgr : manager G) : Event → manager G
  | .accept transport => (mgr.Accept gen transport).2
  | .sessionEnd id => { mgr with sessions := Function.update mgr.sessions id none }

/-- A run of events. -/
def manager.run (gen : IDGenerator G) (mgr : manager G) (es : List Event) : manager G :=
  es.foldl (manager.step gen) mgr

/-! ## The retry loop -/

/-- The IDs that `n` draws take from the state `g`, and the state they leave. -/
def draws (gen : IDGenerator G) : Nat → G → List UInt32 × G
  | 0, g => ([], g)
  | n + 1, g =>
    let r := draws gen n (gen.NextID g).2
    ((gen.NextID g).1 :: r.1, r.2)

/-- **When every draw collides** with `0` or a tracked ID, the loop leaves the last ID
drawn, and the state after all the draws. -/
theorem getID_of_collide (gen : IDGenerator G) (sessions : UInt32 → Option Server) :
    ∀ (n : Nat) (id : UInt32) (g : G), (∀ x ∈ (draws gen n g).1, x = 0 ∨ sessions x ≠ none) →
      getID gen sessions n id g =
        ((id :: (draws gen n g).1).getLast (List.cons_ne_nil _ _), (draws gen n g).2)
  | 0, _, _, _ => rfl
  | n + 1, id, g, h => by
    have h₀ := h _ (List.mem_cons_self _ _)
    have hrest := getID_of_collide gen sessions n (gen.NextID g).1 (gen.NextID g).2
      fun x hx => h x (List.mem_cons_of_mem _ hx)
    have hn : ¬ ((gen.NextID g).1 ≠ 0 ∧ sessions (gen.NextID g).1 = none) := by tauto
    simp only [getID, hn, if_false, hrest, draws, List.getLast_cons_cons]

/-- **A fresh first draw**: the session is opened and recorded under it. -/
theorem accept_fresh (gen : IDGenerator G) (mgr : manager G) (transport : Transport)
    {acceptor : Acceptor} (hacc : mgr.acc.find? (·.Supported transport) = some acceptor)
    {id : UInt32} {g : G} (hnext : gen.NextID mgr.idgen = (id, g)) (hid : id ≠ 0)
    (hfree : mgr.sessions id = none) {srv : Server}
    (hsrv : acceptor.Accept transport id = .ok srv) (hsid : srv.ID = id) :
    mgr.Accept gen transport =
      (.ok srv, { mgr with idgen := g, sessions := Function.update mgr.sessions id (some srv) }) := by
  simp [manager.Accept, hacc, maxIDtries, getID, hnext, hid, hfree, hsrv, hsid]

/-- **When every draw collides**, `Accept` goes on with the last ID drawn: unless it is
`0`, the session the acceptor opens under it is recorded there, tracked or not. -/
theorem accept_of_collide (gen : IDGenerator G) (mgr : manager G) (transport : Transport)
    {acceptor : Acceptor} (hacc : mgr.acc.find? (·.Supported transport) = some acceptor)
    (hcoll : ∀ x ∈ (draws gen maxIDtries mgr.idgen).1, x = 0 ∨ mgr.sessions x ≠ none)
    {id : UInt32} (hlast : (draws gen maxIDtries mgr.idgen).1.getLast? = some id)
    (hid : id ≠ 0) {srv : Server} (hsrv : acceptor.Accept transport id = .ok srv)
    (hsid : srv.ID = id) :
    mgr.Accept gen transport =
      (.ok srv,
        { mgr with
          idgen := (draws gen maxIDtries mgr.idgen).2
          sessions := Function.update mgr.sessions id (some srv) }) := by
  have hget : (getID gen mgr.sessions maxIDtries 0 mgr.idgen).1 = id := by
    have h := List.getLast?_eq_getLast ((0 : UInt32) :: (draws gen maxIDtries mgr.idgen).1)
      (List.cons_ne_nil _ _)
    rw [List.getLast?_cons, hlast] at h
    rw [getID_of_collide gen mgr.sessions _ _ _ hcoll]
    exact (Option.some_inj.mp h).symm
  have hg : (getID gen mgr.sessions maxIDtries 0 mgr.idgen).2 =
      (draws gen maxIDtries mgr.idgen).2 := by
    rw [getID_of_collide gen mgr.sessions _ _ _ hcoll]
  simp only [manager.Accept, hacc]
  rcases hr : getID gen mgr.sessions maxIDtries 0 mgr.idgen with ⟨x, g⟩
  rw [hr] at hget hg
  subst hget hg
  simp [hid, hsrv, hsid]

/-! ## The default generator wraps -/

/-- An acceptor that takes every transport and opens its session under the ID it is
given. -/
def echoAcceptor : Acceptor := ⟨fun _ => true, fun t id => .ok ⟨id, t.conn⟩⟩

/-- A transport whose identity is `c`. -/
def conn (c : Nat) : Transport := ⟨"*transport.pipe", c⟩

/-- The sessions `1` to `n`, opened on `conn 0`. -/
def tracked (n : Nat) : UInt32 → Option Server :=
  fun id => if 1 ≤ id.toNat ∧ id.toNat ≤ n then some ⟨id, 0⟩ else none

/-- The manager with `echoAcceptor`, the sessions `1` to `n`, and `genIncrement` at `g`. -/
def echoManager (n : Nat) (g : UInt32) : manager UInt32 := ⟨[echoAcceptor], tracked n, g⟩

theorem tracked_succ {n : Nat} {g : UInt32} (hg : g.toNat = n + 1) :
    Function.update (tracked n) g (some ⟨g, 0⟩) = tracked (n + 1) := by
  funext x
  by_cases hx : x = g
  · subst hx
    simp [tracked, hg]
  · have : x.toNat ≠ n + 1 := fun h => hx (UInt32.toNat_inj (h.trans hg.symm))
    simp only [Function.update_noteq hx, tracked]
    split_ifs <;> first | rfl | omega

/-- Below the top of the counter, an `Accept` on `conn 0` records the session under the
next ID when it is free. -/
theorem accept_echo {n : Nat} {g : UInt32} (hg : g.toNat < 2 ^ 32 - 1)
    (hfree : tracked n (g + 1) = none) :
    (echoManager n g).Accept genIncrement (conn 0) =
      (.ok ⟨g + 1, 0⟩,
        ⟨[echoAcceptor], Function.update (tracked n) (g + 1) (some ⟨g + 1, 0⟩), g + 1⟩) :=
  accept_fresh genIncrement (echoManager n g) (conn 0) rfl (genIncrement_next hg)
    (UInt32.add_one_ne_zero hg) hfree rfl rfl

/-- **Sessions opened one after another**: from the sessions `1` to `n` with the counter at
`n`, `k` more `Accept` calls track the sessions `1` to `n + k`. -/
theorem run_accepts : ∀ (k n : Nat) (g : UInt32), g.toNat = n → n + k < 2 ^ 32 →
    ∃ g' : UInt32, g'.toNat = n + k ∧
      (echoManager n g).run genIncrement (List.replicate k (.accept (conn 0))) =
        echoManager (n + k) g'
  | 0, _, g, hg, _ => ⟨g, hg, rfl⟩
  | k + 1, n, g, hg, hk => by
    have hlt : g.toNat < 2 ^ 32 - 1 := by omega
    have h₁ := UInt32.toNat_add_one hlt
    have hfree : tracked n (g + 1) = none := by simp [tracked, h₁, hg]
    have hstep : (echoManager n g).step genIncrement (.accept (conn 0)) =
        echoManager (n + 1) (g + 1) := by
      simp only [manager.step, accept_echo hlt hfree, tracked_succ (h₁.trans (by rw [hg]))]
      rfl
    obtain ⟨g', hg', hrun⟩ := run_accepts k (n + 1) (g + 1) (by omega) (by omega)
    refine ⟨g', by omega, ?_⟩
    rw [List.replicate_succ, manager.run, List.foldl_cons, hstep,
      show n + (k + 1) = n + 1 + k by omega]
    exact hrun

/-- `k` sessions on `conn 0`, each ended before the next is opened, from the counter at
`g`. -/
def churn : Nat → UInt32 → List Event
  | 0, _ => []
  | k + 1, g => .accept (conn 0) :: .sessionEnd (g + 1) :: churn k (g + 1)

/-- **Sessions that open and end in turn** move the counter and leave the tracked sessions
`1` to `16` as they are. -/
theorem run_churn : ∀ (k : Nat) (g : UInt32), 16 ≤ g.toNat → g.toNat + k ≤ 2 ^ 32 - 1 →
    ∃ g' : UInt32, g'.toNat = g.toNat + k ∧
      (echoManager 16 g).run genIncrement (churn k g) = echoManager 16 g'
  | 0, g, _, _ => ⟨g, rfl, rfl⟩
  | k + 1, g, hg, hk => by
    have hlt : g.toNat < 2 ^ 32 - 1 := by omega
    have h₁ := UInt32.toNat_add_one hlt
    have hfree : tracked 16 (g + 1) = none := by
      simp only [tracked, h₁]
      exact if_neg (by omega)
    have hstep : ((echoManager 16 g).step genIncrement (.accept (conn 0))).step genIncrement
        (.sessionEnd (g + 1)) = echoManager 16 (g + 1) := by
      have hdel : Function.update (tracked 16) (g + 1) none = tracked 16 :=
        Function.update_eq_self_iff.mpr hfree.symm
      simp only [manager.step, accept_echo hlt hfree, Function.update_idem, hdel]
      rfl
    obtain ⟨g', hg', hrun⟩ := run_churn k (g + 1) (by omega) (by omega)
    refine ⟨g', by omega, ?_⟩
    rw [churn, manager.run, List.foldl_cons, List.foldl_cons, hstep]
    exact hrun

/-- The run: sixteen sessions opened on `conn 0`, then sessions opened and ended one at a
time until `genIncrement`'s counter is at the top of `uint32`. -/
def wrapRun : List Event := List.replicate 16 (.accept (conn 0)) ++ churn (2 ^ 32 - 1 - 16) 16

/-- **The default generator reuses a tracked ID.** In the run `wrapRun` of the default
manager, `genIncrement` counts up to `2^32 - 1` while the sessions `1` to `16` stay
tracked. The next `Accept` draws `1` to `16`, all tracked, and goes on with the last: the
session the acceptor opens under `16` replaces the tracked session `16` in the map. -/
theorem genIncrement_wrap_overwrites :
    (NewManager [WithAcceptor [echoAcceptor]]).run genIncrement wrapRun =
      echoManager 16 4294967295 ∧
    (echoManager 16 4294967295).sessions 16 = some ⟨16, 0⟩ ∧
    (echoManager 16 4294967295).Accept genIncrement (conn 1) =
      (.ok ⟨16, 1⟩, ⟨[echoAcceptor], Function.update (tracked 16) 16 (some ⟨16, 1⟩), 16⟩) := by
  have h₀ : NewManager [WithAcceptor [echoAcceptor]] = echoManager 0 0 := by
    have ht : tracked 0 = fun _ => none := funext fun x => if_neg (by omega)
    simp [NewManager, WithAcceptor, echoManager, ht]
  refine ⟨?_, rfl, ?_⟩
  · obtain ⟨g₁, hg₁, h₁⟩ := run_accepts 16 0 0 rfl (by omega)
    obtain rfl : g₁ = 16 := UInt32.toNat_inj hg₁
    obtain ⟨g₂, hg₂, h₂⟩ := run_churn (2 ^ 32 - 1 - 16) 16 (by decide) (by decide)
    obtain rfl : g₂ = 4294967295 := UInt32.toNat_inj (by rw [hg₂]; decide)
    rw [h₀, wrapRun, manager.run, List.foldl_append]
    exact (congrArg (fun m => List.foldl (manager.step genIncrement) m _) h₁).trans h₂
  · have hdraws : draws genIncrement maxIDtries 4294967295 =
        ([1, 2, 3, 4, 5, 6, 7, 8, 9, 10, 11, 12, 13, 14, 15, 16], 16) := rfl
    have hcoll : ∀ x ∈ (draws genIncrement maxIDtries 4294967295).1,
        x = 0 ∨ tracked 16 x ≠ none := by
      rw [hdraws]
      decide
    have hlast : (draws genIncrement maxIDtries 4294967295).1.getLast? = some 16 := by
      rw [hdraws]
      rfl
    rw [accept_of_collide genIncrement (echoManager 16 4294967295) (conn 1) rfl hcoll hlast
      (by decide) rfl rfl]
    simp only [echoManager, hdraws]
    rfl

end Opr8.Session
