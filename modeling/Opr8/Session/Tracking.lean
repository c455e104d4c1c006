import Opr8.Session.Manager

/-!
# Opr8 — what the session manager keeps over a run

`Accept` either fails or tracks one session. Its four failures (no acceptor takes the
transport, no usable ID after `maxIDtries` draws, the acceptor's own error, a session that
reports an ID other than the one it was opened under) leave the acceptors and the tracked
sessions as they were; only the generator may have moved. A success records the session
under the ID it reports, which is never `0`, and touches no other entry.

`Terminate(id, with)` releases a tracked session and answers nil, or answers that the
session does not exist. Its comment says that it ceases tracking the session, but it
deletes nothing: only the session's end, in the goroutine `Accept` starts, removes the
entry. The `with` error is not read, and `Release` acts on the session, not the manager.

Main results:

* `accept_cases` — what one `Accept` can do to the manager, its errors included.
* `run_keyed` — after any run of a manager built by `NewManager` with acceptors, every
  tracked session is recorded under its own ID, and no session under `0`.
* `sessions_run` — over a run without an ID's end, the entry under the ID is the last
  session an `Accept` of the run recorded there, or the one before.
* `terminate_keeps_tracking` — `Terminate` on a tracked ID answers nil and deletes nothing:
  the session stays tracked until it ends or an `Accept` records another under its ID.
-/

namespace Opr8.Session

variable {G : Type}

/-- Every tracked session is recorded under its own `ID()`, which is not `0`. -/
def Keyed (mgr : manager G) : Prop :=
  ∀ id srv, mgr.sessions id = some srv → srv.ID = id ∧ id ≠ 0

/-- The errors `Accept` returns on a transport. -/
def AcceptError (t : Transport) (e : Error) : Prop :=
  e = .new ("failed to create session using transport " ++ t.goType) ∨
  e = .new ("failed to get unique session ID after " ++ toString maxIDtries ++ " tries") ∨
  (∃ err, e = .wrap "failed to accept transport" err) ∨
  ∃ got wanted : UInt32, got ≠ wanted ∧
    e = .new ("unexpected session ID " ++ toString got.toNat ++ ", wanted " ++
      toString wanted.toNat)

/-- `mgr.Terminate(id, with)`: nil for a tracked session, which is released; otherwise the
error. The tracked map is left as it is. -/
def manager.Terminate (mgr : manager G) (id : UInt32) : Option Error × manager G :=
  match mgr.sessions id with
  | some _ => (none, mgr)
  | none => (some (.new ("session " ++ toString id.toNat ++ " does not exist")), mgr)

/-! ## One `Accept` -/

/-- **What one `Accept` does.** It keeps the acceptors, and either fails with one of its
errors, leaving the tracked sessions as they were, or returns a session whose ID is not
`0`, recorded under that ID with every other entry kept. -/
theorem accept_cases (gen : IDGenerator G) (mgr : manager G) (t : Transport) :
    (mgr.Accept gen t).2.acc = mgr.acc ∧
    ((∃ e, (mgr.Accept gen t).1 = .error e ∧ AcceptError t e ∧
        (mgr.Accept gen t).2.sessions = mgr.sessions) ∨
      ∃ srv, (mgr.Accept gen t).1 = .ok srv ∧ srv.ID ≠ 0 ∧
        (mgr.Accept gen t).2.sessions = Function.update mgr.sessions srv.ID (some srv)) := by
  unfold manager.Accept
  split
  · exact ⟨rfl, .inl ⟨_, rfl, .inl rfl, rfl⟩⟩
  split
  rename_i id g _
  dsimp only
  split_ifs with hid
  · exact ⟨rfl, .inl ⟨_, rfl, .inr (.inl rfl), rfl⟩⟩
  split
  · exact ⟨rfl, .inl ⟨_, rfl, .inr (.inr (.inl ⟨_, rfl⟩)), rfl⟩⟩
  rename_i srv _
  split_ifs with hs
  · exact ⟨rfl, .inl ⟨_, rfl, .inr (.inr (.inr ⟨_, _, hs, rfl⟩)), rfl⟩⟩
  · have hs : srv.ID = id := not_not.mp hs
    exact ⟨rfl, .inr ⟨srv, rfl, hs ▸ hid, by rw [hs]⟩⟩

/-! ## Runs -/

/-- One event keeps every session under its own nonzero ID. -/
theorem Keyed.step {mgr : manager G} (h : Keyed mgr) (gen : IDGenerator G) :
    ∀ e, Keyed (mgr.step gen e)
  | .accept t => by
    rcases (accept_cases gen mgr t).2 with ⟨e, -, -, hs⟩ | ⟨srv, -, hid, hs⟩
    · simpa [manager.step, Keyed, hs] using h
    · intro id s hsid
      simp only [manager.step, hs] at hsid
      by_cases he : id = srv.ID
      · subst he
        simp only [Function.update_same, Option.some.injEq] at hsid
        exact ⟨by rw [hsid], hid⟩
      · exact h id s (by simpa [Function.update_noteq he] using hsid)
  | .sessionEnd id' => fun id s hsid => by
    by_cases he : id = id'
    · subst he
      simp [manager.step] at hsid
    · exact h id s (by simpa [manager.step, Function.update_noteq he] using hsid)

theorem Keyed.run {mgr : manager G} (h : Keyed mgr) (gen : IDGenerator G) (es : List Event) :
    Keyed (mgr.run gen es) := by
  induction es generalizing mgr with
  | nil => exact h
  | cons e es ih => exact ih (h.step gen e)

/-- The options `WithAcceptor` only add acceptors. -/
theorem newManager_sessions (accs : List (List Acceptor)) :
    (NewManager (accs.map WithAcceptor)).sessions = fun _ => none := by
  suffices ∀ m : manager UInt32,
      ((accs.map WithAcceptor).foldl (fun m option => option m) m).sessions = m.sessions from
    this _
  induction accs with
  | nil => exact fun _ => rfl
  | cons acc accs ih => exact fun m => ih (WithAcceptor acc m)

/-- **Sessions stay keyed by their own IDs.** After any run of events of a manager built
by `NewManager` with acceptors, each tracked session is recorded under the ID it reports,
and no session is recorded under `0`, whatever the generator: `Accept` records a session
only under the ID it checked the session reports, which it never lets be `0`. -/
theorem run_keyed (gen : IDGenerator UInt32) (accs : List (List Acceptor)) (es : List Event) :
    Keyed ((NewManager (accs.map WithAcceptor)).run gen es) :=
  Keyed.run (fun id srv h => by simp [newManager_sessions] at h) gen es

/-- The session an event's `Accept` returns: none for a failed `Accept` and for the end
of a session. -/
def manager.acceptedBy (gen : IDGenerator G) (mgr : manager G) : Event → Option Server
  | .accept t => (mgr.Accept gen t).1.toOption
  | .sessionEnd _ => none

/-- The sessions the `Accept` calls of a run return, in order. -/
def manager.accepted (gen : IDGenerator G) : manager G → List Event → List Server
  | _, [] => []
  | mgr, e :: es => (mgr.acceptedBy gen e).toList ++ (mgr.step gen e).accepted gen es

/-- **One event and the entry under an ID.** Every event but that ID's end leaves the
entry as it was, unless it is an `Accept` returning a session that reports the ID, which
is then recorded there. -/
theorem sessions_step (gen : IDGenerator G) (mgr : manager G) {id : UInt32} :
    ∀ e, e ≠ .sessionEnd id →
      (mgr.step gen e).sessions id =
        (((mgr.acceptedBy gen e).toList.filter fun s => s.ID = id).getLast?).or (mgr.sessions id)
  | .accept t, _ => by
    rcases (accept_cases gen mgr t).2 with ⟨e, he, -, hs⟩ | ⟨srv, he, -, hs⟩
    · simp [manager.step, manager.acceptedBy, Except.toOption, he, hs]
    · by_cases hid : srv.ID = id
      · subst hid
        simp [manager.step, manager.acceptedBy, Except.toOption, he, hs]
      · simp [manager.step, manager.acceptedBy, Except.toOption, he, hs, hid, Function.update_noteq (Ne.symm hid)]
  | .sessionEnd id', hne => by
    have he : id ≠ id' := fun he => hne (he ▸ rfl)
    simp [manager.step, manager.acceptedBy, Function.update_noteq he]

/-- Over a run without that ID's end, the entry under the ID is the last session an
`Accept` of the run returned reporting it, or the entry before the run when there is none. -/
theorem sessions_run (gen : IDGenerator G) {id : UInt32} :
    ∀ (mgr : manager G) (es : List Event), (∀ e ∈ es, e ≠ .sessionEnd id) →
      (mgr.run gen es).sessions id =
        (((mgr.accepted gen es).filter fun s => s.ID = id).getLast?).or (mgr.sessions id)
  | _, [], _ => rfl
  | mgr, e :: es, hes => by
    have ih := sessions_run gen (mgr.step gen e) es
      fun e' he' => hes e' (List.mem_cons_of_mem _ he')
    rw [manager.run, List.foldl_cons, ← manager.run, ih,
      sessions_step gen mgr e (hes e (List.mem_cons_self _ _))]
    simp [manager.accepted, Option.or_assoc]

/-- **`Terminate` does not stop tracking.** On a tracked ID it answers nil and leaves the
manager as it was: it deletes nothing. Through every later run in which the session does
not end, the entry under its ID is the last session an `Accept` of the run recorded
there, which only an `Accept` whose draws all collide can do (`accept_of_collide`), and
otherwise the terminated session itself. -/
theorem terminate_keeps_tracking (gen : IDGenerator G) (mgr : manager G) (id : UInt32)
    (srv : Server) (hs : mgr.sessions id = some srv) (es : List Event)
    (hes : ∀ e ∈ es, e ≠ .sessionEnd id) :
    mgr.Terminate id = (none, mgr) ∧
    ((mgr.Terminate id).2.run gen es).sessions id =
      some ((((mgr.accepted gen es).filter fun s => s.ID = id).getLast?).getD srv) := by
  have ht : mgr.Terminate id = (none, mgr) := by simp [manager.Terminate, hs]
  refine ⟨ht, ?_⟩
  rw [ht, sessions_run gen mgr es hes, hs]
  cases ((mgr.accepted gen es).filter fun s => s.ID = id).getLast? <;> rfl

/-- The session `16` stays tracked through an `Accept` that draws `17`; from the wrapped
generator the `Accept` draws `1` to `16`, all tracked, and records its session over it. -/
theorem terminate_keeps_tracking_echo :
    (echoManager 16 16).sessions 16 = some ⟨16, 0⟩ ∧
    (∀ e ∈ [Event.accept (conn 1)], e ≠ .sessionEnd 16) ∧
    (echoManager 16 16).Terminate 16 = (none, echoManager 16 16) ∧
    (((echoManager 16 16).Terminate 16).2.run genIncrement [.accept (conn 1)]).sessions 16 =
      some (((((echoManager 16 16).accepted genIncrement [.accept (conn 1)]).filter
        fun s => s.ID = 16).getLast?).getD ⟨16, 0⟩) ∧
    (((echoManager 16 16).Terminate 16).2.run genIncrement [.accept (conn 1)]).sessions 16 =
      some ⟨16, 0⟩ ∧
    (echoManager 16 4294967295).sessions 16 = some ⟨16, 0⟩ ∧
    (echoManager 16 4294967295).Terminate 16 = (none, echoManager 16 4294967295) ∧
    (((echoManager 16 4294967295).Terminate 16).2.run genIncrement
        [.accept (conn 1)]).sessions 16 =
      some (((((echoManager 16 4294967295).accepted genIncrement [.accept (conn 1)]).filter
        fun s => s.ID = 16).getLast?).getD ⟨16, 0⟩) ∧
    (((echoManager 16 4294967295).Terminate 16).2.run genIncrement
        [.accept (conn 1)]).sessions 16 = some ⟨16, 1⟩ :=
  have hs : (echoManager 16 16).sessions 16 = some ⟨16, 0⟩ := rfl
  have hs' : (echoManager 16 4294967295).sessions 16 = some ⟨16, 0⟩ := rfl
  have hes : ∀ e ∈ [Event.accept (conn 1)], e ≠ .sessionEnd 16 := by simp
  have h := terminate_keeps_tracking genIncrement (echoManager 16 16) 16 _ hs _ hes
  have h' := terminate_keeps_tracking genIncrement (echoManager 16 4294967295) 16 _ hs' _ hes
  ⟨hs, hes, h.1, h.2, h.2.trans rfl, hs', h'.1, h'.2, h'.2.trans rfl⟩

end Opr8.Session
