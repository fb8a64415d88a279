import RunLedger.Database
import RunLedger.Proofs.Transaction.Reads

/-!
# Interleaved transactions on one database

A `System` is a database with the transactions begun on it, each with what it still has to do. An
`Event` lets one of them take its next step: it begins, makes one call, is concluded, or is dropped;
a collection may come at any time. `System.run` is any order of events, and all that happens to the
database in it happens by `Database.begin`, `Database.conclude`, `Database.release`,
`Database.collect` and the reads and writes of transactions.

Next to the database a system keeps what has happened: the calls each transaction has made, the
commits that changed something, in their order (`System.history`), and how each transaction ended
(`System.endings`). What the first commits have made of the empty store is `contentsAfter`.

An operation of a database in a transaction of its own is an interleaving of nothing else
(`run_transact`).
-/

set_option autoImplicit false

namespace RunLedger

/-- How far a transaction has come. -/
inductive Stage where
  | calling
  | concluded
  | dropped
deriving DecidableEq

/-- A transaction begun on the database: the operation it is for, the version of its snapshot, what
is left of its script, and the calls it has made. -/
structure Session (ω α : Type) where
  operation : ω
  snapshot : Nat
  transaction : Transaction
  rest : Script α
  calls : List Call
  stage : Stage

/-- A commit that changed something. -/
structure Commit (ω α : Type) where
  operation : ω
  snapshot : Nat
  calls : List Call
  result : α

/-- The end of a transaction: how many commits that changed something there were then, its own
included, and the outcome. -/
structure Ending (ω α : Type) where
  operation : ω
  snapshot : Nat
  commits : Nat
  outcome : Except Failure α

/-- A database, the transactions begun on it, and what has happened so far. -/
structure System (ω α : Type) where
  database : Database
  sessions : List (Session ω α)
  history : List (Commit ω α)
  endings : List (Ending ω α)

/-- What happens next, and to which session. -/
inductive Event (ω : Type) where
  | begin (operation : ω)
  | call (place : Nat)
  | conclude (place : Nat)
  | drop (place : Nat)
  | collect

variable {ω α : Type}

/-- What the first commits of a history have made of the empty store. -/
def contentsAfter (history : List (Commit ω α)) (count : Nat) : Contents :=
  (history.take count).foldl (fun contents commit ↦ effectOf commit.calls contents) ∅

/-- The commit that a session ends with, if it has an outcome and changed something. -/
def Session.commit? (session : Session ω α) : Except Failure α → Option (Commit ω α)
  | .ok result =>
    if session.transaction.isReadOnly then none
    else some ⟨session.operation, session.snapshot, session.calls, result⟩
  | .error _ => none

theorem Session.operation_of_commit? {session : Session ω α} {outcome : Except Failure α}
    {commit : Commit ω α} (hcommit : session.commit? outcome = some commit) :
    commit.operation = session.operation := by
  unfold Session.commit? at hcommit
  split at hcommit
  · split at hcommit
    · cases hcommit
    · rw [← Option.some.inj hcommit]
  · cases hcommit

namespace System

/-- An empty database with planned failures. -/
def initial (failsRead failsWrite : Nat → Bool) (config : Config) : System ω α where
  database :=
    { substrate := { Substrate.reliable .empty with failsRead, failsWrite }
      coordinator := .initial
      config }
  sessions := []
  history := []
  endings := []

/-- A transaction begins. -/
def begin (program : ω → Script α) (operation : ω) (system : System ω α) : System ω α :=
  let (transaction, database) := system.database.begin
  let session : Session ω α :=
    { operation
      snapshot := system.database.substrate.store.version
      transaction
      rest := program operation
      calls := []
      stage := .calling }
  { system with database, sessions := system.sessions ++ [session] }

/-- A session makes its next call, if there is one. -/
def call (place : Nat) (session : Session ω α) (system : System ω α) : System ω α :=
  match session.rest.advance session.transaction system.database.substrate with
  | none => system
  | some (call, rest, transaction, substrate) =>
    { system with
      database := { system.database with substrate }
      sessions :=
        system.sessions.set place
          { session with transaction, rest, calls := session.calls ++ [call] } }

/-- A session whose script has an outcome is concluded. -/
def conclude (place : Nat) (session : Session ω α) (outcome : Except Failure α)
    (system : System ω α) : System ω α :=
  let (ended, transaction, database) := system.database.conclude session.transaction outcome
  let history := system.history ++ (session.commit? ended).toList
  { database
    sessions := system.sessions.set place { session with transaction, stage := .concluded }
    history
    endings :=
      system.endings ++ [⟨session.operation, session.snapshot, history.length, ended⟩] }

/-- A session ends its life. -/
def drop (place : Nat) (session : Session ω α) (system : System ω α) : System ω α :=
  { system with
    database := system.database.release session.transaction
    sessions := system.sessions.set place { session with stage := .dropped } }

/-- One event. An event for a session that is not there or not ready for it changes nothing. -/
def step (program : ω → Script α) (system : System ω α) : Event ω → System ω α
  | .begin operation => system.begin program operation
  | .call place =>
    match system.sessions[place]? with
    | some session => if session.stage = .calling then system.call place session else system
    | none => system
  | .conclude place =>
    match system.sessions[place]? with
    | some session =>
      match session.stage, session.rest with
      | .calling, .finish outcome => system.conclude place session outcome
      | _, _ => system
    | none => system
  | .drop place =>
    match system.sessions[place]? with
    | some session => if session.stage = .dropped then system else system.drop place session
    | none => system
  | .collect => { system with database := system.database.collect.2 }

/-- Events one after the other. -/
def run (program : ω → Script α) (system : System ω α) (events : List (Event ω)) : System ω α :=
  events.foldl (step program) system

/-- The system after events on an empty store that never fails, with the standard settings. -/
def reliably (program : ω → Script α) (events : List (Event ω)) : System ω α :=
  (initial (fun _ ↦ false) (fun _ ↦ false) .standard).run program events

theorem step_conclude (program : ω → Script α) {place : Nat} {session : Session ω α}
    {system : System ω α} (hsession : system.sessions[place]? = some session)
    (hstage : session.stage = .calling) {outcome : Except Failure α}
    (hrest : session.rest = .finish outcome) :
    system.step program (.conclude place) = system.conclude place session outcome := by
  simp only [step, hsession, hstage, hrest]

theorem step_drop (program : ω → Script α) {place : Nat} {session : Session ω α}
    {system : System ω α} (hsession : system.sessions[place]? = some session)
    (hstage : session.stage ≠ .dropped) :
    system.step program (.drop place) = system.drop place session := by
  simp only [step, hsession, hstage, if_false]

/-- An event may bring a commit, and leaves those there are. -/
theorem exists_history_step (program : ω → Script α) (system : System ω α) (event : Event ω) :
    ∃ more, (system.step program event).history = system.history ++ more := by
  have hsame : ∃ more, system.history = system.history ++ more := ⟨[], by rw [List.append_nil]⟩
  cases event with
  | begin operation => exact hsame
  | collect => exact hsame
  | call place =>
    simp only [step]
    split
    · split
      · unfold System.call
        split <;> exact hsame
      · exact hsame
    · exact hsame
  | conclude place =>
    simp only [step]
    split
    · split
      · exact ⟨_, rfl⟩
      · exact hsame
    · exact hsame
  | drop place =>
    simp only [step]
    split
    · split <;> exact hsame
    · exact hsame

/-- What has been committed stays so, whatever happens next. -/
theorem exists_history_run (program : ω → Script α) (system : System ω α)
    (events : List (Event ω)) :
    ∃ more, (system.run program events).history = system.history ++ more := by
  induction events generalizing system with
  | nil => exact ⟨[], by rw [List.append_nil]; rfl⟩
  | cons event rest ih =>
    obtain ⟨first, hfirst⟩ := exists_history_step program system event
    obtain ⟨more, hmore⟩ := ih (system.step program event)
    exact ⟨first ++ more, by rw [← List.append_assoc, ← hfirst]; exact hmore⟩

/-! ### Operations of one kind -/

/-- All transactions begun and all commits are of operations of one kind. -/
structure Only (system : System ω α) (kind : ω → Prop) : Prop where
  sessions : ∀ session ∈ system.sessions, kind session.operation
  history : ∀ commit ∈ system.history, kind commit.operation

section

variable {kind : ω → Prop} {system : System ω α}

/-- A session that goes on is for the same operation. -/
theorem Only.set (honly : system.Only kind) {place : Nat} {session after : Session ω α}
    (hsession : system.sessions[place]? = some session)
    (hsame : after.operation = session.operation) :
    ∀ other ∈ system.sessions.set place after, kind other.operation := by
  intro other hother
  rcases List.mem_or_eq_of_mem_set hother with hmem | rfl
  · exact honly.sessions other hmem
  · rw [hsame]
    exact honly.sessions session (List.mem_of_getElem? hsession)

/-- Only beginnings bring other operations. -/
theorem Only.step (honly : system.Only kind) (program : ω → Script α) {event : Event ω}
    (hbegin : ∀ operation, event = .begin operation → kind operation) :
    (system.step program event).Only kind := by
  cases event with
  | begin operation =>
    refine ⟨fun session hsession ↦ ?_, honly.history⟩
    rcases List.mem_append.mp hsession with hmem | hmem
    · exact honly.sessions session hmem
    · rw [List.mem_singleton.mp hmem]
      exact hbegin operation rfl
  | collect => exact ⟨honly.sessions, honly.history⟩
  | call place =>
    simp only [System.step]
    split
    · rename_i session hsession
      split
      · unfold System.call
        split
        · exact honly
        · exact ⟨honly.set hsession rfl, honly.history⟩
      · exact honly
    · exact honly
  | conclude place =>
    simp only [System.step]
    split
    · rename_i session hsession
      split
      · refine ⟨honly.set hsession rfl, fun commit hcommit ↦ ?_⟩
        rcases List.mem_append.mp hcommit with hmem | hmem
        · exact honly.history commit hmem
        · rw [Session.operation_of_commit? (Option.mem_toList.mp hmem)]
          exact honly.sessions session (List.mem_of_getElem? hsession)
      · exact honly
    · exact honly
  | drop place =>
    simp only [System.step]
    split
    · rename_i session hsession
      split
      · exact honly
      · exact ⟨honly.set hsession rfl, honly.history⟩
    · exact honly

theorem Only.run (honly : system.Only kind) (program : ω → Script α) {events : List (Event ω)}
    (hbegin : ∀ operation, .begin operation ∈ events → kind operation) :
    (system.run program events).Only kind := by
  induction events generalizing system with
  | nil => exact honly
  | cons event rest ih =>
    refine ih (honly.step program fun operation hevent ↦ hbegin operation ?_) fun operation hmem ↦
      hbegin operation (List.mem_cons_of_mem _ hmem)
    rw [hevent]
    exact List.mem_cons_self

/-- If only operations of a kind are begun, only those are committed. -/
theorem only_run (program : ω → Script α) (failsRead failsWrite : Nat → Bool) (config : Config)
    {events : List (Event ω)} (hbegin : ∀ operation, .begin operation ∈ events → kind operation) :
    ((initial failsRead failsWrite config).run program events).Only kind :=
  Only.run ⟨nofun, nofun⟩ program hbegin

end

/-! ### Operations by themselves -/

/-- A session brought to the outcome of its script, with nothing else done. -/
def runOut (place : Nat) (session : Session ω α) (calls : List Call) (system : System ω α) :
    System ω α :=
  let (outcome, transaction, substrate) :=
    session.rest.run session.transaction system.database.substrate
  { system with
    database := { system.database with substrate }
    sessions := system.sessions.set place { session with transaction, rest := .finish outcome, calls } }

/-- A call is the first step on the way to the outcome. -/
theorem runOut_of_advance (program : ω → Script α) {place : Nat} {session : Session ω α}
    {system : System ω α} (hsession : system.sessions[place]? = some session)
    (hstage : session.stage = .calling) {call : Call} {rest : Script α} {transaction : Transaction}
    {substrate : Substrate}
    (hadvance : session.rest.advance session.transaction system.database.substrate =
      some (call, rest, transaction, substrate)) :
    ∃ session', (system.step program (.call place)).sessions[place]? = some session' ∧
      session'.stage = .calling ∧ session'.rest = rest ∧
      ∀ calls, (system.step program (.call place)).runOut place session' calls =
        system.runOut place session calls := by
  obtain ⟨hplace, -⟩ := List.getElem?_eq_some_iff.mp hsession
  have hstep : system.step program (.call place) =
      { system with
        database := { system.database with substrate }
        sessions :=
          system.sessions.set place
            { session with transaction, rest, calls := session.calls ++ [call] } } := by
    simp only [step, hsession, hstage, if_true, System.call, hadvance]
  rw [hstep]
  refine ⟨_, List.getElem?_set_self hplace, hstage, rfl, fun calls ↦ ?_⟩
  simp only [runOut, Script.run_eq_of_advance hadvance, List.set_set]

/-- Some number of calls brings a session to the outcome of its script. -/
def RunsOut (program : ω → Script α) (place : Nat) (session : Session ω α) (system : System ω α) :
    Prop :=
  ∃ count calls,
    system.run program (List.replicate count (.call place)) = system.runOut place session calls

theorem runsOut_of_advance {program : ω → Script α} {place : Nat} {session : Session ω α}
    {system : System ω α} (hsession : system.sessions[place]? = some session)
    (hstage : session.stage = .calling) {call : Call} {rest : Script α} {transaction : Transaction}
    {substrate : Substrate}
    (hadvance : session.rest.advance session.transaction system.database.substrate =
      some (call, rest, transaction, substrate))
    (hrest : ∀ {session : Session ω α} {system : System ω α},
      system.sessions[place]? = some session → session.stage = .calling → session.rest = rest →
        RunsOut program place session system) :
    RunsOut program place session system := by
  obtain ⟨session', hsession', hstage', hrest', hout⟩ :=
    runOut_of_advance program hsession hstage hadvance
  obtain ⟨count, calls, hrun⟩ := hrest hsession' hstage' hrest'
  exact ⟨count + 1, calls, hrun.trans (hout calls)⟩

/-- As many calls as its script asks for bring a session to the outcome of the script. -/
theorem runsOut (program : ω → Script α) {place : Nat} {script : Script α}
    {session : Session ω α} {system : System ω α}
    (hsession : system.sessions[place]? = some session) (hstage : session.stage = .calling)
    (hrest : session.rest = script) : RunsOut program place session system := by
  induction script generalizing session system with
  | finish outcome =>
    obtain ⟨hplace, hget⟩ := List.getElem?_eq_some_iff.mp hsession
    refine ⟨0, session.calls, ?_⟩
    simp only [runOut, hrest, Script.run]
    rw [← hrest, ← hget, List.set_getElem_self]
    rfl
  | get key next ih | scanStem stem next ih | scanRange first last next ih
  | put key value next ih | delete key next ih =>
    exact runsOut_of_advance hsession hstage (by rw [hrest]; rfl) (ih _)

/-- A script in a transaction of its own is a session that begins, makes all its calls, is concluded
and dropped, with nothing in between. -/
theorem run_transact (program : ω → Script α) (system : System ω α) (operation : ω) :
    ∃ count,
      let place := system.sessions.length
      let after := system.run program
        (.begin operation :: (List.replicate count (.call place) ++ [.conclude place, .drop place]))
      after.database = (system.database.transact (program operation)).2 ∧
        after.endings.getLast?.map (·.outcome) =
          some (system.database.transact (program operation)).1 := by
  let session : Session ω α :=
    { operation
      snapshot := system.database.substrate.store.version
      transaction := system.database.begin.1
      rest := program operation
      calls := []
      stage := .calling }
  have hsession : (system.begin program operation).sessions[system.sessions.length]? =
      some session := List.getElem?_concat_length
  obtain ⟨count, calls, hcalls⟩ := runsOut program hsession rfl rfl
  refine ⟨count, ?_⟩
  have hrun : system.run program (.begin operation ::
      (List.replicate count (.call system.sessions.length) ++
        [.conclude system.sessions.length, .drop system.sessions.length])) =
      (((system.begin program operation).runOut system.sessions.length session calls).step program
        (.conclude system.sessions.length)).step program (.drop system.sessions.length) := by
    rw [← hcalls]
    simp only [run, List.foldl_cons, List.foldl_append, List.foldl_nil]
    rfl
  have hplace : system.sessions.length < (system.begin program operation).sessions.length := by
    simp [begin]
  simp only [hrun]
  rcases hran : (program operation).run system.database.begin.1 system.database.begin.2.substrate
    with ⟨outcome, transaction, substrate⟩
  have hout : (system.begin program operation).runOut system.sessions.length session calls =
      { system.begin program operation with
        database := { system.database.begin.2 with substrate }
        sessions :=
          (system.begin program operation).sessions.set system.sessions.length
            { session with transaction, rest := .finish outcome, calls } } := by
    simp only [runOut]
    rw [show session.rest.run session.transaction
      (system.begin program operation).database.substrate = _ from hran]
    rfl
  have hself := List.getElem?_set_self hplace
    (a := { session with transaction, rest := .finish outcome, calls })
  have hafter := List.getElem?_set_self (Nat.lt_of_lt_of_eq hplace List.length_set.symm)
    (l := (system.begin program operation).sessions.set system.sessions.length
      { session with transaction, rest := .finish outcome, calls })
    (a := { session with
      transaction := ({ system.database.begin.2 with substrate }.conclude transaction outcome).2.1
      rest := .finish outcome
      calls
      stage := .concluded })
  rw [hout, step_conclude program hself rfl rfl]
  unfold conclude
  dsimp only
  rw [step_drop program hafter fun hstage ↦ by cases hstage]
  simp only [drop, Database.transact, Database.attempt, Script.toAttempt, hran,
    List.getLast?_concat, Option.map_some, and_self]

end System

end RunLedger
