import RunLedger.Key.Layout
import RunLedger.Stored.Run
import RunLedger.Transaction.Script

/-!
# Runs in the ledger

The operations on run records, as scripts of transactions. A record lies under the key of its run
(`Key.run`), and an entry of the status index names the run under its status (`Key.statusIndex`).
`Runs.write` writes both together: the entry moves whenever the status changes.

`Runs.start` creates a record or starts a run anew, and registers a node run with its workflow run.
`Runs.suspend`, `Runs.resume` and `Runs.stop` carry a run from status to status, and
`Runs.compareAndSet` does so only if the run has the expected status. `Runs.inWindow` and
`Runs.withStatus` list records; what does not decode is passed over.
-/

set_option autoImplicit false

namespace RunLedger

/-- The record that a payload holds; a payload that holds none is corrupt. -/
def Script.decode {α : Type} [Stored α] (value : Value) : Script α :=
  .finish ((value.decode : Except Damage α).mapError Failure.corruption)

/-- An outcome as a script. -/
def Script.ofExcept {α : Type} (outcome : Except Failure α) : Script α := .finish outcome

/-- What is told of a run when it starts. -/
structure Start where
  program : ProgramId
  id : RunId
  startTime : UInt64
  twillRunId? : Option String
  runtimeArguments : SortedMap String String
  systemArguments : SortedMap String String
deriving DecidableEq

/-- The record of a run that starts now. -/
def Start.record (start : Start) : RunRecord :=
  .started start.program start.id start.startTime start.twillRunId? start.runtimeArguments
    start.systemArguments

namespace Runs

/-! ### Single records -/

/-- The record of a run, if there is one. -/
def find? (program : ProgramId) (id : RunId) : Script (Option RunRecord) := do
  match ← Script.read (Key.run program id) with
  | none => return none
  | some value => return some (← Script.decode value)

/-- The record of a run that must exist. -/
def require (program : ProgramId) (id : RunId) : Script RunRecord := do
  match ← find? program id with
  | some record => return record
  | none => throw (.recordNotFound (.run id program))

/-- Writes a record. Unless its status is the previous one, the index entry under the previous
status is deleted and one under the present status is written. -/
def write (record : RunRecord) (previous? : Option RunStatus) : Script Unit := do
  Script.write (Key.run record.program record.id) (.ofRecord record)
  if previous? = some record.status then return
  if let some previous := previous? then
    Script.erase (Key.statusIndex previous record.program record.id)
  Script.write (Key.statusIndex record.status record.program record.id)
    (.ofRecord (⟨record.program, record.id⟩ : IndexEntry))

/-! ### Lifecycle -/

/-- Lists a node run on its workflow run, unless the workflow run is unknown, has stopped or lists
it already. -/
def registerNode (workflow : ProgramId) (workflowRun node : String) (record : RunRecord) :
    Script Unit := do
  let some workflowRunId := RunId.parse? workflowRun | return
  let some parent ← find? workflow workflowRunId | return
  if parent.status.isTerminal then return
  let run : NodeRun := ⟨record.program.type, record.program.name, record.id⟩
  if parent.workflowNodes.get? node = some run then return
  write { parent with workflowNodes := parent.workflowNodes.insert node run } (some parent.status)

/-- Starts a run in the second of its run id, for the first time or anew, and registers it with the
workflow run that its system arguments name. -/
def start (request : Start) : Script RunRecord := do
  if request.startTime ≠ request.id.seconds then
    throw (.invalidInput (.startTimeMismatch request.startTime request.id))
  let fresh := request.record
  let (record, previous?) ←
    match ← find? request.program request.id with
    | none => pure (fresh, none)
    | some current => pure (← Script.ofExcept (current.restarted fresh), some current.status)
  write record previous?
  if let some (workflow, workflowRun, node) := record.parentWorkflow? then
    registerNode workflow workflowRun node record
  return record

/-- Suspends a running run. -/
def suspend (program : ProgramId) (id : RunId) (time : UInt64) : Script RunRecord := do
  let current ← require program id
  let updated ← Script.ofExcept (current.suspended time)
  write updated (some current.status)
  return updated

/-- Resumes a suspended run. -/
def resume (program : ProgramId) (id : RunId) (time : UInt64) : Script RunRecord := do
  let current ← require program id
  let updated ← Script.ofExcept (current.resumed time)
  write updated (some current.status)
  return updated

/-- Stops a run in a terminal status. A run that has already stopped in that status stays as it
is. -/
def stop (program : ProgramId) (id : RunId) (time : UInt64) (status : RunStatus)
    (cause? : Option FailureCause) : Script RunRecord := do
  if !status.isTerminal then throw (.invalidInput (.stopNotTerminal status))
  let current ← require program id
  match ← Script.ofExcept (current.stopped time status cause?) with
  | none => return current
  | some updated =>
    write updated (some current.status)
    return updated

/-- Why a run fails that nobody executes any more. -/
def abandonedMessage : String :=
  "Marking run record as failed since no running program found."

/-- The record after a change to a status at a time; none if the record stays as it is. -/
def changed (current : RunRecord) (target : RunStatus) (time : UInt64) :
    Except Failure (Option RunRecord) :=
  match target with
  | .running =>
    if current.status = .running then .ok none else (current.resumed time).map some
  | .suspended => (current.suspended time).map some
  | .completed | .killed => current.stopped time target none
  | .failed => current.stopped time target (some (.ofMessage abandonedMessage))

/-- Brings a run from an expected status to another at a time. Gives nothing if there is no such run
or it has another status. -/
def compareAndSet (program : ProgramId) (id : RunId) (expected target : RunStatus)
    (time : UInt64) : Script (Option RunRecord) := do
  let some current ← find? program id | return none
  if current.status ≠ expected then return none
  if !current.status.canBecome target then
    throw (.invalidTransition id.text current.status target)
  match ← Script.ofExcept (changed current target time) with
  | none => return some current
  | some updated =>
    write updated (some current.status)
    return some updated

/-! ### Queries -/

/-- The records among some payloads, in order. -/
def decodeAll {α : Type} [Stored α] (rows : List (Key × Value)) : List α :=
  rows.filterMap fun row ↦ (row.2.decode : Except Damage α).toOption

/-- The records of a program's runs that started in a window of seconds, its end excluded: those
with a chosen status that pass a test, in the order of their keys, up to a number. -/
def inWindow (program : ProgramId) (status : StatusFilter) (first last : UInt64) (limit : Nat)
    (keep : RunRecord → Bool) : Script (List RunRecord) := do
  if last ≤ first ∨ limit = 0 then return []
  let rows ← Script.readRange (Key.runTimeBound program first) (Key.runTimeBound program last)
  let chosen := (decodeAll rows).filter fun record ↦ status.admits record.status && keep record
  return chosen.take limit

/-- The records that index entries under a status name, if they have that status and pass a test, up
to a number. An entry that leads to no such record is passed over. -/
def ofEntries (status : RunStatus) (keep : RunRecord → Bool) :
    List (Key × Value) → (limit : Nat) → Script (List RunRecord)
  | [], _ => return []
  | _, 0 => return []
  | (_, value) :: rest, limit + 1 => do
    match (value.decode : Except Damage IndexEntry) with
    | .error _ => ofEntries status keep rest (limit + 1)
    | .ok entry =>
      match ← (find? entry.program entry.id).attempt with
      | .ok (some record) =>
        if record.status = status ∧ keep record then
          return record :: (← ofEntries status keep rest limit)
        else ofEntries status keep rest (limit + 1)
      | _ => ofEntries status keep rest (limit + 1)

/-- The records of runs with one of some statuses that pass a test, status by status, up to a
number. -/
def withStatuses (keep : RunRecord → Bool) :
    List RunStatus → (limit : Nat) → Script (List RunRecord)
  | [], _ => return []
  | _, 0 => return []
  | status :: rest, limit => do
    let rows ← Script.readStem (Key.runsOfStatus status)
    let found ← ofEntries status keep rows limit
    return found ++ (← withStatuses keep rest (limit - found.length))

/-- The records of all programs' runs with a chosen status that pass a test, up to a number. -/
def withStatus (status : StatusFilter) (limit : Nat) (keep : RunRecord → Bool) :
    Script (List RunRecord) :=
  withStatuses keep status.statuses limit

/-- Whether a run was active at some time of a window, its end included. -/
def isActiveDuring (first last : UInt64) (record : RunRecord) : Bool :=
  record.startTime ≤ last && record.stopTime?.all (first ≤ ·)

/-- The ids of the runs that were active at some time of a window, its end included. -/
def activeDuring (first last : UInt64) : Script (SortedSet RunId) := do
  let rows ← Script.readStem Key.allRuns
  let active := (decodeAll rows).filter (isActiveDuring first last)
  return .ofList (active.map fun record ↦ (record.id, ()))

/-- The runtime arguments of a run; an unknown run has none. -/
def runtimeArguments (program : ProgramId) (id : RunId) : Script (SortedMap String String) := do
  match ← find? program id with
  | none => return ∅
  | some record => return record.runtimeArguments

/-! ### Removal -/

/-- Deletes several keys. -/
def eraseAll : List Key → Script Unit
  | [] => return
  | key :: rest => do
    Script.erase key
    eraseAll rest

/-- Deletes the record under a key and, as far as the key tells which run it is for, all index
entries, node states and the token of that run. -/
def removeRow (key : Key) : Script Unit := do
  if let .ok (program, id) := key.decodeRun then
    eraseAll (RunStatus.all.map fun status ↦ Key.statusIndex status program id)
    let states ← Script.readStem (Key.nodeStatesOfRun program id)
    eraseAll (states.map Prod.fst)
    Script.erase (Key.workflowToken program id)
  Script.erase key

/-- Deletes the records under several keys with all that belongs to them. -/
def removeRows : List Key → Script Unit
  | [] => return
  | key :: rest => do
    removeRow key
    removeRows rest

/-- Deletes the first runs of a scope with all that belongs to them, up to a number, and tells how
many there were. -/
def removeBatch (scope : Scope) (size : Nat) : Script Nat := do
  let rows ← Script.readStem (Key.runsInScope scope)
  let keys := (rows.take size).map Prod.fst
  removeRows keys
  return keys.length

end Runs

end RunLedger
