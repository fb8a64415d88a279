import RunLedger.Database
import RunLedger.Ledger.Progress
import RunLedger.Ledger.Summaries

/-!
# The ledger

A `Ledger` is a database with the settings of its operations. Each operation is a script in a
transaction of its own that is tried again after conflicts (`Ledger.perform`). A stop that finds a
workflow run completed is followed by a second transaction for its summary, which has no say in the
result of the stop (`Ledger.stop`). A removal goes through its scope batch by batch, each in a
transaction of its own, until one finds nothing left (`Ledger.drain`).
-/

set_option autoImplicit false

namespace RunLedger

/-- A database and the settings of operations on it. -/
structure Ledger where
  database : Database
  config : Config

namespace Ledger

variable {α : Type}

/-- A ledger over a database, with settings that make sense. -/
def ofDatabase (database : Database) (config : Config) : Except Failure Ledger :=
  match config.check with
  | .error failure => .error failure
  | .ok () => .ok { database, config }

/-- An empty ledger with the standard settings. -/
def ephemeral : Ledger := { database := .ephemeral, config := .standard }

instance : Inhabited Ledger := ⟨ephemeral⟩

/-- An empty ledger with given settings. -/
def withConfig (config : Config) : Except Failure Ledger := do
  let database ← Database.ofSubstrate (.reliable .empty) config
  return { database, config }

/-- A script in a transaction of its own, tried again after conflicts. -/
def perform (ledger : Ledger) (script : Script α) : Except Failure α × Ledger :=
  let (outcome, database) := ledger.database.transactRetrying ledger.config.retry script
  (outcome, { ledger with database })

/-! ### Lifecycle -/

/-- Starts a run. -/
def start (ledger : Ledger) (request : Start) : Except Failure RunRecord × Ledger :=
  ledger.perform (Runs.start request)

/-- Suspends a run. -/
def suspend (ledger : Ledger) (program : ProgramId) (id : RunId) (time : UInt64) :
    Except Failure RunRecord × Ledger :=
  ledger.perform (Runs.suspend program id time)

/-- Resumes a run. -/
def resume (ledger : Ledger) (program : ProgramId) (id : RunId) (time : UInt64) :
    Except Failure RunRecord × Ledger :=
  ledger.perform (Runs.resume program id time)

/-- Stops a run. If it is a workflow run that has completed, a second transaction summarises it;
whatever becomes of that, the result is that of the first. -/
def stop (ledger : Ledger) (program : ProgramId) (id : RunId) (time : UInt64)
    (status : RunStatus) (cause? : Option FailureCause) : Except Failure RunRecord × Ledger :=
  match ledger.perform (Runs.stop program id time status cause?) with
  | (.error failure, ledger) => (.error failure, ledger)
  | (.ok record, ledger) =>
    if program.type = .workflow ∧ record.status = .completed then
      let (_, ledger) := ledger.perform (Summaries.record program id)
      (.ok record, ledger)
    else (.ok record, ledger)

/-- Brings a run from an expected status to another. -/
def compareAndSet (ledger : Ledger) (program : ProgramId) (id : RunId)
    (expected target : RunStatus) (time : UInt64) : Except Failure (Option RunRecord) × Ledger :=
  ledger.perform (Runs.compareAndSet program id expected target time)

/-! ### Queries -/

/-- The record of a run. -/
def run? (ledger : Ledger) (program : ProgramId) (id : RunId) :
    Except Failure (Option RunRecord) × Ledger :=
  ledger.perform (Runs.find? program id)

/-- The records of a program's runs in a window. -/
def runsInWindow (ledger : Ledger) (program : ProgramId) (status : StatusFilter)
    (first last : UInt64) (limit : Nat) (keep : RunRecord → Bool) :
    Except Failure (List RunRecord) × Ledger :=
  ledger.perform (Runs.inWindow program status first last limit keep)

/-- The records of all programs' runs with a chosen status. -/
def runsWithStatus (ledger : Ledger) (status : StatusFilter) (limit : Nat)
    (keep : RunRecord → Bool) : Except Failure (List RunRecord) × Ledger :=
  ledger.perform (Runs.withStatus status limit keep)

/-- The ids of the runs active in a window. -/
def runsActiveDuring (ledger : Ledger) (first last : UInt64) :
    Except Failure (SortedSet RunId) × Ledger :=
  ledger.perform (Runs.activeDuring first last)

/-- The runtime arguments of a run. -/
def runtimeArguments (ledger : Ledger) (program : ProgramId) (id : RunId) :
    Except Failure (SortedMap String String) × Ledger :=
  ledger.perform (Runs.runtimeArguments program id)

/-! ### Workflows -/

/-- Writes the token of a workflow run. -/
def putToken (ledger : Ledger) (workflow : ProgramId) (id : RunId) (token : WorkflowToken) :
    Except Failure Unit × Ledger :=
  ledger.perform (Progress.putToken workflow id token)

/-- The token of a workflow run. -/
def token (ledger : Ledger) (workflow : ProgramId) (id : RunId) :
    Except Failure WorkflowToken × Ledger :=
  ledger.perform (Progress.token workflow id)

/-- Writes the state of a node of a workflow run. -/
def putNodeState (ledger : Ledger) (workflow : ProgramId) (id : RunId) (state : NodeState) :
    Except Failure Unit × Ledger :=
  ledger.perform (Progress.putNodeState workflow id state)

/-- The states of the nodes of a workflow run. -/
def nodeStates (ledger : Ledger) (workflow : ProgramId) (id : RunId) :
    Except Failure (List NodeState) × Ledger :=
  ledger.perform (Progress.nodeStates workflow id)

/-- The statistics of a workflow's runs in a window. -/
def statistics (ledger : Ledger) (workflow : ProgramId) (first last : UInt64)
    (percentiles : List Float) : Except Failure (Option WorkflowStatistics) × Ledger :=
  ledger.perform (Summaries.statistics workflow first last percentiles)

/-- The summary of a workflow run. -/
def summary? (ledger : Ledger) (workflow : ProgramId) (id : RunId) :
    Except Failure (Option WorkflowSummary) × Ledger :=
  ledger.perform (Summaries.find? workflow id)

/-- A sample of a workflow's summaries around one of them. -/
def spacedSummaries (ledger : Ledger) (workflow : ProgramId) (id : RunId) (limit : Nat)
    (interval : UInt64) : Except Failure (Option (List WorkflowSummary)) × Ledger :=
  ledger.perform (Summaries.spaced workflow id limit interval)

/-! ### Removal -/

/-- Batches one after the other until one finds nothing, at most `rounds` of them; the sum of what
they found. -/
def drainRounds (batch : Script Nat) : (rounds : Nat) → Ledger → Except Failure Nat × Ledger
  | 0, ledger => (.ok 0, ledger)
  | rounds + 1, ledger =>
    match ledger.perform batch with
    | (.error failure, ledger) => (.error failure, ledger)
    | (.ok 0, ledger) => (.ok 0, ledger)
    | (.ok found, ledger) =>
      match drainRounds batch rounds ledger with
      | (.error failure, ledger) => (.error failure, ledger)
      | (.ok more, ledger) => (.ok (found + more), ledger)

/-- Batches of deletions one after the other until one finds nothing. Each that finds something
deletes a key, so the last one comes when as many have gone before as there are keys. -/
def drain (ledger : Ledger) (batch : Script Nat) : Except Failure Nat × Ledger :=
  drainRounds batch (ledger.database.substrate.store.keyCount + 1) ledger

/-- Deletes the summaries of a scope; the number deleted. -/
def removeSummaries (ledger : Ledger) (scope : Scope) : Except Failure Nat × Ledger :=
  ledger.drain (Summaries.removeBatch scope ledger.config.deleteBatchSize)

/-- Deletes the runs of a scope with all that belongs to them, and then its summaries; the number of
both together. -/
def removeScope (ledger : Ledger) (scope : Scope) : Except Failure Nat × Ledger :=
  match ledger.drain (Runs.removeBatch scope ledger.config.deleteBatchSize) with
  | (.error failure, ledger) => (.error failure, ledger)
  | (.ok runs, ledger) =>
    match ledger.removeSummaries scope with
    | (.error failure, ledger) => (.error failure, ledger)
    | (.ok summaries, ledger) => (.ok (runs + summaries), ledger)

end Ledger

end RunLedger
