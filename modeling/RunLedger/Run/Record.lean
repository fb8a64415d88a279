import RunLedger.Failure
import RunLedger.SortedMap

/-!
# Run records

A `RunRecord` holds what is known of one run of a program. It is made by `RunRecord.started` and
changes only by `restarted`, `suspended`, `resumed` and `stopped`, each of which refuses what the
status does not allow (`RunStatus.canBecome`). A stopped record stays as it is: a stop in the
recorded status changes nothing and one in another terminal status is refused.

A run of a workflow node names its workflow run in its system arguments (`parentWorkflow?`), and the
record of a workflow run lists the runs of its nodes.
-/

set_option autoImplicit false

namespace RunLedger

/-- Why a run failed. -/
structure FailureCause where
  className : String
  message : String
  stackTrace : List String
deriving DecidableEq, Inhabited

/-- A cause known by its message alone. -/
def FailureCause.ofMessage (message : String) : FailureCause :=
  { className := "Error", message, stackTrace := [] }

/-- The program run behind a node of a workflow run. -/
structure NodeRun where
  type : ProgramType
  program : String
  id : RunId
deriving DecidableEq

/-- What is known of one run of a program. Times are seconds since 1970. -/
structure RunRecord where
  program : ProgramId
  id : RunId
  status : RunStatus
  startTime : UInt64
  stopTime? : Option UInt64
  suspendTime? : Option UInt64
  resumeTime? : Option UInt64
  runtimeArguments : SortedMap String String
  systemArguments : SortedMap String String
  /-- The name of the run where it executes. -/
  twillRunId? : Option String
  failureCause? : Option FailureCause
  /-- The runs of the nodes of a workflow run, by node. -/
  workflowNodes : SortedMap String NodeRun
deriving DecidableEq

namespace RunRecord

/-- The system argument that names the workflow of a node run. -/
def workflowNameArgument : String := "workflowName"

/-- The system argument that holds the run id of the workflow of a node run. -/
def workflowRunArgument : String := "workflowRunId"

/-- The system argument that names the node of a node run. -/
def workflowNodeArgument : String := "workflowNodeId"

/-- The record of a run that has just started. -/
def started (program : ProgramId) (id : RunId) (startTime : UInt64) (twillRunId? : Option String)
    (runtimeArguments systemArguments : SortedMap String String) : RunRecord where
  program
  id
  status := .running
  startTime
  stopTime? := none
  suspendTime? := none
  resumeTime? := none
  runtimeArguments
  systemArguments
  twillRunId?
  failureCause? := none
  workflowNodes := ∅

/-- The refusal of a change of status. -/
def refusal (record : RunRecord) (target : RunStatus) : Failure :=
  .invalidTransition record.id.text record.status target

/-- A run that has not stopped starts anew: the fresh record replaces the old one but keeps the
nodes registered on it. -/
def restarted (record fresh : RunRecord) : Except Failure RunRecord :=
  if record.status.canBecome .running then
    .ok { fresh with workflowNodes := record.workflowNodes }
  else .error (record.refusal .running)

/-- A running run is suspended. -/
def suspended (record : RunRecord) (time : UInt64) : Except Failure RunRecord :=
  if record.status = .running then
    .ok { record with status := .suspended, suspendTime? := some time }
  else .error (record.refusal .suspended)

/-- A suspended run goes on. -/
def resumed (record : RunRecord) (time : UInt64) : Except Failure RunRecord :=
  if record.status = .suspended then
    .ok { record with status := .running, resumeTime? := some time }
  else .error (record.refusal .running)

/-- A run stops in a terminal status; none if it has already stopped in that status. -/
def stopped (record : RunRecord) (time : UInt64) (status : RunStatus)
    (cause? : Option FailureCause) : Except Failure (Option RunRecord) :=
  if !status.isTerminal then .error (.invalidInput (.stopNotTerminal status))
  else if record.status.isTerminal then
    if record.status = status then .ok none
    else .error (.conflictingTerminalStatus record.id.text record.status status)
  else .ok (some { record with status, stopTime? := some time, failureCause? := cause? })

/-- The workflow, the text of its run id and the node that the system arguments name. -/
def parentWorkflow? (record : RunRecord) : Option (ProgramId × String × String) := do
  let name ← record.systemArguments.get? workflowNameArgument
  let run ← record.systemArguments.get? workflowRunArgument
  let node ← record.systemArguments.get? workflowNodeArgument
  return (record.program.sibling .workflow name, run, node)

/-- Whether the record has a stop time exactly if its run has stopped. -/
def isConsistent (record : RunRecord) : Bool :=
  record.status.isTerminal = record.stopTime?.isSome

end RunRecord

end RunLedger
