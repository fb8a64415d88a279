import RunLedger.Ledger.Runs
import RunLedger.Stored.Workflow

/-!
# Progress of workflow runs in the ledger

The token of a workflow run and the states of its nodes, as scripts of transactions. They can be
written only for a run that exists.
-/

set_option autoImplicit false

namespace RunLedger.Progress

/-- Writes the token of a workflow run. -/
def putToken (workflow : ProgramId) (id : RunId) (token : WorkflowToken) : Script Unit := do
  let _ ← Runs.require workflow id
  Script.write (Key.workflowToken workflow id) (.ofRecord token)

/-- The token of a workflow run, empty before the first one is written. -/
def token (workflow : ProgramId) (id : RunId) : Script WorkflowToken := do
  let _ ← Runs.require workflow id
  match ← Script.read (Key.workflowToken workflow id) with
  | none => return .empty
  | some value => Script.decode value

/-- Writes the state of a node of a workflow run. -/
def putNodeState (workflow : ProgramId) (id : RunId) (state : NodeState) : Script Unit := do
  let _ ← Runs.require workflow id
  Script.write (Key.nodeState workflow id state.node) (.ofRecord state)

/-- The states of the nodes of a workflow run, in the order of the nodes. What does not decode is
passed over. -/
def nodeStates (workflow : ProgramId) (id : RunId) : Script (List NodeState) := do
  return Runs.decodeAll (← Script.readStem (Key.nodeStatesOfRun workflow id))

end RunLedger.Progress
