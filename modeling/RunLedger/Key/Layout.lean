import RunLedger.Key.Component
import RunLedger.RunId
import RunLedger.Run.Status

/-!
# Layouts of keys

What each family of keys is made of. Run records of a program follow each other by the second of
their run id and then by its text, the entries of the status index by status, second and text, and
the summaries of a workflow by second and text. The stems and bounds below delimit what a scan over
one program, scope, status or time window covers.
-/

set_option autoImplicit false

namespace RunLedger.Key

/-- The key of a family with the given components. -/
def ofComponents (family : Family) (components : List KeyComponent) : Key :=
  ⟨family, KeyComponent.encodeAll components⟩

/-! ### Run records -/

/-- The record of a run. -/
def run (program : ProgramId) (id : RunId) : Key :=
  ofComponents .run (program.keyComponents ++ [.number id.seconds, .text id.text])

/-- What the records of a program's runs begin with. -/
def runsOfProgram (program : ProgramId) : Key := ofComponents .run program.keyComponents

/-- The lower bound of the records of a program's runs from a second on. -/
def runTimeBound (program : ProgramId) (seconds : UInt64) : Key :=
  ofComponents .run (program.keyComponents ++ [.number seconds])

/-- What the records of runs in a scope begin with. -/
def runsInScope (scope : Scope) : Key := ofComponents .run scope.keyComponents

/-- What all records of runs begin with. -/
def allRuns : Key := ofComponents .run []

/-- The program and the run id in the key of a run record. -/
def decodeRun (key : Key) : Except Damage (ProgramId × RunId) :=
  if key.family ≠ .run then .error (.notRunKey key)
  else
    let read : KeyReader (ProgramId × RunId) := do
      let program ← KeyReader.program
      let _ ← KeyReader.number
      let text ← KeyReader.text
      match RunId.parse? text with
      | none => throw (.malformedRunId text)
      | some id => return (program, id)
    (read.run key.bytes).1

/-! ### Status index -/

/-- The index entry of a run under a status. -/
def statusIndex (status : RunStatus) (program : ProgramId) (id : RunId) : Key :=
  ofComponents .runByStatus
    ([.byte status.code, .number id.seconds, .text id.text] ++ program.keyComponents)

/-- What the index entries under a status begin with. -/
def runsOfStatus (status : RunStatus) : Key := ofComponents .runByStatus [.byte status.code]

/-! ### Progress of workflow runs -/

/-- The state of one node of a workflow run. -/
def nodeState (workflow : ProgramId) (id : RunId) (node : String) : Key :=
  ofComponents .nodeState (workflow.keyComponents ++ [.text id.text, .text node])

/-- What the node states of a workflow run begin with. -/
def nodeStatesOfRun (workflow : ProgramId) (id : RunId) : Key :=
  ofComponents .nodeState (workflow.keyComponents ++ [.text id.text])

/-- The token of a workflow run. -/
def workflowToken (workflow : ProgramId) (id : RunId) : Key :=
  ofComponents .workflowToken (workflow.keyComponents ++ [.text id.text])

/-! ### Summaries of workflow runs -/

/-- The components that name a workflow; its type goes without saying. -/
def workflowComponents (workflow : ProgramId) : List KeyComponent :=
  [.text workflow.namespaceName, .text workflow.application, .text workflow.name]

/-- The summary of a workflow run. -/
def workflowRun (workflow : ProgramId) (id : RunId) : Key :=
  ofComponents .workflowRun
    (workflowComponents workflow ++ [.number id.seconds, .text id.text])

/-- The lower bound of the summaries of a workflow from a second on. -/
def workflowRunTimeBound (workflow : ProgramId) (seconds : UInt64) : Key :=
  ofComponents .workflowRun (workflowComponents workflow ++ [.number seconds])

/-- What the summaries of a workflow begin with. -/
def runsOfWorkflow (workflow : ProgramId) : Key :=
  ofComponents .workflowRun (workflowComponents workflow)

/-- What the summaries of workflows in a scope begin with. -/
def workflowRunsInScope (scope : Scope) : Key :=
  ofComponents .workflowRun scope.keyComponents

end RunLedger.Key
