import RunLedger.Ledger.Runs
import RunLedger.Stored.Workflow
import RunLedger.Workflow.Spacing
import RunLedger.Workflow.Statistics

/-!
# Summaries of workflow runs in the ledger

A workflow run is summarised from its record and those of its nodes (`Summaries.summarize?`), and
the summary lies under the key of the run (`Key.workflowRun`). Statistics and samples are made from
the summaries of a workflow; what does not decode is passed over.
-/

set_option autoImplicit false

namespace RunLedger.Summaries

/-- The timings of some nodes of a workflow run; none unless all of their runs have completed. -/
def timings? (workflow : ProgramId) : List (String × NodeRun) → Script (Option (List NodeTiming))
  | [] => return some []
  | (node, run) :: rest => do
    let some record ← Runs.find? (workflow.sibling run.type run.program) run.id | return none
    match record.status, record.stopTime? with
    | .completed, some stopTime =>
      let duration := milliseconds (elapsed record.startTime stopTime)
      let some timings ← timings? workflow rest | return none
      return some (⟨node, run.id, run.type, duration⟩ :: timings)
    | _, _ => return none

/-- The summary of a workflow run that has completed with all of its nodes. -/
def summarize? (record : RunRecord) : Script (Option WorkflowSummary) := do
  match record.status, record.stopTime? with
  | .completed, some stopTime =>
    let some nodes ← timings? record.program record.workflowNodes.toList | return none
    return some {
      id := record.id
      startTime := record.startTime
      timeTaken := elapsed record.startTime stopTime
      nodes }
  | _, _ => return none

/-- Writes the summary of a workflow run. -/
def write (workflow : ProgramId) (summary : WorkflowSummary) : Script Unit :=
  Script.write (Key.workflowRun workflow summary.id) (.ofRecord summary)

/-- The summary of a workflow run, if there is one. -/
def find? (workflow : ProgramId) (id : RunId) : Script (Option WorkflowSummary) := do
  match ← Script.read (Key.workflowRun workflow id) with
  | none => return none
  | some value => return some (← Script.decode value)

/-- Summarises a workflow run as it is recorded, and tells whether there was something to write. -/
def record (workflow : ProgramId) (id : RunId) : Script Bool := do
  let some run ← Runs.find? workflow id | return false
  let some summary ← summarize? run | return false
  write workflow summary
  return true

/-- The summaries of a workflow's runs that started in a window of seconds, its end excluded. -/
def inWindow (workflow : ProgramId) (first last : UInt64) : Script (List WorkflowSummary) := do
  if last ≤ first then return []
  let rows ← Script.readRange (Key.workflowRunTimeBound workflow first)
    (Key.workflowRunTimeBound workflow last)
  return Runs.decodeAll rows

/-- The statistics of a workflow's runs that started in a window of seconds, if there are any. -/
def statistics (workflow : ProgramId) (first last : UInt64) (percentiles : List Float) :
    Script (Option WorkflowStatistics) := do
  Script.ofExcept (NearestRank.checkPercentiles percentiles)
  return WorkflowStatistics.ofSummaries? first last percentiles (← inWindow workflow first last)

/-- A sample of a workflow's summaries around one of them, at least an interval apart; none if that
one does not exist. -/
def spaced (workflow : ProgramId) (id : RunId) (limit : Nat) (interval : UInt64) :
    Script (Option (List WorkflowSummary)) := do
  let some anchor ← find? workflow id | return none
  let rows ← Script.readStem (Key.runsOfWorkflow workflow)
  return some (Spacing.around anchor id limit interval (Runs.decodeAll rows))

/-- Deletes the first summaries of a scope, up to a number, and tells how many there were. -/
def removeBatch (scope : Scope) (size : Nat) : Script Nat := do
  let rows ← Script.readStem (Key.workflowRunsInScope scope)
  let keys := (rows.take size).map Prod.fst
  Runs.eraseAll keys
  return keys.length

end RunLedger.Summaries
