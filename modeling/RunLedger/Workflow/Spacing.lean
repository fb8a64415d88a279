import RunLedger.Workflow.Summary

/-!
# Summaries apart in time

A sample of a workflow's summaries around one of them: going away from it in either direction, a
summary is taken if it starts far enough from the one taken last, until enough are taken.
-/

set_option autoImplicit false

namespace RunLedger.Spacing

/-- How far apart two times are. -/
def distance (first second : UInt64) : UInt64 :=
  if first ≤ second then second - first else first - second

/-- Of summaries going away from a time, those at least an interval from the one taken last, up to a
number. -/
def walk (interval : UInt64) : (last : UInt64) → (limit : Nat) → List WorkflowSummary →
    List WorkflowSummary
  | _, _, [] => []
  | _, 0, _ => []
  | last, limit + 1, summary :: rest =>
    if interval ≤ distance last summary.startTime then
      summary :: walk interval summary.startTime limit rest
    else walk interval last (limit + 1) rest

/-- The sample around an anchor among the summaries of its workflow, in their order: at most `limit`
before and at most `limit` behind it. An anchor that is not among them is the whole sample. -/
def around (anchor : WorkflowSummary) (id : RunId) (limit : Nat) (interval : UInt64)
    (summaries : List WorkflowSummary) : List WorkflowSummary :=
  let before := summaries.takeWhile fun summary ↦ summary.id ≠ id
  match summaries.dropWhile fun summary ↦ summary.id ≠ id with
  | [] => [anchor]
  | middle :: behind =>
    (walk interval middle.startTime limit before.reverse).reverse ++
      anchor :: walk interval middle.startTime limit behind

end RunLedger.Spacing
