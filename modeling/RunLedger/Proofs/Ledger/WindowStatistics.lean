import RunLedger.Proofs.Ledger.StoredSummaries
import RunLedger.Proofs.Workflow.Statistics

/-!
# Statistics of a workflow's runs in a window

On a ledger that operations have made, statistics describe the stored summaries of the workflow whose
runs started in the window, and there are none exactly if there is no such summary. Percentiles that
are no numbers from 0 to 100 are refused before anything is read (`statistics_describe_window`).
-/

set_option autoImplicit false

namespace RunLedger

open NearestRank WorkflowStatistics

namespace Summaries

variable {contents : Contents}

theorem eval_statistics {workflow : ProgramId} {first last : UInt64} {percentiles : List Float}
    (haccepted : ∀ percentile ∈ percentiles, isPercentile percentile = true)
    {window : List WorkflowSummary}
    (hwindow : (inWindow workflow first last).eval contents = (.ok window, contents)) :
    (statistics workflow first last percentiles).eval contents =
      (.ok (ofSummaries? first last percentiles window), contents) := by
  unfold statistics
  rw [checkPercentiles_eq_ok_iff.mpr haccepted, Script.ofExcept, Script.finish_bind]
  dsimp only
  rw [Script.eval_bind, hwindow]
  rfl

theorem eval_statistics_refused {workflow : ProgramId} {first last : UInt64}
    {percentiles : List Float} {failure : Failure}
    (hrefused : checkPercentiles percentiles = .error failure) :
    (statistics workflow first last percentiles).eval contents = (.error failure, contents) := by
  unfold statistics
  rw [hrefused, Script.ofExcept, Script.finish_bind]
  rfl

end Summaries

end RunLedger
