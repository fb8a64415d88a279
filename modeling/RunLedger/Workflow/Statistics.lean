import RunLedger.Workflow.NearestRank
import RunLedger.Workflow.Summary

/-!
# Statistics of workflow runs

`WorkflowStatistics.ofSummaries?` sums up the summaries of a time window: how long the runs took on
average, their percentiles with the runs from that rank on, and the same for each node that occurs
in any of them.
-/

set_option autoImplicit false

namespace RunLedger

/-- A percentile of running times, and the runs at that rank and above. -/
structure PercentileOfRuns where
  percentile : Float
  value : UInt64
  ids : List RunId

/-- How long the runs of one node took, in milliseconds. -/
structure NodeStatistics where
  type : ProgramType
  runs : Nat
  averageDuration : Float
  percentiles : List (Float × UInt64)

/-- How long the runs of a workflow took that started in a time window, in seconds. -/
structure WorkflowStatistics where
  startTime : UInt64
  endTime : UInt64
  runs : Nat
  averageRunTime : Float
  percentiles : List PercentileOfRuns
  nodes : SortedMap String NodeStatistics

namespace WorkflowStatistics

/-- The mean of some numbers. The sum counts up to 2^64. -/
def average (values : List UInt64) : Float :=
  let total := values.foldl (fun sum value ↦ sum + value.toNat) 0
  (UInt64.ofNat total).toFloat / (UInt64.ofNat values.length).toFloat

/-- The running time and the id of a run. -/
abbrev RunTime := UInt64 × RunId

/-- The order of running times; equal times are ordered by run id. -/
def RunTime.isBelow (first second : RunTime) : Bool :=
  ((compare first.1 second.1).then (compare first.2 second.2)).isLE

/-- The running times of some runs in ascending order. -/
def sortedTimes (summaries : List WorkflowSummary) : List RunTime :=
  (summaries.map fun summary ↦ (summary.timeTaken, summary.id)).mergeSort RunTime.isBelow

/-- A percentile of ascending running times. -/
def percentileOfRuns (times : List RunTime) (percentile : Float) : PercentileOfRuns :=
  let above := times.drop (NearestRank.index percentile times.length)
  { percentile, value := (above.head?.map Prod.fst).getD 0, ids := above.map Prod.snd }

/-- A percentile of ascending durations. -/
def percentileOfDurations (durations : List UInt64) (percentile : Float) : UInt64 :=
  durations.getD (NearestRank.index percentile durations.length) 0

/-- The durations by node of some timings in a row; the type of a node is the one seen first. -/
def durationsByNode (timings : List NodeTiming) : SortedMap String (ProgramType × List UInt64) :=
  timings.foldl (fun nodes timing ↦
    let (type, durations) := (nodes.get? timing.node).getD (timing.type, [])
    nodes.insert timing.node (type, durations ++ [timing.duration])) ∅

/-- The statistics of one node. -/
def ofNode (percentiles : List Float) (type : ProgramType) (durations : List UInt64) :
    NodeStatistics :=
  let sorted := durations.mergeSort
  { type
    runs := sorted.length
    averageDuration := average sorted
    percentiles := percentiles.map fun percentile ↦
      (percentile, percentileOfDurations sorted percentile) }

/-- The statistics of the summaries of a window, if there are any. -/
def ofSummaries? (startTime endTime : UInt64) (percentiles : List Float)
    (summaries : List WorkflowSummary) : Option WorkflowStatistics :=
  if summaries.isEmpty then none
  else
    let times := sortedTimes summaries
    let nodes := durationsByNode (summaries.flatMap WorkflowSummary.nodes)
    some {
      startTime
      endTime
      runs := times.length
      averageRunTime := average (times.map Prod.fst)
      percentiles := percentiles.map (percentileOfRuns times)
      nodes := .ofList (nodes.toList.map fun (node, type, durations) ↦
        (node, ofNode percentiles type durations)) }

end WorkflowStatistics

end RunLedger
