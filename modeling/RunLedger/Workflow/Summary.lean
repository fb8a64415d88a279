import RunLedger.Run.Record

/-!
# Summaries of workflow runs

A completed workflow run whose nodes have all completed is summarised by its own running time and
those of its nodes.
-/

set_option autoImplicit false

namespace RunLedger

/-- How long the run of one node took, in milliseconds. -/
structure NodeTiming where
  node : String
  id : RunId
  type : ProgramType
  duration : UInt64
deriving DecidableEq

/-- How long a workflow run and its nodes took; times and the time taken are in seconds. -/
structure WorkflowSummary where
  id : RunId
  startTime : UInt64
  timeTaken : UInt64
  nodes : List NodeTiming
deriving DecidableEq

/-- The time from start to stop, zero if the stop comes first. -/
def elapsed (start stop : UInt64) : UInt64 := if start ≤ stop then stop - start else 0

/-- Milliseconds of a number of seconds, at most 2^64 - 1. -/
def milliseconds (seconds : UInt64) : UInt64 :=
  UInt64.ofNat (min (seconds.toNat * 1000) (UInt64.size - 1))

theorem toNat_elapsed (start stop : UInt64) :
    (elapsed start stop).toNat = stop.toNat - start.toNat := by
  unfold elapsed
  split
  · rename_i hle
    exact UInt64.toNat_sub_of_le stop start hle
  · rename_i hlt
    rw [UInt64.le_iff_toNat_le] at hlt
    rw [UInt64.toNat_zero]
    omega

theorem toNat_milliseconds (seconds : UInt64) :
    (milliseconds seconds).toNat = min (seconds.toNat * 1000) (UInt64.size - 1) := by
  have hlt : min (seconds.toNat * 1000) (UInt64.size - 1) < UInt64.size := by
    have hsize : 0 < UInt64.size := by decide
    omega
  exact UInt64.toNat_ofNat_of_lt hlt

end RunLedger
