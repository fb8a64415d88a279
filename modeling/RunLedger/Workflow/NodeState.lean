import RunLedger.Run.Record

/-!
# States of workflow nodes

What a workflow run reports of one of its nodes.
-/

set_option autoImplicit false

namespace RunLedger

/-- Where a node stands. -/
inductive NodeStatus where
  | starting
  | running
  | completed
  | failed
  | killed
deriving DecidableEq, Inhabited

/-- All statuses of nodes. -/
def NodeStatus.all : List NodeStatus := [starting, running, completed, failed, killed]

/-- The state of one node of a workflow run. The run id is free text. -/
structure NodeState where
  node : String
  status : NodeStatus
  runId? : Option String
  failureCause? : Option FailureCause
deriving DecidableEq, Inhabited

end RunLedger
