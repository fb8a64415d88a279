import RunLedger.Stored.Run
import RunLedger.Workflow.NodeState
import RunLedger.Workflow.Summary
import RunLedger.Workflow.Token

/-!
# Workflow progress and summaries as JSON

The stored form of the states of workflow nodes, of workflow tokens and of workflow summaries.
-/

set_option autoImplicit false

namespace RunLedger

open Json

/-- The name of a node status in stored records. -/
def NodeStatus.storedName : NodeStatus → String
  | starting => "Starting"
  | running => "Running"
  | completed => "Completed"
  | failed => "Failed"
  | killed => "Killed"

instance : Stored NodeStatus where
  toJson status := ofString status.storedName
  ofJson? json := do
    let name ← toName? json
    NodeStatus.all.find? fun status ↦ status.storedName = name

instance : Stored NodeState where
  toJson state := ofFields [
    ("node_id", ofString state.node),
    ("node_status", Stored.toJson state.status),
    ("run_id", ofOption ofString state.runId?),
    ("failure_cause", ofOption Stored.toJson state.failureCause?)]
  ofJson? json := do
    match ← fields? ["node_id", "node_status", "run_id", "failure_cause"] json with
    | [node, status, runId, failureCause] =>
      return {
        node := ← required? toString? node
        status := ← required? Stored.ofJson? status
        runId? := ← withDefault? (toOption? toString?) none runId
        failureCause? := ← withDefault? (toOption? Stored.ofJson?) none failureCause }
    | _ => none

instance : Stored NodeValue where
  toJson written := ofFields [
    ("node", ofString written.node),
    ("value", ofString written.value)]
  ofJson? json := do
    match ← fields? ["node", "value"] json with
    | [node, value] =>
      return { node := ← required? toString? node, value := ← required? toString? value }
    | _ => none

instance : Stored WorkflowToken where
  toJson token := ofFields [("entries", ofMap (Json.ofList Stored.toJson) token.entries)]
  ofJson? json := do
    match ← fields? ["entries"] json with
    | [entries] => return { entries := ← required? (toMap? (toList? Stored.ofJson?)) entries }
    | _ => none

instance : Stored NodeTiming where
  toJson timing := ofFields [
    ("node_id", ofString timing.node),
    ("run_id", Stored.toJson timing.id),
    ("program_type", Stored.toJson timing.type),
    ("duration_ms", ofUInt64 timing.duration)]
  ofJson? json := do
    match ← fields? ["node_id", "run_id", "program_type", "duration_ms"] json with
    | [node, id, type, duration] =>
      return {
        node := ← required? toString? node
        id := ← required? Stored.ofJson? id
        type := ← required? Stored.ofJson? type
        duration := ← required? toUInt64? duration }
    | _ => none

instance : Stored WorkflowSummary where
  toJson summary := ofFields [
    ("workflow_run_id", Stored.toJson summary.id),
    ("start_time", ofUInt64 summary.startTime),
    ("time_taken_secs", ofUInt64 summary.timeTaken),
    ("program_runs", Json.ofList Stored.toJson summary.nodes)]
  ofJson? json := do
    match ← fields? ["workflow_run_id", "start_time", "time_taken_secs", "program_runs"] json with
    | [id, startTime, timeTaken, nodes] =>
      return {
        id := ← required? Stored.ofJson? id
        startTime := ← required? toUInt64? startTime
        timeTaken := ← required? toUInt64? timeTaken
        nodes := ← required? (toList? Stored.ofJson?) nodes }
    | _ => none

end RunLedger
