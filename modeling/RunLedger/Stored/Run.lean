import RunLedger.Run.Record
import RunLedger.Value

/-!
# Run records as JSON

The stored form of run records and of what they are made of, and of the entries of the status index,
which name a run. Statuses and program types are written by capitalised names. A failure cause
without stack frames and a record without workflow nodes leave the empty field out; when a record is
read, every field from the stop time on may be missing.
-/

set_option autoImplicit false

namespace RunLedger

open Json

instance : Stored String := ⟨ofString, toString?⟩

instance : Stored UInt64 := ⟨ofUInt64, toUInt64?⟩

/-- The name of a program type in stored records. -/
def ProgramType.storedName : ProgramType → String
  | flow => "Flow"
  | mapreduce => "Mapreduce"
  | spark => "Spark"
  | workflow => "Workflow"
  | service => "Service"
  | worker => "Worker"

instance : Stored ProgramType where
  toJson type := ofString type.storedName
  ofJson? json := do
    let name ← toName? json
    ProgramType.all.find? fun type ↦ type.storedName = name

instance : Stored ProgramId where
  toJson program := ofFields [
    ("namespace", ofString program.namespaceName),
    ("application", ofString program.application),
    ("program_type", Stored.toJson program.type),
    ("program", ofString program.name)]
  ofJson? json := do
    match ← fields? ["namespace", "application", "program_type", "program"] json with
    | [namespaceName, application, type, name] =>
      return {
        namespaceName := ← required? toString? namespaceName
        application := ← required? toString? application
        type := ← required? Stored.ofJson? type
        name := ← required? toString? name }
    | _ => none

instance : Stored RunId where
  toJson id := ofString id.text
  ofJson? json := toString? json >>= RunId.parse?

/-- The name of a status in stored records. -/
def RunStatus.storedName : RunStatus → String
  | running => "Running"
  | suspended => "Suspended"
  | completed => "Completed"
  | killed => "Killed"
  | failed => "Failed"

instance : Stored RunStatus where
  toJson status := ofString status.storedName
  ofJson? json := do
    let name ← toName? json
    RunStatus.all.find? fun status ↦ status.storedName = name

instance : Stored FailureCause where
  toJson cause := ofFields ([
    ("class_name", ofString cause.className),
    ("message", ofString cause.message)] ++
    if cause.stackTrace.isEmpty then [] else
      [("stack_trace", Json.ofList ofString cause.stackTrace)])
  ofJson? json := do
    match ← fields? ["class_name", "message", "stack_trace"] json with
    | [className, message, stackTrace] =>
      return {
        className := ← required? toString? className
        message := ← required? toString? message
        stackTrace := ← withDefault? (toList? toString?) [] stackTrace }
    | _ => none

instance : Stored NodeRun where
  toJson run := ofFields [
    ("program_type", Stored.toJson run.type),
    ("program", ofString run.program),
    ("run_id", Stored.toJson run.id)]
  ofJson? json := do
    match ← fields? ["program_type", "program", "run_id"] json with
    | [type, program, id] =>
      return {
        type := ← required? Stored.ofJson? type
        program := ← required? toString? program
        id := ← required? Stored.ofJson? id }
    | _ => none

instance : Stored (SortedMap String String) := ⟨ofMap ofString, toMap? toString?⟩

/-- The names of the fields of a run record, in order. -/
def RunRecord.fieldNames : List String :=
  ["program", "run_id", "status", "start_time", "stop_time", "suspend_time", "resume_time",
    "runtime_args", "system_args", "twill_run_id", "failure_cause", "workflow_nodes"]

instance : Stored RunRecord where
  toJson record := ofFields ([
    ("program", Stored.toJson record.program),
    ("run_id", Stored.toJson record.id),
    ("status", Stored.toJson record.status),
    ("start_time", ofUInt64 record.startTime),
    ("stop_time", ofOption ofUInt64 record.stopTime?),
    ("suspend_time", ofOption ofUInt64 record.suspendTime?),
    ("resume_time", ofOption ofUInt64 record.resumeTime?),
    ("runtime_args", ofMap ofString record.runtimeArguments),
    ("system_args", ofMap ofString record.systemArguments),
    ("twill_run_id", ofOption ofString record.twillRunId?),
    ("failure_cause", ofOption Stored.toJson record.failureCause?)] ++
    if record.workflowNodes.isEmpty then [] else
      [("workflow_nodes", ofMap Stored.toJson record.workflowNodes)])
  ofJson? json := do
    match ← fields? RunRecord.fieldNames json with
    | [program, id, status, startTime, stopTime, suspendTime, resumeTime, runtimeArguments,
        systemArguments, twillRunId, failureCause, workflowNodes] =>
      return {
        program := ← required? Stored.ofJson? program
        id := ← required? Stored.ofJson? id
        status := ← required? Stored.ofJson? status
        startTime := ← required? toUInt64? startTime
        stopTime? := ← withDefault? (toOption? toUInt64?) none stopTime
        suspendTime? := ← withDefault? (toOption? toUInt64?) none suspendTime
        resumeTime? := ← withDefault? (toOption? toUInt64?) none resumeTime
        runtimeArguments := ← withDefault? (toMap? toString?) ∅ runtimeArguments
        systemArguments := ← withDefault? (toMap? toString?) ∅ systemArguments
        twillRunId? := ← withDefault? (toOption? toString?) none twillRunId
        failureCause? := ← withDefault? (toOption? Stored.ofJson?) none failureCause
        workflowNodes := ← withDefault? (toMap? Stored.ofJson?) ∅ workflowNodes }
    | _ => none

/-- An entry of the status index names the run it is for. -/
structure IndexEntry where
  program : ProgramId
  id : RunId
deriving DecidableEq

instance : Stored IndexEntry where
  toJson entry := ofFields [
    ("program", Stored.toJson entry.program),
    ("run_id", Stored.toJson entry.id)]
  ofJson? json := do
    match ← fields? ["program", "run_id"] json with
    | [program, id] =>
      return {
        program := ← required? Stored.ofJson? program
        id := ← required? Stored.ofJson? id }
    | _ => none

end RunLedger
