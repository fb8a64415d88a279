import RunLedger.Proofs.Stored.RoundTrip
import RunLedger.Stored.Workflow

/-!
# All that is stored is read back

The ledger stores five types of records: those of runs, the entries of the status index, the tokens
and node states of workflow runs, and their summaries. Each of them is stored faithfully
(`Stored.Faithful`): whatever characters its texts have and however large its numbers are, a record
is what its payload decodes to, be that a text or the bytes of one (`records_stored_faithfully`).
-/

set_option autoImplicit false

namespace RunLedger

open Json

/-! ### Progress and summaries -/

theorem readsBack_nodeStatus : ReadsBack (Stored.toJson : NodeStatus → Json) Stored.ofJson? where
  written status := .text _
  read status := by
    simp only [Stored.toJson, Stored.ofJson?, toName?_ofString]
    cases status <;> decide

theorem readsBack_nodeState : ReadsBack (Stored.toJson : NodeState → Json) Stored.ofJson? := by
  have htext := readsBack_string.ofOption fun value hnull ↦ by cases hnull
  have hcause := readsBack_failureCause.ofOption fun value hnull ↦ by cases hnull
  refine readsBack_record (fun state ↦ ?_) (fun state ↦ ?_) fun state ↦ ?_
  · simp
  · simp [readsBack_string.written, readsBack_nodeStatus.written, htext.written, hcause.written]
  · simp [List.lookup_cons, List.lookup_nil, required?, withDefault?, readsBack_string.read,
      readsBack_nodeStatus.read, htext.read, hcause.read]

theorem readsBack_nodeValue : ReadsBack (Stored.toJson : NodeValue → Json) Stored.ofJson? := by
  refine readsBack_record (fun written ↦ ?_) (fun written ↦ ?_) fun written ↦ ?_
  · simp
  · simp [readsBack_string.written]
  · simp [List.lookup_cons, List.lookup_nil, required?, readsBack_string.read]

theorem readsBack_workflowToken :
    ReadsBack (Stored.toJson : WorkflowToken → Json) Stored.ofJson? := by
  have hentries := readsBack_nodeValue.ofList.ofMap
  refine readsBack_record (fun token ↦ ?_) (fun token ↦ ?_) fun token ↦ ?_
  · simp
  · simp [hentries.written]
  · simp [List.lookup_cons, required?, hentries.read]

theorem readsBack_nodeTiming : ReadsBack (Stored.toJson : NodeTiming → Json) Stored.ofJson? := by
  refine readsBack_record (fun timing ↦ ?_) (fun timing ↦ ?_) fun timing ↦ ?_
  · simp
  · simp [readsBack_string.written, readsBack_runId.written, readsBack_programType.written,
      readsBack_uint64.written]
  · simp [List.lookup_cons, List.lookup_nil, required?, readsBack_string.read, readsBack_runId.read,
      readsBack_programType.read, readsBack_uint64.read]

theorem readsBack_workflowSummary :
    ReadsBack (Stored.toJson : WorkflowSummary → Json) Stored.ofJson? := by
  have hnodes := readsBack_nodeTiming.ofList
  refine readsBack_record (fun summary ↦ ?_) (fun summary ↦ ?_) fun summary ↦ ?_
  · simp
  · simp [readsBack_runId.written, readsBack_uint64.written, hnodes.written]
  · simp [List.lookup_cons, List.lookup_nil, required?, readsBack_runId.read, readsBack_uint64.read,
      hnodes.read]

/-- A summary decodes from its payload. -/
theorem decode_workflowSummary (summary : WorkflowSummary) :
    (Value.ofRecord summary).decode = .ok summary :=
  decode_of_readsBack readsBack_workflowSummary summary

/-! ### Faithful storage -/

/-- Every value of a type has a payload, which is the text of a written JSON tree, and is what that
text decodes to and what the UTF-8 bytes of that text decode to. -/
def Stored.Faithful (α : Type) [Stored α] : Prop :=
  ∀ record : α, ∃ json : Json, json.Written ∧
    Value.ofRecord record = .text (String.ofList json.render) ∧
    (Value.text (String.ofList json.render)).decode = .ok record ∧
    (Value.bytes (Text.utf8 (String.ofList json.render))).decode = .ok record

/-- A type whose JSON is read back is stored faithfully: a text and its bytes are decoded alike. -/
theorem Stored.faithful_of_readsBack {α : Type} [Stored α]
    (hstored : ReadsBack (Stored.toJson : α → Json) Stored.ofJson?) : Stored.Faithful α := by
  intro record
  have hdecode := decode_of_readsBack hstored record
  exact ⟨Stored.toJson record, hstored.written record, rfl, hdecode, hdecode⟩

/-- All types of records that the ledger stores are stored faithfully. -/
theorem records_stored_faithfully :
    Stored.Faithful RunRecord ∧ Stored.Faithful IndexEntry ∧ Stored.Faithful WorkflowToken ∧
      Stored.Faithful NodeState ∧ Stored.Faithful WorkflowSummary :=
  ⟨Stored.faithful_of_readsBack readsBack_runRecord,
    Stored.faithful_of_readsBack readsBack_indexEntry,
    Stored.faithful_of_readsBack readsBack_workflowToken,
    Stored.faithful_of_readsBack readsBack_nodeState,
    Stored.faithful_of_readsBack readsBack_workflowSummary⟩

end RunLedger
