import Mathlib.Data.List.Forall2
import RunLedger.Proofs.Key.Exactness
import RunLedger.Proofs.Ledger.Commits
import RunLedger.Proofs.Stored.Faithfulness

/-!
# Summaries stay sound

A summary is written in a transaction of its own that looks up the record of a workflow run and
those of its nodes, while other transactions start and stop nodes, and start the workflow run anew.
Nevertheless a stored summary is at all times what the present records determine
(`summaries_sound`). All records it is made from are of runs that have completed
(`Contents.Summarizes`): at the commit of the summary they are still the ones looked up
(`Commit.Sound.eval_eq`), and from then on no operation changes them (`Contents.Summarizes.keeps`),
nor does a workflow run that has stopped take up further nodes.

This needs that no scope is removed, and that only workflows are summarised, for the key of a
summary does not tell the type of its program.
-/

set_option autoImplicit false

namespace RunLedger

/-! ### What records determine -/

namespace Contents

/-- The run of a node has completed, and a timing tells how long it took. -/
structure Times (contents : Contents) (workflow : ProgramId) (entry : String × NodeRun)
    (timing : NodeTiming) : Prop where
  node : timing.node = entry.1
  id : timing.id = entry.2.id
  type : timing.type = entry.2.type
  completed : ∃ record stopTime,
    contents.run? (workflow.sibling entry.2.type entry.2.program) entry.2.id = some record ∧
      record.status = .completed ∧ record.stopTime? = some stopTime ∧
      timing.duration.toNat =
        min ((stopTime.toNat - record.startTime.toNat) * 1000) (2 ^ 64 - 1)

/-- A summary is what the record of a workflow run and those of its nodes determine: all of them have
completed, and each node is timed, in the order of the nodes. -/
structure Summarizes (contents : Contents) (record : RunRecord) (summary : WorkflowSummary) :
    Prop where
  completed : record.status = .completed
  id : summary.id = record.id
  startTime : summary.startTime = record.startTime
  timeTaken : ∃ stopTime, record.stopTime? = some stopTime ∧
    summary.timeTaken.toNat = stopTime.toNat - record.startTime.toNat
  nodes : List.Forall₂ (contents.Times record.program) record.workflowNodes.toList summary.nodes

/-- Every entry among the summaries is that of a workflow run, under its key, and holds what the
records determine. -/
def SoundlySummarized (contents : Contents) : Prop :=
  ∀ key value, contents.get? key = some value → key.family = .workflowRun →
    ∃ workflow id record summary, workflow.type = .workflow ∧ key = Key.workflowRun workflow id ∧
      contents.run? workflow id = some record ∧
      (value.decode : Except Damage WorkflowSummary) = .ok summary ∧
      contents.Summarizes record summary

section

variable {before after : Contents}

/-- What has completed stays timed as long as records of stopped runs stay. -/
theorem Times.keeps {workflow : ProgramId} {entry : String × NodeRun} {timing : NodeTiming}
    (htimes : before.Times workflow entry timing)
    (hkeeps : ∀ program id, Contents.Keeps program id before after) :
    after.Times workflow entry timing := by
  obtain ⟨record, stopTime, hrun, hstatus, hstop, hduration⟩ := htimes.completed
  have hkept := (hkeeps _ _).stopped record hrun (by rw [hstatus]; rfl)
  exact { htimes with completed := ⟨record, stopTime, hkept, hstatus, hstop, hduration⟩ }

theorem Summarizes.keeps {record : RunRecord} {summary : WorkflowSummary}
    (hsummarizes : before.Summarizes record summary)
    (hkeeps : ∀ program id, Contents.Keeps program id before after) :
    after.Summarizes record summary :=
  { hsummarizes with nodes := hsummarizes.nodes.imp fun _ _ htimes ↦ htimes.keeps hkeeps }

end

end Contents

/-! ### What is written -/

namespace Summaries

open Script

variable {contents : Contents}

/-- The nodes are timed if all of their runs have completed. -/
theorem eval_timings? (hconsistent : contents.Consistent) (workflow : ProgramId)
    (nodes : List (String × NodeRun)) :
    ∃ found?, (timings? workflow nodes).eval contents = (.ok found?, contents) ∧
      ∀ timings, found? = some timings → List.Forall₂ (contents.Times workflow) nodes timings := by
  induction nodes with
  | nil => exact ⟨some [], rfl, fun timings htimings ↦ Option.some.inj htimings ▸ .nil⟩
  | cons entry rest ih =>
    obtain ⟨node, run⟩ := entry
    obtain ⟨others?, hothers, htimes⟩ := ih
    unfold timings?
    rw [eval_bind, Runs.eval_find? hconsistent]
    cases hrun : contents.run? (workflow.sibling run.type run.program) run.id with
    | none => exact ⟨none, rfl, by simp⟩
    | some record =>
      dsimp only
      split
      · rename_i stopTime hstatus hstop
        rw [eval_bind, hothers]
        cases others? with
        | none => exact ⟨none, rfl, by simp⟩
        | some timings =>
          refine ⟨_, rfl, fun all hall ↦ Option.some.inj hall ▸ .cons ⟨rfl, rfl, rfl, record,
            stopTime, hrun, hstatus, hstop, ?_⟩ (htimes timings rfl)⟩
          rw [toNat_milliseconds, toNat_elapsed]
          rfl
      · exact ⟨none, rfl, by simp⟩

/-- A summary is made if the workflow run has completed and its nodes are timed. -/
theorem eval_summarize? (hconsistent : contents.Consistent) (record : RunRecord) :
    ∃ found?, (summarize? record).eval contents = (.ok found?, contents) ∧
      ∀ summary, found? = some summary → contents.Summarizes record summary := by
  unfold summarize?
  split
  · rename_i stopTime hstatus hstop
    obtain ⟨nodes?, hnodes, htimes⟩ :=
      eval_timings? hconsistent record.program record.workflowNodes.toList
    rw [eval_bind, hnodes]
    cases nodes? with
    | none => exact ⟨none, rfl, by simp⟩
    | some nodes =>
      refine ⟨_, rfl, fun summary hsummary ↦ Option.some.inj hsummary ▸ ?_⟩
      exact {
        completed := hstatus
        id := rfl
        startTime := rfl
        timeTaken := ⟨stopTime, hstop, toNat_elapsed _ _⟩
        nodes := htimes nodes rfl }
  · exact ⟨none, rfl, by simp⟩

/-- To summarise a workflow run writes nothing, or what its record determines under its key. -/
theorem eval_record (hconsistent : contents.Consistent) (workflow : ProgramId) (id : RunId) :
    ((record workflow id).eval contents).2 = contents ∨
      ∃ run summary, contents.run? workflow id = some run ∧ contents.Summarizes run summary ∧
        ((record workflow id).eval contents).2 =
          contents.insert (Key.workflowRun workflow id) (.ofRecord summary) := by
  unfold record
  rw [eval_bind, Runs.eval_find? hconsistent]
  cases hrun : contents.run? workflow id with
  | none => exact Or.inl rfl
  | some run =>
    obtain ⟨-, -, rfl⟩ := hconsistent.of_run? hrun
    obtain ⟨found?, hfound, hsummarizes⟩ := eval_summarize? hconsistent run
    dsimp only
    rw [eval_bind, hfound]
    cases found? with
    | none => exact Or.inl rfl
    | some summary =>
      have hsummary := hsummarizes summary rfl
      refine Or.inr ⟨run, summary, rfl, hsummary, ?_⟩
      rw [← hsummary.id]
      rfl

end Summaries

/-! ### Operations -/

namespace Operation

/-- An operation that removes nothing and summarises nothing but workflows. -/
def IsRegular : Operation → Prop
  | summarize workflow _ => workflow.type = .workflow
  | removeRuns .. | removeSummaries .. => False
  | start _ | suspend .. | resume .. | stop .. | compareAndSet .. | putToken .. | putNodeState .. =>
    True

theorem IsRegular.not_isRemoval {operation : Operation} (hregular : operation.IsRegular) :
    ¬ operation.IsRemoval := by
  cases operation with
  | removeRuns scope size | removeSummaries scope size => exact hregular.elim
  | _ => exact not_false

/-- An operation that removes nothing leaves a summary as it is, or makes it of what the records
determine. -/
theorem get?_summarized {operation : Operation} {contents : Contents}
    (hremoval : ¬ operation.IsRemoval) (hconsistent : contents.Consistent) {key : Key}
    (hfamily : key.family = .workflowRun) :
    (operation.program.eval contents).2.get? key = contents.get? key ∨
      ∃ workflow id record summary, operation = .summarize workflow id ∧
        key = Key.workflowRun workflow id ∧ contents.run? workflow id = some record ∧
        contents.Summarizes record summary ∧
        (operation.program.eval contents).2.get? key = some (.ofRecord summary) := by
  by_cases hsummarize : ∃ workflow id, operation = .summarize workflow id
  · obtain ⟨workflow, id, rfl⟩ := hsummarize
    rw [program, Script.eval_map]
    rcases Summaries.eval_record hconsistent workflow id with
      hsame | ⟨record, summary, hrun, hsummarizes, hwritten⟩
    · exact Or.inl (congrArg (SortedMap.get? · key) hsame)
    · rw [hwritten, Contents.get?_insert]
      by_cases hkey : key = Key.workflowRun workflow id
      · exact Or.inr ⟨workflow, id, record, summary, rfl, hkey, hrun, hsummarizes, if_pos hkey⟩
      · exact Or.inl (if_neg hkey)
  · refine Or.inl (operation.plain_program.get?_eval contents ?_)
    rintro (hremoves | hchange)
    · exact hremoval hremoves
    · obtain ⟨workflow, id, -, hoperation, -⟩ := hchange hfamily
      exact hsummarize ⟨workflow, id, hoperation⟩

section

variable {operation : Operation} {contents : Contents} (hregular : operation.IsRegular)
  (hconsistent : contents.Consistent)

include hregular hconsistent

/-- Where all summaries are sound they are so behind an operation. -/
theorem soundlySummarized (hbefore : contents.SoundlySummarized) :
    (operation.program.eval contents).2.SoundlySummarized := by
  have hkeeps (program : ProgramId) (id : RunId) :
      Contents.Keeps program id contents (operation.program.eval contents).2 :=
    keeps_of_alters (operation.alters hregular.not_isRemoval hconsistent) hconsistent
  have hstays {workflow : ProgramId} {id : RunId} {record : RunRecord} {summary : WorkflowSummary}
      (hrun : contents.run? workflow id = some record)
      (hsummarizes : contents.Summarizes record summary) :
      (operation.program.eval contents).2.run? workflow id = some record :=
    (hkeeps workflow id).stopped record hrun (by rw [hsummarizes.completed]; rfl)
  intro key value hvalue hfamily
  rcases get?_summarized hregular.not_isRemoval hconsistent hfamily with
    hsame | ⟨workflow, id, record, summary, rfl, hkey, hrun, hsummarizes, hwritten⟩
  · rw [hsame] at hvalue
    obtain ⟨workflow, id, record, summary, htype, hkey, hrun, hdecode, hsummarizes⟩ :=
      hbefore key value hvalue hfamily
    exact ⟨workflow, id, record, summary, htype, hkey, hstays hrun hsummarizes, hdecode,
      hsummarizes.keeps hkeeps⟩
  · obtain rfl : .ofRecord summary = value := Option.some.inj (hwritten.symm.trans hvalue)
    exact ⟨workflow, id, record, summary, hregular, hkey, hstays hrun hsummarizes,
      decode_workflowSummary summary, hsummarizes.keeps hkeeps⟩

end

end Operation

/-- All contents that commits of regular operations have made are soundly summarised. -/
theorem System.Sound.soundlySummarized {system : System Operation Reply}
    {failsRead failsWrite : Nat → Bool}
    (hsound : system.Sound Operation.program failsRead failsWrite)
    (honly : system.Only Operation.IsRegular) (count : Nat) :
    (contentsAfter system.history count).SoundlySummarized := by
  refine contentsAfter_induction (fun key value hvalue ↦ by cases hvalue)
    (fun place commit hcommit hearlier ↦ ?_) count
  have hregular := honly.history commit (List.mem_of_getElem? hcommit)
  have hafter := Operation.soundlySummarized hregular (hsound.consistent place)
    (hearlier place (Nat.le_refl place))
  rw [(hsound.commits place commit hcommit).eval_eq hcommit hregular.not_isRemoval] at hafter
  exact hafter

/-- A workflow run is started, stopped and summarised. -/
def completedNight : List (Event Operation) :=
  .begin (.start ⟨nightly, firstNight, 1000, none, ∅, ∅⟩) :: List.replicate 3 (.call 0) ++
    .conclude 0 :: .begin (.stop nightly firstNight 1020 .completed none) ::
    List.replicate 4 (.call 1) ++
    .conclude 1 :: .begin (.summarize nightly firstNight) :: List.replicate 2 (.call 2) ++
    [.conclude 2]

end RunLedger
