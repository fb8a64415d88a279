import RunLedger.Proofs.Ledger.Listings
import RunLedger.Proofs.Ledger.Orderly
import RunLedger.Proofs.Ledger.SummarySoundness
import RunLedger.Proofs.Ledger.WellFormedRecords
import RunLedger.Proofs.Workflow.Spacing

/-!
# Summaries that are stored

In all contents that commits have made, each key among the summaries is that of a workflow run and
holds a summary of this run, which tells the second of the run id as its start
(`Contents.Summarized`); removals only take summaries away. So the rows of a workflow are those of
its summaries in the order of their run ids, and those between two time bounds are the ones that
started in between (`Summaries.exists_all`, `Summaries.exists_window`).
-/

set_option autoImplicit false

namespace RunLedger

open Spacing (IsTimely Precedes)

/-! ### Summaries of runs -/

/-- The summary of a workflow run, if there is one that can be read. -/
def Contents.summary? (contents : Contents) (workflow : ProgramId) (id : RunId) :
    Option WorkflowSummary := do
  let value ← contents.get? (Key.workflowRun workflow id)
  (value.decode : Except Damage WorkflowSummary).toOption

/-- What lies among the summaries are summaries of runs under the keys of these runs, each with the
second of its run id as the start. -/
def Contents.Summarized (contents : Contents) : Prop :=
  ∀ key value, contents.get? key = some value → key.family = .workflowRun →
    ∃ workflow summary, key = Key.workflowRun workflow summary.id ∧ value = .ofRecord summary ∧
      IsTimely summary

/-- A removal leaves of the summaries what it leaves, and other operations write what the record of
the run determines. -/
theorem System.Sound.summarized {system : System Operation Reply}
    {failsRead failsWrite : Nat → Bool}
    (hsound : system.Sound Operation.program failsRead failsWrite) (count : Nat) :
    (contentsAfter system.history count).Summarized := by
  refine contentsAfter_induction (fun key value hvalue ↦ by cases hvalue)
    (fun place commit hcommit hearlier key value hvalue hfamily ↦ ?_) count
  have hcommitted := hsound.commits place commit hcommit
  have hbefore := hearlier place (Nat.le_refl place)
  by_cases hremoval : commit.operation.IsRemoval
  · rw [contentsAfter_succ hcommit] at hvalue
    refine hbefore key value ((get?_or_put_of_effectOf hvalue).resolve_right ?_) hfamily
    exact hcommitted.not_put_of_isRemoval (hsound.consistent _) hremoval key value
  · have hafter := congrArg Prod.snd (hcommitted.eval_eq hcommit hremoval)
    dsimp only at hafter
    rw [← hafter] at hvalue
    rcases Operation.get?_summarized hremoval (hsound.consistent place) hfamily with
      hsame | ⟨workflow, id, record, summary, -, rfl, hrun, hsummarizes, hwritten⟩
    · exact hbefore key value (hsame.symm.trans hvalue) hfamily
    · obtain ⟨-, -, rfl⟩ := (hsound.consistent place).of_run? hrun
      refine ⟨workflow, summary, congrArg _ hsummarizes.id.symm,
        Option.some.inj (hvalue.symm.trans hwritten), ?_⟩
      rw [IsTimely, hsummarizes.startTime, hsummarizes.id]
      exact (hsound.wellFormed_records place _ _ record hrun).startTime

theorem Ledger.Reached.summarized {ledger : Ledger} (hreached : ledger.Reached) :
    ledger.live.Summarized := by
  obtain ⟨failsRead, failsWrite, config, events, hdatabase⟩ := hreached
  have hsound := System.sound_run Operation.program failsRead failsWrite config events
  have hlive : ledger.live = _ := (congrArg Database.live hdatabase).trans hsound.live
  rw [hlive]
  exact hsound.summarized _

namespace Contents

variable {contents : Contents}

/-- The row of a summary under the key of its run. -/
def summaryRow (workflow : ProgramId) (summary : WorkflowSummary) : Key × Value :=
  (Key.workflowRun workflow summary.id, .ofRecord summary)

theorem decodeAll_summaryRow (workflow : ProgramId) (listed : List WorkflowSummary) :
    Runs.decodeAll (listed.map (summaryRow workflow)) = listed := by
  rw [Runs.decodeAll, List.filterMap_map]
  refine (List.filterMap_congr fun summary _ ↦ ?_).trans List.filterMap_some
  rw [Function.comp_apply, summaryRow, decode_workflowSummary]
  rfl

theorem summary?_of_get? {workflow : ProgramId} {id : RunId} {summary : WorkflowSummary}
    (hvalue : contents.get? (Key.workflowRun workflow id) = some (.ofRecord summary)) :
    contents.summary? workflow id = some summary := by
  simp only [summary?, hvalue, Option.bind_eq_bind, Option.bind_some, decode_workflowSummary]
  rfl

/-- Workflows that differ in their type alone have the same summaries. -/
theorem summary?_congr {workflow other : ProgramId}
    (hsame : Key.workflowComponents other = Key.workflowComponents workflow) (id : RunId) :
    contents.summary? other id = contents.summary? workflow id := by
  rw [summary?, Key.workflowRun, hsame]
  rfl

namespace Summarized

variable (hsummarized : contents.Summarized)

include hsummarized

theorem get?_workflowRun (workflow : ProgramId) (id : RunId) :
    contents.get? (Key.workflowRun workflow id) =
      (contents.summary? workflow id).map .ofRecord := by
  cases hvalue : contents.get? (Key.workflowRun workflow id) with
  | none => rw [summary?, hvalue]; rfl
  | some value =>
    obtain ⟨other, summary, hkey, rfl, -⟩ := hsummarized _ _ hvalue rfl
    rw [summary?_of_get? hvalue]
    rfl

/-- A summary is that of the run under whose key it lies. -/
theorem of_summary? {workflow : ProgramId} {id : RunId} {summary : WorkflowSummary}
    (hfound : contents.summary? workflow id = some summary) :
    summary.id = id ∧ IsTimely summary := by
  have hvalue := hsummarized.get?_workflowRun workflow id
  rw [hfound, Option.map_some] at hvalue
  obtain ⟨other, stored, hkey, hsame, htimely⟩ := hsummarized _ _ hvalue rfl
  obtain rfl := (ofRecord_inj_of_decode decode_workflowSummary).mp hsame
  exact ⟨(Key.workflowRun_eq_iff.mp hkey).2.2.2.symm, htimely⟩

/-- The rows of a workflow's summaries, chosen by their run ids, are in the order of these. -/
theorem exists_rows (workflow : ProgramId) (chosen : Key → Bool) (admits : RunId → Prop)
    (hfamily : ∀ key, chosen key = true → key.family = .workflowRun)
    (hchosen : ∀ other id, chosen (Key.workflowRun other id) = true ↔
      Key.workflowComponents other = Key.workflowComponents workflow ∧ admits id) :
    ∃ listed : List WorkflowSummary,
      (contents.filter fun key _ ↦ chosen key).toList = listed.map (summaryRow workflow) ∧
      listed.Pairwise Precedes ∧
      ∀ summary, summary ∈ listed ↔
        contents.summary? workflow summary.id = some summary ∧ admits summary.id := by
  let owned (summary : WorkflowSummary) : Prop :=
    contents.summary? workflow summary.id = some summary ∧ admits summary.id
  have hrows (key : Key) (value : Value) (hvalue : contents.get? key = some value)
      (hkey : chosen key = true) :
      ∃ summary, owned summary ∧ summaryRow workflow summary = (key, value) := by
    obtain ⟨other, summary, rfl, rfl, -⟩ := hsummarized key value hvalue (hfamily key hkey)
    obtain ⟨hsame, hadmits⟩ := (hchosen other summary.id).mp hkey
    have hfound := summary?_of_get? hvalue
    rw [summary?_congr hsame] at hfound
    refine ⟨summary, ⟨hfound, hadmits⟩, ?_⟩
    rw [summaryRow, Key.workflowRun, Key.workflowRun, hsame]
  have howned (summary : WorkflowSummary) (hsummary : owned summary) :
      contents.get? (summaryRow workflow summary).1 = some (summaryRow workflow summary).2 ∧
        chosen (summaryRow workflow summary).1 = true := by
    have hvalue := hsummarized.get?_workflowRun workflow summary.id
    rw [hsummary.1] at hvalue
    exact ⟨hvalue, (hchosen workflow summary.id).mpr ⟨rfl, hsummary.2⟩⟩
  have hinjective (first second : WorkflowSummary) (_ : owned first) (_ : owned second)
      (hsame : summaryRow workflow first = summaryRow workflow second) : first = second :=
    (ofRecord_inj_of_decode decode_workflowSummary).mp (congrArg Prod.snd hsame)
  obtain ⟨listed, hlisted, hsorted, hmem⟩ := contents.exists_listed hrows howned hinjective
  exact ⟨listed, hlisted, hsorted.imp Key.timed_lt_timed_iff.mp, hmem⟩

end Summarized

end Contents

/-! ### The scripts -/

namespace Summaries

open Script Contents

section

variable {mayScan : Prop} {mayChange : Key → Prop}

theorem plain_find? (workflow : ProgramId) (id : RunId) :
    (find? workflow id).Plain mayScan mayChange :=
  (plain_read _).bind fun
    | none => plain_pure _
    | some _ => (Runs.plain_decode _).bind fun _ ↦ plain_pure _

theorem plain_inWindow (hscan : mayScan) (workflow : ProgramId) (first last : UInt64) :
    (inWindow workflow first last).Plain mayScan mayChange := by
  unfold inWindow
  split
  · exact plain_pure _
  · exact (plain_readRange hscan _ _).bind fun _ ↦ plain_pure _

theorem plain_statistics (hscan : mayScan) (workflow : ProgramId) (first last : UInt64)
    (percentiles : List Float) :
    (statistics workflow first last percentiles).Plain mayScan mayChange :=
  (Runs.plain_ofExcept _).bind fun _ ↦ (plain_inWindow hscan workflow first last).bind fun _ ↦
    plain_pure _

theorem plain_spaced (hscan : mayScan) (workflow : ProgramId) (id : RunId) (limit : Nat)
    (interval : UInt64) : (spaced workflow id limit interval).Plain mayScan mayChange :=
  (plain_find? workflow id).bind fun
    | none => plain_pure _
    | some _ => (plain_readStem hscan _).bind fun _ ↦ plain_pure _

end

variable {contents : Contents} (hsummarized : contents.Summarized)

include hsummarized

theorem eval_find? (workflow : ProgramId) (id : RunId) :
    (find? workflow id).eval contents = (.ok (contents.summary? workflow id), contents) := by
  unfold find?
  rw [eval_bind, eval_read, hsummarized.get?_workflowRun]
  cases contents.summary? workflow id with
  | none => rfl
  | some summary =>
    dsimp only [Option.map_some]
    rw [eval_bind, Script.decode, decode_workflowSummary]
    rfl

/-- The rows of a workflow are those of its summaries, by run id. -/
theorem exists_all (workflow : ProgramId) :
    ∃ listed : List WorkflowSummary,
      (readStem (Key.runsOfWorkflow workflow)).eval contents =
        (.ok (listed.map (summaryRow workflow)), contents) ∧
      listed.Pairwise Precedes ∧
      ∀ summary, summary ∈ listed ↔ contents.summary? workflow summary.id = some summary := by
  obtain ⟨listed, hrows, hsorted, hmem⟩ := hsummarized.exists_rows workflow
    (fun key ↦ key.startsWith (Key.runsOfWorkflow workflow)) (fun _ ↦ True)
    (fun key hkey ↦ (Key.startsWith_iff.mp hkey).1) fun other id ↦
      (Key.startsWith_ofComponents_iff (Key.kinds_workflowComponents other workflow) _).trans
        (and_iff_left trivial).symm
  exact ⟨listed, congrArg (fun rows ↦ (Except.ok rows, contents)) hrows, hsorted, fun summary ↦
    (hmem summary).trans (and_iff_left trivial)⟩

/-- The summaries of a window are those of the workflow's runs that started in it, by run id. -/
theorem exists_window (workflow : ProgramId) (first last : UInt64) :
    ∃ listed : List WorkflowSummary,
      (inWindow workflow first last).eval contents = (.ok listed, contents) ∧
      listed.Pairwise Precedes ∧
      ∀ summary, summary ∈ listed ↔ contents.summary? workflow summary.id = some summary ∧
        first ≤ summary.startTime ∧ summary.startTime < last := by
  unfold inWindow
  split
  · rename_i hempty
    refine ⟨[], rfl, .nil, fun summary ↦ iff_of_false List.not_mem_nil ?_⟩
    rintro ⟨-, hfirst, hlast⟩
    exact UInt64.not_lt.mpr hempty (UInt64.lt_of_le_of_lt hfirst hlast)
  · obtain ⟨listed, hrows, hsorted, hmem⟩ := hsummarized.exists_rows workflow
      (Key.isBetween (Key.workflowRunTimeBound workflow first)
        (Key.workflowRunTimeBound workflow last))
      (fun id ↦ first ≤ id.seconds ∧ id.seconds < last)
      (fun key hkey ↦ Key.family_of_lt (Key.isBetween_iff.mp hkey).1 (Key.isBetween_iff.mp hkey).2
        rfl)
      (fun other id ↦ (@Key.isBetween_timeBounds_iff .workflowRun _ _
        (Key.kinds_workflowComponents workflow other) first last id).trans (and_congr_left' eq_comm))
    have hread : (readRange (Key.workflowRunTimeBound workflow first)
        (Key.workflowRunTimeBound workflow last)).eval contents =
          (.ok (listed.map (summaryRow workflow)), contents) :=
      congrArg (fun rows ↦ (Except.ok rows, contents)) hrows
    refine ⟨listed, ?_, hsorted, fun summary ↦ (hmem summary).trans (and_congr_right fun hfound ↦ ?_)⟩
    · rw [eval_bind, hread]
      dsimp only
      rw [decodeAll_summaryRow]
      rfl
    · have htimely := (hsummarized.of_summary? hfound).2
      rw [IsTimely] at htimely
      rw [htimely]

end Summaries

/-! ### A night that has been summarised -/

/-- What is stored of a workflow run that has been started, stopped and summarised. -/
def completedLedger : Ledger :=
  ⟨(System.reliably Operation.program completedNight).database, .standard⟩

theorem reached_completedLedger : completedLedger.Reached :=
  Ledger.reached_run (fun _ ↦ false) (fun _ ↦ false) .standard completedNight .standard

theorem exists_summary_completedLedger :
    ∃ summary, completedLedger.live.summary? nightly firstNight = some summary := by
  have hthere : completedLedger.live.contains (Key.workflowRun nightly firstNight) = true := by
    decide +kernel
  obtain ⟨value, hvalue⟩ := Option.isSome_iff_exists.mp hthere
  rw [reached_completedLedger.summarized.get?_workflowRun, Option.map_eq_some_iff] at hvalue
  obtain ⟨summary, hsummary, -⟩ := hvalue
  exact ⟨summary, hsummary⟩

end RunLedger
