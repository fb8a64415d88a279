import RunLedger.Proofs.Ledger.Operations

/-!
# Committed operations

Every committed operation makes of the contents right before its commit what `Operation.Makes` says
(`Commit.Sound.makes`). Operations that scan nothing do it as if nobody else were there, for what
they looked up still holds at their commit (`Commit.Sound.perform_eq`). A removal of runs erases
what its scan has found. From this follows that all contents that commits have made are consistent
(`System.Sound.consistent`).

An operation without scans that was not interrupted ended as its script does by itself, on its
snapshot or right before its commit (`System.Sound.settled`).
-/

set_option autoImplicit false

namespace RunLedger

open Relation (ReflTransGen)

/-! ### Plain operations -/

namespace Runs

open Script

theorem plain_eraseAll {mayScan : Prop} (keys : List Key) :
    (eraseAll keys).Plain mayScan fun _ ↦ True := by
  induction keys with
  | nil => exact plain_pure _
  | cons key rest ih => exact (plain_erase trivial).bind fun _ ↦ ih

theorem plain_removeRow (key : Key) : (removeRow key).Plain True fun _ ↦ True := by
  unfold removeRow
  split
  · refine (plain_eraseAll _).bind fun _ ↦ (plain_readStem trivial _).bind fun states ↦ ?_
    exact (plain_eraseAll _).bind fun _ ↦ (plain_erase trivial).bind fun _ ↦ plain_erase trivial
  · exact plain_erase trivial

theorem plain_removeBatch (scope : Scope) (size : Nat) :
    (removeBatch scope size).Plain True fun _ ↦ True := by
  have hrows (keys : List Key) : (removeRows keys).Plain True fun _ ↦ True := by
    induction keys with
    | nil => exact plain_pure _
    | cons key rest ih => exact (plain_removeRow key).bind fun _ ↦ ih
  exact (plain_readStem trivial _).bind fun rows ↦ (hrows _).bind fun _ ↦ plain_pure _

end Runs

namespace Summaries

open Script

/-- The key is of a summary. -/
def IsSummaryKey (key : Key) : Prop := key.family = .workflowRun

theorem plain_timings? {mayChange : Key → Prop} (workflow : ProgramId)
    (nodes : List (String × NodeRun)) : (timings? workflow nodes).Plain False mayChange := by
  induction nodes with
  | nil => exact plain_pure _
  | cons node rest ih =>
    unfold timings?
    refine (Runs.plain_find? _ _).bind fun record? ↦ ?_
    split
    · split
      · refine ih.bind fun timings ↦ ?_
        split
        · exact plain_pure _
        · exact plain_pure _
      · exact plain_pure _
    · exact plain_pure _

theorem plain_summarize? {mayChange : Key → Prop} (run : RunRecord) :
    (summarize? run).Plain False mayChange := by
  unfold summarize?
  split
  · refine (plain_timings? _ _).bind fun nodes? ↦ ?_
    split
    · exact plain_pure _
    · exact plain_pure _
  · exact plain_pure _

/-- A summary is written for the workflow it is of. -/
theorem plain_record (workflow : ProgramId) (id : RunId) :
    (record workflow id).Plain False fun key ↦ ∃ other, key = Key.workflowRun workflow other := by
  unfold record
  refine (Runs.plain_find? _ _).bind fun run? ↦ ?_
  split
  · refine (plain_summarize? _).bind fun summary? ↦ ?_
    split
    · exact (plain_write ⟨_, rfl⟩ _).bind fun _ ↦ plain_pure _
    · exact plain_pure _
  · exact plain_pure _

theorem plain_removeBatch (scope : Scope) (size : Nat) :
    (removeBatch scope size).Plain True fun _ ↦ True :=
  (plain_readStem trivial _).bind fun _ ↦ (Runs.plain_eraseAll _).bind fun _ ↦ plain_pure _

/-- The keys of the first summaries of a scope, up to a number. -/
def batch (contents : Contents) (scope : Scope) (size : Nat) : List Key :=
  ((contents.filter fun key _ ↦ key.startsWith (Key.workflowRunsInScope scope)).toList.take size).map
    Prod.fst

theorem erases_removeBatch (scope : Scope) (size : Nat) (contents : Contents) :
    Runs.Erases (removeBatch scope size) contents (batch contents scope size).length
      fun key ↦ key ∈ batch contents scope size := by
  have hscript : removeBatch scope size =
      readStem (Key.workflowRunsInScope scope) >>= fun rows ↦
        Runs.eraseAll ((rows.take size).map Prod.fst) >>= fun _ ↦
          pure ((rows.take size).map Prod.fst).length := rfl
  rw [hscript]
  refine ((Runs.erases_readStem (Key.workflowRunsInScope scope) contents).bind ?_).congr
    fun key ↦ by rw [false_or]
  refine ((Runs.erases_eraseAll (batch contents scope size) contents).bind ?_).congr
    fun key ↦ by rw [or_false]
  exact Runs.erases_pure _ _

/-- A removal of summaries erases keys that begin as its scope says, summaries alone. -/
theorem startsWith_of_mem_batch {contents : Contents} {scope : Scope} {size : Nat} {key : Key}
    (hkey : key ∈ batch contents scope size) :
    key.startsWith (Key.workflowRunsInScope scope) = true ∧ IsSummaryKey key := by
  obtain ⟨⟨other, value⟩, hrow, rfl⟩ := List.mem_map.mp hkey
  have hmem := List.mem_of_mem_take hrow
  rw [SortedMap.mem_toList_iff, SortedMap.get?_filter] at hmem
  have hstem := (Option.filter_eq_some_iff.mp hmem).2
  exact ⟨hstem, (Key.startsWith_iff.mp hstem).1⟩

end Summaries

namespace Operation

open Script

/-- A removal may change any key; of the family of summaries, only a summary of a workflow changes
keys, those of its workflow. -/
def MayChange (operation : Operation) (key : Key) : Prop :=
  operation.IsRemoval ∨
    (Summaries.IsSummaryKey key →
      ∃ workflow id other, operation = .summarize workflow id ∧ key = Key.workflowRun workflow other)

theorem mayChange_of_family (operation : Operation) {key : Key}
    (hfamily : key.family ≠ .workflowRun) : operation.MayChange key :=
  Or.inr fun hsummary ↦ absurd hsummary hfamily

/-- Operations pass failures on, and only removals scan. -/
theorem plain_program (operation : Operation) :
    operation.program.Plain operation.IsRemoval operation.MayChange := by
  have hlifecycle {α : Type} {script : Script α} {mayScan : Prop}
      (hplain : script.Plain mayScan Runs.IsLifecycleKey) :
      script.Plain mayScan operation.MayChange :=
    hplain.mono (fun hscan ↦ hscan) fun key hkey ↦ operation.mayChange_of_family (by
      rcases hkey with hfamily | hfamily
      all_goals
        rw [hfamily]
        decide)
  cases hamended : operation.amended? with
  | some run =>
    obtain ⟨_, script, reply, hprogram, hamendment⟩ := exists_amendment hamended
    rw [hprogram]
    exact (hlifecycle hamendment.plain).map reply
  | none =>
  cases operation with
  | start request => exact (hlifecycle (Runs.plain_start request)).map _
  | suspend | resume | stop | compareAndSet => cases hamended
  | putToken workflow id token =>
    exact ((Runs.plain_require workflow id).bind fun _ ↦
      plain_write (mayChange_of_family _ (show Family.workflowToken ≠ .workflowRun by decide)) _).map _
  | putNodeState workflow id state =>
    exact ((Runs.plain_require workflow id).bind fun _ ↦
      plain_write (mayChange_of_family _ (show Family.nodeState ≠ .workflowRun by decide)) _).map _
  | summarize workflow id =>
    exact ((Summaries.plain_record workflow id).mono (fun hscan ↦ hscan) fun _ ⟨other, hkey⟩ ↦
      Or.inr fun _ ↦ ⟨workflow, id, other, rfl, hkey⟩).map _
  | removeRuns scope size =>
    exact ((Runs.plain_removeBatch scope size).mono (fun hscan ↦ hscan) fun _ _ ↦
      Or.inl trivial).map _
  | removeSummaries scope size =>
    exact ((Summaries.plain_removeBatch scope size).mono (fun hscan ↦ hscan) fun _ _ ↦
      Or.inl trivial).map _

end Operation

/-! ### Alterations -/

namespace Runs

variable {contents after : Contents} {α : Type}

theorem alters_amend (hconsistent : contents.Consistent) {program : ProgramId} {id : RunId}
    {absent : Except Failure α} {decision : RunRecord → Except Failure (Option RunRecord × α)}
    (hdecides : Decides decision) {outcome : Except Failure α}
    (heval : (amend program id absent decision).eval contents = (outcome, after)) :
    ReflTransGen Alteration contents after := by
  rw [eval_amend hconsistent program id absent hdecides] at heval
  cases hrun : contents.run? program id with
  | none =>
    rw [hrun] at heval
    exact (Prod.mk.inj heval).2 ▸ .refl
  | some current =>
    rw [hrun] at heval
    dsimp only at heval
    obtain ⟨-, rfl, rfl⟩ := hconsistent.of_run? hrun
    split at heval
    · exact (Prod.mk.inj heval).2 ▸ .refl
    · exact (Prod.mk.inj heval).2 ▸ .refl
    · rename_i updated reply hdecision
      obtain ⟨hprogram, hid, hbecomes⟩ := hdecides current updated reply hdecision
      rw [← (Prod.mk.inj heval).2]
      exact .single (.recorded updated (by rwa [hprogram, hid, hrun]))

theorem type_of_parentWorkflow? {record : RunRecord} {workflow : ProgramId} {run node : String}
    (hparent : record.parentWorkflow? = some (workflow, run, node)) : workflow.type = .workflow := by
  unfold RunRecord.parentWorkflow? at hparent
  simp only [Option.bind_eq_bind, Option.bind_eq_some_iff, Option.pure_def, Option.some.injEq,
    Prod.mk.injEq] at hparent
  obtain ⟨name, -, runText, -, nodeText, -, rfl, -⟩ := hparent
  rfl

theorem alters_listing (hconsistent : contents.Consistent) {workflow : ProgramId}
    (htype : workflow.type = .workflow) (workflowRun node : String) (record : RunRecord) :
    ReflTransGen Alteration contents (listing contents workflow workflowRun node record) := by
  unfold listing
  split
  · exact .refl
  · rename_i parent hparent
    obtain ⟨id, -, hrun⟩ := Option.bind_eq_some_iff.mp hparent
    obtain ⟨-, rfl, rfl⟩ := hconsistent.of_run? hrun
    dsimp only
    split
    · exact .refl
    · rename_i hopen
      split
      · exact .refl
      · refine .single (.recorded _ ?_)
        rw [hrun]
        exact .registered node _ htype (by simpa using hopen)

theorem alters_start (hconsistent : contents.Consistent) {request : Start}
    {outcome : Except Failure RunRecord}
    (heval : (start request).eval contents = (outcome, after)) :
    ReflTransGen Alteration contents after := by
  rw [eval_start hconsistent] at heval
  split at heval
  · exact (Prod.mk.inj heval).2 ▸ .refl
  · rename_i htime
    rw [Decidable.not_not] at htime
    split at heval
    · exact (Prod.mk.inj heval).2 ▸ .refl
    · rename_i record hstarted
      obtain ⟨hprogram, hid, hbecomes⟩ := startedOn_same htime hstarted
      have hrecorded : Alteration contents (contents.recording record) :=
        .recorded record (by rwa [hprogram, hid])
      rw [← (Prod.mk.inj heval).2, starting]
      split
      · exact .single hrecorded
      · rename_i hparent
        exact .head hrecorded (alters_listing (hrecorded.consistent hconsistent)
          (type_of_parentWorkflow? hparent) _ _ _)

/-- A write for a run that must exist happens if it does. -/
theorem eval_require_write (hconsistent : contents.Consistent) (program : ProgramId) (id : RunId)
    (key : Key) (value : Value) :
    (require program id >>= fun _ ↦ Script.write key value).eval contents =
      match contents.run? program id with
      | none => (.error (.recordNotFound (.run id program)), contents)
      | some _ => (.ok (), contents.insert key value) := by
  rw [Script.eval_bind, require, Script.eval_bind, eval_find? hconsistent]
  cases contents.run? program id <;> rfl

theorem alters_require_write (hconsistent : contents.Consistent) {program : ProgramId} {id : RunId}
    {key : Key} (hkey : key.IsProgressOf program id) {value : Value} {outcome : Except Failure Unit}
    (heval : (require program id >>= fun _ ↦ Script.write key value).eval contents =
      (outcome, after)) : ReflTransGen Alteration contents after := by
  rw [eval_require_write hconsistent] at heval
  split at heval
  · exact (Prod.mk.inj heval).2 ▸ .refl
  · rename_i record hrun
    rw [← (Prod.mk.inj heval).2]
    exact .single (.noted value (by rw [hrun]; rfl) hkey)

end Runs

theorem Runs.Amendment.alters {α : Type} {program : ProgramId} {id : RunId} {script : Script α}
    (hamendment : Runs.Amendment program id script) {contents : Contents}
    (hconsistent : contents.Consistent) :
    ReflTransGen Alteration contents (script.eval contents).2 := by
  cases hamendment with
  | amends absent hmoves => exact Runs.alters_amend hconsistent hmoves.decides rfl
  | refused failure => exact .refl

/-- What an operation other than a removal does to consistent contents. -/
theorem Operation.alters {operation : Operation} (hremoval : ¬ operation.IsRemoval)
    {contents : Contents} (hconsistent : contents.Consistent) :
    ReflTransGen Alteration contents (operation.program.eval contents).2 := by
  cases hamended : operation.amended? with
  | some run =>
    obtain ⟨_, script, reply, hprogram, hamendment⟩ := exists_amendment hamended
    rw [hprogram, Script.eval_map]
    exact hamendment.alters hconsistent
  | none =>
  cases operation with
  | start request =>
    rw [program, Script.eval_map]
    exact Runs.alters_start hconsistent rfl
  | suspend | resume | stop | compareAndSet => cases hamended
  | putToken workflow id token =>
    rw [program, Script.eval_map]
    exact Runs.alters_require_write hconsistent (Or.inl rfl) rfl
  | putNodeState workflow id state =>
    rw [program, Script.eval_map]
    exact Runs.alters_require_write hconsistent (Or.inr ⟨state.node, rfl⟩) rfl
  | summarize workflow id =>
    rw [program, Script.eval_map]
    exact .single (.aside fun key hkey ↦
      (Summaries.plain_record workflow id).get?_eval contents fun ⟨_, hsummary⟩ ↦
        hkey (congrArg Key.family hsummary))
  | removeRuns scope size | removeSummaries scope size => exact absurd trivial hremoval

/-! ### Commits -/

section

variable {failsRead failsWrite : Nat → Bool}

/-- A committed operation other than a removal is what its script does to the contents right before
its commit. -/
theorem Commit.Sound.eval_eq {history : List (Commit Operation Reply)} {place : Nat}
    {commit : Commit Operation Reply}
    (hsound : commit.Sound Operation.program failsRead history place)
    (hcommit : history[place]? = some commit) (hremoval : ¬ commit.operation.IsRemoval) :
    commit.operation.program.eval (contentsAfter history place) =
      (.ok commit.result, contentsAfter history (place + 1)) := by
  have hplain := commit.operation.plain_program
  have hscans := (hplain.mono hremoval fun _ hkey ↦ hkey).scanFree hsound.course.leads
  have hperform := hsound.perform_eq hcommit hscans (hplain.unrefused hsound.course.leads)
  rw [Script.eval, hperform]

/-- A committed operation makes of the contents before it what its kind does. -/
theorem Commit.Sound.makes {history : List (Commit Operation Reply)} {place : Nat}
    {commit : Commit Operation Reply}
    (hsound : commit.Sound Operation.program failsRead history place)
    (hcommit : history[place]? = some commit)
    (hsnapshot : (contentsAfter history commit.snapshot).Consistent)
    (hbefore : (contentsAfter history place).Consistent) :
    commit.operation.Makes (contentsAfter history commit.snapshot) (contentsAfter history place)
      (contentsAfter history (place + 1)) := by
  by_cases hremoval : commit.operation.IsRemoval
  · have hunrefused := commit.operation.plain_program.unrefused hsound.course.leads
    have hcourse := Script.perform_eq_of_leads hsound.course.leads hsound.course.truthful hunrefused
    obtain ⟨operation, snapshot, calls, result⟩ := commit
    rw [contentsAfter_succ hcommit]
    cases operation with
    | removeRuns scope size =>
      refine .removed (Runs.removed_of_calls hsnapshot ?_ hsound.held)
      simp only [Operation.program, Script.perform_map] at hcourse
      exact congrArg Performance.calls hcourse
    | removeSummaries scope size =>
      refine .altered (.single (.aside fun key hkey ↦ get?_effectOf (fun hchanged ↦ hkey ?_) _))
      simp only [Operation.program, Script.perform_map] at hcourse
      have hcalls := congrArg Performance.calls hcourse
      dsimp only at hcalls hchanged
      rw [← hcalls, (Summaries.erases_removeBatch scope size _).changed] at hchanged
      exact (Summaries.startsWith_of_mem_batch hchanged).2
    | _ => exact hremoval.elim
  · have halters := Operation.alters hremoval hbefore
    rw [hsound.eval_eq hcommit hremoval] at halters
    exact .altered halters

/-- What holds of the empty contents, and behind each commit if it held at all places before, holds
everywhere. -/
theorem contentsAfter_induction {ω α : Type} {history : List (Commit ω α)} {holds : Contents → Prop}
    (hempty : holds ∅)
    (hcommit : ∀ (place : Nat) (commit : Commit ω α), history[place]? = some commit →
      (∀ count, count ≤ place → holds (contentsAfter history count)) →
        holds (contentsAfter history (place + 1))) (count : Nat) :
    holds (contentsAfter history count) := by
  induction count using Nat.strongRecOn with
  | ind count ih =>
    cases count with
    | zero => exact hempty
    | succ place =>
      cases hfound : history[place]? with
      | some commit => exact hcommit place commit hfound fun count hcount ↦ ih count (by omega)
      | none =>
        rw [contentsAfter_succ_of_none hfound]
        exact ih place (Nat.lt_succ_self place)

/-- The commit at a place is of a removal that took a run away. -/
structure Removes (history : List (Commit Operation Reply)) (place : Nat)
    (commit : Commit Operation Reply) (program : ProgramId) (id : RunId) : Prop where
  found : history[place]? = some commit
  removal : ∃ scope size, commit.operation = .removeRuns scope size ∧ scope.contains program = true
  before : (contentsAfter history place).contains (Key.run program id) = true
  after : (contentsAfter history (place + 1)).contains (Key.run program id) = false

section

variable {ω α : Type}

/-- A transaction has come to nothing: another one has changed what it read, so that it is to be
begun again, or the store has failed. -/
def Ending.Interrupted (failsRead failsWrite : Nat → Bool) (ending : Ending ω α) : Prop :=
  (∃ count, ending.outcome = .error (.writeConflict (.onReads count))) ∨
    (∃ cause, ending.outcome = .error (.storeUnavailable cause)) ∧
      ((∃ serial, failsRead serial = true ∨ failsWrite serial = true) ∨
        UInt64.size ≤ ending.commits + 1)

/-- A transaction came to what its script comes to by itself on what some commits had made, its
snapshot or later ones; if it had a result, what the script leaves there is what its own commit
made, or the same if it changed nothing. -/
def Ending.Settled (program : ω → Script α) (history : List (Commit ω α)) (ending : Ending ω α) :
    Prop :=
  ∃ before, ending.snapshot ≤ before ∧ before ≤ ending.commits ∧
    ((program ending.operation).eval (contentsAfter history before)).1 = ending.outcome ∧
    ∀ result, ending.outcome = .ok result → ∃ after, before ≤ after ∧ after ≤ ending.commits ∧
      ((program ending.operation).eval (contentsAfter history before)).2 =
        contentsAfter history after

end

namespace System.Sound

variable {system : System Operation Reply}

/-- All contents that commits have made are consistent. -/
theorem consistent (hsound : system.Sound Operation.program failsRead failsWrite) (count : Nat) :
    (contentsAfter system.history count).Consistent :=
  contentsAfter_induction .empty (fun place commit hcommit hearlier ↦
    have hcommitted := hsound.commits place commit hcommit
    (hcommitted.makes hcommit (hearlier _ hcommitted.bounded)
      (hearlier _ (Nat.le_refl place))).consistent (hearlier _ (Nat.le_refl place))) count

theorem makes (hsound : system.Sound Operation.program failsRead failsWrite) {place : Nat}
    {commit : Commit Operation Reply} (hcommit : system.history[place]? = some commit) :
    commit.operation.Makes (contentsAfter system.history commit.snapshot)
      (contentsAfter system.history place) (contentsAfter system.history (place + 1)) :=
  (hsound.commits place commit hcommit).makes hcommit (hsound.consistent _) (hsound.consistent _)

/-- A transaction without scans is settled unless it was interrupted. -/
theorem settled {ω α : Type} {program : ω → Script α} {system : System ω α}
    (hsound : system.Sound program failsRead failsWrite) {ending : Ending ω α}
    (hending : ending ∈ system.endings) {mayChange : Key → Prop}
    (hplain : (program ending.operation).Plain False mayChange) :
    ending.Interrupted failsRead failsWrite ∨ ending.Settled program system.history := by
  obtain ⟨⟨hsnapshot, -⟩, calls, outcome, hcourse, hfollows⟩ := hsound.endings ending hending
  rcases (hplain.calls hcourse.leads).2 with hunrefused | ⟨failure, hrefused, rfl⟩
  · have hperform := Script.perform_eq_of_leads hcourse.leads hcourse.truthful hunrefused
    cases hfollows with
    | failed houtcome =>
      refine Or.inr ⟨ending.snapshot, Nat.le_refl _, hsnapshot, ?_, fun reply hreply ↦ ?_⟩
      · rw [Script.eval, hperform, houtcome]
      · rw [houtcome] at hreply
        cases hreply
    | readOnly houtcome hcalls =>
      refine Or.inr ⟨ending.snapshot, Nat.le_refl _, hsnapshot, ?_, fun _ _ ↦
        ⟨ending.snapshot, Nat.le_refl _, hsnapshot, ?_⟩⟩
      · rw [Script.eval, hperform, houtcome]
      · rw [Script.eval, hperform]
        exact hcalls _
    | @committed result place houtcome hplace hcommit =>
      have hcommitted := hsound.commits place _ hcommit
      have hbefore := hcommitted.perform_eq hcommit (hplain.scanFree hcourse.leads) hunrefused
      refine Or.inr ⟨place, hcommitted.bounded, by omega, ?_, fun _ _ ↦
        ⟨place + 1, Nat.le_succ _, Nat.le_of_eq hplace, ?_⟩⟩
      · rw [houtcome]
        exact congrArg Performance.outcome hbefore
      · exact congrArg Performance.contents hbefore
    | conflicts houtcome => exact Or.inl (Or.inl ⟨_, houtcome⟩)
    | outage houtcome hfails => exact Or.inl (Or.inr ⟨⟨_, houtcome⟩, hfails⟩)
  · cases hfollows with
    | failed houtcome =>
      obtain ⟨⟨cause, rfl⟩, serial, hfails⟩ := hcourse.refused failure hrefused
      exact Or.inl (Or.inr ⟨⟨cause, houtcome⟩, Or.inl ⟨serial, Or.inl hfails⟩⟩)

/-- As long as no commit takes a run away, the run stays, and its record too once it has stopped. -/
theorem keeps (hsound : system.Sound Operation.program failsRead failsWrite) {program : ProgramId}
    {id : RunId} {first last : Nat} (hle : first ≤ last)
    (hstays : ∀ place commit, first ≤ place → ¬ Removes system.history place commit program id) :
    Contents.Keeps program id (contentsAfter system.history first)
      (contentsAfter system.history last) := by
  induction hle with
  | refl => exact .refl _
  | @step place hplace ih =>
    refine ih.trans ?_
    cases hcommit : system.history[place]? with
    | none =>
      rw [Nat.succ_eq_add_one, contentsAfter_succ_of_none hcommit]
      exact .refl _
    | some commit =>
      have hbefore := hsound.consistent place
      have hafter := hsound.consistent (place + 1)
      rcases (hsound.makes hcommit).keeps_or hbefore with hkeeps | ⟨scope, size, hremoval⟩
      · exact hkeeps
      · obtain ⟨hoperation, hscope, hrun⟩ := hremoval
        by_cases hthere : (contentsAfter system.history place).contains (Key.run program id) = true
        · refine absurd ⟨hcommit, ⟨scope, size, hoperation, hscope⟩, hthere, ?_⟩
            (hstays place commit hplace)
          rw [hafter.contains_run, hrun]
          rfl
        · rw [hbefore.contains_run, Option.not_isSome_iff_eq_none] at hthere
          exact Contents.keeps_of_run?_eq (hrun.trans hthere.symm)

end System.Sound

end

end RunLedger
