import RunLedger.Proofs.Ledger.Records

/-!
# What lifecycle operations come to

Suspending, resuming, stopping and compare-and-set are one operation with different decisions
(`Runs.amend`, `Runs.Amendment`): the record of the run is looked up, and a decision on it is
carried out. On consistent contents its outcome is that decision, and the contents behind it differ
in the one record (`eval_amend`). A start writes its own record and may list it on that of its workflow run
(`eval_start`).

None of these operations scans, and none changes other keys than those of runs and of the status
index (`plain_amend`, `plain_start`).
-/

set_option autoImplicit false

namespace RunLedger.Runs

open Script

variable {α : Type} {contents : Contents}

/-! ### Decisions on one record -/

/-- The record of a run is looked up and a decision on it carried out: a failure, or a reply and
perhaps another record. -/
def amend (program : ProgramId) (id : RunId) (absent : Except Failure α)
    (decision : RunRecord → Except Failure (Option RunRecord × α)) : Script α := do
  match ← find? program id with
  | none => Script.ofExcept absent
  | some current =>
    match ← Script.ofExcept (decision current) with
    | (none, reply) => return reply
    | (some updated, reply) =>
      write updated (some current.status)
      return reply

/-- A decision that changes neither the program nor the id of a record, and changes it as records
may change. -/
def Decides (decision : RunRecord → Except Failure (Option RunRecord × α)) : Prop :=
  ∀ current updated reply, decision current = .ok (some updated, reply) →
    updated.program = current.program ∧ updated.id = current.id ∧
      RunRecord.Becomes (some current) updated

theorem eval_amend (hconsistent : contents.Consistent) (program : ProgramId) (id : RunId)
    (absent : Except Failure α) {decision : RunRecord → Except Failure (Option RunRecord × α)}
    (hdecides : Decides decision) :
    (amend program id absent decision).eval contents =
      match contents.run? program id with
      | none => (absent, contents)
      | some current =>
        match decision current with
        | .error failure => (.error failure, contents)
        | .ok (none, reply) => (.ok reply, contents)
        | .ok (some updated, reply) => (.ok reply, contents.recording updated) := by
  unfold amend
  rw [eval_bind, eval_find? hconsistent]
  cases hrun : contents.run? program id with
  | none => rfl
  | some current =>
    obtain ⟨-, hprogram, hid⟩ := hconsistent.of_run? hrun
    dsimp only
    rw [Script.ofExcept, finish_bind]
    cases hdecision : decision current with
    | error failure => rfl
    | ok decided =>
      obtain ⟨updated?, reply⟩ := decided
      cases updated? with
      | none => rfl
      | some updated =>
        obtain ⟨hsame, hsameId, -⟩ := hdecides current updated reply hdecision
        have hstatus : some current.status =
            (contents.run? updated.program updated.id).map (·.status) := by
          rw [hsame, hsameId, hprogram, hid, hrun, Option.map_some]
        dsimp only
        rw [eval_bind, hstatus, eval_write]
        rfl

theorem plain_amend {mayScan : Prop} (program : ProgramId) (id : RunId)
    (absent : Except Failure α) (decision : RunRecord → Except Failure (Option RunRecord × α)) :
    (amend program id absent decision).Plain mayScan IsLifecycleKey :=
  (plain_find? program id).bind fun found? ↦
    match found? with
    | none => plain_ofExcept _
    | some _ => (plain_ofExcept _).bind fun decided ↦
      match decided with
      | (none, _) => plain_pure _
      | (some _, _) => (plain_write _ _).bind fun _ ↦ plain_pure _

/-! ### The decisions -/

/-- A change that always gives another record decides on it. -/
def always (change : RunRecord → Except Failure RunRecord) (current : RunRecord) :
    Except Failure (Option RunRecord × RunRecord) :=
  (change current).map fun updated ↦ (some updated, updated)

/-- A stop gives another record or leaves the one there is. -/
def halting (time : UInt64) (status : RunStatus) (cause? : Option FailureCause)
    (current : RunRecord) : Except Failure (Option RunRecord × RunRecord) :=
  (current.stopped time status cause?).map fun updated? ↦ (updated?, updated?.getD current)

/-- Compare-and-set changes a record of the expected status alone. -/
def comparing (id : RunId) (expected target : RunStatus) (time : UInt64) (current : RunRecord) :
    Except Failure (Option RunRecord × Option RunRecord) :=
  if current.status ≠ expected then .ok (none, none)
  else if !current.status.canBecome target then
    .error (.invalidTransition id.text current.status target)
  else
    (changed current target time).map fun updated? ↦ (updated?, some (updated?.getD current))

theorem eq_of_map_ok {β : Type} {outcome : Except Failure α} {next : α → β} {result : β}
    (hmap : outcome.map next = .ok result) : ∃ value, outcome = .ok value ∧ next value = result := by
  cases outcome with
  | error failure => cases hmap
  | ok value => exact ⟨value, rfl, Except.ok.inj hmap⟩

/-- How a decision may change a record: as a suspension, a resumption or a stop does. -/
inductive Moves (current : RunRecord) : RunRecord → Prop
  | suspended {updated} (time : UInt64) (hsuspended : current.suspended time = .ok updated) :
    Moves current updated
  | resumed {updated} (time : UInt64) (hresumed : current.resumed time = .ok updated) :
    Moves current updated
  | stopped {updated} (time : UInt64) (status : RunStatus) (cause? : Option FailureCause)
    (hstopped : current.stopped time status cause? = .ok (some updated)) : Moves current updated

/-- A record that moves stays that of its run, and keeps the nodes registered on it. -/
theorem Moves.same {current updated : RunRecord} (hmoves : Moves current updated) :
    updated.program = current.program ∧ updated.id = current.id ∧
      updated.workflowNodes = current.workflowNodes := by
  cases hmoves with
  | suspended time hsuspended =>
    unfold RunRecord.suspended at hsuspended
    split at hsuspended
    · rw [← Except.ok.inj hsuspended]
      exact ⟨rfl, rfl, rfl⟩
    · cases hsuspended
  | resumed time hresumed =>
    unfold RunRecord.resumed at hresumed
    split at hresumed
    · rw [← Except.ok.inj hresumed]
      exact ⟨rfl, rfl, rfl⟩
    · cases hresumed
  | stopped time status cause? hstopped =>
    unfold RunRecord.stopped at hstopped
    split at hstopped
    · cases hstopped
    · split at hstopped
      · split at hstopped <;> cases hstopped
      · obtain rfl := Option.some.inj (Except.ok.inj hstopped)
        exact ⟨rfl, rfl, rfl⟩

theorem Moves.becomes {current updated : RunRecord} (hmoves : Moves current updated) :
    RunRecord.Becomes (some current) updated := by
  cases hmoves with
  | suspended time hsuspended => exact .suspended time hsuspended
  | resumed time hresumed => exact .resumed time hresumed
  | stopped time status cause? hstopped => exact .stopped time status cause? hstopped

/-- A decision that changes records by moving them. -/
def OnlyMoves (decision : RunRecord → Except Failure (Option RunRecord × α)) : Prop :=
  ∀ current updated reply, decision current = .ok (some updated, reply) → Moves current updated

theorem OnlyMoves.decides {decision : RunRecord → Except Failure (Option RunRecord × α)}
    (hmoves : OnlyMoves decision) : Decides decision := by
  intro current updated reply hdecision
  have hmoved := hmoves current updated reply hdecision
  exact ⟨hmoved.same.1, hmoved.same.2.1, hmoved.becomes⟩

theorem onlyMoves_always {change : RunRecord → Except Failure RunRecord}
    (hchange : ∀ {current updated}, change current = .ok updated → Moves current updated) :
    OnlyMoves (always change) := by
  intro current updated reply hdecision
  obtain ⟨record, hchanged, hpair⟩ := eq_of_map_ok hdecision
  obtain ⟨rfl, -⟩ : record = updated ∧ record = reply := by simpa using hpair
  exact hchange hchanged

theorem onlyMoves_halting (time : UInt64) (status : RunStatus) (cause? : Option FailureCause) :
    OnlyMoves (halting time status cause?) := by
  intro current updated reply hdecision
  obtain ⟨updated?, hstopped, hpair⟩ := eq_of_map_ok hdecision
  obtain ⟨rfl, -⟩ : updated? = some updated ∧ updated?.getD current = reply := by
    simpa using hpair
  exact .stopped time status cause? hstopped

theorem changed_moves {current updated : RunRecord} {target : RunStatus} {time : UInt64}
    (hchanged : changed current target time = .ok (some updated)) : Moves current updated := by
  cases target with
  | running =>
    unfold changed at hchanged
    dsimp only at hchanged
    split at hchanged
    · cases hchanged
    · obtain ⟨record, hresumed, hsame⟩ := eq_of_map_ok hchanged
      exact .resumed time (Option.some.inj hsame ▸ hresumed)
  | suspended =>
    obtain ⟨record, hsuspended, hsame⟩ := eq_of_map_ok hchanged
    exact .suspended time (Option.some.inj hsame ▸ hsuspended)
  | completed | killed => exact .stopped time _ none hchanged
  | failed => exact .stopped time _ (some (.ofMessage abandonedMessage)) hchanged

theorem onlyMoves_comparing (id : RunId) (expected target : RunStatus) (time : UInt64) :
    OnlyMoves (comparing id expected target time) := by
  intro current updated reply hdecision
  unfold comparing at hdecision
  split at hdecision
  · cases hdecision
  · split at hdecision
    · cases hdecision
    · obtain ⟨updated?, hchanged, hpair⟩ := eq_of_map_ok hdecision
      obtain ⟨rfl, -⟩ : updated? = some updated ∧ some (updated?.getD current) = reply := by
        simpa using hpair
      exact changed_moves hchanged

/-! ### The operations -/

/-- What fails when a run does not exist. -/
def missing (program : ProgramId) (id : RunId) : Except Failure RunRecord :=
  .error (.recordNotFound (.run id program))

/-- A change of a record that must exist is a decision on it. -/
theorem require_change_eq (program : ProgramId) (id : RunId)
    (change : RunRecord → Except Failure RunRecord) :
    (do
      let current ← require program id
      let updated ← Script.ofExcept (change current)
      write updated (some current.status)
      return updated) = amend program id (missing program id) (always change) := by
  unfold require amend
  rw [bind_assoc]
  refine congrArg _ (funext fun found? ↦ ?_)
  cases found? with
  | none => rfl
  | some current =>
    simp only [pure_bind, Script.ofExcept, finish_bind, always]
    cases change current <;> rfl

theorem suspend_eq (program : ProgramId) (id : RunId) (time : UInt64) :
    suspend program id time = amend program id (missing program id) (always (·.suspended time)) :=
  require_change_eq program id _

theorem resume_eq (program : ProgramId) (id : RunId) (time : UInt64) :
    resume program id time = amend program id (missing program id) (always (·.resumed time)) :=
  require_change_eq program id _

theorem stop_eq (program : ProgramId) (id : RunId) (time : UInt64) (status : RunStatus)
    (cause? : Option FailureCause) :
    stop program id time status cause? =
      if status.isTerminal then
        amend program id (missing program id) (halting time status cause?)
      else throw (.invalidInput (.stopNotTerminal status)) := by
  unfold stop
  cases status.isTerminal with
  | false => rfl
  | true =>
    unfold require amend
    simp only [Bool.not_true, Bool.false_eq_true, if_false, if_true, bind_assoc]
    refine congrArg _ (funext fun found? ↦ ?_)
    cases found? with
    | none => rfl
    | some current =>
      simp only [pure_bind, Script.ofExcept, finish_bind, halting]
      cases current.stopped time status cause? with
      | error failure => rfl
      | ok updated? => cases updated? <;> rfl

theorem compareAndSet_eq (program : ProgramId) (id : RunId) (expected target : RunStatus)
    (time : UInt64) :
    compareAndSet program id expected target time =
      amend program id (.ok none) (comparing id expected target time) := by
  unfold compareAndSet amend
  refine congrArg _ (funext fun found? ↦ ?_)
  cases found? with
  | none => rfl
  | some current =>
    dsimp only
    unfold comparing
    split
    · rfl
    · split
      · rfl
      · simp only [Script.ofExcept, finish_bind]
        cases changed current target time with
        | error failure => rfl
        | ok updated? => cases updated? <;> rfl

/-- A script that decides on the record of one run, or is refused before it looks at anything. -/
inductive Amendment (program : ProgramId) (id : RunId) : Script α → Prop
  | amends (absent : Except Failure α)
    {decision : RunRecord → Except Failure (Option RunRecord × α)} (hmoves : OnlyMoves decision) :
    Amendment program id (amend program id absent decision)
  | refused (failure : Failure) : Amendment program id (throw failure)

section

variable (program : ProgramId) (id : RunId) (time : UInt64)

theorem amendment_suspend : Amendment program id (suspend program id time) := by
  rw [suspend_eq]
  exact .amends _ (onlyMoves_always (.suspended time))

theorem amendment_resume : Amendment program id (resume program id time) := by
  rw [resume_eq]
  exact .amends _ (onlyMoves_always (.resumed time))

theorem amendment_stop (status : RunStatus) (cause? : Option FailureCause) :
    Amendment program id (stop program id time status cause?) := by
  rw [stop_eq]
  split
  · exact .amends _ (onlyMoves_halting time status cause?)
  · exact .refused _

theorem amendment_compareAndSet (expected target : RunStatus) :
    Amendment program id (compareAndSet program id expected target time) := by
  rw [compareAndSet_eq]
  exact .amends _ (onlyMoves_comparing id expected target time)

end

theorem Amendment.plain {mayScan : Prop} {program : ProgramId} {id : RunId} {script : Script α}
    (hamendment : Amendment program id script) : script.Plain mayScan IsLifecycleKey := by
  cases hamendment with
  | amends absent hmoves => exact plain_amend program id absent _
  | refused failure => exact plain_throw failure

/-! ### Starts -/

/-- The record that a start writes, in place of the one there is, if any. -/
def startedOn (request : Start) (current? : Option RunRecord) : Except Failure RunRecord :=
  match current? with
  | none => .ok request.record
  | some current => current.restarted request.record

/-- A record is written and listed where its system arguments say. -/
def settle (previous? : Option RunStatus) (record : RunRecord) : Script RunRecord := do
  write record previous?
  if let some (workflow, workflowRun, node) := record.parentWorkflow? then
    registerNode workflow workflowRun node record
  return record

theorem start_eq (request : Start) :
    start request =
      if request.startTime ≠ request.id.seconds then
        throw (.invalidInput (.startTimeMismatch request.startTime request.id))
      else
        find? request.program request.id >>= fun current? ↦
          Script.ofExcept (startedOn request current?) >>= settle (current?.map (·.status)) := by
  unfold start
  split
  · rfl
  · refine congrArg (find? request.program request.id >>= ·) (funext fun current? ↦ ?_)
    cases current? with
    | none => rfl
    | some current =>
      simp only [startedOn, Script.ofExcept, finish_bind]
      cases current.restarted request.record <;> rfl

/-- Contents with a node run listed on its workflow run, if that is known, has not stopped and does
not list it already. -/
def listing (contents : Contents) (workflow : ProgramId) (workflowRun node : String)
    (record : RunRecord) : Contents :=
  match (RunId.parse? workflowRun).bind (contents.run? workflow) with
  | none => contents
  | some parent =>
    let run : NodeRun := ⟨record.program.type, record.program.name, record.id⟩
    if parent.status.isTerminal then contents
    else if parent.workflowNodes.get? node = some run then contents
    else
      contents.recording { parent with workflowNodes := parent.workflowNodes.insert node run }

/-- Contents with the record of a run that starts, listed where its system arguments say. -/
def starting (contents : Contents) (record : RunRecord) : Contents :=
  match record.parentWorkflow? with
  | none => contents.recording record
  | some (workflow, workflowRun, node) =>
    listing (contents.recording record) workflow workflowRun node record

theorem eval_registerNode (hconsistent : contents.Consistent) (workflow : ProgramId)
    (workflowRun node : String) (record : RunRecord) :
    (registerNode workflow workflowRun node record).eval contents =
      (.ok (), listing contents workflow workflowRun node record) := by
  unfold registerNode listing
  cases RunId.parse? workflowRun with
  | none => rfl
  | some id =>
    dsimp only [Option.bind_some]
    rw [eval_bind, eval_find? hconsistent]
    cases hrun : contents.run? workflow id with
    | none => rfl
    | some parent =>
      obtain ⟨-, rfl, rfl⟩ := hconsistent.of_run? hrun
      have hwrite := fun nodes ↦ eval_write { parent with workflowNodes := nodes } contents
      simp only [hrun, Option.map_some] at hwrite
      dsimp only
      split
      · rfl
      · split
        · rfl
        · exact hwrite _

theorem restarted_same {current fresh record : RunRecord}
    (hrestarted : current.restarted fresh = .ok record) :
    record.program = fresh.program ∧ record.id = fresh.id := by
  unfold RunRecord.restarted at hrestarted
  split at hrestarted
  · rw [← Except.ok.inj hrestarted]
    exact ⟨rfl, rfl⟩
  · cases hrestarted

theorem startedOn_same {request : Start} (htime : request.startTime = request.id.seconds)
    {current? : Option RunRecord} {record : RunRecord}
    (hstarted : startedOn request current? = .ok record) :
    record.program = request.program ∧ record.id = request.id ∧
      RunRecord.Becomes current? record := by
  cases current? with
  | none =>
    obtain rfl := Except.ok.inj hstarted
    exact ⟨rfl, rfl, .started request htime⟩
  | some current =>
    obtain ⟨hprogram, hid⟩ := restarted_same hstarted
    exact ⟨hprogram, hid, .restarted request htime hstarted⟩

theorem eval_settle (hconsistent : contents.Consistent) {previous? : Option RunStatus}
    {record : RunRecord}
    (hprevious : (contents.run? record.program record.id).map (·.status) = previous?) :
    (settle previous? record).eval contents = (.ok record, starting contents record) := by
  have hafter := (hconsistent.recorded_recording record).consistent hconsistent
  unfold settle starting
  rw [eval_bind, ← hprevious, eval_write]
  cases record.parentWorkflow? with
  | none => rfl
  | some parent =>
    obtain ⟨workflow, workflowRun, node⟩ := parent
    dsimp only
    rw [eval_bind, eval_registerNode hafter]
    rfl

theorem eval_start (hconsistent : contents.Consistent) (request : Start) :
    (start request).eval contents =
      if request.startTime ≠ request.id.seconds then
        (.error (.invalidInput (.startTimeMismatch request.startTime request.id)), contents)
      else
        match startedOn request (contents.run? request.program request.id) with
        | .error failure => (.error failure, contents)
        | .ok record => (.ok record, starting contents record) := by
  rw [start_eq]
  split
  · rfl
  · rename_i htime
    rw [Decidable.not_not] at htime
    rw [eval_bind, eval_find? hconsistent]
    dsimp only
    rw [Script.ofExcept, finish_bind]
    cases hstarted : startedOn request (contents.run? request.program request.id) with
    | error failure => rfl
    | ok record =>
      obtain ⟨hprogram, hid, -⟩ := startedOn_same htime hstarted
      exact eval_settle hconsistent (by rw [hprogram, hid])

theorem plain_registerNode {mayScan : Prop} (workflow : ProgramId) (workflowRun node : String)
    (record : RunRecord) :
    (registerNode workflow workflowRun node record).Plain mayScan IsLifecycleKey := by
  unfold registerNode
  split
  · refine (plain_find? _ _).bind fun parent? ↦ ?_
    split
    · split
      · exact plain_pure _
      · dsimp only
        split
        · exact plain_pure _
        · exact plain_write _ _
    · exact plain_pure _
  · exact plain_pure _

theorem plain_start {mayScan : Prop} (request : Start) :
    (start request).Plain mayScan IsLifecycleKey := by
  rw [start_eq]
  split
  · exact plain_throw _
  · refine (plain_find? _ _).bind fun current? ↦ (plain_ofExcept _).bind fun record ↦ ?_
    refine (plain_write record _).bind fun _ ↦ ?_
    split
    · exact (plain_registerNode _ _ _ _).bind fun _ ↦ plain_pure _
    · exact plain_pure _

end RunLedger.Runs
