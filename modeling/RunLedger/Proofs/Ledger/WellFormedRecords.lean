import RunLedger.Proofs.Ledger.Commits

/-!
# Stored records are well formed

Six ways lead to a stored record: a start, a restart, a suspension, a resumption, a stop, and the
registration of a node. Each rebuilds the record by replacing some fields, and none looks at the
fields that it keeps. Still every record that is ever stored is well formed
(`RunRecord.WellFormed`): `RunRecord.Becomes.wellFormed` goes through the six ways, and
`System.Sound.wellFormed_records` through all commits.

What lies under a key of the run family in the live contents is therefore the well-formed record of
the run that the key names (`records_wellFormed`).
-/

set_option autoImplicit false

namespace RunLedger

open Relation (ReflTransGen)

/-! ### Records -/

namespace RunRecord

/-- What the times, the cause of a failure and the nodes of a stored record have to do with its run
and its status. -/
structure WellFormed (record : RunRecord) : Prop where
  startTime : record.startTime = record.id.seconds
  stopTime : record.stopTime?.isSome = true ↔ record.status.isTerminal = true
  failureCause : record.failureCause?.isSome = true → record.status.isTerminal = true
  suspendTime : record.status = .suspended → record.suspendTime?.isSome = true
  resumeTime : record.resumeTime?.isSome = true → record.suspendTime?.isSome = true
  workflowNodes : record.workflowNodes ≠ ∅ → record.program.type = .workflow

variable {current record : RunRecord}

theorem WellFormed.isConsistent (hrecord : record.WellFormed) : record.isConsistent = true :=
  decide_eq_true (Bool.eq_iff_iff.mpr hrecord.stopTime.symm)

/-- A record whose run has not stopped has no stop time and no cause of a failure. -/
theorem WellFormed.of_open (hrecord : record.WellFormed)
    (hopen : record.status.isTerminal = false) :
    record.stopTime? = none ∧ record.failureCause? = none := by
  constructor
  · rw [← Option.not_isSome_iff_eq_none, hrecord.stopTime, hopen]
    exact Bool.false_ne_true
  · rw [← Option.not_isSome_iff_eq_none]
    intro hcause
    rw [hrecord.failureCause hcause] at hopen
    cases hopen

theorem wellFormed_started {request : Start} (htime : request.startTime = request.id.seconds) :
    request.record.WellFormed where
  startTime := htime
  stopTime := by simp [Start.record, started, RunStatus.isTerminal]
  failureCause hcause := by cases hcause
  suspendTime hstatus := by cases hstatus
  resumeTime hresumed := by cases hresumed
  workflowNodes hnodes := absurd rfl hnodes

theorem WellFormed.restarted (hcurrent : current.WellFormed) {request : Start}
    (htime : request.startTime = request.id.seconds)
    (hprogram : current.program = request.program)
    (hrestarted : current.restarted request.record = .ok record) : record.WellFormed := by
  unfold RunRecord.restarted at hrestarted
  split at hrestarted
  · have hfresh := wellFormed_started htime
    obtain rfl := Except.ok.inj hrestarted
    -- the nodes are the only field that the old record gives
    exact ⟨hfresh.startTime, hfresh.stopTime, hfresh.failureCause, hfresh.suspendTime,
      hfresh.resumeTime, fun hnodes ↦
        (congrArg ProgramId.type hprogram).symm.trans (hcurrent.workflowNodes hnodes)⟩
  · cases hrestarted

theorem WellFormed.suspended (hcurrent : current.WellFormed) {time : UInt64}
    (hsuspended : current.suspended time = .ok record) : record.WellFormed := by
  unfold RunRecord.suspended at hsuspended
  split at hsuspended
  · rename_i hrunning
    obtain ⟨hstop, hcause⟩ := hcurrent.of_open (by rw [hrunning]; rfl)
    obtain rfl := Except.ok.inj hsuspended
    exact {
      startTime := hcurrent.startTime
      stopTime := by simp [hstop, RunStatus.isTerminal]
      failureCause := fun hfailed ↦ by simp [hcause] at hfailed
      suspendTime := fun _ ↦ rfl
      resumeTime := fun _ ↦ rfl
      workflowNodes := hcurrent.workflowNodes }
  · cases hsuspended

theorem WellFormed.resumed (hcurrent : current.WellFormed) {time : UInt64}
    (hresumed : current.resumed time = .ok record) : record.WellFormed := by
  unfold RunRecord.resumed at hresumed
  split at hresumed
  · rename_i hsuspended
    obtain ⟨hstop, hcause⟩ := hcurrent.of_open (by rw [hsuspended]; rfl)
    obtain rfl := Except.ok.inj hresumed
    exact {
      startTime := hcurrent.startTime
      stopTime := by simp [hstop, RunStatus.isTerminal]
      failureCause := fun hfailed ↦ by simp [hcause] at hfailed
      suspendTime := fun hstatus ↦ by cases hstatus
      -- a suspended run has a time of suspension, which stays
      resumeTime := fun _ ↦ hcurrent.suspendTime hsuspended
      workflowNodes := hcurrent.workflowNodes }
  · cases hresumed

theorem WellFormed.stopped (hcurrent : current.WellFormed) {time : UInt64} {status : RunStatus}
    {cause? : Option FailureCause}
    (hstopped : current.stopped time status cause? = .ok (some record)) : record.WellFormed := by
  unfold RunRecord.stopped at hstopped
  split at hstopped
  · cases hstopped
  · rename_i hterminal
    replace hterminal : status.isTerminal = true := by simpa using hterminal
    split at hstopped
    · split at hstopped <;> cases hstopped
    · obtain rfl := Option.some.inj (Except.ok.inj hstopped)
      exact {
        startTime := hcurrent.startTime
        stopTime := ⟨fun _ ↦ hterminal, fun _ ↦ rfl⟩
        failureCause := fun _ ↦ hterminal
        suspendTime := fun hstatus ↦ by
          rw [show status = .suspended from hstatus] at hterminal
          cases hterminal
        resumeTime := hcurrent.resumeTime
        workflowNodes := hcurrent.workflowNodes }

theorem WellFormed.registered (hcurrent : current.WellFormed) (node : String) (run : NodeRun)
    (htype : current.program.type = .workflow) :
    WellFormed { current with workflowNodes := current.workflowNodes.insert node run } :=
  { hcurrent with workflowNodes := fun _ ↦ htype }

/-- However a record comes to be, it is well formed if the one that it replaces is. -/
theorem Becomes.wellFormed {current? : Option RunRecord} (hbecomes : Becomes current? record)
    (hcurrent : ∀ current, current? = some current →
      current.program = record.program ∧ current.WellFormed) : record.WellFormed := by
  cases hbecomes with
  | started request htime => exact wellFormed_started htime
  | restarted request htime hrestarted =>
    obtain ⟨hprogram, hbefore⟩ := hcurrent _ rfl
    exact hbefore.restarted htime (hprogram.trans (Runs.restarted_same hrestarted).1) hrestarted
  | suspended time hsuspended => exact (hcurrent _ rfl).2.suspended hsuspended
  | resumed time hresumed => exact (hcurrent _ rfl).2.resumed hresumed
  | stopped time status cause? hstopped => exact (hcurrent _ rfl).2.stopped hstopped
  | registered node run htype hopen => exact (hcurrent _ rfl).2.registered node run htype

end RunRecord

/-! ### Contents -/

/-- All records are well formed. -/
def Contents.WellFormed (contents : Contents) : Prop :=
  ∀ program id record, contents.run? program id = some record → record.WellFormed

section

variable {before after : Contents}

theorem Alteration.wellFormed (halteration : Alteration before after)
    (hconsistent : before.Consistent) (hbefore : before.WellFormed) : after.WellFormed := by
  intro program id record hrecord
  rcases halteration.recorded_or hconsistent with ⟨written, hbecomes, hrecorded⟩ | hsame
  · rw [hrecorded.run?] at hrecord
    split at hrecord
    · obtain rfl := Option.some.inj hrecord
      exact hbecomes.wellFormed fun current hcurrent ↦
        ⟨(hconsistent.of_run? hcurrent).2.1, hbefore _ _ current hcurrent⟩
    · exact hbefore program id record hrecord
  · exact hbefore program id record ((hsame program id).symm.trans hrecord)

theorem wellFormed_of_alters (halters : ReflTransGen Alteration before after)
    (hconsistent : before.Consistent) (hbefore : before.WellFormed) : after.WellFormed := by
  induction halters with
  | refl => exact hbefore
  | tail hfirst halteration ih =>
    exact halteration.wellFormed (consistent_of_alters hfirst hconsistent) ih

/-- A commit leaves well-formed records. -/
theorem Operation.Makes.wellFormed {operation : Operation} {snapshot : Contents}
    (hmakes : operation.Makes snapshot before after) (hconsistent : before.Consistent)
    (hbefore : before.WellFormed) : after.WellFormed := by
  cases hmakes with
  | altered halters => exact wellFormed_of_alters halters hconsistent hbefore
  | removed hremoved =>
    intro program id record hrecord
    rw [hremoved.run?_eq] at hrecord
    split at hrecord
    · cases hrecord
    · exact hbefore program id record hrecord

end

/-- All contents that commits have made have well-formed records. -/
theorem System.Sound.wellFormed_records {system : System Operation Reply}
    {failsRead failsWrite : Nat → Bool}
    (hsound : system.Sound Operation.program failsRead failsWrite) (count : Nat) :
    (contentsAfter system.history count).WellFormed :=
  contentsAfter_induction (fun program id record hrecord ↦ by cases hrecord)
    (fun place commit hcommit hearlier ↦
      (hsound.makes hcommit).wellFormed (hsound.consistent place)
        (hearlier place (Nat.le_refl place))) count

/-- In every state of every interleaving, whatever fails, each live key of the run family is the key
of a program and a run id, which it decodes to, and what lies under it decodes to a well-formed
record of that program and run id. -/
theorem records_wellFormed (failsRead failsWrite : Nat → Bool) (config : Config)
    (events : List (Event Operation)) :
    let live := ((System.initial failsRead failsWrite config).run Operation.program
      events).database.substrate.store.live
    ∀ key value, live.get? key = some value → key.family = .run →
      ∃ program id record, key = Key.run program id ∧ key.decodeRun = .ok (program, id) ∧
        (value.decode : Except Damage RunRecord) = .ok record ∧
        record.program = program ∧ record.id = id ∧ record.WellFormed := by
  intro live key value hvalue hfamily
  have hsound := System.sound_run Operation.program failsRead failsWrite config events
  have hlive : live = _ := hsound.live
  rw [hlive] at hvalue
  obtain ⟨record, rfl, rfl⟩ := (hsound.consistent _).records key value hvalue hfamily
  have hwellFormed := hsound.wellFormed_records _ _ _ record (Contents.run?_of_holds hvalue)
  exact ⟨record.program, record.id, record, rfl, Key.decodeRun_run _ _, decode_runRecord record, rfl,
    rfl, hwellFormed⟩

/-- A workflow run that was started is recorded as it should be. -/
theorem records_wellFormed_started :
    let live := (System.reliably Operation.program
      (.begin (.start ⟨nightly, firstNight, 1000, none, ∅, ∅⟩) :: List.replicate 3 (.call 0) ++
        [.conclude 0])).database.substrate.store.live
    ∃ value record, live.get? (Key.run nightly firstNight) = some value ∧
      (value.decode : Except Damage RunRecord) = .ok record ∧ record.program = nightly ∧
      record.id = firstNight ∧ record.WellFormed := by
  intro live
  have hthere : (live.get? (Key.run nightly firstNight)).isSome = true := by decide +kernel
  obtain ⟨value, hvalue⟩ := Option.isSome_iff_exists.mp hthere
  obtain ⟨program, id, record, hkey, -, hdecode, hprogram, hid, hwellFormed⟩ :=
    records_wellFormed (fun _ ↦ false) (fun _ ↦ false) .standard _ _ value hvalue rfl
  obtain ⟨rfl, rfl⟩ := Key.run_inj hkey
  exact ⟨value, record, hvalue, hdecode, hprogram, hid, hwellFormed⟩

end RunLedger
