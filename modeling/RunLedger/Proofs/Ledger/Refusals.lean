import RunLedger.Ledger
import RunLedger.Proofs.Database.Untouched
import RunLedger.Proofs.Ledger.Operations

/-!
# Requests that are refused

A request to a ledger is refused if it fails, or if it was a compare-and-set on a run that does not
exist or has another status than expected (`Request.Refused`). Whatever the ledger holds, whatever
else is going on in its database and whichever of its reads and writes fail, a refused request
leaves the live values and the version as they were (`refused_leaves_unchanged`).

A failure undoes what its transaction has buffered, wherever it arises; a compare-and-set that
answers nothing has buffered nothing (`Runs.quiet_compareAndSet`).
-/

set_option autoImplicit false

namespace RunLedger

open Script Database

/-! ### Decisions without a change -/

/-- A decision that never changes the record when it gives a reply buffers nothing on the way to
that reply. -/
theorem Runs.quiet_amend {α : Type} {reply : α}
    {decision : RunRecord → Except Failure (Option RunRecord × α)}
    (hdecision : ∀ current updated, decision current ≠ .ok (some updated, reply))
    (program : ProgramId) (id : RunId) (absent : Except Failure α) :
    (Runs.amend program id absent decision).Quiet (.ok reply) := by
  refine Quiet.bind (@Runs.plain_find? False _ program id).quiet fun found? ↦ ?_
  cases found? with
  | none => exact quiet_finish absent _
  | some current =>
    dsimp only
    rw [Script.ofExcept, finish_bind]
    cases hdecided : decision current with
    | error failure => exact quiet_finish _ _
    | ok decided =>
      obtain ⟨updated?, told⟩ := decided
      cases updated? with
      | none => exact quiet_finish (.ok told) _
      | some updated =>
        refine quiet_bind_pure_of_ne fun hsame ↦ hdecision current updated ?_
        rw [hdecided, hsame]

/-- A compare-and-set that answers nothing has changed nothing on the way. -/
theorem Runs.quiet_compareAndSet (program : ProgramId) (id : RunId) (expected target : RunStatus)
    (time : UInt64) :
    (Runs.compareAndSet program id expected target time).Quiet (.ok none) := by
  rw [Runs.compareAndSet_eq]
  refine Runs.quiet_amend (fun current updated hdecision ↦ ?_) program id _
  unfold Runs.comparing at hdecision
  split at hdecision
  · cases hdecision
  · split at hdecision
    · cases hdecision
    · obtain ⟨updated?, -, hpair⟩ := Runs.eq_of_map_ok hdecision
      cases hpair

/-! ### Requests -/

/-- What may be asked of a ledger, other than to remove a scope, with the type of the answer. -/
inductive Request : Type → Type 1 where
  | start (request : Start) : Request RunRecord
  | suspend (program : ProgramId) (id : RunId) (time : UInt64) : Request RunRecord
  | resume (program : ProgramId) (id : RunId) (time : UInt64) : Request RunRecord
  | stop (program : ProgramId) (id : RunId) (time : UInt64) (status : RunStatus)
    (cause? : Option FailureCause) : Request RunRecord
  | compareAndSet (program : ProgramId) (id : RunId) (expected target : RunStatus)
    (time : UInt64) : Request (Option RunRecord)
  | run? (program : ProgramId) (id : RunId) : Request (Option RunRecord)
  | runsInWindow (program : ProgramId) (status : StatusFilter) (first last : UInt64) (limit : Nat)
    (keep : RunRecord → Bool) : Request (List RunRecord)
  | runsWithStatus (status : StatusFilter) (limit : Nat) (keep : RunRecord → Bool) :
    Request (List RunRecord)
  | runsActiveDuring (first last : UInt64) : Request (SortedSet RunId)
  | runtimeArguments (program : ProgramId) (id : RunId) : Request (SortedMap String String)
  | putToken (workflow : ProgramId) (id : RunId) (token : WorkflowToken) : Request Unit
  | token (workflow : ProgramId) (id : RunId) : Request WorkflowToken
  | putNodeState (workflow : ProgramId) (id : RunId) (state : NodeState) : Request Unit
  | nodeStates (workflow : ProgramId) (id : RunId) : Request (List NodeState)
  | statistics (workflow : ProgramId) (first last : UInt64) (percentiles : List Float) :
    Request (Option WorkflowStatistics)
  | summary? (workflow : ProgramId) (id : RunId) : Request (Option WorkflowSummary)
  | spacedSummaries (workflow : ProgramId) (id : RunId) (limit : Nat) (interval : UInt64) :
    Request (Option (List WorkflowSummary))

/-- What a ledger answers to a request, and the ledger behind it. -/
def Ledger.answer {α : Type} (ledger : Ledger) :
    Request α → Except Failure α × Ledger
  | .start request => ledger.start request
  | .suspend program id time => ledger.suspend program id time
  | .resume program id time => ledger.resume program id time
  | .stop program id time status cause? => ledger.stop program id time status cause?
  | .compareAndSet program id expected target time =>
    ledger.compareAndSet program id expected target time
  | .run? program id => ledger.run? program id
  | .runsInWindow program status first last limit keep =>
    ledger.runsInWindow program status first last limit keep
  | .runsWithStatus status limit keep => ledger.runsWithStatus status limit keep
  | .runsActiveDuring first last => ledger.runsActiveDuring first last
  | .runtimeArguments program id => ledger.runtimeArguments program id
  | .putToken workflow id token => ledger.putToken workflow id token
  | .token workflow id => ledger.token workflow id
  | .putNodeState workflow id state => ledger.putNodeState workflow id state
  | .nodeStates workflow id => ledger.nodeStates workflow id
  | .statistics workflow first last percentiles =>
    ledger.statistics workflow first last percentiles
  | .summary? workflow id => ledger.summary? workflow id
  | .spacedSummaries workflow id limit interval =>
    ledger.spacedSummaries workflow id limit interval

/-- A request is refused by a failure, and a compare-and-set also by the answer that there is no
such run with the status expected. -/
inductive Request.Refused : {α : Type} → Request α → Except Failure α → Prop
  | failed {α : Type} (request : Request α) (failure : Failure) :
    Request.Refused request (.error failure)
  | unexpected (program : ProgramId) (id : RunId) (expected target : RunStatus) (time : UInt64) :
    Request.Refused (.compareAndSet program id expected target time) (.ok none)

namespace Ledger

variable {α : Type} {ledger after : Ledger} {failure : Failure}

/-- A script that fails in a transaction of its own has changed nothing in the store. -/
theorem perform_failed {script : Script α}
    (hfailed : ledger.perform script = (.error failure, after)) :
    after.database.substrate.store = ledger.database.substrate.store := by
  obtain ⟨hcause, rfl⟩ := Prod.mk.inj hfailed
  exact transactRetrying_failed hcause

/-- A stop fails only in its first transaction. -/
theorem stop_failed {program : ProgramId} {id : RunId} {time : UInt64} {status : RunStatus}
    {cause? : Option FailureCause}
    (hfailed : ledger.stop program id time status cause? = (.error failure, after)) :
    after.database.substrate.store = ledger.database.substrate.store := by
  unfold stop at hfailed
  generalize hfirst : ledger.perform (Runs.stop program id time status cause?) = stopped at hfailed
  obtain ⟨outcome, first⟩ := stopped
  cases outcome with
  | error cause =>
    obtain ⟨-, rfl⟩ := Prod.mk.inj hfailed
    exact perform_failed hfirst
  | ok record =>
    dsimp only at hfailed
    split at hfailed <;> cases hfailed

/-- A request that fails has changed nothing in the store. -/
theorem answer_failed {request : Request α}
    (hfailed : ledger.answer request = (.error failure, after)) :
    after.database.substrate.store = ledger.database.substrate.store := by
  cases request with
  | stop => exact stop_failed hfailed
  | _ => exact perform_failed hfailed

end Ledger

/-- A refused request leaves the live values and the version of the database as they were: neither
a record nor an index entry nor a listed node is half written. -/
theorem refused_leaves_unchanged {α : Type} (ledger : Ledger) (request : Request α)
    (hrefused : request.Refused (ledger.answer request).1) :
    ledger.database.Unchanged (ledger.answer request).2.database := by
  generalize houtcome : (ledger.answer request).1 = outcome at hrefused
  cases hrefused with
  | failed failure => exact .of_store (Ledger.answer_failed (Prod.ext houtcome rfl))
  | unexpected program id expected target time =>
    exact transactRetrying_quiet (Runs.quiet_compareAndSet program id expected target time) houtcome

/-- A running workflow run in a store that takes no more writes. -/
def stuckNight : Ledger :=
  let started := (Ledger.ephemeral.start ⟨nightly, firstNight, 1000, none, ∅, ∅⟩).2
  { started with database.substrate := started.database.substrate.setWriteFailure true }

/-- The run cannot be stopped there, and is still listed as running in version 1. -/
theorem refused_leaves_unchanged_stuck :
    let stop := Request.stop nightly firstNight 1010 .completed none
    let ended := stuckNight.answer stop
    stop.Refused ended.1 ∧ stuckNight.database.Unchanged ended.2.database ∧
      ended.2.database.version = 1 ∧
      ended.2.database.live.contains (Key.statusIndex .running nightly firstNight) = true := by
  obtain ⟨hfails, hversion, hlisted⟩ :
      (stuckNight.answer (.stop nightly firstNight 1010 .completed none)).1.toBool = false ∧
      stuckNight.database.version = 1 ∧
      stuckNight.database.live.contains (Key.statusIndex .running nightly firstNight) = true := by
    decide +kernel
  have hrefused : (Request.stop nightly firstNight 1010 .completed none).Refused
      (stuckNight.answer (.stop nightly firstNight 1010 .completed none)).1 := by
    generalize (stuckNight.answer _).1 = outcome at hfails ⊢
    cases outcome with
    | ok record => cases hfails
    | error failure => exact .failed _ failure
  have hunchanged := refused_leaves_unchanged stuckNight _ hrefused
  refine ⟨hrefused, hunchanged, hunchanged.version.trans hversion, ?_⟩
  rw [hunchanged.live]
  exact hlisted

end RunLedger
