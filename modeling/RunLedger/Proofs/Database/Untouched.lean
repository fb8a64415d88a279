import RunLedger.Proofs.Database.Alone

/-!
# Attempts that leave the database as it was

Whatever a store holds and whatever fails, an attempt that ends with a failure has changed nothing
in the store (`Database.attempt_failed`), and one whose script came to its result without a change
leaves the live values and the version as they were (`Database.attempt_quiet`): the collection
behind it takes nothing that is live. Retries end in an attempt begun on the store as it was
(`Database.exists_last_attempt`), so both hold of them too.

If no read fails, a script that changes nothing comes to what it comes to on the live values, even
if it would go on where an access fails (`Database.transactRetrying_of_quiet`).
-/

set_option autoImplicit false

namespace RunLedger

variable {α : Type}

/-! ### Transactions that change nothing -/

namespace Transaction

variable {transaction : Transaction}

/-- An active transaction that buffers nothing is committed, whatever fails. -/
theorem commitOrAbort_of_isReadOnly (hactive : transaction.status = .active)
    (hreadOnly : transaction.isReadOnly = true) (substrate : Substrate) :
    transaction.commitOrAbort substrate =
      (.ok substrate.store.version, { transaction with status := .committed }, substrate) := by
  have hbegin : transaction.beginValidation = .ok { transaction with status := .validating } := by
    simp [beginValidation, isActive, hactive]
  have hconflicts : conflicts { transaction with status := .validating } substrate =
      (.ok [], substrate) := if_pos hreadOnly
  have hvalidate : transaction.validate substrate =
      (.ok (), { transaction with status := .committed }, substrate) := by
    simp only [validate, hbegin, hconflicts, endValidation, if_true]
  have hbuffers : isReadOnly { transaction with status := .committed } = true := hreadOnly
  simp only [commitOrAbort, commit, hvalidate, hbuffers, if_true]

/-- A transaction whose calls change nothing buffers nothing. -/
theorem Tracks.isReadOnly {snapshot : Nat} {calls : List Call}
    (htracks : transaction.Tracks snapshot calls) (hcalls : ∀ key, ¬ Changed calls key) :
    transaction.isReadOnly = true := by
  cases hbuffers : transaction.isReadOnly with
  | true => rfl
  | false =>
    obtain ⟨key, hkey⟩ := htracks.exists_changed hbuffers
    exact absurd hkey (hcalls key)

end Transaction

namespace Script

/-- On every way to a given outcome the script changes nothing. -/
def Quiet (script : Script α) (outcome : Except Failure α) : Prop :=
  ∀ calls, script.Leads calls (.finish outcome) → ∀ key, ¬ Changed calls key

theorem Plain.quiet {mayScan : Prop} {script : Script α}
    (hplain : script.Plain mayScan fun _ ↦ False) (outcome : Except Failure α) :
    script.Quiet outcome := fun _ hleads _ ↦ hplain.not_changed hleads not_false

theorem quiet_finish (ended outcome : Except Failure α) : (finish ended).Quiet outcome :=
  ((.finish ended : (finish ended).Plain False fun _ ↦ False)).quiet outcome

section

variable {β : Type} {script : Script α}

/-- A script that changes nothing, however it ends, may come before one that is quiet. -/
theorem Quiet.followedBy (hscript : ∀ between, script.Quiet between)
    {continuation : Except Failure α → Script β} {outcome : Except Failure β}
    (hnext : ∀ between, (continuation between).Quiet outcome) :
    (script.followedBy continuation).Quiet outcome := by
  intro calls hleads key
  obtain ⟨first, between, rest, rfl, hfirst, hlast⟩ := leads_followedBy hleads
  rintro ⟨call, hcall, hchanged⟩
  rcases List.mem_append.mp hcall with hmem | hmem
  · exact hscript between first hfirst key ⟨call, hmem, hchanged⟩
  · exact hnext between rest hlast key ⟨call, hmem, hchanged⟩

theorem Quiet.bind (hscript : ∀ between, script.Quiet between) {next : α → Script β}
    {outcome : Except Failure β} (hnext : ∀ result, (next result).Quiet outcome) :
    (script >>= next).Quiet outcome :=
  Quiet.followedBy hscript fun between ↦
    match between with
    | .ok result => hnext result
    | .error _ => quiet_finish _ _

/-- A script that ends by telling something else has no way to a result. -/
theorem quiet_bind_pure_of_ne {told result : β} (hother : told ≠ result) :
    (script >>= fun _ ↦ pure told).Quiet (.ok result) := by
  intro calls hleads
  obtain ⟨first, between, rest, rfl, -, hlast⟩ := leads_followedBy hleads
  cases between with
  | error failure => cases (leads_finish hlast).2
  | ok => exact absurd (Except.ok.inj (leads_finish hlast).2) hother

end

end Script

namespace Database

/-- The live values and the version are the same. -/
structure Unchanged (before after : Database) : Prop where
  live : after.live = before.live
  version : after.version = before.version

theorem Unchanged.of_store {before after : Database}
    (hstore : after.substrate.store = before.substrate.store) : before.Unchanged after := by
  constructor
  · rw [Database.live, hstore, Database.live]
  · rw [Database.version, hstore, Database.version]

theorem Unchanged.trans {first second third : Database} (hfirst : first.Unchanged second)
    (hsecond : second.Unchanged third) : first.Unchanged third :=
  ⟨hsecond.live.trans hfirst.live, hsecond.version.trans hfirst.version⟩

/-! ### One attempt -/

/-- How an attempt comes about: its script runs on the present state to an outcome, and its
transaction is concluded on the same store, where its own snapshot is counted. -/
structure Attempts (before : Database) (script : Script α) (calls : List Call)
    (outcome : Except Failure α) (transaction : Transaction) (called : Database) : Prop where
  course : script.Course before.live before.substrate.failsRead calls (.finish outcome)
  tracks : transaction.Tracks before.version calls
  store : called.substrate.store = before.substrate.store
  counted : called.coordinator.active.contains before.version = true
  ended : (before.attempt script.toAttempt ()).1 = (called.conclude transaction outcome).1
  left : (before.attempt script.toAttempt ()).2.1.substrate =
    (called.conclude transaction outcome).2.2.substrate

/-- An attempt begins a transaction, calls its script there, concludes it and drops it. -/
theorem exists_attempts_eq (before : Database) (script : Script α) :
    ∃ calls outcome transaction called,
      before.Attempts script calls outcome transaction called ∧
        called.coordinator = before.begin.2.coordinator ∧
        before.attempt script.toAttempt () =
          ((called.conclude transaction outcome).1,
            (called.conclude transaction outcome).2.2.release
              (called.conclude transaction outcome).2.1, ()) := by
  obtain ⟨calls, hcourse, htracks, -, honly⟩ :=
    script.runs (fun _ ↦ True) (fun _ _ _ _ ↦ trivial) (rfl : before.substrate.store = _)
      (Transaction.Tracks.begin before.coordinator.nextId before.version) trivial
  let ran := script.run (.onSnapshot before.coordinator.nextId before.version) before.substrate
  let called : Database := { before.begin.2 with substrate := ran.2.2 }
  have hcounted : called.coordinator.active.contains before.version = true := by
    change (before.coordinator.active.insert before.version _).contains before.version = true
    rw [SortedMap.contains_insert, Nat.compare_eq_eq.mpr rfl]
    rfl
  exact ⟨calls, ran.1, ran.2.1, called,
    { course := hcourse
      tracks := htracks
      store := honly.store
      counted := hcounted
      ended := rfl
      left := substrate_release .. }, rfl, rfl⟩

theorem exists_attempts (before : Database) (script : Script α) :
    ∃ calls outcome transaction called,
      before.Attempts script calls outcome transaction called := by
  obtain ⟨calls, outcome, transaction, called, hattempts, -⟩ := before.exists_attempts_eq script
  exact ⟨calls, outcome, transaction, called, hattempts⟩

variable {script : Script α} {before : Database}

/-- A failed attempt has changed nothing in the store. -/
theorem attempt_failed {failure : Failure}
    (hfailed : (before.attempt script.toAttempt ()).1 = .error failure) :
    (before.attempt script.toAttempt ()).2.1.substrate.store = before.substrate.store := by
  obtain ⟨calls, outcome, transaction, called, hattempts⟩ := before.exists_attempts script
  obtain ⟨hconcludes, -, -⟩ := concludes_conclude hattempts.tracks.active called outcome
  rw [hattempts.ended] at hfailed
  rw [hattempts.left, ← hattempts.store]
  generalize called.conclude transaction outcome = concluded at hfailed hconcludes ⊢
  obtain ⟨ended, last, after⟩ := concluded
  obtain rfl : ended = .error failure := hfailed
  cases hconcludes with
  | failed hstore | conflicts hstore | outage hstore => exact hstore

/-- A transaction of an attempt that has changed nothing ends with its result, and with the live
values and the version there were. -/
theorem Attempts.conclude_quiet {calls : List Call} {result : α} {transaction : Transaction}
    {called : Database} (hattempts : before.Attempts script calls (.ok result) transaction called)
    (hcalls : ∀ key, ¬ Changed calls key) :
    (before.attempt script.toAttempt ()).1 = .ok result ∧
      before.Unchanged (before.attempt script.toAttempt ()).2.1 := by
  have hcommit := Transaction.commitOrAbort_of_isReadOnly hattempts.tracks.active
    (hattempts.tracks.isReadOnly hcalls) called.substrate
  let counted : Database :=
    { called with coordinator := called.coordinator.countCommit }
  have hconclude : called.conclude transaction (.ok result) =
      (.ok result, { transaction with status := .committed }, counted.collect.2) := by
    simp only [conclude, commit, hcommit]
    rfl
  have hcollected := counted.collect_collected
  have hsame : counted.substrate.store = before.substrate.store := hattempts.store
  have hhorizon : counted.coordinator.horizon counted.substrate.store.version ≤ before.version :=
    Coordinator.horizon_le_of_contains hattempts.counted _
  have hleft := hattempts.left
  rw [hconclude] at hleft
  rw [hsame] at hcollected hhorizon
  refine ⟨hattempts.ended.trans (by rw [hconclude]), ?_, ?_⟩
  · rw [live, hleft, Store.live, hcollected.version, live, Store.live]
    exact hcollected.liveAt hhorizon
  · rw [version, hleft, hcollected.version, version]

/-- An attempt whose script changes nothing on its way to the result has changed nothing. -/
theorem attempt_quiet {result : α} (hquiet : script.Quiet (.ok result))
    (hdone : (before.attempt script.toAttempt ()).1 = .ok result) :
    before.Unchanged (before.attempt script.toAttempt ()).2.1 := by
  obtain ⟨calls, outcome, transaction, called, hattempts⟩ := before.exists_attempts script
  obtain rfl : outcome = .ok result := by
    obtain ⟨hconcludes, -, -⟩ := concludes_conclude hattempts.tracks.active called outcome
    rw [hattempts.ended] at hdone
    rw [hdone] at hconcludes
    cases hconcludes <;> rfl
  exact (hattempts.conclude_quiet (hquiet calls hattempts.course.leads)).2

/-! ### Retries -/

/-- Retries end in an attempt that begins on a database with what failed attempts keep. -/
theorem exists_last_attempt_of {keeps : Database → Prop} {script : Script α}
    (hkeeps : ∀ (database : Database) (failure : Failure), keeps database →
      (database.attempt script.toAttempt ()).1 = .error failure →
        keeps (database.attempt script.toAttempt ()).2.1)
    {before : Database} (hbefore : keeps before) (maxRetries : Nat) :
    ∃ between : Database, keeps between ∧
      before.retrying script.toAttempt maxRetries () = between.attempt script.toAttempt () := by
  induction maxRetries generalizing before with
  | zero =>
    refine ⟨before, hbefore, ?_⟩
    unfold retrying
    obtain ⟨outcome, after, left⟩ := before.attempt script.toAttempt ()
    cases outcome <;> rfl
  | succ more ih =>
    unfold retrying
    have hfailed := hkeeps before
    revert hfailed
    generalize hattempt : before.attempt script.toAttempt () = attempted
    obtain ⟨outcome, after, left⟩ := attempted
    intro hfailed
    cases outcome with
    | ok result => exact ⟨before, hbefore, hattempt.symm⟩
    | error failure =>
      dsimp only
      split
      · exact ih (hfailed failure hbefore rfl)
      · exact ⟨before, hbefore, hattempt.symm⟩

/-- Retries end in an attempt that begins on the store as it was before the first. -/
theorem exists_last_attempt (before : Database) (script : Script α) (maxRetries : Nat) :
    ∃ between : Database, between.substrate.store = before.substrate.store ∧
      before.retrying script.toAttempt maxRetries () = between.attempt script.toAttempt () :=
  @exists_last_attempt_of α (fun database ↦ database.substrate.store = before.substrate.store)
    script (fun _ _ hsame hfailed ↦ (attempt_failed hfailed).trans hsame) before rfl maxRetries

/-- A call that fails, retries and all, has changed nothing in the store. -/
theorem transactRetrying_failed {policy : RetryPolicy} {failure : Failure}
    (hfailed : (before.transactRetrying policy script).1 = .error failure) :
    (before.transactRetrying policy script).2.substrate.store = before.substrate.store := by
  obtain ⟨between, hstore, hlast⟩ := before.exists_last_attempt script policy.maxRetries
  unfold transactRetrying at hfailed ⊢
  rw [hlast] at hfailed ⊢
  exact (attempt_failed hfailed).trans hstore

/-- A call whose script changes nothing on its way to the result has changed nothing. -/
theorem transactRetrying_quiet {policy : RetryPolicy} {result : α}
    (hquiet : script.Quiet (.ok result))
    (hdone : (before.transactRetrying policy script).1 = .ok result) :
    before.Unchanged (before.transactRetrying policy script).2 := by
  obtain ⟨between, hstore, hlast⟩ := before.exists_last_attempt script policy.maxRetries
  unfold transactRetrying at hdone ⊢
  rw [hlast] at hdone ⊢
  exact (Unchanged.of_store hstore).trans (attempt_quiet hquiet hdone)

/-- If no read fails, the script of an attempt goes as it does on the live values. -/
theorem Attempts.perform_eq {calls : List Call} {outcome : Except Failure α}
    {transaction : Transaction} {called : Database}
    (hattempts : before.Attempts script calls outcome transaction called)
    (hreads : ∀ serial, before.substrate.failsRead serial = false) :
    script.perform before.live = ⟨outcome, effectOf calls before.live, calls⟩ := by
  have hunrefused : Unrefused calls := by
    intro call hcall
    cases call with
    | refused failure =>
      obtain ⟨-, serial, hserial⟩ := hattempts.course.refused failure hcall
      rw [hreads] at hserial
      cases hserial
    | _ => rfl
  exact Script.perform_eq_of_leads hattempts.course.leads hattempts.course.truthful hunrefused

theorem Attempts.outcome_eq {calls : List Call} {outcome : Except Failure α}
    {transaction : Transaction} {called : Database}
    (hattempts : before.Attempts script calls outcome transaction called)
    (hreads : ∀ serial, before.substrate.failsRead serial = false) :
    (script.eval before.live).1 = outcome := by
  rw [Script.eval, hattempts.perform_eq hreads]

/-- If no read fails, a script that comes to a result on the live values without changing anything
there has this result, and leaves them and the version as they were. -/
theorem transactRetrying_of_unchanging
    (hreads : ∀ serial, before.substrate.failsRead serial = false) {result : α}
    (hresult : (script.eval before.live).1 = .ok result)
    (hcalls : ∀ key, ¬ Changed (script.perform before.live).calls key) (policy : RetryPolicy) :
    (before.transactRetrying policy script).1 = .ok result ∧
      before.Unchanged (before.transactRetrying policy script).2 := by
  obtain ⟨calls, outcome, transaction, called, hattempts⟩ := before.exists_attempts script
  obtain rfl : outcome = .ok result := (hattempts.outcome_eq hreads).symm.trans hresult
  rw [hattempts.perform_eq hreads] at hcalls
  obtain ⟨hdone, hunchanged⟩ := hattempts.conclude_quiet hcalls
  have honce := retrying_eq_attempt (fun failure hfailure ↦ by
    rw [hdone] at hfailure
    cases hfailure) policy.maxRetries
  unfold transactRetrying
  rw [honce]
  exact ⟨hdone, hunchanged⟩

/-- If no read fails, a script that changes nothing on its way to the result that it comes to on the
live values has this result, and leaves them and the version as they were. -/
theorem transactRetrying_of_quiet (hreads : ∀ serial, before.substrate.failsRead serial = false)
    {result : α} (hresult : (script.eval before.live).1 = .ok result)
    (hquiet : script.Quiet (.ok result)) (policy : RetryPolicy) :
    (before.transactRetrying policy script).1 = .ok result ∧
      before.Unchanged (before.transactRetrying policy script).2 := by
  have hleads := (Script.leads_perform script before.live).1
  rw [show (script.perform before.live).outcome = .ok result from hresult] at hleads
  exact transactRetrying_of_unchanging hreads hresult (hquiet _ hleads) policy

/-- Where no version is left, a call leaves the live values as they were. -/
theorem transactRetrying_of_full (hfull : UInt64.size ≤ before.version + 1)
    (policy : RetryPolicy) : (before.transactRetrying policy script).2.live = before.live := by
  obtain ⟨between, hstore, hlast⟩ := before.exists_last_attempt script policy.maxRetries
  have hlive : between.live = before.live := (Unchanged.of_store hstore).live
  unfold transactRetrying
  rw [hlast, ← hlive]
  obtain ⟨calls, outcome, transaction, called, hattempts⟩ := between.exists_attempts script
  obtain ⟨hconcludes, -, -⟩ := concludes_conclude hattempts.tracks.active called outcome
  have hsame : called.substrate.store = before.substrate.store := hattempts.store.trans hstore
  cases hended : (between.attempt script.toAttempt ()).1 with
  | error failure => exact (Unchanged.of_store (attempt_failed hended)).live
  | ok result =>
    rw [← hattempts.ended, hended] at hconcludes
    cases hconcludes with
    | readOnly hreadOnly =>
      exact (hattempts.conclude_quiet
        (not_changed_of_effectOf_eq (hattempts.tracks.effectOf_eq hreadOnly))).2.live
    | committed _ _ happly =>
      rw [hsame] at happly
      have hnext := nextVersion_eq (Store.apply_eq_ok happly).1
      have hbound : nextVersion before.version < UInt64.size := Nat.mod_lt _ (by decide)
      rw [version, hnext] at hbound
      exact absurd hbound (Nat.not_lt.mpr hfull)

/-- If no read fails, a script that comes to a failure on the live values fails with it, unless it
reports a conflict itself. -/
theorem transactRetrying_of_error (hreads : ∀ serial, before.substrate.failsRead serial = false)
    {failure : Failure} (hfailure : (script.eval before.live).1 = .error failure)
    (hsettled : failure.isConflict = false) (policy : RetryPolicy) :
    (before.transactRetrying policy script).1 = .error failure := by
  obtain ⟨calls, outcome, transaction, called, hattempts⟩ := before.exists_attempts script
  obtain rfl : outcome = .error failure := (hattempts.outcome_eq hreads).symm.trans hfailure
  have hended : (before.attempt script.toAttempt ()).1 = .error failure := hattempts.ended
  have honce := retrying_eq_attempt (fun other hother ↦ by
    obtain rfl := Except.error.inj (hended.symm.trans hother)
    exact hsettled) policy.maxRetries
  unfold transactRetrying
  rw [honce]
  exact hended

end Database

end RunLedger
