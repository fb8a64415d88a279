import Mathlib.Data.List.Chain
import Mathlib.Logic.Relation
import RunLedger.Proofs.Database.Conflicts
import RunLedger.Proofs.Transaction.Endings

/-!
# Retries among others

While an operation is tried, others use the same database. They act while the operation reads and
writes (`Attempt.Interleaves`), while its ended transaction is still there, and before the next
attempt (`Database.retryingAmid`). If they do nothing in these pauses, this is
`Database.retrying` (`retryingAmid_idle`).

Each attempt leaves a `Trial`: where it began, what its operation made of it, and how it ended. The
store is changed by others, and by the one attempt that is committed
(`retrying_commits_once`).
-/

set_option autoImplicit false

namespace RunLedger

open Relation (ReflTransGen)

variable {σ α : Type}

namespace Database

/-! ### What others do -/

/-- What a use of a transaction makes of it and of its database, and what others make of the
database meanwhile, one after the other. -/
inductive Advances (interferes : Database → Database → Prop) :
    Transaction × Database → Transaction × Database → Prop
  | own {β : Type} (script : Script β) (transaction : Transaction) (database : Database) :
    Advances interferes (transaction, database)
      ((script.run transaction database.substrate).2.1,
        { database with substrate := (script.run transaction database.substrate).2.2 })
  | others (transaction : Transaction) {before after : Database}
    (hinterferes : interferes before after) :
    Advances interferes (transaction, before) (transaction, after)

/-- The store has changed as others change it, and in no other way. -/
def Disturbed (interferes : Database → Database → Prop) : Store → Store → Prop :=
  ReflTransGen fun before after ↦ ∃ one other : Database, interferes one other ∧
    one.substrate.store = before ∧ other.substrate.store = after

end Database

/-- An operation that does nothing to its transaction but read and write there, while others do what
they may to the database. -/
def Attempt.Interleaves (interferes : Database → Database → Prop) (body : Attempt σ α) : Prop :=
  ∀ transaction database environment,
    ReflTransGen (Database.Advances interferes) (transaction, database)
      ((body transaction database environment).2.1, (body transaction database environment).2.2.1)

variable {interferes : Database → Database → Prop} {body : Attempt σ α}

theorem Script.interleaves_toAttempt (script : Script α) :
    Attempt.Interleaves interferes (script.toAttempt : Attempt σ α) := fun transaction database _ ↦
  .single (.own script transaction database)

namespace Database

/-! ### Attempts among others -/

/-- What others do in a pause. -/
abbrev Pause (σ : Type) := Database → σ → Database × σ

/-- A trace of an attempt: where it began and with which environment, its new transaction, what the
operation answered and made of transaction and database, how that was concluded, and what was left
when the transaction was gone. -/
structure Trial (σ α : Type) where
  before : Database
  given : σ
  begun : Transaction
  outcome : Except Failure α
  used : Transaction
  called : Database
  ended : Except Failure α
  concluded : Transaction
  settled : Database
  after : Database
  environment : σ

/-- An attempt with a pause before its transaction is gone. -/
def trial (pause : Pause σ) (body : Attempt σ α) (before : Database) (given : σ) : Trial σ α :=
  let (begun, opened) := before.begin
  let (outcome, used, called, environment) := body begun opened given
  let (ended, concluded, settled) := called.conclude used outcome
  let (rested, environment) := pause settled environment
  { before, given, begun, outcome, used, called, ended, concluded, settled,
    after := rested.release concluded, environment }

/-- Whether the attempt has met a conflict. -/
def Trial.isConflict (trial : Trial σ α) : Bool :=
  match trial.ended with
  | .ok _ => false
  | .error failure => failure.isConflict

/-- The attempts of an operation with pauses between them, so many more at most as may follow
conflicts. -/
def trials (pause : Pause σ) (body : Attempt σ α) : (maxRetries : Nat) → Database → σ →
    List (Trial σ α)
  | 0, before, given => [before.trial pause body given]
  | left + 1, before, given =>
    let trial := before.trial pause body given
    if trial.isConflict then
      let (next, environment) := pause trial.after trial.environment
      trial :: next.trials pause body left environment
    else [trial]

/-- An operation in a transaction of its own, with so many further attempts after conflicts, and with
pauses in which others act. -/
def retryingAmid (pause : Pause σ) (body : Attempt σ α) : (maxRetries : Nat) → Database → σ →
    Except Failure α × Database × σ
  | 0, before, given =>
    let trial := before.trial pause body given
    (trial.ended, trial.after, trial.environment)
  | left + 1, before, given =>
    let trial := before.trial pause body given
    if trial.isConflict then
      let (next, environment) := pause trial.after trial.environment
      next.retryingAmid pause body left environment
    else (trial.ended, trial.after, trial.environment)

/-- Others do nothing. -/
def idle : Pause σ := fun database environment ↦ (database, environment)

/-- Where others do nothing in the pauses, these are the retries of the database. -/
theorem retryingAmid_idle (body : Attempt σ α) (maxRetries : Nat) (before : Database) (given : σ) :
    before.retryingAmid idle body maxRetries given = before.retrying body maxRetries given := by
  have hattempt (before : Database) (given : σ) : before.attempt body given =
      ((before.trial idle body given).ended, (before.trial idle body given).after,
        (before.trial idle body given).environment) := rfl
  induction maxRetries generalizing before given with
  | zero =>
    unfold retrying
    rw [hattempt, retryingAmid]
    cases (before.trial idle body given).ended <;> rfl
  | succ left ih =>
    unfold retrying
    rw [hattempt, retryingAmid, Trial.isConflict]
    cases (before.trial idle body given).ended with
    | ok result => rfl
    | error failure =>
      dsimp only
      split
      · exact ih _ _
      · rfl

variable {pause : Pause σ} {maxRetries : Nat} {before : Database} {given : σ}

/-! ### One attempt -/

/-- The transaction stays active, and the store changes as others change it. -/
theorem Advances.spec {first second : Transaction × Database}
    (hadvances : ReflTransGen (Advances interferes) first second) :
    second.1.status = first.1.status ∧
      Disturbed interferes first.2.substrate.store second.2.substrate.store := by
  induction hadvances with
  | refl => exact ⟨rfl, .refl⟩
  | tail _ hlast ih =>
    obtain ⟨hstatus, hdisturbed⟩ := ih
    cases hlast with
    | own script transaction database =>
      refine ⟨(transaction.status_run script database.substrate).trans hstatus, ?_⟩
      have hstore := (transaction.uses_run script database.substrate).onlyRead.store
      dsimp only
      rwa [hstore]
    | others transaction hinterferes =>
      exact ⟨hstatus, hdisturbed.tail ⟨_, _, hinterferes, rfl, rfl⟩⟩

/-- How an attempt goes: it begins a new transaction on what the database holds, and until it ends
the store changes as others change it. If it fails, its end leaves the store as it is. If it gives a
result, its transaction is committed with this result of its operation, and its end makes of the
store what its buffers make of it, less what nobody reads any more. -/
structure Trial.Sound (interferes : Database → Database → Prop) (trial : Trial σ α) : Prop where
  begun : trial.begun =
    .onSnapshot trial.before.coordinator.nextId trial.before.substrate.store.version
  called : Disturbed interferes trial.before.substrate.store trial.called.substrate.store
  failed : ∀ failure, trial.ended = .error failure →
    trial.settled.substrate.store = trial.called.substrate.store
  committed : ∀ result, trial.ended = .ok result →
    trial.outcome = .ok result ∧ trial.concluded.status = .committed ∧
      ∃ written, Writes trial.used trial.called.substrate.store written ∧
        Store.Collected (trial.called.coordinator.horizon written.version) written
          trial.settled.substrate.store
  rested : Disturbed interferes trial.settled.substrate.store trial.after.substrate.store

/-- A result is given with a committed transaction only. -/
theorem conclude_of_ok {transaction : Transaction} (hactive : transaction.status = .active)
    {database : Database} {outcome : Except Failure α} {result : α}
    (hdone : (database.conclude transaction outcome).1 = .ok result) :
    outcome = .ok result ∧ (database.conclude transaction outcome).2.1.status = .committed := by
  cases outcome with
  | error failure => cases hdone
  | ok reply =>
    have hcommit := Transaction.commitment_commit hactive database.substrate
    rw [← Transaction.commitOrAbort_of_active hactive] at hcommit
    unfold conclude commit at hdone ⊢
    generalize transaction.commitOrAbort database.substrate = ended at hcommit hdone ⊢
    cases hcommit with
    | committed => exact ⟨congrArg Except.ok (Except.ok.inj hdone), rfl⟩
    | dropped | refused => cases hdone

theorem sound_trial (hbody : body.Interleaves interferes)
    (hpause : ∀ database environment, interferes database (pause database environment).1)
    (before : Database) (given : σ) : (before.trial pause body given).Sound interferes := by
  let trial := before.trial pause body given
  obtain ⟨hstatus, hcalled⟩ : trial.used.status = trial.begun.status ∧
      Disturbed interferes before.substrate.store trial.called.substrate.store :=
    Advances.spec (hbody trial.begun before.begin.2 given)
  have hactive : trial.used.status = .active := hstatus
  have hconclude : (trial.called.conclude trial.used trial.outcome).2.2 = trial.settled := rfl
  have hspec := trial.called.conclude_spec trial.used trial.outcome
  rw [hconclude] at hspec
  refine ⟨rfl, hcalled, fun failure hfailed ↦ ?_, fun result hdone ↦ ?_, ?_⟩
  · obtain ⟨-, -, hstore⟩ | ⟨result, -, hresult, -⟩ := hspec
    · exact hstore
    · cases hresult.symm.trans hfailed
  · obtain ⟨houtcome, hcommitted⟩ := conclude_of_ok hactive hdone
    obtain ⟨failure, hfailed, -⟩ | ⟨-, written, -, hwrites, hstore⟩ := hspec
    · cases hfailed.symm.trans hdone
    · refine ⟨houtcome, hcommitted, written, hwrites, ?_⟩
      rw [show (before.trial pause body given).settled.substrate.store = _ from hstore]
      exact Store.collected_collect written _
  · have hafter : trial.after.substrate = _ :=
      substrate_release (pause trial.settled _).1 trial.concluded
    change Disturbed interferes trial.settled.substrate.store trial.after.substrate.store
    rw [hafter]
    exact .single ⟨_, _, hpause trial.settled _, rfl, rfl⟩

/-- A failed attempt leaves the store as others have made it. -/
theorem Trial.Sound.disturbed {trial : Trial σ α} (hsound : trial.Sound interferes)
    {failure : Failure} (hfailed : trial.ended = .error failure) :
    Disturbed interferes trial.before.substrate.store trial.after.substrate.store := by
  have hrested := hsound.rested
  rw [hsound.failed failure hfailed] at hrested
  exact hsound.called.trans hrested

theorem Trial.isConflict_iff {trial : Trial σ α} :
    trial.isConflict = true ↔ ∃ cause, trial.ended = .error (.writeConflict cause) := by
  unfold isConflict
  cases trial.ended with
  | ok result => simp
  | error failure => cases failure <;> simp [Failure.isConflict]

/-! ### All attempts -/

/-- Each attempt begins where the pause behind the one before has ended. -/
def Trial.Continues (pause : Pause σ) (earlier later : Trial σ α) : Prop :=
  (later.before, later.given) = pause earlier.after earlier.environment

theorem head?_trials :
    (before.trials pause body maxRetries given).head? = some (before.trial pause body given) := by
  cases maxRetries with
  | zero => rfl
  | succ left =>
    rw [trials]
    dsimp only
    split <;> rfl

theorem isChain_trials :
    (before.trials pause body maxRetries given).IsChain (Trial.Continues pause) := by
  induction maxRetries generalizing before given with
  | zero => exact .singleton _
  | succ left ih =>
    rw [trials]
    dsimp only
    split
    · refine List.isChain_cons.mpr ⟨fun later hlater ↦ ?_, ih⟩
      rw [head?_trials] at hlater
      obtain rfl := Option.some.inj (Option.mem_def.mp hlater)
      rfl
    · exact .singleton _

/-- There are as many further attempts as are allowed, or fewer if one meets no conflict. -/
theorem length_trials_le : (before.trials pause body maxRetries given).length ≤ maxRetries + 1 := by
  induction maxRetries generalizing before given with
  | zero => exact Nat.le_refl _
  | succ left ih =>
    rw [trials]
    dsimp only
    split
    · exact Nat.succ_le_succ ih
    · exact Nat.le_add_left _ _

/-- The call gives what its last attempt gives. All attempts before it have met conflicts, and so
has it only if no further attempt is allowed. -/
theorem exists_last_trial :
    ∃ earlier last, before.trials pause body maxRetries given = earlier ++ [last] ∧
      before.retryingAmid pause body maxRetries given = (last.ended, last.after, last.environment) ∧
      (∀ trial ∈ earlier, trial.isConflict = true) ∧
      (last.isConflict = true → earlier.length = maxRetries) := by
  induction maxRetries generalizing before given with
  | zero => exact ⟨[], before.trial pause body given, rfl, rfl, List.forall_mem_nil _, fun _ ↦ rfl⟩
  | succ left ih =>
    let first := before.trial pause body given
    rw [trials, retryingAmid]
    dsimp only
    split
    · rename_i hconflict
      obtain ⟨earlier, last, htrials, hlast, hearlier, hexhausted⟩ :=
        @ih (pause first.after first.environment).1 (pause first.after first.environment).2
      refine ⟨first :: earlier, last, ?_, hlast, ?_, fun hagain ↦ ?_⟩
      · rw [htrials, List.cons_append]
      · exact List.forall_mem_cons.mpr ⟨hconflict, hearlier⟩
      · rw [List.length_cons, hexhausted hagain]
    · rename_i hsettled
      exact ⟨[], first, rfl, rfl, List.forall_mem_nil _, fun hconflict ↦ absurd hconflict hsettled⟩

/-- Each attempt runs the operation once, from where it begins. -/
theorem eq_of_mem_trials {trial : Trial σ α}
    (hmem : trial ∈ before.trials pause body maxRetries given) :
    trial = trial.before.trial pause body trial.given := by
  induction maxRetries generalizing before given with
  | zero => exact List.mem_singleton.mp hmem ▸ rfl
  | succ left ih =>
    rw [trials] at hmem
    dsimp only at hmem
    split at hmem
    · obtain rfl | hlater := List.mem_cons.mp hmem
      · rfl
      · exact ih hlater
    · exact List.mem_singleton.mp hmem ▸ rfl

section

variable (hbody : body.Interleaves interferes)
  (hpause : ∀ database environment, interferes database (pause database environment).1)

include hbody hpause

/-- Up to the beginning of any attempt the store has changed as others change it. -/
theorem disturbed_of_mem_trials {trial : Trial σ α}
    (hmem : trial ∈ before.trials pause body maxRetries given) :
    Disturbed interferes before.substrate.store trial.before.substrate.store := by
  induction maxRetries generalizing before given with
  | zero => exact List.mem_singleton.mp hmem ▸ .refl
  | succ left ih =>
    rw [trials] at hmem
    dsimp only at hmem
    split at hmem
    · rename_i hconflict
      obtain rfl | hlater := List.mem_cons.mp hmem
      · exact .refl
      · obtain ⟨cause, hfailed⟩ := Trial.isConflict_iff.mp hconflict
        have hfirst := (sound_trial hbody hpause before given).disturbed hfailed
        exact (hfirst.tail ⟨_, _, hpause _ _, rfl, rfl⟩).trans (ih hlater)
    · exact List.mem_singleton.mp hmem ▸ .refl

end

end Database

/-- An operation that does nothing to its transactions but read and write there is tried among
others, who act while it does so and in the pauses. It is run at most once more than there are
retries, each time in a new transaction on what the database then holds, which is what the pause
behind the attempt before has left. Every attempt before the last has met a conflict, and the call
gives what the last one gives: a conflict only if no retry is left. If it fails, the store has
changed as others have changed it. If it gives a result, the last attempt has been committed with
it, and between what others have done the store has changed once, as the buffers of that attempt and
the collection behind its commit change it. -/
theorem retrying_commits_once {interferes : Database → Database → Prop} {body : Attempt σ α}
    (hbody : body.Interleaves interferes) {pause : Database.Pause σ}
    (hpause : ∀ database environment, interferes database (pause database environment).1)
    (maxRetries : Nat) (database : Database) (environment : σ) :
    let disturbed (before after : Database) : Prop :=
      Database.Disturbed interferes before.substrate.store after.substrate.store
    let trials := database.trials pause body maxRetries environment
    let called := database.retryingAmid pause body maxRetries environment
    (trials.length ≤ maxRetries + 1 ∧
      trials.head? = some (database.trial pause body environment) ∧
      trials.IsChain (Database.Trial.Continues pause) ∧
      ∀ trial ∈ trials, trial = trial.before.trial pause body trial.given ∧
        trial.Sound interferes) ∧
    (pause = Database.idle → called = database.retrying body maxRetries environment) ∧
    ∃ earlier last, trials = earlier ++ [last] ∧
      called = (last.ended, last.after, last.environment) ∧
      (∀ trial ∈ earlier, ∃ cause, trial.ended = .error (.writeConflict cause)) ∧
      (∀ cause, called.1 = .error (.writeConflict cause) → trials.length = maxRetries + 1) ∧
      (∀ failure, called.1 = .error failure → disturbed database called.2.1) ∧
      ∀ result, called.1 = .ok result →
        last.outcome = .ok result ∧ last.concluded.status = .committed ∧
          disturbed database last.called ∧
          (∃ written, Database.Writes last.used last.called.substrate.store written ∧
            Store.Collected (last.called.coordinator.horizon written.version) written
              last.settled.substrate.store) ∧
          disturbed last.settled called.2.1 := by
  intro disturbed trials called
  have hsound (trial : Database.Trial σ α) (hmem : trial ∈ trials) :
      trial = trial.before.trial pause body trial.given ∧ trial.Sound interferes := by
    have htrial := Database.eq_of_mem_trials hmem
    exact ⟨htrial, htrial ▸ Database.sound_trial hbody hpause trial.before trial.given⟩
  obtain ⟨earlier, last, htrials, hcalled, hearlier, hexhausted⟩ :
      ∃ earlier last, trials = earlier ++ [last] ∧
        called = (last.ended, last.after, last.environment) ∧
        (∀ trial ∈ earlier, trial.isConflict = true) ∧
        (last.isConflict = true → earlier.length = maxRetries) :=
    Database.exists_last_trial
  have hlast : last ∈ trials := htrials ▸ List.mem_append_right _ (List.mem_singleton_self last)
  have hbegun := Database.disturbed_of_mem_trials hbody hpause hlast
  have hgoes := (hsound last hlast).2
  refine ⟨⟨Database.length_trials_le, Database.head?_trials, Database.isChain_trials, hsound⟩, ?_,
    earlier, last, htrials, hcalled, fun trial hmem ↦ Database.Trial.isConflict_iff.mp
      (hearlier trial hmem), fun cause hconflict ↦ ?_, fun failure hfailed ↦ ?_,
    fun result hdone ↦ ?_⟩
  · rintro rfl
    exact Database.retryingAmid_idle body maxRetries database environment
  · rw [hcalled] at hconflict
    rw [htrials, List.length_append, hexhausted (Database.Trial.isConflict_iff.mpr ⟨cause, hconflict⟩)]
    rfl
  · rw [hcalled] at hfailed ⊢
    exact hbegun.trans (hgoes.disturbed hfailed)
  · rw [hcalled] at hdone ⊢
    obtain ⟨houtcome, hcommitted, hwritten⟩ := hgoes.committed result hdone
    exact ⟨houtcome, hcommitted, hbegun.trans hgoes.called, hwritten, hgoes.rested⟩

/-- The key of a counter. -/
def counterKey : Key := ⟨.run, [1]⟩

/-- Others write the counter, or do nothing. -/
def writesCounter (before after : Database) : Prop :=
  after = before ∨ after = (before.transact (Script.write counterKey (.text "other"))).2

/-- An operation that looks at the counter and writes it. The first time it is tried, others write
the counter in between. -/
def counting : Attempt Nat Unit := fun transaction database tries ↦
  let (_, transaction, substrate) := (Script.read counterKey).run transaction database.substrate
  let looked : Database := { database with substrate }
  let met := if tries = 0 then (looked.transact (Script.write counterKey (.text "other"))).2
    else looked
  let (outcome, transaction, substrate) :=
    (Script.write counterKey (.text "mine")).run transaction met.substrate
  (outcome, transaction, { met with substrate }, tries + 1)

/-- The operation meets a conflict at first, and is committed at the second attempt. -/
theorem retrying_commits_once_counting :
    counting.Interleaves writesCounter ∧
      (∀ database (environment : Nat), writesCounter database (Database.idle database environment).1) ∧
      ∃ first last, Database.ephemeral.trials Database.idle counting 3 0 = [first, last] ∧
        (∃ cause, first.ended = .error (.writeConflict cause)) ∧
        last.outcome = .ok () ∧ last.concluded.status = .committed ∧
        (Database.ephemeral.retrying counting 3 0).2.1.substrate.store.live.toList =
          [(counterKey, .text "mine")] := by
  have hcounting : counting.Interleaves writesCounter := by
    intro transaction database tries
    let looked := (Script.read counterKey).run transaction database.substrate
    let found : Database := { database with substrate := looked.2.2 }
    let met := if tries = 0 then (found.transact (Script.write counterKey (.text "other"))).2
      else found
    have hmet : writesCounter found met := by
      by_cases hfirst : tries = 0
      · exact Or.inr (if_pos hfirst)
      · exact Or.inl (if_neg hfirst)
    exact ((ReflTransGen.single (.own (Script.read counterKey) transaction database)).tail
      (.others looked.2.1 hmet)).tail
      (.own (Script.write counterKey (.text "mine")) looked.2.1 met)
  have hidle (database : Database) (environment : Nat) :
      writesCounter database (Database.idle database environment).1 := Or.inl rfl
  obtain ⟨-, -, earlier, last, htrials, -, hearlier, -, -, hdone⟩ :=
    retrying_commits_once hcounting hidle 3 .ephemeral 0
  have hlength : (Database.ephemeral.trials Database.idle counting 3 0).length = 2 := by
    decide +kernel
  have hresult : (Database.ephemeral.retryingAmid Database.idle counting 3 0).1 = .ok () := by
    rfl
  rw [htrials, List.length_append] at hlength
  obtain ⟨first, rfl⟩ := List.length_eq_one_iff.mp (Nat.succ.inj hlength)
  obtain ⟨houtcome, hcommitted, -⟩ := hdone () hresult
  exact ⟨hcounting, hidle, first, last, htrials, hearlier first (List.mem_singleton_self first),
    houtcome, hcommitted, by decide +kernel⟩

end RunLedger
