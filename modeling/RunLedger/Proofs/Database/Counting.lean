import Mathlib.Data.List.Perm.Subperm
import RunLedger.Proofs.Database.Pool
import RunLedger.Proofs.Transaction.Endings

/-!
# The counts of transactions

A coordinator counts the transactions that begin and how often operations end, as committed or as
aborted. An end is counted whatever the transaction has come to (`Coordinator.Tallies`): only one
that is still active can be committed or meet a conflict, and it is not active afterwards, but every
further end of it is one more abort.

`Pool.concluded` lists the transactions whose ends are counted along a run of events, each as often
as that happens. There are as many of them as the counts say (`Pool.Counted`), so the counts stay
below that of the transactions begun as long as none is ended twice. Operations that run in
transactions of their own are runs of events too (`Attempt.Acts`), and if there are no others, all
transactions are counted when none is open (`Database.Transacts`).
-/

set_option autoImplicit false

namespace RunLedger

variable {σ α : Type}

/-! ### Single ends -/

namespace Transaction

theorem isActive_aborted (transaction : Transaction) (reason : String) :
    (transaction.aborted reason).isActive = false := by
  unfold aborted abort
  by_cases hcommitted : transaction.isCommitted = true
  · have hstatus : transaction.status = .committed := by simpa [isCommitted] using hcommitted
    simp [hcommitted, isActive, hstatus]
  · simp [hcommitted, isActive]

/-- Behind a commit a transaction is not active, however that ends. -/
theorem isActive_commitOrAbort (transaction : Transaction) (substrate : Substrate) :
    (transaction.commitOrAbort substrate).2.1.isActive = false := by
  by_cases hactive : transaction.status = .active
  · have hended := commitment_commit hactive substrate
    rw [commitOrAbort_of_active hactive]
    generalize transaction.commit substrate = ended at hended ⊢
    cases hended with
    | committed => rfl
    | dropped => rfl
    | refused => rfl
  · rw [commitOrAbort, commit_of_not_active hactive]
    dsimp only
    split
    · simp [isActive, hactive]
    · exact isActive_aborted ..

end Transaction

namespace Coordinator

/-- How many transactions were started, committed, aborted, and aborted for a conflict. -/
def counts (coordinator : Coordinator) : Nat × Nat × Nat × Nat :=
  (coordinator.started, coordinator.committed, coordinator.aborted, coordinator.conflicts)

theorem counts_eq_iff {coordinator after : Coordinator} :
    after.counts = coordinator.counts ↔
      after.started = coordinator.started ∧ after.committed = coordinator.committed ∧
        after.aborted = coordinator.aborted ∧ after.conflicts = coordinator.conflicts := by
  simp [counts]

theorem counts_release (coordinator : Coordinator) (version : Nat) :
    (coordinator.release version).counts = coordinator.counts := by
  unfold release
  split <;> rfl

/-- What the counts become when an operation in a transaction has ended. -/
inductive Tallies (coordinator : Coordinator) (transaction : Transaction) : Coordinator → Prop
  | committed (hactive : transaction.isActive = true) :
    Tallies coordinator transaction coordinator.countCommit
  | conflict (hactive : transaction.isActive = true) :
    Tallies coordinator transaction
      { coordinator.countAbort with conflicts := coordinator.conflicts + 1 }
  | aborted : Tallies coordinator transaction coordinator.countAbort

variable {coordinator after : Coordinator} {transaction : Transaction}

theorem Tallies.started (htallies : coordinator.Tallies transaction after) :
    after.started = coordinator.started := by
  cases htallies with
  | committed => rfl
  | conflict => rfl
  | aborted => rfl

/-- Every end is counted. -/
theorem Tallies.completed (htallies : coordinator.Tallies transaction after) :
    after.completed = coordinator.completed + 1 := by
  cases htallies with
  | committed =>
    simp only [Coordinator.completed, countCommit]
    omega
  | conflict => exact (Nat.add_assoc ..).symm
  | aborted => exact (Nat.add_assoc ..).symm

/-- A conflict is an abort, and a commit or conflict is the end of an active transaction. -/
theorem Tallies.once (htallies : coordinator.Tallies transaction after) :
    after.aborted + coordinator.conflicts ≥ coordinator.aborted + after.conflicts ∧
      after.committed + after.conflicts ≤
        coordinator.committed + coordinator.conflicts + if transaction.isActive then 1 else 0 := by
  cases htallies with
  | committed hactive =>
    simp only [countCommit, hactive, if_true]
    omega
  | conflict hactive =>
    simp only [countAbort, hactive, if_true]
    omega
  | aborted =>
    simp only [countAbort]
    omega

end Coordinator

namespace Database

theorem counts_release (database : Database) (transaction : Transaction) :
    (database.release transaction).coordinator.counts = database.coordinator.counts := by
  unfold release
  split
  · rfl
  · exact Coordinator.counts_release ..

/-- Every end of an operation is counted, and leaves its transaction not active. -/
theorem tallies_conclude (database : Database) (transaction : Transaction)
    (outcome : Except Failure α) :
    database.coordinator.Tallies transaction
        (database.conclude transaction outcome).2.2.coordinator ∧
      (database.conclude transaction outcome).2.1.isActive = false := by
  cases outcome with
  | error failure => exact ⟨.aborted, transaction.isActive_aborted _⟩
  | ok result =>
    have hinactive := transaction.isActive_commitOrAbort database.substrate
    unfold conclude commit
    by_cases hactive : transaction.status = .active
    · have hopen : transaction.isActive = true := by simp [Transaction.isActive, hactive]
      have hended := Transaction.commitment_commit hactive database.substrate
      rw [← Transaction.commitOrAbort_of_active hactive] at hended
      generalize transaction.commitOrAbort database.substrate = ended at hinactive hended ⊢
      cases hended with
      | committed => exact ⟨.committed hopen, hinactive⟩
      | refused => exact ⟨.aborted, hinactive⟩
      | dropped failure =>
        refine ⟨?_, hinactive⟩
        cases failure with
        | conflicts found => exact .conflict hopen
        | inactive inactivity => exact .aborted
        | outage cause => exact .aborted
    · obtain ⟨after, hrefused, -⟩ :=
        Transaction.commitOrAbort_of_not_active hactive database.substrate
      rw [hrefused] at hinactive ⊢
      exact ⟨.aborted, hinactive⟩

end Database

/-! ### Runs of events -/

namespace Pool

/-- Whether a transaction is there and active. -/
def isOpen (transaction? : Option Transaction) : Bool := transaction?.any (·.isActive)

/-- How many transactions are active. -/
def openCount (pool : Pool) : Nat := pool.transactions.countP isOpen

/-- The place of the transaction whose end an event counts. -/
def concludes? (pool : Pool) : Event → Option Nat
  | .handle place (.conclude _) => if (pool.transaction? place).isSome then some place else none
  | .handle _ (.call _) | .handle _ (.abort _) | .begin | .drop _ | .collect => none

/-- The places of the transactions whose ends are counted by events, each as often as that
happens. -/
def concluded (pool : Pool) : List Event → List Nat
  | [] => []
  | event :: rest => (pool.concludes? event).toList ++ (pool.step event).concluded rest

/-- The counts of a pool in which these places have been concluded: each transaction begun is
started, and each conclusion is one more that is completed. Among the transactions that are not open
any more, each has been committed or met a conflict once at most. -/
structure Counted (pool : Pool) (ended : List Nat) : Prop where
  started : pool.database.coordinator.started = pool.transactions.length
  completed : pool.database.coordinator.completed = ended.length
  conflicts : pool.database.coordinator.conflicts ≤ pool.database.coordinator.aborted
  once : pool.database.coordinator.committed + pool.database.coordinator.conflicts +
    pool.openCount ≤ pool.transactions.length
  places : ∀ place ∈ ended, place < pool.transactions.length

theorem counted_initial (substrate : Substrate) (config : Config) :
    (initial substrate config).Counted [] :=
  ⟨rfl, rfl, Nat.le_refl _, Nat.le_refl _, List.forall_mem_nil _⟩

variable {pool : Pool} {ended : List Nat} {place : Nat} {transaction : Transaction}

theorem lt_length_of_transaction? (hthere : pool.transaction? place = some transaction) :
    place < pool.transactions.length :=
  (List.getElem?_eq_some_iff.mp (getElem?_of_transaction? hthere)).1

theorem openCount_set (hthere : pool.transaction? place = some transaction)
    (after? : Option Transaction) :
    (pool.transactions.set place after?).countP isOpen + (if transaction.isActive then 1 else 0) =
      pool.openCount + if isOpen after? then 1 else 0 := by
  obtain ⟨hplace, hget⟩ := List.getElem?_eq_some_iff.mp (getElem?_of_transaction? hthere)
  have hopen : isOpen pool.transactions[place] = transaction.isActive := by rw [hget]; rfl
  rw [openCount, List.countP_set hplace, hopen]
  by_cases hactive : transaction.isActive = true
  · have hcounted : 0 < pool.transactions.countP isOpen :=
      List.countP_pos_iff.mpr ⟨_, List.getElem_mem hplace, hopen.trans hactive⟩
    simp only [hactive, if_true]
    omega
  · simp only [hactive, Bool.false_eq_true, if_false]
    omega

/-- Something is done to a transaction that does not open it, and nothing is counted. -/
theorem Counted.exchanged (hcounted : pool.Counted ended)
    (hthere : pool.transaction? place = some transaction) {database : Database}
    (hcounts : database.coordinator.counts = pool.database.coordinator.counts)
    {after? : Option Transaction} (hopen : isOpen after? = true → transaction.isActive = true) :
    Counted ⟨database, pool.transactions.set place after?⟩ ended := by
  obtain ⟨hstarted, hcommitted, haborted, hconflicts⟩ := Coordinator.counts_eq_iff.mp hcounts
  have hset := openCount_set hthere after?
  have honce := hcounted.once
  refine ⟨?_, ?_, ?_, ?_, ?_⟩
  · rw [hstarted, hcounted.started, List.length_set]
  · rw [Coordinator.completed, hcommitted, haborted]
    exact hcounted.completed
  · rw [hconflicts, haborted]
    exact hcounted.conflicts
  · show _ + _ + (pool.transactions.set place after?).countP isOpen ≤ _
    rw [hcommitted, hconflicts, List.length_set]
    by_cases hafter : isOpen after? = true
    · simp only [hafter, hopen hafter, if_true] at hset
      omega
    · simp only [hafter, Bool.false_eq_true, if_false] at hset
      omega
  · rw [List.length_set]
    exact hcounted.places

/-- A transaction is ended. -/
theorem Counted.recorded (hcounted : pool.Counted ended)
    (hthere : pool.transaction? place = some transaction) {database : Database}
    (htallies : pool.database.coordinator.Tallies transaction database.coordinator)
    {after : Transaction} (hinactive : after.isActive = false) :
    Counted ⟨database, pool.transactions.set place (some after)⟩ (ended ++ [place]) := by
  obtain ⟨hconflicts, honce⟩ := htallies.once
  have hset := openCount_set hthere (some after)
  have hbefore := hcounted.once
  refine ⟨?_, ?_, ?_, ?_, ?_⟩
  · rw [htallies.started, hcounted.started, List.length_set]
  · rw [htallies.completed, hcounted.completed, List.length_append, List.length_singleton]
  · have hfewer := hcounted.conflicts
    show database.coordinator.conflicts ≤ database.coordinator.aborted
    omega
  · show _ + _ + (pool.transactions.set place (some after)).countP isOpen ≤ _
    rw [List.length_set]
    have hclosed : isOpen (some after) = false := hinactive
    simp only [hclosed, Bool.false_eq_true, if_false] at hset
    show database.coordinator.committed + database.coordinator.conflicts + _ ≤ _
    omega
  · intro other hother
    rw [List.length_set]
    rcases List.mem_append.mp hother with hearlier | hnow
    · exact hcounted.places other hearlier
    · rw [List.mem_singleton.mp hnow]
      exact lt_length_of_transaction? hthere

theorem step_handle (hthere : pool.transaction? place = some transaction) (handling : Handling) :
    pool.step (.handle place handling) =
      ⟨(pool.database.handle transaction handling).2,
        pool.transactions.set place (some (pool.database.handle transaction handling).1)⟩ := by
  rw [step, hthere]

theorem step_drop (hthere : pool.transaction? place = some transaction) :
    pool.step (.drop place) =
      ⟨pool.database.release transaction, pool.transactions.set place none⟩ := by
  rw [step, hthere]

/-- A transaction begins, and is open. -/
theorem Counted.begun (hcounted : pool.Counted ended) : (pool.step .begin).Counted ended := by
  have hlength : (pool.step .begin).transactions.length = pool.transactions.length + 1 :=
    List.length_append
  have hopen : (pool.step .begin).openCount ≤ pool.openCount + 1 := by
    rw [openCount, step, List.countP_append]
    exact Nat.add_le_add_left List.countP_le_length _
  have honce := hcounted.once
  refine ⟨?_, hcounted.completed, hcounted.conflicts, ?_, fun place hplace ↦ ?_⟩
  · rw [hlength, ← hcounted.started]
    rfl
  · show pool.database.coordinator.committed + pool.database.coordinator.conflicts + _ ≤ _
    omega
  · rw [hlength]
    exact Nat.lt_add_right 1 (hcounted.places place hplace)

/-- Something is done to a transaction that is there. -/
theorem Counted.handled (hcounted : pool.Counted ended)
    (hthere : pool.transaction? place = some transaction) (handling : Handling) :
    (pool.step (.handle place handling)).Counted
      (ended ++ (pool.concludes? (.handle place handling)).toList) := by
  rw [step_handle hthere]
  cases handling with
  | call script =>
    rw [concludes?, Option.toList_none, List.append_nil]
    have hcounts : (pool.database.handle transaction (.call script)).2.coordinator.counts =
        pool.database.coordinator.counts := rfl
    refine hcounted.exchanged hthere hcounts fun hopen ↦ ?_
    have hactive : (script.run transaction pool.database.substrate).2.1.isActive = true := hopen
    rwa [Transaction.isActive, transaction.status_run script pool.database.substrate] at hactive
  | abort reason =>
    rw [concludes?, Option.toList_none, List.append_nil]
    refine hcounted.exchanged hthere rfl fun hopen ↦ ?_
    cases (transaction.isActive_aborted reason).symm.trans hopen
  | conclude outcome =>
    obtain ⟨htallies, hinactive⟩ := pool.database.tallies_conclude transaction outcome
    rw [concludes?, hthere, Option.isSome_some, if_pos rfl, Option.toList_some]
    exact hcounted.recorded hthere htallies hinactive

/-- One event. -/
theorem Counted.step (hcounted : pool.Counted ended) (event : Event) :
    (pool.step event).Counted (ended ++ (pool.concludes? event).toList) := by
  cases event with
  | begin =>
    rw [concludes?, Option.toList_none, List.append_nil]
    exact hcounted.begun
  | collect =>
    rw [concludes?, Option.toList_none, List.append_nil]
    exact ⟨hcounted.started, hcounted.completed, hcounted.conflicts, hcounted.once,
      hcounted.places⟩
  | drop place =>
    rw [concludes?, Option.toList_none, List.append_nil]
    cases hthere : pool.transaction? place with
    | none =>
      rw [Pool.step, hthere]
      exact hcounted
    | some transaction =>
      rw [step_drop hthere]
      exact hcounted.exchanged hthere (Database.counts_release ..) fun hopen ↦
        absurd hopen Bool.false_ne_true
  | handle place handling =>
    cases hthere : pool.transaction? place with
    | some transaction => exact hcounted.handled hthere handling
    | none =>
      have hnothing : pool.concludes? (.handle place handling) = none := by
        cases handling with
        | call => rfl
        | abort => rfl
        | conclude => rw [concludes?, hthere, Option.isSome_none, if_neg Bool.false_ne_true]
      rw [Pool.step, hthere, hnothing, Option.toList_none, List.append_nil]
      exact hcounted

theorem Counted.run (hcounted : pool.Counted ended) (events : List Event) :
    (pool.run events).Counted (ended ++ pool.concluded events) := by
  induction events generalizing pool ended with
  | nil =>
    rw [concluded, List.append_nil]
    exact hcounted
  | cons event rest ih =>
    rw [concluded, ← List.append_assoc]
    exact ih (hcounted.step event)

/-- If no end is counted twice, no more ends are counted than there are transactions. -/
theorem Counted.completed_le (hcounted : pool.Counted ended) (honce : ended.Nodup) :
    pool.database.coordinator.completed ≤ pool.database.coordinator.started := by
  have hplaces : ended ⊆ List.range pool.transactions.length := fun place hplace ↦
    List.mem_range.mpr (hcounted.places place hplace)
  have hlength := (List.subperm_of_subset honce hplaces).length_le
  rwa [List.length_range, ← hcounted.started, ← hcounted.completed] at hlength

theorem run_append (pool : Pool) (first second : List Event) :
    pool.run (first ++ second) = (pool.run first).run second :=
  List.foldl_append

end Pool

/-! ### Operations in transactions of their own -/

/-- What an operation does to its transaction and to its database is a run of events, whatever other
transactions are there. It may handle them too: `keeps` says which transactions are there if the
environment is as it is. -/
def Attempt.Acts (keeps : σ → List (Option Transaction) → Prop) (body : Attempt σ α) : Prop :=
  ∀ transaction database environment held, keeps environment held →
    let left := body transaction database environment
    ∃ events, let after := Pool.run ⟨database, held ++ [some transaction]⟩ events
      after.database = left.2.2.1 ∧ after.transaction? held.length = some left.2.1 ∧
        keeps left.2.2.2 (after.transactions.set held.length none)

/-- A script acts on its own transaction alone. -/
theorem Script.acts_toAttempt {keeps : σ → List (Option Transaction) → Prop}
    (hkeeps : ∀ environment held, keeps environment held → keeps environment (held ++ [none]))
    (script : Script Unit) : Attempt.Acts keeps script.toAttempt := by
  intro transaction database environment held hheld left
  have hthere : Pool.transaction? ⟨database, held ++ [some transaction]⟩ held.length =
      some transaction := by simp [Pool.transaction?]
  refine ⟨[.handle held.length (.call script)], ?_⟩
  rw [Pool.run, List.foldl_cons, List.foldl_nil, Pool.step_handle hthere]
  refine ⟨rfl, ?_, ?_⟩
  · simp [Pool.transaction?, left, Script.toAttempt, Database.handle]
  · show keeps environment (List.set (List.set (held ++ [some transaction]) _ _) _ none)
    rw [List.set_set]
    simpa using hkeeps environment held hheld

namespace Database

/-- How an operation has ended does not depend on its result. -/
theorem conclude_map (database : Database) (transaction : Transaction)
    (outcome : Except Failure α) :
    (database.conclude transaction (outcome.map fun _ ↦ ())).2 =
      (database.conclude transaction outcome).2 := by
  cases outcome with
  | error failure => rfl
  | ok result =>
    simp only [conclude, Except.map]
    generalize database.commit transaction = committed
    obtain ⟨answer, ended, after⟩ := committed
    cases answer <;> rfl

/-- An operation in a transaction of its own is a run of events if what it does there is one. -/
theorem exists_run_attempt {keeps : σ → List (Option Transaction) → Prop} {body : Attempt σ α}
    (hacts : body.Acts keeps) {pool : Pool} {environment : σ}
    (hkeeps : keeps environment pool.transactions) :
    ∃ events, (pool.run events).database = (pool.database.attempt body environment).2.1 ∧
      keeps (pool.database.attempt body environment).2.2 (pool.run events).transactions := by
  let place := pool.transactions.length
  let left := body pool.database.begin.1 pool.database.begin.2 environment
  obtain ⟨events, hdatabase, hthere, hafter⟩ :=
    hacts pool.database.begin.1 pool.database.begin.2 environment pool.transactions hkeeps
  have hbegun : (pool.step .begin) =
      ⟨pool.database.begin.2, pool.transactions ++ [some pool.database.begin.1]⟩ := rfl
  rw [← hbegun] at hdatabase hthere hafter
  let acted := (pool.step .begin).run events
  let concluded := acted.step (.handle place (.conclude (left.1.map fun _ ↦ ())))
  have hconcluded : concluded = ⟨(left.2.2.1.conclude left.2.1 left.1).2.2,
      acted.transactions.set place (some (left.2.2.1.conclude left.2.1 left.1).2.1)⟩ := by
    rw [← conclude_map]
    exact (Pool.step_handle hthere _).trans (by rw [hdatabase]; rfl)
  have hended : concluded.transaction? place =
      some (left.2.2.1.conclude left.2.1 left.1).2.1 := by
    rw [hconcluded, Pool.transaction?,
      List.getElem?_set_self (Pool.lt_length_of_transaction? hthere), Option.join_some]
  have hdropped := Pool.step_drop hended
  refine ⟨.begin :: events ++
    [.handle place (.conclude (left.1.map fun _ ↦ ())), .drop place], ?_⟩
  have hrun : pool.run (.begin :: events ++ [.handle place (.conclude (left.1.map fun _ ↦ ())),
      .drop place]) = concluded.step (.drop place) := Pool.run_append ..
  rw [hrun, hdropped, hconcluded]
  refine ⟨rfl, ?_⟩
  rw [List.set_set]
  exact hafter

theorem retrying_zero (database : Database) (body : Attempt σ α) (environment : σ) :
    database.retrying body 0 environment = database.attempt body environment := by
  unfold retrying
  generalize database.attempt body environment = attempted
  obtain ⟨outcome, after, environment⟩ := attempted
  cases outcome <;> rfl

/-- A call settles with its first attempt, or goes on behind it with an attempt less. -/
theorem retrying_succ (database : Database) (body : Attempt σ α) (left : Nat) (environment : σ) :
    database.retrying body (left + 1) environment = database.attempt body environment ∨
      database.retrying body (left + 1) environment =
        (database.attempt body environment).2.1.retrying body left
          (database.attempt body environment).2.2 := by
  rw [retrying.eq_def]
  generalize database.attempt body environment = attempted
  obtain ⟨outcome, after, environment⟩ := attempted
  cases outcome with
  | ok result => exact Or.inl rfl
  | error failure =>
    by_cases hconflict : failure.isConflict = true
    · exact Or.inr (if_pos hconflict)
    · exact Or.inl (if_neg hconflict)

/-- The same holds if it is tried again after conflicts. -/
theorem exists_run_retrying {keeps : σ → List (Option Transaction) → Prop} {body : Attempt σ α}
    (hacts : body.Acts keeps) (maxRetries : Nat) {pool : Pool} {environment : σ}
    (hkeeps : keeps environment pool.transactions) :
    ∃ events,
      (pool.run events).database = (pool.database.retrying body maxRetries environment).2.1 ∧
      keeps (pool.database.retrying body maxRetries environment).2.2
        (pool.run events).transactions := by
  induction maxRetries generalizing pool environment with
  | zero =>
    rw [retrying_zero]
    exact exists_run_attempt hacts hkeeps
  | succ left ih =>
    obtain ⟨events, hdatabase, hkept⟩ := exists_run_attempt hacts hkeeps
    rcases retrying_succ pool.database body left environment with hsettled | hagain
    · rw [hsettled]
      exact ⟨events, hdatabase, hkept⟩
    · rw [hagain, ← hdatabase]
      obtain ⟨more, hmore⟩ := ih hkept
      refine ⟨events ++ more, ?_⟩
      rw [Pool.run_append]
      exact hmore

/-! ### Nothing but such operations -/

/-- What becomes of a database on which all operations run in transactions of their own. In these
operations there may be further ones. -/
inductive Transacts : Database → Database → Prop
  /-- Nothing is counted. -/
  | aside {before after : Database}
    (hcounts : after.coordinator.counts = before.coordinator.counts) : Transacts before after
  | trans {before between after : Database} (hfirst : Transacts before between)
    (hsecond : Transacts between after) : Transacts before after
  /-- An operation is called, and tried again after conflicts. -/
  | call {σ α : Type} (body : Attempt σ α) (maxRetries : Nat) (environment : σ) {before : Database}
    (hbody : ∀ transaction database environment,
      Transacts database (body transaction database environment).2.2.1) :
    Transacts before (before.retrying body maxRetries environment).2.1

/-- As many transactions have been completed between two states as have been started. -/
def Balanced (before after : Database) : Prop :=
  after.coordinator.completed + before.coordinator.started =
    before.coordinator.completed + after.coordinator.started

theorem Balanced.trans {before between after : Database} (hfirst : Balanced before between)
    (hsecond : Balanced between after) : Balanced before after := by
  unfold Balanced at *
  omega

theorem balanced_of_counts {before after : Database}
    (hcounts : after.coordinator.counts = before.coordinator.counts) : Balanced before after := by
  obtain ⟨hstarted, hcommitted, haborted, -⟩ := Coordinator.counts_eq_iff.mp hcounts
  simp only [Balanced, Coordinator.completed, hstarted, hcommitted, haborted]

section

variable {body : Attempt σ α}
  (hbody : ∀ transaction database environment,
    Balanced database (body transaction database environment).2.2.1)

include hbody

/-- An attempt starts a transaction and completes it, and so do the attempts within it. -/
theorem balanced_attempt (database : Database) (environment : σ) :
    Balanced database (database.attempt body environment).2.1 := by
  let left := body database.begin.1 database.begin.2 environment
  obtain ⟨htallies, -⟩ := left.2.2.1.tallies_conclude left.2.1 left.1
  let ended := left.2.2.1.conclude left.2.1 left.1
  have hmeanwhile : Balanced database.begin.2 left.2.2.1 := hbody ..
  have hreleased : Balanced ended.2.2 (database.attempt body environment).2.1 :=
    balanced_of_counts (counts_release ended.2.2 ended.2.1)
  have hstarted : ended.2.2.coordinator.started = left.2.2.1.coordinator.started :=
    htallies.started
  have hcompleted : ended.2.2.coordinator.completed = left.2.2.1.coordinator.completed + 1 :=
    htallies.completed
  have hbegun : database.begin.2.coordinator.started = database.coordinator.started + 1 ∧
      database.begin.2.coordinator.completed = database.coordinator.completed := ⟨rfl, rfl⟩
  unfold Balanced at *
  omega

theorem balanced_retrying (maxRetries : Nat) (database : Database) (environment : σ) :
    Balanced database (database.retrying body maxRetries environment).2.1 := by
  induction maxRetries generalizing database environment with
  | zero =>
    rw [retrying_zero]
    exact balanced_attempt hbody database environment
  | succ left ih =>
    have hfirst := balanced_attempt hbody database environment
    rcases retrying_succ database body left environment with hsettled | hagain
    · rw [hsettled]
      exact hfirst
    · rw [hagain]
      exact hfirst.trans (ih ..)

end

theorem Transacts.balanced {before after : Database} (htransacts : Transacts before after) :
    Balanced before after := by
  induction htransacts with
  | aside hcounts => exact balanced_of_counts hcounts
  | trans _ _ hfirst hsecond => exact hfirst.trans hsecond
  | call body maxRetries environment _ hbody => exact balanced_retrying hbody maxRetries _ _

end Database

/-- Whatever happens to the transactions of a database, and whatever fails: those started are those
begun, and those completed are as many as ends of operations were counted, each of them for a
transaction that was begun. As long as no transaction is ended twice there are not more of these
than transactions. Conflicts are aborts, and a transaction counts once at most as committed or as a
conflict. Calls of operations in transactions of their own, tried again or not, are just such
events, and if there is nothing else, each call completes as many transactions as it starts. -/
theorem transactions_counted (substrate : Substrate) (config : Config)
    (events : List Pool.Event) :
    let pool := (Pool.initial substrate config).run events
    let concluded := (Pool.initial substrate config).concluded events
    let coordinator := pool.database.coordinator
    (coordinator.started = pool.transactions.length ∧
      coordinator.completed = concluded.length ∧
      ∀ place ∈ concluded, place < coordinator.started) ∧
    (concluded.Nodup → coordinator.completed ≤ coordinator.started) ∧
    coordinator.conflicts ≤ coordinator.aborted ∧
    coordinator.committed + coordinator.conflicts ≤ coordinator.started ∧
    (∀ {σ α : Type} (keeps : σ → List (Option Transaction) → Prop) (body : Attempt σ α),
      body.Acts keeps → ∀ maxRetries environment, keeps environment pool.transactions →
        ∃ more, (pool.run more).database =
            (pool.database.retrying body maxRetries environment).2.1 ∧
          keeps (pool.database.retrying body maxRetries environment).2.2
            (pool.run more).transactions) ∧
    ∀ after, pool.database.Transacts after →
      after.coordinator.completed + coordinator.started =
        coordinator.completed + after.coordinator.started := by
  intro pool concluded coordinator
  have hcounted : pool.Counted concluded := (Pool.counted_initial substrate config).run events
  refine ⟨⟨hcounted.started, hcounted.completed, ?_⟩, hcounted.completed_le, hcounted.conflicts,
    ?_, fun keeps body hacts maxRetries environment hkeeps ↦
      Database.exists_run_retrying hacts maxRetries hkeeps, fun after htransacts ↦
        htransacts.balanced⟩
  · intro place hplace
    show place < pool.database.coordinator.started
    rw [hcounted.started]
    exact hcounted.places place hplace
  · have honce := hcounted.once
    show pool.database.coordinator.committed + pool.database.coordinator.conflicts ≤
      pool.database.coordinator.started
    rw [hcounted.started]
    omega

/-- A transaction that is committed twice is started once, and counted as committed and as
aborted. -/
theorem recommitted_counted_twice :
    let events : List Pool.Event :=
      [.begin, .handle 0 (.conclude (.ok ())), .handle 0 (.conclude (.ok ()))]
    let coordinator :=
      ((Pool.initial (.reliable .empty) .standard).run events).database.coordinator
    coordinator.counts = (1, 1, 1, 0) ∧ ¬ coordinator.completed ≤ coordinator.started := by
  decide +kernel

end RunLedger
