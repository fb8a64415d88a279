import RunLedger.Proofs.Database.Pool
import RunLedger.Proofs.Store.Reclaiming

/-!
# Collections behind commits

The store of a database whose transactions come and go stays tidy (`Store.Tidy`): its chains are in
order, and it remembers all keys that may have something to reclaim. Each event of a pool keeps it
so, whatever is done to a transaction, as no transaction writes and deletes the same key
(`Transaction.Separate`). So a commit that succeeds leaves nothing behind that no reader at or above
its horizon needs (`Database.reclaimed_commit`).

A commit that changes nothing while no other transaction is there has the version of the store as
its horizon, if it reads at that version. It leaves just the live entries
(`Database.settled_commit`).
-/

set_option autoImplicit false

namespace RunLedger

/-- If nothing but the version of the store is read, it is the horizon. -/
theorem Coordinator.Counts.horizon_eq {coordinator : Coordinator} {readers : Nat → Nat}
    (hcounts : coordinator.Counts readers) {current : Nat}
    (honly : ∀ version, 0 < readers version → version = current) :
    coordinator.horizon current = current := by
  unfold horizon
  cases hleast : coordinator.active.keys.head? with
  | none => rfl
  | some least =>
    have hcontains : coordinator.active.contains least = true :=
      (SortedMap.mem_keys_iff ..).mp (List.mem_of_mem_head? (Option.mem_def.mpr hleast))
    obtain ⟨count, hcount⟩ := Option.isSome_iff_exists.mp hcontains
    refine honly least ?_
    rw [← hcounts.count, hcount]
    exact hcounts.positive least count hcount

/-! ### Buffers -/

namespace Transaction

/-- No key is both written and deleted. -/
def Separate (transaction : Transaction) : Prop :=
  ∀ key, transaction.writes.contains key = true → transaction.deletes.contains key = false

variable {transaction : Transaction}

theorem separate_onSnapshot (id version : Nat) : (onSnapshot id version).Separate :=
  fun _ hwritten ↦ by cases hwritten

/-- Buffers that are taken over or dropped. -/
structure Inherits (transaction after : Transaction) : Prop where
  writes : after.writes = transaction.writes ∨ after.writes = ∅
  deletes : after.deletes = transaction.deletes ∨ after.deletes = ∅

theorem Separate.inherit (hseparate : transaction.Separate) {after : Transaction}
    (hinherits : transaction.Inherits after) : after.Separate := by
  intro key hwritten
  rcases hinherits.writes with hwrites | hwrites
  · rcases hinherits.deletes with hdeletes | hdeletes
    · rw [hdeletes]
      exact hseparate key (hwrites ▸ hwritten)
    · rw [hdeletes]
      rfl
  · rw [hwrites] at hwritten
    cases hwritten

theorem Inherits.refl (transaction : Transaction) : transaction.Inherits transaction :=
  ⟨Or.inl rfl, Or.inl rfl⟩

theorem Inherits.trans {first second third : Transaction} (hfirst : first.Inherits second)
    (hsecond : second.Inherits third) : first.Inherits third := by
  obtain ⟨hwrites, hdeletes⟩ := hfirst
  obtain ⟨hwrites', hdeletes'⟩ := hsecond
  constructor
  · rcases hwrites' with h | h <;> rw [h] <;> first | exact hwrites | exact Or.inr rfl
  · rcases hdeletes' with h | h <;> rw [h] <;> first | exact hdeletes | exact Or.inr rfl

theorem inherits_get (transaction : Transaction) (substrate : Substrate) (key : Key) :
    transaction.Inherits (transaction.get substrate key).2.1 := by
  obtain ⟨reads, hget⟩ := transaction.exists_reads_get substrate key
  rw [hget]
  exact ⟨Or.inl rfl, Or.inl rfl⟩

theorem inherits_scan (transaction : Transaction) (substrate : Substrate) (inside : Key → Bool)
    (rows : Nat → Except Outage (List (Key × VersionedValue)) × Substrate) :
    transaction.Inherits (transaction.scan substrate inside rows).2.1 := by
  obtain ⟨reads, hscan⟩ := transaction.exists_reads_scan substrate inside rows
  rw [hscan]
  exact ⟨Or.inl rfl, Or.inl rfl⟩

/-- A key that is written is deleted no more. -/
theorem Separate.put (hseparate : transaction.Separate) (key : Key) (value : Value) :
    (transaction.put key value).2.Separate := by
  unfold Transaction.put
  split
  · exact hseparate
  · intro other hwritten
    dsimp only at hwritten ⊢
    rw [SortedMap.contains_erase]
    by_cases hother : key = other
    · rw [decide_eq_true (Key.compare_eq_iff_eq.mpr hother)]
      rfl
    · have hbefore : transaction.writes.contains other = true := by
        simpa [SortedMap.contains_insert, Key.compare_eq_iff_eq, Ne.symm hother] using hwritten
      rw [hseparate other hbefore, Bool.and_false]

/-- A key that is deleted is written no more. -/
theorem Separate.delete (hseparate : transaction.Separate) (key : Key) :
    (transaction.delete key).2.Separate := by
  unfold Transaction.delete
  split
  · exact hseparate
  · intro other hwritten
    dsimp only at hwritten ⊢
    obtain ⟨hother, hbefore⟩ : key ≠ other ∧ transaction.writes.contains other = true := by
      simpa [SortedMap.contains_erase, Key.compare_eq_iff_eq] using hwritten
    rw [SortedMap.contains_insert, hseparate other hbefore, Bool.or_false, decide_eq_false_iff_not,
      Key.compare_eq_iff_eq]
    exact hother.symm

theorem Separate.run {α : Type} (hseparate : transaction.Separate) (script : Script α)
    (substrate : Substrate) : (script.run transaction substrate).2.1.Separate := by
  induction script generalizing transaction substrate with
  | finish outcome => exact hseparate
  | get key next ih => exact ih _ (hseparate.inherit (inherits_get ..)) _
  | scanStem stem next ih | scanRange first last next ih =>
    exact ih _ (hseparate.inherit (inherits_scan ..)) _
  | put key value next ih => exact ih _ (hseparate.put key value) substrate
  | delete key next ih => exact ih _ (hseparate.delete key) substrate

theorem inherits_aborted (transaction : Transaction) (reason : String) :
    transaction.Inherits (transaction.aborted reason) := by
  unfold aborted abort
  split
  · rename_i habort
    split at habort
    · cases habort
    · rw [← Except.ok.inj habort]
      exact ⟨Or.inr rfl, Or.inr rfl⟩
  · exact .refl _

theorem inherits_validate (transaction : Transaction) (substrate : Substrate) :
    transaction.Inherits (transaction.validate substrate).2.1 := by
  have hmarked (status : Status) : transaction.Inherits { transaction with status } :=
    ⟨Or.inl rfl, Or.inl rfl⟩
  unfold validate beginValidation
  split
  · exact .refl _
  · rename_i hbegin
    split at hbegin
    · obtain rfl := Except.ok.inj hbegin
      split
      · exact (hmarked .validating).trans (inherits_aborted ..)
      · simp only [endValidation, if_true]
        exact hmarked .committed
      · exact (hmarked .validating).trans (inherits_aborted ..)
    · cases hbegin

theorem inherits_commitOrAbort (transaction : Transaction) (substrate : Substrate) :
    transaction.Inherits (transaction.commitOrAbort substrate).2.1 := by
  have hvalidate := inherits_validate transaction substrate
  have hcommit : transaction.Inherits (transaction.commit substrate).2.1 := by
    unfold commit
    revert hvalidate
    generalize transaction.validate substrate = validated
    obtain ⟨answer, validated, issued⟩ := validated
    intro hvalidate
    cases answer with
    | error failure => exact hvalidate
    | ok =>
      dsimp only
      split
      · exact hvalidate
      · split
        · exact hvalidate
        · exact hvalidate.trans ⟨Or.inl rfl, Or.inl rfl⟩
  unfold commitOrAbort
  revert hcommit
  generalize transaction.commit substrate = committed
  obtain ⟨answer, committed, issued⟩ := committed
  intro hcommit
  cases answer with
  | ok version => exact hcommit
  | error failure =>
    dsimp only
    split
    · exact hcommit
    · exact hcommit.trans (inherits_aborted ..)

end Transaction

/-! ### Commits -/

/-- The chains are in order, and the keys of those that may have something to reclaim are
remembered. -/
structure Store.Tidy (store : Store) : Prop where
  wellFormed : store.WellFormed
  remembers : store.Remembers

theorem Store.Tidy.collect {store : Store} (htidy : store.Tidy) (horizon : Nat) :
    (store.collect horizon).2.Tidy :=
  ⟨(collected_collect store horizon).wellFormed htidy.wellFormed, htidy.remembers.collect horizon⟩

theorem Store.Tidy.apply {store written : Store} (htidy : store.Tidy) {transaction : Transaction}
    (hseparate : transaction.Separate) {version : Nat}
    (happly : store.apply transaction.writes.toList transaction.deletes.keys version =
      .ok written) : written.Tidy :=
  ⟨htidy.wellFormed.apply happly (Transaction.nodup_buffers hseparate),
    htidy.remembers.apply happly⟩

namespace Database

variable {α : Type}

/-- The store that a commit of a transaction makes of another, as long as nothing is collected. -/
inductive Writes (transaction : Transaction) (store : Store) : Store → Prop
  | nothing (hreadOnly : transaction.isReadOnly = true) : Writes transaction store store
  | buffers {written} (hreadOnly : transaction.isReadOnly = false)
    (happly : store.apply transaction.writes.toList transaction.deletes.keys
      (nextVersion store.version) = .ok written) : Writes transaction store written

/-- A commit fails and leaves the store as it is, or it collects behind what it writes, at the least
version that is read or else at that of the store then. -/
theorem commit_spec (database : Database) (transaction : Transaction) :
    (∃ failure, (database.commit transaction).1 = .error failure ∧
      (database.commit transaction).2.2.substrate.store = database.substrate.store) ∨
    ∃ version written, (database.commit transaction).1 = .ok version ∧
      Writes transaction database.substrate.store written ∧
      (database.commit transaction).2.2.substrate.store =
        (written.collect (database.coordinator.horizon written.version)).2 := by
  by_cases hactive : transaction.status = .active
  · have hcommits := (Transaction.commits_commitOrAbort hactive database.substrate).1
    unfold commit
    revert hcommits
    generalize transaction.commitOrAbort database.substrate = committed
    obtain ⟨answer, concluded, substrate⟩ := committed
    intro hcommits
    cases hcommits with
    | readOnly hreadOnly honly =>
      refine Or.inr ⟨_, database.substrate.store, rfl, .nothing hreadOnly, ?_⟩
      rw [← honly.store]
      rfl
    | applied hreadOnly hvalid happly hfailsRead hfailsWrite =>
      exact Or.inr ⟨_, substrate.store, rfl, .buffers hreadOnly happly, rfl⟩
    | conflicts honly hchanged => exact Or.inl ⟨_, rfl, honly.store⟩
    | outage honly hfails => exact Or.inl ⟨_, rfl, honly.store⟩
  · obtain ⟨concluded, hcommit, -⟩ :=
      Transaction.commitOrAbort_of_not_active hactive database.substrate
    unfold commit
    rw [hcommit]
    exact Or.inl ⟨_, rfl, rfl⟩

/-- What a commit writes keeps the store tidy, and its version too if it writes nothing. -/
theorem Writes.tidy {transaction : Transaction} {store written : Store}
    (hwrites : Writes transaction store written) (htidy : store.Tidy)
    (hseparate : transaction.Separate) : written.Tidy := by
  cases hwrites with
  | nothing hreadOnly => exact htidy
  | buffers hreadOnly happly => exact htidy.apply hseparate happly

variable {database : Database} {transaction : Transaction}

theorem tidy_commit (htidy : database.substrate.store.Tidy) (hseparate : transaction.Separate) :
    (database.commit transaction).2.2.substrate.store.Tidy := by
  rcases database.commit_spec transaction with
    ⟨failure, -, hstore⟩ | ⟨version, written, -, hwrites, hstore⟩
  · rw [hstore]
    exact htidy
  · rw [hstore]
    exact (hwrites.tidy htidy hseparate).collect _

/-- Behind a commit that succeeds nothing is left that the readers at or above its horizon can do
without. -/
theorem reclaimed_commit (htidy : database.substrate.store.Tidy) (hseparate : transaction.Separate)
    {version : Nat} (hcommit : (database.commit transaction).1 = .ok version) :
    let after := (database.commit transaction).2.2.substrate.store
    after.Reclaimed (database.coordinator.horizon after.version) := by
  rcases database.commit_spec transaction with
    ⟨failure, hfailure, -⟩ | ⟨version, written, -, hwrites, hstore⟩
  · cases hfailure.symm.trans hcommit
  · obtain ⟨hwellFormed, hremembers⟩ := hwrites.tidy htidy hseparate
    dsimp only
    rw [hstore, (Store.collected_collect written _).version]
    exact hremembers.reclaimed_collect hwellFormed _

/-- If nothing is read below the version of the store, a commit that changes nothing leaves just
the live entries. -/
theorem settled_commit (htidy : database.substrate.store.Tidy)
    (hreadOnly : transaction.isReadOnly = true) (hseparate : transaction.Separate)
    (hhorizon : database.horizon = database.substrate.store.version) {version : Nat}
    (hcommit : (database.commit transaction).1 = .ok version) :
    (database.commit transaction).2.2.substrate.store.Settled := by
  have hversion : (database.commit transaction).2.2.substrate.store.version =
      database.substrate.store.version := by
    rcases database.commit_spec transaction with
      ⟨failure, hfailure, -⟩ | ⟨version, written, -, hwrites, hstore⟩
    · cases hfailure.symm.trans hcommit
    · rw [hstore, (Store.collected_collect written _).version]
      cases hwrites with
      | nothing => rfl
      | buffers hbuffers => cases hbuffers.symm.trans hreadOnly
  have hreclaimed := reclaimed_commit htidy hseparate hcommit
  refine (tidy_commit htidy hseparate).wellFormed.settled ?_
  dsimp only at hreclaimed
  rw [hversion] at hreclaimed ⊢
  exact hhorizon ▸ hreclaimed

theorem tidy_conclude (htidy : database.substrate.store.Tidy) (hseparate : transaction.Separate)
    (outcome : Except Failure α) :
    (database.conclude transaction outcome).2.2.substrate.store.Tidy := by
  cases outcome with
  | error failure => exact htidy
  | ok result =>
    have hcommit := tidy_commit htidy hseparate
    unfold conclude
    revert hcommit
    generalize database.commit transaction = committed
    obtain ⟨answer, concluded, after⟩ := committed
    cases answer <;> exact id

theorem separate_conclude (hseparate : transaction.Separate) (outcome : Except Failure α) :
    (database.conclude transaction outcome).2.1.Separate := by
  cases outcome with
  | error failure => exact hseparate.inherit (Transaction.inherits_aborted ..)
  | ok result =>
    have hinherits := Transaction.inherits_commitOrAbort transaction database.substrate
    unfold conclude commit
    revert hinherits
    generalize transaction.commitOrAbort database.substrate = committed
    obtain ⟨answer, concluded, substrate⟩ := committed
    intro hinherits
    cases answer <;> exact hseparate.inherit hinherits

theorem tidy_handle (htidy : database.substrate.store.Tidy) (hseparate : transaction.Separate)
    (handling : Handling) :
    (database.handle transaction handling).1.Separate ∧
      (database.handle transaction handling).2.substrate.store.Tidy := by
  cases handling with
  | call script =>
    have hstore := (Transaction.uses_run script transaction database.substrate).onlyRead.store
    refine ⟨hseparate.run script database.substrate, ?_⟩
    change (script.run transaction database.substrate).2.2.store.Tidy
    rw [hstore]
    exact htidy
  | conclude outcome => exact ⟨separate_conclude hseparate outcome, tidy_conclude htidy hseparate _⟩
  | abort reason => exact ⟨hseparate.inherit (Transaction.inherits_aborted ..), htidy⟩

end Database

/-! ### Pools -/

namespace Pool

/-- The store of a pool is tidy, and no transaction that is there writes and deletes the same
key. -/
structure Tidy (pool : Pool) : Prop where
  store : pool.store.Tidy
  separate : ∀ place transaction, pool.transaction? place = some transaction →
    transaction.Separate

theorem tidy_initial {substrate : Substrate} (hempty : substrate.store = .empty) (config : Config) :
    (initial substrate config).Tidy := by
  refine ⟨?_, fun place transaction hthere ↦ by cases hthere⟩
  change substrate.store.Tidy
  rw [hempty]
  exact ⟨Store.wellFormed_empty, Store.remembers_empty⟩

variable {pool : Pool}

/-- Whatever comes into the place of a transaction, the others are as they were. -/
theorem transaction?_set {place other : Nat} {database : Database}
    {after? : Option Transaction} {transaction : Transaction}
    (hthere : transaction? ⟨database, pool.transactions.set place after?⟩ other =
      some transaction) :
    after? = some transaction ∨ pool.transaction? other = some transaction := by
  unfold transaction? at hthere ⊢
  rw [List.getElem?_set] at hthere
  split at hthere
  · split at hthere
    · exact Or.inl hthere
    · cases hthere
  · exact Or.inr hthere

theorem Tidy.step (htidy : pool.Tidy) (event : Event) : (pool.step event).Tidy := by
  obtain ⟨hstore, hseparate⟩ := htidy
  cases event with
  | begin =>
    refine ⟨hstore, fun place transaction hthere ↦ ?_⟩
    unfold transaction? at hthere
    rw [Pool.step, List.getElem?_append] at hthere
    split at hthere
    · exact hseparate place transaction hthere
    · obtain rfl : pool.database.begin.1 = transaction := by
        rw [List.getElem?_singleton] at hthere
        split at hthere
        · exact Option.some.inj hthere
        · cases hthere
      exact Transaction.separate_onSnapshot pool.database.coordinator.nextId pool.store.version
  | collect => exact ⟨hstore.collect _, hseparate⟩
  | handle place handling =>
    rw [Pool.step]
    split
    · exact ⟨hstore, hseparate⟩
    · rename_i transaction hthere
      obtain ⟨hlatter, hafter⟩ :=
        Database.tidy_handle hstore (hseparate place transaction hthere) handling
      refine ⟨hafter, fun other latter hother ↦ ?_⟩
      rcases transaction?_set hother with hsame | hbefore
      · exact Option.some.inj hsame ▸ hlatter
      · exact hseparate other latter hbefore
  | drop place =>
    rw [Pool.step]
    split
    · exact ⟨hstore, hseparate⟩
    · refine ⟨?_, fun other latter hother ↦ ?_⟩
      · rw [Pool.store, Database.substrate_release]
        exact hstore
      · rcases transaction?_set hother with hdropped | hbefore
        · cases hdropped
        · exact hseparate other latter hbefore

theorem Tidy.run (htidy : pool.Tidy) (events : List Event) : (pool.run events).Tidy := by
  induction events generalizing pool with
  | nil => exact htidy
  | cons event rest ih => exact ih (htidy.step event)

/-- A transaction that is there alone and reads at the version of the store has it as the
horizon. -/
theorem Sound.horizon_eq (hsound : pool.Sound) {place : Nat} {transaction : Transaction}
    (hthere : pool.transaction? place = some transaction)
    (hcurrent : transaction.snapshot? = some pool.store.version)
    (halone : ∀ other, other ≠ place → pool.transaction? other = none) :
    pool.database.horizon = pool.store.version := by
  refine hsound.counts.horizon_eq fun version hread ↦ ?_
  obtain ⟨there?, hmem, hversion⟩ := List.mem_filterMap.mp (List.count_pos_iff.mp hread)
  obtain ⟨other, hother⟩ := List.mem_iff_getElem?.mp hmem
  have hfound : pool.transaction? other = there? := by
    rw [transaction?, hother]
    rfl
  by_cases hsame : other = place
  · subst hsame
    rw [← hfound, hthere] at hversion
    exact Option.some.inj (hversion.symm.trans hcurrent)
  · rw [← hfound, halone other hsame] at hversion
    cases hversion

/-- Where no transaction is there, none is counted. -/
theorem Sound.counts_zero (hsound : pool.Sound)
    (hnone : ∀ place, pool.transaction? place = none) :
    pool.database.coordinator.Counts fun _ ↦ 0 := by
  have hsnapshots : pool.snapshots = [] := by
    refine List.filterMap_eq_nil_iff.mpr fun there? hmem ↦ ?_
    obtain ⟨place, hplace⟩ := List.mem_iff_getElem?.mp hmem
    have hthere := hnone place
    rw [transaction?, hplace] at hthere
    obtain rfl : there? = none := hthere
    rfl
  have hcounts := hsound.counts
  rw [hsnapshots] at hcounts
  exact hcounts

end Pool

end RunLedger
