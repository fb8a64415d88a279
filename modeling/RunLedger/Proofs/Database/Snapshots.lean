import RunLedger.Database
import RunLedger.Proofs.Store.Live
import RunLedger.Proofs.Transaction.Validation

/-!
# Live snapshots and the ends of transactions

A coordinator counts the readers of each version (`Coordinator.Counts`), so no collection reaches
the snapshot of a live transaction: the horizon is at or below each version that has readers
(`Counts.horizon_le`) and at or below that of the store (`Counts.horizon_le_current`).

`Database.Concludes` lists the ways in which a transaction ends and what becomes of the store in
each of them; `concludes_conclude` says that there is no other way.
-/

set_option autoImplicit false

namespace RunLedger

/-! ### Readers of versions -/

namespace Coordinator

/-- The coordinator counts so many readers of each version, and forgets a version without any. -/
structure Counts (coordinator : Coordinator) (readers : Nat → Nat) : Prop where
  count : ∀ version, (coordinator.active.get? version).getD 0 = readers version
  positive : ∀ version count, coordinator.active.get? version = some count → 0 < count

variable {coordinator : Coordinator} {readers : Nat → Nat}

theorem Counts.congr {other : Coordinator} (hcounts : coordinator.Counts readers)
    (hactive : other.active = coordinator.active) : other.Counts readers :=
  ⟨hactive ▸ hcounts.count, hactive ▸ hcounts.positive⟩

theorem counts_initial : initial.Counts fun _ ↦ 0 :=
  ⟨fun _ ↦ rfl, fun _ _ hcount ↦ by cases hcount⟩

/-- A transaction that begins is one more reader. -/
theorem Counts.begin (hcounts : coordinator.Counts readers) (version : Nat) :
    (coordinator.begin version).2.Counts fun other ↦
      if other = version then readers other + 1 else readers other := by
  constructor
  · intro other
    simp only [Coordinator.begin, SortedMap.get?_insert, Nat.compare_eq_eq]
    split
    · rename_i hother
      rw [hother, Option.getD_some, hcounts.count]
    · exact hcounts.count other
  · intro other count hcount
    simp only [Coordinator.begin, SortedMap.get?_insert, Nat.compare_eq_eq] at hcount
    split at hcount
    · obtain rfl := Option.some.inj hcount
      exact Nat.succ_pos _
    · exact hcounts.positive other count hcount

/-- A transaction that is released is one reader less. -/
theorem Counts.release (hcounts : coordinator.Counts readers) {version : Nat}
    (hversion : 0 < readers version) :
    (coordinator.release version).Counts fun other ↦
      if other = version then readers other - 1 else readers other := by
  have hcount := hcounts.count version
  unfold Coordinator.release
  cases hreaders : coordinator.active.get? version with
  | none =>
    rw [hreaders, Option.getD_none] at hcount
    omega
  | some count =>
    rw [hreaders, Option.getD_some] at hcount
    have hpositive := hcounts.positive version count hreaders
    dsimp only
    split
    · rename_i hlast
      constructor
      · intro other
        simp only [SortedMap.get?_erase, Nat.compare_eq_eq, eq_comm (a := version)]
        split
        · rename_i hother
          subst hother
          simp only [Option.getD_none]
          omega
        · exact hcounts.count other
      · intro other left hleft
        simp only [SortedMap.get?_erase, Nat.compare_eq_eq] at hleft
        split at hleft
        · cases hleft
        · exact hcounts.positive other left hleft
    · rename_i hmore
      constructor
      · intro other
        simp only [SortedMap.get?_insert, Nat.compare_eq_eq]
        split
        · rename_i hother
          rw [hother, Option.getD_some, hcount]
        · exact hcounts.count other
      · intro other left hleft
        simp only [SortedMap.get?_insert, Nat.compare_eq_eq] at hleft
        split at hleft
        · obtain rfl := Option.some.inj hleft
          omega
        · exact hcounts.positive other left hleft

/-- The horizon is not above a version that is read. -/
theorem horizon_le_of_contains {version : Nat}
    (hread : coordinator.active.contains version = true) (current : Nat) :
    coordinator.horizon current ≤ version := by
  unfold horizon
  cases hleast : coordinator.active.keys.head? with
  | none =>
    have hmem := (SortedMap.mem_keys_iff ..).mpr hread
    rw [List.head?_eq_none_iff.mp hleast] at hmem
    cases hmem
  | some least =>
    rcases SortedMap.head?_keys_le hleast hread with rfl | hlt
    · exact Nat.le_refl _
    · exact Nat.le_of_lt (Nat.compare_eq_lt.mp hlt)

theorem Counts.contains (hcounts : coordinator.Counts readers) {version : Nat}
    (hversion : 0 < readers version) : coordinator.active.contains version = true := by
  have hcount := hcounts.count version
  rw [SortedMap.contains_eq]
  cases hreaders : coordinator.active.get? version with
  | none =>
    rw [hreaders, Option.getD_none] at hcount
    omega
  | some count => rfl

/-- The horizon is not above a version that has readers. -/
theorem Counts.horizon_le (hcounts : coordinator.Counts readers) {version : Nat}
    (hversion : 0 < readers version) (current : Nat) : coordinator.horizon current ≤ version :=
  horizon_le_of_contains (hcounts.contains hversion) current

theorem Counts.pos_of_contains (hcounts : coordinator.Counts readers) {version : Nat}
    (hread : coordinator.active.contains version = true) : 0 < readers version := by
  rw [SortedMap.contains_eq] at hread
  obtain ⟨count, hcount⟩ := Option.isSome_iff_exists.mp hread
  rw [← hcounts.count, hcount]
  exact hcounts.positive version count hcount

/-- Without readers above a version, the horizon is not above it either. -/
theorem horizon_le_of_readers {current : Nat}
    (hreaders : ∀ version, coordinator.active.contains version = true → version ≤ current) :
    coordinator.horizon current ≤ current := by
  unfold horizon
  cases hleast : coordinator.active.keys.head? with
  | none => exact Nat.le_refl _
  | some least =>
    have hmem : least ∈ coordinator.active.keys := List.mem_of_mem_head? (Option.mem_def.mpr hleast)
    exact hreaders least ((SortedMap.mem_keys_iff ..).mp hmem)

/-- If no version above that of the store has readers, the horizon is not above it either. -/
theorem Counts.horizon_le_current (hcounts : coordinator.Counts readers) {current : Nat}
    (hbounded : ∀ version, 0 < readers version → version ≤ current) :
    coordinator.horizon current ≤ current :=
  horizon_le_of_readers fun version hread ↦ hbounded version (hcounts.pos_of_contains hread)

end Coordinator

/-! ### Ends of transactions -/

namespace Database

variable {α : Type}

theorem substrate_release (database : Database) (transaction : Transaction) :
    (database.release transaction).substrate = database.substrate := by
  unfold release
  split <;> rfl

/-- Settings, planned failures and readers are as before. -/
structure SameReaders (before after : Database) : Prop where
  active : after.coordinator.active = before.coordinator.active
  failsRead : after.substrate.failsRead = before.substrate.failsRead
  failsWrite : after.substrate.failsWrite = before.substrate.failsWrite

/-- The ways in which an active transaction ends with the outcome of its script: how it ends for its
caller, and the database behind it. -/
inductive Concludes (database : Database) (transaction : Transaction) :
    Except Failure α → Except Failure α → Database → Prop
  /-- The script failed. -/
  | failed {failure after} (hstore : after.substrate.store = database.substrate.store) :
    Concludes database transaction (.error failure) (.error failure) after
  /-- The script changed nothing. -/
  | readOnly {result after} (hreadOnly : transaction.isReadOnly = true)
    (hcollected : Store.Collected (database.coordinator.horizon database.substrate.store.version)
      database.substrate.store after.substrate.store) :
    Concludes database transaction (.ok result) (.ok result) after
  /-- All that the script read is as it was, and its changes are applied. -/
  | committed {result after written} (hreadOnly : transaction.isReadOnly = false)
    (hvalid : ∀ key version, transaction.reads.get? key = some version →
      database.substrate.store.newestVersion key = version)
    (happly : database.substrate.store.apply transaction.writes.toList transaction.deletes.keys
      (nextVersion database.substrate.store.version) = .ok written)
    (hcollected : Store.Collected (database.coordinator.horizon written.version) written
      after.substrate.store) :
    Concludes database transaction (.ok result) (.ok result) after
  /-- Something that the script read has changed. -/
  | conflicts {result count after} (hstore : after.substrate.store = database.substrate.store)
    (hchanged : ∃ key version, transaction.reads.get? key = some version ∧
      database.substrate.store.newestVersion key ≠ version) :
    Concludes database transaction (.ok result) (.error (.writeConflict (.onReads count))) after
  /-- The store failed during the commit. -/
  | outage {result cause after} (hstore : after.substrate.store = database.substrate.store)
    (hfails : (∃ serial, database.substrate.failsRead serial = true ∨
        database.substrate.failsWrite serial = true) ∨
      nextVersion database.substrate.store.version ≤ database.substrate.store.version) :
    Concludes database transaction (.ok result) (.error (.storeUnavailable (.duringCommit cause)))
      after

theorem collect_collected (database : Database) :
    Store.Collected (database.coordinator.horizon database.substrate.store.version)
      database.substrate.store database.collect.2.substrate.store :=
  Store.collected_collect _ _

/-- An active transaction ends in one of the ways there are, and keeps its snapshot. -/
theorem concludes_conclude {transaction : Transaction} (hactive : transaction.status = .active)
    (database : Database) (outcome : Except Failure α) :
    database.Concludes transaction outcome (database.conclude transaction outcome).1
        (database.conclude transaction outcome).2.2 ∧
      database.SameReaders (database.conclude transaction outcome).2.2 ∧
      (database.conclude transaction outcome).2.1.snapshot? = transaction.snapshot? := by
  cases outcome with
  | error failure =>
    have hopen : transaction.isCommitted = false := by simp [Transaction.isCommitted, hactive]
    exact ⟨.failed rfl, ⟨rfl, rfl, rfl⟩, (Transaction.aborted_spec hopen _).2⟩
  | ok result =>
    obtain ⟨hcommits, hsnapshot⟩ :=
      Transaction.commits_commitOrAbort hactive database.substrate
    unfold conclude commit
    revert hcommits hsnapshot
    generalize transaction.commitOrAbort database.substrate = committed
    obtain ⟨answer, concluded, substrate⟩ := committed
    rintro hcommits hsnapshot
    cases hcommits with
    | readOnly hreadOnly honly =>
      refine ⟨.readOnly hreadOnly ?_, ⟨rfl, honly.failsRead, honly.failsWrite⟩, hsnapshot⟩
      rw [← honly.store]
      exact collect_collected
        { database with substrate, coordinator := database.coordinator.countCommit }
    | applied hreadOnly hvalid happly hfailsRead hfailsWrite =>
      exact ⟨.committed hreadOnly hvalid happly (collect_collected
        { database with substrate, coordinator := database.coordinator.countCommit }),
        ⟨rfl, hfailsRead, hfailsWrite⟩, hsnapshot⟩
    | conflicts honly hchanged =>
      exact ⟨.conflicts honly.store hchanged, ⟨rfl, honly.failsRead, honly.failsWrite⟩, hsnapshot⟩
    | outage honly hfails =>
      exact ⟨.outage honly.store hfails, ⟨rfl, honly.failsRead, honly.failsWrite⟩, hsnapshot⟩

end Database

end RunLedger
