import RunLedger.Proofs.Transaction.Validation

/-!
# Transactions in any status

What holds of a transaction whatever its status, when nothing is known of what it has done before.
Its reads leave the store as it is, and nothing moves it to another snapshot (`uses_run`). A commit
of a transaction that is not active is refused and changes nothing but the status
(`commitOrAbort_of_not_active`).
-/

set_option autoImplicit false

namespace RunLedger

theorem Substrate.onlyRead_of_read {α : Type} {substrate issued : Substrate} {outage : Outage}
    {answer : Store → α} {answered : Except Outage α}
    (hread : substrate.read outage answer = (answered, issued)) : substrate.OnlyRead issued := by
  have honly := (substrate.read_spec outage answer).1
  rwa [hread] at honly

namespace Transaction

/-- A use of a transaction in any status: the substrate is only read, and the transaction reads at
the version it read at before. -/
structure Uses (transaction : Transaction) (substrate : Substrate) (after : Transaction)
    (issued : Substrate) : Prop where
  onlyRead : substrate.OnlyRead issued
  snapshot? : after.snapshot? = transaction.snapshot?

theorem Uses.refl (transaction : Transaction) (substrate : Substrate) :
    transaction.Uses substrate transaction substrate :=
  ⟨.refl substrate, rfl⟩

theorem Uses.trans {first second third : Transaction} {before between after : Substrate}
    (hfirst : first.Uses before second between) (hsecond : second.Uses between third after) :
    first.Uses before third after :=
  ⟨hfirst.onlyRead.trans hsecond.onlyRead, hsecond.snapshot?.trans hfirst.snapshot?⟩

theorem uses_get (transaction : Transaction) (substrate : Substrate) (key : Key) :
    transaction.Uses substrate (transaction.get substrate key).2.1
      (transaction.get substrate key).2.2 := by
  unfold get
  -- what the buffers hold is answered without a read; behind that the value is read, and then its
  -- version if there is none
  split
  · exact .refl ..
  · split
    · exact .refl ..
    · split
      · exact .refl ..
      · split
        · exact .refl ..
        · split
          · rename_i hread
            exact ⟨Substrate.onlyRead_of_read hread, rfl⟩
          · rename_i hread
            exact ⟨Substrate.onlyRead_of_read hread, rfl⟩
          · rename_i hread
            split <;> rename_i hversion <;>
              exact ⟨(Substrate.onlyRead_of_read hread).trans
                (Substrate.onlyRead_of_read hversion), rfl⟩

/-- Of a transaction, looking under a key changes at most the versions it has read. -/
theorem exists_reads_get (transaction : Transaction) (substrate : Substrate) (key : Key) :
    ∃ reads, (transaction.get substrate key).2.1 = { transaction with reads } := by
  unfold get
  split
  · exact ⟨_, rfl⟩
  · split
    · exact ⟨_, rfl⟩
    · split
      · exact ⟨_, rfl⟩
      · split
        · exact ⟨_, rfl⟩
        · split
          · exact ⟨_, rfl⟩
          · exact ⟨_, rfl⟩
          · split <;> exact ⟨_, rfl⟩

theorem exists_reads_merge (transaction : Transaction) (rows : List (Key × VersionedValue))
    (own : List (Key × Value)) :
    ∃ reads, (transaction.merge rows own).2 = { transaction with reads } := by
  unfold merge
  dsimp only
  generalize rows.filter (fun row ↦ !transaction.deletes.contains row.1) = kept
  induction kept generalizing transaction with
  | nil => exact ⟨_, rfl⟩
  | cons row rest ih => exact ih (transaction.recordRead row.1 row.2.version)

/-- Of a transaction, a scan changes at most the versions it has read. -/
theorem exists_reads_scan (transaction : Transaction) (substrate : Substrate) (inside : Key → Bool)
    (rows : Nat → Except Outage (List (Key × VersionedValue)) × Substrate) :
    ∃ reads, (transaction.scan substrate inside rows).2.1 = { transaction with reads } := by
  unfold scan
  split
  · exact ⟨_, rfl⟩
  · split
    · exact transaction.exists_reads_merge []
        (transaction.writes.filter fun key _ ↦ inside key).toList
    · split
      · exact ⟨_, rfl⟩
      · exact transaction.exists_reads_merge _
          (transaction.writes.filter fun key _ ↦ inside key).toList

theorem snapshot?_merge (transaction : Transaction) (rows : List (Key × VersionedValue))
    (own : List (Key × Value)) :
    (transaction.merge rows own).2.snapshot? = transaction.snapshot? := by
  obtain ⟨reads, hmerge⟩ := transaction.exists_reads_merge rows own
  rw [hmerge]

theorem uses_scan (transaction : Transaction) (substrate : Substrate) (inside : Key → Bool)
    (outage : Outage) (rows : Nat → Store → List (Key × VersionedValue)) :
    transaction.Uses substrate
      (transaction.scan substrate inside fun version ↦ substrate.read outage (rows version)).2.1
      (transaction.scan substrate inside fun version ↦
        substrate.read outage (rows version)).2.2 := by
  have hmerge (rows : List (Key × VersionedValue)) := snapshot?_merge transaction rows
    (transaction.writes.filter fun key _ ↦ inside key).toList
  unfold scan
  split
  · exact .refl ..
  · split
    · exact ⟨.refl substrate, hmerge []⟩
    · split
      · rename_i hread
        exact ⟨Substrate.onlyRead_of_read hread, rfl⟩
      · rename_i hread
        exact ⟨Substrate.onlyRead_of_read hread, hmerge _⟩

theorem snapshot?_put (transaction : Transaction) (key : Key) (value : Value) :
    (transaction.put key value).2.snapshot? = transaction.snapshot? := by
  unfold put
  split <;> rfl

theorem snapshot?_delete (transaction : Transaction) (key : Key) :
    (transaction.delete key).2.snapshot? = transaction.snapshot? := by
  unfold delete
  split <;> rfl

theorem snapshot?_aborted (transaction : Transaction) (reason : String) :
    (transaction.aborted reason).snapshot? = transaction.snapshot? := by
  unfold aborted abort
  split
  · rename_i habort
    split at habort
    · cases habort
    · rw [← Except.ok.inj habort]
  · rfl

/-- A script only reads the store. -/
theorem uses_run {α : Type} (script : Script α) (transaction : Transaction)
    (substrate : Substrate) :
    transaction.Uses substrate (script.run transaction substrate).2.1
      (script.run transaction substrate).2.2 := by
  induction script generalizing transaction substrate with
  | finish outcome => exact .refl ..
  | get key next ih => exact (transaction.uses_get substrate key).trans (ih _ _ _)
  | scanStem stem next ih =>
    exact (transaction.uses_scan substrate _ _ fun version store ↦
      store.scanStem stem version).trans (ih _ _ _)
  | scanRange first last next ih =>
    exact (transaction.uses_scan substrate _ _ fun version store ↦
      store.scanRange first last version).trans (ih _ _ _)
  | put key value next ih =>
    exact Uses.trans ⟨.refl substrate, transaction.snapshot?_put key value⟩ (ih _ _ _)
  | delete key next ih =>
    exact Uses.trans ⟨.refl substrate, transaction.snapshot?_delete key⟩ (ih _ _ _)

/-- A transaction that is not active refuses to be committed. -/
theorem commit_of_not_active {transaction : Transaction} (hinactive : transaction.status ≠ .active)
    (substrate : Substrate) :
    transaction.commit substrate =
      (.error (.inactive (.validated transaction.id transaction.status)), transaction,
        substrate) := by
  have hbegin : transaction.beginValidation =
      .error (.inactive (.validated transaction.id transaction.status)) := by
    simp [beginValidation, isActive, hinactive]
  simp only [commit, validate, hbegin]

/-- The commit of a transaction that is not active changes nothing but its status. -/
theorem commitOrAbort_of_not_active {transaction : Transaction}
    (hinactive : transaction.status ≠ .active) (substrate : Substrate) :
    ∃ after, transaction.commitOrAbort substrate =
        (.error (.inactive (.validated transaction.id transaction.status)), after, substrate) ∧
      after.snapshot? = transaction.snapshot? := by
  rw [commitOrAbort, commit_of_not_active hinactive]
  dsimp only
  split
  · exact ⟨transaction, rfl, rfl⟩
  · exact ⟨_, rfl, snapshot?_aborted ..⟩

end Transaction

end RunLedger
