import RunLedger.Proofs.Transaction.Reads
import RunLedger.Transaction.Commit

/-!
# How a commit ends

An active transaction commits in one of three ways (`Transaction.Commits`): it buffers nothing and
the store stays as it is; every entry it read has the version it had, and its buffers are applied;
or it fails and the store stays as it is. `commits_commitOrAbort` says that there is no other way.
Buffers that are applied make of the live contents what the calls of the transaction make of them
(`Tracks.applied`).
-/

set_option autoImplicit false

namespace RunLedger

/-- A version behind another one is the next, unless the numbers have run out. -/
theorem nextVersion_eq {version : Nat} (hnext : version < nextVersion version) :
    nextVersion version = version + 1 := by
  have hle : (version + 1) % UInt64.size ≤ version + 1 := Nat.mod_le ..
  unfold nextVersion at *
  omega

namespace Transaction

/-! ### Validation -/

/-- Validation finds no conflict exactly if every entry has the version it was read at. -/
theorem conflictsOf_spec (reads : List (Key × Nat)) (substrate : Substrate) :
    substrate.OnlyRead (conflictsOf reads substrate).2 ∧
      ((∃ conflicts, (conflictsOf reads substrate).1 = .ok conflicts ∧
          (conflicts = [] ↔ ∀ read ∈ reads, substrate.store.newestVersion read.1 = read.2)) ∨
        ((∃ outage, (conflictsOf reads substrate).1 = .error outage) ∧
          ∃ serial, substrate.failsRead serial = true)) := by
  induction reads generalizing substrate with
  | nil => exact ⟨.refl substrate, Or.inl ⟨[], rfl, iff_of_true rfl (List.forall_mem_nil _)⟩⟩
  | cons read rest ih =>
    obtain ⟨key, readVersion⟩ := read
    obtain ⟨honly, hnewest⟩ := substrate.read_spec .plannedRead (·.newestVersion key)
    unfold conflictsOf Substrate.newestVersion
    revert honly hnewest
    generalize substrate.read .plannedRead (·.newestVersion key) = answered
    obtain ⟨answer, issued⟩ := answered
    rintro honly (rfl | ⟨rfl, hfails⟩)
    · obtain ⟨honly', hrest⟩ := ih issued
      rw [honly.store, honly.failsRead] at hrest
      dsimp only
      revert honly' hrest
      generalize conflictsOf rest issued = answered
      obtain ⟨answer, issued'⟩ := answered
      rintro honly' (⟨conflicts, rfl, hconflicts⟩ | ⟨⟨outage, rfl⟩, hfails⟩)
      · refine ⟨honly.trans honly', Or.inl ⟨_, rfl, ?_⟩⟩
        rw [List.forall_mem_cons, ← hconflicts]
        split
        · rename_i hsame
          exact (and_iff_right hsame).symm
        · rename_i hchanged
          exact iff_of_false (List.cons_ne_nil _ _) fun hboth ↦ hchanged hboth.1
      · exact ⟨honly.trans honly', Or.inr ⟨⟨outage, rfl⟩, hfails⟩⟩
    · exact ⟨honly, Or.inr ⟨⟨_, rfl⟩, hfails⟩⟩

/-- The conflicts of a transaction that buffers something are those of its reads. -/
theorem conflicts_spec (transaction : Transaction) (substrate : Substrate) :
    substrate.OnlyRead (transaction.conflicts substrate).2 ∧
      ((∃ conflicts, (transaction.conflicts substrate).1 = .ok conflicts ∧
          (conflicts = [] ↔ (transaction.isReadOnly = false →
            ∀ key version, transaction.reads.get? key = some version →
              substrate.store.newestVersion key = version))) ∨
        ((∃ outage, (transaction.conflicts substrate).1 = .error outage) ∧
          ∃ serial, substrate.failsRead serial = true)) := by
  unfold conflicts
  split
  · rename_i hreadOnly
    refine ⟨.refl substrate, Or.inl ⟨[], rfl, iff_of_true rfl fun hbuffers ↦ ?_⟩⟩
    rw [hreadOnly] at hbuffers
    cases hbuffers
  · rename_i hbuffers
    obtain ⟨honly, ⟨conflicts, hanswer, hvalid⟩ | houtage⟩ :=
      conflictsOf_spec transaction.reads.toList substrate
    · refine ⟨honly, Or.inl ⟨conflicts, hanswer, hvalid.trans ⟨fun hsame _ key version hread ↦
        hsame (key, version) ((SortedMap.mem_toList_iff ..).mpr hread), fun hsame read hread ↦
          hsame (Bool.eq_false_iff.mpr hbuffers) read.1 read.2
            ((SortedMap.mem_toList_iff ..).mp hread)⟩⟩⟩
    · exact ⟨honly, Or.inr houtage⟩

theorem aborted_spec {transaction : Transaction} (hopen : transaction.isCommitted = false)
    (reason : String) :
    (transaction.aborted reason).isAborted = true ∧
      (transaction.aborted reason).snapshot? = transaction.snapshot? := by
  unfold aborted abort
  rw [hopen, if_neg Bool.false_ne_true]
  exact ⟨rfl, rfl⟩

/-- An active transaction is committed by its validation if nothing it read has changed, and else
aborted. -/
theorem validate_spec {transaction : Transaction} (hactive : transaction.status = .active)
    (substrate : Substrate) :
    substrate.OnlyRead (transaction.validate substrate).2.2 ∧
      (((transaction.validate substrate).1 = .ok () ∧
          (transaction.validate substrate).2.1 = { transaction with status := .committed } ∧
          (transaction.isReadOnly = false →
            ∀ key version, transaction.reads.get? key = some version →
              substrate.store.newestVersion key = version)) ∨
        (((∃ found, (transaction.validate substrate).1 = .error (.conflicts found)) ∧
              (∃ key version, transaction.reads.get? key = some version ∧
                substrate.store.newestVersion key ≠ version) ∨
            (∃ cause, (transaction.validate substrate).1 = .error (.outage cause)) ∧
              ∃ serial, substrate.failsRead serial = true) ∧
          (transaction.validate substrate).2.1.isAborted = true ∧
          (transaction.validate substrate).2.1.snapshot? = transaction.snapshot?)) := by
  have hbegin : transaction.beginValidation = .ok { transaction with status := .validating } := by
    simp [beginValidation, isActive, hactive]
  have haborted := @aborted_spec { transaction with status := .validating } rfl
  unfold validate
  rw [hbegin]
  dsimp only
  obtain ⟨honly, hconflicts⟩ :=
    conflicts_spec { transaction with status := .validating } substrate
  revert honly hconflicts
  generalize conflicts { transaction with status := .validating } substrate = answered
  obtain ⟨answer, issued⟩ := answered
  rintro honly (⟨conflicts, rfl, hvalid⟩ | ⟨⟨outage, rfl⟩, hfails⟩)
  · cases conflicts with
    | nil => exact ⟨honly, Or.inl ⟨rfl, rfl, hvalid.mp rfl⟩⟩
    | cons conflict rest =>
      have hchanged := mt hvalid.mpr (List.cons_ne_nil conflict rest)
      simp only [Classical.not_imp, Classical.not_forall] at hchanged
      obtain ⟨-, key, version, hread, hnewest⟩ := hchanged
      exact ⟨honly, Or.inr ⟨Or.inl ⟨⟨_, rfl⟩, key, version, hread, hnewest⟩, haborted _⟩⟩
  · exact ⟨honly, Or.inr ⟨Or.inr ⟨⟨outage, rfl⟩, hfails⟩, haborted _⟩⟩

/-! ### The ways of a commit -/

/-- The ways in which the commit of an active transaction ends, with the substrate behind it. -/
inductive Commits (transaction : Transaction) (before : Substrate) :
    Except CommitFailure Nat → Substrate → Prop
  | readOnly {after} (hreadOnly : transaction.isReadOnly = true)
    (honly : before.OnlyRead after) : Commits transaction before (.ok before.store.version) after
  | applied {after} (hreadOnly : transaction.isReadOnly = false)
    (hvalid : ∀ key version, transaction.reads.get? key = some version →
      before.store.newestVersion key = version)
    (happly : before.store.apply transaction.writes.toList transaction.deletes.keys
      (nextVersion before.store.version) = .ok after.store)
    (hfailsRead : after.failsRead = before.failsRead)
    (hfailsWrite : after.failsWrite = before.failsWrite) :
    Commits transaction before (.ok (nextVersion before.store.version)) after
  | conflicts {found after} (honly : before.OnlyRead after)
    (hchanged : ∃ key version, transaction.reads.get? key = some version ∧
      before.store.newestVersion key ≠ version) :
    Commits transaction before (.error (.conflicts found)) after
  | outage {cause after} (honly : before.OnlyRead after)
    (hfails : (∃ serial, before.failsRead serial = true ∨ before.failsWrite serial = true) ∨
      nextVersion before.store.version ≤ before.store.version) :
    Commits transaction before (.error (.outage cause)) after

/-- Applying the buffers changes the store by one commit, or fails. -/
theorem applyBuffers_spec (transaction : Transaction) (substrate : Substrate) (version : Nat) :
    (transaction.applyBuffers substrate version).2.failsRead = substrate.failsRead ∧
      (transaction.applyBuffers substrate version).2.failsWrite = substrate.failsWrite ∧
      (((transaction.applyBuffers substrate version).1 = .ok () ∧
          substrate.store.apply transaction.writes.toList transaction.deletes.keys version =
            .ok (transaction.applyBuffers substrate version).2.store) ∨
        ((∃ outage, (transaction.applyBuffers substrate version).1 = .error outage) ∧
          (transaction.applyBuffers substrate version).2.store = substrate.store ∧
          ((∃ serial, substrate.failsWrite serial = true) ∨
            version ≤ substrate.store.version))) := by
  unfold applyBuffers Substrate.apply
  by_cases hfails : substrate.failsWrite substrate.writeCount = true
  · rw [if_pos hfails]
    exact ⟨rfl, rfl, Or.inr ⟨⟨_, rfl⟩, rfl, Or.inl ⟨_, hfails⟩⟩⟩
  · rw [if_neg hfails]
    cases happly : substrate.store.apply transaction.writes.toList transaction.deletes.keys version
      with
    | ok store => exact ⟨rfl, rfl, Or.inl ⟨rfl, rfl⟩⟩
    | error outage =>
      refine ⟨rfl, rfl, Or.inr ⟨⟨outage, rfl⟩, rfl, Or.inr ?_⟩⟩
      unfold Store.apply at happly
      split at happly
      · assumption
      · cases happly

/-- An active transaction commits in one of the ways there are, and keeps its snapshot. -/
theorem commits_commitOrAbort {transaction : Transaction} (hactive : transaction.status = .active)
    (substrate : Substrate) :
    transaction.Commits substrate (transaction.commitOrAbort substrate).1
        (transaction.commitOrAbort substrate).2.2 ∧
      (transaction.commitOrAbort substrate).2.1.snapshot? = transaction.snapshot? := by
  unfold commitOrAbort commit
  obtain ⟨honly, hvalidate⟩ := validate_spec hactive substrate
  revert honly hvalidate
  generalize transaction.validate substrate = validated
  obtain ⟨answer, after, issued⟩ := validated
  rintro honly (⟨rfl, rfl, hvalid⟩ | ⟨hfailure, haborted, hsnapshot⟩)
  · dsimp only
    have hreadOnly : isReadOnly { transaction with status := .committed } =
        transaction.isReadOnly := rfl
    rw [hreadOnly]
    cases hbuffers : transaction.isReadOnly with
    | true =>
      rw [if_pos rfl, honly.store]
      exact ⟨.readOnly hbuffers honly, rfl⟩
    | false =>
      rw [if_neg Bool.false_ne_true]
      obtain ⟨hfailsRead, hfailsWrite, happly⟩ :=
        applyBuffers_spec { transaction with status := .committed } issued
          (nextVersion issued.store.version)
      rw [honly.store] at happly
      rw [honly.failsRead] at hfailsRead
      rw [honly.failsWrite] at hfailsWrite happly
      revert hfailsRead hfailsWrite happly
      rw [honly.store]
      generalize applyBuffers { transaction with status := .committed } issued
        (nextVersion substrate.store.version) = applied
      obtain ⟨answer, written⟩ := applied
      rintro hfailsRead hfailsWrite (⟨rfl, happly⟩ | ⟨⟨outage, rfl⟩, hstore, hfails⟩)
      · exact ⟨.applied hbuffers (hvalid hbuffers) happly hfailsRead hfailsWrite, rfl⟩
      · refine ⟨.outage ⟨hstore, hfailsRead, hfailsWrite⟩ ?_, rfl⟩
        exact hfails.imp_left fun ⟨serial, hserial⟩ ↦ ⟨serial, Or.inr hserial⟩
  · rcases hfailure with ⟨⟨found, rfl⟩, hchanged⟩ | ⟨⟨cause, rfl⟩, serial, hserial⟩
    · dsimp only
      rw [haborted, Bool.true_or, if_pos rfl]
      exact ⟨.conflicts honly hchanged, hsnapshot⟩
    · dsimp only
      rw [haborted, Bool.true_or, if_pos rfl]
      exact ⟨.outage honly (Or.inl ⟨serial, Or.inl hserial⟩), hsnapshot⟩

/-! ### What is applied -/

/-- If no key is both written and deleted, each key is buffered once. -/
theorem nodup_buffers {transaction : Transaction}
    (hdisjoint : ∀ key, transaction.writes.contains key = true →
      transaction.deletes.contains key = false) :
    (transaction.writes.toList.map Prod.fst ++ transaction.deletes.keys).Nodup := by
  refine List.nodup_append.mpr ⟨SortedMap.nodup_keys _, SortedMap.nodup_keys _,
    fun key hwritten other hdeleted hsame ↦ ?_⟩
  have hkept := hdisjoint key ((SortedMap.mem_keys_iff ..).mp hwritten)
  rw [hsame, (SortedMap.mem_keys_iff ..).mp hdeleted] at hkept
  cases hkept

/-- Buffers are applied under the next version, as the calls that filled them go over the live
contents. -/
theorem Tracks.applied {transaction : Transaction} {snapshot : Nat} {calls : List Call}
    (htracks : transaction.Tracks snapshot calls) {store written : Store}
    (hstore : store.WellFormed)
    (happly : store.apply transaction.writes.toList transaction.deletes.keys
      (nextVersion store.version) = .ok written) :
    written.WellFormed ∧ written.version = store.version + 1 ∧
      written.live = effectOf calls store.live := by
  refine ⟨hstore.apply happly (nodup_buffers htracks.disjoint), ?_, ?_⟩
  · exact (Store.version_apply happly).trans (nextVersion_eq (Store.apply_eq_ok happly).1)
  · rw [Store.live_apply hstore happly htracks.disjoint, htracks.buffers]

end Transaction

end RunLedger
