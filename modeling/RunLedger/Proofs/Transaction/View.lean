import RunLedger.Proofs.Transaction.Evaluation
import RunLedger.Proofs.Transaction.Uses

/-!
# What a transaction reads

Whatever a transaction has done before, and whether it reads the store at all, what it reads is one
map: the contents of its snapshot behind its buffered writes and deletions (`Transaction.view`). In
an active transaction a plain script comes to what it comes to on that map, and the map is then what
the script leaves there; the only other end is the failure of a read that was planned to fail
(`Script.Plain.goes`).
-/

set_option autoImplicit false

namespace RunLedger

/-- An outcome is the expected one, or a read that was planned to fail has failed. -/
def Substrate.Gives {α : Type} (substrate : Substrate) (expected outcome : Except Failure α) :
    Prop :=
  outcome = expected ∨ (∃ cause, outcome = .error (.storeUnavailable cause)) ∧
    ∃ serial, substrate.failsRead serial = true

/-- While no read is planned to fail, the outcome is the expected one. -/
theorem Substrate.Gives.eq_of_reads {α : Type} {substrate : Substrate}
    {expected outcome : Except Failure α} (hgives : substrate.Gives expected outcome)
    (hreads : ∀ serial, substrate.failsRead serial = false) : outcome = expected := by
  rcases hgives with hexpected | ⟨-, serial, hfails⟩
  · exact hexpected
  · rw [hreads] at hfails
    cases hfails

namespace Transaction

/-- What the transaction reads: the contents of its snapshot, if it has one, behind its own writes
and deletions. -/
def view (transaction : Transaction) (store : Store) : Contents :=
  (transaction.snapshot?.elim ∅ store.liveAt).overlay transaction.writes transaction.deletes

variable {transaction : Transaction} {substrate : Substrate}

/-! ### Reading -/

/-- A read of an active transaction gives an answer, unless the store fails, and leaves the
transaction active with the same to read. -/
structure Sees {α : Type} (transaction : Transaction) (substrate : Substrate) (answer : α)
    (answered : Except Failure α × Transaction × Substrate) : Prop where
  active : answered.2.1.status = .active
  view : answered.2.1.view substrate.store = transaction.view substrate.store
  onlyRead : substrate.OnlyRead answered.2.2
  gives : substrate.Gives (.ok answer) answered.1

theorem sees_get (hactive : transaction.status = .active) (key : Key) :
    transaction.Sees substrate ((transaction.view substrate.store).get? key)
      (transaction.get substrate key) := by
  have hopen : (!transaction.isActive) = false := by simp [isActive, hactive]
  have hview : (transaction.view substrate.store).get? key = (transaction.writes.get? key).or
      (if transaction.deletes.contains key then none
        else (transaction.snapshot?.elim ∅ substrate.store.liveAt).get? key) :=
    SortedMap.get?_overlay ..
  have hsame (answer : Option Value) (hanswer : (transaction.view substrate.store).get? key = answer) :
      transaction.Sees substrate ((transaction.view substrate.store).get? key)
        (.ok answer, transaction, substrate) :=
    ⟨hactive, rfl, .refl substrate, Or.inl (by rw [hanswer])⟩
  unfold Transaction.get
  rw [hopen, if_neg Bool.false_ne_true]
  cases hwritten : transaction.writes.get? key with
  | some value =>
    rw [hwritten, Option.some_or] at hview
    exact hsame _ hview
  | none =>
  rw [hwritten, Option.none_or] at hview
  dsimp only
  split
  · rename_i hdeleted
    rw [if_pos hdeleted] at hview
    exact hsame _ hview
  · rename_i hkept
    rw [if_neg hkept] at hview
    cases hsnapshot : transaction.snapshot? with
    | none =>
      rw [hsnapshot] at hview
      exact hsame _ hview
    | some snapshot =>
      rw [hsnapshot, Option.elim_some, Store.get?_liveAt] at hview
      obtain ⟨honly, hread⟩ :=
        substrate.read_spec .plannedRead fun store ↦ store.get? key snapshot
      dsimp only
      unfold Substrate.get
      revert honly hread
      generalize substrate.read .plannedRead (fun store ↦ store.get? key snapshot) = answered
      obtain ⟨answer, issued⟩ := answered
      rintro honly (rfl | ⟨rfl, hfails⟩)
      · cases hfound : substrate.store.get? key snapshot with
        | some found =>
          rw [hfound, Option.map_some] at hview
          exact ⟨hactive, rfl, honly, Or.inl (congrArg Except.ok hview.symm)⟩
        | none =>
          -- the version behind an absent value is a read of its own
          rw [hfound, Option.map_none] at hview
          obtain ⟨honly', hread⟩ :=
            issued.read_spec .plannedRead fun store ↦ store.keyVersion key snapshot
          dsimp only
          unfold Substrate.keyVersion
          revert honly' hread
          generalize issued.read .plannedRead (fun store ↦ store.keyVersion key snapshot) = answered
          obtain ⟨answer, issued'⟩ := answered
          rintro honly' (rfl | ⟨rfl, serial, hfails⟩)
          · exact ⟨hactive, rfl, honly.trans honly', Or.inl (congrArg Except.ok hview.symm)⟩
          · exact ⟨hactive, rfl, honly.trans honly',
              Or.inr ⟨⟨_, rfl⟩, serial, honly.failsRead ▸ hfails⟩⟩
      · exact ⟨hactive, rfl, honly, Or.inr ⟨⟨_, rfl⟩, hfails⟩⟩

theorem sees_scan (hactive : transaction.status = .active) {inside : Key → Bool} {outage : Outage}
    {rows : Nat → Store → List (Key × VersionedValue)}
    (hrows : ∀ snapshot, (rows snapshot substrate.store).map (fun row ↦ (row.1, row.2.value)) =
      ((substrate.store.liveAt snapshot).filter fun key _ ↦ inside key).toList) :
    transaction.Sees substrate
      ((transaction.view substrate.store).filter fun key _ ↦ inside key).toList
      (transaction.scan substrate inside fun version ↦ substrate.read outage (rows version)) := by
  have hopen : (!transaction.isActive) = false := by simp [isActive, hactive]
  -- what is merged with the own writes is what the snapshot holds
  have hmerge {rows : List (Key × VersionedValue)} {issued : Substrate}
      (hrows : rows.map (fun row ↦ (row.1, row.2.value)) =
        ((transaction.snapshot?.elim ∅ substrate.store.liveAt).filter
          fun key _ ↦ inside key).toList) (honly : substrate.OnlyRead issued) :
      transaction.Sees substrate
        ((transaction.view substrate.store).filter fun key _ ↦ inside key).toList
        (.ok (transaction.merge rows (transaction.writes.filter fun key _ ↦ inside key).toList).1,
          (transaction.merge rows (transaction.writes.filter fun key _ ↦ inside key).toList).2,
          issued) := by
    obtain ⟨reads, hread⟩ := transaction.exists_reads_merge rows
      (transaction.writes.filter fun key _ ↦ inside key).toList
    rw [hread, transaction.fst_merge hrows]
    exact ⟨hactive, rfl, honly, Or.inl rfl⟩
  unfold Transaction.scan
  rw [hopen, if_neg Bool.false_ne_true]
  cases hsnapshot : transaction.snapshot? with
  | none =>
    rw [hsnapshot] at hmerge
    exact hmerge rfl (.refl substrate)
  | some snapshot =>
    rw [hsnapshot] at hmerge
    obtain ⟨honly, hread⟩ := substrate.read_spec outage (rows snapshot)
    dsimp only
    revert honly hread
    generalize substrate.read outage (rows snapshot) = answered
    obtain ⟨answer, issued⟩ := answered
    rintro honly (rfl | ⟨rfl, hfails⟩)
    · exact hmerge (hrows snapshot) honly
    · exact ⟨hactive, rfl, honly, Or.inr ⟨⟨_, rfl⟩, hfails⟩⟩

theorem sees_scanStem (hactive : transaction.status = .active) (stem : Key) :
    transaction.Sees substrate
      ((transaction.view substrate.store).filter fun key _ ↦ key.startsWith stem).toList
      (transaction.scanStem substrate stem) :=
  sees_scan hactive fun snapshot ↦ substrate.store.map_scanStem stem snapshot

theorem sees_scanRange (hactive : transaction.status = .active) (first last : Key) :
    transaction.Sees substrate
      ((transaction.view substrate.store).filter fun key _ ↦ Key.isBetween first last key).toList
      (transaction.scanRange substrate first last) :=
  sees_scan hactive fun snapshot ↦ substrate.store.map_scanRange first last snapshot

/-! ### Writing -/

theorem put_of_active (hactive : transaction.status = .active) (key : Key) (value : Value) :
    ∃ after, transaction.put key value = (.ok (), after) ∧ after.status = .active ∧
      ∀ store, after.view store = (transaction.view store).insert key value := by
  have hopen : (!transaction.isActive) = false := by simp [isActive, hactive]
  unfold Transaction.put
  rw [hopen, if_neg Bool.false_ne_true]
  refine ⟨_, rfl, hactive, fun store ↦ SortedMap.ext_get? fun other ↦ ?_⟩
  rw [view, SortedMap.get?_insert, view, SortedMap.get?_overlay, SortedMap.get?_overlay,
    SortedMap.get?_insert, SortedMap.contains_erase]
  simp only [Key.compare_eq_iff_eq]
  by_cases hother : other = key
  · simp [hother]
  · simp [hother, Ne.symm hother]

theorem delete_of_active (hactive : transaction.status = .active) (key : Key) :
    ∃ after, transaction.delete key = (.ok (), after) ∧ after.status = .active ∧
      ∀ store, after.view store = (transaction.view store).erase key := by
  have hopen : (!transaction.isActive) = false := by simp [isActive, hactive]
  unfold Transaction.delete
  rw [hopen, if_neg Bool.false_ne_true]
  refine ⟨_, rfl, hactive, fun store ↦ SortedMap.ext_get? fun other ↦ ?_⟩
  rw [view, SortedMap.get?_erase, view, SortedMap.get?_overlay, SortedMap.get?_overlay,
    SortedMap.get?_erase, SortedMap.contains_insert]
  simp only [Key.compare_eq_iff_eq]
  by_cases hother : other = key
  · simp [hother]
  · simp [hother, Ne.symm hother]

end Transaction

/-! ### Scripts -/

namespace Script

variable {α : Type} {transaction : Transaction} {substrate : Substrate}

/-- How a script went in an active transaction: as on some contents, and the transaction then reads
what the script leaves there, or it ended with the failure of a read. -/
structure Goes (script : Script α) (contents : Contents) (substrate : Substrate)
    (ran : Except Failure α × Transaction × Substrate) : Prop where
  active : ran.2.1.status = .active
  onlyRead : substrate.OnlyRead ran.2.2
  came : script.eval contents = (ran.1, ran.2.1.view substrate.store) ∨
    (∃ cause, ran.1 = .error (.storeUnavailable cause)) ∧ ∃ serial, substrate.failsRead serial = true

/-- A script goes on behind a read as it does on the answer. -/
theorem goes_of_sees {β : Type} {script : Script α} {next : Except Failure β → Script α} {answer : β}
    {answered : Except Failure β × Transaction × Substrate}
    (hsees : transaction.Sees substrate answer answered)
    (heval : script.eval (transaction.view substrate.store) =
      (next (.ok answer)).eval (transaction.view substrate.store))
    (hfailure : ∀ failure, next (.error failure) = .finish (.error failure))
    (hnext : ∀ {after : Transaction} {issued : Substrate}, after.status = .active →
      (next (.ok answer)).Goes (after.view issued.store) issued
        ((next (.ok answer)).run after issued)) :
    script.Goes (transaction.view substrate.store) substrate
      ((next answered.1).run answered.2.1 answered.2.2) := by
  obtain ⟨outcome, after, issued⟩ := answered
  obtain ⟨hactive, hview, honly, hgives⟩ := hsees
  dsimp only at hactive hview honly hgives
  rcases hgives with rfl | ⟨⟨cause, rfl⟩, hfails⟩
  · obtain ⟨hactive', honly', hcame⟩ := hnext hactive
    refine ⟨hactive', honly.trans honly', ?_⟩
    rw [heval, ← hview]
    rw [honly.store, honly.failsRead] at hcame
    exact hcame
  · rw [hfailure]
    exact ⟨hactive, honly, Or.inr ⟨⟨cause, rfl⟩, hfails⟩⟩

/-- In an active transaction a plain script comes to what it comes to on what the transaction
reads. -/
theorem Plain.goes {mayScan : Prop} {mayChange : Key → Prop} {script : Script α}
    (hplain : script.Plain mayScan mayChange) (hactive : transaction.status = .active)
    (substrate : Substrate) :
    script.Goes (transaction.view substrate.store) substrate (script.run transaction substrate) := by
  induction hplain generalizing transaction substrate with
  | finish outcome => exact ⟨hactive, .refl substrate, Or.inl rfl⟩
  | get hfailure _ ih =>
    exact goes_of_sees (Transaction.sees_get hactive _) rfl hfailure fun hafter ↦ ih _ hafter _
  | scanStem _ hfailure _ ih =>
    exact goes_of_sees (Transaction.sees_scanStem hactive _) rfl hfailure fun hafter ↦ ih _ hafter _
  | scanRange _ hfailure _ ih =>
    exact goes_of_sees (Transaction.sees_scanRange hactive _ _) rfl hfailure
      fun hafter ↦ ih _ hafter _
  | @put key value _ _ _ _ ih =>
    obtain ⟨after, hput, hafter, hview⟩ := Transaction.put_of_active hactive key value
    obtain ⟨hactive', honly, hcame⟩ := ih hafter substrate
    rw [run, hput]
    refine ⟨hactive', honly, ?_⟩
    rw [hview] at hcame
    exact hcame
  | @delete key _ _ _ _ ih =>
    obtain ⟨after, hdelete, hafter, hview⟩ := Transaction.delete_of_active hactive key
    obtain ⟨hactive', honly, hcame⟩ := ih hafter substrate
    rw [run, hdelete]
    refine ⟨hactive', honly, ?_⟩
    rw [hview] at hcame
    exact hcame

/-- A transaction that is not active refuses the access that a script begins with. -/
theorem run_read_bind_of_not_active (hinactive : transaction.status ≠ .active) (key : Key)
    (next : Option Value → Script α) :
    ((read key >>= next).run transaction substrate).1 = .error transaction.inactive := by
  have hclosed : (!transaction.isActive) = true := by simp [Transaction.isActive, hinactive]
  have hget : transaction.get substrate key =
      (.error transaction.inactive, transaction, substrate) := by
    rw [Transaction.get, if_pos hclosed]
  have hbind : (read key >>= next) = get key fun answer ↦ (finish answer).bind next := rfl
  rw [hbind, run, hget]
  rfl

end Script

end RunLedger
