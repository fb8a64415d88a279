import Mathlib.Data.List.Perm.Subperm
import RunLedger.Ledger
import RunLedger.Proofs.Database.Alone
import RunLedger.Proofs.Ledger.Orderly

/-!
# Draining

A drain goes on with batches until one finds nothing. `Ledger.Drains` is this loop with no bound on
its length. `Ledger.drain` bounds it by the number of keys, and the bound is never reached
(`Sweeps.drained_drain`): a batch that finds something erases as many rows under its stem, and with
them at least one key that was there.

Each batch takes at most one version and leaves at least one key less than before if it takes one
(`Ledger.Sheds`), so a drain can run out of versions only if there are not as many left as keys.
-/

set_option autoImplicit false

namespace RunLedger

/-- A map that has lost some keys and gained none is smaller by as many. -/
theorem SortedMap.size_add_length_le {α β : Type} [Ord α] [Std.TransOrd α] [Std.LawfulEqOrd α]
    {before after : SortedMap α β} {lost : List α} (hlost : lost.Nodup)
    (hbefore : ∀ key ∈ lost, before.contains key = true)
    (hafter : ∀ key ∈ lost, after.contains key = false)
    (hgained : ∀ key, after.contains key = true → before.contains key = true) :
    after.size + lost.length ≤ before.size := by
  have hnodup : (after.keys ++ lost).Nodup := by
    refine List.nodup_append.mpr ⟨nodup_keys after, hlost, fun key hkey other hother hsame ↦ ?_⟩
    have hthere := (mem_keys_iff after key).mp hkey
    rw [hsame, hafter other hother] at hthere
    cases hthere
  have hsubset : after.keys ++ lost ⊆ before.keys := fun key hkey ↦ by
    rw [mem_keys_iff]
    rcases List.mem_append.mp hkey with hleft | hgone
    · exact hgained key ((mem_keys_iff after key).mp hleft)
    · exact hbefore key hgone
  have hlength := (hnodup.subperm hsubset).length_le
  rw [List.length_append] at hlength
  simpa only [keys, size, List.length_map] using hlength

/-- No more keys are live than have a chain. -/
theorem Store.size_live_le (store : Store) : store.live.size ≤ store.keyCount := by
  unfold SortedMap.size live liveAt
  rw [List.length_map]
  exact List.length_filterMap_le ..

namespace Ledger

/-- The values that a ledger holds. -/
def live (ledger : Ledger) : Contents := ledger.database.live

/-- The version of the last commit. -/
def version (ledger : Ledger) : Nat := ledger.database.version

/-- Batches one after the other until one finds nothing or fails, however many there are; the sum of
what they found. -/
inductive Drains (batch : Script Nat) : Ledger → Except Failure Nat → Ledger → Prop
  | failed {ledger failure after} (hbatch : ledger.perform batch = (.error failure, after)) :
    Drains batch ledger (.error failure) after
  | finished {ledger after} (hbatch : ledger.perform batch = (.ok 0, after)) :
    Drains batch ledger (.ok 0) after
  | more {ledger found between outcome after} (hfound : found ≠ 0)
    (hbatch : ledger.perform batch = (.ok found, between))
    (hrest : Drains batch between outcome after) :
    Drains batch ledger (outcome.map (found + ·)) after

/-! ### What batches leave -/

/-- A ledger has lost some keys that may go, and holds all else as before. It has used no more
versions than it has lost keys. -/
structure Sheds (gone : Key → Prop) (before after : Ledger) : Prop where
  config : after.config = before.config
  wellFormed : after.database.substrate.store.WellFormed
  orderly : after.live.Orderly
  kept : ∀ key, after.live.get? key = before.live.get? key ∨
    gone key ∧ after.live.get? key = none
  numbered : after.version + after.live.size ≤ before.version + before.live.size

variable {gone : Key → Prop} {before between after ledger : Ledger}

theorem Sheds.trans (hfirst : before.Sheds gone between) (hsecond : between.Sheds gone after) :
    before.Sheds gone after where
  config := hsecond.config.trans hfirst.config
  wellFormed := hsecond.wellFormed
  orderly := hsecond.orderly
  kept key := by
    rcases hsecond.kept key with hsame | hlost
    · rw [hsame]
      exact hfirst.kept key
    · exact Or.inr hlost
  numbered := Nat.le_trans hsecond.numbered hfirst.numbered

theorem Sheds.mono (hsheds : before.Sheds gone after) {more : Key → Prop}
    (hmore : ∀ key, gone key → more key) : before.Sheds more after where
  config := hsheds.config
  wellFormed := hsheds.wellFormed
  orderly := hsheds.orderly
  kept key := (hsheds.kept key).imp_right (And.imp_left (hmore key))
  numbered := hsheds.numbered

/-- Keys that are not to go are still there, so rows under a stem without such keys stay. -/
theorem Sheds.rowsUnder_eq (hsheds : before.Sheds gone after) {stem : Key}
    (hstem : ∀ key, gone key → key.startsWith stem = false) :
    after.live.rowsUnder stem = before.live.rowsUnder stem := by
  refine congrArg SortedMap.toList (SortedMap.ext_get? fun key ↦ ?_)
  rw [SortedMap.get?_filter, SortedMap.get?_filter]
  rcases hsheds.kept key with hsame | ⟨hgone, hlost⟩
  · rw [hsame]
  · rw [hlost, hstem key hgone]
    cases before.live.get? key <;> rfl

/-- The store has failed, as some access is planned to or as it may run out of versions. -/
def Outage (ledger : Ledger) (outcome : Except Failure Nat) : Prop :=
  (∃ cause, outcome = .error (.storeUnavailable cause)) ∧
    (ledger.database.MayFail ∨ UInt64.size ≤ ledger.version + ledger.live.size + 1)

theorem Sheds.outage (hsheds : before.Sheds gone after)
    (hplan : after.database.MayFail ↔ before.database.MayFail) {outcome : Except Failure Nat}
    (houtage : after.Outage outcome) : before.Outage outcome :=
  ⟨houtage.1, houtage.2.imp hplan.mp fun hsize ↦
    Nat.le_trans hsize (Nat.succ_le_succ hsheds.numbered)⟩

/-! ### Batches that sweep a stem -/

/-- A batch erases the first rows under a stem, up to a number, and tells how many there were. What
it erases besides may go too, and it erases nothing if there is no row. -/
structure Sweeps (batch : Script Nat) (stem : Key) (size : Nat) (gone : Key → Prop) : Prop where
  plain : batch.Plain True fun _ ↦ True
  erases : ∀ contents : Contents, contents.Orderly → ∃ erased : Key → Prop,
    Runs.Erases batch contents ((contents.rowsUnder stem).take size).length erased ∧
      (∀ key ∈ ((contents.rowsUnder stem).take size).map Prod.fst, erased key) ∧
      (∀ key, key.startsWith stem = true → erased key →
        key ∈ ((contents.rowsUnder stem).take size).map Prod.fst) ∧
      ∀ key, erased key → gone key ∧ contents.rowsUnder stem ≠ []
  orderly : ∀ contents : Contents, contents.Orderly → (batch.perform contents).contents.Orderly

section

variable {batch : Script Nat} {stem : Key} {size : Nat}

/-- What a batch does to contents that nobody else uses. -/
theorem Sweeps.of_perform (hsweeps : Sweeps batch stem size gone) {contents : Contents}
    (horderly : contents.Orderly) :
    let performance := batch.perform contents
    performance.outcome = .ok ((contents.rowsUnder stem).take size).length ∧
      performance.contents.rowsUnder stem = (contents.rowsUnder stem).drop size ∧
      performance.contents.size + ((contents.rowsUnder stem).take size).length ≤ contents.size ∧
      (∀ key, performance.contents.get? key = contents.get? key ∨
        gone key ∧ performance.contents.get? key = none) ∧
      ∀ key, Changed performance.calls key → contents.rowsUnder stem ≠ [] := by
  obtain ⟨erased, herases, htaken, honly, hgone⟩ := hsweeps.erases contents horderly
  have hkept (key : Key) : (batch.perform contents).contents.get? key = contents.get? key ∨
      gone key ∧ (batch.perform contents).contents.get? key = none := by
    by_cases hkey : erased key
    · exact Or.inr ⟨(hgone key hkey).1, herases.get?_eq_none hkey⟩
    · exact Or.inl (herases.get?_eq hkey)
  have hrows : ((contents.rowsUnder stem).map Prod.fst).Nodup := SortedMap.nodup_keys _
  refine ⟨herases.outcome, SortedMap.toList_eq_drop (fun key hkey ↦ ?_) fun key hkey ↦ ?_, ?_,
    hkept, fun key hchanged ↦ (hgone key ((herases.changed key).mp hchanged)).2⟩
  · rw [SortedMap.get?_filter, herases.get?_eq_none (htaken key hkey)]
    rfl
  · rw [SortedMap.get?_filter, SortedMap.get?_filter]
    by_cases hstem : key.startsWith stem = true
    · rw [herases.get?_eq (mt (honly key hstem) hkey)]
    · rw [Bool.not_eq_true] at hstem
      rw [hstem]
      cases (batch.perform contents).contents.get? key <;> cases contents.get? key <;> rfl
  · have hlength : (((contents.rowsUnder stem).take size).map Prod.fst).length =
        ((contents.rowsUnder stem).take size).length := List.length_map ..
    rw [← hlength]
    refine SortedMap.size_add_length_le ?_ (fun key hkey ↦ ?_) (fun key hkey ↦ ?_) fun key hkey ↦ ?_
    · rw [List.map_take]
      exact hrows.sublist (List.take_sublist ..)
    · rw [List.map_take] at hkey
      exact ((contents.mem_keys_rowsUnder stem key).mp (List.mem_of_mem_take hkey)).2
    · rw [SortedMap.contains_eq, herases.get?_eq_none (htaken key hkey)]
      rfl
    · exact ((herases.contains key).mp hkey).1

/-- A batch by itself finds the first rows and sheds them, or the store fails. -/
theorem Sweeps.perform (hsweeps : Sweeps batch stem size gone) (hsize : 1 ≤ size)
    (hstore : ledger.database.substrate.store.WellFormed) (horderly : ledger.live.Orderly) :
    ledger.Sheds gone (ledger.perform batch).2 ∧
      ((ledger.perform batch).2.database.MayFail ↔ ledger.database.MayFail) ∧
      (((ledger.perform batch).1 = .ok ((ledger.live.rowsUnder stem).take size).length ∧
          (ledger.perform batch).2.live.rowsUnder stem = (ledger.live.rowsUnder stem).drop size) ∨
        ledger.Outage (ledger.perform batch).1) := by
  obtain ⟨houtcome, hrows, hlength, hkept, hchanged⟩ := hsweeps.of_perform horderly
  have hafter := hsweeps.orderly ledger.live horderly
  have hsettled (failure : Failure)
      (hfailure : (batch.perform ledger.live).outcome = .error failure) :
      failure.isConflict = false := by
    rw [houtcome] at hfailure
    cases hfailure
  obtain ⟨hperforms, hsucceeds⟩ :=
    Database.performs_transactRetrying hstore hsweeps.plain hsettled ledger.config.retry
  unfold Ledger.perform
  revert hperforms hsucceeds
  generalize ledger.database.transactRetrying ledger.config.retry batch = ended
  obtain ⟨outcome, database⟩ := ended
  intro hperforms hsucceeds
  cases hperforms with
  | @done result after hresult hlive hversion =>
    obtain rfl := Except.ok.inj (houtcome.symm.trans hresult)
    let after : Ledger := { ledger with database }
    have hlive' : after.live = (batch.perform ledger.live).contents := hlive
    refine ⟨⟨rfl, hsucceeds.wellFormed, hlive' ▸ hafter, fun key ↦ hlive' ▸ hkept key, ?_⟩,
      hsucceeds.mayFail_iff, Or.inl ⟨rfl, hlive' ▸ hrows⟩⟩
    -- a version is used only where there was a row to erase
    have hversion' : after.version ≤
        ledger.version + ((ledger.live.rowsUnder stem).take size).length := by
      rcases hversion with hsame | ⟨hnext, key, hkey⟩
      · exact Nat.le_trans (Nat.le_of_eq hsame) (Nat.le_add_right _ _)
      · have hfound := List.length_pos_iff.mpr (hchanged key hkey)
        have hnext' : after.version = ledger.version + 1 := hnext
        rw [List.length_take]
        omega
    rw [← hlive'] at hlength
    change after.version + after.live.size ≤ _
    omega
  | failed hfailure hlive hversion => exact absurd (houtcome.symm.trans hfailure) nofun
  | @outage cause after hlive hversion hfails =>
    let after : Ledger := { ledger with database }
    have hlive' : after.live = ledger.live := hlive
    have hversion' : after.version = ledger.version := hversion
    refine ⟨⟨rfl, hsucceeds.wellFormed, hlive' ▸ horderly, fun key ↦ Or.inl (hlive' ▸ rfl), ?_⟩,
      hsucceeds.mayFail_iff, Or.inr ⟨⟨cause, rfl⟩, hfails.imp_right fun hsize ↦ ?_⟩⟩
    · change after.version + after.live.size ≤ _
      rw [hlive', hversion']
    · exact Nat.le_trans hsize (Nat.succ_le_succ (Nat.le_add_right _ _))

/-! ### Whole drains -/

/-- A drain has ended: it went through the loop to its end, and has found all rows under the stem
and left none of them, or the store has failed. -/
structure Drained (batch : Script Nat) (stem : Key) (gone : Key → Prop) (before : Ledger)
    (outcome : Except Failure Nat) (after : Ledger) : Prop where
  drains : Drains batch before outcome after
  sheds : before.Sheds gone after
  plan : after.database.MayFail ↔ before.database.MayFail
  ended : (outcome = .ok (before.live.rowsUnder stem).length ∧ after.live.rowsUnder stem = []) ∨
    before.Outage outcome

/-- A batch that finds something is followed by others. -/
theorem drainRounds_of_found {found rounds : Nat} (hfound : found ≠ 0)
    (hbatch : ledger.perform batch = (.ok found, between)) :
    drainRounds batch (rounds + 1) ledger =
      ((drainRounds batch rounds between).1.map (found + ·),
        (drainRounds batch rounds between).2) := by
  obtain ⟨found, rfl⟩ := Nat.exists_eq_succ_of_ne_zero hfound
  rcases hrest : drainRounds batch rounds between with ⟨outcome, after⟩
  cases outcome with
  | ok more => simp only [drainRounds, hbatch, hrest, Except.map]
  | error failure => simp only [drainRounds, hbatch, hrest, Except.map]

/-- As many batches as there are rows, and one more, are enough. -/
theorem Sweeps.drained_drainRounds (hsweeps : Sweeps batch stem size gone) (hsize : 1 ≤ size)
    (hstore : ledger.database.substrate.store.WellFormed) (horderly : ledger.live.Orderly)
    {rounds : Nat} (hrounds : (ledger.live.rowsUnder stem).length < rounds) :
    Drained batch stem gone ledger (drainRounds batch rounds ledger).1
      (drainRounds batch rounds ledger).2 := by
  induction rounds generalizing ledger with
  | zero => exact absurd hrounds (Nat.not_lt_zero _)
  | succ rounds ih =>
    obtain ⟨hsheds, hplan, hended⟩ := hsweeps.perform hsize hstore horderly
    rcases hbatch : ledger.perform batch with ⟨outcome, between⟩
    rw [hbatch] at hsheds hplan hended
    rcases hended with ⟨rfl, hleft⟩ | houtage
    · dsimp only at hsheds hplan hleft
      have hcount : (ledger.live.rowsUnder stem).length =
          ((ledger.live.rowsUnder stem).take size).length +
            (between.live.rowsUnder stem).length := by
        rw [hleft, ← List.length_append, List.take_append_drop]
      by_cases hfound : ((ledger.live.rowsUnder stem).take size).length = 0
      · -- the batch was the last one, as there was no row
        have hnone : ledger.live.rowsUnder stem = [] := by
          rw [List.length_take] at hfound
          exact List.length_eq_zero_iff.mp (by omega)
        rw [hfound] at hbatch
        rw [drainRounds, hbatch]
        refine ⟨.finished hbatch, hsheds, hplan, Or.inl ⟨by rw [hnone]; rfl, ?_⟩⟩
        exact hleft.trans (by rw [hnone, List.drop_nil])
      · have hrest := ih hsheds.wellFormed hsheds.orderly (by omega)
        rw [drainRounds_of_found hfound hbatch]
        refine ⟨.more hfound hbatch hrest.drains, hsheds.trans hrest.sheds,
          hrest.plan.trans hplan, ?_⟩
        rcases hrest.ended with ⟨houtcome, hempty⟩ | houtage
        · exact Or.inl ⟨by rw [houtcome, hcount]; rfl, hempty⟩
        · obtain ⟨⟨cause, houtcome⟩, hfails⟩ := hsheds.outage hplan houtage
          exact Or.inr ⟨⟨cause, by rw [houtcome]; rfl⟩, hfails⟩
    · obtain ⟨cause, rfl⟩ := houtage.1
      rw [drainRounds, hbatch]
      exact ⟨.failed hbatch, hsheds, hplan, Or.inr houtage⟩

/-- A drain is not cut short. -/
theorem Sweeps.drained_drain (hsweeps : Sweeps batch stem size gone) (hsize : 1 ≤ size)
    (hstore : ledger.database.substrate.store.WellFormed) (horderly : ledger.live.Orderly) :
    Drained batch stem gone ledger (ledger.drain batch).1 (ledger.drain batch).2 := by
  refine hsweeps.drained_drainRounds hsize hstore horderly (Nat.lt_succ_of_le ?_)
  calc (ledger.live.rowsUnder stem).length
    _ ≤ ledger.live.size := List.length_filter_le ..
    _ ≤ ledger.database.substrate.store.keyCount := Store.size_live_le _

end

end Ledger

end RunLedger
