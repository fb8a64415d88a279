import RunLedger.Proofs.Database.Reclaiming
import RunLedger.Proofs.Database.Untouched
import RunLedger.Proofs.Ledger.ScopeRemoval

/-!
# Removals leave nothing behind

A database that nobody else uses is `Database.Idle`: its store is tidy and no snapshot is read. An
operation by itself leaves it so (`Database.Idle.perform`), and if it succeeds without a change, the
collection behind it leaves just the live entries (`Database.Idle.settled_perform`).

The last batch of a drain is such an operation: it finds nothing, so it erases nothing. Whatever the
contents, a batch that finds something erases a key that was there (`Ledger.Dwindles`), so a drain
comes to that last batch. A removal that ends therefore leaves no entry of the keys that it has
erased (`commit_reclaims_below_horizon`).
-/

set_option autoImplicit false

namespace RunLedger

variable {α : Type}

/-! ### Operations by themselves -/

namespace Database

/-- The store is tidy, and nobody reads it. -/
structure Idle (database : Database) : Prop where
  tidy : database.substrate.store.Tidy
  counts : database.coordinator.Counts fun _ ↦ 0

variable {database : Database}

/-- A transaction that begins on an idle database is the only reader. -/
theorem Idle.counts_begin (hidle : database.Idle) {called : Database}
    (hcoordinator : called.coordinator = database.begin.2.coordinator) :
    called.coordinator.Counts fun version ↦ if version = database.version then 1 else 0 :=
  hcoordinator ▸ hidle.counts.begin database.version

/-- An attempt leaves an idle database idle. -/
theorem Idle.attempt (hidle : database.Idle) (script : Script α) :
    (database.attempt script.toAttempt ()).2.1.Idle := by
  obtain ⟨calls, outcome, transaction, called, hattempts, hcoordinator, hattempt⟩ :=
    database.exists_attempts_eq script
  have htidy : called.substrate.store.Tidy := hattempts.store ▸ hidle.tidy
  obtain ⟨-, ⟨hactive, -, -⟩, hsnapshot⟩ :=
    concludes_conclude hattempts.tracks.active called outcome
  rw [hattempt]
  refine ⟨?_, ?_⟩
  · rw [substrate_release]
    exact tidy_conclude htidy hattempts.tracks.disjoint outcome
  · have hcounts := (hidle.counts_begin hcoordinator).congr hactive
    have hrelease := @Coordinator.Counts.release _ _ hcounts database.version (by simp)
    unfold release
    rw [hsnapshot, hattempts.tracks.reading]
    refine ⟨fun version ↦ (hrelease.count version).trans ?_, hrelease.positive⟩
    by_cases hversion : version = database.version <;> simp [hversion]

/-- An attempt that has come to its result without a change leaves just the live entries. -/
theorem Idle.settled_attempt (hidle : database.Idle) {script : Script α} {result : α}
    (hquiet : script.Quiet (.ok result))
    (hdone : (database.attempt script.toAttempt ()).1 = .ok result) :
    (database.attempt script.toAttempt ()).2.1.substrate.store.Settled := by
  obtain ⟨calls, outcome, transaction, called, hattempts, hcoordinator, hattempt⟩ :=
    database.exists_attempts_eq script
  obtain ⟨hconcludes, -, -⟩ := concludes_conclude hattempts.tracks.active called outcome
  obtain rfl : outcome = .ok result := by
    rw [hattempts.ended] at hdone
    rw [hdone] at hconcludes
    cases hconcludes <;> rfl
  have htidy : called.substrate.store.Tidy := hattempts.store ▸ hidle.tidy
  have hreadOnly : transaction.isReadOnly = true :=
    hattempts.tracks.isReadOnly (hquiet calls hattempts.course.leads)
  have hhorizon : called.horizon = called.substrate.store.version := by
    refine (hidle.counts_begin hcoordinator).horizon_eq fun version hread ↦ ?_
    rw [hattempts.store]
    by_contra hother
    have hunread : ¬ version = database.version := hother
    simp [hunread] at hread
  have hcommit := Transaction.commitOrAbort_of_isReadOnly hattempts.tracks.active hreadOnly
    called.substrate
  have hsettled := @settled_commit called transaction htidy hreadOnly hattempts.tracks.disjoint
    hhorizon called.substrate.store.version (by unfold commit; rw [hcommit])
  rw [hattempt, substrate_release]
  unfold conclude
  unfold commit at hsettled ⊢
  rw [hcommit] at hsettled ⊢
  exact hsettled

/-- Retries, too, leave an idle database idle, and settled if nothing was changed in the end. -/
theorem Idle.transactRetrying (hidle : database.Idle) (policy : RetryPolicy) (script : Script α) :
    (database.transactRetrying policy script).2.Idle ∧
      ∀ result, (database.transactRetrying policy script).1 = .ok result →
        script.Quiet (.ok result) →
          (database.transactRetrying policy script).2.substrate.store.Settled := by
  obtain ⟨between, hbetween, hlast⟩ := @exists_last_attempt_of α Idle script
    (fun _ _ hbefore _ ↦ hbefore.attempt script) database hidle policy.maxRetries
  unfold Database.transactRetrying
  rw [hlast]
  exact ⟨hbetween.attempt script, fun result hdone hquiet ↦ hbetween.settled_attempt hquiet hdone⟩

end Database

namespace Ledger

/-! ### Batches on any contents -/

/-- On any contents a batch succeeds, it leaves fewer keys if it finds something, and it changes
nothing on its way to finding nothing. -/
structure Dwindles (batch : Script Nat) : Prop where
  plain : batch.Plain True fun _ ↦ True
  quiet : batch.Quiet (.ok 0)
  fewer : ∀ contents : Contents, ∃ found, (batch.perform contents).outcome = .ok found ∧
    (found ≠ 0 → (batch.perform contents).contents.size < contents.size)

end Ledger

namespace Runs

/-- The row of a key is removed whatever the key. -/
theorem exists_erases_removeRow (key : Key) (contents : Contents) :
    ∃ erased, Erases (removeRow key) contents () erased ∧ erased key := by
  unfold removeRow
  cases key.decodeRun with
  | error damage => exact ⟨_, erases_erase key contents, rfl⟩
  | ok run =>
    obtain ⟨program, id⟩ := run
    refine ⟨_, (erases_eraseAll _ contents).bind ((erases_readStem _ _).bind
      ((erases_eraseAll _ _).bind ((erases_erase _ _).bind (erases_erase key _)))), ?_⟩
    exact Or.inr (Or.inr (Or.inr (Or.inr rfl)))

theorem exists_erases_removeRows (keys : List Key) (contents : Contents) :
    ∃ erased, Erases (removeRows keys) contents () erased ∧ ∀ key ∈ keys, erased key := by
  induction keys generalizing contents with
  | nil => exact ⟨_, erases_pure () contents, List.forall_mem_nil _⟩
  | cons key rest ih =>
    obtain ⟨erased, hfirst, hkey⟩ := exists_erases_removeRow key contents
    obtain ⟨more, hrest, hkeys⟩ := ih ((removeRow key).perform contents).contents
    exact ⟨_, hfirst.bind hrest, List.forall_mem_cons.mpr
      ⟨Or.inl hkey, fun other hother ↦ Or.inr (hkeys other hother)⟩⟩

end Runs

namespace Ledger

/-- The batch that erases the first rows under a stem, and maybe more with each of them. -/
def sweeping (erase : List Key → Script Unit) (stem : Key) (size : Nat) : Script Nat := do
  let rows ← Script.readStem stem
  let keys := (rows.take size).map Prod.fst
  erase keys
  return keys.length

theorem dwindles_sweeping {erase : List Key → Script Unit} (hnil : erase [] = pure ())
    (herase : ∀ keys contents, ∃ erased, Runs.Erases (erase keys) contents () erased ∧
      ∀ key ∈ keys, erased key) {stem : Key} {size : Nat}
    (hplain : (sweeping erase stem size).Plain True fun _ ↦ True) :
    Dwindles (sweeping erase stem size) where
  plain := hplain
  quiet := by
    refine Script.Quiet.bind (Script.plain_readStem trivial stem).quiet fun rows ↦ ?_
    dsimp only
    cases hkeys : (rows.take size).map Prod.fst with
    | nil =>
      rw [hnil]
      exact Script.quiet_finish _ _
    | cons key rest => exact Script.quiet_bind_pure_of_ne (Nat.succ_ne_zero _)
  fewer contents := by
    let keys := ((contents.rowsUnder stem).take size).map Prod.fst
    obtain ⟨erased, herases, hkeys⟩ := herase keys contents
    have hscript : sweeping erase stem size = Script.readStem stem >>= fun rows ↦
        erase ((rows.take size).map Prod.fst) >>= fun _ ↦
          pure ((rows.take size).map Prod.fst).length := rfl
    have hbatch : Runs.Erases (sweeping erase stem size) contents keys.length
        fun key ↦ False ∨ erased key ∨ False := by
      rw [hscript]
      exact (Runs.erases_readStem stem contents).bind
        (herases.bind (Runs.erases_pure keys.length _))
    refine ⟨keys.length, hbatch.outcome, fun hfound ↦ ?_⟩
    obtain ⟨key, hkey⟩ := List.exists_mem_of_ne_nil keys (mt List.length_eq_zero_iff.mpr hfound)
    have hthere : contents.contains key = true := by
      have hrow : key ∈ (contents.rowsUnder stem).map Prod.fst :=
        (List.take_sublist size (contents.rowsUnder stem)).map Prod.fst |>.subset hkey
      exact ((contents.mem_keys_rowsUnder stem key).mp hrow).2
    have hgone : ((sweeping erase stem size).perform contents).contents.contains key = false := by
      rw [SortedMap.contains_eq, hbatch.get?_eq_none (Or.inr (Or.inl (hkeys key hkey)))]
      rfl
    exact SortedMap.size_add_length_le (List.nodup_cons.mpr ⟨List.not_mem_nil, .nil⟩)
      (List.forall_mem_singleton.mpr hthere) (List.forall_mem_singleton.mpr hgone)
      fun other hother ↦ ((hbatch.contains other).mp hother).1

theorem dwindles_runs (scope : Scope) (size : Nat) : Dwindles (Runs.removeBatch scope size) :=
  dwindles_sweeping rfl Runs.exists_erases_removeRows (Runs.plain_removeBatch scope size)

theorem dwindles_summaries (scope : Scope) (size : Nat) :
    Dwindles (Summaries.removeBatch scope size) :=
  dwindles_sweeping rfl
    (fun keys contents ↦ ⟨_, Runs.erases_eraseAll keys contents, fun _ hkey ↦ hkey⟩)
    (Summaries.plain_removeBatch scope size)

/-! ### Drains -/

variable {ledger : Ledger} {batch : Script Nat}

/-- A drain that is long enough ends with a batch that finds nothing, and leaves just the live
entries. -/
theorem Dwindles.settled_drainRounds (hdwindles : Dwindles batch) (hidle : ledger.database.Idle)
    {rounds : Nat} (hrounds : ledger.live.size < rounds) {count : Nat}
    (hdone : (drainRounds batch rounds ledger).1 = .ok count) :
    (drainRounds batch rounds ledger).2.database.Idle ∧
      (drainRounds batch rounds ledger).2.database.substrate.store.Settled := by
  induction rounds generalizing ledger count with
  | zero => exact absurd hrounds (Nat.not_lt_zero _)
  | succ rounds ih =>
    obtain ⟨expected, houtcome, hfewer⟩ := hdwindles.fewer ledger.live
    obtain ⟨hbetween, hsettled⟩ := hidle.transactRetrying ledger.config.retry batch
    obtain ⟨hperforms, -⟩ := Database.performs_transactRetrying hidle.tidy.wellFormed
      hdwindles.plain (fun failure hfailure ↦ by
        cases houtcome.symm.trans hfailure) ledger.config.retry
    rcases hbatch : ledger.perform batch with ⟨outcome, between⟩
    have hended : (ledger.database.transactRetrying ledger.config.retry batch).1 = outcome :=
      congrArg Prod.fst hbatch
    have hleft : (ledger.database.transactRetrying ledger.config.retry batch).2 =
        between.database := congrArg (Ledger.database ∘ Prod.snd) hbatch
    rw [hended, hleft] at hperforms hsettled
    rw [hleft] at hbetween
    cases hperforms with
    | @done found after hresult hlive hversion =>
      cases found with
      | zero =>
        rw [drainRounds, hbatch]
        exact ⟨hbetween, hsettled 0 rfl hdwindles.quiet⟩
      | succ more =>
        obtain rfl := Except.ok.inj (houtcome.symm.trans hresult)
        have hsmaller : between.live.size < ledger.live.size := by
          have hlive' : between.live = (batch.perform ledger.live).contents := hlive
          rw [hlive']
          exact hfewer (Nat.succ_ne_zero more)
        rw [drainRounds_of_found (Nat.succ_ne_zero more) hbatch] at hdone ⊢
        cases hrest : (drainRounds batch rounds between).1 with
        | error failure =>
          rw [hrest] at hdone
          cases hdone
        | ok found => exact ih hbetween (by omega) hrest
    | failed hfailure => cases houtcome.symm.trans hfailure
    | outage =>
      rw [drainRounds, hbatch] at hdone
      cases hdone

/-- A drain that ends leaves just the live entries. -/
theorem Dwindles.settled_drain (hdwindles : Dwindles batch) (hidle : ledger.database.Idle)
    {count : Nat} (hdone : (ledger.drain batch).1 = .ok count) :
    (ledger.drain batch).2.database.Idle ∧
      (ledger.drain batch).2.database.substrate.store.Settled :=
  hdwindles.settled_drainRounds hidle (Nat.lt_succ_of_le (Store.size_live_le _)) hdone

/-- A removal that ends leaves just the live entries. -/
theorem settled_removeScope (hidle : ledger.database.Idle) (scope : Scope) {count : Nat}
    (hdone : (ledger.removeScope scope).1 = .ok count) :
    (ledger.removeScope scope).2.database.substrate.store.Settled := by
  unfold removeScope at hdone ⊢
  rcases hruns : ledger.drain (Runs.removeBatch scope ledger.config.deleteBatchSize) with
    ⟨outcome, between⟩
  rw [hruns] at hdone
  cases outcome with
  | error failure => cases hdone
  | ok runs =>
    have hbetween := ((dwindles_runs scope ledger.config.deleteBatchSize).settled_drain hidle
      (congrArg Prod.fst hruns)).1
    rw [hruns] at hbetween
    rcases hsummaries : between.removeSummaries scope with ⟨outcome, after⟩
    dsimp only at hdone ⊢
    rw [hsummaries] at hdone
    cases outcome with
    | error failure => cases hdone
    | ok summaries =>
      have hafter := ((dwindles_summaries scope between.config.deleteBatchSize).settled_drain
        hbetween (congrArg Prod.fst hsummaries)).2
      have hleft : (between.drain (Summaries.removeBatch scope
          between.config.deleteBatchSize)).2 = after := congrArg Prod.snd hsummaries
      rw [hleft] at hafter
      rw [hsummaries]
      exact hafter

end Ledger

/-- An empty database with planned failures, before its first transaction. -/
def Pool.fresh (failsRead failsWrite : Nat → Bool) (config : Config) : Pool :=
  initial { Substrate.reliable .empty with failsRead, failsWrite } config

/-- Behind any events on a store that was empty, whatever is done to transactions and whatever
fails: a commit that succeeds leaves under each key at most one entry at or below the horizon, which
is the least version that is read or else that of the store, and no key whose only entry is a
tombstone there. If the commit changes nothing and reads at the version of the store, and no other
transaction is there, then just the live keys are left, with one entry each. So they are behind a
removal that ends while no transaction is there: of the keys that are not live, those it has erased
among them, nothing remains. -/
theorem commit_reclaims_below_horizon (failsRead failsWrite : Nat → Bool) (config : Config)
    (events : List Pool.Event) :
    let pool := (Pool.fresh failsRead failsWrite config).run events
    (∀ place transaction version ended database, pool.transaction? place = some transaction →
      pool.database.commit transaction = (.ok version, ended, database) →
        let after := database.substrate.store
        let horizon := pool.database.coordinator.horizon after.version
        (∀ key chain, after.chains.get? key = some chain →
          (chain.entries.filter fun entry ↦ entry.version ≤ horizon).length ≤ 1 ∧
            ∀ entry, chain.entries = [entry] → entry.version ≤ horizon →
              entry.isTombstone = false) ∧
        (transaction.isReadOnly = true → transaction.snapshot? = some pool.store.version →
          (∀ other, other ≠ place → pool.transaction? other = none) →
            after.keyCount = after.live.size ∧
              ∀ key chain, after.chains.get? key = some chain → chain.size = 1)) ∧
    ((∀ place, pool.transaction? place = none) →
      ∀ (settings : Config) (scope : Scope) (count : Nat) (ledger : Ledger),
        Ledger.removeScope ⟨pool.database, settings⟩ scope = (.ok count, ledger) →
          let after := ledger.database.substrate.store
          after.keyCount = after.live.size ∧
            (∀ key chain, after.chains.get? key = some chain → chain.size = 1) ∧
            ∀ key, after.live.get? key = none → after.chains.get? key = none) := by
  intro pool
  have htidy : pool.Tidy := (Pool.tidy_initial rfl config).run events
  have hsound : pool.Sound := (Pool.sound_initial _ config).run events
  refine ⟨fun place transaction version ended database hthere hcommit ↦ ?_,
    fun hnone settings scope count ledger hdone ↦ ?_⟩
  · have hseparate := htidy.separate place transaction hthere
    have hsucceeds : (pool.database.commit transaction).1 = .ok version := congrArg Prod.fst hcommit
    have hreclaimed := Database.reclaimed_commit htidy.store hseparate hsucceeds
    have hsettled (hreadOnly : transaction.isReadOnly = true)
        (hhorizon : pool.database.horizon = pool.store.version) :=
      Database.settled_commit htidy.store hreadOnly hseparate hhorizon hsucceeds
    dsimp only at hreclaimed hsettled ⊢
    rw [hcommit] at hreclaimed hsettled
    refine ⟨fun key chain hchain ↦ ?_, fun hreadOnly hcurrent halone ↦ ?_⟩
    · obtain ⟨hshadowed, hdead⟩ := hreclaimed key chain hchain
      exact ⟨hshadowed, hdead⟩
    · have hleft := hsettled hreadOnly (hsound.horizon_eq hthere hcurrent halone)
      exact ⟨hleft.keyCount_eq, fun key chain hchain ↦ (hleft key chain hchain).1⟩
  · have hidle : pool.database.Idle := ⟨htidy.store, hsound.counts_zero hnone⟩
    have hsettled := @Ledger.settled_removeScope ⟨pool.database, settings⟩ hidle scope count
      (congrArg Prod.fst hdone)
    rw [hdone] at hsettled
    exact ⟨hsettled.keyCount_eq, fun key chain hchain ↦ (hsettled key chain hchain).1,
      fun key hkey ↦ hsettled.chains_eq_none hkey⟩

/-- A key is written and deleted, and a reader of that begins. -/
def Pool.erasing : List Pool.Event :=
  working 0 (.write ⟨.run, []⟩ .empty) ++ working 1 (.erase ⟨.run, []⟩) ++ [.begin]

/-- A run is started. -/
def Pool.starting : List Pool.Event :=
  working 0 ((fun _ ↦ ()) <$> Runs.start ⟨nightly, firstNight, 1000, none, ∅, ∅⟩)

/-- The entries of a deleted key go when a reader of the last version commits, and those of a run
when a removal of its scope ends. -/
theorem commit_reclaims_below_horizon_erased :
    let erased := (Pool.fresh (fun _ ↦ false) (fun _ ↦ false) .standard).run Pool.erasing
    let started := (Pool.fresh (fun _ ↦ false) (fun _ ↦ false) .standard).run Pool.starting
    (∃ ended database, erased.database.commit (.onSnapshot 3 2) = (.ok 2, ended, database) ∧
      erased.store.keyCount = 1 ∧ database.substrate.store.keyCount = 0) ∧
    ∃ ledger, Ledger.removeScope ⟨started.database, .standard⟩ (.wholeNamespace "default") =
      (.ok 1, ledger) ∧ started.store.keyCount = 2 ∧
        ledger.database.substrate.store.chains.get? (Key.run nightly firstNight) = none := by
  intro erased started
  have hplaces : erased.transactions = [none, none, some (.onSnapshot 3 2)] := by decide +kernel
  have hreader : erased.transaction? 2 = some (.onSnapshot 3 2) := by
    rw [Pool.transaction?, hplaces]
    rfl
  have halone (other : Nat) (hother : other ≠ 2) : erased.transaction? other = none := by
    rw [Pool.transaction?, hplaces]
    rcases other with _ | _ | _ | more
    · rfl
    · rfl
    · exact absurd rfl hother
    · rfl
  have hnone (place : Nat) : started.transaction? place = none := by
    have hplace : started.transactions = [none] := by decide +kernel
    rw [Pool.transaction?, hplace]
    cases place <;> rfl
  obtain ⟨hcommit, hempty⟩ : (erased.database.commit (.onSnapshot 3 2)).1 = .ok 2 ∧
      (erased.database.commit (.onSnapshot 3 2)).2.2.substrate.store.live.size = 0 := by
    decide +kernel
  obtain ⟨hremoved, hgone⟩ :
      (Ledger.removeScope ⟨started.database, .standard⟩ (.wholeNamespace "default")).1 = .ok 1 ∧
      (Ledger.removeScope ⟨started.database, .standard⟩
        (.wholeNamespace "default")).2.database.substrate.store.live.get?
          (Key.run nightly firstNight) = none := by decide +kernel
  constructor
  · have hcurrent : Transaction.snapshot? (.onSnapshot 3 2) = some erased.store.version := by
      decide +kernel
    rcases hcommitted : erased.database.commit (.onSnapshot 3 2) with ⟨outcome, ended, database⟩
    rw [hcommitted] at hcommit hempty
    obtain rfl : outcome = .ok 2 := hcommit
    obtain ⟨-, hsettled⟩ := (commit_reclaims_below_horizon (fun _ ↦ false) (fun _ ↦ false)
      .standard Pool.erasing).1 2 (.onSnapshot 3 2) 2 ended database hreader hcommitted
    exact ⟨ended, database, rfl, by decide +kernel, (hsettled rfl hcurrent halone).1.trans hempty⟩
  · rcases hledger : Ledger.removeScope ⟨started.database, .standard⟩
      (.wholeNamespace "default") with ⟨outcome, ledger⟩
    rw [hledger] at hremoved hgone
    obtain rfl : outcome = .ok 1 := hremoved
    obtain ⟨-, -, hleft⟩ := (commit_reclaims_below_horizon (fun _ ↦ false) (fun _ ↦ false)
      .standard Pool.starting).2 hnone .standard (.wholeNamespace "default") 1 ledger hledger
    exact ⟨ledger, rfl, by decide +kernel, hleft _ hgone⟩

end RunLedger
