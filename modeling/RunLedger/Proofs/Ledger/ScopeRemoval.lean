import RunLedger.Proofs.Ledger.Draining

/-!
# Removal of a scope

A removal drains the runs of its scope, each with all that belongs to it, and then the summaries.
Both batches sweep their stem on orderly contents and leave orderly contents
(`Ledger.sweeps_runs`, `Ledger.sweeps_summaries`), so a removal that ends leaves no key in the scope
and every other key as it was (`Ledger.cleared_removeScope`). One that fails on the way has done a
part of this, and the next goes on from there: however often a removal has failed, the next one that
does not leaves the same (`removal_clears_scope`).
-/

set_option autoImplicit false

namespace RunLedger

/-! ### Runs with what belongs to them -/

/-- What belongs to a run of a scope is in the scope, and is no summary. -/
theorem Contents.Orderly.isIn_of_belongs {contents : Contents} (horderly : contents.Orderly)
    {scope : Scope} {program : ProgramId} {id : RunId} {key : Key}
    (hscope : scope.contains program = true) (hbelongs : contents.Belongs program id key) :
    key.IsIn scope ∧ key.family ≠ .workflowRun := by
  rcases hbelongs with rfl | ⟨status, rfl⟩ | rfl | ⟨hstem, hthere⟩
  · exact ⟨⟨.record program id, rfl, hscope⟩, show Family.run ≠ .workflowRun by decide⟩
  · exact ⟨⟨.indexed status program id, rfl, hscope⟩,
      show Family.runByStatus ≠ .workflowRun by decide⟩
  · exact ⟨⟨.token program id, rfl, hscope⟩, show Family.workflowToken ≠ .workflowRun by decide⟩
  · have hfamily : key.family = .nodeState := (Key.startsWith_iff.mp hstem).1
    obtain ⟨owner, ownerId, rfl | ⟨node, rfl⟩, -⟩ := horderly.progress key hthere (Or.inr hfamily)
    · cases hfamily
    · obtain ⟨rfl, rfl⟩ := Key.nodeState_startsWith_iff.mp hstem
      exact ⟨⟨.nodeState owner ownerId node, rfl, hscope⟩,
        show Family.nodeState ≠ .workflowRun by decide⟩

/-- Runs that go with all their progress leave none without a run. -/
theorem Contents.Removed.orderly {scope : Scope} {runs : List (ProgramId × RunId)}
    {before after : Contents} (hremoved : Contents.Removed scope runs before before after)
    (horderly : before.Orderly) : after.Orderly where
  consistent := hremoved.consistent horderly.consistent
  progress key hthere hkey := by
    obtain ⟨hold, hkept⟩ := hremoved.contains_of_contains hthere
    obtain ⟨program, id, hprogress, hrun⟩ := horderly.progress key hold hkey
    refine ⟨program, id, hprogress, ?_⟩
    have hstays : (program, id) ∉ runs := fun hmem ↦
      hkept _ hmem ((belongs_progress hprogress).mpr ⟨⟨rfl, rfl⟩, Or.inr hold⟩)
    rw [SortedMap.contains_eq, hremoved.get?_of_belongs belongs_run, if_neg hstays]
    exact hrun
  summaries key hthere := horderly.summaries key (hremoved.contains_of_contains hthere).1

namespace Ledger

/-- A batch of runs sweeps the stem of its scope. -/
theorem sweeps_runs (scope : Scope) (size : Nat) :
    Sweeps (Runs.removeBatch scope size) (Key.runsInScope scope) size fun key ↦
      key.IsIn scope ∧ key.family ≠ .workflowRun where
  plain := Runs.plain_removeBatch scope size
  erases contents horderly := by
    have hkeys : ((contents.rowsUnder (Key.runsInScope scope)).take size).map Prod.fst =
        (Runs.batch contents scope size).map fun run ↦ Key.run run.1 run.2 :=
      Runs.keys_batch horderly.consistent scope size
    have hlength : ((contents.rowsUnder (Key.runsInScope scope)).take size).length =
        (Runs.batch contents scope size).length := by
      simpa only [List.length_map] using congrArg List.length hkeys
    refine ⟨_, hlength ▸ Runs.erases_removeBatch horderly.consistent scope size, fun key hkey ↦ ?_,
      fun key hstem hbelongs ↦ ?_, fun key hbelongs ↦ ?_⟩
    · rw [hkeys] at hkey
      obtain ⟨run, hrun, rfl⟩ := List.mem_map.mp hkey
      exact ⟨run, hrun, Or.inl rfl⟩
    · obtain ⟨run, hrun, hkey⟩ := hbelongs
      have hfamily : key.family = .run := (Key.startsWith_iff.mp hstem).1
      rw [hkeys]
      rcases hkey with rfl | ⟨status, rfl⟩ | rfl | ⟨hstates, -⟩
      · exact List.mem_map_of_mem hrun
      · cases hfamily
      · cases hfamily
      · cases hfamily.symm.trans (Key.startsWith_iff.mp hstates).1
    · obtain ⟨⟨program, id⟩, hrun, hkey⟩ := hbelongs
      obtain ⟨record, -, rfl, rfl, hscope, hrow⟩ := Runs.mem_batch horderly.consistent hrun
      exact ⟨horderly.isIn_of_belongs hscope hkey, List.ne_nil_of_mem hrow⟩
  orderly contents horderly := by
    obtain ⟨-, htruthful, heffect⟩ := Script.leads_perform (Runs.removeBatch scope size) contents
    rw [heffect]
    exact (Runs.removed_of_calls horderly.consistent rfl fun key found? htook ↦
      htruthful.get?_of_took htook).orderly horderly

/-! ### Summaries -/

/-- A batch of summaries sweeps the stem of its scope. -/
theorem sweeps_summaries (scope : Scope) (size : Nat) :
    Sweeps (Summaries.removeBatch scope size) (Key.workflowRunsInScope scope) size fun key ↦
      key.IsIn scope ∧ key.family = .workflowRun where
  plain := Summaries.plain_removeBatch scope size
  erases contents horderly := by
    have hlisted (key : Key) (hkey : key ∈ Summaries.batch contents scope size) :
        key ∈ (contents.rowsUnder (Key.workflowRunsInScope scope)).map Prod.fst := by
      obtain ⟨row, hrow, rfl⟩ := List.mem_map.mp hkey
      exact List.mem_map_of_mem (List.mem_of_mem_take hrow)
    have hlength : (Summaries.batch contents scope size).length =
        ((contents.rowsUnder (Key.workflowRunsInScope scope)).take size).length :=
      List.length_map ..
    refine ⟨_, hlength ▸ Summaries.erases_removeBatch scope size contents, fun key hkey ↦ hkey,
      fun key _ hkey ↦ hkey, fun key hkey ↦ ⟨?_, ?_⟩⟩
    · obtain ⟨-, hfamily, hscope⟩ := (horderly.lists_summaries.mem_iff key).mp (hlisted key hkey)
      exact ⟨hscope, hfamily⟩
    · obtain ⟨row, hrow, -⟩ := List.mem_map.mp (hlisted key hkey)
      exact List.ne_nil_of_mem hrow
  orderly contents horderly := by
    have herases := Summaries.erases_removeBatch scope size contents
    have hsame (key : Key) (hfamily : key.family ≠ .workflowRun) :
        ((Summaries.removeBatch scope size).perform contents).contents.get? key =
          contents.get? key :=
      herases.get?_eq fun hkey ↦ hfamily (Summaries.startsWith_of_mem_batch hkey).2
    have hold (key : Key) (hkey :
        ((Summaries.removeBatch scope size).perform contents).contents.contains key = true) :
        contents.contains key = true := ((herases.contains key).mp hkey).1
    refine ⟨horderly.consistent.congr fun key hkey ↦ hsame key ?_, fun key hthere hkey ↦ ?_,
      fun key hthere hfamily ↦ horderly.summaries key (hold key hthere) hfamily⟩
    · rcases hkey with hfamily | hfamily
      all_goals
        rw [hfamily]
        decide
    · obtain ⟨program, id, hprogress, hrun⟩ := horderly.progress key (hold key hthere) hkey
      refine ⟨program, id, hprogress, ?_⟩
      rw [SortedMap.contains_eq, hsame _ (show Family.run ≠ .workflowRun by decide)]
      exact hrun

/-! ### Removals -/

/-- The loops of a removal one after the other, however long they take: first that of the runs and
then that of the summaries; the sum of what they found. -/
inductive Clears (scope : Scope) (before : Ledger) : Except Failure Nat → Ledger → Prop
  | failed {failure after}
    (hruns : Drains (Runs.removeBatch scope before.config.deleteBatchSize) before
      (.error failure) after) : Clears scope before (.error failure) after
  | more {runs between outcome after}
    (hruns : Drains (Runs.removeBatch scope before.config.deleteBatchSize) before
      (.ok runs) between)
    (hsummaries : Drains (Summaries.removeBatch scope before.config.deleteBatchSize) between
      outcome after) : Clears scope before (outcome.map (runs + ·)) after

/-- A removal has ended: it went through its loops to their end, and has counted the records and the
summaries of its scope and left nothing in it, or the store has failed. All else is as before. -/
structure Cleared (scope : Scope) (before : Ledger) (outcome : Except Failure Nat)
    (after : Ledger) : Prop where
  clears : before.Clears scope outcome after
  sheds : before.Sheds (Key.IsIn scope) after
  ended : (outcome = .ok ((before.live.rowsUnder (Key.runsInScope scope)).length +
        (before.live.rowsUnder (Key.workflowRunsInScope scope)).length) ∧
      ∀ key : Key, key.IsIn scope → after.live.get? key = none) ∨
    before.Outage outcome

/-- A key of one family does not begin as a stem of another. -/
theorem startsWith_eq_false_of_family {key stem : Key} (hfamily : key.family ≠ stem.family) :
    key.startsWith stem = false :=
  Bool.eq_false_iff.mpr fun hstem ↦ hfamily (Key.startsWith_iff.mp hstem).1

theorem cleared_removeScope {ledger : Ledger} (scope : Scope)
    (hsize : 1 ≤ ledger.config.deleteBatchSize)
    (hstore : ledger.database.substrate.store.WellFormed) (horderly : ledger.live.Orderly) :
    Cleared scope ledger (ledger.removeScope scope).1 (ledger.removeScope scope).2 := by
  have hruns :=
    (sweeps_runs scope ledger.config.deleteBatchSize).drained_drain hsize hstore horderly
  unfold removeScope
  rcases hdrain : ledger.drain (Runs.removeBatch scope ledger.config.deleteBatchSize) with
    ⟨outcome, between⟩
  rw [hdrain] at hruns
  have hshedRuns := hruns.sheds.mono fun key hgone ↦ hgone.1
  rcases hruns.ended with ⟨rfl, hnoRuns⟩ | houtage
  · have hconfig : between.config = ledger.config := hruns.sheds.config
    have hsummaries := (sweeps_summaries scope ledger.config.deleteBatchSize).drained_drain
      hsize hruns.sheds.wellFormed hruns.sheds.orderly
    unfold removeSummaries
    dsimp only
    rw [hconfig]
    rcases hlast : between.drain (Summaries.removeBatch scope ledger.config.deleteBatchSize) with
      ⟨outcome, after⟩
    rw [hlast] at hsummaries
    have hsheds := hshedRuns.trans (hsummaries.sheds.mono fun key hgone ↦ hgone.1)
    -- no summary has gone with the runs, and no record comes back with the summaries
    have hcount : between.live.rowsUnder (Key.workflowRunsInScope scope) =
        ledger.live.rowsUnder (Key.workflowRunsInScope scope) :=
      hruns.sheds.rowsUnder_eq fun key hgone ↦ startsWith_eq_false_of_family hgone.2
    have hstill : after.live.rowsUnder (Key.runsInScope scope) = [] := by
      refine (hsummaries.sheds.rowsUnder_eq fun key hgone ↦ startsWith_eq_false_of_family ?_).trans
        hnoRuns
      rw [hgone.2]
      exact show Family.workflowRun ≠ .run by decide
    have hended := hsummaries.ended
    rw [hcount] at hended
    rcases hended with ⟨rfl, hnoSummaries⟩ | houtage
    · refine ⟨.more hruns.drains hsummaries.drains, hsheds, Or.inl ⟨rfl, fun key hkey ↦ ?_⟩⟩
      exact Option.not_isSome_iff_eq_none.mp (Bool.eq_false_iff.mp
        (hsheds.orderly.contains_eq_false hstill hnoSummaries hkey))
    · have houtage' := hruns.sheds.outage hruns.plan houtage
      obtain ⟨cause, rfl⟩ := houtage.1
      exact ⟨.more hruns.drains hsummaries.drains, hsheds, Or.inr houtage'⟩
  · obtain ⟨cause, rfl⟩ := houtage.1
    exact ⟨.failed hruns.drains, hshedRuns, Or.inr houtage⟩

/-! ### Removals that fail and are called again -/

/-- Which reads of a store and which applications of writes are to fail, by their serial numbers. -/
structure FailurePlan where
  failsRead : Nat → Bool
  failsWrite : Nat → Bool

/-- A ledger whose store fails as a plan says from now on. -/
def under (plan : FailurePlan) (ledger : Ledger) : Ledger :=
  { ledger with
    database.substrate.failsRead := plan.failsRead
    database.substrate.failsWrite := plan.failsWrite }

/-- A ledger behind calls that remove a scope, each with a store that fails as its own plan says. -/
def removing (scope : Scope) (plans : List FailurePlan) (ledger : Ledger) : Ledger :=
  plans.foldl (fun ledger plan ↦ ((ledger.under plan).removeScope scope).2) ledger

/-- Calls that remove a scope take nothing else away, however they end. -/
theorem sheds_removing {ledger : Ledger} (scope : Scope)
    (hsize : 1 ≤ ledger.config.deleteBatchSize)
    (hstore : ledger.database.substrate.store.WellFormed) (horderly : ledger.live.Orderly)
    (plans : List FailurePlan) : ledger.Sheds (Key.IsIn scope) (ledger.removing scope plans) := by
  induction plans generalizing ledger with
  | nil => exact ⟨rfl, hstore, horderly, fun _ ↦ Or.inl rfl, Nat.le_refl _⟩
  | cons plan rest ih =>
    have hcall := (@cleared_removeScope (ledger.under plan) scope hsize hstore horderly).sheds
    have hfirst : ledger.Sheds (Key.IsIn scope) ((ledger.under plan).removeScope scope).2 :=
      ⟨hcall.config, hcall.wellFormed, hcall.orderly, hcall.kept, hcall.numbered⟩
    exact hfirst.trans (ih (hfirst.config ▸ hsize) hfirst.wellFormed hfirst.orderly)

end Ledger

/-- The database is one that operations of the ledger have made, in any order of events and whatever
has failed. -/
def Ledger.Reached (ledger : Ledger) : Prop :=
  ∃ (failsRead failsWrite : Nat → Bool) (config : Config) (events : List (Event Operation)),
    ledger.database =
      ((System.initial failsRead failsWrite config).run Operation.program events).database

theorem Ledger.reached_run (failsRead failsWrite : Nat → Bool) (config : Config)
    (events : List (Event Operation)) (settings : Config) :
    Ledger.Reached ⟨((System.initial failsRead failsWrite config).run Operation.program
      events).database, settings⟩ :=
  ⟨failsRead, failsWrite, config, events, rfl⟩

/-- On a database that operations have made, with no node state that has lost its run, a call that
removes a scope goes through its loops to their end, whatever calls for the same scope have failed
before and wherever they have. Unless the store fails, it counts the records of runs and the
summaries that it finds in the scope, and no key in the scope is left. All other keys hold what they
held before the first of the calls. The store fails only as planned, or if there are not as many
versions left as there were keys. -/
theorem removal_clears_scope {ledger : Ledger} (hreached : ledger.Reached)
    (hattached : ledger.live.Attached) (hsize : 1 ≤ ledger.config.deleteBatchSize) (scope : Scope)
    (earlier : List Ledger.FailurePlan) (plan : Ledger.FailurePlan) :
    let before := (ledger.removing scope earlier).under plan
    let outcome := (before.removeScope scope).1
    let after := (before.removeScope scope).2
    before.Clears scope outcome after ∧
      (∀ key : Key, ¬ key.IsIn scope → after.live.get? key = ledger.live.get? key) ∧
      ((∃ runs summaries, before.live.Lists .run scope runs ∧
          before.live.Lists .workflowRun scope summaries ∧
          outcome = .ok (runs.length + summaries.length) ∧
          ∀ key : Key, key.IsIn scope → after.live.get? key = none) ∨
        (∃ cause, outcome = .error (.storeUnavailable cause)) ∧
          ((∃ serial, plan.failsRead serial = true ∨ plan.failsWrite serial = true) ∨
            UInt64.size ≤ ledger.version + ledger.live.size + 1)) := by
  intro before outcome after
  obtain ⟨failsRead, failsWrite, config, events, hdatabase⟩ := hreached
  have hsound := System.sound_run Operation.program failsRead failsWrite config events
  have hstore : ledger.database.substrate.store.WellFormed := hdatabase ▸ hsound.wellFormed
  have horderly : ledger.live.Orderly := by
    unfold Ledger.live at hattached ⊢
    rw [hdatabase, Database.live, hsound.live] at hattached ⊢
    exact hsound.orderly hattached
  have hearlier := Ledger.sheds_removing scope hsize hstore horderly earlier
  have hsize' : 1 ≤ before.config.deleteBatchSize := by
    rw [show before.config = ledger.config from hearlier.config]
    exact hsize
  obtain ⟨hclears, hsheds, hended⟩ :=
    Ledger.cleared_removeScope scope hsize' hearlier.wellFormed hearlier.orderly
  have hkept (key : Key) (hkey : ¬ key.IsIn scope) :
      after.live.get? key = ledger.live.get? key := by
    have hlast := (hsheds.kept key).resolve_right fun hgone ↦ hkey hgone.1
    exact hlast.trans ((hearlier.kept key).resolve_right fun hgone ↦ hkey hgone.1)
  refine ⟨hclears, hkept, hended.imp ?_ ?_⟩
  · rintro ⟨houtcome, hgone⟩
    refine ⟨_, _, hearlier.orderly.lists_runs, hearlier.orderly.lists_summaries, ?_, hgone⟩
    rw [List.length_map, List.length_map]
    exact houtcome
  · rintro ⟨houtage, hfails⟩
    exact ⟨houtage, hfails.imp_right fun hnumbers ↦
      Nat.le_trans hnumbers (Nat.succ_le_succ hearlier.numbered)⟩

/-- The run id `0000000f-4240-7000-8000-00000000000f`, made in second 1000. -/
def secondNight : RunId where
  digits := firstNight.digits.set 31 (Fin.last 15)
  length_digits := List.length_set.trans firstNight.length_digits

/-- Two workflow runs are started, and a node of the first one gets a state. -/
def twoNights : List (Event Operation) :=
  .begin (.start ⟨nightly, firstNight, 1000, none, ∅, ∅⟩) :: List.replicate 3 (.call 0) ++
    [.conclude 0, .drop 0, .begin (.start ⟨nightly, secondNight, 1000, none, ∅, ∅⟩)] ++
    List.replicate 3 (.call 1) ++
    [.conclude 1, .drop 1,
      .begin (.putNodeState nightly firstNight ⟨"n", .running, none, none⟩), .call 2, .call 2,
      .conclude 2, .drop 2]

/-- What is stored of the two runs, to be removed in batches of one. -/
def storedNights : Ledger where
  database := (System.reliably Operation.program twoNights).database
  config := ⟨1, .standard⟩

/-- A removal that fails behind its first batch has left the second run, and the next call counts
this one and leaves nothing in the scope. -/
theorem removal_clears_scope_interrupted :
    let between := storedNights.removing (.wholeNamespace "default")
      [⟨fun serial ↦ decide (13 ≤ serial), fun _ ↦ false⟩]
    let ended := (between.under ⟨fun _ ↦ false, fun _ ↦ false⟩).removeScope
      (.wholeNamespace "default")
    storedNights.Reached ∧ storedNights.live.Attached ∧
      between.live.keys =
        [Key.run nightly secondNight, Key.statusIndex .running nightly secondNight] ∧
      ended.1 = .ok 1 ∧
      ∀ key : Key, key.IsIn (.wholeNamespace "default") → ended.2.live.get? key = none := by
  obtain ⟨hkeys, hbetween, houtcome⟩ :
      storedNights.live.keys = [Key.run nightly firstNight, Key.run nightly secondNight,
        Key.statusIndex .running nightly firstNight, Key.statusIndex .running nightly secondNight,
        Key.nodeState nightly firstNight "n"] ∧
      (storedNights.removing (.wholeNamespace "default")
        [⟨fun serial ↦ decide (13 ≤ serial), fun _ ↦ false⟩]).live.keys =
        [Key.run nightly secondNight, Key.statusIndex .running nightly secondNight] ∧
      (((storedNights.removing (.wholeNamespace "default")
        [⟨fun serial ↦ decide (13 ≤ serial), fun _ ↦ false⟩]).under
          ⟨fun _ ↦ false, fun _ ↦ false⟩).removeScope (.wholeNamespace "default")).1 = .ok 1 := by
    decide +kernel
  have hattached : storedNights.live.Attached := by
    intro program id key hkey hthere
    have hmem := (SortedMap.mem_keys_iff ..).mpr hthere
    rw [← SortedMap.mem_keys_iff, hkeys]
    rw [hkeys] at hmem
    simp only [List.mem_cons, List.not_mem_nil, or_false] at hmem
    rcases hmem with rfl | rfl | rfl | rfl | rfl
    case inr.inr.inr.inr =>
      obtain ⟨rfl, rfl⟩ := Key.isProgressOf_inj hkey (Or.inr ⟨"n", rfl⟩)
      exact List.mem_cons_self
    all_goals rcases hkey.isProgress with hfamily | hfamily <;> cases hfamily
  have hreached : storedNights.Reached :=
    Ledger.reached_run (fun _ ↦ false) (fun _ ↦ false) .standard twoNights ⟨1, .standard⟩
  obtain ⟨-, -, ⟨_, _, -, -, -, hgone⟩ | ⟨⟨cause, houtage⟩, -⟩⟩ :=
    removal_clears_scope hreached hattached (Nat.le_refl 1) (.wholeNamespace "default")
      [⟨fun serial ↦ decide (13 ≤ serial), fun _ ↦ false⟩] ⟨fun _ ↦ false, fun _ ↦ false⟩
  · exact ⟨hreached, hattached, hbetween, houtcome, hgone⟩
  · cases houtcome.symm.trans houtage

end RunLedger
