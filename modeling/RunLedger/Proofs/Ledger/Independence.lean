import RunLedger.Proofs.Database.Independence
import RunLedger.Proofs.Ledger.Footprints

/-!
# Operations on different runs

Operations on the lifecycle that have no run in common are independent of each other
(`Operation.independent`): on consistent contents neither changes a record that the other looks at,
and no removal has left a tombstone in place of a record. So transactions of pairwise independent
operations may begin and commit in any order: none of them meets a conflict, each is answered as if
it were alone on the contents before all of them, and when all have ended the contents are what the
operations leave one after the other (`lifecycles_independent`).
-/

set_option autoImplicit false

namespace RunLedger

/-- Operations that are no removals look at records alone, and no record is deleted. -/
theorem Operation.keeping :
    Keeping (fun operation ↦ ¬ operation.IsRemoval) Operation.Reads (fun key ↦ key.family = .run)
      Operation.program where
  confined _ hremoval := confined hremoval
  kept _ _ hread := hread.1

theorem Operation.IsLifecycle.not_isRemoval {operation : Operation}
    (hlifecycle : operation.IsLifecycle) : ¬ operation.IsRemoval := by
  cases operation with
  | removeRuns | removeSummaries => exact hlifecycle.elim
  | _ => exact id

/-- Operations on the lifecycle that have no run in common are independent. -/
theorem Operation.independent {contents : Contents} (hconsistent : contents.Consistent)
    {first second : Operation} (hfirst : first.IsLifecycle) (hsecond : second.IsLifecycle)
    (hapart : first.runs.Disjoint second.runs) :
    Independent Operation.program Operation.Reads contents first second := by
  have hspares {first second : Operation} (hfirst : first.IsLifecycle)
      (hsecond : second.IsLifecycle) (hapart : first.runs.Disjoint second.runs) :
      Spares Operation.program Operation.Reads contents first second := by
    intro key hchanged
    obtain ⟨run, hrun, hkey⟩ := changesOnly hfirst hconsistent key hchanged
    have hother {other : ProgramId × RunId} (hmem : other ∈ second.runs) :
        ¬ key.IsRecordOf other.1 other.2 := fun hsame ↦ by
      obtain ⟨hprogram, hid⟩ := hkey.unique hsame
      exact hapart hrun (Prod.ext hprogram hid ▸ hmem)
    constructor
    · rintro ⟨-, hreads⟩
      obtain ⟨other, hmem, hread⟩ := hreads hsecond
      exact hother hmem (Or.inl hread)
    · intro hchanges
      obtain ⟨other, hmem, hsame⟩ := changesOnly hsecond hconsistent key hchanges
      exact hother hmem hsame
  exact ⟨hspares hfirst hsecond hapart,
    hspares hsecond hfirst fun _ hsecond hfirst ↦ hapart hfirst hsecond⟩

/-- In a database without removals so far, whose store does not fail, transactions begin for
operations on the lifecycle that have no run in common, each with its own run and, for a node run
that starts, the workflow run it names. Whatever the order of their steps, with collections in
between: none of them ends in a conflict, and as long as there are versions for all of them, each is
answered as if it were alone on the contents there were before; when all have ended, the contents
are what the operations make of these one after the other. -/
theorem lifecycles_independent (config : Config) (events more : List (Event Operation))
    {early : System Operation Reply}
    (hearly : early =
      (System.initial (fun _ ↦ false) (fun _ ↦ false) config).run Operation.program events)
    (hremoval : ∀ commit ∈ early.history, ¬ commit.operation.IsRemoval) {members : List Operation}
    (hlifecycle : ∀ operation ∈ members, operation.IsLifecycle)
    (hapart : members.Pairwise fun first second ↦ first.runs.Disjoint second.runs)
    (hbegun : (begunBy more).Perm members)
    (hconclude : ∀ place, .conclude place ∈ more → early.sessions.length ≤ place) :
    let late := early.run Operation.program more
    ∃ ended, late.endings = early.endings ++ ended ∧
      (∀ ending ∈ ended, ending.operation ∈ members ∧
        ∀ clash, ending.outcome ≠ .error (.writeConflict clash)) ∧
      (early.history.length + members.length < UInt64.size →
        (∀ ending ∈ ended, ending.outcome =
          (ending.operation.program.transacted early.database.live).1) ∧
        (ended.length = members.length →
          (ended.map (·.operation)).Perm members ∧
            late.database.live = members.foldl (fun contents operation ↦
              (operation.program.transacted contents).2) early.database.live)) := by
  intro late
  have hsound : early.Sound Operation.program (fun _ ↦ false) (fun _ ↦ false) :=
    hearly ▸ System.sound_run Operation.program _ _ config events
  have hsteady : early.Steady (fun operation ↦ ¬ operation.IsRemoval) Operation.Reads
      (fun key ↦ key.family = .run) := by
    subst hearly
    exact (System.steady_initial config).run (System.sound_initial config) Operation.keeping
      hremoval
  have hconsistent : early.database.live.Consistent := by
    rw [Database.live, hsound.live]
    exact hsound.consistent _
  have hindependent : members.Pairwise
      (Independent Operation.program Operation.Reads early.database.live) :=
    hapart.imp_of_mem fun hfirst hsecond hdisjoint ↦
      Operation.independent hconsistent (hlifecycle _ hfirst) (hlifecycle _ hsecond) hdisjoint
  obtain ⟨ended, hendings, hended, hlive⟩ := hsound.independent (fun _ ↦ ⟨rfl, rfl⟩) hsteady
    Operation.keeping hremoval (fun operation hmem ↦ (hlifecycle operation hmem).not_isRemoval)
    hindependent hbegun.subperm hconclude
  refine ⟨ended, hendings, fun ending hending ↦ ?_, fun hversions ↦ ?_⟩
  · obtain ⟨hmember, houtcome⟩ := hended ending hending
    refine ⟨hmember, ?_⟩
    rcases houtcome with hown | ⟨-, cause, hcause⟩
    · rw [hown]
      exact Operation.unconflicting (hlifecycle _ hmember) hconsistent
    · rw [hcause]
      exact unconflicting_error rfl
  · have hroom : ¬ OutOfVersions early members := Nat.not_le_of_lt hversions
    refine ⟨fun ending hending ↦ ?_, hlive hroom⟩
    obtain ⟨-, houtcome⟩ := hended ending hending
    rw [Script.transacted_outcome]
    exact houtcome.resolve_right fun hout ↦ hroom hout.1

/-- The workflow run starts. -/
def nightBegun : List (Event Operation) :=
  .begin (.start nightStart) :: List.replicate 3 (.call 0) ++ [.conclude 0]

/-- A run of another program, which is not a node of the workflow run. -/
def cleaningAlone : Start := ⟨cleaning, firstNight, 1000, none, ∅, ∅⟩

/-- The workflow run is suspended while another run starts, which is first to commit. -/
def suspendedMeanwhile : List (Event Operation) :=
  [.begin (.suspend nightly firstNight 1001), .call 1, .begin (.start cleaningAlone), .call 2,
    .call 1, .call 2, .call 2, .collect, .conclude 2, .call 1, .call 1, .conclude 1]

/-- A database in which the workflow run has started. -/
def nightUnderWay : System Operation Reply :=
  (System.initial (fun _ ↦ false) (fun _ ↦ false) .standard).run Operation.program nightBegun

/-- What becomes of it while the other run starts. -/
def nightSuspended : System Operation Reply :=
  nightUnderWay.run Operation.program suspendedMeanwhile

/-- Both are answered as if they were alone, and the contents are as if the suspension had come
before the start. -/
theorem lifecycles_independent_suspended :
    nightSuspended.endings.map (·.outcome.toBool) = [true, true, true] ∧
    (nightSuspended.endings.drop 1).map (·.operation.runs) =
      [[(cleaning, firstNight)], [(nightly, firstNight)]] ∧
    (∀ ending ∈ nightSuspended.endings.drop 1, ending.outcome =
      (ending.operation.program.transacted nightUnderWay.database.live).1) ∧
    nightSuspended.database.live =
      ((Operation.start cleaningAlone).program.transacted
        ((Operation.suspend nightly firstNight 1001).program.transacted
          nightUnderWay.database.live).2).2 := by
  obtain ⟨hcommits, hsessions, hearly, hended, hruns⟩ :
      nightUnderWay.history.length = 1 ∧ nightUnderWay.sessions.length = 1 ∧
      nightUnderWay.endings.length = 1 ∧
      nightSuspended.endings.map (·.outcome.toBool) = [true, true, true] ∧
      (nightSuspended.endings.drop 1).map (·.operation.runs) =
        [[(cleaning, firstNight)], [(nightly, firstNight)]] := by
    decide +kernel
  have honly : nightUnderWay.Only fun operation ↦ ¬ operation.IsRemoval := by
    refine System.only_run Operation.program _ _ _ fun operation hbegin ↦ ?_
    simp only [nightBegun, List.cons_append, List.mem_cons, List.mem_append, List.mem_replicate,
      List.not_mem_nil, Event.begin.injEq, reduceCtorEq, and_false, or_false] at hbegin
    rw [hbegin]
    exact id
  have hlifecycle (operation : Operation)
      (hmem : operation ∈ [.suspend nightly firstNight 1001, .start cleaningAlone]) :
      operation.IsLifecycle := by
    simp only [List.mem_cons, List.not_mem_nil, or_false] at hmem
    rcases hmem with rfl | rfl <;> trivial
  have hapart : [.suspend nightly firstNight 1001, .start cleaningAlone].Pairwise
      fun first second : Operation ↦ first.runs.Disjoint second.runs := by
    refine List.pairwise_pair.mpr fun run hfirst hsecond ↦ ?_
    obtain rfl := List.mem_singleton.mp hfirst
    exact absurd (List.mem_singleton.mp hsecond) (by decide)
  have hconclude (place : Nat) (hplace : .conclude place ∈ suspendedMeanwhile) :
      nightUnderWay.sessions.length ≤ place := by
    simp only [suspendedMeanwhile, List.mem_cons, Event.conclude.injEq, reduceCtorEq, false_or,
      List.not_mem_nil, or_false] at hplace
    omega
  obtain ⟨ended, hendings, -, hroom⟩ := lifecycles_independent .standard nightBegun
    suspendedMeanwhile (rfl : nightUnderWay = _) honly.history hlifecycle hapart (.refl _) hconclude
  rw [← nightSuspended] at hendings hroom
  obtain ⟨houtcomes, hall⟩ := hroom (by rw [hcommits]; decide)
  have hdrop : nightSuspended.endings.drop 1 = ended := by
    rw [hendings, List.drop_left' hearly]
  have hlength : ended.length = 2 := by
    rw [← hdrop, ← List.length_map, hruns]
    rfl
  have hlive := (hall hlength).2
  rw [List.foldl_cons, List.foldl_cons, List.foldl_nil] at hlive
  refine ⟨hended, hruns, ?_, hlive⟩
  rw [hdrop]
  exact houtcomes

end RunLedger
