import RunLedger.Proofs.Ledger.Listings
import RunLedger.Proofs.Ledger.WellFormedRecords

/-!
# Windows of a program's runs

The runs of a program that started in a window of seconds are read from a range of keys, whose
bounds are made of the program and a second, and the times of the records are not looked at. Still
the listing goes by the times in the records (`Contents.window`): the key of a run carries the
second of its run id, which is the start time of its record (`RunRecord.WellFormed.startTime`), and
keys of one program are in the order of their run ids (`Key.compare_timed`).

So a window is the concatenation of its parts (`Contents.window_append`), no run of another program
is in it, and the limit cuts off what has passed the filter and the test (`runsInWindow_exact`).
-/

set_option autoImplicit false

namespace RunLedger

/-! ### The order of a window -/

namespace RunRecord

/-- By start time, and then by run id. -/
def startOrder : RunRecord → RunRecord → Ordering :=
  compareLex (compareOn fun record ↦ record.startTime) (compareOn fun record ↦ record.id)

instance : Std.TransCmp startOrder :=
  inferInstanceAs (Std.TransCmp (compareLex (compareOn fun record : RunRecord ↦ record.startTime)
    (compareOn fun record ↦ record.id)))

/-- One record started before another, or in the same second with a smaller run id. -/
def StartsBefore (first second : RunRecord) : Prop := first.startOrder second = .lt

instance : Std.Irrefl StartsBefore where
  irrefl record hbefore := by
    cases hbefore.symm.trans (@Std.ReflCmp.compare_self _ startOrder _ record)

instance : Std.Antisymm StartsBefore where
  antisymm first second hbefore hafter := by
    cases hafter.symm.trans (@Std.OrientedCmp.gt_of_lt _ startOrder _ _ _ hbefore)

theorem startsBefore_of_lt {first second : RunRecord} (hlt : first.startTime < second.startTime) :
    first.StartsBefore second := by
  have hcompare : compare first.startTime second.startTime = .lt := Std.compare_eq_lt.mpr hlt
  change (compare first.startTime second.startTime).then (compare first.id second.id) = .lt
  rw [hcompare]
  rfl

/-- Run ids begin with the second of the start, so they alone put records in order. -/
theorem startOrder_eq {first second : RunRecord} (hfirst : first.startTime = first.id.seconds)
    (hsecond : second.startTime = second.id.seconds) :
    first.startOrder second = compare first.id second.id := by
  change (compare first.startTime second.startTime).then
      ((compare first.id.seconds second.id.seconds).then (compare first.id.text second.id.text)) =
    (compare first.id.seconds second.id.seconds).then (compare first.id.text second.id.text)
  rw [hfirst, hsecond]
  cases compare first.id.seconds second.id.seconds <;> rfl

end RunRecord

/-! ### Windows made from the records -/

namespace Contents

/-- The records of a program that started in a window of seconds, its end excluded, have an admitted
status and pass a test, sorted by start time and run id. -/
def window (contents : Contents) (program : ProgramId) (status : StatusFilter)
    (keep : RunRecord → Bool) (first last : UInt64) : List RunRecord :=
  (contents.records.filter fun record ↦ record.program = program ∧ first ≤ record.startTime ∧
    record.startTime < last ∧ status.admits record.status = true ∧ keep record = true).mergeSort
      fun first second ↦ (first.startOrder second).isLE

theorem length_records_le (contents : Contents) :
    contents.records.length ≤ contents.toList.length :=
  (List.length_filterMap_le _ _).trans (List.length_filter_le _ _)

theorem length_window_le (contents : Contents) (program : ProgramId) (status : StatusFilter)
    (keep : RunRecord → Bool) (first last : UInt64) :
    (contents.window program status keep first last).length ≤ contents.records.length := by
  rw [window, List.length_mergeSort]
  exact List.length_filter_le _ _

section

variable {contents : Contents} (hconsistent : contents.Consistent) (program : ProgramId)
  (status : StatusFilter) (keep : RunRecord → Bool)

include hconsistent

theorem mem_window_iff {first last : UInt64} {record : RunRecord} :
    record ∈ contents.window program status keep first last ↔
      contents.run? program record.id = some record ∧ first ≤ record.startTime ∧
        record.startTime < last ∧ status.admits record.status = true ∧ keep record = true := by
  rw [window, List.mem_mergeSort, List.mem_filter, mem_records_iff hconsistent, decide_eq_true_iff,
    ← and_assoc]
  refine and_congr_left' ⟨?_, fun hrun ↦ ?_⟩
  · rintro ⟨hholds, rfl⟩
    exact run?_of_holds hholds
  · obtain ⟨hholds, hprogram, -⟩ := hconsistent.of_run? hrun
    exact ⟨hholds, hprogram⟩

theorem pairwise_window (first last : UInt64) :
    (contents.window program status keep first last).Pairwise RunRecord.StartsBefore := by
  refine pairwise_mergeSort_of_ties ((nodup_records hconsistent).filter _)
    fun before hbefore after hafter hties ↦ ?_
  obtain ⟨hmem, hchosen⟩ := List.mem_filter.mp hbefore
  obtain ⟨hother, hotherChosen⟩ := List.mem_filter.mp hafter
  obtain ⟨rfl, -⟩ := of_decide_eq_true hchosen
  obtain ⟨hprogram, -⟩ := of_decide_eq_true hotherChosen
  exact eq_of_holds ((mem_records_iff hconsistent before).mp hmem)
    ((mem_records_iff hconsistent after).mp hother) hprogram.symm
    (Key.id_of_compare (Ordering.then_eq_eq.mp hties).2)

/-- A window split at a time between its bounds is the concatenation of its parts. -/
theorem window_append {first middle last : UInt64} (hfirst : first ≤ middle)
    (hlast : middle ≤ last) :
    contents.window program status keep first middle ++
        contents.window program status keep middle last =
      contents.window program status keep first last := by
  have hmem {first last : UInt64} {record : RunRecord} :=
    @mem_window_iff contents hconsistent program status keep first last record
  have hsorted := pairwise_window hconsistent program status keep
  have hwhole : (contents.window program status keep first middle ++
      contents.window program status keep middle last).Pairwise RunRecord.StartsBefore := by
    refine List.pairwise_append.mpr ⟨hsorted first middle, hsorted middle last,
      fun before hbefore after hafter ↦ RunRecord.startsBefore_of_lt ?_⟩
    exact UInt64.lt_of_lt_of_le (hmem.mp hbefore).2.2.1 (hmem.mp hafter).2.1
  refine hwhole.eq_of_mem_iff (hsorted first last) fun record ↦ ?_
  rw [List.mem_append, hmem, hmem, hmem]
  constructor
  · rintro (⟨hrun, hafter, hbefore, hchosen⟩ | ⟨hrun, hafter, hbefore, hchosen⟩)
    · exact ⟨hrun, hafter, UInt64.lt_of_lt_of_le hbefore hlast, hchosen⟩
    · exact ⟨hrun, UInt64.le_trans hfirst hafter, hbefore, hchosen⟩
  · rintro ⟨hrun, hafter, hbefore, hchosen⟩
    by_cases hearly : record.startTime < middle
    · exact Or.inl ⟨hrun, hafter, hearly, hchosen⟩
    · exact Or.inr ⟨hrun, UInt64.not_lt.mp hearly, hbefore, hchosen⟩

end

end Contents

/-! ### The script -/

/-- A range of keys gives the window of start times, cut off at the limit. -/
theorem Runs.eval_inWindow_eq_window {contents : Contents} (hconsistent : contents.Consistent)
    (hwellFormed : contents.WellFormed) (program : ProgramId) (status : StatusFilter)
    (first last : UInt64) (limit : Nat) (keep : RunRecord → Bool) :
    (inWindow program status first last limit keep).eval contents =
      (.ok ((contents.window program status keep first last).take limit), contents) := by
  have hstarted {record : RunRecord} (hholds : contents.Holds record) :
      record.startTime = record.id.seconds :=
    (hwellFormed _ _ record (Contents.run?_of_holds hholds)).startTime
  have hmem {record : RunRecord} :=
    @Contents.mem_window_iff contents hconsistent program status keep first last record
  unfold inWindow
  split
  · rename_i hempty
    rcases hempty with hempty | rfl
    · -- no start time lies in an empty window
      have hnone : contents.window program status keep first last = [] := by
        refine List.eq_nil_iff_forall_not_mem.mpr fun record hrecord ↦ ?_
        obtain ⟨-, hafter, hbefore, -⟩ := hmem.mp hrecord
        exact UInt64.not_lt.mpr hempty (UInt64.lt_of_le_of_lt hafter hbefore)
      rw [hnone, List.take_nil]
      rfl
    · rfl
  · obtain ⟨listed, hrows, hsorted, hlisted⟩ := exists_window hconsistent program first last
    have hchosen : (listed.filter fun record ↦ status.admits record.status && keep record) =
        contents.window program status keep first last := by
      refine ((hsorted.imp_of_mem fun {before after} hbefore hafter hlt ↦ ?_).filter _).eq_of_mem_iff
        (Contents.pairwise_window hconsistent program status keep first last) fun record ↦ ?_
      · obtain ⟨hholds, hprogram, -⟩ := (hlisted before).mp hbefore
        obtain ⟨hother, hsame, -⟩ := (hlisted after).mp hafter
        -- records of one program are listed by run id
        have hprograms : compare before.program after.program = .eq := by
          rw [hprogram, hsame]
          exact Std.ReflCmp.compare_self
        rw [RunRecord.IsListedBefore, ← RunRecord.compare_statusIndex .running,
          Key.compare_statusIndex, hprograms, Ordering.then_eq] at hlt
        exact (RunRecord.startOrder_eq (hstarted hholds) (hstarted hother)).trans hlt
      · rw [List.mem_filter, hlisted, hmem, Bool.and_eq_true]
        constructor
        · rintro ⟨⟨hholds, rfl, hafter, hbefore⟩, hpasses⟩
          rw [← hstarted hholds] at hafter hbefore
          exact ⟨Contents.run?_of_holds hholds, hafter, hbefore, hpasses⟩
        · rintro ⟨hrun, hafter, hbefore, hpasses⟩
          obtain ⟨hholds, hprogram, -⟩ := hconsistent.of_run? hrun
          rw [hstarted hholds] at hafter hbefore
          exact ⟨⟨hholds, hprogram, hafter, hbefore⟩, hpasses⟩
    rw [Script.eval_bind, hrows]
    dsimp only
    rw [Contents.decodeAll_recordRow, hchosen]
    rfl

/-! ### Windows of a ledger -/

theorem Ledger.Reached.wellFormed_records {ledger : Ledger} (hreached : ledger.Reached) :
    ledger.live.WellFormed := by
  obtain ⟨failsRead, failsWrite, config, events, hdatabase⟩ := hreached
  have hsound := System.sound_run Operation.program failsRead failsWrite config events
  have hlive : ledger.live = _ := (congrArg Database.live hdatabase).trans hsound.live
  rw [hlive]
  exact hsound.wellFormed_records _

/-- On a ledger that operations have made, while no read fails, the listing of a window gives the
records of the program that started in it, have an admitted status and pass the test, by start time
and then by run id, cut off at the limit. No run of another program is among them, whatever its
name, and with a limit that is not reached the listings of two windows that follow each other make
up the listing of the two together. -/
theorem runsInWindow_exact {ledger : Ledger} (hreached : ledger.Reached) {plan : Ledger.FailurePlan}
    (hreads : ∀ serial, plan.failsRead serial = false) (program : ProgramId) (status : StatusFilter)
    (keep : RunRecord → Bool) :
    let asked (first last : UInt64) (limit : Nat) : Except Failure (List RunRecord) :=
      ((ledger.under plan).runsInWindow program status first last limit keep).1
    let window := ledger.live.window program status keep
    (∀ first last limit, asked first last limit = .ok ((window first last).take limit)) ∧
    (∀ first last, (window first last).Pairwise RunRecord.StartsBefore ∧
      ∀ record, record ∈ window first last ↔
        ledger.live.run? program record.id = some record ∧ first ≤ record.startTime ∧
          record.startTime < last ∧ status.admits record.status = true ∧ keep record = true) ∧
    (∀ first last other id record, ledger.live.run? other id = some record → other ≠ program →
      record ∉ window first last) ∧
    ∀ first middle last, first ≤ middle → middle ≤ last →
      ∀ limit, ledger.live.records.length ≤ limit →
        ∃ early late, asked first middle limit = .ok early ∧ asked middle last limit = .ok late ∧
          asked first last limit = .ok (early ++ late) := by
  intro asked window
  have hconsistent := hreached.consistent
  have hmem {first last : UInt64} {record : RunRecord} :=
    @Contents.mem_window_iff _ hconsistent program status keep first last record
  have hasked (first last : UInt64) (limit : Nat) :
      asked first last limit = .ok ((window first last).take limit) :=
    Ledger.perform_of_quiet hreads
      (Runs.eval_inWindow_eq_window hconsistent hreached.wellFormed_records program status first last
        limit keep)
      ((Runs.plain_inWindow program status first last limit keep).quiet _)
  refine ⟨hasked, fun first last ↦
    ⟨Contents.pairwise_window hconsistent program status keep first last, fun record ↦ hmem⟩,
    fun first last other id record hrun hother hrecord ↦ ?_,
    fun first middle last hfirst hlast limit hlimit ↦ ?_⟩
  · exact hother ((hconsistent.of_run? hrun).2.1.symm.trans
      (hconsistent.of_run? (hmem.mp hrecord).1).2.1)
  · have hwhole (first last : UInt64) : (window first last).take limit = window first last :=
      List.take_of_length_le
        (Nat.le_trans (Contents.length_window_le _ program status keep first last) hlimit)
    refine ⟨window first middle, window middle last, ?_, ?_, ?_⟩
    · rw [hasked, hwhole]
    · rw [hasked, hwhole]
    · rw [hasked, hwhole]
      exact congrArg Except.ok
        (Contents.window_append hconsistent program status keep hfirst hlast).symm

/-- Of two workflow runs made in one second, a window from that second on has both, one call for at
most one run gives the first of them, and the window up to that second and the one from it on make
up a wider window. -/
theorem runsInWindow_exact_twoNights :
    let asked (first last : UInt64) (limit : Nat) : Except Failure (List RunRecord) :=
      ((storedNights.under ⟨fun _ ↦ false, fun _ ↦ true⟩).runsInWindow nightly .any first last limit
        fun _ ↦ true).1
    let window := storedNights.live.window nightly .any fun _ ↦ true
    storedNights.Reached ∧ (∃ record ∈ window 1000 2000, record.id = secondNight) ∧
      asked 1000 2000 1 = .ok ((window 1000 2000).take 1) ∧
      ∃ early late, asked 0 1000 5 = .ok early ∧ asked 1000 2000 5 = .ok late ∧
        asked 0 2000 5 = .ok (early ++ late) := by
  intro asked window
  have hreached : storedNights.Reached :=
    Ledger.reached_run (fun _ ↦ false) (fun _ ↦ false) .standard twoNights ⟨1, .standard⟩
  obtain ⟨hasked, hwindow, -, hsplit⟩ := @runsInWindow_exact storedNights hreached
    ⟨fun _ ↦ false, fun _ ↦ true⟩ (fun _ ↦ rfl) nightly .any fun _ ↦ true
  have hkeys : storedNights.live.contains (Key.run nightly secondNight) = true ∧
      storedNights.live.toList.length = 5 := by decide +kernel
  obtain ⟨hthere, hrows⟩ := hkeys
  rw [hreached.consistent.contains_run] at hthere
  obtain ⟨record, hrun⟩ := Option.isSome_iff_exists.mp hthere
  obtain ⟨-, -, hid⟩ := hreached.consistent.of_run? hrun
  have hstarted : record.startTime = 1000 :=
    (hreached.wellFormed_records _ _ record hrun).startTime.trans (hid ▸ by decide +kernel)
  have hlength : storedNights.live.records.length ≤ 5 := hrows ▸ storedNights.live.length_records_le
  have hafter : 1000 ≤ record.startTime := by
    rw [hstarted]
    decide
  have hbefore : record.startTime < 2000 := by
    rw [hstarted]
    decide
  have hmem := ((hwindow 1000 2000).2 record).mpr ⟨hid.symm ▸ hrun, hafter, hbefore, rfl, rfl⟩
  exact ⟨hreached, ⟨record, hmem, hid⟩, hasked 1000 2000 1,
    hsplit 0 1000 2000 (by decide) (by decide) 5 hlength⟩

end RunLedger
