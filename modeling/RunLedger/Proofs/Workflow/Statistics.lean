import Mathlib.Algebra.Ring.Nat
import Mathlib.Data.List.Induction
import Mathlib.Data.List.Sort
import RunLedger.Proofs.Key.Layout
import RunLedger.Proofs.SortedMap.Bulk
import RunLedger.Workflow.Statistics

/-!
# What statistics describe

The statistics of some summaries tell how many there are, their mean running time, each percentile
as the running time at its rank among the sorted ones, with the runs from there on, and the same for
the timings of each node that occurs (`WorkflowStatistics.Describes`,
`WorkflowStatistics.describes_ofSummaries?`). Ranks lie within the list, whatever the percentile
(`NearestRank.index_lt`). The timings are grouped by node one after the other, and each node has
those that carry its name, in their order (`WorkflowStatistics.get?_durationsByNode`).
-/

set_option autoImplicit false

namespace RunLedger

/-! ### Percentiles -/

namespace NearestRank

/-- Whatever the percentile, its place is one of the list. -/
theorem index_lt (percentile : Float) {count : Nat} (hcount : 0 < count) :
    index percentile count < count := by
  unfold index
  omega

theorem isFinite_eq (value : Float) : value.isFinite = (!value.isNaN && !value.isInf) := by
  unfold Float.isFinite Float.isNaN Float.isInf Float.Model.isFinite Float.Model.isNaN
    Float.Model.isInf
  cases value.toModel.unpack <;> rfl

/-- What is not accepted as a percentile is no number, infinite, or out of the range. -/
theorem isPercentile_eq_false_iff {percentile : Float} :
    isPercentile percentile = false ↔
      percentile.isNaN = true ∨ percentile.isInf = true ∨ percentile < 0 ∨ percentile > 100 := by
  simp only [isPercentile, isFinite_eq, Bool.and_eq_false_iff, Bool.not_eq_false', or_assoc,
    decide_eq_true_iff]

/-- The check passes exactly lists of percentiles. -/
theorem checkPercentiles_eq_ok_iff {percentiles : List Float} :
    checkPercentiles percentiles = .ok () ↔
      ∀ percentile ∈ percentiles, isPercentile percentile = true := by
  induction percentiles with
  | nil => exact iff_of_true rfl (List.forall_mem_nil _)
  | cons percentile rest ih =>
    rw [List.forall_mem_cons, ← ih, checkPercentiles]
    split
    · rename_i haccepted
      exact (and_iff_right haccepted).symm
    · rename_i hrefused
      exact iff_of_false (fun hok ↦ nomatch hok) fun hboth ↦ hrefused hboth.1

/-- The first that is no percentile is refused. -/
theorem checkPercentiles_of_refused {percentiles : List Float}
    (hrefused : ∃ percentile ∈ percentiles, isPercentile percentile = false) :
    ∃ accepted percentile rest, percentiles = accepted ++ percentile :: rest ∧
      (∀ other ∈ accepted, isPercentile other = true) ∧ isPercentile percentile = false ∧
      checkPercentiles percentiles =
        .error (.invalidInput (.percentileOutOfRange (Decimal.shortest percentile))) := by
  induction percentiles with
  | nil => cases hrefused.choose_spec.1
  | cons head rest ih =>
    cases hhead : isPercentile head with
    | false =>
      refine ⟨[], head, rest, rfl, List.forall_mem_nil _, hhead, ?_⟩
      rw [checkPercentiles, hhead]
      rfl
    | true =>
      obtain ⟨percentile, hmem, hbad⟩ := hrefused
      have hrest : percentile ∈ rest := (List.mem_cons.mp hmem).resolve_left fun hsame ↦ by
        rw [hsame, hhead] at hbad
        cases hbad
      obtain ⟨accepted, first, behind, rfl, haccepted, hfirst, hcheck⟩ :=
        ih ⟨percentile, hrest, hbad⟩
      refine ⟨head :: accepted, first, behind, rfl,
        List.forall_mem_cons.mpr ⟨hhead, haccepted⟩, hfirst, ?_⟩
      rw [checkPercentiles, if_pos hhead, hcheck]

end NearestRank

namespace WorkflowStatistics

open NearestRank

/-- The mean of some values whose sum counts below 2^64: their exact sum by their number, both as
doubles. -/
def IsMean (values : List UInt64) (mean : Float) : Prop :=
  (values.map UInt64.toNat).sum < UInt64.size →
    ∃ total count : UInt64, total.toNat = (values.map UInt64.toNat).sum ∧
      count.toNat = values.length % UInt64.size ∧ mean = total.toFloat / count.toFloat

theorem isMean_average {values sorted : List UInt64} (hperm : sorted.Perm values) :
    IsMean values (average sorted) := by
  intro hsum
  have htotal : sorted.foldl (fun sum value ↦ sum + value.toNat) 0 =
      (values.map UInt64.toNat).sum := by
    rw [← (hperm.map UInt64.toNat).sum_nat, List.sum_eq_foldl, List.foldl_map]
  refine ⟨UInt64.ofNat (values.map UInt64.toNat).sum, UInt64.ofNat values.length,
    UInt64.toNat_ofNat_of_lt hsum, UInt64.toNat_ofNat', ?_⟩
  rw [average, htotal, hperm.length_eq]

/-! ### Running times -/

/-- Running times ascend, and equal ones are in the order of their run ids. -/
def RunTime.IsBefore (first second : RunTime) : Prop :=
  first.1 < second.1 ∨ first.1 = second.1 ∧ compare first.2 second.2 = .lt

/-- A percentile of ascending running times is the one at its rank, which is there, and comes with the
ids of the runs from there on, each once. -/
structure DescribesRuns (times : List RunTime) (percentile : Float)
    (reported : PercentileOfRuns) : Prop where
  rank : reported.percentile = percentile
  value : ∃ id, times[index percentile times.length]? = some (reported.value, id)
  ids : reported.ids = (times.drop (index percentile times.length)).map Prod.snd
  length : reported.ids.length = times.length - index percentile times.length
  nodup : reported.ids.Nodup

theorem describesRuns_percentileOfRuns {times : List RunTime} (hthere : times ≠ [])
    (hnodup : (times.map Prod.snd).Nodup) (percentile : Float) :
    DescribesRuns times percentile (percentileOfRuns times percentile) := by
  have hplace := index_lt percentile (List.length_pos_iff.mpr hthere)
  have habove : times.drop (index percentile times.length) =
      times[index percentile times.length] :: times.drop (index percentile times.length + 1) :=
    List.drop_eq_getElem_cons hplace
  refine ⟨rfl, ⟨times[index percentile times.length].2, ?_⟩, rfl, ?_, ?_⟩
  · rw [List.getElem?_eq_getElem hplace, percentileOfRuns, habove]
    rfl
  · rw [percentileOfRuns, List.length_map, List.length_drop]
  · rw [percentileOfRuns, List.map_drop]
    exact hnodup.drop

/-! ### Nodes -/

/-- The timings of a node among some timings, in their order. -/
def carrying (node : String) (timings : List NodeTiming) : List NodeTiming :=
  timings.filter fun timing ↦ timing.node = node

theorem carrying_concat (node : String) (timings : List NodeTiming) (timing : NodeTiming) :
    carrying node (timings ++ [timing]) =
      if timing.node = node then carrying node timings ++ [timing] else carrying node timings := by
  rw [carrying, List.filter_append]
  split <;> simp [carrying, *]

theorem carrying_eq_nil_iff {node : String} {summaries : List WorkflowSummary} :
    carrying node (summaries.flatMap WorkflowSummary.nodes) = [] ↔
      ∀ summary ∈ summaries, ∀ timing ∈ summary.nodes, timing.node ≠ node := by
  simp only [carrying, List.filter_eq_nil_iff, List.mem_flatMap, decide_eq_true_iff]
  constructor
  · exact fun hall summary hsummary timing htiming ↦ hall timing ⟨summary, hsummary, htiming⟩
  · rintro hall timing ⟨summary, hsummary, htiming⟩
    exact hall summary hsummary timing htiming

/-- Each node is found with the type of its first timing and the durations of all of them. -/
theorem get?_durationsByNode (timings : List NodeTiming) (node : String) :
    (durationsByNode timings).get? node = (carrying node timings).head?.map fun first ↦
      (first.type, (carrying node timings).map NodeTiming.duration) := by
  induction timings using List.reverseRecOn with
  | nil => rfl
  | append_singleton timings timing ih =>
    have hsame : compare node timing.node = .eq ↔ timing.node = node :=
      Std.LawfulEqCmp.compare_eq_iff_eq.trans eq_comm
    rw [durationsByNode, List.foldl_append, ← durationsByNode, List.foldl_cons, List.foldl_nil,
      SortedMap.get?_insert, carrying_concat]
    by_cases hnode : timing.node = node
    · rw [if_pos (hsame.mpr hnode), if_pos hnode, hnode, ih]
      cases carrying node timings with
      | nil => rfl
      | cons first rest => rw [List.map_append]; rfl
    · rw [if_neg (mt hsame.mp hnode), if_neg hnode, ih]

/-- What is told of one node: how many timings it has, their type and their mean, and each percentile
as the duration at its rank, which is there. -/
structure DescribesNode (percentiles : List Float) (timings : List NodeTiming)
    (told : NodeStatistics) : Prop where
  type : timings.head?.map NodeTiming.type = some told.type
  runs : told.runs = timings.length
  average : IsMean (timings.map NodeTiming.duration) told.averageDuration
  percentiles : ∃ durations : List UInt64,
    durations.Perm (timings.map NodeTiming.duration) ∧ durations.Pairwise (· ≤ ·) ∧
    List.Forall₂ (fun percentile reported ↦ reported.1 = percentile ∧
      durations[index percentile timings.length]? = some reported.2) percentiles told.percentiles

theorem describesNode_ofNode (percentiles : List Float) (first : NodeTiming)
    (rest : List NodeTiming) :
    DescribesNode percentiles (first :: rest)
      (ofNode percentiles first.type ((first :: rest).map NodeTiming.duration)) := by
  let timings := first :: rest
  have hperm : (timings.map NodeTiming.duration).mergeSort.Perm (timings.map NodeTiming.duration) :=
    List.mergeSort_perm _ _
  have hlength : (timings.map NodeTiming.duration).mergeSort.length = timings.length := by
    rw [hperm.length_eq, List.length_map]
  refine ⟨rfl, hlength, isMean_average hperm, _, hperm, pairwise_mergeSort_le _, ?_⟩
  refine List.forall₂_map_right_iff.mpr (List.forall₂_same.mpr fun percentile _ ↦ ⟨rfl, ?_⟩)
  have hplace : index percentile timings.length <
      (timings.map NodeTiming.duration).mergeSort.length :=
    hlength.symm ▸ index_lt percentile (Nat.zero_lt_succ _)
  rw [percentileOfDurations, hlength, List.getD_eq_getElem?_getD, List.getElem?_eq_getElem hplace]
  rfl

/-! ### Windows -/

/-- What is told of the summaries of a window: how many there are, their mean running time, each
percentile of the running times with the runs from there on, and of each node that occurs in them,
and of no other, what describes its timings. -/
structure Describes (first last : UInt64) (percentiles : List Float)
    (summaries : List WorkflowSummary) (told : WorkflowStatistics) : Prop where
  startTime : told.startTime = first
  endTime : told.endTime = last
  runs : told.runs = summaries.length
  average : IsMean (summaries.map WorkflowSummary.timeTaken) told.averageRunTime
  times : ∃ times : List RunTime,
    times.Perm (summaries.map fun summary ↦ (summary.timeTaken, summary.id)) ∧
    times.Pairwise RunTime.IsBefore ∧
    List.Forall₂ (DescribesRuns times) percentiles told.percentiles
  absent : ∀ node, told.nodes.get? node = none ↔
    ∀ summary ∈ summaries, ∀ timing ∈ summary.nodes, timing.node ≠ node
  present : ∀ node described, told.nodes.get? node = some described →
    DescribesNode percentiles (carrying node (summaries.flatMap WorkflowSummary.nodes)) described

/-- Running times of different runs are sorted strictly. -/
theorem pairwise_sortedTimes {summaries : List WorkflowSummary}
    (hruns : (summaries.map WorkflowSummary.id).Nodup) :
    (sortedTimes summaries).Pairwise RunTime.IsBefore := by
  let order : RunTime → RunTime → Ordering := compareLex (compareOn Prod.fst) (compareOn Prod.snd)
  have hnodup : (summaries.map fun summary ↦ (summary.timeTaken, summary.id)).Nodup := by
    refine List.Nodup.of_map Prod.snd ?_
    rw [List.map_map]
    exact hruns
  have hties (first second : RunTime) (heq : order first second = .eq) : first = second := by
    obtain ⟨htime, hid⟩ := Ordering.then_eq_eq.mp heq
    exact Prod.ext (Std.LawfulEqOrd.eq_of_compare htime) (Key.id_of_compare hid)
  have hsorted := @pairwise_mergeSort_of_ties _ order
    (inferInstanceAs (Std.TransCmp (compareLex (compareOn Prod.fst) (compareOn Prod.snd)))) _ hnodup
    fun first _ second _ ↦ hties first second
  refine hsorted.imp fun {first second} hlt ↦ ?_
  exact (Ordering.then_eq_lt.mp hlt).imp Std.compare_eq_lt.mp
    (And.imp_left Std.LawfulEqOrd.eq_of_compare)

/-- Each node is told of by its timings. -/
theorem get?_nodes (percentiles : List Float) (timings : List NodeTiming) (node : String) :
    (SortedMap.ofList ((durationsByNode timings).toList.map fun (node, type, durations) ↦
      (node, ofNode percentiles type durations))).get? node =
        (carrying node timings).head?.map fun first ↦
          ofNode percentiles first.type ((carrying node timings).map NodeTiming.duration) := by
  refine (SortedMap.get?_ofList_map (durationsByNode timings)
    (fun grouped ↦ ofNode percentiles grouped.1 grouped.2) node).trans ?_
  rw [get?_durationsByNode, Option.map_map]
  rfl

/-- The statistics of some summaries of different runs describe them; there are some unless there is
no summary. -/
theorem describes_ofSummaries? (first last : UInt64) (percentiles : List Float)
    {summaries : List WorkflowSummary} (hruns : (summaries.map WorkflowSummary.id).Nodup) :
    (ofSummaries? first last percentiles summaries = none ↔ summaries = []) ∧
    ∀ told, ofSummaries? first last percentiles summaries = some told →
      Describes first last percentiles summaries told := by
  unfold ofSummaries?
  by_cases hempty : summaries = []
  · rw [hempty]
    exact ⟨iff_of_true rfl rfl, fun told htold ↦ nomatch htold⟩
  rw [if_neg fun htest ↦ hempty (List.isEmpty_iff.mp htest)]
  refine ⟨iff_of_false (fun hnone ↦ nomatch hnone) hempty, ?_⟩
  rintro told ⟨⟩
  have hperm : (sortedTimes summaries).Perm
      (summaries.map fun summary ↦ (summary.timeTaken, summary.id)) := List.mergeSort_perm _ _
  have hlength : (sortedTimes summaries).length = summaries.length := by
    rw [hperm.length_eq, List.length_map]
  have hthere : sortedTimes summaries ≠ [] :=
    List.ne_nil_of_length_pos (hlength ▸ List.length_pos_iff.mpr hempty)
  have hvalues := hperm.map Prod.fst
  have hids := (hperm.map Prod.snd).nodup_iff.mpr (by rw [List.map_map]; exact hruns)
  rw [List.map_map] at hvalues
  exact {
    startTime := rfl
    endTime := rfl
    runs := hlength
    average := isMean_average hvalues
    times := ⟨sortedTimes summaries, hperm, pairwise_sortedTimes hruns,
      List.forall₂_map_right_iff.mpr (List.forall₂_same.mpr fun percentile _ ↦
        describesRuns_percentileOfRuns hthere hids percentile)⟩
    absent := fun node ↦ by
      rw [get?_nodes, Option.map_eq_none_iff, List.head?_eq_none_iff]
      exact carrying_eq_nil_iff
    present := fun node described hdescribed ↦ by
      rw [get?_nodes, Option.map_eq_some_iff] at hdescribed
      obtain ⟨timing, htiming, rfl⟩ := hdescribed
      obtain ⟨rest, hcarrying⟩ := List.head?_eq_some_iff.mp htiming
      rw [hcarrying]
      exact describesNode_ofNode percentiles timing rest }

end WorkflowStatistics

end RunLedger
