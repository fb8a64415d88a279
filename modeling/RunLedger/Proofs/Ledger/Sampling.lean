import RunLedger.Proofs.Ledger.StoredSummaries

/-!
# Samples of a workflow's summaries

On a ledger that operations have made, the sample around a run that has a summary is made up of two
greedy walks through the stored summaries of the workflow, one to those before it and one to those
behind it, and no selection on either side is larger (`spacedSummaries_greedy`). Stored summaries
start in the seconds of their run ids, so times go with the order of the keys, and the selections
need not be given in that order (`Spacing.exists_perm_pairwise`).
-/

set_option autoImplicit false

namespace RunLedger

namespace Spacing

/-! ### Sides of a sample -/

/-- Some summaries of different runs are put in the order of their run ids. -/
theorem exists_perm_pairwise {chosen : List WorkflowSummary} (hnodup : chosen.Nodup)
    (hruns : ∀ first ∈ chosen, ∀ second ∈ chosen, first.id = second.id → first = second) :
    ∃ sorted : List WorkflowSummary, sorted.Perm chosen ∧ sorted.Pairwise Precedes := by
  let order : WorkflowSummary → WorkflowSummary → Ordering := compareOn WorkflowSummary.id
  have hsorted := @pairwise_mergeSort_of_ties _ order
    (inferInstanceAs (Std.TransCmp (compareOn WorkflowSummary.id))) _ hnodup
    fun first hfirst second hsecond hties ↦
      hruns first hfirst second hsecond (Key.id_of_compare hties)
  exact ⟨_, List.mergeSort_perm chosen _, hsorted⟩

/-- The summaries on one side of an anchor that a sample has: they are taken greedily, there are not
too many, and no other selection of stored summaries on that side, apart from the anchor and from
each other and within the limit, has more. -/
structure IsSide (stored : WorkflowSummary → Prop)
    (farther : WorkflowSummary → WorkflowSummary → Prop) (interval : UInt64)
    (anchor : WorkflowSummary) (limit : Nat) (taken : List WorkflowSummary) : Prop where
  greedy : IsGreedy stored farther interval anchor limit taken
  length_le : taken.length ≤ limit
  longest : ∀ chosen : List WorkflowSummary, chosen.Nodup →
    (∀ summary ∈ chosen, stored summary ∧ farther anchor summary) →
    (anchor :: chosen).Pairwise (Apart interval) → chosen.length ≤ limit →
      chosen.length ≤ taken.length

section

variable {stored : WorkflowSummary → Prop}
  (hruns : ∀ first second, stored first → stored second → first.id = second.id → first = second)
  {interval : UInt64} {anchor : WorkflowSummary} {limit : Nat} {taken : List WorkflowSummary}

include hruns

theorem IsGreedy.isSide_behind (hleads : Leads stored Precedes interval)
    (hgreedy : IsGreedy stored Precedes interval anchor limit taken) :
    IsSide stored Precedes interval anchor limit taken := by
  refine ⟨hgreedy, hgreedy.length_le, fun chosen hnodup hchosen hapart hlimit ↦ ?_⟩
  obtain ⟨sorted, hperm, hsorted⟩ := exists_perm_pairwise hnodup fun first hfirst second hsecond ↦
    hruns first second (hchosen first hfirst).1 (hchosen second hsecond).1
  exact hgreedy.longest_of_perm hleads hperm hsorted hchosen hapart hlimit

theorem IsGreedy.isSide_before
    (hleads : Leads stored (fun first second ↦ Precedes second first) interval)
    (hgreedy : IsGreedy stored (fun first second ↦ Precedes second first) interval anchor limit
      taken) :
    IsSide stored (fun first second ↦ Precedes second first) interval anchor limit taken := by
  refine ⟨hgreedy, hgreedy.length_le, fun chosen hnodup hchosen hapart hlimit ↦ ?_⟩
  obtain ⟨sorted, hperm, hsorted⟩ := exists_perm_pairwise hnodup fun first hfirst second hsecond ↦
    hruns first second (hchosen first hfirst).1 (hchosen second hsecond).1
  exact hgreedy.longest_of_perm hleads (sorted.reverse_perm.trans hperm)
    (List.pairwise_reverse.mpr hsorted) hchosen hapart hlimit

end

/-- A sample in the order of its run ids: the summaries before the anchor, the anchor, and those
behind it. -/
theorem pairwise_sample {stored : WorkflowSummary → Prop}
    (htimely : ∀ summary, stored summary → IsTimely summary) {interval : UInt64}
    {anchor : WorkflowSummary} (hanchor : stored anchor) {limit : Nat}
    {before behind : List WorkflowSummary}
    (hbefore : IsGreedy stored (fun first second ↦ Precedes second first) interval anchor limit
      before)
    (hbehind : IsGreedy stored Precedes interval anchor limit behind) :
    (before.reverse ++ anchor :: behind).Pairwise fun first second ↦
      first.startTime ≤ second.startTime ∧ Apart interval first second := by
  have hforward := leads_forward htimely interval
  obtain ⟨hearly, hback⟩ := List.pairwise_cons.mp
    (hbefore.pairwise (leads_backward htimely interval) hanchor)
  have hlate := hbehind.pairwise hforward hanchor
  have hstored : ∀ summary ∈ before.reverse ++ anchor :: behind, stored summary := by
    refine List.forall_mem_append.mpr ⟨fun summary hsummary ↦ ?_,
      List.forall_mem_cons.mpr ⟨hanchor, hbehind.stored_of_mem⟩⟩
    exact hbefore.stored_of_mem summary (List.mem_reverse.mp hsummary)
  have hpairs : (before.reverse ++ anchor :: behind).Pairwise fun first second ↦
      Precedes first second ∧ Apart interval first second := by
    refine List.pairwise_append.mpr ⟨List.pairwise_reverse.mpr (hback.imp fun hpair ↦
      ⟨hpair.1, hpair.2.symm⟩), hlate, fun first hfirst second hsecond ↦ ?_⟩
    obtain ⟨hprecedes, hapart⟩ := hearly first (List.mem_reverse.mp hfirst)
    rcases List.mem_cons.mp hsecond with rfl | hsecond
    · exact ⟨hprecedes, hapart.symm⟩
    · obtain ⟨hfollows, hbeyond⟩ := List.rel_of_pairwise_cons hlate hsecond
      exact ⟨hprecedes.trans hfollows, hforward.widens
        (hbefore.stored_of_mem first (List.mem_reverse.mp hfirst)) hanchor
        (hbehind.stored_of_mem second hsecond) hprecedes hfollows hbeyond⟩
  refine hpairs.imp_of_mem fun {first second} hfirst hsecond hpair ↦ ⟨?_, hpair.2⟩
  exact UInt64.le_iff_toNat_le.mpr
    (hpair.1.le (htimely _ (hstored _ hfirst)) (htimely _ (hstored _ hsecond)))

end Spacing

/-! ### Samples of a ledger -/

open Spacing

theorem Summaries.eval_spaced {contents : Contents} (hsummarized : contents.Summarized)
    {workflow : ProgramId} {id : RunId} {anchor : WorkflowSummary}
    (hanchor : contents.summary? workflow id = some anchor) (limit : Nat) (interval : UInt64) :
    ∃ listed : List WorkflowSummary,
      (spaced workflow id limit interval).eval contents =
        (.ok (some (around anchor id limit interval listed)), contents) ∧
      listed.Pairwise Precedes ∧
      ∀ summary, summary ∈ listed ↔ contents.summary? workflow summary.id = some summary := by
  obtain ⟨listed, hrows, hsorted, hmem⟩ := exists_all hsummarized workflow
  refine ⟨listed, ?_, hsorted, hmem⟩
  unfold spaced
  rw [Script.eval_bind, eval_find? hsummarized, hanchor]
  dsimp only
  rw [Script.eval_bind, hrows]
  dsimp only
  rw [Contents.decodeAll_summaryRow]
  rfl

end RunLedger
