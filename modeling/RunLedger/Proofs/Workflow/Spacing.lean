import Mathlib.Data.List.Sort
import RunLedger.Workflow.Spacing

/-!
# Samples apart in time are greedy, and none is larger

The walk away from a summary takes the nearest one that is far enough from the one taken last, until
enough are taken or none is left (`Spacing.IsGreedy`, `Spacing.isGreedy_walk`). What is far enough
from a summary is also far enough from all that are nearer, as times do not turn back on the way
(`Spacing.Leads`). So the summaries taken are apart from each other (`IsGreedy.pairwise`), and there
is no larger selection (`IsGreedy.longest`): whichever summary such a selection has next, the walk
has taken it or a nearer one, and to exchange the two leaves the rest of the selection apart.

The sample around an anchor is made up of two such walks, to the summaries before it and to those
behind it (`around_greedy`).
-/

set_option autoImplicit false

namespace RunLedger.Spacing

/-- Two summaries start at least an interval apart. -/
def Apart (interval : UInt64) (first second : WorkflowSummary) : Prop :=
  first.startTime.toNat + interval.toNat ≤ second.startTime.toNat ∨
    second.startTime.toNat + interval.toNat ≤ first.startTime.toNat

theorem le_distance_iff {interval : UInt64} {first second : WorkflowSummary} :
    interval ≤ distance first.startTime second.startTime ↔ Apart interval first second := by
  have hlater := @UInt64.toNat_sub_of_le second.startTime first.startTime
  have hearlier := @UInt64.toNat_sub_of_le first.startTime second.startTime
  unfold distance Apart
  split
  · rename_i hle
    rw [UInt64.le_iff_toNat_le] at hle ⊢
    rw [hlater (UInt64.le_iff_toNat_le.mpr hle)]
    omega
  · rename_i hlt
    rw [UInt64.le_iff_toNat_le] at hlt ⊢
    rw [hearlier (UInt64.le_iff_toNat_le.mpr (by omega))]
    omega

/-- A direction to go among some summaries, given by which is farther than which: times do not turn
back, and so what is far enough is so from all that are nearer. -/
structure Leads (stored : WorkflowSummary → Prop) (farther : WorkflowSummary → WorkflowSummary → Prop)
    (interval : UInt64) : Prop where
  irrefl : ∀ summary, ¬ farther summary summary
  trans : ∀ {first second third}, farther first second → farther second third → farther first third
  widens : ∀ {first second third}, stored first → stored second → stored third →
    farther first second → farther second third → Apart interval second third →
      Apart interval first third

/-- The summary may be taken behind another one. -/
structure MayFollow (stored : WorkflowSummary → Prop)
    (farther : WorkflowSummary → WorkflowSummary → Prop) (interval : UInt64)
    (last summary : WorkflowSummary) : Prop where
  stored : stored summary
  farther : farther last summary
  apart : Apart interval last summary

/-- Summaries taken behind one another: each is the nearest that may be taken behind the one before
it, and they end only where as many are taken as may be or none is left. -/
inductive IsGreedy (stored : WorkflowSummary → Prop)
    (farther : WorkflowSummary → WorkflowSummary → Prop) (interval : UInt64) :
    (last : WorkflowSummary) → (limit : Nat) → List WorkflowSummary → Prop
  | full {last} : IsGreedy stored farther interval last 0 []
  | ended {last limit} (hnone : ∀ other, ¬ MayFollow stored farther interval last other) :
    IsGreedy stored farther interval last limit []
  | taken {last summary limit rest} (hmay : MayFollow stored farther interval last summary)
    (hnearest : ∀ other, MayFollow stored farther interval last other →
      other = summary ∨ farther summary other)
    (hrest : IsGreedy stored farther interval summary limit rest) :
    IsGreedy stored farther interval last (limit + 1) (summary :: rest)

section

variable {stored : WorkflowSummary → Prop} {farther : WorkflowSummary → WorkflowSummary → Prop}
  {interval : UInt64} {last : WorkflowSummary} {limit : Nat} {taken : List WorkflowSummary}

/-! ### Walks -/

/-- A walk is greedy if the summaries before it are all that may be taken from now on, the nearer
before the farther. -/
theorem isGreedy_walk (hleads : Leads stored farther interval) {rest : List WorkflowSummary}
    (hordered : rest.Pairwise farther) (hstored : ∀ summary ∈ rest, stored summary)
    (hfarther : ∀ summary ∈ rest, farther last summary)
    (hlast : stored last) (hall : ∀ other, MayFollow stored farther interval last other → other ∈ rest)
    (limit : Nat) :
    IsGreedy stored farther interval last limit (walk interval last.startTime limit rest) := by
  induction rest generalizing last limit with
  | nil =>
    unfold walk
    exact .ended fun other hother ↦ List.not_mem_nil (hall other hother)
  | cons summary rest ih =>
    obtain ⟨hbehind, hordered⟩ := List.pairwise_cons.mp hordered
    obtain ⟨hsummary, hstored⟩ := List.forall_mem_cons.mp hstored
    obtain ⟨hnext, hfarther⟩ := List.forall_mem_cons.mp hfarther
    cases limit with
    | zero =>
      unfold walk
      exact .full
    | succ limit =>
      unfold walk
      split
      · rename_i hfar
        have hmay : MayFollow stored farther interval last summary :=
          ⟨hsummary, hnext, le_distance_iff.mp hfar⟩
        refine .taken hmay (fun other hother ↦ ?_) ?_
        · exact (List.mem_cons.mp (hall other hother)).imp_right (hbehind other)
        · refine ih hordered hstored hbehind hsummary (fun other hother ↦ ?_) limit
          have hstill : MayFollow stored farther interval last other :=
            ⟨hother.stored, hleads.trans hnext hother.farther,
              hleads.widens hlast hsummary hother.stored hnext hother.farther hother.apart⟩
          refine (List.mem_cons.mp (hall other hstill)).resolve_left ?_
          rintro rfl
          exact hleads.irrefl _ hother.farther
      · rename_i hnear
        refine ih hordered hstored hfarther hlast (fun other hother ↦ ?_) (limit + 1)
        refine (List.mem_cons.mp (hall other hother)).resolve_left ?_
        rintro rfl
        exact hnear (le_distance_iff.mpr hother.apart)

/-! ### What is taken -/

theorem IsGreedy.length_le (hgreedy : IsGreedy stored farther interval last limit taken) :
    taken.length ≤ limit := by
  induction hgreedy with
  | full => exact Nat.le_refl 0
  | ended => exact Nat.zero_le _
  | taken _ _ _ ih => exact Nat.succ_le_succ ih

theorem IsGreedy.stored_of_mem (hgreedy : IsGreedy stored farther interval last limit taken) :
    ∀ summary ∈ taken, stored summary := by
  induction hgreedy with
  | full | ended => exact List.forall_mem_nil _
  | taken hmay _ _ ih => exact List.forall_mem_cons.mpr ⟨hmay.stored, ih⟩

/-- What is taken goes away from the summary that the walk began at, and is apart from it and from
each other. -/
theorem IsGreedy.pairwise (hleads : Leads stored farther interval) (hlast : stored last)
    (hgreedy : IsGreedy stored farther interval last limit taken) :
    (last :: taken).Pairwise fun first second ↦
      farther first second ∧ Apart interval first second := by
  induction hgreedy with
  | full | ended => exact List.pairwise_singleton _ _
  | taken hmay _ hrest ih =>
    have hbehind := ih hmay.stored
    refine List.pairwise_cons.mpr ⟨List.forall_mem_cons.mpr ⟨⟨hmay.farther, hmay.apart⟩,
      fun summary hsummary ↦ ?_⟩, hbehind⟩
    obtain ⟨hfarther, hapart⟩ := List.rel_of_pairwise_cons hbehind hsummary
    exact ⟨hleads.trans hmay.farther hfarther, hleads.widens hlast hmay.stored
      (hrest.stored_of_mem summary hsummary) hmay.farther hfarther hapart⟩

/-- No selection in walking order has more summaries than are taken. -/
theorem IsGreedy.longest (hleads : Leads stored farther interval)
    (hgreedy : IsGreedy stored farther interval last limit taken) {chosen : List WorkflowSummary}
    (hstored : ∀ summary ∈ chosen, stored summary)
    (hordered : (last :: chosen).Pairwise fun first second ↦
      farther first second ∧ Apart interval first second)
    (hlimit : chosen.length ≤ limit) : chosen.length ≤ taken.length := by
  induction hgreedy generalizing chosen with
  | full => exact hlimit
  | ended hnone =>
    cases chosen with
    | nil => exact Nat.le_refl 0
    | cons first rest =>
      obtain ⟨hfarther, hapart⟩ := List.rel_of_pairwise_cons hordered List.mem_cons_self
      exact absurd ⟨hstored first List.mem_cons_self, hfarther, hapart⟩ (hnone first)
  | @taken last summary limit rest hmay hnearest _ ih =>
    cases chosen with
    | nil => exact Nat.zero_le _
    | cons first others =>
      obtain ⟨hfirst, hbehind⟩ := List.pairwise_cons.mp hordered
      obtain ⟨hfirstStored, hothers⟩ := List.forall_mem_cons.mp hstored
      obtain ⟨hfarther, hapart⟩ := hfirst first List.mem_cons_self
      -- the summary that was taken is exchanged for the first of the selection
      have hnear := hnearest first ⟨hfirstStored, hfarther, hapart⟩
      have hexchanged : (summary :: others).Pairwise fun first second ↦
          farther first second ∧ Apart interval first second := by
        refine List.pairwise_cons.mpr ⟨fun other hother ↦ ?_, (List.pairwise_cons.mp hbehind).2⟩
        obtain ⟨hbeyond, hapart⟩ := List.rel_of_pairwise_cons hbehind hother
        rcases hnear with rfl | hnearer
        · exact ⟨hbeyond, hapart⟩
        · exact ⟨hleads.trans hnearer hbeyond, hleads.widens hmay.stored hfirstStored
            (hothers other hother) hnearer hbeyond hapart⟩
      exact Nat.succ_le_succ (ih hothers hexchanged (Nat.le_of_succ_le_succ hlimit))

/-- In whatever order a selection is given, it has no more summaries than are taken. -/
theorem IsGreedy.longest_of_perm (hleads : Leads stored farther interval)
    (hgreedy : IsGreedy stored farther interval last limit taken)
    {sorted chosen : List WorkflowSummary} (hperm : sorted.Perm chosen)
    (hsorted : sorted.Pairwise farther)
    (hchosen : ∀ summary ∈ chosen, stored summary ∧ farther last summary)
    (hapart : (last :: chosen).Pairwise (Apart interval)) (hlimit : chosen.length ≤ limit) :
    chosen.length ≤ taken.length := by
  have hmem {summary : WorkflowSummary} (hsummary : summary ∈ sorted) :
      stored summary ∧ farther last summary := hchosen summary (hperm.mem_iff.mp hsummary)
  have hordered : (last :: sorted).Pairwise farther :=
    List.pairwise_cons.mpr ⟨fun summary hsummary ↦ (hmem hsummary).2, hsorted⟩
  have hspaced : (last :: sorted).Pairwise (Apart interval) :=
    ((hperm.cons last).pairwise_iff Or.symm).mpr hapart
  rw [← hperm.length_eq] at hlimit ⊢
  exact hgreedy.longest hleads (fun summary hsummary ↦ (hmem hsummary).1) (hordered.and hspaced)
    hlimit

end

/-! ### Samples around an anchor -/

/-- One summary comes before another in the order of their run ids. -/
def Precedes (first second : WorkflowSummary) : Prop := compare first.id second.id = .lt

theorem Precedes.irrefl (summary : WorkflowSummary) : ¬ Precedes summary summary := by
  intro hprecedes
  cases hprecedes.symm.trans (Std.ReflCmp.compare_self)

theorem Precedes.trans {first second third : WorkflowSummary} (hfirst : Precedes first second)
    (hsecond : Precedes second third) : Precedes first third :=
  Std.TransCmp.lt_trans hfirst hsecond

/-- A summary starts in the second of its run id. -/
def IsTimely (summary : WorkflowSummary) : Prop := summary.startTime = summary.id.seconds

theorem Precedes.le {first second : WorkflowSummary} (hprecedes : Precedes first second)
    (hfirst : IsTimely first) (hsecond : IsTimely second) :
    first.startTime.toNat ≤ second.startTime.toNat := by
  rw [hfirst, hsecond, ← UInt64.le_iff_toNat_le, ← UInt64.not_lt]
  intro hlt
  have hgt : compare first.id.seconds second.id.seconds = .gt := Std.compare_eq_gt.mpr hlt
  have hcompare : (compare first.id.seconds second.id.seconds).then
      (compare first.id.text second.id.text) = .lt := hprecedes
  rw [hgt] at hcompare
  cases hcompare

section

variable {stored : WorkflowSummary → Prop} (htimely : ∀ summary, stored summary → IsTimely summary)

include htimely

theorem leads_forward (interval : UInt64) : Leads stored Precedes interval where
  irrefl := Precedes.irrefl
  trans := Precedes.trans
  widens hfirst hsecond hthird hnear hfar hapart := by
    have hbetween := hnear.le (htimely _ hfirst) (htimely _ hsecond)
    have hbeyond := hfar.le (htimely _ hsecond) (htimely _ hthird)
    unfold Apart at hapart ⊢
    omega

theorem leads_backward (interval : UInt64) :
    Leads stored (fun first second ↦ Precedes second first) interval where
  irrefl := Precedes.irrefl
  trans hfirst hsecond := hsecond.trans hfirst
  widens hfirst hsecond hthird hnear hfar hapart := by
    have hbetween := hnear.le (htimely _ hsecond) (htimely _ hfirst)
    have hbeyond := hfar.le (htimely _ hthird) (htimely _ hsecond)
    unfold Apart at hapart ⊢
    omega

end

/-- Where the anchor lies among summaries in the order of their run ids, the sample is a walk from it
to those before it and one to those behind it. -/
theorem around_of_append {before behind : List WorkflowSummary} {anchor : WorkflowSummary}
    (hsorted : (before ++ anchor :: behind).Pairwise Precedes) (limit : Nat) (interval : UInt64) :
    around anchor anchor.id limit interval (before ++ anchor :: behind) =
      (walk interval anchor.startTime limit before.reverse).reverse ++
        anchor :: walk interval anchor.startTime limit behind := by
  have hothers : ∀ summary ∈ before, decide (summary.id ≠ anchor.id) = true := by
    intro summary hsummary
    refine decide_eq_true fun hsame ↦ ?_
    have hprecedes : Precedes summary anchor :=
      (List.pairwise_append.mp hsorted).2.2 summary hsummary anchor List.mem_cons_self
    unfold Precedes at hprecedes
    rw [hsame] at hprecedes
    cases hprecedes.symm.trans Std.ReflCmp.compare_self
  have hstop : decide (anchor.id ≠ anchor.id) ≠ true := by simp
  have htaken : (before ++ anchor :: behind).takeWhile (fun summary ↦ summary.id ≠ anchor.id) =
      before := by
    rw [List.takeWhile_append_of_pos hothers, @List.takeWhile_cons_of_neg _ _ anchor _ hstop,
      List.append_nil]
  have hdropped : (before ++ anchor :: behind).dropWhile (fun summary ↦ summary.id ≠ anchor.id) =
      anchor :: behind := by
    rw [List.dropWhile_append_of_pos hothers, @List.dropWhile_cons_of_neg _ _ anchor _ hstop]
  unfold around
  rw [htaken, hdropped]

/-- The sample around one of some summaries is made up of two greedy walks away from it. -/
theorem around_greedy {summaries : List WorkflowSummary} {anchor : WorkflowSummary}
    (hsorted : summaries.Pairwise Precedes) (htimely : ∀ summary ∈ summaries, IsTimely summary)
    (hanchor : anchor ∈ summaries) (limit : Nat) (interval : UInt64) :
    ∃ before behind, around anchor anchor.id limit interval summaries =
        before.reverse ++ anchor :: behind ∧
      IsGreedy (· ∈ summaries) (fun first second ↦ Precedes second first) interval anchor limit
        before ∧
      IsGreedy (· ∈ summaries) Precedes interval anchor limit behind := by
  obtain ⟨before, behind, rfl⟩ := List.append_of_mem hanchor
  obtain ⟨hbefore, hbehind, hprecede⟩ := List.pairwise_append.mp hsorted
  obtain ⟨hfollow, hbehind⟩ := List.pairwise_cons.mp hbehind
  replace hprecede (summary : WorkflowSummary) (hsummary : summary ∈ before) :
      Precedes summary anchor := hprecede summary hsummary anchor List.mem_cons_self
  have hside {summary : WorkflowSummary} (hsummary : summary ∈ before ++ anchor :: behind) :
      summary ∈ before ∨ summary = anchor ∨ summary ∈ behind :=
    (List.mem_append.mp hsummary).imp_right List.mem_cons.mp
  refine ⟨_, _, around_of_append hsorted limit interval, ?_, ?_⟩
  · refine isGreedy_walk (leads_backward htimely interval) (List.pairwise_reverse.mpr hbefore)
      (fun summary hsummary ↦ List.mem_append_left _ (List.mem_reverse.mp hsummary))
      (fun summary hsummary ↦ hprecede summary (List.mem_reverse.mp hsummary)) hanchor
      (fun other hother ↦ ?_) limit
    rcases hside hother.stored with hmem | rfl | hmem
    · exact List.mem_reverse.mpr hmem
    · exact absurd hother.farther (Precedes.irrefl _)
    · exact absurd (hother.farther.trans (hfollow other hmem)) (Precedes.irrefl _)
  · refine isGreedy_walk (leads_forward htimely interval) hbehind
      (fun summary hsummary ↦ List.mem_append_right _ (List.mem_cons_of_mem _ hsummary)) hfollow
      hanchor (fun other hother ↦ ?_) limit
    rcases hside hother.stored with hmem | rfl | hmem
    · exact absurd (hother.farther.trans (hprecede other hmem)) (Precedes.irrefl _)
    · exact absurd hother.farther (Precedes.irrefl _)
    · exact hmem

end RunLedger.Spacing
