import RunLedger.Proofs.Double.Rounding
import RunLedger.Workflow.NearestRank

/-!
# Ranks of whole percentiles

The place of a whole percentile in exact numbers is the least rank with at least so many of the
values at or below it (`NearestRank.exactIndex`, `NearestRank.isLeast_exactIndex`). The place that
doubles give can be another one: the hundredth of the percentile is rounded, and its excess
(`NearestRank.excess`) times the number of values may be more than half a unit of the product. Where
the exact product is a whole number, the ceiling is then one too high (`NearestRank.Overshoots`).
Any other product is at least a hundredth away from the next whole number, which errors reach only
from 2^52 hundredths on (`NearestRank.ceiling_exact`).

`NearestRank.whole_percentile_place` gives the place of every whole percentile, and
`NearestRank.overshoots_iff` the twelve percentiles that are ever too high.
-/

set_option autoImplicit false

namespace RunLedger.NearestRank

open Double Float.Model Float.Model.UnpackedFloat

/-! ### Ceilings -/

theorem ceiling_eq {double : Float} (hnormal : IsNormal double) (hsmall : value double < 2 ^ 53) :
    ceiling double = ⌈value double⌉₊ := by
  have hnonneg : 0 ≤ value double := hnormal.value_pos.le
  have hfloor := toNat_toUInt64 hnormal hsmall
  have hwhole : double.toUInt64 = UInt64.ofNat ⌊value double⌋₊ := by
    rw [← hfloor, UInt64.ofNat_toNat]
  have hlt := ofNat_lt_iff hnormal ((Nat.floor_lt hnonneg).mpr (by exact_mod_cast hsmall))
  rw [← hwhole] at hlt
  unfold ceiling
  simp only [hlt, hfloor]
  split
  · rename_i hbelow
    refine ((Nat.ceil_eq_iff (Nat.succ_ne_zero _)).mpr ⟨hbelow, ?_⟩).symm
    exact_mod_cast (Nat.lt_floor_add_one (value double)).le
  · rename_i hnot
    have hsame := le_antisymm (not_lt.mp hnot) (Nat.floor_le hnonneg)
    exact le_antisymm (Nat.floor_le_ceil _) (Nat.ceil_le.mpr hsame.le)

/-! ### Exact places -/

/-- The ranks that have at least the given percentage of the values at or below them. -/
def sufficientRanks (percent count : ℕ) : Set ℕ :=
  {rank | 0 < rank ∧ percent * count ≤ 100 * rank}

/-- The place, from zero, of a whole percentile in exact numbers. -/
def exactIndex (percent count : ℕ) : ℕ :=
  min (max ((percent * count + 99) / 100) 1) count - 1

theorem isLeast_exactIndex {percent count : ℕ} (hpercent : percent ≤ 100) (hcount : 0 < count) :
    IsLeast (sufficientRanks percent count) (exactIndex percent count + 1) := by
  have hmost : percent * count ≤ 100 * count := Nat.mul_le_mul_right count hpercent
  unfold exactIndex
  refine ⟨⟨Nat.succ_pos _, ?_⟩, fun rank ⟨hrank, hsufficient⟩ ↦ ?_⟩ <;> omega

/-! ### Hundredths -/

/-- A whole percentile divided by a hundred. -/
def hundredth (percent : ℕ) : Float :=
  (UInt64.ofNat percent).toFloat / 100

/-- How far the double of a hundredth is above it. -/
def excess (percent : ℕ) : ℚ :=
  value (hundredth percent) - percent / 100

/-- Whether a product that is a whole number is rounded above it: its excess is more than half of
its unit. -/
def Overshoots (percent count : ℕ) : Prop :=
  100 ∣ percent * count ∧
    (2 : ℚ) ^ (percent * count / 100).log2 < excess percent * count * 2 ^ 53

instance (percent count : ℕ) : Decidable (Overshoots percent count) :=
  inferInstanceAs (Decidable (_ ∧ _))

theorem hundredth_spec : ∀ percent ∈ List.range' 1 100, IsNormal (hundredth percent) ∧
    |excess percent| * 2 ^ 53 ≤ percent / 100 ∧ |excess percent| * 2 ^ 54 ≤ 1 := by
  decide +kernel

/-- The excess of a product is at most a 2^53rd of it, and less than one half. -/
theorem abs_excess_mul_le {percent : ℕ} (count : ℕ) (hpositive : 0 < percent)
    (hpercent : percent ≤ 100) :
    |excess percent * count| * 2 ^ 53 ≤ percent * count / 100 ∧
      |excess percent * count| * 2 ^ 54 ≤ count := by
  obtain ⟨-, hrelative, habsolute⟩ :=
    hundredth_spec percent (List.mem_range'_1.mpr ⟨hpositive, by omega⟩)
  have hcount : (0 : ℚ) ≤ count := Nat.cast_nonneg count
  rw [abs_mul, abs_of_nonneg hcount]
  constructor
  · have hscaled := mul_le_mul_of_nonneg_right hrelative hcount
    linarith
  · have hscaled := mul_le_mul_of_nonneg_right habsolute hcount
    linarith

/-! ### Products -/

section

variable {percent count : ℕ}

/-- The ceiling is taken of the exact product with its excess, rounded. -/
theorem exists_product (hpositive : 0 < percent) (hpercent : percent ≤ 100) (hcount : 0 < count)
    (hsize : count < 2 ^ 53) :
    ∃ product : ℚ, ceiling (hundredth percent * (UInt64.ofNat count).toFloat) = ⌈product⌉₊ ∧
      percent * count / 100 + excess percent * count < (2 : ℚ) ^ 53 ∧
      IsRounded (percent * count / 100 + excess percent * count) product := by
  obtain ⟨hnormal, -⟩ := hundredth_spec percent (List.mem_range'_1.mpr ⟨hpositive, by omega⟩)
  obtain ⟨hrelative, habsolute⟩ := abs_excess_mul_le count hpositive hpercent
  obtain ⟨hwhole, hvalue⟩ := ofNat_exact hcount hsize
  have hexact : value (hundredth percent) * value (UInt64.ofNat count).toFloat =
      percent * count / 100 + excess percent * count := by
    rw [hvalue, excess]
    ring
  have hone : (1 : ℚ) ≤ percent * count := by exact_mod_cast Nat.mul_pos hpositive hcount
  have hshare : (percent * count : ℚ) ≤ 100 * count := by
    exact_mod_cast Nat.mul_le_mul_right count hpercent
  have hmost : (count : ℚ) + 1 ≤ 2 ^ 53 := by exact_mod_cast hsize
  have hlow : (1 : ℚ) / 200 ≤ percent * count / 100 + excess percent * count := by
    linarith [neg_abs_le (excess percent * count)]
  have hhigh : percent * count / 100 + excess percent * count + 1 / 2 < (2 : ℚ) ^ 53 := by
    linarith [le_abs_self (excess percent * count)]
  have hleast : (2 : ℚ) ^ (-1022 : ℤ) ≤ 1 / 200 :=
    (zpow_le_zpow_right₀ one_le_two (by norm_num : (-1022 : ℤ) ≤ -8)).trans (by norm_num)
  have hgreatest : (2 : ℚ) ^ 53 ≤ 2 ^ (1023 : ℤ) := by
    rw [← zpow_natCast]
    exact zpow_le_zpow_right₀ one_le_two (by norm_num)
  have hbelow : value (hundredth percent) * value (UInt64.ofNat count).toFloat < 2 ^ 53 := by
    rw [hexact]
    linarith
  obtain ⟨hproduct, hrounded⟩ := mul_rounded hnormal hwhole (hleast.trans (hexact ▸ hlow))
    (hbelow.trans_le hgreatest)
  rw [hexact] at hrounded
  have herror := le_of_abs_le (hrounded.abs_sub_le_half (by linarith))
  exact ⟨_, ceiling_eq hproduct (by linarith), by linarith, hrounded⟩

/-- Both errors together are less than one. -/
theorem ceiling_near (hpositive : 0 < percent) (hpercent : percent ≤ 100) (hcount : 0 < count)
    (hsize : count < 2 ^ 53) :
    ceiling (hundredth percent * (UInt64.ofNat count).toFloat) ≤ (percent * count + 99) / 100 + 1 ∧
      (percent * count + 99) / 100 ≤
        ceiling (hundredth percent * (UInt64.ofNat count).toFloat) + 1 := by
  obtain ⟨product, hceiling, hsmall, hrounded⟩ := exists_product hpositive hpercent hcount hsize
  obtain ⟨-, habsolute⟩ := abs_excess_mul_le count hpositive hpercent
  have hmost : (count : ℚ) + 1 ≤ 2 ^ 53 := by exact_mod_cast hsize
  obtain ⟨hbelow, habove⟩ := abs_le.mp (hrounded.abs_sub_le_half hsmall)
  have hexcess := abs_lt.mp (by linarith : |excess percent * count| < 1 / 2)
  have hlow : ((percent * count : ℕ) : ℚ) < (100 * (⌈product⌉₊ + 1) : ℕ) := by
    push_cast
    linarith [Nat.le_ceil product]
  have hhigh : ((100 * ⌈product⌉₊ : ℕ) : ℚ) < (percent * count + 200 : ℕ) := by
    push_cast
    linarith [Nat.ceil_lt_add_one hrounded.nonneg]
  rw [hceiling]
  rw [Nat.cast_lt] at hlow hhigh
  omega

/-- A product that is a whole number is rounded above it exactly if it overshoots. -/
theorem le_whole_iff {whole : ℕ} {product : ℚ} (hpositive : 0 < percent) (hpercent : percent ≤ 100)
    (hcount : 0 < count) (hsmall : percent * count < 2 ^ 52)
    (hrounded : IsRounded (percent * count / 100 + excess percent * count) product)
    (hwhole : percent * count = 100 * whole) : product ≤ whole ↔ ¬Overshoots percent count := by
  obtain ⟨hrelative, -⟩ := abs_excess_mul_le count hpositive hpercent
  have hexcess := le_abs_self (excess percent * count)
  have hmost : (percent * count : ℚ) + 1 ≤ 2 ^ 52 := by exact_mod_cast hsmall
  have hpositive : 0 < whole := by
    have hproduct := Nat.mul_pos hpositive hcount
    omega
  have hcast : (percent * count : ℚ) / 100 = whole := by
    rw [div_eq_iff (by norm_num), mul_comm (whole : ℚ)]
    exact_mod_cast hwhole
  rw [hcast] at hrounded hrelative
  rw [Overshoots, and_iff_right (Dvd.intro _ hwhole.symm), hwhole,
    Nat.mul_div_cancel_left _ (by norm_num), not_lt,
    hrounded.le_whole_iff hpositive (by linarith) (by linarith), add_sub_cancel_left]

/-- Below 2^52 hundredths both errors together are less than a hundredth, so that the ceiling can be
another only where the product is a whole number. -/
theorem ceiling_exact (hpositive : 0 < percent) (hpercent : percent ≤ 100) (hcount : 0 < count)
    (hsmall : percent * count < 2 ^ 52) :
    ceiling (hundredth percent * (UInt64.ofNat count).toFloat) =
      (percent * count + 99) / 100 + if Overshoots percent count then 1 else 0 := by
  have hsize : count < 2 ^ 53 := by
    have hless := Nat.le_mul_of_pos_left count hpositive
    omega
  obtain ⟨product, hceiling, -, hrounded⟩ := exists_product hpositive hpercent hcount hsize
  obtain ⟨hrelative, -⟩ := abs_excess_mul_le count hpositive hpercent
  have hmost : (percent * count : ℚ) + 1 ≤ 2 ^ 52 := by exact_mod_cast hsmall
  have herror := hrounded.abs_sub_le
  have hexcess := abs_le.mp (le_refl |excess percent * count|)
  have hrounding := abs_le.mp
    (le_refl |product - (percent * count / 100 + excess percent * count)|)
  have hlow : ((percent * count : ℕ) : ℚ) < (100 * ⌈product⌉₊ + 1 : ℕ) := by
    push_cast
    linarith [Nat.le_ceil product]
  have hhigh : ((100 * ⌈product⌉₊ : ℕ) : ℚ) < (percent * count + 101 : ℕ) := by
    push_cast
    linarith [Nat.ceil_lt_add_one hrounded.nonneg]
  rw [hceiling]
  rw [Nat.cast_lt] at hlow hhigh
  by_cases hdivides : 100 ∣ percent * count
  · obtain ⟨whole, hwhole⟩ := hdivides
    have hle := le_whole_iff hpositive hpercent hcount hsmall hrounded hwhole
    split
    · rename_i hover
      have hlt := Nat.lt_ceil.mpr (not_le.mp (mt hle.mp (not_not.mpr hover)))
      omega
    · rename_i hnot
      have hceil := Nat.ceil_le.mpr (hle.mpr hnot)
      omega
  · rw [if_neg fun hover ↦ hdivides hover.1]
    omega

end

/-! ### Percentiles that overshoot -/

/-- The whole percentiles whose hundredth is a double that is too great by more than a 2^54th. -/
def overshooting : List ℕ :=
  [7, 14, 17, 27, 28, 34, 54, 55, 56, 67, 68, 81]

theorem mem_overshooting_of_lt_excess : ∀ percent ∈ List.range 101,
    percent < 100 * excess percent * 2 ^ 54 → percent ∈ overshooting := by
  decide +kernel

theorem exists_overshoots_of_mem : ∀ percent ∈ overshooting,
    ∃ count ∈ [25, 50, 75, 100, 150, 300, 450, 900, 1500], Overshoots percent count := by
  decide +kernel

theorem mem_of_overshoots {percent count : ℕ} (hpercent : percent ≤ 100)
    (hover : Overshoots percent count) : percent ∈ overshooting := by
  obtain ⟨⟨whole, hproduct⟩, hexcess⟩ := hover
  rw [hproduct, Nat.mul_div_cancel_left _ (by norm_num)] at hexcess
  have hwhole : (percent * count : ℚ) < 100 * excess percent * 2 ^ 54 * count := by
    have hlog : (whole : ℚ) < 2 ^ (whole.log2 + 1) := by
      exact_mod_cast Nat.lt_log2_self (n := whole)
    have hcast : (percent * count : ℚ) = 100 * whole := by exact_mod_cast hproduct
    rw [pow_succ] at hlog
    linarith
  exact mem_overshooting_of_lt_excess percent (List.mem_range.mpr (by omega))
    (lt_of_mul_lt_mul_right hwhole (Nat.cast_nonneg count))

/-- Twelve whole percentiles overshoot for some number of values. -/
theorem overshoots_iff {percent : ℕ} (hpercent : percent ≤ 100) :
    (∃ count, 0 < count ∧ percent * count < 2 ^ 52 ∧ Overshoots percent count) ↔
      percent ∈ overshooting := by
  constructor
  · rintro ⟨count, -, -, hover⟩
    exact mem_of_overshoots hpercent hover
  · intro hmem
    have hrange : ∀ count ∈ [25, 50, 75, 100, 150, 300, 450, 900, 1500], 0 < count ∧ count ≤ 1500 :=
      by decide
    obtain ⟨count, hcount, hover⟩ := exists_overshoots_of_mem percent hmem
    obtain ⟨hpositive, hsmall⟩ := hrange count hcount
    have hproduct := Nat.mul_le_mul hpercent hsmall
    exact ⟨count, hpositive, by omega, hover⟩

/-! ### Places -/

theorem index_eq_ceiling (percent count : ℕ) :
    index (UInt64.ofNat percent).toFloat count =
      min (max (ceiling (hundredth percent * (UInt64.ofNat count).toFloat)) 1) count - 1 :=
  rfl

theorem index_zero {count : ℕ} (hcount : 0 < count) (hsize : count < 2 ^ 53) :
    index (UInt64.ofNat 0).toFloat count = 0 := by
  obtain ⟨mantissa, exponent, hpositive, hunpack, -⟩ := (ofNat_exact hcount hsize).1.exists_finite
  have hzero : (hundredth 0).toModel.unpack = .zero .positive := rfl
  have hproduct : hundredth 0 * (UInt64.ofNat count).toFloat =
      .ofModel (pack (.zero .positive)) := by
    change Float.ofModel (pack (UnpackedFloat.mul Format.binary64 (hundredth 0).toModel.unpack
      (UInt64.ofNat count).toFloat.toModel.unpack)) = _
    rw [hunpack, hzero]
    rfl
  have hceiling : ceiling (.ofModel (pack (.zero .positive))) = 0 := by decide +kernel
  rw [index_eq_ceiling, hproduct, hceiling]
  omega

/-- Below 2^52 hundredths the place is the exact one, or the next where the product overshoots. -/
theorem index_eq {percent count : ℕ} (hpercent : percent ≤ 100) (hcount : 0 < count)
    (hsize : count < 2 ^ 53) (hsmall : percent * count < 2 ^ 52) :
    index (UInt64.ofNat percent).toFloat count =
      if Overshoots percent count then exactIndex percent count + 1
      else exactIndex percent count := by
  obtain rfl | hpositive := Nat.eq_zero_or_pos percent
  · have hnot : ¬Overshoots 0 count :=
      fun hover ↦ absurd (mem_of_overshoots hpercent hover) (by decide)
    rw [index_zero hcount hsize, if_neg hnot, exactIndex]
    omega
  rw [index_eq_ceiling, ceiling_exact hpositive hpercent hcount hsmall, exactIndex]
  have hmost : percent * count ≤ 100 * count := Nat.mul_le_mul_right count hpercent
  split
  · rename_i hover
    have hless : percent < 100 := by
      have hall : ∀ percent ∈ overshooting, percent < 100 := by decide
      exact hall percent (mem_of_overshoots hpercent hover)
    have hlt : percent * count < 100 * count := Nat.mul_lt_mul_of_pos_right hless hcount
    have hproduct := Nat.mul_pos hpositive hcount
    obtain ⟨whole, hwhole⟩ := hover.1
    omega
  · omega

theorem index_near {percent count : ℕ} (hpercent : percent ≤ 100) (hcount : 0 < count)
    (hsize : count < 2 ^ 53) :
    index (UInt64.ofNat percent).toFloat count ≤ exactIndex percent count + 1 ∧
      exactIndex percent count ≤ index (UInt64.ofNat percent).toFloat count + 1 := by
  obtain rfl | hpositive := Nat.eq_zero_or_pos percent
  · rw [index_zero hcount hsize, exactIndex]
    omega
  obtain ⟨habove, hbelow⟩ := ceiling_near hpositive hpercent hcount hsize
  rw [index_eq_ceiling, exactIndex]
  omega

/-- The place of a whole percentile is never more than one away from the exact one. As long as the
exact product is below 2^52 hundredths it is the exact place, with the least rank that has at least
the percentage of the values at or below it, unless the product overshoots: then it is the next
place, which has them as well. -/
theorem whole_percentile_place {percent count : ℕ} (hpercent : percent ≤ 100) (hcount : 0 < count)
    (hsize : count < 2 ^ 53) :
    (index (UInt64.ofNat percent).toFloat count ≤ exactIndex percent count + 1 ∧
      exactIndex percent count ≤ index (UInt64.ofNat percent).toFloat count + 1) ∧
    (percent * count < 2 ^ 52 →
      (index (UInt64.ofNat percent).toFloat count =
        if Overshoots percent count then exactIndex percent count + 1
        else exactIndex percent count) ∧
      index (UInt64.ofNat percent).toFloat count + 1 ∈ sufficientRanks percent count ∧
      (IsLeast (sufficientRanks percent count) (index (UInt64.ofNat percent).toFloat count + 1) ↔
        ¬Overshoots percent count)) := by
  refine ⟨index_near hpercent hcount hsize, fun hsmall ↦ ?_⟩
  have hleast := isLeast_exactIndex hpercent hcount
  rw [index_eq hpercent hcount hsize hsmall]
  refine ⟨rfl, ?_⟩
  split
  · rename_i hover
    refine ⟨⟨Nat.succ_pos _, hleast.1.2.trans (by omega)⟩, iff_of_false (fun hnext ↦ ?_) ?_⟩
    · exact absurd (hnext.unique hleast) (by omega)
    · exact not_not.mpr hover
  · rename_i hnot
    exact ⟨hleast.1, iff_of_true hleast hnot⟩

theorem whole_percentile_place_beyond : 28 ≤ 100 ∧ 0 < 25 ∧ 25 < 2 ^ 53 ∧ 28 * 25 < 2 ^ 52 ∧
    index (UInt64.ofNat 28).toFloat 25 = exactIndex 28 25 + 1 := by
  have hover : Overshoots 28 25 := by decide +kernel
  have hplaces := @whole_percentile_place 28 25 (by decide) (by decide) (by decide)
  have hplace := (hplaces.2 (by decide)).1
  rw [if_pos hover] at hplace
  exact ⟨by decide, by decide, by decide, by decide, hplace⟩

/-- Seven of 25 values are 28 percent, but the eighth is reported. -/
theorem eighth_of_25_reported :
    ¬∀ percent count : ℕ, percent ≤ 100 → 0 < count → count < 2 ^ 53 →
      index (UInt64.ofNat percent).toFloat count = exactIndex percent count := by
  intro hexact
  have hplace : index (UInt64.ofNat 28).toFloat 25 = 7 ∧ exactIndex 28 25 = 6 := by decide +kernel
  have hsame := hexact 28 25 (by decide) (by decide) (by decide)
  omega

end RunLedger.NearestRank
