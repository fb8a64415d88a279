import Mathlib

/-!
# What doubles stand for

A double stands for a rational number (`Double.value`). Products of doubles are rounded to 53 bits:
the exact product, counted in units of the last bit, goes to the nearest whole number, of two to the
even one (`Double.mul_rounded`). The mantissa is shifted to its 53 bits one bit after the other, and
two residual bits tell at each step where the exact number lies above it (`Double.StandsFor`), which
is all that rounding needs (`Double.StandsFor.isNearest`).

So a product has a relative error of at most 2^-53 (`Double.IsRounded.abs_sub_le`), whole numbers
below 2^53 are doubles themselves (`Double.ofNat_exact`), and what lies above a whole number is
rounded to it or below exactly if it is above it by no more than half a unit
(`Double.IsRounded.le_whole_iff`). Comparing and cutting off the part behind the point are as with
the numbers (`Double.lt_iff`, `Double.toNat_toUInt64`).

Only positive doubles of full precision are considered: the quotients and products of percentiles
are such, or zero.
-/

set_option autoImplicit false

namespace RunLedger.Double

open Float.Model Float.Model.UnpackedFloat

/-! ### Residual bits -/

/-- A mantissa with its two residual bits stands for a number, counted in units of the mantissa: the
round bit tells whether the number is half a unit or more above the mantissa, the sticky bit whether
it is above that point. -/
def StandsFor (extended : ExtendedMantissa) (exact : ℚ) : Prop :=
  match extended.roundBit, extended.stickyBit with
  | false, false => exact = extended.mantissa
  | false, true => extended.mantissa < exact ∧ exact < extended.mantissa + 1 / 2
  | true, false => exact = extended.mantissa + 1 / 2
  | true, true => extended.mantissa + 1 / 2 < exact ∧ exact < extended.mantissa + 1

theorem standsFor_exact (mantissa : ℕ) :
    StandsFor (ExtendedMantissa.ofMantissaAndAccuracy mantissa .exact) mantissa :=
  rfl

theorem StandsFor.floor_eq {extended : ExtendedMantissa} {exact : ℚ}
    (hstands : StandsFor extended exact) : ⌊exact⌋₊ = extended.mantissa := by
  obtain ⟨mantissa, roundBit, stickyBit⟩ := extended
  have hnonneg : (0 : ℚ) ≤ mantissa := Nat.cast_nonneg _
  cases roundBit <;> cases stickyBit <;> simp only [StandsFor] at hstands <;>
    refine (Nat.floor_eq_iff (by linarith)).mpr ⟨by linarith, by linarith⟩

theorem StandsFor.shiftRightOne {extended : ExtendedMantissa} {exact : ℚ}
    (hstands : StandsFor extended exact) : StandsFor extended.shiftRightOne (exact / 2) := by
  obtain ⟨mantissa, roundBit, stickyBit⟩ := extended
  have hhalf : (mantissa : ℚ) = 2 * (mantissa / 2 : ℕ) + (mantissa % 2 : ℕ) := by
    exact_mod_cast (Nat.div_add_mod mantissa 2).symm
  obtain hparity | hparity := Nat.mod_two_eq_zero_or_one mantissa <;>
    cases roundBit <;> cases stickyBit <;>
    simp [StandsFor, ExtendedMantissa.shiftRightOne, hparity] at hstands hhalf ⊢ <;>
    grind

theorem StandsFor.shiftRight {extended : ExtendedMantissa} {exact : ℚ}
    (hstands : StandsFor extended exact) (count : ℕ) :
    StandsFor (extended >>> count) (exact / 2 ^ count) := by
  induction count with
  | zero => rwa [pow_zero, div_one]
  | succ count ih =>
    rw [pow_succ, ← div_div]
    exact ih.shiftRightOne

/-! ### Nearest whole numbers -/

/-- A whole number nearest to a number, the even one of two. -/
structure IsNearest (rounded : ℕ) (exact : ℚ) : Prop where
  near : |(rounded : ℚ) - exact| ≤ 1 / 2
  even : |(rounded : ℚ) - exact| = 1 / 2 → Even rounded

theorem StandsFor.isNearest {extended : ExtendedMantissa} {exact : ℚ}
    (hstands : StandsFor extended exact) : IsNearest extended.roundedMantissa exact := by
  obtain ⟨mantissa, roundBit, stickyBit⟩ := extended
  cases roundBit <;> cases stickyBit <;> simp only [StandsFor] at hstands <;>
    simp only [ExtendedMantissa.roundedMantissa, ExtendedMantissa.accuracy,
      Accuracy.roundToNearestEven]
  · rw [hstands]
    exact ⟨by norm_num, by norm_num⟩
  · refine ⟨abs_le.mpr ⟨by linarith, by linarith⟩, fun htie ↦ ?_⟩
    rw [abs_of_neg (by linarith)] at htie
    linarith
  · -- The tie: an odd mantissa is raised to the next, which is even.
    obtain hparity | hparity := Nat.mod_two_eq_zero_or_one mantissa <;> rw [hparity] <;>
      exact ⟨abs_le.mpr ⟨by push_cast; linarith, by push_cast; linarith⟩,
        fun _ ↦ Nat.even_iff.mpr (by omega)⟩
  · refine ⟨abs_le.mpr ⟨by push_cast; linarith, by push_cast; linarith⟩, fun htie ↦ ?_⟩
    rw [abs_of_pos (by push_cast; linarith)] at htie
    push_cast at htie
    linarith

namespace IsNearest

variable {rounded bound : ℕ} {exact : ℚ}

theorem le_of_le (hnearest : IsNearest rounded exact) (hexact : exact ≤ bound) :
    rounded ≤ bound := by
  have habove := (abs_le.mp hnearest.near).2
  have hlt : (rounded : ℚ) < bound + 1 := by linarith
  exact Nat.lt_succ_iff.mp (by exact_mod_cast hlt)

theorem le_of_ge (hnearest : IsNearest rounded exact) (hexact : bound ≤ exact) :
    bound ≤ rounded := by
  have hbelow := (abs_le.mp hnearest.near).1
  have hlt : (bound : ℚ) < rounded + 1 := by linarith
  exact Nat.lt_succ_iff.mp (by exact_mod_cast hlt)

/-- Half a unit above an even number is still rounded to it. -/
theorem le_iff_of_even (hnearest : IsNearest rounded exact) (heven : Even bound) :
    rounded ≤ bound ↔ exact ≤ bound + 1 / 2 := by
  obtain ⟨hbelow, habove⟩ := abs_le.mp hnearest.near
  constructor
  · intro hle
    have hcast : (rounded : ℚ) ≤ bound := by exact_mod_cast hle
    linarith
  · intro hexact
    by_contra hlt
    have hcast : (bound : ℚ) + 1 ≤ rounded := by exact_mod_cast not_le.mp hlt
    have htie : |(rounded : ℚ) - exact| = 1 / 2 := by
      rw [abs_of_nonneg (by linarith)]
      linarith
    have hsame : rounded = bound + 1 := by
      have hcast' : (rounded : ℚ) ≤ bound + 1 := by linarith
      exact le_antisymm (by exact_mod_cast hcast') (not_le.mp hlt)
    exact Nat.not_even_iff_odd.mpr heven.add_one (hsame ▸ hnearest.even htie)

/-- Rounding to whole units leaves an error of at most half a unit. -/
theorem abs_mul_sub_le {unit : ℚ} (hnearest : IsNearest rounded (exact / unit)) (hunit : 0 < unit) :
    |rounded * unit - exact| ≤ 1 / 2 * unit := by
  have hnear := mul_le_mul_of_nonneg_right hnearest.near hunit.le
  rwa [← abs_of_pos hunit, ← abs_mul, abs_of_pos hunit, sub_mul, div_mul_cancel₀ _ hunit.ne']
    at hnear

end IsNearest

/-! ### Packing -/

/-- The bit that is left out when a mantissa is packed is put back in front of the others. -/
theorem toNat_implicit_append {mantissa : ℕ} (hlow : 2 ^ 52 ≤ mantissa)
    (hhigh : mantissa < 2 ^ 53) : (1#1 ++ BitVec.ofNat 52 mantissa).toNat = mantissa := by
  rw [BitVec.toNat_append, ← Nat.shiftLeft_add_eq_or_of_lt (BitVec.isLt _), BitVec.toNat_ofNat,
    BitVec.toNat_ofNat, Nat.shiftLeft_eq]
  omega

theorem unpack_pack {mantissa : ℕ} {exponent : ℤ} (hpositive : 0 < mantissa)
    (hlow : 2 ^ 52 ≤ mantissa) (hhigh : mantissa < 2 ^ 53) (hleast : -1074 ≤ exponent)
    (hgreatest : exponent ≤ 971) :
    (pack (.finite .positive mantissa exponent hpositive)).unpack =
      .finite .positive mantissa exponent hpositive := by
  obtain ⟨biased, rfl⟩ : ∃ biased : ℕ, exponent = (biased : ℤ) - 1075 :=
    ⟨(exponent + 1075).toNat, by omega⟩
  have hlog : mantissa.log2 = 52 := (Nat.log2_eq_iff hpositive.ne').mpr ⟨hlow, hhigh⟩
  have hbits : (BitVec.ofNat 11 biased).toNat = biased := by
    rw [BitVec.toNat_ofNat, Nat.mod_eq_of_lt (by omega)]
  -- The greatest exponent is for infinities, the least for zeros and lesser numbers.
  have hinfinite : BitVec.ofNat 11 biased ≠ -1#11 := fun hsame ↦ by
    have hall : (BitVec.ofNat 11 biased).toNat = 2047 := congrArg BitVec.toNat hsame
    omega
  have hlesser : BitVec.ofNat 11 biased ≠ 0#11 := fun hsame ↦ by
    have hnone : (BitVec.ofNat 11 biased).toNat = 0 := congrArg BitVec.toNat hsame
    omega
  have hpacked : UnpackedFloat.pack Format.binary64
      (.finite .positive mantissa ((biased : ℤ) - 1075) hpositive) =
        packComponents Format.binary64 .positive (BitVec.ofNat 11 biased)
          (BitVec.ofNat 52 mantissa) := by
    have hbiased : ((biased : ℤ) - 1075 + Format.binary64.exponentBias + (52 : ℕ)).toNat =
        biased := by
      change ((biased : ℤ) - 1075 + 1023 + 52).toNat = biased
      omega
    simp only [UnpackedFloat.pack, hbiased, hlog]
    rw [if_neg (by omega), if_pos (by decide)]
  unfold Float.Model.unpack Float.Model.pack UnpackedFloat.unpack
  simp only [hpacked, unpackExponent_packComponents, unpackMantissa_packComponents,
    unpackSign_packComponents, Sign.ofBitVec_toBitVec, hinfinite, hlesser, if_false, hbits,
    toNat_implicit_append hlow hhigh]
  congr 1

/-! ### Full precision -/

/-- The number an unpacked double stands for; zero where it stands for none. -/
def number : UnpackedFloat → ℚ
  | .finite sign mantissa exponent _ => sign.apply mantissa * 2 ^ exponent
  | _ => 0

@[simp]
theorem number_positive (mantissa : ℕ) (exponent : ℤ) (hpositive : 0 < mantissa) :
    number (.finite .positive mantissa exponent hpositive) = mantissa * 2 ^ exponent := by
  simp [number, Sign.apply]

/-- A positive unpacked double of full precision. -/
def IsFull : UnpackedFloat → Prop
  | .finite .positive mantissa exponent _ =>
    2 ^ 52 ≤ mantissa ∧ mantissa < 2 ^ 53 ∧ -1074 ≤ exponent ∧ exponent ≤ 971
  | _ => False

instance : DecidablePred IsFull
  | .finite .positive _ _ _ => inferInstanceAs (Decidable (_ ∧ _))
  | .finite .negative _ _ _ | .infinity _ | .notANumber | .zero _ => isFalse id

theorem IsFull.exists_finite {unpacked : UnpackedFloat} (hfull : IsFull unpacked) :
    ∃ mantissa exponent, ∃ hpositive : 0 < mantissa,
      unpacked = .finite .positive mantissa exponent hpositive ∧
      2 ^ 52 ≤ mantissa ∧ mantissa < 2 ^ 53 ∧ -1074 ≤ exponent ∧ exponent ≤ 971 := by
  match unpacked, hfull with
  | .finite .positive mantissa exponent hpositive, hbounds =>
    exact ⟨mantissa, exponent, hpositive, rfl, hbounds⟩

theorem two_zpow_le_mul {mantissa : ℕ} (hne : mantissa ≠ 0) (exponent : ℤ) :
    (2 : ℚ) ^ (exponent + mantissa.log2) ≤ mantissa * 2 ^ exponent := by
  rw [zpow_add₀ two_ne_zero, zpow_natCast, mul_comm]
  have hlow : (2 : ℚ) ^ mantissa.log2 ≤ mantissa := by exact_mod_cast Nat.log2_self_le hne
  gcongr

theorem mul_lt_two_zpow (mantissa : ℕ) (exponent : ℤ) :
    mantissa * 2 ^ exponent < (2 : ℚ) ^ (exponent + (mantissa.log2 + 1 : ℕ)) := by
  rw [zpow_add₀ two_ne_zero, zpow_natCast, mul_comm]
  have hhigh : (mantissa : ℚ) < 2 ^ (mantissa.log2 + 1) := by
    exact_mod_cast Nat.lt_log2_self (n := mantissa)
  gcongr

theorem bounds_of_full {mantissa : ℕ} (hlow : 2 ^ 52 ≤ mantissa) (hhigh : mantissa < 2 ^ 53)
    (exponent : ℤ) :
    (2 : ℚ) ^ (exponent + 52) ≤ mantissa * 2 ^ exponent ∧
      mantissa * 2 ^ exponent < (2 : ℚ) ^ (exponent + 53) := by
  have hne : mantissa ≠ 0 := by omega
  have hlog : mantissa.log2 = 52 := (Nat.log2_eq_iff hne).mpr ⟨hlow, hhigh⟩
  have hleast := two_zpow_le_mul hne exponent
  have hgreatest := mul_lt_two_zpow mantissa exponent
  rw [hlog] at hleast hgreatest
  exact ⟨hleast, hgreatest⟩

/-! ### Rounding -/

/-- A number rounded to 53 bits: the exact number has that many before the point when it is counted
in units of its last bit, and a nearest whole number of units is taken. -/
def IsRounded (exact rounded : ℚ) : Prop :=
  ∃ (exponent : ℤ) (mantissa : ℕ), (2 : ℚ) ^ (exponent + 52) ≤ exact ∧
    exact < (2 : ℚ) ^ (exponent + 53) ∧ IsNearest mantissa (exact / 2 ^ exponent) ∧
    rounded = mantissa * 2 ^ exponent

/-- A mantissa of more than 53 bits is shifted until 53 are left. -/
theorem shiftToTargetExponent_eq {mantissa : ℕ} {exponent : ℤ} (hbits : 52 ≤ mantissa.log2)
    (hleast : -1074 ≤ exponent + (mantissa.log2 - 52 : ℕ)) :
    shiftToTargetExponent Format.binary64 mantissa exponent .exact =
      (ExtendedMantissa.ofMantissaAndAccuracy mantissa .exact >>> (mantissa.log2 - 52),
        exponent + (mantissa.log2 - 52 : ℕ)) := by
  have htarget : Format.binary64.targetExponent (totalExponent mantissa exponent) =
      exponent + (mantissa.log2 - 52 : ℕ) := by
    change max ((mantissa.log2 : ℤ) + 1 + exponent - 53) (-1074) = _
    omega
  have hshift : (exponent + (mantissa.log2 - 52 : ℕ) - exponent).toNat = mantissa.log2 - 52 := by
    omega
  unfold shiftToTargetExponent shiftToExponent
  simp only [htarget, hshift]

/-- Rounding up may carry into one bit more, which is then shifted out. -/
theorem shiftToTargetExponent_rounded {rounded : ℕ} {exponent : ℤ} (hlow : 2 ^ 52 ≤ rounded)
    (hhigh : rounded ≤ 2 ^ 53) (hleast : -1074 ≤ exponent) :
    ∃ mantissa carry : ℕ, shiftToTargetExponent Format.binary64 rounded exponent .exact =
        (⟨mantissa, false, false⟩, exponent + carry) ∧
      2 ^ 52 ≤ mantissa ∧ mantissa < 2 ^ 53 ∧ carry ≤ 1 ∧ rounded = mantissa * 2 ^ carry := by
  obtain hlt | rfl := hhigh.lt_or_eq
  · have hlog : rounded.log2 = 52 := (Nat.log2_eq_iff (by omega)).mpr ⟨hlow, hlt⟩
    refine ⟨rounded, 0, ?_, hlow, hlt, zero_le_one, (mul_one _).symm⟩
    rw [shiftToTargetExponent_eq hlog.ge (by omega), hlog]
    rfl
  · refine ⟨2 ^ 52, 1, ?_, le_rfl, by norm_num, le_rfl, by norm_num⟩
    rw [shiftToTargetExponent_eq (by rw [Nat.log2_two_pow]; norm_num)
      (by rw [Nat.log2_two_pow]; omega), Nat.log2_two_pow]
    rfl

/-- What is left of the shifted mantissa is a nearest whole number, but for a carry. -/
theorem roundWithAccuracy_eq {mantissa shift : ℕ} {exponent : ℤ}
    (hbits : mantissa.log2 = shift + 52) (hleast : -1074 ≤ exponent + shift) :
    ∃ rounded final carry : ℕ, ∃ hpositive : 0 < final,
      roundWithAccuracy Format.binary64 .positive mantissa exponent .exact =
        .finite .positive final (exponent + shift + carry) hpositive ∧
      IsNearest rounded (mantissa / 2 ^ shift) ∧ 2 ^ 52 ≤ final ∧ final < 2 ^ 53 ∧ carry ≤ 1 ∧
      rounded = final * 2 ^ carry := by
  let shifted := ExtendedMantissa.ofMantissaAndAccuracy mantissa .exact >>> shift
  have hnearest : IsNearest shifted.roundedMantissa (mantissa / 2 ^ shift) :=
    ((standsFor_exact mantissa).shiftRight shift).isNearest
  have hlow : ((2 ^ 52 : ℕ) : ℚ) ≤ mantissa / 2 ^ shift := by
    have hlog := Nat.log2_self_le (fun hzero ↦ by simp [hzero] at hbits : mantissa ≠ 0)
    rw [hbits, pow_add, mul_comm] at hlog
    rw [le_div_iff₀ (by positivity)]
    exact_mod_cast hlog
  have hhigh : mantissa / 2 ^ shift ≤ ((2 ^ 53 : ℕ) : ℚ) := by
    have hlog := (Nat.lt_log2_self (n := mantissa)).le
    rw [hbits, add_assoc, pow_add, mul_comm] at hlog
    rw [div_le_iff₀ (by positivity)]
    exact_mod_cast hlog
  obtain ⟨final, carry, hfinal, hfinalLow, hfinalHigh, hcarry, hsame⟩ :=
    @shiftToTargetExponent_rounded shifted.roundedMantissa (exponent + shift)
      (hnearest.le_of_ge hlow) (hnearest.le_of_le hhigh) hleast
  refine ⟨_, final, carry, by omega, ?_, hnearest, hfinalLow, hfinalHigh, hcarry, hsame⟩
  unfold roundWithAccuracy
  rw [shiftToTargetExponent_eq (by omega) (by omega), hbits, Nat.add_sub_cancel]
  dsimp only
  rw [hfinal]
  exact dif_neg (show ¬final = 0 by omega)

/-- A number of at least 53 bits within the range of full precision is rounded to 53. -/
theorem roundWithAccuracy_rounded {mantissa : ℕ} {exponent : ℤ} (hbits : 52 ≤ mantissa.log2)
    (hlow : (2 : ℚ) ^ (-1022 : ℤ) ≤ mantissa * 2 ^ exponent)
    (hhigh : mantissa * 2 ^ exponent < (2 : ℚ) ^ (1023 : ℤ)) :
    IsFull (roundWithAccuracy Format.binary64 .positive mantissa exponent .exact) ∧
      IsRounded (mantissa * 2 ^ exponent)
        (number (roundWithAccuracy Format.binary64 .positive mantissa exponent .exact)) := by
  obtain ⟨shift, hshift⟩ : ∃ shift, mantissa.log2 = shift + 52 :=
    ⟨_, (Nat.sub_add_cancel hbits).symm⟩
  have hne : mantissa ≠ 0 := fun hzero ↦ by simp [hzero] at hshift
  have hleast : (2 : ℚ) ^ (exponent + shift + 52) ≤ mantissa * 2 ^ exponent := by
    have hpower := two_zpow_le_mul hne exponent
    rwa [hshift, Nat.cast_add, ← add_assoc] at hpower
  have hgreatest : mantissa * 2 ^ exponent < (2 : ℚ) ^ (exponent + shift + 53) := by
    have hpower := mul_lt_two_zpow mantissa exponent
    rwa [hshift, add_assoc, Nat.cast_add, ← add_assoc] at hpower
  have hlowest : -1022 < exponent + shift + 53 :=
    (zpow_lt_zpow_iff_right₀ one_lt_two).mp (hlow.trans_lt hgreatest)
  have hhighest : exponent + shift + 52 < 1023 :=
    (zpow_lt_zpow_iff_right₀ one_lt_two).mp (hleast.trans_lt hhigh)
  obtain ⟨rounded, final, carry, hpositive, hresult, hnearest, hfinal, hfinal', hcarry, hsame⟩ :=
    @roundWithAccuracy_eq mantissa shift exponent hshift (by omega)
  rw [hresult]
  refine ⟨⟨hfinal, hfinal', by omega, by omega⟩, exponent + shift, rounded, hleast, hgreatest,
    ?_, ?_⟩
  · rwa [zpow_add₀ two_ne_zero, mul_comm, mul_div_mul_left _ _ (zpow_ne_zero _ two_ne_zero),
      zpow_natCast]
  · rw [number_positive, hsame, zpow_add₀ two_ne_zero (exponent + shift), zpow_natCast]
    push_cast
    ring

/-! ### Rounded numbers -/

/-- A number below a power of two is rounded in units below it. -/
theorem exponent_lt_of_lt {exact : ℚ} {exponent bound : ℤ}
    (hlow : (2 : ℚ) ^ (exponent + 52) ≤ exact) (hsmall : exact < 2 ^ bound) :
    exponent + 52 < bound :=
  (zpow_lt_zpow_iff_right₀ one_lt_two).mp (hlow.trans_lt hsmall)

/-- A whole number is a whole number of units of at most one, and an even number of lesser ones. -/
theorem exists_units (whole : ℕ) {exponent : ℤ} (hexponent : exponent ≤ 0) :
    ∃ units : ℕ, (whole : ℚ) = units * 2 ^ exponent ∧ (exponent < 0 → Even units) := by
  obtain ⟨scale, rfl⟩ : ∃ scale : ℕ, exponent = -scale := ⟨(-exponent).toNat, by omega⟩
  refine ⟨whole * 2 ^ scale, ?_, fun hnegative ↦ ?_⟩
  · rw [zpow_neg, zpow_natCast, Nat.cast_mul, Nat.cast_pow, Nat.cast_ofNat,
      mul_inv_cancel_right₀ (pow_ne_zero _ two_ne_zero)]
  · exact (even_two.pow_of_ne_zero (by omega)).mul_left _

namespace IsRounded

variable {whole : ℕ} {exact rounded : ℚ}

theorem nonneg (hrounded : IsRounded exact rounded) : 0 ≤ rounded := by
  obtain ⟨exponent, mantissa, -, -, -, rfl⟩ := hrounded
  positivity

/-- The error is at most a 2^53rd of the number. -/
theorem abs_sub_le (hrounded : IsRounded exact rounded) : |rounded - exact| * 2 ^ 53 ≤ exact := by
  obtain ⟨exponent, mantissa, hlow, -, hnearest, rfl⟩ := hrounded
  have herror := hnearest.abs_mul_sub_le (by positivity)
  rw [zpow_add₀ two_ne_zero] at hlow
  norm_num at hlow
  linarith

/-- The error is at most one half where the units are at most one. -/
theorem abs_sub_le_half (hrounded : IsRounded exact rounded) (hsmall : exact < 2 ^ 53) :
    |rounded - exact| ≤ 1 / 2 := by
  obtain ⟨exponent, mantissa, hlow, -, hnearest, rfl⟩ := hrounded
  have hexponent : exponent + 52 < 53 := exponent_lt_of_lt hlow (by exact_mod_cast hsmall)
  have hunit : (2 : ℚ) ^ exponent ≤ 1 := zpow_le_one_of_nonpos₀ one_le_two (by omega)
  have herror := hnearest.abs_mul_sub_le (by positivity)
  linarith

/-- A whole number is not rounded. -/
theorem eq_of_whole (hrounded : IsRounded whole rounded) (hsmall : whole < 2 ^ 53) :
    rounded = whole := by
  obtain ⟨exponent, mantissa, hlow, -, hnearest, rfl⟩ := hrounded
  have hexponent : exponent + 52 < 53 := exponent_lt_of_lt hlow (by exact_mod_cast hsmall)
  obtain ⟨units, hunits, -⟩ := exists_units whole (by omega : exponent ≤ 0)
  rw [hunits, mul_div_cancel_right₀ _ (zpow_ne_zero _ two_ne_zero)] at hnearest
  rw [hunits, le_antisymm (hnearest.le_of_le le_rfl) (hnearest.le_of_ge le_rfl)]

/-- What lies less than one above a whole number is rounded to it or below exactly if it is above it
by no more than half of the unit that the whole number has. -/
theorem le_whole_iff (hrounded : IsRounded exact rounded) (hpositive : 0 < whole)
    (hsmall : exact < 2 ^ 52) (hnear : exact < whole + 1) :
    rounded ≤ whole ↔ (exact - whole) * 2 ^ 53 ≤ 2 ^ whole.log2 := by
  obtain ⟨exponent, mantissa, hlow, hhigh, hnearest, rfl⟩ := hrounded
  have hexponent : exponent + 52 < 52 := exponent_lt_of_lt hlow (by exact_mod_cast hsmall)
  obtain ⟨units, hunits, heven⟩ := exists_units whole (by omega : exponent ≤ 0)
  have hunit : (0 : ℚ) < 2 ^ exponent := by positivity
  have hle : mantissa * 2 ^ exponent ≤ (whole : ℚ) ↔ exact ≤ whole + 1 / 2 * 2 ^ exponent := by
    rw [hunits, mul_le_mul_iff_left₀ hunit, Nat.cast_le,
      hnearest.le_iff_of_even (heven (by omega)), div_le_iff₀ hunit, add_mul]
  rw [hle]
  obtain hbelow | habove := le_or_gt exact whole
  · have hpower : (0 : ℚ) < 2 ^ whole.log2 := by positivity
    exact iff_of_true (by linarith) (by linarith)
  · -- Being so near, the two have the same units.
    have hlog : (whole.log2 : ℤ) = exponent + 52 := by
      have hleast : (2 : ℚ) ^ (whole.log2 : ℤ) ≤ whole := by
        exact_mod_cast Nat.log2_self_le hpositive.ne'
      have hgreatest : (whole : ℚ) + 1 ≤ 2 ^ (whole.log2 + 1 : ℤ) := by
        exact_mod_cast Nat.lt_log2_self (n := whole)
      have hless := (zpow_lt_zpow_iff_right₀ one_lt_two).mp ((hleast.trans_lt habove).trans hhigh)
      have hmore := exponent_lt_of_lt hlow (hnear.trans_le hgreatest)
      omega
    have hpower : (2 : ℚ) ^ whole.log2 = 2 ^ 52 * 2 ^ exponent := by
      rw [← zpow_natCast, hlog, zpow_add₀ two_ne_zero, mul_comm]
      rfl
    rw [hpower]
    constructor <;> intro hbound <;> linarith

end IsRounded

/-! ### Doubles -/

/-- The number a double stands for; zero where it stands for none. -/
def value (double : Float) : ℚ :=
  number double.toModel.unpack

/-- A positive double of full precision. -/
def IsNormal (double : Float) : Prop :=
  IsFull double.toModel.unpack

instance : DecidablePred IsNormal :=
  fun double ↦ inferInstanceAs (Decidable (IsFull double.toModel.unpack))

theorem IsFull.packed {unpacked : UnpackedFloat} (hfull : IsFull unpacked) :
    IsNormal (.ofModel (pack unpacked)) ∧ value (.ofModel (pack unpacked)) = number unpacked := by
  obtain ⟨mantissa, exponent, hpositive, rfl, hlow, hhigh, hleast, hgreatest⟩ :=
    hfull.exists_finite
  have hunpacked := unpack_pack hpositive hlow hhigh hleast hgreatest
  exact ⟨(congrArg IsFull hunpacked).mpr hfull, congrArg number hunpacked⟩

theorem IsNormal.value_pos {double : Float} (hnormal : IsNormal double) : 0 < value double := by
  obtain ⟨mantissa, exponent, hpositive, hunpack, -⟩ := hnormal.exists_finite
  rw [value, hunpack, number_positive]
  positivity

/-- A product in the range of full precision is the exact one, rounded. -/
theorem mul_rounded {first second : Float} (hfirst : IsNormal first) (hsecond : IsNormal second)
    (hlow : (2 : ℚ) ^ (-1022 : ℤ) ≤ value first * value second)
    (hhigh : value first * value second < (2 : ℚ) ^ (1023 : ℤ)) :
    IsNormal (first * second) ∧
      IsRounded (value first * value second) (value (first * second)) := by
  obtain ⟨mantissa, exponent, hpositive, hunpack, hleast, -⟩ := hfirst.exists_finite
  obtain ⟨mantissa', exponent', hpositive', hunpack', -⟩ := hsecond.exists_finite
  have hbits : 52 ≤ (mantissa * mantissa').log2 :=
    (Nat.le_log2 (Nat.mul_pos hpositive hpositive').ne').mpr
      (hleast.trans (Nat.le_mul_of_pos_right _ hpositive'))
  have hexact : value first * value second =
      (mantissa * mantissa' : ℕ) * 2 ^ (exponent + exponent') := by
    rw [value, value, hunpack, hunpack', number_positive, number_positive, zpow_add₀ two_ne_zero]
    push_cast
    ring
  have hproduct : first * second = .ofModel (pack (roundWithAccuracy Format.binary64 .positive
      (mantissa * mantissa') (exponent + exponent') .exact)) := by
    change Float.ofModel (pack (UnpackedFloat.mul Format.binary64 first.toModel.unpack
      second.toModel.unpack)) = _
    rw [hunpack, hunpack']
    rfl
  rw [hexact] at hlow hhigh ⊢
  obtain ⟨hfull, hrounded⟩ := roundWithAccuracy_rounded hbits hlow hhigh
  rw [hproduct, hfull.packed.2]
  exact ⟨hfull.packed.1, hrounded⟩

/-- Doubles are compared by their exponents and then by their mantissas, which is how the numbers
compare as long as the mantissas have the same number of bits. -/
theorem lt_iff {first second : Float} (hfirst : IsNormal first) (hsecond : IsNormal second) :
    first < second ↔ value first < value second := by
  obtain ⟨mantissa, exponent, hpositive, hunpack, hlow, hhigh, -⟩ := hfirst.exists_finite
  obtain ⟨mantissa', exponent', hpositive', hunpack', hlow', hhigh', -⟩ := hsecond.exists_finite
  have hparts : first < second ↔
      exponent < exponent' ∨ exponent = exponent' ∧ mantissa < mantissa' := by
    have hcompare : first < second ↔
        (first.toModel.unpack.compare second.toModel.unpack == some .lt) = true :=
      decide_eq_true_iff
    rw [hcompare, hunpack, hunpack', beq_iff_eq]
    change some ((compare exponent exponent').then (compare mantissa mantissa')) = _ ↔ _
    rw [Option.some_inj, Ordering.then_eq_lt, Std.compare_eq_lt, Std.compare_eq_iff_eq,
      Std.compare_eq_lt]
  rw [hparts, value, value, hunpack, hunpack', number_positive, number_positive]
  obtain hlt | rfl | hgt := lt_trichotomy exponent exponent'
  · refine iff_of_true (.inl hlt) ?_
    exact ((bounds_of_full hlow hhigh _).2.trans_le
      (zpow_le_zpow_right₀ one_le_two (by omega))).trans_le (bounds_of_full hlow' hhigh' _).1
  · have hunit : (0 : ℚ) < 2 ^ exponent := by positivity
    rw [mul_lt_mul_iff_left₀ hunit, Nat.cast_lt, and_iff_right rfl,
      or_iff_right (lt_irrefl exponent)]
  · refine iff_of_false (by omega) (le_of_lt ?_).not_gt
    exact ((bounds_of_full hlow' hhigh' _).2.trans_le
      (zpow_le_zpow_right₀ one_le_two (by omega))).trans_le (bounds_of_full hlow hhigh _).1

theorem log2_mul_two_pow {whole : ℕ} (hpositive : 0 < whole) (shift : ℕ) :
    (whole * 2 ^ shift).log2 = whole.log2 + shift := by
  have hlow := Nat.mul_le_mul_right (2 ^ shift) (Nat.log2_self_le hpositive.ne')
  have hhigh := Nat.mul_lt_mul_of_pos_right (Nat.lt_log2_self (n := whole)) (Nat.two_pow_pos shift)
  rw [← pow_add] at hlow hhigh
  rw [add_right_comm] at hhigh
  exact (Nat.log2_eq_iff (by positivity)).mpr ⟨hlow, hhigh⟩

/-- A whole number of less than 53 bits is filled up to as many. -/
theorem toFloat_ofNat {whole shift : ℕ} (hpositive : 0 < whole) (hbits : whole.log2 + shift = 52) :
    (UInt64.ofNat whole).toFloat = .ofModel (pack (roundWithAccuracy Format.binary64 .positive
      (whole * 2 ^ shift) (-shift) .exact)) := by
  have hsmall : whole < 2 ^ 64 :=
    Nat.lt_log2_self.trans_le (Nat.pow_le_pow_right (by norm_num) (by omega))
  have hcompare : compare (whole : ℤ) 0 = .gt :=
    Int.compare_eq_gt.mpr (by exact_mod_cast hpositive)
  have htarget : Format.binary64.targetExponent (totalExponent whole 0) = -shift := by
    change max ((whole.log2 : ℤ) + 1 + 0 - 53) (-1074) = _
    omega
  change Float.ofModel (pack (UnpackedFloat.normalize Format.binary64
    ((UInt64.ofNat whole).toNat : ℤ) 0 .positive)) = _
  rw [UInt64.toNat_ofNat_of_lt' hsmall]
  simp only [UnpackedFloat.normalize, hcompare, Int.toNat_natCast, UnpackedFloat.round, htarget,
    decreaseExponent, Nat.shiftLeft_eq, zero_sub, neg_neg]

/-- A positive whole number below 2^53 is a double. -/
theorem ofNat_exact {whole : ℕ} (hpositive : 0 < whole) (hsmall : whole < 2 ^ 53) :
    IsNormal (UInt64.ofNat whole).toFloat ∧ value (UInt64.ofNat whole).toFloat = whole := by
  have hlog : whole.log2 < 53 := (Nat.log2_lt hpositive.ne').mpr hsmall
  obtain ⟨shift, hshift⟩ : ∃ shift, whole.log2 + shift = 52 := ⟨52 - whole.log2, by omega⟩
  have hbits : 52 ≤ (whole * 2 ^ shift).log2 := by rw [log2_mul_two_pow hpositive, hshift]
  have hexact : ((whole * 2 ^ shift : ℕ) : ℚ) * 2 ^ (-(shift : ℤ)) = whole := by
    rw [zpow_neg, zpow_natCast]
    push_cast
    exact mul_inv_cancel_right₀ (pow_ne_zero _ two_ne_zero) _
  have hlow : (2 : ℚ) ^ (-1022 : ℤ) ≤ whole :=
    (zpow_le_one_of_nonpos₀ one_le_two (by norm_num)).trans (by exact_mod_cast hpositive)
  have hhigh : (whole : ℚ) < 2 ^ (1023 : ℤ) := by
    have hcast : (whole : ℚ) < 2 ^ (53 : ℤ) := by exact_mod_cast hsmall
    exact hcast.trans (zpow_lt_zpow_right₀ one_lt_two (by norm_num))
  rw [← hexact] at hlow hhigh
  obtain ⟨hfull, hrounded⟩ := roundWithAccuracy_rounded hbits hlow hhigh
  rw [hexact] at hrounded
  rw [toFloat_ofNat hpositive hshift, hfull.packed.2]
  exact ⟨hfull.packed.1, hrounded.eq_of_whole hsmall⟩

/-- Whole numbers compare with doubles as with what these stand for. -/
theorem ofNat_lt_iff {whole : ℕ} {double : Float} (hnormal : IsNormal double)
    (hsmall : whole < 2 ^ 53) :
    (UInt64.ofNat whole).toFloat < double ↔ (whole : ℚ) < value double := by
  obtain rfl | hpositive := Nat.eq_zero_or_pos whole
  · obtain ⟨mantissa, exponent, hmantissa, hunpack, -⟩ := hnormal.exists_finite
    refine iff_of_true (decide_eq_true ?_) (Nat.cast_zero (R := ℚ) ▸ hnormal.value_pos)
    change ((UInt64.ofNat 0).toFloat.toModel.unpack.compare double.toModel.unpack ==
      some .lt) = true
    rw [hunpack]
    rfl
  · obtain ⟨hwhole, hvalue⟩ := ofNat_exact hpositive hsmall
    rw [lt_iff hwhole hnormal, hvalue]

/-- What is behind the point is cut off. -/
theorem toNat_toUInt64 {double : Float} (hnormal : IsNormal double)
    (hsmall : value double < 2 ^ 53) : double.toUInt64.toNat = ⌊value double⌋₊ := by
  obtain ⟨mantissa, exponent, hpositive, hunpack, hlow, hhigh, -⟩ := hnormal.exists_finite
  have hvalue : value double = mantissa * 2 ^ exponent := by rw [value, hunpack, number_positive]
  rw [hvalue] at hsmall ⊢
  have hexponent : exponent + 52 < 53 :=
    exponent_lt_of_lt (bounds_of_full hlow hhigh exponent).1 (by exact_mod_cast hsmall)
  obtain ⟨scale, rfl⟩ : ∃ scale : ℕ, exponent = -scale := ⟨(-exponent).toNat, by omega⟩
  have hfloor : ⌊(mantissa : ℚ) * 2 ^ (-(scale : ℤ))⌋₊ =
      (ExtendedMantissa.ofMantissaAndAccuracy mantissa .exact >>> scale).mantissa := by
    rw [zpow_neg, zpow_natCast, ← div_eq_mul_inv]
    exact ((standsFor_exact mantissa).shiftRight scale).floor_eq
  have hfloat : double.toUInt64 = UInt64.ofNatClamp ⌊(mantissa : ℚ) * 2 ^ (-(scale : ℤ))⌋₊ := by
    change UInt64.ofNatClamp (double.toModel.unpack.toInt 0 (UInt64.size - 1)).toNat = _
    rw [hunpack, hfloor]
    simp [UnpackedFloat.toInt, roundToInt, decreaseExponent, shiftToExponent, Sign.apply]
  have hsize : ⌊(mantissa : ℚ) * 2 ^ (-(scale : ℤ))⌋₊ < UInt64.size := by
    refine (Nat.floor_lt (by positivity)).mpr (hsmall.trans ?_)
    norm_num [UInt64.size]
  rw [hfloat, UInt64.ofNatClamp, dif_pos hsize]
  rfl

end RunLedger.Double
