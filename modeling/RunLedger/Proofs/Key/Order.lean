import RunLedger.Key

/-!
# Neighbours in the order of keys

The keys that start with the same bytes are neighbours: none of them is below their stem
(`not_lt_of_startsWith`), and what lies between the stem and one of them starts with the stem too
(`startsWith_of_lt`). So a scan that begins at a stem and stops at the first key that does not start
with it misses nothing.
-/

set_option autoImplicit false

namespace RunLedger.Key

open Std (TransCmp OrientedCmp)

theorem lt_iff_compare {first second : Key} : first < second ↔ compare first second = .lt := Iff.rfl

theorem lt_trans {first second third : Key} (hfirst : first < second) (hsecond : second < third) :
    first < third :=
  TransCmp.lt_trans hfirst hsecond

/-- What is not below a key and below another lies between them. -/
theorem lt_of_not_lt_of_lt {first second third : Key} (hfirst : ¬ second < first)
    (hsecond : second < third) : first < third := by
  have hle : (compare first second).isLE := by
    cases hcompare : compare first second with
    | lt => rfl
    | eq => rfl
    | gt => exact absurd (OrientedCmp.gt_iff_lt.mp hcompare) hfirst
  exact TransCmp.lt_of_isLE_of_lt hle hsecond

/-! ### Bytes -/

/-- No bytes are below a beginning of theirs. -/
theorem compare_bytes_append_ne_lt (stem rest : List UInt8) :
    compare (stem ++ rest) stem ≠ .lt := by
  induction stem with
  | nil =>
    cases rest with
    | nil => decide
    | cons byte rest => exact fun hlt ↦ Ordering.noConfusion hlt
  | cons byte stem ih =>
    have hbyte : compare byte byte = .eq := Std.ReflCmp.compare_self
    rw [List.cons_append, List.compare_cons_cons, hbyte]
    exact ih

/-- Bytes between a beginning and a continuation of it have that beginning too. -/
theorem isPrefixOf_of_compare {stem bytes larger : List UInt8}
    (hstem : compare bytes stem ≠ .lt) (hlarger : compare bytes larger ≠ .gt)
    (hleading : stem.isPrefixOf larger = true) : stem.isPrefixOf bytes = true := by
  induction stem generalizing bytes larger with
  | nil => rfl
  | cons byte stem ih =>
    cases larger with
    | nil => cases hleading
    | cons other larger =>
      obtain ⟨hbyte, hrest⟩ : byte = other ∧ stem.isPrefixOf larger = true := by
        simpa [List.isPrefixOf] using hleading
      subst hbyte
      cases bytes with
      | nil => exact absurd rfl hstem
      | cons head bytes =>
        rw [List.compare_cons_cons] at hstem hlarger
        -- the head is neither below nor above the byte, so it is that byte
        have hhead : compare head byte = .eq := by
          cases hcompare : compare head byte with
          | lt => rw [hcompare] at hstem; exact absurd rfl hstem
          | eq => rfl
          | gt => rw [hcompare] at hlarger; exact absurd rfl hlarger
        rw [hhead] at hstem hlarger
        obtain rfl := Std.LawfulEqOrd.eq_of_compare hhead
        simpa [List.isPrefixOf] using ih hstem hlarger hrest

/-! ### Stems -/

theorem startsWith_iff {key stem : Key} :
    key.startsWith stem = true ↔ key.family = stem.family ∧ stem.bytes <+: key.bytes := by
  simp [startsWith]

/-- No key is below a stem of its own. -/
theorem not_lt_of_startsWith {key stem : Key} (hstem : key.startsWith stem = true) :
    ¬ key < stem := by
  obtain ⟨hfamily, rest, hbytes⟩ := startsWith_iff.mp hstem
  have hrank : compare stem.family.rank stem.family.rank = .eq := Std.ReflCmp.compare_self
  rw [lt_iff_compare, compare_eq, hfamily, hrank, ← hbytes]
  exact compare_bytes_append_ne_lt stem.bytes rest

/-- What lies between keys of one family is of that family. -/
theorem family_of_lt {key smaller larger : Key} (hkey : ¬ key < smaller) (hlarger : key < larger)
    (hfamily : larger.family = smaller.family) : key.family = smaller.family := by
  rw [lt_iff_compare, compare_eq] at hkey hlarger
  rw [hfamily] at hlarger
  refine Family.rank_injective (Std.LawfulEqOrd.eq_of_compare ?_)
  cases hcompare : compare key.family.rank smaller.family.rank with
  | lt => rw [hcompare] at hkey; exact absurd rfl hkey
  | eq => rfl
  | gt => rw [hcompare] at hlarger; cases hlarger

/-- What lies between a stem and a key that starts with it starts with it too. -/
theorem startsWith_of_lt {key larger stem : Key} (hkey : ¬ key < stem) (hlarger : key < larger)
    (hstem : larger.startsWith stem = true) : key.startsWith stem = true := by
  obtain ⟨hfamily, hleading⟩ := startsWith_iff.mp hstem
  have hsame := family_of_lt hkey hlarger hfamily
  have hrank : compare stem.family.rank stem.family.rank = .eq := Std.ReflCmp.compare_self
  rw [lt_iff_compare, compare_eq, hsame, hrank] at hkey
  rw [lt_iff_compare, compare_eq, hsame, hfamily, hrank] at hlarger
  refine startsWith_iff.mpr ⟨hsame, List.isPrefixOf_iff_prefix.mp (isPrefixOf_of_compare hkey ?_
    (List.isPrefixOf_iff_prefix.mpr hleading))⟩
  intro hgt
  exact absurd (hlarger.symm.trans hgt) (by decide)

theorem isBetween_iff {first last key : Key} :
    isBetween first last key = true ↔ ¬ key < first ∧ key < last := by
  simp [isBetween]

end RunLedger.Key
