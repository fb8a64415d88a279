import Mathlib.Data.String.Basic
import Mathlib.Order.Compare
import Mathlib.Tactic.SplitIfs
import RunLedger.Text

/-!
# The order of bytes and the order of texts

Bytes are compared one by one, so of two lists with as many bytes the one that writes the larger
number is the larger one, whatever follows them (`compare_append_of_length_eq`). UTF-8 is laid out
for that order: the first byte of a character tells how many belong to it, and more bytes mean a
larger character. So texts, which are compared character by character, are ordered as their UTF-8
bytes are (`compare_utf8`).
-/

set_option autoImplicit false

namespace RunLedger.Text

/-! ### Bytes -/

/-- The number that bytes write, the most significant first. -/
def numberOf : List UInt8 → Nat
  | [] => 0
  | byte :: rest => byte.toNat * 256 ^ rest.length + numberOf rest

theorem numberOf_lt (bytes : List UInt8) : numberOf bytes < 256 ^ bytes.length := by
  induction bytes with
  | nil => decide
  | cons byte rest ih =>
    have hbyte := byte.toNat_lt
    have hmul : byte.toNat * 256 ^ rest.length ≤ 255 * 256 ^ rest.length :=
      Nat.mul_le_mul_right _ (by omega)
    rw [numberOf, List.length_cons, Nat.pow_succ]
    omega

/-- Bytes that begin with the smaller byte are smaller. -/
theorem compare_cons_of_lt {first second : UInt8} (hlt : first < second)
    (behind others : List UInt8) : compare (first :: behind) (second :: others) = .lt := by
  rw [List.compare_cons_cons, Std.compare_eq_lt.mpr hlt]
  rfl

theorem compare_cons_self (byte : UInt8) (behind others : List UInt8) :
    compare (byte :: behind) (byte :: others) = compare behind others := by
  have hbyte : compare byte byte = .eq := Std.ReflCmp.compare_self
  rw [List.compare_cons_cons, hbyte]
  rfl

theorem compare_append_self (bytes behind others : List UInt8) :
    compare (bytes ++ behind) (bytes ++ others) = compare behind others := by
  induction bytes with
  | nil => rfl
  | cons byte rest ih => exact (compare_cons_self ..).trans ih

/-- The number written by as many bytes decides, and what follows only if it is the same. -/
theorem compare_append_of_length_eq {first second : List UInt8}
    (hlength : first.length = second.length) (behind others : List UInt8) :
    compare (first ++ behind) (second ++ others) =
      (compare (numberOf first) (numberOf second)).then (compare behind others) := by
  induction first generalizing second with
  | nil =>
    obtain rfl : second = [] := List.eq_nil_of_length_eq_zero hlength.symm
    rfl
  | cons byte rest ih =>
    cases second with
    | nil => cases hlength
    | cons other tail =>
      have htail : rest.length = tail.length := Nat.succ.inj hlength
      have hrest := numberOf_lt rest
      have hother := numberOf_lt tail
      simp only [List.cons_append, numberOf]
      rw [← htail] at hother ⊢
      generalize 256 ^ rest.length = weight at hrest hother ⊢
      obtain rfl | hne := eq_or_ne byte other
      · rw [compare_cons_self, ih htail]
        congr 1
        simp only [Nat.compare_eq_ite_lt, Nat.add_lt_add_iff_left]
      obtain hlt | hgt := UInt8.lt_or_lt_of_ne hne
      · have hnumbers : byte.toNat * weight + weight ≤ other.toNat * weight := by
          rw [← Nat.succ_mul]
          exact Nat.mul_le_mul_right _ (UInt8.lt_iff_toNat_lt.mp hlt)
        rw [compare_cons_of_lt hlt, Nat.compare_eq_lt.mpr (by omega)]
        rfl
      · have hnumbers : other.toNat * weight + weight ≤ byte.toNat * weight := by
          rw [← Nat.succ_mul]
          exact Nat.mul_le_mul_right _ (UInt8.lt_iff_toNat_lt.mp hgt)
        rw [Std.OrientedCmp.gt_of_lt (compare_cons_of_lt hgt _ _),
          Nat.compare_eq_gt.mpr (by omega)]
        rfl

/-- As many bytes that write the same number are the same bytes. -/
theorem eq_of_numberOf_eq {first second : List UInt8} (hlength : first.length = second.length)
    (hnumber : numberOf first = numberOf second) : first = second := by
  have hcompare := compare_append_of_length_eq hlength [] []
  rw [hnumber, Nat.compare_eq_eq.mpr rfl, List.append_nil, List.append_nil] at hcompare
  exact Std.LawfulEqOrd.eq_of_compare hcompare

/-! ### Texts -/

/-- The smaller character has the smaller bytes, whatever follows. -/
theorem compare_utf8EncodeChar_of_lt {first second : Char} (hlt : first < second)
    (behind others : List UInt8) :
    compare (String.utf8EncodeChar first ++ behind) (String.utf8EncodeChar second ++ others) =
      .lt := by
  have hcodes : first.val.toNat < second.val.toNat := UInt32.lt_iff_toNat_lt.mp (Char.lt_def.mp hlt)
  have hbound : second.val.toNat < 1114112 := by
    have hvalid := second.valid
    unfold UInt32.isValidChar Nat.isValidChar at hvalid
    omega
  have hleading {first second : Nat} (hfirst : first < second) (hsecond : second < 256)
      (behind others : List UInt8) :
      compare (UInt8.ofNat first :: behind) (UInt8.ofNat second :: others) = .lt := by
    refine compare_cons_of_lt (UInt8.lt_iff_toNat_lt.mpr ?_) _ _
    simp only [UInt8.toNat_ofNat']
    omega
  -- with as many bytes the numbers they write decide
  have hnumbers {first second : List UInt8} (hlength : first.length = second.length)
      (hnumber : numberOf first < numberOf second) :
      compare (first ++ behind) (second ++ others) = .lt := by
    rw [compare_append_of_length_eq hlength, Nat.compare_eq_lt.mpr hnumber]
    rfl
  have hdivided (code : Nat) :
      code / 262144 = code / 64 / 64 / 64 ∧ code / 4096 = code / 64 / 64 := by omega
  unfold String.utf8EncodeChar
  generalize first.val.toNat = code at hcodes ⊢
  generalize second.val.toNat = other at hcodes hbound ⊢
  dsimp only
  split_ifs
  all_goals first
    | omega
    | exact hleading (by omega) (by omega) _ _
    | refine hnumbers rfl ?_
      simp only [numberOf, UInt8.toNat_ofNat', List.length_cons, List.length_nil]
      simp (disch := omega) only [Nat.mod_eq_of_lt, hdivided]
      omega

/-- UTF-8 is laid out for the order of characters, so texts are ordered as their bytes are. -/
theorem compare_utf8 (first second : String) :
    compare (utf8 first) (utf8 second) = compare first second := by
  have hbytes (text : String) : utf8 text = text.toList.flatMap String.utf8EncodeChar := by
    rw [← utf8_ofList, String.ofList_toList]
  have hcharacters {former latter : List Char} (hlt : List.Lex (· < ·) former latter) :
      compare (former.flatMap String.utf8EncodeChar) (latter.flatMap String.utf8EncodeChar) =
        .lt := by
    induction hlt with
    | @nil character rest =>
      cases hencoded : String.utf8EncodeChar character with
      | nil =>
        have hsize := String.length_utf8EncodeChar character
        rw [hencoded] at hsize
        exact absurd hsize character.utf8Size_pos.ne
      | cons byte bytes =>
        rw [List.flatMap_cons, hencoded]
        rfl
    | cons _ ih =>
      rw [List.flatMap_cons, List.flatMap_cons, compare_append_self]
      exact ih
    | rel hcharacter => exact compare_utf8EncodeChar_of_lt hcharacter _ _
  have hless {former latter : String} (hlt : former < latter) :
      compare (utf8 former) (utf8 latter) = .lt := by
    rw [hbytes, hbytes]
    exact hcharacters (String.lt_iff_toList_lt.mp hlt)
  rcases lt_trichotomy first second with hlt | rfl | hgt
  · rw [hless hlt, compare_lt_iff_lt.mpr hlt]
  · have hsame : compare (utf8 first) (utf8 first) = .eq := Std.ReflCmp.compare_self
    rw [hsame, compare_eq_iff_eq.mpr rfl]
  · rw [Std.OrientedCmp.gt_of_lt (hless hgt), compare_gt_iff_gt.mpr hgt]

/-- The bytes read as a text are those of that text and no others. -/
theorem ofUtf8?_eq_some_iff {bytes : List UInt8} {text : String} :
    ofUtf8? bytes = some text ↔ bytes = utf8 text := by
  constructor
  · intro hread
    unfold ofUtf8? String.fromUTF8? at hread
    split at hread
    · obtain rfl := Option.some.inj hread
      rfl
    · cases hread
  · rintro rfl
    exact ofUtf8?_utf8 text

end RunLedger.Text
