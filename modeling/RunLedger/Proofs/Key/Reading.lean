import Mathlib.Data.Nat.Bitwise
import RunLedger.Failure
import RunLedger.Proofs.Key.Layout
import RunLedger.Proofs.Text.Order

/-!
# Reading keys

Components are written in one way each and are read in no other: a reader answers a value exactly if
the bytes begin with those of the value, and leaves what follows them (`run_text_iff`,
`run_number_iff`, `run_program_iff`). All other bytes are damaged, and the reader says how
(`Malformed`): they end too early, a NUL in a text is followed by a byte that neither escapes it nor
ends the text, a text is not UTF-8, or a byte stands for no program type.
-/

set_option autoImplicit false

namespace RunLedger

open Text (numberOf)

/-! ### Numbers -/

namespace KeyComponent

/-- The last bytes of a number write its remainder by as many powers of 256. -/
theorem numberOf_lastBytes (value : UInt64) {count : Nat} (hcount : count ≤ 8) :
    numberOf ((List.range count).reverse.map fun place ↦
      (value >>> UInt64.ofNat (8 * place)).toUInt8) = value.toNat % 256 ^ count := by
  induction count with
  | zero => exact (Nat.mod_one _).symm
  | succ count ih =>
    have hshift : (UInt64.ofNat (8 * count)).toNat % 64 = 8 * count := by
      rw [UInt64.toNat_ofNat_of_lt' (by rw [UInt64.size]; omega)]
      omega
    have hbyte : (value >>> UInt64.ofNat (8 * count)).toUInt8.toNat =
        value.toNat / 256 ^ count % 256 := by
      rw [UInt64.toNat_toUInt8, UInt64.toNat_shiftRight, hshift, Nat.shiftRight_eq_div_pow,
        Nat.pow_mul]
    rw [List.range_succ, List.reverse_append, List.reverse_singleton, List.singleton_append,
      List.map_cons, numberOf, hbyte, ih (by omega), List.length_map, List.length_reverse,
      List.length_range, Nat.pow_succ, Nat.mod_mul, Nat.mul_comm, Nat.add_comm]

/-- The bytes of a number write it. -/
theorem numberOf_numberBytes (value : UInt64) : numberOf (numberBytes value) = value.toNat :=
  (numberOf_lastBytes value (Nat.le_refl 8)).trans (Nat.mod_eq_of_lt value.toNat_lt)

theorem length_numberBytes (value : UInt64) : (numberBytes value).length = 8 := rfl

end KeyComponent

namespace KeyReader

/-- A number that leaves room for another byte takes it as its last one. -/
theorem toNat_shiftLeft_or (number : UInt64) (byte : UInt8) (hroom : number.toNat < 2 ^ 56) :
    (number <<< 8 ||| byte.toUInt64).toNat = number.toNat * 256 + byte.toNat := by
  have hshift : (number <<< 8).toNat = number.toNat <<< 8 := by
    rw [UInt64.toNat_shiftLeft]
    refine Nat.mod_eq_of_lt ?_
    rw [Nat.shiftLeft_eq]
    simp only [UInt64.reduceToNat, Nat.reduceMod]
    omega
  rw [UInt64.toNat_or, hshift, UInt8.toNat_toUInt64,
    ← Nat.shiftLeft_add_eq_or_of_lt byte.toNat_lt, Nat.shiftLeft_eq]

/-- The number that at most eight bytes write fits. -/
theorem toNat_numberOfBytes {bytes : List UInt8} (hlength : bytes.length ≤ 8) :
    (numberOfBytes bytes).toNat = numberOf bytes := by
  have hfold (bytes : List UInt8) (number : UInt64)
      (hfits : number.toNat * 256 ^ bytes.length + numberOf bytes < 2 ^ 64) :
      (bytes.foldl (fun (number : UInt64) byte ↦ number <<< 8 ||| byte.toUInt64) number).toNat =
        number.toNat * 256 ^ bytes.length + numberOf bytes := by
    induction bytes generalizing number with
    | nil => simp [numberOf]
    | cons byte rest ih =>
      have hpositive : 0 < 256 ^ rest.length := Nat.pow_pos (by decide)
      rw [List.length_cons, Nat.pow_succ, Nat.mul_comm _ 256, ← Nat.mul_assoc, numberOf,
        ← Nat.add_assoc, ← Nat.add_mul] at hfits ⊢
      have hnext : (number <<< 8 ||| byte.toUInt64).toNat = number.toNat * 256 + byte.toNat := by
        have hmul := Nat.le_mul_of_pos_right (number.toNat * 256 + byte.toNat) hpositive
        exact toNat_shiftLeft_or number byte (by omega)
      rw [List.foldl_cons, ih _ (by rw [hnext]; exact hfits), hnext]
  have hbound : numberOf bytes < 2 ^ 64 :=
    calc numberOf bytes < 256 ^ bytes.length := Text.numberOf_lt bytes
      _ ≤ 256 ^ 8 := Nat.pow_le_pow_right (by decide) hlength
      _ = 2 ^ 64 := by decide
  rw [numberOfBytes, hfold bytes 0 (by simpa using hbound)]
  simp

/-- A number is read from the eight bytes that write it. -/
theorem numberOfBytes_eq_iff {bytes : List UInt8} (hlength : bytes.length = 8) {value : UInt64} :
    numberOfBytes bytes = value ↔ KeyComponent.numberBytes value = bytes := by
  rw [← UInt64.toNat_inj, toNat_numberOfBytes hlength.le, ← KeyComponent.numberOf_numberBytes]
  constructor
  · exact fun hnumber ↦ Text.eq_of_numberOf_eq hlength.symm hnumber.symm
  · rintro rfl
    rfl

/-! ### Readers one after the other -/

section Sequences

variable {α β : Type} {first : KeyReader α} {next : α → KeyReader β}

theorem run_get (bytes : List UInt8) :
    (get : KeyReader (List UInt8)).run.run bytes = (.ok bytes, bytes) := rfl

/-- A reader that goes on after another fails with it. -/
theorem run_bind_error {damage : Damage} {bytes rest : List UInt8}
    (hfirst : first.run.run bytes = (.error damage, rest)) :
    (first >>= next).run.run bytes = (.error damage, rest) := by
  have hbind : (first >>= next).run.run bytes =
      (fun answered : Except Damage α × List UInt8 ↦
        (ExceptT.bindCont next answered.1).run answered.2) (first.run.run bytes) := rfl
  rw [hbind, hfirst]
  rfl

/-- Two readers answer if the first does and the second does on what it left. -/
theorem run_bind_eq_ok_iff {value : β} {bytes rest : List UInt8} :
    (first >>= next).run.run bytes = (.ok value, rest) ↔
      ∃ former left, first.run.run bytes = (.ok former, left) ∧
        (next former).run.run left = (.ok value, rest) := by
  constructor
  · intro hboth
    rcases hanswer : first.run.run bytes with ⟨answer, left⟩
    cases answer with
    | ok former =>
      rw [run_bind hanswer] at hboth
      exact ⟨former, left, rfl, hboth⟩
    | error damage =>
      rw [run_bind_error hanswer] at hboth
      cases hboth
  · rintro ⟨former, left, hfirst, hnext⟩
    exact (run_bind hfirst).trans hnext

/-- Two readers fail if the first does, or the second on what the first left. -/
theorem run_bind_eq_error_iff {damage : Damage} {bytes : List UInt8} :
    ((first >>= next).run.run bytes).1 = .error damage ↔
      (first.run.run bytes).1 = .error damage ∨
        ∃ former left, first.run.run bytes = (.ok former, left) ∧
          ((next former).run.run left).1 = .error damage := by
  rcases hanswer : first.run.run bytes with ⟨answer, left⟩
  cases answer with
  | ok former =>
    rw [run_bind hanswer]
    constructor
    · exact fun hnext ↦ .inr ⟨former, left, rfl, hnext⟩
    · rintro (hfirst | ⟨other, rest, hfirst, hnext⟩)
      · cases hfirst
      · obtain ⟨hformer, rfl⟩ := Prod.mk.inj hfirst
        obtain rfl := Except.ok.inj hformer
        exact hnext
  | error failure =>
    rw [run_bind_error hanswer]
    constructor
    · intro hfailure
      exact .inl (congrArg Except.error (Except.error.inj hfailure))
    · rintro (hfailure | ⟨other, rest, hfirst, hnext⟩)
      · exact congrArg Except.error (Except.error.inj hfailure)
      · cases hfirst

end Sequences

/-! ### Escaped texts -/

section Escapes

open KeyComponent (escape)

/-- An answer with more bytes in front of those it read. -/
theorem unescape_escape_append (leading behind : List UInt8) :
    unescape (escape leading ++ behind) =
      ((unescape behind).1.map (leading ++ ·), (unescape behind).2) := by
  have hcons (head : UInt8) (hhead : head ≠ 0) (tail : List UInt8) :
      unescape (head :: tail) = ((unescape tail).1.map (head :: ·), (unescape tail).2) := by
    cases tail with
    | nil => rfl
    | cons second rest =>
      rw [unescape, if_pos hhead]
      rcases unescape (second :: rest) with ⟨_ | _, _⟩ <;> rfl
  have hzero (tail : List UInt8) :
      unescape (0 :: 255 :: tail) = ((unescape tail).1.map (0 :: ·), (unescape tail).2) := by
    rw [unescape, if_neg (not_not_intro rfl), if_neg (by decide), if_pos rfl]
    rcases unescape tail with ⟨_ | _, _⟩ <;> rfl
  have hmap (head : UInt8) (tail : List UInt8) (answer : Except Damage (List UInt8)) :
      (answer.map (tail ++ ·)).map (head :: ·) = answer.map (head :: tail ++ ·) := by
    cases answer <;> rfl
  induction leading with
  | nil =>
    rcases hanswer : unescape behind with ⟨_ | _, _⟩ <;> simp [escape, hanswer, Except.map]
  | cons head tail ih =>
    rw [escape]
    split
    · rename_i hhead
      rw [List.cons_append, List.cons_append, hzero, ih, hmap, hhead]
    · rename_i hhead
      rw [List.cons_append, hcons head hhead, ih, hmap]

/-- Bytes go on as those of a text until they end or a NUL is not followed by its companion. -/
theorem exists_escape_append : (bytes : List UInt8) →
    ∃ leading behind, bytes = escape leading ++ behind ∧
      (behind = [] ∨ behind = [0] ∨ ∃ byte rest, byte ≠ 255 ∧ behind = 0 :: byte :: rest)
  | [] => ⟨[], [], rfl, .inl rfl⟩
  | [head] => by
    by_cases hhead : head = 0
    · exact ⟨[], [head], rfl, .inr (.inl (by rw [hhead]))⟩
    · exact ⟨[head], [], by simp [escape, hhead], .inl rfl⟩
  | head :: second :: rest => by
    by_cases hhead : head = 0
    · by_cases hsecond : second = 255
      · obtain ⟨leading, behind, hbytes, hbehind⟩ := exists_escape_append rest
        exact ⟨0 :: leading, behind, by simp [escape, hhead, hsecond, hbytes], hbehind⟩
      · exact ⟨[], head :: second :: rest, rfl, .inr (.inr ⟨second, rest, hsecond, by rw [hhead]⟩)⟩
    · obtain ⟨leading, behind, hbytes, hbehind⟩ := exists_escape_append (second :: rest)
      exact ⟨head :: leading, behind, by simp [escape, hhead, hbytes], hbehind⟩

/-- Why no text can be read from bytes. -/
inductive Unterminated : Damage → List UInt8 → Prop where
  | unclosed (leading : List UInt8) : Unterminated .truncatedByte (escape leading)
  | halfEscaped (leading : List UInt8) : Unterminated .truncatedByte (escape leading ++ [0])
  | misescaped (leading : List UInt8) (byte : UInt8) (rest : List UInt8) (hend : byte ≠ 1)
      (hcompanion : byte ≠ 255) :
      Unterminated (.invalidEscape byte) (escape leading ++ 0 :: byte :: rest)

theorem unescape_of_unterminated {bytes : List UInt8} {damage : Damage}
    (hbytes : Unterminated damage bytes) : (unescape bytes).1 = .error damage := by
  cases hbytes with
  | unclosed leading =>
    rw [← List.append_nil (escape leading), unescape_escape_append]
    rfl
  | halfEscaped leading =>
    rw [unescape_escape_append]
    rfl
  | misescaped leading byte rest hend hcompanion =>
    have hbehind : unescape (0 :: byte :: rest) = (.error (.invalidEscape byte), rest) := by
      rw [unescape, if_neg (not_not_intro rfl), if_neg hend, if_neg hcompanion]
    rw [unescape_escape_append, hbehind]
    rfl

/-- Bytes hold the end of an escaped text, or none can be read from them. -/
theorem terminated_or_unterminated (bytes : List UInt8) :
    (∃ text rest, bytes = escape text ++ 0 :: 1 :: rest) ∨ ∃ damage, Unterminated damage bytes := by
  obtain ⟨leading, behind, rfl, hbehind⟩ := exists_escape_append bytes
  obtain rfl | rfl | ⟨byte, rest, hcompanion, rfl⟩ := hbehind
  · rw [List.append_nil]
    exact .inr ⟨_, .unclosed leading⟩
  · exact .inr ⟨_, .halfEscaped leading⟩
  · by_cases hend : byte = 1
    · exact .inl ⟨leading, rest, by rw [hend]⟩
    · exact .inr ⟨_, .misescaped leading byte rest hend hcompanion⟩

theorem unescape_eq_ok_iff {bytes text rest : List UInt8} :
    unescape bytes = (.ok text, rest) ↔ escape text ++ 0 :: 1 :: rest = bytes := by
  constructor
  · intro hread
    obtain ⟨other, left, rfl⟩ | ⟨damage, hdamage⟩ := terminated_or_unterminated bytes
    · rw [unescape_escape] at hread
      obtain ⟨htext, rfl⟩ := Prod.mk.inj hread
      rw [Except.ok.inj htext]
    · have herror := unescape_of_unterminated hdamage
      rw [hread] at herror
      cases herror
  · rintro rfl
    exact unescape_escape text rest

theorem unescape_eq_error_iff {bytes : List UInt8} {damage : Damage} :
    (unescape bytes).1 = .error damage ↔ Unterminated damage bytes := by
  refine ⟨fun hread ↦ ?_, unescape_of_unterminated⟩
  obtain ⟨text, rest, rfl⟩ | ⟨other, hother⟩ := terminated_or_unterminated bytes
  · rw [unescape_escape] at hread
    cases hread
  · rw [unescape_of_unterminated hother] at hread
    obtain rfl := Except.error.inj hread
    exact hother

end Escapes

/-! ### Single components -/

theorem run_byte_eq_ok_iff {bytes rest : List UInt8} {value : UInt8} :
    KeyReader.byte.run.run bytes = (.ok value, rest) ↔ value :: rest = bytes := by
  constructor
  · intro hread
    cases bytes with
    | nil => cases hread
    | cons head tail =>
      obtain ⟨hvalue, rfl⟩ := Prod.mk.inj hread
      rw [Except.ok.inj hvalue]
  · rintro rfl
    rfl

theorem run_byte_eq_error_iff {bytes : List UInt8} {damage : Damage} :
    (KeyReader.byte.run.run bytes).1 = .error damage ↔ bytes = [] ∧ damage = .truncatedByte := by
  cases bytes with
  | nil =>
    exact ⟨fun hread ↦ ⟨rfl, (Except.error.inj hread).symm⟩, fun hboth ↦ by rw [hboth.2]; rfl⟩
  | cons head tail => exact ⟨fun hread ↦ (nomatch hread), fun hboth ↦ (nomatch hboth.1)⟩

theorem run_number_of_lt {bytes : List UInt8} (hshort : bytes.length < 8) :
    KeyReader.number.run.run bytes = (.error .truncatedNumber, bytes) := by
  rw [KeyReader.number, run_bind (run_get bytes), if_pos hshort]
  rfl

theorem run_number_of_le {bytes : List UInt8} (hlong : 8 ≤ bytes.length) :
    KeyReader.number.run.run bytes = (.ok (numberOfBytes (bytes.take 8)), bytes.drop 8) := by
  rw [KeyReader.number, run_bind (run_get bytes), if_neg (Nat.not_lt.mpr hlong)]
  rfl

theorem run_number_eq_ok_iff {bytes rest : List UInt8} {value : UInt64} :
    KeyReader.number.run.run bytes = (.ok value, rest) ↔
      KeyComponent.numberBytes value ++ rest = bytes := by
  constructor
  · intro hread
    by_cases hshort : bytes.length < 8
    · rw [run_number_of_lt hshort] at hread
      cases hread
    · have hlong : 8 ≤ bytes.length := Nat.le_of_not_lt hshort
      rw [run_number_of_le hlong] at hread
      obtain ⟨hvalue, rfl⟩ := Prod.mk.inj hread
      have htaken : (bytes.take 8).length = 8 := by rw [List.length_take, Nat.min_eq_left hlong]
      rw [(numberOfBytes_eq_iff htaken).mp (Except.ok.inj hvalue), List.take_append_drop]
  · rintro rfl
    have hlength := KeyComponent.length_numberBytes value
    rw [run_number_of_le (by rw [List.length_append, hlength]; omega),
      List.take_left' hlength, List.drop_left' hlength, (numberOfBytes_eq_iff hlength).mpr rfl]

theorem run_number_eq_error_iff {bytes : List UInt8} {damage : Damage} :
    (KeyReader.number.run.run bytes).1 = .error damage ↔
      bytes.length < 8 ∧ damage = .truncatedNumber := by
  by_cases hshort : bytes.length < 8
  · rw [run_number_of_lt hshort]
    exact ⟨fun hread ↦ ⟨hshort, (Except.error.inj hread).symm⟩, fun hboth ↦ by rw [hboth.2]⟩
  · rw [run_number_of_le (Nat.le_of_not_lt hshort)]
    exact ⟨fun hread ↦ (nomatch hread), fun hboth ↦ absurd hboth.1 hshort⟩

/-- A text is read by undoing its escapes and reading what is left as UTF-8. -/
theorem run_text_eq (bytes : List UInt8) :
    KeyReader.text.run.run bytes =
      ((unescape bytes).1.bind fun text ↦ (Text.ofUtf8? text).elim (.error .undecodable) .ok,
        (unescape bytes).2) := by
  rw [KeyReader.text, run_bind (run_get bytes)]
  rcases unescape bytes with ⟨damage | text, rest⟩
  · rfl
  · cases hread : Text.ofUtf8? text with
    | none =>
      dsimp only [Except.bind]
      rw [hread]
      rfl
    | some value =>
      dsimp only [Except.bind]
      rw [hread]
      rfl

/-- Why no text can be read from bytes: it has no end, or is not UTF-8. -/
inductive Unreadable : Damage → List UInt8 → Prop where
  | unterminated {damage : Damage} {bytes : List UInt8} (hbytes : Unterminated damage bytes) :
      Unreadable damage bytes
  | undecodable (text rest : List UInt8) (htext : ∀ value : String, Text.utf8 value ≠ text) :
      Unreadable .undecodable (KeyComponent.escape text ++ 0 :: 1 :: rest)

theorem run_text_eq_ok_iff {bytes rest : List UInt8} {value : String} :
    KeyReader.text.run.run bytes = (.ok value, rest) ↔
      KeyComponent.encode (.text value) ++ rest = bytes := by
  constructor
  · intro hread
    rw [run_text_eq] at hread
    rcases hunescape : unescape bytes with ⟨damage | text, left⟩
    · rw [hunescape] at hread
      cases hread
    · rw [hunescape] at hread
      obtain ⟨hvalue, rfl⟩ := Prod.mk.inj hread
      cases hutf8 : Text.ofUtf8? text with
      | none => simp [Except.bind, hutf8] at hvalue
      | some other =>
        obtain rfl : other = value := by simpa [Except.bind, hutf8] using hvalue
        rw [encode_text_append, ← Text.ofUtf8?_eq_some_iff.mp hutf8]
        exact unescape_eq_ok_iff.mp hunescape
  · rintro rfl
    exact run_text value rest

theorem run_text_eq_error_iff {bytes : List UInt8} {damage : Damage} :
    (KeyReader.text.run.run bytes).1 = .error damage ↔ Unreadable damage bytes := by
  rw [run_text_eq]
  constructor
  · intro hread
    rcases hunescape : unescape bytes with ⟨other | text, left⟩
    · rw [hunescape] at hread
      refine .unterminated (unescape_eq_error_iff.mp ?_)
      rw [hunescape]
      exact congrArg Except.error (Except.error.inj hread)
    · rw [hunescape] at hread
      cases hutf8 : Text.ofUtf8? text with
      | none =>
        obtain rfl : .undecodable = damage := by simpa [Except.bind, hutf8] using hread
        rw [← unescape_eq_ok_iff.mp hunescape]
        refine .undecodable text left fun value hvalue ↦ ?_
        rw [← hvalue, Text.ofUtf8?_utf8] at hutf8
        cases hutf8
      | some value => simp [Except.bind, hutf8] at hread
  · intro hbytes
    cases hbytes with
    | unterminated hbytes =>
      rw [unescape_eq_error_iff.mpr hbytes]
      rfl
    | undecodable text rest htext =>
      have hutf8 : Text.ofUtf8? text = none :=
        Option.eq_none_iff_forall_ne_some.mpr fun value hvalue ↦
          htext value (Text.ofUtf8?_eq_some_iff.mp hvalue).symm
      rw [unescape_escape]
      simp [Except.bind, hutf8]

/-! ### Programs -/

/-- A byte that stands for no type of program. -/
theorem ofCode?_eq_none_iff {code : UInt8} :
    ProgramType.ofCode? code = none ↔ ∀ type : ProgramType, type.code ≠ code := by
  constructor
  · rintro hnone type rfl
    rw [type.ofCode?_code] at hnone
    cases hnone
  · intro hcode
    refine Option.eq_none_iff_forall_ne_some.mpr fun type htype ↦ ?_
    exact hcode type (ProgramType.eq_of_ofCode? htype)

theorem run_program_eq_ok_iff {bytes rest : List UInt8} {program : ProgramId} :
    KeyReader.program.run.run bytes = (.ok program, rest) ↔
      KeyComponent.encodeAll program.keyComponents ++ rest = bytes := by
  constructor
  · intro hread
    obtain ⟨namespaceName, applicationBytes, hnamespace, hread⟩ := run_bind_eq_ok_iff.mp hread
    obtain ⟨application, typeBytes, happlication, hread⟩ := run_bind_eq_ok_iff.mp hread
    obtain ⟨code, nameBytes, hcode, hread⟩ := run_bind_eq_ok_iff.mp hread
    cases htype : ProgramType.ofCode? code with
    | none =>
      rw [htype] at hread
      cases hread
    | some type =>
      rw [htype] at hread
      obtain ⟨name, left, hname, hread⟩ := run_bind_eq_ok_iff.mp hread
      obtain ⟨hprogram, rfl⟩ := Prod.mk.inj hread
      obtain rfl := Except.ok.inj hprogram
      rw [← run_text_eq_ok_iff.mp hnamespace, ← run_text_eq_ok_iff.mp happlication,
        ← run_byte_eq_ok_iff.mp hcode, ← run_text_eq_ok_iff.mp hname,
        ← ProgramType.eq_of_ofCode? htype]
      simp [ProgramId.keyComponents, KeyComponent.encodeAll, KeyComponent.encode]
  · rintro rfl
    exact run_program program rest

end KeyReader

/-! ### Components of all kinds -/

/-- What a reader can be asked for. -/
inductive KeyKind where
  | byte
  | number
  | text
  | program

/-- What a reader answers: a single component, or a program for its four. -/
inductive KeyPart where
  | byte (value : UInt8)
  | number (value : UInt64)
  | text (value : String)
  | program (value : ProgramId)

namespace KeyPart

def kind : KeyPart → KeyKind
  | byte _ => .byte
  | number _ => .number
  | text _ => .text
  | program _ => .program

/-- The components that are written for a part. -/
def components : KeyPart → List KeyComponent
  | byte value => [.byte value]
  | number value => [.number value]
  | text value => [.text value]
  | program value => value.keyComponents

/-- What is written for a part. -/
def bytes (part : KeyPart) : List UInt8 := KeyComponent.encodeAll part.components

end KeyPart

/-- Takes a part of a kind. -/
def KeyKind.read : KeyKind → KeyReader KeyPart
  | byte => do return .byte (← KeyReader.byte)
  | number => do return .number (← KeyReader.number)
  | text => do return .text (← KeyReader.text)
  | program => do return .program (← KeyReader.program)

/-- Takes parts of several kinds in a row. -/
def KeyReader.readAll : List KeyKind → KeyReader (List KeyPart)
  | [] => return []
  | kind :: kinds => do
    let part ← kind.read
    let parts ← readAll kinds
    return part :: parts

/-- Why no part of a kind can be read from bytes. The parts of a program are read in turn, and any
of them may be the one that is damaged. -/
inductive Malformed : KeyKind → Damage → List UInt8 → Prop where
  | byte : Malformed .byte .truncatedByte []
  | number {bytes : List UInt8} (hshort : bytes.length < 8) :
      Malformed .number .truncatedNumber bytes
  | text {damage : Damage} {bytes : List UInt8} (hbytes : KeyReader.Unreadable damage bytes) :
      Malformed .text damage bytes
  | namespaceName {damage : Damage} {bytes : List UInt8}
      (hbytes : KeyReader.Unreadable damage bytes) : Malformed .program damage bytes
  | application (namespaceName : String) {damage : Damage} {bytes : List UInt8}
      (hbytes : KeyReader.Unreadable damage bytes) :
      Malformed .program damage (KeyComponent.encodeAll [.text namespaceName] ++ bytes)
  | missingType (namespaceName application : String) :
      Malformed .program .truncatedByte
        (KeyComponent.encodeAll [.text namespaceName, .text application])
  | unknownType (namespaceName application : String) (code : UInt8) (rest : List UInt8)
      (hcode : ∀ type : ProgramType, type.code ≠ code) :
      Malformed .program (.unknownProgramType code)
        (KeyComponent.encodeAll [.text namespaceName, .text application, .byte code] ++ rest)
  | name (namespaceName application : String) (type : ProgramType) {damage : Damage}
      {bytes : List UInt8} (hbytes : KeyReader.Unreadable damage bytes) :
      Malformed .program damage
        (KeyComponent.encodeAll [.text namespaceName, .text application, .byte type.code] ++ bytes)

namespace KeyReader

/-- An answer that is only wrapped is there if the answer is. -/
theorem run_wrapped_eq_ok_iff {α β : Type} {reader : KeyReader α} {wrap : α → β} {value : β}
    {bytes rest : List UInt8} :
    (do return wrap (← reader) : KeyReader β).run.run bytes = (.ok value, rest) ↔
      ∃ former, reader.run.run bytes = (.ok former, rest) ∧ wrap former = value := by
  rw [run_bind_eq_ok_iff]
  constructor
  · rintro ⟨former, left, hread, hwrap⟩
    obtain ⟨hvalue, rfl⟩ := Prod.mk.inj hwrap
    exact ⟨former, hread, Except.ok.inj hvalue⟩
  · rintro ⟨former, hread, rfl⟩
    exact ⟨former, rest, hread, rfl⟩

theorem run_wrapped_eq_error_iff {α β : Type} {reader : KeyReader α} {wrap : α → β}
    {damage : Damage} {bytes : List UInt8} :
    ((do return wrap (← reader) : KeyReader β).run.run bytes).1 = .error damage ↔
      (reader.run.run bytes).1 = .error damage := by
  rw [run_bind_eq_error_iff]
  constructor
  · rintro (hread | ⟨former, left, hread, hwrap⟩)
    · exact hread
    · cases hwrap
  · exact .inl

/-- A part is read where its bytes are. -/
theorem read_eq_ok_iff {kind : KeyKind} {part : KeyPart} {bytes rest : List UInt8} :
    kind.read.run.run bytes = (.ok part, rest) ↔ part.kind = kind ∧ part.bytes ++ rest = bytes := by
  have hwrapped {α : Type} {reader : KeyReader α} {wrap : α → KeyPart}
      (hreads : ∀ value, reader.run.run bytes = (.ok value, rest) ↔
        (wrap value).bytes ++ rest = bytes)
      (hkind : part.kind = kind ↔ ∃ value, wrap value = part) :
      (do return wrap (← reader) : KeyReader KeyPart).run.run bytes = (.ok part, rest) ↔
        part.kind = kind ∧ part.bytes ++ rest = bytes := by
    rw [run_wrapped_eq_ok_iff, hkind]
    constructor
    · rintro ⟨value, hread, rfl⟩
      exact ⟨⟨value, rfl⟩, (hreads value).mp hread⟩
    · rintro ⟨⟨value, rfl⟩, hbytes⟩
      exact ⟨value, (hreads value).mpr hbytes, rfl⟩
  have hsingle (component : KeyComponent) :
      KeyComponent.encodeAll [component] = component.encode :=
    List.flatMap_singleton ..
  cases kind with
  | byte =>
    refine hwrapped (fun value ↦ run_byte_eq_ok_iff) ?_
    cases part <;> simp [KeyPart.kind]
  | number =>
    refine hwrapped (fun value ↦ run_number_eq_ok_iff.trans ?_) ?_
    · rw [KeyPart.bytes, KeyPart.components, hsingle, KeyComponent.encode]
    · cases part <;> simp [KeyPart.kind]
  | text =>
    refine hwrapped (fun value ↦ run_text_eq_ok_iff.trans ?_) ?_
    · rw [KeyPart.bytes, KeyPart.components, hsingle]
    · cases part <;> simp [KeyPart.kind]
  | program =>
    refine hwrapped (fun value ↦ run_program_eq_ok_iff) ?_
    cases part <;> simp [KeyPart.kind]

/-- Parts are read in a row where the bytes of all of them are. -/
theorem readAll_eq_ok_iff {kinds : List KeyKind} {parts : List KeyPart} {bytes rest : List UInt8} :
    (readAll kinds).run.run bytes = (.ok parts, rest) ↔
      parts.map KeyPart.kind = kinds ∧ parts.flatMap KeyPart.bytes ++ rest = bytes := by
  induction kinds generalizing parts bytes with
  | nil =>
    constructor
    · intro hread
      obtain ⟨hparts, rfl⟩ := Prod.mk.inj hread
      obtain rfl := Except.ok.inj hparts
      exact ⟨rfl, rfl⟩
    · rintro ⟨hparts, rfl⟩
      rw [List.map_eq_nil_iff.mp hparts]
      rfl
  | cons kind kinds ih =>
    rw [readAll, run_bind_eq_ok_iff]
    constructor
    · rintro ⟨part, left, hpart, hread⟩
      obtain ⟨others, hothers, rfl⟩ := run_wrapped_eq_ok_iff.mp hread
      obtain ⟨rfl, rfl⟩ := read_eq_ok_iff.mp hpart
      obtain ⟨rfl, rfl⟩ := ih.mp hothers
      exact ⟨rfl, by rw [List.flatMap_cons, List.append_assoc]⟩
    · rintro ⟨hkinds, hbytes⟩
      cases parts with
      | nil => cases hkinds
      | cons part others =>
        obtain ⟨hkind, hkinds⟩ := List.cons.inj hkinds
        rw [List.flatMap_cons, List.append_assoc] at hbytes
        exact ⟨part, _, read_eq_ok_iff.mpr ⟨hkind, hbytes⟩,
          run_wrapped_eq_ok_iff.mpr ⟨others, ih.mpr ⟨hkinds, rfl⟩, rfl⟩⟩

theorem run_program_eq_error_iff {damage : Damage} {bytes : List UInt8} :
    (KeyReader.program.run.run bytes).1 = .error damage ↔ Malformed .program damage bytes := by
  constructor
  · intro hread
    obtain hdamage | ⟨namespaceName, applicationBytes, hnamespace, hread⟩ :=
      run_bind_eq_error_iff.mp hread
    · exact .namespaceName (run_text_eq_error_iff.mp hdamage)
    rw [← run_text_eq_ok_iff.mp hnamespace]
    obtain hdamage | ⟨application, typeBytes, happlication, hread⟩ :=
      run_bind_eq_error_iff.mp hread
    · simpa [KeyComponent.encodeAll] using
        Malformed.application namespaceName (run_text_eq_error_iff.mp hdamage)
    rw [← run_text_eq_ok_iff.mp happlication]
    obtain hdamage | ⟨code, nameBytes, hcode, hread⟩ := run_bind_eq_error_iff.mp hread
    · obtain ⟨rfl, rfl⟩ := run_byte_eq_error_iff.mp hdamage
      simpa [KeyComponent.encodeAll] using Malformed.missingType namespaceName application
    rw [← run_byte_eq_ok_iff.mp hcode]
    cases htype : ProgramType.ofCode? code with
    | none =>
      rw [htype] at hread
      obtain rfl := Except.error.inj hread
      simpa [KeyComponent.encodeAll, KeyComponent.encode] using
        Malformed.unknownType namespaceName application code nameBytes
          (ofCode?_eq_none_iff.mp htype)
    | some type =>
      rw [htype] at hread
      have hname := run_text_eq_error_iff.mp (run_wrapped_eq_error_iff.mp hread)
      rw [← ProgramType.eq_of_ofCode? htype]
      simpa [KeyComponent.encodeAll, KeyComponent.encode] using
        Malformed.name namespaceName application type hname
  · intro hbytes
    cases hbytes with
    | namespaceName hbytes =>
      exact run_bind_eq_error_iff.mpr (.inl (run_text_eq_error_iff.mpr hbytes))
    | application namespaceName hbytes =>
      simp only [KeyComponent.encodeAll, List.flatMap_cons, List.flatMap_nil, List.append_assoc,
        List.nil_append]
      rw [KeyReader.program, run_bind (run_text _ _)]
      exact run_bind_eq_error_iff.mpr (.inl (run_text_eq_error_iff.mpr hbytes))
    | missingType namespaceName application =>
      simp only [KeyComponent.encodeAll, List.flatMap_cons, List.flatMap_nil]
      rw [KeyReader.program, run_bind (run_text _ _), run_bind (run_text _ _)]
      exact run_bind_eq_error_iff.mpr (.inl (run_byte_eq_error_iff.mpr ⟨rfl, rfl⟩))
    | unknownType namespaceName application code rest hcode =>
      simp only [KeyComponent.encodeAll, List.flatMap_cons, List.flatMap_nil, List.append_assoc,
        List.nil_append]
      rw [KeyReader.program, run_bind (run_text _ _), run_bind (run_text _ _),
        run_bind (run_byte _ _), ofCode?_eq_none_iff.mpr hcode]
      rfl
    | name namespaceName application type hbytes =>
      simp only [KeyComponent.encodeAll, List.flatMap_cons, List.flatMap_nil, List.append_assoc,
        List.nil_append]
      rw [KeyReader.program, run_bind (run_text _ _), run_bind (run_text _ _),
        run_bind (run_byte _ _), ProgramType.ofCode?_code]
      exact run_wrapped_eq_error_iff.mpr (run_text_eq_error_iff.mpr hbytes)

theorem read_eq_error_iff {kind : KeyKind} {damage : Damage} {bytes : List UInt8} :
    (kind.read.run.run bytes).1 = .error damage ↔ Malformed kind damage bytes := by
  cases kind with
  | byte =>
    refine run_wrapped_eq_error_iff.trans (run_byte_eq_error_iff.trans ⟨?_, fun hbytes ↦ ?_⟩)
    · rintro ⟨rfl, rfl⟩
      exact .byte
    · cases hbytes
      exact ⟨rfl, rfl⟩
  | number =>
    refine run_wrapped_eq_error_iff.trans (run_number_eq_error_iff.trans ⟨?_, fun hbytes ↦ ?_⟩)
    · rintro ⟨hshort, rfl⟩
      exact .number hshort
    · cases hbytes with
      | number hshort => exact ⟨hshort, rfl⟩
  | text =>
    refine run_wrapped_eq_error_iff.trans (run_text_eq_error_iff.trans ⟨.text, fun hbytes ↦ ?_⟩)
    cases hbytes with
    | text hbytes => exact hbytes
  | program => exact run_wrapped_eq_error_iff.trans run_program_eq_error_iff

end KeyReader

/-- Reading undoes writing: parts written in a row are read back up to where their bytes end,
whatever follows, so the key of a run tells the run. And writing undoes reading: a part is read
exactly where its own bytes are, which it takes, and where no part of the kind is written the reader
reports corruption, with what is wrong. -/
theorem reading_inverts_writing :
    (∀ (parts : List KeyPart) (behind : List UInt8),
      (KeyReader.readAll (parts.map KeyPart.kind)).run.run
        (parts.flatMap KeyPart.bytes ++ behind) = (.ok parts, behind)) ∧
    (∀ (program : ProgramId) (id : RunId), (Key.run program id).decodeRun = .ok (program, id)) ∧
    (∀ (kind : KeyKind) (bytes rest : List UInt8) (part : KeyPart),
      kind.read.run.run bytes = (.ok part, rest) ↔
        part.kind = kind ∧ part.bytes ++ rest = bytes) ∧
    (∀ (kind : KeyKind) (bytes : List UInt8) (failure : Failure),
      (kind.read.run.run bytes).1.mapError Failure.corruption = .error failure ↔
        ∃ damage, failure = .corruption damage ∧ Malformed kind damage bytes) := by
  refine ⟨fun parts behind ↦ ?_, Key.decodeRun_run, fun kind bytes rest part ↦ ?_,
    fun kind bytes failure ↦ ?_⟩
  · exact KeyReader.readAll_eq_ok_iff.mpr ⟨rfl, rfl⟩
  · exact KeyReader.read_eq_ok_iff
  · simp only [← KeyReader.read_eq_error_iff]
    cases (kind.read.run.run bytes).1 with
    | ok part => simp [Except.mapError]
    | error damage => simp [Except.mapError, eq_comm]

end RunLedger
