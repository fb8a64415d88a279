/-!
# Texts as bytes and bytes as text

A text is stored as its UTF-8 bytes (`utf8`), and bytes are read back as text only if they are
well-formed UTF-8 (`ofUtf8?`). Bytes are shown as two lower-case hexadecimal digits each
(`hexadecimal`), the high one first, and read back from them (`ofHexadecimal?_hexadecimal`).
-/

set_option autoImplicit false

namespace RunLedger.Text

/-- The UTF-8 bytes of a text. -/
def utf8 (text : String) : List UInt8 := text.toByteArray.data.toList

/-- The text with the given UTF-8 bytes; none if they are not well-formed. -/
def ofUtf8? (bytes : List UInt8) : Option String := String.fromUTF8? ⟨bytes.toArray⟩

/-- Reading back the bytes of a text gives the text. -/
theorem ofUtf8?_utf8 (text : String) : ofUtf8? (utf8 text) = some text := by
  have hbytes : (⟨(utf8 text).toArray⟩ : ByteArray) = text.toByteArray := by
    simp [utf8]
  unfold ofUtf8? String.fromUTF8?
  rw [hbytes]
  rw [dif_pos text.isValidUTF8]
  rfl

/-- The bytes of a list of characters are those of each in turn. -/
theorem utf8_ofList (characters : List Char) :
    utf8 (String.ofList characters) = characters.flatMap String.utf8EncodeChar := by
  simp [utf8, List.utf8Encode]

/-- A character below 128 is one byte, with its code. -/
theorem utf8EncodeChar_of_lt (character : Char) (hascii : character.toNat < 128) :
    String.utf8EncodeChar character = [UInt8.ofNat character.toNat] := by
  unfold String.utf8EncodeChar
  exact if_pos (Nat.le_of_lt_succ hascii)

/-- A character from 128 on has no byte below 128. -/
theorem le_of_mem_utf8EncodeChar (character : Char) (hbeyond : 128 ≤ character.toNat) (byte : UInt8)
    (hbyte : byte ∈ String.utf8EncodeChar character) : 128 ≤ byte.toNat := by
  have hcode : character.val.toNat = character.toNat := rfl
  simp only [String.utf8EncodeChar, hcode] at hbyte
  split at hbyte
  · omega
  split at hbyte
  · simp only [List.mem_cons, List.not_mem_nil, or_false] at hbyte
    rcases hbyte with rfl | rfl <;> simp only [UInt8.toNat_ofNat'] <;> omega
  split at hbyte <;> simp only [List.mem_cons, List.not_mem_nil, or_false] at hbyte
  · rcases hbyte with rfl | rfl | rfl <;> simp only [UInt8.toNat_ofNat'] <;> omega
  · rcases hbyte with rfl | rfl | rfl | rfl <;> simp only [UInt8.toNat_ofNat'] <;> omega

/-- The lower-case character of a hexadecimal digit. -/
def digitCharacter (digit : Fin 16) : Char :=
  Char.ofNat (if digit.val < 10 then digit.val + 48 else digit.val + 87)

/-- The hexadecimal digit that a character stands for, in either case. -/
def digitOfCharacter? (character : Char) : Option (Fin 16) :=
  let code := character.toNat
  if 48 ≤ code ∧ code ≤ 57 then some (Fin.ofNat 16 (code - 48))
  else if 97 ≤ code ∧ code ≤ 102 then some (Fin.ofNat 16 (code - 87))
  else if 65 ≤ code ∧ code ≤ 70 then some (Fin.ofNat 16 (code - 55))
  else none

/-- A digit is read back from its character. -/
theorem digitOfCharacter?_digitCharacter (digit : Fin 16) :
    digitOfCharacter? (digitCharacter digit) = some digit := by
  revert digit
  decide

/-- The number that a list of hexadecimal digits writes, the most significant first. -/
def ofDigits (digits : List (Fin 16)) : Nat :=
  digits.foldl (fun number digit ↦ number * 16 + digit.val) 0

/-- The last `count` hexadecimal digits of a number, the most significant first. -/
def digitsOf : (count number : Nat) → List (Fin 16)
  | 0, _ => []
  | count + 1, number => digitsOf count (number / 16) ++ [Fin.ofNat 16 number]

theorem length_digitsOf (count number : Nat) : (digitsOf count number).length = count := by
  induction count generalizing number with
  | zero => rfl
  | succ count ih => simp [digitsOf, ih]

/-- Two hexadecimal characters for a byte. -/
def byteCharacters (byte : UInt8) : List Char := (digitsOf 2 byte.toNat).map digitCharacter

/-- Two hexadecimal characters for each byte. -/
def hexadecimal (bytes : List UInt8) : String := String.ofList (bytes.flatMap byteCharacters)

/-- The bytes that pairs of hexadecimal characters stand for. -/
def bytesOfCharacters? : List Char → Option (List UInt8)
  | [] => some []
  | [_] => none
  | high :: low :: rest => do
    let high ← digitOfCharacter? high
    let low ← digitOfCharacter? low
    let bytes ← bytesOfCharacters? rest
    return UInt8.ofNat (ofDigits [high, low]) :: bytes

/-- The bytes that a text writes with two hexadecimal characters each. -/
def ofHexadecimal? (text : String) : Option (List UInt8) := bytesOfCharacters? text.toList

theorem bytesOfCharacters?_flatMap (bytes : List UInt8) :
    bytesOfCharacters? (bytes.flatMap byteCharacters) = some bytes := by
  induction bytes with
  | nil => rfl
  | cons byte rest ih =>
    have hbyte : UInt8.ofNat (ofDigits [Fin.ofNat 16 (byte.toNat / 16), Fin.ofNat 16 byte.toNat]) =
        byte := by
      have hlt := byte.toNat_lt
      apply UInt8.toNat_inj.mp
      simp only [ofDigits, List.foldl_cons, List.foldl_nil, Fin.ofNat, UInt8.toNat_ofNat']
      omega
    have hcharacters : byteCharacters byte =
        [digitCharacter (Fin.ofNat 16 (byte.toNat / 16)),
          digitCharacter (Fin.ofNat 16 byte.toNat)] :=
      rfl
    rw [List.flatMap_cons, hcharacters, List.cons_append, List.cons_append, List.nil_append,
      bytesOfCharacters?, digitOfCharacter?_digitCharacter, digitOfCharacter?_digitCharacter, ih]
    exact congrArg (fun first ↦ some (first :: rest)) hbyte

/-- Bytes are read back from their hexadecimal text. -/
theorem ofHexadecimal?_hexadecimal (bytes : List UInt8) :
    ofHexadecimal? (hexadecimal bytes) = some bytes := by
  simp [ofHexadecimal?, hexadecimal, bytesOfCharacters?_flatMap]

end RunLedger.Text
