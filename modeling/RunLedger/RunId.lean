import RunLedger.Text

/-!
# Run identifiers

A run id is a 128-bit identifier, held as its 32 hexadecimal digits. Its text writes the digits in
five groups joined by hyphens (`RunId.text`); `RunId.parse?` also reads the digits without hyphens,
the hyphenated form in braces and the `urn:uuid:` form, and letters in either case. What it reads it
writes back in the one form of `RunId.text` (`RunId.parse?_text`).

The digit after the second hyphen is the version. Identifiers of versions 1, 6 and 7 carry the time
of their making, and `RunId.seconds` is that time in seconds since 1970; all others report zero.
Run ids are ordered by that second and then by their text.
-/

set_option autoImplicit false

namespace RunLedger

open Std (TransOrd TransCmp)

/-- A 128-bit identifier of one run, as its hexadecimal digits from the first to the last. -/
structure RunId where
  digits : List (Fin 16)
  length_digits : digits.length = 32
deriving DecidableEq

namespace RunId

/-! ### Text -/

/-- Groups of 8, 4, 4, 4 and 12 characters joined by hyphens. -/
def hyphenate (characters : List Char) : List Char :=
  characters.take 8 ++ '-' :: ((characters.drop 8).take 4 ++ '-' ::
    ((characters.drop 12).take 4 ++ '-' :: ((characters.drop 16).take 4 ++ '-' ::
      characters.drop 20)))

/-- The characters without the four hyphens that close the first four groups; none if a hyphen is
missing there. -/
def unhyphenate? (characters : List Char) : Option (List Char) :=
  if characters[8]? = some '-' ∧ characters[13]? = some '-' ∧ characters[18]? = some '-' ∧
      characters[23]? = some '-' then
    some (characters.take 8 ++ ((characters.drop 9).take 4 ++ ((characters.drop 14).take 4 ++
      ((characters.drop 19).take 4 ++ characters.drop 24))))
  else none

/-- The lower-case hyphenated form. -/
def text (id : RunId) : String :=
  String.ofList (hyphenate (id.digits.map Text.digitCharacter))

instance : ToString RunId := ⟨text⟩

/-- The identifier with the given 32 digit characters. -/
def ofCharacters? (characters : List Char) : Option RunId :=
  match characters.mapM Text.digitOfCharacter? with
  | none => none
  | some digits => if hlength : digits.length = 32 then some ⟨digits, hlength⟩ else none

/-- The start of the resource-name form, in lower case. -/
def resourceName : List Char := "urn:uuid:".toList

/-- Reads 32 digits, the hyphenated form, that form in braces, or that form after `urn:uuid:`. -/
def parseCharacters? (characters : List Char) : Option RunId :=
  if characters.length = 32 then ofCharacters? characters
  else if characters.length = 36 then unhyphenate? characters >>= ofCharacters?
  else if characters.length = 38 ∧ characters.head? = some '\x7b' ∧
      characters.getLast? = some '\x7d' then
    unhyphenate? (characters.drop 1).dropLast >>= ofCharacters?
  else if characters.length = 45 ∧ (characters.take 9).map Char.toLower = resourceName then
    unhyphenate? (characters.drop 9) >>= ofCharacters?
  else none

/-- The identifier that a text writes, in any of the accepted forms. -/
def parse? (text : String) : Option RunId := parseCharacters? text.toList

/-! ### Time -/

/-- The digit that tells how the identifier was made. -/
def version (id : RunId) : Nat := Text.ofDigits ((id.digits.drop 12).take 1)

/-- Ticks of a tenth of a microsecond between 15 October 1582 and 1 January 1970. -/
def gregorianOffset : Nat := 0x01B21DD213814000

/-- Seconds since 1970 of a count of ticks since 1582, in 64-bit arithmetic. -/
def secondsOfTicks (ticks : Nat) : Nat :=
  (ticks + UInt64.size - gregorianOffset) % UInt64.size / 10000000

/-- The second in which the identifier was made, zero for identifiers without a time. Version 7
starts with the milliseconds since 1970; version 1 holds 60 bits of ticks since 1582 with the low
bits first, version 6 the same bits with the high ones first. -/
def seconds (id : RunId) : UInt64 :=
  let field (first count : Nat) := (id.digits.drop first).take count
  UInt64.ofNat <|
    match id.version with
    | 7 => Text.ofDigits (field 0 12) / 1000
    | 1 => secondsOfTicks (Text.ofDigits (field 13 3 ++ field 8 4 ++ field 0 8))
    | 6 => secondsOfTicks (Text.ofDigits (field 0 8 ++ field 8 4 ++ field 13 3))
    | _ => 0

/-- An identifier of version 7 stamped with a second; `filler` supplies its free digits. The stamp
keeps the low 48 bits of the milliseconds, which are capped at 64 bits. -/
def stamped (seconds : UInt64) (filler : Nat) : RunId where
  digits := Text.digitsOf 12 (min (seconds.toNat * 1000) (UInt64.size - 1)) ++
    ⟨7, by decide⟩ :: (Text.digitsOf 3 filler ++
      ⟨8, by decide⟩ :: Text.digitsOf 15 (filler / 4096))
  length_digits := by
    rw [List.length_append, List.length_cons, List.length_append, List.length_cons,
      Text.length_digitsOf, Text.length_digitsOf, Text.length_digitsOf]

/-! ### Order -/

/-- By second of making, then by text. -/
instance : Ord RunId :=
  ⟨compareLex (compareOn RunId.seconds) (compareOn RunId.text)⟩

instance : TransOrd RunId :=
  inferInstanceAs (TransCmp (compareLex (compareOn RunId.seconds) (compareOn RunId.text)))

/-! ### Reading back -/

theorem unhyphenate?_hyphenate {characters : List Char} (hlength : characters.length = 32) :
    unhyphenate? (hyphenate characters) = some characters := by
  have hsplit : characters = characters.take 8 ++ ((characters.drop 8).take 4 ++
      ((characters.drop 12).take 4 ++ ((characters.drop 16).take 4 ++ characters.drop 20))) := by
    have h₁ := (List.take_append_drop 8 characters).symm
    have h₂ := (List.take_append_drop 4 (characters.drop 8)).symm
    have h₃ := (List.take_append_drop 4 (characters.drop 12)).symm
    have h₄ := (List.take_append_drop 4 (characters.drop 16)).symm
    simp only [List.drop_drop] at h₂ h₃ h₄
    rw [← h₄, ← h₃, ← h₂, ← h₁]
  have e₁ : (characters.take 8).length = 8 := by simp [hlength]
  have e₂ : ((characters.drop 8).take 4).length = 4 := by simp [hlength]
  have e₃ : ((characters.drop 12).take 4).length = 4 := by simp [hlength]
  have e₄ : ((characters.drop 16).take 4).length = 4 := by simp [hlength]
  unfold hyphenate unhyphenate?
  generalize characters.take 8 = a at *
  generalize (characters.drop 8).take 4 = b at *
  generalize (characters.drop 12).take 4 = c at *
  generalize (characters.drop 16).take 4 = d at *
  generalize characters.drop 20 = e at *
  rw [hsplit]
  have hpast {part : List Char} {length past : Nat} (hlength : part.length = length)
      (hpast : length ≤ past) : part.drop past = [] :=
    List.drop_eq_nil_of_le (hlength ▸ hpast)
  simp [List.getElem?_append, List.drop_append, e₁, e₂, e₃, e₄, hpast e₁,
    hpast e₂, hpast e₃, hpast e₄]

theorem ofCharacters?_digits (id : RunId) :
    ofCharacters? (id.digits.map Text.digitCharacter) = some id := by
  have hdigits : (id.digits.map Text.digitCharacter).mapM Text.digitOfCharacter? =
      some id.digits := by
    rw [List.mapM_map]
    generalize id.digits = digits
    induction digits with
    | nil => rfl
    | cons digit rest ih =>
      rw [List.mapM_cons, ih]
      simp [Text.digitOfCharacter?_digitCharacter]
  unfold ofCharacters?
  rw [hdigits]
  simp [id.length_digits]

/-- The text of an identifier reads back as that identifier. -/
theorem parse?_text (id : RunId) : parse? id.text = some id := by
  have hlength : (id.digits.map Text.digitCharacter).length = 32 := by simp [id.length_digits]
  have hhyphenated : (hyphenate (id.digits.map Text.digitCharacter)).length = 36 := by
    simp [hyphenate, id.length_digits]
  simp only [parse?, text, String.toList_ofList, parseCharacters?, hhyphenated]
  simp [unhyphenate?_hyphenate hlength, ofCharacters?_digits]

end RunId

end RunLedger
