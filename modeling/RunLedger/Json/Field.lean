import RunLedger.Json
import RunLedger.SortedMap
import RunLedger.Text

/-!
# What JSON values mean

Texts are spelled with escapes: `escape` writes them and `unescape?` reads them, and a text reads
back as written (`unescape?_escape`). Numbers are whole and below 2^64. Records are objects with
named fields; `fields?` finds them, in an object by name and in an array by position, and refuses a
field that is there twice.
-/

set_option autoImplicit false

namespace RunLedger.Json

/-! ### Texts -/

/-- The spelling of one character: quotation marks, backslashes and control characters are escaped,
with a letter where there is one, and all other characters stand for themselves. -/
def escapeCharacter (character : Char) : List Char :=
  if character = '"' then ['\\', '"']
  else if character = '\\' then ['\\', '\\']
  else if character = '\n' then ['\\', 'n']
  else if character = '\r' then ['\\', 'r']
  else if character = '\t' then ['\\', 't']
  else if character.toNat = 8 then ['\\', 'b']
  else if character.toNat = 12 then ['\\', 'f']
  else if character.toNat < 0x20 then
    ['\\', 'u', '0', '0'] ++ (Text.digitsOf 2 character.toNat).map Text.digitCharacter
  else [character]

/-- The spelling of a text. -/
def escape (characters : List Char) : List Char := characters.flatMap escapeCharacter

/-- The number that four hexadecimal digits write. -/
def codeUnit? (first second third fourth : Char) : Option Nat :=
  match [first, second, third, fourth].mapM Text.digitOfCharacter? with
  | some digits => some (Text.ofDigits digits)
  | none => none

/-- The characters that a spelling stands for. A code above the basic plane is written as two
escapes, a high and a low surrogate; a surrogate alone stands for nothing. -/
def unescape? : List Char → Option (List Char)
  | [] => some []
  | '\\' :: 'u' :: a :: b :: c :: d :: rest =>
    match codeUnit? a b c d with
    | none => none
    | some unit =>
      if unit < 0xD800 ∨ 0xDFFF < unit then (unescape? rest).map (Char.ofNat unit :: ·)
      else if 0xDC00 ≤ unit then none
      else
        match rest with
        | '\\' :: 'u' :: e :: f :: g :: h :: rest =>
          match codeUnit? e f g h with
          | none => none
          | some low =>
            if 0xDC00 ≤ low ∧ low ≤ 0xDFFF then
              let code := 0x10000 + (unit - 0xD800) * 0x400 + (low - 0xDC00)
              (unescape? rest).map (Char.ofNat code :: ·)
            else none
        | _ => none
  | '\\' :: '"' :: rest => (unescape? rest).map ('"' :: ·)
  | '\\' :: '\\' :: rest => (unescape? rest).map ('\\' :: ·)
  | '\\' :: '/' :: rest => (unescape? rest).map ('/' :: ·)
  | '\\' :: 'b' :: rest => (unescape? rest).map (Char.ofNat 8 :: ·)
  | '\\' :: 'f' :: rest => (unescape? rest).map (Char.ofNat 12 :: ·)
  | '\\' :: 'n' :: rest => (unescape? rest).map ('\n' :: ·)
  | '\\' :: 'r' :: rest => (unescape? rest).map ('\r' :: ·)
  | '\\' :: 't' :: rest => (unescape? rest).map ('\t' :: ·)
  | '\\' :: _ => none
  | character :: rest => (unescape? rest).map (character :: ·)

/-- Two zeros and the digits of a byte write that byte. -/
theorem codeUnit?_digits (number : Nat) (hnumber : number < 256) :
    codeUnit? '0' '0' (Text.digitCharacter (Fin.ofNat 16 (number / 16)))
      (Text.digitCharacter (Fin.ofNat 16 number)) = some number := by
  have hzero : Text.digitOfCharacter? '0' = some 0 := by decide
  simp only [codeUnit?, List.mapM_cons, List.mapM_nil, hzero,
    Text.digitOfCharacter?_digitCharacter, Option.pure_def, Option.bind_eq_bind,
    Option.bind_some]
  simp only [Text.ofDigits, List.foldl_cons, List.foldl_nil, Fin.ofNat, Option.some.injEq]
  rw [show ((0 : Fin 16) : Nat) = 0 from rfl]
  omega

/-- The spelling of a character is read back as that character, whatever follows. -/
theorem unescape?_escapeCharacter (character : Char) (rest : List Char) :
    unescape? (escapeCharacter character ++ rest) = (unescape? rest).map (character :: ·) := by
  unfold escapeCharacter
  split
  · subst_vars; simp [unescape?]
  split
  · subst_vars; simp [unescape?]
  split
  · subst_vars; simp [unescape?]
  split
  · subst_vars; simp [unescape?]
  split
  · subst_vars; simp [unescape?]
  split
  · rename_i hcode
    rw [← Char.ofNat_toNat character, hcode]; simp [unescape?]
  split
  · rename_i hcode
    rw [← Char.ofNat_toNat character, hcode]; simp [unescape?]
  split
  · rename_i hcode
    have hunit := codeUnit?_digits character.toNat (by omega)
    simp only [Text.digitsOf, List.nil_append, List.cons_append, List.map_cons, List.map_nil]
    rw [unescape?, hunit]
    simp only
    rw [if_pos (by omega), Char.ofNat_toNat]
  · rename_i hquote hslash _ _ _ _ _ _
    rw [List.cons_append, List.nil_append, unescape?]
    all_goals simp_all

/-- A text is read back as written. -/
theorem unescape?_escape (characters : List Char) :
    unescape? (escape characters) = some characters := by
  induction characters with
  | nil => rfl
  | cons character rest ih =>
    rw [escape, List.flatMap_cons, unescape?_escapeCharacter, ← escape, ih]
    rfl

/-- The text that a spelling stands for, if there is one. -/
def meaning? (spelling? : Option (List Char)) : Option String :=
  (spelling? >>= unescape?).map String.ofList

/-! ### Values -/

/-- A text as a JSON value. -/
def ofString (value : String) : Json := text (some (escape value.toList))

/-- The text of a JSON value. -/
def toString? : Json → Option String
  | text spelling? => meaning? spelling?
  | _ => none

/-- A number as a JSON value. -/
def ofUInt64 (value : UInt64) : Json := number (Nat.toDigits 10 value.toNat)

/-- The value of decimal digits. -/
def ofDecimal (digits : List Char) : Nat :=
  digits.foldl (fun number digit ↦ number * 10 + (digit.toNat - 48)) 0

/-- The number of a JSON value that is spelled with digits alone and below 2^64. -/
def toUInt64? : Json → Option UInt64
  | number spelling =>
    if spelling.all Char.isDigit ∧ ofDecimal spelling < UInt64.size then
      some (UInt64.ofNat (ofDecimal spelling))
    else none
  | _ => none

/-- One of several names, written alone or as the only member of an object with the value null. -/
def toName? : Json → Option String
  | text spelling? => meaning? spelling?
  | object [(spelling?, null)] => meaning? spelling?
  | _ => none

/-- A list as a JSON array. -/
def ofList {α : Type} (ofItem : α → Json) (items : List α) : Json := array (items.map ofItem)

/-- The list of a JSON array. -/
def toList? {α : Type} (item? : Json → Option α) : Json → Option (List α)
  | array items => items.mapM item?
  | _ => none

/-- A map as a JSON object with the names in ascending order. -/
def ofMap {α : Type} (ofValue : α → Json) (map : SortedMap String α) : Json :=
  object (map.toList.map fun entry ↦ (some (escape entry.1.toList), ofValue entry.2))

/-- The map of a JSON object; of two members with one name the later counts. -/
def toMap? {α : Type} (value? : Json → Option α) : Json → Option (SortedMap String α)
  | object members =>
    (members.mapM fun (spelling?, json) ↦ do
      return (← meaning? spelling?, ← value? json)).map SortedMap.ofList
  | _ => none

/-- A value that may be missing, which is written as null. -/
def ofOption {α : Type} (ofValue : α → Json) : Option α → Json
  | none => null
  | some value => ofValue value

/-- A value that may be missing. -/
def toOption? {α : Type} (value? : Json → Option α) : Json → Option (Option α)
  | null => some none
  | json => (value? json).map some

/-! ### Records -/

/-- A record as an object with the given fields. -/
def ofFields (fields : List (String × Json)) : Json :=
  object (fields.map fun field ↦ (some (escape field.1.toList), field.2))

/-- The values of the members with a given name. -/
def valuesNamed (name : String) (members : List (String × Json)) : List Json :=
  (members.filter fun member ↦ member.1 = name).map Prod.snd

/-- The values of the named fields, in order, each of which may be missing. In an object members of
other names are passed over, and a name that is there twice is refused; in an array the fields stand
in order, and a surplus is refused. -/
def fields? (names : List String) : Json → Option (List (Option Json))
  | object members => do
    let members ← members.mapM fun member ↦ (meaning? member.1).map (·, member.2)
    names.mapM fun name ↦
      match valuesNamed name members with
      | [] => some none
      | [json] => some (some json)
      | _ => none
  | array items =>
    if items.length ≤ names.length then
      some (items.map some ++ List.replicate (names.length - items.length) none)
    else none
  | _ => none

/-- A field that must be there. -/
def required? {α : Type} (value? : Json → Option α) (field : Option Json) : Option α :=
  field >>= value?

/-- A field with a value for its absence. -/
def withDefault? {α : Type} (value? : Json → Option α) (default : α) : Option Json → Option α
  | none => some default
  | some json => value? json

end RunLedger.Json
