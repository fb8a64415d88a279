import RunLedger.Toml
import RunLedger.Toml.Reader

/-!
# Texts, numbers and dates in TOML

Texts stand between single or double quotation marks, or between three of a kind if they run over
lines; only double ones know escapes. Numbers may have single underscores between digits; whole
numbers are in 64 bits and may be written in base 2, 8 or 16. A date must exist in the calendar.
-/

set_option autoImplicit false

namespace RunLedger.Toml

/-! ### Texts -/

/-- Where the reading of a text stands. -/
inductive TextState where
  /-- Between characters; behind an escaped line end, blanks and line ends are passed over. -/
  | between (isMargin : Bool)
  /-- Behind a backslash. -/
  | escape
  /-- In a code point, of which so many digits are missing. -/
  | code (missing value : Nat)
  /-- In the blanks between a backslash and the end of its line. -/
  | escapedEnd

/-- The character that a letter behind a backslash stands for. -/
def letterEscape? (letter : Char) : Option Char :=
  match letter with
  | '"' => some '"'
  | '\\' => some '\\'
  | 'b' => some (Char.ofNat 8)
  | 't' => some '\t'
  | 'n' => some '\n'
  | 'f' => some (Char.ofNat 12)
  | 'r' => some '\r'
  | _ => none

/-- The character of a code point; surrogates have none. -/
def ofCode? (code : Nat) : Option Char :=
  if code < 0xD800 ∨ 0xDFFF < code ∧ code < 0x110000 then some (Char.ofNat code) else none

/-- Three marks end a text that runs over lines. Up to two more marks in front of them belong to the
text, so that of a row of marks the last three count. -/
def closing? (mark : Char) (behindFirst : List Char) : Option (List Char × List Char) :=
  let marks := (behindFirst.takeWhile (· = mark)).length
  if 2 ≤ marks then
    some (List.replicate (min marks 4 - 2) mark, behindFirst.drop (min marks 4))
  else none

/-- The characters of a text up to its end, and what is left behind it. -/
def textBody (mark : Char) (isLong : Bool) : TextState → List Char → Option (List Char × List Char)
  | _, [] => none
  | .between isMargin, character :: rest =>
    let isBlank := character = ' ' || character = '\t' || character = '\n'
    if isMargin && isBlank then textBody mark isLong (.between true) rest
    else if character = mark then
      if isLong then
        match closing? mark rest with
        | some (marks, behind) => some (marks, behind)
        | none => do
          let (characters, behind) ← textBody mark isLong (.between false) rest
          return (character :: characters, behind)
      else some ([], rest)
    else if character = '\\' ∧ mark = '"' then textBody mark isLong .escape rest
    else if character = '\n' ∧ !isLong then none
    else do
      let (characters, behind) ← textBody mark isLong (.between false) rest
      return (character :: characters, behind)
  | .escape, character :: rest =>
    match letterEscape? character with
    | some meaning => do
      let (characters, behind) ← textBody mark isLong (.between false) rest
      return (meaning :: characters, behind)
    | none =>
      if character = 'u' then textBody mark isLong (.code 4 0) rest
      else if character = 'U' then textBody mark isLong (.code 8 0) rest
      else if !isLong then none
      else if character = '\n' then textBody mark isLong (.between true) rest
      else if character = ' ' ∨ character = '\t' then textBody mark isLong .escapedEnd rest
      else none
  | .code missing value, character :: rest =>
    match Text.digitOfCharacter? character with
    | none => none
    | some digit =>
      let value := value * 16 + digit.val
      if 1 < missing then textBody mark isLong (.code (missing - 1) value) rest
      else do
        let meaning ← ofCode? value
        let (characters, behind) ← textBody mark isLong (.between false) rest
        return (meaning :: characters, behind)
  | .escapedEnd, character :: rest =>
    if character = '\n' then textBody mark isLong (.between true) rest
    else if character = ' ' ∨ character = '\t' then textBody mark isLong .escapedEnd rest
    else none

namespace Reader

/-- Takes the rest of a text behind its opening marks. -/
def textRest (mark : Char) (isLong : Bool) : Reader String := do
  match textBody mark isLong (.between false) (← get) with
  | none => failure
  | some (characters, rest) =>
    set rest
    return String.ofList characters

/-- Takes a text on one line. -/
def shortText (mark : Char) : Reader String := do
  exactly [mark]
  textRest mark false

/-- Takes a text that may run over lines. A line end right behind the opening marks is no part of
it. -/
def longText (mark : Char) : Reader String := do
  exactly [mark, mark, mark]
  let _ ← optionally (exactly ['\n'])
  textRest mark true

/-- Takes a text. -/
def text : Reader Toml :=
  .text <$> (longText '"' <|> shortText '"' <|> longText '\'' <|> shortText '\'')

/-! ### Numbers -/

/-- Digits with single underscores between them, without these. -/
def separated? (isDigit : Char → Bool) : List Char → Option (List Char)
  | [] => none
  | [digit] => if isDigit digit then some [digit] else none
  | digit :: '_' :: rest =>
    if isDigit digit then (separated? isDigit rest).map (digit :: ·) else none
  | digit :: rest => if isDigit digit then (separated? isDigit rest).map (digit :: ·) else none

/-- Takes digits with single underscores between them. -/
def digits (isDigit : Char → Bool) : Reader (List Char) := do
  let spelling ← span fun character ↦ isDigit character || character = '_'
  match separated? isDigit spelling with
  | none => failure
  | some digits => return digits

/-- The number of some digits in a base. -/
def ofBase (base : Nat) (digits : List Char) : Nat :=
  digits.foldl (fun number digit ↦
    number * base + ((Text.digitOfCharacter? digit).map Fin.val).getD 0) 0

/-- Takes a whole number behind a zero and the letter of its base. -/
def basedInteger (letter : Char) (base : Nat) : Reader Toml := do
  exactly ['0', letter]
  let digits ← digits fun character ↦ (Text.digitOfCharacter? character).any (·.val < base)
  guard (ofBase base digits < Nat.pow 2 63)
  return .integer (ofBase base digits)

/-- Takes a sign and tells whether it is a minus. -/
def sign : Reader Bool := do
  match ← optionally (one fun character ↦ character = '+' || character = '-') with
  | some '-' => return true
  | _ => return false

/-- Whether a decimal, which is the number of some digits times a power of ten, is so large that the
nearest double is infinite. Doubles end half a unit below 2^1024; the powers of ten 300 and 400 lie
on either side. -/
def isBeyondDoubles (digits : List Char) (exponent : Int) : Bool :=
  let mantissa := ofBase 10 digits
  let size := (Nat.toDigits 10 mantissa).length + exponent
  let bound := Nat.pow 2 1024 - Nat.pow 2 970
  if mantissa = 0 ∨ size < 300 then false
  else if 400 < size then true
  else if 0 ≤ exponent then bound ≤ mantissa * Nat.pow 10 exponent.toNat
  else bound * Nat.pow 10 (-exponent).toNat ≤ mantissa

/-- Takes a number in base ten: a whole one in 64 bits, or one with a fraction or an exponent, which
must not be above all doubles. No superfluous zero may stand in front. -/
def decimal : Reader Toml := do
  let isNegative ← sign
  let whole ← digits Char.isDigit
  guard (whole.length = 1 ∨ whole.head? ≠ some '0')
  let fraction? ← optionally do
    exactly ['.']
    digits Char.isDigit
  let exponent? ← optionally do
    let _ ← one fun character ↦ character = 'e' || character = 'E'
    let isNegative ← sign
    let size := ofBase 10 (← digits Char.isDigit)
    return if isNegative then -(size : Int) else size
  match fraction?, exponent? with
  | none, none =>
    let size := ofBase 10 whole
    guard (size < Nat.pow 2 63 ∨ isNegative ∧ size = Nat.pow 2 63)
    return .integer (if isNegative then -(size : Int) else size)
  | fraction?, exponent? =>
    let fraction := fraction?.getD []
    guard (isNegative ∨ !isBeyondDoubles (whole ++ fraction)
      (exponent?.getD 0 - (fraction.length : Int)))
    return .fractional

/-- Takes an infinity or what is no number. -/
def specialNumber : Reader Toml := do
  let _ ← sign
  exactly "inf".toList <|> exactly "nan".toList
  return .fractional

/-- Takes a number. -/
def number : Reader Toml :=
  basedInteger 'x' 16 <|> basedInteger 'o' 8 <|> basedInteger 'b' 2 <|> decimal <|> specialNumber

/-! ### Dates and times -/

/-- Takes a number of so many digits within bounds. -/
def counted (length least most : Nat) : Reader Nat := do
  let characters := (← get).take length
  guard (characters.length = length ∧ characters.all Char.isDigit)
  let value := ofBase 10 characters
  guard (least ≤ value ∧ value ≤ most)
  modify (·.drop length)
  return value

/-- The number of days of a month. -/
def daysOfMonth (year month : Nat) : Nat :=
  let isLeap := year % 4 = 0 ∧ (year % 100 ≠ 0 ∨ year % 400 = 0)
  if month = 2 then if isLeap then 29 else 28
  else if month ∈ [4, 6, 9, 11] then 30
  else 31

/-- Takes a date. -/
def date : Reader Unit := do
  let year ← counted 4 0 9999
  exactly ['-']
  let month ← counted 2 1 12
  exactly ['-']
  let _ ← counted 2 1 (daysOfMonth year month)

/-- Takes a time of day; a minute may have a sixty-first second. -/
def time : Reader Unit := do
  let _ ← counted 2 0 23
  exactly [':']
  let _ ← counted 2 0 59
  exactly [':']
  let _ ← counted 2 0 60
  let _ ← optionally do
    exactly ['.']
    let fraction ← span Char.isDigit
    guard (fraction ≠ [])

/-- Takes the distance of a local time from universal time. -/
def offset : Reader Unit := do
  match ← one fun character ↦ character ∈ ['Z', 'z', '+', '-'] with
  | '+' | '-' =>
    let _ ← counted 2 0 23
    exactly [':']
    let _ ← counted 2 0 59
  | _ => return

/-- Takes a date, a time of day, or both with a `T` or a space between and perhaps an offset. -/
def moment : Reader Toml := do
  let dated : Reader Unit := do
    date
    let _ ← optionally do
      let _ ← one fun character ↦ character ∈ ['T', 't', ' ']
      time
      let _ ← optionally offset
  dated <|> time
  return .moment

/-! ### All of them -/

/-- Takes a truth value. -/
def boolean : Reader Toml :=
  (do exactly "true".toList; return .boolean true) <|>
    (do exactly "false".toList; return .boolean false)

/-- Takes a value that is no array and no table. -/
def scalar : Reader Toml := text <|> moment <|> number <|> boolean

end Reader

end RunLedger.Toml
