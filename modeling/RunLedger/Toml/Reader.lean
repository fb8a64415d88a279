import RunLedger.Text

/-!
# Readers of characters

A `Reader` takes characters from the front of a list and leaves the rest, or fails. `characters?`
makes the characters of a document ready for reading: one line feed ends each line, and no other
control characters but tabs remain.
-/

set_option autoImplicit false

namespace RunLedger.Toml

/-- A reader of characters: it takes some from the front and leaves the rest. -/
abbrev Reader := StateT (List Char) Option

namespace Reader

variable {α : Type}

/-- The next character, which is left; none at the end. -/
def next? : Reader (Option Char) := return (← get).head?

/-- Takes a character that passes a test. -/
def one (test : Char → Bool) : Reader Char := do
  match ← get with
  | [] => failure
  | character :: rest =>
    guard (test character)
    set rest
    return character

/-- Takes given characters. -/
def exactly (characters : List Char) : Reader Unit := do
  let input ← get
  guard (characters.isPrefixOf input)
  set (input.drop characters.length)

/-- Takes all characters up to the first that fails a test. -/
def span (test : Char → Bool) : Reader (List Char) := do
  let input ← get
  set (input.dropWhile test)
  return input.takeWhile test

/-- What a reader reads, or nothing if it fails. -/
def optionally (reader : Reader α) : Reader (Option α) := (some <$> reader) <|> pure none

/-- Takes spaces and tabs. -/
def blanks : Reader Unit := do
  let _ ← span fun character ↦ character = ' ' || character = '\t'

/-- Takes a comment up to the end of its line. -/
def comment : Reader Unit := do
  exactly ['#']
  let _ ← span (· ≠ '\n')

/-- Takes the rest of a line that holds no more than blanks and a comment. -/
def lineEnd : Reader Unit := do
  blanks
  let _ ← optionally comment
  match ← next? with
  | none => return
  | some _ => exactly ['\n']

/-- What is left behind blanks, line ends and comments. -/
def behindLines : (isComment : Bool) → List Char → List Char
  | _, [] => []
  | isComment, character :: rest =>
    if character = '\n' then behindLines false rest
    else if isComment || character = ' ' || character = '\t' then behindLines isComment rest
    else if character = '#' then behindLines true rest
    else character :: rest

/-- Takes blanks, line ends and comments. -/
def lines : Reader Unit := modify (behindLines false)

end Reader

/-- Characters with a line feed for each line end, which may be a line feed or a carriage return and
a line feed; none if there are other control characters than tabs. -/
def unifyLines? : List Char → Option (List Char)
  | [] => some []
  | '\r' :: '\n' :: rest => (unifyLines? rest).map ('\n' :: ·)
  | character :: rest =>
    if character = '\t' ∨ character = '\n' ∨ 0x20 ≤ character.toNat ∧ character.toNat ≠ 0x7f then
      (unifyLines? rest).map (character :: ·)
    else none

/-- The characters of a document without the byte-order mark that may stand in front. -/
def characters? (document : String) : Option (List Char) :=
  match document.toList with
  | '\uFEFF' :: rest => unifyLines? rest
  | all => unifyLines? all

end RunLedger.Toml
