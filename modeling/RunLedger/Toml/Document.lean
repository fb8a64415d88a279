import RunLedger.Toml.Scalar

/-!
# Reading TOML documents

A document is a list of statements, each on a line of its own: an assignment to a key, a header of a
table or a header of an item of an array of tables. `Toml.parse?` reads the statements and builds
the document. Arrays and braces nest fewer than eighty deep, and keys have fewer than eighty parts.
-/

set_option autoImplicit false

namespace RunLedger.Toml

namespace Reader

/-! ### Keys -/

/-- Takes one part of a key: a text on one line, or letters, digits, underscores and hyphens. -/
def keyPart : Reader String := do
  match ← next? with
  | some '"' => shortText '"'
  | some '\'' => shortText '\''
  | _ =>
    let name ← span fun character ↦ character.isAlphanum || character = '_' || character = '-'
    guard (name ≠ [])
    return String.ofList name

/-- Takes parts with points between them, at most as many as given, and the blanks around each. -/
def keyParts : (most : Nat) → Reader (List String)
  | 0 => failure
  | most + 1 => do
    blanks
    let part ← keyPart
    blanks
    match ← optionally (exactly ['.']) with
    | none => return [part]
    | some () => return part :: (← keyParts most)

/-- The deepest nesting, and the greatest number of parts of a key. -/
def depth : Nat := 79

/-- Takes a key. -/
def key : Reader (List String) := keyParts depth

/-- Takes a key, an equals sign and a value. -/
def assignment (value : Reader Toml) : Reader (List String × Toml) := do
  let key ← key
  exactly ['=']
  blanks
  return (key, ← value)

/-! ### Arrays and braces -/

/-- Takes items with commas between them up to the end of an array. A comma may follow the last
item. -/
def items (value : Reader Toml) : (most : Nat) → Reader (List Toml)
  | 0 => failure
  | most + 1 => do
    lines
    match ← optionally (exactly [']']) with
    | some () => return []
    | none =>
      let item ← value
      lines
      match ← optionally (exactly [',']) with
      | some () => return item :: (← items value most)
      | none =>
        exactly [']']
        return [item]

/-- Takes an array. Each of its items takes at least one character. -/
def array (value : Reader Toml) : Reader Toml := do
  exactly ['[']
  return .array (← items value ((← get).length + 1))

/-- Takes assignments with commas between them up to the closing brace. -/
def members (value : Reader Toml) : (most : Nat) → Reader (List (List String × Toml))
  | 0 => failure
  | most + 1 => do
    let member ← assignment value
    blanks
    match ← optionally (exactly [',']) with
    | some () => return member :: (← members value most)
    | none =>
      exactly ['\x7d']
      return [member]

/-- Takes a table between braces. Each of its assignments takes at least one character. -/
def braces (value : Reader Toml) : Reader Toml := do
  exactly ['\x7b']
  blanks
  match ← optionally (exactly ['\x7d']) with
  | some () => return .table .complete []
  | none =>
    let assigned ← members value ((← get).length + 1)
    match assigned.foldlM (fun members (key, value) ↦ assign key value members) [] with
    | none => failure
    | some members => return .table .complete members

/-- Takes a value that nests at most so deep. -/
def valueWithin : (depth : Nat) → Reader Toml
  | 0 => scalar
  | depth + 1 => array (valueWithin depth) <|> braces (valueWithin depth) <|> scalar

/-- Takes a value. -/
def value : Reader Toml := valueWithin depth

/-! ### Statements -/

/-- Takes a key between marks that open and close a header. -/
def header (opening closing : List Char) : Reader (List String) := do
  exactly opening
  let path ← key
  exactly closing
  return path

/-- Takes a statement. A header that begins with two brackets is one of an item. -/
def statement : Reader Statement := do
  match (← get).take 2 with
  | ['[', '['] => .itemHeader <$> header ['[', '['] [']', ']']
  | '[' :: _ => .tableHeader <$> header ['['] [']']
  | _ =>
    let (key, value) ← assignment value
    return .assignment key value

/-- Takes the statements of a document, which has at most so many lines. -/
def statements : (lines : Nat) → Reader (List Statement)
  | 0 => failure
  | lines + 1 => do
    blanks
    match ← next? with
    | none => return []
    | some '\n' | some '#' =>
      lineEnd
      statements lines
    | some _ =>
      let first ← statement
      lineEnd
      return first :: (← statements lines)

end Reader

/-- The document that a text writes. -/
def parse? (document : String) : Option Toml := do
  let characters ← characters? document
  let (statements, _) ← (Reader.statements (characters.length + 1)).run characters
  build? statements

end RunLedger.Toml
