import RunLedger.Text

/-!
# JSON texts

A `Json` is the tree of a JSON text whose numbers and texts are kept as they are spelled: what a
spelling means is asked only where a field is read, so a value that nobody reads may be a number
beyond every bound, a text that no characters can make up, or bytes that are not UTF-8.

A tree is written as characters, token by token (`Json.tokens`, `Json.render`). It is read from
bytes in two steps: `lex` divides the bytes into tokens, one byte at a time, and `Json.ofTokens?`
builds the tree while it keeps the containers still open on a stack, innermost first. Both steps
follow the input, so nesting of any depth is read. The bytes that part tokens are ASCII, and no
ASCII byte is part of another character, so the end of a text is found without its characters.
-/

set_option autoImplicit false

namespace RunLedger

/-- The tree of a JSON text with the spellings of its numbers and texts. A text or the name of a
member has no spelling if its bytes are not UTF-8. -/
inductive Json where
  | null
  | bool (value : Bool)
  | number (spelling : List Char)
  | text (spelling? : Option (List Char))
  | array (items : List Json)
  | object (members : List (Option (List Char) × Json))
deriving Inhabited

namespace Json

/-! ### Tokens -/

/-- A piece of a JSON text. -/
inductive Token where
  | openObject
  | closeObject
  | openArray
  | closeArray
  | colon
  | comma
  /-- A literal name or a number. -/
  | word (spelling : List Char)
  /-- What stands between two quotation marks, if it is characters. -/
  | text (spelling? : Option (List Char))
deriving DecidableEq, Inhabited

/-- The token that a single character makes. -/
def punctuation? (character : Char) : Option Token :=
  match character with
  | '\x7b' => some .openObject
  | '\x7d' => some .closeObject
  | '[' => some .openArray
  | ']' => some .closeArray
  | ':' => some .colon
  | ',' => some .comma
  | _ => none

/-- The characters of a token; a text without a spelling is written as the empty one. -/
def Token.characters : Token → List Char
  | openObject => ['\x7b']
  | closeObject => ['\x7d']
  | openArray => ['[']
  | closeArray => [']']
  | colon => [':']
  | comma => [',']
  | word spelling => spelling
  | text spelling? => '"' :: spelling?.getD [] ++ ['"']

/-- Space, tab, line feed and carriage return may stand between tokens. -/
def isBlank (character : Char) : Bool :=
  character = ' ' || character = '\t' || character = '\n' || character = '\r'

/-- Whether a character is a hexadecimal digit. -/
def isHexDigit (character : Char) : Bool :=
  character.isDigit || 'a' ≤ character && character ≤ 'f' || 'A' ≤ character && character ≤ 'F'

/-- Where the reading of bytes stands; what was read of a token has its last part first. -/
inductive LexState where
  /-- Between two tokens. -/
  | between
  /-- In a literal name or a number. -/
  | word (spelling : List Char)
  /-- Between quotation marks. -/
  | text (bytes : List UInt8)
  /-- Behind a backslash. -/
  | escape (bytes : List UInt8)
  /-- In the four hexadecimal digits of an escape, with so many missing. -/
  | digits (missing : Nat) (bytes : List UInt8)

/-- What a character does between two tokens: a token it makes, and the state behind it. -/
def lexBetween (character : Char) : List Token × LexState :=
  if isBlank character then ([], .between)
  else if character = '"' then ([], .text [])
  else
    match punctuation? character with
    | some token => ([token], .between)
    | none => ([], .word [character])

/-- Whether a character ends a literal name or a number. -/
def endsWord (character : Char) : Bool :=
  isBlank character || character = '"' || (punctuation? character).isSome

/-- What one byte does in a state: the tokens it ends or makes, and the state behind it. A control
character in a text, an unknown escape and a missing hexadecimal digit are refused. A byte beyond
ASCII belongs to a text; elsewhere it makes a word that stands for nothing. -/
def lexStep (state : LexState) (byte : UInt8) : Option (List Token × LexState) :=
  let character := Char.ofUInt8 byte
  match state with
  | .between => some (lexBetween character)
  | .word spelling =>
    if endsWord character then
      let (tokens, next) := lexBetween character
      some (.word spelling.reverse :: tokens, next)
    else some ([], .word (character :: spelling))
  | .text bytes =>
    if character = '"' then
      some ([.text ((Text.ofUtf8? bytes.reverse).map String.toList)], .between)
    else if character = '\\' then some ([], .escape (byte :: bytes))
    else if byte < 0x20 then none
    else some ([], .text (byte :: bytes))
  | .escape bytes =>
    if character = 'u' then some ([], .digits 4 (byte :: bytes))
    else if character ∈ ['"', '\\', '/', 'b', 'f', 'n', 'r', 't'] then
      some ([], .text (byte :: bytes))
    else none
  | .digits missing bytes =>
    if isHexDigit character then
      if missing ≤ 1 then some ([], .text (byte :: bytes))
      else some ([], .digits (missing - 1) (byte :: bytes))
    else none

/-- The tokens of the bytes that follow a state; none if they are cut or malformed. -/
def lexFrom (state : LexState) : List UInt8 → Option (List Token)
  | [] =>
    match state with
    | .between => some []
    | .word spelling => some [.word spelling.reverse]
    | _ => none
  | byte :: rest =>
    match lexStep state byte with
    | none => none
    | some (tokens, next) => (lexFrom next rest).map (tokens ++ ·)

/-- The tokens of a text in UTF-8. -/
def lex (bytes : List UInt8) : Option (List Token) := lexFrom .between bytes

/-- Bytes other than control characters, the quotation mark and the backslash stand for themselves
between quotation marks. -/
theorem lexFrom_text (before bytes rest : List UInt8)
    (hbytes : ∀ byte ∈ bytes, 32 ≤ byte.toNat ∧ byte.toNat ≠ 34 ∧ byte.toNat ≠ 92) :
    lexFrom (.text before) (bytes ++ rest) = lexFrom (.text (bytes.reverse ++ before)) rest := by
  induction bytes generalizing before with
  | nil => rfl
  | cons byte bytes ih =>
    obtain ⟨hcontrol, hquote, hslash⟩ := hbytes byte (List.mem_cons_self)
    have hcode : (Char.ofUInt8 byte).toNat = byte.toNat := UInt8.toNat_toUInt32 byte
    have hmark (mark : Char) (hmark : byte.toNat ≠ mark.toNat) : Char.ofUInt8 byte ≠ mark := by
      rintro rfl
      exact hmark hcode.symm
    have hstep : lexStep (.text before) byte = some ([], .text (byte :: before)) := by
      have hlow : ¬ byte < 0x20 := by
        rw [UInt8.lt_iff_toNat_lt]
        exact Nat.not_lt.mpr hcontrol
      simp only [lexStep]
      rw [if_neg (hmark '"' hquote), if_neg (hmark '\\' hslash), if_neg hlow]
    rw [List.cons_append, lexFrom, hstep]
    simp only [List.nil_append, Option.map_id']
    rw [ih _ fun other hother ↦ hbytes other (List.mem_cons_of_mem _ hother)]
    simp

/-! ### Writing -/

mutual

/-- The tokens of a tree, without blanks. -/
def tokens : Json → List Token
  | null => [.word "null".toList]
  | bool true => [.word "true".toList]
  | bool false => [.word "false".toList]
  | number spelling => [.word spelling]
  | text spelling? => [.text spelling?]
  | array items => .openArray :: itemTokens items ++ [.closeArray]
  | object members => .openObject :: memberTokens members ++ [.closeObject]

/-- The tokens of the items of an array. -/
def itemTokens : List Json → List Token
  | [] => []
  | [item] => tokens item
  | item :: rest => tokens item ++ .comma :: itemTokens rest

/-- The tokens of the members of an object. -/
def memberTokens : List (Option (List Char) × Json) → List Token
  | [] => []
  | [(name, value)] => .text name :: .colon :: tokens value
  | (name, value) :: rest => .text name :: .colon :: tokens value ++ .comma :: memberTokens rest

end

/-- The characters of a tree, without blanks. -/
def render (json : Json) : List Char := json.tokens.flatMap Token.characters

/-! ### Reading -/

/-- Whether a spelling is an optional minus, digits without a superfluous zero in front, an optional
fraction and an optional exponent. -/
def isNumber (spelling : List Char) : Bool :=
  let unsigned := if spelling.head? = some '-' then spelling.tail else spelling
  let whole := unsigned.takeWhile Char.isDigit
  let afterWhole := unsigned.dropWhile Char.isDigit
  let afterFraction? :=
    match afterWhole with
    | '.' :: rest =>
      if rest.takeWhile Char.isDigit = [] then none else some (rest.dropWhile Char.isDigit)
    | _ => some afterWhole
  let hasWhole := whole ≠ [] && (whole.head? ≠ some '0' || whole.length = 1)
  let hasEnd :=
    match afterFraction? with
    | none => false
    | some [] => true
    | some (mark :: rest) =>
      let unsignedExponent :=
        if rest.head? = some '+' ∨ rest.head? = some '-' then rest.tail else rest
      (mark = 'e' || mark = 'E') && unsignedExponent ≠ [] && unsignedExponent.all Char.isDigit
  hasWhole && hasEnd

/-- The value that a literal name or a number stands for. -/
def ofWord? (spelling : List Char) : Option Json :=
  if spelling = "null".toList then some null
  else if spelling = "true".toList then some (bool true)
  else if spelling = "false".toList then some (bool false)
  else if isNumber spelling then some (number spelling)
  else none

/-- A container still open: what it holds so far, the last first. An object waits for the value of
the named member. -/
inductive Frame where
  | items (before : List Json)
  | member (before : List (Option (List Char) × Json)) (name? : Option (List Char))

/-- What may come next, and the containers around it. -/
inductive Expectation where
  | value (stack : List Frame)
  | valueOrEnd (stack : List Frame)
  | name (before : List (Option (List Char) × Json)) (stack : List Frame)
  | nameOrEnd (stack : List Frame)
  | colon (before : List (Option (List Char) × Json)) (name? : Option (List Char))
    (stack : List Frame)
  | afterItem (before : List Json) (stack : List Frame)
  | afterMember (before : List (Option (List Char) × Json)) (stack : List Frame)
  | nothing (whole : Json)

/-- What may come behind a value: it joins the innermost open container, or is the whole text. -/
def deliver (json : Json) : List Frame → Expectation
  | [] => .nothing json
  | .items before :: stack => .afterItem (json :: before) stack
  | .member before name? :: stack => .afterMember ((name?, json) :: before) stack

/-- A token where a value is expected. -/
def beginValue (stack : List Frame) : Token → Option Expectation
  | .word spelling => (ofWord? spelling).map (deliver · stack)
  | .text spelling? => some (deliver (text spelling?) stack)
  | .openArray => some (.valueOrEnd stack)
  | .openObject => some (.nameOrEnd stack)
  | _ => none

/-- What one token does; none where it is not expected. -/
def readToken : Expectation → Token → Option Expectation
  | .value stack, token => beginValue stack token
  | .valueOrEnd stack, .closeArray => some (deliver (array []) stack)
  | .valueOrEnd stack, token => beginValue (.items [] :: stack) token
  | .name before stack, .text name? => some (.colon before name? stack)
  | .nameOrEnd stack, .closeObject => some (deliver (object []) stack)
  | .nameOrEnd stack, .text name? => some (.colon [] name? stack)
  | .colon before name? stack, .colon => some (.value (.member before name? :: stack))
  | .afterItem before stack, .comma => some (.value (.items before :: stack))
  | .afterItem before stack, .closeArray => some (deliver (array before.reverse) stack)
  | .afterMember before stack, .comma => some (.name before stack)
  | .afterMember before stack, .closeObject => some (deliver (object before.reverse) stack)
  | _, _ => none

/-- The tree that a list of tokens writes. -/
def ofTokens? (tokens : List Token) : Option Json :=
  match tokens.foldlM readToken (.value []) with
  | some (.nothing json) => some json
  | _ => none

/-- The tree of a text in UTF-8. -/
def parse? (bytes : List UInt8) : Option Json := lex bytes >>= ofTokens?

end Json

end RunLedger
