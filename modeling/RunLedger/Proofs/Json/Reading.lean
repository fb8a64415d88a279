import RunLedger.Json.Field

/-!
# JSON texts are read back as written

A tree whose numbers are decimal and whose texts and names are escaped (`Json.Written`) is divided
into its own tokens again, whatever follows them that ends a word (`Written.lexFrom_tokens`), and
the tokens build the tree again (`Written.foldlM_tokens`). So it is read from the UTF-8 bytes of its
text (`Written.parse?_render`).
-/

set_option autoImplicit false

namespace RunLedger.Json

/-- A tree as records are written: numbers in decimal, texts and names escaped. -/
inductive Written : Json → Prop
  | null : Written .null
  | bool (value : Bool) : Written (.bool value)
  | number (value : Nat) : Written (.number (Nat.toDigits 10 value))
  | text (characters : List Char) : Written (.text (some (escape characters)))
  | array {items : List Json} (hitems : ∀ item ∈ items, Written item) : Written (.array items)
  | object {members : List (Option (List Char) × Json)}
    (hnames : ∀ member ∈ members, ∃ characters, member.1 = some (escape characters))
    (hvalues : ∀ member ∈ members, Written member.2) : Written (.object members)

/-! ### From bytes to tokens -/

/-- The UTF-8 bytes of characters. -/
def bytesOf (characters : List Char) : List UInt8 := characters.flatMap String.utf8EncodeChar

theorem bytesOf_append (first second : List Char) :
    bytesOf (first ++ second) = bytesOf first ++ bytesOf second :=
  List.flatMap_append

theorem bytesOf_cons (character : Char) (rest : List Char) :
    bytesOf (character :: rest) = String.utf8EncodeChar character ++ bytesOf rest :=
  List.flatMap_cons

/-- A byte that ends no token only changes the state. -/
theorem lexFrom_cons {state next : LexState} {byte : UInt8}
    (hstep : lexStep state byte = some ([], next)) (rest : List UInt8) :
    lexFrom state (byte :: rest) = lexFrom next rest := by
  rw [lexFrom, hstep]
  exact Option.map_id'

/-- A byte that makes tokens puts them in front of those of the rest. -/
theorem lexFrom_cons_of_tokens {state next : LexState} {byte : UInt8} {tokens : List Token}
    (hstep : lexStep state byte = some (tokens, next)) (rest : List UInt8) :
    lexFrom state (byte :: rest) = (lexFrom next rest).map (tokens ++ ·) := by
  rw [lexFrom, hstep]

/-- A hexadecimal digit is one byte that reads as one. -/
theorem utf8EncodeChar_digitCharacter (digit : Fin 16) :
    ∃ byte, String.utf8EncodeChar (Text.digitCharacter digit) = [byte] ∧
      isHexDigit (Char.ofUInt8 byte) = true := by
  have hdigit : String.utf8EncodeChar (Text.digitCharacter digit) =
      [UInt8.ofNat (Text.digitCharacter digit).toNat] ∧
        isHexDigit (Char.ofUInt8 (UInt8.ofNat (Text.digitCharacter digit).toNat)) = true := by
    revert digit
    decide
  exact ⟨_, hdigit⟩

/-- The spelling of a character stays between quotation marks. -/
theorem lexFrom_escapeCharacter (character : Char) (before rest : List UInt8) :
    lexFrom (.text before) (bytesOf (escapeCharacter character) ++ rest) =
      lexFrom (.text ((bytesOf (escapeCharacter character)).reverse ++ before)) rest := by
  have hletter (letter : UInt8) (before : List UInt8)
      (hletter : letter ∈ ([34, 92, 110, 114, 116, 98, 102] : List UInt8)) :
      lexFrom (.text before) (92 :: letter :: rest) =
        lexFrom (.text (letter :: 92 :: before)) rest := by
    have hopen : lexStep (.text before) 92 = some ([], .escape (92 :: before)) := rfl
    rw [lexFrom_cons hopen]
    simp only [List.mem_cons, List.not_mem_nil, or_false] at hletter
    rcases hletter with rfl | rfl | rfl | rfl | rfl | rfl | rfl <;> exact lexFrom_cons rfl rest
  unfold escapeCharacter
  split
  · exact hletter 34 before (by decide)
  split
  · exact hletter 92 before (by decide)
  split
  · exact hletter 110 before (by decide)
  split
  · exact hletter 114 before (by decide)
  split
  · exact hletter 116 before (by decide)
  split
  · exact hletter 98 before (by decide)
  split
  · exact hletter 102 before (by decide)
  split
  · obtain ⟨high, hhigh, hhighDigit⟩ :=
      utf8EncodeChar_digitCharacter (Fin.ofNat 16 (character.toNat / 16))
    obtain ⟨low, hlow, hlowDigit⟩ := utf8EncodeChar_digitCharacter (Fin.ofNat 16 character.toNat)
    have hbytes : bytesOf (['\\', 'u', '0', '0'] ++
        (Text.digitsOf 2 character.toNat).map Text.digitCharacter) =
        [92, 117, 48, 48, high, low] := by
      change _ ++ (_ ++ (_ ++ (_ ++ (String.utf8EncodeChar _ ++ (String.utf8EncodeChar _ ++ []))))) = _
      rw [hhigh, hlow]
      rfl
    have hdigit {missing : Nat} {bytes : List UInt8} {byte : UInt8}
        (hbyte : isHexDigit (Char.ofUInt8 byte) = true) :
        lexStep (.digits missing bytes) byte =
          if missing ≤ 1 then some ([], .text (byte :: bytes))
          else some ([], .digits (missing - 1) (byte :: bytes)) := by
      simp only [lexStep, hbyte, if_true]
    rw [hbytes]
    exact (lexFrom_cons rfl _).trans <| (lexFrom_cons rfl _).trans <|
      (lexFrom_cons (hdigit (by decide)) _).trans <| (lexFrom_cons (hdigit (by decide)) _).trans <|
        (lexFrom_cons (hdigit hhighDigit) _).trans (lexFrom_cons (hdigit hlowDigit) _)
  · rename_i hquote hslash hline hreturn htab hbackspace hfeed hcontrol
    refine lexFrom_text before _ rest fun byte hbyte ↦ ?_
    rw [bytesOf, List.flatMap_singleton] at hbyte
    rcases Nat.lt_or_ge character.toNat 128 with hascii | hbeyond
    · rw [Text.utf8EncodeChar_of_lt character hascii, List.mem_singleton] at hbyte
      have hcode : byte.toNat = character.toNat := by
        rw [hbyte, UInt8.toNat_ofNat', Nat.mod_eq_of_lt (by omega)]
      have hmark (mark : Char) (hmark : character ≠ mark) : character.toNat ≠ mark.toNat :=
        fun hsame ↦ hmark (Char.toNat_inj.mp hsame)
      have h34 := hmark '"' hquote
      have h92 := hmark '\\' hslash
      rw [hcode]
      exact ⟨Nat.le_of_not_lt hcontrol, h34, h92⟩
    · have := Text.le_of_mem_utf8EncodeChar character hbeyond byte hbyte
      omega

/-- An escaped text stays between quotation marks. -/
theorem lexFrom_escape (characters : List Char) (before rest : List UInt8) :
    lexFrom (.text before) (bytesOf (escape characters) ++ rest) =
      lexFrom (.text ((bytesOf (escape characters)).reverse ++ before)) rest := by
  induction characters generalizing before with
  | nil => rfl
  | cons character others ih =>
    rw [escape, List.flatMap_cons, ← escape, bytesOf_append, List.append_assoc,
      lexFrom_escapeCharacter, ih, List.reverse_append, List.append_assoc]

/-- An escaped text between quotation marks is one token. -/
theorem lexFrom_text_token (characters : List Char) (rest : List UInt8) :
    lexFrom .between (bytesOf (Token.text (some (escape characters))).characters ++ rest) =
      (lexFrom .between rest).map (Token.text (some (escape characters)) :: ·) := by
  have hbytes : bytesOf (Token.text (some (escape characters))).characters ++ rest =
      34 :: (bytesOf (escape characters) ++ 34 :: rest) := by
    rw [Token.characters, Option.getD_some, List.cons_append, bytesOf_cons, bytesOf_append]
    simp only [List.append_assoc]
    rfl
  have hopen : lexStep .between 34 = some ([], .text []) := rfl
  have hclose : lexStep (.text ((bytesOf (escape characters)).reverse ++ [])) 34 =
      some ([Token.text (some (escape characters))], .between) := by
    have hread : Text.ofUtf8? (bytesOf (escape characters)) =
        some (String.ofList (escape characters)) := by
      rw [bytesOf, ← Text.utf8_ofList, Text.ofUtf8?_utf8]
    simp only [lexStep, List.append_nil, List.reverse_reverse, hread, Option.map_some,
      String.toList_ofList]
    rfl
  rw [hbytes, lexFrom_cons hopen, lexFrom_escape, lexFrom_cons_of_tokens hclose]
  rfl

/-- No bytes follow, or one that ends a word. -/
def Parts (rest : List UInt8) : Prop :=
  ∀ byte tail, rest = byte :: tail → endsWord (Char.ofUInt8 byte) = true

theorem parts_nil : Parts [] := fun _ _ hnil ↦ by cases hnil

theorem parts_cons {byte : UInt8} (hbyte : endsWord (Char.ofUInt8 byte) = true)
    (rest : List UInt8) : Parts (byte :: rest) := fun other tail hcons ↦ by
  obtain ⟨rfl, -⟩ := List.cons.inj hcons
  exact hbyte

/-- Characters of literal names and numbers are ASCII and end no word. -/
def IsWord (spelling : List Char) : Prop :=
  spelling ≠ [] ∧ ∀ character ∈ spelling, character.toNat < 128 ∧ endsWord character = false

instance (spelling : List Char) : Decidable (IsWord spelling) :=
  @instDecidableAnd _ _ inferInstance (List.decidableBAll _ spelling)

theorem ofUInt8_ofNat_toNat {character : Char} (hascii : character.toNat < 128) :
    Char.ofUInt8 (UInt8.ofNat character.toNat) = character := by
  have hcode : (Char.ofUInt8 (UInt8.ofNat character.toNat)).toNat =
      (UInt8.ofNat character.toNat).toNat := UInt8.toNat_toUInt32 _
  rw [UInt8.toNat_ofNat', Nat.mod_eq_of_lt (by omega)] at hcode
  exact Char.toNat_inj.mp hcode

/-- A word goes on as long as its characters do. -/
theorem lexFrom_word_append {spelling : List Char}
    (hspelling : ∀ character ∈ spelling, character.toNat < 128 ∧ endsWord character = false)
    (before : List Char) (rest : List UInt8) :
    lexFrom (.word before) (bytesOf spelling ++ rest) =
      lexFrom (.word (spelling.reverse ++ before)) rest := by
  induction spelling generalizing before with
  | nil => rfl
  | cons character others ih =>
    obtain ⟨hascii, hinside⟩ := hspelling character List.mem_cons_self
    have hstep : lexStep (.word before) (UInt8.ofNat character.toNat) =
        some ([], .word (character :: before)) := by
      simp only [lexStep, ofUInt8_ofNat_toNat hascii, hinside, Bool.false_eq_true, if_false]
    rw [bytesOf_cons, Text.utf8EncodeChar_of_lt character hascii, List.append_assoc,
      List.singleton_append, lexFrom_cons hstep, ih (fun other hother ↦ hspelling other (List.mem_cons_of_mem _ hother)),
      List.reverse_cons, List.append_assoc]
    rfl

/-- A literal name or a number is one token if what follows ends it. -/
theorem lexFrom_word_token {spelling : List Char} (hspelling : IsWord spelling)
    {rest : List UInt8} (hrest : Parts rest) :
    lexFrom .between (bytesOf (Token.word spelling).characters ++ rest) =
      (lexFrom .between rest).map (Token.word spelling :: ·) := by
  -- what follows a word is read as it is between tokens
  have hend (word : List Char) :
      lexFrom (.word word) rest = (lexFrom .between rest).map (Token.word word.reverse :: ·) := by
    cases rest with
    | nil => rfl
    | cons byte tail =>
      have hstep : lexStep (.word word) byte = some
          (.word word.reverse :: (lexBetween (Char.ofUInt8 byte)).1,
            (lexBetween (Char.ofUInt8 byte)).2) := by
        simp only [lexStep, hrest byte tail rfl, if_true]
      have hbetween : lexStep .between byte = some (lexBetween (Char.ofUInt8 byte)) := rfl
      rw [lexFrom_cons_of_tokens hstep, lexFrom_cons_of_tokens hbetween, Option.map_map]
      rfl
  obtain ⟨hnonempty, hcharacters⟩ := hspelling
  cases spelling with
  | nil => exact absurd rfl hnonempty
  | cons character others =>
    obtain ⟨hascii, hinside⟩ := hcharacters character List.mem_cons_self
    have hstep : lexStep .between (UInt8.ofNat character.toNat) = some ([], .word [character]) := by
      simp only [endsWord, Bool.or_eq_false_iff, decide_eq_false_iff_not,
        Option.isSome_eq_false_iff, Option.isNone_iff_eq_none] at hinside
      simp only [lexStep, ofUInt8_ofNat_toNat hascii, lexBetween, hinside, Bool.false_eq_true,
        if_false]
    rw [Token.characters, bytesOf_cons, Text.utf8EncodeChar_of_lt character hascii,
      List.append_assoc, List.singleton_append, lexFrom_cons hstep,
      lexFrom_word_append fun other hother ↦ hcharacters other (List.mem_cons_of_mem _ hother),
      hend, List.reverse_append, List.reverse_reverse]
    rfl

/-- A bracket, a colon and a comma are one token each. -/
theorem lexFrom_punctuation {token : Token} (rest : List UInt8)
    (htoken : token ∈ [Token.openObject, .closeObject, .openArray, .closeArray, .colon, .comma]) :
    lexFrom .between (bytesOf token.characters ++ rest) =
      (lexFrom .between rest).map (token :: ·) := by
  have hsingle {byte : UInt8} (hbytes : bytesOf token.characters = [byte])
      (hstep : lexStep .between byte = some ([token], .between)) :
      lexFrom .between (bytesOf token.characters ++ rest) =
        (lexFrom .between rest).map (token :: ·) := by
    rw [hbytes, List.singleton_append, lexFrom_cons_of_tokens hstep]
    rfl
  simp only [List.mem_cons, List.not_mem_nil, or_false] at htoken
  rcases htoken with rfl | rfl | rfl | rfl | rfl | rfl <;> exact hsingle rfl rfl

/-- Tokens that are read back from their bytes, whatever follows that ends a word. -/
def Lexes (tokens : List Token) : Prop :=
  ∀ rest, Parts rest →
    lexFrom .between (bytesOf (tokens.flatMap Token.characters) ++ rest) =
      (lexFrom .between rest).map (tokens ++ ·)

theorem lexes_nil : Lexes [] := fun _ _ ↦ Option.map_id'.symm

/-- A token that is read whatever follows may stand in front. -/
theorem Lexes.cons {token : Token} {tokens : List Token} (htokens : Lexes tokens)
    (htoken : ∀ rest, lexFrom .between (bytesOf token.characters ++ rest) =
      (lexFrom .between rest).map (token :: ·)) : Lexes (token :: tokens) := fun rest hrest ↦ by
  rw [List.flatMap_cons, bytesOf_append, List.append_assoc, htoken, htokens rest hrest,
    Option.map_map]
  rfl

/-- Tokens may stand in front of others that begin with a comma or a closing bracket. -/
theorem Lexes.append {first second : List Token} {token : Token} (hfirst : Lexes first)
    (htoken : token ∈ [Token.comma, .closeArray, .closeObject])
    (hsecond : Lexes (token :: second)) : Lexes (first ++ token :: second) := fun rest hrest ↦ by
  have hparts : Parts (bytesOf ((token :: second).flatMap Token.characters) ++ rest) := by
    simp only [List.mem_cons, List.not_mem_nil, or_false] at htoken
    rcases htoken with rfl | rfl | rfl <;> exact parts_cons rfl _
  rw [List.flatMap_append, bytesOf_append, List.append_assoc, hfirst _ hparts, hsecond rest hrest,
    Option.map_map]
  congr 1
  funext tokens
  exact (List.append_assoc ..).symm

theorem lexes_word {spelling : List Char} (hspelling : IsWord spelling) :
    Lexes [.word spelling] := fun rest hrest ↦ by
  rw [List.flatMap_singleton]
  exact lexFrom_word_token hspelling hrest

/-- A decimal digit ends no word. -/
theorem isWord_toDigits (value : Nat) : IsWord (Nat.toDigits 10 value) := by
  refine ⟨Nat.toDigits_ne_nil, fun character hcharacter ↦ ?_⟩
  have hdigit := Nat.isDigit_of_mem_toDigits (by decide) (by decide) hcharacter
  obtain ⟨hlow, hhigh⟩ : 48 ≤ character.toNat ∧ character.toNat ≤ 57 := by
    simpa [Char.isDigit, UInt32.le_iff_toNat_le] using hdigit
  have hcases : ∀ offset : Fin 10, (Char.ofNat (48 + offset.val)).toNat < 128 ∧
      endsWord (Char.ofNat (48 + offset.val)) = false := by decide
  have hoffset := hcases ⟨character.toNat - 48, by omega⟩
  rwa [Nat.add_sub_cancel' hlow, Char.ofNat_toNat] at hoffset

/-- The items of an array are read if each of them is. -/
theorem lexes_itemTokens {items : List Json} (hitems : ∀ item ∈ items, Lexes item.tokens) :
    Lexes (itemTokens items ++ [.closeArray]) := by
  have hclose : Lexes [.closeArray] := lexes_nil.cons fun rest ↦ lexFrom_punctuation rest (by decide)
  induction items with
  | nil => exact hclose
  | cons item rest ih =>
    obtain ⟨hitem, hrest⟩ := List.forall_mem_cons.mp hitems
    cases rest with
    | nil => exact hitem.append (by decide) hclose
    | cons next others =>
      have hcomma : Lexes (.comma :: (itemTokens (next :: others) ++ [.closeArray])) :=
        (ih hrest).cons fun rest ↦ lexFrom_punctuation rest (by decide)
      rw [itemTokens, List.append_assoc]
      exact hitem.append (by decide) hcomma
      exact List.cons_ne_nil _ _

/-- The members of an object are read if their values are. -/
theorem lexes_memberTokens {members : List (Option (List Char) × Json)}
    (hnames : ∀ member ∈ members, ∃ characters, member.1 = some (escape characters))
    (hvalues : ∀ member ∈ members, Lexes member.2.tokens) :
    Lexes (memberTokens members ++ [.closeObject]) := by
  have hclose : Lexes [.closeObject] := lexes_nil.cons fun rest ↦ lexFrom_punctuation rest (by decide)
  have hcolon {tokens : List Token} (htokens : Lexes tokens) (characters : List Char) :
      Lexes (.text (some (escape characters)) :: .colon :: tokens) :=
    (htokens.cons fun rest ↦ lexFrom_punctuation rest (by decide)).cons (lexFrom_text_token characters)
  induction members with
  | nil => exact hclose
  | cons member rest ih =>
    obtain ⟨⟨characters, hname⟩, hothers⟩ := List.forall_mem_cons.mp hnames
    obtain ⟨hvalue, hrest⟩ := List.forall_mem_cons.mp hvalues
    obtain ⟨name?, value⟩ := member
    obtain rfl : name? = some (escape characters) := hname
    cases rest with
    | nil => exact hcolon (hvalue.append (by decide) hclose) characters
    | cons next others =>
      have hcomma : Lexes (.comma :: (memberTokens (next :: others) ++ [.closeObject])) :=
        (ih hothers hrest).cons fun rest ↦ lexFrom_punctuation rest (by decide)
      rw [memberTokens, List.append_assoc]
      exact hcolon (hvalue.append (by decide) hcomma) characters
      exact List.cons_ne_nil _ _

/-- A written tree is divided into its tokens again. -/
theorem Written.lexes {json : Json} (hwritten : json.Written) : Lexes json.tokens := by
  induction hwritten with
  | null => exact lexes_word (by decide)
  | bool value => cases value <;> exact lexes_word (by decide)
  | number value => exact lexes_word (isWord_toDigits value)
  | text characters => exact lexes_nil.cons (lexFrom_text_token characters)
  | array hitems ih =>
    exact (lexes_itemTokens ih).cons fun rest ↦ lexFrom_punctuation rest (by decide)
  | object hnames hvalues ih =>
    exact (lexes_memberTokens hnames ih).cons fun rest ↦ lexFrom_punctuation rest (by decide)

/-! ### From tokens to trees -/

/-- One token that is expected leads to what may come behind it. -/
theorem foldlM_cons_of_read {state next : Expectation} {token : Token}
    (hread : readToken state token = some next) (rest : List Token) :
    (token :: rest).foldlM readToken state = rest.foldlM readToken next := by
  rw [List.foldlM_cons, hread]
  rfl

/-- A tree is built from its tokens, wherever a value is expected and whatever follows. -/
def Builds (json : Json) : Prop :=
  ∀ stack rest, (json.tokens ++ rest).foldlM readToken (.value stack) =
    rest.foldlM readToken (deliver json stack)

/-- No tree begins with a closing bracket. -/
theorem tokens_eq_cons (json : Json) :
    ∃ head tail, json.tokens = head :: tail ∧ head ≠ .closeArray := by
  cases json with
  | bool value => cases value <;> exact ⟨_, _, rfl, by simp⟩
  | _ => exact ⟨_, _, rfl, by simp⟩

/-- Behind an opening bracket a tree is the first item. -/
theorem foldlM_valueOrEnd (json : Json) (stack : List Frame) (rest : List Token) :
    (json.tokens ++ rest).foldlM readToken (.valueOrEnd stack) =
      (json.tokens ++ rest).foldlM readToken (.value (.items [] :: stack)) := by
  obtain ⟨head, tail, htokens, hhead⟩ := tokens_eq_cons json
  have hread : readToken (.valueOrEnd stack) head = readToken (.value (.items [] :: stack)) head := by
    cases head <;> first | rfl | exact absurd rfl hhead
  rw [htokens, List.cons_append, List.foldlM_cons, List.foldlM_cons, hread]

/-- The items of an array are built one after the other. -/
theorem foldlM_itemTokens {item : Json} {items : List Json} (hitem : item.Builds)
    (hitems : ∀ item ∈ items, item.Builds) (before : List Json) (stack : List Frame)
    (rest : List Token) :
    (itemTokens (item :: items) ++ .closeArray :: rest).foldlM readToken
        (.value (.items before :: stack)) =
      rest.foldlM readToken (deliver (array (before.reverse ++ item :: items)) stack) := by
  induction items generalizing item before with
  | nil =>
    rw [itemTokens, hitem, deliver, foldlM_cons_of_read rfl, List.reverse_cons]
  | cons next others ih =>
    obtain ⟨hnext, hothers⟩ := List.forall_mem_cons.mp hitems
    have htokens : itemTokens (item :: next :: others) ++ .closeArray :: rest =
        item.tokens ++ .comma :: (itemTokens (next :: others) ++ .closeArray :: rest) := by
      rw [itemTokens, List.append_assoc]
      · rfl
      · exact List.cons_ne_nil _ _
    rw [htokens, hitem, deliver, foldlM_cons_of_read rfl, ih hnext hothers, List.reverse_cons,
      List.append_assoc]
    rfl

/-- The members of an object are built one after the other. -/
theorem foldlM_memberTokens {member : Option (List Char) × Json}
    {members : List (Option (List Char) × Json)} (hmember : member.2.Builds)
    (hmembers : ∀ member ∈ members, member.2.Builds)
    (before : List (Option (List Char) × Json)) (stack : List Frame) (rest : List Token) :
    (memberTokens (member :: members) ++ .closeObject :: rest).foldlM readToken
        (.name before stack) =
      rest.foldlM readToken (deliver (object (before.reverse ++ member :: members)) stack) := by
  induction members generalizing member before with
  | nil =>
    have htokens : memberTokens [member] ++ .closeObject :: rest =
        .text member.1 :: .colon :: (member.2.tokens ++ .closeObject :: rest) := rfl
    rw [htokens, foldlM_cons_of_read rfl, foldlM_cons_of_read rfl, hmember, deliver,
      foldlM_cons_of_read rfl, List.reverse_cons]
  | cons next others ih =>
    obtain ⟨hnext, hothers⟩ := List.forall_mem_cons.mp hmembers
    have htokens : memberTokens (member :: next :: others) ++ .closeObject :: rest =
        .text member.1 :: .colon :: (member.2.tokens ++
          .comma :: (memberTokens (next :: others) ++ .closeObject :: rest)) := by
      rw [memberTokens]
      · simp only [List.cons_append, List.append_assoc]
      · exact List.cons_ne_nil _ _
    rw [htokens, foldlM_cons_of_read rfl, foldlM_cons_of_read rfl, hmember, deliver,
      foldlM_cons_of_read rfl, ih hnext hothers, List.reverse_cons, List.append_assoc]
    rfl

/-- Decimal digits have no superfluous zero in front. -/
theorem head?_toDigits {value : Nat} (hvalue : value ≠ 0) :
    (Nat.toDigits 10 value).head? ≠ some '0' := by
  induction value using Nat.strongRecOn with
  | _ value ih =>
    rw [Nat.toDigits_eq_if (by decide)]
    split
    · rename_i hsmall
      have hdigits : ∀ digit : Fin 10, digit.val ≠ 0 → some digit.val.digitChar ≠ some '0' := by
        decide
      exact hdigits ⟨value, hsmall⟩ hvalue
    · rename_i hlarge
      have hhead := ih (value / 10) (by omega) (by omega)
      rw [List.head?_append]
      cases hfront : (Nat.toDigits 10 (value / 10)).head? with
      | none => exact absurd (List.head?_eq_none_iff.mp hfront) Nat.toDigits_ne_nil
      | some front => rwa [hfront] at hhead

/-- A decimal number is read as one. -/
theorem ofWord?_toDigits (value : Nat) :
    ofWord? (Nat.toDigits 10 value) = some (number (Nat.toDigits 10 value)) := by
  have hdigits (character : Char) (hmem : character ∈ Nat.toDigits 10 value) :=
    Nat.isDigit_of_mem_toDigits (by decide) (by decide) hmem
  -- a literal name begins with a letter
  have hname (letter : Char) (others : List Char) (hletter : letter.isDigit = false) :
      Nat.toDigits 10 value ≠ letter :: others := fun hequal ↦ by
    have hdigit := hdigits letter (hequal ▸ List.mem_cons_self)
    rw [hletter] at hdigit
    cases hdigit
  have hminus : (Nat.toDigits 10 value).head? ≠ some '-' := fun hhead ↦ by
    have hdigit := hdigits '-' (List.mem_of_mem_head? (Option.mem_def.mpr hhead))
    revert hdigit
    decide
  have htake : (Nat.toDigits 10 value).takeWhile Char.isDigit = Nat.toDigits 10 value := by
    have hall := @List.takeWhile_append_of_pos _ Char.isDigit _ [] hdigits
    rwa [List.append_nil, List.takeWhile_nil, List.append_nil] at hall
  have hdrop : (Nat.toDigits 10 value).dropWhile Char.isDigit = [] := by
    have hall := @List.dropWhile_append_of_pos _ Char.isDigit _ [] hdigits
    rwa [List.append_nil, List.dropWhile_nil] at hall
  have hzero : (Nat.toDigits 10 value).head? ≠ some '0' ∨ (Nat.toDigits 10 value).length = 1 := by
    by_cases hvalue : value = 0
    · exact Or.inr (by rw [hvalue]; rfl)
    · exact Or.inl (head?_toDigits hvalue)
  have hnumber : isNumber (Nat.toDigits 10 value) = true := by
    unfold isNumber
    simp only [hminus, if_false, htake, hdrop]
    simpa using hzero
  have hnull : Nat.toDigits 10 value ≠ "null".toList := hname 'n' _ (by decide)
  have htrue : Nat.toDigits 10 value ≠ "true".toList := hname 't' _ (by decide)
  have hfalse : Nat.toDigits 10 value ≠ "false".toList := hname 'f' _ (by decide)
  rw [ofWord?, if_neg hnull, if_neg htrue, if_neg hfalse, if_pos hnumber]

/-- A written tree is built from its tokens. -/
theorem Written.builds {json : Json} (hwritten : json.Written) : json.Builds := by
  have hword {json : Json} {spelling : List Char} (htokens : json.tokens = [.word spelling])
      (hspelling : ofWord? spelling = some json) : json.Builds := fun stack rest ↦ by
    have hread : readToken (.value stack) (.word spelling) = some (deliver json stack) := by
      rw [readToken, beginValue, hspelling]
      rfl
    rw [htokens, List.singleton_append, foldlM_cons_of_read hread]
  induction hwritten with
  | null => exact hword rfl rfl
  | bool value => cases value <;> exact hword rfl rfl
  | number value => exact hword rfl (ofWord?_toDigits value)
  | text characters => exact fun stack rest ↦ foldlM_cons_of_read rfl rest
  | @array items hitems ih =>
    intro stack rest
    rw [tokens, List.cons_append, List.cons_append, foldlM_cons_of_read rfl, List.append_assoc]
    cases items with
    | nil => exact foldlM_cons_of_read rfl rest
    | cons item others =>
      obtain ⟨hitem, hothers⟩ := List.forall_mem_cons.mp ih
      refine Eq.trans ?_ (foldlM_itemTokens hitem hothers [] stack rest)
      cases others with
      | nil => exact foldlM_valueOrEnd item stack _
      | cons next others =>
        rw [itemTokens, List.append_assoc, List.append_assoc]
        · exact foldlM_valueOrEnd item stack _
        · exact List.cons_ne_nil _ _
  | @object members hnames hvalues ih =>
    intro stack rest
    rw [tokens, List.cons_append, List.cons_append, foldlM_cons_of_read rfl, List.append_assoc]
    cases members with
    | nil => exact foldlM_cons_of_read rfl rest
    | cons member others =>
      obtain ⟨hmember, hothers⟩ := List.forall_mem_cons.mp ih
      refine Eq.trans ?_ (foldlM_memberTokens hmember hothers [] stack rest)
      cases others with
      | nil => rfl
      | cons next others =>
        rw [memberTokens]
        · rfl
        · exact List.cons_ne_nil _ _

/-- A written tree is read from the UTF-8 bytes of its text. -/
theorem Written.parse?_render {json : Json} (hwritten : json.Written) :
    parse? (Text.utf8 (String.ofList json.render)) = some json := by
  have hlex := hwritten.lexes [] parts_nil
  rw [List.append_nil] at hlex
  have hbuild := hwritten.builds [] []
  rw [List.append_nil] at hbuild
  have hlexed : lex (bytesOf json.render) = some json.tokens :=
    hlex.trans (congrArg some (List.append_nil _))
  rw [Text.utf8_ofList, ← bytesOf, parse?, hlexed]
  simp only [Option.bind_eq_bind, Option.bind_some, ofTokens?, hbuild]
  rfl

end RunLedger.Json
