import RunLedger.Text.Visible
import RunLedger.Text

/-!
# Texts in quotation marks

`quoted` writes a text between double quotes so that every character can be told: quotes and
backslashes are preceded by a backslash, NUL, tab, line feed and carriage return have a letter each,
and every other hidden character is written as its code point in hexadecimal digits.
-/

set_option autoImplicit false

namespace RunLedger.Text

/-- One character inside quotation marks. -/
def quotedCharacter (character : Char) : List Char :=
  if character = '"' ∨ character = '\\' then ['\\', character]
  else if character = '\t' then ['\\', 't']
  else if character = '\n' then ['\\', 'n']
  else if character = '\r' then ['\\', 'r']
  else if character = Char.ofNat 0 then ['\\', '0']
  else if isVisible character then [character]
  else ['\\', 'u', '\x7b'] ++ Nat.toDigits 16 character.toNat ++ ['\x7d']

/-- A text between double quotes, with hidden characters written as escapes. -/
def quoted (text : String) : String :=
  String.ofList ('"' :: text.toList.flatMap quotedCharacter ++ ['"'])

end RunLedger.Text
