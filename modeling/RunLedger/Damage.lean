import RunLedger.Key

/-!
# Damage to stored data

A `Damage` says why stored bytes do not read as what their place promises.
-/

set_option autoImplicit false

namespace RunLedger

/-- Why stored data cannot be read. -/
inductive Damage where
  /-- A payload is not a record of the expected type, or a text is not UTF-8. -/
  | undecodable
  /-- A record was expected where the empty payload is stored. -/
  | emptyPayload
  /-- A key ends where a byte should follow. -/
  | truncatedByte
  /-- A key has fewer bytes left than a number takes. -/
  | truncatedNumber
  /-- A NUL in a text of a key is followed by a byte that neither escapes it nor ends the text. -/
  | invalidEscape (byte : UInt8)
  /-- A key holds a byte that stands for no program type. -/
  | unknownProgramType (byte : UInt8)
  /-- A key of another family stands where the key of a run record should. -/
  | notRunKey (key : Key)
  /-- A key holds a text that writes no run id. -/
  | malformedRunId (text : String)
  /-- Damage in the words of the caller. -/
  | stated (text : String)
deriving DecidableEq, Inhabited

namespace Damage

/-- What is wrong, as far as it can be said; nothing is known of a payload that does not decode. -/
def detail? : Damage → Option String
  | undecodable => none
  | emptyPayload => some "expected a JSON record, found null"
  | truncatedByte => some "key truncated reading u8"
  | truncatedNumber => some "key truncated reading u64"
  | invalidEscape byte =>
    some ("invalid escape 0x" ++ Text.hexadecimal [byte] ++ " in key string")
  | unknownProgramType byte => some ("unknown program type byte 0x" ++ Text.hexadecimal [byte])
  | notRunKey key => some (key.text ++ " is not a run key")
  | malformedRunId text => some ("Invalid input: invalid run id '" ++ text ++ "'")
  | stated text => some text

end Damage

end RunLedger
