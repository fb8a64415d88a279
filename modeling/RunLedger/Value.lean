import RunLedger.Damage
import RunLedger.Json.Field

/-!
# Stored values

The store keeps payloads: nothing, a text or bytes. Records are stored as JSON texts
(`Value.ofRecord`) and are read back from a text or from the UTF-8 bytes of one (`Value.decode`).
What a record has no field for is passed over, and need not be UTF-8.
How a type of record is written and read is its `Stored` instance.
-/

set_option autoImplicit false

namespace RunLedger

/-- A stored payload. -/
inductive Value where
  | empty
  | text (content : String)
  | bytes (content : List UInt8)
deriving DecidableEq, Inhabited

/-- A stored payload and the version of the commit that wrote it. -/
structure VersionedValue where
  value : Value
  version : Nat
deriving DecidableEq, Inhabited

/-- A type whose values are stored as JSON. -/
class Stored (α : Type) where
  toJson : α → Json
  ofJson? : Json → Option α

namespace Value

variable {α : Type} [Stored α]

/-- The payload that holds a record. -/
def ofRecord (record : α) : Value := .text (String.ofList (Stored.toJson record).render)

/-- The record that the bytes of a JSON text write. -/
def decodeBytes (content : List UInt8) : Except Damage α :=
  match Json.parse? content >>= Stored.ofJson? with
  | none => .error .undecodable
  | some record => .ok record

/-- The record that a payload holds. -/
def decode : Value → Except Damage α
  | empty => .error .emptyPayload
  | text content => decodeBytes (Text.utf8 content)
  | bytes content => decodeBytes content

/-- The text of a payload that is one. -/
def text? : Value → Option String
  | text content => some content
  | _ => none

end Value

end RunLedger
