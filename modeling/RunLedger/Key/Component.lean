import RunLedger.Damage
import RunLedger.Program

/-!
# Components of keys

The bytes of a key are those of its components, one after the other. A byte stands for itself, a
number is written as eight bytes with the most significant first, and a text is written as its UTF-8
bytes with each NUL followed by the byte 255, and is closed by a NUL and the byte 1. So no component
is a proper beginning of another of its kind, and the order of the bytes is the order of the
components.

A `KeyReader` reads components from the front of a list of bytes and leaves the rest, also when it
fails: a number that is cut short leaves all bytes, a text those behind the byte that broke it.
-/

set_option autoImplicit false

namespace RunLedger

/-- One component of a key. -/
inductive KeyComponent where
  | byte (value : UInt8)
  | number (value : UInt64)
  | text (value : String)
deriving DecidableEq, Inhabited

namespace KeyComponent

/-- The eight bytes of a number, the most significant first. -/
def numberBytes (value : UInt64) : List UInt8 :=
  [(56 : UInt64), 48, 40, 32, 24, 16, 8, 0].map fun shift ↦ (value >>> shift).toUInt8

/-- The bytes of a text with every NUL followed by the byte 255. -/
def escape : List UInt8 → List UInt8
  | [] => []
  | head :: rest => if head = 0 then 0 :: 255 :: escape rest else head :: escape rest

/-- The bytes of a component. -/
def encode : KeyComponent → List UInt8
  | byte value => [value]
  | number value => numberBytes value
  | text value => escape (Text.utf8 value) ++ [0, 1]

/-- The bytes of several components in a row. -/
def encodeAll (components : List KeyComponent) : List UInt8 := components.flatMap encode

end KeyComponent

/-- The components that name a program. -/
def ProgramId.keyComponents (program : ProgramId) : List KeyComponent :=
  [.text program.namespaceName, .text program.application, .byte program.type.code,
    .text program.name]

/-- The components that keys of programs in a scope have in common. -/
def Scope.keyComponents : Scope → List KeyComponent
  | wholeNamespace namespaceName => [.text namespaceName]
  | oneApplication namespaceName application => [.text namespaceName, .text application]

/-- A reader of components: it takes bytes from the front and leaves the rest. -/
abbrev KeyReader := ExceptT Damage (StateM (List UInt8))

namespace KeyReader

/-- The number written by its bytes, the most significant first. -/
def numberOfBytes (bytes : List UInt8) : UInt64 :=
  bytes.foldl (fun number byte ↦ number <<< 8 ||| byte.toUInt64) 0

/-- Takes one byte. -/
def byte : KeyReader UInt8 := do
  match ← get with
  | [] => throw .truncatedByte
  | value :: rest => set rest; return value

/-- Takes eight bytes as a number, or none if fewer are left. -/
def number : KeyReader UInt64 := do
  let bytes ← get
  if bytes.length < 8 then throw .truncatedNumber
  set (bytes.drop 8)
  return numberOfBytes (bytes.take 8)

/-- The bytes of an escaped text up to its end and the bytes behind it. -/
def unescape : List UInt8 → Except Damage (List UInt8) × List UInt8
  | [] => (.error .truncatedByte, [])
  | [_] => (.error .truncatedByte, [])
  | first :: second :: rest =>
    if first ≠ 0 then
      match unescape (second :: rest) with
      | (.ok bytes, remaining) => (.ok (first :: bytes), remaining)
      | (.error damage, remaining) => (.error damage, remaining)
    else if second = 1 then (.ok [], rest)
    else if second = 255 then
      match unescape rest with
      | (.ok bytes, remaining) => (.ok (0 :: bytes), remaining)
      | (.error damage, remaining) => (.error damage, remaining)
    else (.error (.invalidEscape second), rest)

/-- Takes an escaped text with its end. -/
def text : KeyReader String := do
  match unescape (← get) with
  | (.error damage, rest) => set rest; throw damage
  | (.ok bytes, rest) =>
    set rest
    match Text.ofUtf8? bytes with
    | none => throw .undecodable
    | some value => return value

/-- Takes the components that name a program. -/
def program : KeyReader ProgramId := do
  let namespaceName ← text
  let application ← text
  let code ← byte
  match ProgramType.ofCode? code with
  | none => throw (.unknownProgramType code)
  | some type =>
    let name ← text
    return { namespaceName, application, type, name }

end KeyReader

end RunLedger
