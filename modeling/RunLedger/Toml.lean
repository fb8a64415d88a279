/-!
# TOML documents

A `Toml` is a value of a TOML document. A table keeps how it came about (`Toml.Origin`), since that
decides how it may still grow: dotted keys extend the tables that dotted keys have made
(`Toml.assign`), a header defines a table that has none yet (`Toml.openTable`) or adds one to an
array of tables (`Toml.openItem`), and nothing is defined twice.

`Toml.build?` makes the document of a list of statements.
-/

set_option autoImplicit false

namespace RunLedger

/-- How a table came about. -/
inductive Toml.Origin where
  /-- Named on the way to another table; a header may still define it. -/
  | passed
  /-- Made by dotted keys; more dotted keys may extend it. -/
  | dotted
  /-- Defined by a header of its own. -/
  | defined
  /-- Written out between braces; it is complete. -/
  | complete
deriving DecidableEq, Inhabited

/-- A value of a document. The values of fractional numbers and of dates and times are not kept. -/
inductive Toml where
  | text (content : String)
  | integer (value : Int)
  | fractional
  | boolean (value : Bool)
  | moment
  | array (items : List Toml)
  | table (origin : Toml.Origin) (members : List (String × Toml))
  /-- An array of tables under headers, the last one first. -/
  | tables (items : List (List (String × Toml)))
deriving Inhabited

namespace Toml

/-- The members of a table, in the order of their names' first appearance. -/
abbrev Members := List (String × Toml)

/-- Members with a value under a name, in place of the present one or behind all others. -/
def Members.insert (name : String) (value : Toml) : Members → Members
  | [] => [(name, value)]
  | member :: rest =>
    if member.1 = name then (name, value) :: rest else member :: Members.insert name value rest

/-- Goes down a path of names and changes the members at its end. On the way a missing table is made
with a given origin, a present one must have an admitted origin, and an array of tables is entered
at its last one. -/
def descend (made : Origin) (admits : Origin → Bool)
    (change : Origin → Members → Option Members) : (path : List String) → Origin → Members →
    Option Members
  | [], origin, members => change origin members
  | name :: rest, _, members =>
    match members.lookup name with
    | none => do
      let below ← descend made admits change rest made []
      return members.insert name (.table made below)
    | some (.table origin below) => do
      guard (admits origin)
      let below ← descend made admits change rest origin below
      return members.insert name (.table origin below)
    | some (.tables (last :: before)) => do
      let last ← descend made admits change rest .defined last
      return members.insert name (.tables (last :: before))
    | some _ => none

/-- Members with a value under a dotted key that has none. The table that holds it must itself have
been made by dotted keys unless the key has a single part. -/
def assign (key : List String) (value : Toml) (members : Members) : Option Members :=
  match key.getLast? with
  | none => none
  | some name =>
    let put (origin : Origin) (members : Members) : Option Members := do
      guard (key.length = 1 ∨ origin = .dotted)
      guard (members.lookup name).isNone
      return members.insert name value
    descend .dotted (fun origin ↦ origin = .passed ∨ origin = .dotted) put key.dropLast .defined
      members

/-- Goes down the path of a header, which passes through all tables but those between braces. -/
def underHeader (path : List String) (change : Members → Option Members) (root : Members) :
    Option Members :=
  descend .passed (· ≠ .complete) (fun _ members ↦ change members) path .defined root

/-- Defines the table that a header names. It may have been passed by other headers but not been
defined. -/
def openTable (path : List String) (root : Members) : Option Members :=
  match path.getLast? with
  | none => none
  | some name =>
    underHeader path.dropLast
      (fun members ↦
        match members.lookup name with
        | none => some (members.insert name (.table .defined []))
        | some (.table .passed below) => some (members.insert name (.table .defined below))
        | some _ => none)
      root

/-- Adds a table to the array of tables that a header names. -/
def openItem (path : List String) (root : Members) : Option Members :=
  match path.getLast? with
  | none => none
  | some name =>
    underHeader path.dropLast
      (fun members ↦
        match members.lookup name with
        | none => some (members.insert name (.tables [[]]))
        | some (.tables items) => some (members.insert name (.tables ([] :: items)))
        | some _ => none)
      root

/-- One statement of a document. -/
inductive Statement where
  | assignment (key : List String) (value : Toml)
  | tableHeader (path : List String)
  | itemHeader (path : List String)

/-- The path of the last header and the document so far, behind one more statement. An assignment
goes into the table of the last header. -/
def Statement.extend (header : List String) (root : Members) :
    Statement → Option (List String × Members)
  | assignment key value => return (header, ← underHeader header (assign key value) root)
  | tableHeader path => return (path, ← openTable path root)
  | itemHeader path => return (path, ← openItem path root)

/-- The document of some statements. -/
def build? (statements : List Statement) : Option Toml := do
  let (_, root) ← statements.foldlM (fun (header, root) statement ↦ statement.extend header root)
    (([] : List String), ([] : Members))
  return .table .defined root

end Toml

end RunLedger
