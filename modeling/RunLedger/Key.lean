import RunLedger.Text

/-!
# Storage keys

Every stored entry lies under a `Key`: a family, which says what kind of entry it is, and bytes,
which say which one. The families are spread over two tables. Keys are ordered by table and family
and then byte by byte, so entries of one family are neighbours and so are all keys that begin with
the same bytes (`Key.startsWith`).
-/

set_option autoImplicit false

namespace RunLedger

open Std (TransOrd TransCmp LawfulEqOrd)

/-- What kind of entry a key is for. -/
inductive Family where
  /-- Run records. -/
  | run
  /-- Entries of the status index. -/
  | runByStatus
  /-- States of workflow nodes. -/
  | nodeState
  /-- Tokens of workflow runs. -/
  | workflowToken
  /-- Summaries of completed workflow runs. -/
  | workflowRun
deriving DecidableEq, Inhabited

namespace Family

/-- All families in ascending order. -/
def all : List Family := [run, runByStatus, nodeState, workflowToken, workflowRun]

/-- The place of a family in the key order. -/
def rank : Family → Nat
  | run => 0
  | runByStatus => 1
  | nodeState => 2
  | workflowToken => 3
  | workflowRun => 4

/-- The name of a family. -/
def name : Family → String
  | run => "Run"
  | runByStatus => "RunByStatus"
  | nodeState => "NodeState"
  | workflowToken => "WorkflowToken"
  | workflowRun => "WorkflowRun"

/-- The family with a given name. -/
def ofName? (text : String) : Option Family := all.find? fun family ↦ family.name = text

/-- The name of the table that holds a family: summaries have a table of their own. -/
def tableName : Family → String
  | run | runByStatus | nodeState | workflowToken => "AppMeta"
  | workflowRun => "WorkflowStats"

theorem rank_injective {first second : Family} (hrank : first.rank = second.rank) :
    first = second := by
  revert hrank
  cases first <;> cases second <;> decide

end Family

/-- The place of a stored entry. -/
structure Key where
  family : Family
  bytes : List UInt8
deriving DecidableEq, Inhabited

namespace Key

/-- By family and then byte by byte, a shorter key before its continuations. -/
instance : Ord Key := ⟨compareLex (compareOn fun key ↦ key.family.rank) (compareOn Key.bytes)⟩

instance : TransOrd Key :=
  inferInstanceAs (TransCmp (compareLex (compareOn fun key : Key ↦ key.family.rank)
    (compareOn Key.bytes)))

theorem compare_eq (first second : Key) :
    compare first second =
      (compare first.family.rank second.family.rank).then (compare first.bytes second.bytes) :=
  rfl

instance : LawfulEqOrd Key where
  eq_of_compare {first second} hequal := by
    rw [compare_eq, Ordering.then_eq_eq] at hequal
    obtain ⟨hfamily, hbytes⟩ := hequal
    cases first
    cases second
    rw [Key.mk.injEq]
    exact ⟨Family.rank_injective (Std.LawfulEqOrd.eq_of_compare hfamily),
      Std.LawfulEqOrd.eq_of_compare hbytes⟩

instance : LT Key := ⟨fun first second ↦ compare first second = .lt⟩

instance (first second : Key) : Decidable (first < second) :=
  inferInstanceAs (Decidable (compare first second = .lt))

/-- Whether a key is in the family of `stem` and its bytes begin with those of `stem`. -/
def startsWith (key stem : Key) : Bool :=
  key.family = stem.family && stem.bytes.isPrefixOf key.bytes

/-- Whether `first ≤ key < last`. -/
def isBetween (first last key : Key) : Bool := !decide (key < first) && decide (key < last)

/-- A byte of a key as a text shows it: visible ASCII characters as they are, all others as two
hexadecimal digits. -/
def byteText (byte : UInt8) : List Char :=
  if 0x21 ≤ byte ∧ byte ≤ 0x7e then [Char.ofNat byte.toNat]
  else '\\' :: 'x' :: Text.byteCharacters byte

/-- The table, the family and the bytes of a key. -/
def text (key : Key) : String :=
  "Key(" ++ key.family.tableName ++ "/" ++ key.family.name ++ "/" ++
    String.ofList (key.bytes.flatMap byteText) ++ ")"

instance : ToString Key := ⟨text⟩

end Key

end RunLedger
