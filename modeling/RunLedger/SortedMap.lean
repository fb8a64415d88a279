/-!
# Finite maps in key order

A `SortedMap` is a list of entries whose keys ascend strictly, so that a map with given contents is
one value and listing it needs no sorting. Insertion replaces an entry of the same key
(`SortedMap.insert`), erasure removes it (`SortedMap.erase`), and `SortedMap.get?` is the view: what
an operation does to a map is said by what it does to `get?`.

A set of keys is a map to the unit type.
-/

set_option autoImplicit false

namespace RunLedger

open Std (TransOrd LawfulEqOrd OrientedCmp TransCmp)

/-- Entries in strictly ascending key order. -/
structure SortedMap (α β : Type) [Ord α] where
  entries : List (α × β)
  sorted : entries.Pairwise fun first second ↦ compare first.1 second.1 = .lt
deriving DecidableEq

namespace SortedMap

variable {α β γ : Type} [Ord α]

/-- Insertion into an ascending list: before the first larger key, in place of an equal one. -/
def insertEntry (key : α) (value : β) : List (α × β) → List (α × β)
  | [] => [(key, value)]
  | entry :: rest =>
    match compare key entry.1 with
    | .lt => (key, value) :: entry :: rest
    | .eq => (key, value) :: rest
    | .gt => entry :: insertEntry key value rest

theorem mem_insertEntry {key : α} {value : β} {entry : α × β} {entries : List (α × β)}
    (hentry : entry ∈ insertEntry key value entries) : entry = (key, value) ∨ entry ∈ entries := by
  induction entries with
  | nil => simpa [insertEntry] using hentry
  | cons head rest ih =>
    unfold insertEntry at hentry
    split at hentry <;> grind

variable [TransOrd α]

theorem pairwise_insertEntry (key : α) (value : β) {entries : List (α × β)}
    (hsorted : entries.Pairwise fun first second ↦ compare first.1 second.1 = .lt) :
    (insertEntry key value entries).Pairwise
      fun first second ↦ compare first.1 second.1 = .lt := by
  induction entries with
  | nil => simp [insertEntry]
  | cons head rest ih =>
    obtain ⟨hhead, hrest⟩ := List.pairwise_cons.mp hsorted
    unfold insertEntry
    split
    · rename_i hlt
      refine List.pairwise_cons.mpr ⟨fun entry hentry ↦ ?_, hsorted⟩
      rcases List.mem_cons.mp hentry with rfl | hentry
      · exact hlt
      · exact TransCmp.lt_trans hlt (hhead entry hentry)
    · rename_i heq
      exact List.pairwise_cons.mpr
        ⟨fun entry hentry ↦ (TransCmp.congr_left heq).trans (hhead entry hentry), hrest⟩
    · rename_i hgt
      refine List.pairwise_cons.mpr ⟨fun entry hentry ↦ ?_, ih hrest⟩
      rcases mem_insertEntry hentry with rfl | hentry
      · exact OrientedCmp.gt_iff_lt.mp hgt
      · exact hhead entry hentry

/-- The map without entries. -/
def empty : SortedMap α β := ⟨[], .nil⟩

instance : EmptyCollection (SortedMap α β) := ⟨empty⟩

instance : Inhabited (SortedMap α β) := ⟨empty⟩

/-- The value of the first entry with a key. -/
def lookup (key : α) (entries : List (α × β)) : Option β :=
  (entries.find? fun entry ↦ compare key entry.1 == .eq).map Prod.snd

/-- The value under a key, if there is one. -/
def get? (map : SortedMap α β) (key : α) : Option β := lookup key map.entries

/-- Whether a key has a value. -/
def contains (map : SortedMap α β) (key : α) : Bool := (map.get? key).isSome

/-- The map with `value` under `key`, whatever was there before. -/
def insert (map : SortedMap α β) (key : α) (value : β) : SortedMap α β :=
  ⟨insertEntry key value map.entries, pairwise_insertEntry key value map.sorted⟩

/-- The map with `value` under `key` unless the key already has a value. -/
def insertIfNew (map : SortedMap α β) (key : α) (value : β) : SortedMap α β :=
  if map.contains key then map else map.insert key value

/-- The entries that pass a test. -/
def filter (map : SortedMap α β) (keep : α → β → Bool) : SortedMap α β :=
  ⟨map.entries.filter fun entry ↦ keep entry.1 entry.2, map.sorted.filter _⟩

/-- The map without `key`. -/
def erase (map : SortedMap α β) (key : α) : SortedMap α β :=
  map.filter fun other _ ↦ compare key other != .eq

/-- The entries, ascending by key. -/
def toList (map : SortedMap α β) : List (α × β) := map.entries

/-- The keys in ascending order. -/
def keys (map : SortedMap α β) : List α := map.entries.map Prod.fst

/-- The number of entries. -/
def size (map : SortedMap α β) : Nat := map.entries.length

/-- Whether there are no entries. -/
def isEmpty (map : SortedMap α β) : Bool := map.entries.isEmpty

/-- The map holding the given entries; of two with one key the later stays. -/
def ofList (entries : List (α × β)) : SortedMap α β :=
  entries.foldl (fun map entry ↦ map.insert entry.1 entry.2) empty

end SortedMap

/-- A set of keys in ascending order. -/
abbrev SortedSet (α : Type) [Ord α] := SortedMap α Unit

end RunLedger
