import RunLedger.Failure
import RunLedger.SortedMap
import RunLedger.Store.Chain

/-!
# The versioned store

A `Store` keeps a version chain for each key and the version of the last commit. Writes come in
commits of ascending versions (`Store.apply`), and readers ask for the state as of a version
(`Store.get?`, `Store.scanRange`, `Store.scanStem`). `Store.collect` drops what no reader at or
above a horizon can see; it looks only at the keys that may have such entries.
-/

set_option autoImplicit false

namespace RunLedger

/-- Version chains by key, the keys that may have entries to reclaim, and the version of the last
commit. -/
structure Store where
  chains : SortedMap Key VersionChain
  reclaimable : SortedSet Key
  version : Nat
deriving DecidableEq

namespace Store

/-- The store before the first commit. -/
def empty : Store := ⟨∅, ∅, 0⟩

instance : Inhabited Store := ⟨empty⟩

/-! ### Reading -/

/-- The value under a key as of a version. -/
def get? (store : Store) (key : Key) (version : Nat) : Option VersionedValue :=
  store.chains.get? key >>= (·.valueAt? version)

/-- The version of the entry under a key as of a version, deletions included; zero if there is
none. -/
def keyVersion (store : Store) (key : Key) (version : Nat) : Nat :=
  match store.chains.get? key >>= (·.entryAt? version) with
  | none => 0
  | some entry => entry.version

/-- The version of the newest entry under a key, deletions included; zero if there is none. -/
def newestVersion (store : Store) (key : Key) : Nat :=
  match store.chains.get? key >>= VersionChain.latest? with
  | none => 0
  | some entry => entry.version

/-- The values of chains as of a version, with their keys. -/
def visible (version : Nat) (chains : List (Key × VersionChain)) :
    List (Key × VersionedValue) :=
  chains.filterMap fun (key, chain) ↦ (chain.valueAt? version).map (key, ·)

/-- The values under the keys from `first` up to but not including `last`, as of a version, in key
order. -/
def scanRange (store : Store) (first last : Key) (version : Nat) : List (Key × VersionedValue) :=
  if first < last then
    let behind := store.chains.toList.dropWhile fun entry ↦ entry.1 < first
    visible version (behind.takeWhile fun entry ↦ entry.1 < last)
  else []

/-- The values under the keys that start with `stem`, as of a version, in key order. -/
def scanStem (store : Store) (stem : Key) (version : Nat) : List (Key × VersionedValue) :=
  let behind := store.chains.toList.dropWhile fun entry ↦ entry.1 < stem
  visible version (behind.takeWhile fun entry ↦ entry.1.startsWith stem)

/-- The number of keys with a chain, those of deleted keys included. -/
def keyCount (store : Store) : Nat := store.chains.size

/-- All values as of the last commit, in key order. -/
def contents (store : Store) : List (Key × VersionedValue) :=
  visible store.version store.chains.toList

/-! ### Writing -/

/-- A value under a key at a version. A key that had a chain before may now have something to
reclaim. -/
def write (store : Store) (version : Nat) (key : Key) (value : Value) : Store :=
  match store.chains.get? key with
  | some chain =>
    { store with
      chains := store.chains.insert key (chain.push ⟨version, some value⟩)
      reclaimable := store.reclaimable.insert key () }
  | none =>
    { store with chains := store.chains.insert key (.single ⟨version, some value⟩) }

/-- A tombstone under a key at a version. A key without a chain needs none. -/
def delete (store : Store) (version : Nat) (key : Key) : Store :=
  match store.chains.get? key with
  | some chain =>
    { store with
      chains := store.chains.insert key (chain.push ⟨version, none⟩)
      reclaimable := store.reclaimable.insert key () }
  | none => store

/-- The writes and deletions of one commit. Its version must be above that of the last one. -/
def apply (store : Store) (writes : List (Key × Value)) (deletes : List Key) (version : Nat) :
    Except Outage Store :=
  if version ≤ store.version then .error (.staleVersion version store.version)
  else
    let written := writes.foldl (fun store (key, value) ↦ store.write version key value) store
    let deleted := deletes.foldl (fun store key ↦ store.delete version key) written
    .ok { deleted with version }

/-! ### Reclaiming -/

/-- Trims the chain of one key, and drops it if it is dead. Adds the number of entries reclaimed to
the count, and forgets the key unless it may have something to reclaim later. -/
def collectKey (horizon : Nat) (progress : Nat × Store) (key : Key) : Nat × Store :=
  let (count, store) := progress
  match store.chains.get? key with
  | none => (count, { store with reclaimable := store.reclaimable.erase key })
  | some chain =>
    let trimmed := chain.trim horizon
    let reclaimed := count + (chain.size - trimmed.size)
    if trimmed.isDead horizon then
      (reclaimed + 1,
        { store with
          chains := store.chains.erase key
          reclaimable := store.reclaimable.erase key })
    else
      (reclaimed,
        { store with
          chains := store.chains.insert key trimmed
          reclaimable :=
            if trimmed.isPending then store.reclaimable else store.reclaimable.erase key })

/-- Drops what no reader at or above a horizon can see, and tells how many entries that were. -/
def collect (store : Store) (horizon : Nat) : Nat × Store :=
  store.reclaimable.keys.foldl (collectKey horizon) (0, store)

end Store

end RunLedger
