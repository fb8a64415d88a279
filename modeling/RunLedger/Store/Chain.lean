import RunLedger.Value

/-!
# Version chains

All that is known of one key is a `VersionChain`: what each commit wrote there, the newest first. A
deletion is an entry too, a tombstone. A reader at a version sees the newest entry that is not above
it (`VersionChain.entryAt?`), so once no reader is below a horizon, all entries behind the newest
one at or below the horizon can go (`VersionChain.trim`), and a chain of nothing but such a
tombstone can go as a whole (`VersionChain.isDead`).
-/

set_option autoImplicit false

namespace RunLedger

/-- What one commit wrote under a key; without a value it deleted the key. -/
structure VersionEntry where
  version : Nat
  value? : Option Value
deriving DecidableEq, Inhabited

namespace VersionEntry

/-- Whether the entry deletes its key. -/
def isTombstone (entry : VersionEntry) : Bool := entry.value?.isNone

/-- The value of the entry with its version, if it has one. -/
def versioned? (entry : VersionEntry) : Option VersionedValue :=
  entry.value?.map fun value ↦ ⟨value, entry.version⟩

end VersionEntry

/-- What commits wrote under one key, the newest first. -/
structure VersionChain where
  entries : List VersionEntry
deriving DecidableEq, Inhabited

namespace VersionChain

/-- The chain of a single entry. -/
def single (entry : VersionEntry) : VersionChain := ⟨[entry]⟩

/-- The chain with a newer entry in front. -/
def push (chain : VersionChain) (entry : VersionEntry) : VersionChain := ⟨entry :: chain.entries⟩

/-- The newest entry at or below a version. -/
def entryAt? (chain : VersionChain) (version : Nat) : Option VersionEntry :=
  chain.entries.find? fun entry ↦ entry.version ≤ version

/-- The newest entry. -/
def latest? (chain : VersionChain) : Option VersionEntry := chain.entries.head?

/-- The value that a reader at a version sees. -/
def valueAt? (chain : VersionChain) (version : Nat) : Option VersionedValue :=
  chain.entryAt? version >>= VersionEntry.versioned?

/-- The number of entries. -/
def size (chain : VersionChain) : Nat := chain.entries.length

/-- What readers at or above a horizon can see: the entries above it and the newest one that is
not. -/
def trim (chain : VersionChain) (horizon : Nat) : VersionChain :=
  let isAbove (entry : VersionEntry) : Bool := horizon < entry.version
  ⟨chain.entries.takeWhile isAbove ++ (chain.entries.dropWhile isAbove).take 1⟩

/-- Whether the chain is a single tombstone at or below a horizon. -/
def isDead (chain : VersionChain) (horizon : Nat) : Bool :=
  match chain.entries with
  | [entry] => entry.isTombstone && entry.version ≤ horizon
  | _ => false

/-- Whether later collections may find something to reclaim in the chain: it has more than one
entry, or its newest is a tombstone. -/
def isPending (chain : VersionChain) : Bool :=
  1 < chain.size || chain.latest?.any VersionEntry.isTombstone

end VersionChain

end RunLedger
