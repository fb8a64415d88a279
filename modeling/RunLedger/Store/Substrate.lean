import RunLedger.Store

/-!
# Stores that may fail

A `Substrate` is a store as its users reach it: each read and each application of writes may fail,
as planned by their serial number. A failed read tells nothing and a failed application changes
nothing. Asking for the version of the store and reclaiming never fail.
-/

set_option autoImplicit false

namespace RunLedger

/-- A store and a plan of failures: which of the reads and which of the applications fail, counted
from zero. -/
structure Substrate where
  store : Store
  failsRead : Nat → Bool
  failsWrite : Nat → Bool
  readCount : Nat
  writeCount : Nat
  /-- How many failures have come to pass. -/
  failureCount : Nat

namespace Substrate

/-- A store that never fails. -/
def reliable (store : Store) : Substrate :=
  { store, failsRead := fun _ ↦ false, failsWrite := fun _ ↦ false, readCount := 0,
    writeCount := 0, failureCount := 0 }

instance : Inhabited Substrate := ⟨reliable .empty⟩

/-- From now on every read fails, or none. -/
def setReadFailure (substrate : Substrate) (fails : Bool) : Substrate :=
  { substrate with failsRead := fun _ ↦ fails }

/-- From now on every application of writes fails, or none. -/
def setWriteFailure (substrate : Substrate) (fails : Bool) : Substrate :=
  { substrate with failsWrite := fun _ ↦ fails }

/-- A read of the store, unless it is planned to fail. -/
def read {α : Type} (substrate : Substrate) (outage : Outage) (answer : Store → α) :
    Except Outage α × Substrate :=
  let issued := { substrate with readCount := substrate.readCount + 1 }
  if substrate.failsRead substrate.readCount then
    (.error outage, { issued with failureCount := substrate.failureCount + 1 })
  else (.ok (answer substrate.store), issued)

/-- The value under a key as of a version. -/
def get (substrate : Substrate) (key : Key) (version : Nat) :
    Except Outage (Option VersionedValue) × Substrate :=
  substrate.read .plannedRead (·.get? key version)

/-- The version of the entry under a key as of a version. -/
def keyVersion (substrate : Substrate) (key : Key) (version : Nat) :
    Except Outage Nat × Substrate :=
  substrate.read .plannedRead (·.keyVersion key version)

/-- The version of the newest entry under a key. -/
def newestVersion (substrate : Substrate) (key : Key) : Except Outage Nat × Substrate :=
  substrate.read .plannedRead (·.newestVersion key)

/-- The values under the keys from `first` up to but not including `last`, as of a version. -/
def scanRange (substrate : Substrate) (first last : Key) (version : Nat) :
    Except Outage (List (Key × VersionedValue)) × Substrate :=
  substrate.read .plannedScan (·.scanRange first last version)

/-- The values under the keys that start with `stem`, as of a version. -/
def scanStem (substrate : Substrate) (stem : Key) (version : Nat) :
    Except Outage (List (Key × VersionedValue)) × Substrate :=
  substrate.read .plannedScan (·.scanStem stem version)

/-- The writes and deletions of one commit. -/
def apply (substrate : Substrate) (writes : List (Key × Value)) (deletes : List Key)
    (version : Nat) : Except Outage Unit × Substrate :=
  let issued := { substrate with writeCount := substrate.writeCount + 1 }
  if substrate.failsWrite substrate.writeCount then
    (.error .plannedWrite, { issued with failureCount := substrate.failureCount + 1 })
  else
    match substrate.store.apply writes deletes version with
    | .error outage => (.error outage, issued)
    | .ok store => (.ok (), { issued with store })

/-- Drops what no reader at or above a horizon can see. -/
def collect (substrate : Substrate) (horizon : Nat) : Nat × Substrate :=
  let (count, store) := substrate.store.collect horizon
  (count, { substrate with store })

end Substrate

end RunLedger
