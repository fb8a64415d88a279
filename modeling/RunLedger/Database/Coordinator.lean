import RunLedger.Transaction.Commit

/-!
# Coordination of transactions

A `Coordinator` numbers transactions, counts how they end, and keeps for each version how many live
transactions read it. The least of these versions is the horizon below which nothing is read any
more; without live transactions it is the version of the store.
-/

set_option autoImplicit false

namespace RunLedger

/-- The next transaction number, how many live transactions read each version, and how many
transactions were started, committed, aborted, and aborted for a conflict. -/
structure Coordinator where
  nextId : Nat
  active : SortedMap Nat Nat
  started : Nat
  committed : Nat
  aborted : Nat
  conflicts : Nat
deriving DecidableEq

namespace Coordinator

/-- The coordinator before the first transaction. -/
def initial : Coordinator := ⟨1, ∅, 0, 0, 0, 0⟩

instance : Inhabited Coordinator := ⟨initial⟩

/-- A transaction on the snapshot of a version, and the coordinator that knows of it. -/
def begin (coordinator : Coordinator) (version : Nat) : Transaction × Coordinator :=
  let readers := (coordinator.active.get? version).getD 0
  (.onSnapshot coordinator.nextId version,
    { coordinator with
      nextId := coordinator.nextId + 1
      active := coordinator.active.insert version (readers + 1)
      started := coordinator.started + 1 })

/-- One reader of a version less. -/
def release (coordinator : Coordinator) (version : Nat) : Coordinator :=
  match coordinator.active.get? version with
  | none => coordinator
  | some readers =>
    { coordinator with
      active :=
        if readers ≤ 1 then coordinator.active.erase version
        else coordinator.active.insert version (readers - 1) }

/-- The least version that a live transaction reads, or else the given one. -/
def horizon (coordinator : Coordinator) (current : Nat) : Nat :=
  coordinator.active.keys.head?.getD current

/-- Counts a transaction as committed. -/
def countCommit (coordinator : Coordinator) : Coordinator :=
  { coordinator with committed := coordinator.committed + 1 }

/-- Counts a transaction as aborted. -/
def countAbort (coordinator : Coordinator) : Coordinator :=
  { coordinator with aborted := coordinator.aborted + 1 }

/-- Counts a transaction as aborted, and as a conflict if it was one. -/
def countFailure (coordinator : Coordinator) (failure : CommitFailure) : Coordinator :=
  { coordinator.countAbort with
    conflicts := coordinator.conflicts + if failure.isConflict then 1 else 0 }

/-- How many transactions have ended. -/
def completed (coordinator : Coordinator) : Nat := coordinator.committed + coordinator.aborted

/-- A part of the transactions started, zero before the first. -/
def rate (coordinator : Coordinator) (part : Nat) : Float :=
  if coordinator.started = 0 then 0 else part.toFloat / coordinator.started.toFloat

/-- The part of the transactions that were committed. -/
def commitRate (coordinator : Coordinator) : Float := coordinator.rate coordinator.committed

/-- The part of the transactions that were aborted. -/
def abortRate (coordinator : Coordinator) : Float := coordinator.rate coordinator.aborted

end Coordinator

end RunLedger
