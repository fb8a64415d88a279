import RunLedger.Transaction

/-!
# Commits

A transaction commits in two steps. Validation asks whether any entry it read has another version by
now (`Transaction.conflicts`); if so, or if the store cannot tell, the transaction is aborted and
its buffers are dropped. Then its writes and deletions are applied under the version behind that of
the store. A transaction that buffers nothing is neither validated nor applied.

Validation comes first and application follows at once, so what a committing transaction read still
holds when its writes appear.
-/

set_option autoImplicit false

namespace RunLedger

/-- An entry that has changed since it was read. -/
structure Conflict where
  key : Key
  readVersion : Nat
  currentVersion : Nat
deriving DecidableEq, Inhabited

/-- Why a transaction was not committed. -/
inductive CommitFailure where
  | conflicts (found : List Conflict)
  | inactive (inactivity : Inactivity)
  | outage (cause : Outage)
deriving DecidableEq, Inhabited

namespace CommitFailure

/-- The failure in words. -/
def message : CommitFailure → String
  | conflicts found =>
    "Commit failed: " ++ toString found.length ++ " conflict(s) detected"
  | inactive inactivity => "Invalid state: " ++ inactivity.message
  | outage cause => "Storage failure during commit: " ++ (Failure.storeUnavailable cause).message

/-- The failure as users of the database see it. -/
def toFailure : CommitFailure → Failure
  | conflicts found => .writeConflict (.onReads found.length)
  | inactive inactivity => .transactionNotActive inactivity
  | outage cause => .storeUnavailable (.duringCommit cause)

/-- Whether the transaction failed for what others have committed since. -/
def isConflict : CommitFailure → Bool
  | conflicts _ => true
  | _ => false

end CommitFailure

/-- The version behind a given one; versions are 64-bit numbers and wrap around. -/
def nextVersion (version : Nat) : Nat := (version + 1) % UInt64.size

namespace Transaction

/-! ### Validation -/

/-- The reads whose entries have another version by now, in key order. -/
def conflictsOf : List (Key × Nat) → Substrate → Except Outage (List Conflict) × Substrate
  | [], substrate => (.ok [], substrate)
  | (key, readVersion) :: rest, substrate =>
    match substrate.newestVersion key with
    | (.error outage, substrate) => (.error outage, substrate)
    | (.ok currentVersion, substrate) =>
      match conflictsOf rest substrate with
      | (.error outage, substrate) => (.error outage, substrate)
      | (.ok conflicts, substrate) =>
        (.ok (if currentVersion = readVersion then conflicts
          else ⟨key, readVersion, currentVersion⟩ :: conflicts), substrate)

/-- The conflicts of a transaction; one that buffers nothing has none. -/
def conflicts (transaction : Transaction) (substrate : Substrate) :
    Except Outage (List Conflict) × Substrate :=
  if transaction.isReadOnly then (.ok [], substrate)
  else conflictsOf transaction.reads.toList substrate

/-! ### Changes of status -/

/-- An active transaction enters validation. -/
def beginValidation (transaction : Transaction) : Except CommitFailure Transaction :=
  if transaction.isActive then .ok { transaction with status := .validating }
  else .error (.inactive (.validated transaction.id transaction.status))

/-- A validated transaction counts as committed. -/
def endValidation (transaction : Transaction) : Except CommitFailure Transaction :=
  if transaction.status = .validating then .ok { transaction with status := .committed }
  else .error (.inactive (.committed transaction.id transaction.status))

/-- Aborts a transaction that is not committed, and drops its buffers. -/
def abort (transaction : Transaction) (reason : String) : Except CommitFailure Transaction :=
  if transaction.isCommitted then .error (.inactive (.aborted transaction.id))
  else .ok { transaction with writes := ∅, deletes := ∅, status := .aborted reason }

/-- The transaction after an attempt to abort it. -/
def aborted (transaction : Transaction) (reason : String) : Transaction :=
  match transaction.abort reason with
  | .ok transaction => transaction
  | .error _ => transaction

/-! ### Committing -/

/-- Validates an active transaction, and aborts it if anything it read has changed or cannot be
read. -/
def validate (transaction : Transaction) (substrate : Substrate) :
    Except CommitFailure Unit × Transaction × Substrate :=
  match transaction.beginValidation with
  | .error failure => (.error failure, transaction, substrate)
  | .ok transaction =>
    match transaction.conflicts substrate with
    | (.error outage, substrate) =>
      let reason := "validation read failed: " ++ (Failure.storeUnavailable outage).message
      (.error (.outage outage), transaction.aborted reason, substrate)
    | (.ok [], substrate) =>
      match transaction.endValidation with
      | .error failure => (.error failure, transaction, substrate)
      | .ok transaction => (.ok (), transaction, substrate)
    | (.ok conflicts, substrate) =>
      let reason := "commit failed: " ++ toString conflicts.length ++ " conflict(s)"
      (.error (.conflicts conflicts), transaction.aborted reason, substrate)

/-- Applies the buffered writes and deletions under a version. -/
def applyBuffers (transaction : Transaction) (substrate : Substrate) (version : Nat) :
    Except Outage Unit × Substrate :=
  substrate.apply transaction.writes.toList transaction.deletes.keys version

/-- Validates a transaction and applies its buffers; gives the version of the commit. A failed
application leaves the transaction aborted. -/
def commit (transaction : Transaction) (substrate : Substrate) :
    Except CommitFailure Nat × Transaction × Substrate :=
  match transaction.validate substrate with
  | (.error failure, transaction, substrate) => (.error failure, transaction, substrate)
  | (.ok (), transaction, substrate) =>
    if transaction.isReadOnly then (.ok substrate.store.version, transaction, substrate)
    else
      let version := nextVersion substrate.store.version
      match transaction.applyBuffers substrate version with
      | (.ok (), substrate) => (.ok version, transaction, substrate)
      | (.error outage, substrate) =>
        let reason := "storage apply failed: " ++ (Failure.storeUnavailable outage).message
        (.error (.outage outage), { transaction with status := .aborted reason }, substrate)

/-- Commits a transaction, and leaves it committed or aborted. -/
def commitOrAbort (transaction : Transaction) (substrate : Substrate) :
    Except CommitFailure Nat × Transaction × Substrate :=
  match transaction.commit substrate with
  | (.ok version, transaction, substrate) => (.ok version, transaction, substrate)
  | (.error failure, transaction, substrate) =>
    if transaction.isAborted || transaction.isCommitted then
      (.error failure, transaction, substrate)
    else
      (.error failure, transaction.aborted ("Commit failed: " ++ failure.message), substrate)

end Transaction

end RunLedger
