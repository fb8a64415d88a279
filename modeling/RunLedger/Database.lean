import RunLedger.Config
import RunLedger.Database.Coordinator
import RunLedger.Transaction.Script

/-!
# The database

A `Database` is a store with a coordinator of transactions. A commit is followed by a collection of
what no live transaction can read. `Database.attempt` runs an operation in a transaction of its own
and commits it, or aborts it if the operation fails; `Database.retrying` does so again as long as
the commit meets a conflict and the policy allows another attempt, each time on a fresh snapshot.

What an attempt does (`Attempt`) may reach beyond its transaction: other transactions may come and
go on the same database meanwhile, and `σ` is whatever else its caller keeps. A script uses its own
transaction alone (`Script.toAttempt`).
-/

set_option autoImplicit false

namespace RunLedger

/-- A store that may fail, the coordinator of its transactions, and settings. -/
structure Database where
  substrate : Substrate
  coordinator : Coordinator
  config : Config

/-- What is done with an open transaction. -/
abbrev Attempt (σ α : Type) :=
  Transaction → Database → σ → Except Failure α × Transaction × Database × σ

/-- A script as an attempt. -/
def Script.toAttempt {σ α : Type} (script : Script α) : Attempt σ α :=
  fun transaction database environment ↦
    let (outcome, transaction, substrate) := script.run transaction database.substrate
    (outcome, transaction, { database with substrate }, environment)

namespace Database

variable {σ α : Type}

/-- A database over a substrate, with settings that make sense. -/
def ofSubstrate (substrate : Substrate) (config : Config) : Except Failure Database :=
  match config.check with
  | .error failure => .error failure
  | .ok () => .ok { substrate, coordinator := .initial, config }

/-- An empty database with the standard settings. -/
def ephemeral : Database :=
  { substrate := .reliable .empty, coordinator := .initial, config := .standard }

instance : Inhabited Database := ⟨ephemeral⟩

/-- The version of the store and the settings in one line. -/
def text (database : Database) : String :=
  "Database \x7b version: " ++ toString database.substrate.store.version ++ ", config: " ++
    database.config.text ++ " \x7d"

instance : ToString Database := ⟨text⟩

/-! ### Transactions -/

/-- A transaction on a snapshot of the present state. -/
def begin (database : Database) : Transaction × Database :=
  let (transaction, coordinator) :=
    database.coordinator.begin database.substrate.store.version
  (transaction, { database with coordinator })

/-- The end of the life of a transaction: its snapshot is read no more. -/
def release (database : Database) (transaction : Transaction) : Database :=
  match transaction.snapshot? with
  | none => database
  | some version => { database with coordinator := database.coordinator.release version }

/-- The version below which nothing is read any more. -/
def horizon (database : Database) : Nat :=
  database.coordinator.horizon database.substrate.store.version

/-- Drops what no live transaction can read, and tells how many entries that were. -/
def collect (database : Database) : Nat × Database :=
  let (count, substrate) := database.substrate.collect database.horizon
  (count, { database with substrate })

/-- Commits a transaction and counts how it ended. -/
def commit (database : Database) (transaction : Transaction) :
    Except Failure Nat × Transaction × Database :=
  match transaction.commitOrAbort database.substrate with
  | (.ok version, transaction, substrate) =>
    let coordinator := database.coordinator.countCommit
    let (_, database) := { database with substrate, coordinator : Database }.collect
    (.ok version, transaction, database)
  | (.error failure, transaction, substrate) =>
    let coordinator := database.coordinator.countFailure failure
    (.error failure.toFailure, transaction, { database with substrate, coordinator })

/-- Ends a transaction as its operation ended: a result is given only if the commit succeeds, and a
failed operation is aborted. -/
def conclude (database : Database) (transaction : Transaction) (outcome : Except Failure α) :
    Except Failure α × Transaction × Database :=
  match outcome with
  | .ok result =>
    match database.commit transaction with
    | (.ok _, transaction, database) => (.ok result, transaction, database)
    | (.error failure, transaction, database) => (.error failure, transaction, database)
  | .error failure =>
    (.error failure, transaction.aborted ("Closure error: " ++ failure.message),
      { database with coordinator := database.coordinator.countAbort })

/-- An operation in a transaction of its own. -/
def attempt (body : Attempt σ α) (database : Database) (environment : σ) :
    Except Failure α × Database × σ :=
  let (transaction, database) := database.begin
  let (outcome, transaction, database, environment) := body transaction database environment
  let (outcome, transaction, database) := database.conclude transaction outcome
  (outcome, database.release transaction, environment)

/-- An operation in a transaction of its own, with so many further attempts after conflicts. -/
def retrying (body : Attempt σ α) (maxRetries : Nat) (database : Database) (environment : σ) :
    Except Failure α × Database × σ :=
  match database.attempt body environment, maxRetries with
  | (.ok result, database, environment), _ => (.ok result, database, environment)
  | (.error failure, database, environment), 0 => (.error failure, database, environment)
  | (.error failure, database, environment), left + 1 =>
    if failure.isConflict then retrying body left database environment
    else (.error failure, database, environment)

/-- A script in a transaction of its own. -/
def transact (database : Database) (script : Script α) : Except Failure α × Database :=
  let (outcome, database, ()) := database.attempt script.toAttempt ()
  (outcome, database)

/-- A script in a transaction of its own, tried again after conflicts as a policy says. -/
def transactRetrying (database : Database) (policy : RetryPolicy) (script : Script α) :
    Except Failure α × Database :=
  let (outcome, database, ()) := database.retrying script.toAttempt policy.maxRetries ()
  (outcome, database)

end Database

end RunLedger
