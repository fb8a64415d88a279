import RunLedger.Transaction

/-!
# Scripts of transactions

A `Script` is what an operation does in a transaction, as a tree: it asks for one access, goes on as
the answer says, and ends with a result or a failure. It touches the store in no other way, so what
it does is settled by the answers it gets (`Script.run`). Scripts are put together by `bind`, which
passes failures on; `Script.attempt` turns a failure into a result.
-/

set_option autoImplicit false

namespace RunLedger

/-- What an operation does in a transaction. -/
inductive Script (α : Type) where
  | finish (outcome : Except Failure α)
  | get (key : Key) (next : Except Failure (Option Value) → Script α)
  | scanStem (stem : Key) (next : Except Failure (List (Key × Value)) → Script α)
  | scanRange (first last : Key) (next : Except Failure (List (Key × Value)) → Script α)
  | put (key : Key) (value : Value) (next : Except Failure Unit → Script α)
  | delete (key : Key) (next : Except Failure Unit → Script α)

namespace Script

variable {α β : Type}

instance : Inhabited (Script α) := ⟨finish (.error default)⟩

/-- One script and then the other, which goes on with the outcome of the first. -/
def followedBy : Script α → (Except Failure α → Script β) → Script β
  | finish outcome, continuation => continuation outcome
  | get key next, continuation => get key fun answer ↦ (next answer).followedBy continuation
  | scanStem stem next, continuation =>
    scanStem stem fun answer ↦ (next answer).followedBy continuation
  | scanRange first last next, continuation =>
    scanRange first last fun answer ↦ (next answer).followedBy continuation
  | put key value next, continuation =>
    put key value fun answer ↦ (next answer).followedBy continuation
  | delete key next, continuation =>
    delete key fun answer ↦ (next answer).followedBy continuation

/-- One script and then the other with its result; a failure of the first is the outcome. -/
def bind (script : Script α) (continuation : α → Script β) : Script β :=
  script.followedBy fun
    | .ok result => continuation result
    | .error failure => finish (.error failure)

instance : Monad Script where
  pure result := finish (.ok result)
  bind := bind

instance : MonadExceptOf Failure Script where
  throw failure := finish (.error failure)
  tryCatch script handler := script.followedBy fun
    | .ok result => finish (.ok result)
    | .error failure => handler failure

/-- The outcome of a script as a result. -/
def attempt (script : Script α) : Script (Except Failure α) :=
  script.followedBy fun outcome ↦ finish (.ok outcome)

/-! ### Accesses -/

/-- The value under a key. -/
def read (key : Key) : Script (Option Value) := get key finish

/-- The values under the keys that start with `stem`, in key order. -/
def readStem (stem : Key) : Script (List (Key × Value)) := scanStem stem finish

/-- The values under the keys from `first` up to but not including `last`, in key order. -/
def readRange (first last : Key) : Script (List (Key × Value)) := scanRange first last finish

/-- Writes a value under a key. -/
def write (key : Key) (value : Value) : Script Unit := put key value finish

/-- Deletes a key. -/
def erase (key : Key) : Script Unit := delete key finish

/-! ### Running -/

/-- What a script does in a transaction over a substrate. -/
def run : Script α → Transaction → Substrate → Except Failure α × Transaction × Substrate
  | finish outcome, transaction, substrate => (outcome, transaction, substrate)
  | get key next, transaction, substrate =>
    let (answer, transaction, substrate) := transaction.get substrate key
    (next answer).run transaction substrate
  | scanStem stem next, transaction, substrate =>
    let (answer, transaction, substrate) := transaction.scanStem substrate stem
    (next answer).run transaction substrate
  | scanRange first last next, transaction, substrate =>
    let (answer, transaction, substrate) := transaction.scanRange substrate first last
    (next answer).run transaction substrate
  | put key value next, transaction, substrate =>
    let (answer, transaction) := transaction.put key value
    (next answer).run transaction substrate
  | delete key next, transaction, substrate =>
    let (answer, transaction) := transaction.delete key
    (next answer).run transaction substrate

end Script

end RunLedger
