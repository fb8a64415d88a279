import RunLedger.Store.Substrate

/-!
# Transactions

A `Transaction` reads the store as of the version of its snapshot and buffers what it writes and
deletes. Its own writes and deletions come first in what it reads (`Transaction.get`,
`Transaction.scanStem`, `Transaction.scanRange`). Of everything it took from the snapshot it
remembers the version of the entry, zero where there was none, so that its commit can tell whether
anything has changed. Only an active transaction reads and writes, and an abort drops its buffers.

A read may use the substrate, so it gives an answer, the transaction behind it and the substrate
behind it.
-/

set_option autoImplicit false

namespace RunLedger

/-- A transaction: the version of the store it reads, if it reads the store at all, the version of
each entry it has read, and its buffered writes and deletions. -/
structure Transaction where
  id : Nat
  startVersion : Nat
  snapshot? : Option Nat
  reads : SortedMap Key Nat
  writes : SortedMap Key Value
  deletes : SortedSet Key
  status : Transaction.Status
deriving DecidableEq

namespace Transaction

/-! ### Beginning -/

/-- A transaction that reads nothing but what it wrote itself. -/
def detached (id startVersion : Nat) : Transaction where
  id
  startVersion
  snapshot? := none
  reads := ∅
  writes := ∅
  deletes := ∅
  status := .active

/-- A transaction on the snapshot of a version. -/
def onSnapshot (id version : Nat) : Transaction :=
  { detached id version with snapshot? := some version }

instance : Inhabited Transaction := ⟨detached 0 0⟩

/-! ### State -/

/-- Whether the transaction reads and writes. -/
def isActive (transaction : Transaction) : Bool := transaction.status = .active

/-- Whether the transaction has been committed. -/
def isCommitted (transaction : Transaction) : Bool := transaction.status = .committed

/-- Whether the transaction has been aborted. -/
def isAborted (transaction : Transaction) : Bool := transaction.status.isAborted

/-- Whether nothing is buffered. -/
def isReadOnly (transaction : Transaction) : Bool :=
  transaction.writes.isEmpty && transaction.deletes.isEmpty

/-- The state of the transaction in one line. -/
def text (transaction : Transaction) : String :=
  "TransactionContext \x7b txn_id: " ++ toString transaction.id ++
    ", start_version: " ++ toString transaction.startVersion ++
    ", reads: " ++ toString transaction.reads.size ++
    ", writes: " ++ toString transaction.writes.size ++
    ", deletes: " ++ toString transaction.deletes.size ++
    ", status: " ++ transaction.status.text ++ " \x7d"

instance : ToString Transaction := ⟨text⟩

/-- The failure of reading and writing when no longer active. -/
def inactive (transaction : Transaction) : Failure :=
  .transactionNotActive (.used transaction.id transaction.status)

/-! ### Reading -/

/-- Remembers the version of an entry read, unless it has been read before. -/
def recordRead (transaction : Transaction) (key : Key) (version : Nat) : Transaction :=
  { transaction with reads := transaction.reads.insertIfNew key version }

/-- The value under a key: that of the own write, none behind an own deletion, and else what the
snapshot holds. -/
def get (transaction : Transaction) (substrate : Substrate) (key : Key) :
    Except Failure (Option Value) × Transaction × Substrate :=
  if !transaction.isActive then (.error transaction.inactive, transaction, substrate)
  else
    match transaction.writes.get? key with
    | some value => (.ok (some value), transaction, substrate)
    | none =>
      if transaction.deletes.contains key then (.ok none, transaction, substrate)
      else
        match transaction.snapshot? with
        | none => (.ok none, transaction, substrate)
        | some snapshot =>
          match substrate.get key snapshot with
          | (.error outage, substrate) =>
            (.error (.storeUnavailable outage), transaction, substrate)
          | (.ok (some found), substrate) =>
            (.ok (some found.value), transaction.recordRead key found.version, substrate)
          | (.ok none, substrate) =>
            match substrate.keyVersion key snapshot with
            | (.error outage, substrate) =>
              (.error (.storeUnavailable outage), transaction, substrate)
            | (.ok version, substrate) =>
              (.ok none, transaction.recordRead key version, substrate)

/-- What a scan of the snapshot and the own writes in the scanned part make together: rows under
keys deleted here are left out, all others are remembered as read, and own writes win. -/
def merge (transaction : Transaction) (rows : List (Key × VersionedValue))
    (own : List (Key × Value)) : List (Key × Value) × Transaction :=
  let kept := rows.filter fun row ↦ !transaction.deletes.contains row.1
  let read := kept.foldl (fun transaction row ↦ transaction.recordRead row.1 row.2.version)
    transaction
  let values := kept.map fun row ↦ (row.1, row.2.value)
  ((SortedMap.ofList (values ++ own)).toList, read)

/-- A scan: what `rows` finds in the snapshot, and the own writes under keys that pass `inside`. -/
def scan (transaction : Transaction) (substrate : Substrate) (inside : Key → Bool)
    (rows : Nat → Except Outage (List (Key × VersionedValue)) × Substrate) :
    Except Failure (List (Key × Value)) × Transaction × Substrate :=
  if !transaction.isActive then (.error transaction.inactive, transaction, substrate)
  else
    let own := (transaction.writes.filter fun key _ ↦ inside key).toList
    match transaction.snapshot? with
    | none =>
      let (merged, transaction) := transaction.merge [] own
      (.ok merged, transaction, substrate)
    | some snapshot =>
      match rows snapshot with
      | (.error outage, substrate) => (.error (.storeUnavailable outage), transaction, substrate)
      | (.ok rows, substrate) =>
        let (merged, transaction) := transaction.merge rows own
        (.ok merged, transaction, substrate)

/-- The values under the keys that start with `stem`, in key order. -/
def scanStem (transaction : Transaction) (substrate : Substrate) (stem : Key) :
    Except Failure (List (Key × Value)) × Transaction × Substrate :=
  transaction.scan substrate (·.startsWith stem) (substrate.scanStem stem)

/-- The values under the keys from `first` up to but not including `last`, in key order. -/
def scanRange (transaction : Transaction) (substrate : Substrate) (first last : Key) :
    Except Failure (List (Key × Value)) × Transaction × Substrate :=
  transaction.scan substrate (Key.isBetween first last) (substrate.scanRange first last)

/-! ### Writing -/

/-- Buffers a value under a key. -/
def put (transaction : Transaction) (key : Key) (value : Value) :
    Except Failure Unit × Transaction :=
  if !transaction.isActive then (.error transaction.inactive, transaction)
  else
    (.ok (),
      { transaction with
        writes := transaction.writes.insert key value
        deletes := transaction.deletes.erase key })

/-- Buffers the deletion of a key. -/
def delete (transaction : Transaction) (key : Key) : Except Failure Unit × Transaction :=
  if !transaction.isActive then (.error transaction.inactive, transaction)
  else
    (.ok (),
      { transaction with
        writes := transaction.writes.erase key
        deletes := transaction.deletes.insert key () })

end Transaction

end RunLedger
