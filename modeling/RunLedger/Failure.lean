import RunLedger.Damage
import RunLedger.Program
import RunLedger.RunId
import RunLedger.Run.Status
import RunLedger.Transaction.Status

/-!
# Failures

Every operation that does not succeed says why by a `Failure`: the kind of failure and its cause.
`Failure.message` words it. Only conflicts are worth another attempt (`Failure.isConflict`).

Each cause has a case for failures that a caller words itself.
-/

set_option autoImplicit false

namespace RunLedger

/-! ### Causes -/

/-- Why an argument is not accepted. -/
inductive Rejection where
  /-- A name that no program type has, in lower case. -/
  | unknownProgramType (name : String)
  | malformedRunId (text : String)
  /-- A run must start in the second of its run id. -/
  | startTimeMismatch (start : UInt64) (id : RunId)
  /-- A run stops only in a terminal status. -/
  | stopNotTerminal (status : RunStatus)
  /-- A percentile, as a decimal, that is no number from 0 to 100. -/
  | percentileOutOfRange (decimal : String)
  | stated (text : String)
deriving DecidableEq, Inhabited

/-- Why the store did not do what it was asked. -/
inductive Outage where
  /-- A planned failure of a look-up. -/
  | plannedRead
  /-- A planned failure of a scan. -/
  | plannedScan
  /-- A planned failure of an application of writes. -/
  | plannedWrite
  /-- Writes must have a version above that of the store. -/
  | staleVersion (version current : Nat)
  /-- The store failed while a transaction was being committed. -/
  | duringCommit (cause : Outage)
  | stated (text : String)
deriving DecidableEq, Inhabited

/-- Why a transaction cannot go on. -/
inductive Inactivity where
  /-- It was to read or write when it was no longer active. -/
  | used (id : Nat) (status : Transaction.Status)
  /-- It was to be validated when it was no longer active. -/
  | validated (id : Nat) (status : Transaction.Status)
  /-- It was to be committed without having been validated. -/
  | committed (id : Nat) (status : Transaction.Status)
  /-- It was to be aborted after its commitment. -/
  | aborted (id : Nat)
  | stated (text : String)
deriving DecidableEq, Inhabited

/-- Why a commit was refused for what others have committed since. -/
inductive Clash where
  /-- So many keys read have changed. -/
  | onReads (count : Nat)
  | stated (text : String)
deriving DecidableEq, Inhabited

/-- What was looked for in vain. -/
inductive Absence where
  | run (id : RunId) (program : ProgramId)
  | stated (text : String)
deriving DecidableEq, Inhabited

/-- What is wrong with a configuration or its file. -/
inductive Misconfiguration where
  | emptyBatches
  | delaysReversed (base maximum : Nat)
  /-- The text is no configuration. -/
  | unparsable
  /-- A setting is too large to be written. -/
  | unwritable
  | unreadableFile (path : String)
  | fileNotWritten (path : String)
  | defaultNotWritten (path : String)
  | folderNotCreated (path : String)
  /-- What is wrong with the contents of a file. -/
  | inFile (path : String) (cause : Misconfiguration)
  | stated (text : String)
deriving DecidableEq, Inhabited

/-- Why an operation did not succeed. -/
inductive Failure where
  /-- A change of status that the run does not allow. -/
  | invalidTransition (run : String) (source target : RunStatus)
  /-- A stop in another terminal status than the recorded one. -/
  | conflictingTerminalStatus (run : String) (recorded requested : RunStatus)
  | writeConflict (clash : Clash)
  | storeUnavailable (outage : Outage)
  | recordNotFound (absence : Absence)
  | corruption (damage : Damage)
  | serialization (text : String)
  | invalidInput (rejection : Rejection)
  | transactionNotActive (inactivity : Inactivity)
  | configuration (misconfiguration : Misconfiguration)
deriving DecidableEq, Inhabited

/-! ### Wording -/

namespace Rejection

/-- The rejection in words. -/
def message : Rejection → String
  | unknownProgramType name => "unknown program type '" ++ name ++ "'"
  | malformedRunId text => "invalid run id '" ++ text ++ "'"
  | startTimeMismatch start id =>
    "start time " ++ toString start ++ " does not match run " ++ id.text ++ " created at " ++
      toString id.seconds
  | stopNotTerminal status => "stop requires a terminal status, got " ++ status.name
  | percentileOutOfRange decimal => "percentile " ++ decimal ++ " is outside 0..=100"
  | stated text => text

end Rejection

namespace Outage

/-- The outage in words. -/
def message : Outage → String
  | plannedRead => "injected read failure"
  | plannedScan => "injected scan failure"
  | plannedWrite => "injected write failure"
  | staleVersion version current =>
    "commit version " ++ toString version ++ " is not newer than store version " ++
      toString current
  | duringCommit cause => "Store unavailable: " ++ cause.message
  | stated text => text

end Outage

namespace Inactivity

/-- The reason in words. -/
def message : Inactivity → String
  | used id status => "transaction " ++ toString id ++ " is " ++ status.text
  | validated id status =>
    "cannot validate transaction " ++ toString id ++ " in state " ++ status.text
  | committed id status =>
    "cannot commit transaction " ++ toString id ++ " in state " ++ status.text
  | aborted id => "cannot abort committed transaction " ++ toString id
  | stated text => text

end Inactivity

namespace Clash

/-- The clash in words. -/
def message : Clash → String
  | onReads count => toString count ++ " conflict(s) on read set"
  | stated text => text

end Clash

namespace Absence

/-- What is missing, in words. -/
def message : Absence → String
  | run id program => "run " ++ id.text ++ " of " ++ program.text
  | stated text => text

end Absence

namespace Misconfiguration

/-- What is wrong, in words. -/
def message : Misconfiguration → String
  | emptyBatches => "delete_batch_size must be greater than zero"
  | delaysReversed base maximum =>
    "retry.base_delay_ms (" ++ toString base ++ ") exceeds retry.max_delay_ms (" ++
      toString maximum ++ ")"
  | unparsable => "Failed to parse config"
  | unwritable => "Failed to serialize config"
  | unreadableFile path => "Failed to read config file '" ++ path ++ "'"
  | fileNotWritten path => "Failed to write config file '" ++ path ++ "'"
  | defaultNotWritten path => "Failed to write default config file '" ++ path ++ "'"
  | folderNotCreated path => "Failed to create store directory '" ++ path ++ "'"
  | inFile path cause => path ++ ": " ++ cause.message
  | stated text => text

end Misconfiguration

namespace Failure

/-- The failure in words. -/
def message : Failure → String
  | invalidTransition run source target =>
    "Invalid transition for run " ++ run ++ ": " ++ source.name ++ " -> " ++ target.name
  | conflictingTerminalStatus run recorded requested =>
    "Run " ++ run ++ " already stopped as " ++ recorded.name ++ ", refusing " ++ requested.name
  | writeConflict clash => "Write conflict: " ++ clash.message
  | storeUnavailable outage => "Store unavailable: " ++ outage.message
  | recordNotFound absence => "Record not found: " ++ absence.message
  | corruption damage =>
    match damage.detail? with
    | none => "Data corruption"
    | some detail => "Data corruption: " ++ detail
  | serialization text => "Serialization error: " ++ text
  | invalidInput rejection => "Invalid input: " ++ rejection.message
  | transactionNotActive inactivity => "Transaction not active: " ++ inactivity.message
  | configuration misconfiguration => "Configuration error: " ++ misconfiguration.message

instance : ToString Failure := ⟨message⟩

/-- The name of the kind of failure. -/
def kind : Failure → String
  | invalidTransition .. => "InvalidTransition"
  | conflictingTerminalStatus .. => "ConflictingTerminalStatus"
  | writeConflict _ => "WriteConflict"
  | storeUnavailable _ => "StoreUnavailable"
  | recordNotFound _ => "RecordNotFound"
  | corruption _ => "Corruption"
  | serialization _ => "Serialization"
  | invalidInput _ => "InvalidInput"
  | transactionNotActive _ => "TransactionNotActive"
  | configuration _ => "Config"

/-- Whether the operation failed for what others have committed since, so that it may succeed when
it is done again. -/
def isConflict : Failure → Bool
  | writeConflict _ => true
  | _ => false

/-- Whether something looked for does not exist. -/
def isNotFound : Failure → Bool
  | recordNotFound _ => true
  | _ => false

end Failure

/-- The program type of a name, in any case of the ASCII letters. -/
def ProgramType.read (name : String) : Except Failure ProgramType :=
  match ofName? name with
  | some type => .ok type
  | none => .error (.invalidInput (.unknownProgramType name.toLower))

/-- The run id that a text writes. -/
def RunId.read (text : String) : Except Failure RunId :=
  match parse? text with
  | some id => .ok id
  | none => .error (.invalidInput (.malformedRunId text))

end RunLedger
