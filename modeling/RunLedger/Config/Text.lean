import RunLedger.Config
import RunLedger.Toml.Document

/-!
# Configuration texts

A configuration is written as a TOML document. A setting that a document leaves out has its standard
value, and what is no setting is passed over. `Config.parse` also checks that the settings make
sense; `Config.written?` writes them unless one is too large for TOML.
-/

set_option autoImplicit false

namespace RunLedger

/-- A whole number that is not negative. -/
def Toml.count? : Toml → Option Nat
  | .integer value => if 0 ≤ value then some value.toNat else none
  | _ => none

/-- A setting under a name, or its standard value if there is none. -/
def Toml.setting? {α : Type} (members : Toml.Members) (name : String)
    (ofToml? : Toml → Option α) (standard : α) : Option α :=
  match members.lookup name with
  | none => some standard
  | some value => ofToml? value

/-- The policy of a table, or of an array with the settings in order. A date stands for the standard
policy. -/
def RetryPolicy.ofToml? : Toml → Option RetryPolicy
  | .table _ members =>
    return {
      maxRetries := ← Toml.setting? members "max_retries" Toml.count? standard.maxRetries
      baseDelay := ← Toml.setting? members "base_delay_ms" Toml.count? standard.baseDelay
      maxDelay := ← Toml.setting? members "max_delay_ms" Toml.count? standard.maxDelay }
  | .array items =>
    return {
      maxRetries := ← items[0]?.elim (some standard.maxRetries) Toml.count?
      baseDelay := ← items[1]?.elim (some standard.baseDelay) Toml.count?
      maxDelay := ← items[2]?.elim (some standard.maxDelay) Toml.count? }
  | .moment => some standard
  | _ => none

namespace Config

/-- The settings in a document. -/
def ofToml? : Toml → Option Config
  | .table _ members =>
    return {
      deleteBatchSize :=
        ← Toml.setting? members "delete_batch_size" Toml.count? standard.deleteBatchSize
      retry := ← Toml.setting? members "retry" RetryPolicy.ofToml? standard.retry }
  | _ => none

/-- The settings that a text writes, if they make sense. -/
def parse (document : String) : Except Failure Config :=
  match Toml.parse? document >>= ofToml? with
  | none => .error (.configuration .unparsable)
  | some config => do
    config.check
    return config

/-- The text of some settings; none if one of them takes more than 63 bits. -/
def written? (config : Config) : Option String :=
  let settings := [config.deleteBatchSize, config.retry.maxRetries, config.retry.baseDelay,
    config.retry.maxDelay]
  if settings.all (· < Nat.pow 2 63) then
    some ("delete_batch_size = " ++ toString config.deleteBatchSize ++
      "\n\n[retry]\nmax_retries = " ++ toString config.retry.maxRetries ++
      "\nbase_delay_ms = " ++ toString config.retry.baseDelay ++
      "\nmax_delay_ms = " ++ toString config.retry.maxDelay ++ "\n")
  else none

/-- The standard settings with an explanation of each. -/
def standardText : String :=
  "# runstore configuration

# Run records removed per transaction when deleting a namespace or
# application. Larger batches finish sooner but hold bigger transactions.
delete_batch_size = 100

# Retry policy for write conflicts. Every operation is retried from scratch
# with exponential backoff until it commits or max_retries is exhausted.
[retry]
max_retries = 3
base_delay_ms = 10
max_delay_ms = 100
"

end Config

end RunLedger
