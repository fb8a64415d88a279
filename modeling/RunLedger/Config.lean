import RunLedger.Failure

/-!
# Configuration

A store is configured by the number of runs that one transaction of a removal deletes and by the
policy for conflicts: how often an operation is tried again, and after what delay. The delay doubles
from one attempt to the next up to a maximum.
-/

set_option autoImplicit false

namespace RunLedger

/-- How operations are tried again after conflicts. Delays are in milliseconds. -/
structure RetryPolicy where
  maxRetries : Nat
  baseDelay : Nat
  maxDelay : Nat
deriving DecidableEq

namespace RetryPolicy

/-- Three more attempts, after 10 milliseconds at first and 100 at most. -/
def standard : RetryPolicy := ⟨3, 10, 100⟩

instance : Inhabited RetryPolicy := ⟨standard⟩

/-- No attempt but the first. -/
def never : RetryPolicy := { standard with maxRetries := 0 }

/-- The delay before a further attempt, the first of them numbered zero. The base delay doubles with
each attempt as far as 64 bits go. -/
def delay (policy : RetryPolicy) (attempt : Nat) : Nat :=
  min (min (policy.baseDelay * Nat.pow 2 (min attempt 63)) (UInt64.size - 1)) policy.maxDelay

end RetryPolicy

/-- The settings of a store. -/
structure Config where
  deleteBatchSize : Nat
  retry : RetryPolicy
deriving DecidableEq

namespace Config

/-- Batches of one hundred runs and the standard policy. -/
def standard : Config := ⟨100, .standard⟩

instance : Inhabited Config := ⟨standard⟩

/-- Settings that make sense: batches are not empty and the base delay is not above the maximum. -/
def check (config : Config) : Except Failure Unit :=
  if config.deleteBatchSize = 0 then .error (.configuration .emptyBatches)
  else if config.retry.maxDelay < config.retry.baseDelay then
    .error (.configuration (.delaysReversed config.retry.baseDelay config.retry.maxDelay))
  else .ok ()

/-- The settings in one line. -/
def text (config : Config) : String :=
  "StoreConfig \x7b delete_batch_size: " ++ toString config.deleteBatchSize ++
    ", retry: RetryConfig \x7b max_retries: " ++ toString config.retry.maxRetries ++
    ", base_delay_ms: " ++ toString config.retry.baseDelay ++
    ", max_delay_ms: " ++ toString config.retry.maxDelay ++ " \x7d \x7d"

instance : ToString Config := ⟨text⟩

end Config

end RunLedger
