import RunLedger.Text.Quoted

/-!
# The status of a transaction

A transaction is active until it is validated; validation ends in commitment or in an abort, and an
active transaction can be aborted at once. An abort keeps the reason given for it.
-/

set_option autoImplicit false

namespace RunLedger.Transaction

/-- Where a transaction stands. -/
inductive Status where
  | active
  | validating
  | committed
  | aborted (reason : String)
deriving DecidableEq, Inhabited

namespace Status

/-- The name of the status, with the quoted reason of an abort. -/
def text : Status → String
  | active => "Active"
  | validating => "Validating"
  | committed => "Committed"
  | aborted reason => "Aborted \x7b reason: " ++ Text.quoted reason ++ " \x7d"

instance : ToString Status := ⟨text⟩

/-- Whether the transaction was aborted. -/
def isAborted : Status → Bool
  | aborted _ => true
  | _ => false

/-- The reason of an abort. -/
def abortReason? : Status → Option String
  | aborted reason => some reason
  | _ => none

end Status

end RunLedger.Transaction
