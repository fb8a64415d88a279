import RunLedger.SortedMap

/-!
# Workflow tokens

The nodes of a workflow run pass values to each other in a `WorkflowToken`. It keeps for each key
what each node wrote last, in the order of these writes, so that the last value is the one that
counts (`WorkflowToken.get?`).
-/

set_option autoImplicit false

namespace RunLedger

/-- A value and the node that wrote it. -/
structure NodeValue where
  node : String
  value : String
deriving DecidableEq, Inhabited

/-- What the nodes of a workflow run have written, by key. -/
structure WorkflowToken where
  entries : SortedMap String (List NodeValue)
deriving DecidableEq, Inhabited

namespace WorkflowToken

/-- The token without values. -/
def empty : WorkflowToken := ⟨∅⟩

/-- What each node wrote last under a key, in the order of writing. -/
def all (token : WorkflowToken) (key : String) : List NodeValue :=
  (token.entries.get? key).getD []

/-- Writes a value under a key for a node, in place of what the node wrote there before. -/
def put (token : WorkflowToken) (key value node : String) : WorkflowToken :=
  let others := (token.all key).filter fun written ↦ written.node ≠ node
  ⟨token.entries.insert key (others ++ [⟨node, value⟩])⟩

/-- The value written last under a key. -/
def get? (token : WorkflowToken) (key : String) : Option String :=
  (token.all key).getLast?.map NodeValue.value

/-- The value that a node wrote last under a key. -/
def getFromNode? (token : WorkflowToken) (key node : String) : Option String :=
  ((token.all key).find? fun written ↦ written.node = node).map NodeValue.value

/-- The keys written to, in ascending order. -/
def keys (token : WorkflowToken) : List String := token.entries.keys

/-- Whether nothing has been written. -/
def isEmpty (token : WorkflowToken) : Bool := token.entries.isEmpty

end WorkflowToken

end RunLedger
