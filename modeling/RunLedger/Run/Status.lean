/-!
# The status of a run

A run is running or suspended until it stops as completed, killed or failed, and a stopped run stays
as it is (`RunStatus.canBecome_eq_false`). `RunStatus.canBecome` is the table of the changes that a
run allows. A `StatusFilter` selects runs of every status or of one.
-/

set_option autoImplicit false

namespace RunLedger

/-- Where a run stands. -/
inductive RunStatus where
  | running
  | suspended
  | completed
  | killed
  | failed
deriving DecidableEq, Inhabited

namespace RunStatus

/-- All statuses, in the order of their codes. -/
def all : List RunStatus := [running, suspended, completed, killed, failed]

/-- The byte that stands for a status inside keys. -/
def code : RunStatus → UInt8
  | running => 1
  | suspended => 2
  | completed => 3
  | killed => 4
  | failed => 5

/-- The status with a given code. -/
def ofCode? (byte : UInt8) : Option RunStatus := all.find? fun status ↦ status.code = byte

/-- The upper-case name of a status. -/
def name : RunStatus → String
  | running => "RUNNING"
  | suspended => "SUSPENDED"
  | completed => "COMPLETED"
  | killed => "KILLED"
  | failed => "FAILED"

instance : ToString RunStatus := ⟨name⟩

/-- The status with a given upper-case name. -/
def ofName? (text : String) : Option RunStatus := all.find? fun status ↦ status.name = text

/-- Whether a run of this status has stopped. -/
def isTerminal : RunStatus → Bool
  | running | suspended => false
  | completed | killed | failed => true

/-- Whether a run of this status may move to another: a running run to any status, its own included,
a suspended one to any but its own, a stopped one to none. -/
def canBecome : RunStatus → RunStatus → Bool
  | running, _ => true
  | suspended, suspended => false
  | suspended, _ => true
  | completed, _ | killed, _ | failed, _ => false

/-- A stopped run changes no more. -/
theorem canBecome_eq_false {status : RunStatus} (hterminal : status.isTerminal = true)
    (target : RunStatus) : status.canBecome target = false := by
  cases status with
  | running | suspended => cases hterminal
  | completed | killed | failed => rfl

/-- A run that has not stopped may stop in any way. -/
theorem canBecome_eq_true {status target : RunStatus} (hopen : status.isTerminal = false)
    (hterminal : target.isTerminal = true) : status.canBecome target = true := by
  cases status with
  | running => rfl
  | suspended =>
    cases target with
    | suspended => cases hterminal
    | running | completed | killed | failed => rfl
  | completed | killed | failed => cases hopen

theorem mem_all (status : RunStatus) : status ∈ all := by
  cases status <;> decide

theorem ofName?_name (status : RunStatus) : ofName? status.name = some status := by
  cases status <;> rfl

theorem ofCode?_code (status : RunStatus) : ofCode? status.code = some status := by
  cases status <;> rfl

end RunStatus

/-- A choice of statuses. -/
inductive StatusFilter where
  | any
  | only (status : RunStatus)
deriving DecidableEq, Inhabited

namespace StatusFilter

/-- Whether a status is chosen. -/
def admits : StatusFilter → RunStatus → Bool
  | any, _ => true
  | only wanted, status => wanted = status

/-- The chosen statuses, in the order of their codes. -/
def statuses : StatusFilter → List RunStatus
  | any => RunStatus.all
  | only wanted => [wanted]

theorem mem_statuses_iff {filter : StatusFilter} {status : RunStatus} :
    status ∈ filter.statuses ↔ filter.admits status = true := by
  cases filter with
  | any => simp [statuses, admits, RunStatus.mem_all]
  | only wanted => simp [statuses, admits, eq_comm]

end StatusFilter

end RunLedger
