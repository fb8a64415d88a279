import RunLedger.Proofs.Ledger.Registrations
import RunLedger.Proofs.Transaction.Footprint

/-!
# What operations look at and change

An operation on the lifecycle of a run looks at the record of that run and, if it starts a node run,
at that of the workflow run it names (`Operation.runs`). All operations but removals look at records
alone and delete none (`Operation.confined`). On consistent contents an operation on the lifecycle
changes the records of its runs and their index entries alone (`Operation.changesOnly`), and by
itself it never ends in a conflict (`Operation.unconflicting`).
-/

set_option autoImplicit false

namespace RunLedger

open Script

variable {α β : Type} {contents : Contents}

/-! ### What operations look at -/

namespace Operation

/-- Whether an operation is one on the lifecycle of a run. -/
def IsLifecycle : Operation → Prop
  | start _ | suspend .. | resume .. | stop .. | compareAndSet .. => True
  | _ => False

/-- The runs of an operation on the lifecycle: its own one and, if it starts a node run, the
workflow run that it names. -/
def runs : Operation → List (ProgramId × RunId)
  | start request => (request.program, request.id) ::
    (request.node?.map fun (workflow, id, _) ↦ (workflow, id)).toList
  | operation => operation.amended?.toList

/-- The keys that an operation may look at unless it is a removal: those of records, and only of its
own runs if it is one on the lifecycle. -/
def Reads (operation : Operation) (key : Key) : Prop :=
  key.family = .run ∧ (operation.IsLifecycle → ∃ run ∈ operation.runs, key = Key.run run.1 run.2)

/-- The keys that an operation on the lifecycle may change. -/
def Touches (operation : Operation) (key : Key) : Prop :=
  ∃ run ∈ operation.runs, key.IsRecordOf run.1 run.2

theorem mem_runs_of_amended? {operation : Operation} {run : ProgramId × RunId}
    (hamended : operation.amended? = some run) : run ∈ operation.runs := by
  cases operation with
  | suspend | resume | stop | compareAndSet => exact Option.mem_toList.mpr hamended
  | _ => cases hamended

theorem mem_runs_of_node? {request : Start} {workflow : ProgramId} {id : RunId} {node : String}
    (hnode : request.node? = some (workflow, id, node)) :
    (workflow, id) ∈ (start request).runs :=
  List.mem_cons_of_mem _ (Option.mem_toList.mpr (Option.map_eq_some_iff.mpr ⟨_, hnode, rfl⟩))

end Operation

namespace Runs

section

variable {mayRead mayDelete : Key → Prop}

theorem confined_ofExcept (outcome : Except Failure α) :
    (Script.ofExcept outcome).Confined mayRead mayDelete := .finish _

theorem confined_find? {program : ProgramId} {id : RunId} (hread : mayRead (Key.run program id)) :
    (find? program id).Confined mayRead mayDelete :=
  (confined_read hread).bind fun found? ↦
    match found? with
    | none => confined_pure _
    | some _ => (Confined.finish _).bind fun _ ↦ confined_pure _

theorem confined_require {program : ProgramId} {id : RunId} (hread : mayRead (Key.run program id)) :
    (require program id).Confined mayRead mayDelete :=
  (confined_find? hread).bind fun found? ↦
    match found? with
    | none => confined_throw _
    | some _ => confined_pure _

variable (hdelete : ∀ key : Key, key.family = .runByStatus → mayDelete key)

include hdelete

theorem confined_write (record : RunRecord) (previous? : Option RunStatus) :
    (write record previous?).Confined mayRead mayDelete := by
  unfold write
  refine (Script.confined_write _ _).bind fun _ ↦ ?_
  split
  · exact confined_pure _
  · split
    · exact (confined_erase (hdelete _ rfl)).bind fun _ ↦ Script.confined_write _ _
    · exact Script.confined_write _ _

theorem Amendment.confined {program : ProgramId} {id : RunId} {script : Script α}
    (hamendment : Amendment program id script) (hread : mayRead (Key.run program id)) :
    script.Confined mayRead mayDelete := by
  cases hamendment with
  | refused failure => exact confined_throw failure
  | amends absent hmoves =>
    refine (confined_find? hread).bind fun found? ↦ ?_
    split
    · exact confined_ofExcept absent
    · refine (confined_ofExcept _).bind fun decided ↦ ?_
      split
      · exact confined_pure _
      · exact (confined_write hdelete _ _).bind fun _ ↦ confined_pure _

theorem confined_registerNode {workflow : ProgramId} {workflowRun : String}
    (hread : ∀ id, RunId.parse? workflowRun = some id → mayRead (Key.run workflow id))
    (node : String) (record : RunRecord) :
    (registerNode workflow workflowRun node record).Confined mayRead mayDelete := by
  unfold registerNode
  split
  · rename_i id hid
    refine (confined_find? (hread id hid)).bind fun parent? ↦ ?_
    split
    · split
      · exact confined_pure _
      · dsimp only
        split
        · exact confined_pure _
        · exact confined_write hdelete _ _
    · exact confined_pure _
  · exact confined_pure _

theorem confined_start {request : Start} (hown : mayRead (Key.run request.program request.id))
    (hparent : ∀ workflow id node, request.node? = some (workflow, id, node) →
      mayRead (Key.run workflow id)) : (start request).Confined mayRead mayDelete := by
  rw [start_eq]
  split
  · exact confined_throw _
  · refine (confined_find? hown).bind fun current? ↦ ?_
    rw [Script.ofExcept, finish_bind]
    cases hstarted : startedOn request current? with
    | error failure => exact confined_throw failure
    | ok record =>
      refine (confined_write hdelete record _).bind fun _ ↦ ?_
      rw [(@startedOn_nodes "" _ _ _ hstarted).2]
      split
      · rename_i workflow run node hnamed
        refine (confined_registerNode hdelete (fun id hid ↦ ?_) node record).bind fun _ ↦
          confined_pure _
        exact hparent workflow id node (Start.node?_eq_some_iff.mpr ⟨run, hnamed, hid⟩)
      · exact confined_pure _

end

end Runs

namespace Summaries

variable {mayRead mayDelete : Key → Prop} (hread : ∀ key : Key, key.family = .run → mayRead key)

include hread

theorem confined_timings? (workflow : ProgramId) (nodes : List (String × NodeRun)) :
    (timings? workflow nodes).Confined mayRead mayDelete := by
  induction nodes with
  | nil => exact confined_pure _
  | cons node rest ih =>
    unfold timings?
    refine (Runs.confined_find? (hread _ rfl)).bind fun record? ↦ ?_
    split
    · split
      · refine ih.bind fun timings ↦ ?_
        split
        · exact confined_pure _
        · exact confined_pure _
      · exact confined_pure _
    · exact confined_pure _

theorem confined_record (workflow : ProgramId) (id : RunId) :
    (record workflow id).Confined mayRead mayDelete := by
  unfold record
  refine (Runs.confined_find? (hread _ rfl)).bind fun run? ↦ ?_
  split
  · refine Confined.bind ?_ fun summary? ↦ ?_
    · unfold summarize?
      split
      · refine (confined_timings? hread _ _).bind fun nodes? ↦ ?_
        split
        · exact confined_pure _
        · exact confined_pure _
      · exact confined_pure _
    · split
      · exact (Script.confined_write _ _).bind fun _ ↦ confined_pure _
      · exact confined_pure _
  · exact confined_pure _

end Summaries

namespace Operation

/-- An operation that is no removal looks at records alone, and deletes none. -/
theorem confined {operation : Operation} (hremoval : ¬ operation.IsRemoval) :
    operation.program.Confined operation.Reads fun key ↦ ¬ key.family = .run := by
  have hdelete (key : Key) (hfamily : key.family = .runByStatus) : ¬ key.family = .run := by
    rw [hfamily]
    decide
  have hown {run : ProgramId × RunId} (hrun : run ∈ operation.runs) :
      operation.Reads (Key.run run.1 run.2) := ⟨rfl, fun _ ↦ ⟨run, hrun, rfl⟩⟩
  have hother (hlifecycle : ¬ operation.IsLifecycle) {key : Key} (hfamily : key.family = .run) :
      operation.Reads key := ⟨hfamily, fun hother ↦ absurd hother hlifecycle⟩
  cases hamended : operation.amended? with
  | some run =>
    obtain ⟨_, script, reply, hprogram, hamendment⟩ := exists_amendment hamended
    rw [hprogram]
    exact (hamendment.confined hdelete (hown (mem_runs_of_amended? hamended))).map reply
  | none =>
  cases operation with
  | start request =>
    exact (Runs.confined_start hdelete (hown List.mem_cons_self)
      fun _ _ _ hnode ↦ hown (mem_runs_of_node? hnode)).map _
  | suspend | resume | stop | compareAndSet => cases hamended
  | putToken workflow id token =>
    exact ((Runs.confined_require (hother False.elim rfl)).bind fun _ ↦
      Script.confined_write _ _).map _
  | putNodeState workflow id state =>
    exact ((Runs.confined_require (hother False.elim rfl)).bind fun _ ↦
      Script.confined_write _ _).map _
  | summarize workflow id =>
    exact (Summaries.confined_record (fun key ↦ hother False.elim) workflow id).map _
  | removeRuns | removeSummaries => exact absurd trivial hremoval

end Operation

/-! ### What operations change -/

namespace Runs

/-- Behind the look-up of a run, a script goes on with its record. -/
theorem changesOnly_find?_bind (hconsistent : contents.Consistent) {mayChange : Key → Prop}
    {program : ProgramId} {id : RunId} {next : Option RunRecord → Script α}
    (hnext : (next (contents.run? program id)).ChangesOnly mayChange contents) :
    (find? program id >>= next).ChangesOnly mayChange contents := by
  refine ((@plain_find? False _ program id).changesOnly contents).bind fun found? after heval ↦ ?_
  rw [eval_find? hconsistent] at heval
  obtain ⟨hfound, rfl⟩ := Prod.mk.inj heval
  exact Except.ok.inj hfound ▸ hnext

theorem changesOnly_write (record : RunRecord) (previous? : Option RunStatus)
    (contents : Contents) :
    (write record previous?).ChangesOnly (Key.IsRecordOf record.program record.id) contents :=
  (@plain_write_own False record previous?).changesOnly contents

theorem Amendment.changesOnly (hconsistent : contents.Consistent) {program : ProgramId} {id : RunId}
    {script : Script α} (hamendment : Amendment program id script) :
    script.ChangesOnly (Key.IsRecordOf program id) contents := by
  cases hamendment with
  | refused failure => exact changesOnly_throw failure _
  | @amends absent decision hmoves =>
    refine changesOnly_find?_bind hconsistent ?_
    cases hrun : contents.run? program id with
    | none => exact (@plain_ofExcept False _ _ absent).changesOnly _
    | some current =>
      obtain ⟨-, rfl, rfl⟩ := hconsistent.of_run? hrun
      dsimp only
      rw [Script.ofExcept, finish_bind]
      cases hdecision : decision current with
      | error failure => exact changesOnly_throw failure _
      | ok decided =>
        obtain ⟨updated | updated, reply⟩ := decided
        · exact changesOnly_pure reply _
        · obtain ⟨hprogram, hid, -⟩ := (hmoves current updated reply hdecision).same
          rw [← hprogram, ← hid]
          exact (changesOnly_write updated _ _).bind fun _ _ _ ↦ changesOnly_pure _ _

theorem changesOnly_registerNode (hconsistent : contents.Consistent) (workflow : ProgramId)
    (workflowRun node : String) (record : RunRecord) :
    (registerNode workflow workflowRun node record).ChangesOnly
      (fun key ↦ ∃ id, RunId.parse? workflowRun = some id ∧ key.IsRecordOf workflow id)
      contents := by
  unfold registerNode
  split
  · rename_i id hid
    refine changesOnly_find?_bind hconsistent ?_
    cases hrun : contents.run? workflow id with
    | none => exact changesOnly_pure _ _
    | some parent =>
      obtain ⟨-, rfl, rfl⟩ := hconsistent.of_run? hrun
      dsimp only
      split
      · exact changesOnly_pure _ _
      · split
        · exact changesOnly_pure _ _
        · exact (changesOnly_write _ _ _).mono fun key hkey ↦ ⟨parent.id, hid, hkey⟩
  · exact changesOnly_pure _ _

theorem changesOnly_start (hconsistent : contents.Consistent) (request : Start) :
    (start request).ChangesOnly (Operation.start request).Touches contents := by
  rw [start_eq]
  split
  · exact changesOnly_throw _ _
  · rename_i htime
    rw [Decidable.not_not] at htime
    refine changesOnly_find?_bind hconsistent ?_
    rw [Script.ofExcept, finish_bind]
    cases hstarted : startedOn request (contents.run? request.program request.id) with
    | error failure => exact changesOnly_throw failure _
    | ok record =>
      obtain ⟨hprogram, hid, -⟩ := startedOn_same htime hstarted
      have hown {key : Key} (hkey : key.IsRecordOf record.program record.id) :
          (Operation.start request).Touches key :=
        ⟨_, List.mem_cons_self, by rwa [hprogram, hid] at hkey⟩
      have hrecorded := (hconsistent.recorded_recording record).consistent hconsistent
      refine ((changesOnly_write record _ _).mono fun key ↦ hown).bind fun _ after heval ↦ ?_
      rw [← hprogram, ← hid, eval_write] at heval
      obtain ⟨-, rfl⟩ := Prod.mk.inj heval
      rw [(@startedOn_nodes "" _ _ _ hstarted).2]
      split
      · rename_i workflow run node hnamed
        refine ((changesOnly_registerNode hrecorded workflow run node record).mono
          fun key hkey ↦ ?_).bind fun _ _ _ ↦ changesOnly_pure _ _
        obtain ⟨parent, hparent, hkey⟩ := hkey
        exact ⟨_, Operation.mem_runs_of_node?
          (Start.node?_eq_some_iff.mpr ⟨run, hnamed, hparent⟩), hkey⟩
      · exact changesOnly_pure _ _

end Runs

/-- On consistent contents, an operation on the lifecycle changes the records of its runs and their
index entries alone. -/
theorem Operation.changesOnly {operation : Operation} (hlifecycle : operation.IsLifecycle)
    (hconsistent : contents.Consistent) :
    operation.program.ChangesOnly operation.Touches contents := by
  cases hamended : operation.amended? with
  | some run =>
    obtain ⟨_, script, reply, hprogram, hamendment⟩ := exists_amendment hamended
    rw [hprogram]
    exact ((hamendment.changesOnly hconsistent).mono fun key hkey ↦
      ⟨run, mem_runs_of_amended? hamended, hkey⟩).map reply
  | none =>
  cases operation with
  | start request => exact (Runs.changesOnly_start hconsistent request).map _
  | suspend | resume | stop | compareAndSet => cases hamended
  | putToken | putNodeState | summarize | removeRuns | removeSummaries => exact hlifecycle.elim

/-! ### Outcomes without conflicts -/

/-- An outcome that is no conflict. -/
def Unconflicting (outcome : Except Failure α) : Prop :=
  ∀ clash, outcome ≠ .error (.writeConflict clash)

theorem unconflicting_ok (result : α) : Unconflicting (.ok result) := fun _ hclash ↦ by
  cases hclash

theorem unconflicting_error {failure : Failure} (hfailure : failure.isConflict = false) :
    Unconflicting (.error failure : Except Failure α) := by
  intro clash hclash
  rw [Except.error.inj hclash] at hfailure
  cases hfailure

theorem Unconflicting.isConflict_eq_false {failure : Failure}
    (hfailure : Unconflicting (.error failure : Except Failure α)) : failure.isConflict = false := by
  cases failure with
  | writeConflict clash => exact absurd rfl (hfailure clash)
  | _ => rfl

theorem Unconflicting.map {outcome : Except Failure α} (houtcome : Unconflicting outcome)
    (next : α → β) : Unconflicting (outcome.map next) := by
  cases outcome with
  | ok result => exact unconflicting_ok _
  | error failure => exact fun clash hclash ↦ houtcome clash (congrArg _ (Except.error.inj hclash))

namespace RunRecord

variable (record : RunRecord) (time : UInt64)

theorem unconflicting_suspended : Unconflicting (record.suspended time) := by
  unfold suspended
  split
  · exact unconflicting_ok _
  · exact unconflicting_error rfl

theorem unconflicting_resumed : Unconflicting (record.resumed time) := by
  unfold resumed
  split
  · exact unconflicting_ok _
  · exact unconflicting_error rfl

theorem unconflicting_stopped (status : RunStatus) (cause? : Option FailureCause) :
    Unconflicting (record.stopped time status cause?) := by
  unfold stopped
  split
  · exact unconflicting_error rfl
  · split
    · split
      · exact unconflicting_ok _
      · exact unconflicting_error rfl
    · exact unconflicting_ok _

theorem unconflicting_restarted (fresh : RunRecord) : Unconflicting (record.restarted fresh) := by
  unfold restarted
  split
  · exact unconflicting_ok _
  · exact unconflicting_error rfl

end RunRecord

namespace Runs

theorem unconflicting_changed (current : RunRecord) (target : RunStatus) (time : UInt64) :
    Unconflicting (changed current target time) := by
  cases target with
  | running =>
    unfold changed
    dsimp only
    split
    · exact unconflicting_ok _
    · exact (current.unconflicting_resumed time).map _
  | suspended => exact (current.unconflicting_suspended time).map _
  | completed | killed | failed => exact current.unconflicting_stopped time _ _

theorem unconflicting_comparing (id : RunId) (expected target : RunStatus) (time : UInt64)
    (current : RunRecord) : Unconflicting (comparing id expected target time current) := by
  unfold comparing
  split
  · exact unconflicting_ok _
  · split
    · exact unconflicting_error rfl
    · exact (unconflicting_changed current target time).map _

/-- A decision that reports no conflict does not when it is carried out. -/
theorem unconflicting_amend (hconsistent : contents.Consistent) (program : ProgramId) (id : RunId)
    {absent : Except Failure α} (habsent : Unconflicting absent)
    {decision : RunRecord → Except Failure (Option RunRecord × α)} (hmoves : OnlyMoves decision)
    (hdecision : ∀ current, Unconflicting (decision current)) :
    Unconflicting ((amend program id absent decision).eval contents).1 := by
  rw [eval_amend hconsistent program id absent hmoves.decides]
  split
  · exact habsent
  · rename_i current _
    split
    · rename_i failure hfailure
      exact fun clash hclash ↦
        hdecision current clash (hfailure.trans (congrArg _ (Except.error.inj hclash)))
    · exact unconflicting_ok _
    · exact unconflicting_ok _

theorem unconflicting_start (hconsistent : contents.Consistent) (request : Start) :
    Unconflicting ((start request).eval contents).1 := by
  rw [eval_start hconsistent]
  split
  · exact unconflicting_error rfl
  · have hstarted : Unconflicting
        (startedOn request (contents.run? request.program request.id)) := by
      unfold startedOn
      split
      · exact unconflicting_ok _
      · exact RunRecord.unconflicting_restarted _ _
    split
    · rename_i failure hfailure
      exact fun clash hclash ↦
        hstarted clash (hfailure.trans (congrArg _ (Except.error.inj hclash)))
    · exact unconflicting_ok _

theorem unconflicting_stop (hconsistent : contents.Consistent) (program : ProgramId) (id : RunId)
    (time : UInt64) (status : RunStatus) (cause? : Option FailureCause) :
    Unconflicting ((stop program id time status cause?).eval contents).1 := by
  rw [stop_eq]
  split
  · exact unconflicting_amend hconsistent program id (unconflicting_error rfl)
      (onlyMoves_halting time status cause?)
      fun current ↦ (current.unconflicting_stopped time status cause?).map _
  · exact unconflicting_error rfl

end Runs

/-- By itself, an operation on the lifecycle never ends in a conflict. -/
theorem Operation.unconflicting {operation : Operation} (hlifecycle : operation.IsLifecycle)
    (hconsistent : contents.Consistent) :
    Unconflicting (operation.program.eval contents).1 := by
  have hmissing (program : ProgramId) (id : RunId) : Unconflicting (Runs.missing program id) :=
    unconflicting_error rfl
  cases operation with
  | start request =>
    rw [program, eval_map]
    exact (Runs.unconflicting_start hconsistent request).map _
  | suspend program id time =>
    rw [Operation.program, eval_map, Runs.suspend_eq]
    exact (Runs.unconflicting_amend hconsistent program id (hmissing program id)
      (Runs.onlyMoves_always (.suspended time))
      fun current ↦ (current.unconflicting_suspended time).map _).map _
  | resume program id time =>
    rw [Operation.program, eval_map, Runs.resume_eq]
    exact (Runs.unconflicting_amend hconsistent program id (hmissing program id)
      (Runs.onlyMoves_always (.resumed time))
      fun current ↦ (current.unconflicting_resumed time).map _).map _
  | stop program id time status cause? =>
    rw [Operation.program, eval_map]
    exact (Runs.unconflicting_stop hconsistent program id time status cause?).map _
  | compareAndSet program id expected target time =>
    rw [Operation.program, eval_map, Runs.compareAndSet_eq]
    exact (Runs.unconflicting_amend hconsistent program id (unconflicting_ok none)
      (Runs.onlyMoves_comparing id expected target time)
      fun current ↦ Runs.unconflicting_comparing id expected target time current).map _
  | putToken | putNodeState | summarize | removeRuns | removeSummaries => exact hlifecycle.elim

end RunLedger
