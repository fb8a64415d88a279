import RunLedger.Proofs.Key.ComponentOrder

/-!
# Keys and stems say exactly what they are for

Components of the same kinds end where their bytes say (`encodeAll_append_inj`), so a key begins as
a stem does exactly if the components it begins with are those of the stem
(`startsWith_ofComponents_iff`). What is stored under a key is an `Entry`, and a key tells which one
it is, up to the type of a summary's workflow, which no key of a summary holds.
-/

set_option autoImplicit false

namespace RunLedger

namespace Key

open KeyComponent

/-! ### Stems -/

theorem encodeAll_append_inj {first second : List KeyComponent}
    (hkinds : first.map kind = second.map kind) {behind others : List UInt8}
    (hequal : encodeAll first ++ behind = encodeAll second ++ others) :
    first = second ∧ behind = others := by
  have hcompare := compare_encodeAll_append hkinds behind others
  have hsame : compare (encodeAll second ++ others) (encodeAll second ++ others) = .eq :=
    Std.ReflCmp.compare_self
  rw [hequal, hsame, eq_comm, Ordering.then_eq_eq, compareLex_order_eq_iff hkinds] at hcompare
  exact ⟨hcompare.1, Std.LawfulEqOrd.eq_of_compare hcompare.2⟩

theorem ofComponents_inj {family : Family} {first second : List KeyComponent}
    (hkinds : first.map kind = second.map kind) :
    ofComponents family first = ofComponents family second ↔ first = second := by
  constructor
  · exact fun hequal ↦
      (encodeAll_append_inj hkinds (congrArg (fun key : Key ↦ key.bytes ++ []) hequal)).1
  · rintro rfl
    rfl

/-- A key begins as a stem if the components it begins with are those of the stem. -/
theorem startsWith_ofComponents_iff {family : Family} {leading stem : List KeyComponent}
    (hkinds : leading.map kind = stem.map kind) (rest : List KeyComponent) :
    (ofComponents family (leading ++ rest)).startsWith (ofComponents family stem) = true ↔
      leading = stem := by
  rw [startsWith_ofComponents, encodeAll_append]
  constructor
  · rintro ⟨behind, hequal⟩
    exact (encodeAll_append_inj hkinds hequal.symm).1
  · rintro rfl
    exact ⟨_, rfl⟩

/-- A key that begins with the namespace and the application of a program begins as a scope does if
the scope holds the program. -/
theorem startsWith_scope_iff {family : Family} {program : ProgramId} {scope : Scope}
    (rest : List KeyComponent) :
    (ofComponents family
        ([.text program.namespaceName, .text program.application] ++ rest)).startsWith
        (ofComponents family scope.keyComponents) = true ↔
      scope.contains program = true := by
  cases scope with
  | wholeNamespace namespaceName =>
    have hkinds : ([.text program.namespaceName] : List KeyComponent).map kind =
      (Scope.wholeNamespace namespaceName).keyComponents.map kind := rfl
    rw [List.cons_append, ← List.singleton_append, startsWith_ofComponents_iff hkinds]
    simp [Scope.keyComponents, Scope.contains]
  | oneApplication namespaceName application =>
    have hkinds : ([.text program.namespaceName, .text program.application] :
      List KeyComponent).map kind =
        (Scope.oneApplication namespaceName application).keyComponents.map kind := rfl
    rw [startsWith_ofComponents_iff hkinds]
    simp [Scope.keyComponents, Scope.contains]

/-- The summaries of a scope are those of workflows in it. -/
theorem workflowRun_startsWith_iff {workflow : ProgramId} {id : RunId} {scope : Scope} :
    (workflowRun workflow id).startsWith (workflowRunsInScope scope) = true ↔
      scope.contains workflow = true := startsWith_scope_iff _

/-- The index entries under a status are those whose keys begin as the status says. -/
theorem statusIndex_startsWith_iff {status state : RunStatus} {program : ProgramId} {id : RunId} :
    (statusIndex status program id).startsWith (runsOfStatus state) = true ↔ status = state := by
  have hkinds : [byte status.code].map kind = [byte state.code].map kind := rfl
  refine (startsWith_ofComponents_iff hkinds
    (.number id.seconds :: .text id.text :: program.keyComponents)).trans ?_
  rw [List.cons.injEq, byte.injEq, and_iff_left rfl]
  constructor
  · intro hcode
    exact Option.some.inj (status.ofCode?_code.symm.trans (hcode ▸ state.ofCode?_code))
  · exact congrArg RunStatus.code

end Key

/-! ### Entries -/

/-- What is stored under a key. -/
inductive Entry where
  | record (program : ProgramId) (id : RunId)
  | indexed (status : RunStatus) (program : ProgramId) (id : RunId)
  | nodeState (workflow : ProgramId) (id : RunId) (node : String)
  | token (workflow : ProgramId) (id : RunId)
  | summary (workflow : ProgramId) (id : RunId)

namespace Entry

/-- Where an entry is stored. -/
def key : Entry → Key
  | record program id => Key.run program id
  | indexed status program id => Key.statusIndex status program id
  | nodeState workflow id node => Key.nodeState workflow id node
  | token workflow id => Key.workflowToken workflow id
  | summary workflow id => Key.workflowRun workflow id

/-- Whether two entries are the same, the types of workflows apart that summaries are of. -/
def Same : Entry → Entry → Prop
  | record program id, record other name => program = other ∧ id = name
  | indexed status program id, indexed state other name =>
    status = state ∧ program = other ∧ id = name
  | nodeState workflow id node, nodeState other name label =>
    workflow = other ∧ id = name ∧ node = label
  | token workflow id, token other name => workflow = other ∧ id = name
  | summary workflow id, summary other name =>
    workflow.namespaceName = other.namespaceName ∧ workflow.application = other.application ∧
      workflow.name = other.name ∧ id = name
  | _, _ => False

end Entry

/-- The key of a summary tells the workflow but for its type, and the run. -/
theorem Key.workflowRun_eq_iff {workflow other : ProgramId} {id name : RunId} :
    Key.workflowRun workflow id = Key.workflowRun other name ↔
      workflow.namespaceName = other.namespaceName ∧ workflow.application = other.application ∧
        workflow.name = other.name ∧ id = name := by
  constructor
  · intro hequal
    have hcomponents := (ofComponents_inj (by rfl)).mp hequal
    simp only [workflowComponents, List.cons_append, List.nil_append, List.cons.injEq,
      KeyComponent.text.injEq, and_true] at hcomponents
    obtain ⟨hnamespace, happlication, hname, -, htext⟩ := hcomponents
    exact ⟨hnamespace, happlication, hname, id_of_text htext⟩
  · rintro ⟨hnamespace, happlication, hname, rfl⟩
    rw [workflowRun, workflowRun, workflowComponents_inj.mpr ⟨hnamespace, happlication, hname⟩]

/-- Entries lie under one key exactly if they are the same. -/
theorem Entry.key_eq_iff {first second : Entry} : first.key = second.key ↔ first.Same second := by
  cases first <;> cases second
  case record.record =>
    refine ⟨Key.run_inj, ?_⟩
    rintro ⟨rfl, rfl⟩
    rfl
  case indexed.indexed =>
    refine ⟨Key.statusIndex_inj, ?_⟩
    rintro ⟨rfl, rfl, rfl⟩
    rfl
  case nodeState.nodeState =>
    refine ⟨Key.nodeState_inj, ?_⟩
    rintro ⟨rfl, rfl, rfl⟩
    rfl
  case token.token =>
    refine ⟨Key.workflowToken_inj, ?_⟩
    rintro ⟨rfl, rfl⟩
    rfl
  case summary.summary => exact Key.workflowRun_eq_iff
  -- entries of different kinds are of different families
  all_goals exact iff_of_false (fun hkey ↦ nomatch congrArg Key.family hkey) id

/-- A key begins as a stem exactly if it is an entry of what the stem is for: the records of a
program or of a scope, the states of a run's nodes, the index entries under a status, the summaries
of a scope or of a workflow, whose type goes without saying. And two entries lie under one key
exactly if they are the same. -/
theorem keys_and_stems_exact :
    (∀ (program other : ProgramId) (id name : RunId) (scope : Scope) (status state : RunStatus)
        (node : String),
      ((Key.run program id).startsWith (Key.runsOfProgram other) = true ↔ program = other) ∧
      ((Key.run program id).startsWith (Key.runsInScope scope) = true ↔
        scope.contains program = true) ∧
      ((Key.nodeState program id node).startsWith (Key.nodeStatesOfRun other name) = true ↔
        program = other ∧ id = name) ∧
      ((Key.statusIndex status program id).startsWith (Key.runsOfStatus state) = true ↔
        status = state) ∧
      ((Key.workflowRun program id).startsWith (Key.workflowRunsInScope scope) = true ↔
        scope.contains program = true) ∧
      ((Key.workflowRun program id).startsWith (Key.runsOfWorkflow other) = true ↔
        program.namespaceName = other.namespaceName ∧ program.application = other.application ∧
          program.name = other.name)) ∧
    ∀ first second : Entry, first.key = second.key ↔ first.Same second := by
  refine ⟨fun program other id name scope status state node ↦ ⟨?_, Key.run_startsWith_iff,
    Key.nodeState_startsWith_iff, Key.statusIndex_startsWith_iff, Key.workflowRun_startsWith_iff, ?_⟩,
    fun first second ↦ Entry.key_eq_iff⟩
  · exact (Key.startsWith_ofComponents_iff (Key.kinds_keyComponents program other) _).trans
      Key.keyComponents_inj
  · exact (Key.startsWith_ofComponents_iff (Key.kinds_workflowComponents program other) _).trans
      Key.workflowComponents_inj

end RunLedger
