import RunLedger.Proofs.Ledger.Commits

/-!
# Registrations of node runs

A start that names a workflow run in its system arguments registers its run there, under the node it
names, if the workflow run has a record and has not stopped (`Operation.registration?`). What a
committed operation makes of the nodes of a workflow run is this and nothing else
(`Operation.node?_eval`): restarts keep the nodes, and no other operation touches them.

So in every interleaving without removals the record of a workflow run lists, under each node, the
last start that was registered there, in the order of the commits (`registrations_never_lost`).
-/

set_option autoImplicit false

namespace RunLedger

/-! ### What starts register -/

/-- The workflow run and the node that a start names in its system arguments. -/
def Start.node? (request : Start) : Option (ProgramId × RunId × String) :=
  request.record.parentWorkflow?.bind fun (workflow, run, node) ↦
    (RunId.parse? run).map fun id ↦ (workflow, id, node)

theorem Start.node?_eq_some_iff {request : Start} {workflow : ProgramId} {id : RunId}
    {node : String} :
    request.node? = some (workflow, id, node) ↔
      ∃ run, request.record.parentWorkflow? = some (workflow, run, node) ∧
        RunId.parse? run = some id := by
  simp only [Start.node?, Option.bind_eq_some_iff, Option.map_eq_some_iff, Prod.exists,
    Prod.mk.injEq]
  constructor
  · rintro ⟨workflow, run, node, hnamed, id, hid, rfl, rfl, rfl⟩
    exact ⟨run, hnamed, hid⟩
  · rintro ⟨run, hnamed, hid⟩
    exact ⟨workflow, run, node, hnamed, id, hid, rfl, rfl, rfl⟩

/-- The node run that a start begins. -/
def Start.nodeRun (request : Start) : NodeRun :=
  ⟨request.program.type, request.program.name, request.id⟩

/-- A start names its own run as the workflow run it is a node of. -/
def Start.NamesItself (request : Start) : Prop :=
  ∃ node, request.node? = some (request.program, request.id, node)

namespace Contents

/-- The node run that is registered under a node of a workflow run. -/
def node? (contents : Contents) (workflow : ProgramId) (id : RunId) (node : String) :
    Option NodeRun :=
  (contents.run? workflow id).bind fun record ↦ record.workflowNodes.get? node

/-- Whether a run has a record and has not stopped. -/
def isOpen (contents : Contents) (program : ProgramId) (id : RunId) : Bool :=
  (contents.run? program id).any fun record ↦ !record.status.isTerminal

end Contents

/-- The node run that an operation registers under a node of a workflow run if it is committed on
some contents. -/
def Operation.registration? (workflow : ProgramId) (id : RunId) (node : String)
    (contents : Contents) : Operation → Option NodeRun
  | .start request =>
    if request.node? = some (workflow, id, node) ∧ contents.isOpen workflow id = true then
      some request.nodeRun
    else none
  | _ => none

/-- The node runs that the first commits of a history have registered under a node of a workflow
run, in their order. -/
def registrations (history : List (Commit Operation Reply)) (count : Nat) (workflow : ProgramId)
    (id : RunId) (node : String) : List NodeRun :=
  (List.range count).filterMap fun place ↦
    history[place]?.bind fun commit ↦
      commit.operation.registration? workflow id node (contentsAfter history place)

theorem registrations_succ {history : List (Commit Operation Reply)} {place : Nat}
    {commit : Commit Operation Reply} (hcommit : history[place]? = some commit)
    (workflow : ProgramId) (id : RunId) (node : String) :
    registrations history (place + 1) workflow id node =
      registrations history place workflow id node ++
        (commit.operation.registration? workflow id node (contentsAfter history place)).toList := by
  rw [registrations, List.range_succ, List.filterMap_append, registrations]
  congr 1
  rw [List.filterMap_cons, hcommit, Option.bind_some, List.filterMap_nil]
  cases commit.operation.registration? workflow id node (contentsAfter history place) <;> rfl

/-! ### Records that keep their nodes -/

namespace Runs

variable {α : Type} {contents : Contents} {workflow : ProgramId} {id : RunId} {node : String}

/-- A record with the nodes that its run had leaves all nodes as they are. -/
theorem node?_recording (hconsistent : contents.Consistent) {record : RunRecord}
    (hnodes : record.workflowNodes.get? node =
      contents.node? record.program record.id node) (workflow : ProgramId) (id : RunId) :
    (contents.recording record).node? workflow id node = contents.node? workflow id node := by
  rw [Contents.node?, (hconsistent.recorded_recording record).run?]
  split
  · rename_i hsame
    rw [hsame.1, hsame.2, Option.bind_some, hnodes]
  · rfl

/-- An amendment leaves all nodes as they are. -/
theorem Amendment.node?_eval (hconsistent : contents.Consistent) {program : ProgramId}
    {other : RunId} {script : Script α} (hamendment : Amendment program other script) :
    (script.eval contents).2.node? workflow id node = contents.node? workflow id node := by
  cases hamendment with
  | refused failure => rfl
  | @amends absent decision hmoves =>
    rw [eval_amend hconsistent program other absent hmoves.decides]
    cases hrun : contents.run? program other with
    | none => rfl
    | some current =>
      obtain ⟨-, rfl, rfl⟩ := hconsistent.of_run? hrun
      dsimp only
      split
      · rfl
      · rfl
      · rename_i updated reply hdecision
        obtain ⟨hprogram, hid, hnodes⟩ := (hmoves current updated reply hdecision).same
        refine node?_recording hconsistent ?_ workflow id
        rw [hnodes, hprogram, hid, Contents.node?, hrun, Option.bind_some]

/-! ### Listings -/

/-- A node run is listed where it belongs, if that workflow run is open, and nothing else is. -/
theorem node?_listing (hconsistent : contents.Consistent) (parent : ProgramId)
    (parentRun other : String) (record : RunRecord) :
    (listing contents parent parentRun other record).node? workflow id node =
      (if (parent = workflow ∧ RunId.parse? parentRun = some id ∧ other = node) ∧
          contents.isOpen workflow id = true then
        some ⟨record.program.type, record.program.name, record.id⟩
      else none).or (contents.node? workflow id node) := by
  -- where nothing is listed, there is nothing to list or it is listed already
  have hsame (hlisted : (parent = workflow ∧ RunId.parse? parentRun = some id ∧ other = node) →
      contents.isOpen workflow id = true →
        contents.node? workflow id node =
          some ⟨record.program.type, record.program.name, record.id⟩) :
      contents.node? workflow id node =
        (if (parent = workflow ∧ RunId.parse? parentRun = some id ∧ other = node) ∧
            contents.isOpen workflow id = true then
          some ⟨record.program.type, record.program.name, record.id⟩
        else none).or (contents.node? workflow id node) := by
    split
    · rename_i hnamed
      rw [hlisted hnamed.1 hnamed.2, Option.some_or]
    · rw [Option.none_or]
  unfold listing
  cases hparent : (RunId.parse? parentRun).bind (contents.run? parent) with
  | none =>
    refine hsame fun ⟨hworkflow, hid, _⟩ hopen ↦ ?_
    rw [hid, hworkflow, Option.bind_some] at hparent
    rw [Contents.isOpen, hparent] at hopen
    cases hopen
  | some found =>
    obtain ⟨foundId, hfoundId, hrun⟩ := Option.bind_eq_some_iff.mp hparent
    obtain ⟨-, rfl, rfl⟩ := hconsistent.of_run? hrun
    have hopen : contents.isOpen found.program found.id = !found.status.isTerminal := by
      rw [Contents.isOpen, hrun, Option.any_some]
    have hnode : contents.node? found.program found.id node = found.workflowNodes.get? node := by
      rw [Contents.node?, hrun, Option.bind_some]
    dsimp only
    split
    · rename_i hstopped
      refine hsame fun ⟨hworkflow, hid, _⟩ hopen' ↦ ?_
      obtain rfl : found.id = id := Option.some.inj (hfoundId.symm.trans hid)
      rw [← hworkflow, hopen, hstopped] at hopen'
      cases hopen'
    · rename_i hgoing
      split
      · rename_i hlisted
        refine hsame fun ⟨hworkflow, hid, hother⟩ _ ↦ ?_
        obtain rfl : found.id = id := Option.some.inj (hfoundId.symm.trans hid)
        rw [← hworkflow, hnode, ← hother, hlisted]
      · rw [Contents.node?, (hconsistent.recorded_recording _).run?]
        dsimp only
        by_cases hown : workflow = found.program ∧ id = found.id
        · obtain ⟨rfl, rfl⟩ := hown
          rw [if_pos ⟨rfl, rfl⟩, Option.bind_some, SortedMap.get?_insert, hnode, hopen, hfoundId]
          simp only [Std.LawfulEqOrd.compare_eq_iff_eq, eq_comm (a := node)]
          by_cases hother : other = node
          · simp [hother, hgoing]
          · simp [hother]
        · rw [if_neg hown, if_neg, Option.none_or, Contents.node?]
          rintro ⟨⟨hworkflow, hid, -⟩, -⟩
          exact hown ⟨hworkflow.symm, Option.some.inj (hid.symm.trans hfoundId)⟩

/-! ### Starts -/

/-- A start writes its record with the nodes that its run had before, and keeps what its system
arguments name. -/
theorem startedOn_nodes {request : Start} {current? : Option RunRecord} {record : RunRecord}
    (hstarted : startedOn request current? = .ok record) :
    record.workflowNodes.get? node =
        current?.bind (fun current ↦ current.workflowNodes.get? node) ∧
      record.parentWorkflow? = request.record.parentWorkflow? := by
  cases current? with
  | none =>
    obtain rfl := Except.ok.inj hstarted
    exact ⟨rfl, rfl⟩
  | some current =>
    unfold startedOn RunRecord.restarted at hstarted
    dsimp only at hstarted
    split at hstarted
    · obtain rfl := Except.ok.inj hstarted
      exact ⟨rfl, rfl⟩
    · cases hstarted

/-- The record of another run does not tell whether a run is open. -/
theorem isOpen_recording (hconsistent : contents.Consistent) {record : RunRecord}
    (hother : ¬ (workflow = record.program ∧ id = record.id)) :
    (contents.recording record).isOpen workflow id = contents.isOpen workflow id := by
  rw [Contents.isOpen, (hconsistent.recorded_recording record).run?, if_neg hother, Contents.isOpen]

/-- A start that succeeds registers itself where it says, and leaves all other nodes as they are. -/
theorem node?_start (hconsistent : contents.Consistent) {request : Start}
    (hself : ¬ request.NamesItself) {record : RunRecord} {after : Contents}
    (heval : (start request).eval contents = (.ok record, after)) :
    after.node? workflow id node =
      ((Operation.start request).registration? workflow id node contents).or
        (contents.node? workflow id node) := by
  rw [eval_start hconsistent] at heval
  split at heval
  · cases heval
  · rename_i htime
    rw [Decidable.not_not] at htime
    split at heval
    · cases heval
    · rename_i written hstarted
      obtain ⟨-, rfl⟩ := Prod.mk.inj heval
      obtain ⟨hprogram, hid, -⟩ := startedOn_same htime hstarted
      have hkept : (contents.recording written).node? workflow id node =
          contents.node? workflow id node := by
        refine node?_recording hconsistent ?_ workflow id
        rw [(startedOn_nodes hstarted).1, hprogram, hid]
        rfl
      have hrecorded := (hconsistent.recorded_recording written).consistent hconsistent
      have hparent := (@startedOn_nodes node _ _ _ hstarted).2
      unfold starting
      rw [hparent, Operation.registration?]
      cases hnamed : request.record.parentWorkflow? with
      | none =>
        dsimp only
        rw [if_neg, Option.none_or, hkept]
        rintro ⟨hnode, -⟩
        obtain ⟨run, hrun, -⟩ := Start.node?_eq_some_iff.mp hnode
        rw [hnamed] at hrun
        cases hrun
      | some named =>
        obtain ⟨parent, parentRun, other⟩ := named
        have hnames : request.node? = some (workflow, id, node) ↔
            parent = workflow ∧ RunId.parse? parentRun = some id ∧ other = node := by
          simp only [Start.node?_eq_some_iff, hnamed, Option.some.injEq, Prod.mk.injEq]
          constructor
          · rintro ⟨run, ⟨hparent, rfl, hother⟩, hid⟩
            exact ⟨hparent, hid, hother⟩
          · rintro ⟨hparent, hid, hother⟩
            exact ⟨parentRun, ⟨hparent, rfl, hother⟩, hid⟩
        dsimp only
        rw [node?_listing hrecorded, hkept, hprogram, hid]
        refine congrArg (Option.or · _) (ite_congr (propext ?_) (fun _ ↦ rfl) fun _ ↦ rfl)
        rw [← hnames]
        refine and_congr_right fun hnode ↦ ?_
        -- the record that is written is not that of the workflow run
        rw [isOpen_recording hconsistent]
        rintro ⟨rfl, rfl⟩
        rw [hprogram, hid] at hnode
        exact hself ⟨node, hnode⟩

end Runs

/-! ### Operations -/

/-- Contents with the same under the key of a run have the same nodes there. -/
theorem Contents.node?_congr {before after : Contents} {workflow : ProgramId} {id : RunId}
    (hsame : after.get? (Key.run workflow id) = before.get? (Key.run workflow id))
    (node : String) : after.node? workflow id node = before.node? workflow id node := by
  rw [node?, Contents.run?, hsame, node?, Contents.run?]

/-- What an operation that succeeds leaves under a node: the node run that it registers there, or
else the one there was. -/
theorem Operation.node?_eval {operation : Operation} (hremoval : ¬ operation.IsRemoval)
    (hself : ∀ request, operation = .start request → ¬ request.NamesItself)
    {contents after : Contents} (hconsistent : contents.Consistent) {reply : Reply}
    (heval : operation.program.eval contents = (.ok reply, after)) (workflow : ProgramId)
    (id : RunId) (node : String) :
    after.node? workflow id node =
      (operation.registration? workflow id node contents).or
        (contents.node? workflow id node) := by
  have hafter : after = (operation.program.eval contents).2 := by rw [heval]
  -- what changes no record registers nothing
  have hplain {mayScan : Prop}
      (hprogram : operation.program.Plain mayScan fun key ↦ key.family ≠ .run) :
      after.node? workflow id node = contents.node? workflow id node := by
    rw [hafter]
    exact Contents.node?_congr (hprogram.get?_eval contents fun hkey ↦ hkey rfl) node
  cases hamended : operation.amended? with
  | some run =>
    obtain ⟨_, script, wording, hprogram, hamendment⟩ := exists_amendment hamended
    have hnone : operation.registration? workflow id node contents = none := by
      cases operation with
      | start request => cases hamended
      | _ => rfl
    rw [hnone, Option.none_or, hafter, hprogram, Script.eval_map]
    exact hamendment.node?_eval hconsistent
  | none =>
  cases operation with
  | start request =>
    rw [program, Script.eval_map] at heval
    rcases hstart : (Runs.start request).eval contents with ⟨record | record, last⟩
    · rw [hstart] at heval
      cases heval
    · rw [hstart] at heval
      obtain rfl : last = after := (Prod.mk.inj heval).2
      exact Runs.node?_start hconsistent (hself request rfl) hstart
  | suspend | resume | stop | compareAndSet => cases hamended
  | putToken workflow id token =>
    exact @hplain False (((Runs.plain_require workflow id).bind fun _ ↦
      Script.plain_write (show Family.workflowToken ≠ .run by decide) _).map _)
  | putNodeState workflow id state =>
    exact @hplain False (((Runs.plain_require workflow id).bind fun _ ↦
      Script.plain_write (show Family.nodeState ≠ .run by decide) _).map _)
  | summarize workflow id =>
    refine hplain (((Summaries.plain_record workflow id).mono (fun hscan ↦ hscan)
      fun key hkey ↦ ?_).map _)
    obtain ⟨other, rfl⟩ := hkey
    exact show Family.workflowRun ≠ .run by decide
  | removeRuns | removeSummaries => exact absurd trivial hremoval

/-! ### Histories -/

/-- Neither a removal nor a start that names its own run. -/
def Operation.Registers (operation : Operation) : Prop :=
  ¬ operation.IsRemoval ∧ ∀ request, operation = .start request → ¬ request.NamesItself

/-- What is registered under a node is the last that the commits have registered there. -/
theorem System.Sound.node?_eq {failsRead failsWrite : Nat → Bool} {system : System Operation Reply}
    (hsound : system.Sound Operation.program failsRead failsWrite)
    (honly : system.Only Operation.Registers) (workflow : ProgramId) (id : RunId) (node : String)
    {count : Nat} (hcount : count ≤ system.history.length) :
    (contentsAfter system.history count).node? workflow id node =
      (registrations system.history count workflow id node).getLast? := by
  induction count with
  | zero => rfl
  | succ place ih =>
    have hcommit : system.history[place]? = some system.history[place] :=
      List.getElem?_eq_getElem hcount
    obtain ⟨hremoval, hself⟩ := honly.history _ (List.mem_of_getElem? hcommit)
    have heval := (hsound.commits place _ hcommit).eval_eq hcommit hremoval
    rw [Operation.node?_eval hremoval hself (hsound.consistent place) heval,
      ih (Nat.le_of_lt hcount), registrations_succ hcommit, List.getLast?_append]
    cases Operation.registration? workflow id node (contentsAfter system.history place)
      system.history[place].operation <;> rfl

/-! ### Starts that are answered -/

namespace Script

variable {α β : Type} {key : Key}

/-- A script that comes to a result has changed a key on the way. -/
def Changes (key : Key) (script : Script α) : Prop :=
  ∀ calls result, script.Leads calls (.finish (.ok result)) → Changed calls key

theorem changes_write (key : Key) (value : Value) : (write key value).Changes key := by
  intro calls result hleads
  cases hleads with
  | put hrest => exact ⟨_, List.mem_cons_self, rfl⟩
  | putRefused hrest =>
    obtain ⟨-, hrefused⟩ := leads_finish hrest
    cases hrefused

theorem changes_throw (failure : Failure) : (throw failure : Script α).Changes key := by
  intro calls result hleads
  obtain ⟨-, hthrown⟩ := leads_finish hleads
  cases hthrown

/-- A script and what follows on its result come to a result by way of that. -/
theorem leads_bind {script : Script α} {next : α → Script β} {calls : List Call} {result : β}
    (hleads : (script >>= next).Leads calls (.finish (.ok result))) :
    ∃ first between rest, calls = first ++ rest ∧ script.Leads first (.finish (.ok between)) ∧
      (next between).Leads rest (.finish (.ok result)) := by
  obtain ⟨first, outcome, rest, rfl, hfirst, hrest⟩ := leads_followedBy hleads
  cases outcome with
  | ok between => exact ⟨first, between, rest, rfl, hfirst, hrest⟩
  | error failure =>
    obtain ⟨-, hfailed⟩ := leads_finish hrest
    cases hfailed

theorem Changes.bind {script : Script α} (hscript : script.Changes key) (next : α → Script β) :
    (script >>= next).Changes key := by
  intro calls result hleads
  obtain ⟨first, between, rest, rfl, hfirst, -⟩ := leads_bind hleads
  obtain ⟨call, hcall, hchanged⟩ := hscript first between hfirst
  exact ⟨call, List.mem_append_left rest hcall, hchanged⟩

theorem Changes.of_next (script : Script α) {next : α → Script β}
    (hnext : ∀ result, (next result).Changes key) : (script >>= next).Changes key := by
  intro calls result hleads
  obtain ⟨first, between, rest, rfl, -, hrest⟩ := leads_bind hleads
  obtain ⟨call, hcall, hchanged⟩ := hnext between rest result hrest
  exact ⟨call, List.mem_append_right first hcall, hchanged⟩

end Script

open Script in
/-- A start that succeeds has written its record. -/
theorem Runs.changes_start (request : Start) :
    (Runs.start request).Changes (Key.run request.program request.id) := by
  rw [Runs.start_eq]
  split
  · exact changes_throw _
  · rename_i htime
    rw [Decidable.not_not] at htime
    refine Changes.of_next _ fun current? ↦ ?_
    rw [Script.ofExcept, finish_bind]
    cases hstarted : startedOn request current? with
    | error failure => exact changes_throw failure
    | ok record =>
      obtain ⟨hprogram, hid, -⟩ := startedOn_same htime hstarted
      rw [← hprogram, ← hid]
      exact ((changes_write _ _).bind _).bind _

/-- A start that is answered has been committed. -/
theorem Ending.Sound.exists_start {failsRead failsWrite : Nat → Bool}
    {history : List (Commit Operation Reply)} {ending : Ending Operation Reply}
    (hending : ending.Sound Operation.program failsRead failsWrite history) {request : Start}
    (hoperation : ending.operation = .start request) {reply : Reply}
    (hreply : ending.outcome = .ok reply) :
    ∃ place commit, history[place]? = some commit ∧ commit.operation = .start request ∧
      place + 1 = ending.commits := by
  obtain ⟨-, calls, outcome, hcourse, hfollows⟩ := hending
  cases hfollows with
  | committed _ hplace hcommit => exact ⟨_, _, hcommit, hoperation, hplace⟩
  | readOnly _ hcalls =>
    have hleads := hcourse.leads
    rw [hoperation] at hleads
    exact absurd ((Runs.changes_start request).bind _ _ _ hleads)
      (not_changed_of_effectOf_eq hcalls _)
  | failed houtcome | conflicts houtcome | outage houtcome =>
    rw [hreply] at houtcome
    cases houtcome

/-- In every interleaving without removals and without starts that name their own run as the one
they are a node of, whatever fails: the record of a workflow run lists under each node the last node
run that starts committed while the workflow run had a record and had not stopped, and every start
that was answered has been committed. An operation that is begun again after a conflict is another
transaction. -/
theorem registrations_never_lost (failsRead failsWrite : Nat → Bool) (config : Config)
    (events : List (Event Operation))
    (hremoval : ∀ operation, .begin operation ∈ events → ¬ operation.IsRemoval)
    (hself : ∀ request, .begin (.start request) ∈ events → ¬ request.NamesItself) :
    let system := (System.initial failsRead failsWrite config).run Operation.program events
    let live := system.database.substrate.store.live
    (∀ workflow id value, live.get? (Key.run workflow id) = some value →
      ∃ record : RunRecord, (value.decode : Except Damage RunRecord) = .ok record ∧
        ∀ node, record.workflowNodes.get? node =
          (registrations system.history system.history.length workflow id node).getLast?) ∧
    ∀ ending ∈ system.endings, ∀ request reply, ending.operation = .start request →
      ending.outcome = .ok reply →
        ∃ place commit, system.history[place]? = some commit ∧
          commit.operation = .start request ∧ place + 1 = ending.commits := by
  intro system live
  have hsound : system.Sound Operation.program failsRead failsWrite :=
    System.sound_run Operation.program failsRead failsWrite config events
  have honly : system.Only Operation.Registers :=
    System.only_run Operation.program failsRead failsWrite config fun operation hbegin ↦
      ⟨hremoval operation hbegin, fun request hrequest ↦ hself request (hrequest ▸ hbegin)⟩
  have hlive : live = contentsAfter system.history system.history.length := hsound.live
  refine ⟨fun workflow id value hvalue ↦ ?_, fun ending hending request reply hoperation hreply ↦
    (hsound.endings ending hending).exists_start hoperation hreply⟩
  rw [hlive, (hsound.consistent _).get?_run] at hvalue
  obtain ⟨record, hrun, rfl⟩ := Option.map_eq_some_iff.mp hvalue
  refine ⟨record, decode_runRecord record, fun node ↦ ?_⟩
  rw [← hsound.node?_eq honly workflow id node (Nat.le_refl _), Contents.node?, hrun,
    Option.bind_some]

/-- The program of a node of the workflow. -/
def cleaning : ProgramId := ⟨"default", "purchases", .spark, "cleaning"⟩

/-- A workflow run starts. -/
def nightStart : Start := ⟨nightly, firstNight, 1000, none, ∅, ∅⟩

/-- A run of the node starts for the workflow run. -/
def cleaningStart : Start :=
  ⟨cleaning, firstNight, 1000, none, ∅, .ofList
    [(RunRecord.workflowNameArgument, nightly.name),
      (RunRecord.workflowRunArgument, firstNight.text),
      (RunRecord.workflowNodeArgument, "first")]⟩

/-- The node run starts while the workflow run is started anew; it is overtaken, and its start begun
again. -/
def overtakenCleaning : List (Event Operation) :=
  .begin (.start nightStart) :: List.replicate 3 (.call 0) ++
    .conclude 0 :: .begin (.start cleaningStart) :: List.replicate 5 (.call 1) ++
    .begin (.start nightStart) :: List.replicate 2 (.call 2) ++
    [.conclude 2, .conclude 1, .begin (.start cleaningStart)] ++ List.replicate 5 (.call 3) ++
    [.conclude 3]

/-- What becomes of a new ledger by these events. -/
def overtakenNight : System Operation Reply :=
  (System.initial (fun _ ↦ false) (fun _ ↦ false) .standard).run Operation.program overtakenCleaning

/-- The first of the two starts of the node run meets a conflict, and the workflow run lists the
second. -/
theorem registrations_never_lost_overtaken :
    (∀ operation, .begin operation ∈ overtakenCleaning → ¬ operation.IsRemoval) ∧
    (∀ request, .begin (.start request) ∈ overtakenCleaning → ¬ request.NamesItself) ∧
    overtakenNight.endings.map (·.outcome.toBool) = [true, true, false, true] ∧
    ∃ value record,
      overtakenNight.database.substrate.store.live.get? (Key.run nightly firstNight) =
        some value ∧
      (value.decode : Except Damage RunRecord) = .ok record ∧
      record.workflowNodes.get? "first" = some ⟨.spark, "cleaning", firstNight⟩ := by
  have hbegun (operation : Operation) (hbegin : .begin operation ∈ overtakenCleaning) :
      operation = .start nightStart ∨ operation = .start cleaningStart := by
    simp only [overtakenCleaning, List.cons_append, List.mem_cons, List.mem_append,
      List.mem_replicate, List.not_mem_nil, Event.begin.injEq, reduceCtorEq, and_false, or_false,
      false_or] at hbegin
    rcases hbegin with hnight | (hnode | hnight) | hnode
    · exact Or.inl hnight
    · exact Or.inr hnode
    · exact Or.inl hnight
    · exact Or.inr hnode
  have hremoval (operation : Operation) (hbegin : .begin operation ∈ overtakenCleaning) :
      ¬ operation.IsRemoval := by
    rcases hbegun operation hbegin with rfl | rfl <;> exact id
  have hself (request : Start) (hbegin : .begin (.start request) ∈ overtakenCleaning) :
      ¬ request.NamesItself := by
    rintro ⟨node, hnode⟩
    have hworkflow : request.node?.map Prod.fst = some request.program :=
      congrArg (Option.map Prod.fst) hnode
    rcases hbegun _ hbegin with hstart | hstart
    all_goals
      rw [Operation.start.inj hstart] at hworkflow
      exact absurd hworkflow (by decide +kernel)
  obtain ⟨hended, hthere, hlast⟩ :
      overtakenNight.endings.map (·.outcome.toBool) = [true, true, false, true] ∧
      (overtakenNight.database.substrate.store.live.get?
        (Key.run nightly firstNight)).isSome = true ∧
      (registrations overtakenNight.history overtakenNight.history.length nightly firstNight
        "first").getLast? = some ⟨.spark, "cleaning", firstNight⟩ := by
    decide +kernel
  have hlost := registrations_never_lost (fun _ ↦ false) (fun _ ↦ false) .standard
    overtakenCleaning hremoval hself
  rw [← overtakenNight] at hlost
  obtain ⟨value, hvalue⟩ := Option.isSome_iff_exists.mp hthere
  obtain ⟨record, hdecode, hnodes⟩ := hlost.1 nightly firstNight value hvalue
  exact ⟨hremoval, hself, hended, value, record, hvalue, hdecode, (hnodes "first").trans hlast⟩

end RunLedger
