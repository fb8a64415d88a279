import RunLedger.Proofs.Database.Untouched
import RunLedger.Proofs.Ledger.Footprints
import RunLedger.Proofs.Ledger.ScopeRemoval
import RunLedger.Proofs.Ledger.StoredRecords

/-!
# What the lifecycle of a run leaves alone

A committed operation on the lifecycle of a run changes the record of this run and its entries in
the status index. A start that names an open workflow run lists its node run on the record of that
one, and changes nothing else of it (`Operation.Frames`). All other keys hold what they held. On
consistent contents the index follows the records, so what an operation does to the keys of a run is
known by what it does to the record (`Contents.Consistent.get?_eq_of_run?_eq`).

Whether a start succeeds does not depend on what its system arguments name
(`Runs.exists_eval_start`): where the workflow run is unknown or has stopped, or the text is no run
id, the start goes through as one that names nothing does (`lifecycle_frame`).
-/

set_option autoImplicit false

namespace RunLedger

variable {α : Type}

/-! ### Keys of a run -/

namespace Contents

variable {before after : Contents} {program : ProgramId} {id : RunId}

theorem Consistent.legible {contents : Contents} (hconsistent : contents.Consistent) :
    contents.Legible := by
  intro program id value hvalue
  obtain ⟨record, hkey, rfl⟩ := hconsistent.records _ _ hvalue rfl
  obtain ⟨hprogram, hid⟩ := Key.run_inj hkey
  exact ⟨record, decode_runRecord record, hprogram.symm, hid.symm⟩

/-- The index holds the same for a run that has kept its status. -/
theorem Consistent.get?_statusIndex_eq (hbefore : before.Consistent) (hafter : after.Consistent)
    (hsame : (after.run? program id).map (·.status) = (before.run? program id).map (·.status))
    (status : RunStatus) :
    after.get? (Key.statusIndex status program id) =
      before.get? (Key.statusIndex status program id) := by
  rw [hafter.get?_statusIndex, hbefore.get?_statusIndex]
  cases hfirst : before.run? program id with
  | none =>
    rw [hfirst, Option.map_none, Option.map_eq_none_iff] at hsame
    rw [hsame]
  | some old =>
    rw [hfirst, Option.map_some, Option.map_eq_some_iff] at hsame
    obtain ⟨new, hsecond, hstatus⟩ := hsame
    obtain ⟨-, hprogram, hid⟩ := hbefore.of_run? hfirst
    obtain ⟨-, hprogram', hid'⟩ := hafter.of_run? hsecond
    have hentry : entryOf new = entryOf old := by
      simp only [entryOf, hprogram, hid, hprogram', hid']
    rw [hsecond, Option.filter_some, Option.filter_some, hstatus]
    split
    · rw [Option.map_some, Option.map_some, hentry]
    · rfl

/-- All keys of a run hold the same if its record is the same. -/
theorem Consistent.get?_eq_of_run?_eq (hbefore : before.Consistent) (hafter : after.Consistent)
    (hsame : after.run? program id = before.run? program id) {key : Key}
    (hkey : key.IsRecordOf program id) : after.get? key = before.get? key := by
  rcases hkey with rfl | ⟨status, rfl⟩
  · rw [hafter.get?_run, hbefore.get?_run, hsame]
  · exact hbefore.get?_statusIndex_eq hafter (by rw [hsame]) status

end Contents

/-! ### Operations -/

namespace Operation

/-- The run whose lifecycle an operation is on. -/
def ownRun? : Operation → Option (ProgramId × RunId)
  | start request => some (request.program, request.id)
  | operation => operation.amended?

/-- The workflow run and the node that an operation names: only a start names any. -/
def node? : Operation → Option (ProgramId × RunId × String)
  | start request => request.node?
  | _ => none

/-- What an operation on the lifecycle of a run does to contents: the keys that may hold something
else behind it, and how the record of another run differs. -/
structure Frames (operation : Operation) (program : ProgramId) (id : RunId)
    (before after : Contents) : Prop where
  changed : ∀ key, after.get? key ≠ before.get? key →
    key.IsRecordOf program id ∨
      ∃ workflow run node, operation.node? = some (workflow, run, node) ∧
        before.isOpen workflow run = true ∧ key = Key.run workflow run
  listed : ∀ workflow run node, operation.node? = some (workflow, run, node) →
    before.isOpen workflow run = true → ¬ (workflow = program ∧ run = id) →
      ∃ parent, before.run? workflow run = some parent ∧
        after.run? workflow run = some { parent with
          workflowNodes := parent.workflowNodes.insert node ⟨program.type, program.name, id⟩ } ∧
        ∀ status, after.get? (Key.statusIndex status workflow run) =
          before.get? (Key.statusIndex status workflow run)

end Operation

namespace Start

/-- A node that is listed on a record leaves its status. -/
theorem status_listedOn (request : Start) (record : RunRecord) :
    (request.listedOn record).status = record.status := by
  unfold listedOn
  split
  · rfl
  · split
    · rfl
    · rfl

/-- Nothing is listed on the record of a run that has stopped. -/
theorem map_listedOn (request : Start) {contents : Contents} {program : ProgramId} {id : RunId}
    (hclosed : contents.isOpen program id = false) :
    (contents.run? program id).map request.listedOn = contents.run? program id := by
  rw [Contents.isOpen] at hclosed
  cases hrun : contents.run? program id with
  | none => rfl
  | some record =>
    rw [hrun, Option.any_some, Bool.not_eq_false'] at hclosed
    rw [Option.map_some, listedOn]
    split
    · rfl
    · rw [if_neg]
      rintro ⟨-, hgoing⟩
      rw [hclosed] at hgoing
      cases hgoing

theorem listedOn_of_node? {request : Start} {record : RunRecord} {node : String}
    (hnode : request.node? = some (record.program, record.id, node))
    (hgoing : record.status.isTerminal = false) :
    request.listedOn record =
      { record with workflowNodes := record.workflowNodes.insert node request.nodeRun } := by
  rw [listedOn, hnode]
  exact if_pos ⟨⟨rfl, rfl⟩, hgoing⟩

end Start

namespace Runs

open Script

variable {contents after : Contents}

/-- The record that another run has behind a start: the one it had, but for the node that is
listed. What the index holds for it is the same. -/
theorem start_others (hconsistent : contents.Consistent) {request : Start} {record : RunRecord}
    (heval : (start request).eval contents = (.ok record, after)) (hafter : after.Consistent)
    {program : ProgramId} {id : RunId}
    (hother : ¬ (program = request.program ∧ id = request.id)) :
    after.run? program id = (contents.run? program id).map request.listedOn ∧
      ∀ status, after.get? (Key.statusIndex status program id) =
        contents.get? (Key.statusIndex status program id) := by
  have hrun := (run?_start hconsistent.legible heval).2.2 program id
  rw [if_neg hother] at hrun
  refine ⟨hrun, hconsistent.get?_statusIndex_eq hafter ?_⟩
  rw [hrun, Option.map_map]
  exact congrArg (Option.map · _) (funext request.status_listedOn)

/-- What a start that succeeds changes. -/
theorem frames_start (hconsistent : contents.Consistent) {request : Start} {record : RunRecord}
    (heval : (start request).eval contents = (.ok record, after)) :
    (Operation.start request).Frames request.program request.id contents after := by
  have hafter := consistent_of_alters (alters_start hconsistent heval) hconsistent
  refine ⟨fun key hchanged ↦ ?_, fun workflow run node hnode hopen hdiffers ↦ ?_⟩
  · refine Classical.or_iff_not_imp_left.mpr fun hown ↦ ?_
    have htouches : (Operation.start request).Touches key := by
      refine Classical.byContradiction fun huntouched ↦ hchanged ?_
      rw [← (changesOnly_start hconsistent request).get?_eval huntouched, heval]
    obtain ⟨run, hmem, hkey⟩ := htouches
    rcases List.mem_cons.mp hmem with rfl | hparent
    · exact absurd hkey hown
    obtain ⟨⟨workflow, run, node⟩, hnode, rfl⟩ :=
      Option.map_eq_some_iff.mp (Option.mem_toList.mp hparent)
    have hdiffers : ¬ (workflow = request.program ∧ run = request.id) := by
      rintro ⟨rfl, rfl⟩
      exact hown hkey
    obtain ⟨hrun, hindex⟩ := start_others hconsistent heval hafter hdiffers
    refine ⟨workflow, run, node, hnode, ?_, ?_⟩
    · refine Decidable.byContradiction fun hclosed ↦
        hchanged (hconsistent.get?_eq_of_run?_eq hafter ?_ hkey)
      rw [hrun, request.map_listedOn (Bool.eq_false_iff.mpr hclosed)]
    · rcases hkey with hkey | ⟨status, rfl⟩
      · exact hkey
      · exact absurd (hindex status) hchanged
  · rw [Contents.isOpen, Option.any_eq_true] at hopen
    obtain ⟨parent, hparent, hgoing⟩ := hopen
    obtain ⟨-, rfl, rfl⟩ := hconsistent.of_run? hparent
    rw [Bool.not_eq_true'] at hgoing
    obtain ⟨hrun, hindex⟩ := start_others hconsistent heval hafter hdiffers
    refine ⟨parent, hparent, ?_, hindex⟩
    rw [hrun, hparent, Option.map_some, Start.listedOn_of_node? hnode hgoing, Start.nodeRun]

/-- Whatever a start names in its system arguments, it succeeds if it does with other ones. -/
theorem exists_eval_start (hconsistent : contents.Consistent) {request : Start}
    {arguments : SortedMap String String} {bare : RunRecord}
    (heval : (start { request with systemArguments := arguments }).eval contents =
      (.ok bare, after)) :
    ∃ record between, (start request).eval contents = (.ok record, between) := by
  rw [eval_start hconsistent] at heval ⊢
  dsimp only at heval
  split at heval
  · cases heval
  · rename_i htime
    rw [if_neg htime]
    split at heval
    · cases heval
    · rename_i hstarted
      cases hcurrent : contents.run? request.program request.id with
      | none => exact ⟨_, _, rfl⟩
      | some current =>
        rw [hcurrent] at hstarted
        unfold startedOn RunRecord.restarted at hstarted ⊢
        dsimp only at hstarted ⊢
        split at hstarted
        · rename_i hallowed
          rw [if_pos hallowed]
          exact ⟨_, _, rfl⟩
        · cases hstarted

theorem Amendment.frames (hconsistent : contents.Consistent) {program : ProgramId} {id : RunId}
    {script : Script α} (hamendment : Amendment program id script) {operation : Operation}
    (hnode : operation.node? = none) :
    operation.Frames program id contents (script.eval contents).2 where
  changed _ hchanged := Or.inl (Classical.byContradiction fun hkey ↦
    hchanged ((hamendment.changesOnly hconsistent).get?_eval hkey))
  listed _ _ _ hnamed := by rw [hnode] at hnamed; cases hnamed

end Runs

/-- What an operation on the lifecycle of a run changes if it succeeds. -/
theorem Operation.frames {operation : Operation} {run : ProgramId × RunId}
    (hown : operation.ownRun? = some run) {contents after : Contents}
    (hconsistent : contents.Consistent) {reply : Reply}
    (heval : operation.program.eval contents = (.ok reply, after)) :
    operation.Frames run.1 run.2 contents after := by
  cases hamended : operation.amended? with
  | some amended =>
    obtain ⟨hsame, hnode⟩ : run = amended ∧ operation.node? = none := by
      cases operation with
      | start request => cases hamended
      | _ => exact ⟨Option.some.inj (hown.symm.trans hamended), rfl⟩
    obtain ⟨_, script, wording, hprogram, hamendment⟩ := exists_amendment hamended
    obtain rfl : (script.eval contents).2 = after := by
      rw [hprogram, Script.eval_map] at heval
      exact (Prod.mk.inj heval).2
    exact hsame ▸ hamendment.frames hconsistent hnode
  | none =>
  cases operation with
  | start request =>
    obtain rfl := Option.some.inj hown
    rw [program, Script.eval_map] at heval
    rcases hstart : (Runs.start request).eval contents with ⟨record | record, last⟩
    · rw [hstart] at heval
      cases heval
    · rw [hstart] at heval
      obtain rfl : last = after := (Prod.mk.inj heval).2
      exact Runs.frames_start hconsistent hstart
  | _ => cases hown.symm.trans hamended

/-! ### Starts by themselves -/

/-- A call that has changed something has left a version for it. -/
theorem Database.version_lt_of_changes {before : Database} {script : Script α} {key : Key}
    (hchanges : script.Changes key) {policy : RetryPolicy} {result : α}
    (hdone : (before.transactRetrying policy script).1 = .ok result) :
    before.version + 1 < UInt64.size := by
  obtain ⟨between, hstore, hlast⟩ := before.exists_last_attempt script policy.maxRetries
  unfold transactRetrying at hdone
  rw [hlast] at hdone
  obtain ⟨calls, outcome, transaction, called, hattempts⟩ := between.exists_attempts script
  obtain ⟨hconcludes, -, -⟩ := concludes_conclude hattempts.tracks.active called outcome
  rw [hattempts.ended] at hdone
  rw [hdone] at hconcludes
  have hsame : called.substrate.store = before.substrate.store := hattempts.store.trans hstore
  rw [version, ← hsame]
  cases hconcludes with
  | readOnly hreadOnly =>
    exact absurd (hchanges calls result hattempts.course.leads)
      (not_changed_of_effectOf_eq (hattempts.tracks.effectOf_eq hreadOnly) key)
  | committed _ _ happly =>
    rw [← nextVersion_eq (Store.apply_eq_ok happly).1]
    exact Nat.mod_lt _ (by decide)

/-- How a start goes that nobody disturbs. -/
theorem Database.performs_start {before : Database} (hstore : before.substrate.store.WellFormed)
    (hconsistent : before.live.Consistent) (policy : RetryPolicy) (request : Start) :
    before.Performs (Runs.start request) (before.transactRetrying policy (Runs.start request)).1
      (before.transactRetrying policy (Runs.start request)).2 := by
  refine (performs_transactRetrying hstore (@Runs.plain_start False request)
    (fun failure hfailure ↦ ?_) policy).1
  have hunconflicting := Runs.unconflicting_start hconsistent request
  rw [Script.eval, hfailure] at hunconflicting
  exact hunconflicting.isConflict_eq_false

/-- On a sound store that does not fail, a start that nobody disturbs goes through if it does with
other system arguments. -/
theorem Database.start_of_arguments {before : Database}
    (hstore : before.substrate.store.WellFormed) (hconsistent : before.live.Consistent)
    (hreliable : ¬ before.MayFail) {policy : RetryPolicy} {request : Start}
    {arguments : SortedMap String String} {bare : RunRecord}
    (hbare : (before.transactRetrying policy
      (Runs.start { request with systemArguments := arguments })).1 = .ok bare) :
    ∃ record, (before.transactRetrying policy (Runs.start request)).1 = .ok record ∧
      (Runs.start request).eval before.live =
        (.ok record, (before.transactRetrying policy (Runs.start request)).2.live) := by
  have hbound := version_lt_of_changes (Runs.changes_start _) hbare
  obtain ⟨record, after, heval⟩ : ∃ record after,
      (Runs.start request).eval before.live = (.ok record, after) := by
    have hperforms := performs_start hstore hconsistent policy
      { request with systemArguments := arguments }
    rw [hbare] at hperforms
    cases hperforms with
    | done hresult => exact Runs.exists_eval_start hconsistent (Prod.ext hresult rfl)
  have hperforms := performs_start hstore hconsistent policy request
  generalize before.transactRetrying policy (Runs.start request) = answered at hperforms ⊢
  obtain ⟨outcome, left⟩ := answered
  cases hperforms with
  | @done result after hresult hlive =>
    exact ⟨result, rfl, Prod.ext hresult hlive.symm⟩
  | failed hfailure =>
    rw [Script.eval, hfailure] at heval
    cases heval
  | outage _ _ hfails =>
    rcases hfails with hfails | hfull
    · exact absurd hfails hreliable
    · exact absurd hbound (Nat.not_lt.mpr hfull)

/-- In every interleaving, whatever fails: a committed operation on the lifecycle of a run changes
no keys but that of the record of the run, those of its index entries and, if it is a start that
names an open workflow run, that of the record of this one, which differs in the node that it then
lists. If the workflow run that a start names is unknown or has stopped, or the text for it is no
run id, then on a store that does not fail from now on the start goes through if it does with other
system arguments, such as ones that name none, and it changes no keys of other runs. -/
theorem lifecycle_frame (failsRead failsWrite : Nat → Bool) (config : Config)
    (events : List (Event Operation)) :
    let system := (System.initial failsRead failsWrite config).run Operation.program events
    system.database.live = contentsAfter system.history system.history.length ∧
    (∀ place (commit : Commit Operation Reply) program id, system.history[place]? = some commit →
      commit.operation.ownRun? = some (program, id) →
        commit.operation.Frames program id (contentsAfter system.history place)
          (contentsAfter system.history (place + 1))) ∧
    ∀ (settings : Config) (plan : Ledger.FailurePlan),
      (∀ serial, plan.failsRead serial = false) → (∀ serial, plan.failsWrite serial = false) →
        let asked := (⟨system.database, settings⟩ : Ledger).under plan
        ∀ request arguments bare,
          (asked.start { request with systemArguments := arguments }).1 = .ok bare →
          (∀ workflow run node, request.node? = some (workflow, run, node) →
            asked.live.isOpen workflow run = false) →
              (∃ record, (asked.start request).1 = .ok record) ∧
                ∀ key : Key, ¬ key.IsRecordOf request.program request.id →
                  (asked.start request).2.live.get? key = asked.live.get? key := by
  intro system
  have hsound : system.Sound Operation.program failsRead failsWrite :=
    System.sound_run Operation.program failsRead failsWrite config events
  have hlive : system.database.live = contentsAfter system.history system.history.length :=
    hsound.live
  refine ⟨hlive, fun place commit program id hcommit hown ↦ ?_,
    fun settings plan hreads hwrites ↦ ?_⟩
  · have hremoval : ¬ commit.operation.IsRemoval := by
      intro hremoval
      cases hoperation : commit.operation with
      | removeRuns | removeSummaries =>
        rw [hoperation] at hown
        cases hown
      | _ =>
        rw [hoperation] at hremoval
        exact hremoval
    exact Operation.frames hown (hsound.consistent place)
      ((hsound.commits place commit hcommit).eval_eq hcommit hremoval)
  · intro asked request arguments bare hbare hclosed
    have hconsistent : asked.database.live.Consistent := hlive ▸ hsound.consistent _
    have hreliable : ¬ asked.database.MayFail := by
      rintro ⟨serial, hfails | hfails⟩
      · cases (hreads serial).symm.trans hfails
      · cases (hwrites serial).symm.trans hfails
    have hstore : asked.database.substrate.store.WellFormed := hsound.wellFormed
    obtain ⟨record, hdone, heval⟩ :=
      Database.start_of_arguments hstore hconsistent hreliable hbare
    refine ⟨⟨record, hdone⟩, fun key hkey ↦ Classical.byContradiction fun hchanged ↦ ?_⟩
    rcases (Runs.frames_start hconsistent heval).changed key hchanged with hown | hparent
    · exact hkey hown
    · obtain ⟨workflow, run, node, hnode, hopen, -⟩ := hparent
      cases (hclosed workflow run node hnode).symm.trans hopen

/-- A run of the node starts for a workflow run whose run id is no such text. -/
def strayStart : Start :=
  ⟨cleaning, secondNight, 1000, none, ∅, .ofList
    [(RunRecord.workflowNameArgument, nightly.name),
      (RunRecord.workflowRunArgument, "last night"),
      (RunRecord.workflowNodeArgument, "first")]⟩

/-- A workflow run is started, and then a run of its node. -/
def nightWithCleaning : List (Event Operation) :=
  .begin (.start nightStart) :: List.replicate 3 (.call 0) ++
    .conclude 0 :: .begin (.start cleaningStart) :: List.replicate 5 (.call 1) ++ [.conclude 1]

/-- What becomes of a new ledger by these events. -/
def listedNight : System Operation Reply :=
  .reliably Operation.program nightWithCleaning

/-- The node run changes its own keys and the record of its workflow run, which lists it then.
Behind it, a run starts that names a text that is no run id. -/
theorem lifecycle_frame_listed :
    let before := contentsAfter listedNight.history 1
    let after := contentsAfter listedNight.history 2
    let asked := Ledger.under ⟨fun _ ↦ false, fun _ ↦ false⟩ ⟨listedNight.database, .standard⟩
    before.run? nightly firstNight = some nightStart.record ∧
      (∃ listed, after.run? nightly firstNight = some listed ∧
        listed.workflowNodes.get? "first" = some ⟨.spark, "cleaning", firstNight⟩) ∧
      (∀ key : Key, ¬ key.IsRecordOf cleaning firstNight → key ≠ Key.run nightly firstNight →
        after.get? key = before.get? key) ∧
      (asked.start { strayStart with systemArguments := ∅ }).1.toBool = true ∧
      strayStart.node? = none ∧ ∃ record, (asked.start strayStart).1 = .ok record := by
  intro before after asked
  obtain ⟨hheld, hcommitted, hbare, hstray⟩ :
      (contentsAfter listedNight.history 1).get? (Key.run nightly firstNight) =
        some (.ofRecord nightStart.record) ∧
      (listedNight.history[1]?.map fun commit ↦
        (commit.operation.ownRun?, commit.operation.node?)) =
          some (some (cleaning, firstNight), some (nightly, firstNight, "first")) ∧
      (Ledger.start (.under ⟨fun _ ↦ false, fun _ ↦ false⟩ ⟨listedNight.database, .standard⟩)
        { strayStart with systemArguments := ∅ }).1.toBool = true ∧
      strayStart.node? = none := by
    decide +kernel
  have hrun : before.run? nightly firstNight = some nightStart.record :=
    @Contents.run?_of_holds _ nightStart.record hheld
  have hopen : before.isOpen nightly firstNight = true := by
    rw [Contents.isOpen, hrun]
    rfl
  obtain ⟨commit, hcommit, hoperation⟩ := Option.map_eq_some_iff.mp hcommitted
  obtain ⟨hown, hnode⟩ := Prod.mk.inj hoperation
  obtain ⟨-, hframes, hstarts⟩ := lifecycle_frame (fun _ ↦ false) (fun _ ↦ false) .standard
    nightWithCleaning
  obtain ⟨hchanged, hlisted⟩ := hframes 1 commit cleaning firstNight hcommit hown
  obtain ⟨parent, -, hlists, -⟩ := hlisted nightly firstNight "first" hnode hopen (by decide)
  cases hbareOutcome : (asked.start { strayStart with systemArguments := ∅ }).1 with
  | error failure =>
    rw [hbareOutcome] at hbare
    cases hbare
  | ok bare =>
    obtain ⟨hstarted, -⟩ := hstarts .standard ⟨fun _ ↦ false, fun _ ↦ false⟩ (fun _ ↦ rfl)
      (fun _ ↦ rfl) strayStart ∅ bare hbareOutcome fun _ _ _ hnamed ↦ by
        rw [hstray] at hnamed
        cases hnamed
    refine ⟨hrun, ⟨_, hlists, ?_⟩, fun key hown hkey ↦ ?_, rfl, hstray, hstarted⟩
    · rw [SortedMap.get?_insert]
      rfl
    · refine Decidable.byContradiction fun hdiffers ↦ ?_
      rcases hchanged key hdiffers with hrecord | ⟨workflow, run, node, hnamed, -, hparent⟩
      · exact hown hrecord
      · rw [hnode] at hnamed
        cases hnamed
        exact hkey hparent

end RunLedger
