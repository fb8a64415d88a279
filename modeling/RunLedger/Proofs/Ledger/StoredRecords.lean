import RunLedger.Proofs.Ledger.Registrations
import RunLedger.Proofs.Transaction.View

/-!
# Records as they are answered and as they are stored

An operation on a run answers with a record that it has just written, or that it has found and left
alone. Looking the run up right behind it in the same transaction finds this record
(`Script.Stores`), with one exception: a start writes its record first and registers the node that
its system arguments name afterwards, so a start that names its own run as the workflow run answers
with a record that does not list the node yet, while the one that lies there lists it
(`returned_record_stored`, `selfStart_finds_another`).

The transaction may hold anything else, records that no operation would write and an index that does
not fit among it, as long as what lies under the key of a run is a record of that run
(`Contents.Legible`). What is said of such contents is said of the records that are found in them,
as the index does not count.
-/

set_option autoImplicit false

namespace RunLedger

variable {α : Type}

/-- A value inserted where it lies already changes nothing. -/
theorem SortedMap.insert_of_get?_eq {κ β : Type} [Ord κ] [Std.TransOrd κ] [Std.LawfulEqOrd κ]
    {map : SortedMap κ β} {key : κ} {value : β} (hvalue : map.get? key = some value) :
    map.insert key value = map := by
  refine ext_get? fun other ↦ ?_
  rw [get?_insert]
  split
  · rename_i hsame
    rw [Std.LawfulEqOrd.eq_of_compare hsame, hvalue]
  · rfl

/-! ### Legible contents -/

namespace Contents

/-- What lies under the key of a run is a record of that run. -/
def Legible (contents : Contents) : Prop :=
  ∀ program id value, contents.get? (Key.run program id) = some value →
    ∃ record : RunRecord, (value.decode : Except Damage RunRecord) = .ok record ∧
      record.program = program ∧ record.id = id

/-- The record has come under the key of its run, and under the keys of other runs lies what lay
there before. -/
def Rewritten (record : RunRecord) (before after : Contents) : Prop :=
  ∀ program id, after.get? (Key.run program id) =
    if program = record.program ∧ id = record.id then some (.ofRecord record)
    else before.get? (Key.run program id)

variable {contents before after : Contents} {program : ProgramId} {id : RunId} {record : RunRecord}

theorem Legible.of_run? (hlegible : contents.Legible)
    (hrun : contents.run? program id = some record) : record.program = program ∧ record.id = id := by
  obtain ⟨value, hvalue, hdecode⟩ := run?_eq_some_iff.mp hrun
  obtain ⟨other, hother, hprogram, hid⟩ := hlegible program id value hvalue
  obtain rfl : other = record := Except.ok.inj (hother.symm.trans hdecode)
  exact ⟨hprogram, hid⟩

theorem Rewritten.run? (hrewritten : Rewritten record before after) (program : ProgramId)
    (id : RunId) :
    after.run? program id =
      if program = record.program ∧ id = record.id then some record
      else before.run? program id := by
  rw [Contents.run?, hrewritten]
  split
  · rw [Option.bind_eq_bind, Option.bind_some, decode_runRecord]
    rfl
  · rfl

theorem Rewritten.legible (hrewritten : Rewritten record before after) (hbefore : before.Legible) :
    after.Legible := by
  intro program id value hvalue
  rw [hrewritten] at hvalue
  split at hvalue
  · rename_i hsame
    obtain ⟨rfl, rfl⟩ := hsame
    rw [← Option.some.inj hvalue]
    exact ⟨record, decode_runRecord record, rfl, rfl⟩
  · exact hbefore program id value hvalue

end Contents

/-! ### Looking up and writing -/

namespace Runs

open Script

variable {contents : Contents}

theorem eval_find?_of_legible (hlegible : contents.Legible) (program : ProgramId) (id : RunId) :
    (find? program id).eval contents = (.ok (contents.run? program id), contents) := by
  unfold find?
  rw [eval_bind, eval_read]
  cases hvalue : contents.get? (Key.run program id) with
  | none => simp only [Contents.run?, hvalue, Option.bind_eq_bind, Option.bind_none]; rfl
  | some value =>
    obtain ⟨record, hdecode, -⟩ := hlegible program id value hvalue
    rw [Contents.run?_eq_some_iff.mpr ⟨value, hvalue, hdecode⟩]
    dsimp only
    rw [eval_bind, Script.decode, hdecode]
    rfl

/-- Index entries come and go with a record, and no other record does. -/
theorem rewritten_write (record : RunRecord) (previous? : Option RunStatus) (contents : Contents) :
    ∃ after, (write record previous?).eval contents = (.ok (), after) ∧
      Contents.Rewritten record contents after := by
  have hown (program : ProgramId) (id : RunId) :
      Key.run program id = Key.run record.program record.id ↔
        program = record.program ∧ id = record.id :=
    ⟨Key.run_inj, fun ⟨hprogram, hid⟩ ↦ by rw [hprogram, hid]⟩
  have hentry (program : ProgramId) (id : RunId) (status : RunStatus) :
      Key.run program id ≠ Key.statusIndex status record.program record.id := Key.run_ne_statusIndex
  unfold write
  by_cases hstatus : previous? = some record.status
  · refine ⟨contents.insert (Key.run record.program record.id) (.ofRecord record), ?_,
      fun program id ↦ ?_⟩
    · rw [if_pos hstatus, eval_bind, Script.eval_write]
      rfl
    · rw [Contents.get?_insert]
      exact ite_congr (propext (hown program id)) (fun _ ↦ rfl) fun _ ↦ rfl
  · let written : Contents := contents.insert (Key.run record.program record.id) (.ofRecord record)
    let cleared : Contents := match previous? with
      | none => written
      | some previous => written.erase (Key.statusIndex previous record.program record.id)
    refine ⟨cleared.insert (Key.statusIndex record.status record.program record.id)
      (.ofRecord (⟨record.program, record.id⟩ : IndexEntry)), ?_, fun program id ↦ ?_⟩
    · rw [if_neg hstatus, eval_bind, Script.eval_write]
      cases previous? with
      | none => rfl
      | some previous => rfl
    · rw [Contents.get?_insert, if_neg (hentry program id _)]
      have hcleared : cleared.get? (Key.run program id) = written.get? (Key.run program id) := by
        cases previous? with
        | none => rfl
        | some previous => rw [Contents.get?_erase, if_neg (hentry program id previous)]
      rw [hcleared, Contents.get?_insert]
      exact ite_congr (propext (hown program id)) (fun _ ↦ rfl) fun _ ↦ rfl

end Runs

/-! ### Operations that decide on a record -/

/-- On legible contents, whenever the script comes to a result that tells a record, this is then the
record of the run. -/
def Script.Stores (script : Script α) (program : ProgramId) (id : RunId)
    (told? : α → Option RunRecord) : Prop :=
  ∀ contents after reply record, contents.Legible → script.eval contents = (.ok reply, after) →
    told? reply = some record → after.Legible ∧ after.run? program id = some record

namespace Runs

open Script

/-- A decision replies with the record that it leaves, and without a record if there is none. -/
structure Tells (told? : α → Option RunRecord) (absent : Except Failure α)
    (decision : RunRecord → Except Failure (Option RunRecord × α)) : Prop where
  absent : ∀ reply, absent = .ok reply → told? reply = none
  decided : ∀ current updated? reply record, decision current = .ok (updated?, reply) →
    told? reply = some record → record = updated?.getD current

theorem tells_always (program : ProgramId) (id : RunId)
    (change : RunRecord → Except Failure RunRecord) :
    Tells some (missing program id) (always change) where
  absent reply hreply := by cases hreply
  decided current updated? reply record hdecision htold := by
    obtain ⟨updated, -, hpair⟩ := eq_of_map_ok hdecision
    obtain ⟨rfl, rfl⟩ := Prod.mk.inj hpair
    exact (Option.some.inj htold).symm

theorem tells_halting (program : ProgramId) (id : RunId) (time : UInt64) (status : RunStatus)
    (cause? : Option FailureCause) :
    Tells some (missing program id) (halting time status cause?) where
  absent reply hreply := by cases hreply
  decided current updated? reply record hdecision htold := by
    obtain ⟨stopped?, -, hpair⟩ := eq_of_map_ok hdecision
    obtain ⟨rfl, rfl⟩ := Prod.mk.inj hpair
    exact (Option.some.inj htold).symm

theorem tells_comparing (id : RunId) (expected target : RunStatus) (time : UInt64) :
    Tells (fun reply ↦ reply) (.ok none) (comparing id expected target time) where
  absent reply hreply := (Except.ok.inj hreply).symm
  decided current updated? reply record hdecision htold := by
    unfold comparing at hdecision
    split at hdecision
    · obtain ⟨-, rfl⟩ := Prod.mk.inj (Except.ok.inj hdecision)
      cases htold
    · split at hdecision
      · cases hdecision
      · obtain ⟨changed?, -, hpair⟩ := eq_of_map_ok hdecision
        obtain ⟨rfl, rfl⟩ := Prod.mk.inj hpair
        exact (Option.some.inj htold).symm

theorem stores_amend {program : ProgramId} {id : RunId} {absent : Except Failure α}
    {decision : RunRecord → Except Failure (Option RunRecord × α)} (hmoves : OnlyMoves decision)
    {told? : α → Option RunRecord} (htells : Tells told? absent decision) :
    (amend program id absent decision).Stores program id told? := by
  intro contents after reply record hlegible heval htold
  unfold amend at heval
  rw [eval_bind, eval_find?_of_legible hlegible] at heval
  cases hrun : contents.run? program id with
  | none =>
    rw [hrun] at heval
    rw [htells.absent reply (Prod.mk.inj heval).1] at htold
    cases htold
  | some current =>
    obtain ⟨hprogram, hid⟩ := hlegible.of_run? hrun
    rw [hrun] at heval
    dsimp only at heval
    rw [Script.ofExcept, finish_bind] at heval
    cases hdecision : decision current with
    | error failure =>
      rw [hdecision] at heval
      cases heval
    | ok decided =>
      obtain ⟨updated?, answer⟩ := decided
      rw [hdecision] at heval
      have htells (hreply : answer = reply) : record = updated?.getD current :=
        htells.decided current updated? answer record hdecision (hreply ▸ htold)
      cases updated? with
      | none =>
        obtain ⟨hreply, rfl⟩ := Prod.mk.inj heval
        rw [htells (Except.ok.inj hreply)]
        exact ⟨hlegible, hrun⟩
      | some updated =>
        obtain ⟨written, hwrite, hrewritten⟩ :=
          rewritten_write updated (some current.status) contents
        dsimp only at heval
        rw [eval_bind, hwrite] at heval
        obtain ⟨hreply, hafter⟩ := Prod.mk.inj heval
        obtain rfl : written = after := hafter
        obtain ⟨hsame, hsameId, -⟩ := (hmoves current updated answer hdecision).same
        rw [htells (Except.ok.inj hreply)]
        refine ⟨hrewritten.legible hlegible, ?_⟩
        rw [hrewritten.run?, hsame, hsameId, if_pos ⟨hprogram.symm, hid.symm⟩, Option.getD_some]

theorem stores_throw (failure : Failure) (program : ProgramId) (id : RunId)
    (told? : α → Option RunRecord) : (throw failure : Script α).Stores program id told? := by
  intro contents after reply record _ heval
  cases heval

section

variable (program : ProgramId) (id : RunId) (time : UInt64)

theorem stores_suspend : (suspend program id time).Stores program id some := by
  rw [suspend_eq]
  exact stores_amend (onlyMoves_always (.suspended time)) (tells_always program id _)

theorem stores_resume : (resume program id time).Stores program id some := by
  rw [resume_eq]
  exact stores_amend (onlyMoves_always (.resumed time)) (tells_always program id _)

theorem stores_stop (status : RunStatus) (cause? : Option FailureCause) :
    (stop program id time status cause?).Stores program id some := by
  rw [stop_eq]
  split
  · exact stores_amend (onlyMoves_halting time status cause?)
      (tells_halting program id time status cause?)
  · exact stores_throw _ program id some

theorem stores_compareAndSet (expected target : RunStatus) :
    (compareAndSet program id expected target time).Stores program id fun reply ↦ reply := by
  rw [compareAndSet_eq]
  exact stores_amend (onlyMoves_comparing id expected target time)
    (tells_comparing id expected target time)

end

end Runs

/-! ### Starts -/

/-- The record that lies there behind a start that answers with a record: if the start names its own
run, the node is listed on it. -/
def Start.stored (request : Start) (record : RunRecord) : RunRecord :=
  match request.node? with
  | none => record
  | some (workflow, id, node) =>
    if workflow = request.program ∧ id = request.id then
      { record with workflowNodes := record.workflowNodes.insert node request.nodeRun }
    else record

/-- A record behind a start: if it is of the workflow run that the start names, and that run has not
stopped, the node is listed on it. -/
def Start.listedOn (request : Start) (record : RunRecord) : RunRecord :=
  match request.node? with
  | none => record
  | some (workflow, id, node) =>
    if (workflow = record.program ∧ id = record.id) ∧ record.status.isTerminal = false then
      { record with workflowNodes := record.workflowNodes.insert node request.nodeRun }
    else record

theorem Start.stored_of_not_namesItself {request : Start} (hself : ¬ request.NamesItself)
    (record : RunRecord) : request.stored record = record := by
  unfold stored
  split
  · rfl
  · rename_i workflow id node hnode
    rw [if_neg]
    rintro ⟨rfl, rfl⟩
    exact hself ⟨node, hnode⟩

theorem Start.stored_of_node? {request : Start} {node : String}
    (hnode : request.node? = some (request.program, request.id, node)) (record : RunRecord) :
    request.stored record =
      { record with workflowNodes := record.workflowNodes.insert node request.nodeRun } := by
  rw [stored, hnode]
  exact if_pos ⟨rfl, rfl⟩

namespace Runs

open Script

variable {contents : Contents}

theorem startedOn_status {request : Start} {current? : Option RunRecord} {record : RunRecord}
    (hstarted : startedOn request current? = .ok record) : record.status = .running := by
  cases current? with
  | none =>
    obtain rfl := Except.ok.inj hstarted
    rfl
  | some current =>
    unfold startedOn RunRecord.restarted at hstarted
    dsimp only at hstarted
    split at hstarted
    · obtain rfl := Except.ok.inj hstarted
      rfl
    · cases hstarted

/-- A registration leaves all records but that of an open workflow run, which then lists the node
run. -/
theorem run?_registerNode (hlegible : contents.Legible) (workflow : ProgramId)
    (workflowRun node : String) (record : RunRecord) :
    ∃ after, (registerNode workflow workflowRun node record).eval contents = (.ok (), after) ∧
      after.Legible ∧ ∀ program id, after.run? program id =
        if (program = workflow ∧ RunId.parse? workflowRun = some id) ∧
            contents.isOpen program id = true then
          (contents.run? program id).map fun parent ↦ { parent with
            workflowNodes := parent.workflowNodes.insert node
              ⟨record.program.type, record.program.name, record.id⟩ }
        else contents.run? program id := by
  -- where nothing is written, the workflow run is not open or lists the node run already
  have hsame (hnone : ∀ id, RunId.parse? workflowRun = some id → contents.isOpen workflow id = true →
      ∃ parent, contents.run? workflow id = some parent ∧ parent.workflowNodes.get? node =
        some ⟨record.program.type, record.program.name, record.id⟩) (program : ProgramId)
      (id : RunId) :
      contents.run? program id =
        if (program = workflow ∧ RunId.parse? workflowRun = some id) ∧
            contents.isOpen program id = true then
          (contents.run? program id).map fun parent ↦ { parent with
            workflowNodes := parent.workflowNodes.insert node
              ⟨record.program.type, record.program.name, record.id⟩ }
        else contents.run? program id := by
    split
    · rename_i hnamed
      obtain ⟨⟨rfl, hid⟩, hopen⟩ := hnamed
      obtain ⟨parent, hrun, hlisted⟩ := hnone id hid hopen
      rw [hrun, Option.map_some, SortedMap.insert_of_get?_eq hlisted]
    · rfl
  unfold registerNode
  cases hid : RunId.parse? workflowRun with
  | none =>
    exact ⟨contents, rfl, hlegible, hid ▸ hsame fun id hparsed ↦ by cases hid.symm.trans hparsed⟩
  | some id =>
    dsimp only
    rw [eval_bind, eval_find?_of_legible hlegible]
    cases hrun : contents.run? workflow id with
    | none =>
      refine ⟨contents, rfl, hlegible, hid ▸ hsame fun other hother hopen ↦ ?_⟩
      obtain rfl := Option.some.inj (hid.symm.trans hother)
      rw [Contents.isOpen, hrun] at hopen
      cases hopen
    | some parent =>
      obtain ⟨rfl, rfl⟩ := hlegible.of_run? hrun
      have hopen : contents.isOpen parent.program parent.id = !parent.status.isTerminal := by
        rw [Contents.isOpen, hrun, Option.any_some]
      dsimp only
      split
      · rename_i hstopped
        refine ⟨contents, rfl, hlegible, hid ▸ hsame fun other hother hgoing ↦ ?_⟩
        obtain rfl := Option.some.inj (hid.symm.trans hother)
        rw [hopen, hstopped] at hgoing
        cases hgoing
      · rename_i hgoing
        split
        · rename_i hlisted
          refine ⟨contents, rfl, hlegible, hid ▸ hsame fun other hother _ ↦ ?_⟩
          obtain rfl := Option.some.inj (hid.symm.trans hother)
          exact ⟨parent, hrun, hlisted⟩
        · obtain ⟨after, hwrite, hrewritten⟩ := rewritten_write { parent with
            workflowNodes := parent.workflowNodes.insert node
              ⟨record.program.type, record.program.name, record.id⟩ } (some parent.status) contents
          refine ⟨after, hwrite, hrewritten.legible hlegible, fun program id ↦ ?_⟩
          rw [hrewritten.run?]
          dsimp only
          by_cases hown : program = parent.program ∧ id = parent.id
          · obtain ⟨rfl, rfl⟩ := hown
            rw [if_pos ⟨rfl, rfl⟩, if_pos ⟨⟨rfl, rfl⟩, by rw [hopen]; simp [hgoing]⟩, hrun,
              Option.map_some]
          · rw [if_neg hown, if_neg]
            rintro ⟨⟨hprogram, hsame⟩, -⟩
            exact hown ⟨hprogram, (Option.some.inj hsame).symm⟩

/-- A record that is written and listed where its system arguments say is then that of its run, and
all other runs have the records they had, but for the node that is listed. -/
theorem run?_settle (hlegible : contents.Legible) {request : Start} {record : RunRecord}
    (hprogram : record.program = request.program) (hid : record.id = request.id)
    (hnamed : record.parentWorkflow? = request.record.parentWorkflow?)
    (previous? : Option RunStatus) :
    ∃ after, (settle previous? record).eval contents = (.ok record, after) ∧ after.Legible ∧
      ∀ program id, after.run? program id =
        (if program = request.program ∧ id = request.id then some record
          else contents.run? program id).map request.listedOn := by
  obtain ⟨recorded, hwrite, hrewritten⟩ := rewritten_write record previous? contents
  have hrecorded := hrewritten.legible hlegible
  have hrun := hrewritten.run?
  rw [hprogram, hid] at hrun
  unfold settle
  rw [eval_bind, hwrite, hnamed]
  cases hparent : request.record.parentWorkflow? with
  | none =>
    have hkept : request.listedOn = fun record ↦ record := funext fun record ↦ by
      rw [Start.listedOn, Start.node?, hparent, Option.bind_none]
    refine ⟨recorded, rfl, hrecorded, fun program id ↦ ?_⟩
    rw [← hrun, hkept, Option.map_id']
  | some named =>
    obtain ⟨workflow, workflowRun, node⟩ := named
    obtain ⟨listed, hregister, hlisted, hrecords⟩ :=
      run?_registerNode hrecorded workflow workflowRun node record
    refine ⟨listed, ?_, hlisted, fun program id ↦ ?_⟩
    · dsimp only
      rw [eval_bind, hregister]
      rfl
    · have hnode : request.node? =
          (RunId.parse? workflowRun).map fun id ↦ (workflow, id, node) := by
        rw [Start.node?, hparent, Option.bind_some]
      have hentry : (⟨record.program.type, record.program.name, record.id⟩ : NodeRun) =
          request.nodeRun := by rw [hprogram, hid, Start.nodeRun]
      rw [hrecords, hentry, ← hrun]
      cases hfound : recorded.run? program id with
      | none => exact ite_self none
      | some found =>
        obtain ⟨rfl, rfl⟩ := hrecorded.of_run? hfound
        rw [Contents.isOpen, hfound, Option.any_some, Option.map_some, Option.map_some,
          ← apply_ite some, Start.listedOn, hnode]
        cases RunId.parse? workflowRun with
        | none => simp
        | some parent => simp [eq_comm (a := workflow)]

/-- Behind a start lies the record that it answers with, and all other runs have the records they
had, but for the node that it lists. -/
theorem run?_start (hlegible : contents.Legible) {request : Start} {record : RunRecord}
    {after : Contents} (heval : (start request).eval contents = (.ok record, after)) :
    (record.program = request.program ∧ record.id = request.id ∧ record.status = .running) ∧
      after.Legible ∧ ∀ program id, after.run? program id =
        (if program = request.program ∧ id = request.id then some record
          else contents.run? program id).map request.listedOn := by
  rw [start_eq] at heval
  split at heval
  · cases heval
  rename_i htime
  rw [Decidable.not_not] at htime
  rw [eval_bind, eval_find?_of_legible hlegible] at heval
  dsimp only at heval
  rw [Script.ofExcept, finish_bind] at heval
  cases hstarted : startedOn request (contents.run? request.program request.id) with
  | error failure =>
    rw [hstarted] at heval
    cases heval
  | ok written =>
    obtain ⟨hprogram, hid, -⟩ := startedOn_same htime hstarted
    obtain ⟨settled, hsettle, hlegible', hrun⟩ := run?_settle hlegible hprogram hid
      (@startedOn_nodes "" _ _ _ hstarted).2
      ((contents.run? request.program request.id).map (·.status))
    rw [hstarted] at heval
    obtain ⟨hreply, rfl⟩ := Prod.mk.inj (hsettle.symm.trans heval)
    obtain rfl := Except.ok.inj hreply
    exact ⟨⟨hprogram, hid, startedOn_status hstarted⟩, hlegible', hrun⟩

/-- Behind a start lies the record that it answers with, and the node it registers on itself. -/
theorem start_stored (hlegible : contents.Legible) {request : Start} {record : RunRecord}
    {after : Contents} (heval : (start request).eval contents = (.ok record, after)) :
    after.Legible ∧
      after.run? request.program request.id = some (request.stored record) := by
  obtain ⟨⟨hprogram, hid, hrunning⟩, hafter, hrun⟩ := run?_start hlegible heval
  have hlisted : request.listedOn record = request.stored record := by
    simp [Start.listedOn, Start.stored, hprogram, hid, hrunning, RunStatus.isTerminal]
  rw [hrun, if_pos ⟨rfl, rfl⟩, Option.map_some, hlisted]
  exact ⟨hafter, rfl⟩

end Runs

/-! ### In a transaction -/

/-- Only an active transaction gets a result of the script. -/
def Script.NeedsActive (script : Script α) : Prop :=
  ∀ (transaction : Transaction) (substrate : Substrate) (reply : α),
    (script.run transaction substrate).1 = .ok reply → transaction.status = .active

namespace Runs

open Script

theorem needsActive_find?_bind (program : ProgramId) (id : RunId)
    (next : Option RunRecord → Script α) : (find? program id >>= next).NeedsActive := by
  intro transaction substrate reply hdone
  refine Decidable.byContradiction fun hinactive ↦ ?_
  unfold find? at hdone
  rw [bind_assoc, run_read_bind_of_not_active hinactive] at hdone
  cases hdone

theorem needsActive_throw (failure : Failure) : (throw failure : Script α).NeedsActive := by
  intro transaction substrate reply hdone
  cases hdone

theorem Amendment.needsActive {program : ProgramId} {id : RunId} {script : Script α}
    (hamendment : Amendment program id script) : script.NeedsActive := by
  cases hamendment with
  | amends absent hmoves => exact needsActive_find?_bind program id _
  | refused failure => exact needsActive_throw failure

theorem needsActive_start (request : Start) : (start request).NeedsActive := by
  rw [start_eq]
  split
  · exact needsActive_throw _
  · exact needsActive_find?_bind _ _ _

/-- What looking a run up gives right behind a script, in the same transaction. -/
def foundBehind (program : ProgramId) (id : RunId)
    (ran : Except Failure α × Transaction × Substrate) : Except Failure (Option RunRecord) :=
  ((find? program id).run ran.2.1 ran.2.2).1

/-- Behind a script that has come to a result, a run is found as the contents left by the script tell
it, unless the store fails. -/
theorem gives_foundBehind {mayChange : Key → Prop} {script : Script α}
    (hplain : script.Plain False mayChange) (hactive : script.NeedsActive)
    {transaction : Transaction} {substrate : Substrate} {reply : α}
    (hdone : (script.run transaction substrate).1 = .ok reply) (program : ProgramId) (id : RunId) :
    ∃ after, script.eval (transaction.view substrate.store) = (.ok reply, after) ∧
      (after.Legible → substrate.Gives (.ok (after.run? program id))
        (foundBehind program id (script.run transaction substrate))) := by
  obtain ⟨hafter, honly, hcame⟩ :=
    hplain.goes (hactive transaction substrate reply hdone) substrate
  unfold foundBehind
  generalize script.run transaction substrate = ran at hdone hafter honly hcame ⊢
  obtain ⟨outcome, left, issued⟩ := ran
  obtain rfl : outcome = .ok reply := hdone
  rcases hcame with heval | ⟨⟨cause, houtage⟩, -⟩
  · refine ⟨_, heval, fun hlegible ↦ ?_⟩
    have hfound := ((plain_find? program id : (find? program id).Plain False fun _ ↦ False).goes
      hafter issued).came
    rw [show issued.store = _ from honly.store, eval_find?_of_legible hlegible,
      show issued.failsRead = _ from honly.failsRead] at hfound
    exact hfound.imp_left fun heval ↦ (congrArg Prod.fst heval).symm
  · cases houtage

/-- A script that stores what it tells, stores it in every transaction. -/
theorem gives_of_stores {mayChange : Key → Prop} {script : Script α}
    (hplain : script.Plain False mayChange) (hactive : script.NeedsActive) {program : ProgramId}
    {id : RunId} {told? : α → Option RunRecord} (hstores : script.Stores program id told?)
    {transaction : Transaction} {substrate : Substrate}
    (hlegible : (transaction.view substrate.store).Legible) {reply : α} {record : RunRecord}
    (hdone : (script.run transaction substrate).1 = .ok reply) (htold : told? reply = some record) :
    substrate.Gives (.ok (some record))
      (foundBehind program id (script.run transaction substrate)) := by
  obtain ⟨after, heval, hgives⟩ := gives_foundBehind hplain hactive hdone program id
  obtain ⟨hafter, hrun⟩ := hstores _ after reply record hlegible heval htold
  exact hrun ▸ hgives hafter

theorem gives_foundBehind_start {transaction : Transaction} {substrate : Substrate}
    (hlegible : (transaction.view substrate.store).Legible) {request : Start} {record : RunRecord}
    (hdone : ((start request).run transaction substrate).1 = .ok record) :
    substrate.Gives (.ok (some (request.stored record)))
      (foundBehind request.program request.id ((start request).run transaction substrate)) := by
  obtain ⟨after, heval, hgives⟩ := gives_foundBehind (plain_start request)
    (needsActive_start request) hdone request.program request.id
  obtain ⟨hafter, hrun⟩ := start_stored hlegible heval
  exact hrun ▸ hgives hafter

/-- A start in a new transaction on an empty store answers with its own record. -/
theorem run_start_of_empty {request : Start} (htime : request.startTime = request.id.seconds) :
    ((start request).run (.onSnapshot 1 0) (.reliable .empty)).1 = .ok request.record := by
  have hactive : (Transaction.onSnapshot 1 0).status = .active := rfl
  have hgoes : (start request).Goes ∅ (.reliable .empty)
      ((start request).run (.onSnapshot 1 0) (.reliable .empty)) :=
    (@plain_start False request).goes hactive (.reliable .empty)
  rcases hgoes.came with heval | ⟨-, serial, hfails⟩
  · rw [eval_start .empty, if_neg (not_not_intro htime)] at heval
    exact (congrArg Prod.fst heval).symm
  · cases hfails

end Runs

/-- In every transaction, whatever it has done and whatever store it reads, as long as what it reads
under keys of runs are records of these runs: behind a suspension, a resumption, a stop or a
compare-and-set that answers with a record, looking the run up in the same transaction gives exactly
this record, unless a read fails as planned. So it is behind a start, except that a start that names
its own run as its workflow run has listed its node on the record meanwhile. -/
theorem returned_record_stored (transaction : Transaction) (substrate : Substrate)
    (hlegible : (transaction.view substrate.store).Legible) (program : ProgramId) (id : RunId) :
    let found {α : Type} (script : Script α) : Except Failure (Option RunRecord) :=
      Runs.foundBehind program id (script.run transaction substrate)
    let answers {α : Type} (script : Script α) (reply : α) : Prop :=
      (script.run transaction substrate).1 = .ok reply
    (∀ time record, answers (Runs.suspend program id time) record →
      substrate.Gives (.ok (some record)) (found (Runs.suspend program id time))) ∧
    (∀ time record, answers (Runs.resume program id time) record →
      substrate.Gives (.ok (some record)) (found (Runs.resume program id time))) ∧
    (∀ time status cause? record, answers (Runs.stop program id time status cause?) record →
      substrate.Gives (.ok (some record)) (found (Runs.stop program id time status cause?))) ∧
    (∀ expected target time record,
      answers (Runs.compareAndSet program id expected target time) (some record) →
        substrate.Gives (.ok (some record))
          (found (Runs.compareAndSet program id expected target time))) ∧
    ∀ request record, request.program = program → request.id = id →
      answers (Runs.start request) record →
        (¬ request.NamesItself →
          substrate.Gives (.ok (some record)) (found (Runs.start request))) ∧
        ∀ node, request.node? = some (program, id, node) →
          substrate.Gives
            (.ok (some { record with
              workflowNodes := record.workflowNodes.insert node request.nodeRun }))
            (found (Runs.start request)) := by
  intro found answers
  refine ⟨fun time record hdone ↦ ?_, fun time record hdone ↦ ?_,
    fun time status cause? record hdone ↦ ?_, fun expected target time record hdone ↦ ?_,
    fun request record hprogram hid hdone ↦ ?_⟩
  · have hamendment := Runs.amendment_suspend program id time
    exact Runs.gives_of_stores hamendment.plain hamendment.needsActive
      (Runs.stores_suspend program id time) hlegible hdone rfl
  · have hamendment := Runs.amendment_resume program id time
    exact Runs.gives_of_stores hamendment.plain hamendment.needsActive
      (Runs.stores_resume program id time) hlegible hdone rfl
  · have hamendment := Runs.amendment_stop program id time status cause?
    exact Runs.gives_of_stores hamendment.plain hamendment.needsActive
      (Runs.stores_stop program id time status cause?) hlegible hdone rfl
  · have hamendment := Runs.amendment_compareAndSet program id time expected target
    exact Runs.gives_of_stores hamendment.plain hamendment.needsActive
      (Runs.stores_compareAndSet program id time expected target) hlegible hdone rfl
  · subst hprogram hid
    have hfound := Runs.gives_foundBehind_start hlegible hdone
    refine ⟨fun hself ↦ ?_, fun node hnode ↦ ?_⟩
    · exact Start.stored_of_not_namesItself hself record ▸ hfound
    · exact Start.stored_of_node? hnode record ▸ hfound

/-- A workflow run is started in a new transaction on an empty store and found as it was answered. -/
theorem returned_record_stored_night :
    let transaction := Transaction.onSnapshot 1 0
    let substrate := Substrate.reliable .empty
    let ran := (Runs.start nightStart).run transaction substrate
    (transaction.view substrate.store).Legible ∧ ¬ nightStart.NamesItself ∧
      ran.1 = .ok nightStart.record ∧
      Runs.foundBehind nightly firstNight ran = .ok (some nightStart.record) := by
  intro transaction substrate ran
  have hlegible : (transaction.view substrate.store).Legible := by
    intro program id value hvalue
    cases hvalue
  have hself : ¬ nightStart.NamesItself := by
    rintro ⟨node, hnode⟩
    cases hnode
  have hdone : ran.1 = .ok nightStart.record := Runs.run_start_of_empty (by decide +kernel)
  obtain ⟨-, -, -, -, hstart⟩ :=
    returned_record_stored transaction substrate hlegible nightly firstNight
  have hfound := (hstart nightStart nightStart.record rfl rfl hdone).1 hself
  exact ⟨hlegible, hself, hdone, hfound.eq_of_reads fun _ ↦ rfl⟩

/-- A workflow run whose system arguments name itself as the workflow run that it is a node of. -/
def selfStart : Start :=
  ⟨nightly, firstNight, 1000, none, ∅, .ofList
    [(RunRecord.workflowNameArgument, nightly.name),
      (RunRecord.workflowRunArgument, firstNight.text),
      (RunRecord.workflowNodeArgument, "n")]⟩

/-- What becomes of that start in a new transaction on an empty store. -/
def selfStarted : Except Failure RunRecord × Transaction × Substrate :=
  (Runs.start selfStart).run (.onSnapshot 1 0) (.reliable .empty)

/-- A start that names its own run answers with a record without the node that it has registered: on
an empty store, where there is nothing that could not be read, the record found right behind it in
the same transaction is another one. -/
theorem selfStart_finds_another :
    ((Transaction.onSnapshot 1 0).view (Substrate.reliable .empty).store).Legible ∧
      ∃ returned found, selfStarted.1 = .ok returned ∧
        Runs.foundBehind nightly firstNight selfStarted = .ok (some found) ∧
        returned.workflowNodes.keys = [] ∧ found.workflowNodes.keys = ["n"] ∧ returned ≠ found := by
  have hlegible : ((Transaction.onSnapshot 1 0).view (Substrate.reliable .empty).store).Legible := by
    intro program id value hvalue
    cases hvalue
  have hdone : selfStarted.1 = .ok selfStart.record := Runs.run_start_of_empty (by decide +kernel)
  have hnode : selfStart.node? = some (selfStart.program, selfStart.id, "n") := by decide +kernel
  have hfound := (Runs.gives_foundBehind_start hlegible hdone).eq_of_reads fun _ ↦ rfl
  rw [Start.stored_of_node? hnode] at hfound
  refine ⟨hlegible, _, _, hdone, hfound, rfl, rfl, fun hsame ↦ ?_⟩
  cases congrArg (fun record ↦ record.workflowNodes.keys) hsame

end RunLedger
