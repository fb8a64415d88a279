import RunLedger.Ledger.Runs
import RunLedger.Proofs.Key.Layout
import RunLedger.Proofs.Stored.RoundTrip
import RunLedger.Proofs.Transaction.Evaluation

/-!
# Run records among contents

Contents are consistent if under the keys of runs lie records of these runs, each with the one entry
of the status index that its status calls for, and the index has no other entries (`Consistent`). On
consistent contents `Runs.find?` gives the record of a run (`eval_find?`), and `Runs.write` leaves
consistent contents that differ in this record and its entry alone (`Recorded`).

`RunRecord.Becomes` lists how records come to be and how they change. None of its changes starts
from a stopped run (`Becomes.isTerminal_eq_false`).
-/

set_option autoImplicit false

namespace RunLedger

/-! ### Families -/

namespace Key

/-- Only keys of the run family are keys of runs. -/
theorem ne_run {key : Key} (hfamily : key.family ≠ .run) (program : ProgramId) (id : RunId) :
    key ≠ run program id := fun hequal ↦ hfamily (congrArg Key.family hequal)

/-- Only keys of the index family are keys of index entries. -/
theorem ne_statusIndex {key : Key} (hfamily : key.family ≠ .runByStatus) (status : RunStatus)
    (program : ProgramId) (id : RunId) : key ≠ statusIndex status program id :=
  fun hequal ↦ hfamily (congrArg Key.family hequal)

theorem run_ne_statusIndex {first second : ProgramId} {id other : RunId} {status : RunStatus} :
    run first id ≠ statusIndex status second other :=
  ne_statusIndex (show Family.run ≠ .runByStatus by decide) status second other

/-- The key is of the record of a run or of an entry of that run in the status index. -/
def IsRecordOf (program : ProgramId) (id : RunId) (key : Key) : Prop :=
  key = run program id ∨ ∃ status, key = statusIndex status program id

theorem IsRecordOf.unique {first second : ProgramId} {id other : RunId} {key : Key}
    (hfirst : key.IsRecordOf first id) (hsecond : key.IsRecordOf second other) :
    first = second ∧ id = other := by
  rcases hfirst with rfl | ⟨status, rfl⟩
  · rcases hsecond with hrun | ⟨status, hentry⟩
    · exact run_inj hrun
    · exact absurd hentry run_ne_statusIndex
  · rcases hsecond with hrun | ⟨status, hentry⟩
    · exact absurd hrun.symm run_ne_statusIndex
    · exact (statusIndex_inj hentry).2

end Key

namespace Contents

theorem get?_insert (contents : Contents) (key other : Key) (value : Value) :
    (contents.insert key value).get? other =
      if other = key then some value else contents.get? other := by
  simp only [SortedMap.get?_insert, Key.compare_eq_iff_eq]

theorem get?_erase (contents : Contents) (key other : Key) :
    (contents.erase key).get? other = if other = key then none else contents.get? other := by
  simp only [SortedMap.get?_erase, Key.compare_eq_iff_eq, @eq_comm _ other key]

/-! ### Records -/

/-- The record of a run, if there is one that can be read. -/
def run? (contents : Contents) (program : ProgramId) (id : RunId) : Option RunRecord := do
  let value ← contents.get? (Key.run program id)
  (value.decode : Except Damage RunRecord).toOption

/-- The record lies where it belongs. -/
def Holds (contents : Contents) (record : RunRecord) : Prop :=
  contents.get? (Key.run record.program record.id) = some (.ofRecord record)

/-- The index entry of a record. -/
def entryOf (record : RunRecord) : Value := .ofRecord (⟨record.program, record.id⟩ : IndexEntry)

/-- Runs and the status index tell the same. -/
structure Consistent (contents : Contents) : Prop where
  records : ∀ key value, contents.get? key = some value → key.family = .run →
    ∃ record : RunRecord, key = Key.run record.program record.id ∧ value = .ofRecord record
  entries : ∀ key value, contents.get? key = some value → key.family = .runByStatus →
    ∃ record, contents.Holds record ∧
      key = Key.statusIndex record.status record.program record.id ∧ value = entryOf record
  indexed : ∀ record, contents.Holds record →
    contents.get? (Key.statusIndex record.status record.program record.id) = some (entryOf record)

theorem Consistent.empty : Consistent ∅ where
  records key value hvalue := by cases hvalue
  entries key value hvalue := by cases hvalue
  indexed record hholds := by cases hholds

variable {contents : Contents} {program : ProgramId} {id : RunId} {record : RunRecord}

/-- A run has a record exactly if its key is there with a payload that decodes. -/
theorem run?_eq_some_iff :
    contents.run? program id = some record ↔
      ∃ value, contents.get? (Key.run program id) = some value ∧
        (value.decode : Except Damage RunRecord) = .ok record := by
  have htoOption (outcome : Except Damage RunRecord) :
      outcome.toOption = some record ↔ outcome = .ok record := by
    cases outcome with
    | ok found => simp [Except.toOption]
    | error damage => simp [Except.toOption]
  simp only [run?, Option.bind_eq_bind, Option.bind_eq_some_iff, htoOption]

theorem run?_of_holds (hholds : contents.Holds record) :
    contents.run? record.program record.id = some record := by
  simp only [run?, show contents.get? _ = _ from hholds, Option.bind_eq_bind, Option.bind_some,
    decode_runRecord]
  rfl

/-- The record found for a run is one of that run. -/
theorem Consistent.of_run? (hconsistent : contents.Consistent)
    (hrun : contents.run? program id = some record) :
    contents.Holds record ∧ record.program = program ∧ record.id = id := by
  obtain ⟨value, hvalue, hdecode⟩ := Option.bind_eq_some_iff.mp hrun
  obtain ⟨held, hkey, rfl⟩ := hconsistent.records _ _ hvalue rfl
  rw [decode_runRecord] at hdecode
  obtain rfl : held = record := Option.some.inj hdecode
  obtain ⟨rfl, rfl⟩ := Key.run_inj hkey
  exact ⟨hvalue, rfl, rfl⟩

theorem Consistent.get?_run (hconsistent : contents.Consistent) (program : ProgramId)
    (id : RunId) :
    contents.get? (Key.run program id) = (contents.run? program id).map .ofRecord := by
  cases hvalue : contents.get? (Key.run program id) with
  | none => simp [run?, hvalue]
  | some value =>
    obtain ⟨record, hkey, rfl⟩ := hconsistent.records _ _ hvalue rfl
    obtain ⟨rfl, rfl⟩ := Key.run_inj hkey
    rw [run?_of_holds hvalue]
    rfl

/-- A run is there if its record is. -/
theorem Consistent.contains_run (hconsistent : contents.Consistent) (program : ProgramId)
    (id : RunId) :
    contents.contains (Key.run program id) = (contents.run? program id).isSome := by
  rw [SortedMap.contains_eq, hconsistent.get?_run, Option.isSome_map]

/-! ### Records that are written -/

/-- Contents with another record of a run, and the index entry moved if the status is another. -/
def recording (contents : Contents) (record : RunRecord) : Contents :=
  let written : Contents := contents.insert (Key.run record.program record.id) (.ofRecord record)
  match (contents.run? record.program record.id).map (·.status) with
  | none =>
    written.insert (Key.statusIndex record.status record.program record.id) (entryOf record)
  | some previous =>
    if previous = record.status then written
    else
      (written.erase (Key.statusIndex previous record.program record.id)).insert
        (Key.statusIndex record.status record.program record.id) (entryOf record)

/-- Contents differ in the record of one run and its index entries alone. -/
structure Recorded (record : RunRecord) (before after : Contents) : Prop where
  holds : after.Holds record
  index : ∀ status, after.get? (Key.statusIndex status record.program record.id) =
    if status = record.status then some (entryOf record) else none
  others : ∀ key, key ≠ Key.run record.program record.id →
    (∀ status, key ≠ Key.statusIndex status record.program record.id) →
      after.get? key = before.get? key

/-- What consistent contents have in the index for a run. -/
theorem Consistent.get?_statusIndex (hconsistent : contents.Consistent) (status : RunStatus)
    (program : ProgramId) (id : RunId) :
    contents.get? (Key.statusIndex status program id) =
      ((contents.run? program id).filter fun record ↦ record.status = status).map entryOf := by
  cases hrun : contents.run? program id with
  | none =>
    rw [Option.filter_none, Option.map_none, Option.eq_none_iff_forall_ne_some]
    intro value hvalue
    obtain ⟨record, hholds, hkey, -⟩ := hconsistent.entries _ _ hvalue rfl
    obtain ⟨-, rfl, rfl⟩ := Key.statusIndex_inj hkey
    rw [run?_of_holds hholds] at hrun
    cases hrun
  | some record =>
    obtain ⟨hholds, rfl, rfl⟩ := hconsistent.of_run? hrun
    by_cases hstatus : record.status = status
    · subst hstatus
      rw [hconsistent.indexed record hholds]
      simp [Option.filter]
    · simp only [Option.filter, hstatus, decide_false, Bool.false_eq_true, if_false,
        Option.map_none, Option.eq_none_iff_forall_ne_some]
      intro value hvalue
      obtain ⟨other, hother, hkey, -⟩ := hconsistent.entries _ _ hvalue rfl
      obtain ⟨rfl, hprogram, hid⟩ := Key.statusIndex_inj hkey
      have hfound := run?_of_holds hother
      rw [← hprogram, ← hid, hrun] at hfound
      exact hstatus (congrArg RunRecord.status (Option.some.inj hfound))

/-- A record written into consistent contents changes its own place and its index entries. -/
theorem Consistent.recorded_recording (hconsistent : contents.Consistent) (record : RunRecord) :
    Recorded record contents (contents.recording record) := by
  have hkeys (status : RunStatus) : Key.run record.program record.id ≠
      Key.statusIndex status record.program record.id := Key.run_ne_statusIndex
  have hstatus (first second : RunStatus) : Key.statusIndex first record.program record.id =
      Key.statusIndex second record.program record.id ↔ first = second :=
    ⟨fun hequal ↦ (Key.statusIndex_inj hequal).1, fun hequal ↦ by rw [hequal]⟩
  have hindex (status : RunStatus) := hconsistent.get?_statusIndex status record.program record.id
  unfold recording
  cases hrun : contents.run? record.program record.id with
  | none =>
    rw [hrun] at hindex
    refine ⟨?_, fun status ↦ ?_, fun key hkey hentry ↦ ?_⟩
    · simp [Holds, get?_insert, hkeys]
    · simp [get?_insert, hstatus, (hkeys _).symm, hindex]
    · simp [get?_insert, hkey, hentry]
  | some previous =>
    rw [hrun] at hindex
    obtain ⟨-, hprogram, hid⟩ := hconsistent.of_run? hrun
    have hentry : entryOf previous = entryOf record := by simp only [entryOf, hprogram, hid]
    dsimp only [Option.map_some]
    split
    · rename_i hsame
      refine ⟨?_, fun status ↦ ?_, fun key hkey _ ↦ ?_⟩
      · simp [Holds, get?_insert]
      · by_cases hnow : status = record.status
        · simp [get?_insert, (hkeys _).symm, hindex, Option.filter, hsame, hnow, hentry]
        · simp [get?_insert, (hkeys _).symm, hindex, Option.filter, hsame, hnow, Ne.symm hnow]
      · simp [get?_insert, hkey]
    · rename_i hmoved
      refine ⟨?_, fun status ↦ ?_, fun key hkey hentry ↦ ?_⟩
      · simp [Holds, get?_insert, get?_erase, hkeys]
      · by_cases hnow : status = record.status
        · simp [get?_insert, hnow]
        · by_cases hbefore : status = previous.status
          · simp [get?_insert, get?_erase, hstatus, hbefore, hmoved]
          · simp [get?_insert, get?_erase, hstatus, (hkeys _).symm, hnow, hbefore, hindex,
              Option.filter, Ne.symm hbefore]
      · simp [get?_insert, get?_erase, hkey, hentry]

namespace Recorded

variable {before after : Contents}

theorem get?_of_family (hrecorded : Recorded record before after) {key : Key}
    (hrun : key.family ≠ .run) (hindex : key.family ≠ .runByStatus) :
    after.get? key = before.get? key :=
  hrecorded.others key (Key.ne_run hrun _ _) fun _ ↦ Key.ne_statusIndex hindex _ _ _

/-- The record is the one of its run, and all other runs keep theirs. -/
theorem run? (hrecorded : Recorded record before after) (program : ProgramId) (id : RunId) :
    after.run? program id =
      if program = record.program ∧ id = record.id then some record
      else before.run? program id := by
  split
  · rename_i hsame
    obtain ⟨rfl, rfl⟩ := hsame
    exact run?_of_holds hrecorded.holds
  · rename_i hother
    have hget := hrecorded.others (Key.run program id) (fun hkey ↦ hother (Key.run_inj hkey))
      fun _ ↦ Key.run_ne_statusIndex
    rw [Contents.run?, hget, Contents.run?]

theorem consistent (hrecorded : Recorded record before after) (hbefore : before.Consistent) :
    after.Consistent where
  records key value hvalue hfamily := by
    by_cases hkey : key = Key.run record.program record.id
    · subst hkey
      rw [show after.get? _ = _ from hrecorded.holds] at hvalue
      exact ⟨record, rfl, (Option.some.inj hvalue).symm⟩
    · rw [hrecorded.others key hkey fun _ ↦ Key.ne_statusIndex (by rw [hfamily]; decide) _ _ _] at hvalue
      exact hbefore.records key value hvalue hfamily
  entries key value hvalue hfamily := by
    by_cases hown : ∃ status, key = Key.statusIndex status record.program record.id
    · obtain ⟨status, rfl⟩ := hown
      rw [hrecorded.index] at hvalue
      split at hvalue
      · rename_i hstatus
        subst hstatus
        exact ⟨record, hrecorded.holds, rfl, (Option.some.inj hvalue).symm⟩
      · cases hvalue
    · have hentry (status : RunStatus) :
          key ≠ Key.statusIndex status record.program record.id := fun hkey ↦ hown ⟨status, hkey⟩
      rw [hrecorded.others key (Key.ne_run (by rw [hfamily]; decide) _ _) hentry] at hvalue
      obtain ⟨held, hholds, rfl, rfl⟩ := hbefore.entries key value hvalue hfamily
      refine ⟨held, ?_, rfl, rfl⟩
      rw [Holds, hrecorded.others (Key.run held.program held.id) (fun hkey ↦ ?_)
        fun _ ↦ Key.run_ne_statusIndex]
      · exact hholds
      · obtain ⟨hprogram, hid⟩ := Key.run_inj hkey
        exact hentry held.status (by rw [hprogram, hid])
  indexed held hholds := by
    by_cases hkey : Key.run held.program held.id = Key.run record.program record.id
    · rw [Holds, hkey, show after.get? _ = _ from hrecorded.holds, Option.some.injEq,
        ofRecord_runRecord_inj] at hholds
      subst hholds
      rw [hrecorded.index, if_pos rfl]
    · rw [Holds, hrecorded.others _ hkey fun _ ↦ Key.run_ne_statusIndex] at hholds
      rw [hrecorded.others _ Key.run_ne_statusIndex.symm fun status hentry ↦ ?_]
      · exact hbefore.indexed held hholds
      · obtain ⟨-, hprogram, hid⟩ := Key.statusIndex_inj hentry
        exact hkey (by rw [hprogram, hid])

end Recorded

end Contents

/-! ### Single records -/

namespace Runs

open Script

variable {contents : Contents}

theorem eval_find? (hconsistent : contents.Consistent) (program : ProgramId) (id : RunId) :
    (find? program id).eval contents = (.ok (contents.run? program id), contents) := by
  unfold find?
  rw [eval_bind, eval_read, hconsistent.get?_run]
  cases contents.run? program id with
  | none => rfl
  | some record =>
    dsimp only [Option.map_some]
    rw [eval_bind, Script.decode, decode_runRecord]
    rfl

/-- A record is written with the status that its run had before. -/
theorem eval_write (record : RunRecord) (contents : Contents) :
    (write record ((contents.run? record.program record.id).map (·.status))).eval contents =
      (.ok (), contents.recording record) := by
  unfold write Contents.recording
  cases (contents.run? record.program record.id).map (·.status) with
  | none => rfl
  | some previous =>
    by_cases hstatus : previous = record.status
    · simp only [hstatus, if_true, eval_bind, Script.eval_write]
      rfl
    · simp only [hstatus, Option.some.injEq, if_false, eval_bind, Script.eval_write, eval_erase]
      rfl

section

variable {mayScan : Prop} {mayChange : Key → Prop}

theorem plain_decode {α : Type} [Stored α] (value : Value) :
    (Script.decode value : Script α).Plain mayScan mayChange := .finish _

theorem plain_ofExcept {α : Type} (outcome : Except Failure α) :
    (Script.ofExcept outcome).Plain mayScan mayChange := .finish _

theorem plain_find? (program : ProgramId) (id : RunId) :
    (find? program id).Plain mayScan mayChange :=
  (plain_read _).bind fun found? ↦
    match found? with
    | none => plain_pure _
    | some value => (plain_decode value).bind fun _ ↦ plain_pure _

theorem plain_require (program : ProgramId) (id : RunId) :
    (require program id).Plain mayScan mayChange :=
  (plain_find? program id).bind fun found? ↦
    match found? with
    | none => plain_throw _
    | some _ => plain_pure _

end

/-- The families of the keys of runs and of the status index. -/
def IsLifecycleKey (key : Key) : Prop := key.family = .run ∨ key.family = .runByStatus

/-- Writing a record changes the record of its run and entries of that run alone. -/
theorem plain_write_own {mayScan : Prop} (record : RunRecord) (previous? : Option RunStatus) :
    (write record previous?).Plain mayScan (Key.IsRecordOf record.program record.id) := by
  have hentry (status : RunStatus) : Key.IsRecordOf record.program record.id
      (Key.statusIndex status record.program record.id) := Or.inr ⟨status, rfl⟩
  unfold write
  refine (Script.plain_write (Or.inl rfl) _).bind fun _ ↦ ?_
  split
  · exact plain_pure _
  · split
    · exact (plain_erase (hentry _)).bind fun _ ↦ Script.plain_write (hentry _) _
    · exact Script.plain_write (hentry _) _

theorem plain_write {mayScan : Prop} (record : RunRecord) (previous? : Option RunStatus) :
    (write record previous?).Plain mayScan IsLifecycleKey :=
  (plain_write_own record previous?).mono (fun hscan ↦ hscan) fun key hkey ↦ by
    rcases hkey with rfl | ⟨status, rfl⟩
    · exact Or.inl rfl
    · exact Or.inr rfl

end Runs

/-! ### Changes of records -/

/-- How a record comes to be or replaces another one of the same run. -/
inductive RunRecord.Becomes : Option RunRecord → RunRecord → Prop
  | started (request : Start) (htime : request.startTime = request.id.seconds) :
    Becomes none request.record
  | restarted {current record} (request : Start) (htime : request.startTime = request.id.seconds)
    (hrestarted : current.restarted request.record = .ok record) : Becomes (some current) record
  | suspended {current record} (time : UInt64) (hsuspended : current.suspended time = .ok record) :
    Becomes (some current) record
  | resumed {current record} (time : UInt64) (hresumed : current.resumed time = .ok record) :
    Becomes (some current) record
  | stopped {current record} (time : UInt64) (status : RunStatus) (cause? : Option FailureCause)
    (hstopped : current.stopped time status cause? = .ok (some record)) :
    Becomes (some current) record
  | registered {current} (node : String) (run : NodeRun) (htype : current.program.type = .workflow)
    (hopen : current.status.isTerminal = false) :
    Becomes (some current)
      { current with workflowNodes := current.workflowNodes.insert node run }

/-- A stopped run changes no more. -/
theorem RunRecord.Becomes.isTerminal_eq_false {current record : RunRecord}
    (hbecomes : Becomes (some current) record) : current.status.isTerminal = false := by
  refine Bool.eq_false_iff.mpr fun hterminal ↦ ?_
  cases hbecomes with
  | restarted request _ hrestarted =>
    simp [RunRecord.restarted, RunStatus.canBecome_eq_false hterminal] at hrestarted
  | suspended time hsuspended =>
    unfold RunRecord.suspended at hsuspended
    split at hsuspended
    · rename_i hrunning
      rw [hrunning] at hterminal
      cases hterminal
    · cases hsuspended
  | resumed time hresumed =>
    unfold RunRecord.resumed at hresumed
    split at hresumed
    · rename_i hsuspended
      rw [hsuspended] at hterminal
      cases hterminal
    · cases hresumed
  | stopped time status cause? hstopped =>
    simp only [RunRecord.stopped, hterminal, if_true] at hstopped
    split at hstopped
    · cases hstopped
    · split at hstopped <;> cases hstopped
  | registered node run htype hopen =>
    rw [hopen] at hterminal
    cases hterminal

end RunLedger
