import Mathlib.Data.List.Sort
import RunLedger.Proofs.Database.Untouched
import RunLedger.Proofs.Ledger.ScopeRemoval
import RunLedger.Proofs.Ledger.StatusIndex

/-!
# Listings of runs

Runs are listed by status from the index, whose entries lie in another order than the records and
name them without telling their contents. On consistent contents the entries under a status are
those of the records with that status, in the order of listings (`exists_entries`): by run id, and
runs of one id by program (`RunRecord.listingOrder`). So a listing by status is what sorting the
records by hand would give (`Contents.withStatus`), and one program's runs among it are those that
the listing of a window gives, if the window covers the program's runs (`listings_agree`).

The proofs compare lists by their members: two lists that ascend in the order of listings and have
the same members are the same.
-/

set_option autoImplicit false

namespace RunLedger

/-! ### The order of listings -/

namespace RunRecord

/-- By the second and the text of the run id, and then by the namespace, the application, the type
code and the name of the program. -/
def listingOrder : RunRecord → RunRecord → Ordering :=
  compareLex (compareOn fun record ↦ record.id.seconds) <|
  compareLex (compareOn fun record ↦ record.id.text) <|
  compareLex (compareOn fun record ↦ record.program.namespaceName) <|
  compareLex (compareOn fun record ↦ record.program.application) <|
  compareLex (compareOn fun record ↦ record.program.type.code)
    (compareOn fun record ↦ record.program.name)

instance : Std.TransCmp listingOrder :=
  inferInstanceAs (Std.TransCmp (compareLex (compareOn fun record : RunRecord ↦ record.id.seconds)
    (compareLex (compareOn fun record ↦ record.id.text)
      (compareLex (compareOn fun record ↦ record.program.namespaceName)
        (compareLex (compareOn fun record ↦ record.program.application)
          (compareLex (compareOn fun record ↦ record.program.type.code)
            (compareOn fun record ↦ record.program.name)))))))

/-- One record is listed before another. -/
def IsListedBefore (first second : RunRecord) : Prop := first.listingOrder second = .lt

instance : Std.Irrefl IsListedBefore where
  irrefl record hbefore := by
    cases hbefore.symm.trans (@Std.ReflCmp.compare_self _ listingOrder _ record)

instance : Std.Antisymm IsListedBefore where
  antisymm first second hbefore hafter := by
    cases hafter.symm.trans (@Std.OrientedCmp.gt_of_lt _ listingOrder _ _ _ hbefore)

/-- The order of listings is that of index entries under a status. -/
theorem compare_statusIndex (status : RunStatus) (first second : RunRecord) :
    compare (Key.statusIndex status first.program first.id)
      (Key.statusIndex status second.program second.id) = first.listingOrder second :=
  (Key.compare_statusIndex ..).trans
    (Ordering.then_assoc (compare first.id.seconds second.id.seconds)
      (compare first.id.text second.id.text) (compare first.program second.program))

end RunRecord

/-! ### Rows of records -/

namespace Contents

/-- The row of a record under the key of its run. -/
def recordRow (record : RunRecord) : Key × Value :=
  (Key.run record.program record.id, .ofRecord record)

/-- The row of the index entry of a record. -/
def entryRow (record : RunRecord) : Key × Value :=
  (Key.statusIndex record.status record.program record.id, entryOf record)

section

variable {β : Type} {owned : β → Prop} {row : β → Key × Value}

theorem exists_map_eq {rows : List (Key × Value)}
    (hrows : ∀ each ∈ rows, ∃ item, owned item ∧ row item = each) :
    ∃ items : List β, items.map row = rows ∧ ∀ item ∈ items, owned item := by
  induction rows with
  | nil => exact ⟨[], rfl, List.forall_mem_nil _⟩
  | cons head rest ih =>
    obtain ⟨⟨item, howned, rfl⟩, hrest⟩ := List.forall_mem_cons.mp hrows
    obtain ⟨items, rfl, hitems⟩ := ih hrest
    exact ⟨item :: items, rfl, List.forall_mem_cons.mpr ⟨howned, hitems⟩⟩

/-- If the rows under some keys are those of some items, each with a row of its own, they list these
items in key order. -/
theorem exists_listed (contents : Contents) {chosen : Key → Bool}
    (hrows : ∀ key value, contents.get? key = some value → chosen key = true →
      ∃ item, owned item ∧ row item = (key, value))
    (howned : ∀ item, owned item →
      contents.get? (row item).1 = some (row item).2 ∧ chosen (row item).1 = true)
    (hinjective : ∀ first second, owned first → owned second → row first = row second →
      first = second) :
    ∃ listed : List β,
      (contents.filter fun key _ ↦ chosen key).toList = listed.map row ∧
      (listed.Pairwise fun first second ↦ compare (row first).1 (row second).1 = .lt) ∧
      ∀ item, item ∈ listed ↔ owned item := by
  have hmem (key : Key) (value : Value) :
      (key, value) ∈ (contents.filter fun key _ ↦ chosen key).toList ↔
        contents.get? key = some value ∧ chosen key = true := by
    rw [SortedMap.mem_toList_iff, SortedMap.get?_filter, Option.filter_eq_some_iff]
  obtain ⟨listed, hlisted, hlistedOwned⟩ := exists_map_eq fun each heach ↦
    let ⟨hvalue, hkey⟩ := (hmem each.1 each.2).mp heach
    hrows each.1 each.2 hvalue hkey
  have hsorted : (contents.filter fun key _ ↦ chosen key).toList.Pairwise
      fun first second ↦ compare first.1 second.1 = .lt := SortedMap.sorted _
  rw [← hlisted, List.pairwise_map] at hsorted
  refine ⟨listed, hlisted.symm, hsorted, fun item ↦ ⟨hlistedOwned item, fun hitem ↦ ?_⟩⟩
  have hrow : row item ∈ listed.map row := hlisted ▸ (hmem _ _).mpr (howned item hitem)
  obtain ⟨other, hother, hsame⟩ := List.mem_map.mp hrow
  exact hinjective other item (hlistedOwned other hother) hitem hsame ▸ hother

end

section

variable {contents : Contents}

/-- A record that lies where it belongs is the only one of its run. -/
theorem eq_of_holds {first second : RunRecord} (hfirst : contents.Holds first)
    (hsecond : contents.Holds second) (hprogram : first.program = second.program)
    (hid : first.id = second.id) : first = second := by
  have hrun := run?_of_holds hfirst
  rw [hprogram, hid, run?_of_holds hsecond] at hrun
  exact (Option.some.inj hrun).symm

variable (hconsistent : contents.Consistent)

include hconsistent

/-- The rows of some keys of runs are those of the records under these keys, in key order. -/
theorem exists_records {chosen : Key → Bool} (hchosen : ∀ key, chosen key = true → key.family = .run) :
    ∃ listed : List RunRecord,
      (contents.filter fun key _ ↦ chosen key).toList = listed.map recordRow ∧
      (listed.Pairwise fun first second ↦
        compare (Key.run first.program first.id) (Key.run second.program second.id) = .lt) ∧
      ∀ record, record ∈ listed ↔
        contents.Holds record ∧ chosen (Key.run record.program record.id) = true := by
  refine contents.exists_listed (fun key value hvalue hkey ↦ ?_) (fun record hrecord ↦ hrecord)
    fun first second _ _ hsame ↦ ofRecord_runRecord_inj.mp (congrArg Prod.snd hsame)
  obtain ⟨record, rfl, rfl⟩ := hconsistent.records key value hvalue (hchosen key hkey)
  exact ⟨record, ⟨hvalue, hkey⟩, rfl⟩

/-- The index entries under a status are those of the records with the status, in the order of
listings. -/
theorem exists_entries (status : RunStatus) :
    ∃ listed : List RunRecord,
      contents.rowsUnder (Key.runsOfStatus status) = listed.map entryRow ∧
      listed.Pairwise RunRecord.IsListedBefore ∧
      ∀ record, record ∈ listed ↔ contents.Holds record ∧ record.status = status := by
  let owned (record : RunRecord) : Prop := contents.Holds record ∧ record.status = status
  have hrows (key : Key) (value : Value) (hvalue : contents.get? key = some value)
      (hkey : key.startsWith (Key.runsOfStatus status) = true) :
      ∃ record, owned record ∧ entryRow record = (key, value) := by
    have hfamily : key.family = .runByStatus := (Key.startsWith_iff.mp hkey).1
    obtain ⟨record, hrecord, rfl, rfl⟩ := hconsistent.entries key value hvalue hfamily
    exact ⟨record, ⟨hrecord, Key.statusIndex_startsWith_iff.mp hkey⟩, rfl⟩
  have howned (record : RunRecord) (hrecord : owned record) :
      contents.get? (entryRow record).1 = some (entryRow record).2 ∧
        (entryRow record).1.startsWith (Key.runsOfStatus status) = true :=
    ⟨hconsistent.indexed record hrecord.1, Key.statusIndex_startsWith_iff.mpr hrecord.2⟩
  have hinjective (first second : RunRecord) (hfirst : owned first) (hsecond : owned second)
      (hsame : entryRow first = entryRow second) : first = second := by
    obtain ⟨-, hprogram, hid⟩ := Key.statusIndex_inj (congrArg Prod.fst hsame)
    exact eq_of_holds hfirst.1 hsecond.1 hprogram hid
  obtain ⟨listed, hlisted, hsorted, hmem⟩ := contents.exists_listed hrows howned hinjective
  refine ⟨listed, hlisted, hsorted.imp_of_mem fun {first second} hfirst hsecond hlt ↦ ?_, hmem⟩
  rw [entryRow, entryRow, ((hmem first).mp hfirst).2, ((hmem second).mp hsecond).2,
    RunRecord.compare_statusIndex] at hlt
  exact hlt

end

/-! ### Listings made from the records -/

/-- The records that lie under keys of runs, in key order. -/
def records (contents : Contents) : List RunRecord :=
  Runs.decodeAll (contents.filter fun key _ ↦ key.family = .run).toList

/-- The records with a status that pass a test, sorted into the order of listings. -/
def withStatus (contents : Contents) (keep : RunRecord → Bool) (status : RunStatus) :
    List RunRecord :=
  (contents.records.filter fun record ↦ record.status = status && keep record).mergeSort
    fun first second ↦ (first.listingOrder second).isLE

/-- The records that the index entries among some payloads lead to. -/
def reachedBy (contents : Contents) (rows : List (Key × Value)) : List RunRecord :=
  (Runs.decodeAll rows).filterMap fun entry : IndexEntry ↦ contents.run? entry.program entry.id

/-- The records with a status that pass a test, as the index entries under the status lead to
them. -/
def listedUnder (contents : Contents) (keep : RunRecord → Bool) (status : RunStatus) :
    List RunRecord :=
  (contents.reachedBy (contents.rowsUnder (Key.runsOfStatus status))).filter fun record ↦
    record.status = status && keep record

theorem decodeAll_recordRow (listed : List RunRecord) :
    Runs.decodeAll (listed.map recordRow) = listed := by
  rw [Runs.decodeAll, List.filterMap_map]
  refine (List.filterMap_congr fun record _ ↦ ?_).trans List.filterMap_some
  rw [Function.comp_apply, recordRow, decode_runRecord]
  rfl

theorem reachedBy_entryRow {contents : Contents} {listed : List RunRecord}
    (hlisted : ∀ record ∈ listed, contents.Holds record) :
    contents.reachedBy (listed.map entryRow) = listed := by
  have hentries : (Runs.decodeAll (listed.map entryRow) : List IndexEntry) =
      listed.map fun record ↦ ⟨record.program, record.id⟩ := by
    rw [Runs.decodeAll, List.filterMap_map, ← List.filterMap_eq_map]
    refine List.filterMap_congr fun record _ ↦ ?_
    rw [Function.comp_apply, entryRow, entryOf, decode_indexEntry]
    rfl
  rw [reachedBy, hentries, List.filterMap_map]
  refine (List.filterMap_congr fun record hrecord ↦ ?_).trans List.filterMap_some
  exact run?_of_holds (hlisted record hrecord)

theorem mem_records_iff {contents : Contents} (hconsistent : contents.Consistent)
    (record : RunRecord) : record ∈ contents.records ↔ contents.Holds record := by
  obtain ⟨listed, hlisted, -, hmem⟩ := exists_records hconsistent fun key hkey ↦
    of_decide_eq_true hkey
  have hfamily : (Key.run record.program record.id).family = .run := rfl
  rw [records, hlisted, decodeAll_recordRow, hmem, decide_eq_true_iff, and_iff_left hfamily]

theorem nodup_records {contents : Contents} (hconsistent : contents.Consistent) :
    contents.records.Nodup := by
  obtain ⟨listed, hlisted, hsorted, -⟩ := exists_records hconsistent fun key hkey ↦
    of_decide_eq_true hkey
  rw [records, hlisted, decodeAll_recordRow]
  refine hsorted.imp fun {first second} hlt hsame ↦ ?_
  subst hsame
  cases hlt.symm.trans Std.ReflCmp.compare_self

section

variable {contents : Contents} (hconsistent : contents.Consistent) (keep : RunRecord → Bool)
  (status : RunStatus)

include hconsistent

theorem mem_withStatus_iff (record : RunRecord) :
    record ∈ contents.withStatus keep status ↔
      contents.Holds record ∧ record.status = status ∧ keep record = true := by
  rw [withStatus, List.mem_mergeSort, List.mem_filter, mem_records_iff hconsistent,
    Bool.and_eq_true, decide_eq_true_iff]

theorem pairwise_withStatus :
    (contents.withStatus keep status).Pairwise RunRecord.IsListedBefore := by
  have hnodup := (nodup_records hconsistent).filter fun record ↦
    record.status = status && keep record
  refine pairwise_mergeSort_of_ties hnodup fun first hfirst second hsecond hties ↦ ?_
  have hholds := (mem_records_iff hconsistent first).mp (List.mem_filter.mp hfirst).1
  have hother := (mem_records_iff hconsistent second).mp (List.mem_filter.mp hsecond).1
  -- equal in the order of listings means the same run
  rw [← RunRecord.compare_statusIndex status] at hties
  obtain ⟨-, hprogram, hid⟩ := Key.statusIndex_inj (Std.LawfulEqOrd.eq_of_compare hties)
  exact eq_of_holds hholds hother hprogram hid

/-- A list in the order of listings of the records that have the status and pass the test is what
sorting them gives. -/
theorem eq_withStatus {listed : List RunRecord}
    (hsorted : listed.Pairwise RunRecord.IsListedBefore)
    (hmem : ∀ record, record ∈ listed ↔
      contents.Holds record ∧ record.status = status ∧ keep record = true) :
    listed = contents.withStatus keep status :=
  hsorted.eq_of_mem_iff (pairwise_withStatus hconsistent keep status) fun record ↦
    (hmem record).trans (mem_withStatus_iff hconsistent keep status record).symm

end

end Contents

/-! ### The scripts -/

namespace Runs

open Script Contents

theorem quiet_ofEntries (status : RunStatus) (keep : RunRecord → Bool) (rows : List (Key × Value))
    (limit : Nat) (outcome : Except Failure (List RunRecord)) :
    (ofEntries status keep rows limit).Quiet outcome := by
  induction rows generalizing limit outcome with
  | nil => exact quiet_finish _ _
  | cons row rest ih =>
    cases limit with
    | zero => exact quiet_finish _ _
    | succ limit =>
      unfold ofEntries
      split
      · exact ih _ _
      · rename_i entry _
        have hfind (found : Except Failure (Except Failure (Option RunRecord))) :
            (find? entry.program entry.id).attempt.Quiet found :=
          Quiet.followedBy (@plain_find? False _ entry.program entry.id).quiet fun _ ↦
            quiet_finish _ _
        refine Quiet.bind hfind fun found ↦ ?_
        split
        · split
          · exact Quiet.bind (ih limit) fun _ ↦ quiet_finish _ _
          · exact ih _ _
        · exact ih _ _

theorem quiet_withStatuses (keep : RunRecord → Bool) (statuses : List RunStatus) (limit : Nat)
    (outcome : Except Failure (List RunRecord)) :
    (withStatuses keep statuses limit).Quiet outcome := by
  induction statuses generalizing limit outcome with
  | nil => exact quiet_finish _ _
  | cons status rest ih =>
    cases limit with
    | zero => exact quiet_finish _ _
    | succ limit =>
      unfold withStatuses
      exact Quiet.bind (@plain_readStem True _ trivial _).quiet fun rows ↦
        Quiet.bind (quiet_ofEntries status keep rows _) fun _ ↦
          Quiet.bind (ih _) fun _ ↦ quiet_finish _ _

theorem plain_inWindow (program : ProgramId) (status : StatusFilter) (first last : UInt64)
    (limit : Nat) (keep : RunRecord → Bool) :
    (inWindow program status first last limit keep).Plain True fun _ ↦ False := by
  unfold inWindow
  split
  · exact plain_pure _
  · exact (plain_readRange trivial _ _).bind fun _ ↦ plain_pure _

/-- Looking a run up comes to a record if there is one that can be read. -/
theorem eval_attempt_find? (contents : Contents) (program : ProgramId) (id : RunId) :
    ∃ outcome, ((find? program id).attempt).eval contents = (.ok outcome, contents) ∧
      ∀ record, outcome = .ok (some record) ↔ contents.run? program id = some record := by
  rw [eval_attempt]
  unfold find?
  rw [eval_bind, eval_read]
  cases hvalue : contents.get? (Key.run program id) with
  | none =>
    refine ⟨.ok none, rfl, fun record ↦ ?_⟩
    simp [Contents.run?, hvalue]
  | some value =>
    dsimp only
    rw [eval_bind, Script.decode]
    cases hdecode : (value.decode : Except Damage RunRecord) with
    | error damage =>
      refine ⟨.error (.corruption damage), rfl, fun record ↦ ?_⟩
      simp [Contents.run?, hvalue, hdecode, Except.toOption]
    | ok found =>
      refine ⟨.ok (some found), rfl, fun record ↦ ?_⟩
      simp [Contents.run?, hvalue, hdecode, Except.toOption]

/-- On any contents, index entries lead to the records there are, and those that have the status
and pass the test are counted. -/
theorem eval_ofEntries (contents : Contents) (status : RunStatus) (keep : RunRecord → Bool)
    (rows : List (Key × Value)) (limit : Nat) :
    (ofEntries status keep rows limit).eval contents =
      (.ok (((contents.reachedBy rows).filter fun record ↦
        record.status = status && keep record).take limit), contents) := by
  induction rows generalizing limit with
  | nil =>
    rw [reachedBy, decodeAll, List.filterMap_nil, List.filterMap_nil, List.filter_nil,
      List.take_nil]
    rfl
  | cons row rest ih =>
    cases limit with
    | zero => rfl
    | succ limit =>
      obtain ⟨key, value⟩ := row
      unfold ofEntries
      cases hentry : (value.decode : Except Damage IndexEntry) with
      | error damage =>
        have hskipped : contents.reachedBy ((key, value) :: rest) = contents.reachedBy rest := by
          simp [reachedBy, decodeAll, hentry, Except.toOption]
        rw [hskipped]
        exact ih (limit + 1)
      | ok entry =>
        have hreached : contents.reachedBy ((key, value) :: rest) =
            (contents.run? entry.program entry.id).toList ++ contents.reachedBy rest := by
          cases hrun : contents.run? entry.program entry.id <;>
            simp [reachedBy, decodeAll, hentry, hrun, Except.toOption]
        obtain ⟨outcome, hattempt, hfound⟩ := eval_attempt_find? contents entry.program entry.id
        dsimp only
        rw [hreached, eval_bind, hattempt]
        cases hrun : contents.run? entry.program entry.id with
        | none =>
          rw [Option.toList_none, List.nil_append, ← ih]
          -- no record is found, whether there is nothing or something that cannot be read
          rcases outcome with failure | _ | record
          · rfl
          · rfl
          · cases ((hfound record).mp rfl).symm.trans hrun
        | some record =>
          obtain rfl := (hfound record).mpr hrun
          rw [Option.toList_some, List.singleton_append, List.filter_cons]
          dsimp only
          by_cases hkeep : record.status = status ∧ keep record = true
          · rw [if_pos hkeep, if_pos (by simpa using hkeep), eval_bind, ih]
            rfl
          · rw [if_neg hkeep, if_neg (by simpa using hkeep), ih]

/-- On any contents, a listing by statuses is cut where the limit is reached. -/
theorem eval_withStatuses_eq_listedUnder (contents : Contents) (keep : RunRecord → Bool)
    (statuses : List RunStatus) (limit : Nat) :
    (withStatuses keep statuses limit).eval contents =
      (.ok ((statuses.flatMap (contents.listedUnder keep)).take limit), contents) := by
  induction statuses generalizing limit with
  | nil =>
    rw [List.flatMap_nil, List.take_nil]
    rfl
  | cons status rest ih =>
    cases limit with
    | zero => rfl
    | succ limit =>
      simp only [withStatuses]
      have hrows : (readStem (Key.runsOfStatus status)).eval contents =
          (.ok (contents.rowsUnder (Key.runsOfStatus status)), contents) := rfl
      rw [eval_bind, hrows]
      dsimp only
      rw [eval_bind, eval_ofEntries]
      dsimp only
      rw [eval_bind, ih, List.flatMap_cons, ← listedUnder, List.take_append, List.length_take]
      have hleft (length : Nat) : limit + 1 - min (limit + 1) length = limit + 1 - length := by
        omega
      rw [hleft]
      rfl

section

variable {contents : Contents} (hconsistent : contents.Consistent) (keep : RunRecord → Bool)

include hconsistent

/-- What the index leads to under a status are the records that have it. -/
theorem listedUnder_eq_withStatus (status : RunStatus) :
    contents.listedUnder keep status = contents.withStatus keep status := by
  obtain ⟨listed, hrows, hsorted, hmem⟩ := exists_entries hconsistent status
  rw [listedUnder, hrows, reachedBy_entryRow fun record hrecord ↦ ((hmem record).mp hrecord).1]
  refine eq_withStatus hconsistent keep status (hsorted.filter _) fun record ↦ ?_
  rw [List.mem_filter, hmem, Bool.and_eq_true, decide_eq_true_iff, and_assoc,
    and_self_left]

/-- A listing by statuses is cut where the limit is reached. -/
theorem eval_withStatuses (statuses : List RunStatus) (limit : Nat) :
    (withStatuses keep statuses limit).eval contents =
      (.ok ((statuses.flatMap (contents.withStatus keep)).take limit), contents) := by
  rw [eval_withStatuses_eq_listedUnder,
    funext fun status ↦ listedUnder_eq_withStatus hconsistent keep status]

/-- The rows of a window are those of the program's records of that time, by run id. -/
theorem exists_window (program : ProgramId) (first last : UInt64) :
    ∃ listed : List RunRecord,
      (readRange (Key.runTimeBound program first) (Key.runTimeBound program last)).eval contents =
        (.ok (listed.map recordRow), contents) ∧
      listed.Pairwise RunRecord.IsListedBefore ∧
      ∀ record, record ∈ listed ↔ contents.Holds record ∧ record.program = program ∧
        first ≤ record.id.seconds ∧ record.id.seconds < last := by
  have hfamily (key : Key) (hkey : Key.isBetween (Key.runTimeBound program first)
      (Key.runTimeBound program last) key = true) : key.family = .run := by
    obtain ⟨hfirst, hlast⟩ := Key.isBetween_iff.mp hkey
    exact Key.family_of_lt hfirst hlast rfl
  obtain ⟨listed, hrows, hsorted, hmem⟩ := exists_records hconsistent hfamily
  have hwindow (record : RunRecord) : record ∈ listed ↔ contents.Holds record ∧
      record.program = program ∧ first ≤ record.id.seconds ∧ record.id.seconds < last := by
    have hbetween := @Key.isBetween_timeBounds_iff .run _ _
      (Key.kinds_keyComponents program record.program) first last record.id
    rw [hmem, and_congr_right_iff]
    exact fun _ ↦ hbetween.trans (and_congr_left' (Key.keyComponents_inj.trans eq_comm))
  refine ⟨listed, congrArg (fun rows ↦ (Except.ok rows, contents)) hrows,
    hsorted.imp_of_mem fun {before after} hbefore hafter hlt ↦ ?_, hwindow⟩
  obtain ⟨-, hprogram, -⟩ := (hwindow before).mp hbefore
  obtain ⟨-, hother, -⟩ := (hwindow after).mp hafter
  have hid : compare before.id after.id = .lt := by
    rw [hprogram, hother] at hlt
    exact Key.timed_lt_timed_iff.mp hlt
  rw [RunRecord.IsListedBefore, ← RunRecord.compare_statusIndex .running,
    Key.compare_statusIndex, hid]
  rfl

/-- The listing of a window that covers a program's runs has those of them that a listing by status
has. -/
theorem eval_inWindow {program : ProgramId} {first last : UInt64}
    (hcovers : ∀ id record, contents.run? program id = some record →
      first ≤ id.seconds ∧ id.seconds < last) (status : RunStatus) (limit : Nat) :
    (inWindow program (.only status) first last limit keep).eval contents =
      (.ok (((contents.withStatus keep status).filter fun record ↦ record.program = program).take
        limit), contents) := by
  have hheld {record : RunRecord} (hholds : contents.Holds record)
      (hprogram : record.program = program) :
      first ≤ record.id.seconds ∧ record.id.seconds < last :=
    hcovers record.id record (hprogram ▸ run?_of_holds hholds)
  have hmem := mem_withStatus_iff hconsistent keep status
  unfold inWindow
  split
  · rename_i hempty
    rcases hempty with hempty | rfl
    · -- a window without an instant covers no run
      have hnone : (contents.withStatus keep status).filter (fun record ↦
          record.program = program) = [] := by
        refine List.filter_eq_nil_iff.mpr fun record hrecord hprogram ↦ ?_
        obtain ⟨hfirst, hlast⟩ := hheld ((hmem record).mp hrecord).1 (of_decide_eq_true hprogram)
        exact UInt64.not_lt.mpr hempty (UInt64.lt_of_le_of_lt hfirst hlast)
      rw [hnone, List.take_nil]
      rfl
    · rfl
  · obtain ⟨listed, hrows, hsorted, hlisted⟩ := exists_window hconsistent program first last
    have hsame : (listed.filter fun record ↦
          (StatusFilter.only status).admits record.status && keep record) =
        (contents.withStatus keep status).filter fun record ↦ record.program = program := by
      refine (hsorted.filter _).eq_of_mem_iff
        ((pairwise_withStatus hconsistent keep status).filter _) fun record ↦ ?_
      simp only [List.mem_filter, hlisted, hmem, StatusFilter.admits, Bool.and_eq_true,
        decide_eq_true_iff]
      constructor
      · rintro ⟨⟨hholds, hprogram, -⟩, hstatus, hkeep⟩
        exact ⟨⟨hholds, hstatus.symm, hkeep⟩, hprogram⟩
      · rintro ⟨⟨hholds, hstatus, hkeep⟩, hprogram⟩
        exact ⟨⟨hholds, hprogram, hheld hholds hprogram⟩, hstatus.symm, hkeep⟩
    rw [eval_bind, hrows]
    dsimp only
    rw [decodeAll_recordRow, hsame]
    rfl

end

end Runs

/-! ### Listings of a ledger -/

theorem StatusFilter.statuses_eq_filter (filter : StatusFilter) :
    filter.statuses = RunStatus.all.filter filter.admits := by
  cases filter with
  | any => rfl
  | only status => cases status <;> rfl

theorem Ledger.Reached.consistent {ledger : Ledger} (hreached : ledger.Reached) :
    ledger.live.Consistent := by
  obtain ⟨failsRead, failsWrite, config, events, hdatabase⟩ := hreached
  have hsound := System.sound_run Operation.program failsRead failsWrite config events
  have hlive : ledger.live = _ := (congrArg Database.live hdatabase).trans hsound.live
  rw [hlive]
  exact hsound.consistent _

/-- If no read fails, a script that changes nothing tells what it comes to on the live values. -/
theorem Ledger.perform_of_quiet {α : Type} {ledger : Ledger}
    (hreads : ∀ serial, ledger.database.substrate.failsRead serial = false) {script : Script α}
    {result : α} {after : Contents} (hresult : script.eval ledger.live = (.ok result, after))
    (hquiet : script.Quiet (.ok result)) : (ledger.perform script).1 = .ok result :=
  (Database.transactRetrying_of_quiet hreads (congrArg Prod.fst hresult) hquiet _).1

/-- On a ledger that operations have made, while no read fails, the listing of runs by status is
made up of the records with each admitted status that pass a test, status by status and each in the
order of listings, cut off at the limit: none of them is missing and none comes twice. For the runs
of one program with a status, the listing of any window that covers the program's runs is the
same. -/
theorem listings_agree {ledger : Ledger} (hreached : ledger.Reached) {plan : Ledger.FailurePlan}
    (hreads : ∀ serial, plan.failsRead serial = false) (keep : RunRecord → Bool) :
    let asked := ledger.under plan
    let listed (filter : StatusFilter) : List RunRecord :=
      (RunStatus.all.filter filter.admits).flatMap (ledger.live.withStatus keep)
    (∀ filter limit, (asked.runsWithStatus filter limit keep).1 = .ok ((listed filter).take limit)) ∧
    (∀ filter, (listed filter).Nodup ∧ ∀ record, record ∈ listed filter ↔
      (∃ program id, ledger.live.run? program id = some record) ∧
        filter.admits record.status = true ∧ keep record = true) ∧
    (∀ status, (ledger.live.withStatus keep status).Pairwise RunRecord.IsListedBefore) ∧
    ∀ program status first last limit,
      (∀ id record, ledger.live.run? program id = some record →
        first ≤ id.seconds ∧ id.seconds < last) →
      (asked.runsInWindow program (.only status) first last limit keep).1 =
        .ok (((listed (.only status)).filter fun record ↦ record.program = program).take limit) := by
  intro asked listed
  have hconsistent := hreached.consistent
  have hstatuses (filter : StatusFilter) :
      listed filter = filter.statuses.flatMap (ledger.live.withStatus keep) :=
    congrArg (List.flatMap (ledger.live.withStatus keep)) filter.statuses_eq_filter.symm
  have hmem := Contents.mem_withStatus_iff hconsistent keep
  have hsorted := Contents.pairwise_withStatus hconsistent keep
  refine ⟨fun filter limit ↦ ?_, fun filter ↦ ⟨?_, fun record ↦ ?_⟩, hsorted,
    fun program status first last limit hcovers ↦ ?_⟩
  · rw [hstatuses]
    exact Ledger.perform_of_quiet hreads
      (Runs.eval_withStatuses hconsistent keep filter.statuses limit)
      (Runs.quiet_withStatuses keep filter.statuses limit _)
  · refine List.nodup_flatMap.mpr ⟨fun status _ ↦ (hsorted status).nodup, ?_⟩
    have hall : RunStatus.all.Nodup := by decide
    refine (hall.filter _).imp fun {first second} hne record hfirst hsecond ↦ hne ?_
    exact ((hmem first record).mp hfirst).2.1.symm.trans ((hmem second record).mp hsecond).2.1
  · rw [List.mem_flatMap]
    simp only [hmem, List.mem_filter, RunStatus.mem_all, true_and]
    constructor
    · rintro ⟨status, hadmits, hholds, rfl, hkeep⟩
      exact ⟨⟨_, _, Contents.run?_of_holds hholds⟩, hadmits, hkeep⟩
    · rintro ⟨⟨program, id, hrun⟩, hadmits, hkeep⟩
      exact ⟨record.status, hadmits, (hconsistent.of_run? hrun).1, rfl, hkeep⟩
  · have honly : listed (.only status) = ledger.live.withStatus keep status := by
      rw [hstatuses]
      exact List.append_nil _
    rw [honly]
    exact Ledger.perform_of_quiet hreads
      (Runs.eval_inWindow hconsistent keep hcovers status limit)
      ((Runs.plain_inWindow program (.only status) first last limit keep).quiet _)

/-- Of two running workflow runs made in one second, the second is among those listed as running, and
a window up to the next second covers both. -/
theorem listings_agree_twoNights :
    let asked := storedNights.under ⟨fun _ ↦ false, fun _ ↦ true⟩
    let listed := (RunStatus.all.filter (StatusFilter.only .running).admits).flatMap
      (storedNights.live.withStatus fun _ ↦ true)
    storedNights.Reached ∧
      (∃ record ∈ listed, record.program = nightly ∧ record.id = secondNight) ∧
      (asked.runsWithStatus (.only .running) 2 fun _ ↦ true).1 = .ok (listed.take 2) ∧
      (asked.runsInWindow nightly (.only .running) 1000 1001 1 fun _ ↦ true).1 =
        .ok ((listed.filter fun record ↦ record.program = nightly).take 1) := by
  intro asked listed
  have hkeys : storedNights.live.keys = [Key.run nightly firstNight, Key.run nightly secondNight,
      Key.statusIndex .running nightly firstNight, Key.statusIndex .running nightly secondNight,
      Key.nodeState nightly firstNight "n"] := by
    decide +kernel
  have hreached : storedNights.Reached :=
    Ledger.reached_run (fun _ ↦ false) (fun _ ↦ false) .standard twoNights ⟨1, .standard⟩
  have hcovers (id : RunId) (record : RunRecord)
      (hrun : storedNights.live.run? nightly id = some record) :
      1000 ≤ id.seconds ∧ id.seconds < 1001 := by
    obtain ⟨value, hvalue, -⟩ := Contents.run?_eq_some_iff.mp hrun
    have hmem := (SortedMap.mem_keys_iff _ _).mpr (Option.isSome_iff_exists.mpr ⟨value, hvalue⟩)
    rw [hkeys] at hmem
    simp only [List.mem_cons, List.not_mem_nil, or_false] at hmem
    rcases hmem with hkey | hkey | hkey | hkey | hkey
    · rw [(Key.run_inj hkey).2]
      decide +kernel
    · rw [(Key.run_inj hkey).2]
      decide +kernel
    all_goals cases congrArg Key.family hkey
  obtain ⟨hlisting, hmembers, -, hwindow⟩ := @listings_agree storedNights hreached
    ⟨fun _ ↦ false, fun _ ↦ true⟩ (fun _ ↦ rfl) fun _ ↦ true
  refine ⟨hreached, ?_, hlisting _ 2, hwindow nightly .running 1000 1001 1 hcovers⟩
  have hindexed : storedNights.live.contains (Key.statusIndex .running nightly secondNight) =
      true := by
    rw [← SortedMap.mem_keys_iff, hkeys]
    simp
  obtain ⟨record, hrun, hstatus⟩ :=
    (hreached.consistent.contains_statusIndex .running nightly secondNight).mp hindexed
  obtain ⟨-, hprogram, hid⟩ := hreached.consistent.of_run? hrun
  have hadmits : (StatusFilter.only .running).admits record.status = true :=
    decide_eq_true hstatus.symm
  exact ⟨record, ((hmembers _).2 record).mpr ⟨⟨_, _, hrun⟩, hadmits, rfl⟩, hprogram, hid⟩

end RunLedger
