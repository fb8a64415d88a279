import RunLedger.Proofs.Ledger.Listings
import RunLedger.Proofs.Ledger.Refusals

/-!
# Payloads that do not decode

Whatever a store holds, some of its keys may hold something that is no record of their kind
(`Contents.Damaged`). The listings, and the statistics of a workflow, pass over such keys: they tell
what they would tell if the keys were not there (`Script.PassesOver`). A request that needs one
record, or one summary, fails with the damage where it lies under the key, and changes nothing
(`Script.Requires`). Both are said of scripts on any contents, and then of the requests to a ledger
on any database whose reads do not fail (`damage_contained`).
-/

set_option autoImplicit false

namespace RunLedger

variable {α β : Type}

/-! ### Damaged contents -/

/-- Whether a payload decodes as a record of the kind that lies under keys of a family. -/
def Family.decodes (family : Family) (value : Value) : Bool :=
  match family with
  | .run => (value.decode : Except Damage RunRecord).toBool
  | .runByStatus => (value.decode : Except Damage IndexEntry).toBool
  | .nodeState => (value.decode : Except Damage NodeState).toBool
  | .workflowToken => (value.decode : Except Damage WorkflowToken).toBool
  | .workflowRun => (value.decode : Except Damage WorkflowSummary).toBool

/-- Keys of the family are for records of the type. -/
def Family.Keeps (family : Family) (β : Type) [Stored β] : Prop :=
  ∀ value, family.decodes value = (value.decode : Except Damage β).toBool

/-- What does not decode as a record is read as its damage. -/
theorem Family.Keeps.exists_damage [Stored β] {family : Family} (hkeeps : family.Keeps β)
    {value : Value} (hdecodes : family.decodes value = false) :
    ∃ damage, (value.decode : Except Damage β) = .error damage := by
  rw [hkeeps] at hdecodes
  cases hdecode : (value.decode : Except Damage β) with
  | error damage => exact ⟨damage, rfl⟩
  | ok record =>
    rw [hdecode] at hdecodes
    cases hdecodes

theorem Family.keeps_run : Family.run.Keeps RunRecord := fun _ ↦ rfl

theorem Family.keeps_workflowRun : Family.workflowRun.Keeps WorkflowSummary := fun _ ↦ rfl

namespace Contents

/-- Under all of some keys lies what does not decode as a record of their kind. -/
def Damaged (contents : Contents) (corrupt : Key → Bool) : Prop :=
  ∀ key, corrupt key = true →
    ∃ value, contents.get? key = some value ∧ key.family.decodes value = false

/-- Contents without some keys. -/
def without (contents : Contents) (corrupt : Key → Bool) : Contents :=
  contents.filter fun key _ ↦ !corrupt key

variable {contents : Contents} {corrupt : Key → Bool}

/-- The rows of some keys are those there were, but for the keys taken out. -/
theorem toList_filter_without (contents : Contents) (corrupt chosen : Key → Bool) :
    ((contents.without corrupt).filter fun key _ ↦ chosen key).toList =
      (contents.filter fun key _ ↦ chosen key).toList.filter fun row ↦ !corrupt row.1 := by
  change (contents.entries.filter fun row ↦ !corrupt row.1).filter (fun row ↦ chosen row.1) =
    (contents.entries.filter fun row ↦ chosen row.1).filter fun row ↦ !corrupt row.1
  rw [List.filter_filter, List.filter_filter]
  exact List.filter_congr fun row _ ↦ Bool.and_comm _ _

/-- Keys of one family hold the same records without the damaged ones. -/
theorem Damaged.decodeAll_without (hdamaged : contents.Damaged corrupt) [Stored β]
    {family : Family} (hkeeps : family.Keeps β) {chosen : Key → Bool}
    (hchosen : ∀ key, chosen key = true → key.family = family) :
    (Runs.decodeAll ((contents.without corrupt).filter fun key _ ↦ chosen key).toList : List β) =
      Runs.decodeAll (contents.filter fun key _ ↦ chosen key).toList := by
  rw [toList_filter_without, Runs.decodeAll, Runs.decodeAll, List.filterMap_filter]
  refine List.filterMap_congr fun row hrow ↦ ?_
  cases hcorrupt : corrupt row.1 with
  | false => rfl
  | true =>
    rw [SortedMap.mem_toList_iff, SortedMap.get?_filter, Option.filter_eq_some_iff] at hrow
    obtain ⟨value, hvalue, hdecodes⟩ := hdamaged row.1 hcorrupt
    obtain rfl := Option.some.inj (hvalue.symm.trans hrow.1)
    rw [hchosen row.1 hrow.2] at hdecodes
    obtain ⟨damage, hdamage⟩ := hkeeps.exists_damage hdecodes
    rw [hdamage]
    rfl

/-- A run has the record it has without the damaged keys. -/
theorem Damaged.run?_without (hdamaged : contents.Damaged corrupt) (program : ProgramId)
    (id : RunId) : (contents.without corrupt).run? program id = contents.run? program id := by
  rw [Contents.run?, without, SortedMap.get?_filter, Contents.run?]
  cases hcorrupt : corrupt (Key.run program id) with
  | false => cases contents.get? (Key.run program id) <;> rfl
  | true =>
    obtain ⟨value, hvalue, hdecodes⟩ := hdamaged _ hcorrupt
    obtain ⟨damage, hdamage⟩ := Family.keeps_run.exists_damage hdecodes
    rw [hvalue, Option.bind_eq_bind, Option.bind_some, hdamage]
    rfl

end Contents

/-! ### Scripts that pass over damage -/

/-- The script changes nothing, and what it tells of damaged contents is what it tells of them
without the damaged keys: a result, or that the request is invalid. -/
structure Script.PassesOver (script : Script α) : Prop where
  quiet : ∀ outcome, script.Quiet outcome
  tells : ∀ {contents : Contents} {corrupt : Key → Bool}, contents.Damaged corrupt →
    (script.eval (contents.without corrupt)).1 = (script.eval contents).1
  fails : ∀ contents failure, (script.eval contents).1 = .error failure →
    ∃ rejection, failure = .invalidInput rejection

namespace Script

theorem passesOver_pure (result : α) : (pure result : Script α).PassesOver where
  quiet outcome := quiet_finish _ outcome
  tells _ := rfl
  fails _ _ hfailure := by cases hfailure

/-- What is made of the records under keys of one family. -/
theorem passesOver_readStem [Stored β] (stem : Key) (hkeeps : stem.family.Keeps β)
    (tell : List β → α) :
    (readStem stem >>= fun rows ↦ pure (tell (Runs.decodeAll rows))).PassesOver where
  quiet outcome := Quiet.bind (@plain_readStem True _ trivial _).quiet fun _ ↦ quiet_finish _ _
  tells hdamaged := congrArg (Except.ok ∘ tell) (hdamaged.decodeAll_without hkeeps fun _ hkey ↦
    (Key.startsWith_iff.mp hkey).1)
  fails _ _ hfailure := by cases hfailure

theorem passesOver_readRange [Stored β] (first last : Key) (hkeeps : first.family.Keeps β)
    (hlast : last.family = first.family) (tell : List β → α) :
    (readRange first last >>= fun rows ↦ pure (tell (Runs.decodeAll rows))).PassesOver where
  quiet outcome := Quiet.bind (@plain_readRange True _ trivial _ _).quiet fun _ ↦ quiet_finish _ _
  tells hdamaged := congrArg (Except.ok ∘ tell) (hdamaged.decodeAll_without hkeeps fun _ hkey ↦ by
    obtain ⟨habove, hbelow⟩ := Key.isBetween_iff.mp hkey
    exact Key.family_of_lt habove hbelow hlast)
  fails _ _ hfailure := by cases hfailure

theorem PassesOver.map {script : Script β} (hscript : script.PassesOver) (next : β → α) :
    (next <$> script).PassesOver where
  quiet outcome := Quiet.bind hscript.quiet fun _ ↦ quiet_finish _ _
  tells hdamaged := by rw [eval_map, eval_map, hscript.tells hdamaged]
  fails contents failure hfailure := by
    rw [eval_map] at hfailure
    refine hscript.fails contents failure ?_
    cases houtcome : (script.eval contents).1 with
    | ok result =>
      rw [houtcome] at hfailure
      cases hfailure
    | error other =>
      rw [houtcome] at hfailure
      exact congrArg Except.error (Except.error.inj hfailure)

/-- Behind a check of the request. -/
theorem PassesOver.behind {outcome : Except Failure β}
    (hchecked : ∀ failure, outcome = .error failure → ∃ rejection, failure = .invalidInput rejection)
    {next : β → Script α} (hnext : ∀ result, (next result).PassesOver) :
    (Script.ofExcept outcome >>= next).PassesOver := by
  rw [Script.ofExcept, finish_bind]
  cases outcome with
  | ok result => exact hnext result
  | error failure =>
    exact ⟨fun ended ↦ quiet_finish _ ended, fun _ ↦ rfl, fun _ other hother ↦
      hchecked other (congrArg Except.error (Except.error.inj hother))⟩

end Script

open Script

theorem Runs.passesOver_inWindow (program : ProgramId) (status : StatusFilter)
    (first last : UInt64) (limit : Nat) (keep : RunRecord → Bool) :
    (Runs.inWindow program status first last limit keep).PassesOver := by
  unfold inWindow
  split
  · exact passesOver_pure []
  · exact passesOver_readRange (Key.runTimeBound program first) (Key.runTimeBound program last)
      Family.keeps_run rfl fun records ↦ List.take limit
        (records.filter fun record ↦ status.admits record.status && keep record)

theorem Runs.passesOver_activeDuring (first last : UInt64) :
    (Runs.activeDuring first last).PassesOver :=
  passesOver_readStem Key.allRuns Family.keeps_run fun records ↦
    SortedMap.ofList ((records.filter (isActiveDuring first last)).map
      fun record : RunRecord ↦ (record.id, ()))

/-- An index entry that is damaged, and one that leads to a damaged record, leads to none. -/
theorem Runs.passesOver_withStatus (status : StatusFilter) (limit : Nat)
    (keep : RunRecord → Bool) : (Runs.withStatus status limit keep).PassesOver where
  quiet outcome := quiet_withStatuses keep status.statuses limit outcome
  tells {contents corrupt} hdamaged := by
    have hlisted : (contents.without corrupt).listedUnder keep = contents.listedUnder keep := by
      funext status
      have hentries : (decodeAll ((contents.without corrupt).rowsUnder (Key.runsOfStatus status)) :
          List IndexEntry) = decodeAll (contents.rowsUnder (Key.runsOfStatus status)) :=
        hdamaged.decodeAll_without (fun _ ↦ rfl) fun key hkey ↦ (Key.startsWith_iff.mp hkey).1
      simp only [Contents.listedUnder, Contents.reachedBy, hentries, hdamaged.run?_without]
    rw [withStatus, eval_withStatuses_eq_listedUnder, eval_withStatuses_eq_listedUnder, hlisted]
  fails contents failure hfailure := by
    rw [withStatus, eval_withStatuses_eq_listedUnder] at hfailure
    cases hfailure

theorem Progress.passesOver_nodeStates (workflow : ProgramId) (id : RunId) :
    (Progress.nodeStates workflow id).PassesOver :=
  passesOver_readStem (Key.nodeStatesOfRun workflow id) (fun _ ↦ rfl) fun states ↦ states

theorem Summaries.passesOver_statistics (workflow : ProgramId) (first last : UInt64)
    (percentiles : List Float) :
    (Summaries.statistics workflow first last percentiles).PassesOver := by
  refine PassesOver.behind (fun failure hfailure ↦ ?_) fun _ ↦ ?_
  · induction percentiles with
    | nil => cases hfailure
    | cons percentile rest ih =>
      unfold NearestRank.checkPercentiles at hfailure
      split at hfailure
      · exact ih hfailure
      · exact ⟨_, (Except.error.inj hfailure).symm⟩
  · refine PassesOver.map ?_ (WorkflowStatistics.ofSummaries? first last percentiles)
    unfold inWindow
    split
    · exact passesOver_pure []
    · exact passesOver_readRange (Key.workflowRunTimeBound workflow first)
        (Key.workflowRunTimeBound workflow last) Family.keeps_workflowRun rfl fun summaries ↦
          summaries

/-! ### Scripts that need a record -/

/-- The script ends with the damage of what lies under a key. -/
def Script.Requires (script : Script α) (key : Key) : Prop :=
  ∀ contents value, contents.get? key = some value → key.family.decodes value = false →
    ∃ damage, (script.eval contents).1 = .error (.corruption damage)

theorem Script.Requires.bind {script : Script α} {key : Key} (hrequires : script.Requires key)
    (next : α → Script β) : (script >>= next).Requires key := by
  intro contents value hvalue hdecodes
  obtain ⟨damage, hdamage⟩ := hrequires contents value hvalue hdecodes
  refine ⟨damage, ?_⟩
  rw [eval_bind]
  generalize script.eval contents = ended at hdamage
  obtain ⟨outcome, after⟩ := ended
  obtain rfl : outcome = .error (.corruption damage) := hdamage
  rfl

/-- Looking a record up. -/
theorem Script.requires_read [Stored β] {key : Key} (hkeeps : key.family.Keeps β) :
    (do
      match ← Script.read key with
      | none => return none
      | some value => return some (← Script.decode value) : Script (Option β)).Requires key := by
  intro contents value hvalue hdecodes
  obtain ⟨damage, hdamage⟩ := hkeeps.exists_damage hdecodes
  refine ⟨damage, ?_⟩
  rw [eval_bind, eval_read, hvalue]
  dsimp only
  rw [eval_bind, Script.decode, hdamage]
  rfl

theorem Runs.requires_find? (program : ProgramId) (id : RunId) :
    (Runs.find? program id).Requires (Key.run program id) := requires_read Family.keeps_run

theorem Runs.requires_require (program : ProgramId) (id : RunId) :
    (Runs.require program id).Requires (Key.run program id) := (requires_find? program id).bind _

theorem Summaries.requires_find? (workflow : ProgramId) (id : RunId) :
    (Summaries.find? workflow id).Requires (Key.workflowRun workflow id) :=
  requires_read Family.keeps_workflowRun

theorem Runs.requires_amend (program : ProgramId) (id : RunId) (absent : Except Failure α)
    (decision : RunRecord → Except Failure (Option RunRecord × α)) :
    (Runs.amend program id absent decision).Requires (Key.run program id) :=
  (requires_find? program id).bind _

theorem Runs.requires_start {request : Start} (htime : request.startTime = request.id.seconds) :
    (Runs.start request).Requires (Key.run request.program request.id) := by
  rw [start_eq, if_neg (not_not_intro htime)]
  exact (requires_find? request.program request.id).bind _

theorem Runs.requires_stop (program : ProgramId) (id : RunId) (time : UInt64) {status : RunStatus}
    (hterminal : status.isTerminal = true) (cause? : Option FailureCause) :
    (Runs.stop program id time status cause?).Requires (Key.run program id) := by
  rw [stop_eq, if_pos hterminal]
  exact requires_amend program id _ _

/-! ### Requests -/

namespace Request

/-- Whether a request goes through many records. -/
def IsListing : Request α → Prop
  | .runsInWindow .. | .runsWithStatus .. | .runsActiveDuring .. | .nodeStates ..
  | .statistics .. => True
  | _ => False

/-- The key under which a request needs a record: that of a run or of a summary. A start with
another time than that of its run id and a stop in a status that is not terminal are refused
first. -/
def needed? : Request α → Option Key
  | .start request =>
    if request.startTime = request.id.seconds then some (Key.run request.program request.id)
    else none
  | .stop program id _ status _ => if status.isTerminal then some (Key.run program id) else none
  | .suspend program id _ | .resume program id _ | .compareAndSet program id _ _ _
  | .run? program id | .runtimeArguments program id | .putToken program id _ | .token program id
  | .putNodeState program id _ => some (Key.run program id)
  | .summary? workflow id | .spacedSummaries workflow id _ _ => some (Key.workflowRun workflow id)
  | _ => none

/-- A listing is one script that passes over damage. -/
theorem IsListing.exists_script {request : Request α} (hlisting : request.IsListing) :
    ∃ script : Script α, script.PassesOver ∧
      ∀ ledger : Ledger, ledger.answer request = ledger.perform script := by
  cases request with
  | runsInWindow program status first last limit keep =>
    exact ⟨_, Runs.passesOver_inWindow program status first last limit keep, fun _ ↦ rfl⟩
  | runsWithStatus status limit keep =>
    exact ⟨_, Runs.passesOver_withStatus status limit keep, fun _ ↦ rfl⟩
  | runsActiveDuring first last =>
    exact ⟨_, Runs.passesOver_activeDuring first last, fun _ ↦ rfl⟩
  | nodeStates workflow id =>
    exact ⟨_, Progress.passesOver_nodeStates workflow id, fun _ ↦ rfl⟩
  | statistics workflow first last percentiles =>
    exact ⟨_, Summaries.passesOver_statistics workflow first last percentiles, fun _ ↦ rfl⟩
  | _ => exact hlisting.elim

/-- A request that needs a record begins with a script that does, and fails with it. -/
theorem exists_script_of_needed? {request : Request α} {key : Key}
    (hneeded : request.needed? = some key) :
    ∃ script : Script α, script.Requires key ∧
      ∀ (ledger : Ledger) (failure : Failure), (ledger.perform script).1 = .error failure →
        (ledger.answer request).1 = .error failure := by
  have hperform {script : Script α}
      (hanswer : ∀ ledger : Ledger, ledger.answer request = ledger.perform script)
      (hrequires : script.Requires key) :
      ∃ script : Script α, script.Requires key ∧
        ∀ (ledger : Ledger) (failure : Failure), (ledger.perform script).1 = .error failure →
          (ledger.answer request).1 = .error failure :=
    ⟨script, hrequires, fun ledger _ hfailed ↦ hanswer ledger ▸ hfailed⟩
  cases request with
  | start request =>
    obtain ⟨htime, hkey⟩ := Option.ite_none_right_eq_some.mp hneeded
    exact hperform (fun _ ↦ rfl) (Option.some.inj hkey ▸ Runs.requires_start htime)
  | stop program id time status cause? =>
    obtain ⟨hterminal, hkey⟩ := Option.ite_none_right_eq_some.mp hneeded
    refine ⟨_, Option.some.inj hkey ▸ Runs.requires_stop program id time hterminal cause?,
      fun ledger failure hfailed ↦ ?_⟩
    rw [Ledger.answer, Ledger.stop]
    generalize ledger.perform (Runs.stop program id time status cause?) = stopped at hfailed
    obtain ⟨outcome, after⟩ := stopped
    obtain rfl : outcome = .error failure := hfailed
    rfl
  | suspend program id _ | resume program id _ | putToken program id _ | token program id
  | putNodeState program id _ =>
    obtain rfl := Option.some.inj hneeded
    exact hperform (fun _ ↦ rfl) ((Runs.requires_require program id).bind _)
  | compareAndSet program id _ _ _ | runtimeArguments program id =>
    obtain rfl := Option.some.inj hneeded
    exact hperform (fun _ ↦ rfl) ((Runs.requires_find? program id).bind _)
  | run? program id =>
    obtain rfl := Option.some.inj hneeded
    exact hperform (fun _ ↦ rfl) (Runs.requires_find? program id)
  | summary? workflow id =>
    obtain rfl := Option.some.inj hneeded
    exact hperform (fun _ ↦ rfl) (Summaries.requires_find? workflow id)
  | spacedSummaries workflow id _ _ =>
    obtain rfl := Option.some.inj hneeded
    exact hperform (fun _ ↦ rfl) ((Summaries.requires_find? workflow id).bind _)
  | _ => cases hneeded

end Request

/-! ### Ledgers -/

namespace Ledger

variable {ledger : Ledger} (hreads : ∀ serial, ledger.database.substrate.failsRead serial = false)

include hreads

/-- If no read fails, a script that passes over damage tells what it tells of the live values. -/
theorem perform_of_passesOver {script : Script α} (hpasses : script.PassesOver) :
    (ledger.perform script).1 = (script.eval ledger.live).1 := by
  cases houtcome : (script.eval ledger.live).1 with
  | ok result => exact perform_of_quiet hreads (Prod.ext houtcome rfl) (hpasses.quiet _)
  | error failure =>
    obtain ⟨rejection, rfl⟩ := hpasses.fails ledger.live failure houtcome
    exact Database.transactRetrying_of_error hreads houtcome rfl _

/-- If no read fails, a request that needs a record fails with the damage that lies there. -/
theorem answer_of_damage {request : Request α} {key : Key} (hneeded : request.needed? = some key)
    {value : Value} (hvalue : ledger.live.get? key = some value)
    (hdecodes : key.family.decodes value = false) :
    ∃ damage, (ledger.answer request).1 = .error (.corruption damage) := by
  obtain ⟨script, hrequires, hanswer⟩ := Request.exists_script_of_needed? hneeded
  obtain ⟨damage, hdamage⟩ := hrequires ledger.live value hvalue hdecodes
  exact ⟨damage, hanswer ledger _ (Database.transactRetrying_of_error hreads hdamage rfl _)⟩

end Ledger

/-- Whatever a database holds, as long as its reads do not fail, and whichever of its live keys hold
what does not decode as a record of their kind: the listings of runs and of node states and the
statistics of a workflow answer what any ledger answers that holds the same without these keys, and
fail only if the request itself is invalid. A request that needs the record of a run, or a summary,
fails with the damage where one of these keys is its key, and leaves the store as it was. -/
theorem damage_contained {ledger cleared : Ledger}
    (hreads : ∀ serial, ledger.database.substrate.failsRead serial = false)
    (hclearedReads : ∀ serial, cleared.database.substrate.failsRead serial = false)
    {corrupt : Key → Bool} (hdamaged : ledger.live.Damaged corrupt)
    (hcleared : cleared.live = ledger.live.without corrupt) {α : Type} (request : Request α) :
    (request.IsListing →
      (ledger.answer request).1 = (cleared.answer request).1 ∧
        ∀ failure, (ledger.answer request).1 = .error failure →
          ∃ rejection, failure = .invalidInput rejection) ∧
    ∀ key, request.needed? = some key → corrupt key = true →
      (∃ damage, (ledger.answer request).1 = .error (.corruption damage)) ∧
        (ledger.answer request).2.database.substrate.store = ledger.database.substrate.store := by
  refine ⟨fun hlisting ↦ ?_, fun key hneeded hcorrupt ↦ ?_⟩
  · obtain ⟨script, hpasses, hanswer⟩ := hlisting.exists_script
    rw [hanswer, hanswer, Ledger.perform_of_passesOver hreads hpasses,
      Ledger.perform_of_passesOver hclearedReads hpasses, hcleared]
    exact ⟨(hpasses.tells hdamaged).symm, hpasses.fails ledger.live⟩
  · obtain ⟨value, hvalue, hdecodes⟩ := hdamaged key hcorrupt
    obtain ⟨damage, hanswer⟩ := Ledger.answer_of_damage hreads hneeded hvalue hdecodes
    exact ⟨⟨damage, hanswer⟩, Ledger.answer_failed (Prod.ext hanswer rfl)⟩

/-- Two workflow runs that have started. -/
def startedNights : Ledger :=
  let started := (Ledger.ephemeral.start ⟨nightly, firstNight, 1000, none, ∅, ∅⟩).2
  (started.start ⟨nightly, secondNight, 1000, none, ∅, ∅⟩).2

/-- The two runs with the record of the first torn. -/
def tornNights : Ledger :=
  (startedNights.perform (Script.write (Key.run nightly firstNight) (.text "torn"))).2

/-- The two runs without the record of the first. -/
def clearedNights : Ledger :=
  (startedNights.perform (Script.erase (Key.run nightly firstNight))).2

/-- With the record of the first run torn, the running runs are those that are listed without it,
and neither is the run found nor can it be suspended. -/
theorem damage_contained_nights :
    let corrupt (key : Key) : Bool := key = Key.run nightly firstNight
    let running := Request.runsWithStatus (.only .running) 9 fun _ ↦ true
    let lookup := Request.run? nightly firstNight
    let suspension := Request.suspend nightly firstNight 1010
    tornNights.live.Damaged corrupt ∧ clearedNights.live = tornNights.live.without corrupt ∧
      (tornNights.answer running).1 = (clearedNights.answer running).1 ∧
      (∃ damage, (tornNights.answer lookup).1 = .error (.corruption damage)) ∧
      (∃ damage, (tornNights.answer suspension).1 = .error (.corruption damage)) ∧
      (tornNights.answer suspension).2.database.substrate.store =
        tornNights.database.substrate.store := by
  intro corrupt running lookup suspension
  obtain ⟨htorn, hdecodes⟩ :
      tornNights.live.get? (Key.run nightly firstNight) = some (.text "torn") ∧
      Family.run.decodes (.text "torn") = false := by
    decide +kernel
  have hcleared : clearedNights.live = tornNights.live.without corrupt := rfl
  have hdamaged : tornNights.live.Damaged corrupt := by
    intro key hkey
    obtain rfl := of_decide_eq_true hkey
    exact ⟨.text "torn", htorn, hdecodes⟩
  have hcontained {α : Type} (request : Request α) :=
    damage_contained (fun _ ↦ rfl) (fun _ ↦ rfl) hdamaged hcleared request
  have hcorrupt : corrupt (Key.run nightly firstNight) = true := decide_eq_true rfl
  obtain ⟨hlookup, -⟩ := (hcontained lookup).2 _ rfl hcorrupt
  obtain ⟨hsuspension, hstore⟩ := (hcontained suspension).2 _ rfl hcorrupt
  exact ⟨hdamaged, hcleared, ((hcontained running).1 trivial).1, hlookup, hsuspension, hstore⟩

end RunLedger
