import RunLedger.Proofs.Ledger.StoredSummaries

/-!
# Failing reads

A read that the store refuses is not an answer: whoever asked must not go on as if nothing were
there. `Script.outages` lists the refusals that a script meets, one for each read that fails
(`Script.failureCount_run`). A plain script meets at most one, and ends with it
(`Script.Plain.surfaces`).

All operations are plain but one. The listing of runs by their status looks up the record of each
index entry, and passes over the entry where that look-up fails, for whatever reason. So it reports
a scan that fails, but a look-up that fails is taken for a record that is not there
(`Runs.lookups_withStatus`), and a live run of the status is missing from the listing
(`listing_hides_outage`).
-/

set_option autoImplicit false

namespace RunLedger

variable {α β : Type}

/-! ### Refusals of the store -/

/-- What the store has refused, if that is what went wrong. -/
def Failure.outage? : Failure → Option Outage
  | .storeUnavailable outage => some outage
  | _ => none

/-- The refusal of the store that an answer reports, if any. -/
def refusals : Except Failure α → List Outage
  | .ok _ => []
  | .error failure => failure.outage?.toList

/-- The answer of an access, and the substrate behind it, report as many refusals as there were, and
those only for one cause. -/
structure Reports (substrate : Substrate) (answer : Except Failure α) (issued : Substrate)
    (cause : Outage) : Prop where
  count : issued.failureCount = substrate.failureCount + (refusals answer).length
  cause : ∀ outage ∈ refusals answer, outage = cause

theorem Reports.nothing (substrate : Substrate) {answer : Except Failure α}
    (hanswer : refusals answer = []) (cause : Outage) :
    Reports substrate answer substrate cause := by
  constructor
  · rw [hanswer]
    rfl
  · rw [hanswer]
    exact List.forall_mem_nil _

/-- A read of the substrate fails and counts a failure, or gives an answer. -/
theorem Substrate.failureCount_read (substrate : Substrate) (outage : Outage)
    (answer : Store → α) :
    ((substrate.read outage answer).1 = .error outage ∧
        (substrate.read outage answer).2.failureCount = substrate.failureCount + 1) ∨
      (substrate.read outage answer).1 = .ok (answer substrate.store) ∧
        (substrate.read outage answer).2.failureCount = substrate.failureCount := by
  unfold Substrate.read
  split
  · exact Or.inl ⟨rfl, rfl⟩
  · exact Or.inr ⟨rfl, rfl⟩

namespace Transaction

/-- A look-up reports the one read of its two that fails. -/
theorem reports_get (transaction : Transaction) (substrate : Substrate) (key : Key) :
    Reports substrate (transaction.get substrate key).1 (transaction.get substrate key).2.2
      .plannedRead := by
  unfold Transaction.get
  split
  · exact .nothing substrate rfl _
  split
  · exact .nothing substrate rfl _
  split
  · exact .nothing substrate rfl _
  split
  · exact .nothing substrate rfl _
  rename_i snapshot _
  have hvalue := substrate.failureCount_read .plannedRead (·.get? key snapshot)
  change ((substrate.get key snapshot).1 = _ ∧ (substrate.get key snapshot).2.failureCount = _) ∨
    (substrate.get key snapshot).1 = _ ∧ (substrate.get key snapshot).2.failureCount = _ at hvalue
  generalize substrate.get key snapshot = answered at hvalue ⊢
  obtain ⟨answer, issued⟩ := answered
  rcases hvalue with ⟨rfl, hcount⟩ | ⟨rfl, hcount⟩
  · exact ⟨hcount, List.forall_mem_singleton.mpr rfl⟩
  · dsimp only at hcount ⊢
    split
    · rename_i hfound
      cases hfound
    · rename_i hfound
      obtain ⟨-, rfl⟩ := Prod.mk.inj hfound
      exact ⟨hcount, List.forall_mem_nil _⟩
    · rename_i hfound
      obtain ⟨-, rfl⟩ := Prod.mk.inj hfound
      have hversion := issued.failureCount_read .plannedRead (·.keyVersion key snapshot)
      change ((issued.keyVersion key snapshot).1 = _ ∧
          (issued.keyVersion key snapshot).2.failureCount = _) ∨
        (issued.keyVersion key snapshot).1 = _ ∧
          (issued.keyVersion key snapshot).2.failureCount = _ at hversion
      rw [hcount] at hversion
      generalize issued.keyVersion key snapshot = asked at hversion ⊢
      obtain ⟨version, last⟩ := asked
      rcases hversion with ⟨rfl, hlast⟩ | ⟨rfl, hlast⟩
      · exact ⟨hlast, List.forall_mem_singleton.mpr rfl⟩
      · exact ⟨hlast, List.forall_mem_nil _⟩

theorem reports_scan (transaction : Transaction) (substrate : Substrate) (inside : Key → Bool)
    (rows : Nat → Store → List (Key × VersionedValue)) :
    let answered := transaction.scan substrate inside fun version ↦
      substrate.read .plannedScan (rows version)
    Reports substrate answered.1 answered.2.2 .plannedScan := by
  dsimp only
  unfold Transaction.scan
  split
  · exact .nothing substrate rfl _
  dsimp only
  split
  · exact .nothing substrate rfl _
  rename_i snapshot _
  have hrows := substrate.failureCount_read .plannedScan (rows snapshot)
  generalize substrate.read .plannedScan (rows snapshot) = answered at hrows ⊢
  obtain ⟨answer, issued⟩ := answered
  rcases hrows with ⟨rfl, hcount⟩ | ⟨rfl, hcount⟩
  · exact ⟨hcount, List.forall_mem_singleton.mpr rfl⟩
  · exact ⟨hcount, List.forall_mem_nil _⟩

theorem refusals_put (transaction : Transaction) (key : Key) (value : Value) :
    refusals (transaction.put key value).1 = [] := by
  unfold Transaction.put
  split <;> rfl

theorem refusals_delete (transaction : Transaction) (key : Key) :
    refusals (transaction.delete key).1 = [] := by
  unfold Transaction.delete
  split <;> rfl

end Transaction

/-! ### Refusals that a script meets -/

namespace Script

/-- The refusals that a script meets in a transaction over a substrate, in their order. -/
def outages : Script α → Transaction → Substrate → List Outage
  | finish _, _, _ => []
  | get key next, transaction, substrate =>
    let (answer, transaction, substrate) := transaction.get substrate key
    refusals answer ++ (next answer).outages transaction substrate
  | scanStem stem next, transaction, substrate =>
    let (answer, transaction, substrate) := transaction.scanStem substrate stem
    refusals answer ++ (next answer).outages transaction substrate
  | scanRange first last next, transaction, substrate =>
    let (answer, transaction, substrate) := transaction.scanRange substrate first last
    refusals answer ++ (next answer).outages transaction substrate
  | put key value next, transaction, substrate =>
    let (answer, transaction) := transaction.put key value
    (next answer).outages transaction substrate
  | delete key next, transaction, substrate =>
    let (answer, transaction) := transaction.delete key
    (next answer).outages transaction substrate

/-- There is a refusal for each read that fails while a script runs, and no other. -/
theorem failureCount_run (script : Script α) (transaction : Transaction) (substrate : Substrate) :
    (script.run transaction substrate).2.2.failureCount =
      substrate.failureCount + (script.outages transaction substrate).length := by
  induction script generalizing transaction substrate with
  | finish outcome => rfl
  | get key next ih =>
    have hreports := (transaction.reports_get substrate key).count
    simp only [run, outages, List.length_append, ih, hreports, Nat.add_assoc]
  | scanStem stem next ih =>
    have hreports := (transaction.reports_scan substrate (·.startsWith stem) fun version store ↦
      store.scanStem stem version).count
    change (transaction.scanStem substrate stem).2.2.failureCount = _ at hreports
    simp only [run, outages, List.length_append, ih, hreports, Nat.add_assoc]
    rfl
  | scanRange first last next ih =>
    have hreports := (transaction.reports_scan substrate (Key.isBetween first last)
      fun version store ↦ store.scanRange first last version).count
    change (transaction.scanRange substrate first last).2.2.failureCount = _ at hreports
    simp only [run, outages, List.length_append, ih, hreports, Nat.add_assoc]
    rfl
  | put key value next ih => exact ih _ _ substrate
  | delete key next ih => exact ih _ _ substrate

/-- A script meets no refusal, or one that it ends with. -/
def Surfaces (script : Script α) (transaction : Transaction) (substrate : Substrate) : Prop :=
  script.outages transaction substrate = [] ∨
    ∃ outage, script.outages transaction substrate = [outage] ∧
      (script.run transaction substrate).1 = .error (.storeUnavailable outage)

/-- A script that ends with the failure of an access surfaces the refusal that it met. -/
theorem surfaces_next (answer : Except Failure β) {next : Except Failure β → Script α}
    (hfailure : ∀ failure, next (.error failure) = .finish (.error failure))
    {transaction : Transaction} {substrate : Substrate}
    (hnext : ∀ found, (next (.ok found)).Surfaces transaction substrate) :
    refusals answer ++ (next answer).outages transaction substrate = [] ∨
      ∃ outage, refusals answer ++ (next answer).outages transaction substrate = [outage] ∧
        ((next answer).run transaction substrate).1 = .error (.storeUnavailable outage) := by
  cases answer with
  | ok found => exact hnext found
  | error failure =>
    rw [hfailure]
    cases failure with
    | storeUnavailable outage => exact Or.inr ⟨outage, rfl, rfl⟩
    | _ => exact Or.inl rfl

/-- A plain script ends with the first refusal that it meets. -/
theorem Plain.surfaces {script : Script α} {mayScan : Prop} {mayChange : Key → Prop}
    (hplain : script.Plain mayScan mayChange) (transaction : Transaction)
    (substrate : Substrate) : script.Surfaces transaction substrate := by
  induction hplain generalizing transaction substrate with
  | finish outcome => exact Or.inl rfl
  | get hfailure _ ih | scanStem _ hfailure _ ih | scanRange _ hfailure _ ih =>
    exact surfaces_next _ hfailure fun found ↦ ih found _ _
  | @put key value next _ hfailure _ ih =>
    have hnext := surfaces_next (transaction.put key value).1 hfailure fun _ ↦
      ih (transaction.put key value).2 substrate
    rwa [transaction.refusals_put key value, List.nil_append] at hnext
  | @delete key next _ hfailure _ ih =>
    have hnext := surfaces_next (transaction.delete key).1 hfailure fun _ ↦
      ih (transaction.delete key).2 substrate
    rwa [transaction.refusals_delete key, List.nil_append] at hnext

/-! ### Look-ups that are passed over -/

theorem run_followedBy (script : Script α) (continuation : Except Failure α → Script β)
    (transaction : Transaction) (substrate : Substrate) :
    (script.followedBy continuation).run transaction substrate =
      (continuation (script.run transaction substrate).1).run
        (script.run transaction substrate).2.1 (script.run transaction substrate).2.2 := by
  induction script generalizing transaction substrate with
  | finish outcome => rfl
  | get key next ih | scanStem stem next ih | scanRange first last next ih
  | put key value next ih | delete key next ih => exact ih _ _ _

theorem outages_followedBy (script : Script α) (continuation : Except Failure α → Script β)
    (transaction : Transaction) (substrate : Substrate) :
    (script.followedBy continuation).outages transaction substrate =
      script.outages transaction substrate ++
        (continuation (script.run transaction substrate).1).outages
          (script.run transaction substrate).2.1 (script.run transaction substrate).2.2 := by
  induction script generalizing transaction substrate with
  | finish outcome => rfl
  | get key next ih | scanStem stem next ih | scanRange first last next ih =>
    exact (congrArg _ (ih _ _ _)).trans (List.append_assoc ..).symm
  | put key value next ih | delete key next ih => exact ih _ _ _

/-- A script meets refusals of look-ups that do not show in its outcome, and then no other, or that
of a scan, which it ends with. -/
def PassesLookups (script : Script α) (transaction : Transaction) (substrate : Substrate) : Prop :=
  ∃ lookups : List Outage, (∀ outage ∈ lookups, outage = .plannedRead) ∧
    ((script.outages transaction substrate = lookups ∧
        refusals (script.run transaction substrate).1 = []) ∨
      (script.outages transaction substrate = lookups ++ [.plannedScan] ∧
        (script.run transaction substrate).1 = .error (.storeUnavailable .plannedScan)))

section

variable {transaction : Transaction} {substrate : Substrate}

theorem passesLookups_pure (result : α) :
    (pure result : Script α).PassesLookups transaction substrate :=
  ⟨[], List.forall_mem_nil _, Or.inl ⟨rfl, rfl⟩⟩

theorem passesLookups_readStem (stem : Key) :
    (readStem stem).PassesLookups transaction substrate := by
  have hreports := transaction.reports_scan substrate (·.startsWith stem) fun version store ↦
    store.scanStem stem version
  have houtages : (readStem stem).outages transaction substrate =
      refusals ((readStem stem).run transaction substrate).1 := List.append_nil _
  have hcause : ∀ outage ∈ refusals ((readStem stem).run transaction substrate).1,
      outage = .plannedScan := hreports.cause
  refine ⟨[], List.forall_mem_nil _, ?_⟩
  rw [houtages]
  generalize ((readStem stem).run transaction substrate).1 = answer at hcause ⊢
  cases answer with
  | ok rows => exact Or.inl ⟨rfl, rfl⟩
  | error failure =>
    cases failure with
    | storeUnavailable outage =>
      obtain rfl : outage = .plannedScan := hcause outage List.mem_cons_self
      exact Or.inr ⟨rfl, rfl⟩
    | _ => exact Or.inl ⟨rfl, rfl⟩

theorem PassesLookups.bind {script : Script α}
    (hscript : script.PassesLookups transaction substrate) {next : α → Script β}
    (hnext : ∀ result transaction substrate, (next result).PassesLookups transaction substrate) :
    (script >>= next).PassesLookups transaction substrate := by
  obtain ⟨lookups, hlookups, hended⟩ := hscript
  have hrun : (script >>= next).run transaction substrate = _ := run_followedBy script _ _ _
  have houtages : (script >>= next).outages transaction substrate = _ :=
    outages_followedBy script _ _ _
  unfold PassesLookups
  rw [hrun, houtages]
  generalize script.run transaction substrate = ran at hended ⊢
  obtain ⟨outcome, after, issued⟩ := ran
  rcases hended with ⟨hbefore, hrefusals⟩ | ⟨hbefore, hfailed⟩
  · rw [hbefore]
    cases outcome with
    | error failure =>
      exact ⟨lookups, hlookups, Or.inl ⟨List.append_nil _, hrefusals⟩⟩
    | ok result =>
      obtain ⟨more, hmore, hlast⟩ := hnext result after issued
      refine ⟨lookups ++ more, List.forall_mem_append.mpr ⟨hlookups, hmore⟩, ?_⟩
      rcases hlast with ⟨hrest, hdone⟩ | ⟨hrest, hdone⟩
      · exact Or.inl ⟨congrArg _ hrest, hdone⟩
      · exact Or.inr ⟨(congrArg _ hrest).trans (List.append_assoc ..).symm, hdone⟩
  · obtain rfl : outcome = .error (.storeUnavailable .plannedScan) := hfailed
    rw [hbefore]
    exact ⟨lookups, hlookups, Or.inr ⟨List.append_nil _, rfl⟩⟩

end

end Script

namespace Runs

open Script

/-- What becomes of a look-up of a record is always a result. -/
theorem passesLookups_find? (program : ProgramId) (id : RunId) (transaction : Transaction)
    (substrate : Substrate) :
    (find? program id).attempt.PassesLookups transaction substrate := by
  have hfound : (find? program id).outages transaction substrate =
      refusals (transaction.get substrate (Key.run program id)).1 := by
    have hfollowed : (find? program id).outages transaction substrate = _ :=
      outages_followedBy (read (Key.run program id)) _ transaction substrate
    rw [hfollowed]
    have hread : (read (Key.run program id)).outages transaction substrate =
      refusals (transaction.get substrate (Key.run program id)).1 := List.append_nil _
    rw [hread]
    refine (congrArg _ ?_).trans (List.append_nil _)
    generalize ((read (Key.run program id)).run transaction substrate).1 = answer
    rcases answer with failure | ⟨_ | value⟩
    · rfl
    · rfl
    · change ((Script.decode value : Script RunRecord) >>= _).outages _ _ = []
      unfold Script.decode
      generalize (value.decode : Except Damage RunRecord).mapError Failure.corruption = decoded
      cases decoded <;> rfl
  have hattempt : (find? program id).attempt.outages transaction substrate = _ :=
    outages_followedBy (find? program id) _ transaction substrate
  have hrun : (find? program id).attempt.run transaction substrate = _ :=
    run_followedBy (find? program id) _ transaction substrate
  refine ⟨_, (transaction.reports_get substrate (Key.run program id)).cause, Or.inl ⟨?_, ?_⟩⟩
  · rw [hattempt, hfound]
    exact List.append_nil _
  · rw [hrun]
    rfl

theorem passesLookups_ofEntries (status : RunStatus) (keep : RunRecord → Bool)
    (rows : List (Key × Value)) (limit : Nat) (transaction : Transaction) (substrate : Substrate) :
    (ofEntries status keep rows limit).PassesLookups transaction substrate := by
  induction rows generalizing limit transaction substrate with
  | nil => exact passesLookups_pure _
  | cons row rest ih =>
    cases limit with
    | zero => exact passesLookups_pure _
    | succ limit =>
      unfold ofEntries
      split
      · exact ih _ _ _
      · rename_i entry _
        refine (passesLookups_find? entry.program entry.id transaction substrate).bind
          fun found transaction substrate ↦ ?_
        split
        · split
          · exact (ih limit transaction substrate).bind fun _ _ _ ↦ passesLookups_pure _
          · exact ih _ _ _
        · exact ih _ _ _

/-- The listing by status passes over the entries whose records it cannot look up, and ends with the
first scan that it cannot make. -/
theorem lookups_withStatus (status : StatusFilter) (limit : Nat) (keep : RunRecord → Bool)
    (transaction : Transaction) (substrate : Substrate) :
    (withStatus status limit keep).PassesLookups transaction substrate := by
  unfold withStatus
  induction status.statuses generalizing limit transaction substrate with
  | nil => exact passesLookups_pure _
  | cons status rest ih =>
    cases limit with
    | zero => exact passesLookups_pure _
    | succ limit =>
      unfold withStatuses
      exact (passesLookups_readStem _).bind fun rows transaction substrate ↦
        (passesLookups_ofEntries status keep rows _ transaction substrate).bind
          fun found transaction substrate ↦ (ih _ transaction substrate).bind
            fun _ _ _ ↦ passesLookups_pure _

end Runs

/-! ### All operations -/

/-- What may be done in an open transaction by the operations on runs, progress and summaries, the
listing of runs by their status apart, with the type of the result. -/
inductive Task : Type → Type 1 where
  | find (program : ProgramId) (id : RunId) : Task (Option RunRecord)
  | write (record : RunRecord) (previous? : Option RunStatus) : Task Unit
  | start (request : Start) : Task RunRecord
  | suspend (program : ProgramId) (id : RunId) (time : UInt64) : Task RunRecord
  | resume (program : ProgramId) (id : RunId) (time : UInt64) : Task RunRecord
  | stop (program : ProgramId) (id : RunId) (time : UInt64) (status : RunStatus)
    (cause? : Option FailureCause) : Task RunRecord
  | compareAndSet (program : ProgramId) (id : RunId) (expected target : RunStatus)
    (time : UInt64) : Task (Option RunRecord)
  | inWindow (program : ProgramId) (status : StatusFilter) (first last : UInt64) (limit : Nat)
    (keep : RunRecord → Bool) : Task (List RunRecord)
  | activeDuring (first last : UInt64) : Task (SortedSet RunId)
  | runtimeArguments (program : ProgramId) (id : RunId) : Task (SortedMap String String)
  | putToken (workflow : ProgramId) (id : RunId) (token : WorkflowToken) : Task Unit
  | token (workflow : ProgramId) (id : RunId) : Task WorkflowToken
  | putNodeState (workflow : ProgramId) (id : RunId) (state : NodeState) : Task Unit
  | nodeStates (workflow : ProgramId) (id : RunId) : Task (List NodeState)
  | removeRuns (scope : Scope) (size : Nat) : Task Nat
  | summarize (record : RunRecord) : Task (Option WorkflowSummary)
  | writeSummary (workflow : ProgramId) (summary : WorkflowSummary) : Task Unit
  | findSummary (workflow : ProgramId) (id : RunId) : Task (Option WorkflowSummary)
  | recordSummary (workflow : ProgramId) (id : RunId) : Task Bool
  | statistics (workflow : ProgramId) (first last : UInt64) (percentiles : List Float) :
    Task (Option WorkflowStatistics)
  | spaced (workflow : ProgramId) (id : RunId) (limit : Nat) (interval : UInt64) :
    Task (Option (List WorkflowSummary))
  | removeSummaries (scope : Scope) (size : Nat) : Task Nat

namespace Task

open Script

/-- The script of a task. -/
def script : Task α → Script α
  | .find program id => Runs.find? program id
  | .write record previous? => Runs.write record previous?
  | .start request => Runs.start request
  | .suspend program id time => Runs.suspend program id time
  | .resume program id time => Runs.resume program id time
  | .stop program id time status cause? => Runs.stop program id time status cause?
  | .compareAndSet program id expected target time =>
    Runs.compareAndSet program id expected target time
  | .inWindow program status first last limit keep =>
    Runs.inWindow program status first last limit keep
  | .activeDuring first last => Runs.activeDuring first last
  | .runtimeArguments program id => Runs.runtimeArguments program id
  | .putToken workflow id value => Progress.putToken workflow id value
  | .token workflow id => Progress.token workflow id
  | .putNodeState workflow id state => Progress.putNodeState workflow id state
  | .nodeStates workflow id => Progress.nodeStates workflow id
  | .removeRuns scope size => Runs.removeBatch scope size
  | .summarize record => Summaries.summarize? record
  | .writeSummary workflow summary => Summaries.write workflow summary
  | .findSummary workflow id => Summaries.find? workflow id
  | .recordSummary workflow id => Summaries.record workflow id
  | .statistics workflow first last percentiles =>
    Summaries.statistics workflow first last percentiles
  | .spaced workflow id limit interval => Summaries.spaced workflow id limit interval
  | .removeSummaries scope size => Summaries.removeBatch scope size

/-- Every task ends with the failure of an access that fails. -/
theorem plain_script (task : Task α) : task.script.Plain True fun _ ↦ True := by
  have hwiden {γ : Type} {script : Script γ} {mayScan : Prop} {mayChange : Key → Prop}
      (hplain : script.Plain mayScan mayChange) : script.Plain True fun _ ↦ True :=
    hplain.mono (fun _ ↦ trivial) fun _ _ ↦ trivial
  cases task with
  | find program id => exact Runs.plain_find? program id
  | write record previous? => exact hwiden (@Runs.plain_write True record previous?)
  | start request => exact hwiden (@Runs.plain_start True request)
  | suspend program id time =>
    exact hwiden (@Runs.Amendment.plain _ True _ _ _ (Runs.amendment_suspend program id time))
  | resume program id time =>
    exact hwiden (@Runs.Amendment.plain _ True _ _ _ (Runs.amendment_resume program id time))
  | stop program id time status cause? =>
    exact hwiden (@Runs.Amendment.plain _ True _ _ _
      (Runs.amendment_stop program id time status cause?))
  | compareAndSet program id expected target time =>
    exact hwiden (@Runs.Amendment.plain _ True _ _ _
      (Runs.amendment_compareAndSet program id time expected target))
  | inWindow program status first last limit keep =>
    exact hwiden (Runs.plain_inWindow program status first last limit keep)
  | activeDuring first last => exact (plain_readStem trivial _).bind fun _ ↦ plain_pure _
  | runtimeArguments program id =>
    exact (Runs.plain_find? program id).bind fun
      | none => plain_pure _
      | some _ => plain_pure _
  | putToken workflow id value | putNodeState workflow id state =>
    exact (Runs.plain_require workflow id).bind fun _ ↦ plain_write trivial _
  | token workflow id =>
    exact (Runs.plain_require workflow id).bind fun _ ↦ (plain_read _).bind fun
      | none => plain_pure _
      | some _ => Runs.plain_decode _
  | nodeStates workflow id => exact (plain_readStem trivial _).bind fun _ ↦ plain_pure _
  | removeRuns scope size => exact Runs.plain_removeBatch scope size
  | summarize record => exact hwiden (@Summaries.plain_summarize? (fun _ ↦ True) record)
  | writeSummary workflow summary => exact plain_write trivial _
  | findSummary workflow id => exact Summaries.plain_find? workflow id
  | recordSummary workflow id => exact hwiden (Summaries.plain_record workflow id)
  | statistics workflow first last percentiles =>
    exact Summaries.plain_statistics trivial workflow first last percentiles
  | spaced workflow id limit interval =>
    exact Summaries.plain_spaced trivial workflow id limit interval
  | removeSummaries scope size => exact Summaries.plain_removeBatch scope size

end Task

/-- A task meets no read that fails, or ends with the refusal of the one it meets. The listing of
runs by their status reports a scan that fails, but goes on when a look-up fails. -/
theorem outages_surface (transaction : Transaction) (substrate : Substrate) :
    (∀ {α : Type} (script : Script α),
      (script.run transaction substrate).2.2.failureCount =
        substrate.failureCount + (script.outages transaction substrate).length) ∧
    (∀ {α : Type} (task : Task α), task.script.Surfaces transaction substrate) ∧
    ∀ (status : StatusFilter) (limit : Nat) (keep : RunRecord → Bool),
      (Runs.withStatus status limit keep).PassesLookups transaction substrate :=
  ⟨fun script ↦ script.failureCount_run transaction substrate,
    fun task ↦ task.plain_script.surfaces transaction substrate,
    fun status limit keep ↦ Runs.lookups_withStatus status limit keep transaction substrate⟩

/-- The same substrate, of which the next read but one fails. -/
def Substrate.stumbling (substrate : Substrate) : Substrate :=
  { substrate with failsRead := (· == substrate.readCount + 1) }

/-- A substrate with a run that has started. -/
def startedNight : Substrate :=
  (Ledger.ephemeral.start {
    program := nightly, id := firstNight, startTime := 1000, twillRunId? := none,
    runtimeArguments := ∅, systemArguments := ∅ }).2.database.substrate

/-- A listing of the running runs meets a look-up that fails, and answers that there are none. -/
theorem listing_hides_outage :
    let listing := Runs.withStatus (.only .running) 9 fun _ ↦ true
    let reader := Transaction.onSnapshot 2 1
    (listing.run reader startedNight).1.toOption.map List.length = some 1 ∧
      listing.outages reader startedNight.stumbling = [.plannedRead] ∧
      (listing.run reader startedNight.stumbling).1.toOption.map List.length = some 0 ∧
      ¬ listing.Surfaces reader startedNight.stumbling := by
  intro listing reader
  obtain ⟨hfound, houtages, hlisted⟩ :
      (listing.run reader startedNight).1.toOption.map List.length = some 1 ∧
      listing.outages reader startedNight.stumbling = [.plannedRead] ∧
      (listing.run reader startedNight.stumbling).1.toOption.map List.length = some 0 := by
    decide +kernel
  refine ⟨hfound, houtages, hlisted, ?_⟩
  rintro (hnone | ⟨outage, -, hfailed⟩)
  · rw [houtages] at hnone
    cases hnone
  · rw [hfailed] at hlisted
    cases hlisted

end RunLedger
