import RunLedger.Proofs.Database.Confinement
import RunLedger.Proofs.Ledger.ScopeRemoval
import RunLedger.Proofs.Transaction.View

/-!
# Stops and their summaries

A stop that leaves a workflow run completed is followed by a second transaction, for the summary of
the run. Whatever becomes of that, the stop gives what its first transaction gave, and all keys but
one are left as they were then (`stop_unaffected_by_summary`). This is so among others as well, who
may act before each access of both transactions, behind their commits, between their attempts and
between the two, and may change the plan of failures (`Ledger.stopAmid`).

The one key is that of the summary of the run whose id is in the record that lies under the key of
the stopped run (`Summaries.plain_ofRun`). Nothing checks that this is the id in the key. Where it is
not, a stop writes the summary of another run (`mislabelled_stop_summarizes_another`).
-/

set_option autoImplicit false

namespace RunLedger

variable {σ α : Type}

/-- From a version on, each record that lies under the key of a run has one of some run ids. -/
structure Store.Names (program : ProgramId) (id : RunId) (names : RunId → Prop) (base : Nat)
    (store : Store) : Prop where
  reached : base ≤ store.version
  named : ∀ version found run, base ≤ version →
    store.get? (Key.run program id) version = some found →
    (found.value.decode : Except Damage RunRecord) = .ok run → names run.id

/-- In a database in order, this is so from now on for the run id that is found under the key. -/
theorem Database.InOrder.names {database : Database} (horder : database.InOrder)
    (program : ProgramId) (id : RunId) :
    database.substrate.store.Names program id
      (fun other ↦ ∃ found run, database.newest? (Key.run program id) = some found ∧
        (found.value.decode : Except Damage RunRecord) = .ok run ∧ other = run.id)
      database.substrate.store.version := by
  refine ⟨Nat.le_refl _, fun version found run hversion hfound hdecode ↦ ?_⟩
  rw [Store.get?_of_version_le horder.wellFormed _ hversion] at hfound
  exact ⟨found, run, hfound, hdecode, rfl⟩

/-- The key is that of a summary of one of some runs of a workflow. -/
def Key.IsSummaryOf (workflow : ProgramId) (names : RunId → Prop) (key : Key) : Prop :=
  ∃ id, names id ∧ key = Key.workflowRun workflow id

/-! ### What a summary changes -/

namespace Summaries

/-- What is left of a summary when the record of the run has been found. -/
def ofRun (workflow : ProgramId) (run : RunRecord) : Script Bool := do
  let some summary ← summarize? run | return false
  Summaries.write workflow summary
  return true

/-- What is left of a summary behind the look-up of the run. -/
def ofFound (workflow : ProgramId) : Except Failure (Option Value) → Script Bool
  | .error failure => .finish (.error failure)
  | .ok none => return false
  | .ok (some value) => Script.decode value >>= ofRun workflow

theorem record_eq (workflow : ProgramId) (id : RunId) :
    record workflow id = .get (Key.run workflow id) (ofFound workflow) := by
  refine congrArg (Script.get (Key.run workflow id)) (funext fun answer ↦ ?_)
  rcases answer with failure | found?
  · rfl
  · cases found? with
    | none => rfl
    | some value => exact Script.bind_assoc (Script.decode value) (fun run ↦ pure (some run)) _

/-- The summary is written under the run id that is in the record. -/
theorem plain_ofRun (workflow : ProgramId) (run : RunRecord) :
    (ofRun workflow run).Plain False fun key ↦ key = Key.workflowRun workflow run.id := by
  unfold ofRun summarize?
  split
  · rw [Script.bind_assoc]
    refine (plain_timings? _ _).bind fun nodes? ↦ ?_
    cases nodes? with
    | none => exact Script.plain_pure _
    | some nodes =>
      refine (Script.plain_write ?_ _).bind fun _ ↦ Script.plain_pure _
      rfl
  · exact Script.plain_pure _

theorem plain_ofFound {workflow : ProgramId} {names : RunId → Prop}
    {answer : Except Failure (Option Value)}
    (hnamed : ∀ value run, answer = .ok (some value) →
      (value.decode : Except Damage RunRecord) = .ok run → names run.id) :
    (ofFound workflow answer).Plain False (Key.IsSummaryOf workflow names) := by
  rcases answer with failure | found?
  · exact .finish _
  · cases found? with
    | none => exact Script.plain_pure _
    | some value =>
      dsimp only [ofFound, Script.decode]
      cases hdecode : (value.decode : Except Damage RunRecord) with
      | error damage => exact .finish _
      | ok run =>
        have hrun := hnamed value run rfl hdecode
        exact (plain_ofRun workflow run).mono id fun key hkey ↦ ⟨run.id, hrun, hkey⟩

/-- What a new transaction finds under the key of the run has one of the run ids. -/
theorem named_of_get {program : ProgramId} {id : RunId} {names : RunId → Prop} {base : Nat}
    {substrate : Substrate} (hnames : substrate.store.Names program id names base)
    (serial : Nat) {version : Nat} (hversion : base ≤ version) {value : Value} {run : RunRecord}
    (hfound : ((Transaction.onSnapshot serial version).get substrate (Key.run program id)).1 =
      .ok (some value))
    (hdecode : (value.decode : Except Damage RunRecord) = .ok run) : names run.id := by
  have hview : (Transaction.onSnapshot serial version).view substrate.store =
      substrate.store.liveAt version := SortedMap.overlay_empty _
  have hsees : (Transaction.onSnapshot serial version).Sees substrate _ _ :=
    Transaction.sees_get rfl (Key.run program id)
  rcases hsees.gives with hread | ⟨⟨cause, hfailed⟩, -⟩
  · rw [hread, hview, Store.get?_liveAt] at hfound
    obtain ⟨found, hstored, rfl⟩ := Option.map_eq_some_iff.mp (Except.ok.inj hfound)
    exact hnames.named version found run hversion hstored hdecode
  · cases hfailed.symm.trans hfound

/-- An attempt at a summary changes no keys but those of summaries of the runs that are named. -/
theorem changesOnly_trial {others : Database.Pause σ} {program : ProgramId} {id : RunId}
    {names : RunId → Prop} {base : Nat}
    (hkept : ∀ database environment, database.substrate.store.Names program id names base →
      (others database environment).1.substrate.store.Names program id names base)
    {before : Database} (hbefore : before.substrate.store.Names program id names base) (given : σ) :
    (before.trial others ((record program id).amid others) given).used.ChangesOnly
      (Key.IsSummaryOf program names) := by
  let met := others before.begin.2 given
  let looked := before.begin.1.get met.1.substrate (Key.run program id)
  have hplain : (ofFound program looked.1).Plain False (Key.IsSummaryOf program names) :=
    plain_ofFound fun value run hfound hdecode ↦
      named_of_get (hkept before.begin.2 given hbefore) _ hbefore.reached hfound hdecode
  have hbegun : looked.2.1.ChangesOnly (Key.IsSummaryOf program names) :=
    (Transaction.ChangesOnly.onSnapshot _ _).get met.1.substrate (Key.run program id)
  rw [record_eq]
  exact hplain.changesOnly_amid hbegun _ _

end Summaries

/-! ### Stops among others -/

namespace Ledger

/-- A script in a transaction of its own, tried again after conflicts, while others use the
database. -/
def performAmid (others : Database.Pause σ) (ledger : Ledger) (script : Script α) (environment : σ) :
    Except Failure α × Ledger × σ :=
  let (outcome, database, environment) := ledger.database.retryingAmid others (script.amid others)
    ledger.config.retry.maxRetries environment
  (outcome, { ledger with database }, environment)

/-- A stop while others use the database. -/
def stopAmid (others : Database.Pause σ) (ledger : Ledger) (program : ProgramId) (id : RunId)
    (time : UInt64) (status : RunStatus) (cause? : Option FailureCause) (environment : σ) :
    Except Failure RunRecord × Ledger × σ :=
  match ledger.performAmid others (Runs.stop program id time status cause?) environment with
  | (.error failure, ledger, environment) => (.error failure, ledger, environment)
  | (.ok record, ledger, environment) =>
    if program.type = .workflow ∧ record.status = .completed then
      let (database, environment) := others ledger.database environment
      let (_, ledger, environment) :=
        { ledger with database : Ledger }.performAmid others (Summaries.record program id) environment
      (.ok record, ledger, environment)
    else (.ok record, ledger, environment)

theorem performAmid_idle (ledger : Ledger) (script : Script α) :
    ledger.performAmid Database.idle script () =
      ((ledger.perform script).1, (ledger.perform script).2, ()) := by
  unfold performAmid
  rw [Script.amid_idle, Database.retryingAmid_idle]
  rfl

/-- Where others do nothing, this is how the ledger stops a run. -/
theorem stopAmid_idle (ledger : Ledger) (program : ProgramId) (id : RunId) (time : UInt64)
    (status : RunStatus) (cause? : Option FailureCause) :
    ledger.stopAmid Database.idle program id time status cause? () =
      ((ledger.stop program id time status cause?).1,
        (ledger.stop program id time status cause?).2, ()) := by
  unfold stopAmid stop
  rw [performAmid_idle]
  obtain ⟨outcome, after⟩ := ledger.perform (Runs.stop program id time status cause?)
  cases outcome with
  | error failure => rfl
  | ok record =>
    dsimp only [Database.idle]
    rw [performAmid_idle]
    split <;> rfl

section

variable {others : Database.Pause σ}
  (hothers : ∀ database environment, database.InOrder → (others database environment).1.InOrder)
  {ledger : Ledger} (hledger : ledger.database.InOrder)

include hothers hledger

theorem inOrder_performAmid (script : Script α) (environment : σ) :
    (ledger.performAmid others script environment).2.1.database.InOrder :=
  hledger.retryingAmid (fun hacts ↦ hacts.keeps hothers) (script.interleaves_amid others.acts)
    others.acts _ environment

/-- A summary changes no keys but those of summaries of the runs that are named. -/
theorem confinedTo_record {program : ProgramId} {id : RunId} {names : RunId → Prop} {base : Nat}
    (hkept : ∀ database environment, database.substrate.store.Names program id names base →
      (others database environment).1.substrate.store.Names program id names base)
    (hnames : ledger.database.substrate.store.Names program id names base) (environment : σ) :
    Database.ConfinedTo others.Acts (Key.IsSummaryOf program names) ledger.database
      (ledger.performAmid others (Summaries.record program id) environment).2.1.database := by
  have hstays {before after : Database} (hacts : others.Acts before after)
      (hbefore : before.substrate.store.Names program id names base) :
      after.substrate.store.Names program id names base := hacts.keeps hkept hbefore
  exact Database.confinedTo_retryingAmid (fun hacts ↦ hacts.keeps hothers)
    ((Summaries.record program id).interleaves_amid others.acts) others.acts hstays
    (fun before given hbefore ↦ Summaries.changesOnly_trial hkept hbefore given) hledger hnames _
    environment

end

theorem inOrder_perform {ledger : Ledger} (hledger : ledger.database.InOrder) (script : Script α) :
    (ledger.perform script).2.database.InOrder := by
  have horder := @inOrder_performAmid Unit _ Database.idle (fun _ _ hdatabase ↦ hdatabase) ledger
    hledger script ()
  rwa [performAmid_idle] at horder

section

variable {others : Database.Pause σ} (ledger : Ledger) (program : ProgramId) (id : RunId)
  (time : UInt64) (status : RunStatus) (cause? : Option FailureCause) (environment : σ)

/-- A stop is its first transaction, or what others do behind that and a summary with the same
result. -/
theorem stopAmid_cases :
    let first := ledger.performAmid others (Runs.stop program id time status cause?) environment
    let stopped := ledger.stopAmid others program id time status cause? environment
    stopped = first ∨ program.type = .workflow ∧
      ∃ record, first.1 = .ok record ∧ record.status = .completed ∧
        let met := others first.2.1.database first.2.2
        stopped = (first.1,
          (performAmid others { first.2.1 with database := met.1 } (Summaries.record program id)
            met.2).2) := by
  dsimp only
  unfold stopAmid
  generalize ledger.performAmid others (Runs.stop program id time status cause?) environment = first
  obtain ⟨outcome, after, given⟩ := first
  cases outcome with
  | error failure => exact Or.inl rfl
  | ok record =>
    dsimp only
    split
    · rename_i hcompleted
      exact Or.inr ⟨hcompleted.1, record, rfl, hcompleted.2, rfl⟩
    · exact Or.inl rfl

theorem stopAmid_outcome :
    let first := ledger.performAmid others (Runs.stop program id time status cause?) environment
    let stopped := ledger.stopAmid others program id time status cause? environment
    stopped.1 = first.1 ∧ (stopped = first ∨
      program.type = .workflow ∧ ∃ record, first.1 = .ok record ∧ record.status = .completed) := by
  dsimp only
  rcases ledger.stopAmid_cases program id time status cause? environment with
    hsame | ⟨htype, record, hrecord, hstatus, hstopped⟩
  · rw [hsame]
    exact ⟨rfl, Or.inl rfl⟩
  · rw [hstopped]
    exact ⟨rfl, Or.inr ⟨htype, record, hrecord, hstatus⟩⟩

theorem stopAmid_confined {ledger : Ledger} (hledger : ledger.database.InOrder)
    (hothers : ∀ database environment, database.InOrder →
      (others database environment).1.InOrder) {names : RunId → Prop} {base : Nat}
    (hkept : ∀ database environment, database.substrate.store.Names program id names base →
      (others database environment).1.substrate.store.Names program id names base) :
    let first := ledger.performAmid others (Runs.stop program id time status cause?) environment
    first.2.1.database.substrate.store.Names program id names base →
      Database.ConfinedTo others.Acts (Key.IsSummaryOf program names) first.2.1.database
        (ledger.stopAmid others program id time status cause? environment).2.1.database := by
  intro first hnames
  rcases ledger.stopAmid_cases program id time status cause? environment with
    hsame | ⟨-, -, -, -, hstopped⟩
  · rw [hsame]
    exact .refl
  · rw [hstopped]
    let met := others first.2.1.database first.2.2
    let between : Ledger := { first.2.1 with database := met.1 }
    have hfirst : first.2.1.database.InOrder := inOrder_performAmid hothers hledger _ environment
    have hbetween : between.database.InOrder := hothers _ first.2.2 hfirst
    have hfound : between.database.substrate.store.Names program id names base :=
      hkept _ first.2.2 hnames
    have hrecorded := confinedTo_record hothers hbetween hkept hfound met.2
    exact .head (Or.inl (others.acts first.2.1.database first.2.2)) hrecorded

end

/-! ### Stops alone -/

section

variable (ledger : Ledger) (program : ProgramId) (id : RunId) (time : UInt64) (status : RunStatus)
  (cause? : Option FailureCause)

theorem stop_outcome :
    let first := ledger.perform (Runs.stop program id time status cause?)
    let stopped := ledger.stop program id time status cause?
    stopped.1 = first.1 ∧ (stopped = first ∨
      program.type = .workflow ∧ ∃ record, first.1 = .ok record ∧ record.status = .completed) := by
  have hidle := @stopAmid_outcome Unit Database.idle ledger program id time status cause? ()
  rw [performAmid_idle, stopAmid_idle] at hidle
  refine ⟨hidle.1, hidle.2.imp_left fun hsame ↦ ?_⟩
  obtain ⟨houtcome, hafter⟩ := Prod.mk.inj hsame
  exact Prod.ext houtcome (Prod.mk.inj hafter).1

/-- Where nobody else acts, the summary of one run at most is changed behind the first transaction. -/
theorem exists_run_of_stop_changes {ledger : Ledger} (hledger : ledger.database.InOrder) {key : Key}
    (hchanged : (ledger.stop program id time status cause?).2.database.newest? key ≠
      (ledger.perform (Runs.stop program id time status cause?)).2.database.newest? key) :
    ∃ found run, (ledger.perform (Runs.stop program id time status cause?)).2.database.newest?
        (Key.run program id) = some found ∧
      (found.value.decode : Except Damage RunRecord) = .ok run ∧
      key = Key.workflowRun program run.id := by
  have hfirst := inOrder_perform hledger (Runs.stop program id time status cause?)
  have hnames := hfirst.names program id
  have hidle (database : Database) (environment : Unit) (hdatabase : database.InOrder) :
      (Database.idle database environment).1.InOrder := hdatabase
  have hconfined := ledger.stopAmid_confined program id time status cause? () hledger hidle
    (fun _ _ hnames ↦ hnames) (by rw [performAmid_idle]; exact hnames)
  rw [performAmid_idle, stopAmid_idle] at hconfined
  by_contra hother
  refine hchanged (hconfined.newest? (fun ⟨_, hsame⟩ ↦ hsame) ?_)
  rintro ⟨_, ⟨found, run, hfound, hdecode, rfl⟩, hkey⟩
  exact hother ⟨found, run, hfound, hdecode, hkey⟩

end

end Ledger

/-- Whatever a database in order holds, whichever accesses fail, and whatever others do that keep it
in order, before each access of a stop and of the summary behind it, behind each commit and between
the attempts: the stop gives exactly what its first transaction gave, and is that alone unless this
was the record of a workflow that has completed. Behind the first transaction it changes no keys but
those of summaries of that workflow, for runs whose ids are found in what lies under the key of the
run. So it does where nobody else acts, and there it changes at most the summary of the one run whose
id is in the record that the first transaction left. -/
theorem stop_unaffected_by_summary {others : Database.Pause σ}
    (hothers : ∀ database environment, database.InOrder → (others database environment).1.InOrder)
    {ledger : Ledger} (hledger : ledger.database.InOrder) (environment : σ) (program : ProgramId)
    (id : RunId) (time : UInt64) (status : RunStatus) (cause? : Option FailureCause) :
    let summarizes (outcome : Except Failure RunRecord) : Prop :=
      program.type = .workflow ∧ ∃ record, outcome = .ok record ∧ record.status = .completed
    (let first := ledger.performAmid others (Runs.stop program id time status cause?) environment
      let stopped := ledger.stopAmid others program id time status cause? environment
      stopped.1 = first.1 ∧ (stopped = first ∨ summarizes first.1) ∧
      ∀ names base,
        (∀ database environment, database.substrate.store.Names program id names base →
          (others database environment).1.substrate.store.Names program id names base) →
        first.2.1.database.substrate.store.Names program id names base →
        Database.ConfinedTo others.Acts (Key.IsSummaryOf program names) first.2.1.database
          stopped.2.1.database) ∧
    (let first := ledger.perform (Runs.stop program id time status cause?)
      let stopped := ledger.stop program id time status cause?
      stopped.1 = first.1 ∧ (stopped = first ∨ summarizes first.1) ∧
      ∀ key, stopped.2.database.newest? key ≠ first.2.database.newest? key →
        ∃ found run, first.2.database.newest? (Key.run program id) = some found ∧
          (found.value.decode : Except Damage RunRecord) = .ok run ∧
          key = Key.workflowRun program run.id) := by
  intro summarizes
  refine ⟨?_, ?_⟩
  · obtain ⟨hsame, hcases⟩ :=
      @Ledger.stopAmid_outcome σ others ledger program id time status cause? environment
    refine ⟨hsame, hcases, fun names base hkept hnames ↦ ?_⟩
    exact ledger.stopAmid_confined program id time status cause? environment hledger hothers hkept
      hnames
  · obtain ⟨hsame, hcases⟩ := ledger.stop_outcome program id time status cause?
    exact ⟨hsame, hcases, fun key hchanged ↦
      Ledger.exists_run_of_stop_changes program id time status cause? hledger hchanged⟩

/-- Under the key of the first night lies a record that has completed, with a run id. -/
def completedUnder (id : RunId) : Ledger :=
  (Ledger.ephemeral.perform (Script.write (Key.run nightly firstNight) (.ofRecord
    { Start.record ⟨nightly, id, 1000, none, ∅, ∅⟩ with
      status := .completed, stopTime? := some 1060 }))).2

/-- From some pause on all writes fail. -/
def failingFrom (first : Nat) : Database.Pause Nat := fun database pauses ↦
  ({ database with substrate := database.substrate.setWriteFailure (decide (first ≤ pauses)) },
    pauses + 1)

/-- The first night is stopped again, and the summary behind that cannot be written: the stop gives
the record all the same. -/
theorem stop_unaffected_by_summary_failing :
    let night := completedUnder firstNight
    let first := night.performAmid (failingFrom 4)
      (Runs.stop nightly firstNight 1060 .completed none) 0
    let stopped := night.stopAmid (failingFrom 4) nightly firstNight 1060 .completed none 0
    (∀ database environment, database.InOrder →
      (failingFrom 4 database environment).1.InOrder) ∧
    night.database.InOrder ∧ stopped.1 = first.1 ∧
      Database.ConfinedTo (failingFrom 4).Acts (Key.IsSummaryOf nightly fun _ ↦ True)
        first.2.1.database stopped.2.1.database ∧
      first.1.toOption.map RunRecord.status = some .completed ∧
      first.2.1.database.substrate.failureCount = 0 ∧
      stopped.2.1.database.substrate.failureCount = 1 := by
  have hfailing (database : Database) (pauses : Nat) (horder : database.InOrder) :
      (failingFrom 4 database pauses).1.InOrder := horder.of_store rfl fun _ hread ↦ hread
  have hnight : (completedUnder firstNight).database.InOrder :=
    Ledger.inOrder_perform Database.inOrder_ephemeral _
  obtain ⟨⟨hsame, -, hconfined⟩, -⟩ :=
    stop_unaffected_by_summary hfailing hnight 0 nightly firstNight 1060 .completed none
  have hany (database : Database) : database.substrate.store.Names nightly firstNight
      (fun _ ↦ True) 0 := ⟨Nat.zero_le _, fun _ _ _ _ _ _ ↦ trivial⟩
  have hsummaries := hconfined (fun _ ↦ True) 0
    (fun database pauses _ ↦ hany (failingFrom 4 database pauses).1) (hany _)
  exact ⟨hfailing, hnight, hsame, hsummaries, by decide +kernel⟩

/-- Where the record has the run id of the second night, the stop writes a summary of that one. -/
theorem mislabelled_stop_summarizes_another :
    let first := (completedUnder secondNight).perform
      (Runs.stop nightly firstNight 1060 .completed none)
    let stopped := (completedUnder secondNight).stop nightly firstNight 1060 .completed none
    ∃ key, key ≠ Key.workflowRun nightly firstNight ∧
      stopped.2.database.newest? key ≠ first.2.database.newest? key :=
  ⟨Key.workflowRun nightly secondNight, by decide +kernel, by decide +kernel⟩

end RunLedger
