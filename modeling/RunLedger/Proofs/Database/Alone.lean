import RunLedger.Proofs.Database.Soundness
import RunLedger.Proofs.Transaction.Evaluation

/-!
# Transactions that nobody disturbs

A transaction that runs by itself reads the present state, so all it has read has the version at its
commit that it was read at (`Transaction.ReadsPresent`), and it meets no conflict. What an operation
comes to in such a transaction is what its script comes to on the live contents, and those contents
are then what the script leaves, unless the store fails (`Database.Performs`). An attempt is never
repeated (`performs_transactRetrying`).

Whoever else has a snapshot of the database may keep it; the horizon of the collection behind the
commit is not above the version of the transaction's own.
-/

set_option autoImplicit false

namespace RunLedger

variable {α : Type}

/-! ### Reading the present -/

/-- A successful read gives the answer of the store. -/
theorem Substrate.eq_of_read_ok {α : Type} {substrate after : Substrate} {outage : Outage}
    {answer : Store → α} {found : α} (hread : substrate.read outage answer = (.ok found, after)) :
    found = answer substrate.store ∧ after.store = substrate.store := by
  obtain ⟨honly, hanswer⟩ := substrate.read_spec outage answer
  rw [hread] at honly hanswer
  refine ⟨?_, honly.store⟩
  rcases hanswer with hfound | ⟨houtage, -⟩
  · exact Except.ok.inj hfound
  · cases houtage

namespace Transaction

/-- Every entry read has the version now that it was read at. -/
def ReadsPresent (transaction : Transaction) (store : Store) : Prop :=
  ∀ key version, transaction.reads.get? key = some version → store.newestVersion key = version

variable {transaction : Transaction} {substrate : Substrate}

theorem ReadsPresent.get (hpresent : transaction.ReadsPresent substrate.store)
    (hstore : substrate.store.WellFormed)
    (hreading : transaction.snapshot? = some substrate.store.version) (key : Key) :
    (transaction.get substrate key).2.1.ReadsPresent substrate.store := by
  have hrecord {version : Nat} (hversion : substrate.store.newestVersion key = version) :
      (transaction.recordRead key version).ReadsPresent substrate.store := fun _ _ ↦
    holds_of_recordRead hpresent hversion
  unfold Transaction.get
  rw [hreading]
  split
  · exact hpresent
  split
  · exact hpresent
  split
  · exact hpresent
  dsimp only
  split
  · exact hpresent
  · rename_i found after hread
    obtain ⟨hfound, -⟩ := Substrate.eq_of_read_ok hread
    exact hrecord (hstore.version_of_get? hfound.symm)
  · rename_i after hread
    obtain ⟨-, hafter⟩ := Substrate.eq_of_read_ok hread
    split
    · exact hpresent
    · rename_i version last hversion
      obtain ⟨rfl, -⟩ := Substrate.eq_of_read_ok hversion
      rw [hafter]
      exact hrecord (hstore.keyVersion_eq key).symm

theorem ReadsPresent.scan (hpresent : transaction.ReadsPresent substrate.store)
    (hreading : transaction.snapshot? = some substrate.store.version) (inside : Key → Bool)
    {outage : Outage} {rows : Nat → Store → List (Key × VersionedValue)}
    (hrows : ∀ row ∈ rows substrate.store.version substrate.store,
      substrate.store.newestVersion row.1 = row.2.version) :
    (transaction.scan substrate inside fun version ↦
      substrate.read outage (rows version)).2.1.ReadsPresent substrate.store := by
  unfold Transaction.scan
  rw [hreading]
  split
  · exact hpresent
  dsimp only
  split
  · exact hpresent
  · rename_i found after hread
    obtain ⟨rfl, -⟩ := Substrate.eq_of_read_ok hread
    obtain ⟨reads, hfold, hreads, -⟩ := foldl_recordRead
      ((rows substrate.store.version substrate.store).filter fun row ↦
        !transaction.deletes.contains row.1) transaction hpresent
      fun row hrow ↦ hrows row (List.mem_filter.mp hrow).1
    simp only [merge, hfold]
    exact hreads

/-- A call of a script that reads the present state reads nothing else. -/
theorem ReadsPresent.advance (hpresent : transaction.ReadsPresent substrate.store)
    (hstore : substrate.store.WellFormed)
    (hreading : transaction.snapshot? = some substrate.store.version) {script rest : Script α}
    {call : Call} {transaction' : Transaction} {substrate' : Substrate}
    (hadvance : script.advance transaction substrate =
      some (call, rest, transaction', substrate')) : transaction'.ReadsPresent substrate.store := by
  have hvisible {rows : List (Key × VersionedValue)} {row : Key × VersionedValue}
      {keep : Key × VersionedValue → Bool}
      (hrows : rows = (Store.visible substrate.store.version
        substrate.store.chains.toList).filter keep) (hrow : row ∈ rows) :
      substrate.store.newestVersion row.1 = row.2.version := by
    rw [hrows] at hrow
    exact hstore.version_of_get? ((Store.mem_visible_iff ..).mp (List.mem_filter.mp hrow).1)
  cases script with
  | finish outcome => cases hadvance
  | get key next =>
    cases hadvance
    exact hpresent.get hstore hreading key
  | scanStem stem next =>
    cases hadvance
    exact hpresent.scan hreading _ fun row ↦ hvisible (Store.scanStem_eq_filter ..)
  | scanRange first last next =>
    cases hadvance
    exact hpresent.scan hreading _ fun row ↦ hvisible (Store.scanRange_eq_filter ..)
  | put key value next =>
    simp only [Script.advance, Option.some.injEq, Prod.mk.injEq] at hadvance
    obtain ⟨-, -, rfl, -⟩ := hadvance
    unfold Transaction.put
    split <;> exact hpresent
  | delete key next =>
    simp only [Script.advance, Option.some.injEq, Prod.mk.injEq] at hadvance
    obtain ⟨-, -, rfl, -⟩ := hadvance
    unfold Transaction.delete
    split <;> exact hpresent

/-- A transaction that buffers something has changed something. -/
theorem Tracks.exists_changed {snapshot : Nat} {calls : List Call}
    (htracks : transaction.Tracks snapshot calls) (hreadOnly : transaction.isReadOnly = false) :
    ∃ key, Changed calls key := by
  rcases Bool.and_eq_false_iff.mp hreadOnly with hwrites | hdeletes
  · obtain ⟨key, hkey⟩ := SortedMap.exists_contains_of_isEmpty_eq_false hwrites
    exact ⟨key, (htracks.changed key).mp (Or.inl hkey)⟩
  · obtain ⟨key, hkey⟩ := SortedMap.exists_contains_of_isEmpty_eq_false hdeletes
    exact ⟨key, (htracks.changed key).mp (Or.inr hkey)⟩

end Transaction

/-! ### Scripts -/

/-- How a script went in a transaction on a snapshot that has made some calls: it made more, the
transaction tracks them all, and what held of the transaction still does. -/
structure Script.Runs (script : Script α) (keeps : Transaction → Prop) (substrate : Substrate)
    (snapshot : Nat) (calls more : List Call)
    (ran : Except Failure α × Transaction × Substrate) : Prop where
  course : script.Course (effectOf calls (substrate.store.liveAt snapshot)) substrate.failsRead more
    (.finish ran.1)
  tracks : ran.2.1.Tracks snapshot (calls ++ more)
  kept : keeps ran.2.1
  onlyRead : substrate.OnlyRead ran.2.2

/-- A script runs to its outcome, and what each of its calls keeps of the transaction holds there. -/
theorem Script.runs (script : Script α) (keeps : Transaction → Prop) {store : Store} {snapshot : Nat}
    (hkeeps : ∀ {script rest : Script α} {transaction after : Transaction}
      {substrate issued : Substrate} {calls : List Call} {call : Call}, substrate.store = store →
        transaction.Tracks snapshot calls → keeps transaction →
          script.advance transaction substrate = some (call, rest, after, issued) → keeps after)
    {transaction : Transaction} {substrate : Substrate} (hstore : substrate.store = store)
    {calls : List Call} (htracks : transaction.Tracks snapshot calls) (hkept : keeps transaction) :
    ∃ more, script.Runs keeps substrate snapshot calls more
      (script.run transaction substrate) := by
  -- one call, and then the rest of the script as the induction hypothesis says
  have hcall {script rest : Script α} {transaction after : Transaction}
      {substrate issued : Substrate} {calls : List Call} {call : Call}
      (hstore : substrate.store = store) (htracks : transaction.Tracks snapshot calls)
      (hkept : keeps transaction)
      (hadvance : script.advance transaction substrate = some (call, rest, after, issued))
      (hrest : ∀ {transaction : Transaction} {substrate : Substrate} {calls : List Call},
        substrate.store = store → transaction.Tracks snapshot calls → keeps transaction →
          ∃ more, rest.Runs keeps substrate snapshot calls more
            (rest.run transaction substrate)) :
      ∃ more, script.Runs keeps substrate snapshot calls more
        (script.run transaction substrate) := by
    obtain ⟨hleads, htrue, htracks', honly, hrefused⟩ := advance_spec htracks hadvance
    obtain ⟨more, hcourse, htracks'', hkept', honly'⟩ :=
      hrest (honly.store.trans hstore) htracks' (hkeeps hstore htracks hkept hadvance)
    rw [honly.store] at hcourse
    rw [run_eq_of_advance hadvance]
    refine ⟨call :: more, ⟨hleads.append hcourse.leads, ⟨htrue, ?_⟩, ?_⟩, ?_, hkept',
      honly.trans honly'⟩
    · have htruthful := hcourse.truthful
      rw [effectOf_append] at htruthful
      exact htruthful
    · rintro failure (_ | ⟨_, hmem⟩)
      · exact hrefused failure rfl
      · obtain ⟨hcause, hfails⟩ := hcourse.refused failure hmem
        exact ⟨hcause, honly.failsRead ▸ hfails⟩
    · rw [← List.singleton_append, ← List.append_assoc]
      exact htracks''
  induction script generalizing transaction substrate calls with
  | finish outcome =>
    refine ⟨[], ⟨.nil _, trivial, fun _ hmem ↦ by cases hmem⟩, ?_, hkept, .refl substrate⟩
    rw [List.append_nil]
    exact htracks
  | get key next ih | scanStem stem next ih | scanRange first last next ih
  | put key value next ih | delete key next ih =>
    exact hcall hstore htracks hkept rfl fun hstore htracks hkept ↦ ih _ hstore htracks hkept

/-- How a script went in a transaction on the present state that has made some calls: it made more,
and all the transaction has read is still as it was. -/
structure Script.RunsAlone (script : Script α) (substrate : Substrate) (calls more : List Call)
    (ran : Except Failure α × Transaction × Substrate) : Prop where
  course : script.Course (effectOf calls substrate.store.live) substrate.failsRead more
    (.finish ran.1)
  tracks : ran.2.1.Tracks substrate.store.version (calls ++ more)
  present : ran.2.1.ReadsPresent substrate.store
  onlyRead : substrate.OnlyRead ran.2.2

theorem Script.runsAlone (script : Script α) {transaction : Transaction} {substrate : Substrate}
    (hstore : substrate.store.WellFormed) {calls : List Call}
    (htracks : transaction.Tracks substrate.store.version calls)
    (hpresent : transaction.ReadsPresent substrate.store) :
    ∃ more, script.RunsAlone substrate calls more (script.run transaction substrate) := by
  obtain ⟨more, hcourse, htracks', hpresent', honly⟩ :=
    script.runs (fun transaction ↦ transaction.ReadsPresent substrate.store)
      (fun hsame htracks hpresent hadvance ↦ by
        rw [← hsame] at hstore htracks hpresent ⊢
        exact hpresent.advance hstore htracks.reading hadvance) rfl htracks hpresent
  exact ⟨more, hcourse, htracks', hpresent', honly⟩

/-! ### Operations by themselves -/

namespace Database

/-- The values that a database holds. -/
def live (database : Database) : Contents := database.substrate.store.live

/-- The version of the last commit. -/
def version (database : Database) : Nat := database.substrate.store.version

/-- Whether some access to the store is planned to fail. -/
def MayFail (database : Database) : Prop :=
  ∃ serial, database.substrate.failsRead serial = true ∨ database.substrate.failsWrite serial = true

/-- A later state of a sound store with the same planned failures. -/
structure Succeeds (before after : Database) : Prop where
  wellFormed : after.substrate.store.WellFormed
  failsRead : after.substrate.failsRead = before.substrate.failsRead
  failsWrite : after.substrate.failsWrite = before.substrate.failsWrite

theorem Succeeds.mayFail_iff {before after : Database} (hsucceeds : before.Succeeds after) :
    after.MayFail ↔ before.MayFail := by
  unfold MayFail
  rw [hsucceeds.failsRead, hsucceeds.failsWrite]

/-- How a script goes in a transaction of its own that nobody disturbs. -/
inductive Performs (before : Database) (script : Script α) : Except Failure α → Database → Prop
  | done {result after} (hresult : (script.perform before.live).outcome = .ok result)
    (hlive : after.live = (script.perform before.live).contents)
    (hversion : after.version = before.version ∨ after.version = before.version + 1 ∧
      ∃ key, Changed (script.perform before.live).calls key) :
    Performs before script (.ok result) after
  | failed {failure after} (hfailure : (script.perform before.live).outcome = .error failure)
    (hlive : after.live = before.live) (hversion : after.version = before.version) :
    Performs before script (.error failure) after
  /-- The store failed, or its versions have run out. -/
  | outage {cause after} (hlive : after.live = before.live)
    (hversion : after.version = before.version)
    (hfails : before.MayFail ∨ UInt64.size ≤ before.version + 1) :
    Performs before script (.error (.storeUnavailable cause)) after

variable {mayScan : Prop} {mayChange : Key → Prop} {script : Script α}

theorem Performs.congr {before after other : Database} {outcome : Except Failure α}
    (hperforms : before.Performs script outcome after) (hsame : other.substrate = after.substrate) :
    before.Performs script outcome other := by
  have hlive' : other.live = after.live := by rw [live, hsame, live]
  have hversion' : other.version = after.version := by rw [version, hsame, version]
  cases hperforms with
  | done hresult hlive hversion =>
    exact .done hresult (hlive'.trans hlive) (hversion' ▸ hversion)
  | failed hfailure hlive hversion =>
    exact .failed hfailure (hlive'.trans hlive) (hversion'.trans hversion)
  | outage hlive hversion hfails =>
    exact .outage (hlive'.trans hlive) (hversion'.trans hversion) hfails

/-- A transaction whose own snapshot is counted ends as its script did, with what the script leaves,
unless the store fails. It meets no conflict. -/
theorem performs_conclude {before called : Database} {calls : List Call}
    {ran : Except Failure α × Transaction × Substrate}
    (hstore : before.substrate.store.WellFormed)
    (hplain : script.Plain mayScan mayChange)
    (hran : script.RunsAlone before.substrate [] calls ran)
    (hsubstrate : called.substrate = ran.2.2)
    (hread : called.coordinator.active.contains before.version = true) :
    before.Performs script (called.conclude ran.2.1 ran.1).1 (called.conclude ran.2.1 ran.1).2.2 ∧
      before.Succeeds (called.conclude ran.2.1 ran.1).2.2 := by
  obtain ⟨outcome, transaction, substrate⟩ := ran
  obtain ⟨hcourse, htracks, hpresent, honly⟩ := hran
  rw [← hsubstrate] at honly
  rw [List.nil_append] at htracks
  have hsame : called.substrate.store = before.substrate.store := honly.store
  have hhorizon (current : Nat) : called.coordinator.horizon current ≤ before.version :=
    Coordinator.horizon_le_of_contains hread current
  obtain ⟨hconcludes, ⟨-, hfailsRead, hfailsWrite⟩, -⟩ :=
    concludes_conclude htracks.active called outcome
  dsimp only
  revert hconcludes hfailsRead hfailsWrite
  generalize called.conclude transaction outcome = concluded
  obtain ⟨ended, last, after⟩ := concluded
  intro hconcludes hfailsRead hfailsWrite
  have hsucceeds (hafter : after.substrate.store.WellFormed) : before.Succeeds after :=
    ⟨hafter, hfailsRead.trans honly.failsRead, hfailsWrite.trans honly.failsWrite⟩
  have hunchanged (hstore' : after.substrate.store = called.substrate.store) :
      after.live = before.live ∧ after.version = before.version ∧ before.Succeeds after := by
    have hafter := hstore'.trans hsame
    exact ⟨by rw [live, hafter, live], by rw [version, hafter, version],
      hsucceeds (hafter ▸ hstore)⟩
  have hperform (hunrefused : Unrefused calls) :
      script.perform before.live = ⟨outcome, effectOf calls before.live, calls⟩ :=
    Script.perform_eq_of_leads hcourse.leads hcourse.truthful hunrefused
  cases hconcludes with
  | @failed failure after hstore' =>
    obtain ⟨hlive, hversion, hafter⟩ := hunchanged hstore'
    refine ⟨?_, hafter⟩
    rcases (hplain.calls hcourse.leads).2 with hunrefused | ⟨other, hrefused, hfailure⟩
    · exact .failed (by rw [hperform hunrefused]) hlive hversion
    · obtain ⟨⟨cause, hcause⟩, serial, hfails⟩ := hcourse.refused other hrefused
      obtain rfl : failure = .storeUnavailable cause := hcause ▸ Except.error.inj hfailure
      exact .outage hlive hversion (Or.inl ⟨serial, Or.inl hfails⟩)
  | @readOnly result after hreadOnly hcollected =>
    have hdone := hperform (hplain.unrefused hcourse.leads)
    rw [hsame] at hcollected
    have hversion : after.version = before.version := hcollected.version
    refine ⟨.done (by rw [hdone]) ?_ (Or.inl hversion), hsucceeds (hcollected.wellFormed hstore)⟩
    rw [hdone, htracks.effectOf_eq hreadOnly, live, Store.live, hcollected.version]
    exact hcollected.liveAt (hhorizon _)
  | @committed result after written hreadOnly hvalid happly hcollected =>
    have hdone := hperform (hplain.unrefused hcourse.leads)
    rw [hsame] at happly
    obtain ⟨hwritten, hversion, heffect⟩ := htracks.applied hstore happly
    refine ⟨.done (by rw [hdone]) ?_ (Or.inr ⟨hcollected.version.trans hversion, ?_⟩),
      hsucceeds (hcollected.wellFormed hwritten)⟩
    · rw [hdone, live, live, ← heffect, Store.live, Store.live, hcollected.version]
      exact hcollected.liveAt (Nat.le_trans (hhorizon _) (hversion ▸ Nat.le_succ _))
    · simpa only [hdone] using htracks.exists_changed hreadOnly
  | conflicts hstore' hchanged =>
    obtain ⟨key, version, hread, hnewest⟩ := hchanged
    rw [hsame] at hnewest
    exact absurd (hpresent key version hread) hnewest
  | outage hstore' hfails =>
    obtain ⟨hlive, hversion, hafter⟩ := hunchanged hstore'
    refine ⟨.outage hlive hversion ?_, hafter⟩
    rw [honly.failsRead, honly.failsWrite, hsame] at hfails
    exact hfails.imp_right System.size_le_of_nextVersion_le

/-- An attempt that nobody disturbs. -/
theorem performs_attempt {before : Database} (hstore : before.substrate.store.WellFormed)
    (hplain : script.Plain mayScan mayChange) :
    before.Performs script (before.attempt script.toAttempt ()).1
        (before.attempt script.toAttempt ()).2.1 ∧
      before.Succeeds (before.attempt script.toAttempt ()).2.1 := by
  have htracks := Transaction.Tracks.begin before.coordinator.nextId before.version
  obtain ⟨calls, hran⟩ := script.runsAlone hstore htracks fun key version hread ↦ by cases hread
  let ran := script.run (.onSnapshot before.coordinator.nextId before.version) before.substrate
  let called : Database := { before.begin.2 with substrate := ran.2.2 }
  let concluded := called.conclude ran.2.1 ran.1
  have hattempt : before.attempt script.toAttempt () =
      (concluded.1, concluded.2.2.release concluded.2.1, ()) := rfl
  have hread : called.coordinator.active.contains before.version = true := by
    change (before.coordinator.active.insert before.version _).contains before.version = true
    rw [SortedMap.contains_insert, Nat.compare_eq_eq.mpr rfl]
    rfl
  obtain ⟨hperforms, hsucceeds⟩ :=
    @performs_conclude _ _ _ _ before called _ _ hstore hplain hran rfl hread
  have hrelease := substrate_release concluded.2.2 concluded.2.1
  rw [hattempt]
  exact ⟨hperforms.congr hrelease, ⟨by rw [hrelease]; exact hsucceeds.wellFormed,
    by rw [hrelease]; exact hsucceeds.failsRead, by rw [hrelease]; exact hsucceeds.failsWrite⟩⟩

/-- An attempt that ends without a conflict is the only one. -/
theorem retrying_eq_attempt {σ : Type} {body : Attempt σ α} {database : Database} {environment : σ}
    (hsettled : ∀ failure, (database.attempt body environment).1 = .error failure →
      failure.isConflict = false) (maxRetries : Nat) :
    database.retrying body maxRetries environment = database.attempt body environment := by
  unfold retrying
  revert hsettled
  generalize database.attempt body environment = attempted
  obtain ⟨outcome, after, left⟩ := attempted
  intro hsettled
  cases outcome with
  | ok result => rfl
  | error failure =>
    cases maxRetries with
    | zero => rfl
    | succ more =>
      dsimp only
      rw [hsettled failure rfl, if_neg Bool.false_ne_true]

/-- An operation that nobody disturbs, and that does not itself report a conflict, is attempted
once, whatever the policy says. -/
theorem performs_transactRetrying {before : Database} (hstore : before.substrate.store.WellFormed)
    (hplain : script.Plain mayScan mayChange)
    (hsettled : ∀ failure, (script.perform before.live).outcome = .error failure →
      failure.isConflict = false) (policy : RetryPolicy) :
    before.Performs script (before.transactRetrying policy script).1
        (before.transactRetrying policy script).2 ∧
      before.Succeeds (before.transactRetrying policy script).2 := by
  obtain ⟨hperforms, hsucceeds⟩ := performs_attempt hstore hplain
  have honce := @retrying_eq_attempt α Unit script.toAttempt before () (fun failure hfailure ↦ by
    rw [hfailure] at hperforms
    cases hperforms with
    | failed hreported => exact hsettled failure hreported
    | outage => rfl) policy.maxRetries
  unfold transactRetrying
  rw [honce]
  exact ⟨hperforms, hsucceeds⟩

end Database

end RunLedger
