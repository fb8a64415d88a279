import RunLedger.Proofs.Database.Retries

/-!
# What retries leave alone

An operation whose transactions change few keys leaves all other keys to others, however often it is
tried and however it ends (`confinedTo_retryingAmid`): what a reader of the present state finds
there, others have put there. This needs a database in order (`Database.InOrder`), for else a
collection could take what is live; retries keep it so if others do (`inOrder_retryingAmid`).

Others act before each access of a script and behind its last one in `Script.amid`. What they do is
not up to the script, but what it changes is (`Script.Plain.changesOnly_amid`).
-/

set_option autoImplicit false

namespace RunLedger

open Relation (ReflTransGen)

variable {σ α : Type}

/-- The transaction has buffered changes of no keys but those that it may change. -/
def Transaction.ChangesOnly (mayChange : Key → Prop) (transaction : Transaction) : Prop :=
  ∀ key, ¬ mayChange key →
    transaction.writes.contains key = false ∧ transaction.deletes.contains key = false

namespace Transaction.ChangesOnly

variable {mayChange : Key → Prop} {transaction : Transaction}

theorem onSnapshot (id version : Nat) : (Transaction.onSnapshot id version).ChangesOnly mayChange :=
  fun _ _ ↦ ⟨rfl, rfl⟩

theorem get (honly : transaction.ChangesOnly mayChange) (substrate : Substrate) (key : Key) :
    (transaction.get substrate key).2.1.ChangesOnly mayChange := by
  obtain ⟨reads, hget⟩ := transaction.exists_reads_get substrate key
  rw [hget]
  exact honly

theorem scan (honly : transaction.ChangesOnly mayChange) (substrate : Substrate)
    (inside : Key → Bool)
    (rows : Nat → Except Outage (List (Key × VersionedValue)) × Substrate) :
    (transaction.scan substrate inside rows).2.1.ChangesOnly mayChange := by
  obtain ⟨reads, hscan⟩ := transaction.exists_reads_scan substrate inside rows
  rw [hscan]
  exact honly

theorem put (honly : transaction.ChangesOnly mayChange) {key : Key} (hkey : mayChange key)
    (value : Value) : (transaction.put key value).2.ChangesOnly mayChange := by
  unfold Transaction.put
  split
  · exact honly
  · intro other hother
    obtain ⟨hwritten, hdeleted⟩ := honly other hother
    have hne : other ≠ key := fun hsame ↦ hother (hsame ▸ hkey)
    simp [SortedMap.contains_insert, SortedMap.contains_erase, hne, hwritten, hdeleted]

theorem delete (honly : transaction.ChangesOnly mayChange) {key : Key} (hkey : mayChange key) :
    (transaction.delete key).2.ChangesOnly mayChange := by
  unfold Transaction.delete
  split
  · exact honly
  · intro other hother
    obtain ⟨hwritten, hdeleted⟩ := honly other hother
    have hne : other ≠ key := fun hsame ↦ hother (hsame ▸ hkey)
    simp [SortedMap.contains_insert, SortedMap.contains_erase, hne, hwritten, hdeleted]

end Transaction.ChangesOnly

namespace Database

/-! ### Databases in order -/

/-- What a reader of the present state finds under a key. -/
def newest? (database : Database) (key : Key) : Option VersionedValue :=
  database.substrate.store.get? key database.substrate.store.version

/-- The chains of the store are in order, and nothing above its version is read. -/
structure InOrder (database : Database) : Prop where
  wellFormed : database.substrate.store.WellFormed
  readers : ∀ version, database.coordinator.active.contains version = true →
    version ≤ database.substrate.store.version

variable {before after : Database}

theorem inOrder_ephemeral : Database.ephemeral.InOrder :=
  ⟨Store.wellFormed_empty, fun _ hread ↦ nomatch hread⟩

theorem InOrder.of_store (hbefore : before.InOrder)
    (hstore : after.substrate.store = before.substrate.store)
    (hreaders : ∀ version, after.coordinator.active.contains version = true →
      before.coordinator.active.contains version = true) : after.InOrder := by
  obtain ⟨hwellFormed, hbounded⟩ := hbefore
  refine ⟨hstore ▸ hwellFormed, fun version hread ↦ ?_⟩
  rw [hstore]
  exact hbounded version (hreaders version hread)

theorem InOrder.begin (hbefore : before.InOrder) : before.begin.2.InOrder := by
  refine ⟨hbefore.wellFormed, fun version hread ↦ ?_⟩
  have hcases : version = before.substrate.store.version ∨
      before.coordinator.active.contains version = true := by
    simpa [Database.begin, Coordinator.begin, SortedMap.contains_insert] using hread
  rcases hcases with rfl | hold
  · exact Nat.le_refl _
  · exact hbefore.readers version hold

theorem InOrder.release (hbefore : before.InOrder) (transaction : Transaction) :
    (before.release transaction).InOrder := by
  refine hbefore.of_store (by rw [substrate_release]) fun version hread ↦ ?_
  unfold Database.release at hread
  cases hsnapshot : transaction.snapshot? with
  | none => rwa [hsnapshot] at hread
  | some released =>
    rw [hsnapshot] at hread
    dsimp only [Coordinator.release] at hread
    cases hreaders : before.coordinator.active.get? released with
    | none => rwa [hreaders] at hread
    | some readers =>
      rw [hreaders] at hread
      dsimp only at hread
      split at hread
      · rw [SortedMap.contains_erase] at hread
        exact (Bool.and_eq_true_iff.mp hread).2
      · rw [SortedMap.contains_insert] at hread
        rcases Bool.or_eq_true_iff.mp hread with hsame | hold
        · obtain rfl := Nat.compare_eq_eq.mp (of_decide_eq_true hsame)
          rw [SortedMap.contains_eq, hreaders]
          rfl
        · exact hold

/-- Every database that an interleaving reaches is in order. -/
theorem InOrder.of_sound {ω : Type} {program : ω → Script α} {failsRead failsWrite : Nat → Bool}
    {system : System ω α} (hsound : system.Sound program failsRead failsWrite) :
    system.database.InOrder := by
  refine ⟨hsound.wellFormed, fun version hread ↦ ?_⟩
  have hreaders : 0 < readersOf system.sessions version := hsound.readers.pos_of_contains hread
  obtain ⟨session, hmem, hreader⟩ := List.countP_pos_iff.mp hreaders
  obtain ⟨hstage, rfl⟩ : session.stage ≠ .dropped ∧ session.snapshot = version := by
    simpa [Session.isReaderOf] using hreader
  rw [hsound.version]
  exact (hsound.sessions session hmem hstage).bounded

/-- The end of a transaction leaves those that are still read. -/
theorem active_conclude (database : Database) (transaction : Transaction)
    (outcome : Except Failure α) :
    (database.conclude transaction outcome).2.2.coordinator.active = database.coordinator.active := by
  cases outcome with
  | error failure => rfl
  | ok result =>
    unfold conclude commit
    generalize transaction.commitOrAbort database.substrate = ended
    obtain ⟨answer, concluded, substrate⟩ := ended
    cases answer <;> rfl

theorem Writes.wellFormed {transaction : Transaction} {store written : Store}
    (hwrites : Writes transaction store written) (hstore : store.WellFormed)
    (hseparate : transaction.Separate) : written.WellFormed := by
  cases hwrites with
  | nothing => exact hstore
  | buffers _ happly => exact hstore.apply happly (Transaction.nodup_buffers hseparate)

theorem Writes.version_le {transaction : Transaction} {store written : Store}
    (hwrites : Writes transaction store written) : store.version ≤ written.version := by
  cases hwrites with
  | nothing => exact Nat.le_refl _
  | buffers _ happly =>
    rw [Store.version_apply happly]
    exact Nat.le_of_lt (Store.apply_eq_ok happly).1

/-- A commit leaves what is found under keys that it does not change. -/
theorem Writes.get?_version {mayChange : Key → Prop} {transaction : Transaction}
    {store written : Store} (hwrites : Writes transaction store written) (hstore : store.WellFormed)
    (honly : transaction.ChangesOnly mayChange) {key : Key} (hkey : ¬ mayChange key) :
    written.get? key written.version = store.get? key store.version := by
  cases hwrites with
  | nothing => rfl
  | buffers hbuffers happly =>
    obtain ⟨hwritten, hdeleted⟩ := honly key hkey
    have hlookup : SortedMap.lookup key transaction.writes.toList = none := by
      rwa [SortedMap.contains_eq, Option.isSome_eq_false_iff, Option.isNone_iff_eq_none] at hwritten
    have hkept : key ∉ transaction.deletes.keys := fun hmem ↦ by
      cases ((SortedMap.mem_keys_iff ..).mp hmem).symm.trans hdeleted
    rw [Store.get?_apply happly (SortedMap.nodup_keys transaction.writes), if_neg hkept, hlookup,
      Option.map_none, Option.none_or, ite_self]
    exact Store.get?_of_version_le hstore key (Writes.buffers hbuffers happly).version_le

/-- The end of a transaction leaves a database in order, and what is found under keys that the
transaction has not changed. -/
theorem InOrder.conclude (hbefore : before.InOrder) {transaction : Transaction}
    (hseparate : transaction.Separate) (outcome : Except Failure α) :
    (before.conclude transaction outcome).2.2.InOrder := by
  have hactive := before.active_conclude transaction outcome
  obtain ⟨failure, -, hstore⟩ | ⟨result, written, -, hwrites, hstore⟩ :=
    before.conclude_spec transaction outcome
  · exact hbefore.of_store hstore fun version hread ↦ hactive ▸ hread
  · have hcollected := Store.collected_collect written (before.coordinator.horizon written.version)
    rw [← hstore] at hcollected
    refine ⟨hcollected.wellFormed (hwrites.wellFormed hbefore.wellFormed hseparate),
      fun version hread ↦ ?_⟩
    rw [hactive] at hread
    rw [hcollected.version]
    exact Nat.le_trans (hbefore.readers version hread) hwrites.version_le

theorem InOrder.newest?_conclude (hbefore : before.InOrder) {mayChange : Key → Prop}
    {transaction : Transaction} (honly : transaction.ChangesOnly mayChange)
    (outcome : Except Failure α) {key : Key} (hkey : ¬ mayChange key) :
    (before.conclude transaction outcome).2.2.newest? key = before.newest? key := by
  unfold newest?
  obtain ⟨failure, -, hstore⟩ | ⟨result, written, -, hwrites, hstore⟩ :=
    before.conclude_spec transaction outcome
  · rw [hstore]
  · have hcollected := Store.collected_collect written (before.coordinator.horizon written.version)
    rw [← hstore] at hcollected
    have hhorizon : before.coordinator.horizon written.version ≤ written.version :=
      Coordinator.horizon_le_of_readers fun version hread ↦
        Nat.le_trans (hbefore.readers version hread) hwrites.version_le
    rw [hcollected.version, hcollected.get? key _ hhorizon,
      hwrites.get?_version hbefore.wellFormed honly hkey]

/-! ### Attempts -/

/-- What others do in one environment or another. -/
def Pause.Acts (others : Pause σ) (before after : Database) : Prop :=
  ∃ environment, after = (others before environment).1

theorem Pause.acts (others : Pause σ) (database : Database) (environment : σ) :
    others.Acts database (others database environment).1 := ⟨environment, rfl⟩

theorem Pause.Acts.keeps {others : Pause σ} (hacts : others.Acts before after)
    {kept : Database → Prop}
    (hkept : ∀ database environment, kept database → kept (others database environment).1)
    (hbefore : kept before) : kept after := by
  obtain ⟨environment, rfl⟩ := hacts
  exact hkept before environment hbefore

variable {interferes : Database → Database → Prop} {mayChange : Key → Prop}
  {body : Attempt σ α} {pause : Pause σ} {maxRetries : Nat} {given : σ}

/-- One after the other, others act, or something happens that leaves what is found under keys that
may not change. -/
def ConfinedTo (interferes : Database → Database → Prop) (mayChange : Key → Prop) :
    Database → Database → Prop :=
  ReflTransGen fun before after ↦ interferes before after ∨
    ∀ key, ¬ mayChange key → after.newest? key = before.newest? key

theorem ConfinedTo.newest? (hconfined : ConfinedTo interferes mayChange before after)
    (hothers : ∀ {before after : Database}, interferes before after → after = before) {key : Key}
    (hkey : ¬ mayChange key) : after.newest? key = before.newest? key := by
  induction hconfined with
  | refl => rfl
  | tail _ hlast ih =>
    rcases hlast with hinterferes | hkept
    · rw [hothers hinterferes, ih]
    · rw [hkept key hkey, ih]

theorem confinedTo_of_store (hstore : after.substrate.store = before.substrate.store) :
    ConfinedTo interferes mayChange before after :=
  .single (Or.inr fun key _ ↦ by rw [newest?, hstore, newest?])

theorem Disturbed.keeps {kept : Store → Prop}
    (hkept : ∀ {before after : Database}, interferes before after → kept before.substrate.store →
      kept after.substrate.store)
    {first second : Store} (hdisturbed : Disturbed interferes first second) (hfirst : kept first) :
    kept second := by
  induction hdisturbed with
  | refl => exact hfirst
  | tail _ hlast ih =>
    obtain ⟨one, other, hinterferes, rfl, rfl⟩ := hlast
    exact hkept hinterferes ih

/-- While a transaction is used, nothing changes but what others change. -/
theorem Advances.confinedTo {first second : Transaction × Database}
    (hadvances : ReflTransGen (Advances interferes) first second) :
    ConfinedTo interferes mayChange first.2 second.2 := by
  induction hadvances with
  | refl => exact .refl
  | tail _ hlast ih =>
    refine ih.trans ?_
    cases hlast with
    | own script transaction database =>
      exact confinedTo_of_store (transaction.uses_run script database.substrate).onlyRead.store
    | others transaction hinterferes => exact .single (Or.inl hinterferes)

section

variable (hothers : ∀ {before after : Database}, interferes before after → before.InOrder →
  after.InOrder)

include hothers

/-- While a transaction is used among others that keep the database in order, it stays in order, and
no key comes to be both written and deleted. -/
theorem Advances.inOrder {first second : Transaction × Database}
    (hadvances : ReflTransGen (Advances interferes) first second)
    (hfirst : first.1.Separate ∧ first.2.InOrder) : second.1.Separate ∧ second.2.InOrder := by
  induction hadvances with
  | refl => exact hfirst
  | tail _ hlast ih =>
    obtain ⟨hseparate, horder⟩ := ih
    cases hlast with
    | own script transaction database =>
      have hstore := (transaction.uses_run script database.substrate).onlyRead.store
      exact ⟨hseparate.run script database.substrate, horder.of_store hstore fun _ hread ↦ hread⟩
    | others transaction hinterferes => exact ⟨hseparate, hothers hinterferes horder⟩

variable (hbody : body.Interleaves interferes)
  (hpause : ∀ database environment, interferes database (pause database environment).1)

include hbody hpause

/-- An attempt leaves the database in order, and changes no keys but those that its transaction
changes. -/
theorem InOrder.trial (hbefore : before.InOrder) (given : σ) :
    (before.trial pause body given).after.InOrder ∧
      ∀ mayChange, (before.trial pause body given).used.ChangesOnly mayChange →
        ConfinedTo interferes mayChange before (before.trial pause body given).after := by
  let trial := before.trial pause body given
  have hadvances := hbody trial.begun before.begin.2 given
  obtain ⟨hseparate, hcalled⟩ : trial.used.Separate ∧ trial.called.InOrder :=
    Advances.inOrder hothers hadvances ⟨Transaction.separate_onSnapshot _ _, hbefore.begin⟩
  have hsettled : trial.settled.InOrder := hcalled.conclude hseparate trial.outcome
  let rested := pause trial.settled (body trial.begun before.begin.2 given).2.2.2
  have hrested : interferes trial.settled rested.1 := hpause ..
  refine ⟨(hothers hrested hsettled).release trial.concluded, fun mayChange honly ↦ ?_⟩
  have hbegun : ConfinedTo interferes mayChange before before.begin.2 := confinedTo_of_store rfl
  have hused : ConfinedTo interferes mayChange before.begin.2 trial.called :=
    Advances.confinedTo hadvances
  have hconcluded : ConfinedTo interferes mayChange trial.called trial.settled :=
    .single (Or.inr fun key hkey ↦ hcalled.newest?_conclude honly trial.outcome hkey)
  have hafter : trial.after.substrate = rested.1.substrate :=
    substrate_release rested.1 trial.concluded
  have hreleased : ConfinedTo interferes mayChange rested.1 trial.after :=
    confinedTo_of_store (congrArg Substrate.store hafter)
  exact (((hbegun.trans hused).trans hconcluded).tail (Or.inl hrested)).trans hreleased

/-! ### Retries -/

theorem InOrder.retryingAmid (hbefore : before.InOrder) (maxRetries : Nat) (given : σ) :
    (before.retryingAmid pause body maxRetries given).2.1.InOrder := by
  induction maxRetries generalizing before given with
  | zero => exact (hbefore.trial hothers hbody hpause given).1
  | succ left ih =>
    have hafter := (hbefore.trial hothers hbody hpause given).1
    rw [Database.retryingAmid]
    dsimp only
    split
    · exact ih (hothers (hpause _ _) hafter) _
    · exact hafter

/-- Retries change no keys but those that their transactions may change, if these change no others
on a store that has what others and failed attempts keep. -/
theorem confinedTo_retryingAmid {kept : Store → Prop}
    (hkept : ∀ {before after : Database}, interferes before after → kept before.substrate.store →
      kept after.substrate.store)
    (honly : ∀ (before : Database) (given : σ), kept before.substrate.store →
      (before.trial pause body given).used.ChangesOnly mayChange)
    (hbefore : before.InOrder) (hstore : kept before.substrate.store) (maxRetries : Nat)
    (given : σ) :
    ConfinedTo interferes mayChange before
      (before.retryingAmid pause body maxRetries given).2.1 := by
  induction maxRetries generalizing before given with
  | zero => exact (hbefore.trial hothers hbody hpause given).2 _ (honly before given hstore)
  | succ left ih =>
    obtain ⟨hafter, hconfined⟩ := hbefore.trial hothers hbody hpause given
    have hattempt := hconfined mayChange (honly before given hstore)
    rw [Database.retryingAmid]
    dsimp only
    split
    · rename_i hconflict
      obtain ⟨cause, hfailed⟩ := Trial.isConflict_iff.mp hconflict
      have hdisturbed := (sound_trial hbody hpause before given).disturbed hfailed
      have hleft := hdisturbed.keeps hkept hstore
      have hnext := hpause (before.trial pause body given).after
        (before.trial pause body given).environment
      exact (hattempt.tail (Or.inl hnext)).trans
        (ih (hothers hnext hafter) (hkept hnext hleft) _)
    · exact hattempt

end

end Database

/-! ### Scripts among others -/

namespace Script

/-- A script as an attempt during which others act before each access and behind the last one. -/
def amid (others : Database.Pause σ) : Script α → Attempt σ α
  | finish outcome, transaction, database, environment =>
    let (database, environment) := others database environment
    (outcome, transaction, database, environment)
  | get key next, transaction, database, environment =>
    let (database, environment) := others database environment
    let (answer, transaction, substrate) := transaction.get database.substrate key
    (next answer).amid others transaction { database with substrate } environment
  | scanStem stem next, transaction, database, environment =>
    let (database, environment) := others database environment
    let (answer, transaction, substrate) := transaction.scanStem database.substrate stem
    (next answer).amid others transaction { database with substrate } environment
  | scanRange first last next, transaction, database, environment =>
    let (database, environment) := others database environment
    let (answer, transaction, substrate) := transaction.scanRange database.substrate first last
    (next answer).amid others transaction { database with substrate } environment
  | put key value next, transaction, database, environment =>
    let (database, environment) := others database environment
    let (answer, transaction) := transaction.put key value
    (next answer).amid others transaction database environment
  | delete key next, transaction, database, environment =>
    let (database, environment) := others database environment
    let (answer, transaction) := transaction.delete key
    (next answer).amid others transaction database environment

/-- Where others do nothing, the script is alone with its transaction. -/
theorem amid_idle (script : Script α) :
    (script.amid Database.idle : Attempt σ α) = script.toAttempt := by
  funext transaction database environment
  induction script generalizing transaction database with
  | finish outcome => rfl
  | get key next ih | scanStem stem next ih | scanRange first last next ih
  | put key value next ih | delete key next ih => exact ih _ _ _

variable {interferes : Database → Database → Prop} {others : Database.Pause σ}

/-- The accesses are what the operation itself does, one by one. -/
theorem interleaves_amid
    (hothers : ∀ database environment, interferes database (others database environment).1)
    (script : Script α) : (script.amid others).Interleaves interferes := by
  have haccess {β : Type} (access : Script β) (transaction : Transaction) (database : Database)
      (environment : σ) {last : Transaction × Database}
      (hrest : ReflTransGen (Database.Advances interferes)
        ((access.run transaction (others database environment).1.substrate).2.1,
          { (others database environment).1 with substrate :=
            (access.run transaction (others database environment).1.substrate).2.2 }) last) :
      ReflTransGen (Database.Advances interferes) (transaction, database) last :=
    .head (.others transaction (hothers database environment)) (.head (.own access _ _) hrest)
  intro transaction database environment
  induction script generalizing transaction database environment with
  | finish outcome => exact .single (.others transaction (hothers database environment))
  | get key next ih => exact haccess (read key) _ _ _ (ih _ _ _ _)
  | scanStem stem next ih => exact haccess (readStem stem) _ _ _ (ih _ _ _ _)
  | scanRange first last next ih => exact haccess (readRange first last) _ _ _ (ih _ _ _ _)
  | put key value next ih => exact haccess (write key value) _ _ _ (ih _ _ _ _)
  | delete key next ih => exact haccess (erase key) _ _ _ (ih _ _ _ _)

/-- A plain script changes no keys but those that it may, whatever others do meanwhile. -/
theorem Plain.changesOnly_amid {mayScan : Prop} {mayChange : Key → Prop} {script : Script α}
    (hplain : script.Plain mayScan mayChange) {transaction : Transaction}
    (honly : transaction.ChangesOnly mayChange) (database : Database) (environment : σ) :
    (script.amid others transaction database environment).2.1.ChangesOnly mayChange := by
  -- a failed access is the last one
  have hpassed {β : Type} {next : Except Failure β → Script α}
      (hfailure : ∀ failure, next (.error failure) = .finish (.error failure))
      (answer : Except Failure β) {reached : Transaction} (honly : reached.ChangesOnly mayChange)
      (database : Database) (environment : σ)
      (hnext : ∀ found,
        ((next (.ok found)).amid others reached database environment).2.1.ChangesOnly mayChange) :
      ((next answer).amid others reached database environment).2.1.ChangesOnly mayChange := by
    cases answer with
    | ok found => exact hnext found
    | error failure =>
      rw [hfailure]
      exact honly
  induction hplain generalizing transaction database environment with
  | finish outcome => exact honly
  | @get key _ hfailure _ ih =>
    have hread := honly.get (others database environment).1.substrate key
    exact hpassed hfailure _ hread _ _ fun found ↦ ih found hread _ _
  | @scanStem stem _ _ hfailure _ ih =>
    let substrate := (others database environment).1.substrate
    have hread := honly.scan substrate (·.startsWith stem) (substrate.scanStem stem)
    exact hpassed hfailure _ hread _ _ fun found ↦ ih found hread _ _
  | @scanRange first last _ _ hfailure _ ih =>
    let substrate := (others database environment).1.substrate
    have hread := honly.scan substrate (Key.isBetween first last) (substrate.scanRange first last)
    exact hpassed hfailure _ hread _ _ fun found ↦ ih found hread _ _
  | @put key value _ hchange hfailure _ ih =>
    have hwritten := honly.put hchange value
    exact hpassed hfailure _ hwritten _ _ fun _ ↦ ih hwritten _ _
  | @delete key _ hchange hfailure _ ih =>
    have hdeleted := honly.delete hchange
    exact hpassed hfailure _ hdeleted _ _ fun _ ↦ ih hdeleted _ _

end Script

end RunLedger
