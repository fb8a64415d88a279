import RunLedger.Proofs.Database.Alone
import RunLedger.Proofs.Database.Reclaiming
import RunLedger.Proofs.Store.Versions
import RunLedger.Proofs.Transaction.Footprint

/-!
# When commits meet conflicts

A commit meets a conflict if an entry that its transaction has read has another version by then.
That may come from a commit that has changed the key, but also from a collection that has dropped a
tombstone. Where keys are kept, that is where no transaction deletes them, only the former happens:
each entry is dated by the commit that wrote it (`VersionEntry.Dated`), and a live transaction would
still be told the versions that it was told (`Session.Steady`). So a transaction that looks at kept
keys alone meets no conflict unless a commit behind its snapshot has changed one of them
(`System.Steady.newestVersion_eq`).
-/

set_option autoImplicit false

namespace RunLedger

/-! ### Calls of confined scripts -/

/-- What a transaction that looks at few keys has read and deleted: it may read and delete them, and
the versions it remembers are those that the store tells at its snapshot. -/
structure Transaction.KeepsTo (transaction : Transaction) (mayRead mayDelete : Key → Prop)
    (store : Store) (snapshot : Nat) : Prop where
  reads : ∀ key version, transaction.reads.get? key = some version →
    mayRead key ∧ version = store.keyVersion key snapshot
  deletes : ∀ key, transaction.deletes.contains key = true → mayDelete key

namespace Transaction.KeepsTo

variable {mayRead mayDelete : Key → Prop} {transaction : Transaction} {substrate : Substrate}
  {snapshot : Nat}

theorem onSnapshot (id snapshot : Nat) (store : Store) :
    (Transaction.onSnapshot id snapshot).KeepsTo mayRead mayDelete store snapshot :=
  ⟨fun _ _ hread ↦ (by cases hread), fun _ hdeleted ↦ (by cases hdeleted)⟩

theorem get (hkeeps : transaction.KeepsTo mayRead mayDelete substrate.store snapshot)
    (hreading : transaction.snapshot? = some snapshot) {key : Key} (hread : mayRead key) :
    (transaction.get substrate key).2.1.KeepsTo mayRead mayDelete substrate.store snapshot := by
  have hrecord {version : Nat} (hversion : version = substrate.store.keyVersion key snapshot) :
      (transaction.recordRead key version).KeepsTo mayRead mayDelete substrate.store snapshot :=
    ⟨fun _ _ ↦ holds_of_recordRead hkeeps.reads ⟨hread, hversion⟩, hkeeps.deletes⟩
  unfold Transaction.get
  rw [hreading]
  split
  · exact hkeeps
  split
  · exact hkeeps
  split
  · exact hkeeps
  dsimp only
  split
  · exact hkeeps
  · rename_i found after hfound
    obtain ⟨hfound, -⟩ := Substrate.eq_of_read_ok hfound
    exact hrecord (Store.keyVersion_of_get? hfound.symm).symm
  · rename_i after hfound
    obtain ⟨-, hafter⟩ := Substrate.eq_of_read_ok hfound
    split
    · exact hkeeps
    · rename_i version last hversion
      obtain ⟨rfl, -⟩ := Substrate.eq_of_read_ok hversion
      exact hrecord (by rw [hafter])

theorem put (hkeeps : transaction.KeepsTo mayRead mayDelete substrate.store snapshot) (key : Key)
    (value : Value) :
    (transaction.put key value).2.KeepsTo mayRead mayDelete substrate.store snapshot := by
  unfold Transaction.put
  split
  · exact hkeeps
  · refine ⟨hkeeps.reads, fun other hdeleted ↦ hkeeps.deletes other ?_⟩
    rw [SortedMap.contains_erase] at hdeleted
    exact (Bool.and_eq_true_iff.mp hdeleted).2

theorem delete (hkeeps : transaction.KeepsTo mayRead mayDelete substrate.store snapshot) {key : Key}
    (hdelete : mayDelete key) :
    (transaction.delete key).2.KeepsTo mayRead mayDelete substrate.store snapshot := by
  unfold Transaction.delete
  split
  · exact hkeeps
  · refine ⟨hkeeps.reads, fun other hdeleted ↦ ?_⟩
    rw [SortedMap.contains_insert] at hdeleted
    rcases Bool.or_eq_true_iff.mp hdeleted with hsame | hbefore
    · obtain rfl := Key.compare_eq_iff_eq.mp (of_decide_eq_true hsame)
      exact hdelete
    · exact hkeeps.deletes other hbefore

/-- A call of a confined script keeps to the same keys, and so does what is left of the script. -/
theorem advance {α : Type} (hkeeps : transaction.KeepsTo mayRead mayDelete substrate.store snapshot)
    (hreading : transaction.snapshot? = some snapshot) {script rest : Script α}
    (hscript : script.Confined mayRead mayDelete) {call : Call} {transaction' : Transaction}
    {substrate' : Substrate}
    (hadvance : script.advance transaction substrate =
      some (call, rest, transaction', substrate')) :
    rest.Confined mayRead mayDelete ∧
      transaction'.KeepsTo mayRead mayDelete substrate.store snapshot := by
  cases hscript with
  | finish outcome => cases hadvance
  | get hread hnext =>
    cases hadvance
    exact ⟨hnext _, hkeeps.get hreading hread⟩
  | @put key value _ hnext =>
    simp only [Script.advance, Option.some.injEq, Prod.mk.injEq] at hadvance
    obtain ⟨-, rfl, rfl, -⟩ := hadvance
    exact ⟨hnext _, hkeeps.put key value⟩
  | @delete key _ hdelete hnext =>
    simp only [Script.advance, Option.some.injEq, Prod.mk.injEq] at hadvance
    obtain ⟨-, rfl, rfl, -⟩ := hadvance
    exact ⟨hnext _, hkeeps.delete hdelete⟩

end Transaction.KeepsTo

/-! ### Systems whose keys are kept -/

variable {ω α : Type}

/-- An entry comes from the commit of its version, which changed its key, and does not delete a key
that is kept. -/
structure VersionEntry.Dated (history : List (Commit ω α)) (kept : Key → Prop) (key : Key)
    (entry : VersionEntry) : Prop where
  commit : ∃ place commit, history[place]? = some commit ∧ entry.version = place + 1 ∧
    Changed commit.calls key
  value : kept key → entry.isTombstone = false

theorem VersionEntry.Dated.grow {history : List (Commit ω α)} {kept : Key → Prop} {key : Key}
    {entry : VersionEntry} (hdated : entry.Dated history kept key) (more : List (Commit ω α)) :
    entry.Dated (history ++ more) kept key := by
  obtain ⟨⟨place, commit, hcommit, hversion, hchanged⟩, hvalue⟩ := hdated
  refine ⟨⟨place, commit, ?_, hversion, hchanged⟩, hvalue⟩
  rw [List.getElem?_append_left (List.getElem?_eq_some_iff.mp hcommit).1, hcommit]

section

variable (kind : ω → Prop) (footprint : ω → Key → Prop) (kept : Key → Prop)

/-- A session reads no keys but those its operation may read, and deletes none that is kept. -/
structure Session.Steady (store : Store) (session : Session ω α) : Prop where
  rest : session.rest.Confined (footprint session.operation) fun key ↦ ¬ kept key
  transaction : session.transaction.KeepsTo (footprint session.operation) (fun key ↦ ¬ kept key)
    store session.snapshot

/-- All entries are dated, and the sessions for operations of a kind keep to their keys. -/
structure System.Steady (system : System ω α) : Prop where
  entries : system.database.substrate.store.AllEntries
    (VersionEntry.Dated system.history kept)
  sessions : ∀ session ∈ system.sessions, session.stage = .calling → kind session.operation →
    session.Steady footprint kept system.database.substrate.store

/-- The operations of a kind look at few keys, and delete none that any of them looks at. -/
structure Keeping (program : ω → Script α) : Prop where
  confined : ∀ operation, kind operation →
    (program operation).Confined (footprint operation) fun key ↦ ¬ kept key
  kept : ∀ operation key, footprint operation key → kept key

end

variable {kind : ω → Prop} {footprint : ω → Key → Prop} {kept : Key → Prop}

/-- A store that tells the same of the keys an operation may read does not disturb its session. -/
theorem Session.Steady.congr {store after : Store} {session : Session ω α}
    (hsession : session.Steady footprint kept store)
    (hversions : ∀ key, footprint session.operation key →
      after.keyVersion key session.snapshot = store.keyVersion key session.snapshot) :
    session.Steady footprint kept after where
  rest := hsession.rest
  transaction :=
    { reads := fun key version hread ↦ by
        obtain ⟨hmay, rfl⟩ := hsession.transaction.reads key version hread
        exact ⟨hmay, (hversions key hmay).symm⟩
      deletes := hsession.transaction.deletes }

/-- How a conclusion leaves the store: as it is, or as a commit writes it and a collection leaves
it. -/
theorem Database.conclude_spec (database : Database) (transaction : Transaction)
    (outcome : Except Failure α) :
    (∃ failure, (database.conclude transaction outcome).1 = .error failure ∧
      (database.conclude transaction outcome).2.2.substrate.store = database.substrate.store) ∨
    ∃ result written, (database.conclude transaction outcome).1 = .ok result ∧
      Writes transaction database.substrate.store written ∧
      (database.conclude transaction outcome).2.2.substrate.store =
        (written.collect (database.coordinator.horizon written.version)).2 := by
  cases outcome with
  | error failure => exact Or.inl ⟨failure, rfl, rfl⟩
  | ok result =>
    have hcommit := database.commit_spec transaction
    unfold conclude
    revert hcommit
    generalize database.commit transaction = committed
    obtain ⟨answer, concluded, after⟩ := committed
    rintro (⟨failure, rfl, hstore⟩ | ⟨version, written, rfl, hwrites, hstore⟩)
    · exact Or.inl ⟨failure, rfl, hstore⟩
    · exact Or.inr ⟨result, written, rfl, hwrites, hstore⟩

namespace System

variable {program : ω → Script α} {failsRead failsWrite : Nat → Bool} {system : System ω α}

theorem steady_initial (config : Config) :
    (initial failsRead failsWrite config : System ω α).Steady kind footprint kept :=
  ⟨Store.allEntries_empty, fun session hmem ↦ by cases hmem⟩

namespace Steady

theorem begin (hsteady : system.Steady kind footprint kept)
    (hkeeping : Keeping kind footprint kept program) (operation : ω) :
    (system.begin program operation).Steady kind footprint kept := by
  refine ⟨hsteady.entries, fun session hmem hstage hkind ↦ ?_⟩
  rcases List.mem_append.mp hmem with hold | hnew
  · exact hsteady.sessions session hold hstage hkind
  · obtain rfl := List.mem_singleton.mp hnew
    exact ⟨hkeeping.confined operation hkind, .onSnapshot ..⟩

theorem call (hsteady : system.Steady kind footprint kept)
    (hsound : system.Sound program failsRead failsWrite) {place : Nat} {session : Session ω α}
    (hsession : system.sessions[place]? = some session) (hstage : session.stage = .calling) :
    (system.call place session).Steady kind footprint kept := by
  have hmem := List.mem_of_getElem? hsession
  have hbefore := hsound.sessions session hmem (by rw [hstage]; decide)
  unfold System.call
  cases hadvance : session.rest.advance session.transaction system.database.substrate with
  | none => exact hsteady
  | some advanced =>
    obtain ⟨call, rest, transaction, substrate⟩ := advanced
    have hstore := (Script.advance_spec (hbefore.tracks hstage) hadvance).onlyRead.store
    dsimp only
    refine ⟨by rw [hstore]; exact hsteady.entries, fun other hother hcalling hkind ↦ ?_⟩
    rw [hstore]
    rcases List.mem_or_eq_of_mem_set hother with hold | rfl
    · exact hsteady.sessions other hold hcalling hkind
    · have hsession := hsteady.sessions session hmem hstage hkind
      obtain ⟨hrest, hkeeps⟩ :=
        hsession.transaction.advance hbefore.reading hsession.rest hadvance
      exact ⟨hrest, hkeeps⟩

/-- What has to be shown of a conclusion: the entries behind it are dated, and the other sessions
are told what they were told. -/
theorem concluded (hsteady : system.Steady kind footprint kept) {place : Nat}
    {after : Session ω α} (hstage : after.stage ≠ .calling) {database : Database}
    {more : List (Commit ω α)} {endings : List (Ending ω α)}
    (hentries : database.substrate.store.AllEntries
      (VersionEntry.Dated (system.history ++ more) kept))
    (hversions : ∀ other ∈ system.sessions, other.stage = .calling →
      ∀ key, footprint other.operation key →
        database.substrate.store.keyVersion key other.snapshot =
          system.database.substrate.store.keyVersion key other.snapshot) :
    Steady kind footprint kept
      { database
        sessions := system.sessions.set place after
        history := system.history ++ more
        endings } := by
  refine ⟨hentries, fun other hother hcalling hkind ↦ ?_⟩
  rcases List.mem_or_eq_of_mem_set hother with hold | rfl
  · exact (hsteady.sessions other hold hcalling hkind).congr (hversions other hold hcalling)
  · exact absurd hcalling hstage

/-- What a commit writes is dated, and what was there is told to its readers as before. -/
theorem written (hsteady : system.Steady kind footprint kept)
    (hsound : system.Sound program failsRead failsWrite) {session : Session ω α}
    (hmem : session ∈ system.sessions) (hstage : session.stage = .calling) {result : α}
    (hkind : ∀ commit ∈ session.commit? (.ok result), kind commit.operation) {written : Store}
    (hwrites : Database.Writes session.transaction system.database.substrate.store written) :
    written.AllEntries (VersionEntry.Dated
        (system.history ++ (session.commit? (.ok result)).toList) kept) ∧
      ∀ key reader, reader ≤ system.database.substrate.store.version →
        written.keyVersion key reader =
          system.database.substrate.store.keyVersion key reader := by
  have hgrown := hsteady.entries.mono fun _ _ hdated ↦
    hdated.grow (session.commit? (.ok result)).toList
  cases hwrites with
  | nothing hreadOnly => exact ⟨hgrown, fun key reader _ ↦ rfl⟩
  | buffers hreadOnly happly =>
    have hnext := (Store.apply_eq_ok happly).1
    have htracks := (hsound.sessions session hmem (by rw [hstage]; decide)).tracks hstage
    have hcommit : session.commit? (.ok result) =
        some ⟨session.operation, session.snapshot, session.calls, result⟩ := by
      simp [Session.commit?, hreadOnly]
    rw [hcommit] at hgrown hkind ⊢
    have hdated (key : Key) (hchanged : Changed session.calls key) (value? : Option Value)
        (hvalue : kept key → value?.isNone = false) :
        VersionEntry.Dated (system.history ++
            [⟨session.operation, session.snapshot, session.calls, result⟩]) kept key
          ⟨nextVersion system.database.substrate.store.version, value?⟩ := by
      refine ⟨⟨system.history.length, _, List.getElem?_concat_length, ?_, hchanged⟩, hvalue⟩
      rw [nextVersion_eq hnext, hsound.version]
    refine ⟨hgrown.apply happly (fun entry hentry ↦ ?_) fun key hkey ↦ ?_,
      fun key reader hreader ↦
        Store.keyVersion_apply_of_lt happly (Nat.lt_of_le_of_lt hreader hnext) key⟩
    · refine hdated entry.1 ((htracks.changed entry.1).mp (Or.inl ?_)) _ fun _ ↦ rfl
      rw [SortedMap.contains_eq, (SortedMap.mem_toList_iff ..).mp hentry]
      rfl
    · have hdeleted := (SortedMap.mem_keys_iff ..).mp hkey
      have hsession := hsteady.sessions session hmem hstage (hkind _ rfl)
      refine hdated key ((htracks.changed key).mp (Or.inr hdeleted)) none fun hkeep ↦ ?_
      exact absurd hkeep (hsession.transaction.deletes key hdeleted)

/-- A collection leaves live sessions the versions of the keys they may read. -/
theorem keyVersion_collect (hsound : system.Sound program failsRead failsWrite)
    (hkeeping : Keeping kind footprint kept program) {written : Store}
    {history : List (Commit ω α)}
    (hentries : written.AllEntries (VersionEntry.Dated history kept)) {session : Session ω α}
    (hmem : session ∈ system.sessions) (hstage : session.stage = .calling) (current : Nat)
    {key : Key} (hread : footprint session.operation key) :
    (written.collect (system.database.coordinator.horizon current)).2.keyVersion key
        session.snapshot = written.keyVersion key session.snapshot :=
  Store.keyVersion_collect (hentries.mono fun _ _ hdated ↦ hdated.value)
    (hsound.readers.horizon_le (readersOf_pos hmem (by rw [hstage]; decide)) current)
    (hkeeping.kept _ key hread)

theorem conclude (hsteady : system.Steady kind footprint kept)
    (hsound : system.Sound program failsRead failsWrite)
    (hkeeping : Keeping kind footprint kept program) {place : Nat} {session : Session ω α}
    (hsession : system.sessions[place]? = some session) (hstage : session.stage = .calling)
    (outcome : Except Failure α)
    (hkind : ∀ commit ∈ (system.conclude place session outcome).history, kind commit.operation) :
    (system.conclude place session outcome).Steady kind footprint kept := by
  have hmem := List.mem_of_getElem? hsession
  have hconcludes := system.database.conclude_spec session.transaction outcome
  unfold System.conclude at hkind ⊢
  revert hconcludes hkind
  generalize system.database.conclude session.transaction outcome = concluded
  obtain ⟨ended, transaction, database⟩ := concluded
  dsimp only
  rintro hkind (⟨failure, rfl, hstore⟩ | ⟨result, written, rfl, hwrites, hstore⟩)
  · refine hsteady.concluded (fun hcalling ↦ by cases hcalling) ?_ fun _ _ _ _ _ ↦ by rw [hstore]
    rw [hstore]
    exact hsteady.entries.mono fun _ _ hdated ↦ hdated.grow _
  · obtain ⟨hentries, hversions⟩ := hsteady.written hsound hmem hstage (fun commit hcommit ↦
      hkind commit (List.mem_append_right _ (Option.mem_toList.mpr hcommit))) hwrites
    refine hsteady.concluded (fun hcalling ↦ by cases hcalling) ?_
      fun other hother hcalling key hread ↦ ?_
    · rw [hstore]
      exact hentries.collect _
    · rw [hstore, keyVersion_collect hsound hkeeping hentries hother hcalling _ hread]
      refine hversions key other.snapshot ?_
      rw [hsound.version]
      exact (hsound.sessions other hother (by rw [hcalling]; decide)).bounded

/-- Every step keeps a system steady, as long as only operations of the kind are committed. -/
theorem step (hsteady : system.Steady kind footprint kept)
    (hsound : system.Sound program failsRead failsWrite)
    (hkeeping : Keeping kind footprint kept program) {event : Event ω}
    (hkind : ∀ commit ∈ (system.step program event).history, kind commit.operation) :
    (system.step program event).Steady kind footprint kept := by
  cases event with
  | begin operation => exact hsteady.begin hkeeping operation
  | call place =>
    simp only [System.step]
    split
    · rename_i session hsession
      split
      · rename_i hstage
        exact hsteady.call hsound hsession hstage
      · exact hsteady
    · exact hsteady
  | conclude place =>
    simp only [System.step] at hkind ⊢
    split at hkind
    · rename_i session hsession
      split at hkind
      · rename_i outcome hstage hrest
        exact hsteady.conclude hsound hkeeping hsession hstage outcome hkind
      · exact hsteady
    · exact hsteady
  | drop place =>
    simp only [System.step]
    split
    · rename_i session hsession
      split
      · exact hsteady
      · have hstore : (system.drop place session).database.substrate.store =
            system.database.substrate.store := by
          rw [System.drop, Database.substrate_release]
        refine ⟨by rw [hstore]; exact hsteady.entries, fun other hother hcalling hkind ↦ ?_⟩
        rw [hstore]
        rcases List.mem_or_eq_of_mem_set hother with hold | rfl
        · exact hsteady.sessions other hold hcalling hkind
        · cases hcalling
    · exact hsteady
  | collect =>
    refine ⟨hsteady.entries.collect _, fun session hmem hcalling hkind ↦ ?_⟩
    exact (hsteady.sessions session hmem hcalling hkind).congr fun key hread ↦
      keyVersion_collect hsound hkeeping hsteady.entries hmem hcalling _ hread

/-- Every run keeps a system steady, as long as only operations of the kind are committed. -/
theorem run (hsteady : system.Steady kind footprint kept)
    (hsound : system.Sound program failsRead failsWrite)
    (hkeeping : Keeping kind footprint kept program) {events : List (Event ω)}
    (hkind : ∀ commit ∈ (system.run program events).history, kind commit.operation) :
    (system.run program events).Steady kind footprint kept := by
  induction events generalizing system with
  | nil => exact hsteady
  | cons event rest ih =>
    refine ih (hsteady.step hsound hkeeping fun commit hcommit ↦ hkind commit ?_)
      (hsound.step event) hkind
    obtain ⟨more, hmore⟩ := exists_history_run program (system.step program event) rest
    exact (congrArg (commit ∈ ·) hmore).mpr (List.mem_append_left more hcommit)

/-- If no commit behind the snapshot of a transaction has changed a key that it may read, all that
it has read has the version it was read at. -/
theorem newestVersion_eq (hsteady : system.Steady kind footprint kept)
    (hsound : system.Sound program failsRead failsWrite) {session : Session ω α}
    (hmem : session ∈ system.sessions) (hstage : session.stage = .calling)
    (hkind : kind session.operation)
    (hunchanged : ∀ place commit, session.snapshot ≤ place →
      system.history[place]? = some commit → ∀ key, footprint session.operation key →
        ¬ Changed commit.calls key) {key : Key} {version : Nat}
    (hread : session.transaction.reads.get? key = some version) :
    system.database.substrate.store.newestVersion key = version := by
  have hsession := hsteady.sessions session hmem hstage hkind
  obtain ⟨hmay, rfl⟩ := hsession.transaction.reads key version hread
  have hbounded : session.snapshot ≤ system.database.substrate.store.version := by
    rw [hsound.version]
    exact (hsound.sessions session hmem (by rw [hstage]; decide)).bounded
  refine (hsound.wellFormed.keyVersion_eq_newestVersion hbounded ?_).symm
  rcases system.database.substrate.store.newestVersion_eq_zero_or key with
    hzero | ⟨chain, entry, hchain, hentry, hnewest⟩
  · rw [hzero]
    exact Nat.zero_le _
  · obtain ⟨place, commit, hcommit, hversion, hchanged⟩ :=
      (hsteady.entries key chain hchain entry hentry).commit
    refine Nat.le_of_not_lt fun hbehind ↦ ?_
    exact hunchanged place commit (by omega) hcommit key hmay hchanged

end Steady

end System

end RunLedger
