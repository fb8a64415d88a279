import RunLedger.Proofs.Database.Interleaving
import RunLedger.Proofs.Database.Snapshots

/-!
# What holds in every interleaving

The store of a system always is what the commits so far have made of the empty store, and the
snapshot of each live transaction is what the commits before it had made (`System.Sound`). Each step
keeps this (`Sound.step`), and so does every run (`sound_run`).

A transaction that commits changes has read nothing that has changed since its snapshot, so what it
took still holds right before its commit (`Commit.Sound.held`). This is shown where the commit
happens (`held_of_valid`): the entries it read have the versions they had, so the newest is at or
below the snapshot, and no collection reached the snapshot in between.
-/

set_option autoImplicit false

namespace RunLedger

variable {ω α : Type}

/-! ### Histories -/

/-- Later commits do not change what the earlier ones made. -/
theorem contentsAfter_append {history : List (Commit ω α)} {count : Nat}
    (hcount : count ≤ history.length) (more : List (Commit ω α)) :
    contentsAfter (history ++ more) count = contentsAfter history count := by
  rw [contentsAfter, contentsAfter, List.take_append_of_le_length hcount]

/-- Each commit changes what the ones before it made by its own calls. -/
theorem contentsAfter_succ {history : List (Commit ω α)} {place : Nat} {commit : Commit ω α}
    (hcommit : history[place]? = some commit) :
    contentsAfter history (place + 1) = effectOf commit.calls (contentsAfter history place) := by
  rw [contentsAfter, contentsAfter, List.take_add_one, hcommit, List.foldl_append]
  rfl

/-- Beyond the end of a history nothing changes. -/
theorem contentsAfter_succ_of_none {history : List (Commit ω α)} {place : Nat}
    (hplace : history[place]? = none) :
    contentsAfter history (place + 1) = contentsAfter history place := by
  have hlength := List.getElem?_eq_none_iff.mp hplace
  rw [contentsAfter, contentsAfter, List.take_of_length_le hlength,
    List.take_of_length_le (Nat.le_succ_of_le hlength)]

/-- A script on some contents has made calls with true answers and goes on as another. Calls fail
only for an outage, and only if some read is planned to. -/
structure Script.Course (script : Script α) (contents : Contents) (failsRead : Nat → Bool)
    (calls : List Call) (rest : Script α) : Prop where
  leads : script.Leads calls rest
  truthful : Truthful contents calls
  refused : ∀ failure, Call.refused failure ∈ calls →
    (∃ cause, failure = .storeUnavailable cause) ∧ ∃ serial, failsRead serial = true

/-! ### The invariant -/

section

variable (program : ω → Script α) (failsRead failsWrite : Nat → Bool)

/-- A live session reads what the commits before its snapshot have made, and has made calls of its
program on it. -/
structure Session.Sound (history : List (Commit ω α)) (store : Store) (session : Session ω α) :
    Prop where
  bounded : session.snapshot ≤ history.length
  reading : session.transaction.snapshot? = some session.snapshot
  visible : store.liveAt session.snapshot = contentsAfter history session.snapshot
  tracks : session.stage = .calling →
    session.transaction.Tracks session.snapshot session.calls
  course : session.stage = .calling →
    (program session.operation).Course (contentsAfter history session.snapshot) failsRead
      session.calls session.rest

/-- A commit comes from its program on its snapshot, and what it took still held when it came. -/
structure Commit.Sound (history : List (Commit ω α)) (place : Nat) (commit : Commit ω α) :
    Prop where
  bounded : commit.snapshot ≤ place
  course : (program commit.operation).Course (contentsAfter history commit.snapshot) failsRead
    commit.calls (.finish (.ok commit.result))
  held : ∀ key found?, Took commit.calls key found? →
    (contentsAfter history place).get? key = found?

/-- How the outcome for the caller comes from that of the script. -/
inductive Ending.Follows (history : List (Commit ω α)) (ending : Ending ω α) (calls : List Call) :
    Except Failure α → Prop
  | failed {failure} (houtcome : ending.outcome = .error failure) :
    Ending.Follows history ending calls (.error failure)
  | readOnly {result} (houtcome : ending.outcome = .ok result)
    (hcalls : ∀ contents, effectOf calls contents = contents) :
    Ending.Follows history ending calls (.ok result)
  | committed {result place} (houtcome : ending.outcome = .ok result)
    (hplace : place + 1 = ending.commits)
    (hcommit : history[place]? = some ⟨ending.operation, ending.snapshot, calls, result⟩) :
    Ending.Follows history ending calls (.ok result)
  | conflicts {result count}
    (houtcome : ending.outcome = .error (.writeConflict (.onReads count))) :
    Ending.Follows history ending calls (.ok result)
  | outage {result cause}
    (houtcome : ending.outcome = .error (.storeUnavailable (.duringCommit cause)))
    (hfails : (∃ serial, failsRead serial = true ∨ failsWrite serial = true) ∨
      UInt64.size ≤ ending.commits + 1) :
    Ending.Follows history ending calls (.ok result)

/-- A transaction ended as its program on its snapshot did, if it could be committed. -/
structure Ending.Sound (history : List (Commit ω α)) (ending : Ending ω α) : Prop where
  bounded : ending.snapshot ≤ ending.commits ∧ ending.commits ≤ history.length
  follows : ∃ calls outcome,
    (program ending.operation).Course (contentsAfter history ending.snapshot) failsRead calls
      (.finish outcome) ∧
    ending.Follows failsRead failsWrite history calls outcome

/-- Whether a session reads the snapshot of a version. -/
def Session.isReaderOf (version : Nat) (session : Session ω α) : Bool :=
  decide (session.stage ≠ .dropped) && decide (session.snapshot = version)

/-- The number of sessions that read the snapshot of a version. -/
def readersOf (sessions : List (Session ω α)) (version : Nat) : Nat :=
  sessions.countP (Session.isReaderOf version)

/-- The store is what the commits have made, and all sessions, commits and endings are sound. -/
structure System.Sound (system : System ω α) : Prop where
  planRead : system.database.substrate.failsRead = failsRead
  planWrite : system.database.substrate.failsWrite = failsWrite
  wellFormed : system.database.substrate.store.WellFormed
  version : system.database.substrate.store.version = system.history.length
  live : system.database.substrate.store.live =
    contentsAfter system.history system.history.length
  readers : system.database.coordinator.Counts (readersOf system.sessions)
  sessions : ∀ session ∈ system.sessions, session.stage ≠ .dropped →
    session.Sound program failsRead system.history system.database.substrate.store
  commits : ∀ (place : Nat) (commit : Commit ω α), system.history[place]? = some commit →
    commit.Sound program failsRead system.history place
  endings : ∀ ending ∈ system.endings,
    ending.Sound program failsRead failsWrite system.history

end

section

variable {program : ω → Script α} {failsRead failsWrite : Nat → Bool}
  {history : List (Commit ω α)}

theorem Session.Sound.grow {store after : Store} {session : Session ω α}
    (hsession : session.Sound program failsRead history store)
    (hvisible : after.liveAt session.snapshot = store.liveAt session.snapshot)
    (more : List (Commit ω α)) : session.Sound program failsRead (history ++ more) after where
  bounded := Nat.le_trans hsession.bounded (by simp)
  reading := hsession.reading
  visible := by rw [hvisible, hsession.visible, contentsAfter_append hsession.bounded]
  tracks := hsession.tracks
  course := by
    rw [contentsAfter_append hsession.bounded]
    exact hsession.course

theorem Commit.Sound.grow {place : Nat} {commit : Commit ω α}
    (hcommit : commit.Sound program failsRead history place) (hplace : place ≤ history.length)
    (more : List (Commit ω α)) : commit.Sound program failsRead (history ++ more) place where
  bounded := hcommit.bounded
  course := by
    rw [contentsAfter_append (Nat.le_trans hcommit.bounded hplace)]
    exact hcommit.course
  held := by
    rw [contentsAfter_append hplace]
    exact hcommit.held

theorem Ending.Follows.grow {ending : Ending ω α} {calls : List Call} {outcome : Except Failure α}
    (hfollows : ending.Follows failsRead failsWrite history calls outcome)
    (more : List (Commit ω α)) :
    ending.Follows failsRead failsWrite (history ++ more) calls outcome := by
  cases hfollows with
  | failed houtcome => exact .failed houtcome
  | readOnly houtcome hcalls => exact .readOnly houtcome hcalls
  | committed houtcome hplace hcommit =>
    refine .committed houtcome hplace ?_
    rw [List.getElem?_append_left (List.getElem?_eq_some_iff.mp hcommit).1, hcommit]
  | conflicts houtcome => exact .conflicts houtcome
  | outage houtcome hfails => exact .outage houtcome hfails

theorem Ending.Sound.grow {ending : Ending ω α}
    (hending : ending.Sound program failsRead failsWrite history) (more : List (Commit ω α)) :
    ending.Sound program failsRead failsWrite (history ++ more) where
  bounded := ⟨hending.bounded.1, Nat.le_trans hending.bounded.2 (by simp)⟩
  follows := by
    obtain ⟨calls, outcome, hcourse, hfollows⟩ := hending.follows
    rw [← contentsAfter_append (Nat.le_trans hending.bounded.1 hending.bounded.2) more] at hcourse
    exact ⟨calls, outcome, hcourse, hfollows.grow more⟩

end

/-! ### Readers -/

theorem readersOf_append (sessions : List (Session ω α)) (session : Session ω α) (version : Nat) :
    readersOf (sessions ++ [session]) version =
      readersOf sessions version + if session.isReaderOf version then 1 else 0 := by
  rw [readersOf, List.countP_append, List.countP_singleton, readersOf]

/-- A session that changes otherwise still reads what it read. -/
theorem readersOf_set {sessions : List (Session ω α)} {place : Nat} {session after : Session ω α}
    (hsession : sessions[place]? = some session)
    (hafter : ∀ version, after.isReaderOf version = session.isReaderOf version) :
    readersOf (sessions.set place after) = readersOf sessions := by
  obtain ⟨hplace, rfl⟩ := List.getElem?_eq_some_iff.mp hsession
  funext version
  rw [readersOf, List.countP_set hplace, hafter version, readersOf]
  have hpositive : sessions[place].isReaderOf version = true →
      0 < sessions.countP (Session.isReaderOf version) := fun hreader ↦
    List.countP_pos_iff.mpr ⟨_, List.getElem_mem hplace, hreader⟩
  split
  · rename_i hreader
    have := hpositive hreader
    omega
  · omega

theorem readersOf_pos {sessions : List (Session ω α)} {session : Session ω α}
    (hmem : session ∈ sessions) (hstage : session.stage ≠ .dropped) :
    0 < readersOf sessions session.snapshot :=
  List.countP_pos_iff.mpr ⟨session, hmem, by simp [Session.isReaderOf, hstage]⟩

theorem exists_reader_of_pos {sessions : List (Session ω α)} {version : Nat}
    (hversion : 0 < readersOf sessions version) :
    ∃ session ∈ sessions, session.stage ≠ .dropped ∧ session.snapshot = version := by
  obtain ⟨session, hmem, hreader⟩ := List.countP_pos_iff.mp hversion
  exact ⟨session, hmem, by simpa [Session.isReaderOf] using hreader⟩

/-! ### Steps -/

namespace System

variable {program : ω → Script α} {failsRead failsWrite : Nat → Bool} {system : System ω α}

theorem sound_initial (config : Config) :
    (initial failsRead failsWrite config : System ω α).Sound program failsRead failsWrite where
  planRead := rfl
  planWrite := rfl
  wellFormed := Store.wellFormed_empty
  version := rfl
  live := rfl
  readers := Coordinator.counts_initial
  sessions session hmem := by cases hmem
  commits place commit hcommit := by cases hcommit
  endings ending hmem := by cases hmem

/-- No version above that of the store has readers. -/
theorem Sound.snapshot_le (hsound : system.Sound program failsRead failsWrite) {version : Nat}
    (hversion : 0 < readersOf system.sessions version) :
    version ≤ system.database.substrate.store.version := by
  obtain ⟨session, hmem, hstage, rfl⟩ := exists_reader_of_pos hversion
  rw [hsound.version]
  exact (hsound.sessions session hmem hstage).bounded

/-- A transaction that begins reads what the commits so far have made. -/
theorem Sound.begin (hsound : system.Sound program failsRead failsWrite) (operation : ω) :
    (system.begin program operation).Sound program failsRead failsWrite where
  planRead := hsound.planRead
  planWrite := hsound.planWrite
  wellFormed := hsound.wellFormed
  version := hsound.version
  live := hsound.live
  readers := by
    have hreaders := hsound.readers.begin system.database.substrate.store.version
    refine ⟨fun version ↦ (hreaders.count version).trans ?_, hreaders.positive⟩
    rw [System.begin, readersOf_append]
    by_cases hversion : version = system.database.substrate.store.version
    · simp [Session.isReaderOf, hversion]
    · simp [Session.isReaderOf, hversion, Ne.symm hversion]
  sessions session hmem hstage := by
    rcases List.mem_append.mp hmem with hold | hnew
    · exact hsound.sessions session hold hstage
    · obtain rfl := List.mem_singleton.mp hnew
      have hlive := hsound.live
      rw [Store.live, hsound.version] at hlive
      have hversion := hsound.version
      refine ⟨Nat.le_of_eq hversion, rfl, ?_, fun _ ↦ Transaction.Tracks.begin .., fun _ ↦ ?_⟩
      · dsimp only
        rw [hversion]
        exact hlive
      · exact ⟨.nil _, trivial, fun _ hrefused ↦ by cases hrefused⟩
  commits := hsound.commits
  endings := hsound.endings

/-- A call leaves the store as it is, and its answer is true. -/
theorem Sound.call (hsound : system.Sound program failsRead failsWrite) {place : Nat}
    {session : Session ω α} (hsession : system.sessions[place]? = some session)
    (hstage : session.stage = .calling) :
    (system.call place session).Sound program failsRead failsWrite := by
  have hmem := List.mem_of_getElem? hsession
  have hlive : session.stage ≠ .dropped := by rw [hstage]; decide
  have hbefore := hsound.sessions session hmem hlive
  unfold System.call
  cases hadvance : session.rest.advance session.transaction system.database.substrate with
  | none => exact hsound
  | some advanced =>
    obtain ⟨call, rest, transaction, substrate⟩ := advanced
    have hcall := Script.advance_spec (hbefore.tracks hstage) hadvance
    have hcourse := hbefore.course hstage
    have hstore := hcall.onlyRead.store
    have htrue := hcall.isTrue
    rw [hbefore.visible] at htrue
    have hafter : Session.Sound program failsRead system.history system.database.substrate.store
        { session with transaction, rest, calls := session.calls ++ [call] } := by
      refine ⟨hbefore.bounded, hcall.tracks.reading, hbefore.visible, fun _ ↦ hcall.tracks,
        fun _ ↦ ⟨hcourse.leads.append hcall.leads, ?_, fun failure hrefused ↦ ?_⟩⟩
      · exact truthful_append.mpr ⟨hcourse.truthful, htrue, trivial⟩
      · rcases List.mem_append.mp hrefused with hearlier | hlast
        · exact hcourse.refused failure hearlier
        · rw [← hsound.planRead]
          exact hcall.refused failure (List.mem_singleton.mp hlast).symm
    have hreaders : readersOf (system.sessions.set place
        { session with transaction, rest, calls := session.calls ++ [call] }) =
        readersOf system.sessions := readersOf_set hsession fun _ ↦ rfl
    dsimp only
    exact
      { planRead := hcall.onlyRead.failsRead.trans hsound.planRead
        planWrite := hcall.onlyRead.failsWrite.trans hsound.planWrite
        wellFormed := by rw [hstore]; exact hsound.wellFormed
        version := by rw [hstore]; exact hsound.version
        live := by rw [hstore]; exact hsound.live
        readers := by rw [hreaders]; exact hsound.readers
        sessions := by
          intro other hother hstage'
          rw [hstore]
          rcases List.mem_or_eq_of_mem_set hother with hold | rfl
          · exact hsound.sessions other hold hstage'
          · exact hafter
        commits := hsound.commits
        endings := hsound.endings }

/-- A collection is seen by no live session. -/
theorem Sound.collected (hsound : system.Sound program failsRead failsWrite) {after : Store}
    (hcollected : Store.Collected system.database.horizon system.database.substrate.store after) :
    after.WellFormed ∧ after.version = system.history.length ∧
      after.live = contentsAfter system.history system.history.length ∧
      ∀ version, 0 < readersOf system.sessions version →
        after.liveAt version = system.database.substrate.store.liveAt version := by
  refine ⟨hcollected.wellFormed hsound.wellFormed, hcollected.version.trans hsound.version, ?_,
    fun version hversion ↦ hcollected.liveAt (hsound.readers.horizon_le hversion _)⟩
  rw [← hsound.live, Store.live, hcollected.version]
  exact hcollected.liveAt
    (hsound.readers.horizon_le_current fun version hversion ↦ hsound.snapshot_le hversion)

/-- A collection keeps all that is known. -/
theorem Sound.collect (hsound : system.Sound program failsRead failsWrite) :
    Sound program failsRead failsWrite
      { system with database := system.database.collect.2 } := by
  obtain ⟨hwellFormed, hversion, hlive, hvisible⟩ :=
    hsound.collected (Database.collect_collected system.database)
  exact
    { planRead := hsound.planRead
      planWrite := hsound.planWrite
      wellFormed := hwellFormed
      version := hversion
      live := hlive
      readers := hsound.readers
      sessions := fun session hmem hstage ↦ by
        have hgrown := (hsound.sessions session hmem hstage).grow
          (hvisible session.snapshot (readersOf_pos hmem hstage)) []
        rwa [List.append_nil] at hgrown
      commits := hsound.commits
      endings := hsound.endings }

/-- A session that is dropped is a reader no more. -/
theorem Sound.drop (hsound : system.Sound program failsRead failsWrite) {place : Nat}
    {session : Session ω α} (hsession : system.sessions[place]? = some session)
    (hstage : session.stage ≠ .dropped) :
    (system.drop place session).Sound program failsRead failsWrite := by
  obtain ⟨hplace, hget⟩ := List.getElem?_eq_some_iff.mp hsession
  have hmem := List.mem_of_getElem? hsession
  have hreading := (hsound.sessions session hmem hstage).reading
  have hdatabase : system.database.release session.transaction =
      { system.database with
        coordinator := system.database.coordinator.release session.snapshot } := by
    rw [Database.release, hreading]
  unfold System.drop
  rw [hdatabase]
  exact
    { planRead := hsound.planRead
      planWrite := hsound.planWrite
      wellFormed := hsound.wellFormed
      version := hsound.version
      live := hsound.live
      readers := by
        have hreaders := hsound.readers.release (readersOf_pos hmem hstage)
        refine ⟨fun version ↦ (hreaders.count version).trans ?_, hreaders.positive⟩
        dsimp only
        rw [readersOf, readersOf, List.countP_set hplace, hget]
        by_cases hversion : version = session.snapshot
        · simp [Session.isReaderOf, hversion, hstage]
        · simp [Session.isReaderOf, hversion, Ne.symm hversion]
      sessions := fun other hother hstage' ↦ by
        rcases List.mem_or_eq_of_mem_set hother with hold | rfl
        · exact hsound.sessions other hold hstage'
        · exact absurd rfl hstage'
      commits := hsound.commits
      endings := hsound.endings }

/-! ### Conclusions -/

/-- A session as its conclusion leaves it. -/
theorem readersOf_set_concluded {sessions : List (Session ω α)} {place : Nat}
    {session : Session ω α} (hsession : sessions[place]? = some session)
    (hstage : session.stage = .calling) (transaction : Transaction) :
    readersOf (sessions.set place { session with transaction, stage := .concluded }) =
      readersOf sessions :=
  readersOf_set hsession fun version ↦ by simp [Session.isReaderOf, hstage]

/-- What has to be shown of a conclusion: the store behind it is what the commits have made, live
sessions see what they saw, and its commit and its ending are sound. -/
theorem Sound.concluded (hsound : system.Sound program failsRead failsWrite) {place : Nat}
    {session : Session ω α} (hsession : system.sessions[place]? = some session)
    (hstage : session.stage = .calling) {database : Database} {transaction : Transaction}
    (hsame : system.database.SameReaders database)
    (hreading : transaction.snapshot? = session.transaction.snapshot?)
    {more : List (Commit ω α)} {ending : Ending ω α}
    (hwellFormed : database.substrate.store.WellFormed)
    (hversion : database.substrate.store.version = (system.history ++ more).length)
    (hlive : database.substrate.store.live =
      contentsAfter (system.history ++ more) (system.history ++ more).length)
    (hvisible : ∀ version, 0 < readersOf system.sessions version →
      database.substrate.store.liveAt version = system.database.substrate.store.liveAt version)
    (hmore : ∀ (count : Nat) (commit : Commit ω α), more[count]? = some commit →
      commit.Sound program failsRead (system.history ++ more) (system.history.length + count))
    (hending : ending.Sound program failsRead failsWrite (system.history ++ more)) :
    Sound program failsRead failsWrite
      { database
        sessions := system.sessions.set place { session with transaction, stage := .concluded }
        history := system.history ++ more
        endings := system.endings ++ [ending] } where
  planRead := hsame.failsRead.trans hsound.planRead
  planWrite := hsame.failsWrite.trans hsound.planWrite
  wellFormed := hwellFormed
  version := hversion
  live := hlive
  readers := by
    rw [readersOf_set_concluded hsession hstage]
    exact hsound.readers.congr hsame.active
  sessions other hother hlive' := by
    rcases List.mem_or_eq_of_mem_set hother with hold | rfl
    · exact (hsound.sessions other hold hlive').grow
        (hvisible other.snapshot (readersOf_pos hold hlive')) more
    · have hmem := List.mem_of_getElem? hsession
      have hbefore := hsound.sessions session hmem (by rw [hstage]; decide)
      have hafter := hbefore.grow
        (hvisible session.snapshot (readersOf_pos hmem (by rw [hstage]; decide))) more
      exact ⟨hafter.bounded, hreading.trans hafter.reading, hafter.visible,
        fun hcalling ↦ (by cases hcalling), fun hcalling ↦ by cases hcalling⟩
  commits count commit hcommit := by
    rcases Nat.lt_or_ge count system.history.length with hold | hnew
    · rw [List.getElem?_append_left hold] at hcommit
      exact (hsound.commits count commit hcommit).grow (Nat.le_of_lt hold) more
    · rw [List.getElem?_append_right hnew] at hcommit
      have hplace : system.history.length + (count - system.history.length) = count := by omega
      rw [← hplace]
      exact hmore _ commit hcommit
  endings other hother := by
    rcases List.mem_append.mp hother with hold | hnew
    · exact (hsound.endings other hold).grow more
    · rw [List.mem_singleton.mp hnew]
      exact hending

/-- What a transaction took is still there if every entry it read has the version it had. -/
theorem Sound.held_of_valid (hsound : system.Sound program failsRead failsWrite)
    {session : Session ω α} (hmem : session ∈ system.sessions) (hstage : session.stage = .calling)
    (hvalid : ∀ key version, session.transaction.reads.get? key = some version →
      system.database.substrate.store.newestVersion key = version) {key : Key}
    (hread : session.transaction.reads.contains key = true) :
    system.database.substrate.store.get? key session.snapshot =
      system.database.substrate.store.get? key system.database.substrate.store.version := by
  have hsession := hsound.sessions session hmem (by rw [hstage]; decide)
  obtain ⟨version, hversion⟩ := Option.isSome_iff_exists.mp hread
  have hnewest := hvalid key version hversion
  refine Store.get?_eq_of_newestVersion hsound.wellFormed ?_ ?_
  · rw [hsound.version]
    exact hsession.bounded
  · rw [hnewest]
    exact (hsession.tracks hstage).reads_le key version hversion

/-- A conclusion that commits no changes. -/
theorem Sound.concluded_unchanged (hsound : system.Sound program failsRead failsWrite)
    {place : Nat} {session : Session ω α} (hsession : system.sessions[place]? = some session)
    (hstage : session.stage = .calling) {database : Database} {transaction : Transaction}
    (hsame : system.database.SameReaders database)
    (hreading : transaction.snapshot? = session.transaction.snapshot?)
    (hcollected : Store.Collected system.database.horizon system.database.substrate.store
      database.substrate.store)
    {script : Except Failure α} (hrest : session.rest = .finish script) {ended : Except Failure α}
    (hfollows : Ending.Follows failsRead failsWrite system.history
      ⟨session.operation, session.snapshot, system.history.length, ended⟩ session.calls script) :
    Sound program failsRead failsWrite
      { database
        sessions := system.sessions.set place { session with transaction, stage := .concluded }
        history := system.history ++ []
        endings := system.endings ++
          [⟨session.operation, session.snapshot, (system.history ++ []).length, ended⟩] } := by
  have hmem := List.mem_of_getElem? hsession
  have hbefore := hsound.sessions session hmem (by rw [hstage]; decide)
  have hcourse := hbefore.course hstage
  rw [hrest] at hcourse
  obtain ⟨hwellFormed, hversion, hlive, hvisible⟩ := hsound.collected hcollected
  refine hsound.concluded hsession hstage hsame hreading hwellFormed ?_ ?_ hvisible
    (fun count commit hcommit ↦ by simp at hcommit) ?_
  · rw [List.append_nil]
    exact hversion
  · rw [List.append_nil]
    exact hlive
  · rw [List.append_nil]
    exact ⟨⟨hbefore.bounded, Nat.le_refl _⟩, session.calls, script, hcourse, hfollows⟩

/-- The versions have run out if the next one is not behind the last. -/
theorem size_le_of_nextVersion_le {version : Nat} (hnext : nextVersion version ≤ version) :
    UInt64.size ≤ version + 1 := by
  rcases Nat.lt_or_ge (version + 1) UInt64.size with hlt | hge
  · rw [nextVersion, Nat.mod_eq_of_lt hlt] at hnext
    omega
  · exact hge

/-- A conclusion that commits changes. -/
theorem Sound.concluded_committed (hsound : system.Sound program failsRead failsWrite)
    {place : Nat} {session : Session ω α} (hsession : system.sessions[place]? = some session)
    (hstage : session.stage = .calling) {database : Database} {transaction : Transaction}
    (hsame : system.database.SameReaders database)
    (hreading : transaction.snapshot? = session.transaction.snapshot?)
    {result : α} (hrest : session.rest = .finish (.ok result))
    (hvalid : ∀ key version, session.transaction.reads.get? key = some version →
      system.database.substrate.store.newestVersion key = version)
    {written : Store}
    (happly : system.database.substrate.store.apply session.transaction.writes.toList
      session.transaction.deletes.keys (nextVersion system.database.substrate.store.version) =
        .ok written)
    (hcollected : Store.Collected (system.database.coordinator.horizon written.version) written
      database.substrate.store) :
    let commit : Commit ω α := ⟨session.operation, session.snapshot, session.calls, result⟩
    Sound program failsRead failsWrite
      { database
        sessions := system.sessions.set place { session with transaction, stage := .concluded }
        history := system.history ++ [commit]
        endings := system.endings ++
          [⟨session.operation, session.snapshot, (system.history ++ [commit]).length,
            .ok result⟩] } := by
  intro commit
  have hmem := List.mem_of_getElem? hsession
  have hbefore := hsound.sessions session hmem (by rw [hstage]; decide)
  have htracks := hbefore.tracks hstage
  have hcourse := hbefore.course hstage
  rw [hrest] at hcourse
  -- the store right behind the commit
  obtain ⟨hwellFormed, hversion, heffect⟩ := htracks.applied hsound.wellFormed happly
  have hlive : written.live = contentsAfter (system.history ++ [commit])
      (system.history.length + 1) := by
    rw [heffect, hsound.live, contentsAfter_succ List.getElem?_concat_length,
      contentsAfter_append (Nat.le_refl _)]
  have hbounded (version : Nat) (hreaders : 0 < readersOf system.sessions version) :
      version ≤ written.version := by
    rw [hversion]
    exact Nat.le_succ_of_le (hsound.snapshot_le hreaders)
  refine hsound.concluded hsession hstage hsame hreading (hcollected.wellFormed hwellFormed)
    ?_ ?_ (fun version hreaders ↦ ?_) (fun count other hother ↦ ?_) ?_
  · rw [hcollected.version, hversion, hsound.version, List.length_append]
    rfl
  · rw [List.length_append, List.length_singleton, ← hlive, Store.live, hcollected.version]
    exact hcollected.liveAt (hsound.readers.horizon_le_current hbounded)
  · rw [hcollected.liveAt (hsound.readers.horizon_le hreaders _)]
    refine Store.liveAt_apply_of_lt happly (SortedMap.nodup_keys _) ?_
    rw [← Store.version_apply happly, hversion]
    exact Nat.lt_succ_of_le (hsound.snapshot_le hreaders)
  · obtain ⟨rfl, rfl⟩ : count = 0 ∧ commit = other := by
      cases count with
      | zero => exact ⟨rfl, Option.some.inj hother⟩
      | succ count => cases hother
    refine Commit.Sound.grow ⟨hbefore.bounded, hcourse, fun key found? htook ↦ ?_⟩
      (Nat.le_refl _) [commit]
    have hsnapshot := hcourse.truthful.get?_of_took htook
    have hheld := hsound.held_of_valid hmem hstage hvalid (htracks.remembered key found? htook)
    rw [← hbefore.visible, Store.get?_liveAt, hheld, ← Store.get?_liveAt] at hsnapshot
    rw [← hsound.live]
    exact hsnapshot
  · refine ⟨⟨Nat.le_trans hbefore.bounded (by simp), Nat.le_refl _⟩, session.calls, .ok result,
      ?_, .committed rfl ?_ List.getElem?_concat_length⟩
    · rw [contentsAfter_append hbefore.bounded]
      exact hcourse
    · rw [List.length_append]
      rfl

/-- A conclusion keeps all that is known. -/
theorem Sound.conclude (hsound : system.Sound program failsRead failsWrite) {place : Nat}
    {session : Session ω α} (hsession : system.sessions[place]? = some session)
    (hstage : session.stage = .calling) {outcome : Except Failure α}
    (hrest : session.rest = .finish outcome) :
    (system.conclude place session outcome).Sound program failsRead failsWrite := by
  have hmem := List.mem_of_getElem? hsession
  have htracks := (hsound.sessions session hmem (by rw [hstage]; decide)).tracks hstage
  obtain ⟨hconcludes, hsame, hreading⟩ :=
    Database.concludes_conclude htracks.active system.database outcome
  unfold System.conclude
  revert hconcludes hsame hreading
  generalize system.database.conclude session.transaction outcome = concluded
  obtain ⟨ended, transaction, database⟩ := concluded
  intro hconcludes hsame hreading
  have hunchanged (hstore : database.substrate.store = system.database.substrate.store) :
      Store.Collected system.database.horizon system.database.substrate.store
        database.substrate.store := by
    rw [hstore]
    exact .refl ..
  cases hconcludes with
  | failed hstore =>
    exact hsound.concluded_unchanged hsession hstage hsame hreading (hunchanged hstore) hrest
      (.failed rfl)
  | readOnly hreadOnly hcollected =>
    simp only [Session.commit?, hreadOnly, if_true, Option.toList_none]
    exact hsound.concluded_unchanged hsession hstage hsame hreading hcollected hrest
      (.readOnly rfl (htracks.effectOf_eq hreadOnly))
  | committed hreadOnly hvalid happly hcollected =>
    simp only [Session.commit?, hreadOnly]
    exact hsound.concluded_committed hsession hstage hsame hreading hrest hvalid happly hcollected
  | conflicts hstore =>
    exact hsound.concluded_unchanged hsession hstage hsame hreading (hunchanged hstore) hrest
      (.conflicts rfl)
  | outage hstore hfails =>
    refine hsound.concluded_unchanged hsession hstage hsame hreading (hunchanged hstore) hrest
      (.outage rfl ?_)
    rw [← hsound.planRead, ← hsound.planWrite, ← hsound.version]
    exact hfails.imp_right size_le_of_nextVersion_le

/-- Every step keeps what is known. -/
theorem Sound.step (hsound : system.Sound program failsRead failsWrite) (event : Event ω) :
    (system.step program event).Sound program failsRead failsWrite := by
  cases event with
  | begin operation => exact hsound.begin operation
  | call place =>
    simp only [System.step]
    split
    · rename_i session hsession
      split
      · rename_i hstage
        exact hsound.call hsession hstage
      · exact hsound
    · exact hsound
  | conclude place =>
    simp only [System.step]
    split
    · rename_i session hsession
      split
      · rename_i hstage hrest
        exact hsound.conclude hsession hstage hrest
      · exact hsound
    · exact hsound
  | drop place =>
    simp only [System.step]
    split
    · rename_i session hsession
      split
      · exact hsound
      · rename_i hstage
        exact hsound.drop hsession hstage
    · exact hsound
  | collect => exact hsound.collect

/-- Every run from a sound system keeps what is known. -/
theorem Sound.run (hsound : system.Sound program failsRead failsWrite) (events : List (Event ω)) :
    (system.run program events).Sound program failsRead failsWrite := by
  induction events generalizing system with
  | nil => exact hsound
  | cons event rest ih => exact ih (hsound.step event)

/-- All is known in every interleaving on an empty database. -/
theorem sound_run (program : ω → Script α) (failsRead failsWrite : Nat → Bool) (config : Config)
    (events : List (Event ω)) :
    ((initial failsRead failsWrite config).run program events).Sound program failsRead failsWrite :=
  (sound_initial config).run events

end System

end RunLedger
