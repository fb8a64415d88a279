import Mathlib.Data.List.Perm.Subperm
import RunLedger.Proofs.Database.Conflicts
import RunLedger.Proofs.Transaction.Independence

/-!
# Independent transactions in any order

Transactions for pairwise independent operations begin behind an early state of the database and
take their steps in any order, with collections in between. Whatever the order, those that have
committed have made the calls that their operations make by themselves on the early contents
(`System.Proceeds`). So what an operation looks at is at its commit as it was in the early state: it
meets no conflict, its outcome is the one it has by itself, and when all have ended the contents are
what the operations leave one after the other (`System.Sound.independent`).
-/

set_option autoImplicit false

namespace RunLedger

variable {ω α : Type}

/-! ### Sessions that are open -/

/-- The operations that events begin, in their order. -/
def begunBy (events : List (Event ω)) : List ω :=
  events.filterMap fun
    | .begin operation => some operation
    | _ => none

/-- The operation of a session that has neither been concluded nor dropped. -/
def Session.open? (session : Session ω α) : Option ω :=
  if session.stage = .calling then some session.operation else none

/-- The operations of the open sessions among those that have begun behind the first ones. -/
def openBehind (count : Nat) (sessions : List (Session ω α)) : List ω :=
  (sessions.drop count).filterMap Session.open?

section

variable {count place : Nat} {sessions : List (Session ω α)} {session after : Session ω α}

/-- A session that changes is behind the first ones, or leaves the open ones behind them. -/
theorem openBehind_set (hsession : sessions[place]? = some session) :
    (place < count ∧ openBehind count (sessions.set place after) = openBehind count sessions) ∨
      ∃ front back, openBehind count sessions = front ++ (session.open?.toList ++ back) ∧
        openBehind count (sessions.set place after) = front ++ (after.open?.toList ++ back) := by
  unfold openBehind
  rw [List.drop_set]
  by_cases hplace : place < count
  · exact Or.inl ⟨hplace, by rw [if_pos hplace]⟩
  · rw [if_neg hplace]
    have hdropped : (sessions.drop count)[place - count]? = some session := by
      rw [List.getElem?_drop, Nat.add_sub_cancel' (Nat.le_of_not_lt hplace), hsession]
    obtain ⟨hbound, hget⟩ := List.getElem?_eq_some_iff.mp hdropped
    obtain ⟨front, back, hbefore, -, hafter⟩ := @List.exists_of_set _ _ after _ hbound
    rw [hget] at hbefore
    have hopen (session : Session ω α) : (front ++ session :: back).filterMap Session.open? =
        front.filterMap Session.open? ++
          (session.open?.toList ++ back.filterMap Session.open?) := by
      rw [List.filterMap_append, List.filterMap_cons]
      cases session.open? <;> rfl
    refine Or.inr ⟨front.filterMap Session.open?, back.filterMap Session.open?, ?_, ?_⟩
    · rw [hbefore, hopen]
    · rw [hafter, hopen]

/-- What holds of all sessions behind the first ones still does when one changes as it may. -/
theorem forall_mem_drop_set {holds : Session ω α → Prop}
    (hsession : sessions[place]? = some session)
    (hbefore : ∀ other ∈ sessions.drop count, holds other)
    (hafter : holds session → holds after) :
    ∀ other ∈ (sessions.set place after).drop count, holds other := by
  intro other hother
  rw [List.drop_set] at hother
  split at hother
  · exact hbefore other hother
  · rename_i hplace
    rcases List.mem_or_eq_of_mem_set hother with hold | rfl
    · exact hbefore other hold
    · refine hafter (hbefore session (List.mem_of_getElem? (i := place - count) ?_))
      rw [List.getElem?_drop, Nat.add_sub_cancel' (Nat.le_of_not_lt hplace), hsession]

end

/-! ### Transactions under way -/

/-- Pairwise relations that do not depend on the order hold among some of the members. -/
theorem pairwise_of_subperm {related : ω → ω → Prop} {some members : List ω}
    (hsome : some.Subperm members) (hmembers : members.Pairwise related)
    (hsymmetric : ∀ {first second}, related first second → related second first) :
    some.Pairwise related := by
  obtain ⟨ordered, hperm, hsublist⟩ := hsome
  exact hperm.pairwise (hmembers.sublist hsublist) hsymmetric

/-- There are not enough versions left for all members to commit. -/
def OutOfVersions (early : System ω α) (members : List ω) : Prop :=
  UInt64.size ≤ early.history.length + members.length

section

variable (program : ω → Script α) (base : Contents)

/-- How far the transactions of some operations have come that began behind an early state: the
commits and the endings since then, and the operations that have ended without a commit. Those that
are yet to come are `coming`. -/
structure System.Proceeds (early system : System ω α) (members coming : List ω)
    (commits : List (Commit ω α)) (ended : List (Ending ω α)) (quiet : List ω) : Prop where
  history : system.history = early.history ++ commits
  endings : system.endings = early.endings ++ ended
  began : early.sessions.length ≤ system.sessions.length
  snapshots : ∀ session ∈ system.sessions.drop early.sessions.length,
    early.history.length ≤ session.snapshot
  among : (ended.map (·.operation) ++
    (openBehind early.sessions.length system.sessions ++ coming)).Subperm members
  accounted : (commits.map (·.operation) ++ quiet).Perm (ended.map (·.operation))
  committed : ∀ commit ∈ commits, commit.calls = ownCalls program base commit.operation ∧
    ownOutcome program base commit.operation = .ok commit.result
  unchanged : ∀ operation ∈ quiet, OutOfVersions early members ∨
    ∀ contents, ownEffect program base contents operation = contents
  outcomes : ∀ ending ∈ ended, ending.outcome = ownOutcome program base ending.operation ∨
    OutOfVersions early members ∧ ∃ cause, ending.outcome = .error (.storeUnavailable cause)

end

namespace System.Proceeds

variable {program : ω → Script α} {kind : ω → Prop} {footprint : ω → Key → Prop}
  {kept : Key → Prop} {base : Contents} {early system : System ω α} {members coming : List ω}
  {commits : List (Commit ω α)} {ended : List (Ending ω α)} {quiet : List ω}

theorem refl (hcoming : coming.Subperm members) :
    Proceeds program base early early members coming [] [] [] where
  history := (List.append_nil _).symm
  endings := (List.append_nil _).symm
  began := Nat.le_refl _
  snapshots session hmem := by
    rw [List.drop_length] at hmem
    cases hmem
  among := by
    rw [openBehind, List.drop_length]
    exact hcoming
  accounted := .refl _
  committed commit hmem := by cases hmem
  unchanged operation hmem := by cases hmem
  outcomes ending hmem := by cases hmem

/-- Other open sessions and other members to come, of the same operations or fewer. -/
theorem go (hproceeds : Proceeds program base early system members coming commits ended quiet)
    {after : System ω α} {later : List ω} (hhistory : after.history = system.history)
    (hendings : after.endings = system.endings)
    (hbegan : early.sessions.length ≤ after.sessions.length)
    (hsnapshots : ∀ session ∈ after.sessions.drop early.sessions.length,
      early.history.length ≤ session.snapshot)
    (hmembers : (openBehind early.sessions.length after.sessions ++ later).Sublist
      (openBehind early.sessions.length system.sessions ++ coming)) :
    Proceeds program base early after members later commits ended quiet where
  history := hhistory.trans hproceeds.history
  endings := hendings.trans hproceeds.endings
  began := hbegan
  snapshots := hsnapshots
  among := (hmembers.append_left _).subperm.trans hproceeds.among
  accounted := hproceeds.accounted
  committed := hproceeds.committed
  unchanged := hproceeds.unchanged
  outcomes := hproceeds.outcomes

/-- A session goes on with the same operation and snapshot, or is open no more. -/
theorem set (hproceeds : Proceeds program base early system members coming commits ended quiet)
    {place : Nat} {session after : Session ω α}
    (hsession : system.sessions[place]? = some session)
    (hsnapshot : after.snapshot = session.snapshot)
    (hopen : after.open?.toList.Sublist session.open?.toList) (database : Database) :
    Proceeds program base early
      { system with database, sessions := system.sessions.set place after } members coming commits
      ended quiet := by
  refine hproceeds.go rfl rfl (by rw [List.length_set]; exact hproceeds.began)
    (forall_mem_drop_set hsession hproceeds.snapshots fun hbefore ↦ hsnapshot ▸ hbefore) ?_
  refine List.Sublist.append_right ?_ coming
  rcases @openBehind_set _ _ early.sessions.length _ _ _ after hsession with
    ⟨-, hsame⟩ | ⟨front, back, hbefore, hafter⟩
  · rw [hsame]
  · rw [hbefore, hafter]
    exact (hopen.append_right back).append_left front

theorem begin {operation : ω} {failsRead failsWrite : Nat → Bool}
    (hproceeds : Proceeds program base early system members (operation :: coming) commits ended
      quiet) (hsound : system.Sound program failsRead failsWrite) :
    Proceeds program base early (system.begin program operation) members coming commits ended
      quiet := by
  have hdrop : (system.begin program operation).sessions.drop early.sessions.length =
      system.sessions.drop early.sessions.length ++ _ :=
    List.drop_append_of_le_length hproceeds.began
  refine hproceeds.go rfl rfl ?_ (fun session hmem ↦ ?_) ?_
  · exact Nat.le_trans hproceeds.began (by simp [System.begin])
  · rw [hdrop] at hmem
    rcases List.mem_append.mp hmem with hold | hnew
    · exact hproceeds.snapshots session hold
    · rw [List.mem_singleton.mp hnew]
      dsimp only
      rw [hsound.version, hproceeds.history, List.length_append]
      exact Nat.le_add_right _ _
  · rw [openBehind, hdrop, List.filterMap_append, List.append_assoc]
    exact .refl _

/-- What the commits since the early state have made is what their operations make by
themselves. -/
theorem contentsAfter_eq
    (hproceeds : Proceeds program base early system members coming commits ended quiet)
    (hbase : contentsAfter early.history early.history.length = base) (count : Nat) :
    contentsAfter system.history (early.history.length + count) =
      ((commits.take count).map (·.operation)).foldl (ownEffect program base) base := by
  rw [contentsAfter, List.take_length] at hbase
  rw [contentsAfter, hproceeds.history, List.take_length_add_append, List.foldl_append, hbase,
    List.foldl_map]
  refine List.foldl_ext _ _ base fun contents commit hcommit ↦ ?_
  obtain ⟨hcalls, houtcome⟩ := hproceeds.committed commit (List.mem_of_mem_take hcommit)
  rw [ownEffect, houtcome, hcalls]

/-- The members that have committed are independent of those that are open. -/
theorem independent
    (hproceeds : Proceeds program base early system members coming commits ended quiet)
    (hmembers : members.Pairwise (Independent program footprint base)) {commit : Commit ω α}
    (hcommit : commit ∈ commits) {operation : ω}
    (hopen : operation ∈ openBehind early.sessions.length system.sessions) :
    Independent program footprint base commit.operation operation := by
  have hpairwise := pairwise_of_subperm hproceeds.among hmembers And.symm
  refine (List.pairwise_append.mp hpairwise).2.2 commit.operation ?_ operation
    (List.mem_append_left coming hopen)
  exact hproceeds.accounted.subset (List.mem_append_left quiet (List.mem_map_of_mem hcommit))

/-- A session behind the early ones that is open is that of a member. -/
theorem mem_openBehind {place : Nat} (hplace : early.sessions.length ≤ place)
    {session : Session ω α} (hsession : system.sessions[place]? = some session)
    (hstage : session.stage = .calling) :
    session ∈ system.sessions.drop early.sessions.length ∧
      session.operation ∈ openBehind early.sessions.length system.sessions := by
  have hdropped : session ∈ system.sessions.drop early.sessions.length := by
    refine List.mem_of_getElem? (i := place - early.sessions.length) ?_
    rw [List.getElem?_drop, Nat.add_sub_cancel' hplace, hsession]
  exact ⟨hdropped, List.mem_filterMap.mpr ⟨session, hdropped, by rw [Session.open?, if_pos hstage]⟩⟩

/-- A member whose script has come to its end has made the calls that its operation makes by itself,
and all that it has read has the version it was read at. -/
theorem own_calls
    (hproceeds : Proceeds program base early system members coming commits ended quiet)
    {failsRead failsWrite : Nat → Bool} (hsound : system.Sound program failsRead failsWrite)
    (hreliable : ∀ serial, failsRead serial = false)
    (hsteady : system.Steady kind footprint kept)
    (hkeeping : Keeping kind footprint kept program)
    (hkind : ∀ operation ∈ members, kind operation)
    (hmembers : members.Pairwise (Independent program footprint base))
    (hbase : contentsAfter early.history early.history.length = base) {place : Nat}
    (hplace : early.sessions.length ≤ place) {session : Session ω α}
    (hsession : system.sessions[place]? = some session) (hstage : session.stage = .calling)
    {outcome : Except Failure α} (hrest : session.rest = .finish outcome) :
    session.calls = ownCalls program base session.operation ∧
      outcome = ownOutcome program base session.operation ∧
      ∀ key version, session.transaction.reads.get? key = some version →
        system.database.substrate.store.newestVersion key = version := by
  have hmem := List.mem_of_getElem? hsession
  have hbefore := hsound.sessions session hmem (by rw [hstage]; decide)
  obtain ⟨hdropped, hopen⟩ := @mem_openBehind _ _ early system _ hplace _ hsession hstage
  have hoperation : kind session.operation :=
    hkind _ (hproceeds.among.subset (List.mem_append_right _ (List.mem_append_left _ hopen)))
  have hsnapshot := hproceeds.snapshots session hdropped
  -- what the operation looks at is on the snapshot as it was in the early state
  have hagree : ∀ key, footprint session.operation key →
      (contentsAfter system.history session.snapshot).get? key = base.get? key := by
    intro key hread
    rw [← Nat.add_sub_cancel' hsnapshot, hproceeds.contentsAfter_eq hbase]
    refine get?_foldl_ownEffect (fun other hother ↦ ?_) hread base
    obtain ⟨commit, hcommit, rfl⟩ := List.mem_map.mp hother
    exact hproceeds.independent hmembers (List.mem_of_mem_take hcommit) hopen
  have hcourse := hbefore.course hstage
  rw [hrest] at hcourse
  have hunrefused : Unrefused session.calls := by
    intro call hcall
    cases call with
    | refused failure =>
      obtain ⟨-, serial, hfails⟩ := hcourse.refused failure hcall
      rw [hreliable] at hfails
      cases hfails
    | _ => rfl
  have hperform := (hkeeping.confined _ hoperation).perform_eq hagree
  rw [Script.perform_eq_of_leads hcourse.leads hcourse.truthful hunrefused] at hperform
  refine ⟨congrArg Performance.calls hperform, congrArg Performance.outcome hperform,
    fun key version ↦ hsteady.newestVersion_eq hsound hmem hstage hoperation
      fun place commit hbehind hcommit key hread hchanged ↦ ?_⟩
  rw [hproceeds.history, List.getElem?_append_right (by omega)] at hcommit
  have hcommitted := List.mem_of_getElem? hcommit
  rw [(hproceeds.committed commit hcommitted).1] at hchanged
  exact ((hproceeds.independent hmembers hcommitted hopen).1 key hchanged).1 hread

section

variable {place : Nat} {session : Session ω α} {transaction : Transaction} {database : Database}
  {count : Nat}

/-- A member that ends is open no more. -/
theorem among_concluded
    (hproceeds : Proceeds program base early system members coming commits ended quiet)
    (hplace : early.sessions.length ≤ place) (hsession : system.sessions[place]? = some session)
    (hstage : session.stage = .calling) (answer : Except Failure α) :
    ((ended ++ [(⟨session.operation, session.snapshot, count, answer⟩ : Ending ω α)]).map
        (·.operation) ++
      (openBehind early.sessions.length (system.sessions.set place
        { session with transaction, stage := .concluded }) ++ coming)).Subperm members := by
  refine List.Subperm.trans (List.Perm.subperm ?_) hproceeds.among
  rcases @openBehind_set _ _ early.sessions.length _ _ _
      { session with transaction, stage := .concluded } hsession with
    ⟨hearly, -⟩ | ⟨front, back, hbefore, hafter⟩
  · exact absurd hplace (Nat.not_le_of_lt hearly)
  · have hopen : session.open? = some session.operation := if_pos hstage
    rw [hbefore, hafter, hopen, List.map_append, List.append_assoc]
    refine List.Perm.append_left _ ?_
    simpa [Session.open?] using List.perm_middle.symm

/-- A member ends without a commit. -/
theorem end_quietly
    (hproceeds : Proceeds program base early system members coming commits ended quiet)
    (hplace : early.sessions.length ≤ place) (hsession : system.sessions[place]? = some session)
    (hstage : session.stage = .calling) {answer : Except Failure α}
    (hunchanged : OutOfVersions early members ∨
      ∀ contents, ownEffect program base contents session.operation = contents)
    (hanswer : answer = ownOutcome program base session.operation ∨
      OutOfVersions early members ∧ ∃ cause, answer = .error (.storeUnavailable cause)) :
    Proceeds program base early
      { database
        sessions := system.sessions.set place { session with transaction, stage := .concluded }
        history := system.history ++ []
        endings := system.endings ++ [⟨session.operation, session.snapshot, count, answer⟩] }
      members coming commits (ended ++ [⟨session.operation, session.snapshot, count, answer⟩])
      (quiet ++ [session.operation]) where
  history := (List.append_nil _).trans hproceeds.history
  endings := by rw [hproceeds.endings, List.append_assoc]
  began := by rw [List.length_set]; exact hproceeds.began
  snapshots := forall_mem_drop_set hsession hproceeds.snapshots id
  among := hproceeds.among_concluded hplace hsession hstage answer
  accounted := by
    rw [← List.append_assoc, List.map_append]
    exact hproceeds.accounted.append_right _
  committed := hproceeds.committed
  unchanged operation hmem := by
    rcases List.mem_append.mp hmem with hold | hnew
    · exact hproceeds.unchanged operation hold
    · rw [List.mem_singleton.mp hnew]
      exact hunchanged
  outcomes other hmem := by
    rcases List.mem_append.mp hmem with hold | hnew
    · exact hproceeds.outcomes other hold
    · rw [List.mem_singleton.mp hnew]
      exact hanswer

/-- A member ends with a commit of the calls that its operation makes by itself. -/
theorem end_committed
    (hproceeds : Proceeds program base early system members coming commits ended quiet)
    (hplace : early.sessions.length ≤ place) (hsession : system.sessions[place]? = some session)
    (hstage : session.stage = .calling) {result : α}
    (hcalls : session.calls = ownCalls program base session.operation)
    (hresult : .ok result = ownOutcome program base session.operation) :
    Proceeds program base early
      { database
        sessions := system.sessions.set place { session with transaction, stage := .concluded }
        history := system.history ++
          [⟨session.operation, session.snapshot, session.calls, result⟩]
        endings := system.endings ++
          [⟨session.operation, session.snapshot, count, .ok result⟩] }
      members coming
      (commits ++ [⟨session.operation, session.snapshot, session.calls, result⟩])
      (ended ++ [⟨session.operation, session.snapshot, count, .ok result⟩]) quiet where
  history := by rw [hproceeds.history, List.append_assoc]
  endings := by rw [hproceeds.endings, List.append_assoc]
  began := by rw [List.length_set]; exact hproceeds.began
  snapshots := forall_mem_drop_set hsession hproceeds.snapshots id
  among := hproceeds.among_concluded hplace hsession hstage _
  accounted := by
    rw [List.map_append, List.map_append, List.append_assoc]
    refine (List.Perm.append_left _ List.perm_append_comm).trans ?_
    rw [← List.append_assoc]
    exact hproceeds.accounted.append_right _
  committed commit hmem := by
    rcases List.mem_append.mp hmem with hold | hnew
    · exact hproceeds.committed commit hold
    · rw [List.mem_singleton.mp hnew]
      exact ⟨hcalls, hresult.symm⟩
  unchanged := hproceeds.unchanged
  outcomes other hmem := by
    rcases List.mem_append.mp hmem with hold | hnew
    · exact hproceeds.outcomes other hold
    · rw [List.mem_singleton.mp hnew]
      exact Or.inl hresult

/-- As long as a member is open, another version is needed for each that has committed and for
it. -/
theorem outOfVersions
    (hproceeds : Proceeds program base early system members coming commits ended quiet)
    {operation : ω} (hopen : operation ∈ openBehind early.sessions.length system.sessions)
    (hversions : UInt64.size ≤ system.history.length + 1) : OutOfVersions early members := by
  have hended := hproceeds.accounted.length_eq
  have hamong := hproceeds.among.length_le
  have hpositive := List.length_pos_of_mem hopen
  rw [hproceeds.history] at hversions
  simp only [List.length_append, List.length_map] at hended hamong hversions
  unfold OutOfVersions
  omega

end

/-- A member that is concluded has the outcome that its operation has by itself. -/
theorem conclude
    (hproceeds : Proceeds program base early system members coming commits ended quiet)
    {failsRead failsWrite : Nat → Bool} (hsound : system.Sound program failsRead failsWrite)
    (hreliable : ∀ serial, failsRead serial = false ∧ failsWrite serial = false)
    (hsteady : system.Steady kind footprint kept)
    (hkeeping : Keeping kind footprint kept program)
    (hkind : ∀ operation ∈ members, kind operation)
    (hmembers : members.Pairwise (Independent program footprint base))
    (hbase : contentsAfter early.history early.history.length = base) {place : Nat}
    (hplace : early.sessions.length ≤ place) {session : Session ω α}
    (hsession : system.sessions[place]? = some session) (hstage : session.stage = .calling)
    {outcome : Except Failure α} (hrest : session.rest = .finish outcome) :
    ∃ commits ended quiet, Proceeds program base early (system.conclude place session outcome)
      members coming commits ended quiet := by
  obtain ⟨hcalls, houtcome, hvalid⟩ := hproceeds.own_calls hsound
    (fun serial ↦ (hreliable serial).1) hsteady hkeeping hkind hmembers hbase hplace hsession
    hstage hrest
  have hopen := (@mem_openBehind _ _ early system _ hplace _ hsession hstage).2
  have htracks := (hsound.sessions session (List.mem_of_getElem? hsession)
    (by rw [hstage]; decide)).tracks hstage
  have hconcludes := (Database.concludes_conclude htracks.active system.database outcome).1
  unfold System.conclude
  revert hconcludes
  generalize system.database.conclude session.transaction outcome = concluded
  obtain ⟨answer, transaction, database⟩ := concluded
  intro hconcludes
  cases hconcludes with
  | failed hstore =>
    refine ⟨_, _, _, hproceeds.end_quietly hplace hsession hstage
      (Or.inr fun contents ↦ ?_) (Or.inl houtcome)⟩
    rw [ownEffect, ← houtcome]
  | readOnly hreadOnly hcollected =>
    simp only [Session.commit?, hreadOnly, if_true, Option.toList_none]
    refine ⟨_, _, _, hproceeds.end_quietly hplace hsession hstage
      (Or.inr fun contents ↦ ?_) (Or.inl houtcome)⟩
    rw [ownEffect, ← houtcome, ← hcalls]
    exact htracks.effectOf_eq hreadOnly contents
  | committed hreadOnly _ happly hcollected =>
    simp only [Session.commit?, hreadOnly]
    exact ⟨_, _, _, hproceeds.end_committed hplace hsession hstage hcalls houtcome⟩
  | conflicts hstore hchanged =>
    obtain ⟨key, version, hread, hnewest⟩ := hchanged
    exact absurd (hvalid key version hread) hnewest
  | outage hstore hfails =>
    have hversions : OutOfVersions early members := by
      rcases hfails with ⟨serial, hfails⟩ | hnext
      · rw [hsound.planRead, hsound.planWrite, (hreliable serial).1, (hreliable serial).2] at hfails
        rcases hfails with hfails | hfails <;> cases hfails
      · rw [hsound.version] at hnext
        exact hproceeds.outOfVersions hopen (size_le_of_nextVersion_le hnext)
    exact ⟨_, _, _, hproceeds.end_quietly hplace hsession hstage
      (Or.inl hversions) (Or.inr ⟨hversions, _, rfl⟩)⟩

/-- Every step goes on like that, if none but members are concluded. -/
theorem step {event : Event ω} {rest : List (Event ω)}
    (hproceeds : Proceeds program base early system members (begunBy (event :: rest)) commits ended
      quiet)
    {failsRead failsWrite : Nat → Bool} (hsound : system.Sound program failsRead failsWrite)
    (hreliable : ∀ serial, failsRead serial = false ∧ failsWrite serial = false)
    (hsteady : system.Steady kind footprint kept)
    (hkeeping : Keeping kind footprint kept program)
    (hkind : ∀ operation ∈ members, kind operation)
    (hmembers : members.Pairwise (Independent program footprint base))
    (hbase : contentsAfter early.history early.history.length = base)
    (hconclude : ∀ place, event = .conclude place → early.sessions.length ≤ place) :
    ∃ commits ended quiet, Proceeds program base early (system.step program event) members
      (begunBy rest) commits ended quiet := by
  cases event with
  | begin operation => exact ⟨_, _, _, hproceeds.begin hsound⟩
  | call place =>
    simp only [System.step]
    split
    · rename_i session hsession
      split
      · unfold System.call
        split
        · exact ⟨_, _, _, hproceeds⟩
        · refine ⟨_, _, _, hproceeds.set hsession ?_ ?_ _⟩
          · rfl
          · exact .refl _
      · exact ⟨_, _, _, hproceeds⟩
    · exact ⟨_, _, _, hproceeds⟩
  | conclude place =>
    simp only [System.step]
    split
    · rename_i session hsession
      split
      · rename_i hstage hrest
        exact hproceeds.conclude hsound hreliable hsteady hkeeping hkind hmembers hbase
          (hconclude place rfl) hsession hstage hrest
      · exact ⟨_, _, _, hproceeds⟩
    · exact ⟨_, _, _, hproceeds⟩
  | drop place =>
    simp only [System.step]
    split
    · rename_i session hsession
      split
      · exact ⟨_, _, _, hproceeds⟩
      · refine ⟨_, _, _, hproceeds.set hsession ?_ ?_ _⟩
        · rfl
        · exact List.nil_sublist _
    · exact ⟨_, _, _, hproceeds⟩
  | collect =>
    exact ⟨_, _, _, hproceeds.go rfl rfl hproceeds.began hproceeds.snapshots (.refl _)⟩

/-- All that is committed in such a run is of the kind. -/
theorem kind_of_mem_history
    (hproceeds : Proceeds program base early system members coming commits ended quiet)
    (hkind : ∀ operation ∈ members, kind operation)
    (hearly : ∀ commit ∈ early.history, kind commit.operation) :
    ∀ commit ∈ system.history, kind commit.operation := by
  intro commit hcommit
  rw [hproceeds.history] at hcommit
  rcases List.mem_append.mp hcommit with hold | hnew
  · exact hearly commit hold
  · refine hkind _ (hproceeds.among.subset (List.mem_append_left _ ?_))
    exact hproceeds.accounted.subset (List.mem_append_left quiet (List.mem_map_of_mem hnew))

/-- Every run goes on like that, if none but members are concluded. -/
theorem run {events : List (Event ω)}
    (hproceeds : Proceeds program base early system members (begunBy events) commits ended quiet)
    {failsRead failsWrite : Nat → Bool} (hsound : system.Sound program failsRead failsWrite)
    (hreliable : ∀ serial, failsRead serial = false ∧ failsWrite serial = false)
    (hsteady : system.Steady kind footprint kept)
    (hkeeping : Keeping kind footprint kept program)
    (hearly : ∀ commit ∈ early.history, kind commit.operation)
    (hkind : ∀ operation ∈ members, kind operation)
    (hmembers : members.Pairwise (Independent program footprint base))
    (hbase : contentsAfter early.history early.history.length = base)
    (hconclude : ∀ place, .conclude place ∈ events → early.sessions.length ≤ place) :
    ∃ commits ended quiet, Proceeds program base early (system.run program events) members []
      commits ended quiet := by
  induction events generalizing system commits ended quiet with
  | nil => exact ⟨_, _, _, hproceeds⟩
  | cons event rest ih =>
    obtain ⟨_, _, _, hafter⟩ := hproceeds.step hsound hreliable hsteady hkeeping hkind hmembers
      hbase fun place hevent ↦ hconclude place (hevent ▸ List.mem_cons_self)
    exact ih hafter (hsound.step event)
      (hsteady.step hsound hkeeping (hafter.kind_of_mem_history hkind hearly))
      fun place hmem ↦ hconclude place (List.mem_cons_of_mem _ hmem)

/-- When all members have ended, the contents are what their transactions leave, one after the
other. -/
theorem live_eq
    (hproceeds : Proceeds program base early system members coming commits ended quiet)
    {failsRead failsWrite : Nat → Bool} (hsound : system.Sound program failsRead failsWrite)
    (hkeeping : Keeping kind footprint kept program)
    (hkind : ∀ operation ∈ members, kind operation)
    (hmembers : members.Pairwise (Independent program footprint base))
    (hbase : contentsAfter early.history early.history.length = base)
    (hversions : ¬ OutOfVersions early members)
    (hended : (ended.map (·.operation)).Perm members) :
    system.database.live =
      members.foldl (fun contents operation ↦ ((program operation).transacted contents).2)
        base := by
  have hperm := hproceeds.accounted.trans hended
  have hpairwise := hperm.symm.pairwise hmembers And.symm
  have hquiet (contents : Contents) : quiet.foldl (ownEffect program base) contents = contents :=
    List.foldlRecOn (motive := (· = contents)) quiet (ownEffect program base) rfl
      fun after hafter operation hmem ↦
        ((hproceeds.unchanged operation hmem).resolve_left hversions after).trans hafter
  have hlength : system.history.length = early.history.length + commits.length := by
    rw [hproceeds.history, List.length_append]
  calc system.database.live
    _ = contentsAfter system.history (early.history.length + commits.length) := by
      rw [← hlength]
      exact hsound.live
    _ = (commits.map (·.operation)).foldl (ownEffect program base) base := by
      rw [hproceeds.contentsAfter_eq hbase, List.take_length]
    _ = (commits.map (·.operation) ++ quiet).foldl (ownEffect program base) base := by
      rw [List.foldl_append, hquiet]
    _ = members.foldl (ownEffect program base) base := foldl_ownEffect_perm hperm hpairwise base
    _ = members.foldl (fun contents operation ↦ ((program operation).transacted contents).2)
        base := by
      rw [foldl_transacted (fun operation hmem ↦ hkeeping.confined operation (hkind operation hmem))
        hmembers]

end System.Proceeds

/-- Transactions of pairwise independent operations that begin behind an early state, none but these
being concluded: each that ends has the outcome that its operation has by itself on the early
contents, unless the versions run out; and when all have ended, the contents are what their
transactions leave one after the other. -/
theorem System.Sound.independent {program : ω → Script α} {kind : ω → Prop}
    {footprint : ω → Key → Prop} {kept : Key → Prop} {early : System ω α} {members : List ω}
    {failsRead failsWrite : Nat → Bool} (hsound : early.Sound program failsRead failsWrite)
    (hreliable : ∀ serial, failsRead serial = false ∧ failsWrite serial = false)
    (hsteady : early.Steady kind footprint kept)
    (hkeeping : Keeping kind footprint kept program)
    (hearly : ∀ commit ∈ early.history, kind commit.operation)
    (hkind : ∀ operation ∈ members, kind operation)
    (hmembers : members.Pairwise (Independent program footprint early.database.live))
    {more : List (Event ω)} (hbegun : (begunBy more).Subperm members)
    (hconclude : ∀ place, .conclude place ∈ more → early.sessions.length ≤ place) :
    ∃ ended, (early.run program more).endings = early.endings ++ ended ∧
      (∀ ending ∈ ended, ending.operation ∈ members ∧
        (ending.outcome = ownOutcome program early.database.live ending.operation ∨
          OutOfVersions early members ∧
            ∃ cause, ending.outcome = .error (.storeUnavailable cause))) ∧
      (¬ OutOfVersions early members → ended.length = members.length →
        (ended.map (·.operation)).Perm members ∧
          (early.run program more).database.live = members.foldl (fun contents operation ↦
            ((program operation).transacted contents).2) early.database.live) := by
  have hbase : contentsAfter early.history early.history.length = early.database.live :=
    hsound.live.symm
  obtain ⟨_, ended, _, hproceeds⟩ := (Proceeds.refl hbegun).run hsound hreliable hsteady hkeeping
    hearly hkind hmembers hbase hconclude
  have hamong : (ended.map (·.operation)).Subperm members :=
    (List.sublist_append_left _ _).subperm.trans hproceeds.among
  refine ⟨ended, hproceeds.endings, fun ending hending ↦
    ⟨hamong.subset (List.mem_map_of_mem hending), hproceeds.outcomes ending hending⟩,
    fun hversions hlength ↦ ?_⟩
  have hended : (ended.map (·.operation)).Perm members :=
    hamong.perm_of_length_le (Nat.le_of_eq (by rw [List.length_map, hlength]))
  exact ⟨hended, hproceeds.live_eq (hsound.run more) hkeeping hkind hmembers hbase hversions hended⟩

end RunLedger
