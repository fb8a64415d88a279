import RunLedger.Proofs.Ledger.Commits

/-!
# Whose progress is stored

Tokens and node states are written only for runs that exist, and removals erase them with the record
of the run. For tokens that suffices: every live token is of a run that is there (`Contents.Owned`).
For node states it does not. A removal erases the node states that it has found on its snapshot, and
one that is written and committed before the removal commits is no key that the removal has read, so
both commit and the node state outlives its run (`Overlooked`). This is the only way, and the node
state stays without a run until the run is started again (`progress_owned_iff`).
-/

set_option autoImplicit false

namespace RunLedger

open Relation (ReflTransGen)

/-! ### Keys of progress -/

namespace Key

variable {program other : ProgramId} {id otherId : RunId} {key : Key}

theorem isProgressOf_inj (hkey : key.IsProgressOf program id)
    (hother : key.IsProgressOf other otherId) : program = other ∧ id = otherId := by
  rcases hkey with rfl | ⟨node, rfl⟩
  · rcases hother with htoken | ⟨node, hnode⟩
    · exact workflowToken_inj htoken
    · exact absurd (congrArg Key.family hnode) (show Family.workflowToken ≠ .nodeState by decide)
  · rcases hother with htoken | ⟨name, hnode⟩
    · exact absurd (congrArg Key.family htoken) (show Family.nodeState ≠ .workflowToken by decide)
    · obtain ⟨hprogram, hid, -⟩ := nodeState_inj hnode
      exact ⟨hprogram, hid⟩

/-- The key is in one of the families of progress. -/
def IsProgress (key : Key) : Prop := key.family = .workflowToken ∨ key.family = .nodeState

theorem IsProgressOf.isProgress (hkey : key.IsProgressOf program id) : key.IsProgress := by
  rcases hkey with rfl | ⟨node, rfl⟩
  · exact Or.inl rfl
  · exact Or.inr rfl

theorem IsProgress.family_ne (hkey : key.IsProgress) :
    key.family ≠ .run ∧ key.family ≠ .runByStatus ∧ key.family ≠ .workflowRun := by
  rcases hkey with hfamily | hfamily
  all_goals
    rw [hfamily]
    decide

end Key

/-! ### Alterations -/

namespace Alteration

variable {before after : Contents} {program : ProgramId} {id : RunId} {key : Key}

/-- An alteration leaves progress as it is, or brings some for a run that is there. -/
theorem progress (halteration : Alteration before after) (hbefore : before.Consistent)
    (hkey : key.IsProgress) :
    after.contains key = before.contains key ∨
      (after.contains key = true ∧
        ∃ program id, key.IsProgressOf program id ∧ (after.run? program id).isSome = true) := by
  obtain ⟨hrunFamily, hindexFamily, hsummaryFamily⟩ := hkey.family_ne
  have hlater {program : ProgramId} {id : RunId} (hrun : (before.run? program id).isSome = true) :
      (after.run? program id).isSome = true := (halteration.keeps hbefore).present hrun
  cases halteration with
  | recorded record hbecomes =>
    left
    rw [SortedMap.contains_eq, SortedMap.contains_eq,
      (hbefore.recorded_recording record).get?_of_family hrunFamily hindexFamily]
  | @noted program id written value hrun hwritten =>
    by_cases hsame : key = written
    · subst hsame
      right
      rw [SortedMap.contains_insert, Key.compare_eq_iff_eq.mpr rfl]
      exact ⟨rfl, program, id, hwritten, hlater hrun⟩
    · left
      rw [SortedMap.contains_eq, SortedMap.contains_eq, Contents.get?_insert, if_neg hsame]
  | aside hkeys =>
    left
    rw [SortedMap.contains_eq, SortedMap.contains_eq, hkeys key hsummaryFamily]

end Alteration

/-- What operations other than removals keep and bring: runs and progress stay, and progress that
comes is of a run that is there. -/
structure Contents.Grows (before after : Contents) : Prop where
  runs : ∀ program id, Contents.Keeps program id before after
  kept : ∀ key : Key, key.IsProgress → before.contains key = true → after.contains key = true
  owned : ∀ key : Key, key.IsProgress → after.contains key = true → before.contains key = true ∨
    ∃ program id, key.IsProgressOf program id ∧ (after.run? program id).isSome = true

theorem Contents.grows_of_alters {before after : Contents}
    (halters : ReflTransGen Alteration before after) (hbefore : before.Consistent) :
    before.Grows after := by
  induction halters with
  | refl =>
    exact ⟨fun _ _ ↦ .refl _, fun _ _ hlive ↦ hlive, fun _ _ hlive ↦ Or.inl hlive⟩
  | @tail between after hfirst halteration ih =>
    have hbetween := consistent_of_alters hfirst hbefore
    refine ⟨fun program id ↦ ?_, fun key hkey hlive ↦ ?_, fun key hkey hlive ↦ ?_⟩
    · exact (ih.runs program id).trans (halteration.keeps hbetween)
    · rcases halteration.progress hbetween hkey with hsame | ⟨hafter, -⟩
      · exact hsame.trans (ih.kept key hkey hlive)
      · exact hafter
    · rcases halteration.progress hbetween hkey with hsame | ⟨-, howned⟩
      · rw [hsame] at hlive
        rcases ih.owned key hkey hlive with hbefore | ⟨program, id, howned, hrun⟩
        · exact Or.inl hbefore
        · exact Or.inr ⟨program, id, howned, (halteration.keeps hbetween).present hrun⟩
      · exact Or.inr howned

/-! ### Removals -/

namespace Contents.Removed

variable {scope : Scope} {runs : List (ProgramId × RunId)} {snapshot before after : Contents}
  {program : ProgramId} {id : RunId} {key : Key}

theorem contains_of_contains (hremoved : Contents.Removed scope runs snapshot before after)
    (hlive : after.contains key = true) :
    before.contains key = true ∧ ∀ run ∈ runs, ¬ snapshot.Belongs run.1 run.2 key := by
  have hkept (run : ProgramId × RunId) (hrun : run ∈ runs) :
      ¬ snapshot.Belongs run.1 run.2 key := by
    intro hbelongs
    rw [SortedMap.contains_eq, hremoved.erased run hrun key hbelongs] at hlive
    cases hlive
  rw [SortedMap.contains_eq, hremoved.kept key hkept] at hlive
  exact ⟨hlive, hkept⟩

/-- Of the progress of a run, a removal erases the token and the node states of the snapshot. -/
theorem belongs_progress (hkey : key.IsProgressOf program id) {other : ProgramId} {otherId : RunId} :
    snapshot.Belongs other otherId key ↔
      (other = program ∧ otherId = id) ∧
        (key = Key.workflowToken program id ∨ snapshot.contains key = true) := by
  obtain ⟨hrunFamily, hindexFamily, -⟩ := hkey.isProgress.family_ne
  constructor
  · rintro (hrun | ⟨status, hindex⟩ | htoken | ⟨hstem, hlive⟩)
    · exact absurd hrun (Key.ne_run hrunFamily _ _)
    · exact absurd hindex (Key.ne_statusIndex hindexFamily _ _ _)
    · obtain ⟨rfl, rfl⟩ := Key.isProgressOf_inj hkey (Or.inl htoken)
      exact ⟨⟨rfl, rfl⟩, Or.inl htoken⟩
    · refine ⟨?_, Or.inr hlive⟩
      rcases hkey with rfl | ⟨node, rfl⟩
      · cases hstem
      · obtain ⟨rfl, rfl⟩ := Key.nodeState_startsWith_iff.mp hstem
        exact ⟨rfl, rfl⟩
  · rintro ⟨⟨rfl, rfl⟩, htoken | hlive⟩
    · exact Or.inr (Or.inr (Or.inl htoken))
    · rcases hkey with rfl | ⟨node, rfl⟩
      · exact Or.inr (Or.inr (Or.inl rfl))
      · exact Or.inr (Or.inr (Or.inr ⟨Key.nodeState_startsWith_iff.mpr ⟨rfl, rfl⟩, hlive⟩))

end Contents.Removed

/-! ### Owners -/

/-- Each token is of a run that is there, and each node state is of some run. -/
structure Contents.Owned (contents : Contents) : Prop where
  tokens : ∀ key : Key, contents.contains key = true → key.family = .workflowToken →
    ∃ program id, key = Key.workflowToken program id ∧ (contents.run? program id).isSome = true
  nodeStates : ∀ key : Key, contents.contains key = true → key.family = .nodeState →
    ∃ program id node, key = Key.nodeState program id node

theorem Operation.Makes.owned {operation : Operation} {snapshot before after : Contents}
    (hmakes : operation.Makes snapshot before after) (hbefore : before.Consistent)
    (howned : before.Owned) : after.Owned := by
  cases hmakes with
  | altered halters =>
    have hgrows := Contents.grows_of_alters halters hbefore
    refine ⟨fun key hlive hfamily ↦ ?_, fun key hlive hfamily ↦ ?_⟩
    · rcases hgrows.owned key (Or.inl hfamily) hlive with hold | ⟨program, id, hkey, hrun⟩
      · obtain ⟨program, id, rfl, hrun⟩ := howned.tokens key hold hfamily
        exact ⟨program, id, rfl, (hgrows.runs program id).present hrun⟩
      · rcases hkey with rfl | ⟨node, rfl⟩
        · exact ⟨program, id, rfl, hrun⟩
        · cases hfamily
    · rcases hgrows.owned key (Or.inr hfamily) hlive with hold | ⟨program, id, hkey, -⟩
      · exact howned.nodeStates key hold hfamily
      · rcases hkey with rfl | ⟨node, rfl⟩
        · cases hfamily
        · exact ⟨program, id, node, rfl⟩
  | removed hremoved =>
    refine ⟨fun key hlive hfamily ↦ ?_, fun key hlive hfamily ↦ ?_⟩
    · obtain ⟨hold, hkept⟩ := hremoved.contains_of_contains hlive
      obtain ⟨program, id, rfl, hrun⟩ := howned.tokens key hold hfamily
      refine ⟨program, id, rfl, ?_⟩
      rw [hremoved.run?_eq, if_neg fun hmem ↦ hkept _ hmem (Or.inr (Or.inr (Or.inl rfl)))]
      exact hrun
    · exact howned.nodeStates key (hremoved.contains_of_contains hlive).1 hfamily

/-! ### Node states without a run -/

/-- A removal of runs that committed at a place took away a run without one of its node states,
which was there but not on the snapshot. -/
def Overlooked (history : List (Commit Operation Reply)) (place : Nat) (program : ProgramId)
    (id : RunId) (node : String) : Prop :=
  ∃ commit, Removes history place commit program id ∧
    (contentsAfter history place).contains (Key.nodeState program id node) = true ∧
    (contentsAfter history commit.snapshot).contains (Key.nodeState program id node) = false

theorem Overlooked.lt_length {history : List (Commit Operation Reply)} {place : Nat}
    {program : ProgramId} {id : RunId} {node : String}
    (hoverlooked : Overlooked history place program id node) : place < history.length := by
  obtain ⟨commit, hremoves, -⟩ := hoverlooked
  exact (List.getElem?_eq_some_iff.mp hremoves.found).1

section

variable {operation : Operation} {snapshot before after : Contents} {program : ProgramId}
  {id : RunId} {node : String}

/-- A node state that has no run behind a commit had none before it, or the commit is a removal that
has overlooked it. -/
theorem Operation.Makes.of_orphaned (hmakes : operation.Makes snapshot before after)
    (hbefore : before.Consistent)
    (hlive : after.contains (Key.nodeState program id node) = true)
    (hrun : (after.run? program id).isSome = false) :
    before.contains (Key.nodeState program id node) = true ∧
      ((before.run? program id).isSome = false ∨
        ∃ scope size, operation = .removeRuns scope size ∧ scope.contains program = true ∧
          snapshot.contains (Key.nodeState program id node) = false) := by
  have hkey : (Key.nodeState program id node).IsProgressOf program id := Or.inr ⟨node, rfl⟩
  cases hmakes with
  | altered halters =>
    have hgrows := Contents.grows_of_alters halters hbefore
    constructor
    · rcases hgrows.owned _ hkey.isProgress hlive with hold | ⟨other, otherId, hother, hthere⟩
      · exact hold
      · obtain ⟨rfl, rfl⟩ := Key.isProgressOf_inj hkey hother
        rw [hrun] at hthere
        cases hthere
    · refine Or.inl (Bool.eq_false_iff.mpr fun hthere ↦ ?_)
      rw [(hgrows.runs program id).present hthere] at hrun
      cases hrun
  | @removed scope size _ hremoved =>
    obtain ⟨hold, hkept⟩ := hremoved.contains_of_contains hlive
    refine ⟨hold, ?_⟩
    by_cases hmem : (program, id) ∈ Runs.batch snapshot scope size
    · refine Or.inr ⟨scope, size, rfl, (hremoved.held _ hmem).1, Bool.eq_false_iff.mpr ?_⟩
      intro hseen
      exact hkept _ hmem ((Contents.Removed.belongs_progress hkey).mpr ⟨⟨rfl, rfl⟩, Or.inr hseen⟩)
    · rw [hremoved.run?_eq, if_neg hmem] at hrun
      exact Or.inl hrun

/-- A node state without a run stays. -/
theorem Operation.Makes.orphaned (hmakes : operation.Makes snapshot before after)
    (hbefore : before.Consistent)
    (hlive : before.contains (Key.nodeState program id node) = true)
    (hunseen : (before.run? program id).isSome = false ∨
      snapshot.contains (Key.nodeState program id node) = false) :
    after.contains (Key.nodeState program id node) = true := by
  have hkey : (Key.nodeState program id node).IsProgressOf program id := Or.inr ⟨node, rfl⟩
  cases hmakes with
  | altered halters =>
    exact (Contents.grows_of_alters halters hbefore).kept _ hkey.isProgress hlive
  | removed hremoved =>
    rw [SortedMap.contains_eq, hremoved.kept]
    · exact hlive
    · rintro run hmem hbelongs
      obtain ⟨⟨rfl, rfl⟩, htoken | hseen⟩ := (Contents.Removed.belongs_progress hkey).mp hbelongs
      · cases congrArg Key.family htoken
      · rcases hunseen with hrun | hunseen
        · obtain ⟨-, record, hholds, hprogram, hid⟩ := hremoved.held run hmem
          rw [← hprogram, ← hid, Contents.run?_of_holds hholds] at hrun
          cases hrun
        · rw [hseen] at hunseen
          cases hunseen

end

variable {failsRead failsWrite : Nat → Bool} {system : System Operation Reply}

theorem System.Sound.owned (hsound : system.Sound Operation.program failsRead failsWrite)
    (count : Nat) : (contentsAfter system.history count).Owned :=
  contentsAfter_induction
    ⟨fun _ hlive ↦ (by cases hlive), fun _ hlive ↦ (by cases hlive)⟩
    (fun place commit hcommit hearlier ↦ (hsound.makes hcommit).owned (hsound.consistent place)
      (hearlier place (Nat.le_refl place))) count

/-- After some commits, a node state has no run exactly if a removal has overlooked it and its run
has not been there since. -/
theorem System.Sound.orphaned_iff (hsound : system.Sound Operation.program failsRead failsWrite)
    (program : ProgramId) (id : RunId) (node : String) {count : Nat}
    (hcount : count ≤ system.history.length) :
    ((contentsAfter system.history count).contains (Key.nodeState program id node) = true ∧
        (contentsAfter system.history count).contains (Key.run program id) = false) ↔
      ∃ place, Overlooked system.history place program id node ∧ place < count ∧
        ∀ later, place < later → later ≤ count →
          (contentsAfter system.history later).contains (Key.run program id) = false := by
  induction count with
  | zero =>
    constructor
    · rintro ⟨hlive, -⟩
      cases hlive
    · rintro ⟨place, -, hplace, -⟩
      exact absurd hplace (Nat.not_lt_zero place)
  | succ count ih =>
    replace ih := ih (Nat.le_of_succ_le hcount)
    obtain ⟨commit, hcommit⟩ : ∃ commit, system.history[count]? = some commit :=
      ⟨_, List.getElem?_eq_getElem hcount⟩
    have hmakes := hsound.makes hcommit
    have hbefore := hsound.consistent count
    have hafter := hsound.consistent (count + 1)
    constructor
    · rintro ⟨hlive, hrun⟩
      have hdead := hrun
      rw [hafter.contains_run] at hdead
      obtain ⟨hold, hdead | ⟨scope, size, hoperation, hscope, hunseen⟩⟩ :=
        hmakes.of_orphaned hbefore hlive hdead
      · rw [← hbefore.contains_run] at hdead
        obtain ⟨place, hoverlooked, hplace, hsince⟩ := ih.mp ⟨hold, hdead⟩
        refine ⟨place, hoverlooked, Nat.lt_succ_of_lt hplace, fun later hfirst hlast ↦ ?_⟩
        rcases Nat.le_succ_iff.mp hlast with hearlier | rfl
        · exact hsince later hfirst hearlier
        · exact hrun
      · cases hthere : (contentsAfter system.history count).contains (Key.run program id) with
        | true =>
          refine ⟨count, ⟨commit, ⟨hcommit, ⟨scope, size, hoperation, hscope⟩, hthere, hrun⟩, hold,
            hunseen⟩, Nat.lt_succ_self count, fun later hfirst hlast ↦ ?_⟩
          rwa [Nat.le_antisymm hlast hfirst]
        | false =>
          obtain ⟨place, hoverlooked, hplace, hsince⟩ := ih.mp ⟨hold, hthere⟩
          refine ⟨place, hoverlooked, Nat.lt_succ_of_lt hplace, fun later hfirst hlast ↦ ?_⟩
          rcases Nat.le_succ_iff.mp hlast with hearlier | rfl
          · exact hsince later hfirst hearlier
          · exact hrun
    · rintro ⟨place, hoverlooked, hplace, hsince⟩
      refine ⟨?_, hsince (count + 1) hplace (Nat.le_refl _)⟩
      rcases Nat.lt_succ_iff_lt_or_eq.mp hplace with hearlier | rfl
      · obtain ⟨hlive, hrun⟩ := ih.mpr ⟨place, hoverlooked, hearlier, fun later hfirst hlast ↦
          hsince later hfirst (Nat.le_succ_of_le hlast)⟩
        rw [hbefore.contains_run] at hrun
        exact hmakes.orphaned hbefore hlive (Or.inl hrun)
      · obtain ⟨removal, hremoves, hlive, hunseen⟩ := hoverlooked
        obtain rfl : commit = removal := Option.some.inj (hcommit.symm.trans hremoves.found)
        exact hmakes.orphaned hbefore hlive (Or.inr hunseen)

/-- In every state of every interleaving: each live token is of a run whose record is live; each
live node state is of some run, and the record of that run is live unless a removal has overlooked
the node state and the run has not been started again since. -/
theorem progress_owned_iff (failsRead failsWrite : Nat → Bool) (config : Config)
    (events : List (Event Operation)) :
    let system := (System.initial failsRead failsWrite config).run Operation.program events
    let live := system.database.substrate.store.live
    (∀ key, live.contains key = true → key.family = .workflowToken →
      ∃ program id, key = Key.workflowToken program id ∧
        live.contains (Key.run program id) = true) ∧
    (∀ key, live.contains key = true → key.family = .nodeState →
      ∃ program id node, key = Key.nodeState program id node) ∧
    ∀ program id node,
      (live.contains (Key.nodeState program id node) = true ∧
        live.contains (Key.run program id) = false) ↔
      ∃ place, Overlooked system.history place program id node ∧
        ∀ later, place < later → later ≤ system.history.length →
          (contentsAfter system.history later).contains (Key.run program id) = false := by
  intro system live
  have hsound : system.Sound Operation.program failsRead failsWrite :=
    System.sound_run Operation.program failsRead failsWrite config events
  have hlive : live = contentsAfter system.history system.history.length := hsound.live
  have howned := hsound.owned system.history.length
  have hconsistent := hsound.consistent system.history.length
  rw [← hlive] at howned hconsistent
  refine ⟨fun key hkey hfamily ↦ ?_, howned.nodeStates, fun program id node ↦ ?_⟩
  · obtain ⟨program, id, rfl, hrun⟩ := howned.tokens key hkey hfamily
    exact ⟨program, id, rfl, (hconsistent.contains_run program id).trans hrun⟩
  · rw [hlive, hsound.orphaned_iff program id node (Nat.le_refl _)]
    constructor
    · rintro ⟨place, hoverlooked, -, hsince⟩
      exact ⟨place, hoverlooked, hsince⟩
    · rintro ⟨place, hoverlooked, hsince⟩
      exact ⟨place, hoverlooked, hoverlooked.lt_length, hsince⟩

/-! ### A removal that is overtaken -/

/-- A workflow run is started; a removal of its namespace makes all its calls; a node state is
written and committed; the removal is committed. -/
def overtakenRemoval : List (Event Operation) :=
  .begin (.start ⟨nightly, firstNight, 1000, none, ∅, ∅⟩) :: List.replicate 3 (.call 0) ++
    [.conclude 0, .drop 0, .begin (.removeRuns (.wholeNamespace "default") 9)] ++
    List.replicate 9 (.call 1) ++
    [.begin (.putNodeState nightly firstNight ⟨"n", .running, none, none⟩), .call 2, .call 2,
      .conclude 2, .drop 2, .conclude 1, .drop 1]

/-- Behind an overtaken removal the node state is live and its run is not. -/
theorem orphaned_overtakenRemoval :
    let live := (System.reliably Operation.program overtakenRemoval).database.substrate.store.live
    live.contains (Key.nodeState nightly firstNight "n") = true ∧
      live.contains (Key.run nightly firstNight) = false := by
  decide +kernel

end RunLedger
