import RunLedger.Proofs.Key.Exactness
import RunLedger.Proofs.Ledger.Progress

/-!
# Orderly contents

Contents are orderly (`Contents.Orderly`) if every key in them is of an entry and all entries of a
run come with its record: records and index entries go together, tokens and node states are of runs
that are there. What the commits of a ledger make is orderly as far as no node state has lost its
run (`System.Sound.orderly`): of the family of summaries, operations write keys of summaries alone.

A key is in a scope if an entry of a program in the scope lies under it (`Key.IsIn`). In orderly
contents the records of a scope are the rows that its stem finds (`Orderly.lists_runs`), and so are
its summaries (`Orderly.lists_summaries`). Contents without either hold nothing in the scope
(`Orderly.contains_eq_false`).
-/

set_option autoImplicit false

namespace RunLedger

/-- Every entry is of a run that is there, summaries apart, and every key is of an entry. -/
structure Contents.Orderly (contents : Contents) : Prop where
  consistent : contents.Consistent
  progress : ∀ key : Key, contents.contains key = true → key.IsProgress →
    ∃ program id, key.IsProgressOf program id ∧ contents.contains (Key.run program id) = true
  summaries : ∀ key : Key, contents.contains key = true → key.family = .workflowRun →
    ∃ workflow id, key = Key.workflowRun workflow id

/-! ### What commits make -/

/-- A key holds a value behind some calls only if it held it before or a call put it. -/
theorem get?_or_put_of_effectOf {calls : List Call} {contents : Contents} {key : Key} {value : Value}
    (hvalue : (effectOf calls contents).get? key = some value) :
    contents.get? key = some value ∨ Call.put key value ∈ calls := by
  induction calls generalizing contents with
  | nil => exact Or.inl hvalue
  | cons call rest ih =>
    rcases ih hvalue with hfirst | hput
    · by_cases hchanged : call.changed? = some key
      · cases call with
        | put written other =>
          obtain rfl := Option.some.inj hchanged
          rw [Call.effect, Contents.get?_insert, if_pos rfl] at hfirst
          exact Or.inr (Option.some.inj hfirst ▸ List.mem_cons_self)
        | deleted erased =>
          obtain rfl := Option.some.inj hchanged
          rw [Call.effect, Contents.get?_erase, if_pos rfl] at hfirst
          cases hfirst
        | got | scannedStem | scannedRange | refused => cases hchanged
      · rw [call.get?_effect contents hchanged] at hfirst
        exact Or.inl hfirst
    · exact Or.inr (List.mem_cons_of_mem _ hput)

/-- A key is there behind some calls only if it was there before or a call put it. -/
theorem contains_effectOf {calls : List Call} {contents : Contents} {key : Key}
    (hkey : (effectOf calls contents).contains key = true) :
    contents.contains key = true ∨ ∃ value, Call.put key value ∈ calls := by
  obtain ⟨value, hvalue⟩ := Option.isSome_iff_exists.mp hkey
  refine (get?_or_put_of_effectOf hvalue).imp (fun hbefore ↦ ?_) fun hput ↦ ⟨value, hput⟩
  exact Option.isSome_iff_exists.mpr ⟨value, hbefore⟩

section

variable {failsRead failsWrite : Nat → Bool} {system : System Operation Reply}

/-- A removal puts nothing. -/
theorem Commit.Sound.not_put_of_isRemoval {history : List (Commit Operation Reply)} {place : Nat}
    {commit : Commit Operation Reply}
    (hsound : commit.Sound Operation.program failsRead history place)
    (hsnapshot : (contentsAfter history commit.snapshot).Consistent)
    (hremoval : commit.operation.IsRemoval) (key : Key) (value : Value) :
    Call.put key value ∉ commit.calls := by
  have hcourse := Script.perform_eq_of_leads hsound.course.leads hsound.course.truthful
    (commit.operation.plain_program.unrefused hsound.course.leads)
  obtain ⟨operation, snapshot, calls, result⟩ := commit
  cases operation with
  | removeRuns scope size =>
    have herases := Runs.erases_removeBatch hsnapshot scope size
    simp only [Operation.program, Script.perform_map] at hcourse
    exact fun hput ↦ absurd (congrArg Performance.calls hcourse ▸ hput) (herases.writeFree key value)
  | removeSummaries scope size =>
    have herases := Summaries.erases_removeBatch scope size (contentsAfter history snapshot)
    simp only [Operation.program, Script.perform_map] at hcourse
    exact fun hput ↦ absurd (congrArg Performance.calls hcourse ▸ hput) (herases.writeFree key value)
  | _ => exact hremoval.elim

/-- Of the family of summaries, a commit puts keys of summaries alone. -/
theorem Commit.Sound.workflowRun_of_put {history : List (Commit Operation Reply)} {place : Nat}
    {commit : Commit Operation Reply}
    (hsound : commit.Sound Operation.program failsRead history place)
    (hsnapshot : (contentsAfter history commit.snapshot).Consistent) {key : Key} {value : Value}
    (hput : Call.put key value ∈ commit.calls) (hfamily : key.family = .workflowRun) :
    ∃ workflow id, key = Key.workflowRun workflow id := by
  have hplain := commit.operation.plain_program
  rcases ((hplain.calls hsound.course.leads).1 _ hput).changes key rfl with hremoval | hsummary
  · exact absurd hput (hsound.not_put_of_isRemoval hsnapshot hremoval key value)
  · obtain ⟨workflow, id, other, -, hkey⟩ := hsummary hfamily
    exact ⟨workflow, other, hkey⟩

/-- Live summaries lie under keys of summaries. -/
theorem System.Sound.summaries (hsound : system.Sound Operation.program failsRead failsWrite)
    (count : Nat) {key : Key} (hlive : (contentsAfter system.history count).contains key = true)
    (hfamily : key.family = .workflowRun) : ∃ workflow id, key = Key.workflowRun workflow id := by
  let named (contents : Contents) : Prop :=
    contents.contains key = true → ∃ workflow id, key = Key.workflowRun workflow id
  have hnamed : named (contentsAfter system.history count) := by
    refine @contentsAfter_induction _ _ _ named (fun hempty ↦ nomatch hempty)
      (fun place commit hcommit hearlier hafter ↦ ?_) count
    rw [contentsAfter_succ hcommit] at hafter
    rcases contains_effectOf hafter with hold | ⟨value, hput⟩
    · exact hearlier place (Nat.le_refl place) hold
    · exact (hsound.commits place commit hcommit).workflowRun_of_put (hsound.consistent _) hput
        hfamily
  exact hnamed hlive

/-- Tokens and node states are of runs that are there. -/
def Contents.Attached (contents : Contents) : Prop :=
  ∀ program id (key : Key), key.IsProgressOf program id → contents.contains key = true →
    contents.contains (Key.run program id) = true

/-- What commits make is orderly, unless node states have lost their runs. -/
theorem System.Sound.orderly (hsound : system.Sound Operation.program failsRead failsWrite)
    {count : Nat} (hattached : (contentsAfter system.history count).Attached) :
    (contentsAfter system.history count).Orderly := by
  refine ⟨hsound.consistent count, fun key hlive hkey ↦ ?_, fun key hlive hfamily ↦
    hsound.summaries count hlive hfamily⟩
  have howned := hsound.owned count
  rcases hkey with hfamily | hfamily
  · obtain ⟨program, id, rfl, -⟩ := howned.tokens key hlive hfamily
    exact ⟨program, id, Or.inl rfl, hattached program id _ (Or.inl rfl) hlive⟩
  · obtain ⟨program, id, node, rfl⟩ := howned.nodeStates key hlive hfamily
    exact ⟨program, id, Or.inr ⟨node, rfl⟩, hattached program id _ (Or.inr ⟨node, rfl⟩) hlive⟩

end

/-! ### Scopes -/

/-- The program that an entry is of. -/
def Entry.program : Entry → ProgramId
  | record program _ | indexed _ program _ => program
  | nodeState workflow _ _ | token workflow _ | summary workflow _ => workflow

/-- The key is of an entry of a program in a scope. -/
def Key.IsIn (scope : Scope) (key : Key) : Prop :=
  ∃ entry : Entry, key = entry.key ∧ scope.contains entry.program = true

/-- The keys of a family that are there and in a scope, each once. -/
structure Contents.Lists (contents : Contents) (family : Family) (scope : Scope)
    (keys : List Key) : Prop where
  nodup : keys.Nodup
  mem_iff : ∀ key, key ∈ keys ↔
    contents.contains key = true ∧ key.family = family ∧ key.IsIn scope

/-- The rows under the keys that begin as a stem. -/
def Contents.rowsUnder (contents : Contents) (stem : Key) : List (Key × Value) :=
  (contents.filter fun key _ ↦ key.startsWith stem).toList

theorem Contents.mem_keys_rowsUnder (contents : Contents) (stem key : Key) :
    key ∈ (contents.rowsUnder stem).map Prod.fst ↔
      key.startsWith stem = true ∧ contents.contains key = true := by
  refine (SortedMap.mem_keys_iff (contents.filter fun key _ ↦ key.startsWith stem) key).trans ?_
  rw [SortedMap.contains_filter_key, Bool.and_eq_true]

namespace Contents.Orderly

variable {contents : Contents} {scope : Scope}

/-- The keys under the stem of a family are those in the scope, if all keys of the family are. -/
theorem lists_of_stem {family : Family} {stem : Key} (hfamily : stem.family = family)
    (hlive : ∀ key, contents.contains key = true → key.family = family →
      (key.startsWith stem = true ↔ key.IsIn scope)) :
    contents.Lists family scope ((contents.rowsUnder stem).map Prod.fst) := by
  refine ⟨SortedMap.nodup_keys _, fun key ↦ ?_⟩
  rw [mem_keys_rowsUnder]
  constructor
  · rintro ⟨hstem, hthere⟩
    have hsame : key.family = family := (Key.startsWith_iff.mp hstem).1.trans hfamily
    exact ⟨hthere, hsame, (hlive key hthere hsame).mp hstem⟩
  · rintro ⟨hthere, hsame, hscope⟩
    exact ⟨(hlive key hthere hsame).mpr hscope, hthere⟩

/-- The rows of records that a scope's stem finds are those of the records in the scope. -/
theorem lists_runs (horderly : contents.Orderly) :
    contents.Lists .run scope ((contents.rowsUnder (Key.runsInScope scope)).map Prod.fst) := by
  refine lists_of_stem rfl fun key hthere hfamily ↦ ⟨fun hstem ↦ ?_, ?_⟩
  · obtain ⟨value, hvalue⟩ := Option.isSome_iff_exists.mp hthere
    obtain ⟨record, rfl, -⟩ := horderly.consistent.records key value hvalue hfamily
    exact ⟨.record record.program record.id, rfl, Key.run_startsWith_iff.mp hstem⟩
  · rintro ⟨entry, rfl, hscope⟩
    cases entry with
    | record program id => exact Key.run_startsWith_iff.mpr hscope
    | _ => cases hfamily

/-- The rows of summaries that a scope's stem finds are those of the summaries in the scope. -/
theorem lists_summaries (horderly : contents.Orderly) :
    contents.Lists .workflowRun scope
      ((contents.rowsUnder (Key.workflowRunsInScope scope)).map Prod.fst) := by
  refine lists_of_stem rfl fun key hthere hfamily ↦ ⟨fun hstem ↦ ?_, ?_⟩
  · obtain ⟨workflow, id, rfl⟩ := horderly.summaries key hthere hfamily
    exact ⟨.summary workflow id, rfl, Key.workflowRun_startsWith_iff.mp hstem⟩
  · rintro ⟨entry, rfl, hscope⟩
    cases entry with
    | summary workflow id => exact Key.workflowRun_startsWith_iff.mpr hscope
    | _ => cases hfamily

/-- Without records and summaries of a scope nothing is there in it. -/
theorem contains_eq_false (horderly : contents.Orderly)
    (hruns : contents.rowsUnder (Key.runsInScope scope) = [])
    (hsummaries : contents.rowsUnder (Key.workflowRunsInScope scope) = []) {key : Key}
    (hkey : key.IsIn scope) : contents.contains key = false := by
  have hnoRun {program : ProgramId} (id : RunId) (hscope : scope.contains program = true) :
      contents.contains (Key.run program id) ≠ true := fun hrun ↦ by
    have hmem := (contents.mem_keys_rowsUnder _ _).mpr ⟨Key.run_startsWith_iff.mpr hscope, hrun⟩
    rw [hruns] at hmem
    cases hmem
  have hnoProgress {program : ProgramId} {id : RunId} {key : Key}
      (hkey : key.IsProgressOf program id) (hscope : scope.contains program = true) :
      contents.contains key ≠ true := fun hthere ↦ by
    obtain ⟨owner, ownerId, howner, hrun⟩ := horderly.progress key hthere hkey.isProgress
    obtain ⟨rfl, rfl⟩ := Key.isProgressOf_inj hkey howner
    exact hnoRun _ hscope hrun
  rw [Bool.eq_false_iff]
  obtain ⟨entry, rfl, hscope⟩ := hkey
  cases entry with
  | record program id => exact hnoRun id hscope
  | indexed status program id =>
    intro hthere
    obtain ⟨value, hvalue⟩ := Option.isSome_iff_exists.mp hthere
    obtain ⟨record, hrecord, hkey, -⟩ := horderly.consistent.entries _ value hvalue rfl
    obtain ⟨-, rfl, rfl⟩ := Key.statusIndex_inj hkey
    exact hnoRun _ hscope (Option.isSome_iff_exists.mpr ⟨_, hrecord⟩)
  | nodeState workflow id node => exact hnoProgress (Or.inr ⟨node, rfl⟩) hscope
  | token workflow id => exact hnoProgress (Or.inl rfl) hscope
  | summary workflow id =>
    intro hthere
    have hmem := (contents.mem_keys_rowsUnder _ _).mpr
      ⟨Key.workflowRun_startsWith_iff.mpr hscope, hthere⟩
    rw [hsummaries] at hmem
    cases hmem

end Contents.Orderly

end RunLedger
