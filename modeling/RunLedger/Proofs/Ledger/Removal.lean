import RunLedger.Proofs.Ledger.Lifecycle

/-!
# What a removal erases

A removal batch takes the first runs of a scope from its snapshot (`Runs.batch`) and erases for each
of them what belongs to it (`Contents.Belongs`): the record, the entries of the status index and the
token, whose keys are computed from the run, and the node states, whose keys are those that the
snapshot holds. When the batch commits, it erases these keys from the contents it meets then
(`Contents.Removed`). The records it took are still there (`Runs.removed_of_calls`), but node states
written since the snapshot are not among the keys, and stay.
-/

set_option autoImplicit false

namespace RunLedger

/-! ### Calls that erase -/

/-- No call writes. -/
def WriteFree (calls : List Call) : Prop := ∀ key value, Call.put key value ∉ calls

theorem WriteFree.append {first second : List Call} (hfirst : WriteFree first)
    (hsecond : WriteFree second) : WriteFree (first ++ second) := fun key value hmem ↦
  (List.mem_append.mp hmem).elim (hfirst key value) (hsecond key value)

theorem writeFree_deleted (keys : List Key) : WriteFree (keys.map .deleted) := by
  intro key value hmem
  obtain ⟨other, -, hequal⟩ := List.mem_map.mp hmem
  cases hequal

theorem changed_deleted {keys : List Key} {key : Key} :
    Changed (keys.map .deleted) key ↔ key ∈ keys := by
  constructor
  · rintro ⟨call, hcall, hchanged⟩
    obtain ⟨other, hother, rfl⟩ := List.mem_map.mp hcall
    exact Option.some.inj hchanged ▸ hother
  · intro hmem
    exact ⟨.deleted key, List.mem_map_of_mem hmem, rfl⟩

/-- What calls change without writing is gone behind them. -/
theorem get?_effectOf_of_writeFree {calls : List Call} (hwrites : WriteFree calls) {key : Key}
    (hkey : Changed calls key) (contents : Contents) :
    (effectOf calls contents).get? key = none := by
  induction calls generalizing contents with
  | nil =>
    obtain ⟨call, hcall, -⟩ := hkey
    cases hcall
  | cons call rest ih =>
    have hrest : WriteFree rest := fun other value hmem ↦
      hwrites other value (List.mem_cons_of_mem _ hmem)
    by_cases hlater : Changed rest key
    · exact ih hrest hlater (call.effect contents)
    · refine (get?_effectOf hlater (call.effect contents)).trans ?_
      obtain ⟨other, hother, hchanged⟩ := hkey
      rcases List.mem_cons.mp hother with rfl | hmem
      · cases other with
        | deleted erased =>
          obtain rfl := Option.some.inj hchanged
          rw [Call.effect, Contents.get?_erase, if_pos rfl]
        | put written value => exact absurd List.mem_cons_self (hwrites written value)
        | got | scannedStem | scannedRange | refused => cases hchanged
      · exact absurd ⟨other, hmem, hchanged⟩ hlater

theorem contains_effectOf_of_writeFree {calls : List Call} (hwrites : WriteFree calls)
    (contents : Contents) (key : Key) :
    (effectOf calls contents).contains key = true ↔
      contents.contains key = true ∧ ¬ Changed calls key := by
  by_cases hkey : Changed calls key
  · simp [SortedMap.contains_eq, get?_effectOf_of_writeFree hwrites hkey, hkey]
  · simp [SortedMap.contains_eq, get?_effectOf hkey, hkey]

/-! ### What belongs to a run -/

/-- The key is of the record, an index entry, the token or a node state of a run; of the node
states, those that the contents hold. -/
def Contents.Belongs (contents : Contents) (program : ProgramId) (id : RunId) (key : Key) : Prop :=
  key = Key.run program id ∨ (∃ status, key = Key.statusIndex status program id) ∨
    key = Key.workflowToken program id ∨
      (key.startsWith (Key.nodeStatesOfRun program id) = true ∧ contents.contains key = true)

namespace Runs

open Script

/-- A script succeeds on contents and changes some keys, all of them by erasing. -/
structure Erases {α : Type} (script : Script α) (contents : Contents) (result : α)
    (erased : Key → Prop) : Prop where
  outcome : (script.perform contents).outcome = .ok result
  writeFree : WriteFree (script.perform contents).calls
  changed : ∀ key, Changed (script.perform contents).calls key ↔ erased key

section

variable {α β : Type} {script : Script α} {contents : Contents} {result : α} {erased : Key → Prop}

theorem Erases.contains (herases : Erases script contents result erased) (key : Key) :
    (script.perform contents).contents.contains key = true ↔
      contents.contains key = true ∧ ¬ erased key := by
  obtain ⟨-, -, heffect⟩ := leads_perform script contents
  rw [heffect, contains_effectOf_of_writeFree herases.writeFree, herases.changed]

theorem Erases.get?_eq_none (herases : Erases script contents result erased) {key : Key}
    (hkey : erased key) : (script.perform contents).contents.get? key = none := by
  obtain ⟨-, -, heffect⟩ := leads_perform script contents
  rw [heffect]
  exact get?_effectOf_of_writeFree herases.writeFree ((herases.changed key).mpr hkey) contents

theorem Erases.get?_eq (herases : Erases script contents result erased) {key : Key}
    (hkey : ¬ erased key) :
    (script.perform contents).contents.get? key = contents.get? key := by
  obtain ⟨-, -, heffect⟩ := leads_perform script contents
  rw [heffect]
  exact get?_effectOf (mt (herases.changed key).mp hkey) contents

theorem Erases.bind (herases : Erases script contents result erased) {next : α → Script β}
    {reply : β} {more : Key → Prop}
    (hnext : Erases (next result) (script.perform contents).contents reply more) :
    Erases (script >>= next) contents reply fun key ↦ erased key ∨ more key := by
  have hperform : (script >>= next).perform contents =
      ⟨.ok reply, ((next result).perform (script.perform contents).contents).contents,
        (script.perform contents).calls ++
          ((next result).perform (script.perform contents).contents).calls⟩ := by
    simp only [perform_bind, Performance.andThen, herases.outcome, hnext.outcome]
  refine ⟨?_, ?_, fun key ↦ ?_⟩
  · rw [hperform]
  · rw [hperform]
    exact herases.writeFree.append hnext.writeFree
  · rw [hperform, changed_append, herases.changed, hnext.changed]

theorem Erases.congr (herases : Erases script contents result erased) {other : Key → Prop}
    (hsame : ∀ key, erased key ↔ other key) : Erases script contents result other :=
  ⟨herases.outcome, herases.writeFree, fun key ↦ (herases.changed key).trans (hsame key)⟩

end

theorem erases_pure {α : Type} (result : α) (contents : Contents) :
    Erases (pure result) contents result fun _ ↦ False :=
  ⟨rfl, fun _ _ ↦ List.not_mem_nil, fun _ ↦ ⟨fun ⟨_, hcall, _⟩ ↦ (nomatch hcall), False.elim⟩⟩

theorem erases_readStem (stem : Key) (contents : Contents) :
    Erases (readStem stem) contents (contents.filter fun key _ ↦ key.startsWith stem).toList
      fun _ ↦ False := by
  refine ⟨rfl, fun key value hmem ↦ ?_, fun key ↦ ⟨?_, False.elim⟩⟩
  · cases hmem with
    | tail _ hmem => cases hmem
  · rintro ⟨call, hcall, hchanged⟩
    obtain rfl := List.mem_singleton.mp hcall
    cases hchanged

theorem erases_erase (key : Key) (contents : Contents) :
    Erases (erase key) contents () fun other ↦ other = key :=
  ⟨rfl, writeFree_deleted [key], fun other ↦ (@changed_deleted [key] other).trans
    List.mem_singleton⟩

theorem erases_eraseAll (keys : List Key) (contents : Contents) :
    Erases (eraseAll keys) contents () fun key ↦ key ∈ keys := by
  induction keys generalizing contents with
  | nil => exact (erases_pure () contents).congr fun key ↦ by simp
  | cons key rest ih =>
    exact ((erases_erase key contents).bind (ih _)).congr fun other ↦ List.mem_cons.symm

/-- The row of a run is removed with what belongs to the run. -/
theorem erases_removeRow (program : ProgramId) (id : RunId) (contents : Contents) :
    Erases (removeRow (Key.run program id)) contents () (contents.Belongs program id) := by
  have hscript : removeRow (Key.run program id) =
      eraseAll (RunStatus.all.map fun status ↦ Key.statusIndex status program id) >>= fun _ ↦
        readStem (Key.nodeStatesOfRun program id) >>= fun states ↦
          eraseAll (states.map Prod.fst) >>= fun _ ↦
            erase (Key.workflowToken program id) >>= fun _ ↦ erase (Key.run program id) := by
    unfold removeRow
    rw [Key.decodeRun_run]
  have hentries := erases_eraseAll
    (RunStatus.all.map fun status ↦ Key.statusIndex status program id) contents
  rw [hscript]
  refine (hentries.bind ((erases_readStem _ _).bind ((erases_eraseAll _ _).bind
    ((erases_erase _ _).bind (erases_erase _ _))))).congr fun key ↦ ?_
  have hindex : key ∈ RunStatus.all.map (fun status ↦ Key.statusIndex status program id) ↔
      ∃ status, key = Key.statusIndex status program id := by
    simp [RunStatus.mem_all, eq_comm]
  have hstates : key ∈ ((((eraseAll (RunStatus.all.map fun status ↦
        Key.statusIndex status program id)).perform contents).contents.filter fun key _ ↦
          key.startsWith (Key.nodeStatesOfRun program id)).toList.map Prod.fst) ↔
      key.startsWith (Key.nodeStatesOfRun program id) = true ∧ contents.contains key = true := by
    refine (SortedMap.mem_keys_iff _ key).trans ?_
    rw [SortedMap.contains_filter_key, Bool.and_eq_true]
    refine and_congr_right fun hstem ↦ ((hentries.contains key).trans (and_iff_left ?_))
    rw [hindex]
    rintro ⟨status, rfl⟩
    cases hstem
  rw [hindex, hstates]
  unfold Contents.Belongs
  grind

/-- Rows of runs are removed with what belongs to the runs. -/
theorem erases_removeRows (runs : List (ProgramId × RunId)) (contents : Contents) :
    Erases (removeRows (runs.map fun run ↦ Key.run run.1 run.2)) contents ()
      fun key ↦ ∃ run ∈ runs, contents.Belongs run.1 run.2 key := by
  induction runs generalizing contents with
  | nil => exact (erases_pure () contents).congr fun key ↦ by simp
  | cons run rest ih =>
    have hfirst := erases_removeRow run.1 run.2 contents
    refine (hfirst.bind (ih _)).congr fun key ↦ ?_
    -- What the first row leaves of the node states of another run is what there was, unless it
    -- erased the key itself.
    have hleft (other : ProgramId × RunId) :
        ((removeRow (Key.run run.1 run.2)).perform contents).contents.Belongs other.1 other.2 key →
          contents.Belongs other.1 other.2 key := by
      unfold Contents.Belongs
      rw [hfirst.contains]
      grind
    have hmore (other : ProgramId × RunId) (hbelongs : contents.Belongs other.1 other.2 key)
        (hkey : ¬ contents.Belongs run.1 run.2 key) :
        ((removeRow (Key.run run.1 run.2)).perform contents).contents.Belongs
          other.1 other.2 key := by
      unfold Contents.Belongs at hbelongs ⊢
      rw [hfirst.contains]
      grind
    simp only [List.mem_cons, exists_eq_or_imp]
    constructor
    · rintro (hown | ⟨other, hother, hbelongs⟩)
      · exact Or.inl hown
      · exact Or.inr ⟨other, hother, hleft other hbelongs⟩
    · rintro (hown | ⟨other, hother, hbelongs⟩)
      · exact Or.inl hown
      · by_cases hkey : contents.Belongs run.1 run.2 key
        · exact Or.inl hkey
        · exact Or.inr ⟨other, hother, hmore other hbelongs hkey⟩

/-! ### Batches -/

/-- The rows of the runs in a scope. -/
def rowsInScope (contents : Contents) (scope : Scope) : List (Key × Value) :=
  (contents.filter fun key _ ↦ key.startsWith (Key.runsInScope scope)).toList

/-- The first runs of a scope, up to a number. -/
def batch (contents : Contents) (scope : Scope) (size : Nat) : List (ProgramId × RunId) :=
  ((rowsInScope contents scope).take size).filterMap fun row ↦ row.1.decodeRun.toOption

variable {contents : Contents} {scope : Scope} {size : Nat}

/-- Each row in a scope is that of a run of a program in the scope. -/
theorem run_of_mem_rowsInScope (hconsistent : contents.Consistent) {row : Key × Value}
    (hrow : row ∈ rowsInScope contents scope) :
    ∃ record : RunRecord, contents.Holds record ∧ scope.contains record.program = true ∧
      row = (Key.run record.program record.id, .ofRecord record) := by
  obtain ⟨key, value⟩ := row
  rw [rowsInScope, SortedMap.mem_toList_iff, SortedMap.get?_filter] at hrow
  obtain ⟨hvalue, hstem⟩ := Option.filter_eq_some_iff.mp hrow
  have hfamily : key.family = .run := (Key.startsWith_iff.mp hstem).1
  obtain ⟨record, rfl, rfl⟩ := hconsistent.records key value hvalue hfamily
  exact ⟨record, hvalue, Key.run_startsWith_iff.mp hstem, rfl⟩

theorem keys_batch (hconsistent : contents.Consistent) (scope : Scope) (size : Nat) :
    ((rowsInScope contents scope).take size).map Prod.fst =
      (batch contents scope size).map fun run ↦ Key.run run.1 run.2 := by
  have hrows (row : Key × Value) (hrow : row ∈ (rowsInScope contents scope).take size) :
      ∃ program id, row.1 = Key.run program id := by
    obtain ⟨record, -, -, rfl⟩ := run_of_mem_rowsInScope hconsistent (List.mem_of_mem_take hrow)
    exact ⟨_, _, rfl⟩
  unfold batch
  generalize (rowsInScope contents scope).take size = rows at hrows
  induction rows with
  | nil => rfl
  | cons row rest ih =>
    obtain ⟨program, id, hkey⟩ := hrows row List.mem_cons_self
    rw [List.map_cons, ih fun other hother ↦ hrows other (List.mem_cons_of_mem _ hother),
      List.filterMap_cons, hkey, Key.decodeRun_run]
    rfl

/-- The runs of a batch are in its scope, and the scan found their rows. -/
theorem mem_batch (hconsistent : contents.Consistent) {program : ProgramId} {id : RunId}
    (hmem : (program, id) ∈ batch contents scope size) :
    ∃ record : RunRecord, contents.Holds record ∧ record.program = program ∧ record.id = id ∧
      scope.contains program = true ∧
      (Key.run program id, .ofRecord record) ∈ rowsInScope contents scope := by
  obtain ⟨row, hrow, hdecode⟩ := List.mem_filterMap.mp hmem
  have hscanned := List.mem_of_mem_take hrow
  obtain ⟨record, hholds, hscope, rfl⟩ := run_of_mem_rowsInScope hconsistent hscanned
  rw [Key.decodeRun_run] at hdecode
  obtain ⟨rfl, rfl⟩ := Prod.mk.inj (Option.some.inj hdecode)
  exact ⟨record, hholds, rfl, rfl, hscope, hscanned⟩

theorem erases_removeBatch (hconsistent : contents.Consistent) (scope : Scope) (size : Nat) :
    Erases (removeBatch scope size) contents (batch contents scope size).length
      fun key ↦ ∃ run ∈ batch contents scope size, contents.Belongs run.1 run.2 key := by
  have hscript : removeBatch scope size =
      readStem (Key.runsInScope scope) >>= fun rows ↦
        removeRows ((rows.take size).map Prod.fst) >>= fun _ ↦
          pure ((rows.take size).map Prod.fst).length := rfl
  have hrows : ((contents.filter fun key _ ↦ key.startsWith (Key.runsInScope scope)).toList.take
      size).map Prod.fst = (batch contents scope size).map fun run ↦ Key.run run.1 run.2 :=
    keys_batch hconsistent scope size
  rw [hscript]
  refine ((erases_readStem (Key.runsInScope scope) contents).bind ?_).congr fun key ↦ by
    rw [false_or]
  rw [hrows, List.length_map]
  refine ((erases_removeRows (batch contents scope size) contents).bind ?_).congr fun key ↦ by
    rw [or_false]
  exact erases_pure _ _

end Runs

/-- What belongs to some runs of a scope has been erased: their records, which a snapshot held and
which were still the same, and of their node states those in the snapshot. -/
structure Contents.Removed (scope : Scope) (runs : List (ProgramId × RunId))
    (snapshot before after : Contents) : Prop where
  held : ∀ run ∈ runs, scope.contains run.1 = true ∧
    ∃ record : RunRecord, before.Holds record ∧ record.program = run.1 ∧ record.id = run.2
  erased : ∀ run ∈ runs, ∀ key, snapshot.Belongs run.1 run.2 key → after.get? key = none
  kept : ∀ key, (∀ run ∈ runs, ¬ snapshot.Belongs run.1 run.2 key) →
    after.get? key = before.get? key

/-- The calls of a removal batch on its snapshot do this to other contents that hold what it took.
-/
theorem Runs.removed_of_calls {snapshot before : Contents} (hconsistent : snapshot.Consistent)
    {scope : Scope} {size : Nat} {calls : List Call}
    (hcalls : ((removeBatch scope size).perform snapshot).calls = calls)
    (hheld : ∀ key found?, Took calls key found? → before.get? key = found?) :
    Contents.Removed scope (batch snapshot scope size) snapshot before
      (effectOf calls before) := by
  have herases := erases_removeBatch hconsistent scope size
  have hwrites := herases.writeFree
  have hchanged := herases.changed
  rw [hcalls] at hwrites hchanged
  obtain ⟨rest, hrest⟩ : ∃ rest, calls =
      .scannedStem (Key.runsInScope scope) (rowsInScope snapshot scope) :: rest :=
    ⟨_, hcalls.symm⟩
  refine ⟨fun run hrun ↦ ?_, fun run hrun key hkey ↦ ?_, fun key hkey ↦ ?_⟩
  · obtain ⟨program, id⟩ := run
    obtain ⟨record, -, rfl, rfl, hscope, hrow⟩ := mem_batch hconsistent hrun
    refine ⟨hscope, record, hheld _ _ ?_, rfl, rfl⟩
    rw [hrest]
    exact took_of_told (List.mem_map.mpr ⟨_, hrow, rfl⟩) rest
  · exact get?_effectOf_of_writeFree hwrites ((hchanged key).mpr ⟨run, hrun, hkey⟩) before
  · refine get?_effectOf (fun hkeyChanged ↦ ?_) before
    obtain ⟨run, hrun, hbelongs⟩ := (hchanged key).mp hkeyChanged
    exact hkey run hrun hbelongs

end RunLedger
