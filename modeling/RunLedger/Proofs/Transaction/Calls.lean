import RunLedger.Proofs.Store.Live
import RunLedger.Transaction.Script

/-!
# What a script does to plain contents

A script can be performed on contents without versions, as if nobody else were there
(`Script.perform`). Each access is a `Call` with its answer; the calls are all that is known of how
a script came to its outcome (`Script.Leads`), and they are truthful if each answer is what the
contents hold behind the earlier calls (`Truthful`). Truthful calls without refusals are those of a
performance (`Script.perform_eq_of_leads`).

What a call tells of a key that no earlier call has changed is taken from the contents and not from
the script itself (`Took`). Calls that scan nothing are settled by what they took: they are truthful
on all other contents that hold the same under those keys (`Truthful.transfer`).
-/

set_option autoImplicit false

namespace RunLedger

/-- An access of a script and its answer. -/
inductive Call where
  | got (key : Key) (found? : Option Value)
  | scannedStem (stem : Key) (rows : List (Key × Value))
  | scannedRange (first last : Key) (rows : List (Key × Value))
  | put (key : Key) (value : Value)
  | deleted (key : Key)
  /-- An access that failed. -/
  | refused (failure : Failure)

namespace Call

/-- What the call tells of keys: the value under a key or that there is none, and the rows of a
scan. -/
def told : Call → List (Key × Option Value)
  | got key found? => [(key, found?)]
  | scannedStem _ rows | scannedRange _ _ rows => rows.map fun row ↦ (row.1, some row.2)
  | put .. | deleted _ | refused _ => []

/-- The key that the call changes, if any. -/
def changed? : Call → Option Key
  | put key _ | deleted key => some key
  | got .. | scannedStem .. | scannedRange .. | refused _ => none

/-- What the call makes of contents. -/
def effect (contents : Contents) : Call → Contents
  | put key value => contents.insert key value
  | deleted key => contents.erase key
  | got .. | scannedStem .. | scannedRange .. | refused _ => contents

/-- Whether the call is a scan. -/
def isScan : Call → Bool
  | scannedStem .. | scannedRange .. => true
  | got .. | put .. | deleted _ | refused _ => false

/-- Whether the call failed. -/
def isRefused : Call → Bool
  | refused _ => true
  | got .. | scannedStem .. | scannedRange .. | put .. | deleted _ => false

/-- Whether the answer of the call is what the contents hold. -/
def IsTrue (contents : Contents) : Call → Prop
  | got key found? => found? = contents.get? key
  | scannedStem stem rows => rows = (contents.filter fun key _ ↦ key.startsWith stem).toList
  | scannedRange first last rows =>
    rows = (contents.filter fun key _ ↦ Key.isBetween first last key).toList
  | put .. | deleted _ | refused _ => True

theorem get?_effect (contents : Contents) (call : Call) {key : Key}
    (hkey : call.changed? ≠ some key) : (call.effect contents).get? key = contents.get? key := by
  cases call with
  | put other value =>
    have hother : key ≠ other := fun hequal ↦ hkey (by rw [hequal]; rfl)
    rw [effect, SortedMap.get?_insert, if_neg (mt Key.compare_eq_iff_eq.mp hother)]
  | deleted other =>
    have hother : other ≠ key := fun hequal ↦ hkey (by rw [hequal]; rfl)
    rw [effect, SortedMap.get?_erase, if_neg (mt Key.compare_eq_iff_eq.mp hother)]
  | _ => rfl

/-- What a key holds behind a call that changes it does not depend on what it held before. -/
theorem get?_effect_of_changed (first second : Contents) {call : Call} {key : Key}
    (hkey : call.changed? = some key) :
    (call.effect first).get? key = (call.effect second).get? key := by
  cases call with
  | put other value =>
    rw [effect, effect, SortedMap.get?_insert, SortedMap.get?_insert,
      if_pos (Key.compare_eq_iff_eq.mpr (Option.some.inj hkey).symm),
      if_pos (Key.compare_eq_iff_eq.mpr (Option.some.inj hkey).symm)]
  | deleted other =>
    rw [effect, effect, SortedMap.get?_erase, SortedMap.get?_erase,
      if_pos (Key.compare_eq_iff_eq.mpr (Option.some.inj hkey)),
      if_pos (Key.compare_eq_iff_eq.mpr (Option.some.inj hkey))]
  | _ => cases hkey

/-- A true answer is what the contents hold under each key it tells of. -/
theorem IsTrue.get?_of_told {contents : Contents} {call : Call} (hcall : call.IsTrue contents)
    {key : Key} {found? : Option Value} (htold : (key, found?) ∈ call.told) :
    contents.get? key = found? := by
  have hrows {keep : Key → Value → Bool} {rows : List (Key × Value)}
      (hrows : rows = (contents.filter keep).toList)
      (hmem : (key, found?) ∈ rows.map fun row ↦ (row.1, some row.2)) :
      contents.get? key = found? := by
    obtain ⟨⟨other, value⟩, hrow, hpair⟩ := List.mem_map.mp hmem
    obtain ⟨rfl, rfl⟩ := Prod.mk.injEq .. ▸ hpair
    rw [hrows, SortedMap.mem_toList_iff, SortedMap.get?_filter] at hrow
    exact (Option.eq_some_of_filter_eq_some hrow)
  cases call with
  | got other held? =>
    obtain ⟨rfl, rfl⟩ : key = other ∧ found? = held? := by simpa [told] using htold
    exact hcall.symm
  | scannedStem stem rows => exact hrows hcall htold
  | scannedRange first last rows => exact hrows hcall htold
  | put | deleted | refused => cases htold

end Call

/-! ### Lists of calls -/

/-- What calls make of contents, one after the other. -/
def effectOf (calls : List Call) (contents : Contents) : Contents :=
  calls.foldl Call.effect contents

/-- Whether a call among several changes a key. -/
def Changed (calls : List Call) (key : Key) : Prop := ∃ call ∈ calls, call.changed? = some key

/-- Calls tell something of a key that none of them had changed before. -/
def Took (calls : List Call) (key : Key) (found? : Option Value) : Prop :=
  ∃ before call after, calls = before ++ call :: after ∧ (key, found?) ∈ call.told ∧
    ¬ Changed before key

/-- The answer of each call is what the contents hold behind the earlier ones. -/
def Truthful (contents : Contents) : List Call → Prop
  | [] => True
  | call :: rest => call.IsTrue contents ∧ Truthful (call.effect contents) rest

/-- No call scans. -/
def ScanFree (calls : List Call) : Prop := ∀ call ∈ calls, call.isScan = false

/-- No call failed. -/
def Unrefused (calls : List Call) : Prop := ∀ call ∈ calls, call.isRefused = false

instance (calls : List Call) : Decidable (ScanFree calls) :=
  inferInstanceAs (Decidable (∀ call ∈ calls, call.isScan = false))

instance (calls : List Call) : Decidable (Unrefused calls) :=
  inferInstanceAs (Decidable (∀ call ∈ calls, call.isRefused = false))

theorem effectOf_append (first second : List Call) (contents : Contents) :
    effectOf (first ++ second) contents = effectOf second (effectOf first contents) :=
  List.foldl_append

theorem not_changed_cons {call : Call} {rest : List Call} {key : Key} :
    ¬ Changed (call :: rest) key ↔ call.changed? ≠ some key ∧ ¬ Changed rest key := by
  simp [Changed]

theorem changed_append {first second : List Call} {key : Key} :
    Changed (first ++ second) key ↔ Changed first key ∨ Changed second key := by
  simp only [Changed, List.mem_append, or_and_right, exists_or]

theorem get?_effectOf {calls : List Call} {key : Key} (hkey : ¬ Changed calls key)
    (contents : Contents) : (effectOf calls contents).get? key = contents.get? key := by
  induction calls generalizing contents with
  | nil => rfl
  | cons call rest ih =>
    obtain ⟨hcall, hrest⟩ := not_changed_cons.mp hkey
    exact (ih hrest (call.effect contents)).trans (call.get?_effect contents hcall)

/-- What a key holds behind calls that change it does not depend on what it held before. -/
theorem get?_effectOf_of_changed {calls : List Call} {key : Key} (hkey : Changed calls key)
    (first second : Contents) :
    (effectOf calls first).get? key = (effectOf calls second).get? key := by
  induction calls generalizing first second with
  | nil =>
    obtain ⟨call, hcall, -⟩ := hkey
    cases hcall
  | cons call rest ih =>
    by_cases hrest : Changed rest key
    · exact ih hrest (call.effect first) (call.effect second)
    · have hcall : call.changed? = some key :=
        Classical.not_not.mp fun hother ↦ not_changed_cons.mpr ⟨hother, hrest⟩ hkey
      exact ((get?_effectOf hrest _).trans
        (call.get?_effect_of_changed first second hcall)).trans (get?_effectOf hrest _).symm

/-- Calls that leave all contents as they are change no key. -/
theorem not_changed_of_effectOf_eq {calls : List Call}
    (hcalls : ∀ contents, effectOf calls contents = contents) (key : Key) :
    ¬ Changed calls key := by
  intro hkey
  have hsame := get?_effectOf_of_changed hkey ∅ ((∅ : Contents).insert key .empty)
  rw [hcalls, hcalls, SortedMap.get?_insert, if_pos (Key.compare_eq_iff_eq.mpr rfl)] at hsame
  cases hsame

theorem truthful_append {first second : List Call} {contents : Contents} :
    Truthful contents (first ++ second) ↔
      Truthful contents first ∧ Truthful (effectOf first contents) second := by
  induction first generalizing contents with
  | nil => simp [Truthful, effectOf]
  | cons call rest ih =>
    simp only [List.cons_append, Truthful, ih, and_assoc]
    rfl

/-- What truthful calls took is what the contents hold. -/
theorem Truthful.get?_of_took {contents : Contents} {calls : List Call}
    (htruthful : Truthful contents calls) {key : Key} {found? : Option Value}
    (htook : Took calls key found?) : contents.get? key = found? := by
  obtain ⟨before, call, after, rfl, htold, hkey⟩ := htook
  obtain ⟨-, hcall, -⟩ := truthful_append.mp htruthful
  rw [← get?_effectOf hkey contents]
  exact hcall.get?_of_told htold

theorem took_of_told {call : Call} {key : Key} {found? : Option Value}
    (htold : (key, found?) ∈ call.told) (rest : List Call) : Took (call :: rest) key found? :=
  ⟨[], call, rest, rfl, htold, fun ⟨_, hmem, _⟩ ↦ by cases hmem⟩

theorem Took.cons {call : Call} {rest : List Call} {key : Key} {found? : Option Value}
    (htook : Took rest key found?) (hkey : call.changed? ≠ some key) :
    Took (call :: rest) key found? := by
  obtain ⟨before, later, after, rfl, htold, hbefore⟩ := htook
  exact ⟨call :: before, later, after, rfl, htold, not_changed_cons.mpr ⟨hkey, hbefore⟩⟩

/-- One more call takes what it tells of keys that have not been changed. -/
theorem took_concat_iff {calls : List Call} {call : Call} {key : Key} {found? : Option Value} :
    Took (calls ++ [call]) key found? ↔
      Took calls key found? ∨ ((key, found?) ∈ call.told ∧ ¬ Changed calls key) := by
  constructor
  · rintro ⟨before, other, after, hcalls, htold, hkey⟩
    rcases List.eq_nil_or_concat after with rfl | ⟨front, last, rfl⟩
    · obtain ⟨rfl, hlast⟩ := List.append_inj' hcalls rfl
      obtain rfl : call = other := by simpa using hlast
      exact Or.inr ⟨htold, hkey⟩
    · rw [List.concat_eq_append, ← List.cons_append, ← List.append_assoc] at hcalls
      obtain ⟨rfl, -⟩ := List.append_inj' hcalls rfl
      exact Or.inl ⟨before, other, front, rfl, htold, hkey⟩
  · rintro (⟨before, other, after, rfl, htold, hkey⟩ | ⟨htold, hkey⟩)
    · exact ⟨before, other, after ++ [call], by simp, htold, hkey⟩
    · exact ⟨calls, call, [], rfl, htold, hkey⟩

/-- Calls that scan nothing are truthful on all contents that hold what they took. -/
theorem Truthful.transfer {first second : Contents} {calls : List Call}
    (htruthful : Truthful first calls) (hscans : ScanFree calls)
    (hheld : ∀ key found?, Took calls key found? → second.get? key = found?) :
    Truthful second calls := by
  induction calls generalizing first second with
  | nil => trivial
  | cons call rest ih =>
    obtain ⟨-, hrest⟩ := htruthful
    have hscan := hscans call List.mem_cons_self
    refine ⟨?_, ih hrest (fun other hother ↦ hscans other (List.mem_cons_of_mem _ hother))
      fun key found? htook ↦ ?_⟩
    · cases call with
      | got key found? => exact (hheld key found? (took_of_told List.mem_cons_self rest)).symm
      | scannedStem | scannedRange => cases hscan
      | put | deleted | refused => trivial
    · by_cases hkey : call.changed? = some key
      · rw [Call.get?_effect_of_changed second first hkey]
        exact hrest.get?_of_took htook
      · rw [call.get?_effect second hkey]
        exact hheld key found? (htook.cons hkey)

/-! ### Performances -/

/-- How a script went: its outcome, the contents behind it and its calls. -/
structure Performance (α : Type) where
  outcome : Except Failure α
  contents : Contents
  calls : List Call

namespace Performance

variable {α : Type}

/-- A performance behind a call. -/
def after (call : Call) (performance : Performance α) : Performance α :=
  { performance with calls := call :: performance.calls }

end Performance

namespace Script

variable {α β : Type}

/-- What a script does to contents that nobody else uses. -/
def perform : Script α → Contents → Performance α
  | finish outcome, contents => ⟨outcome, contents, []⟩
  | get key next, contents =>
    let found? := contents.get? key
    ((next (.ok found?)).perform contents).after (.got key found?)
  | scanStem stem next, contents =>
    let rows := (contents.filter fun key _ ↦ key.startsWith stem).toList
    ((next (.ok rows)).perform contents).after (.scannedStem stem rows)
  | scanRange first last next, contents =>
    let rows := (contents.filter fun key _ ↦ Key.isBetween first last key).toList
    ((next (.ok rows)).perform contents).after (.scannedRange first last rows)
  | put key value next, contents =>
    ((next (.ok ())).perform (contents.insert key value)).after (.put key value)
  | delete key next, contents =>
    ((next (.ok ())).perform (contents.erase key)).after (.deleted key)

/-- A script makes some calls and then goes on as another. -/
inductive Leads : Script α → List Call → Script α → Prop
  | nil (script : Script α) : Leads script [] script
  | got {key next found? calls rest} :
    Leads (next (.ok found?)) calls rest → Leads (get key next) (.got key found? :: calls) rest
  | scannedStem {stem next rows calls rest} :
    Leads (next (.ok rows)) calls rest →
      Leads (scanStem stem next) (.scannedStem stem rows :: calls) rest
  | scannedRange {first last next rows calls rest} :
    Leads (next (.ok rows)) calls rest →
      Leads (scanRange first last next) (.scannedRange first last rows :: calls) rest
  | put {key value next calls rest} :
    Leads (next (.ok ())) calls rest → Leads (put key value next) (.put key value :: calls) rest
  | deleted {key next calls rest} :
    Leads (next (.ok ())) calls rest → Leads (delete key next) (.deleted key :: calls) rest
  | getRefused {key next failure calls rest} :
    Leads (next (.error failure)) calls rest → Leads (get key next) (.refused failure :: calls) rest
  | scanStemRefused {stem next failure calls rest} :
    Leads (next (.error failure)) calls rest →
      Leads (scanStem stem next) (.refused failure :: calls) rest
  | scanRangeRefused {first last next failure calls rest} :
    Leads (next (.error failure)) calls rest →
      Leads (scanRange first last next) (.refused failure :: calls) rest
  | putRefused {key value next failure calls rest} :
    Leads (next (.error failure)) calls rest →
      Leads (put key value next) (.refused failure :: calls) rest
  | deleteRefused {key next failure calls rest} :
    Leads (next (.error failure)) calls rest →
      Leads (delete key next) (.refused failure :: calls) rest

theorem Leads.append {first second third : Script α} {calls more : List Call}
    (hfirst : first.Leads calls second) (hsecond : second.Leads more third) :
    first.Leads (calls ++ more) third := by
  induction hfirst with
  | nil => exact hsecond
  | got _ ih => exact .got (ih hsecond)
  | scannedStem _ ih => exact .scannedStem (ih hsecond)
  | scannedRange _ ih => exact .scannedRange (ih hsecond)
  | put _ ih => exact .put (ih hsecond)
  | deleted _ ih => exact .deleted (ih hsecond)
  | getRefused _ ih => exact .getRefused (ih hsecond)
  | scanStemRefused _ ih => exact .scanStemRefused (ih hsecond)
  | scanRangeRefused _ ih => exact .scanRangeRefused (ih hsecond)
  | putRefused _ ih => exact .putRefused (ih hsecond)
  | deleteRefused _ ih => exact .deleteRefused (ih hsecond)

/-- Truthful calls without refusals that lead a script to its end are those of its performance. -/
theorem perform_eq_of_leads {script : Script α} {calls : List Call} {outcome : Except Failure α}
    {contents : Contents} (hleads : script.Leads calls (finish outcome))
    (htruthful : Truthful contents calls) (hunrefused : Unrefused calls) :
    script.perform contents = ⟨outcome, effectOf calls contents, calls⟩ := by
  generalize hend : finish outcome = rest at hleads
  induction hleads generalizing contents with
  | nil => subst hend; rfl
  | got _ ih | scannedStem _ ih | scannedRange _ ih | put _ ih | deleted _ ih =>
    obtain ⟨hcall, hrest⟩ := htruthful
    have hperform := ih hrest (fun call hcall ↦ hunrefused call (List.mem_cons_of_mem _ hcall)) hend
    cases hcall
    unfold perform
    simp only [Call.effect] at hperform ⊢
    rw [hperform]
    rfl
  | getRefused | scanStemRefused | scanRangeRefused | putRefused | deleteRefused =>
    exact absurd (hunrefused _ List.mem_cons_self) (by simp [Call.isRefused])

/-- The calls of a performance are truthful, lead to its outcome and have its contents as their
effect. -/
theorem leads_perform (script : Script α) (contents : Contents) :
    script.Leads (script.perform contents).calls (finish (script.perform contents).outcome) ∧
      Truthful contents (script.perform contents).calls ∧
      (script.perform contents).contents = effectOf (script.perform contents).calls contents := by
  induction script generalizing contents with
  | finish outcome => exact ⟨.nil _, trivial, rfl⟩
  | get key next ih =>
    obtain ⟨hleads, htruthful, heffect⟩ := ih (.ok (contents.get? key)) contents
    exact ⟨.got hleads, ⟨rfl, htruthful⟩, heffect⟩
  | scanStem stem next ih =>
    obtain ⟨hleads, htruthful, heffect⟩ := ih (.ok _) contents
    exact ⟨.scannedStem hleads, ⟨rfl, htruthful⟩, heffect⟩
  | scanRange first last next ih =>
    obtain ⟨hleads, htruthful, heffect⟩ := ih (.ok _) contents
    exact ⟨.scannedRange hleads, ⟨rfl, htruthful⟩, heffect⟩
  | put key value next ih =>
    obtain ⟨hleads, htruthful, heffect⟩ := ih (.ok ()) (contents.insert key value)
    exact ⟨.put hleads, ⟨trivial, htruthful⟩, heffect⟩
  | delete key next ih =>
    obtain ⟨hleads, htruthful, heffect⟩ := ih (.ok ()) (contents.erase key)
    exact ⟨.deleted hleads, ⟨trivial, htruthful⟩, heffect⟩

end Script

end RunLedger
