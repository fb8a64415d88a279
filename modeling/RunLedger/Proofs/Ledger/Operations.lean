import Mathlib.Logic.Relation
import RunLedger.Ledger
import RunLedger.Proofs.Database.CommitPoint
import RunLedger.Proofs.Ledger.Removal

/-!
# What committed operations do

An `Operation` is what one transaction of the ledger does. Whatever interleaves with it, an
operation that commits changes does to the contents right before its commit one of two things
(`Operation.Makes`): a removal erases what belongs to the runs of its batch, and every other
operation makes some alterations one after the other (`Alteration`): it writes a record that its run
may have next, a token or node state of a run that exists, or a summary.

So all contents that commits have made are consistent (`System.Sound.consistent`).
-/

set_option autoImplicit false

namespace RunLedger

open Relation (ReflTransGen)

/-- What one transaction of the ledger does. -/
inductive Operation where
  | start (request : Start)
  | suspend (program : ProgramId) (id : RunId) (time : UInt64)
  | resume (program : ProgramId) (id : RunId) (time : UInt64)
  | stop (program : ProgramId) (id : RunId) (time : UInt64) (status : RunStatus)
    (cause? : Option FailureCause)
  | compareAndSet (program : ProgramId) (id : RunId) (expected target : RunStatus) (time : UInt64)
  | putToken (workflow : ProgramId) (id : RunId) (token : WorkflowToken)
  | putNodeState (workflow : ProgramId) (id : RunId) (state : NodeState)
  | summarize (workflow : ProgramId) (id : RunId)
  | removeRuns (scope : Scope) (size : Nat)
  | removeSummaries (scope : Scope) (size : Nat)

/-- What an operation answers. -/
inductive Reply where
  | record (record : RunRecord)
  | changed (record? : Option RunRecord)
  | done
  | told (answer : Bool)
  | counted (count : Nat)

namespace Operation

/-- The script of an operation. -/
def program : Operation → Script Reply
  | start request => Reply.record <$> Runs.start request
  | suspend program id time => Reply.record <$> Runs.suspend program id time
  | resume program id time => Reply.record <$> Runs.resume program id time
  | stop program id time status cause? =>
    Reply.record <$> Runs.stop program id time status cause?
  | compareAndSet program id expected target time =>
    Reply.changed <$> Runs.compareAndSet program id expected target time
  | putToken workflow id token => (fun _ ↦ .done) <$> Progress.putToken workflow id token
  | putNodeState workflow id state => (fun _ ↦ .done) <$> Progress.putNodeState workflow id state
  | summarize workflow id => Reply.told <$> Summaries.record workflow id
  | removeRuns scope size => Reply.counted <$> Runs.removeBatch scope size
  | removeSummaries scope size => Reply.counted <$> Summaries.removeBatch scope size

/-- The run on which an operation decides by its record alone. -/
def amended? : Operation → Option (ProgramId × RunId)
  | suspend program id _ | resume program id _ | stop program id _ _ _
  | compareAndSet program id _ _ _ => some (program, id)
  | _ => none

/-- Such an operation is an amendment with another wording of the reply. -/
theorem exists_amendment {operation : Operation} {run : ProgramId × RunId}
    (hamended : operation.amended? = some run) :
    ∃ (α : Type) (script : Script α) (reply : α → Reply),
      operation.program = reply <$> script ∧ Runs.Amendment run.1 run.2 script := by
  cases operation with
  | suspend program id time =>
    rw [← Option.some.inj hamended]
    exact ⟨_, _, _, rfl, Runs.amendment_suspend program id time⟩
  | resume program id time =>
    rw [← Option.some.inj hamended]
    exact ⟨_, _, _, rfl, Runs.amendment_resume program id time⟩
  | stop program id time status cause? =>
    rw [← Option.some.inj hamended]
    exact ⟨_, _, _, rfl, Runs.amendment_stop program id time status cause?⟩
  | compareAndSet program id expected target time =>
    rw [← Option.some.inj hamended]
    exact ⟨_, _, _, rfl, Runs.amendment_compareAndSet program id time expected target⟩
  | _ => cases hamended

/-- Whether the operation goes through a scope. -/
def IsRemoval : Operation → Prop
  | removeRuns .. | removeSummaries .. => True
  | _ => False

end Operation

/-- A workflow. -/
def nightly : ProgramId := ⟨"default", "purchases", .workflow, "nightly"⟩

/-- The run id `0000000f-4240-7000-8000-000000000000`, made in second 1000. -/
def firstNight : RunId where
  digits := ([0, 0, 0, 0, 0, 0, 0, 15, 4, 2, 4, 0, 7, 0, 0, 0, 8] ++ List.replicate 15 0).map
    fun digit : Nat ↦ ⟨digit % 16, Nat.mod_lt digit (by decide)⟩
  length_digits := rfl

/-! ### Effects -/

/-- The key is of the token or of a node state of a run. -/
def Key.IsProgressOf (program : ProgramId) (id : RunId) (key : Key) : Prop :=
  key = workflowToken program id ∨ ∃ node, key = nodeState program id node

/-- One change that an operation makes. -/
inductive Alteration (before : Contents) : Contents → Prop
  | recorded (record : RunRecord)
    (hbecomes : RunRecord.Becomes (before.run? record.program record.id) record) :
    Alteration before (before.recording record)
  | noted {program id key} (value : Value) (hrun : (before.run? program id).isSome = true)
    (hkey : key.IsProgressOf program id) : Alteration before (before.insert key value)
  | aside {after} (hkeys : ∀ key, key.family ≠ .workflowRun → after.get? key = before.get? key) :
    Alteration before after

/-- What an operation with a snapshot makes of the contents right before its commit. -/
inductive Operation.Makes (snapshot before : Contents) : Operation → Contents → Prop
  | altered {operation after} (halters : ReflTransGen Alteration before after) :
    Makes snapshot before operation after
  | removed {scope size after}
    (hremoved : Contents.Removed scope (Runs.batch snapshot scope size) snapshot before after) :
    Makes snapshot before (.removeRuns scope size) after

/-! ### Consistency -/

/-- Contents that hold the same under keys of runs and of the index are as consistent. -/
theorem Contents.Consistent.congr {before after : Contents} (hbefore : before.Consistent)
    (hkeys : ∀ key, Runs.IsLifecycleKey key → after.get? key = before.get? key) :
    after.Consistent := by
  have hholds (record : RunRecord) : after.Holds record ↔ before.Holds record := by
    rw [Holds, hkeys _ (Or.inl rfl), Holds]
  refine ⟨fun key value hvalue hfamily ↦ ?_, fun key value hvalue hfamily ↦ ?_, fun record hrecord ↦ ?_⟩
  · rw [hkeys key (Or.inl hfamily)] at hvalue
    exact hbefore.records key value hvalue hfamily
  · rw [hkeys key (Or.inr hfamily)] at hvalue
    obtain ⟨record, hrecord, hkey, hentry⟩ := hbefore.entries key value hvalue hfamily
    exact ⟨record, (hholds record).mpr hrecord, hkey, hentry⟩
  · rw [hkeys _ (Or.inr rfl)]
    exact hbefore.indexed record ((hholds record).mp hrecord)

theorem Key.IsProgressOf.not_isLifecycleKey {program : ProgramId} {id : RunId} {key : Key}
    (hkey : key.IsProgressOf program id) : ¬ Runs.IsLifecycleKey key := by
  rintro (hfamily | hfamily)
  all_goals rcases hkey with rfl | ⟨node, rfl⟩ <;> cases hfamily

theorem Alteration.consistent {before after : Contents} (halteration : Alteration before after)
    (hbefore : before.Consistent) : after.Consistent := by
  cases halteration with
  | recorded record hbecomes => exact (hbefore.recorded_recording record).consistent hbefore
  | noted value hrun hkey =>
    refine hbefore.congr fun key hlifecycle ↦ ?_
    rw [Contents.get?_insert, if_neg]
    rintro rfl
    exact hkey.not_isLifecycleKey hlifecycle
  | aside hkeys =>
    refine hbefore.congr fun key hlifecycle ↦ hkeys key fun hfamily ↦ ?_
    rcases hlifecycle with hrun | hindex
    · rw [hrun] at hfamily
      cases hfamily
    · rw [hindex] at hfamily
      cases hfamily

theorem consistent_of_alters {before after : Contents} (halters : ReflTransGen Alteration before after)
    (hbefore : before.Consistent) : after.Consistent := by
  induction halters with
  | refl => exact hbefore
  | tail _ halteration ih => exact halteration.consistent ih

/-- A key of a run belongs to that run alone. -/
theorem Contents.belongs_run {contents : Contents} {program other : ProgramId} {id otherId : RunId} :
    contents.Belongs program id (Key.run other otherId) ↔ program = other ∧ id = otherId := by
  constructor
  · rintro (hrun | ⟨status, hindex⟩ | htoken | ⟨hstem, -⟩)
    · obtain ⟨hprogram, hid⟩ := Key.run_inj hrun
      exact ⟨hprogram.symm, hid.symm⟩
    · exact absurd hindex Key.run_ne_statusIndex
    · exact absurd (congrArg Key.family htoken) (show Family.run ≠ .workflowToken by decide)
    · cases hstem
  · rintro ⟨rfl, rfl⟩
    exact Or.inl rfl

theorem Contents.belongs_statusIndex {contents : Contents} {program other : ProgramId}
    {id otherId : RunId} {status : RunStatus} :
    contents.Belongs program id (Key.statusIndex status other otherId) ↔
      program = other ∧ id = otherId := by
  constructor
  · rintro (hrun | ⟨state, hindex⟩ | htoken | ⟨hstem, -⟩)
    · exact absurd hrun.symm Key.run_ne_statusIndex
    · obtain ⟨-, hprogram, hid⟩ := Key.statusIndex_inj hindex
      exact ⟨hprogram.symm, hid.symm⟩
    · exact absurd (congrArg Key.family htoken) (show Family.runByStatus ≠ .workflowToken by decide)
    · cases hstem
  · rintro ⟨rfl, rfl⟩
    exact Or.inr (Or.inl ⟨status, rfl⟩)

/-- A key that belongs to one run alone goes with that run. -/
theorem Contents.Removed.get?_of_belongs {scope : Scope} {runs : List (ProgramId × RunId)}
    {snapshot before after : Contents} (hremoved : Contents.Removed scope runs snapshot before after)
    {program : ProgramId} {id : RunId} {key : Key}
    (hkey : ∀ {other otherId}, snapshot.Belongs other otherId key ↔ other = program ∧ otherId = id) :
    after.get? key = if (program, id) ∈ runs then none else before.get? key := by
  split
  · rename_i hmem
    exact hremoved.erased _ hmem key (hkey.mpr ⟨rfl, rfl⟩)
  · rename_i hmem
    refine hremoved.kept key fun run hrun hbelongs ↦ hmem ?_
    obtain ⟨rfl, rfl⟩ := hkey.mp hbelongs
    exact hrun

/-- The keys of a run stay or go with its record. -/
theorem Contents.Removed.consistent {scope : Scope} {runs : List (ProgramId × RunId)}
    {snapshot before after : Contents} (hremoved : Contents.Removed scope runs snapshot before after)
    (hbefore : before.Consistent) : after.Consistent := by
  have hrun (program : ProgramId) (id : RunId) : after.get? (Key.run program id) =
      if (program, id) ∈ runs then none else before.get? (Key.run program id) :=
    hremoved.get?_of_belongs belongs_run
  have hindex (status : RunStatus) (program : ProgramId) (id : RunId) :
      after.get? (Key.statusIndex status program id) =
        if (program, id) ∈ runs then none
        else before.get? (Key.statusIndex status program id) :=
    hremoved.get?_of_belongs belongs_statusIndex
  have hbefore_of_after (key : Key) (value : Value) (hvalue : after.get? key = some value) :
      before.get? key = some value := by
    by_cases hbelongs : ∃ run ∈ runs, snapshot.Belongs run.1 run.2 key
    · obtain ⟨run, hmem, hkey⟩ := hbelongs
      rw [hremoved.erased run hmem key hkey] at hvalue
      cases hvalue
    · rw [hremoved.kept key fun run hmem hkey ↦ hbelongs ⟨run, hmem, hkey⟩] at hvalue
      exact hvalue
  refine ⟨fun key value hvalue hfamily ↦ ?_, fun key value hvalue hfamily ↦ ?_,
    fun record hrecord ↦ ?_⟩
  · exact hbefore.records key value (hbefore_of_after key value hvalue) hfamily
  · obtain ⟨record, hrecord, rfl, rfl⟩ :=
      hbefore.entries key value (hbefore_of_after key value hvalue) hfamily
    refine ⟨record, ?_, rfl, rfl⟩
    rw [hindex] at hvalue
    split at hvalue
    · cases hvalue
    · rename_i hmem
      rw [Holds, hrun, if_neg hmem]
      exact hrecord
  · rw [Holds, hrun] at hrecord
    split at hrecord
    · cases hrecord
    · rename_i hmem
      rw [hindex, if_neg hmem]
      exact hbefore.indexed record hrecord

theorem Contents.Removed.run?_eq {scope : Scope} {runs : List (ProgramId × RunId)}
    {snapshot before after : Contents} (hremoved : Contents.Removed scope runs snapshot before after)
    (program : ProgramId) (id : RunId) :
    after.run? program id = if (program, id) ∈ runs then none else before.run? program id := by
  rw [Contents.run?, hremoved.get?_of_belongs belongs_run]
  split
  · rfl
  · rfl

theorem Operation.Makes.consistent {operation : Operation} {snapshot before after : Contents}
    (hmakes : operation.Makes snapshot before after) (hbefore : before.Consistent) :
    after.Consistent := by
  cases hmakes with
  | altered halters => exact consistent_of_alters halters hbefore
  | removed hremoved => exact hremoved.consistent hbefore

/-! ### Runs that stay -/

/-- A run that was there still is, with the same record if it had stopped. -/
structure Contents.Keeps (program : ProgramId) (id : RunId) (before after : Contents) : Prop where
  present : (before.run? program id).isSome = true → (after.run? program id).isSome = true
  stopped : ∀ record, before.run? program id = some record → record.status.isTerminal = true →
    after.run? program id = some record

section

variable {program : ProgramId} {id : RunId} {before after : Contents}

theorem Contents.Keeps.refl (contents : Contents) : contents.Keeps program id contents :=
  ⟨fun hrun ↦ hrun, fun _ hrun _ ↦ hrun⟩

theorem Contents.Keeps.trans {between : Contents} (hfirst : Contents.Keeps program id before between)
    (hsecond : Contents.Keeps program id between after) : Contents.Keeps program id before after :=
  ⟨fun hrun ↦ hsecond.present (hfirst.present hrun), fun record hrun hterminal ↦
    hsecond.stopped record (hfirst.stopped record hrun hterminal) hterminal⟩

theorem Contents.keeps_of_run?_eq (hsame : after.run? program id = before.run? program id) :
    Contents.Keeps program id before after :=
  ⟨fun hrun ↦ hsame ▸ hrun, fun _ hrun _ ↦ hsame.trans hrun⟩

/-- An alteration writes one record, which its run may have next, or leaves all records. -/
theorem Alteration.recorded_or (halteration : Alteration before after) (hbefore : before.Consistent) :
    (∃ record, RunRecord.Becomes (before.run? record.program record.id) record ∧
        Contents.Recorded record before after) ∨
      ∀ program id, after.run? program id = before.run? program id := by
  cases halteration with
  | recorded record hbecomes => exact Or.inl ⟨record, hbecomes, hbefore.recorded_recording record⟩
  | noted value _ hkey =>
    refine Or.inr fun program id ↦ ?_
    rw [Contents.run?, Contents.get?_insert, if_neg, Contents.run?]
    rintro rfl
    exact hkey.not_isLifecycleKey (Or.inl rfl)
  | aside hkeys =>
    refine Or.inr fun program id ↦ ?_
    rw [Contents.run?, hkeys _ (show Family.run ≠ .workflowRun by decide), Contents.run?]

/-- No alteration takes a run away or changes one that has stopped. -/
theorem Alteration.keeps (halteration : Alteration before after) (hbefore : before.Consistent) :
    Contents.Keeps program id before after := by
  rcases halteration.recorded_or hbefore with ⟨record, hbecomes, hrecorded⟩ | hsame
  · have hafter := hrecorded.run? program id
    by_cases hrun : program = record.program ∧ id = record.id
    · obtain ⟨rfl, rfl⟩ := hrun
      rw [if_pos ⟨rfl, rfl⟩] at hafter
      refine ⟨fun _ ↦ by rw [hafter]; rfl, fun current hcurrent hterminal ↦ ?_⟩
      rw [hcurrent] at hbecomes
      rw [hbecomes.isTerminal_eq_false] at hterminal
      cases hterminal
    · exact Contents.keeps_of_run?_eq (hafter.trans (if_neg hrun))
  · exact Contents.keeps_of_run?_eq (hsame program id)

theorem keeps_of_alters (halters : ReflTransGen Alteration before after)
    (hbefore : before.Consistent) : Contents.Keeps program id before after := by
  induction halters with
  | refl => exact .refl before
  | tail hfirst halteration ih =>
    exact ih.trans (halteration.keeps (consistent_of_alters hfirst hbefore))

/-- Only a removal of its scope takes a run away. -/
theorem Operation.Makes.keeps_or {operation : Operation} {snapshot : Contents}
    (hmakes : operation.Makes snapshot before after) (hbefore : before.Consistent) :
    Contents.Keeps program id before after ∨
      ∃ scope size, operation = .removeRuns scope size ∧ scope.contains program = true ∧
        after.run? program id = none := by
  cases hmakes with
  | altered halters => exact Or.inl (keeps_of_alters halters hbefore)
  | @removed scope size _ hremoved =>
    have hafter := hremoved.run?_eq program id
    by_cases hmem : (program, id) ∈ Runs.batch snapshot scope size
    · rw [if_pos hmem] at hafter
      exact Or.inr ⟨scope, size, rfl, (hremoved.held _ hmem).1, hafter⟩
    · rw [if_neg hmem] at hafter
      exact Or.inl (Contents.keeps_of_run?_eq hafter)

end

end RunLedger
