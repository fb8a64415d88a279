import RunLedger.Proofs.Transaction.Evaluation

/-!
# Scripts that look at few keys

A script is confined if it scans nothing, looks only at keys that it may read and deletes only keys
that it may delete (`Script.Confined`). All that such a script does is settled by what the contents
hold under the keys it may read: on other contents that agree there it makes the same calls with the
same answers and comes to the same outcome (`Confined.perform_eq`). Which keys it changes may depend
on what it finds, so this is said for some contents (`ChangesOnly`).

In a transaction of its own that nobody disturbs, a script leaves what its performance leaves if it
has a result, and the contents as they were if it fails (`Script.transacted`).
-/

set_option autoImplicit false

namespace RunLedger.Script

variable {α β : Type} {mayRead mayDelete : Key → Prop}

/-! ### Confined scripts -/

/-- A script that scans nothing, looks only at keys that it may read and deletes only keys that it
may delete, whatever it is answered. -/
inductive Confined (mayRead mayDelete : Key → Prop) : Script α → Prop
  | finish (outcome : Except Failure α) : Confined mayRead mayDelete (finish outcome)
  | get {key next} (hread : mayRead key)
    (hnext : ∀ answer, Confined mayRead mayDelete (next answer)) :
    Confined mayRead mayDelete (get key next)
  | put {key value next} (hnext : ∀ answer, Confined mayRead mayDelete (next answer)) :
    Confined mayRead mayDelete (put key value next)
  | delete {key next} (hdelete : mayDelete key)
    (hnext : ∀ answer, Confined mayRead mayDelete (next answer)) :
    Confined mayRead mayDelete (delete key next)

theorem Confined.bind {script : Script α} (hscript : script.Confined mayRead mayDelete)
    {next : α → Script β} (hnext : ∀ result, (next result).Confined mayRead mayDelete) :
    (script >>= next).Confined mayRead mayDelete := by
  induction hscript with
  | finish outcome =>
    cases outcome with
    | ok result => exact hnext result
    | error failure => exact .finish _
  | get hread _ ih => exact .get hread ih
  | put _ ih => exact .put ih
  | delete hdelete _ ih => exact .delete hdelete ih

theorem Confined.map {script : Script α} (hscript : script.Confined mayRead mayDelete)
    (next : α → β) : (next <$> script).Confined mayRead mayDelete :=
  hscript.bind fun _ ↦ .finish _

theorem confined_pure (result : α) : (pure result : Script α).Confined mayRead mayDelete :=
  .finish _

theorem confined_throw (failure : Failure) :
    (throw failure : Script α).Confined mayRead mayDelete := .finish _

theorem confined_read {key : Key} (hread : mayRead key) :
    (read key).Confined mayRead mayDelete := .get hread fun _ ↦ .finish _

theorem confined_write (key : Key) (value : Value) :
    (write key value).Confined mayRead mayDelete := .put fun _ ↦ .finish _

theorem confined_erase {key : Key} (hdelete : mayDelete key) :
    (erase key).Confined mayRead mayDelete := .delete hdelete fun _ ↦ .finish _

/-- On contents that agree under the keys it may read, a script does the same. -/
theorem Confined.perform_eq {script : Script α} (hscript : script.Confined mayRead mayDelete)
    {first second : Contents}
    (hagree : ∀ key, mayRead key → second.get? key = first.get? key) :
    script.perform second = ⟨(script.perform first).outcome,
      effectOf (script.perform first).calls second, (script.perform first).calls⟩ := by
  have hchange {call : Call} {first second : Contents}
      (hagree : ∀ key, mayRead key → second.get? key = first.get? key) (key : Key)
      (hread : mayRead key) : (call.effect second).get? key = (call.effect first).get? key := by
    by_cases hkey : call.changed? = some key
    · exact Call.get?_effect_of_changed second first hkey
    · rw [call.get?_effect second hkey, call.get?_effect first hkey, hagree key hread]
  induction hscript generalizing first second with
  | finish outcome => rfl
  | @get key next hread _ ih =>
    unfold perform
    rw [hagree key hread]
    exact congrArg (Performance.after _) (ih _ hagree)
  | put _ ih =>
    exact congrArg (Performance.after _) (ih _ (@hchange (.put _ _) first second hagree))
  | delete _ _ ih =>
    exact congrArg (Performance.after _) (ih _ (@hchange (.deleted _) first second hagree))

/-! ### Keys that are changed -/

/-- On some contents, a script changes no keys but those that it may. -/
def ChangesOnly (mayChange : Key → Prop) (script : Script α) (contents : Contents) : Prop :=
  ∀ key, Changed (script.perform contents).calls key → mayChange key

section

variable {mayChange : Key → Prop} {script : Script α} {contents : Contents}

theorem Plain.changesOnly {mayScan : Prop} (hplain : script.Plain mayScan mayChange)
    (contents : Contents) : script.ChangesOnly mayChange contents := fun _ hchanged ↦
  Classical.not_not.mp fun hkey ↦
    hplain.not_changed (leads_perform script contents).1 hkey hchanged

theorem ChangesOnly.get?_eval (hscript : script.ChangesOnly mayChange contents) {key : Key}
    (hkey : ¬ mayChange key) : (script.eval contents).2.get? key = contents.get? key := by
  obtain ⟨-, -, heffect⟩ := leads_perform script contents
  rw [eval, heffect, get?_effectOf fun hchanged ↦ hkey (hscript key hchanged)]

theorem changesOnly_pure (result : α) (contents : Contents) :
    (pure result : Script α).ChangesOnly mayChange contents :=
  (@plain_pure α False mayChange result).changesOnly contents

theorem changesOnly_throw (failure : Failure) (contents : Contents) :
    (throw failure : Script α).ChangesOnly mayChange contents :=
  (@plain_throw α False mayChange failure).changesOnly contents

/-- A script and what it goes on as behind its result, on the contents that it leaves. -/
theorem ChangesOnly.bind (hscript : script.ChangesOnly mayChange contents) {next : α → Script β}
    (hnext : ∀ result after, script.eval contents = (.ok result, after) →
      (next result).ChangesOnly mayChange after) :
    (script >>= next).ChangesOnly mayChange contents := by
  intro key hchanged
  rw [perform_bind] at hchanged
  unfold Performance.andThen at hchanged
  split at hchanged
  · rename_i result hresult
    rcases changed_append.mp hchanged with hfirst | hsecond
    · exact hscript key hfirst
    · exact hnext result _ (by rw [eval, hresult]) key hsecond
  · exact hscript key hchanged

theorem ChangesOnly.mono (hscript : script.ChangesOnly mayChange contents) {more : Key → Prop}
    (hmore : ∀ key, mayChange key → more key) : script.ChangesOnly more contents :=
  fun key hchanged ↦ hmore key (hscript key hchanged)

theorem ChangesOnly.map (hscript : script.ChangesOnly mayChange contents) (next : α → β) :
    (next <$> script).ChangesOnly mayChange contents := by
  intro key hchanged
  rw [perform_map] at hchanged
  exact hscript key hchanged

end

/-! ### Transactions of their own -/

/-- What a script comes to in a transaction of its own that nobody disturbs, and the contents behind
it: a failure leaves them as they were. -/
def transacted (script : Script α) (contents : Contents) : Except Failure α × Contents :=
  let performance := script.perform contents
  match performance.outcome with
  | .ok result => (.ok result, performance.contents)
  | .error failure => (.error failure, contents)

theorem transacted_outcome (script : Script α) (contents : Contents) :
    (script.transacted contents).1 = (script.perform contents).outcome := by
  unfold transacted
  dsimp only
  split <;> rename_i houtcome <;> exact houtcome.symm

end RunLedger.Script
