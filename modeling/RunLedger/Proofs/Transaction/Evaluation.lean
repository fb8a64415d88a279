import RunLedger.Proofs.Transaction.Calls

/-!
# Scripts as functions of contents

What a script comes to on plain contents is found step by step: `perform_followedBy` and
`perform_bind` for how it goes in full, and `eval_followedBy` and `eval_bind` for its outcome and the
contents behind it alone (`Script.eval`).

Most scripts are plain (`Script.Plain`): where an access fails they end with its failure, so a plain
script that has a result has met no failure (`Plain.unrefused`). A plain script scans only if it may
(`Plain.scanFree`), and changes only keys that it may (`Plain.not_changed`).
-/

set_option autoImplicit false

namespace RunLedger

variable {α β : Type}

/-- A performance that goes on with its result; a failure ends it. -/
def Performance.andThen (first : Performance α) (next : α → Script β) : Performance β :=
  match first.outcome with
  | .ok result =>
    let second := (next result).perform first.contents
    { second with calls := first.calls ++ second.calls }
  | .error failure => ⟨.error failure, first.contents, first.calls⟩

/-- A call that scans only if it may and changes only keys that it may. -/
structure Call.Within (mayScan : Prop) (mayChange : Key → Prop) (call : Call) : Prop where
  scans : call.isScan = true → mayScan
  changes : ∀ key, call.changed? = some key → mayChange key

namespace Script

/-! ### Evaluation -/

/-- What a script comes to on contents that nobody else uses, and what it leaves there. -/
def eval (script : Script α) (contents : Contents) : Except Failure α × Contents :=
  ((script.perform contents).outcome, (script.perform contents).contents)

/-- One script and then another is performed as the one and, behind it, the other. -/
theorem perform_followedBy (script : Script α) (continuation : Except Failure α → Script β)
    (contents : Contents) :
    (script.followedBy continuation).perform contents =
      let first := script.perform contents
      let second := (continuation first.outcome).perform first.contents
      { second with calls := first.calls ++ second.calls } := by
  induction script generalizing contents with
  | finish outcome => rfl
  | get key next ih | scanStem stem next ih | scanRange first last next ih | put key value next ih
  | delete key next ih => exact congrArg (Performance.after _) (ih _ _)

theorem perform_bind (script : Script α) (next : α → Script β) (contents : Contents) :
    (script >>= next).perform contents = (script.perform contents).andThen next := by
  refine (perform_followedBy script _ contents).trans ?_
  unfold Performance.andThen
  obtain ⟨outcome, after, calls⟩ := script.perform contents
  cases outcome with
  | ok result => rfl
  | error failure =>
    dsimp only [perform]
    rw [List.append_nil]

section

variable (contents : Contents)

theorem eval_followedBy (script : Script α) (continuation : Except Failure α → Script β) :
    (script.followedBy continuation).eval contents =
      (continuation (script.eval contents).1).eval (script.eval contents).2 := by
  unfold eval
  rw [perform_followedBy]

theorem eval_attempt (script : Script α) :
    script.attempt.eval contents = (.ok (script.eval contents).1, (script.eval contents).2) :=
  eval_followedBy contents script _

theorem eval_bind (script : Script α) (next : α → Script β) :
    (script >>= next).eval contents =
      match script.eval contents with
      | (.ok result, after) => (next result).eval after
      | (.error failure, after) => (.error failure, after) := by
  unfold eval
  rw [perform_bind]
  unfold Performance.andThen
  obtain ⟨outcome, contents, calls⟩ := script.perform contents
  cases outcome <;> rfl

theorem eval_read (key : Key) : (read key).eval contents = (.ok (contents.get? key), contents) :=
  rfl

theorem eval_write (key : Key) (value : Value) :
    (write key value).eval contents = (.ok (), contents.insert key value) := rfl

theorem eval_erase (key : Key) : (erase key).eval contents = (.ok (), contents.erase key) := rfl

end

/-! ### Laws -/

theorem perform_map (next : α → β) (script : Script α) (contents : Contents) :
    (next <$> script).perform contents =
      ⟨(script.perform contents).outcome.map next, (script.perform contents).contents,
        (script.perform contents).calls⟩ := by
  refine (perform_bind script (fun result ↦ pure (next result)) contents).trans ?_
  obtain ⟨outcome, after, calls⟩ := script.perform contents
  cases outcome with
  | ok result =>
    unfold Performance.andThen
    dsimp only [pure, perform]
    rw [List.append_nil]
    rfl
  | error failure => rfl

theorem eval_map (next : α → β) (script : Script α) (contents : Contents) :
    (next <$> script).eval contents =
      ((script.eval contents).1.map next, (script.eval contents).2) := by
  simp only [eval, perform_map]

theorem pure_bind (result : α) (next : α → Script β) : (pure result >>= next) = next result := rfl

theorem finish_bind (outcome : Except Failure α) (next : α → Script β) :
    (finish outcome >>= next) =
      match outcome with
      | .ok result => next result
      | .error failure => finish (.error failure) := by
  cases outcome <;> rfl

theorem bind_assoc {γ : Type} (script : Script α) (next : α → Script β) (last : β → Script γ) :
    (script >>= next >>= last) = script >>= fun result ↦ next result >>= last := by
  induction script with
  | finish outcome => cases outcome <;> rfl
  | get key continuation ih => exact congrArg (get key) (funext ih)
  | scanStem stem continuation ih => exact congrArg (scanStem stem) (funext ih)
  | scanRange first last continuation ih => exact congrArg (scanRange first last) (funext ih)
  | put key value continuation ih => exact congrArg (put key value) (funext ih)
  | delete key continuation ih => exact congrArg (delete key) (funext ih)

/-! ### Plain scripts -/

/-- A script that ends with the failure of an access that fails, scans only if it may, and changes
only keys that it may. -/
inductive Plain (mayScan : Prop) (mayChange : Key → Prop) : Script α → Prop
  | finish (outcome : Except Failure α) : Plain mayScan mayChange (finish outcome)
  | get {key next} (hfailure : ∀ failure, next (.error failure) = .finish (.error failure))
    (hnext : ∀ found?, Plain mayScan mayChange (next (.ok found?))) :
    Plain mayScan mayChange (get key next)
  | scanStem {stem next} (hscan : mayScan)
    (hfailure : ∀ failure, next (.error failure) = .finish (.error failure))
    (hnext : ∀ rows, Plain mayScan mayChange (next (.ok rows))) :
    Plain mayScan mayChange (scanStem stem next)
  | scanRange {first last next} (hscan : mayScan)
    (hfailure : ∀ failure, next (.error failure) = .finish (.error failure))
    (hnext : ∀ rows, Plain mayScan mayChange (next (.ok rows))) :
    Plain mayScan mayChange (scanRange first last next)
  | put {key value next} (hchange : mayChange key)
    (hfailure : ∀ failure, next (.error failure) = .finish (.error failure))
    (hnext : Plain mayScan mayChange (next (.ok ()))) : Plain mayScan mayChange (put key value next)
  | delete {key next} (hchange : mayChange key)
    (hfailure : ∀ failure, next (.error failure) = .finish (.error failure))
    (hnext : Plain mayScan mayChange (next (.ok ()))) : Plain mayScan mayChange (delete key next)

section

variable {mayScan : Prop} {mayChange : Key → Prop}

theorem Plain.bind {script : Script α} (hscript : script.Plain mayScan mayChange)
    {next : α → Script β} (hnext : ∀ result, (next result).Plain mayScan mayChange) :
    (script >>= next).Plain mayScan mayChange := by
  have hpassed {answer : Type} {continuation : Except Failure answer → Script α}
      (hfailure : ∀ failure, continuation (.error failure) = .finish (.error failure))
      (failure : Failure) :
      (continuation (.error failure)).bind next = .finish (.error failure) := by
    rw [hfailure]
    rfl
  induction hscript with
  | finish outcome =>
    cases outcome with
    | ok result => exact hnext result
    | error failure => exact .finish _
  | get hfailure _ ih => exact .get (hpassed hfailure) ih
  | scanStem hscan hfailure _ ih => exact .scanStem hscan (hpassed hfailure) ih
  | scanRange hscan hfailure _ ih => exact .scanRange hscan (hpassed hfailure) ih
  | put hchange hfailure _ ih => exact .put hchange (hpassed hfailure) ih
  | delete hchange hfailure _ ih => exact .delete hchange (hpassed hfailure) ih

theorem Plain.map {script : Script α} (hplain : script.Plain mayScan mayChange) (next : α → β) :
    (next <$> script).Plain mayScan mayChange :=
  hplain.bind fun _ ↦ .finish _

/-- A script within narrow bounds is within wider ones. -/
theorem Plain.mono {script : Script α} (hplain : script.Plain mayScan mayChange) {others : Prop}
    {more : Key → Prop} (hscan : mayScan → others) (hchange : ∀ key, mayChange key → more key) :
    script.Plain others more := by
  induction hplain with
  | finish outcome => exact .finish outcome
  | get hfailure _ ih => exact .get hfailure ih
  | scanStem hmay hfailure _ ih => exact .scanStem (hscan hmay) hfailure ih
  | scanRange hmay hfailure _ ih => exact .scanRange (hscan hmay) hfailure ih
  | put hmay hfailure _ ih => exact .put (hchange _ hmay) hfailure ih
  | delete hmay hfailure _ ih => exact .delete (hchange _ hmay) hfailure ih

theorem plain_pure (result : α) : (pure result : Script α).Plain mayScan mayChange := .finish _

theorem plain_throw (failure : Failure) : (throw failure : Script α).Plain mayScan mayChange :=
  .finish _

theorem plain_read (key : Key) : (read key).Plain mayScan mayChange :=
  .get (fun _ ↦ rfl) fun _ ↦ .finish _

theorem plain_readStem (hscan : mayScan) (stem : Key) :
    (readStem stem).Plain mayScan mayChange :=
  .scanStem hscan (fun _ ↦ rfl) fun _ ↦ .finish _

theorem plain_readRange (hscan : mayScan) (first last : Key) :
    (readRange first last).Plain mayScan mayChange :=
  .scanRange hscan (fun _ ↦ rfl) fun _ ↦ .finish _

theorem plain_write {key : Key} (hchange : mayChange key) (value : Value) :
    (write key value).Plain mayScan mayChange :=
  .put hchange (fun _ ↦ rfl) (.finish _)

theorem plain_erase {key : Key} (hchange : mayChange key) :
    (erase key).Plain mayScan mayChange := .delete hchange (fun _ ↦ rfl) (.finish _)

theorem leads_finish {outcome ended : Except Failure α} {calls : List Call}
    (hleads : (finish outcome).Leads calls (finish ended)) : calls = [] ∧ outcome = ended := by
  cases hleads
  exact ⟨rfl, rfl⟩

/-- One script and then another come to an end by way of the outcome of the first. -/
theorem leads_followedBy {script : Script α} {continuation : Except Failure α → Script β}
    {calls : List Call} {outcome : Except Failure β}
    (hleads : (script.followedBy continuation).Leads calls (.finish outcome)) :
    ∃ first between rest, calls = first ++ rest ∧ script.Leads first (.finish between) ∧
      (continuation between).Leads rest (.finish outcome) := by
  induction script generalizing calls with
  | finish between => exact ⟨[], between, calls, rfl, .nil _, hleads⟩
  | get key next ih =>
    cases hleads with
    | got hrest =>
      obtain ⟨first, between, rest, rfl, hfirst, hlast⟩ := ih _ hrest
      exact ⟨_ :: first, between, rest, rfl, .got hfirst, hlast⟩
    | getRefused hrest =>
      obtain ⟨first, between, rest, rfl, hfirst, hlast⟩ := ih _ hrest
      exact ⟨_ :: first, between, rest, rfl, .getRefused hfirst, hlast⟩
  | scanStem stem next ih =>
    cases hleads with
    | scannedStem hrest =>
      obtain ⟨first, between, rest, rfl, hfirst, hlast⟩ := ih _ hrest
      exact ⟨_ :: first, between, rest, rfl, .scannedStem hfirst, hlast⟩
    | scanStemRefused hrest =>
      obtain ⟨first, between, rest, rfl, hfirst, hlast⟩ := ih _ hrest
      exact ⟨_ :: first, between, rest, rfl, .scanStemRefused hfirst, hlast⟩
  | scanRange start stop next ih =>
    cases hleads with
    | scannedRange hrest =>
      obtain ⟨first, between, rest, rfl, hfirst, hlast⟩ := ih _ hrest
      exact ⟨_ :: first, between, rest, rfl, .scannedRange hfirst, hlast⟩
    | scanRangeRefused hrest =>
      obtain ⟨first, between, rest, rfl, hfirst, hlast⟩ := ih _ hrest
      exact ⟨_ :: first, between, rest, rfl, .scanRangeRefused hfirst, hlast⟩
  | put key value next ih =>
    cases hleads with
    | put hrest =>
      obtain ⟨first, between, rest, rfl, hfirst, hlast⟩ := ih _ hrest
      exact ⟨_ :: first, between, rest, rfl, .put hfirst, hlast⟩
    | putRefused hrest =>
      obtain ⟨first, between, rest, rfl, hfirst, hlast⟩ := ih _ hrest
      exact ⟨_ :: first, between, rest, rfl, .putRefused hfirst, hlast⟩
  | delete key next ih =>
    cases hleads with
    | deleted hrest =>
      obtain ⟨first, between, rest, rfl, hfirst, hlast⟩ := ih _ hrest
      exact ⟨_ :: first, between, rest, rfl, .deleted hfirst, hlast⟩
    | deleteRefused hrest =>
      obtain ⟨first, between, rest, rfl, hfirst, hlast⟩ := ih _ hrest
      exact ⟨_ :: first, between, rest, rfl, .deleteRefused hfirst, hlast⟩

/-- All calls of a plain script are within its bounds, and none of them failed unless the script
ends with that failure. -/
theorem Plain.calls {script : Script α} (hplain : script.Plain mayScan mayChange)
    {calls : List Call} {outcome : Except Failure α}
    (hleads : script.Leads calls (.finish outcome)) :
    (∀ call ∈ calls, call.Within mayScan mayChange) ∧
      (Unrefused calls ∨ ∃ failure, Call.refused failure ∈ calls ∧ outcome = .error failure) := by
  have hlast {failure : Failure} {rest : List Call}
      (hrest : (Script.finish (.error failure)).Leads rest (.finish outcome)) :
      (∀ call ∈ Call.refused failure :: rest, call.Within mayScan mayChange) ∧
        (Unrefused (.refused failure :: rest) ∨
          ∃ other, Call.refused other ∈ Call.refused failure :: rest ∧
            outcome = .error other) := by
    obtain ⟨rfl, rfl⟩ := leads_finish hrest
    refine ⟨List.forall_mem_singleton.mpr ⟨fun hscan ↦ ?_, fun key hkey ↦ ?_⟩,
      Or.inr ⟨failure, List.mem_cons_self, rfl⟩⟩
    · cases hscan
    · cases hkey
  have hmore {call : Call} {rest : List Call} (hcall : call.Within mayScan mayChange)
      (hrefused : call.isRefused = false)
      (hrest : (∀ call ∈ rest, call.Within mayScan mayChange) ∧
        (Unrefused rest ∨ ∃ failure, Call.refused failure ∈ rest ∧ outcome = .error failure)) :
      (∀ other ∈ call :: rest, other.Within mayScan mayChange) ∧
        (Unrefused (call :: rest) ∨
          ∃ failure, Call.refused failure ∈ call :: rest ∧ outcome = .error failure) :=
    ⟨List.forall_mem_cons.mpr ⟨hcall, hrest.1⟩, hrest.2.imp
      (fun hunrefused ↦ List.forall_mem_cons.mpr ⟨hrefused, hunrefused⟩)
      fun ⟨failure, hmem, houtcome⟩ ↦ ⟨failure, List.mem_cons_of_mem _ hmem, houtcome⟩⟩
  induction hplain generalizing calls with
  | finish ended =>
    obtain ⟨rfl, -⟩ := leads_finish hleads
    exact ⟨List.forall_mem_nil _, Or.inl (List.forall_mem_nil _)⟩
  | get hfailure _ ih =>
    cases hleads with
    | got hrest => exact hmore ⟨nofun, nofun⟩ rfl (ih _ hrest)
    | getRefused hrest => exact hlast (hfailure _ ▸ hrest)
  | scanStem hscan hfailure _ ih =>
    cases hleads with
    | scannedStem hrest => exact hmore ⟨fun _ ↦ hscan, nofun⟩ rfl (ih _ hrest)
    | scanStemRefused hrest => exact hlast (hfailure _ ▸ hrest)
  | scanRange hscan hfailure _ ih =>
    cases hleads with
    | scannedRange hrest => exact hmore ⟨fun _ ↦ hscan, nofun⟩ rfl (ih _ hrest)
    | scanRangeRefused hrest => exact hlast (hfailure _ ▸ hrest)
  | put hchange hfailure _ ih =>
    cases hleads with
    | put hrest =>
      exact hmore ⟨nofun, fun key hkey ↦ Option.some.inj hkey ▸ hchange⟩ rfl (ih hrest)
    | putRefused hrest => exact hlast (hfailure _ ▸ hrest)
  | delete hchange hfailure _ ih =>
    cases hleads with
    | deleted hrest =>
      exact hmore ⟨nofun, fun key hkey ↦ Option.some.inj hkey ▸ hchange⟩ rfl (ih hrest)
    | deleteRefused hrest => exact hlast (hfailure _ ▸ hrest)

/-- A plain script that may not scan does not. -/
theorem Plain.scanFree {script : Script α} (hplain : script.Plain False mayChange)
    {calls : List Call} {outcome : Except Failure α}
    (hleads : script.Leads calls (.finish outcome)) : ScanFree calls := fun call hcall ↦
  Bool.eq_false_iff.mpr ((hplain.calls hleads).1 call hcall).scans

/-- A plain script that has a result has met no failure. -/
theorem Plain.unrefused {script : Script α} (hplain : script.Plain mayScan mayChange)
    {calls : List Call} {result : α} (hleads : script.Leads calls (.finish (.ok result))) :
    Unrefused calls := by
  rcases (hplain.calls hleads).2 with hunrefused | ⟨failure, -, hfailure⟩
  · exact hunrefused
  · cases hfailure

/-- A plain script changes only keys that it may. -/
theorem Plain.not_changed {script : Script α} (hplain : script.Plain mayScan mayChange)
    {calls : List Call} {outcome : Except Failure α}
    (hleads : script.Leads calls (.finish outcome)) {key : Key} (hkey : ¬ mayChange key) :
    ¬ Changed calls key := fun ⟨call, hcall, hchanged⟩ ↦
  hkey (((hplain.calls hleads).1 call hcall).changes key hchanged)

theorem Plain.get?_eval {script : Script α} (hplain : script.Plain mayScan mayChange)
    (contents : Contents) {key : Key} (hkey : ¬ mayChange key) :
    (script.eval contents).2.get? key = contents.get? key := by
  obtain ⟨hleads, -, heffect⟩ := leads_perform script contents
  rw [eval, heffect, get?_effectOf (hplain.not_changed hleads hkey)]

end

end Script

end RunLedger
