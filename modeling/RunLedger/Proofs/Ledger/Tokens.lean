import RunLedger.Proofs.Ledger.Refusals
import RunLedger.Proofs.Ledger.Repetition
import RunLedger.Proofs.Stored.Faithfulness
import RunLedger.Proofs.Workflow.Token

/-!
# Tokens that are stored and loaded

A token is written to in memory, and from time to time it is stored for its workflow run and loaded
again (`Ledger.carryToken`). What comes back from a ledger is what was stored there
(`Sound.reloads`), so the token holds what its writes have left, wherever it was in between
(`token_holds_last_writes`).
-/

set_option autoImplicit false

namespace RunLedger

open Script

variable {α : Type}

/-- What is done with a token: a node writes to it, or it is stored and loaded again. -/
inductive TokenStep where
  | write (write : TokenWrite)
  | reload

namespace TokenStep

/-- The write of a step, if it is one. -/
def write? : TokenStep → Option TokenWrite
  | .write made => some made
  | .reload => none

/-- Whether the token is stored and loaded again. -/
def isReload : TokenStep → Bool
  | .write _ => false
  | .reload => true

end TokenStep

namespace Progress

variable {contents : Contents} {workflow : ProgramId} {id : RunId}

/-- The token of a run that is there is the one that lies under its key. -/
theorem eval_token (hconsistent : contents.Consistent)
    (hrun : (contents.run? workflow id).isSome = true) {token : WorkflowToken}
    (htoken : contents.get? (Key.workflowToken workflow id) = some (.ofRecord token)) :
    (Progress.token workflow id).eval contents = (.ok token, contents) := by
  obtain ⟨record, hrecord⟩ := Option.isSome_iff_exists.mp hrun
  have hrequire : (Runs.require workflow id).eval contents = (.ok record, contents) := by
    rw [Runs.require, eval_bind, Runs.eval_find? hconsistent, hrecord]
    rfl
  have hdecode : (Script.decode (.ofRecord token) : Script WorkflowToken).eval contents =
      (.ok token, contents) := by
    rw [Script.decode, decode_of_readsBack readsBack_workflowToken]
    rfl
  rw [Progress.token, eval_bind, hrequire]
  dsimp only
  rw [eval_bind, eval_read, htoken]
  exact hdecode

theorem plain_token {mayScan : Prop} {mayChange : Key → Prop} (workflow : ProgramId) (id : RunId) :
    (token workflow id).Plain mayScan mayChange := by
  refine (Runs.plain_require workflow id).bind fun _ ↦ (plain_read _).bind fun found? ↦ ?_
  cases found? with
  | none => exact plain_pure _
  | some value => exact Runs.plain_decode value

end Progress

/-- A script that changes no key makes no version. -/
theorem Database.Performs.version_eq {before after : Database} {script : Script α}
    {outcome : Except Failure α} (hperforms : before.Performs script outcome after)
    (hcalls : ∀ key, ¬ Changed (script.perform before.live).calls key) :
    after.version = before.version := by
  cases hperforms with
  | done _ _ hnumbered =>
    exact hnumbered.resolve_right fun ⟨_, key, hchanged⟩ ↦ hcalls key hchanged
  | failed _ _ hnumber => exact hnumber
  | outage _ hnumber => exact hnumber

namespace Ledger

variable {ledger : Ledger} {workflow : ProgramId} {id : RunId}

/-- A script that changes nothing and comes to a result on the live values gives it, unless the
store fails, and leaves the ledger as it was. -/
theorem Sound.looks (hsound : ledger.Sound) {script : Script α}
    (hplain : script.Plain False fun _ ↦ False) {result : α}
    (heval : script.eval ledger.live = (.ok result, ledger.live)) :
    ((ledger.perform script).1 = .ok result ∨
        (∃ failure, (ledger.perform script).1 = .error failure) ∧ ledger.database.MayFail) ∧
      ledger.database.Succeeds (ledger.perform script).2.database ∧
      (ledger.perform script).2.Sound ∧ (ledger.perform script).2.live = ledger.live ∧
      (ledger.perform script).2.version = ledger.version := by
  have houtcome : (script.perform ledger.live).outcome = .ok result := congrArg Prod.fst heval
  obtain ⟨hperforms, hsucceeds⟩ := Database.performs_transactRetrying hsound.wellFormed hplain
    (fun failure hfailure ↦ by cases houtcome.symm.trans hfailure) ledger.config.retry
  have hlive : (ledger.perform script).2.live = ledger.live := by
    refine hperforms.live_eq.elim id fun hafter ↦ hafter.trans ?_
    exact congrArg Prod.snd heval
  have hleft : (ledger.perform script).2.Sound :=
    ⟨hsucceeds.wellFormed, hlive.symm ▸ hsound.consistent⟩
  refine ⟨?_, hsucceeds, hleft, hlive, ?_⟩
  · by_cases hfails : ledger.database.MayFail
    · cases hanswer : (ledger.perform script).1 with
      | error failure => exact Or.inr ⟨⟨failure, rfl⟩, hfails⟩
      | ok answer =>
        have hdone := congrArg Prod.fst (hanswer ▸ hperforms : Database.Performs ..).eval_eq
        exact Or.inl (hdone.symm.trans (congrArg Prod.fst heval))
    · have hreads : ∀ serial, ledger.database.substrate.failsRead serial = false := fun serial ↦
        Bool.eq_false_iff.mpr fun hserial ↦ hfails ⟨serial, Or.inl hserial⟩
      exact Or.inl (Database.transactRetrying_of_quiet hreads (congrArg Prod.fst heval)
        (hplain.quiet _) ledger.config.retry).1
  · have hcalls : ∀ key, ¬ Changed (script.perform ledger.live).calls key := fun key ↦
      hplain.not_changed (Script.leads_perform script ledger.live).1 not_false
    exact hperforms.version_eq hcalls

/-- A token is stored, unless its run is not there, the store fails or its versions have run out. -/
theorem Sound.stores (hsound : ledger.Sound) (workflow : ProgramId) (id : RunId)
    (token : WorkflowToken) :
    ((ledger.putToken workflow id token).1 = .ok () ∧
        (ledger.live.run? workflow id).isSome = true ∧
        (ledger.putToken workflow id token).2.live =
          ledger.live.insert (Key.workflowToken workflow id) (.ofRecord token) ∧
        (ledger.putToken workflow id token).2.version ≤ ledger.version + 1 ∨
      (∃ failure, (ledger.putToken workflow id token).1 = .error failure) ∧
        (ledger.live.run? workflow id = none ∨ ledger.database.MayFail ∨
          UInt64.size ≤ ledger.version + 1)) ∧
      ledger.database.Succeeds (ledger.putToken workflow id token).2.database ∧
      (ledger.putToken workflow id token).2.Sound := by
  have heval := Runs.eval_require_write hsound.consistent workflow id
    (Key.workflowToken workflow id) (.ofRecord token)
  rw [← Progress.putToken] at heval
  have hplain : (Progress.putToken workflow id token).Plain False
      fun key ↦ key.family = .workflowToken :=
    (Runs.plain_require workflow id).bind fun _ ↦
      plain_write (show (Key.workflowToken workflow id).family = .workflowToken from rfl) _
  have hsettled : Unconflicting ((Progress.putToken workflow id token).eval ledger.live).1 := by
    rw [heval]
    cases ledger.live.run? workflow id with
    | none => exact unconflicting_error rfl
    | some record => exact unconflicting_ok ()
  obtain ⟨hperforms, hsucceeds, hstored⟩ :=
    hsound.perform (.putToken workflow id token) rfl not_false hplain hsettled
  refine ⟨?_, hsucceeds, hstored⟩
  rw [← putToken] at hperforms
  generalize ledger.putToken workflow id token = answered at hperforms ⊢
  obtain ⟨outcome, stored⟩ := answered
  cases hrun : ledger.live.run? workflow id with
  | none =>
    rw [hrun] at heval
    refine Or.inr ⟨?_, Or.inl rfl⟩
    cases hperforms with
    | done hresult => cases (congrArg Prod.fst heval).symm.trans hresult
    | failed => exact ⟨_, rfl⟩
    | outage => exact ⟨_, rfl⟩
  | some record =>
    rw [hrun] at heval
    cases hperforms with
    | failed hfailure => cases (congrArg Prod.fst heval).symm.trans hfailure
    | outage _ _ hfails => exact Or.inr ⟨⟨_, rfl⟩, Or.inr hfails⟩
    | done _ hlive hnumbered =>
      refine Or.inl ⟨rfl, rfl, hlive.trans (congrArg Prod.snd heval), ?_⟩
      rcases hnumbered with hsame | ⟨hnext, -⟩
      · exact Nat.le_succ_of_le (Nat.le_of_eq hsame)
      · exact Nat.le_of_eq hnext

/-- A token that is written takes its place, and leaves its run. -/
theorem run?_and_token_of_live {contents : Contents} {token : WorkflowToken}
    (hrun : (contents.run? workflow id).isSome = true) {after : Contents}
    (hafter : after = contents.insert (Key.workflowToken workflow id) (.ofRecord token)) :
    (after.run? workflow id).isSome = true ∧
      after.get? (Key.workflowToken workflow id) = some (.ofRecord token) := by
  have hkey : Key.run workflow id ≠ Key.workflowToken workflow id := fun hkey ↦
    absurd (congrArg Key.family hkey) (show Family.run ≠ .workflowToken by decide)
  constructor
  · rw [Contents.run?, hafter, Contents.get?_insert, if_neg hkey]
    exact hrun
  · rw [hafter, Contents.get?_insert, if_pos rfl]

/-- The token that lies there for a run is loaded, unless the store fails. -/
theorem Sound.loads (hsound : ledger.Sound)
    (hrun : (ledger.live.run? workflow id).isSome = true) {token : WorkflowToken}
    (htoken : ledger.live.get? (Key.workflowToken workflow id) = some (.ofRecord token)) :
    ((ledger.token workflow id).1 = .ok token ∨
        (∃ failure, (ledger.token workflow id).1 = .error failure) ∧ ledger.database.MayFail) ∧
      ledger.database.Succeeds (ledger.token workflow id).2.database ∧
      (ledger.token workflow id).2.Sound ∧ (ledger.token workflow id).2.live = ledger.live ∧
      (ledger.token workflow id).2.version = ledger.version :=
  hsound.looks (Progress.plain_token workflow id)
    (Progress.eval_token hsound.consistent hrun htoken)

/-- What a token becomes by steps, when it is kept in a ledger for a workflow run. -/
def carryToken (workflow : ProgramId) (id : RunId) :
    WorkflowToken → Ledger → List TokenStep → Except Failure WorkflowToken × Ledger
  | token, ledger, [] => (.ok token, ledger)
  | token, ledger, .write made :: rest =>
    carryToken workflow id (token.put made.key made.value made.node) ledger rest
  | token, ledger, .reload :: rest =>
    match ledger.putToken workflow id token with
    | (.error failure, ledger) => (.error failure, ledger)
    | (.ok (), ledger) =>
      match ledger.token workflow id with
      | (.error failure, ledger) => (.error failure, ledger)
      | (.ok token, ledger) => carryToken workflow id token ledger rest

/-- A token that is stored and loaded again goes on as it was, unless its run is not there, the
store fails or its versions have run out. -/
theorem Sound.reloads (hsound : ledger.Sound) (workflow : ProgramId) (id : RunId)
    (token : WorkflowToken) (rest : List TokenStep) :
    (∃ left : Ledger, ledger.carryToken workflow id token (.reload :: rest) =
          left.carryToken workflow id token rest ∧
        (left.live.run? workflow id).isSome = true ∧ left.version ≤ ledger.version + 1 ∧
        (left.database.MayFail ↔ ledger.database.MayFail) ∧ left.Sound) ∨
      (∃ failure, (ledger.carryToken workflow id token (.reload :: rest)).1 = .error failure) ∧
        (ledger.live.run? workflow id = none ∨ ledger.database.MayFail ∨
          UInt64.size ≤ ledger.version + 1) := by
  obtain ⟨hanswer, hsucceeds, hstored⟩ := hsound.stores workflow id token
  rw [carryToken]
  generalize ledger.putToken workflow id token = answered at hanswer hsucceeds hstored ⊢
  obtain ⟨outcome, stored⟩ := answered
  obtain ⟨rfl, hrun, hlive, hnumbered⟩ | ⟨⟨failure, rfl⟩, hwhy⟩ := hanswer
  · obtain ⟨hthere, htoken⟩ := run?_and_token_of_live hrun hlive
    obtain ⟨hloaded, hfollows, hleft, hsame, hnumber⟩ := hstored.loads hthere htoken
    dsimp only at hsucceeds hnumbered hloaded hfollows hleft hsame hnumber ⊢
    generalize stored.token workflow id = answered at hloaded hfollows hleft hsame hnumber ⊢
    obtain ⟨outcome, left⟩ := answered
    obtain rfl | ⟨⟨failure, rfl⟩, hfails⟩ := hloaded
    · refine Or.inl ⟨left, rfl, ?_, hnumber.trans_le hnumbered, ?_, hleft⟩
      · exact hsame.symm ▸ hthere
      · exact hfollows.mayFail_iff.trans hsucceeds.mayFail_iff
    · exact Or.inr ⟨⟨failure, rfl⟩, Or.inr (Or.inl (hsucceeds.mayFail_iff.mp hfails))⟩
  · exact Or.inr ⟨⟨failure, rfl⟩, hwhy⟩

/-- A token that comes through holds what it has been given on the way. It does, unless its run is
not there, the store fails or its versions run out. -/
theorem Sound.carryToken_eq (hsound : ledger.Sound) (workflow : ProgramId) (id : RunId)
    (token : WorkflowToken) (steps : List TokenStep) :
    (ledger.carryToken workflow id token steps).1 =
        .ok (token.writeAll (steps.filterMap TokenStep.write?)) ∨
      (∃ failure, (ledger.carryToken workflow id token steps).1 = .error failure) ∧
        (ledger.live.run? workflow id = none ∨ ledger.database.MayFail ∨
          UInt64.size ≤ ledger.version + steps.countP TokenStep.isReload) := by
  induction steps generalizing ledger token with
  | nil => exact Or.inl rfl
  | cons step rest ih =>
    cases step with
    | write made =>
      have hcount : (TokenStep.write made :: rest).countP TokenStep.isReload =
          rest.countP TokenStep.isReload := List.countP_cons_of_neg Bool.false_ne_true
      rw [hcount]
      exact ih hsound (token.put made.key made.value made.node)
    | reload =>
      have hcount : (TokenStep.reload :: rest).countP TokenStep.isReload =
          rest.countP TokenStep.isReload + 1 := List.countP_cons_of_pos rfl
      rw [hcount, List.filterMap_cons_none rfl]
      obtain ⟨left, hcarry, hthere, hnumbered, hfails, hleft⟩ | ⟨hfailure, hwhy⟩ :=
        hsound.reloads workflow id token rest
      · rw [hcarry]
        refine (ih hleft token).imp_right (And.imp_right fun hwhy ↦ Or.inr ?_)
        refine (hwhy.resolve_left ?_).imp hfails.mp fun hfull ↦ ?_
        · exact Option.isSome_iff_ne_none.mp hthere
        · omega
      · refine Or.inr ⟨hfailure, hwhy.imp_right (Or.imp_right fun hfull ↦ ?_)⟩
        omega

end Ledger

/-- A token that starts empty for a workflow run, and is written to, stored and loaded again at
will, comes through if the run is there, the store does not fail and its versions last. A token that
comes through is the one that its writes make by themselves. Under each key it has one entry for
each node that wrote there, with the last value of this node, in the order of these last writes. The
value of a key is that of the last write to it, and a node finds that of its own last write; there
is none where nothing was written. The keys are those that were written to, once each and in byte
order. Further writes to other keys leave all of this. -/
theorem token_holds_last_writes {ledger : Ledger} (hreached : ledger.Reached)
    (plan : Ledger.FailurePlan) (workflow : ProgramId) (id : RunId) (steps : List TokenStep) :
    let carried := ((ledger.under plan).carryToken workflow id .empty steps).1
    let writes := steps.filterMap TokenStep.write?
    ((ledger.live.run? workflow id).isSome = true → (∀ serial, plan.failsRead serial = false) →
      (∀ serial, plan.failsWrite serial = false) →
      ledger.version + steps.countP TokenStep.isReload < UInt64.size →
        ∃ token, carried = .ok token) ∧
    ∀ token, carried = .ok token →
      token = WorkflowToken.empty.writeAll writes ∧ token.Keeps writes ∧
      (∀ key, token.get? key = none ↔ ∀ write ∈ writes, write.key ≠ key) ∧
      (∀ key node, token.getFromNode? key node = none ↔
        ∀ write ∈ writes, ¬ (write.key = key ∧ write.node = node)) ∧
      (token.keys.Pairwise fun first second ↦
        compare (Text.utf8 first) (Text.utf8 second) = .lt) ∧
      ∀ key others, (∀ write ∈ others, write.key ≠ key) →
        (token.writeAll others).all key = token.all key ∧
        (token.writeAll others).get? key = token.get? key ∧
        (∀ node, (token.writeAll others).getFromNode? key node = token.getFromNode? key node) ∧
        (key ∈ (token.writeAll others).keys ↔ key ∈ token.keys) := by
  intro carried writes
  have hcarried := (hreached.sound plan).carryToken_eq workflow id .empty steps
  constructor
  · intro hrun hreads hwrites hversions
    refine hcarried.elim (fun hthrough ↦ ⟨_, hthrough⟩) fun ⟨_, hwhy⟩ ↦ ?_
    rcases hwhy with hnone | hfails | hfull
    · exact absurd hnone (Option.isSome_iff_ne_none.mp hrun)
    · exact absurd hfails (hreached.serves hreads hwrites).reliable
    · exact absurd hversions (Nat.not_lt_of_le hfull)
  · intro token htoken
    obtain rfl : token = WorkflowToken.empty.writeAll writes := by
      obtain hthrough | ⟨⟨failure, hfailure⟩, -⟩ := hcarried
      · exact Except.ok.inj (htoken.symm.trans hthrough)
      · cases htoken.symm.trans hfailure
    have hkeeps := WorkflowToken.keeps_writeAll writes
    refine ⟨rfl, hkeeps, fun key ↦ ?_, fun key node ↦ ?_, WorkflowToken.ascending_keys _,
      fun key others hothers ↦ WorkflowToken.writeAll_of_ne _ hothers⟩
    · rw [hkeeps.get?, Option.map_eq_none_iff, WorkflowToken.last?_eq_none_iff]
    · rw [hkeeps.getFromNode?, Option.map_eq_none_iff, WorkflowToken.lastBy?_eq_none_iff]

/-- Two nodes write under a key and the first one does again, and the token is stored and loaded
again in between and at the end. -/
def twoWriters : List TokenStep :=
  [.write ⟨"k", "1", "a"⟩, .write ⟨"k", "2", "b"⟩, .reload, .write ⟨"k", "3", "a"⟩,
    .write ⟨"j", "4", "b"⟩, .reload]

/-- The entry of the node that wrote again is behind that of the other one. -/
theorem token_holds_last_writes_twoWriters :
    storedNights.Reached ∧
    ∃ token, ((storedNights.under ⟨fun _ ↦ false, fun _ ↦ false⟩).carryToken nightly firstNight
        .empty twoWriters).1 = .ok token ∧
      token.all "k" = [⟨"b", "2"⟩, ⟨"a", "3"⟩] ∧ token.get? "k" = some "3" ∧
      token.getFromNode? "k" "b" = some "2" ∧ token.get? "l" = none ∧ token.keys = ["j", "k"] := by
  have hreached : storedNights.Reached :=
    Ledger.reached_run (fun _ ↦ false) (fun _ ↦ false) .standard twoNights ⟨1, .standard⟩
  obtain ⟨hthere, hversions⟩ :
      storedNights.live.contains (Key.run nightly firstNight) = true ∧
      storedNights.version + twoWriters.countP TokenStep.isReload < UInt64.size := by
    decide +kernel
  rw [hreached.consistent.contains_run] at hthere
  obtain ⟨hthrough, hholds⟩ := token_holds_last_writes hreached ⟨fun _ ↦ false, fun _ ↦ false⟩
    nightly firstNight twoWriters
  obtain ⟨token, htoken⟩ := hthrough hthere (fun _ ↦ rfl) (fun _ ↦ rfl) hversions
  obtain ⟨rfl, -, hnone, -⟩ := hholds token htoken
  exact ⟨hreached, _, htoken, by decide +kernel, by decide +kernel, by decide +kernel,
    (hnone "l").mpr (by decide +kernel), by decide +kernel⟩

end RunLedger
