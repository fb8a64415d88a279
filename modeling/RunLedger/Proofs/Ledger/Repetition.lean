import RunLedger.Proofs.Ledger.Aggregation
import RunLedger.Proofs.Ledger.Frame
import RunLedger.Proofs.Ledger.Listings
import RunLedger.Proofs.Ledger.SummarySoundness
import RunLedger.Proofs.Ledger.TerminalStatus

/-!
# Starts and stops that are repeated

A start that has gone through can be asked for again, and a stop as well, with another time and
another cause of failure: nothing changes any more (`starts_and_stops_repeat`). The second start
builds its record from the request anew, and it is the one that lies there: the nodes are kept, and
the node run is listed on its workflow run already (`Runs.eval_start_again`). The second stop finds a
run that has stopped and gives its record (`Runs.eval_stop_of_stopped`). If it is a completed
workflow run, the stop summarises it again, from the same records (`Script.Confined.eval_eval`).

A second start writes what is there, and so it needs a version for its commit. Where the versions
have run out, the store refuses it, and nothing changes either.
-/

set_option autoImplicit false

namespace RunLedger

variable {α : Type}

/-! ### Scripts that are performed again -/

/-- A script that changes nothing of what it may read does the same on the contents that it leaves,
and leaves them as they are. -/
theorem Script.Confined.eval_eval {script : Script α} {mayRead mayDelete : Key → Prop}
    (hscript : script.Confined mayRead mayDelete) {contents : Contents}
    (hkept : script.ChangesOnly (fun key ↦ ¬ mayRead key) contents) :
    script.eval (script.eval contents).2 = script.eval contents := by
  have hagree (key : Key) (hread : mayRead key) :
      (script.eval contents).2.get? key = contents.get? key :=
    hkept.get?_eval (not_not_intro hread)
  obtain ⟨-, -, heffect⟩ := leads_perform script contents
  unfold eval at hagree ⊢
  rw [hscript.perform_eq hagree]
  refine Prod.ext rfl (SortedMap.ext_get? fun key ↦ ?_)
  by_cases hchanged : Changed (script.perform contents).calls key
  · rw [heffect]
    exact get?_effectOf_of_changed hchanged _ _
  · exact get?_effectOf hchanged _

namespace Database

/-- A script that changes nothing where it has been performed already leaves the live values when it
is performed again. -/
theorem live_of_again {before after other : Database} {script : Script α}
    (hreliable : ¬ before.MayFail) {outcome : Except Failure α}
    (hfirst : before.Performs script outcome after) (hlive : other.live = after.live)
    (hversion : other.version = after.version)
    (hagain : (script.eval (script.eval before.live).2).2 = (script.eval before.live).2)
    {policy : RetryPolicy}
    (hsecond : other.Performs script (other.transactRetrying policy script).1
      (other.transactRetrying policy script).2) :
    (other.transactRetrying policy script).2.live = after.live := by
  cases hfirst with
  | outage hafter hunnumbered hfails =>
    have hfull := hfails.resolve_left hreliable
    rw [← hunnumbered, ← hversion] at hfull
    exact (transactRetrying_of_full hfull policy).trans hlive
  | failed hfailure hafter _ =>
    generalize other.transactRetrying policy script = answered at hsecond ⊢
    obtain ⟨told, last⟩ := answered
    cases hsecond with
    | done hresult =>
      rw [hlive, hafter, hfailure] at hresult
      cases hresult
    | failed _ hlast => exact hlast.trans hlive
    | outage hlast => exact hlast.trans hlive
  | done _ hafter _ =>
    generalize other.transactRetrying policy script = answered at hsecond ⊢
    obtain ⟨told, last⟩ := answered
    cases hsecond with
    | done _ hlast =>
      rw [hlive, hafter] at hlast
      exact hlast.trans (hagain.trans hafter.symm)
    | failed _ hlast => exact hlast.trans hlive
    | outage hlast => exact hlast.trans hlive

end Database

/-! ### Starts -/

namespace Start

/-- A node that is listed on a record is listed there once and for all. -/
theorem listedOn_listedOn (request : Start) (record : RunRecord) :
    request.listedOn (request.listedOn record) = request.listedOn record := by
  cases hnode : request.node? with
  | none => simp only [listedOn, hnode]
  | some named =>
    obtain ⟨workflow, id, node⟩ := named
    have hlisted (record : RunRecord) : request.listedOn record =
        if (workflow = record.program ∧ id = record.id) ∧ record.status.isTerminal = false then
          { record with workflowNodes := record.workflowNodes.insert node request.nodeRun }
        else record := by rw [listedOn, hnode]
    by_cases hlists : (workflow = record.program ∧ id = record.id) ∧
        record.status.isTerminal = false
    · rw [hlisted record, if_pos hlists, hlisted, if_pos hlists]
      refine congrArg (fun nodes ↦ { record with workflowNodes := nodes }) ?_
      refine SortedMap.insert_of_get?_eq ?_
      rw [SortedMap.get?_insert, if_pos Std.ReflCmp.compare_self]
    · rw [hlisted record, if_neg hlists, hlisted, if_neg hlists]

/-- A record that a start has made and listed is the one that it makes of it. -/
theorem startedOn_listedOn {request : Start} {current? : Option RunRecord} {record : RunRecord}
    (hstarted : Runs.startedOn request current? = .ok record) :
    Runs.startedOn request (some (request.listedOn record)) = .ok (request.listedOn record) := by
  obtain ⟨nodes, rfl⟩ : ∃ nodes, record = { request.record with workflowNodes := nodes } := by
    cases current? with
    | none => exact ⟨∅, (Except.ok.inj hstarted).symm⟩
    | some current =>
      unfold Runs.startedOn RunRecord.restarted at hstarted
      dsimp only at hstarted
      split at hstarted
      · exact ⟨current.workflowNodes, (Except.ok.inj hstarted).symm⟩
      · cases hstarted
  unfold listedOn
  split
  · rfl
  · split <;> rfl

end Start

namespace Runs

open Script

variable {contents after : Contents}

/-- A start that is repeated answers with the record that lies there, and changes nothing. -/
theorem eval_start_again (hconsistent : contents.Consistent) {request : Start} {record : RunRecord}
    (heval : (start request).eval contents = (.ok record, after)) :
    (start request).eval after = (.ok (request.listedOn record), after) ∧
      after.run? request.program request.id = some (request.listedOn record) := by
  have hafter := consistent_of_alters (alters_start hconsistent heval) hconsistent
  have hrun := (run?_start hconsistent.legible heval).2.2
  rw [eval_start hconsistent] at heval
  split at heval
  · cases heval
  rename_i htime
  split at heval
  · cases heval
  rename_i written hstarted
  obtain rfl : written = record := Except.ok.inj (Prod.mk.inj heval).1
  have hfound : after.run? request.program request.id = some (request.listedOn written) := by
    rw [hrun, if_pos ⟨rfl, rfl⟩, Option.map_some]
  obtain ⟨last, hagain⟩ : ∃ last,
      (start request).eval after = (.ok (request.listedOn written), last) := by
    rw [eval_start hafter, if_neg htime, hfound, Start.startedOn_listedOn hstarted]
    exact ⟨_, rfl⟩
  have hlast := consistent_of_alters (alters_start hafter hagain) hafter
  have hsame (program : ProgramId) (id : RunId) : last.run? program id = after.run? program id := by
    rw [(run?_start hafter.legible hagain).2.2]
    split
    · rename_i hown
      rw [hown.1, hown.2, hfound, Option.map_some, request.listedOn_listedOn]
    · rw [hrun, Option.map_map]
      exact congrArg (Option.map · _) (funext request.listedOn_listedOn)
  obtain rfl : last = after := by
    refine SortedMap.ext_get? fun key ↦ ?_
    by_cases htouched : (Operation.start request).Touches key
    · obtain ⟨run, -, hkey⟩ := htouched
      exact hafter.get?_eq_of_run?_eq hlast (hsame run.1 run.2) hkey
    · rw [← (changesOnly_start hafter request).get?_eval htouched, hagain]
  exact ⟨hagain, hfound⟩

/-! ### Stops -/

/-- A stop that has gone through leaves a record of its status. -/
theorem eval_stop_ok (hconsistent : contents.Consistent) {program : ProgramId} {id : RunId}
    {time : UInt64} {status : RunStatus} {cause? : Option FailureCause} {record : RunRecord}
    (heval : (stop program id time status cause?).eval contents = (.ok record, after)) :
    after.run? program id = some record ∧ record.status = status ∧ status.isTerminal = true := by
  obtain ⟨-, hrun⟩ := stores_stop program id time status cause? contents after record record
    hconsistent.legible heval rfl
  rw [stop_eq] at heval
  split at heval
  · rename_i hstatus
    refine ⟨hrun, ?_, hstatus⟩
    rw [eval_amend hconsistent _ _ _ (onlyMoves_halting time status cause?).decides] at heval
    split at heval
    · cases heval
    · rename_i current _
      cases hstopped : current.status.isTerminal with
      | true =>
        rw [halting_of_stopped hstatus hstopped] at heval
        by_cases hsame : status = current.status
        · rw [if_pos hsame] at heval
          exact Except.ok.inj (Prod.mk.inj heval).1 ▸ hsame.symm
        · rw [if_neg hsame] at heval
          cases heval
      | false =>
        obtain ⟨updated, hhalting, hsame⟩ := halting_of_open hstatus hstopped time cause?
        rw [hhalting] at heval
        exact Except.ok.inj (Prod.mk.inj heval).1 ▸ hsame
  · cases heval

/-- A run that has stopped in a status is asked to stop in it: the record stays, and is told. -/
theorem eval_stop_of_stopped (hconsistent : contents.Consistent) {program : ProgramId} {id : RunId}
    {record : RunRecord} (hrun : contents.run? program id = some record)
    (hstopped : record.status.isTerminal = true) (time : UInt64) (cause? : Option FailureCause) :
    (stop program id time record.status cause?).eval contents = (.ok record, contents) ∧
      (stop program id time record.status cause?).ChangesOnly (fun _ ↦ False) contents := by
  have hhalting : halting time record.status cause? record = .ok (none, record) := by
    rw [halting_of_stopped hstopped hstopped, if_pos rfl]
  rw [stop_eq, if_pos hstopped]
  constructor
  · rw [eval_amend hconsistent _ _ _ (onlyMoves_halting time record.status cause?).decides, hrun]
    dsimp only
    rw [hhalting]
  · refine changesOnly_find?_bind hconsistent ?_
    rw [hrun]
    dsimp only
    rw [Script.ofExcept, hhalting]
    exact changesOnly_pure record contents

end Runs

/-! ### Summaries -/

/-- A summary that is made again is the same. -/
theorem Summaries.eval_record_again (contents : Contents) (workflow : ProgramId) (id : RunId) :
    (record workflow id).eval ((record workflow id).eval contents).2 =
      (record workflow id).eval contents := by
  refine (@confined_record (fun key ↦ key.family = .run) (fun _ ↦ True) (fun _ hfamily ↦ hfamily)
    workflow id).eval_eval ?_
  refine ((plain_record workflow id).changesOnly contents).mono ?_
  rintro key ⟨other, rfl⟩ hfamily
  cases hfamily

/-- On consistent contents, a summary is made or there is none to make, and nothing goes wrong. -/
theorem Summaries.exists_eval_record {contents : Contents} (hconsistent : contents.Consistent)
    (workflow : ProgramId) (id : RunId) :
    ∃ wrote, ((record workflow id).eval contents).1 = .ok wrote := by
  unfold record
  rw [Script.eval_bind, Runs.eval_find? hconsistent]
  cases contents.run? workflow id with
  | none => exact ⟨false, rfl⟩
  | some run =>
    obtain ⟨found?, hfound, -⟩ := eval_summarize? hconsistent run
    dsimp only
    rw [Script.eval_bind, hfound]
    cases found? with
    | none => exact ⟨false, rfl⟩
    | some summary => exact ⟨true, rfl⟩

/-! ### Calls of a ledger -/

/-- A script that has a result leaves what it comes to on the live values. -/
theorem Database.Performs.eval_eq {before after : Database} {script : Script α} {result : α}
    (hperforms : before.Performs script (.ok result) after) :
    script.eval before.live = (.ok result, after.live) := by
  cases hperforms with
  | done hresult hlive => exact Prod.ext hresult hlive.symm

theorem Database.Performs.live_eq {before after : Database} {script : Script α}
    {outcome : Except Failure α} (hperforms : before.Performs script outcome after) :
    after.live = before.live ∨ after.live = (script.eval before.live).2 := by
  cases hperforms with
  | done _ hlive => exact Or.inr hlive
  | failed _ hlive => exact Or.inl hlive
  | outage hlive => exact Or.inl hlive

namespace Ledger

/-- A ledger with consistent contents on a sound store, which may fail. -/
structure Sound (ledger : Ledger) : Prop where
  wellFormed : ledger.database.substrate.store.WellFormed
  consistent : ledger.live.Consistent

/-- A ledger with consistent contents on a sound store that does not fail. -/
structure Serves (ledger : Ledger) : Prop where
  wellFormed : ledger.database.substrate.store.WellFormed
  consistent : ledger.live.Consistent
  reliable : ¬ ledger.database.MayFail

theorem Reached.sound {ledger : Ledger} (hreached : ledger.Reached) (plan : FailurePlan) :
    (ledger.under plan).Sound := by
  refine ⟨?_, hreached.consistent⟩
  obtain ⟨failsRead, failsWrite, config, events, hdatabase⟩ := hreached
  have hsound := System.sound_run Operation.program failsRead failsWrite config events
  have hstore : ledger.database.substrate.store.WellFormed := hdatabase ▸ hsound.wellFormed
  exact hstore

theorem Reached.serves {ledger : Ledger} (hreached : ledger.Reached) {plan : FailurePlan}
    (hreads : ∀ serial, plan.failsRead serial = false)
    (hwrites : ∀ serial, plan.failsWrite serial = false) : (ledger.under plan).Serves := by
  refine ⟨(hreached.sound plan).wellFormed, hreached.consistent, ?_⟩
  rintro ⟨serial, hfails | hfails⟩
  · cases (hreads serial).symm.trans hfails
  · cases (hwrites serial).symm.trans hfails

variable {ledger : Ledger}

theorem Serves.sound (hserves : ledger.Serves) : ledger.Sound :=
  ⟨hserves.wellFormed, hserves.consistent⟩

theorem Serves.failsRead (hserves : ledger.Serves) (serial : Nat) :
    ledger.database.substrate.failsRead serial = false :=
  Bool.eq_false_iff.mpr fun hfails ↦ hserves.reliable ⟨serial, Or.inl hfails⟩

/-- How an operation goes that nobody disturbs, and the ledger behind it. -/
theorem Sound.perform (hsound : ledger.Sound) {script : Script α} (operation : Operation)
    {wording : α → Reply} (hprogram : operation.program = wording <$> script)
    (hremoval : ¬ operation.IsRemoval) {mayChange : Key → Prop}
    (hplain : script.Plain False mayChange)
    (hsettled : Unconflicting (script.eval ledger.live).1) :
    ledger.database.Performs script (ledger.perform script).1 (ledger.perform script).2.database ∧
      ledger.database.Succeeds (ledger.perform script).2.database ∧
      (ledger.perform script).2.Sound := by
  obtain ⟨hperforms, hsucceeds⟩ := Database.performs_transactRetrying hsound.wellFormed hplain
    (fun failure hfailure ↦ by
      rw [Script.eval, show (script.perform ledger.live).outcome = _ from hfailure] at hsettled
      exact hsettled.isConflict_eq_false) ledger.config.retry
  have halters := operation.alters hremoval hsound.consistent
  rw [hprogram, Script.eval_map] at halters
  refine ⟨hperforms, hsucceeds, hsucceeds.wellFormed, ?_⟩
  rcases hperforms.live_eq with hlive | hlive
  · exact (show (ledger.perform script).2.live = ledger.live from hlive) ▸ hsound.consistent
  · exact (show (ledger.perform script).2.live = _ from hlive) ▸
      consistent_of_alters halters hsound.consistent

/-- The same on a store that does not fail, which is then the store behind it as well. -/
theorem Serves.perform (hserves : ledger.Serves) {script : Script α} (operation : Operation)
    {wording : α → Reply} (hprogram : operation.program = wording <$> script)
    (hremoval : ¬ operation.IsRemoval) {mayChange : Key → Prop}
    (hplain : script.Plain False mayChange)
    (hsettled : Unconflicting (script.eval ledger.live).1) :
    ledger.database.Performs script (ledger.perform script).1 (ledger.perform script).2.database ∧
      (ledger.perform script).2.Serves := by
  obtain ⟨hperforms, hsucceeds, hleft⟩ :=
    hserves.sound.perform operation hprogram hremoval hplain hsettled
  exact ⟨hperforms, hleft.wellFormed, hleft.consistent,
    fun hfails ↦ hserves.reliable (hsucceeds.mayFail_iff.mp hfails)⟩

theorem Serves.start (hserves : ledger.Serves) (request : Start) :
    ledger.database.Performs (Runs.start request) (ledger.start request).1
        (ledger.start request).2.database ∧
      (ledger.start request).2.Serves :=
  hserves.perform (.start request) rfl not_false (@Runs.plain_start False request)
    (Runs.unconflicting_start hserves.consistent request)

theorem Serves.stopping (hserves : ledger.Serves) (program : ProgramId) (id : RunId) (time : UInt64)
    (status : RunStatus) (cause? : Option FailureCause) :
    let stop := Runs.stop program id time status cause?
    ledger.database.Performs stop (ledger.perform stop).1 (ledger.perform stop).2.database ∧
      (ledger.perform stop).2.Serves :=
  hserves.perform (.stop program id time status cause?) rfl not_false
    (@Runs.Amendment.plain _ False _ _ _ (Runs.amendment_stop program id time status cause?))
    (Runs.unconflicting_stop hserves.consistent program id time status cause?)

theorem Serves.summarizing (hserves : ledger.Serves) (workflow : ProgramId) (id : RunId) :
    let summarize := Summaries.record workflow id
    ledger.database.Performs summarize (ledger.perform summarize).1
        (ledger.perform summarize).2.database ∧
      (ledger.perform summarize).2.Serves := by
  refine hserves.perform (.summarize workflow id) rfl not_false
    (Summaries.plain_record workflow id) ?_
  obtain ⟨wrote, hwrote⟩ := Summaries.exists_eval_record hserves.consistent workflow id
  rw [hwrote]
  exact unconflicting_ok wrote

/-- A start that has gone through is asked for again. -/
theorem Serves.start_again (hserves : ledger.Serves) {request : Start} {record : RunRecord}
    (hdone : (ledger.start request).1 = .ok record) :
    let first := (ledger.start request).2
    (first.start request).2.live = first.live ∧
      ((∃ again, (first.start request).1 = .ok again ∧
        first.live.run? request.program request.id = some again) ∨
          UInt64.size ≤ first.version + 1) := by
  intro first
  obtain ⟨hperforms, hfirst⟩ := hserves.start request
  rw [hdone] at hperforms
  have heval := hperforms.eval_eq
  obtain ⟨hagain, hfound⟩ := Runs.eval_start_again hserves.consistent heval
  obtain ⟨hsecond, -⟩ := hfirst.start request
  have hlive : (first.start request).2.live = first.live :=
    Database.live_of_again hserves.reliable hperforms rfl rfl (by rw [heval, hagain]) hsecond
  refine ⟨hlive, ?_⟩
  cases hoften : (first.start request).1 with
  | ok again =>
    rw [hoften] at hsecond
    obtain rfl : request.listedOn record = again :=
      Except.ok.inj (Prod.mk.inj (hagain.symm.trans hsecond.eval_eq)).1
    exact Or.inl ⟨_, rfl, hfound⟩
  | error failure =>
    rw [hoften] at hsecond
    cases hsecond with
    | failed hfailure => cases (congrArg Prod.fst hagain).symm.trans hfailure
    | outage _ _ hfails => exact Or.inr (hfails.resolve_left hfirst.reliable)

/-- A stop that has gone through: a summary is made of a workflow run that has completed. -/
theorem stop_of_done {program : ProgramId} {id : RunId} {time : UInt64} {status : RunStatus}
    {cause? : Option FailureCause} {record : RunRecord}
    (hdone : (ledger.perform (Runs.stop program id time status cause?)).1 = .ok record) :
    ledger.stop program id time status cause? = (.ok record,
      if program.type = .workflow ∧ record.status = .completed then
        ((ledger.perform (Runs.stop program id time status cause?)).2.perform
          (Summaries.record program id)).2
      else (ledger.perform (Runs.stop program id time status cause?)).2) := by
  unfold stop
  generalize ledger.perform (Runs.stop program id time status cause?) = halted at hdone ⊢
  obtain ⟨outcome, after⟩ := halted
  obtain rfl : outcome = .ok record := hdone
  dsimp only
  split <;> rfl

/-- A stop of a run that has stopped in this status gives its record, and changes nothing in its
first transaction. -/
theorem Serves.stopping_again (hserves : ledger.Serves) {program : ProgramId} {id : RunId}
    {record : RunRecord} (hrun : ledger.live.run? program id = some record)
    (hstopped : record.status.isTerminal = true) (time : UInt64) (cause? : Option FailureCause) :
    let stop := Runs.stop program id time record.status cause?
    (ledger.perform stop).1 = .ok record ∧
      ledger.database.Unchanged (ledger.perform stop).2.database := by
  obtain ⟨heval, hchanges⟩ :=
    Runs.eval_stop_of_stopped hserves.consistent hrun hstopped time cause?
  exact Database.transactRetrying_of_unchanging hserves.failsRead (congrArg Prod.fst heval)
    (fun key hchanged ↦ hchanges key hchanged) _

/-- A summary leaves the records of runs. -/
theorem Serves.run?_summarizing (hserves : ledger.Serves) (workflow : ProgramId) (name : RunId)
    (program : ProgramId) (id : RunId) :
    (ledger.perform (Summaries.record workflow name)).2.live.run? program id =
      ledger.live.run? program id := by
  have hkept : (ledger.perform (Summaries.record workflow name)).2.live.get? (Key.run program id) =
      ledger.live.get? (Key.run program id) := by
    rcases (hserves.summarizing workflow name).1.live_eq with hlive | hlive
    · exact congrArg (SortedMap.get? · _) hlive
    · refine (congrArg (SortedMap.get? · _) hlive).trans
        ((Summaries.plain_record workflow name).get?_eval _ ?_)
      rintro ⟨other, hkey⟩
      cases congrArg Key.family hkey
  unfold Contents.run?
  rw [hkept]

/-- A summary is made once more, of what lay behind the first time. -/
theorem Serves.summarizing_again (hserves : ledger.Serves) (workflow : ProgramId) (id : RunId)
    {between : Ledger} (hbetween : between.Serves) (hunchanged :
      (ledger.perform (Summaries.record workflow id)).2.database.Unchanged between.database) :
    (between.perform (Summaries.record workflow id)).2.live =
      (ledger.perform (Summaries.record workflow id)).2.live :=
  Database.live_of_again hserves.reliable (hserves.summarizing workflow id).1 hunchanged.live
    hunchanged.version (congrArg Prod.snd (Summaries.eval_record_again _ workflow id))
    (hbetween.summarizing workflow id).1

/-- A stop that has gone through is asked for again. -/
theorem Serves.stop_again (hserves : ledger.Serves) {program : ProgramId} {id : RunId}
    {time : UInt64} {status : RunStatus} {cause? : Option FailureCause} {record : RunRecord}
    (hdone : (ledger.stop program id time status cause?).1 = .ok record) (later : UInt64)
    (other? : Option FailureCause) :
    let first := (ledger.stop program id time status cause?).2
    (first.stop program id later status other?).1 = .ok record ∧
      (first.stop program id later status other?).2.live = first.live := by
  rw [(ledger.stop_outcome program id time status cause?).1] at hdone
  obtain ⟨hperforms, hhalted⟩ := hserves.stopping program id time status cause?
  rw [hdone] at hperforms
  obtain ⟨hrun, rfl, hstopped⟩ := Runs.eval_stop_ok hserves.consistent hperforms.eval_eq
  rw [stop_of_done hdone]
  dsimp only
  by_cases hsummarized : program.type = .workflow ∧ record.status = .completed
  · rw [if_pos hsummarized]
    obtain ⟨-, hfirst⟩ := hhalted.summarizing program id
    have hkept := (hhalted.run?_summarizing program id program id).trans hrun
    obtain ⟨htold, hunchanged⟩ := hfirst.stopping_again hkept hstopped later other?
    obtain ⟨-, hbetween⟩ := hfirst.stopping program id later record.status other?
    rw [stop_of_done htold, if_pos hsummarized]
    dsimp only
    exact ⟨rfl, hhalted.summarizing_again program id hbetween hunchanged⟩
  · rw [if_neg hsummarized]
    obtain ⟨htold, hunchanged⟩ := hhalted.stopping_again hrun hstopped later other?
    rw [stop_of_done htold, if_neg hsummarized]
    exact ⟨rfl, hunchanged.live⟩

end Ledger

/-- On a ledger that operations have made, while the store does not fail: a start that has gone
through leaves the live contents of all keys as they are when it is asked for again right behind
that, and it goes through again and answers with the record that lies there, unless no version is
left for it. A stop that has gone through, asked for again with the same status, some time and some
cause of failure, answers with the same record, and leaves the live contents as they are, those
under the key of the summary as well. -/
theorem starts_and_stops_repeat {ledger : Ledger} (hreached : ledger.Reached)
    {plan : Ledger.FailurePlan} (hreads : ∀ serial, plan.failsRead serial = false)
    (hwrites : ∀ serial, plan.failsWrite serial = false) :
    let asked := ledger.under plan
    (∀ request record, (asked.start request).1 = .ok record →
      let first := (asked.start request).2
      (first.start request).2.live = first.live ∧
        ((∃ again, (first.start request).1 = .ok again ∧
          first.live.run? request.program request.id = some again) ∨
            UInt64.size ≤ first.version + 1)) ∧
    ∀ program id time status cause? record,
      (asked.stop program id time status cause?).1 = .ok record →
        let first := (asked.stop program id time status cause?).2
        ∀ later other?, (first.stop program id later status other?).1 = .ok record ∧
          (first.stop program id later status other?).2.live = first.live := by
  intro asked
  have hserves : asked.Serves := hreached.serves hreads hwrites
  exact ⟨fun _ _ hdone ↦ hserves.start_again hdone,
    fun _ _ _ _ _ _ hdone later other? ↦ hserves.stop_again hdone later other?⟩

/-- A run of a node is started twice for a workflow run, and the workflow run is stopped twice,
behind which there is a summary. -/
theorem starts_and_stops_repeat_night :
    let asked := storedNights.under ⟨fun _ ↦ false, fun _ ↦ false⟩
    let started := (asked.start cleaningStart).2
    let stopped := (asked.stop nightly firstNight 1020 .completed none).2
    storedNights.Reached ∧
      (∃ record, (asked.start cleaningStart).1 = .ok record) ∧
      (started.start cleaningStart).2.live = started.live ∧
      stopped.live.contains (Key.workflowRun nightly firstNight) = true ∧
      ∃ record, (asked.stop nightly firstNight 1020 .completed none).1 = .ok record ∧
        (stopped.stop nightly firstNight 1060 .completed (some (.ofMessage "late"))).1 = .ok record ∧
        (stopped.stop nightly firstNight 1060 .completed (some (.ofMessage "late"))).2.live =
          stopped.live := by
  intro asked started stopped
  have hreached : storedNights.Reached :=
    Ledger.reached_run (fun _ ↦ false) (fun _ ↦ false) .standard twoNights ⟨1, .standard⟩
  obtain ⟨hstart, hstop⟩ := @starts_and_stops_repeat storedNights hreached
    ⟨fun _ ↦ false, fun _ ↦ false⟩ (fun _ ↦ rfl) fun _ ↦ rfl
  obtain ⟨hstarted, hstopped, hsummary⟩ :
      (asked.start cleaningStart).1.isOk = true ∧
      (asked.stop nightly firstNight 1020 .completed none).1.isOk = true ∧
      stopped.live.contains (Key.workflowRun nightly firstNight) = true := by
    decide +kernel
  cases hrecord : (asked.start cleaningStart).1 with
  | error failure =>
    rw [hrecord] at hstarted
    cases hstarted
  | ok record =>
  cases hfinal : (asked.stop nightly firstNight 1020 .completed none).1 with
  | error failure =>
    rw [hfinal] at hstopped
    cases hstopped
  | ok final =>
    exact ⟨hreached, ⟨record, rfl⟩, (hstart _ _ hrecord).1, hsummary, final, rfl,
      hstop _ _ _ _ _ _ hfinal 1060 _⟩

end RunLedger
