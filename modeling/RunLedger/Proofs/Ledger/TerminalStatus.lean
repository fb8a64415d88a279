import RunLedger.Proofs.Ledger.Commits

/-!
# The first terminal status wins

A run that has stopped keeps its record until a removal takes it away: no alteration changes a
terminal record, not even the start of a node that would list itself on it. So all that ask a run to
stop in a terminal status, and are not interrupted, are told of one and the same record
(`first_terminal_status_wins`). A stop is told the record if it names its status and refused if not;
compare-and-set is told the record only if it names its status.

An operation sees either a record that has stopped, and is told of it (`halting_of_stopped`,
`comparing_of_stopped`), or one that has not, and then the record that it writes is there behind its
commit (`Operation.told_eval`). Either way that record is the final one.
-/

set_option autoImplicit false

namespace RunLedger

/-! ### Requests to stop -/

namespace Operation

/-- The operation asks a run to stop in a terminal status. -/
def Halts (program : ProgramId) (id : RunId) : Operation → Prop
  | stop other otherId _ status _ =>
    other = program ∧ otherId = id ∧ status.isTerminal = true
  | compareAndSet other otherId _ target _ =>
    other = program ∧ otherId = id ∧ target.isTerminal = true
  | _ => False

/-- What those are told that ask a run to stop whose final record is the one given. A stop gives
that record if it names its status, and is in conflict with it otherwise. Compare-and-set gives that
record if it names its status, or gives nothing, or is refused. -/
def Told (final : RunRecord) : Operation → Except Failure Reply → Prop
  | stop _ _ _ status _, outcome =>
    final.status.isTerminal = true ∧ outcome =
      if status = final.status then .ok (.record final)
      else .error (.conflictingTerminalStatus final.id.text final.status status)
  | compareAndSet _ _ _ target _, outcome =>
    outcome = .ok (.changed none) ∨ final.status.isTerminal = true ∧
      (target = final.status ∧ outcome = .ok (.changed (some final)) ∨
        outcome = .error (.invalidTransition final.id.text final.status target))
  | _, _ => False

end Operation

/-! ### Decisions -/

namespace Runs

variable {current : RunRecord} {status : RunStatus}

theorem halting_of_stopped (hstatus : status.isTerminal = true)
    (hstopped : current.status.isTerminal = true) (time : UInt64) (cause? : Option FailureCause) :
    halting time status cause? current =
      if status = current.status then .ok (none, current)
      else .error (.conflictingTerminalStatus current.id.text current.status status) := by
  unfold halting RunRecord.stopped
  rw [if_neg (by simp [hstatus]), if_pos hstopped]
  by_cases hsame : status = current.status
  · rw [if_pos hsame.symm, if_pos hsame]
    rfl
  · rw [if_neg (Ne.symm hsame), if_neg hsame]
    rfl

theorem stopped_of_open (hstatus : status.isTerminal = true)
    (hopen : current.status.isTerminal = false) (time : UInt64) (cause? : Option FailureCause) :
    ∃ updated, current.stopped time status cause? = .ok (some updated) ∧
      updated.status = status := by
  unfold RunRecord.stopped
  rw [if_neg (by simp [hstatus]), if_neg (by simp [hopen])]
  exact ⟨_, rfl, rfl⟩

/-- A stop of a run that has not stopped writes a record of its status. -/
theorem halting_of_open (hstatus : status.isTerminal = true)
    (hopen : current.status.isTerminal = false) (time : UInt64) (cause? : Option FailureCause) :
    ∃ updated, halting time status cause? current = .ok (some updated, updated) ∧
      updated.status = status := by
  obtain ⟨updated, hstopped, hsame⟩ := stopped_of_open hstatus hopen time cause?
  refine ⟨updated, ?_, hsame⟩
  rw [halting, hstopped]
  rfl

theorem comparing_of_stopped (hstopped : current.status.isTerminal = true) (id : RunId)
    (expected target : RunStatus) (time : UInt64) :
    comparing id expected target time current =
      if current.status = expected then .error (.invalidTransition id.text current.status target)
      else .ok (none, none) := by
  unfold comparing
  by_cases hexpected : current.status = expected
  · rw [if_neg (not_not_intro hexpected), if_pos hexpected, RunStatus.canBecome_eq_false hstopped]
    rfl
  · rw [if_pos hexpected, if_neg hexpected]

/-- Compare-and-set to a terminal status either gives nothing or writes a record of that status, on
a run that has not stopped. -/
theorem comparing_of_open (hstatus : status.isTerminal = true)
    (hopen : current.status.isTerminal = false) (id : RunId) (expected : RunStatus)
    (time : UInt64) :
    comparing id expected status time current = .ok (none, none) ∨
      ∃ updated, comparing id expected status time current = .ok (some updated, some updated) ∧
        updated.status = status := by
  have hchanged : ∃ updated, changed current status time = .ok (some updated) ∧
      updated.status = status := by
    have hstops := stopped_of_open hstatus hopen time
    cases status with
    | running | suspended => cases hstatus
    | completed | killed => exact hstops none
    | failed => exact hstops (some (.ofMessage abandonedMessage))
  unfold comparing
  by_cases hexpected : current.status = expected
  · obtain ⟨updated, hupdated, hsame⟩ := hchanged
    rw [if_neg (not_not_intro hexpected), RunStatus.canBecome_eq_true hopen hstatus, hupdated]
    exact Or.inr ⟨updated, rfl, hsame⟩
  · rw [if_pos hexpected]
    exact Or.inl rfl

end Runs

/-! ### What requests are told -/

section

variable {operation : Operation} {program : ProgramId} {id : RunId} {before after : Contents}

/-- A request to stop a run is told of the record it finds, or of the one it writes. -/
theorem Operation.told_eval (hhalts : operation.Halts program id) (hbefore : before.Consistent)
    {current : RunRecord} (hcurrent : before.run? program id = some current) :
    operation.Told current (operation.program.eval before).1 ∨
      ∃ record reply, (operation.program.eval before).1 = .ok reply ∧
        (operation.program.eval before).2.run? program id = some record ∧
        operation.Told record (.ok reply) := by
  obtain ⟨-, hprogram, hid⟩ := hbefore.of_run? hcurrent
  have hwritten {updated : RunRecord} (hsame : updated.program = current.program ∧
      updated.id = current.id ∧ RunRecord.Becomes (some current) updated) :
      (before.recording updated).run? program id = some updated := by
    rw [(hbefore.recorded_recording updated).run?, if_pos]
    exact ⟨(hsame.1.trans hprogram).symm, (hsame.2.1.trans hid).symm⟩
  cases operation with
  | stop other otherId time status cause? =>
    obtain ⟨rfl, rfl, hstatus⟩ := hhalts
    have hdecides := (Runs.onlyMoves_halting time status cause?).decides
    rw [Operation.program, Script.eval_map, Runs.stop_eq, if_pos hstatus,
      Runs.eval_amend hbefore _ _ _ hdecides, hcurrent]
    dsimp only
    cases hstopped : current.status.isTerminal with
    | true =>
      refine Or.inl ⟨hstopped, ?_⟩
      rw [Runs.halting_of_stopped hstatus hstopped]
      by_cases hsame : status = current.status
      · rw [if_pos hsame, if_pos hsame]
        rfl
      · rw [if_neg hsame, if_neg hsame]
        rfl
    | false =>
      obtain ⟨updated, hdecision, hupdated⟩ := Runs.halting_of_open hstatus hstopped time cause?
      rw [hdecision]
      refine Or.inr ⟨updated, .record updated, rfl,
        hwritten (hdecides current updated updated hdecision), ?_⟩
      rw [Told, hupdated, if_pos rfl]
      exact ⟨hstatus, rfl⟩
  | compareAndSet other otherId expected target time =>
    obtain ⟨rfl, rfl, hstatus⟩ := hhalts
    have hdecides := (Runs.onlyMoves_comparing otherId expected target time).decides
    rw [Operation.program, Script.eval_map, Runs.compareAndSet_eq,
      Runs.eval_amend hbefore _ _ _ hdecides, hcurrent]
    dsimp only
    cases hstopped : current.status.isTerminal with
    | true =>
      left
      rw [Runs.comparing_of_stopped hstopped]
      by_cases hexpected : current.status = expected
      · rw [if_pos hexpected, ← hid]
        exact Or.inr ⟨hstopped, Or.inr rfl⟩
      · rw [if_neg hexpected]
        exact Or.inl rfl
    | false =>
      rcases Runs.comparing_of_open hstatus hstopped otherId expected time with
        hdecision | ⟨updated, hdecision, hupdated⟩
      · rw [hdecision]
        exact Or.inl (Or.inl rfl)
      · rw [hdecision]
        refine Or.inr ⟨updated, .changed (some updated), rfl,
          hwritten (hdecides current updated _ hdecision), ?_⟩
        rw [Told, hupdated]
        exact Or.inr ⟨hstatus, Or.inl ⟨rfl, rfl⟩⟩
  | _ => exact hhalts.elim

/-- Whoever was told of a record of a run that stays was told of its final record. -/
theorem Operation.Told.of_keeps {record final : RunRecord} {outcome : Except Failure Reply}
    (htold : operation.Told record outcome) (hkeeps : Contents.Keeps program id before after)
    (hrecord : before.run? program id = some record)
    (hfinal : after.run? program id = some final) : operation.Told final outcome := by
  by_cases hterminal : record.status.isTerminal = true
  · have hsame := hkeeps.stopped record hrecord hterminal
    rw [hfinal, Option.some.injEq] at hsame
    exact hsame ▸ htold
  · cases operation with
    | stop => exact absurd htold.1 hterminal
    | compareAndSet =>
      rcases htold with hnone | ⟨hstopped, -⟩
      · exact Or.inl hnone
      · exact absurd hstopped hterminal
    | _ => exact htold.elim

end

section

variable {failsRead failsWrite : Nat → Bool} {system : System Operation Reply}

/-- Of a run that stays, all requests since some place are told of its final record, unless they are
interrupted. -/
theorem System.Sound.told (hsound : system.Sound Operation.program failsRead failsWrite)
    {program : ProgramId} {id : RunId} {first : Nat}
    (hstays : ∀ place commit, first ≤ place → ¬ Removes system.history place commit program id)
    (hthere : ((contentsAfter system.history first).run? program id).isSome = true)
    {final : RunRecord}
    (hfinal : (contentsAfter system.history system.history.length).run? program id = some final)
    {ending : Ending Operation Reply} (hending : ending ∈ system.endings)
    (hsince : first ≤ ending.snapshot) (hhalts : ending.operation.Halts program id) :
    ending.Interrupted failsRead failsWrite ∨ ending.operation.Told final ending.outcome := by
  have hkeeps {start last : Nat} (hstart : first ≤ start) (hle : start ≤ last) :
      Contents.Keeps program id (contentsAfter system.history start)
        (contentsAfter system.history last) :=
    hsound.keeps hle fun place commit hplace ↦ hstays place commit (Nat.le_trans hstart hplace)
  have hremoval : ¬ ending.operation.IsRemoval := by
    cases hoperation : ending.operation with
    | removeRuns | removeSummaries =>
      rw [hoperation] at hhalts
      exact hhalts.elim
    | _ => exact fun hremoval ↦ hremoval
  have hbound := (hsound.endings ending hending).bounded.2
  rcases hsound.settled hending
    (ending.operation.plain_program.mono hremoval fun _ hkey ↦ hkey) with hinterrupted | hsettled
  · exact Or.inl hinterrupted
  · right
    obtain ⟨before, hbefore, hle, houtcome, hresult⟩ := hsettled
    have hfirst := Nat.le_trans hsince hbefore
    obtain ⟨current, hcurrent⟩ := Option.isSome_iff_exists.mp
      ((hkeeps (Nat.le_refl first) hfirst).present hthere)
    rcases Operation.told_eval hhalts (hsound.consistent before) hcurrent with
      htold | ⟨record, reply, hreply, hrecord, htold⟩
    · rw [houtcome] at htold
      exact htold.of_keeps (hkeeps hfirst (Nat.le_trans hle hbound)) hcurrent hfinal
    · rw [houtcome] at hreply
      obtain ⟨after, hlater, hafter, hcontents⟩ := hresult reply hreply
      rw [hcontents] at hrecord
      rw [hreply]
      exact htold.of_keeps
        (hkeeps (Nat.le_trans hfirst hlater) (Nat.le_trans hafter hbound)) hrecord hfinal

end

/-- In every interleaving, whatever fails, take an earlier state and a later one. Unless a removal
that committed in between took the run away: if the record of the run had stopped, its payload is
still the same; and if the run was there at all, it has a final record, and every stop and
compare-and-set to a terminal status that began since was told of it or was interrupted. An
operation that is begun again after a conflict is another transaction, with an ending of its own. -/
theorem first_terminal_status_wins (failsRead failsWrite : Nat → Bool) (config : Config)
    (events more : List (Event Operation)) (program : ProgramId) (id : RunId) :
    let early := (System.initial failsRead failsWrite config).run Operation.program events
    let late := early.run Operation.program more
    let earlier := early.database.substrate.store.live
    let later := late.database.substrate.store.live
    (∃ place commit, early.history.length ≤ place ∧
      Removes late.history place commit program id) ∨
    (∀ value record, earlier.get? (Key.run program id) = some value →
      (value.decode : Except Damage RunRecord) = .ok record → record.status.isTerminal = true →
        later.get? (Key.run program id) = some value) ∧
    (earlier.contains (Key.run program id) = true →
      ∃ value final, later.get? (Key.run program id) = some value ∧
        (value.decode : Except Damage RunRecord) = .ok final ∧
        ∀ ending ∈ late.endings, early.history.length ≤ ending.snapshot →
          ending.operation.Halts program id →
            ending.Interrupted failsRead failsWrite ∨
              ending.operation.Told final ending.outcome) := by
  intro early late earlier later
  have hearly : early.Sound Operation.program failsRead failsWrite :=
    System.sound_run Operation.program failsRead failsWrite config events
  have hlate : late.Sound Operation.program failsRead failsWrite := hearly.run more
  obtain ⟨since, hhistory⟩ := System.exists_history_run Operation.program early more
  have hearlier : earlier = contentsAfter late.history early.history.length := by
    rw [show late.history = _ from hhistory, contentsAfter_append (Nat.le_refl _)]
    exact hearly.live
  have hlater : later = contentsAfter late.history late.history.length := hlate.live
  have hle : early.history.length ≤ late.history.length := by
    rw [show late.history = _ from hhistory, List.length_append]
    exact Nat.le_add_right _ _
  by_cases hremoves : ∃ place commit, early.history.length ≤ place ∧
      Removes late.history place commit program id
  · exact Or.inl hremoves
  · have hstays (place : Nat) (commit : Commit Operation Reply)
        (hplace : early.history.length ≤ place) :
        ¬ Removes late.history place commit program id := fun hremoved ↦
      hremoves ⟨place, commit, hplace, hremoved⟩
    have hkeeps := hlate.keeps hle hstays
    rw [hearlier, hlater]
    refine Or.inr ⟨fun value record hvalue hdecode hterminal ↦ ?_, fun hcontains ↦ ?_⟩
    · have hrecord := Contents.run?_eq_some_iff.mpr ⟨value, hvalue, hdecode⟩
      rw [(hlate.consistent _).get?_run, hkeeps.stopped record hrecord hterminal, ← hrecord,
        ← (hlate.consistent _).get?_run, hvalue]
    · rw [(hlate.consistent _).contains_run] at hcontains
      obtain ⟨final, hfinal⟩ := Option.isSome_iff_exists.mp (hkeeps.present hcontains)
      obtain ⟨value, hvalue, hdecode⟩ := Contents.run?_eq_some_iff.mp hfinal
      refine ⟨value, final, hvalue, hdecode, fun ending hending hsince hhalts ↦ ?_⟩
      exact hlate.told hstays hcontains hfinal hending hsince hhalts

end RunLedger
