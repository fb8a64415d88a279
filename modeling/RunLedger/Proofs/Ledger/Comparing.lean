import RunLedger.Proofs.Ledger.Outages
import RunLedger.Proofs.Ledger.StoredRecords
import RunLedger.Proofs.Transaction.Uses

/-!
# Compare-and-set and the plain operations

A compare-and-set looks at the same record as a suspension, a resumption or a stop, and decides on
it by rules of its own. Where the record has the expected status and is open, both decisions agree
(`Runs.comparing_suspended`, `Runs.comparing_resumed`, `Runs.comparing_halting`), down to the failure
and its text, so both do the same in every transaction (`Runs.run_amend_of_told`). In all other
cases the compare-and-set only looks (`compareAndSet_guards`).
-/

set_option autoImplicit false

namespace RunLedger

variable {α β : Type}

namespace Runs

open Script

variable {transaction : Transaction} {substrate : Substrate} {program : ProgramId} {id : RunId}

/-! ### Looking a run up in a transaction -/

/-- A look-up reads under one key. -/
theorem exists_run_find? (program : ProgramId) (id : RunId) (transaction : Transaction)
    (substrate : Substrate) :
    ∃ found, (find? program id).run transaction substrate =
      (found, (transaction.get substrate (Key.run program id)).2) := by
  have hrun : (find? program id).run transaction substrate = _ :=
    run_followedBy (read (Key.run program id)) _ transaction substrate
  rw [hrun]
  have hread : (read (Key.run program id)).run transaction substrate =
      transaction.get substrate (Key.run program id) := rfl
  rw [hread]
  generalize transaction.get substrate (Key.run program id) = answered
  obtain ⟨answer, after⟩ := answered
  cases answer with
  | error failure => exact ⟨_, rfl⟩
  | ok value? =>
    cases value? with
    | none => exact ⟨_, rfl⟩
    | some value =>
      dsimp only
      rw [Script.decode, finish_bind]
      cases (value.decode : Except Damage RunRecord) with
      | error damage => exact ⟨_, rfl⟩
      | ok record => exact ⟨_, rfl⟩

/-- Where what lies under the keys of runs are their records, an active transaction finds the one
that is stored, unless the read fails as planned. -/
theorem gives_find? (hlegible : (transaction.view substrate.store).Legible)
    (hactive : transaction.status = .active) :
    substrate.Gives (.ok ((transaction.view substrate.store).run? program id))
      ((find? program id).run transaction substrate).1 := by
  have hgoes := (plain_find? program id : (find? program id).Plain False fun _ ↦ False).goes
    hactive substrate
  have hcame := hgoes.came
  rw [eval_find?_of_legible hlegible] at hcame
  exact hcame.imp_left fun heval ↦ (congrArg Prod.fst heval).symm

/-- A look-up in a transaction that is no longer active is refused. -/
theorem find?_of_not_active (hinactive : transaction.status ≠ .active) :
    ((find? program id).run transaction substrate).1 = .error transaction.inactive :=
  run_read_bind_of_not_active hinactive _ _

/-- A record that is found is the one that is stored. -/
theorem run?_of_find? (hlegible : (transaction.view substrate.store).Legible)
    {found? : Option RunRecord}
    (hfound : ((find? program id).run transaction substrate).1 = .ok found?) :
    (transaction.view substrate.store).run? program id = found? := by
  by_cases hactive : transaction.status = .active
  · rcases gives_find? hlegible hactive with hstored | ⟨⟨cause, hfailed⟩, -⟩
    · exact Except.ok.inj (hstored.symm.trans hfound)
    · cases hfailed.symm.trans hfound
  · cases (find?_of_not_active hactive).symm.trans hfound

/-! ### Carrying a decision out -/

/-- What is left of an operation that has decided on a record. -/
def carryOut (current : RunRecord) : Except Failure (Option RunRecord × α) → Script α
  | .error failure => .finish (.error failure)
  | .ok (none, reply) => pure reply
  | .ok (some updated, reply) => do
    write updated (some current.status)
    return reply

/-- An operation that decides on a record is a look-up, and behind it what the decision asks for. -/
theorem run_amend (program : ProgramId) (id : RunId) (absent : Except Failure α)
    (decision : RunRecord → Except Failure (Option RunRecord × α)) (transaction : Transaction)
    (substrate : Substrate) :
    (amend program id absent decision).run transaction substrate =
      match (find? program id).run transaction substrate with
      | (.error failure, after) => (.error failure, after)
      | (.ok none, after) => (absent, after)
      | (.ok (some current), after) =>
        (carryOut current (decision current)).run after.1 after.2 := by
  have hrun : (amend program id absent decision).run transaction substrate = _ :=
    run_followedBy (find? program id) _ transaction substrate
  rw [hrun]
  generalize (find? program id).run transaction substrate = lookedUp
  obtain ⟨found, after⟩ := lookedUp
  cases found with
  | error failure => rfl
  | ok found? =>
    cases found? with
    | none => rfl
    | some current =>
      dsimp only
      rw [Script.ofExcept, finish_bind]
      cases decision current with
      | error failure => rfl
      | ok decided =>
        obtain ⟨updated?, reply⟩ := decided
        cases updated? <;> rfl

/-- A decision with another reply is carried out in the same way, to the other reply. -/
theorem run_carryOut_map (reply : α → β) (current : RunRecord)
    (decided : Except Failure (Option RunRecord × α)) (transaction : Transaction)
    (substrate : Substrate) :
    (carryOut current (decided.map fun (updated?, told) ↦ (updated?, reply told))).run transaction
        substrate =
      (((carryOut current decided).run transaction substrate).1.map reply,
        ((carryOut current decided).run transaction substrate).2) := by
  cases decided with
  | error failure => rfl
  | ok decided =>
    obtain ⟨updated?, told⟩ := decided
    cases updated? with
    | none => rfl
    | some updated =>
      have hrun {γ : Type} (answer : γ) :
          (write updated (some current.status) >>= fun _ ↦ (pure answer : Script γ)).run transaction
            substrate = _ := run_followedBy (write updated (some current.status)) _ transaction substrate
      change (write updated (some current.status) >>= fun _ ↦ pure (reply told)).run _ _ =
        (((write updated (some current.status) >>= fun _ ↦ pure told).run _ _).1.map reply,
          ((write updated (some current.status) >>= fun _ ↦ pure told).run _ _).2)
      rw [hrun, hrun]
      generalize (write updated (some current.status)).run transaction substrate = written
      obtain ⟨outcome, after⟩ := written
      cases outcome <;> rfl

/-- Two operations that decide alike on the record that is stored do the same, up to how they tell
their replies. -/
theorem run_amend_of_told (hlegible : (transaction.view substrate.store).Legible)
    {current : RunRecord}
    (hstored : (transaction.view substrate.store).run? program id = some current)
    {decision : RunRecord → Except Failure (Option RunRecord × α)}
    {guarded : RunRecord → Except Failure (Option RunRecord × β)} (reply : α → β)
    (hdecided : guarded current =
      (decision current).map fun (updated?, told) ↦ (updated?, reply told))
    (absent : Except Failure α) (unmet : Except Failure β) :
    (amend program id unmet guarded).run transaction substrate =
      (((amend program id absent decision).run transaction substrate).1.map reply,
        ((amend program id absent decision).run transaction substrate).2) := by
  have hfound := @run?_of_find? transaction substrate program id hlegible
  rw [run_amend, run_amend]
  revert hfound
  generalize (find? program id).run transaction substrate = lookedUp
  obtain ⟨found, after⟩ := lookedUp
  intro hfound
  cases found with
  | error failure => rfl
  | ok found? =>
    obtain rfl : some current = found? := hstored.symm.trans (hfound rfl)
    dsimp only
    rw [hdecided]
    exact run_carryOut_map reply current (decision current) after.1 after.2

/-! ### Decisions that agree -/

section

variable {current : RunRecord} {expected target : RunStatus} {time : UInt64}

/-- On a record of the expected status that may become the target, compare-and-set makes the change
that leads there. -/
theorem comparing_of_expected (hexpected : current.status = expected)
    (hbecome : current.status.canBecome target = true) :
    comparing id expected target time current =
      (changed current target time).map fun updated? ↦
        (updated?, some (updated?.getD current)) := by
  unfold comparing
  rw [if_neg (not_not_intro hexpected), hbecome]
  rfl

/-- If that change always gives another record, compare-and-set decides as the change alone. -/
theorem comparing_always (hexpected : current.status = expected)
    (hbecome : current.status.canBecome target = true)
    {change : RunRecord → Except Failure RunRecord}
    (hchanged : changed current target time = (change current).map some) :
    comparing id expected target time current =
      (always change current).map fun (updated?, told) ↦ (updated?, some told) := by
  rw [comparing_of_expected hexpected hbecome, hchanged, always]
  cases change current <;> rfl

/-- On an open record, a compare-and-set to suspension decides as a suspension. -/
theorem comparing_suspended (hid : current.id = id) (hexpected : current.status = expected)
    (hopen : current.status.isTerminal = false) :
    comparing id expected .suspended time current =
      (always (·.suspended time) current).map fun (updated?, told) ↦ (updated?, some told) := by
  cases hstatus : current.status with
  | running => exact comparing_always hexpected (by rw [hstatus]; rfl) rfl
  | suspended =>
    -- both refuse, and tell the same run, status and target
    have hbecome : current.status.canBecome .suspended = false := by rw [hstatus]; rfl
    have hrefused : current.suspended time = .error (current.refusal .suspended) :=
      if_neg (by rw [hstatus]; decide)
    rw [comparing, if_neg (not_not_intro hexpected), hbecome, always, hrefused, RunRecord.refusal,
      hid]
    rfl
  | completed | killed | failed =>
    rw [hstatus] at hopen
    cases hopen

/-- On a suspended record, a compare-and-set to running decides as a resumption. -/
theorem comparing_resumed (hexpected : current.status = expected)
    (hsuspended : current.status = .suspended) :
    comparing id expected .running time current =
      (always (·.resumed time) current).map fun (updated?, told) ↦ (updated?, some told) := by
  refine comparing_always hexpected (by rw [hsuspended]; rfl) ?_
  rw [changed, if_neg (by rw [hsuspended]; decide)]

/-- The cause that a compare-and-set gives to a run that it stops: a run that it makes fail is one
that nobody executes any more. -/
def stopCause? (target : RunStatus) : Option FailureCause :=
  if target = .failed then some (.ofMessage abandonedMessage) else none

/-- On an open record, a compare-and-set to a terminal status decides as a stop. -/
theorem comparing_halting (hexpected : current.status = expected)
    (hopen : current.status.isTerminal = false) (hterminal : target.isTerminal = true) :
    comparing id expected target time current =
      (halting time target (stopCause? target) current).map fun (updated?, told) ↦
        (updated?, some told) := by
  have hchanged : changed current target time = current.stopped time target (stopCause? target) := by
    cases target with
    | running | suspended => cases hterminal
    | completed | killed | failed => rfl
  rw [comparing_of_expected hexpected (RunStatus.canBecome_eq_true hopen hterminal), hchanged,
    halting]
  cases current.stopped time target (stopCause? target) <;> rfl

/-- To bring a running record to running changes nothing. -/
theorem comparing_running (hexpected : current.status = expected)
    (hrunning : current.status = .running) :
    comparing id expected .running time current = .ok (none, some current) := by
  rw [comparing_of_expected hexpected (by rw [hrunning]; rfl), changed, if_pos hrunning]
  rfl

end

section

variable (hlegible : (transaction.view substrate.store).Legible) {current : RunRecord}
  (hstored : (transaction.view substrate.store).run? program id = some current)
  {expected target : RunStatus} {time : UInt64}

include hlegible hstored

/-- A compare-and-set that decides as another operation does what that does. -/
theorem run_compareAndSet_of_told {script : Script RunRecord} {absent : Except Failure RunRecord}
    {decision : RunRecord → Except Failure (Option RunRecord × RunRecord)}
    (hscript : script = amend program id absent decision)
    (hdecided : comparing id expected target time current =
      (decision current).map fun (updated?, told) ↦ (updated?, some told)) :
    (compareAndSet program id expected target time).run transaction substrate =
      ((script.run transaction substrate).1.map some, (script.run transaction substrate).2) := by
  rw [compareAndSet_eq, hscript]
  exact run_amend_of_told hlegible hstored some hdecided _ _

/-- A compare-and-set of a running record to running is a look-up. -/
theorem run_compareAndSet_of_running (hexpected : current.status = expected)
    (hrunning : current.status = .running) :
    (compareAndSet program id expected .running time).run transaction substrate =
      (find? program id).run transaction substrate := by
  have hfound := @run?_of_find? transaction substrate program id hlegible
  rw [compareAndSet_eq, run_amend]
  revert hfound
  generalize (find? program id).run transaction substrate = lookedUp
  obtain ⟨found, after⟩ := lookedUp
  intro hfound
  cases found with
  | error failure => rfl
  | ok found? =>
    obtain rfl : some current = found? := hstored.symm.trans (hfound rfl)
    dsimp only
    rw [comparing_running hexpected hrunning]
    rfl

end

end Runs

/-- In every transaction, whatever it has done and whatever store it reads, as long as what it reads
under keys of runs are records of these runs, a compare-and-set looks the run up and does what the
record asks for. The look-up leaves the buffers as they are; it gives the stored record, or the
failure of a transaction that is no longer active or of a planned failure, and then the
compare-and-set fails likewise. If there is no such run or it has another status than expected, the
answer is none and nothing else happens. If the run has the expected status and has stopped, every
target is refused. If it is open, the compare-and-set is a suspension, a resumption or a stop at the
same time, answer, buffers, reads and all, and to bring a running run to running is to look it up. -/
theorem compareAndSet_guards (transaction : Transaction) (substrate : Substrate)
    (hlegible : (transaction.view substrate.store).Legible) (program : ProgramId) (id : RunId)
    (expected target : RunStatus) (time : UInt64) :
    let stored? := (transaction.view substrate.store).run? program id
    let ran {α : Type} (script : Script α) := script.run transaction substrate
    let lookedUp := ran (Runs.find? program id)
    let compared := ran (Runs.compareAndSet program id expected target time)
    let toldBy (script : Script RunRecord) := ((ran script).1.map some, (ran script).2)
    ((transaction.status = .active → substrate.Gives (.ok stored?) lookedUp.1) ∧
      (transaction.status ≠ .active → lookedUp.1 = .error transaction.inactive) ∧
      (∃ reads, lookedUp.2.1 = { transaction with reads }) ∧
      ∀ failure, lookedUp.1 = .error failure → compared = (.error failure, lookedUp.2)) ∧
    ((∀ current, stored? = some current → current.status ≠ expected) →
      lookedUp.1 = .ok stored? → compared = (.ok none, lookedUp.2)) ∧
    ∀ current, stored? = some current → current.status = expected →
      (current.status.isTerminal = true → lookedUp.1 = .ok stored? →
        compared = (.error (.invalidTransition id.text current.status target), lookedUp.2)) ∧
      (current.status.isTerminal = false →
        (target = .suspended → compared = toldBy (Runs.suspend program id time)) ∧
        (target = .running → current.status = .suspended →
          compared = toldBy (Runs.resume program id time)) ∧
        (target = .running → current.status = .running → compared = lookedUp) ∧
        (target.isTerminal = true → compared = toldBy (Runs.stop program id time target
          (if target = .failed then some (.ofMessage Runs.abandonedMessage) else none)))) := by
  intro stored? ran lookedUp compared toldBy
  have hcompared : compared = _ := (congrArg
    (fun script : Script (Option RunRecord) ↦ script.run transaction substrate)
    (Runs.compareAndSet_eq program id expected target time)).trans
      (Runs.run_amend program id _ _ transaction substrate)
  change compared = match lookedUp with
    | (.error failure, after) => (.error failure, after)
    | (.ok none, after) => (.ok none, after)
    | (.ok (some current), after) =>
      (Runs.carryOut current (Runs.comparing id expected target time current)).run
        after.1 after.2 at hcompared
  refine ⟨⟨Runs.gives_find? hlegible, Runs.find?_of_not_active, ?_, fun failure hfailed ↦ ?_⟩,
    fun hother hdone ↦ ?_, fun current hstored hexpected ↦ ⟨fun hstopped hdone ↦ ?_,
      fun hopen ↦ ⟨?_, ?_, ?_, ?_⟩⟩⟩
  · obtain ⟨found, hrun⟩ := Runs.exists_run_find? program id transaction substrate
    obtain ⟨reads, hreads⟩ := transaction.exists_reads_get substrate (Key.run program id)
    exact ⟨reads, (congrArg (·.2.1) hrun).trans hreads⟩
  · have hpair : lookedUp = (.error failure, lookedUp.2) := Prod.ext hfailed rfl
    rw [hcompared, hpair]
  · have hpair : lookedUp = (.ok stored?, lookedUp.2) := Prod.ext hdone rfl
    rw [hcompared, hpair]
    cases hstored : stored? with
    | none => rfl
    | some current =>
      dsimp only
      rw [Runs.comparing, if_pos (hother current hstored)]
      rfl
  · have hpair : lookedUp = (.ok (some current), lookedUp.2) := Prod.ext (hstored ▸ hdone) rfl
    rw [hcompared, hpair]
    dsimp only
    rw [Runs.comparing, if_neg (not_not_intro hexpected),
      RunStatus.canBecome_eq_false hstopped target]
    rfl
  · rintro rfl
    have hid := (hlegible.of_run? hstored).2
    exact Runs.run_compareAndSet_of_told hlegible hstored (Runs.suspend_eq program id time)
      (Runs.comparing_suspended hid hexpected hopen)
  · rintro rfl hsuspended
    exact Runs.run_compareAndSet_of_told hlegible hstored (Runs.resume_eq program id time)
      (Runs.comparing_resumed hexpected hsuspended)
  · rintro rfl hrunning
    exact Runs.run_compareAndSet_of_running hlegible hstored hexpected hrunning
  · intro hterminal
    have hstop := Runs.stop_eq program id time target (Runs.stopCause? target)
    rw [if_pos hterminal] at hstop
    exact Runs.run_compareAndSet_of_told hlegible hstored hstop
      (Runs.comparing_halting hexpected hopen hterminal)

/-- Behind a start in the same transaction, a compare-and-set of the running workflow run to
completion stops it as a stop does, and one that expects it to be suspended gives nothing. -/
theorem compareAndSet_guards_night :
    let started := (Runs.start nightStart).run (.onSnapshot 1 0) (.reliable .empty)
    let ran {α : Type} (script : Script α) := script.run started.2.1 started.2.2
    (started.2.1.view started.2.2.store).Legible ∧
      (started.2.1.view started.2.2.store).run? nightly firstNight = some nightStart.record ∧
      ran (Runs.compareAndSet nightly firstNight .running .completed 2000) =
        ((ran (Runs.stop nightly firstNight 2000 .completed none)).1.map some,
          (ran (Runs.stop nightly firstNight 2000 .completed none)).2) ∧
      (ran (Runs.compareAndSet nightly firstNight .suspended .running 2000)).1 = .ok none := by
  intro started ran
  have hempty : Contents.Legible ∅ := fun _ _ _ hvalue ↦ nomatch hvalue
  have hdone : started.1 = .ok nightStart.record := Runs.run_start_of_empty (by decide +kernel)
  have hnew : (Transaction.onSnapshot 1 0).status = .active := rfl
  obtain ⟨hactive, honly, hcame⟩ : (Runs.start nightStart).Goes ∅ (.reliable .empty) started :=
    (@Runs.plain_start False nightStart).goes hnew (.reliable .empty)
  have heval := hcame.resolve_right fun ⟨⟨cause, hfailed⟩, _⟩ ↦ nomatch hdone.symm.trans hfailed
  rw [hdone, ← show started.2.2.store = _ from honly.store] at heval
  obtain ⟨hlegible, hstored⟩ := Runs.start_stored hempty heval
  have hguards := fun expected target ↦ compareAndSet_guards started.2.1 started.2.2 hlegible nightly
    firstNight expected target 2000
  refine ⟨hlegible, hstored, ?_, ?_⟩
  · obtain ⟨-, -, hmatching⟩ := hguards .running .completed
    exact ((hmatching nightStart.record hstored rfl).2 rfl).2.2.2 rfl
  · obtain ⟨⟨hlooked, -⟩, hother, -⟩ := hguards .suspended .running
    have hreads (serial : Nat) : started.2.2.failsRead serial = false := by
      rw [show started.2.2.failsRead = _ from honly.failsRead]
      rfl
    refine congrArg Prod.fst (hother (fun current hcurrent ↦ ?_) ((hlooked hactive).eq_of_reads hreads))
    cases hstored.symm.trans hcurrent
    decide

end RunLedger
