import RunLedger.Proofs.Transaction.Uses

/-!
# How transactions end

A transaction is asked for reads and writes, and that it be committed or aborted, in any order and
each time over whatever the store has become and whatever fails there (`Transaction.respondAll`).
Being used leaves it active. The first other request ends it (`Turn`): it is committed, or it is
aborted and drops its buffers, or it has been found free of conflicts and the store refuses its
buffers (`RefusedBy`), and then it is aborted and keeps them. An ended transaction stays as it is,
except that a further abort drops what a refusal has left (`Stays`).
-/

set_option autoImplicit false

namespace RunLedger

namespace Transaction

/-! ### Requests -/

/-- What is asked of a transaction: that it be used for reads and writes, or committed, or
aborted. -/
inductive Request where
  | use (script : Script Unit)
  | commit
  | commitOrAbort
  | abort (reason : String)

namespace Request

/-- Whether the transaction is to be used. -/
def isUse : Request → Bool
  | use _ => true
  | commit | commitOrAbort | abort _ => false

/-- Whether the transaction is to be committed. -/
def isCommit : Request → Bool
  | commit | commitOrAbort => true
  | use _ | abort _ => false

/-- Whether the transaction is to be aborted. -/
def isAbort : Request → Bool
  | abort _ => true
  | use _ | commit | commitOrAbort => false

theorem isUse_of_isCommit {request : Request} (hcommit : request.isCommit = true) :
    request.isUse = false := by
  cases request with
  | use | abort => cases hcommit
  | commit | commitOrAbort => rfl

end Request

/-- What a request is answered. -/
inductive Reply where
  | used (outcome : Except Failure Unit)
  | committed (answer : Except CommitFailure Nat)
  | aborted (answer : Except CommitFailure Unit)

/-- Whether the reply is that of a commit that has succeeded. -/
def Reply.isSuccess : Reply → Bool
  | committed (.ok _) => true
  | used _ | committed (.error _) | aborted _ => false

/-- The reply to a request over a substrate, with the transaction and the substrate behind it. -/
def respond (transaction : Transaction) (substrate : Substrate) :
    Request → Reply × Transaction × Substrate
  | .use script =>
    let (outcome, transaction, substrate) := script.run transaction substrate
    (.used outcome, transaction, substrate)
  | .commit =>
    let (answer, transaction, substrate) := transaction.commit substrate
    (.committed answer, transaction, substrate)
  | .commitOrAbort =>
    let (answer, transaction, substrate) := transaction.commitOrAbort substrate
    (.committed answer, transaction, substrate)
  | .abort reason =>
    (.aborted ((transaction.abort reason).map fun _ ↦ ()), transaction.aborted reason, substrate)

/-- The replies to requests, each over the substrate that it meets, with the substrates that they
leave, and the transaction behind them all. -/
def respondAll (transaction : Transaction) :
    List (Request × Substrate) → List (Reply × Substrate) × Transaction
  | [] => ([], transaction)
  | (request, substrate) :: rest =>
    let (reply, transaction, substrate) := transaction.respond substrate request
    let (replies, transaction) := transaction.respondAll rest
    ((reply, substrate) :: replies, transaction)

theorem respondAll_append (transaction : Transaction) (first second : List (Request × Substrate)) :
    transaction.respondAll (first ++ second) =
      ((transaction.respondAll first).1 ++
          ((transaction.respondAll first).2.respondAll second).1,
        ((transaction.respondAll first).2.respondAll second).2) := by
  induction first generalizing transaction with
  | nil => rfl
  | cons asked rest ih =>
    obtain ⟨request, substrate⟩ := asked
    simp only [List.cons_append, respondAll, ih]

variable {transaction : Transaction}

/-! ### Uses -/

theorem status_put (transaction : Transaction) (key : Key) (value : Value) :
    (transaction.put key value).2.status = transaction.status := by
  unfold put
  split <;> rfl

theorem status_delete (transaction : Transaction) (key : Key) :
    (transaction.delete key).2.status = transaction.status := by
  unfold delete
  split <;> rfl

/-- Being used changes nothing of the status. -/
theorem status_run {α : Type} (script : Script α) (transaction : Transaction)
    (substrate : Substrate) :
    (script.run transaction substrate).2.1.status = transaction.status := by
  have hreads {before after : Transaction} (hafter : ∃ reads, after = { before with reads }) :
      after.status = before.status := by
    obtain ⟨reads, rfl⟩ := hafter
    rfl
  induction script generalizing transaction substrate with
  | finish outcome => rfl
  | get key next ih => exact (ih _ _ _).trans (hreads (transaction.exists_reads_get substrate key))
  | scanStem stem next ih =>
    exact (ih _ _ _).trans (hreads (transaction.exists_reads_scan substrate _ _))
  | scanRange first last next ih =>
    exact (ih _ _ _).trans (hreads (transaction.exists_reads_scan substrate _ _))
  | put key value next ih => exact (ih _ _ _).trans (transaction.status_put key value)
  | delete key next ih => exact (ih _ _ _).trans (transaction.status_delete key)

/-- A transaction that is not active refuses to be used. -/
theorem run_of_not_active {α : Type} (hinactive : transaction.status ≠ .active)
    (script : Script α) (substrate : Substrate) :
    (script.run transaction substrate).2 = (transaction, substrate) := by
  have hclosed : (!transaction.isActive) = true := by simp [isActive, hinactive]
  induction script with
  | finish outcome => rfl
  | get key next ih =>
    rw [Script.run, Transaction.get, if_pos hclosed]
    exact ih _
  | scanStem stem next ih =>
    rw [Script.run, Transaction.scanStem, scan, if_pos hclosed]
    exact ih _
  | scanRange first last next ih =>
    rw [Script.run, Transaction.scanRange, scan, if_pos hclosed]
    exact ih _
  | put key value next ih =>
    rw [Script.run, Transaction.put, if_pos hclosed]
    exact ih _
  | delete key next ih =>
    rw [Script.run, Transaction.delete, if_pos hclosed]
    exact ih _

/-! ### Commits -/

/-- A commit of an active transaction that the store refuses: nothing that the transaction has read
has changed, but what it has buffered cannot be applied. -/
structure RefusedBy (transaction : Transaction) (substrate : Substrate) : Prop where
  active : transaction.status = .active
  buffers : transaction.isReadOnly = false
  refused : ∃ validated issued outage,
    transaction.validate substrate = (.ok (), validated, issued) ∧
    (validated.applyBuffers issued (nextVersion issued.store.version)).1 = .error outage

/-- What validation leaves of an active transaction: it is committed with all it has buffered, or
aborted with nothing. -/
theorem validate_leaves (hactive : transaction.status = .active) (substrate : Substrate) :
    ((transaction.validate substrate).1 = .ok () ∧
        (transaction.validate substrate).2.1 = { transaction with status := .committed }) ∨
      ((∃ failure, (transaction.validate substrate).1 = .error failure) ∧
        ∃ reason, (transaction.validate substrate).2.1 =
          { transaction with writes := ∅, deletes := ∅, status := .aborted reason }) := by
  have hbegin : transaction.beginValidation = .ok { transaction with status := .validating } := by
    simp [beginValidation, isActive, hactive]
  unfold validate
  rw [hbegin]
  dsimp only
  generalize conflicts { transaction with status := .validating } substrate = answered
  obtain ⟨answer, issued⟩ := answered
  cases answer with
  | error outage => exact Or.inr ⟨⟨_, rfl⟩, _, rfl⟩
  | ok found =>
    cases found with
    | nil => exact Or.inl ⟨rfl, rfl⟩
    | cons conflict rest => exact Or.inr ⟨⟨_, rfl⟩, _, rfl⟩

/-- The ways in which a commit leaves an active transaction: committed; aborted with nothing
buffered; or, refused by the store, aborted with all it has buffered. -/
inductive Commitment (transaction : Transaction) (before : Substrate) :
    Except CommitFailure Nat × Transaction × Substrate → Prop
  | committed (version : Nat) (after : Substrate) (hfree : ¬ transaction.RefusedBy before) :
    Commitment transaction before (.ok version, { transaction with status := .committed }, after)
  | dropped (failure : CommitFailure) (reason : String) {after : Substrate}
    (hfree : ¬ transaction.RefusedBy before) (hstore : after.store = before.store) :
    Commitment transaction before (.error failure,
      { transaction with writes := ∅, deletes := ∅, status := .aborted reason }, after)
  | refused (outage : Outage) (reason : String) {after : Substrate}
    (hrefused : transaction.RefusedBy before) (hstore : after.store = before.store) :
    Commitment transaction before
      (.error (.outage outage), { transaction with status := .aborted reason }, after)

theorem commitment_commit (hactive : transaction.status = .active) (substrate : Substrate) :
    transaction.Commitment substrate (transaction.commit substrate) := by
  have hstore : (transaction.validate substrate).2.2.store = substrate.store :=
    (validate_spec hactive substrate).1.store
  have hrefusedBy : transaction.RefusedBy substrate ↔ transaction.isReadOnly = false ∧
      ∃ validated issued outage, transaction.validate substrate = (.ok (), validated, issued) ∧
        (validated.applyBuffers issued (nextVersion issued.store.version)).1 = .error outage :=
    ⟨fun ⟨_, hbuffers, hrefused⟩ ↦ ⟨hbuffers, hrefused⟩,
      fun ⟨hbuffers, hrefused⟩ ↦ ⟨hactive, hbuffers, hrefused⟩⟩
  have hleaves := validate_leaves hactive substrate
  unfold commit
  generalize transaction.validate substrate = validated at *
  obtain ⟨answer, after, issued⟩ := validated
  rcases hleaves with ⟨rfl, rfl⟩ | ⟨⟨failure, rfl⟩, reason, rfl⟩
  · have hreadOnly : isReadOnly { transaction with status := .committed } =
        transaction.isReadOnly := rfl
    dsimp only at hstore ⊢
    rw [hreadOnly]
    cases hbuffers : transaction.isReadOnly with
    | true =>
      refine .committed _ issued fun hrefused ↦ ?_
      cases hrefused.buffers.symm.trans hbuffers
    | false =>
      have happlied := (applyBuffers_spec { transaction with status := .committed } issued
        (nextVersion issued.store.version)).2.2
      rw [if_neg Bool.false_ne_true]
      cases happly : applyBuffers { transaction with status := .committed } issued
        (nextVersion issued.store.version) with
      | mk answer written =>
        rw [happly] at happlied
        cases answer with
        | ok _ =>
          refine .committed _ written fun hrefused ↦ ?_
          obtain ⟨-, _, _, outage, hvalidate, hfailed⟩ := hrefusedBy.mp hrefused
          cases hvalidate
          cases (congrArg Prod.fst happly).symm.trans hfailed
        | error outage =>
          obtain ⟨hdone, -⟩ | ⟨-, hsame, -⟩ := happlied
          · cases hdone
          · exact .refused outage _ (hrefusedBy.mpr ⟨hbuffers, _, _, outage, rfl, congrArg Prod.fst happly⟩)
              (hsame.trans hstore)
  · refine .dropped failure reason (fun hrefused ↦ ?_) hstore
    obtain ⟨-, _, _, outage, hvalidate, -⟩ := hrefusedBy.mp hrefused
    cases hvalidate

/-- There is nothing left to roll back behind the commit of an active transaction. -/
theorem commitOrAbort_of_active (hactive : transaction.status = .active) (substrate : Substrate) :
    transaction.commitOrAbort substrate = transaction.commit substrate := by
  have hcommit := commitment_commit hactive substrate
  unfold commitOrAbort
  generalize transaction.commit substrate = ended at hcommit ⊢
  cases hcommit with
  | committed => rfl
  | dropped => rfl
  | refused => rfl

/-! ### The first end -/

/-- The ways in which a request leaves an active transaction. -/
inductive Turn (transaction : Transaction) (before : Substrate) (request : Request) :
    Reply × Transaction × Substrate → Prop
  | used {reply : Reply} {left : Transaction} {after : Substrate} (huse : request.isUse = true)
    (hreply : reply.isSuccess = false) (hactive : left.status = .active) :
    Turn transaction before request (reply, left, after)
  | committed {reply : Reply} (after : Substrate) (hcommit : request.isCommit = true)
    (hreply : reply.isSuccess = true) (hfree : ¬ transaction.RefusedBy before) :
    Turn transaction before request (reply, { transaction with status := .committed }, after)
  | dropped {reply : Reply} (reason : String) (after : Substrate) (huse : request.isUse = false)
    (hreply : reply.isSuccess = false)
    (hfree : request.isCommit = true → ¬ transaction.RefusedBy before) :
    Turn transaction before request
      (reply, { transaction with writes := ∅, deletes := ∅, status := .aborted reason }, after)
  | refused {reply : Reply} (reason : String) (after : Substrate) (hcommit : request.isCommit = true)
    (hreply : reply.isSuccess = false) (hrefused : transaction.RefusedBy before) :
    Turn transaction before request (reply, { transaction with status := .aborted reason }, after)

theorem Commitment.turn {before : Substrate}
    {ended : Except CommitFailure Nat × Transaction × Substrate}
    (hended : transaction.Commitment before ended) {request : Request}
    (hcommit : request.isCommit = true) :
    transaction.Turn before request (.committed ended.1, ended.2) := by
  cases hended with
  | committed version after hfree => exact .committed after hcommit rfl hfree
  | dropped failure reason hfree => exact .dropped reason _ (Request.isUse_of_isCommit hcommit) rfl fun _ ↦ hfree
  | refused outage reason hrefused => exact .refused reason _ hcommit rfl hrefused

theorem turn_respond (hactive : transaction.status = .active) (substrate : Substrate)
    (request : Request) :
    transaction.Turn substrate request (transaction.respond substrate request) := by
  cases request with
  | use script => exact .used rfl rfl ((transaction.status_run script substrate).trans hactive)
  | commit => exact (commitment_commit hactive substrate).turn rfl
  | commitOrAbort =>
    have hended := commitment_commit hactive substrate
    rw [← commitOrAbort_of_active hactive substrate] at hended
    exact hended.turn rfl
  | abort reason =>
    have hopen : transaction.isCommitted = false := by simp [isCommitted, hactive]
    have haborted : transaction.aborted reason =
        { transaction with writes := ∅, deletes := ∅, status := .aborted reason } := by
      rw [aborted, abort, hopen, if_neg Bool.false_ne_true]
    rw [respond, haborted, abort, hopen, if_neg Bool.false_ne_true]
    exact .dropped reason substrate rfl rfl fun hcommit ↦ nomatch hcommit

/-! ### Behind the end -/

/-- Whether the transaction is committed or aborted. -/
def hasEnded (transaction : Transaction) : Bool := transaction.isCommitted || transaction.isAborted

/-- Requests leave an ended transaction and the store as they are, except that an abort empties the
buffers of an aborted one. -/
structure Stays (transaction : Transaction) (requests : List (Request × Substrate))
    (responded : List (Reply × Substrate) × Transaction) : Prop where
  failed : ∀ replied ∈ responded.1, replied.1.isSuccess = false
  substrates : responded.1.map Prod.snd = requests.map Prod.snd
  isCommitted : responded.2.isCommitted = transaction.isCommitted
  isAborted : responded.2.isAborted = transaction.isAborted
  kept : (transaction.isAborted = true → ∀ asked ∈ requests, asked.1.isAbort = false) →
    responded.2 = transaction
  dropped : transaction.isAborted = true → (∃ asked ∈ requests, asked.1.isAbort = true) →
    responded.2.isReadOnly = true

theorem not_isCommitted_of_isAborted (haborted : transaction.isAborted = true) :
    transaction.isCommitted = false := by
  refine decide_eq_false fun hcommitted ↦ ?_
  rw [isAborted, hcommitted] at haborted
  cases haborted

theorem not_active_of_hasEnded (hended : transaction.hasEnded = true) :
    transaction.status ≠ .active := by
  intro hactive
  simp [hasEnded, isCommitted, isAborted, hactive, Status.isAborted] at hended

/-- Buffers that are empty stay empty. -/
theorem Stays.isReadOnly {requests : List (Request × Substrate)}
    {responded : List (Reply × Substrate) × Transaction}
    (hstays : transaction.Stays requests responded) (hempty : transaction.isReadOnly = true) :
    responded.2.isReadOnly = true := by
  by_cases hdropped : transaction.isAborted = true ∧ ∃ asked ∈ requests, asked.1.isAbort = true
  · exact hstays.dropped hdropped.1 hdropped.2
  · rw [hstays.kept fun haborted asked hasked ↦ Bool.eq_false_iff.mpr fun habort ↦
      hdropped ⟨haborted, asked, hasked, habort⟩]
    exact hempty

/-- One more request to an ended transaction. -/
theorem respond_of_hasEnded (hended : transaction.hasEnded = true) (substrate : Substrate)
    (request : Request) :
    (transaction.respond substrate request).1.isSuccess = false ∧
      (transaction.respond substrate request).2.2 = substrate ∧
      ((transaction.respond substrate request).2.1 = transaction ∧
          (transaction.isAborted = true → request.isAbort = false) ∨
        transaction.isAborted = true ∧ request.isAbort = true ∧ ∃ reason,
          (transaction.respond substrate request).2.1 =
            { transaction with writes := ∅, deletes := ∅, status := .aborted reason }) := by
  have hinactive := not_active_of_hasEnded hended
  have hrefused := commit_of_not_active hinactive substrate
  cases request with
  | use script =>
    have hrun := run_of_not_active hinactive script substrate
    exact ⟨rfl, congrArg Prod.snd hrun, Or.inl ⟨congrArg Prod.fst hrun, fun _ ↦ rfl⟩⟩
  | commit =>
    rw [respond, hrefused]
    exact ⟨rfl, rfl, Or.inl ⟨rfl, fun _ ↦ rfl⟩⟩
  | commitOrAbort =>
    have hsettled : (transaction.isAborted || transaction.isCommitted) = true :=
      (Bool.or_comm ..).trans hended
    rw [respond, commitOrAbort, hrefused]
    dsimp only
    rw [hsettled, if_pos rfl]
    exact ⟨rfl, rfl, Or.inl ⟨rfl, fun _ ↦ rfl⟩⟩
  | abort reason =>
    refine ⟨rfl, rfl, ?_⟩
    cases hcommitted : transaction.isCommitted with
    | true =>
      refine Or.inl ⟨?_, fun haborted ↦ ?_⟩
      · rw [respond, aborted, abort, hcommitted, if_pos rfl]
      · cases hcommitted.symm.trans (not_isCommitted_of_isAborted haborted)
    | false =>
      rw [hasEnded, hcommitted, Bool.false_or] at hended
      refine Or.inr ⟨hended, rfl, reason, ?_⟩
      rw [respond, aborted, abort, hcommitted, if_neg Bool.false_ne_true]

/-- An ended transaction stays ended, whatever it is asked. -/
theorem stays_respondAll (hended : transaction.hasEnded = true)
    (requests : List (Request × Substrate)) :
    transaction.Stays requests (transaction.respondAll requests) := by
  induction requests generalizing transaction with
  | nil => exact ⟨nofun, rfl, rfl, rfl, fun _ ↦ rfl, fun _ ⟨_, hasked, _⟩ ↦ nomatch hasked⟩
  | cons asked rest ih =>
    obtain ⟨request, substrate⟩ := asked
    obtain ⟨hfailed, hsubstrate, hafter⟩ := respond_of_hasEnded hended substrate request
    rw [respondAll]
    generalize transaction.respond substrate request = responded at *
    obtain ⟨reply, after, issued⟩ := responded
    obtain rfl : issued = substrate := hsubstrate
    dsimp only at hfailed hafter ⊢
    obtain ⟨rfl, hkept⟩ | ⟨haborted, habort, reason, rfl⟩ := hafter
    · have hrest := ih hended
      refine ⟨List.forall_mem_cons.mpr ⟨hfailed, hrest.failed⟩, congrArg _ hrest.substrates,
        hrest.isCommitted, hrest.isAborted, fun hquiet ↦ hrest.kept fun haborted ↦
          (List.forall_mem_cons.mp (hquiet haborted)).2, fun haborted hsome ↦ ?_⟩
      obtain ⟨asked, hasked, habort⟩ := hsome
      refine hrest.dropped haborted ⟨asked, (List.mem_cons.mp hasked).resolve_left ?_, habort⟩
      rintro rfl
      cases (hkept haborted).symm.trans habort
    · let emptied : Transaction :=
        { transaction with writes := ∅, deletes := ∅, status := .aborted reason }
      have hrest : emptied.Stays rest (emptied.respondAll rest) := ih rfl
      refine ⟨List.forall_mem_cons.mpr ⟨hfailed, hrest.failed⟩, congrArg _ hrest.substrates,
        hrest.isCommitted.trans (not_isCommitted_of_isAborted haborted).symm,
        hrest.isAborted.trans haborted.symm, fun hquiet ↦ ?_, fun _ _ ↦ ?_⟩
      · cases habort.symm.trans (hquiet haborted _ List.mem_cons_self)
      · exact hrest.isReadOnly rfl

/-! ### Whole lives -/

/-- Among the requests, the store refuses the commit of the transaction as it then is, and no abort
follows. -/
def RefusedAmid (transaction : Transaction) (requests : List (Request × Substrate))
    (refused : Transaction) : Prop :=
  ∃ before request substrate rest, requests = before ++ (request, substrate) :: rest ∧
    refused = (transaction.respondAll before).2 ∧ request.isCommit = true ∧
    refused.RefusedBy substrate ∧ ∀ asked ∈ rest, asked.1.isAbort = false

/-- What has been refused stays buffered, in an aborted transaction. -/
theorem RefusedAmid.left {requests : List (Request × Substrate)} {refused : Transaction}
    (hrefused : transaction.RefusedAmid requests refused) :
    refused.isReadOnly = false ∧ ∃ reason,
      (transaction.respondAll requests).2 = { refused with status := .aborted reason } := by
  obtain ⟨before, request, substrate, rest, rfl, rfl, hcommit, hrefused, hquiet⟩ := hrefused
  refine ⟨hrefused.buffers, ?_⟩
  have hturn := turn_respond hrefused.active substrate request
  rw [respondAll_append, respondAll]
  dsimp only
  generalize respond (transaction.respondAll before).2 substrate request = responded at hturn ⊢
  cases hturn with
  | used huse => cases (Request.isUse_of_isCommit hcommit).symm.trans huse
  | committed _ _ _ hfree => exact absurd hrefused hfree
  | dropped _ _ _ _ hfree => exact absurd hrefused (hfree hcommit)
  | refused reason => exact ⟨reason, (stays_respondAll rfl rest).kept fun _ ↦ hquiet⟩

/-- Requests either use an active transaction alone, and then it stays active, or one of them is the
first that does not. Up to there nothing is committed. -/
theorem used_or_ends (hactive : transaction.status = .active)
    (requests : List (Request × Substrate)) :
    let untouched (used : List (Request × Substrate)) : Prop :=
      (transaction.respondAll used).2.status = .active ∧
        ∀ replied ∈ (transaction.respondAll used).1, replied.1.isSuccess = false
    ((∀ asked ∈ requests, asked.1.isUse = true) ∧ untouched requests) ∨
      ∃ used request substrate rest, requests = used ++ (request, substrate) :: rest ∧
        untouched used ∧ request.isUse = false := by
  induction requests generalizing transaction with
  | nil => exact Or.inl ⟨nofun, hactive, nofun⟩
  | cons asked rest ih =>
    obtain ⟨request, substrate⟩ := asked
    cases huse : request.isUse with
    | false => exact Or.inr ⟨[], request, substrate, rest, rfl, ⟨hactive, nofun⟩, huse⟩
    | true =>
      have hturn := turn_respond hactive substrate request
      simp only [respondAll]
      generalize hresponded : transaction.respond substrate request = responded at hturn
      cases hturn with
      | committed _ hcommit => cases (Request.isUse_of_isCommit hcommit).symm.trans huse
      | dropped _ _ hother => cases huse.symm.trans hother
      | refused _ _ hcommit => cases (Request.isUse_of_isCommit hcommit).symm.trans huse
      | used _ hreply hstill =>
        obtain ⟨hrest, hlast, hfailed⟩ | ⟨used, other, met, later, rfl, ⟨hlast, hfailed⟩, hother⟩ :=
          ih hstill
        · exact Or.inl ⟨List.forall_mem_cons.mpr ⟨huse, hrest⟩, hlast,
            List.forall_mem_cons.mpr ⟨hreply, hfailed⟩⟩
        · refine Or.inr ⟨(request, substrate) :: used, other, met, later, rfl, ?_, hother⟩
          simp only [respondAll, hresponded]
          exact ⟨hlast, List.forall_mem_cons.mpr ⟨hreply, hfailed⟩⟩

/-- The first request that does not use a transaction ends it for good. -/
theorem ended_of_not_use {requests used rest : List (Request × Substrate)} {request : Request}
    {substrate : Substrate} (hrequests : requests = used ++ (request, substrate) :: rest)
    (hactive : (transaction.respondAll used).2.status = .active)
    (hfailed : ∀ replied ∈ (transaction.respondAll used).1, replied.1.isSuccess = false)
    (hother : request.isUse = false) :
    (transaction.respondAll requests).2.hasEnded = true ∧
      ((transaction.respondAll requests).2.isCommitted = true ↔
        ∃ replied ∈ (transaction.respondAll requests).1, replied.1.isSuccess = true) ∧
      ((transaction.respondAll requests).2.isAborted = true →
        (transaction.respondAll requests).2.isReadOnly = false →
          ∃ refused, transaction.RefusedAmid requests refused) := by
  subst hrequests
  rw [respondAll_append, respondAll]
  dsimp only
  have hturn := turn_respond hactive substrate request
  generalize respond (transaction.respondAll used).2 substrate request = responded at hturn ⊢
  obtain ⟨reply, after, issued⟩ := responded
  dsimp only
  -- what an abort leaves stays aborted, and nothing is committed before, by it or behind it
  have habort (haborted : after.isAborted = true) (hreply : reply.isSuccess = false) :
      (after.respondAll rest).2.hasEnded = true ∧
        ((after.respondAll rest).2.isCommitted = true ↔
          ∃ replied ∈ (transaction.respondAll used).1 ++ (reply, issued) :: (after.respondAll rest).1,
            replied.1.isSuccess = true) := by
    have hrest := stays_respondAll (by rw [hasEnded, haborted, Bool.or_true]) rest
    have hstill := hrest.isAborted.trans haborted
    refine ⟨by rw [hasEnded, hstill, Bool.or_true], iff_of_false ?_ ?_⟩
    · rw [not_isCommitted_of_isAborted hstill]
      exact Bool.false_ne_true
    · rintro ⟨replied, hreplied, hsuccess⟩
      obtain hbefore | hend := List.mem_append.mp hreplied
      · cases (hfailed replied hbefore).symm.trans hsuccess
      · obtain rfl | hbehind := List.mem_cons.mp hend
        · cases hreply.symm.trans hsuccess
        · cases (hrest.failed replied hbehind).symm.trans hsuccess
  cases hturn with
  | used huse => cases huse.symm.trans hother
  | committed _ hcommit hreply =>
    let committed : Transaction := { (transaction.respondAll used).2 with status := .committed }
    have hrest : committed.Stays rest (committed.respondAll rest) := stays_respondAll rfl rest
    refine ⟨by rw [hasEnded, hrest.isCommitted]; rfl,
      iff_of_true hrest.isCommitted ⟨(reply, issued), ?_, hreply⟩, fun haborted ↦ ?_⟩
    · exact List.mem_append_right _ List.mem_cons_self
    · cases hrest.isAborted.symm.trans haborted
  | dropped reason _ _ hreply =>
    obtain ⟨hended, hcommitted⟩ := habort rfl hreply
    refine ⟨hended, hcommitted, fun _ hbuffers ↦ ?_⟩
    let emptied : Transaction := { (transaction.respondAll used).2 with
      writes := ∅, deletes := ∅, status := .aborted reason }
    have hrest : emptied.Stays rest (emptied.respondAll rest) := stays_respondAll rfl rest
    cases (hrest.isReadOnly rfl).symm.trans hbuffers
  | refused reason _ hcommit hreply hrefused =>
    obtain ⟨hended, hcommitted⟩ := habort rfl hreply
    let left : Transaction := { (transaction.respondAll used).2 with status := .aborted reason }
    have hrest : left.Stays rest (left.respondAll rest) := stays_respondAll rfl rest
    refine ⟨hended, hcommitted, fun _ hbuffers ↦ ⟨_, used, request, substrate, rest, rfl, rfl,
      hcommit, hrefused, fun asked hasked ↦ Bool.eq_false_iff.mpr fun hdropped ↦ ?_⟩⟩
    cases (hrest.dropped rfl ⟨asked, hasked, hdropped⟩).symm.trans hbuffers

end Transaction

/-- A transaction begun on a snapshot is active as long as it is only used, and otherwise committed
or aborted. It is committed exactly if one of its commits has succeeded. It is aborted and has
something buffered exactly if the store has refused its buffers when it was to be committed and no
abort has come since, and then it has buffered what it had buffered then. Once it has ended, nothing
is committed any more, and it and the store stay as they are, but for an abort of an aborted
transaction, which drops what a refusal has left. -/
theorem transaction_ends_once (id version : Nat)
    (requests : List (Transaction.Request × Substrate)) :
    let begun := Transaction.onSnapshot id version
    let (replies, left) := begun.respondAll requests
    ((left.status = .active ↔ ∀ asked ∈ requests, asked.1.isUse = true) ∧
      (left.status ≠ .active → left.isCommitted = true ∨ left.isAborted = true)) ∧
    (left.isCommitted = true ↔ ∃ replied ∈ replies, replied.1.isSuccess = true) ∧
    (left.isAborted = true ∧ left.isReadOnly = false ↔
      ∃ refused, begun.RefusedAmid requests refused) ∧
    (∀ refused, begun.RefusedAmid requests refused →
      left.writes = refused.writes ∧ left.deletes = refused.deletes) ∧
    (left.status ≠ .active → ∀ later, left.Stays later (left.respondAll later)) := by
  intro begun
  have hbegun : begun.status = .active := rfl
  have hkeeps (refused : Transaction) (hrefused : begun.RefusedAmid requests refused) :
      (begun.respondAll requests).2.writes = refused.writes ∧
        (begun.respondAll requests).2.deletes = refused.deletes := by
    obtain ⟨-, reason, hleft⟩ := hrefused.left
    rw [hleft]
    exact ⟨rfl, rfl⟩
  have hrefusal : (∃ refused, begun.RefusedAmid requests refused) →
      (begun.respondAll requests).2.isAborted = true ∧
        (begun.respondAll requests).2.isReadOnly = false := by
    rintro ⟨refused, hrefused⟩
    obtain ⟨hbuffers, reason, hleft⟩ := hrefused.left
    rw [hleft]
    exact ⟨rfl, hbuffers⟩
  dsimp only
  obtain ⟨huses, hactive, hfailed⟩ |
      ⟨used, request, substrate, rest, hrequests, ⟨hactive, hfailed⟩, hother⟩ :=
    Transaction.used_or_ends hbegun requests
  · have hopen : ¬ (begun.respondAll requests).2.status ≠ .active := not_not_intro hactive
    refine ⟨⟨iff_of_true hactive huses, fun hended ↦ absurd hended hopen⟩, iff_of_false ?_ ?_,
      ⟨fun ⟨haborted, _⟩ ↦ ?_, hrefusal⟩, hkeeps, fun hended ↦ absurd hended hopen⟩
    · rw [Transaction.isCommitted, hactive]
      exact Bool.false_ne_true
    · rintro ⟨replied, hreplied, hsuccess⟩
      cases (hfailed replied hreplied).symm.trans hsuccess
    · rw [Transaction.isAborted, hactive] at haborted
      cases haborted
  · obtain ⟨hended, hcommitted, hrefused⟩ :=
      Transaction.ended_of_not_use hrequests hactive hfailed hother
    refine ⟨⟨iff_of_false (Transaction.not_active_of_hasEnded hended) fun huses ↦ ?_,
      fun _ ↦ Bool.or_eq_true_iff.mp hended⟩, hcommitted,
      ⟨fun ⟨haborted, hbuffers⟩ ↦ hrefused haborted hbuffers, hrefusal⟩, hkeeps,
      fun _ ↦ Transaction.stays_respondAll hended⟩
    have huse := huses (request, substrate) (hrequests ▸ List.mem_append_right _ List.mem_cons_self)
    cases huse.symm.trans hother

/-- A put over a store whose applications fail, and a commit there. -/
def refusedPut : List (Transaction.Request × Substrate) :=
  let failing := (Substrate.reliable .empty).setWriteFailure true
  [(.use (Script.write ⟨.run, [1]⟩ .empty), failing), (.commitOrAbort, failing)]

/-- A transaction whose buffers the store refuses is aborted and still has its put buffered, until
an abort drops it behind its end. -/
theorem refusedPut_stays_buffered :
    let left := ((Transaction.onSnapshot 1 0).respondAll refusedPut).2
    let dropped := (left.respondAll [(.abort "late", .reliable .empty)]).2
    left.isAborted = true ∧ left.writes.keys = [⟨.run, [1]⟩] ∧
      dropped.isAborted = true ∧ dropped.writes.keys = [] := by
  decide +kernel

end RunLedger
