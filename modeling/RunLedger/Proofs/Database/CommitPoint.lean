import RunLedger.Proofs.Database.Soundness

/-!
# Commits take effect at one point

A transaction that commits changes has them appear at once, and all that it took from its snapshot
is at that point what the store holds, however many others have come and gone meanwhile
(`reads_hold_at_commit`). Nothing can be lost that way, even where a key was created, deleted and
reclaimed between the snapshot and the commit: a key without entries has version zero, but so it had
for a transaction that found it so, and entries above a live snapshot are never reclaimed.

Transactions that scan nothing are therefore serialised by the order of their commits: performed one
after the other by themselves they make the same calls with the same answers and leave the same
contents (`serially_eq_history`). A scan can miss keys that were created since, so for scans this
says only that the rows taken are still there.
-/

set_option autoImplicit false

namespace RunLedger

variable {ω α : Type} {program : ω → Script α}

/-- Scripts performed one after the other: the outcome and the calls of each, and the contents in
the end. -/
def serially (program : ω → Script α) :
    List ω → Contents → List (Except Failure α × List Call) × Contents
  | [], contents => ([], contents)
  | operation :: rest, contents =>
    let performance := (program operation).perform contents
    let (others, final) := serially program rest performance.contents
    ((performance.outcome, performance.calls) :: others, final)

theorem serially_append (first second : List ω) (contents : Contents) :
    serially program (first ++ second) contents =
      ((serially program first contents).1 ++
          (serially program second (serially program first contents).2).1,
        (serially program second (serially program first contents).2).2) := by
  induction first generalizing contents with
  | nil => rfl
  | cons operation rest ih => simp only [List.cons_append, serially, ih]

section

variable {failsRead failsWrite : Nat → Bool}

/-- A commit whose calls neither scanned nor failed is what its program does to the contents right
before it. -/
theorem Commit.Sound.perform_eq {history : List (Commit ω α)} {place : Nat} {commit : Commit ω α}
    (hsound : commit.Sound program failsRead history place)
    (hcommit : history[place]? = some commit) (hscans : ScanFree commit.calls)
    (hunrefused : Unrefused commit.calls) :
    (program commit.operation).perform (contentsAfter history place) =
      ⟨.ok commit.result, contentsAfter history (place + 1), commit.calls⟩ := by
  have htruthful := hsound.course.truthful.transfer hscans hsound.held
  rw [Script.perform_eq_of_leads hsound.course.leads htruthful hunrefused,
    contentsAfter_succ hcommit]

/-- The first commits of a history without scans and failures are their programs performed one after
the other. -/
theorem serially_take {system : System ω α} (hsound : system.Sound program failsRead failsWrite)
    (hcalls : ∀ commit ∈ system.history, ScanFree commit.calls ∧ Unrefused commit.calls)
    (count : Nat) :
    serially program ((system.history.take count).map (·.operation)) ∅ =
      ((system.history.take count).map fun commit ↦ (.ok commit.result, commit.calls),
        contentsAfter system.history count) := by
  induction count with
  | zero => rfl
  | succ count ih =>
    cases hcommit : system.history[count]? with
    | none =>
      have hlength : system.history.length ≤ count := List.getElem?_eq_none_iff.mp hcommit
      rw [contentsAfter, List.take_of_length_le hlength] at ih
      rw [contentsAfter, List.take_of_length_le (Nat.le_succ_of_le hlength)]
      exact ih
    | some commit =>
      obtain ⟨hscans, hunrefused⟩ := hcalls commit (List.mem_of_getElem? hcommit)
      have hperform := (hsound.commits count commit hcommit).perform_eq hcommit hscans hunrefused
      rw [List.take_add_one, hcommit, Option.toList_some, List.map_append, List.map_append,
        serially_append, ih]
      simp only [List.map_cons, List.map_nil, serially, hperform]

end

/-- In every interleaving: when a transaction commits changes, all that it took from its snapshot,
and all that the snapshot held under any entry it read, is what the store holds right before; and if
no transaction that committed changes has scanned or met a failure, performing these transactions
one after the other in the order of their commits gives each the same answers and the same result,
and leaves the contents that the store holds. -/
theorem reads_hold_at_commit (program : ω → Script α) (failsRead failsWrite : Nat → Bool)
    (config : Config) (events : List (Event ω)) :
    let system := (System.initial failsRead failsWrite config).run program events
    let store := system.database.substrate.store
    (∀ (place : Nat) (session : Session ω α) (result : α),
      system.sessions[place]? = some session → session.stage = .calling →
      session.rest = .finish (.ok result) → session.transaction.isReadOnly = false →
      (system.database.conclude session.transaction (.ok result)).1 = .ok result →
        (∀ key found?, Took session.calls key found? → store.live.get? key = found?) ∧
        (∀ key, session.transaction.reads.contains key = true →
          store.get? key session.snapshot = store.get? key store.version)) ∧
    ((∀ commit ∈ system.history, ScanFree commit.calls ∧ Unrefused commit.calls) →
      serially program (system.history.map (·.operation)) ∅ =
        (system.history.map fun commit ↦ (.ok commit.result, commit.calls), store.live)) := by
  intro system store
  have hsound : system.Sound program failsRead failsWrite :=
    System.sound_run program failsRead failsWrite config events
  refine ⟨fun place session result hsession hstage hrest hreadOnly hcommits ↦ ?_, fun hcalls ↦ ?_⟩
  · have hmem := List.mem_of_getElem? hsession
    have hbefore := hsound.sessions session hmem (by rw [hstage]; decide)
    have htracks := hbefore.tracks hstage
    obtain ⟨hconcludes, -⟩ :=
      Database.concludes_conclude htracks.active system.database (Except.ok result)
    rw [hcommits] at hconcludes
    have hheld (key : Key) (hread : session.transaction.reads.contains key = true) :
        store.get? key session.snapshot = store.get? key store.version := by
      cases hconcludes with
      | readOnly hempty => rw [hreadOnly] at hempty; cases hempty
      | committed _ hvalid => exact hsound.held_of_valid hmem hstage hvalid hread
    refine ⟨fun key found? htook ↦ ?_, hheld⟩
    have hsnapshot := (hbefore.course hstage).truthful.get?_of_took htook
    rwa [← hbefore.visible, Store.get?_liveAt, hheld key (htracks.remembered key found? htook),
      ← Store.get?_liveAt] at hsnapshot
  · have hserial := serially_take hsound hcalls system.history.length
    rwa [List.take_length, ← hsound.live] at hserial

/-- A transaction that looks a key up and writes another one overlaps with one that writes a third
key; both make their calls, and the second commits. -/
def overlapping : List (Event (Script Unit)) :=
  [.begin (.get ⟨.run, [1]⟩ fun _ ↦ .put ⟨.run, [2]⟩ .empty .finish),
    .begin (.put ⟨.run, [3]⟩ .empty .finish), .call 0, .call 1, .conclude 1, .drop 1, .collect,
    .call 0]

/-- What the first of the overlapping transactions took still holds when it commits, and the two are
serialised. -/
theorem reads_hold_at_commit_overlapping :
    (System.reliably id overlapping).database.substrate.store.live.get? ⟨.run, [1]⟩ = none ∧
    serially id
      [.put ⟨.run, [3]⟩ .empty .finish,
        .get ⟨.run, [1]⟩ fun _ ↦ .put ⟨.run, [2]⟩ .empty .finish] ∅ =
      ([(.ok (), [.put ⟨.run, [3]⟩ .empty]),
        (.ok (), [.got ⟨.run, [1]⟩ none, .put ⟨.run, [2]⟩ .empty])],
        (System.reliably id (overlapping ++ [.conclude 0])).database.substrate.store.live) := by
  constructor
  · have hfirst : (System.reliably id overlapping).sessions[0]?.map (fun session ↦
        (session.stage, session.rest, session.transaction.isReadOnly, session.calls,
          ((System.reliably id overlapping).database.conclude session.transaction
            (.ok () : Except Failure Unit)).1)) =
        some (.calling, .finish (.ok ()), false,
          [.got ⟨.run, [1]⟩ none, .put ⟨.run, [2]⟩ .empty], .ok ()) := rfl
    obtain ⟨session, hsession, hfields⟩ := Option.map_eq_some_iff.mp hfirst
    simp only [Prod.mk.injEq] at hfields
    obtain ⟨hstage, hrest, hreadOnly, hcalls, hcommits⟩ := hfields
    refine ((reads_hold_at_commit id (fun _ ↦ false) (fun _ ↦ false) .standard overlapping).1
      0 session () hsession hstage hrest hreadOnly hcommits).1 ⟨.run, [1]⟩ none ?_
    rw [hcalls]
    exact took_of_told (List.mem_singleton.mpr rfl) _
  · have hserial := (reads_hold_at_commit id (fun _ ↦ false) (fun _ ↦ false) .standard
      (overlapping ++ [.conclude 0])).2 (by decide +kernel)
    have hoperations : (System.reliably id (overlapping ++ [.conclude 0])).history.map (·.operation) =
        [.put ⟨.run, [3]⟩ .empty .finish,
          .get ⟨.run, [1]⟩ fun _ ↦ .put ⟨.run, [2]⟩ .empty .finish] := rfl
    have hcalls : (System.reliably id (overlapping ++ [.conclude 0])).history.map
        (fun commit ↦ ((.ok commit.result : Except Failure Unit), commit.calls)) =
        [(.ok (), [.put ⟨.run, [3]⟩ .empty]),
          (.ok (), [.got ⟨.run, [1]⟩ none, .put ⟨.run, [2]⟩ .empty])] := rfl
    rw [← hoperations, ← hcalls]
    exact hserial

end RunLedger
