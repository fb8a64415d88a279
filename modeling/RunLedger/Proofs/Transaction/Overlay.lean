import RunLedger.Proofs.Store.Chronicle
import RunLedger.Proofs.Transaction.Validation

/-!
# A transaction as a map of its own

An active transaction is asked for one `Access` after the other, and between them others may do to
the store what they like, as long as the snapshot shows the same contents. It answers as those plain
contents would, with each of its puts and deletions made to them at once (`Answered`), and its
buffers make of the contents what its calls make of them.

A commit puts just these buffers over what the store then holds, all under the next version
(`Store.Overlaid`).
-/

set_option autoImplicit false

namespace RunLedger

/-! ### Accesses -/

/-- What a transaction is asked for. -/
inductive Access where
  | get (key : Key)
  | scanStem (stem : Key)
  | scanRange (first last : Key)
  | put (key : Key) (value : Value)
  | delete (key : Key)

namespace Access

/-- Whether the access reads. -/
def isRead : Access → Bool
  | get _ | scanStem _ | scanRange .. => true
  | put .. | delete _ => false

/-- The access to plain contents: the value under the key, or the entries that lie in the scanned
part, in key order. -/
def callOn (contents : Contents) : Access → Call
  | get key => .got key (contents.get? key)
  | scanStem stem => .scannedStem stem (contents.filter fun key _ ↦ key.startsWith stem).toList
  | scanRange first last =>
    .scannedRange first last (contents.filter fun key _ ↦ Key.isBetween first last key).toList
  | put key value => .put key value
  | delete key => .deleted key

end Access

/-- Accesses, each over a substrate, are answered one after the other as by plain contents to which
the puts and deletions are made. A read may be refused instead if some read of its substrate is
planned to fail. -/
inductive Answered : Contents → List (Access × Substrate) → List Call → Prop
  | nil (contents : Contents) : Answered contents [] []
  | answered {contents : Contents} {access : Access} {substrate : Substrate}
    {rest : List (Access × Substrate)} {calls : List Call}
    (hrest : Answered ((access.callOn contents).effect contents) rest calls) :
    Answered contents ((access, substrate) :: rest) (access.callOn contents :: calls)
  | refused {contents : Contents} {access : Access} {substrate : Substrate} {cause : Outage}
    {rest : List (Access × Substrate)} {calls : List Call} (hread : access.isRead = true)
    (hfails : ∃ serial, substrate.failsRead serial = true) (hrest : Answered contents rest calls) :
    Answered contents ((access, substrate) :: rest) (.refused (.storeUnavailable cause) :: calls)

namespace Transaction

/-- A transaction behind an access over a substrate, and the call with its answer. -/
def serve (transaction : Transaction) (substrate : Substrate) : Access → Call × Transaction
  | .get key =>
    let (answer, transaction, _) := transaction.get substrate key
    (.ofAnswer (.got key) answer, transaction)
  | .scanStem stem =>
    let (answer, transaction, _) := transaction.scanStem substrate stem
    (.ofAnswer (.scannedStem stem) answer, transaction)
  | .scanRange first last =>
    let (answer, transaction, _) := transaction.scanRange substrate first last
    (.ofAnswer (.scannedRange first last) answer, transaction)
  | .put key value =>
    let (answer, transaction) := transaction.put key value
    (.ofAnswer (fun _ ↦ .put key value) answer, transaction)
  | .delete key =>
    let (answer, transaction) := transaction.delete key
    (.ofAnswer (fun _ ↦ .deleted key) answer, transaction)

/-- A transaction behind accesses, each over the substrate that it meets, and the calls. -/
def serveAll (transaction : Transaction) : List (Access × Substrate) → List Call × Transaction
  | [] => ([], transaction)
  | (access, substrate) :: rest =>
    let (call, transaction) := transaction.serve substrate access
    let (calls, transaction) := transaction.serveAll rest
    (call :: calls, transaction)

variable {transaction : Transaction} {snapshot : Nat} {calls : List Call}

/-- How one access goes: it is answered as by the contents behind the earlier calls, or refused for
a planned failure, and the transaction tracks the call. -/
structure Serves (access : Access) (substrate : Substrate) (contents : Contents) (snapshot : Nat)
    (calls : List Call) (served : Call × Transaction) : Prop where
  tracks : served.2.Tracks snapshot (calls ++ [served.1])
  answer : served.1 = access.callOn contents ∨
    access.isRead = true ∧ (∃ cause, served.1 = .refused (.storeUnavailable cause)) ∧
      ∃ serial, substrate.failsRead serial = true

/-- A read that is answered is answered as by the contents, if only one answer is true. -/
theorem serves_of_answers {α : Type} {substrate : Substrate} {call : α → Call}
    {answered : Except Failure α × Transaction × Substrate} {access : Access}
    (htracks : transaction.Tracks snapshot calls)
    (hanswers : transaction.Answers substrate snapshot calls call answered)
    (hread : access.isRead = true)
    (honly : ∀ (contents : Contents) (answer : α), (call answer).IsTrue contents →
      call answer = access.callOn contents) :
    Serves access substrate (effectOf calls (substrate.store.liveAt snapshot)) snapshot calls
      (.ofAnswer call answered.1, answered.2.1) := by
  obtain ⟨answer, hanswer, htrue, htracked⟩ | ⟨cause, hanswer, hfails, hsame⟩ := hanswers.outcome
  · rw [hanswer]
    exact ⟨htracked, Or.inl (honly _ answer htrue)⟩
  · rw [hanswer, hsame]
    exact ⟨htracks.refused _, Or.inr ⟨hread, ⟨cause, rfl⟩, hfails⟩⟩

theorem Tracks.serve (htracks : transaction.Tracks snapshot calls) (substrate : Substrate)
    (access : Access) :
    Serves access substrate (effectOf calls (substrate.store.liveAt snapshot)) snapshot calls
      (transaction.serve substrate access) := by
  cases access with
  | get key =>
    refine serves_of_answers htracks (htracks.get_spec substrate key) rfl
      fun contents answer htrue ↦ ?_
    exact congrArg (Call.got key) htrue
  | scanStem stem =>
    refine serves_of_answers htracks (htracks.scanStem_spec substrate stem) rfl
      fun contents answer htrue ↦ ?_
    exact congrArg (Call.scannedStem stem) htrue
  | scanRange first last =>
    refine serves_of_answers htracks (htracks.scanRange_spec substrate first last) rfl
      fun contents answer htrue ↦ ?_
    exact congrArg (Call.scannedRange first last) htrue
  | put key value =>
    obtain ⟨hanswer, htracked⟩ := htracks.put key value
    simp only [Transaction.serve, hanswer]
    exact ⟨htracked, Or.inl rfl⟩
  | delete key =>
    obtain ⟨hanswer, htracked⟩ := htracks.delete key
    simp only [Transaction.serve, hanswer]
    exact ⟨htracked, Or.inl rfl⟩

/-- Accesses to a transaction are answered as by the contents of its snapshot behind its calls, and
the transaction tracks them all. -/
theorem Tracks.serveAll (htracks : transaction.Tracks snapshot calls) {contents : Contents}
    {accesses : List (Access × Substrate)}
    (hsnapshot : ∀ access ∈ accesses, access.2.store.liveAt snapshot = contents) :
    Answered (effectOf calls contents) accesses (transaction.serveAll accesses).1 ∧
      (transaction.serveAll accesses).2.Tracks snapshot
        (calls ++ (transaction.serveAll accesses).1) := by
  induction accesses generalizing transaction calls with
  | nil =>
    refine ⟨.nil _, ?_⟩
    rw [Transaction.serveAll, List.append_nil]
    exact htracks
  | cons first rest ih =>
    obtain ⟨access, substrate⟩ := first
    have hserved := htracks.serve substrate access
    rw [hsnapshot (access, substrate) List.mem_cons_self] at hserved
    rw [Transaction.serveAll]
    generalize transaction.serve substrate access = served at hserved ⊢
    obtain ⟨call, after⟩ := served
    obtain ⟨hanswered, htracked⟩ := ih hserved.tracks fun other hother ↦
      hsnapshot other (List.mem_cons_of_mem _ hother)
    rw [effectOf_append] at hanswered
    rw [List.append_assoc] at htracked
    refine ⟨?_, htracked⟩
    obtain rfl | ⟨hread, ⟨cause, rfl⟩, hfails⟩ := hserved.answer
    · exact .answered hanswered
    · exact .refused hread hfails hanswered

end Transaction

/-! ### Commits -/

/-- A commit has put writes and deletions over a store: the live contents are overwritten with them,
all under the version behind that of the store, and below it nothing is changed. -/
structure Store.Overlaid (before after : Store) (writes : SortedMap Key Value)
    (deletes : SortedSet Key) : Prop where
  version : after.version = before.version + 1
  live : after.live = before.live.overlay writes deletes
  written : ∀ key value, writes.get? key = some value →
    after.get? key after.version = some ⟨value, after.version⟩
  deleted : ∀ key, deletes.contains key = true → after.get? key after.version = none
  kept : ∀ key, writes.contains key = false → deletes.contains key = false →
    after.get? key after.version = before.get? key before.version
  below : ∀ key reader, reader ≤ before.version → after.get? key reader = before.get? key reader

theorem Store.overlaid_of_apply {before after : Store} (hbefore : before.WellFormed)
    {writes : SortedMap Key Value} {deletes : SortedSet Key}
    (happly : before.apply writes.toList deletes.keys (before.version + 1) = .ok after)
    (hdisjoint : ∀ key, writes.contains key = true → deletes.contains key = false) :
    before.Overlaid after writes deletes := by
  have hversion := version_apply happly
  have hget (key : Key) (reader : Nat) :=
    get?_apply happly (SortedMap.nodup_keys writes) key reader
  have hlookup (key : Key) : SortedMap.lookup key writes.toList = writes.get? key := rfl
  simp only [SortedMap.mem_keys_iff, hlookup] at hget
  refine ⟨hversion, live_apply hbefore happly hdisjoint, fun key value hwritten ↦ ?_,
    fun key hdeleted ↦ ?_, fun key hwritten hdeleted ↦ ?_, fun key reader hreader ↦ ?_⟩
  · have hkept : deletes.contains key = false :=
      hdisjoint key (by rw [SortedMap.contains_eq, hwritten]; rfl)
    rw [hget, hversion, if_pos (Nat.le_refl _), if_neg (by simp [hkept]), hwritten]
    rfl
  · rw [hget, hversion, if_pos (Nat.le_refl _), if_pos hdeleted]
  · have hnone : writes.get? key = none := by
      rwa [SortedMap.contains_eq, Option.isSome_eq_false_iff, Option.isNone_iff_eq_none] at hwritten
    rw [hget, hversion, if_pos (Nat.le_refl _), if_neg (by simp [hdeleted]), hnone, Option.map_none,
      Option.none_or]
    exact get?_of_version_le hbefore key (Nat.le_succ _)
  · rw [hget, if_neg (Nat.not_le_of_lt (Nat.lt_succ_of_le hreader))]

namespace Transaction

/-- The successful commit of a transaction that has buffered something applies its buffers under the
next version. -/
theorem apply_of_commit {transaction : Transaction} (hactive : transaction.status = .active)
    (hbuffers : transaction.isReadOnly = false) {substrate : Substrate} {committed : Nat}
    (hcommit : (transaction.commit substrate).1 = .ok committed) :
    committed = substrate.store.version + 1 ∧
      substrate.store.apply transaction.writes.toList transaction.deletes.keys
        (substrate.store.version + 1) = .ok (transaction.commit substrate).2.2.store := by
  have hcommits := (commits_commitOrAbort hactive substrate).1
  unfold commitOrAbort at hcommits
  generalize transaction.commit substrate = ended at *
  obtain ⟨answer, after, issued⟩ := ended
  obtain rfl : answer = .ok committed := hcommit
  cases hcommits with
  | readOnly hreadOnly => cases hreadOnly.symm.trans hbuffers
  | applied hreadOnly hvalid happly =>
    have hnext := nextVersion_eq (Store.apply_eq_ok happly).1
    exact ⟨hnext, hnext ▸ happly⟩

end Transaction

/-- A transaction on any snapshot, asked for anything in any order, answers as its own map, the
contents of the snapshot with the puts and deletions made so far, would: a key is looked up there,
and a scan lists the entries that lie in the scanned part. Its writes and deletions are of different
keys and make of the contents what the calls make of them. If it has buffered something and its
commit succeeds, on whatever commits and collections have made of the store by then, these writes
and deletions are put over the live contents under the next version, which the commit gives. -/
theorem transaction_overlays (id snapshot : Nat) (contents : Contents)
    (accesses : List (Access × Substrate))
    (hsnapshot : ∀ access ∈ accesses, access.2.store.liveAt snapshot = contents) :
    let (calls, transaction) := (Transaction.onSnapshot id snapshot).serveAll accesses
    Answered contents accesses calls ∧
    contents.overlay transaction.writes transaction.deletes = effectOf calls contents ∧
    (∀ key, transaction.writes.contains key = true → transaction.deletes.contains key = false) ∧
    ∀ (requests : List Store.Request) (substrate : Substrate) (committed : Nat),
      substrate.store = Store.empty.run requests → transaction.isReadOnly = false →
        (transaction.commit substrate).1 = .ok committed →
          committed = substrate.store.version + 1 ∧
            substrate.store.Overlaid (transaction.commit substrate).2.2.store transaction.writes
              transaction.deletes := by
  obtain ⟨hanswered, htracks⟩ := (Transaction.Tracks.begin id snapshot).serveAll hsnapshot
  refine ⟨hanswered, htracks.buffers contents, htracks.disjoint,
    fun requests substrate committed hstore hbuffers hcommit ↦ ?_⟩
  have hordered : substrate.store.WellFormed := hstore ▸ Store.wellFormed_run requests
  obtain ⟨hcommitted, happly⟩ := Transaction.apply_of_commit htracks.active hbuffers hcommit
  exact ⟨hcommitted, Store.overlaid_of_apply hordered happly htracks.disjoint⟩

/-- A transaction that deletes a key, puts another and scans commits under the second version. -/
theorem transaction_overlays_exchanged :
    let requests : List Store.Request := [.apply ⟨[(⟨.run, [1]⟩, .empty)], [], by decide⟩ 1]
    let substrate := Substrate.reliable (Store.empty.run requests)
    let accesses : List (Access × Substrate) :=
      [(.delete ⟨.run, [1]⟩, substrate), (.put ⟨.run, [2]⟩ .empty, substrate),
        (.scanStem ⟨.run, []⟩, substrate)]
    let (calls, transaction) := (Transaction.onSnapshot 1 1).serveAll accesses
    let (_, _, issued) := transaction.commit substrate
    Answered (substrate.store.liveAt 1) accesses calls ∧
      substrate.store.Overlaid issued.store transaction.writes transaction.deletes ∧
      issued.store.live.toList = [(⟨.run, [2]⟩, .empty)] := by
  intro requests substrate accesses
  obtain ⟨hanswered, -, -, hcommit⟩ := transaction_overlays 1 1 (substrate.store.liveAt 1) accesses
    (by simp [accesses])
  have hoverlaid := (hcommit requests substrate 2 rfl (by decide +kernel) rfl).2
  exact ⟨hanswered, hoverlaid, by decide +kernel⟩

end RunLedger
