import RunLedger.Proofs.Transaction.Calls

/-!
# The reads of a transaction

A transaction answers as if it had the contents of its snapshot for itself: behind the calls it has
answered, the next answer is what those calls make of the contents at the version of the snapshot.
`Transaction.Tracks` says how its buffers and its read versions stand to its calls, and
`Script.advance` is one call of a script; `advance_spec` says that the call is true, that the
transaction still tracks its calls, and that the store is as before.
-/

set_option autoImplicit false

namespace RunLedger

/-- Putting the entries of one map and then those of another into a map lets the second win. -/
theorem SortedMap.get?_ofList_append {α β : Type} [Ord α] [Std.TransOrd α]
    [Std.LawfulEqOrd α] (first second : SortedMap α β) (key : α) :
    (ofList (first.toList ++ second.toList)).get? key = (second.get? key).or (first.get? key) := by
  rw [ofList, List.foldl_append]
  refine (get?_foldl_insert (nodup_keys second) _ key).trans ?_
  congr 1
  exact (get?_foldl_insert (nodup_keys first) empty key).trans Option.or_none

/-- Nothing but reads has happened to a substrate. -/
structure Substrate.OnlyRead (before after : Substrate) : Prop where
  store : after.store = before.store
  failsRead : after.failsRead = before.failsRead
  failsWrite : after.failsWrite = before.failsWrite

theorem Substrate.OnlyRead.refl (substrate : Substrate) : substrate.OnlyRead substrate :=
  ⟨rfl, rfl, rfl⟩

theorem Substrate.OnlyRead.trans {first second third : Substrate} (hfirst : first.OnlyRead second)
    (hsecond : second.OnlyRead third) : first.OnlyRead third :=
  ⟨hsecond.store.trans hfirst.store, hsecond.failsRead.trans hfirst.failsRead,
    hsecond.failsWrite.trans hfirst.failsWrite⟩

/-- A read gives the answer of the store, or fails if some read is planned to. -/
theorem Substrate.read_spec {α : Type} (substrate : Substrate) (outage : Outage)
    (answer : Store → α) :
    substrate.OnlyRead (substrate.read outage answer).2 ∧
      ((substrate.read outage answer).1 = .ok (answer substrate.store) ∨
        ((substrate.read outage answer).1 = .error outage ∧
          ∃ serial, substrate.failsRead serial = true)) := by
  unfold read
  by_cases hfails : substrate.failsRead substrate.readCount = true
  · rw [if_pos hfails]
    exact ⟨⟨rfl, rfl, rfl⟩, Or.inr ⟨rfl, _, hfails⟩⟩
  · rw [if_neg hfails]
    exact ⟨⟨rfl, rfl, rfl⟩, Or.inl rfl⟩

namespace Transaction

/-- How an active transaction on the snapshot of a version stands to the calls it has answered: it
has read no version above that of the snapshot, its buffers are what the calls change, and it
remembers what they took. -/
structure Tracks (transaction : Transaction) (snapshot : Nat) (calls : List Call) : Prop where
  active : transaction.status = .active
  reading : transaction.snapshot? = some snapshot
  reads_le : ∀ key version, transaction.reads.get? key = some version → version ≤ snapshot
  disjoint : ∀ key, transaction.writes.contains key = true →
    transaction.deletes.contains key = false
  buffers : ∀ contents : Contents,
    contents.overlay transaction.writes transaction.deletes = effectOf calls contents
  changed : ∀ key, transaction.writes.contains key = true ∨
    transaction.deletes.contains key = true ↔ Changed calls key
  remembered : ∀ key found?, Took calls key found? → transaction.reads.contains key = true

/-- A transaction that has answered nothing yet. -/
theorem Tracks.begin (id snapshot : Nat) : (onSnapshot id snapshot).Tracks snapshot [] where
  active := rfl
  reading := rfl
  reads_le _ _ hread := by cases hread
  disjoint _ hwritten := by cases hwritten
  buffers contents := SortedMap.overlay_empty contents
  changed key := by
    constructor
    · rintro (hwritten | hdeleted)
      · cases hwritten
      · cases hdeleted
    · rintro ⟨call, hcall, -⟩
      cases hcall
  remembered key found? htook := by
    obtain ⟨before, call, after, hcalls, -⟩ := htook
    simp at hcalls

/-! ### Calls that change nothing -/

variable {transaction : Transaction} {snapshot : Nat} {calls : List Call}

/-- Where nothing is buffered, the calls have changed nothing. -/
theorem Tracks.effectOf_eq (htracks : transaction.Tracks snapshot calls)
    (hreadOnly : transaction.isReadOnly = true) (contents : Contents) :
    effectOf calls contents = contents := by
  obtain ⟨hwrites, hdeletes⟩ := Bool.and_eq_true_iff.mp hreadOnly
  rw [← htracks.buffers, (SortedMap.isEmpty_iff_eq_empty _).mp hwrites,
    (SortedMap.isEmpty_iff_eq_empty _).mp hdeletes, SortedMap.overlay_empty]

/-- A transaction that has read more tracks one more call, if the call changes nothing and what it
took is among the reads. -/
theorem Tracks.answer (htracks : transaction.Tracks snapshot calls) {call : Call}
    (hchanged : call.changed? = none) (reads : SortedMap Key Nat)
    (hreads : ∀ key version, reads.get? key = some version → version ≤ snapshot)
    (hkept : ∀ key, transaction.reads.contains key = true → reads.contains key = true)
    (htold : ∀ key found?, (key, found?) ∈ call.told → ¬ Changed calls key →
      reads.contains key = true) :
    Tracks { transaction with reads } snapshot (calls ++ [call]) where
  active := htracks.active
  reading := htracks.reading
  reads_le := hreads
  disjoint := htracks.disjoint
  buffers contents := by
    have heffect (other : Contents) : call.effect other = other := by
      cases call <;> first | rfl | cases hchanged
    rw [effectOf_append]
    exact (htracks.buffers contents).trans (heffect _).symm
  changed key := by
    rw [htracks.changed key]
    simp [Changed, hchanged]
  remembered key found? htook := by
    rcases took_concat_iff.mp htook with hearlier | ⟨hlast, hkey⟩
    · exact hkept key (htracks.remembered key found? hearlier)
    · exact htold key found? hlast hkey

/-- A refused call leaves everything as it is. -/
theorem Tracks.refused (htracks : transaction.Tracks snapshot calls) (failure : Failure) :
    transaction.Tracks snapshot (calls ++ [.refused failure]) :=
  htracks.answer rfl transaction.reads htracks.reads_le (fun _ hkey ↦ hkey)
    fun key found? htold ↦ by cases htold

/-! ### Looking up -/

/-- The key with an own value holds that value behind the own calls. -/
theorem Tracks.get?_written (htracks : transaction.Tracks snapshot calls) {key : Key}
    {value : Value} (hwritten : transaction.writes.get? key = some value) (contents : Contents) :
    (effectOf calls contents).get? key = some value := by
  rw [← htracks.buffers, SortedMap.get?_overlay, hwritten]
  rfl

/-- A key deleted by the transaction holds nothing behind the own calls. -/
theorem Tracks.get?_deleted (htracks : transaction.Tracks snapshot calls) {key : Key}
    (hwritten : transaction.writes.get? key = none)
    (hdeleted : transaction.deletes.contains key = true) (contents : Contents) :
    (effectOf calls contents).get? key = none := by
  rw [← htracks.buffers, SortedMap.get?_overlay, hwritten, if_pos hdeleted]
  rfl

/-- Every other key holds behind the own calls what it held before. -/
theorem Tracks.get?_untouched (htracks : transaction.Tracks snapshot calls) {key : Key}
    (hwritten : transaction.writes.get? key = none)
    (hdeleted : transaction.deletes.contains key = false) (contents : Contents) :
    (effectOf calls contents).get? key = contents.get? key := by
  rw [← htracks.buffers, SortedMap.get?_overlay, hwritten, if_neg (by simp [hdeleted])]
  rfl

theorem contains_recordRead (transaction : Transaction) (key other : Key) (version : Nat) :
    (transaction.recordRead key version).reads.contains other = true ↔
      transaction.reads.contains other = true ∨ other = key := by
  rw [recordRead, SortedMap.contains_eq, SortedMap.contains_eq, SortedMap.get?_insertIfNew]
  cases transaction.reads.get? other <;> simp

/-- What holds of all reads still does behind one more of which it holds. -/
theorem holds_of_recordRead {holds : Key → Nat → Prop} {key other : Key} {version read : Nat}
    (hreads : ∀ key version, transaction.reads.get? key = some version → holds key version)
    (hversion : holds key version)
    (hread : (transaction.recordRead key version).reads.get? other = some read) :
    holds other read := by
  rw [recordRead, SortedMap.get?_insertIfNew] at hread
  cases hbefore : transaction.reads.get? other with
  | some earlier =>
    rw [hbefore, Option.some_or] at hread
    obtain rfl := Option.some.inj hread
    exact hreads other earlier hbefore
  | none =>
    rw [hbefore, Option.none_or] at hread
    split at hread
    · rename_i hsame
      obtain rfl := Option.some.inj hread
      obtain rfl := Key.compare_eq_iff_eq.mp hsame
      exact hversion
    · cases hread

/-- A key that the transaction has not changed is answered from the snapshot and remembered. -/
theorem Tracks.recordRead (htracks : transaction.Tracks snapshot calls) {key : Key}
    {version : Nat} (found? : Option Value) (hversion : version ≤ snapshot) :
    (transaction.recordRead key version).Tracks snapshot (calls ++ [.got key found?]) := by
  refine htracks.answer rfl (transaction.recordRead key version).reads
    (fun _ _ ↦ holds_of_recordRead htracks.reads_le hversion)
    (fun other hother ↦ (contains_recordRead transaction key other version).mpr (Or.inl hother))
    fun other held? htold _ ↦ (contains_recordRead transaction key other version).mpr (Or.inr ?_)
  have hpair : (other, held?) = (key, found?) := List.mem_singleton.mp htold
  exact (Prod.mk.injEq .. ▸ hpair).1

/-- How a call goes in a transaction over a substrate. -/
structure Answers {α : Type} (transaction : Transaction) (substrate : Substrate) (snapshot : Nat)
    (calls : List Call) (call : α → Call)
    (answered : Except Failure α × Transaction × Substrate) : Prop where
  onlyRead : substrate.OnlyRead answered.2.2
  outcome : (∃ answer, answered.1 = .ok answer ∧
      (call answer).IsTrue (effectOf calls (substrate.store.liveAt snapshot)) ∧
      answered.2.1.Tracks snapshot (calls ++ [call answer])) ∨
    (∃ cause, answered.1 = .error (.storeUnavailable cause) ∧
      (∃ serial, substrate.failsRead serial = true) ∧ answered.2.1 = transaction)

/-- The value under a key is looked up behind the own calls. -/
theorem Tracks.get_spec (htracks : transaction.Tracks snapshot calls) (substrate : Substrate)
    (key : Key) :
    transaction.Answers substrate snapshot calls (Call.got key) (transaction.get substrate key) := by
  have hactive : (!transaction.isActive) = false := by simp [isActive, htracks.active]
  -- a key the transaction has changed is answered from its buffers
  have hown (found? : Option Value) (hfound : ∀ contents : Contents,
      (effectOf calls contents).get? key = found?)
      (hchanged : Changed calls key) :
      transaction.Answers substrate snapshot calls (Call.got key)
        (.ok found?, transaction, substrate) := by
    refine ⟨.refl substrate, Or.inl ⟨found?, rfl, (hfound _).symm, ?_⟩⟩
    refine htracks.answer rfl transaction.reads htracks.reads_le (fun _ hkey ↦ hkey) ?_
    intro other held? htold hother
    obtain ⟨rfl, -⟩ : other = key ∧ held? = found? := by simpa [Call.told] using htold
    exact absurd hchanged hother
  unfold get
  rw [hactive, if_neg Bool.false_ne_true]
  cases hwritten : transaction.writes.get? key with
  | some value =>
    exact hown (some value) (htracks.get?_written hwritten)
      ((htracks.changed key).mp (Or.inl (by rw [SortedMap.contains_eq, hwritten]; rfl)))
  | none =>
    cases hdeleted : transaction.deletes.contains key with
    | true =>
      exact hown none (htracks.get?_deleted hwritten hdeleted)
        ((htracks.changed key).mp (Or.inr hdeleted))
    | false =>
      have hbelow := htracks.get?_untouched hwritten hdeleted (substrate.store.liveAt snapshot)
      rw [Store.get?_liveAt] at hbelow
      rw [if_neg Bool.false_ne_true, htracks.reading]
      dsimp only
      obtain ⟨honly, hread⟩ :=
        substrate.read_spec .plannedRead fun store ↦ store.get? key snapshot
      unfold Substrate.get
      revert honly hread
      generalize substrate.read .plannedRead (fun store ↦ store.get? key snapshot) = answered
      obtain ⟨answer, issued⟩ := answered
      rintro honly (rfl | ⟨rfl, hfails⟩)
      · cases hfound : substrate.store.get? key snapshot with
        | some found =>
          rw [hfound, Option.map_some] at hbelow
          exact ⟨honly, Or.inl ⟨_, rfl, hbelow.symm,
            htracks.recordRead _ (Store.version_le_of_get? hfound)⟩⟩
        | none =>
          rw [hfound, Option.map_none] at hbelow
          obtain ⟨honly', hread⟩ :=
            issued.read_spec .plannedRead fun store ↦ store.keyVersion key snapshot
          dsimp only
          unfold Substrate.keyVersion
          revert honly' hread
          generalize issued.read .plannedRead (fun store ↦ store.keyVersion key snapshot) = answered
          obtain ⟨answer, issued'⟩ := answered
          rintro honly' (rfl | ⟨rfl, serial, hfails⟩)
          · exact ⟨honly.trans honly', Or.inl ⟨none, rfl, hbelow.symm,
              htracks.recordRead _ (Store.keyVersion_le ..)⟩⟩
          · exact ⟨honly.trans honly', Or.inr ⟨_, rfl, ⟨serial, honly.failsRead ▸ hfails⟩, rfl⟩⟩
      · exact ⟨honly, Or.inr ⟨_, rfl, hfails, rfl⟩⟩

/-! ### Scanning -/

/-- Remembering the versions of rows changes nothing but the reads. -/
theorem foldl_recordRead {holds : Key → Nat → Prop} (rows : List (Key × VersionedValue))
    (transaction : Transaction)
    (hreads : ∀ key version, transaction.reads.get? key = some version → holds key version)
    (hrows : ∀ row ∈ rows, holds row.1 row.2.version) :
    ∃ reads, rows.foldl (fun transaction row ↦ transaction.recordRead row.1 row.2.version)
        transaction = { transaction with reads } ∧
      (∀ key version, reads.get? key = some version → holds key version) ∧
      (∀ key, transaction.reads.contains key = true → reads.contains key = true) ∧
      ∀ row ∈ rows, reads.contains row.1 = true := by
  induction rows generalizing transaction with
  | nil => exact ⟨transaction.reads, rfl, hreads, fun _ hkey ↦ hkey, fun row hrow ↦ by cases hrow⟩
  | cons row rest ih =>
    obtain ⟨reads, hfold, hbound, hkept, hrest⟩ :=
      ih (transaction.recordRead row.1 row.2.version)
        (fun _ _ ↦ holds_of_recordRead hreads (hrows row List.mem_cons_self))
        fun other hother ↦ hrows other (List.mem_cons_of_mem _ hother)
    have hhead (key : Key) := contains_recordRead transaction row.1 key row.2.version
    refine ⟨reads, hfold, hbound, fun key hkey ↦ hkept key ((hhead key).mpr (Or.inl hkey)),
      fun other hother ↦ ?_⟩
    rcases List.mem_cons.mp hother with rfl | hlater
    · exact hkept other.1 ((hhead other.1).mpr (Or.inr rfl))
    · exact hrest other hlater

/-- Rows of some contents and the own writes together are what the buffers make of the contents. -/
theorem fst_merge (transaction : Transaction) {contents : Contents} {inside : Key → Bool}
    {rows : List (Key × VersionedValue)}
    (hrows : rows.map (fun row ↦ (row.1, row.2.value)) =
      (contents.filter fun key _ ↦ inside key).toList) :
    (transaction.merge rows (transaction.writes.filter fun key _ ↦ inside key).toList).1 =
      ((contents.overlay transaction.writes transaction.deletes).filter
        fun key _ ↦ inside key).toList := by
  have hvalues : (rows.filter fun row ↦ !transaction.deletes.contains row.1).map
      (fun row ↦ (row.1, row.2.value)) =
      ((contents.filter fun key _ ↦ inside key).filter
        fun key _ ↦ !transaction.deletes.contains key).toList := by
    change _ = List.filter (fun entry : Key × Value ↦ !transaction.deletes.contains entry.1)
      (contents.filter fun key _ ↦ inside key).toList
    rw [← hrows, List.filter_map]
    rfl
  unfold merge
  simp only [hvalues]
  refine congrArg SortedMap.toList (SortedMap.ext_get? fun key ↦ ?_)
  rw [SortedMap.get?_ofList_append]
  simp only [SortedMap.get?_filter, SortedMap.get?_overlay]
  cases inside key <;> cases transaction.deletes.contains key <;>
    cases transaction.writes.get? key <;> cases contents.get? key <;> simp [Option.filter_some]

/-- Rows of the snapshot and the own writes together are what the own calls make of the snapshot,
and the rows are remembered. -/
theorem Tracks.merge_spec (htracks : transaction.Tracks snapshot calls) {contents : Contents}
    {inside : Key → Bool} {rows : List (Key × VersionedValue)}
    (hrows : rows.map (fun row ↦ (row.1, row.2.value)) =
      (contents.filter fun key _ ↦ inside key).toList)
    (hversions : ∀ row ∈ rows, row.2.version ≤ snapshot) {call : List (Key × Value) → Call}
    (hchanged : ∀ rows, (call rows).changed? = none)
    (htold : ∀ rows, (call rows).told = rows.map fun row ↦ (row.1, some row.2)) :
    ∃ merged, (transaction.merge rows
        (transaction.writes.filter fun key _ ↦ inside key).toList).1 = merged ∧
      merged = ((effectOf calls contents).filter fun key _ ↦ inside key).toList ∧
      (transaction.merge rows
        (transaction.writes.filter fun key _ ↦ inside key).toList).2.Tracks snapshot
          (calls ++ [call merged]) := by
  obtain ⟨reads, hfold, hbound, hkept, hremembered⟩ :=
    foldl_recordRead (rows.filter fun row ↦ !transaction.deletes.contains row.1) transaction
      htracks.reads_le fun row hrow ↦ hversions row (List.mem_filter.mp hrow).1
  have hmerged := transaction.fst_merge hrows
  have hread : (transaction.merge rows
      (transaction.writes.filter fun key _ ↦ inside key).toList).2 = { transaction with reads } :=
    hfold
  rw [hread]
  refine ⟨_, rfl, by rw [hmerged, htracks.buffers], htracks.answer (hchanged _) reads hbound hkept
    fun key found? hrow hkey ↦ ?_⟩
  rw [hmerged, htold] at hrow
  obtain ⟨⟨other, value⟩, hmem, hpair⟩ := List.mem_map.mp hrow
  obtain ⟨rfl, rfl⟩ := Prod.mk.injEq .. ▸ hpair
  -- an unchanged key has its row from the snapshot
  have hwritten : transaction.writes.get? other = none := by
    rw [← Option.not_isSome_iff_eq_none]
    exact fun hown ↦ hkey ((htracks.changed other).mp (Or.inl hown))
  have hdeleted : transaction.deletes.contains other = false :=
    Bool.eq_false_iff.mpr fun hgone ↦ hkey ((htracks.changed other).mp (Or.inr hgone))
  have hlisted : (other, value) ∈ (contents.filter fun key _ ↦ inside key).toList := by
    rw [SortedMap.mem_toList_iff, SortedMap.get?_filter, SortedMap.get?_overlay, hwritten, hdeleted,
      if_neg Bool.false_ne_true, Option.none_or] at hmem
    rw [SortedMap.mem_toList_iff, SortedMap.get?_filter]
    exact hmem
  rw [← hrows] at hlisted
  obtain ⟨row, hfound, hsame⟩ := List.mem_map.mp hlisted
  obtain ⟨rfl, -⟩ := Prod.mk.injEq .. ▸ hsame
  exact hremembered row (List.mem_filter.mpr ⟨hfound, by rw [hdeleted]; rfl⟩)

/-- A scan lists what the scanned part holds behind the own calls. -/
theorem Tracks.scan_spec (htracks : transaction.Tracks snapshot calls) (substrate : Substrate)
    {inside : Key → Bool} {outage : Outage}
    {rows : Nat → Store → List (Key × VersionedValue)}
    (hrows : (rows snapshot substrate.store).map (fun row ↦ (row.1, row.2.value)) =
      ((substrate.store.liveAt snapshot).filter fun key _ ↦ inside key).toList)
    (hversions : ∀ row ∈ rows snapshot substrate.store, row.2.version ≤ snapshot)
    {call : List (Key × Value) → Call} (hchanged : ∀ rows, (call rows).changed? = none)
    (htold : ∀ rows, (call rows).told = rows.map fun row ↦ (row.1, some row.2))
    (htrue : ∀ contents : Contents,
      (call (contents.filter fun key _ ↦ inside key).toList).IsTrue contents) :
    transaction.Answers substrate snapshot calls call
      (transaction.scan substrate inside fun version ↦ substrate.read outage (rows version)) := by
  have hactive : (!transaction.isActive) = false := by simp [isActive, htracks.active]
  unfold scan
  rw [hactive, if_neg Bool.false_ne_true]
  simp only [htracks.reading]
  obtain ⟨honly, hread⟩ := substrate.read_spec outage (rows snapshot)
  revert honly hread
  generalize substrate.read outage (rows snapshot) = answered
  obtain ⟨answer, issued⟩ := answered
  rintro honly (rfl | ⟨rfl, hfails⟩)
  · obtain ⟨merged, hmerged, hanswer, htracks'⟩ :=
      htracks.merge_spec hrows hversions hchanged htold
    refine ⟨honly, Or.inl ⟨merged, ?_, ?_, htracks'⟩⟩
    · rw [← hmerged]
    · rw [hanswer]
      exact htrue _
  · exact ⟨honly, Or.inr ⟨_, rfl, hfails, rfl⟩⟩

theorem version_le_of_mem_scanStem {store : Store} {stem : Key} {version : Nat}
    {row : Key × VersionedValue} (hrow : row ∈ store.scanStem stem version) :
    row.2.version ≤ version := by
  rw [Store.scanStem_eq_filter] at hrow
  exact Store.version_le_of_get?
    ((Store.mem_visible_iff store version row.1 row.2).mp (List.mem_filter.mp hrow).1)

theorem version_le_of_mem_scanRange {store : Store} {first last : Key} {version : Nat}
    {row : Key × VersionedValue} (hrow : row ∈ store.scanRange first last version) :
    row.2.version ≤ version := by
  rw [Store.scanRange_eq_filter] at hrow
  exact Store.version_le_of_get?
    ((Store.mem_visible_iff store version row.1 row.2).mp (List.mem_filter.mp hrow).1)

theorem Tracks.scanStem_spec (htracks : transaction.Tracks snapshot calls) (substrate : Substrate)
    (stem : Key) :
    transaction.Answers substrate snapshot calls (Call.scannedStem stem)
      (transaction.scanStem substrate stem) :=
  htracks.scan_spec substrate (Store.map_scanStem substrate.store stem snapshot)
    (fun _ ↦ version_le_of_mem_scanStem) (fun _ ↦ rfl) (fun _ ↦ rfl) fun _ ↦ rfl

theorem Tracks.scanRange_spec (htracks : transaction.Tracks snapshot calls) (substrate : Substrate)
    (first last : Key) :
    transaction.Answers substrate snapshot calls (Call.scannedRange first last)
      (transaction.scanRange substrate first last) :=
  htracks.scan_spec substrate (Store.map_scanRange substrate.store first last snapshot)
    (fun _ ↦ version_le_of_mem_scanRange) (fun _ ↦ rfl) (fun _ ↦ rfl) fun _ ↦ rfl

/-! ### Writing -/

/-- A transaction that buffers a change tracks the call that makes it. -/
theorem Tracks.change (htracks : transaction.Tracks snapshot calls) {call : Call}
    (htold : call.told = []) (writes : SortedMap Key Value) (deletes : SortedSet Key)
    (hdisjoint : ∀ key, writes.contains key = true → deletes.contains key = false)
    (hbuffers : ∀ contents : Contents, contents.overlay writes deletes =
      call.effect (contents.overlay transaction.writes transaction.deletes))
    (hchanged : ∀ key, writes.contains key = true ∨ deletes.contains key = true ↔
      (transaction.writes.contains key = true ∨ transaction.deletes.contains key = true) ∨
        call.changed? = some key) :
    Tracks { transaction with writes, deletes } snapshot (calls ++ [call]) where
  active := htracks.active
  reading := htracks.reading
  reads_le := htracks.reads_le
  disjoint := hdisjoint
  buffers contents := by
    rw [effectOf_append, ← htracks.buffers]
    exact hbuffers contents
  changed key := by
    rw [hchanged key, htracks.changed key]
    simp [Changed, or_and_right, exists_or]
  remembered key found? htook := by
    rcases took_concat_iff.mp htook with hearlier | ⟨hlast, -⟩
    · exact htracks.remembered key found? hearlier
    · rw [htold] at hlast
      cases hlast

/-- A value is put behind the own calls. -/
theorem Tracks.put (htracks : transaction.Tracks snapshot calls) (key : Key) (value : Value) :
    (transaction.put key value).1 = .ok () ∧
      (transaction.put key value).2.Tracks snapshot (calls ++ [.put key value]) := by
  have hactive : (!transaction.isActive) = false := by simp [isActive, htracks.active]
  unfold Transaction.put
  rw [hactive, if_neg Bool.false_ne_true]
  refine ⟨rfl, htracks.change rfl _ _ (fun other hwritten ↦ ?_) (fun contents ↦ ?_) fun other ↦ ?_⟩
  · have hbefore := htracks.disjoint other
    rw [SortedMap.contains_insert] at hwritten
    rw [SortedMap.contains_erase]
    simp only [Key.compare_eq_iff_eq] at hwritten ⊢
    by_cases hother : other = key
    · simp [hother]
    · simp [hbefore (by simpa [hother] using hwritten)]
  · refine SortedMap.ext_get? fun other ↦ ?_
    rw [Call.effect, SortedMap.get?_insert, SortedMap.get?_overlay, SortedMap.get?_overlay,
      SortedMap.get?_insert, SortedMap.contains_erase]
    simp only [Key.compare_eq_iff_eq]
    by_cases hother : other = key
    · simp [hother]
    · simp [hother, Ne.symm hother]
  · rw [SortedMap.contains_insert, SortedMap.contains_erase]
    simp only [Key.compare_eq_iff_eq, Call.changed?, Option.some.injEq]
    by_cases hother : other = key
    · simp [hother]
    · simp [hother, Ne.symm hother]

/-- A key is deleted behind the own calls. -/
theorem Tracks.delete (htracks : transaction.Tracks snapshot calls) (key : Key) :
    (transaction.delete key).1 = .ok () ∧
      (transaction.delete key).2.Tracks snapshot (calls ++ [.deleted key]) := by
  have hactive : (!transaction.isActive) = false := by simp [isActive, htracks.active]
  unfold Transaction.delete
  rw [hactive, if_neg Bool.false_ne_true]
  refine ⟨rfl, htracks.change rfl _ _ (fun other hwritten ↦ ?_) (fun contents ↦ ?_) fun other ↦ ?_⟩
  · have hbefore := htracks.disjoint other
    rw [SortedMap.contains_erase] at hwritten
    rw [SortedMap.contains_insert]
    simp only [Key.compare_eq_iff_eq] at hwritten ⊢
    by_cases hother : key = other
    · simp [hother] at hwritten
    · simp [Ne.symm hother, hbefore (by simpa [hother] using hwritten)]
  · refine SortedMap.ext_get? fun other ↦ ?_
    rw [Call.effect, SortedMap.get?_erase, SortedMap.get?_overlay, SortedMap.get?_overlay,
      SortedMap.get?_erase, SortedMap.contains_insert]
    simp only [Key.compare_eq_iff_eq]
    by_cases hother : key = other
    · simp [hother]
    · simp [hother, Ne.symm hother]
  · rw [SortedMap.contains_insert, SortedMap.contains_erase]
    simp only [Key.compare_eq_iff_eq, Call.changed?, Option.some.injEq]
    by_cases hother : key = other
    · simp [hother]
    · simp [hother, Ne.symm hother]

end Transaction

/-! ### One call of a script -/

/-- A call that may have failed. -/
def Call.ofAnswer {α : Type} (call : α → Call) : Except Failure α → Call
  | .ok answer => call answer
  | .error failure => .refused failure

namespace Script

variable {α : Type}

/-- One call of a script in a transaction over a substrate: the call, what is left of the script,
and the transaction and the substrate behind it. At its end a script makes no call. -/
def advance : Script α → Transaction → Substrate →
    Option (Call × Script α × Transaction × Substrate)
  | finish _, _, _ => none
  | get key next, transaction, substrate =>
    let (answer, transaction, substrate) := transaction.get substrate key
    some (.ofAnswer (.got key) answer, next answer, transaction, substrate)
  | scanStem stem next, transaction, substrate =>
    let (answer, transaction, substrate) := transaction.scanStem substrate stem
    some (.ofAnswer (.scannedStem stem) answer, next answer, transaction, substrate)
  | scanRange first last next, transaction, substrate =>
    let (answer, transaction, substrate) := transaction.scanRange substrate first last
    some (.ofAnswer (.scannedRange first last) answer, next answer, transaction, substrate)
  | put key value next, transaction, substrate =>
    let (answer, transaction) := transaction.put key value
    some (.ofAnswer (fun _ ↦ .put key value) answer, next answer, transaction, substrate)
  | delete key next, transaction, substrate =>
    let (answer, transaction) := transaction.delete key
    some (.ofAnswer (fun _ ↦ .deleted key) answer, next answer, transaction, substrate)

/-- A script runs call by call. -/
theorem run_eq_of_advance {script rest : Script α} {transaction transaction' : Transaction}
    {substrate substrate' : Substrate} {call : Call}
    (hadvance : script.advance transaction substrate = some (call, rest, transaction', substrate')) :
    script.run transaction substrate = rest.run transaction' substrate' := by
  cases script <;> cases hadvance <;> rfl

/-- How one call goes: it is what the script asks for, it is true, the transaction tracks it, and
the store stays as it is. A call fails only if some read is planned to. -/
structure Advances (script : Script α) (substrate : Substrate) (snapshot : Nat)
    (calls : List Call) (call : Call) (rest : Script α) (transaction : Transaction)
    (after : Substrate) : Prop where
  leads : script.Leads [call] rest
  isTrue : call.IsTrue (effectOf calls (substrate.store.liveAt snapshot))
  tracks : transaction.Tracks snapshot (calls ++ [call])
  onlyRead : substrate.OnlyRead after
  refused : ∀ failure, call = .refused failure →
    (∃ cause, failure = .storeUnavailable cause) ∧ ∃ serial, substrate.failsRead serial = true

/-- An access of the snapshot is one call of a script. -/
theorem advances_of_answers {β : Type} {script : Script α} {next : Except Failure β → Script α}
    {transaction : Transaction} {substrate : Substrate} {snapshot : Nat} {calls : List Call}
    (htracks : transaction.Tracks snapshot calls) {call : β → Call}
    {answered : Except Failure β × Transaction × Substrate}
    (hcall : ∀ answer, script.Leads [call answer] (next (.ok answer)))
    (hrefused : ∀ failure, script.Leads [.refused failure] (next (.error failure)))
    (hsome : ∀ answer failure, call answer ≠ .refused failure)
    (hanswers : transaction.Answers substrate snapshot calls call answered) :
    script.Advances substrate snapshot calls (.ofAnswer call answered.1) (next answered.1)
      answered.2.1 answered.2.2 := by
  obtain ⟨honly, ⟨answer, hanswer, htrue, htracks'⟩ | ⟨cause, hanswer, hfails, hsame⟩⟩ := hanswers
  · rw [hanswer]
    exact ⟨hcall answer, htrue, htracks', honly, fun failure hequal ↦
      absurd hequal (hsome answer failure)⟩
  · rw [hanswer, hsame]
    refine ⟨hrefused _, trivial, htracks.refused _, honly, fun failure hequal ↦ ⟨⟨cause, ?_⟩, hfails⟩⟩
    exact (Call.refused.inj hequal).symm

/-- Every call of a script goes as it should. -/
theorem advance_spec {script rest : Script α} {transaction transaction' : Transaction}
    {substrate substrate' : Substrate} {snapshot : Nat} {calls : List Call} {call : Call}
    (htracks : transaction.Tracks snapshot calls)
    (hadvance : script.advance transaction substrate = some (call, rest, transaction', substrate')) :
    script.Advances substrate snapshot calls call rest transaction' substrate' := by
  cases script with
  | finish outcome => cases hadvance
  | get key next =>
    cases hadvance
    exact advances_of_answers htracks (fun answer ↦ .got (.nil _))
      (fun failure ↦ .getRefused (.nil _)) (fun _ _ hequal ↦ by cases hequal)
      (htracks.get_spec substrate key)
  | scanStem stem next =>
    cases hadvance
    exact advances_of_answers htracks (fun answer ↦ .scannedStem (.nil _))
      (fun failure ↦ .scanStemRefused (.nil _)) (fun _ _ hequal ↦ by cases hequal)
      (htracks.scanStem_spec substrate stem)
  | scanRange first last next =>
    cases hadvance
    exact advances_of_answers htracks (fun answer ↦ .scannedRange (.nil _))
      (fun failure ↦ .scanRangeRefused (.nil _)) (fun _ _ hequal ↦ by cases hequal)
      (htracks.scanRange_spec substrate first last)
  | put key value next =>
    obtain ⟨hanswer, htracks'⟩ := htracks.put key value
    simp only [advance, hanswer] at hadvance
    cases hadvance
    exact ⟨.put (.nil _), trivial, htracks', .refl substrate, fun _ hequal ↦ by cases hequal⟩
  | delete key next =>
    obtain ⟨hanswer, htracks'⟩ := htracks.delete key
    simp only [advance, hanswer] at hadvance
    cases hadvance
    exact ⟨.deleted (.nil _), trivial, htracks', .refl substrate, fun _ hequal ↦ by cases hequal⟩

end Script

end RunLedger
