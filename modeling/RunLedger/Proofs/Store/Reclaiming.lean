import RunLedger.Proofs.Store.Live

/-!
# Collections miss nothing

`Store.collect` looks only at the keys that the store remembers as reclaimable. Nothing that could
go escapes it: each key with more than one entry, or with a tombstone as its newest one, is
remembered (`Store.Remembers`), through all commits and all collections, whatever their horizons. So
behind a collection no chain has more than one entry at or below the horizon, and none is a mere
tombstone there (`Store.Remembers.reclaimed_collect`).

If nothing is read below the version of the store, the horizon is that version, and what is left is
one entry for each live key (`Store.Settled`).
-/

set_option autoImplicit false

namespace RunLedger

namespace VersionChain

/-- A chain without anything that the readers at or above a horizon can do without: it has at most
one entry at or below the horizon, and is not a mere tombstone there. -/
structure Reclaimed (chain : VersionChain) (horizon : Nat) : Prop where
  shadowed : (chain.entries.filter fun entry ↦ entry.version ≤ horizon).length ≤ 1
  dead : ∀ entry, chain.entries = [entry] → entry.version ≤ horizon → entry.isTombstone = false

/-- What trimming leaves is reclaimed unless it is dead. -/
theorem reclaimed_trim {chain : VersionChain} {horizon : Nat}
    (hdead : (chain.trim horizon).isDead horizon = false) : (chain.trim horizon).Reclaimed horizon
    where
  shadowed := by
    obtain ⟨above, behind, -, htrimmed, habove, -⟩ := exists_trim_split chain horizon
    have hnone : above.filter (fun entry ↦ entry.version ≤ horizon) = [] := by
      rw [List.filter_eq_nil_iff]
      intro entry hentry
      simpa using habove entry hentry
    rw [htrimmed, List.filter_append, hnone, List.nil_append]
    calc ((behind.take 1).filter fun entry ↦ entry.version ≤ horizon).length
      _ ≤ (behind.take 1).length := List.length_filter_le ..
      _ ≤ 1 := List.length_take_le ..
  dead entry hentries hversion := by
    simpa [isDead, hentries, hversion] using hdead

/-- A chain that is not pending has one entry, and that is a value. -/
theorem exists_eq_single_of_not_pending {chain : VersionChain} (hnonempty : chain.entries ≠ [])
    (hpending : chain.isPending = false) :
    ∃ entry, chain.entries = [entry] ∧ entry.isTombstone = false := by
  obtain ⟨hsize, hnewest⟩ := Bool.or_eq_false_iff.mp hpending
  cases hentries : chain.entries with
  | nil => exact absurd hentries hnonempty
  | cons entry older =>
    obtain rfl : older = [] := by
      simpa [size, hentries] using hsize
    exact ⟨entry, rfl, by simpa [latest?, hentries] using hnewest⟩

theorem reclaimed_of_not_pending {chain : VersionChain} (hnonempty : chain.entries ≠ [])
    (hpending : chain.isPending = false) (horizon : Nat) : chain.Reclaimed horizon := by
  obtain ⟨entry, hentries, htombstone⟩ := exists_eq_single_of_not_pending hnonempty hpending
  refine ⟨?_, fun other hother _ ↦ ?_⟩
  · rw [hentries]
    exact List.length_filter_le ..
  · obtain rfl : entry = other := by simpa [hentries] using hother
    exact htombstone

/-- Trimming leaves the newest entry where it is. -/
theorem latest?_trim (chain : VersionChain) (horizon : Nat) :
    (chain.trim horizon).latest? = chain.latest? := by
  obtain ⟨above, behind, hentries, htrimmed, -, -⟩ := exists_trim_split chain horizon
  unfold latest?
  rw [hentries, htrimmed]
  cases above with
  | nil => cases behind <;> rfl
  | cons entry rest => rfl

/-- A chain with something to reclaim later had it before it was trimmed. -/
theorem isPending_of_trim {chain : VersionChain} {horizon : Nat}
    (hpending : (chain.trim horizon).isPending = true) : chain.isPending = true := by
  unfold isPending at hpending ⊢
  rw [latest?_trim] at hpending
  simp only [Bool.or_eq_true, decide_eq_true_eq] at hpending ⊢
  exact hpending.imp_left fun hsize ↦
    Nat.lt_of_lt_of_le hsize (trim_sublist chain horizon).length_le

end VersionChain

namespace Store

variable {store : Store}

/-! ### What the store remembers -/

/-- The store remembers the keys of all chains that may have something to reclaim. -/
def Remembers (store : Store) : Prop :=
  ∀ key chain, store.chains.get? key = some chain → chain.isPending = true →
    store.reclaimable.contains key = true

theorem remembers_empty : Store.empty.Remembers := fun key chain hchain ↦ by cases hchain

/-- A chain may be exchanged if its key is remembered then or the new chain is not pending, and no
other key is forgotten. -/
theorem Remembers.exchange (hstore : store.Remembers) {after : Store} (key : Key)
    {chain : VersionChain} (hchains : after.chains = store.chains.insert key chain)
    (hpending : chain.isPending = true → after.reclaimable.contains key = true)
    (hkept : ∀ other, other ≠ key → store.reclaimable.contains other = true →
      after.reclaimable.contains other = true) : after.Remembers := by
  intro other found hfound hmay
  rw [hchains, SortedMap.get?_insert] at hfound
  split at hfound
  · rename_i hsame
    obtain rfl := Option.some.inj hfound
    rw [Key.compare_eq_iff_eq.mp hsame]
    exact hpending hmay
  · rename_i hother
    exact hkept other (mt Key.compare_eq_iff_eq.mpr hother) (hstore other found hfound hmay)

/-! ### Commits -/

/-- A newer entry on a chain makes its key one to remember. -/
theorem Remembers.push (hstore : store.Remembers) (key : Key) (chain : VersionChain)
    (entry : VersionEntry) :
    Remembers { store with
      chains := store.chains.insert key (chain.push entry)
      reclaimable := store.reclaimable.insert key () } := by
  refine hstore.exchange key rfl (fun _ ↦ ?_) fun other _ hremembered ↦ ?_
  · rw [SortedMap.contains_insert, decide_eq_true (Key.compare_eq_iff_eq.mpr rfl), Bool.true_or]
  · rw [SortedMap.contains_insert, hremembered, Bool.or_true]

theorem Remembers.write (hstore : store.Remembers) (version : Nat) (key : Key) (value : Value) :
    (store.write version key value).Remembers := by
  unfold Store.write
  cases store.chains.get? key with
  | some chain => exact hstore.push key chain ⟨version, some value⟩
  | none =>
    refine hstore.exchange key rfl (fun hpending ↦ ?_) fun other _ ↦ id
    cases hpending

theorem Remembers.delete (hstore : store.Remembers) (version : Nat) (key : Key) :
    (store.delete version key).Remembers := by
  unfold Store.delete
  cases store.chains.get? key with
  | some chain => exact hstore.push key chain ⟨version, none⟩
  | none => exact hstore

/-- A commit loses sight of nothing, whatever it writes and deletes. -/
theorem Remembers.apply (hstore : store.Remembers) {writes : List (Key × Value)}
    {deletes : List Key} {version : Nat} {after : Store}
    (happly : store.apply writes deletes version = .ok after) : after.Remembers := by
  obtain ⟨-, rfl⟩ := apply_eq_ok happly
  have hwritten := List.foldlRecOn (motive := Remembers) writes
    (fun store entry ↦ store.write version entry.1 entry.2) hstore
    fun store hbefore entry _ ↦ hbefore.write version entry.1 entry.2
  exact List.foldlRecOn (motive := Remembers) deletes
    (fun store key ↦ store.delete version key) hwritten
    fun store hbefore key _ ↦ hbefore.delete version key

/-! ### Collections -/

/-- What is forgotten by the collection of a key has nothing to reclaim. -/
theorem Remembers.collectKey (hstore : store.Remembers) (horizon count : Nat) (key : Key) :
    (Store.collectKey horizon (count, store) key).2.Remembers := by
  have hkept {other : Key} (hother : other ≠ key)
      (hremembered : store.reclaimable.contains other = true) :
      (store.reclaimable.erase key).contains other = true := by
    rw [SortedMap.contains_erase, hremembered, Bool.and_true, Bool.not_eq_true',
      decide_eq_false_iff_not, Key.compare_eq_iff_eq]
    exact hother.symm
  simp only [Store.collectKey]
  cases hchain : store.chains.get? key with
  | none =>
    intro other found hfound hpending
    refine hkept ?_ (hstore other found hfound hpending)
    rintro rfl
    cases hchain.symm.trans hfound
  | some chain =>
    dsimp only
    split
    · intro other found hfound hpending
      rw [SortedMap.get?_erase] at hfound
      split at hfound
      · cases hfound
      · rename_i hother
        refine hkept (fun hsame ↦ hother ?_) (hstore other found hfound hpending)
        exact Key.compare_eq_iff_eq.mpr hsame.symm
    · refine hstore.exchange key rfl (fun hpending ↦ ?_) fun other hother hremembered ↦ ?_
      · dsimp only
        rw [if_pos hpending]
        exact hstore key chain hchain (VersionChain.isPending_of_trim hpending)
      · dsimp only
        split
        · exact hremembered
        · exact hkept hother hremembered

/-- A collection forgets no key that may have something to reclaim later. -/
theorem Remembers.collect (hstore : store.Remembers) (horizon : Nat) :
    (store.collect horizon).2.Remembers :=
  List.foldlRecOn (motive := fun progress : Nat × Store ↦ progress.2.Remembers)
    store.reclaimable.keys _ hstore fun progress hbefore key _ ↦
      Remembers.collectKey hbefore horizon progress.1 key

/-! ### What is left -/

/-- No chain has anything that the readers at or above a horizon can do without. -/
def Reclaimed (store : Store) (horizon : Nat) : Prop :=
  ∀ key chain, store.chains.get? key = some chain → chain.Reclaimed horizon

/-- A collection leaves nothing behind that could go: the keys that it does not visit have just one
entry each, and that is a value. -/
theorem Remembers.reclaimed_collect (hremembers : store.Remembers) (hstore : store.WellFormed)
    (horizon : Nat) :
    (store.collect horizon).2.Reclaimed horizon := by
  -- on the way, what is not yet reclaimed lies under the keys still to come
  have hfold (keys : List Key) (count : Nat) (store : Store)
      (hrest : ∀ key chain, store.chains.get? key = some chain →
        chain.Reclaimed horizon ∨ key ∈ keys) :
      (keys.foldl (Store.collectKey horizon) (count, store)).2.Reclaimed horizon := by
    induction keys generalizing count store with
    | nil => exact fun key chain hchain ↦ (hrest key chain hchain).resolve_right List.not_mem_nil
    | cons key rest ih =>
      refine ih (Store.collectKey horizon (count, store) key).1
        (Store.collectKey horizon (count, store) key).2 fun other chain hchain ↦ ?_
      rw [chains_collectKey] at hchain
      split at hchain
      · obtain ⟨before, -, htrimmed⟩ := Option.bind_eq_some_iff.mp hchain
        split at htrimmed
        · cases htrimmed
        · rename_i hdead
          obtain rfl := Option.some.inj htrimmed
          exact Or.inl (VersionChain.reclaimed_trim (Bool.eq_false_iff.mpr hdead))
      · rename_i hother
        exact (hrest other chain hchain).imp_right fun hmem ↦
          (List.mem_cons.mp hmem).resolve_left hother
  refine hfold store.reclaimable.keys 0 store fun key chain hchain ↦ ?_
  cases hpending : chain.isPending with
  | true => exact Or.inr ((SortedMap.mem_keys_iff ..).mpr (hremembers key chain hchain hpending))
  | false =>
    exact Or.inl (VersionChain.reclaimed_of_not_pending (hstore key chain hchain).nonempty
      hpending horizon)

/-- Each key with a chain has just one entry there, and that is a live value. -/
def Settled (store : Store) : Prop :=
  ∀ key chain, store.chains.get? key = some chain →
    chain.size = 1 ∧ store.live.contains key = true

/-- Once no reader is below the version of the store, a collection leaves just the live entries. -/
theorem WellFormed.settled (hstore : store.WellFormed)
    (hreclaimed : store.Reclaimed store.version) : store.Settled := by
  intro key chain hchain
  obtain ⟨hnonempty, -, hbounded⟩ := hstore key chain hchain
  obtain ⟨hshadowed, hdead⟩ := hreclaimed key chain hchain
  rw [List.filter_eq_self.mpr fun entry hentry ↦ decide_eq_true (hbounded entry hentry).2]
    at hshadowed
  have hsize : chain.entries.length = 1 := Nat.le_antisymm hshadowed
    (List.length_pos_iff.mpr hnonempty)
  obtain ⟨entry, hentries⟩ := List.length_eq_one_iff.mp hsize
  have hversion : entry.version ≤ store.version :=
    (hbounded entry (hentries ▸ List.mem_singleton_self entry)).2
  refine ⟨hsize, ?_⟩
  have hfound : chain.entryAt? store.version = some entry := by
    simp [VersionChain.entryAt?, hentries, hversion]
  obtain ⟨value, hvalue⟩ : ∃ value, entry.value? = some value := by
    simpa [VersionEntry.isTombstone, Option.isNone_eq_false_iff, Option.isSome_iff_exists]
      using hdead entry hentries hversion
  rw [SortedMap.contains_eq, live, get?_liveAt, get?_eq_bind_entryAt?, entryAt?_of_chains hchain,
    hfound]
  simp [VersionEntry.versioned?, hvalue]

/-- A settled store has as many keys as are live. -/
theorem Settled.keyCount_eq (hstore : store.Settled) : store.keyCount = store.live.size := by
  unfold keyCount SortedMap.size live liveAt
  rw [List.length_map]
  refine (List.filterMap_length_eq_length.mpr fun entry hentry ↦ ?_).symm
  obtain ⟨key, chain⟩ := entry
  have hchain := (SortedMap.mem_toList_iff store.chains key chain).mp hentry
  have hlive := (hstore key chain hchain).2
  rw [SortedMap.contains_eq, live, get?_liveAt, get?, hchain] at hlive
  simpa using hlive

/-- Nothing remains in a settled store of a key that is not live. -/
theorem Settled.chains_eq_none (hstore : store.Settled) {key : Key}
    (hkey : store.live.get? key = none) : store.chains.get? key = none := by
  cases hchain : store.chains.get? key with
  | none => rfl
  | some chain =>
    have hlive := (hstore key chain hchain).2
    rw [SortedMap.contains_eq, hkey] at hlive
    cases hlive

end Store

end RunLedger
