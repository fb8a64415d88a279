import RunLedger.Proofs.Store.Entries

/-!
# The versions that readers are told

A reader remembers what it finds under a key by the version of the entry (`Store.keyVersion`), zero
where there is none, and asks later whether the newest entry still has that version. What a reader
is told does not change while others commit (`keyVersion_apply_of_lt`), and if nothing newer has
come it is what the newest entry has (`WellFormed.keyVersion_eq_newestVersion`).

A collection may drop the tombstone that a reader was told of, and the key then counts as zero. It
takes nothing away under a key that was never deleted (`keyVersion_collect`). What holds of all
entries (`AllEntries`) holds behind commits of which it holds, and behind every collection.
-/

set_option autoImplicit false

namespace RunLedger

/-- A chain of values alone is never dropped as a whole. -/
theorem VersionChain.isDead_eq_false {chain : VersionChain}
    (hvalues : ∀ entry ∈ chain.entries, entry.isTombstone = false) (horizon : Nat) :
    chain.isDead horizon = false := by
  unfold isDead
  split
  · rename_i entry hentries
    rw [hvalues entry (by rw [hentries]; exact List.mem_singleton_self entry), Bool.false_and]
  · rfl

namespace Store

variable {store : Store} {holds : Key → VersionEntry → Prop}

/-! ### All entries -/

/-- What holds of all entries of the store, each under its key. -/
def AllEntries (store : Store) (holds : Key → VersionEntry → Prop) : Prop :=
  ∀ key chain, store.chains.get? key = some chain → ∀ entry ∈ chain.entries, holds key entry

theorem allEntries_empty : Store.empty.AllEntries holds := fun key chain hchain ↦ by cases hchain

theorem AllEntries.mono {less : Key → VersionEntry → Prop} (hall : store.AllEntries holds)
    (hless : ∀ key entry, holds key entry → less key entry) : store.AllEntries less :=
  fun key chain hchain entry hentry ↦ hless key entry (hall key chain hchain entry hentry)

theorem AllEntries.write (hall : store.AllEntries holds) {version : Nat} {key : Key} {value : Value}
    (hentry : holds key ⟨version, some value⟩) :
    (store.write version key value).AllEntries holds := by
  intro other chain hchain entry hmem
  rw [chains_write] at hchain
  split at hchain
  · rename_i hsame
    subst hsame
    obtain rfl := Option.some.inj hchain
    cases hbefore : store.chains.get? other with
    | none =>
      rw [hbefore] at hmem
      rw [List.mem_singleton.mp hmem]
      exact hentry
    | some before =>
      rw [hbefore] at hmem
      rcases List.mem_cons.mp hmem with rfl | hold
      · exact hentry
      · exact hall other before hbefore entry hold
  · exact hall other chain hchain entry hmem

theorem AllEntries.delete (hall : store.AllEntries holds) {version : Nat} {key : Key}
    (hentry : holds key ⟨version, none⟩) : (store.delete version key).AllEntries holds := by
  intro other chain hchain entry hmem
  rw [chains_delete] at hchain
  split at hchain
  · rename_i hsame
    subst hsame
    obtain ⟨before, hbefore, rfl⟩ := Option.map_eq_some_iff.mp hchain
    rcases List.mem_cons.mp hmem with rfl | hold
    · exact hentry
    · exact hall other before hbefore entry hold
  · exact hall other chain hchain entry hmem

/-- What holds of all entries, and of those of a commit, holds behind it. -/
theorem AllEntries.apply (hall : store.AllEntries holds) {writes : List (Key × Value)}
    {deletes : List Key} {version : Nat} {after : Store}
    (happly : store.apply writes deletes version = .ok after)
    (hwrites : ∀ entry ∈ writes, holds entry.1 ⟨version, some entry.2⟩)
    (hdeletes : ∀ key ∈ deletes, holds key ⟨version, none⟩) : after.AllEntries holds := by
  obtain ⟨-, rfl⟩ := apply_eq_ok happly
  have hwritten := List.foldlRecOn (motive := fun store : Store ↦ store.AllEntries holds) writes
    (fun store entry ↦ store.write version entry.1 entry.2) hall
    fun store hbefore entry hentry ↦ hbefore.write (hwrites entry hentry)
  exact List.foldlRecOn (motive := fun store : Store ↦ store.AllEntries holds) deletes
    (fun store key ↦ store.delete version key) hwritten
    fun store hbefore key hkey ↦ hbefore.delete (hdeletes key hkey)

theorem AllEntries.collectKey (hall : store.AllEntries holds) (horizon count : Nat) (key : Key) :
    (Store.collectKey horizon (count, store) key).2.AllEntries holds := by
  intro other chain hchain entry hentry
  rw [chains_collectKey] at hchain
  split at hchain
  · rename_i hsame
    subst hsame
    obtain ⟨before, hbefore, htrimmed⟩ := Option.bind_eq_some_iff.mp hchain
    split at htrimmed
    · cases htrimmed
    · obtain rfl := Option.some.inj htrimmed
      exact hall other before hbefore entry
        ((VersionChain.trim_sublist before horizon).subset hentry)
  · exact hall other chain hchain entry hentry

theorem AllEntries.collect (hall : store.AllEntries holds) (horizon : Nat) :
    (store.collect horizon).2.AllEntries holds :=
  List.foldlRecOn (motive := fun progress : Nat × Store ↦ progress.2.AllEntries holds) _ _ hall
    fun progress hbefore key _ ↦ hbefore.collectKey horizon progress.1 key

/-! ### What readers are told -/

/-- If nothing newer has come under a key, its reader was told the version of the newest entry. -/
theorem WellFormed.keyVersion_eq_newestVersion (hstore : store.WellFormed) {key : Key}
    {reader : Nat} (hreader : reader ≤ store.version)
    (hnewest : store.newestVersion key ≤ reader) :
    store.keyVersion key reader = store.newestVersion key :=
  (keyVersion_congr (entryAt?_eq_of_newestVersion hstore hreader hnewest)).trans
    (hstore.keyVersion_eq key)

/-- A key is at zero, or it has an entry with its newest version. -/
theorem newestVersion_eq_zero_or (store : Store) (key : Key) :
    store.newestVersion key = 0 ∨ ∃ chain entry, store.chains.get? key = some chain ∧
      entry ∈ chain.entries ∧ entry.version = store.newestVersion key := by
  unfold newestVersion
  split
  · exact Or.inl rfl
  · rename_i entry hentry
    obtain ⟨chain, hchain, hlatest⟩ := Option.bind_eq_some_iff.mp hentry
    exact Or.inr ⟨chain, entry, hchain, List.mem_of_mem_head? hlatest, rfl⟩

/-! ### What changes nothing for readers -/

theorem entryAt?_write_of_lt (store : Store) {version reader : Nat} (hreader : reader < version)
    (key other : Key) (value : Value) :
    (store.write version key value).entryAt? other reader = store.entryAt? other reader := by
  rw [entryAt?, chains_write]
  split
  · rename_i hsame
    rw [Option.bind_eq_bind, Option.bind_some, entryAt?_grown, if_neg (Nat.not_le_of_lt hreader),
      hsame, entryAt?]
  · rfl

theorem entryAt?_delete_of_lt (store : Store) {version reader : Nat} (hreader : reader < version)
    (key other : Key) :
    (store.delete version key).entryAt? other reader = store.entryAt? other reader := by
  rw [entryAt?, chains_delete]
  split
  · rename_i hsame
    rw [hsame, entryAt?]
    cases store.chains.get? key with
    | none => rfl
    | some chain =>
      exact (VersionChain.entryAt?_push chain _ reader).trans
        (if_neg (Nat.not_le_of_lt hreader))
  · rfl

/-- A commit changes nothing for the readers below its version. -/
theorem keyVersion_apply_of_lt {writes : List (Key × Value)} {deletes : List Key} {version : Nat}
    {after : Store} (happly : store.apply writes deletes version = .ok after) {reader : Nat}
    (hreader : reader < version) (key : Key) :
    after.keyVersion key reader = store.keyVersion key reader := by
  obtain ⟨-, rfl⟩ := apply_eq_ok happly
  let same (other : Store) : Prop := other.entryAt? key reader = store.entryAt? key reader
  have hwritten := List.foldlRecOn (motive := same) writes
    (fun store entry ↦ store.write version entry.1 entry.2) rfl
    fun other hbefore entry _ ↦ (other.entryAt?_write_of_lt hreader _ _ _).trans hbefore
  have hdeleted := List.foldlRecOn (motive := same) deletes
    (fun store key ↦ store.delete version key) hwritten
    fun other hbefore deleted _ ↦ (other.entryAt?_delete_of_lt hreader _ _).trans hbefore
  exact keyVersion_congr hdeleted

/-- The collection of one key leaves a reader what it finds under a key that was never deleted. -/
theorem entryAt?_collectKey {kept : Key → Prop}
    (hall : store.AllEntries fun key entry ↦ kept key → entry.isTombstone = false)
    {horizon reader : Nat} (hreader : horizon ≤ reader) (count : Nat) (key : Key) {other : Key}
    (hkept : kept other) :
    (collectKey horizon (count, store) key).2.entryAt? other reader =
      store.entryAt? other reader := by
  rw [entryAt?, chains_collectKey]
  split
  · rename_i hsame
    subst hsame
    rw [entryAt?]
    cases hchain : store.chains.get? other with
    | none => rfl
    | some chain =>
      have hvalues : ∀ entry ∈ (chain.trim horizon).entries, entry.isTombstone = false :=
        fun entry hentry ↦ hall other chain hchain entry
          ((VersionChain.trim_sublist chain horizon).subset hentry) hkept
      rw [Option.bind_some, if_neg (by rw [VersionChain.isDead_eq_false hvalues]; decide)]
      exact VersionChain.entryAt?_trim chain hreader
  · rfl

/-- A collection leaves the readers at or above its horizon the versions of keys that were never
deleted. -/
theorem keyVersion_collect {kept : Key → Prop}
    (hall : store.AllEntries fun key entry ↦ kept key → entry.isTombstone = false)
    {horizon reader : Nat} (hreader : horizon ≤ reader) {key : Key} (hkept : kept key) :
    (store.collect horizon).2.keyVersion key reader = store.keyVersion key reader := by
  have hcollected := List.foldlRecOn (motive := fun progress : Nat × Store ↦
      progress.2.AllEntries (fun key entry ↦ kept key → entry.isTombstone = false) ∧
        progress.2.entryAt? key reader = store.entryAt? key reader)
    store.reclaimable.keys (collectKey horizon) (b := (0, store)) ⟨hall, rfl⟩
    fun progress hbefore other _ ↦ ⟨hbefore.1.collectKey horizon progress.1 other,
      (entryAt?_collectKey hbefore.1 hreader progress.1 other hkept).trans hbefore.2⟩
  exact keyVersion_congr hcollected.2

end Store

end RunLedger
