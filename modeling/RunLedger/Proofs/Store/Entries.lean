import RunLedger.Proofs.SortedMap.Bulk
import RunLedger.Proofs.Store.Chain
import RunLedger.Store

/-!
# Commits and collections in the versioned store

What a reader at a version finds under a key (`Store.get?`), under the operations of the store. A
commit is seen by the readers at or above its version and by no other (`get?_apply`), and a
collection by no reader at or above its horizon (`Collected`, `collected_collect`). Both keep the
chains of the store in order (`Store.WellFormed`).

The lemma behind the validation of commits is `get?_eq_of_newestVersion`: if the newest entry under
a key is not above the version of a reader, that reader finds what the store holds now. A key
without entries counts as version zero, so nothing is lost when a collection drops a tombstone.
-/

set_option autoImplicit false

namespace RunLedger

open Std (LawfulEqOrd)

theorem Key.compare_eq_iff_eq {first second : Key} : compare first second = .eq ↔ first = second :=
  LawfulEqOrd.compare_eq_iff_eq

/-- A chain as commits up to a version leave it. -/
structure VersionChain.WellFormed (chain : VersionChain) (bound : Nat) : Prop where
  nonempty : chain.entries ≠ []
  descending : chain.Descending
  bounded : ∀ entry ∈ chain.entries, 0 < entry.version ∧ entry.version ≤ bound

namespace Store

variable {store : Store}

/-- The chains are as commits up to a version leave them. -/
def WellFormedTo (store : Store) (bound : Nat) : Prop :=
  ∀ key chain, store.chains.get? key = some chain → chain.WellFormed bound

/-- The chains are as commits up to the version of the store leave them. -/
def WellFormed (store : Store) : Prop := store.WellFormedTo store.version

theorem wellFormed_empty : Store.empty.WellFormed := by
  intro key chain hchain
  cases hchain

/-! ### Reading -/

/-- The newest entry under a key at or below a version, tombstones included. -/
def entryAt? (store : Store) (key : Key) (version : Nat) : Option VersionEntry :=
  store.chains.get? key >>= (·.entryAt? version)

theorem get?_eq_bind_entryAt? (store : Store) (key : Key) (version : Nat) :
    store.get? key version = store.entryAt? key version >>= VersionEntry.versioned? := by
  unfold get? entryAt?
  cases store.chains.get? key <;> rfl

theorem entryAt?_of_chains {key : Key} {chain : VersionChain}
    (hchain : store.chains.get? key = some chain) (version : Nat) :
    store.entryAt? key version = chain.entryAt? version := by
  rw [entryAt?, hchain]
  rfl

/-- Stores with the same chain under a key show the same there. -/
theorem get?_congr_chains {first second : Store} {key : Key}
    (hchains : first.chains.get? key = second.chains.get? key) (version : Nat) :
    first.get? key version = second.get? key version := by
  rw [get?, get?, hchains]

theorem keyVersion_congr {first second : Store} {key : Key} {reader other : Nat}
    (hentry : first.entryAt? key reader = second.entryAt? key other) :
    first.keyVersion key reader = second.keyVersion key other := by
  unfold entryAt? at hentry
  rw [keyVersion, hentry, keyVersion]

theorem keyVersion_le (store : Store) (key : Key) (version : Nat) :
    store.keyVersion key version ≤ version := by
  unfold keyVersion
  split
  · exact Nat.zero_le _
  · rename_i hentry
    obtain ⟨chain, -, hfound⟩ := Option.bind_eq_some_iff.mp hentry
    exact VersionChain.le_of_entryAt? hfound

/-- With a value comes the version of its entry. -/
theorem keyVersion_of_get? {key : Key} {reader : Nat} {found : VersionedValue}
    (hfound : store.get? key reader = some found) :
    store.keyVersion key reader = found.version := by
  rw [get?_eq_bind_entryAt?] at hfound
  obtain ⟨entry, hentry, hversioned⟩ := Option.bind_eq_some_iff.mp hfound
  obtain ⟨value, -, rfl⟩ := Option.map_eq_some_iff.mp hversioned
  unfold entryAt? at hentry
  simp only [keyVersion, hentry]

/-- The version told with a value is not above that of the reader. -/
theorem version_le_of_get? {key : Key} {version : Nat} {found : VersionedValue}
    (hfound : store.get? key version = some found) : found.version ≤ version :=
  keyVersion_of_get? hfound ▸ store.keyVersion_le key version

/-- If the newest entry under a key is not above a reader, the reader finds that entry, which is the
one that the store holds now. -/
theorem entryAt?_eq_of_newestVersion (hstore : store.WellFormed) {key : Key} {version : Nat}
    (hversion : version ≤ store.version) (hnewest : store.newestVersion key ≤ version) :
    store.entryAt? key version = store.entryAt? key store.version := by
  unfold newestVersion at hnewest
  unfold entryAt?
  cases hchain : store.chains.get? key with
  | none => rfl
  | some chain =>
    rw [hchain] at hnewest
    obtain ⟨entry, hlatest⟩ : ∃ entry, chain.latest? = some entry := by
      unfold VersionChain.latest?
      cases hentries : chain.entries with
      | nil => exact absurd hentries (hstore key chain hchain).nonempty
      | cons entry rest => exact ⟨entry, rfl⟩
    have hentry : entry.version ≤ version := by simpa [hlatest] using hnewest
    exact (VersionChain.entryAt?_of_latest? hlatest hentry).trans
      (VersionChain.entryAt?_of_latest? hlatest (Nat.le_trans hentry hversion)).symm

theorem get?_eq_of_newestVersion (hstore : store.WellFormed) {key : Key} {version : Nat}
    (hversion : version ≤ store.version) (hnewest : store.newestVersion key ≤ version) :
    store.get? key version = store.get? key store.version := by
  rw [get?_eq_bind_entryAt?, entryAt?_eq_of_newestVersion hstore hversion hnewest,
    get?_eq_bind_entryAt?]

/-- A reader of the last commit finds under a key its newest entry. -/
theorem WellFormed.keyVersion_eq (hstore : store.WellFormed) (key : Key) :
    store.keyVersion key store.version = store.newestVersion key := by
  unfold keyVersion newestVersion
  cases hchain : store.chains.get? key with
  | none => rfl
  | some chain =>
    have hlatest := VersionChain.latest?_eq_entryAt? fun entry hentry ↦
      ((hstore key chain hchain).bounded entry hentry).2
    simp only [Option.bind_eq_bind, Option.bind_some, hlatest]

/-- A value that a reader of the last commit finds has the version of the newest entry. -/
theorem WellFormed.version_of_get? (hstore : store.WellFormed) {key : Key} {found : VersionedValue}
    (hfound : store.get? key store.version = some found) :
    store.newestVersion key = found.version :=
  (hstore.keyVersion_eq key).symm.trans (keyVersion_of_get? hfound)

/-! ### Single writes and deletions -/

/-- The chain under a key with one more entry. -/
def grown (chain? : Option VersionChain) (entry : VersionEntry) : VersionChain :=
  match chain? with
  | some chain => chain.push entry
  | none => .single entry

theorem entryAt?_grown (chain? : Option VersionChain) (entry : VersionEntry) (version : Nat) :
    (grown chain? entry).entryAt? version =
      if entry.version ≤ version then some entry else chain? >>= (·.entryAt? version) := by
  cases chain? with
  | none => exact VersionChain.entryAt?_single entry version
  | some chain => exact VersionChain.entryAt?_push chain entry version

theorem chains_write (store : Store) (version : Nat) (key other : Key) (value : Value) :
    (store.write version key value).chains.get? other =
      if other = key then some (grown (store.chains.get? key) ⟨version, some value⟩)
      else store.chains.get? other := by
  unfold write
  cases hchain : store.chains.get? key <;>
    simp only [SortedMap.get?_insert, Key.compare_eq_iff_eq, grown]

theorem chains_delete (store : Store) (version : Nat) (key other : Key) :
    (store.delete version key).chains.get? other =
      if other = key then (store.chains.get? key).map (·.push ⟨version, none⟩)
      else store.chains.get? other := by
  unfold delete
  cases hchain : store.chains.get? key with
  | none =>
    by_cases hother : other = key
    · rw [if_pos hother, hother, hchain]
      rfl
    · rw [if_neg hother]
  | some chain => simp only [SortedMap.get?_insert, Key.compare_eq_iff_eq, Option.map_some]

theorem get?_write (store : Store) (version : Nat) (key other : Key) (value : Value)
    (reader : Nat) :
    (store.write version key value).get? other reader =
      if other = key ∧ version ≤ reader then some ⟨value, version⟩
      else store.get? other reader := by
  have hchains := chains_write store version key other value
  by_cases hother : other = key
  · subst hother
    rw [if_pos rfl] at hchains
    rw [get?_eq_bind_entryAt?, entryAt?_of_chains hchains, entryAt?_grown]
    by_cases hversion : version ≤ reader
    · rw [if_pos hversion, if_pos ⟨rfl, hversion⟩]
      rfl
    · rw [if_neg hversion, if_neg fun hboth ↦ hversion hboth.2, get?_eq_bind_entryAt?, entryAt?]
  · rw [if_neg hother] at hchains
    rw [if_neg fun hboth ↦ hother hboth.1, get?_congr_chains hchains]

theorem get?_delete (store : Store) (version : Nat) (key other : Key) (reader : Nat) :
    (store.delete version key).get? other reader =
      if other = key ∧ version ≤ reader then none else store.get? other reader := by
  have hchains := chains_delete store version key other
  by_cases hother : other = key
  · subst hother
    rw [if_pos rfl] at hchains
    cases hchain : store.chains.get? other with
    | none =>
      rw [hchain, Option.map_none] at hchains
      rw [get?_congr_chains (hchains.trans hchain.symm), get?, hchain]
      by_cases hversion : version ≤ reader <;> simp [hversion]
    | some chain =>
      rw [hchain, Option.map_some] at hchains
      rw [get?_eq_bind_entryAt?, entryAt?_of_chains hchains, VersionChain.entryAt?_push]
      by_cases hversion : version ≤ reader
      · rw [if_pos hversion, if_pos ⟨rfl, hversion⟩]
        rfl
      · rw [if_neg hversion, if_neg fun hboth ↦ hversion hboth.2, get?_eq_bind_entryAt?,
          entryAt?_of_chains hchain]
  · rw [if_neg hother] at hchains
    rw [if_neg fun hboth ↦ hother hboth.1, get?_congr_chains hchains]

/-- All entries under a key are below a version. -/
def HasRoom (store : Store) (version : Nat) (key : Key) : Prop :=
  ∀ chain, store.chains.get? key = some chain → ∀ entry ∈ chain.entries, entry.version < version

theorem wellFormed_grown (chain? : Option VersionChain) (entry : VersionEntry)
    (hchain : ∀ chain, chain? = some chain → chain.WellFormed entry.version)
    (hroom : ∀ chain, chain? = some chain → ∀ older ∈ chain.entries, older.version < entry.version)
    (hpositive : 0 < entry.version) : (grown chain? entry).WellFormed entry.version := by
  cases chain? with
  | none =>
    refine ⟨List.cons_ne_nil _ _, VersionChain.Descending.single entry, ?_⟩
    rintro other hother
    rw [List.mem_singleton.mp hother]
    exact ⟨hpositive, Nat.le_refl _⟩
  | some chain =>
    have hbefore := hchain chain rfl
    refine ⟨List.cons_ne_nil _ _, hbefore.descending.push (hroom chain rfl), ?_⟩
    intro other hother
    rcases List.mem_cons.mp hother with rfl | hold
    · exact ⟨hpositive, Nat.le_refl _⟩
    · exact hbefore.bounded other hold

theorem WellFormedTo.write {version : Nat} (hstore : store.WellFormedTo version) {key : Key}
    (hroom : store.HasRoom version key) (hpositive : 0 < version) (value : Value) :
    (store.write version key value).WellFormedTo version := by
  intro other chain hchain
  rw [chains_write] at hchain
  split at hchain
  · obtain rfl := Option.some.inj hchain
    exact wellFormed_grown _ ⟨version, some value⟩ (hstore key) hroom hpositive
  · exact hstore other chain hchain

theorem WellFormedTo.delete {version : Nat} (hstore : store.WellFormedTo version) {key : Key}
    (hroom : store.HasRoom version key) (hpositive : 0 < version) :
    (store.delete version key).WellFormedTo version := by
  intro other chain hchain
  rw [chains_delete] at hchain
  split at hchain
  · obtain ⟨before, hbefore, rfl⟩ := Option.map_eq_some_iff.mp hchain
    exact wellFormed_grown (some before) ⟨version, none⟩
      (fun chain hsame ↦ Option.some.inj hsame ▸ hstore key before hbefore)
      (fun chain hsame ↦ Option.some.inj hsame ▸ hroom before hbefore) hpositive
  · exact hstore other chain hchain

theorem HasRoom.write {version : Nat} {key other : Key} (hroom : store.HasRoom version other)
    (hother : other ≠ key) (value : Value) :
    (store.write version key value).HasRoom version other := by
  intro chain hchain
  rw [chains_write, if_neg hother] at hchain
  exact hroom chain hchain

theorem HasRoom.delete {version : Nat} {key other : Key} (hroom : store.HasRoom version other)
    (hother : other ≠ key) : (store.delete version key).HasRoom version other := by
  intro chain hchain
  rw [chains_delete, if_neg hother] at hchain
  exact hroom chain hchain

/-! ### Commits -/

theorem get?_foldl_write (version : Nat) {writes : List (Key × Value)}
    (hwrites : (writes.map Prod.fst).Nodup) (store : Store) (key : Key) (reader : Nat) :
    (writes.foldl (fun store (key, value) ↦ store.write version key value) store).get? key reader =
      if version ≤ reader then
        ((SortedMap.lookup key writes).map (⟨·, version⟩)).or (store.get? key reader)
      else store.get? key reader := by
  induction writes generalizing store with
  | nil => simp [SortedMap.lookup]
  | cons entry rest ih =>
    obtain ⟨hentry, hrest⟩ := List.nodup_cons.mp hwrites
    have hwrite := get?_write store version entry.1 key entry.2 reader
    rw [List.foldl_cons, ih hrest, hwrite]
    by_cases hversion : version ≤ reader
    · rw [if_pos hversion, if_pos hversion, SortedMap.lookup_cons]
      by_cases hkey : key = entry.1
      · have hnone : SortedMap.lookup key rest = none :=
          SortedMap.lookup_eq_none_of_not_mem (hkey ▸ hentry)
        rw [if_pos (Key.compare_eq_iff_eq.mpr hkey), if_pos ⟨hkey, hversion⟩, hnone]
        rfl
      · rw [if_neg fun hequal ↦ hkey (Key.compare_eq_iff_eq.mp hequal),
          if_neg fun hboth ↦ hkey hboth.1]
    · rw [if_neg hversion, if_neg hversion, if_neg fun hboth ↦ hversion hboth.2]

theorem get?_foldl_delete (version : Nat) (deletes : List Key) (store : Store) (key : Key)
    (reader : Nat) :
    (deletes.foldl (fun store key ↦ store.delete version key) store).get? key reader =
      if key ∈ deletes ∧ version ≤ reader then none else store.get? key reader := by
  induction deletes generalizing store with
  | nil => simp
  | cons head rest ih =>
    rw [List.foldl_cons, ih, get?_delete]
    by_cases hversion : version ≤ reader <;> by_cases hkey : key = head <;>
      by_cases hrest : key ∈ rest <;> simp [hversion, hkey, hrest]

/-- What a commit makes of a store. -/
theorem apply_eq_ok {writes : List (Key × Value)} {deletes : List Key} {version : Nat}
    {after : Store} (happly : store.apply writes deletes version = .ok after) :
    store.version < version ∧
      after = { deletes.foldl (fun store key ↦ store.delete version key)
        (writes.foldl (fun store (key, value) ↦ store.write version key value) store) with
        version } := by
  unfold apply at happly
  split at happly
  · cases happly
  · rename_i hversion
    exact ⟨Nat.lt_of_not_le hversion, (Except.ok.inj happly).symm⟩

/-- A commit is seen by the readers at or above its version: they find its writes, nothing under the
keys it deleted, and all else as before. No other reader sees it. -/
theorem get?_apply {writes : List (Key × Value)} {deletes : List Key} {version : Nat}
    {after : Store} (happly : store.apply writes deletes version = .ok after)
    (hwrites : (writes.map Prod.fst).Nodup) (key : Key) (reader : Nat) :
    after.get? key reader =
      if version ≤ reader then
        if key ∈ deletes then none
        else ((SortedMap.lookup key writes).map (⟨·, version⟩)).or (store.get? key reader)
      else store.get? key reader := by
  obtain ⟨-, rfl⟩ := apply_eq_ok happly
  have hdeleted := get?_foldl_delete version deletes
    (writes.foldl (fun store (key, value) ↦ store.write version key value) store) key reader
  rw [get?_foldl_write version hwrites] at hdeleted
  refine hdeleted.trans ?_
  by_cases hversion : version ≤ reader <;> by_cases hkey : key ∈ deletes <;>
    simp [hversion, hkey]

theorem version_apply {writes : List (Key × Value)} {deletes : List Key} {version : Nat}
    {after : Store} (happly : store.apply writes deletes version = .ok after) :
    after.version = version := by
  obtain ⟨-, rfl⟩ := apply_eq_ok happly
  rfl

/-- Writes under different keys leave the chains in order, and room under all other keys. -/
theorem WellFormedTo.foldl_write {version : Nat} (hpositive : 0 < version)
    {writes : List (Key × Value)} (hwrites : (writes.map Prod.fst).Nodup)
    (hstore : store.WellFormedTo version)
    (hroom : ∀ key ∈ writes.map Prod.fst, store.HasRoom version key) :
    let written := writes.foldl (fun store (key, value) ↦ store.write version key value) store
    written.WellFormedTo version ∧
      ∀ key ∉ writes.map Prod.fst, store.HasRoom version key → written.HasRoom version key := by
  induction writes generalizing store with
  | nil => exact ⟨hstore, fun key _ hkey ↦ hkey⟩
  | cons entry rest ih =>
    obtain ⟨hentry, hrest⟩ := List.nodup_cons.mp hwrites
    have hfirst := hstore.write (hroom entry.1 (List.mem_cons_self)) hpositive entry.2
    have hothers : ∀ key ∈ rest.map Prod.fst,
        (store.write version entry.1 entry.2).HasRoom version key := by
      intro key hkey
      have hother : key ≠ entry.1 := fun hsame ↦ hentry (hsame ▸ hkey)
      exact (hroom key (List.mem_cons_of_mem _ hkey)).write hother entry.2
    obtain ⟨hwritten, hfree⟩ := ih hrest hfirst hothers
    refine ⟨hwritten, fun key hkey hbefore ↦ hfree key ?_ ?_⟩
    · exact fun hmem ↦ hkey (List.mem_cons_of_mem _ hmem)
    · have hother : key ≠ entry.1 := fun hsame ↦ hkey (hsame ▸ List.mem_cons_self)
      exact hbefore.write hother entry.2

theorem WellFormedTo.foldl_delete {version : Nat} (hpositive : 0 < version)
    {deletes : List Key} (hdeletes : deletes.Nodup) (hstore : store.WellFormedTo version)
    (hroom : ∀ key ∈ deletes, store.HasRoom version key) :
    (deletes.foldl (fun store key ↦ store.delete version key) store).WellFormedTo version := by
  induction deletes generalizing store with
  | nil => exact hstore
  | cons head rest ih =>
    obtain ⟨hhead, hrest⟩ := List.nodup_cons.mp hdeletes
    refine ih hrest (hstore.delete (hroom head List.mem_cons_self) hpositive) fun key hkey ↦ ?_
    exact (hroom key (List.mem_cons_of_mem _ hkey)).delete fun hsame ↦ hhead (hsame ▸ hkey)

/-- A commit that changes no key twice keeps the chains in order. -/
theorem WellFormed.apply (hstore : store.WellFormed) {writes : List (Key × Value)}
    {deletes : List Key} {version : Nat} {after : Store}
    (happly : store.apply writes deletes version = .ok after)
    (hdistinct : (writes.map Prod.fst ++ deletes).Nodup) : after.WellFormed := by
  obtain ⟨hversion, rfl⟩ := apply_eq_ok happly
  obtain ⟨hwrites, hdeletes, hdisjoint⟩ := List.nodup_append.mp hdistinct
  have hpositive : 0 < version := Nat.zero_lt_of_lt hversion
  have hroom : ∀ key, store.HasRoom version key := fun key chain hchain entry hentry ↦
    Nat.lt_of_le_of_lt ((hstore key chain hchain).bounded entry hentry).2 hversion
  have hbefore : store.WellFormedTo version := fun key chain hchain ↦
    { nonempty := (hstore key chain hchain).nonempty
      descending := (hstore key chain hchain).descending
      bounded := fun entry hentry ↦
        ⟨((hstore key chain hchain).bounded entry hentry).1,
          Nat.le_of_lt (hroom key chain hchain entry hentry)⟩ }
  obtain ⟨hwritten, hfree⟩ := hbefore.foldl_write hpositive hwrites fun key _ ↦ hroom key
  exact hwritten.foldl_delete hpositive hdeletes fun key hkey ↦
    hfree key (fun hmem ↦ hdisjoint key hmem key hkey rfl) (hroom key)

/-! ### Collections -/

/-- What a collection at a horizon leaves of a store: readers at or above the horizon find what they
found before. -/
structure Collected (horizon : Nat) (before after : Store) : Prop where
  version : after.version = before.version
  get? : ∀ key reader, horizon ≤ reader → after.get? key reader = before.get? key reader
  wellFormed : before.WellFormed → after.WellFormed

theorem Collected.refl (horizon : Nat) (store : Store) : Collected horizon store store :=
  ⟨rfl, fun _ _ _ ↦ rfl, id⟩

theorem Collected.trans {horizon : Nat} {first second third : Store}
    (hfirst : Collected horizon first second) (hsecond : Collected horizon second third) :
    Collected horizon first third where
  version := hsecond.version.trans hfirst.version
  get? key reader hreader :=
    (hsecond.get? key reader hreader).trans (hfirst.get? key reader hreader)
  wellFormed hstore := hsecond.wellFormed (hfirst.wellFormed hstore)

/-- A chain that is dead at a horizon shows nothing to the readers at or above it. -/
theorem valueAt?_of_isDead {chain : VersionChain} {horizon reader : Nat}
    (hdead : chain.isDead horizon = true) (hreader : horizon ≤ reader) :
    chain.valueAt? reader = none := by
  unfold VersionChain.isDead at hdead
  split at hdead
  · rename_i entry hentries
    obtain ⟨htombstone, hversion⟩ := Bool.and_eq_true_iff.mp hdead
    have hat : entry.version ≤ reader := Nat.le_trans (by simpa using hversion) hreader
    have hfound : chain.entryAt? reader = some entry := by
      simp [VersionChain.entryAt?, hentries, hat]
    have hvalue : entry.value? = none := by
      simpa [VersionEntry.isTombstone] using htombstone
    simp [VersionChain.valueAt?, hfound, VersionEntry.versioned?, hvalue]
  · cases hdead

theorem valueAt?_trim (chain : VersionChain) {horizon reader : Nat} (hreader : horizon ≤ reader) :
    (chain.trim horizon).valueAt? reader = chain.valueAt? reader := by
  rw [VersionChain.valueAt?, VersionChain.valueAt?, VersionChain.entryAt?_trim chain hreader]

theorem version_collectKey (horizon count : Nat) (store : Store) (key : Key) :
    (collectKey horizon (count, store) key).2.version = store.version := by
  simp only [collectKey]
  split
  · rfl
  · split <;> rfl

/-- The collection of one key trims its chain, or drops it if it is dead. -/
theorem chains_collectKey (horizon count : Nat) (store : Store) (key other : Key) :
    (collectKey horizon (count, store) key).2.chains.get? other =
      if other = key then
        (store.chains.get? key).bind fun chain ↦
          if (chain.trim horizon).isDead horizon then none else some (chain.trim horizon)
      else store.chains.get? other := by
  simp only [collectKey]
  cases hchain : store.chains.get? key with
  | none =>
    by_cases hother : other = key
    · rw [if_pos hother, hother]
      exact hchain
    · rw [if_neg hother]
  | some chain =>
    simp only [Option.bind_some]
    split
    · simp only [SortedMap.get?_erase, Key.compare_eq_iff_eq, eq_comm (a := key)]
    · simp only [SortedMap.get?_insert, Key.compare_eq_iff_eq]

/-- The collection of one key is invisible at or above the horizon. -/
theorem collected_collectKey (horizon count : Nat) (store : Store) (key : Key) :
    Collected horizon store (collectKey horizon (count, store) key).2 := by
  have hchains := chains_collectKey horizon count store key
  have hversion := version_collectKey horizon count store key
  refine ⟨hversion, fun other reader hreader ↦ ?_, fun hstore other kept hkept ↦ ?_⟩
  · have hother := hchains other
    split at hother
    · rename_i hsame
      subst hsame
      rw [get?, get?, hother]
      cases store.chains.get? other with
      | none => rfl
      | some chain =>
        simp only [Option.bind_eq_bind, Option.bind_some]
        rw [← valueAt?_trim chain hreader]
        split
        · rename_i hdead
          exact (valueAt?_of_isDead hdead hreader).symm
        · rfl
    · exact get?_congr_chains hother reader
  · rw [WellFormed, hversion] at *
    rw [hchains] at hkept
    split at hkept
    · obtain ⟨chain, hchain, htrimmed⟩ := Option.bind_eq_some_iff.mp hkept
      split at htrimmed
      · cases htrimmed
      · obtain rfl := Option.some.inj htrimmed
        have hbefore := hstore key chain hchain
        exact ⟨VersionChain.trim_entries_ne_nil hbefore.nonempty horizon,
          hbefore.descending.trim horizon, fun entry hentry ↦
            hbefore.bounded entry ((VersionChain.trim_sublist chain horizon).subset hentry)⟩
    · exact hstore other kept hkept

/-- A collection is invisible at or above its horizon. -/
theorem collected_collect (store : Store) (horizon : Nat) :
    Collected horizon store (store.collect horizon).2 := by
  unfold collect
  generalize store.reclaimable.keys = keys
  generalize 0 = count
  induction keys generalizing count store with
  | nil => exact .refl horizon store
  | cons key rest ih =>
    exact (collected_collectKey horizon count store key).trans
      (ih (collectKey horizon (count, store) key).2 (collectKey horizon (count, store) key).1)

end Store

end RunLedger
