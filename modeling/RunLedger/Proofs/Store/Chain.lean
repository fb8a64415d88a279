import RunLedger.Store.Chain

/-!
# What readers find in a version chain

The entry that a reader at a version finds, under the operations of a chain. A newer entry is found
by the readers that are not below it (`entryAt?_push`), and trimming is invisible to every reader at
or above the horizon (`entryAt?_trim`). A chain whose versions descend from the newest entry
(`VersionChain.Descending`) stays so, its newest entry is what a reader above all versions finds
(`latest?_eq_entryAt?`), and to trim it is to pop shadowed entries from its old end
(`Descending.trim_eq_dropShadowed`).
-/

set_option autoImplicit false

namespace RunLedger.VersionChain

/-- The versions descend strictly from the newest entry to the oldest. -/
def Descending (chain : VersionChain) : Prop :=
  chain.entries.Pairwise fun newer older ↦ older.version < newer.version

theorem entryAt?_single (entry : VersionEntry) (version : Nat) :
    (single entry).entryAt? version = if entry.version ≤ version then some entry else none := by
  by_cases hentry : entry.version ≤ version <;> simp [entryAt?, single, hentry]

/-- A newer entry is found by the readers that are not below it. -/
theorem entryAt?_push (chain : VersionChain) (entry : VersionEntry) (version : Nat) :
    (chain.push entry).entryAt? version =
      if entry.version ≤ version then some entry else chain.entryAt? version := by
  by_cases hentry : entry.version ≤ version <;> simp [entryAt?, push, hentry]

theorem le_of_entryAt? {chain : VersionChain} {version : Nat} {entry : VersionEntry}
    (hentry : chain.entryAt? version = some entry) : entry.version ≤ version := by
  simpa using List.find?_some hentry

/-- Trimming parts a chain into the entries above the horizon and those behind, and keeps one of the
latter. -/
theorem exists_trim_split (chain : VersionChain) (horizon : Nat) :
    ∃ above behind, chain.entries = above ++ behind ∧
      (chain.trim horizon).entries = above ++ behind.take 1 ∧
      (∀ entry ∈ above, horizon < entry.version) ∧
      ∀ entry ∈ behind.head?, entry.version ≤ horizon := by
  refine ⟨_, _, (List.takeWhile_append_dropWhile
    (p := fun entry : VersionEntry ↦ decide (horizon < entry.version))).symm, rfl, ?_, ?_⟩
  · intro entry hentry
    simpa using List.all_eq_true.mp List.all_takeWhile entry hentry
  · intro entry hentry
    have hhead := List.head?_dropWhile_not (fun entry : VersionEntry ↦
      decide (horizon < entry.version)) chain.entries
    rw [Option.mem_def.mp hentry] at hhead
    simpa using hhead

/-- Trimming takes nothing from a reader at or above the horizon. -/
theorem entryAt?_trim (chain : VersionChain) {horizon version : Nat} (hhorizon : horizon ≤ version) :
    (chain.trim horizon).entryAt? version = chain.entryAt? version := by
  obtain ⟨above, behind, hentries, htrimmed, -, hbehind⟩ := exists_trim_split chain horizon
  rw [entryAt?, entryAt?, hentries, htrimmed, List.find?_append, List.find?_append]
  congr 1
  cases behind with
  | nil => rfl
  | cons entry rest =>
    -- the first entry that is not above the horizon is found at once
    have hfound : entry.version ≤ version := Nat.le_trans (hbehind entry rfl) hhorizon
    simp [hfound]

theorem trim_sublist (chain : VersionChain) (horizon : Nat) :
    (chain.trim horizon).entries.Sublist chain.entries := by
  obtain ⟨above, behind, hentries, htrimmed, -, -⟩ := exists_trim_split chain horizon
  rw [hentries, htrimmed]
  exact (List.Sublist.refl above).append (List.take_sublist 1 behind)

theorem trim_entries_ne_nil {chain : VersionChain} (hnonempty : chain.entries ≠ [])
    (horizon : Nat) : (chain.trim horizon).entries ≠ [] := by
  obtain ⟨above, behind, hentries, htrimmed, -, -⟩ := exists_trim_split chain horizon
  rw [hentries] at hnonempty
  rw [htrimmed]
  cases above with
  | nil => cases behind <;> simp_all
  | cons entry rest => exact List.cons_ne_nil _ _

/-! ### Descending chains -/

theorem Descending.single (entry : VersionEntry) : (VersionChain.single entry).Descending :=
  List.pairwise_singleton _ _

theorem Descending.push {chain : VersionChain} (hchain : chain.Descending) {entry : VersionEntry}
    (hnewer : ∀ older ∈ chain.entries, older.version < entry.version) :
    (chain.push entry).Descending :=
  List.pairwise_cons.mpr ⟨hnewer, hchain⟩

theorem Descending.trim {chain : VersionChain} (hchain : chain.Descending) (horizon : Nat) :
    (chain.trim horizon).Descending :=
  hchain.sublist (trim_sublist chain horizon)

/-! ### Reclaiming from the old end -/

/-- Drops the oldest entry, again and again, while the next one is at or below a horizon. The
entries come oldest first. -/
def dropShadowed (horizon : Nat) : List VersionEntry → List VersionEntry
  | oldest :: next :: newer =>
    if next.version ≤ horizon then dropShadowed horizon (next :: newer)
    else oldest :: next :: newer
  | short => short

theorem dropShadowed_cons (horizon : Nat) (oldest : VersionEntry) {above : List VersionEntry}
    (habove : ∀ entry ∈ above, horizon < entry.version) :
    dropShadowed horizon (oldest :: above) = oldest :: above := by
  cases above with
  | nil => rfl
  | cons next newer =>
    rw [dropShadowed, if_neg (Nat.not_le_of_lt (habove next List.mem_cons_self))]

/-- Of the entries at or below the horizon the newest stays. -/
theorem dropShadowed_append {horizon : Nat} {old above : List VersionEntry}
    (hold : ∀ entry ∈ old, entry.version ≤ horizon)
    (habove : ∀ entry ∈ above, horizon < entry.version) :
    dropShadowed horizon (old ++ above) = old.getLast?.toList ++ above := by
  induction old with
  | nil =>
    cases above with
    | nil => rfl
    | cons entry newer =>
      exact dropShadowed_cons horizon entry fun other hother ↦
        habove other (List.mem_cons_of_mem _ hother)
  | cons oldest rest ih =>
    cases rest with
    | nil => exact dropShadowed_cons horizon oldest habove
    | cons next more =>
      have hnext : next.version ≤ horizon := hold next (List.mem_cons_of_mem _ List.mem_cons_self)
      rw [List.cons_append, List.cons_append, dropShadowed, if_pos hnext]
      exact ih fun entry hentry ↦ hold entry (List.mem_cons_of_mem _ hentry)

/-- A descending chain is trimmed by dropping its oldest entry as long as a newer one is at or below
the horizon. -/
theorem Descending.trim_eq_dropShadowed {chain : VersionChain} (hchain : chain.Descending)
    (horizon : Nat) :
    (chain.trim horizon).entries.reverse = dropShadowed horizon chain.entries.reverse := by
  obtain ⟨above, behind, hentries, htrimmed, habove, hbehind⟩ := exists_trim_split chain horizon
  have hordered := hchain
  rw [Descending, hentries] at hordered
  have hold : ∀ entry ∈ behind, entry.version ≤ horizon := by
    intro entry hentry
    cases behind with
    | nil => cases hentry
    | cons newest older =>
      have hnewest : newest.version ≤ horizon := hbehind newest rfl
      rcases List.mem_cons.mp hentry with rfl | holder
      · exact hnewest
      · have hbelow := List.rel_of_pairwise_cons (List.pairwise_append.mp hordered).2.1 holder
        exact Nat.le_trans (Nat.le_of_lt hbelow) hnewest
  have hlast : (behind.take 1).reverse = behind.reverse.getLast?.toList := by
    cases behind <;> simp
  rw [hentries, htrimmed, List.reverse_append, List.reverse_append,
    dropShadowed_append (by simpa using hold) (by simpa using habove), hlast]

/-! ### The newest entry -/

/-- A reader above all versions finds the newest entry. -/
theorem latest?_eq_entryAt? {chain : VersionChain} {version : Nat}
    (hbounded : ∀ entry ∈ chain.entries, entry.version ≤ version) :
    chain.latest? = chain.entryAt? version := by
  unfold latest? entryAt?
  cases hentries : chain.entries with
  | nil => rfl
  | cons entry rest =>
    have hentry : entry.version ≤ version :=
      hbounded entry (by rw [hentries]; exact List.mem_cons_self)
    simp [hentry]

/-- The newest entry is found by a reader at its own version. -/
theorem entryAt?_of_latest? {chain : VersionChain} {entry : VersionEntry} {version : Nat}
    (hlatest : chain.latest? = some entry) (hversion : entry.version ≤ version) :
    chain.entryAt? version = some entry := by
  unfold latest? at hlatest
  unfold entryAt?
  cases hentries : chain.entries with
  | nil => simp [hentries] at hlatest
  | cons head rest =>
    obtain rfl : head = entry := by simpa [hentries] using hlatest
    simp [hversion]

end RunLedger.VersionChain
