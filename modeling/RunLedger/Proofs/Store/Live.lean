import RunLedger.Proofs.Key.Order
import RunLedger.Proofs.Store.Entries

/-!
# The live contents of the store

What a reader at a version finds in the whole store is a map from keys to values
(`Store.liveAt`). Looking a key up finds what the map holds (`get?_liveAt`), and a scan lists the
entries of the map that lie in the scanned part, in key order (`map_scanStem`, `map_scanRange`).

A commit changes the map of its own version only: it puts its writes and deletions over the map of
the version before (`liveAt_apply`). A collection leaves the maps at or above its horizon as they
are (`Collected.liveAt`).
-/

set_option autoImplicit false

namespace RunLedger

/-- What is stored, without versions. -/
abbrev Contents := SortedMap Key Value

/-- Dropping what fails a test at the front and taking what passes another behind it selects what a
filter selects, if the order of the list carries the tests along. -/
theorem takeWhile_dropWhile_eq_filter {α : Type} {entries : List α} {before inside : α → Bool}
    (horder : entries.Pairwise fun first second ↦
      (before second = true → before first = true) ∧
        (before first = false → inside second = true → inside first = true)) :
    (entries.dropWhile before).takeWhile inside =
      entries.filter fun entry ↦ !before entry && inside entry := by
  induction entries with
  | nil => rfl
  | cons entry rest ih =>
    obtain ⟨hentry, hrest⟩ := List.pairwise_cons.mp horder
    cases hbefore : before entry with
    | true =>
      rw [List.dropWhile_cons_of_pos hbefore, ih hrest, List.filter_cons_of_neg (by simp [hbefore])]
    | false =>
      rw [List.dropWhile_cons_of_neg (by simp [hbefore])]
      -- nothing behind the entry is dropped
      have hkept : rest.dropWhile before = rest := by
        cases rest with
        | nil => rfl
        | cons next rest =>
          refine List.dropWhile_cons_of_neg fun hnext ↦ ?_
          exact absurd ((hentry next List.mem_cons_self).1 hnext) (by simp [hbefore])
      have hih := ih hrest
      rw [hkept] at hih
      cases hinside : inside entry with
      | true =>
        rw [List.takeWhile_cons_of_pos hinside, List.filter_cons_of_pos (by simp [hbefore, hinside]),
          hih]
      | false =>
        rw [List.takeWhile_cons_of_neg (by simp [hinside]), eq_comm, List.filter_eq_nil_iff]
        intro other hother hselected
        rcases List.mem_cons.mp hother with rfl | hbehind
        · simp [hinside] at hselected
        · have hother : inside other = true := (Bool.and_eq_true_iff.mp hselected).2
          exact absurd ((hentry other hbehind).2 hbefore hother) (by simp [hinside])

namespace Store

/-! ### Visible rows -/

theorem mem_visible_iff (store : Store) (version : Nat) (key : Key) (found : VersionedValue) :
    (key, found) ∈ visible version store.chains.toList ↔ store.get? key version = some found := by
  unfold visible get?
  constructor
  · intro hmem
    obtain ⟨⟨other, chain⟩, hchain, hrow⟩ := List.mem_filterMap.mp hmem
    obtain ⟨value, hvalue, hpair⟩ := Option.map_eq_some_iff.mp hrow
    obtain ⟨rfl, rfl⟩ := Prod.mk.injEq .. ▸ hpair
    exact Option.bind_eq_some_iff.mpr
      ⟨chain, (SortedMap.mem_toList_iff store.chains other chain).mp hchain, hvalue⟩
  · intro hget
    obtain ⟨chain, hchain, hvalue⟩ := Option.bind_eq_some_iff.mp hget
    refine List.mem_filterMap.mpr
      ⟨(key, chain), (SortedMap.mem_toList_iff store.chains key chain).mpr hchain, ?_⟩
    exact Option.map_eq_some_iff.mpr ⟨found, hvalue, rfl⟩

theorem pairwise_visible (store : Store) (version : Nat) :
    (visible version store.chains.toList).Pairwise
      fun first second ↦ compare first.1 second.1 = .lt := by
  unfold visible
  refine List.Pairwise.filterMap _ ?_ store.chains.sorted
  rintro ⟨first, chain⟩ ⟨second, other⟩ hlt row hrow row' hrow'
  obtain ⟨value, -, rfl⟩ := Option.map_eq_some_iff.mp (Option.mem_def.mp hrow)
  obtain ⟨value', -, rfl⟩ := Option.map_eq_some_iff.mp (Option.mem_def.mp hrow')
  exact hlt

theorem visible_filter (version : Nat) (chains : List (Key × VersionChain)) (keep : Key → Bool) :
    visible version (chains.filter fun entry ↦ keep entry.1) =
      (visible version chains).filter fun row ↦ keep row.1 := by
  unfold visible
  rw [List.filterMap_filter, List.filter_filterMap]
  congr 1
  funext ⟨key, chain⟩
  dsimp only
  cases hkeep : keep key <;> cases chain.valueAt? version <;>
    simp [Option.filter_some, hkeep]

/-! ### The live contents -/

/-- What a reader at a version finds in the whole store. -/
def liveAt (store : Store) (version : Nat) : Contents where
  entries := (visible version store.chains.toList).map fun row ↦ (row.1, row.2.value)
  sorted := List.pairwise_map.mpr (pairwise_visible store version)

/-- What the store holds now. -/
def live (store : Store) : Contents := store.liveAt store.version

/-- Looking a key up finds what the live contents hold. -/
theorem get?_liveAt (store : Store) (version : Nat) (key : Key) :
    (store.liveAt version).get? key = (store.get? key version).map (·.value) := by
  refine Option.ext fun value ↦ ?_
  rw [← SortedMap.mem_toList_iff, Option.map_eq_some_iff]
  constructor
  · intro hmem
    obtain ⟨⟨other, found⟩, hrow, hpair⟩ := List.mem_map.mp hmem
    obtain ⟨rfl, rfl⟩ := Prod.mk.injEq .. ▸ hpair
    exact ⟨found, (mem_visible_iff store version other found).mp hrow, rfl⟩
  · rintro ⟨found, hfound, rfl⟩
    exact List.mem_map.mpr ⟨(key, found), (mem_visible_iff store version key found).mpr hfound, rfl⟩

/-- Stores that show the same to a reader have the same live contents for it. -/
theorem liveAt_congr {first second : Store} {version other : Nat}
    (hget : ∀ key, first.get? key version = second.get? key other) :
    first.liveAt version = second.liveAt other := by
  refine SortedMap.ext_get? fun key ↦ ?_
  rw [get?_liveAt, get?_liveAt, hget]

/-! ### Scans -/

theorem scanStem_eq_filter (store : Store) (stem : Key) (version : Nat) :
    store.scanStem stem version =
      (visible version store.chains.toList).filter fun row ↦ row.1.startsWith stem := by
  have hselected : (store.chains.toList.dropWhile fun entry ↦ entry.1 < stem).takeWhile
      (fun entry ↦ entry.1.startsWith stem) =
      store.chains.toList.filter fun entry ↦ entry.1.startsWith stem := by
    rw [takeWhile_dropWhile_eq_filter]
    · refine List.filter_congr fun entry _ ↦ ?_
      cases hstem : entry.1.startsWith stem with
      | false => simp
      | true => simp [Key.not_lt_of_startsWith hstem]
    · refine store.chains.sorted.imp fun {first second} hlt ↦ ⟨fun hsecond ↦ ?_, fun hfirst ↦ ?_⟩
      · exact decide_eq_true (Key.lt_trans hlt (of_decide_eq_true hsecond))
      · exact Key.startsWith_of_lt (of_decide_eq_false hfirst) hlt
  rw [scanStem, hselected]
  exact visible_filter version store.chains.toList fun key ↦ key.startsWith stem

theorem scanRange_eq_filter (store : Store) (first last : Key) (version : Nat) :
    store.scanRange first last version =
      (visible version store.chains.toList).filter fun row ↦ Key.isBetween first last row.1 := by
  unfold scanRange
  split
  · have hselected : (store.chains.toList.dropWhile fun entry ↦ entry.1 < first).takeWhile
        (fun entry ↦ entry.1 < last) =
        store.chains.toList.filter fun entry ↦ Key.isBetween first last entry.1 := by
      rw [takeWhile_dropWhile_eq_filter]
      · rfl
      · refine store.chains.sorted.imp fun {former latter} hlt ↦ ⟨fun hlatter ↦ ?_, fun _ hin ↦ ?_⟩
        · exact decide_eq_true (Key.lt_trans hlt (of_decide_eq_true hlatter))
        · exact decide_eq_true (Key.lt_trans hlt (of_decide_eq_true hin))
    simp only [hselected]
    exact visible_filter version store.chains.toList (Key.isBetween first last)
  · rename_i hempty
    rw [eq_comm, List.filter_eq_nil_iff]
    intro row _ hbetween
    obtain ⟨hfirst, hlast⟩ := Key.isBetween_iff.mp hbetween
    exact hempty (Key.lt_of_not_lt_of_lt hfirst hlast)

theorem map_filter_visible (store : Store) (version : Nat) (keep : Key → Bool) :
    ((visible version store.chains.toList).filter fun row ↦ keep row.1).map
        (fun row ↦ (row.1, row.2.value)) =
      ((store.liveAt version).filter fun key _ ↦ keep key).toList := by
  change _ = List.filter (fun entry : Key × Value ↦ keep entry.1) (List.map _ _)
  rw [List.filter_map]
  rfl

/-- A scan of a stem lists the live entries whose keys start with it. -/
theorem map_scanStem (store : Store) (stem : Key) (version : Nat) :
    (store.scanStem stem version).map (fun row ↦ (row.1, row.2.value)) =
      ((store.liveAt version).filter fun key _ ↦ key.startsWith stem).toList := by
  rw [scanStem_eq_filter, map_filter_visible store version fun key ↦ key.startsWith stem]

/-- A scan of a range lists the live entries whose keys lie in it. -/
theorem map_scanRange (store : Store) (first last : Key) (version : Nat) :
    (store.scanRange first last version).map (fun row ↦ (row.1, row.2.value)) =
      ((store.liveAt version).filter fun key _ ↦ Key.isBetween first last key).toList := by
  rw [scanRange_eq_filter, map_filter_visible store version (Key.isBetween first last)]

/-! ### Changes -/

/-- Readers above the version of the store find what it holds now. -/
theorem get?_of_version_le {store : Store} (hstore : store.WellFormed) (key : Key) {reader : Nat}
    (hreader : store.version ≤ reader) : store.get? key reader = store.get? key store.version := by
  unfold get?
  cases hchain : store.chains.get? key with
  | none => rfl
  | some chain =>
    have hbounded := (hstore key chain hchain).bounded
    simp only [Option.bind_eq_bind, Option.bind_some, VersionChain.valueAt?]
    rw [← VersionChain.latest?_eq_entryAt? fun entry hentry ↦
        Nat.le_trans (hbounded entry hentry).2 hreader,
      ← VersionChain.latest?_eq_entryAt? fun entry hentry ↦ (hbounded entry hentry).2]

theorem Collected.liveAt {horizon : Nat} {before after : Store}
    (hcollected : Collected horizon before after) {version : Nat} (hversion : horizon ≤ version) :
    after.liveAt version = before.liveAt version :=
  liveAt_congr fun key ↦ hcollected.get? key version hversion

/-- A commit is not seen below its version. -/
theorem liveAt_apply_of_lt {store after : Store} {writes : List (Key × Value)}
    {deletes : List Key} {version reader : Nat}
    (happly : store.apply writes deletes version = .ok after)
    (hwrites : (writes.map Prod.fst).Nodup) (hreader : reader < version) :
    after.liveAt reader = store.liveAt reader :=
  liveAt_congr fun key ↦ by
    rw [get?_apply happly hwrites, if_neg (Nat.not_le_of_lt hreader)]

/-- At its own version a commit puts its writes and deletions over what the store held. -/
theorem live_apply {store after : Store} (hstore : store.WellFormed)
    {writes : SortedMap Key Value} {deletes : SortedSet Key} {version : Nat}
    (happly : store.apply writes.toList deletes.keys version = .ok after)
    (hdisjoint : ∀ key, writes.contains key = true → deletes.contains key = false) :
    after.live = store.live.overlay writes deletes := by
  have hversion := (apply_eq_ok happly).1
  refine SortedMap.ext_get? fun key ↦ ?_
  rw [live, live, version_apply happly, get?_liveAt, SortedMap.get?_overlay, get?_liveAt,
    get?_apply happly (SortedMap.nodup_keys writes), if_pos (Nat.le_refl version),
    get?_of_version_le hstore key (Nat.le_of_lt hversion)]
  simp only [SortedMap.mem_keys_iff]
  have hlookup : SortedMap.lookup key writes.toList = writes.get? key := rfl
  rw [hlookup]
  have hkey := hdisjoint key
  rw [SortedMap.contains_eq] at hkey
  cases hwritten : writes.get? key with
  | none => by_cases hdeleted : deletes.contains key = true <;> simp [hdeleted]
  | some value => simp [hkey (by rw [hwritten]; rfl)]

end Store

end RunLedger
