import RunLedger.Proofs.Store.Live

/-!
# The store as a chronicle of maps

What commits mean can be told without chains, tombstones or collections: a `Chronicle` keeps the
whole map of rows as each successful commit left it, and a reader at a version is told the map of
the last commit that is not above that version (`Chronicle.asOf`).

The store, sent commits and collections in any order, shows just that to every reader at or above
all the horizons it was collected to (`store_follows_chronicle`). Each request keeps it so
(`Follows.step`): a commit takes a map that the store shows to the map behind its changes
(`Shows.apply`), and a collection leaves it (`Shows.collect`).
-/

set_option autoImplicit false

namespace RunLedger

/-- What is stored, each value with the version of the commit that wrote it. -/
abbrev Rows := SortedMap Key VersionedValue

/-- The writes and deletions of one commit, which changes no key twice. -/
structure Changes where
  writes : List (Key × Value)
  deletes : List Key
  distinct : (writes.map Prod.fst ++ deletes).Nodup

/-- What a store is asked for: a commit under a version, or a collection at a horizon. -/
inductive Store.Request where
  | apply (changes : Changes) (version : Nat)
  | collect (horizon : Nat)

namespace Changes

/-- The rows that the writes put down under a version. -/
def written (changes : Changes) (version : Nat) : List (Key × VersionedValue) :=
  changes.writes.map fun entry ↦ (entry.1, ⟨entry.2, version⟩)

/-- A map of rows behind the changes: each write is there with the version, nothing is under the
deleted keys, and all other rows are as they were. -/
def onto (changes : Changes) (version : Nat) (rows : Rows) : Rows :=
  changes.deletes.foldl (fun rows key ↦ rows.erase key)
    ((changes.written version).foldl (fun rows row ↦ rows.insert row.1 row.2) rows)

theorem nodup_writes (changes : Changes) : (changes.writes.map Prod.fst).Nodup :=
  (List.nodup_append.mp changes.distinct).1

theorem get?_onto (changes : Changes) (version : Nat) (rows : Rows) (key : Key) :
    (changes.onto version rows).get? key =
      if key ∈ changes.deletes then none
      else ((SortedMap.lookup key changes.writes).map (⟨·, version⟩)).or (rows.get? key) := by
  have hkeys : (changes.written version).map Prod.fst = changes.writes.map Prod.fst := by
    rw [written, List.map_map]
    rfl
  have hdistinct : ((changes.written version).map Prod.fst).Nodup := hkeys ▸ changes.nodup_writes
  rw [onto, SortedMap.get?_foldl_erase, SortedMap.get?_foldl_insert hdistinct, written,
    SortedMap.lookup_map fun value : Value ↦ (⟨value, version⟩ : VersionedValue)]

end Changes

/-! ### Chronicles -/

/-- All rows as the commit of a version left them. -/
structure Revision where
  version : Nat
  rows : Rows

/-- What the successful commits left one after the other, the newest first. -/
structure Chronicle where
  revisions : List Revision

namespace Chronicle

/-- The chronicle before the first commit. -/
def empty : Chronicle := ⟨[]⟩

/-- The version of the last commit. -/
def version (chronicle : Chronicle) : Nat :=
  match chronicle.revisions.head? with
  | none => 0
  | some revision => revision.version

/-- What the last commit left. -/
def latest (chronicle : Chronicle) : Rows :=
  match chronicle.revisions.head? with
  | none => ∅
  | some revision => revision.rows

/-- What the last commit at or below a version left. -/
def asOf (chronicle : Chronicle) (version : Nat) : Rows :=
  match chronicle.revisions.find? fun revision ↦ revision.version ≤ version with
  | none => ∅
  | some revision => revision.rows

/-- A commit whose version is above that of the last one leaves a new map. Nothing else changes
anything. -/
def step (chronicle : Chronicle) : Store.Request → Chronicle
  | .apply changes version =>
    if version ≤ chronicle.version then chronicle
    else ⟨⟨version, changes.onto version chronicle.latest⟩ :: chronicle.revisions⟩
  | .collect _ => chronicle

/-- Requests one after the other. -/
def run (chronicle : Chronicle) (requests : List Store.Request) : Chronicle :=
  requests.foldl step chronicle

/-- Readers that are not below the last commit are told what it left. -/
theorem asOf_of_version_le {chronicle : Chronicle} {version : Nat}
    (hversion : chronicle.version ≤ version) : chronicle.asOf version = chronicle.latest := by
  obtain ⟨revisions⟩ := chronicle
  cases revisions with
  | nil => rfl
  | cons revision older =>
    have hfound : revision.version ≤ version := hversion
    simp [asOf, latest, hfound]

/-- A commit is told to the readers that are not below its version, and to no other. -/
theorem asOf_step_apply {chronicle : Chronicle} {version : Nat}
    (hnewer : chronicle.version < version) (changes : Changes) (reader : Nat) :
    (chronicle.step (.apply changes version)).asOf reader =
      if version ≤ reader then changes.onto version (chronicle.asOf reader)
      else chronicle.asOf reader := by
  rw [step, if_neg (Nat.not_le_of_lt hnewer)]
  by_cases hreader : version ≤ reader
  · rw [if_pos hreader, asOf_of_version_le (Nat.le_trans (Nat.le_of_lt hnewer) hreader)]
    simp [asOf, hreader]
  · rw [if_neg hreader]
    simp [asOf, hreader]

end Chronicle

/-! ### What a store shows -/

namespace Store

/-- A reader at a version finds a map of rows, by looking keys up and by scanning: a scan of a range
or of a stem lists the rows whose keys lie in it, each once and in key order. -/
structure Shows (store : Store) (version : Nat) (rows : Rows) : Prop where
  get? : ∀ key, store.get? key version = rows.get? key
  scanRange : ∀ first last, store.scanRange first last version =
    (rows.filter fun key _ ↦ Key.isBetween first last key).toList
  scanStem : ∀ stem, store.scanStem stem version =
    (rows.filter fun key _ ↦ key.startsWith stem).toList

/-- The rows that a reader at a version finds in the whole store. -/
def rowsAt (store : Store) (version : Nat) : Rows :=
  ⟨visible version store.chains.toList, pairwise_visible store version⟩

theorem get?_rowsAt (store : Store) (version : Nat) (key : Key) :
    (store.rowsAt version).get? key = store.get? key version :=
  Option.ext fun found ↦ by
    rw [← SortedMap.mem_toList_iff]
    exact mem_visible_iff store version key found

theorem shows_rowsAt (store : Store) (version : Nat) :
    store.Shows version (store.rowsAt version) where
  get? key := (get?_rowsAt store version key).symm
  scanRange first last := scanRange_eq_filter store first last version
  scanStem stem := scanStem_eq_filter store stem version

/-- The scans show what looking keys up does. -/
theorem shows_of_get? {store : Store} {version : Nat} {rows : Rows}
    (hget : ∀ key, store.get? key version = rows.get? key) : store.Shows version rows := by
  have hrows : store.rowsAt version = rows :=
    SortedMap.ext_get? fun key ↦ (get?_rowsAt store version key).trans (hget key)
  exact hrows ▸ shows_rowsAt store version

/-- A commit is seen as a whole by the readers at or above its version, and not at all by the
others. -/
theorem Shows.apply {store after : Store} {reader : Nat} {rows : Rows}
    (hshows : store.Shows reader rows) {changes : Changes} {version : Nat}
    (happly : store.apply changes.writes changes.deletes version = .ok after) :
    after.Shows reader (if version ≤ reader then changes.onto version rows else rows) := by
  refine shows_of_get? fun key ↦ ?_
  rw [get?_apply happly changes.nodup_writes, hshows.get?]
  by_cases hreader : version ≤ reader
  · rw [if_pos hreader, if_pos hreader, Changes.get?_onto]
  · rw [if_neg hreader, if_neg hreader]

theorem Shows.collect {store : Store} {reader : Nat} {rows : Rows}
    (hshows : store.Shows reader rows) {horizon : Nat} (hreader : horizon ≤ reader) :
    (store.collect horizon).2.Shows reader rows :=
  shows_of_get? fun key ↦
    ((collected_collect store horizon).get? key reader hreader).trans (hshows.get? key)

/-- The store behind a request. A commit that is refused leaves it as it is. -/
def step (store : Store) : Request → Store
  | .apply changes version =>
    match store.apply changes.writes changes.deletes version with
    | .ok after => after
    | .error _ => store
  | .collect horizon => (store.collect horizon).2

/-- Requests one after the other. -/
def run (store : Store) (requests : List Request) : Store := requests.foldl step store

theorem apply_of_version_le {store : Store} {version : Nat} (hversion : version ≤ store.version)
    (writes : List (Key × Value)) (deletes : List Key) :
    store.apply writes deletes version = .error (.staleVersion version store.version) := by
  rw [apply, if_pos hversion]

theorem exists_apply_of_lt {store : Store} {version : Nat} (hversion : store.version < version)
    (writes : List (Key × Value)) (deletes : List Key) :
    ∃ after, store.apply writes deletes version = .ok after := by
  rw [apply, if_neg (Nat.not_le_of_lt hversion)]
  exact ⟨_, rfl⟩

/-- A request keeps the chains in order. -/
theorem WellFormed.step {store : Store} (hstore : store.WellFormed) (request : Request) :
    (store.step request).WellFormed := by
  cases request with
  | collect horizon => exact (collected_collect store horizon).wellFormed hstore
  | apply changes version =>
    rw [Store.step]
    cases happly : store.apply changes.writes changes.deletes version with
    | error outage => exact hstore
    | ok after => exact hstore.apply happly changes.distinct

theorem WellFormed.run {store : Store} (hstore : store.WellFormed) (requests : List Request) :
    (store.run requests).WellFormed := by
  induction requests generalizing store with
  | nil => exact hstore
  | cons request rest ih => exact ih (hstore.step request)

/-- Every store that requests make of the empty one has its chains in order. -/
theorem wellFormed_run (requests : List Request) : (empty.run requests).WellFormed :=
  wellFormed_empty.run requests

end Store

/-! ### The store and its chronicle -/

/-- The store shows its chronicle to a reader. -/
structure Follows (reader : Nat) (store : Store) (chronicle : Chronicle) : Prop where
  version : store.version = chronicle.version
  shows : store.Shows reader (chronicle.asOf reader)

theorem follows_empty (reader : Nat) : Follows reader .empty .empty :=
  ⟨rfl, Store.shows_of_get? fun _ ↦ rfl⟩

theorem version_step {store : Store} {chronicle : Chronicle}
    (hversion : store.version = chronicle.version) (request : Store.Request) :
    (store.step request).version = (chronicle.step request).version := by
  cases request with
  | collect horizon => exact (Store.collected_collect store horizon).version.trans hversion
  | apply changes version =>
    rw [Store.step, Chronicle.step, ← hversion]
    by_cases hstale : version ≤ store.version
    · rw [Store.apply_of_version_le hstale, if_pos hstale]
      exact hversion
    · obtain ⟨after, happly⟩ :=
        Store.exists_apply_of_lt (Nat.lt_of_not_le hstale) changes.writes changes.deletes
      rw [happly, if_neg hstale]
      exact Store.version_apply happly

/-- A request keeps the store at its chronicle for the readers that are not below a horizon it
collects to. -/
theorem Follows.step {reader : Nat} {store : Store} {chronicle : Chronicle}
    (hfollows : Follows reader store chronicle) {request : Store.Request}
    (hreader : ∀ horizon, request = .collect horizon → horizon ≤ reader) :
    Follows reader (store.step request) (chronicle.step request) := by
  refine ⟨version_step hfollows.version request, ?_⟩
  cases request with
  | collect horizon => exact hfollows.shows.collect (hreader horizon rfl)
  | apply changes version =>
    rw [Store.step]
    by_cases hstale : version ≤ store.version
    · rw [Store.apply_of_version_le hstale, Chronicle.step, if_pos (hfollows.version ▸ hstale)]
      exact hfollows.shows
    · have hnewer : store.version < version := Nat.lt_of_not_le hstale
      obtain ⟨after, happly⟩ := Store.exists_apply_of_lt hnewer changes.writes changes.deletes
      rw [happly, Chronicle.asOf_step_apply (hfollows.version ▸ hnewer)]
      exact hfollows.shows.apply happly

theorem Follows.run {reader : Nat} {store : Store} {chronicle : Chronicle}
    (hfollows : Follows reader store chronicle) {requests : List Store.Request}
    (hreader : ∀ horizon, .collect horizon ∈ requests → horizon ≤ reader) :
    Follows reader (store.run requests) (chronicle.run requests) := by
  induction requests generalizing store chronicle with
  | nil => exact hfollows
  | cons request rest ih =>
    have hstep := hfollows.step fun horizon hrequest ↦
      hreader horizon (hrequest ▸ List.mem_cons_self)
    exact ih hstep fun horizon hrest ↦ hreader horizon (List.mem_cons_of_mem _ hrest)

theorem version_run (requests : List Store.Request) {store : Store} {chronicle : Chronicle}
    (hversion : store.version = chronicle.version) :
    (store.run requests).version = (chronicle.run requests).version := by
  induction requests generalizing store chronicle with
  | nil => exact hversion
  | cons request rest ih => exact ih (version_step hversion request)

/-- Whatever commits and collections are asked for in whatever order, the store has the version of
its chronicle and shows each reader at or above all horizons of the collections what the chronicle
tells. A commit whose version is not above that of the store is refused and changes nothing. Any
other succeeds, and every reader finds either all of it behind what was there, namely at or above
its version, or nothing of it. -/
theorem store_follows_chronicle (requests : List Store.Request) :
    let store := Store.empty.run requests
    let chronicle := Chronicle.empty.run requests
    store.version = chronicle.version ∧
    (∀ reader, (∀ horizon, .collect horizon ∈ requests → horizon ≤ reader) →
      store.Shows reader (chronicle.asOf reader)) ∧
    ∀ (changes : Changes) (version : Nat),
      (version ≤ store.version →
        store.apply changes.writes changes.deletes version =
            .error (.staleVersion version store.version) ∧
          store.step (.apply changes version) = store) ∧
      (store.version < version → ∃ after,
        store.apply changes.writes changes.deletes version = .ok after ∧
          store.step (.apply changes version) = after ∧
          after.version = version ∧
          ∀ reader rows, store.Shows reader rows →
            after.Shows reader (if version ≤ reader then changes.onto version rows else rows)) := by
  intro store chronicle
  refine ⟨version_run requests rfl, fun reader hreader ↦ ((follows_empty reader).run hreader).shows,
    fun changes version ↦ ⟨fun hstale ↦ ?_, fun hnewer ↦ ?_⟩⟩
  · have hrefused := Store.apply_of_version_le hstale changes.writes changes.deletes
    exact ⟨hrefused, by rw [Store.step, hrefused]⟩
  · obtain ⟨after, happly⟩ := Store.exists_apply_of_lt hnewer changes.writes changes.deletes
    exact ⟨after, happly, by rw [Store.step, happly], Store.version_apply happly,
      fun reader rows hshows ↦ hshows.apply happly⟩

/-- Readers behind a collection find a key that was written, deleted and written again. -/
theorem store_follows_chronicle_collected :
    let key : Key := ⟨.run, []⟩
    let store := Store.empty.run
      [.apply ⟨[(key, .empty)], [], by decide⟩ 1, .apply ⟨[], [key], by decide⟩ 2,
        .apply ⟨[(key, .empty)], [], by decide⟩ 5, .collect 3]
    store.version = 5 ∧ store.get? key 3 = none ∧ store.scanStem key 4 = [] ∧
      store.get? key 5 = some ⟨.empty, 5⟩ := by
  intro key store
  have hfollows := store_follows_chronicle
    [.apply ⟨[(key, .empty)], [], by decide⟩ 1, .apply ⟨[], [key], by decide⟩ 2,
      .apply ⟨[(key, .empty)], [], by decide⟩ 5, .collect 3]
  have hshows (reader : Nat) (hreader : 3 ≤ reader) := hfollows.2.1 reader fun horizon hcollect ↦ by
    obtain rfl : horizon = 3 := by simpa using hcollect
    exact hreader
  exact ⟨hfollows.1, (hshows 3 (by decide)).get? key, (hshows 4 (by decide)).scanStem key,
    (hshows 5 (by decide)).get? key⟩

/-- Below the horizon of a collection a reader may miss what the chronicle tells. -/
example :
    let key : Key := ⟨.run, []⟩
    let requests : List Store.Request :=
      [.apply ⟨[(key, .empty)], [], by decide⟩ 1, .apply ⟨[], [key], by decide⟩ 2, .collect 2]
    (Store.empty.run requests).get? key 1 = none ∧
      ((Chronicle.empty.run requests).asOf 1).get? key = some ⟨.empty, 1⟩ := by
  decide

end RunLedger
