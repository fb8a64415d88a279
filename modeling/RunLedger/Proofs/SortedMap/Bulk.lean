import RunLedger.SortedMap.Lookup

/-!
# Whole lists put into a sorted map

Putting a list of entries with different keys into a map one after the other lets the list win
(`get?_foldl_insert`), so a map is made again from its own entries (`ofList_toList`). The first key
is the least (`head?_keys_le`). A key that is inserted only if it is new keeps what it had
(`get?_insertIfNew`). `overlay` is a map behind a set of writes and a set of deletions. A list of
which only equal members tie is sorted into a strictly ascending one, as the entries of a map are
(`pairwise_mergeSort_of_ties`).
-/

set_option autoImplicit false

namespace RunLedger.SortedMap

open Std (TransOrd LawfulEqOrd OrientedCmp TransCmp)

variable {α β γ : Type} [Ord α]

theorem contains_eq (map : SortedMap α β) (key : α) : map.contains key = (map.get? key).isSome :=
  rfl

theorem isEmpty_iff_eq_empty (map : SortedMap α β) : map.isEmpty = true ↔ map = ∅ := by
  obtain ⟨entries, hsorted⟩ := map
  constructor
  · intro hempty
    have hentries : entries = [] := List.isEmpty_iff.mp hempty
    subst hentries
    rfl
  · rintro hmap
    rw [hmap]
    rfl

section

variable [TransOrd α]

theorem contains_insert (map : SortedMap α β) (key other : α) (value : β) :
    (map.insert key value).contains other =
      (decide (compare other key = .eq) || map.contains other) := by
  rw [contains_eq, get?_insert]
  split <;> simp [contains_eq, *]

theorem get?_insertIfNew (map : SortedMap α β) (key other : α) (value : β) :
    (map.insertIfNew key value).get? other =
      (map.get? other).or (if compare other key = .eq then some value else none) := by
  unfold insertIfNew
  split
  · rename_i hcontains
    by_cases hother : compare other key = .eq
    · obtain ⟨held, hheld⟩ := Option.isSome_iff_exists.mp hcontains
      have hsame : map.get? other = map.get? key := by
        unfold get? lookup
        congr 2
        funext entry
        rw [TransCmp.congr_left hother]
      rw [hsame, hheld]
      rfl
    · rw [if_neg hother, Option.or_none]
  · rename_i hcontains
    have hnone : map.get? key = none := by
      rw [contains_eq] at hcontains
      exact Option.not_isSome_iff_eq_none.mp hcontains
    rw [get?_insert]
    by_cases hother : compare other key = .eq
    · have hsame : map.get? other = map.get? key := by
        unfold get? lookup
        congr 2
        funext entry
        rw [TransCmp.congr_left hother]
      rw [if_pos hother, if_pos hother, hsame, hnone]
      rfl
    · rw [if_neg hother, if_neg hother, Option.or_none]

end

/-! ### Lists of entries -/

/-- Changing the values changes what is found. -/
theorem lookup_map (change : β → γ) (key : α) (entries : List (α × β)) :
    lookup key (entries.map fun entry ↦ (entry.1, change entry.2)) =
      (lookup key entries).map change := by
  unfold lookup
  rw [List.find?_map, Option.map_map, Option.map_map]
  rfl

section

variable [LawfulEqOrd α]

theorem lookup_eq_none_of_not_mem {key : α} {entries : List (α × β)}
    (hkey : key ∉ entries.map Prod.fst) : lookup key entries = none := by
  unfold lookup
  rw [Option.map_eq_none_iff, List.find?_eq_none]
  intro entry hentry hequal
  have hsame : key = entry.1 := LawfulEqOrd.eq_of_compare (beq_iff_eq.mp hequal)
  exact hkey (hsame ▸ List.mem_map_of_mem hentry)

/-- A list of entries with different keys, put into a map, is found first, and behind it what the
map held. -/
theorem get?_foldl_insert [TransOrd α] {entries : List (α × β)}
    (hdistinct : (entries.map Prod.fst).Nodup) (map : SortedMap α β) (key : α) :
    (entries.foldl (fun map entry ↦ map.insert entry.1 entry.2) map).get? key =
      (lookup key entries).or (map.get? key) := by
  induction entries generalizing map with
  | nil => rfl
  | cons entry rest ih =>
    obtain ⟨hentry, hrest⟩ := List.nodup_cons.mp hdistinct
    rw [List.foldl_cons, ih hrest, get?_insert, lookup_cons]
    by_cases hkey : compare key entry.1 = .eq
    · have hsame : key = entry.1 := LawfulEqOrd.eq_of_compare hkey
      rw [if_pos hkey, if_pos hkey, lookup_eq_none_of_not_mem (hsame ▸ hentry)]
      rfl
    · rw [if_neg hkey, if_neg hkey]

/-- Erasing a list of keys leaves the others. -/
theorem get?_foldl_erase [DecidableEq α] (erased : List α) (map : SortedMap α β) (key : α) :
    (erased.foldl (fun map key ↦ map.erase key) map).get? key =
      if key ∈ erased then none else map.get? key := by
  induction erased generalizing map with
  | nil => simp
  | cons head rest ih =>
    rw [List.foldl_cons, ih, get?_erase]
    by_cases hhead : head = key <;> by_cases hrest : key ∈ rest <;>
      simp [hhead, hrest, eq_comm (a := key)]

end

/-! ### Keys -/

/-- The keys ascend strictly. -/
theorem pairwise_keys (map : SortedMap α β) :
    map.keys.Pairwise fun first second ↦ compare first second = .lt :=
  List.pairwise_map.mpr map.sorted

theorem nodup_keys [TransOrd α] (map : SortedMap α β) : map.keys.Nodup :=
  (pairwise_keys map).imp fun {first second} hlt hequal ↦ by
    subst hequal
    exact absurd (Std.ReflCmp.compare_self.symm.trans hlt) (by decide)

section

variable [LawfulEqOrd α]

theorem contains_erase (map : SortedMap α β) (key other : α) :
    (map.erase key).contains other =
      (!decide (compare key other = .eq) && map.contains other) := by
  rw [contains_eq, get?_erase]
  split <;> simp [contains_eq, *]

/-- A filter of keys keeps those that pass. -/
theorem contains_filter_key (map : SortedMap α β) (keep : α → Bool) (key : α) :
    (map.filter fun other _ ↦ keep other).contains key = (keep key && map.contains key) := by
  rw [contains_eq, get?_filter, contains_eq]
  cases map.get? key <;> cases keep key <;> simp [Option.filter]

theorem mem_keys_iff (map : SortedMap α β) (key : α) : key ∈ map.keys ↔ map.contains key = true := by
  rw [contains_eq, Option.isSome_iff_exists]
  constructor
  · intro hkey
    obtain ⟨entry, hentry, rfl⟩ := List.mem_map.mp hkey
    exact ⟨entry.2, (mem_toList_iff map entry.1 entry.2).mp hentry⟩
  · rintro ⟨value, hvalue⟩
    exact List.mem_map.mpr ⟨(key, value), (mem_toList_iff map key value).mpr hvalue, rfl⟩

theorem exists_contains_of_isEmpty_eq_false {map : SortedMap α β} (hmap : map.isEmpty = false) :
    ∃ key, map.contains key = true := by
  have hkeys : map.keys ≠ [] := by
    rw [keys, ne_eq, List.map_eq_nil_iff, ← List.isEmpty_iff]
    exact Bool.eq_false_iff.mp hmap
  obtain ⟨key, hkey⟩ := List.exists_mem_of_ne_nil map.keys hkeys
  exact ⟨key, (mem_keys_iff map key).mp hkey⟩

/-- A map without some of its first keys that is else the same is the rest of it. -/
theorem toList_eq_drop {map rest : SortedMap α β} {count : Nat}
    (hgone : ∀ key ∈ (map.toList.take count).map Prod.fst, rest.get? key = none)
    (hkept : ∀ key ∉ (map.toList.take count).map Prod.fst, rest.get? key = map.get? key)
    [TransOrd α] : rest.toList = map.toList.drop count := by
  let dropped : SortedMap α β := ⟨map.entries.drop count, map.sorted.sublist (List.drop_sublist ..)⟩
  suffices hsame : rest = dropped from congrArg toList hsame
  have hkeys : ((map.toList.take count).map Prod.fst ++ (map.toList.drop count).map Prod.fst).Nodup :=
    by
    rw [← List.map_append, List.take_append_drop]
    exact nodup_keys map
  obtain ⟨-, -, hdisjoint⟩ := List.nodup_append.mp hkeys
  refine ext_get? fun key ↦ Option.ext fun value ↦ ?_
  rw [← mem_toList_iff dropped]
  by_cases hkey : key ∈ (map.toList.take count).map Prod.fst
  · refine iff_of_false (by rw [hgone key hkey]; exact nofun) fun hmem ↦ ?_
    exact hdisjoint key hkey key (List.mem_map_of_mem (f := Prod.fst) hmem) rfl
  · rw [hkept key hkey, ← mem_toList_iff, ← List.take_append_drop count map.toList, List.mem_append,
      or_iff_right fun hmem ↦ hkey (List.mem_map_of_mem (f := Prod.fst) hmem)]
    rfl

/-- No key is below the first one. -/
theorem head?_keys_le {map : SortedMap α β} {least key : α} (hleast : map.keys.head? = some least)
    (hkey : map.contains key = true) : least = key ∨ compare least key = .lt := by
  have hmem := (mem_keys_iff map key).mpr hkey
  have hsorted := pairwise_keys map
  cases hkeys : map.keys with
  | nil => simp [hkeys] at hmem
  | cons head rest =>
    rw [hkeys] at hleast hmem hsorted
    obtain rfl : head = least := Option.some.inj hleast
    rcases List.mem_cons.mp hmem with rfl | hrest
    · exact Or.inl rfl
    · exact Or.inr (List.rel_of_pairwise_cons hsorted hrest)

/-- A map is made again from its own entries. -/
theorem ofList_toList [TransOrd α] (map : SortedMap α β) : ofList map.toList = map := by
  refine ext_get? fun key ↦ ?_
  rw [ofList, toList, get?_foldl_insert (nodup_keys map)]
  exact Option.or_none

/-- A map made of the changed values of another one. -/
theorem get?_ofList_map [TransOrd α] (map : SortedMap α β) (change : β → γ) (key : α) :
    (ofList (map.toList.map fun entry ↦ (entry.1, change entry.2))).get? key =
      (map.get? key).map change := by
  have hkeys : ((map.toList.map fun entry ↦ (entry.1, change entry.2)).map Prod.fst).Nodup := by
    rw [List.map_map]
    exact nodup_keys map
  rw [ofList, get?_foldl_insert hkeys, lookup_map]
  exact Option.or_none

end

/-! ### Overlays -/

/-- The map with some keys deleted and then some entries written. -/
def overlay [TransOrd α] (map : SortedMap α β) (writes : SortedMap α β) (deletes : SortedSet α) :
    SortedMap α β :=
  writes.toList.foldl (fun map entry ↦ map.insert entry.1 entry.2)
    (map.filter fun key _ ↦ !deletes.contains key)

/-- What is written comes first, nothing is found under what is deleted, and all else is as it
was. -/
theorem get?_overlay [TransOrd α] [LawfulEqOrd α] (map writes : SortedMap α β)
    (deletes : SortedSet α) (key : α) :
    (map.overlay writes deletes).get? key =
      (writes.get? key).or (if deletes.contains key then none else map.get? key) := by
  rw [overlay, toList, get?_foldl_insert (nodup_keys writes), get?_filter]
  congr 1
  by_cases hkey : deletes.contains key = true <;> cases map.get? key <;> simp [hkey]

theorem overlay_empty [TransOrd α] [LawfulEqOrd α] (map : SortedMap α β) :
    map.overlay ∅ ∅ = map := by
  refine ext_get? fun key ↦ ?_
  rw [get?_overlay]
  rfl

end RunLedger.SortedMap

/-! ### Lists that are sorted -/

namespace RunLedger

/-- A list without repeats is sorted into a strictly ascending one, if only equal members tie. -/
theorem pairwise_mergeSort_of_ties {α : Type} {order : α → α → Ordering} [Std.TransCmp order]
    {items : List α} (hnodup : items.Nodup)
    (hties : ∀ first ∈ items, ∀ second ∈ items, order first second = .eq → first = second) :
    (items.mergeSort fun first second ↦ (order first second).isLE).Pairwise
      fun first second ↦ order first second = .lt := by
  have hdistinct := (List.mergeSort_perm items
    fun first second ↦ (order first second).isLE).nodup_iff.mpr hnodup
  have hascending : (items.mergeSort fun first second ↦ (order first second).isLE).Pairwise
      fun first second ↦ (order first second).isLE = true :=
    List.pairwise_mergeSort (fun _ _ _ ↦ Std.TransCmp.isLE_trans) (fun first second ↦ by
      rw [@Std.OrientedCmp.eq_swap _ order _ second first]
      cases order first second <;> rfl) _
  refine (hascending.and hdistinct).imp_of_mem fun {first second} hfirst hsecond hle ↦ ?_
  cases horder : order first second with
  | lt => rfl
  | gt =>
    rw [horder] at hle
    cases hle.1
  | eq =>
    exact absurd (hties first (List.mem_mergeSort.mp hfirst) second
      (List.mem_mergeSort.mp hsecond) horder) hle.2

/-- Numbers are sorted into ascending order. -/
theorem pairwise_mergeSort_le (values : List UInt64) : values.mergeSort.Pairwise (· ≤ ·) := by
  have hsorted := @List.pairwise_mergeSort _ (fun first second : UInt64 ↦ decide (first ≤ second))
    (fun first second third hfirst hsecond ↦ decide_eq_true
      (UInt64.le_trans (of_decide_eq_true hfirst) (of_decide_eq_true hsecond)))
    (fun first second ↦ by simpa using UInt64.le_total first second) values
  exact hsorted.imp of_decide_eq_true

end RunLedger
