import RunLedger.SortedMap

/-!
# What is found in a sorted map

The operations on sorted maps by what they do to the view `SortedMap.get?`: insertion
(`get?_insert`), filtering (`get?_filter`) and erasure (`get?_erase`). The entries are what the view
shows (`mem_toList_iff`), and maps with equal views are equal (`ext_get?`).
-/

set_option autoImplicit false

namespace RunLedger.SortedMap

open Std (TransOrd LawfulEqOrd OrientedCmp TransCmp)

variable {α β : Type} [Ord α]

/-! ### What is found -/

theorem lookup_cons (key : α) (entry : α × β) (rest : List (α × β)) :
    lookup key (entry :: rest) =
      if compare key entry.1 = .eq then some entry.2 else lookup key rest := by
  unfold lookup
  rw [List.find?_cons]
  by_cases hkey : compare key entry.1 = .eq
  · rw [if_pos hkey, beq_iff_eq.mpr hkey]
    rfl
  · rw [if_neg hkey, beq_eq_false_iff_ne.mpr hkey]

/-- Nothing is found under a key below all others. -/
theorem lookup_eq_none {key : α} {entries : List (α × β)}
    (habove : ∀ entry ∈ entries, compare key entry.1 = .lt) : lookup key entries = none := by
  induction entries with
  | nil => rfl
  | cons entry rest ih =>
    have hentry := habove entry List.mem_cons_self
    rw [lookup_cons, if_neg (by rw [hentry]; decide)]
    exact ih fun other hother ↦ habove other (List.mem_cons_of_mem _ hother)

section

variable [LawfulEqOrd α]

/-- Filtering leaves what is found under a key if it passes the test. -/
theorem lookup_filter (keep : α → β → Bool) (key : α) {entries : List (α × β)}
    (hsorted : entries.Pairwise fun first second ↦ compare first.1 second.1 = .lt) :
    lookup key (entries.filter fun entry ↦ keep entry.1 entry.2) =
      (lookup key entries).filter (keep key) := by
  induction entries with
  | nil => rfl
  | cons entry rest ih =>
    obtain ⟨hentry, hrest⟩ := List.pairwise_cons.mp hsorted
    rw [lookup_cons, List.filter_cons]
    by_cases hkey : compare key entry.1 = .eq
    · have hequal : key = entry.1 := LawfulEqOrd.eq_of_compare hkey
      rw [if_pos hkey, ← hequal, Option.filter_some]
      split
      · rw [lookup_cons, if_pos hkey]
      · rw [ih hrest, lookup_eq_none (hequal ▸ hentry)]
        rfl
    · rw [if_neg hkey, ← ih hrest]
      split
      · rw [lookup_cons, if_neg hkey]
      · rfl

/-- What is in an ascending list is what is found in it. -/
theorem mem_iff_lookup {key : α} {value : β} {entries : List (α × β)}
    (hsorted : entries.Pairwise fun first second ↦ compare first.1 second.1 = .lt) :
    (key, value) ∈ entries ↔ lookup key entries = some value := by
  induction entries with
  | nil => simp [lookup]
  | cons entry rest ih =>
    obtain ⟨hentry, hrest⟩ := List.pairwise_cons.mp hsorted
    rw [lookup_cons, List.mem_cons, ih hrest]
    by_cases hkey : compare key entry.1 = .eq
    · have hequal : key = entry.1 := LawfulEqOrd.eq_of_compare hkey
      rw [if_pos hkey, lookup_eq_none (hequal ▸ hentry), hequal]
      constructor
      · rintro (hhead | hnone)
        · rw [← hhead]
        · exact absurd hnone (by simp)
      · intro hvalue
        exact Or.inl (Prod.ext rfl (Option.some.inj hvalue).symm)
    · rw [if_neg hkey]
      constructor
      · rintro (hhead | hrest)
        · exact absurd (by rw [← hhead]; exact Std.ReflCmp.compare_self) hkey
        · exact hrest
      · exact Or.inr

/-- After filtering a key has its value if that passes the test. -/
@[grind =]
theorem get?_filter (map : SortedMap α β) (keep : α → β → Bool) (key : α) :
    (map.filter keep).get? key = (map.get? key).filter (keep key) :=
  lookup_filter keep key map.sorted

/-- After erasure the erased key has no value, and all others have what they had. -/
@[grind =]
theorem get?_erase (map : SortedMap α β) (key other : α) :
    (map.erase key).get? other = if compare key other = .eq then none else map.get? other := by
  rw [erase, get?_filter]
  by_cases hkey : compare key other = .eq <;> cases map.get? other <;> simp [hkey]

/-- The entries are the keys with their values. -/
theorem mem_toList_iff (map : SortedMap α β) (key : α) (value : β) :
    (key, value) ∈ map.toList ↔ map.get? key = some value :=
  mem_iff_lookup map.sorted

end

/-! ### What is inserted -/

variable [TransOrd α]

/-- Insertion changes what is found under the inserted key alone. -/
theorem lookup_insertEntry (key other : α) (value : β) (entries : List (α × β)) :
    lookup other (insertEntry key value entries) =
      if compare other key = .eq then some value else lookup other entries := by
  induction entries with
  | nil => exact lookup_cons other (key, value) []
  | cons entry rest ih =>
    unfold insertEntry
    split
    · rw [lookup_cons]
    · rename_i heq
      rw [lookup_cons, lookup_cons]
      by_cases hother : compare other key = .eq
      · rw [if_pos hother, if_pos hother]
      · have hentry : compare other entry.1 ≠ .eq := fun hequal ↦
          hother (TransCmp.eq_trans hequal (OrientedCmp.eq_symm heq))
        rw [if_neg hother, if_neg hother, if_neg hentry]
    · rename_i hgt
      rw [lookup_cons, lookup_cons, ih]
      by_cases hentry : compare other entry.1 = .eq
      · have hother : compare other key ≠ .eq := fun hequal ↦ by
          have hkey := TransCmp.eq_trans (OrientedCmp.eq_symm hequal) hentry
          rw [hkey] at hgt
          exact absurd hgt (by decide)
        rw [if_pos hentry, if_neg hother, if_pos hentry]
      · rw [if_neg hentry, if_neg hentry]

/-- After insertion the inserted key has the inserted value, and all others have what they had. -/
@[grind =]
theorem get?_insert (map : SortedMap α β) (key other : α) (value : β) :
    (map.insert key value).get? other =
      if compare other key = .eq then some value else map.get? other :=
  lookup_insertEntry key other value map.entries

/-! ### Maps with equal views -/

variable [LawfulEqOrd α]

/-- Ascending lists in which the same is found are equal. -/
theorem eq_of_lookup_eq {first second : List (α × β)}
    (hfirst : first.Pairwise fun former latter ↦ compare former.1 latter.1 = .lt)
    (hsecond : second.Pairwise fun former latter ↦ compare former.1 latter.1 = .lt)
    (hlookup : ∀ key, lookup key first = lookup key second) : first = second := by
  have hnone (entry : α × β) (rest : List (α × β)) (key : α) (value : β)
      (hvalue : some value = lookup key (entry :: rest)) (hlt : compare key entry.1 = .lt)
      (hentry : ∀ other ∈ rest, compare entry.1 other.1 = .lt) : False := by
    rw [lookup_eq_none (List.forall_mem_cons.mpr
      ⟨hlt, fun other hother ↦ TransCmp.lt_trans hlt (hentry other hother)⟩)] at hvalue
    exact absurd hvalue (by simp)
  have hself (entry : α × β) (rest : List (α × β)) :
      lookup entry.1 (entry :: rest) = some entry.2 := by
    rw [lookup_cons, if_pos Std.ReflCmp.compare_self]
  induction first generalizing second with
  | nil =>
    cases second with
    | nil => rfl
    | cons entry rest =>
      have hentry := hlookup entry.1
      rw [hself] at hentry
      exact absurd hentry (by simp [lookup])
  | cons former rest ih =>
    obtain ⟨hformer, hrest⟩ := List.pairwise_cons.mp hfirst
    cases second with
    | nil =>
      have hentry := hlookup former.1
      rw [hself] at hentry
      exact absurd hentry (by simp [lookup])
    | cons latter others =>
      obtain ⟨hlatter, hothers⟩ := List.pairwise_cons.mp hsecond
      cases hkeys : compare former.1 latter.1 with
      | lt =>
        exact (hnone latter others former.1 former.2
          ((hself former rest).symm.trans (hlookup former.1)) hkeys hlatter).elim
      | gt =>
        exact (hnone former rest latter.1 latter.2
          ((hself latter others).symm.trans (hlookup latter.1).symm)
          (OrientedCmp.lt_of_gt hkeys) hformer).elim
      | eq =>
        have hequal : former.1 = latter.1 := LawfulEqOrd.eq_of_compare hkeys
        have hvalues := hlookup former.1
        rw [hself, hequal, hself] at hvalues
        have hheads : former = latter := Prod.ext hequal (Option.some.inj hvalues)
        subst hheads
        rw [ih hrest hothers fun key ↦ ?_]
        have hkey := hlookup key
        rw [lookup_cons, lookup_cons] at hkey
        by_cases heq : compare key former.1 = .eq
        · have hformers : key = former.1 := LawfulEqOrd.eq_of_compare heq
          rw [lookup_eq_none (hformers ▸ hformer), lookup_eq_none (hformers ▸ hlatter)]
        · rwa [if_neg heq, if_neg heq] at hkey

/-- Maps with equal views are equal. -/
theorem ext_get? {first second : SortedMap α β} (hget : ∀ key, first.get? key = second.get? key) :
    first = second := by
  cases first
  cases second
  rw [SortedMap.mk.injEq]
  exact eq_of_lookup_eq ‹_› ‹_› hget

end RunLedger.SortedMap
