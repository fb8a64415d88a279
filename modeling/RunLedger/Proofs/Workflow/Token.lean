import Mathlib.Data.List.Induction
import RunLedger.Proofs.SortedMap.Bulk
import RunLedger.Proofs.Text.Order
import RunLedger.Workflow.Token

/-!
# What a token keeps

A write to a token takes away what its node wrote under the key before and puts the new value behind
those of the others. So under each key there is just the last write of each node
(`WorkflowToken.lastBy?`), in the order of these writes (`WorkflowToken.Keeps`). The value of the
last entry is that of the last write of all, and the first entry of a node is its only one.

The writes of a token are taken in the order in which they were made. A write is known by its place
in this order, which is what the entries of a key are sorted by.
-/

set_option autoImplicit false

namespace RunLedger

/-- A value that a node writes under a key of a token. -/
structure TokenWrite where
  key : String
  value : String
  node : String
deriving DecidableEq

namespace WorkflowToken

/-- Writes one after the other. -/
def writeAll (token : WorkflowToken) (writes : List TokenWrite) : WorkflowToken :=
  writes.foldl (fun token write ↦ token.put write.key write.value write.node) token

/-- The last of some writes under a key. -/
def last? (writes : List TokenWrite) (key : String) : Option TokenWrite :=
  (writes.filter fun write ↦ write.key = key).getLast?

/-- The last of some writes by a node under a key, with its place among them. -/
def lastBy? (writes : List TokenWrite) (key node : String) : Option (TokenWrite × Nat) :=
  (writes.zipIdx.filter fun placed ↦ placed.1.key = key ∧ placed.1.node = node).getLast?

theorem writeAll_append (token : WorkflowToken) (earlier later : List TokenWrite) :
    token.writeAll (earlier ++ later) = (token.writeAll earlier).writeAll later :=
  List.foldl_append

/-! ### One write -/

variable (writes : List TokenWrite) (write : TokenWrite)

theorem last?_concat (key : String) :
    last? (writes ++ [write]) key = if write.key = key then some write else last? writes key := by
  by_cases hkey : write.key = key <;> simp [last?, hkey]

theorem lastBy?_concat (key node : String) :
    lastBy? (writes ++ [write]) key node =
      if write.key = key ∧ write.node = node then some (write, writes.length)
      else lastBy? writes key node := by
  rw [lastBy?, List.zipIdx_append, List.filter_append, List.getLast?_append]
  by_cases hsame : write.key = key ∧ write.node = node
  · simp [hsame]
  · simp [hsame, lastBy?]

variable {writes write}

/-- A last write is one of the writes, at its place. -/
theorem getElem?_of_lastBy? {key node : String} {placed : TokenWrite × Nat}
    (hlast : lastBy? writes key node = some placed) :
    writes[placed.2]? = some placed.1 ∧ placed.1.key = key ∧ placed.1.node = node := by
  have hmem := List.mem_of_getLast? hlast
  rw [List.mem_filter, decide_eq_true_iff] at hmem
  exact ⟨List.mem_zipIdx_iff_getElem?.mp hmem.1, hmem.2⟩

theorem lt_length_of_lastBy? {key node : String} {placed : TokenWrite × Nat}
    (hlast : lastBy? writes key node = some placed) : placed.2 < writes.length :=
  (List.getElem?_eq_some_iff.mp (getElem?_of_lastBy? hlast).1).1

theorem last?_eq_none_iff {key : String} :
    last? writes key = none ↔ ∀ write ∈ writes, write.key ≠ key := by
  simp [last?]

theorem lastBy?_eq_none_iff {key node : String} :
    lastBy? writes key node = none ↔ ∀ write ∈ writes, ¬ (write.key = key ∧ write.node = node) := by
  induction writes using List.reverseRecOn with
  | nil => simp [lastBy?]
  | append_singleton earlier write ih =>
    rw [lastBy?_concat]
    by_cases hsame : write.key = key ∧ write.node = node
    · rw [if_pos hsame]
      refine iff_of_false (Option.some_ne_none _) fun hnone ↦ ?_
      exact hnone write (List.mem_append_right _ List.mem_cons_self) hsame
    · rw [if_neg hsame, ih, List.forall_mem_append, List.forall_mem_singleton]
      exact (and_iff_left hsame).symm

section

variable (token : WorkflowToken) (key value node : String)

/-- A write takes its node's entry under its key away and adds one behind the others. -/
theorem all_put (other : String) :
    (token.put key value node).all other =
      if other = key then
        ((token.all key).filter fun written ↦ written.node ≠ node) ++ [⟨node, value⟩]
      else token.all other := by
  rw [all, put, SortedMap.get?_insert]
  by_cases hother : other = key
  · simp [hother]
  · simp [hother, all]

theorem get?_put (other : String) :
    (token.put key value node).get? other =
      if other = key then some value else token.get? other := by
  rw [get?, all_put]
  by_cases hother : other = key
  · simp [hother]
  · simp [hother, get?]

/-- Without the entries of one node, the others find what they found. -/
theorem find?_others (entries : List NodeValue) (node name : String) :
    (entries.filter fun written ↦ written.node ≠ node).find? (fun written ↦ written.node = name) =
      if node = name then none else entries.find? fun written ↦ written.node = name := by
  by_cases hname : node = name
  · subst hname
    rw [if_pos rfl, List.find?_eq_none]
    intro written hwritten
    simpa using (List.mem_filter.mp hwritten).2
  · rw [if_neg hname, List.find?_filter]
    refine congrArg (List.find? · entries) (funext fun written ↦ ?_)
    by_cases hwritten : written.node = name
    · simp [hwritten, Ne.symm hname]
    · simp [hwritten]

theorem getFromNode?_put (other name : String) :
    (token.put key value node).getFromNode? other name =
      if key = other ∧ node = name then some value else token.getFromNode? other name := by
  rw [getFromNode?, all_put]
  by_cases hother : other = key
  · subst hother
    rw [if_pos rfl, List.find?_append, find?_others]
    by_cases hname : node = name
    · simp [hname]
    · simp [hname, getFromNode?]
  · simp [hother, Ne.symm hother, getFromNode?]

theorem mem_keys_put (other : String) :
    other ∈ (token.put key value node).keys ↔ other = key ∨ other ∈ token.keys := by
  rw [keys, keys, SortedMap.mem_keys_iff, SortedMap.mem_keys_iff, put, SortedMap.contains_insert,
    Bool.or_eq_true, decide_eq_true_iff, Std.LawfulEqCmp.compare_eq_iff_eq]

end

/-! ### What is kept -/

/-- The entry of a write. -/
def entryOf (placed : TokenWrite × Nat) : NodeValue := ⟨placed.1.node, placed.1.value⟩

/-- The last writes of the nodes under a key, in the order of their places. -/
structure LastWrites (writes : List TokenWrite) (key : String)
    (placed : List (TokenWrite × Nat)) : Prop where
  ordered : placed.Pairwise fun first second ↦ first.2 < second.2
  mem_iff : ∀ each, each ∈ placed ↔ lastBy? writes key each.1.node = some each

/-- A token holds what some writes have left: under each key an entry for the last write of each
node, in the order of these writes. The last of them all is the value of the key, a node finds its
own last one, and the keys are those that were written to, in byte order. -/
structure Keeps (token : WorkflowToken) (writes : List TokenWrite) : Prop where
  all : ∀ key, ∃ placed, token.all key = placed.map entryOf ∧ LastWrites writes key placed
  get? : ∀ key, token.get? key = (last? writes key).map (·.value)
  getFromNode? : ∀ key node, token.getFromNode? key node = (lastBy? writes key node).map (·.1.value)
  mem_keys : ∀ key, key ∈ token.keys ↔ ∃ write ∈ writes, write.key = key

/-- A write under another key leaves the last writes as they were. -/
theorem LastWrites.concat_of_ne {key : String} {placed : List (TokenWrite × Nat)}
    (hlast : LastWrites writes key placed) (hkey : write.key ≠ key) :
    LastWrites (writes ++ [write]) key placed where
  ordered := hlast.ordered
  mem_iff each := by
    rw [hlast.mem_iff, lastBy?_concat, if_neg fun hsame ↦ hkey hsame.1]

/-- A write under the key is the last one of its node from now on. -/
theorem LastWrites.concat {placed : List (TokenWrite × Nat)}
    (hlast : LastWrites writes write.key placed) :
    LastWrites (writes ++ [write]) write.key
      ((placed.filter fun each ↦ each.1.node ≠ write.node) ++ [(write, writes.length)]) where
  ordered := by
    refine List.pairwise_append.mpr ⟨hlast.ordered.filter _, List.pairwise_singleton .., ?_⟩
    intro each heach new hnew
    obtain rfl := List.mem_singleton.mp hnew
    exact lt_length_of_lastBy? ((hlast.mem_iff each).mp (List.mem_filter.mp heach).1)
  mem_iff each := by
    rw [List.mem_append, List.mem_filter, List.mem_singleton, hlast.mem_iff, lastBy?_concat]
    by_cases hnode : write.node = each.1.node
    · simp [hnode, eq_comm]
    · have hother : each ≠ (write, writes.length) := by
        rintro rfl
        exact hnode rfl
      simp [hnode, Ne.symm hnode, hother]

theorem keeps_empty : empty.Keeps [] where
  all key := ⟨[], rfl, .nil, fun each ↦ by simp [lastBy?]⟩
  get? key := rfl
  getFromNode? key node := rfl
  mem_keys key := by simp [keys, empty, SortedMap.keys, EmptyCollection.emptyCollection,
    SortedMap.empty]

/-- One more write. -/
theorem Keeps.put {token : WorkflowToken} (hkeeps : token.Keeps writes) (write : TokenWrite) :
    (token.put write.key write.value write.node).Keeps (writes ++ [write]) where
  all key := by
    rw [all_put]
    by_cases hkey : key = write.key
    · subst hkey
      obtain ⟨placed, hall, hlast⟩ := hkeeps.all write.key
      refine ⟨_, ?_, hlast.concat⟩
      rw [if_pos rfl, hall, List.map_append, List.filter_map]
      rfl
    · obtain ⟨placed, hall, hlast⟩ := hkeeps.all key
      exact ⟨placed, by rw [if_neg hkey, hall], hlast.concat_of_ne (Ne.symm hkey)⟩
  get? key := by
    rw [get?_put, last?_concat, hkeeps.get?]
    by_cases hkey : key = write.key
    · simp [hkey]
    · simp [hkey, Ne.symm hkey]
  getFromNode? key node := by
    rw [getFromNode?_put, lastBy?_concat, hkeeps.getFromNode?]
    split <;> rfl
  mem_keys key := by
    rw [mem_keys_put, hkeeps.mem_keys]
    simp [or_and_right, exists_or, or_comm, eq_comm]

/-- What some writes on an empty token have left. -/
theorem keeps_writeAll (writes : List TokenWrite) : (empty.writeAll writes).Keeps writes := by
  induction writes using List.reverseRecOn with
  | nil => exact keeps_empty
  | append_singleton earlier write ih =>
    rw [writeAll_append]
    exact ih.put write

/-- The keys are in byte order, each there once. -/
theorem ascending_keys (token : WorkflowToken) :
    token.keys.Pairwise fun first second ↦
      compare (Text.utf8 first) (Text.utf8 second) = .lt :=
  (SortedMap.pairwise_keys token.entries).imp fun {first second} hlt ↦
    (Text.compare_utf8 first second).trans hlt

/-- Writes to other keys leave all that a key shows. -/
theorem writeAll_of_ne (token : WorkflowToken) {key : String} {others : List TokenWrite}
    (hothers : ∀ write ∈ others, write.key ≠ key) :
    (token.writeAll others).all key = token.all key ∧
      (token.writeAll others).get? key = token.get? key ∧
      (∀ node, (token.writeAll others).getFromNode? key node = token.getFromNode? key node) ∧
      (key ∈ (token.writeAll others).keys ↔ key ∈ token.keys) := by
  induction others generalizing token with
  | nil => exact ⟨rfl, rfl, fun _ ↦ rfl, Iff.rfl⟩
  | cons write rest ih =>
    obtain ⟨hwrite, hrest⟩ := List.forall_mem_cons.mp hothers
    obtain ⟨hall, hget, hnode, hkeys⟩ := ih (token.put write.key write.value write.node) hrest
    rw [all_put, if_neg (Ne.symm hwrite)] at hall
    rw [get?_put, if_neg (Ne.symm hwrite)] at hget
    rw [mem_keys_put, or_iff_right (Ne.symm hwrite)] at hkeys
    refine ⟨hall, hget, fun node ↦ (hnode node).trans ?_, hkeys⟩
    rw [getFromNode?_put, if_neg fun hsame ↦ hwrite hsame.1]

end WorkflowToken

end RunLedger
