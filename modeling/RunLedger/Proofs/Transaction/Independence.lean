import Mathlib.Data.List.Induction
import Mathlib.Data.List.Pairwise
import RunLedger.Proofs.Transaction.Footprint

/-!
# Operations that do not touch each other

Two operations are independent on some contents if neither changes there what the other looks at or
changes (`Independent`). Then it does not matter which of them comes first: their effects commute
(`Independent.comm`), and each does behind the other what it does by itself (`transacted_eq`). So
the transactions of pairwise independent operations, one after the other, leave the same contents in
any order (`foldl_transacted`, `foldl_ownEffect_perm`).
-/

set_option autoImplicit false

namespace RunLedger

variable {ω α : Type}

/-- Calls that change no key in common can be made in either order. -/
theorem effectOf_comm {first second : List Call}
    (hapart : ∀ key, Changed first key → ¬ Changed second key) (contents : Contents) :
    effectOf second (effectOf first contents) = effectOf first (effectOf second contents) := by
  refine SortedMap.ext_get? fun key ↦ ?_
  by_cases hfirst : Changed first key
  · rw [get?_effectOf (hapart key hfirst)]
    exact get?_effectOf_of_changed hfirst _ _
  · rw [get?_effectOf hfirst]
    by_cases hsecond : Changed second key
    · exact get?_effectOf_of_changed hsecond _ _
    · rw [get?_effectOf hsecond, get?_effectOf hsecond, get?_effectOf hfirst]

section

variable (program : ω → Script α) (footprint : ω → Key → Prop) (base : Contents)

/-- The calls that an operation makes on some contents by itself. -/
def ownCalls (operation : ω) : List Call := ((program operation).perform base).calls

/-- The outcome of an operation on some contents by itself. -/
def ownOutcome (operation : ω) : Except Failure α := ((program operation).perform base).outcome

/-- What the calls that an operation makes by itself make of contents, if it has a result. -/
def ownEffect (contents : Contents) (operation : ω) : Contents :=
  match ownOutcome program base operation with
  | .ok _ => effectOf (ownCalls program base operation) contents
  | .error _ => contents

/-- An operation changes nothing that another looks at or changes. -/
def Spares (first second : ω) : Prop :=
  ∀ key, Changed (ownCalls program base first) key →
    ¬ footprint second key ∧ ¬ Changed (ownCalls program base second) key

/-- Neither of two operations changes what the other looks at or changes. -/
def Independent (first second : ω) : Prop :=
  Spares program footprint base first second ∧ Spares program footprint base second first

end

section

variable {program : ω → Script α} {footprint : ω → Key → Prop} {base : Contents}

theorem get?_ownEffect {operation : ω} {key : Key}
    (hkey : ¬ Changed (ownCalls program base operation) key) (contents : Contents) :
    (ownEffect program base contents operation).get? key = contents.get? key := by
  unfold ownEffect
  split
  · exact get?_effectOf hkey contents
  · rfl

/-- It does not matter which of two independent operations comes first. -/
theorem Independent.comm {first second : ω}
    (hindependent : Independent program footprint base first second) (contents : Contents) :
    ownEffect program base (ownEffect program base contents first) second =
      ownEffect program base (ownEffect program base contents second) first := by
  unfold ownEffect
  split <;> split
  · exact effectOf_comm (fun key hkey ↦ (hindependent.1 key hkey).2) contents
  all_goals rfl

/-- Operations leave what an operation looks at that is independent of each of them. -/
theorem get?_foldl_ownEffect {operation : ω} {others : List ω}
    (hothers : ∀ other ∈ others, Independent program footprint base other operation) {key : Key}
    (hread : footprint operation key) (contents : Contents) :
    (others.foldl (ownEffect program base) contents).get? key = contents.get? key :=
  List.foldlRecOn (motive := fun after : Contents ↦ after.get? key = contents.get? key) others
    (ownEffect program base) rfl fun after hafter other hother ↦
      (get?_ownEffect (fun hchanged ↦ ((hothers other hother).1 key hchanged).1 hread) after).trans
        hafter

/-- Where contents agree on what an operation looks at, its transaction is as on the others. -/
theorem transacted_eq {mayDelete : Key → Prop} {operation : ω}
    (hconfined : (program operation).Confined (footprint operation) mayDelete)
    {contents : Contents}
    (hagree : ∀ key, footprint operation key → contents.get? key = base.get? key) :
    (program operation).transacted contents =
      (ownOutcome program base operation, ownEffect program base contents operation) := by
  unfold Script.transacted ownEffect
  rw [hconfined.perform_eq hagree]
  unfold ownOutcome ownCalls
  cases ((program operation).perform base).outcome <;> rfl

/-- Transactions of pairwise independent operations, one after the other. -/
theorem foldl_transacted {mayDelete : Key → Prop} {members : List ω}
    (hconfined : ∀ operation ∈ members,
      (program operation).Confined (footprint operation) mayDelete)
    (hmembers : members.Pairwise (Independent program footprint base)) :
    members.foldl (fun contents operation ↦ ((program operation).transacted contents).2) base =
      members.foldl (ownEffect program base) base := by
  induction members using List.reverseRecOn with
  | nil => rfl
  | append_singleton earlier last ih =>
    obtain ⟨hearlier, -, hlast⟩ := List.pairwise_append.mp hmembers
    have hbefore := ih (fun operation hmem ↦ hconfined operation (List.mem_append_left _ hmem))
      hearlier
    rw [List.foldl_append, List.foldl_append, hbefore, List.foldl_cons, List.foldl_nil,
      List.foldl_cons, List.foldl_nil]
    refine congrArg Prod.snd (transacted_eq
      (hconfined last (List.mem_append_right _ (List.mem_singleton_self last)))
      fun key hread ↦ get?_foldl_ownEffect (fun other hother ↦ ?_) hread base)
    exact hlast other hother last (List.mem_singleton_self last)

/-- Pairwise independent operations may come in any order. -/
theorem foldl_ownEffect_perm {first second : List ω} (hperm : first.Perm second)
    (hindependent : first.Pairwise (Independent program footprint base)) (contents : Contents) :
    first.foldl (ownEffect program base) contents =
      second.foldl (ownEffect program base) contents := by
  let commute (one other : ω) : Prop := ∀ contents,
    ownEffect program base (ownEffect program base contents one) other =
      ownEffect program base (ownEffect program base contents other) one
  have : Std.Symm commute := ⟨fun _ _ hcommute contents ↦ (hcommute contents).symm⟩
  have hcommute : first.Pairwise commute := hindependent.imp fun hpair ↦ hpair.comm
  exact hperm.foldl_eq' (fun one hone other hother ↦
    hcommute.forall_of_forall (fun _ _ _ ↦ rfl) hone hother) contents

end

end RunLedger
