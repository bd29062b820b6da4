import Mathlib.Order.Lattice
import Mathlib.Data.List.Basic

/-!
# Maps as sorted lists

A finite map is the list of its entries in the order of the keys, as an ordered tree lists them.
With distinct sorted keys there is one list for each map (`eq_of_lookup`).
-/

namespace SortedMap

universe u v

variable {κ : Type u} {β : Type v} [LinearOrder κ]

/-- The keys increase strictly. -/
def Sorted (entries : List (κ × β)) : Prop := entries.Pairwise fun first second =>
  first.1 < second.1

def insert (key : κ) (value : β) : List (κ × β) → List (κ × β)
  | [] => [(key, value)]
  | entry :: entries =>
      if key < entry.1 then (key, value) :: entry :: entries
      else if key = entry.1 then (key, value) :: entries
      else entry :: insert key value entries

def erase (key : κ) (entries : List (κ × β)) : List (κ × β) :=
  entries.filter fun entry => decide (entry.1 ≠ key)

/-- Change the value of a key that is there. -/
def modify (key : κ) (change : β → β) (entries : List (κ × β)) : List (κ × β) :=
  entries.map fun entry => if entry.1 = key then (entry.1, change entry.2) else entry

variable {key other : κ} {value : β} {change : β → β} {entries first second : List (κ × β)}

section Lookup

variable [BEq κ] [LawfulBEq κ]

theorem lookup_cons (entry : κ × β) (entries : List (κ × β)) (other : κ) :
    (entry :: entries).lookup other =
      if other = entry.1 then some entry.2 else entries.lookup other := by
  rw [List.lookup_cons]
  by_cases same : other = entry.1
  · simp [same]
  · rw [beq_eq_false_iff_ne.mpr same, if_neg same]

/-! ## Looking up -/

theorem lookup_insert (key : κ) (value : β) (entries : List (κ × β)) (other : κ) :
    (insert key value entries).lookup other =
      if other = key then some value else entries.lookup other := by
  induction entries with
  | nil => rw [insert, lookup_cons]
  | cons entry entries ih =>
      rw [insert]
      split
      · rw [lookup_cons]
      split
      · rename_i same
        rw [lookup_cons, lookup_cons, ← same]
        split
        · rfl
        · rfl
      · rename_i different
        rw [lookup_cons, lookup_cons, ih]
        by_cases here : other = entry.1
        · have apart : ¬other = key := fun same => different (same.symm.trans here)
          rw [if_pos here, if_neg apart, if_pos here]
        · rw [if_neg here, if_neg here]

theorem lookup_erase (key : κ) (entries : List (κ × β)) (other : κ) :
    (erase key entries).lookup other = if other = key then none else entries.lookup other := by
  induction entries with
  | nil => simp [erase]
  | cons entry entries ih =>
      rw [erase, List.filter_cons]
      split
      · rename_i kept
        rw [decide_eq_true_eq] at kept
        rw [lookup_cons, lookup_cons, ← erase, ih]
        by_cases here : other = entry.1
        · have apart : ¬other = key := fun same => kept (here.symm.trans same)
          rw [if_pos here, if_neg apart, if_pos here]
        · rw [if_neg here, if_neg here]
      · rename_i gone
        rw [decide_eq_true_eq, not_not] at gone
        rw [← erase, ih, lookup_cons, gone]
        split
        · rfl
        · rfl

theorem lookup_modify (key : κ) (change : β → β) (entries : List (κ × β)) (other : κ) :
    (modify key change entries).lookup other =
      if other = key then (entries.lookup other).map change else entries.lookup other := by
  induction entries with
  | nil => simp [modify]
  | cons entry entries ih =>
      rw [modify, List.map_cons, ← modify, lookup_cons, lookup_cons, ih]
      by_cases here : other = entry.1
      · by_cases same : entry.1 = key
        · simp [here, same]
        · simp [here, same]
      · by_cases same : entry.1 = key
        · simp [same, same ▸ here]
        · simp [here, same]

end Lookup

/-! ## Order -/

theorem fst_mem_insert {entry : κ × β} (entryMem : entry ∈ insert key value entries) :
    entry.1 = key ∨ entry ∈ entries := by
  induction entries with
  | nil =>
      rw [insert, List.mem_singleton] at entryMem
      exact Or.inl (congrArg Prod.fst entryMem)
  | cons head entries ih =>
      rw [insert] at entryMem
      split at entryMem
      · rcases List.mem_cons.mp entryMem with rfl | old
        · exact Or.inl rfl
        · exact Or.inr old
      split at entryMem
      · rcases List.mem_cons.mp entryMem with rfl | old
        · exact Or.inl rfl
        · exact Or.inr (List.mem_cons_of_mem _ old)
      · rcases List.mem_cons.mp entryMem with rfl | later
        · exact Or.inr List.mem_cons_self
        · exact (ih later).imp_right (List.mem_cons_of_mem _)

/-- Old values and the new one. -/
theorem forall_insert {P : β → Prop} (new : P value) (old : ∀ entry ∈ entries, P entry.2) :
    ∀ entry ∈ insert key value entries, P entry.2 := by
  induction entries with
  | nil =>
      intro entry entryMem
      rw [insert, List.mem_singleton] at entryMem
      rw [entryMem]
      exact new
  | cons head entries ih =>
      rcases List.forall_mem_cons.mp old with ⟨oldHead, oldRest⟩
      rw [insert]
      split
      · exact List.forall_mem_cons.mpr ⟨new, old⟩
      split
      · exact List.forall_mem_cons.mpr ⟨new, oldRest⟩
      · exact List.forall_mem_cons.mpr ⟨oldHead, ih oldRest⟩

theorem Sorted.insert (sorted : Sorted entries) (key : κ) (value : β) :
    Sorted (insert key value entries) := by
  induction entries with
  | nil => exact List.pairwise_singleton _ _
  | cons entry entries ih =>
      rcases List.pairwise_cons.mp sorted with ⟨least, rest⟩
      rw [SortedMap.insert]
      split
      · rename_i before
        refine List.pairwise_cons.mpr ⟨?_, sorted⟩
        intro other otherMem
        rcases List.mem_cons.mp otherMem with rfl | later
        · exact before
        · exact lt_trans before (least other later)
      split
      · rename_i same
        refine List.pairwise_cons.mpr ⟨?_, rest⟩
        intro other otherMem
        change key < other.1
        rw [same]
        exact least other otherMem
      · rename_i notBefore different
        refine List.pairwise_cons.mpr ⟨?_, ih rest⟩
        intro other otherMem
        rcases fst_mem_insert otherMem with same | old
        · rw [same]
          exact lt_of_le_of_ne (not_lt.mp notBefore) (Ne.symm different)
        · exact least other old

theorem Sorted.erase (sorted : Sorted entries) (key : κ) : Sorted (erase key entries) :=
  List.Pairwise.filter _ sorted

theorem Sorted.modify (sorted : Sorted entries) (key : κ) (change : β → β) :
    Sorted (modify key change entries) := by
  rw [Sorted, SortedMap.modify, List.pairwise_map]
  refine sorted.imp ?_
  intro one two before
  split
  · split
    · exact before
    · exact before
  · split
    · exact before
    · exact before

section Lookup

variable [BEq κ] [LawfulBEq κ]

theorem lookup_of_mem (sorted : Sorted entries) {entry : κ × β} (entryMem : entry ∈ entries) :
    entries.lookup entry.1 = some entry.2 := by
  induction entries with
  | nil => cases entryMem
  | cons head entries ih =>
      rcases List.pairwise_cons.mp sorted with ⟨least, rest⟩
      rw [lookup_cons]
      rcases List.mem_cons.mp entryMem with rfl | later
      · rw [if_pos rfl]
      · rw [if_neg (ne_of_gt (least entry later)), ih rest later]

theorem mem_of_lookup (found : entries.lookup key = some value) : (key, value) ∈ entries := by
  induction entries with
  | nil => cases found
  | cons head entries ih =>
      rw [lookup_cons] at found
      split at found
      · rename_i same
        rw [Option.some.injEq] at found
        rw [same, ← found]
        exact List.mem_cons_self
      · exact List.mem_cons_of_mem _ (ih found)

omit [BEq κ] [LawfulBEq κ] in
theorem nodup_of_sorted (sorted : Sorted entries) : entries.Nodup := by
  refine List.Pairwise.imp ?_ sorted
  rintro one two before rfl
  exact lt_irrefl _ before

/-- A map has one list. -/
theorem eq_of_lookup (sortedFirst : Sorted first) (sortedSecond : Sorted second)
    (same : ∀ key, first.lookup key = second.lookup key) : first = second := by
  have perm : first.Perm second := by
    rw [List.perm_ext_iff_of_nodup (nodup_of_sorted sortedFirst) (nodup_of_sorted sortedSecond)]
    intro entry
    constructor
    · intro entryMem
      apply mem_of_lookup
      rw [← same, lookup_of_mem sortedFirst entryMem]
    · intro entryMem
      apply mem_of_lookup
      rw [same, lookup_of_mem sortedSecond entryMem]
  exact perm.eq_of_pairwise (fun _ _ _ _ before after => absurd after (lt_asymm before))
    sortedFirst sortedSecond

end Lookup

end SortedMap
