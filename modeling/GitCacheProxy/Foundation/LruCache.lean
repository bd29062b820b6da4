import Mathlib.Algebra.BigOperators.Group.List.Basic
import Mathlib.Data.List.Nodup
import Mathlib.Data.List.Perm.Lattice

/-!
# Caches in access order

A least-recently-used map is a list of entries, the most recently used first,
in which no key occurs twice.  What a key is bound to after each operation is
one lemma per operation (`peek_put`, `peek_promote`, `peek_pop`, `peek_update`,
`peek_popLru`).

The second half weighs a cache: every operation changes the sum of the weights
of the entries by exactly the entry it touches.  A program that keeps such a sum
incrementally is correct by these lemmas, whatever the weights add up in.
-/

universe u v w

/-- A map from keys to values kept in access order, most recently used first. -/
structure LruCache (κ : Type u) (ν : Type v) where
  entries : List (κ × ν)
  nodup : (entries.map Prod.fst).Nodup

namespace LruCache

variable {κ : Type u} {ν : Type v}

/-- The tracked keys, most recently used first. -/
def keys (cache : LruCache κ ν) : List κ := cache.entries.map Prod.fst

/-- The number of tracked entries. -/
def len (cache : LruCache κ ν) : ℕ := cache.entries.length

def empty : LruCache κ ν := ⟨[], by simp⟩

/-- The least recently used entry, and the cache without it. -/
def popLru (cache : LruCache κ ν) : Option ((κ × ν) × LruCache κ ν) :=
  if occupied : cache.entries ≠ [] then
    some (cache.entries.getLast occupied,
      ⟨cache.entries.dropLast,
        cache.nodup.sublist ((List.dropLast_sublist cache.entries).map Prod.fst)⟩)
  else none

theorem popLru_eq_none {cache : LruCache κ ν} (exhausted : cache.popLru = none) :
    cache.entries = [] := by
  unfold popLru at exhausted
  split at exhausted
  · cases exhausted
  · rename_i vacant
    simpa using vacant

theorem entries_of_popLru {cache rest : LruCache κ ν} {entry : κ × ν}
    (popped : cache.popLru = some (entry, rest)) :
    cache.entries = rest.entries ++ [entry] := by
  unfold popLru at popped
  split at popped
  · rename_i occupied
    cases popped
    exact (List.dropLast_concat_getLast occupied).symm
  · cases popped

theorem len_of_popLru {cache rest : LruCache κ ν} {entry : κ × ν}
    (popped : cache.popLru = some (entry, rest)) : cache.len = rest.len + 1 := by
  simp [len, entries_of_popLru popped]

/-- The sum of the weights of the tracked values. -/
def weigh {M : Type w} [AddCommMonoid M] (size : ν → M) (cache : LruCache κ ν) : M :=
  (cache.entries.map fun entry => size entry.2).sum

/-- The number of entries is the weight in which every entry counts one. -/
theorem len_eq_weigh (cache : LruCache κ ν) : cache.len = cache.weigh fun _ => 1 := by
  simp [len, weigh]

theorem weigh_of_popLru {M : Type w} [AddCommMonoid M] (size : ν → M)
    {cache rest : LruCache κ ν} {entry : κ × ν} (popped : cache.popLru = some (entry, rest)) :
    cache.weigh size = rest.weigh size + size entry.2 := by
  simp [weigh, entries_of_popLru popped]

/-! ## The order of use -/

section Recency

/-- The cache lists its keys by last use, the latest first; all uses are before `clock`. -/
structure Ordered (cache : LruCache κ ν) (used : κ → ℕ) (clock : ℕ) : Prop where
  latestFirst : cache.keys.Pairwise fun newer older => used older < used newer
  past : ∀ key ∈ cache.keys, used key < clock

variable {cache rest : LruCache κ ν} {used : κ → ℕ} {clock : ℕ} {entry : κ × ν}

namespace Ordered

theorem empty : (LruCache.empty : LruCache κ ν).Ordered used clock :=
  ⟨List.Pairwise.nil, by simp [keys, LruCache.empty]⟩

/-- Time passes, and nothing that is tracked is used. -/
theorem wait (ordered : cache.Ordered used clock) {used' : κ → ℕ} {clock' : ℕ}
    (same : ∀ key ∈ cache.keys, used' key = used key) (later : clock ≤ clock') :
    cache.Ordered used' clock' := by
  constructor
  · apply ordered.latestFirst.imp_of_mem
    intro newer older newerMem olderMem before
    rwa [same _ newerMem, same _ olderMem]
  · intro key keyMem
    have before := ordered.past key keyMem
    rw [same key keyMem]
    omega

theorem sublist (ordered : cache.Ordered used clock) (fewer : rest.keys.Sublist cache.keys) :
    rest.Ordered used clock :=
  ⟨ordered.latestFirst.sublist fewer, fun key keyMem => ordered.past key (fewer.subset keyMem)⟩

end Ordered

end Recency

variable [DecidableEq κ]

/-- The value of a key; recency is left alone. -/
def peek (cache : LruCache κ ν) (key : κ) : Option ν := cache.entries.lookup key

/-- Remove a key. -/
def pop (cache : LruCache κ ν) (key : κ) : LruCache κ ν where
  entries := cache.entries.filter fun entry => decide (entry.1 ≠ key)
  nodup := cache.nodup.sublist (List.filter_sublist.map Prod.fst)

theorem not_mem_keys_pop (cache : LruCache κ ν) (key : κ) : key ∉ (cache.pop key).keys := by
  simp [keys, pop]

/-- Bind a key and make it the most recently used one. -/
def put (cache : LruCache κ ν) (key : κ) (value : ν) : LruCache κ ν where
  entries := (key, value) :: (cache.pop key).entries
  nodup := List.nodup_cons.mpr ⟨not_mem_keys_pop cache key, (cache.pop key).nodup⟩

/-- Make a key the most recently used one, if it is tracked. -/
def promote (cache : LruCache κ ν) (key : κ) : LruCache κ ν :=
  match cache.peek key with
  | some value => cache.put key value
  | none => cache

/-- Overwrite the value of a tracked key; recency is left alone. -/
def update (cache : LruCache κ ν) (key : κ) (value : ν) : LruCache κ ν where
  entries := cache.entries.map fun entry => if entry.1 = key then (key, value) else entry
  nodup := by
    have sameKeys : (cache.entries.map fun entry =>
        if entry.1 = key then (key, value) else entry).map Prod.fst =
          cache.entries.map Prod.fst := by
      rw [List.map_map]
      refine List.map_congr_left fun entry _ => ?_
      by_cases same : entry.1 = key <;> simp [same]
    rw [sameKeys]
    exact cache.nodup

/-! ## What a key is bound to -/

section Peek

variable {cache rest : LruCache κ ν} {key target : κ} {value : ν} {entry : κ × ν}

@[simp]
theorem peek_empty : (empty : LruCache κ ν).peek target = none := rfl

theorem lookup_cons_of_ne {name : κ} {old : ν} {entries : List (κ × ν)}
    (different : target ≠ name) : ((name, old) :: entries).lookup target = entries.lookup target := by
  have other : (target == name) = false := by simpa using different
  simp only [List.lookup_cons, other]

theorem mem_keys_iff : key ∈ cache.keys ↔ cache.peek key ≠ none := by
  simp only [keys, peek, ne_eq, List.lookup_eq_none_iff, List.mem_map, not_forall]
  constructor
  · rintro ⟨entry, entryMem, rfl⟩
    exact ⟨entry, entryMem, by simp⟩
  · rintro ⟨entry, entryMem, same⟩
    have isKey : key = entry.1 := by simpa using same
    exact ⟨entry, entryMem, isKey.symm⟩

theorem peek_of_mem (entryMem : entry ∈ cache.entries) :
    cache.peek entry.1 = some entry.2 := by
  have distinct := cache.nodup
  simp only [peek]
  revert entryMem distinct
  induction cache.entries with
  | nil => simp
  | cons first rest ih =>
      rcases first with ⟨name, value⟩
      intro entryMem distinct
      rw [List.map_cons, List.nodup_cons] at distinct
      rcases List.mem_cons.mp entryMem with rfl | later
      · simp
      · have fresh : entry.1 ≠ name := by
          rintro same
          exact distinct.1 (List.mem_map.mpr ⟨entry, later, same⟩)
        rw [lookup_cons_of_ne fresh]
        exact ih later distinct.2

@[simp]
theorem peek_pop : (cache.pop key).peek target =
    if target = key then none else cache.peek target := by
  simp only [peek, pop]
  induction cache.entries with
  | nil => simp
  | cons entry rest ih =>
      rcases entry with ⟨name, value⟩
      by_cases isKey : name = key
      · subst isKey
        by_cases isTarget : target = name
        · simpa [isTarget] using ih
        · simpa [isTarget, lookup_cons_of_ne isTarget] using ih
      · by_cases isTarget : target = name
        · subst isTarget
          simp [isKey]
        · simpa [isKey, lookup_cons_of_ne isTarget] using ih

@[simp]
theorem peek_put : (cache.put key value).peek target =
    if target = key then some value else cache.peek target := by
  by_cases same : target = key
  · simp [peek, put, same]
  · have popped : (cache.pop key).peek target = if target = key then none else cache.peek target :=
      peek_pop
    simp only [peek] at popped
    simp [peek, put, lookup_cons_of_ne same, popped, same]

@[simp]
theorem peek_promote : (cache.promote key).peek target = cache.peek target := by
  unfold promote
  split
  · rename_i value found
    rw [peek_put]
    split
    · rename_i same
      rw [same, found]
    · rfl
  · rfl

@[simp]
theorem peek_update : (cache.update key value).peek target =
    if target = key then (cache.peek target).map fun _ => value else cache.peek target := by
  simp only [peek, update]
  induction cache.entries with
  | nil => simp
  | cons entry rest ih =>
      rcases entry with ⟨name, old⟩
      by_cases isKey : name = key
      · subst isKey
        by_cases isTarget : target = name
        · simp [isTarget]
        · simpa [isTarget, lookup_cons_of_ne isTarget] using ih
      · by_cases isTarget : target = name
        · subst isTarget
          simp [isKey]
        · simpa [isKey, lookup_cons_of_ne isTarget] using ih

theorem peek_of_popLru (popped : cache.popLru = some (entry, rest)) :
    cache.peek entry.1 = some entry.2 ∧ rest.peek entry.1 = none := by
  have split := entries_of_popLru popped
  have distinct := cache.nodup
  rw [split, List.map_append, List.nodup_append] at distinct
  have fresh : entry.1 ∉ rest.keys := by
    intro mem
    exact distinct.2.2 _ mem _ (by simp) rfl
  have absent : rest.peek entry.1 = none := by
    simpa [mem_keys_iff] using fresh
  refine ⟨?_, absent⟩
  simp only [peek] at absent
  rcases entry with ⟨name, value⟩
  simp only at absent
  simp [peek, split, List.lookup_append, absent]

theorem peek_popLru (popped : cache.popLru = some (entry, rest)) (target : κ) :
    rest.peek target = if target = entry.1 then none else cache.peek target := by
  have split := entries_of_popLru popped
  by_cases same : target = entry.1
  · rw [if_pos same, same]
    exact (peek_of_popLru popped).2
  · have other : (target == entry.1) = false := by simpa using same
    rcases entry with ⟨name, value⟩
    simp [peek, split, List.lookup_append, List.lookup_cons, other, same]

theorem peek_of_append {last : List (κ × ν)} (split : cache.entries = rest.entries ++ last)
    (target : κ) :
    rest.peek target = if target ∈ last.map Prod.fst then none else cache.peek target := by
  have distinct := cache.nodup
  rw [split, List.map_append, List.nodup_append] at distinct
  split
  · rename_i inLast
    by_contra tracked
    exact distinct.2.2 _ (mem_keys_iff.mpr tracked) _ inLast rfl
  · rename_i notLast
    have absent : last.lookup target = none := by
      rw [List.lookup_eq_none_iff]
      intro entry entryMem
      simp only [ne_eq, bne_iff_ne]
      rintro rfl
      exact notLast (List.mem_map.mpr ⟨entry, entryMem, rfl⟩)
    simp [peek, split, List.lookup_append, absent]

end Peek

/-! ## Weighing a cache -/

section Weigh

variable {M : Type w} [AddCommMonoid M] (size : ν → M)

variable {cache : LruCache κ ν} {key : κ} {value old : ν}

theorem weigh_eq_add_pop (cache : LruCache κ ν) (key : κ) :
    cache.weigh size = (cache.peek key).elim 0 size + (cache.pop key).weigh size := by
  have distinct := cache.nodup
  simp only [weigh, peek, pop]
  induction entries : cache.entries generalizing cache with
  | nil => simp
  | cons entry tail ih =>
      rcases entry with ⟨name, value⟩
      rw [entries, List.map_cons, List.nodup_cons] at distinct
      have tailStep := ih ⟨tail, distinct.2⟩ distinct.2 rfl
      by_cases isKey : name = key
      · subst isKey
        have untracked : tail.lookup name = none := by
          rw [List.lookup_eq_none_iff]
          intro entry entryMem
          simp only [ne_eq, bne_iff_ne]
          intro same
          exact distinct.1 (List.mem_map.mpr ⟨entry, entryMem, same.symm⟩)
        rw [untracked] at tailStep
        simp [tailStep]
      · have other : (key == name) = false := by simpa using Ne.symm isKey
        simp only [List.map_cons, List.sum_cons, List.lookup_cons, other, tailStep, ne_eq,
          isKey, not_false_eq_true, decide_true, List.filter_cons_of_pos]
        exact add_left_comm _ _ _

theorem weigh_put :
    (cache.put key value).weigh size = size value + (cache.pop key).weigh size := by
  simp [weigh, put]

@[simp]
theorem weigh_promote : (cache.promote key).weigh size = cache.weigh size := by
  unfold promote
  split
  · rename_i value found
    rw [weigh_put, weigh_eq_add_pop size cache key, found]
    rfl
  · rfl

theorem pop_update : (cache.update key value).pop key = cache.pop key := by
  have sameEntries : ((cache.update key value).pop key).entries = (cache.pop key).entries := by
    simp only [pop, update]
    induction cache.entries with
    | nil => rfl
    | cons entry tail ih =>
        by_cases isKey : entry.1 = key
        · simpa [isKey] using ih
        · simpa [isKey] using ih
  cases h : (cache.update key value).pop key
  cases h' : cache.pop key
  simp_all

theorem weigh_update (tracked : cache.peek key = some old) :
    (cache.update key value).weigh size = size value + (cache.pop key).weigh size := by
  rw [weigh_eq_add_pop size _ key, pop_update, peek_update, tracked]
  simp

end Weigh

/-! ## What is a use -/

section Recency

variable {cache : LruCache κ ν} {used : κ → ℕ} {clock : ℕ} {key : κ} {value : ν}

theorem keys_update : (cache.update key value).keys = cache.keys := by
  simp only [keys, update, List.map_map]
  apply List.map_congr_left
  intro entry _
  by_cases same : entry.1 = key <;> simp [same]

theorem keys_pop_sublist : (cache.pop key).keys.Sublist cache.keys :=
  List.filter_sublist.map Prod.fst

namespace Ordered

theorem update (ordered : cache.Ordered used clock) :
    (cache.update key value).Ordered used clock :=
  ordered.sublist (by rw [keys_update])

theorem put (ordered : cache.Ordered used clock) :
    (cache.put key value).Ordered (fun other => if other = key then clock else used other)
      (clock + 1) := by
  have others : (cache.pop key).Ordered used clock := ordered.sublist keys_pop_sublist
  have distinct : ∀ other ∈ (cache.pop key).keys, other ≠ key := by
    rintro other otherMem rfl
    exact not_mem_keys_pop cache other otherMem
  have kept : (cache.pop key).Ordered (fun other => if other = key then clock else used other)
      (clock + 1) :=
    others.wait (fun other otherMem => if_neg (distinct other otherMem)) (Nat.le_succ clock)
  constructor
  · apply List.Pairwise.cons ?_ kept.latestFirst
    intro other otherMem
    rw [if_pos rfl, if_neg (distinct other otherMem)]
    exact others.past other otherMem
  · intro other otherMem
    rcases List.mem_cons.mp otherMem with isKey | otherMem
    · rw [if_pos isKey]
      exact Nat.lt_succ_self clock
    · exact kept.past other otherMem

theorem promote (ordered : cache.Ordered used clock) (tracked : cache.peek key ≠ none) :
    (cache.promote key).Ordered (fun other => if other = key then clock else used other)
      (clock + 1) := by
  unfold LruCache.promote
  split
  · exact ordered.put
  · rename_i absent
    exact absurd absent tracked

end Ordered

end Recency

end LruCache
