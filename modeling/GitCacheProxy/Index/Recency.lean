import GitCacheProxy.Index.Accounting
import GitCacheProxy.Index.Maintenance

/-!
# Eviction order

What an entry's last use is, independently of the cache: a clock ticks with
every call, and `used` records when each name was used last.  The cache lists
its keys by this clock throughout a run, so what `take_victims` pops from its
end is the least recently used part.
-/

namespace GitCacheProxy.Index

/-- When each name was used last. -/
structure Usage where
  clock : ℕ
  used : Text → ℕ

/-- The names that a call uses: a touch counts only if the name is tracked. -/
def Op.uses (index : CacheIndex) : Op → Text → Bool
  | .touch name, key => decide (key = name ∧ index.inner.cache.peek name ≠ none)
  | .markChanged name, key | .recordBlob name _, key => decide (key = name)
  | _, _ => false

namespace Usage

/-- Of two names the one that was modified last counts as used later. -/
def ByMtime (usage : Usage) (entries : List Scanned) : Prop :=
  ∀ older ∈ entries, ∀ newer ∈ entries, older.mtime < newer.mtime →
    (∀ entry ∈ entries, entry.name = older.name → entry.mtime ≤ older.mtime) →
      usage.used older.name < usage.used newer.name

/-- One tick, at which `names` are used. -/
def tick (usage : Usage) (names : Text → Bool) : Usage where
  clock := usage.clock + 1
  used := fun key => if names key then usage.clock else usage.used key

/-- The scan counts as a use of each entry, in the order of modification. -/
def startup (entries : List Scanned) : Usage :=
  entries.foldl (fun usage entry => usage.tick fun key => decide (key = entry.name))
    ⟨0, fun _ => 0⟩

theorem startup_concat (init : List Scanned) (last : Scanned) :
    startup (init ++ [last]) = (startup init).tick fun key => decide (key = last.name) := by
  simp [startup]

/-- The last uses after a sequence of calls. -/
def run (usage : Usage) (index : CacheIndex) : List Op → Usage
  | [] => usage
  | op :: rest => (usage.tick (op.uses index)).run (index.apply op) rest

end Usage

/-- What some entries take up, by the index. -/
def CacheIndex.freed (index : CacheIndex) (names : List Text) : UInt64 :=
  (names.map fun name => (index.inner.cache.peek name).getD 0).sum

/-- The tracked names in the order of their last use, oldest first; `victims` is the shortest
front part of it that brings the total under the cap. -/
structure TakesOldest (index : CacheIndex) (used : Text → ℕ) (after : CacheIndex)
    (victims order : List Text) : Prop where
  tracked : ∀ name, name ∈ order ↔ index.Tracks name
  oldestFirst : order.Pairwise fun earlier later => used earlier < used later
  front : victims <+: order
  total : after.inner.total = index.inner.total - index.freed victims
  enough : after.inner.total ≤ index.maxBytes ∨ victims = order
  least : ∀ fewer, fewer <+: victims → fewer ≠ victims →
    index.maxBytes < index.inner.total - index.freed fewer
  putBack : ∀ last, victims.getLast? = some last →
    index.maxBytes < after.inner.total + index.freed [last]
  survivors : ∀ name, after.inner.cache.peek name =
    if name ∈ victims then none else index.inner.cache.peek name
  later : ∀ victim ∈ victims, ∀ name, after.Tracks name → used victim < used name

/-- What a sequence of calls does to recency, and what `take_victims` makes of it. -/
structure EvictsLru (index : CacheIndex) (used : Text → ℕ) : Prop where
  victims : ∃ order,
    TakesOldest index used index.takeVictims.1 index.takeVictims.2 order
  measured : ∀ name size, (index.setSize name size).inner.cache.keys = index.inner.cache.keys
  untracked : ∀ name, ¬index.Tracks name → index.touch name = index
  undisturbed : index.inner.total ≤ index.maxBytes → index.takeVictims = (index, [])

/-! ## What is popped -/

/-- What the loop of `take_victims` pops, from the end of the cache. -/
structure Pops (maxBytes : UInt64) (before after : Inner) (popped : List (Text × UInt64)) :
    Prop where
  split : before.cache.entries = after.cache.entries ++ popped.reverse
  total : after.total = before.total - (popped.map Prod.snd).sum
  least : ∀ fewer more, popped = fewer ++ more → more ≠ [] →
    maxBytes < before.total - (fewer.map Prod.snd).sum

theorem Pops.nothing (maxBytes : UInt64) (inner : Inner) : Pops maxBytes inner inner [] := by
  refine ⟨by simp, by simp, ?_⟩
  intro fewer more isNil nonempty
  exact absurd (List.append_eq_nil_iff.mp isNil.symm).2 nonempty

theorem exists_pops (maxBytes : UInt64) (fuel : ℕ) (inner : Inner) :
    ∃ popped, (popVictims maxBytes fuel inner).2 = popped.map Prod.fst ∧
      Pops maxBytes inner (popVictims maxBytes fuel inner).1 popped := by
  induction fuel generalizing inner with
  | zero => exact ⟨[], rfl, .nothing maxBytes inner⟩
  | succ fuel ih =>
      unfold popVictims
      split
      · rename_i tooMuch
        split
        · exact ⟨[], rfl, .nothing maxBytes inner⟩
        · rename_i name size rest popLru
          rcases ih { inner with cache := rest, total := inner.total - size } with
            ⟨popped, names, pops⟩
          refine ⟨(name, size) :: popped, congrArg (name :: ·) names, ?_, ?_, ?_⟩
          · have split := pops.split
            simp only at split
            rw [LruCache.entries_of_popLru popLru, split]
            simp
          · rw [pops.total, List.map_cons, List.sum_cons, ← sub_sub]
          · intro fewer more parts nonempty
            cases fewer with
            | nil => simpa using tooMuch
            | cons first fewer =>
                rw [List.cons_append, List.cons.injEq] at parts
                rw [← parts.1, List.map_cons, List.sum_cons, ← sub_sub]
                exact pops.least fewer more parts.2 nonempty
      · exact ⟨[], rfl, .nothing maxBytes inner⟩

/-! ## The cache is in the order of use -/

def Usage.Orders (usage : Usage) (cache : LruCache Text UInt64) : Prop :=
  cache.Ordered usage.used usage.clock

namespace Usage.Orders

variable {usage : Usage} {index : CacheIndex} {cache rest : LruCache Text UInt64}

/-- A call that uses no tracked name, and may drop some. -/
theorem unused {names : Text → Bool} (orders : usage.Orders cache)
    (fewer : rest.keys.Sublist cache.keys) (none : ∀ key ∈ rest.keys, names key = false) :
    (usage.tick names).Orders rest := by
  apply (orders.sublist fewer).wait
  · intro key keyMem
    simp [tick, none key keyMem]
  · exact Nat.le_succ _

theorem put (orders : usage.Orders cache) (name : Text) (size : UInt64) :
    (usage.tick fun key => decide (key = name)).Orders (cache.put name size) := by
  apply (LruCache.Ordered.put orders).wait
  · intro key _
    simp [tick]
  · exact Nat.le_refl _

theorem promote (orders : usage.Orders cache) (name : Text) :
    (usage.tick fun key => decide (key = name ∧ cache.peek name ≠ none)).Orders
      (cache.promote name) := by
  by_cases tracked : cache.peek name ≠ none
  · apply (LruCache.Ordered.promote orders tracked).wait
    · intro key _
      simp [tick, tracked]
    · exact Nat.le_refl _
  · have absent := not_not.mp tracked
    rw [LruCache.promote, absent]
    apply orders.unused (List.Sublist.refl _)
    intro key _
    simp

theorem keys_foldl_dropOne (missing : List Text) (inner : Inner) :
    (missing.foldl dropOne inner).cache.keys.Sublist inner.cache.keys := by
  induction missing generalizing inner with
  | nil => exact List.Sublist.refl _
  | cons name rest ih =>
      apply (ih (dropOne inner name)).trans
      unfold dropOne
      split
      · exact List.Sublist.refl _
      split
      · exact List.Sublist.refl _
      · exact LruCache.keys_pop_sublist

theorem apply (orders : usage.Orders index.inner.cache) (op : Op) :
    (usage.tick (op.uses index)).Orders (index.apply op).inner.cache := by
  cases op with
  | touch name => exact orders.promote name
  | markChanged name =>
      simp only [CacheIndex.apply, CacheIndex.markChanged, CacheIndex.inner_setGauges]
      cases tracked : index.inner.cache.peek name with
      | none => exact orders.put name 0
      | some size =>
          have promoted := orders.promote name
          simp only [tracked, ne_eq, reduceCtorEq, not_false_eq_true, and_true] at promoted
          exact promoted
  | recordBlob name size => exact orders.put name size
  | setSize name size =>
      apply orders.unused
      · simp only [CacheIndex.apply, CacheIndex.setSize]
        split
        · exact List.Sublist.refl _
        · rw [CacheIndex.inner_setGauges, LruCache.keys_update]
      · intro key _
        rfl
  | takeDirty => exact orders.unused (List.Sublist.refl _) fun _ _ => rfl
  | takeVictims =>
      rcases exists_pops index.maxBytes index.inner.cache.len index.inner with ⟨popped, _, pops⟩
      apply orders.unused ?_ fun _ _ => rfl
      rw [LruCache.keys, LruCache.keys, pops.split, List.map_append]
      exact List.sublist_append_left _ _
  | dropMissing missing =>
      apply orders.unused ?_ fun _ _ => rfl
      simp only [CacheIndex.apply, CacheIndex.dropMissing]
      split
      · exact List.Sublist.refl _
      · exact keys_foldl_dropOne missing index.inner

theorem run (orders : usage.Orders index.inner.cache) (ops : List Op) :
    (usage.run index ops).Orders (index.run ops).inner.cache := by
  induction ops generalizing index usage with
  | nil => exact orders
  | cons op rest ih => exact ih (orders.apply op)

theorem startup (entries : List Scanned) :
    (Usage.startup entries).Orders (entries.foldl enter .empty).cache := by
  induction entries using List.reverseRecOn with
  | nil => exact LruCache.Ordered.empty
  | append_singleton init entry ih =>
      rw [Usage.startup_concat, List.foldl_concat]
      exact ih.put entry.name entry.size

end Usage.Orders

/-! ## Main result -/

theorem freed_of_entries {index : CacheIndex} {popped : List (Text × UInt64)}
    (tracked : ∀ entry ∈ popped, entry ∈ index.inner.cache.entries) :
    index.freed (popped.map Prod.fst) = (popped.map Prod.snd).sum := by
  rw [CacheIndex.freed, List.map_map]
  congr 1
  apply List.map_congr_left
  intro entry entryMem
  simp [LruCache.peek_of_mem (tracked entry entryMem)]

/-- The cache read backwards is the order in which the loop of `take_victims` goes. -/
theorem takesOldest_of_orders {usage : Usage} {index : CacheIndex}
    (orders : usage.Orders index.inner.cache) :
    TakesOldest index usage.used index.takeVictims.1 index.takeVictims.2
      index.inner.cache.keys.reverse := by
  rcases exists_pops index.maxBytes index.inner.cache.len index.inner with ⟨popped, names, pops⟩
  have victims : index.takeVictims.2 = popped.map Prod.fst := names
  have keys : index.inner.cache.keys =
      index.takeVictims.1.inner.cache.keys ++ index.takeVictims.2.reverse := by
    rw [LruCache.keys, pops.split, List.map_append, victims, List.map_reverse]
    rfl
  have freed {some : List (Text × UInt64)} (part : some <+: popped) :
      index.freed (some.map Prod.fst) = (some.map Prod.snd).sum := by
    apply freed_of_entries
    intro entry entryMem
    rw [pops.split]
    exact List.mem_append_right _ (List.mem_reverse.mpr (part.subset entryMem))
  have total : index.takeVictims.1.inner.total =
      index.inner.total - index.freed index.takeVictims.2 := by
    rw [victims, freed (List.prefix_refl _)]
    exact pops.total
  have least (fewer : List Text) (front : fewer <+: index.takeVictims.2)
      (proper : fewer ≠ index.takeVictims.2) :
      index.maxBytes < index.inner.total - index.freed fewer := by
    rcases front with ⟨more, whole⟩
    rcases List.append_eq_map_iff.mp (whole.trans victims) with ⟨taken, left, rfl, rfl, rfl⟩
    rw [freed (List.prefix_append _ _)]
    apply pops.least taken left rfl
    rintro rfl
    exact proper (by simpa using victims.symm)
  constructor
  · intro name
    rw [List.mem_reverse, LruCache.mem_keys_iff]
    rfl
  · exact List.pairwise_reverse.mpr orders.latestFirst
  · rw [keys, List.reverse_append, List.reverse_reverse]
    exact List.prefix_append _ _
  · exact total
  · rcases popVictims_exhaustive index.maxBytes (Nat.le_refl index.inner.cache.len) with
      under | empty
    · exact Or.inl under
    · have noKeys : index.takeVictims.1.inner.cache.keys = [] := congrArg (List.map Prod.fst) empty
      right
      rw [keys, noKeys, List.nil_append, List.reverse_reverse]
  · exact least
  · intro last isLast
    rcases List.getLast?_eq_some_iff.mp isLast with ⟨init, whole⟩
    have tooMuch := least init (whole ▸ List.prefix_append _ _) (by simp [whole])
    have parts : index.freed index.takeVictims.2 = index.freed init + index.freed [last] := by
      simp [whole, CacheIndex.freed]
    rwa [total, parts, ← sub_sub, sub_add_cancel]
  · intro name
    rw [victims]
    have parts := LruCache.peek_of_append pops.split name
    simp only [List.map_reverse, List.mem_reverse] at parts
    exact parts
  · intro victim victimMem name tracked
    have latestFirst := orders.latestFirst
    rw [keys, List.pairwise_append] at latestFirst
    exact latestFirst.2.2 name (LruCache.mem_keys_iff.mpr tracked) victim
      (List.mem_reverse.mpr victimMem)

theorem evictsLru_of_orders {usage : Usage} {index : CacheIndex}
    (orders : usage.Orders index.inner.cache) (shown : index.GaugesSet) :
    EvictsLru index usage.used where
  victims := ⟨_, takesOldest_of_orders orders⟩
  measured := by
    intro name size
    unfold CacheIndex.setSize
    split
    · rfl
    · rw [CacheIndex.inner_setGauges, LruCache.keys_update]
  untracked := by
    intro name untracked
    have absent : index.inner.cache.peek name = none := not_not.mp untracked
    simp [CacheIndex.touch, LruCache.promote, absent]
  undisturbed := by
    intro under
    have nothing (fuel : ℕ) :
        popVictims index.maxBytes fuel index.inner = (index.inner, []) := by
      cases fuel with
      | zero => rfl
      | succ fuel => exact if_neg (UInt64.not_lt.mpr under)
    rw [CacheIndex.takeVictims, nothing]
    exact Prod.ext (congrArg (fun gauges => { index with gauges }) shown.symm) rfl

theorem used_startup_lt_clock {entries : List Scanned} {entry : Scanned}
    (entryMem : entry ∈ entries) :
    (Usage.startup entries).used entry.name < (Usage.startup entries).clock := by
  apply (Usage.Orders.startup entries).past
  rw [LruCache.mem_keys_iff, peek_foldl_enter, ne_eq, lastSize_eq_none_iff]
  intro absent
  exact absent (List.mem_map.mpr ⟨entry, entryMem, rfl⟩)

theorem byMtime_startup {entries : List Scanned}
    (sorted : entries.Pairwise fun older newer => older.mtime ≤ newer.mtime) :
    (Usage.startup entries).ByMtime entries := by
  intro older olderMem newer newerMem before latest
  induction entries using List.reverseRecOn with
  | nil => cases olderMem
  | append_singleton init last ih =>
      rw [List.pairwise_append] at sorted
      have notLast : older.name ≠ last.name := by
        intro same
        have young := latest last (by simp) same.symm
        rcases List.mem_append.mp newerMem with newerMem | newerMem
        · have old := sorted.2.2 newer newerMem last (by simp)
          omega
        · rw [List.mem_singleton.mp newerMem] at before
          omega
      have olderInit : older ∈ init := by
        rcases List.mem_append.mp olderMem with olderMem | olderMem
        · exact olderMem
        · exact absurd (congrArg Scanned.name (List.mem_singleton.mp olderMem)) notLast
      simp only [Usage.startup_concat, Usage.tick, notLast, decide_eq_true_eq, if_false]
      split
      · exact used_startup_lt_clock olderInit
      · rename_i different
        rcases List.mem_append.mp newerMem with newerInit | newerLast
        · exact ih sorted.1 olderInit newerInit fun entry entryMem =>
            latest entry (List.mem_append_left _ entryMem)
        · exact absurd (congrArg Scanned.name (List.mem_singleton.mp newerLast)) different

theorem pairwise_oldestFirst (mirrors blobs : List Scanned) :
    (oldestFirst mirrors blobs).Pairwise fun older newer => older.mtime ≤ newer.mtime := by
  have : Std.Total fun older newer : Scanned => older.mtime ≤ newer.mtime :=
    ⟨fun _ _ => Nat.le_total _ _⟩
  have : IsTrans Scanned fun older newer => older.mtime ≤ newer.mtime :=
    ⟨fun _ _ _ => Nat.le_trans⟩
  exact List.pairwise_insertionSort _ _

/-- Whatever sequence of calls a scan is followed by, `take_victims` takes the least recently
used entries, and no more of them than it must. -/
theorem evictsLru_of_run (mirrors blobs : List Scanned) (maxBytes : UInt64) (ops : List Op) :
    (Usage.startup (oldestFirst mirrors blobs)).ByMtime (oldestFirst mirrors blobs) ∧
      EvictsLru ((CacheIndex.new mirrors blobs maxBytes).run ops)
        ((Usage.startup (oldestFirst mirrors blobs)).run (.new mirrors blobs maxBytes) ops).used := by
  have orders : (Usage.startup (oldestFirst mirrors blobs)).Orders
      (CacheIndex.new mirrors blobs maxBytes).inner.cache := Usage.Orders.startup _
  have shown : (CacheIndex.new mirrors blobs maxBytes).GaugesSet := rfl
  exact ⟨byMtime_startup (pairwise_oldestFirst mirrors blobs),
    evictsLru_of_orders (orders.run ops) (shown.run ops)⟩

end GitCacheProxy.Index
