import Mathlib.Data.Finset.Insert
import Mathlib.Data.List.Sort
import Mathlib.Data.UInt
import Mathlib.Tactic.Abel
import GitCacheProxy.Foundation.LruCache
import GitCacheProxy.Repo

/-!
# The cache index

The in-memory record of what is on disk: sizes in access order, the set of
entries awaiting measurement and a running total.  Every call below is one
critical section of the index lock, so it is one step of whoever makes it.  The
total is a 64-bit word and its arithmetic wraps around.

`drift` is what the total is off by.  Every call leaves it alone, so it is
whatever the startup scan made it; the lemmas `drift_*` say so once for the
whole development.
-/

namespace GitCacheProxy.Index

/-- An entry found on disk during the startup scan. -/
structure Scanned where
  name : Text
  size : UInt64
  mtime : ℕ
  deriving DecidableEq

/-- What the index lock guards. -/
structure Inner where
  cache : LruCache Text UInt64
  dirty : Finset Text
  total : UInt64

/-- The `cache_bytes` and `cache_mirrors` gauges. -/
structure Gauges where
  cacheBytes : Int64
  cacheMirrors : Int64
  deriving DecidableEq

/-- `set_cache_size`: both numbers are cast to `i64`. -/
def setCacheSize (bytes : UInt64) (mirrors : ℕ) : Gauges where
  cacheBytes := bytes.toInt64
  cacheMirrors := (UInt64.ofNat mirrors).toInt64

/-- The index with its gauges and the permit stored in `work`. -/
structure CacheIndex where
  maxBytes : UInt64
  inner : Inner
  gauges : Gauges
  permit : Bool

/-- One scanned entry enters the index under construction. -/
def enter (inner : Inner) (scanned : Scanned) : Inner :=
  { inner with
    cache := inner.cache.put scanned.name scanned.size
    total := inner.total + scanned.size }

/-- `entries.sort_by_key(|m| m.mtime)`, a stable sort. -/
def oldestFirst (mirrors blobs : List Scanned) : List Scanned :=
  (mirrors ++ blobs).insertionSort fun older newer => older.mtime ≤ newer.mtime

/-- The index before the first scanned entry enters it. -/
def Inner.empty : Inner := { cache := .empty, dirty := ∅, total := 0 }

/-- Build the index from what `find_mirrors` and `find_lfs_blobs` found, oldest first. -/
def CacheIndex.new (mirrors blobs : List Scanned) (maxBytes : UInt64) : CacheIndex :=
  let inner := (oldestFirst mirrors blobs).foldl enter .empty
  { maxBytes := maxBytes
    inner := inner
    gauges := setCacheSize inner.total inner.cache.len
    permit := decide (inner.total > maxBytes) }

namespace CacheIndex

/-- `set_gauges`, called before the lock is given back. -/
def setGauges (index : CacheIndex) : CacheIndex :=
  { index with gauges := setCacheSize index.inner.total index.inner.cache.len }

/-- `work.notify_one()`. -/
def notifyOne (index : CacheIndex) : CacheIndex := { index with permit := true }

/-- Mark an entry used. -/
def touch (index : CacheIndex) (name : Text) : CacheIndex :=
  { index with inner.cache := index.inner.cache.promote name }

/-- The critical section of `record_blob`; its `notify_one` is a later step. -/
def recordBlob (index : CacheIndex) (key : Text) (size : UInt64) : CacheIndex :=
  let old := index.inner.cache.peek key
  { index with
    inner.cache := index.inner.cache.put key size
    inner.total := index.inner.total - old.getD 0 + size }.setGauges

/-- The critical section of `mark_changed`; its `notify_one` is a later step. -/
def markChanged (index : CacheIndex) (name : Text) : CacheIndex :=
  { index with
    inner.cache := match index.inner.cache.peek name with
      | none => index.inner.cache.put name 0
      | some _ => index.inner.cache.promote name
    inner.dirty := insert name index.inner.dirty }.setGauges

/-- Current `(total_bytes, mirror_count)`. -/
def totals (index : CacheIndex) : UInt64 × ℕ := (index.inner.total, index.inner.cache.len)

/-- `take_dirty` leaves nothing dirty; the caller gets the set in some order. -/
def takeDirty (index : CacheIndex) : CacheIndex := { index with inner.dirty := ∅ }

/-- Set an entry's measured size; an entry evicted in the meantime stays out. -/
def setSize (index : CacheIndex) (name : Text) (size : UInt64) : CacheIndex :=
  match index.inner.cache.peek name with
  | none => index
  | some old =>
      { index with
        inner.total := index.inner.total - old + size
        inner.cache := index.inner.cache.update name size }.setGauges

end CacheIndex

/-- The loop of `take_victims`; `fuel` is the number of entries that can still be popped. -/
def popVictims (maxBytes : UInt64) : ℕ → Inner → Inner × List Text
  | 0, inner => (inner, [])
  | fuel + 1, inner =>
      if inner.total > maxBytes then
        match inner.cache.popLru with
        | none => (inner, [])
        | some ((name, size), rest) =>
            let (last, victims) := popVictims maxBytes fuel
              { inner with cache := rest, total := inner.total - size }
            (last, name :: victims)
      else (inner, [])

/-- One round of the drop phase of `reconcile_missing`. -/
def dropOne (inner : Inner) (name : Text) : Inner :=
  if name ∈ inner.dirty then inner
  else
    match inner.cache.peek name with
    | none => inner
    | some size =>
        { inner with cache := inner.cache.pop name, total := inner.total - size }

namespace CacheIndex

/-- Pop the least recently used entries until the total is back under the cap. -/
def takeVictims (index : CacheIndex) : CacheIndex × List Text :=
  let popped := popVictims index.maxBytes index.inner.cache.len index.inner
  ({ index with inner := popped.1 }.setGauges, popped.2)

/-- The drop phase of `reconcile_missing`, one critical section. -/
def dropMissing (index : CacheIndex) (missing : List Text) : CacheIndex :=
  if missing = [] then index
  else { index with inner := missing.foldl dropOne index.inner }.setGauges

end CacheIndex

/-! ## What the total is off by -/

/-- The total less the sum of the tracked sizes, as 64-bit words. -/
def Inner.drift (inner : Inner) : UInt64 := inner.total - inner.cache.weigh id

theorem drift_enter (inner : Inner) (scanned : Scanned) :
    (enter inner scanned).drift =
      inner.drift + ((inner.cache.peek scanned.name).getD 0) := by
  have parts := LruCache.weigh_eq_add_pop id inner.cache scanned.name
  cases tracked : inner.cache.peek scanned.name with
  | none =>
      simp only [tracked, Option.elim_none, zero_add] at parts
      simp only [Inner.drift, enter, LruCache.weigh_put, parts, id_eq, Option.getD_none]
      abel
  | some old =>
      simp only [tracked, Option.elim_some, id_eq] at parts
      simp only [Inner.drift, enter, LruCache.weigh_put, parts, id_eq, Option.getD_some]
      abel

theorem drift_dropOne (inner : Inner) (name : Text) : (dropOne inner name).drift = inner.drift := by
  have parts := LruCache.weigh_eq_add_pop id inner.cache name
  unfold dropOne
  split
  · rfl
  split
  · rfl
  · rename_i size tracked
    simp only [tracked, Option.elim_some, id_eq] at parts
    simp only [Inner.drift, parts]
    abel

theorem drift_popVictims (maxBytes : UInt64) (fuel : ℕ) (inner : Inner) :
    (popVictims maxBytes fuel inner).1.drift = inner.drift := by
  induction fuel generalizing inner with
  | zero => rfl
  | succ fuel ih =>
      unfold popVictims
      split
      · split
        · rfl
        · rename_i name size rest popped
          rw [ih]
          have parts := LruCache.weigh_of_popLru id popped
          simp only [id_eq] at parts
          simp only [Inner.drift, parts]
          abel
      · rfl

theorem drift_foldl_dropOne (missing : List Text) (inner : Inner) :
    (missing.foldl dropOne inner).drift = inner.drift := by
  induction missing generalizing inner with
  | nil => rfl
  | cons name rest ih => rw [List.foldl_cons, ih, drift_dropOne]

namespace CacheIndex

variable (index : CacheIndex) (name : Text) (size : UInt64)

@[simp]
theorem inner_setGauges : index.setGauges.inner = index.inner := rfl

@[simp]
theorem maxBytes_setGauges : index.setGauges.maxBytes = index.maxBytes := rfl

@[simp]
theorem permit_setGauges : index.setGauges.permit = index.permit := rfl

theorem drift_touch : (index.touch name).inner.drift = index.inner.drift := by
  simp [touch, Inner.drift]

theorem drift_recordBlob :
    (index.recordBlob name size).inner.drift = index.inner.drift := by
  have parts := LruCache.weigh_eq_add_pop id index.inner.cache name
  cases tracked : index.inner.cache.peek name with
  | none =>
      simp only [tracked, Option.elim_none, zero_add] at parts
      simp only [recordBlob, Inner.drift, inner_setGauges, LruCache.weigh_put, parts, id_eq,
        tracked, Option.getD_none]
      abel
  | some old =>
      simp only [tracked, Option.elim_some, id_eq] at parts
      simp only [recordBlob, Inner.drift, inner_setGauges, LruCache.weigh_put, parts, id_eq,
        tracked, Option.getD_some]
      abel

theorem drift_markChanged : (index.markChanged name).inner.drift = index.inner.drift := by
  have parts := LruCache.weigh_eq_add_pop id index.inner.cache name
  cases tracked : index.inner.cache.peek name with
  | none =>
      simp only [tracked, Option.elim_none, zero_add] at parts
      simp [markChanged, Inner.drift, LruCache.weigh_put, parts, tracked]
  | some old => simp [markChanged, Inner.drift, tracked]

theorem drift_setSize : (index.setSize name size).inner.drift = index.inner.drift := by
  have parts := LruCache.weigh_eq_add_pop id index.inner.cache name
  unfold setSize
  split
  · rfl
  · rename_i old tracked
    simp only [tracked, Option.elim_some, id_eq] at parts
    simp only [Inner.drift, inner_setGauges, LruCache.weigh_update id tracked, parts, id_eq]
    abel

theorem drift_takeVictims : index.takeVictims.1.inner.drift = index.inner.drift :=
  drift_popVictims _ _ _

theorem drift_dropMissing (missing : List Text) :
    (index.dropMissing missing).inner.drift = index.inner.drift := by
  unfold dropMissing
  split
  · rfl
  · exact drift_foldl_dropOne missing index.inner

end CacheIndex

/-! ## The startup scan -/

/-- The bytes of the entries that a later entry of the same name overwrites. -/
def shadowed : List Scanned → UInt64
  | [] => 0
  | entry :: rest =>
      if entry.name ∈ rest.map Scanned.name then entry.size + shadowed rest else shadowed rest

/-- The size of the last entry of a name. -/
def lastSize (entries : List Scanned) (name : Text) : Option UInt64 :=
  (entries.reverse.find? fun entry => decide (entry.name = name)).map Scanned.size

theorem lastSize_concat (entries : List Scanned) (entry : Scanned) (name : Text) :
    lastSize (entries ++ [entry]) name =
      if name = entry.name then some entry.size else lastSize entries name := by
  by_cases same : entry.name = name
  · simp [lastSize, same]
  · simp [lastSize, same, Ne.symm same]

theorem lastSize_eq_none_iff {entries : List Scanned} {name : Text} :
    lastSize entries name = none ↔ name ∉ entries.map Scanned.name := by
  simp only [lastSize, Option.map_eq_none_iff, List.find?_eq_none, List.mem_reverse,
    decide_eq_true_eq, List.mem_map, not_exists, not_and]

theorem lastSize_cons (entry : Scanned) (rest : List Scanned) (name : Text) :
    lastSize (entry :: rest) name =
      (lastSize rest name).or (if name = entry.name then some entry.size else none) := by
  by_cases same : entry.name = name
  · simp [lastSize, List.find?_append, same]
  · simp [lastSize, List.find?_append, same, Ne.symm same]

theorem shadowed_concat (entries : List Scanned) (entry : Scanned) :
    shadowed (entries ++ [entry]) =
      shadowed entries + (lastSize entries entry.name).getD 0 := by
  induction entries with
  | nil => simp [shadowed, lastSize]
  | cons first rest ih =>
      simp only [List.cons_append, shadowed, ih, lastSize_cons, List.map_append, List.map_cons,
        List.map_nil, List.mem_append, List.mem_singleton]
      by_cases again : first.name ∈ rest.map Scanned.name
      · have found : lastSize rest first.name ≠ none := by
          rw [ne_eq, lastSize_eq_none_iff]
          exact not_not.mpr again
        by_cases same : first.name = entry.name
        · rw [same] at found again
          rcases Option.ne_none_iff_exists'.mp found with ⟨size, found⟩
          simp only [same, again, true_or, if_true, found, Option.some_or, Option.getD_some]
          abel
        · simp only [again, true_or, if_true, Ne.symm same, if_false, Option.or_none]
          abel
      · have last := lastSize_eq_none_iff.mpr again
        by_cases same : first.name = entry.name
        · rw [same] at last again
          simp only [same, again, or_true, if_true, if_false, last, Option.none_or,
            Option.getD_some, Option.getD_none]
          abel
        · simp [again, same, Ne.symm same]

/-- Pairwise distinct names leave nothing to overwrite. -/
theorem shadowed_eq_zero {entries : List Scanned}
    (distinct : (entries.map Scanned.name).Nodup) : shadowed entries = 0 := by
  induction entries with
  | nil => rfl
  | cons first rest ih =>
      rw [List.map_cons, List.nodup_cons] at distinct
      simp [shadowed, distinct.1, ih distinct.2]

/-- The scan leaves every name with the size of its newest entry. -/
theorem peek_foldl_enter (entries : List Scanned) (name : Text) :
    (entries.foldl enter .empty).cache.peek name = lastSize entries name := by
  induction entries using List.reverseRecOn with
  | nil => rfl
  | append_singleton before entry ih =>
      rw [List.foldl_concat, lastSize_concat]
      simp only [enter, LruCache.peek_put, ih]

theorem dirty_foldl_enter (entries : List Scanned) :
    (entries.foldl enter .empty).dirty = ∅ := by
  induction entries using List.reverseRecOn with
  | nil => rfl
  | append_singleton before entry ih =>
      rw [List.foldl_concat]
      exact ih

theorem drift_foldl_enter (entries : List Scanned) :
    (entries.foldl enter .empty).drift = shadowed entries := by
  induction entries using List.reverseRecOn with
  | nil => rfl
  | append_singleton before entry ih =>
      rw [List.foldl_concat, drift_enter, ih, peek_foldl_enter, shadowed_concat]

/-- A fresh index is off by what the scan counted twice. -/
theorem drift_new (mirrors blobs : List Scanned) (maxBytes : UInt64) :
    (CacheIndex.new mirrors blobs maxBytes).inner.drift =
      shadowed (oldestFirst mirrors blobs) :=
  drift_foldl_enter _

theorem drift_new_of_distinct {mirrors blobs : List Scanned} (maxBytes : UInt64)
    (distinct : ((mirrors ++ blobs).map Scanned.name).Nodup) :
    (CacheIndex.new mirrors blobs maxBytes).inner.drift = 0 := by
  rw [drift_new, shadowed_eq_zero]
  exact ((List.perm_insertionSort _ _).map Scanned.name).nodup_iff.mpr distinct

end GitCacheProxy.Index
