import GitCacheProxy.Index.Basic

/-!
# The background task

`run` and `maintain` as a program counter and a step relation.  Every critical
section of the index lock is one step; so is every measurement of a directory
and every `stat` of the reconcile sweep, because requests run in between.  What
the task sees on disk is not decided here: a walk may report any size, and a
path is reported missing only if `absent` allows it.

The machine of this file runs the task against any number of requests.  A
request that changed the index owes it a `notify_one`; `pending` counts those.
-/

namespace GitCacheProxy.Index

/-- Where the background task is. -/
inductive Pc where
  /-- about to call `take_dirty` -/
  | start
  | measuring (unmeasured : List Text) (measured : List (Text × UInt64))
  | sizing (measured : List (Text × UInt64))
  /-- about to call `take_victims` -/
  | picking
  | evicting (victims : List Text)
  /-- waiting in `select!` -/
  | parked
  | statting (unseen missing : List Text)
  | dropping (missing : List Text)
  | stopped
  deriving DecidableEq

/-- One step of the task outside of a reconcile pass, all but the removal of a victim. -/
inductive TaskStep (index : CacheIndex) : Pc → CacheIndex → Pc → Prop where
  | takeDirty (order : List Text) (once : order.Nodup)
      (drained : order.toFinset = index.inner.dirty) :
      TaskStep index .start index.takeDirty
        (if order = [] then .picking else .measuring order [])
  | measure (name : Text) (size : UInt64) (unmeasured : List Text)
      (measured : List (Text × UInt64)) :
      TaskStep index (.measuring (name :: unmeasured) measured)
        index (.measuring unmeasured (measured ++ [(name, size)]))
  | walked (measured : List (Text × UInt64)) :
      TaskStep index (.measuring [] measured) index (.sizing measured)
  | setSize (name : Text) (size : UInt64) (measured : List (Text × UInt64)) :
      TaskStep index (.sizing ((name, size) :: measured))
        (index.setSize name size) (.sizing measured)
  | sized : TaskStep index (.sizing []) index .picking
  | takeVictims :
      TaskStep index .picking index.takeVictims.1 (.evicting index.takeVictims.2)
  | park : TaskStep index (.evicting []) index .parked
  | woken (permitted : index.permit = true) :
      TaskStep index .parked { index with permit := false } .start
  | shutdown : TaskStep index .parked index .stopped

/-- One step of `reconcile_missing` after its snapshot. -/
inductive SweepStep (absent : Text → Prop) (index : CacheIndex) :
    Pc → CacheIndex → Pc → Prop where
  -- the path is there, or its stat failed with anything but a definitive "not found"
  | kept (name : Text) (unseen missing : List Text) :
      SweepStep absent index (.statting (name :: unseen) missing)
        index (.statting unseen missing)
  | missed (name : Text) (unseen missing : List Text) (gone : absent name) :
      SweepStep absent index (.statting (name :: unseen) missing)
        index (.statting unseen (missing ++ [name]))
  | swept (missing : List Text) :
      SweepStep absent index (.statting [] missing)
        index (if missing = [] then .start else .dropping missing)
  | drop (missing : List Text) :
      SweepStep absent index (.dropping missing) (index.dropMissing missing) .start

/-- The snapshot of `reconcile_missing`, and where it leaves the task. -/
def CacheIndex.snapshot (index : CacheIndex) : Pc :=
  if index.inner.cache.keys = [] then .start else .statting index.inner.cache.keys []

/-- The index, the task, and how many requests still owe a `notify_one`. -/
structure State where
  index : CacheIndex
  pc : Pc
  pending : ℕ

/-- Whose step it is, and for a request which call it makes. -/
inductive Event where
  | touch (name : Text)
  | markChanged (name : Text)
  | recordBlob (key : Text) (size : UInt64)
  | notify
  | task
  | tick
  deriving DecidableEq

/-- One step of a request or of the task. -/
inductive Step (absent : Text → Prop) (state : State) : Event → State → Prop where
  | touch (name : Text) :
      Step absent state (.touch name) { state with index := state.index.touch name }
  | markChanged (name : Text) :
      Step absent state (.markChanged name)
        { state with index := state.index.markChanged name, pending := state.pending + 1 }
  | recordBlob (key : Text) (size : UInt64) :
      Step absent state (.recordBlob key size)
        { state with index := state.index.recordBlob key size, pending := state.pending + 1 }
  | notify (owed : 0 < state.pending) :
      Step absent state .notify
        { state with index := state.index.notifyOne, pending := state.pending - 1 }
  | maintain {index : CacheIndex} {pc : Pc} (taken : TaskStep state.index state.pc index pc) :
      Step absent state .task { state with index := index, pc := pc }
  | evicted {name : Text} {victims : List Text}
      (chosen : state.pc = .evicting (name :: victims)) :
      Step absent state .task { state with pc := .evicting victims }
  | tick (parked : state.pc = .parked) :
      Step absent state .tick { state with pc := state.index.snapshot }
  | sweep {index : CacheIndex} {pc : Pc}
      (taken : SweepStep absent state.index state.pc index pc) :
      Step absent state .task { state with index := index, pc := pc }

/-- The server starts with a scanned index, and the task runs a pass first. -/
def Starts (mirrors blobs : List Scanned) (maxBytes : UInt64) (state : State) : Prop :=
  state = { index := .new mirrors blobs maxBytes, pc := .start, pending := 0 }

/-! ## What the calls leave behind -/

/-- Popping stops because the total is back under the cap, or because nothing is left. -/
theorem popVictims_exhaustive (maxBytes : UInt64) {fuel : ℕ} {inner : Inner}
    (enough : inner.cache.len ≤ fuel) :
    (popVictims maxBytes fuel inner).1.total ≤ maxBytes ∨
      (popVictims maxBytes fuel inner).1.cache.entries = [] := by
  induction fuel generalizing inner with
  | zero =>
      right
      exact List.eq_nil_of_length_eq_zero (Nat.le_zero.mp enough)
  | succ fuel ih =>
      unfold popVictims
      split
      · split
        · rename_i exhausted
          exact Or.inr (LruCache.popLru_eq_none exhausted)
        · rename_i name size rest popped
          have shorter := LruCache.len_of_popLru popped
          apply ih
          simp only
          omega
      · rename_i under
        exact Or.inl (UInt64.not_lt.mp under)

theorem dirty_popVictims (maxBytes : UInt64) (fuel : ℕ) (inner : Inner) :
    (popVictims maxBytes fuel inner).1.dirty = inner.dirty := by
  induction fuel generalizing inner with
  | zero => rfl
  | succ fuel ih =>
      unfold popVictims
      split
      · split
        · rfl
        · exact ih _
      · rfl

theorem dirty_dropOne (inner : Inner) (name : Text) : (dropOne inner name).dirty = inner.dirty := by
  unfold dropOne
  split
  · rfl
  · split <;> rfl

theorem peek_dropOne (inner : Inner) (name key : Text) :
    (dropOne inner name).cache.peek key =
      if key = name ∧ key ∉ inner.dirty then none else inner.cache.peek key := by
  unfold dropOne
  split
  · rename_i dirty
    rw [if_neg]
    rintro ⟨rfl, clean⟩
    exact clean dirty
  · rename_i clean
    split
    · rename_i untracked
      split
      · rename_i same
        rw [same.1, untracked]
      · rfl
    · rw [LruCache.peek_pop]
      by_cases same : key = name
      · subst same
        simp [clean]
      · simp [same]

theorem dirty_foldl_dropOne (missing : List Text) (inner : Inner) :
    (missing.foldl dropOne inner).dirty = inner.dirty := by
  induction missing generalizing inner with
  | nil => rfl
  | cons name rest ih => rw [List.foldl_cons, ih, dirty_dropOne]

theorem peek_foldl_dropOne (missing : List Text) (inner : Inner) (key : Text) :
    (missing.foldl dropOne inner).cache.peek key =
      if key ∈ missing ∧ key ∉ inner.dirty then none else inner.cache.peek key := by
  induction missing generalizing inner with
  | nil => simp
  | cons name rest ih =>
      rw [List.foldl_cons, ih, dirty_dropOne, peek_dropOne]
      by_cases dirty : key ∈ inner.dirty
      · simp [dirty]
      · by_cases later : key ∈ rest
        · simp [dirty, later]
        · simp [dirty, later]

namespace CacheIndex

variable (index : CacheIndex) (name key : Text) (size : UInt64)

theorem dirty_dropMissing (missing : List Text) :
    (index.dropMissing missing).inner.dirty = index.inner.dirty := by
  unfold dropMissing
  split
  · rfl
  · exact dirty_foldl_dropOne missing index.inner

/-- The drop phase forgets exactly the missing keys that are not dirty. -/
theorem peek_dropMissing (missing : List Text) :
    (index.dropMissing missing).inner.cache.peek key =
      if key ∈ missing ∧ key ∉ index.inner.dirty then none else index.inner.cache.peek key := by
  unfold dropMissing
  split
  · rename_i nothing
    simp [nothing]
  · exact peek_foldl_dropOne missing index.inner key

@[simp]
theorem peek_touch : (index.touch name).inner.cache.peek key = index.inner.cache.peek key := by
  simp [touch]

@[simp]
theorem peek_recordBlob : (index.recordBlob name size).inner.cache.peek key =
    if key = name then some size else index.inner.cache.peek key := by
  simp [recordBlob]

/-- Marking tracks the entry; an entry that was tracked keeps its size. -/
@[simp]
theorem peek_markChanged : (index.markChanged name).inner.cache.peek key =
    if key = name then some ((index.inner.cache.peek name).getD 0)
    else index.inner.cache.peek key := by
  by_cases same : key = name
  · subst same
    cases tracked : index.inner.cache.peek key with
    | none => simp [markChanged, tracked]
    | some old => simp [markChanged, tracked]
  · cases tracked : index.inner.cache.peek name with
    | none => simp [markChanged, tracked, same]
    | some old => simp [markChanged, tracked, same]

/-- Measuring never tracks or untracks anything. -/
theorem peek_setSize : (index.setSize name size).inner.cache.peek key =
    if key = name then (index.inner.cache.peek key).map fun _ => size
    else index.inner.cache.peek key := by
  unfold setSize
  split
  · rename_i untracked
    split
    · rename_i same
      rw [same, untracked]
      rfl
    · rfl
  · simp

/-! ### Which names are tracked -/

/-- The index has an entry of that name. -/
def Tracks : Prop := index.inner.cache.peek name ≠ none

theorem tracks_new {mirrors blobs : List Scanned} {maxBytes : UInt64} :
    (CacheIndex.new mirrors blobs maxBytes).Tracks name ↔
      name ∈ (mirrors ++ blobs).map Scanned.name := by
  have sorted := (List.perm_insertionSort (fun older newer : Scanned => older.mtime ≤ newer.mtime)
    (mirrors ++ blobs)).map Scanned.name
  rw [← sorted.mem_iff, Tracks, CacheIndex.new, peek_foldl_enter, ne_eq, lastSize_eq_none_iff,
    not_not]
  rfl

@[simp]
theorem tracks_touch : (index.touch name).Tracks key ↔ index.Tracks key := by simp [Tracks]

@[simp]
theorem tracks_notifyOne : index.notifyOne.Tracks key ↔ index.Tracks key := Iff.rfl

@[simp]
theorem tracks_takeDirty : index.takeDirty.Tracks key ↔ index.Tracks key := Iff.rfl

@[simp]
theorem tracks_markChanged :
    (index.markChanged name).Tracks key ↔ key = name ∨ index.Tracks key := by
  by_cases same : key = name
  · simp [Tracks, same]
  · simp [Tracks, same]

@[simp]
theorem tracks_recordBlob :
    (index.recordBlob name size).Tracks key ↔ key = name ∨ index.Tracks key := by
  by_cases same : key = name
  · simp [Tracks, same]
  · simp [Tracks, same]

@[simp]
theorem tracks_setSize : (index.setSize name size).Tracks key ↔ index.Tracks key := by
  by_cases same : key = name
  · simp [Tracks, peek_setSize, same]
  · simp [Tracks, peek_setSize, same]

theorem tracks_dropMissing {missing : List Text}
    (tracked : (index.dropMissing missing).Tracks key) : index.Tracks key := by
  rw [Tracks, peek_dropMissing] at tracked
  split at tracked
  · exact absurd rfl tracked
  · exact tracked

theorem peek_popVictims (maxBytes : UInt64) (fuel : ℕ) (inner : Inner) :
    inner.cache.peek key ≠ none ↔
      (popVictims maxBytes fuel inner).1.cache.peek key ≠ none ∨
        key ∈ (popVictims maxBytes fuel inner).2 := by
  induction fuel generalizing inner with
  | zero => simp [popVictims]
  | succ fuel ih =>
      unfold popVictims
      split
      · split
        · simp
        · rename_i victim size rest popped
          have step := ih { inner with cache := rest, total := inner.total - size }
          simp only [LruCache.peek_popLru popped] at step
          simp only [List.mem_cons]
          by_cases same : key = victim
          · subst same
            have there := (LruCache.peek_of_popLru popped).1
            simp [there]
          · simp only [same, if_false, false_or] at step ⊢
            exact step
      · simp

theorem tracks_takeVictims :
    index.Tracks key ↔ index.takeVictims.1.Tracks key ∨ key ∈ index.takeVictims.2 :=
  peek_popVictims key index.maxBytes index.inner.cache.len index.inner

end CacheIndex

/-- What the task has left to evict. -/
def Pc.victims : Pc → List Text
  | evicting victims => victims
  | _ => []

/-- In the middle of a reconcile pass. -/
def Pc.reconciles : Pc → Bool
  | statting _ _ | dropping _ => true
  | _ => false

section Steps

variable {index index' : CacheIndex} {pc pc' : Pc} {absent : Text → Prop}

theorem TaskStep.noVictims (taken : TaskStep index pc index' pc') : pc.victims = [] := by
  cases taken with
  | _ => rfl

/-- A step of the task tracks nothing new, and what it stops tracking is a victim. -/
theorem TaskStep.tracks (taken : TaskStep index pc index' pc') (name : Text) :
    index.Tracks name ↔ index'.Tracks name ∨ name ∈ pc'.victims := by
  cases taken with
  | takeVictims => exact index.tracks_takeVictims name
  | takeDirty order once drained =>
      split
      · simp [Pc.victims]
      · simp [Pc.victims]
  | woken permitted => simp [CacheIndex.Tracks, Pc.victims]
  | _ => simp [Pc.victims]

theorem TaskStep.reconciles (taken : TaskStep index pc index' pc') : pc'.reconciles = false := by
  cases taken with
  | takeDirty order once drained =>
      split
      · rfl
      · rfl
  | _ => rfl

theorem SweepStep.reconciles (taken : SweepStep absent index pc index' pc') :
    pc.reconciles = true := by
  cases taken with
  | _ => rfl

theorem SweepStep.noVictims (taken : SweepStep absent index pc index' pc') :
    pc.victims = [] ∧ pc'.victims = [] := by
  cases taken with
  | swept missing =>
      split
      · exact ⟨rfl, rfl⟩
      · exact ⟨rfl, rfl⟩
  | _ => exact ⟨rfl, rfl⟩

theorem SweepStep.tracks (taken : SweepStep absent index pc index' pc') {name : Text}
    (tracked : index'.Tracks name) : index.Tracks name := by
  cases taken with
  | drop missing => exact index.tracks_dropMissing name tracked
  | _ => exact tracked

theorem CacheIndex.victims_snapshot (index : CacheIndex) : index.snapshot.victims = [] := by
  unfold snapshot
  split
  · rfl
  · rfl

end Steps

end GitCacheProxy.Index
