import GitCacheProxy.Foundation.TransitionSystem
import GitCacheProxy.Index.Maintenance

/-!
# No lost wakeup

Two promises are kept by every step of the machine: whoever dirties an entry or
raises the total past the cap leaves a trace behind, an owed `notify_one`, a
stored permit or a pass that has yet to look (`Inv`).  When the task is parked
and no trace is left there is nothing to do.

The total can only be brought under the cap as far as it is made of tracked
sizes.  What the startup scan counted twice stays in it for good, so the promise
about the cap holds if and only if that part alone is under the cap.
-/

namespace GitCacheProxy.Index

open TransitionSystem

/-- A trace that makes the task look again: a stored permit, or one that is owed. -/
def State.Signalled (state : State) : Prop := state.index.permit = true ∨ 0 < state.pending

/-- The task has picked its victims and not looked again since. -/
def Pc.Picked : Pc → Prop
  | .evicting _ => True
  | .parked => True
  | _ => False

/-- The invariant of every run from an index that is off by `excess`. -/
structure Inv (excess maxBytes : UInt64) (state : State) : Prop where
  drift : state.index.inner.drift = excess
  cap : state.index.maxBytes = maxBytes
  dirty : state.index.inner.dirty = ∅ ∨ state.Signalled ∨ state.pc = .start
  total : state.pc.Picked → state.index.inner.total ≤ maxBytes ∨ state.Signalled

namespace Inv

variable {excess maxBytes : UInt64} {state : State} {index : CacheIndex} {pc : Pc}

/-- A call after which a `notify_one` is owed has nothing else to prove. -/
theorem owe (inv : Inv excess maxBytes state) (drift : index.inner.drift = excess)
    (cap : index.maxBytes = state.index.maxBytes) :
    Inv excess maxBytes { state with index := index, pending := state.pending + 1 } where
  drift := drift
  cap := cap.trans inv.cap
  dirty := Or.inr (Or.inl (Or.inr (Nat.succ_pos _)))
  total := fun _ => Or.inr (Or.inr (Nat.succ_pos _))

/-- A step back to the start of a pass, which will look at everything. -/
theorem restart (inv : Inv excess maxBytes state) (drift : index.inner.drift = excess)
    (cap : index.maxBytes = state.index.maxBytes) :
    Inv excess maxBytes { state with index := index, pc := .start } where
  drift := drift
  cap := cap.trans inv.cap
  dirty := Or.inr (Or.inr rfl)
  total := False.elim

/-- A step inside a pass that leaves the dirty set and the permit alone. -/
theorem work (inv : Inv excess maxBytes state) (drift : index.inner.drift = excess)
    (cap : index.maxBytes = state.index.maxBytes)
    (dirty : index.inner.dirty = state.index.inner.dirty)
    (permit : index.permit = state.index.permit) (notStart : state.pc ≠ .start)
    (notPicked : ¬pc.Picked) :
    Inv excess maxBytes { state with index := index, pc := pc } where
  drift := drift
  cap := cap.trans inv.cap
  dirty := by
    rw [dirty]
    rcases inv.dirty with clean | signalled | atStart
    · exact Or.inl clean
    · exact Or.inr (Or.inl (by simpa [State.Signalled, permit] using signalled))
    · exact absurd atStart notStart
  total := fun picked => absurd picked notPicked

/-- A step that moves on without touching the index. -/
theorem move (inv : Inv excess maxBytes state) (notStart : state.pc ≠ .start)
    (picked : pc.Picked → state.pc.Picked) :
    Inv excess maxBytes { state with pc := pc } where
  drift := inv.drift
  cap := inv.cap
  dirty := by
    rcases inv.dirty with clean | signalled | atStart
    · exact Or.inl clean
    · exact Or.inr (Or.inl signalled)
    · exact absurd atStart notStart
  total := fun after => inv.total (picked after)

end Inv

variable {excess maxBytes : UInt64} {state state' : State}

/-- Victims are taken until the total is under the cap; an excess under the cap cannot keep
it above. -/
theorem total_takeVictims (index : CacheIndex)
    (covered : index.inner.drift ≤ index.maxBytes) :
    index.takeVictims.1.inner.total ≤ index.maxBytes := by
  rcases popVictims_exhaustive index.maxBytes (le_refl index.inner.cache.len) with
    under | emptied
  · exact under
  · have drift := index.drift_takeVictims
    have total : index.takeVictims.1.inner.total = index.inner.drift := by
      rw [← drift]
      simp [CacheIndex.takeVictims, Inner.drift, LruCache.weigh, emptied]
    rw [total]
    exact covered

theorem Inv.task (covered : excess ≤ maxBytes) (inv : Inv excess maxBytes state)
    {index : CacheIndex} {pc : Pc} (taken : TaskStep state.index state.pc index pc) :
    Inv excess maxBytes { state with index := index, pc := pc } := by
  rcases state with ⟨before, at_, pending⟩
  cases taken with
  | takeDirty order once drained =>
      refine ⟨inv.drift, inv.cap, Or.inl rfl, ?_⟩
      intro picked
      split at picked <;> exact picked.elim
  | measure name size unmeasured measured => exact inv.move (by simp) id
  | walked measured => exact inv.move (by simp) id
  | setSize name size measured =>
      refine inv.work ?_ ?_ ?_ ?_ (by simp) id
      · rw [CacheIndex.drift_setSize]
        exact inv.drift
      all_goals
        unfold CacheIndex.setSize
        split <;> rfl
  | sized => exact inv.move (by simp) id
  | takeVictims =>
      have cap : before.maxBytes = maxBytes := inv.cap
      have drift : before.inner.drift = excess := inv.drift
      refine ⟨?_, cap, ?_, fun _ => Or.inl ?_⟩
      · rw [CacheIndex.drift_takeVictims]
        exact drift
      · have same : before.takeVictims.1.inner.dirty = before.inner.dirty :=
          dirty_popVictims _ _ _
        rw [same]
        rcases inv.dirty with clean | signalled | atStart
        · exact Or.inl clean
        · exact Or.inr (Or.inl signalled)
        · cases atStart
      · rw [← cap]
        exact total_takeVictims before (by rw [drift, cap]; exact covered)
  | park => exact inv.move (by simp) (fun _ => trivial)
  | woken permitted => exact inv.restart inv.drift rfl
  | shutdown => exact inv.move (by simp) False.elim

theorem Inv.sweep (inv : Inv excess maxBytes state) {absent : Text → Prop}
    {index : CacheIndex} {pc : Pc} (taken : SweepStep absent state.index state.pc index pc) :
    Inv excess maxBytes { state with index := index, pc := pc } := by
  rcases state with ⟨before, at_, pending⟩
  cases taken with
  | kept name unseen missing => exact inv.move (by simp) id
  | missed name unseen missing gone => exact inv.move (by simp) id
  | swept missing =>
      split
      · exact inv.restart inv.drift rfl
      · exact inv.move (by simp) id
  | drop missing =>
      refine inv.restart ?_ ?_
      · rw [CacheIndex.drift_dropMissing]
        exact inv.drift
      · unfold CacheIndex.dropMissing
        split <;> rfl

theorem Inv.step (covered : excess ≤ maxBytes) {absent : Text → Prop} {event : Event}
    (inv : Inv excess maxBytes state) (taken : Step absent state event state') :
    Inv excess maxBytes state' := by
  cases taken with
  | touch name =>
      exact ⟨(state.index.drift_touch name).trans inv.drift, inv.cap, inv.dirty, inv.total⟩
  | markChanged name =>
      exact inv.owe ((state.index.drift_markChanged name).trans inv.drift) rfl
  | recordBlob key size =>
      exact inv.owe ((state.index.drift_recordBlob key size).trans inv.drift) rfl
  | notify owed =>
      exact ⟨inv.drift, inv.cap, Or.inr (Or.inl (Or.inl rfl)), fun _ => Or.inr (Or.inl rfl)⟩
  | maintain taken => exact inv.task covered taken
  | evicted chosen => exact inv.move (by simp [chosen]) (fun _ => by simp [chosen, Pc.Picked])
  | tick parked =>
      unfold CacheIndex.snapshot
      split
      · exact inv.restart inv.drift rfl
      · exact inv.move (by simp [parked]) False.elim
  | sweep taken => exact inv.sweep taken

/-- Runs of the machine, with any `stat` results. -/
def Reached (mirrors blobs : List Scanned) (maxBytes : UInt64) : State → Prop :=
  Reachable (Starts mirrors blobs maxBytes) fun state state' =>
    ∃ event, Step (fun _ => True) state event state'

theorem Inv.reached {mirrors blobs : List Scanned}
    (covered : shadowed (oldestFirst mirrors blobs) ≤ maxBytes)
    (reached : Reached mirrors blobs maxBytes state) :
    Inv (shadowed (oldestFirst mirrors blobs)) maxBytes state := by
  apply Reachable.invariant reached
  · rintro _ rfl
    exact ⟨drift_new mirrors blobs maxBytes, rfl, Or.inr (Or.inr rfl), False.elim⟩
  · rintro before after inv ⟨event, taken⟩
    exact inv.step covered taken

/-! ## What the scan counted twice -/

/-- Nothing is left to do and nothing left to evict, whatever the total says. -/
structure Stranded (excess maxBytes : UInt64) (index : CacheIndex) : Prop where
  drift : index.inner.drift = excess
  cap : index.maxBytes = maxBytes
  clean : index.inner.dirty = ∅
  weightless : ∀ entry ∈ index.inner.cache.entries, entry.2 = 0

theorem Stranded.total {index : CacheIndex} (stranded : Stranded excess maxBytes index) :
    index.inner.total = excess := by
  have weight : index.inner.cache.weigh id = 0 := by
    apply List.sum_eq_zero
    intro size sizeMem
    rw [List.mem_map] at sizeMem
    rcases sizeMem with ⟨entry, entryMem, rfl⟩
    exact stranded.weightless entry entryMem
  have drift := stranded.drift
  rw [Inner.drift, weight, sub_zero] at drift
  exact drift

theorem mem_of_mem_popVictims {cap : UInt64} {fuel : ℕ} {inner : Inner} {entry : Text × UInt64}
    (entryMem : entry ∈ (popVictims cap fuel inner).1.cache.entries) :
    entry ∈ inner.cache.entries := by
  induction fuel generalizing inner with
  | zero => exact entryMem
  | succ fuel ih =>
      unfold popVictims at entryMem
      split at entryMem
      · split at entryMem
        · exact entryMem
        · rename_i name size rest popped
          rw [LruCache.entries_of_popLru popped]
          exact List.mem_append_left _ (ih entryMem)
      · exact entryMem

variable {mirrors blobs : List Scanned}

theorem Reached.step (reached : Reached mirrors blobs maxBytes state) {event : Event}
    (taken : Step (fun _ => True) state event state') : Reached mirrors blobs maxBytes state' :=
  Reachable.next reached ⟨event, taken⟩

theorem Reached.evictAll {index : CacheIndex} {victims : List Text} {pending : ℕ}
    (reached : Reached mirrors blobs maxBytes ⟨index, .evicting victims, pending⟩) :
    Reached mirrors blobs maxBytes ⟨index, .parked, pending⟩ := by
  induction victims with
  | nil => exact reached.step (.maintain .park)
  | cons name rest ih =>
      apply ih
      exact reached.step (.evicted rfl)

/-- A pass over a stranded index goes through and changes nothing about it. -/
theorem Stranded.pass {index : CacheIndex} (stranded : Stranded excess maxBytes index)
    (reached : Reached mirrors blobs maxBytes ⟨index, .start, 0⟩) :
    ∃ after, Reached mirrors blobs maxBytes ⟨after, .parked, 0⟩ ∧
      Stranded excess maxBytes after ∧ after.permit = index.permit := by
  have picking : Reached mirrors blobs maxBytes ⟨index.takeDirty, .picking, 0⟩ :=
    reached.step (.maintain (.takeDirty [] (by simp) (by simp [stranded.clean])))
  have evicting : Reached mirrors blobs maxBytes
      ⟨index.takeDirty.takeVictims.1, .evicting index.takeDirty.takeVictims.2, 0⟩ :=
    picking.step (.maintain .takeVictims)
  refine ⟨_, evicting.evictAll, ?_, rfl⟩
  refine ⟨?_, stranded.cap, dirty_popVictims _ _ _, ?_⟩
  · rw [CacheIndex.drift_takeVictims]
    exact stranded.drift
  · intro entry entryMem
    have before : entry ∈ index.takeDirty.inner.cache.entries := mem_of_mem_popVictims entryMem
    exact stranded.weightless entry before

/-- The index after `names` have been stored again as empty objects, one after the other. -/
def emptied (index : CacheIndex) (names : List Text) : CacheIndex :=
  names.foldl (fun index name => (index.recordBlob name 0).notifyOne) index

theorem Reached.emptied {pc : Pc} {index : CacheIndex} (names : List Text)
    (reached : Reached mirrors blobs maxBytes ⟨index, pc, 0⟩) :
    Reached mirrors blobs maxBytes ⟨emptied index names, pc, 0⟩ := by
  induction names generalizing index with
  | nil => exact reached
  | cons name rest ih =>
      apply ih
      have owed : Reached mirrors blobs maxBytes ⟨index.recordBlob name 0, pc, 1⟩ :=
        reached.step (.recordBlob name 0)
      exact owed.step (.notify (Nat.succ_pos 0))

theorem peek_emptied (index : CacheIndex) (names : List Text) (key : Text) :
    (emptied index names).inner.cache.peek key =
      if key ∈ names then some 0 else index.inner.cache.peek key := by
  induction names generalizing index with
  | nil => rfl
  | cons name rest ih =>
      have peeked := index.peek_recordBlob name key 0
      have unfolded : emptied index (name :: rest) =
        emptied (index.recordBlob name 0).notifyOne rest := rfl
      rw [unfolded, ih]
      by_cases later : key ∈ rest
      · simp [later]
      · simp only [later, if_false, List.mem_cons, or_false, CacheIndex.notifyOne]
        exact peeked

theorem emptied_preserves (index : CacheIndex) (names : List Text) :
    (emptied index names).inner.drift = index.inner.drift ∧
      (emptied index names).maxBytes = index.maxBytes ∧
      (emptied index names).inner.dirty = index.inner.dirty := by
  induction names generalizing index with
  | nil => exact ⟨rfl, rfl, rfl⟩
  | cons name rest ih =>
      rcases ih (index.recordBlob name 0).notifyOne with ⟨drift, cap, dirty⟩
      exact ⟨drift.trans (index.drift_recordBlob name 0), cap, dirty⟩

/-- Storing everything again as empty strands the index on its excess. -/
theorem exists_stranded (mirrors blobs : List Scanned) (maxBytes : UInt64) :
    ∃ index, Reached mirrors blobs maxBytes ⟨index, .start, 0⟩ ∧
      Stranded (shadowed (oldestFirst mirrors blobs)) maxBytes index := by
  let fresh := CacheIndex.new mirrors blobs maxBytes
  have started : Reached mirrors blobs maxBytes ⟨fresh, .start, 0⟩ := Reachable.start rfl
  rcases emptied_preserves fresh fresh.inner.cache.keys with ⟨drift, cap, dirty⟩
  refine ⟨_, started.emptied fresh.inner.cache.keys, ?_⟩
  refine ⟨drift.trans (drift_new mirrors blobs maxBytes), cap, ?_, ?_⟩
  · exact dirty.trans (dirty_foldl_enter _)
  · intro entry entryMem
    have tracked := LruCache.peek_of_mem entryMem
    rw [peek_emptied] at tracked
    split at tracked
    · exact (Option.some.inj tracked).symm
    · rename_i foreign
      exact absurd (LruCache.mem_keys_iff.mpr (by simp [tracked])) foreign

/-- The task can come to rest with the total at what the scan counted twice. -/
theorem exists_parked_excess (mirrors blobs : List Scanned) (maxBytes : UInt64) :
    ∃ state, Reached mirrors blobs maxBytes state ∧ state.pc = .parked ∧
      state.index.permit = false ∧ state.pending = 0 ∧
      state.index.inner.total = shadowed (oldestFirst mirrors blobs) := by
  rcases exists_stranded mirrors blobs maxBytes with ⟨index, reached, stranded⟩
  rcases stranded.pass reached with ⟨once, parked, strandedOnce, _⟩
  cases permitted : once.permit with
  | false => exact ⟨_, parked, rfl, permitted, rfl, strandedOnce.total⟩
  | true =>
      have woken : Reached mirrors blobs maxBytes ⟨{ once with permit := false }, .start, 0⟩ :=
        parked.step (.maintain (.woken permitted))
      have strandedWoken :
          Stranded (shadowed (oldestFirst mirrors blobs)) maxBytes { once with permit := false } :=
        ⟨strandedOnce.drift, strandedOnce.cap, strandedOnce.clean, strandedOnce.weightless⟩
      rcases strandedWoken.pass woken with ⟨twice, parkedTwice, strandedTwice, samePermit⟩
      exact ⟨_, parkedTwice, rfl, samePermit, rfl, strandedTwice.total⟩

/-! ## Main results -/

/-- Whoever sleeps has nothing to do: no entry awaits measurement and the total is under the
cap. -/
def NoLostWakeup (mirrors blobs : List Scanned) (maxBytes : UInt64) : Prop :=
  ∀ state, Reached mirrors blobs maxBytes state → state.pc = .parked →
    state.index.permit = false → state.pending = 0 →
    state.index.inner.dirty = ∅ ∧ state.index.inner.total ≤ maxBytes

/-- No wakeup is lost exactly when what the scan counted twice is itself under the cap. -/
theorem noLostWakeup_iff (mirrors blobs : List Scanned) (maxBytes : UInt64) :
    NoLostWakeup mirrors blobs maxBytes ↔ shadowed (oldestFirst mirrors blobs) ≤ maxBytes := by
  constructor
  · intro holds
    rcases exists_parked_excess mirrors blobs maxBytes with
      ⟨state, reached, parked, noPermit, quiet, total⟩
    rw [← total]
    exact (holds state reached parked noPermit quiet).2
  · intro covered state reached parked noPermit quiet
    have inv := Inv.reached covered reached
    have unsignalled : ¬state.Signalled := by simp [State.Signalled, noPermit, quiet]
    constructor
    · rcases inv.dirty with clean | signalled | atStart
      · exact clean
      · exact absurd signalled unsignalled
      · rw [parked] at atStart
        cases atStart
    · rcases inv.total (by simp [parked, Pc.Picked]) with under | signalled
      · exact under
      · exact absurd signalled unsignalled

/-- Two directories whose names differ only in bytes that are not UTF-8 are scanned under one
name: the evictor can fall asleep with three bytes too many on the books. -/
theorem lost_wakeup_of_lossy_names :
    let lossy : Text := ['\uFFFD', '.', 'g', 'i', 't']
    ¬NoLostWakeup [⟨lossy, 3, 0⟩, ⟨lossy, 4, 1⟩] [] 2 := by
  intro lossy holds
  rcases exists_parked_excess [⟨lossy, 3, 0⟩, ⟨lossy, 4, 1⟩] [] 2 with
    ⟨state, reached, parked, noPermit, quiet, total⟩
  have under := (holds state reached parked noPermit quiet).2
  rw [total] at under
  exact absurd under (by decide)

end GitCacheProxy.Index
