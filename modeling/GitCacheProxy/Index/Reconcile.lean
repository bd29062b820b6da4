import GitCacheProxy.Foundation.TransitionSystem
import GitCacheProxy.Index.Maintenance

/-!
# Reconciliation and live entries

The machine of `Index.Maintenance` with a disk that anyone may change at any
time, and a record of what requests reported since the last snapshot.  Mirrors
are reported by `mark_changed` and LFS objects by `record_blob`; the names of
the two never coincide.

During a pass nothing but a report touches an entry, so a reported entry stays
tracked with the reported size up to the drop phase (`Inv`).  There a mirror is
protected by its dirty mark.  An LFS object is never dirty: it survives if and
only if its `stat` did not come back empty.
-/

namespace GitCacheProxy.Index.Reconcile

open TransitionSystem Repo

/-- The machine, the disk, and the size each entry had when it was last reported since the
snapshot of the pass under way. -/
structure State where
  machine : Index.State
  onDisk : Text → Bool
  reported : Text → Option UInt64

/-- The name under which a step reports an entry. -/
def reports : Event → Option Text
  | .markChanged name => some name
  | .recordBlob key _ => some key
  | _ => none

/-- Requests report mirrors by `mark_changed` and objects by `record_blob`. -/
def Rightful : Event → Prop
  | .markChanged name => isLfsBlob name = false
  | .recordBlob key _ => isLfsBlob key = true
  | _ => True

/-- The record after a step: a snapshot clears it, a report enters the size now tracked. -/
def note (reported : Text → Option UInt64) (event : Event) (after : Index.State) :
    Text → Option UInt64 :=
  if event = .tick then fun _ => none
  else
    match reports event with
    | some name => Function.update reported name (after.index.inner.cache.peek name)
    | none => reported

inductive Step (state : State) : State → Prop where
  | machine {event : Event} {after : Index.State} (rightful : Rightful event)
      (taken : Index.Step (fun name => state.onDisk name = false) state.machine event after) :
      Step state { state with machine := after, reported := note state.reported event after }
  -- a clone, a rename into place, an eviction or an operator
  | disk (onDisk : Text → Bool) : Step state { state with onDisk := onDisk }

def Starts (mirrors blobs : List Scanned) (maxBytes : UInt64) (state : State) : Prop :=
  Index.Starts mirrors blobs maxBytes state.machine ∧ state.reported = fun _ => none

def Reached (mirrors blobs : List Scanned) (maxBytes : UInt64) : State → Prop :=
  Reachable (Starts mirrors blobs maxBytes) Step

/-- What the drop phase does to the entries that were reported since the snapshot and are on
disk: it keeps them with the sizes they were reported with. -/
def Keeps (state : State) (missing : List Text) : Prop :=
  ∀ key size, state.reported key = some size → state.onDisk key = true →
    (state.machine.index.dropMissing missing).inner.cache.peek key = some size

/-- A reconcile pass has taken its snapshot and not yet dropped anything. -/
def Sweeping : Pc → Prop
  | .statting _ _ => True
  | .dropping _ => True
  | _ => False

/-- Dirty names are mirrors; and throughout a pass, whatever was reported since the snapshot is
tracked as reported, and dirty if it is a mirror. -/
structure Inv (state : State) : Prop where
  mirrors : ∀ name ∈ state.machine.index.inner.dirty, isLfsBlob name = false
  tracked : Sweeping state.machine.pc → ∀ key size, state.reported key = some size →
    state.machine.index.inner.cache.peek key = some size
  dirty : Sweeping state.machine.pc → ∀ key, state.reported key ≠ none →
    isLfsBlob key = false → key ∈ state.machine.index.inner.dirty

variable {state state' : State} {mirrors blobs : List Scanned} {maxBytes : UInt64}

theorem dirty_taskStep {index after : CacheIndex} {pc pc' : Pc}
    (taken : TaskStep index pc after pc') :
    after.inner.dirty ⊆ index.inner.dirty ∧ ¬Sweeping pc' := by
  cases taken with
  | takeDirty order once drained =>
      refine ⟨by simp [CacheIndex.takeDirty], ?_⟩
      split <;> exact id
  | setSize name size measured =>
      refine ⟨?_, id⟩
      unfold CacheIndex.setSize
      split <;> exact fun _ mem => mem
  | takeVictims =>
      refine ⟨?_, id⟩
      intro name nameMem
      simpa [CacheIndex.takeVictims, dirty_popVictims] using nameMem
  | _ => exact ⟨fun _ mem => mem, id⟩

/-- Outside of a pass only the dirty set is of any concern. -/
theorem Inv.idle (inv : Inv state) {index : CacheIndex} {pc : Pc}
    (reported : Text → Option UInt64) (pending : ℕ)
    (shrinks : index.inner.dirty ⊆ state.machine.index.inner.dirty) (idle : ¬Sweeping pc) :
    Inv { state with machine := ⟨index, pc, pending⟩, reported := reported } where
  mirrors := fun name nameMem => inv.mirrors name (shrinks nameMem)
  tracked := fun sweeping => absurd sweeping idle
  dirty := fun sweeping => absurd sweeping idle

theorem Inv.report_mirror (inv : Inv state) {name : Text} (isMirror : isLfsBlob name = false) :
    Inv { state with
      machine.index := state.machine.index.markChanged name
      machine.pending := state.machine.pending + 1
      reported := Function.update state.reported name
        ((state.machine.index.markChanged name).inner.cache.peek name) } where
  mirrors := by
    intro other otherMem
    have cases : other = name ∨ other ∈ state.machine.index.inner.dirty := by
      simpa [CacheIndex.markChanged] using otherMem
    rcases cases with rfl | before
    · exact isMirror
    · exact inv.mirrors other before
  tracked := by
    intro sweeping key size reported
    by_cases same : key = name
    · subst same
      simpa using reported
    · simp only [Function.update_of_ne same] at reported
      simpa [same] using inv.tracked sweeping key size reported
  dirty := by
    intro sweeping key reported keyMirror
    by_cases same : key = name
    · subst same
      simp [CacheIndex.markChanged]
    · simp only [Function.update_of_ne same] at reported
      exact Finset.mem_insert_of_mem (inv.dirty sweeping key reported keyMirror)

theorem Inv.report_blob (inv : Inv state) {name : Text} (size : UInt64)
    (isBlob : isLfsBlob name = true) :
    Inv { state with
      machine.index := state.machine.index.recordBlob name size
      machine.pending := state.machine.pending + 1
      reported := Function.update state.reported name
        ((state.machine.index.recordBlob name size).inner.cache.peek name) } where
  mirrors := inv.mirrors
  tracked := by
    intro sweeping key reportedSize reported
    by_cases same : key = name
    · subst same
      simpa using reported
    · simp only [Function.update_of_ne same] at reported
      simpa [same] using inv.tracked sweeping key reportedSize reported
  dirty := by
    intro sweeping key reported keyMirror
    have same : key ≠ name := by
      rintro rfl
      rw [isBlob] at keyMirror
      cases keyMirror
    simp only [Function.update_of_ne same] at reported
    exact inv.dirty sweeping key reported keyMirror

theorem Inv.step (inv : Inv state) (taken : Step state state') : Inv state' := by
  cases taken with
  | disk onDisk => exact ⟨inv.mirrors, inv.tracked, inv.dirty⟩
  | machine rightful taken =>
      cases taken with
      | touch name =>
          refine ⟨inv.mirrors, ?_, inv.dirty⟩
          intro sweeping key size reported
          rw [CacheIndex.peek_touch]
          exact inv.tracked sweeping key size reported
      | markChanged name => exact inv.report_mirror rightful
      | recordBlob key size => exact inv.report_blob size rightful
      | notify owed => exact ⟨inv.mirrors, inv.tracked, inv.dirty⟩
      | maintain taken =>
          have spec := dirty_taskStep taken
          exact inv.idle _ _ spec.1 spec.2
      | evicted chosen => exact inv.idle _ _ (Finset.Subset.refl _) id
      | tick parked =>
          refine ⟨inv.mirrors, ?_, ?_⟩
          · intro _ key size reported
            cases reported
          · intro _ key reported
            exact absurd rfl reported
      | sweep taken =>
          rcases state with ⟨⟨index, pc, pending⟩, onDisk, reported⟩
          cases taken with
          | kept name unseen missing =>
              exact ⟨inv.mirrors, fun _ => inv.tracked trivial, fun _ => inv.dirty trivial⟩
          | missed name unseen missing gone =>
              exact ⟨inv.mirrors, fun _ => inv.tracked trivial, fun _ => inv.dirty trivial⟩
          | swept missing =>
              exact ⟨inv.mirrors, fun _ => inv.tracked trivial, fun _ => inv.dirty trivial⟩
          | drop missing =>
              apply inv.idle _ _ _ id
              rw [CacheIndex.dirty_dropMissing]

theorem Inv.reached (reached : Reached mirrors blobs maxBytes state) : Inv state := by
  apply Reachable.invariant reached
  · rintro ⟨machine, onDisk, reported⟩ ⟨rfl, rfl⟩
    refine ⟨?_, False.elim, False.elim⟩
    intro name nameMem
    have clean : (CacheIndex.new mirrors blobs maxBytes).inner.dirty = ∅ :=
      dirty_foldl_enter _
    rw [clean] at nameMem
    cases nameMem
  · intro before after inv taken
    exact inv.step taken

/-! ## Main results -/

/-- A pass forgets a live entry exactly when an LFS object that it found missing was stored
again in the meantime. -/
theorem keeps_iff (reached : Reached mirrors blobs maxBytes state) {missing : List Text}
    (dropping : state.machine.pc = .dropping missing) :
    Keeps state missing ↔
      ∀ key ∈ missing, isLfsBlob key = true → state.onDisk key = true →
        state.reported key = none := by
  have inv := Inv.reached reached
  have sweeping : Sweeping state.machine.pc := by simp [dropping, Sweeping]
  constructor
  · intro keeps key keyMem isBlob present
    by_contra reported
    rcases Option.ne_none_iff_exists'.mp reported with ⟨size, reported⟩
    have kept := keeps key size reported present
    have notDirty : key ∉ state.machine.index.inner.dirty := by
      intro dirty
      rw [inv.mirrors key dirty] at isBlob
      cases isBlob
    rw [CacheIndex.peek_dropMissing, if_pos ⟨keyMem, notDirty⟩] at kept
    cases kept
  · intro absent key size reported present
    rw [CacheIndex.peek_dropMissing, if_neg]
    · exact inv.tracked sweeping key size reported
    · rintro ⟨keyMem, notDirty⟩
      cases kind : isLfsBlob key with
      | false => exact notDirty (inv.dirty sweeping key (by simp [reported]) kind)
      | true =>
          rw [absent key keyMem kind present] at reported
          cases reported

/-! ## An object deleted by hand and downloaded again -/

def deletedKey : Text := lfsObjectKey (List.replicate 64 '0')

/-- The one object found at startup. -/
def scannedBlob : Scanned := ⟨deletedKey, 5, 0⟩

def quietIndex : CacheIndex := (CacheIndex.new [] [scannedBlob] 10).takeDirty

/-- The sweep found the object missing; before the drop it was downloaded again. -/
def redownloaded : State where
  machine := ⟨quietIndex.takeVictims.1.recordBlob deletedKey 5, .dropping [deletedKey], 1⟩
  onDisk := fun _ => true
  reported := Function.update (fun _ => none) deletedKey (some 5)

section Derive

variable {index index' : CacheIndex} {pc pc' : Pc} {pending : ℕ} {onDisk : Text → Bool}
  {reported : Text → Option UInt64}

theorem Reached.maintain
    (reached : Reached mirrors blobs maxBytes ⟨⟨index, pc, pending⟩, onDisk, reported⟩)
    (taken : TaskStep index pc index' pc') :
    Reached mirrors blobs maxBytes ⟨⟨index', pc', pending⟩, onDisk, reported⟩ := by
  have rightful : Rightful .task := trivial
  exact Reachable.next reached (.machine rightful (.maintain taken))

theorem Reached.sweep
    (reached : Reached mirrors blobs maxBytes ⟨⟨index, pc, pending⟩, onDisk, reported⟩)
    (taken : SweepStep (fun name => onDisk name = false) index pc index' pc') :
    Reached mirrors blobs maxBytes ⟨⟨index', pc', pending⟩, onDisk, reported⟩ := by
  have rightful : Rightful .task := trivial
  exact Reachable.next reached (.machine rightful (.sweep taken))

end Derive

theorem reached_redownloaded : Reached [] [scannedBlob] 10 redownloaded := by
  let index := quietIndex.takeVictims.1
  have started : Reached [] [scannedBlob] 10
      ⟨⟨CacheIndex.new [] [scannedBlob] 10, .start, 0⟩, fun _ => true, fun _ => none⟩ :=
    Reachable.start ⟨rfl, rfl⟩
  have picking : Reached [] [scannedBlob] 10
      ⟨⟨quietIndex, .picking, 0⟩, fun _ => true, fun _ => none⟩ :=
    started.maintain (.takeDirty [] (by simp) rfl)
  have evicting : Reached [] [scannedBlob] 10
      ⟨⟨index, .evicting [], 0⟩, fun _ => true, fun _ => none⟩ :=
    picking.maintain .takeVictims
  have parked : Reached [] [scannedBlob] 10
      ⟨⟨index, .parked, 0⟩, fun _ => true, fun _ => none⟩ :=
    evicting.maintain .park
  have rightfulTick : Rightful .tick := trivial
  have statting : Reached [] [scannedBlob] 10
      ⟨⟨index, .statting [deletedKey] [], 0⟩, fun _ => true, fun _ => none⟩ :=
    Reachable.next parked (.machine rightfulTick (.tick rfl))
  have deleted : Reached [] [scannedBlob] 10
      ⟨⟨index, .statting [deletedKey] [], 0⟩, fun _ => false, fun _ => none⟩ :=
    Reachable.next statting (.disk fun _ => false)
  have dropping : Reached [] [scannedBlob] 10
      ⟨⟨index, .dropping [deletedKey], 0⟩, fun _ => false, fun _ => none⟩ :=
    (deleted.sweep (.missed deletedKey [] [] rfl)).sweep (.swept [deletedKey])
  have renamed : Reached [] [scannedBlob] 10
      ⟨⟨index, .dropping [deletedKey], 0⟩, fun _ => true, fun _ => none⟩ :=
    Reachable.next dropping (.disk fun _ => true)
  have isBlob : Rightful (.recordBlob deletedKey 5) := by
    have decided : isLfsBlob deletedKey = true := by decide
    exact decided
  have stored := Reachable.next renamed (.machine isBlob (.recordBlob deletedKey 5))
  simp only [note, reports, CacheIndex.peek_recordBlob, reduceCtorEq, if_true, if_false] at stored
  exact stored

/-- The live object is forgotten. -/
theorem forgets_redownloaded :
    Reached [] [scannedBlob] 10 redownloaded ∧
      redownloaded.machine.pc = .dropping [deletedKey] ∧
      redownloaded.reported deletedKey = some 5 ∧ redownloaded.onDisk deletedKey = true ∧
      ¬Keeps redownloaded [deletedKey] := by
  refine ⟨reached_redownloaded, rfl, by simp [redownloaded], rfl, ?_⟩
  intro keeps
  have kept := keeps deletedKey 5 (by simp [redownloaded]) rfl
  rw [CacheIndex.peek_dropMissing, if_pos] at kept
  · cases kept
  · exact ⟨by simp, by decide⟩

theorem keeps_iff_redownloaded :
    Keeps redownloaded [deletedKey] ↔
      ∀ key ∈ [deletedKey], isLfsBlob key = true → redownloaded.onDisk key = true →
        redownloaded.reported key = none :=
  keeps_iff reached_redownloaded rfl

end GitCacheProxy.Index.Reconcile
