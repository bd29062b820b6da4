import GitCacheProxy.Lfs.Machine

/-!
# Content addressing of the LFS store

Any number of requests, dropped or not, with evictions and crashes.  A file gets
into the place of an object by the rename of a temporary file, and only after
its content has been hashed; in between nobody else touches it, because its
number is that of one task.  So whatever is in the place of an object hashes to
its name.

That the object is *still there* when `ensure_object` returns is another matter:
nothing keeps an eviction from removing it after it was found.
-/

namespace GitCacheProxy.Lfs

open Repo FileTree TransitionSystem

universe u

variable {Task : Type u}

/-- The shared state and where every task is. -/
structure State (Task : Type u) where
  shared : Shared Task
  tasks : Task → Stage

/-- One action of a task, an eviction where `mayEvict` allows it, or a crash with the restart. -/
inductive Step [DecidableEq Task] (root : Path) (hash : Bytes → Text)
    (mayEvict : State Task → Text → Prop) (state : State Task) : State Task → Prop where
  | act (task : Task) (shared : Shared Task) (stage : Stage)
      (taken : Act root hash task state.shared (state.tasks task) shared stage) :
      Step root hash mayEvict state ⟨shared, Function.update state.tasks task stage⟩
  | evict (oid : Text) (disk : Disk) (valid : validLfsOid oid = true)
      (allowed : mayEvict state oid)
      (removed : state.shared.disk.removeFile (lfsObjectPath root oid) = some disk) :
      Step root hash mayEvict state { state with shared.disk := disk }
  | crash (pid : ℕ) (index : Index.CacheIndex) (failure : Option Disk) :
      Step root hash mayEvict state {
        shared := {
          disk := Git.GitCache.discard state.shared.disk (incomingPath root) failure
          index := index
          owner := fun _ => none
          counter := 0
          pid := pid }
        tasks := fun _ => .idle }

/-- Whatever is in the place of an object is a file that hashes to its name. -/
def Addressed (root : Path) (hash : Bytes → Text) (disk : Disk) : Prop :=
  ∀ oid, validLfsOid oid = true → ∀ node, disk.get? (lfsObjectPath root oid) = some node →
    ∃ content, node = .file content ∧ hash content = oid

/-- A server starts on a store that is content-addressed. -/
structure Starts (root : Path) (hash : Bytes → Text) (state : State Task) : Prop where
  unowned : ∀ oid, state.shared.owner oid = none
  idle : ∀ task, state.tasks task = .idle
  addressed : Addressed root hash state.shared.disk

/-! ## What one action does -/

section Actions

variable {root : Path} {hash : Bytes → Text} {task : Task} {shared shared' : Shared Task}
  {stage stage' : Stage} {op : Op} {oid : Text} {n : ℕ}

theorem Performs.temp (performs : Performs stage op) {n : ℕ} (own : op.temp? = some n) :
    stage.temp? = some n := by
  cases performs with
  | prepare oid done => cases own
  | shard oid m done => cases own
  | _ => exact own

theorem Performs.verified (performs : Performs stage (.store n oid)) :
    stage.verified = some (n, oid) := by
  cases performs with
  | store oid n bytes => rfl
  | orphan op => rfl

theorem Performs.valid (performs : Performs stage op)
    (valid : ∀ oid, stage.oid? = some oid → validLfsOid oid = true) : op.Valid := by
  cases performs with
  | shard oid m done => exact valid oid rfl
  | store oid m bytes => exact valid oid rfl
  | orphan op =>
      cases op with
      | makeShard oid done => exact valid oid rfl
      | store m oid => exact valid oid rfl
      | _ => trivial
  | _ => trivial

theorem temp_of_verified (verified : stage.verified = some (n, oid)) : stage.temp? = some n := by
  cases stage with
  | sharding other m => cases verified; rfl
  | sizing other m => cases verified; rfl
  | moving other m bytes => cases verified; rfl
  | orphan op =>
      cases op with
      | store m other => cases verified; rfl
      | _ => cases verified
  | _ => cases verified

namespace Act

theorem pid (taken : Act root hash task shared stage shared' stage') :
    shared'.pid = shared.pid := by
  cases taken with
  | succeed oid guarded outcome => cases guarded <;> rfl
  | drop stage op awaits own =>
      cases holds : stage.held with
      | none => simp [Shared.release]
      | some oid => simp [Shared.release]
  | _ => rfl

/-- An action carries out one file-system call of its stage, or none. -/
theorem disk (taken : Act root hash task shared stage shared' stage') :
    shared'.disk = shared.disk ∨
      ∃ op, Performs stage op ∧ op.perform root shared.pid shared.disk = some shared'.disk := by
  cases taken with
  | prepared oid disk made => exact Or.inr ⟨_, .prepare _ _, made⟩
  | prepareFails oid done disk partly => exact Or.inr ⟨_, .prepare _ _, partly⟩
  | opened oid n disk created => exact Or.inr ⟨_, .create _ _, created⟩
  | chunk oid n bytes disk written => exact Or.inr ⟨_, .append _ _ _, written⟩
  | discarded oid n disk removed => exact Or.inr ⟨_, .unlink _ _, removed⟩
  | sharded oid n disk made => exact Or.inr ⟨_, .shard _ _ _, made⟩
  | shardFails oid n done disk partly => exact Or.inr ⟨_, .shard _ _ _, partly⟩
  | moved oid n bytes disk renamed => exact Or.inr ⟨_, .store _ _ _, renamed⟩
  | orphanRuns op disk performed => exact Or.inr ⟨_, .orphan _, performed⟩
  | succeed oid guarded outcome =>
      left
      cases guarded <;> rfl
  | drop stage op awaits own =>
      left
      cases holds : stage.held with
      | none => simp [Shared.release]
      | some oid => simp [Shared.release]
  | _ => exact Or.inl rfl

/-- A task stays with its object, and takes up only well-formed names. -/
theorem valid (taken : Act root hash task shared stage shared' stage')
    (valid : ∀ oid, stage.oid? = some oid → validLfsOid oid = true) :
    ∀ oid, stage'.oid? = some oid → validLfsOid oid = true := by
  intro other isOid
  cases taken with
  | arrive oid size validOid =>
      cases isOid
      exact validOid
  | hashed oid n content found =>
      split at isOid
      · exact valid other isOid
      · exact valid other isOid
  | drop stage op awaits own =>
      cases op with
      | none => cases isOid
      | some call =>
          have performs := own call rfl
          cases performs with
          | shard oid n done => exact valid other isOid
          | store oid n bytes => exact valid other isOid
          | orphan call => cases awaits
          | _ => cases isOid
  | fail oid => cases isOid
  | serve oid => cases isOid
  | orphanRuns op disk performed => cases isOid
  | orphanFails op => cases isOid
  | _ => exact valid other isOid

/-- A task takes the number of its temporary file off the counter, and keeps it. -/
theorem temp (taken : Act root hash task shared stage shared' stage')
    (own : stage'.temp? = some n) :
    stage.temp? = some n ∨ (n = shared.counter ∧ shared'.counter = shared.counter + 1) := by
  cases taken with
  | name oid =>
      cases own
      exact Or.inr ⟨rfl, rfl⟩
  | hashed oid m content found =>
      split at own
      · exact Or.inl own
      · exact Or.inl own
  | drop stage op awaits performs =>
      cases op with
      | none => cases own
      | some call => exact Or.inl ((performs call rfl).temp own)
  | opened oid m disk created => exact Or.inl own
  | openFails oid m => exact Or.inl own
  | chunk oid m bytes disk written => exact Or.inl own
  | streamed oid m => exact Or.inl own
  | streamFails oid m => exact Or.inl own
  | sharded oid m disk made => exact Or.inl own
  | sized oid m bytes length => exact Or.inl own
  | _ => cases own

theorem counter (taken : Act root hash task shared stage shared' stage') :
    shared.counter ≤ shared'.counter := by
  cases taken with
  | name oid => exact Nat.le_succ _
  | succeed oid guarded outcome => cases guarded <;> exact le_refl _
  | drop stage op awaits own =>
      cases holds : stage.held with
      | none => simp [Shared.release]
      | some oid => simp [Shared.release]
  | _ => exact le_refl _

/-- A temporary file counts as verified once its content has been hashed. -/
theorem verified (taken : Act root hash task shared stage shared' stage')
    (isVerified : stage'.verified = some (n, oid)) :
    (stage.verified = some (n, oid) ∧
        ∀ op, Performs stage op → op.temp? = none ∨ shared'.disk = shared.disk) ∨
      (shared'.disk = shared.disk ∧ ∃ content,
        shared.disk.get? (tmpPath root shared.pid n) = some (.file content) ∧
          hash content = oid) := by
  cases taken with
  | hashed other m content found =>
      split at isVerified
      · rename_i same
        cases isVerified
        exact Or.inr ⟨rfl, content, found, same⟩
      · cases isVerified
  | sharded other m disk made =>
      left
      refine ⟨isVerified, ?_⟩
      intro op performs
      cases performs with
      | shard _ _ _ => exact Or.inl rfl
  | sized other m bytes length =>
      left
      exact ⟨isVerified, fun op _ => Or.inr rfl⟩
  | drop stage op awaits own =>
      left
      refine ⟨?_, fun call _ => Or.inr ?_⟩
      · cases op with
        | none => cases isVerified
        | some call =>
            have performs := own call rfl
            cases performs with
            | store oid m bytes => exact isVerified
            | orphan call => cases awaits
            | _ => cases isVerified
      · cases holds : stage.held with
        | none => simp [Shared.release]
        | some oid => simp [Shared.release]
  | _ => cases isVerified

/-- A task counts on an object that it has seen, or has moved into place itself. -/
theorem relies (taken : Act root hash task shared stage shared' stage')
    (isRelied : stage'.relies = some oid) :
    stage.relies = some oid ∨ (shared'.disk = shared.disk ∧ shared.cached root oid = true) ∨
      ∃ n, (Op.store n oid).perform root shared.pid shared.disk = some shared'.disk := by
  cases taken with
  | probeHit other size there =>
      cases isRelied
      exact Or.inr (Or.inl ⟨rfl, there⟩)
  | recheckHit other size there =>
      cases isRelied
      exact Or.inr (Or.inl ⟨rfl, there⟩)
  | moved other m bytes disk renamed =>
      cases isRelied
      exact Or.inr (Or.inr ⟨m, renamed⟩)
  | hashed other m content found =>
      split at isRelied
      · cases isRelied
      · cases isRelied
  | drop stage op awaits own => cases op <;> cases isRelied
  | touch other guarded => exact Or.inl isRelied
  | record other bytes => exact Or.inl isRelied
  | notify other => exact Or.inl isRelied
  | _ => cases isRelied

end Act

end Actions

/-! ## The invariant -/

section Invariant

variable {root : Path} {hash : Bytes → Text} {task : Task} {shared shared' : Shared Task}
  {stage stage' : Stage} {tasks : Task → Stage} {state state' : State Task}
  {mayEvict : State Task → Text → Prop}

/-- What holds in every state of a run. -/
structure Inv (root : Path) (hash : Bytes → Text) (state : State Task) : Prop where
  locks : LockTable.Consistent Stage.held state.shared.owner state.tasks
  valid : ∀ task oid, (state.tasks task).oid? = some oid → validLfsOid oid = true
  numbered : ∀ task n, (state.tasks task).temp? = some n → n < state.shared.counter
  distinct : ∀ first second n, (state.tasks first).temp? = some n →
    (state.tasks second).temp? = some n → first = second
  verified : ∀ task n oid, (state.tasks task).verified = some (n, oid) →
    ∀ node, state.shared.disk.get? (tmpPath root state.shared.pid n) = some node →
      ∃ content, node = .file content ∧ hash content = oid
  addressed : Addressed root hash state.shared.disk

theorem Inv.of_starts (starts : Starts root hash state) : Inv root hash state where
  locks := by
    intro task oid
    simp [starts.idle task, starts.unowned oid, Stage.held]
  valid := by
    intro task oid isOid
    rw [starts.idle task] at isOid
    cases isOid
  numbered := by
    intro task n own
    rw [starts.idle task] at own
    cases own
  distinct := by
    intro first second n own
    rw [starts.idle first] at own
    cases own
  verified := by
    intro task n oid isVerified
    rw [starts.idle task] at isVerified
    cases isVerified
  addressed := starts.addressed

namespace Inv

theorem opValid (inv : Inv root hash state) {op : Op}
    (performs : Performs (state.tasks task) op) : op.Valid :=
  performs.valid (inv.valid task)

theorem addressed_act (inv : Inv root hash state)
    (taken : Act root hash task state.shared (state.tasks task) shared' stage') :
    Addressed root hash shared'.disk := by
  intro oid valid node found
  rcases taken.disk with same | ⟨op, performs, performed⟩
  · rw [same] at found
    exact inv.addressed oid valid node found
  · have opValid := inv.opValid performs
    by_cases stores : ∃ n, op = .store n oid
    · rcases stores with ⟨n, rfl⟩
      -- what gets into the place of the object has been hashed
      apply inv.verified task n oid performs.verified
      rw [Tree.get?_rename performed, if_pos (List.prefix_refl _), List.drop_length,
        List.append_nil] at found
      exact found
    · rw [Op.get?_perform performed
        (Op.not_touches_object opValid valid (fun n isStore => stores ⟨n, isStore⟩))] at found
      exact inv.addressed oid valid node found

theorem temp_act (inv : Inv root hash state)
    (taken : Act root hash task state.shared (state.tasks task) shared' stage') {n : ℕ}
    (notOwn : ∀ op, Performs (state.tasks task) op → op.temp? = some n →
      shared'.disk = state.shared.disk) :
    shared'.disk.get? (tmpPath root shared'.pid n) =
      state.shared.disk.get? (tmpPath root state.shared.pid n) := by
  rw [taken.pid]
  rcases taken.disk with same | ⟨op, performs, performed⟩
  · rw [same]
  · by_cases own : op.temp? = some n
    · rw [notOwn op performs own]
    · exact Op.get?_perform performed (Op.not_touches_temp (inv.opValid performs) own)

/-- Others may do to the disk what puts nothing new into the store, and to the index anything. -/
theorem frame (inv : Inv root hash state) {disk : Disk} {index : Index.CacheIndex}
    (old : ∀ rest node, disk.get? (root ++ lfsObjectsDir :: rest) = some node →
      state.shared.disk.get? (root ++ lfsObjectsDir :: rest) = some node) :
    Inv root hash { state with shared.disk := disk, shared.index := index } where
  locks := inv.locks
  valid := inv.valid
  numbered := inv.numbered
  distinct := inv.distinct
  verified := by
    intro task n oid isVerified node found
    apply inv.verified task n oid isVerified
    rw [tmpPath_eq] at found ⊢
    exact old _ node found
  addressed := by
    intro oid valid node found
    apply inv.addressed oid valid
    rw [lfsObjectPath_eq valid] at found ⊢
    exact old _ node found

theorem addressed_discard (addressed : Addressed root hash shared.disk) (failure : Option Disk) :
    Addressed root hash (Git.GitCache.discard shared.disk (incomingPath root) failure) := by
  intro oid valid node found
  have notAbove : ¬incomingPath root <+: lfsObjectPath root oid := by
    rw [incomingPath, lfsObjectPath_eq valid, List.prefix_append_right_inj]
    simp only [List.cons_prefix_cons, true_and]
    exact fun above => shard_ne_incoming valid above.1.symm
  have notBelow : ¬lfsObjectPath root oid <+: incomingPath root := by
    intro below
    have length := below.length_le
    rw [incomingPath, lfsObjectPath_eq valid] at length
    simp at length
  have notRoot : incomingPath root ≠ [] := by simp [incomingPath]
  apply addressed oid valid
  rw [← found]
  unfold Git.GitCache.discard Git.cleanStaging
  split
  · rfl
  · rfl
  · cases failure with
    | none => simp [Tree.get?_remove notRoot, notAbove]
    | some left => simp [Tree.get?_graft notRoot, notAbove, notBelow]

variable [DecidableEq Task]

theorem verified_act (inv : Inv root hash state)
    (taken : Act root hash task state.shared (state.tasks task) shared' stage') :
    ∀ other n oid, (Function.update state.tasks task stage' other).verified = some (n, oid) →
      ∀ node, shared'.disk.get? (tmpPath root shared'.pid n) = some node →
        ∃ content, node = .file content ∧ hash content = oid := by
  intro other n oid isVerified node found
  by_cases isTask : other = task
  · subst isTask
    rw [Function.update_self] at isVerified
    rcases taken.verified isVerified with ⟨before, notTemp⟩ | ⟨same, content, inPlace, hashed⟩
    · rw [inv.temp_act taken] at found
      · exact inv.verified other n oid before node found
      · intro op performs own
        rcases notTemp op performs with none_ | same
        · rw [none_] at own
          cases own
        · exact same
    · rw [taken.pid, same, inPlace] at found
      cases found
      exact ⟨content, rfl, hashed⟩
  · rw [Function.update_of_ne isTask] at isVerified
    rw [inv.temp_act taken] at found
    · exact inv.verified other n oid isVerified node found
    · intro op performs own
      exact absurd (inv.distinct other task n (temp_of_verified isVerified) (performs.temp own))
        isTask

theorem numbered_act (inv : Inv root hash state)
    (taken : Act root hash task state.shared (state.tasks task) shared' stage') :
    ∀ other n, (Function.update state.tasks task stage' other).temp? = some n →
      n < shared'.counter := by
  intro other n own
  by_cases isTask : other = task
  · subst isTask
    rw [Function.update_self] at own
    rcases taken.temp own with before | ⟨rfl, next⟩
    · exact (inv.numbered other n before).trans_le taken.counter
    · omega
  · rw [Function.update_of_ne isTask] at own
    exact (inv.numbered other n own).trans_le taken.counter

theorem distinct_act (inv : Inv root hash state)
    (taken : Act root hash task state.shared (state.tasks task) shared' stage') :
    ∀ first second n, (Function.update state.tasks task stage' first).temp? = some n →
      (Function.update state.tasks task stage' second).temp? = some n → first = second := by
  -- a number that the task has now is its own from before, or off the counter
  have foreign {other : Task} {n : ℕ} (own : stage'.temp? = some n)
      (theirs : (state.tasks other).temp? = some n) : other = task := by
    rcases taken.temp own with before | ⟨rfl, _⟩
    · exact inv.distinct other task n theirs before
    · exact absurd (inv.numbered other _ theirs) (lt_irrefl _)
  intro first second n firstOwn secondOwn
  by_cases firstTask : first = task
  · by_cases secondTask : second = task
    · rw [firstTask, secondTask]
    · rw [firstTask, Function.update_self] at firstOwn
      rw [Function.update_of_ne secondTask] at secondOwn
      exact absurd (foreign firstOwn secondOwn) secondTask
  · rw [Function.update_of_ne firstTask] at firstOwn
    by_cases secondTask : second = task
    · rw [secondTask, Function.update_self] at secondOwn
      exact absurd (foreign secondOwn firstOwn) firstTask
    · rw [Function.update_of_ne secondTask] at secondOwn
      exact inv.distinct first second n firstOwn secondOwn

theorem consistent_act (taken : Act root hash task shared (tasks task) shared' stage')
    (locks : LockTable.Consistent Stage.held shared.owner tasks) :
    LockTable.Consistent Stage.held shared'.owner (Function.update tasks task stage') := by
  generalize at_ : tasks task = stage at taken
  have holds : (tasks task).held = stage.held := congrArg Stage.held at_
  cases taken with
  | lock oid size free => exact locks.acquire free holds rfl
  | fail oid => exact locks.release holds rfl
  | hashed oid n content found =>
      apply locks.frame
      rw [holds]
      split
      · rfl
      · rfl
  | touch oid guarded =>
      cases guarded with
      | true => exact locks.frame holds.symm
      | false => exact locks.frame holds.symm
  | succeed oid guarded outcome =>
      cases guarded with
      | true => exact locks.release holds rfl
      | false => exact locks.frame holds.symm
  | drop stage op awaits own =>
      have unheld : (Stage.dropped op).held = none := by cases op <;> rfl
      cases held : stage.held with
      | none => exact locks.frame (by rw [unheld, holds, held])
      | some oid => exact locks.release (holds.trans held) unheld
  | _ => exact locks.frame holds.symm

theorem act (inv : Inv root hash state)
    (taken : Act root hash task state.shared (state.tasks task) shared' stage') :
    Inv root hash ⟨shared', Function.update state.tasks task stage'⟩ where
  locks := consistent_act taken inv.locks
  valid := (Function.forall_update_iff state.tasks fun _ stage =>
      ∀ oid, stage.oid? = some oid → validLfsOid oid = true).mpr
    ⟨taken.valid (inv.valid task), fun other _ => inv.valid other⟩
  numbered := inv.numbered_act taken
  distinct := inv.distinct_act taken
  verified := inv.verified_act taken
  addressed := inv.addressed_act taken

theorem step (inv : Inv root hash state) (taken : Step root hash mayEvict state state') :
    Inv root hash state' := by
  cases taken with
  | act task shared stage taken => exact inv.act taken
  | evict oid disk valid allowed removed =>
      apply inv.frame
      exact fun rest node => Tree.get?_of_removeFile removed
  | crash pid index failure =>
      apply of_starts
      exact ⟨fun _ => rfl, fun _ => rfl, addressed_discard inv.addressed failure⟩

end Inv

theorem inv_of_reachable [DecidableEq Task]
    (reached : Reachable (Starts root hash) (Step root hash mayEvict) state) :
    Inv root hash state :=
  reached.invariant (fun _ starts => .of_starts starts) (fun _ _ inv taken => inv.step taken)

/-! ## Objects that somebody counts on -/

/-- No request has found the object, or put it there, and is still to return. -/
def Unneeded (state : State Task) (oid : Text) : Prop :=
  ∀ task, (state.tasks task).relies ≠ some oid

/-- Every object that a request counts on is there. -/
def Relied (root : Path) (state : State Task) : Prop :=
  ∀ task oid, (state.tasks task).relies = some oid →
    state.shared.disk.Exists (lfsObjectPath root oid)

theorem oid_of_relies {oid : Text} (relies : stage.relies = some oid) : stage.oid? = some oid := by
  cases stage with
  | hit other guarded => exact relies
  | recording other bytes => exact relies
  | notifying other => exact relies
  | returning other guarded outcome => exact relies
  | _ => cases relies

/-- No request takes an object away. -/
theorem Inv.exists_act (inv : Inv root hash state)
    (taken : Act root hash task state.shared (state.tasks task) shared' stage') {oid : Text}
    (valid : validLfsOid oid = true)
    (present : state.shared.disk.Exists (lfsObjectPath root oid)) :
    shared'.disk.Exists (lfsObjectPath root oid) := by
  rcases taken.disk with same | ⟨op, performs, performed⟩
  · rwa [same]
  · by_cases stores : ∃ n, op = .store n oid
    · rcases stores with ⟨n, rfl⟩
      exact Tree.exists_of_rename performed present (not_temp_above_object valid)
    · rwa [Tree.Exists, Op.get?_perform performed (Op.not_touches_object (inv.opValid performs)
        valid (fun n isStore => stores ⟨n, isStore⟩))]

theorem Inv.get?_beside (inv : Inv root hash state)
    (taken : Act root hash task state.shared (state.tasks task) shared' stage') {path : Path}
    (beside : BesideStore root path) :
    shared'.disk.get? path = state.shared.disk.get? path := by
  rcases taken.disk with same | ⟨op, performs, performed⟩
  · rw [same]
  · exact Op.get?_perform performed (Op.not_touches_beside (inv.opValid performs) beside)

theorem serves_or_relies {oid : Text} (needs : stage.needs = some oid) :
    stage = .serving oid ∨ stage.relies = some oid := by
  cases stage with
  | serving other =>
      cases needs
      exact Or.inl rfl
  | _ => exact Or.inr needs

theorem needs_of_relies {oid : Text} (relies : stage.relies = some oid) :
    stage.needs = some oid := by
  cases stage with
  | serving other => cases relies
  | _ => exact relies

theorem oid_of_needs {oid : Text} (needs : stage.needs = some oid) : stage.oid? = some oid := by
  rcases serves_or_relies needs with rfl | relies
  · rfl
  · exact oid_of_relies relies

/-- Only `ensure_object` lets a request open a file. -/
theorem Act.serves (taken : Act root hash task shared stage shared' stage') {oid : Text}
    (serves : stage' = .serving oid) : stage.relies = some oid := by
  cases taken with
  | succeed other guarded outcome =>
      cases serves
      rfl
  | hashed other n content found =>
      split at serves
      · cases serves
      · cases serves
  | drop stage op awaits own => cases op <;> cases serves
  | _ => cases serves

/-- What a request counts on is there after its own actions. -/
theorem Inv.exists_relied (inv : Inv root hash state)
    (taken : Act root hash task state.shared (state.tasks task) shared' stage') {oid : Text}
    (valid : validLfsOid oid = true)
    (before : (state.tasks task).relies = some oid →
      state.shared.disk.Exists (lfsObjectPath root oid))
    (relies : stage'.relies = some oid) : shared'.disk.Exists (lfsObjectPath root oid) := by
  rcases taken.relies relies with already | ⟨same, there⟩ | ⟨n, stored⟩
  · exact inv.exists_act taken valid (before already)
  · simp only [same]
    simpa [Shared.cached] using there
  · simp only [Tree.Exists, Tree.get?_rename stored, List.prefix_rfl, if_true, List.drop_length,
      List.append_nil]
    exact (Tree.rename_spec stored).2.2.2.2

theorem Inv.relied_act [DecidableEq Task] (inv : Inv root hash state) (relied : Relied root state)
    (taken : Act root hash task state.shared (state.tasks task) shared' stage') :
    Relied root ⟨shared', Function.update state.tasks task stage'⟩ := by
  intro other oid relies
  have valid : validLfsOid oid = true := (inv.act taken).valid other oid (oid_of_relies relies)
  by_cases isTask : other = task
  · subst isTask
    simp only [Function.update_self] at relies
    exact inv.exists_relied taken valid (relied other oid) relies
  · simp only [Function.update_of_ne isTask] at relies
    exact inv.exists_act taken valid (relied other oid relies)

theorem Inv.relied_step [DecidableEq Task] (inv : Inv root hash state)
    (relied : Relied root state) (taken : Step root hash Unneeded state state') :
    Relied root state' := by
  cases taken with
  | act task shared stage taken => exact inv.relied_act relied taken
  | evict victim disk valid unneeded removed =>
      intro task oid relies
      have present := relied task oid relies
      have different : lfsObjectPath root oid ≠ lfsObjectPath root victim := by
        intro same
        have oidValid := inv.valid task oid (oid_of_relies relies)
        have above : lfsObjectPath root oid <+: lfsObjectPath root victim := by rw [same]
        have equal := (object_prefix_iff oidValid valid).mp above
        exact unneeded task (equal ▸ relies)
      simp only [Tree.Exists, Tree.get?_removeFile removed, if_neg different]
      exact present
  | crash pid index failure =>
      intro task oid relies
      cases relies

theorem relied_of_reachable [DecidableEq Task]
    (reached : Reachable (Starts root hash) (Step root hash Unneeded) state) :
    Inv root hash state ∧ Relied root state := by
  apply reached.invariant
  · intro state starts
    refine ⟨.of_starts starts, ?_⟩
    intro task oid relies
    rw [starts.idle task] at relies
    cases relies
  · rintro state state' ⟨inv, relied⟩ taken
    exact ⟨inv.step taken, inv.relied_step relied taken⟩

/-- At most one download for each object. -/
def SingleFlight (state : State Task) : Prop :=
  ∀ first second oid, (state.tasks first).downloads = some oid →
    (state.tasks second).downloads = some oid → first = second

/-- Whoever is about to return `Ok` does so for a file with the right content. -/
def ReturnsContent (root : Path) (hash : Bytes → Text) (state : State Task) : Prop :=
  ∀ task oid guarded outcome, state.tasks task = .returning oid guarded outcome →
    ∃ content, state.shared.disk.get? (lfsObjectPath root oid) = some (.file content) ∧
      hash content = oid

theorem held_of_downloads {oid : Text} (downloads : stage.downloads = some oid) :
    stage.held = some oid := by
  cases stage with
  | _ => first | exact downloads | cases downloads

theorem Inv.singleFlight (inv : Inv root hash state) : SingleFlight state := by
  intro first second oid firstLoads secondLoads
  exact inv.locks.unique (held_of_downloads firstLoads) (held_of_downloads secondLoads)

theorem Inv.returnsContent (inv : Inv root hash state) (relied : Relied root state) :
    ReturnsContent root hash state := by
  intro task oid guarded outcome returning
  have relies : (state.tasks task).relies = some oid := by rw [returning]; rfl
  have valid := inv.valid task oid (oid_of_relies relies)
  have present := relied task oid relies
  cases found : state.shared.disk.get? (lfsObjectPath root oid) with
  | none => exact absurd found present
  | some node =>
      rcases inv.addressed oid valid node found with ⟨content, rfl, hashed⟩
      exact ⟨content, rfl, hashed⟩

end Invariant

/-- The store is content-addressed and downloads are single in every run; every `Ok` is for the
right content in the runs that evict no object somebody counts on. -/
theorem store_correct {Task : Type u} [DecidableEq Task] (root : Path) (hash : Bytes → Text) :
    (∀ state : State Task,
      Reachable (Starts root hash) (Step root hash fun _ _ => True) state →
        Addressed root hash state.shared.disk ∧ SingleFlight state) ∧
      ∀ state : State Task, Reachable (Starts root hash) (Step root hash Unneeded) state →
        Addressed root hash state.shared.disk ∧ SingleFlight state ∧
          ReturnsContent root hash state := by
  constructor
  · intro state reached
    have inv := inv_of_reachable reached
    exact ⟨inv.addressed, inv.singleFlight⟩
  · intro state reached
    rcases relied_of_reachable reached with ⟨inv, relied⟩
    exact ⟨inv.addressed, inv.singleFlight, inv.returnsContent relied⟩

/-! An object that every content hashes to, and a server that has nothing yet. -/

def demoOid : Text := List.replicate 64 'a'

def demoHash : Bytes → Text := fun _ => demoOid

def emptyServer : State Bool where
  shared := {
    disk := .empty
    index := .new [] [] 1000
    owner := fun _ => none
    counter := 0
    pid := 7 }
  tasks := fun _ => .idle

theorem starts_emptyServer : Starts ["cache".toList] demoHash emptyServer where
  unowned := fun _ => rfl
  idle := fun _ => rfl
  addressed := by
    intro oid valid node found
    simp [emptyServer, lfsObjectPath_eq valid] at found

/-- A miss is downloaded and returned. -/
theorem store_correct_downloaded : ∃ state : State Bool,
    (∃ task, state.tasks task = .returning demoOid true .miss) ∧
      ReturnsContent ["cache".toList] demoHash state := by
  have run : Reachable (Starts ["cache".toList] demoHash)
      (Step ["cache".toList] demoHash Unneeded) emptyServer := .start starts_emptyServer
  have run := run.next (.act true _ _ (.arrive demoOid (some 3) (by decide)))
  have run := run.next (.act true _ _ (.probeMiss _ _))
  have run := run.next (.act true _ _ (.lock _ _ rfl))
  have run := run.next (.act true _ _ (.recheckMiss _ _))
  have run := run.next (.act true _ _ (.requested _))
  have run := run.next (.act true _ _ (.prepared _ _ rfl))
  have run := run.next (.act true _ _ (.name _))
  have run := run.next (.act true _ _ (.opened _ _ _ rfl))
  have run := run.next (.act true _ _ (.chunk _ _ [1, 2, 3] _ rfl))
  have run := run.next (.act true _ _ (.streamed _ _))
  have run := run.next (.act true _ _ (.hashed _ _ _ rfl))
  have run := run.next (.act true _ _ (.sharded _ _ _ rfl))
  have run := run.next (.act true _ _ (.sized _ _ 3 (Or.inr ⟨_, rfl, rfl⟩)))
  have run := run.next (.act true _ _ (.moved _ _ _ _ rfl))
  have run := run.next (.act true _ _ (.record _ _))
  have run := run.next (.act true _ _ (.notify _))
  exact ⟨_, ⟨true, rfl⟩, ((store_correct ["cache".toList] demoHash).2 _ run).2.2⟩

/-- A second request finds the object, and before it returns an eviction removes it. -/
theorem returns_evicted : ∃ state : State Bool,
    Reachable (Starts ["cache".toList] demoHash)
      (Step ["cache".toList] demoHash fun _ _ => True) state ∧
        ¬ReturnsContent ["cache".toList] demoHash state := by
  have run : Reachable (Starts ["cache".toList] demoHash)
      (Step ["cache".toList] demoHash fun _ _ => True) emptyServer := .start starts_emptyServer
  have run := run.next (.act true _ _ (.arrive demoOid (some 3) (by decide)))
  have run := run.next (.act true _ _ (.probeMiss _ _))
  have run := run.next (.act true _ _ (.lock _ _ rfl))
  have run := run.next (.act true _ _ (.recheckMiss _ _))
  have run := run.next (.act true _ _ (.requested _))
  have run := run.next (.act true _ _ (.prepared _ _ rfl))
  have run := run.next (.act true _ _ (.name _))
  have run := run.next (.act true _ _ (.opened _ _ _ rfl))
  have run := run.next (.act true _ _ (.streamed _ _))
  have run := run.next (.act true _ _ (.hashed _ _ _ rfl))
  have run := run.next (.act true _ _ (.sharded _ _ _ rfl))
  have run := run.next (.act true _ _ (.sized _ _ 0 (Or.inl rfl)))
  have run := run.next (.act true _ _ (.moved _ _ _ _ rfl))
  have run := run.next (.act true _ _ (.record _ _))
  have run := run.next (.act true _ _ (.notify _))
  have run := run.next (.act true _ _ (.succeed _ _ _))
  have run := run.next (.act false _ _ (.arrive demoOid (some 3) (by decide)))
  have run := run.next (.act false _ _ (.probeHit _ _ rfl))
  have run := run.next (.evict demoOid _ (by decide) trivial rfl)
  have run := run.next (.act false _ _ (.touch _ _))
  refine ⟨_, run, ?_⟩
  intro returns
  rcases returns false demoOid false .hit rfl with ⟨content, found, _⟩
  have gone : (none : Option (Node Bytes)) = some (.file content) := found
  cases gone

end GitCacheProxy.Lfs
