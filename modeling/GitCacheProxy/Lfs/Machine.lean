import GitCacheProxy.Foundation.TransitionSystem
import GitCacheProxy.Git.Mirror

/-!
# Downloads into the LFS store

`ensure_object` as a program of interleaved tasks.  One `Act` is one of its
atomic actions.  Every file-system call runs on a blocking pool: a request that
is dropped while it waits for one gives up its lock at once, and the call is
still carried out some time later (`Stage.orphan`).

Temporary files are numbered.  The counter starts again with every process, and
so does nothing else: a crash loses all tasks and locks and keeps the disk.
-/

namespace GitCacheProxy.Lfs

open Repo FileTree TransitionSystem

universe u

/-- Where downloads in flight are kept. -/
def incomingPath (root : Path) : Path := root ++ [lfsObjectsDir, incomingDir]

/-- The temporary file of the `n`-th download of the process `pid`. -/
def tmpPath (root : Path) (pid n : ℕ) : Path :=
  incomingPath root ++ [Nat.toDigits 10 pid ++ '-' :: Nat.toDigits 10 n]

/-- The directory of an object. -/
def shardPath (root : Path) (oid : Text) : Path := (lfsObjectPath root oid).dropLast

inductive Outcome where
  | hit
  | miss
  deriving DecidableEq

/-- A file-system call of a download; `create_dir_all` may get only so far. -/
inductive Op where
  | makeIncoming (done : ℕ)
  | makeShard (oid : Text) (done : ℕ)
  | create (n : ℕ)
  | append (n : ℕ) (chunk : Bytes)
  | unlink (n : ℕ)
  | store (n : ℕ) (oid : Text)

/-- The call as carried out by the process `pid`. -/
def Op.perform (root : Path) (pid : ℕ) (disk : Disk) : Op → Option Disk
  | makeIncoming done => disk.createDirAll ((incomingPath root).take done)
  | makeShard oid done => disk.createDirAll ((shardPath root oid).take done)
  | create n => disk.writeFile (tmpPath root pid n) []
  | append n chunk =>
      match disk.get? (tmpPath root pid n) with
      | some (.file content) => disk.writeFile (tmpPath root pid n) (content ++ chunk)
      | _ => none
  | unlink n => disk.removeFile (tmpPath root pid n)
  | store n oid => disk.rename (tmpPath root pid n) (lfsObjectPath root oid)

/-- The number of the temporary file that a call is about. -/
def Op.temp? : Op → Option ℕ
  | create n | append n _ | unlink n | store n _ => some n
  | makeIncoming _ | makeShard _ _ => none

/-- What all tasks share. -/
structure Shared (Task : Type u) where
  disk : Disk
  index : Index.CacheIndex
  /-- the task that holds the slot of an object -/
  owner : Text → Option Task
  counter : ℕ
  pid : ℕ

/-- Where a request is. -/
inductive Stage where
  | idle
  | probing (oid : Text) (size : Option ℕ)
  | queued (oid : Text) (size : Option ℕ)
  /-- about to look a second time, under the lock -/
  | locked (oid : Text) (size : Option ℕ)
  /-- the object is there; `true` under the lock -/
  | hit (oid : Text) (guarded : Bool)
  | requesting (oid : Text)
  | preparing (oid : Text)
  | naming (oid : Text)
  | opening (oid : Text) (n : ℕ)
  | streaming (oid : Text) (n : ℕ)
  /-- about to remove the temporary file after an error -/
  | discarding (oid : Text) (n : ℕ)
  | hashing (oid : Text) (n : ℕ)
  | sharding (oid : Text) (n : ℕ)
  | sizing (oid : Text) (n : ℕ)
  | moving (oid : Text) (n bytes : ℕ)
  | recording (oid : Text) (bytes : ℕ)
  | notifying (oid : Text)
  | failing (oid : Text)
  /-- about to return `Ok` with the path of the object -/
  | returning (oid : Text) (guarded : Bool) (outcome : Outcome)
  /-- `ensure_object` has returned `Ok`, and the file is about to be opened -/
  | serving (oid : Text)
  | orphan (op : Op)

namespace Stage

/-- A request can be dropped here: it waits for something. -/
def awaits : Stage → Bool
  | probing _ _ | queued _ _ | locked _ _ | requesting _ | preparing _ | opening _ _
  | streaming _ _ | discarding _ _ | hashing _ _ | sharding _ _ | sizing _ _ | moving _ _ _
  | serving _ => true
  | _ => false

/-- The object whose slot a task holds. -/
def held : Stage → Option Text
  | locked oid _ | hit oid true | requesting oid | preparing oid | naming oid | opening oid _
  | streaming oid _ | discarding oid _ | hashing oid _ | sharding oid _ | sizing oid _
  | moving oid _ _ | recording oid _ | notifying oid | failing oid | returning oid true _ =>
      some oid
  | idle | probing _ _ | queued _ _ | hit _ false | returning _ false _ | serving _ | orphan _ =>
      none

/-- The object that a task is downloading. -/
def downloads : Stage → Option Text
  | requesting oid | preparing oid | naming oid | opening oid _ | streaming oid _
  | discarding oid _ | hashing oid _ | sharding oid _ | sizing oid _ | moving oid _ _ => some oid
  | _ => none

/-- The object that a task counts on being there, until `ensure_object` returns. -/
def relies : Stage → Option Text
  | hit oid _ | recording oid _ | notifying oid | returning oid _ _ => some oid
  | _ => none

/-- The object that a request counts on, until it has opened the file. -/
def needs : Stage → Option Text
  | serving oid => some oid
  | stage => stage.relies

/-- The number of the temporary file that a task may still touch. -/
def temp? : Stage → Option ℕ
  | opening _ n | streaming _ n | discarding _ n | hashing _ n | sharding _ n | sizing _ n
  | moving _ n _ => some n
  | orphan op => op.temp?
  | _ => none

/-- The object whose content a temporary file has been found to be. -/
def verified : Stage → Option (ℕ × Text)
  | sharding oid n | sizing oid n | moving oid n _ | orphan (.store n oid) => some (n, oid)
  | _ => none

/-- The object that a task is about. -/
def oid? : Stage → Option Text
  | probing oid _ | queued oid _ | locked oid _ | hit oid _ | requesting oid | preparing oid
  | naming oid | opening oid _ | streaming oid _ | discarding oid _ | hashing oid _
  | sharding oid _ | sizing oid _ | moving oid _ _ | recording oid _ | notifying oid
  | failing oid | returning oid _ _ | serving oid | orphan (.store _ oid)
  | orphan (.makeShard oid _) => some oid
  | _ => none

end Stage

/-- The file-system calls of each stage. -/
inductive Performs : Stage → Op → Prop where
  | prepare (oid : Text) (done : ℕ) : Performs (.preparing oid) (.makeIncoming done)
  | create (oid : Text) (n : ℕ) : Performs (.opening oid n) (.create n)
  | append (oid : Text) (n : ℕ) (chunk : Bytes) : Performs (.streaming oid n) (.append n chunk)
  | unlink (oid : Text) (n : ℕ) : Performs (.discarding oid n) (.unlink n)
  | shard (oid : Text) (n done : ℕ) : Performs (.sharding oid n) (.makeShard oid done)
  | store (oid : Text) (n bytes : ℕ) : Performs (.moving oid n bytes) (.store n oid)
  | orphan (op : Op) : Performs (.orphan op) op

/-- Where a dropped request ends up. -/
def Stage.dropped : Option Op → Stage
  | none => .idle
  | some op => .orphan op

variable {Task : Type u}

namespace Shared

variable (shared : Shared Task)

/-- `try_exists` on the path of an object. -/
def cached (root : Path) (oid : Text) : Bool :=
  decide (shared.disk.Exists (lfsObjectPath root oid))

/-- Release the slot of an object, if it is held. -/
def release (oid : Option Text) : Shared Task :=
  match oid with
  | none => shared
  | some oid => { shared with owner := Function.update shared.owner oid none }

end Shared

/-- One action of a request. -/
inductive Act (root : Path) (hash : Bytes → Text) (task : Task) (shared : Shared Task) :
    Stage → Shared Task → Stage → Prop where
  | arrive (oid : Text) (size : Option ℕ) (valid : validLfsOid oid = true) :
      Act root hash task shared .idle shared (.probing oid size)
  | probeHit (oid : Text) (size : Option ℕ) (there : shared.cached root oid = true) :
      Act root hash task shared (.probing oid size) shared (.hit oid false)
  -- the object is missing, or the look failed
  | probeMiss (oid : Text) (size : Option ℕ) :
      Act root hash task shared (.probing oid size) shared (.queued oid size)
  | lock (oid : Text) (size : Option ℕ) (free : shared.owner oid = none) :
      Act root hash task shared (.queued oid size)
        { shared with owner := Function.update shared.owner oid (some task) } (.locked oid size)
  | recheckHit (oid : Text) (size : Option ℕ) (there : shared.cached root oid = true) :
      Act root hash task shared (.locked oid size) shared (.hit oid true)
  | recheckMiss (oid : Text) (size : ℕ) :
      Act root hash task shared (.locked oid (some size)) shared (.requesting oid)
  | sizeless (oid : Text) :
      Act root hash task shared (.locked oid none) shared (.failing oid)
  | touch (oid : Text) (guarded : Bool) :
      Act root hash task shared (.hit oid guarded)
        { shared with index := shared.index.touch (lfsObjectKey oid) }
        (.returning oid guarded .hit)
  -- `fetch_object`
  | requested (oid : Text) :
      Act root hash task shared (.requesting oid) shared (.preparing oid)
  | requestFails (oid : Text) :
      Act root hash task shared (.requesting oid) shared (.failing oid)
  | prepared (oid : Text) (disk : Disk)
      (made : (Op.makeIncoming (incomingPath root).length).perform root shared.pid shared.disk =
        some disk) :
      Act root hash task shared (.preparing oid) { shared with disk := disk } (.naming oid)
  | prepareFails (oid : Text) (done : ℕ) (disk : Disk)
      (partly : (Op.makeIncoming done).perform root shared.pid shared.disk = some disk) :
      Act root hash task shared (.preparing oid) { shared with disk := disk } (.failing oid)
  | name (oid : Text) :
      Act root hash task shared (.naming oid)
        { shared with counter := shared.counter + 1 } (.opening oid shared.counter)
  | opened (oid : Text) (n : ℕ) (disk : Disk)
      (created : (Op.create n).perform root shared.pid shared.disk = some disk) :
      Act root hash task shared (.opening oid n) { shared with disk := disk } (.streaming oid n)
  | openFails (oid : Text) (n : ℕ) :
      Act root hash task shared (.opening oid n) shared (.discarding oid n)
  | chunk (oid : Text) (n : ℕ) (bytes : Bytes) (disk : Disk)
      (written : (Op.append n bytes).perform root shared.pid shared.disk = some disk) :
      Act root hash task shared (.streaming oid n) { shared with disk := disk } (.streaming oid n)
  | streamed (oid : Text) (n : ℕ) :
      Act root hash task shared (.streaming oid n) shared (.hashing oid n)
  | streamFails (oid : Text) (n : ℕ) :
      Act root hash task shared (.streaming oid n) shared (.discarding oid n)
  | discarded (oid : Text) (n : ℕ) (disk : Disk)
      (removed : (Op.unlink n).perform root shared.pid shared.disk = some disk) :
      Act root hash task shared (.discarding oid n) { shared with disk := disk } (.failing oid)
  | notDiscarded (oid : Text) (n : ℕ) :
      Act root hash task shared (.discarding oid n) shared (.failing oid)
  | hashed (oid : Text) (n : ℕ) (content : Bytes)
      (found : shared.disk.get? (tmpPath root shared.pid n) = some (.file content)) :
      Act root hash task shared (.hashing oid n) shared
        (if hash content = oid then .sharding oid n else .discarding oid n)
  | hashFails (oid : Text) (n : ℕ) :
      Act root hash task shared (.hashing oid n) shared (.failing oid)
  | sharded (oid : Text) (n : ℕ) (disk : Disk)
      (made : (Op.makeShard oid (shardPath root oid).length).perform root shared.pid shared.disk =
        some disk) :
      Act root hash task shared (.sharding oid n) { shared with disk := disk } (.sizing oid n)
  | shardFails (oid : Text) (n done : ℕ) (disk : Disk)
      (partly : (Op.makeShard oid done).perform root shared.pid shared.disk = some disk) :
      Act root hash task shared (.sharding oid n) { shared with disk := disk } (.failing oid)
  -- the length of the file, or 0 if it cannot be had
  | sized (oid : Text) (n bytes : ℕ)
      (length : bytes = 0 ∨ ∃ content, shared.disk.get? (tmpPath root shared.pid n) =
        some (.file content) ∧ bytes = content.length) :
      Act root hash task shared (.sizing oid n) shared (.moving oid n bytes)
  | moved (oid : Text) (n bytes : ℕ) (disk : Disk)
      (renamed : (Op.store n oid).perform root shared.pid shared.disk = some disk) :
      Act root hash task shared (.moving oid n bytes) { shared with disk := disk }
        (.recording oid bytes)
  | moveFails (oid : Text) (n bytes : ℕ) :
      Act root hash task shared (.moving oid n bytes) shared (.failing oid)
  | record (oid : Text) (bytes : ℕ) :
      Act root hash task shared (.recording oid bytes)
        { shared with
          index := shared.index.recordBlob (lfsObjectKey oid) (UInt64.ofNat bytes) }
        (.notifying oid)
  | notify (oid : Text) :
      Act root hash task shared (.notifying oid)
        { shared with index := shared.index.notifyOne } (.returning oid true .miss)
  | succeed (oid : Text) (guarded : Bool) (outcome : Outcome) :
      Act root hash task shared (.returning oid guarded outcome)
        (shared.release (if guarded then some oid else none)) (.serving oid)
  | fail (oid : Text) :
      Act root hash task shared (.failing oid) (shared.release (some oid)) .idle
  | serve (oid : Text) :
      Act root hash task shared (.serving oid) shared .idle
  | drop (stage : Stage) (op : Option Op) (awaits : stage.awaits = true)
      (own : ∀ call ∈ op, Performs stage call) :
      Act root hash task shared stage (shared.release stage.held) (.dropped op)
  | orphanRuns (op : Op) (disk : Disk)
      (performed : op.perform root shared.pid shared.disk = some disk) :
      Act root hash task shared (.orphan op) { shared with disk := disk } .idle
  | orphanFails (op : Op) :
      Act root hash task shared (.orphan op) shared .idle

/-! ## What a file-system call can change -/

/-- The paths that a call may change. -/
def Op.Touches (root : Path) (pid : ℕ) : Op → Path → Prop
  | makeIncoming _, path => path <+: incomingPath root
  | makeShard oid _, path => path <+: shardPath root oid
  | create n, path | append n _, path | unlink n, path => path = tmpPath root pid n
  | store n oid, path => lfsObjectPath root oid <+: path ∨ tmpPath root pid n <+: path

section Calls

variable {root path : Path} {pid n m : ℕ} {disk disk' : Disk} {op : Op} {oid : Text}

theorem Op.get?_perform (performed : op.perform root pid disk = some disk')
    (outside : ¬op.Touches root pid path) : disk'.get? path = disk.get? path := by
  cases op with
  | makeIncoming done =>
      rw [Tree.get?_createDirAll performed, if_neg]
      exact fun above => outside (above.trans (List.take_prefix _ _))
  | makeShard oid done =>
      rw [Tree.get?_createDirAll performed, if_neg]
      exact fun above => outside (above.trans (List.take_prefix _ _))
  | create n =>
      have other : path ≠ tmpPath root pid n := outside
      rw [Tree.get?_writeFile performed, if_neg other]
  | append n chunk =>
      have other : path ≠ tmpPath root pid n := outside
      simp only [perform] at performed
      split at performed
      · rw [Tree.get?_writeFile performed, if_neg other]
      · cases performed
  | unlink n =>
      have other : path ≠ tmpPath root pid n := outside
      rw [Tree.get?_removeFile performed, if_neg other]
  | store n oid =>
      have apart := not_or.mp outside
      rw [Tree.get?_rename performed, if_neg apart.1, if_neg apart.2]

theorem tmpPath_injective (same : tmpPath root pid n = tmpPath root pid m) : n = m := by
  have names := List.append_cancel_left same
  simp only [List.cons.injEq, and_true, List.append_cancel_left_eq, true_and] at names
  have digits := congrArg (fun chars => Nat.ofDigitChars 10 chars 0) names
  simpa [Nat.ofDigitChars_toDigits] using digits

theorem tmpPath_eq : tmpPath root pid n =
    root ++ [lfsObjectsDir, incomingDir, Nat.toDigits 10 pid ++ '-' :: Nat.toDigits 10 n] := by
  simp [tmpPath, incomingPath]

theorem shardPath_eq (valid : validLfsOid oid = true) :
    shardPath root oid = root ++ [lfsObjectsDir, oid.take 2] := by
  rw [shardPath, lfsObjectPath_eq valid]
  simp [List.dropLast_append_of_ne_nil]

/-- The objects that a call is about have well-formed names. -/
def Op.Valid : Op → Prop
  | makeShard oid _ | store _ oid => validLfsOid oid = true
  | makeIncoming _ | create _ | append _ _ | unlink _ => True

theorem shard_ne_incoming (valid : validLfsOid oid = true) : oid.take 2 ≠ incomingDir := by
  intro same
  have short := congrArg List.length same
  rw [List.length_take, length_of_validLfsOid valid] at short
  exact absurd short (by decide)

theorem object_prefix_iff {other : Text} (valid : validLfsOid oid = true)
    (otherValid : validLfsOid other = true) :
    lfsObjectPath root oid <+: lfsObjectPath root other ↔ oid = other := by
  rw [lfsObjectPath_eq valid, lfsObjectPath_eq otherValid, List.prefix_append_right_inj]
  constructor
  · intro above
    simp only [List.cons_prefix_cons, List.prefix_rfl, true_and] at above
    exact above.2.1
  · rintro rfl
    exact List.prefix_refl _

theorem not_temp_above_object (valid : validLfsOid oid = true) :
    ¬tmpPath root pid n <+: lfsObjectPath root oid := by
  rw [lfsObjectPath_eq valid, tmpPath_eq, List.prefix_append_right_inj]
  simp only [List.cons_prefix_cons, true_and]
  exact fun above => shard_ne_incoming valid above.1.symm

theorem temp_ne_object (valid : validLfsOid oid = true) :
    lfsObjectPath root oid ≠ tmpPath root pid n := by
  intro same
  have notAbove : ¬tmpPath root pid n <+: lfsObjectPath root oid := not_temp_above_object valid
  rw [same] at notAbove
  exact notAbove (List.prefix_refl _)

/-- Only the rename of a download puts something in the place of an object. -/
theorem Op.not_touches_object (opValid : op.Valid) (valid : validLfsOid oid = true)
    (notStore : ∀ n, op ≠ .store n oid) : ¬op.Touches root pid (lfsObjectPath root oid) := by
  have short {first second : Text}
      (above : lfsObjectPath root oid <+: root ++ [first, second]) : False := by
    have length := above.length_le
    rw [lfsObjectPath_eq valid] at length
    simp at length
  cases op with
  | makeIncoming done => exact short
  | makeShard other done =>
      rw [Touches, shardPath_eq opValid]
      exact short
  | create n => exact temp_ne_object valid
  | append n chunk => exact temp_ne_object valid
  | unlink n => exact temp_ne_object valid
  | store n other =>
      rintro (above | above)
      · rw [object_prefix_iff opValid valid] at above
        exact notStore n (by rw [above])
      · exact not_temp_above_object valid above

/-- Only a download's own calls touch its temporary file. -/
theorem Op.not_touches_temp (opValid : op.Valid) (other : op.temp? ≠ some n) :
    ¬op.Touches root pid (tmpPath root pid n) := by
  have short {first second : Text} (above : tmpPath root pid n <+: root ++ [first, second]) :
      False := by
    have length := above.length_le
    rw [tmpPath_eq] at length
    simp at length
  have different {m : ℕ} (apart : some m ≠ some n) : tmpPath root pid n ≠ tmpPath root pid m :=
    fun same => apart (congrArg some (tmpPath_injective same).symm)
  cases op with
  | makeIncoming done => exact short
  | makeShard oid done =>
      rw [Touches, shardPath_eq opValid]
      exact short
  | create m => exact different other
  | append m chunk => exact different other
  | unlink m => exact different other
  | store m oid =>
      rintro (above | above)
      · rw [lfsObjectPath_eq opValid, tmpPath_eq, List.prefix_append_right_inj] at above
        simp only [List.cons_prefix_cons, true_and] at above
        exact shard_ne_incoming opValid above.1
      · rw [tmpPath_eq, tmpPath_eq, List.prefix_append_right_inj] at above
        simp only [List.cons_prefix_cons, List.prefix_rfl, true_and, and_true] at above
        apply different other
        rw [tmpPath_eq, tmpPath_eq, above]

/-- A call changes nothing beside the store. -/
theorem Op.not_touches_beside (opValid : op.Valid) (beside : BesideStore root path) :
    ¬op.Touches root pid path := by
  have notTemp {m : ℕ} : path ≠ tmpPath root pid m := by
    intro same
    apply beside.not_above_store
    rw [same, tmpPath_eq]
  cases op with
  | makeIncoming done => exact beside.not_above_store
  | makeShard oid done =>
      rw [Touches, shardPath_eq opValid]
      exact beside.not_above_store
  | create m => exact notTemp
  | append m chunk => exact notTemp
  | unlink m => exact notTemp
  | store m oid =>
      rintro (above | above)
      · rw [lfsObjectPath_eq opValid] at above
        exact beside.not_store_above above
      · rw [tmpPath_eq] at above
        exact beside.not_store_above above

end Calls

end GitCacheProxy.Lfs
