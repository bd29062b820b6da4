import GitCacheProxy.Index.Maintenance
import GitCacheProxy.Lfs.Machine

/-!
# One execution of `fetch_object`

What a single download leaves behind, whatever fails and wherever it is dropped,
while other tasks go on around it.  The actions of the execution are recorded,
so that it can be said what this download, and nobody else, has changed.

After a failed download and after a digest mismatch the temporary file is
removed; every other way out leaves it.  `Mishap` lists these ways, and the
executions without one are all or nothing.
-/

namespace GitCacheProxy.Lfs.Fetch

open Repo FileTree TransitionSystem

universe u

/-- As far as regular files go, `path` is as it was. -/
def SameFile (before after : Disk) (path : Path) : Prop :=
  ∀ content, after.get? path = some (.file content) ↔ before.get? path = some (.file content)

/-- An execution; the number of its temporary file and what its own actions did are history. -/
structure Execution (Task : Type u) where
  shared : Shared Task
  stage : Stage
  named : Option ℕ
  changes : List (Shared Task × Shared Task)

/-- In `fetch_object`, or carrying out what a dropped request has left behind. -/
def fetches : Stage → Bool
  | .requesting _ | .preparing _ | .naming _ | .opening _ _ | .streaming _ _ | .discarding _ _
  | .hashing _ _ | .sharding _ _ | .sizing _ _ | .moving _ _ _ | .recording _ _ | .notifying _
  | .orphan _ => true
  | _ => false

/-- An object that the execution has stored. -/
def stores : Stage → Option Text
  | .recording oid _ | .notifying oid => some oid
  | _ => none

variable {Task : Type u}

/-- What others may do meanwhile: anything but touch the temporary file and, once it is stored,
the object and its entry. -/
structure Others (root : Path) (oid : Text) (stage : Stage) (shared shared' : Shared Task) :
    Prop where
  pid : shared'.pid = shared.pid
  temp : ∀ n, stage.temp? = some n →
    shared'.disk.get? (tmpPath root shared.pid n) = shared.disk.get? (tmpPath root shared.pid n)
  object : shared'.disk.get? (lfsObjectPath root oid) = shared.disk.get? (lfsObjectPath root oid)
  entry : stores stage = some oid →
    shared'.index.inner.cache.peek (lfsObjectKey oid) =
      shared.index.inner.cache.peek (lfsObjectKey oid)

/-- The next action of the execution or of the others. -/
inductive Step (root : Path) (hash : Bytes → Text) (task : Task) (oid : Text)
    (may : Shared Task → Stage → Shared Task → Stage → Prop) (execution : Execution Task) :
    Execution Task → Prop where
  | own (shared : Shared Task) (stage : Stage)
      (taken : Act root hash task execution.shared execution.stage shared stage)
      (within : fetches execution.stage = true)
      (allowed : may execution.shared execution.stage shared stage) :
      Step root hash task oid may execution
        ⟨shared, stage, stage.temp?.or execution.named,
          (execution.shared, shared) :: execution.changes⟩
  | others (shared : Shared Task) (within : fetches execution.stage = true)
      (rely : Others root oid execution.stage execution.shared shared) :
      Step root hash task oid may execution { execution with shared := shared }

/-- `fetch_object` is called. -/
def begun (shared : Shared Task) (oid : Text) : Execution Task :=
  ⟨shared, .requesting oid, none, []⟩

/-- It has returned, or has been dropped and nothing of it is still to be carried out. -/
def Ended (oid : Text) (stage : Stage) : Prop :=
  stage = .failing oid ∨ stage = .returning oid true .miss ∨ stage = .idle

/-- The object is in its place, and the index (if there is one) tracks it with its size. -/
def Stored (root : Path) (hash : Bytes → Text) (capped : Bool) (oid : Text)
    (execution : Execution Task) : Prop :=
  ∃ content, execution.shared.disk.get? (lfsObjectPath root oid) = some (.file content) ∧
    hash content = oid ∧
      (capped = true → execution.shared.index.inner.cache.peek (lfsObjectKey oid) =
        some (UInt64.ofNat content.length))

/-- The execution has changed neither the index nor any file, except that its temporary file is
gone. -/
structure Untouched (root : Path) (execution : Execution Task) : Prop where
  index : ∀ change ∈ execution.changes, change.2.index = change.1.index
  files : ∀ path, (∀ change ∈ execution.changes, SameFile change.1.disk change.2.disk path) ∨
    ∃ n, execution.named = some n ∧ path = tmpPath root execution.shared.pid n ∧
      execution.shared.disk.get? path = none

/-- A way out that leaves the temporary file, or the object without a right entry. -/
inductive Mishap (root : Path) (capped : Bool) (shared : Shared Task) :
    Stage → Shared Task → Stage → Prop where
  | notHashed (oid : Text) (n : ℕ) : Mishap root capped shared (.hashing oid n) shared (.failing oid)
  | notSharded (oid : Text) (n : ℕ) (shared' : Shared Task) :
      Mishap root capped shared (.sharding oid n) shared' (.failing oid)
  | notMoved (oid : Text) (n bytes : ℕ) :
      Mishap root capped shared (.moving oid n bytes) shared (.failing oid)
  | notRemoved (oid : Text) (n : ℕ) (left : shared.disk.Exists (tmpPath root shared.pid n)) :
      Mishap root capped shared (.discarding oid n) shared (.failing oid)
  | missized (oid : Text) (n bytes : ℕ) (content : Bytes) (indexed : capped = true)
      (found : shared.disk.get? (tmpPath root shared.pid n) = some (.file content))
      (wrong : bytes ≠ content.length) :
      Mishap root capped shared (.sizing oid n) shared (.moving oid n bytes)
  | dropped (stage : Stage) (shared' : Shared Task) (op : Option Op)
      (filled : ∃ oid n, stage = .streaming oid n ∨ stage = .hashing oid n ∨
        stage = .sharding oid n ∨ stage = .sizing oid n) :
      Mishap root capped shared stage shared' (.dropped op)
  | droppedUnremoved (oid : Text) (n : ℕ) (shared' : Shared Task)
      (left : shared.disk.Exists (tmpPath root shared.pid n)) :
      Mishap root capped shared (.discarding oid n) shared' .idle
  | droppedUnmoved (oid : Text) (n bytes : ℕ) (shared' : Shared Task) :
      Mishap root capped shared (.moving oid n bytes) shared' .idle
  | droppedMoving (oid : Text) (n bytes : ℕ) (shared' : Shared Task) (op : Op)
      (indexed : capped = true) :
      Mishap root capped shared (.moving oid n bytes) shared' (.orphan op)
  -- the call that a dropped request has left behind
  | orphanCreated (n : ℕ) (disk : Disk)
      (performed : (Op.create n).perform root shared.pid shared.disk = some disk) :
      Mishap root capped shared (.orphan (.create n)) { shared with disk := disk } .idle
  | orphanNotRemoved (n : ℕ) (left : shared.disk.Exists (tmpPath root shared.pid n)) :
      Mishap root capped shared (.orphan (.unlink n)) shared .idle
  | orphanNotMoved (n : ℕ) (oid : Text) :
      Mishap root capped shared (.orphan (.store n oid)) shared .idle

/-- `fetch_object` is all or nothing: every execution, with steps that `may` happen. -/
def AllOrNothing (Task : Type u) (root : Path) (hash : Bytes → Text) (capped : Bool)
    (may : Shared Task → Stage → Shared Task → Stage → Prop) : Prop :=
  ∀ (task : Task) (oid : Text) (shared : Shared Task) (execution : Execution Task),
    Reachable (· = begun shared oid) (Step root hash task oid may) execution →
    Ended oid execution.stage →
      (Stored root hash capped oid execution ∨ Untouched root execution) ∧
        (shared.disk.isFile (lfsObjectPath root oid) = false →
          ¬(Stored root hash capped oid execution ∧ Untouched root execution))

/-! ## What one file-system call changes -/

namespace SameFile

variable {path : Path} {disk disk' : Disk}

theorem refl (disk : Disk) (path : Path) : SameFile disk disk path := fun _ => Iff.rfl

theorem of_get? (same : disk'.get? path = disk.get? path) : SameFile disk disk' path := by
  intro content
  rw [same]

theorem of_createDirAll {target : Path} (made : disk.createDirAll target = some disk')
    (path : Path) : SameFile disk disk' path := by
  intro content
  rw [Tree.get?_createDirAll made]
  split
  · rename_i above
    have notFile := Tree.createDirAll_eq_some_iff.mp ⟨disk', made⟩ path above
    constructor
    · intro isDir
      cases isDir
    · intro found
      rw [Tree.isFile_iff.mpr ⟨content, found⟩] at notFile
      cases notFile
  · rfl

end SameFile

/-! ## What is known at each stage -/

section Known

variable (root : Path) (hash : Bytes → Text) (capped : Bool) (oid : Text)
  (execution : Execution Task)

/-- No action of the execution has changed the index. -/
def Quiet : Prop := ∀ change ∈ execution.changes, change.2.index = change.1.index

/-- No action of the execution has changed what file `path` is. -/
def Kept (path : Path) : Prop :=
  ∀ change ∈ execution.changes, SameFile change.1.disk change.2.disk path

/-- Nothing has been changed. -/
def Pristine : Prop := Quiet execution ∧ ∀ path, Kept execution path

/-- Nothing has been changed but the temporary file. -/
def Beside (n : ℕ) : Prop :=
  execution.named = some n ∧ Quiet execution ∧
    ∀ path, path ≠ tmpPath root execution.shared.pid n → Kept execution path

/-- The temporary file is the object. -/
def Verified (n : ℕ) (content : Bytes) : Prop :=
  execution.shared.disk.get? (tmpPath root execution.shared.pid n) = some (.file content) ∧
    hash content = oid

/-- What is known of the execution when it is at a stage. -/
def Known : Stage → Prop
  | .requesting other | .preparing other | .naming other => other = oid ∧ Pristine execution
  | .opening other n => other = oid ∧ execution.named = some n ∧ Pristine execution
  | .streaming other n | .discarding other n | .hashing other n =>
      other = oid ∧ Beside root execution n
  | .sharding other n | .sizing other n =>
      other = oid ∧ Beside root execution n ∧ ∃ content, Verified root hash oid execution n content
  | .moving other n bytes => other = oid ∧ Beside root execution n ∧
      ∃ content, Verified root hash oid execution n content ∧
        (capped = true → bytes = content.length)
  | .recording other bytes => other = oid ∧
      ∃ content, execution.shared.disk.get? (lfsObjectPath root oid) = some (.file content) ∧
        hash content = oid ∧ (capped = true → bytes = content.length)
  | .notifying other | .returning other true .miss =>
      other = oid ∧ Stored root hash capped oid execution
  | .failing other => other = oid ∧ Untouched root execution
  | .idle => Stored root hash capped oid execution ∨ Untouched root execution
  | .orphan (.makeIncoming _) => Pristine execution
  | .orphan (.create n) => execution.named = some n ∧ Pristine execution
  | .orphan (.unlink n) => Beside root execution n
  | .orphan (.store n other) => other = oid ∧ capped = false ∧ Beside root execution n ∧
      ∃ content, Verified root hash oid execution n content
  | _ => False

end Known

section Step

variable {root : Path} {hash : Bytes → Text} {capped : Bool} {oid : Text} {task : Task}
  {execution : Execution Task} {shared : Shared Task} {stage : Stage}

theorem Pristine.untouched (pristine : Pristine execution) : Untouched root execution :=
  ⟨pristine.1, fun path => Or.inl (pristine.2 path)⟩

theorem Beside.untouched {n : ℕ} (beside : Beside root execution n)
    (gone : execution.shared.disk.get? (tmpPath root execution.shared.pid n) = none) :
    Untouched root execution := by
  rcases beside with ⟨named, quiet, kept⟩
  refine ⟨quiet, ?_⟩
  intro path
  by_cases isTemp : path = tmpPath root execution.shared.pid n
  · exact Or.inr ⟨n, named, isTemp, isTemp ▸ gone⟩
  · exact Or.inl (kept path isTemp)

theorem Pristine.beside {n : ℕ} (pristine : Pristine execution)
    (named : execution.named = some n) : Beside root execution n :=
  ⟨named, pristine.1, fun path _ => pristine.2 path⟩

/-- One more action of the execution. -/
def Execution.then (execution : Execution Task) (shared : Shared Task) (stage : Stage) :
    Execution Task :=
  ⟨shared, stage, stage.temp?.or execution.named, (execution.shared, shared) :: execution.changes⟩

theorem Quiet.then (quiet : Quiet execution) (same : shared.index = execution.shared.index) :
    Quiet (execution.then shared stage) := by
  intro change changeMem
  rcases List.mem_cons.mp changeMem with rfl | before
  · exact same
  · exact quiet change before

theorem Kept.then {path : Path} (kept : Kept execution path)
    (same : SameFile execution.shared.disk shared.disk path) :
    Kept (execution.then shared stage) path := by
  intro change changeMem
  rcases List.mem_cons.mp changeMem with rfl | before
  · exact same
  · exact kept change before

theorem Pristine.then (pristine : Pristine execution)
    (index : shared.index = execution.shared.index)
    (files : ∀ path, SameFile execution.shared.disk shared.disk path) :
    Pristine (execution.then shared stage) :=
  ⟨pristine.1.then index, fun path => (pristine.2 path).then (files path)⟩

theorem Beside.then {n : ℕ} (beside : Beside root execution n)
    (named : stage.temp? = some n ∨ stage.temp? = none) (pid : shared.pid = execution.shared.pid)
    (index : shared.index = execution.shared.index)
    (files : ∀ path, path ≠ tmpPath root execution.shared.pid n →
      SameFile execution.shared.disk shared.disk path) :
    Beside root (execution.then shared stage) n := by
  rcases beside with ⟨isNamed, quiet, kept⟩
  refine ⟨?_, quiet.then index, ?_⟩
  · rcases named with temp | temp <;> simp [Execution.then, temp, isNamed]
  · intro path other
    have other' : path ≠ tmpPath root execution.shared.pid n := by
      rw [← pid]
      exact other
    exact (kept path other').then (files path other')

theorem Beside.unlinked {n : ℕ} {disk : Disk} (beside : Beside root execution n)
    (removed : (Op.unlink n).perform root execution.shared.pid execution.shared.disk = some disk)
    (ended : stage.temp? = none) :
    Untouched root (execution.then { execution.shared with disk := disk } stage) := by
  have others : Beside root (execution.then { execution.shared with disk := disk } stage) n := by
    refine beside.then (Or.inr ended) rfl rfl ?_
    intro path isOther
    exact .of_get? (Op.get?_perform removed isOther)
  apply others.untouched
  simp [Execution.then, Tree.get?_removeFile removed]

theorem Known.others (known : Known root hash capped oid execution stage)
    (within : fetches stage = true) (rely : Others root oid stage execution.shared shared) :
    Known root hash capped oid { execution with shared := shared } stage := by
  have verified {n : ℕ} {content : Bytes} (own : stage.temp? = some n)
      (verified : Verified root hash oid execution n content) :
      Verified root hash oid { execution with shared := shared } n content := by
    refine ⟨?_, verified.2⟩
    simp only
    rw [rely.pid, rely.temp n own]
    exact verified.1
  have beside {n : ℕ} (beside : Beside root execution n) :
      Beside root { execution with shared := shared } n := by
    refine ⟨beside.1, beside.2.1, ?_⟩
    simp only
    rw [rely.pid]
    exact beside.2.2
  cases stage with
  | requesting other => exact known
  | preparing other => exact known
  | naming other => exact known
  | opening other n => exact known
  | streaming other n => exact ⟨known.1, beside known.2⟩
  | discarding other n => exact ⟨known.1, beside known.2⟩
  | hashing other n => exact ⟨known.1, beside known.2⟩
  | sharding other n =>
      rcases known with ⟨own, others, content, found⟩
      exact ⟨own, beside others, content, verified rfl found⟩
  | sizing other n =>
      rcases known with ⟨own, others, content, found⟩
      exact ⟨own, beside others, content, verified rfl found⟩
  | moving other n bytes =>
      rcases known with ⟨own, others, content, found, length⟩
      exact ⟨own, beside others, content, verified rfl found, length⟩
  | recording other bytes =>
      rcases known with ⟨own, content, found, rest⟩
      exact ⟨own, content, rely.object.trans found, rest⟩
  | notifying other =>
      rcases known with ⟨rfl, content, found, hashed, tracked⟩
      exact ⟨rfl, content, rely.object.trans found, hashed,
        fun indexed => (rely.entry rfl).trans (tracked indexed)⟩
  | orphan op =>
      cases op with
      | makeIncoming done => exact known
      | create n => exact known
      | unlink n => exact beside known
      | store n other =>
          rcases known with ⟨own, uncapped, others, content, found⟩
          exact ⟨own, uncapped, beside others, content, verified rfl found⟩
      | makeShard other done => exact known.elim
      | append n chunk => exact known.elim
  | _ => cases within

theorem Verified.moved {n : ℕ} {content : Bytes} {disk : Disk}
    (verified : Verified root hash oid execution n content)
    (renamed : (Op.store n oid).perform root execution.shared.pid execution.shared.disk =
      some disk) : disk.get? (lfsObjectPath root oid) = some (.file content) := by
  rw [Tree.get?_rename renamed, if_pos (List.prefix_refl _), List.drop_length, List.append_nil]
  exact verified.1

/-- Where a request can be dropped without a mishap. -/
theorem Known.drop {op : Option Op} (known : Known root hash capped oid execution stage)
    (awaits : stage.awaits = true) (own : ∀ call ∈ op, Performs stage call)
    (clean : ¬Mishap root capped execution.shared stage (execution.shared.release stage.held)
      (.dropped op)) :
    Known root hash capped oid
      (execution.then (execution.shared.release stage.held) (.dropped op)) (.dropped op) := by
  have index : (execution.shared.release stage.held).index = execution.shared.index := by
    cases stage.held <;> rfl
  have disk : (execution.shared.release stage.held).disk = execution.shared.disk := by
    cases stage.held <;> rfl
  have pid : (execution.shared.release stage.held).pid = execution.shared.pid := by
    cases stage.held <;> rfl
  have files (path : Path) :
      SameFile execution.shared.disk (execution.shared.release stage.held).disk path := by
    rw [disk]
    exact .refl _ _
  have dropped (pristine : Pristine execution) (gone : Stage) :
      Pristine (execution.then (execution.shared.release stage.held) gone) :=
    pristine.then index files
  cases stage with
  | requesting other =>
      cases op with
      | none => exact Or.inr (dropped known.2 .idle).untouched
      | some call => cases own call rfl
  | preparing other =>
      cases op with
      | none => exact Or.inr (dropped known.2 .idle).untouched
      | some call =>
          cases own call rfl with
          | prepare _ done => exact dropped known.2 _
  | opening other n =>
      cases op with
      | none => exact Or.inr (dropped known.2.2 .idle).untouched
      | some call =>
          cases own call rfl with
          | create _ _ => exact ⟨rfl, dropped known.2.2 _⟩
  | streaming other n => exact absurd (.dropped _ _ op ⟨other, n, Or.inl rfl⟩) clean
  | hashing other n => exact absurd (.dropped _ _ op ⟨other, n, Or.inr (Or.inl rfl)⟩) clean
  | sharding other n =>
      exact absurd (.dropped _ _ op ⟨other, n, Or.inr (Or.inr (Or.inl rfl))⟩) clean
  | sizing other n =>
      exact absurd (.dropped _ _ op ⟨other, n, Or.inr (Or.inr (Or.inr rfl))⟩) clean
  | discarding other n =>
      have others (gone : Stage) (named : gone.temp? = some n ∨ gone.temp? = none) :
          Beside root (execution.then (execution.shared.release (some other)) gone) n :=
        known.2.then named pid index fun path _ => files path
      cases op with
      | none =>
          refine Or.inr ((others .idle (Or.inr rfl)).untouched ?_)
          by_contra left
          exact clean (.droppedUnremoved other n _ left)
      | some call =>
          cases own call rfl with
          | unlink _ _ => exact others _ (Or.inl rfl)
  | moving other n bytes =>
      cases op with
      | none => exact absurd (.droppedUnmoved other n bytes _) clean
      | some call =>
          cases own call rfl with
          | store _ _ _ =>
              rcases known with ⟨isOid, others, content, found, _⟩
              refine ⟨isOid, ?_, others.then (Or.inl rfl) pid index fun path _ => files path,
                content, found⟩
              by_contra indexed
              exact clean (.droppedMoving other n bytes _ _ (by simpa using indexed))
  | probing other size => exact known.elim
  | queued other size => exact known.elim
  | locked other size => exact known.elim
  | serving other => exact known.elim
  | _ => cases awaits

theorem Known.orphanRuns {op : Op} {disk : Disk}
    (known : Known root hash capped oid execution (.orphan op))
    (performed : op.perform root execution.shared.pid execution.shared.disk = some disk)
    (clean : ¬Mishap root capped execution.shared (.orphan op)
      { execution.shared with disk := disk } .idle) :
    Known root hash capped oid (execution.then { execution.shared with disk := disk } .idle)
      .idle := by
  cases op with
  | makeIncoming done =>
      have files : Pristine (execution.then { execution.shared with disk := disk } .idle) :=
        known.then rfl (.of_createDirAll performed)
      exact Or.inr files.untouched
  | create n => exact absurd (.orphanCreated n disk performed) clean
  | unlink n => exact Or.inr (known.unlinked performed rfl)
  | store n other =>
      rcases known with ⟨rfl, uncapped, _, content, found⟩
      refine Or.inl ⟨content, found.moved performed, found.2, ?_⟩
      rw [uncapped]
      exact fun indexed => absurd indexed (by decide)
  | makeShard other done => exact known.elim
  | append n chunk => exact known.elim

theorem Known.orphanFails {op : Op} (known : Known root hash capped oid execution (.orphan op))
    (clean : ¬Mishap root capped execution.shared (.orphan op) execution.shared .idle) :
    Known root hash capped oid (execution.then execution.shared .idle) .idle := by
  have unchanged (path : Path) : SameFile execution.shared.disk execution.shared.disk path :=
    .refl _ _
  have untouched (pristine : Pristine execution) :
      Untouched root (execution.then execution.shared .idle) :=
    (pristine.then rfl unchanged).untouched
  cases op with
  | makeIncoming done => exact Or.inr (untouched known)
  | create n => exact Or.inr (untouched known.2)
  | unlink n =>
      have others : Beside root (execution.then execution.shared .idle) n :=
        known.then (Or.inr rfl) rfl rfl fun path _ => unchanged path
      refine Or.inr (others.untouched ?_)
      by_contra left
      exact clean (.orphanNotRemoved n left)
  | store n other => exact absurd (.orphanNotMoved n other) clean
  | makeShard other done => exact known.elim
  | append n chunk => exact known.elim

/-- What is known after an action of the execution that is no mishap. -/
theorem Known.own {stage' : Stage} (known : Known root hash capped oid execution stage)
    (taken : Act root hash task execution.shared stage shared stage')
    (within : fetches stage = true)
    (clean : ¬Mishap root capped execution.shared stage shared stage') :
    Known root hash capped oid (execution.then shared stage') stage' := by
  have unchanged (path : Path) : SameFile execution.shared.disk execution.shared.disk path :=
    .refl _ _
  cases taken with
  | requested other => exact ⟨known.1, known.2.then rfl unchanged⟩
  | requestFails other => exact ⟨known.1, (known.2.then rfl unchanged).untouched⟩
  | prepared other disk made =>
      exact ⟨known.1, known.2.then rfl (.of_createDirAll made)⟩
  | prepareFails other done disk partly =>
      have files : Pristine (execution.then { execution.shared with disk := disk }
          (.failing other)) := known.2.then rfl (.of_createDirAll partly)
      exact ⟨known.1, files.untouched⟩
  | name other => exact ⟨known.1, rfl, known.2.then rfl unchanged⟩
  | opened other n disk created =>
      rcases known with ⟨own, named, pristine⟩
      refine ⟨own, (pristine.beside named).then (Or.inl rfl) rfl rfl ?_⟩
      intro path isOther
      exact .of_get? (Op.get?_perform created isOther)
  | openFails other n =>
      rcases known with ⟨own, named, pristine⟩
      exact ⟨own, (pristine.beside named).then (Or.inl rfl) rfl rfl fun path _ => unchanged path⟩
  | chunk other n bytes disk written =>
      refine ⟨known.1, known.2.then (Or.inl rfl) rfl rfl ?_⟩
      intro path isOther
      exact .of_get? (Op.get?_perform written isOther)
  | streamed other n =>
      exact ⟨known.1, known.2.then (Or.inl rfl) rfl rfl fun path _ => unchanged path⟩
  | streamFails other n =>
      exact ⟨known.1, known.2.then (Or.inl rfl) rfl rfl fun path _ => unchanged path⟩
  | discarded other n disk removed => exact ⟨known.1, known.2.unlinked removed rfl⟩
  | notDiscarded other n =>
      refine ⟨known.1, (known.2.then (Or.inr rfl) rfl rfl fun path _ => unchanged path).untouched ?_⟩
      by_contra left
      exact clean (.notRemoved other n left)
  | hashed other n content found =>
      have others : Beside root (execution.then execution.shared
          (if hash content = other then .sharding other n else .discarding other n)) n := by
        apply known.2.then _ rfl rfl fun path _ => unchanged path
        split <;> exact Or.inl rfl
      split at others
      · rename_i same
        rw [if_pos same]
        exact ⟨known.1, others, content, found, same.trans known.1⟩
      · rename_i different
        rw [if_neg different]
        exact ⟨known.1, others⟩
  | hashFails other n => exact absurd (.notHashed other n) clean
  | sharded other n disk made =>
      rcases known with ⟨own, others, content, found, hashed⟩
      have files := SameFile.of_createDirAll made
      exact ⟨own, others.then (Or.inl rfl) rfl rfl fun path _ => files path, content,
        (files _ content).mpr found, hashed⟩
  | shardFails other n done disk partly => exact absurd (.notSharded other n _) clean
  | sized other n bytes length =>
      rcases known with ⟨own, others, content, found, hashed⟩
      refine ⟨own, others.then (Or.inl rfl) rfl rfl fun path _ => unchanged path, content,
        ⟨found, hashed⟩, ?_⟩
      intro indexed
      by_contra wrong
      exact clean (.missized other n bytes content indexed found wrong)
  | moved other n bytes disk renamed =>
      rcases known with ⟨rfl, others, content, found, length⟩
      exact ⟨rfl, content, found.moved renamed, found.2, length⟩
  | moveFails other n bytes => exact absurd (.notMoved other n bytes) clean
  | record other bytes =>
      rcases known with ⟨rfl, content, found, hashed, length⟩
      refine ⟨rfl, content, found, hashed, ?_⟩
      intro indexed
      simp only [Execution.then, Index.CacheIndex.peek_recordBlob, if_true, length indexed]
  | notify other => exact known
  | drop stage op awaits own => exact known.drop awaits own clean
  | orphanRuns op disk performed => exact known.orphanRuns performed clean
  | orphanFails op => exact known.orphanFails clean
  | _ => cases within

/-- An object that was not there is there only if the execution has put it there. -/
def Fresh (root : Path) (oid : Text) (execution : Execution Task) : Prop :=
  Kept execution (lfsObjectPath root oid) →
    execution.shared.disk.isFile (lfsObjectPath root oid) = false

variable {may : Shared Task → Stage → Shared Task → Stage → Prop} {execution' : Execution Task}

theorem Fresh.step (fresh : Fresh root oid execution)
    (taken : Step root hash task oid may execution execution') : Fresh root oid execution' := by
  intro kept
  rw [Bool.eq_false_iff, ne_eq, Tree.isFile_iff]
  rintro ⟨content, found⟩
  cases taken with
  | own shared stage act within allowed =>
      have before := fresh fun change changeMem => kept change (List.mem_cons_of_mem _ changeMem)
      have same := (kept _ List.mem_cons_self content).mp found
      rw [Tree.isFile_iff.mpr ⟨content, same⟩] at before
      cases before
  | others shared within rely =>
      have before := fresh kept
      have same := rely.object.symm.trans found
      rw [Tree.isFile_iff.mpr ⟨content, same⟩] at before
      cases before

theorem Known.step (known : Known root hash capped oid execution execution.stage)
    (taken : Step root hash task oid (fun shared stage shared' stage' =>
      ¬Mishap root capped shared stage shared' stage') execution execution') :
    Known root hash capped oid execution' execution'.stage := by
  cases taken with
  | own shared stage act within clean => exact known.own act within clean
  | others shared within rely => exact known.others within rely

end Step

/-! ## Main result -/

/-- An execution without a mishap stores and records the object, or changes nothing. -/
theorem allOrNothing_of_clean (Task : Type u) (root : Path) (hash : Bytes → Text)
    (capped : Bool) :
    AllOrNothing Task root hash capped fun shared stage shared' stage' =>
      ¬Mishap root capped shared stage shared' stage' := by
  intro task oid shared execution reached ended
  constructor
  · have known : Known root hash capped oid execution execution.stage := by
      apply reached.invariant
      · rintro execution rfl
        exact ⟨rfl, fun _ absent => absurd absent List.not_mem_nil,
          fun _ _ absent => absurd absent List.not_mem_nil⟩
      · intro execution execution' known taken
        exact known.step taken
    rcases ended with failed | returned | dropped
    · rw [failed] at known
      exact Or.inr known.2
    · rw [returned] at known
      exact Or.inl known.2
    · rw [dropped] at known
      exact known
  · rintro absent ⟨⟨content, found, _⟩, untouched⟩
    have fresh : Fresh root oid execution := by
      apply reached.invariant
      · rintro execution rfl _
        exact absent
      · intro execution execution' fresh taken
        exact fresh.step taken
    rcases untouched.files (lfsObjectPath root oid) with kept | ⟨_, _, _, gone⟩
    · have notFile := fresh kept
      rw [Tree.isFile_iff.mpr ⟨content, found⟩] at notFile
      cases notFile
    · rw [found] at gone
      cases gone

/-! The client disconnects while the downloaded file is being hashed. -/

def droppedOid : Text := List.replicate 64 'a'

def droppedServer : Shared Unit where
  disk := .empty
  index := .new [] [] 1000
  owner := fun _ => none
  counter := 0
  pid := 7

theorem not_allOrNothing_dropped :
    ¬AllOrNothing Unit ["cache".toList] (fun _ => droppedOid) true fun _ _ _ _ => True := by
  intro claim
  have run : Reachable (· = begun droppedServer droppedOid)
      (Step ["cache".toList] (fun _ => droppedOid) () droppedOid fun _ _ _ _ => True)
      (begun droppedServer droppedOid) := .start rfl
  have run := run.next (.own _ _ (.requested _) rfl trivial)
  have run := run.next (.own _ _ (.prepared _ _ rfl) rfl trivial)
  have run := run.next (.own _ _ (.name _) rfl trivial)
  have run := run.next (.own _ _ (.opened _ _ _ rfl) rfl trivial)
  have run := run.next (.own _ _ (.chunk _ _ [1, 2, 3] _ rfl) rfl trivial)
  have run := run.next (.own _ _ (.streamed _ _) rfl trivial)
  have run := run.next (.own _ _ (.drop _ none rfl fun _ absent => by cases absent) rfl trivial)
  rcases (claim () droppedOid droppedServer _ run (Or.inr (Or.inr rfl))).1 with
    ⟨content, found, _⟩ | untouched
  · have missing : (none : Option (Node Bytes)) = some (.file content) := found
    cases missing
  · rcases untouched.files (tmpPath ["cache".toList] 7 0) with kept | ⟨_, _, _, gone⟩
    · have same := (kept _ (.tail _ (.tail _ (.head _))) [1, 2, 3]).mp rfl
      have empty : (some (.file []) : Option (Node Bytes)) = some (.file [1, 2, 3]) := same
      cases empty
    · have left : (some (.file [1, 2, 3]) : Option (Node Bytes)) = none := gone
      cases left

end GitCacheProxy.Lfs.Fetch
