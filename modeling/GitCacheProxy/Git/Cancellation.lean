import GitCacheProxy.Git.Freshness

/-!
# Requests that are given up

The handler of a request is dropped when its client goes away, at whatever `await` it is.  The lock
of the repository is free from then on, but what the handler was waiting for may go on: a call on
the blocking pool runs to its end, and a child of `git` that is killed is not gone at once.

The lock tells nothing about these orphans.  Those of a pull do what the lock was to keep apart
from the next pull.  As long as they are over before the lock is taken again (`Prompt`), every
mirror is a whole clone and all that is promised of the pulls holds (`withstands_of_prompt`).  A
rename that comes later than that may put half a clone in place (`half_clone_of_late_rename`).
-/

namespace GitCacheProxy.Git.Cancellation

open Repo FileTree TransitionSystem

universe u

variable {Task : Type u}

/-! ## What is left of a request -/

/-- What goes on without its request. -/
inductive Orphan where
  /-- `create_dir_all` of the parent -/
  | makes
  /-- the removal of a staging directory, or what is left of a killed clone -/
  | stages
  /-- the rename of a clone that is finished -/
  | renames
  /-- what is left of a killed fetch, with when it has read upstream -/
  | fetches (read : Option ℕ)
  /-- a child of `git` that pulls nothing into the refs -/
  | writes
  deriving DecidableEq

namespace Orphan

/-- The work of a pull, which the lock was to keep apart from the next one. -/
def pulls : Orphan → Bool
  | stages | renames | fetches _ => true
  | makes | writes => false

def inMirror : Orphan → Bool
  | fetches _ | writes => true
  | makes | stages | renames => false

end Orphan

/-- What a request leaves behind when it is dropped; it cannot be while it does not wait. -/
def orphaned : Stage → Option (List Orphan)
  | .queued _ _ | .serving _ => some []
  | .making _ => some [.makes]
  | .cloning _ _ => some [.stages]
  | .cloned _ _ => some [.renames]
  | .fetching _ read => some [.fetches read]
  | .wanting _ | .pruning _ => some [.writes]
  | _ => none

/-- The requests and evictions of one repository, and what earlier requests have left behind. -/
structure State (Task : Type u) where
  shared : Shared Task
  tasks : Task → Stage
  orphans : List Orphan
  /-- history: when the clone was read that the staging directory holds, if it is a finished one -/
  staged : Option ℕ

/-- What an action makes of the staging directory. -/
def restage : Stage → Stage → Option ℕ → Option ℕ
  | .cloning _ read, .cloned _ _, _ => read
  | .cloning _ _, .cloning _ _, _ => none
  | _, _, staged => staged

/-- A mirror that is put in place is what the staging directory held. -/
def installed (repo : RepoRef) (staged : Option ℕ) (shared : Shared Task) :
    Stage → Stage → Shared Task
  | .cloned _ _, .changed _ _ =>
      { shared with
        content := Function.update shared.content repo.name (staged.map fun read _ => read) }
  | _, _ => shared

/-- The lock of a dropped request. -/
def released (owner : Text → Option Task) : Option Text → Text → Option Task
  | some name => Function.update owner name none
  | none => owner

variable [DecidableEq Task]

inductive Step (fetchTtl : ℕ) (repo : RepoRef) (state : State Task) : State Task → Prop where
  | act (task : Task) (effect : Effect) (shared : Shared Task) (stage : Stage)
      (taken : Act fetchTtl (· = repo) task state.shared (state.tasks task) effect shared stage) :
      Step fetchTtl repo state { state with
        shared := installed repo state.staged shared (state.tasks task) stage
        tasks := Function.update state.tasks task stage
        staged := restage (state.tasks task) stage state.staged }
  | tick (clock : ℕ) (later : state.shared.clock ≤ clock) :
      Step fetchTtl repo state { state with shared.clock := clock }
  | drop (task : Task) (left : List Orphan) (dropped : orphaned (state.tasks task) = some left) :
      Step fetchTtl repo state { state with
        shared.owner := released state.shared.owner (state.tasks task).held
        tasks := Function.update state.tasks task .idle
        orphans := left ++ state.orphans }
  | made (done : ℕ) (disk : Disk) (orphan : .makes ∈ state.orphans)
      (created : state.shared.disk.createDirAll (repo.cacheDir.dropLast.take done) = some disk) :
      Step fetchTtl repo state { state with shared.disk := disk }
  | staged (left : Option Disk) (orphan : .stages ∈ state.orphans) :
      Step fetchTtl repo state { state with
        shared.disk := state.shared.disk.replace (stagingDir repo.cacheDir) left
        staged := none }
  | renamed (disk : Disk) (orphan : .renames ∈ state.orphans)
      (moved : state.shared.disk.rename (stagingDir repo.cacheDir) repo.cacheDir = some disk) :
      Step fetchTtl repo state { state with
        shared.disk := disk
        shared.content := Function.update state.shared.content repo.name
          (state.staged.map fun read _ => read)
        orphans := state.orphans.erase .renames }
  -- a child stays in its mirror when that is moved away, and makes no mirror
  | written (orphan : Orphan) (dir : Path) (disk : Disk) (present : orphan ∈ state.orphans)
      (inMirror : orphan.inMirror = true)
      (place : dir = repo.cacheDir ∨ dir = trashDir repo.cacheDir)
      (writes : GitWrites (· = repo) dir state.shared.disk disk)
      (before : hasHead disk repo.cacheDir = true →
        hasHead state.shared.disk repo.cacheDir = true) :
      Step fetchTtl repo state { state with shared.disk := disk }
  | read (earlier : Option ℕ) (orphan : .fetches earlier ∈ state.orphans) :
      Step fetchTtl repo state { state with
        orphans := .fetches (some state.shared.clock) :: state.orphans.erase (.fetches earlier) }
  | updated (instant : ℕ) (refs : Text → Bool) (orphan : .fetches (some instant) ∈ state.orphans) :
      Step fetchTtl repo state { state with
        shared.content := Function.update state.shared.content repo.name
          ((state.shared.content repo.name).map fun reads ref =>
            if refs ref then instant else reads ref) }
  | ended (orphan : Orphan) (present : orphan ∈ state.orphans) :
      Step fetchTtl repo state { state with orphans := state.orphans.erase orphan }

/-- The lock is not taken while an orphan does the work of a pull. -/
def Prompt (state state' : State Task) : Prop :=
  ∀ task, (state.tasks task).held = none → (state'.tasks task).held ≠ none →
    ∀ orphan ∈ state.orphans, orphan.pulls = false

/-- The steps of the runs in which it is not. -/
def PromptStep (fetchTtl : ℕ) (repo : RepoRef) (state state' : State Task) : Prop :=
  Step fetchTtl repo state state' ∧ Prompt state state'

/-- A server starts: no request has been given up yet. -/
structure Starts (repo : RepoRef) (state : State Task) : Prop where
  base : Git.Starts (· = repo) ⟨state.shared, state.tasks⟩
  noOrphans : state.orphans = []

/-! ## What holds in every prompt run -/

/-- What was read then is no older than the last pull. -/
def Recent (repo : RepoRef) (shared : Shared Task) (read : ℕ) : Prop :=
  ∀ stamp, shared.pulled repo.name = some stamp → stamp ≤ read

structure Inv (fetchTtl : ℕ) (repo : RepoRef) (state : State Task) : Prop where
  base : Git.Inv fetchTtl repo ⟨state.shared, state.tasks⟩
  free : ∀ orphan ∈ state.orphans, orphan.pulls = true → state.shared.owner repo.name = none
  alone : .renames ∈ state.orphans → .stages ∉ state.orphans
  finished : .renames ∈ state.orphans →
    ∃ read, state.staged = some read ∧ Recent repo state.shared read
  fetched : ∀ read, .fetches (some read) ∈ state.orphans → Recent repo state.shared read
  cloned : ∀ task call read, state.tasks task = .cloned call read → state.staged = some read

variable {fetchTtl : ℕ} {repo : RepoRef} {state state' : State Task} {task : Task}
  {shared shared' : Shared Task} {stage stage' : Stage} {effect : Effect} {left : List Orphan}
  {upstreamBase : Text} {root : Path}

section Acts

variable {staged : Option ℕ}

omit [DecidableEq Task]

/-- An action of a task without the lock is none in the staging directory. -/
theorem restage_of_free (notHeld : stage.held = none) : restage stage stage' staged = staged := by
  cases stage with
  | cloning call read => cases notHeld
  | _ => rfl

theorem restage_of_cloned (taken : Act fetchTtl (· = repo) task shared stage effect shared' stage')
    {call : Call} {read : ℕ} (cloned : stage' = .cloned call read) :
    restage stage stage' staged = some read := by
  cases taken with
  | cloneDone call read =>
      cases cloned
      rfl
  | decide ticket =>
      simp only [Shared.decide] at cloned
      split at cloned
      · cases cloned
      · cases cloned
  | notify call wants => cases wants <;> cases cloned
  | _ => cases cloned

/-- Where the clone is the one that was made, the two histories agree. -/
theorem installed_eq (taken : Act fetchTtl (· = repo) task shared stage effect shared' stage')
    (within : stage.Within (· = repo))
    (cloned : ∀ call read, stage = .cloned call read → staged = some read) :
    installed repo staged shared' stage stage' = shared' := by
  cases taken with
  | install call read disk filled renamed =>
      rcases within with rfl
      rw [cloned call read rfl]
      simp only [installed, Option.map_some, Function.update_idem]
  | _ => rfl

end Acts

/-! ## A request is dropped -/

section Dropped

omit [DecidableEq Task]

/-- Only a request that holds the lock leaves anything behind, and it leaves one thing. -/
theorem left_of_mem {orphan : Orphan} (dropped : orphaned stage = some left)
    (within : stage.Within (· = repo)) (present : orphan ∈ left) :
    stage.held = some repo.name ∧ left = [orphan] := by
  cases stage with
  | queued other wantFetch | serving other =>
      cases dropped
      cases present
  | making call | cloning call read | cloned call read | fetching call read | wanting call
  | pruning call =>
      rcases within with rfl
      cases dropped
      rw [List.mem_singleton.mp present]
      exact ⟨rfl, rfl⟩
  | _ => cases dropped

/-- The stamp is settled wherever a request that holds the lock may be dropped. -/
theorem settled_of_orphaned (dropped : orphaned stage = some left)
    (known : Holds fetchTtl repo shared stage) (holds : stage.held ≠ none) :
    Settled repo shared := by
  cases stage with
  | queued other wantFetch | serving other => exact absurd rfl holds
  | making call | cloning call read | cloned call read | wanting call | pruning call =>
      exact known.settled
  | fetching call read => exact known.1.settled
  | _ => cases dropped

/-- The clone of a dropped request is finished, and no older than the last pull. -/
theorem cloned_of_renames (dropped : orphaned stage = some left) (present : .renames ∈ left)
    (known : Holds fetchTtl repo shared stage) :
    ∃ call read, stage = .cloned call read ∧ Recent repo shared read := by
  cases stage with
  | cloned call read =>
      refine ⟨call, read, rfl, ?_⟩
      intro stamp pulled
      exact (known.older stamp pulled).trans (known.read read rfl)
  | queued _ _ | serving _ | making _ | cloning _ _ | fetching _ _ | wanting _ | pruning _ =>
      cases dropped
      simp at present
  | _ => cases dropped

theorem recent_of_fetches {read : ℕ} (dropped : orphaned stage = some left)
    (present : .fetches (some read) ∈ left) (known : Holds fetchTtl repo shared stage) :
    Recent repo shared read := by
  cases stage with
  | fetching call at_ =>
      cases dropped
      simp only [List.mem_singleton, Orphan.fetches.injEq] at present
      intro stamp pulled
      exact (known.1.older stamp pulled).trans (known.1.read read present.symm)
  | queued _ _ | serving _ | making _ | cloning _ _ | cloned _ _ | wanting _ | pruning _ =>
      cases dropped
      simp at present
  | _ => cases dropped

end Dropped

/-! ## What one step keeps -/

namespace Inv

section Orphans

omit [DecidableEq Task]

/-- With the lock free nobody holds it. -/
theorem held_eq_none (inv : Inv fetchTtl repo state)
    (free : state.shared.owner repo.name = none) (task : Task) : (state.tasks task).held = none := by
  cases holds : (state.tasks task).held with
  | none => rfl
  | some name =>
      have own := (inv.base.locks task name).mp holds
      have same := held_of_within (inv.base.within task) holds
      simp only [same, free] at own
      cases own

/-- While a task holds the lock, no orphan does the work of a pull. -/
theorem not_pulls (inv : Inv fetchTtl repo state) (holds : (state.tasks task).held ≠ none)
    {orphan : Orphan} (present : orphan ∈ state.orphans) : orphan.pulls = false := by
  rw [Bool.eq_false_iff]
  intro pulls
  exact holds (inv.held_eq_none (inv.free orphan present pulls) task)

theorem of_starts (starts : Starts repo state) : Inv fetchTtl repo state where
  base := .of_starts starts.base
  free := by simp [starts.noOrphans]
  alone := by simp [starts.noOrphans]
  finished := by simp [starts.noOrphans]
  fetched := by simp [starts.noOrphans]
  cloned := by
    intro task call read cloned
    have idle : state.tasks task = .idle := starts.base.idle task
    rw [idle] at cloned
    cases cloned

theorem tick (inv : Inv fetchTtl repo state) {clock : ℕ} (later : state.shared.clock ≤ clock) :
    Inv fetchTtl repo { state with shared.clock := clock } where
  base := inv.base.tick later
  free := inv.free
  alone := inv.alone
  finished := inv.finished
  fetched := inv.fetched
  cloned := inv.cloned

/-- What an orphan does changes only the disk and what the refs hold. -/
theorem base_orphan (inv : Inv fetchTtl repo state) {disk : Disk}
    {content : Text → Option (Text → ℕ)}
    (whole : hasHead disk repo.cacheDir = true → (content repo.name).isSome)
    (reads : ∀ stamp reads, state.shared.pulled repo.name = some stamp →
      content repo.name = some reads → ∀ ref, stamp ≤ reads ref)
    (guarded : state.shared.owner repo.name = none ∨ content = state.shared.content ∧
      (hasHead state.shared.disk repo.cacheDir = true → hasHead disk repo.cacheDir = true)) :
    Git.Inv fetchTtl repo
      ⟨{ state.shared with disk := disk, content := content }, state.tasks⟩ := by
  refine ⟨inv.base.locks, inv.base.within,
    ⟨inv.base.kept.settled, whole, inv.base.kept.stamped, reads⟩, ?_, inv.base.sound⟩
  intro task
  rcases guarded with free | ⟨rfl, head⟩
  · exact .of_not_held (inv.held_eq_none free task)
  · exact (inv.base.tasks task).mono (le_refl _) rfl rfl rfl head

/-- An orphan that leaves the marker of the mirror alone. -/
theorem base_of_head (inv : Inv fetchTtl repo state) {disk : Disk}
    (same : hasHead disk repo.cacheDir = hasHead state.shared.disk repo.cacheDir) :
    Git.Inv fetchTtl repo ⟨{ state.shared with disk := disk }, state.tasks⟩ := by
  refine inv.base_orphan ?_ inv.base.kept.reads (Or.inr ⟨rfl, same.trans⟩)
  intro head
  exact inv.base.kept.content (same.symm.trans head)

theorem made (inv : Inv fetchTtl repo state) {done : ℕ} {disk : Disk}
    (created : state.shared.disk.createDirAll (repo.cacheDir.dropLast.take done) = some disk) :
    Inv fetchTtl repo { state with shared.disk := disk } := by
  have notOnTheWay : ¬repo.cacheDir ++ [headFile] <+: repo.cacheDir.dropLast.take done := by
    intro above
    have longer := (above.trans (List.take_prefix _ _)).length_le
    simp only [List.length_append, List.length_singleton, List.length_dropLast] at longer
    omega
  have same : hasHead disk repo.cacheDir = hasHead state.shared.disk repo.cacheDir := by
    rw [Bool.eq_iff_iff, Act.hasHead_iff, Act.hasHead_iff, Tree.exists_createDirAll created]
    simp [notOnTheWay]
  exact { inv with base := inv.base_of_head same }

theorem staged (inv : Inv fetchTtl repo state)
    (resolved : resolve repo.name upstreamBase root = .ok repo)
    (orphan : .stages ∈ state.orphans) (left : Option Disk) :
    Inv fetchTtl repo { state with
      shared.disk := state.shared.disk.replace (stagingDir repo.cacheDir) left
      staged := none } := by
  have notRoot : stagingDir repo.cacheDir ≠ [] := Act.pushSuffix_ne_nil _ _
  have outside := not_staging_above_head resolved resolved
  have notAbove : ¬repo.cacheDir ++ [headFile] <+: stagingDir repo.cacheDir :=
    not_above_reserved resolved resolved (by decide) fun _ => rfl
  have same : hasHead (state.shared.disk.replace (stagingDir repo.cacheDir) left) repo.cacheDir =
      hasHead state.shared.disk repo.cacheDir := by
    rw [Bool.eq_iff_iff, Act.hasHead_iff, Act.hasHead_iff]
    exact ⟨Act.exists_of_replace left notRoot outside notAbove,
      Act.exists_replace notRoot outside left⟩
  have free := inv.free .stages orphan rfl
  refine ⟨inv.base_of_head same, inv.free, inv.alone, ?_, inv.fetched, ?_⟩
  · intro renames
    exact absurd orphan (inv.alone renames)
  · intro task call read cloned
    have notHeld := inv.held_eq_none free task
    rw [show state.tasks task = .cloned call read from cloned] at notHeld
    cases notHeld

theorem of_subset (inv : Inv fetchTtl repo state) {orphans : List Orphan}
    (subset : orphans ⊆ state.orphans) : Inv fetchTtl repo { state with orphans := orphans } where
  base := inv.base
  free := fun orphan present => inv.free orphan (subset present)
  alone := fun renames stages => inv.alone (subset renames) (subset stages)
  finished := fun renames => inv.finished (subset renames)
  fetched := fun read present => inv.fetched read (subset present)
  cloned := inv.cloned

theorem renamed (inv : Inv fetchTtl repo state) (orphan : .renames ∈ state.orphans)
    (disk : Disk) :
    Inv fetchTtl repo { state with
      shared.disk := disk
      shared.content := Function.update state.shared.content repo.name
        (state.staged.map fun read _ => read)
      orphans := state.orphans.erase .renames } := by
  rcases inv.finished orphan with ⟨read, isRead, recent⟩
  have base : Git.Inv fetchTtl repo ⟨{ state.shared with
      disk := disk
      content := Function.update state.shared.content repo.name
        (state.staged.map fun read _ => read) }, state.tasks⟩ := by
    refine inv.base_orphan ?_ ?_ (Or.inl (inv.free .renames orphan rfl))
    · intro _
      simp [isRead]
    · intro stamp reads pulled content ref
      simp only [Function.update_self, isRead, Option.map_some, Option.some.injEq] at content
      subst content
      exact recent stamp pulled
  exact { inv.of_subset (List.erase_subset) with base := base }

theorem written (inv : Inv fetchTtl repo state) {dir : Path} {disk : Disk}
    (writes : GitWrites (· = repo) dir state.shared.disk disk)
    (before : hasHead disk repo.cacheDir = true →
      hasHead state.shared.disk repo.cacheDir = true) :
    Inv fetchTtl repo { state with shared.disk := disk } := by
  have same : hasHead disk repo.cacheDir = hasHead state.shared.disk repo.cacheDir :=
    Bool.eq_iff_iff.mpr ⟨before, writes.keeps repo rfl⟩
  exact { inv with base := inv.base_of_head same }

theorem read (inv : Inv fetchTtl repo state) {earlier : Option ℕ}
    (orphan : .fetches earlier ∈ state.orphans) :
    Inv fetchTtl repo { state with
      orphans := .fetches (some state.shared.clock) ::
        state.orphans.erase (.fetches earlier) } := by
  have old {other : Orphan} (present : other ∈ state.orphans.erase (.fetches earlier)) :
      other ∈ state.orphans := List.mem_of_mem_erase present
  refine ⟨inv.base, ?free, ?alone, ?finished, ?fetched, inv.cloned⟩
  case free =>
    intro other present pulls
    rcases List.mem_cons.mp present with rfl | present
    · exact inv.free _ orphan rfl
    · exact inv.free other (old present) pulls
  case alone =>
    intro renames stages
    simp only [List.mem_cons, reduceCtorEq, false_or] at renames stages
    exact inv.alone (old renames) (old stages)
  case finished =>
    intro renames
    simp only [List.mem_cons, reduceCtorEq, false_or] at renames
    exact inv.finished (old renames)
  case fetched =>
    intro instant present
    simp only [List.mem_cons, Orphan.fetches.injEq, Option.some.injEq] at present
    rcases present with rfl | present
    · exact inv.base.kept.stamped
    · exact inv.fetched instant (old present)

theorem updated (inv : Inv fetchTtl repo state) {instant : ℕ} {refs : Text → Bool}
    (orphan : .fetches (some instant) ∈ state.orphans) :
    Inv fetchTtl repo { state with
      shared.content := Function.update state.shared.content repo.name
        ((state.shared.content repo.name).map fun reads ref =>
          if refs ref then instant else reads ref) } := by
  have base : Git.Inv fetchTtl repo ⟨{ state.shared with
      disk := state.shared.disk
      content := Function.update state.shared.content repo.name
        ((state.shared.content repo.name).map fun reads ref =>
          if refs ref then instant else reads ref) }, state.tasks⟩ := by
    refine inv.base_orphan ?_ ?_ (Or.inl (inv.free _ orphan rfl))
    · intro head
      simpa using inv.base.kept.content head
    · intro stamp reads pulled content ref
      simp only [Function.update_self, Option.map_eq_some_iff] at content
      rcases content with ⟨before, isBefore, rfl⟩
      simp only
      split
      · exact inv.fetched instant orphan stamp pulled
      · exact inv.base.kept.reads stamp before pulled isBefore ref
  exact { inv with base := base }

end Orphans

theorem act (inv : Inv fetchTtl repo state)
    (resolved : resolve repo.name upstreamBase root = .ok repo)
    (taken : Act fetchTtl (· = repo) task state.shared (state.tasks task) effect shared' stage')
    (prompt : (state.tasks task).held = none → stage'.held ≠ none →
      ∀ orphan ∈ state.orphans, orphan.pulls = false) :
    Inv fetchTtl repo { state with
      shared := installed repo state.staged shared' (state.tasks task) stage'
      tasks := Function.update state.tasks task stage'
      staged := restage (state.tasks task) stage' state.staged } := by
  have within := inv.base.within task
  rw [installed_eq taken within (inv.cloned task)]
  have base : Git.Inv fetchTtl repo ⟨shared', Function.update state.tasks task stage'⟩ :=
    inv.base.act resolved taken
  -- while an orphan pulls, the task neither has the lock nor takes it
  have still {orphan : Orphan} (present : orphan ∈ state.orphans)
      (pulls : orphan.pulls = true) : (state.tasks task).held = none ∧ stage'.held = none := by
    have notHeld := inv.held_eq_none (inv.free orphan present pulls) task
    refine ⟨notHeld, ?_⟩
    by_contra takes
    have idle := prompt notHeld takes orphan present
    rw [pulls] at idle
    cases idle
  have recent {read : ℕ} (notHeld : (state.tasks task).held = none)
      (before : Recent repo state.shared read) : Recent repo shared' read := by
    have foreign : (state.tasks task).held ≠ some repo.name := by rw [notHeld]; simp
    have same := (taken.frame foreign).2.1
    intro stamp pulled
    exact before stamp (same.symm.trans pulled)
  refine ⟨base, ?free, inv.alone, ?finished, ?fetched, ?cloned⟩
  case free =>
    intro orphan present pulls
    by_contra owned
    rcases Option.ne_none_iff_exists'.mp owned with ⟨owner, owns⟩
    have holds := (base.locks owner repo.name).mpr owns
    by_cases isTask : owner = task
    · subst isTask
      simp [(still present pulls).2] at holds
    · simp [Function.update_of_ne isTask,
        inv.held_eq_none (inv.free orphan present pulls) owner] at holds
  case finished =>
    intro present
    have notHeld := (still present rfl).1
    rcases inv.finished present with ⟨read, isRead, before⟩
    exact ⟨read, (restage_of_free notHeld).trans isRead, recent notHeld before⟩
  case fetched =>
    intro read present
    exact recent (still present rfl).1 (inv.fetched read present)
  case cloned =>
    intro other call read cloned
    by_cases isTask : other = task
    · subst isTask
      simp only [Function.update_self] at cloned
      exact restage_of_cloned taken cloned
    · simp only [Function.update_of_ne isTask] at cloned
      have holds : (state.tasks other).held = some call.repo.name := by rw [cloned]; rfl
      have notHeld : (state.tasks task).held = none := by
        cases held : (state.tasks task).held with
        | none => rfl
        | some name =>
            have own := held_of_within within held
            have same := held_of_within (inv.base.within other) holds
            exact absurd (inv.base.locks.unique (holds.trans (congrArg some same))
              (held.trans (congrArg some own))) isTask
      exact (restage_of_free notHeld).trans (inv.cloned other call read cloned)

theorem base_drop (inv : Inv fetchTtl repo state)
    (dropped : orphaned (state.tasks task) = some left) :
    Git.Inv fetchTtl repo ⟨{ state.shared with
        owner := released state.shared.owner (state.tasks task).held },
      Function.update state.tasks task .idle⟩ := by
  refine ⟨?locks, ?within, ?kept, ?tasks, ?sound⟩
  case locks =>
    cases holds : (state.tasks task).held with
    | none => exact inv.base.locks.frame holds.symm
    | some name => exact inv.base.locks.release holds rfl
  case within =>
    exact (Function.forall_update_iff state.tasks fun _ stage => stage.Within (· = repo)).mpr
      ⟨trivial, fun other _ => inv.base.within other⟩
  case kept =>
    refine ⟨?_, inv.base.kept.content, inv.base.kept.stamped, inv.base.kept.reads⟩
    intro free
    cases holds : (state.tasks task).held with
    | none =>
        rw [holds] at free
        exact inv.base.kept.settled free
    | some name =>
        have settled : Settled repo state.shared :=
          settled_of_orphaned dropped (inv.base.tasks task) (by rw [holds]; simp)
        exact settled
  case tasks =>
    apply (Function.forall_update_iff state.tasks fun _ stage =>
      Holds fetchTtl repo { state.shared with
        owner := released state.shared.owner (state.tasks task).held } stage).mpr
    exact ⟨trivial, fun other _ => (inv.base.tasks other).mono (le_refl _) rfl rfl rfl id⟩
  case sound =>
    apply (Function.forall_update_iff state.tasks fun _ stage =>
      ∀ call, stage.call? = some call → call.Sound fetchTtl).mpr
    refine ⟨?_, fun other _ => inv.base.sound other⟩
    intro call isCall
    cases isCall

theorem drop (inv : Inv fetchTtl repo state)
    (dropped : orphaned (state.tasks task) = some left) :
    Inv fetchTtl repo { state with
      shared.owner := released state.shared.owner (state.tasks task).held
      tasks := Function.update state.tasks task .idle
      orphans := left ++ state.orphans } := by
  have within := inv.base.within task
  have known := inv.base.tasks task
  have single {orphan : Orphan} (present : orphan ∈ left) := left_of_mem dropped within present
  have noPull {orphan other : Orphan} (present : orphan ∈ left) (pulls : other.pulls = true) :
      other ∉ state.orphans := by
    intro isThere
    have holds : (state.tasks task).held ≠ none := by rw [(single present).1]; simp
    have idle := inv.not_pulls holds isThere
    rw [pulls] at idle
    cases idle
  refine ⟨inv.base_drop dropped, ?free, ?alone, ?finished, ?fetched, ?cloned⟩
  case free =>
    intro orphan present pulls
    rcases List.mem_append.mp present with new | old
    · simp only [(single new).1, released, Function.update_self]
    · have free := inv.free orphan old pulls
      simp only [inv.held_eq_none free task, released]
      exact free
  case alone =>
    intro renames stages
    rcases List.mem_append.mp renames with newRename | oldRename
    · rcases List.mem_append.mp stages with newStage | oldStage
      · rw [(single newRename).2] at newStage
        simp at newStage
      · exact noPull newRename rfl oldStage
    · rcases List.mem_append.mp stages with newStage | oldStage
      · exact noPull newStage rfl oldRename
      · exact inv.alone oldRename oldStage
  case finished =>
    intro present
    rcases List.mem_append.mp present with new | old
    · rcases cloned_of_renames dropped new known with ⟨call, read, cloned, recent⟩
      exact ⟨read, inv.cloned task call read cloned, recent⟩
    · exact inv.finished old
  case fetched =>
    intro read present
    rcases List.mem_append.mp present with new | old
    · have recent : Recent repo state.shared read := recent_of_fetches dropped new known
      exact recent
    · exact inv.fetched read old
  case cloned =>
    intro other call read cloned
    by_cases isTask : other = task
    · subst isTask
      simp at cloned
    · simp only [Function.update_of_ne isTask] at cloned
      exact inv.cloned other call read cloned

/-- One step of a prompt run. -/
theorem step (inv : Inv fetchTtl repo state)
    (resolved : resolve repo.name upstreamBase root = .ok repo)
    (taken : PromptStep fetchTtl repo state state') : Inv fetchTtl repo state' := by
  rcases taken with ⟨taken, prompt⟩
  cases taken with
  | act task effect shared stage taken =>
      refine inv.act resolved taken ?_
      intro notHeld takes
      apply prompt task notHeld
      simpa only [Function.update_self] using takes
  | tick clock later => exact inv.tick later
  | drop task left dropped => exact inv.drop dropped
  | made done disk orphan created => exact inv.made created
  | staged left orphan => exact inv.staged resolved orphan left
  | renamed disk orphan moved => exact inv.renamed orphan disk
  | written orphan dir disk present inMirror place writes before => exact inv.written writes before
  | read earlier orphan => exact inv.read orphan
  | updated instant refs orphan => exact inv.updated orphan
  | ended orphan present => exact inv.of_subset List.erase_subset

end Inv

/-! ## Over whole runs -/

/-- What a repository is still good for when requests are given up. -/
structure Withstands (fetchTtl : ℕ) (repo : RepoRef) (state : State Task) : Prop where
  promises : Promises fetchTtl repo ⟨state.shared, state.tasks⟩
  /-- a mirror that is in place is a whole clone -/
  whole : hasHead state.shared.disk repo.cacheDir = true →
    (state.shared.content repo.name).isSome
  /-- no ref is older than the last successful pull -/
  recent : ∀ stamp reads, state.shared.pulled repo.name = some stamp →
    state.shared.content repo.name = some reads → ∀ ref, stamp ≤ reads ref
  /-- no lock is left behind -/
  free : ∀ name owner, state.shared.owner name = some owner → (state.tasks owner).held = some name

theorem inv_of_reachable (resolved : resolve repo.name upstreamBase root = .ok repo)
    (reached : Reachable (Starts repo) (PromptStep fetchTtl repo) state) :
    Inv fetchTtl repo state :=
  reached.invariant (fun _ starts => .of_starts starts)
    (fun _ _ inv taken => inv.step resolved taken)

/-- Whatever requests are given up, and whenever: as long as what is left of a pull is over before
the lock is taken again, nothing that is promised of the pulls is lost. -/
theorem withstands_of_prompt {fetchTtl : ℕ} {upstreamBase : Text} {root : Path}
    {state : State Task} (repo : Resolved upstreamBase root)
    (reached : Reachable (Starts repo.toRepoRef) (PromptStep fetchTtl repo.toRepoRef) state) :
    Withstands fetchTtl repo.toRepoRef state := by
  have inv := inv_of_reachable repo.resolved reached
  exact ⟨inv.base.promises, inv.base.kept.content, inv.base.kept.reads,
    fun name owner owns => (inv.base.locks owner name).mpr owns⟩

/-! A first clone is given up while it is renamed. -/

def freshStart : State Bool := ⟨freshServer.shared, freshServer.tasks, [], none⟩

theorem starts_freshStart : Starts demoRepo.toRepoRef freshStart := by
  refine ⟨⟨fun _ => rfl, fun _ => rfl, fun _ => rfl, fun _ => rfl, ?_⟩, rfl⟩
  rintro repo rfl
  rfl

theorem prompt_of_nil {Task : Type u} {state state' : State Task} (none : state.orphans = []) :
    Prompt state state' := by
  intro task _ _ orphan present
  rw [none] at present
  cases present

/-- The rename is over before the next request has the lock, and that one fetches. -/
theorem withstands_of_early_rename : ∃ state : State Bool,
    (∃ call, state.tasks true = .idle ∧ state.tasks false = .leaving call (.ok .fetched)) ∧
      Withstands 60 demoRepo.toRepoRef state := by
  have run : Reachable (Starts demoRepo.toRepoRef) (PromptStep 60 demoRepo.toRepoRef)
      freshStart := .start starts_freshStart
  have run := run.next ⟨.act true _ _ _ (.arrive demoRepo.toRepoRef true rfl), prompt_of_nil rfl⟩
  have run := run.next ⟨.act true _ _ _ (.lock _ _ rfl), prompt_of_nil rfl⟩
  have run := run.next ⟨.act true _ _ _ (.start _ _ _), prompt_of_nil rfl⟩
  have run := run.next ⟨.act true _ _ _ (.absent _ rfl), prompt_of_nil rfl⟩
  have run := run.next ⟨.act true _ _ _ (.made _ _ rfl), prompt_of_nil rfl⟩
  have run := run.next ⟨.tick 9 (by decide), prompt_of_nil rfl⟩
  have run := run.next ⟨.act true _ _ _ (.cloneReads _ _), prompt_of_nil rfl⟩
  have run := run.next ⟨.act true _ _ _ (.cloneWrites _ _ (some bareMirror) (by decide)),
    prompt_of_nil rfl⟩
  have run := run.next ⟨.act true _ _ _ (.cloneDone _ _), prompt_of_nil rfl⟩
  have run := run.next ⟨.drop true [.renames] rfl, prompt_of_nil rfl⟩
  have run := run.next ⟨.renamed _ (.head _) rfl, fun _ notHeld takes => absurd notHeld takes⟩
  have run := run.next ⟨.act false _ _ _ (.arrive demoRepo.toRepoRef true rfl), prompt_of_nil rfl⟩
  have run := run.next ⟨.act false _ _ _ (.lock _ _ rfl), prompt_of_nil rfl⟩
  have run := run.next ⟨.act false _ _ _ (.start _ _ _), prompt_of_nil rfl⟩
  have run := run.next ⟨.act false _ _ _ (.present _ rfl), prompt_of_nil rfl⟩
  have run := run.next ⟨.act false _ _ _ (.decide _), prompt_of_nil rfl⟩
  have run := run.next ⟨.act false _ _ _ (.fetchReads _ _), prompt_of_nil rfl⟩
  have run := run.next ⟨.act false _ _ _ (.fetchDone _ _), prompt_of_nil rfl⟩
  have run := run.next ⟨.act false _ _ _ (.mark _ _), prompt_of_nil rfl⟩
  have run := run.next ⟨.act false _ _ _ (.notify _ _), prompt_of_nil rfl⟩
  have run := run.next ⟨.act false _ _ _ (.stamp _), prompt_of_nil rfl⟩
  have run := run.next ⟨.act false _ _ _ (.wantsOver _), prompt_of_nil rfl⟩
  exact ⟨_, ⟨_, rfl, rfl⟩, withstands_of_prompt demoRepo run⟩

/-- A rename that comes while the next request clones puts what that one has so far in place. -/
theorem half_clone_of_late_rename : ∃ state : State Bool,
    Reachable (Starts demoRepo.toRepoRef) (Step 60 demoRepo.toRepoRef) state ∧
      ¬Withstands 60 demoRepo.toRepoRef state := by
  have run : Reachable (Starts demoRepo.toRepoRef) (Step 60 demoRepo.toRepoRef)
      freshStart := .start starts_freshStart
  have run := run.next (.act true _ _ _ (.arrive demoRepo.toRepoRef true rfl))
  have run := run.next (.act true _ _ _ (.lock _ _ rfl))
  have run := run.next (.act true _ _ _ (.start _ _ _))
  have run := run.next (.act true _ _ _ (.absent _ rfl))
  have run := run.next (.act true _ _ _ (.made _ _ rfl))
  have run := run.next (.act true _ _ _ (.cloneReads _ _))
  have run := run.next (.act true _ _ _ (.cloneWrites _ _ (some bareMirror) (by decide)))
  have run := run.next (.act true _ _ _ (.cloneDone _ _))
  have run := run.next (.drop true [.renames] rfl)
  have run := run.next (.act false _ _ _ (.arrive demoRepo.toRepoRef true rfl))
  have run := run.next (.act false _ _ _ (.lock _ _ rfl))
  have run := run.next (.act false _ _ _ (.start _ _ _))
  have run := run.next (.act false _ _ _ (.absent _ rfl))
  have run := run.next (.act false _ _ _ (.made _ _ rfl))
  have run := run.next (.act false _ _ _ (.cloneWrites _ _ (some bareMirror) (by decide)))
  have run := run.next (.renamed _ (.head _) rfl)
  refine ⟨_, run, ?_⟩
  intro withstands
  have whole := withstands.whole rfl
  cases whole

end GitCacheProxy.Git.Cancellation
