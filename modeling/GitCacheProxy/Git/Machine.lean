import GitCacheProxy.Foundation.TransitionSystem
import GitCacheProxy.Git.Mirror

/-!
# Requests and evictions interleaved

`ensure_fresh` and `evict` as programs that take turns.  A task runs one of
them; one `Act` is one of its atomic actions, in program order.  What a child of
`git` does while it runs is a series of actions of its own: it may do anything
in the staging directory of a clone, and in a mirror anything that removes no
mirror.

`pulled` and `content` are history: they record when the last successful pull of
a repository started, and when each ref of a mirror was read from upstream.  No
action depends on them.
-/

namespace GitCacheProxy.Git

open Repo FileTree TransitionSystem

universe u

/-- What all tasks share. -/
structure Shared (Task : Type u) where
  clock : ℕ
  disk : Disk
  index : Index.CacheIndex
  /-- the task that holds the `fetch_lock` of a repository -/
  owner : Text → Option Task
  /-- what that lock guards -/
  last : Text → Option ℕ
  pulled : Text → Option ℕ
  content : Text → Option (Text → ℕ)

/-- A request that holds the lock; `lockedAt` is history. -/
structure Ticket where
  repo : RepoRef
  wantFetch : Bool
  lockedAt : ℕ
  started : ℕ

/-- A request that has chosen its branch, with the outcome it will report if nothing fails.
The rest is history: what it found, and when. -/
structure Call extends Ticket where
  outcome : CacheOutcome
  found : Bool
  decidedAt : ℕ
  lastPull : Option ℕ

/-- Where a task is. -/
inductive Stage where
  | idle
  | queued (repo : RepoRef) (wantFetch : Bool)
  | locked (repo : RepoRef) (wantFetch : Bool) (lockedAt : ℕ)
  | started (ticket : Ticket)
  /-- `HEAD` is there -/
  | mirrored (ticket : Ticket)
  | making (call : Call)
  | cloning (call : Call) (read : Option ℕ)
  | cloned (call : Call) (read : ℕ)
  | fetching (call : Call) (read : Option ℕ)
  /-- about to call `mark_changed` after a pull, or after a want-fetch -/
  | changed (call : Call) (wants : Bool)
  /-- about to call `notify_one` -/
  | marked (call : Call) (wants : Bool)
  | stamping (call : Call)
  /-- in `ensure_wanted_oids` -/
  | wanting (call : Call)
  | pruning (call : Call)
  | leaving (call : Call) (result : Except FreshError CacheOutcome)
  /-- `ensure_fresh` has returned `Ok`, and `upload-pack` is about to start -/
  | serving (repo : RepoRef)
  | evictQueued (name : Text) (dir : Path)
  | evictLocked (name : Text) (dir : Path)
  /-- `HEAD` is there, and the trash is about to be cleared -/
  | clearing (name : Text) (dir : Path)
  | vacating (name : Text) (dir : Path)
  | vacated (name : Text) (dir : Path)
  | sweeping (dir : Path)

/-- What an action means to the rest of the system. -/
inductive Effect where
  | quiet
  /-- a file-system call failed -/
  | fault
  /-- an eviction moved `dir` away -/
  | vacated (name : Text) (dir : Path)

namespace Stage

/-- The task works for one of the allowed repositories. -/
def Within (allowed : RepoRef → Prop) : Stage → Prop
  | idle => True
  | queued repo _ | locked repo _ _ | serving repo => allowed repo
  | started ticket | mirrored ticket => allowed ticket.repo
  | making call | cloning call _ | cloned call _ | fetching call _ | changed call _
  | marked call _ | stamping call | wanting call | pruning call | leaving call _ =>
      allowed call.repo
  | evictQueued name dir | evictLocked name dir | clearing name dir | vacating name dir
  | vacated name dir => ∃ repo, allowed repo ∧ repo.name = name ∧ repo.cacheDir = dir
  | sweeping dir => ∃ repo, allowed repo ∧ repo.cacheDir = dir

/-- The repository whose lock a task holds. -/
def held : Stage → Option Text
  | locked repo _ _ => some repo.name
  | started ticket | mirrored ticket => some ticket.repo.name
  | making call | cloning call _ | cloned call _ | fetching call _ | changed call _
  | marked call _ | stamping call | wanting call | pruning call | leaving call _ =>
      some call.repo.name
  | evictLocked name _ | clearing name _ | vacating name _ | vacated name _ => some name
  | idle | queued _ _ | serving _ | evictQueued _ _ | sweeping _ => none

/-- The call that a task is in, from its decision on. -/
def call? : Stage → Option Call
  | making call | cloning call _ | cloned call _ | fetching call _ | changed call _
  | marked call _ | stamping call | wanting call | pruning call | leaving call _ => some call
  | _ => none

/-- In the middle of a clone or a fetch. -/
def pulls : Stage → Bool
  | making _ | cloning _ _ | cloned _ _ | fetching _ _ => true
  | _ => false

/-- A child of `git` works in the mirror, or may soon. -/
def inMirror : Stage → Option Call
  | fetching call _ | wanting call | pruning call => some call
  | _ => none

/-- In the middle of an eviction's rename. -/
def vacates : Stage → Bool
  | vacating _ _ => true
  | _ => false

/-- The repository whose mirror is there, as far as a task under its lock knows. -/
def works : Stage → Option RepoRef
  | mirrored ticket => some ticket.repo
  | fetching call _ | changed call _ | marked call _ | stamping call | wanting call
  | pruning call | leaving call (.ok _) => some call.repo
  | _ => none

/-- The repository whose mirror a request counts on, until `upload-pack` has started. -/
def relies : Stage → Option RepoRef
  | serving repo => some repo
  | stage => stage.works

/-- In `evict`. -/
def evicts : Stage → Bool
  | evictQueued _ _ | evictLocked _ _ | clearing _ _ | vacating _ _ | vacated _ _
  | sweeping _ => true
  | _ => false

/-- The mirror that an eviction is still to move away. -/
def evictee : Stage → Option Text
  | evictQueued name _ | evictLocked name _ | clearing name _ | vacating name _ => some name
  | _ => none

theorem held_of_works {stage : Stage} {repo : RepoRef} (works : stage.works = some repo) :
    stage.held = some repo.name := by
  cases stage with
  | mirrored ticket => cases works; rfl
  | fetching call read => cases works; rfl
  | changed call wants => cases works; rfl
  | marked call wants => cases works; rfl
  | stamping call => cases works; rfl
  | wanting call => cases works; rfl
  | pruning call => cases works; rfl
  | leaving call result =>
      cases result with
      | ok outcome => cases works; rfl
      | error error => cases works
  | _ => cases works

theorem works_of_inMirror {stage : Stage} {call : Call} (inMirror : stage.inMirror = some call) :
    stage.works = some call.repo := by
  cases stage with
  | fetching other read => cases inMirror; rfl
  | wanting other => cases inMirror; rfl
  | pruning other => cases inMirror; rfl
  | _ => cases inMirror

theorem allowed_of_relies {stage : Stage} {allowed : RepoRef → Prop} {repo : RepoRef}
    (known : stage.Within allowed) (relies : stage.relies = some repo) : allowed repo := by
  cases stage with
  | mirrored ticket => cases relies; exact known
  | fetching call read => cases relies; exact known
  | changed call wants => cases relies; exact known
  | marked call wants => cases relies; exact known
  | stamping call => cases relies; exact known
  | wanting call => cases relies; exact known
  | pruning call => cases relies; exact known
  | leaving call result =>
      cases result with
      | ok outcome => cases relies; exact known
      | error error => cases relies
  | serving other => cases relies; exact known
  | _ => cases relies

theorem serves_or_works {stage : Stage} {repo : RepoRef} (relies : stage.relies = some repo) :
    stage = .serving repo ∨ stage.works = some repo := by
  cases stage with
  | serving other =>
      cases relies
      exact Or.inl rfl
  | _ => exact Or.inr relies

theorem relies_of_works {stage : Stage} {repo : RepoRef} (works : stage.works = some repo) :
    stage.relies = some repo := by
  cases stage with
  | serving other => cases works
  | _ => exact works

end Stage

namespace Shared

variable {Task : Type u} (shared : Shared Task)

/-- What a request decides on when its mirror is there. -/
def decide (fetchTtl : ℕ) (ticket : Ticket) : Stage :=
  let stale := ticket.wantFetch &&
    GitCache.isStale fetchTtl shared.clock (shared.last ticket.repo.name)
  let call : Call := {
    ticket with
    outcome := if stale then .fetched else .cached
    found := true
    decidedAt := shared.clock
    lastPull := shared.pulled ticket.repo.name }
  if stale then .fetching call none else .wanting call

/-- What it decides on otherwise. -/
def decideClone (ticket : Ticket) : Stage :=
  .making {
    ticket with
    outcome := .cloned
    found := false
    decidedAt := shared.clock
    lastPull := shared.pulled ticket.repo.name }

end Shared

/-- What a child of `git` may do in a mirror: anything that leaves the mirrors in place. -/
structure GitWrites (allowed : RepoRef → Prop) (dir : Path) (disk after : Disk) : Prop where
  outside : ∀ path, ¬dir <+: path → after.get? path = disk.get? path
  keeps : ∀ repo, allowed repo → hasHead disk repo.cacheDir = true →
    hasHead after repo.cacheDir = true

variable {Task : Type u}

/-- One action of a task, in the order of the program. -/
inductive Act (fetchTtl : ℕ) (allowed : RepoRef → Prop) (task : Task) (shared : Shared Task) :
    Stage → Effect → Shared Task → Stage → Prop where
  | arrive (repo : RepoRef) (wantFetch : Bool) (known : allowed repo) :
      Act fetchTtl allowed task shared .idle .quiet
        { shared with index := shared.index.touch repo.name } (.queued repo wantFetch)
  | lock (repo : RepoRef) (wantFetch : Bool) (free : shared.owner repo.name = none) :
      Act fetchTtl allowed task shared (.queued repo wantFetch) .quiet
        { shared with owner := Function.update shared.owner repo.name (some task) }
        (.locked repo wantFetch shared.clock)
  | start (repo : RepoRef) (wantFetch : Bool) (lockedAt : ℕ) :
      Act fetchTtl allowed task shared (.locked repo wantFetch lockedAt) .quiet shared
        (.started ⟨repo, wantFetch, lockedAt, shared.clock⟩)
  | present (ticket : Ticket) (head : hasHead shared.disk ticket.repo.cacheDir = true) :
      Act fetchTtl allowed task shared (.started ticket) .quiet shared (.mirrored ticket)
  | absent (ticket : Ticket) (noHead : hasHead shared.disk ticket.repo.cacheDir = false) :
      Act fetchTtl allowed task shared (.started ticket) .quiet shared
        (shared.decideClone ticket)
  | decide (ticket : Ticket) :
      Act fetchTtl allowed task shared (.mirrored ticket) .quiet shared
        (shared.decide fetchTtl ticket)
  -- `clone_mirror`
  | made (call : Call) (disk : Disk)
      (created : shared.disk.createDirAll call.repo.cacheDir.dropLast = some disk) :
      Act fetchTtl allowed task shared (.making call) .quiet
        { shared with disk := disk } (.cloning call none)
  | blocked (call : Call)
      (inTheWay : shared.disk.createDirAll call.repo.cacheDir.dropLast = none) :
      Act fetchTtl allowed task shared (.making call) .fault
        shared (.leaving call (.error .createParent))
  | partlyMade (call : Call) (done : ℕ) (disk : Disk)
      (created : shared.disk.createDirAll (call.repo.cacheDir.dropLast.take done) = some disk) :
      Act fetchTtl allowed task shared (.making call) .fault
        { shared with disk := disk } (.leaving call (.error .createParent))
  | cloneReads (call : Call) (read : Option ℕ) :
      Act fetchTtl allowed task shared (.cloning call read) .quiet
        shared (.cloning call (some shared.clock))
  | cloneWrites (call : Call) (read : Option ℕ) (left : Option Disk)
      (way : shared.disk.createDirAll call.repo.cacheDir.dropLast ≠ none) :
      Act fetchTtl allowed task shared (.cloning call read) .quiet
        { shared with disk := shared.disk.replace (stagingDir call.repo.cacheDir) left }
        (.cloning call read)
  | cloneDone (call : Call) (read : ℕ) :
      Act fetchTtl allowed task shared (.cloning call (some read)) .quiet
        shared (.cloned call read)
  | cloneFails (call : Call) (read : Option ℕ) (error : UpstreamError) :
      Act fetchTtl allowed task shared (.cloning call read) .quiet
        shared (.leaving call (.error (.upstream error)))
  -- what `git clone` leaves has a `HEAD`
  | install (call : Call) (read : ℕ) (disk : Disk)
      (filled : hasHead shared.disk (stagingDir call.repo.cacheDir) = true)
      (renamed : shared.disk.rename (stagingDir call.repo.cacheDir) call.repo.cacheDir =
        some disk) :
      Act fetchTtl allowed task shared (.cloned call read) .quiet
        { shared with
          disk := disk
          pulled := Function.update shared.pulled call.repo.name (some call.started)
          content := Function.update shared.content call.repo.name (some fun _ => read) }
        (.changed call false)
  | notInstalled (call : Call) (read : ℕ) :
      Act fetchTtl allowed task shared (.cloned call read) .fault
        shared (.leaving call (.error .rename))
  -- `fetch`
  | fetchReads (call : Call) (read : Option ℕ) :
      Act fetchTtl allowed task shared (.fetching call read) .quiet
        shared (.fetching call (some shared.clock))
  | fetchWrites (call : Call) (read : Option ℕ) (disk : Disk)
      (writes : GitWrites allowed call.repo.cacheDir shared.disk disk) :
      Act fetchTtl allowed task shared (.fetching call read) .quiet
        { shared with disk := disk } (.fetching call read)
  | fetchUpdates (call : Call) (read : ℕ) (updated : Text → Bool) :
      Act fetchTtl allowed task shared (.fetching call (some read)) .quiet
        { shared with
          content := Function.update shared.content call.repo.name
            ((shared.content call.repo.name).map fun reads ref =>
              if updated ref then read else reads ref) }
        (.fetching call (some read))
  | fetchDone (call : Call) (read : ℕ) :
      Act fetchTtl allowed task shared (.fetching call (some read)) .quiet
        { shared with
          pulled := Function.update shared.pulled call.repo.name (some call.started)
          content := Function.update shared.content call.repo.name
            ((shared.content call.repo.name).map fun _ _ => read) }
        (.changed call false)
  | fetchFails (call : Call) (read : Option ℕ) (error : UpstreamError) :
      Act fetchTtl allowed task shared (.fetching call read) .quiet
        shared (.leaving call (.error (.upstream error)))
  | mark (call : Call) (wants : Bool) :
      Act fetchTtl allowed task shared (.changed call wants) .quiet
        { shared with index := shared.index.markChanged call.repo.name } (.marked call wants)
  | notify (call : Call) (wants : Bool) :
      Act fetchTtl allowed task shared (.marked call wants) .quiet
        { shared with index := shared.index.notifyOne }
        (if wants then .pruning call else .stamping call)
  | stamp (call : Call) :
      Act fetchTtl allowed task shared (.stamping call) .quiet
        { shared with last := Function.update shared.last call.repo.name (some call.started) }
        (.wanting call)
  -- `ensure_wanted_oids`
  | wantWrites (call : Call) (disk : Disk)
      (writes : GitWrites allowed call.repo.cacheDir shared.disk disk) :
      Act fetchTtl allowed task shared (.wanting call) .quiet
        { shared with disk := disk } (.wanting call)
  | wantsFetched (call : Call) :
      Act fetchTtl allowed task shared (.wanting call) .quiet shared (.changed call true)
  | wantsOver (call : Call) :
      Act fetchTtl allowed task shared (.wanting call) .quiet
        shared (.leaving call (.ok call.outcome))
  | pruneWrites (call : Call) (disk : Disk)
      (writes : GitWrites allowed call.repo.cacheDir shared.disk disk) :
      Act fetchTtl allowed task shared (.pruning call) .quiet
        { shared with disk := disk } (.pruning call)
  | pruned (call : Call) :
      Act fetchTtl allowed task shared (.pruning call) .quiet
        shared (.leaving call (.ok call.outcome))
  | succeed (call : Call) (outcome : CacheOutcome) :
      Act fetchTtl allowed task shared (.leaving call (.ok outcome)) .quiet
        { shared with owner := Function.update shared.owner call.repo.name none }
        (.serving call.repo)
  | fail (call : Call) (error : FreshError) :
      Act fetchTtl allowed task shared (.leaving call (.error error)) .quiet
        { shared with owner := Function.update shared.owner call.repo.name none } .idle
  | serve (repo : RepoRef) :
      Act fetchTtl allowed task shared (.serving repo) .quiet shared .idle
  -- `evict`
  | evict (repo : RepoRef) (known : allowed repo) :
      Act fetchTtl allowed task shared .idle .quiet
        shared (.evictQueued repo.name repo.cacheDir)
  | evictLock (name : Text) (dir : Path) (free : shared.owner name = none) :
      Act fetchTtl allowed task shared (.evictQueued name dir) .quiet
        { shared with owner := Function.update shared.owner name (some task) }
        (.evictLocked name dir)
  | evictAbsent (name : Text) (dir : Path) (noHead : hasHead shared.disk dir = false) :
      Act fetchTtl allowed task shared (.evictLocked name dir) .quiet
        { shared with owner := Function.update shared.owner name none } .idle
  | evictPresent (name : Text) (dir : Path) (head : hasHead shared.disk dir = true) :
      Act fetchTtl allowed task shared (.evictLocked name dir) .quiet
        shared (.clearing name dir)
  | clear (name : Text) (dir : Path) (failure : Option Disk) :
      Act fetchTtl allowed task shared (.clearing name dir)
        (if failure.isSome then .fault else .quiet)
        { shared with disk := GitCache.discard shared.disk (trashDir dir) failure }
        (.vacating name dir)
  | vacate (name : Text) (dir : Path) (disk : Disk)
      (renamed : shared.disk.rename dir (trashDir dir) = some disk) :
      Act fetchTtl allowed task shared (.vacating name dir) (.vacated name dir)
        { shared with
          disk := disk
          content := Function.update shared.content name none }
        (.vacated name dir)
  | notVacated (name : Text) (dir : Path) :
      Act fetchTtl allowed task shared (.vacating name dir) .fault
        { shared with owner := Function.update shared.owner name none } .idle
  | unlock (name : Text) (dir : Path) :
      Act fetchTtl allowed task shared (.vacated name dir) .quiet
        { shared with owner := Function.update shared.owner name none } (.sweeping dir)
  | sweep (dir : Path) (failure : Option Disk) :
      Act fetchTtl allowed task shared (.sweeping dir)
        (if failure.isSome then .fault else .quiet)
        { shared with disk := GitCache.discard shared.disk (trashDir dir) failure } .idle

/-! ## What one action can change -/

namespace Act

variable {fetchTtl : ℕ} {allowed : RepoRef → Prop} {task : Task} {shared shared' : Shared Task}
  {stage stage' : Stage} {effect : Effect}

@[simp]
theorem held_decide (ticket : Ticket) :
    (shared.decide fetchTtl ticket).held = some ticket.repo.name := by
  simp only [Shared.decide]
  split
  · rfl
  · rfl

theorem clock (taken : Act fetchTtl allowed task shared stage effect shared' stage') :
    shared'.clock = shared.clock := by
  cases taken with
  | _ => rfl

/-- What the lock of a repository guards is changed only by its holder. -/
theorem frame (taken : Act fetchTtl allowed task shared stage effect shared' stage') {name : Text}
    (notHeld : stage.held ≠ some name) :
    shared'.last name = shared.last name ∧ shared'.pulled name = shared.pulled name ∧
      shared'.content name = shared.content name := by
  have other {holder : Text} (holds : some holder ≠ some name) : name ≠ holder :=
    fun same => holds (congrArg some same.symm)
  cases taken with
  | install call read disk filled renamed =>
      have different := other notHeld
      simp [Function.update_of_ne different]
  | fetchUpdates call read updated =>
      have different := other notHeld
      simp [Function.update_of_ne different]
  | fetchDone call read =>
      have different := other notHeld
      simp [Function.update_of_ne different]
  | stamp call =>
      have different := other notHeld
      simp [Function.update_of_ne different]
  | vacate victim dir disk renamed =>
      have different := other notHeld
      simp [Function.update_of_ne different]
  | _ => exact ⟨rfl, rfl, rfl⟩

end Act

namespace Act

variable {fetchTtl : ℕ} {allowed : RepoRef → Prop} {task : Task} {shared shared' : Shared Task}
  {stage stage' : Stage} {effect : Effect} {upstreamBase : Text} {root : Path} {repo : RepoRef}

theorem within (taken : Act fetchTtl allowed task shared stage effect shared' stage')
    (known : stage.Within allowed) : stage'.Within allowed := by
  cases taken with
  | arrive repo wantFetch allowedRepo => exact allowedRepo
  | evict repo allowedRepo => exact ⟨repo, allowedRepo, rfl, rfl⟩
  | decide ticket =>
      simp only [Shared.decide]
      split
      · exact known
      · exact known
  | notify call wants =>
      cases wants with
      | true => exact known
      | false => exact known
  | unlock name dir =>
      rcases known with ⟨repo, allowedRepo, _, dirEq⟩
      exact ⟨repo, allowedRepo, dirEq⟩
  | fail call error => trivial
  | serve repo => trivial
  | evictAbsent name dir noHead => trivial
  | notVacated name dir => trivial
  | sweep dir failure => trivial
  | _ => exact known

theorem hasHead_iff {disk : Disk} {path : Path} :
    hasHead disk path = true ↔ disk.Exists (path ++ [headFile]) := by
  simp [hasHead]

/-- Putting something in the place of a staging or trash directory removes no mirror. -/
theorem exists_replace {disk : Disk} {place path : Path} (notRoot : place ≠ [])
    (outside : ¬place <+: path) (left : Option Disk) (present : disk.Exists path) :
    (disk.replace place left).Exists path := by
  cases left with
  | none => rwa [Tree.replace, Tree.Exists, Tree.get?_remove notRoot, if_neg outside]
  | some sub =>
      rw [Tree.replace, Tree.Exists, Tree.get?_graft notRoot, if_neg outside]
      split
      · simp
      · exact present

theorem exists_discard {disk : Disk} {place path : Path} (notRoot : place ≠ [])
    (outside : ¬place <+: path) (failure : Option Disk) (present : disk.Exists path) :
    (GitCache.discard disk place failure).Exists path := by
  unfold GitCache.discard cleanStaging
  split
  · exact present
  · exact present
  · cases failure with
    | none => exact exists_replace notRoot outside none present
    | some left => exact exists_replace notRoot outside (some left) present

theorem pushSuffix_ne_nil (path : Path) (mark : Text) : pushSuffix path mark ≠ [] := by
  simp [pushSuffix]

/-- Only an eviction takes a mirror away. -/
theorem keeps_head (taken : Act fetchTtl allowed task shared stage effect shared' stage')
    (resolved : ∀ repo, allowed repo → resolve repo.name upstreamBase root = .ok repo)
    (known : stage.Within allowed) (allowedRepo : allowed repo)
    (stays : ∀ name dir, effect = .vacated name dir → ¬dir <+: repo.cacheDir ++ [headFile])
    (head : hasHead shared.disk repo.cacheDir = true) :
    hasHead shared'.disk repo.cacheDir = true := by
  have stagingOutside {other : RepoRef} (allowedOther : allowed other) :
      ¬stagingDir other.cacheDir <+: repo.cacheDir ++ [headFile] :=
    not_staging_above_head (resolved repo allowedRepo) (resolved other allowedOther)
  have trashOutside {other : RepoRef} (allowedOther : allowed other) :
      ¬trashDir other.cacheDir <+: repo.cacheDir ++ [headFile] :=
    not_trash_above_head (resolved repo allowedRepo) (resolved other allowedOther)
  rw [hasHead_iff] at head
  cases taken with
  | made call disk created =>
      rw [hasHead_iff]
      exact (Tree.exists_createDirAll created _).mpr (Or.inr head)
  | partlyMade call done disk created =>
      rw [hasHead_iff]
      exact (Tree.exists_createDirAll created _).mpr (Or.inr head)
  | cloneWrites call read left way =>
      rw [hasHead_iff]
      exact exists_replace (pushSuffix_ne_nil _ _) (stagingOutside known) left head
  | install call read disk filled renamed =>
      rw [hasHead_iff]
      exact Tree.exists_of_rename renamed head (stagingOutside known)
  | fetchWrites call read disk writes => exact writes.keeps repo allowedRepo (hasHead_iff.mpr head)
  | wantWrites call disk writes => exact writes.keeps repo allowedRepo (hasHead_iff.mpr head)
  | pruneWrites call disk writes => exact writes.keeps repo allowedRepo (hasHead_iff.mpr head)
  | clear name dir failure =>
      rcases known with ⟨other, allowedOther, _, rfl⟩
      rw [hasHead_iff]
      exact exists_discard (pushSuffix_ne_nil _ _) (trashOutside allowedOther) failure head
  | vacate name dir disk renamed =>
      rw [hasHead_iff]
      exact Tree.exists_of_rename renamed head (stays name dir rfl)
  | sweep dir failure =>
      rcases known with ⟨other, allowedOther, rfl⟩
      rw [hasHead_iff]
      exact exists_discard (pushSuffix_ne_nil _ _) (trashOutside allowedOther) failure head
  | _ => exact hasHead_iff.mpr head

theorem exists_of_replace {disk : Disk} {place path : Path} (left : Option Disk)
    (notRoot : place ≠ []) (outside : ¬place <+: path) (notAbove : ¬path <+: place)
    (present : (disk.replace place left).Exists path) : disk.Exists path := by
  cases left with
  | none => rwa [Tree.replace, Tree.Exists, Tree.get?_remove notRoot, if_neg outside] at present
  | some sub =>
      rwa [Tree.replace, Tree.Exists, Tree.get?_graft notRoot, if_neg outside,
        if_neg notAbove] at present

theorem exists_of_discard {disk : Disk} {place path : Path} {failure : Option Disk}
    (notRoot : place ≠ []) (outside : ¬place <+: path) (notAbove : ¬path <+: place)
    (present : (GitCache.discard disk place failure).Exists path) : disk.Exists path := by
  unfold GitCache.discard cleanStaging at present
  split at present
  · exact present
  · exact present
  · cases failure with
    | none => exact exists_of_replace none notRoot outside notAbove present
    | some left => exact exists_of_replace (some left) notRoot outside notAbove present

theorem get?_discard_of_apart {disk : Disk} {place path : Path} (failure : Option Disk)
    (notRoot : place ≠ []) (outside : ¬place <+: path) (notAbove : ¬path <+: place) :
    (GitCache.discard disk place failure).get? path = disk.get? path := by
  have replaced (left : Option Disk) : (disk.replace place left).get? path = disk.get? path :=
    Tree.get?_replace_of_apart notRoot outside notAbove
  unfold GitCache.discard cleanStaging
  split
  · rfl
  · rfl
  · cases failure with
    | none => exact replaced none
    | some left => exact replaced (some left)

theorem eq_of_inside {other : RepoRef} {comp : Text}
    (notNested : ∀ first second, allowed first → allowed second →
      first.cacheDir <+: second.cacheDir → first = second)
    (allowedOther : allowed other) (allowedRepo : allowed repo)
    (inside : other.cacheDir <+: repo.cacheDir ++ [comp]) : other = repo := by
  rcases List.prefix_concat_iff.mp inside with equal | above
  · have below : repo.cacheDir <+: other.cacheDir := by
      rw [equal]
      exact List.prefix_append _ _
    exact (notNested repo other allowedRepo allowedOther below).symm
  · exact notNested other repo allowedOther allowedRepo above

/-- Where mirrors are not nested, only a clone of a mirror puts it in place. -/
theorem new_head (taken : Act fetchTtl allowed task shared stage effect shared' stage')
    (resolved : ∀ repo, allowed repo → resolve repo.name upstreamBase root = .ok repo)
    (notNested : ∀ first second, allowed first → allowed second →
      first.cacheDir <+: second.cacheDir → first = second)
    (known : stage.Within allowed) (allowedRepo : allowed repo)
    (head : hasHead shared'.disk repo.cacheDir = true) :
    hasHead shared.disk repo.cacheDir = true ∨
      (∃ call read, stage = .cloned call read ∧ stage' = .changed call false ∧
        call.repo = repo) ∨
      ∃ call, stage.inMirror = some call ∧ call.repo = repo := by
  have stagingOutside {other : RepoRef} (allowedOther : allowed other) :
      ¬stagingDir other.cacheDir <+: repo.cacheDir ++ [headFile] :=
    not_staging_above_head (resolved repo allowedRepo) (resolved other allowedOther)
  have trashOutside {other : RepoRef} (allowedOther : allowed other) :
      ¬trashDir other.cacheDir <+: repo.cacheDir ++ [headFile] :=
    not_trash_above_head (resolved repo allowedRepo) (resolved other allowedOther)
  have notAbove {other : RepoRef} {mark : Text} (allowedOther : allowed other)
      (plain : ¬mark <:+: headFile) :
      ¬repo.cacheDir ++ [headFile] <+: pushSuffix other.cacheDir mark :=
    not_above_reserved (resolved repo allowedRepo) (resolved other allowedOther) plain
      (notNested repo other allowedRepo allowedOther)
  have notOnTheWay {other : RepoRef} (allowedOther : allowed other) {path : Path}
      (way : path <+: other.cacheDir.dropLast) : ¬repo.cacheDir ++ [headFile] <+: path := by
    intro above
    have marked : other.cacheDir.dropLast <+: pushSuffix other.cacheDir incomingSuffix :=
      List.prefix_append _ _
    exact notAbove allowedOther (by decide) ((above.trans way).trans marked)
  have same {other : RepoRef} (allowedOther : allowed other) :
      other.cacheDir <+: repo.cacheDir ++ [headFile] → other = repo :=
    eq_of_inside notNested allowedOther allowedRepo
  have written {call : Call} {disk : Disk} (knownCall : allowed call.repo)
      (writes : GitWrites allowed call.repo.cacheDir shared.disk disk)
      (present : disk.Exists (repo.cacheDir ++ [headFile])) :
      hasHead shared.disk repo.cacheDir = true ∨ call.repo = repo := by
    by_cases inside : call.repo.cacheDir <+: repo.cacheDir ++ [headFile]
    · exact Or.inr (same knownCall inside)
    · left
      rwa [hasHead_iff, Tree.Exists, ← writes.outside _ inside]
  rw [hasHead_iff] at head
  cases taken with
  | made call disk created =>
      rcases (Tree.exists_createDirAll created _).mp head with onTheWay | before
      · exact absurd onTheWay (notOnTheWay known (List.prefix_refl _))
      · exact Or.inl (hasHead_iff.mpr before)
  | partlyMade call done disk created =>
      rcases (Tree.exists_createDirAll created _).mp head with onTheWay | before
      · exact absurd onTheWay (notOnTheWay known (List.take_prefix _ _))
      · exact Or.inl (hasHead_iff.mpr before)
  | cloneWrites call read left way =>
      left
      rw [hasHead_iff]
      exact exists_of_replace left (pushSuffix_ne_nil _ _) (stagingOutside known)
        (notAbove known (by decide)) head
  | install call read disk filled renamed =>
      simp only [Tree.Exists, Tree.get?_rename renamed, if_neg (stagingOutside known)] at head
      split at head
      · rename_i inside
        exact Or.inr (Or.inl ⟨call, read, rfl, rfl, same known inside⟩)
      · exact Or.inl (hasHead_iff.mpr head)
  | fetchWrites call read disk writes =>
      rcases written known writes head with before | own
      · exact Or.inl before
      · exact Or.inr (Or.inr ⟨call, rfl, own⟩)
  | wantWrites call disk writes =>
      rcases written known writes head with before | own
      · exact Or.inl before
      · exact Or.inr (Or.inr ⟨call, rfl, own⟩)
  | pruneWrites call disk writes =>
      rcases written known writes head with before | own
      · exact Or.inl before
      · exact Or.inr (Or.inr ⟨call, rfl, own⟩)
  | clear name dir failure =>
      rcases known with ⟨other, allowedOther, _, rfl⟩
      left
      rw [hasHead_iff]
      exact exists_of_discard (pushSuffix_ne_nil _ _) (trashOutside allowedOther)
        (notAbove allowedOther (by decide)) head
  | vacate name dir disk renamed =>
      rcases known with ⟨other, allowedOther, _, rfl⟩
      simp only [Tree.Exists, Tree.get?_rename renamed, if_neg (trashOutside allowedOther)] at head
      split at head
      · exact absurd rfl head
      · exact Or.inl (hasHead_iff.mpr head)
  | sweep dir failure =>
      rcases known with ⟨other, allowedOther, rfl⟩
      left
      rw [hasHead_iff]
      exact exists_of_discard (pushSuffix_ne_nil _ _) (trashOutside allowedOther)
        (notAbove allowedOther (by decide)) head
  | _ => exact Or.inl (hasHead_iff.mpr head)

/-- Requests and evictions leave the LFS store alone. -/
theorem get?_store (taken : Act fetchTtl allowed task shared stage effect shared' stage')
    (resolved : ∀ repo, allowed repo → resolve repo.name upstreamBase root = .ok repo)
    (known : stage.Within allowed) (rest : Path) :
    shared'.disk.get? (root ++ lfsObjectsDir :: rest) =
      shared.disk.get? (root ++ lfsObjectsDir :: rest) := by
  have mirror {other : RepoRef} (allowedOther : allowed other) :
      BesideStore root other.cacheDir := by
    have beside := besideStore (resolved other allowedOther) []
    rwa [List.append_nil] at beside
  have staging {other : RepoRef} (allowedOther : allowed other) :
      BesideStore root (stagingDir other.cacheDir) :=
    besideStore_reserved (resolved other allowedOther) (Or.inl rfl)
  have trash {other : RepoRef} (allowedOther : allowed other) :
      BesideStore root (trashDir other.cacheDir) :=
    besideStore_reserved (resolved other allowedOther) (Or.inr rfl)
  have notOnTheWay {other : RepoRef} (allowedOther : allowed other) {path : Path}
      (way : path <+: other.cacheDir.dropLast) : ¬root ++ lfsObjectsDir :: rest <+: path :=
    fun above => (mirror allowedOther).not_store_above
      ((above.trans way).trans (List.dropLast_prefix _))
  cases taken with
  | made call disk created =>
      rw [Tree.get?_createDirAll created, if_neg (notOnTheWay known (List.prefix_refl _))]
  | partlyMade call done disk created =>
      rw [Tree.get?_createDirAll created, if_neg (notOnTheWay known (List.take_prefix _ _))]
  | cloneWrites call read left way =>
      exact Tree.get?_replace_of_apart (pushSuffix_ne_nil _ _) (staging known).not_above_store
        (staging known).not_store_above
  | install call read disk filled renamed =>
      rw [Tree.get?_rename renamed, if_neg (mirror known).not_above_store,
        if_neg (staging known).not_above_store]
  | fetchWrites call read disk writes => exact writes.outside _ (mirror known).not_above_store
  | wantWrites call disk writes => exact writes.outside _ (mirror known).not_above_store
  | pruneWrites call disk writes => exact writes.outside _ (mirror known).not_above_store
  | clear name dir failure =>
      rcases known with ⟨other, allowedOther, _, rfl⟩
      exact get?_discard_of_apart failure (pushSuffix_ne_nil _ _)
        (trash allowedOther).not_above_store (trash allowedOther).not_store_above
  | vacate name dir disk renamed =>
      rcases known with ⟨other, allowedOther, _, rfl⟩
      rw [Tree.get?_rename renamed, if_neg (trash allowedOther).not_above_store,
        if_neg (mirror allowedOther).not_above_store]
  | sweep dir failure =>
      rcases known with ⟨other, allowedOther, rfl⟩
      exact get?_discard_of_apart failure (pushSuffix_ne_nil _ _)
        (trash allowedOther).not_above_store (trash allowedOther).not_store_above
  | _ => rfl

/-- A task that starts to work with a mirror has seen its `HEAD`, or has put it there. -/
theorem works (taken : Act fetchTtl allowed task shared stage effect shared' stage')
    (isWorking : stage'.works = some repo) :
    stage.works = some repo ∨ hasHead shared'.disk repo.cacheDir = true := by
  cases taken with
  | present ticket head =>
      cases isWorking
      exact Or.inr head
  | install call read disk filled renamed =>
      cases isWorking
      right
      rw [hasHead_iff] at filled
      rw [hasHead_iff, Tree.Exists, Tree.get?_rename renamed, if_pos (List.prefix_append _ _),
        List.drop_left]
      exact filled
  | decide ticket =>
      left
      simp only [Shared.decide] at isWorking
      split at isWorking
      · exact isWorking
      · exact isWorking
  | notify call wants =>
      left
      cases wants with
      | true => exact isWorking
      | false => exact isWorking
  | absent ticket noHead => cases isWorking
  | _ => first | exact Or.inl isWorking | cases isWorking

theorem relies (taken : Act fetchTtl allowed task shared stage effect shared' stage')
    (isRelied : stage'.relies = some repo) :
    stage.relies = some repo ∨ hasHead shared'.disk repo.cacheDir = true := by
  rcases Stage.serves_or_works isRelied with serves | isWorking
  · left
    cases taken with
    | succeed call outcome => exact isRelied
    | decide ticket =>
        simp only [Shared.decide] at serves
        split at serves
        · cases serves
        · cases serves
    | notify call wants => cases wants <;> cases serves
    | _ => cases serves
  · rcases taken.works isWorking with before | head
    · exact Or.inl (Stage.relies_of_works before)
    · exact Or.inr head

theorem of_vacated {name : Text} {dir : Path}
    (taken : Act fetchTtl allowed task shared stage effect shared' stage')
    (vacates : effect = .vacated name dir) :
    stage = .vacating name dir ∧ stage' = .vacated name dir := by
  cases taken with
  | vacate victim place disk renamed =>
      cases vacates
      exact ⟨rfl, rfl⟩
  | clear victim place failure =>
      split at vacates
      · cases vacates
      · cases vacates
  | sweep place failure =>
      split at vacates
      · cases vacates
      · cases vacates
  | _ => cases vacates

theorem into_vacated {name : Text} {dir : Path}
    (taken : Act fetchTtl allowed task shared stage effect shared' stage')
    (vacates : stage' = .vacated name dir) :
    effect = .vacated name dir ∧ shared'.index = shared.index := by
  cases taken with
  | vacate victim place disk renamed =>
      cases vacates
      exact ⟨rfl, rfl⟩
  | decide ticket =>
      simp only [Shared.decide] at vacates
      split at vacates
      · cases vacates
      · cases vacates
  | notify call wants => cases wants <;> cases vacates
  | _ => cases vacates

/-- An eviction goes on until its mirror is gone, unless the file system fails. -/
theorem evictee {name : Text}
    (taken : Act fetchTtl allowed task shared stage effect shared' stage')
    (resolved : ∀ repo, allowed repo → resolve repo.name upstreamBase root = .ok repo)
    (known : stage.Within allowed) (isEvictee : stage.evictee = some name)
    (noFault : effect ≠ .fault) :
    stage'.evictee = some name ∨
      ∃ repo, allowed repo ∧ repo.name = name ∧ hasHead shared'.disk repo.cacheDir = false := by
  cases taken with
  | evictLock victim dir free => exact Or.inl isEvictee
  | evictAbsent victim dir noHead =>
      cases isEvictee
      rcases known with ⟨repo, allowedRepo, isName, rfl⟩
      exact Or.inr ⟨repo, allowedRepo, isName, noHead⟩
  | evictPresent victim dir head => exact Or.inl isEvictee
  | clear victim dir failure => exact Or.inl isEvictee
  | vacate victim dir disk renamed =>
      cases isEvictee
      rcases known with ⟨repo, allowedRepo, isName, rfl⟩
      have outside : ¬trashDir repo.cacheDir <+: repo.cacheDir ++ [headFile] :=
        not_trash_above_head (resolved repo allowedRepo) (resolved repo allowedRepo)
      refine Or.inr ⟨repo, allowedRepo, isName, ?_⟩
      rw [Bool.eq_false_iff, ne_eq, hasHead_iff, Tree.Exists, Tree.get?_rename renamed,
        if_neg outside, if_pos (List.prefix_append _ _)]
      simp
  | notVacated victim dir => exact absurd rfl noFault
  | _ => cases isEvictee

end Act

variable [DecidableEq Task]

/-- The shared state and where every task is. -/
structure State (Task : Type u) where
  shared : Shared Task
  tasks : Task → Stage

/-- One action of one task, or time passing. -/
inductive Step (fetchTtl : ℕ) (allowed : RepoRef → Prop) (state : State Task) :
    State Task → Prop where
  | act (task : Task) (effect : Effect) (shared : Shared Task) (stage : Stage)
      (taken : Act fetchTtl allowed task state.shared (state.tasks task) effect shared stage) :
      Step fetchTtl allowed state ⟨shared, Function.update state.tasks task stage⟩
  | tick (clock : ℕ) (later : state.shared.clock ≤ clock) :
      Step fetchTtl allowed state { state with shared.clock := clock }

/-- A server starts: nobody holds a lock, nothing has been pulled, and the mirrors on disk
are those of an earlier run. -/
structure Starts (allowed : RepoRef → Prop) (state : State Task) : Prop where
  unowned : ∀ name, state.shared.owner name = none
  unstamped : ∀ name, state.shared.last name = none
  unpulled : ∀ name, state.shared.pulled name = none
  idle : ∀ task, state.tasks task = .idle
  content : ∀ repo, allowed repo →
    hasHead state.shared.disk repo.cacheDir = (state.shared.content repo.name).isSome

/-- The owners of the locks stay those that hold them. -/
theorem Act.consistent {fetchTtl : ℕ} {allowed : RepoRef → Prop} {task : Task}
    {shared shared' : Shared Task} {stage' : Stage} {effect : Effect} {tasks : Task → Stage}
    (taken : Act fetchTtl allowed task shared (tasks task) effect shared' stage')
    (locks : LockTable.Consistent Stage.held shared.owner tasks) :
    LockTable.Consistent Stage.held shared'.owner (Function.update tasks task stage') := by
  generalize at_ : tasks task = stage at taken
  have holds : (tasks task).held = stage.held := congrArg Stage.held at_
  cases taken with
  | lock repo wantFetch free => exact locks.acquire free holds rfl
  | evictLock name dir free => exact locks.acquire free holds rfl
  | succeed call outcome => exact locks.release holds rfl
  | fail call error => exact locks.release holds rfl
  | evictAbsent name dir noHead => exact locks.release holds rfl
  | notVacated name dir => exact locks.release holds rfl
  | unlock name dir => exact locks.release holds rfl
  | decide ticket => exact locks.frame (by rw [holds, held_decide]; rfl)
  | notify call wants =>
      cases wants with
      | true => exact locks.frame holds.symm
      | false => exact locks.frame holds.symm
  | _ => exact locks.frame holds.symm

end GitCacheProxy.Git
