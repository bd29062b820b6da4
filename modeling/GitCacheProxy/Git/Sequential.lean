import Mathlib.Logic.Relation
import GitCacheProxy.Git.Freshness
import GitCacheProxy.Git.Retry

/-!
# Calls that nobody interrupts

`ensure_fresh` and `evict` are modeled twice: as functions on the cache, and as the actions of tasks
that take turns.  The two agree.  A call that runs from its start to its end, with nobody else
taking a step, changes the cache and returns as the function does, so that what holds in every run
of the machine holds of the functions as well.

The child of `git` is a part of the surroundings in one model and takes steps of its own in the
other.  All that the machine asks of it is that a mirror keeps its `HEAD`, and that a finished
clone has one (`LeavesHeads`).
-/

namespace GitCacheProxy.Git

open Repo FileTree TransitionSystem Relation

universe u

variable {Task : Type u}

/-- What a call sees of the things that are shared. -/
def Shared.cache (shared : Shared Task) : GitCache where
  disk := shared.disk
  last := shared.last
  index := some shared.index

/-- One action of a task that runs by itself, or time passing. -/
inductive Alone (fetchTtl : ℕ) (allowed : RepoRef → Prop) (task : Task) :
    Shared Task × Stage → Shared Task × Stage → Prop where
  | act {shared shared' : Shared Task} {stage stage' : Stage} {effect : Effect}
      (taken : Act fetchTtl allowed task shared stage effect shared' stage') :
      Alone fetchTtl allowed task (shared, stage) (shared', stage')
  | wait {shared : Shared Task} (stage : Stage) (clock : ℕ) (later : shared.clock ≤ clock) :
      Alone fetchTtl allowed task (shared, stage) ({ shared with clock := clock }, stage)

/-- A task that runs by itself gets to a stage and leaves the cache as `after`. -/
structure Gets (fetchTtl : ℕ) (allowed : RepoRef → Prop) (task : Task) (shared : Shared Task)
    (stage : Stage) (shared' : Shared Task) (stage' : Stage) (after : GitCache) : Prop where
  ran : ReflTransGen (Alone fetchTtl allowed task) (shared, stage) (shared', stage')
  cache : shared'.cache = after
  owner : shared'.owner = shared.owner
  clock : shared'.clock = shared.clock

variable {fetchTtl : ℕ} {allowed : RepoRef → Prop} {task : Task}
  {shared shared' shared'' : Shared Task} {stage stage' stage'' : Stage} {effect : Effect}
  {cache cache' : GitCache} {repo : RepoRef} {env : Surroundings} {call : Call}

namespace Gets

theorem trans (first : Gets fetchTtl allowed task shared stage shared' stage' cache)
    (second : Gets fetchTtl allowed task shared' stage' shared'' stage'' cache') :
    Gets fetchTtl allowed task shared stage shared'' stage'' cache' where
  ran := first.ran.trans second.ran
  cache := second.cache
  owner := second.owner.trans first.owner
  clock := second.clock.trans first.clock

theorem one (taken : Act fetchTtl allowed task shared stage effect shared' stage')
    (sameOwner : shared'.owner = shared.owner) :
    Gets fetchTtl allowed task shared stage shared' stage' shared'.cache :=
  ⟨.single (.act taken), rfl, sameOwner, taken.clock⟩

end Gets

/-! ## The parts of a call -/

/-- `mark_changed` -/
theorem gets_marked (call : Call) (wants : Bool) :
    ∃ shared', Gets fetchTtl allowed task shared (.changed call wants) shared'
      (if wants then .pruning call else .stamping call)
      (shared.cache.markChanged call.repo.name) := by
  have marked : Act fetchTtl allowed task shared (.changed call wants) .quiet _ _ :=
    .mark call wants
  exact ⟨_, (Gets.one marked rfl).trans (Gets.one (.notify call wants) rfl)⟩

section Mirrors

variable (notNested : ∀ first second, allowed first → allowed second →
  first.cacheDir <+: second.cacheDir → first = second)
include notNested

/-- Git may do to a mirror what leaves its `HEAD`. -/
theorem gitWrites_graft {disk left : Disk} (known : allowed repo) (notRoot : repo.cacheDir ≠ [])
    (head : hasHead disk repo.cacheDir = true) (filled : left.Exists [headFile]) :
    GitWrites allowed repo.cacheDir disk (disk.graft repo.cacheDir left) ∧
      hasHead (disk.graft repo.cacheDir left) repo.cacheDir = true := by
  have isDir : disk.get? repo.cacheDir = some .dir := Tree.get?_of_child (Act.hasHead_iff.mp head)
  have outside (path : Path) (notInside : ¬repo.cacheDir <+: path) :
      (disk.graft repo.cacheDir left).get? path = disk.get? path := by
    rw [Tree.get?_graft notRoot, if_neg notInside]
    split
    · rename_i above
      rcases above with ⟨rest, whole⟩
      have deeper : rest ≠ [] := by
        rintro rfl
        exact notInside (by rw [← whole, List.append_nil])
      rw [Tree.get?_of_below deeper]
      rw [whole, Tree.Exists, isDir]
      simp
    · rfl
  have present : hasHead (disk.graft repo.cacheDir left) repo.cacheDir = true := by
    rw [Act.hasHead_iff, Tree.Exists, Tree.get?_graft notRoot, if_pos (List.prefix_append _ _),
      List.drop_left]
    exact filled
  refine ⟨⟨outside, ?_⟩, present⟩
  intro other allowedOther headOther
  by_cases inside : repo.cacheDir <+: other.cacheDir ++ [headFile]
  · rw [← Act.eq_of_inside notNested known allowedOther inside]
    exact present
  · rw [Act.hasHead_iff, Tree.Exists, outside _ inside]
    exact Act.hasHead_iff.mp headOther

/-- `ensure_wanted_oids`, to the end of the call -/
theorem gets_wanted (known : allowed call.repo) (notRoot : call.repo.cacheDir ≠ [])
    (head : hasHead shared.disk call.repo.cacheDir = true)
    (filled : ∀ left, env.wants = some left → left.Exists [headFile]) :
    ∃ shared', Gets fetchTtl allowed task shared (.wanting call) shared'
      (.leaving call (.ok call.outcome)) (shared.cache.ensureWantedOids env call.repo) := by
  cases wanted : env.wants with
  | none =>
      refine ⟨shared, ?_⟩
      rw [GitCache.ensureWantedOids, wanted]
      exact Gets.one (.wantsOver call) rfl
  | some mirror =>
      have writes := (gitWrites_graft notNested known notRoot head (filled mirror wanted)).1
      have wrote : Gets fetchTtl allowed task shared (.wanting call) _ _ _ :=
        .one (.wantWrites call _ writes) rfl
      have fetched := wrote.trans (Gets.one (.wantsFetched call) rfl)
      rcases gets_marked call true with ⟨shared', marked⟩
      refine ⟨shared', ?_⟩
      rw [GitCache.ensureWantedOids, wanted]
      have pruned := (fetched.trans marked).trans (Gets.one (.pruned call) rfl)
      exact ⟨pruned.ran, marked.cache, pruned.owner, pruned.clock⟩

end Mirrors

/-! ## The pulls -/

section Clones

/-- A clone gets from one disk to the other, if its directory can be made. -/
def Clones (fetchTtl : ℕ) (allowed : RepoRef → Prop) (task : Task) (shared : Shared Task)
    (call : Call) (read : Option ℕ) (disk after : Disk) : Prop :=
  disk.createDirAll call.repo.cacheDir.dropLast ≠ none →
    after.createDirAll call.repo.cacheDir.dropLast ≠ none ∧
      ReflTransGen (Alone fetchTtl allowed task) ({ shared with disk := disk }, .cloning call read)
        ({ shared with disk := after }, .cloning call read)

variable {read : Option ℕ} {disk : Disk}

theorem createDirAll_replace_staging {dir : Path} (way : disk.createDirAll dir.dropLast ≠ none)
    (left : Option Disk) :
    (disk.replace (stagingDir dir) left).createDirAll dir.dropLast ≠ none := by
  have noFile := Tree.createDirAll_eq_some_iff.mp (Option.ne_none_iff_exists'.mp way)
  apply Option.ne_none_iff_exists'.mpr
  apply Tree.createDirAll_eq_some_iff.mpr
  intro ancestor above
  rw [stagingDir, pushSuffix, Tree.isFile_replace_above above]
  split
  · rfl
  · exact noFile ancestor above

theorem clones_replace (disk : Disk) (left : Option Disk) :
    Clones fetchTtl allowed task shared call read disk
      (disk.replace (stagingDir call.repo.cacheDir) left) := by
  intro way
  have writes : Act fetchTtl allowed task { shared with disk := disk } (.cloning call read) .quiet
      _ _ := .cloneWrites call read left way
  exact ⟨createDirAll_replace_staging way left, .single (.act writes)⟩

theorem clones_trans {first second third : Disk}
    (clones : Clones fetchTtl allowed task shared call read first second)
    (clones' : Clones fetchTtl allowed task shared call read second third) :
    Clones fetchTtl allowed task shared call read first third := by
  intro way
  rcases clones way with ⟨stillWay, ran⟩
  rcases clones' stillWay with ⟨lastWay, ran'⟩
  exact ⟨lastWay, ran.trans ran'⟩

/-- The attempts of a clone. -/
theorem clones_runUpstream (operation name : Text) (git : ℕ → Attempt) (disk : Disk) :
    Clones fetchTtl allowed task shared call read disk
      (runUpstream operation name (stagingDir call.repo.cacheDir) true git disk).1 :=
  runRounds_preserves (R := Clones fetchTtl allowed task shared call read) operation name true
    (fun _ way => ⟨way, .refl⟩) (fun _ _ _ => clones_trans) clones_replace git _ _

end Clones

/-- A child that succeeds has made its directory. -/
theorem written_of_runChild {operation name : Text} {path : Path} {staging : Bool} {round : Attempt}
    {attempt : ℕ} {disk after : Disk}
    (succeeded : runChild operation name path staging round attempt disk = (after, some (.ok ()))) :
    ∃ left, round.status.success = true ∧ round.written = some left ∧
      after = disk.graft path left := by
  unfold runChild at succeeded
  split at succeeded
  · cases succeeded
  split at succeeded
  · cases succeeded
  split at succeeded
  · cases succeeded
  split at succeeded
  · rename_i success
    rcases Option.isSome_iff_exists.mp (round.complete success) with ⟨left, written⟩
    cases succeeded
    exact ⟨left, success, written, by rw [Attempt.leaves, written]⟩
  split at succeeded
  · cases succeeded
  · simp only at succeeded
    split at succeeded
    · cases succeeded
    · cases succeeded

/-- What a loop that succeeds leaves in its directory is what one of its children left there. -/
theorem written_of_runRounds {operation name : Text} {path : Path} {staging : Bool}
    {git : ℕ → Attempt} {rounds attempt : ℕ} {disk after : Disk}
    (succeeded : runRounds operation name path staging git rounds attempt disk = (after, .ok ())) :
    ∃ n left before, (git n).status.success = true ∧ (git n).written = some left ∧
      after = Tree.graft before path left := by
  induction rounds generalizing disk attempt with
  | zero => cases succeeded
  | succ rounds ih =>
      rw [runRounds, runRound] at succeeded
      generalize cleanIf staging disk path (git attempt).clearing = cleared at succeeded
      rcases cleared with ⟨bare, _ | _⟩
      · cases succeeded
      · simp only at succeeded
        rcases ran : runChild operation name path staging (git attempt) attempt bare with
          ⟨after', _ | result⟩
        · rw [ran] at succeeded
          exact ih succeeded
        · rw [ran] at succeeded
          cases succeeded
          rcases written_of_runChild ran with ⟨left, success, written, grafted⟩
          exact ⟨attempt, left, bare, success, written, grafted⟩

/-- What the children of `git` leave of a mirror, and the finished clone, has a `HEAD`. -/
structure Surroundings.LeavesHeads (env : Surroundings) (found : Bool) : Prop where
  git : ∀ n left, (env.git n).written = some left →
    found = true ∨ (env.git n).status.success = true → left.Exists [headFile]
  wants : ∀ left, env.wants = some left → left.Exists [headFile]

theorem createDirAll_createDirAll {disk made : Disk} {path : Path}
    (created : disk.createDirAll path = some made) : made.createDirAll path ≠ none := by
  have noFile := Tree.createDirAll_eq_some_iff.mp ⟨made, created⟩
  apply Option.ne_none_iff_exists'.mpr
  apply Tree.createDirAll_eq_some_iff.mpr
  intro ancestor above
  rw [Tree.isFile_createDirAll created]
  exact noFile ancestor above

/-- The children of a clone, from the creation of the parent on. -/
theorem gets_cloned {made after : Disk} {result : Except UpstreamError Unit} (call : Call)
    (created : shared.disk.createDirAll call.repo.cacheDir.dropLast = some made)
    (ran : runUpstream "clone".toList call.repo.name (stagingDir call.repo.cacheDir) true env.git
      made = (after, result)) :
    Gets fetchTtl allowed task shared (.making call) { shared with disk := after }
      (.cloning call (some shared.clock)) { shared.cache with disk := after } := by
  have makes : Gets fetchTtl allowed task shared (.making call) { shared with disk := made }
      (.cloning call none) _ := .one (.made call made created) rfl
  have reads : Gets fetchTtl allowed task { shared with disk := made } (.cloning call none)
      { shared with disk := made } (.cloning call (some shared.clock)) _ :=
    .one (.cloneReads call none) rfl
  have clones : Clones fetchTtl allowed task shared call (some shared.clock) made _ :=
    clones_runUpstream "clone".toList call.repo.name env.git made
  rw [ran] at clones
  have writes : Gets fetchTtl allowed task { shared with disk := made }
      (.cloning call (some shared.clock)) { shared with disk := after }
      (.cloning call (some shared.clock)) { shared.cache with disk := after } :=
    ⟨(clones (createDirAll_createDirAll created)).2, rfl, rfl, rfl⟩
  exact (makes.trans reads).trans writes

/-- Where a pull gets to. -/
def Call.after (call : Call) : Except FreshError Unit → Stage
  | .ok _ => .stamping call
  | .error error => .leaving call (.error error)

/-- `clone_mirror` -/
theorem gets_cloneMirror {result : Except FreshError Unit} (leaves : env.LeavesHeads false)
    (call : Call) (cloned : GitCache.cloneMirror env call.repo shared.cache = (cache, result)) :
    (∃ shared', Gets fetchTtl allowed task shared (.making call) shared' (call.after result)
      cache) ∧ (result = .ok () → hasHead cache.disk call.repo.cacheDir = true) := by
  cases created : shared.disk.createDirAll call.repo.cacheDir.dropLast with
  | none =>
      simp only [GitCache.cloneMirror, Shared.cache, created] at cloned
      cases cloned
      exact ⟨⟨shared, .one (.blocked call created) rfl⟩, fun impossible => by cases impossible⟩
  | some made =>
  cases failure : env.mkdirFailure with
  | some done =>
      have partly : ∃ disk, shared.disk.createDirAll (call.repo.cacheDir.dropLast.take done) =
          some disk := by
        apply Tree.createDirAll_eq_some_iff.mpr
        intro ancestor above
        exact Tree.createDirAll_eq_some_iff.mp ⟨made, created⟩ ancestor
          (above.trans (List.take_prefix _ _))
      rcases partly with ⟨disk, partlyCreated⟩
      simp only [GitCache.cloneMirror, Shared.cache, created, failure, partlyCreated] at cloned
      cases cloned
      exact ⟨⟨_, .one (.partlyMade call done disk partlyCreated) rfl⟩,
        fun impossible => by cases impossible⟩
  | none =>
  rcases ran : runUpstream "clone".toList call.repo.name (stagingDir call.repo.cacheDir) true
    env.git made with ⟨after, result⟩
  have worked : Gets fetchTtl allowed task shared _ _ _ _ := gets_cloned call created ran
  simp only [GitCache.cloneMirror, Shared.cache, created, failure, ran] at cloned
  cases result with
  | error error =>
      cases cloned
      exact ⟨⟨_, worked.trans (.one (.cloneFails call _ error) rfl)⟩,
        fun impossible => by cases impossible⟩
  | ok _ =>
  have finished := worked.trans (Gets.one (.cloneDone call shared.clock) rfl)
  cases renamed : if env.renameFails then none else
      after.rename (stagingDir call.repo.cacheDir) call.repo.cacheDir with
  | none =>
      simp only [renamed] at cloned
      cases cloned
      exact ⟨⟨_, finished.trans (.one (.notInstalled call _) rfl)⟩,
        fun impossible => by cases impossible⟩
  | some disk =>
      simp only [renamed] at cloned
      cases cloned
      rw [Option.ite_none_left_eq_some] at renamed
      rcases written_of_runRounds ran with ⟨n, left, before, success, written, grafted⟩
      have notRoot : stagingDir call.repo.cacheDir ≠ [] := Act.pushSuffix_ne_nil _ _
      have filled : hasHead after (stagingDir call.repo.cacheDir) = true := by
        rw [Act.hasHead_iff, grafted, Tree.Exists, Tree.get?_graft notRoot,
          if_pos (List.prefix_append _ _), List.drop_left]
        exact leaves.git n left written (Or.inr success)
      have installs := finished.trans
        (Gets.one (.install call shared.clock disk filled renamed.2) rfl)
      rcases gets_marked call false with ⟨shared', marked⟩
      refine ⟨⟨shared', installs.trans marked⟩, ?_⟩
      intro _
      have installed : disk.get? (call.repo.cacheDir ++ [headFile]) =
          after.get? (stagingDir call.repo.cacheDir ++ [headFile]) := by
        rw [Tree.get?_rename renamed.2, if_pos (List.prefix_append _ _), List.drop_left]
      rw [Act.hasHead_iff, Tree.Exists, ← installed] at filled
      exact Act.hasHead_iff.mpr filled

section Fetches

variable (notNested : ∀ first second, allowed first → allowed second →
  first.cacheDir <+: second.cacheDir → first = second)

/-- Outside of a staging directory nothing is cleared away. -/
theorem disk_of_runChild (operation name : Text) (path : Path) (round : Attempt) (attempt : ℕ)
    (disk : Disk) :
    (runChild operation name path false round attempt disk).1 = disk ∨
      (runChild operation name path false round attempt disk).1 = round.leaves path disk := by
  simp only [runChild, cleanIf, Bool.false_eq_true, if_false]
  split
  · exact Or.inl rfl
  split
  · exact Or.inr rfl
  split
  · exact Or.inr rfl
  split
  · exact Or.inr rfl
  split
  · exact Or.inr rfl
  · exact Or.inr rfl

/-- A fetch gets from one disk to the other, and the mirror stays. -/
def Fetches (fetchTtl : ℕ) (allowed : RepoRef → Prop) (task : Task) (shared : Shared Task)
    (call : Call) (read : Option ℕ) (disk after : Disk) : Prop :=
  hasHead disk call.repo.cacheDir = true → hasHead after call.repo.cacheDir = true ∧
    ReflTransGen (Alone fetchTtl allowed task) ({ shared with disk := disk }, .fetching call read)
      ({ shared with disk := after }, .fetching call read)

variable {read : Option ℕ}

include notNested in
theorem fetches_leaves {round : Attempt} (known : allowed call.repo)
    (notRoot : call.repo.cacheDir ≠ [])
    (filled : ∀ left, round.written = some left → left.Exists [headFile]) (disk : Disk) :
    Fetches fetchTtl allowed task shared call read disk
      (round.leaves call.repo.cacheDir disk) := by
  intro head
  unfold Attempt.leaves
  split
  · exact ⟨head, .refl⟩
  · rename_i left written
    rcases gitWrites_graft notNested known notRoot head (filled left written) with ⟨writes, still⟩
    exact ⟨still, .single (.act (.fetchWrites call read _ writes))⟩

include notNested in
/-- The attempts of a fetch. -/
theorem fetches_runRounds {git : ℕ → Attempt} (known : allowed call.repo)
    (notRoot : call.repo.cacheDir ≠ [])
    (filled : ∀ n left, (git n).written = some left → left.Exists [headFile])
    (operation name : Text) (rounds attempt : ℕ) (disk : Disk) :
    Fetches fetchTtl allowed task shared call read disk
      (runRounds operation name call.repo.cacheDir false git rounds attempt disk).1 := by
  induction rounds generalizing disk attempt with
  | zero => exact fun head => ⟨head, .refl⟩
  | succ rounds ih =>
      have child : Fetches fetchTtl allowed task shared call read disk
          (runChild operation name call.repo.cacheDir false (git attempt) attempt disk).1 := by
        rcases disk_of_runChild operation name call.repo.cacheDir (git attempt) attempt disk with
          same | left
        · rw [same]
          exact fun head => ⟨head, .refl⟩
        · rw [left]
          exact fetches_leaves notNested known notRoot (filled attempt) disk
      simp only [runRounds, runRound, cleanIf, Bool.false_eq_true, if_false]
      generalize runChild operation name call.repo.cacheDir false (git attempt) attempt disk = ran
        at child
      rcases ran with ⟨after, _ | result⟩
      · intro head
        rcases child head with ⟨still, worked⟩
        rcases ih (attempt + 1) after still with ⟨last, rest⟩
        exact ⟨last, worked.trans rest⟩
      · exact child

include notNested in
/-- `fetch` -/
theorem gets_fetch {result : Except FreshError Unit} (leaves : env.LeavesHeads true)
    (known : allowed call.repo) (notRoot : call.repo.cacheDir ≠ [])
    (head : hasHead shared.disk call.repo.cacheDir = true)
    (fetched : GitCache.fetch env call.repo shared.cache = (cache, result)) :
    (∃ shared', Gets fetchTtl allowed task shared (.fetching call none) shared'
      (call.after result) cache) ∧ hasHead cache.disk call.repo.cacheDir = true := by
  have reads : Gets fetchTtl allowed task shared (.fetching call none) shared
      (.fetching call (some shared.clock)) shared.cache := .one (.fetchReads call none) rfl
  rcases ran : runUpstream "fetch".toList call.repo.name call.repo.cacheDir false env.git
    shared.disk with ⟨after, result⟩
  have fetches : Fetches fetchTtl allowed task shared call (some shared.clock) shared.disk _ :=
    fetches_runRounds notNested known notRoot
      (fun n left written => leaves.git n left written (Or.inl rfl)) "fetch".toList call.repo.name
      (maxUpstreamRetries + 1) 0 shared.disk
  rw [← runUpstream, ran] at fetches
  rcases fetches head with ⟨still, wrote⟩
  have writes : Gets fetchTtl allowed task shared (.fetching call (some shared.clock))
      { shared with disk := after } (.fetching call (some shared.clock))
      { shared.cache with disk := after } := ⟨wrote, rfl, rfl, rfl⟩
  have worked := reads.trans writes
  simp only [GitCache.fetch, Shared.cache, ran] at fetched
  cases result with
  | error error =>
      cases fetched
      exact ⟨⟨_, worked.trans (.one (.fetchFails call _ error) rfl)⟩, still⟩
  | ok _ =>
      cases fetched
      have finished := worked.trans (Gets.one (.fetchDone call shared.clock) rfl)
      rcases gets_marked call false with ⟨shared', marked⟩
      exact ⟨⟨shared', finished.trans marked⟩, still⟩

end Fetches

/-! ## Whole calls -/

section Calls

variable (notNested : ∀ first second, allowed first → allowed second →
  first.cacheDir <+: second.cacheDir → first = second)

include notNested in
/-- The end of a call whose pull has succeeded. -/
theorem gets_stamped (known : allowed call.repo) (notRoot : call.repo.cacheDir ≠ [])
    (head : hasHead shared.disk call.repo.cacheDir = true)
    (filled : ∀ left, env.wants = some left → left.Exists [headFile]) :
    ∃ shared', Gets fetchTtl allowed task shared (.stamping call) shared'
      (.leaving call (.ok call.outcome))
      (GitCache.ensureWantedOids env call.repo { shared.cache with
        last := Function.update shared.last call.repo.name (some call.started) }) := by
  have stamps : Gets fetchTtl allowed task shared (.stamping call)
      { shared with last := Function.update shared.last call.repo.name (some call.started) }
      (.wanting call) _ := .one (.stamp call) rfl
  have rest : ∃ shared', Gets fetchTtl allowed task
      { shared with last := Function.update shared.last call.repo.name (some call.started) }
      (.wanting call) shared' _ _ := gets_wanted notNested known notRoot head filled
  rcases rest with ⟨shared', wanted⟩
  exact ⟨shared', stamps.trans wanted⟩

/-- The shared state of a call that has the lock, when it looks for its mirror. -/
def Shared.entered (shared : Shared Task) (task : Task) (name : Text) (clock : ℕ) : Shared Task :=
  { shared with
    index := shared.index.touch name
    owner := Function.update shared.owner name (some task)
    clock := clock }

theorem enters (wantFetch : Bool) (known : allowed repo) (free : shared.owner repo.name = none)
    (started : shared.clock ≤ env.started) (decided : env.started ≤ env.decided) :
    ReflTransGen (Alone fetchTtl allowed task) (shared, .idle)
      (shared.entered task repo.name env.decided,
        .started ⟨repo, wantFetch, shared.clock, env.started⟩) := by
  have run : ReflTransGen (Alone fetchTtl allowed task) (shared, .idle) (shared, .idle) := .refl
  have run := run.tail (.act (.arrive repo wantFetch known))
  have run := run.tail (.act (.lock repo wantFetch free))
  have run := run.tail (.wait _ env.started started)
  have run := run.tail (.act (.start repo wantFetch _))
  exact run.tail (.wait _ env.decided decided)

variable {wantFetch : Bool} {lockedAt : ℕ} {result : Except FreshError CacheOutcome}
  {before : GitCache}

include notNested in
/-- A pull that has succeeded is stamped. -/
theorem gets_pulled (own : call.repo = repo) (known : allowed repo) (notRoot : repo.cacheDir ≠ [])
    (starts : call.started = env.started) (pulled : shared.cache = before)
    (present : hasHead before.disk repo.cacheDir = true)
    (filled : ∀ left, env.wants = some left → left.Exists [headFile]) :
    ∃ shared', Gets fetchTtl allowed task shared (.stamping call) shared'
      (.leaving call (.ok call.outcome)) (GitCache.ensureWantedOids env repo
        { before with last := Function.update before.last repo.name (some env.started) }) := by
  subst own pulled
  rw [← starts]
  exact gets_stamped notNested known notRoot present filled

include notNested in
/-- `ensure_fresh` under the lock, without a mirror -/
theorem gets_of_missing (known : allowed repo) (notRoot : repo.cacheDir ≠ [])
    (head : hasHead shared.disk repo.cacheDir = false) (leaves : env.LeavesHeads false)
    (touched : before.touch repo.name = shared.cache)
    (returned : GitCache.ensureFresh fetchTtl env repo wantFetch before = (cache, result)) :
    ∃ call shared', call.repo = repo ∧ Gets fetchTtl allowed task shared
      (.started ⟨repo, wantFetch, lockedAt, env.started⟩) shared' (.leaving call result) cache := by
  have missing : ¬hasHead shared.cache.disk repo.cacheDir = true := by simp [Shared.cache, head]
  simp only [GitCache.ensureFresh, touched] at returned
  rw [if_pos missing] at returned
  have decides : Gets fetchTtl allowed task shared
      (.started ⟨repo, wantFetch, lockedAt, env.started⟩) shared _ shared.cache :=
    .one (.absent _ head) rfl
  have decision : ∃ call, shared.decideClone ⟨repo, wantFetch, lockedAt, env.started⟩ =
      .making call ∧ call.repo = repo ∧ call.started = env.started ∧ call.outcome = .cloned :=
    ⟨_, rfl, rfl, rfl, rfl⟩
  rcases decision with ⟨call, making, own, starts, outcome⟩
  rw [making] at decides
  rcases cloned : GitCache.cloneMirror env repo shared.cache with ⟨after, pulled⟩
  rw [cloned] at returned
  rw [← own] at cloned
  have clones : (∃ shared', Gets fetchTtl allowed task shared _ shared' _ _) ∧ _ :=
    gets_cloneMirror leaves call cloned
  rcases clones with ⟨⟨shared', pulls⟩, present⟩
  cases pulled with
  | error error =>
      cases returned
      exact ⟨call, shared', own, decides.trans pulls⟩
  | ok _ =>
      rw [own] at present
      have stamps : ∃ shared'', Gets fetchTtl allowed task shared' _ shared'' _ _ :=
        gets_pulled notNested own known notRoot starts pulls.cache (present rfl) leaves.wants
      rcases stamps with ⟨shared'', rest⟩
      rw [outcome] at rest
      cases returned
      exact ⟨call, shared'', own, (decides.trans pulls).trans rest⟩

include notNested in
/-- `ensure_fresh` under the lock, with a mirror -/
theorem gets_of_present (known : allowed repo) (notRoot : repo.cacheDir ≠ [])
    (head : hasHead shared.disk repo.cacheDir = true) (leaves : env.LeavesHeads true)
    (now : shared.clock = env.decided) (touched : before.touch repo.name = shared.cache)
    (returned : GitCache.ensureFresh fetchTtl env repo wantFetch before = (cache, result)) :
    ∃ call shared', call.repo = repo ∧ Gets fetchTtl allowed task shared
      (.started ⟨repo, wantFetch, lockedAt, env.started⟩) shared' (.leaving call result) cache := by
  have there : ¬¬hasHead shared.cache.disk repo.cacheDir = true := by simp [Shared.cache, head]
  simp only [GitCache.ensureFresh, touched] at returned
  rw [if_neg there] at returned
  have sees : Gets fetchTtl allowed task shared
      (.started ⟨repo, wantFetch, lockedAt, env.started⟩) shared _ _ := .one (.present _ head) rfl
  have decides := sees.trans (.one (.decide _) rfl)
  cases stale : wantFetch && GitCache.isStale fetchTtl env.decided (shared.last repo.name) with
  | true =>
      have decision : ∃ call, shared.decide fetchTtl ⟨repo, wantFetch, lockedAt, env.started⟩ =
          .fetching call none ∧ call.repo = repo ∧ call.started = env.started ∧
            call.outcome = .fetched := by
        simp only [Shared.decide, now, stale]
        exact ⟨_, rfl, rfl, rfl, rfl⟩
      rcases decision with ⟨call, fetching, own, starts, outcome⟩
      rw [fetching] at decides
      have sameStale : (wantFetch && GitCache.isStale fetchTtl env.decided
          (shared.cache.last repo.name)) = true := stale
      rw [if_pos sameStale] at returned
      rcases fetched : GitCache.fetch env repo shared.cache with ⟨after, pulled⟩
      rw [fetched] at returned
      rw [← own] at fetched known notRoot head
      have fetches : (∃ shared', Gets fetchTtl allowed task shared _ shared' _ _) ∧ _ :=
        gets_fetch notNested leaves known notRoot head fetched
      rcases fetches with ⟨⟨shared', pulls⟩, present⟩
      rw [own] at known notRoot present
      cases pulled with
      | error error =>
          cases returned
          exact ⟨call, shared', own, decides.trans pulls⟩
      | ok _ =>
          have stamps : ∃ shared'', Gets fetchTtl allowed task shared' _ shared'' _ _ :=
            gets_pulled notNested own known notRoot starts pulls.cache present leaves.wants
          rcases stamps with ⟨shared'', rest⟩
          rw [outcome] at rest
          cases returned
          exact ⟨call, shared'', own, (decides.trans pulls).trans rest⟩
  | false =>
      have decision : ∃ call, shared.decide fetchTtl ⟨repo, wantFetch, lockedAt, env.started⟩ =
          .wanting call ∧ call.repo = repo ∧ call.outcome = .cached := by
        simp only [Shared.decide, now, stale]
        exact ⟨_, rfl, rfl, rfl⟩
      rcases decision with ⟨call, wanting, own, outcome⟩
      rw [wanting] at decides
      rw [if_neg (by simp [Shared.cache, stale])] at returned
      cases returned
      rw [← own] at known notRoot head
      rcases gets_wanted notNested known notRoot head leaves.wants with ⟨shared', rest⟩
      rw [outcome, own] at rest
      exact ⟨call, shared', own, decides.trans rest⟩

/-- `evict` -/
theorem gets_evict (known : allowed repo) (free : shared.owner repo.name = none)
    (first second : Option Disk) (renameFails : Bool) :
    ∃ shared', Gets fetchTtl allowed task shared .idle shared' .idle
      (GitCache.evict first second renameFails repo.cacheDir shared.cache).1 := by
  have freed : Function.update (Function.update shared.owner repo.name (some task)) repo.name none =
      shared.owner := by
    rw [Function.update_idem, Function.update_eq_self_iff, free]
  have run : ReflTransGen (Alone fetchTtl allowed task) (shared, .idle) (shared, .idle) := .refl
  have run := run.tail (.act (.evict repo known))
  have run := run.tail (.act (.evictLock _ _ free))
  cases head : hasHead shared.disk repo.cacheDir with
  | false =>
      have run := run.tail (.act (.evictAbsent _ _ head))
      refine ⟨_, run, ?_, freed, rfl⟩
      simp [GitCache.evict, Shared.cache, head]
  | true =>
  have run := run.tail (.act (.evictPresent _ _ head))
  have run := run.tail (.act (.clear _ _ first))
  cases renamed : if renameFails then none else
      (GitCache.discard shared.disk (trashDir repo.cacheDir) first).rename repo.cacheDir
        (trashDir repo.cacheDir) with
  | none =>
      have run := run.tail (.act (.notVacated _ _))
      refine ⟨_, run, ?_, freed, rfl⟩
      simp [GitCache.evict, Shared.cache, head, renamed]
  | some disk =>
      have moved := (Option.ite_none_left_eq_some.mp renamed).2
      have run := run.tail (.act (.vacate _ _ disk moved))
      have run := run.tail (.act (.unlock _ _))
      have run := run.tail (.act (.sweep _ second))
      refine ⟨_, run, ?_, freed, rfl⟩
      simp [GitCache.evict, Shared.cache, head, renamed]

end Calls

/-! ## Histories -/

/-- The instants and caches that calls lead to which come one after the other. -/
inductive History (fetchTtl : ℕ) (allowed : RepoRef → Prop) (clock₀ : ℕ) (cache₀ : GitCache) :
    ℕ → GitCache → Prop where
  | start : History fetchTtl allowed clock₀ cache₀ clock₀ cache₀
  | fresh {clock : ℕ} {cache : GitCache}
      (before : History fetchTtl allowed clock₀ cache₀ clock cache)
      (env : Surroundings) (repo : RepoRef) (wantFetch : Bool) (known : allowed repo)
      (started : clock ≤ env.started) (decided : env.started ≤ env.decided)
      (leaves : env.LeavesHeads (hasHead cache.disk repo.cacheDir)) :
      History fetchTtl allowed clock₀ cache₀ env.decided
        (GitCache.ensureFresh fetchTtl env repo wantFetch cache).1
  | evict {clock : ℕ} {cache : GitCache}
      (before : History fetchTtl allowed clock₀ cache₀ clock cache)
      (first second : Option Disk) (renameFails : Bool) (repo : RepoRef) (known : allowed repo) :
      History fetchTtl allowed clock₀ cache₀ clock
        (GitCache.evict first second renameFails repo.cacheDir cache).1

section Histories

variable [DecidableEq Task] {initial : State Task → Prop} {tasks : Task → Stage}

theorem Alone.step (alone : Alone fetchTtl allowed task (shared, stage) (shared', stage')) :
    Step fetchTtl allowed ⟨shared, Function.update tasks task stage⟩
      ⟨shared', Function.update tasks task stage'⟩ := by
  cases alone with
  | act taken =>
      have acts : Step fetchTtl allowed ⟨shared, Function.update tasks task stage⟩
          ⟨shared', Function.update (Function.update tasks task stage) task stage'⟩ :=
        .act task _ _ _ (by simpa using taken)
      rwa [Function.update_idem] at acts
  | wait _ clock later => exact .tick clock later

/-- A task that runs by itself is a run of the machine. -/
theorem reachable_of_alone
    (reached : Reachable initial (Step fetchTtl allowed) ⟨shared, Function.update tasks task stage⟩)
    (ran : ReflTransGen (Alone fetchTtl allowed task) (shared, stage) (shared', stage')) :
    Reachable initial (Step fetchTtl allowed) ⟨shared', Function.update tasks task stage'⟩ := by
  generalize ends : (shared', stage') = last at ran
  induction ran generalizing shared' stage' with
  | refl =>
      cases ends
      exact reached
  | tail before alone ih =>
      rename_i middle last
      rcases middle with ⟨shared₁, stage₁⟩
      cases ends
      exact (ih rfl).next alone.step

/-- Nothing is in progress. -/
structure Rests (state : State Task) (clock : ℕ) (cache : GitCache) : Prop where
  idle : ∀ task, state.tasks task = .idle
  unowned : ∀ name, state.shared.owner name = none
  clock : state.shared.clock = clock
  cache : state.shared.cache = cache

variable {state : State Task} {upstreamBase : Text} {root : Path} {clock : ℕ}

theorem Rests.idles (rests : Rests state clock cache) (task : Task) :
    state = ⟨state.shared, Function.update state.tasks task .idle⟩ := by
  rw [← rests.idle task, Function.update_eq_self]

/-- The task of a call that gave back its lock, as it was before the call. -/
theorem Rests.of_left {clock' : ℕ} {cache' : GitCache} (rests : Rests state clock cache)
    (shared' : Shared Task)
    (owner : shared'.owner = state.shared.owner) (sameClock : shared'.clock = clock')
    (sameCache : shared'.cache = cache') (task : Task) :
    Rests ⟨shared', Function.update state.tasks task .idle⟩ clock' cache' where
  idle := by
    have same : Function.update state.tasks task .idle = state.tasks := by
      rw [← rests.idle task, Function.update_eq_self]
    rw [same]
    exact rests.idle
  unowned := owner ▸ rests.unowned
  clock := sameClock
  cache := sameCache

omit [DecidableEq Task] in
/-- How a call ends. -/
theorem leaves_idle (call : Call) (result : Except FreshError CacheOutcome) :
    ReflTransGen (Alone fetchTtl allowed task) (shared, .leaving call result)
      ({ shared with owner := Function.update shared.owner call.repo.name none }, .idle) := by
  cases result with
  | ok outcome => exact (ReflTransGen.single (.act (.succeed call outcome))).tail (.act (.serve _))
  | error error => exact .single (.act (.fail call error))

variable (resolved : ∀ repo, allowed repo → resolve repo.name upstreamBase root = .ok repo)
  (notNested : ∀ first second, allowed first → allowed second →
    first.cacheDir <+: second.cacheDir → first = second)

include resolved notNested

/-- A call of a task that runs by itself, up to its return. -/
theorem leaves_of_rests (reached : Reachable initial (Step fetchTtl allowed) state)
    (rests : Rests state clock cache) (known : allowed repo) (started : clock ≤ env.started)
    (decided : env.started ≤ env.decided)
    (leaves : env.LeavesHeads (hasHead cache.disk repo.cacheDir)) (wantFetch : Bool) (task : Task) :
    ∃ call shared', call.repo = repo ∧
      shared'.cache = (GitCache.ensureFresh fetchTtl env repo wantFetch cache).1 ∧
      shared'.owner = Function.update state.shared.owner repo.name (some task) ∧
      shared'.clock = env.decided ∧
      Reachable initial (Step fetchTtl allowed) ⟨shared', Function.update state.tasks task
        (.leaving call (GitCache.ensureFresh fetchTtl env repo wantFetch cache).2)⟩ := by
  have notRoot : repo.cacheDir ≠ [] := Resolved.cacheDir_ne_nil ⟨repo, resolved repo known⟩
  have onTime : state.shared.clock ≤ env.started := by rwa [rests.clock]
  have enters : ReflTransGen (Alone fetchTtl allowed task) (state.shared, .idle) _ :=
    enters wantFetch known (rests.unowned repo.name) onTime decided
  generalize entered : state.shared.entered task repo.name env.decided = shared at enters
  have touched : cache.touch repo.name = shared.cache := by
    rw [← entered, ← rests.cache]
    rfl
  have disk : cache.disk = shared.disk := congrArg GitCache.disk touched
  rcases returned : GitCache.ensureFresh fetchTtl env repo wantFetch cache with ⟨after, result⟩
  have gets : ∃ call shared', call.repo = repo ∧ Gets fetchTtl allowed task shared
      (.started ⟨repo, wantFetch, state.shared.clock, env.started⟩) shared'
      (.leaving call result) after := by
    rw [disk] at leaves
    cases head : hasHead shared.disk repo.cacheDir with
    | false =>
        rw [head] at leaves
        exact gets_of_missing notNested known notRoot head leaves touched returned
    | true =>
        rw [head] at leaves
        have now : shared.clock = env.decided := by rw [← entered, Shared.entered]
        exact gets_of_present notNested known notRoot head leaves now touched returned
  rcases gets with ⟨call, shared', own, gets⟩
  refine ⟨call, shared', own, gets.cache, ?_, ?_, ?_⟩
  · rw [gets.owner, ← entered, Shared.entered]
  · rw [gets.clock, ← entered, Shared.entered]
  · rw [rests.idles task] at reached
    exact reachable_of_alone reached (enters.trans gets.ran)

/-- Calls that come one after the other are a run of the machine. -/
theorem rests_of_history {first : State Task} {cache₀ : GitCache} {clock₀ : ℕ}
    (reached : Reachable initial (Step fetchTtl allowed) first) (rests : Rests first clock₀ cache₀)
    (history : History fetchTtl allowed clock₀ cache₀ clock cache) (task : Task) :
    ∃ state, Reachable initial (Step fetchTtl allowed) state ∧ Rests state clock cache := by
  induction history with
  | start => exact ⟨first, reached, rests⟩
  | fresh before env repo wantFetch known started decided leaves ih =>
      rcases ih with ⟨state, reached, rests⟩
      rcases leaves_of_rests resolved notNested reached rests known started decided leaves wantFetch
        task with ⟨call, shared', rfl, sameCache, owner, now, leaving⟩
      have freed : Function.update shared'.owner call.repo.name none = state.shared.owner := by
        rw [owner, Function.update_idem, Function.update_eq_self_iff, rests.unowned]
      exact ⟨_, reachable_of_alone leaving (leaves_idle call _), rests.of_left
        { shared' with owner := Function.update shared'.owner call.repo.name none } freed now
        sameCache task⟩
  | evict before one two renameFails repo known ih =>
      rcases ih with ⟨state, reached, rests⟩
      rcases gets_evict known (rests.unowned repo.name) one two renameFails with ⟨shared', gets⟩
      rw [rests.idles task] at reached
      rw [rests.cache] at gets
      exact ⟨_, reachable_of_alone reached gets.ran,
        rests.of_left shared' gets.owner (gets.clock.trans rests.clock) gets.cache task⟩

end Histories

/-- In some run a call returns this result and leaves this cache. -/
structure Realised [DecidableEq Task] (fetchTtl : ℕ) (allowed : RepoRef → Prop)
    (initial : State Task) (repo : RepoRef) (after : GitCache)
    (result : Except FreshError CacheOutcome) (state : State Task) : Prop where
  reached : Reachable (· = initial) (Step fetchTtl allowed) state
  returns : ∃ task call, state.tasks task = .leaving call result ∧ call.repo = repo
  leaves : state.shared.cache = after

def delivered : Attempt where
  clearing := none
  spawned := true
  written := some bareMirror
  drained := true
  waited := true
  status := ⟨some 0⟩
  stderr := []
  sweeping := none
  complete := fun _ => rfl

def delivering (clock : ℕ) : Surroundings where
  started := clock
  decided := clock
  mkdirFailure := none
  git := fun _ => delivered
  renameFails := false
  wants := none

theorem leavesHeads_delivering (clock : ℕ) (found : Bool) :
    (delivering clock).LeavesHeads found where
  git := by
    rintro n left written _
    cases written
    decide
  wants := by
    intro left written
    cases written

end GitCacheProxy.Git
