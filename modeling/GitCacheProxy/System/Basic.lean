import GitCacheProxy.Git.Freshness
import GitCacheProxy.Index.Maintenance
import GitCacheProxy.Lfs.ContentAddressing

/-!
# The whole server

Git requests, LFS requests and the background task, on one disk and with one
index.  Each of them is a program of its own module; here they take turns.  The
background task chooses its victims in one critical section of the index lock
and removes them later: a mirror through `evict`, under the lock of its
repository, and an object by a plain unlink, under no lock at all.

The label of a step says what it can mean to a request in flight.
-/

namespace GitCacheProxy.System

open Repo FileTree TransitionSystem

universe u

/-- What stays the same while a server runs. -/
structure Server where
  fetchTtl : ℕ
  upstreamBase : Text
  root : Path
  hash : Bytes → Text
  /-- the repositories that clients ask for -/
  allowed : RepoRef → Prop
  resolved : ∀ repo, allowed repo → resolve repo.name upstreamBase root = .ok repo

/-- A name that the server may have put into the index. -/
def Server.Known (server : Server) (name : Text) : Prop :=
  isLfsBlob name = true ∨ ∃ repo, server.allowed repo ∧ repo.name = name

/-- Among the tasks that work on mirrors, `none` is the background task. -/
structure State (Task : Type u) where
  git : Git.Shared (Option Task)
  /-- the task that holds the slot of an object -/
  slots : Text → Option Task
  counter : ℕ
  pid : ℕ
  tasks : Option Task → Git.Stage
  downloads : Task → Lfs.Stage
  pc : Index.Pc

inductive Event where
  | quiet
  /-- a reconcile pass begins -/
  | tick
  /-- a file-system call failed -/
  | fault
  /-- an eviction moved `dir` away -/
  | vacated (name : Text) (dir : Path)
  /-- an eviction removed the file at `path` -/
  | unlinked (path : Path)

def Event.ofEffect : Git.Effect → Event
  | .quiet => quiet
  | .fault => fault
  | .vacated name dir => vacated name dir

variable {Task : Type u}

namespace State

variable (state : State Task)

/-- What the LFS requests see. -/
def lfs : Lfs.State Task where
  shared := {
    disk := state.git.disk
    index := state.git.index
    owner := state.slots
    counter := state.counter
    pid := state.pid }
  tasks := state.downloads

def withLfs (lfs : Lfs.State Task) : State Task :=
  { state with
    git.disk := lfs.shared.disk
    git.index := lfs.shared.index
    slots := lfs.shared.owner
    counter := lfs.shared.counter
    pid := lfs.shared.pid
    downloads := lfs.tasks }

end State

/-- One step of a request, of the background task, or of time. -/
inductive Step [DecidableEq Task] (server : Server) (state : State Task) : Event → State Task → Prop where
  | request (task : Task) (effect : Git.Effect) (shared : Git.Shared (Option Task))
      (stage : Git.Stage) (request : stage.evicts = false)
      (taken : Git.Act server.fetchTtl server.allowed (some task) state.git
        (state.tasks (some task)) effect shared stage) :
      Step server state (.ofEffect effect)
        { state with git := shared, tasks := Function.update state.tasks (some task) stage }
  | download (task : Task) (shared : Lfs.Shared Task) (stage : Lfs.Stage)
      (taken : Lfs.Act server.root server.hash task state.lfs.shared (state.downloads task)
        shared stage) :
      Step server state .quiet
        (state.withLfs ⟨shared, Function.update state.downloads task stage⟩)
  | maintain (index : Index.CacheIndex) (pc : Index.Pc) (free : state.tasks none = .idle)
      (taken : Index.TaskStep state.git.index state.pc index pc) :
      Step server state .quiet { state with git.index := index, pc := pc }
  -- a mirror among the victims
  | pick (name : Text) (victims : List Text) (free : state.tasks none = .idle)
      (next : state.pc = .evicting (name :: victims)) (mirror : isLfsBlob name = false) :
      Step server state .quiet { state with
        tasks := Function.update state.tasks none (.evictQueued name (join server.root name))
        pc := .evicting victims }
  | evict (effect : Git.Effect) (shared : Git.Shared (Option Task)) (stage : Git.Stage)
      (evicting : (state.tasks none).evicts = true)
      (taken : Git.Act server.fetchTtl server.allowed none state.git (state.tasks none) effect
        shared stage) :
      Step server state (.ofEffect effect)
        { state with git := shared, tasks := Function.update state.tasks none stage }
  -- an object among the victims
  | unlink (name : Text) (victims : List Text) (disk : Disk) (free : state.tasks none = .idle)
      (next : state.pc = .evicting (name :: victims)) (blob : isLfsBlob name = true)
      (removed : state.git.disk.removeFile (join server.root name) = some disk) :
      Step server state (.unlinked (join server.root name))
        { state with git.disk := disk, pc := .evicting victims }
  | alreadyGone (name : Text) (victims : List Text) (free : state.tasks none = .idle)
      (next : state.pc = .evicting (name :: victims)) (blob : isLfsBlob name = true)
      (absent : ¬state.git.disk.Exists (join server.root name)) :
      Step server state .quiet { state with pc := .evicting victims }
  | notUnlinked (name : Text) (victims : List Text) (free : state.tasks none = .idle)
      (next : state.pc = .evicting (name :: victims)) (blob : isLfsBlob name = true) :
      Step server state .fault { state with pc := .evicting victims }
  | tick (parked : state.pc = .parked) :
      Step server state .tick { state with pc := state.git.index.snapshot }
  | sweep (index : Index.CacheIndex) (pc : Index.Pc)
      (taken : Index.SweepStep (fun name => ¬state.git.disk.Exists (join server.root name))
        state.git.index state.pc index pc) :
      Step server state .quiet { state with git.index := index, pc := pc }
  | time (clock : ℕ) (later : state.git.clock ≤ clock) :
      Step server state .quiet { state with git.clock := clock }

/-- The steps of the runs in which every event is one that `may` happen. -/
def Within [DecidableEq Task] (server : Server) (may : State Task → Event → Prop)
    (state state' : State Task) : Prop :=
  ∃ event, may state event ∧ Step server state event state'

theorem Within.of [DecidableEq Task] {server : Server} {may : State Task → Event → Prop}
    {state state' : State Task} {event : Event} (taken : Step server state event state')
    (happens : may state event) : Within server may state state' := ⟨event, happens, taken⟩

/-- A server starts on the cache of an earlier run, with nothing in flight. -/
structure Starts (server : Server) (state : State Task) : Prop where
  unowned : ∀ name, state.git.owner name = none
  idle : ∀ task, state.tasks task = .idle
  lfs : Lfs.Starts server.root server.hash state.lfs
  pc : state.pc = .start
  known : ∀ name, state.git.index.Tracks name → server.Known name

/-! ## What holds in every run -/

structure Inv (server : Server) (state : State Task) : Prop where
  locks : LockTable.Consistent Git.Stage.held state.git.owner state.tasks
  within : ∀ task, (state.tasks task).Within server.allowed
  known : ∀ name, state.git.index.Tracks name → server.Known name
  victims : ∀ name ∈ state.pc.victims, server.Known name
  background : state.tasks none = .idle ∨ ∃ victims, state.pc = .evicting victims
  lfs : Lfs.Inv server.root server.hash state.lfs

variable {server : Server} {state state' : State Task} {event : Event}

section Actions

variable {fetchTtl : ℕ} {allowed : RepoRef → Prop} {root : Path} {hash : Bytes → Text}

/-- Requests forget nothing, and only `mark_changed` tracks a mirror. -/
theorem tracks_of_request {task : Option Task} {shared shared' : Git.Shared (Option Task)}
    {stage stage' : Git.Stage} {effect : Git.Effect}
    (taken : Git.Act fetchTtl allowed task shared stage effect shared' stage') (name : Text) :
    shared'.index.Tracks name ↔ shared.index.Tracks name ∨
      ∃ call wants, stage = .changed call wants ∧ stage' = .marked call wants ∧
        call.repo.name = name := by
  cases taken with
  | mark call wants => simp [or_comm, eq_comm]
  | _ => simp

theorem tracks_of_download {task : Task} {shared shared' : Lfs.Shared Task}
    {stage stage' : Lfs.Stage} (taken : Lfs.Act root hash task shared stage shared' stage')
    {name : Text} (mirror : isLfsBlob name = false) :
    shared'.index.Tracks name ↔ shared.index.Tracks name := by
  cases taken with
  | touch oid guarded => simp
  | notify oid => simp
  | record oid bytes =>
      have different : name ≠ lfsObjectKey oid := by
        rintro rfl
        rw [isLfsBlob_lfsObjectKey] at mirror
        cases mirror
      simp [different]
  | succeed oid guarded outcome => cases guarded <;> rfl
  | drop stage op awaits own => cases stage.held <;> rfl
  | _ => rfl

end Actions

namespace Inv

theorem of_starts (starts : Starts server state) : Inv server state where
  locks := by
    intro task name
    simp [starts.idle task, starts.unowned name, Git.Stage.held]
  within := by
    intro task
    rw [starts.idle task]
    trivial
  known := starts.known
  victims := by
    intro name isVictim
    rw [starts.pc] at isVictim
    cases isVictim
  background := Or.inl (starts.idle none)
  lfs := .of_starts starts.lfs

/-- The background task went on to other bookkeeping. -/
theorem goesOn (inv : Inv server state) {index : Index.CacheIndex} {pc : Index.Pc}
    (tracked : ∀ name, index.Tracks name → state.git.index.Tracks name)
    (victims : ∀ name ∈ pc.victims, state.git.index.Tracks name ∨ name ∈ state.pc.victims)
    (background : state.tasks none = .idle ∨ ∃ victims, pc = .evicting victims) :
    Inv server { state with git.index := index, pc := pc } where
  locks := inv.locks
  within := inv.within
  known := fun name isTracked => inv.known name (tracked name isTracked)
  victims := by
    intro name isVictim
    rcases victims name isVictim with isTracked | before
    · exact inv.known name isTracked
    · exact inv.victims name before
  background := background
  lfs := inv.lfs.frame fun _ _ found => found

theorem known_next (inv : Inv server state) {name : Text} {victims : List Text}
    (next : state.pc = .evicting (name :: victims)) : server.Known name :=
  inv.victims name (by simp [next, Index.Pc.victims])

theorem popped (inv : Inv server state) {name : Text} {victims : List Text}
    (free : state.tasks none = .idle) (next : state.pc = .evicting (name :: victims)) :
    Inv server { state with pc := .evicting victims } := by
  apply inv.goesOn (fun _ tracked => tracked)
  · intro other isVictim
    right
    rw [next]
    exact List.mem_cons_of_mem name isVictim
  · exact Or.inl free

theorem unlink (inv : Inv server state) {name : Text} {victims : List Text} {disk : Disk}
    (free : state.tasks none = .idle) (next : state.pc = .evicting (name :: victims))
    (removed : state.git.disk.removeFile (join server.root name) = some disk) :
    Inv server { state with git.disk := disk, pc := .evicting victims } where
  locks := inv.locks
  within := inv.within
  known := inv.known
  victims := (inv.popped free next).victims
  background := Or.inl free
  lfs := inv.lfs.frame fun _ _ => Tree.get?_of_removeFile removed

/-- A bookkeeping step leaves nothing of an eviction behind. -/
theorem idle_of_noVictims (inv : Inv server state) (notEvicting : ∀ v, state.pc ≠ .evicting v) :
    state.tasks none = .idle := by
  rcases inv.background with free | ⟨victims, evicting⟩
  · exact free
  · exact absurd evicting (notEvicting victims)

variable [DecidableEq Task]

theorem act (inv : Inv server state) {task : Option Task} {effect : Git.Effect}
    {shared : Git.Shared (Option Task)} {stage : Git.Stage}
    (taken : Git.Act server.fetchTtl server.allowed task state.git (state.tasks task) effect
      shared stage)
    (background : task = none → ∃ victims, state.pc = .evicting victims) :
    Inv server
      { state with git := shared, tasks := Function.update state.tasks task stage } where
  locks := taken.consistent inv.locks
  within := (Function.forall_update_iff state.tasks fun _ stage =>
      stage.Within server.allowed).mpr
    ⟨taken.within (inv.within task), fun other _ => inv.within other⟩
  known := by
    intro name tracked
    rcases (tracks_of_request taken name).mp tracked with before | ⟨call, wants, at_, _, rfl⟩
    · exact inv.known name before
    · have within := inv.within task
      rw [at_] at within
      exact Or.inr ⟨call.repo, within, rfl⟩
  victims := inv.victims
  background := by
    cases task with
    | none => exact Or.inr (background rfl)
    | some task =>
        simpa using inv.background
  lfs := by
    apply inv.lfs.frame
    intro rest node found
    rwa [taken.get?_store server.resolved (inv.within task)] at found

theorem download (inv : Inv server state) {task : Task} {shared : Lfs.Shared Task}
    {stage : Lfs.Stage}
    (taken : Lfs.Act server.root server.hash task state.lfs.shared (state.downloads task)
      shared stage) :
    Inv server (state.withLfs ⟨shared, Function.update state.downloads task stage⟩) where
  locks := inv.locks
  within := inv.within
  known := by
    intro name tracked
    cases mirror : isLfsBlob name with
    | true => exact Or.inl mirror
    | false => exact inv.known name ((tracks_of_download taken mirror).mp tracked)
  victims := inv.victims
  background := inv.background
  lfs := inv.lfs.act taken

theorem pick (inv : Inv server state) {name : Text} {victims : List Text}
    (free : state.tasks none = .idle) (next : state.pc = .evicting (name :: victims))
    (mirror : isLfsBlob name = false) :
    Inv server { state with
      tasks := Function.update state.tasks none (.evictQueued name (join server.root name))
      pc := .evicting victims } where
  locks := by
    apply inv.locks.frame
    rw [free]
    rfl
  within := by
    apply (Function.forall_update_iff state.tasks fun _ stage =>
      stage.Within server.allowed).mpr
    refine ⟨?_, fun other _ => inv.within other⟩
    rcases inv.known_next next with blob | ⟨repo, allowed, rfl⟩
    · rw [mirror] at blob
      cases blob
    · exact ⟨repo, allowed, rfl, (join_name (server.resolved repo allowed)).symm⟩
  known := inv.known
  victims := (inv.popped free next).victims
  background := Or.inr ⟨victims, rfl⟩
  lfs := inv.lfs

theorem step (inv : Inv server state) (taken : Step server state event state') :
    Inv server state' := by
  cases taken with
  | request task effect shared stage request taken =>
      apply inv.act taken
      intro isBackground
      cases isBackground
  | download task shared stage taken => exact inv.download taken
  | maintain index pc free taken =>
      apply inv.goesOn
      · exact fun name tracked => (taken.tracks name).mpr (Or.inl tracked)
      · exact fun name isVictim => Or.inl ((taken.tracks name).mpr (Or.inr isVictim))
      · exact Or.inl free
  | pick name victims free next mirror => exact inv.pick free next mirror
  | evict effect shared stage evicting taken =>
      apply inv.act taken
      intro _
      rcases inv.background with free | picked
      · rw [free] at evicting
        cases evicting
      · exact picked
  | unlink name victims disk free next blob removed => exact inv.unlink free next removed
  | alreadyGone name victims free next blob absent => exact inv.popped free next
  | notUnlinked name victims free next blob => exact inv.popped free next
  | tick parked =>
      apply inv.goesOn (fun _ tracked => tracked)
      · intro name isVictim
        rw [Index.CacheIndex.victims_snapshot] at isVictim
        cases isVictim
      · left
        apply inv.idle_of_noVictims
        simp [parked]
  | sweep index pc taken =>
      apply inv.goesOn
      · exact fun _ tracked => taken.tracks tracked
      · intro name isVictim
        rw [taken.noVictims.2] at isVictim
        cases isVictim
      · left
        apply inv.idle_of_noVictims
        intro victims evicting
        rw [evicting] at taken
        cases taken
  | time clock later =>
      exact ⟨inv.locks, inv.within, inv.known, inv.victims, inv.background, inv.lfs⟩

end Inv

theorem inv_of_reachable [DecidableEq Task] {may : State Task → Event → Prop}
    (reached : Reachable (Starts server) (Within server may) state) : Inv server state := by
  apply reached.invariant (fun _ starts => .of_starts starts)
  rintro state state' inv ⟨event, _, taken⟩
  exact inv.step taken

/-! One mirror, twice as large as the cap. -/

def demoServer : Server where
  fetchTtl := 60
  upstreamBase := "https://upstream".toList
  root := ["cache".toList]
  hash := Lfs.demoHash
  allowed := (· = Git.demoRepo.toRepoRef)
  resolved := by
    rintro repo rfl
    exact Git.demoRepo.resolved

def fullServer : State Unit where
  git := {
    clock := 7
    disk := Tree.empty.graft Git.demoRepo.cacheDir Git.bareMirror
    index := .new [⟨Git.demoRepo.name, 2000, 0⟩] [] 1000
    owner := fun _ => none
    last := fun _ => none
    pulled := fun _ => none
    content := fun _ => none }
  slots := fun _ => none
  counter := 0
  pid := 7
  tasks := fun _ => .idle
  downloads := fun _ => .idle
  pc := .start

theorem starts_fullServer : Starts demoServer fullServer where
  unowned := fun _ => rfl
  idle := fun _ => rfl
  lfs := by
    refine ⟨fun _ => rfl, fun _ => rfl, ?_⟩
    intro oid valid node found
    have beside := besideStore Git.demoRepo.resolved []
    rw [List.append_nil] at beside
    rw [lfsObjectPath_eq valid] at found
    simp only [State.lfs, fullServer, demoServer] at found
    rw [Tree.get?_graft Git.demoRepo.cacheDir_ne_nil, if_neg beside.not_above_store,
      if_neg beside.not_store_above] at found
    simp at found
  pc := rfl
  known := by
    intro name tracked
    rw [fullServer, Index.CacheIndex.tracks_new] at tracked
    right
    simpa [demoServer, eq_comm] using tracked

end GitCacheProxy.System
