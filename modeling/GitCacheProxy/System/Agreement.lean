import GitCacheProxy.System.Basic

/-!
# The index and the disk

Where mirrors are not nested, a mirror on disk is tracked, or somebody still
owes the index something: a request is about to call `mark_changed`, or the
background task is about to remove the mirror.  A tracked mirror is on disk as
long as no eviction moves one away that is tracked again by then.

Nothing in `evict` sees to that: a mirror leaves the index when it is chosen,
and a request that gets its lock first puts it back.
-/

namespace GitCacheProxy.System

open Repo FileTree TransitionSystem

universe u

variable {Task : Type u}

/-- No mirror lies inside of another. -/
def Server.Unnested (server : Server) : Prop :=
  ∀ first second, server.allowed first → server.allowed second →
    first.cacheDir <+: second.cacheDir → first = second

/-- The index tracks exactly the mirrors on disk. -/
def Agrees (server : Server) (state : State Task) : Prop :=
  ∀ name, isLfsBlob name = false → (state.git.index.Tracks name ↔
    ∃ repo, server.allowed repo ∧ repo.name = name ∧
      Git.hasHead state.git.disk repo.cacheDir = true)

/-- Nothing is in progress, and the background task waits without a permit. -/
structure Quiescent (state : State Task) : Prop where
  requests : ∀ task, state.tasks (some task) = .idle
  downloads : ∀ task, state.downloads task = .idle
  parked : state.pc = .parked
  noPermit : state.git.index.permit = false

/-- No file-system error, and no reconcile pass. -/
def Orderly : Event → Prop
  | .fault | .tick => False
  | .quiet | .vacated _ _ | .unlinked _ => True

/-- If this moves a mirror away, the index does not track it. -/
def Untracked (state : State Task) : Event → Prop
  | .vacated name _ => ¬state.git.index.Tracks name
  | .quiet | .tick | .fault | .unlinked _ => True

/-- A mirror that the index need not track yet, or any more. -/
def Owed (state : State Task) (name : Text) : Prop :=
  (∃ task call wants, state.tasks task = .changed call wants ∧ call.repo.name = name) ∨
    name ∈ state.pc.victims ∨ (state.tasks none).evictee = some name

structure Matched (server : Server) (state : State Task) : Prop where
  present : ∀ task repo, (state.tasks task).works = some repo →
    Git.hasHead state.git.disk repo.cacheDir = true
  tracked : ∀ repo, server.allowed repo → state.git.index.Tracks repo.name →
    Git.hasHead state.git.disk repo.cacheDir = true
  owed : ∀ repo, server.allowed repo → Git.hasHead state.git.disk repo.cacheDir = true →
    state.git.index.Tracks repo.name ∨ Owed state repo.name
  evicted : ∀ name dir, state.tasks none = .vacated name dir → ¬state.git.index.Tracks name
  noPass : state.pc.reconciles = false

variable {server : Server} {state state' : State Task} {event : Event}

theorem Server.eq_of_name {first second : RepoRef} (allowedFirst : server.allowed first)
    (allowedSecond : server.allowed second) (same : first.name = second.name) :
    first = second := by
  have resolved := server.resolved first allowedFirst
  rw [same, server.resolved second allowedSecond] at resolved
  exact (Except.ok.inj resolved).symm

namespace Matched

theorem of_starts (starts : Starts server state) (agrees : Agrees server state) :
    Matched server state where
  present := by
    intro task repo works
    rw [starts.idle task] at works
    cases works
  tracked := by
    intro repo allowed tracked
    have mirror := not_isLfsBlob (server.resolved repo allowed)
    rcases (agrees repo.name mirror).mp tracked with ⟨other, allowedOther, same, head⟩
    rwa [server.eq_of_name allowedOther allowed same] at head
  owed := by
    intro repo allowed head
    have mirror := not_isLfsBlob (server.resolved repo allowed)
    exact Or.inl ((agrees repo.name mirror).mpr ⟨repo, allowed, rfl, head⟩)
  evicted := by
    intro name dir vacated
    rw [starts.idle none] at vacated
    cases vacated
  noPass := by
    rw [starts.pc]
    rfl

/-- Steps that touch no mirror, and forget none but the victims they choose. -/
theorem frame (matched : Matched server state) (inv : Inv server state)
    (tasks : state'.tasks = state.tasks)
    (heads : ∀ path, BesideStore server.root path →
      state'.git.disk.get? path = state.git.disk.get? path)
    (old : ∀ repo, server.allowed repo → state'.git.index.Tracks repo.name →
      state.git.index.Tracks repo.name)
    (kept : ∀ repo, server.allowed repo → state.git.index.Tracks repo.name →
      state'.git.index.Tracks repo.name ∨ repo.name ∈ state'.pc.victims)
    (victims : ∀ repo, server.allowed repo → repo.name ∈ state.pc.victims →
      repo.name ∈ state'.pc.victims)
    (noPass : state'.pc.reconciles = false) : Matched server state' := by
  have sameHead (repo : RepoRef) (allowed : server.allowed repo) :
      Git.hasHead state'.git.disk repo.cacheDir = Git.hasHead state.git.disk repo.cacheDir := by
    have beside := besideStore (server.resolved repo allowed) [Git.headFile]
    rw [Bool.eq_iff_iff, Git.Act.hasHead_iff, Git.Act.hasHead_iff, Tree.Exists, Tree.Exists,
      heads _ beside]
  refine ⟨?present, ?tracked, ?owed, ?evicted, noPass⟩
  case present =>
    intro task repo works
    rw [tasks] at works
    have relies := Git.Stage.relies_of_works works
    rw [sameHead repo (Git.Stage.allowed_of_relies (inv.within task) relies)]
    exact matched.present task repo works
  case tracked =>
    intro repo allowed tracked
    rw [sameHead repo allowed]
    exact matched.tracked repo allowed (old repo allowed tracked)
  case owed =>
    intro repo allowed head
    rw [sameHead repo allowed] at head
    rw [Owed, tasks]
    rcases matched.owed repo allowed head with tracked | marks | isVictim | evictee
    · rcases kept repo allowed tracked with still | chosen
      · exact Or.inl still
      · exact Or.inr (Or.inr (Or.inl chosen))
    · exact Or.inr (Or.inl marks)
    · exact Or.inr (Or.inr (Or.inl (victims repo allowed isVictim)))
    · exact Or.inr (Or.inr (Or.inr evictee))
  case evicted =>
    intro name dir vacated tracked
    rw [tasks] at vacated
    have within := inv.within none
    rw [vacated] at within
    rcases within with ⟨repo, allowed, rfl, _⟩
    exact matched.evicted repo.name dir vacated (old repo allowed tracked)

theorem mem_of_blob {name : Text} {victims : List Text}
    (next : state.pc = .evicting (name :: victims)) (blob : isLfsBlob name = true)
    {repo : RepoRef} (allowed : server.allowed repo) (isVictim : repo.name ∈ state.pc.victims) :
    repo.name ∈ victims := by
  rw [next] at isVictim
  rcases List.mem_cons.mp isVictim with rfl | later
  · rw [not_isLfsBlob (server.resolved repo allowed)] at blob
    cases blob
  · exact later

theorem maintain (matched : Matched server state) (inv : Inv server state)
    {index : Index.CacheIndex} {pc : Index.Pc}
    (taken : Index.TaskStep state.git.index state.pc index pc) :
    Matched server { state with git.index := index, pc := pc } := by
  apply matched.frame inv
  · rfl
  · exact fun _ _ => rfl
  · exact fun repo _ tracked => (taken.tracks repo.name).mpr (Or.inl tracked)
  · exact fun repo _ tracked => (taken.tracks repo.name).mp tracked
  · intro repo _ isVictim
    rw [taken.noVictims] at isVictim
    cases isVictim
  · exact taken.reconciles

/-- An object among the victims is dealt with. -/
theorem popped (matched : Matched server state) (inv : Inv server state) {name : Text}
    {victims : List Text} {disk : Disk} (next : state.pc = .evicting (name :: victims))
    (blob : isLfsBlob name = true)
    (heads : ∀ path, BesideStore server.root path →
      disk.get? path = state.git.disk.get? path) :
    Matched server { state with git.disk := disk, pc := .evicting victims } := by
  apply matched.frame inv
  · rfl
  · exact heads
  · exact fun _ _ tracked => tracked
  · exact fun _ _ tracked => Or.inl tracked
  · exact fun _ allowed isVictim => mem_of_blob next blob allowed isVictim
  · rfl

/-- An eviction moves away no mirror but its own. -/
theorem kept {task : Option Task} {effect : Git.Effect} {shared : Git.Shared (Option Task)}
    {stage : Git.Stage} (inv : Inv server state) (unnested : server.Unnested)
    (taken : Git.Act server.fetchTtl server.allowed task state.git (state.tasks task) effect
      shared stage) {repo : RepoRef} (allowed : server.allowed repo)
    (other : ∀ dir, effect ≠ .vacated repo.name dir)
    (head : Git.hasHead state.git.disk repo.cacheDir = true) :
    Git.hasHead shared.disk repo.cacheDir = true := by
  apply taken.keeps_head server.resolved (inv.within task) allowed _ head
  intro name dir vacates inside
  have within := inv.within task
  rw [(taken.of_vacated vacates).1] at within
  rcases within with ⟨victim, allowedVictim, rfl, rfl⟩
  have same := Git.Act.eq_of_inside unnested allowedVictim allowed inside
  rw [same] at vacates
  exact other _ vacates

variable [DecidableEq Task]

theorem download (matched : Matched server state) (inv : Inv server state) {task : Task}
    {shared : Lfs.Shared Task} {stage : Lfs.Stage}
    (taken : Lfs.Act server.root server.hash task state.lfs.shared (state.downloads task)
      shared stage) :
    Matched server
      (state.withLfs ⟨shared, Function.update state.downloads task stage⟩) := by
  have tracks (repo : RepoRef) (allowed : server.allowed repo) :
      shared.index.Tracks repo.name ↔ state.git.index.Tracks repo.name :=
    tracks_of_download taken (not_isLfsBlob (server.resolved repo allowed))
  apply matched.frame inv
  · rfl
  · exact fun _ beside => inv.lfs.get?_beside taken beside
  · exact fun repo allowed tracked => (tracks repo allowed).mp tracked
  · exact fun repo allowed tracked => Or.inl ((tracks repo allowed).mpr tracked)
  · exact fun _ _ isVictim => isVictim
  · exact matched.noPass

theorem pick (matched : Matched server state) {name : Text} {victims : List Text}
    (free : state.tasks none = .idle) (next : state.pc = .evicting (name :: victims)) :
    Matched server { state with
      tasks := Function.update state.tasks none (.evictQueued name (join server.root name))
      pc := .evicting victims } where
  present := by
    apply (Function.forall_update_iff state.tasks fun _ stage => ∀ repo,
      stage.works = some repo → Git.hasHead state.git.disk repo.cacheDir = true).mpr
    refine ⟨?_, fun other _ => matched.present other⟩
    intro repo works
    cases works
  tracked := matched.tracked
  owed := by
    intro repo allowed head
    rcases matched.owed repo allowed head with tracked | ⟨task, call, wants, marks, isName⟩ |
      isVictim | evictee
    · exact Or.inl tracked
    · have other : task ≠ none := by
        rintro rfl
        rw [free] at marks
        cases marks
      refine Or.inr (Or.inl ⟨task, call, wants, ?_, isName⟩)
      simp only [Function.update_of_ne other]
      exact marks
    · rw [next] at isVictim
      rcases List.mem_cons.mp isVictim with rfl | later
      · refine Or.inr (Or.inr (Or.inr ?_))
        simp only [Function.update_self]
        rfl
      · exact Or.inr (Or.inr (Or.inl later))
    · rw [free] at evictee
      cases evictee
  evicted := by
    intro victim dir vacated
    simp only [Function.update_self] at vacated
    cases vacated
  noPass := rfl

section Requests

variable {task : Option Task} {effect : Git.Effect} {shared : Git.Shared (Option Task)}
  {stage : Git.Stage}

theorem present_act (matched : Matched server state) (inv : Inv server state)
    (unnested : server.Unnested)
    (taken : Git.Act server.fetchTtl server.allowed task state.git (state.tasks task) effect
      shared stage) :
    ∀ other repo, (Function.update state.tasks task stage other).works = some repo →
      Git.hasHead shared.disk repo.cacheDir = true := by
  have stays (other : Option Task) (repo : RepoRef)
      (works : (state.tasks other).works = some repo) :
      Git.hasHead shared.disk repo.cacheDir = true := by
    have relies := Git.Stage.relies_of_works works
    apply kept inv unnested taken (Git.Stage.allowed_of_relies (inv.within other) relies)
    · intro dir vacates
      -- the eviction holds the lock that the other task works under
      have vacating := (taken.of_vacated vacates).1
      have holds : (state.tasks task).held = some repo.name := by rw [vacating]; rfl
      have same := inv.locks.unique holds (Git.Stage.held_of_works works)
      rw [← same, vacating] at works
      cases works
    · exact matched.present other repo works
  apply (Function.forall_update_iff state.tasks fun _ stage => ∀ repo,
    stage.works = some repo → Git.hasHead shared.disk repo.cacheDir = true).mpr
  refine ⟨?_, fun other _ => stays other⟩
  intro repo works
  rcases taken.works works with before | head
  · exact stays task repo before
  · exact head

theorem tracked_act (matched : Matched server state) (inv : Inv server state)
    (unnested : server.Unnested)
    (taken : Git.Act server.fetchTtl server.allowed task state.git (state.tasks task) effect
      shared stage)
    (untracked : Untracked state (.ofEffect effect)) {repo : RepoRef}
    (allowed : server.allowed repo) (tracked : shared.index.Tracks repo.name) :
    Git.hasHead shared.disk repo.cacheDir = true := by
  rcases (tracks_of_request taken repo.name).mp tracked with before | ⟨call, wants, at_, marks, same⟩
  · apply kept inv unnested taken allowed
    · rintro dir rfl
      exact untracked before
    · exact matched.tracked repo allowed before
  · have within := inv.within task
    rw [at_] at within
    have isRepo := server.eq_of_name within allowed same
    apply matched.present_act inv unnested taken task repo
    rw [Function.update_self, marks, ← isRepo]
    rfl

/-- Somebody keeps owing what was owed, or has paid. -/
theorem owed_act (inv : Inv server state)
    (taken : Git.Act server.fetchTtl server.allowed task state.git (state.tasks task) effect
      shared stage)
    (noFault : effect ≠ .fault) {repo : RepoRef} (allowed : server.allowed repo)
    (head : Git.hasHead shared.disk repo.cacheDir = true) (owed : Owed state repo.name) :
    shared.index.Tracks repo.name ∨
      Owed { state with git := shared, tasks := Function.update state.tasks task stage }
        repo.name := by
  rcases owed with ⟨other, call, wants, marks, isName⟩ | isVictim | evictee
  · by_cases isTask : other = task
    · subst isTask
      left
      rw [marks] at taken
      cases taken with
      | mark call wants => simp [isName]
    · refine Or.inr (Or.inl ⟨other, call, wants, ?_, isName⟩)
      simp only [Function.update_of_ne isTask]
      exact marks
  · exact Or.inr (Or.inr (Or.inl isVictim))
  · refine Or.inr (Or.inr (Or.inr ?_))
    by_cases isTask : none = task
    · subst isTask
      simp only [Function.update_self]
      rcases taken.evictee server.resolved (inv.within none) evictee noFault with
        still | ⟨other, allowedOther, same, gone⟩
      · exact still
      · rw [server.eq_of_name allowedOther allowed same, head] at gone
        cases gone
    · simp only [Function.update_of_ne isTask]
      exact evictee

theorem evicted_act (matched : Matched server state) (inv : Inv server state)
    (taken : Git.Act server.fetchTtl server.allowed task state.git (state.tasks task) effect
      shared stage)
    (untracked : Untracked state (.ofEffect effect)) {name : Text} {dir : Path}
    (vacated : Function.update state.tasks task stage none = .vacated name dir) :
    ¬shared.index.Tracks name := by
  by_cases isTask : none = task
  · subst isTask
    rw [Function.update_self] at vacated
    rcases taken.into_vacated vacated with ⟨rfl, sameIndex⟩
    rw [sameIndex]
    exact untracked
  · rw [Function.update_of_ne isTask] at vacated
    intro tracked
    rcases (tracks_of_request taken name).mp tracked with before | ⟨call, wants, at_, _, same⟩
    · exact matched.evicted name dir vacated before
    · -- both would hold the lock
      have evictor : (state.tasks none).held = some name := by rw [vacated]; rfl
      have marker : (state.tasks task).held = some name := by
        rw [at_, ← same]
        rfl
      exact isTask (inv.locks.unique evictor marker)

theorem act (matched : Matched server state) (inv : Inv server state)
    (unnested : server.Unnested)
    (taken : Git.Act server.fetchTtl server.allowed task state.git (state.tasks task) effect
      shared stage)
    (noFault : effect ≠ .fault) (untracked : Untracked state (.ofEffect effect)) :
    Matched server
      { state with git := shared, tasks := Function.update state.tasks task stage } where
  present := matched.present_act inv unnested taken
  tracked := fun repo allowed tracked =>
    matched.tracked_act inv unnested taken untracked allowed tracked
  owed := by
    intro repo allowed head
    have paid (before : Git.hasHead state.git.disk repo.cacheDir = true) :
        shared.index.Tracks repo.name ∨
          Owed { state with git := shared, tasks := Function.update state.tasks task stage }
            repo.name := by
      rcases matched.owed repo allowed before with tracked | owed
      · exact Or.inl ((tracks_of_request taken repo.name).mpr (Or.inl tracked))
      · exact owed_act inv taken noFault allowed head owed
    rcases taken.new_head server.resolved unnested (inv.within task) allowed head with
      before | ⟨call, read, _, installed, isRepo⟩ | ⟨call, inMirror, isRepo⟩
    · exact paid before
    · refine Or.inr (Or.inl ⟨task, call, false, ?_, congrArg RepoRef.name isRepo⟩)
      simp only [Function.update_self]
      exact installed
    · apply paid
      apply matched.present task repo
      rw [Git.Stage.works_of_inMirror inMirror, isRepo]
  evicted := fun _ _ vacated => matched.evicted_act inv taken untracked vacated
  noPass := matched.noPass

end Requests

theorem step (matched : Matched server state) (inv : Inv server state)
    (unnested : server.Unnested) (orderly : Orderly event) (untracked : Untracked state event)
    (taken : Step server state event state') : Matched server state' := by
  cases taken with
  | request task effect shared stage request taken =>
      apply matched.act inv unnested taken _ untracked
      rintro rfl
      exact orderly
  | evict effect shared stage evicting taken =>
      apply matched.act inv unnested taken _ untracked
      rintro rfl
      exact orderly
  | download task shared stage taken => exact matched.download inv taken
  | maintain index pc free taken => exact matched.maintain inv taken
  | pick name victims free next mirror => exact matched.pick free next
  | unlink name victims disk free next blob removed =>
      apply matched.popped inv next blob
      intro path beside
      rw [Tree.get?_removeFile removed, if_neg (beside.ne_join blob)]
  | alreadyGone name victims free next blob absent =>
      exact matched.popped inv next blob fun _ _ => rfl
  | notUnlinked name victims free next blob => exact orderly.elim
  | tick parked => exact orderly.elim
  | sweep index pc taken =>
      have sweeps := taken.reconciles
      rw [matched.noPass] at sweeps
      cases sweeps
  | time clock later =>
      exact ⟨matched.present, matched.tracked, matched.owed, matched.evicted, matched.noPass⟩

end Matched

theorem Matched.agrees (matched : Matched server state) (inv : Inv server state)
    (quiescent : Quiescent state) : Agrees server state := by
  have free : state.tasks none = .idle := by
    apply inv.idle_of_noVictims
    simp [quiescent.parked]
  have settled (name : Text) : ¬Owed state name := by
    rintro (⟨task, call, wants, marks, _⟩ | isVictim | evictee)
    · cases task with
      | none =>
          rw [free] at marks
          cases marks
      | some task =>
          rw [quiescent.requests task] at marks
          cases marks
    · rw [quiescent.parked] at isVictim
      cases isVictim
    · rw [free] at evictee
      cases evictee
  intro name mirror
  constructor
  · intro tracked
    rcases inv.known name tracked with blob | ⟨repo, allowed, rfl⟩
    · rw [mirror] at blob
      cases blob
    · exact ⟨repo, allowed, rfl, matched.tracked repo allowed tracked⟩
  · rintro ⟨repo, allowed, rfl, head⟩
    rcases matched.owed repo allowed head with tracked | owed
    · exact tracked
    · exact absurd owed (settled repo.name)

/-- Index and disk agree whenever the server comes to rest, in the runs whose evictions move
away no mirror that is tracked again; and then no finished eviction leaves one tracked. -/
theorem agrees_of_untracked [DecidableEq Task] {server : Server} (unnested : server.Unnested)
    {state : State Task}
    (reached : Reachable (fun state => Starts server state ∧ Agrees server state)
      (Within server fun state event => Orderly event ∧ Untracked state event) state) :
    (Quiescent state → Agrees server state) ∧
      ∀ name dir, state.tasks none = .vacated name dir → ¬state.git.index.Tracks name := by
  have both : Inv server state ∧ Matched server state := by
    apply reached.invariant
    · exact fun _ starts => ⟨.of_starts starts.1, .of_starts starts.1 starts.2⟩
    · rintro state state' ⟨inv, matched⟩ ⟨event, ⟨orderly, untracked⟩, taken⟩
      exact ⟨inv.step taken, matched.step inv unnested orderly untracked taken⟩
  exact ⟨both.2.agrees both.1, both.2.evicted⟩

theorem agrees_fullServer : Agrees demoServer fullServer := by
  intro name mirror
  rw [fullServer, Index.CacheIndex.tracks_new]
  constructor
  · intro isName
    refine ⟨Git.demoRepo.toRepoRef, rfl, ?_, by decide⟩
    simpa [eq_comm] using isName
  · rintro ⟨repo, rfl, rfl, _⟩
    simp

theorem unnested_demoServer : demoServer.Unnested := by
  rintro first second rfl rfl _
  rfl

/-- The mirror is evicted, and the background task comes to rest. -/
theorem agrees_of_evicted : ∃ state : State Unit,
    Quiescent state ∧ Agrees demoServer state ∧ ¬state.git.index.Tracks Git.demoRepo.name := by
  have run : Reachable (fun state => Starts demoServer state ∧ Agrees demoServer state)
      (Within demoServer fun state event => Orderly event ∧ Untracked state event) fullServer :=
    .start ⟨starts_fullServer, agrees_fullServer⟩
  have run := run.next (.of (.maintain _ _ rfl (.takeDirty [] (by decide) rfl)) ⟨trivial, trivial⟩)
  have run := run.next (.of (.maintain _ _ rfl .takeVictims) ⟨trivial, trivial⟩)
  have run := run.next (.of (.pick Git.demoRepo.name [] rfl rfl rfl) ⟨trivial, trivial⟩)
  have run := run.next (.of (.evict _ _ _ rfl (.evictLock _ _ rfl)) ⟨trivial, trivial⟩)
  have run := run.next (.of (.evict _ _ _ rfl (.evictPresent _ _ rfl)) ⟨trivial, trivial⟩)
  have run := run.next (.of (.evict _ _ _ rfl (.clear _ _ none)) ⟨trivial, trivial⟩)
  have run := run.next
    (.of (.evict _ _ _ rfl (.vacate _ _ _ rfl)) ⟨trivial, fun tracked => tracked rfl⟩)
  have run := run.next (.of (.evict _ _ _ rfl (.unlock _ _)) ⟨trivial, trivial⟩)
  have run := run.next (.of (.evict _ _ _ rfl (.sweep _ none)) ⟨trivial, trivial⟩)
  have run := run.next (.of (.maintain _ _ rfl .park) ⟨trivial, trivial⟩)
  have run := run.next (.of (.maintain _ _ rfl (.woken rfl)) ⟨trivial, trivial⟩)
  have run := run.next (.of (.maintain _ _ rfl (.takeDirty [] (by decide) rfl)) ⟨trivial, trivial⟩)
  have run := run.next (.of (.maintain _ _ rfl .takeVictims) ⟨trivial, trivial⟩)
  have run := run.next (.of (.maintain _ _ rfl .park) ⟨trivial, trivial⟩)
  have quiescent := (agrees_of_untracked unnested_demoServer run).1
    ⟨fun _ => rfl, fun _ => rfl, rfl, rfl⟩
  exact ⟨_, ⟨fun _ => rfl, fun _ => rfl, rfl, rfl⟩, quiescent, fun tracked => tracked rfl⟩

/-- A request that gets the lock first fetches into a mirror that is already a victim; its entry
outlives the mirror. -/
theorem tracked_evicted : ∃ state : State Unit,
    Reachable (fun state => Starts demoServer state ∧ Agrees demoServer state)
      (Within demoServer fun _ event => Orderly event) state ∧
        Quiescent state ∧ ¬Agrees demoServer state := by
  have run : Reachable (fun state => Starts demoServer state ∧ Agrees demoServer state)
      (Within demoServer fun _ event => Orderly event) fullServer :=
    .start ⟨starts_fullServer, agrees_fullServer⟩
  have run := run.next (.of (.maintain _ _ rfl (.takeDirty [] (by decide) rfl)) trivial)
  have run := run.next (.of (.maintain _ _ rfl .takeVictims) trivial)
  have run := run.next (.of (.pick Git.demoRepo.name [] rfl rfl rfl) trivial)
  have run := run.next
    (.of (.request () _ _ _ (by rfl) (.arrive Git.demoRepo.toRepoRef true rfl)) trivial)
  have run := run.next (.of (.request () _ _ _ (by rfl) (.lock _ _ rfl)) trivial)
  have run := run.next (.of (.request () _ _ _ (by rfl) (.start _ _ _)) trivial)
  have run := run.next (.of (.request () _ _ _ (by rfl) (.present _ rfl)) trivial)
  have run := run.next (.of (.request () _ _ _ (by rfl) (.decide _)) trivial)
  have run := run.next (.of (.request () _ _ _ (by rfl) (.fetchReads _ _)) trivial)
  have run := run.next (.of (.request () _ _ _ (by rfl) (.fetchDone _ _)) trivial)
  have run := run.next (.of (.request () _ _ _ (by rfl) (.mark _ _)) trivial)
  have run := run.next (.of (.request () _ _ _ (by rfl) (.notify _ _)) trivial)
  have run := run.next (.of (.request () _ _ _ (by rfl) (.stamp _)) trivial)
  have run := run.next (.of (.request () _ _ _ (by rfl) (.wantsOver _)) trivial)
  have run := run.next (.of (.request () _ _ _ (by rfl) (.succeed _ _)) trivial)
  have run := run.next (.of (.request () _ _ _ (by rfl) (.serve _)) trivial)
  have run := run.next (.of (.evict _ _ _ rfl (.evictLock _ _ rfl)) trivial)
  have run := run.next (.of (.evict _ _ _ rfl (.evictPresent _ _ rfl)) trivial)
  have run := run.next (.of (.evict _ _ _ rfl (.clear _ _ none)) trivial)
  have run := run.next (.of (.evict _ _ _ rfl (.vacate _ _ _ rfl)) trivial)
  have run := run.next (.of (.evict _ _ _ rfl (.unlock _ _)) trivial)
  have run := run.next (.of (.evict _ _ _ rfl (.sweep _ none)) trivial)
  have run := run.next (.of (.maintain _ _ rfl .park) trivial)
  have run := run.next (.of (.maintain _ _ rfl (.woken rfl)) trivial)
  have run := run.next
    (.of (.maintain _ _ rfl (.takeDirty [Git.demoRepo.name] (by decide) rfl)) trivial)
  have run := run.next (.of (.maintain _ _ rfl (.measure _ 0 _ _)) trivial)
  have run := run.next (.of (.maintain _ _ rfl (.walked _)) trivial)
  have run := run.next (.of (.maintain _ _ rfl (.setSize _ _ _)) trivial)
  have run := run.next (.of (.maintain _ _ rfl .sized) trivial)
  have run := run.next (.of (.maintain _ _ rfl .takeVictims) trivial)
  have run := run.next (.of (.maintain _ _ rfl .park) trivial)
  refine ⟨_, run, ⟨fun task => rfl, fun _ => rfl, rfl, rfl⟩, ?_⟩
  intro agrees
  rcases (agrees Git.demoRepo.name rfl).mp (fun untracked => by cases untracked) with
    ⟨repo, rfl, _, head⟩
  exact absurd head (by decide)

end GitCacheProxy.System
