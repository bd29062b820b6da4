import GitCacheProxy.System.Basic

/-!
# What an eviction can take from a request

A git request counts on its mirror from the moment it has seen `HEAD`, or has
put it there, until `upload-pack` has started.  Its lock protects the mirror
until `ensure_fresh` returns, and nothing does after that.  An LFS request
counts on its object until it has opened the file, and no lock keeps an unlink
out at any time.

So a request finds what it was promised in every run whose evictions hit
nothing that somebody counts on, and not in every other run.
-/

namespace GitCacheProxy.System

open Repo FileTree TransitionSystem

universe u

variable {Task : Type u}

/-- Whoever has passed its ensure step finds what it is about to serve. -/
structure Served (server : Server) (state : State Task) : Prop where
  mirror : ∀ task repo, state.tasks (some task) = .serving repo →
    Git.hasHead state.git.disk repo.cacheDir = true
  object : ∀ task oid, state.downloads task = .serving oid →
    state.git.disk.isFile (lfsObjectPath server.root oid) = true

/-- If this is an eviction, it hits nothing that a request counts on. -/
def Spares (server : Server) (state : State Task) : Event → Prop
  | .vacated _ dir => ∀ task repo, (state.tasks task).relies = some repo →
      ¬dir <+: repo.cacheDir ++ [Git.headFile]
  | .unlinked path => ∀ task oid, (state.downloads task).needs = some oid →
      lfsObjectPath server.root oid ≠ path
  | .quiet | .tick | .fault => True

/-- Everything that a request counts on is there. -/
structure Counted (server : Server) (state : State Task) : Prop where
  mirrors : ∀ task repo, (state.tasks task).relies = some repo →
    Git.hasHead state.git.disk repo.cacheDir = true
  objects : ∀ task oid, (state.downloads task).needs = some oid →
    state.git.disk.Exists (lfsObjectPath server.root oid)

namespace Counted

variable {server : Server} {state state' : State Task} {event : Event}

theorem of_starts (starts : Starts server state) : Counted server state where
  mirrors := by
    intro task repo relies
    rw [starts.idle task] at relies
    cases relies
  objects := by
    intro task oid needs
    have idle : state.downloads task = .idle := starts.lfs.idle task
    rw [idle] at needs
    cases needs

theorem unlink (counted : Counted server state) (inv : Inv server state) {name : Text}
    {disk : Disk} (blob : isLfsBlob name = true)
    (removed : state.git.disk.removeFile (join server.root name) = some disk)
    (spares : Spares server state (.unlinked (join server.root name))) (pc : Index.Pc) :
    Counted server { state with git.disk := disk, pc := pc } where
  mirrors := by
    intro task repo relies
    have head := counted.mirrors task repo relies
    have allowed := Git.Stage.allowed_of_relies (inv.within task) relies
    have beside := besideStore (server.resolved repo allowed) [Git.headFile]
    rw [Git.Act.hasHead_iff] at head ⊢
    rwa [Tree.Exists, Tree.get?_removeFile removed, if_neg (beside.ne_join blob)]
  objects := by
    intro task oid needs
    rw [Tree.Exists, Tree.get?_removeFile removed, if_neg (spares task oid needs)]
    exact counted.objects task oid needs

theorem served (counted : Counted server state) (inv : Inv server state) :
    Served server state where
  mirror := by
    intro task repo serving
    apply counted.mirrors (some task) repo
    rw [serving]
    rfl
  object := by
    intro task oid serving
    have needs : (state.downloads task).needs = some oid := by rw [serving]; rfl
    have valid := inv.lfs.valid task oid (Lfs.oid_of_needs needs)
    have present := counted.objects task oid needs
    rw [Tree.isFile_iff]
    cases found : state.git.disk.get? (lfsObjectPath server.root oid) with
    | none => exact absurd found present
    | some node =>
        rcases inv.lfs.addressed oid valid node found with ⟨content, rfl, _⟩
        exact ⟨content, rfl⟩

variable [DecidableEq Task]

theorem act (counted : Counted server state) (inv : Inv server state) {task : Option Task}
    {effect : Git.Effect} {shared : Git.Shared (Option Task)} {stage : Git.Stage}
    (taken : Git.Act server.fetchTtl server.allowed task state.git (state.tasks task) effect
      shared stage)
    (spares : Spares server state (.ofEffect effect)) :
    Counted server
      { state with git := shared, tasks := Function.update state.tasks task stage } where
  mirrors := by
    have kept (other : Option Task) (repo : RepoRef)
        (relies : (state.tasks other).relies = some repo) :
        Git.hasHead shared.disk repo.cacheDir = true := by
      have allowed := Git.Stage.allowed_of_relies (inv.within other) relies
      apply taken.keeps_head server.resolved (inv.within task) allowed
      · rintro name dir rfl
        exact spares other repo relies
      · exact counted.mirrors other repo relies
    apply (Function.forall_update_iff state.tasks fun _ stage => ∀ repo,
      stage.relies = some repo → Git.hasHead shared.disk repo.cacheDir = true).mpr
    refine ⟨?_, fun other _ => kept other⟩
    intro repo relies
    rcases taken.relies relies with before | head
    · exact kept task repo before
    · exact head
  objects := by
    intro other oid needs
    have valid := inv.lfs.valid other oid (Lfs.oid_of_needs needs)
    have present := counted.objects other oid needs
    rw [Tree.Exists, lfsObjectPath_eq valid] at present ⊢
    rwa [taken.get?_store server.resolved (inv.within task)]

theorem download (counted : Counted server state) (inv : Inv server state) {task : Task}
    {shared : Lfs.Shared Task} {stage : Lfs.Stage}
    (taken : Lfs.Act server.root server.hash task state.lfs.shared (state.downloads task)
      shared stage) :
    Counted server
      (state.withLfs ⟨shared, Function.update state.downloads task stage⟩) where
  mirrors := by
    intro other repo relies
    have head := counted.mirrors other repo relies
    have allowed := Git.Stage.allowed_of_relies (inv.within other) relies
    have beside := besideStore (server.resolved repo allowed) [Git.headFile]
    have same : shared.disk.get? (repo.cacheDir ++ [Git.headFile]) =
        state.git.disk.get? (repo.cacheDir ++ [Git.headFile]) :=
      inv.lfs.get?_beside taken beside
    rw [Git.Act.hasHead_iff] at head ⊢
    rwa [Tree.Exists, State.withLfs, same]
  objects := by
    have valid := (inv.lfs.act taken).valid
    intro other oid needs
    have validOid := valid other oid (Lfs.oid_of_needs needs)
    by_cases isTask : other = task
    · subst isTask
      simp only [State.withLfs, Function.update_self] at needs
      rcases Lfs.serves_or_relies needs with serves | relies
      · have before := Lfs.needs_of_relies (taken.serves serves)
        exact inv.lfs.exists_act taken validOid (counted.objects other oid before)
      · apply inv.lfs.exists_relied taken validOid _ relies
        exact fun before => counted.objects other oid (Lfs.needs_of_relies before)
    · simp only [State.withLfs, Function.update_of_ne isTask] at needs
      exact inv.lfs.exists_act taken validOid (counted.objects other oid needs)

theorem step (counted : Counted server state) (inv : Inv server state)
    (spares : Spares server state event) (taken : Step server state event state') :
    Counted server state' := by
  cases taken with
  | request task effect shared stage request taken => exact counted.act inv taken spares
  | evict effect shared stage evicting taken => exact counted.act inv taken spares
  | download task shared stage taken => exact counted.download inv taken
  | pick name victims free next mirror =>
      refine ⟨?_, counted.objects⟩
      apply (Function.forall_update_iff state.tasks fun _ stage => ∀ repo,
        stage.relies = some repo → Git.hasHead state.git.disk repo.cacheDir = true).mpr
      refine ⟨?_, fun other _ => counted.mirrors other⟩
      intro repo relies
      cases relies
  | unlink name victims disk free next blob removed => exact counted.unlink inv blob removed spares _
  | _ => exact ⟨counted.mirrors, counted.objects⟩

end Counted

/-- In the runs whose evictions spare what is counted on, requests are served. -/
theorem served_of_spared [DecidableEq Task] {server : Server} {state : State Task}
    (reached : Reachable (Starts server) (Within server (Spares server)) state) :
    Served server state := by
  have both : Inv server state ∧ Counted server state := by
    apply reached.invariant (fun _ starts => ⟨.of_starts starts, .of_starts starts⟩)
    rintro state state' ⟨inv, counted⟩ ⟨event, spares, taken⟩
    exact ⟨inv.step taken, counted.step inv spares taken⟩
  exact both.2.served both.1

/-- The mirror is evicted, cloned again and served. -/
theorem served_of_recloned : ∃ state : State Unit,
    state.tasks (some ()) = .serving Git.demoRepo.toRepoRef ∧ Served demoServer state := by
  have run : Reachable (Starts demoServer) (Within demoServer (Spares demoServer)) fullServer :=
    .start starts_fullServer
  have run := run.next (.of (.maintain _ _ rfl (.takeDirty [] (by decide) rfl)) trivial)
  have run := run.next (.of (.maintain _ _ rfl .takeVictims) trivial)
  have run := run.next (.of (.pick Git.demoRepo.name [] rfl rfl rfl) trivial)
  have run := run.next (.of (.evict _ _ _ rfl (.evictLock _ _ rfl)) trivial)
  have run := run.next (.of (.evict _ _ _ rfl (.evictPresent _ _ rfl)) trivial)
  have run := run.next (.of (.evict _ _ _ rfl (.clear _ _ none)) trivial)
  have run := run.next (.of (.evict _ _ _ rfl (.vacate _ _ _ rfl)) <| by
    intro task repo relies
    cases task with
    | none => cases relies
    | some task => cases relies)
  have run := run.next (.of (.evict _ _ _ rfl (.unlock _ _)) trivial)
  have run := run.next (.of (.request () _ _ _ (by rfl) (.arrive Git.demoRepo.toRepoRef true rfl)) trivial)
  have run := run.next (.of (.request () _ _ _ (by rfl) (.lock _ _ rfl)) trivial)
  have run := run.next (.of (.request () _ _ _ (by rfl) (.start _ _ _)) trivial)
  have run := run.next (.of (.request () _ _ _ (by rfl) (.absent _ rfl)) trivial)
  have run := run.next (.of (.request () _ _ _ (by rfl) (.made _ _ rfl)) trivial)
  have run := run.next (.of (.request () _ _ _ (by rfl) (.cloneReads _ _)) trivial)
  have run := run.next (.of (.request () _ _ _ (by rfl)
    (.cloneWrites _ _ (some Git.bareMirror) (by decide))) trivial)
  have run := run.next (.of (.request () _ _ _ (by rfl) (.cloneDone _ _)) trivial)
  have run := run.next (.of (.request () _ _ _ (by rfl) (.install _ _ _ rfl rfl)) trivial)
  have run := run.next (.of (.request () _ _ _ (by rfl) (.mark _ _)) trivial)
  have run := run.next (.of (.request () _ _ _ (by rfl) (.notify _ _)) trivial)
  have run := run.next (.of (.request () _ _ _ (by rfl) (.stamp _)) trivial)
  have run := run.next (.of (.request () _ _ _ (by rfl) (.wantsOver _)) trivial)
  have run := run.next (.of (.request () _ _ _ (by rfl) (.succeed _ _)) trivial)
  exact ⟨_, rfl, served_of_spared run⟩

/-- The victim was chosen before the request came, and is moved away before it is served. -/
theorem serving_evicted : ∃ state : State Unit,
    Reachable (Starts demoServer) (Within demoServer fun _ _ => True) state ∧
      ¬Served demoServer state := by
  have run : Reachable (Starts demoServer) (Within demoServer fun _ _ => True) fullServer :=
    .start starts_fullServer
  have run := run.next (.of (.maintain _ _ rfl (.takeDirty [] (by decide) rfl)) trivial)
  have run := run.next (.of (.maintain _ _ rfl .takeVictims) trivial)
  have run := run.next (.of (.request () _ _ _ (by rfl) (.arrive Git.demoRepo.toRepoRef false rfl)) trivial)
  have run := run.next (.of (.request () _ _ _ (by rfl) (.lock _ _ rfl)) trivial)
  have run := run.next (.of (.request () _ _ _ (by rfl) (.start _ _ _)) trivial)
  have run := run.next (.of (.request () _ _ _ (by rfl) (.present _ rfl)) trivial)
  have run := run.next (.of (.request () _ _ _ (by rfl) (.decide _)) trivial)
  have run := run.next (.of (.request () _ _ _ (by rfl) (.wantsOver _)) trivial)
  have run := run.next (.of (.request () _ _ _ (by rfl) (.succeed _ _)) trivial)
  have run := run.next (.of (.pick Git.demoRepo.name [] rfl rfl rfl) trivial)
  have run := run.next (.of (.evict _ _ _ rfl (.evictLock _ _ rfl)) trivial)
  have run := run.next (.of (.evict _ _ _ rfl (.evictPresent _ _ rfl)) trivial)
  have run := run.next (.of (.evict _ _ _ rfl (.clear _ _ none)) trivial)
  have run := run.next (.of (.evict _ _ _ rfl (.vacate _ _ _ rfl)) trivial)
  refine ⟨_, run, ?_⟩
  intro served
  have head := served.mirror () Git.demoRepo.toRepoRef rfl
  exact absurd head (by decide)

end GitCacheProxy.System
