import GitCacheProxy.Git.Freshness
import GitCacheProxy.Git.Layout

/-!
# What an eviction leaves alone

The lock of a repository excludes evictions of that repository only.  Work on
another one goes on under another lock, so it is safe from an eviction exactly
when the two directories do not meet: when neither name is a component-wise
prefix of the other.
-/

namespace GitCacheProxy.Git

open Repo FileTree TransitionSystem

universe u

variable {upstreamBase : Text} {root : Path} {Task : Type u}

/-- The directory that a task evicts. -/
def Stage.evictsFrom : Stage → Option Path
  | evictQueued _ dir | evictLocked _ dir | clearing _ dir | vacating _ dir | vacated _ dir
  | sweeping dir => some dir
  | _ => none

/-- Everything at and below `dir` is as it was. -/
def Untouched (before after : Disk) (dir : Path) : Prop :=
  ∀ rest, after.get? (dir ++ rest) = before.get? (dir ++ rest)

/-- Once both mirrors are there, no action of an eviction of `a` touches that of `b`, whoever
works on it. -/
def Isolated (Task : Type u) [DecidableEq Task] (fetchTtl : ℕ) (allowed : RepoRef → Prop)
    (a b : RepoRef) : Prop :=
  ∀ both state : State Task, Reachable (Starts allowed) (Step fetchTtl allowed) both →
    hasHead both.shared.disk a.cacheDir = true → hasHead both.shared.disk b.cacheDir = true →
    Reachable (· = both) (Step fetchTtl allowed) state →
    ∀ task effect shared stage, (state.tasks task).evictsFrom = some a.cacheDir →
      Act fetchTtl allowed task state.shared (state.tasks task) effect shared stage →
        Untouched state.shared.disk shared.disk b.cacheDir ∧
          hasHead shared.disk b.cacheDir = hasHead state.shared.disk b.cacheDir

/-! ## Directories that do not meet -/

theorem not_above_append {path dir : Path} (notAbove : ¬path <+: dir) (notBelow : ¬dir <+: path)
    (rest : Path) : ¬path <+: dir ++ rest := by
  intro above
  rcases List.prefix_or_prefix_of_prefix above (List.prefix_append dir rest) with inside | outside
  · exact notAbove inside
  · exact notBelow outside

theorem not_append_above {path dir : Path} (notBelow : ¬dir <+: path) (rest : Path) :
    ¬dir ++ rest <+: path := fun below => notBelow ((List.prefix_append dir rest).trans below)

/-- A trash directory is inside of a mirror only if its own mirror is. -/
theorem not_above_trash (a b : Resolved upstreamBase root)
    (unnested : ¬b.cacheDir <+: a.cacheDir) : ¬b.cacheDir <+: trashDir a.cacheDir := by
  rcases pushSuffix_root root a.name evictingSuffix with ⟨init, last, split, _, marked⟩
  intro above
  have outside := (separate_of_resolved a b).outsideTrash
  rw [trashDir, (cacheDir_eq a).2, marked, ← List.append_assoc] at above outside
  rcases List.prefix_concat_iff.mp above with same | inside
  · exact outside (by rw [same])
  · apply unnested
    rw [(cacheDir_eq a).2, split, ← List.append_assoc]
    exact inside.trans (List.prefix_append _ _)

theorem untouched_of_evicts {fetchTtl : ℕ} {allowed : RepoRef → Prop} {task : Task}
    {shared shared' : Shared Task} {stage stage' : Stage} {effect : Effect}
    (taken : Act fetchTtl allowed task shared stage effect shared' stage')
    (a b : Resolved upstreamBase root) (evicts : stage.evictsFrom = some a.cacheDir)
    (notAbove : ¬a.cacheDir <+: b.cacheDir) (notBelow : ¬b.cacheDir <+: a.cacheDir) :
    Untouched shared.disk shared'.disk b.cacheDir := by
  intro rest
  have mirror := not_above_append notAbove notBelow rest
  have beside := not_above_trash a b notBelow
  have trash := not_above_append (separate_of_resolved a b).outsideTrash beside rest
  have notTrash := not_append_above beside rest
  cases taken with
  | clear name dir failure =>
      cases evicts
      exact Act.get?_discard_of_apart failure (Act.pushSuffix_ne_nil _ _) trash notTrash
  | vacate name dir disk renamed =>
      cases evicts
      rw [Tree.get?_rename renamed, if_neg trash, if_neg mirror]
  | sweep dir failure =>
      cases evicts
      exact Act.get?_discard_of_apart failure (Act.pushSuffix_ne_nil _ _) trash notTrash
  | evictLock name dir free => rfl
  | evictAbsent name dir noHead => rfl
  | evictPresent name dir head => rfl
  | notVacated name dir => rfl
  | unlock name dir => rfl
  | _ => cases evicts

/-! ## Directories that do -/

/-- A repository as `resolve` returns it. -/
def Accepted (upstreamBase : Text) (root : Path) (repo : RepoRef) : Prop :=
  resolve repo.name upstreamBase root = .ok repo

/-- A server that starts with what an earlier run left on `disk`. -/
def restarted (root : Path) (disk : Disk) : State Task where
  shared := {
    clock := 0
    disk := disk
    index := .new [] [] 0
    owner := fun _ => none
    last := fun _ => none
    pulled := fun _ => none
    content := fun name =>
      if hasHead disk (root ++ name.splitOn '/') then some fun _ => 0 else none }
  tasks := fun _ => .idle

theorem starts_restarted (upstreamBase : Text) (root : Path) (disk : Disk) :
    Starts (Accepted upstreamBase root) (restarted root disk : State Task) := by
  refine ⟨fun _ => rfl, fun _ => rfl, fun _ => rfl, fun _ => rfl, ?_⟩
  intro repo accepted
  have dir := congrArg RepoRef.cacheDir (resolve_eq_ok_iff.mp accepted).2
  simp only at dir
  simp only [restarted, ← dir]
  split <;> simp_all

/-- Nothing but a full trash directory is in the way of a rename. -/
theorem exists_vacated {disk : Disk} (a : Resolved upstreamBase root)
    (head : hasHead disk a.cacheDir = true) (noTrash : disk.get? (trashDir a.cacheDir) = none) :
    ∃ after, disk.rename a.cacheDir (trashDir a.cacheDir) = some after := by
  have isDir : disk.get? a.cacheDir = some .dir := Tree.get?_of_child (Act.hasHead_iff.mp head)
  have parentDir : disk.get? (trashDir a.cacheDir).dropLast = some .dir := by
    rw [trashDir, pushSuffix, List.dropLast_concat]
    apply Tree.get?_of_child
    rw [List.dropLast_concat_getLast a.cacheDir_ne_nil, Tree.Exists, isDir]
    simp
  have notInside : ¬a.cacheDir <+: trashDir a.cacheDir := by
    rintro ⟨more, split⟩
    have lengths := congrArg List.length split
    have notEmpty := List.length_pos_iff.mpr a.cacheDir_ne_nil
    simp only [trashDir, pushSuffix, List.length_append, List.length_dropLast,
      List.length_singleton] at lengths
    have last : more = [] := List.length_eq_zero_iff.mp (by omega)
    rw [last, List.append_nil] at split
    exact (separate_of_resolved a a).outsideTrash (by rw [← split])
  apply Tree.rename_isSome isDir a.cacheDir_ne_nil (Act.pushSuffix_ne_nil _ _) notInside parentDir
  rw [← trashDir, Tree.occupied, noTrash]

section Run

variable [DecidableEq Task] {fetchTtl : ℕ} {allowed : RepoRef → Prop}

theorem act_again {initial : State Task → Prop} {shared shared' : Shared Task}
    {tasks : Task → Stage} {task : Task} {stage stage' : Stage} {effect : Effect}
    (reached : Reachable initial (Step fetchTtl allowed)
      ⟨shared, Function.update tasks task stage⟩)
    (taken : Act fetchTtl allowed task shared stage effect shared' stage') :
    Reachable initial (Step fetchTtl allowed) ⟨shared', Function.update tasks task stage'⟩ := by
  have step : Step fetchTtl allowed ⟨shared, Function.update tasks task stage⟩
      ⟨shared', Function.update (Function.update tasks task stage) task stage'⟩ :=
    .act task effect shared' stage' (by simpa using taken)
  rw [Function.update_idem] at step
  exact reached.next step

/-- An eviction gets as far as the rename. -/
theorem reaches_vacating {initial : State Task → Prop} {shared : Shared Task}
    {tasks : Task → Stage} (reached : Reachable initial (Step fetchTtl allowed) ⟨shared, tasks⟩)
    (task : Task) {repo : RepoRef} (known : allowed repo) (idle : tasks task = .idle)
    (free : shared.owner repo.name = none) (head : hasHead shared.disk repo.cacheDir = true) :
    ∃ shared' : Shared Task,
      shared'.disk = GitCache.discard shared.disk (trashDir repo.cacheDir) none ∧
        Reachable initial (Step fetchTtl allowed)
          ⟨shared', Function.update tasks task (.vacating repo.name repo.cacheDir)⟩ := by
  have begun : Reachable initial (Step fetchTtl allowed)
      ⟨shared, Function.update tasks task (.evictQueued repo.name repo.cacheDir)⟩ := by
    apply reached.next
    apply Step.act task .quiet
    simp only [idle]
    exact .evict repo known
  have locked := act_again begun (.evictLock _ _ free)
  have found := act_again locked (.evictPresent _ _ head)
  have cleared := act_again found (.clear _ _ none)
  exact ⟨_, rfl, cleared⟩

/-- The rename takes away what is below both directories. -/
theorem not_isolated [Inhabited Task] {a b : Resolved upstreamBase root} {disk : Disk}
    {rest : Path} (headA : hasHead disk a.cacheDir = true) (headB : hasHead disk b.cacheDir = true)
    (noTrash : disk.get? (trashDir a.cacheDir) = none)
    (inside : a.cacheDir <+: b.cacheDir ++ rest) (present : disk.Exists (b.cacheDir ++ rest)) :
    ¬Isolated Task fetchTtl (Accepted upstreamBase root) a.toRepoRef b.toRepoRef := by
  intro isolated
  let both : State Task := restarted root disk
  have starts : Reachable (Starts (Accepted upstreamBase root))
      (Step fetchTtl (Accepted upstreamBase root)) both := .start (starts_restarted _ _ _)
  have run : Reachable (· = both) (Step fetchTtl (Accepted upstreamBase root)) both := .start rfl
  rcases reaches_vacating run default a.resolved rfl rfl headA with ⟨shared, cleared, vacating⟩
  have same : shared.disk = disk := by
    rw [cleared]
    simp [GitCache.discard, cleanStaging, noTrash]
  rcases exists_vacated a headA noTrash with ⟨after, renamed⟩
  have vacated := isolated both _ starts headA headB vacating default
    (.vacated a.name a.cacheDir) _ (.vacated a.name a.cacheDir)
    (by simp [Stage.evictsFrom]) (by
      simp only [Function.update_self]
      exact .vacate _ _ after (same ▸ renamed))
  have untouched := vacated.1 rest
  rw [same] at untouched
  have notTrash : ¬trashDir a.cacheDir <+: b.cacheDir ++ rest := by
    rintro ⟨more, split⟩
    rw [← split] at present
    exact present (Tree.get?_eq_none_of_below noTrash)
  rw [Tree.get?_rename renamed, if_neg notTrash, if_pos inside] at untouched
  exact present untouched.symm

end Run

/-! Two mirrors on one disk, nested or not. -/

theorem get?_bareMirror (path : Path) :
    bareMirror.get? path =
      if path = [] then some .dir else if path = [headFile] then some (.file []) else none := by
  have entry := list_lookup_const [[headFile]] (Node.file ([] : Bytes)) path
  simp only [List.mem_singleton] at entry
  by_cases isRoot : path = []
  · simp [isRoot]
  · rw [if_neg isRoot, ← entry, Tree.get?, lookup, if_neg isRoot]
    rfl

/-- A disk with two mirrors; `inner` was cloned last. -/
def mirrors (outer inner : Path) : Disk :=
  ((Tree.empty : Disk).graft outer bareMirror).graft inner bareMirror

theorem hasHead_mirrors {outer inner : Path} (outerNotRoot : outer ≠ [])
    (innerNotRoot : inner ≠ []) (nested : outer <+: inner) :
    hasHead (mirrors outer inner) outer = true ∧ hasHead (mirrors outer inner) inner = true := by
  have headOf (dir : Path) : dir <+: dir ++ [headFile] := List.prefix_append _ _
  constructor
  · rw [Act.hasHead_iff, Tree.Exists, mirrors, Tree.get?_graft innerNotRoot]
    split
    · rename_i below
      rcases List.prefix_concat_iff.mp below with whole | short
      · simp [whole]
      · rw [nested.eq_of_length_le short.length_le]
        simp [get?_bareMirror]
    split
    · simp
    · rw [Tree.get?_graft outerNotRoot, if_pos (headOf outer)]
      simp [get?_bareMirror]
  · rw [Act.hasHead_iff, Tree.Exists, mirrors, Tree.get?_graft innerNotRoot, if_pos (headOf inner)]
    simp [get?_bareMirror]

theorem get?_mirrors_eq_none {outer inner path : Path} (outerNotRoot : outer ≠ [])
    (innerNotRoot : inner ≠ []) (notOuter : ¬path <+: outer ++ [headFile])
    (notInner : ¬path <+: inner ++ [headFile]) : (mirrors outer inner).get? path = none := by
  have notRoot : path ≠ [] := by
    rintro rfl
    exact notOuter (List.nil_prefix)
  have empty {dir : Path} (below : dir <+: path) (notAbove : ¬path <+: dir ++ [headFile]) :
      bareMirror.get? (path.drop dir.length) = none := by
    rcases below with ⟨rest, rfl⟩
    rw [List.drop_left, get?_bareMirror, if_neg, if_neg]
    · rintro rfl
      exact notAbove (List.prefix_refl _)
    · rintro rfl
      simp at notAbove
  have above {dir : Path} (notAbove : ¬path <+: dir ++ [headFile]) : ¬path <+: dir :=
    fun short => notAbove (short.trans (List.prefix_append _ _))
  rw [mirrors, Tree.get?_graft innerNotRoot]
  split
  · rename_i below
    exact empty below notInner
  rw [if_neg (above notInner), Tree.get?_graft outerNotRoot]
  split
  · rename_i below
    exact empty below notOuter
  · rw [if_neg (above notOuter), Tree.get?_empty, if_neg notRoot]

/-- An eviction leaves another mirror alone, whatever else goes on, exactly if neither directory
lies in the other. -/
theorem isolated_iff [DecidableEq Task] [Inhabited Task] (fetchTtl : ℕ)
    (a b : Resolved upstreamBase root) :
    Isolated Task fetchTtl (Accepted upstreamBase root) a.toRepoRef b.toRepoRef ↔
      ¬a.cacheDir <+: b.cacheDir ∧ ¬b.cacheDir <+: a.cacheDir := by
  have noTrash (outer inner : Resolved upstreamBase root) :
      (mirrors outer.cacheDir inner.cacheDir).get? (trashDir a.cacheDir) = none := by
    have outside (repo : Resolved upstreamBase root) :
        ¬trashDir a.cacheDir <+: repo.cacheDir ++ [headFile] :=
      not_trash_above_head repo.resolved a.resolved
    exact get?_mirrors_eq_none outer.cacheDir_ne_nil inner.cacheDir_ne_nil (outside outer)
      (outside inner)
  constructor
  · intro isolated
    constructor
    · intro nested
      have heads := hasHead_mirrors a.cacheDir_ne_nil b.cacheDir_ne_nil nested
      exact not_isolated heads.1 heads.2 (noTrash a b) (nested.trans (List.prefix_append _ _))
        (Act.hasHead_iff.mp heads.2) isolated
    · intro nested
      have heads := hasHead_mirrors b.cacheDir_ne_nil a.cacheDir_ne_nil nested
      rcases nested with ⟨rest, whole⟩
      have deeper : b.cacheDir ++ (rest ++ [headFile]) = a.cacheDir ++ [headFile] := by
        rw [← List.append_assoc, whole]
      have inside : a.cacheDir <+: b.cacheDir ++ (rest ++ [headFile]) := by
        rw [deeper]
        exact List.prefix_append _ _
      have present : (mirrors b.cacheDir a.cacheDir).Exists
          (b.cacheDir ++ (rest ++ [headFile])) := by
        rw [deeper]
        exact Act.hasHead_iff.mp heads.2
      exact not_isolated heads.2 heads.1 (noTrash b a) inside present isolated
  · rintro ⟨notAbove, notBelow⟩ both state _ _ _ _ task effect shared stage evicts taken
    have untouched := untouched_of_evicts taken a b evicts notAbove notBelow
    refine ⟨untouched, ?_⟩
    rw [Bool.eq_iff_iff, Act.hasHead_iff, Act.hasHead_iff, Tree.Exists, Tree.Exists,
      untouched [headFile]]

/-! An eviction of `team` while `team/app` is being cloned. -/

def upperRepo : Resolved "https://upstream".toList ["cache".toList] where
  name := "team".toList
  upstreamUrl := "https://upstream/team".toList
  cacheDir := ["cache".toList, "team".toList]
  resolved := by rfl

def lowerRepo : Resolved "https://upstream".toList ["cache".toList] where
  name := "team/app".toList
  upstreamUrl := "https://upstream/team/app".toList
  cacheDir := ["cache".toList, "team".toList, "app".toList]
  resolved := by rfl

theorem not_isolated_nested :
    ¬Isolated Bool 60 (Accepted "https://upstream".toList ["cache".toList])
      upperRepo.toRepoRef lowerRepo.toRepoRef := by
  intro isolated
  have starts : Starts (Accepted "https://upstream".toList ["cache".toList]) freshServer := by
    refine ⟨fun _ => rfl, fun _ => rfl, fun _ => rfl, fun _ => rfl, ?_⟩
    intro repo accepted
    rw [(resolve_eq_ok_iff.mp accepted).2]
    simp [freshServer, hasHead, Tree.Exists]
  have run : Reachable (Starts (Accepted "https://upstream".toList ["cache".toList]))
      (Step 60 (Accepted "https://upstream".toList ["cache".toList])) freshServer := .start starts
  have run := run.next (.act true _ _ _ (.arrive upperRepo.toRepoRef true upperRepo.resolved))
  have run := run.next (.act true _ _ _ (.lock _ _ rfl))
  have run := run.next (.act true _ _ _ (.start _ _ _))
  have run := run.next (.act true _ _ _ (.absent _ rfl))
  have run := run.next (.act true _ _ _ (.made _ _ rfl))
  have run := run.next (.act true _ _ _ (.cloneReads _ _))
  have run := run.next (.act true _ _ _ (.cloneWrites _ _ (some bareMirror) (by decide)))
  have run := run.next (.act true _ _ _ (.cloneDone _ _))
  have run := run.next (.act true _ _ _ (.install _ _ _ rfl rfl))
  have run := run.next (.act true _ _ _ (.mark _ _))
  have run := run.next (.act true _ _ _ (.notify _ _))
  have run := run.next (.act true _ _ _ (.stamp _))
  have run := run.next (.act true _ _ _ (.wantsOver _))
  have run := run.next (.act true _ _ _ (.succeed _ _))
  have run := run.next (.act true _ _ _ (.serve _))
  have run := run.next (.act false _ _ _ (.arrive lowerRepo.toRepoRef true lowerRepo.resolved))
  have run := run.next (.act false _ _ _ (.lock _ _ rfl))
  have run := run.next (.act false _ _ _ (.start _ _ _))
  have run := run.next (.act false _ _ _ (.absent _ rfl))
  have run := run.next (.act false _ _ _ (.made _ _ rfl))
  have run := run.next (.act false _ _ _ (.cloneReads _ _))
  have run := run.next (.act false _ _ _ (.cloneWrites _ _ (some bareMirror) (by decide)))
  have run := run.next (.act false _ _ _ (.cloneDone _ _))
  have run := run.next (.act false _ _ _ (.install _ _ _ rfl rfl))
  have evicting := run.cut
  have evicting := evicting.next (.act true _ _ _ (.evict upperRepo.toRepoRef upperRepo.resolved))
  have evicting := evicting.next (.act true _ _ _ (.evictLock _ _ rfl))
  have evicting := evicting.next (.act true _ _ _ (.evictPresent _ _ rfl))
  have evicting := evicting.next (.act true _ _ _ (.clear _ _ none))
  have vacated := isolated _ _ run rfl rfl evicting true _ _ _ rfl (.vacate _ _ _ rfl)
  exact absurd vacated.2 (by decide)

end GitCacheProxy.Git
