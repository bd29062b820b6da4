import GitCacheProxy.Git.Confinement

/-!
# What `ensure_fresh` leaves behind when it fails

A call that fails keeps the stamp of the last pull, the marks of the index and the
mirror (`Undisturbed`).  A fetch works in the mirror itself, so that there the mirror is as
the children have left it.

The staging directory is cleared before each attempt, and again after one that git
reports as failed.  It is not cleared when git cannot be read or waited for, and not when
the mirror cannot be moved into its place; and a call that fails before its first attempt,
or that does not clone, does not look at it.  `Residue` says when one of these happens.
-/

namespace GitCacheProxy.Git

open Repo FileTree

variable {parent : Path} {name : Text} {disk : Disk} {env : Surroundings} {repo : RepoRef}
  {cache late : GitCache} {error : FreshError} {fetchTtl : ℕ} {wantFetch : Bool}

/-! ## The property -/

/-- What is at `path` was there before, or a child that worked there has written it. -/
def LeftBy (git : ℕ → Attempt) (path : Path) (before after : Disk) : Prop :=
  (∀ rest, after.get? (path ++ rest) = before.get? (path ++ rest)) ∨
    ∃ n written, (git n).written = some written ∧
      ∀ rest, after.get? (path ++ rest) = written.get? rest

structure Undisturbed (env : Surroundings) (repo : RepoRef) (cache late : GitCache) : Prop where
  last : late.last = cache.last
  /-- it is touched, as by every request, and no more -/
  index : late.index = (cache.touch repo.name).index
  mirror : LeftBy env.git repo.cacheDir cache.disk late.disk
  noMirror : hasHead cache.disk repo.cacheDir = false →
    ∀ rest, late.disk.get? (repo.cacheDir ++ rest) = cache.disk.get? (repo.cacheDir ++ rest)

/-- A call that fails changes nothing that counts and leaves no staging directory. -/
def AtomicOnError (fetchTtl : ℕ) (env : Surroundings) (repo : RepoRef) (wantFetch : Bool)
    (cache : GitCache) : Prop :=
  ∀ late error, GitCache.ensureFresh fetchTtl env repo wantFetch cache = (late, .error error) →
    Undisturbed env repo cache late ∧ ¬late.disk.Exists (stagingDir repo.cacheDir)

/-- Nothing that is to be removed resists. -/
structure Removable (env : Surroundings) (repo : RepoRef) (disk : Disk) : Prop where
  sweeps : ∀ n, (env.git n).Sweeps
  notFile : disk.isFile (stagingDir repo.cacheDir) = false

/-- The directories above the mirror can be made. -/
structure HasWay (env : Surroundings) (repo : RepoRef) (disk : Disk) : Prop where
  made : (disk.createDirAll repo.cacheDir.dropLast).isSome = true
  steady : env.mkdirFailure = none

/-- The clones that fail and leave a staging directory. -/
inductive CloneResidue (env : Surroundings) (repo : RepoRef) (disk : Disk) : Prop
  | unmade (leftover : disk.Exists (stagingDir repo.cacheDir)) (failure : env.mkdirFailure ≠ none)
  | lost (way : HasWay env repo disk) (m : ℕ) (most : m ≤ maxUpstreamRetries)
      (before : ∀ k < m, (env.git k).Retried) (lost : (env.git m).Lost)
  | uninstalled (way : HasWay env repo disk) (delivers : Delivers env.git)
      (taken : env.renameFails = true ∨ disk.occupied repo.cacheDir = true)

/-- The calls that fail and leave a staging directory. -/
inductive Residue (fetchTtl : ℕ) (env : Surroundings) (repo : RepoRef) (wantFetch : Bool)
    (cache : GitCache) : Prop
  | fetch (present : hasHead cache.disk repo.cacheDir = true)
      (due : (wantFetch && GitCache.isStale fetchTtl env.decided (cache.last repo.name)) = true)
      (leftover : cache.disk.Exists (stagingDir repo.cacheDir)) (undelivered : ¬Delivers env.git)
  | clone (missing : hasHead cache.disk repo.cacheDir = false)
      (residue : CloneResidue env repo cache.disk)

/-! ## Clones -/

section Clone

theorem fields_of_cloneMirror
    (failed : GitCache.cloneMirror env repo cache = (late, .error error)) :
    late.last = cache.last ∧ late.index = cache.index := by
  simp only [GitCache.cloneMirror] at failed
  split at failed
  · cases failed
    exact ⟨rfl, rfl⟩
  split at failed
  · cases failed
    exact ⟨rfl, rfl⟩
  split at failed
  · cases failed
    exact ⟨rfl, rfl⟩
  split at failed
  · cases failed
    exact ⟨rfl, rfl⟩
  · cases failed

/-- A failed clone has not touched the place of the mirror. -/
theorem get?_of_cloneMirror_error (placed : repo.cacheDir = parent ++ [name])
    (failed : GitCache.cloneMirror env repo cache = (late, .error error)) (rest : Path) :
    late.disk.get? (repo.cacheDir ++ rest) = cache.disk.get? (repo.cacheDir ++ rest) := by
  rcases (leftovers_of_cloneMirror placed failed).2 with same | ⟨reached, leftovers⟩
  · rw [same]
  rw [placed] at leftovers ⊢
  have apart : name ++ incomingSuffix ≠ name := (append_ne_self incomingSuffix_ne_nil).symm
  have above := leftovers.above
  rw [List.dropLast_concat] at above
  rw [leftovers.outside, if_neg]
  · rw [List.append_assoc]
    exact not_below_of_above above
  · rw [stagingDir_concat, List.append_assoc]
    exact not_prefix_sibling apart

theorem way_of_leftover (placed : repo.cacheDir = parent ++ [name])
    (leftover : disk.Exists (stagingDir repo.cacheDir)) :
    (disk.createDirAll parent).isSome = true := by
  rw [Option.isSome_iff_exists, Tree.createDirAll_eq_some_iff]
  intro ancestor above
  rw [placed, stagingDir_concat] at leftover
  rcases above with ⟨rest, rfl⟩
  rw [List.append_assoc] at leftover
  have isDir := Tree.get?_of_below (by simp) leftover
  simp [Tree.isFile, isDir]

theorem HasWay.of_made {made : Disk} (placed : repo.cacheDir = parent ++ [name])
    (createdAll : disk.createDirAll parent = some made) (steady : env.mkdirFailure = none) :
    HasWay env repo disk := by
  refine ⟨?_, steady⟩
  rw [placed, List.dropLast_concat, createdAll]
  rfl

/-- The attempt that a clone with a residue ends with, as seen from the attempt `m` that it ends
with in any case. -/
theorem CloneResidue.lost_or_delivers {m : ℕ} (steady : env.mkdirFailure = none)
    (most : m ≤ maxUpstreamRetries) (before : ∀ k < m, (env.git k).Retried)
    (final : (env.git m).Retried → maxUpstreamRetries ≤ m)
    (residue : CloneResidue env repo disk) :
    (env.git m).Lost ∨ (env.git m).Succeeds ∧
      (env.renameFails = true ∨ disk.occupied repo.cacheDir = true) := by
  cases residue with
  | unmade leftover failure => exact absurd steady failure
  | lost way n nMost nBefore lost =>
      left
      rw [last_unique before nBefore most nMost final fun retried => absurd lost
        retried.toEnds.not_lost]
      exact lost
  | uninstalled way delivers taken =>
      rcases delivers with ⟨n, nMost, succeeds, nBefore⟩
      right
      rw [last_unique before nBefore most nMost final fun retried => absurd succeeds
        retried.not_succeeds]
      exact ⟨succeeds, taken⟩

/-- A clone that has got as far as its first attempt. -/
theorem staging_of_cloneMirror_of_made {made : Disk} (placed : repo.cacheDir = parent ++ [name])
    (removable : Removable env repo cache.disk)
    (createdAll : cache.disk.createDirAll parent = some made) (steady : env.mkdirFailure = none) :
    (GitCache.cloneMirror env repo cache).2 ≠ .ok () ∧
        (GitCache.cloneMirror env repo cache).1.disk.Exists (stagingDir repo.cacheDir) ↔
      CloneResidue env repo cache.disk := by
  have way : HasWay env repo cache.disk := .of_made placed createdAll steady
  have notFile : made.isFile (parent ++ [name ++ incomingSuffix]) = false := by
    have free := removable.notFile
    rw [placed, stagingDir_concat] at free
    rw [← free]
    apply Tree.isFile_congr
    rw [Tree.get?_createDirAll createdAll,
      if_neg (not_below_of_above (List.prefix_refl parent))]
  have loop : ∃ m ≤ maxUpstreamRetries, (∀ k < m, (env.git k).Retried) ∧
      LoopResult true env.git (parent ++ [name ++ incomingSuffix]) m
        (runUpstream "clone".toList repo.name (parent ++ [name ++ incomingSuffix]) true env.git
          made) :=
    runUpstream_result (by simp) removable.sweeps fun _ => notFile
  rcases loop with ⟨m, most, before, ended⟩
  simp only [GitCache.cloneMirror, placed, List.dropLast_concat, stagingDir_concat, createdAll,
    steady]
  cases ran : runUpstream "clone".toList repo.name (parent ++ [name ++ incomingSuffix]) true
    env.git made with
  | mk filled result =>
  rw [ran] at ended
  cases ended with
  | failure _ error notSucceeds final left =>
      simp only [ne_eq, reduceCtorEq, not_false_eq_true, true_and, left rfl]
      constructor
      · intro lost
        exact .lost way m most before lost
      · intro residue
        rcases residue.lost_or_delivers steady most before final with lost | ⟨succeeds, _⟩
        · exact lost
        · exact absurd succeeds notSucceeds
  | success _ succeeds isDir =>
      have possible := installs_iff createdAll ran isDir
      have final (retried : (env.git m).Retried) : maxUpstreamRetries ≤ m :=
        absurd succeeds retried.not_succeeds
      have residue_iff : CloneResidue env repo cache.disk ↔
          env.renameFails = true ∨ cache.disk.occupied repo.cacheDir = true := by
        constructor
        · intro residue
          rcases residue.lost_or_delivers steady most before final with lost | ⟨_, taken⟩
          · exact absurd lost succeeds.toEnds.not_lost
          · exact taken
        · exact .uninstalled way ⟨m, most, succeeds, before⟩
      rw [residue_iff, placed]
      cases fails : env.renameFails with
      | true => simp [Tree.Exists, isDir]
      | false =>
          cases renamed : filled.rename (parent ++ [name ++ incomingSuffix]) (parent ++ [name]) with
          | none =>
              simp only [renamed, reduceCtorEq, exists_false, false_iff, Bool.not_eq_false]
                at possible
              simp [Tree.Exists, isDir, possible, renamed]
          | some installed =>
              have free := possible.mp ⟨installed, renamed⟩
              simp [free, renamed]

theorem staging_of_cloneMirror (placed : repo.cacheDir = parent ++ [name])
    (removable : Removable env repo cache.disk) :
    (GitCache.cloneMirror env repo cache).2 ≠ .ok () ∧
        (GitCache.cloneMirror env repo cache).1.disk.Exists (stagingDir repo.cacheDir) ↔
      CloneResidue env repo cache.disk := by
  cases createdAll : cache.disk.createDirAll parent with
  | none =>
      have clean : ¬cache.disk.Exists (stagingDir repo.cacheDir) := by
        intro leftover
        have way := way_of_leftover placed leftover
        rw [createdAll] at way
        cases way
      have noResidue : ¬CloneResidue env repo cache.disk := by
        have noWay : ¬HasWay env repo cache.disk := by
          intro way
          have made := way.made
          rw [placed, List.dropLast_concat, createdAll] at made
          cases made
        rintro (⟨leftover, _⟩ | ⟨way, _⟩ | ⟨way, _⟩)
        · exact clean leftover
        · exact noWay way
        · exact noWay way
      refine iff_of_false ?_ noResidue
      rw [GitCache.cloneMirror, placed, List.dropLast_concat, createdAll, ← placed]
      exact fun both => clean both.2
  | some made =>
  cases steady : env.mkdirFailure with
  | none => exact staging_of_cloneMirror_of_made placed removable createdAll steady
  | some done =>
      have short := List.take_prefix done parent
      have way := Tree.createDirAll_eq_some_iff.mp ⟨made, createdAll⟩
      rcases Tree.createDirAll_eq_some_iff.mpr
        (fun ancestor above => way ancestor (above.trans short)) with ⟨partly, createdSome⟩
      have same : partly.get? (stagingDir repo.cacheDir) =
          cache.disk.get? (stagingDir repo.cacheDir) := by
        rw [Tree.get?_createDirAll createdSome, placed, stagingDir_concat,
          if_neg (not_below_of_above short)]
      have fails : GitCache.cloneMirror env repo cache =
          ({ cache with disk := partly }, .error .createParent) := by
        simp only [GitCache.cloneMirror, placed, List.dropLast_concat, createdAll, steady,
          createdSome, Option.getD_some]
      rw [fails]
      simp only [ne_eq, reduceCtorEq, not_false_eq_true, true_and, Tree.Exists, same]
      constructor
      · intro leftover
        exact .unmade leftover (by simp [steady])
      · rintro (⟨leftover, _⟩ | ⟨⟨_, free⟩, _⟩ | ⟨⟨_, free⟩, _⟩)
        · exact leftover
        · simp [steady] at free
        · simp [steady] at free

end Clone

/-! ## Fetches -/

section Fetch

variable {path : Path} {git : ℕ → Attempt} {operation label : Text} {before after : Disk}

theorem LeftBy.leaves (notRoot : path ≠ []) (left : LeftBy git path before disk) (n : ℕ) :
    LeftBy git path before ((git n).leaves path disk) := by
  unfold Attempt.leaves
  split
  · exact left
  · rename_i written wrote
    refine Or.inr ⟨n, written, wrote, ?_⟩
    intro rest
    rw [Tree.get?_graft notRoot, if_pos (List.prefix_append path rest), List.drop_left]

theorem runChild_fetch (notRoot : path ≠ []) (left : LeftBy git path before disk) (n : ℕ) :
    LeftBy git path before (runChild operation label path false (git n) n disk).1 := by
  have written := left.leaves notRoot n
  unfold runChild
  split
  · exact left
  split
  · exact written
  split
  · exact written
  split
  · exact written
  simp only [cleanIf, Bool.false_eq_true, if_false]
  split
  · exact written
  · exact written

theorem runRounds_fetch (notRoot : path ≠ []) (rounds attempt : ℕ)
    (left : LeftBy git path before disk) :
    LeftBy git path before (runRounds operation label path false git rounds attempt disk).1 := by
  induction rounds generalizing disk attempt with
  | zero => exact left
  | succ rounds ih =>
      have child : LeftBy git path before
          (runRound operation label path false (git attempt) attempt disk).1 :=
        runChild_fetch notRoot left attempt
      rw [runRounds]
      generalize runRound operation label path false (git attempt) attempt disk = run at child
      rcases run with ⟨run, result⟩
      cases result with
      | some result => exact child
      | none => exact ih (attempt + 1) child

/-- A fetch that fails works in the mirror and nowhere else. -/
theorem fetch_error (placed : repo.cacheDir = parent ++ [name])
    (isDir : cache.disk.get? parent = some .dir)
    (failed : GitCache.fetch env repo cache = (late, .error error)) :
    late.last = cache.last ∧ late.index = cache.index ∧
      LeftBy env.git repo.cacheDir cache.disk late.disk ∧
      late.disk.get? (stagingDir repo.cacheDir) = cache.disk.get? (stagingDir repo.cacheDir) := by
  have left : LeftBy env.git (parent ++ [name]) cache.disk
      (runUpstream "fetch".toList repo.name (parent ++ [name]) false env.git cache.disk).1 :=
    runRounds_fetch (by simp) _ _ (Or.inl fun _ => rfl)
  have same := sameOutside_runRounds "fetch".toList repo.name name false env.git
    (maxUpstreamRetries + 1) 0 isDir
  rw [← runUpstream] at same
  have apart : name ≠ name ++ incomingSuffix := append_ne_self incomingSuffix_ne_nil
  simp only [GitCache.fetch, placed] at failed
  generalize runUpstream "fetch".toList repo.name (parent ++ [name]) false env.git cache.disk = run
    at failed left same
  rcases run with ⟨run, result⟩
  cases result with
  | ok _ => cases failed
  | error failure =>
      cases failed
      rw [placed, stagingDir_concat]
      exact ⟨rfl, rfl, left, same _ (not_prefix_sibling apart)⟩

theorem fetch_ok_iff (notRoot : repo.cacheDir ≠ []) (sweeps : ∀ n, (env.git n).Sweeps) :
    (GitCache.fetch env repo cache).2 = .ok () ↔ Delivers env.git := by
  have loop : (runUpstream "fetch".toList repo.name repo.cacheDir false env.git cache.disk).2 =
      .ok () ↔ Delivers env.git :=
    runUpstream_ok_iff notRoot sweeps (by simp)
  rw [← loop, GitCache.fetch]
  generalize runUpstream "fetch".toList repo.name repo.cacheDir false env.git cache.disk = run
  rcases run with ⟨run, result⟩
  cases result with
  | ok _ => simp
  | error failure => simp

end Fetch

/-! ## Requests -/

section Request

theorem ensureFresh_missing_iff (missing : hasHead cache.disk repo.cacheDir = false) :
    GitCache.ensureFresh fetchTtl env repo wantFetch cache = (late, .error error) ↔
      GitCache.cloneMirror env repo (cache.touch repo.name) = (late, .error error) := by
  have absent : hasHead (cache.touch repo.name).disk repo.cacheDir = false := missing
  simp only [GitCache.ensureFresh, absent, Bool.false_eq_true, not_false_eq_true, if_true]
  generalize GitCache.cloneMirror env repo (cache.touch repo.name) = run
  rcases run with ⟨run, result⟩
  cases result with
  | ok _ => simp
  | error failure => simp

theorem ensureFresh_present_iff (present : hasHead cache.disk repo.cacheDir = true) :
    GitCache.ensureFresh fetchTtl env repo wantFetch cache = (late, .error error) ↔
      (wantFetch && GitCache.isStale fetchTtl env.decided (cache.last repo.name)) = true ∧
        GitCache.fetch env repo (cache.touch repo.name) = (late, .error error) := by
  have there : hasHead (cache.touch repo.name).disk repo.cacheDir = true := present
  have stamp : (cache.touch repo.name).last repo.name = cache.last repo.name := rfl
  simp only [GitCache.ensureFresh, there, not_true_eq_false, if_false, stamp]
  cases wantFetch && GitCache.isStale fetchTtl env.decided (cache.last repo.name) with
  | false => simp
  | true =>
      simp only [if_true, true_and]
      generalize GitCache.fetch env repo (cache.touch repo.name) = run
      rcases run with ⟨run, result⟩
      cases result with
      | ok _ => simp
      | error failure => simp

theorem parentDir_of_hasHead (placed : repo.cacheDir = parent ++ [name])
    (present : hasHead disk repo.cacheDir = true) : disk.get? parent = some .dir := by
  have head : disk.Exists (parent ++ ([name] ++ [headFile])) := by
    rw [← List.append_assoc, ← placed]
    exact of_decide_eq_true present
  exact Tree.get?_of_below (by simp) head

theorem kept_of_error (placed : repo.cacheDir = parent ++ [name])
    (failed : GitCache.ensureFresh fetchTtl env repo wantFetch cache = (late, .error error)) :
    Undisturbed env repo cache late := by
  cases head : hasHead cache.disk repo.cacheDir with
  | false =>
      rw [ensureFresh_missing_iff head] at failed
      rcases fields_of_cloneMirror failed with ⟨last, index⟩
      have same := get?_of_cloneMirror_error placed failed
      exact ⟨last, index, Or.inl same, fun _ => same⟩
  | true =>
      rw [ensureFresh_present_iff head] at failed
      have isDir : (cache.touch repo.name).disk.get? parent = some .dir :=
        parentDir_of_hasHead placed head
      rcases fetch_error placed isDir failed.2 with ⟨last, index, mirror, _⟩
      refine ⟨last, index, mirror, ?_⟩
      rw [head]
      exact fun missing => absurd missing (by decide)

theorem staging_of_fetch (placed : repo.cacheDir = parent ++ [name])
    (sweeps : ∀ n, (env.git n).Sweeps) (present : hasHead cache.disk repo.cacheDir = true) :
    (∃ late error, GitCache.fetch env repo cache = (late, .error error) ∧
        late.disk.Exists (stagingDir repo.cacheDir)) ↔
      cache.disk.Exists (stagingDir repo.cacheDir) ∧ ¬Delivers env.git := by
  have isDir := parentDir_of_hasHead placed present
  have notRoot : repo.cacheDir ≠ [] := by simp [placed]
  have fetched : (GitCache.fetch env repo cache).2 = .ok () ↔ Delivers env.git :=
    fetch_ok_iff notRoot sweeps
  rw [← fetched]
  constructor
  · rintro ⟨late, error, failed, left⟩
    rcases fetch_error placed isDir failed with ⟨_, _, _, same⟩
    rw [Tree.Exists, same] at left
    exact ⟨left, by simp [failed]⟩
  · rintro ⟨leftover, undelivered⟩
    cases failed : GitCache.fetch env repo cache with
    | mk late result =>
    rw [failed] at undelivered
    cases result with
    | ok _ => exact absurd rfl undelivered
    | error error =>
        rcases fetch_error placed isDir failed with ⟨_, _, _, same⟩
        refine ⟨late, error, rfl, ?_⟩
        rwa [Tree.Exists, same]

theorem staging_of_clone (placed : repo.cacheDir = parent ++ [name])
    (removable : Removable env repo cache.disk) :
    (∃ late error, GitCache.cloneMirror env repo cache = (late, .error error) ∧
        late.disk.Exists (stagingDir repo.cacheDir)) ↔ CloneResidue env repo cache.disk := by
  rw [← staging_of_cloneMirror placed removable]
  cases GitCache.cloneMirror env repo cache with
  | mk late result =>
  cases result with
  | ok _ => simp
  | error error => simp

theorem staging_of_ensureFresh (placed : repo.cacheDir = parent ++ [name])
    (removable : Removable env repo cache.disk) :
    (∃ late error, GitCache.ensureFresh fetchTtl env repo wantFetch cache = (late, .error error) ∧
        late.disk.Exists (stagingDir repo.cacheDir)) ↔
      Residue fetchTtl env repo wantFetch cache := by
  cases head : hasHead cache.disk repo.cacheDir with
  | false =>
      have clone : (∃ late error, GitCache.cloneMirror env repo (cache.touch repo.name) =
          (late, .error error) ∧ late.disk.Exists (stagingDir repo.cacheDir)) ↔
            CloneResidue env repo cache.disk :=
        staging_of_clone placed removable
      simp only [ensureFresh_missing_iff head]
      rw [clone]
      constructor
      · exact .clone head
      · rintro (⟨present, _⟩ | ⟨_, residue⟩)
        · rw [head] at present
          cases present
        · exact residue
  | true =>
      have fetch : (∃ late error, GitCache.fetch env repo (cache.touch repo.name) =
          (late, .error error) ∧ late.disk.Exists (stagingDir repo.cacheDir)) ↔
            cache.disk.Exists (stagingDir repo.cacheDir) ∧ ¬Delivers env.git :=
        staging_of_fetch placed removable.sweeps head
      simp only [ensureFresh_present_iff head]
      constructor
      · rintro ⟨late, error, ⟨due, failed⟩, left⟩
        rcases fetch.mp ⟨late, error, failed, left⟩ with ⟨leftover, undelivered⟩
        exact .fetch head due leftover undelivered
      · rintro (⟨_, due, leftover, undelivered⟩ | ⟨missing, _⟩)
        · rcases fetch.mpr ⟨leftover, undelivered⟩ with ⟨late, error, failed, left⟩
          exact ⟨late, error, ⟨due, failed⟩, left⟩
        · rw [head] at missing
          cases missing

/-- A failing call is atomic, except for the staging directories that nothing clears. -/
theorem atomicOnError_iff {upstreamBase : Text} {root : Path} (fetchTtl : ℕ)
    (env : Surroundings) (repo : Resolved upstreamBase root) (wantFetch : Bool) (cache : GitCache)
    (removable : Removable env repo.toRepoRef cache.disk) :
    AtomicOnError fetchTtl env repo.toRepoRef wantFetch cache ↔
      ¬Residue fetchTtl env repo.toRepoRef wantFetch cache := by
  have placed := (List.dropLast_concat_getLast repo.cacheDir_ne_nil).symm
  rw [← staging_of_ensureFresh placed removable]
  constructor
  · rintro atomic ⟨late, error, failed, left⟩
    exact (atomic late error failed).2 left
  · intro clean late error failed
    exact ⟨kept_of_error placed failed, fun left => clean ⟨late, error, failed, left⟩⟩

end Request

/-! A clone of `team` that git gives up, and one that succeeds where the mirror of `team/app` is in
the place of the mirror of `team`. -/

theorem resolve_team : resolve "team".toList "https://upstream".toList ["cache".toList] =
    .ok ⟨"team".toList, "https://upstream/team".toList, ["cache".toList, "team".toList]⟩ := rfl

def teamRepo : Resolved "https://upstream".toList ["cache".toList] where
  name := "team".toList
  upstreamUrl := "https://upstream/team".toList
  cacheDir := ["cache".toList, "team".toList]
  resolved := resolve_team

def gaveUp : ExitStatus := ⟨some 128⟩

/-- A git that gives up, with a part of the repository in its directory. -/
def abandoned : Attempt := { smooth with status := gaveUp, complete := fun _ => rfl }

def appCached : GitCache where
  disk :=
    let app := ["cache".toList, "team".toList, "app".toList]
    ((Tree.empty.createDirAll app).bind (·.writeFile (app ++ [headFile]) [])).getD .empty
  last := fun _ => none
  index := none

theorem atomicOnError_abandoned :
    Removable (calm abandoned) teamRepo.toRepoRef nothingCached.disk ∧
      (GitCache.ensureFresh 60 (calm abandoned) teamRepo.toRepoRef true nothingCached).2 =
        .error (.upstream (.failed "clone".toList teamRepo.name 1 none gaveUp)) ∧
      AtomicOnError 60 (calm abandoned) teamRepo.toRepoRef true nothingCached := by
  have removable : Removable (calm abandoned) teamRepo.toRepoRef nothingCached.disk :=
    ⟨fun _ => ⟨rfl, rfl⟩, by decide⟩
  have clean := atomicOnError_iff 60 (calm abandoned) teamRepo true nothingCached removable
  refine ⟨removable, by decide +kernel, clean.mpr ?_⟩
  rintro (⟨present, _⟩ | ⟨_, ⟨_, failure⟩ | ⟨_, m, _, _, lost⟩ | ⟨_, _, fails | taken⟩⟩)
  · revert present
    decide
  · exact failure rfl
  · rcases lost.unwatched with undrained | unwaited
    · cases undrained
    · cases unwaited
  · cases fails
  · revert taken
    decide

/-- The finished clone of `team` cannot be moved into its place, and stays. -/
theorem clone_left_beside_app : Removable (calm smooth) teamRepo.toRepoRef appCached.disk ∧
    ¬AtomicOnError 60 (calm smooth) teamRepo.toRepoRef true appCached := by
  have placed : teamRepo.cacheDir = ["cache".toList] ++ ["team".toList] := rfl
  have removable : Removable (calm smooth) teamRepo.toRepoRef appCached.disk :=
    ⟨steady_smooth.sweeps, by decide⟩
  have way : HasWay (calm smooth) teamRepo.toRepoRef appCached.disk := ⟨by decide, rfl⟩
  have residue : Residue 60 (calm smooth) teamRepo.toRepoRef true appCached :=
    .clone (by decide) (.uninstalled way delivers_smooth (Or.inr (by decide)))
  rcases (staging_of_ensureFresh placed removable).mpr residue with ⟨late, error, failed, left⟩
  exact ⟨removable, fun atomic => (atomic late error failed).2 left⟩

end GitCacheProxy.Git
