import GitCacheProxy.Git.FailedClone

/-!
# What an operation on a mirror can change, and when a clone succeeds

An operation works in its mirror, its staging directory and its trash.  Outside
of these it makes the directories on the way, and nothing else (`Confined`).

A clone succeeds exactly when the upstream delivers the repository within the
attempts that the retry policy grants (`Delivers`), no regular file takes the
place of the staging directory, and there is room for the mirror.
-/

namespace GitCacheProxy.Git

open Repo FileTree

variable {parent path : Path} {name child : Text} {disk after : Disk}

/-! ## Confinement -/

/-- The mirror `name`, its staging directory and its trash. -/
def Own (name child : Text) : Prop :=
  child = name ∨ child = name ++ incomingSuffix ∨ child = name ++ evictingSuffix

/-- Outside of what belongs to the mirror, there are at most new directories on the way to it. -/
def Confined (parent : Path) (name : Text) (disk after : Disk) : Prop :=
  ∀ path, (∀ child, Own name child → ¬parent ++ [child] <+: path) →
    after.get? path = disk.get? path ∨ path <+: parent ∧ after.get? path = some .dir

namespace Confined

theorem refl (disk : Disk) : Confined parent name disk disk := fun _ _ => Or.inl rfl

theorem trans {between : Disk} (first : Confined parent name disk between)
    (second : Confined parent name between after) : Confined parent name disk after := by
  intro path outside
  rcases second path outside with same | made
  · rw [same]
    exact first path outside
  · exact Or.inr made

theorem createDirAll (above : path <+: parent) (made : disk.createDirAll path = some after) :
    Confined parent name disk after := by
  intro target _
  rw [Tree.get?_createDirAll made]
  split
  · rename_i onTheWay
    exact Or.inr ⟨onTheWay.trans above, rfl⟩
  · exact Or.inl rfl

theorem replace (own : Own name child) (left : Option Disk) :
    Confined parent name disk (disk.replace (parent ++ [child]) left) := by
  intro target outside
  have notRoot : parent ++ [child] ≠ [] := by simp
  cases left with
  | none =>
      left
      rw [Tree.replace, Tree.get?_remove notRoot, if_neg (outside child own)]
  | some sub =>
      rw [Tree.replace, Tree.get?_graft notRoot, if_neg (outside child own)]
      split
      · rename_i above
        rcases List.prefix_concat_iff.mp above with same | above
        · exact absurd (same ▸ List.prefix_refl _) (outside child own)
        · exact Or.inr ⟨above, rfl⟩
      · exact Or.inl rfl

theorem rename {source target : Text} (ownSource : Own name source) (ownTarget : Own name target)
    (renamed : disk.rename (parent ++ [source]) (parent ++ [target]) = some after) :
    Confined parent name disk after := by
  intro path outside
  rw [Tree.get?_rename renamed, if_neg (outside target ownTarget),
    if_neg (outside source ownSource)]
  exact Or.inl rfl

theorem runRounds (own : Own name child) (operation repo : Text) (staging : Bool)
    (git : ℕ → Attempt) (rounds attempt : ℕ) :
    Confined parent name disk
      (Git.runRounds operation repo (parent ++ [child]) staging git rounds attempt disk).1 :=
  runRounds_preserves operation repo staging refl (fun _ _ _ => trans)
    (fun _ left => replace own left) git rounds attempt

section Operations

variable {env : Surroundings} {repo : RepoRef} {cache : GitCache} {made : Disk} {fetchTtl : ℕ}

theorem own_mirror : Own name name := Or.inl rfl

theorem own_staging : Own name (name ++ incomingSuffix) := Or.inr (Or.inl rfl)

theorem own_trash : Own name (name ++ evictingSuffix) := Or.inr (Or.inr rfl)

/-- Once the directories on the way are there, a clone touches only its own. -/
theorem cloneMirror_of_made (placed : repo.cacheDir = parent ++ [name])
    (steady : env.mkdirFailure = none) (createdAll : cache.disk.createDirAll parent = some made) :
    Confined parent name made (GitCache.cloneMirror env repo cache).1.disk := by
  have ran : Confined parent name made (runUpstream "clone".toList repo.name
      (parent ++ [name ++ incomingSuffix]) true env.git made).1 :=
    runRounds own_staging _ _ _ _ _ _
  simp only [GitCache.cloneMirror, placed, List.dropLast_concat, stagingDir_concat, createdAll,
    steady]
  generalize runUpstream "clone".toList repo.name (parent ++ [name ++ incomingSuffix]) true
    env.git made = run at ran
  rcases run with ⟨run, result⟩
  cases result with
  | error error => exact ran
  | ok _ =>
      simp only
      split
      · exact ran
      · rename_i installed renamed
        rw [Option.ite_none_left_eq_some] at renamed
        exact ran.trans (rename own_staging own_mirror renamed.2)

theorem cloneMirror (placed : repo.cacheDir = parent ++ [name])
    (steady : env.mkdirFailure = none) :
    Confined parent name cache.disk (GitCache.cloneMirror env repo cache).1.disk := by
  cases createdAll : cache.disk.createDirAll parent with
  | none =>
      simp only [GitCache.cloneMirror, placed, List.dropLast_concat, createdAll]
      exact refl _
  | some made =>
      have onTheWay : Confined parent name cache.disk made :=
        createDirAll (List.prefix_refl _) createdAll
      exact onTheWay.trans (cloneMirror_of_made placed steady createdAll)

theorem fetch (placed : repo.cacheDir = parent ++ [name]) :
    Confined parent name cache.disk (GitCache.fetch env repo cache).1.disk := by
  have ran : Confined parent name cache.disk (runUpstream "fetch".toList repo.name
      (parent ++ [name]) false env.git cache.disk).1 :=
    runRounds own_mirror _ _ _ _ _ _
  simp only [GitCache.fetch, placed]
  generalize runUpstream "fetch".toList repo.name (parent ++ [name]) false env.git cache.disk =
    run at ran
  rcases run with ⟨run, result⟩
  cases result with
  | error error => exact ran
  | ok _ => exact ran

theorem ensureWantedOids (placed : repo.cacheDir = parent ++ [name]) :
    Confined parent name cache.disk (GitCache.ensureWantedOids env repo cache).disk := by
  unfold GitCache.ensureWantedOids
  split
  · exact refl _
  · rename_i mirror _
    rw [placed]
    exact replace own_mirror (some mirror)

theorem ensureFresh_of_missing (placed : repo.cacheDir = parent ++ [name])
    (missing : hasHead cache.disk repo.cacheDir = false) (wantFetch : Bool) :
    Confined parent name (GitCache.cloneMirror env repo (cache.touch repo.name)).1.disk
      (GitCache.ensureFresh fetchTtl env repo wantFetch cache).1.disk := by
  have absent : hasHead (cache.touch repo.name).disk repo.cacheDir = false := missing
  simp only [GitCache.ensureFresh, absent, Bool.false_eq_true, not_false_eq_true, if_true]
  generalize GitCache.cloneMirror env repo (cache.touch repo.name) = run
  rcases run with ⟨run, result⟩
  cases result with
  | error error => exact refl _
  | ok _ => exact ensureWantedOids placed

theorem ensureFresh (placed : repo.cacheDir = parent ++ [name]) (steady : env.mkdirFailure = none)
    (wantFetch : Bool) :
    Confined parent name cache.disk
      (GitCache.ensureFresh fetchTtl env repo wantFetch cache).1.disk := by
  have sameDisk : (cache.touch repo.name).disk = cache.disk := rfl
  cases head : hasHead cache.disk repo.cacheDir with
  | false =>
      have cloned : Confined parent name cache.disk
          (GitCache.cloneMirror env repo (cache.touch repo.name)).1.disk :=
        cloneMirror placed steady
      exact cloned.trans (ensureFresh_of_missing placed head wantFetch)
  | true =>
      have present : hasHead (cache.touch repo.name).disk repo.cacheDir = true := head
      simp only [GitCache.ensureFresh, present, not_true_eq_false, if_false]
      split
      · have fetched : Confined parent name cache.disk
            (GitCache.fetch env repo (cache.touch repo.name)).1.disk :=
          fetch placed
        generalize GitCache.fetch env repo (cache.touch repo.name) = run at fetched
        rcases run with ⟨run, result⟩
        cases result with
        | error error => exact fetched
        | ok _ =>
            apply fetched.trans
            exact ensureWantedOids placed
      · exact ensureWantedOids placed

theorem discard (own : Own name child) (failure : Option Disk) :
    Confined parent name disk (GitCache.discard disk (parent ++ [child]) failure) :=
  cleanStaging_preserves refl (fun _ left => replace own left) failure

theorem evict (placed : path = parent ++ [name]) (before after : Option Disk)
    (renameFails : Bool) : Confined parent name cache.disk
      (GitCache.evict before after renameFails path cache).1.disk := by
  subst placed
  unfold GitCache.evict
  split
  · exact refl _
  have cleared : Confined parent name cache.disk
      (GitCache.discard cache.disk (parent ++ [name ++ evictingSuffix]) before) :=
    discard own_trash before
  simp only [trashDir_concat]
  split
  · exact cleared
  · rename_i vacated renamed
    rw [Option.ite_none_left_eq_some] at renamed
    exact (cleared.trans (rename own_mirror own_trash renamed.2)).trans (discard own_trash after)

end Operations

end Confined

/-! ## When a clone succeeds -/

section Success

variable {env : Surroundings} {repo : RepoRef} {cache : GitCache} {made : Disk}

/-- Where the directories on the way can be made, a clone needs a repository and room for it. -/
theorem cloneMirror_ok_iff (placed : repo.cacheDir = parent ++ [name]) (steady : env.Steady)
    (createdAll : cache.disk.createDirAll parent = some made) :
    (GitCache.cloneMirror env repo cache).2 = .ok () ↔
      Delivers env.git ∧ cache.disk.isFile (stagingDir (parent ++ [name])) = false ∧
        cache.disk.occupied (parent ++ [name]) = false := by
  have sameFile : made.isFile (parent ++ [name ++ incomingSuffix]) =
      cache.disk.isFile (stagingDir (parent ++ [name])) := by
    rw [stagingDir_concat]
    apply Tree.isFile_congr
    rw [Tree.get?_createDirAll createdAll,
      if_neg (not_below_of_above (List.prefix_refl parent))]
  constructor
  · intro cloned
    have ran : (runUpstream "clone".toList repo.name (parent ++ [name ++ incomingSuffix]) true
        env.git made).2 = .ok () := by
      simp only [GitCache.cloneMirror, placed, List.dropLast_concat, stagingDir_concat,
        createdAll, steady.mkdir] at cloned
      generalize runUpstream "clone".toList repo.name (parent ++ [name ++ incomingSuffix]) true
        env.git made = run at cloned ⊢
      rcases run with ⟨filled, result⟩
      cases result with
      | error error => cases cloned
      | ok _ => rfl
    have notFile : made.isFile (parent ++ [name ++ incomingSuffix]) = false := by
      by_contra file
      rw [Bool.not_eq_false] at file
      rw [runUpstream_of_file "clone".toList repo.name env.git file] at ran
      cases ran
    have delivers := (runUpstream_ok_iff (by simp) steady.sweeps fun _ => notFile).mp ran
    rw [sameFile] at notFile
    rw [cloneMirror_of_delivers cache placed steady createdAll notFile delivers] at cloned
    refine ⟨delivers, notFile, ?_⟩
    by_contra taken
    rw [Bool.not_eq_false] at taken
    rw [taken] at cloned
    cases cloned
  · rintro ⟨delivers, notFile, free⟩
    rw [cloneMirror_of_delivers cache placed steady createdAll notFile delivers, free]
    rfl

theorem get?_of_cloneMirror (placed : repo.cacheDir = parent ++ [name]) (steady : env.Steady)
    (cloned : (GitCache.cloneMirror env repo cache).2 = .ok ()) :
    (GitCache.cloneMirror env repo cache).1.disk.get? (parent ++ [name]) = some .dir := by
  simp only [GitCache.cloneMirror, placed, List.dropLast_concat, stagingDir_concat, steady.mkdir,
    steady.rename, Bool.false_eq_true, if_false] at cloned ⊢
  cases createdAll : cache.disk.createDirAll parent with
  | none => simp [createdAll] at cloned
  | some made =>
  simp only [createdAll] at cloned ⊢
  have notFile : made.isFile (parent ++ [name ++ incomingSuffix]) = false := by
    by_contra file
    rw [Bool.not_eq_false] at file
    rw [runUpstream_of_file "clone".toList repo.name env.git file] at cloned
    cases cloned
  cases ran : runUpstream "clone".toList repo.name (parent ++ [name ++ incomingSuffix]) true
    env.git made with
  | mk filled result =>
  rw [ran] at cloned
  cases result with
  | error error => cases cloned
  | ok _ =>
  have filledDir := get?_of_runUpstream (by simp) steady.sweeps (fun _ => notFile) ran
  simp only at cloned ⊢
  cases renamed : filled.rename (parent ++ [name ++ incomingSuffix]) (parent ++ [name]) with
  | none => simp [renamed] at cloned
  | some installed =>
      have moved := Tree.get?_rename_sibling renamed name []
      rw [if_pos rfl, filledDir] at moved
      exact moved

/-- Fetching wanted objects leaves the mirror where it is. -/
theorem get?_of_ensureWantedOids (notRoot : repo.cacheDir ≠ [])
    (isDir : cache.disk.get? repo.cacheDir = some .dir) :
    (GitCache.ensureWantedOids env repo cache).disk.get? repo.cacheDir = some .dir := by
  unfold GitCache.ensureWantedOids
  split
  · exact isDir
  · simp [GitCache.markChanged, Tree.get?_graft notRoot]

end Success

end GitCacheProxy.Git
