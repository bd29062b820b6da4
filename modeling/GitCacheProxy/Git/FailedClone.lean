import GitCacheProxy.Git.Isolation
import GitCacheProxy.Git.Retry

/-!
# Which repositories a failed clone harms

A failed clone of `b` leaves the directories above its mirror, and its own
staging directory in whatever state (`Leftovers`).  Names are accepted by
`resolve` whatever their components, so these directories may lie where the
mirror of `a` belongs, and even be taken for its `HEAD`.  `Encroaches` says
exactly when that makes a difference to `a`.
-/

namespace GitCacheProxy.Git

open Repo FileTree

variable {disk after made : Disk} {path base parent : Path} {child : Text}

/-! ## What a failed clone leaves -/

/-- Nothing outside of `base` has changed. -/
def SameOutside (base : Path) (disk after : Disk) : Prop :=
  ∀ path, ¬base <+: path → after.get? path = disk.get? path

theorem SameOutside.trans {between : Disk} (first : SameOutside base disk between)
    (second : SameOutside base between after) : SameOutside base disk after := by
  intro path outside
  rw [second path outside, first path outside]

theorem SameOutside.parentDir (same : SameOutside (parent ++ [child]) disk after)
    (isDir : disk.get? parent = some .dir) : after.get? parent = some .dir := by
  rw [same parent (not_below_of_above (List.prefix_refl parent)), isDir]

theorem sameOutside_replace (child : Text) (isDir : disk.get? parent = some .dir) (left : Option Disk) :
    SameOutside (parent ++ [child]) disk (disk.replace (parent ++ [child]) left) := by
  intro path outside
  have notRoot : parent ++ [child] ≠ [] := by simp
  cases left with
  | none => simp [Tree.replace, Tree.get?_remove notRoot, outside]
  | some sub =>
      rw [Tree.replace, Tree.get?_graft notRoot, if_neg outside]
      split
      · rename_i above
        rcases List.prefix_concat_iff.mp above with rfl | above
        · exact absurd (List.prefix_refl _) outside
        · rcases above with ⟨rest, rfl⟩
          by_cases self : rest = []
          · rw [self, List.append_nil] at isDir
            exact isDir.symm
          · exact (Tree.get?_of_below self (by simp [Tree.Exists, isDir])).symm
      · rfl

theorem sameOutside_runRounds (operation repo child : Text) (staging : Bool)
    (git : ℕ → Attempt) (rounds attempt : ℕ) (isDir : disk.get? parent = some .dir) :
    SameOutside (parent ++ [child]) disk
      (runRounds operation repo (parent ++ [child]) staging git rounds attempt disk).1 := by
  apply runRounds_preserves (R := fun disk after : Disk => disk.get? parent = some .dir →
    SameOutside (parent ++ [child]) disk after) operation repo staging _ _ _ git rounds attempt
    isDir
  · exact fun _ _ _ _ => rfl
  · intro first second third before after isDir
    have same := before isDir
    exact same.trans (after (same.parentDir isDir))
  · intro disk left isDir
    exact sameOutside_replace child isDir left

/-- What a failed clone of the mirror `dir` has made of `disk`: the directories as far as
`reached`, and whatever is in its staging directory. -/
structure Leftovers (dir reached : Path) (disk after : Disk) : Prop where
  way : ∀ ancestor, ancestor <+: dir.dropLast → disk.isFile ancestor = false
  above : reached <+: dir.dropLast
  outside : ∀ path, ¬stagingDir dir <+: path →
    after.get? path = if path <+: reached then some .dir else disk.get? path
  blocked : disk.isFile (stagingDir dir) = true →
    after.get? (stagingDir dir) = disk.get? (stagingDir dir)

section Leftovers

variable {env : Surroundings} {repo : RepoRef} {cache late : GitCache} {error : FreshError}

/-- Whatever happens after `create_dir_all` stays in the staging directory. -/
theorem leftovers_of_sameOutside (createdAll : disk.createDirAll parent = some made)
    (same : SameOutside (parent ++ [child ++ incomingSuffix]) made after)
    (blocked : made.isFile (parent ++ [child ++ incomingSuffix]) = true → after = made) :
    Leftovers (parent ++ [child]) parent disk after := by
  have way := Tree.createDirAll_eq_some_iff.mp ⟨made, createdAll⟩
  have notMade : ¬parent ++ [child ++ incomingSuffix] <+: parent :=
    not_below_of_above (List.prefix_refl parent)
  have stagingMade : made.get? (parent ++ [child ++ incomingSuffix]) =
      disk.get? (parent ++ [child ++ incomingSuffix]) := by
    rw [Tree.get?_createDirAll createdAll, if_neg notMade]
  refine ⟨?_, ?_, ?_, ?_⟩
  · rwa [List.dropLast_concat]
  · rw [List.dropLast_concat]
  · intro path outside
    rw [stagingDir_concat] at outside
    rw [same path outside, Tree.get?_createDirAll createdAll]
  · intro file
    rw [stagingDir_concat] at file ⊢
    rw [blocked (by simpa [Tree.isFile, stagingMade] using file), stagingMade]

theorem leftovers_of_cloneMirror (placed : repo.cacheDir = parent ++ [child])
    (failed : GitCache.cloneMirror env repo cache = (late, .error error)) :
    late.last = cache.last ∧ (late.disk = cache.disk ∨
      ∃ reached, Leftovers repo.cacheDir reached cache.disk late.disk) := by
  simp only [GitCache.cloneMirror, placed, List.dropLast_concat, stagingDir_concat] at failed ⊢
  cases createdAll : cache.disk.createDirAll parent with
  | none =>
      simp only [createdAll, Prod.mk.injEq] at failed
      rcases failed with ⟨rfl, _⟩
      exact ⟨rfl, Or.inl rfl⟩
  | some made =>
      simp only [createdAll] at failed
      have way := Tree.createDirAll_eq_some_iff.mp ⟨made, createdAll⟩
      cases cut : env.mkdirFailure with
      | some done =>
          have short := List.take_prefix done parent
          rcases Tree.createDirAll_eq_some_iff.mpr
            (fun ancestor above => way ancestor (above.trans short)) with ⟨partly, createdSome⟩
          simp only [cut, createdSome, Option.getD_some, Prod.mk.injEq] at failed
          rcases failed with ⟨rfl, _⟩
          refine ⟨rfl, Or.inr ⟨parent.take done, ?_, ?_, ?_, ?_⟩⟩
          · rwa [List.dropLast_concat]
          · rwa [List.dropLast_concat]
          · exact fun path _ => Tree.get?_createDirAll createdSome path
          · intro _
            have notMade : ¬stagingDir (parent ++ [child]) <+: parent.take done := by
              rw [stagingDir_concat]
              exact not_below_of_above short
            simp only [Tree.get?_createDirAll createdSome, if_neg notMade]
      | none =>
          have isDir : made.get? parent = some .dir := by
            rw [Tree.get?_createDirAll createdAll, if_pos (List.prefix_refl _)]
          have same := sameOutside_runRounds "clone".toList repo.name (child ++ incomingSuffix)
            true env.git (maxUpstreamRetries + 1) 0 isDir
          have blocked (file : made.isFile (parent ++ [child ++ incomingSuffix]) = true) :=
            runUpstream_of_file "clone".toList repo.name env.git file
          simp only [cut] at failed
          rw [runUpstream] at failed blocked
          generalize runRounds "clone".toList repo.name (parent ++ [child ++ incomingSuffix]) true
            env.git (maxUpstreamRetries + 1) 0 made = ran at failed same blocked
          rcases ran with ⟨ran, result⟩
          have leftovers : Leftovers (parent ++ [child]) parent cache.disk ran := by
            apply leftovers_of_sameOutside createdAll same
            intro file
            exact congrArg Prod.fst (blocked file)
          cases result with
          | error failure =>
              simp only [Prod.mk.injEq] at failed
              rcases failed with ⟨rfl, _⟩
              exact ⟨rfl, Or.inr ⟨parent, leftovers⟩⟩
          | ok _ =>
              simp only at failed
              split at failed
              · simp only [Prod.mk.injEq] at failed
                rcases failed with ⟨rfl, _⟩
                exact ⟨rfl, Or.inr ⟨parent, leftovers⟩⟩
              · simp at failed

theorem cloneMirror_of_ensureFresh {fetchTtl : ℕ} {wantFetch : Bool}
    (noMirror : hasHead cache.disk repo.cacheDir = false)
    (failed : GitCache.ensureFresh fetchTtl env repo wantFetch cache = (late, .error error)) :
    GitCache.cloneMirror env repo (cache.touch repo.name) = (late, .error error) := by
  have absent : hasHead (cache.touch repo.name).disk repo.cacheDir = false := noMirror
  simp only [GitCache.ensureFresh, absent, Bool.false_eq_true, not_false_eq_true, if_true] at failed
  generalize GitCache.cloneMirror env repo (cache.touch repo.name) = ran at failed ⊢
  rcases ran with ⟨ran, result⟩
  cases result with
  | error other => simpa using failed
  | ok _ => simp at failed

end Leftovers

/-! ## Accepted names keep clear of the proxy's own directories -/

/-- The two mirrors have their own staging and trash directories. -/
structure Apart (dirA dirB : Path) : Prop where
  mirror : ¬stagingDir dirB <+: dirA ++ [headFile]
  staging : ¬stagingDir dirB <+: stagingDir dirA
  trash : ¬stagingDir dirB <+: trashDir dirA
  stagingWay : ¬stagingDir dirA <+: dirB.dropLast
  trashWay : ¬trashDir dirA <+: dirB.dropLast

section Apart

variable {root : Path}

theorem Resolved.apart {upstreamBase : Text} {a b : Resolved upstreamBase root}
    (different : a.name ≠ b.name) : Apart a.cacheDir b.cacheDir := by
  rcases a with ⟨⟨nameA, urlA, dirA⟩, resolvedA⟩
  rcases b with ⟨⟨nameB, urlB, dirB⟩, resolvedB⟩
  rcases resolve_eq_ok_iff.mp resolvedA with ⟨wellA, refA⟩
  rcases resolve_eq_ok_iff.mp resolvedB with ⟨wellB, refB⟩
  simp only [RepoRef.mk.injEq, true_and] at refA refB
  rcases refA with ⟨_, rfl⟩
  rcases refB with ⟨_, rfl⟩
  simp only at different ⊢
  rcases pushSuffix_root root nameB incomingSuffix with ⟨initB, lastB, splitB, parentB, stagingB⟩
  rcases pushSuffix_root root nameA incomingSuffix with ⟨initA, lastA, splitA, _, stagingA⟩
  rcases pushSuffix_root root nameA evictingSuffix with ⟨initA', lastA', splitA', _, trashA⟩
  have sameSplit := List.append_inj' (splitA.symm.trans splitA') rfl
  simp only [List.cons.injEq, and_true] at sameSplit
  rcases sameSplit with ⟨rfl, rfl⟩
  have unmarkedA := unmarked_of_infix wellA.notStaging
  have unmarkedB := unmarked_of_infix wellB.notStaging
  have initUnmarkedA (comp : Text) (compMem : comp ∈ initA) : ¬incomingSuffix <:+: comp :=
    unmarkedA comp (splitA ▸ List.mem_append_left _ compMem)
  -- a marked last component is neither inside of the other path nor its last one
  have notAbove (mark : Text) (distinct : lastB ++ incomingSuffix ≠ lastA ++ mark ∨
      initB ≠ initA) :
      ¬root ++ (initB ++ [lastB ++ incomingSuffix]) <+: root ++ (initA ++ [lastA ++ mark]) := by
    intro above
    rw [List.prefix_append_right_inj, List.prefix_concat_iff] at above
    rcases above with same | above
    · have parts := List.append_inj' same rfl
      simp only [List.cons.injEq, and_true] at parts
      rcases distinct with distinct | distinct
      · exact distinct parts.2
      · exact distinct parts.1
    · exact not_marked_above initB lastB initUnmarkedA
        ((List.prefix_append_right_inj root).mpr above)
  refine ⟨?_, ?_, ?_, ?_, ?_⟩
  · exact not_staging_above_head resolvedA resolvedB
  · rw [stagingDir, stagingB, stagingDir, stagingA]
    apply notAbove
    by_contra same
    simp only [not_or, not_not, ne_eq] at same
    have sameLast := List.append_cancel_right same.1
    apply different
    apply splitOn_injective
    rw [splitA, splitB, sameLast, same.2]
  · rw [stagingDir, stagingB, trashDir, trashA]
    apply notAbove
    left
    intro same
    have sameMark := (List.append_inj' same (by decide)).2
    exact absurd sameMark (by decide)
  · rw [stagingDir, stagingA, parentB]
    apply not_marked_above
    intro comp compMem
    exact unmarkedB comp (splitB ▸ List.mem_append_left _ compMem)
  · rw [trashDir, trashA, parentB]
    apply not_marked_above
    intro comp compMem
    exact unmarked_of_infix wellB.notTrash comp (splitB ▸ List.mem_append_left _ compMem)

end Apart

/-! ## When a failed clone makes a difference -/

/-- The directories on the way to `dirB` reach into `dirA`, where no mirror is: they would be
taken for its `HEAD`, or they change whether a clone can be renamed there. -/
structure Encroaches (disk : Disk) (dirA dirB : Path) : Prop where
  noMirrorA : hasHead disk dirA = false
  noMirrorB : hasHead disk dirB = false
  way : ∀ ancestor, ancestor <+: dirB.dropLast → disk.isFile ancestor = false
  reach : dirA ++ [headFile] <+: dirB.dropLast ∨
    (disk.isFile (stagingDir dirA) = false ∧ dirA <+: dirB.dropLast ∧
      (disk.remove (stagingDir dirB)).occupied dirA = false ∧
      (dirA = dirB.dropLast → disk.isFile (stagingDir dirB) = false))

/-- No failed clone of `b` makes a difference to what happens to `a` from then on. -/
def Unharmed (fetchTtl : ℕ) (cache : GitCache) (a b : RepoRef) : Prop :=
  hasHead cache.disk b.cacheDir = false →
  ∀ env wantFetch late error,
    GitCache.ensureFresh fetchTtl env b wantFetch cache = (late, .error error) →
    ∀ operations, reports fetchTtl a late operations = reports fetchTtl a cache operations

section Difference

variable {dirA dirB reached : Path} {name : Text}

theorem Apart.ancestor (apart : Apart dirA dirB) (above : path <+: dirA ++ [headFile]) :
    ¬stagingDir dirB <+: path :=
  fun below => apart.mirror (below.trans above)

theorem Leftovers.get?_of_not_above (leftovers : Leftovers dirB reached disk after)
    (outside : ¬stagingDir dirB <+: path) (notAbove : ¬path <+: dirB.dropLast) :
    after.get? path = disk.get? path := by
  rw [leftovers.outside path outside, if_neg (fun above => notAbove (above.trans leftovers.above))]

theorem Leftovers.isFile_of_above (leftovers : Leftovers dirB reached disk after)
    (outside : ¬stagingDir dirB <+: path) : after.isFile path = disk.isFile path := by
  simp only [Tree.isFile, leftovers.outside path outside]
  by_cases above : path <+: reached
  · have notFile := leftovers.way path (above.trans leftovers.above)
    simp only [Tree.isFile] at notFile
    simp [above, notFile]
  · simp [above]

theorem Leftovers.head (leftovers : Leftovers dirB reached disk after) (apart : Apart dirA dirB)
    (harmless : ¬Encroaches disk dirA dirB) (noMirrorB : hasHead disk dirB = false) :
    after.get? (dirA ++ [headFile]) = none ↔ disk.get? (dirA ++ [headFile]) = none := by
  rw [leftovers.outside _ (apart.ancestor (List.prefix_refl _))]
  split
  · rename_i above
    constructor
    · intro impossible
      cases impossible
    · intro absent
      have noMirrorA : hasHead disk dirA = false := by simp [hasHead, Tree.Exists, absent]
      exact absurd ⟨noMirrorA, noMirrorB, leftovers.way, Or.inl (above.trans leftovers.above)⟩
        harmless
  · rfl

/-- The staging directory of `b` is a proper descendant of what it may crowd. -/
theorem exists_child_of_above (above : dirA <+: dirB.dropLast) :
    ∃ comp rest, stagingDir dirB = dirA ++ comp :: rest ∧
      (dirA ≠ dirB.dropLast → dirA ++ [comp] <+: dirB.dropLast) ∧
      (dirA = dirB.dropLast → rest = []) := by
  rcases above with ⟨middle, whole⟩
  cases middle with
  | nil =>
      rw [List.append_nil] at whole
      refine ⟨dirB.getLast?.getD [] ++ incomingSuffix, [], ?_, ?_, fun _ => rfl⟩
      · rw [stagingDir, pushSuffix, ← whole]
      · exact fun different => absurd whole different
  | cons comp middle =>
      refine ⟨comp, middle ++ [dirB.getLast?.getD [] ++ incomingSuffix], ?_, ?_, ?_⟩
      · rw [stagingDir, pushSuffix, ← whole]
        simp
      · intro _
        rw [← whole]
        exact ⟨middle, by simp⟩
      · intro same
        rw [same] at whole
        simp at whole

theorem Leftovers.exists_of_exists (leftovers : Leftovers dirB reached disk after)
    (outside : ¬stagingDir dirB <+: path) (present : disk.Exists path) : after.Exists path := by
  rw [Tree.Exists, leftovers.outside path outside]
  split
  · simp
  · exact present

/-- Away from the directories on the way, nothing at or below `dirA` has changed. -/
theorem Leftovers.occupied_of_not_above (leftovers : Leftovers dirB reached disk after)
    (apart : Apart dirA dirB) (notAbove : ¬dirA <+: dirB.dropLast) :
    after.occupied dirA = disk.occupied dirA := by
  apply Tree.occupied_congr
  intro rest
  apply leftovers.get?_of_not_above
  · intro below
    have notBelow : ¬stagingDir dirB <+: dirA := apart.ancestor (List.prefix_append _ _)
    rcases List.prefix_or_prefix_of_prefix below (List.prefix_append dirA rest) with inside | above
    · exact notBelow inside
    · rcases List.prefix_concat_iff.mp above with same | above
      · apply notBelow
        rw [same, stagingDir, pushSuffix]
      · exact notAbove above
  · exact fun above => notAbove ((List.prefix_append _ _).trans above)

theorem Leftovers.room (leftovers : Leftovers dirB reached disk after) (apart : Apart dirA dirB)
    (harmless : ¬Encroaches disk dirA dirB) (noMirrorB : hasHead disk dirB = false) :
    disk.isFile (stagingDir dirA) = true ∨ disk.occupied dirA = after.occupied dirA := by
  by_cases blocked : disk.isFile (stagingDir dirA) = true
  · exact Or.inl blocked
  right
  by_cases above : dirA <+: dirB.dropLast
  swap
  · exact (leftovers.occupied_of_not_above apart above).symm
  have notBelow : ¬stagingDir dirB <+: dirA := apart.ancestor (List.prefix_append _ _)
  -- something that stays keeps the directory from being empty
  have keeps {name : Text} (present : disk.Exists (dirA ++ [name]))
      (still : after.Exists (dirA ++ [name])) : disk.occupied dirA = after.occupied dirA := by
    rw [Tree.occupied_of_child present, Tree.occupied_of_child still]
  have staying {name : Text} (outside : ¬stagingDir dirB <+: dirA ++ [name])
      (present : disk.Exists (dirA ++ [name])) : disk.occupied dirA = after.occupied dirA :=
    keeps present (leftovers.exists_of_exists outside present)
  by_cases mirrorA : hasHead disk dirA = true
  · simp only [hasHead, decide_eq_true_eq] at mirrorA
    exact staying apart.mirror mirrorA
  by_cases left : (disk.remove (stagingDir dirB)).occupied dirA = true
  · have notRoot : stagingDir dirB ≠ [] := by simp [stagingDir, pushSuffix]
    rcases Tree.occupied_iff.mp left with file | ⟨name, present⟩
    · have notFile := leftovers.way dirA above
      simp [Tree.isFile, Tree.get?_remove notRoot, notBelow] at file notFile
      simp [notFile] at file
    · rw [Tree.Exists, Tree.get?_remove notRoot] at present
      split at present
      · exact absurd rfl present
      · rename_i outside
        exact staying outside present
  · rcases exists_child_of_above above with ⟨comp, rest, staging, _, deep⟩
    have fileAtParent : dirA = dirB.dropLast ∧ disk.isFile (stagingDir dirB) = true := by
      by_contra otherwise
      apply harmless
      refine ⟨by simpa using mirrorA, noMirrorB, leftovers.way, Or.inr ⟨by simpa using blocked,
        above, by simpa using left, ?_⟩⟩
      intro same
      simpa [same] using otherwise
    rcases fileAtParent with ⟨same, file⟩
    have kept := leftovers.blocked file
    rcases Tree.isFile_iff.mp file with ⟨content, found⟩
    rw [found] at kept
    rw [staging, deep same] at found kept
    have present : disk.Exists (dirA ++ [comp]) := by simp [Tree.Exists, found]
    have still : after.Exists (dirA ++ [comp]) := by simp [Tree.Exists, kept]
    exact keeps present still

/-- A failed clone that does not encroach cannot be told from none. -/
theorem Leftovers.alike (leftovers : Leftovers dirB reached disk after)
    (apart : Apart (parent ++ [name]) dirB) (harmless : ¬Encroaches disk (parent ++ [name]) dirB)
    (noMirrorB : hasHead disk dirB = false) : Alike parent name disk after where
  parents := by
    intro ancestor above
    rw [leftovers.isFile_of_above]
    apply apart.ancestor
    exact (above.trans (List.prefix_append _ _)).trans (List.prefix_append _ _)
  head := by
    have head := leftovers.head apart harmless noMirrorB
    simpa using head.symm
  staging := by
    have same := leftovers.get?_of_not_above apart.staging apart.stagingWay
    rw [stagingDir_concat] at same
    exact same.symm
  trash := by
    have same := leftovers.get?_of_not_above apart.trash apart.trashWay
    rw [trashDir_concat] at same
    exact same.symm
  room := by
    have room := leftovers.room apart harmless noMirrorB
    rwa [stagingDir_concat] at room

end Difference

/-! ## Every encroachment makes a difference -/

/-- A git that succeeds at once. -/
def smooth : Attempt where
  clearing := none
  spawned := true
  written := some .empty
  drained := true
  waited := true
  status := ⟨some 0⟩
  stderr := []
  sweeping := none
  complete := fun _ => rfl

/-- A git that does not start, or whose stderr breaks off. -/
def interrupted (spawned : Bool) : Attempt := { smooth with spawned := spawned, drained := false }

/-- Nothing fails but git. -/
def calm (round : Attempt) : Surroundings where
  started := 0
  decided := 0
  mkdirFailure := none
  git := fun _ => round
  renameFails := false
  wants := none

section Runs

variable {repo : RepoRef} (cache : GitCache) {name : Text}

theorem runUpstream_interrupted (operation label : Text) (path : Path) (notRoot : path ≠ [])
    (spawned : Bool) (disk : Disk) :
    ∃ ran error, runUpstream operation label path true (fun _ => interrupted spawned) disk =
        (ran, .error error) ∧
      (disk.isFile path = false → (ran.Exists path ↔ spawned = true)) := by
  cases found : disk.get? path with
  | none =>
      cases spawned with
      | false =>
          refine ⟨disk, .spawn, ?_, ?_⟩
          · simp [runUpstream, runRounds, runRound, cleanIf, cleanStaging, found, runChild,
              interrupted, smooth]
          · simp [Tree.Exists, found]
      | true =>
          refine ⟨disk.graft path .empty, .readStderr, ?_, ?_⟩
          · simp [runUpstream, runRounds, runRound, cleanIf, cleanStaging, found, runChild,
              Attempt.leaves, interrupted, smooth]
          · simp [Tree.Exists, Tree.get?_graft notRoot]
  | some node =>
      cases node with
      | file content =>
          refine ⟨disk, .clearStaging, ?_, ?_⟩
          · simp [runUpstream, runRounds, runRound, cleanIf, cleanStaging, found]
          · simp [Tree.isFile, found]
      | dir =>
          cases spawned with
          | false =>
              refine ⟨disk.remove path, .spawn, ?_, ?_⟩
              · simp [runUpstream, runRounds, runRound, cleanIf, cleanStaging, found, runChild,
                  interrupted, smooth]
              · simp [Tree.Exists, Tree.get?_remove notRoot]
          | true =>
              refine ⟨(disk.remove path).graft path .empty, .readStderr, ?_, ?_⟩
              · simp [runUpstream, runRounds, runRound, cleanIf, cleanStaging, found, runChild,
                  Attempt.leaves, interrupted, smooth]
              · simp [Tree.Exists, Tree.get?_graft notRoot]

/-- An interrupted clone leaves all directories on the way, and its staging directory as one
likes. -/
theorem cloneMirror_interrupted (placed : repo.cacheDir = parent ++ [name])
    (way : ∀ ancestor, ancestor <+: parent → cache.disk.isFile ancestor = false) (spawned : Bool) :
    ∃ late error, GitCache.cloneMirror (calm (interrupted spawned)) repo cache =
        (late, .error error) ∧
      Leftovers (parent ++ [name]) parent cache.disk late.disk ∧
      (cache.disk.isFile (stagingDir (parent ++ [name])) = false →
        (late.disk.Exists (stagingDir (parent ++ [name])) ↔ spawned = true)) := by
  rcases Tree.createDirAll_eq_some_iff.mpr way with ⟨made, createdAll⟩
  have isDir : made.get? parent = some .dir := by
    rw [Tree.get?_createDirAll createdAll, if_pos (List.prefix_refl _)]
  rcases runUpstream_interrupted "clone".toList repo.name (parent ++ [name ++ incomingSuffix])
    (by simp) spawned made with ⟨ran, error, result, left⟩
  have same := sameOutside_runRounds "clone".toList repo.name (name ++ incomingSuffix)
    true (fun _ => interrupted spawned) (maxUpstreamRetries + 1) 0 isDir
  have blocked (file : made.isFile (parent ++ [name ++ incomingSuffix]) = true) : ran = made := by
    have stopped := runUpstream_of_file "clone".toList repo.name
      (fun _ => interrupted spawned) file
    rw [result] at stopped
    exact congrArg Prod.fst stopped
  rw [← runUpstream, result] at same
  refine ⟨{ cache with disk := ran }, .upstream error, ?_, ?_, ?_⟩
  · simp only [GitCache.cloneMirror, calm, placed, List.dropLast_concat, stagingDir_concat,
      createdAll, result]
  · exact leftovers_of_sameOutside createdAll same blocked
  · have notMade : ¬parent ++ [name ++ incomingSuffix] <+: parent :=
      not_below_of_above (List.prefix_refl parent)
    rw [stagingDir_concat]
    simpa only [Tree.isFile, Tree.get?_createDirAll createdAll, if_neg notMade] using left

/-- What a clone has filled can be moved into its place if there is room. -/
theorem installs_iff {disk made filled : Disk} {label : Text} {git : ℕ → Attempt}
    {result : Except UpstreamError Unit} (createdAll : disk.createDirAll parent = some made)
    (ran : runUpstream "clone".toList label (parent ++ [name ++ incomingSuffix]) true git made =
      (filled, result))
    (filledDir : filled.get? (parent ++ [name ++ incomingSuffix]) = some .dir) :
    (∃ installed, filled.rename (parent ++ [name ++ incomingSuffix]) (parent ++ [name]) =
      some installed) ↔ disk.occupied (parent ++ [name]) = false := by
  have isDir : made.get? parent = some .dir := by
    rw [Tree.get?_createDirAll createdAll, if_pos (List.prefix_refl _)]
  have different : name ++ incomingSuffix ≠ name := (append_ne_self incomingSuffix_ne_nil).symm
  have same := sameOutside_runRounds "clone".toList label (name ++ incomingSuffix) true git
    (maxUpstreamRetries + 1) 0 isDir
  rw [← runUpstream, ran] at same
  have room : filled.occupied (parent ++ [name]) = disk.occupied (parent ++ [name]) := by
    apply Tree.occupied_congr
    intro rest
    rw [List.append_assoc, List.singleton_append, same _ (not_prefix_sibling different),
      Tree.get?_createDirAll createdAll,
      if_neg (not_below_of_above (List.prefix_refl parent))]
  rw [← room]
  exact rename_sibling_isSome different filledDir


/-- With a repository to clone, and the directories on the way, a clone fails only for want of
room. -/
theorem cloneMirror_of_delivers {env : Surroundings} {made : Disk}
    (placed : repo.cacheDir = parent ++ [name]) (steady : env.Steady)
    (createdAll : cache.disk.createDirAll parent = some made)
    (notFile : cache.disk.isFile (stagingDir (parent ++ [name])) = false)
    (delivers : Delivers env.git) :
    (GitCache.cloneMirror env repo cache).2 =
      if cache.disk.occupied (parent ++ [name]) then .error .rename else .ok () := by
  have unmade : made.get? (parent ++ [name ++ incomingSuffix]) =
      cache.disk.get? (parent ++ [name ++ incomingSuffix]) := by
    rw [Tree.get?_createDirAll createdAll,
      if_neg (not_below_of_above (List.prefix_refl parent))]
  rw [stagingDir_concat, ← Tree.isFile_congr unmade] at notFile
  have notRoot : parent ++ [name ++ incomingSuffix] ≠ [] := by simp
  have delivered : (runUpstream "clone".toList repo.name (parent ++ [name ++ incomingSuffix]) true
      env.git made).2 = .ok () :=
    (runUpstream_ok_iff notRoot steady.sweeps fun _ => notFile).mpr delivers
  simp only [GitCache.cloneMirror, placed, List.dropLast_concat, stagingDir_concat, createdAll,
    steady.mkdir, steady.rename, Bool.false_eq_true, if_false]
  cases ran : runUpstream "clone".toList repo.name (parent ++ [name ++ incomingSuffix]) true
    env.git made with
  | mk filled result =>
  rw [ran] at delivered
  simp only at delivered
  subst delivered
  have filledDir := get?_of_runUpstream notRoot steady.sweeps (fun _ => notFile) ran
  have possible := installs_iff createdAll ran filledDir
  simp only
  cases renamed : filled.rename (parent ++ [name ++ incomingSuffix]) (parent ++ [name]) with
  | none =>
      simp only [renamed, reduceCtorEq, exists_false, false_iff, Bool.not_eq_false] at possible
      rw [possible, if_pos rfl]
  | some installed =>
      rw [possible.mp ⟨installed, renamed⟩]
      rfl

theorem steady_smooth : (calm smooth).Steady := ⟨rfl, rfl, fun _ => ⟨rfl, rfl⟩⟩

theorem delivers_smooth : Delivers (calm smooth).git :=
  ⟨0, Nat.zero_le _, ⟨⟨rfl, rfl, rfl⟩, rfl⟩, fun _ early => absurd early (Nat.not_lt_zero _)⟩

theorem cloneMirror_smooth (placed : repo.cacheDir = parent ++ [name])
    (way : ∀ ancestor, ancestor <+: parent → cache.disk.isFile ancestor = false)
    (notFile : cache.disk.isFile (stagingDir (parent ++ [name])) = false) :
    (GitCache.cloneMirror (calm smooth) repo cache).2 =
      if cache.disk.occupied (parent ++ [name]) then .error .rename else .ok () := by
  rcases Tree.createDirAll_eq_some_iff.mpr way with ⟨made, createdAll⟩
  exact cloneMirror_of_delivers cache placed steady_smooth createdAll notFile delivers_smooth

end Runs

section Encroachment

variable {dirA dirB : Path} {repo a b : RepoRef} {cache late : GitCache} {name : Text}
  {fetchTtl : ℕ}

theorem ensureFresh_smooth (fetchTtl : ℕ) (placed : repo.cacheDir = parent ++ [name])
    (noMirror : hasHead cache.disk repo.cacheDir = false)
    (way : ∀ ancestor, ancestor <+: parent → cache.disk.isFile ancestor = false)
    (notFile : cache.disk.isFile (stagingDir (parent ++ [name])) = false) :
    (GitCache.ensureFresh fetchTtl (calm smooth) repo false cache).2 =
      if cache.disk.occupied (parent ++ [name]) then .error .rename else .ok .cloned := by
  have absent : hasHead (cache.touch repo.name).disk repo.cacheDir = false := noMirror
  have cloned := cloneMirror_smooth (cache.touch repo.name) placed way notFile
  simp only [GitCache.ensureFresh, absent, Bool.false_eq_true, not_false_eq_true, if_true]
  generalize GitCache.cloneMirror (calm smooth) repo (cache.touch repo.name) = ran at cloned ⊢
  rcases ran with ⟨ran, result⟩
  simp only at cloned
  subst cloned
  have sameDisk : (cache.touch repo.name).disk = cache.disk := rfl
  rw [sameDisk]
  cases cache.disk.occupied (parent ++ [name]) with
  | true => rfl
  | false => rfl

theorem ensureFresh_cached (env : Surroundings) (present : hasHead cache.disk repo.cacheDir = true) :
    (GitCache.ensureFresh fetchTtl env repo false cache).2 = .ok .cached := by
  have head : hasHead (cache.touch repo.name).disk repo.cacheDir = true := present
  simp [GitCache.ensureFresh, head]

theorem ensureFresh_interrupted (fetchTtl : ℕ) (placed : repo.cacheDir = parent ++ [name])
    (noMirror : hasHead cache.disk repo.cacheDir = false)
    (way : ∀ ancestor, ancestor <+: parent → cache.disk.isFile ancestor = false) (spawned : Bool)
    (wantFetch : Bool) :
    ∃ late error, GitCache.ensureFresh fetchTtl (calm (interrupted spawned)) repo wantFetch cache =
        (late, .error error) ∧
      Leftovers repo.cacheDir parent cache.disk late.disk ∧
      (cache.disk.isFile (stagingDir repo.cacheDir) = false →
        (late.disk.Exists (stagingDir repo.cacheDir) ↔ spawned = true)) := by
  have absent : hasHead (cache.touch repo.name).disk repo.cacheDir = false := noMirror
  rcases cloneMirror_interrupted (cache.touch repo.name) placed way spawned with
    ⟨late, error, failed, leftovers, staging⟩
  rw [placed]
  refine ⟨late, error, ?_, leftovers, staging⟩
  simp [GitCache.ensureFresh, absent, failed]

theorem alone_of_free {disk : Disk}
    (free : (disk.remove (stagingDir dirB)).occupied dirA = false)
    (outside : ¬stagingDir dirB <+: dirA ++ [name]) : ¬disk.Exists (dirA ++ [name]) := by
  intro present
  have notRoot : stagingDir dirB ≠ [] := by simp [stagingDir, pushSuffix]
  have still : (disk.remove (stagingDir dirB)).Exists (dirA ++ [name]) := by
    rw [Tree.Exists, Tree.get?_remove notRoot, if_neg outside]
    exact present
  rw [Tree.occupied_of_child still] at free
  cases free

/-- In the directory that holds it, the staging directory alone decides whether there is room. -/
theorem occupied_ne_at_parent {disk after : Disk} (apart : Apart dirA dirB)
    (parent : dirA = dirB.dropLast) (child : stagingDir dirB = dirA ++ [name])
    (leftovers : Leftovers dirB dirB.dropLast disk after)
    (free : (disk.remove (stagingDir dirB)).occupied dirA = false)
    (staging : after.Exists (stagingDir dirB) ↔ ¬disk.Exists (stagingDir dirB)) :
    after.occupied dirA ≠ disk.occupied dirA := by
  have above : dirA <+: dirB.dropLast := parent ▸ List.prefix_refl _
  have notFile := leftovers.way dirA above
  have notFileAfter : after.isFile dirA = false := by
    rw [leftovers.isFile_of_above (apart.ancestor (List.prefix_append _ _))]
    exact notFile
  have beside (other : Text) (different : other ≠ name) :
      ¬stagingDir dirB <+: dirA ++ [other] := by
    rw [child]
    simpa [List.prefix_append_right_inj] using different.symm
  have before : disk.occupied dirA = true ↔ disk.Exists (stagingDir dirB) := by
    rw [child]
    apply Tree.occupied_iff_of_alone notFile
    exact fun other different => alone_of_free free (beside other different)
  have later : after.occupied dirA = true ↔ after.Exists (stagingDir dirB) := by
    rw [child]
    apply Tree.occupied_iff_of_alone notFileAfter
    intro other different
    have notMade : ¬dirA ++ [other] <+: dirB.dropLast := by
      rw [← parent]
      exact not_below_of_above (List.prefix_refl dirA)
    rw [Tree.Exists, leftovers.get?_of_not_above (beside other different) notMade]
    exact alone_of_free free (beside other different)
  intro equal
  rw [Bool.eq_iff_iff, before, later, staging] at equal
  exact (not_iff_self equal).elim

/-- Further up, the directories that are made on the way take the room. -/
theorem occupied_ne_above_parent {disk after : Disk} (above : dirA ++ [name] <+: dirB.dropLast)
    (leftovers : Leftovers dirB dirB.dropLast disk after)
    (free : (disk.remove (stagingDir dirB)).occupied dirA = false) :
    after.occupied dirA ≠ disk.occupied dirA := by
  -- the staging directory is deeper than any entry of the directory
  have outside (other : Text) : ¬stagingDir dirB <+: dirA ++ [other] := by
    intro inside
    have short := inside.length_le
    have long := above.length_le
    simp only [stagingDir, pushSuffix, List.length_append, List.length_cons,
      List.length_nil] at short long
    omega
  have made : after.Exists (dirA ++ [name]) := by
    rw [Tree.Exists, leftovers.outside _ (outside name), if_pos above]
    simp
  have empty : ¬disk.occupied dirA = true := by
    rw [Tree.occupied_iff, leftovers.way dirA ((List.prefix_append _ _).trans above)]
    rintro (impossible | ⟨other, present⟩)
    · cases impossible
    · exact alone_of_free free (outside other) present
  rw [Tree.occupied_of_child made]
  exact fun equal => empty equal.symm

/-- Room that an interrupted clone takes or makes. -/
theorem occupied_ne_of_reach {spawned : Bool} {disk after : Disk} (apart : Apart dirA dirB)
    (above : dirA <+: dirB.dropLast)
    (leftovers : Leftovers dirB dirB.dropLast disk after)
    (free : (disk.remove (stagingDir dirB)).occupied dirA = false)
    (notFile : dirA = dirB.dropLast → disk.isFile (stagingDir dirB) = false)
    (staging : disk.isFile (stagingDir dirB) = false →
      (after.Exists (stagingDir dirB) ↔ spawned = true))
    (chosen : spawned = true ↔ ¬disk.Exists (stagingDir dirB)) :
    after.occupied dirA ≠ disk.occupied dirA := by
  rcases exists_child_of_above above with ⟨comp, rest, whole, proper, direct⟩
  by_cases same : dirA = dirB.dropLast
  · rw [direct same] at whole
    exact occupied_ne_at_parent apart same whole leftovers free
      ((staging (notFile same)).trans chosen)
  · exact occupied_ne_above_parent (proper same) leftovers free

theorem reports_ensureFresh (env : Surroundings) (wantFetch : Bool) :
    reports fetchTtl repo cache [.ensureFresh env wantFetch] =
      [(GitCache.ensureFresh fetchTtl env repo wantFetch cache).2.map some] := rfl

theorem not_unharmed_of_encroaches (apart : Apart a.cacheDir b.cacheDir)
    (notRootA : a.cacheDir ≠ []) (notRootB : b.cacheDir ≠ [])
    (encroaches : Encroaches cache.disk a.cacheDir b.cacheDir) :
    ¬Unharmed fetchTtl cache a b := by
  intro unharmed
  have placedA : a.cacheDir = a.cacheDir.dropLast ++ [a.cacheDir.getLast notRootA] := by
    rw [List.dropLast_concat_getLast]
  have placedB : b.cacheDir = b.cacheDir.dropLast ++ [b.cacheDir.getLast notRootB] := by
    rw [List.dropLast_concat_getLast]
  have harmless := unharmed encroaches.noMirrorB
  have noMirrorA := encroaches.noMirrorA
  have stops (spawned : Bool) : ∃ late error, GitCache.ensureFresh fetchTtl
      (calm (interrupted spawned)) b true cache = (late, .error error) ∧ _ :=
    ensureFresh_interrupted fetchTtl placedB encroaches.noMirrorB encroaches.way spawned true
  rcases encroaches.reach with head | ⟨notFile, above, free, notFileB⟩
  · have wayA : ∀ ancestor, ancestor <+: a.cacheDir.dropLast →
        cache.disk.isFile ancestor = false := by
      intro ancestor onTheWay
      apply encroaches.way
      exact ((onTheWay.trans (List.dropLast_prefix _)).trans (List.prefix_append _ _)).trans head
    rcases stops false with ⟨late, error, failed, leftovers, _⟩
    have present : hasHead late.disk a.cacheDir = true := by
      simp [hasHead, Tree.Exists, leftovers.outside _ apart.mirror, head]
    have same := harmless _ _ _ _ failed [.ensureFresh (calm (interrupted false)) false]
    rcases ensureFresh_interrupted fetchTtl placedA noMirrorA wayA false false with
      ⟨_, _, stopped, _⟩
    rw [reports_ensureFresh, reports_ensureFresh, ensureFresh_cached _ present, stopped] at same
    simp [Except.map] at same
  · have wayA : ∀ ancestor, ancestor <+: a.cacheDir.dropLast →
        cache.disk.isFile ancestor = false := by
      intro ancestor onTheWay
      exact encroaches.way _ ((onTheWay.trans (List.dropLast_prefix _)).trans above)
    rcases stops (!decide (cache.disk.Exists (stagingDir b.cacheDir))) with
      ⟨late, error, failed, leftovers, staging⟩
    have differ := occupied_ne_of_reach apart above leftovers free notFileB staging (by simp)
    have same := harmless _ _ _ _ failed [.ensureFresh (calm smooth) false]
    have before := ensureFresh_smooth fetchTtl placedA noMirrorA wayA
      (by rwa [← placedA])
    rw [reports_ensureFresh, reports_ensureFresh, before, ← placedA] at same
    by_cases present : hasHead late.disk a.cacheDir = true
    · rw [ensureFresh_cached _ present] at same
      cases taken : cache.disk.occupied a.cacheDir with
      | true => simp [taken, Except.map] at same
      | false => simp [taken, Except.map] at same
    · have wayLate : ∀ ancestor, ancestor <+: a.cacheDir.dropLast →
          late.disk.isFile ancestor = false := by
        intro ancestor onTheWay
        rw [leftovers.isFile_of_above (apart.ancestor
          ((onTheWay.trans (List.dropLast_prefix _)).trans (List.prefix_append _ _)))]
        exact wayA ancestor onTheWay
      have notFileLate : late.disk.isFile (stagingDir a.cacheDir) = false := by
        rw [leftovers.isFile_of_above apart.staging]
        exact notFile
      have after := ensureFresh_smooth fetchTtl placedA
        (by simpa using present) wayLate (by rwa [← placedA])
      rw [after, ← placedA] at same
      cases taken : late.disk.occupied a.cacheDir with
      | true =>
          cases takenBefore : cache.disk.occupied a.cacheDir with
          | true => exact differ (taken.trans takenBefore.symm)
          | false => simp [taken, takenBefore, Except.map] at same
      | false =>
          cases takenBefore : cache.disk.occupied a.cacheDir with
          | true => simp [taken, takenBefore, Except.map] at same
          | false => exact differ (taken.trans takenBefore.symm)

theorem unharmed_of_not_encroaches (apart : Apart a.cacheDir b.cacheDir)
    (notRootA : a.cacheDir ≠ []) (notRootB : b.cacheDir ≠ [])
    (harmless : ¬Encroaches cache.disk a.cacheDir b.cacheDir) : Unharmed fetchTtl cache a b := by
  intro noMirrorB env wantFetch late error failed operations
  have placedA : a.cacheDir = a.cacheDir.dropLast ++ [a.cacheDir.getLast notRootA] := by
    rw [List.dropLast_concat_getLast]
  have placedB : b.cacheDir = b.cacheDir.dropLast ++ [b.cacheDir.getLast notRootB] := by
    rw [List.dropLast_concat_getLast]
  have cloneFailed := cloneMirror_of_ensureFresh noMirrorB failed
  rcases leftovers_of_cloneMirror placedB cloneFailed with ⟨sameLast, sameDisk | left⟩
  · apply SameView.reports placedA
    refine ⟨?_, congrFun sameLast a.name⟩
    rw [sameDisk]
    exact Alike.refl _
  · rcases left with ⟨reached, leftovers⟩
    rw [placedA] at apart harmless
    have alike : Alike a.cacheDir.dropLast (a.cacheDir.getLast notRootA) cache.disk late.disk :=
      leftovers.alike apart harmless noMirrorB
    have view : SameView a a.cacheDir.dropLast (a.cacheDir.getLast notRootA) cache late :=
      ⟨alike, (congrFun sameLast a.name).symm⟩
    exact (view.reports placedA fetchTtl operations).symm

end Encroachment

def outerRepo : Resolved "https://upstream".toList ["cache".toList] where
  name := "x".toList
  upstreamUrl := "https://upstream/x".toList
  cacheDir := ["cache".toList, "x".toList]
  resolved := by rfl

def innerRepo : Resolved "https://upstream".toList ["cache".toList] where
  name := "x/HEAD/y".toList
  upstreamUrl := "https://upstream/x/HEAD/y".toList
  cacheDir := ["cache".toList, "x".toList, "HEAD".toList, "y".toList]
  resolved := by rfl

def nothingCached : GitCache := ⟨.empty, fun _ => none, none⟩

end GitCacheProxy.Git
