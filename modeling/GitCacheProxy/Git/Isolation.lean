import GitCacheProxy.Git.Mirror

/-!
# What a failed clone does to other repositories

A clone that fails has made the directories on the way to its mirror, and may
have left something in its own staging directory or cleared it.  Whether this
matters to another repository is decided in two halves.

The operations on one mirror look at little of the disk (`Alike`): disks that
agree on it give the same results for ever.  And a failed clone of `b` changes
that little for `a` only if its directories reach into the directory of `a`
while no mirror is there (`Encroaches`).
-/

namespace GitCacheProxy.Git

open Repo FileTree

/-! ## What the operations on one mirror look at -/

/-- Two disks that no operation on the mirror `name` in `parent` can tell apart. -/
structure Alike (parent : Path) (name : Text) (first second : Disk) : Prop where
  parents : ∀ ancestor, ancestor <+: parent → first.isFile ancestor = second.isFile ancestor
  head : first.get? (parent ++ [name, headFile]) = none ↔
    second.get? (parent ++ [name, headFile]) = none
  staging : first.get? (parent ++ [name ++ incomingSuffix]) =
    second.get? (parent ++ [name ++ incomingSuffix])
  trash : first.get? (parent ++ [name ++ evictingSuffix]) =
    second.get? (parent ++ [name ++ evictingSuffix])
  -- with a regular file in the place of the staging directory no clone gets as far as a rename
  room : first.isFile (parent ++ [name ++ incomingSuffix]) = true ∨
    first.occupied (parent ++ [name]) = second.occupied (parent ++ [name])

variable {parent : Path} {name : Text} {first second : Disk}

theorem append_ne_self {mark : Text} (marked : mark ≠ []) : name ≠ name ++ mark := by
  intro same
  exact marked (List.self_eq_append_right.mp same)

theorem incomingSuffix_ne_nil : incomingSuffix ≠ [] := by decide

theorem evictingSuffix_ne_nil : evictingSuffix ≠ [] := by decide

theorem staging_ne_trash : name ++ incomingSuffix ≠ name ++ evictingSuffix := by
  intro same
  exact absurd (List.append_cancel_left same) (by decide)

namespace Alike

theorem refl (disk : Disk) : Alike parent name disk disk :=
  ⟨fun _ _ => rfl, Iff.rfl, rfl, rfl, Or.inr rfl⟩

theorem replace (alike : Alike parent name first second) {child : Text} (left : Option Disk)
    (cleared : child = name ++ incomingSuffix →
      first.isFile (parent ++ [name ++ incomingSuffix]) = false) :
    Alike parent name (first.replace (parent ++ [child]) left)
      (second.replace (parent ++ [child]) left) where
  parents := by
    intro ancestor above
    rw [Tree.isFile_replace_above above, Tree.isFile_replace_above above,
      alike.parents ancestor above]
  head := by
    rw [Tree.get?_replace_child, Tree.get?_replace_child]
    split
    · rfl
    · exact alike.head
  staging := by
    rw [Tree.get?_replace_child, Tree.get?_replace_child]
    split
    · rfl
    · exact alike.staging
  trash := by
    rw [Tree.get?_replace_child, Tree.get?_replace_child]
    split
    · rfl
    · exact alike.trash
  room := by
    by_cases isMirror : child = name
    · subst isMirror
      right
      apply Tree.occupied_congr
      intro rest
      simp only [List.append_assoc, List.singleton_append, Tree.get?_replace_child, if_true]
    · have same (disk : Disk) : (disk.replace (parent ++ [child]) left).occupied
          (parent ++ [name]) = disk.occupied (parent ++ [name]) := by
        apply Tree.occupied_congr
        intro rest
        simp only [List.append_assoc, List.singleton_append, Tree.get?_replace_child, isMirror,
          if_false]
      rw [same, same]
      by_cases isStaging : child = name ++ incomingSuffix
      · right
        rcases alike.room with blocked | room
        · rw [cleared isStaging] at blocked
          cases blocked
        · exact room
      · simp only [Tree.isFile, Tree.get?_replace_child, isStaging, if_false]
        exact alike.room

theorem clean (alike : Alike parent name first second) {child : Text} (failure : Option Disk)
    (same : first.get? (parent ++ [child]) = second.get? (parent ++ [child])) :
    (cleanStaging first (parent ++ [child]) failure).2 =
        (cleanStaging second (parent ++ [child]) failure).2 ∧
      Alike parent name (cleanStaging first (parent ++ [child]) failure).1
        (cleanStaging second (parent ++ [child]) failure).1 := by
  have asDir (isDir : first.get? (parent ++ [child]) = some .dir)
      (isStaging : child = name ++ incomingSuffix) :
      first.isFile (parent ++ [name ++ incomingSuffix]) = false := by
    subst isStaging
    simp [Tree.isFile, isDir]
  unfold cleanStaging
  rw [← same]
  cases found : first.get? (parent ++ [child]) with
  | none => exact ⟨rfl, alike⟩
  | some node =>
      cases node with
      | file content => exact ⟨rfl, alike⟩
      | dir =>
          cases failure with
          | none =>
              refine ⟨rfl, ?_⟩
              exact alike.replace none (asDir found)
          | some left =>
              refine ⟨rfl, ?_⟩
              exact alike.replace (some left) (asDir found)

theorem cleanIf (alike : Alike parent name first second) {child : Text} {staging : Bool}
    (failure : Option Disk)
    (same : staging = true → first.get? (parent ++ [child]) = second.get? (parent ++ [child])) :
    (Git.cleanIf staging first (parent ++ [child]) failure).2 =
        (Git.cleanIf staging second (parent ++ [child]) failure).2 ∧
      Alike parent name (Git.cleanIf staging first (parent ++ [child]) failure).1
        (Git.cleanIf staging second (parent ++ [child]) failure).1 := by
  cases staging with
  | false => exact ⟨rfl, alike⟩
  | true => exact alike.clean failure (same rfl)

end Alike

theorem get?_of_cleanStaging {disk after : Disk} {path : Path} {failure : Option Disk}
    (notRoot : path ≠ []) (cleaned : cleanStaging disk path failure = (after, .ok ())) :
    after.get? path = none := by
  unfold cleanStaging at cleaned
  split at cleaned
  · rename_i absent
    cases cleaned
    exact absent
  · cases cleaned
  · split at cleaned
    · cases cleaned
      simp [Tree.get?_remove notRoot]
    · cases cleaned

/-- After a successful run the directory of the child holds the same on both disks. -/
def SameBelow (path : Path) (first second : Disk) : Prop :=
  first.get? path = some .dir ∧ ∀ rest, first.get? (path ++ rest) = second.get? (path ++ rest)

theorem sameBelow_graft (first second sub : Disk) (parent : Path) (child : Text) :
    SameBelow (parent ++ [child]) (first.graft (parent ++ [child]) sub)
      (second.graft (parent ++ [child]) sub) := by
  have below (disk : Disk) (rest : Path) :
      (disk.graft (parent ++ [child]) sub).get? ((parent ++ [child]) ++ rest) = sub.get? rest := by
    have replaced : (disk.replace (parent ++ [child]) (some sub)).get? (parent ++ child :: rest) =
        sub.get? rest := by
      rw [Tree.get?_replace_child, if_pos rfl]
      rfl
    simpa [Tree.replace] using replaced
  refine ⟨?_, fun rest => ?_⟩
  · have root := below first []
    simpa using root
  · rw [below, below]

/-- Where a child of `git` works: in the staging directory of the mirror or in the mirror. -/
def WorksIn (name : Text) : Bool → Text → Prop
  | true, child => child = name ++ incomingSuffix
  | false, child => child = name

/-- What two runs of the same part of the loop have in common; `done` is its success. -/
structure AlikeRuns {Result : Type} (parent : Path) (name child : Text) (done : Result)
    (first second : Disk × Result) : Prop where
  result : first.2 = second.2
  alike : Alike parent name first.1 second.1
  filled : first.2 = done → SameBelow (parent ++ [child]) first.1 second.1

theorem Alike.stop (alike : Alike parent name first second) {child : Text}
    {result : Option (Except UpstreamError Unit)} (failed : result ≠ some (.ok ())) :
    AlikeRuns parent name child (some (.ok ())) (first, result) (second, result) :=
  ⟨rfl, alike, fun succeeded => absurd succeeded failed⟩

section Rounds

variable {operation repo child : Text} {staging : Bool} (attempt : ℕ)

theorem Alike.runChild (alike : Alike parent name first second)
    (cleared : child = name ++ incomingSuffix →
      first.isFile (parent ++ [name ++ incomingSuffix]) = false)
    (same : staging = true → first.get? (parent ++ [child]) = second.get? (parent ++ [child]))
    (round : Attempt) :
    AlikeRuns parent name child (some (.ok ()))
      (Git.runChild operation repo (parent ++ [child]) staging round attempt first)
      (Git.runChild operation repo (parent ++ [child]) staging round attempt second) := by
  have left : Alike parent name (round.leaves (parent ++ [child]) first)
      (round.leaves (parent ++ [child]) second) := by
    unfold Attempt.leaves
    split
    · exact alike
    · exact alike.replace (some _) cleared
  have sameLeft : staging = true →
      (round.leaves (parent ++ [child]) first).get? (parent ++ [child]) =
        (round.leaves (parent ++ [child]) second).get? (parent ++ [child]) := by
    intro isStaging
    unfold Attempt.leaves
    split
    · exact same isStaging
    · rename_i written _
      simpa using (sameBelow_graft first second written parent child).2 []
  simp only [Git.runChild]
  split
  · exact alike.stop (by simp)
  split
  · exact left.stop (by simp)
  split
  · exact left.stop (by simp)
  split
  · rename_i success
    rcases Option.isSome_iff_exists.mp (round.complete success) with ⟨written, isWritten⟩
    refine ⟨rfl, left, fun _ => ?_⟩
    simp only [Attempt.leaves, isWritten]
    exact sameBelow_graft first second written parent child
  have swept := left.cleanIf round.sweeping sameLeft
  generalize Git.cleanIf staging (round.leaves (parent ++ [child]) first) (parent ++ [child])
    round.sweeping = one at swept
  generalize Git.cleanIf staging (round.leaves (parent ++ [child]) second) (parent ++ [child])
    round.sweeping = two at swept
  rcases one with ⟨one, oneSwept⟩
  rcases two with ⟨two, twoSwept⟩
  rcases swept with ⟨sameSwept, alike⟩
  simp only at sameSwept alike
  subst sameSwept
  cases oneSwept with
  | error failure => exact alike.stop (by simp)
  | ok _ =>
      simp only
      split
      · exact alike.stop (by simp)
      · exact alike.stop (by simp)

theorem Alike.runRound (alike : Alike parent name first second) (works : WorksIn name staging child)
    (round : Attempt) :
    AlikeRuns parent name child (some (.ok ()))
      (Git.runRound operation repo (parent ++ [child]) staging round attempt first)
      (Git.runRound operation repo (parent ++ [child]) staging round attempt second) := by
  have same : staging = true →
      first.get? (parent ++ [child]) = second.get? (parent ++ [child]) := by
    rintro rfl
    rcases works with rfl
    exact alike.staging
  have cleaned := alike.cleanIf round.clearing same
  simp only [Git.runRound]
  generalize firstClean : Git.cleanIf staging first (parent ++ [child]) round.clearing = one
    at cleaned
  generalize Git.cleanIf staging second (parent ++ [child]) round.clearing = two at cleaned
  rcases one with ⟨one, oneResult⟩
  rcases two with ⟨two, twoResult⟩
  rcases cleaned with ⟨sameResult, alike⟩
  simp only at sameResult alike
  subst sameResult
  cases oneResult with
  | error failure => exact alike.stop (by simp)
  | ok _ =>
      apply alike.runChild attempt
      · intro isStaging
        cases staging with
        | false => exact absurd (works.symm.trans isStaging) (append_ne_self incomingSuffix_ne_nil)
        | true =>
            have gone := get?_of_cleanStaging (by simp) firstClean
            rw [isStaging] at gone
            simp [Tree.isFile, gone]
      · rintro rfl
        rcases works with rfl
        exact alike.staging

/-- The whole loop gives the same result on both disks and leaves them alike. -/
theorem Alike.runRounds (operation repo : Text) (git : ℕ → Attempt)
    (works : WorksIn name staging child) (rounds : ℕ) (alike : Alike parent name first second) :
    AlikeRuns parent name child (.ok ())
      (Git.runRounds operation repo (parent ++ [child]) staging git rounds attempt first)
      (Git.runRounds operation repo (parent ++ [child]) staging git rounds attempt second) := by
  induction rounds generalizing attempt first second with
  | zero => exact ⟨rfl, alike, fun impossible => by cases impossible⟩
  | succ rounds ih =>
      have round : AlikeRuns parent name child (some (.ok ()))
          (Git.runRound operation repo (parent ++ [child]) staging (git attempt) attempt first)
          (Git.runRound operation repo (parent ++ [child]) staging (git attempt) attempt second) :=
        alike.runRound attempt works (git attempt)
      simp only [Git.runRounds]
      generalize Git.runRound operation repo (parent ++ [child]) staging (git attempt) attempt
        first = one at round
      generalize Git.runRound operation repo (parent ++ [child]) staging (git attempt) attempt
        second = two at round
      rcases one with ⟨one, oneResult⟩
      rcases two with ⟨two, twoResult⟩
      rcases round with ⟨sameResult, alike, filled⟩
      simp only at sameResult alike filled
      subst sameResult
      cases oneResult with
      | none => exact ih (attempt + 1) alike
      | some result => exact ⟨rfl, alike, fun succeeded => filled (congrArg some succeeded)⟩

end Rounds

/-- Two calls that both fail, or both succeed and leave alike disks. -/
def AlikeDisks (parent : Path) (name : Text) : Option Disk → Option Disk → Prop
  | none, none => True
  | some first, some second => Alike parent name first second
  | _, _ => False

theorem Alike.createDirAll (alike : Alike parent name first second) {path : Path}
    (above : path <+: parent) :
    AlikeDisks parent name (first.createDirAll path) (second.createDirAll path) := by
  have possible : (∃ one, first.createDirAll path = some one) ↔
      ∃ two, second.createDirAll path = some two := by
    rw [Tree.createDirAll_eq_some_iff, Tree.createDirAll_eq_some_iff]
    constructor
    · intro free ancestor ancestorAbove
      rw [← alike.parents ancestor (ancestorAbove.trans above)]
      exact free ancestor ancestorAbove
    · intro free ancestor ancestorAbove
      rw [alike.parents ancestor (ancestorAbove.trans above)]
      exact free ancestor ancestorAbove
  cases one : first.createDirAll path with
  | none =>
      cases two : second.createDirAll path with
      | none => trivial
      | some made =>
          rcases possible.mpr ⟨made, two⟩ with ⟨other, impossible⟩
          rw [one] at impossible
          cases impossible
  | some madeOne =>
      cases two : second.createDirAll path with
      | none =>
          rcases possible.mp ⟨madeOne, one⟩ with ⟨other, impossible⟩
          rw [two] at impossible
          cases impossible
      | some madeTwo =>
          have below (entry : Text) (rest : Path) : ¬parent ++ entry :: rest <+: path :=
            not_below_of_above above
          have sameOne (entry : Text) (rest : Path) :
              madeOne.get? (parent ++ entry :: rest) = first.get? (parent ++ entry :: rest) := by
            rw [Tree.get?_createDirAll one, if_neg (below entry rest)]
          have sameTwo (entry : Text) (rest : Path) :
              madeTwo.get? (parent ++ entry :: rest) = second.get? (parent ++ entry :: rest) := by
            rw [Tree.get?_createDirAll two, if_neg (below entry rest)]
          have roomOne : madeOne.occupied (parent ++ [name]) = first.occupied (parent ++ [name]) := by
            apply Tree.occupied_congr
            intro rest
            simp only [List.append_assoc, List.singleton_append, sameOne]
          have roomTwo :
              madeTwo.occupied (parent ++ [name]) = second.occupied (parent ++ [name]) := by
            apply Tree.occupied_congr
            intro rest
            simp only [List.append_assoc, List.singleton_append, sameTwo]
          refine ⟨?_, ?_, ?_, ?_, ?_⟩
          · intro ancestor ancestorAbove
            simp only [Tree.isFile, Tree.get?_createDirAll one, Tree.get?_createDirAll two]
            by_cases made : ancestor <+: path
            · simp [made]
            · simpa [made, Tree.isFile] using alike.parents ancestor ancestorAbove
          · rw [sameOne, sameTwo]
            exact alike.head
          · rw [sameOne, sameTwo]
            exact alike.staging
          · rw [sameOne, sameTwo]
            exact alike.trash
          · simp only [Tree.isFile, sameOne, roomOne, roomTwo]
            exact alike.room

theorem not_prefix_sibling {child other : Text} {rest : Path} (different : child ≠ other) :
    ¬parent ++ [child] <+: parent ++ other :: rest := by
  rw [concat_prefix_concat_iff]
  exact different

/-- A rename inside of a directory goes through if and only if the target is free. -/
theorem rename_sibling_isSome {disk : Disk} {source target : Text} (different : source ≠ target)
    (isDir : disk.get? (parent ++ [source]) = some .dir) :
    (∃ after, disk.rename (parent ++ [source]) (parent ++ [target]) = some after) ↔
      disk.occupied (parent ++ [target]) = false := by
  constructor
  · rintro ⟨after, renamed⟩
    exact Tree.not_occupied_of_rename renamed isDir
  · intro free
    have present : disk.Exists (parent ++ [source]) := by simp [Tree.Exists, isDir]
    apply Tree.rename_isSome isDir (by simp) (by simp) (not_prefix_sibling different) _ free
    rw [List.dropLast_concat]
    exact Tree.get?_of_child present

/-- Two renames that go through under the same condition. -/
theorem alikeDisks_rename {source target : Text} (different : source ≠ target)
    (dirOne : first.get? (parent ++ [source]) = some .dir)
    (dirTwo : second.get? (parent ++ [source]) = some .dir)
    (room : first.occupied (parent ++ [target]) = second.occupied (parent ++ [target]))
    (renamed : ∀ one two,
      first.rename (parent ++ [source]) (parent ++ [target]) = some one →
      second.rename (parent ++ [source]) (parent ++ [target]) = some two →
      Alike parent name one two) :
    AlikeDisks parent name (first.rename (parent ++ [source]) (parent ++ [target]))
      (second.rename (parent ++ [source]) (parent ++ [target])) := by
  have possibleOne := rename_sibling_isSome different dirOne
  have possibleTwo := rename_sibling_isSome different dirTwo
  rw [← room] at possibleTwo
  cases one : first.rename (parent ++ [source]) (parent ++ [target]) with
  | none =>
      cases two : second.rename (parent ++ [source]) (parent ++ [target]) with
      | none => trivial
      | some after =>
          rcases possibleOne.mpr (possibleTwo.mp ⟨after, two⟩) with ⟨other, impossible⟩
          rw [one] at impossible
          cases impossible
  | some afterOne =>
      rcases possibleTwo.mpr (possibleOne.mp ⟨afterOne, one⟩) with ⟨afterTwo, two⟩
      rw [two]
      exact renamed afterOne afterTwo one two

theorem Alike.isFile_rename_above (alike : Alike parent name first second) {source target : Text}
    {one two : Disk}
    (renamedOne : first.rename (parent ++ [source]) (parent ++ [target]) = some one)
    (renamedTwo : second.rename (parent ++ [source]) (parent ++ [target]) = some two)
    {ancestor : Path} (above : ancestor <+: parent) : one.isFile ancestor = two.isFile ancestor := by
  simp only [Tree.isFile, Tree.get?_rename_above renamedOne above,
    Tree.get?_rename_above renamedTwo above]
  exact alike.parents ancestor above

theorem Alike.install (alike : Alike parent name first second)
    (filled : SameBelow (parent ++ [name ++ incomingSuffix]) first second) :
    AlikeDisks parent name
      (first.rename (parent ++ [name ++ incomingSuffix]) (parent ++ [name]))
      (second.rename (parent ++ [name ++ incomingSuffix]) (parent ++ [name])) := by
  have dirOne := filled.1
  have dirTwo : second.get? (parent ++ [name ++ incomingSuffix]) = some .dir := by
    have same := filled.2 []
    rw [List.append_nil, dirOne] at same
    exact same.symm
  have different : name ++ incomingSuffix ≠ name := (append_ne_self incomingSuffix_ne_nil).symm
  have room : first.occupied (parent ++ [name]) = second.occupied (parent ++ [name]) := by
    rcases alike.room with blocked | room
    · simp [Tree.isFile, dirOne] at blocked
    · exact room
  apply alikeDisks_rename different dirOne dirTwo room
  intro one two renamedOne renamedTwo
  have movedOne := Tree.get?_rename_sibling renamedOne
  have movedTwo := Tree.get?_rename_sibling renamedTwo
  have moved (rest : Path) :
      one.get? (parent ++ name :: rest) = two.get? (parent ++ name :: rest) := by
    rw [movedOne, movedTwo, if_pos rfl, if_pos rfl]
    simpa using filled.2 rest
  refine ⟨?_, ?_, ?_, ?_, Or.inr ?_⟩
  · exact fun ancestor above => alike.isFile_rename_above renamedOne renamedTwo above
  · rw [moved]
  · rw [movedOne, movedTwo, if_neg different.symm, if_neg different.symm, if_pos rfl, if_pos rfl]
  · have notMirror : name ≠ name ++ evictingSuffix := append_ne_self evictingSuffix_ne_nil
    rw [movedOne, movedTwo, if_neg notMirror, if_neg notMirror, if_neg staging_ne_trash,
      if_neg staging_ne_trash]
    exact alike.trash
  · apply Tree.occupied_congr
    intro rest
    simpa using moved rest

theorem occupied_discard {child : Text} (failure : Option Disk)
    (same : first.get? (parent ++ [child]) = second.get? (parent ++ [child])) :
    (GitCache.discard first (parent ++ [child]) failure).occupied (parent ++ [child]) =
      (GitCache.discard second (parent ++ [child]) failure).occupied (parent ++ [child]) := by
  simp only [GitCache.discard, cleanStaging]
  rw [← same]
  cases found : first.get? (parent ++ [child]) with
  | none =>
      rw [found] at same
      simp [Tree.occupied, found, ← same]
  | some node =>
      cases node with
      | file content =>
          rw [found] at same
          simp [Tree.occupied, found, ← same]
      | dir =>
          cases failure with
          | none => simp [Tree.occupied, Tree.get?_remove]
          | some left =>
              apply Tree.occupied_congr
              exact (sameBelow_graft first second left parent child).2

theorem get?_discard_sibling {disk : Disk} {child other : Text} (failure : Option Disk)
    (different : child ≠ other) (rest : Path) :
    (GitCache.discard disk (parent ++ [child]) failure).get? (parent ++ other :: rest) =
      disk.get? (parent ++ other :: rest) := by
  simp only [GitCache.discard, cleanStaging]
  cases disk.get? (parent ++ [child]) with
  | none => rfl
  | some node =>
      cases node with
      | file content => rfl
      | dir =>
          have untouched : (disk.replace (parent ++ [child]) failure).get?
              (parent ++ other :: rest) = disk.get? (parent ++ other :: rest) := by
            rw [Tree.get?_replace_child, if_neg different]
          cases failure with
          | none => exact untouched
          | some left => exact untouched

theorem Alike.vacate (alike : Alike parent name first second)
    (dirOne : first.get? (parent ++ [name]) = some .dir)
    (dirTwo : second.get? (parent ++ [name]) = some .dir)
    (room : first.occupied (parent ++ [name ++ evictingSuffix]) =
      second.occupied (parent ++ [name ++ evictingSuffix])) :
    AlikeDisks parent name
      (first.rename (parent ++ [name]) (parent ++ [name ++ evictingSuffix]))
      (second.rename (parent ++ [name]) (parent ++ [name ++ evictingSuffix])) := by
  have different : name ≠ name ++ evictingSuffix := append_ne_self evictingSuffix_ne_nil
  apply alikeDisks_rename different dirOne dirTwo room
  intro one two renamedOne renamedTwo
  have movedOne := Tree.get?_rename_sibling renamedOne
  have movedTwo := Tree.get?_rename_sibling renamedTwo
  have notStaging : name ≠ name ++ incomingSuffix := append_ne_self incomingSuffix_ne_nil
  have goneOne (rest : Path) : one.get? (parent ++ name :: rest) = none := by
    rw [movedOne, if_neg different.symm, if_pos rfl]
  have goneTwo (rest : Path) : two.get? (parent ++ name :: rest) = none := by
    rw [movedTwo, if_neg different.symm, if_pos rfl]
  refine ⟨?_, ?_, ?_, ?_, Or.inr ?_⟩
  · exact fun ancestor above => alike.isFile_rename_above renamedOne renamedTwo above
  · rw [goneOne, goneTwo]
  · rw [movedOne, movedTwo, if_neg staging_ne_trash.symm, if_neg staging_ne_trash.symm,
      if_neg notStaging, if_neg notStaging]
    exact alike.staging
  · rw [movedOne, movedTwo, if_pos rfl, if_pos rfl, dirOne, dirTwo]
  · apply Tree.occupied_congr
    intro rest
    simp [goneOne, goneTwo]

/-! ## Later operations -/

/-- An operation on one mirror, with its surroundings. -/
inductive Operation where
  | ensureFresh (env : Surroundings) (wantFetch : Bool)
  | evict (before after : Option Disk) (renameFails : Bool)

/-- What an operation reports: what it did, or how it failed. -/
abbrev Report := Except FreshError (Option CacheOutcome)

def Operation.perform (fetchTtl : ℕ) (repo : RepoRef) (cache : GitCache) :
    Operation → GitCache × Report
  | .ensureFresh env wantFetch =>
      let (after, result) := GitCache.ensureFresh fetchTtl env repo wantFetch cache
      (after, result.map some)
  | .evict before after renameFails =>
      let (after, result) := GitCache.evict before after renameFails repo.cacheDir cache
      (after, result.map fun _ => none)

/-- The reports of a sequence of operations. -/
def reports (fetchTtl : ℕ) (repo : RepoRef) : GitCache → List Operation → List Report
  | _, [] => []
  | cache, operation :: rest =>
      let (after, report) := operation.perform fetchTtl repo cache
      report :: reports fetchTtl repo after rest

/-- Two caches that no operation on the mirror can tell apart. -/
structure SameView (repo : RepoRef) (parent : Path) (name : Text) (first second : GitCache) :
    Prop where
  disks : Alike parent name first.disk second.disk
  last : first.last repo.name = second.last repo.name

section Operations

variable {repo : RepoRef} {one two : GitCache} (env : Surroundings)

theorem stagingDir_concat : stagingDir (parent ++ [name]) = parent ++ [name ++ incomingSuffix] := by
  simp [stagingDir, pushSuffix]

theorem trashDir_concat : trashDir (parent ++ [name]) = parent ++ [name ++ evictingSuffix] := by
  simp [trashDir, pushSuffix]

theorem Alike.runUpstream (alike : Alike parent name first second) (operation repo : Text)
    {child : Text} {staging : Bool} (works : WorksIn name staging child) (git : ℕ → Attempt) :
    AlikeRuns parent name child (.ok ())
      (Git.runUpstream operation repo (parent ++ [child]) staging git first)
      (Git.runUpstream operation repo (parent ++ [child]) staging git second) :=
  alike.runRounds 0 operation repo git works (maxUpstreamRetries + 1)

theorem SameView.fetch (placed : repo.cacheDir = parent ++ [name])
    (view : SameView repo parent name one two) :
    (GitCache.fetch env repo one).2 = (GitCache.fetch env repo two).2 ∧
      SameView repo parent name (GitCache.fetch env repo one).1 (GitCache.fetch env repo two).1 := by
  have works : WorksIn name false name := rfl
  have run := view.disks.runUpstream "fetch".toList repo.name works env.git
  simp only [GitCache.fetch, placed]
  generalize Git.runUpstream "fetch".toList repo.name (parent ++ [name]) false env.git one.disk =
    ranOne at run
  generalize Git.runUpstream "fetch".toList repo.name (parent ++ [name]) false env.git two.disk =
    ranTwo at run
  rcases ranOne with ⟨diskOne, resultOne⟩
  rcases ranTwo with ⟨diskTwo, resultTwo⟩
  rcases run with ⟨sameResult, alike, _⟩
  simp only at sameResult
  subst sameResult
  cases resultOne with
  | error error => exact ⟨rfl, alike, view.last⟩
  | ok _ => exact ⟨rfl, alike, view.last⟩

theorem SameView.cloneMirror (placed : repo.cacheDir = parent ++ [name])
    (view : SameView repo parent name one two) :
    (GitCache.cloneMirror env repo one).2 = (GitCache.cloneMirror env repo two).2 ∧
      SameView repo parent name (GitCache.cloneMirror env repo one).1
        (GitCache.cloneMirror env repo two).1 := by
  have made := view.disks.createDirAll (List.prefix_refl parent)
  have works : WorksIn name true (name ++ incomingSuffix) := rfl
  simp only [GitCache.cloneMirror, placed, List.dropLast_concat, stagingDir_concat]
  cases madeOne : one.disk.createDirAll parent with
  | none =>
      cases madeTwo : two.disk.createDirAll parent with
      | none => exact ⟨rfl, view⟩
      | some disk =>
          rw [madeOne, madeTwo] at made
          exact made.elim
  | some diskOne =>
      cases madeTwo : two.disk.createDirAll parent with
      | none =>
          rw [madeOne, madeTwo] at made
          exact made.elim
      | some diskTwo =>
          rw [madeOne, madeTwo] at made
          cases env.mkdirFailure with
          | some done =>
              refine ⟨rfl, ?_, view.last⟩
              have partly := view.disks.createDirAll (List.take_prefix done parent)
              simp only
              cases partOne : one.disk.createDirAll (parent.take done) with
              | none =>
                  cases partTwo : two.disk.createDirAll (parent.take done) with
                  | none => exact view.disks
                  | some disk =>
                      rw [partOne, partTwo] at partly
                      exact partly.elim
              | some disk =>
                  cases partTwo : two.disk.createDirAll (parent.take done) with
                  | none =>
                      rw [partOne, partTwo] at partly
                      exact partly.elim
                  | some other =>
                      rw [partOne, partTwo] at partly
                      exact partly
          | none =>
              have run := Alike.runUpstream made "clone".toList repo.name works env.git
              simp only
              generalize Git.runUpstream "clone".toList repo.name
                (parent ++ [name ++ incomingSuffix]) true env.git diskOne = ranOne at run
              generalize Git.runUpstream "clone".toList repo.name
                (parent ++ [name ++ incomingSuffix]) true env.git diskTwo = ranTwo at run
              rcases ranOne with ⟨diskOne, resultOne⟩
              rcases ranTwo with ⟨diskTwo, resultTwo⟩
              rcases run with ⟨sameResult, alike, filled⟩
              simp only at sameResult
              subst sameResult
              cases resultOne with
              | error error => exact ⟨rfl, alike, view.last⟩
              | ok _ =>
                  cases env.renameFails with
                  | true => exact ⟨rfl, alike, view.last⟩
                  | false =>
                      have installed := alike.install (filled rfl)
                      simp only [Bool.false_eq_true, if_false]
                      generalize Tree.rename diskOne _ _ = renamedOne at installed
                      generalize Tree.rename diskTwo _ _ = renamedTwo at installed
                      cases renamedOne with
                      | none =>
                          cases renamedTwo with
                          | none => exact ⟨rfl, alike, view.last⟩
                          | some disk => exact installed.elim
                      | some disk =>
                          cases renamedTwo with
                          | none => exact installed.elim
                          | some other => exact ⟨rfl, installed, view.last⟩

theorem SameView.ensureWantedOids (placed : repo.cacheDir = parent ++ [name])
    (view : SameView repo parent name one two) :
    SameView repo parent name (GitCache.ensureWantedOids env repo one)
      (GitCache.ensureWantedOids env repo two) := by
  simp only [GitCache.ensureWantedOids, placed]
  cases env.wants with
  | none => exact view
  | some mirror =>
      refine ⟨?_, view.last⟩
      apply view.disks.replace (some mirror)
      intro isStaging
      exact absurd isStaging (append_ne_self incomingSuffix_ne_nil)

theorem SameView.hasHead (placed : repo.cacheDir = parent ++ [name])
    (view : SameView repo parent name one two) :
    Git.hasHead one.disk repo.cacheDir = Git.hasHead two.disk repo.cacheDir := by
  have head := view.disks.head
  simp only [Git.hasHead, Tree.Exists, placed, List.append_assoc, List.singleton_append, ne_eq,
    decide_eq_decide]
  exact not_congr head

theorem SameView.stamp (view : SameView repo parent name one two) :
    SameView repo parent name
      { one with last := Function.update one.last repo.name env.started }
      { two with last := Function.update two.last repo.name env.started } :=
  ⟨view.disks, by simp⟩

theorem SameView.ensureFresh (placed : repo.cacheDir = parent ++ [name]) (fetchTtl : ℕ)
    (wantFetch : Bool) (view : SameView repo parent name one two) :
    (GitCache.ensureFresh fetchTtl env repo wantFetch one).2 =
        (GitCache.ensureFresh fetchTtl env repo wantFetch two).2 ∧
      SameView repo parent name (GitCache.ensureFresh fetchTtl env repo wantFetch one).1
        (GitCache.ensureFresh fetchTtl env repo wantFetch two).1 := by
  have touched : SameView repo parent name (one.touch repo.name) (two.touch repo.name) :=
    ⟨view.disks, view.last⟩
  have cloned := touched.cloneMirror env placed
  have fetched := touched.fetch env placed
  simp only [GitCache.ensureFresh, ← touched.hasHead placed, ← touched.last]
  split
  · generalize GitCache.cloneMirror env repo (one.touch repo.name) = ranOne at cloned
    generalize GitCache.cloneMirror env repo (two.touch repo.name) = ranTwo at cloned
    rcases ranOne with ⟨afterOne, resultOne⟩
    rcases ranTwo with ⟨afterTwo, resultTwo⟩
    rcases cloned with ⟨sameResult, after⟩
    simp only at sameResult after
    subst sameResult
    cases resultOne with
    | error error => exact ⟨rfl, after⟩
    | ok _ => exact ⟨rfl, (after.stamp env).ensureWantedOids env placed⟩
  · split
    · generalize GitCache.fetch env repo (one.touch repo.name) = ranOne at fetched
      generalize GitCache.fetch env repo (two.touch repo.name) = ranTwo at fetched
      rcases ranOne with ⟨afterOne, resultOne⟩
      rcases ranTwo with ⟨afterTwo, resultTwo⟩
      rcases fetched with ⟨sameResult, after⟩
      simp only at sameResult after
      subst sameResult
      cases resultOne with
      | error error => exact ⟨rfl, after⟩
      | ok _ => exact ⟨rfl, (after.stamp env).ensureWantedOids env placed⟩
    · exact ⟨rfl, touched.ensureWantedOids env placed⟩

theorem Alike.discard (alike : Alike parent name first second) (failure : Option Disk) :
    Alike parent name (GitCache.discard first (parent ++ [name ++ evictingSuffix]) failure)
      (GitCache.discard second (parent ++ [name ++ evictingSuffix]) failure) :=
  (alike.clean failure alike.trash).2

theorem SameView.evict (placed : repo.cacheDir = parent ++ [name])
    (before after : Option Disk) (renameFails : Bool)
    (view : SameView repo parent name one two) :
    (GitCache.evict before after renameFails repo.cacheDir one).2 =
        (GitCache.evict before after renameFails repo.cacheDir two).2 ∧
      SameView repo parent name (GitCache.evict before after renameFails repo.cacheDir one).1
        (GitCache.evict before after renameFails repo.cacheDir two).1 := by
  have sameHead := view.hasHead placed
  simp only [GitCache.evict, ← sameHead]
  split
  · exact ⟨rfl, view⟩
  rename_i present
  have mirror {disk : Disk} (head : Git.hasHead disk repo.cacheDir = true) :
      disk.get? (parent ++ [name]) = some .dir := by
    simp only [Git.hasHead, placed, decide_eq_true_eq] at head
    exact Tree.get?_of_child head
  have different : name ++ evictingSuffix ≠ name := (append_ne_self evictingSuffix_ne_nil).symm
  have kept (disk : Disk) : (GitCache.discard disk (parent ++ [name ++ evictingSuffix])
      before).get? (parent ++ [name]) = disk.get? (parent ++ [name]) :=
    get?_discard_sibling before different []
  simp only [not_not] at present
  have dirOne := (kept one.disk).trans (mirror present)
  have dirTwo := (kept two.disk).trans (mirror (sameHead.symm.trans present))
  rw [placed, trashDir_concat]
  have discarded := view.disks.discard before
  cases renameFails with
  | true => exact ⟨rfl, discarded, view.last⟩
  | false =>
      have vacated := discarded.vacate dirOne dirTwo (occupied_discard before view.disks.trash)
      simp only [Bool.false_eq_true, if_false]
      generalize Tree.rename (GitCache.discard one.disk _ before) _ _ = renamedOne at vacated
      generalize Tree.rename (GitCache.discard two.disk _ before) _ _ = renamedTwo at vacated
      cases renamedOne with
      | none =>
          cases renamedTwo with
          | none => exact ⟨rfl, discarded, view.last⟩
          | some disk => exact vacated.elim
      | some disk =>
          cases renamedTwo with
          | none => exact vacated.elim
          | some other =>
              have alike : Alike parent name disk other := vacated
              exact ⟨rfl, alike.discard after, view.last⟩

theorem SameView.perform (placed : repo.cacheDir = parent ++ [name]) (fetchTtl : ℕ)
    (operation : Operation) (view : SameView repo parent name one two) :
    (operation.perform fetchTtl repo one).2 = (operation.perform fetchTtl repo two).2 ∧
      SameView repo parent name (operation.perform fetchTtl repo one).1
        (operation.perform fetchTtl repo two).1 := by
  cases operation with
  | ensureFresh env wantFetch =>
      have same := view.ensureFresh env placed fetchTtl wantFetch
      simp only [Operation.perform, same.1]
      exact ⟨trivial, same.2⟩
  | evict before after renameFails =>
      have same := view.evict placed before after renameFails
      simp only [Operation.perform, same.1]
      exact ⟨trivial, same.2⟩

/-- Whatever is done to the mirror, the reports are the same. -/
theorem SameView.reports (placed : repo.cacheDir = parent ++ [name]) (fetchTtl : ℕ)
    (operations : List Operation) (view : SameView repo parent name one two) :
    Git.reports fetchTtl repo one operations = Git.reports fetchTtl repo two operations := by
  induction operations generalizing one two with
  | nil => rfl
  | cons operation rest ih =>
      have same := view.perform placed fetchTtl operation
      simp only [Git.reports]
      rw [same.1, ih same.2]

end Operations

end GitCacheProxy.Git
