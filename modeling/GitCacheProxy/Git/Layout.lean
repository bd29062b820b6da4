import GitCacheProxy.Git.Mirror

/-!
# Where the proxy keeps what

Mirrors, staging directories, trash directories and the LFS store share one
root.  The names that `resolve` accepts keep them apart: a suffix appended to
the last component of one directory is never part of another name.
-/

namespace GitCacheProxy.Git

open Repo

variable {upstreamBase : Text} {root : Path}

/-- The directory of `b` and the working paths of `a` do not meet. -/
structure Separate (root : Path) (a b : RepoRef) : Prop where
  /-- a proper descendant of the root, by ordinary components only -/
  below : ∃ rest, rest ≠ [] ∧ b.cacheDir = root ++ rest ∧
    ∀ comp ∈ rest, comp ≠ [] ∧ comp ≠ ".".toList ∧ comp ≠ "..".toList
  own : a.cacheDir = b.cacheDir → a.name = b.name
  outsideStaging : ¬stagingDir a.cacheDir <+: b.cacheDir
  outsideTrash : ¬trashDir a.cacheDir <+: b.cacheDir
  outsideStore : ¬root ++ [lfsObjectsDir] <+: b.cacheDir
  storeOutside : ¬b.cacheDir <+: root ++ [lfsObjectsDir]
  ownStaging : stagingDir a.cacheDir = stagingDir b.cacheDir → a.name = b.name
  ownTrash : trashDir a.cacheDir = trashDir b.cacheDir → a.name = b.name
  stagingNotTrash : stagingDir a.cacheDir ≠ trashDir b.cacheDir

theorem cacheDir_eq (repo : Resolved upstreamBase root) :
    WellNamed repo.name ∧ repo.cacheDir = root ++ repo.name.splitOn '/' := by
  rcases resolve_eq_ok_iff.mp repo.resolved with ⟨well, placed⟩
  exact ⟨well, congrArg RepoRef.cacheDir placed⟩

theorem name_eq_of_cacheDir_eq {a b : Resolved upstreamBase root}
    (same : a.cacheDir = b.cacheDir) : a.name = b.name := by
  rw [(cacheDir_eq a).2, (cacheDir_eq b).2] at same
  exact splitOn_injective (List.append_cancel_left same)

/-- Marks of one length on two directories: the directories and the marks can be read off. -/
theorem pushSuffix_injective {a b : Resolved upstreamBase root} {mark other : Text}
    (sameLength : mark.length = other.length)
    (same : pushSuffix a.cacheDir mark = pushSuffix b.cacheDir other) :
    a.name = b.name ∧ mark = other := by
  rcases pushSuffix_root root a.name mark with ⟨init, last, split, _, marked⟩
  rcases pushSuffix_root root b.name other with ⟨init', last', split', _, marked'⟩
  rw [(cacheDir_eq a).2, (cacheDir_eq b).2, marked, marked'] at same
  have parts := List.append_inj' (List.append_cancel_left same) rfl
  have lasts : last ++ mark = last' ++ other := by simpa using parts.2
  have ends := List.append_inj' lasts sameLength
  constructor
  · apply splitOn_injective
    rw [split, split', parts.1, ends.1]
  · exact ends.2

/-- No two names that `resolve` accepts get in each other's way. -/
theorem separate_of_resolved (a b : Resolved upstreamBase root) :
    Separate root a.toRepoRef b.toRepoRef where
  below := by
    rcases cacheDir_eq b with ⟨well, dir⟩
    exact ⟨_, List.splitOn_ne_nil _ _, dir, well.ordinary⟩
  own := name_eq_of_cacheDir_eq
  outsideStaging := by
    intro inside
    exact not_staging_above_head b.resolved a.resolved (inside.trans (List.prefix_append _ _))
  outsideTrash := by
    intro inside
    exact not_trash_above_head b.resolved a.resolved (inside.trans (List.prefix_append _ _))
  outsideStore := by
    have beside := besideStore b.resolved []
    rw [List.append_nil] at beside
    exact beside.not_store_above
  storeOutside := by
    have beside := besideStore b.resolved []
    rw [List.append_nil] at beside
    exact beside.not_above_store
  ownStaging := fun same => (pushSuffix_injective rfl same).1
  ownTrash := fun same => (pushSuffix_injective rfl same).1
  stagingNotTrash := by
    intro same
    have marks := (pushSuffix_injective (by decide) same).2
    exact absurd marks (by decide)

end GitCacheProxy.Git
