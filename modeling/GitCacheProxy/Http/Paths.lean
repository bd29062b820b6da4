import GitCacheProxy.Repo

/-!
# Which repository a request path names

The endpoints are recognised by how a path ends, and the repository is what
stands before.  The endpoints of git and the LFS batch endpoint share
`repo_name_from_path`, which trims slashes on both sides of the name.  The path
of an LFS object is cut at the first marker, and trimmed on the left only.
-/

namespace GitCacheProxy.Repo

/-- The path marker of an LFS endpoint. -/
def lfsMarker : Text := "/info/lfs/objects/".toList

/-- `str::trim_start_matches('/')` -/
def trimStart (text : Text) : Text := text.dropWhile (· = '/')

/-- `str::trim_end_matches('/')` -/
def trimEnd (text : Text) : Text := text.rdropWhile (· = '/')

/-- `str::strip_suffix` -/
def stripSuffix (text suffix : Text) : Option Text :=
  if suffix <:+ text then some (text.take (text.length - suffix.length)) else none

/-- `str::find`, the first of all places. -/
def find (text pattern : Text) : Option ℕ :=
  (List.range (text.length + 1)).find? fun idx => decide (pattern <+: text.drop idx)

/-- Strip the suffix of an endpoint from a request path. -/
def repoNameFromPath (path suffix : Text) : Option Text :=
  (stripSuffix (trimStart path) (trimStart suffix)).map trimEnd

def lfsBatchRepo (path : Text) : Option Text :=
  repoNameFromPath path (lfsMarker ++ "batch".toList)

/-- Split the path of an LFS object into repository and oid. -/
def lfsObjectFromPath (path : Text) : Option (Text × Text) :=
  let p := trimStart path
  match find p lfsMarker with
  | none => none
  | some idx =>
      let repo := p.take idx
      let oid := p.drop (idx + lfsMarker.length)
      if repo = [] ∨ validLfsOid oid = false then none else some (repo, oid)

/-! ## Slashes around a name -/

section Slashes

variable {text name : Text}

theorem slashes_trimStart (text : Text) :
    ∃ leading, text = List.replicate leading '/' ++ trimStart text := by
  refine ⟨(text.takeWhile (· = '/')).length, ?_⟩
  have slashes : text.takeWhile (· = '/') =
      List.replicate (text.takeWhile (· = '/')).length '/' := by
    rw [List.eq_replicate_iff]
    refine ⟨rfl, ?_⟩
    intro char charMem
    simpa using List.mem_takeWhile_imp charMem
  rw [← slashes, trimStart, List.takeWhile_append_dropWhile]

theorem trimEnd_slashes (text : Text) :
    ∃ trailing, text = trimEnd text ++ List.replicate trailing '/' := by
  refine ⟨(text.rtakeWhile (· = '/')).length, ?_⟩
  have slashes : text.rtakeWhile (· = '/') =
      List.replicate (text.rtakeWhile (· = '/')).length '/' := by
    rw [List.eq_replicate_iff]
    refine ⟨rfl, ?_⟩
    intro char charMem
    simpa using List.mem_rtakeWhile_imp charMem
  rw [← slashes, trimEnd, List.rdropWhile_append_rtakeWhile]

theorem trimStart_of_relative (relative : text.head? ≠ some '/') : trimStart text = text := by
  cases text with
  | nil => rfl
  | cons first rest =>
      rw [trimStart, List.dropWhile_cons_of_neg]
      simpa using relative

theorem trimStart_append (leading : ℕ) (relative : text.head? ≠ some '/') :
    trimStart (List.replicate leading '/' ++ text) = text := by
  induction leading with
  | zero => exact trimStart_of_relative relative
  | succ leading ih =>
      rw [List.replicate_succ, List.cons_append, trimStart,
        List.dropWhile_cons_of_pos (by simp), ← trimStart, ih]

theorem trimEnd_append (trailing : ℕ) (text : Text) :
    trimEnd (text ++ List.replicate trailing '/') = trimEnd text := by
  induction trailing with
  | zero => simp
  | succ trailing ih =>
      rw [List.replicate_succ', ← List.append_assoc, trimEnd,
        List.rdropWhile_concat_pos _ _ _ (by simp), ← trimEnd, ih]

theorem head?_trimStart (text : Text) : (trimStart text).head? ≠ some '/' := by
  intro absolute
  have notSlash := List.head?_dropWhile_not (· = '/') text
  rw [← trimStart, absolute] at notSlash
  simp at notSlash

namespace WellNamed

/-- The last component of a well-formed name is not empty. -/
theorem trimEnd_eq (wellNamed : WellNamed name) : trimEnd name = name := by
  rw [trimEnd, List.rdropWhile_eq_self_iff]
  intro nonempty trailing
  have last : name.getLast nonempty = '/' := by simpa using trailing
  have blank : [] ∈ name.splitOn '/' := by
    rw [← List.dropLast_append_getLast nonempty, last, List.splitOn_append_cons_self]
    simp
  exact (wellNamed.ordinary [] blank).1 rfl

theorem nonempty (wellNamed : WellNamed name) : name ≠ [] := by
  rintro rfl
  exact (wellNamed.ordinary [] (by simp)).1 rfl

/-- Slashes around a well-formed name are trimmed away, and no more. -/
theorem trim_eq (wellNamed : WellNamed name) (leading trailing : ℕ) :
    trimEnd (trimStart (List.replicate leading '/' ++ name ++ List.replicate trailing '/')) =
      name := by
  have relative : (name ++ List.replicate trailing '/').head? ≠ some '/' := by
    rw [List.head?_append_of_ne_nil _ wellNamed.nonempty]
    exact wellNamed.notAbsolute
  rw [List.append_assoc, trimStart_append leading relative, trimEnd_append, wellNamed.trimEnd_eq]

end WellNamed

end Slashes

/-! ## What the extractors return -/

section Extractors

variable {path before last repo oid : Text}

theorem stripSuffix_append (text suffix : Text) :
    stripSuffix (text ++ suffix) suffix = some text := by
  rw [stripSuffix, if_pos (List.suffix_append _ _)]
  simp

/-- The name is what stands before the endpoint, without slashes around it. -/
theorem repoNameFromPath_append (before : Text) (relative : last.head? ≠ some '/') :
    repoNameFromPath (before ++ '/' :: last) ('/' :: last) = some (trimEnd (trimStart before)) := by
  have endpoint : trimStart ('/' :: last) = last := trimStart_append 1 relative
  rw [repoNameFromPath, endpoint]
  by_cases empty : trimStart before = []
  · have trimmed : trimStart (before ++ '/' :: last) = [] ++ last := by
      rw [trimStart, List.dropWhile_append, ← trimStart, empty]
      exact endpoint
    rw [trimmed, stripSuffix_append, empty]
    rfl
  · have trimmed : trimStart (before ++ '/' :: last) = trimStart before ++ ['/'] ++ last := by
      rw [trimStart, List.dropWhile_append, ← trimStart, if_neg (by simpa using empty)]
      simp
    rw [trimmed, stripSuffix_append]
    exact congrArg some (trimEnd_append 1 _)

theorem lfsBatchRepo_append (before : Text) :
    lfsBatchRepo (before ++ lfsMarker ++ "batch".toList) = some (trimEnd (trimStart before)) := by
  rw [List.append_assoc]
  exact repoNameFromPath_append before (by decide)

/-- The path of an object, cut where its oid begins. -/
theorem of_lfsObjectFromPath (found : lfsObjectFromPath path = some (repo, oid)) :
    validLfsOid oid = true ∧
      ∃ before, path = before ++ lfsMarker ++ oid ∧ repo = trimStart before := by
  simp only [lfsObjectFromPath] at found
  cases located : find (trimStart path) lfsMarker with
  | none => simp [located] at found
  | some idx =>
      simp only [located, ite_eq_iff, reduceCtorEq, and_false, false_or, not_or, Option.some.injEq,
        Prod.mk.injEq, Bool.not_eq_false] at found
      rcases found with ⟨⟨nonempty, valid⟩, rfl, rfl⟩
      have marked := (List.find?_range_eq_some.mp located).1
      rw [decide_eq_true_eq] at marked
      rcases marked with ⟨rest, atMarker⟩
      have oidIs : (trimStart path).drop (idx + lfsMarker.length) = rest := by
        rw [← List.drop_drop, ← atMarker, List.drop_left]
      rcases slashes_trimStart path with ⟨leading, whole⟩
      refine ⟨valid, List.replicate leading '/' ++ (trimStart path).take idx, ?_, ?_⟩
      · rw [oidIs, List.append_assoc, List.append_assoc, atMarker, List.take_append_drop, ← whole]
      · rw [trimStart_append]
        rw [List.head?_take, if_neg]
        · exact head?_trimStart path
        · rintro rfl
          exact nonempty rfl

/-- Where the last component of a path is cut off is determined. -/
theorem before_unique {before' last' : Text} (noSlash : '/' ∉ last) (noSlash' : '/' ∉ last')
    (same : before ++ lfsMarker ++ last = before' ++ lfsMarker ++ last') : before = before' := by
  have marker : lfsMarker = "/info/lfs/objects".toList ++ ['/'] := by decide
  generalize "/info/lfs/objects".toList = mark at marker
  have cut (text tail : Text) (tailNoSlash : '/' ∉ tail) :
      (text ++ lfsMarker ++ tail).splitOn '/' = (text ++ mark).splitOn '/' ++ [tail] := by
    have pieces : text ++ lfsMarker ++ tail = (text ++ mark) ++ '/' :: tail := by simp [marker]
    rw [pieces, List.splitOn_append_cons_self, List.splitOn_eq_singleton tailNoSlash]
  have split : (before ++ mark).splitOn '/' ++ [last] =
      (before' ++ mark).splitOn '/' ++ [last'] := by
    rw [← cut before last noSlash, ← cut before' last' noSlash', same]
  exact List.append_cancel_right (splitOn_injective (List.append_inj_left' split rfl))

end Extractors

end GitCacheProxy.Repo
