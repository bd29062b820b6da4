import GitCacheProxy.Foundation.Infix
import GitCacheProxy.Lfs.Batch

/-!
# The URLs of objects

The proxy advertises an object under a URL made of the repository of a batch request, the oid and
the size, and reads the three back from the path and the query of the request for it.  The path is
cut at the first marker.  A repository that contains the marker, or ends so that the marker begins
in it, is therefore not found again, nor is one without a name.

The marker overlaps with itself only by its last slash.
-/

namespace GitCacheProxy.Lfs

open Http Repo

/-- A path as it stands in a URL. -/
structure IsPath (path : Text) : Prop where
  noQuery : '?' ∉ path
  noFragment : '#' ∉ path

/-- The path and the query that are sent; a fragment is not. -/
def pathAndQuery (target : Text) : Text × Text :=
  let sent := target.takeWhile (· ≠ '#')
  (sent.takeWhile (· ≠ '?'), (sent.dropWhile (· ≠ '?')).drop 1)

/-- What is asked of the server at a base, for a URL below it. -/
def requestTarget (base url : Text) : Option (Text × Text) :=
  (stripPrefix url base).map pathAndQuery

/-- The path and the query of an absolute URL. -/
def urlTarget (url : Text) : Option (Text × Text) :=
  (find url "://".toList).map fun idx =>
    pathAndQuery ((url.drop (idx + 3)).dropWhile fun c => decide (c ∉ ['/', '?', '#']))

/-- A base of the form `scheme://host`. -/
def Origin (base : Text) : Prop :=
  ∃ scheme host, base = scheme ++ "://".toList ++ host ∧ ':' ∉ scheme ∧
    ∀ c ∈ host, c ∉ ['/', '?', '#']

/-! ## The place of the marker -/

section Marker

variable {path repo oid : Text} {idx : ℕ}

theorem find_eq_some {text pattern : Text} (occurs : pattern <+: text.drop idx)
    (first : ∀ j < idx, ¬pattern <+: text.drop j) (bound : idx ≤ text.length) :
    find text pattern = some idx := by
  rw [find, List.find?_range_eq_some]
  refine ⟨by simpa using occurs, List.mem_range.mpr (by omega), ?_⟩
  intro j early
  simpa using first j early

theorem find_of_not_infix {text pattern : Text} (absent : ¬pattern <:+: text) :
    find text pattern = none := by
  rw [find, List.find?_range_eq_none]
  intro idx _
  have nowhere : ¬pattern <+: text.drop idx :=
    fun occurs => absent (occurs.isInfix.trans (List.drop_suffix _ _).isInfix)
  simpa using nowhere

/-- A pattern is found no later than where it occurs. -/
theorem exists_find {text pattern : Text} {early : ℕ} (bound : early ≤ text.length)
    (occurs : pattern <+: text.drop early) : ∃ idx ≤ early, find text pattern = some idx := by
  cases located : find text pattern with
  | none =>
      have nowhere := List.find?_range_eq_none.mp located early (Nat.lt_succ_of_le bound)
      simp [occurs] at nowhere
  | some idx =>
      refine ⟨idx, ?_, rfl⟩
      by_contra late
      have nowhere := (List.find?_range_eq_some.mp located).2.2 early (Nat.lt_of_not_le late)
      simp [occurs] at nowhere

/-- Before a marker there is another one only in the name, or in the name and the slash that the
marker begins with. -/
theorem exists_earlier_iff :
    (∃ idx < repo.length, lfsMarker <+: (repo ++ (lfsMarker ++ oid)).drop idx) ↔
      lfsMarker <:+: repo ++ ['/'] := by
  have overlaps : ∀ k < 18, 0 < k → lfsMarker.drop k <+: lfsMarker → lfsMarker.drop k = ['/'] := by
    decide
  exact Infix.exists_prefix_drop_iff ⟨"info/lfs/objects/".toList, rfl⟩ (by decide)
    fun k positive short => overlaps k short positive

theorem trimStart_slash_append (relative : repo.head? ≠ some '/') (nonempty : repo ≠ [])
    (rest : Text) : trimStart ('/' :: (repo ++ rest)) = repo ++ rest := by
  have stillRelative : (repo ++ rest).head? ≠ some '/' := by
    rwa [List.head?_append_of_ne_nil _ nonempty]
  exact trimStart_append 1 stillRelative

theorem lfsObjectFromPath_nil (valid : validLfsOid oid = true) :
    lfsObjectFromPath ('/' :: (lfsMarker ++ oid)) = none := by
  have relative : ("info/lfs/objects/".toList ++ oid).head? ≠ some '/' := by
    intro absolute
    have same : 'i' = '/' := Option.some.inj absolute
    exact absurd same (by decide)
  have trimmed : trimStart ('/' :: (lfsMarker ++ oid)) = "info/lfs/objects/".toList ++ oid :=
    trimStart_append 2 relative
  have lastSlash : ∀ c ∈ oid, lfsMarker.getLast? ≠ some c := by
    rintro c cMem last
    have slash : some '/' = some c := last
    exact slash_not_mem_of_validLfsOid valid (Option.some.inj slash ▸ cMem)
  have absent : ¬lfsMarker <:+: "info/lfs/objects/".toList ++ oid := by
    rw [Infix.infix_append_iff_of_last (by decide) lastSlash]
    decide
  rw [lfsObjectFromPath, trimmed, find_of_not_infix absent]

/-- What stands behind an earlier marker is too long for an oid. -/
theorem lfsObjectFromPath_of_earlier (relative : repo.head? ≠ some '/') (nonempty : repo ≠ [])
    (valid : validLfsOid oid = true) (marked : lfsMarker <:+: repo ++ ['/']) :
    lfsObjectFromPath ('/' :: (repo ++ (lfsMarker ++ oid))) = none := by
  have trimmed := trimStart_slash_append relative nonempty (lfsMarker ++ oid)
  have earlier : ∃ idx < repo.length, lfsMarker <+: (repo ++ (lfsMarker ++ oid)).drop idx :=
    exists_earlier_iff.mpr marked
  rcases earlier with ⟨early, earlyBound, occurs⟩
  have bound : early ≤ (repo ++ (lfsMarker ++ oid)).length := by
    rw [List.length_append]
    omega
  rcases exists_find bound occurs with ⟨idx, least, located⟩
  rw [lfsObjectFromPath, trimmed]
  simp only [located]
  apply if_pos
  right
  rw [Bool.eq_false_iff]
  intro validRest
  have long := length_of_validLfsOid validRest
  have oidLong := length_of_validLfsOid valid
  rw [List.length_drop, List.length_append, List.length_append] at long
  omega

theorem lfsObjectFromPath_of_first (relative : repo.head? ≠ some '/') (nonempty : repo ≠ [])
    (valid : validLfsOid oid = true) (unmarked : ¬lfsMarker <:+: repo ++ ['/']) :
    lfsObjectFromPath ('/' :: (repo ++ (lfsMarker ++ oid))) = some (repo, oid) := by
  have trimmed := trimStart_slash_append relative nonempty (lfsMarker ++ oid)
  have located : find (repo ++ (lfsMarker ++ oid)) lfsMarker = some repo.length := by
    apply find_eq_some
    · rw [List.drop_left]
      exact List.prefix_append _ _
    · intro idx early occurs
      exact unmarked (exists_earlier_iff.mp ⟨idx, early, occurs⟩)
    · simp
  rw [lfsObjectFromPath, trimmed]
  simp only [located]
  rw [List.take_left, ← List.drop_drop, List.drop_left, List.drop_left, if_neg]
  simp [nonempty, valid]

/-- An advertised path is read back if and only if its first marker is the one that was put in. -/
theorem lfsObjectFromPath_append (relative : repo.head? ≠ some '/')
    (valid : validLfsOid oid = true) :
    lfsObjectFromPath ('/' :: (repo ++ (lfsMarker ++ oid))) =
      if repo ≠ [] ∧ ¬lfsMarker <:+: repo ++ ['/'] then some (repo, oid) else none := by
  split
  · rename_i found
    exact lfsObjectFromPath_of_first relative found.1 valid found.2
  · rename_i lost
    by_cases nonempty : repo = []
    · subst repo
      exact lfsObjectFromPath_nil valid
    · apply lfsObjectFromPath_of_earlier relative nonempty valid
      by_contra unmarked
      exact lost ⟨nonempty, unmarked⟩

/-- The slash before the oid belongs to two markers. -/
example : lfsObjectFromPath ('/' :: ("x/info/lfs/objects".toList ++
    (lfsMarker ++ List.replicate 64 'a'))) = none := by decide

/-- The name of a batch request is a part of its path that does not begin with a slash. -/
theorem of_lfsBatchRepo (named : lfsBatchRepo path = some repo) :
    repo <:+: path ∧ repo.head? ≠ some '/' := by
  rw [lfsBatchRepo, repoNameFromPath, Option.map_eq_some_iff] at named
  rcases named with ⟨before, stripped, rfl⟩
  have beforePath : before <+: trimStart path := by
    rw [stripSuffix, ite_eq_iff] at stripped
    rcases stripped with ⟨_, taken⟩ | ⟨_, nothing⟩
    · rw [← Option.some.inj taken]
      exact List.take_prefix _ _
    · cases nothing
  have inside : trimEnd before <+: trimStart path := (List.rdropWhile_prefix _ _).trans beforePath
  refine ⟨inside.isInfix.trans (List.dropWhile_suffix _).isInfix, ?_⟩
  intro absolute
  apply head?_trimStart path
  rcases inside with ⟨rest, whole⟩
  rw [← whole, List.head?_append_of_ne_nil, absolute]
  rintro empty
  simp [empty] at absolute

end Marker

/-! ## The parts of a URL -/

section Parts

variable {base path repo oid query : Text} {size : ℕ}

theorem pathAndQuery_append (plain : IsPath path) (noFragment : '#' ∉ query) :
    pathAndQuery (path ++ '?' :: query) = (path, query) := by
  have sent : (path ++ '?' :: query).takeWhile (· ≠ '#') = path ++ '?' :: query := by
    rw [List.takeWhile_eq_self_iff]
    intro c cMem
    rw [decide_eq_true_eq]
    rintro rfl
    rcases List.mem_append.mp cMem with inPath | inQuery
    · exact plain.noFragment inPath
    · simp [noFragment] at inQuery
  have noQuery : ∀ c ∈ path, decide (c ≠ '?') = true := by
    intro c cMem
    rw [decide_eq_true_eq]
    rintro rfl
    exact plain.noQuery cMem
  rw [pathAndQuery, sent]
  simp only [List.takeWhile_append_of_pos noQuery, List.dropWhile_append_of_pos noQuery]
  simp

theorem requestTarget_append (base target : Text) :
    requestTarget base (base ++ target) = some (pathAndQuery target) := by
  rw [requestTarget, stripPrefix, if_pos (List.prefix_append _ _), List.drop_left, Option.map_some]

/-- Below `scheme://host` the two readings of a URL agree. -/
theorem urlTarget_append (origin : Origin base) (rest : Text) :
    urlTarget (base ++ '/' :: rest) = some (pathAndQuery ('/' :: rest)) := by
  rcases origin with ⟨scheme, host, rfl, noColon, plainHost⟩
  have whole : scheme ++ "://".toList ++ host ++ '/' :: rest =
      scheme ++ ("://".toList ++ (host ++ '/' :: rest)) := by simp
  have located : find (scheme ++ ("://".toList ++ (host ++ '/' :: rest))) "://".toList =
      some scheme.length := by
    apply find_eq_some
    · rw [List.drop_left]
      exact List.prefix_append _ _
    · intro j early occurs
      rw [List.drop_append_of_le_length (Nat.le_of_lt early), List.drop_eq_getElem_cons early,
        List.cons_append] at occurs
      have colon : ':' = scheme[j] := (List.cons_prefix_cons.mp occurs).1
      exact noColon (colon ▸ List.getElem_mem early)
    · simp
  rw [urlTarget, whole, located, Option.map_some, ← List.drop_drop, List.drop_left]
  have behind : ("://".toList ++ (host ++ '/' :: rest)).drop 3 = host ++ '/' :: rest := rfl
  rw [behind, List.dropWhile_append_of_pos, List.dropWhile_cons_of_neg (by simp)]
  intro c cMem
  simpa using plainHost c cMem

theorem sizeFromQuery_toDigits (fits : size < UInt64.size) :
    sizeFromQuery ("size=".toList ++ Nat.toDigits 10 size) = some size := by
  have digits : ∀ c ∈ Nat.toDigits 10 size, c.isDigit = true :=
    fun _ cMem => Nat.isDigit_of_mem_toDigits (by decide) (by decide) cMem
  have one : ("size=".toList ++ Nat.toDigits 10 size).splitOn '&' =
      ["size=".toList ++ Nat.toDigits 10 size] := by
    apply List.splitOn_eq_singleton
    intro ampersand
    rcases List.mem_append.mp ampersand with inName | inDigits
    · revert inName
      decide
    · exact absurd (digits _ inDigits) (by decide)
  have stripped : stripPrefix ("size=".toList ++ Nat.toDigits 10 size) "size=".toList =
      some (Nat.toDigits 10 size) := by
    rw [stripPrefix, if_pos (List.prefix_append _ _), List.drop_left]
  have unsigned (rest : Text) : Nat.toDigits 10 size ≠ '+' :: rest := by
    intro signed
    exact absurd (digits '+' (by simp [signed])) (by decide)
  have value : (Nat.toDigits 10 size).foldl
      (fun value digit => 10 * value + (digit.toNat - '0'.toNat)) 0 = size :=
    Nat.ofDigitChars_ten_toDigits
  rw [sizeFromQuery, one, List.findSome?_singleton, stripped, Option.bind_some, parseU64]
  · rw [value]
    apply if_pos
    exact ⟨Nat.toDigits_ne_nil, List.all_eq_true.mpr digits, fits⟩
  · exact unsigned

end Parts

/-! ## Reading back what is advertised -/

section Advertised

variable {path repo oid : Text} {size : ℕ}

theorem get_href_rewriteDownload (advertiseBase repo : Text) (serveToken : Option Text)
    (oid : Text) (size : ℕ) (download : List (Text × Json)) :
    (rewriteDownload advertiseBase repo serveToken oid size (.object download)).get "href".toList =
      some (.string (downloadHref advertiseBase repo oid size)) := by
  have different : "href".toList ≠ "header".toList := by decide
  cases serveToken with
  | none =>
      simp only [rewriteDownload, Json.get]
      rw [SortedMap.lookup_erase, if_neg different, SortedMap.lookup_insert, if_pos rfl]
  | some token =>
      simp only [rewriteDownload, Json.get]
      rw [SortedMap.lookup_insert, if_neg different, SortedMap.lookup_insert, if_pos rfl]

theorem isPath_objectPath (plain : IsPath path) (inPath : repo <:+: path)
    (valid : validLfsOid oid = true) : IsPath ('/' :: (repo ++ (lfsMarker ++ oid))) := by
  have foreign (c : Char) (inMarker : c ∉ lfsMarker) (notSlash : c ≠ '/')
      (notHex : ¬('0' ≤ c ∧ c ≤ '9')) (notHex' : ¬('a' ≤ c ∧ c ≤ 'f')) (notIn : c ∉ path) :
      c ∉ '/' :: (repo ++ (lfsMarker ++ oid)) := by
    rw [List.mem_cons, List.mem_append, List.mem_append]
    rintro (slash | inRepo | marked | inOid)
    · exact notSlash slash
    · exact notIn (inPath.subset inRepo)
    · exact inMarker marked
    · rcases mem_of_validLfsOid valid inOid with digit | letter
      · exact notHex digit
      · exact notHex' letter
  constructor
  · exact foreign '?' (by decide) (by decide) (by decide) (by decide) plain.noQuery
  · exact foreign '#' (by decide) (by decide) (by decide) (by decide) plain.noFragment

def appBatch : Text := "/team/app/info/lfs/objects/batch".toList

def appObject : Text := List.replicate 64 'a'

end Advertised

end GitCacheProxy.Lfs
