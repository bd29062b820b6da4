import Mathlib.Data.List.DropRight
import Mathlib.Data.List.Infix

/-!
# Names, keys and paths

How a request path becomes a mirror directory, and where the proxy keeps its
own files.  A text is a list of characters and a path a list of components from
the root of the file system.

`resolve` accepts a name when all its components are ordinary and it carries
none of the reserved marks (`WellNamed`).  What the rest of the development
needs from this is below it: accepted names have distinct directories, and no
staging directory, trash directory or LFS object lies at, above or below one.
-/

namespace GitCacheProxy

/-- A string of the source. -/
abbrev Text := List Char

/-- A path from the root of the file system. -/
abbrev Path := List Text

/-- The components that `Path` sees in a text: empty ones and `.` are skipped. -/
def components (text : Text) : Path :=
  (text.splitOn '/').filter fun comp => decide (comp ≠ [] ∧ comp ≠ ['.'])

/-- `Path::join`; an absolute argument replaces the base. -/
def join (base : Path) (text : Text) : Path :=
  if text.head? = some '/' then components text else base ++ components text

/-- `OsString::push` on a whole path: the last component grows. -/
def pushSuffix (path : Path) (suffix : Text) : Path :=
  path.dropLast ++ [path.getLast?.getD [] ++ suffix]

namespace Repo

def incomingSuffix : Text := ".__incoming__".toList

def evictingSuffix : Text := ".__evicting__".toList

def lfsObjectsDir : Text := ".__lfs__".toList

/-- A resolved repository: where it is fetched from and where it is cached. -/
structure RepoRef where
  name : Text
  upstreamUrl : Text
  cacheDir : Path
  deriving DecidableEq

/-- The four ways in which `resolve` bails. -/
inductive ResolveError where
  | invalidPath (name : Text)
  | invalidComponent (name : Text)
  | reservedSuffix (name : Text)
  | escapesRoot (name : Text)
  deriving DecidableEq

/-- The text of the error; `debug` is the `{:?}` formatting of the name. -/
def ResolveError.message (debug : Text → Text) : ResolveError → Text
  | invalidPath name => "invalid repo path: ".toList ++ debug name
  | invalidComponent name => "invalid repo path component in ".toList ++ debug name
  | reservedSuffix name => "invalid repo path (reserved suffix) in ".toList ++ debug name
  | escapesRoot name => "repo path escapes cache root: ".toList ++ debug name

/-- Validate a repo path and resolve it against the upstream base and the cache root. -/
def resolve (name upstreamBase : Text) (cacheRoot : Path) : Except ResolveError RepoRef :=
  if name = [] ∨ '\x00' ∈ name ∨ name.head? = some '/' then
    .error (.invalidPath name)
  else if ∃ comp ∈ name.splitOn '/', comp = [] ∨ comp = ".".toList ∨ comp = "..".toList then
    .error (.invalidComponent name)
  else if incomingSuffix <:+: name ∨ evictingSuffix <:+: name ∨ lfsObjectsDir <:+: name then
    .error (.reservedSuffix name)
  else if ¬cacheRoot <+: join cacheRoot name then
    .error (.escapesRoot name)
  else
    .ok {
      name := name
      upstreamUrl := upstreamBase.rdropWhile (· = '/') ++ '/' :: name
      cacheDir := join cacheRoot name }

/-- A name that `resolve` has nothing to say against. -/
structure WellNamed (name : Text) : Prop where
  noNul : '\x00' ∉ name
  ordinary : ∀ comp ∈ name.splitOn '/', comp ≠ [] ∧ comp ≠ ".".toList ∧ comp ≠ "..".toList
  notStaging : ¬incomingSuffix <:+: name
  notTrash : ¬evictingSuffix <:+: name
  notStore : ¬lfsObjectsDir <:+: name

namespace WellNamed

variable {name : Text}

theorem notAbsolute (wellNamed : WellNamed name) : name.head? ≠ some '/' := by
  intro absolute
  cases name with
  | nil => cases absolute
  | cons first rest =>
      simp only [List.head?_cons, Option.some.injEq] at absolute
      subst absolute
      have leading : [] ∈ ('/' :: rest).splitOn '/' := by
        have split := List.splitOn_append_cons_self (a := '/') [] rest
        simp only [List.nil_append, List.splitOn_nil] at split
        simp [split]
      exact (wellNamed.ordinary _ leading).1 rfl

theorem components_eq (wellNamed : WellNamed name) : components name = name.splitOn '/' := by
  unfold components
  rw [List.filter_eq_self]
  intro comp compMem
  have ordinary := wellNamed.ordinary comp compMem
  simpa using ⟨ordinary.1, ordinary.2.1⟩

theorem join_eq (wellNamed : WellNamed name) (root : Path) :
    join root name = root ++ name.splitOn '/' := by
  rw [join, if_neg wellNamed.notAbsolute, wellNamed.components_eq]

end WellNamed

/-- `resolve` accepts exactly the well-named; the last check never fires. -/
theorem resolve_eq_ok_iff {name upstreamBase : Text} {cacheRoot : Path} {repo : RepoRef} :
    resolve name upstreamBase cacheRoot = .ok repo ↔
      WellNamed name ∧ repo = {
        name := name
        upstreamUrl := upstreamBase.rdropWhile (· = '/') ++ '/' :: name
        cacheDir := cacheRoot ++ name.splitOn '/' } := by
  constructor
  · intro accepted
    unfold resolve at accepted
    split at accepted
    · cases accepted
    split at accepted
    · cases accepted
    split at accepted
    · cases accepted
    split at accepted
    · cases accepted
    rename_i shaped ordinary unreserved _
    simp only [not_or, not_exists, not_and] at shaped ordinary unreserved
    have wellNamed : WellNamed name :=
      ⟨shaped.2.1, ordinary, unreserved.1, unreserved.2.1, unreserved.2.2⟩
    refine ⟨wellNamed, ?_⟩
    rw [wellNamed.join_eq] at accepted
    exact (Except.ok.inj accepted).symm
  · rintro ⟨wellNamed, rfl⟩
    have nonempty : name ≠ [] := by
      rintro rfl
      exact (wellNamed.ordinary [] (by simp)).1 rfl
    have ordinary : ¬∃ comp ∈ name.splitOn '/',
        comp = [] ∨ comp = ".".toList ∨ comp = "..".toList := by
      rintro ⟨comp, compMem, special⟩
      have plain := wellNamed.ordinary comp compMem
      simp_all
    unfold resolve
    rw [if_neg (by simp [nonempty, wellNamed.noNul, wellNamed.notAbsolute]), if_neg ordinary,
      if_neg (by simp [wellNamed.notStaging, wellNamed.notTrash, wellNamed.notStore]),
      if_neg (by simp [wellNamed.join_eq]), wellNamed.join_eq]

/-- A repository that came out of `resolve`. -/
structure Resolved (upstreamBase : Text) (cacheRoot : Path) extends RepoRef where
  resolved : resolve name upstreamBase cacheRoot = .ok toRepoRef

theorem Resolved.cacheDir_ne_nil {upstreamBase : Text} {root : Path}
    (repo : Resolved upstreamBase root) : repo.cacheDir ≠ [] := by
  rcases resolve_eq_ok_iff.mp repo.resolved with ⟨_, placed⟩
  rw [placed]
  simp [List.splitOn_ne_nil]

/-! ## The LFS store -/

def incomingDir : Text := ".incoming".toList

/-- Lowercase-hex sha256: 64 hex digits. -/
def validLfsOid (oid : Text) : Bool :=
  decide (oid.length = 64) &&
    oid.all fun c => decide (('0' ≤ c ∧ c ≤ '9') ∨ ('a' ≤ c ∧ c ≤ 'f'))

/-- Cache key of an LFS object, sharded by the first two digits. -/
def lfsObjectKey (oid : Text) : Text :=
  lfsObjectsDir ++ '/' :: (oid.take 2 ++ '/' :: oid)

/-- On-disk path of a cached LFS object. -/
def lfsObjectPath (cacheRoot : Path) (oid : Text) : Path := join cacheRoot (lfsObjectKey oid)

/-- Whether a cache key names an LFS object rather than a bare mirror. -/
def isLfsBlob (name : Text) : Bool := decide ((name.splitOn '/').head? = some lfsObjectsDir)

/-! ## Paths that never meet -/

theorem infix_of_mem_splitOn {separator : Char} {text comp : Text}
    (compMem : comp ∈ text.splitOn separator) : comp <:+: text := by
  have whole : [separator].intercalate (text.splitOn separator) = text :=
    List.intercalate_splitOn separator
  rw [← whole]
  generalize text.splitOn separator = comps at compMem
  induction comps with
  | nil => cases compMem
  | cons first rest ih =>
      cases rest with
      | nil =>
          rcases List.mem_singleton.mp compMem with rfl
          simp
      | cons second others =>
          rw [List.intercalate_cons_cons]
          rcases List.mem_cons.mp compMem with rfl | later
          · rw [List.append_assoc]
            exact (List.prefix_append _ _).isInfix
          · exact (ih later).trans (List.suffix_append _ _).isInfix

theorem splitOn_injective {first second : Text}
    (same : first.splitOn '/' = second.splitOn '/') : first = second := by
  have firstWhole : ['/'].intercalate (first.splitOn '/') = first := List.intercalate_splitOn '/'
  rw [← firstWhole, same, List.intercalate_splitOn]

/-- Adding a reserved mark to a directory gives a path with that mark in it. -/
theorem pushSuffix_append {root rest : Path} (notRoot : rest ≠ []) (suffix : Text) :
    pushSuffix (root ++ rest) suffix = root ++ pushSuffix rest suffix := by
  have last : (root ++ rest).getLast? = rest.getLast? := by
    rw [List.getLast?_append_of_ne_nil _ notRoot]
  simp [pushSuffix, List.dropLast_append_of_ne_nil notRoot, last]

section Reserved

variable {name mark upstreamBase : Text} {root rest : Path}

/-- A directory whose last component carries a mark, relative to the root. -/
theorem pushSuffix_root (root : Path) (name mark : Text) :
    ∃ init last, name.splitOn '/' = init ++ [last] ∧
      (root ++ name.splitOn '/').dropLast = root ++ init ∧
      pushSuffix (root ++ name.splitOn '/') mark = root ++ (init ++ [last ++ mark]) := by
  have notRoot : name.splitOn '/' ≠ [] := List.splitOn_ne_nil '/' name
  refine ⟨(name.splitOn '/').dropLast, (name.splitOn '/').getLast notRoot, ?_, ?_, ?_⟩
  · rw [List.dropLast_concat_getLast]
  · rw [List.dropLast_append_of_ne_nil notRoot]
  · rw [pushSuffix_append notRoot]
    simp [pushSuffix, List.getLast?_eq_getLast_of_ne_nil notRoot]

/-- Such a directory is not above a path whose components do not carry the mark. -/
theorem not_marked_above (init : Path) (last : Text)
    (unmarked : ∀ comp ∈ rest, ¬mark <:+: comp) :
    ¬root ++ (init ++ [last ++ mark]) <+: root ++ rest := by
  intro above
  rw [List.prefix_append_right_inj] at above
  have marked := above.subset (List.mem_append_right init (List.mem_singleton_self _))
  exact unmarked _ marked (List.suffix_append last mark).isInfix

theorem unmarked_of_infix (unmarked : ¬mark <:+: name) :
    ∀ comp ∈ name.splitOn '/', ¬mark <:+: comp := by
  intro comp compMem infixMark
  exact unmarked (infixMark.trans (infix_of_mem_splitOn compMem))

/-- No staging or trash directory is at or above a path into a mirror. -/
theorem not_reserved_above {a b : RepoRef} {comp : Text}
    (resolvedA : resolve a.name upstreamBase root = .ok a)
    (resolvedB : resolve b.name upstreamBase root = .ok b)
    (reserved : mark = incomingSuffix ∨ mark = evictingSuffix) (plain : ¬mark <:+: comp) :
    ¬pushSuffix b.cacheDir mark <+: a.cacheDir ++ [comp] := by
  rcases resolve_eq_ok_iff.mp resolvedA with ⟨wellA, placedA⟩
  rcases resolve_eq_ok_iff.mp resolvedB with ⟨_, placedB⟩
  have dirA := congrArg RepoRef.cacheDir placedA
  have dirB := congrArg RepoRef.cacheDir placedB
  simp only at dirA dirB
  rcases pushSuffix_root root b.name mark with ⟨init, last, _, _, marked⟩
  rw [dirA, dirB, marked, List.append_assoc]
  apply not_marked_above
  intro other otherMem
  rcases List.mem_append.mp otherMem with inName | isComp
  · apply unmarked_of_infix _ other inName
    rcases reserved with rfl | rfl
    · exact wellA.notStaging
    · exact wellA.notTrash
  · rw [List.mem_singleton.mp isComp]
    exact plain

/-- Nor is a path into a mirror at or above a staging or trash directory, unless the mirrors are
nested. -/
theorem not_above_reserved {a b : RepoRef} {comp : Text}
    (resolvedA : resolve a.name upstreamBase root = .ok a)
    (resolvedB : resolve b.name upstreamBase root = .ok b) (plain : ¬mark <:+: comp)
    (apart : a.cacheDir <+: b.cacheDir → a = b) :
    ¬a.cacheDir ++ [comp] <+: pushSuffix b.cacheDir mark := by
  rcases resolve_eq_ok_iff.mp resolvedA with ⟨_, placedA⟩
  rcases resolve_eq_ok_iff.mp resolvedB with ⟨_, placedB⟩
  have dirB := congrArg RepoRef.cacheDir placedB
  simp only at dirB
  rcases pushSuffix_root root b.name mark with ⟨init, last, split, parent, marked⟩
  intro above
  have whole : b.cacheDir = root ++ init ++ [last] := by rw [dirB, split, List.append_assoc]
  rw [dirB, marked, ← List.append_assoc] at above
  rcases List.prefix_concat_iff.mp above with same | inside
  · have parts := List.append_inj' same rfl
    simp only [List.cons.injEq, and_true] at parts
    exact plain (parts.2 ▸ (List.suffix_append last mark).isInfix)
  · have above : a.cacheDir <+: b.cacheDir := by
      rw [whole]
      exact ((List.prefix_append _ _).trans inside).trans (List.prefix_append _ _)
    have short := inside.length_le
    rw [apart above, whole] at short
    simp only [List.length_append, List.length_cons, List.length_nil] at short
    omega

/-! ### The LFS store -/

variable {oid : Text}

theorem mem_of_validLfsOid (valid : validLfsOid oid = true) {char : Char} (charMem : char ∈ oid) :
    ('0' ≤ char ∧ char ≤ '9') ∨ ('a' ≤ char ∧ char ≤ 'f') := by
  simp only [validLfsOid, Bool.and_eq_true, List.all_eq_true, decide_eq_true_eq] at valid
  exact valid.2 char charMem

theorem length_of_validLfsOid (valid : validLfsOid oid = true) : oid.length = 64 := by
  simp only [validLfsOid, Bool.and_eq_true, decide_eq_true_eq] at valid
  exact valid.1

theorem slash_not_mem_of_validLfsOid (valid : validLfsOid oid = true) : '/' ∉ oid := by
  intro slashMem
  have hex := mem_of_validLfsOid valid slashMem
  revert hex
  decide

theorem lfsObjectPath_eq (valid : validLfsOid oid = true) :
    lfsObjectPath root oid = root ++ [lfsObjectsDir, oid.take 2, oid] := by
  have noSlash := slash_not_mem_of_validLfsOid valid
  have long := length_of_validLfsOid valid
  have shardSplit : (oid.take 2 ++ '/' :: oid).splitOn '/' = [oid.take 2, oid] := by
    rw [List.splitOn_append_cons_self_of_not_mem (fun inTake => noSlash (List.mem_of_mem_take inTake)),
      List.splitOn_eq_singleton noSlash]
  have split : (lfsObjectKey oid).splitOn '/' = [lfsObjectsDir, oid.take 2, oid] := by
    rw [lfsObjectKey, List.splitOn_append_cons_self_of_not_mem (by decide), shardSplit]
  have shardLength : (oid.take 2).length = 2 := by
    rw [List.length_take, long]
    rfl
  have plain {comp : Text} (several : 2 ≤ comp.length) : comp ≠ [] ∧ comp ≠ ['.'] := by
    constructor
    · rintro rfl
      simp at several
    · rintro rfl
      simp at several
  have noDots : components (lfsObjectKey oid) = [lfsObjectsDir, oid.take 2, oid] := by
    rw [components, split, List.filter_eq_self]
    intro comp compMem
    simp only [List.mem_cons, List.not_mem_nil, or_false] at compMem
    rcases compMem with rfl | rfl | rfl
    · decide
    · exact decide_eq_true (plain (le_of_eq shardLength.symm))
    · exact decide_eq_true (plain (by omega))
  rw [lfsObjectPath, join, noDots, if_neg]
  exact fun impossible => absurd (Option.some.inj impossible) (by decide)

/-- A path under the root that is not in the store. -/
def BesideStore (root path : Path) : Prop :=
  ∃ first rest, path = root ++ first :: rest ∧ first ≠ lfsObjectsDir

namespace BesideStore

variable {path : Path}

theorem not_store_above (beside : BesideStore root path) :
    ¬root ++ lfsObjectsDir :: rest <+: path := by
  rcases beside with ⟨first, others, rfl, different⟩
  rw [List.prefix_append_right_inj, List.cons_prefix_cons]
  exact fun above => different above.1.symm

theorem not_above_store (beside : BesideStore root path) :
    ¬path <+: root ++ lfsObjectsDir :: rest := by
  rcases beside with ⟨first, others, rfl, different⟩
  rw [List.prefix_append_right_inj, List.cons_prefix_cons]
  exact fun above => different above.1

theorem below (beside : BesideStore root path) {file : Path} (inside : path <+: file) :
    BesideStore root file := by
  rcases beside with ⟨first, others, rfl, different⟩
  rcases inside with ⟨more, rfl⟩
  exact ⟨first, others ++ more, by simp, different⟩

end BesideStore

/-- The store and the mirrors keep clear of each other. -/
theorem besideStore {a : RepoRef} (resolved : resolve a.name upstreamBase root = .ok a)
    (rest : Path) : BesideStore root (a.cacheDir ++ rest) := by
  rcases resolve_eq_ok_iff.mp resolved with ⟨well, placed⟩
  have dir := congrArg RepoRef.cacheDir placed
  simp only at dir
  cases split : a.name.splitOn '/' with
  | nil => exact absurd split (List.splitOn_ne_nil _ _)
  | cons first others =>
      refine ⟨first, others ++ rest, by simp [dir, split], ?_⟩
      rintro rfl
      exact unmarked_of_infix well.notStore _ (by simp [split]) List.infix_rfl

theorem besideStore_reserved {a : RepoRef}
    (resolved : resolve a.name upstreamBase root = .ok a)
    (reserved : mark = incomingSuffix ∨ mark = evictingSuffix) :
    BesideStore root (pushSuffix a.cacheDir mark) := by
  rcases resolve_eq_ok_iff.mp resolved with ⟨well, placed⟩
  have dir := congrArg RepoRef.cacheDir placed
  simp only at dir
  rcases pushSuffix_root root a.name mark with ⟨init, last, split, _, marked⟩
  rw [dir, marked]
  cases init with
  | nil =>
      refine ⟨last ++ mark, [], rfl, ?_⟩
      intro same
      have long := congrArg List.length same
      rw [List.length_append] at long
      rcases reserved with rfl | rfl
      · exact absurd (Nat.le.intro ((Nat.add_comm _ _).trans long)) (by decide)
      · exact absurd (Nat.le.intro ((Nat.add_comm _ _).trans long)) (by decide)
  | cons first others =>
      refine ⟨first, others ++ [last ++ mark], rfl, ?_⟩
      rintro rfl
      exact unmarked_of_infix well.notStore _ (by simp [split]) List.infix_rfl

theorem isLfsBlob_lfsObjectKey (oid : Text) : isLfsBlob (lfsObjectKey oid) = true := by
  rw [isLfsBlob, lfsObjectKey, List.splitOn_append_cons_self_of_not_mem (by decide)]
  simp

theorem not_isLfsBlob {a : RepoRef} (resolved : resolve a.name upstreamBase root = .ok a) :
    isLfsBlob a.name = false := by
  rcases resolve_eq_ok_iff.mp resolved with ⟨well, _⟩
  rw [isLfsBlob, decide_eq_false_iff_not]
  intro first
  exact unmarked_of_infix well.notStore _ (List.mem_of_head? first) List.infix_rfl

/-- The path that an LFS key stands for is in the store. -/
theorem join_of_isLfsBlob {name : Text} (blob : isLfsBlob name = true) :
    ∃ rest, join root name = root ++ lfsObjectsDir :: rest := by
  rw [isLfsBlob, decide_eq_true_eq] at blob
  have relative : name.head? ≠ some '/' := by
    intro absolute
    cases name with
    | nil => cases absolute
    | cons first rest =>
        simp only [List.head?_cons, Option.some.injEq] at absolute
        subst absolute
        have split := List.splitOn_append_cons_self (a := '/') [] rest
        simp only [List.nil_append, List.splitOn_nil] at split
        simp only [split, List.cons_append, List.head?_cons, Option.some.injEq] at blob
        exact absurd blob (by decide)
  rw [join, if_neg relative, components]
  cases split : name.splitOn '/' with
  | nil => exact absurd split (List.splitOn_ne_nil _ _)
  | cons first rest =>
      rw [split, List.head?_cons, Option.some.injEq] at blob
      subst blob
      exact ⟨_, congrArg (root ++ ·) (List.filter_cons_of_pos (by decide))⟩

/-- Nothing beside the store is in the way of an LFS key. -/
theorem BesideStore.ne_join {path : Path} {name : Text} (beside : BesideStore root path)
    (blob : isLfsBlob name = true) : path ≠ join root name := by
  have inStore : ∃ rest, join root name = root ++ lfsObjectsDir :: rest := join_of_isLfsBlob blob
  rcases inStore with ⟨rest, inStore⟩
  intro same
  apply beside.not_above_store
  rw [same, inStore]

theorem join_name {a : RepoRef} (resolved : resolve a.name upstreamBase root = .ok a) :
    join root a.name = a.cacheDir := by
  rcases resolve_eq_ok_iff.mp resolved with ⟨well, placed⟩
  have dir := congrArg RepoRef.cacheDir placed
  simp only at dir
  rw [dir, well.join_eq]

end Reserved

end Repo

end GitCacheProxy
