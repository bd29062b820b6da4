import Mathlib.Algebra.BigOperators.Group.Finset.Basic
import Mathlib.Data.Finset.Lattice.Fold
import Mathlib.Order.Lattice.Nat
import GitCacheProxy.Foundation.TreeWalk
import GitCacheProxy.Git.Mirror
import GitCacheProxy.Index.Recency

/-!
# The startup scan

`find_mirrors`, `find_lfs_blobs` and `measure` as loops over the disk, and
`CacheIndex::new` on what they find.  Modification times count from the epoch
and are an argument; a loop that runs out of `fuel` has no result.

On a tree of complete mirrors that are not nested in each other (`CacheTree`),
the index comes out as the request path would have it, and with one more entry
for every stray file in a shard of the LFS store.
-/

namespace GitCacheProxy.Index

open Repo Git FileTree

/-- A cache-key name: the path relative to the root, `/`-joined. -/
def relName (root dir : Path) : Text :=
  ['/'].intercalate (if root <+: dir then dir.drop root.length else ['/'] :: dir)

/-- `md.len()` -/
def fileSize (disk : Disk) (file : Path) : UInt64 :=
  match disk.get? file with
  | some (.file content) => UInt64.ofNat content.length
  | _ => 0

/-- The directories still to be read, the bytes so far, and the newest mtime so far. -/
structure Measured where
  stack : List Path
  size : UInt64
  mtime : ℕ

/-- The body of the inner loop of `measure`, for one directory entry. -/
def measureEntry (disk : Disk) (mtimeOf : Path → ℕ) (dir : Path) (sofar : Measured) (name : Text) :
    Measured :=
  let path := dir ++ [name]
  match disk.get? path with
  | none => sofar
  | some .dir => { sofar with stack := path :: sofar.stack }
  | some (.file _) =>
      { sofar with
        size := sofar.size + fileSize disk path
        mtime := if mtimeOf path > sofar.mtime then mtimeOf path else sofar.mtime }

def measureLoop (disk : Disk) (mtimeOf : Path → ℕ) : ℕ → Measured → Option (UInt64 × ℕ)
  | _, ⟨[], size, mtime⟩ => some (size, mtime)
  | 0, ⟨_ :: _, _, _⟩ => none
  | fuel + 1, ⟨dir :: stack, size, mtime⟩ =>
      measureLoop disk mtimeOf fuel
        ((disk.list dir).foldl (measureEntry disk mtimeOf dir) ⟨stack, size, mtime⟩)

/-- Total byte size of a mirror and the newest mtime among its files. -/
def measure (disk : Disk) (mtimeOf : Path → ℕ) (dir : Path) : Option (UInt64 × ℕ) :=
  measureLoop disk mtimeOf (disk.entries.length + 1) ⟨[dir], 0, 0⟩

/-- The names that `find_mirrors` does not descend into. -/
def skipped (fname : Text) : Bool :=
  incomingSuffix.isSuffixOf fname || evictingSuffix.isSuffixOf fname ||
    decide (fname = lfsObjectsDir)

/-- `dir.join("HEAD").is_file()` -/
def isMirrorRoot (disk : Disk) (dir : Path) : Bool := disk.isFile (dir ++ [headFile])

def findMirrorsLoop (disk : Disk) (mtimeOf : Path → ℕ) (cacheRoot : Path) :
    ℕ → List Path → List Scanned → Option (List Scanned)
  | _, [], out => some out
  | 0, _ :: _, _ => none
  | fuel + 1, dir :: stack, out =>
      if isMirrorRoot disk dir = true then
        let name := relName cacheRoot dir
        if name = [] then
          findMirrorsLoop disk mtimeOf cacheRoot fuel stack out
        else
          (measure disk mtimeOf dir).bind fun (size, mtime) =>
            findMirrorsLoop disk mtimeOf cacheRoot fuel stack (out ++ [⟨name, size, mtime⟩])
      else
        findMirrorsLoop disk mtimeOf cacheRoot fuel
          ((disk.list dir).foldl (fun stack fname =>
            if disk.isDir (dir ++ [fname]) && !skipped fname then (dir ++ [fname]) :: stack
            else stack) stack)
          out

/-- Discover every mirror under the cache root. -/
def findMirrors (disk : Disk) (mtimeOf : Path → ℕ) (cacheRoot : Path) : Option (List Scanned) :=
  findMirrorsLoop disk mtimeOf cacheRoot (disk.entries.length + 1) [cacheRoot] []

/-- Discover every cached LFS object, two levels below the reserved store. -/
def findLfsBlobs (disk : Disk) (mtimeOf : Path → ℕ) (cacheRoot : Path) : List Scanned :=
  let lfsRoot := cacheRoot ++ [lfsObjectsDir]
  (disk.list lfsRoot).flatMap fun shard =>
    if !disk.isDir (lfsRoot ++ [shard]) || decide (shard = incomingDir) then []
    else
      (disk.list (lfsRoot ++ [shard])).filterMap fun oid =>
        let path := lfsRoot ++ [shard] ++ [oid]
        if disk.isFile path then
          some {
            name := lfsObjectsDir ++ '/' :: (shard ++ '/' :: oid)
            size := fileSize disk path
            mtime := mtimeOf path }
        else none

/-- `CacheIndex::new` on a cache root. -/
def startupIndex (disk : Disk) (mtimeOf : Path → ℕ) (cacheRoot : Path) (maxBytes : UInt64) :
    Option CacheIndex :=
  (findMirrors disk mtimeOf cacheRoot).map fun mirrors =>
    .new mirrors (findLfsBlobs disk mtimeOf cacheRoot) maxBytes

/-! ## What the index should be -/

/-- The bytes of the regular files at and below a path. -/
def sizeBelow (disk : Disk) (path : Path) : UInt64 :=
  ∑ file ∈ disk.filesBelow path, fileSize disk file

/-- The newest mtime of the regular files at and below a path. -/
def newestBelow (disk : Disk) (mtimeOf : Path → ℕ) (path : Path) : ℕ :=
  (disk.filesBelow path).sup mtimeOf

/-- A cache tree with a complete mirror for each of `names` and a file for each of `objects`:
nothing but these mirrors and what is skipped contains a `HEAD`. -/
structure CacheTree (disk : Disk) (root : Path) (names objects : Finset Text) : Prop where
  /-- as on any file system -/
  plain : ∀ path, disk.Exists path → ∀ comp ∈ path, comp ≠ [] ∧ comp ≠ ['.'] ∧ '/' ∉ comp
  wellNamed : ∀ name ∈ names, WellNamed name
  complete : ∀ name ∈ names, isMirrorRoot disk (join root name) = true
  notNested : ∀ first ∈ names, ∀ second ∈ names,
    first.splitOn '/' <+: second.splitOn '/' → first = second
  rootPlain : isMirrorRoot disk root = false
  nothingElse : ∀ rest, isMirrorRoot disk (root ++ rest) = true →
    (∃ name ∈ names, name.splitOn '/' <+: rest) ∨ ∃ comp ∈ rest, skipped comp = true
  stored : ∀ oid ∈ objects, validLfsOid oid = true ∧ disk.isFile (lfsObjectPath root oid) = true

/-- The regular files in the shards of the store, whatever they are called. -/
def storeFiles (disk : Disk) (root : Path) : Finset Path :=
  (disk.filesBelow (root ++ [lfsObjectsDir])).filter fun file =>
    file.length = root.length + 3 ∧ file[root.length + 1]? ≠ some incomingDir

/-- Those of them that are none of `objects`. -/
def strays (disk : Disk) (root : Path) (objects : Finset Text) : Finset Path :=
  (storeFiles disk root).filter fun file => file ∉ objects.image (lfsObjectPath root)

/-- One entry for each key, with its size, and the oldest one last. -/
structure Rebuilt (index : CacheIndex) (disk : Disk) (mtimeOf : Path → ℕ) (root : Path)
    (keys : Finset Text) : Prop where
  entries : ∀ key, index.inner.cache.peek key =
    if key ∈ keys then some (sizeBelow disk (join root key)) else none
  total : index.inner.total = ∑ key ∈ keys, sizeBelow disk (join root key)
  order : index.inner.cache.keys.Pairwise fun newer older =>
    newestBelow disk mtimeOf (join root older) ≤ newestBelow disk mtimeOf (join root newer)

/-! ## Measuring a mirror -/

section Measuring

variable {disk : Disk} {mtimeOf : Path → ℕ} {root dir : Path}

/-- The newest of some files, and of a time before. -/
def newest (mtimeOf : Path → ℕ) (mtime : ℕ) (files : List Path) : ℕ :=
  files.foldl (fun mtime file => max mtime (mtimeOf file)) mtime

theorem newest_eq_sup (mtime : ℕ) (files : List Path) :
    newest mtimeOf mtime files = max mtime (files.toFinset.sup mtimeOf) := by
  induction files generalizing mtime with
  | nil => simp [newest]
  | cons file rest ih =>
      rw [newest, List.foldl_cons, ← newest, ih, List.toFinset_cons, Finset.sup_insert, max_assoc]

/-- One directory: its subdirectories are pushed, its files are counted. -/
theorem foldl_measureEntry (names : List Text) (stack : List Path) (size : UInt64) (mtime : ℕ)
    (present : ∀ name ∈ names, disk.Exists (dir ++ [name])) :
    names.foldl (measureEntry disk mtimeOf dir) ⟨stack, size, mtime⟩ =
      let files := (names.filter fun name => disk.isFile (dir ++ [name])).map fun name =>
        dir ++ [name]
      { stack := ((names.filter fun name => disk.isDir (dir ++ [name])).reverse.map fun name =>
          dir ++ [name]) ++ stack
        size := size + (files.map (fileSize disk)).sum
        mtime := newest mtimeOf mtime files } := by
  induction names generalizing stack size mtime with
  | nil => simp [newest]
  | cons name rest ih =>
      have presentRest := fun other otherMem => present other (List.mem_cons_of_mem _ otherMem)
      cases found : disk.get? (dir ++ [name]) with
      | none => exact absurd found (present name List.mem_cons_self)
      | some node =>
          cases node with
          | dir =>
              have isDir : disk.isDir (dir ++ [name]) = true := Tree.isDir_iff.mpr found
              have notFile : disk.isFile (dir ++ [name]) = false := by simp [Tree.isFile, found]
              simp [measureEntry, found, isDir, notFile, ih _ _ _ presentRest]
          | file content =>
              have notDir : disk.isDir (dir ++ [name]) = false := by simp [Tree.isDir, found]
              have isFile : disk.isFile (dir ++ [name]) = true := by simp [Tree.isFile, found]
              have later : (if mtimeOf (dir ++ [name]) > mtime then mtimeOf (dir ++ [name])
                  else mtime) = max mtime (mtimeOf (dir ++ [name])) := by
                split
                · omega
                · omega
              simp [measureEntry, found, isFile, notDir, later, ih _ _ _ presentRest, newest,
                add_assoc]

/-- The loop is a walk that nothing stops. -/
theorem measureLoop_eq_visit (fuel : ℕ) (stack : List Path) (size : UInt64) (mtime : ℕ) :
    measureLoop disk mtimeOf fuel ⟨stack, size, mtime⟩ =
      (Worklist.visit (disk.descend (fun _ => false) fun _ => true) fuel stack).map fun visited =>
        let files := visited.flatMap disk.filesIn
        (size + (files.map (fileSize disk)).sum, newest mtimeOf mtime files) := by
  induction fuel generalizing stack size mtime with
  | zero =>
      cases stack with
      | nil => simp [measureLoop, Worklist.visit, newest]
      | cons dir stack => rfl
  | succ fuel ih =>
      cases stack with
      | nil => simp [measureLoop, Worklist.visit, newest]
      | cons dir stack =>
          rw [measureLoop, foldl_measureEntry _ _ _ _ fun name nameMem =>
            Tree.mem_list.mp nameMem, ih, Worklist.visit, Option.map_map]
          have pushed : disk.descend (fun _ => false) (fun _ => true) dir =
              ((disk.list dir).filter fun name => disk.isDir (dir ++ [name])).reverse.map
                fun name => dir ++ [name] := by
            simp [Tree.descend, Tree.pushed]
          rw [pushed]
          congr 1
          funext visited
          simp [Tree.filesIn, newest, add_assoc]

theorem measure_eq (notFile : disk.isFile dir = false) :
    measure disk mtimeOf dir = some (sizeBelow disk dir, newestBelow disk mtimeOf dir) := by
  rcases Tree.exists_visit_descend disk (fun _ => false) (fun _ => true) dir with
    ⟨visited, walked⟩
  have seen := Tree.toFinset_filesSeen notFile walked
  have bytes := List.sum_toFinset (fileSize disk) (Tree.nodup_filesSeen walked)
  rw [measure, measureLoop_eq_visit, walked, Option.map_some]
  simp only [newest_eq_sup, ← bytes, seen, zero_add, Nat.zero_max]
  rfl

end Measuring

/-! ## Finding the mirrors -/

section Finding

variable {disk : Disk} {mtimeOf : Path → ℕ} {root dir : Path}

/-- The entry of a mirror or an object. -/
def scannedAt (disk : Disk) (mtimeOf : Path → ℕ) (root path : Path) : Scanned where
  name := relName root path
  size := sizeBelow disk path
  mtime := newestBelow disk mtimeOf path

/-- A directory that `find_mirrors` reports when it gets there. -/
def reported (disk : Disk) (root dir : Path) : Bool :=
  isMirrorRoot disk dir && decide (relName root dir ≠ [])

/-- What the scan for mirrors finds. -/
def Finds (disk : Disk) (root dir : Path) : Prop :=
  Worklist.Reaches (disk.descend (isMirrorRoot disk) fun fname => !skipped fname) root dir ∧
    reported disk root dir = true

theorem get?_of_isMirrorRoot (marked : isMirrorRoot disk dir = true) :
    disk.get? dir = some .dir :=
  Tree.get?_of_child (Tree.exists_of_isFile marked)

/-- The loop is a walk that stops at mirrors and keeps out of what is skipped. -/
theorem findMirrorsLoop_eq_visit (fuel : ℕ) (stack : List Path) (out : List Scanned) :
    findMirrorsLoop disk mtimeOf root fuel stack out =
      (Worklist.visit (disk.descend (isMirrorRoot disk) fun fname => !skipped fname) fuel
        stack).map fun visited =>
          out ++ (visited.filter (reported disk root)).map (scannedAt disk mtimeOf root) := by
  induction fuel generalizing stack out with
  | zero =>
      cases stack with
      | nil => simp [findMirrorsLoop, Worklist.visit]
      | cons dir stack => rfl
  | succ fuel ih =>
      cases stack with
      | nil => simp [findMirrorsLoop, Worklist.visit]
      | cons dir stack =>
          rw [findMirrorsLoop, Worklist.visit, Option.map_map]
          by_cases marked : isMirrorRoot disk dir = true
          · have nothing : disk.descend (isMirrorRoot disk) (fun fname => !skipped fname) dir = [] :=
              if_pos marked
            have notFile : disk.isFile dir = false := by
              simp [Tree.isFile, get?_of_isMirrorRoot marked]
            rw [if_pos marked, nothing, List.nil_append]
            by_cases isRoot : relName root dir = []
            · simp only [isRoot, if_true, ih]
              congr 1
              funext visited
              simp [reported, isRoot]
            · simp only [isRoot, if_false, measure_eq notFile, Option.bind_some, ih]
              congr 1
              funext visited
              simp [reported, isRoot, marked, scannedAt]
          · have pushed : disk.descend (isMirrorRoot disk) (fun fname => !skipped fname) dir =
                disk.pushed (fun fname => !skipped fname) dir := if_neg marked
            rw [if_neg marked, Tree.foldl_push, ih, pushed]
            congr 1
            funext visited
            simp [reported, marked]

theorem relName_append (root rest : Path) : relName root (root ++ rest) = ['/'].intercalate rest := by
  rw [relName, if_pos (List.prefix_append root rest), List.drop_left]

variable {names objects : Finset Text}

theorem skipped_of_wellNamed {name : Text} (wellNamed : WellNamed name) :
    ∀ comp ∈ name.splitOn '/', skipped comp = false := by
  intro comp compMem
  have staging := unmarked_of_infix wellNamed.notStaging comp compMem
  have trash := unmarked_of_infix wellNamed.notTrash comp compMem
  have store := unmarked_of_infix wellNamed.notStore comp compMem
  simp only [skipped, Bool.or_eq_false_iff, decide_eq_false_iff_not]
  refine ⟨⟨?_, ?_⟩, ?_⟩
  · rw [Bool.eq_false_iff]
    exact fun marked => staging (List.isSuffixOf_iff_suffix.mp marked).isInfix
  · rw [Bool.eq_false_iff]
    exact fun marked => trash (List.isSuffixOf_iff_suffix.mp marked).isInfix
  · rintro rfl
    exact store List.infix_rfl

/-- The topmost directories with a `HEAD`, but for the root and what is skipped. -/
theorem finds_iff : Finds disk root dir ↔ ∃ rest, dir = root ++ rest ∧
    ['/'].intercalate rest ≠ [] ∧ isMirrorRoot disk dir = true ∧
      (∀ comp ∈ rest, skipped comp = false) ∧
        ∀ before, before <+: rest → before ≠ rest → isMirrorRoot disk (root ++ before) = false := by
  rw [Finds, Tree.reaches_descend_iff]
  constructor
  · rintro ⟨⟨rest, rfl, _, kept, through⟩, isReported⟩
    rw [reported, Bool.and_eq_true, decide_eq_true_eq, relName_append] at isReported
    refine ⟨rest, rfl, isReported.2, isReported.1, ?_, through⟩
    intro comp compMem
    simpa using kept comp compMem
  · rintro ⟨rest, rfl, named, marked, kept, through⟩
    constructor
    · refine ⟨rest, rfl, Or.inr ?_, ?_, through⟩
      · exact Tree.isDir_iff.mpr (get?_of_isMirrorRoot marked)
      · intro comp compMem
        simp [kept comp compMem]
    · rw [reported, marked, relName_append]
      simp [named]

theorem exists_topmost {rest : Path}
    (some_ : ∃ above, above <+: rest ∧ isMirrorRoot disk (root ++ above) = true) :
    ∃ top, top <+: rest ∧ isMirrorRoot disk (root ++ top) = true ∧
      ∀ before, before <+: top → before ≠ top → isMirrorRoot disk (root ++ before) = false := by
  induction rest using List.reverseRecOn with
  | nil =>
      rcases some_ with ⟨above, prefix_, marked⟩
      rw [List.prefix_nil.mp prefix_] at marked
      refine ⟨[], List.nil_prefix, marked, ?_⟩
      exact fun before higher proper => absurd (List.prefix_nil.mp higher) proper
  | append_singleton init last ih =>
      by_cases higher : ∃ above, above <+: init ∧ isMirrorRoot disk (root ++ above) = true
      · rcases ih higher with ⟨top, topAbove, isTop⟩
        exact ⟨top, topAbove.trans (List.prefix_append _ _), isTop⟩
      · rcases some_ with ⟨above, prefix_, marked⟩
        have whole : above = init ++ [last] := by
          rcases List.prefix_concat_iff.mp prefix_ with same | inside
          · exact same
          · exact absurd ⟨above, inside, marked⟩ higher
        refine ⟨init ++ [last], List.prefix_refl _, whole ▸ marked, ?_⟩
        intro before prefixBefore proper
        rw [Bool.eq_false_iff]
        intro markedBefore
        rcases List.prefix_concat_iff.mp prefixBefore with same | inside
        · exact proper same
        · exact higher ⟨before, inside, markedBefore⟩

/-- Every unreserved directory with a `HEAD` is found, or lies in one that is. -/
theorem exists_finds {rest : Path} (marked : isMirrorRoot disk (root ++ rest) = true)
    (named : ∀ comp ∈ rest, comp ≠ []) (kept : ∀ comp ∈ rest, skipped comp = false)
    (rootPlain : isMirrorRoot disk root = false) :
    ∃ top, top <+: rest ∧ Finds disk root (root ++ top) := by
  rcases exists_topmost ⟨rest, List.prefix_refl rest, marked⟩ with ⟨top, above, markedTop, through⟩
  refine ⟨top, above, finds_iff.mpr ⟨top, rfl, ?_, markedTop, ?_, through⟩⟩
  · cases top with
    | nil =>
        rw [List.append_nil, rootPlain] at markedTop
        cases markedTop
    | cons first more =>
        have nonempty := named first (above.subset List.mem_cons_self)
        cases more with
        | nil => simpa using nonempty
        | cons second others => simp [List.intercalate_cons_cons]
  · exact fun comp compMem => kept comp (above.subset compMem)

theorem exists_findMirrors (disk : Disk) (mtimeOf : Path → ℕ) (root : Path) :
    ∃ dirs : List Path, dirs.Nodup ∧ (∀ dir, dir ∈ dirs ↔ Finds disk root dir) ∧
      findMirrors disk mtimeOf root = some (dirs.map (scannedAt disk mtimeOf root)) := by
  rcases Tree.exists_visit_descend disk (isMirrorRoot disk) (fun fname => !skipped fname) root with
    ⟨visited, walked⟩
  refine ⟨visited.filter (reported disk root), ?_, ?_, ?_⟩
  · exact (Worklist.nodup_visit Tree.descends_descend (List.pairwise_singleton _ _) walked).filter _
  · intro dir
    rw [List.mem_filter, Worklist.mem_visit_iff walked]
    simp only [List.mem_singleton, exists_eq_left, Finds]
  · rw [findMirrors, findMirrorsLoop_eq_visit, walked, Option.map_some, List.nil_append]

theorem finds_mirror_iff (layout : CacheTree disk root names objects) :
    Finds disk root dir ↔ ∃ name ∈ names, join root name = dir := by
  rw [finds_iff]
  constructor
  · rintro ⟨rest, rfl, _, marked, kept, through⟩
    rcases layout.nothingElse rest marked with ⟨name, nameMem, above⟩ | ⟨comp, compMem, skip⟩
    · refine ⟨name, nameMem, ?_⟩
      rw [(layout.wellNamed name nameMem).join_eq]
      by_contra different
      have goesOn := through _ above fun same => different (by rw [same])
      have complete := layout.complete name nameMem
      rw [(layout.wellNamed name nameMem).join_eq, goesOn] at complete
      cases complete
    · rw [kept comp compMem] at skip
      cases skip
  · rintro ⟨name, nameMem, rfl⟩
    have wellNamed := layout.wellNamed name nameMem
    have complete := layout.complete name nameMem
    have unskipped := skipped_of_wellNamed wellNamed
    rw [wellNamed.join_eq] at complete ⊢
    refine ⟨name.splitOn '/', rfl, ?_, complete, unskipped, ?_⟩
    · rw [List.intercalate_splitOn]
      rintro rfl
      exact (wellNamed.ordinary [] (by simp)).1 rfl
    · intro before above proper
      rw [Bool.eq_false_iff]
      intro marked
      rcases layout.nothingElse before marked with ⟨other, otherMem, higher⟩ | ⟨comp, compMem, skip⟩
      · have same := layout.notNested other otherMem name nameMem (higher.trans above)
        subst same
        exact proper (above.eq_of_length_le higher.length_le)
      · rw [unskipped comp (above.subset compMem)] at skip
        cases skip

/-! ## Finding the objects -/

theorem sizeBelow_of_isFile (isFile : disk.isFile dir = true) :
    sizeBelow disk dir = fileSize disk dir := by
  rw [sizeBelow, Tree.filesBelow_of_isFile isFile, Finset.sum_singleton]

theorem newestBelow_of_isFile (isFile : disk.isFile dir = true) :
    newestBelow disk mtimeOf dir = mtimeOf dir := by
  rw [newestBelow, Tree.filesBelow_of_isFile isFile, Finset.sup_singleton]

/-- The shards whose files are reported. -/
def shards (disk : Disk) (root : Path) : List Path :=
  ((disk.list (root ++ [lfsObjectsDir])).filter fun shard =>
    disk.isDir (root ++ [lfsObjectsDir] ++ [shard]) && !decide (shard = incomingDir)).map
      fun shard => root ++ [lfsObjectsDir] ++ [shard]

theorem mem_shards {shard : Path} : shard ∈ shards disk root ↔
    ∃ name, shard = root ++ [lfsObjectsDir] ++ [name] ∧ disk.isDir shard = true ∧
      name ≠ incomingDir := by
  simp only [shards, List.mem_map, List.mem_filter, Tree.mem_list, Bool.and_eq_true,
    Bool.not_eq_true', decide_eq_false_iff_not]
  constructor
  · rintro ⟨name, ⟨_, isDir, other⟩, rfl⟩
    exact ⟨name, rfl, isDir, other⟩
  · rintro ⟨name, rfl, isDir, other⟩
    exact ⟨name, ⟨Tree.exists_of_isDir isDir, isDir, other⟩, rfl⟩

theorem flatMap_unless (names : List Text) (skip : Text → Bool) (found : Text → List Scanned) :
    (names.flatMap fun name => if skip name then [] else found name) =
      (names.filter fun name => !skip name).flatMap found := by
  induction names with
  | nil => rfl
  | cons name rest ih =>
      rw [List.flatMap_cons, ih]
      by_cases leave : skip name = true
      · simp [leave]
      · simp [leave]

theorem findLfsBlobs_eq : findLfsBlobs disk mtimeOf root =
    ((shards disk root).flatMap disk.filesIn).map (scannedAt disk mtimeOf root) := by
  rw [findLfsBlobs, flatMap_unless, shards, List.flatMap_map, List.map_flatMap]
  simp only [Bool.not_or, Bool.not_not]
  congr 1
  funext shard
  rw [Tree.filesIn, List.map_map, ← List.filterMap_eq_map, List.filterMap_filter]
  congr 1
  funext oid
  by_cases isFile : disk.isFile (root ++ [lfsObjectsDir] ++ [shard] ++ [oid]) = true
  · have name : relName root (root ++ [lfsObjectsDir] ++ [shard] ++ [oid]) =
        lfsObjectsDir ++ '/' :: (shard ++ '/' :: oid) := by
      rw [List.append_assoc, List.append_assoc, relName_append]
      simp [List.intercalate_cons_cons]
    simp only [isFile, if_true, Function.comp, scannedAt, name, sizeBelow_of_isFile isFile,
      newestBelow_of_isFile isFile]
  · simp only [isFile, if_false, Bool.false_eq_true]

theorem nodup_objectFiles (disk : Disk) (root : Path) :
    ((shards disk root).flatMap disk.filesIn).Nodup := by
  rw [List.nodup_flatMap]
  constructor
  · exact fun shard _ => Tree.nodup_filesIn disk shard
  · have distinct : (shards disk root).Nodup := by
      apply List.Nodup.map
      · intro first second same
        simpa using same
      · exact (Tree.nodup_list disk _).filter _
    apply distinct.imp
    intro first second different file inFirst inSecond
    rcases Tree.mem_filesIn.mp inFirst with ⟨name, rfl, _⟩
    rcases Tree.mem_filesIn.mp inSecond with ⟨other, same, _⟩
    exact different (List.append_inj' same rfl).1

theorem toFinset_objectFiles (disk : Disk) (root : Path) :
    ((shards disk root).flatMap disk.filesIn).toFinset = storeFiles disk root := by
  ext file
  simp only [List.mem_toFinset, List.mem_flatMap, mem_shards, Tree.mem_filesIn, storeFiles,
    Finset.mem_filter, Tree.mem_filesBelow]
  constructor
  · rintro ⟨_, ⟨shard, rfl, _, other⟩, oid, rfl, isFile⟩
    refine ⟨⟨⟨[shard, oid], by simp⟩, isFile⟩, by simp, ?_⟩
    simpa using other
  · rintro ⟨⟨⟨rest, rfl⟩, isFile⟩, long, other⟩
    rcases rest with _ | ⟨shard, _ | ⟨oid, _ | ⟨more, deeper⟩⟩⟩
    · simp at long
    · simp at long
    · have split : root ++ [lfsObjectsDir] ++ [shard, oid] =
          root ++ [lfsObjectsDir] ++ [shard] ++ [oid] := by simp
      rw [split] at isFile ⊢
      have isDir := Tree.get?_of_child (Tree.exists_of_isFile isFile)
      refine ⟨_, ⟨shard, rfl, Tree.isDir_iff.mpr isDir, ?_⟩, oid, rfl, isFile⟩
      rintro rfl
      simp at other
    · simp at long

end Finding

/-! ## Building the index -/

theorem lastSize_of_sizes {entries : List Scanned} (sizeOf : Text → UInt64)
    (sizes : ∀ entry ∈ entries, entry.size = sizeOf entry.name) (name : Text) :
    lastSize entries name =
      if name ∈ entries.map Scanned.name then some (sizeOf name) else none := by
  split
  · rename_i nameMem
    have found : lastSize entries name ≠ none := by
      rw [ne_eq, lastSize_eq_none_iff]
      exact not_not.mpr nameMem
    rcases Option.ne_none_iff_exists'.mp found with ⟨size, found⟩
    rcases Option.map_eq_some_iff.mp found with ⟨entry, isLast, rfl⟩
    have named := List.find?_some isLast
    have entryMem := List.mem_reverse.mp (List.mem_of_find?_eq_some isLast)
    rw [found, sizes entry entryMem, of_decide_eq_true named]
  · rename_i absent
    exact lastSize_eq_none_iff.mpr absent

/-- What the cache weighs when the size of an entry is a function of its key. -/
theorem weigh_eq_sum {cache : LruCache Text UInt64} {keys : Finset Text} {sizeOf : Text → UInt64}
    (sizes : ∀ key, cache.peek key = if key ∈ keys then some (sizeOf key) else none) :
    cache.weigh id = ∑ key ∈ keys, sizeOf key := by
  have all : cache.keys.toFinset = keys := by
    ext key
    rw [List.mem_toFinset, LruCache.mem_keys_iff, sizes]
    simp
  have values : cache.entries.map (fun entry => id entry.2) = cache.keys.map sizeOf := by
    rw [LruCache.keys, List.map_map]
    apply List.map_congr_left
    intro entry entryMem
    have size := LruCache.peek_of_mem entryMem
    rw [sizes] at size
    split at size
    · exact (Option.some.inj size).symm
    · cases size
  have distinct : cache.keys.Nodup := cache.nodup
  rw [LruCache.weigh, values, ← all, List.sum_toFinset _ distinct]

/-- Entries that enter in the order of their mtimes end up in that order. -/
theorem pairwise_keys_foldl_enter {entries : List Scanned} (newestOf : Text → ℕ)
    (sorted : entries.Pairwise fun older newer => older.mtime ≤ newer.mtime)
    (times : ∀ entry ∈ entries, entry.mtime = newestOf entry.name) :
    (entries.foldl enter .empty).cache.keys.Pairwise fun newer older =>
      newestOf older ≤ newestOf newer := by
  have entryOf (key : Text) (keyMem : key ∈ (entries.foldl enter .empty).cache.keys) :
      ∃ entry ∈ entries, entry.name = key := by
    rw [LruCache.mem_keys_iff, peek_foldl_enter, ne_eq, lastSize_eq_none_iff, not_not] at keyMem
    exact List.mem_map.mp keyMem
  apply (Usage.Orders.startup entries).latestFirst.imp_of_mem
  intro newer older newerMem olderMem usedBefore
  rcases entryOf newer newerMem with ⟨newerEntry, newerEntryMem, rfl⟩
  rcases entryOf older olderMem with ⟨olderEntry, olderEntryMem, rfl⟩
  rw [← times _ newerEntryMem, ← times _ olderEntryMem]
  by_contra wrong
  have usedAfter : (Usage.startup entries).used newerEntry.name <
      (Usage.startup entries).used olderEntry.name := by
    apply byMtime_startup sorted newerEntry newerEntryMem olderEntry olderEntryMem
      (Nat.lt_of_not_le wrong)
    intro entry entryMem same
    rw [times _ entryMem, times _ newerEntryMem, same]
  omega

/-- The index tracks what the scan finds. -/
def CacheIndex.TracksFound (index : CacheIndex) (disk : Disk) (root : Path) : Prop :=
  ∀ key, index.Tracks key ↔
    ∃ path, (Finds disk root path ∨ path ∈ storeFiles disk root) ∧ relName root path = key

/-- What is tracked after a restart, on any disk. -/
theorem exists_startupIndex (disk : Disk) (mtimeOf : Path → ℕ) (root : Path) (maxBytes : UInt64) :
    ∃ index, startupIndex disk mtimeOf root maxBytes = some index ∧
      index.TracksFound disk root := by
  rcases exists_findMirrors disk mtimeOf root with ⟨dirs, _, allDirs, found⟩
  refine ⟨_, by rw [startupIndex, found, Option.map_some], ?_⟩
  intro key
  rw [CacheIndex.tracks_new, findLfsBlobs_eq, ← List.map_append, List.map_map, List.mem_map]
  simp only [Function.comp, scannedAt, List.mem_append, allDirs, ← toFinset_objectFiles,
    List.mem_toFinset]

section Building

variable {disk : Disk} {mtimeOf : Path → ℕ} {root : Path} {mirrors blobs : List Path}

theorem mem_oldestFirst_scanned {entry : Scanned} :
    entry ∈ oldestFirst (mirrors.map (scannedAt disk mtimeOf root))
        (blobs.map (scannedAt disk mtimeOf root)) ↔
      ∃ path ∈ mirrors ++ blobs, scannedAt disk mtimeOf root path = entry := by
  rw [oldestFirst, (List.perm_insertionSort _ _).mem_iff, ← List.map_append, List.mem_map]

/-- Size and time of an entry are those of the path that its key stands for. -/
theorem scanned_of_mem_oldestFirst
    (placed : ∀ path ∈ mirrors ++ blobs, join root (relName root path) = path) :
    ∀ entry ∈ oldestFirst (mirrors.map (scannedAt disk mtimeOf root))
        (blobs.map (scannedAt disk mtimeOf root)),
      entry.size = sizeBelow disk (join root entry.name) ∧
        entry.mtime = newestBelow disk mtimeOf (join root entry.name) := by
  intro entry entryMem
  rcases mem_oldestFirst_scanned.mp entryMem with ⟨path, pathMem, rfl⟩
  simp only [scannedAt, placed path pathMem, and_self]

/-- The index of entries at distinct paths, each of which its key stands for. -/
theorem rebuilt_new (placed : ∀ path ∈ mirrors ++ blobs, join root (relName root path) = path)
    (distinct : (mirrors ++ blobs).Nodup) (maxBytes : UInt64) :
    Rebuilt (.new (mirrors.map (scannedAt disk mtimeOf root))
        (blobs.map (scannedAt disk mtimeOf root)) maxBytes)
      disk mtimeOf root ((mirrors ++ blobs).toFinset.image (relName root)) := by
  have distinctNames : ((mirrors.map (scannedAt disk mtimeOf root) ++
      blobs.map (scannedAt disk mtimeOf root)).map Scanned.name).Nodup := by
    rw [← List.map_append, List.map_map]
    apply distinct.map_on
    intro first firstMem second secondMem same
    simp only [Function.comp, scannedAt] at same
    rw [← placed first firstMem, same, placed second secondMem]
  have sizes (key : Text) : (CacheIndex.new (mirrors.map (scannedAt disk mtimeOf root))
      (blobs.map (scannedAt disk mtimeOf root)) maxBytes).inner.cache.peek key =
        if key ∈ (mirrors ++ blobs).toFinset.image (relName root) then
          some (sizeBelow disk (join root key)) else none := by
    have names : key ∈ (oldestFirst (mirrors.map (scannedAt disk mtimeOf root))
        (blobs.map (scannedAt disk mtimeOf root))).map Scanned.name ↔
          key ∈ (mirrors ++ blobs).toFinset.image (relName root) := by
      simp only [List.mem_map, Finset.mem_image, List.mem_toFinset, mem_oldestFirst_scanned]
      constructor
      · rintro ⟨_, ⟨path, pathMem, rfl⟩, rfl⟩
        exact ⟨path, pathMem, rfl⟩
      · rintro ⟨path, pathMem, rfl⟩
        exact ⟨_, ⟨path, pathMem, rfl⟩, rfl⟩
    rw [CacheIndex.new, peek_foldl_enter,
      lastSize_of_sizes (fun key => sizeBelow disk (join root key))
        fun entry entryMem => (scanned_of_mem_oldestFirst placed entry entryMem).1]
    simp only [names]
  refine ⟨sizes, ?_, ?_⟩
  · have nothingTwice := drift_new_of_distinct maxBytes distinctNames
    rw [Inner.drift, sub_eq_zero] at nothingTwice
    rw [nothingTwice]
    exact weigh_eq_sum sizes
  · exact pairwise_keys_foldl_enter (fun key => newestBelow disk mtimeOf (join root key))
      (pairwise_oldestFirst _ _)
      fun entry entryMem => (scanned_of_mem_oldestFirst placed entry entryMem).2

end Building

/-! ## Main result -/

section Rebuilding

variable {disk : Disk} {mtimeOf : Path → ℕ} {root : Path} {names objects : Finset Text}

/-- A key stands for the path that it was made of. -/
theorem join_relName {rest : Path} (notRoot : rest ≠ [])
    (plain : ∀ comp ∈ rest, comp ≠ [] ∧ comp ≠ ['.'] ∧ '/' ∉ comp) :
    join root (relName root (root ++ rest)) = root ++ rest := by
  have split : (['/'].intercalate rest).splitOn '/' = rest :=
    List.splitOn_intercalate '/' (fun comp compMem => (plain comp compMem).2.2) notRoot
  have relative : (['/'].intercalate rest).head? ≠ some '/' := by
    cases rest with
    | nil => exact absurd rfl notRoot
    | cons first others =>
        have ordinary := plain first List.mem_cons_self
        cases first with
        | nil => exact absurd rfl ordinary.1
        | cons char more =>
            have notSlash : char ≠ '/' := by
              rintro rfl
              exact ordinary.2.2 List.mem_cons_self
            cases others with
            | nil => simpa using notSlash
            | cons second others => simpa [List.intercalate_cons_cons] using notSlash
  rw [relName_append, join, if_neg relative, components, split, List.filter_eq_self.mpr]
  intro comp compMem
  exact decide_eq_true ⟨(plain comp compMem).1, (plain comp compMem).2.1⟩

theorem relName_join {name : Text} (wellNamed : WellNamed name) :
    relName root (join root name) = name := by
  rw [wellNamed.join_eq, relName_append, List.intercalate_splitOn]

theorem relName_lfsObjectPath {oid : Text} (valid : validLfsOid oid = true) :
    relName root (lfsObjectPath root oid) = lfsObjectKey oid := by
  rw [lfsObjectPath_eq valid, relName_append]
  simp [List.intercalate_cons_cons, lfsObjectKey]

theorem mem_storeFiles_of_valid {oid : Text} (valid : validLfsOid oid = true)
    (isFile : disk.isFile (lfsObjectPath root oid) = true) :
    lfsObjectPath root oid ∈ storeFiles disk root := by
  have path : lfsObjectPath root oid = root ++ [lfsObjectsDir, oid.take 2, oid] :=
    lfsObjectPath_eq valid
  rw [storeFiles, Finset.mem_filter, Tree.mem_filesBelow]
  refine ⟨⟨⟨[oid.take 2, oid], by simp [path]⟩, isFile⟩, by simp [path], ?_⟩
  intro incoming
  have shard : oid.take 2 = incomingDir := by simpa [path] using incoming
  have short := congrArg List.length shard
  rw [List.length_take, length_of_validLfsOid valid] at short
  exact absurd short (by decide)

theorem not_mem_storeFiles {name : Text} (wellNamed : WellNamed name) :
    join root name ∉ storeFiles disk root := by
  intro inStore
  rw [storeFiles, Finset.mem_filter, Tree.mem_filesBelow, wellNamed.join_eq,
    List.prefix_append_right_inj] at inStore
  exact unmarked_of_infix wellNamed.notStore lfsObjectsDir
    (inStore.1.1.subset (List.mem_singleton_self _)) List.infix_rfl

theorem image_relName (layout : CacheTree disk root names objects) :
    (names.image (join root) ∪ storeFiles disk root).image (relName root) =
      names ∪ objects.image lfsObjectKey ∪ (strays disk root objects).image (relName root) := by
  have mirrorKeys : (names.image (join root)).image (relName root) = names := by
    have same : names.image (relName root ∘ join root) = names.image id :=
      Finset.image_congr fun name nameMem => relName_join (layout.wellNamed name nameMem)
    rw [Finset.image_image, same, Finset.image_id]
  have objectKeys : (objects.image (lfsObjectPath root)).image (relName root) =
      objects.image lfsObjectKey := by
    rw [Finset.image_image]
    apply Finset.image_congr
    intro oid oidMem
    exact relName_lfsObjectPath (layout.stored oid oidMem).1
  have store : storeFiles disk root =
      objects.image (lfsObjectPath root) ∪ strays disk root objects := by
    ext file
    simp only [strays, Finset.mem_union, Finset.mem_filter]
    constructor
    · intro fileMem
      by_cases isObject : file ∈ objects.image (lfsObjectPath root)
      · exact Or.inl isObject
      · exact Or.inr ⟨fileMem, isObject⟩
    · rintro (isObject | isStray)
      · rcases Finset.mem_image.mp isObject with ⟨oid, oidMem, rfl⟩
        exact mem_storeFiles_of_valid (layout.stored oid oidMem).1 (layout.stored oid oidMem).2
      · exact isStray.1
  rw [Finset.image_union, mirrorKeys, store, Finset.image_union, objectKeys, Finset.union_assoc]

end Rebuilding

/-- A mirror, what an interrupted clone left behind, an object, and a stray file next to it. -/
def leftovers : Disk where
  entries := [
    (["srv".toList], .dir),
    (["srv".toList, "app".toList], .dir),
    (["srv".toList, "app".toList, headFile], .file [1, 2, 3]),
    (["srv".toList, "app.__incoming__".toList], .dir),
    (["srv".toList, "app.__incoming__".toList, headFile], .file []),
    (["srv".toList, lfsObjectsDir], .dir),
    (["srv".toList, lfsObjectsDir, "cc".toList], .dir),
    (["srv".toList, lfsObjectsDir, "cc".toList, List.replicate 64 'c'], .file [4]),
    (["srv".toList, lfsObjectsDir, "cc".toList, "notes".toList], .file [5, 6])]
  closed := closed_of_entries (by decide)

theorem cacheTree_leftovers :
    CacheTree leftovers ["srv".toList] {"app".toList} {List.replicate 64 'c'} := by
  have known {path : Path} (present : leftovers.Exists path) (notRoot : path ≠ []) :=
    Tree.mem_entries_of_exists present notRoot
  have accepted : resolve "app".toList [] ["srv".toList] = .ok {
      name := "app".toList
      upstreamUrl := "/app".toList
      cacheDir := ["srv".toList, "app".toList] } := by rfl
  constructor
  · intro path present comp compMem
    have notRoot : path ≠ [] := by
      rintro rfl
      cases compMem
    have all : ∀ path ∈ leftovers.entries.map Prod.fst, ∀ comp ∈ path,
        comp ≠ [] ∧ comp ≠ ['.'] ∧ '/' ∉ comp := by decide
    exact all path (known present notRoot) comp compMem
  · intro name nameMem
    rw [Finset.mem_singleton.mp nameMem]
    exact (resolve_eq_ok_iff.mp accepted).1
  · intro name nameMem
    rw [Finset.mem_singleton.mp nameMem]
    rfl
  · intro first firstMem second secondMem _
    rw [Finset.mem_singleton.mp firstMem, Finset.mem_singleton.mp secondMem]
  · rfl
  · intro rest marked
    have all : ∀ path ∈ leftovers.entries.map Prod.fst, path.getLast? = some headFile →
        path = ["srv".toList] ++ ["app".toList] ++ [headFile] ∨
          path = ["srv".toList] ++ ["app.__incoming__".toList] ++ [headFile] := by decide
    have isHead := all _ (known (Tree.exists_of_isFile marked) (by simp)) List.getLast?_concat
    simp only [List.append_cancel_right_eq, List.append_cancel_left_eq] at isHead
    rcases isHead with rfl | rfl
    · exact Or.inl ⟨_, Finset.mem_singleton_self _, List.prefix_refl _⟩
    · exact Or.inr ⟨_, List.mem_singleton_self _, by decide⟩
  · intro oid oidMem
    rw [Finset.mem_singleton.mp oidMem]
    exact ⟨by decide, by rfl⟩

end GitCacheProxy.Index
