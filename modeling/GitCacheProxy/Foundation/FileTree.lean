import Mathlib.Data.Finset.Dedup
import Mathlib.Data.Finset.Filter
import Mathlib.Data.Finset.Insert
import Mathlib.Data.List.Infix
import Mathlib.Data.List.Lattice

/-!
# Directory trees

A directory tree over component names `κ` and file contents `β`, together with
the file-system calls that programs make on it.  Paths are relative to the root
of the tree.  A tree is a finite list of entries, so every call computes; it is
*closed*: whatever exists lies in a directory.

Every call has one lemma saying what each path names afterwards
(`get?_createDirAll`, `get?_remove`, `get?_graft`, `get?_rename`,
`get?_writeFile`, `get?_removeFile`); nothing else about the representation is
used outside this file.  `rename` follows POSIX: a directory replaces a missing
or an empty directory only, a file replaces a missing path or a file only.
-/

namespace FileTree

universe u v

/-- What a path names. -/
inductive Node (β : Type v) where
  | dir
  | file (content : β)
  deriving DecidableEq, Repr

variable {κ : Type u} {β : Type v}

theorem concat_prefix_concat_iff {parent : List κ} {name other : κ} {rest : List κ} :
    parent ++ [name] <+: parent ++ other :: rest ↔ name = other := by
  rw [List.prefix_append_right_inj]
  simp [List.cons_prefix_cons]

theorem not_below_of_above {parent ancestor : List κ} {name : κ} {rest : List κ}
    (above : ancestor <+: parent) : ¬parent ++ name :: rest <+: ancestor := by
  intro below
  have shorter := (below.trans above).length_le
  simp only [List.length_append, List.length_cons] at shorter
  omega

variable [DecidableEq κ]

/-- The first entry for a path; the root is always a directory. -/
def lookup (entries : List (List κ × Node β)) (path : List κ) : Option (Node β) :=
  if path = [] then some .dir else entries.lookup path

section Entries

variable {entries : List (List κ × Node β)}

@[simp]
theorem lookup_root : lookup entries [] = some .dir := by simp [lookup]

theorem lookup_append (first second : List (List κ × Node β)) {path : List κ}
    (notRoot : path ≠ []) :
    lookup (first ++ second) path = (first.lookup path).or (lookup second path) := by
  simp [lookup, notRoot, List.lookup_append]

theorem lookup_filter (keep : List κ → Bool) (path : List κ) :
    lookup (entries.filter fun entry => keep entry.1) path =
      if path ≠ [] ∧ keep path = false then none else lookup entries path := by
  by_cases isRoot : path = []
  · simp [isRoot]
  · simp only [lookup, isRoot, if_false, ne_eq, not_false_eq_true, true_and]
    induction entries with
    | nil => simp
    | cons entry rest ih =>
        rcases entry with ⟨key, node⟩
        by_cases same : path = key
        · subst same
          by_cases kept : keep path = true
          · simp [kept]
          · simpa [kept] using ih
        · have other : (path == key) = false := by simpa using same
          by_cases kept : keep key = true <;> simp [kept, List.lookup_cons, other, ih]

theorem list_lookup_const (paths : List (List κ)) (node : Node β) (path : List κ) :
    (paths.map fun key => (key, node)).lookup path =
      if path ∈ paths then some node else none := by
  induction paths with
  | nil => simp
  | cons key rest ih =>
      by_cases same : path = key
      · simp [same]
      · have other : (path == key) = false := by simpa using same
        simp [List.lookup_cons, other, ih, same]

/-- The entries that make every ancestor of `path` a directory. -/
def ancestors (path : List κ) : List (List κ × Node β) :=
  path.inits.map fun ancestor => (ancestor, .dir)

theorem list_lookup_ancestors (path target : List κ) :
    (ancestors path : List (List κ × Node β)).lookup target =
      if target <+: path then some .dir else none := by
  simp only [ancestors, list_lookup_const, List.mem_inits]

theorem list_lookup_shift (base path : List κ) :
    (entries.map fun entry => (base ++ entry.1, entry.2)).lookup (base ++ path) =
      entries.lookup path := by
  induction entries with
  | nil => simp
  | cons entry rest ih =>
      rcases entry with ⟨key, node⟩
      have sameTest : (base ++ path == base ++ key) = (path == key) := by
        rw [Bool.eq_iff_iff]
        simp
      simp only [List.map_cons, List.lookup_cons, sameTest, ih]

theorem list_lookup_shift_outside {base path : List κ} (outside : ¬base <+: path) :
    (entries.map fun entry => (base ++ entry.1, entry.2)).lookup path = none := by
  rw [List.lookup_eq_none_iff]
  intro entry entryMem
  rw [List.mem_map] at entryMem
  rcases entryMem with ⟨source, _, rfl⟩
  simp only [bne_iff_ne, ne_eq]
  rintro rfl
  exact outside (List.prefix_append _ _)

/-- The entries below `base`, with `base` stripped. -/
def below (entries : List (List κ × Node β)) (base : List κ) : List (List κ × Node β) :=
  entries.filterMap fun entry =>
    if base <+: entry.1 then some (entry.1.drop base.length, entry.2) else none

theorem list_lookup_below (base path : List κ) :
    (below entries base).lookup path = entries.lookup (base ++ path) := by
  induction entries with
  | nil => simp [below]
  | cons entry rest ih =>
      rcases entry with ⟨key, node⟩
      by_cases under : base <+: key
      · rcases under with ⟨suffix, rfl⟩
        have stripped : below ((base ++ suffix, node) :: rest) base =
            (suffix, node) :: below rest base := by simp [below]
        have sameTest : (base ++ path == base ++ suffix) = (path == suffix) := by
          rw [Bool.eq_iff_iff]
          simp
        simp only [stripped, List.lookup_cons, sameTest, ih]
      · have stripped : below ((key, node) :: rest) base = below rest base := by
          simp [below, under]
        have different : (base ++ path == key) = false := by
          rw [beq_eq_false_iff_ne]
          rintro rfl
          exact under (List.prefix_append _ _)
        rw [stripped, List.lookup_cons, different, ih]

end Entries

/-- A finite directory tree; `closed` says that whatever exists lies in a directory. -/
structure Tree (κ : Type u) (β : Type v) [DecidableEq κ] where
  entries : List (List κ × Node β)
  closed : ∀ path name, lookup entries (path ++ [name]) ≠ none →
    lookup entries path = some .dir

/-- It is enough to look at the entries. -/
theorem closed_of_entries {entries : List (List κ × Node β)}
    (parents : ∀ entry ∈ entries, lookup entries entry.1.dropLast = some .dir) (path : List κ)
    (name : κ) (child : lookup entries (path ++ [name]) ≠ none) :
    lookup entries path = some .dir := by
  rw [lookup, if_neg (by simp), ne_eq, List.lookup_eq_none_iff] at child
  simp only [not_forall] at child
  rcases child with ⟨entry, entryMem, same⟩
  have key : path ++ [name] = entry.1 := by simpa using same
  have parent := parents entry entryMem
  rwa [← key, List.dropLast_concat] at parent

namespace Tree

variable {tree sub : Tree κ β} {path : List κ}

/-- What `path` names, if anything. -/
def get? (tree : Tree κ β) (path : List κ) : Option (Node β) := lookup tree.entries path

/-- The tree with nothing but its root. -/
def empty : Tree κ β := ⟨[], by simp [lookup]⟩

/-- `path` names something. -/
def Exists (tree : Tree κ β) (path : List κ) : Prop := tree.get? path ≠ none

instance : Decidable (tree.Exists path) :=
  decidable_of_iff ((tree.get? path).isSome = true) (by
    simp [Exists, Option.isSome_iff_ne_none])

/-- `path` names a regular file. -/
def isFile (tree : Tree κ β) (path : List κ) : Bool :=
  match tree.get? path with
  | some (.file _) => true
  | _ => false

/-- `path` names a directory. -/
def isDir (tree : Tree κ β) (path : List κ) : Bool :=
  match tree.get? path with
  | some .dir => true
  | _ => false

@[simp]
theorem get?_root : tree.get? [] = some .dir := lookup_root

@[simp]
theorem get?_empty : (empty : Tree κ β).get? path = if path = [] then some .dir else none := by
  simp [get?, empty, lookup]

theorem isFile_iff : tree.isFile path = true ↔ ∃ content, tree.get? path = some (.file content) := by
  unfold isFile
  split <;> simp_all

theorem isDir_iff : tree.isDir path = true ↔ tree.get? path = some .dir := by
  unfold isDir
  split <;> simp_all

theorem isFile_congr {first second : Tree κ β} {path path' : List κ}
    (same : first.get? path = second.get? path') : first.isFile path = second.isFile path' := by
  rw [isFile, isFile, same]

theorem exists_of_get? {node : Node β} (found : tree.get? path = some node) :
    tree.Exists path := by
  rw [Exists, found]
  exact Option.some_ne_none _

theorem exists_of_isDir (isDir : tree.isDir path = true) : tree.Exists path :=
  exists_of_get? (isDir_iff.mp isDir)

theorem exists_of_isFile (isFile : tree.isFile path = true) : tree.Exists path := by
  rcases isFile_iff.mp isFile with ⟨content, found⟩
  exact exists_of_get? found

theorem get?_of_child {name : κ} (child : tree.Exists (path ++ [name])) :
    tree.get? path = some .dir :=
  tree.closed path name child

/-- Every proper ancestor of an existing path is a directory. -/
theorem get?_of_below {rest : List κ} (notSelf : rest ≠ [])
    (present : tree.Exists (path ++ rest)) : tree.get? path = some .dir := by
  induction rest using List.reverseRecOn with
  | nil => exact absurd rfl notSelf
  | append_singleton init name ih =>
      rw [← List.append_assoc] at present
      have parent := get?_of_child present
      by_cases top : init = []
      · simpa [top] using parent
      · exact ih top (by simp [Exists, parent])

theorem get?_eq_none_of_below {rest : List κ} (absent : tree.get? path = none) :
    tree.get? (path ++ rest) = none := by
  by_contra present
  by_cases self : rest = []
  · simp [self, absent] at present
  · rw [get?_of_below self present] at absent
    cases absent

/-! ## Listing -/

/-- `read_dir`, in some order: what is directly in `path`. -/
def list (tree : Tree κ β) (path : List κ) : List κ :=
  (tree.entries.filterMap fun entry =>
    if entry.1.dropLast = path then entry.1.getLast? else none).dedup

theorem mem_list {name : κ} : name ∈ tree.list path ↔ tree.Exists (path ++ [name]) := by
  simp only [list, List.mem_dedup, List.mem_filterMap, Exists, get?, lookup, List.append_eq_nil_iff,
    List.cons_ne_self, and_false, if_false, ne_eq, List.lookup_eq_none_iff, not_forall]
  constructor
  · rintro ⟨entry, entryMem, isChild⟩
    split at isChild
    · rename_i parent
      have whole : path ++ [name] = entry.1 := by
        rcases List.getLast?_eq_some_iff.mp isChild with ⟨init, split⟩
        rw [← parent, split, List.dropLast_concat]
      exact ⟨entry, entryMem, by simp [whole]⟩
    · cases isChild
  · rintro ⟨entry, entryMem, same⟩
    have whole : path ++ [name] = entry.1 := by simpa using same
    exact ⟨entry, entryMem, by simp [← whole]⟩

theorem nodup_list (tree : Tree κ β) (path : List κ) : (tree.list path).Nodup :=
  List.nodup_dedup _

/-- The regular files at and below `path`. -/
def filesBelow (tree : Tree κ β) (path : List κ) : Finset (List κ) :=
  (tree.entries.map Prod.fst).toFinset.filter fun file =>
    path <+: file ∧ tree.isFile file = true

theorem mem_entries_of_exists (present : tree.Exists path) (notRoot : path ≠ []) :
    path ∈ tree.entries.map Prod.fst := by
  simp only [Exists, get?, lookup, notRoot, if_false, ne_eq, List.lookup_eq_none_iff,
    not_forall] at present
  rcases present with ⟨entry, entryMem, same⟩
  have key : path = entry.1 := by simpa using same
  rw [key]
  exact List.mem_map_of_mem entryMem

theorem mem_filesBelow {file : List κ} :
    file ∈ tree.filesBelow path ↔ path <+: file ∧ tree.isFile file = true := by
  simp only [filesBelow, Finset.mem_filter, List.mem_toFinset, and_iff_right_iff_imp]
  rintro ⟨_, isFile⟩
  apply mem_entries_of_exists (exists_of_isFile isFile)
  rintro rfl
  simp [Tree.isFile] at isFile

theorem filesBelow_of_isFile (isFile : tree.isFile path = true) :
    tree.filesBelow path = {path} := by
  ext file
  rw [mem_filesBelow, Finset.mem_singleton]
  constructor
  · rintro ⟨⟨rest, rfl⟩, fileBelow⟩
    by_contra deeper
    have isDir := get?_of_below (fun self => deeper (by simp [self])) (exists_of_isFile fileBelow)
    rcases isFile_iff.mp isFile with ⟨content, found⟩
    rw [isDir] at found
    cases found
  · rintro rfl
    exact ⟨List.prefix_refl _, isFile⟩

/-! ## Creating directories -/

/-- `create_dir_all`: fails when a component on the way is a regular file. -/
def createDirAll (tree : Tree κ β) (path : List κ) : Option (Tree κ β) :=
  if ∃ ancestor ∈ path.inits, tree.isFile ancestor = true then none
  else some {
    entries := ancestors path ++ tree.entries
    closed := by
      intro parent name child
      by_cases isRoot : parent = []
      · simp [isRoot]
      rw [lookup_append _ _ (by simp), list_lookup_ancestors] at child
      rw [lookup_append _ _ isRoot, list_lookup_ancestors]
      by_cases made : parent ++ [name] <+: path
      · have parentMade : parent <+: path := (List.prefix_append _ _).trans made
        simp [parentMade]
      · rw [if_neg made] at child
        rw [tree.closed parent name child]
        split <;> rfl }

theorem createDirAll_eq_some_iff :
    (∃ tree', tree.createDirAll path = some tree') ↔
      ∀ ancestor, ancestor <+: path → tree.isFile ancestor = false := by
  unfold createDirAll
  split
  · rename_i blocked
    simp only [List.mem_inits] at blocked
    simpa using blocked
  · rename_i free
    simp only [List.mem_inits, not_exists, not_and, Bool.not_eq_true] at free
    simpa using free

theorem get?_createDirAll {tree' : Tree κ β} (made : tree.createDirAll path = some tree')
    (target : List κ) :
    tree'.get? target = if target <+: path then some .dir else tree.get? target := by
  unfold createDirAll at made
  split at made
  · cases made
  · cases made
    by_cases isRoot : target = []
    · simp [isRoot]
    · simp only [get?]
      rw [lookup_append _ _ isRoot, list_lookup_ancestors]
      split <;> rfl

theorem isFile_createDirAll {tree' : Tree κ β} (made : tree.createDirAll path = some tree')
    (target : List κ) : tree'.isFile target = tree.isFile target := by
  have noFile := createDirAll_eq_some_iff.mp ⟨tree', made⟩
  by_cases onTheWay : target <+: path
  · rw [noFile target onTheWay, isFile, get?_createDirAll made, if_pos onTheWay]
  · rw [isFile, isFile, get?_createDirAll made, if_neg onTheWay]

theorem exists_createDirAll {tree' : Tree κ β} (made : tree.createDirAll path = some tree')
    (target : List κ) : tree'.Exists target ↔ target <+: path ∨ tree.Exists target := by
  unfold Exists
  rw [get?_createDirAll made]
  split <;> simp_all

/-! ## Removing -/

/-- `remove_dir_all`: nothing at or below `path` is left. -/
def remove (tree : Tree κ β) (path : List κ) : Tree κ β where
  entries := tree.entries.filter fun entry => decide (¬path <+: entry.1)
  closed := by
    intro parent name child
    by_cases isRoot : parent = []
    · simp [isRoot]
    rw [lookup_filter (fun key => decide (¬path <+: key))] at child ⊢
    have outside : ¬path <+: parent ++ [name] := by
      intro inside
      simp [inside] at child
    have parentOutside : ¬path <+: parent :=
      fun inside => outside (inside.trans (List.prefix_append _ _))
    simp only [outside, not_false_eq_true, decide_true, Bool.true_eq_false, and_false,
      if_false] at child
    simp [parentOutside, tree.closed parent name child]

theorem get?_remove (notRoot : path ≠ []) (target : List κ) :
    (tree.remove path).get? target = if path <+: target then none else tree.get? target := by
  simp only [get?, remove]
  rw [lookup_filter (fun key => decide (¬path <+: key))]
  by_cases inside : path <+: target
  · have targetNotRoot : target ≠ [] := by
      rintro rfl
      exact notRoot (List.prefix_nil.mp inside)
    simp [inside, targetNotRoot]
  · simp [inside]

/-- `remove_file`: only a regular file can be unlinked. -/
def removeFile (tree : Tree κ β) (path : List κ) : Option (Tree κ β) :=
  if tree.isFile path = true then some (tree.remove path) else none

theorem get?_removeFile {tree' : Tree κ β} (removed : tree.removeFile path = some tree')
    (target : List κ) :
    tree'.get? target = if target = path then none else tree.get? target := by
  unfold removeFile at removed
  split at removed
  · rename_i file
    cases removed
    rcases isFile_iff.mp file with ⟨content, found⟩
    have notRoot : path ≠ [] := by
      rintro rfl
      simp at found
    rw [get?_remove notRoot]
    by_cases same : target = path
    · simp [same]
    · rw [if_neg same]
      split
      · rename_i inside
        rcases inside with ⟨rest, rfl⟩
        by_contra present
        have self : rest ≠ [] := by
          rintro rfl
          simp at same
        rw [get?_of_below self (Ne.symm present)] at found
        cases found
      · rfl
  · cases removed

theorem get?_of_removeFile {tree' : Tree κ β} (removed : tree.removeFile path = some tree')
    {target : List κ} {node : Node β} (found : tree'.get? target = some node) :
    tree.get? target = some node := by
  rw [get?_removeFile removed] at found
  split at found
  · cases found
  · exact found

/-! ## Populating -/

/-- Another program fills `path` with the tree `sub`, creating the directories on the way. -/
def graft (tree : Tree κ β) (path : List κ) (sub : Tree κ β) : Tree κ β where
  entries := ancestors path ++
    (sub.entries.map (fun entry => (path ++ entry.1, entry.2)) ++ (tree.remove path).entries)
  closed := by
    intro parent name child
    by_cases isRoot : parent = []
    · simp [isRoot]
    rw [lookup_append _ _ (by simp), list_lookup_ancestors,
      lookup_append _ _ (by simp)] at child
    rw [lookup_append _ _ isRoot, list_lookup_ancestors, lookup_append _ _ isRoot]
    by_cases made : parent <+: path
    · simp [made]
    have childMade : ¬parent ++ [name] <+: path :=
      fun inside => made ((List.prefix_append _ _).trans inside)
    rw [if_neg childMade] at child
    rw [if_neg made]
    by_cases inside : path <+: parent
    · rcases inside with ⟨rest, rfl⟩
      have self : rest ≠ [] := by
        rintro rfl
        simp at made
      have gone : lookup (tree.remove path).entries (path ++ (rest ++ [name])) = none := by
        simp only [remove]
        rw [lookup_filter (fun key => decide (¬path <+: key))]
        simp
      rw [List.append_assoc, list_lookup_shift, gone] at child
      have subParent := sub.closed rest name (by simpa [lookup] using child)
      simp only [lookup, self, if_false] at subParent
      simp [list_lookup_shift, subParent]
    · have outside : ¬path <+: parent ++ [name] := by
        intro within
        rcases List.prefix_concat_iff.mp within with rfl | within
        · exact made (List.prefix_append _ _)
        · exact inside within
      rw [list_lookup_shift_outside outside] at child
      rw [list_lookup_shift_outside inside]
      exact (tree.remove path).closed parent name (by simpa using child)

theorem get?_graft (notRoot : path ≠ []) (target : List κ) :
    (tree.graft path sub).get? target =
      if path <+: target then sub.get? (target.drop path.length)
      else if target <+: path then some .dir else tree.get? target := by
  by_cases isRoot : target = []
  · subst target
    have outside : ¬path <+: [] := fun inside => notRoot (List.prefix_nil.mp inside)
    simp [outside]
  · simp only [get?, graft]
    rw [lookup_append _ _ isRoot, list_lookup_ancestors, lookup_append _ _ isRoot]
    have removed : (tree.remove path).get? target =
        if path <+: target then none else tree.get? target := get?_remove notRoot target
    simp only [get?] at removed
    by_cases inside : path <+: target
    · rcases inside with ⟨rest, rfl⟩
      rw [removed, list_lookup_shift]
      by_cases self : rest = []
      · subst self
        simp
      · have above : ¬path ++ rest <+: path := by
          intro back
          have shorter := back.length_le
          simp only [List.length_append] at shorter
          exact self (List.length_eq_zero_iff.mp (by omega))
        simp [above, lookup, self]
    · rw [list_lookup_shift_outside inside, removed]
      by_cases above : target <+: path <;> simp [inside, above]

/-- Replace what is at `path`: by a tree, or by nothing. -/
def replace (tree : Tree κ β) (path : List κ) (left : Option (Tree κ β)) : Tree κ β :=
  match left with
  | some sub => tree.graft path sub
  | none => tree.remove path

theorem get?_replace_of_apart {left : Option (Tree κ β)} {target : List κ} (notRoot : path ≠ [])
    (outside : ¬path <+: target) (notAbove : ¬target <+: path) :
    (tree.replace path left).get? target = tree.get? target := by
  cases left with
  | none => rw [replace, get?_remove notRoot, if_neg outside]
  | some sub => rw [replace, get?_graft notRoot, if_neg outside, if_neg notAbove]

/-- Replacing one child of a directory leaves its siblings alone. -/
theorem get?_replace_child {parent : List κ} {name other : κ} {rest : List κ}
    {left : Option (Tree κ β)} :
    (tree.replace (parent ++ [name]) left).get? (parent ++ other :: rest) =
      if name = other then left.bind fun sub => sub.get? rest
      else tree.get? (parent ++ other :: rest) := by
  have notRoot : parent ++ [name] ≠ [] := by simp
  cases left with
  | none =>
      simp only [replace, get?_remove notRoot, concat_prefix_concat_iff, Option.bind_none]
  | some sub =>
      simp only [replace, get?_graft notRoot, concat_prefix_concat_iff, Option.bind_some]
      by_cases same : name = other
      · subst same
        simp
      · have above : ¬parent ++ other :: rest <+: parent ++ [name] := by
          intro above
          rw [List.prefix_append_right_inj] at above
          simp [List.cons_prefix_cons, Ne.symm same] at above
        simp [same, above]

/-- Nor does it turn an ancestor into a file. -/
theorem isFile_replace_above {parent ancestor : List κ} {name : κ} (above : ancestor <+: parent)
    (left : Option (Tree κ β)) :
    (tree.replace (parent ++ [name]) left).isFile ancestor =
      if left.isSome then false else tree.isFile ancestor := by
  have notRoot : parent ++ [name] ≠ [] := by simp
  have outside : ¬parent ++ [name] <+: ancestor := not_below_of_above above
  cases left with
  | none => simp [isFile, replace, get?_remove notRoot, outside]
  | some sub =>
      have onTheWay : ancestor <+: parent ++ [name] := above.trans (List.prefix_append _ _)
      simp [isFile, replace, get?_graft notRoot, outside, onTheWay]

/-- `File::create` and writes: the file's content is replaced; its directory must exist. -/
def writeFile (tree : Tree κ β) (path : List κ) (content : β) : Option (Tree κ β) :=
  if writable : tree.isDir path.dropLast = true ∧ ¬tree.isDir path = true then
    some {
      entries := (path, .file content) :: tree.entries
      closed := by
        have notRoot : path ≠ [] := by
          rintro rfl
          exact writable.2 (isDir_iff.mpr get?_root)
        have test (target : List κ) (targetNotRoot : target ≠ []) :
            lookup ((path, .file content) :: tree.entries) target =
              if target = path then some (.file content) else lookup tree.entries target := by
          by_cases same : target = path
          · subst same
            simp [lookup, targetNotRoot]
          · have other : (target == path) = false := by simpa using same
            simp [lookup, targetNotRoot, List.lookup_cons, other, same]
        intro parent name child
        by_cases isRoot : parent = []
        · simp [isRoot]
        have parentDir : lookup tree.entries parent = some .dir := by
          rw [test _ (by simp)] at child
          split at child
          · rename_i same
            have dropped : path.dropLast = parent := by simp [← same]
            rw [← dropped]
            exact isDir_iff.mp writable.1
          · exact tree.closed parent name child
        have different : parent ≠ path := by
          rintro rfl
          exact writable.2 (isDir_iff.mpr parentDir)
        rw [test _ isRoot, if_neg different, parentDir] }
  else none

theorem get?_writeFile {tree' : Tree κ β} {content : β}
    (written : tree.writeFile path content = some tree') (target : List κ) :
    tree'.get? target = if target = path then some (.file content) else tree.get? target := by
  unfold writeFile at written
  split at written
  · rename_i writable
    cases written
    have notRoot : path ≠ [] := by
      rintro rfl
      exact writable.2 (isDir_iff.mpr get?_root)
    by_cases isRoot : target = []
    · subst target
      simp [notRoot.symm]
    · by_cases same : target = path
      · subst same
        simp [get?, lookup, isRoot]
      · have other : (target == path) = false := by simpa using same
        simp [get?, lookup, isRoot, List.lookup_cons, other, same]
  · cases written

theorem writeFile_eq_some_iff {content : β} :
    (∃ tree', tree.writeFile path content = some tree') ↔
      tree.isDir path.dropLast = true ∧ tree.isDir path = false := by
  unfold writeFile
  split
  · rename_i writable
    exact iff_of_true ⟨_, rfl⟩ ⟨writable.1, by simpa using writable.2⟩
  · rename_i blocked
    refine iff_of_false (by simp) ?_
    rintro ⟨parent, free⟩
    exact blocked ⟨parent, by simp [free]⟩

/-! ## Renaming -/

/-- `path` is taken: it names a file, or a directory with something in it. -/
def occupied (tree : Tree κ β) (path : List κ) : Bool :=
  match tree.get? path with
  | none => false
  | some (.file _) => true
  | some .dir => tree.entries.any fun entry => decide (path <+: entry.1 ∧ entry.1 ≠ path)

theorem occupied_iff :
    tree.occupied path = true ↔
      tree.isFile path = true ∨ ∃ name, tree.Exists (path ++ [name]) := by
  unfold occupied isFile
  split
  · rename_i absent
    have nothing : ∀ name, ¬tree.Exists (path ++ [name]) := by
      intro name
      simp [Exists, get?_eq_none_of_below absent]
    simp [absent, nothing]
  · rename_i found
    simp [found]
  · rename_i found
    simp only [found, List.any_eq_true, decide_eq_true_eq, Bool.false_eq_true, false_or]
    constructor
    · rintro ⟨entry, entryMem, ⟨rest, same⟩, different⟩
      have present : tree.Exists (path ++ rest) := by
        simp only [Exists, get?, lookup]
        split
        · simp
        · rw [ne_eq, List.lookup_eq_none_iff]
          intro absent
          have self := absent entry entryMem
          simp [same] at self
      cases rest with
      | nil => simp at same; exact absurd same.symm different
      | cons name deeper =>
          refine ⟨name, ?_⟩
          by_cases last : deeper = []
          · simpa [last] using present
          · have split : path ++ name :: deeper = (path ++ [name]) ++ deeper := by simp
            rw [split] at present
            simp [Exists, get?_of_below last present]
    · rintro ⟨name, present⟩
      simp only [Exists, get?, lookup, List.append_eq_nil_iff, List.cons_ne_self,
        and_false, if_false] at present
      rw [ne_eq, List.lookup_eq_none_iff] at present
      simp only [not_forall] at present
      rcases present with ⟨entry, entryMem, same⟩
      have key : path ++ [name] = entry.1 := by simpa using same
      refine ⟨entry, entryMem, ?_, ?_⟩
      · rw [← key]
        exact List.prefix_append _ _
      · rw [← key]
        simp

theorem occupied_of_file (file : tree.isFile path = true) : tree.occupied path = true :=
  occupied_iff.mpr (Or.inl file)

theorem occupied_of_child {name : κ} (child : tree.Exists (path ++ [name])) :
    tree.occupied path = true :=
  occupied_iff.mpr (Or.inr ⟨name, child⟩)

theorem occupied_iff_of_alone {name : κ} (notFile : tree.isFile path = false)
    (alone : ∀ other, other ≠ name → ¬tree.Exists (path ++ [other])) :
    tree.occupied path = true ↔ tree.Exists (path ++ [name]) := by
  constructor
  · intro taken
    rcases occupied_iff.mp taken with file | ⟨other, present⟩
    · rw [notFile] at file
      cases file
    · by_cases same : other = name
      · rwa [same] at present
      · exact absurd present (alone other same)
  · exact occupied_of_child

theorem occupied_of_file_below {rest : List κ} (file : tree.isFile (path ++ rest) = true) :
    tree.occupied path = true := by
  cases rest with
  | nil =>
      rw [List.append_nil] at file
      exact occupied_of_file file
  | cons name deeper =>
      have split : path ++ name :: deeper = (path ++ [name]) ++ deeper := by simp
      have present := exists_of_isFile file
      rw [split] at present
      by_cases last : deeper = []
      · exact occupied_of_child (by simpa [last] using present)
      · exact occupied_of_child (exists_of_get? (get?_of_below last present))

/-- Whether a path is taken is a matter of what is at it and below it. -/
theorem occupied_congr {first second : Tree κ β} {path path' : List κ}
    (same : ∀ rest, first.get? (path ++ rest) = second.get? (path' ++ rest)) :
    first.occupied path = second.occupied path' := by
  have self := same []
  rw [List.append_nil, List.append_nil] at self
  rw [Bool.eq_iff_iff, occupied_iff, occupied_iff]
  simp only [isFile, self, Exists, same]

/-- The tree below `source`. -/
def subtree (tree : Tree κ β) (source : List κ) : Tree κ β where
  entries := below tree.entries source
  closed := by
    intro parent name child
    by_cases isRoot : parent = []
    · simp [isRoot]
    simp only [lookup, isRoot, List.append_eq_nil_iff, and_false, if_false,
      list_lookup_below, reduceCtorEq] at child ⊢
    have found := tree.closed (source ++ parent) name (by simpa [lookup] using child)
    simpa [lookup, isRoot] using found

theorem get?_subtree {source : List κ} (isDir : tree.get? source = some .dir)
    (target : List κ) : (tree.subtree source).get? target = tree.get? (source ++ target) := by
  by_cases isRoot : target = []
  · simp [isRoot, isDir]
  · simp [get?, lookup, subtree, isRoot, list_lookup_below]

/-- `rename`: a directory may replace a missing or an empty directory, a file a missing path
or a file; the parent of the target must exist and nothing moves into itself. -/
def rename (tree : Tree κ β) (source target : List κ) : Option (Tree κ β) :=
  if source = [] ∨ target = [] ∨ source <+: target ∨ ¬tree.isDir target.dropLast = true then
    none
  else
    match tree.get? source with
    | none => none
    | some (.file content) => (tree.remove source).writeFile target content
    | some .dir =>
        if tree.occupied target = true then none
        else some ((tree.remove source).graft target (tree.subtree source))

/-- What a successful rename needs: a source, a directory to put it in, and room. -/
theorem rename_spec {source target : List κ} {tree' : Tree κ β}
    (renamed : tree.rename source target = some tree') :
    source ≠ [] ∧ target ≠ [] ∧ ¬source <+: target ∧ tree.get? target.dropLast = some .dir ∧
      tree.Exists source := by
  unfold rename at renamed
  split at renamed
  · cases renamed
  · rename_i allowed
    simp only [not_or, not_not] at allowed
    obtain ⟨sourceNotRoot, targetNotRoot, notInside, parentDir⟩ := allowed
    refine ⟨sourceNotRoot, targetNotRoot, notInside, isDir_iff.mp parentDir, ?_⟩
    intro absent
    simp [absent] at renamed

/-- A directory is never renamed onto something occupied. -/
theorem not_occupied_of_rename {source target : List κ} {tree' : Tree κ β}
    (renamed : tree.rename source target = some tree') (isDir : tree.get? source = some .dir) :
    tree.occupied target = false := by
  unfold rename at renamed
  split at renamed
  · cases renamed
  · rw [isDir] at renamed
    by_cases taken : tree.occupied target = true
    · simp [taken] at renamed
    · simpa using taken

theorem get?_rename {source target : List κ} {tree' : Tree κ β}
    (renamed : tree.rename source target = some tree') (path : List κ) :
    tree'.get? path =
      if target <+: path then tree.get? (source ++ path.drop target.length)
      else if source <+: path then none else tree.get? path := by
  obtain ⟨sourceNotRoot, targetNotRoot, notInside, parentDir, _⟩ := rename_spec renamed
  have removed (path : List κ) : (tree.remove source).get? path =
      if source <+: path then none else tree.get? path := get?_remove sourceNotRoot path
  unfold rename at renamed
  split at renamed
  · cases renamed
  split at renamed
  · cases renamed
  · rename_i content found
    rw [get?_writeFile renamed, removed]
    by_cases same : path = target
    · subst same
      simp [found]
    rw [if_neg same]
    by_cases inside : target <+: path
    · rcases inside with ⟨rest, rfl⟩
      have self : rest ≠ [] := by
        rintro rfl
        simp at same
      have notDir : ¬(tree.remove source).get? target = some .dir := by
        intro dir
        unfold writeFile at renamed
        simp [isDir_iff.mpr dir] at renamed
      have nothingThere : (tree.remove source).get? (target ++ rest) = none := by
        by_contra present
        exact notDir (get?_of_below self present)
      have nothingBelow : tree.get? (source ++ rest) = none := by
        by_contra present
        rw [get?_of_below self present] at found
        cases found
      rw [removed] at nothingThere
      simp [nothingBelow, nothingThere]
    · simp [inside]
  · rename_i found
    split at renamed
    · cases renamed
    cases renamed
    rw [get?_graft targetNotRoot, removed]
    by_cases inside : target <+: path
    · simp [inside, get?_subtree found]
    rw [if_neg inside, if_neg inside]
    by_cases above : path <+: target
    · have notSource : ¬source <+: path := fun below => notInside (below.trans above)
      rw [if_pos above, if_neg notSource]
      rcases List.prefix_concat_iff.mp
        (show path <+: target.dropLast ++ [target.getLast targetNotRoot] by
          rwa [List.dropLast_concat_getLast]) with whole | short
      · rw [List.dropLast_concat_getLast] at whole
        subst whole
        exact absurd (List.prefix_refl _) inside
      · rcases short with ⟨rest, split⟩
        by_cases last : rest = []
        · subst last
          rw [List.append_nil] at split
          rw [split, parentDir]
        · rw [← split] at parentDir
          rw [get?_of_below last (by simp [Exists, parentDir])]
    · rw [if_neg above]

/-- A rename takes nothing away but its source. -/
theorem exists_of_rename {source target : List κ} {tree' : Tree κ β}
    (renamed : tree.rename source target = some tree') (present : tree.Exists path)
    (outside : ¬source <+: path) : tree'.Exists path := by
  obtain ⟨_, _, notInside, _, sourceThere⟩ := rename_spec renamed
  rw [Exists, get?_rename renamed, if_neg outside]
  split
  · rename_i inside
    rcases inside with ⟨rest, rfl⟩
    rw [List.drop_left]
    cases rest with
    | nil =>
        rw [List.append_nil]
        exact sourceThere
    | cons name deeper =>
        exfalso
        have targetDir : tree.get? target = some .dir := get?_of_below (by simp) present
        cases found : tree.get? source with
        | none => exact sourceThere found
        | some node =>
            cases node with
            | dir =>
                have child : tree.Exists (target ++ [name]) := by
                  rw [show target ++ name :: deeper = (target ++ [name]) ++ deeper by simp]
                    at present
                  by_cases last : deeper = []
                  · simpa [last] using present
                  · simp [Exists, get?_of_below last present]
                have taken := not_occupied_of_rename renamed found
                rw [occupied_of_child child] at taken
                cases taken
            | file content =>
                have notRoot : source ≠ [] := (rename_spec renamed).1
                have targetStays : (tree.remove source).isDir target = true := by
                  rw [isDir_iff, get?_remove notRoot, if_neg notInside, targetDir]
                simp only [rename, found, writeFile, targetStays, not_true, and_false,
                  dite_false] at renamed
                split at renamed
                · cases renamed
                · cases renamed
  · exact present

/-- Where nothing has been moved to, there are the files that were there before. -/
theorem isFile_of_rename {source target : List κ} {tree' : Tree κ β}
    (renamed : tree.rename source target = some tree') (outside : ¬target <+: path)
    (isFile : tree'.isFile path = true) : ¬source <+: path ∧ tree.isFile path = true := by
  rcases isFile_iff.mp isFile with ⟨content, found⟩
  rw [get?_rename renamed, if_neg outside] at found
  split at found
  · cases found
  · rename_i unmoved
    exact ⟨unmoved, isFile_iff.mpr ⟨content, found⟩⟩

/-- The rename of a directory leaves the files outside of it alone. -/
theorem get?_rename_of_file {source target : List κ} {tree' : Tree κ β}
    (renamed : tree.rename source target = some tree') (isDir : tree.get? source = some .dir)
    (file : tree.isFile path = true) (outside : ¬source <+: path) :
    tree'.get? path = tree.get? path := by
  rw [get?_rename renamed, if_neg, if_neg outside]
  rintro ⟨rest, rfl⟩
  have free := not_occupied_of_rename renamed isDir
  rw [occupied_of_file_below file] at free
  cases free

/-- A directory can be renamed onto a path that has room for it. -/
theorem rename_isSome {source target : List κ} (isDir : tree.get? source = some .dir)
    (sourceNotRoot : source ≠ []) (targetNotRoot : target ≠ [])
    (notInside : ¬source <+: target) (parentDir : tree.get? target.dropLast = some .dir)
    (free : tree.occupied target = false) :
    ∃ tree', tree.rename source target = some tree' := by
  unfold rename
  rw [if_neg]
  · simp [isDir, free]
  · simp [sourceNotRoot, targetNotRoot, notInside, isDir_iff.mpr parentDir]

theorem get?_rename_sibling {parent : List κ} {source target : κ} {tree' : Tree κ β}
    (renamed : tree.rename (parent ++ [source]) (parent ++ [target]) = some tree')
    (other : κ) (rest : List κ) :
    tree'.get? (parent ++ other :: rest) =
      if target = other then tree.get? (parent ++ source :: rest)
      else if source = other then none else tree.get? (parent ++ other :: rest) := by
  rw [get?_rename renamed]
  simp only [concat_prefix_concat_iff]
  split
  · rename_i same
    subst same
    simp
  · rfl

theorem get?_rename_above {parent ancestor : List κ} {source target : κ} {tree' : Tree κ β}
    (renamed : tree.rename (parent ++ [source]) (parent ++ [target]) = some tree')
    (above : ancestor <+: parent) : tree'.get? ancestor = tree.get? ancestor := by
  rw [get?_rename renamed, if_neg (not_below_of_above above),
    if_neg (not_below_of_above above)]

end Tree

end FileTree
