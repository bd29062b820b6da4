import GitCacheProxy.Foundation.FileTree
import GitCacheProxy.Foundation.Worklist

/-!
# Walking a directory tree

A walk that starts in a directory and pushes the directories in it, except that
it does not go below a directory that satisfies `stop` and never enters one
whose name does not satisfy `keep`.  Which directories it gets to does not
depend on the order in which they are listed (`reaches_descend_iff`), it always
comes to an end (`exists_visit_descend`), and the unrestricted walk sees each
file below its start exactly once (`toFinset_filesSeen`, `nodup_filesSeen`).
-/

namespace FileTree.Tree

universe u v

variable {κ : Type u} {β : Type v} {dir target : List κ}

/-- A loop over a listing that pushes some of it. -/
theorem foldl_push (names : List κ) (chosen : κ → Bool) (stack : List (List κ)) :
    names.foldl (fun stack name => if chosen name then (dir ++ [name]) :: stack else stack) stack =
      ((names.filter chosen).reverse.map fun name => dir ++ [name]) ++ stack := by
  induction names generalizing stack with
  | nil => rfl
  | cons name rest ih =>
      rw [List.foldl_cons, ih]
      by_cases taken : chosen name = true
      · simp [taken]
      · simp [taken]

variable [DecidableEq κ]

/-- The directories in `dir` that are pushed, the one pushed last in front. -/
def pushed (tree : Tree κ β) (keep : κ → Bool) (dir : List κ) : List (List κ) :=
  ((tree.list dir).filter fun name => tree.isDir (dir ++ [name]) && keep name).reverse.map
    fun name => dir ++ [name]

/-- What a round of the walk pushes. -/
def descend (tree : Tree κ β) (stop : List κ → Bool) (keep : κ → Bool) (dir : List κ) :
    List (List κ) :=
  if stop dir then [] else tree.pushed keep dir

/-- The regular files directly in `dir`. -/
def filesIn (tree : Tree κ β) (dir : List κ) : List (List κ) :=
  ((tree.list dir).filter fun name => tree.isFile (dir ++ [name])).map fun name => dir ++ [name]

variable {tree : Tree κ β} {stop : List κ → Bool} {keep : κ → Bool}

theorem mem_pushed {next : List κ} : next ∈ tree.pushed keep dir ↔
    ∃ name, next = dir ++ [name] ∧ tree.isDir next = true ∧ keep name = true := by
  simp only [pushed, List.mem_map, List.mem_reverse, List.mem_filter, mem_list, Bool.and_eq_true]
  constructor
  · rintro ⟨name, ⟨_, isDir, kept⟩, rfl⟩
    exact ⟨name, rfl, isDir, kept⟩
  · rintro ⟨name, rfl, isDir, kept⟩
    exact ⟨name, ⟨exists_of_isDir isDir, isDir, kept⟩, rfl⟩

theorem mem_descend {next : List κ} : next ∈ tree.descend stop keep dir ↔
    stop dir = false ∧ ∃ name, next = dir ++ [name] ∧ tree.isDir next = true ∧ keep name = true := by
  unfold descend
  split
  · rename_i stopped
    simp [stopped]
  · rename_i goesOn
    simp [goesOn, mem_pushed]

theorem descends_descend : Worklist.Descends (tree.descend stop keep) where
  nodup := by
    intro dir
    unfold descend
    split
    · exact List.nodup_nil
    · apply List.Nodup.map
      · intro first second same
        simpa using same
      · exact List.nodup_reverse.mpr ((nodup_list tree dir).filter _)
  child := by
    intro dir next pushed
    rcases (mem_descend.mp pushed).2 with ⟨name, isChild, _⟩
    exact ⟨name, isChild⟩

theorem isDir_of_below {path : List κ} {rest : List κ} (dirBelow : tree.isDir (path ++ rest) = true) :
    tree.isDir path = true := by
  by_cases self : rest = []
  · simpa [self] using dirBelow
  · rw [isDir_iff]
    exact get?_of_below self (exists_of_isDir dirBelow)

/-- Where the walk gets to: to the directories on whose way nothing stops it. -/
theorem reaches_descend_iff : Worklist.Reaches (tree.descend stop keep) dir target ↔
    ∃ rest, target = dir ++ rest ∧ (rest = [] ∨ tree.isDir target = true) ∧
      (∀ name ∈ rest, keep name = true) ∧
      ∀ before, before <+: rest → before ≠ rest → stop (dir ++ before) = false := by
  constructor
  · intro reaches
    induction reaches with
    | here path => exact ⟨[], by simp⟩
    | @deeper path next target pushed later ih =>
        rcases mem_descend.mp pushed with ⟨goesOn, name, rfl, isDir, kept⟩
        rcases ih with ⟨rest, rfl, found, keptRest, through⟩
        refine ⟨name :: rest, by simp, Or.inr ?_, ?_, ?_⟩
        · rcases found with rfl | found
          · simpa using isDir
          · exact found
        · exact List.forall_mem_cons.mpr ⟨kept, keptRest⟩
        · intro before above proper
          cases before with
          | nil => simpa using goesOn
          | cons first more =>
              rcases List.cons_prefix_cons.mp above with ⟨rfl, aboveRest⟩
              have passed := through more aboveRest fun same => proper (by rw [same])
              simpa using passed
  · rintro ⟨rest, rfl, found, kept, through⟩
    induction rest generalizing dir with
    | nil =>
        rw [List.append_nil]
        exact .here dir
    | cons name rest ih =>
        have split : dir ++ name :: rest = (dir ++ [name]) ++ rest := by simp
        rw [split] at found ⊢
        have isDir : tree.isDir (dir ++ [name] ++ rest) = true := by simpa using found
        apply Worklist.Reaches.deeper
        · rw [mem_descend]
          refine ⟨?_, name, rfl, isDir_of_below isDir, kept name List.mem_cons_self⟩
          have passed := through [] List.nil_prefix (by simp)
          rwa [List.append_nil] at passed
        · apply ih (Or.inr isDir) fun other otherMem => kept other (List.mem_cons_of_mem _ otherMem)
          intro before above proper
          have passed := through (name :: before) (List.cons_prefix_cons.mpr ⟨rfl, above⟩)
            fun same => proper (List.cons.inj same).2
          simpa using passed

theorem exists_visit_descend (tree : Tree κ β) (stop : List κ → Bool) (keep : κ → Bool)
    (dir : List κ) : ∃ visited,
      Worklist.visit (tree.descend stop keep) (tree.entries.length + 1) [dir] = some visited := by
  apply Worklist.exists_visit descends_descend (List.pairwise_singleton _ _)
    (insert dir (tree.entries.map Prod.fst).toFinset)
  · intro start startMem target reaches
    rw [List.mem_singleton.mp startMem] at reaches
    rcases reaches_descend_iff.mp reaches with ⟨rest, rfl, found, _⟩
    rw [Finset.mem_insert, List.mem_toFinset]
    rcases found with rfl | found
    · simp
    · by_cases root : dir ++ rest = []
      · exact Or.inl (by simp_all)
      · exact Or.inr (mem_entries_of_exists (exists_of_isDir found) root)
  · have few := List.toFinset_card_le (tree.entries.map Prod.fst)
    have more := Finset.card_insert_le dir (tree.entries.map Prod.fst).toFinset
    rw [List.length_map] at few
    omega

/-! ## The files seen -/

theorem mem_filesIn {file : List κ} : file ∈ tree.filesIn dir ↔
    ∃ name, file = dir ++ [name] ∧ tree.isFile file = true := by
  simp only [filesIn, List.mem_map, List.mem_filter, mem_list]
  constructor
  · rintro ⟨name, ⟨_, isFile⟩, rfl⟩
    exact ⟨name, rfl, isFile⟩
  · rintro ⟨name, rfl, isFile⟩
    exact ⟨name, ⟨exists_of_isFile isFile, isFile⟩, rfl⟩

theorem nodup_filesIn (tree : Tree κ β) (dir : List κ) : (tree.filesIn dir).Nodup := by
  apply List.Nodup.map
  · intro first second same
    simpa using same
  · exact (nodup_list tree dir).filter _

section FilesSeen

variable {fuel : ℕ} {visited : List (List κ)}

theorem nodup_filesSeen
    (walked : Worklist.visit (tree.descend stop keep) fuel [dir] = some visited) :
    (visited.flatMap tree.filesIn).Nodup := by
  rw [List.nodup_flatMap]
  constructor
  · exact fun parent _ => nodup_filesIn tree parent
  · apply (Worklist.nodup_visit descends_descend (List.pairwise_singleton _ _) walked).imp
    intro first second different file inFirst inSecond
    rcases mem_filesIn.mp inFirst with ⟨name, rfl, _⟩
    rcases mem_filesIn.mp inSecond with ⟨other, same, _⟩
    exact different (List.append_inj' same rfl).1

/-- A walk that nothing stops sees the files below its start. -/
theorem toFinset_filesSeen (notFile : tree.isFile dir = false)
    (walked : Worklist.visit (tree.descend (fun _ => false) fun _ => true) fuel [dir] =
      some visited) :
    (visited.flatMap tree.filesIn).toFinset = tree.filesBelow dir := by
  ext file
  simp only [List.mem_toFinset, List.mem_flatMap, mem_filesBelow, mem_filesIn,
    Worklist.mem_visit_iff walked, List.mem_singleton, exists_eq_left, reaches_descend_iff]
  constructor
  · rintro ⟨parent, ⟨rest, rfl, _⟩, name, rfl, isFile⟩
    exact ⟨⟨rest ++ [name], by simp⟩, isFile⟩
  · rintro ⟨⟨rest, rfl⟩, isFile⟩
    cases rest using List.reverseRecOn with
    | nil =>
        rw [List.append_nil, notFile] at isFile
        cases isFile
    | append_singleton init name =>
        rw [← List.append_assoc] at isFile ⊢
        have parentDir : tree.isDir (dir ++ init) = true :=
          isDir_iff.mpr (get?_of_child (exists_of_isFile isFile))
        exact ⟨dir ++ init, ⟨init, rfl, Or.inr parentDir, by simp⟩, name, rfl, isFile⟩

end FilesSeen

end FileTree.Tree
