import GitCacheProxy.Index.Scan
import GitCacheProxy.System.Basic

/-!
# Crashes and restarts

A process can die at any time.  The next one scans the disk for mirrors and
objects, removes what is left of downloads in flight, and starts with nothing
in flight itself.  Staging and trash directories are skipped by the scan and
stay where they are.

In every run, whatever is on disk is part of a mirror or an object, or lies in
one of these places (`Kept`), so the index of the next process covers the disk
exactly if the crash left nothing in the places that are not cleared.
-/

namespace GitCacheProxy.System

open Repo FileTree TransitionSystem

universe u

variable {Task : Type u}

/-- The file that a readiness probe creates and removes. -/
def probePath (root : Path) : Path := root ++ [".readyz-probe".toList]

/-- What a child of `git` is relied on to do: a finished clone has a regular `HEAD`, every mirror
keeps its own, and outside of a repository nothing happens. -/
structure GitBehaves (allowed : RepoRef → Prop) (disk after : Disk) (stage stage' : Git.Stage) :
    Prop where
  cloned : ∀ call read, stage = .cloned call read → stage' = .changed call false →
    Index.isMirrorRoot disk (Git.stagingDir call.repo.cacheDir) = true
  keeps : ∀ call, stage.inMirror = some call → ∀ repo, allowed repo →
    Index.isMirrorRoot disk repo.cacheDir = true → Index.isMirrorRoot after repo.cacheDir = true
  elsewhere : ∀ call, stage.inMirror = some call →
    Index.isMirrorRoot disk call.repo.cacheDir = false → after = disk

/-- An action of `ensure_fresh` or `evict`, or something that touches nothing beside the store. -/
inductive Acts [DecidableEq Task] (server : Server) (state : State Task) : State Task → Prop where
  | git (task : Option Task) (effect : Git.Effect) (shared : Git.Shared (Option Task))
      (stage : Git.Stage)
      (taken : Git.Act server.fetchTtl server.allowed task state.git (state.tasks task) effect
        shared stage)
      (behaves : GitBehaves server.allowed state.git.disk shared.disk (state.tasks task) stage) :
      Acts server state
        { state with git := shared, tasks := Function.update state.tasks task stage }
  | other (state' : State Task)
      (beside : ∀ path, BesideStore server.root path →
        state'.git.disk.get? path = state.git.disk.get? path) :
      Acts server state state'

namespace State

variable (state : State Task)

def withDisk (disk : Disk) : State Task := { state with git.disk := disk }

/-- The next process: `index` is what it scanned, and `failure` what is left if its removal of the
downloads in flight fails. -/
def restarted (root : Path) (index : Index.CacheIndex) (clock pid : ℕ) (failure : Option Disk) :
    State Task where
  git := { state.git with
    clock := clock
    disk := Git.GitCache.discard state.git.disk (Lfs.incomingPath root) failure
    index := index
    owner := fun _ => none
    last := fun _ => none }
  slots := fun _ => none
  counter := 0
  pid := pid
  tasks := fun _ => .idle
  downloads := fun _ => .idle
  pc := .start

end State

/-- The life of a server: its own steps, the calls of readiness probes, and restarts. -/
inductive Life [DecidableEq Task] (server : Server) (state : State Task) : State Task → Prop where
  | live (event : Event) (state' : State Task) (taken : Step server state event state')
      (acts : Acts server state state') : Life server state state'
  | probeRoot (disk : Disk) (made : state.git.disk.createDirAll server.root = some disk) :
      Life server state (state.withDisk disk)
  | probeWrite (disk : Disk)
      (written : state.git.disk.writeFile (probePath server.root) [] = some disk) :
      Life server state (state.withDisk disk)
  | probeUnlink (disk : Disk)
      (removed : state.git.disk.removeFile (probePath server.root) = some disk) :
      Life server state (state.withDisk disk)
  | restart (mtimeOf : Path → ℕ) (maxBytes : UInt64) (index : Index.CacheIndex) (clock pid : ℕ)
      (failure : Option Disk)
      (scanned : Index.startupIndex state.git.disk mtimeOf server.root maxBytes = some index) :
      Life server state (state.restarted server.root index clock pid failure)

/-- The first process finds no files below the cache root. -/
structure Begins (server : Server) (state : State Task) : Prop where
  starts : Starts server state
  empty : ∀ first rest, state.git.disk.isFile (server.root ++ first :: rest) = false

/-- If the process dies now, every file that its successor's startup leaves on disk is part of an
entry of the new index. -/
def Recovered (server : Server) (state : State Task) : Prop :=
  ∀ mtimeOf maxBytes, ∃ index,
    Index.startupIndex state.git.disk mtimeOf server.root maxBytes = some index ∧
      ∀ first rest,
        (Git.GitCache.discard state.git.disk (Lfs.incomingPath server.root) none).isFile
            (server.root ++ first :: rest) = true →
          ∃ key, index.Tracks key ∧ join server.root key <+: server.root ++ first :: rest

/-- No staging or trash directory holds a file, unless it lies in a mirror itself, and no probe has
left its file behind. -/
structure Spotless (server : Server) (disk : Disk) : Prop where
  reserved : ∀ repo, server.allowed repo → ∀ file,
    Git.stagingDir repo.cacheDir <+: file ∨ Git.trashDir repo.cacheDir <+: file →
      disk.isFile file = true → ∃ outer, server.allowed outer ∧
        Index.isMirrorRoot disk outer.cacheDir = true ∧ outer.cacheDir <+: file
  probe : disk.isFile (probePath server.root) = false

/-- What a file beside the store belongs to. -/
inductive Placed (server : Server) (disk : Disk) (file : Path) : Prop where
  | mirror (repo : RepoRef) (allowed : server.allowed repo)
      (marked : Index.isMirrorRoot disk repo.cacheDir = true) (inside : repo.cacheDir <+: file)
  | staging (repo : RepoRef) (allowed : server.allowed repo)
      (inside : Git.stagingDir repo.cacheDir <+: file)
  | trash (repo : RepoRef) (allowed : server.allowed repo)
      (inside : Git.trashDir repo.cacheDir <+: file)
  | probe (isProbe : file = probePath server.root)

/-- What a file in the store is. -/
inductive Stored (root file : Path) : Prop where
  | object (oid : Text) (valid : validLfsOid oid = true) (isObject : file = lfsObjectPath root oid)
  | incoming (name : Text) (rest : Path) (inside : file = Lfs.incomingPath root ++ name :: rest)

/-- What holds from process to process. -/
structure Kept (server : Server) (state : State Task) : Prop where
  inv : Inv server state
  requests : ∀ task, (state.tasks (some task)).evicts = false
  head : ∀ name dir, state.tasks none = .clearing name dir ∨ state.tasks none = .vacating name dir →
    Git.hasHead state.git.disk dir = true
  placed : ∀ file, BesideStore server.root file → state.git.disk.isFile file = true →
    Placed server state.git.disk file
  stored : ∀ rest, state.git.disk.isFile (server.root ++ lfsObjectsDir :: rest) = true →
    Stored server.root (server.root ++ lfsObjectsDir :: rest)

variable {server : Server} {state state' : State Task} {event : Event}

/-- Nothing but the behaviour of git is left out. -/
theorem acts_of_step [DecidableEq Task] (inv : Inv server state)
    (taken : Step server state event state')
    (behaves : ∀ task effect shared stage, Git.Act server.fetchTtl server.allowed task state.git
      (state.tasks task) effect shared stage →
        GitBehaves server.allowed state.git.disk shared.disk (state.tasks task) stage) :
    Acts server state state' := by
  cases taken with
  | request task effect shared stage request act =>
      exact .git (some task) effect shared stage act (behaves _ _ _ _ act)
  | evict effect shared stage evicting act =>
      exact .git none effect shared stage act (behaves _ _ _ _ act)
  | download task shared stage act =>
      exact .other _ fun _ beside => inv.lfs.get?_beside act beside
  | unlink name victims disk free next blob removed =>
      apply Acts.other
      intro path beside
      rw [Tree.get?_removeFile removed, if_neg (beside.ne_join blob)]
  | _ => exact .other _ fun _ _ => rfl

/-! ## Files under the actions of git -/

section Git

theorem isFile_discard {disk : Disk} {place path : Path} (outside : ¬place <+: path)
    (failure : Option Disk) :
    (Git.GitCache.discard disk place failure).isFile path = disk.isFile path := by
  unfold Git.GitCache.discard Git.cleanStaging
  split
  · rfl
  · rfl
  · rename_i isDir
    have notRoot : place ≠ [] := by
      rintro rfl
      exact outside List.nil_prefix
    cases failure with
    | none => rw [Tree.isFile, Tree.isFile, Tree.get?_remove notRoot, if_neg outside]
    | some left =>
        by_cases onTheWay : path <+: place
        · rcases onTheWay with ⟨rest, rfl⟩
          have proper : rest ≠ [] := by
            rintro rfl
            exact outside (by rw [List.append_nil])
          have wasDir := Tree.get?_of_below proper (Tree.exists_of_get? isDir)
          rw [Tree.isFile, Tree.isFile, Tree.get?_graft notRoot, if_neg outside,
            if_pos (List.prefix_append _ _), wasDir]
        · rw [Tree.isFile, Tree.isFile, Tree.get?_graft notRoot, if_neg outside,
            if_neg onTheWay]

theorem isFile_discard_self {disk : Disk} {place : Path} (notRoot : place ≠ [])
    (failure : Option Disk) :
    (Git.GitCache.discard disk place failure).isFile place = disk.isFile place := by
  unfold Git.GitCache.discard Git.cleanStaging
  split
  · rfl
  · rfl
  · rename_i isDir
    cases failure with
    | none => simp [Tree.isFile, Tree.get?_remove notRoot, isDir]
    | some left => simp [Tree.isFile, Tree.get?_graft notRoot, isDir]

theorem isFile_discard_below {disk : Disk} {place rest : Path} (notRoot : place ≠ [])
    (notSelf : rest ≠ []) :
    (Git.GitCache.discard disk place none).isFile (place ++ rest) = false := by
  have nothing (notDir : disk.get? place ≠ some .dir) : disk.isFile (place ++ rest) = false := by
    rw [Bool.eq_false_iff]
    exact fun isFile => notDir (Tree.get?_of_below notSelf (Tree.exists_of_isFile isFile))
  unfold Git.GitCache.discard Git.cleanStaging
  split
  · rename_i absent
    exact nothing (by simp [absent])
  · rename_i found
    exact nothing (by simp [found])
  · simp [Tree.isFile, Tree.get?_remove notRoot]

theorem isFile_discard_incoming {root file : Path} (beside : BesideStore root file) (disk : Disk)
    (failure : Option Disk) :
    (Git.GitCache.discard disk (Lfs.incomingPath root) failure).isFile file = disk.isFile file :=
  isFile_discard beside.not_store_above failure

/-- What a clone does in its staging directory, once the directory above is there. -/
theorem isFile_replace {disk : Disk} {cacheDir path : Path} {left : Option Disk}
    (outside : ¬Git.stagingDir cacheDir <+: path)
    (way : disk.createDirAll cacheDir.dropLast ≠ none) :
    (disk.replace (Git.stagingDir cacheDir) left).isFile path = disk.isFile path := by
  have notRoot : Git.stagingDir cacheDir ≠ [] := Git.Act.pushSuffix_ne_nil _ _
  have noFile := Tree.createDirAll_eq_some_iff.mp (Option.ne_none_iff_exists'.mp way)
  by_cases onTheWay : path <+: Git.stagingDir cacheDir
  · rcases List.prefix_concat_iff.mp onTheWay with same | above
    · exact absurd (by rw [same]; exact List.prefix_refl _) outside
    · rw [Git.stagingDir, pushSuffix, Tree.isFile_replace_above above, noFile path above]
      split
      · rfl
      · rfl
  · rw [Tree.isFile, Tree.isFile, Tree.get?_replace_of_apart notRoot outside onTheWay]

variable {task : Option Task} {shared shared' : Git.Shared (Option Task)}
  {stage stage' : Git.Stage} {effect : Git.Effect}

/-- Only an eviction takes the `HEAD` of a mirror away. -/
theorem marked_act (taken : Git.Act server.fetchTtl server.allowed task shared stage effect shared'
      stage')
    (known : stage.Within server.allowed)
    (behaves : GitBehaves server.allowed shared.disk shared'.disk stage stage')
    (stays : ∀ name dir, effect ≠ .vacated name dir) {repo : RepoRef}
    (allowed : server.allowed repo) (marked : Index.isMirrorRoot shared.disk repo.cacheDir = true) :
    Index.isMirrorRoot shared'.disk repo.cacheDir = true := by
  have stagingOutside {other : RepoRef} (allowedOther : server.allowed other) :
      ¬Git.stagingDir other.cacheDir <+: repo.cacheDir ++ [Git.headFile] :=
    Git.not_staging_above_head (server.resolved repo allowed) (server.resolved other allowedOther)
  have trashOutside {other : RepoRef} (allowedOther : server.allowed other) :
      ¬Git.trashDir other.cacheDir <+: repo.cacheDir ++ [Git.headFile] :=
    Git.not_trash_above_head (server.resolved repo allowed) (server.resolved other allowedOther)
  cases taken with
  | made call disk created => exact (Tree.isFile_createDirAll created _).trans marked
  | partlyMade call done disk created => exact (Tree.isFile_createDirAll created _).trans marked
  | cloneWrites call read left way => exact (isFile_replace (stagingOutside known) way).trans marked
  | install call read disk filled renamed =>
      have isDir := Tree.get?_of_child (Git.Act.hasHead_iff.mp filled)
      have same := Tree.get?_rename_of_file renamed isDir marked (stagingOutside known)
      exact (Tree.isFile_congr same).trans marked
  | fetchWrites call read disk writes => exact behaves.keeps call rfl repo allowed marked
  | wantWrites call disk writes => exact behaves.keeps call rfl repo allowed marked
  | pruneWrites call disk writes => exact behaves.keeps call rfl repo allowed marked
  | clear name dir failure =>
      rcases known with ⟨other, allowedOther, _, rfl⟩
      exact (isFile_discard (trashOutside allowedOther) failure).trans marked
  | vacate name dir disk renamed => exact absurd rfl (stays name dir)
  | sweep dir failure =>
      rcases known with ⟨other, allowedOther, rfl⟩
      exact (isFile_discard (trashOutside allowedOther) failure).trans marked
  | _ => exact marked

theorem Placed.mono {disk after : Disk} {file : Path} (placed : Placed server disk file)
    (marks : ∀ repo, server.allowed repo → Index.isMirrorRoot disk repo.cacheDir = true →
      repo.cacheDir <+: file → Index.isMirrorRoot after repo.cacheDir = true) :
    Placed server after file := by
  cases placed with
  | mirror repo allowed marked inside =>
      exact .mirror repo allowed (marks repo allowed marked inside) inside
  | staging repo allowed inside => exact .staging repo allowed inside
  | trash repo allowed inside => exact .trash repo allowed inside
  | probe isProbe => exact .probe isProbe

/-- An eviction leaves the mirrors in place that a file outside of its own can belong to. -/
theorem marked_vacate {repo victim : RepoRef} {disk after : Disk} {file : Path}
    (head : Git.hasHead disk victim.cacheDir = true)
    (renamed : disk.rename victim.cacheDir (Git.trashDir victim.cacheDir) = some after)
    (marked : Index.isMirrorRoot disk repo.cacheDir = true) (inside : repo.cacheDir <+: file)
    (outside : ¬victim.cacheDir <+: file) :
    Index.isMirrorRoot after repo.cacheDir = true := by
  have isDir := Tree.get?_of_child (Git.Act.hasHead_iff.mp head)
  have notMoved : ¬victim.cacheDir <+: repo.cacheDir ++ [Git.headFile] := by
    intro above
    rcases List.prefix_concat_iff.mp above with same | inRepo
    · rw [Index.isMirrorRoot, ← same, Tree.isFile, isDir] at marked
      cases marked
    · exact outside (inRepo.trans inside)
  have same := Tree.get?_rename_of_file renamed isDir marked notMoved
  exact (Tree.isFile_congr same).trans marked

theorem placed_act (taken : Git.Act server.fetchTtl server.allowed task shared stage effect shared'
      stage')
    (known : stage.Within server.allowed)
    (behaves : GitBehaves server.allowed shared.disk shared'.disk stage stage')
    (head : ∀ name dir, stage = .vacating name dir → Git.hasHead shared.disk dir = true)
    {file : Path}
    (placed : shared.disk.isFile file = true → Placed server shared.disk file)
    (isFile : shared'.disk.isFile file = true) : Placed server shared'.disk file := by
  have before (stays : ∀ name dir, effect ≠ .vacated name dir)
      (wasFile : shared.disk.isFile file = true) : Placed server shared'.disk file :=
    (placed wasFile).mono fun repo allowed marked _ =>
      marked_act taken known behaves stays allowed marked
  have written {call : Git.Call} (inMirror : stage.inMirror = some call)
      (allowed : server.allowed call.repo) (stays : ∀ name dir, effect ≠ .vacated name dir)
      (writes : Git.GitWrites server.allowed call.repo.cacheDir shared.disk shared'.disk) :
      Placed server shared'.disk file := by
    by_cases inside : call.repo.cacheDir <+: file
    · cases marked : Index.isMirrorRoot shared.disk call.repo.cacheDir with
      | true =>
          exact .mirror call.repo allowed
            (behaves.keeps call inMirror call.repo allowed marked) inside
      | false =>
          apply before stays
          rwa [behaves.elsewhere call inMirror marked] at isFile
    · apply before stays
      rwa [Tree.isFile, writes.outside file inside] at isFile
  have quiet (stays : effect = .quiet) : ∀ name dir, effect ≠ .vacated name dir := by
    intro name dir isVacated
    rw [stays] at isVacated
    cases isVacated
  have fault (stays : effect = .fault) : ∀ name dir, effect ≠ .vacated name dir := by
    intro name dir isVacated
    rw [stays] at isVacated
    cases isVacated
  have discarded {victim : RepoRef} {failure : Option Disk} (allowed : server.allowed victim)
      (isDisk : shared'.disk =
        Git.GitCache.discard shared.disk (Git.trashDir victim.cacheDir) failure)
      (isEffect : effect = if failure.isSome then .fault else .quiet) :
      Placed server shared'.disk file := by
    by_cases inside : Git.trashDir victim.cacheDir <+: file
    · exact .trash victim allowed inside
    · rw [isDisk, isFile_discard inside] at isFile
      split at isEffect
      · exact before (fault isEffect) isFile
      · exact before (quiet isEffect) isFile
  cases taken with
  | made call disk created =>
      apply before (quiet rfl)
      rwa [Tree.isFile_createDirAll created] at isFile
  | partlyMade call done disk created =>
      apply before (fault rfl)
      rwa [Tree.isFile_createDirAll created] at isFile
  | cloneWrites call read left way =>
      by_cases inside : Git.stagingDir call.repo.cacheDir <+: file
      · exact .staging call.repo known inside
      · apply before (quiet rfl)
        rwa [isFile_replace inside way] at isFile
  | install call read disk filled renamed =>
      by_cases inside : call.repo.cacheDir <+: file
      · refine .mirror call.repo known ?_ inside
        have complete := behaves.cloned call read rfl rfl
        rw [Index.isMirrorRoot, Tree.isFile] at complete ⊢
        rwa [Tree.get?_rename renamed, if_pos (List.prefix_append _ _), List.drop_left]
      · apply before (quiet rfl)
        exact (Tree.isFile_of_rename renamed inside isFile).2
  | fetchWrites call read disk writes => exact written rfl known (quiet rfl) writes
  | wantWrites call disk writes => exact written rfl known (quiet rfl) writes
  | pruneWrites call disk writes => exact written rfl known (quiet rfl) writes
  | clear name dir failure =>
      rcases known with ⟨victim, allowed, _, rfl⟩
      exact discarded allowed rfl rfl
  | vacate name dir disk renamed =>
      rcases known with ⟨victim, allowed, _, rfl⟩
      by_cases inside : Git.trashDir victim.cacheDir <+: file
      · exact .trash victim allowed inside
      · rcases Tree.isFile_of_rename renamed inside isFile with ⟨outside, wasFile⟩
        apply (placed wasFile).mono
        intro repo _ marked inRepo
        exact marked_vacate (head _ _ rfl) renamed marked inRepo outside
  | sweep dir failure =>
      rcases known with ⟨victim, allowed, rfl⟩
      exact discarded allowed rfl rfl
  | blocked call inTheWay => exact before (fault rfl) isFile
  | notInstalled call read => exact before (fault rfl) isFile
  | notVacated name dir => exact before (fault rfl) isFile
  | _ => exact before (quiet rfl) isFile

/-- An eviction clears the way for the rename of a mirror that is there. -/
theorem head_act (taken : Git.Act server.fetchTtl server.allowed task shared stage effect shared'
      stage')
    (known : stage.Within server.allowed)
    (present : ∀ name dir, stage = .clearing name dir → Git.hasHead shared.disk dir = true)
    {name : Text} {dir : Path}
    (evicting : stage' = .clearing name dir ∨ stage' = .vacating name dir) :
    Git.hasHead shared'.disk dir = true := by
  cases taken with
  | evictPresent other otherDir head =>
      rcases evicting with clearing | vacating
      · cases clearing
        exact head
      · cases vacating
  | clear other otherDir failure =>
      rcases evicting with clearing | vacating
      · cases clearing
      · cases vacating
        rcases known with ⟨repo, allowed, _, rfl⟩
        have head := Git.Act.hasHead_iff.mp (present _ _ rfl)
        have outside : ¬Git.trashDir repo.cacheDir <+: repo.cacheDir ++ [Git.headFile] :=
          Git.not_trash_above_head (server.resolved repo allowed) (server.resolved repo allowed)
        rw [Git.Act.hasHead_iff]
        exact Git.Act.exists_discard (Git.Act.pushSuffix_ne_nil _ _) outside failure head
  | decide ticket =>
      simp only [Git.Shared.decide] at evicting
      split at evicting
      · rcases evicting with clearing | vacating
        · cases clearing
        · cases vacating
      · rcases evicting with clearing | vacating
        · cases clearing
        · cases vacating
  | notify call wants =>
      cases wants with
      | true =>
          rcases evicting with clearing | vacating
          · cases clearing
          · cases vacating
      | false =>
          rcases evicting with clearing | vacating
          · cases clearing
          · cases vacating
  | _ =>
      rcases evicting with clearing | vacating
      · cases clearing
      · cases vacating

end Git

/-! ## Files in the store -/

section Store

variable {root : Path} {pid : ℕ} {disk disk' : Disk} {op : Lfs.Op} {file : Path}

/-- A download leaves its temporary file and its object behind, and no other files. -/
theorem stored_perform (performed : op.perform root pid disk = some disk') (valid : op.Valid)
    (verified : ∀ n oid, op = .store n oid → ∀ node, disk.get? (Lfs.tmpPath root pid n) = some node →
      ∃ content, node = .file content)
    (isFile : disk'.isFile file = true) : disk.isFile file = true ∨ Stored root file := by
  have atTemp {n : ℕ} (same : file = Lfs.tmpPath root pid n) : Stored root file :=
    .incoming _ [] same
  cases op with
  | makeIncoming done =>
      left
      rwa [Tree.isFile_createDirAll performed] at isFile
  | makeShard oid done =>
      left
      rwa [Tree.isFile_createDirAll performed] at isFile
  | create n =>
      by_cases own : file = Lfs.tmpPath root pid n
      · exact Or.inr (atTemp own)
      · left
        rwa [Tree.isFile, Tree.get?_writeFile performed, if_neg own] at isFile
  | append n chunk =>
      by_cases own : file = Lfs.tmpPath root pid n
      · exact Or.inr (atTemp own)
      · left
        have untouched : ¬(Lfs.Op.append n chunk).Touches root pid file := own
        rwa [Tree.isFile, Lfs.Op.get?_perform performed untouched] at isFile
  | unlink n =>
      left
      rcases Tree.isFile_iff.mp isFile with ⟨content, found⟩
      exact Tree.isFile_iff.mpr ⟨content, Tree.get?_of_removeFile performed found⟩
  | store n oid =>
      by_cases inside : lfsObjectPath root oid <+: file
      · right
        refine .object oid valid ?_
        rcases inside with ⟨rest, rfl⟩
        rcases Tree.isFile_iff.mp isFile with ⟨content, found⟩
        rw [Tree.get?_rename performed, if_pos (List.prefix_append _ _), List.drop_left] at found
        by_contra deeper
        -- a temporary file that gets renamed is not a directory
        have notSelf : rest ≠ [] := by
          rintro rfl
          exact deeper (List.append_nil _)
        have isDir := Tree.get?_of_below notSelf (Tree.exists_of_get? found)
        rcases verified n oid rfl _ isDir with ⟨content, isFile⟩
        cases isFile
      · exact Or.inl (Tree.isFile_of_rename performed inside isFile).2

end Store

namespace Kept

theorem of_begins (begins : Begins server state) : Kept server state where
  inv := .of_starts begins.starts
  requests := by
    intro task
    rw [begins.starts.idle]
    rfl
  head := by
    intro name dir evicting
    rw [begins.starts.idle] at evicting
    rcases evicting with clearing | vacating
    · cases clearing
    · cases vacating
  placed := by
    intro file beside isFile
    rcases beside with ⟨first, rest, rfl, _⟩
    rw [begins.empty first rest] at isFile
    cases isFile
  stored := by
    intro rest isFile
    rw [begins.empty lfsObjectsDir rest] at isFile
    cases isFile

/-- What a file belongs to, if mirrors keep their `HEAD`. -/
theorem stays (kept : Kept server state) {disk : Disk}
    (same : ∀ path, BesideStore server.root path → disk.get? path = state.git.disk.get? path)
    {file : Path} (beside : BesideStore server.root file) (isFile : disk.isFile file = true) :
    Placed server disk file := by
  have wasFile := (Tree.isFile_congr (same file beside)).symm.trans isFile
  apply (kept.placed file beside wasFile).mono
  intro repo allowed marked _
  have headBeside := besideStore (server.resolved repo allowed) [Git.headFile]
  exact (Tree.isFile_congr (same _ headBeside)).trans marked

/-- The mirror that an eviction has looked at belongs to somebody. -/
theorem evictee (kept : Kept server state) {name : Text} {dir : Path}
    (evicting : state.tasks none = .clearing name dir ∨ state.tasks none = .vacating name dir) :
    ∃ repo, server.allowed repo ∧ repo.cacheDir = dir := by
  have within := kept.inv.within none
  rcases evicting with clearing | vacating
  · rw [clearing] at within
    rcases within with ⟨repo, allowed, _, isDir⟩
    exact ⟨repo, allowed, isDir⟩
  · rw [vacating] at within
    rcases within with ⟨repo, allowed, _, isDir⟩
    exact ⟨repo, allowed, isDir⟩

/-- Somebody else creates or removes a file that is neither in the store nor a `HEAD`. -/
theorem withDisk (kept : Kept server state) {disk : Disk}
    (heads : ∀ repo, server.allowed repo → disk.get? (repo.cacheDir ++ [Git.headFile]) =
      state.git.disk.get? (repo.cacheDir ++ [Git.headFile]))
    (store : ∀ rest, disk.get? (server.root ++ lfsObjectsDir :: rest) =
      state.git.disk.get? (server.root ++ lfsObjectsDir :: rest))
    (files : ∀ file, disk.isFile file = true →
      state.git.disk.isFile file = true ∨ file = probePath server.root) :
    Kept server (state.withDisk disk) where
  inv := {
    locks := kept.inv.locks
    within := kept.inv.within
    known := kept.inv.known
    victims := kept.inv.victims
    background := kept.inv.background
    lfs := kept.inv.lfs.frame fun rest _ found => (store rest).symm.trans found }
  requests := kept.requests
  head := by
    intro name dir evicting
    rcases kept.evictee evicting with ⟨repo, allowed, rfl⟩
    have present := Git.Act.hasHead_iff.mp (kept.head name _ evicting)
    rw [Git.Act.hasHead_iff]
    exact fun absent => present ((heads repo allowed).symm.trans absent)
  placed := by
    intro file beside isFile
    rcases files file isFile with wasFile | isProbe
    · apply (kept.placed file beside wasFile).mono
      intro repo allowed marked _
      exact (Tree.isFile_congr (heads repo allowed)).trans marked
    · exact .probe isProbe
  stored := by
    intro rest isFile
    apply kept.stored rest
    exact (Tree.isFile_congr (store rest)).symm.trans isFile

variable [DecidableEq Task]

theorem evicts_update (kept : Kept server state) (task : Option Task) (stage : Git.Stage)
    (own : ∀ request, task = some request → stage.evicts = false) (request : Task) :
    (Function.update state.tasks task stage (some request)).evicts = false := by
  by_cases isTask : some request = task
  · rw [← isTask, Function.update_self]
    exact own request isTask.symm
  · rw [Function.update_of_ne isTask]
    exact kept.requests request

theorem head_step (kept : Kept server state) (taken : Step server state event state')
    {name : Text} {dir : Path}
    (evicting : state'.tasks none = .clearing name dir ∨ state'.tasks none = .vacating name dir) :
    Git.hasHead state'.git.disk dir = true := by
  cases taken with
  | request task effect shared stage request act =>
      have other : (none : Option Task) ≠ some task := fun same => by cases same
      simp only [Function.update_of_ne other] at evicting
      rcases kept.evictee evicting with ⟨repo, allowed, rfl⟩
      apply act.keeps_head server.resolved (kept.inv.within _) allowed _
        (kept.head name _ evicting)
      intro victim dir vacates
      have evicts := kept.requests task
      rw [(act.of_vacated vacates).1] at evicts
      cases evicts
  | evict effect shared stage isEviction act =>
      simp only [Function.update_self] at evicting
      apply head_act act (kept.inv.within none) _ evicting
      exact fun name dir clearing => kept.head name dir (Or.inl clearing)
  | download task shared stage act =>
      rcases kept.evictee evicting with ⟨repo, allowed, rfl⟩
      have beside := besideStore (server.resolved repo allowed) [Git.headFile]
      have present := Git.Act.hasHead_iff.mp (kept.head name _ evicting)
      rw [Git.Act.hasHead_iff]
      exact fun absent => present ((kept.inv.lfs.get?_beside act beside).symm.trans absent)
  | pick victim victims free next mirror =>
      simp only [Function.update_self] at evicting
      rcases evicting with clearing | vacating
      · cases clearing
      · cases vacating
  | unlink victim victims disk free next blob removed =>
      simp only [free] at evicting
      rcases evicting with clearing | vacating
      · cases clearing
      · cases vacating
  | _ => exact kept.head name dir evicting

theorem placed_step (kept : Kept server state) (acts : Acts server state state') {file : Path}
    (beside : BesideStore server.root file) (isFile : state'.git.disk.isFile file = true) :
    Placed server state'.git.disk file := by
  cases acts with
  | git task effect shared stage act behaves =>
      apply placed_act act (kept.inv.within task) behaves _ (kept.placed file beside) isFile
      intro name dir vacating
      cases task with
      | none => exact kept.head name dir (Or.inr vacating)
      | some request =>
          have evicts := kept.requests request
          rw [vacating] at evicts
          cases evicts
  | other state' same => exact kept.stays same beside isFile

theorem stored_step (kept : Kept server state) (taken : Step server state event state')
    {rest : Path} (isFile : state'.git.disk.isFile (server.root ++ lfsObjectsDir :: rest) = true) :
    Stored server.root (server.root ++ lfsObjectsDir :: rest) := by
  cases taken with
  | request task effect shared stage request act =>
      apply kept.stored rest
      have same := act.get?_store server.resolved (kept.inv.within _) rest
      exact (Tree.isFile_congr same).symm.trans isFile
  | evict effect shared stage evicting act =>
      apply kept.stored rest
      have same := act.get?_store server.resolved (kept.inv.within _) rest
      exact (Tree.isFile_congr same).symm.trans isFile
  | download task shared stage act =>
      have isFile : shared.disk.isFile (server.root ++ lfsObjectsDir :: rest) = true := isFile
      rcases act.disk with same | ⟨op, performs, performed⟩
      · apply kept.stored rest
        rwa [same] at isFile
      · have verified (n : ℕ) (oid : Text) (isStore : op = .store n oid) (node : Node Bytes)
            (found : state.git.disk.get? (Lfs.tmpPath server.root state.pid n) = some node) :
            ∃ content, node = .file content := by
          subst isStore
          rcases kept.inv.lfs.verified task n oid performs.verified node found with
            ⟨content, isContent, _⟩
          exact ⟨content, isContent⟩
        have before := stored_perform performed (kept.inv.lfs.opValid performs) verified isFile
        rcases before with wasFile | stored
        · exact kept.stored rest wasFile
        · exact stored
  | unlink name victims disk free next blob removed =>
      apply kept.stored rest
      rcases Tree.isFile_iff.mp isFile with ⟨content, found⟩
      exact Tree.isFile_iff.mpr ⟨content, Tree.get?_of_removeFile removed found⟩
  | _ => exact kept.stored rest isFile

theorem live (kept : Kept server state) (taken : Step server state event state')
    (acts : Acts server state state') : Kept server state' where
  inv := kept.inv.step taken
  requests := by
    cases taken with
    | request task effect shared stage request act =>
        exact kept.evicts_update (some task) stage fun _ _ => request
    | evict effect shared stage evicting act =>
        exact kept.evicts_update none stage fun _ isNone => by cases isNone
    | pick name victims free next mirror =>
        exact kept.evicts_update none (.evictQueued name (join server.root name)) fun _ isNone => by cases isNone
    | _ => exact kept.requests
  head := fun _ _ evicting => kept.head_step taken evicting
  placed := fun _ beside isFile => kept.placed_step acts beside isFile
  stored := fun _ isFile => kept.stored_step taken isFile

end Kept

/-! ## Startup -/

section Startup

variable {disk : Disk} {root : Path}

theorem cacheDir_of_allowed {repo : RepoRef} (allowed : server.allowed repo) :
    WellNamed repo.name ∧ repo.cacheDir = server.root ++ repo.name.splitOn '/' := by
  rcases resolve_eq_ok_iff.mp (server.resolved repo allowed) with ⟨wellNamed, placed⟩
  exact ⟨wellNamed, congrArg RepoRef.cacheDir placed⟩

theorem above_of_marked {dir parent : Path} {name : Text} {disk : Disk}
    (marked : Index.isMirrorRoot disk dir = true) (inside : dir <+: parent ++ [name])
    (isFile : disk.isFile (parent ++ [name]) = true) : dir <+: parent := by
  rcases List.prefix_concat_iff.mp inside with same | above
  · rw [← same, Tree.isFile, Index.get?_of_isMirrorRoot marked] at isFile
    cases isFile
  · exact above

/-- Where the scan goes, there is no staging and no trash directory. -/
theorem not_reserved_of_unskipped {repo : RepoRef} (allowed : server.allowed repo) {mark : Text}
    (reserved : mark = incomingSuffix ∨ mark = evictingSuffix) {rest : Path}
    (unskipped : ∀ comp ∈ rest, Index.skipped comp = false) :
    ¬pushSuffix repo.cacheDir mark <+: server.root ++ rest := by
  intro above
  rcases pushSuffix_root server.root repo.name mark with ⟨init, last, _, _, isMarked⟩
  rw [(cacheDir_of_allowed allowed).2, isMarked, List.prefix_append_right_inj] at above
  have skip : Index.skipped (last ++ mark) = true := by
    rcases reserved with rfl | rfl
    · simp [Index.skipped, List.isSuffixOf_iff_suffix]
    · simp [Index.skipped, List.isSuffixOf_iff_suffix]
  rw [unskipped _ (above.subset (List.mem_append_right init (List.mem_singleton_self _)))] at skip
  cases skip

theorem isLfsBlob_relName (rest : Path) :
    isLfsBlob (Index.relName root (root ++ lfsObjectsDir :: rest)) = true := by
  rw [Index.relName_append, isLfsBlob]
  cases rest with
  | nil =>
      rw [List.intercalate_singleton]
      decide
  | cons first more =>
      rw [List.intercalate_cons_cons, List.append_assoc, List.singleton_append,
        List.splitOn_append_cons_self_of_not_mem (by decide)]
      simp

end Startup

namespace Kept

variable {dir : Path}

theorem mirror_of_finds (kept : Kept server state)
    (found : Index.Finds state.git.disk server.root dir) :
    ∃ repo, server.allowed repo ∧ Index.isMirrorRoot state.git.disk repo.cacheDir = true ∧
      repo.cacheDir = dir := by
  rcases Index.finds_iff.mp found with ⟨rest, rfl, named, marked, unskipped, through⟩
  have beside : BesideStore server.root (server.root ++ rest ++ [Git.headFile]) := by
    cases rest with
    | nil => exact absurd rfl named
    | cons first more =>
        refine ⟨first, more ++ [Git.headFile], by simp, ?_⟩
        rintro rfl
        exact absurd (unskipped lfsObjectsDir List.mem_cons_self) (by decide)
  have unreserved : ∀ comp ∈ rest ++ [Git.headFile], Index.skipped comp = false := by
    intro comp compMem
    rcases List.mem_append.mp compMem with inRest | isHead
    · exact unskipped comp inRest
    · rw [List.mem_singleton.mp isHead]
      decide
  cases kept.placed _ beside marked with
  | mirror repo allowed markedRepo inside =>
      refine ⟨repo, allowed, markedRepo, ?_⟩
      have above := above_of_marked markedRepo inside marked
      rw [(cacheDir_of_allowed allowed).2] at above markedRepo ⊢
      rw [List.prefix_append_right_inj] at above
      by_contra different
      have goesOn := through _ above fun same => different (by rw [same])
      rw [markedRepo] at goesOn
      cases goesOn
  | staging repo allowed inside =>
      rw [List.append_assoc] at inside
      exact absurd inside (not_reserved_of_unskipped allowed (Or.inl rfl) unreserved)
  | trash repo allowed inside =>
      rw [List.append_assoc] at inside
      exact absurd inside (not_reserved_of_unskipped allowed (Or.inr rfl) unreserved)
  | probe isProbe => exact absurd (List.append_inj' isProbe rfl).2 (by decide)

theorem rootPlain (kept : Kept server state) :
    Index.isMirrorRoot state.git.disk server.root = false := by
  rw [Bool.eq_false_iff]
  intro marked
  have beside : BesideStore server.root (server.root ++ [Git.headFile]) :=
    ⟨Git.headFile, [], rfl, by decide⟩
  have unskipped : ∀ comp ∈ [Git.headFile], Index.skipped comp = false := by decide
  cases kept.placed _ beside marked with
  | mirror repo allowed markedRepo inside =>
      have above := above_of_marked markedRepo inside marked
      have short := above.length_le
      rw [(cacheDir_of_allowed allowed).2, List.length_append] at short
      have long := List.length_pos_of_ne_nil (List.splitOn_ne_nil '/' repo.name)
      omega
  | staging repo allowed inside =>
      exact not_reserved_of_unskipped allowed (Or.inl rfl) unskipped inside
  | trash repo allowed inside =>
      exact not_reserved_of_unskipped allowed (Or.inr rfl) unskipped inside
  | probe isProbe => exact absurd (List.append_inj' isProbe rfl).2 (by decide)

/-- Every mirror is found, or lies in one that is. -/
theorem finds_of_marked (kept : Kept server state) {repo : RepoRef} (allowed : server.allowed repo)
    (marked : Index.isMirrorRoot state.git.disk repo.cacheDir = true) :
    ∃ outer, server.allowed outer ∧ Index.Finds state.git.disk server.root outer.cacheDir ∧
      outer.cacheDir <+: repo.cacheDir := by
  rcases cacheDir_of_allowed allowed with ⟨wellNamed, isDir⟩
  rw [isDir] at marked
  have found := Index.exists_finds marked (fun comp compMem => (wellNamed.ordinary comp compMem).1)
    (Index.skipped_of_wellNamed wellNamed) kept.rootPlain
  rcases found with ⟨top, above, finds⟩
  rcases kept.mirror_of_finds finds with ⟨outer, allowedOuter, _, isTop⟩
  refine ⟨outer, allowedOuter, isTop ▸ finds, ?_⟩
  rwa [isTop, isDir, List.prefix_append_right_inj]

theorem known_of_scanned (kept : Kept server state) {mtimeOf : Path → ℕ} {maxBytes : UInt64}
    {index : Index.CacheIndex}
    (scanned : Index.startupIndex state.git.disk mtimeOf server.root maxBytes = some index)
    {name : Text} (tracked : index.Tracks name) : server.Known name := by
  rcases Index.exists_startupIndex state.git.disk mtimeOf server.root maxBytes with
    ⟨other, same, tracks⟩
  cases Option.some.inj (scanned.symm.trans same)
  rcases (tracks name).mp tracked with ⟨path, finds | inStore, rfl⟩
  · rcases kept.mirror_of_finds finds with ⟨repo, allowed, _, rfl⟩
    rcases cacheDir_of_allowed allowed with ⟨wellNamed, isDir⟩
    refine Or.inr ⟨repo, allowed, ?_⟩
    rw [isDir, Index.relName_append, List.intercalate_splitOn]
  · rcases Tree.mem_filesBelow.mp (Finset.mem_filter.mp inStore).1 with ⟨⟨rest, rfl⟩, _⟩
    left
    rw [List.append_assoc]
    exact isLfsBlob_relName rest

theorem restart (kept : Kept server state) {mtimeOf : Path → ℕ} {maxBytes : UInt64}
    {index : Index.CacheIndex}
    (scanned : Index.startupIndex state.git.disk mtimeOf server.root maxBytes = some index)
    (clock pid : ℕ) (failure : Option Disk) :
    Kept server (state.restarted server.root index clock pid failure) where
  inv := .of_starts {
    unowned := fun _ => rfl
    idle := fun _ => rfl
    lfs := ⟨fun _ => rfl, fun _ => rfl, Lfs.Inv.addressed_discard kept.inv.lfs.addressed failure⟩
    pc := rfl
    known := fun _ tracked => kept.known_of_scanned scanned tracked }
  requests := fun _ => rfl
  head := by
    rintro name dir (clearing | vacating)
    · cases clearing
    · cases vacating
  placed := by
    intro file beside isFile
    refine kept.stays ?_ beside isFile
    intro path beside
    exact Git.Act.get?_discard_of_apart failure (by simp [Lfs.incomingPath])
      beside.not_store_above beside.not_above_store
  stored := by
    intro rest isFile
    by_cases inside : Lfs.incomingPath server.root <+: server.root ++ lfsObjectsDir :: rest
    · rcases inside with ⟨more, same⟩
      rw [← same] at isFile ⊢
      cases more with
      | nil =>
          rw [List.append_nil] at isFile same ⊢
          have wasFile := (isFile_discard_self (by simp [Lfs.incomingPath]) failure).symm.trans isFile
          rw [same] at wasFile ⊢
          exact kept.stored rest wasFile
      | cons name deeper => exact .incoming name deeper rfl
    · exact kept.stored rest ((isFile_discard inside failure).symm.trans isFile)

theorem step [DecidableEq Task] (kept : Kept server state) (taken : Life server state state') :
    Kept server state' := by
  have headBelow {repo : RepoRef} (allowed : server.allowed repo) :
      ∃ first rest, repo.cacheDir ++ [Git.headFile] = server.root ++ first :: rest := by
    rcases besideStore (server.resolved repo allowed) [Git.headFile] with ⟨first, rest, same, _⟩
    exact ⟨first, rest, same⟩
  have headNotProbe (repo : RepoRef) : repo.cacheDir ++ [Git.headFile] ≠ probePath server.root :=
    fun same => absurd (List.append_inj' same rfl).2 (by decide)
  have storeNotProbe (rest : Path) :
      server.root ++ lfsObjectsDir :: rest ≠ probePath server.root := by
    intro same
    have parts := (List.cons.inj (List.append_cancel_left same)).1
    exact absurd parts (by decide)
  cases taken with
  | live event state' taken acts => exact kept.live taken acts
  | probeRoot disk made =>
      apply kept.withDisk
      · intro repo allowed
        rcases headBelow allowed with ⟨first, rest, same⟩
        rw [same, Tree.get?_createDirAll made, if_neg (not_below_of_above (List.prefix_refl _))]
      · intro rest
        rw [Tree.get?_createDirAll made, if_neg (not_below_of_above (List.prefix_refl _))]
      · intro file isFile
        left
        rwa [Tree.isFile_createDirAll made] at isFile
  | probeWrite disk written =>
      apply kept.withDisk
      · intro repo allowed
        rw [Tree.get?_writeFile written, if_neg (headNotProbe repo)]
      · intro rest
        rw [Tree.get?_writeFile written, if_neg (storeNotProbe rest)]
      · intro file isFile
        by_cases isProbe : file = probePath server.root
        · exact Or.inr isProbe
        · left
          rwa [Tree.isFile, Tree.get?_writeFile written, if_neg isProbe] at isFile
  | probeUnlink disk removed =>
      apply kept.withDisk
      · intro repo allowed
        rw [Tree.get?_removeFile removed, if_neg (headNotProbe repo)]
      · intro rest
        rw [Tree.get?_removeFile removed, if_neg (storeNotProbe rest)]
      · intro file isFile
        left
        rcases Tree.isFile_iff.mp isFile with ⟨content, found⟩
        exact Tree.isFile_iff.mpr ⟨content, Tree.get?_of_removeFile removed found⟩
  | restart mtimeOf maxBytes index clock pid failure scanned =>
      exact kept.restart scanned clock pid failure

/-! ## What the next process tracks -/

/-- A file in a mirror is part of an entry. -/
theorem tracks_of_mirror (kept : Kept server state) {index : Index.CacheIndex}
    (tracks : index.TracksFound state.git.disk server.root)
    {repo : RepoRef} (allowed : server.allowed repo)
    (marked : Index.isMirrorRoot state.git.disk repo.cacheDir = true) {file : Path}
    (inside : repo.cacheDir <+: file) :
    ∃ key, index.Tracks key ∧ join server.root key <+: file := by
  rcases kept.finds_of_marked allowed marked with ⟨outer, allowedOuter, finds, above⟩
  have key : Index.relName server.root outer.cacheDir = outer.name := by
    rw [(cacheDir_of_allowed allowedOuter).2, Index.relName_append, List.intercalate_splitOn]
  refine ⟨outer.name, (tracks _).mpr ⟨outer.cacheDir, Or.inl finds, key⟩, ?_⟩
  rw [join_name (server.resolved outer allowedOuter)]
  exact above.trans inside

/-- A file beside the store is part of an entry only if it lies in a mirror. -/
theorem mirror_of_tracks (kept : Kept server state) {index : Index.CacheIndex}
    (tracks : index.TracksFound state.git.disk server.root)
    {key : Text} {file : Path} (beside : BesideStore server.root file) (tracked : index.Tracks key)
    (inside : join server.root key <+: file) :
    ∃ repo, server.allowed repo ∧ Index.isMirrorRoot state.git.disk repo.cacheDir = true ∧
      repo.cacheDir <+: file := by
  rcases (tracks key).mp tracked with ⟨path, finds | inStore, rfl⟩
  · rcases kept.mirror_of_finds finds with ⟨repo, allowed, marked, rfl⟩
    refine ⟨repo, allowed, marked, ?_⟩
    have key : Index.relName server.root repo.cacheDir = repo.name := by
      rw [(cacheDir_of_allowed allowed).2, Index.relName_append, List.intercalate_splitOn]
    rwa [key, join_name (server.resolved repo allowed)] at inside
  · rcases Tree.mem_filesBelow.mp (Finset.mem_filter.mp inStore).1 with ⟨⟨rest, rfl⟩, _⟩
    rw [List.append_assoc, List.singleton_append] at inside
    have blob : isLfsBlob (Index.relName server.root (server.root ++ lfsObjectsDir :: rest)) = true :=
      isLfsBlob_relName rest
    rcases join_of_isLfsBlob blob with ⟨more, inLfs⟩
    rw [inLfs] at inside
    exact absurd inside beside.not_store_above

/-- What is left in the store are objects, and they are part of an entry. -/
theorem tracks_of_stored (kept : Kept server state) {index : Index.CacheIndex}
    (tracks : index.TracksFound state.git.disk server.root)
    {rest : Path}
    (isFile : (Git.GitCache.discard state.git.disk (Lfs.incomingPath server.root) none).isFile
      (server.root ++ lfsObjectsDir :: rest) = true) :
    ∃ key, index.Tracks key ∧ join server.root key <+: server.root ++ lfsObjectsDir :: rest := by
  have notRoot : Lfs.incomingPath server.root ≠ [] := by simp [Lfs.incomingPath]
  have wasFile : state.git.disk.isFile (server.root ++ lfsObjectsDir :: rest) = true := by
    by_cases inside : Lfs.incomingPath server.root <+: server.root ++ lfsObjectsDir :: rest
    · rcases inside with ⟨more, same⟩
      by_cases self : more = []
      · rw [← same, self, List.append_nil] at isFile ⊢
        rwa [isFile_discard_self notRoot] at isFile
      · rw [← same, isFile_discard_below notRoot self] at isFile
        cases isFile
    · rwa [isFile_discard inside] at isFile
  cases kept.stored rest wasFile with
  | object oid valid isObject =>
      rw [isObject] at wasFile ⊢
      have key : Index.relName server.root (lfsObjectPath server.root oid) = lfsObjectKey oid :=
        Index.relName_lfsObjectPath valid
      have inStore := Index.mem_storeFiles_of_valid valid wasFile
      exact ⟨lfsObjectKey oid, (tracks _).mpr ⟨_, Or.inr inStore, key⟩, List.prefix_refl _⟩
  | incoming name more inside =>
      rw [inside, isFile_discard_below notRoot (List.cons_ne_nil name more)] at isFile
      cases isFile

theorem recovered_of_spotless (kept : Kept server state)
    (spotless : Spotless server state.git.disk) : Recovered server state := by
  intro mtimeOf maxBytes
  rcases Index.exists_startupIndex state.git.disk mtimeOf server.root maxBytes with
    ⟨index, scanned, tracks⟩
  refine ⟨index, scanned, ?_⟩
  intro first rest isFile
  by_cases inStore : first = lfsObjectsDir
  · subst inStore
    exact kept.tracks_of_stored tracks isFile
  · have beside : BesideStore server.root (server.root ++ first :: rest) :=
      ⟨first, rest, rfl, inStore⟩
    have wasFile : state.git.disk.isFile (server.root ++ first :: rest) = true := by
      rwa [isFile_discard_incoming beside] at isFile
    cases kept.placed _ beside wasFile with
    | mirror repo allowed marked inside => exact kept.tracks_of_mirror tracks allowed marked inside
    | staging repo allowed inside =>
        rcases spotless.reserved repo allowed _ (Or.inl inside) wasFile with
          ⟨outer, allowedOuter, marked, inOuter⟩
        exact kept.tracks_of_mirror tracks allowedOuter marked inOuter
    | trash repo allowed inside =>
        rcases spotless.reserved repo allowed _ (Or.inr inside) wasFile with
          ⟨outer, allowedOuter, marked, inOuter⟩
        exact kept.tracks_of_mirror tracks allowedOuter marked inOuter
    | probe isProbe =>
        rw [isProbe, spotless.probe] at wasFile
        cases wasFile

theorem spotless_of_recovered (kept : Kept server state) (recovered : Recovered server state) :
    Spotless server state.git.disk := by
  rcases Index.exists_startupIndex state.git.disk (fun _ => 0) server.root 0 with
    ⟨index, scanned, tracks⟩
  rcases recovered (fun _ => 0) 0 with ⟨other, same, covered⟩
  cases Option.some.inj (scanned.symm.trans same)
  have mirrorOf {file : Path} (beside : BesideStore server.root file)
      (isFile : state.git.disk.isFile file = true) :
      ∃ repo, server.allowed repo ∧ Index.isMirrorRoot state.git.disk repo.cacheDir = true ∧
        repo.cacheDir <+: file := by
    have stays := (isFile_discard_incoming beside state.git.disk none).trans isFile
    have whole := beside
    rcases whole with ⟨first, rest, rfl, _⟩
    rcases covered first rest stays with ⟨key, tracked, inside⟩
    exact kept.mirror_of_tracks tracks beside tracked inside
  constructor
  · intro repo allowed file reserved isFile
    apply mirrorOf _ isFile
    rcases reserved with inside | inside
    · exact (besideStore_reserved (server.resolved repo allowed) (Or.inl rfl)).below inside
    · exact (besideStore_reserved (server.resolved repo allowed) (Or.inr rfl)).below inside
  · rw [Bool.eq_false_iff]
    intro isFile
    have beside : BesideStore server.root (probePath server.root) :=
      ⟨_, [], rfl, by decide⟩
    rcases mirrorOf beside isFile with ⟨repo, allowed, marked, inside⟩
    have short := (above_of_marked marked inside isFile).length_le
    rw [(cacheDir_of_allowed allowed).2, List.length_append] at short
    have long := List.length_pos_of_ne_nil (List.splitOn_ne_nil '/' repo.name)
    omega

end Kept

theorem kept_of_reachable [DecidableEq Task] (reached : Reachable (Begins server) (Life server) state) :
    Kept server state :=
  reached.invariant (fun _ begins => .of_begins begins) fun _ _ kept taken => kept.step taken

theorem GitBehaves.of_elsewhere {allowed : RepoRef → Prop} {disk after : Disk}
    {stage stage' : Git.Stage} (notCloned : ∀ call read, stage ≠ .cloned call read)
    (notInMirror : stage.inMirror = none) : GitBehaves allowed disk after stage stage' where
  cloned := fun call read isCloned => absurd isCloned (notCloned call read)
  keeps := by
    intro call inMirror
    rw [notInMirror] at inMirror
    cases inMirror
  elsewhere := by
    intro call inMirror
    rw [notInMirror] at inMirror
    cases inMirror

/-- A step of a request that has nothing to do with a mirror yet. -/
theorem Life.request [DecidableEq Task] (task : Task) {effect : Git.Effect}
    {shared : Git.Shared (Option Task)} {stage : Git.Stage} (evicts : stage.evicts = false)
    (notCloned : ∀ call read, state.tasks (some task) ≠ .cloned call read)
    (notInMirror : (state.tasks (some task)).inMirror = none)
    (act : Git.Act server.fetchTtl server.allowed (some task) state.git (state.tasks (some task))
      effect shared stage) :
    Life server state
      { state with git := shared, tasks := Function.update state.tasks (some task) stage } :=
  .live _ _ (.request task effect shared stage evicts act)
    (.git (some task) effect shared stage act (.of_elsewhere notCloned notInMirror))

def emptyCache : State Unit where
  git := {
    clock := 5
    disk := .empty
    index := .new [] [] 1000
    owner := fun _ => none
    last := fun _ => none
    pulled := fun _ => none
    content := fun _ => none }
  slots := fun _ => none
  counter := 0
  pid := 5
  tasks := fun _ => .idle
  downloads := fun _ => .idle
  pc := .start

theorem begins_emptyCache : Begins demoServer emptyCache where
  starts := {
    unowned := fun _ => rfl
    idle := fun _ => rfl
    lfs := by
      refine ⟨fun _ => rfl, fun _ => rfl, ?_⟩
      intro oid valid node found
      rw [lfsObjectPath_eq valid] at found
      simp [State.lfs, emptyCache] at found
    pc := rfl
    known := fun _ tracked => absurd rfl tracked }
  empty := by
    intro first rest
    simp [emptyCache, Tree.isFile]

theorem exists_interrupted : ∃ state : State Unit,
    Reachable (Begins demoServer) (Life demoServer) state ∧
      state.git.disk.isFile (Git.stagingDir Git.demoRepo.cacheDir ++ [Git.headFile]) = true ∧
        Index.isMirrorRoot state.git.disk Git.demoRepo.cacheDir = false := by
  have run : Reachable (Begins demoServer) (Life demoServer) emptyCache := .start begins_emptyCache
  have run := run.next (.request () (by rfl) (by nofun) rfl (.arrive Git.demoRepo.toRepoRef true rfl))
  have run := run.next (.request () (by rfl) (by nofun) rfl (.lock _ _ rfl))
  have run := run.next (.request () (by rfl) (by nofun) rfl (.start _ _ _))
  have run := run.next (.request () (by rfl) (by nofun) rfl (.absent _ rfl))
  have run := run.next (.request () (by rfl) (by nofun) rfl (.made _ _ rfl))
  have run := run.next (.request () (by rfl) (by nofun) rfl
    (.cloneWrites _ _ (some Git.bareMirror) (by decide)))
  exact ⟨_, run, by rfl, by rfl⟩

end GitCacheProxy.System
