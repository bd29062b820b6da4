import GitCacheProxy.Git.Confinement
import GitCacheProxy.Http.Routes
import GitCacheProxy.System.Restart

/-!
# Whether the proxy stays ready

The readiness probe writes a file into the cache root, next to the mirrors whose
names the clients choose.  Requests are served one after the other here, by the
functions that `handle_git` dispatches to, with probes and evictions between
them.  The file system does all that it is asked for.

A probe fails once there is a directory in the place of its file.  `Obstructs`
says which requests put one there.
-/

namespace GitCacheProxy.Http

open Repo FileTree

/-! ## The probe -/

/-- Create and remove the probe file. -/
def cacheWritable (root : Path) (disk : Disk) : Disk × Bool :=
  match disk.createDirAll root with
  | none => (disk, false)
  | some made =>
      match made.writeFile (System.probePath root) [] with
      | none => (made, false)
      | some written => ((written.removeFile (System.probePath root)).getD written, true)

def readyz (root : Path) (disk : Disk) : Disk × Response :=
  match cacheWritable root disk with
  | (disk, true) => (disk, ⟨.ok, "ok".toList⟩)
  | (disk, false) => (disk, err .serviceUnavailable "cache root not writable".toList)

/-! ## Serving requests in turn -/

structure Process where
  st : AppState
  crates : Crates
  fetchTtl : ℕ
  pid : ℕ
  sha256 : Bytes → Text

/-- What comes of a download: the batch response, the body, and whether it has come in full. -/
structure Download where
  granted : Bool
  chunks : List Bytes
  complete : Bool

/-- What the clock and the upstream contribute to a request. -/
structure Upstream where
  env : Git.Surroundings
  steady : env.Steady
  download : Download

structure Proxy where
  cache : Git.GitCache
  tmpCounter : ℕ

section Serving

variable (process : Process)

/-- File-system calls up to the first that fails; whether all were carried out. -/
def performAll : List Lfs.Op → Disk → Disk × Bool
  | [], disk => (disk, true)
  | op :: ops, disk =>
      match op.perform process.st.cacheRoot process.pid disk with
      | none => (disk, false)
      | some disk => performAll ops disk

/-- The calls of a download into the temporary file `n`. -/
def downloadOps (oid : Text) (n : ℕ) (download : Download) : List Lfs.Op :=
  let verified := download.complete ∧ process.sha256 download.chunks.flatten = oid
  .create n :: download.chunks.map (.append n) ++
    if verified then [.makeShard oid (Lfs.shardPath process.st.cacheRoot oid).length, .store n oid]
    else [.unlink n]

def fetchObject (oid : Text) (download : Download) (proxy : Proxy) : Proxy :=
  let makeIncoming : Lfs.Op := .makeIncoming (Lfs.incomingPath process.st.cacheRoot).length
  if download.granted = false then proxy
  else
    match makeIncoming.perform process.st.cacheRoot process.pid proxy.cache.disk with
    | none => proxy
    | some disk =>
        let content := download.chunks.flatten
        let ops := downloadOps process oid proxy.tmpCounter download
        let (disk, done) := performAll process ops disk
        let stored := done ∧ download.complete ∧ process.sha256 content = oid
        let recorded := proxy.cache.index.map fun index =>
          (index.recordBlob (lfsObjectKey oid) content.length.toUInt64).notifyOne
        { cache := { proxy.cache with
            disk := disk
            index := if stored then recorded else proxy.cache.index }
          tmpCounter := proxy.tmpCounter + 1 }

def ensureObject (oid : Text) (size : Option ℕ) (download : Download) (proxy : Proxy) : Proxy :=
  if proxy.cache.disk.Exists (lfsObjectPath process.st.cacheRoot oid) then
    { proxy with cache := proxy.cache.touch (lfsObjectKey oid) }
  else
    match size with
    | none => proxy
    | some _ => fetchObject process oid download proxy

def ensureFresh (upstream : Git.Surroundings) (repo : RepoRef) (wantFetch : Bool) (proxy : Proxy) :
    Proxy :=
  { proxy with
    cache := (Git.GitCache.ensureFresh process.fetchTtl upstream repo wantFetch proxy.cache).1 }

/-- What a request does to the caches.  The body that `info_refs` passes on has no wants. -/
def serve (request : Request) (upstream : Upstream) (proxy : Proxy) : Proxy :=
  match handleGit process.crates process.st request with
  | .answer _ => proxy
  | .infoRefs repo _ => ensureFresh process { upstream.env with wants := none } repo true proxy
  | .uploadPack repo _ _ => ensureFresh process upstream.env repo false proxy
  | .lfsBatch _ _ _ => proxy
  | .lfsObject _ oid size => ensureObject process oid size upstream.download proxy

inductive Event where
  | request (request : Request) (upstream : Upstream)
  | probe
  | evictMirror (repo : Resolved process.st.upstreamBase process.st.cacheRoot)
  | evictObject (oid : Text) (valid : validLfsOid oid = true)

def step (proxy : Proxy) : Event process → Proxy
  | .request request upstream => serve process request upstream proxy
  | .probe =>
      { proxy with cache.disk := (readyz process.st.cacheRoot proxy.cache.disk).1 }
  | .evictMirror repo =>
      { proxy with cache := (Git.GitCache.evict none none false repo.cacheDir proxy.cache).1 }
  | .evictObject oid _ =>
      let path := lfsObjectPath process.st.cacheRoot oid
      { proxy with cache.disk := (proxy.cache.disk.removeFile path).getD proxy.cache.disk }

def run (proxy : Proxy) (events : List (Event process)) : Proxy := events.foldl (step process) proxy

/-! ## What stands in the way of the probe -/

def probeName : Text := ".readyz-probe".toList

/-- The request is handed to `ensure_fresh` for this repository. -/
def AsksFor (request : Request) (repo : RepoRef) : Prop :=
  (∃ gitProtocol, handleGit process.crates process.st request = .infoRefs repo gitProtocol) ∨
    ∃ gitProtocol body,
      handleGit process.crates process.st request = .uploadPack repo gitProtocol body

/-- A request for the repository with these components makes a directory in the place of the probe
file: on the way to its mirror, or as its mirror.  A file left there would prevent both. -/
inductive Crowds (root : Path) (disk : Disk) (git : ℕ → Git.Attempt) : Path → Prop
  | above (child : Text) (rest : Path) (noFile : disk.isFile (System.probePath root) = false) :
      Crowds root disk git (probeName :: child :: rest)
  | mirror (noFile : disk.isFile (System.probePath root) = false)
      (clear : disk.isFile (Git.stagingDir (System.probePath root)) = false)
      (delivers : Git.Delivers git) : Crowds root disk git [probeName]

inductive Obstructs (disk : Disk) : Event process → Prop
  | request (request : Request) (upstream : Upstream) (repo : RepoRef)
      (asks : AsksFor process request repo)
      (crowds : Crowds process.st.cacheRoot disk upstream.env.git (repo.name.splitOn '/')) :
      Obstructs disk (.request request upstream)

end Serving

/-! ## When a probe succeeds -/

/-- The root can be made, and no directory is in the place of the probe file. -/
structure Ready (root : Path) (disk : Disk) : Prop where
  way : ∀ ancestor, ancestor <+: root → disk.isFile ancestor = false
  free : disk.isDir (System.probePath root) = false

section Ready

variable {root path parent : Path} {disk after : Disk} {name first : Text} {rest : Path}

theorem probePath_eq : System.probePath root = root ++ [probeName] := rfl

theorem get?_probe_of_createDirAll (made : disk.createDirAll root = some after) :
    after.get? (System.probePath root) = disk.get? (System.probePath root) := by
  rw [Tree.get?_createDirAll made, if_neg]
  exact not_below_of_above (List.prefix_refl _)

theorem cacheWritable_iff : (cacheWritable root disk).2 = true ↔ Ready root disk := by
  unfold cacheWritable
  cases made : disk.createDirAll root with
  | none =>
      refine iff_of_false (by simp) ?_
      intro ready
      rcases Tree.createDirAll_eq_some_iff.mpr ready.way with ⟨after, possible⟩
      rw [made] at possible
      cases possible
  | some after =>
      have way := Tree.createDirAll_eq_some_iff.mp ⟨after, made⟩
      have rootDir : after.isDir (System.probePath root).dropLast = true := by
        rw [System.probePath, List.dropLast_concat, Tree.isDir_iff, Tree.get?_createDirAll made,
          if_pos (List.prefix_refl _)]
      have sameDir : after.isDir (System.probePath root) = disk.isDir (System.probePath root) := by
        rw [Tree.isDir, Tree.isDir, get?_probe_of_createDirAll made]
      have possible : (∃ written, after.writeFile (System.probePath root) [] = some written) ↔
          disk.isDir (System.probePath root) = false := by
        rw [Tree.writeFile_eq_some_iff, sameDir, and_iff_right rootDir]
      simp only
      cases probed : after.writeFile (System.probePath root) [] with
      | none =>
          refine iff_of_false (by simp) ?_
          intro ready
          rcases possible.mpr ready.free with ⟨written, impossible⟩
          rw [probed] at impossible
          cases impossible
      | some written => exact iff_of_true rfl ⟨way, possible.mp ⟨written, probed⟩⟩

theorem readyz_ok_iff : (readyz root disk).2.status = .ok ↔ Ready root disk := by
  rw [← cacheWritable_iff, readyz]
  generalize cacheWritable root disk = result
  rcases result with ⟨after, writable⟩
  cases writable with
  | true => simp
  | false => simp [err]

theorem Ready.of_way (ready : Ready root disk)
    (way : ∀ ancestor, ancestor <+: root →
      after.get? ancestor = disk.get? ancestor ∨ after.get? ancestor = some .dir)
    (free : after.isDir (System.probePath root) = false) : Ready root after := by
  refine ⟨?_, free⟩
  intro ancestor above
  rcases way ancestor above with same | isDir
  · rw [Tree.isFile_congr same]
    exact ready.way ancestor above
  · simp [Tree.isFile, isDir]

/-- A successful probe leaves nothing behind that could be in the way of the next. -/
theorem Ready.probed (ready : Ready root disk) : Ready root (readyz root disk).1 := by
  have writable := cacheWritable_iff.mpr ready
  have sameDisk : (readyz root disk).1 = (cacheWritable root disk).1 := by
    rw [readyz]
    generalize cacheWritable root disk = result at writable
    rcases result with ⟨after, ok⟩
    cases writable
    rfl
  rw [sameDisk]
  cases made : disk.createDirAll root with
  | none => simp [cacheWritable, made] at writable
  | some after =>
  cases probed : after.writeFile (System.probePath root) [] with
  | none => simp [cacheWritable, made, probed] at writable
  | some written =>
  simp only [cacheWritable, made, probed]
  have different {ancestor : Path} (above : ancestor <+: root) :
      ancestor ≠ System.probePath root := by
    rintro rfl
    exact not_below_of_above (List.prefix_refl _) above
  have onTheWay (ancestor : Path) (above : ancestor <+: root) :
      written.get? ancestor = some .dir := by
    rw [Tree.get?_writeFile probed, if_neg (different above), Tree.get?_createDirAll made,
      if_pos above]
  cases removed : written.removeFile (System.probePath root) with
  | none =>
      apply ready.of_way (fun ancestor above => Or.inr (onTheWay ancestor above))
      simp [Tree.isDir, Tree.get?_writeFile probed]
  | some left =>
      apply ready.of_way
      · intro ancestor above
        right
        rw [Option.getD_some, Tree.get?_removeFile removed, if_neg (different above),
          onTheWay ancestor above]
      · simp [Tree.isDir, Tree.get?_removeFile removed]

end Ready

/-! ## Operations on mirrors -/

section Mirrors

variable {root init : Path} {disk after : Disk} {last : Text}

theorem not_own_above {child : Text} {ancestor : Path} (above : ancestor <+: root) :
    ¬(root ++ init) ++ [child] <+: ancestor := by
  intro own
  have short := (own.trans above).length_le
  simp only [List.length_append, List.length_singleton] at short
  omega

theorem own_ne_probeName {child : Text} (own : Git.Own last child) (other : last ≠ probeName) :
    child ≠ probeName := by
  have unmarked (mark : Text) (notSuffix : ¬mark <:+ probeName) : last ++ mark ≠ probeName := by
    intro same
    exact notSuffix (same ▸ List.suffix_append last mark)
  rcases own with rfl | rfl | rfl
  · exact other
  · exact unmarked _ (by decide)
  · exact unmarked _ (by decide)

/-- An operation on a mirror whose name begins otherwise does not interfere with the probe. -/
theorem Ready.confined (ready : Ready root disk) (split : (init ++ [last]).head? ≠ some probeName)
    (confined : Git.Confined (root ++ init) last disk after) : Ready root after := by
  apply ready.of_way
  · intro ancestor above
    rcases confined ancestor (fun _ _ => not_own_above above) with same | ⟨_, isDir⟩
    · exact Or.inl same
    · exact Or.inr isDir
  · have outside (child : Text) (own : Git.Own last child) :
        ¬(root ++ init) ++ [child] <+: System.probePath root := by
      rw [probePath_eq, List.append_assoc, List.prefix_append_right_inj]
      cases init with
      | nil =>
          have other : last ≠ probeName := fun same => split (congrArg some same)
          intro above
          exact own_ne_probeName own other (List.cons_prefix_cons.mp above).1
      | cons first others => simp [List.cons_prefix_cons]
    have notAbove : ¬System.probePath root <+: root ++ init := by
      rw [probePath_eq, List.prefix_append_right_inj]
      cases init with
      | nil => simp
      | cons first others =>
          intro above
          have same : probeName = first := (List.cons_prefix_cons.mp above).1
          exact split (congrArg some same.symm)
    rcases confined _ outside with same | ⟨above, _⟩
    · rw [Tree.isDir, same]
      exact ready.free
    · exact absurd above notAbove

/-- The same for a path that is not split into its directory and its last component. -/
theorem Ready.elsewhere (ready : Ready root disk) {comps : Path} (nonempty : comps ≠ [])
    (first : comps.head? ≠ some probeName) :
    ∃ init last, root ++ comps = (root ++ init) ++ [last] ∧
      ∀ after, Git.Confined (root ++ init) last disk after → Ready root after := by
  have split := List.dropLast_concat_getLast nonempty
  refine ⟨comps.dropLast, comps.getLast nonempty, ?_, ?_⟩
  · rw [List.append_assoc, split]
  · intro after confined
    exact ready.confined (by rwa [split]) confined

/-! ### Names that begin with the probe file -/

variable {env : Git.Surroundings} {repo : RepoRef} {cache : Git.GitCache} {rest : Path}
  {fetchTtl : ℕ} {wantFetch : Bool}

theorem Ready.get?_probe (ready : Ready root disk)
    (noFile : disk.isFile (System.probePath root) = false) :
    disk.get? (System.probePath root) = none := by
  have free := ready.free
  cases found : disk.get? (System.probePath root) with
  | none => rfl
  | some node =>
      cases node with
      | dir => simp [Tree.isDir, found] at free
      | file content => simp [Tree.isFile, found] at noFile

theorem Ready.missing (ready : Ready root disk) :
    Git.hasHead disk (System.probePath root ++ rest) = false := by
  rw [Git.hasHead, decide_eq_false_iff_not]
  intro head
  rw [List.append_assoc] at head
  have isDir := Tree.get?_of_below (by simp) head
  have free := ready.free
  simp [Tree.isDir, isDir] at free

/-- Nothing keeps a clone from making directories below a missing probe file. -/
theorem Ready.createDirAll (ready : Ready root disk)
    (noFile : disk.isFile (System.probePath root) = false) :
    ∃ made, disk.createDirAll (System.probePath root ++ rest) = some made := by
  rw [Tree.createDirAll_eq_some_iff]
  intro ancestor above
  rcases List.prefix_or_prefix_of_prefix above (List.prefix_append _ _) with atProbe | ⟨more, rfl⟩
  · rw [probePath_eq] at atProbe
    rcases List.prefix_concat_iff.mp atProbe with rfl | atRoot
    · exact noFile
    · exact ready.way ancestor atRoot
  · simp [Tree.isFile, Tree.get?_eq_none_of_below (ready.get?_probe noFile)]

theorem not_ready_of_isDir (isDir : disk.get? (System.probePath root) = some .dir) :
    ¬Ready root disk := by
  intro ready
  have free := ready.free
  simp [Tree.isDir, isDir] at free

/-- A clone into a place below the probe file makes it a directory, whatever becomes of it. -/
theorem not_ready_of_above (ready : Ready root cache.disk) (steady : env.Steady)
    (placed : repo.cacheDir = (System.probePath root ++ rest) ++ [last])
    (noFile : cache.disk.isFile (System.probePath root) = false) :
    ¬Ready root (Git.GitCache.ensureFresh fetchTtl env repo wantFetch cache).1.disk := by
  have missing : Git.hasHead cache.disk repo.cacheDir = false := by
    rw [placed, List.append_assoc]
    exact ready.missing
  have possible : ∃ made, cache.disk.createDirAll (System.probePath root ++ rest) = some made :=
    ready.createDirAll noFile
  rcases possible with ⟨made, createdAll⟩
  have cloned : Git.Confined (System.probePath root ++ rest) last made
      (Git.GitCache.cloneMirror env repo (cache.touch repo.name)).1.disk :=
    Git.Confined.cloneMirror_of_made placed steady.mkdir createdAll
  have served : Git.Confined (System.probePath root ++ rest) last made
      (Git.GitCache.ensureFresh fetchTtl env repo wantFetch cache).1.disk :=
    cloned.trans (Git.Confined.ensureFresh_of_missing placed missing wantFetch)
  have outside (child : Text) (_ : Git.Own last child) :
      ¬(System.probePath root ++ rest) ++ [child] <+: System.probePath root :=
    not_own_above (List.prefix_refl _)
  apply not_ready_of_isDir
  rcases served _ outside with same | ⟨_, isDir⟩
  · rw [same, Tree.get?_createDirAll createdAll, if_pos (List.prefix_append _ _)]
  · exact isDir

/-- A request whose clone fails changes no more than the clone does. -/
theorem disk_of_failed_clone {error : Git.FreshError} {late : Git.GitCache}
    (missing : Git.hasHead cache.disk repo.cacheDir = false)
    (failed : Git.GitCache.cloneMirror env repo (cache.touch repo.name) = (late, .error error)) :
    (Git.GitCache.ensureFresh fetchTtl env repo wantFetch cache).1 = late := by
  have absent : Git.hasHead (cache.touch repo.name).disk repo.cacheDir = false := missing
  simp only [Git.GitCache.ensureFresh, absent, Bool.false_eq_true, not_false_eq_true, if_true,
    failed]

/-- A regular file in the place of the probe file keeps everything from being made below it. -/
theorem Ready.of_blocked (ready : Ready root cache.disk)
    (placed : repo.cacheDir = (System.probePath root ++ rest) ++ [last])
    (file : cache.disk.isFile (System.probePath root) = true) :
    Ready root (Git.GitCache.ensureFresh fetchTtl env repo wantFetch cache).1.disk := by
  have missing : Git.hasHead cache.disk repo.cacheDir = false := by
    rw [placed, List.append_assoc]
    exact ready.missing
  have blocked : cache.disk.createDirAll (System.probePath root ++ rest) = none := by
    cases createdAll : cache.disk.createDirAll (System.probePath root ++ rest) with
    | none => rfl
    | some made =>
        have way := Tree.createDirAll_eq_some_iff.mp ⟨made, createdAll⟩
        rw [way _ (List.prefix_append _ _)] at file
        cases file
  have failed : Git.GitCache.cloneMirror env repo (cache.touch repo.name) =
      (cache.touch repo.name, .error .createParent) := by
    have sameDisk : (cache.touch repo.name).disk = cache.disk := rfl
    simp only [Git.GitCache.cloneMirror, placed, List.dropLast_concat, sameDisk, blocked]
  rw [disk_of_failed_clone missing failed]
  exact ready

/-- A failed clone in the place of the probe file leaves at most a staging directory. -/
theorem Ready.of_failed_clone {late : Git.GitCache} {error : Git.FreshError}
    (ready : Ready root cache.disk) (placed : repo.cacheDir = root ++ [probeName])
    (failed : Git.GitCache.cloneMirror env repo cache = (late, .error error)) :
    Ready root late.disk := by
  rcases Git.leftovers_of_cloneMirror placed failed with ⟨_, same | ⟨reached, leftovers⟩⟩
  · rwa [same]
  have above := leftovers.above
  rw [placed, List.dropLast_concat] at above
  have outside (path : Path) (staging : ¬root ++ [probeName ++ incomingSuffix] <+: path) :=
    leftovers.outside path (by rwa [placed, Git.stagingDir_concat])
  apply ready.of_way
  · intro ancestor onTheWay
    rw [outside ancestor (not_below_of_above onTheWay)]
    split
    · exact Or.inr rfl
    · exact Or.inl rfl
  · have apart : ¬root ++ [probeName ++ incomingSuffix] <+: System.probePath root := by
      rw [probePath_eq, concat_prefix_concat_iff]
      decide
    have notReached : ¬System.probePath root <+: reached := not_below_of_above above
    rw [Tree.isDir, outside _ apart, if_neg notReached]
    exact ready.free

/-- A clone in the place of the probe file stands in the way once it has succeeded. -/
theorem ready_mirror_iff (ready : Ready root cache.disk) (steady : env.Steady)
    (placed : repo.cacheDir = root ++ [probeName]) :
    Ready root (Git.GitCache.ensureFresh fetchTtl env repo wantFetch cache).1.disk ↔
      ¬(cache.disk.isFile (System.probePath root) = false ∧
        cache.disk.isFile (Git.stagingDir (System.probePath root)) = false ∧
        Git.Delivers env.git) := by
  have sameDisk : (cache.touch repo.name).disk = cache.disk := rfl
  have missing : Git.hasHead cache.disk repo.cacheDir = false := by
    have below : Git.hasHead cache.disk (System.probePath root ++ []) = false := ready.missing
    rwa [List.append_nil, probePath_eq, ← placed] at below
  rcases Tree.createDirAll_eq_some_iff.mpr ready.way with ⟨made, createdAll⟩
  have succeeds : (Git.GitCache.cloneMirror env repo (cache.touch repo.name)).2 = .ok () ↔ _ :=
    Git.cloneMirror_ok_iff placed steady createdAll
  rw [sameDisk, ← probePath_eq] at succeeds
  cases cloned : Git.GitCache.cloneMirror env repo (cache.touch repo.name) with
  | mk late result =>
  cases result with
  | error error =>
      have touched : Ready root (cache.touch repo.name).disk := ready
      have kept := touched.of_failed_clone placed cloned
      rw [disk_of_failed_clone missing cloned]
      refine iff_of_true kept ?_
      rintro ⟨noFile, clear, delivers⟩
      have free : cache.disk.occupied (System.probePath root) = false := by
        rw [Tree.occupied, ready.get?_probe noFile]
      rw [cloned] at succeeds
      exact absurd (succeeds.mpr ⟨delivers, clear, free⟩) (by simp)
  | ok _ =>
      have ok : (Git.GitCache.cloneMirror env repo (cache.touch repo.name)).2 = .ok () := by
        rw [cloned]
      rcases succeeds.mp ok with ⟨delivers, clear, free⟩
      have noFile : cache.disk.isFile (System.probePath root) = false := by
        by_contra file
        rw [Bool.not_eq_false] at file
        rw [Tree.occupied_of_file file] at free
        cases free
      refine iff_of_false ?_ (fun blocked => blocked ⟨noFile, clear, delivers⟩)
      have installed := Git.get?_of_cloneMirror placed steady ok
      rw [cloned, ← probePath_eq] at installed
      apply not_ready_of_isDir
      have absent : Git.hasHead (cache.touch repo.name).disk repo.cacheDir = false := missing
      simp only [Git.GitCache.ensureFresh, absent, Bool.false_eq_true, not_false_eq_true, if_true,
        cloned]
      have atProbe : repo.cacheDir = System.probePath root := placed
      rw [← atProbe] at installed ⊢
      exact Git.get?_of_ensureWantedOids (by rw [placed]; simp) installed

end Mirrors

/-! ## Downloads and evictions -/

section Objects

variable {process : Process} {disk after : Disk} {op : Lfs.Op} {oid : Text}

theorem valid_of_mem_downloadOps {n : ℕ} {download : Download} (valid : validLfsOid oid = true) :
    ∀ op ∈ downloadOps process oid n download, op.Valid := by
  intro op opMem
  simp only [downloadOps, List.cons_append, List.mem_cons, List.mem_append, List.mem_map] at opMem
  rcases opMem with rfl | ⟨chunk, _, rfl⟩ | opMem
  · trivial
  · trivial
  · split at opMem
    · simp only [List.mem_cons, List.not_mem_nil, or_false] at opMem
      rcases opMem with rfl | rfl
      · exact valid
      · exact valid
    · rw [List.mem_singleton.mp opMem]
      trivial

theorem get?_perform_above {root ancestor : Path} {pid : ℕ} (above : ancestor <+: root)
    (valid : op.Valid) (performed : op.perform root pid disk = some after) :
    after.get? ancestor = disk.get? ancestor ∨ after.get? ancestor = some .dir := by
  have notTemp (n : ℕ) : ¬Lfs.tmpPath root pid n <+: ancestor := by
    rw [Lfs.tmpPath_eq]
    exact not_below_of_above above
  have untouched (apart : ¬op.Touches root pid ancestor) :
      after.get? ancestor = disk.get? ancestor ∨ after.get? ancestor = some .dir :=
    Or.inl (Lfs.Op.get?_perform performed apart)
  have made {path : Path} (createdAll : disk.createDirAll path = some after) :
      after.get? ancestor = disk.get? ancestor ∨ after.get? ancestor = some .dir := by
    rw [Tree.get?_createDirAll createdAll]
    split
    · exact Or.inr rfl
    · exact Or.inl rfl
  cases op with
  | makeIncoming done => exact made performed
  | makeShard oid done => exact made performed
  | create n => exact untouched fun same => notTemp n (same ▸ List.prefix_refl _)
  | append n chunk => exact untouched fun same => notTemp n (same ▸ List.prefix_refl _)
  | unlink n => exact untouched fun same => notTemp n (same ▸ List.prefix_refl _)
  | store n oid =>
      apply untouched
      rintro (below | below)
      · rw [lfsObjectPath_eq valid] at below
        exact not_below_of_above above below
      · exact notTemp n below

theorem Ready.perform (ready : Ready process.st.cacheRoot disk) (valid : op.Valid)
    (performed : op.perform process.st.cacheRoot process.pid disk = some after) :
    Ready process.st.cacheRoot after := by
  have beside : BesideStore process.st.cacheRoot (System.probePath process.st.cacheRoot) :=
    ⟨probeName, [], rfl, by decide⟩
  apply ready.of_way
  · intro ancestor above
    exact get?_perform_above above valid performed
  · rw [Tree.isDir, Lfs.Op.get?_perform performed (Lfs.Op.not_touches_beside valid beside)]
    exact ready.free

theorem Ready.performAll (ready : Ready process.st.cacheRoot disk) (ops : List Lfs.Op)
    (valid : ∀ op ∈ ops, op.Valid) :
    Ready process.st.cacheRoot (performAll process ops disk).1 := by
  induction ops generalizing disk with
  | nil => exact ready
  | cons op ops ih =>
      rw [List.forall_mem_cons] at valid
      rw [Http.performAll]
      cases performed : op.perform process.st.cacheRoot process.pid disk with
      | none => exact ready
      | some after => exact ih (ready.perform valid.1 performed) valid.2

theorem Ready.ensureObject {proxy : Proxy} (ready : Ready process.st.cacheRoot proxy.cache.disk)
    (valid : validLfsOid oid = true) (size : Option ℕ) (download : Download) :
    Ready process.st.cacheRoot (ensureObject process oid size download proxy).cache.disk := by
  unfold Http.ensureObject
  split
  · exact ready
  split
  · exact ready
  simp only [fetchObject]
  split
  · exact ready
  split
  · exact ready
  · rename_i made performed
    have incoming : Ready process.st.cacheRoot made := ready.perform (by trivial) performed
    exact incoming.performAll _ (valid_of_mem_downloadOps valid)

theorem Ready.evictObject (ready : Ready process.st.cacheRoot disk)
    (valid : validLfsOid oid = true) :
    Ready process.st.cacheRoot
      ((disk.removeFile (lfsObjectPath process.st.cacheRoot oid)).getD disk) := by
  have notAbove {ancestor : Path} (above : ancestor <+: process.st.cacheRoot) :
      ancestor ≠ lfsObjectPath process.st.cacheRoot oid := by
    rw [lfsObjectPath_eq valid]
    rintro rfl
    exact not_below_of_above (List.prefix_refl _) above
  have notProbe : System.probePath process.st.cacheRoot ≠
      lfsObjectPath process.st.cacheRoot oid := by
    rw [lfsObjectPath_eq valid]
    intro same
    have short := congrArg List.length same
    simp [System.probePath] at short
  cases removed : disk.removeFile (lfsObjectPath process.st.cacheRoot oid) with
  | none => exact ready
  | some after =>
      apply ready.of_way
      · intro ancestor above
        rw [Option.getD_some, Tree.get?_removeFile removed, if_neg (notAbove above)]
        exact Or.inl rfl
      · rw [Option.getD_some, Tree.isDir, Tree.get?_removeFile removed, if_neg notProbe]
        exact ready.free

end Objects

/-! ## Runs -/

section Runs

variable {process : Process} {proxy : Proxy}

theorem Crowds.head? {root comps : Path} {disk : Disk} {git : ℕ → Git.Attempt}
    (crowds : Crowds root disk git comps) : comps.head? = some probeName := by
  cases crowds with
  | above child rest noFile => rfl
  | mirror noFile clear delivers => rfl

/-- A git request leaves the proxy ready unless it crowds the probe file out. -/
theorem ready_ensureFresh_iff (ready : Ready process.st.cacheRoot proxy.cache.disk)
    {repo : RepoRef} {env : Git.Surroundings} (steady : env.Steady) (wantFetch : Bool)
    (resolved : resolve repo.name process.st.upstreamBase process.st.cacheRoot = .ok repo) :
    Ready process.st.cacheRoot (ensureFresh process env repo wantFetch proxy).cache.disk ↔
      ¬Crowds process.st.cacheRoot proxy.cache.disk env.git (repo.name.splitOn '/') := by
  have placed : repo.cacheDir = process.st.cacheRoot ++ repo.name.splitOn '/' :=
    congrArg RepoRef.cacheDir (resolve_eq_ok_iff.mp resolved).2
  have nonempty : repo.name.splitOn '/' ≠ [] := List.splitOn_ne_nil _ _
  generalize repo.name.splitOn '/' = comps at placed nonempty
  by_cases first : comps.head? = some probeName
  · cases comps with
    | nil => cases first
    | cons head rest =>
    rw [List.head?_cons, Option.some.injEq] at first
    subst first
    cases rest with
    | nil =>
        refine (ready_mirror_iff ready steady placed).trans (not_congr ?_)
        constructor
        · rintro ⟨noFile, clear, delivers⟩
          exact .mirror noFile clear delivers
        · rintro (_ | ⟨noFile, clear, delivers⟩)
          exact ⟨noFile, clear, delivers⟩
    | cons child rest =>
        have split := List.dropLast_concat_getLast (List.cons_ne_nil child rest)
        have below : repo.cacheDir =
            (System.probePath process.st.cacheRoot ++ (child :: rest).dropLast) ++
              [(child :: rest).getLast (List.cons_ne_nil child rest)] := by
          rw [List.append_assoc, split, placed, probePath_eq]
          simp
        cases file : proxy.cache.disk.isFile (System.probePath process.st.cacheRoot) with
        | true =>
            refine iff_of_true (ready.of_blocked below file) ?_
            intro crowds
            cases crowds with
            | above _ _ noFile =>
                rw [noFile] at file
                cases file
        | false =>
            exact iff_of_false (not_ready_of_above ready steady below file)
              fun notCrowds => notCrowds (.above child rest file)
  · rcases ready.elsewhere nonempty first with ⟨init, last, split, stays⟩
    refine iff_of_true (stays _ ?_) fun crowds => first crowds.head?
    exact Git.Confined.ensureFresh (placed.trans split) steady.mkdir wantFetch

theorem steady_withoutWants {env : Git.Surroundings} (steady : env.Steady) :
    Git.Surroundings.Steady { env with wants := none } :=
  ⟨steady.mkdir, steady.rename, steady.sweeps⟩

theorem Ready.evictMirror (ready : Ready process.st.cacheRoot proxy.cache.disk)
    (repo : Resolved process.st.upstreamBase process.st.cacheRoot) :
    Ready process.st.cacheRoot
      (Git.GitCache.evict none none false repo.cacheDir proxy.cache).1.disk := by
  have placed : repo.cacheDir = process.st.cacheRoot ++ repo.name.splitOn '/' :=
    congrArg RepoRef.cacheDir (resolve_eq_ok_iff.mp repo.resolved).2
  have nonempty : repo.name.splitOn '/' ≠ [] := List.splitOn_ne_nil _ _
  generalize repo.name.splitOn '/' = comps at placed nonempty
  by_cases first : comps.head? = some probeName
  · rcases List.head?_eq_some_iff.mp first with ⟨rest, rfl⟩
    have missing : Git.hasHead proxy.cache.disk repo.cacheDir = false := by
      have below : repo.cacheDir = System.probePath process.st.cacheRoot ++ rest := by
        rw [placed, probePath_eq, List.append_assoc, List.singleton_append]
      rw [below]
      exact ready.missing
    simpa [Git.GitCache.evict, missing] using ready
  · rcases ready.elsewhere nonempty first with ⟨init, last, split, stays⟩
    exact stays _ (Git.Confined.evict (placed.trans split) none none false)

theorem obstructs_iff {disk : Disk} {request : Request} {upstream : Upstream} {repo : RepoRef}
    (asks : AsksFor process request repo) :
    Obstructs process disk (.request request upstream) ↔
      Crowds process.st.cacheRoot disk upstream.env.git (repo.name.splitOn '/') := by
  constructor
  · rintro ⟨_, _, other, asksOther, crowds⟩
    have same : other = repo := by
      rcases asks with ⟨_, dispatched⟩ | ⟨_, _, dispatched⟩
      · rcases asksOther with ⟨_, dispatchedOther⟩ | ⟨_, _, dispatchedOther⟩
        · simp_all
        · simp_all
      · rcases asksOther with ⟨_, dispatchedOther⟩ | ⟨_, _, dispatchedOther⟩
        · simp_all
        · simp_all
    rwa [same] at crowds
  · exact .request request upstream repo asks

theorem not_obstructs {disk : Disk} {request : Request} {upstream : Upstream}
    (asksNot : ∀ repo, ¬AsksFor process request repo) :
    ¬Obstructs process disk (.request request upstream) := by
  rintro ⟨_, _, repo, asks, _⟩
  exact asksNot repo asks

theorem ready_step_iff (ready : Ready process.st.cacheRoot proxy.cache.disk)
    (event : Event process) :
    Ready process.st.cacheRoot (step process proxy event).cache.disk ↔
      ¬Obstructs process proxy.cache.disk event := by
  cases event with
  | probe =>
      refine iff_of_true ready.probed ?_
      rintro ⟨⟩
  | evictObject oid valid =>
      refine iff_of_true (ready.evictObject valid) ?_
      rintro ⟨⟩
  | evictMirror repo =>
      refine iff_of_true (ready.evictMirror repo) ?_
      rintro ⟨⟩
  | request request upstream =>
      have outcome : Outcome process.crates process.st request
        (handleGit process.crates process.st request) := handleGit_outcome
      simp only [step, serve]
      cases dispatched : handleGit process.crates process.st request with
      | answer response =>
          exact iff_of_true ready (not_obstructs fun repo => by simp [AsksFor, dispatched])
      | infoRefs repo gitProtocol =>
          rw [obstructs_iff (Or.inl ⟨gitProtocol, dispatched⟩)]
          rw [dispatched] at outcome
          cases outcome with
          | infoRefs _ _ resolved =>
              exact ready_ensureFresh_iff ready (steady_withoutWants upstream.steady) true resolved
      | uploadPack repo gitProtocol body =>
          rw [obstructs_iff (Or.inr ⟨gitProtocol, body, dispatched⟩)]
          rw [dispatched] at outcome
          cases outcome with
          | uploadPack _ _ _ resolved =>
              exact ready_ensureFresh_iff ready upstream.steady false resolved
      | lfsBatch name body advertise =>
          exact iff_of_true ready (not_obstructs fun repo => by simp [AsksFor, dispatched])
      | lfsObject repoName oid size =>
          rw [dispatched] at outcome
          cases outcome with
          | lfsObject _ _ admitted get endpoint =>
              have valid := (of_lfsObjectFromPath endpoint).1
              exact iff_of_true (ready.ensureObject valid _ upstream.download)
                (not_obstructs fun repo => by simp [AsksFor, dispatched])

theorem Ready.run (ready : Ready process.st.cacheRoot proxy.cache.disk)
    (events : List (Event process))
    (clear : ∀ before event after, events = before ++ event :: after →
      ¬Obstructs process (run process proxy before).cache.disk event) :
    Ready process.st.cacheRoot (run process proxy events).cache.disk := by
  induction events generalizing proxy with
  | nil => exact ready
  | cons event events ih =>
      have stepped : Ready process.st.cacheRoot (step process proxy event).cache.disk :=
        (ready_step_iff ready event).mpr (clear [] event events rfl)
      apply ih stepped
      rintro before later after rfl
      exact clear (event :: before) later after rfl

/-- The probe succeeds all the way through a run if and only if no request in it obstructs. -/
theorem readyz_ok_throughout_iff (process : Process) (proxy : Proxy)
    (writable : (readyz process.st.cacheRoot proxy.cache.disk).2.status = .ok)
    (events : List (Event process)) :
    (∀ before after, events = before ++ after →
      (readyz process.st.cacheRoot (run process proxy before).cache.disk).2.status = .ok) ↔
    ∀ before event after, events = before ++ event :: after →
      ¬Obstructs process (run process proxy before).cache.disk event := by
  have ready := readyz_ok_iff.mp writable
  simp only [readyz_ok_iff]
  constructor
  · rintro throughout before event after rfl
    have now := throughout before (event :: after) rfl
    have next := throughout (before ++ [event]) after (by simp)
    rw [run, List.foldl_append, ← run] at next
    exact (ready_step_iff now event).mp next
  · rintro clear before after rfl
    apply ready.run
    rintro earlier event later rfl
    exact clear earlier event (later ++ after) (by simp)

end Runs

section Team

/-- A clone that the upstream turns down. -/
def refused : Upstream where
  env := Git.calm { Git.smooth with status := ⟨some 128⟩, complete := fun _ => rfl }
  steady := ⟨rfl, rfl, fun _ => ⟨rfl, rfl⟩⟩
  download := ⟨false, [], false⟩

def teamProcess : Process := ⟨teamProxy, plainCrates, 60, 7, fun _ => []⟩

def emptyProxy : Proxy := ⟨coldMoment.cache, 0⟩

def infoRefsOf (name : Text) : Request where
  method := .get
  path := '/' :: name ++ "/info/refs".toList
  query := "service=git-upload-pack".toList
  headers _ := none
  body := some []

def harmless : Event teamProcess := .request (infoRefsOf "group/repo.git".toList) refused

/-- A failed clone of another repository is harmless. -/
theorem readyz_ok_throughout_harmless :
    (readyz teamProcess.st.cacheRoot (run teamProcess emptyProxy [harmless]).cache.disk).2.status =
      .ok := by
  apply (readyz_ok_throughout_iff teamProcess emptyProxy (by decide) [harmless]).mpr _ _ [] rfl
  intro before event after same
  rcases List.append_eq_singleton_iff.mp same.symm with ⟨rfl, only⟩ | ⟨_, impossible⟩
  · cases only
    have asks : AsksFor teamProcess (infoRefsOf "group/repo.git".toList)
        ⟨"group/repo.git".toList, "https://up/team/group/repo.git".toList,
          ["cache".toList, "group".toList, "repo.git".toList]⟩ := Or.inl ⟨none, by decide⟩
    rw [harmless, obstructs_iff asks]
    intro crowds
    exact absurd crowds.head? (by decide)
  · cases impossible

def crowding : Event teamProcess := .request (infoRefsOf ".readyz-probe/x".toList) refused

/-- One request for a repository that does not exist. -/
theorem not_readyz_ok_crowding :
    (readyz teamProcess.st.cacheRoot emptyProxy.cache.disk).2.status = .ok ∧
      ¬∀ before after, [crowding] = before ++ after →
        (readyz teamProcess.st.cacheRoot
          (run teamProcess emptyProxy before).cache.disk).2.status = .ok := by
  refine ⟨by decide, ?_⟩
  intro throughout
  have later := throughout [crowding] [] rfl
  revert later
  decide +kernel

end Team

end GitCacheProxy.Http
