import GitCacheProxy.Git.Upstream
import GitCacheProxy.Index.Basic

/-!
# Keeping a mirror fresh

`ensure_fresh`, `clone_mirror`, `fetch` and `evict` as functions on the disk, the
stamps of the last pulls and the eviction index.  One call runs to its end here,
under the lock of its repository; the interleaving of many calls is the subject
of `Git.Machine`.

What the operating system, the clock and the `git` processes contribute to a
call is an argument (`Surroundings`), so that two calls can be compared under
the same circumstances.
-/

namespace GitCacheProxy.Git

open Repo

/-- The marker of an initialised mirror. -/
def headFile : Text := "HEAD".toList

/-- `repo.cache_dir.join("HEAD").exists()` -/
def hasHead (disk : Disk) (cacheDir : Path) : Bool := decide (disk.Exists (cacheDir ++ [headFile]))

/-- The staging directory of a clone. -/
def stagingDir (cacheDir : Path) : Path := pushSuffix cacheDir incomingSuffix

/-- The trash directory of an eviction. -/
def trashDir (cacheDir : Path) : Path := pushSuffix cacheDir evictingSuffix

/-! The marker of a mirror is in no staging directory and in no trash directory. -/

theorem not_staging_above_head {upstreamBase : Text} {root : Path} {a b : RepoRef}
    (resolvedA : resolve a.name upstreamBase root = .ok a)
    (resolvedB : resolve b.name upstreamBase root = .ok b) :
    ¬stagingDir b.cacheDir <+: a.cacheDir ++ [headFile] :=
  not_reserved_above resolvedA resolvedB (Or.inl rfl) (by decide)

theorem not_trash_above_head {upstreamBase : Text} {root : Path} {a b : RepoRef}
    (resolvedA : resolve a.name upstreamBase root = .ok a)
    (resolvedB : resolve b.name upstreamBase root = .ok b) :
    ¬trashDir b.cacheDir <+: a.cacheDir ++ [headFile] :=
  not_reserved_above resolvedA resolvedB (Or.inr rfl) (by decide)

structure GitCache where
  disk : Disk
  last : Text → Option ℕ
  index : Option Index.CacheIndex

inductive CacheOutcome where
  | cloned
  | fetched
  | cached
  deriving DecidableEq

inductive FreshError where
  | createParent
  | upstream (error : UpstreamError)
  | rename
  deriving DecidableEq

/-- What a call meets with: clock readings, failures of single calls, and the rounds of git. -/
structure Surroundings where
  started : ℕ
  /-- the clock when the age of the last pull is looked at -/
  decided : ℕ
  /-- an I/O error of `create_dir_all` after that many components -/
  mkdirFailure : Option ℕ
  git : ℕ → Attempt
  renameFails : Bool
  /-- what `ensure_wanted_oids` makes of the mirror, if it changes it -/
  wants : Option Disk

namespace GitCache

/-- `mark_changed`, and the notification that goes with it. -/
def markChanged (cache : GitCache) (name : Text) : GitCache :=
  { cache with index := cache.index.map fun index => (index.markChanged name).notifyOne }

def touch (cache : GitCache) (name : Text) : GitCache :=
  { cache with index := cache.index.map fun index => index.touch name }

def cloneMirror (env : Surroundings) (repo : RepoRef) (cache : GitCache) :
    GitCache × Except FreshError Unit :=
  let parent := repo.cacheDir.dropLast
  match cache.disk.createDirAll parent with
  | none => (cache, .error .createParent)
  | some made =>
      match env.mkdirFailure with
      | some done =>
          let partly := (cache.disk.createDirAll (parent.take done)).getD cache.disk
          ({ cache with disk := partly }, .error .createParent)
      | none =>
          let tmp := stagingDir repo.cacheDir
          match runUpstream "clone".toList repo.name tmp true env.git made with
          | (disk, .error error) => ({ cache with disk := disk }, .error (.upstream error))
          | (disk, .ok ()) =>
              match if env.renameFails then none else disk.rename tmp repo.cacheDir with
              | none => ({ cache with disk := disk }, .error .rename)
              | some disk => ({ cache with disk := disk }.markChanged repo.name, .ok ())

def fetch (env : Surroundings) (repo : RepoRef) (cache : GitCache) :
    GitCache × Except FreshError Unit :=
  match runUpstream "fetch".toList repo.name repo.cacheDir false env.git cache.disk with
  | (disk, .error error) => ({ cache with disk := disk }, .error (.upstream error))
  | (disk, .ok ()) => ({ cache with disk := disk }.markChanged repo.name, .ok ())

/-- Best-effort: whatever comes of the wants, the request goes on. -/
def ensureWantedOids (env : Surroundings) (repo : RepoRef) (cache : GitCache) : GitCache :=
  match env.wants with
  | none => cache
  | some mirror =>
      { cache with disk := cache.disk.graft repo.cacheDir mirror }.markChanged repo.name

/-- Whether the last pull is too old to serve from. -/
def isStale (fetchTtl decided : ℕ) : Option ℕ → Bool
  | none => true
  | some stamp => decide (fetchTtl = 0 ∨ fetchTtl ≤ decided - stamp)

def ensureFresh (fetchTtl : ℕ) (env : Surroundings) (repo : RepoRef) (wantFetch : Bool)
    (cache : GitCache) : GitCache × Except FreshError CacheOutcome :=
  let cache := cache.touch repo.name
  if ¬hasHead cache.disk repo.cacheDir then
    match cloneMirror env repo cache with
    | (cache, .error error) => (cache, .error error)
    | (cache, .ok ()) =>
        let stamped := { cache with last := Function.update cache.last repo.name env.started }
        (ensureWantedOids env repo stamped, .ok .cloned)
  else if wantFetch && isStale fetchTtl env.decided (cache.last repo.name) then
    match fetch env repo cache with
    | (cache, .error error) => (cache, .error error)
    | (cache, .ok ()) =>
        let stamped := { cache with last := Function.update cache.last repo.name env.started }
        (ensureWantedOids env repo stamped, .ok .fetched)
  else (ensureWantedOids env repo cache, .ok .cached)

/-- What `remove_dir_all` makes of a trash directory when its result is ignored. -/
def discard (disk : Disk) (trash : Path) (failure : Option Disk) : Disk :=
  (cleanStaging disk trash failure).1

/-- `evict`; `before` and `after` are failures of the two removals. -/
def evict (before after : Option Disk) (renameFails : Bool) (cacheDir : Path)
    (cache : GitCache) : GitCache × Except FreshError Unit :=
  if ¬hasHead cache.disk cacheDir then (cache, .ok ())
  else
    let trash := trashDir cacheDir
    let disk := discard cache.disk trash before
    match if renameFails then none else disk.rename cacheDir trash with
    | none => ({ cache with disk := disk }, .error .rename)
    | some disk => ({ cache with disk := discard disk trash after }, .ok ())

end GitCache

end GitCacheProxy.Git
