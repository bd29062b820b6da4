import GitCacheProxy.Foundation.Tally
import GitCacheProxy.Git.FailedClone
import GitCacheProxy.Http.Routes
import GitCacheProxy.Lfs.Download
import GitCacheProxy.Lfs.Machine

/-!
# What the metrics say

Every request leaves samples behind: one of its own, and those of the pulls and lookups that it
makes.  The names of repositories come from clients, so a name may become a label only once
something has succeeded for it; everything else is counted under a dash.  Then clients cannot
inflate the number of series by asking for what does not exist (`Metered.series`).  The counters
are also consistent with each other whenever they are read (`Metered.leads`).

The counters of requests that are served at the same time do not depend on the order in which
they are increased, so a run is known up to a permutation of its samples.
-/

namespace GitCacheProxy.Http

open Repo

/-! ## Samples -/

inductive RequestKind where
  | infoRefs
  | uploadPack
  | auth
  | receivePack
  | lfsBatch
  | lfsObject
  deriving DecidableEq

/-- The `Status` of the metrics. -/
inductive Result where
  | ok
  | error
  | upstreamError
  | unauthorized
  | rejected
  deriving DecidableEq

inductive UpstreamOp where
  | clone
  | fetch
  | wantFetch
  deriving DecidableEq

inductive ServeKind where
  | infoRefs
  | uploadPack
  deriving DecidableEq

inductive LfsResult where
  | hit
  | miss
  | error
  deriving DecidableEq

/-- An increment of a counter or an observation of a histogram, with its labels. -/
inductive Sample where
  | request (kind : RequestKind) (result : Result) (repo : Text)
  | upstream (op : UpstreamOp) (result : Result) (repo : Text)
  | cacheOutcome (outcome : Git.CacheOutcome)
  | lfs (result : LfsResult)
  | upstreamDuration (op : UpstreamOp) (repo : Text)
  | serveDuration (kind : ServeKind) (repo : Text)
  deriving DecidableEq

/-- The label of everything that has not succeeded for a repository. -/
def dash : Text := "-".toList

/-! ## The samples of a pull -/

/-- `clone_mirror` and `fetch`: only an error of the command itself is counted. -/
def pullSamples (op : UpstreamOp) (name : Text) : Except Git.FreshError Unit → List Sample
  | .ok () => [.upstream op .ok name, .upstreamDuration op name]
  | .error (.upstream _) => [.upstream op .error dash]
  | .error .createParent | .error .rename => []

section Pulls

variable (env : Git.Surroundings) (refused : Bool) (name : Text)

/-- `ensure_wanted_oids`; `refused` if the upstream does not have the wanted objects. -/
def wantSamples : List Sample :=
  match env.wants with
  | some _ => [.upstream .wantFetch .ok name, .upstreamDuration .wantFetch name]
  | none => if refused then [.upstream .wantFetch .error dash] else []

/-- The samples of a pull, and of the wants if it succeeds. -/
def thenWants (op : UpstreamOp) (pulled : Except Git.FreshError Unit) : List Sample :=
  pullSamples op name pulled ++
    match pulled with
    | .ok () => wantSamples env refused name
    | .error _ => []

/-- `ensure_fresh` -/
def freshSamples (fetchTtl : ℕ) (repo : RepoRef) (wantFetch : Bool) (cache : Git.GitCache) :
    List Sample :=
  let cache := cache.touch repo.name
  if ¬Git.hasHead cache.disk repo.cacheDir then
    thenWants env refused repo.name .clone (Git.GitCache.cloneMirror env repo cache).2
  else if wantFetch && Git.GitCache.isStale fetchTtl env.decided (cache.last repo.name) then
    thenWants env refused repo.name .fetch (Git.GitCache.fetch env repo cache).2
  else wantSamples env refused repo.name

end Pulls

/-! ## The handlers -/

/-- What a request meets with in the caches. -/
structure Encounter where
  fetchTtl : ℕ
  /-- when `ensure_fresh` has the lock of the repository -/
  cache : Git.GitCache
  env : Git.Surroundings
  /-- the upstream does not have the wanted objects that the mirror lacks -/
  refused : Bool
  /-- `advertise_refs` or `upload_pack_rpc` succeeds -/
  serves : Bool
  /-- `Lfs::batch` succeeds -/
  batches : Bool
  /-- the result of `ensure_object` -/
  object : Option Lfs.Outcome
  /-- the object can be opened -/
  opens : Bool

/-- A status code, and the text if it is an error. -/
structure Reply where
  code : ℕ
  text : Option Text
  deriving DecidableEq

def Status.code : Status → ℕ
  | ok => 200
  | badRequest => 400
  | unauthorized => 401
  | forbidden => 403
  | notFound => 404
  | serviceUnavailable => 503

def Response.reply (response : Response) : Reply := ⟨response.status.code, some response.body⟩

def served : Reply := ⟨200, none⟩

def failed (code : ℕ) (msg : String) : Reply := ⟨code, some (msg.toList ++ ['\n'])⟩

namespace Encounter

variable (now : Encounter)

/-- `ensure_fresh` for this request, and its samples. -/
def freshened (repo : RepoRef) (wantFetch : Bool) : Except Git.FreshError Git.CacheOutcome :=
  (Git.GitCache.ensureFresh now.fetchTtl now.env repo wantFetch now.cache).2

def pulls (repo : RepoRef) (wantFetch : Bool) : List Sample :=
  freshSamples now.env now.refused now.fetchTtl repo wantFetch now.cache

/-- With an empty body, which wants nothing. -/
def unwanting : Encounter := { now with env := { now.env with wants := none }, refused := false }

/-- `info_refs`, once the repository is resolved. -/
def infoRefs (repo : RepoRef) : Reply × List Sample :=
  let pulls := now.unwanting.pulls repo true
  match now.unwanting.freshened repo true with
  | .error _ =>
      (failed 502 "upstream fetch failed", pulls ++ [.request .infoRefs .upstreamError dash])
  | .ok outcome =>
      if now.serves then
        (served, pulls ++ [.cacheOutcome outcome, .serveDuration .infoRefs repo.name,
          .request .infoRefs .ok repo.name])
      else
        (failed 500 "advertise-refs failed",
          pulls ++ [.cacheOutcome outcome, .request .infoRefs .error dash])

/-- `upload_pack`, and the end of the stream, which is recorded too if the client hangs up. -/
def uploadPack (repo : RepoRef) : Reply × List Sample :=
  let pulls := now.pulls repo false
  match now.freshened repo false with
  | .error _ =>
      (failed 502 "upstream unavailable", pulls ++ [.request .uploadPack .upstreamError dash])
  | .ok _ =>
      if now.serves then
        (served, pulls ++ [.request .uploadPack .ok repo.name,
          .serveDuration .uploadPack repo.name])
      else (failed 500 "upload-pack failed", pulls ++ [.request .uploadPack .error dash])

/-- `lfs_batch`, once the request is known to be no upload. -/
def lfsBatch (name : Text) : Reply × List Sample :=
  if now.batches then (served, [.request .lfsBatch .ok name])
  else (failed 502 "upstream lfs batch failed", [.request .lfsBatch .upstreamError dash])

def lfsObject : Reply × List Sample :=
  match now.object with
  | none =>
      (failed 502 "upstream lfs object fetch failed",
        [.lfs .error, .request .lfsObject .upstreamError dash])
  | some outcome =>
      let lookup : Sample := .lfs (match outcome with
        | .hit => .hit
        | .miss => .miss)
      if now.opens then (served, [lookup, .request .lfsObject .ok dash])
      else (failed 500 "serve lfs object failed", [lookup, .request .lfsObject .error dash])

end Encounter

section Handlers

variable (crates : Crates) (st : AppState) (request : Request) (now : Encounter)

/-- A request and everything that is recorded on its way. -/
def handle : Reply × List Sample :=
  let path := request.path
  let query := request.query
  match checkAuth st.serveToken request.headers with
  | some response => (response.reply, [.request .auth .unauthorized dash])
  | none =>
  if "/git-receive-pack".toList <:+ path ∨ "service=git-receive-pack".toList <:+: query then
    ((err .forbidden "read-only proxy: pushes are not allowed".toList).reply,
      [.request .receivePack .rejected dash])
  else if request.method = .get ∧ "/info/refs".toList <:+ path then
    if ¬"service=git-upload-pack".toList <:+: query then
      ((err .badRequest "only smart-http git-upload-pack is supported".toList).reply,
        [.request .infoRefs .error dash])
    else
      match resolvePath crates st path "/info/refs".toList with
      | .error response => (response.reply, [.request .infoRefs .error dash])
      | .ok repo => now.infoRefs repo
  else if request.method = .post ∧ "/git-upload-pack".toList <:+ path then
    match request.body with
    | none => ((err .badRequest "failed to read request body".toList).reply, [])
    | some body =>
        let contentEncoding := headerText request.headers "content-encoding".toList
        match decodeBody crates.gunzip contentEncoding body st.maxDecodedBody with
        | .error _ => ((err .badRequest "failed to decode request body".toList).reply, [])
        | .ok _ =>
            match resolvePath crates st path "/git-upload-pack".toList with
            | .error response => (response.reply, [.request .uploadPack .error dash])
            | .ok repo => now.uploadPack repo
  else if request.method = .post ∧ lfsBatchSuffix <:+ path then
    match request.body with
    | none => ((err .badRequest "failed to read request body".toList).reply, [])
    | some body =>
        match lfsBatchRepo path with
        | none =>
            ((err .notFound "bad lfs batch path".toList).reply, [.request .lfsBatch .error dash])
        | some name =>
            if isLfsUpload crates.parseJson body then
              ((err .forbidden "read-only proxy: lfs upload is not allowed".toList).reply,
                [.request .lfsBatch .rejected dash])
            else now.lfsBatch name
  else
    match if request.method = .get then lfsObjectFromPath path else none with
    | some _ => now.lfsObject
    | none => ((err .notFound "not a git smart-http endpoint".toList).reply, [])

end Handlers

/-! ## What becomes of one request -/

/-- The samples that carry no name. -/
def anonymous : List Sample := [
  .request .auth .unauthorized dash, .request .receivePack .rejected dash,
  .request .infoRefs .error dash, .request .infoRefs .upstreamError dash,
  .request .uploadPack .error dash, .request .uploadPack .upstreamError dash,
  .request .lfsBatch .error dash, .request .lfsBatch .rejected dash,
  .request .lfsBatch .upstreamError dash, .request .lfsObject .ok dash,
  .request .lfsObject .error dash, .request .lfsObject .upstreamError dash,
  .upstream .clone .error dash, .upstream .fetch .error dash, .upstream .wantFetch .error dash,
  .cacheOutcome .cloned, .cacheOutcome .fetched, .cacheOutcome .cached,
  .lfs .hit, .lfs .miss, .lfs .error]

/-- The samples that a repository may have in its name. -/
def named (name : Text) : List Sample := [
  .request .infoRefs .ok name, .request .uploadPack .ok name, .request .lfsBatch .ok name,
  .upstream .clone .ok name, .upstream .fetch .ok name, .upstream .wantFetch .ok name,
  .upstreamDuration .clone name, .upstreamDuration .fetch name, .upstreamDuration .wantFetch name,
  .serveDuration .infoRefs name, .serveDuration .uploadPack name]

namespace Sample

/-- The name among the labels. -/
def repo : Sample → Option Text
  | request _ _ repo | upstream _ _ repo | upstreamDuration _ repo | serveDuration _ repo =>
      some repo
  | cacheOutcome _ | lfs _ => none

@[simp]
def isRequest : Sample → Bool
  | request _ _ _ => true
  | _ => false

@[simp]
def isOk : Sample → Bool
  | request _ .ok _ => true
  | _ => false

/-- A pull that succeeded, whatever the name. -/
@[simp]
def isPull (op : UpstreamOp) : Sample → Bool
  | upstream done .ok _ => decide (done = op)
  | _ => false

@[simp]
def isOutcome : Sample → Bool
  | cacheOutcome _ => true
  | _ => false

@[simp]
def isAdvertised : Sample → Bool
  | serveDuration .infoRefs _ => true
  | _ => false

@[simp]
def isLfs : Sample → Bool
  | lfs _ => true
  | _ => false

@[simp]
def isLfsRequest : Sample → Bool
  | request .lfsObject _ _ => true
  | _ => false

@[simp]
def is (sample recorded : Sample) : Bool := decide (recorded = sample)

/-- A pull is counted under the name of its repository before its outcome is counted. -/
def outcomes : List ((Sample → Bool) × (Sample → Bool)) := [
  (isPull .clone, is (cacheOutcome .cloned)), (isPull .fetch, is (cacheOutcome .fetched))]

/-- The other pairs of counters of which the second is for something that comes later on the way
of a request. -/
def stages (name : Text) : List ((Sample → Bool) × (Sample → Bool)) := [
  (is (upstream .clone .ok name), is (upstreamDuration .clone name)),
  (is (upstream .fetch .ok name), is (upstreamDuration .fetch name)),
  (is (upstream .wantFetch .ok name), is (upstreamDuration .wantFetch name)),
  (isOutcome, isAdvertised),
  (is (serveDuration .infoRefs name), is (request .infoRefs .ok name)),
  (is (request .uploadPack .ok name), is (serveDuration .uploadPack name)),
  (isLfs, isLfsRequest)]

end Sample

open Sample Tally

/-- The three answers that are not counted. -/
def uncounted : List Reply := [
  failed 400 "failed to read request body", failed 400 "failed to decode request body",
  failed 404 "not a git smart-http endpoint"]

/-- The name for which a request has something succeed: `ensure_fresh`, or the batch at the
upstream. -/
def Action.confirmed (now : Encounter) : Action → Option Text
  | infoRefs repo _ => if (now.unwanting.freshened repo true).isOk then some repo.name else none
  | uploadPack repo _ _ => if (now.freshened repo false).isOk then some repo.name else none
  | lfsBatch name _ _ => if now.batches then some name else none
  | answer _ | lfsObject _ _ _ => none

/-- The cases of `handle`, along those of `handle_git`. -/
inductive Handled (now : Encounter) : Action → Reply × List Sample → Prop where
  | uncounted (response : Response) (quiet : response.reply ∈ uncounted) :
      Handled now (.answer response) (response.reply, [])
  | refused (response : Response) (kind : RequestKind) (result : Result)
      (label : .request kind result dash ∈ anonymous) (fails : result ≠ .ok)
      (noObject : kind ≠ .lfsObject)
      (code : response.reply.code ≠ 200) (counted : response.reply ∉ Http.uncounted) :
      Handled now (.answer response) (response.reply, [.request kind result dash])
  | infoRefs (repo : RepoRef) (gitProtocol : Option Text) (wellNamed : WellNamed repo.name) :
      Handled now (.infoRefs repo gitProtocol) (now.infoRefs repo)
  | uploadPack (repo : RepoRef) (gitProtocol : Option Text) (body : Bytes)
      (wellNamed : WellNamed repo.name) :
      Handled now (.uploadPack repo gitProtocol body) (now.uploadPack repo)
  | lfsBatch (name : Text) (body : Bytes) (advertise : Text) :
      Handled now (.lfsBatch name body advertise) (now.lfsBatch name)
  | lfsObject (repoName oid : Text) (size : Option ℕ) :
      Handled now (.lfsObject repoName oid size) now.lfsObject

section Cases

variable {crates : Crates} {st : AppState} {request : Request} {now : Encounter}

theorem code_of_uncounted : ∀ reply ∈ uncounted, reply.code ≠ 200 := by
  decide

theorem head_of_uncounted : ∀ reply ∈ uncounted,
    reply.text.bind List.head? = some 'f' ∨ reply.text.bind List.head? = some 'n' := by
  decide

/-- What `resolve` has against a name is counted. -/
theorem refused_of_resolvePath {path suffix : Text} {response : Response}
    (refused : resolvePath crates st path suffix = .error response) :
    response.reply.code ≠ 200 ∧ response.reply ∉ uncounted := by
  unfold resolvePath at refused
  split at refused
  · cases refused
    decide
  · split at refused
    · rename_i error _
      cases refused
      have begins : (err .badRequest (error.message crates.debug)).reply.text.bind List.head? =
          some 'i' ∨
          (err .badRequest (error.message crates.debug)).reply.text.bind List.head? = some 'r' := by
        cases error with
        | escapesRoot name => exact Or.inr rfl
        | _ => exact Or.inl rfl
      refine ⟨show (400 : ℕ) ≠ 200 by decide, ?_⟩
      intro quiet
      rcases head_of_uncounted _ quiet with isF | isN
      · rw [isF] at begins
        revert begins
        decide
      · rw [isN] at begins
        revert begins
        decide
    · cases refused

/-- The first half of `info_refs` and `upload_pack`. -/
theorem Handled.of_resolvePath {path suffix : Text} {kind : RequestKind}
    {action : RepoRef → Action} {answer : RepoRef → Reply × List Sample}
    (label : .request kind .error dash ∈ anonymous) (noObject : kind ≠ .lfsObject)
    (resolved : ∀ repo, WellNamed repo.name → Handled now (action repo) (answer repo)) :
    Handled now
      (match resolvePath crates st path suffix with
        | .error response => .answer response
        | .ok repo => action repo)
      (match resolvePath crates st path suffix with
        | .error response => (response.reply, [.request kind .error dash])
        | .ok repo => answer repo) := by
  cases resolving : resolvePath crates st path suffix with
  | error response =>
      rcases refused_of_resolvePath resolving with ⟨code, counted⟩
      exact .refused response kind .error label (by decide) noObject code counted
  | ok repo =>
      have accepted := resolved_of_resolvePath resolving
      exact resolved repo (resolve_eq_ok_iff.mp accepted).1

theorem handled : Handled now (handleGit crates st request) (handle crates st request now) := by
  simp only [handle, handleGit]
  cases checked : checkAuth st.serveToken request.headers with
  | some response =>
      simp only
      rw [Lfs.checkAuth_eq_some checked]
      exact .refused (err .unauthorized "missing or invalid bearer token".toList)
        .auth .unauthorized (by decide) (by decide) (by decide) (by decide) (by decide)
  | none =>
  simp only
  split_ifs
  · exact .refused (err .forbidden "read-only proxy: pushes are not allowed".toList)
      .receivePack .rejected (by decide) (by decide) (by decide) (by decide) (by decide)
  · exact Handled.of_resolvePath (by decide) (by decide) fun repo => .infoRefs repo _
  · exact .refused (err .badRequest "only smart-http git-upload-pack is supported".toList)
      .infoRefs .error (by decide) (by decide) (by decide) (by decide) (by decide)
  · cases request.body with
    | none => exact .uncounted (err .badRequest "failed to read request body".toList) (by decide)
    | some sent =>
        simp only
        cases decodeBody crates.gunzip _ sent st.maxDecodedBody with
        | error _ =>
            exact .uncounted (err .badRequest "failed to decode request body".toList) (by decide)
        | ok body =>
            exact Handled.of_resolvePath (by decide) (by decide) fun repo => .uploadPack repo _ body
  · cases request.body with
    | none => exact .uncounted (err .badRequest "failed to read request body".toList) (by decide)
    | some body =>
        simp only [lfsBatch]
        cases lfsBatchRepo request.path with
        | none =>
            exact .refused (err .notFound "bad lfs batch path".toList)
              .lfsBatch .error (by decide) (by decide) (by decide) (by decide) (by decide)
        | some name =>
            simp only
            split_ifs
            · exact .refused (err .forbidden "read-only proxy: lfs upload is not allowed".toList)
                .lfsBatch .rejected (by decide) (by decide) (by decide) (by decide) (by decide)
            · exact .lfsBatch name body _
  · cases lfsObjectFromPath request.path with
    | none =>
        exact .uncounted (err .notFound "not a git smart-http endpoint".toList) (by decide)
    | some object => exact .lfsObject object.1 object.2 _
  · exact .uncounted (err .notFound "not a git smart-http endpoint".toList) (by decide)

/-! ## The samples of `ensure_fresh` -/

/-- What `ensure_fresh` records along with its results. -/
inductive Freshening (name : Text) (wants : List Sample) :
    Except Git.FreshError Git.CacheOutcome → List Sample → Prop where
  | broken (error : Git.FreshError) : Freshening name wants (.error error) []
  | failed (error : Git.FreshError) (op : UpstreamOp) :
      Freshening name wants (.error error) [.upstream op .error dash]
  | cloned : Freshening name wants (.ok .cloned)
      ([.upstream .clone .ok name, .upstreamDuration .clone name] ++ wants)
  | fetched : Freshening name wants (.ok .fetched)
      ([.upstream .fetch .ok name, .upstreamDuration .fetch name] ++ wants)
  | cached : Freshening name wants (.ok .cached) wants

theorem Freshening.of_error {name : Text} {wants : List Sample} (op : UpstreamOp)
    (error : Git.FreshError) :
    Freshening name wants (.error error) (pullSamples op name (.error error)) := by
  cases error with
  | upstream cause => exact .failed (.upstream cause) op
  | createParent => exact .broken .createParent
  | rename => exact .broken .rename

theorem freshening (now : Encounter) (repo : RepoRef) (wantFetch : Bool) :
    Freshening repo.name (wantSamples now.env now.refused repo.name)
      (now.freshened repo wantFetch) (now.pulls repo wantFetch) := by
  simp only [Encounter.freshened, Encounter.pulls, Git.GitCache.ensureFresh, freshSamples]
  split_ifs
  · rcases Git.GitCache.fetch now.env repo (now.cache.touch repo.name) with ⟨cache, error | ⟨⟨⟩⟩⟩
    · simp only [thenWants, List.append_nil]
      exact .of_error .fetch error
    · exact .fetched
  · exact .cached
  · rcases Git.GitCache.cloneMirror now.env repo (now.cache.touch repo.name) with
      ⟨cache, error | ⟨⟨⟩⟩⟩
    · simp only [thenWants, List.append_nil]
      exact .of_error .clone error
    · exact .cloned

theorem wantSamples_shape (env : Git.Surroundings) (refused : Bool) (name : Text) :
    wantSamples env refused name = [] ∨
      wantSamples env refused name = [.upstream .wantFetch .error dash] ∨
      wantSamples env refused name =
        [.upstream .wantFetch .ok name, .upstreamDuration .wantFetch name] := by
  unfold wantSamples
  split
  · exact Or.inr (Or.inr rfl)
  · split
    · exact Or.inr (Or.inl rfl)
    · exact Or.inl rfl

theorem leads_wantSamples (env : Git.Surroundings) (refused : Bool) (own name : Text) :
    ∀ pair ∈ outcomes ++ stages name,
      Leads pair.1 pair.2 0 (wantSamples env refused own) := by
  by_cases same : own = name <;>
    rcases wantSamples_shape env refused own with wants | wants | wants <;>
      rw [wants] <;> simp [outcomes, stages, same]

theorem Freshening.leads {own name : Text} {wants samples : List Sample}
    {result : Except Git.FreshError Git.CacheOutcome}
    (fresh : Freshening own wants result samples)
    (leads : ∀ pair ∈ outcomes ++ stages name, Leads pair.1 pair.2 0 wants) :
    ∀ pair ∈ outcomes ++ stages name, Leads pair.1 pair.2 0 samples := by
  have pulled : ∀ op pair, pair ∈ outcomes ++ stages name →
      Leads pair.1 pair.2 0 [.upstream op .ok own, .upstreamDuration op own] := by
    intro op
    by_cases same : own = name <;> cases op <;> simp [outcomes, stages, same]
  intro pair pairMem
  cases fresh with
  | broken error => exact leads_nil
  | failed error op =>
      revert pair
      simp [outcomes, stages]
  | cloned => exact (pulled .clone pair pairMem).append_of_leads (leads pair pairMem)
  | fetched => exact (pulled .fetch pair pairMem).append_of_leads (leads pair pairMem)
  | cached => exact leads pair pairMem

/-! ## The samples of a request -/

theorem infoRefs_leads (now : Encounter) (repo : RepoRef) (name : Text) :
    ∀ pair ∈ outcomes ++ stages name, Leads pair.1 pair.2 0 (now.infoRefs repo).2 := by
  have fresh := freshening now.unwanting repo true
  have noWants : wantSamples now.unwanting.env now.unwanting.refused repo.name = [] := rfl
  rw [noWants] at fresh
  have leads : ∀ pair ∈ outcomes ++ stages name, Leads pair.1 pair.2 0
      (now.unwanting.pulls repo true) := fresh.leads fun pair _ => leads_nil
  unfold Encounter.infoRefs
  revert fresh leads
  generalize now.unwanting.freshened repo true = result
  generalize now.unwanting.pulls repo true = pulls
  intro fresh leads
  refine List.forall_mem_append.mpr ⟨?_, fun pair stage => ?_⟩
  · -- the outcome is counted after the pull, which is in the other part of the samples
    cases now.serves <;> cases fresh <;> simp [outcomes]
  · have first := leads pair (List.mem_append_right _ stage)
    have last : ∀ tail, (∀ pair ∈ stages name, Leads pair.1 pair.2 0 tail) →
        Leads pair.1 pair.2 0 (pulls ++ tail) :=
      fun tail leads => first.append_of_leads (leads pair stage)
    cases result with
    | error error => exact last _ (by simp [stages])
    | ok outcome =>
        simp only
        split_ifs
        · refine last _ ?_
          by_cases same : repo.name = name <;> simp [stages, same]
        · exact last _ (by simp [stages])

theorem uploadPack_leads (now : Encounter) (repo : RepoRef) (name : Text) :
    ∀ pair ∈ outcomes ++ stages name, Leads pair.1 pair.2 0 (now.uploadPack repo).2 := by
  intro pair pairMem
  have first := (freshening now repo false).leads (leads_wantSamples _ _ _ name) pair pairMem
  have last : ∀ tail, (∀ pair ∈ outcomes ++ stages name, Leads pair.1 pair.2 0 tail) →
      Leads pair.1 pair.2 0 (now.pulls repo false ++ tail) :=
    fun tail leads => first.append_of_leads (leads pair pairMem)
  unfold Encounter.uploadPack
  cases now.freshened repo false with
  | error error => exact last _ (by simp [outcomes, stages])
  | ok outcome =>
      simp only
      split_ifs
      · refine last _ ?_
        by_cases same : repo.name = name <;> simp [outcomes, stages, same]
      · exact last _ (by simp [outcomes, stages])

/-- Until a request is answered nothing is counted as a request, and only what has succeeded
has a name. -/
theorem Freshening.labels {own : Text} {env : Git.Surroundings} {refused : Bool}
    {samples : List Sample} {result : Except Git.FreshError Git.CacheOutcome}
    (fresh : Freshening own (wantSamples env refused own) result samples) :
    ∀ sample ∈ samples, ¬sample.isRequest ∧
      (sample ∈ anonymous ∨ result.isOk ∧ sample ∈ named own) := by
  have wanted : ∀ sample ∈ wantSamples env refused own, ¬sample.isRequest ∧
      (sample ∈ anonymous ∨ (Except.ok Git.CacheOutcome.cached : Except Git.FreshError _).isOk ∧
        sample ∈ named own) := by
    rcases wantSamples_shape env refused own with wants | wants | wants <;>
      rw [wants] <;> simp [anonymous, named, Except.isOk, Except.toBool]
  have pulled : ∀ op, ∀ sample ∈ [Sample.upstream op .ok own, .upstreamDuration op own],
      ¬sample.isRequest ∧ sample ∈ named own := by
    intro op
    cases op <;> simp [named]
  intro sample sampleMem
  cases fresh with
  | broken error => cases sampleMem
  | failed error op =>
      rw [List.mem_singleton.mp sampleMem]
      cases op <;> simp [anonymous]
  | cloned | fetched =>
      rcases List.mem_append.mp sampleMem with pull | want
      · exact ⟨(pulled _ sample pull).1, Or.inr ⟨rfl, (pulled _ sample pull).2⟩⟩
      · exact wanted sample want
  | cached => exact wanted sample sampleMem

/-- What the samples of one request say. -/
structure Accounted (now : Encounter) (action : Action) (result : Reply × List Sample) : Prop where
  labels : ∀ sample ∈ result.2, sample ∈ anonymous ∨ ∃ name ∈ action.confirmed now,
    sample ∈ named name ∧ (WellNamed name ∨ sample = .request .lfsBatch .ok name)
  leads : ∀ name, ∀ pair ∈ outcomes ++ stages name, Leads pair.1 pair.2 0 result.2
  requests : result.2.countP isRequest = (decide (result.1 ∉ uncounted)).toNat
  oks : result.2.countP isOk = (decide (result.1.code = 200)).toNat

/-- A request for a repository, whose samples are those of the pull and `tail`. -/
theorem Freshening.accounted {own : Text} {env : Git.Surroundings} {refused : Bool}
    {pulls tail : List Sample} {fresh : Except Git.FreshError Git.CacheOutcome} {action : Action}
    {reply : Reply} (freshening : Freshening own (wantSamples env refused own) fresh pulls)
    (wellNamed : WellNamed own)
    (confirmed : action.confirmed now = if fresh.isOk then some own else none)
    (leads : ∀ name, ∀ pair ∈ outcomes ++ stages name, Leads pair.1 pair.2 0 (pulls ++ tail))
    (labels : ∀ sample ∈ tail, sample ∈ anonymous ∨ fresh.isOk ∧ sample ∈ named own)
    (requests : tail.countP isRequest = (decide (reply ∉ uncounted)).toNat)
    (oks : tail.countP isOk = (decide (reply.code = 200)).toNat) :
    Accounted now action (reply, pulls ++ tail) := by
  have silent : ∀ holds : Sample → Bool, (∀ sample, holds sample → sample.isRequest) →
      pulls.countP holds = 0 := by
    intro holds counts
    refine List.countP_eq_zero.mpr fun sample sampleMem counted => ?_
    exact (freshening.labels sample sampleMem).1 (counts sample counted)
  constructor
  · intro sample sampleMem
    have label : sample ∈ anonymous ∨ fresh.isOk ∧ sample ∈ named own := by
      rcases List.mem_append.mp sampleMem with pull | answer
      · exact (freshening.labels sample pull).2
      · exact labels sample answer
    rw [confirmed]
    refine label.imp_right fun isNamed => ⟨own, ?_, isNamed.2, Or.inl wellNamed⟩
    rw [if_pos isNamed.1]
    exact Option.mem_some_self own
  · exact leads
  · rw [List.countP_append, silent isRequest (fun _ counted => counted), Nat.zero_add, requests]
  · have okCounts : ∀ sample : Sample, sample.isOk → sample.isRequest := by
      intro sample isOk
      cases sample with
      | request kind result repo => rfl
      | _ => cases isOk
    rw [List.countP_append, silent isOk okCounts, Nat.zero_add, oks]

theorem accounted_infoRefs {repo : RepoRef} {gitProtocol : Option Text}
    (wellNamed : WellNamed repo.name) :
    Accounted now (.infoRefs repo gitProtocol) (now.infoRefs repo) := by
  have leads := infoRefs_leads now repo
  have fresh := freshening now.unwanting repo true
  have confirmed : Action.confirmed now (.infoRefs repo gitProtocol) =
      if (now.unwanting.freshened repo true).isOk then some repo.name else none := rfl
  unfold Encounter.infoRefs at leads ⊢
  cases result : now.unwanting.freshened repo true with
  | error error =>
      simp only [result] at leads fresh confirmed ⊢
      exact fresh.accounted wellNamed confirmed leads (by simp [anonymous]) (by decide) (by decide)
  | ok outcome =>
      simp only [result] at leads fresh confirmed ⊢
      have counted : Sample.cacheOutcome outcome ∈ anonymous := by cases outcome <;> decide
      have succeeded : (Except.ok outcome : Except Git.FreshError Git.CacheOutcome).isOk := rfl
      split_ifs at leads ⊢
      · exact fresh.accounted wellNamed confirmed leads (by simp [counted, succeeded, named])
          rfl rfl
      · refine fresh.accounted wellNamed confirmed leads ?_ rfl rfl
        simp only [List.forall_mem_cons]
        exact ⟨Or.inl counted, Or.inl (by decide), by simp⟩

theorem accounted_uploadPack {repo : RepoRef} {gitProtocol : Option Text} {body : Bytes}
    (wellNamed : WellNamed repo.name) :
    Accounted now (.uploadPack repo gitProtocol body) (now.uploadPack repo) := by
  have leads := uploadPack_leads now repo
  have fresh := freshening now repo false
  have confirmed : Action.confirmed now (.uploadPack repo gitProtocol body) =
      if (now.freshened repo false).isOk then some repo.name else none := rfl
  unfold Encounter.uploadPack at leads ⊢
  cases result : now.freshened repo false with
  | error error =>
      simp only [result] at leads fresh confirmed ⊢
      exact fresh.accounted wellNamed confirmed leads (by simp [anonymous]) (by decide) (by decide)
  | ok outcome =>
      simp only [result] at leads fresh confirmed ⊢
      have succeeded : (Except.ok outcome : Except Git.FreshError Git.CacheOutcome).isOk := rfl
      split_ifs at leads ⊢
      · exact fresh.accounted wellNamed confirmed leads (by simp [succeeded, named]) rfl rfl
      · exact fresh.accounted wellNamed confirmed leads (by simp [anonymous]) rfl rfl

theorem accounted_lfsObject {repoName oid : Text} {size : Option ℕ} :
    Accounted now (.lfsObject repoName oid size) now.lfsObject := by
  unfold Encounter.lfsObject
  cases now.object with
  | none =>
      constructor
      · simp [anonymous]
      · simp [outcomes, stages]
      · rfl
      · rfl
  | some outcome =>
      simp only
      generalize (match outcome with
        | .hit => LfsResult.hit
        | .miss => LfsResult.miss) = lookup
      have counted : Sample.lfs lookup ∈ anonymous := by cases lookup <;> decide
      split_ifs
      · constructor
        · simp only [List.forall_mem_cons]
          exact ⟨Or.inl counted, Or.inl (by decide), by simp⟩
        · simp [outcomes, stages]
        · rfl
        · rfl
      · constructor
        · simp only [List.forall_mem_cons]
          exact ⟨Or.inl counted, Or.inl (by decide), by simp⟩
        · simp [outcomes, stages]
        · rfl
        · rfl

theorem accounted {action : Action} {result : Reply × List Sample}
    (handled : Handled now action result) : Accounted now action result := by
  cases handled with
  | uncounted response quiet =>
      constructor
      · simp
      · simp
      · simp [quiet]
      · simp [code_of_uncounted _ quiet]
  | refused response kind result label fails noObject code counted =>
      constructor
      · intro sample sampleMem
        rw [List.mem_singleton.mp sampleMem]
        exact Or.inl label
      · cases kind <;> simp_all [outcomes, stages]
      · simp [counted]
      · simp [code, fails]
  | infoRefs repo gitProtocol wellNamed => exact accounted_infoRefs wellNamed
  | uploadPack repo gitProtocol body wellNamed => exact accounted_uploadPack wellNamed
  | lfsBatch name body advertise =>
      unfold Encounter.lfsBatch
      split_ifs with batches
      · constructor
        · simp [Action.confirmed, batches, named]
        · simp [outcomes, stages]
        · rfl
        · rfl
      · constructor
        · simp [anonymous]
        · simp [outcomes, stages]
        · rfl
        · rfl
  | lfsObject repoName oid size => exact accounted_lfsObject

end Cases

/-! ## Runs -/

/-- A request, and how many of its samples are recorded before it is dropped. -/
structure Visit where
  request : Request
  now : Encounter
  kept : ℕ

namespace Visit

variable (crates : Crates) (st : AppState) (visit : Visit)

def reply : Reply := (handle crates st visit.request visit.now).1

def samples : List Sample := (handle crates st visit.request visit.now).2

/-- The name for which something succeeds. -/
def confirmed : Option Text := (handleGit crates st visit.request).confirmed visit.now

end Visit

section Runs

variable (crates : Crates) (st : AppState) (visits : List Visit) (log : List Sample)

/-- The metrics after some requests, of which some may still be in progress. -/
structure Metered : Prop where
  /-- clients that ask for what does not exist add no series -/
  series : log.toFinset.card ≤
    21 + 11 * (visits.filterMap (Visit.confirmed crates st)).toFinset.card
  /-- a name that is not valid for git is seen with LFS batches only -/
  valid : ∀ name, ∀ sample ∈ log, sample ∈ named name →
    WellNamed name ∨ sample = .request .lfsBatch .ok name
  leads : ∀ name, ∀ pair ∈ outcomes ++ stages name, log.countP pair.2 ≤ log.countP pair.1
  requests : log.countP isRequest ≤
    visits.countP fun visit => decide (visit.reply crates st ∉ uncounted)
  oks : log.countP isOk ≤ visits.countP fun visit => decide ((visit.reply crates st).code = 200)
  /-- once all are answered, every answer but three is counted -/
  complete : (∀ visit ∈ visits, (visit.samples crates st).length ≤ visit.kept) →
    log.countP isRequest = (visits.countP fun visit => decide (visit.reply crates st ∉ uncounted)) ∧
      log.countP isOk = visits.countP fun visit => decide ((visit.reply crates st).code = 200)

variable {crates st visits log}

theorem repo_of_named {name : Text} : ∀ sample ∈ named name, sample.repo = some name := by
  simp [named, Sample.repo]

theorem not_named_of_anonymous {name : Text} : ∀ sample ∈ anonymous, sample ∉ named name := by
  simp [anonymous, named]

theorem metered (records : Records (Visit.samples crates st) Visit.kept visits log) :
    Metered crates st visits log := by
  have each : ∀ visit : Visit, Accounted visit.now (handleGit crates st visit.request)
      (visit.reply crates st, visit.samples crates st) := fun visit => accounted handled
  have requests : ∀ visit ∈ visits, (visit.samples crates st).countP isRequest =
      (decide (visit.reply crates st ∉ uncounted)).toNat := fun visit _ => (each visit).requests
  have oks : ∀ visit ∈ visits, (visit.samples crates st).countP isOk =
      (decide ((visit.reply crates st).code = 200)).toNat := fun visit _ => (each visit).oks
  constructor
  · have labels : ∀ visit ∈ visits, ∀ sample ∈ visit.samples crates st, sample ∈ anonymous ∨
        ∃ own ∈ visit.confirmed crates st, sample ∈ named own := by
      intro visit _ sample sampleMem
      refine ((each visit).labels sample sampleMem).imp_right ?_
      rintro ⟨name, isName, isNamed, _⟩
      exact ⟨name, isName, isNamed⟩
    exact records.card_le (fun name => Nat.le_refl 11) labels
  · intro name sample sampleMem isNamed
    rcases records.exists_task sampleMem with ⟨visit, _, recorded⟩
    rcases (each visit).labels sample recorded with isAnonymous | ⟨own, _, isOwn, valid⟩
    · exact absurd isNamed (not_named_of_anonymous sample isAnonymous)
    · have same : name = own :=
        Option.some.inj ((repo_of_named sample isNamed).symm.trans (repo_of_named sample isOwn))
      rwa [same]
  · exact fun name pair pairMem => records.leads fun visit _ => (each visit).leads name pair pairMem
  · exact records.countP_le requests
  · exact records.countP_le oks
  · intro complete
    exact ⟨records.countP_eq_of_complete complete requests,
      records.countP_eq_of_complete complete oks⟩

end Runs

section Dropped

/-- Nothing is in the caches, and whatever is tried succeeds. -/
def cold : Encounter := ⟨60, coldMoment.cache, Git.calm Git.smooth, false, true, true, none, true⟩

def cloning : Request where
  method := .get
  path := "/group/repo.git/info/refs".toList
  query := "service=git-upload-pack".toList
  headers _ := none
  body := some []

/-- A clone whose client is gone before it is answered, beside a batch under an invalid name. -/
theorem metered_dropped : Metered plainCrates teamProxy
    [⟨cloning, cold, 3⟩, ⟨climbing, cold, 1⟩]
    [.upstream .clone .ok "group/repo.git".toList, .request .lfsBatch .ok "../secrets".toList,
      .upstreamDuration .clone "group/repo.git".toList, .cacheOutcome .cloned] := by
  have samples : [(⟨cloning, cold, 3⟩ : Visit), ⟨climbing, cold, 1⟩].flatMap
      (fun visit => (visit.samples plainCrates teamProxy).take visit.kept) =
      [.upstream .clone .ok "group/repo.git".toList,
        .upstreamDuration .clone "group/repo.git".toList, .cacheOutcome .cloned,
        .request .lfsBatch .ok "../secrets".toList] := by decide
  refine metered ?_
  rw [Records, samples]
  decide

end Dropped

end GitCacheProxy.Http
