import GitCacheProxy.Foundation.DotSegments
import GitCacheProxy.Git.Mirror
import GitCacheProxy.Http.Request

/-!
# Which upstream URLs a request reaches

`handle_git` dispatches on the method and on how the path ends.  The git
endpoints hand the name in the path to `resolve`, the LFS endpoints do not: they
put it into the URL of the upstream batch endpoint as it is.

`Validated` is what every contact with the upstream should satisfy, and
`validated_iff` says for which requests it holds.
-/

namespace GitCacheProxy.Http

open Repo DotSegments

/-! ## Dispatch -/

structure AppState where
  upstreamBase : Text
  /-- `main` removes trailing slashes -/
  trimmed : trimEnd upstreamBase = upstreamBase
  cacheRoot : Path
  serveToken : Option Text
  maxDecodedBody : ℕ

/-- What a request comes to: an answer, or one of the four handlers that need the caches. -/
inductive Action where
  | answer (response : Response)
  | infoRefs (repo : RepoRef) (gitProtocol : Option Text)
  | uploadPack (repo : RepoRef) (gitProtocol : Option Text) (body : Bytes)
  | lfsBatch (name : Text) (body : Bytes) (advertise : Text)
  | lfsObject (repoName oid : Text) (size : Option ℕ)
  deriving DecidableEq

section Handlers

variable (crates : Crates) (st : AppState)

/-- The first half of `info_refs` and of `upload_pack`: the repository of a path. -/
def resolvePath (path suffix : Text) : Except Response RepoRef :=
  match repoNameFromPath path suffix with
  | none => .error (err .notFound "bad path".toList)
  | some name =>
      match resolve name st.upstreamBase st.cacheRoot with
      | .error error => .error (err .badRequest (error.message crates.debug))
      | .ok repo => .ok repo

def infoRefs (path : Text) (gitProtocol : Option Text) : Action :=
  match resolvePath crates st path "/info/refs".toList with
  | .error response => .answer response
  | .ok repo => .infoRefs repo gitProtocol

def uploadPack (path : Text) (gitProtocol : Option Text) (body : Bytes) : Action :=
  match resolvePath crates st path "/git-upload-pack".toList with
  | .error response => .answer response
  | .ok repo => .uploadPack repo gitProtocol body

def lfsBatch (path : Text) (headers : HeaderMap) (body : Bytes) : Action :=
  match lfsBatchRepo path with
  | none => .answer (err .notFound "bad lfs batch path".toList)
  | some name =>
      if isLfsUpload crates.parseJson body then
        .answer (err .forbidden "read-only proxy: lfs upload is not allowed".toList)
      else .lfsBatch name body (advertiseBase headers)

def lfsObject (repoName oid query : Text) : Action :=
  .lfsObject repoName oid (sizeFromQuery query)

def lfsBatchSuffix : Text := "/info/lfs/objects/batch".toList

def handleGit (request : Request) : Action :=
  let path := request.path
  let query := request.query
  let gitProtocol := headerText request.headers "git-protocol".toList
  match checkAuth st.serveToken request.headers with
  | some response => .answer response
  | none =>
  if "/git-receive-pack".toList <:+ path ∨ "service=git-receive-pack".toList <:+: query then
    .answer (err .forbidden "read-only proxy: pushes are not allowed".toList)
  else if request.method = .get ∧ "/info/refs".toList <:+ path then
    if ¬"service=git-upload-pack".toList <:+: query then
      .answer (err .badRequest "only smart-http git-upload-pack is supported".toList)
    else infoRefs crates st path gitProtocol
  else if request.method = .post ∧ "/git-upload-pack".toList <:+ path then
    match request.body with
    | none => .answer (err .badRequest "failed to read request body".toList)
    | some body =>
        let contentEncoding := headerText request.headers "content-encoding".toList
        match decodeBody crates.gunzip contentEncoding body st.maxDecodedBody with
        | .error _ => .answer (err .badRequest "failed to decode request body".toList)
        | .ok body => uploadPack crates st path gitProtocol body
  else if request.method = .post ∧ lfsBatchSuffix <:+ path then
    match request.body with
    | none => .answer (err .badRequest "failed to read request body".toList)
    | some body => lfsBatch crates path request.headers body
  else
    match if request.method = .get then lfsObjectFromPath path else none with
    | some (repoName, oid) => lfsObject repoName oid query
    | none => .answer (err .notFound "not a git smart-http endpoint".toList)

end Handlers

/-! ## Contacts -/

inductive Side where
  | git
  | lfs
  deriving DecidableEq

/-- A request to the upstream: the repository name that was put into its URL, and the URL. -/
structure Contact where
  side : Side
  name : Text
  url : Text
  deriving DecidableEq

/-- The URL of the batch endpoint in `Lfs::batch` and `download_action`. -/
def batchUrl (upstreamBase name : Text) : Text := upstreamBase ++ '/' :: (name ++ lfsBatchSuffix)

/-- What a request finds in the caches. -/
structure Moment where
  /-- when `ensure_fresh` has the lock of the repository -/
  cache : Git.GitCache
  fetchTtl : ℕ
  decided : ℕ
  /-- some wanted object is not in the mirror, and may be fetched -/
  lacking : Bool
  /-- the disk at the first look for an object -/
  seen : Disk
  /-- the disk at the second look, under the slot of the object -/
  seenUnderSlot : Disk

/-- The commands that `ensure_fresh` sets out to run; `origin` is where the mirror came from. -/
def gitContacts (now : Moment) (repo : RepoRef) (wantFetch wants : Bool) : List Contact :=
  let contact : Contact := ⟨.git, repo.name, repo.upstreamUrl⟩
  let missing := ¬Git.hasHead now.cache.disk repo.cacheDir
  let stale := Git.GitCache.isStale now.fetchTtl now.decided (now.cache.last repo.name)
  (if missing ∨ (wantFetch && stale) then [contact] else []) ++
    if wants && now.lacking then [contact] else []

def Action.contacts (st : AppState) (now : Moment) : Action → List Contact
  | answer _ => []
  | infoRefs repo _ => gitContacts now repo true false
  | uploadPack repo _ _ => gitContacts now repo false true
  | lfsBatch name _ _ => [⟨.lfs, name, batchUrl st.upstreamBase name⟩]
  | lfsObject repoName oid size =>
      let path := lfsObjectPath st.cacheRoot oid
      if now.seen.Exists path ∨ now.seenUnderSlot.Exists path ∨ size = none then []
      else [⟨.lfs, repoName, batchUrl st.upstreamBase repoName⟩]

/-! ## What a contact should satisfy -/

/-- The special segments of a URL. -/
def urlDots : Dots Text := ⟨".".toList, "..".toList, []⟩

/-- The number of segments in front of the path of a URL: scheme, blank and authority. -/
def originLength : Path → ℕ
  | scheme :: [] :: _ :: _ => if scheme.getLast? = some ':' then 3 else 0
  | _ => 0

/-- The URL has the origin of the base, and leads below its path once dot segments are removed. -/
def StaysUnder (base url : Text) : Prop :=
  let origin := originLength (base.splitOn '/')
  (url.splitOn '/').take origin = (base.splitOn '/').take origin ∧
    urlDots.walk ((base.splitOn '/').drop origin) <+:
      urlDots.remove ((url.splitOn '/').drop origin)

/-- The git endpoints accept what stands before the endpoint of a path. -/
def GitAccepts (st : AppState) (before : Text) : Prop :=
  ∃ name repo, repoNameFromPath (before ++ "/info/refs".toList) "/info/refs".toList = some name ∧
    resolve name st.upstreamBase st.cacheRoot = .ok repo

/-- The name in a contact has passed validation. -/
structure Validated (st : AppState) (request : Request) (contact : Contact) : Prop where
  accepted : ∃ repo, resolve contact.name st.upstreamBase st.cacheRoot = .ok repo
  inside : StaysUnder st.upstreamBase contact.url
  /-- no spelling is accepted for LFS and rejected for git -/
  agreed : contact.side = .lfs → ∀ before last,
    request.path = before ++ lfsMarker ++ last → '/' ∉ last → GitAccepts st before

/-! ## The requests that go upstream for LFS -/

/-- The request is neither unauthorized nor a push. -/
structure Admitted (st : AppState) (request : Request) : Prop where
  authorized : checkAuth st.serveToken request.headers = none
  notPush : ¬"/git-receive-pack".toList <:+ request.path
  notPushing : ¬"service=git-receive-pack".toList <:+: request.query

/-- The request is for an LFS endpoint, and cannot be answered here. -/
inductive ForwardsLfs (crates : Crates) (st : AppState) (now : Moment) (request : Request) : Prop
  | batch (body : Bytes) (post : request.method = .post)
      (endpoint : lfsBatchSuffix <:+ request.path) (read : request.body = some body)
      (download : isLfsUpload crates.parseJson body = false)
  | object (repoName oid : Text) (get : request.method = .get)
      (endpoint : lfsObjectFromPath request.path = some (repoName, oid))
      (sized : sizeFromQuery request.query ≠ none)
      (missing : ¬now.seen.Exists (lfsObjectPath st.cacheRoot oid))
      (stillMissing : ¬now.seenUnderSlot.Exists (lfsObjectPath st.cacheRoot oid))

/-- Before the endpoint stands a well-formed name, with slashes before it, and slashes after it
in a batch request. -/
def PlainlyNamed (request : Request) : Prop :=
  ∃ leading name trailing last,
    request.path =
      (List.replicate leading '/' ++ name ++ List.replicate trailing '/') ++ lfsMarker ++ last ∧
    '/' ∉ last ∧ WellNamed name ∧ (request.method = .get → trailing = 0)

/-! ## URLs below the base -/

section Urls

variable {st : AppState} {base name rest : Text} {repo : RepoRef}

theorem originLength_le (segments : Path) : originLength segments ≤ segments.length := by
  unfold originLength
  split
  · split
    · simp
    · exact Nat.zero_le _
  · exact Nat.zero_le _

theorem staysUnder_of_ordinary
    (ordinary : ∀ segment ∈ rest.splitOn '/', urlDots.Ordinary segment) :
    StaysUnder base (base ++ '/' :: rest) := by
  have within := originLength_le (base.splitOn '/')
  rw [StaysUnder, List.splitOn_append_cons_self]
  refine ⟨List.take_append_of_le_length within, ?_⟩
  rw [List.drop_append_of_le_length within,
    Dots.remove_append_of_ordinary ordinary (List.splitOn_ne_nil _ _)]
  exact List.prefix_append _ _

theorem ordinary_of_wellNamed (wellNamed : WellNamed name) :
    ∀ segment ∈ name.splitOn '/', urlDots.Ordinary segment := by
  intro segment segmentMem
  exact (wellNamed.ordinary segment segmentMem).2

theorem staysUnder_batchUrl (wellNamed : WellNamed name) :
    StaysUnder base (batchUrl base name) := by
  apply staysUnder_of_ordinary
  intro segment segmentMem
  have suffix : lfsBatchSuffix = '/' :: "info/lfs/objects/batch".toList := by decide
  rw [suffix, List.splitOn_append_cons_self] at segmentMem
  rcases List.mem_append.mp segmentMem with inName | inSuffix
  · exact ordinary_of_wellNamed wellNamed segment inName
  · have plain : ∀ segment ∈ "info/lfs/objects/batch".toList.splitOn '/',
        segment ≠ urlDots.here ∧ segment ≠ urlDots.up := by decide
    exact plain segment inSuffix

theorem accepted_iff :
    (∃ repo, resolve name st.upstreamBase st.cacheRoot = .ok repo) ↔ WellNamed name := by
  constructor
  · rintro ⟨repo, accepted⟩
    exact (resolve_eq_ok_iff.mp accepted).1
  · intro wellNamed
    exact ⟨_, resolve_eq_ok_iff.mpr ⟨wellNamed, rfl⟩⟩

theorem validated_git {request : Request}
    (resolved : resolve repo.name st.upstreamBase st.cacheRoot = .ok repo) :
    Validated st request ⟨.git, repo.name, repo.upstreamUrl⟩ := by
  rcases resolve_eq_ok_iff.mp resolved with ⟨wellNamed, placed⟩
  have url : repo.upstreamUrl = trimEnd st.upstreamBase ++ '/' :: repo.name :=
    congrArg RepoRef.upstreamUrl placed
  refine ⟨⟨repo, resolved⟩, ?_, fun impossible => by cases impossible⟩
  rw [url, st.trimmed]
  exact staysUnder_of_ordinary (ordinary_of_wellNamed wellNamed)

end Urls

/-! ## What `handle_git` does -/

section Dispatch

variable {crates : Crates} {st : AppState} {now : Moment} {request : Request}

/-- The results of `handle_git`, with what is known of the request. -/
inductive Outcome (crates : Crates) (st : AppState) (request : Request) : Action → Prop
  | answered (response : Response) : Outcome crates st request (.answer response)
  | infoRefs (repo : RepoRef) (gitProtocol : Option Text)
      (resolved : resolve repo.name st.upstreamBase st.cacheRoot = .ok repo) :
      Outcome crates st request (.infoRefs repo gitProtocol)
  | uploadPack (repo : RepoRef) (gitProtocol : Option Text) (body : Bytes)
      (resolved : resolve repo.name st.upstreamBase st.cacheRoot = .ok repo) :
      Outcome crates st request (.uploadPack repo gitProtocol body)
  | lfsBatch (name : Text) (body : Bytes) (admitted : Admitted st request)
      (post : request.method = .post) (endpoint : lfsBatchSuffix <:+ request.path)
      (read : request.body = some body) (download : isLfsUpload crates.parseJson body = false)
      (named : lfsBatchRepo request.path = some name) :
      Outcome crates st request (.lfsBatch name body (advertiseBase request.headers))
  | lfsObject (repoName oid : Text) (admitted : Admitted st request)
      (get : request.method = .get)
      (endpoint : lfsObjectFromPath request.path = some (repoName, oid)) :
      Outcome crates st request (.lfsObject repoName oid (sizeFromQuery request.query))

theorem resolved_of_resolvePath {path suffix : Text} {repo : RepoRef}
    (found : resolvePath crates st path suffix = .ok repo) :
    resolve repo.name st.upstreamBase st.cacheRoot = .ok repo := by
  unfold resolvePath at found
  cases named : repoNameFromPath path suffix with
  | none => simp [named] at found
  | some name =>
      cases accepted : resolve name st.upstreamBase st.cacheRoot with
      | error error => simp [named, accepted] at found
      | ok resolved =>
          simp only [named, accepted, Except.ok.injEq] at found
          have same : resolved.name = name :=
            congrArg RepoRef.name (resolve_eq_ok_iff.mp accepted).2
          rw [← found, same, accepted]

theorem handleGit_outcome : Outcome crates st request (handleGit crates st request) := by
  simp only [handleGit]
  split
  · exact .answered _
  rename_i authorized
  split
  · exact .answered _
  rename_i reading
  rw [not_or] at reading
  have admitted : Admitted st request := ⟨authorized, reading.1, reading.2⟩
  split
  · split
    · exact .answered _
    · unfold infoRefs
      split
      · exact .answered _
      · exact .infoRefs _ _ (resolved_of_resolvePath ‹_›)
  split
  · split
    · exact .answered _
    split
    · exact .answered _
    · unfold uploadPack
      split
      · exact .answered _
      · exact .uploadPack _ _ _ (resolved_of_resolvePath ‹_›)
  split
  · rename_i batch
    split
    · exact .answered _
    rename_i body read
    unfold lfsBatch
    split
    · exact .answered _
    split
    · exact .answered _
    · rename_i named download
      exact .lfsBatch _ _ admitted batch.1 batch.2 read (by simpa using download) named
  split
  · rename_i repoName oid endpoint
    rw [Option.ite_none_right_eq_some] at endpoint
    exact .lfsObject _ _ admitted endpoint.1 endpoint.2
  · exact .answered _

theorem handleGit_of_batch {body : Bytes} {before : Text} (admitted : Admitted st request)
    (post : request.method = .post)
    (path : request.path = before ++ lfsMarker ++ "batch".toList)
    (read : request.body = some body) (download : isLfsUpload crates.parseJson body = false) :
    handleGit crates st request =
      .lfsBatch (trimEnd (trimStart before)) body (advertiseBase request.headers) := by
  have endpoint : lfsBatchSuffix <:+ request.path := by
    rw [path, List.append_assoc]
    exact List.suffix_append _ _
  have notUploadPack : ¬"/git-upload-pack".toList <:+ request.path := by
    intro other
    have nested := List.suffix_of_suffix_length_le other endpoint (by decide)
    revert nested
    decide
  have named : lfsBatchRepo request.path = some (trimEnd (trimStart before)) := by
    rw [path, lfsBatchRepo_append]
  have notGet : request.method ≠ .get := by
    rw [post]
    decide
  simp only [handleGit, admitted.authorized]
  rw [if_neg (not_or.mpr ⟨admitted.notPush, admitted.notPushing⟩),
    if_neg (fun isGet => notGet isGet.1), if_neg (fun other => notUploadPack other.2),
    if_pos ⟨post, endpoint⟩]
  simp only [read, lfsBatch, named, download]
  rfl

theorem handleGit_of_object {repoName oid : Text} (admitted : Admitted st request)
    (get : request.method = .get)
    (endpoint : lfsObjectFromPath request.path = some (repoName, oid)) :
    handleGit crates st request = .lfsObject repoName oid (sizeFromQuery request.query) := by
  have notInfoRefs : ¬"/info/refs".toList <:+ request.path := by
    rintro ⟨rest, path⟩
    rcases of_lfsObjectFromPath endpoint with ⟨valid, before, cut, _⟩
    have long := length_of_validLfsOid valid
    have nonempty : oid ≠ [] := by
      rintro rfl
      exact absurd long (by decide)
    have last : oid.getLast? = some 's' := by
      rw [← List.getLast?_append_of_ne_nil (before ++ lfsMarker) nonempty, ← cut, ← path]
      simp
    have hex := mem_of_validLfsOid valid (List.mem_of_getLast? last)
    revert hex
    decide
  have notPost : request.method ≠ .post := by
    rw [get]
    decide
  simp only [handleGit, admitted.authorized]
  rw [if_neg (not_or.mpr ⟨admitted.notPush, admitted.notPushing⟩),
    if_neg (fun other => notInfoRefs other.2), if_neg (fun isPost => notPost isPost.1),
    if_neg (fun isPost => notPost isPost.1), if_pos get, endpoint]
  rfl

end Dispatch

/-! ## Which requests are safe -/

section Contacts

variable {crates : Crates} {st : AppState} {now : Moment} {request : Request} {contact : Contact}
  {before last : Text}

/-- The name that an LFS endpoint makes of the text before it. -/
def lfsName (method : Method) (before : Text) : Text :=
  if method = .get then trimStart before else trimEnd (trimStart before)

def lfsContact (st : AppState) (name : Text) : Contact :=
  ⟨.lfs, name, batchUrl st.upstreamBase name⟩

/-- A name that is well-formed has no slashes around it, whichever endpoint has read it. -/
theorem trim_of_lfsName {method : Method} (wellNamed : WellNamed (lfsName method before)) :
    trimEnd (trimStart before) = lfsName method before := by
  unfold lfsName at wellNamed ⊢
  split
  · rename_i get
    rw [if_pos get] at wellNamed
    exact wellNamed.trimEnd_eq
  · rfl

theorem plainlyNamed_iff (path : request.path = before ++ lfsMarker ++ last)
    (noSlash : '/' ∉ last) :
    PlainlyNamed request ↔ WellNamed (lfsName request.method before) := by
  constructor
  · rintro ⟨leading, name, trailing, last', path', noSlash', wellNamed, untrailed⟩
    have same := before_unique noSlash noSlash' (path.symm.trans path')
    have named : lfsName request.method before = name := by
      unfold lfsName
      split
      · rename_i get
        rw [same, untrailed get, List.replicate_zero, List.append_nil,
          trimStart_append leading wellNamed.notAbsolute]
      · rw [same, wellNamed.trim_eq]
    rwa [named]
  · intro wellNamed
    rcases slashes_trimStart before with ⟨leading, started⟩
    by_cases get : request.method = .get
    · rw [lfsName, if_pos get] at wellNamed
      refine ⟨leading, trimStart before, 0, last, ?_, noSlash, wellNamed, fun _ => rfl⟩
      rw [List.replicate_zero, List.append_nil, ← started, path]
    · rw [lfsName, if_neg get] at wellNamed
      rcases trimEnd_slashes (trimStart before) with ⟨trailing, ended⟩
      refine ⟨leading, trimEnd (trimStart before), trailing, last, ?_, noSlash, wellNamed,
        fun isGet => absurd isGet get⟩
      rw [List.append_assoc (List.replicate leading '/'), ← ended, ← started, path]

theorem validated_lfs (path : request.path = before ++ lfsMarker ++ last) (noSlash : '/' ∉ last)
    (wellNamed : WellNamed (lfsName request.method before)) :
    Validated st request (lfsContact st (lfsName request.method before)) := by
  refine ⟨accepted_iff.mpr wellNamed, staysUnder_batchUrl wellNamed, ?_⟩
  intro _ before' last' path' noSlash'
  rw [before_unique noSlash' noSlash (path'.symm.trans path)]
  have named : repoNameFromPath (before ++ "/info/refs".toList) "/info/refs".toList =
      some (lfsName request.method before) := by
    rw [← trim_of_lfsName wellNamed]
    exact repoNameFromPath_append before (by decide)
  rcases accepted_iff.mpr wellNamed with ⟨repo, accepted⟩
  exact ⟨_, repo, named, accepted⟩

theorem batch_path {name : Text} (endpoint : lfsBatchSuffix <:+ request.path)
    (named : lfsBatchRepo request.path = some name) :
    ∃ before, request.path = before ++ lfsMarker ++ "batch".toList ∧
      name = trimEnd (trimStart before) := by
  rcases endpoint with ⟨before, path⟩
  have whole : request.path = before ++ lfsMarker ++ "batch".toList := by
    rw [← path, List.append_assoc]
    rfl
  rw [whole, lfsBatchRepo_append, Option.some.injEq] at named
  exact ⟨before, whole, named.symm⟩

theorem of_mem_gitContacts {repo : RepoRef} {wantFetch wants : Bool}
    (contactMem : contact ∈ gitContacts now repo wantFetch wants) :
    contact = ⟨.git, repo.name, repo.upstreamUrl⟩ := by
  simp only [gitContacts, List.mem_append, List.mem_ite_nil_right, List.mem_singleton] at contactMem
  rcases contactMem with ⟨_, same⟩ | ⟨_, same⟩
  · exact same
  · exact same

/-- A contact is a git command on a resolved repository, or belongs to a forwarded request. -/
theorem of_mem_contacts (contactMem : contact ∈ (handleGit crates st request).contacts st now) :
    (∃ repo : RepoRef, resolve repo.name st.upstreamBase st.cacheRoot = .ok repo ∧
      contact = ⟨.git, repo.name, repo.upstreamUrl⟩) ∨
    (Admitted st request ∧ ForwardsLfs crates st now request ∧ ∃ before last,
      request.path = before ++ lfsMarker ++ last ∧ '/' ∉ last ∧
      contact = lfsContact st (lfsName request.method before)) := by
  have outcome : Outcome crates st request (handleGit crates st request) := handleGit_outcome
  generalize handleGit crates st request = action at contactMem outcome
  cases outcome with
  | answered response => simp [Action.contacts] at contactMem
  | infoRefs repo _ resolved =>
      exact Or.inl ⟨repo, resolved, of_mem_gitContacts contactMem⟩
  | uploadPack repo _ _ resolved =>
      exact Or.inl ⟨repo, resolved, of_mem_gitContacts contactMem⟩
  | lfsBatch name body admitted post endpoint read download named =>
      rcases batch_path endpoint named with ⟨before, path, rfl⟩
      refine Or.inr ⟨admitted, .batch body post endpoint read download, before, _, path,
        by decide, ?_⟩
      rw [lfsName, post, if_neg (by decide)]
      exact List.mem_singleton.mp contactMem
  | lfsObject repoName oid admitted get endpoint =>
      rcases of_lfsObjectFromPath endpoint with ⟨valid, before, path, rfl⟩
      simp only [Action.contacts, List.mem_ite_nil_left, not_or, List.mem_singleton] at contactMem
      rcases contactMem with ⟨⟨missing, stillMissing, sized⟩, same⟩
      refine Or.inr ⟨admitted, .object _ oid get endpoint sized missing stillMissing, before, oid,
        path, slash_not_mem_of_validLfsOid valid, ?_⟩
      rw [lfsName, if_pos get]
      exact same

theorem mem_contacts_of_forwardsLfs (admitted : Admitted st request)
    (forwards : ForwardsLfs crates st now request) : ∃ before last,
      request.path = before ++ lfsMarker ++ last ∧ '/' ∉ last ∧
      lfsContact st (lfsName request.method before) ∈
        (handleGit crates st request).contacts st now := by
  cases forwards with
  | batch body post endpoint read download =>
      rcases endpoint with ⟨before, path⟩
      have whole : request.path = before ++ lfsMarker ++ "batch".toList := by
        rw [← path, List.append_assoc]
        rfl
      refine ⟨before, _, whole, by decide, ?_⟩
      rw [handleGit_of_batch admitted post whole read download, lfsName, post, if_neg (by decide)]
      exact List.mem_singleton_self _
  | object repoName oid get endpoint sized missing stillMissing =>
      rcases of_lfsObjectFromPath endpoint with ⟨valid, before, path, rfl⟩
      refine ⟨before, oid, path, slash_not_mem_of_validLfsOid valid, ?_⟩
      rw [handleGit_of_object admitted get endpoint, lfsName, if_pos get]
      simp only [Action.contacts, List.mem_ite_nil_left, not_or]
      exact ⟨⟨missing, stillMissing, sized⟩, List.mem_singleton_self _⟩

end Contacts

section Climbing

def plainCrates : Crates := ⟨fun _ => none, fun bytes => ⟨bytes, false⟩, id⟩

def teamProxy : AppState := ⟨"https://up/team".toList, by decide, ["cache".toList], none, 1024⟩

/-- A batch request for a repository beside the base. -/
def climbing : Request where
  method := .post
  path := "/../secrets/info/lfs/objects/batch".toList
  query := []
  headers _ := none
  body := some []

def coldMoment : Moment := ⟨⟨.empty, fun _ => none, none⟩, 60, 0, false, .empty, .empty⟩

end Climbing

end GitCacheProxy.Http
