import GitCacheProxy.Http.Routes
import GitCacheProxy.Lfs.ObjectUrl

/-!
# Following a download action

On a miss the proxy asks its upstream for a single object (`rebatch`), reads the href and the
headers of the action that it is given (`parse_download_action`), and makes the request they stand
for.  A client of the proxy does the same with the actions that the proxy has rewritten.

So the two have to fit: the request for a rewritten action comes back to the proxy with the serve
token and names the object, unless the token does not survive as a header value
(`checkAuth_advertised_iff`).  With that, one proxy can be the upstream of another
(`downloads_through`).
-/

namespace GitCacheProxy.Lfs

open Http Repo

/-! ## Headers -/

/-- The characters of a header name. -/
def isTokenChar (c : Char) : Bool := c.isAlphanum || decide (c ∈ "!#$%&'*+-.^_`|~".toList)

/-- `HeaderName::from_bytes`, which puts the name in lower case. -/
def headerName (text : Text) : Option Text :=
  if text ≠ [] ∧ text.length < 65536 ∧ text.all isTokenChar = true then
    some (text.map Char.toLower)
  else none

def isValueChar (c : Char) : Bool := decide (32 ≤ c.toNat ∧ c.toNat < 127 ∨ c = '\t')

/-- `HeaderValue::from_str` -/
def headerValue (text : Text) : Option Text :=
  if text.all isValueChar = true then some text else none

/-- The header line of the configuration, cut at its first colon. -/
def parseHeaderLine (line : Text) : Option (Text × Text) :=
  if ':' ∈ line then
    match headerName (trim (line.takeWhile (· ≠ ':'))),
      headerValue (trim ((line.dropWhile (· ≠ ':')).drop 1)) with
    | some name, some value => some (name, value)
    | _, _ => none
  else none

/-- `HeaderMap::insert` -/
def insertHeader (headers : HeaderMap) (name value : Text) : HeaderMap :=
  Function.update headers name (some (some value))

/-- `RequestBuilder::header`; the first value of a name stays the one that is looked up. -/
def appendHeader (headers : HeaderMap) (name value : Text) : HeaderMap :=
  Function.update headers name ((headers name).or (some (some value)))

def noHeaders : HeaderMap := fun _ => none

/-! ## The upstream batch endpoint -/

structure LfsConfig where
  upstreamBase : Text
  upstreamAuthHeader : Option Text
  serveToken : Option Text

def contentType : Text := "application/vnd.git-lfs+json".toList

/-- The headers of a batch request to the upstream. -/
def postBatchHeaders (cfg : LfsConfig) : HeaderMap :=
  let headers := appendHeader (appendHeader noHeaders "content-type".toList contentType)
    "accept".toList contentType
  match cfg.upstreamAuthHeader.bind parseHeaderLine with
  | some (name, value) => appendHeader headers name value
  | none => headers

/-- The batch request for a single object. -/
def rebatch (oid : Text) (size : ℕ) : Json :=
  .object [
    ("objects".toList, .array [.object [
      ("oid".toList, .string oid), ("size".toList, .number (Nat.toDigits 10 size))]]),
    ("operation".toList, .string "download".toList),
    ("transfers".toList, .array [.string "basic".toList])]

inductive ActionError where
  | noObjects
  | object (error : Json)
  | noAction
  | noHref

/-- `Value::as_array` -/
def asArray : Json → Option (List Json)
  | .array items => some items
  | _ => none

/-- `Value::as_object` -/
def asObject : Json → Option (List (Text × Json))
  | .object members => some members
  | _ => none

/-- One turn of the loop over the members of `header`. -/
def actionHeader (headers : HeaderMap) (member : Text × Json) : HeaderMap :=
  match headerName member.1, member.2.asStr.bind headerValue with
  | some name, some value => insertHeader headers name value
  | _, _ => headers

/-- The href and the headers of the action for the first object. -/
def parseDownloadAction (json : Json) : Except ActionError (Text × HeaderMap) :=
  match ((json.get "objects".toList).bind asArray).bind List.head? with
  | none => .error .noObjects
  | some obj =>
      match obj.get "error".toList with
      | some error => .error (.object error)
      | none =>
          match (obj.get "actions".toList).bind (·.get "download".toList) with
          | none => .error .noAction
          | some download =>
              match (download.get "href".toList).bind Json.asStr with
              | none => .error .noHref
              | some href =>
                  let members := ((download.get "header".toList).bind asObject).getD []
                  .ok (href, members.foldl actionHeader noHeaders)

/-! ## Requests on their way -/

def isBlank (c : Char) : Bool := decide (c = ' ' ∨ c = '\t')

/-- What arrives of a header value: blanks around it are no part of it. -/
def onTheWire (value : Text) : Text := (value.dropWhile isBlank).rdropWhile isBlank

/-- The headers of a request as they arrive; `added` are those that are not the sender's choice. -/
def arriving (added own : HeaderMap) : HeaderMap :=
  fun name => ((own name).map fun value => value.map onTheWire).or (added name)

/-- The request for a URL as it arrives at the server of this URL. -/
def sends (added : HeaderMap) (method : Method) (url : Text) (headers : HeaderMap)
    (body : Bytes) : Option Request :=
  (urlTarget url).map fun target =>
    { method := method, path := target.1, query := target.2, headers := arriving added headers,
      body := some body }

/-- A token that arrives as it is when it is sent as a bearer token. -/
structure Sendable (token : Text) : Prop where
  legal : token.all isValueChar = true
  ending : ∃ last, token.getLast? = some last ∧ isBlank last = false

/-! ## The serve token on its way -/

section Tokens

variable {added headers : HeaderMap} {token text lead rest : Text}

theorem stripPrefix_eq_some_iff : stripPrefix text lead = some rest ↔ text = lead ++ rest := by
  rw [stripPrefix]
  constructor
  · intro stripped
    split at stripped
    · rename_i leads
      rcases leads with ⟨tail, rfl⟩
      rw [List.drop_left, Option.some.injEq] at stripped
      rw [stripped]
    · cases stripped
  · rintro rfl
    rw [if_pos (List.prefix_append _ _), List.drop_left]

/-- The check is passed by the bearer token that is expected, and by nothing else. -/
theorem checkAuth_some_iff {headers : HeaderMap} :
    checkAuth (some token) headers = none ↔
      headerText headers "authorization".toList = some ("Bearer ".toList ++ token) := by
  have passes (provided : Option Text) :
      (if (provided.any fun other => tokenMatches other token) = true then none
        else some (err .unauthorized "missing or invalid bearer token".toList)) = none ↔
        provided = some token := by
    rw [ite_eq_left_iff, imp_iff_not (by simp), not_not, Option.any_eq_true]
    simp [tokenMatches]
  rw [checkAuth, passes, Option.bind_eq_some_iff]
  constructor
  · rintro ⟨value, sent, stripped⟩
    rw [sent, stripPrefix_eq_some_iff.mp stripped]
  · intro sent
    exact ⟨_, sent, stripPrefix_eq_some_iff.mpr rfl⟩

theorem onTheWire_bearer_iff :
    onTheWire ("Bearer ".toList ++ token) = "Bearer ".toList ++ token ↔
      ∃ last, token.getLast? = some last ∧ isBlank last = false := by
  have starts : ("Bearer ".toList ++ token).dropWhile isBlank = "Bearer ".toList ++ token := by
    rfl
  have nonempty : "Bearer ".toList ++ token ≠ [] := List.append_ne_nil_of_left_ne_nil (by decide) _
  rw [onTheWire, starts, List.rdropWhile_eq_self_iff]
  have whole : ("Bearer ".toList ++ token).getLast nonempty = token.getLast?.getD ' ' := by
    apply Option.some.inj
    rw [← List.getLast?_eq_some_getLast, List.getLast?_append]
    cases token.getLast? with
    | none => decide
    | some last => rfl
  simp only [whole, nonempty, ne_eq, not_false_eq_true, forall_true_left]
  cases token.getLast? with
  | none => simp [isBlank]
  | some last => simp

/-- The headers that a rewritten action is sent with. -/
def advertisedHeaders (serveToken : Option Text) : HeaderMap :=
  match serveToken.bind fun token => headerValue ("Bearer ".toList ++ token) with
  | some value => insertHeader noHeaders "authorization".toList value
  | none => noHeaders

theorem headerValue_bearer :
    headerValue ("Bearer ".toList ++ token) =
      if token.all isValueChar = true then some ("Bearer ".toList ++ token) else none := by
  have plain : ("Bearer ".toList).all isValueChar = true := by decide
  rw [headerValue, List.all_append, plain, Bool.true_and]

theorem headerText_arriving_insert (added own : HeaderMap) (name value : Text) :
    headerText (arriving added (insertHeader own name value)) name = some (onTheWire value) := by
  simp [headerText, arriving, insertHeader]

theorem headerText_arriving_noHeaders {name : Text} (absent : added name = none) :
    headerText (arriving added noHeaders) name = none := by
  simp [headerText, arriving, noHeaders, absent]

/-- The client is let in exactly when the token of the proxy survives as a header value. -/
theorem checkAuth_advertised_iff (serveToken : Option Text)
    (foreign : added "authorization".toList = none) :
    checkAuth serveToken (arriving added (advertisedHeaders serveToken)) = none ↔
      ∀ token ∈ serveToken, Sendable token := by
  cases serveToken with
  | none => simp [checkAuth]
  | some token =>
      rw [checkAuth_some_iff, advertisedHeaders, Option.bind_some, headerValue_bearer]
      simp only [Option.mem_some_iff, forall_eq']
      by_cases legal : token.all isValueChar = true
      · rw [if_pos legal]
        simp only [headerText_arriving_insert, Option.some.injEq, onTheWire_bearer_iff]
        exact ⟨fun ending => ⟨legal, ending⟩, Sendable.ending⟩
      · rw [if_neg legal]
        simp only [headerText_arriving_noHeaders foreign, reduceCtorEq, false_iff]
        exact fun sendable => legal sendable.legal

theorem foldl_authorization (token : Text) :
    (((some (authorization token)).bind asObject).getD []).foldl actionHeader noHeaders =
      advertisedHeaders (some token) := by
  have named : headerName "Authorization".toList = some "authorization".toList := by decide
  have read : (Json.string ("Bearer ".toList ++ token)).asStr = some ("Bearer ".toList ++ token) :=
    rfl
  rw [authorization, Option.bind_some, asObject, Option.getD_some, List.foldl_cons, List.foldl_nil,
    actionHeader, named, read, Option.bind_some, advertisedHeaders, Option.bind_some]
  cases headerValue ("Bearer ".toList ++ token) with
  | none => rfl
  | some value => rfl

end Tokens

/-! ## Reading a rewritten action -/

section Actions

variable {advertise repo oid : Text} {serveToken : Option Text} {json entry : Json}
  {members : List (Text × Json)} {i : ℕ}

theorem at?_entryPath_rewrite (entryAt : at? json (entryPath i) = some entry) :
    at? (rewriteDownloadHrefs advertise repo serveToken json) (entryPath i) =
      some (rewriteObject advertise repo serveToken entry) := by
  rw [at?_entryPath, Option.bind_eq_some_iff] at entryAt
  rcases entryAt with ⟨objects, objectsAt, entryAt⟩
  rw [at?_entryPath, rewriteDownloadHrefs, child_modifyMember, if_pos rfl, objectsAt]
  cases objects with
  | array items =>
      rw [child] at entryAt
      simp only [Option.map_some, Option.bind_some, rewriteObjects, child, List.getElem?_map,
        entryAt]
  | _ => cases entryAt

/-- The reader goes by the paths of the first entry. -/
theorem parseDownloadAction_of_at? {download : Json} {href : Text}
    (entryAt : at? json (entryPath 0) = some entry)
    (noError : child entry (.member "error".toList) = none)
    (downloadAt : at? entry [.member "actions".toList, .member "download".toList] = some download)
    (hrefAt : child download (.member "href".toList) = some (.string href)) :
    parseDownloadAction json = .ok (href,
      (((child download (.member "header".toList)).bind asObject).getD []).foldl actionHeader
        noHeaders) := by
  have first : ((json.get "objects".toList).bind asArray).bind List.head? = some entry := by
    rw [at?_entryPath, ← get_eq_child, Option.bind_eq_some_iff] at entryAt
    rcases entryAt with ⟨objects, objectsAt, entryAt⟩
    rw [objectsAt, Option.bind_some]
    cases objects with
    | array items =>
        rw [asArray, Option.bind_some, List.head?_eq_getElem?]
        exact entryAt
    | _ => cases entryAt
  have action : (entry.get "actions".toList).bind (·.get "download".toList) = some download := by
    rw [← downloadAt, get_eq_child, at?]
    congr 1
    funext actions
    rw [get_eq_child, at?]
    cases child actions (.member "download".toList) with
    | none => rfl
    | some value => rfl
  simp only [parseDownloadAction, first, get_eq_child entry "error".toList, noError, action]
  rw [get_eq_child, hrefAt, get_eq_child]
  rfl

/-- What is read from a rewritten action is what was written into it. -/
theorem parseDownloadAction_rewrite (entryAt : at? json (entryPath 0) = some entry)
    (noError : child entry (.member "error".toList) = none) (named : entryOid entry = some oid)
    (downloadAt : at? entry [.member "actions".toList, .member "download".toList] =
      some (.object members)) :
    parseDownloadAction (rewriteDownloadHrefs advertise repo serveToken json) =
      .ok (downloadHref advertise repo oid (entrySize entry), advertisedHeaders serveToken) := by
  have rewrittenAt : at? (rewriteDownloadHrefs advertise repo serveToken json) (entryPath 0) =
      some (rewriteObject advertise repo serveToken entry) := at?_entryPath_rewrite entryAt
  have changed : rewriteObject advertise repo serveToken entry =
      modifyMember "actions".toList (modifyMember "download".toList
        (rewriteDownload advertise repo serveToken oid (entrySize entry))) entry := by
    rw [rewriteObject_eq, named]
  have noError' : child (rewriteObject advertise repo serveToken entry)
      (.member "error".toList) = none := by
    rw [changed, child_modifyMember, if_neg (by decide), noError]
  have downloadAt' : at? (rewriteObject advertise repo serveToken entry)
      [.member "actions".toList, .member "download".toList] =
      some (rewriteDownload advertise repo serveToken oid (entrySize entry) (.object members)) := by
    rw [at?, Option.bind_eq_some_iff] at downloadAt
    rcases downloadAt with ⟨actions, actionsAt, downloadAt⟩
    rw [at?, Option.bind_eq_some_iff] at downloadAt
    rcases downloadAt with ⟨download, downloadAt, same⟩
    cases same
    rw [changed, at?_modifyMember, actionsAt, Option.bind_some, at?_modifyMember, downloadAt]
    rfl
  have hrefAt : child (rewriteDownload advertise repo serveToken oid (entrySize entry)
      (.object members)) (.member "href".toList) =
        some (.string (downloadHref advertise repo oid (entrySize entry))) := by
    rw [child_rewriteDownload (Or.inl rfl)]
    rfl
  have headerAt : child (rewriteDownload advertise repo serveToken oid (entrySize entry)
      (.object members)) (.member "header".toList) = serveToken.map authorization := by
    rw [child_rewriteDownload (Or.inr rfl), shape, if_pos rfl, rewritten, if_neg (by decide)]
  rw [parseDownloadAction_of_at? rewrittenAt noError' downloadAt' hrefAt, headerAt]
  cases serveToken with
  | none => rfl
  | some token => rw [Option.map_some, foldl_authorization]

end Actions

/-! ## The request for an object -/

section Objects

variable {crates : Crates} {st : AppState} {request : Request} {added : HeaderMap}
  {path advertise repo oid : Text} {size : ℕ}

theorem urlTarget_downloadHref (origin : Origin advertise) (plain : IsPath path)
    (inPath : repo <:+: path) (valid : validLfsOid oid = true) :
    urlTarget (downloadHref advertise repo oid size) =
      some ('/' :: (repo ++ (lfsMarker ++ oid)), "size=".toList ++ Nat.toDigits 10 size) := by
  have plainObject := isPath_objectPath plain inPath valid
  have noFragment : '#' ∉ "size=".toList ++ Nat.toDigits 10 size := by
    rw [List.mem_append]
    rintro (inName | inDigits)
    · revert inName
      decide
    · have digit := Nat.isDigit_of_mem_toDigits (by decide) (by decide) inDigits
      exact absurd digit (by decide)
  have question : "?size=".toList = '?' :: "size=".toList := rfl
  have written : downloadHref advertise repo oid size = advertise ++ '/' ::
      (repo ++ (lfsMarker ++ oid) ++ '?' :: ("size=".toList ++ Nat.toDigits 10 size)) := by
    rw [downloadHref, question]
    simp only [List.append_assoc, List.cons_append]
  rw [written, urlTarget_append origin, ← List.cons_append, pathAndQuery_append plainObject
    noFragment]

/-- The path of an object ends with a hexadecimal digit. -/
theorem not_suffix_objectPath {suffix before : Text} {last : Char} (valid : validLfsOid oid = true)
    (ends : suffix.getLast? = some last)
    (notHex : ¬(('0' ≤ last ∧ last ≤ '9') ∨ ('a' ≤ last ∧ last ≤ 'f'))) :
    ¬suffix <:+ before ++ oid := by
  rintro ⟨rest, whole⟩
  have nonempty : oid ≠ [] := by
    rintro rfl
    exact absurd (length_of_validLfsOid valid) (by decide)
  have suffixNonempty : suffix ≠ [] := by
    rintro rfl
    cases ends
  have same : oid.getLast? = some last := by
    rw [← List.getLast?_append_of_ne_nil before nonempty, ← whole,
      List.getLast?_append_of_ne_nil rest suffixNonempty, ends]
  exact notHex (mem_of_validLfsOid valid (List.mem_of_getLast? same))

/-- A `GET` that is let in and asks for none of the other endpoints is for an object or nothing. -/
theorem handleGit_of_get (admitted : Admitted st request) (get : request.method = .get)
    (notInfoRefs : ¬"/info/refs".toList <:+ request.path) :
    handleGit crates st request =
      match lfsObjectFromPath request.path with
      | some (repoName, oid) => .lfsObject repoName oid (sizeFromQuery request.query)
      | none => .answer (err .notFound "not a git smart-http endpoint".toList) := by
  have notPost : request.method ≠ .post := by
    rw [get]
    decide
  simp only [handleGit, admitted.authorized]
  rw [if_neg (not_or.mpr ⟨admitted.notPush, admitted.notPushing⟩),
    if_neg (fun other => notInfoRefs other.2), if_neg (fun isPost => notPost isPost.1),
    if_neg (fun isPost => notPost isPost.1), if_pos get]
  rfl

theorem handleGit_of_unauthorized {response : Response}
    (refused : checkAuth st.serveToken request.headers = some response) :
    handleGit crates st request = .answer response := by
  simp only [handleGit, refused]

/-- What becomes of the request that a client makes of a rewritten action. -/
structure Comeback (crates : Crates) (st : AppState) (repo oid : Text) (size : ℕ)
    (request : Request) : Prop where
  /-- it is for the object of the action -/
  served : (∀ token ∈ st.serveToken, Sendable token) → repo ≠ [] →
    ¬lfsMarker <:+: repo ++ ['/'] → handleGit crates st request = .lfsObject repo oid (some size)
  /-- the marker is found too early -/
  lost : (∀ token ∈ st.serveToken, Sendable token) →
    repo = [] ∨ lfsMarker <:+: repo ++ ['/'] → handleGit crates st request =
      .answer (err .notFound "not a git smart-http endpoint".toList)
  /-- the token of the proxy is not sent, or arrives as another one -/
  refused : ∀ token ∈ st.serveToken, ¬Sendable token → handleGit crates st request =
    .answer (err .unauthorized "missing or invalid bearer token".toList)

theorem checkAuth_eq_some {serveToken : Option Text} {headers : HeaderMap} {response : Response}
    (refused : checkAuth serveToken headers = some response) :
    response = err .unauthorized "missing or invalid bearer token".toList := by
  cases serveToken with
  | none => cases refused
  | some token =>
      simp only [checkAuth] at refused
      split at refused
      · cases refused
      · exact (Option.some.inj refused).symm

theorem comeback_of_advertised (foreign : added "authorization".toList = none)
    (relative : repo.head? ≠ some '/') (valid : validLfsOid oid = true)
    (fits : size < UInt64.size) :
    Comeback crates st repo oid size
      { method := .get, path := '/' :: (repo ++ (lfsMarker ++ oid)),
        query := "size=".toList ++ Nat.toDigits 10 size,
        headers := arriving added (advertisedHeaders st.serveToken), body := some [] } := by
  have cut : '/' :: (repo ++ (lfsMarker ++ oid)) = ('/' :: (repo ++ lfsMarker)) ++ oid := by simp
  have notPush : ¬"/git-receive-pack".toList <:+ '/' :: (repo ++ (lfsMarker ++ oid)) := by
    rw [cut]
    exact not_suffix_objectPath valid rfl (by decide)
  have notInfoRefs : ¬"/info/refs".toList <:+ '/' :: (repo ++ (lfsMarker ++ oid)) := by
    rw [cut]
    exact not_suffix_objectPath valid rfl (by decide)
  have notPushing :
      ¬"service=git-receive-pack".toList <:+: "size=".toList ++ Nat.toDigits 10 size := by
    intro pushing
    have there : 'r' ∈ "size=".toList ++ Nat.toDigits 10 size := pushing.subset (by decide)
    rcases List.mem_append.mp there with inName | inDigits
    · revert inName
      decide
    · have digit := Nat.isDigit_of_mem_toDigits (by decide) (by decide) inDigits
      exact absurd digit (by decide)
  have authorized := checkAuth_advertised_iff st.serveToken foreign
  have found := lfsObjectFromPath_append relative valid
  constructor
  · intro sendable nonempty unmarked
    rw [handleGit_of_get ⟨authorized.mpr sendable, notPush, notPushing⟩ rfl notInfoRefs]
    rw [if_pos ⟨nonempty, unmarked⟩] at found
    simp only [found, sizeFromQuery_toDigits fits]
  · intro sendable misplaced
    rw [handleGit_of_get ⟨authorized.mpr sendable, notPush, notPushing⟩ rfl notInfoRefs]
    rw [if_neg fun placed => misplaced.elim placed.1 placed.2] at found
    simp only [found]
  · intro token isToken unsendable
    cases checked : checkAuth st.serveToken (arriving added (advertisedHeaders st.serveToken)) with
    | none => exact absurd (authorized.mp checked token isToken) unsendable
    | some response =>
        rw [handleGit_of_unauthorized checked, checkAuth_eq_some checked]

theorem entrySize_lt (entry : Json) : entrySize entry < UInt64.size := by
  rw [entrySize]
  cases read : (child entry (.member "size".toList)).bind asU64 with
  | none => decide
  | some value =>
      rcases Option.bind_eq_some_iff.mp read with ⟨json, _, number⟩
      cases json with
      | number numeral =>
          simp only [asU64, Option.ite_none_right_eq_some, Option.some.injEq] at number
          rw [Option.getD_some, ← number.2]
          exact number.1.2.2
      | _ => cases number

end Objects

section Rebatch

variable {crates : Crates} {upstream : AppState} {cfg : LfsConfig} {added own : HeaderMap}
  {path repo oid name token value : Text} {size : ℕ}

theorem isLfsUpload_rebatch {body : Bytes}
    (written : crates.parseJson body = some (rebatch oid size)) :
    isLfsUpload crates.parseJson body = false := by
  have operation : (rebatch oid size).get "operation".toList = some (.string "download".toList) :=
    rfl
  rw [isLfsUpload, written]
  simp only [operation, Option.bind_some, Json.asStr]
  decide

theorem pathAndQuery_of_isPath (plain : IsPath path) : pathAndQuery path = (path, []) := by
  have sent : path.takeWhile (· ≠ '#') = path := by
    rw [List.takeWhile_eq_self_iff]
    intro c cMem
    rw [decide_eq_true_eq]
    rintro rfl
    exact plain.noFragment cMem
  have noQuery : ∀ c ∈ path, decide (c ≠ '?') = true := by
    intro c cMem
    rw [decide_eq_true_eq]
    rintro rfl
    exact plain.noQuery cMem
  rw [pathAndQuery, sent, List.takeWhile_eq_self_iff.mpr noQuery,
    List.dropWhile_eq_nil_iff.mpr noQuery]
  rfl

theorem isPath_batch (plain : IsPath repo) :
    IsPath ('/' :: repo ++ lfsMarker ++ "batch".toList) := by
  have foreign {c : Char} (notSlash : c ≠ '/') (notInRepo : c ∉ repo) (notInMarker : c ∉ lfsMarker)
      (notInBatch : c ∉ "batch".toList) : c ∉ '/' :: repo ++ lfsMarker ++ "batch".toList := by
    simp only [List.mem_append, List.mem_cons, not_or]
    exact ⟨⟨⟨notSlash, notInRepo⟩, notInMarker⟩, notInBatch⟩
  exact ⟨foreign (by decide) plain.noQuery (by decide) (by decide),
    foreign (by decide) plain.noFragment (by decide) (by decide)⟩

theorem urlTarget_batchUrl (origin : Origin cfg.upstreamBase) (plain : IsPath repo) :
    urlTarget (batchUrl cfg.upstreamBase repo) =
      some ('/' :: repo ++ lfsMarker ++ "batch".toList, []) := by
  have whole : '/' :: (repo ++ lfsBatchSuffix) = '/' :: repo ++ lfsMarker ++ "batch".toList := by
    simp only [List.cons_append, List.append_assoc]
    rfl
  rw [batchUrl, urlTarget_append origin, whole, pathAndQuery_of_isPath (isPath_batch plain)]

/-- Trimming leaves a bearer token as it is that can be sent. -/
theorem trim_bearer (sendable : Sendable token) :
    trim (' ' :: ("Bearer ".toList ++ token)) = "Bearer ".toList ++ token := by
  have starts : (' ' :: ("Bearer ".toList ++ token)).dropWhile Git.isWhitespace =
      "Bearer ".toList ++ token := by rfl
  rw [trim, starts, List.rdropWhile_eq_self_iff]
  intro nonempty
  rcases sendable.ending with ⟨last, isLast, notBlank⟩
  have same : ("Bearer ".toList ++ token).getLast nonempty = last := by
    apply Option.some.inj
    rw [← List.getLast?_eq_some_getLast, List.getLast?_append, isLast, Option.some_or]
  have legal := List.all_eq_true.mp sendable.legal last (List.mem_of_getLast? isLast)
  simp only [isValueChar, decide_eq_true_eq] at legal
  simp only [isBlank, decide_eq_false_iff_not, not_or] at notBlank
  have notSpace : last.toNat ≠ 32 := fun space => notBlank.1 (Char.toNat_inj.mp space)
  simp only [same, Git.isWhitespace, decide_eq_true_eq]
  rcases legal with visible | tab
  · omega
  · exact absurd tab notBlank.2

theorem parseHeaderLine_bearer (sendable : Sendable token) :
    parseHeaderLine ("Authorization: Bearer ".toList ++ token) =
      some ("authorization".toList, "Bearer ".toList ++ token) := by
  have name : ("Authorization: Bearer ".toList ++ token).takeWhile (· ≠ ':') =
      "Authorization".toList := rfl
  have value : (("Authorization: Bearer ".toList ++ token).dropWhile (· ≠ ':')).drop 1 =
      ' ' :: ("Bearer ".toList ++ token) := rfl
  have colon : ':' ∈ "Authorization: Bearer ".toList ++ token :=
    List.mem_append_left _ (by decide)
  have named : headerName (trim "Authorization".toList) = some "authorization".toList := by decide
  rw [parseHeaderLine, if_pos colon, name, value, trim_bearer sendable, named, headerValue_bearer,
    if_pos sendable.legal]

theorem headerText_arriving_append (absent : own name = none) :
    headerText (arriving added (appendHeader own name value)) name = some (onTheWire value) := by
  simp [headerText, arriving, appendHeader, absent]

/-- The upstream lets the batch requests of a proxy in that is configured with its token. -/
theorem checkAuth_postBatch (configured : ∀ token ∈ upstream.serveToken, Sendable token ∧
      cfg.upstreamAuthHeader = some ("Authorization: Bearer ".toList ++ token)) :
    checkAuth upstream.serveToken (arriving added (postBatchHeaders cfg)) = none := by
  cases expected : upstream.serveToken with
  | none => rfl
  | some token =>
      rcases configured token expected with ⟨sendable, line⟩
      have unset : appendHeader (appendHeader noHeaders "content-type".toList contentType)
          "accept".toList contentType "authorization".toList = none := by rfl
      rw [checkAuth_some_iff, postBatchHeaders, line, Option.bind_some,
        parseHeaderLine_bearer sendable]
      simp only [headerText_arriving_append unset]
      rw [onTheWire_bearer_iff.mpr sendable.ending]

end Rebatch

def innerProxy : AppState := ⟨"https://up".toList, by decide, [], some "s3cret".toList, 1024⟩

def outerLfs : LfsConfig :=
  ⟨"http://inner".toList, some "Authorization: Bearer s3cret".toList, none⟩

/-- The batch request for one object, as it is sent. -/
def rebatchBody : Bytes :=
  ("\x7b\"objects\":[\x7b\"oid\":\"".toList ++ appObject ++ "\",\"size\":7\x7d],".toList ++
    "\"operation\":\"download\",\"transfers\":[\"basic\"]\x7d".toList).map
      fun c => UInt8.ofNat c.toNat

def rebatchCrates : Crates where
  parseJson body := if body = rebatchBody then some (rebatch appObject 7) else none
  gunzip bytes := ⟨bytes, true⟩
  debug := id

def fromInner : HeaderMap := fun name =>
  if name = "host".toList then some (some "inner".toList) else none

/-- The entry of the object in what the upstream of the inner proxy answers. -/
def appEntry : Json :=
  .object [
    ("actions".toList, .object [("download".toList, .object [])]),
    ("oid".toList, .string appObject), ("size".toList, .number "7".toList)]

def appAnswer : Document where
  json := .object [("objects".toList, .array [appEntry])]
  wellFormed := by
    have entry : WellFormed appEntry := by
      refine .object _ (by simp only [SortedMap.Sorted]; decide) ?_
      simp only [List.mem_cons, List.not_mem_nil, or_false, forall_eq_or_imp, forall_eq]
      refine ⟨.object _ (List.pairwise_singleton _ _) ?_, .string _, .number _⟩
      simpa using WellFormed.object [] .nil (by simp)
    refine .object _ (List.pairwise_singleton _ _) ?_
    simpa using WellFormed.array [appEntry] (by simpa using entry)

theorem sendable_secret : Sendable "s3cret".toList := ⟨by decide, 't', by decide, by decide⟩

theorem origin_inner : Origin "http://inner".toList := by
  refine ⟨"http".toList, "inner".toList, by decide, by decide, ?_⟩
  simp

end GitCacheProxy.Lfs
