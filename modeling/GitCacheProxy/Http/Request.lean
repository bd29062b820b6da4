import GitCacheProxy.Git.Upstream
import GitCacheProxy.Http.Paths

/-!
# Reading a request

The checks and small parsers that the handlers share: the bearer token, the
encoding of the body, the size of an LFS object and the address under which the
client sees the proxy.  What the crates for JSON and gzip do is a parameter
(`Crates`).
-/

namespace GitCacheProxy.Http

open Repo

/-! ## Requests and responses -/

inductive Method where
  | get
  | post
  | other
  deriving DecidableEq

/-- A header value as `to_str` reads it; `none` when it is not visible ASCII. -/
abbrev HeaderValue := Option Text

/-- The headers of a request by their names in lower case. -/
abbrev HeaderMap := Text → Option HeaderValue

structure Request where
  method : Method
  path : Text
  query : Text
  headers : HeaderMap
  /-- the result of `to_bytes(body, MAX_BODY)`; `none` when it fails -/
  body : Option Bytes

inductive Status where
  | ok
  | badRequest
  | unauthorized
  | forbidden
  | notFound
  | serviceUnavailable
  deriving DecidableEq

structure Response where
  status : Status
  body : Text
  deriving DecidableEq

def err (status : Status) (msg : Text) : Response := ⟨status, msg ++ ['\n']⟩

/-- A JSON value; the keys of an object are distinct. -/
inductive Json where
  | null
  | bool (value : Bool)
  | number (numeral : Text)
  | string (value : Text)
  | array (items : List Json)
  | object (members : List (Text × Json))

namespace Json

/-- `Value::get` with a string. -/
def get : Json → Text → Option Json
  | object members, key => members.lookup key
  | _, _ => none

def asStr : Json → Option Text
  | string value => some value
  | _ => none

end Json

/-- What a gzip decoder yields: bytes, and an error after them if the input is `broken`. -/
structure GzStream where
  bytes : Bytes
  broken : Bool

/-- The parts of other crates that decide something. -/
structure Crates where
  parseJson : Bytes → Option Json
  gunzip : Bytes → GzStream
  /-- the `{:?}` formatting of a string -/
  debug : Text → Text

/-! ## Authorization -/

/-- `str::strip_prefix` -/
def stripPrefix (text lead : Text) : Option Text :=
  if lead <+: text then some (text.drop lead.length) else none

/-- `headers.get(name).and_then(|v| v.to_str().ok())` -/
def headerText (headers : HeaderMap) (name : Text) : Option Text := (headers name).join

def tokenMatches (provided expected : Text) : Bool := decide (provided = expected)

/-- The refusal of a request without the serve token; `none` lets it pass. -/
def checkAuth (serveToken : Option Text) (headers : HeaderMap) : Option Response :=
  match serveToken with
  | none => none
  | some expected =>
      let provided := (headerText headers "authorization".toList).bind
        fun value => stripPrefix value "Bearer ".toList
      if provided.any fun token => tokenMatches token expected then none
      else some (err .unauthorized "missing or invalid bearer token".toList)

/-! ## The body -/

/-- `str::trim` -/
def trim (text : Text) : Text := (text.dropWhile Git.isWhitespace).rdropWhile Git.isWhitespace

def eqIgnoreAsciiCase (text other : Text) : Bool :=
  decide (text.map Char.toLower = other.map Char.toLower)

inductive DecodeError where
  | gzip
  | exceedsLimit
  | unsupported (encoding : Text)
  deriving DecidableEq

/-- `decoder.take(limit).read_to_end(..)`; the decoder is not asked for more than the limit. -/
def GzStream.readToEnd (stream : GzStream) (limit : ℕ) : Option Bytes :=
  if limit ≤ stream.bytes.length then some (stream.bytes.take limit)
  else if stream.broken then none
  else some stream.bytes

def withinLimit (body : Bytes) (maxDecoded : ℕ) : Except DecodeError Bytes :=
  if maxDecoded < body.length then .error .exceedsLimit else .ok body

/-- Undo the `Content-Encoding` of a request; `max_decoded as u64 + 1` wraps around. -/
def decodeBody (gunzip : Bytes → GzStream) (contentEncoding : Option Text) (body : Bytes)
    (maxDecoded : ℕ) : Except DecodeError Bytes :=
  match contentEncoding.map trim with
  | none => withinLimit body maxDecoded
  | some enc =>
      if eqIgnoreAsciiCase enc "gzip".toList ∨ eqIgnoreAsciiCase enc "x-gzip".toList then
        match (gunzip body).readToEnd ((maxDecoded + 1) % UInt64.size) with
        | none => .error .gzip
        | some out => withinLimit out maxDecoded
      else if enc = [] ∨ eqIgnoreAsciiCase enc "identity".toList then withinLimit body maxDecoded
      else .error (.unsupported enc)

theorem withinLimit_eq_ok_iff {body out : Bytes} {maxDecoded : ℕ} :
    withinLimit body maxDecoded = .ok out ↔ body = out ∧ out.length ≤ maxDecoded := by
  rw [withinLimit]
  split
  · rename_i long
    simp only [reduceCtorEq, false_iff, not_and, Nat.not_le]
    rintro rfl
    exact long
  · rename_i short
    rw [Except.ok.injEq]
    constructor
    · rintro rfl
      exact ⟨rfl, Nat.le_of_not_lt short⟩
    · exact And.left

/-- No decoded body is longer than the cap. -/
theorem length_le_of_decodeBody {gunzip : Bytes → GzStream} {contentEncoding : Option Text}
    {body out : Bytes} {maxDecoded : ℕ}
    (decoded : decodeBody gunzip contentEncoding body maxDecoded = .ok out) :
    out.length ≤ maxDecoded := by
  simp only [decodeBody] at decoded
  split at decoded
  · exact (withinLimit_eq_ok_iff.mp decoded).2
  split at decoded
  · split at decoded
    · cases decoded
    · exact (withinLimit_eq_ok_iff.mp decoded).2
  split at decoded
  · exact (withinLimit_eq_ok_iff.mp decoded).2
  · cases decoded

/-- `usize::saturating_mul` of the configured number of MiB. -/
def maxDecodedBody (maxDecodedBodyMb : ℕ) : ℕ :=
  min (maxDecodedBodyMb * (1024 * 1024)) (UInt64.size - 1)

/-! ### The cap -/

section Cap

variable {gunzip : Bytes → GzStream} {contentEncoding : Option Text} {body : Bytes}
  {maxDecoded : ℕ}

def IsGzip (contentEncoding : Option Text) : Prop :=
  ∃ enc ∈ contentEncoding, eqIgnoreAsciiCase (trim enc) "gzip".toList = true ∨
    eqIgnoreAsciiCase (trim enc) "x-gzip".toList = true

def IsIdentity (contentEncoding : Option Text) : Prop :=
  ∀ enc ∈ contentEncoding, trim enc = [] ∨ eqIgnoreAsciiCase (trim enc) "identity".toList = true

/-- The body decodes completely. -/
inductive Decodes (gunzip : Bytes → GzStream) (contentEncoding : Option Text) (body : Bytes) :
    Bytes → Prop where
  | gzip {out : Bytes} (spelled : IsGzip contentEncoding) (complete : gunzip body = ⟨out, false⟩) :
      Decodes gunzip contentEncoding body out
  | identity (plain : IsIdentity contentEncoding) : Decodes gunzip contentEncoding body body

/-- A body is accepted exactly when it decodes completely within the cap. -/
def CapExact (gunzip : Bytes → GzStream) (contentEncoding : Option Text) (body : Bytes)
    (maxDecoded : ℕ) : Prop :=
  ∀ out, decodeBody gunzip contentEncoding body maxDecoded = .ok out ↔
    Decodes gunzip contentEncoding body out ∧ out.length ≤ maxDecoded

theorem not_isIdentity_of_isGzip (spelled : IsGzip contentEncoding) :
    ¬IsIdentity contentEncoding := by
  rintro plain
  rcases spelled with ⟨enc, encMem, gzip⟩
  have apart (text : Text) (other : eqIgnoreAsciiCase text "gzip".toList = true ∨
      eqIgnoreAsciiCase text "x-gzip".toList = true) :
      ¬(text = [] ∨ eqIgnoreAsciiCase text "identity".toList = true) := by
    simp only [eqIgnoreAsciiCase, decide_eq_true_eq] at other ⊢
    rintro (rfl | identity)
    · revert other
      decide
    · rw [identity] at other
      revert other
      decide
  exact apart (trim enc) gzip (plain enc encMem)

theorem decodeBody_of_isGzip (spelled : IsGzip contentEncoding) :
    decodeBody gunzip contentEncoding body maxDecoded =
      match (gunzip body).readToEnd ((maxDecoded + 1) % UInt64.size) with
      | none => .error .gzip
      | some out => withinLimit out maxDecoded := by
  rcases spelled with ⟨enc, rfl, gzip⟩
  simp only [decodeBody, Option.map_some]
  exact if_pos gzip

theorem decodeBody_of_isIdentity (plain : IsIdentity contentEncoding) :
    decodeBody gunzip contentEncoding body maxDecoded = withinLimit body maxDecoded := by
  have noGzip := fun spelled => not_isIdentity_of_isGzip spelled plain
  cases contentEncoding with
  | none => rfl
  | some enc =>
      simp only [decodeBody, Option.map_some]
      rw [if_neg, if_pos (plain enc rfl)]
      exact fun gzip => noGzip ⟨enc, rfl, gzip⟩

theorem decodeBody_of_other (noGzip : ¬IsGzip contentEncoding)
    (noIdentity : ¬IsIdentity contentEncoding) (out : Bytes) :
    decodeBody gunzip contentEncoding body maxDecoded ≠ .ok out := by
  cases contentEncoding with
  | none =>
      exact absurd (fun enc encMem => by cases encMem) noIdentity
  | some enc =>
      simp only [decodeBody, Option.map_some]
      rw [if_neg, if_neg]
      · exact fun done => by cases done
      · intro identity
        apply noIdentity
        intro other otherMem
        rw [← Option.mem_some.mp otherMem]
        exact identity
      · exact fun gzip => noGzip ⟨enc, rfl, gzip⟩

/-- Asking for one byte more than the cap tells a stream within the cap from one above it. -/
theorem readToEnd_withinLimit_iff {stream : GzStream} {out : Bytes} :
    (match stream.readToEnd (maxDecoded + 1) with
      | none => Except.error DecodeError.gzip
      | some out => withinLimit out maxDecoded) = .ok out ↔
      stream = ⟨out, false⟩ ∧ out.length ≤ maxDecoded := by
  rcases stream with ⟨bytes, broken⟩
  rw [GzStream.readToEnd, GzStream.mk.injEq]
  rcases Nat.lt_or_ge maxDecoded bytes.length with long | short
  · rw [if_pos (Nat.succ_le_of_lt long)]
    simp only [withinLimit_eq_ok_iff]
    constructor
    · rintro ⟨rfl, impossible⟩
      rw [List.length_take] at impossible
      omega
    · rintro ⟨⟨rfl, _⟩, within⟩
      omega
  · rw [if_neg (Nat.not_le_of_lt (Nat.lt_succ_of_le short))]
    cases broken with
    | true => simp
    | false =>
        simp only [Bool.false_eq_true, if_false, withinLimit_eq_ok_iff, and_true]

theorem capExact_of_not_isGzip (noGzip : ¬IsGzip contentEncoding) :
    CapExact gunzip contentEncoding body maxDecoded := by
  intro out
  by_cases plain : IsIdentity contentEncoding
  · rw [decodeBody_of_isIdentity plain, withinLimit_eq_ok_iff]
    constructor
    · rintro ⟨rfl, within⟩
      exact ⟨.identity plain, within⟩
    · rintro ⟨decodes, within⟩
      cases decodes with
      | gzip spelled => exact absurd spelled noGzip
      | identity => exact ⟨rfl, within⟩
  · constructor
    · intro decoded
      exact absurd decoded (decodeBody_of_other noGzip plain out)
    · rintro ⟨decodes, _⟩
      cases decodes with
      | gzip spelled => exact absurd spelled noGzip
      | identity identity => exact absurd identity plain

theorem Decodes.gzip_iff (spelled : IsGzip contentEncoding) {out : Bytes} :
    Decodes gunzip contentEncoding body out ↔ gunzip body = ⟨out, false⟩ := by
  constructor
  · intro decodes
    cases decodes with
    | gzip _ complete => exact complete
    | identity plain => exact absurd plain (not_isIdentity_of_isGzip spelled)
  · exact .gzip spelled

/-- The cap is exact, unless it is so large that one byte more wraps around to nothing and the
stream is not read at all. -/
theorem capExact_iff (gunzip : Bytes → GzStream) (contentEncoding : Option Text) (body : Bytes)
    {maxDecoded : ℕ} (inRange : maxDecoded < UInt64.size) :
    CapExact gunzip contentEncoding body maxDecoded ↔
      ¬(maxDecoded + 1 = UInt64.size ∧ IsGzip contentEncoding ∧ gunzip body ≠ ⟨[], false⟩) := by
  by_cases spelled : IsGzip contentEncoding
  · rcases Nat.lt_or_ge (maxDecoded + 1) UInt64.size with fits | wraps
    · have precise : CapExact gunzip contentEncoding body maxDecoded := by
        intro out
        rw [decodeBody_of_isGzip spelled, Nat.mod_eq_of_lt fits, Decodes.gzip_iff spelled]
        exact readToEnd_withinLimit_iff
      exact ⟨fun _ overflow => absurd overflow.1 (Nat.ne_of_lt fits), fun _ => precise⟩
    · have top : maxDecoded + 1 = UInt64.size := Nat.le_antisymm inRange wraps
      have unread : decodeBody gunzip contentEncoding body maxDecoded = .ok [] := by
        rw [decodeBody_of_isGzip spelled, top, Nat.mod_self]
        simp [GzStream.readToEnd, withinLimit]
      constructor
      · rintro precise ⟨_, _, other⟩
        exact other ((Decodes.gzip_iff spelled).mp ((precise []).mp unread).1)
      · intro noOverflow out
        have nothing : gunzip body = ⟨[], false⟩ := by
          by_contra other
          exact noOverflow ⟨top, spelled, other⟩
        rw [unread, Except.ok.injEq, Decodes.gzip_iff spelled, nothing, GzStream.mk.injEq]
        constructor
        · rintro rfl
          exact ⟨⟨rfl, rfl⟩, Nat.zero_le _⟩
        · exact fun complete => complete.1.1
  · exact ⟨fun _ overflow => spelled overflow.2.1, fun _ => capExact_of_not_isGzip spelled⟩

/-! The letter `x`, sent through gzip to a proxy with the largest cap. -/

def compressedX : Bytes :=
  [31, 139, 8, 0, 0, 0, 0, 0, 2, 3, 171, 0, 0, 131, 22, 220, 140, 1, 0, 0, 0]

def gunzipX (body : Bytes) : GzStream :=
  if body = compressedX then ⟨[120], false⟩ else ⟨[], true⟩

theorem capExact_small : CapExact gunzipX (some "gzip".toList) compressedX (maxDecodedBody 512) :=
  (capExact_iff gunzipX _ compressedX (by decide)).mpr fun overflow =>
    absurd overflow.1 (by decide)

theorem cap_wraps :
    decodeBody gunzipX (some "gzip".toList) compressedX (maxDecodedBody 17592186044416) = .ok [] ∧
      ¬CapExact gunzipX (some "gzip".toList) compressedX (maxDecodedBody 17592186044416) := by
  have unread : decodeBody gunzipX (some "gzip".toList) compressedX
      (maxDecodedBody 17592186044416) = .ok [] := by rfl
  refine ⟨unread, ?_⟩
  intro precise
  have spelled : IsGzip (some "gzip".toList) := ⟨_, rfl, Or.inl (by decide)⟩
  have complete := (Decodes.gzip_iff spelled).mp ((precise []).mp unread).1
  exact absurd complete (by simp [gunzipX])

end Cap

/-- Whether a batch request asks to upload; what cannot be parsed does not. -/
def isLfsUpload (parseJson : Bytes → Option Json) (body : Bytes) : Bool :=
  match parseJson body with
  | none => false
  | some value => decide ((value.get "operation".toList).bind Json.asStr = some "upload".toList)

/-! ## The size of an object -/

/-- `str::parse::<u64>`: digits, after at most one plus sign, and no overflow. -/
def parseU64 (text : Text) : Option ℕ :=
  let digits : Text := match text with
    | '+' :: rest => rest
    | _ => text
  let value : ℕ := digits.foldl (fun value digit => 10 * value + (digit.toNat - '0'.toNat)) 0
  if digits ≠ [] ∧ digits.all Char.isDigit = true ∧ value < UInt64.size then some value else none

/-- The first `size` parameter of a query. -/
def sizeFromQuery (query : Text) : Option ℕ :=
  ((query.splitOn '&').findSome? fun kv => stripPrefix kv "size=".toList).bind parseU64

theorem lt_of_sizeFromQuery {query : Text} {size : ℕ} (sized : sizeFromQuery query = some size) :
    size < UInt64.size := by
  rcases Option.bind_eq_some_iff.mp sized with ⟨text, _, parsed⟩
  simp only [parseU64, ite_eq_iff, Option.some.injEq, reduceCtorEq, and_false, or_false] at parsed
  rw [← parsed.2]
  exact parsed.1.2.2

/-! ## The address of the proxy -/

/-- The first of the values that a proxy has put into a header. -/
def firstValue (value : HeaderValue) : Option Text :=
  value.map fun text => trim ((text.splitOn ',').headD text)

/-- `scheme://host` as the client has reached the proxy. -/
def advertiseBase (headers : HeaderMap) : Text :=
  let scheme := (((headers "x-forwarded-proto".toList).bind firstValue).filter
    (fun scheme => decide (scheme ≠ []))).getD "http".toList
  let host := (((headers "x-forwarded-host".toList).or (headers "host".toList)).bind
    firstValue).getD []
  scheme ++ "://".toList ++ host

end GitCacheProxy.Http
