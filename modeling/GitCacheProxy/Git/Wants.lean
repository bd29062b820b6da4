import Mathlib.Data.Finset.Union
import Mathlib.Data.List.Sort
import GitCacheProxy.Repo

/-!
# Want-by-SHA

A client may ask for objects that no upstream ref advertises.  `ensure_wanted_oids`
finds out which wanted objects the store lacks, fetches those and pins them under
`refs/proxy-wants`, and `prune_wants` drops the oldest pins beyond the cap.

The `git` binary is outside: its answers are an argument (`GitAnswers`), and
`Truthful` says what `cat-file` and `for-each-ref` report about a mirror.  The
history itself is an `ObjectGraph`, the same upstream and in every mirror, since
objects are named by their content.
-/

namespace GitCacheProxy.Git

/-! ## The request body -/

def hexDigit (byte : UInt8) : Option ℕ :=
  if 48 ≤ byte ∧ byte ≤ 57 then some (byte.toNat - 48)
  else if 97 ≤ byte ∧ byte ≤ 102 then some (byte.toNat - 87)
  else if 65 ≤ byte ∧ byte ≤ 70 then some (byte.toNat - 55)
  else none

/-- The digits of `usize::from_str_radix`, most significant first. -/
def hexDigits : List UInt8 → Option ℕ :=
  List.foldl (fun value byte => do pure (16 * (← value) + (← hexDigit byte))) (some 0)

/-- `usize::from_str_radix(_, 16)` on four bytes: one leading `+` is allowed. -/
def frameLength (length : List UInt8) : Option ℕ :=
  match length with
  | 43 :: digits => hexDigits digits
  | digits => hexDigits digits

def wantMark : List UInt8 := [119, 97, 110, 116, 32]

/-- The object ID of a `want` line: 40 or 64 hex digits. -/
def wantOfPayload (payload : List UInt8) : Option Text :=
  if wantMark <+: payload then
    let oid := (payload.drop wantMark.length).takeWhile fun byte => (hexDigit byte).isSome
    if oid.length = 40 ∨ oid.length = 64 then
      some (oid.map fun byte => Char.ofNat byte.toNat)
    else none
  else none

/-- The walk over the frames; every frame takes at least four bytes, so the length of the
body is fuel enough. -/
def walkFrames : ℕ → List UInt8 → List Text
  | 0, _ => []
  | fuel + 1, body =>
      if body.length < 4 then []
      else
        match frameLength (body.take 4) with
        | none => []
        | some len =>
            if len < 4 then walkFrames fuel (body.drop 4)
            else if len > body.length then []
            else
              match wantOfPayload ((body.take len).drop 4) with
              | some oid => oid :: walkFrames fuel (body.drop len)
              | none => walkFrames fuel (body.drop len)

/-- The unique object IDs that a request body wants. -/
def parseWants (body : List UInt8) : Finset Text := (walkFrames body.length body).toFinset

/-! ## History and mirrors -/

/-- What is reachable from each object, and the creation date of each object. -/
structure ObjectGraph where
  reach : Text → Finset Text
  self : ∀ oid, oid ∈ reach oid
  trans : ∀ {first second}, first ∈ reach second → reach first ⊆ reach second
  creatorDate : Text → ℕ

/-- Everything reachable from a set of tips. -/
def ObjectGraph.closure (graph : ObjectGraph) (tips : Finset Text) : Finset Text :=
  tips.biUnion graph.reach

/-- A mirror: its object store, its ordinary refs, and the pins `refs/proxy-wants/<oid>`. -/
structure Mirror where
  objects : Finset Text
  refs : List (Text × Text)
  pins : Finset Text

namespace Mirror

/-- What the refs of the mirror, ordinary ones and pins, point at. -/
def tips (mirror : Mirror) : Finset Text :=
  (mirror.refs.map Prod.snd).toFinset ∪ mirror.pins

/-- `git clone --mirror` of an upstream with these refs. -/
def clone (graph : ObjectGraph) (refs : List (Text × Text)) : Mirror where
  objects := graph.closure (refs.map Prod.snd).toFinset
  refs := refs
  pins := ∅

/-- `git fetch --prune`: the ordinary refs become upstream's, the pins stay. -/
def fetch (graph : ObjectGraph) (mirror : Mirror) (refs : List (Text × Text)) : Mirror where
  objects := mirror.objects ∪ graph.closure (refs.map Prod.snd).toFinset
  refs := refs
  pins := mirror.pins

/-- `git fetch` of bare object IDs, each pinned under its own name. -/
def wantFetch (graph : ObjectGraph) (mirror : Mirror) (oids : List Text) : Mirror where
  objects := mirror.objects ∪ graph.closure oids.toFinset
  refs := mirror.refs
  pins := mirror.pins ∪ oids.toFinset

end Mirror

/-! ## The answers of the git binary -/

inductive FetchStatus where
  | spawnFailed
  | refused
  | served
  deriving DecidableEq

/-- What the `git` processes of one request say; `none` is a process that failed. -/
structure GitAnswers where
  batchCheck : Option (List Text)
  wantFetch : FetchStatus
  forEachRef : Option (List Text)
  updateRef : Bool

def missingMark : Text := " missing".toList

/-- `str::strip_suffix`. -/
def stripSuffix (line mark : Text) : Option Text :=
  if mark <:+ line then some (line.take (line.length - mark.length)) else none

/-- The object IDs that `cat-file --batch-check` reports as missing, in its order. -/
def missingOids (lines : List Text) : List Text := lines.filterMap (stripSuffix · missingMark)

/-- What `cat-file --batch-check` prints for one object; `info` is type and size. -/
def batchLine (mirror : Mirror) (info : Text → Text) (oid : Text) : Text :=
  if oid ∈ mirror.objects then oid ++ ' ' :: info oid else oid ++ missingMark

inductive WantError where
  | catFile
  | spawnFetch
  deriving DecidableEq

inductive PruneError where
  | forEachRef
  | updateRef
  deriving DecidableEq

/-- `prune_wants`: the mirror afterwards and the pins that it deleted. -/
def pruneWants (maxWants : ℕ) (git : GitAnswers) (mirror : Mirror) :
    Except PruneError (Mirror × List Text) :=
  if maxWants = 0 then .ok (mirror, [])
  else
    match git.forEachRef with
    | none => .error .forEachRef
    | some refs =>
        if refs.length ≤ maxWants then .ok (mirror, [])
        else if git.updateRef then
          let stale := refs.drop maxWants
          .ok ({ mirror with pins := mirror.pins \ stale.toFinset }, stale)
        else .error .updateRef

/-- What the cap leaves of the missing object IDs. -/
def capWants (maxWants : ℕ) (missing : List Text) : List Text :=
  if 0 < maxWants ∧ maxWants < missing.length then missing.take maxWants else missing

/-- `ensure_wanted_oids`: the mirror afterwards and the pins that its prune step deleted. -/
def ensureWantedOids (graph : ObjectGraph) (maxWants : ℕ) (mirror : Mirror)
    (body : List UInt8) (git : GitAnswers) : Except WantError (Mirror × List Text) :=
  if parseWants body = ∅ then .ok (mirror, [])
  else
    match git.batchCheck with
    | none => .error .catFile
    | some lines =>
        if missingOids lines = [] then .ok (mirror, [])
        else
          match git.wantFetch with
          | .spawnFailed => .error .spawnFetch
          | .refused => .ok (mirror, [])
          | .served =>
              let fetched := mirror.wantFetch graph (capWants maxWants (missingOids lines))
              -- a failed prune is not worth failing the request over
              match pruneWants maxWants git fetched with
              | .ok pruned => .ok pruned
              | .error _ => .ok (fetched, [])

/-- `for-each-ref --sort=-creatordate refs/proxy-wants/` lists the pins, newest first. -/
structure Lists (graph : ObjectGraph) (pins : Finset Text) (listing : List Text) : Prop where
  once : listing.Nodup
  all : listing.toFinset = pins
  newestFirst : listing.Pairwise fun newer older =>
    graph.creatorDate older ≤ graph.creatorDate newer

/-- `cat-file --batch-check` describes every wanted object once, in the order of the set. -/
structure Checks (mirror : Mirror) (wants : Finset Text) (lines : List Text) : Prop where
  described : ∃ order : List Text, ∃ info : Text → Text,
    order.Nodup ∧ order.toFinset = wants ∧ lines = order.map (batchLine mirror info) ∧
      ∀ oid, ¬missingMark <:+ oid ++ ' ' :: info oid

/-- The processes that answer tell the truth about the mirror. -/
structure Truthful (graph : ObjectGraph) (maxWants : ℕ) (mirror : Mirror) (body : List UInt8)
    (git : GitAnswers) : Prop where
  batchCheck : ∀ lines, git.batchCheck = some lines → Checks mirror (parseWants body) lines
  forEachRef : ∀ lines listing, git.batchCheck = some lines → git.forEachRef = some listing →
    Lists graph (mirror.wantFetch graph (capWants maxWants (missingOids lines))).pins listing

theorem stripSuffix_append (oid mark : Text) : stripSuffix (oid ++ mark) mark = some oid := by
  simp [stripSuffix]

/-- The missing object IDs are the wanted ones that the store lacks. -/
theorem Checks.missingOids {mirror : Mirror} {wants : Finset Text} {lines : List Text}
    (checks : Checks mirror wants lines) :
    (missingOids lines).Nodup ∧
      ∀ oid, oid ∈ Git.missingOids lines ↔ oid ∈ wants ∧ oid ∉ mirror.objects := by
  rcases checks.described with ⟨order, info, once, all, rfl, neverMissing⟩
  have filtered : Git.missingOids (order.map (batchLine mirror info)) =
      order.filter fun oid => decide (oid ∉ mirror.objects) := by
    rw [Git.missingOids, List.filterMap_map, ← List.filterMap_eq_filter]
    apply List.filterMap_congr
    intro oid _
    by_cases present : oid ∈ mirror.objects
    · simp [batchLine, present, stripSuffix, neverMissing oid, Option.guard]
    · simp [batchLine, present, stripSuffix_append, Option.guard]
  rw [filtered]
  refine ⟨once.filter _, ?_⟩
  intro oid
  rw [List.mem_filter, ← all, List.mem_toFinset, decide_eq_true_eq]

end GitCacheProxy.Git
