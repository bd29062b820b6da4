import GitCacheProxy.Foundation.Refspec
import GitCacheProxy.Git.BatchCheck
import GitCacheProxy.Git.Pins

/-!
# What the git commands make of the refs

`Mirror` keeps the refs of upstream apart from the pins.  On disk both are refs of one repository,
and what tells them apart is what the commands say: the refspecs of the two fetches, the directory
that `for-each-ref` lists and the lines that are handed to `update-ref`.

Here the commands are those that the source builds, and git reads them as its documentation says.
What a command makes of the refs, its operation makes of the mirror (`mirror_fetch`,
`mirror_wantFetch`, `mirror_delete`, `ensureWantedOids_told`).
-/

namespace GitCacheProxy.Git.Refs

open Refspec TransitionSystem BatchCheck

/-! ## The commands -/

def proxyWantsNs : Text := "refs/proxy-wants".toList

/-- `fetch` -/
def fetchArgs : List Text :=
  ["fetch".toList, "--prune".toList, "--quiet".toList, "origin".toList, "+refs/*:refs/*".toList,
    '^' :: proxyWantsNs ++ "/*".toList]

/-- The fetch of `ensure_wanted_oids`. -/
def wantFetchArgs (missing : List Text) : List Text :=
  ["fetch".toList, "--no-tags".toList, "--quiet".toList, "origin".toList] ++
    missing.map fun oid => '+' :: (oid ++ ':' :: (proxyWantsNs ++ '/' :: oid))

/-- What `prune_wants` writes to `update-ref --stdin`. -/
def deletions (stale : List Text) : Text :=
  stale.flatMap fun ref => "delete ".toList ++ ref ++ ['\n']

/-- What `local_cmd` passes with `-c`. -/
def localSettings (packThreads : Option ℕ) (packWindowMemory : Option Text) : List Text :=
  ["uploadpack.allowFilter=true".toList, "uploadpack.hideRefs=".toList ++ proxyWantsNs] ++
    (packThreads.map fun n => "pack.threads=".toList ++ Nat.toDigits 10 n).toList ++
    (packWindowMemory.map fun m => "pack.windowMemory=".toList ++ m).toList

/-! ## How git reads them -/

/-- The options come before the remote, and the refspecs after it. -/
def readFetch : List Text → Option Fetch
  | [] => none
  | command :: args =>
      if command = "fetch".toList then
        let options := args.takeWhile fun arg => decide ("--".toList <+: arg)
        match args.drop options.length with
        | [] => none
        | _ :: specs => (specs.mapM Spec.parse).map fun specs =>
            { prune := options.contains "--prune".toList
              noTags := options.contains "--no-tags".toList
              specs := specs }
      else none

def readDeletion (line : Text) : Option Text :=
  if "delete ".toList <+: line then some (line.drop "delete ".toList.length) else none

def readDeletions (input : Text) : Option (List Text) := (strLines input).mapM readDeletion

/-- A hidden ref is one of this name, or below it. -/
def hides (settings : List Text) (name : Text) : Bool :=
  settings.any fun setting =>
    decide ("uploadpack.hideRefs=".toList <+: setting) &&
      let hidden := setting.drop "uploadpack.hideRefs=".toList.length
      decide (name = hidden ∨ hidden ++ ['/'] <+: name)

/-- The refs that `upload-pack` advertises. -/
def advertised (settings : List Text) (refs : Refs Text) : Refs Text :=
  refs.filter fun entry => !hides settings entry.1

/-! ## The repository -/

/-- The directory of all refs. -/
def refsDir : Text := "refs/".toList

/-- The directory of the pins. -/
def pinsDir : Text := proxyWantsNs ++ ['/']

def isPin (name : Text) : Bool := decide (pinsDir <+: name)

/-- A repository with its refs as they are on disk. -/
structure Repository where
  objects : Finset Text
  refs : Refs Text

namespace Repository

/-- What the operations see. -/
def mirror (repository : Repository) : Mirror where
  objects := repository.objects
  refs := repository.refs.filter fun entry => !isPin entry.1
  pins := ((repository.refs.filter fun entry => isPin entry.1).map Prod.snd).toFinset

/-- `git clone --mirror`: all refs of upstream, under their own names. -/
def cloned (graph : ObjectGraph) (upstream : Refs Text) : Repository :=
  let refs := upstream.filter fun entry => decide (refsDir <+: entry.1)
  { objects := graph.closure (refs.map Prod.snd).toFinset, refs := refs }

/-- `git fetch`; `isObject` says what upstream takes for the name of an object and `comes` which
tags come along. -/
def fetch (graph : ObjectGraph) (isObject comes : Text → Bool) (upstream : Refs Text)
    (args : List Text) (repository : Repository) : Option Repository := do
  let command ← readFetch args
  let updates ← command.updates (fun name => if isObject name then some name else none) upstream
  some
    { objects := repository.objects ∪
        graph.closure ((updates ++ command.followed comes upstream).map Prod.snd).toFinset
      refs := command.result updates comes upstream repository.refs }

/-- `prune_wants`, with the refs that it deleted. -/
def pruneWants (maxWants : ℕ) (git : GitAnswers) (repository : Repository) :
    Except PruneError (Repository × List Text) :=
  if maxWants = 0 then .ok (repository, [])
  else
    match git.forEachRef with
    | none => .error .forEachRef
    | some refs =>
        if refs.length ≤ maxWants then .ok (repository, [])
        else if git.updateRef then
          match readDeletions (deletions (refs.drop maxWants)) with
          | none => .error .updateRef
          | some gone =>
              .ok ({ repository with
                refs := repository.refs.filter fun entry => !gone.contains entry.1 }, gone)
        else .error .updateRef

/-- `ensure_wanted_oids`, with the refs that its prune step deleted. -/
def ensureWantedOids (graph : ObjectGraph) (isObject comes : Text → Bool) (upstream : Refs Text)
    (maxWants : ℕ) (repository : Repository) (body : List UInt8) (git : GitAnswers) :
    Except WantError (Repository × List Text) :=
  if parseWants body = ∅ then .ok (repository, [])
  else
    match git.batchCheck with
    | none => .error .catFile
    | some lines =>
        if missingOids lines = [] then .ok (repository, [])
        else
          match git.wantFetch with
          | .spawnFailed => .error .spawnFetch
          | .refused => .ok (repository, [])
          | .served =>
              match repository.fetch graph isObject comes upstream
                  (wantFetchArgs (capWants maxWants (missingOids lines))) with
              | none => .ok (repository, [])
              | some fetched =>
                  match fetched.pruneWants maxWants git with
                  | .ok pruned => .ok pruned
                  | .error _ => .ok (fetched, [])

end Repository

/-- `for-each-ref --sort=-creatordate refs/proxy-wants/` -/
structure ListsRefs (graph : ObjectGraph) (refs : Refs Text) (listing : List Text) : Prop where
  once : listing.Nodup
  all : ∀ name, name ∈ listing ↔ isPin name = true ∧ name ∈ refs.map Prod.fst
  newestFirst : listing.Pairwise fun newer older => ∀ newerOid olderOid,
    (newer, newerOid) ∈ refs → (older, olderOid) ∈ refs →
      graph.creatorDate olderOid ≤ graph.creatorDate newerOid

/-! ## The commands as they are read -/

section Reading

variable {missing stale : List Text} {name : Text}

theorem readFetch_fetchArgs : readFetch fetchArgs = some (mirroring refsDir pinsDir) := by
  rfl

theorem parse_pinning {oid : Text} (isHex : oid ⊆ hexChars) :
    Spec.parse ('+' :: (oid ++ ':' :: (proxyWantsNs ++ '/' :: oid))) =
      some (.forced (.exact oid) (.exact (pinsDir ++ oid))) := by
  have noColon : ':' ∉ oid := fun colonMem => absurd (isHex colonMem) (by decide)
  have noStar : '*' ∉ oid := fun starMem => absurd (isHex starMem) (by decide)
  have target : proxyWantsNs ++ '/' :: oid = pinsDir ++ oid := by simp [pinsDir]
  have plain : '*' ∉ pinsDir ++ oid := by
    rw [List.mem_append, not_or]
    exact ⟨by decide, noStar⟩
  rw [Spec.parse_forced noColon, Side.parse_of_plain noStar, target, Side.parse_of_plain plain]

theorem readFetch_wantFetchArgs (isHex : ∀ oid ∈ missing, oid ⊆ hexChars) :
    readFetch (wantFetchArgs missing) = some (pinning pinsDir missing) := by
  have specs : (missing.map fun oid => '+' :: (oid ++ ':' :: (proxyWantsNs ++ '/' :: oid))).mapM
      Spec.parse = some (pinning pinsDir missing).specs := by
    induction missing with
    | nil => rfl
    | cons oid missing ih =>
        have rest := ih fun other otherMem => isHex other (List.mem_cons_of_mem _ otherMem)
        rw [List.map_cons, List.mapM_cons, parse_pinning (isHex oid List.mem_cons_self), rest]
        rfl
  have read : readFetch (wantFetchArgs missing) =
      ((missing.map fun oid => '+' :: (oid ++ ':' :: (proxyWantsNs ++ '/' :: oid))).mapM
        Spec.parse).map fun specs => { prune := false, noTags := true, specs := specs } := by
    rfl
  rw [read, specs]
  rfl

theorem readDeletions_deletions (plain : ∀ ref ∈ stale, Plain ref) :
    readDeletions (deletions stale) = some stale := by
  have lines : deletions stale = query (stale.map ("delete ".toList ++ ·)) := by
    rw [deletions, query, List.flatMap_map]
  have whole : ∀ line ∈ stale.map ("delete ".toList ++ ·), Plain line := by
    intro line lineMem
    rcases List.mem_map.mp lineMem with ⟨ref, refMem, rfl⟩
    have plain := plain ref refMem
    simp only [Plain, List.mem_append, not_or]
    exact ⟨⟨by decide, plain.1⟩, by decide, plain.2⟩
  rw [readDeletions, lines, strLines_query whole]
  clear lines whole plain
  induction stale with
  | nil => rfl
  | cons ref stale ih =>
      have read : readDeletion ("delete ".toList ++ ref) = some ref := by
        rw [readDeletion, if_pos (List.prefix_append _ _), List.drop_left]
      rw [List.map_cons, List.mapM_cons, read, ih]
      rfl

theorem hides_localSettings {packThreads : Option ℕ} {packWindowMemory : Option Text} :
    hides (localSettings packThreads packWindowMemory) name =
      decide (name = proxyWantsNs ∨ pinsDir <+: name) := by
  rw [Bool.eq_iff_iff, decide_eq_true_eq]
  cases packThreads <;> cases packWindowMemory <;> simp [hides, localSettings, pinsDir]

end Reading

/-! ## What the commands make of the refs -/

/-- The refs that upstream advertises. -/
structure Advertises (upstream : Refs Text) : Prop where
  once : (upstream.map Prod.fst).Nodup
  names : ∀ name ∈ upstream.map Prod.fst, name = "HEAD".toList ∨ refsDir <+: name

/-- What holds of a repository that only the commands have touched. -/
structure WellKept (graph : ObjectGraph) (repository : Repository) : Prop where
  once : (repository.refs.map Prod.fst).Nodup
  below : ∀ entry ∈ repository.refs, refsDir <+: entry.1
  /-- a pin is named after the object that it points at -/
  pins : ∀ entry ∈ repository.refs, isPin entry.1 = true →
    entry.1 = pinsDir ++ entry.2 ∧ entry.2 ⊆ hexChars
  complete : graph.closure (repository.refs.map Prod.snd).toFinset ⊆ repository.objects

/-- What a fetch of all refs takes from upstream. -/
def brought (upstream : Refs Text) : Refs Text :=
  upstream.filter fun entry => decide (Tracked refsDir pinsDir entry.1)

section Commands

variable {graph : ObjectGraph} {isObject comes : Text → Bool} {upstream : Refs Text}
  {repository after : Repository} {missing : List Text} {maxWants : ℕ}

theorem isPin_iff {name : Text} : isPin name = true ↔ pinsDir <+: name := decide_eq_true_iff

theorem isPin_pin {oid : Text} : isPin (pinsDir ++ oid) = true :=
  isPin_iff.mpr (List.prefix_append _ _)

theorem mem_brought {entry : Text × Text} : entry ∈ brought upstream ↔
    entry ∈ upstream ∧ refsDir <+: entry.1 ∧ isPin entry.1 = false := by
  rw [brought, List.mem_filter, decide_eq_true_eq, Tracked, isPin, decide_eq_false_iff_not]

theorem WellKept.mem_pins (well : WellKept graph repository) {oid : Text} :
    oid ∈ repository.mirror.pins ↔ (pinsDir ++ oid, oid) ∈ repository.refs := by
  simp only [Repository.mirror, List.mem_toFinset, List.mem_map, List.mem_filter]
  constructor
  · rintro ⟨entry, ⟨entryMem, pinned⟩, rfl⟩
    rw [← (well.pins entry entryMem pinned).1]
    exact entryMem
  · intro pinMem
    exact ⟨_, ⟨pinMem, isPin_pin⟩, rfl⟩

theorem WellKept.closure_filter (well : WellKept graph repository) (keeps : Text × Text → Bool) :
    graph.closure ((repository.refs.filter keeps).map Prod.snd).toFinset ⊆
      repository.objects := by
  refine (closure_mono ?_).trans well.complete
  intro oid oidMem
  rw [List.mem_toFinset] at oidMem ⊢
  exact List.map_subset _ (List.filter_subset_self _) oidMem

theorem WellKept.filter_untracked (well : WellKept graph repository) :
    (repository.refs.filter fun entry => decide ¬Tracked refsDir pinsDir entry.1) =
      repository.refs.filter fun entry => isPin entry.1 := by
  apply List.filter_congr
  intro entry entryMem
  simp [Tracked, well.below entry entryMem, isPin]

theorem tracked_of_tag {name : Text} (isTag : "refs/tags/".toList <+: name) :
    Tracked refsDir pinsDir name := by
  rcases isTag with ⟨rest, rfl⟩
  refine ⟨⟨"tags/".toList ++ rest, rfl⟩, ?_⟩
  rintro ⟨more, same⟩
  have letter : some 'p' = some 't' := congrArg (fun text => text[5]?) same
  exact absurd letter (by decide)

/-- A fetch takes over the refs of upstream and leaves the pins alone. -/
theorem WellKept.fetch_eq (well : WellKept graph repository)
    (fetched : repository.fetch graph isObject comes upstream fetchArgs = some after) :
    after.refs = brought upstream ++ (repository.refs.filter fun entry => isPin entry.1) ∧
      after.objects = repository.objects ∪
        graph.closure ((brought upstream).map Prod.snd).toFinset := by
  have updates : (mirroring refsDir pinsDir).updates
      (fun name => if isObject name then some name else none) upstream = some (brought upstream) :=
    updates_mirroring
  simp only [Repository.fetch, readFetch_fetchArgs, Option.bind_eq_bind, Option.bind_some,
    updates, Option.some.injEq] at fetched
  subst fetched
  constructor
  · simp only
    rw [result_mirroring (fun _ => tracked_of_tag) updates, well.filter_untracked]
    rfl
  · have again : (mirroring refsDir pinsDir).followed comes upstream ⊆ brought upstream :=
      followed_mirroring_subset fun _ => tracked_of_tag
    have same : ((brought upstream ++ (mirroring refsDir pinsDir).followed comes upstream).map
        Prod.snd).toFinset = ((brought upstream).map Prod.snd).toFinset := by
      rw [List.map_append, List.toFinset_append, Finset.union_eq_left]
      intro oid oidMem
      rw [List.mem_toFinset] at oidMem ⊢
      exact List.map_subset _ again oidMem
    simp only [same]

theorem WellKept.of_fetch (well : WellKept graph repository) (advertises : Advertises upstream)
    (fetched : repository.fetch graph isObject comes upstream fetchArgs = some after) :
    WellKept graph after := by
  rcases well.fetch_eq fetched with ⟨refs, objects⟩
  refine ⟨?_, ?_, ?_, ?_⟩
  · rw [refs, List.map_append, List.nodup_append]
    refine ⟨advertises.once.sublist (List.filter_sublist.map _),
      well.once.sublist (List.filter_sublist.map _), ?_⟩
    intro name nameBrought pin pinKept same
    rcases List.mem_map.mp nameBrought with ⟨entry, entryMem, rfl⟩
    rcases List.mem_map.mp pinKept with ⟨other, otherMem, rfl⟩
    have pinned := (List.mem_filter.mp otherMem).2
    rw [← same, (mem_brought.mp entryMem).2.2] at pinned
    cases pinned
  · intro entry entryMem
    rw [refs] at entryMem
    rcases List.mem_append.mp entryMem with fresh | kept
    · exact (mem_brought.mp fresh).2.1
    · exact well.below entry (List.mem_filter.mp kept).1
  · intro entry entryMem pinned
    rw [refs] at entryMem
    rcases List.mem_append.mp entryMem with fresh | kept
    · rw [(mem_brought.mp fresh).2.2] at pinned
      cases pinned
    · exact well.pins entry (List.mem_filter.mp kept).1 pinned
  · rw [refs, objects, List.map_append, List.toFinset_append, closure_union, Finset.union_comm]
    exact Finset.union_subset_union_left (well.closure_filter _)

theorem WellKept.mirror_fetch (well : WellKept graph repository)
    (fetched : repository.fetch graph isObject comes upstream fetchArgs = some after) :
    after.mirror = repository.mirror.fetch graph (brought upstream) := by
  rcases well.fetch_eq fetched with ⟨refs, objects⟩
  have fresh : ∀ entry ∈ brought upstream, isPin entry.1 = false :=
    fun entry entryMem => (mem_brought.mp entryMem).2.2
  have ordinary : (after.refs.filter fun entry => !isPin entry.1) = brought upstream := by
    rw [refs, List.filter_append, List.filter_filter]
    rw [List.filter_eq_self.mpr fun entry entryMem => by rw [fresh entry entryMem]; rfl]
    simp
  have pins : (after.refs.filter fun entry => isPin entry.1) =
      repository.refs.filter fun entry => isPin entry.1 := by
    rw [refs, List.filter_append, List.filter_filter,
      List.filter_eq_nil_iff.mpr fun entry entryMem => by simp [fresh entry entryMem]]
    simp
  rw [Repository.mirror, ordinary, pins, objects]
  rfl

/-- No ref is named like an object. -/
theorem Advertises.not_hexChars (advertises : Advertises upstream) {oid : Text}
    (isHex : oid ⊆ hexChars) : oid ∉ upstream.map Prod.fst := by
  intro oidMem
  rcases advertises.names oid oidMem with rfl | ⟨rest, rfl⟩
  · exact absurd (isHex (by decide : 'H' ∈ "HEAD".toList)) (by decide)
  · exact absurd (isHex (List.mem_append_left _ (by decide : 'r' ∈ refsDir))) (by decide)

/-- The pins of these objects. -/
def pinned (missing : List Text) : Refs Text := missing.map fun oid => (pinsDir ++ oid, oid)

theorem map_snd_pinned : (pinned missing).map Prod.snd = missing := by
  rw [pinned, List.map_map]
  exact List.map_id missing

/-- The fetch of `ensure_wanted_oids` pins the objects and touches no other ref. -/
theorem wantFetch_eq (isHex : ∀ oid ∈ missing, oid ⊆ hexChars) (advertises : Advertises upstream)
    (fetched : repository.fetch graph isObject comes upstream (wantFetchArgs missing) =
      some after) :
    after.refs = pinned missing ++ (repository.refs.filter fun entry =>
        decide (entry.1 ∉ (pinned missing).map Prod.fst)) ∧
      after.objects = repository.objects ∪ graph.closure missing.toFinset := by
  simp only [Repository.fetch, readFetch_wantFetchArgs isHex, Option.bind_eq_bind,
    Option.bind_some, Option.bind_eq_some_iff, Option.some.injEq] at fetched
  rcases fetched with ⟨updates, brought, rfl⟩
  rcases updates_pinning (fun oid oidMem => advertises.not_hexChars (isHex oid oidMem)) brought
    with ⟨named, rfl⟩
  have pins : (missing.filterMap fun oid =>
      ((if isObject oid then some oid else none) : Option Text).map fun other =>
        (pinsDir ++ oid, other)) = pinned missing := by
    rw [pinned, ← List.filterMap_eq_map]
    apply List.filterMap_congr
    intro oid oidMem
    have isName : isObject oid = true := by simpa using named oid oidMem
    simp [isName]
  have nothing : (pinning pinsDir missing).followed comes upstream = [] := rfl
  constructor
  · simp only
    rw [result_pinning, pins]
  · rw [nothing, pins, List.append_nil, map_snd_pinned]

theorem mem_pinned {entry : Text × Text} :
    entry ∈ pinned missing ↔ entry.1 = pinsDir ++ entry.2 ∧ entry.2 ∈ missing := by
  rcases entry with ⟨name, oid⟩
  simp only [pinned, List.mem_map, Prod.mk.injEq]
  constructor
  · rintro ⟨_, oidMem, rfl, rfl⟩
    exact ⟨rfl, oidMem⟩
  · rintro ⟨rfl, oidMem⟩
    exact ⟨oid, oidMem, rfl, rfl⟩

theorem isPin_of_mem_pinned {entry : Text × Text} (entryMem : entry ∈ pinned missing) :
    isPin entry.1 = true := by
  rw [(mem_pinned.mp entryMem).1]
  exact isPin_pin

theorem WellKept.of_wantFetch (well : WellKept graph repository) (once : missing.Nodup)
    (isHex : ∀ oid ∈ missing, oid ⊆ hexChars) (advertises : Advertises upstream)
    (fetched : repository.fetch graph isObject comes upstream (wantFetchArgs missing) =
      some after) : WellKept graph after := by
  rcases wantFetch_eq isHex advertises fetched with ⟨refs, objects⟩
  refine ⟨?_, ?_, ?_, ?_⟩
  · rw [refs, List.map_append, List.nodup_append]
    refine ⟨?_, well.once.sublist (List.filter_sublist.map _), ?_⟩
    · rw [pinned, List.map_map]
      exact once.map fun _ _ same => List.append_cancel_left same
    · intro name fresh other kept same
      rcases List.mem_map.mp kept with ⟨entry, entryMem, rfl⟩
      have absent := (List.mem_filter.mp entryMem).2
      rw [decide_eq_true_eq, ← same] at absent
      exact absent fresh
  · intro entry entryMem
    rw [refs] at entryMem
    rcases List.mem_append.mp entryMem with fresh | kept
    · rw [(mem_pinned.mp fresh).1]
      exact ⟨"proxy-wants/".toList ++ entry.2, rfl⟩
    · exact well.below entry (List.mem_filter.mp kept).1
  · intro entry entryMem isPinned
    rw [refs] at entryMem
    rcases List.mem_append.mp entryMem with fresh | kept
    · exact ⟨(mem_pinned.mp fresh).1, isHex _ (mem_pinned.mp fresh).2⟩
    · exact well.pins entry (List.mem_filter.mp kept).1 isPinned
  · rw [refs, objects, List.map_append, List.toFinset_append, map_snd_pinned, closure_union,
      Finset.union_comm]
    exact Finset.union_subset_union_left (well.closure_filter _)

theorem WellKept.mirror_wantFetch (well : WellKept graph repository) (once : missing.Nodup)
    (isHex : ∀ oid ∈ missing, oid ⊆ hexChars) (advertises : Advertises upstream)
    (fetched : repository.fetch graph isObject comes upstream (wantFetchArgs missing) =
      some after) : after.mirror = repository.mirror.wantFetch graph missing := by
  have wellAfter := well.of_wantFetch once isHex advertises fetched
  rcases wantFetch_eq isHex advertises fetched with ⟨refs, objects⟩
  have ordinary : (after.refs.filter fun entry => !isPin entry.1) =
      repository.refs.filter fun entry => !isPin entry.1 := by
    rw [refs, List.filter_append, List.filter_filter,
      List.filter_eq_nil_iff.mpr fun entry entryMem => by simp [isPin_of_mem_pinned entryMem],
      List.nil_append]
    apply List.filter_congr
    intro entry _
    cases isPinned : isPin entry.1 with
    | true => rfl
    | false =>
        have other : entry.1 ∉ (pinned missing).map Prod.fst := by
          intro nameMem
          rcases List.mem_map.mp nameMem with ⟨pin, pinMem, same⟩
          rw [← same, isPin_of_mem_pinned pinMem] at isPinned
          cases isPinned
        rw [decide_eq_true other]
        rfl
  have pins : after.mirror.pins = repository.mirror.pins ∪ missing.toFinset := by
    ext oid
    rw [wellAfter.mem_pins, Finset.mem_union, well.mem_pins, List.mem_toFinset, refs,
      List.mem_append, mem_pinned, List.mem_filter]
    constructor
    · rintro (fresh | kept)
      · exact Or.inr fresh.2
      · exact Or.inl kept.1
    · rintro (kept | oidMem)
      · by_cases again : pinsDir ++ oid ∈ (pinned missing).map Prod.fst
        · rcases List.mem_map.mp again with ⟨pin, pinMem, same⟩
          rw [(mem_pinned.mp pinMem).1] at same
          exact Or.inl ⟨rfl, List.append_cancel_left same ▸ (mem_pinned.mp pinMem).2⟩
        · exact Or.inr ⟨kept, decide_eq_true again⟩
      · exact Or.inl ⟨rfl, oidMem⟩
  calc after.mirror = ⟨after.objects, _, after.mirror.pins⟩ := rfl
    _ = _ := by rw [ordinary, pins, objects]; rfl

end Commands

/-! ## Pruning -/

/-- The object of a pin. -/
def pinOid (name : Text) : Text := name.drop pinsDir.length

/-- What the operations are told; a fetch that does not go through is refused. -/
def told (fetched : Bool) (git : GitAnswers) : GitAnswers where
  batchCheck := git.batchCheck
  wantFetch := if fetched then git.wantFetch else .refused
  forEachRef := if fetched then git.forEachRef.map (List.map pinOid) else none
  updateRef := git.updateRef

section Prune

variable {graph : ObjectGraph} {repository after : Repository} {listing gone : List Text}
  {git : GitAnswers}

theorem pinOid_append (oid : Text) : pinOid (pinsDir ++ oid) = oid := List.drop_left

theorem WellKept.pin_of_listed (well : WellKept graph repository)
    (lists : ListsRefs graph repository.refs listing) {name : Text} (listed : name ∈ listing) :
    ∃ oid, name = pinsDir ++ oid ∧ (name, oid) ∈ repository.refs ∧ oid ⊆ hexChars := by
  rcases (lists.all name).mp listed with ⟨isPinned, nameMem⟩
  rcases List.mem_map.mp nameMem with ⟨⟨_, oid⟩, entryMem, rfl⟩
  rcases well.pins _ entryMem isPinned with ⟨named, isHex⟩
  exact ⟨oid, named, entryMem, isHex⟩

theorem WellKept.plain_of_listed (well : WellKept graph repository)
    (lists : ListsRefs graph repository.refs listing) {name : Text} (listed : name ∈ listing) :
    Plain name := by
  rcases well.pin_of_listed lists listed with ⟨oid, rfl, _, isHex⟩
  simp only [Plain, List.mem_append, not_or]
  exact ⟨⟨by decide, fun breakMem => absurd (isHex breakMem) (by decide)⟩,
    by decide, fun returnMem => absurd (isHex returnMem) (by decide)⟩

/-- `for-each-ref` lists the pins. -/
theorem WellKept.lists (well : WellKept graph repository)
    (lists : ListsRefs graph repository.refs listing) :
    Lists graph repository.mirror.pins (listing.map pinOid) where
  once := by
    refine lists.once.map_on fun name nameMem other otherMem same => ?_
    rcases well.pin_of_listed lists nameMem with ⟨oid, rfl, _⟩
    rcases well.pin_of_listed lists otherMem with ⟨otherOid, rfl, _⟩
    rw [pinOid_append, pinOid_append] at same
    rw [same]
  all := by
    ext oid
    rw [well.mem_pins, List.mem_toFinset, List.mem_map]
    constructor
    · rintro ⟨name, listed, rfl⟩
      rcases well.pin_of_listed lists listed with ⟨oid, rfl, present, _⟩
      rw [pinOid_append]
      exact present
    · intro present
      exact ⟨pinsDir ++ oid, (lists.all _).mpr ⟨isPin_pin, List.mem_map_of_mem present⟩,
        pinOid_append oid⟩
  newestFirst := by
    rw [List.pairwise_map]
    refine lists.newestFirst.imp_of_mem fun newerMem olderMem ordered => ?_
    rcases well.pin_of_listed lists newerMem with ⟨newerOid, rfl, newer, _⟩
    rcases well.pin_of_listed lists olderMem with ⟨olderOid, rfl, older, _⟩
    rw [pinOid_append, pinOid_append]
    exact ordered newerOid olderOid newer older

theorem WellKept.of_filter (well : WellKept graph repository) (keeps : Text × Text → Bool) :
    WellKept graph { repository with refs := repository.refs.filter keeps } where
  once := well.once.sublist (List.filter_sublist.map _)
  below := fun entry entryMem => well.below entry (List.mem_filter.mp entryMem).1
  pins := fun entry entryMem => well.pins entry (List.mem_filter.mp entryMem).1
  complete := well.closure_filter keeps

/-- Deleting some of the pins that are listed. -/
theorem WellKept.mirror_delete (well : WellKept graph repository)
    (lists : ListsRefs graph repository.refs listing) (within : gone ⊆ listing) :
    Repository.mirror { repository with
        refs := repository.refs.filter fun entry => !gone.contains entry.1 } =
      { repository.mirror with
        pins := repository.mirror.pins \ (gone.map pinOid).toFinset } := by
  have ordinary : ((repository.refs.filter fun entry => !gone.contains entry.1).filter
      fun entry => !isPin entry.1) = repository.refs.filter fun entry => !isPin entry.1 := by
    rw [List.filter_filter]
    apply List.filter_congr
    intro entry _
    cases isPinned : isPin entry.1 with
    | true => rfl
    | false =>
        have kept : entry.1 ∉ gone := by
          intro nameMem
          rw [((lists.all _).mp (within nameMem)).1] at isPinned
          cases isPinned
        rw [List.contains_eq_mem, decide_eq_false kept]
        rfl
  have pins : (Repository.mirror { repository with
      refs := repository.refs.filter fun entry => !gone.contains entry.1 }).pins =
      repository.mirror.pins \ (gone.map pinOid).toFinset := by
    ext oid
    rw [(well.of_filter _).mem_pins, Finset.mem_sdiff, well.mem_pins, List.mem_toFinset,
      List.mem_filter, Bool.not_eq_true', List.contains_eq_mem, decide_eq_false_iff_not]
    refine and_congr_right fun _ => not_congr ⟨fun nameMem => ?_, fun oidMem => ?_⟩
    · exact List.mem_map.mpr ⟨_, nameMem, pinOid_append oid⟩
    · rcases List.mem_map.mp oidMem with ⟨name, nameMem, rfl⟩
      rcases well.pin_of_listed lists (within nameMem) with ⟨oid, rfl, _⟩
      rw [pinOid_append]
      exact nameMem
  calc Repository.mirror { repository with
        refs := repository.refs.filter fun entry => !gone.contains entry.1 } =
      ⟨repository.objects, _, _⟩ := rfl
    _ = _ := by rw [ordinary]; exact congrArg (Mirror.mk _ _) pins

/-- What `prune_wants` makes of the refs, `pruneWants` makes of the mirror. -/
theorem WellKept.pruneWants_told (maxWants : ℕ) (well : WellKept graph repository)
    (lists : ∀ listing, git.forEachRef = some listing →
      ListsRefs graph repository.refs listing) :
    match repository.pruneWants maxWants git with
    | .ok (after, gone) => WellKept graph after ∧
        Git.pruneWants maxWants (told true git) repository.mirror =
          .ok (after.mirror, gone.map pinOid)
    | .error failure =>
        Git.pruneWants maxWants (told true git) repository.mirror = .error failure := by
  by_cases zero : maxWants = 0
  · simp only [Repository.pruneWants, Git.pruneWants, zero, if_true]
    exact ⟨well, rfl⟩
  cases listed : git.forEachRef with
  | none => simp [Repository.pruneWants, Git.pruneWants, told, zero, listed]
  | some listing =>
      have listing_told : (told true git).forEachRef = some (listing.map pinOid) := by
        rw [told, listed]
        rfl
      have updateRef_told : (told true git).updateRef = git.updateRef := rfl
      simp only [Repository.pruneWants, Git.pruneWants, zero, if_false, listed, listing_told,
        updateRef_told, List.length_map]
      by_cases few : listing.length ≤ maxWants
      · simp only [few, if_true]
        exact ⟨well, rfl⟩
      cases deletes : git.updateRef with
      | false => simp [few]
      | true =>
          have lists := lists listing listed
          have within : listing.drop maxWants ⊆ listing := List.drop_subset _ _
          have read := readDeletions_deletions fun name nameMem =>
            well.plain_of_listed lists (within nameMem)
          simp only [few, if_false, if_true, read]
          refine ⟨well.of_filter _, ?_⟩
          rw [well.mirror_delete lists within, List.map_drop]

end Prune

/-! ## The wants of a request -/

section Wants

variable {graph : ObjectGraph} {isObject comes : Text → Bool} {upstream : Refs Text}
  {repository after : Repository} {maxWants : ℕ} {body : List UInt8} {git : GitAnswers}
  {gone : List Text}

/-- The processes that answer tell the truth about the repository. -/
structure TruthfulRefs (graph : ObjectGraph) (isObject comes : Text → Bool)
    (upstream : Refs Text) (maxWants : ℕ) (repository : Repository) (body : List UInt8)
    (git : GitAnswers) : Prop where
  batchCheck : ∀ lines, git.batchCheck = some lines →
    Checks repository.mirror (parseWants body) lines
  forEachRef : ∀ lines fetched listing, git.batchCheck = some lines →
    repository.fetch graph isObject comes upstream
      (wantFetchArgs (capWants maxWants (missingOids lines))) = some fetched →
    git.forEachRef = some listing → ListsRefs graph fetched.refs listing

theorem capWants_sublist (maxWants : ℕ) (missing : List Text) :
    (capWants maxWants missing).Sublist missing := by
  rw [capWants]
  split
  · exact List.take_sublist _ _
  · exact List.Sublist.refl _

theorem TruthfulRefs.refused
    (truthful : TruthfulRefs graph isObject comes upstream maxWants repository body git) :
    Truthful graph maxWants repository.mirror body (told false git) where
  batchCheck := truthful.batchCheck
  forEachRef := fun _ _ _ listed => by cases listed

/-- What `ensure_wanted_oids` makes of the refs, `ensureWantedOids` makes of the mirror. -/
theorem WellKept.ensureWantedOids_told (well : WellKept graph repository)
    (advertises : Advertises upstream)
    (truthful : TruthfulRefs graph isObject comes upstream maxWants repository body git)
    (result : repository.ensureWantedOids graph isObject comes upstream maxWants body git =
      .ok (after, gone)) :
    WellKept graph after ∧ ∃ fetched,
      Truthful graph maxWants repository.mirror body (told fetched git) ∧
        ensureWantedOids graph maxWants repository.mirror body (told fetched git) =
          .ok (after.mirror, gone.map pinOid) := by
  unfold Repository.ensureWantedOids at result
  split at result
  · rename_i nothing
    cases result
    exact ⟨well, false, truthful.refused, by rw [ensureWantedOids, if_pos nothing]; rfl⟩
  rename_i wanted
  split at result
  · cases result
  rename_i lines answered
  have told_lines (fetched : Bool) : (told fetched git).batchCheck = some lines := answered
  split at result
  · rename_i present
    cases result
    refine ⟨well, false, truthful.refused, ?_⟩
    simp only [ensureWantedOids, wanted, if_false, told_lines, present, if_true]
    rfl
  rename_i missing
  have refused : ensureWantedOids graph maxWants repository.mirror body (told false git) =
      .ok (repository.mirror, []) := by
    simp only [ensureWantedOids, wanted, if_false, told_lines, missing]
    rfl
  split at result
  · cases result
  · cases result
    exact ⟨well, false, truthful.refused, refused⟩
  rename_i served
  split at result
  · cases result
    exact ⟨well, false, truthful.refused, refused⟩
  rename_i fetched brought
  have checks := truthful.batchCheck lines answered
  have within := capWants_sublist maxWants (missingOids lines)
  have once := checks.missingOids.1.sublist within
  have isHex (oid : Text) (oidMem : oid ∈ capWants maxWants (missingOids lines)) :
      oid ⊆ hexChars :=
    hexChars_of_mem_parseWants ((checks.missingOids.2 oid).mp (within.subset oidMem)).1
  have wellFetched := well.of_wantFetch once isHex advertises brought
  have mirrorFetched := well.mirror_wantFetch once isHex advertises brought
  have lists (listing : List Text) (listed : git.forEachRef = some listing) :
      ListsRefs graph fetched.refs listing :=
    truthful.forEachRef lines fetched listing answered brought listed
  have truthfulTold : Truthful graph maxWants repository.mirror body (told true git) := by
    refine ⟨truthful.batchCheck, ?_⟩
    intro lines' listing answered' listed
    cases (told_lines true).symm.trans answered'
    rcases Option.map_eq_some_iff.mp listed with ⟨names, isListing, rfl⟩
    rw [← mirrorFetched]
    exact wellFetched.lists (lists names isListing)
  have served' : (told true git).wantFetch = .served := served
  have pruned := wellFetched.pruneWants_told maxWants lists
  cases outcome : fetched.pruneWants maxWants git with
  | ok kept =>
      rw [outcome] at result pruned
      cases result
      refine ⟨pruned.1, true, truthfulTold, ?_⟩
      simp only [ensureWantedOids, wanted, if_false, told_lines, missing, served',
        ← mirrorFetched, pruned.2]
  | error failure =>
      rw [outcome] at result pruned
      cases result
      refine ⟨wellFetched, true, truthfulTold, ?_⟩
      simp only [ensureWantedOids, wanted, if_false, told_lines, missing, served',
        ← mirrorFetched, pruned, List.map_nil]

theorem refs_of_pruneWants {mirror after : Mirror} {pruned : List Text}
    (result : Git.pruneWants maxWants git mirror = .ok (after, pruned)) :
    after.refs = mirror.refs := by
  unfold Git.pruneWants at result
  split at result
  · cases result
    rfl
  split at result
  · cases result
  split at result
  · cases result
    rfl
  split at result
  · cases result
    rfl
  · cases result

/-- Wants change no refs but pins. -/
theorem refs_of_ensureWantedOids {mirror after : Mirror} {pruned : List Text}
    (result : ensureWantedOids graph maxWants mirror body git = .ok (after, pruned)) :
    after.refs = mirror.refs := by
  unfold ensureWantedOids at result
  split at result
  · cases result
    rfl
  split at result
  · cases result
  split at result
  · cases result
    rfl
  split at result
  · cases result
  · cases result
    rfl
  dsimp only at result
  split at result
  · rename_i prune
    cases result
    exact (refs_of_pruneWants prune).trans rfl
  · cases result
    rfl

end Wants

end GitCacheProxy.Git.Refs
