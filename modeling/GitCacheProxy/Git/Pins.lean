import Mathlib.Data.Finset.Card
import GitCacheProxy.Foundation.TransitionSystem
import GitCacheProxy.Git.Wants

/-!
# What the pins keep servable

Two questions about the pins of one mirror.  Pruning keeps the newest pins by
the dates of the pinned objects, not by when they were pinned, so the pins of
the current request survive exactly when too few others are at least as new.
And presence in the object store is not reachability: a wanted object that is
present but unreachable is neither fetched nor pinned again.
-/

namespace GitCacheProxy.Git

open TransitionSystem

variable {graph : ObjectGraph} {maxWants : ℕ} {mirror after : Mirror} {git : GitAnswers}
  {body : List UInt8} {pruned listing lines : List Text} {pins : Finset Text} {oid : Text}

/-! ## Which pins survive -/

/-- How many other pins are at least as new. -/
def outranked (graph : ObjectGraph) (pins : Finset Text) (oid : Text) : ℕ :=
  (pins.filter fun other => other ≠ oid ∧ graph.creatorDate oid ≤ graph.creatorDate other).card

/-- Pruning keeps the head of the listing, and nothing but pins ever goes. -/
theorem pruneWants_spec (capped : 0 < maxWants) (lists : Lists graph mirror.pins listing)
    (listed : git.forEachRef = some listing)
    (result : pruneWants maxWants git mirror = .ok (after, pruned)) :
    after = { mirror with pins := (listing.take maxWants).toFinset } ∧
      pruned = listing.drop maxWants := by
  have notZero : maxWants ≠ 0 := Nat.pos_iff_ne_zero.mp capped
  simp only [pruneWants, notZero, if_false, listed] at result
  split at result
  · rename_i few
    cases result
    simp [List.take_of_length_le few, List.drop_of_length_le few, lists.all]
  · split at result
    · cases result
      refine ⟨?_, rfl⟩
      have survivors : mirror.pins \ (listing.drop maxWants).toFinset =
          (listing.take maxWants).toFinset := by
        have once := lists.once
        rw [← List.take_append_drop maxWants listing, List.nodup_append] at once
        ext pin
        rw [Finset.mem_sdiff, ← lists.all, List.mem_toFinset, List.mem_toFinset,
          List.mem_toFinset]
        constructor
        · rintro ⟨pinMem, notStale⟩
          rw [← List.take_append_drop maxWants listing, List.mem_append] at pinMem
          exact pinMem.resolve_right notStale
        · intro kept
          exact ⟨List.mem_of_mem_take kept, fun stale => once.2.2 pin kept pin stale rfl⟩
      rw [survivors]
    · cases result

theorem mem_take_of_outranked (lists : Lists graph pins listing) (pinned : oid ∈ pins)
    (few : outranked graph pins oid < maxWants) : oid ∈ listing.take maxWants := by
  by_contra dropped
  have listed : oid ∈ listing := by rwa [← List.mem_toFinset, lists.all]
  have split := List.take_append_drop maxWants listing
  have stale : oid ∈ listing.drop maxWants := by
    rw [← split, List.mem_append] at listed
    exact listed.resolve_left dropped
  have once := lists.once
  have newest := lists.newestFirst
  rw [← split] at once newest
  rw [List.nodup_append] at once
  rw [List.pairwise_append] at newest
  have newer : (listing.take maxWants).toFinset ⊆ pins.filter fun other =>
      other ≠ oid ∧ graph.creatorDate oid ≤ graph.creatorDate other := by
    intro other otherMem
    rw [List.mem_toFinset] at otherMem
    rw [Finset.mem_filter, ← lists.all, List.mem_toFinset]
    exact ⟨List.mem_of_mem_take otherMem, once.2.2 other otherMem oid stale,
      newest.2.2 other otherMem oid stale⟩
  have full : (listing.take maxWants).toFinset.card = maxWants := by
    rw [List.toFinset_card_of_nodup once.1, List.length_take]
    have positive := List.length_pos_of_mem stale
    rw [List.length_drop] at positive
    omega
  have many := Finset.card_le_card newer
  rw [full] at many
  exact absurd few (Nat.not_lt.mpr many)

/-- A listing may put a pin behind all the others that are at least as new. -/
theorem exists_lists_dropping (pinned : oid ∈ pins)
    (many : maxWants ≤ outranked graph pins oid) :
    ∃ listing, Lists graph pins listing ∧ oid ∉ listing.take maxWants := by
  let ahead := pins.filter fun other =>
    other ≠ oid ∧ graph.creatorDate oid ≤ graph.creatorDate other
  let behind := pins.filter fun other => graph.creatorDate other < graph.creatorDate oid
  let newerThan : Text → Text → Prop := fun newer older =>
    graph.creatorDate older ≤ graph.creatorDate newer
  have : DecidableRel newerThan := fun _ _ => Nat.decLe _ _
  have : Std.Total newerThan := ⟨fun first second => Nat.le_total _ _⟩
  have : IsTrans Text newerThan := ⟨fun _ _ _ first second => Nat.le_trans second first⟩
  let first := ahead.toList.insertionSort newerThan
  let last := behind.toList.insertionSort newerThan
  have firstMem (pin : Text) : pin ∈ first ↔
      pin ∈ pins ∧ pin ≠ oid ∧ graph.creatorDate oid ≤ graph.creatorDate pin := by
    simp [first, ahead]
  have lastMem (pin : Text) : pin ∈ last ↔
      pin ∈ pins ∧ graph.creatorDate pin < graph.creatorDate oid := by
    simp [last, behind]
  refine ⟨first ++ oid :: last, ⟨?_, ?_, ?_⟩, ?_⟩
  · rw [List.nodup_append, List.nodup_cons]
    refine ⟨(List.perm_insertionSort _ _).nodup_iff.mpr ahead.nodup_toList,
      ⟨?_, (List.perm_insertionSort _ _).nodup_iff.mpr behind.nodup_toList⟩, ?_⟩
    · rw [lastMem]
      rintro ⟨_, earlier⟩
      exact Nat.lt_irrefl _ earlier
    · intro pin pinFirst other otherMem
      have front := (firstMem pin).mp pinFirst
      rcases List.mem_cons.mp otherMem with rfl | otherLast
      · exact front.2.1
      · rintro rfl
        exact absurd ((lastMem pin).mp otherLast).2 (Nat.not_lt.mpr front.2.2)
  · ext pin
    simp only [List.mem_toFinset, List.mem_append, List.mem_cons, firstMem, lastMem]
    constructor
    · rintro (front | rfl | back)
      · exact front.1
      · exact pinned
      · exact back.1
    · intro pinMem
      by_cases same : pin = oid
      · exact Or.inr (Or.inl same)
      · rcases Nat.lt_or_ge (graph.creatorDate pin) (graph.creatorDate oid) with older | newer
        · exact Or.inr (Or.inr ⟨pinMem, older⟩)
        · exact Or.inl ⟨pinMem, same, newer⟩
  · rw [List.pairwise_append, List.pairwise_cons]
    refine ⟨List.pairwise_insertionSort newerThan _, ⟨?_,
      List.pairwise_insertionSort newerThan _⟩, ?_⟩
    · intro pin pinLast
      exact Nat.le_of_lt ((lastMem pin).mp pinLast).2
    · intro pin pinFirst other otherMem
      have front := (firstMem pin).mp pinFirst
      rcases List.mem_cons.mp otherMem with rfl | otherLast
      · exact front.2.2
      · exact (Nat.le_of_lt ((lastMem other).mp otherLast).2).trans front.2.2
  · have long : first.length = ahead.card := by simp [first]
    rw [List.take_append_of_le_length (by rw [long]; exact many)]
    intro kept
    exact ((firstMem oid).mp (List.mem_of_mem_take kept)).2.1 rfl

/-- The request and the mirror of a want-fetch that goes through, up to the listing. -/
structure WantFetched (mirror : Mirror) (body : List UInt8) (lines : List Text) : Prop where
  wanted : parseWants body ≠ ∅
  checks : Checks mirror (parseWants body) lines
  someMissing : missingOids lines ≠ []

/-- All `git` processes of the request succeed; `for-each-ref` prints `listing`. -/
def successful (lines listing : List Text) : GitAnswers where
  batchCheck := some lines
  wantFetch := .served
  forEachRef := some listing
  updateRef := true

theorem ensureWantedOids_successful (fetched : WantFetched mirror body lines)
    (capped : 0 < maxWants)
    (lists : Lists graph (mirror.wantFetch graph (capWants maxWants (missingOids lines))).pins
      listing)
    (result : ensureWantedOids graph maxWants mirror body (successful lines listing) =
      .ok (after, pruned)) :
    after.pins = (listing.take maxWants).toFinset := by
  simp only [ensureWantedOids, fetched.wanted, if_false, successful, fetched.someMissing] at result
  cases prune : pruneWants maxWants (successful lines listing)
      (mirror.wantFetch graph (capWants maxWants (missingOids lines))) with
  | error failure =>
      have notZero : maxWants ≠ 0 := Nat.pos_iff_ne_zero.mp capped
      simp only [pruneWants, successful, notZero, if_false, if_true] at prune
      split at prune <;> cases prune
  | ok kept =>
      simp only [successful] at prune
      rw [prune] at result
      cases result
      have spec := pruneWants_spec capped lists rfl prune
      rw [spec.1]

theorem exists_ensureWantedOids_successful (fetched : WantFetched mirror body lines)
    (listing : List Text) :
    ∃ after pruned, ensureWantedOids graph maxWants mirror body (successful lines listing) =
      .ok (after, pruned) := by
  simp only [ensureWantedOids, fetched.wanted, if_false, successful, fetched.someMissing]
  split
  · rename_i kept _
    exact ⟨kept.1, kept.2, rfl⟩
  · exact ⟨_, _, rfl⟩

/-- At most `maxWants` pins are left and those of the request are among them, whatever the
listing looks like, exactly when fewer than `maxWants` others are at least as new as any of
them. -/
theorem pins_survive_iff (capped : 0 < maxWants) (fetched : WantFetched mirror body lines) :
    (∀ listing after pruned,
      Lists graph (mirror.wantFetch graph (capWants maxWants (missingOids lines))).pins listing →
      ensureWantedOids graph maxWants mirror body (successful lines listing) =
        .ok (after, pruned) →
      after.pins.card ≤ maxWants ∧
        ∀ oid ∈ capWants maxWants (missingOids lines), oid ∈ after.pins) ↔
      ∀ oid ∈ capWants maxWants (missingOids lines),
        outranked graph (mirror.wantFetch graph (capWants maxWants (missingOids lines))).pins oid <
          maxWants := by
  have pinned (oid : Text) (oidMem : oid ∈ capWants maxWants (missingOids lines)) :
      oid ∈ (mirror.wantFetch graph (capWants maxWants (missingOids lines))).pins :=
    Finset.mem_union_right _ (List.mem_toFinset.mpr oidMem)
  constructor
  · intro survives oid oidMem
    by_contra many
    rcases exists_lists_dropping (pinned oid oidMem) (Nat.not_lt.mp many) with
      ⟨listing, lists, dropped⟩
    obtain ⟨after, pruned, result⟩ : ∃ after pruned, ensureWantedOids graph maxWants mirror body
        (successful lines listing) = .ok (after, pruned) :=
      exists_ensureWantedOids_successful fetched listing
    have kept := (survives listing after pruned lists result).2 oid oidMem
    rw [ensureWantedOids_successful fetched capped lists result, List.mem_toFinset] at kept
    exact dropped kept
  · intro few listing after pruned lists result
    rw [ensureWantedOids_successful fetched capped lists result]
    constructor
    · exact (List.toFinset_card_le _).trans (List.length_take_le _ _)
    · intro oid oidMem
      exact List.mem_toFinset.mpr (mem_take_of_outranked lists (pinned oid oidMem)
        (few oid oidMem))

/-! ## Which wants are servable -/

/-- One operation on the mirror: a refresh from upstream, or the wants of a request. -/
inductive MirrorStep (graph : ObjectGraph) (maxWants : ℕ) (mirror : Mirror) : Mirror → Prop where
  | fetch (refs : List (Text × Text)) : MirrorStep graph maxWants mirror (mirror.fetch graph refs)
  | want {body : List UInt8} {git : GitAnswers} {after : Mirror} {pruned : List Text}
      (truthful : Truthful graph maxWants mirror body git)
      (result : ensureWantedOids graph maxWants mirror body git = .ok (after, pruned)) :
      MirrorStep graph maxWants mirror after

/-- The mirrors that runs of operations lead to after a clone. -/
def ReachedMirror (graph : ObjectGraph) (maxWants : ℕ) : Mirror → Prop :=
  Reachable (fun mirror => ∃ refs, mirror = .clone graph refs) (MirrorStep graph maxWants)

/-- The store holds everything that is reachable from a ref. -/
def Mirror.Complete (graph : ObjectGraph) (mirror : Mirror) : Prop :=
  graph.closure mirror.tips ⊆ mirror.objects

/-- `upload-pack` can serve the object: it is reachable from a ref of the mirror, those aside
that the request itself pruned, and all of its history is there. -/
def Servable (graph : ObjectGraph) (mirror : Mirror) (pruned : List Text) (oid : Text) : Prop :=
  oid ∈ graph.closure (mirror.tips ∪ pruned.toFinset) ∧ graph.reach oid ⊆ mirror.objects

theorem closure_union (first second : Finset Text) :
    graph.closure (first ∪ second) = graph.closure first ∪ graph.closure second := by
  ext oid
  simp only [ObjectGraph.closure, Finset.mem_biUnion, Finset.mem_union]
  constructor
  · rintro ⟨tip, tipFirst | tipSecond, reached⟩
    · exact Or.inl ⟨tip, tipFirst, reached⟩
    · exact Or.inr ⟨tip, tipSecond, reached⟩
  · rintro (⟨tip, tipMem, reached⟩ | ⟨tip, tipMem, reached⟩)
    · exact ⟨tip, Or.inl tipMem, reached⟩
    · exact ⟨tip, Or.inr tipMem, reached⟩

theorem closure_mono {first second : Finset Text} (inside : first ⊆ second) :
    graph.closure first ⊆ graph.closure second :=
  Finset.biUnion_subset_biUnion_of_subset_left _ inside

/-- What a request that returns `Ok` did: it fetched some of the missing wants, pinned them, and
pruned pins. -/
structure Granted (graph : ObjectGraph) (mirror after : Mirror) (pruned fetched : List Text) :
    Prop where
  refs : after.refs = mirror.refs
  pins : after.pins ∪ pruned.toFinset = mirror.pins ∪ fetched.toFinset
  objects : after.objects = mirror.objects ∪ graph.closure fetched.toFinset

theorem Granted.nothing : Granted graph mirror mirror [] [] where
  refs := rfl
  pins := rfl
  objects := by simp [ObjectGraph.closure]

/-- A request whose wants are within the cap and served by upstream fetches exactly those that
the store lacks. -/
theorem ensureWantedOids_granted (capped : 0 < maxWants)
    (truthful : Truthful graph maxWants mirror body git)
    (result : ensureWantedOids graph maxWants mirror body git = .ok (after, pruned)) :
    ∃ fetched, Granted graph mirror after pruned fetched ∧
      ((parseWants body).card ≤ maxWants → git.wantFetch ≠ .refused →
        ∀ oid, oid ∈ fetched ↔ oid ∈ parseWants body ∧ oid ∉ mirror.objects) := by
  unfold ensureWantedOids at result
  split at result
  · rename_i nothing
    cases result
    exact ⟨[], .nothing, fun _ _ oid => by simp [nothing]⟩
  split at result
  · cases result
  rename_i lines answered
  have checks := (truthful.batchCheck lines answered).missingOids
  split at result
  · rename_i present
    cases result
    refine ⟨[], .nothing, fun _ _ oid => ?_⟩
    rw [← checks.2 oid, present]
  split at result
  · cases result
  · rename_i refused
    cases result
    exact ⟨[], .nothing, fun _ served => absurd refused served⟩
  · refine ⟨capWants maxWants (missingOids lines), ?_, ?_⟩
    · dsimp only at result
      split at result
      · rename_i kept prune
        cases result
        cases listed : git.forEachRef with
        | none =>
            have notZero : maxWants ≠ 0 := Nat.pos_iff_ne_zero.mp capped
            simp [pruneWants, listed, notZero] at prune
        | some listing =>
            have lists := truthful.forEachRef lines listing answered listed
            have spec := pruneWants_spec capped lists listed prune
            rw [spec.1, spec.2]
            refine ⟨rfl, ?_, rfl⟩
            simp only
            rw [← List.toFinset_append, List.take_append_drop, lists.all]
            rfl
      · cases result
        exact ⟨rfl, by simp [Mirror.wantFetch], rfl⟩
    · intro few _ oid
      have short : (missingOids lines).length ≤ maxWants := by
        rw [← List.toFinset_card_of_nodup checks.1]
        refine (Finset.card_le_card ?_).trans few
        intro missing missingMem
        exact ((checks.2 missing).mp (List.mem_toFinset.mp missingMem)).1
      have uncapped : capWants maxWants (missingOids lines) = missingOids lines := by
        rw [capWants, if_neg]
        omega
      rw [uncapped]
      exact checks.2 oid

theorem Granted.tips_eq {fetched : List Text} (granted : Granted graph mirror after pruned fetched) :
    after.tips ∪ pruned.toFinset = mirror.tips ∪ fetched.toFinset := by
  rw [Mirror.tips, Finset.union_assoc, granted.pins, granted.refs, Mirror.tips,
    Finset.union_assoc]

theorem Granted.complete {fetched : List Text} (granted : Granted graph mirror after pruned fetched)
    (complete : mirror.Complete graph) :
    graph.closure (after.tips ∪ pruned.toFinset) ⊆ after.objects := by
  rw [granted.tips_eq, closure_union, granted.objects]
  exact Finset.union_subset_union_left complete

/-- Every mirror that a run reaches is complete. -/
theorem complete_of_reached (capped : 0 < maxWants)
    (reached : ReachedMirror graph maxWants mirror) : mirror.Complete graph := by
  apply Reachable.invariant reached
  · rintro _ ⟨refs, rfl⟩
    simp [Mirror.Complete, Mirror.clone, Mirror.tips]
  · intro before after complete taken
    cases taken with
    | fetch refs =>
        have tips : (before.fetch graph refs).tips ⊆
            before.tips ∪ (refs.map Prod.snd).toFinset := by
          intro tip tipMem
          simp only [Mirror.tips, Mirror.fetch, Finset.mem_union] at tipMem ⊢
          tauto
        refine (closure_mono tips).trans ?_
        rw [closure_union]
        exact Finset.union_subset_union_left complete
    | want truthful result =>
        rcases ensureWantedOids_granted capped truthful result with ⟨fetched, granted, _⟩
        exact (closure_mono Finset.subset_union_left).trans (granted.complete complete)

/-- Every wanted object is servable afterwards exactly when those that the store had already
were still reachable, from a ref or from a wanted object that it lacked. -/
theorem wanted_servable_iff (capped : 0 < maxWants)
    (reached : ReachedMirror graph maxWants mirror)
    (few : (parseWants body).card ≤ maxWants)
    (truthful : Truthful graph maxWants mirror body git) (served : git.wantFetch ≠ .refused)
    (result : ensureWantedOids graph maxWants mirror body git = .ok (after, pruned)) :
    (∀ oid ∈ parseWants body, Servable graph after pruned oid) ↔
      ∀ oid ∈ parseWants body, oid ∈ mirror.objects →
        oid ∈ graph.closure mirror.tips ∨
          ∃ other ∈ parseWants body, other ∉ mirror.objects ∧ oid ∈ graph.reach other := by
  rcases ensureWantedOids_granted capped truthful result with ⟨fetched, granted, exactly⟩
  have complete := granted.complete (complete_of_reached capped reached)
  have fetchedMem := exactly few served
  have reachable (oid : Text) : oid ∈ graph.closure (after.tips ∪ pruned.toFinset) ↔
      oid ∈ graph.closure mirror.tips ∨
        ∃ other ∈ parseWants body, other ∉ mirror.objects ∧ oid ∈ graph.reach other := by
    rw [granted.tips_eq, closure_union, Finset.mem_union, ObjectGraph.closure,
      ObjectGraph.closure]
    simp only [Finset.mem_biUnion, List.mem_toFinset, fetchedMem, and_assoc]
  constructor
  · intro servable oid wanted _
    exact (reachable oid).mp (servable oid wanted).1
  · intro reachableIfPresent oid wanted
    have inClosure : oid ∈ graph.closure (after.tips ∪ pruned.toFinset) := by
      rw [reachable]
      by_cases present : oid ∈ mirror.objects
      · exact reachableIfPresent oid wanted present
      · exact Or.inr ⟨oid, wanted, present, graph.self oid⟩
    refine ⟨inClosure, fun ancestor ancestorMem => complete ?_⟩
    rw [ObjectGraph.closure, Finset.mem_biUnion] at inClosure ⊢
    rcases inClosure with ⟨tip, tipMem, reached⟩
    exact ⟨tip, tipMem, graph.trans reached ancestorMem⟩

/-! ## Two commits and one pin -/

/-- The body `0032want <oid>` with an object ID of one digit repeated. -/
def wantBody (digit : UInt8) : List UInt8 :=
  [48, 48, 51, 50] ++ wantMark ++ List.replicate 40 digit ++ [10]

def older : Text := List.replicate 40 'a'

def newer : Text := List.replicate 40 'b'

/-- Two commits without a common history, `newer` being the more recent one. -/
def twoCommits : ObjectGraph where
  reach := fun oid => {oid}
  self := fun oid => Finset.mem_singleton_self oid
  trans := fun inside => by simpa using inside
  creatorDate := fun oid => if oid = newer then 2 else 1

/-- `cat-file` reports one missing object and `for-each-ref` these pins. -/
def answers (missing : Text) (pins : List Text) : GitAnswers :=
  successful [missing ++ missingMark] pins

theorem parseWants_older : parseWants (wantBody 97) = {older} := by decide

theorem parseWants_newer : parseWants (wantBody 98) = {newer} := by decide

/-- What `cat-file` says about a tag of one byte. -/
def tagInfo : Text := ['t', 'a', 'g', ' ', '1']

theorem tagInfo_not_missing (oid : Text) : ¬missingMark <:+ oid ++ ' ' :: tagInfo := by
  rintro ⟨before, same⟩
  have mark : missingMark = [' ', 'm', 'i', 's', 's', 'i', 'n'] ++ ['g'] := by decide
  have line : oid ++ ' ' :: tagInfo = (oid ++ [' ', 't', 'a', 'g', ' ']) ++ ['1'] := by
    simp [tagInfo]
  rw [mark, ← List.append_assoc, line] at same
  have last := (List.append_inj' same rfl).2
  exact absurd last (by decide)

theorem checks_of_one (mirror : Mirror) (oid : Text) :
    Checks mirror {oid} [batchLine mirror (fun _ => tagInfo) oid] :=
  ⟨⟨[oid], fun _ => tagInfo, by simp, by simp, rfl, tagInfo_not_missing⟩⟩

theorem wantFetched_newer : WantFetched (.clone twoCommits []) (wantBody 98)
    [newer ++ missingMark] where
  wanted := by decide
  checks := by
    rw [parseWants_newer]
    exact checks_of_one (.clone twoCommits []) newer
  someMissing := by decide

theorem pins_survive_newer :
    ∃ after pruned, ensureWantedOids twoCommits 1 (.clone twoCommits []) (wantBody 98)
        (successful [newer ++ missingMark] [newer]) = .ok (after, pruned) ∧
      newer ∈ after.pins := by
  have few : ∀ oid ∈ capWants 1 (missingOids [newer ++ missingMark]),
      outranked twoCommits ((Mirror.clone twoCommits []).wantFetch twoCommits
        (capWants 1 (missingOids [newer ++ missingMark]))).pins oid < 1 := by
    decide
  have survives := (pins_survive_iff Nat.one_pos wantFetched_newer).mpr few
  refine ⟨_, _, rfl, ?_⟩
  exact (survives [newer] _ _ ⟨by decide, by decide, by decide⟩ rfl).2 newer (by decide)

/-- The mirror in which `newer` is pinned. -/
def pinnedNewer : Mirror := (Mirror.clone twoCommits []).wantFetch twoCommits [newer]

theorem wantFetched_older : WantFetched pinnedNewer (wantBody 97) [older ++ missingMark] where
  wanted := by decide
  checks := by
    rw [parseWants_older]
    exact checks_of_one pinnedNewer older
  someMissing := by decide

/-- The commit that was just fetched is older than the pin in place, and goes. -/
theorem fetched_pin_pruned :
    ∃ after pruned,
      WantFetched pinnedNewer (wantBody 97) [older ++ missingMark] ∧
      Lists twoCommits (pinnedNewer.wantFetch twoCommits [older]).pins [newer, older] ∧
      ensureWantedOids twoCommits 1 pinnedNewer (wantBody 97)
        (successful [older ++ missingMark] [newer, older]) = .ok (after, pruned) ∧
      older ∉ after.pins :=
  ⟨_, _, wantFetched_older, ⟨by decide, by decide, by decide⟩, rfl, by decide⟩

theorem truthful_newer : Truthful twoCommits 1 (.clone twoCommits []) (wantBody 98)
    (successful [newer ++ missingMark] [newer]) where
  batchCheck := by
    rintro lines ⟨⟩
    exact wantFetched_newer.checks
  forEachRef := by
    rintro lines listing ⟨⟩ ⟨⟩
    exact ⟨by decide, by decide, by decide⟩

theorem truthful_older : Truthful twoCommits 1 pinnedNewer (wantBody 97)
    (successful [older ++ missingMark] [newer, older]) where
  batchCheck := by
    rintro lines ⟨⟩
    exact wantFetched_older.checks
  forEachRef := by
    rintro lines listing ⟨⟩ ⟨⟩
    exact ⟨by decide, by decide, by decide⟩

theorem wanted_servable_newer :
    ∃ after pruned, ensureWantedOids twoCommits 1 (.clone twoCommits []) (wantBody 98)
        (successful [newer ++ missingMark] [newer]) = .ok (after, pruned) ∧
      Servable twoCommits after pruned newer := by
  refine ⟨_, _, rfl, ?_⟩
  have servable := (wanted_servable_iff Nat.one_pos (Reachable.start ⟨[], rfl⟩) (by decide)
    truthful_newer (by decide) rfl).mpr (by decide)
  exact servable newer (by decide)

/-- The mirror after `older` was pinned and pruned at once. -/
def prunedOlder : Mirror :=
  { pinnedNewer.wantFetch twoCommits [older] with
    pins := (pinnedNewer.wantFetch twoCommits [older]).pins \ [older].toFinset }

theorem reached_prunedOlder : ReachedMirror twoCommits 1 prunedOlder := by
  have cloned : ReachedMirror twoCommits 1 (.clone twoCommits []) := .start ⟨[], rfl⟩
  have firstResult : ensureWantedOids twoCommits 1 (.clone twoCommits []) (wantBody 98)
      (successful [newer ++ missingMark] [newer]) = .ok (pinnedNewer, []) := rfl
  have secondResult : ensureWantedOids twoCommits 1 pinnedNewer (wantBody 97)
      (successful [older ++ missingMark] [newer, older]) = .ok (prunedOlder, [older]) := rfl
  exact .next (.next cloned (.want truthful_newer firstResult)) (.want truthful_older secondResult)

/-- Asked for again, the pruned commit is still in the store: nothing is fetched, and no ref
leads to it. -/
theorem pruned_pin_not_servable :
    let git : GitAnswers := ⟨some [older ++ ' ' :: tagInfo], .served, none, true⟩
    ReachedMirror twoCommits 1 prunedOlder ∧ (parseWants (wantBody 97)).card ≤ 1 ∧
      Truthful twoCommits 1 prunedOlder (wantBody 97) git ∧
      ensureWantedOids twoCommits 1 prunedOlder (wantBody 97) git = .ok (prunedOlder, []) ∧
      ¬∀ oid ∈ parseWants (wantBody 97), Servable twoCommits prunedOlder [] oid := by
  intro git
  refine ⟨reached_prunedOlder, by decide, ⟨?_, ?_⟩, rfl, ?_⟩
  · rintro lines ⟨⟩
    rw [parseWants_older]
    exact checks_of_one prunedOlder older
  · rintro lines listing _ ⟨⟩
  · intro servable
    have reachable := (servable older (by decide)).1
    exact absurd reachable (by decide)

end GitCacheProxy.Git
