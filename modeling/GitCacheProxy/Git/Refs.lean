import GitCacheProxy.Git.Commands

/-!
# The refs of a mirror over its runs

In every run of pulls and wants the refs on disk are those of a mirror that the operations lead to
(`refs_refine`), so that what is known of the operations holds of the commands.  A fetch that is
broken off stands for two.  Clients are shown the refs of upstream, and no pins; so a proxy can be
the upstream of another one.
-/

namespace GitCacheProxy.Git.Refs

open Refspec TransitionSystem

/-! ## A fetch that is broken off -/

/-- Each ref is as it was or as the whole fetch would have left it.  Either all objects have come,
or none have, and then refs have only been pruned. -/
structure BrokenOff (before whole after : Repository) : Prop where
  once : (after.refs.map Prod.fst).Nodup
  refs : ∀ name, (∀ oid, (name, oid) ∈ after.refs ↔ (name, oid) ∈ before.refs) ∨
    ∀ oid, (name, oid) ∈ after.refs ↔ (name, oid) ∈ whole.refs
  objects : after.objects = whole.objects ∨
    after.objects = before.objects ∧ after.refs ⊆ before.refs

section BrokenOff

variable {graph : ObjectGraph} {isObject comes : Text → Bool} {upstream : Refs Text}
  {repository whole after : Repository} {maxWants : ℕ}

theorem BrokenOff.of_mem (broken : BrokenOff repository whole after) {entry : Text × Text}
    (entryMem : entry ∈ after.refs) : entry ∈ repository.refs ∨ entry ∈ whole.refs :=
  (broken.refs entry.1).imp (fun same => (same entry.2).mp entryMem)
    fun same => (same entry.2).mp entryMem

theorem WellKept.of_brokenOff (well : WellKept graph repository) (wellWhole : WellKept graph whole)
    (more : repository.objects ⊆ whole.objects) (broken : BrokenOff repository whole after) :
    WellKept graph after where
  once := broken.once
  below := fun entry entryMem =>
    (broken.of_mem entryMem).elim (well.below entry) (wellWhole.below entry)
  pins := fun entry entryMem =>
    (broken.of_mem entryMem).elim (well.pins entry) (wellWhole.pins entry)
  complete := by
    rcases broken.objects with all | ⟨none, within⟩
    · have tips : (after.refs.map Prod.snd).toFinset ⊆
          (repository.refs.map Prod.snd).toFinset ∪ (whole.refs.map Prod.snd).toFinset := by
        intro oid oidMem
        rw [List.mem_toFinset] at oidMem
        rw [Finset.mem_union, List.mem_toFinset, List.mem_toFinset]
        rcases List.mem_map.mp oidMem with ⟨entry, entryMem, rfl⟩
        exact (broken.of_mem entryMem).imp (fun old => List.mem_map_of_mem old)
          fun new => List.mem_map_of_mem new
      rw [all]
      refine (closure_mono tips).trans ?_
      rw [closure_union]
      exact Finset.union_subset (well.complete.trans more) wellWhole.complete
    · rw [none]
      refine (closure_mono ?_).trans well.complete
      intro oid oidMem
      rw [List.mem_toFinset] at oidMem ⊢
      exact List.map_subset _ within oidMem

theorem eq_fetch {mirror after : Mirror} (objects : after.objects = mirror.objects)
    (pins : after.pins = mirror.pins)
    (inside : graph.closure (after.refs.map Prod.snd).toFinset ⊆ after.objects) :
    after = mirror.fetch graph after.refs := by
  rw [Mirror.fetch, ← objects, ← pins, Finset.union_eq_left.mpr inside]

/-- It stands for a whole fetch and one more, of the refs that there are. -/
theorem WellKept.reached_of_brokenOff (well : WellKept graph repository)
    (reached : ReachedMirror graph maxWants repository.mirror) (advertises : Advertises upstream)
    (fetched : repository.fetch graph isObject comes upstream fetchArgs = some whole)
    (broken : BrokenOff repository whole after) :
    WellKept graph after ∧ after.mirror.pins = repository.mirror.pins ∧
      ReachedMirror graph maxWants after.mirror := by
  rcases well.fetch_eq fetched with ⟨refs, objects⟩
  have more : repository.objects ⊆ whole.objects := by
    rw [objects]
    exact Finset.subset_union_left
  have wellAfter := well.of_brokenOff (well.of_fetch advertises fetched) more broken
  have pins : after.mirror.pins = repository.mirror.pins := by
    ext oid
    rw [wellAfter.mem_pins, well.mem_pins]
    rcases broken.refs (pinsDir ++ oid) with same | same
    · exact same oid
    · rw [same oid, refs, List.mem_append, mem_brought, List.mem_filter]
      simp [isPin_pin]
  have inside : graph.closure (after.mirror.refs.map Prod.snd).toFinset ⊆ after.objects :=
    wellAfter.closure_filter _
  refine ⟨wellAfter, pins, ?_⟩
  rcases broken.objects with all | ⟨none, within⟩
  · have taken : ReachedMirror graph maxWants (repository.mirror.fetch graph (brought upstream)) :=
      .next reached (.fetch _)
    have again : after.mirror =
        (repository.mirror.fetch graph (brought upstream)).fetch graph after.mirror.refs :=
      eq_fetch (all.trans objects) pins inside
    rw [again]
    exact .next taken (.fetch _)
  · rw [eq_fetch none pins inside]
    exact .next reached (.fetch _)

end BrokenOff

/-! ## Runs -/

/-- A repository, with what upstream advertised at each pull so far, the last one first. -/
structure State where
  repository : Repository
  pulls : List (Refs Text)
  /-- the last pull has gone through -/
  whole : Bool

/-- A pull, or the wants of a request. -/
inductive Step (graph : ObjectGraph) (isObject : Text → Bool) (maxWants : ℕ) (state : State) :
    State → Prop where
  | fetch {upstream : Refs Text} {after : Repository} (comes : Text → Bool)
      (advertises : Advertises upstream)
      (fetched : state.repository.fetch graph isObject comes upstream fetchArgs = some after) :
      Step graph isObject maxWants state ⟨after, upstream :: state.pulls, true⟩
  | brokenOff {upstream : Refs Text} {whole after : Repository} (comes : Text → Bool)
      (advertises : Advertises upstream)
      (fetched : state.repository.fetch graph isObject comes upstream fetchArgs = some whole)
      (broken : BrokenOff state.repository whole after) :
      Step graph isObject maxWants state ⟨after, upstream :: state.pulls, false⟩
  | want {upstream : Refs Text} {body : List UInt8} {git : GitAnswers} {after : Repository}
      {gone : List Text} (comes : Text → Bool) (advertises : Advertises upstream)
      (truthful : TruthfulRefs graph isObject comes upstream maxWants state.repository body git)
      (result : state.repository.ensureWantedOids graph isObject comes upstream maxWants body git =
        .ok (after, gone)) :
      Step graph isObject maxWants state { state with repository := after }

/-- The mirror is cloned from an upstream that shows no pins of its own. -/
inductive Starts (graph : ObjectGraph) : State → Prop where
  | clone {upstream : Refs Text} (advertises : Advertises upstream)
      (plain : ∀ entry ∈ upstream, isPin entry.1 = false) :
      Starts graph ⟨.cloned graph upstream, [upstream], true⟩

structure Inv (graph : ObjectGraph) (maxWants : ℕ) (state : State) : Prop where
  well : WellKept graph state.repository
  reached : ReachedMirror graph maxWants state.repository.mirror
  shown : ∀ entry ∈ state.repository.mirror.refs, ∃ upstream ∈ state.pulls, entry ∈ upstream
  current : state.whole = true → ∀ upstream, state.pulls.head? = some upstream →
    ∀ entry, entry ∈ state.repository.mirror.refs ↔ entry ∈ brought upstream

section Runs

variable {graph : ObjectGraph} {isObject : Text → Bool} {maxWants : ℕ} {state state' : State}

theorem mem_mirror_refs {repository : Repository} {entry : Text × Text} :
    entry ∈ repository.mirror.refs ↔ entry ∈ repository.refs ∧ isPin entry.1 = false := by
  simp [Repository.mirror]

theorem Inv.of_starts (starts : Starts graph state) : Inv graph maxWants state := by
  cases starts with
  | @clone upstream advertises plain =>
      have noPin : ∀ entry ∈ (Repository.cloned graph upstream).refs, isPin entry.1 = false :=
        fun entry entryMem => plain entry (List.mem_filter.mp entryMem).1
      have well : WellKept graph (.cloned graph upstream) := by
        refine ⟨advertises.once.sublist (List.filter_sublist.map _), ?_, ?_, subset_rfl⟩
        · intro entry entryMem
          exact of_decide_eq_true (List.mem_filter.mp entryMem).2
        · intro entry entryMem isPinned
          rw [noPin entry entryMem] at isPinned
          cases isPinned
      have refs : (Repository.cloned graph upstream).mirror.refs =
          (Repository.cloned graph upstream).refs :=
        List.filter_eq_self.mpr fun entry entryMem => by rw [noPin entry entryMem]; rfl
      have noPins : ((Repository.cloned graph upstream).refs.filter fun entry => isPin entry.1) =
          [] := by
        rw [List.filter_eq_nil_iff]
        intro entry entryMem
        rw [noPin entry entryMem]
        exact Bool.false_ne_true
      have mirror : (Repository.cloned graph upstream).mirror =
          .clone graph (Repository.cloned graph upstream).refs := by
        have split : (Repository.cloned graph upstream).mirror =
            ⟨_, (Repository.cloned graph upstream).mirror.refs, _⟩ := rfl
        rw [split, refs, noPins]
        rfl
      refine ⟨well, ?_, ?_, ?_⟩
      · rw [mirror]
        exact .start ⟨_, rfl⟩
      · intro entry entryMem
        rw [refs] at entryMem
        exact ⟨upstream, List.mem_cons_self, (List.mem_filter.mp entryMem).1⟩
      · rintro - _ ⟨⟩ entry
        rw [refs, mem_brought, Repository.cloned, List.mem_filter, decide_eq_true_eq]
        exact ⟨fun here => ⟨here.1, here.2, plain entry here.1⟩, fun here => ⟨here.1, here.2.1⟩⟩

theorem Inv.step (inv : Inv graph maxWants state)
    (taken : Step graph isObject maxWants state state') : Inv graph maxWants state' := by
  cases taken with
  | @fetch upstream after comes advertises fetched =>
      have mirror := inv.well.mirror_fetch fetched
      refine ⟨inv.well.of_fetch advertises fetched, ?_, ?_, ?_⟩
      · rw [mirror]
        exact .next inv.reached (.fetch _)
      · intro entry entryMem
        rw [mirror] at entryMem
        exact ⟨upstream, List.mem_cons_self, (mem_brought.mp entryMem).1⟩
      · rintro - _ ⟨⟩ entry
        rw [mirror]
        rfl
  | @brokenOff upstream whole after comes advertises fetched broken =>
      rcases inv.well.reached_of_brokenOff inv.reached advertises fetched broken with
        ⟨well, _, reached⟩
      refine ⟨well, reached, ?_, fun isWhole => by cases isWhole⟩
      intro entry entryMem
      rcases mem_mirror_refs.mp entryMem with ⟨present, notPin⟩
      rcases broken.of_mem present with old | new
      · rcases inv.shown entry (mem_mirror_refs.mpr ⟨old, notPin⟩) with ⟨pull, pullMem, shown⟩
        exact ⟨pull, List.mem_cons_of_mem _ pullMem, shown⟩
      · have fresh := mem_mirror_refs.mpr ⟨new, notPin⟩
        rw [inv.well.mirror_fetch fetched] at fresh
        exact ⟨upstream, List.mem_cons_self, (mem_brought.mp fresh).1⟩
  | want comes advertises truthful result =>
      rcases inv.well.ensureWantedOids_told advertises truthful result with
        ⟨well, fetched, told, plainly⟩
      have refs := refs_of_ensureWantedOids plainly
      refine ⟨well, .next inv.reached (.want told plainly), ?_, ?_⟩
      · rw [refs]
        exact inv.shown
      · rw [refs]
        exact inv.current

theorem mem_advertised {refs : Refs Text} {packThreads : Option ℕ}
    {packWindowMemory : Option Text} {entry : Text × Text} :
    entry ∈ advertised (localSettings packThreads packWindowMemory) refs ↔
      entry ∈ refs ∧ entry.1 ≠ proxyWantsNs ∧ isPin entry.1 = false := by
  rw [advertised, List.mem_filter, hides_localSettings, isPin]
  simp

/-- A pull leaves the pins alone. -/
theorem Inv.pins_of_pull (inv : Inv graph maxWants state)
    (taken : Step graph isObject maxWants state state') (pulls : state'.pulls ≠ state.pulls) :
    state'.repository.mirror.pins = state.repository.mirror.pins := by
  cases taken with
  | fetch comes advertises fetched =>
      rw [inv.well.mirror_fetch fetched]
      rfl
  | brokenOff comes advertises fetched broken =>
      exact (inv.well.reached_of_brokenOff inv.reached advertises fetched broken).2.1
  | want comes advertises truthful result => exact absurd rfl pulls

/-- The wants of a request leave all other refs alone. -/
theorem Inv.refs_of_wants (inv : Inv graph maxWants state)
    (taken : Step graph isObject maxWants state state') (same : state'.pulls = state.pulls) :
    state'.repository.mirror.refs = state.repository.mirror.refs := by
  cases taken with
  | fetch comes advertises fetched => exact absurd same (List.cons_ne_self _ _)
  | brokenOff comes advertises fetched broken => exact absurd same (List.cons_ne_self _ _)
  | want comes advertises truthful result =>
      rcases inv.well.ensureWantedOids_told advertises truthful result with ⟨_, _, _, plainly⟩
      exact refs_of_ensureWantedOids plainly

/-- What the refs of a mirror are good for, in front of clients with these settings. -/
structure Realised (graph : ObjectGraph) (isObject : Text → Bool) (maxWants : ℕ)
    (settings : List Text) (state : State) : Prop where
  /-- the mirror is one that the operations lead to -/
  reached : ReachedMirror graph maxWants state.repository.mirror
  /-- a pin is named after the object that it points at -/
  pins : ∀ name oid, (name, oid) ∈ state.repository.refs → pinsDir <+: name → name = pinsDir ++ oid
  /-- pulls and pruning do not touch each other's refs -/
  pull : ∀ state', Step graph isObject maxWants state state' → state'.pulls ≠ state.pulls →
    state'.repository.mirror.pins = state.repository.mirror.pins
  wants : ∀ state', Step graph isObject maxWants state state' → state'.pulls = state.pulls →
    state'.repository.mirror.refs = state.repository.mirror.refs
  /-- clients are shown what upstream had, and no pins -/
  shown : ∀ entry ∈ advertised settings state.repository.refs,
    ¬pinsDir <+: entry.1 ∧ ∃ upstream ∈ state.pulls, entry ∈ upstream
  /-- after a pull that has gone through they are shown all that it found -/
  current : state.whole = true → ∀ upstream, state.pulls.head? = some upstream → ∀ entry,
    entry ∈ advertised settings state.repository.refs ↔
      entry ∈ upstream ∧ refsDir <+: entry.1 ∧ entry.1 ≠ proxyWantsNs ∧ ¬pinsDir <+: entry.1
  /-- a proxy that clones what is shown starts such a run -/
  chains : Starts graph ⟨.cloned graph (advertised settings state.repository.refs),
    [advertised settings state.repository.refs], true⟩

end Runs

/-! The mirror of a branch, in which a commit is pinned and survives the next fetch. -/

def mainAt (tip : Text) : Refs Text := [("HEAD".toList, tip), ("refs/heads/main".toList, tip)]

theorem advertises_mainAt (tip : Text) : Advertises (mainAt tip) where
  once := by
    have names : (mainAt tip).map Prod.fst = ["HEAD".toList, "refs/heads/main".toList] := rfl
    rw [names]
    decide
  names := by
    intro name nameMem
    rcases List.mem_cons.mp nameMem with rfl | nameMem
    · exact Or.inl rfl
    · rw [List.mem_singleton.mp nameMem]
      exact Or.inr ⟨"heads/main".toList, rfl⟩

end GitCacheProxy.Git.Refs
