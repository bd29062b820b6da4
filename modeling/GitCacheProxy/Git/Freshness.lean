import GitCacheProxy.Git.Machine

/-!
# How fresh a mirror is

Any number of requests and evictions of one repository, in any order.  A stamp
is taken before the pull that it stands for reads upstream, and is written only
once that pull has succeeded, all under the lock.  So the content of a mirror is
never older than the stamp, and what a request decides on the stamp's age holds
of the content.

`Holds` says what is known at each stage of a request; `Inv` adds what is known
in between.  One action keeps both (`Inv.step`).
-/

namespace GitCacheProxy.Git

open Repo FileTree TransitionSystem

universe u

variable {Task : Type u}

/-- The last successful pull started less than a time to live before the decision. -/
def Call.Young (fetchTtl : ℕ) (call : Call) : Prop :=
  ∃ stamp, call.lastPull = some stamp ∧ fetchTtl ≠ 0 ∧ call.decidedAt - stamp < fetchTtl

/-- The branch a call has taken is the one its decision asks for. -/
def Call.Sound (fetchTtl : ℕ) (call : Call) : Prop :=
  match call.outcome with
  | .cloned => call.found = false
  | .fetched => call.found = true ∧ ¬call.Young fetchTtl
  | .cached => call.found = true ∧ (call.wantFetch = true → call.Young fetchTtl)

/-- Every ref was read recently enough for the call. -/
def Call.Fresh (fetchTtl : ℕ) (call : Call) (reads : Text → ℕ) : Prop :=
  call.wantFetch = true →
    (∀ ref, call.decidedAt ≤ reads ref + fetchTtl) ∧
      (fetchTtl = 0 → ∀ ref, call.lockedAt ≤ reads ref)

/-! ## What is known at each stage -/

section Stages

variable (fetchTtl : ℕ) (repo : RepoRef) (shared : Shared Task)

/-- The stamp is that of the last successful pull. -/
def Settled : Prop := shared.last repo.name = shared.pulled repo.name

/-- The instants of a call are in order. -/
structure InOrder (clock : ℕ) (call : Call) : Prop where
  locked : call.lockedAt ≤ call.started
  started : call.started ≤ call.decidedAt
  decided : call.decidedAt ≤ clock

/-- In a clone or a fetch: nothing has changed since the decision. -/
structure Pulling (outcome : CacheOutcome) (call : Call) (read : Option ℕ) : Prop where
  order : InOrder shared.clock call
  settled : Settled repo shared
  branch : call.outcome = outcome
  older : ∀ stamp, shared.pulled repo.name = some stamp → stamp ≤ call.decidedAt
  read : ∀ instant, read = some instant → call.decidedAt ≤ instant

/-- Between the success of a pull and its stamp. -/
structure Renewed (call : Call) : Prop where
  order : InOrder shared.clock call
  head : hasHead shared.disk repo.cacheDir = true
  pulled : shared.pulled repo.name = some call.started
  content : ∃ reads, shared.content repo.name = some reads ∧ ∀ ref, call.decidedAt ≤ reads ref

/-- From then on, or from the decision to serve what is cached. -/
structure Served (call : Call) : Prop where
  order : InOrder shared.clock call
  settled : Settled repo shared
  head : hasHead shared.disk repo.cacheDir = true
  content : ∃ reads, shared.content repo.name = some reads ∧ call.Fresh fetchTtl reads

/-- What a task knows at its stage. -/
def Holds : Stage → Prop
  | .locked _ _ lockedAt => lockedAt ≤ shared.clock ∧ Settled repo shared
  | .started ticket =>
      ticket.lockedAt ≤ ticket.started ∧ ticket.started ≤ shared.clock ∧ Settled repo shared
  | .mirrored ticket =>
      ticket.lockedAt ≤ ticket.started ∧ ticket.started ≤ shared.clock ∧ Settled repo shared ∧
        hasHead shared.disk repo.cacheDir = true
  | .making call => Pulling repo shared .cloned call none
  | .cloning call read => Pulling repo shared .cloned call read
  | .cloned call read => Pulling repo shared .cloned call (some read)
  | .fetching call read =>
      Pulling repo shared .fetched call read ∧ hasHead shared.disk repo.cacheDir = true
  | .changed call wants | .marked call wants =>
      if wants then Served fetchTtl repo shared call else Renewed repo shared call
  | .stamping call => Renewed repo shared call
  | .wanting call | .pruning call | .leaving call (.ok _) => Served fetchTtl repo shared call
  | .leaving _ (.error _) | .evictLocked _ _ | .clearing _ _ | .vacating _ _ | .vacated _ _ =>
      Settled repo shared
  | .idle | .queued _ _ | .serving _ | .evictQueued _ _ | .sweeping _ => True

end Stages

variable {fetchTtl : ℕ} {repo : RepoRef} {shared shared' : Shared Task} {stage stage' : Stage}
  {effect : Effect} {task : Task}

/-- What a task knows outlasts everything that leaves its mirror and its lock alone. -/
theorem Holds.mono (known : Holds fetchTtl repo shared stage)
    (later : shared.clock ≤ shared'.clock)
    (sameLast : shared'.last repo.name = shared.last repo.name)
    (samePulled : shared'.pulled repo.name = shared.pulled repo.name)
    (sameContent : shared'.content repo.name = shared.content repo.name)
    (head : hasHead shared.disk repo.cacheDir = true →
      hasHead shared'.disk repo.cacheDir = true) : Holds fetchTtl repo shared' stage := by
  have settled (before : Settled repo shared) : Settled repo shared' := by
    rw [Settled, sameLast, samePulled]
    exact before
  have order {call : Call} (before : InOrder shared.clock call) :
      InOrder shared'.clock call :=
    ⟨before.locked, before.started, before.decided.trans later⟩
  have pulling {outcome : CacheOutcome} {call : Call} {read : Option ℕ}
      (before : Pulling repo shared outcome call read) : Pulling repo shared' outcome call read :=
    ⟨order before.order, settled before.settled, before.branch, samePulled ▸ before.older,
      before.read⟩
  have renewed {call : Call} (before : Renewed repo shared call) : Renewed repo shared' call :=
    ⟨order before.order, head before.head, samePulled ▸ before.pulled,
      sameContent ▸ before.content⟩
  have served {call : Call} (before : Served fetchTtl repo shared call) :
      Served fetchTtl repo shared' call :=
    ⟨order before.order, settled before.settled, head before.head, sameContent ▸ before.content⟩
  cases stage with
  | locked _ _ lockedAt => exact ⟨known.1.trans later, settled known.2⟩
  | started ticket => exact ⟨known.1, known.2.1.trans later, settled known.2.2⟩
  | mirrored ticket =>
      exact ⟨known.1, known.2.1.trans later, settled known.2.2.1, head known.2.2.2⟩
  | making call => exact pulling known
  | cloning call read => exact pulling known
  | cloned call read => exact pulling known
  | fetching call read => exact ⟨pulling known.1, head known.2⟩
  | changed call wants =>
      cases wants with
      | true => exact served known
      | false => exact renewed known
  | marked call wants =>
      cases wants with
      | true => exact served known
      | false => exact renewed known
  | stamping call => exact renewed known
  | wanting call => exact served known
  | pruning call => exact served known
  | leaving call result =>
      cases result with
      | ok outcome => exact served known
      | error error => exact settled known
  | evictLocked name dir => exact settled known
  | clearing name dir => exact settled known
  | vacating name dir => exact settled known
  | vacated name dir => exact settled known
  | _ => trivial

theorem Holds.of_not_held (notHeld : stage.held = none) : Holds fetchTtl repo shared stage := by
  cases stage with
  | idle => trivial
  | queued repo wantFetch => trivial
  | serving repo => trivial
  | evictQueued name dir => trivial
  | sweeping dir => trivial
  | _ => cases notHeld

/-- What is known whoever holds the lock. -/
structure Kept (repo : RepoRef) (shared : Shared Task) : Prop where
  settled : shared.owner repo.name = none → Settled repo shared
  content : hasHead shared.disk repo.cacheDir = true → (shared.content repo.name).isSome
  stamped : ∀ stamp, shared.pulled repo.name = some stamp → stamp ≤ shared.clock
  reads : ∀ stamp reads, shared.pulled repo.name = some stamp →
    shared.content repo.name = some reads → ∀ ref, stamp ≤ reads ref

theorem isStale_eq_false_iff {decided : ℕ} {last : Option ℕ} :
    GitCache.isStale fetchTtl decided last = false ↔
      ∃ stamp, last = some stamp ∧ fetchTtl ≠ 0 ∧ decided - stamp < fetchTtl := by
  cases last with
  | none => simp [GitCache.isStale]
  | some stamp =>
      simp only [GitCache.isStale, decide_eq_false_iff_not, Option.some.injEq, exists_eq_left']
      omega

theorem holds_decide {ticket : Ticket} (kept : Kept repo shared) (own : ticket.repo = repo)
    (locked : ticket.lockedAt ≤ ticket.started) (started : ticket.started ≤ shared.clock)
    (settled : Settled repo shared) (head : hasHead shared.disk repo.cacheDir = true) :
    Holds fetchTtl repo shared (shared.decide fetchTtl ticket) ∧
      ∀ call, (shared.decide fetchTtl ticket).call? = some call → call.Sound fetchTtl := by
  have same : shared.last ticket.repo.name = shared.pulled ticket.repo.name := by
    rw [own]
    exact settled
  simp only [Shared.decide]
  cases stale : ticket.wantFetch && GitCache.isStale fetchTtl shared.clock
      (shared.last ticket.repo.name) with
  | true =>
      simp only [if_true]
      constructor
      · refine ⟨⟨⟨locked, started, le_refl _⟩, settled, rfl, kept.stamped, ?_⟩, head⟩
        intro instant impossible
        cases impossible
      · rintro call isCall
        cases isCall
        refine ⟨rfl, ?_⟩
        rintro ⟨stamp, isLast, positive, young⟩
        have fresh : GitCache.isStale fetchTtl shared.clock (shared.last ticket.repo.name) =
            false := isStale_eq_false_iff.mpr ⟨stamp, same.trans isLast, positive, young⟩
        rw [fresh, Bool.and_false] at stale
        cases stale
  | false =>
      have young (wants : ticket.wantFetch = true) : ∃ stamp,
          shared.pulled ticket.repo.name = some stamp ∧ fetchTtl ≠ 0 ∧
            shared.clock - stamp < fetchTtl := by
        rw [wants, Bool.true_and, isStale_eq_false_iff, same] at stale
        exact stale
      simp only [Bool.false_eq_true, if_false]
      constructor
      · rcases Option.isSome_iff_exists.mp (kept.content head) with ⟨reads, content⟩
        refine ⟨⟨locked, started, le_refl _⟩, settled, head, reads, content, ?_⟩
        intro wants
        rcases young wants with ⟨stamp, pulled, positive, recent⟩
        rw [own] at pulled
        have known := kept.reads stamp reads pulled content
        refine ⟨?_, fun zero => absurd zero positive⟩
        intro ref
        have read := known ref
        simp only
        omega
      · rintro call isCall
        cases isCall
        exact ⟨rfl, young⟩

/-- Every action leaves its task knowing what it should at its next stage. -/
theorem Holds.act (taken : Act fetchTtl (· = repo) task shared stage effect shared' stage')
    (within : stage.Within (· = repo)) (kept : Kept repo shared)
    (known : Holds fetchTtl repo shared stage) : Holds fetchTtl repo shared' stage' := by
  cases taken with
  | lock repo wantFetch free =>
      rcases within with rfl
      exact ⟨le_refl _, kept.settled free⟩
  | start repo wantFetch lockedAt => exact ⟨known.1, le_refl _, known.2⟩
  | present ticket head =>
      rcases within with rfl
      exact ⟨known.1, known.2.1, known.2.2, head⟩
  | absent ticket noHead =>
      rcases within with rfl
      refine ⟨⟨known.1, known.2.1, le_refl _⟩, known.2.2, rfl, kept.stamped, ?_⟩
      intro instant impossible
      cases impossible
  | decide ticket => exact (holds_decide kept within known.1 known.2.1 known.2.2.1 known.2.2.2).1
  | made call disk created =>
      exact ⟨known.order, known.settled, known.branch, known.older, known.read⟩
  | blocked call inTheWay => exact known.settled
  | partlyMade call done disk created => exact known.settled
  | cloneReads call read =>
      refine ⟨known.order, known.settled, known.branch, known.older, ?_⟩
      rintro instant now
      cases now
      exact known.order.decided
  | cloneWrites call read left way =>
      exact ⟨known.order, known.settled, known.branch, known.older, known.read⟩
  | cloneDone call read => exact known
  | cloneFails call read error => exact known.settled
  | install call read disk filled renamed =>
      rcases within with rfl
      refine ⟨known.order, ?_, by simp, fun _ => read, by simp, ?_⟩
      · rw [Act.hasHead_iff] at filled ⊢
        simpa [Tree.Exists, Tree.get?_rename renamed] using filled
      · exact fun ref => known.read read rfl
  | notInstalled call read => exact known.settled
  | fetchReads call read =>
      refine ⟨⟨known.1.order, known.1.settled, known.1.branch, known.1.older, ?_⟩, known.2⟩
      rintro instant now
      cases now
      exact known.1.order.decided
  | fetchWrites call read disk writes =>
      refine ⟨⟨known.1.order, known.1.settled, known.1.branch, known.1.older, known.1.read⟩, ?_⟩
      exact writes.keeps repo rfl known.2
  | fetchUpdates call read updated =>
      exact ⟨⟨known.1.order, known.1.settled, known.1.branch, known.1.older, known.1.read⟩,
        known.2⟩
  | fetchDone call read =>
      rcases within with rfl
      rcases Option.isSome_iff_exists.mp (kept.content known.2) with ⟨reads, content⟩
      refine ⟨known.1.order, known.2, by simp, fun _ => read, by simp [content], ?_⟩
      exact fun ref => known.1.read read rfl
  | fetchFails call read error => exact known.1.settled
  | mark call wants =>
      cases wants with
      | true => exact ⟨known.order, known.settled, known.head, known.content⟩
      | false => exact ⟨known.order, known.head, known.pulled, known.content⟩
  | notify call wants =>
      cases wants with
      | true => exact ⟨known.order, known.settled, known.head, known.content⟩
      | false => exact ⟨known.order, known.head, known.pulled, known.content⟩
  | stamp call =>
      rcases within with rfl
      rcases known.content with ⟨reads, content, recent⟩
      refine ⟨known.order, ?_, known.head, reads, content, ?_⟩
      · simp [Settled, known.pulled]
      · intro _
        refine ⟨fun ref => (recent ref).trans (Nat.le_add_right _ _), fun _ ref => ?_⟩
        exact (known.order.locked.trans known.order.started).trans (recent ref)
  | wantWrites call disk writes =>
      exact ⟨known.order, known.settled, writes.keeps repo rfl known.head, known.content⟩
  | wantsFetched call => exact known
  | wantsOver call => exact known
  | pruneWrites call disk writes =>
      exact ⟨known.order, known.settled, writes.keeps repo rfl known.head, known.content⟩
  | pruned call => exact known
  | evictLock name dir free =>
      rcases within with ⟨_, rfl, rfl, rfl⟩
      exact kept.settled free
  | evictPresent name dir head => exact known
  | clear name dir failure => exact known
  | vacate name dir disk renamed => exact known
  | _ => trivial

variable {upstreamBase : Text} {root : Path} {tasks : Task → Stage}

/-- While another task holds the lock, an action leaves everything alone that it guards. -/
theorem Holds.other {stage₂ : Stage}
    (taken : Act fetchTtl (· = repo) task shared stage effect shared' stage')
    (within : stage.Within (· = repo)) (notHeld : stage.held ≠ some repo.name)
    (resolved : resolve repo.name upstreamBase root = .ok repo)
    (known : Holds fetchTtl repo shared stage₂) : Holds fetchTtl repo shared' stage₂ := by
  rcases taken.frame notHeld with ⟨sameLast, samePulled, sameContent⟩
  apply known.mono (le_of_eq taken.clock.symm) sameLast samePulled sameContent
  apply taken.keeps_head (fun other same => by rw [same]; exact resolved) within rfl
  intro name dir vacated
  cases taken with
  | vacate victim dir disk renamed =>
      rcases within with ⟨_, rfl, rfl, rfl⟩
      exact absurd rfl notHeld
  | clear victim dir failure => cases failure <;> cases vacated
  | sweep dir failure => cases failure <;> cases vacated
  | _ => cases vacated

theorem Holds.head_of_inMirror {call : Call} (works : stage.inMirror = some call)
    (known : Holds fetchTtl repo shared stage) : hasHead shared.disk repo.cacheDir = true := by
  cases stage with
  | fetching call read => exact known.2
  | wanting call => exact known.head
  | pruning call => exact known.head
  | _ => cases works

theorem content_act (taken : Act fetchTtl (· = repo) task shared stage effect shared' stage')
    (within : stage.Within (· = repo))
    (resolved : resolve repo.name upstreamBase root = .ok repo)
    (known : Holds fetchTtl repo shared stage)
    (content : hasHead shared.disk repo.cacheDir = true → (shared.content repo.name).isSome)
    (head : hasHead shared'.disk repo.cacheDir = true) : (shared'.content repo.name).isSome := by
  have before : hasHead shared.disk repo.cacheDir = true ∨
      ∃ call read, stage = .cloned call read ∧ stage' = .changed call false := by
    rcases taken.new_head (fun other same => by rw [same]; exact resolved)
      (fun first second isFirst isSecond _ => isFirst.trans isSecond.symm) within rfl head with
      before | ⟨call, read, isCloned, isChanged, _⟩ | ⟨call, works, _⟩
    · exact Or.inl before
    · exact Or.inr ⟨call, read, isCloned, isChanged⟩
    · exact Or.inl (known.head_of_inMirror works)
  cases taken with
  | install call read disk filled renamed =>
      rcases within with rfl
      simp
  | fetchUpdates call read updated =>
      rcases within with rfl
      simpa using content head
  | fetchDone call read =>
      rcases within with rfl
      simpa using content head
  | vacate name dir disk renamed =>
      rcases within with ⟨_, rfl, rfl, rfl⟩
      rw [Act.hasHead_iff, Tree.Exists, Tree.get?_rename renamed,
        if_neg (not_trash_above_head resolved resolved), if_pos (List.prefix_append _ _)] at head
      exact absurd rfl head
  | _ =>
      rcases before with before | ⟨_, _, isCloned, isChanged⟩
      · exact content before
      · exact absurd (And.intro isCloned isChanged) (by simp)

/-- Content is never older than the stamp: a pull reads after its start, and stamps come in order. -/
theorem reads_act (taken : Act fetchTtl (· = repo) task shared stage effect shared' stage')
    (within : stage.Within (· = repo)) (known : Holds fetchTtl repo shared stage)
    (kept : Kept repo shared) :
    (∀ stamp, shared'.pulled repo.name = some stamp → stamp ≤ shared'.clock) ∧
      ∀ stamp reads, shared'.pulled repo.name = some stamp →
        shared'.content repo.name = some reads → ∀ ref, stamp ≤ reads ref := by
  cases taken with
  | install call read disk filled renamed =>
      rcases within with rfl
      have recent := known.read read rfl
      have order := known.order
      simp only [Function.update_self, Option.some.injEq]
      refine ⟨?_, ?_⟩
      · rintro stamp rfl
        exact order.started.trans order.decided
      · rintro stamp reads rfl rfl ref
        exact order.started.trans recent
  | fetchUpdates call read updated =>
      rcases within with rfl
      have recent := known.1.read read rfl
      refine ⟨kept.stamped, ?_⟩
      intro stamp reads pulled content ref
      simp only [Function.update_self, Option.map_eq_some_iff] at content
      rcases content with ⟨old, oldContent, rfl⟩
      simp only
      split
      · exact (known.1.older stamp pulled).trans recent
      · exact kept.reads stamp old pulled oldContent ref
  | fetchDone call read =>
      rcases within with rfl
      have recent := known.1.read read rfl
      have order := known.1.order
      simp only [Function.update_self, Option.some.injEq, Option.map_eq_some_iff]
      refine ⟨?_, ?_⟩
      · rintro stamp rfl
        exact order.started.trans order.decided
      · rintro stamp reads rfl ⟨old, _, rfl⟩ ref
        exact order.started.trans recent
  | vacate name dir disk renamed =>
      rcases within with ⟨_, rfl, rfl, rfl⟩
      refine ⟨kept.stamped, ?_⟩
      intro stamp reads _ content
      simp at content
  | _ => exact ⟨kept.stamped, kept.reads⟩

/-- The stamp is settled whenever the lock is free. -/
theorem settled_act (taken : Act fetchTtl (· = repo) task shared stage effect shared' stage')
    (owned : stage.held = some repo.name → shared.owner repo.name = some task)
    (within : stage.Within (· = repo)) (known : Holds fetchTtl repo shared stage)
    (settled : shared.owner repo.name = none → Settled repo shared)
    (free : shared'.owner repo.name = none) : Settled repo shared' := by
  by_cases holds : stage.held = some repo.name
  · have own := owned holds
    cases taken with
    | succeed call outcome => exact known.settled
    | fail call error => exact known
    | evictAbsent name dir noHead => exact known
    | notVacated name dir => exact known
    | unlock name dir => exact known
    | lock other wantFetch unowned => cases holds
    | evictLock name dir unowned => cases holds
    | _ =>
        rw [own] at free
        cases free
  · rcases taken.frame holds with ⟨sameLast, samePulled, _⟩
    rw [Settled, sameLast, samePulled]
    apply settled
    cases taken with
    | lock other wantFetch unowned =>
        rcases within with rfl
        exact unowned
    | evictLock name dir unowned =>
        rcases within with ⟨_, rfl, rfl, rfl⟩
        exact unowned
    | succeed call outcome => exact absurd (congrArg (some ∘ RepoRef.name) within) holds
    | fail call error => exact absurd (congrArg (some ∘ RepoRef.name) within) holds
    | evictAbsent name dir noHead =>
        rcases within with ⟨_, rfl, rfl, rfl⟩
        exact absurd rfl holds
    | notVacated name dir =>
        rcases within with ⟨_, rfl, rfl, rfl⟩
        exact absurd rfl holds
    | unlock name dir =>
        rcases within with ⟨_, rfl, rfl, rfl⟩
        exact absurd rfl holds
    | _ => exact free

/-! ## Over whole runs -/

variable {state state' : State Task}

/-- What holds in every state of a run. -/
structure Inv (fetchTtl : ℕ) (repo : RepoRef) (state : State Task) : Prop where
  locks : LockTable.Consistent Stage.held state.shared.owner state.tasks
  within : ∀ task, (state.tasks task).Within (· = repo)
  kept : Kept repo state.shared
  tasks : ∀ task, Holds fetchTtl repo state.shared (state.tasks task)
  sound : ∀ task call, (state.tasks task).call? = some call → call.Sound fetchTtl

theorem Inv.of_starts (starts : Starts (· = repo) state) : Inv fetchTtl repo state where
  locks := by
    intro task name
    simp [starts.idle task, starts.unowned name, Stage.held]
  within := by
    intro task
    rw [starts.idle task]
    trivial
  kept := by
    refine ⟨fun _ => ?_, fun head => ?_, ?_, ?_⟩
    · rw [Settled, starts.unstamped, starts.unpulled]
    · rw [← starts.content repo rfl]
      exact head
    · intro stamp pulled
      rw [starts.unpulled] at pulled
      cases pulled
    · intro stamp reads pulled
      rw [starts.unpulled] at pulled
      cases pulled
  tasks := by
    intro task
    rw [starts.idle task]
    trivial
  sound := by
    intro task call isCall
    rw [starts.idle task] at isCall
    cases isCall

/-- An action that stays in a call keeps its record; a decision makes one that is sound. -/
theorem sound_act (taken : Act fetchTtl (· = repo) task shared stage effect shared' stage')
    (within : stage.Within (· = repo)) (kept : Kept repo shared)
    (known : Holds fetchTtl repo shared stage)
    (sound : ∀ call, stage.call? = some call → call.Sound fetchTtl) :
    ∀ call, stage'.call? = some call → call.Sound fetchTtl := by
  cases taken with
  | absent ticket noHead =>
      rintro call isCall
      cases isCall
      rfl
  | decide ticket => exact (holds_decide kept within known.1 known.2.1 known.2.2.1 known.2.2.2).2
  | notify call wants =>
      cases wants with
      | true => exact sound
      | false => exact sound
  | _ =>
      first
      | exact sound
      | simp [Stage.call?]

theorem held_of_within (within : stage.Within (· = repo)) {name : Text}
    (holds : stage.held = some name) : name = repo.name := by
  cases stage with
  | evictLocked victim dir =>
      rcases within with ⟨_, rfl, rfl, _⟩
      exact (Option.some.inj holds).symm
  | clearing victim dir =>
      rcases within with ⟨_, rfl, rfl, _⟩
      exact (Option.some.inj holds).symm
  | vacating victim dir =>
      rcases within with ⟨_, rfl, rfl, _⟩
      exact (Option.some.inj holds).symm
  | vacated victim dir =>
      rcases within with ⟨_, rfl, rfl, _⟩
      exact (Option.some.inj holds).symm
  | idle => cases holds
  | queued other wantFetch => cases holds
  | serving other => cases holds
  | evictQueued victim dir => cases holds
  | sweeping dir => cases holds
  | _ =>
      rcases within with rfl
      exact (Option.some.inj holds).symm

theorem Inv.tick (inv : Inv fetchTtl repo state) {clock : ℕ} (later : state.shared.clock ≤ clock) :
    Inv fetchTtl repo { state with shared.clock := clock } where
  locks := inv.locks
  within := inv.within
  kept := {
    settled := inv.kept.settled
    content := inv.kept.content
    stamped := fun stamp pulled => (inv.kept.stamped stamp pulled).trans later
    reads := inv.kept.reads }
  tasks := fun task => (inv.tasks task).mono later rfl rfl rfl id
  sound := inv.sound

section Runs

variable [DecidableEq Task]

theorem Inv.act (inv : Inv fetchTtl repo state)
    (resolved : resolve repo.name upstreamBase root = .ok repo)
    (taken : Act fetchTtl (· = repo) task state.shared (state.tasks task) effect shared' stage') :
    Inv fetchTtl repo ⟨shared', Function.update state.tasks task stage'⟩ where
  locks := taken.consistent inv.locks
  within := (Function.forall_update_iff state.tasks fun _ stage => stage.Within (· = repo)).mpr
    ⟨taken.within (inv.within task), fun other _ => inv.within other⟩
  kept := by
    have within := inv.within task
    have known := inv.tasks task
    have owned := (inv.locks task repo.name).mp
    rcases reads_act taken within known inv.kept with ⟨stamped, reads⟩
    exact ⟨settled_act taken owned within known inv.kept.settled,
      content_act taken within resolved known inv.kept.content, stamped, reads⟩
  tasks := by
    apply (Function.forall_update_iff state.tasks fun _ stage =>
      Holds fetchTtl repo shared' stage).mpr
    refine ⟨(inv.tasks task).act taken (inv.within task) inv.kept, ?_⟩
    intro other isOther
    cases holds : (state.tasks other).held with
    | none => exact Holds.of_not_held holds
    | some name =>
        apply (inv.tasks other).other taken (inv.within task) _ resolved
        -- only one task holds the lock
        intro own
        rw [held_of_within (inv.within other) holds] at holds
        exact isOther (inv.locks.unique holds own)
  sound := (Function.forall_update_iff state.tasks fun _ stage =>
      ∀ call, stage.call? = some call → call.Sound fetchTtl).mpr
    ⟨sound_act taken (inv.within task) inv.kept (inv.tasks task) (inv.sound task),
      fun other _ => inv.sound other⟩

theorem Inv.step (inv : Inv fetchTtl repo state)
    (resolved : resolve repo.name upstreamBase root = .ok repo)
    (taken : Step fetchTtl (· = repo) state state') : Inv fetchTtl repo state' := by
  cases taken with
  | act task effect shared stage taken => exact inv.act resolved taken
  | tick clock later => exact inv.tick later

theorem inv_of_reachable (resolved : resolve repo.name upstreamBase root = .ok repo)
    (reached : Reachable (Starts (· = repo)) (Step fetchTtl (· = repo)) state) :
    Inv fetchTtl repo state :=
  reached.invariant (fun _ starts => .of_starts starts)
    (fun _ _ inv taken => inv.step resolved taken)

end Runs

/-- What the proxy promises about the pulls of one repository. -/
structure Promises (fetchTtl : ℕ) (repo : RepoRef) (state : State Task) : Prop where
  /-- a request that is about to return `Ok` leaves a mirror that is recent enough -/
  fresh : ∀ task call outcome, state.tasks task = .leaving call (.ok outcome) →
    call.wantFetch = true →
      hasHead state.shared.disk repo.cacheDir = true ∧
        ∃ reads, state.shared.content repo.name = some reads ∧
          (∀ ref, call.decidedAt ≤ reads ref + fetchTtl) ∧
            (fetchTtl = 0 → ∀ ref, call.lockedAt ≤ reads ref)
  /-- a request that finds a young mirror makes no upstream pull -/
  coalesced : ∀ task call, (state.tasks task).call? = some call → call.found = true →
    call.Young fetchTtl → (state.tasks task).pulls = false
  /-- only a successful pull makes a request count as fresh -/
  honest : ∀ task call, (state.tasks task).call? = some call → call.outcome = .cached →
    call.wantFetch = true → call.Young fetchTtl
  /-- one clone, fetch or eviction rename at a time -/
  alone : ∀ first second,
    (state.tasks first).pulls = true ∨ (state.tasks first).vacates = true →
    (state.tasks second).pulls = true ∨ (state.tasks second).vacates = true → first = second

theorem Inv.promises (inv : Inv fetchTtl repo state) : Promises fetchTtl repo state where
  fresh := by
    intro task call outcome leaving wants
    have known := inv.tasks task
    rw [leaving] at known
    rcases known.content with ⟨reads, content, fresh⟩
    exact ⟨known.head, reads, content, fresh wants⟩
  coalesced := by
    intro task call isCall found young
    have sound := inv.sound task call isCall
    have known := inv.tasks task
    cases pulling : state.tasks task with
    | making other =>
        rw [pulling] at isCall known
        cases isCall
        rw [Call.Sound, known.branch, found] at sound
        cases sound
    | cloning other read =>
        rw [pulling] at isCall known
        cases isCall
        rw [Call.Sound, known.branch, found] at sound
        cases sound
    | cloned other read =>
        rw [pulling] at isCall known
        cases isCall
        rw [Call.Sound, known.branch, found] at sound
        cases sound
    | fetching other read =>
        rw [pulling] at isCall known
        cases isCall
        rw [Call.Sound, known.1.branch] at sound
        exact absurd young sound.2
    | _ => rfl
  honest := by
    intro task call isCall cached wants
    have sound := inv.sound task call isCall
    rw [Call.Sound, cached] at sound
    exact sound.2 wants
  alone := by
    have busy (task : Task) (works : (state.tasks task).pulls = true ∨
        (state.tasks task).vacates = true) : (state.tasks task).held = some repo.name := by
      have within := inv.within task
      cases holds : (state.tasks task).held with
      | some name => rw [held_of_within within holds]
      | none =>
          revert works holds
          cases state.tasks task with
          | _ => simp [Stage.pulls, Stage.vacates, Stage.held]
    intro first second firstWorks secondWorks
    exact inv.locks.unique (busy first firstWorks) (busy second secondWorks)

/-- However requests and evictions of one repository take turns, the promises hold. -/
theorem promises_of_reachable {fetchTtl : ℕ} {upstreamBase : Text} {root : Path}
    [DecidableEq Task] {state : State Task} (repo : Resolved upstreamBase root)
    (reached : Reachable (Starts (· = repo.toRepoRef)) (Step fetchTtl (· = repo.toRepoRef)) state) :
    Promises fetchTtl repo.toRepoRef state :=
  (inv_of_reachable repo.resolved reached).promises

/-! A first request, up to its return. -/

def demoRepo : Resolved "https://upstream".toList ["cache".toList] where
  name := "repo".toList
  upstreamUrl := "https://upstream/repo".toList
  cacheDir := ["cache".toList, "repo".toList]
  resolved := by rfl

/-- The least that `git clone` leaves. -/
def bareMirror : Disk where
  entries := [([headFile], .file [])]
  closed := by
    intro path name child
    cases path with
    | nil => rfl
    | cons first rest => exact absurd (by simp [lookup]) child

def freshServer : State Bool where
  shared := {
    clock := 7
    disk := .empty
    index := .new [] [] 1000
    owner := fun _ => none
    last := fun _ => none
    pulled := fun _ => none
    content := fun _ => none }
  tasks := fun _ => .idle

theorem promises_of_first_clone : ∃ state : State Bool,
    (∃ task call, state.tasks task = .leaving call (.ok .cloned) ∧ call.wantFetch = true) ∧
      Promises 60 demoRepo.toRepoRef state := by
  have starts : Starts (· = demoRepo.toRepoRef) freshServer := by
    refine ⟨fun _ => rfl, fun _ => rfl, fun _ => rfl, fun _ => rfl, ?_⟩
    rintro repo rfl
    rfl
  have run : Reachable (Starts (· = demoRepo.toRepoRef)) (Step 60 (· = demoRepo.toRepoRef))
      freshServer := .start starts
  have run := run.next (.act true _ _ _ (.arrive demoRepo.toRepoRef true rfl))
  have run := run.next (.act true _ _ _ (.lock _ _ rfl))
  have run := run.next (.act true _ _ _ (.start _ _ _))
  have run := run.next (.act true _ _ _ (.absent _ rfl))
  have run := run.next (.act true _ _ _ (.made _ _ rfl))
  have run := run.next (.tick 9 (by decide))
  have run := run.next (.act true _ _ _ (.cloneReads _ _))
  have run := run.next (.act true _ _ _ (.cloneWrites _ _ (some bareMirror) (by decide)))
  have run := run.next (.act true _ _ _ (.cloneDone _ _))
  have run := run.next (.act true _ _ _ (.install _ _ _ rfl rfl))
  have run := run.next (.act true _ _ _ (.mark _ _))
  have run := run.next (.act true _ _ _ (.notify _ _))
  have run := run.next (.act true _ _ _ (.stamp _))
  have run := run.next (.act true _ _ _ (.wantsOver _))
  exact ⟨_, ⟨true, _, rfl, rfl⟩, promises_of_reachable demoRepo run⟩

end GitCacheProxy.Git
