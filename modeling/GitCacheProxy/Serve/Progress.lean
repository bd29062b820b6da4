import GitCacheProxy.Foundation.ResourceOrder
import GitCacheProxy.Git.Freshness
import GitCacheProxy.Http.Routes
import GitCacheProxy.Lfs.Machine
import GitCacheProxy.Serve.Permits

/-!
# No request waits for ever

A request may wait four times: for its turn in the concurrency limit, for the table of locks, for
the lock of its repository or its object, and for a permit of the upload-pack cap.  It keeps its
place in the concurrency limit while it waits for the others, but it never waits for one of them
while it has one that comes later: the lock is given back before the permit is asked for, and the
permit stays with the reaper, which waits for nothing but its child.

So whatever requests and evictions there are, all of them come to an end as long as the things
they work on do (`answered`).  The second half shows that the programs of the other modules keep
to this order.
-/

namespace GitCacheProxy.Serve

open Repo TransitionSystem ResourceOrder Relation

universe u

namespace Progress

/-! ## What there is to wait for -/

inductive Resource where
  /-- a place in the `GlobalConcurrencyLimitLayer` -/
  | place
  /-- the mutex of `GitCache::slots` -/
  | repoTable
  | repo (name : Text)
  /-- the mutex of `Lfs::slots` -/
  | objectTable
  | object (oid : Text)
  /-- a permit of the upload-pack cap -/
  | permit
  deriving DecidableEq

def Resource.rank : Resource → ℕ
  | place => 0
  | repoTable | objectTable => 1
  | repo _ | object _ => 2
  | permit => 3

/-- The layer is left out when `max_concurrent` is `0`. -/
def capacity (maxConcurrent maxUploadPacks : ℕ) : Resource → Option ℕ
  | .place => if maxConcurrent ≠ 0 then some maxConcurrent else none
  | .permit => uploadPacks maxUploadPacks
  | .repoTable | .repo _ | .objectTable | .object _ => some 1

/-- What a task is there for. -/
inductive Job where
  /-- `/healthz`, `/readyz` or `/metrics` -/
  | probe
  /-- a request that `handle_git` has made this of -/
  | request (action : Http.Action)
  /-- the eviction of one mirror -/
  | evict (name : Text)

namespace Job

/-- Only the fallback of the router is under the concurrency limit. -/
def limited : Job → Bool
  | request _ => true
  | probe | evict _ => false

/-- The lock of a job, with the table that it is taken from. -/
def lock : Job → Option (Resource × Resource)
  | request (.infoRefs repo _) | request (.uploadPack repo _ _) =>
      some (.repoTable, .repo repo.name)
  | request (.lfsObject _ oid _) => some (.objectTable, .object oid)
  | evict name => some (.repoTable, .repo name)
  | request (.answer _) | request (.lfsBatch _ _ _) | probe => none

/-- Whether `upload_pack_rpc` follows. -/
def packs : Job → Bool
  | request (.uploadPack _ _ _) => true
  | _ => false

end Job

/-- Where a task is. -/
inductive Phase where
  | arriving
  /-- the handler, before it needs a lock -/
  | handling
  /-- about to lock the table -/
  | entering
  | entered
  /-- about to take the lock -/
  | locking
  | locked
  /-- in `acquire_owned` -/
  | permitting
  /-- `upload_pack_rpc`, with a permit -/
  | packing
  /-- the handler, when it has given back what it had to give back -/
  | serving
  /-- the handler is gone, and the reaper has the permit -/
  | streaming
  | ended
  deriving DecidableEq

/-- The number of phases that may be to come. -/
def Phase.toCome : Phase → ℕ
  | arriving => 10
  | handling => 9
  | entering => 8
  | entered => 7
  | locking => 6
  | locked => 5
  | permitting => 4
  | packing => 3
  | serving => 2
  | streaming => 1
  | ended => 0

/-- From one phase to another. -/
inductive Advance (job : Job) : Phase → Phase → Prop where
  | placed : Advance job .arriving .handling
  | enter (locks : job.lock ≠ none) : Advance job .handling .entering
  -- an object that is there, or an action without a lock
  | direct : Advance job .handling .serving
  | lookUp : Advance job .entering .entered
  | found : Advance job .entered .locking
  | lock : Advance job .locking .locked
  | unlock (plain : job.packs = false) : Advance job .locked .serving
  | fresh (packs : job.packs = true) : Advance job .locked .permitting
  | permit : Advance job .permitting .packing
  -- the response is there, or the request has gone
  | stream : Advance job .packing .streaming
  -- the child is gone before its handler
  | reaped : Advance job .packing .serving
  -- an answer, an error, or a request that is given up
  | leave (phase : Phase) (runs : phase ≠ .ended) : Advance job phase .ended

structure Local where
  job : Job
  phase : Phase
  /-- a bound on the actions that are to come within phases -/
  work : ℕ

/-- An action of a task, between two phases or within one. -/
inductive Moves : Local → Local → Prop where
  | advance (job : Job) (phase phase' : Phase) (work : ℕ) (advance : Advance job phase phase') :
      Moves ⟨job, phase, work⟩ ⟨job, phase', work⟩
  | act (job : Job) (phase : Phase) (work : ℕ) (runs : phase ≠ .ended) :
      Moves ⟨job, phase, work + 1⟩ ⟨job, phase, work⟩

/-- A place is kept for as long as there is a handler. -/
def holds (now : Local) : Resource → Prop
  | .place => now.job.limited = true ∧
      now.phase ≠ .arriving ∧ now.phase ≠ .streaming ∧ now.phase ≠ .ended
  | .repoTable => now.phase = .entered ∧ ∃ lock, now.job.lock = some (.repoTable, lock)
  | .objectTable => now.phase = .entered ∧ ∃ lock, now.job.lock = some (.objectTable, lock)
  | .repo name => now.phase = .locked ∧ now.job.lock = some (.repoTable, .repo name)
  | .object oid => now.phase = .locked ∧ now.job.lock = some (.objectTable, .object oid)
  | .permit => now.phase = .packing ∨ now.phase = .streaming

/-! ## The order -/

section Order

variable {job : Job} {phase : Phase} {work : ℕ} {now later : Local} {resource : Resource}

theorem not_holds_ended : ¬holds ⟨job, .ended, work⟩ resource := by
  cases resource with
  | _ => simp [holds]

theorem Advance.toCome_lt {phase' : Phase} (advance : Advance job phase phase') :
    phase'.toCome < phase.toCome := by
  cases advance with
  | leave phase runs =>
      cases phase with
      | ended => exact absurd rfl runs
      | _ => decide
  | _ => decide

theorem rank_of_lock {table lock : Resource} (locks : job.lock = some (table, lock)) :
    0 < table.rank ∧ 0 < lock.rank := by
  cases job with
  | probe => cases locks
  | evict name =>
      cases locks
      exact ⟨Nat.one_pos, Nat.two_pos⟩
  | request action =>
      cases action with
      | answer response => cases locks
      | lfsBatch name body advertise => cases locks
      | infoRefs repo gitProtocol | uploadPack repo gitProtocol body | lfsObject name oid size =>
          cases locks
          exact ⟨Nat.one_pos, Nat.two_pos⟩

/-- Whoever waits holds its place at most. -/
theorem eq_place_of_holds
    (waits : phase = .entering ∨ phase = .locking ∨ phase = .permitting)
    (held : holds ⟨job, phase, work⟩ resource) : resource = .place := by
  cases resource with
  | place => rfl
  | _ => rcases waits with rfl | rfl | rfl <;> simp [holds] at held

/-- What is new in a phase that has been waited for. -/
theorem holds_of_waits {phase' : Phase} {wanted : Option Resource}
    (waits : phase = .entering ∨ phase = .locking ∨ phase = .permitting)
    (new : ∀ resource, resource ≠ .place → holds ⟨job, phase', work⟩ resource →
      wanted = some resource) (held : holds ⟨job, phase', work⟩ resource) :
    holds ⟨job, phase, work⟩ resource ∨ wanted = some resource := by
  by_cases isPlace : resource = .place
  · subst isPlace
    refine Or.inl ⟨held.1, ?_⟩
    rcases waits with rfl | rfl | rfl <;> simp
  · exact Or.inr (new resource isPlace held)

/-- Whoever is not over can go on, if there is room for it at one resource that comes after all
that it holds. -/
theorem goesOn (now : Local) (runs : now.phase ≠ .ended) :
    ∃ later, Moves now later ∧ ∃ wanted : Option Resource,
      (∀ resource, holds later resource → holds now resource ∨ wanted = some resource) ∧
        ∀ want ∈ wanted, ∀ resource, holds now resource → resource.rank < want.rank := by
  rcases now with ⟨job, phase, work⟩
  -- in the phases that wait for nothing the task can at least give up
  have givesUp : ∃ later, Moves ⟨job, phase, work⟩ later ∧ ∀ resource, ¬holds later resource :=
    ⟨_, .advance job phase .ended work (.leave phase runs), fun _ => not_holds_ended⟩
  cases phase with
  | arriving =>
      refine ⟨_, .advance job _ _ work .placed, some .place, ?_, ?_⟩
      · intro resource held
        cases resource with
        | place => exact Or.inr rfl
        | _ => simp [holds] at held
      · intro want _ resource held
        cases resource with
        | _ => simp [holds] at held
  | entering =>
      refine ⟨_, .advance job _ _ work .lookUp, job.lock.map Prod.fst, ?_, ?_⟩
      · intro resource
        refine holds_of_waits (Or.inl rfl) ?_
        intro other notPlace held
        cases other with
        | place => exact absurd rfl notPlace
        | repoTable | objectTable =>
            rcases held with ⟨_, lock, locks⟩
            simp only [locks, Option.map_some]
        | _ => simp [holds] at held
      · intro want wants resource held
        rcases Option.map_eq_some_iff.mp wants with ⟨⟨table, lock⟩, locks, rfl⟩
        rw [eq_place_of_holds (Or.inl rfl) held]
        exact (rank_of_lock locks).1
  | locking =>
      refine ⟨_, .advance job _ _ work .lock, job.lock.map Prod.snd, ?_, ?_⟩
      · intro resource
        refine holds_of_waits (Or.inr (Or.inl rfl)) ?_
        intro other notPlace held
        cases other with
        | place => exact absurd rfl notPlace
        | repo name | object oid => simp only [held.2, Option.map_some]
        | _ => simp [holds] at held
      · intro want wants resource held
        rcases Option.map_eq_some_iff.mp wants with ⟨⟨table, lock⟩, locks, rfl⟩
        rw [eq_place_of_holds (Or.inr (Or.inl rfl)) held]
        exact (rank_of_lock locks).2
  | permitting =>
      refine ⟨_, .advance job _ _ work .permit, some .permit, ?_, ?_⟩
      · intro resource
        refine holds_of_waits (Or.inr (Or.inr rfl)) ?_
        intro other notPlace held
        cases other with
        | place => exact absurd rfl notPlace
        | permit => rfl
        | _ => simp [holds] at held
      · rintro want ⟨⟩ resource held
        rw [eq_place_of_holds (Or.inr (Or.inr rfl)) held]
        decide
  | _ =>
      rcases givesUp with ⟨later, moves, nothing⟩
      exact ⟨later, moves, none, fun resource held => absurd held (nothing resource),
        fun want wants => by cases wants⟩

/-- The proxy takes its resources in order. -/
def discipline : Discipline Resource Local where
  holds := holds
  moves := Moves
  isOver now := now.phase = .ended
  rank := Resource.rank
  left now := now.work + now.phase.toCome
  descends := by
    rintro _ _ (⟨job, phase, phase', work, advance⟩ | ⟨job, phase, work, runs⟩)
    · have fewer := advance.toCome_lt
      simp only
      omega
    · simp only
      omega
  stays := by
    rintro _ _ ended (⟨job, phase, phase', work, advance⟩ | ⟨job, phase, work, runs⟩)
    · cases ended
      have fewer := advance.toCome_lt
      simp [Phase.toCome] at fewer
    · exact runs ended
  empty := by
    rintro ⟨job, phase, work⟩ resource rfl
    exact not_holds_ended
  goesOn := goesOn

end Order

/-! ## Every run -/

/-- The phases of a job without a lock, or without a pack, leave out those of the lock and of the
pack. -/
def Fits (job : Job) : Phase → Prop
  | .entering | .entered | .locking | .locked => job.lock ≠ none
  | .permitting | .packing | .streaming => job.packs = true
  | .arriving | .handling | .serving | .ended => True

section Runs

variable {Task : Type u} {maxConcurrent maxUploadPacks : ℕ} {busy : Finset Task}
  {tasks tasks' : Task → Local}

theorem Fits.advance {job : Job} {phase phase' : Phase} (fits : Fits job phase)
    (advance : Advance job phase phase') : Fits job phase' := by
  cases advance with
  | enter locks => exact locks
  | fresh packs => exact packs
  | lookUp | found | lock | permit | stream => exact fits
  | _ => trivial

theorem Fits.moves {now later : Local} (fits : Fits now.job now.phase) (taken : Moves now later) :
    Fits later.job later.phase := by
  cases taken with
  | advance job phase phase' work advance => exact fits.advance advance
  | act job phase work runs => exact fits

/-- A probe holds nothing, whatever it does. -/
theorem not_holds_probe {now : Local} (fits : Fits now.job now.phase) (probe : now.job = .probe)
    (resource : Resource) : ¬holds now resource := by
  rcases now with ⟨job, phase, work⟩
  cases probe
  cases resource with
  | place => simp [holds, Job.limited]
  | permit =>
      rintro (rfl | rfl)
      · cases fits
      · cases fits
  | _ => simp [holds, Job.lock]

theorem job_of_moves {now later : Local} (taken : Moves now later) : later.job = now.job := by
  cases taken with
  | _ => rfl

variable [DecidableEq Task]

/-- One task moves, if there is room for it. -/
abbrev Step (maxConcurrent maxUploadPacks : ℕ) (tasks tasks' : Task → Local) : Prop :=
  discipline.Step (capacity maxConcurrent maxUploadPacks) tasks tasks'

/-- Finitely many requests, probes and evictions are to come, in any order. -/
structure Starts (busy : Finset Task) (tasks : Task → Local) : Prop where
  arriving : ∀ task ∈ busy, (tasks task).phase = .arriving
  others : ∀ task, task ∉ busy → (tasks task).phase = .ended

/-- What can be relied on while they are served. -/
structure Answered (maxConcurrent maxUploadPacks : ℕ) (tasks : Task → Local) : Prop where
  handlers : maxConcurrent ≠ 0 → ∀ requests : Finset Task,
    (∀ task ∈ requests, holds (tasks task) .place) → requests.card ≤ maxConcurrent
  packs : maxUploadPacks > 0 → ∀ children : Finset Task,
    (∀ task ∈ children, holds (tasks task) .permit) → children.card ≤ maxUploadPacks
  repos : ∀ name first second, holds (tasks first) (.repo name) →
    holds (tasks second) (.repo name) → first = second
  objects : ∀ oid first second, holds (tasks first) (.object oid) →
    holds (tasks second) (.object oid) → first = second
  /-- nothing that goes on can hold up a probe -/
  probes : ∀ task later, (tasks task).job = .probe → Moves (tasks task) later →
    Step maxConcurrent maxUploadPacks tasks (Function.update tasks task later)
  /-- in every run from here all of them come to an end -/
  ends : Inevitable (Step maxConcurrent maxUploadPacks)
    (fun tasks => ∀ task, (tasks task).phase = .ended) tasks

/-- What holds in every state of a run. -/
structure Inv (maxConcurrent maxUploadPacks : ℕ) (busy : Finset Task) (tasks : Task → Local) :
    Prop where
  within : discipline.Within (capacity maxConcurrent maxUploadPacks) tasks
  idle : discipline.Idle busy tasks
  fits : ∀ task, Fits (tasks task).job (tasks task).phase

theorem Inv.of_starts (starts : Starts busy tasks) :
    Inv maxConcurrent maxUploadPacks busy tasks := by
  have phase (task : Task) : (tasks task).phase = .arriving ∨ (tasks task).phase = .ended := by
    by_cases isBusy : task ∈ busy
    · exact Or.inl (starts.arriving task isBusy)
    · exact Or.inr (starts.others task isBusy)
  refine ⟨Discipline.within_of_empty ?_, starts.others, ?_⟩
  · intro task resource held
    rcases phase task with isArriving | isOver
    · cases resource with
      | _ => simp [discipline, holds, isArriving] at held
    · exact discipline.empty _ _ isOver held
  · intro task
    rcases phase task with isArriving | isOver
    · rw [isArriving]
      trivial
    · rw [isOver]
      trivial

theorem Inv.step (inv : Inv maxConcurrent maxUploadPacks busy tasks)
    (taken : Step maxConcurrent maxUploadPacks tasks tasks') :
    Inv maxConcurrent maxUploadPacks busy tasks' := by
  refine ⟨inv.within.step taken, (inv.idle.step taken).1, ?_⟩
  cases taken with
  | move task later taken room =>
      exact (Function.forall_update_iff tasks fun _ now => Fits now.job now.phase).mpr
        ⟨(inv.fits task).moves taken, fun other _ => inv.fits other⟩

/-- There is room for one at the lock. -/
theorem Inv.alone (inv : Inv maxConcurrent maxUploadPacks busy tasks) {resource : Resource}
    (one : capacity maxConcurrent maxUploadPacks resource = some 1) {first second : Task}
    (firstHolds : holds (tasks first) resource) (secondHolds : holds (tasks second) resource) :
    first = second := by
  have count := inv.within resource 1 one {first, second} (by
    intro task taskMem
    rcases Finset.mem_insert.mp taskMem with rfl | isSecond
    · exact firstHolds
    · rw [Finset.mem_singleton.mp isSecond]
      exact secondHolds)
  by_contra different
  rw [Finset.card_pair different] at count
  omega

theorem Inv.inevitable (inv : Inv maxConcurrent maxUploadPacks busy tasks) :
    Answered maxConcurrent maxUploadPacks tasks where
  handlers limited := inv.within .place maxConcurrent (if_pos limited)
  packs capped := inv.within .permit maxUploadPacks (if_pos capped)
  repos _ _ _ := inv.alone rfl
  objects _ _ _ := inv.alone rfl
  probes task later probe taken := by
    refine .move task later taken ?_
    intro resource held
    have isProbe : later.job = .probe := (job_of_moves taken).trans probe
    exact absurd held (not_holds_probe ((inv.fits task).moves taken) isProbe resource)
  ends := by
    apply inv.idle.inevitable_over
    intro resource
    cases resource with
    | place =>
        simp only [capacity]
        split
        · rename_i limited
          exact fun zero => limited (Option.some.inj zero)
        · exact fun zero => by cases zero
    | permit =>
        simp only [capacity, uploadPacks]
        split
        · rename_i capped
          exact fun zero => absurd (Option.some.inj zero) (Nat.ne_of_gt capped)
        · exact fun zero => by cases zero
    | _ => exact fun zero => by cases zero

/-- Whatever requests, probes and evictions there are, in whatever order they take turns and
wherever they fail or are given up: none of them waits for ever. -/
theorem answered {maxConcurrent maxUploadPacks : ℕ} {busy : Finset Task} {tasks : Task → Local}
    (reached : Reachable (Starts busy) (Step maxConcurrent maxUploadPacks) tasks) :
    Answered maxConcurrent maxUploadPacks tasks :=
  (reached.invariant (fun _ starts => Inv.of_starts starts)
    (fun _ _ inv taken => inv.step taken)).inevitable

/-! Two clients ask for one pack, and one of them has been let in. -/

def twoClients : Bool → Local :=
  fun _ => ⟨.request (.uploadPack Git.demoRepo.toRepoRef none []), .arriving, 5⟩

theorem answered_twoClients : ∃ tasks : Bool → Local,
    (tasks true).phase = .handling ∧ Answered 1 1 tasks := by
  have starts : Starts {true, false} twoClients := by
    refine ⟨fun _ _ => rfl, ?_⟩
    intro task notBusy
    cases task <;> simp at notBusy
  have room : discipline.HasRoom (capacity 1 1) twoClients .place := by
    rintro limit ⟨⟩
    refine ⟨∅, ?_, Nat.one_pos⟩
    intro task held
    exact absurd rfl held.2.1
  have run : Reachable (Starts {true, false}) (Step 1 1) twoClients := .start starts
  have run := run.next (.move true _ (.advance _ _ _ 5 .placed) (by
    intro resource held new
    cases resource with
    | place => exact room
    | _ => simp [discipline, holds] at held))
  exact ⟨_, rfl, answered run⟩

end Runs

/-! ## The programs keep to the order -/

section Programs

variable {job : Job}

/-- The phase of a task that works on a mirror. -/
def ofGit (job : Job) : Git.Stage → Phase
  | .idle => .ended
  | .queued _ _ | .evictQueued _ _ => .locking
  | .serving _ => if job.packs then .permitting else .serving
  | .sweeping _ => .serving
  | .locked _ _ _ | .started _ | .mirrored _ | .making _ | .cloning _ _ | .cloned _ _
  | .fetching _ _ | .changed _ _ | .marked _ _ | .stamping _ | .wanting _ | .pruning _
  | .leaving _ _ | .evictLocked _ _ | .clearing _ _ | .vacating _ _ | .vacated _ _ => .locked

/-- The phase of a request for an object; what is left of it after it is dropped holds nothing. -/
def ofLfs : Lfs.Stage → Phase
  | .idle | .orphan _ => .ended
  | .probing _ _ | .hit _ false | .returning _ false _ => .handling
  | .queued _ _ => .locking
  | .serving _ => .serving
  | .locked _ _ | .hit _ true | .requesting _ | .preparing _ | .naming _ | .opening _ _
  | .streaming _ _ | .discarding _ _ | .hashing _ _ | .sharding _ _ | .sizing _ _ | .moving _ _ _
  | .recording _ _ | .notifying _ | .failing _ | .returning _ true _ => .locked

/-- The phase of a call of `upload_pack_rpc`, with its child and its reaper. -/
def ofCall (call : Call) : Phase :=
  match call.handler, call.reaper with
  | .idle, _ | .queued, _ => .permitting
  | .granted, _ => .packing
  | .writing, .finished => .serving
  | .writing, _ => .packing
  | .streaming, .unborn | .drained, .unborn | .finished, .unborn => .ended
  | .streaming, .finished | .drained, .finished | .finished, .finished => .ended
  | .streaming, _ | .drained, _ | .finished, _ => .streaming

theorem ofGit_eq_locked_iff {stage : Git.Stage} :
    ofGit job stage = .locked ↔ ∃ name, stage.held = some name := by
  cases stage with
  | serving repo =>
      simp only [ofGit, Git.Stage.held, reduceCtorEq, exists_false, iff_false]
      split
      · simp
      · simp
  | _ => simp [ofGit, Git.Stage.held]

theorem ofLfs_eq_locked_iff {stage : Lfs.Stage} :
    ofLfs stage = .locked ↔ ∃ oid, stage.held = some oid := by
  cases stage with
  | hit oid guarded | returning oid guarded outcome =>
      cases guarded with
      | true => simp [ofLfs, Lfs.Stage.held]
      | false => simp [ofLfs, Lfs.Stage.held]
  | _ => simp [ofLfs, Lfs.Stage.held]

theorem holds_permit_iff {call : Call} (sound : call.Sound) (work : ℕ) :
    holds ⟨job, ofCall call, work⟩ .permit ↔ call.holds = true := by
  rcases call with ⟨handler, child, reaper, served, acquired, released⟩
  cases reaper with
  | unborn =>
      rcases sound with ⟨_, counts⟩
      cases handler <;> simp_all [holds, ofCall, Call.holds]
  | watching | waiting | done | finished =>
      rcases sound with ⟨_, ⟨notIdle, notQueued, notGranted⟩, counts⟩
      cases handler <;> simp_all [holds, ofCall, Call.holds]

section Git

variable {Task : Type u} {fetchTtl : ℕ} {allowed : RepoRef → Prop} {task : Task}
  {shared shared' : Git.Shared Task} {stage stage' : Git.Stage} {effect : Git.Effect}

/-- An action of a git request or of an eviction is a step from one phase to the next, or none. -/
theorem advance_of_git
    (taken : Git.Act fetchTtl allowed task shared stage effect shared' stage')
    (begun : stage ≠ .idle) (plain : stage.evicts = true → job.packs = false) :
    ReflGen (Advance job) (ofGit job stage) (ofGit job stage') := by
  cases taken with
  | arrive repo wantFetch known | evict repo known => exact absurd rfl begun
  | lock repo wantFetch free | evictLock name dir free => exact .single .lock
  | decide ticket =>
      simp only [Git.Shared.decide]
      split
      · exact .refl
      · exact .refl
  | notify call wants =>
      cases wants with
      | true => exact .refl
      | false => exact .refl
  | succeed call outcome =>
      simp only [ofGit]
      split
      · exact .single (.fresh ‹_›)
      · exact .single (.unlock (Bool.eq_false_iff.mpr ‹_›))
  | fail call error | evictAbsent name dir noHead | notVacated name dir | sweep dir failure =>
      exact .single (.leave _ (by simp [ofGit]))
  | unlock name dir => exact .single (.unlock (plain rfl))
  | serve repo =>
      refine .single (.leave _ ?_)
      simp only [ofGit]
      split
      · simp
      · simp
  | _ => exact .refl

/-- The lock that it takes has been free. -/
theorem room_of_git
    (taken : Git.Act fetchTtl allowed task shared stage effect shared' stage') {name : Text}
    (holds : stage'.held = some name) (new : stage.held ≠ some name) :
    shared.owner name = none := by
  cases taken with
  | lock repo wantFetch free =>
      cases holds
      exact free
  | evictLock victim dir free =>
      cases holds
      exact free
  | decide ticket =>
      rw [Git.Act.held_decide] at holds
      exact absurd holds new
  | notify call wants =>
      cases wants with
      | true => exact absurd holds new
      | false => exact absurd holds new
  | _ => first | exact absurd holds new | cases holds

end Git

section Lfs

variable {Task : Type u} {root : Path} {hash : Bytes → Text} {task : Task}
  {shared shared' : Lfs.Shared Task} {stage stage' : Lfs.Stage}

theorem advance_of_lfs (taken : Lfs.Act root hash task shared stage shared' stage')
    (begun : stage ≠ .idle) (locks : job.lock ≠ none) (plain : job.packs = false) :
    ReflTransGen (Advance job) (ofLfs stage) (ofLfs stage') := by
  cases taken with
  | arrive oid size valid => exact absurd rfl begun
  | probeMiss oid size =>
      exact .tail (.tail (.single (.enter locks)) .lookUp) .found
  | lock oid size free => exact .single .lock
  | touch oid guarded =>
      cases guarded with
      | true => exact .refl
      | false => exact .refl
  | hashed oid n content found =>
      split
      · exact .refl
      · exact .refl
  | succeed oid guarded outcome =>
      cases guarded with
      | true => exact .single (.unlock plain)
      | false => exact .single .direct
  | fail oid | serve oid => exact .single (.leave _ (by simp [ofLfs]))
  | drop stage op awaits own =>
      have runs : ofLfs stage ≠ .ended := by
        cases stage with
        | hit oid guarded | returning oid guarded outcome => cases awaits
        | idle | orphan op => cases awaits
        | _ => simp [ofLfs]
      cases op with
      | none => exact .single (.leave _ runs)
      | some op => exact .single (.leave _ runs)
  | _ => exact .refl

theorem room_of_lfs (taken : Lfs.Act root hash task shared stage shared' stage') {oid : Text}
    (holds : stage'.held = some oid) (new : stage.held ≠ some oid) : shared.owner oid = none := by
  cases taken with
  | lock other size free =>
      cases holds
      exact free
  | touch other guarded =>
      cases guarded with
      | true => exact absurd holds new
      | false => cases holds
  | hashed other n content found =>
      split at holds
      · exact absurd holds new
      · exact absurd holds new
  | drop stage op awaits own =>
      cases op with
      | none => cases holds
      | some op => cases holds
  | _ => first | exact absurd holds new | cases holds

end Lfs

section Packs

variable {permits permits' : Option ℕ} {call call' : Call}

theorem advance_of_call (taken : Act permits call permits' call') (sound : call.Sound) :
    ReflGen (Advance job) (ofCall call) (ofCall call') := by
  have unborn (early : call.handler = .queued ∨ call.handler = .granted) :
      call.reaper = .unborn := by
    apply sound.reaper_unborn
    rcases early with isQueued | isGranted
    · simp [Call.Spawned, isQueued]
    · simp [Call.Spawned, isGranted]
  rcases call with ⟨handler, child, reaper, served, acquired, released⟩
  cases taken with
  | arrive isIdle =>
      cases isIdle
      exact .refl
  | acquire isQueued left free =>
      cases isQueued
      exact .single .permit
  | leaveQueue isQueued =>
      cases isQueued
      cases unborn (Or.inl rfl)
      exact .single (.leave _ (by simp [ofCall]))
  | abandon isGranted | spawnFails isGranted =>
      cases isGranted
      cases unborn (Or.inr rfl)
      exact .single (.leave _ (by simp [ofCall]))
  | spawn isGranted =>
      cases isGranted
      exact .refl
  | written isWriting | notWritten isWriting =>
      cases isWriting
      cases reaper with
      | unborn | finished => exact .single (.leave _ (by simp [ofCall]))
      | watching | waiting | done => exact .single .stream
  | drain isStreaming | disconnect isStreaming =>
      cases isStreaming
      cases reaper with
      | _ => exact .refl
  | respond isDrained =>
      cases isDrained
      cases reaper with
      | _ => exact .refl
  | exit isRunning => exact .refl
  | reapFirst isWatching hasExited | kill isWatching isClosed | noted isWatching isSent =>
      cases isWatching
      cases handler with
      | _ => exact .refl
  | reap isWaiting hasExited =>
      cases isWaiting
      cases handler with
      | _ => exact .refl
  | release isDone =>
      cases isDone
      cases handler with
      | idle | queued | granted => exact .refl
      | writing => exact .single .reaped
      | streaming | drained | finished => exact .single (.leave _ (by simp [ofCall]))

theorem room_of_call (taken : Act permits call permits' call') (holds : call'.holds = true)
    (new : call.holds = false) : permits ≠ some 0 := by
  cases taken with
  | acquire isQueued left free =>
      rintro rfl
      cases free
  | abandon isGranted | spawnFails isGranted | release isDone =>
      simp only [Call.holds, decide_eq_true_eq, decide_eq_false_iff_not] at holds new
      omega
  | _ =>
      have same : call.holds = true := holds
      rw [new] at same
      cases same

end Packs

end Programs

/-- The models of git requests and evictions, of object requests and of `upload_pack_rpc` take the
resources that the phases stand for, in the order of the phases, and only when they are free. -/
structure KeepsOrder (Task : Type u) (fetchTtl : ℕ) (allowed : RepoRef → Prop) (root : Path)
    (hash : Bytes → Text) (job : Job) : Prop where
  git : ∀ (task : Task) (shared shared' : Git.Shared Task) (stage stage' : Git.Stage)
    (effect : Git.Effect), Git.Act fetchTtl allowed task shared stage effect shared' stage' →
    stage ≠ .idle → (stage.evicts = true → job.packs = false) →
      ReflGen (Advance job) (ofGit job stage) (ofGit job stage') ∧
        ∀ name, stage'.held = some name → stage.held ≠ some name → shared.owner name = none
  gitLocks : ∀ stage, ofGit job stage = .locked ↔ ∃ name, stage.held = some name
  lfs : ∀ (task : Task) (shared shared' : Lfs.Shared Task) (stage stage' : Lfs.Stage),
    Lfs.Act root hash task shared stage shared' stage' → stage ≠ .idle → job.lock ≠ none →
    job.packs = false →
      ReflTransGen (Advance job) (ofLfs stage) (ofLfs stage') ∧
        ∀ oid, stage'.held = some oid → stage.held ≠ some oid → shared.owner oid = none
  lfsLocks : ∀ stage, ofLfs stage = .locked ↔ ∃ oid, stage.held = some oid
  packs : ∀ permits permits' call call', Act permits call permits' call' → call.Sound →
    ReflGen (Advance job) (ofCall call) (ofCall call') ∧
      (call'.holds = true → call.holds = false → permits ≠ some 0)
  permits : ∀ call work, call.Sound →
    (holds ⟨job, ofCall call, work⟩ .permit ↔ call.holds = true)

theorem keepsOrder (Task : Type u) (fetchTtl : ℕ) (allowed : RepoRef → Prop) (root : Path)
    (hash : Bytes → Text) (job : Job) : KeepsOrder Task fetchTtl allowed root hash job where
  git _ _ _ _ _ _ taken begun plain :=
    ⟨advance_of_git taken begun plain, fun _ => room_of_git taken⟩
  gitLocks _ := ofGit_eq_locked_iff
  lfs _ _ _ _ _ taken begun locks plain :=
    ⟨advance_of_lfs taken begun locks plain, fun _ => room_of_lfs taken⟩
  lfsLocks _ := ofLfs_eq_locked_iff
  packs _ _ _ _ taken sound := ⟨advance_of_call taken sound, room_of_call taken⟩
  permits _ work sound := holds_permit_iff sound work

end Progress

end GitCacheProxy.Serve
