import GitCacheProxy.Foundation.Semaphore
import GitCacheProxy.Foundation.TransitionSystem

/-!
# The upload-pack cap

A call of `upload_pack_rpc` waits for a permit, starts `git upload-pack` and
hands the child and the permit over to a detached task that reaps it.  From then
on the handler and the reaper go their own ways: the client may disconnect
wherever the handler waits, and the reaper learns of it through `served`.

One `Act` is one action of a call's handler, child or reaper.  The spawn and the
hand-over are one action, since the handler does not wait between the two.  The
order in which the semaphore serves its queue does not matter here.
-/

namespace GitCacheProxy.Serve

open TransitionSystem

universe u

/-- Where `upload_pack_rpc` is, and the response after it. -/
inductive Handler where
  | idle
  /-- in `acquire_owned` -/
  | queued
  /-- the semaphore has assigned a permit, and the handler has yet to go on with it -/
  | granted
  /-- in `write_all` -/
  | writing
  /-- the client drains the `TimedReader` -/
  | streaming
  /-- end of the pack -/
  | drained
  | finished
  deriving DecidableEq

inductive Child where
  | unborn
  | running
  | exited
  | reaped
  deriving DecidableEq

/-- Where `reap_upload_pack` is. -/
inductive Reaper where
  | unborn
  /-- in `select!` -/
  | watching
  /-- in the second `wait` -/
  | waiting
  /-- the child is reaped, and the permit is about to be dropped -/
  | done
  | finished
  deriving DecidableEq

/-- The channel from the `TimedReader` to the reaper. -/
inductive Served where
  | open
  | sent
  | closed
  deriving DecidableEq

/-- One call; the two counters are history. -/
structure Call where
  handler : Handler
  child : Child
  reaper : Reaper
  served : Served
  acquired : ℕ
  released : ℕ
  deriving DecidableEq

namespace Call

def new : Call where
  handler := .idle
  child := .unborn
  reaper := .unborn
  served := .open
  acquired := 0
  released := 0

/-- The process has been spawned and not been reaped. -/
def Unreaped (call : Call) : Prop := call.child = .running ∨ call.child = .exited

/-- A permit was acquired and has not been released. -/
def holds (call : Call) : Bool := decide (call.released < call.acquired)

/-- Neither the handler nor the reaper has anything left to do. -/
def Over (call : Call) : Prop :=
  call.handler = .finished ∧ (call.reaper = .unborn ∨ call.reaper = .finished)

end Call

/-- The semaphore of `GitCache::new`; there is none when `max_upload_packs` is `0`. -/
def uploadPacks (maxUploadPacks : ℕ) : Option ℕ :=
  if maxUploadPacks > 0 then some maxUploadPacks else none

/-- The permits left after one is acquired. -/
def take : Option ℕ → Option (Option ℕ)
  | none => some none
  | some 0 => none
  | some (available + 1) => some (some available)

/-- The permits after one is dropped. -/
def giveBack (permits : Option ℕ) : Option ℕ := permits.map (· + 1)

/-- One action of a call. -/
inductive Act (permits : Option ℕ) (call : Call) : Option ℕ → Call → Prop where
  | arrive (isIdle : call.handler = .idle) :
      Act permits call permits { call with handler := .queued }
  | acquire (isQueued : call.handler = .queued) (left : Option ℕ) (free : take permits = some left) :
      Act permits call left
        { call with handler := .granted, acquired := call.acquired + 1 }
  | leaveQueue (isQueued : call.handler = .queued) :
      Act permits call permits { call with handler := .finished }
  -- the client disconnects before the handler goes on, or `spawn` fails
  | abandon (isGranted : call.handler = .granted) :
      Act permits call (giveBack permits)
        { call with handler := .finished, released := call.released + 1 }
  | spawnFails (isGranted : call.handler = .granted) :
      Act permits call (giveBack permits)
        { call with handler := .finished, released := call.released + 1 }
  | spawn (isGranted : call.handler = .granted) :
      Act permits call permits
        { call with handler := .writing, child := .running, reaper := .watching }
  | written (isWriting : call.handler = .writing) :
      Act permits call permits { call with handler := .streaming }
  -- `write_all` fails, or the client disconnects
  | notWritten (isWriting : call.handler = .writing) :
      Act permits call permits { call with handler := .finished, served := .closed }
  | drain (isStreaming : call.handler = .streaming) :
      Act permits call permits { call with handler := .drained, served := .sent }
  | disconnect (isStreaming : call.handler = .streaming) :
      Act permits call permits { call with handler := .finished, served := .closed }
  | respond (isDrained : call.handler = .drained) :
      Act permits call permits { call with handler := .finished }
  -- of its own accord, of a closed pipe, or because it was killed
  | exit (isRunning : call.child = .running) :
      Act permits call permits { call with child := .exited }
  -- `reap_upload_pack`
  | reapFirst (isWatching : call.reaper = .watching) (hasExited : call.child = .exited) :
      Act permits call permits { call with child := .reaped, reaper := .done }
  | kill (isWatching : call.reaper = .watching) (isClosed : call.served = .closed) :
      Act permits call permits { call with reaper := .waiting }
  | noted (isWatching : call.reaper = .watching) (isSent : call.served = .sent) :
      Act permits call permits { call with reaper := .waiting }
  | reap (isWaiting : call.reaper = .waiting) (hasExited : call.child = .exited) :
      Act permits call permits { call with child := .reaped, reaper := .done }
  | release (isDone : call.reaper = .done) :
      Act permits call (giveBack permits)
        { call with reaper := .finished, released := call.released + 1 }

/-- All calls, and the permits they share. -/
structure State (Task : Type u) where
  permits : Option ℕ
  calls : Task → Call

variable {Task : Type u}

def Starts (maxUploadPacks : ℕ) (state : State Task) : Prop :=
  state.permits = uploadPacks maxUploadPacks ∧ ∀ task, state.calls task = .new

variable [DecidableEq Task]

inductive Step (state : State Task) : State Task → Prop where
  | act (task : Task) (permits : Option ℕ) (call : Call)
      (taken : Act state.permits (state.calls task) permits call) :
      Step state ⟨permits, Function.update state.calls task call⟩

/-- A reaper returns. -/
inductive Returns (state : State Task) : State Task → Prop where
  | one (task : Task) (isDone : (state.calls task).reaper = .done) :
      Returns state ⟨giveBack state.permits, Function.update state.calls task
        { state.calls task with
          reaper := .finished
          released := (state.calls task).released + 1 }⟩

/-- What the cap promises of every reachable state. -/
structure Capped (maxUploadPacks : ℕ) (state : State Task) : Prop where
  bounded : ∀ calls : Finset Task, (∀ task ∈ calls, (state.calls task).Unreaped) →
    calls.card ≤ maxUploadPacks
  once : ∀ task, (state.calls task).released ≤ (state.calls task).acquired ∧
    (state.calls task).acquired ≤ 1
  afterReaping : ∀ task, 0 < (state.calls task).released → ¬(state.calls task).Unreaped
  released : ∀ task, (state.calls task).Over →
    (state.calls task).released = (state.calls task).acquired
  /-- once every child is reaped, the reapers that have yet to return bring all permits back -/
  recovered : (∀ task, ¬(state.calls task).Unreaped ∧ (state.calls task).handler ≠ .granted) →
    ∃ state', Reachable (· = state) Returns state' ∧ state'.permits = some maxUploadPacks

/-! ## One call -/

namespace Call

/-- The handler is past the spawn. -/
def Spawned (call : Call) : Prop :=
  call.handler ≠ .idle ∧ call.handler ≠ .queued ∧ call.handler ≠ .granted

/-- How far a call is, by its reaper. -/
def Sound (call : Call) : Prop :=
  match call.reaper with
  | .unborn => call.child = .unborn ∧
      match call.handler with
      | .idle | .queued => call.acquired = 0 ∧ call.released = 0
      | .granted => call.acquired = 1 ∧ call.released = 0
      | .finished => call.acquired ≤ 1 ∧ call.released = call.acquired
      | _ => False
  | .watching | .waiting => call.Unreaped ∧ call.Spawned ∧ call.acquired = 1 ∧ call.released = 0
  | .done => call.child = .reaped ∧ call.Spawned ∧ call.acquired = 1 ∧ call.released = 0
  | .finished => call.child = .reaped ∧ call.Spawned ∧ call.acquired = 1 ∧ call.released = 1

variable {call : Call}

theorem Sound.reaper_unborn (sound : call.Sound) (notSpawned : ¬call.Spawned) :
    call.reaper = .unborn := by
  unfold Sound at sound
  split at sound
  · assumption
  · exact absurd sound.2.1 notSpawned
  · exact absurd sound.2.1 notSpawned
  · exact absurd sound.2.1 notSpawned
  · exact absurd sound.2.1 notSpawned

theorem Sound.move (sound : call.Sound) (spawned : call.Spawned) (notOver : call.handler ≠ .finished)
    {handler : Handler} (later : handler ≠ .idle ∧ handler ≠ .queued ∧ handler ≠ .granted)
    (served : Served) : Sound { call with handler := handler, served := served } := by
  rcases call with ⟨handler', child, reaper, served', acquired, released⟩
  cases reaper with
  | unborn =>
      rcases sound with ⟨_, counts⟩
      rcases spawned with ⟨notIdle, notQueued, notGranted⟩
      cases handler' <;> simp_all
  | watching => exact ⟨sound.1, later, sound.2.2⟩
  | waiting => exact ⟨sound.1, later, sound.2.2⟩
  | done => exact ⟨sound.1, later, sound.2.2⟩
  | finished => exact ⟨sound.1, later, sound.2.2⟩

theorem Sound.counts_of_queued (sound : call.Sound)
    (waits : call.handler = .idle ∨ call.handler = .queued) :
    call.child = .unborn ∧ call.acquired = 0 ∧ call.released = 0 := by
  rcases waits with isIdle | isQueued
  · have unborn := sound.reaper_unborn (by simp [Spawned, isIdle])
    rw [Sound, unborn, isIdle] at sound
    exact sound
  · have unborn := sound.reaper_unborn (by simp [Spawned, isQueued])
    rw [Sound, unborn, isQueued] at sound
    exact sound

theorem Sound.counts_of_granted (sound : call.Sound) (isGranted : call.handler = .granted) :
    call.child = .unborn ∧ call.acquired = 1 ∧ call.released = 0 := by
  have unborn := sound.reaper_unborn (by simp [Spawned, isGranted])
  rw [Sound, unborn, isGranted] at sound
  exact sound

theorem Sound.reaper_of_unreaped (sound : call.Sound) (unreaped : call.Unreaped) :
    call.reaper = .watching ∨ call.reaper = .waiting := by
  have notUnborn : call.child ≠ .unborn := by
    rcases unreaped with child | child <;> simp [child]
  have notReaped : call.child ≠ .reaped := by
    rcases unreaped with child | child <;> simp [child]
  unfold Sound at sound
  split at sound
  · exact absurd sound.1 notUnborn
  · exact Or.inl ‹_›
  · exact Or.inr ‹_›
  · exact absurd sound.1 notReaped
  · exact absurd sound.1 notReaped

variable {permits permits' : Option ℕ} {call' : Call}

theorem Sound.act (sound : call.Sound) (taken : Act permits call permits' call') :
    call'.Sound := by
  cases taken with
  | arrive isIdle =>
      have unborn := sound.reaper_unborn (by simp [Spawned, isIdle])
      have counts := sound.counts_of_queued (Or.inl isIdle)
      simp [Sound, unborn, counts]
  | acquire isQueued left free =>
      have unborn := sound.reaper_unborn (by simp [Spawned, isQueued])
      have counts := sound.counts_of_queued (Or.inr isQueued)
      simp [Sound, unborn, counts]
  | leaveQueue isQueued =>
      have unborn := sound.reaper_unborn (by simp [Spawned, isQueued])
      have counts := sound.counts_of_queued (Or.inr isQueued)
      simp [Sound, unborn, counts]
  | abandon isGranted =>
      have unborn := sound.reaper_unborn (by simp [Spawned, isGranted])
      have counts := sound.counts_of_granted isGranted
      simp [Sound, unborn, counts]
  | spawnFails isGranted =>
      have unborn := sound.reaper_unborn (by simp [Spawned, isGranted])
      have counts := sound.counts_of_granted isGranted
      simp [Sound, unborn, counts]
  | spawn isGranted =>
      have counts := sound.counts_of_granted isGranted
      simp [Sound, Unreaped, Spawned, counts]
  | written isWriting =>
      apply sound.move <;> simp [Spawned, isWriting]
  | notWritten isWriting =>
      apply sound.move <;> simp [Spawned, isWriting]
  | drain isStreaming =>
      apply sound.move <;> simp [Spawned, isStreaming]
  | disconnect isStreaming =>
      apply sound.move <;> simp [Spawned, isStreaming]
  | respond isDrained =>
      apply sound.move <;> simp [Spawned, isDrained]
  | exit isRunning =>
      rcases sound.reaper_of_unreaped (Or.inl isRunning) with isWatching | isWaiting
      · rw [Sound, isWatching] at sound
        simp only [Sound, isWatching]
        exact ⟨Or.inr rfl, sound.2⟩
      · rw [Sound, isWaiting] at sound
        simp only [Sound, isWaiting]
        exact ⟨Or.inr rfl, sound.2⟩
  | reapFirst isWatching hasExited =>
      rw [Sound, isWatching] at sound
      exact ⟨rfl, sound.2⟩
  | kill isWatching isClosed =>
      rw [Sound, isWatching] at sound
      exact sound
  | noted isWatching isSent =>
      rw [Sound, isWatching] at sound
      exact sound
  | reap isWaiting hasExited =>
      rw [Sound, isWaiting] at sound
      exact ⟨rfl, sound.2⟩
  | release isDone =>
      rw [Sound, isDone] at sound
      exact ⟨sound.1, sound.2.1, sound.2.2.1, congrArg (· + 1) sound.2.2.2⟩

/-- What an action does to the permits, it does for its own call. -/
theorem Sound.trade (sound : call.Sound) (taken : Act permits call permits' call') :
    (permits' = permits ∧ call'.holds = call.holds) ∨
      (take permits = some permits' ∧ call.holds = false ∧ call'.holds = true) ∨
        (permits' = giveBack permits ∧ call.holds = true ∧ call'.holds = false) := by
  cases taken with
  | acquire isQueued left free =>
      have counts := sound.counts_of_queued (Or.inr isQueued)
      right
      left
      exact ⟨free, by simp [holds, counts], by simp [holds, counts]⟩
  | abandon isGranted =>
      have counts := sound.counts_of_granted isGranted
      right
      right
      exact ⟨rfl, by simp [holds, counts], by simp [holds, counts]⟩
  | spawnFails isGranted =>
      have counts := sound.counts_of_granted isGranted
      right
      right
      exact ⟨rfl, by simp [holds, counts], by simp [holds, counts]⟩
  | release isDone =>
      rw [Sound, isDone] at sound
      right
      right
      exact ⟨rfl, by simp [holds, sound.2.2], by simp [holds, sound.2.2]⟩
  | _ => exact Or.inl ⟨rfl, rfl⟩

theorem Sound.holds_of_unreaped (sound : call.Sound) (unreaped : call.Unreaped) :
    call.holds = true := by
  rcases sound.reaper_of_unreaped unreaped with isWatching | isWaiting
  · rw [Sound, isWatching] at sound
    simp [holds, sound.2.2]
  · rw [Sound, isWaiting] at sound
    simp [holds, sound.2.2]

end Call

/-! ## All calls -/

/-- The permits left and those of the calls add up, and every call keeps to its program. -/
def Inv (maxUploadPacks : ℕ) (state : State Task) : Prop :=
  (∀ task, (state.calls task).Sound) ∧
    ∃ available, state.permits = some available ∧
      Semaphore.Balanced Call.holds maxUploadPacks available state.calls

variable {maxUploadPacks : ℕ} {state state' : State Task}

theorem Inv.step (inv : Inv maxUploadPacks state) (taken : Step state state') :
    Inv maxUploadPacks state' := by
  rcases inv with ⟨sound, available, some_, balanced⟩
  cases taken with
  | act task permits call act =>
      constructor
      · intro other
        by_cases isTask : other = task
        · subst other
          simpa using (sound task).act act
        · simpa [isTask] using sound other
      · rcases (sound task).trade act with ⟨same, keeps⟩ | ⟨taken, free, held⟩ |
          ⟨given, held, free⟩
        · exact ⟨available, same.trans some_, balanced.frame keeps⟩
        · cases available with
          | zero =>
              rw [some_] at taken
              cases taken
          | succ left =>
              rw [some_] at taken
              exact ⟨left, (Option.some.inj taken).symm, balanced.acquire free held⟩
        · refine ⟨available + 1, ?_, balanced.release held free⟩
          rw [given, some_]
          rfl

theorem inv_of_reachable (capped : 0 < maxUploadPacks)
    (reached : Reachable (Starts maxUploadPacks) Step state) : Inv maxUploadPacks state := by
  apply reached.invariant
  · rintro state ⟨permits, fresh⟩
    constructor
    · intro task
      rw [fresh task]
      exact ⟨rfl, rfl, rfl⟩
    · refine ⟨maxUploadPacks, permits.trans (if_pos capped), ?_⟩
      apply Semaphore.balanced_initial
      intro task
      rw [fresh task]
      rfl
  · intro state state' inv taken
    exact inv.step taken

theorem Call.Sound.once {call : Call} (sound : call.Sound) :
    call.released ≤ call.acquired ∧ call.acquired ≤ 1 := by
  rcases call with ⟨handler, child, reaper, served, acquired, released⟩
  cases reaper with
  | unborn =>
      have counts := sound.2
      cases handler <;> simp only at counts ⊢ <;> omega
  | watching =>
      have counts := sound.2.2
      simp only at counts ⊢
      omega
  | waiting =>
      have counts := sound.2.2
      simp only at counts ⊢
      omega
  | done =>
      have counts := sound.2.2
      simp only at counts ⊢
      omega
  | finished =>
      have counts := sound.2.2
      simp only at counts ⊢
      omega

theorem Call.Sound.released_of_over {call : Call} (sound : call.Sound) (ended : call.Over) :
    call.released = call.acquired := by
  rcases ended with ⟨isOver, reaper | reaper⟩
  · rw [Sound, reaper, isOver] at sound
    exact sound.2.2
  · rw [Sound, reaper] at sound
    have counts := sound.2.2
    omega

/-- When nobody is about to spawn and every child is reaped, whoever holds a permit is about to
drop it. -/
theorem Call.Sound.done_of_holds {call : Call} (sound : call.Sound) (held : call.holds = true)
    (reaped : ¬call.Unreaped) (notGranted : call.handler ≠ .granted) : call.reaper = .done := by
  rcases call with ⟨handler, child, reaper, served, acquired, released⟩
  have more : released < acquired := by simpa [Call.holds] using held
  cases reaper with
  | unborn =>
      have counts := sound.2
      cases handler with
      | granted => exact absurd rfl notGranted
      | idle => exact absurd more (by simp_all)
      | queued => exact absurd more (by simp_all)
      | finished => exact absurd more (by simp_all)
      | _ => exact counts.elim
  | watching => exact absurd sound.1 reaped
  | waiting => exact absurd sound.1 reaped
  | done => rfl
  | finished =>
      have counts := sound.2.2
      simp only at counts
      omega

/-- All children are reaped, and no permit is waiting for its spawn. -/
def Settled (calls : Task → Call) : Prop :=
  ∀ task, (calls task).Sound ∧ ¬(calls task).Unreaped ∧ (calls task).handler ≠ .granted

/-- Some reapers have returned since `state`, in which all children were reaped. -/
def Returned (state : State Task) (available : ℕ) (calls : Task → Call) : Prop :=
  Reachable (· = state) Returns ⟨some available, calls⟩ ∧ Settled calls

theorem Returned.next {available : ℕ} {calls : Task → Call}
    (returned : Returned state available calls) (task : Task)
    (held : (calls task).holds = true) :
    ∃ call : Call, call.holds = false ∧
      Returned state (available + 1) (Function.update calls task call) := by
  rcases returned with ⟨reached, settled⟩
  rcases settled task with ⟨sound, reaped, notGranted⟩
  have isDone := sound.done_of_holds held reaped notGranted
  have release : Act (some available) (calls task) (some (available + 1)) _ := .release isDone
  have counts := sound
  rw [Call.Sound, isDone] at counts
  refine ⟨_, ?_, reached.next (.one task isDone), ?_⟩
  · simp [Call.holds, counts.2.2]
  · intro other
    by_cases isTask : other = task
    · subst other
      simp only [Function.update_self]
      exact ⟨sound.act release, reaped, notGranted⟩
    · simpa [isTask] using settled other

theorem recovered_of_settled (inv : Inv maxUploadPacks state) (settled : Settled state.calls) :
    ∃ state', Reachable (· = state) Returns state' ∧ state'.permits = some maxUploadPacks := by
  rcases inv with ⟨_, available, permits, balanced⟩
  have start : Returned state available state.calls := by
    refine ⟨?_, settled⟩
    rw [← permits]
    exact .start rfl
  rcases balanced.recover start fun _ _ task returned held => returned.next task held with
    ⟨calls, reached, _⟩
  exact ⟨_, reached, rfl⟩

theorem Inv.capped (inv : Inv maxUploadPacks state) : Capped maxUploadPacks state where
  bounded := by
    intro calls unreaped
    rcases inv with ⟨sound, available, _, balanced⟩
    apply balanced.card_le
    intro task taskMem
    exact (sound task).holds_of_unreaped (unreaped task taskMem)
  once := by
    intro task
    exact (inv.1 task).once
  afterReaping := by
    intro task released unreaped
    have held := (inv.1 task).holds_of_unreaped unreaped
    have once := (inv.1 task).once
    simp only [Call.holds, decide_eq_true_eq] at held
    omega
  released := by
    intro task ended
    exact (inv.1 task).released_of_over ended
  recovered := by
    intro settled
    apply recovered_of_settled inv
    intro task
    exact ⟨inv.1 task, settled task⟩

/-- However the calls, their children and their reapers take turns, the cap holds and no permit
is lost. -/
theorem capped_of_reachable (capped : 0 < maxUploadPacks)
    (reached : Reachable (Starts maxUploadPacks) Step state) : Capped maxUploadPacks state :=
  (inv_of_reachable capped reached).capped

/-! One permit: a second call waits while the child of the first, whose client has gone, is
being killed. -/

theorem capped_of_one_permit : ∃ state : State Bool,
    (state.calls true).handler = .finished ∧ (state.calls true).Unreaped ∧
      (state.calls false).handler = .queued ∧ Capped 1 state := by
  have starts : Starts 1 (⟨uploadPacks 1, fun _ => .new⟩ : State Bool) := ⟨rfl, fun _ => rfl⟩
  have run : Reachable (Starts 1) Step _ := .start starts
  have run := run.next (.act true _ _ (.arrive rfl))
  have run := run.next (.act true _ _ (.acquire rfl (some 0) rfl))
  have run := run.next (.act true _ _ (.spawn rfl))
  have run := run.next (.act false _ _ (.arrive rfl))
  have run := run.next (.act true _ _ (.notWritten rfl))
  have run := run.next (.act true _ _ (.kill rfl rfl))
  exact ⟨_, rfl, Or.inl rfl, rfl, capped_of_reachable (Nat.one_pos) run⟩

end GitCacheProxy.Serve
