import GitCacheProxy.Serve.Permits

/-!
# Killing an abandoned upload-pack

After the spawn, two machines go their own ways.  The handler writes the request and hands out a
`TimedReader` over the stdout of the child; `reap_upload_pack` waits for the child and for the
channel between the two.  Here one action of the reaper is one thing that it polls or calls, so
that the stream can be dropped and the child can exit between any two of them.

The child is looked at before the channel.  A child that exits after its client has left, but
before the reaper looks again, is therefore only reaped.
-/

namespace GitCacheProxy.Serve.Upload

open TransitionSystem

/-! ## The reader -/

/-- What `poll_read` of the child's stdout returns, with the number of bytes that it adds to a
buffer which is not full. -/
inductive Poll where
  | pending
  | ready (added : ℕ)
  | failed
  deriving DecidableEq

/-- The two options of a `TimedReader`, by whether there is something in them. -/
structure TimedReader where
  recorder : Bool
  served : Bool
  deriving DecidableEq

inductive Handler where
  /-- in `write_all` -/
  | writing
  /-- no stream was returned -/
  | failed
  | streaming (reader : TimedReader)
  /-- the stream was returned, and dropped -/
  | dropped
  deriving DecidableEq

/-- Where `reap_upload_pack` is. -/
inductive Reaper where
  /-- about to poll `child.wait()` -/
  | watching
  /-- about to poll `served`; the child was still running -/
  | asking
  /-- in the branch of a client that is gone -/
  | killing
  /-- in the second `child.wait()` -/
  | waiting
  | done
  deriving DecidableEq

inductive Signal where
  | group
  /-- `start_kill`, when the signal to the group has failed -/
  | leader
  deriving DecidableEq

/-- One call after its spawn; the last three are history. -/
structure State where
  handler : Handler
  child : Child
  reaper : Reaper
  served : Served
  signals : List Signal
  /-- how often a serve duration was observed -/
  recorded : ℕ
  /-- a read has reported the end of file -/
  ended : Bool
  deriving DecidableEq

namespace TimedReader

variable (reader : TimedReader) (state : State)

def record : TimedReader × State :=
  if reader.recorder then
    ({ reader with recorder := false }, { state with recorded := state.recorded + 1 })
  else (reader, state)

def finish : TimedReader × State :=
  let sent : TimedReader × State :=
    if reader.served then ({ reader with served := false }, { state with served := .sent })
    else (reader, state)
  sent.1.record sent.2

/-- `poll_read`; a ready read that adds no bytes is the end of the file. -/
def pollRead (poll : Poll) : TimedReader × State :=
  match poll with
  | .ready 0 => reader.finish { state with ended := true }
  | _ => (reader, state)

/-- `Drop::drop`, and the drop of the fields after it. -/
def drop : State :=
  let recorded := reader.record state
  if recorded.1.served then { recorded.2 with served := .closed } else recorded.2

end TimedReader

/-! ## The two machines -/

/-- After the spawn. -/
def Starts (state : State) : Prop :=
  state = ⟨.writing, .running, .watching, .open, [], 0, false⟩

/-- One action of the handler, of its client or of the child. -/
inductive Serves (state : State) : State → Prop where
  | written (isWriting : state.handler = .writing) :
      Serves state { state with handler := .streaming ⟨true, true⟩ }
  | writeFails (isWriting : state.handler = .writing) :
      Serves state { state with handler := .failed, served := .closed }
  | requestDropped (isWriting : state.handler = .writing) :
      Serves state { state with handler := .failed, served := .closed }
  | read (reader : TimedReader) (isStreaming : state.handler = .streaming reader) (poll : Poll) :
      Serves state { (reader.pollRead state poll).2 with
        handler := .streaming (reader.pollRead state poll).1 }
  | streamDropped (reader : TimedReader) (isStreaming : state.handler = .streaming reader) :
      Serves state { reader.drop state with handler := .dropped }
  | exit (isRunning : state.child = .running) : Serves state { state with child := .exited }

/-- One action of `reap_upload_pack`. -/
inductive Reaps (state : State) : State → Prop where
  | reapFirst (isWatching : state.reaper = .watching) (hasExited : state.child = .exited) :
      Reaps state { state with child := .reaped, reaper := .done }
  | notExited (isWatching : state.reaper = .watching) (isRunning : state.child = .running) :
      Reaps state { state with reaper := .asking }
  | notServed (isAsking : state.reaper = .asking) (isOpen : state.served = .open) :
      Reaps state { state with reaper := .watching }
  | noted (isAsking : state.reaper = .asking) (isSent : state.served = .sent) :
      Reaps state { state with reaper := .waiting }
  | clientGone (isAsking : state.reaper = .asking) (isClosed : state.served = .closed) :
      Reaps state { state with reaper := .killing }
  | killGroup (isKilling : state.reaper = .killing) :
      Reaps state { state with reaper := .waiting, signals := .group :: state.signals }
  | startKill (isKilling : state.reaper = .killing) :
      Reaps state { state with reaper := .waiting, signals := .leader :: state.signals }
  | reap (isWaiting : state.reaper = .waiting) (hasExited : state.child = .exited) :
      Reaps state { state with child := .reaped, reaper := .done }

def Step (state state' : State) : Prop := Serves state state' ∨ Reaps state state'

/-! ## The property -/

/-- The stream, or the handler before it, was dropped without an end of file. -/
def State.LeftEarly (state : State) : Prop :=
  (state.handler = .failed ∨ state.handler = .dropped) ∧ state.ended = false

/-- On the way from one state to the other, the child exits while the reaper has yet to look. -/
def ExitsUnseen (state later : State) : Prop :=
  ∃ before, Reachable (· = state) Step before ∧ before.reaper = .watching ∧
    before.child = .running ∧ Reachable (· = { before with child := .exited }) Step later

/-- How many actions the reaper has ahead once the channel is closed. -/
def Reaper.ahead : Reaper → ℕ
  | watching => 4
  | asking => 3
  | killing => 2
  | waiting => 1
  | done => 0

/-- How often the duration of a call is to be recorded. -/
def State.records (state : State) : ℕ :=
  match state.handler with
  | .writing | .failed => 0
  | .streaming _ => if state.ended then 1 else 0
  | .dropped => 1

/-- What is done about a child, in a state and from there on. -/
structure Pursued (state : State) : Prop where
  signalsAbandoned : state.signals ≠ [] → state.LeftEarly
  sparesServed : state.ended = true → state.signals = []
  recordsOnce : state.recorded = state.records
  /-- an abandoned child is signalled, unless it exits before the reaper looks at it again -/
  signals : state.LeftEarly → state.child = .running → ∀ later,
    Reachable (· = state) Step later → later.reaper = .done →
      later.signals ≠ [] ∨ ExitsUnseen state later
  /-- and it is reaped: the reaper has only so many actions ahead, and the only thing that it still
  waits for is the exit of a child that it has signalled -/
  reaps : state.LeftEarly →
    (∀ state', Reaps state state' → state'.reaper.ahead < state.reaper.ahead) ∧
      ((∃ state', Reaps state state') ∨ (state.reaper = .done ∧ state.child = .reaped) ∨
        (state.reaper = .waiting ∧ state.child = .running ∧ state.signals ≠ []))

/-! ## The handler and its reader -/

/-- How far a call is, by what its reader has sent and recorded. -/
inductive Phase : Handler → Served → ℕ → Bool → Prop where
  | writing : Phase .writing .open 0 false
  | failed : Phase .failed .closed 0 false
  | reading : Phase (.streaming ⟨true, true⟩) .open 0 false
  | read : Phase (.streaming ⟨false, false⟩) .sent 1 true
  | abandoned : Phase .dropped .closed 1 false
  | drained : Phase .dropped .sent 1 true

namespace State

variable {state state' : State}

/-- The handler keeps to its program. -/
def Handled (state : State) : Prop :=
  Phase state.handler state.served state.recorded state.ended

theorem Handled.serves (handled : state.Handled) (taken : Serves state state') :
    state'.Handled := by
  rcases state with ⟨handler, child, reaper, served, signals, recorded, ended⟩
  cases taken with
  | written isWriting =>
      cases isWriting
      cases handled
      exact .reading
  | writeFails isWriting =>
      cases isWriting
      cases handled
      exact .failed
  | requestDropped isWriting =>
      cases isWriting
      cases handled
      exact .failed
  | read reader isStreaming poll =>
      cases isStreaming
      cases handled with
      | reading =>
          match poll with
          | .ready 0 => exact .read
          | .ready (_ + 1) | .pending | .failed => exact .reading
      | read =>
          match poll with
          | .ready 0 | .ready (_ + 1) | .pending | .failed => exact .read
  | streamDropped reader isStreaming =>
      cases isStreaming
      cases handled with
      | reading => exact .abandoned
      | read => exact .drained
  | exit isRunning => exact handled

theorem Handled.reaps (handled : state.Handled) (taken : Reaps state state') :
    state'.Handled := by
  cases taken <;> exact handled

/-- What is in the channel stays there. -/
theorem Handled.served_eq (handled : state.Handled) (taken : Serves state state')
    (notOpen : state.served ≠ .open) : state'.served = state.served := by
  rcases state with ⟨handler, child, reaper, served, signals, recorded, ended⟩
  cases taken with
  | written isWriting => rfl
  | writeFails isWriting | requestDropped isWriting =>
      cases isWriting
      cases handled
      exact absurd rfl notOpen
  | read reader isStreaming poll =>
      cases isStreaming
      cases handled with
      | reading => exact absurd rfl notOpen
      | read =>
          match poll with
          | .ready 0 | .ready (_ + 1) | .pending | .failed => rfl
  | streamDropped reader isStreaming =>
      cases isStreaming
      cases handled with
      | reading => exact absurd rfl notOpen
      | read => rfl
  | exit isRunning => rfl

theorem Handled.closed_iff (handled : state.Handled) :
    state.served = .closed ↔ state.LeftEarly := by
  rcases state with ⟨handler, child, reaper, served, signals, recorded, ended⟩
  cases handled <;> simp [LeftEarly]

theorem Handled.sent_iff (handled : state.Handled) :
    state.served = .sent ↔ state.ended = true := by
  rcases state with ⟨handler, child, reaper, served, signals, recorded, ended⟩
  cases handled <;> simp

theorem Handled.recorded_eq (handled : state.Handled) : state.recorded = state.records := by
  rcases state with ⟨handler, child, reaper, served, signals, recorded, ended⟩
  cases handled <;> rfl

end State

/-! ## The reaper -/

/-- How far the reaper is, by what it has found in the channel. -/
inductive Pursuit : Reaper → List Signal → Served → Child → Prop where
  | watching {served : Served} {child : Child} (unreaped : child = .running ∨ child = .exited) :
      Pursuit .watching [] served child
  | asking {served : Served} {child : Child} (unreaped : child = .running ∨ child = .exited) :
      Pursuit .asking [] served child
  | killing {child : Child} (unreaped : child = .running ∨ child = .exited) :
      Pursuit .killing [] .closed child
  | spared {child : Child} (unreaped : child = .running ∨ child = .exited) :
      Pursuit .waiting [] .sent child
  | signalled {signal : Signal} {signals : List Signal} {child : Child}
      (unreaped : child = .running ∨ child = .exited) :
      Pursuit .waiting (signal :: signals) .closed child
  | unharmed {served : Served} : Pursuit .done [] served .reaped
  | reaped {signal : Signal} {signals : List Signal} :
      Pursuit .done (signal :: signals) .closed .reaped

namespace State

variable {state state' : State}

/-- The reaper keeps to its program. -/
def Watched (state : State) : Prop :=
  Pursuit state.reaper state.signals state.served state.child

theorem Watched.reaps (watched : state.Watched) (taken : Reaps state state') :
    state'.Watched := by
  rcases state with ⟨handler, child, reaper, served, signals, recorded, ended⟩
  cases taken with
  | reapFirst isWatching hasExited =>
      cases isWatching
      cases watched
      exact .unharmed
  | notExited isWatching isRunning =>
      cases isWatching
      cases watched with
      | watching unreaped => exact .asking unreaped
  | notServed isAsking isOpen =>
      cases isAsking
      cases watched with
      | asking unreaped => exact .watching unreaped
  | noted isAsking isSent =>
      cases isAsking
      cases isSent
      cases watched with
      | asking unreaped => exact .spared unreaped
  | clientGone isAsking isClosed =>
      cases isAsking
      cases isClosed
      cases watched with
      | asking unreaped => exact .killing unreaped
  | killGroup isKilling =>
      cases isKilling
      cases watched with
      | killing unreaped => exact .signalled unreaped
  | startKill isKilling =>
      cases isKilling
      cases watched with
      | killing unreaped => exact .signalled unreaped
  | reap isWaiting hasExited =>
      cases isWaiting
      cases watched with
      | spared => exact .unharmed
      | signalled => exact .reaped

end State

/-- The others come between the actions of the reaper only through the channel and the exit of the
child. -/
theorem Pursuit.congr {reaper : Reaper} {signals : List Signal} {served served' : Served}
    {child child' : Child} (pursuit : Pursuit reaper signals served child)
    (kept : served ≠ .open → served' = served)
    (same : child' = child ∨ child = .running ∧ child' = .exited) :
    Pursuit reaper signals served' child' := by
  have unreaped (alive : child = .running ∨ child = .exited) :
      child' = .running ∨ child' = .exited := by
    rcases same with rfl | ⟨_, exited⟩
    · exact alive
    · exact Or.inr exited
  cases pursuit with
  | watching alive => exact .watching (unreaped alive)
  | asking alive => exact .asking (unreaped alive)
  | killing alive =>
      rw [kept (by decide)]
      exact .killing (unreaped alive)
  | spared alive =>
      rw [kept (by decide)]
      exact .spared (unreaped alive)
  | signalled alive =>
      rw [kept (by decide)]
      exact .signalled (unreaped alive)
  | unharmed =>
      rcases same with rfl | ⟨alive, _⟩
      · exact .unharmed
      · cases alive
  | reaped =>
      rw [kept (by decide)]
      rcases same with rfl | ⟨alive, _⟩
      · exact .reaped
      · cases alive

namespace TimedReader

variable (reader : TimedReader) (state : State)

theorem frame_pollRead (poll : Poll) :
    (reader.pollRead state poll).2.reaper = state.reaper ∧
      (reader.pollRead state poll).2.signals = state.signals ∧
      (reader.pollRead state poll).2.child = state.child := by
  rcases reader with ⟨_ | _, _ | _⟩ <;>
    match poll with
    | .ready 0 | .ready (_ + 1) | .pending | .failed => exact ⟨rfl, rfl, rfl⟩

theorem frame_drop : (reader.drop state).reaper = state.reaper ∧
    (reader.drop state).signals = state.signals ∧ (reader.drop state).child = state.child := by
  rcases reader with ⟨_ | _, _ | _⟩ <;> exact ⟨rfl, rfl, rfl⟩

end TimedReader

namespace State

variable {state state' later : State}

theorem frame_of_serves (taken : Serves state state') :
    state'.reaper = state.reaper ∧ state'.signals = state.signals ∧
      (state'.child = state.child ∨
        state.child = .running ∧ state' = { state with child := .exited }) := by
  cases taken with
  | written | writeFails | requestDropped => exact ⟨rfl, rfl, Or.inl rfl⟩
  | read reader _ poll =>
      rcases reader.frame_pollRead state poll with ⟨sameReaper, sameSignals, sameChild⟩
      exact ⟨sameReaper, sameSignals, Or.inl sameChild⟩
  | streamDropped reader =>
      rcases reader.frame_drop state with ⟨sameReaper, sameSignals, sameChild⟩
      exact ⟨sameReaper, sameSignals, Or.inl sameChild⟩
  | exit isRunning => exact ⟨rfl, rfl, Or.inr ⟨isRunning, rfl⟩⟩

/-- Both machines keep to their programs. -/
def Inv (state : State) : Prop := state.Handled ∧ state.Watched

theorem Inv.step (inv : state.Inv) (taken : Step state state') : state'.Inv := by
  rcases inv with ⟨handled, watched⟩
  rcases taken with serves | reaps
  · rcases frame_of_serves serves with ⟨sameReaper, sameSignals, child⟩
    refine ⟨handled.serves serves, ?_⟩
    rw [Watched, sameReaper, sameSignals]
    apply watched.congr (handled.served_eq serves)
    rcases child with same | ⟨isRunning, rfl⟩
    · exact Or.inl same
    · exact Or.inr ⟨isRunning, rfl⟩
  · exact ⟨handled.reaps reaps, watched.reaps reaps⟩

theorem inv_of_reachable (reached : Reachable Starts Step state) : state.Inv := by
  apply reached.invariant
  · rintro _ rfl
    exact ⟨.writing, .watching (Or.inl rfl)⟩
  · exact fun _ _ inv taken => inv.step taken

/-- Once the channel is closed, it stays so. -/
theorem Inv.closed (inv : state.Inv) (closed : state.served = .closed)
    (taken : Step state state') : state'.served = .closed := by
  rcases taken with serves | reaps
  · rw [inv.1.served_eq serves (by simp [closed]), closed]
  · cases reaps <;> exact closed

/-! ## An abandoned child -/

/-- What the reaper is about to do for a child that was abandoned while it was running. -/
def Chases (state later : State) : Prop :=
  later.signals ≠ [] ∨ later.reaper = .killing ∨ later.reaper = .asking ∨
    (later.reaper = .watching ∧ later.child = .running) ∨ ExitsUnseen state later

theorem Watched.chases (watched : state.Watched) (closed : state.served = .closed)
    (running : state.child = .running) : Chases state state := by
  rcases state with ⟨handler, child, reaper, served, signals, recorded, ended⟩
  cases closed
  cases running
  cases watched with
  | watching => exact Or.inr (Or.inr (Or.inr (Or.inl ⟨rfl, rfl⟩)))
  | asking => exact Or.inr (Or.inr (Or.inl rfl))
  | killing => exact Or.inr (Or.inl rfl)
  | signalled => exact Or.inl (by simp)

theorem exitsUnseen_next {next : State} (unseen : ExitsUnseen state later)
    (taken : Step later next) : ExitsUnseen state next := by
  rcases unseen with ⟨before, reached, isWatching, isRunning, after⟩
  exact ⟨before, reached, isWatching, isRunning, after.next taken⟩

theorem signals_ne_nil_of_step (taken : Step state state') (signalled : state.signals ≠ []) :
    state'.signals ≠ [] := by
  rcases taken with serves | reaps
  · rwa [(frame_of_serves serves).2.1]
  · cases reaps with
    | killGroup | startKill => exact List.cons_ne_nil _ _
    | _ => exact signalled

/-- While the child is running, the reaper looks at it, or it exits. -/
theorem chases_of_watching {next : State} (isWatching : later.reaper = .watching)
    (isRunning : later.child = .running) (reached : Reachable (· = state) Step later)
    (taken : Step later next) : Chases state next := by
  rcases taken with serves | reaps
  · rcases frame_of_serves serves with ⟨sameReaper, _, sameChild | ⟨_, rfl⟩⟩
    · right
      right
      right
      left
      exact ⟨sameReaper.trans isWatching, sameChild.trans isRunning⟩
    · right
      right
      right
      right
      exact ⟨later, reached, isWatching, isRunning, .start rfl⟩
  · cases reaps with
    | notExited => exact Or.inr (Or.inr (Or.inl rfl))
    | reapFirst _ hasExited => cases isRunning.symm.trans hasExited
    | notServed elsewhere | noted elsewhere | clientGone elsewhere | killGroup elsewhere
    | startKill elsewhere | reap elsewhere => cases isWatching.symm.trans elsewhere

theorem chases_of_asking {next : State} (isAsking : later.reaper = .asking)
    (closed : later.served = .closed) (taken : Step later next) : Chases state next := by
  rcases taken with serves | reaps
  · exact Or.inr (Or.inr (Or.inl ((frame_of_serves serves).1.trans isAsking)))
  · cases reaps with
    | clientGone => exact Or.inr (Or.inl rfl)
    | notServed _ isOpen => cases closed.symm.trans isOpen
    | noted _ isSent => cases closed.symm.trans isSent
    | reapFirst elsewhere | notExited elsewhere | killGroup elsewhere | startKill elsewhere
    | reap elsewhere => cases isAsking.symm.trans elsewhere

theorem chases_of_killing {next : State} (isKilling : later.reaper = .killing)
    (taken : Step later next) : Chases state next := by
  rcases taken with serves | reaps
  · exact Or.inr (Or.inl ((frame_of_serves serves).1.trans isKilling))
  · cases reaps with
    | killGroup | startKill => exact Or.inl (List.cons_ne_nil _ _)
    | reapFirst elsewhere | notExited elsewhere | notServed elsewhere | noted elsewhere
    | clientGone elsewhere | reap elsewhere => cases isKilling.symm.trans elsewhere

theorem Chases.step {next : State} (chases : Chases state later)
    (closed : later.served = .closed) (reached : Reachable (· = state) Step later)
    (taken : Step later next) : Chases state next := by
  rcases chases with signalled | isKilling | isAsking | ⟨isWatching, isRunning⟩ | unseen
  · exact Or.inl (signals_ne_nil_of_step taken signalled)
  · exact chases_of_killing isKilling taken
  · exact chases_of_asking isAsking closed taken
  · exact chases_of_watching isWatching isRunning reached taken
  · exact Or.inr (Or.inr (Or.inr (Or.inr (exitsUnseen_next unseen taken))))

/-- From a state with a closed channel on, the reaper is after the child. -/
theorem Inv.chases (inv : state.Inv) (closed : state.served = .closed)
    (running : state.child = .running) (reached : Reachable (· = state) Step later) :
    later.Inv ∧ later.served = .closed ∧ Chases state later := by
  induction reached with
  | start starts =>
      subst starts
      exact ⟨inv, closed, inv.2.chases closed running⟩
  | next reached taken ih =>
      rcases ih with ⟨invLater, closedLater, chases⟩
      exact ⟨invLater.step taken, invLater.closed closedLater taken,
        chases.step closedLater reached taken⟩

/-- With a closed channel the reaper comes closer to its end with every action. -/
theorem ahead_lt_of_reaps (closed : state.served = .closed) (taken : Reaps state state') :
    state'.reaper.ahead < state.reaper.ahead := by
  cases taken with
  | reapFirst isWatching | notExited isWatching =>
      simp [isWatching, Reaper.ahead]
  | notServed _ isOpen => cases closed.symm.trans isOpen
  | noted _ isSent => cases closed.symm.trans isSent
  | clientGone isAsking =>
      simp [isAsking, Reaper.ahead]
  | killGroup isKilling | startKill isKilling =>
      simp [isKilling, Reaper.ahead]
  | reap isWaiting =>
      simp [isWaiting, Reaper.ahead]

/-- With a closed channel the reaper waits only for a child that it has signalled. -/
theorem Watched.goes_on (watched : state.Watched) (closed : state.served = .closed) :
    (∃ state', Reaps state state') ∨ (state.reaper = .done ∧ state.child = .reaped) ∨
      (state.reaper = .waiting ∧ state.child = .running ∧ state.signals ≠ []) := by
  rcases state with ⟨handler, child, reaper, served, signals, recorded, ended⟩
  cases closed
  cases watched with
  | watching unreaped =>
      left
      rcases unreaped with rfl | rfl
      · exact ⟨_, .notExited rfl rfl⟩
      · exact ⟨_, .reapFirst rfl rfl⟩
  | asking => exact Or.inl ⟨_, .clientGone rfl rfl⟩
  | killing => exact Or.inl ⟨_, .killGroup rfl⟩
  | signalled unreaped =>
      rcases unreaped with rfl | rfl
      · exact Or.inr (Or.inr ⟨rfl, rfl, List.cons_ne_nil _ _⟩)
      · exact Or.inl ⟨_, .reap rfl rfl⟩
  | unharmed => exact Or.inr (Or.inl ⟨rfl, rfl⟩)
  | reaped => exact Or.inr (Or.inl ⟨rfl, rfl⟩)

theorem Watched.closed_of_signals (watched : state.Watched) (signalled : state.signals ≠ []) :
    state.served = .closed := by
  rcases state with ⟨handler, child, reaper, served, signals, recorded, ended⟩
  cases watched with
  | signalled | reaped => rfl
  | _ => exact absurd rfl signalled

end State

/-! ## The cap on upload-packs -/

/-- A call as the cap on upload-packs sees it. -/
def State.toCall (state : State) : Call where
  handler :=
    match state.handler with
    | .writing => .writing
    | .streaming _ => if state.ended then .drained else .streaming
    | .failed | .dropped => .finished
  child := state.child
  reaper :=
    match state.reaper with
    | .watching | .asking | .killing => .watching
    | .waiting => .waiting
    | .done => .done
  served := state.served
  acquired := 1
  released := 0

/-- The machine behind the cap does the same in larger actions. -/
theorem State.Inv.simulates {state state' : State} (inv : state.Inv) (taken : Step state state')
    (permits : Option ℕ) :
    Act permits state.toCall permits state'.toCall ∨ state'.toCall = state.toCall := by
  rcases state with ⟨handler, child, reaper, served, signals, recorded, ended⟩
  rcases inv with ⟨handled, watched⟩
  rcases taken with serves | reaps
  · cases serves with
    | written isWriting =>
        cases isWriting
        cases handled
        exact Or.inl (.written rfl)
    | writeFails isWriting | requestDropped isWriting =>
        cases isWriting
        exact Or.inl (.notWritten rfl)
    | read reader isStreaming poll =>
        cases isStreaming
        cases handled with
        | reading =>
            match poll with
            | .ready 0 => exact Or.inl (.drain rfl)
            | .ready (_ + 1) | .pending | .failed => exact Or.inr rfl
        | read =>
            match poll with
            | .ready 0 | .ready (_ + 1) | .pending | .failed => exact Or.inr rfl
    | streamDropped reader isStreaming =>
        cases isStreaming
        cases handled with
        | reading => exact Or.inl (.disconnect rfl)
        | read => exact Or.inl (.respond rfl)
    | exit isRunning => exact Or.inl (.exit isRunning)
  · cases reaps with
    | reapFirst isWatching hasExited =>
        cases isWatching
        exact Or.inl (.reapFirst rfl hasExited)
    | notExited isWatching =>
        cases isWatching
        exact Or.inr rfl
    | notServed isAsking | clientGone isAsking =>
        cases isAsking
        exact Or.inr rfl
    | noted isAsking isSent =>
        cases isAsking
        exact Or.inl (.noted rfl isSent)
    | killGroup isKilling | startKill isKilling =>
        cases isKilling
        cases watched
        exact Or.inl (.kill rfl rfl)
    | reap isWaiting hasExited =>
        cases isWaiting
        exact Or.inl (.reap rfl hasExited)

/-! ## The main result -/

section Main

variable {state : State}

/-- An upload-pack is signalled only if its client left early.  Then it is reaped in any case, and
signalled before if it is still running when the reaper looks. -/
theorem pursued (reached : Reachable Starts Step state) : Pursued state := by
  have inv := State.inv_of_reachable reached
  have handled := inv.1
  have watched := inv.2
  refine ⟨fun signalled => handled.closed_iff.mp (watched.closed_of_signals signalled), ?_,
    handled.recorded_eq, ?_, ?_⟩
  · intro ended
    by_contra signalled
    have closed := watched.closed_of_signals signalled
    rw [handled.sent_iff.mpr ended] at closed
    cases closed
  · intro leftEarly running later run isDone
    rcases inv.chases (handled.closed_iff.mpr leftEarly) running run with ⟨_, _, chases⟩
    rcases chases with signalled | isKilling | isAsking | ⟨isWatching, _⟩ | unseen
    · exact Or.inl signalled
    · cases isDone.symm.trans isKilling
    · cases isDone.symm.trans isAsking
    · cases isDone.symm.trans isWatching
    · exact Or.inr unseen
  · intro leftEarly
    have closed := handled.closed_iff.mpr leftEarly
    exact ⟨fun _ taken => State.ahead_lt_of_reaps closed taken, watched.goes_on closed⟩

/-! A client leaves in the middle of the pack, and the closed pipe ends the child before the reaper
looks. -/

def running : State := ⟨.streaming ⟨true, true⟩, .running, .watching, .open, [], 0, false⟩

def left : State := ⟨.dropped, .running, .watching, .closed, [], 1, false⟩

theorem reachable_left : Reachable Starts Step left := by
  have started : Reachable Starts Step ⟨.writing, .running, .watching, .open, [], 0, false⟩ :=
    .start rfl
  have streaming : Reachable Starts Step running := started.next (Or.inl (.written rfl))
  exact streaming.next (Or.inl (.streamDropped ⟨true, true⟩ rfl))

theorem pursued_left : Pursued left := pursued reachable_left

theorem exit_before_look : ∃ state later, Reachable Starts Step state ∧ state.LeftEarly ∧
    state.child = .running ∧ Reachable (· = state) Step later ∧ later.reaper = .done ∧
    later.child = .reaped ∧ later.signals = [] := by
  have here : Reachable (· = left) Step left := .start rfl
  have exited : Reachable (· = left) Step { left with child := .exited } :=
    here.next (Or.inl (.exit rfl))
  have reaped : Reachable (· = left) Step { left with child := .reaped, reaper := .done } :=
    exited.next (Or.inr (.reapFirst rfl rfl))
  exact ⟨left, _, reachable_left, ⟨Or.inr rfl, rfl⟩, rfl, reaped, rfl, rfl, rfl⟩

end Main

end GitCacheProxy.Serve.Upload
