import Mathlib.Data.Prod.Lex
import GitCacheProxy.Index.Wakeup

/-!
# Shutting down

On a signal `main` lets the server drain, tells the background task to stop and waits for it.  The
task looks at the shutdown channel only in its `select!`, before anything else that is ready there:
a pass in progress is finished, with every victim that it has chosen.

The machine of this file is that of `Index.Step` with `main` beside it.  The requests in flight
make the calls, and `left` bounds how many more; that the requests themselves come to an end is the
subject of `Serve.Progress`.
-/

namespace GitCacheProxy.Index.Shutdown

open TransitionSystem

/-- Where `main` is. -/
inductive Main where
  | serving
  /-- a signal has come, and the server takes no more requests -/
  | draining
  /-- `shutdown` has been sent, and the task is awaited -/
  | stopping
  | finished
  deriving DecidableEq

structure Process where
  state : State
  main : Main
  inFlight : ℕ
  /-- the calls that the requests in flight may still make -/
  left : ℕ
  /-- the ticks of the interval until the server has drained -/
  ticks : ℕ
  /-- the victims of all passes -/
  chosen : List Text
  /-- those whose eviction is over -/
  evicted : List Text

/-- The names that the task has yet to evict. -/
def victims : Pc → List Text
  | .evicting victims => victims
  | _ => []

/-- The calls that requests make, all but `notify_one`. -/
def isCall : Event → Bool
  | .touch _ | .markChanged _ | .recordBlob _ _ => true
  | .notify | .task | .tick => false

inductive Step (absent : Text → Prop) (now : Process) : Process → Prop where
  | arrive (calls : ℕ) (serving : now.main = .serving) :
      Step absent now { now with inFlight := now.inFlight + 1, left := now.left + calls }
  | call {event : Event} {state : State} (isCall : isCall event = true)
      (caller : now.state.pending < now.inFlight) (more : 0 < now.left)
      (taken : Index.Step absent now.state event state) :
      Step absent now { now with state := state, left := now.left - 1 }
  | notify {state : State} (taken : Index.Step absent now.state .notify state) :
      Step absent now { now with state := state }
  | finish (caller : now.state.pending < now.inFlight) :
      Step absent now { now with inFlight := now.inFlight - 1 }
  | signal (ticks : ℕ) (serving : now.main = .serving) :
      Step absent now { now with main := .draining, ticks := ticks }
  | drained (draining : now.main = .draining) (none : now.inFlight = 0) :
      Step absent now { now with main := .stopping }
  -- `biased`: once `shutdown` has changed, nothing else wakes the task
  | maintain {index : CacheIndex} {pc : Pc} (goesOn : pc ≠ .stopped)
      (biased : now.state.pc = .parked → now.main ≠ .stopping)
      (taken : TaskStep now.state.index now.state.pc index pc) :
      Step absent now { now with
        state := { now.state with index := index, pc := pc }
        chosen := now.chosen ++ victims pc }
  | evicted {name : Text} {rest : List Text} (chosen : now.state.pc = .evicting (name :: rest)) :
      Step absent now { now with
        state := { now.state with pc := .evicting rest }
        evicted := now.evicted ++ [name] }
  | tick (parked : now.state.pc = .parked) (serving : now.main = .serving) :
      Step absent now { now with state := { now.state with pc := now.state.index.snapshot } }
  | lateTick (parked : now.state.pc = .parked) (draining : now.main = .draining)
      (fires : 0 < now.ticks) :
      Step absent now { now with
        state := { now.state with pc := now.state.index.snapshot }
        ticks := now.ticks - 1 }
  | sweep {index : CacheIndex} {pc : Pc}
      (taken : SweepStep absent now.state.index now.state.pc index pc) :
      Step absent now { now with state := { now.state with index := index, pc := pc } }
  | stop (parked : now.state.pc = .parked) (sent : now.main = .stopping) :
      Step absent now { now with state := { now.state with pc := .stopped } }
  | exit (stopped : now.state.pc = .stopped) (sent : now.main = .stopping) :
      Step absent now { now with main := .finished }

/-- The process once the startup scan is done and the server is bound. -/
def Starts (mirrors blobs : List Scanned) (maxBytes : UInt64) (process : Process) : Prop :=
  Index.Starts mirrors blobs maxBytes process.state ∧ process.main = .serving ∧
    process.inFlight = 0 ∧ process.left = 0 ∧ process.chosen = [] ∧ process.evicted = []

/-- The process has come to its end in good order. -/
structure Finished (process : Process) : Prop where
  main : process.main = .finished
  stopped : process.state.pc = .stopped
  idle : process.inFlight = 0
  settled : process.state.pending = 0
  /-- no eviction was cut short -/
  evicted : process.evicted = process.chosen

/-! ## What holds all the time -/

structure Inv (process : Process) : Prop where
  stopped : process.state.pc = .stopped → process.main = .stopping ∨ process.main = .finished
  idle : process.main = .stopping ∨ process.main = .finished → process.inFlight = 0
  finished : process.main = .finished → process.state.pc = .stopped
  pending : process.state.pending ≤ process.inFlight
  chosen : process.chosen = process.evicted ++ victims process.state.pc

variable {absent : Text → Prop} {mirrors blobs : List Scanned} {maxBytes : UInt64}
  {now later : Process}

theorem victims_snapshot (index : CacheIndex) : victims index.snapshot = [] := by
  unfold CacheIndex.snapshot
  split <;> rfl

theorem snapshot_ne_stopped (index : CacheIndex) : index.snapshot ≠ .stopped := by
  unfold CacheIndex.snapshot
  split <;> simp

/-- What a call of a request leaves alone. -/
structure Frame (before after : State) : Prop where
  pc : after.pc = before.pc
  permit : after.index.permit = before.index.permit
  pending : after.pending ≤ before.pending + 1

theorem frame_of_call {event : Event} {before after : State} (called : isCall event = true)
    (taken : Index.Step absent before event after) : Frame before after := by
  cases taken with
  | touch name => exact ⟨rfl, rfl, Nat.le_succ _⟩
  | markChanged name => exact ⟨rfl, rfl, le_rfl⟩
  | recordBlob key size => exact ⟨rfl, rfl, le_rfl⟩
  | notify owed => cases called
  | maintain taken => cases called
  | evicted chosen => cases called
  | tick parked => cases called
  | sweep taken => cases called

/-- The task goes on, and chooses no victims. -/
theorem Inv.goOn (inv : Inv now) {index : CacheIndex} {pc : Pc} {ticks : ℕ}
    (running : now.state.pc ≠ .stopped) (goesOn : pc ≠ .stopped)
    (same : victims pc = victims now.state.pc) :
    Inv { now with state := { now.state with index := index, pc := pc }, ticks := ticks } where
  stopped := fun stopped => absurd stopped goesOn
  idle := inv.idle
  finished := fun finished => absurd (inv.finished finished) running
  pending := inv.pending
  chosen := by rw [same, ← inv.chosen]

theorem victims_of_sweep {index index' : CacheIndex} {pc pc' : Pc}
    (taken : SweepStep absent index pc index' pc') :
    victims pc' = victims pc ∧ pc ≠ .stopped ∧ pc' ≠ .stopped := by
  cases taken with
  | kept name unseen missing => exact ⟨rfl, by simp, by simp⟩
  | missed name unseen missing gone => exact ⟨rfl, by simp, by simp⟩
  | swept missing =>
      split
      · exact ⟨rfl, by simp, by simp⟩
      · exact ⟨rfl, by simp, by simp⟩
  | drop missing => exact ⟨rfl, by simp, by simp⟩

theorem Inv.step (inv : Inv now) (taken : Step absent now later) : Inv later := by
  have serves : now.main = .serving → ¬(now.main = .stopping ∨ now.main = .finished) := by
    intro serving
    simp [serving]
  cases taken with
  | arrive calls serving =>
      refine ⟨inv.stopped, fun ended => absurd ended (serves serving), inv.finished, ?_, inv.chosen⟩
      exact inv.pending.trans (Nat.le_succ _)
  | call called caller more taken =>
      have frame := frame_of_call called taken
      refine ⟨?_, inv.idle, ?_, frame.pending.trans caller, ?_⟩
      · rw [frame.pc]
        exact inv.stopped
      · rw [frame.pc]
        exact inv.finished
      · rw [frame.pc]
        exact inv.chosen
  | notify taken =>
      cases taken with
      | notify owed =>
          exact ⟨inv.stopped, inv.idle, inv.finished, (Nat.sub_le _ _).trans inv.pending,
            inv.chosen⟩
  | finish caller =>
      refine ⟨inv.stopped, fun ended => ?_, inv.finished, Nat.le_sub_one_of_lt caller, inv.chosen⟩
      rw [inv.idle ended] at caller
      exact absurd caller (Nat.not_lt_zero _)
  | signal ticks serving =>
      refine ⟨fun stopped => absurd (inv.stopped stopped) (serves serving), ?_, ?_, inv.pending,
        inv.chosen⟩
      · simp
      · simp
  | drained draining none =>
      exact ⟨fun _ => Or.inl rfl, fun _ => none, by simp, inv.pending, inv.chosen⟩
  | maintain goesOn biased taken =>
      have notFinished : now.main ≠ .finished := by
        intro finished
        have stopped := inv.finished finished
        rw [stopped] at taken
        cases taken
      refine ⟨fun stopped => absurd stopped goesOn, inv.idle,
        fun finished => absurd finished notFinished, inv.pending, ?_⟩
      have none : victims now.state.pc = [] := by
        generalize now.state.pc = pc at taken
        cases taken <;> rfl
      have chosen := inv.chosen
      rw [none, List.append_nil] at chosen
      simp only [chosen]
  | evicted chosen =>
      have notStopped : now.state.pc ≠ .stopped := by simp [chosen]
      refine ⟨by simp, inv.idle, fun finished => absurd (inv.finished finished) notStopped,
        inv.pending, ?_⟩
      have settled := inv.chosen
      rw [chosen] at settled
      simpa [victims] using settled
  | tick parked serving =>
      refine inv.goOn (by simp [parked]) (snapshot_ne_stopped _) ?_
      rw [victims_snapshot, parked]
      rfl
  | lateTick parked draining fires =>
      refine inv.goOn (by simp [parked]) (snapshot_ne_stopped _) ?_
      rw [victims_snapshot, parked]
      rfl
  | sweep taken =>
      rcases victims_of_sweep taken with ⟨same, running, goesOn⟩
      exact inv.goOn running goesOn same
  | stop parked sent =>
      refine ⟨fun _ => Or.inl sent, inv.idle, fun _ => rfl, inv.pending, ?_⟩
      have chosen := inv.chosen
      rwa [parked] at chosen
  | exit stopped sent =>
      exact ⟨fun _ => Or.inr rfl, fun _ => inv.idle (Or.inl sent), fun _ => stopped, inv.pending,
        inv.chosen⟩

/-- The task stops only when it has evicted what it chose. -/
theorem Inv.settled (inv : Inv now) (stopped : now.state.pc = .stopped) :
    now.inFlight = 0 ∧ now.state.pending = 0 ∧ now.evicted = now.chosen := by
  have idle := inv.idle (inv.stopped stopped)
  have pending := inv.pending
  have chosen := inv.chosen
  have none : victims .stopped = [] := rfl
  rw [stopped, none, List.append_nil] at chosen
  exact ⟨idle, by omega, chosen.symm⟩

theorem Inv.ended (inv : Inv now) (finished : now.main = .finished) : Finished now := by
  have stopped := inv.finished finished
  rcases inv.settled stopped with ⟨idle, settled, evicted⟩
  exact ⟨finished, stopped, idle, settled, evicted⟩

theorem inv_of_reached (reached : Reachable (Starts mirrors blobs maxBytes) (Step absent) now) :
    Inv now := by
  apply reached.invariant
  · rintro ⟨state, main, inFlight, left, ticks, chosen, evicted⟩ starts
    rcases starts with ⟨starts, serving, idle, _, none, no⟩
    simp only at starts serving idle none no
    subst starts serving idle none no
    exact ⟨by simp, by simp, by simp, le_rfl, rfl⟩
  · exact fun before after inv taken => inv.step taken

/-! ## The index under a process that shuts down -/

/-- A run of the process is one of the index and its task. -/
theorem index_reached
    (reached : Reachable (Starts mirrors blobs maxBytes) (Step fun _ => True) now) :
    Reached mirrors blobs maxBytes now.state := by
  induction reached with
  | start starts => exact .start starts.1
  | next reached taken ih =>
      cases taken with
      | arrive calls serving => exact ih
      | call called caller more taken => exact ih.step taken
      | notify taken => exact ih.step taken
      | finish caller => exact ih
      | signal ticks serving => exact ih
      | drained draining none => exact ih
      | maintain goesOn biased taken => exact ih.step (.maintain taken)
      | evicted chosen => exact ih.step (.evicted chosen)
      | tick parked serving => exact ih.step (.tick parked)
      | lateTick parked draining fires => exact ih.step (.tick parked)
      | sweep taken => exact ih.step (.sweep taken)
      | stop parked sent =>
          rename_i process
          have stops : TaskStep process.state.index process.state.pc process.state.index
              .stopped := by
            rw [parked]
            exact .shutdown
          exact ih.step (.maintain stops)
      | exit stopped sent => exact ih

/-! ## The way to the end -/

def Main.rank : Main → ℕ
  | .serving => 3
  | .draining => 2
  | .stopping => 1
  | .finished => 0

/-- How far the task is from its `select!`, and from the end of the loop that it is in. -/
def stage : Pc → ℕ × ℕ
  | .statting unseen _ => (7, unseen.length)
  | .dropping _ => (6, 0)
  | .start => (5, 0)
  | .measuring unmeasured _ => (4, unmeasured.length)
  | .sizing measured => (3, measured.length)
  | .picking => (2, 0)
  | .evicting victims => (1, victims.length)
  | .parked => (0, 1)
  | .stopped => (0, 0)

/-- What can wake the task again. -/
def credit (process : Process) : ℕ :=
  3 * process.left + 2 * process.state.pending + process.state.index.permit.toNat +
    process.ticks + process.inFlight

def remaining (process : Process) : ℕ × ℕ × ℕ × ℕ :=
  (process.main.rank, credit process, stage process.state.pc)

/-- Less remains to be done. -/
def Nearer (later now : Process) : Prop :=
  Prod.Lex (· < ·) (Prod.Lex (· < ·) (Prod.Lex (· < ·) (· < ·))) (remaining later) (remaining now)

theorem wellFounded_nearer : WellFounded Nearer :=
  InvImage.wf remaining
    (Nat.lt_wfRel.wf.prod_lex (Nat.lt_wfRel.wf.prod_lex (Nat.lt_wfRel.wf.prod_lex Nat.lt_wfRel.wf)))

theorem nearer_of_main (main : later.main.rank < now.main.rank) : Nearer later now :=
  Prod.Lex.left _ _ main

theorem nearer_of_credit (main : later.main = now.main) (spent : credit later < credit now) :
    Nearer later now := by
  rw [Nearer, remaining, remaining, main]
  exact Prod.Lex.right _ (Prod.Lex.left _ _ spent)

theorem nearer_of_stage (main : later.main = now.main) (unspent : credit later = credit now)
    (closer : Prod.Lex (· < ·) (· < ·) (stage later.state.pc) (stage now.state.pc)) :
    Nearer later now := by
  rw [Nearer, remaining, remaining, main, unspent]
  exact Prod.Lex.right _ (Prod.Lex.right _ closer)

/-- A step of the task spends the permit, or brings it closer to its `select!`. -/
theorem task_closer {index index' : CacheIndex} {pc pc' : Pc}
    (taken : TaskStep index pc index' pc') :
    pc = .parked ∧ index.permit = true ∧ index'.permit = false ∨
      index'.permit = index.permit ∧ Prod.Lex (· < ·) (· < ·) (stage pc') (stage pc) := by
  cases taken with
  | takeDirty order once drained =>
      refine Or.inr ⟨rfl, Prod.Lex.left _ _ ?_⟩
      by_cases clean : order = [] <;> simp [clean]
  | measure name size unmeasured measured =>
      exact Or.inr ⟨rfl, Prod.Lex.right _ (Nat.lt_succ_self _)⟩
  | walked measured => exact Or.inr ⟨rfl, Prod.Lex.left _ _ (Nat.lt_succ_self _)⟩
  | setSize name size measured =>
      refine Or.inr ⟨?_, Prod.Lex.right _ (Nat.lt_succ_self _)⟩
      unfold CacheIndex.setSize
      split <;> rfl
  | sized => exact Or.inr ⟨rfl, Prod.Lex.left _ _ (Nat.lt_succ_self _)⟩
  | takeVictims => exact Or.inr ⟨rfl, Prod.Lex.left _ _ (Nat.lt_succ_self _)⟩
  | park => exact Or.inr ⟨rfl, Prod.Lex.left _ _ (Nat.lt_succ_self _)⟩
  | woken permitted => exact Or.inl ⟨rfl, permitted, rfl⟩
  | shutdown => exact Or.inr ⟨rfl, Prod.Lex.right _ (Nat.lt_succ_self _)⟩

theorem sweep_closer {index index' : CacheIndex} {pc pc' : Pc}
    (taken : SweepStep absent index pc index' pc') :
    index'.permit = index.permit ∧ Prod.Lex (· < ·) (· < ·) (stage pc') (stage pc) := by
  cases taken with
  | kept name unseen missing => exact ⟨rfl, Prod.Lex.right _ (Nat.lt_succ_self _)⟩
  | missed name unseen missing gone => exact ⟨rfl, Prod.Lex.right _ (Nat.lt_succ_self _)⟩
  | swept missing =>
      refine ⟨rfl, Prod.Lex.left _ _ ?_⟩
      by_cases none : missing = [] <;> simp [none]
  | drop missing =>
      refine ⟨?_, Prod.Lex.left _ _ (Nat.lt_succ_self _)⟩
      unfold CacheIndex.dropMissing
      split <;> rfl

/-- Once a signal has come, every step leaves less to do. -/
theorem nearer_of_step (signalled : now.main ≠ .serving) (taken : Step absent now later) :
    later.main ≠ .serving ∧ Nearer later now := by
  cases taken with
  | arrive calls serving => exact absurd serving signalled
  | call called caller more taken =>
      refine ⟨signalled, nearer_of_credit rfl ?_⟩
      have frame := frame_of_call called taken
      have pending := frame.pending
      simp only [credit, frame.permit]
      omega
  | notify taken =>
      cases taken with
      | notify owed =>
          refine ⟨signalled, nearer_of_credit rfl ?_⟩
          simp only [credit, CacheIndex.notifyOne, Bool.toNat_true]
          omega
  | finish caller =>
      refine ⟨signalled, nearer_of_credit rfl ?_⟩
      simp only [credit]
      omega
  | signal ticks serving => exact absurd serving signalled
  | drained draining none =>
      refine ⟨by simp, nearer_of_main ?_⟩
      rw [draining]
      exact Nat.lt_succ_self _
  | maintain goesOn biased taken =>
      refine ⟨signalled, ?_⟩
      rcases task_closer taken with ⟨_, permitted, spent⟩ | ⟨permit, closer⟩
      · refine nearer_of_credit rfl ?_
        simp only [credit, permitted, spent, Bool.toNat_true, Bool.toNat_false]
        omega
      · exact nearer_of_stage rfl (by simp only [credit, permit]) closer
  | evicted chosen =>
      refine ⟨signalled, nearer_of_stage rfl rfl ?_⟩
      rw [chosen]
      exact Prod.Lex.right _ (Nat.lt_succ_self _)
  | tick parked serving => exact absurd serving signalled
  | lateTick parked draining fires =>
      refine ⟨signalled, nearer_of_credit rfl ?_⟩
      simp only [credit]
      omega
  | sweep taken =>
      rcases sweep_closer taken with ⟨permit, closer⟩
      exact ⟨signalled, nearer_of_stage rfl (by simp only [credit, permit]) closer⟩
  | stop parked sent =>
      refine ⟨signalled, nearer_of_stage rfl rfl ?_⟩
      rw [parked]
      exact Prod.Lex.right _ (Nat.lt_succ_self _)
  | exit stopped sent =>
      refine ⟨by simp, nearer_of_main ?_⟩
      rw [sent]
      exact Nat.lt_succ_self _

/-- The task is not stuck anywhere but in its `select!`. -/
theorem exists_task_step (now : Process) : now.state.pc = .parked ∨ now.state.pc = .stopped ∨
    ∃ later, Step absent now later := by
  have maintained : ∀ index pc, now.state.pc ≠ .parked → pc ≠ .stopped →
      TaskStep now.state.index now.state.pc index pc → ∃ later, Step absent now later :=
    fun index pc running goesOn taken =>
      ⟨_, .maintain goesOn (fun parked => absurd parked running) taken⟩
  cases here : now.state.pc with
  | start =>
      rw [here] at maintained
      refine Or.inr (Or.inr (maintained _ _ (by simp) ?_ (.takeDirty
        now.state.index.inner.dirty.toList (Finset.nodup_toList _) (Finset.toList_toFinset _))))
      split <;> simp
  | measuring unmeasured measured =>
      rw [here] at maintained
      cases unmeasured with
      | nil => exact Or.inr (Or.inr (maintained _ _ (by simp) (by simp) (.walked measured)))
      | cons name rest =>
          exact Or.inr (Or.inr (maintained _ _ (by simp) (by simp) (.measure name 0 rest measured)))
  | sizing measured =>
      rw [here] at maintained
      cases measured with
      | nil => exact Or.inr (Or.inr (maintained _ _ (by simp) (by simp) .sized))
      | cons entry rest =>
          exact Or.inr (Or.inr (maintained _ _ (by simp) (by simp) (.setSize entry.1 entry.2 rest)))
  | picking =>
      rw [here] at maintained
      exact Or.inr (Or.inr (maintained _ _ (by simp) (by simp) .takeVictims))
  | evicting victims =>
      rw [here] at maintained
      cases victims with
      | nil => exact Or.inr (Or.inr (maintained _ _ (by simp) (by simp) .park))
      | cons name rest => exact Or.inr (Or.inr ⟨_, .evicted here⟩)
  | parked => exact Or.inl rfl
  | statting unseen missing =>
      have swept : ∀ index pc,
          SweepStep absent now.state.index (.statting unseen missing) index pc →
            ∃ later, Step absent now later := by
        intro index pc taken
        rw [← here] at taken
        exact ⟨_, .sweep taken⟩
      cases unseen with
      | nil => exact Or.inr (Or.inr (swept _ _ (.swept missing)))
      | cons name rest => exact Or.inr (Or.inr (swept _ _ (.kept name rest missing)))
  | dropping missing =>
      have dropped : SweepStep absent now.state.index now.state.pc
          (now.state.index.dropMissing missing) .start := by
        rw [here]
        exact .drop missing
      exact Or.inr (Or.inr ⟨_, .sweep dropped⟩)
  | stopped => exact Or.inr (Or.inl rfl)

/-- A signal has come. -/
structure Ending (process : Process) : Prop where
  inv : Inv process
  signalled : process.main ≠ .serving

theorem Ending.exists_step (ending : Ending now) :
    Finished now ∨ ∃ later, Step absent now later := by
  cases main : now.main with
  | serving => exact absurd main ending.signalled
  | draining =>
      right
      rcases Nat.eq_zero_or_pos now.inFlight with none | some
      · exact ⟨_, .drained main none⟩
      rcases Nat.eq_zero_or_pos now.state.pending with settled | owed
      · exact ⟨_, .finish (by omega)⟩
      · exact ⟨_, .notify (.notify owed)⟩
  | stopping =>
      right
      rcases exists_task_step now with parked | stopped | goesOn
      · exact ⟨_, .stop parked main⟩
      · exact ⟨_, .exit stopped main⟩
      · exact goesOn
  | finished => exact Or.inl (ending.inv.ended main)

/-- From a signal on, the process cannot run for ever. -/
theorem acc_of_signalled (now : Process) (signalled : now.main ≠ .serving) :
    Acc (fun later now => Step absent now later) now := by
  induction now using wellFounded_nearer.induction with
  | _ now ih =>
      refine ⟨now, fun later taken => ?_⟩
      rcases nearer_of_step signalled taken with ⟨still, nearer⟩
      exact ih later nearer still

/-! ## The process ends in good order -/

/-- What is known of a process at any time. -/
structure Graceful (mirrors blobs : List Scanned) (maxBytes : UInt64) (process : Process) :
    Prop where
  /-- `main` does not interfere with the task: its runs are those of `Index.Step` -/
  index : Reached mirrors blobs maxBytes process.state
  /-- the task runs until the server has drained, and chooses no victim that it does not evict -/
  stopped : process.state.pc = .stopped →
    process.inFlight = 0 ∧ process.state.pending = 0 ∧ process.evicted = process.chosen
  /-- `main` does not return before the task is over -/
  finished : process.main = .finished → Finished process
  /-- once a signal has come, `main` returns -/
  ends : process.main ≠ .serving → Inevitable (Step fun _ => True) Finished process

end GitCacheProxy.Index.Shutdown
