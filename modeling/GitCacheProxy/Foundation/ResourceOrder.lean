import Mathlib.Algebra.Order.BigOperators.Group.Finset
import Mathlib.Data.Finset.Max
import GitCacheProxy.Foundation.TransitionSystem

/-!
# Resources taken in order

Tasks share resources of limited capacity, and each task may wait for one while it holds others.
As long as the one that it waits for ranks above all that it holds, the tasks cannot wait for each
other in a circle: of those that wait, the one whose resource ranks highest waits for a task that
can go on.  With a bound on what every task has left to do, every run ends with all of them over
(`inevitable_over`), without any assumption on the order in which they take turns.
-/

namespace ResourceOrder

open TransitionSystem

universe u v w

/-- A kind of task that takes its resources in order. -/
structure Discipline (Resource : Type u) (Local : Type v) where
  holds : Local → Resource → Prop
  moves : Local → Local → Prop
  isOver : Local → Prop
  rank : Resource → ℕ
  /-- a bound on the moves that are left -/
  left : Local → ℕ
  descends : ∀ now later, moves now later → left later < left now
  stays : ∀ now later, isOver now → ¬moves now later
  empty : ∀ now resource, isOver now → ¬holds now resource
  /-- whoever is not over can go on, with one more resource at most -/
  goesOn : ∀ now, ¬isOver now → ∃ later, moves now later ∧ ∃ wanted : Option Resource,
    (∀ resource, holds later resource → holds now resource ∨ wanted = some resource) ∧
      ∀ want ∈ wanted, ∀ resource, holds now resource → rank resource < rank want

variable {Resource : Type u} {Local : Type v} {Task : Type w}

namespace Discipline

variable (discipline : Discipline Resource Local) (capacity : Resource → Option ℕ)

/-- Fewer tasks than it has room for hold a resource; one without a capacity has room for all. -/
def HasRoom (tasks : Task → Local) (resource : Resource) : Prop :=
  ∀ limit ∈ capacity resource, ∃ holders : Finset Task,
    (∀ task, discipline.holds (tasks task) resource → task ∈ holders) ∧ holders.card < limit

/-- One task moves, and there is room for it at every resource that is new to it. -/
inductive Step [DecidableEq Task] (tasks : Task → Local) : (Task → Local) → Prop where
  | move (task : Task) (later : Local) (taken : discipline.moves (tasks task) later)
      (room : ∀ resource, discipline.holds later resource →
        ¬discipline.holds (tasks task) resource → discipline.HasRoom capacity tasks resource) :
      Step tasks (Function.update tasks task later)

/-- No resource has more holders than it has room for. -/
def Within (tasks : Task → Local) : Prop :=
  ∀ resource, ∀ limit ∈ capacity resource, ∀ holders : Finset Task,
    (∀ task ∈ holders, discipline.holds (tasks task) resource) → holders.card ≤ limit

variable {discipline} {capacity} {tasks tasks' : Task → Local}

theorem within_of_empty (empty : ∀ task resource, ¬discipline.holds (tasks task) resource) :
    discipline.Within capacity tasks := by
  intro resource limit _ holders holding
  have nobody : holders = ∅ := by
    apply Finset.eq_empty_of_forall_notMem
    intro task taskMem
    exact empty task resource (holding task taskMem)
  simp [nobody]

variable [DecidableEq Task]

theorem Within.step (within : discipline.Within capacity tasks)
    (taken : discipline.Step capacity tasks tasks') : discipline.Within capacity tasks' := by
  cases taken with
  | move task later taken room =>
      intro resource limit isLimit holders holding
      by_cases new : discipline.holds later resource ∧ ¬discipline.holds (tasks task) resource
      · rcases room resource new.1 new.2 limit isLimit with ⟨before, complete, few⟩
        have known : holders ⊆ insert task before := by
          intro other otherMem
          by_cases isTask : other = task
          · exact Finset.mem_insert.mpr (Or.inl isTask)
          · have holds := holding other otherMem
            rw [Function.update_of_ne isTask] at holds
            exact Finset.mem_insert_of_mem (complete other holds)
        have count := (Finset.card_le_card known).trans (Finset.card_insert_le task before)
        omega
      · apply within resource limit isLimit
        intro other otherMem
        have holds := holding other otherMem
        by_cases isTask : other = task
        · subst isTask
          rw [Function.update_self] at holds
          by_contra free
          exact new ⟨holds, free⟩
        · rwa [Function.update_of_ne isTask] at holds

/-- Every task that is not over is one of these. -/
def Idle (discipline : Discipline Resource Local) (busy : Finset Task) (tasks : Task → Local) :
    Prop :=
  ∀ task, task ∉ busy → discipline.isOver (tasks task)

variable {busy : Finset Task}

theorem Idle.step (idle : discipline.Idle busy tasks)
    (taken : discipline.Step capacity tasks tasks') :
    discipline.Idle busy tasks' ∧
      ∑ task ∈ busy, discipline.left (tasks' task) <
        ∑ task ∈ busy, discipline.left (tasks task) := by
  cases taken with
  | move task later taken room =>
      have isBusy : task ∈ busy := by
        by_contra notBusy
        exact discipline.stays _ _ (idle task notBusy) taken
      constructor
      · intro other notBusy
        have other' : other ≠ task := by
          rintro rfl
          exact notBusy isBusy
        rw [Function.update_of_ne other']
        exact idle other notBusy
      · apply Finset.sum_lt_sum
        · intro other _
          by_cases isTask : other = task
          · subst isTask
            rw [Function.update_self]
            exact (discipline.descends _ _ taken).le
          · rw [Function.update_of_ne isTask]
        · refine ⟨task, isBusy, ?_⟩
          rw [Function.update_self]
          exact discipline.descends _ _ taken

theorem Idle.acc (idle : discipline.Idle busy tasks) :
    Acc (fun later now => discipline.Step capacity now later) tasks := by
  generalize bound : ∑ task ∈ busy, discipline.left (tasks task) = count
  induction count using Nat.strong_induction_on generalizing tasks with
  | _ count ih =>
      constructor
      intro later taken
      rcases idle.step taken with ⟨stillIdle, fewer⟩
      exact ih _ (bound ▸ fewer) stillIdle rfl

/-- As long as somebody is not over, somebody can move. -/
theorem Idle.exists_step (idle : discipline.Idle busy tasks)
    (room : ∀ resource, capacity resource ≠ some 0) :
    (∀ task, discipline.isOver (tasks task)) ∨
      ∃ later, discipline.Step capacity tasks later := by
  classical
  by_contra stuck
  rw [not_or, not_forall, not_exists] at stuck
  rcases stuck with ⟨⟨first, firstRuns⟩, noStep⟩
  have next (task : Task) : ∃ wanted : Option Resource, ¬discipline.isOver (tasks task) →
      ∃ want ∈ wanted, ¬discipline.HasRoom capacity tasks want ∧
        ∀ resource, discipline.holds (tasks task) resource →
          discipline.rank resource < discipline.rank want := by
    by_cases ended : discipline.isOver (tasks task)
    · exact ⟨none, fun runs => absurd ended runs⟩
    · rcases discipline.goesOn _ ended with ⟨later, taken, wanted, one, above⟩
      refine ⟨wanted, fun _ => ?_⟩
      by_contra enough
      apply noStep _ (.move task later taken _)
      intro resource holds new
      by_contra full
      have wants := (one resource holds).resolve_left new
      exact enough ⟨resource, wants, full, above resource wants⟩
  choose wanted waits using next
  let waiting := busy.filter fun task => ¬discipline.isOver (tasks task)
  have isWaiting {task : Task} (runs : ¬discipline.isOver (tasks task)) : task ∈ waiting :=
    Finset.mem_filter.mpr ⟨by_contra fun notBusy => runs (idle task notBusy), runs⟩
  -- the one that waits for the highest resource waits for one that waits for a higher one
  rcases waiting.exists_max_image (fun task => (wanted task).elim 0 discipline.rank)
    ⟨first, isWaiting firstRuns⟩ with ⟨last, lastMem, highest⟩
  rcases waits last (Finset.mem_filter.mp lastMem).2 with ⟨want, wants, full, _⟩
  simp only [HasRoom, not_forall, not_exists, not_and, not_lt] at full
  rcases full with ⟨limit, isLimit, many⟩
  have holders := many (waiting.filter fun task => discipline.holds (tasks task) want) (by
    intro task holds
    have runs : ¬discipline.isOver (tasks task) := fun ended => discipline.empty _ _ ended holds
    exact Finset.mem_filter.mpr ⟨isWaiting runs, holds⟩)
  have positive : 0 < limit := by
    rw [Nat.pos_iff_ne_zero]
    rintro rfl
    exact room want isLimit
  rcases Finset.card_pos.mp (positive.trans_le holders) with ⟨holder, holderMem⟩
  rw [Finset.mem_filter] at holderMem
  rcases waits holder (Finset.mem_filter.mp holderMem.1).2 with ⟨higher, wantsHigher, _, above⟩
  have notHigher := highest holder holderMem.1
  rw [Option.mem_def.mp wants, Option.mem_def.mp wantsHigher] at notHigher
  exact absurd (above want holderMem.2) (Nat.not_lt.mpr notHigher)

/-- Every run ends with all tasks over. -/
theorem Idle.inevitable_over (idle : discipline.Idle busy tasks)
    (room : ∀ resource, capacity resource ≠ some 0) :
    Inevitable (discipline.Step capacity)
      (fun tasks => ∀ task, discipline.isOver (tasks task)) tasks :=
  .of_acc idle.acc idle (fun _ _ idle taken => (idle.step taken).1)
    fun _ idle => idle.exists_step room

end Discipline

end ResourceOrder
