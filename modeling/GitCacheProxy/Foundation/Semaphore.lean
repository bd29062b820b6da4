import Mathlib.Data.Finset.Card
import Mathlib.Logic.Function.Basic

/-!
# Counting semaphores

A semaphore hands out a fixed number of permits.  Each one is either available
or held by one task, and which tasks hold one can be read off their local
states; there may be infinitely many tasks.  Acquiring, releasing and working
with a permit keep the count (`Balanced.acquire`, `Balanced.release`,
`Balanced.frame`), and the count bounds how many tasks can hold one.
-/

namespace Semaphore

universe u v

variable {Task : Type u} {Local : Type v}

/-- The permits are those available and one for each task that holds one. -/
def Balanced (holds : Local → Bool) (permits available : ℕ) (tasks : Task → Local) : Prop :=
  ∃ holders : Finset Task, (∀ task, task ∈ holders ↔ holds (tasks task) = true) ∧
    available + holders.card = permits

variable {holds : Local → Bool} {permits available : ℕ} {tasks : Task → Local}

/-- No more tasks hold a permit than there are permits. -/
theorem Balanced.card_le (balanced : Balanced holds permits available tasks)
    {busy : Finset Task} (hold : ∀ task ∈ busy, holds (tasks task) = true) :
    busy.card ≤ permits := by
  rcases balanced with ⟨holders, isHolder, count⟩
  have few : busy.card ≤ holders.card := by
    apply Finset.card_le_card
    intro task taskMem
    exact (isHolder task).mpr (hold task taskMem)
  omega

/-- When nobody holds a permit, all are available. -/
theorem Balanced.all_available (balanced : Balanced holds permits available tasks)
    (nobody : ∀ task, holds (tasks task) = false) : available = permits := by
  rcases balanced with ⟨holders, isHolder, count⟩
  have none : holders = ∅ := by
    apply Finset.eq_empty_of_forall_notMem
    intro task taskMem
    have held := (isHolder task).mp taskMem
    rw [nobody task] at held
    cases held
  rw [none, Finset.card_empty] at count
  omega

theorem balanced_initial (nobody : ∀ task, holds (tasks task) = false) :
    Balanced holds permits permits tasks := by
  refine ⟨∅, ?_, rfl⟩
  intro task
  simp [nobody task]

variable [DecidableEq Task] {task : Task} {local' : Local}

theorem Balanced.frame (balanced : Balanced holds permits available tasks)
    (same : holds local' = holds (tasks task)) :
    Balanced holds permits available (Function.update tasks task local') := by
  rcases balanced with ⟨holders, isHolder, count⟩
  refine ⟨holders, ?_, count⟩
  intro other
  by_cases isTask : other = task
  · subst other
    rw [Function.update_self, same]
    exact isHolder task
  · rw [Function.update_of_ne isTask]
    exact isHolder other

theorem Balanced.acquire (balanced : Balanced holds permits (available + 1) tasks)
    (free : holds (tasks task) = false) (held : holds local' = true) :
    Balanced holds permits available (Function.update tasks task local') := by
  rcases balanced with ⟨holders, isHolder, count⟩
  have new : task ∉ holders := by
    intro taskMem
    rw [(isHolder task).mp taskMem] at free
    cases free
  refine ⟨insert task holders, ?_, ?_⟩
  · intro other
    rw [Finset.mem_insert]
    by_cases isTask : other = task
    · subst other
      simp [held]
    · rw [Function.update_of_ne isTask, isHolder other]
      simp [isTask]
  · rw [Finset.card_insert_of_notMem new]
    omega

theorem Balanced.release (balanced : Balanced holds permits available tasks)
    (held : holds (tasks task) = true) (free : holds local' = false) :
    Balanced holds permits (available + 1) (Function.update tasks task local') := by
  rcases balanced with ⟨holders, isHolder, count⟩
  have taskMem := (isHolder task).mpr held
  refine ⟨holders.erase task, ?_, ?_⟩
  · intro other
    rw [Finset.mem_erase]
    by_cases isTask : other = task
    · subst other
      simp [free]
    · rw [Function.update_of_ne isTask, isHolder other]
      simp [isTask]
  · have one := Finset.card_erase_add_one taskMem
    omega

/-- As long as whoever holds a permit can give it back, all permits can be had back. -/
theorem Balanced.recover (balanced : Balanced holds permits available tasks)
    {good : ℕ → (Task → Local) → Prop} (isGood : good available tasks)
    (givesBack : ∀ available tasks task, good available tasks → holds (tasks task) = true →
      ∃ local', holds local' = false ∧ good (available + 1) (Function.update tasks task local')) :
    ∃ tasks', good permits tasks' := by
  rcases Nat.le.dest (show available ≤ permits by
    rcases balanced with ⟨holders, _, count⟩
    omega) with ⟨lent, count⟩
  -- one permit comes back at a time
  induction lent generalizing available tasks with
  | zero =>
      rw [← count]
      exact ⟨tasks, isGood⟩
  | succ lent ih =>
      have someone : ∃ task, holds (tasks task) = true := by
        by_contra nobody
        have all := balanced.all_available fun task => by
          simpa using not_exists.mp nobody task
        omega
      rcases someone with ⟨task, held⟩
      rcases givesBack available tasks task isGood held with ⟨local', free, isGood'⟩
      exact ih (balanced.release held free) isGood' (by omega)

end Semaphore
