import Mathlib.Logic.Function.Basic

/-!
# Runs of a transition system

Interleaved programs are modeled as a step relation on a state type.  A run
starts in an initial state and takes steps in any order; a safety property is
an invariant that one step preserves.

What happens in every run sooner or later is `Inevitable`: no run goes on for ever
without it, and none gets stuck before it.

The second half is the bookkeeping that every lock-protected program shares:
a table of owners agrees with what the tasks themselves say they hold, and
acquiring, releasing and working under a lock keep the two in agreement.
-/

namespace TransitionSystem

universe u

variable {State : Type u} {initial : State → Prop} {step : State → State → Prop}

/-- The states that some run reaches. -/
inductive Reachable (initial : State → Prop) (step : State → State → Prop) : State → Prop where
  | start {state : State} (starts : initial state) : Reachable initial step state
  | next {state state' : State} (reached : Reachable initial step state)
      (taken : step state state') : Reachable initial step state'

/-- What holds initially and survives one step holds throughout every run. -/
theorem Reachable.invariant {holds : State → Prop} {state : State}
    (reached : Reachable initial step state)
    (base : ∀ state, initial state → holds state)
    (preserved : ∀ state state', holds state → step state state' → holds state') :
    holds state := by
  induction reached with
  | start starts => exact base _ starts
  | next _ taken ih => exact preserved _ _ ih taken

/-- A run of a restricted system is a run of the unrestricted one. -/
theorem Reachable.mono {step' : State → State → Prop} {state : State}
    (reached : Reachable initial step state)
    (weaker : ∀ state state', step state state' → step' state state') :
    Reachable initial step' state := by
  induction reached with
  | start starts => exact .start starts
  | next _ taken ih => exact .next ih (weaker _ _ taken)

/-- Every run from here comes to a state in which `final` holds. -/
inductive Inevitable (step : State → State → Prop) (final : State → Prop) : State → Prop where
  | now {state : State} (done : final state) : Inevitable step final state
  | later {state : State} (goesOn : ∃ next, step state next)
      (all : ∀ next, step state next → Inevitable step final next) : Inevitable step final state

/-- A run that must end, and does not get stuck before `final`, comes to `final`. -/
theorem Inevitable.of_acc {final holds : State → Prop} {state : State}
    (ends : Acc (fun later now => step now later) state) (here : holds state)
    (preserved : ∀ state state', holds state → step state state' → holds state')
    (goesOn : ∀ state, holds state → final state ∨ ∃ next, step state next) :
    Inevitable step final state := by
  induction ends with
  | intro state _ ih =>
      rcases goesOn state here with done | goesOn
      · exact .now done
      · exact .later goesOn fun next taken => ih next taken (preserved _ _ here taken)

theorem Reachable.cut {state : State} (_reached : Reachable initial step state) :
    Reachable (· = state) step state := .start rfl

end TransitionSystem

namespace LockTable

universe u v w

variable {Key : Type u} {Task : Type v} {Local : Type w}

/-- The owner recorded for every lock is the one task whose local state holds it. -/
def Consistent (held : Local → Option Key) (owner : Key → Option Task)
    (tasks : Task → Local) : Prop :=
  ∀ task key, held (tasks task) = some key ↔ owner key = some task

variable {held : Local → Option Key} {owner : Key → Option Task} {tasks : Task → Local}

/-- Two tasks holding the same lock are the same task. -/
theorem Consistent.unique (consistent : Consistent held owner tasks) {first second : Task}
    {key : Key} (firstHolds : held (tasks first) = some key)
    (secondHolds : held (tasks second) = some key) : first = second := by
  have firstOwns := (consistent first key).mp firstHolds
  have secondOwns := (consistent second key).mp secondHolds
  rw [firstOwns] at secondOwns
  exact Option.some.inj secondOwns

variable [DecidableEq Task]

/-- A task that keeps what it holds leaves the table consistent. -/
theorem Consistent.frame (consistent : Consistent held owner tasks) {task : Task}
    {local' : Local} (same : held local' = held (tasks task)) :
    Consistent held owner (Function.update tasks task local') := by
  intro other key
  by_cases isTask : other = task
  · subst other
    rw [Function.update_self, same]
    exact consistent task key
  · rw [Function.update_of_ne isTask]
    exact consistent other key

variable [DecidableEq Key]

theorem Consistent.acquire (consistent : Consistent held owner tasks) {task : Task}
    {key : Key} {local' : Local} (free : owner key = none)
    (empty : held (tasks task) = none) (taken : held local' = some key) :
    Consistent held (Function.update owner key (some task))
      (Function.update tasks task local') := by
  intro other otherKey
  have unowned : held (tasks other) ≠ some key := by
    intro holds
    rw [(consistent other key).mp holds] at free
    cases free
  by_cases isTask : other = task
  · subst other
    have notOwner : owner otherKey ≠ some task := by
      intro owns
      rw [(consistent task otherKey).mpr owns] at empty
      cases empty
    rw [Function.update_self, taken]
    by_cases isKey : otherKey = key
    · subst isKey
      simp
    · rw [Function.update_of_ne isKey]
      simp [notOwner, Ne.symm isKey]
  · rw [Function.update_of_ne isTask]
    by_cases isKey : otherKey = key
    · subst isKey
      simp [unowned, Ne.symm isTask]
    · rw [Function.update_of_ne isKey]
      exact consistent other otherKey

theorem Consistent.release (consistent : Consistent held owner tasks) {task : Task}
    {key : Key} {local' : Local} (holds : held (tasks task) = some key)
    (dropped : held local' = none) :
    Consistent held (Function.update owner key none)
      (Function.update tasks task local') := by
  intro other otherKey
  by_cases isTask : other = task
  · subst other
    rw [Function.update_self, dropped]
    by_cases isKey : otherKey = key
    · subst isKey
      simp
    · have notOwner : owner otherKey ≠ some task := by
        intro owns
        have both := (consistent task otherKey).mpr owns
        rw [holds] at both
        exact isKey (Option.some.inj both).symm
      rw [Function.update_of_ne isKey]
      simp [notOwner]
  · rw [Function.update_of_ne isTask]
    by_cases isKey : otherKey = key
    · subst isKey
      have unowned : held (tasks other) ≠ some otherKey :=
        fun otherHolds => isTask (consistent.unique otherHolds holds)
      simp [unowned]
    · rw [Function.update_of_ne isKey]
      exact consistent other otherKey

end LockTable
