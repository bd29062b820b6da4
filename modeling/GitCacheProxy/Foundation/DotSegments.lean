import Mathlib.Data.List.Infix

/-!
# Removing dot segments

A path is a list of segments.  One segment stands for the directory that is
reached so far and one for the directory above it.  `remove` is what is left of
a path once both are carried out; a special segment at the end leaves a blank
one behind.
-/

namespace DotSegments

universe u

/-- The special segments, and the empty one. -/
structure Dots (α : Type u) where
  here : α
  up : α
  blank : α

variable {α : Type u} [DecidableEq α] (dots : Dots α)

namespace Dots

/-- The path reached after one more segment. -/
def step (out : List α) (segment : α) : List α :=
  if segment = dots.here then out
  else if segment = dots.up then out.dropLast
  else out ++ [segment]

/-- The directory that a path leads to. -/
def walk (segments : List α) : List α := segments.foldl dots.step []

def remove (segments : List α) : List α :=
  match segments.getLast? with
  | none => []
  | some last =>
      if last = dots.here ∨ last = dots.up then dots.walk segments ++ [dots.blank]
      else dots.walk segments

def Ordinary (segment : α) : Prop := segment ≠ dots.here ∧ segment ≠ dots.up

section Ordinary

variable {dots} {base rest out : List α}

theorem foldl_step_of_ordinary (ordinary : ∀ segment ∈ rest, dots.Ordinary segment) :
    rest.foldl dots.step out = out ++ rest := by
  induction rest generalizing out with
  | nil => simp
  | cons segment rest ih =>
      rw [List.forall_mem_cons] at ordinary
      rw [List.foldl_cons, step, if_neg ordinary.1.1, if_neg ordinary.1.2, ih ordinary.2,
        List.append_assoc, List.singleton_append]

theorem walk_append_of_ordinary (ordinary : ∀ segment ∈ rest, dots.Ordinary segment) :
    dots.walk (base ++ rest) = dots.walk base ++ rest := by
  rw [walk, List.foldl_append, foldl_step_of_ordinary ordinary, ← walk]

/-- Ordinary segments lead further down, and stay as they are. -/
theorem remove_append_of_ordinary (ordinary : ∀ segment ∈ rest, dots.Ordinary segment)
    (nonempty : rest ≠ []) : dots.remove (base ++ rest) = dots.walk base ++ rest := by
  have lastOrdinary := ordinary _ (List.getLast_mem nonempty)
  have last : (base ++ rest).getLast? = some (rest.getLast nonempty) := by
    rw [List.getLast?_append_of_ne_nil _ nonempty, List.getLast?_eq_getLast_of_ne_nil nonempty]
  simp only [remove, last]
  rw [if_neg (not_or.mpr lastOrdinary), walk_append_of_ordinary ordinary]

end Ordinary

end Dots

end DotSegments
