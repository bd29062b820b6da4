import Mathlib.Data.List.DropRight

/-!
# The end of a stream

A stream arrives in pieces, and of what has arrived only the last elements are retained.  What is
retained in the end does not depend on the pieces (`foldl_retain`).
-/

namespace Retained

universe u

variable {α : Type u} {limit : ℕ} {items : List α}

theorem rtake_suffix (limit : ℕ) (items : List α) : items.rtake limit <:+ items :=
  List.drop_suffix _ _

theorem length_rtake (limit : ℕ) (items : List α) :
    (items.rtake limit).length = min items.length limit := by
  rw [List.rtake, List.length_drop]
  omega

theorem rtake_of_length_le (short : items.length ≤ limit) : items.rtake limit = items := by
  rw [List.rtake, Nat.sub_eq_zero_of_le short, List.drop_zero]

/-- A suffix is determined by its length. -/
theorem eq_rtake_of_suffix {ending : List α} (suffix : ending <:+ items)
    (length : ending.length = min items.length limit) : ending = items.rtake limit := by
  have same : ending.length = (items.rtake limit).length := by rw [length, length_rtake]
  have inside : ending <:+ items.rtake limit :=
    List.suffix_of_suffix_length_le suffix (rtake_suffix limit items) (Nat.le_of_eq same)
  exact inside.eq_of_length same

/-- What was given up is not missed later. -/
theorem rtake_append_rtake (limit : ℕ) (first second : List α) :
    (first.rtake limit ++ second).rtake limit = (first ++ second).rtake limit := by
  apply eq_rtake_of_suffix
  · have inside : first.rtake limit ++ second <:+ first ++ second := by
      rcases rtake_suffix limit first with ⟨given, split⟩
      exact ⟨given, by rw [← List.append_assoc, split]⟩
    exact (rtake_suffix _ _).trans inside
  · simp only [length_rtake, List.length_append]
    omega

/-- Add a piece to what is retained. -/
def retain (limit : ℕ) (kept piece : List α) : List α := (kept ++ piece).rtake limit

/-- The pieces of a stream do not matter. -/
theorem foldl_retain (limit : ℕ) (seen : List α) (pieces : List (List α)) :
    pieces.foldl (retain limit) (seen.rtake limit) = (seen ++ pieces.flatten).rtake limit := by
  induction pieces generalizing seen with
  | nil => simp
  | cons piece pieces ih =>
      rw [List.foldl_cons, retain, rtake_append_rtake, ih, List.flatten_cons, List.append_assoc]

end Retained
