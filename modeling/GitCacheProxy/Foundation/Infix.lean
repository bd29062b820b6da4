import Mathlib.Data.List.Infix

/-!
# Where a pattern can occur

A pattern that occurs in a list put together from parts occurs in one of the parts, unless it
runs across a seam.  It cannot run across an element that it does not contain.

The same for a property of pieces: if it holds of a piece as soon as it holds of what comes
after a certain element, the pieces before and after this element are tested apart.
-/

namespace Infix

universe u

variable {α : Type u} {pattern first second : List α} {a : α}

/-- A pattern at the end cannot reach beyond an element that it does not contain. -/
theorem suffix_append_cons_iff (foreign : a ∉ pattern) :
    pattern <:+ first ++ a :: second ↔ pattern <:+ second := by
  constructor
  · rintro ⟨before, ended⟩
    rcases List.append_eq_append_iff.mp ended with ⟨gap, _, inside⟩ | ⟨gap, _, found⟩
    · exact absurd (by simp [inside]) foreign
    cases gap with
    | nil =>
        rw [List.nil_append] at found
        exact absurd (found ▸ List.mem_cons_self) foreign
    | cons head gap =>
        rw [List.cons_append, List.cons.injEq] at found
        exact ⟨gap, found.2.symm⟩
  · intro inSecond
    exact (inSecond.trans (List.suffix_cons a second)).trans (List.suffix_append _ _)

/-- A pattern cannot run across an element that it does not contain. -/
theorem infix_append_cons_iff (foreign : a ∉ pattern) :
    pattern <:+: first ++ a :: second ↔ pattern <:+: first ∨ pattern <:+: second := by
  constructor
  · rintro ⟨before, after, occurs⟩
    rcases List.append_eq_append_iff.mp occurs with ⟨rest, ended, split⟩ | ⟨rest, split, ended⟩
    · exact Or.inl ⟨before, rest, ended.symm⟩
    cases rest with
    | nil =>
        rw [List.append_nil] at split
        exact Or.inl ⟨before, [], by rw [List.append_nil, split]⟩
    | cons head rest =>
        rw [List.cons_append, List.cons.injEq] at ended
        rcases ended with ⟨rfl, rfl⟩
        have inside : pattern <:+ rest := (suffix_append_cons_iff foreign).mp ⟨before, split⟩
        exact Or.inr (inside.isInfix.trans (List.prefix_append _ _).isInfix)
  · rintro (inFirst | inSecond)
    · exact inFirst.trans (List.prefix_append _ _).isInfix
    · exact inSecond.trans ((List.suffix_cons a second).trans (List.suffix_append _ _)).isInfix

/-- A pattern that cannot end in `second` does not reach into it. -/
theorem infix_append_iff_of_last (nonempty : pattern ≠ [])
    (noEnd : ∀ a ∈ second, pattern.getLast? ≠ some a) :
    pattern <:+: first ++ second ↔ pattern <:+: first := by
  induction second using List.reverseRecOn with
  | nil => rw [List.append_nil]
  | append_singleton init a ih =>
      have before : ∀ b ∈ init, pattern.getLast? ≠ some b :=
        fun b bMem => noEnd b (List.mem_append_left _ bMem)
      rw [← List.append_assoc, List.infix_concat_iff, ih before]
      constructor
      · rintro (atEnd | inFirst)
        · rcases atEnd with ⟨rest, ended⟩
          have last : pattern.getLast? = some a := by
            have whole := congrArg List.getLast? ended
            rwa [List.getLast?_append_of_ne_nil _ nonempty, List.getLast?_concat] at whole
          exact absurd last (noEnd a (by simp))
        · exact inFirst
      · exact Or.inr

/-- In front of a place where a pattern stands, it occurs only inside of what is before this place,
or across the place if it overlaps with itself.  Here `tail` is the only such overlap. -/
theorem exists_prefix_drop_iff {tail : List α} (isPrefix : tail <+: pattern)
    (shorter : tail.length < pattern.length)
    (overlaps : ∀ k, 0 < k → k < pattern.length → pattern.drop k <+: pattern →
      pattern.drop k = tail) :
    (∃ idx < first.length, pattern <+: (first ++ (pattern ++ second)).drop idx) ↔
      pattern <:+: first ++ tail := by
  constructor
  · rintro ⟨idx, early, occurs⟩
    rw [List.drop_append_of_le_length (Nat.le_of_lt early)] at occurs
    have rest : first.drop idx <:+ first := List.drop_suffix _ _
    rcases Nat.lt_or_ge (first.drop idx).length pattern.length with across | inside
    · rcases List.prefix_of_prefix_length_le (List.prefix_append _ _) occurs
        (Nat.le_of_lt across) with ⟨beyond, whole⟩
      have positive : 0 < (first.drop idx).length := by
        rw [List.length_drop]
        omega
      have beyondIs : beyond = pattern.drop (first.drop idx).length := by
        rw [← whole, List.drop_left]
      have overlap : beyond <+: pattern := by
        rw [← whole, List.prefix_append_right_inj, whole] at occurs
        apply List.prefix_of_prefix_length_le occurs (List.prefix_append _ _)
        rw [beyondIs, List.length_drop]
        omega
      rw [beyondIs] at overlap
      have overTail := overlaps _ positive across overlap
      rw [← whole, beyondIs, overTail]
      rcases rest with ⟨before, split⟩
      exact ⟨before, [], by rw [List.append_nil, ← List.append_assoc, split]⟩
    · have inFirst : pattern <+: first.drop idx :=
        List.prefix_of_prefix_length_le occurs (List.prefix_append _ _) inside
      exact (inFirst.isInfix.trans rest.isInfix).trans (List.prefix_append _ _).isInfix
  · rintro ⟨before, after, occurs⟩
    have lengths := congrArg List.length occurs
    simp only [List.length_append] at lengths
    refine ⟨before.length, by omega, ?_⟩
    rcases isPrefix with ⟨more, rfl⟩
    refine ⟨after ++ (more ++ second), ?_⟩
    rw [← List.append_assoc first, ← List.append_assoc first, ← occurs]
    simp

section Pieces

variable [BEq α] [LawfulBEq α] {separator : α} {p : List α → Bool}

omit [BEq α] [LawfulBEq α] in
theorem modifyHead_nil_append (pieces : List (List α)) :
    pieces.modifyHead ([] ++ ·) = pieces := by
  cases pieces with
  | nil => rfl
  | cons head tail => rfl

theorem any_modifyHead_splitOn (different : a ≠ separator)
    (blind : ∀ x y, p (x ++ a :: y) = p y) (first second begun : List α) :
    (((first ++ a :: second).splitOn separator).modifyHead (begun ++ ·)).any p =
      ((((first.splitOn separator).modifyHead (begun ++ ·)).dropLast).any p ||
        (second.splitOn separator).any p) := by
  induction first generalizing begun with
  | nil =>
      have other : (a == separator) = false := beq_eq_false_iff_ne.mpr different
      rw [List.nil_append, List.splitOn_cons_eq_if_modifyHead, other, List.splitOn_nil]
      cases pieces : second.splitOn separator with
      | nil => exact absurd pieces (List.splitOn_ne_nil _ _)
      | cons head tail => simp [blind]
  | cons b first ih =>
      rw [List.cons_append, List.splitOn_cons_eq_if_modifyHead, List.splitOn_cons_eq_if_modifyHead]
      cases b == separator with
      | true =>
          have rest := ih []
          rw [modifyHead_nil_append, modifyHead_nil_append] at rest
          simp only [if_true, List.modifyHead_cons, List.append_nil, List.any_cons, rest]
          rw [List.dropLast_cons_of_ne_nil (List.splitOn_ne_nil _ _), List.any_cons, Bool.or_assoc]
      | false =>
          have joined : (fun piece : List α => begun ++ piece) ∘ (List.cons b) =
              fun piece => (begun ++ [b]) ++ piece := by
            funext piece
            simp
          simp only [Bool.false_eq_true, if_false, List.modifyHead_modifyHead, joined]
          exact ih (begun ++ [b])

/-- The pieces of a list with an element that makes the property blind to what is before it. -/
theorem any_splitOn_append_cons (different : a ≠ separator)
    (blind : ∀ x y, p (x ++ a :: y) = p y) (first second : List α) :
    ((first ++ a :: second).splitOn separator).any p =
      ((first.splitOn separator).dropLast.any p || (second.splitOn separator).any p) := by
  have whole := any_modifyHead_splitOn different blind first second []
  rwa [modifyHead_nil_append, modifyHead_nil_append] at whole

end Pieces

end Infix
