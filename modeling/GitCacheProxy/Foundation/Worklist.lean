import Mathlib.Data.Finset.Card
import Mathlib.Data.List.Infix

/-!
# Walking a tree with a stack

A loop pops a path off a stack and pushes its children, until the stack is
empty.  `expand` says which children are pushed, the one to be popped first in
front.  The walk pops every path that can be reached exactly once
(`nodup_visit`, `mem_visit_iff`), and it comes to an end after at most as many
rounds as there are such paths (`exists_visit`).
-/

namespace Worklist

universe u

variable {κ : Type u}

/-- The paths that are popped, in that order; `fuel` bounds the number of rounds. -/
def visit (expand : List κ → List (List κ)) : ℕ → List (List κ) → Option (List (List κ))
  | _, [] => some []
  | 0, _ :: _ => none
  | fuel + 1, path :: stack => (visit expand fuel (expand path ++ stack)).map (path :: ·)

/-- The walk gets from one path to another. -/
inductive Reaches (expand : List κ → List (List κ)) : List κ → List κ → Prop where
  | here (path : List κ) : Reaches expand path path
  | deeper {path next target : List κ} (pushed : next ∈ expand path)
      (later : Reaches expand next target) : Reaches expand path target

/-- Only children are pushed, and none of them twice. -/
structure Descends (expand : List κ → List (List κ)) : Prop where
  nodup : ∀ path, (expand path).Nodup
  child : ∀ path, ∀ next ∈ expand path, ∃ name, next = path ++ [name]

/-- Neither path is at or above the other. -/
def Apart (first second : List κ) : Prop := ¬first <+: second ∧ ¬second <+: first

variable {expand : List κ → List (List κ)} {path target : List κ}

theorem reaches_iff : Reaches expand path target ↔
    target = path ∨ ∃ next ∈ expand path, Reaches expand next target := by
  constructor
  · intro reaches
    cases reaches with
    | here => exact Or.inl rfl
    | deeper pushed later => exact Or.inr ⟨_, pushed, later⟩
  · rintro (rfl | ⟨next, pushed, later⟩)
    · exact .here _
    · exact .deeper pushed later

theorem Reaches.above (reaches : Reaches expand path target) (descends : Descends expand) :
    path <+: target := by
  induction reaches with
  | here path => exact List.prefix_refl path
  | deeper pushed later ih =>
      rcases descends.child _ _ pushed with ⟨name, rfl⟩
      exact (List.prefix_append _ _).trans ih

theorem not_child_above {name : κ} : ¬path ++ [name] <+: path := by
  intro above
  have shorter := above.length_le
  rw [List.length_append, List.length_singleton] at shorter
  omega

/-- What is pushed stays apart from what is on the stack. -/
theorem pairwise_apart_expand (descends : Descends expand) {stack : List (List κ)}
    (apart : (path :: stack).Pairwise Apart) : (expand path ++ stack).Pairwise Apart := by
  rw [List.pairwise_cons] at apart
  rw [List.pairwise_append]
  refine ⟨?_, apart.2, ?_⟩
  · apply (descends.nodup path).imp_of_mem
    intro first second firstMem secondMem different
    rcases descends.child _ _ firstMem with ⟨name, rfl⟩
    rcases descends.child _ _ secondMem with ⟨other, rfl⟩
    constructor
    · exact fun above => different (above.eq_of_length (by simp))
    · exact fun above => different (above.eq_of_length (by simp)).symm
  · intro next nextMem other otherMem
    rcases descends.child _ _ nextMem with ⟨name, rfl⟩
    have notPath := apart.1 other otherMem
    constructor
    · exact fun above => notPath.1 ((List.prefix_append _ _).trans above)
    · intro above
      rcases List.prefix_concat_iff.mp above with same | short
      · exact notPath.1 (same ▸ List.prefix_append _ _)
      · exact notPath.2 short

/-- A path is popped once only: nothing later leads back to it. -/
theorem not_reaches_popped (descends : Descends expand) {stack : List (List κ)}
    (apart : (path :: stack).Pairwise Apart) {start : List κ}
    (startMem : start ∈ expand path ++ stack) : ¬Reaches expand start path := by
  intro back
  have above := back.above descends
  rcases List.mem_append.mp startMem with pushed | waiting
  · rcases descends.child _ _ pushed with ⟨name, rfl⟩
    exact not_child_above above
  · exact ((List.pairwise_cons.mp apart).1 start waiting).2 above

theorem mem_visit_iff {fuel : ℕ} {stack visited : List (List κ)}
    (done : visit expand fuel stack = some visited) :
    target ∈ visited ↔ ∃ start ∈ stack, Reaches expand start target := by
  induction fuel generalizing stack visited with
  | zero =>
      cases stack with
      | nil =>
          cases done
          simp
      | cons path stack => cases done
  | succ fuel ih =>
      cases stack with
      | nil =>
          cases done
          simp
      | cons path stack =>
          rcases Option.map_eq_some_iff.mp done with ⟨rest, later, rfl⟩
          rw [List.mem_cons, ih later]
          simp only [List.mem_append, List.mem_cons]
          constructor
          · rintro (rfl | ⟨start, pushed | waiting, reaches⟩)
            · exact ⟨target, Or.inl rfl, .here target⟩
            · exact ⟨path, Or.inl rfl, .deeper pushed reaches⟩
            · exact ⟨start, Or.inr waiting, reaches⟩
          · rintro ⟨start, rfl | waiting, reaches⟩
            · rcases reaches_iff.mp reaches with same | ⟨next, pushed, later⟩
              · exact Or.inl same
              · exact Or.inr ⟨next, Or.inl pushed, later⟩
            · exact Or.inr ⟨start, Or.inr waiting, reaches⟩

theorem nodup_visit (descends : Descends expand) {fuel : ℕ} {stack visited : List (List κ)}
    (apart : stack.Pairwise Apart) (done : visit expand fuel stack = some visited) :
    visited.Nodup := by
  induction fuel generalizing stack visited with
  | zero =>
      cases stack with
      | nil =>
          cases done
          exact List.nodup_nil
      | cons path stack => cases done
  | succ fuel ih =>
      cases stack with
      | nil =>
          cases done
          exact List.nodup_nil
      | cons path stack =>
          rcases Option.map_eq_some_iff.mp done with ⟨rest, later, rfl⟩
          rw [List.nodup_cons, mem_visit_iff later]
          constructor
          · rintro ⟨start, startMem, back⟩
            exact not_reaches_popped descends apart startMem back
          · exact ih (pairwise_apart_expand descends apart) later

/-- As many rounds are enough as there are paths to be popped. -/
theorem exists_visit [DecidableEq κ] (descends : Descends expand) {fuel : ℕ}
    {stack : List (List κ)} (apart : stack.Pairwise Apart) (all : Finset (List κ))
    (known : ∀ start ∈ stack, ∀ target, Reaches expand start target → target ∈ all)
    (enough : all.card ≤ fuel) : ∃ visited, visit expand fuel stack = some visited := by
  induction fuel generalizing stack all with
  | zero =>
      cases stack with
      | nil => exact ⟨[], rfl⟩
      | cons path stack =>
          have pathMem := known path List.mem_cons_self path (.here path)
          have one := Finset.card_pos.mpr ⟨path, pathMem⟩
          omega
  | succ fuel ih =>
      cases stack with
      | nil => exact ⟨[], rfl⟩
      | cons path stack =>
          have pathMem := known path List.mem_cons_self path (.here path)
          have rest : ∃ visited, visit expand fuel (expand path ++ stack) = some visited := by
            apply ih (pairwise_apart_expand descends apart) (all.erase path)
            · intro start startMem target reaches
              rw [Finset.mem_erase]
              constructor
              · rintro rfl
                exact not_reaches_popped descends apart startMem reaches
              · rcases List.mem_append.mp startMem with pushed | waiting
                · exact known path List.mem_cons_self target (.deeper pushed reaches)
                · exact known start (List.mem_cons_of_mem _ waiting) target reaches
            · rw [Finset.card_erase_of_mem pathMem]
              omega
          rcases rest with ⟨visited, later⟩
          exact ⟨path :: visited, by rw [visit, later, Option.map_some]⟩

end Worklist
