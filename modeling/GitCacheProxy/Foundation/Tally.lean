import Mathlib.Algebra.Order.BigOperators.Group.Finset
import Mathlib.Algebra.Order.Ring.Nat

/-!
# Tallies of what tasks record

Tasks that run at the same time record events into one log.  Each has a list of events that it
would record; if it is dropped on its way, it has recorded a prefix of that list.  The order in
which the events of different tasks come into the log does not matter to a tally of them.
-/

namespace Tally

universe u v w

variable {Event : Type u} {Task : Type v} {Name : Type w}

/-! ## Events that follow others -/

section Leads

/-- At every moment no more of the `late` events have been recorded than of the `early` ones,
with `credit` for those that were recorded before. -/
def Leads (early late : Event → Bool) (credit : ℕ) (events : List Event) : Prop :=
  ∀ count, (events.take count).countP late ≤ credit + (events.take count).countP early

variable {early late : Event → Bool} {credit : ℕ} {event : Event} {events more : List Event}

@[simp]
theorem leads_nil : Leads early late credit [] := by
  intro count
  simp

@[simp]
theorem leads_cons : Leads early late credit (event :: events) ↔
    (late event).toNat ≤ credit + (early event).toNat ∧
      Leads early late (credit + (early event).toNat - (late event).toNat) events := by
  have one : ∀ (holds : Event → Bool) (count : ℕ),
      ((event :: events).take (count + 1)).countP holds =
        (events.take count).countP holds + (holds event).toNat := by
    intro holds count
    rw [List.take_succ_cons, List.countP_cons]
    cases holds event <;> rfl
  constructor
  · intro leads
    have first := leads 1
    rw [one, one] at first
    simp only [List.take_zero, List.countP_nil, Nat.zero_add] at first
    refine ⟨first, fun count => ?_⟩
    have next := leads (count + 1)
    rw [one, one] at next
    omega
  · rintro ⟨first, leads⟩ count
    cases count with
    | zero => simp
    | succ count =>
        have next := leads count
        rw [one, one]
        omega

/-- Enough of the early events have been recorded already. -/
theorem Leads.of_credit (covered : events.countP late ≤ credit) :
    Leads early late credit events := by
  intro count
  have atMost := (List.take_sublist count events).countP_le (p := late)
  omega

theorem Leads.append (leads : Leads early late credit events)
    (leadsMore : Leads early late (credit + events.countP early - events.countP late) more) :
    Leads early late credit (events ++ more) := by
  intro count
  have first := leads count
  have all := leads events.length
  have second := leadsMore (count - events.length)
  rw [List.take_length] at all
  rw [List.take_append, List.countP_append, List.countP_append]
  rcases Nat.lt_or_ge count events.length with within | beyond
  · rw [Nat.sub_eq_zero_of_le within.le]
    simpa using first
  · rw [List.take_of_length_le beyond]
    omega

theorem Leads.append_of_leads (leads : Leads early late 0 events)
    (leadsMore : Leads early late 0 more) :
    Leads early late 0 (events ++ more) := by
  refine leads.append fun count => ?_
  have second := leadsMore count
  omega

end Leads

/-! ## The log of all tasks -/

section Log

theorem countP_eq_sum (counts : Task → Bool) (tasks : List Task) :
    tasks.countP counts = (tasks.map fun task => (counts task).toNat).sum := by
  induction tasks with
  | nil => rfl
  | cons task tasks ih =>
      rw [List.countP_cons, List.map_cons, List.sum_cons, ih, Nat.add_comm]
      cases counts task <;> rfl

variable (events : Task → List Event) (kept : Task → ℕ)

/-- What has been recorded, up to its order, if every task has come so far. -/
def Records (tasks : List Task) (log : List Event) : Prop :=
  log.Perm (tasks.flatMap fun task => (events task).take (kept task))

variable {events kept} {tasks : List Task} {log : List Event}
  (records : Records events kept tasks log)

include records

/-- What holds of every task at every moment holds of the log. -/
theorem Records.leads {early late : Event → Bool}
    (leads : ∀ task ∈ tasks, Leads early late 0 (events task)) :
    log.countP late ≤ log.countP early := by
  rw [records.countP_eq, records.countP_eq, List.countP_flatMap, List.countP_flatMap]
  refine List.sum_le_sum fun task taskMem => ?_
  have now := leads task taskMem (kept task)
  rwa [Nat.zero_add] at now

/-- A tally of events of which each task records one or none. -/
theorem Records.countP_le {holds : Event → Bool} {counts : Task → Bool}
    (once : ∀ task ∈ tasks, (events task).countP holds = (counts task).toNat) :
    log.countP holds ≤ tasks.countP counts := by
  rw [records.countP_eq, List.countP_flatMap, countP_eq_sum]
  refine List.sum_le_sum fun task taskMem => ?_
  rw [← once task taskMem]
  exact (List.take_sublist _ _).countP_le

theorem Records.countP_eq_of_complete {holds : Event → Bool} {counts : Task → Bool}
    (complete : ∀ task ∈ tasks, (events task).length ≤ kept task)
    (once : ∀ task ∈ tasks, (events task).countP holds = (counts task).toNat) :
    log.countP holds = tasks.countP counts := by
  rw [records.countP_eq, List.countP_flatMap, countP_eq_sum]
  refine congrArg List.sum (List.map_congr_left fun task taskMem => ?_)
  rw [← once task taskMem, Function.comp_apply, List.take_of_length_le (complete task taskMem)]

theorem Records.exists_task {event : Event} (eventMem : event ∈ log) :
    ∃ task ∈ tasks, event ∈ events task := by
  rcases List.mem_flatMap.mp (records.mem_iff.mp eventMem) with ⟨task, taskMem, kept⟩
  exact ⟨task, taskMem, List.mem_of_mem_take kept⟩

/-- Few distinct events occur if those that carry a name are few for every name. -/
theorem Records.card_le [DecidableEq Event] [DecidableEq Name] {anonymous : List Event}
    {named : Name → List Event} {width : ℕ} {name : Task → Option Name}
    (bounded : ∀ own, (named own).length ≤ width)
    (labels : ∀ task ∈ tasks, ∀ event ∈ events task,
      event ∈ anonymous ∨ ∃ own ∈ name task, event ∈ named own) :
    log.toFinset.card ≤ anonymous.length + width * (tasks.filterMap name).toFinset.card := by
  have within : log.toFinset ⊆ anonymous.toFinset ∪
      (tasks.filterMap name).toFinset.biUnion fun own => (named own).toFinset := by
    intro event eventMem
    rcases records.exists_task (List.mem_toFinset.mp eventMem) with ⟨task, taskMem, recorded⟩
    rw [Finset.mem_union, List.mem_toFinset, Finset.mem_biUnion]
    rcases labels task taskMem event recorded with isAnonymous | ⟨own, isName, isNamed⟩
    · exact Or.inl isAnonymous
    · refine Or.inr ⟨own, ?_, List.mem_toFinset.mpr isNamed⟩
      rw [List.mem_toFinset, List.mem_filterMap]
      exact ⟨task, taskMem, isName⟩
  calc
    log.toFinset.card ≤ _ := Finset.card_le_card within
    _ ≤ anonymous.toFinset.card + _ := Finset.card_union_le _ _
    _ ≤ anonymous.length + (tasks.filterMap name).toFinset.card * width :=
        Nat.add_le_add (List.toFinset_card_le _)
          (Finset.card_biUnion_le_card_mul _ _ _ fun own _ =>
            (List.toFinset_card_le _).trans (bounded own))
    _ = _ := by rw [Nat.mul_comm]

end Log

end Tally
