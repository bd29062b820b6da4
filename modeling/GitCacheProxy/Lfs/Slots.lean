import Mathlib.Data.Finset.Card
import GitCacheProxy.Lfs.ContentAddressing

/-!
# The table of slots

Every miss goes through the slot of its object, a lock in a table.  The entry is made before the
lock is taken, and before anything is known about the object; no entry is removed while the process
runs.  The requests, the evictions and the crashes are those of the store, with the keys of the
table beside them.

A request that has made an entry and ends without the object leaves it behind, unless another
request is still after the same object.  These are the only entries of objects that were not
fetched.
-/

namespace GitCacheProxy.Lfs

open Repo FileTree TransitionSystem

universe u

namespace Stage

/-- The object that a request is after, from its first look on until it has it or gives up. -/
def seeks : Stage → Option Text
  | queued oid _ | locked oid _ | requesting oid | preparing oid | naming oid | opening oid _
  | streaming oid _ | discarding oid _ | hashing oid _ | sharding oid _ | sizing oid _
  | moving oid _ _ | failing oid => some oid
  | _ => none

/-- The object that `fetch_object` has just put in its place. -/
def stored : Stage → Finset Text
  | recording oid _ => {oid}
  | _ => ∅

end Stage

namespace Slots

variable {Task : Type u}

/-- The server with the keys of its table; the fetched objects are history. -/
structure Table (Task : Type u) where
  server : State Task
  slots : Finset Text
  /-- since startup -/
  fetched : Finset Text

/-- One action; `may` restricts what the tasks do. -/
inductive Step [DecidableEq Task] (root : Path) (hash : Bytes → Text)
    (may : Table Task → Task → Stage → Prop) (table : Table Task) : Table Task → Prop where
  | act (task : Task) (shared : Shared Task) (stage : Stage)
      (taken : Act root hash task table.server.shared (table.server.tasks task) shared stage)
      (entered : ∀ oid size, stage = .locked oid size → oid ∈ table.slots)
      (allowed : may table task stage) :
      Step root hash may table
        ⟨⟨shared, Function.update table.server.tasks task stage⟩, table.slots,
          table.fetched ∪ stage.stored⟩
  -- `entry(oid).or_insert_with(..)`, before the lock is asked for
  | slot (task : Task) (oid : Text) (size : Option ℕ)
      (isQueued : table.server.tasks task = .queued oid size) :
      Step root hash may table { table with slots := insert oid table.slots }
  | evict (oid : Text) (disk : Disk) (valid : validLfsOid oid = true)
      (removed : table.server.shared.disk.removeFile (lfsObjectPath root oid) = some disk) :
      Step root hash may table { table with server.shared.disk := disk }
  | crash (pid : ℕ) (index : Index.CacheIndex) (failure : Option Disk) :
      Step root hash may table {
        server := {
          shared := {
            disk := Git.GitCache.discard table.server.shared.disk (incomingPath root) failure
            index := index
            owner := fun _ => none
            counter := 0
            pid := pid }
          tasks := fun _ => .idle }
        slots := ∅
        fetched := ∅ }

/-- A server starts with an empty table. -/
structure Starts (root : Path) (hash : Bytes → Text) (table : Table Task) : Prop where
  server : Lfs.Starts root hash table.server
  slots : table.slots = ∅
  fetched : table.fetched = ∅

/-- No request is in progress. -/
def Table.Quiet (table : Table Task) : Prop :=
  ∀ task, table.server.tasks task = .idle ∨ ∃ op, table.server.tasks task = .orphan op

/-- What the documentation of the table promises. -/
structure Bounded (table : Table Task) : Prop where
  card : table.slots.card ≤ table.fetched.card
  noneLeft : ∀ oid ∉ table.fetched, oid ∉ table.slots

/-- The last request after an object that was not fetched gives it up, with its entry in the
table. -/
structure Strands (table : Table Task) (task : Task) (stage : Stage) (oid : Text) : Prop where
  seeks : (table.server.tasks task).seeks = some oid
  givesUp : stage.seeks ≠ some oid ∧ oid ∉ stage.stored
  entry : oid ∈ table.slots
  unfetched : oid ∉ table.fetched
  last : ∀ other, other ≠ task → (table.server.tasks other).seeks ≠ some oid

section Runs

variable [DecidableEq Task] {root : Path} {hash : Bytes → Text}
  {may : Table Task → Task → Stage → Prop} {table table' : Table Task}

/-- Beside the table, the server is that of the store. -/
theorem server_step (taken : Step root hash may table table') :
    table'.server = table.server ∨
      Lfs.Step root hash (fun _ _ => True) table.server table'.server := by
  cases taken with
  | act task shared stage taken => exact Or.inr (.act task shared stage taken)
  | slot => exact Or.inl rfl
  | evict oid disk valid removed => exact Or.inr (.evict oid disk valid trivial removed)
  | crash pid index failure => exact Or.inr (.crash pid index failure)

/-! ## Only what has an entry is fetched -/

omit [DecidableEq Task] in
/-- A task takes a slot by taking its lock, and stores an object only while it has the slot. -/
theorem entered_of_act {task : Task} {shared shared' : Shared Task} {stage stage' : Stage}
    (taken : Act root hash task shared stage shared' stage') :
    (∀ oid, stage'.held = some oid → stage.held = some oid ∨ ∃ size, stage' = .locked oid size) ∧
      ∀ oid ∈ stage'.stored, stage.held = some oid := by
  cases taken with
  | lock oid size =>
      refine ⟨?_, by simp [Stage.stored]⟩
      rintro other held
      exact Or.inr ⟨size, by rw [Option.some.inj held]⟩
  | hashed oid n content =>
      split
      · exact ⟨fun _ held => Or.inl held, by simp [Stage.stored]⟩
      · exact ⟨fun _ held => Or.inl held, by simp [Stage.stored]⟩
  | touch oid guarded =>
      cases guarded <;> simp [Stage.held, Stage.stored]
  | drop stage op =>
      cases op <;> simp [Stage.dropped, Stage.held, Stage.stored]
  | _ => simp [Stage.held, Stage.stored]

/-- Whoever has a slot, and whatever was fetched, has an entry. -/
structure Entered (table : Table Task) : Prop where
  held : ∀ task oid, (table.server.tasks task).held = some oid → oid ∈ table.slots
  fetched : table.fetched ⊆ table.slots

theorem Entered.step (entered : Entered table) (taken : Step root hash may table table') :
    Entered table' := by
  cases taken with
  | act task shared stage taken locked allowed =>
      have known := entered_of_act taken
      constructor
      · intro other oid held
        by_cases isTask : other = task
        · subst other
          simp only [Function.update_self] at held
          rcases known.1 oid held with before | ⟨size, isLocked⟩
          · exact entered.held task oid before
          · exact locked oid size isLocked
        · simp only [Function.update_of_ne isTask] at held
          exact entered.held other oid held
      · intro oid fetched
        rcases Finset.mem_union.mp fetched with before | stored
        · exact entered.fetched before
        · exact entered.held task oid (known.2 oid stored)
  | slot task oid size isQueued =>
      exact ⟨fun task other held => Finset.mem_insert_of_mem (entered.held task other held),
        entered.fetched.trans (Finset.subset_insert _ _)⟩
  | evict => exact ⟨entered.held, entered.fetched⟩
  | crash =>
      constructor
      · intro task oid held
        cases held
      · exact Finset.Subset.refl _

theorem entered_of_reachable (reached : Reachable (Starts root hash) (Step root hash may) table) :
    Entered table := by
  apply reached.invariant
  · intro table starts
    constructor
    · intro task oid held
      rw [starts.server.idle] at held
      cases held
    · rw [starts.fetched]
      exact Finset.empty_subset _
  · exact fun _ _ entered taken => entered.step taken

omit [DecidableEq Task] in
/-- The two promises of the documentation are one. -/
theorem Entered.bounded_iff (entered : Entered table) :
    Bounded table ↔ table.slots.card ≤ table.fetched.card := by
  constructor
  · exact Bounded.card
  · intro card
    have same := Finset.eq_of_subset_of_card_le entered.fetched card
    exact ⟨card, fun oid unfetched entry => unfetched (same ▸ entry)⟩

/-! ## Every entry has been fetched, or somebody is after it -/

/-- No entry is left behind. -/
def Accounted (table : Table Task) : Prop :=
  ∀ oid ∈ table.slots, oid ∈ table.fetched ∨
    ∃ task, (table.server.tasks task).seeks = some oid

/-- An action leaves an entry behind exactly if it strands an object. -/
theorem Accounted.act_iff (accounted : Accounted table) (task : Task) (shared : Shared Task)
    (stage : Stage) :
    Accounted ⟨⟨shared, Function.update table.server.tasks task stage⟩, table.slots,
      table.fetched ∪ stage.stored⟩ ↔ ∀ oid, ¬Strands table task stage oid := by
  constructor
  · intro accounted' oid strands
    rcases accounted' oid strands.entry with fetched | ⟨other, seeks⟩
    · rcases Finset.mem_union.mp fetched with before | stored
      · exact strands.unfetched before
      · exact strands.givesUp.2 stored
    · by_cases isTask : other = task
      · subst other
        exact strands.givesUp.1 (by simpa using seeks)
      · exact strands.last other isTask (by simpa [isTask] using seeks)
  · intro careful oid entry
    by_cases fetched : oid ∈ table.fetched ∪ stage.stored
    · exact Or.inl fetched
    rw [Finset.mem_union, not_or] at fetched
    right
    rcases accounted oid entry with before | ⟨other, seeks⟩
    · exact absurd before fetched.1
    by_cases isTask : other = task
    · subst other
      by_contra nobody
      apply careful oid
      refine ⟨seeks, ⟨?_, fetched.2⟩, entry, fetched.1, ?_⟩
      · intro still
        exact nobody ⟨task, by simpa using still⟩
      · intro third isThird seeksToo
        exact nobody ⟨third, by simpa [isThird] using seeksToo⟩
    · exact ⟨other, by simpa [isTask] using seeks⟩

/-- No task strands an object. -/
def Careful (table : Table Task) (task : Task) (stage : Stage) : Prop :=
  ∀ oid, ¬Strands table task stage oid

theorem Accounted.step (accounted : Accounted table) (taken : Step root hash Careful table table') :
    Accounted table' := by
  cases taken with
  | act task shared stage taken entered careful =>
      exact (accounted.act_iff task shared stage).mpr careful
  | slot task oid size isQueued =>
      intro other entry
      rcases Finset.mem_insert.mp entry with rfl | entry
      · exact Or.inr ⟨task, by simp [isQueued, Stage.seeks]⟩
      · exact accounted other entry
  | evict => exact accounted
  | crash =>
      intro oid entry
      cases entry

omit [DecidableEq Task] in
theorem Table.Quiet.seeks (quiet : table.Quiet) (task : Task) :
    (table.server.tasks task).seeks = none := by
  rcases quiet task with idle | ⟨op, orphan⟩
  · rw [idle]
    rfl
  · rw [orphan]
    rfl

/-- In a run in which no request strands its object, the table holds at most one entry for each
object that was fetched whenever no request is in progress, and no other entry. -/
theorem bounded_of_careful (reached : Reachable (Starts root hash) (Step root hash Careful) table)
    (quiet : table.Quiet) : Bounded table := by
  have accounted : Accounted table := by
    apply reached.invariant
    · intro table starts oid entry
      rw [starts.slots] at entry
      cases entry
    · exact fun _ _ accounted taken => accounted.step taken
  have fetched : table.slots ⊆ table.fetched := by
    intro oid entry
    rcases accounted oid entry with fetched | ⟨task, seeks⟩
    · exact fetched
    · rw [quiet.seeks] at seeks
      cases seeks
  exact (entered_of_reachable reached).bounded_iff.mpr (Finset.card_le_card fetched)

end Runs

/-! An object is fetched; and a client asks for one without its size. -/

section MadeUp

def madeUp : Text := List.replicate 64 'a'

def empty : Table Unit where
  server :=
    { shared := ⟨.empty, .new [] [] 1000, fun _ => none, 0, 7⟩
      tasks := fun _ => .idle }
  slots := ∅
  fetched := ∅

theorem starts_empty : Starts ["cache".toList] (fun _ => madeUp) empty := by
  refine ⟨⟨fun _ => rfl, fun _ => rfl, ?_⟩, rfl, rfl⟩
  intro oid valid node found
  rw [lfsObjectPath_eq valid] at found
  cases found

theorem bounded_fetched : ∃ table : Table Unit,
    table.Quiet ∧ table.slots = {madeUp} ∧ Bounded table := by
  have goesOn {table : Table Unit} {stage : Stage}
      (same : stage.seeks = (table.server.tasks ()).seeks) : Careful table () stage :=
    fun oid strands => strands.givesUp.1 (same.trans strands.seeks)
  have begins {table : Table Unit} {stage : Stage}
      (nothing : (table.server.tasks ()).seeks = none) : Careful table () stage :=
    fun oid strands => by cases nothing.symm.trans strands.seeks
  have stores {table : Table Unit} {bytes : ℕ}
      (seeks : (table.server.tasks ()).seeks = some madeUp) :
      Careful table () (.recording madeUp bytes) := by
    intro oid strands
    rw [Option.some.inj (strands.seeks.symm.trans seeks)] at strands
    exact strands.givesUp.2 (Finset.mem_singleton_self _)
  have run : Reachable (Starts ["cache".toList] fun _ => madeUp)
      (Step ["cache".toList] (fun _ => madeUp) Careful) empty := .start starts_empty
  have run := run.next (.act () _ _ (.arrive madeUp (some 0) rfl) (by simp) (goesOn rfl))
  have run := run.next (.act () _ _ (.probeMiss madeUp (some 0)) (by simp) (begins rfl))
  have run := run.next (.slot () madeUp (some 0) rfl)
  have run := run.next (.act () _ _ (.lock madeUp (some 0) rfl) (by simp) (goesOn rfl))
  have run := run.next (.act () _ _ (.recheckMiss madeUp 0) (by simp) (goesOn rfl))
  have run := run.next (.act () _ _ (.requested madeUp) (by simp) (goesOn rfl))
  have run := run.next (.act () _ _ (.prepared madeUp _ rfl) (by simp) (goesOn rfl))
  have run := run.next (.act () _ _ (.name madeUp) (by simp) (goesOn rfl))
  have run := run.next (.act () _ _ (.opened madeUp 0 _ rfl) (by simp) (goesOn rfl))
  have run := run.next (.act () _ _ (.streamed madeUp 0) (by simp) (goesOn rfl))
  have run := run.next
    (.act () _ (.sharding madeUp 0) (.hashed madeUp 0 [] rfl) (by simp) (goesOn rfl))
  have run := run.next (.act () _ _ (.sharded madeUp 0 _ rfl) (by simp) (goesOn rfl))
  have run := run.next (.act () _ _ (.sized madeUp 0 0 (Or.inl rfl)) (by simp) (goesOn rfl))
  have run := run.next (.act () _ _ (.moved madeUp 0 0 _ rfl) (by simp) (stores rfl))
  have run := run.next (.act () _ _ (.record madeUp 0) (by simp) (begins rfl))
  have run := run.next (.act () _ _ (.notify madeUp) (by simp) (begins rfl))
  have run := run.next (.act () _ _ (.succeed madeUp true .miss) (by simp) (begins rfl))
  have run := run.next (.act () _ _ (.serve madeUp) (by simp) (begins rfl))
  exact ⟨_, fun _ => Or.inl rfl, rfl, bounded_of_careful run fun _ => Or.inl rfl⟩

theorem entry_left_behind : ∃ table : Table Unit,
    Reachable (Starts ["cache".toList] fun _ => madeUp)
      (Step ["cache".toList] (fun _ => madeUp) fun _ _ _ => True) table ∧
    table.Quiet ∧ table.slots.card = 1 ∧ table.fetched.card = 0 ∧ ¬Bounded table := by
  have run : Reachable (Starts ["cache".toList] fun _ => madeUp)
      (Step ["cache".toList] (fun _ => madeUp) fun _ _ _ => True) empty := .start starts_empty
  have run := run.next (.act () _ _ (.arrive madeUp none rfl) (by simp) trivial)
  have run := run.next (.act () _ _ (.probeMiss madeUp none) (by simp) trivial)
  have run := run.next (.slot () madeUp none rfl)
  have run := run.next (.act () _ _ (.lock madeUp none rfl) (by simp) trivial)
  have run := run.next (.act () _ _ (.sizeless madeUp) (by simp) trivial)
  have run := run.next (.act () _ _ (.fail madeUp) (by simp) trivial)
  refine ⟨_, run, fun _ => Or.inl rfl, rfl, rfl, ?_⟩
  intro bounded
  exact absurd bounded.card (by decide)

end MadeUp

end Slots

end GitCacheProxy.Lfs
