import Mathlib.Order.Bounds.Basic
import GitCacheProxy.Git.Retry

/-!
# The retry policy

`runLogged` is the loop of `run_upstream` once more, with a log of what it does
between its children: the disk when an attempt is started, the disk after a
failed attempt, and the seconds it sleeps.  Without the log it is `runUpstream`
(`runUpstreamLogged_eq`).

`FollowsPolicy` says what the policy asks of a run.  The loop is followed attempt
by attempt: each of them either ends it or sleeps for the next delay.
-/

namespace GitCacheProxy.Git

open FileTree

/-! ## The loop with a log -/

inductive LogEntry where
  /-- the child of an attempt is about to be started -/
  | starts (disk : Disk)
  /-- an attempt has failed -/
  | fails (disk : Disk)
  | sleeps (seconds : ℕ)

/-- The loop from `attempt` on; a run without a result gets to the `unreachable!` after it. -/
def runLogged (operation repo : Text) (path : Path) (staging : Bool) (git : ℕ → Attempt) :
    ℕ → ℕ → Disk → List LogEntry × Disk × Option (Except UpstreamError Unit)
  | 0, _, disk => ([], disk, none)
  | rounds + 1, attempt, disk =>
      match cleanIf staging disk path (git attempt).clearing with
      | (disk, .error failure) => ([], disk, some (.error failure))
      | (disk, .ok ()) =>
          match runChild operation repo path staging (git attempt) attempt disk with
          | (after, some (.ok ())) => ([.starts disk], after, some (.ok ()))
          | (after, some (.error failure)) =>
              ([.starts disk, .fails after], after, some (.error failure))
          | (after, none) =>
              let delay := upstreamRetryDelays[attempt]?.toList.map LogEntry.sleeps
              let (log, result) :=
                runLogged operation repo path staging git rounds (attempt + 1) after
              (.starts disk :: .fails after :: (delay ++ log), result)

def runUpstreamLogged (operation repo : Text) (path : Path) (staging : Bool) (git : ℕ → Attempt)
    (disk : Disk) : List LogEntry × Disk × Option (Except UpstreamError Unit) :=
  runLogged operation repo path staging git (maxUpstreamRetries + 1) 0 disk

/-- The disks at the starts of the attempts. -/
def started : List LogEntry → List Disk :=
  List.filterMap fun
    | .starts disk => some disk
    | _ => none

/-- The disks after the failed attempts. -/
def failed : List LogEntry → List Disk :=
  List.filterMap fun
    | .fails disk => some disk
    | _ => none

/-- The seconds slept, in order. -/
def slept : List LogEntry → List ℕ :=
  List.filterMap fun
    | .sleeps seconds => some seconds
    | _ => none

/-- Nothing is tried again after a success, a permanent error or a signal. -/
def Attempt.Stops (round : Attempt) : Prop :=
  round.status.success = true ∨ transientUpstreamError (stderrTail round.stderr) = none ∨
    round.status.code = none

/-- What the policy asks of a run with `m` attempts. -/
structure FollowsPolicy (staging : Bool) (path : Path) (git : ℕ → Attempt) (m : ℕ)
    (run : List LogEntry × Disk × Option (Except UpstreamError Unit)) : Prop where
  /-- the least number of attempts of which the last one stops, or is the fourth -/
  least : IsLeast {n | 1 ≤ n ∧ n ≤ 4 ∧ ((git (n - 1)).Stops ∨ n = 4)} m
  attempts : (started run.1).length = m
  /-- the loop ends with a result -/
  result : ∃ result, run.2.2 = some result ∧
    (result = .ok () ↔ (git (m - 1)).status.success = true)
  delays : slept run.1 = upstreamRetryDelays.take (m - 1)
  total : (slept run.1).sum ≤ 7
  clear : staging = true → ∀ disk ∈ started run.1 ++ failed run.1, ¬disk.Exists path

/-! ## The log changes nothing -/

section Logged

variable {operation repo : Text} {path : Path} {staging : Bool} {git : ℕ → Attempt}
  {disk after : Disk} {attempt : ℕ}

theorem lt_of_runChild {round : Attempt}
    (again : runChild operation repo path staging round attempt disk = (after, none)) :
    attempt < maxUpstreamRetries := by
  unfold runChild at again
  split at again
  · cases again
  split at again
  · cases again
  split at again
  · cases again
  split at again
  · cases again
  split at again
  · cases again
  · simp only at again
    split at again
    · rename_i granted
      simpa [maxUpstreamRetries] using granted.2.2
    · cases again

theorem runLogged_eq (rounds : ℕ) (granted : rounds + attempt = maxUpstreamRetries + 1)
    (within : attempt ≤ maxUpstreamRetries) :
    (runLogged operation repo path staging git rounds attempt disk).2 =
      ((runRounds operation repo path staging git rounds attempt disk).1,
        some (runRounds operation repo path staging git rounds attempt disk).2) := by
  induction rounds generalizing disk attempt with
  | zero => omega
  | succ rounds ih =>
      simp only [runLogged, runRounds, runRound]
      cases cleanIf staging disk path (git attempt).clearing with
      | mk cleared result =>
      cases result with
      | error failure => rfl
      | ok _ =>
          simp only
          cases ran : runChild operation repo path staging (git attempt) attempt cleared with
          | mk after result =>
          cases result with
          | none =>
              have more := lt_of_runChild ran
              exact ih (by omega) more
          | some result =>
              cases result with
              | error failure => rfl
              | ok _ => rfl

theorem runUpstreamLogged_eq :
    (runUpstreamLogged operation repo path staging git disk).2 =
      ((runUpstream operation repo path staging git disk).1,
        some (runUpstream operation repo path staging git disk).2) :=
  runLogged_eq _ rfl (Nat.zero_le _)

/-! ## Attempt by attempt -/

/-- What the loop does from `attempt` on if it ends with attempt `m`. -/
structure Follows (staging : Bool) (path : Path) (git : ℕ → Attempt) (attempt m : ℕ)
    (run : List LogEntry × Disk × Option (Except UpstreamError Unit)) : Prop where
  least : attempt ≤ m
  most : m ≤ maxUpstreamRetries
  before : ∀ k, attempt ≤ k → k < m → (git k).Retried
  last : (git m).Retried → maxUpstreamRetries ≤ m
  attempts : (started run.1).length = m - attempt + 1
  result : ∃ result, run.2.2 = some result ∧ (result = .ok () ↔ (git m).Succeeds)
  delays : slept run.1 = (upstreamRetryDelays.drop attempt).take (m - attempt)
  clear : staging = true → ∀ disk ∈ started run.1 ++ failed run.1, disk.get? path = none

theorem runLogged_follows (notRoot : path ≠ []) (ends : ∀ n, (git n).Ends)
    (sweeps : ∀ n, (git n).Sweeps) (rounds : ℕ)
    (granted : rounds + attempt = maxUpstreamRetries + 1) (within : attempt ≤ maxUpstreamRetries)
    (notFile : staging = true → disk.isFile path = false) :
    ∃ m, Follows staging path git attempt m
      (runLogged operation repo path staging git rounds attempt disk) := by
  induction rounds generalizing disk attempt with
  | zero => omega
  | succ rounds ih =>
      rcases cleanIf_of_not_file notRoot notFile with ⟨bare, cleared, absent⟩
      have result : RoundResult staging (git attempt) attempt path
          (runChild operation repo path staging (git attempt) attempt bare) :=
        runChild_result notRoot (sweeps attempt) absent
      have none_before : ∀ k, attempt ≤ k → k < attempt → (git k).Retried :=
        fun k least early => absurd least (Nat.not_le.mpr early)
      simp only [runLogged, (sweeps attempt).clearing, cleared]
      generalize runChild operation repo path staging (git attempt) attempt bare = run at result
      cases result with
      | success after succeeds isDir =>
          refine ⟨attempt, le_rfl, within, none_before, ?_, ?_, ?_, ?_, ?_⟩
          · exact fun retried => absurd succeeds retried.not_succeeds
          · simp [started]
          · exact ⟨_, rfl, iff_of_true rfl succeeds⟩
          · simp [slept]
          · simpa [started, Git.failed] using absent
      | again after retried more swept =>
          have granted' : rounds + (attempt + 1) = maxUpstreamRetries + 1 := by omega
          have notFile' : staging = true → after.isFile path = false := by
            intro isStaging
            simp [Tree.isFile, swept isStaging]
          rcases ih granted' more notFile' with ⟨m, rest⟩
          have least := rest.least
          have delay : upstreamRetryDelays[attempt]? = some upstreamRetryDelays[attempt] :=
            List.getElem?_eq_getElem more
          refine ⟨m, by omega, rest.most, ?_, rest.last, ?_, rest.result, ?_, ?_⟩
          · intro k kLeast early
            by_cases isFirst : k = attempt
            · rw [isFirst]
              exact retried
            · exact rest.before k (by omega) early
          · have attempts := rest.attempts
            simp only [started] at attempts
            simp [started, delay, attempts]
            omega
          · have delays := rest.delays
            simp only [slept] at delays
            have later : m - attempt = m - (attempt + 1) + 1 := by omega
            rw [later, List.drop_eq_getElem_cons more, List.take_succ_cons, ← delays]
            simp [slept, delay]
          · intro isStaging target targetMem
            have clear := rest.clear isStaging target
            simp only [started, Git.failed, List.mem_append] at clear
            simp only [started, Git.failed, delay, Option.toList_some, List.map_cons,
              List.map_nil, List.filterMap_cons, List.filterMap_append, List.filterMap_nil,
              List.nil_append, List.mem_append, List.mem_cons] at targetMem
            rcases targetMem with (rfl | atStart) | (rfl | atFailure)
            · exact absent isStaging
            · exact clear (Or.inl atStart)
            · exact swept isStaging
            · exact clear (Or.inr atFailure)
      | failure after error notSucceeds final left =>
          refine ⟨attempt, le_rfl, within, none_before, final, ?_, ?_, ?_, ?_⟩
          · simp [started]
          · exact ⟨_, rfl, iff_of_false (by simp) notSucceeds⟩
          · simp [slept]
          · intro isStaging
            have gone : after.get? path = none := by
              have notLost := (not_congr (left isStaging)).mpr (ends attempt).not_lost
              simpa [Tree.Exists] using notLost
            simp [started, Git.failed, absent isStaging, gone]

theorem Attempt.Ends.stops_iff {round : Attempt} (ends : round.Ends) :
    round.Stops ↔ ¬round.Retried := by
  constructor
  · rintro (success | permanent | killed) retried
    · exact retried.not_succeeds ⟨ends, success⟩
    · have transient := retried.transient
      rw [permanent] at transient
      cases transient
    · have exited := retried.exited
      rw [killed] at exited
      cases exited
  · intro notRetried
    by_contra goesOn
    simp only [Stops, not_or, Bool.not_eq_true, ← Option.isSome_iff_ne_none, ← ne_eq] at goesOn
    exact notRetried ⟨ends, goesOn.1, goesOn.2.2, goesOn.2.1⟩

theorem Attempt.Ends.succeeds_iff {round : Attempt} (ends : round.Ends) :
    round.Succeeds ↔ round.status.success = true :=
  ⟨fun succeeds => succeeds.success, fun success => ⟨ends, success⟩⟩

/-- The first three delays, or fewer of them, take seven seconds at most. -/
theorem sum_delays_le (n : ℕ) : (upstreamRetryDelays.take n).sum ≤ 7 := by
  have whole : (upstreamRetryDelays.take n).sum + (upstreamRetryDelays.drop n).sum = 7 := by
    rw [← List.sum_append, List.take_append_drop]
    rfl
  omega

/-- Whatever comes of the attempts, the loop does what the policy says. -/
theorem runUpstreamLogged_followsPolicy (operation repo : Text) (staging : Bool)
    (notRoot : path ≠ []) (ends : ∀ n, (git n).Ends) (sweeps : ∀ n, (git n).Sweeps)
    (notFile : staging = true → disk.isFile path = false) :
    ∃ m, FollowsPolicy staging path git m
      (runUpstreamLogged operation repo path staging git disk) := by
  have loop : ∃ m, Follows staging path git 0 m (runUpstreamLogged operation repo path staging git
      disk) := runLogged_follows notRoot ends sweeps _ rfl (Nat.zero_le _) notFile
  rcases loop with ⟨m, follows⟩
  have most : m ≤ 3 := follows.most
  refine ⟨m + 1, ⟨⟨by omega, by omega, ?_⟩, ?_⟩, follows.attempts, ?_, follows.delays, ?_, ?_⟩
  · rw [Nat.add_sub_cancel, (ends m).stops_iff]
    by_contra goesOn
    rw [not_or, not_not] at goesOn
    have last : 3 ≤ m := follows.last goesOn.1
    omega
  · rintro n ⟨positive, most', stops | isFourth⟩
    · by_contra early
      rw [(ends _).stops_iff] at stops
      exact stops (follows.before (n - 1) (Nat.zero_le _) (by omega))
    · omega
  · rcases follows.result with ⟨result, isResult, ok⟩
    exact ⟨result, isResult, by rw [ok, Nat.add_sub_cancel, (ends m).succeeds_iff]⟩
  · rw [follows.delays]
    exact sum_delays_le _
  · intro isStaging target targetMem
    simp [Tree.Exists, follows.clear isStaging target targetMem]

end Logged

/-! An upstream that is busy twice. -/

def busyTwice (n : ℕ) : Attempt where
  clearing := none
  spawned := true
  written := some .empty
  drained := true
  waited := true
  status := ⟨some (if n < 2 then 128 else 0)⟩
  stderr := "The requested URL returned error: 503\n".toUTF8.toList
  sweeping := none
  complete := fun _ => rfl

theorem followsPolicy_busyTwice : ∃ m, FollowsPolicy true ["repo.__incoming__".toList] busyTwice m
    (runUpstreamLogged "clone".toList "repo".toList ["repo.__incoming__".toList] true busyTwice
      .empty) :=
  runUpstreamLogged_followsPolicy _ _ true (by simp) (fun _ => ⟨rfl, rfl, rfl⟩)
    (fun _ => ⟨rfl, rfl⟩) (fun _ => rfl)

end GitCacheProxy.Git
