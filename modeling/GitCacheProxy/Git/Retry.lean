import GitCacheProxy.Git.Mirror

/-!
# What the retry loop does

Whatever the children do, the loop changes the disk only by replacing what is in
its directory, so that a relation between disks which holds of every such
replacement holds of the whole loop (`runRounds_preserves`).

In a staging directory that can be cleared, the loop succeeds exactly when the
upstream delivers the repository within the attempts that are granted
(`Delivers`).
-/

namespace GitCacheProxy.Git

open FileTree

variable {path : Path} {disk after : Disk} {operation repo : Text} {round : Attempt}
  {attempt : ℕ} {git : ℕ → Attempt}

/-! ## What the loop changes -/

section Preserves

variable {R : Disk → Disk → Prop}

theorem cleanStaging_preserves (refl : ∀ disk, R disk disk)
    (replace : ∀ disk left, R disk (disk.replace path left)) (failure : Option Disk) :
    R disk (cleanStaging disk path failure).1 := by
  unfold cleanStaging
  split
  · exact refl disk
  · exact refl disk
  · split
    · exact replace disk none
    · rename_i left
      exact replace disk (some left)

theorem cleanIf_preserves (refl : ∀ disk, R disk disk)
    (replace : ∀ disk left, R disk (disk.replace path left)) (staging : Bool)
    (failure : Option Disk) : R disk (cleanIf staging disk path failure).1 := by
  cases staging with
  | false => exact refl disk
  | true => exact cleanStaging_preserves refl replace failure

variable (operation repo) (staging : Bool)

theorem runChild_preserves (refl : ∀ disk, R disk disk)
    (trans : ∀ first second third, R first second → R second third → R first third)
    (replace : ∀ disk left, R disk (disk.replace path left)) (round : Attempt) (attempt : ℕ) :
    R disk (runChild operation repo path staging round attempt disk).1 := by
  have written : R disk (round.leaves path disk) := by
    unfold Attempt.leaves
    split
    · exact refl disk
    · rename_i left _
      exact replace disk (some left)
  unfold runChild
  split
  · exact refl disk
  split
  · exact written
  split
  · exact written
  split
  · exact written
  have cleaned : R (round.leaves path disk)
      (cleanIf staging (round.leaves path disk) path round.sweeping).1 :=
    cleanIf_preserves refl replace staging round.sweeping
  have swept := trans _ _ _ written cleaned
  generalize cleanIf staging (round.leaves path disk) path round.sweeping = result at swept
  rcases result with ⟨swept, result⟩
  cases result with
  | error failure => assumption
  | ok _ =>
      simp only
      split
      · assumption
      · assumption

/-- A relation that every replacement in `path` satisfies is satisfied by the loop. -/
theorem runRounds_preserves (refl : ∀ disk, R disk disk)
    (trans : ∀ first second third, R first second → R second third → R first third)
    (replace : ∀ disk left, R disk (disk.replace path left)) (git : ℕ → Attempt)
    (rounds attempt : ℕ) :
    R disk (runRounds operation repo path staging git rounds attempt disk).1 := by
  induction rounds generalizing disk attempt with
  | zero => exact refl disk
  | succ rounds ih =>
      have cleared : R disk (cleanIf staging disk path (git attempt).clearing).1 :=
        cleanIf_preserves refl replace staging _
      simp only [runRounds, runRound]
      generalize cleanIf staging disk path (git attempt).clearing = cleaned at cleared
      rcases cleaned with ⟨cleaned, result⟩
      cases result with
      | error failure => exact cleared
      | ok _ =>
          have child : R cleaned
              (runChild operation repo path staging (git attempt) attempt cleaned).1 :=
            runChild_preserves operation repo staging refl trans replace _ _
          have ran := trans _ _ _ cleared child
          simp only
          generalize runChild operation repo path staging (git attempt) attempt cleaned = round
            at ran
          rcases round with ⟨round, result⟩
          cases result with
          | some result => exact ran
          | none => exact trans _ _ _ ran (ih (attempt + 1))

end Preserves

/-- With a regular file in its place the staging directory cannot be cleared. -/
theorem runUpstream_of_file (operation repo : Text) (git : ℕ → Attempt)
    (file : disk.isFile path = true) :
    runUpstream operation repo path true git disk = (disk, .error .clearStaging) := by
  rcases Tree.isFile_iff.mp file with ⟨content, found⟩
  simp [runUpstream, runRounds, runRound, cleanIf, cleanStaging, found]

/-! ## When the loop succeeds -/

namespace Attempt

/-- The child was started, its stderr was read to the end, and it was waited for. -/
structure Ends (round : Attempt) : Prop where
  spawned : round.spawned = true
  drained : round.drained = true
  waited : round.waited = true

structure Succeeds (round : Attempt) : Prop extends Ends round where
  success : round.status.success = true

/-- The failure of an attempt that may be made again. -/
structure Retried (round : Attempt) : Prop extends Ends round where
  failed : round.status.success = false
  exited : round.status.code.isSome = true
  transient : (transientUpstreamError (stderrTail round.stderr)).isSome = true

/-- The child has made its directory, and is lost sight of. -/
structure Lost (round : Attempt) : Prop where
  spawned : round.spawned = true
  unwatched : round.drained = false ∨ round.waited = false
  made : round.written.isSome = true

/-- The staging directory can be cleared before and after the attempt. -/
structure Sweeps (round : Attempt) : Prop where
  clearing : round.clearing = none
  sweeping : round.sweeping = none

theorem Ends.not_lost (ends : round.Ends) : ¬round.Lost := by
  intro lost
  rcases lost.unwatched with undrained | unwaited
  · rw [ends.drained] at undrained
    cases undrained
  · rw [ends.waited] at unwaited
    cases unwaited

theorem get?_leaves (notRoot : path ≠ []) (made : round.written.isSome = true) :
    (round.leaves path disk).get? path = some .dir := by
  rcases Option.isSome_iff_exists.mp made with ⟨written, isWritten⟩
  simp [leaves, isWritten, Tree.get?_graft notRoot]

theorem exists_leaves_iff (notRoot : path ≠ []) (absent : disk.get? path = none) :
    (round.leaves path disk).Exists path ↔ round.written.isSome = true := by
  cases written : round.written with
  | none => simp [leaves, written, Tree.Exists, absent]
  | some left => simp [leaves, written, Tree.Exists, Tree.get?_graft notRoot]

end Attempt

/-- An attempt succeeds, and those before it fail in such a way that there is another one. -/
def Delivers (git : ℕ → Attempt) : Prop :=
  ∃ m ≤ maxUpstreamRetries, (git m).Succeeds ∧ ∀ k < m, (git k).Retried

theorem cleanIf_of_not_file {staging : Bool} (notRoot : path ≠ [])
    (notFile : staging = true → disk.isFile path = false) :
    ∃ bare, cleanIf staging disk path none = (bare, .ok ()) ∧
      (staging = true → bare.get? path = none) := by
  cases staging with
  | false => exact ⟨disk, rfl, by simp⟩
  | true =>
      simp only [cleanIf, if_true, cleanStaging]
      cases found : disk.get? path with
      | none => exact ⟨disk, rfl, fun _ => found⟩
      | some node =>
          cases node with
          | dir => exact ⟨disk.remove path, rfl, fun _ => by simp [Tree.get?_remove notRoot]⟩
          | file content => simp [Tree.isFile, found] at notFile

/-- What a round does in a staging directory that can be cleared, or in a mirror. -/
inductive RoundResult (staging : Bool) (round : Attempt) (attempt : ℕ) (path : Path) :
    Disk × Option (Except UpstreamError Unit) → Prop
  | success (disk : Disk) (succeeds : round.Succeeds) (isDir : disk.get? path = some .dir) :
      RoundResult staging round attempt path (disk, some (.ok ()))
  | again (disk : Disk) (retried : round.Retried) (more : attempt < maxUpstreamRetries)
      (absent : staging = true → disk.get? path = none) :
      RoundResult staging round attempt path (disk, none)
  | failure (disk : Disk) (error : UpstreamError) (notSucceeds : ¬round.Succeeds)
      (final : round.Retried → maxUpstreamRetries ≤ attempt)
      (left : staging = true → (disk.Exists path ↔ round.Lost)) :
      RoundResult staging round attempt path (disk, some (.error error))

theorem runChild_result {staging : Bool} (notRoot : path ≠ []) (sweeps : round.Sweeps)
    (absent : staging = true → disk.get? path = none) :
    RoundResult staging round attempt path
      (runChild operation repo path staging round attempt disk) := by
  unfold runChild
  split
  · rename_i unspawned
    refine .failure _ _ (fun succeeds => by simp [succeeds.spawned] at unspawned)
      (fun retried => by simp [retried.spawned] at unspawned) ?_
    intro isStaging
    simp only [Tree.Exists, absent isStaging, ne_eq, not_true_eq_false, false_iff]
    intro lost
    simp [lost.spawned] at unspawned
  rename_i spawned
  rw [Bool.not_eq_false] at spawned
  have left (unwatched : round.drained = false ∨ round.waited = false) (isStaging : staging = true) :
      (round.leaves path disk).Exists path ↔ round.Lost := by
    rw [Attempt.exists_leaves_iff notRoot (absent isStaging)]
    exact ⟨fun made => ⟨spawned, unwatched, made⟩, fun lost => lost.made⟩
  split
  · rename_i undrained
    exact .failure _ _ (fun succeeds => by simp [succeeds.drained] at undrained)
      (fun retried => by simp [retried.drained] at undrained) (left (Or.inl undrained))
  split
  · rename_i unwaited
    exact .failure _ _ (fun succeeds => by simp [succeeds.waited] at unwaited)
      (fun retried => by simp [retried.waited] at unwaited) (left (Or.inr unwaited))
  rename_i drained waited
  rw [Bool.not_eq_false] at drained waited
  have ends : round.Ends := ⟨spawned, drained, waited⟩
  split
  · rename_i success
    exact .success _ ⟨ends, success⟩ (Attempt.get?_leaves notRoot (round.complete success))
  rename_i failed
  rw [Bool.not_eq_true] at failed
  have notSucceeds : ¬round.Succeeds := by
    intro succeeds
    rw [succeeds.success] at failed
    cases failed
  have notFile : staging = true → (round.leaves path disk).isFile path = false := by
    intro isStaging
    cases written : round.written with
    | none => simp [Attempt.leaves, written, Tree.isFile, absent isStaging]
    | some sub => simp [Attempt.leaves, written, Tree.isFile, Tree.get?_graft notRoot]
  rcases cleanIf_of_not_file notRoot notFile with ⟨bare, swept, gone⟩
  rw [sweeps.sweeping, swept]
  simp only
  split
  · rename_i again
    have more : attempt < maxUpstreamRetries := by
      simpa [maxUpstreamRetries] using again.2.2
    exact .again _ ⟨ends, failed, again.2.1, again.1⟩ more gone
  · rename_i final
    refine .failure _ _ notSucceeds ?_ ?_
    · intro retried
      by_contra more
      apply final
      refine ⟨retried.transient, retried.exited, ?_⟩
      simpa [maxUpstreamRetries] using more
    · intro isStaging
      simp only [Tree.Exists, gone isStaging, ne_eq, not_true_eq_false, false_iff]
      exact ends.not_lost

theorem runRound_result {staging : Bool} (notRoot : path ≠ []) (sweeps : round.Sweeps)
    (notFile : staging = true → disk.isFile path = false) :
    RoundResult staging round attempt path
      (runRound operation repo path staging round attempt disk) := by
  rcases cleanIf_of_not_file notRoot notFile with ⟨bare, cleared, absent⟩
  rw [runRound, sweeps.clearing, cleared]
  exact runChild_result notRoot sweeps absent

/-- How the loop ends with its attempt `m`. -/
inductive LoopResult (staging : Bool) (git : ℕ → Attempt) (path : Path) (m : ℕ) :
    Disk × Except UpstreamError Unit → Prop
  | success (disk : Disk) (succeeds : (git m).Succeeds) (isDir : disk.get? path = some .dir) :
      LoopResult staging git path m (disk, .ok ())
  | failure (disk : Disk) (error : UpstreamError) (notSucceeds : ¬(git m).Succeeds)
      (final : (git m).Retried → maxUpstreamRetries ≤ m)
      (left : staging = true → (disk.Exists path ↔ (git m).Lost)) :
      LoopResult staging git path m (disk, .error error)

/-- The loop, from an attempt on after which `rounds` attempts are left. -/
theorem runRounds_result {staging : Bool} (notRoot : path ≠ []) (sweeps : ∀ n, (git n).Sweeps)
    (rounds : ℕ) (granted : rounds + attempt = maxUpstreamRetries + 1)
    (within : attempt ≤ maxUpstreamRetries)
    (notFile : staging = true → disk.isFile path = false) :
    ∃ m, attempt ≤ m ∧ m ≤ maxUpstreamRetries ∧ (∀ k, attempt ≤ k → k < m → (git k).Retried) ∧
      LoopResult staging git path m
        (runRounds operation repo path staging git rounds attempt disk) := by
  induction rounds generalizing disk attempt with
  | zero => omega
  | succ rounds ih =>
      have result : RoundResult staging (git attempt) attempt path
          (runRound operation repo path staging (git attempt) attempt disk) :=
        runRound_result notRoot (sweeps attempt) notFile
      rw [runRounds]
      generalize runRound operation repo path staging (git attempt) attempt disk = run at result
      cases result with
      | success disk succeeds isDir =>
          exact ⟨attempt, le_rfl, within, fun k least early => absurd least (Nat.not_le.mpr early),
            .success disk succeeds isDir⟩
      | again disk retried more absent =>
          have granted' : rounds + (attempt + 1) = maxUpstreamRetries + 1 := by omega
          have notFile' : staging = true → disk.isFile path = false := by
            intro isStaging
            simp [Tree.isFile, absent isStaging]
          rcases ih granted' more notFile' with ⟨m, least, most, before, ended⟩
          refine ⟨m, by omega, most, ?_, ended⟩
          intro k kLeast kEarly
          by_cases isFirst : k = attempt
          · rw [isFirst]
            exact retried
          · exact before k (by omega) kEarly
      | failure disk error notSucceeds final left =>
          exact ⟨attempt, le_rfl, within, fun k least early => absurd least (Nat.not_le.mpr early),
            .failure disk error notSucceeds final left⟩

theorem runUpstream_result {staging : Bool} (notRoot : path ≠ []) (sweeps : ∀ n, (git n).Sweeps)
    (notFile : staging = true → disk.isFile path = false) :
    ∃ m ≤ maxUpstreamRetries, (∀ k < m, (git k).Retried) ∧
      LoopResult staging git path m (runUpstream operation repo path staging git disk) := by
  have loop : ∃ m, 0 ≤ m ∧ m ≤ maxUpstreamRetries ∧ (∀ k, 0 ≤ k → k < m → (git k).Retried) ∧
      LoopResult staging git path m (runRounds operation repo path staging git
        (maxUpstreamRetries + 1) 0 disk) :=
    runRounds_result notRoot sweeps _ rfl (Nat.zero_le _) notFile
  rcases loop with ⟨m, _, most, before, ended⟩
  exact ⟨m, most, fun k early => before k (Nat.zero_le k) early, ended⟩

theorem Attempt.Retried.not_succeeds (retried : round.Retried) : ¬round.Succeeds := by
  intro succeeds
  have failed := retried.failed
  rw [succeeds.success] at failed
  cases failed

/-- There is only one attempt that a loop can end with. -/
theorem last_unique {m n : ℕ} (mBefore : ∀ k < m, (git k).Retried)
    (nBefore : ∀ k < n, (git k).Retried) (mMost : m ≤ maxUpstreamRetries)
    (nMost : n ≤ maxUpstreamRetries) (mFinal : (git m).Retried → maxUpstreamRetries ≤ m)
    (nFinal : (git n).Retried → maxUpstreamRetries ≤ n) : m = n := by
  rcases Nat.lt_trichotomy m n with early | same | late
  · have most := mFinal (nBefore m early)
    omega
  · exact same
  · have most := nFinal (mBefore n late)
    omega

theorem runUpstream_ok_iff {staging : Bool} (notRoot : path ≠ [])
    (sweeps : ∀ n, (git n).Sweeps) (notFile : staging = true → disk.isFile path = false) :
    (runUpstream operation repo path staging git disk).2 = .ok () ↔ Delivers git := by
  rcases runUpstream_result notRoot sweeps notFile with ⟨m, most, before, ended⟩
  generalize runUpstream operation repo path staging git disk = run at ended
  cases ended with
  | success disk succeeds isDir => exact iff_of_true rfl ⟨m, most, succeeds, before⟩
  | failure disk error notSucceeds final left =>
      refine iff_of_false (by simp) ?_
      rintro ⟨n, nMost, succeeds, nBefore⟩
      apply notSucceeds
      rw [last_unique before nBefore most nMost final
        fun retried => absurd succeeds retried.not_succeeds]
      exact succeeds

theorem get?_of_runUpstream {staging : Bool} (notRoot : path ≠ [])
    (sweeps : ∀ n, (git n).Sweeps) (notFile : staging = true → disk.isFile path = false)
    (ran : runUpstream operation repo path staging git disk = (after, .ok ())) :
    after.get? path = some .dir := by
  rcases runUpstream_result notRoot sweeps notFile with ⟨m, _, _, ended⟩
  rw [ran] at ended
  cases ended with
  | success disk succeeds isDir => exact isDir

/-- The file system does everything that it is asked for. -/
structure Surroundings.Steady (env : Surroundings) : Prop where
  mkdir : env.mkdirFailure = none
  rename : env.renameFails = false
  sweeps : ∀ n, (env.git n).Sweeps

end GitCacheProxy.Git
