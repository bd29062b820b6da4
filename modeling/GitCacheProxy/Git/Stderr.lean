import GitCacheProxy.Foundation.Retained
import GitCacheProxy.Git.Upstream

/-!
# Reading the stderr of upstream git

The loop in `run_upstream` that drains the pipe.  A read writes to the front of a buffer and leaves
the rest of it as it was; what was read is appended to `tail`, which is then cut to its end.  An
index out of bounds or a subtraction below zero is a panic.

On the pieces of a stream the loop does not panic and never holds more than one buffer above its cap
(`Loop.Sound`).  At the end of the file it is left with the end of the stream (`drain_division`),
which is all that the retry policy looks at (`runUpstream_read`).
-/

namespace GitCacheProxy.Git

/-! ## The loop -/

/-- The size of the buffer for a read. -/
def chunkSize : ℕ := 4096

/-- What one `read` returns; no bytes are the end of the file. -/
inductive Read where
  | bytes (read : Bytes)
  | failed

/-- The variables of the loop. -/
structure Loop where
  tail : Bytes
  chunk : Bytes
  /-- the most bytes that were in `tail`; history -/
  held : ℕ

/-- How the loop ends, or where it is when nothing more has been written yet. -/
inductive Drained where
  | waiting (state : Loop)
  | eof (state : Loop)
  | failed
  | panicked

/-- `a - b` on `usize`. -/
def checkedSub (a b : ℕ) : Option ℕ := if b ≤ a then some (a - b) else none

/-- `&chunk[..count]` -/
def sliceTo (chunk : Bytes) (count : ℕ) : Option Bytes :=
  if count ≤ chunk.length then some (chunk.take count) else none

/-- `tail.drain(..bound)`; what is drained is dropped. -/
def drainTo (tail : Bytes) (bound : ℕ) : Option Bytes :=
  if bound ≤ tail.length then some (tail.drop bound) else none

namespace Loop

def new : Loop := ⟨[], List.replicate chunkSize 0, 0⟩

/-- The buffer after a read. -/
def fill (state : Loop) (read : Bytes) : Loop :=
  { state with chunk := read ++ state.chunk.drop read.length }

/-- `tail.extend_from_slice(&chunk[..count])` -/
def extend (state : Loop) (count : ℕ) : Option Loop :=
  (sliceTo state.chunk count).map fun slice =>
    { state with
      tail := state.tail ++ slice
      held := max state.held (state.tail ++ slice).length }

def truncate (state : Loop) : Option Loop :=
  if maxUpstreamStderrBytes < state.tail.length then
    (checkedSub state.tail.length maxUpstreamStderrBytes).bind fun bound =>
      (drainTo state.tail bound).map fun tail => { state with tail := tail }
  else some state

end Loop

/-- The loop, on what its reads return. -/
def drain : Loop → List Read → Drained
  | state, [] => .waiting state
  | _, .failed :: _ => .failed
  | state, .bytes read :: reads =>
      let count := read.length
      if count = 0 then .eof (state.fill read)
      else
        match ((state.fill read).extend count).bind Loop.truncate with
        | none => .panicked
        | some state => drain state reads

/-- The diagnosis of what the loop has retained. -/
def diagnose (reads : List Read) : Option (Option Text) :=
  match drain .new reads with
  | .eof state => some (transientUpstreamError state.tail)
  | _ => none

/-- A stream in the pieces in which it is read. -/
structure Division (stream : Bytes) where
  chunks : List Bytes
  whole : chunks.flatten = stream
  nonempty : ∀ chunk ∈ chunks, chunk ≠ []
  fits : ∀ chunk ∈ chunks, chunk.length ≤ chunkSize

/-- Every stream can be read byte by byte. -/
instance (stream : Bytes) : Inhabited (Division stream) where
  default :=
    { chunks := stream.map fun byte => [byte]
      whole := by rw [← List.flatMap_def, List.flatMap_singleton']
      nonempty := by simp
      fits := by simp [chunkSize] }

/-- The reads of a stream up to the end of the file. -/
def Division.reads {stream : Bytes} (division : Division stream) : List Read :=
  division.chunks.map .bytes ++ [.bytes []]

/-! ## One turn -/

namespace Loop

variable {state : Loop} {read : Bytes}

/-- What one turn does to the variables. -/
def take (state : Loop) (read : Bytes) : Loop where
  tail := Retained.retain maxUpstreamStderrBytes state.tail read
  chunk := read ++ state.chunk.drop read.length
  held := max state.held (state.tail.length + read.length)

/-- The buffer keeps its size, and `tail` its cap. -/
structure Sound (state : Loop) : Prop where
  chunk : state.chunk.length = chunkSize
  tail : state.tail.length ≤ maxUpstreamStderrBytes
  held : state.held ≤ maxUpstreamStderrBytes + chunkSize

theorem sound_new : new.Sound where
  chunk := List.length_replicate
  tail := Nat.zero_le _
  held := Nat.zero_le _

theorem Sound.take (sound : state.Sound) (fits : read.length ≤ chunkSize) :
    (state.take read).Sound where
  chunk := by
    have size := sound.chunk
    simp only [Loop.take, List.length_append, List.length_drop]
    omega
  tail := by
    simp only [Loop.take, Retained.retain, Retained.length_rtake]
    exact Nat.min_le_right _ _
  held := by
    have cap := sound.tail
    have before := sound.held
    simp only [Loop.take]
    omega

/-- The cut is below neither end of `tail`. -/
theorem truncate_eq (state : Loop) : state.truncate =
    some { state with tail := state.tail.rtake maxUpstreamStderrBytes } := by
  rw [truncate]
  split
  · rename_i long
    have bound : state.tail.length - maxUpstreamStderrBytes ≤ state.tail.length := Nat.sub_le _ _
    rw [checkedSub, if_pos (Nat.le_of_lt long), Option.bind_some, drainTo, if_pos bound,
      Option.map_some, List.rtake]
  · rename_i short
    rw [Retained.rtake_of_length_le (Nat.le_of_not_lt short)]

theorem extend_fill (fits : read.length ≤ (state.fill read).chunk.length) :
    (state.fill read).extend read.length = some
      { tail := state.tail ++ read
        chunk := (state.fill read).chunk
        held := max state.held (state.tail ++ read).length } := by
  have slice : (state.fill read).chunk.take read.length = read := List.take_left
  rw [extend, sliceTo, if_pos fits, slice, Option.map_some]
  rfl

/-- No turn panics. -/
theorem Sound.turn (sound : state.Sound) (fits : read.length ≤ chunkSize) :
    ((state.fill read).extend read.length).bind truncate = some (state.take read) := by
  have size := (sound.take fits).chunk
  have inBuffer : read.length ≤ (state.fill read).chunk.length := by
    have filled : (state.fill read).chunk = (state.take read).chunk := rfl
    rw [filled, size]
    exact fits
  rw [extend_fill inBuffer, Option.bind_some, truncate_eq, List.length_append]
  rfl

theorem tail_foldl_take (state : Loop) (chunks : List Bytes) :
    (chunks.foldl take state).tail =
      chunks.foldl (Retained.retain maxUpstreamStderrBytes) state.tail := by
  induction chunks generalizing state with
  | nil => rfl
  | cons chunk chunks ih =>
      have kept : (state.take chunk).tail =
          Retained.retain maxUpstreamStderrBytes state.tail chunk := by rw [take]
      rw [List.foldl_cons, List.foldl_cons, ih, kept]

end Loop

/-! ## The whole stream -/

section Stream

variable {state : Loop} {stream : Bytes}

theorem drain_eof (state : Loop) (reads : List Read) :
    drain state (.bytes [] :: reads) = .eof state := by
  rfl

/-- The loop takes one piece after the other. -/
theorem drain_chunks (sound : state.Sound) {chunks : List Bytes}
    (nonempty : ∀ chunk ∈ chunks, chunk ≠ [])
    (fits : ∀ chunk ∈ chunks, chunk.length ≤ chunkSize) (reads : List Read) :
    drain state (chunks.map .bytes ++ reads) = drain (chunks.foldl Loop.take state) reads ∧
      (chunks.foldl Loop.take state).Sound := by
  induction chunks generalizing state with
  | nil => exact ⟨rfl, sound⟩
  | cons chunk chunks ih =>
      have chunkFits := fits chunk List.mem_cons_self
      have notEof : chunk.length ≠ 0 := by
        rw [ne_eq, List.length_eq_zero_iff]
        exact nonempty chunk List.mem_cons_self
      have rest := ih (sound.take chunkFits)
        (fun other otherMem => nonempty other (List.mem_cons_of_mem _ otherMem))
        (fun other otherMem => fits other (List.mem_cons_of_mem _ otherMem))
      rw [List.map_cons, List.cons_append, List.foldl_cons, drain, if_neg notEof,
        sound.turn chunkFits]
      exact rest

/-- On every division of a stream the loop ends with the end of the stream. -/
theorem drain_division (division : Division stream) :
    ∃ state, drain .new division.reads = .eof state ∧ state.Sound ∧
      state.tail = stderrTail stream := by
  rcases drain_chunks Loop.sound_new division.nonempty division.fits [.bytes []] with
    ⟨drained, sound⟩
  rw [drain_eof] at drained
  refine ⟨division.chunks.foldl Loop.take .new, drained, sound, ?_⟩
  have retained := Retained.foldl_retain maxUpstreamStderrBytes [] division.chunks
  rw [List.rtake_nil, List.nil_append, division.whole] at retained
  rw [Loop.tail_foldl_take]
  exact retained

/-- The diagnosis of a stream is that of its end, in whatever pieces it is read. -/
theorem diagnose_division (division : Division stream) :
    diagnose division.reads = some (transientUpstreamError (stderrTail stream)) := by
  rcases drain_division division with ⟨state, drained, _, tail⟩
  rw [diagnose, drained, ← tail]

/-- The division of a stream matters neither to what is left of it nor to its diagnosis. -/
theorem stderr_tail_of_division (stream : Bytes) :
    (∀ division : Division stream, ∃ state, drain .new division.reads = .eof state ∧
      state.tail <:+ stream ∧ state.tail.length = min stream.length maxUpstreamStderrBytes ∧
      state.held ≤ maxUpstreamStderrBytes + chunkSize) ∧
    ∃ reason, ∀ division : Division stream, diagnose division.reads = some reason := by
  constructor
  · intro division
    rcases drain_division division with ⟨state, drained, sound, tail⟩
    refine ⟨state, drained, ?_, ?_, sound.held⟩
    · rw [tail]
      exact Retained.rtake_suffix maxUpstreamStderrBytes stream
    · rw [tail]
      exact Retained.length_rtake maxUpstreamStderrBytes stream
  · exact ⟨transientUpstreamError (stderrTail stream), diagnose_division⟩

end Stream

/-! ## The retry loop -/

/-- A round whose stderr arrives in `reads`; there is none if the loop does not end. -/
def Attempt.read (round : Attempt) (reads : List Read) : Option Attempt :=
  match drain .new reads with
  | .eof state => some { round with drained := true, stderr := state.tail }
  | .failed => some { round with drained := false }
  | .waiting _ | .panicked => none

section Rounds

variable {operation repo : Text} {path : Path} {staging : Bool} {git read : ℕ → Attempt}
  {round : Attempt}

theorem Attempt.read_division (division : Division round.stderr) :
    round.read division.reads =
      some { round with drained := true, stderr := stderrTail round.stderr } := by
  rcases drain_division division with ⟨state, drained, _, tail⟩
  rw [read, drained, ← tail]

theorem stderrTail_stderrTail (stderr : Bytes) :
    stderrTail (stderrTail stderr) = stderrTail stderr := by
  have short : (stderrTail stderr).length ≤ maxUpstreamStderrBytes := by
    rw [stderrTail, List.length_drop]
    omega
  exact Retained.rtake_of_length_le short

/-- A round looks at no more of its stderr than the end. -/
theorem runRound_stderrTail (drained : round.drained = true) (attempt : ℕ) (disk : Disk) :
    runRound operation repo path staging
        { round with drained := true, stderr := stderrTail round.stderr } attempt disk =
      runRound operation repo path staging round attempt disk := by
  simp only [runRound, runChild, Attempt.leaves, stderrTail_stderrTail, drained]

theorem runRounds_congr
    (same : ∀ attempt disk, runRound operation repo path staging (read attempt) attempt disk =
      runRound operation repo path staging (git attempt) attempt disk)
    (rounds attempt : ℕ) (disk : Disk) :
    runRounds operation repo path staging read rounds attempt disk =
      runRounds operation repo path staging git rounds attempt disk := by
  induction rounds generalizing attempt disk with
  | zero => rfl
  | succ rounds ih =>
      rw [runRounds, runRounds, same]
      generalize runRound operation repo path staging (git attempt) attempt disk = ran
      rcases ran with ⟨disk, _ | result⟩
      · exact ih (attempt + 1) disk
      · rfl

/-- Upstream git is run in the same way whatever the pieces in which its stderr is read. -/
theorem runUpstream_read (drained : ∀ attempt, (git attempt).drained = true)
    (division : ∀ attempt, Division (git attempt).stderr)
    (reading : ∀ attempt, (git attempt).read (division attempt).reads = some (read attempt))
    (disk : Disk) :
    runUpstream operation repo path staging read disk =
      runUpstream operation repo path staging git disk := by
  apply runRounds_congr
  intro attempt disk
  have ended := reading attempt
  rw [Attempt.read_division, Option.some.injEq] at ended
  rw [← ended, runRound_stderrTail (drained attempt)]

end Rounds

end GitCacheProxy.Git
