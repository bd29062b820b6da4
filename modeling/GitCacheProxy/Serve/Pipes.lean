import GitCacheProxy.Foundation.TransitionSystem
import GitCacheProxy.Git.Upstream

/-!
# The pipes of upload-pack

`upload_pack_rpc` writes the whole request body to the child's stdin and only
then hands out its stdout, which the client drains from then on.  A child is any
program that reads and writes; a pipe holds a bounded number of bytes.

`Does` is what a child does when its pipes never make it wait.  Whether the two
sides can block each other is read off from that alone: the proxy is stuck with
the rest of the body exactly if the child wants to write more than its stdout
holds while more of the body is left than its stdin holds.
-/

namespace GitCacheProxy.Serve.Pipes

open TransitionSystem Git

universe u

/-- What a program does next. -/
inductive Action (S : Type u) where
  /-- read up to `more + 1` bytes; nothing is read at the end of input only -/
  | read (more : ℕ) (got : Bytes → S)
  | write (byte : UInt8) (after : S)
  | exit

/-- A program, by its states. -/
structure Program (S : Type u) where
  start : S
  next : S → Action S

variable {S : Type u}

/-- From here on, at the end of its input, the program comes to an exit. -/
inductive Program.Exits (program : Program S) : S → Prop where
  | exit {state : S} (exits : program.next state = .exit) : program.Exits state
  | write {state after : S} {byte : UInt8} (writes : program.next state = .write byte after)
      (later : program.Exits after) : program.Exits state
  | read {state : S} {more : ℕ} {got : Bytes → S} (reads : program.next state = .read more got)
      (later : program.Exits (got [])) : program.Exits state

/-- The program exits after end of input. -/
def Program.ExitsAfterEnd (program : Program S) : Prop :=
  ∀ state more got, program.next state = .read more got → program.Exits (got [])

/-- Where `upload_pack_rpc` is, and the response after it. -/
inductive Proxy where
  /-- in `write_all`, with these bytes left -/
  | writing (left : Bytes)
  /-- stdin is dropped, and the client drains the stream -/
  | streaming
  /-- the write failed: the child is gone -/
  | failed
  | finished

structure State (S : Type u) where
  proxy : Proxy
  stdin : Bytes
  stdout : Bytes
  /-- nothing once the child has exited -/
  child : Option S

/-- One action of the proxy, its client or the child. -/
inductive Step (program : Program S) (stdinCap stdoutCap : ℕ) : State S → State S → Prop where
  | writeSome (stdin stdout chunk left : Bytes) (state : S) (notNone : chunk ≠ [])
      (fits : (stdin ++ chunk).length ≤ stdinCap) :
      Step program stdinCap stdoutCap ⟨.writing (chunk ++ left), stdin, stdout, some state⟩
        ⟨.writing left, stdin ++ chunk, stdout, some state⟩
  | brokenPipe (stdin stdout left : Bytes) (notNone : left ≠ []) :
      Step program stdinCap stdoutCap ⟨.writing left, stdin, stdout, none⟩
        ⟨.failed, stdin, stdout, none⟩
  -- `drop(stdin)`
  | written (stdin stdout : Bytes) (child : Option S) :
      Step program stdinCap stdoutCap ⟨.writing [], stdin, stdout, child⟩
        ⟨.streaming, stdin, stdout, child⟩
  | drain (stdin chunk stdout : Bytes) (child : Option S) (notNone : chunk ≠ []) :
      Step program stdinCap stdoutCap ⟨.streaming, stdin, chunk ++ stdout, child⟩
        ⟨.streaming, stdin, stdout, child⟩
  | endOfPack (stdin : Bytes) :
      Step program stdinCap stdoutCap ⟨.streaming, stdin, [], none⟩ ⟨.finished, stdin, [], none⟩
  | childReads (proxy : Proxy) (chunk stdin stdout : Bytes) (state : S) (more : ℕ)
      (got : Bytes → S) (reads : program.next state = .read more got) (notNone : chunk ≠ [])
      (within : chunk.length ≤ more + 1) :
      Step program stdinCap stdoutCap ⟨proxy, chunk ++ stdin, stdout, some state⟩
        ⟨proxy, stdin, stdout, some (got chunk)⟩
  | childReadsEnd (proxy : Proxy) (stdout : Bytes) (state : S) (more : ℕ) (got : Bytes → S)
      (reads : program.next state = .read more got) (dropped : ∀ left, proxy ≠ .writing left) :
      Step program stdinCap stdoutCap ⟨proxy, [], stdout, some state⟩
        ⟨proxy, [], stdout, some (got [])⟩
  | childWrites (proxy : Proxy) (stdin stdout : Bytes) (state after : S) (byte : UInt8)
      (writes : program.next state = .write byte after) (fits : stdout.length < stdoutCap) :
      Step program stdinCap stdoutCap ⟨proxy, stdin, stdout, some state⟩
        ⟨proxy, stdin, stdout ++ [byte], some after⟩
  | childExits (proxy : Proxy) (stdin stdout : Bytes) (state : S)
      (exits : program.next state = .exit) :
      Step program stdinCap stdoutCap ⟨proxy, stdin, stdout, some state⟩
        ⟨proxy, stdin, stdout, none⟩

/-- The child is spawned, and `write_all` begins. -/
def spawned (program : Program S) (body : Bytes) : State S :=
  ⟨.writing body, [], [], some program.start⟩

/-- The proxy is blocked writing the rest of the body, and the child writing what nobody reads. -/
inductive Deadlocked (program : Program S) (stdinCap stdoutCap : ℕ) : State S → Prop where
  | both (left stdin stdout : Bytes) (state after : S) (byte : UInt8) (rest : left ≠ [])
      (stdinFull : stdinCap ≤ stdin.length) (writes : program.next state = .write byte after)
      (stdoutFull : stdoutCap ≤ stdout.length) :
      Deadlocked program stdinCap stdoutCap ⟨.writing left, stdin, stdout, some state⟩

/-- No run gets the two sides to wait for each other. -/
def DeadlockFree (program : Program S) (stdinCap stdoutCap : ℕ) (body : Bytes) : Prop :=
  ∀ state, Reachable (· = spawned program body) (Step program stdinCap stdoutCap) state →
    ¬Deadlocked program stdinCap stdoutCap state

/-- What the program may do without ever waiting: it has read `seen` bytes of the body, at most
`stdinCap` at a time, and written `count` bytes. -/
inductive Does (program : Program S) (stdinCap : ℕ) (body : Bytes) : ℕ → ℕ → S → Prop where
  | start : Does program stdinCap body 0 0 program.start
  | read {seen count more : ℕ} {state : S} {got : Bytes → S} {chunk : Bytes}
      (before : Does program stdinCap body seen count state)
      (reads : program.next state = .read more got) (notNone : chunk ≠ [])
      (within : chunk.length ≤ more + 1) (atOnce : chunk.length ≤ stdinCap)
      (isNext : chunk <+: body.drop seen) :
      Does program stdinCap body (seen + chunk.length) count (got chunk)
  | write {seen count : ℕ} {state after : S} {byte : UInt8}
      (before : Does program stdinCap body seen count state)
      (writes : program.next state = .write byte after) :
      Does program stdinCap body seen (count + 1) after

/-- The program fills its stdout and wants to go on while more of the body is left than its
stdin holds. -/
def Clogs (program : Program S) (stdinCap stdoutCap : ℕ) (body : Bytes) : Prop :=
  ∃ seen state byte after, Does program stdinCap body seen stdoutCap state ∧
    program.next state = .write byte after ∧ seen + stdinCap < body.length

variable {program : Program S} {stdinCap stdoutCap : ℕ} {body : Bytes}

theorem Deadlocked.stuck {state state' : State S}
    (deadlocked : Deadlocked program stdinCap stdoutCap state) :
    ¬Step program stdinCap stdoutCap state state' := by
  intro taken
  cases deadlocked with
  | both left stdin stdout child after byte rest stdinFull writes stdoutFull =>
      cases taken with
      | writeSome _ _ chunk _ _ notNone fits =>
          have more := List.length_pos_iff.mpr notNone
          rw [List.length_append] at fits
          omega
      | written => exact rest rfl
      | childReads _ _ _ _ _ _ _ reads =>
          rw [writes] at reads
          cases reads
      | childReadsEnd _ _ _ _ _ _ dropped => exact dropped left rfl
      | childWrites _ _ _ _ _ _ _ fits => omega
      | childExits _ _ _ _ exits =>
          rw [writes] at exits
          cases exits

/-! ## What a run does before the whole body is written -/

/-- Until then nothing leaves stdout, so what the child has done is all in the state. -/
structure Inv (program : Program S) (stdinCap stdoutCap : ℕ) (body : Bytes) (state : State S) :
    Prop where
  stdin : state.stdin.length ≤ stdinCap
  stdout : state.stdout.length ≤ stdoutCap
  does : ∀ left child, state.proxy = .writing left → state.child = some child →
    ∃ seen, Does program stdinCap body seen state.stdout.length child ∧
      body.drop seen = state.stdin ++ left

theorem Inv.step {state state' : State S} (inv : Inv program stdinCap stdoutCap body state)
    (taken : Step program stdinCap stdoutCap state state') :
    Inv program stdinCap stdoutCap body state' := by
  rcases inv with ⟨stdinFits, stdoutFits, does⟩
  cases taken with
  | writeSome stdin stdout chunk left child notNone fits =>
      refine ⟨fits, ‹_›, ?_⟩
      rintro _ _ ⟨⟩ ⟨⟩
      rcases does _ _ rfl rfl with ⟨seen, done, rest⟩
      exact ⟨seen, done, by simpa using rest⟩
  | brokenPipe =>
      refine ⟨‹_›, ‹_›, ?_⟩
      rintro _ _ ⟨⟩
  | written =>
      refine ⟨‹_›, ‹_›, ?_⟩
      rintro _ _ ⟨⟩
  | drain stdin chunk stdout child notNone =>
      refine ⟨‹_›, ?_, ?_⟩
      · simp only [List.length_append] at *
        omega
      · rintro _ _ ⟨⟩
  | endOfPack =>
      refine ⟨‹_›, ‹_›, ?_⟩
      rintro _ _ ⟨⟩
  | childReads proxy chunk stdin stdout child more got reads notNone within =>
      simp only [List.length_append] at stdinFits
      refine ⟨by simp only; omega, ‹_›, ?_⟩
      rintro left _ isWriting ⟨⟩
      rcases does left child isWriting rfl with ⟨seen, done, rest⟩
      rw [List.append_assoc] at rest
      refine ⟨seen + chunk.length, ?_, ?_⟩
      · apply done.read reads notNone within (by omega)
        rw [rest]
        exact List.prefix_append _ _
      · rw [← List.drop_drop, rest, List.drop_left]
  | childReadsEnd proxy stdout child more got reads dropped =>
      refine ⟨‹_›, ‹_›, ?_⟩
      intro left _ isWriting
      exact absurd isWriting (dropped left)
  | childWrites proxy stdin stdout child after byte writes fits =>
      have filled : (stdout ++ [byte]).length ≤ stdoutCap := by
        rw [List.length_append, List.length_singleton]
        omega
      refine ⟨‹_›, filled, ?_⟩
      rintro left _ isWriting ⟨⟩
      rcases does left child isWriting rfl with ⟨seen, done, rest⟩
      refine ⟨seen, ?_, rest⟩
      rw [List.length_append, List.length_singleton]
      exact done.write writes
  | childExits proxy stdin stdout child exits =>
      refine ⟨‹_›, ‹_›, ?_⟩
      rintro _ _ _ ⟨⟩

theorem inv_of_reachable {state : State S}
    (reached : Reachable (· = spawned program body) (Step program stdinCap stdoutCap) state) :
    Inv program stdinCap stdoutCap body state := by
  apply reached.invariant
  · rintro state rfl
    refine ⟨Nat.zero_le _, Nat.zero_le _, ?_⟩
    rintro _ _ ⟨⟩ ⟨⟩
    exact ⟨0, .start, rfl⟩
  · intro state state' inv taken
    exact inv.step taken

theorem Inv.clogs {state : State S} (inv : Inv program stdinCap stdoutCap body state)
    (deadlocked : Deadlocked program stdinCap stdoutCap state) :
    Clogs program stdinCap stdoutCap body := by
  rcases inv with ⟨_, stdout, does⟩
  cases deadlocked with
  | both left stdin _ child after byte notNone stdinFull writes stdoutFull =>
      rcases does left child rfl rfl with ⟨seen, done, rest⟩
      have full := Nat.le_antisymm stdout stdoutFull
      simp only at full done rest
      rw [full] at done
      refine ⟨seen, child, byte, after, done, writes, ?_⟩
      have lengths := congrArg List.length rest
      have more := List.length_pos_iff.mpr notNone
      rw [List.length_drop, List.length_append] at lengths
      omega

/-! ## A run that does what the child may do -/

/-- The proxy writes just what the child reads next. -/
theorem Does.reachable {seen count : ℕ} {child : S}
    (does : Does program stdinCap body seen count child) (room : count ≤ stdoutCap) :
    ∃ stdout : Bytes, stdout.length = count ∧
      Reachable (· = spawned program body) (Step program stdinCap stdoutCap)
        ⟨.writing (body.drop seen), [], stdout, some child⟩ := by
  induction does with
  | start => exact ⟨[], rfl, .start rfl⟩
  | read before reads notNone within atOnce isNext ih =>
      rename_i seen count more child got chunk
      rcases ih room with ⟨stdout, length, reached⟩
      rcases isNext with ⟨left, next⟩
      refine ⟨stdout, length, ?_⟩
      rw [← List.drop_drop, ← next, List.drop_left]
      rw [← next] at reached
      have written := reached.next (.writeSome [] stdout chunk left child notNone atOnce)
      have read : Step program stdinCap stdoutCap ⟨.writing left, chunk ++ [], stdout, some child⟩
          ⟨.writing left, [], stdout, some (got chunk)⟩ :=
        .childReads _ _ _ _ _ _ _ reads notNone within
      rw [List.append_nil] at read
      exact written.next read
  | write before writes ih =>
      rename_i seen count child after byte
      rcases ih (by omega) with ⟨stdout, length, reached⟩
      refine ⟨stdout ++ [byte], by simp [length], ?_⟩
      exact reached.next (.childWrites _ _ _ _ _ _ writes (by omega))

theorem exists_deadlocked (clogs : Clogs program stdinCap stdoutCap body) :
    ∃ state, Reachable (· = spawned program body) (Step program stdinCap stdoutCap) state ∧
      Deadlocked program stdinCap stdoutCap state := by
  rcases clogs with ⟨seen, child, byte, after, does, writes, more⟩
  rcases does.reachable (Nat.le_refl stdoutCap) with ⟨stdout, length, reached⟩
  have enough : stdinCap < (body.drop seen).length := by
    rw [List.length_drop]
    omega
  have rest : (body.drop seen).drop stdinCap ≠ [] := by
    apply List.ne_nil_of_length_pos
    rw [List.length_drop]
    omega
  have full : ((body.drop seen).take stdinCap).length = stdinCap := by
    rw [List.length_take]
    omega
  refine ⟨_, ?_, .both _ ((body.drop seen).take stdinCap) stdout child _ _ rest full.ge writes
    length.ge⟩
  -- the proxy fills stdin, if there is anything to fill
  rw [← List.take_append_drop stdinCap (body.drop seen)] at reached
  by_cases noRoom : (body.drop seen).take stdinCap = []
  · rw [noRoom] at reached ⊢
    exact reached
  · exact reached.next (.writeSome [] _ _ _ _ noRoom full.le)

/-- The two sides can wait for each other exactly if the child would write more than its stdout
holds while more of the body is left than its stdin holds. -/
theorem deadlockFree_iff (program : Program S) (stdinCap stdoutCap : ℕ) (body : Bytes) :
    DeadlockFree program stdinCap stdoutCap body ↔ ¬Clogs program stdinCap stdoutCap body := by
  constructor
  · intro free clogs
    rcases exists_deadlocked clogs with ⟨state, reached, deadlocked⟩
    exact free state reached deadlocked
  · intro flows state reached deadlocked
    exact flows ((inv_of_reachable reached).clogs deadlocked)

/-- A body that stdin holds is written without waiting for anybody. -/
theorem deadlockFree_of_small (program : Program S) (stdoutCap : ℕ)
    (small : body.length ≤ stdinCap) : DeadlockFree program stdinCap stdoutCap body := by
  intro state reached deadlocked
  rcases (inv_of_reachable reached).clogs deadlocked with ⟨seen, _, _, _, _, _, more⟩
  omega

/-! A program that acknowledges every byte at once, as upload-pack does with the haves. -/

inductive Echo where
  | reading
  | answering (byte : UInt8)
  | done

def echo : Program Echo where
  start := .reading
  next
    | .reading => .read 0 fun
        | [] => .done
        | byte :: _ => .answering byte
    | .answering byte => .write byte .reading
    | .done => .exit

theorem echo_exitsAfterEnd : echo.ExitsAfterEnd := by
  intro state more got reads
  cases state with
  | reading =>
      cases reads
      exact .exit rfl
  | answering byte => cases reads
  | done => cases reads

theorem echo_reads {body : Bytes} {stdinCap count : ℕ} (room : 0 < stdinCap)
    (before : Does echo stdinCap body count count .reading) (more : count < body.length) :
    Does echo stdinCap body (count + 1) count (.answering body[count]) := by
  have next : body.drop count = [body[count]] ++ body.drop (count + 1) :=
    List.drop_eq_getElem_cons more
  apply before.read rfl (List.cons_ne_nil _ []) (Nat.le_refl _) room
  rw [next]
  exact List.prefix_append _ _

/-- It has written a byte for each one it has read. -/
theorem does_echo {body : Bytes} {stdinCap : ℕ} (room : 0 < stdinCap) {count : ℕ}
    (within : count ≤ body.length) : Does echo stdinCap body count count .reading := by
  induction count with
  | zero => exact .start
  | succ count ih => exact (echo_reads room (ih (by omega)) within).write rfl

/-- Pipes of 64 KiB, and a body a little larger than both. -/
theorem echo_not_deadlockFree :
    echo.ExitsAfterEnd ∧
      ¬DeadlockFree echo 65536 65536 (List.replicate (65536 + 65536 + 2) 48) := by
  refine ⟨echo_exitsAfterEnd, ?_⟩
  have room : 0 < 65536 := by omega
  have length : (List.replicate (65536 + 65536 + 2) (48 : UInt8)).length = 65536 + 65536 + 2 :=
    List.length_replicate
  have echoed : Does echo 65536 (List.replicate (65536 + 65536 + 2) 48) 65536 65536 .reading :=
    does_echo room (by omega)
  have clogs : Clogs echo 65536 65536 (List.replicate (65536 + 65536 + 2) 48) :=
    ⟨65536 + 1, _, _, _, echo_reads room echoed (by omega), rfl, by omega⟩
  rcases exists_deadlocked clogs with ⟨state, reached, deadlocked⟩
  intro free
  exact free state reached deadlocked

end GitCacheProxy.Serve.Pipes
