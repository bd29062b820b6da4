import GitCacheProxy.Git.Lossy
import GitCacheProxy.Git.Pins
import GitCacheProxy.Git.PktLines
import GitCacheProxy.Serve.Pipes

/-!
# Asking which objects are missing

`missing_oids` writes the wanted object IDs to `git cat-file --batch-check` and reads its answers
at the same time.  Hence the child never waits for a pipe that nobody serves, however many objects
are asked for and however little a pipe holds: `missing_oids` returns in every run
(`missingOids_returns`), and what it returns are the wanted objects that the store lacks.
-/

namespace GitCacheProxy.Git.BatchCheck

open TransitionSystem Serve.Pipes

universe u

/-! ## The two halves and the child -/

/-- The half of `try_join!` that writes the query. -/
inductive Writer where
  | writing (left : Bytes)
  /-- stdin is dropped -/
  | written
  | failed

inductive Child (S : Type u) where
  | running (state : S)
  | exited (success : Bool)

structure State (S : Type u) where
  writer : Writer
  stdin : Bytes
  stdout : Bytes
  child : Child S
  /-- what `wait_with_output` has read so far -/
  out : Bytes

/-- One action of one of the halves or of the child. -/
inductive Step {S : Type u} (program : Program S) (stdinCap stdoutCap : ℕ) :
    State S → State S → Prop where
  | writeSome (stdin stdout out chunk left : Bytes) (state : S) (notNone : chunk ≠ [])
      (fits : (stdin ++ chunk).length ≤ stdinCap) :
      Step program stdinCap stdoutCap ⟨.writing (chunk ++ left), stdin, stdout, .running state, out⟩
        ⟨.writing left, stdin ++ chunk, stdout, .running state, out⟩
  -- `try_join!` returns, and what is left of the child is killed
  | brokenPipe (stdin stdout out left : Bytes) (success : Bool) (notNone : left ≠ []) :
      Step program stdinCap stdoutCap ⟨.writing left, stdin, stdout, .exited success, out⟩
        ⟨.failed, stdin, stdout, .exited success, out⟩
  -- `drop(stdin)`
  | close (stdin stdout out : Bytes) (child : Child S) :
      Step program stdinCap stdoutCap ⟨.writing [], stdin, stdout, child, out⟩
        ⟨.written, stdin, stdout, child, out⟩
  | readSome (writer : Writer) (stdin chunk stdout out : Bytes) (child : Child S)
      (notNone : chunk ≠ []) (notOver : writer ≠ .failed) :
      Step program stdinCap stdoutCap ⟨writer, stdin, chunk ++ stdout, child, out⟩
        ⟨writer, stdin, stdout, child, out ++ chunk⟩
  | childReads (writer : Writer) (chunk stdin stdout out : Bytes) (state : S) (more : ℕ)
      (got : Bytes → S) (reads : program.next state = .read more got) (notNone : chunk ≠ [])
      (within : chunk.length ≤ more + 1) :
      Step program stdinCap stdoutCap ⟨writer, chunk ++ stdin, stdout, .running state, out⟩
        ⟨writer, stdin, stdout, .running (got chunk), out⟩
  | childReadsEnd (stdout out : Bytes) (state : S) (more : ℕ) (got : Bytes → S)
      (reads : program.next state = .read more got) :
      Step program stdinCap stdoutCap ⟨.written, [], stdout, .running state, out⟩
        ⟨.written, [], stdout, .running (got []), out⟩
  | childWrites (writer : Writer) (stdin stdout out : Bytes) (state after : S) (byte : UInt8)
      (writes : program.next state = .write byte after) (fits : stdout.length < stdoutCap) :
      Step program stdinCap stdoutCap ⟨writer, stdin, stdout, .running state, out⟩
        ⟨writer, stdin, stdout ++ [byte], .running after, out⟩
  | childExits (writer : Writer) (stdin stdout out : Bytes) (state : S)
      (exits : program.next state = .exit) :
      Step program stdinCap stdoutCap ⟨writer, stdin, stdout, .running state, out⟩
        ⟨writer, stdin, stdout, .exited true, out⟩
  | childDies (writer : Writer) (stdin stdout out : Bytes) (state : S) :
      Step program stdinCap stdoutCap ⟨writer, stdin, stdout, .running state, out⟩
        ⟨writer, stdin, stdout, .exited false, out⟩

/-! ## What is asked and what is returned -/

/-- `str::lines` -/
def strLines (text : Text) : List Text :=
  let pieces := text.splitOn '\n'
  let ended := pieces.dropLast.map fun line => (stripSuffix line ['\r']).getD line
  ended ++ (pieces.getLast?.filter (· ≠ [])).toList

/-- Each object ID on a line of its own. -/
def query (oids : List Text) : Text := oids.flatMap (· ++ ['\n'])

/-- The child is spawned, and both halves begin. -/
def asked {S : Type u} (program : Program S) (oids : List Text) : State S :=
  ⟨.writing (utf8 (query oids)), [], [], .running program.start, []⟩

/-- What `missing_oids` returns, when it does. -/
def State.returned {S : Type u} (state : State S) : Option (Except WantError (List Text)) :=
  match state.writer, state.child with
  | .failed, _ => some (.error .catFile)
  | .written, .exited success =>
      if state.stdout ≠ [] then none
      else if success then some (.ok (missingOids (strLines (lossy state.out))))
      else some (.error .catFile)
  | _, _ => none

/-! ## Every run ends -/

section Ends

variable {S : Type u} {program : Program S} {stdinCap stdoutCap : ℕ}

/-- No run from here goes on for ever. -/
def Ends (program : Program S) (stdinCap stdoutCap : ℕ) : State S → Prop :=
  Acc fun later now => Step program stdinCap stdoutCap now later

/-- The bytes that the child has not read. -/
def unread : Writer → Bytes → ℕ
  | .writing left, stdin => left.length + stdin.length
  | _, stdin => stdin.length

/-- What the halves can do without the child. -/
def work : Writer → Bytes → ℕ
  | .writing left, stdout => left.length + 1 + stdout.length
  | _, stdout => stdout.length

theorem ends_exited (success : Bool) (fuel : ℕ) {writer : Writer} {stdin stdout out : Bytes}
    (enough : work writer stdout ≤ fuel) :
    Ends program stdinCap stdoutCap ⟨writer, stdin, stdout, .exited success, out⟩ := by
  induction fuel generalizing writer stdin stdout out with
  | zero =>
      constructor
      intro next taken
      cases taken with
      | brokenPipe => simp [work] at enough
      | close => simp [work] at enough
      | readSome _ _ chunk _ _ _ notNone =>
          have more := List.length_pos_iff.mpr notNone
          cases writer <;> simp only [work, List.length_append] at enough <;> omega
  | succ fuel ih =>
      constructor
      intro next taken
      cases taken with
      | brokenPipe =>
          apply ih
          simp only [work] at enough ⊢
          omega
      | close =>
          apply ih
          simp only [work] at enough ⊢
          omega
      | readSome _ _ chunk _ _ _ notNone =>
          have more := List.length_pos_iff.mpr notNone
          apply ih
          cases writer <;> simp only [work, List.length_append] at enough ⊢ <;> omega

/-- Whatever the halves do in between, it is the child's turn at last. -/
theorem ends_running {child : S} {n : ℕ}
    (afterRead : ∀ more got, program.next child = .read more got → ∀ chunk,
      ∀ writer stdin stdout out, unread writer stdin < n →
        Ends program stdinCap stdoutCap ⟨writer, stdin, stdout, .running (got chunk), out⟩)
    (afterEnd : ∀ more got, program.next child = .read more got →
      ∀ writer stdin stdout out, unread writer stdin ≤ n →
        Ends program stdinCap stdoutCap ⟨writer, stdin, stdout, .running (got []), out⟩)
    (afterWrite : ∀ byte after, program.next child = .write byte after →
      ∀ writer stdin stdout out, unread writer stdin ≤ n →
        Ends program stdinCap stdoutCap ⟨writer, stdin, stdout, .running after, out⟩)
    (fuel : ℕ) {writer : Writer} {stdin stdout out : Bytes}
    (left : unread writer stdin ≤ n) (enough : work writer stdout ≤ fuel) :
    Ends program stdinCap stdoutCap ⟨writer, stdin, stdout, .running child, out⟩ := by
  induction fuel using Nat.strong_induction_on generalizing writer stdin stdout out with
  | _ fuel ih =>
  constructor
  intro next taken
  cases taken with
  | writeSome _ _ _ chunk later _ notNone =>
      have more := List.length_pos_iff.mpr notNone
      simp only [work, unread, List.length_append] at enough left
      apply ih (work (.writing later) stdout)
      · simp only [work]
        omega
      · simp only [unread, List.length_append]
        omega
      · exact Nat.le_refl _
  | close =>
      simp only [work, unread] at enough left
      apply ih (work .written stdout)
      · simp only [work]
        omega
      · simp only [unread]
        omega
      · exact Nat.le_refl _
  | readSome _ _ chunk rest _ _ notNone =>
      have more := List.length_pos_iff.mpr notNone
      apply ih (work writer rest)
      · cases writer <;> simp only [work, List.length_append] at enough ⊢ <;> omega
      · exact left
      · exact Nat.le_refl _
  | childReads _ chunk later _ _ _ more got reads notNone =>
      have fewer := List.length_pos_iff.mpr notNone
      apply afterRead more got reads
      cases writer <;> simp only [unread, List.length_append] at left ⊢ <;> omega
  | childReadsEnd _ _ _ more got reads => exact afterEnd more got reads _ _ _ _ left
  | childWrites _ _ _ _ _ after byte writes => exact afterWrite byte after writes _ _ _ _ left
  | childExits => exact ends_exited true _ (Nat.le_refl _)
  | childDies => exact ends_exited false _ (Nat.le_refl _)

/-- A child that exits when its input is over reads no byte twice and writes between two reads only
so much. -/
theorem ends_of_exits (exits : ∀ state, program.Exits state) (n : ℕ) {child : S}
    {writer : Writer} {stdin stdout out : Bytes} (left : unread writer stdin ≤ n) :
    Ends program stdinCap stdoutCap ⟨writer, stdin, stdout, .running child, out⟩ := by
  induction n using Nat.strong_induction_on generalizing child writer stdin stdout out with
  | _ n ih =>
  have afterRead : ∀ (got : Bytes → S) chunk writer stdin stdout out, unread writer stdin < n →
      Ends program stdinCap stdoutCap ⟨writer, stdin, stdout, .running (got chunk), out⟩ :=
    fun got chunk writer stdin stdout out fewer => ih _ fewer (Nat.le_refl _)
  induction exits child generalizing writer stdin stdout out with
  | exit isExit =>
      refine ends_running ?_ ?_ ?_ _ left (Nat.le_refl _)
      · intro more got reads
        rw [isExit] at reads
        cases reads
      · intro more got reads
        rw [isExit] at reads
        cases reads
      · intro byte after writes
        rw [isExit] at writes
        cases writes
  | write isWrite _ goesOn =>
      refine ends_running ?_ ?_ ?_ _ left (Nat.le_refl _)
      · intro more got reads
        rw [isWrite] at reads
        cases reads
      · intro more got reads
        rw [isWrite] at reads
        cases reads
      · intro byte after writes writer stdin stdout out left
        rw [isWrite] at writes
        cases writes
        exact goesOn left
  | read isRead _ goesOn =>
      refine ends_running ?_ ?_ ?_ _ left (Nat.le_refl _)
      · intro more got _
        exact afterRead got
      · intro more got reads writer stdin stdout out left
        rw [isRead] at reads
        cases reads
        exact goesOn left
      · intro byte after writes
        rw [isRead] at writes
        cases writes

end Ends

/-! ## Nobody waits for nobody -/

section Progress

variable {S : Type u} {program : Program S} {stdinCap stdoutCap : ℕ}

theorem child_goesOn (stdoutRoom : 0 < stdoutCap) {writer : Writer} (notOver : writer ≠ .failed)
    {stdin : Bytes} (ready : stdin ≠ [] ∨ writer = .written) (stdout out : Bytes) (child : S) :
    ∃ next, Step program stdinCap stdoutCap ⟨writer, stdin, stdout, .running child, out⟩ next := by
  cases doing : program.next child with
  | read more got =>
      cases stdin with
      | nil =>
          rcases ready with notEmpty | rfl
          · exact absurd rfl notEmpty
          · exact ⟨_, .childReadsEnd _ _ _ _ _ doing⟩
      | cons byte rest =>
          exact ⟨_, .childReads _ [byte] _ _ _ _ _ _ doing (List.cons_ne_nil _ _) (by simp)⟩
  | write byte after =>
      by_cases fits : stdout.length < stdoutCap
      · exact ⟨_, .childWrites _ _ _ _ _ _ _ doing fits⟩
      · have full : stdout ≠ [] := by
          rintro rfl
          exact fits stdoutRoom
        have same : stdout ++ [] = stdout := List.append_nil _
        rw [← same]
        exact ⟨_, .readSome _ _ stdout [] _ _ full notOver⟩
  | exit => exact ⟨_, .childExits _ _ _ _ _ doing⟩

/-- As long as `missing_oids` has not returned, one of the three can go on. -/
theorem returned_or_goesOn (stdinRoom : 0 < stdinCap) (stdoutRoom : 0 < stdoutCap)
    (state : State S) :
    state.returned ≠ none ∨ ∃ next, Step program stdinCap stdoutCap state next := by
  rcases state with ⟨writer, stdin, stdout, child, out⟩
  cases writer with
  | failed =>
      left
      simp [State.returned]
  | writing left =>
      right
      cases left with
      | nil => exact ⟨_, .close _ _ _ _⟩
      | cons byte left =>
          cases child with
          | exited success => exact ⟨_, .brokenPipe _ _ _ _ _ (List.cons_ne_nil _ _)⟩
          | running child =>
              by_cases fits : stdin.length < stdinCap
              · exact ⟨_, .writeSome stdin stdout out [byte] left child (List.cons_ne_nil _ _)
                  (by rw [List.length_append]; exact fits)⟩
              · apply child_goesOn stdoutRoom Writer.noConfusion
                left
                rintro rfl
                exact fits stdinRoom
  | written =>
      cases child with
      | running child =>
          right
          exact child_goesOn stdoutRoom Writer.noConfusion (Or.inr rfl) _ _ _
      | exited success =>
          cases stdout with
          | nil =>
              left
              cases success <;> simp [State.returned]
          | cons byte stdout =>
              right
              exact ⟨_, .readSome _ _ [byte] stdout _ _ (List.cons_ne_nil _ _) Writer.noConfusion⟩

end Progress

/-! ## What is returned -/

/-- What the program may write if `input` is all that it can still read. -/
inductive Writes {S : Type u} (program : Program S) : S → Bytes → Bytes → Prop where
  | exit {state : S} {input : Bytes} (exits : program.next state = .exit) :
      Writes program state input []
  | write {state after : S} {byte : UInt8} {input output : Bytes}
      (writes : program.next state = .write byte after)
      (later : Writes program after input output) : Writes program state input (byte :: output)
  | read {state : S} {more : ℕ} {got : Bytes → S} {chunk input output : Bytes}
      (reads : program.next state = .read more got) (notNone : chunk ≠ [])
      (within : chunk.length ≤ more + 1) (later : Writes program (got chunk) input output) :
      Writes program state (chunk ++ input) output
  | readEnd {state : S} {more : ℕ} {got : Bytes → S} {output : Bytes}
      (reads : program.next state = .read more got)
      (later : Writes program (got []) [] output) : Writes program state [] output

/-- Where the program can be before it has seen the end of its input. -/
inductive Early {S : Type u} (program : Program S) : S → Prop where
  | start : Early program program.start
  | write {state after : S} {byte : UInt8} (before : Early program state)
      (writes : program.next state = .write byte after) : Early program after
  | read {state : S} {more : ℕ} {got : Bytes → S} {chunk : Bytes} (before : Early program state)
      (reads : program.next state = .read more got) (notNone : chunk ≠ []) :
      Early program (got chunk)

/-- `cat-file --batch-check` in a mirror: it exits when its input is over, and it has described
each object on a line of its own. -/
structure CatFile {S : Type u} (program : Program S) (mirror : Mirror) (info : Text → Text)
    (oids : List Text) : Prop where
  exits : ∀ state, program.Exits state
  patient : ∀ state, Early program state → program.next state ≠ .exit
  answers : ∀ output, Writes program program.start (utf8 (query oids)) output →
    output = utf8 (query (oids.map (batchLine mirror info)))
  plain : ∀ oid, '\n' ∉ info oid ∧ '\r' ∉ info oid
  neverMissing : ∀ oid, ¬missingMark <:+ oid ++ ' ' :: info oid

section Returned

variable {S : Type u} {program : Program S} {stdinCap stdoutCap : ℕ} {whole : Bytes}

/-- The query that the child has not read. -/
def State.input (state : State S) : Bytes :=
  match state.writer with
  | .writing left => state.stdin ++ left
  | _ => state.stdin

/-- What the child has written and what it may still write are the answer to the query. -/
def Faithful (program : Program S) (whole : Bytes) (state : State S) : Prop :=
  match state.child with
  | .running child => ∀ output, Writes program child state.input output →
      Writes program program.start whole (state.out ++ state.stdout ++ output)
  | .exited true => Writes program program.start whole (state.out ++ state.stdout)
  | .exited false => True

theorem Faithful.step {state state' : State S} (faithful : Faithful program whole state)
    (taken : Step program stdinCap stdoutCap state state') : Faithful program whole state' := by
  cases taken with
  | writeSome stdin stdout out chunk left child notNone fits =>
      simpa [Faithful, State.input] using faithful
  | brokenPipe stdin stdout out left success notNone => cases success <;> exact faithful
  | close stdin stdout out child => cases child <;> simpa [Faithful, State.input] using faithful
  | readSome writer stdin chunk stdout out child notNone notOver =>
      rcases child with child | _ | _
      · simpa [Faithful, State.input] using faithful
      · trivial
      · simpa [Faithful] using faithful
  | childReads writer chunk stdin stdout out child more got reads notNone within =>
      intro output later
      apply faithful output
      have first := Writes.read reads notNone within later
      cases writer <;> simpa [State.input] using first
  | childReadsEnd stdout out child more got reads =>
      intro output later
      exact faithful output (.readEnd reads later)
  | childWrites writer stdin stdout out child after byte writes fits =>
      intro output later
      have first := faithful (byte :: output) (.write writes later)
      simpa using first
  | childExits writer stdin stdout out child exits =>
      have all := faithful [] (.exit exits)
      simpa [Faithful] using all
  | childDies writer stdin stdout out child => trivial

/-- Before the query is written the child has not seen its end, and is there unless it died. -/
def Attentive (program : Program S) (state : State S) : Prop :=
  match state.writer, state.child with
  | .written, _ => True
  | .writing _, .running child => Early program child
  | .failed, .running _ => False
  | _, .exited success => success = false

theorem Attentive.step (patient : ∀ state, Early program state → program.next state ≠ .exit)
    {state state' : State S} (attentive : Attentive program state)
    (taken : Step program stdinCap stdoutCap state state') : Attentive program state' := by
  cases taken with
  | writeSome => exact attentive
  | brokenPipe => exact attentive
  | close => trivial
  | readSome => exact attentive
  | childReads writer chunk stdin stdout out child more got reads notNone within =>
      cases writer with
      | writing left => exact Early.read attentive reads notNone
      | written => trivial
      | failed => exact attentive.elim
  | childReadsEnd => trivial
  | childWrites writer stdin stdout out child after byte writes fits =>
      cases writer with
      | writing left => exact Early.write attentive writes
      | written => trivial
      | failed => exact attentive.elim
  | childExits writer stdin stdout out child exits =>
      cases writer with
      | writing left => exact absurd exits (patient child attentive)
      | written => trivial
      | failed => exact attentive.elim
  | childDies writer =>
      cases writer with
      | writing left => rfl
      | written => trivial
      | failed => rfl

/-- What holds in every run. -/
structure Sound (program : Program S) (whole : Bytes) (state : State S) : Prop where
  faithful : Faithful program whole state
  attentive : Attentive program state

theorem sound_asked (oids : List Text) :
    Sound program (utf8 (query oids)) (asked program oids) where
  faithful := by
    intro output writes
    simpa [asked, State.input] using writes
  attentive := Early.start

end Returned

/-! ## The lines of the answer -/

section Lines

variable {line : Text} {oids : List Text}

/-- A line that `str::lines` gives back as it is. -/
def Plain (line : Text) : Prop := '\n' ∉ line ∧ '\r' ∉ line

theorem strLines_cons (plain : Plain line) (rest : Text) :
    strLines (line ++ '\n' :: rest) = line :: strLines rest := by
  have split : (line ++ '\n' :: rest).splitOn '\n' = line :: rest.splitOn '\n' :=
    List.splitOn_append_cons_self_of_not_mem plain.1 rest
  have notNone : rest.splitOn '\n' ≠ [] := List.splitOn_ne_nil _ _
  have kept : stripSuffix line ['\r'] = none := by
    rw [stripSuffix, if_neg]
    intro ends
    exact plain.2 (ends.subset (List.mem_singleton_self _))
  rw [strLines, split, List.dropLast_cons_of_ne_nil notNone, List.getLast?_cons_of_ne_nil notNone,
    List.map_cons, kept]
  rfl

/-- What is printed on lines of their own is read as these lines. -/
theorem strLines_query (plain : ∀ line ∈ oids, Plain line) : strLines (query oids) = oids := by
  induction oids with
  | nil => decide
  | cons line oids ih =>
      have rest := ih fun other otherMem => plain other (List.mem_cons_of_mem _ otherMem)
      rw [query, List.flatMap_cons, List.append_assoc, List.singleton_append,
        strLines_cons (plain line List.mem_cons_self), ← query, rest]

theorem wantOfPayload_of_mem_walkFrames {fuel : ℕ} {body : Bytes} {oid : Text}
    (oidMem : oid ∈ walkFrames fuel body) : ∃ payload, wantOfPayload payload = some oid := by
  induction fuel generalizing body with
  | zero => cases oidMem
  | succ fuel ih =>
      unfold walkFrames at oidMem
      split at oidMem
      · cases oidMem
      split at oidMem
      · cases oidMem
      split at oidMem
      · exact ih oidMem
      split at oidMem
      · cases oidMem
      split at oidMem
      · rename_i first wanted
        rcases List.mem_cons.mp oidMem with rfl | later
        · exact ⟨_, wanted⟩
        · exact ih later
      · exact ih oidMem

/-- The digits that `hexDigit` accepts. -/
def hexChars : Text := "0123456789abcdefABCDEF".toList

theorem mem_hexChars_of_hexDigit : ∀ n < 256, (hexDigit (UInt8.ofNat n)).isSome = true →
    Char.ofNat n ∈ hexChars := by
  decide +kernel

/-- An object ID is made of hexadecimal digits. -/
theorem hexChars_of_mem_parseWants {body : Bytes} {oid : Text} (wanted : oid ∈ parseWants body) :
    oid ⊆ hexChars := by
  rcases wantOfPayload_of_mem_walkFrames (List.mem_toFinset.mp wanted) with ⟨payload, isWant⟩
  rcases wantOfPayload_eq_some_iff.mp isWant with ⟨run, rest, _, digits, _, _, rfl⟩
  intro c cMem
  rcases List.mem_map.mp cMem with ⟨byte, byteMem, rfl⟩
  have digit := mem_hexChars_of_hexDigit byte.toNat byte.toNat_lt
  rw [UInt8.ofNat_toNat] at digit
  exact digit (digits byte byteMem)

theorem plain_of_mem_parseWants {body : Bytes} {oid : Text} (wanted : oid ∈ parseWants body) :
    Plain oid := by
  have isHex := hexChars_of_mem_parseWants wanted
  exact ⟨fun breakMem => absurd (isHex breakMem) (by decide),
    fun returnMem => absurd (isHex returnMem) (by decide)⟩

end Lines

/-! ## The outcome -/

section Outcome

variable {S : Type u} {program : Program S} {mirror : Mirror} {info : Text → Text}
  {order : List Text} {body : Bytes} {stdinCap stdoutCap : ℕ}

/-- The answer is read as the list of its lines, and they are what `cat-file` says. -/
theorem CatFile.checks (catFile : CatFile program mirror info order) (once : order.Nodup)
    (all : order.toFinset = parseWants body) :
    Checks mirror (parseWants body)
      (strLines (lossy (utf8 (query (order.map (batchLine mirror info)))))) := by
  have plain : ∀ line ∈ order.map (batchLine mirror info), Plain line := by
    intro line lineMem
    rcases List.mem_map.mp lineMem with ⟨oid, oidMem, rfl⟩
    have wanted : oid ∈ parseWants body := by
      rw [← all]
      exact List.mem_toFinset.mpr oidMem
    have plain := plain_of_mem_parseWants wanted
    have told := catFile.plain oid
    unfold batchLine
    split
    · simp [Plain, plain.1, plain.2, told.1, told.2]
    · have ordinary : '\n' ∉ missingMark ∧ '\r' ∉ missingMark := by decide
      simp only [Plain, List.mem_append, not_or]
      exact ⟨⟨plain.1, ordinary.1⟩, plain.2, ordinary.2⟩
  have decoded := lossy_utf8_append (query (order.map (batchLine mirror info))) []
  rw [List.append_nil] at decoded
  have nothing : lossy [] = [] := rfl
  rw [decoded, nothing, List.append_nil, strLines_query plain]
  exact ⟨order, info, once, all, rfl, catFile.neverMissing⟩

/-- What `missing_oids` has returned: the wanted objects that the store lacks, unless the child
died. -/
def Returns (mirror : Mirror) (body : Bytes) (state : State S) : Prop :=
  (∃ found, state.returned = some (.ok found) ∧ found.Nodup ∧
    ∀ oid, oid ∈ found ↔ oid ∈ parseWants body ∧ oid ∉ mirror.objects) ∨
  state.returned = some (.error .catFile) ∧ state.child = .exited false

theorem CatFile.returns (catFile : CatFile program mirror info order) (once : order.Nodup)
    (all : order.toFinset = parseWants body) {state : State S}
    (sound : Sound program (utf8 (query order)) state) (isOver : state.returned ≠ none) :
    Returns mirror body state := by
  rcases sound with ⟨faithful, attentive⟩
  rcases state with ⟨writer, stdin, stdout, child, out⟩
  cases writer with
  | writing left => exact absurd rfl isOver
  | failed =>
      cases child with
      | running child => exact attentive.elim
      | exited success =>
          have died : success = false := attentive
          exact Or.inr ⟨rfl, by rw [died]⟩
  | written =>
      cases child with
      | running child => exact absurd rfl isOver
      | exited success =>
          by_cases drained : stdout = []
          · subst drained
            cases success with
            | false => exact Or.inr ⟨rfl, rfl⟩
            | true =>
                left
                have written : out = utf8 (query (order.map (batchLine mirror info))) := by
                  apply catFile.answers
                  simpa [Faithful] using faithful
                have checks := (catFile.checks once all).missingOids
                rw [← written] at checks
                exact ⟨_, rfl, checks⟩
          · exact absurd (if_pos drained) isOver

end Outcome

/-! ## A child that reads all before it answers -/

section Replies

variable {mirror : Mirror} {info : Text → Text} {oids : List Text}

/-- It is still reading, or has this much of its answer left. -/
def replies (answer : Bytes) : Program (Option Bytes) where
  start := none
  next
    | none => .read 4095 fun chunk => if chunk = [] then some answer else none
    | some [] => .exit
    | some (byte :: left) => .write byte (some left)

theorem exits_replies (answer left : Bytes) : (replies answer).Exits (some left) := by
  induction left with
  | nil => exact .exit rfl
  | cons byte left ih => exact .write rfl ih

theorem writes_replies {answer left input output : Bytes}
    (writes : Writes (replies answer) (some left) input output) : output = left := by
  induction left generalizing output with
  | nil =>
      cases writes with
      | exit => rfl
      | write writes => cases writes
      | read reads => cases reads
      | readEnd reads => cases reads
  | cons byte left ih =>
      cases writes with
      | exit exits => cases exits
      | write writes later =>
          cases writes
          rw [ih later]
      | read reads => cases reads
      | readEnd reads => cases reads

theorem early_replies {answer : Bytes} {state : Option Bytes}
    (early : Early (replies answer) state) : state = none := by
  induction early with
  | start => rfl
  | write _ writes ih =>
      subst ih
      cases writes
  | read _ reads notNone ih =>
      subst ih
      cases reads
      exact if_neg notNone

theorem catFile_replies (plain : ∀ oid, '\n' ∉ info oid ∧ '\r' ∉ info oid)
    (neverMissing : ∀ oid, ¬missingMark <:+ oid ++ ' ' :: info oid) :
    CatFile (replies (utf8 (query (oids.map (batchLine mirror info))))) mirror info oids where
  exits := by
    intro state
    cases state with
    | none => exact .read rfl (exits_replies _ _)
    | some left => exact exits_replies _ left
  patient := by
    intro state early
    rw [early_replies early]
    intro exits
    cases exits
  answers := by
    intro output writes
    generalize utf8 (query oids) = input at writes
    generalize starts : (replies (utf8 (query (oids.map (batchLine mirror info))))).start = state
      at writes
    induction writes with
    | exit exits =>
        subst starts
        cases exits
    | write writes =>
        subst starts
        cases writes
    | read reads notNone within later ih =>
        subst starts
        cases reads
        exact ih (if_neg notNone).symm
    | readEnd reads later ih =>
        subst starts
        cases reads
        exact writes_replies later
  plain := plain
  neverMissing := neverMissing

end Replies

end GitCacheProxy.Git.BatchCheck
