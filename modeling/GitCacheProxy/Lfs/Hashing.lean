import GitCacheProxy.Foundation.Hex
import GitCacheProxy.Lfs.ContentAddressing

/-!
# Hashing in pieces

`sha256_file` reads a download piece by piece on a thread of its own, while everything else goes
on.  The store has been shown to be content-addressed for a hash that takes one look at the whole
file (`Act.hashed`).  Here the loop stands in its place, and every run of it is a run of that
store: nobody else touches the temporary file, so that no two pieces are of different contents.

The digest is compared with the name of the object as text.  Digests and the names that requests
may have are in one-to-one correspondence (`objectName`), so the comparison misses nothing.
-/

namespace GitCacheProxy.Lfs

open Repo FileTree TransitionSystem

universe u

/-- `sha2::Sha256`; how its input is divided makes no difference. -/
structure Sha256 where
  Hasher : Type
  new : Hasher
  update : Hasher → Bytes → Hasher
  finalize : Hasher → Bytes
  update_nil : ∀ hasher, update hasher [] = hasher
  update_append : ∀ hasher first second,
    update (update hasher first) second = update hasher (first ++ second)
  length_finalize : ∀ hasher, (finalize hasher).length = 32

namespace Sha256

variable (sha : Sha256)

def digest (content : Bytes) : Bytes := sha.finalize (sha.update sha.new content)

/-- The digest as `sha256_file` returns it. -/
def hex (content : Bytes) : Text := Hex.encode (sha.digest content)

end Sha256

/-! ## Digests and names -/

section Names

theorem digit?_of_lowerHex {c : Char} (lower : ('0' ≤ c ∧ c ≤ '9') ∨ ('a' ≤ c ∧ c ≤ 'f')) :
    Hex.digit? c ≠ none := by
  rw [Hex.digit?]
  by_cases decimal : '0' ≤ c ∧ c ≤ '9'
  · rw [if_pos decimal]
    simp
  · rw [if_neg decimal, if_pos (lower.resolve_left decimal)]
    simp

theorem validLfsOid_encode {digest : Bytes} (long : digest.length = 32) :
    validLfsOid (Hex.encode digest) = true := by
  have lower : ∀ digit < 16, ('0' ≤ Nat.digitChar digit ∧ Nat.digitChar digit ≤ '9') ∨
      ('a' ≤ Nat.digitChar digit ∧ Nat.digitChar digit ≤ 'f') := by decide
  have length : (Hex.encode digest).length = 64 := by rw [Hex.length_encode, long]
  simp only [validLfsOid, length, decide_true, Bool.true_and, List.all_eq_true, decide_eq_true_eq]
  intro c cMem
  rcases List.mem_flatMap.mp cMem with ⟨byte, _, inByte⟩
  have small := byte.toNat_lt
  rw [Hex.encodeByte_eq, List.mem_pair] at inByte
  rcases inByte with rfl | rfl
  · exact lower _ (by omega)
  · exact lower _ (by omega)

theorem exists_digest {oid : Text} (valid : validLfsOid oid = true) :
    ∃ digest, Hex.decode oid = some digest ∧ digest.length = 32 := by
  have length : oid.length = 2 * 32 := length_of_validLfsOid valid
  rcases Hex.exists_decode length fun c cMem => digit?_of_lowerHex (mem_of_validLfsOid valid cMem)
    with ⟨digest, decoded⟩
  have twice := Hex.length_encode digest
  rw [Hex.encode_of_decode decoded] at twice
  exact ⟨digest, decoded, by omega⟩

/-- The names that requests may have are those of the digests. -/
def objectName : { digest : Bytes // digest.length = 32 } ≃ { oid : Text // validLfsOid oid = true }
    where
  toFun digest := ⟨Hex.encode digest.1, validLfsOid_encode digest.2⟩
  invFun oid := ⟨(Hex.decode oid.1).getD [], by
    rcases exists_digest oid.2 with ⟨digest, decoded, long⟩
    rw [decoded]
    exact long⟩
  left_inv digest := by
    apply Subtype.ext
    simp only [Hex.decode_encode, Option.getD_some]
  right_inv oid := by
    apply Subtype.ext
    rcases exists_digest oid.2 with ⟨digest, decoded, _⟩
    simp only [decoded, Option.getD_some]
    exact Hex.encode_of_decode decoded

theorem hex_eq_objectName_iff (sha : Sha256) (content : Bytes)
    (digest : { digest : Bytes // digest.length = 32 }) :
    sha.hex content = (objectName digest).1 ↔ sha.digest content = digest.1 :=
  Hex.encode_injective.eq_iff

end Names

/-! ## The loop among the other tasks -/

/-- How far a task has come in the file that it hashes. -/
structure Reading (sha : Sha256) where
  hasher : sha.Hasher
  offset : ℕ

/-- The server, whose tasks may have opened the file that they are to hash. -/
structure Pieces (sha : Sha256) (Task : Type u) where
  server : State Task
  reading : Task → Option (Reading sha)

namespace Pieces

variable {Task : Type u}

/-- The digest is known, and is that of the object or not. -/
def verdict (oid : Text) (n : ℕ) (actual : Text) : Stage :=
  if actual = oid then .sharding oid n else .discarding oid n

inductive Step [DecidableEq Task] (root : Path) (sha : Sha256) (mayEvict : State Task → Text → Prop)
    (now : Pieces sha Task) : Pieces sha Task → Prop where
  -- all but the end of a hash: it takes the loop below
  | act (task : Task) (shared : Shared Task) (stage : Stage)
      (taken : Act root sha.hex task now.server.shared (now.server.tasks task) shared stage)
      (unhashed : ∀ oid n actual, now.server.tasks task = .hashing oid n →
        stage ≠ verdict oid n actual) :
      Step root sha mayEvict now
        ⟨⟨shared, Function.update now.server.tasks task stage⟩,
          Function.update now.reading task none⟩
  | evict (oid : Text) (disk : Disk) (valid : validLfsOid oid = true)
      (allowed : mayEvict now.server oid)
      (removed : now.server.shared.disk.removeFile (lfsObjectPath root oid) = some disk) :
      Step root sha mayEvict now { now with server.shared.disk := disk }
  | crash (pid : ℕ) (index : Index.CacheIndex) (failure : Option Disk) :
      Step root sha mayEvict now {
        server := {
          shared := {
            disk := Git.GitCache.discard now.server.shared.disk (incomingPath root) failure
            index := index
            owner := fun _ => none
            counter := 0
            pid := pid }
          tasks := fun _ => .idle }
        reading := fun _ => none }
  | openFile (task : Task) (oid : Text) (n : ℕ) (content : Bytes)
      (hashing : now.server.tasks task = .hashing oid n)
      (found : now.server.shared.disk.get? (tmpPath root now.server.shared.pid n) =
        some (.file content)) :
      Step root sha mayEvict now
        { now with reading := Function.update now.reading task (some ⟨sha.new, 0⟩) }
  -- `read` may return less than there is, and less than the buffer holds
  | read (task : Task) (oid : Text) (n count : ℕ) (content : Bytes) (reading : Reading sha)
      (hashing : now.server.tasks task = .hashing oid n)
      (opened : now.reading task = some reading)
      (found : now.server.shared.disk.get? (tmpPath root now.server.shared.pid n) =
        some (.file content))
      (some_ : 0 < count) (buffered : count ≤ 64 * 1024)
      (there : reading.offset + count ≤ content.length) :
      Step root sha mayEvict now
        { now with
          reading := Function.update now.reading task
            (some ⟨sha.update reading.hasher ((content.drop reading.offset).take count),
              reading.offset + count⟩) }
  | finish (task : Task) (oid : Text) (n : ℕ) (content : Bytes) (reading : Reading sha)
      (hashing : now.server.tasks task = .hashing oid n)
      (opened : now.reading task = some reading)
      (found : now.server.shared.disk.get? (tmpPath root now.server.shared.pid n) =
        some (.file content))
      (eof : content.length ≤ reading.offset) :
      Step root sha mayEvict now
        ⟨{ now.server with
            tasks := Function.update now.server.tasks task
              (verdict oid n (Hex.encode (sha.finalize reading.hasher))) },
          Function.update now.reading task none⟩

structure Starts (root : Path) (sha : Sha256) (now : Pieces sha Task) : Prop where
  server : Lfs.Starts root sha.hex now.server
  unread : ∀ task, now.reading task = none

variable {root : Path} {sha : Sha256} {now later : Pieces sha Task}

/-- A task that is reading has hashed what it has read, of the content that is still there. -/
def ReadsSteadily (root : Path) (shared : Shared Task) (stage : Stage) (reading : Reading sha) :
    Prop :=
  ∃ oid n content, stage = .hashing oid n ∧
    shared.disk.get? (tmpPath root shared.pid n) = some (.file content) ∧
      reading.hasher = sha.update sha.new (content.take reading.offset)

structure Inv (root : Path) (now : Pieces sha Task) : Prop where
  server : Lfs.Inv root sha.hex now.server
  steady : ∀ task reading, now.reading task = some reading →
    ReadsSteadily root now.server.shared (now.server.tasks task) reading

/-- A reading goes on while the file of the task stays as it is. -/
theorem ReadsSteadily.frame {shared shared' : Shared Task} {stage : Stage} {reading : Reading sha}
    (steady : ReadsSteadily root shared stage reading)
    (same : ∀ n, stage.temp? = some n → shared'.disk.get? (tmpPath root shared'.pid n) =
      shared.disk.get? (tmpPath root shared.pid n)) :
    ReadsSteadily root shared' stage reading := by
  rcases steady with ⟨oid, n, content, rfl, found, hashed⟩
  exact ⟨oid, n, content, rfl, (same n rfl).trans found, hashed⟩

/-- Another piece. -/
theorem ReadsSteadily.read {shared : Shared Task} {stage : Stage} {reading : Reading sha}
    {oid : Text} {n : ℕ} {content : Bytes} (steady : ReadsSteadily root shared stage reading)
    (hashing : stage = .hashing oid n)
    (found : shared.disk.get? (tmpPath root shared.pid n) = some (.file content)) {count : ℕ} :
    ReadsSteadily root shared stage
      (⟨sha.update reading.hasher ((content.drop reading.offset).take count),
        reading.offset + count⟩ : Reading sha) := by
  subst hashing
  rcases steady with ⟨_, _, same, ⟨⟩, there, hashed⟩
  rw [found] at there
  cases there
  refine ⟨oid, n, content, rfl, found, ?_⟩
  rw [hashed, sha.update_append, List.take_add]

/-- At the end of the file, it is the digest of the file that has been made. -/
theorem ReadsSteadily.hex {shared : Shared Task} {reading : Reading sha} {oid : Text} {n : ℕ}
    {content : Bytes} (steady : ReadsSteadily root shared (.hashing oid n) reading)
    (found : shared.disk.get? (tmpPath root shared.pid n) = some (.file content))
    (eof : content.length ≤ reading.offset) :
    Hex.encode (sha.finalize reading.hasher) = sha.hex content := by
  rcases steady with ⟨_, _, same, ⟨⟩, there, hashed⟩
  rw [found] at there
  cases there
  rw [hashed, List.take_of_length_le eof]
  rfl

/-- An action of another task leaves the file alone. -/
theorem Inv.steady_act (inv : Inv root now) {task other : Task} {shared : Shared Task}
    {stage : Stage}
    (taken : Act root sha.hex task now.server.shared (now.server.tasks task) shared stage)
    (foreign : other ≠ task) {reading : Reading sha} (opened : now.reading other = some reading) :
    ReadsSteadily root shared (now.server.tasks other) reading := by
  refine (inv.steady other reading opened).frame fun n own => ?_
  apply inv.server.temp_act taken
  intro op performs theirs
  exact absurd (inv.server.distinct other task n own (performs.temp theirs)) foreign

variable [DecidableEq Task] {mayEvict : State Task → Text → Prop}

theorem Inv.server_step (inv : Inv root now) (taken : Step root sha mayEvict now later) :
    later.server = now.server ∨ Lfs.Step root sha.hex mayEvict now.server later.server := by
  cases taken with
  | act task shared stage taken unhashed => exact Or.inr (.act task shared stage taken)
  | evict oid disk valid allowed removed => exact Or.inr (.evict oid disk valid allowed removed)
  | crash pid index failure => exact Or.inr (.crash pid index failure)
  | openFile task oid n content hashing found => exact Or.inl rfl
  | read task oid n count content reading hashing opened found some_ buffered there =>
      exact Or.inl rfl
  | finish task oid n content reading hashing opened found eof =>
      right
      have steady := inv.steady task reading opened
      rw [hashing] at steady
      have taken : Act root sha.hex task now.server.shared (now.server.tasks task)
          now.server.shared (verdict oid n (sha.hex content)) := by
        rw [hashing]
        exact .hashed oid n content found
      rw [← steady.hex found eof] at taken
      exact .act task now.server.shared _ taken

theorem Inv.step (inv : Inv root now) (taken : Step root sha mayEvict now later) :
    Inv root later := by
  have server : Lfs.Inv root sha.hex later.server := by
    rcases inv.server_step taken with same | taken
    · rw [same]
      exact inv.server
    · exact inv.server.step taken
  refine ⟨server, ?_⟩
  intro other reading opened
  cases taken with
  | act task shared stage taken unhashed =>
      simp only at opened ⊢
      by_cases own : other = task
      · rw [own, Function.update_self] at opened
        cases opened
      · rw [Function.update_of_ne own] at opened ⊢
        exact inv.steady_act taken own opened
  | evict oid disk valid allowed removed =>
      refine (inv.steady other reading opened).frame fun n own => ?_
      exact (Tree.get?_removeFile removed _).trans (if_neg (temp_ne_object valid).symm)
  | crash pid index failure => cases opened
  | openFile task oid n content hashing found =>
      simp only at opened ⊢
      by_cases own : other = task
      · rw [own, Function.update_self] at opened
        cases opened
        rw [own, hashing]
        exact ⟨oid, n, content, rfl, found, (sha.update_nil sha.new).symm⟩
      · rw [Function.update_of_ne own] at opened
        exact inv.steady other reading opened
  | read task oid n count content before hashing begun found some_ buffered there =>
      simp only at opened ⊢
      by_cases own : other = task
      · rw [own, Function.update_self] at opened
        cases opened
        rw [own]
        exact (inv.steady task before begun).read hashing found
      · rw [Function.update_of_ne own] at opened
        exact inv.steady other reading opened
  | finish task oid n content before hashing begun found eof =>
      simp only at opened ⊢
      by_cases own : other = task
      · rw [own, Function.update_self] at opened
        cases opened
      · rw [Function.update_of_ne own] at opened ⊢
        exact inv.steady other reading opened

theorem inv_of_reached (reached : Reachable (Starts root sha) (Step root sha mayEvict) now) :
    Inv root now := by
  apply reached.invariant
  · intro now starts
    refine ⟨.of_starts starts.server, fun task reading opened => ?_⟩
    rw [starts.unread task] at opened
    cases opened
  · exact fun now later inv taken => inv.step taken

/-- What the loop comes to. -/
structure Hashed (root : Path) (sha : Sha256) (mayEvict : State Task → Text → Prop)
    (now : Pieces sha Task) : Prop where
  /-- that files are read in pieces does not show -/
  atomic : Reachable (Lfs.Starts root sha.hex) (Lfs.Step root sha.hex mayEvict) now.server
  /-- what is in the place of an object has the digest that the object is named after -/
  addressed : ∀ digest node,
    now.server.shared.disk.get? (lfsObjectPath root (objectName digest).1) = some node →
      ∃ content, node = .file content ∧ sha.digest content = digest.1
  /-- wherever a task is in its file, it is on the way to the digest of the file -/
  onTheWay : ∀ task reading, now.reading task = some reading →
    ∃ oid n content, now.server.tasks task = .hashing oid n ∧
      now.server.shared.disk.get? (tmpPath root now.server.shared.pid n) = some (.file content) ∧
        sha.finalize (sha.update reading.hasher (content.drop reading.offset)) = sha.digest content

end Pieces

/-! A hasher that is SHA-256 on the empty file. -/

def emptyDigest : Bytes := [
  0xe3, 0xb0, 0xc4, 0x42, 0x98, 0xfc, 0x1c, 0x14, 0x9a, 0xfb, 0xf4, 0xc8, 0x99, 0x6f, 0xb9, 0x24,
  0x27, 0xae, 0x41, 0xe4, 0x64, 0x9b, 0x93, 0x4c, 0xa4, 0x95, 0x99, 0x1b, 0x78, 0x52, 0xb8, 0x55]

def shaOfEmpty : Sha256 where
  Hasher := Bytes
  new := []
  update := fun hasher bytes => hasher ++ bytes
  finalize := fun hasher => if hasher = [] then emptyDigest else List.replicate 32 0
  update_nil := List.append_nil
  update_append := List.append_assoc
  length_finalize := by
    intro hasher
    split
    · rfl
    · rfl

def emptyOid : Text := "e3b0c44298fc1c149afbf4c8996fb92427ae41e4649b934ca495991b7852b855".toList

def unreadServer : Pieces shaOfEmpty Bool := ⟨emptyServer, fun _ => none⟩

end GitCacheProxy.Lfs
