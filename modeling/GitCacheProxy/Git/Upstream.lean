import Mathlib.Algebra.Group.Nat.Defs
import GitCacheProxy.Foundation.FileTree
import GitCacheProxy.Repo

/-!
# Running upstream git

`run_upstream` runs one `git clone` or `git fetch`, up to four times.  Between
attempts the staging directory is cleared, and another attempt is made only if
the diagnostics on stderr are known to be transient (`transientUpstreamError`).

What a child process and the operating system do is an argument, one `Attempt`
for each round.
-/

namespace GitCacheProxy

abbrev Bytes := List UInt8

/-- The file system below the root directory. -/
abbrev Disk := FileTree.Tree Text Bytes

namespace Git

/-! ## Classifying diagnostics -/

def replacement : Char := '\uFFFD'

/-- The range of the second byte of a UTF-8 sequence and the number of bytes in all. -/
def utf8Lead (lead : UInt8) : Option (UInt8 × UInt8 × ℕ) :=
  if 0xC2 ≤ lead ∧ lead ≤ 0xDF then some (0x80, 0xBF, 2)
  else if lead = 0xE0 then some (0xA0, 0xBF, 3)
  else if lead = 0xED then some (0x80, 0x9F, 3)
  else if 0xE1 ≤ lead ∧ lead ≤ 0xEF then some (0x80, 0xBF, 3)
  else if lead = 0xF0 then some (0x90, 0xBF, 4)
  else if 0xF1 ≤ lead ∧ lead ≤ 0xF3 then some (0x80, 0xBF, 4)
  else if lead = 0xF4 then some (0x80, 0x8F, 4)
  else none

/-- The continuation bytes that a sequence still has in front of it, at most `wanted`. -/
def continuation (low high : UInt8) (wanted : ℕ) (bytes : Bytes) : Bytes :=
  match wanted, bytes with
  | wanted + 1, byte :: rest =>
      if low ≤ byte ∧ byte ≤ high then byte :: continuation 0x80 0xBF wanted rest else []
  | _, _ => []

/-- `String::from_utf8_lossy`: every maximal broken piece becomes one replacement character. -/
def lossyFrom : ℕ → Bytes → Text
  | 0, _ => []
  | _, [] => []
  | fuel + 1, lead :: rest =>
      if lead < 0x80 then Char.ofNat lead.toNat :: lossyFrom fuel rest
      else
        match utf8Lead lead with
        | none => replacement :: lossyFrom fuel rest
        | some (low, high, size) =>
            let tail := continuation low high (size - 1) rest
            let char :=
              if tail.length = size - 1 then
                Char.ofNat (tail.foldl (fun code byte => 64 * code + (byte.toNat - 0x80))
                  (lead.toNat % 2 ^ (7 - size)))
              else replacement
            char :: lossyFrom fuel (rest.drop tail.length)

def lossy (bytes : Bytes) : Text := lossyFrom bytes.length bytes

/-- The characters that `str::trim_end` removes. -/
def isWhitespace (char : Char) : Bool :=
  let code := char.toNat
  decide ((9 ≤ code ∧ code ≤ 13) ∨ code = 0x20 ∨ code = 0x85 ∨ code = 0xA0 ∨ code = 0x1680 ∨
    (0x2000 ≤ code ∧ code ≤ 0x200A) ∨ code = 0x2028 ∨ code = 0x2029 ∨ code = 0x202F ∨
    code = 0x205F ∨ code = 0x3000)

/-- `str::lines`; the `\r` of a `\r\n` is whitespace and goes with `trim_end`. -/
def lines (text : Text) : List Text := text.splitOn '\n'

def permanentMessages : List Text :=
  ["authentication failed", "repository not found", "could not read username",
    "certificate problem", "certificate verify failed", "certificate verification failed",
    "server certificate verification failed", "no space left on device", "permission denied",
    "read-only file system", ".lock", "returned error: 401", "returned error: 403",
    "returned error: 404"].map String.toList

def transientStatuses : List Text :=
  ["408", "429", "500", "502", "503", "504"].map String.toList

def tlsMessages : List Text :=
  ["unexpected eof while reading",
    "gnutls_handshake() failed: the tls connection was non-properly terminated",
    "gnutls recv error (-110)", "ssl_error_syscall"].map String.toList

def connectionMessages : List Text :=
  ["connection reset", "connection timed out", "connection refused", "failed to connect to",
    "operation timed out", "connection timeout", "empty reply from server", "recv failure:",
    "send failure:", "curl 18 ", "curl 28 ", "curl 52 ", "curl 55 ", "curl 56 ",
    "curl 92 "].map String.toList

def dnsMessages : List Text :=
  ["temporary failure in name resolution", "could not resolve host:",
    "could not resolve proxy:"].map String.toList

def mentions (text : Text) (messages : List Text) : Bool :=
  messages.any fun message => decide (message <:+: text)

/-- A line ends in `returned error: <code>`. -/
def returnedError (text code : Text) : Bool :=
  (lines text).any fun line =>
    decide ("returned error: ".toList ++ code <:+ line.rdropWhile isWhitespace)

/-- The reasons that a retry is worthwhile; permanent errors take precedence. -/
def transientUpstreamError (stderr : Bytes) : Option Text :=
  let text := (lossy stderr).map Char.toLower
  if mentions text permanentMessages then none
  else if transientStatuses.any (returnedError text) then some "transient HTTP status".toList
  else if mentions text tlsMessages then some "TLS connection interrupted".toList
  else if mentions text connectionMessages then
    some "connection interrupted or timed out".toList
  else if mentions text dnsMessages then some "DNS resolution failed".toList
  else none

/-! ## The retry loop -/

/-- Seconds to wait after each failed attempt but the last. -/
def upstreamRetryDelays : List ℕ := [1, 2, 4]

def maxUpstreamRetries : ℕ := upstreamRetryDelays.length

def maxUpstreamStderrBytes : ℕ := 64 * 1024

/-- The tail of stderr that is kept. -/
def stderrTail (stderr : Bytes) : Bytes := stderr.drop (stderr.length - maxUpstreamStderrBytes)

/-- How a child ended; `code` is `none` when a signal killed it. -/
structure ExitStatus where
  code : Option ℤ
  deriving DecidableEq

def ExitStatus.success (status : ExitStatus) : Bool := decide (status.code = some 0)

/-- What one round meets with. -/
structure Attempt where
  /-- an I/O error while clearing the staging directory, with what is left in it -/
  clearing : Option Disk
  spawned : Bool
  /-- what the child makes of its directory, if it gets to it -/
  written : Option Disk
  drained : Bool
  waited : Bool
  status : ExitStatus
  stderr : Bytes
  /-- an I/O error while clearing the staging directory after a failure -/
  sweeping : Option Disk
  /-- a child that succeeds has made its directory -/
  complete : status.success = true → written.isSome = true

inductive UpstreamError where
  | clearStaging
  | spawn
  | readStderr
  | wait
  | failed (operation repo : Text) (attempts : ℕ) (reason : Option Text) (status : ExitStatus)
  deriving DecidableEq

/-- `clean_staging`: a missing directory is clean; a regular file in its place is an error. -/
def cleanStaging (disk : Disk) (path : Path) (failure : Option Disk) :
    Disk × Except UpstreamError Unit :=
  match disk.get? path with
  | none => (disk, .ok ())
  | some (.file _) => (disk, .error .clearStaging)
  | some .dir =>
      match failure with
      | none => (disk.remove path, .ok ())
      | some left => (disk.graft path left, .error .clearStaging)

/-- `clean_staging` where there is a staging directory at all. -/
def cleanIf (staging : Bool) (disk : Disk) (path : Path) (failure : Option Disk) :
    Disk × Except UpstreamError Unit :=
  if staging then cleanStaging disk path failure else (disk, .ok ())

/-- The disk as a child leaves it that works in `path`. -/
def Attempt.leaves (round : Attempt) (path : Path) (disk : Disk) : Disk :=
  match round.written with
  | none => disk
  | some written => disk.graft path written

/-- A round from the spawn on; `none` asks for another round. -/
def runChild (operation repo : Text) (path : Path) (staging : Bool) (round : Attempt)
    (attempt : ℕ) (disk : Disk) : Disk × Option (Except UpstreamError Unit) :=
  if round.spawned = false then (disk, some (.error .spawn))
  else if round.drained = false then (round.leaves path disk, some (.error .readStderr))
  else if round.waited = false then (round.leaves path disk, some (.error .wait))
  else if round.status.success then (round.leaves path disk, some (.ok ()))
  else
    match cleanIf staging (round.leaves path disk) path round.sweeping with
    | (disk, .error failure) => (disk, some (.error failure))
    | (disk, .ok ()) =>
        let reason := transientUpstreamError (stderrTail round.stderr)
        if reason.isSome ∧ round.status.code.isSome ∧ (upstreamRetryDelays[attempt]?).isSome then
          (disk, none)
        else (disk, some (.error (.failed operation repo (attempt + 1) reason round.status)))

/-- The body of the loop.  The child works in `path`, which is a staging directory for a clone and
the mirror itself for a fetch. -/
def runRound (operation repo : Text) (path : Path) (staging : Bool) (round : Attempt)
    (attempt : ℕ) (disk : Disk) : Disk × Option (Except UpstreamError Unit) :=
  match cleanIf staging disk path round.clearing with
  | (disk, .error failure) => (disk, some (.error failure))
  | (disk, .ok ()) => runChild operation repo path staging round attempt disk

/-- The loop from `attempt` on. -/
def runRounds (operation repo : Text) (path : Path) (staging : Bool) (git : ℕ → Attempt) :
    ℕ → ℕ → Disk → Disk × Except UpstreamError Unit
  -- `unreachable!`: the last attempt has no delay left and returns
  | 0, attempt, disk => (disk, .error (.failed operation repo attempt none ⟨none⟩))
  | rounds + 1, attempt, disk =>
      match runRound operation repo path staging (git attempt) attempt disk with
      | (disk, some result) => (disk, result)
      | (disk, none) => runRounds operation repo path staging git rounds (attempt + 1) disk

/-- `run_upstream`. -/
def runUpstream (operation repo : Text) (path : Path) (staging : Bool) (git : ℕ → Attempt)
    (disk : Disk) : Disk × Except UpstreamError Unit :=
  runRounds operation repo path staging git (maxUpstreamRetries + 1) 0 disk

end Git

end GitCacheProxy
