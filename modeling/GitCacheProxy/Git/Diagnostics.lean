import GitCacheProxy.Foundation.Infix
import GitCacheProxy.Git.Lossy

/-!
# Diagnostics that quote a URL

`transient_upstream_error` looks for the messages of git in all that git has printed, URLs
included.  A URL is decoded as it was encoded, whatever surrounds it
(`lossy_around`), so that a message is found in the text before it, in the URL, in
the text after it, or across the seams.

Two of the messages have no space, `.lock` and `ssl_error_syscall`, and a name that
`resolve` accepts may contain both.  Hence the answer depends on the URL unless
something permanent is reported next to it.  Between quotation marks nothing goes across a seam,
and these two messages are the only ones that a URL can bring in.
-/

namespace GitCacheProxy.Git

open Repo Infix

/-! ## The property -/

/-- The URLs without a space that `resolve` builds. -/
structure Quotable (url : Text) : Prop where
  noSpace : ' ' ∉ url
  built : ∃ name base root repo, resolve name base root = .ok repo ∧ repo.upstreamUrl = url

/-- The answer to a diagnostic with a URL in the middle does not depend on the URL. -/
def Indifferent (before after : Bytes) : Prop :=
  ∀ first second, Quotable first → Quotable second →
    transientUpstreamError (before ++ utf8 first ++ after) =
      transientUpstreamError (before ++ utf8 second ++ after)

/-- The text in which messages are looked for. -/
def lowered (bytes : Bytes) : Text := (lossy bytes).map Char.toLower

/-- A permanent error is reported next to the URL. -/
def ReportsPermanent (before after : Bytes) : Prop :=
  mentions (lowered before) permanentMessages = true ∨
    mentions (lowered after) permanentMessages = true

/-- A diagnostic with a URL in quotation marks, as in `'<url>/'`. -/
def quoted (before after : Bytes) (slash : Bool) (url : Text) : Bytes :=
  before ++ utf8 ('\'' :: (url ++ [if slash then '/' else '\''])) ++ after

/-- No diagnostic tells two URLs in quotation marks apart. -/
def Interchangeable (first second : Text) : Prop :=
  ∀ before after slash, transientUpstreamError (quoted before after slash first) =
    transientUpstreamError (quoted before after slash second)

def HasMark (mark : String) (url : Text) : Prop := mark.toList <:+: url.map Char.toLower

/-- Two URLs bring in the same messages, as far as they count. -/
structure SameMarks (first second : Text) : Prop where
  lock : HasMark ".lock" first ↔ HasMark ".lock" second
  syscall : ¬HasMark ".lock" first →
    (HasMark "ssl_error_syscall" first ↔ HasMark "ssl_error_syscall" second)

/-! ## Messages around a URL -/

section Messages

variable {text url first second : Text} {messages : List Text} {before after one two : Bytes}
  {slash : Bool}

theorem transientUpstreamError_congr
    (permanent : mentions (lowered one) permanentMessages =
      mentions (lowered two) permanentMessages)
    (status : ∀ code ∈ transientStatuses,
      returnedError (lowered one) code = returnedError (lowered two) code)
    (tls : mentions (lowered one) tlsMessages = mentions (lowered two) tlsMessages)
    (connection : mentions (lowered one) connectionMessages =
      mentions (lowered two) connectionMessages)
    (dns : mentions (lowered one) dnsMessages = mentions (lowered two) dnsMessages) :
    transientUpstreamError one = transientUpstreamError two := by
  have statuses : transientStatuses.any (returnedError (lowered one)) =
      transientStatuses.any (returnedError (lowered two)) := by
    rw [Bool.eq_iff_iff]
    simp only [List.any_eq_true]
    exact exists_congr fun code => and_congr_right fun codeMem => by rw [status code codeMem]
  unfold lowered at permanent statuses tls connection dns
  simp only [transientUpstreamError, permanent, statuses, tls, connection, dns]

theorem mentions_eq_true_iff :
    mentions text messages = true ↔ ∃ message ∈ messages, message <:+: text := by
  simp [mentions]

theorem transientUpstreamError_of_permanent
    (permanent : mentions (lowered one) permanentMessages = true) :
    transientUpstreamError one = none := by
  unfold lowered at permanent
  simp only [transientUpstreamError, permanent, if_true]

theorem transientUpstreamError_of_transient
    (noPermanent : mentions (lowered one) permanentMessages = false)
    (transient : mentions (lowered one) tlsMessages = true ∨
      mentions (lowered one) connectionMessages = true) : transientUpstreamError one ≠ none := by
  unfold lowered at noPermanent transient
  simp only [transientUpstreamError, noPermanent, Bool.false_eq_true, if_false]
  split
  · simp
  split
  · simp
  · rename_i noTls
    rw [if_pos (transient.resolve_left noTls)]
    simp

theorem lowered_around (nonempty : url ≠ []) :
    lowered (before ++ utf8 url ++ after) =
      lowered before ++ (url.map Char.toLower ++ lowered after) := by
  rw [lowered, lossy_around before after nonempty, List.map_append, List.map_append,
    List.append_assoc]
  rfl

theorem mentions_append (first second : Text)
    (either : mentions first messages = true ∨ mentions second messages = true) :
    mentions (first ++ second) messages = true := by
  simp only [mentions_eq_true_iff] at either ⊢
  rcases either with ⟨message, messageMem, inFirst⟩ | ⟨message, messageMem, inSecond⟩
  · exact ⟨message, messageMem, inFirst.trans (List.prefix_append _ _).isInfix⟩
  · exact ⟨message, messageMem, inSecond.trans (List.suffix_append _ _).isInfix⟩

theorem mentions_append_cons {q : Char} (foreign : ∀ message ∈ messages, q ∉ message) :
    mentions (first ++ q :: second) messages =
      (mentions first messages || mentions second messages) := by
  rw [Bool.eq_iff_iff, Bool.or_eq_true]
  simp only [mentions_eq_true_iff]
  constructor
  · rintro ⟨message, messageMem, occurs⟩
    rcases (infix_append_cons_iff (foreign message messageMem)).mp occurs with inFirst | inSecond
    · exact Or.inl ⟨message, messageMem, inFirst⟩
    · exact Or.inr ⟨message, messageMem, inSecond⟩
  · rintro (⟨message, messageMem, inFirst⟩ | ⟨message, messageMem, inSecond⟩)
    · exact ⟨message, messageMem,
        (infix_append_cons_iff (foreign message messageMem)).mpr (Or.inl inFirst)⟩
    · exact ⟨message, messageMem,
        (infix_append_cons_iff (foreign message messageMem)).mpr (Or.inr inSecond)⟩

end Messages

/-! ## Two URLs that are told apart -/

section Apart

variable {before after : Bytes}

def lockUrl : Text := "https://git/x.lock".toList

def syscallUrl : Text := "https://git/ssl_error_syscallz".toList

theorem quotable_lockUrl : Quotable lockUrl where
  noSpace := by decide
  built := ⟨"x.lock".toList, "https://git".toList, [], _, rfl, rfl⟩

theorem quotable_syscallUrl : Quotable syscallUrl where
  noSpace := by decide
  built := ⟨"ssl_error_syscallz".toList, "https://git".toList, [], _, rfl, rfl⟩

theorem transientUpstreamError_lockUrl (before after : Bytes) :
    transientUpstreamError (before ++ utf8 lockUrl ++ after) = none := by
  apply transientUpstreamError_of_permanent
  rw [lowered_around (by decide)]
  exact mentions_append _ _ (Or.inr (mentions_append _ _ (Or.inl (by decide))))

/-- No permanent message occurs in this URL or runs across its ends. -/
theorem mentions_syscallUrl (before after : Text) :
    mentions (before ++ (syscallUrl.map Char.toLower ++ after)) permanentMessages =
      (mentions before permanentMessages || mentions after permanentMessages) := by
  have ends : ∀ message ∈ permanentMessages, message.getLast? ∉ "https:".toList.map some := by
    decide +kernel
  have seams : ∀ message ∈ permanentMessages, '/' ∉ message ∧ 'z' ∉ message ∧ message ≠ [] ∧
      ¬message <:+: "/git/ssl_error_syscall".toList := by
    decide +kernel
  have split : before ++ (syscallUrl.map Char.toLower ++ after) =
      (before ++ "https:".toList) ++ '/' :: ("/git/ssl_error_syscall".toList ++ 'z' :: after) := by
    have parts : syscallUrl.map Char.toLower =
        "https:".toList ++ '/' :: ("/git/ssl_error_syscall".toList ++ ['z']) := by
      decide +kernel
    rw [parts]
    simp only [List.append_assoc, List.cons_append, List.nil_append]
  rw [split, Bool.eq_iff_iff, Bool.or_eq_true]
  simp only [mentions_eq_true_iff]
  constructor
  · rintro ⟨message, messageMem, occurs⟩
    rcases seams message messageMem with ⟨noSlash, noZ, nonempty, notInside⟩
    have noEnd : ∀ a ∈ "https:".toList, message.getLast? ≠ some a := by
      intro a aMem last
      exact ends message messageMem (last ▸ List.mem_map_of_mem aMem)
    rw [infix_append_cons_iff noSlash, infix_append_iff_of_last nonempty noEnd,
      infix_append_cons_iff noZ] at occurs
    rcases occurs with inBefore | inside | inAfter
    · exact Or.inl ⟨message, messageMem, inBefore⟩
    · exact absurd inside notInside
    · exact Or.inr ⟨message, messageMem, inAfter⟩
  · rintro (⟨message, messageMem, inBefore⟩ | ⟨message, messageMem, inAfter⟩)
    · refine ⟨message, messageMem, inBefore.trans ?_⟩
      exact ((List.prefix_append _ _).trans (List.prefix_append _ _)).isInfix
    · refine ⟨message, messageMem, inAfter.trans ?_⟩
      have inRest : after <:+ "/git/ssl_error_syscall".toList ++ 'z' :: after :=
        (List.suffix_cons _ _).trans (List.suffix_append _ _)
      exact ((inRest.trans (List.suffix_cons _ _)).trans (List.suffix_append _ _)).isInfix

theorem transientUpstreamError_syscallUrl (unreported : ¬ReportsPermanent before after) :
    transientUpstreamError (before ++ utf8 syscallUrl ++ after) ≠ none := by
  apply transientUpstreamError_of_transient
  · rw [lowered_around (by decide), mentions_syscallUrl]
    simpa [ReportsPermanent] using unreported
  · left
    rw [lowered_around (by decide)]
    exact mentions_append _ _ (Or.inr (mentions_append _ _ (Or.inl (by decide))))

theorem transientUpstreamError_of_reportsPermanent (reported : ReportsPermanent before after)
    {url : Text} (nonempty : url ≠ []) :
    transientUpstreamError (before ++ utf8 url ++ after) = none := by
  apply transientUpstreamError_of_permanent
  rw [lowered_around nonempty]
  rcases reported with inBefore | inAfter
  · exact mentions_append _ _ (Or.inl inBefore)
  · exact mentions_append _ _ (Or.inr (mentions_append _ _ (Or.inr inAfter)))

theorem Quotable.ne_nil {url : Text} (quotable : Quotable url) : url ≠ [] := by
  rcases quotable.built with ⟨name, base, root, repo, resolved, rfl⟩
  rcases resolve_eq_ok_iff.mp resolved with ⟨_, placed⟩
  simp [placed]

theorem indifferent_iff : Indifferent before after ↔ ReportsPermanent before after := by
  constructor
  · intro indifferent
    by_contra unreported
    have same := indifferent lockUrl syscallUrl quotable_lockUrl quotable_syscallUrl
    rw [transientUpstreamError_lockUrl] at same
    exact transientUpstreamError_syscallUrl unreported same.symm
  · intro reported first second quotableFirst quotableSecond
    rw [transientUpstreamError_of_reportsPermanent reported quotableFirst.ne_nil,
      transientUpstreamError_of_reportsPermanent reported quotableSecond.ne_nil]

end Apart

/-! ## URLs in quotation marks -/

section Quoted

variable {text url first second : Text} {before after : Bytes} {slash : Bool}

def fence (slash : Bool) : Char := if slash then '/' else '\''

/-- The lists of messages that are looked for anywhere in a diagnostic. -/
def messageLists : List (List Text) :=
  [permanentMessages, tlsMessages, connectionMessages, dnsMessages]

theorem among_permanent : permanentMessages ∈ messageLists := List.mem_cons_self

theorem among_tls : tlsMessages ∈ messageLists := by
  simp [messageLists]

theorem among_connection : connectionMessages ∈ messageLists := by
  simp [messageLists]

theorem among_dns : dnsMessages ∈ messageLists := by
  simp [messageLists]

/-- No message is empty or contains one of the characters around the URL. -/
theorem of_mem_messageLists : ∀ messages ∈ messageLists, ∀ message ∈ messages,
    message ≠ [] ∧ ∀ slash, fence slash ∉ message := by
  decide +kernel

theorem foreign_fence (slash : Bool) {messages : List Text} (among : messages ∈ messageLists) :
    ∀ message ∈ messages, fence slash ∉ message :=
  fun message messageMem => (of_mem_messageLists messages among message messageMem).2 slash

theorem lowered_quoted (before after : Bytes) (slash : Bool) (url : Text) :
    lowered (quoted before after slash url) =
      lowered before ++ fence false :: (url.map Char.toLower ++ fence slash :: lowered after) := by
  have slashLow : '/'.toLower = '/' := rfl
  have quoteLow : '\''.toLower = '\'' := rfl
  rw [quoted, lowered_around (by simp)]
  cases slash <;> simp [fence, slashLow, quoteLow]

theorem mentions_quoted {messages : List Text} (among : messages ∈ messageLists) :
    mentions (lowered (quoted before after slash url)) messages =
      (mentions (lowered before) messages || (mentions (url.map Char.toLower) messages ||
        mentions (lowered after) messages)) := by
  rw [lowered_quoted, mentions_append_cons (foreign_fence false among),
    mentions_append_cons (foreign_fence slash among)]

theorem toLower_eq_space {c : Char} (lower : c.toLower = ' ') : c = ' ' := by
  by_cases upper : c.val ≥ 'A'.val ∧ c.val ≤ 'Z'.val
  · have shifted : c.toLower = ⟨c.val + ('a'.val - 'A'.val), _⟩ := dif_pos upper
    have moved : (c.val + ('a'.val - 'A'.val)).toNat = 32 :=
      congrArg (fun d : Char => d.val.toNat) (shifted.symm.trans lower)
    have least : 65 ≤ c.val.toNat := UInt32.le_iff_toNat_le.mp upper.1
    have most : c.val.toNat ≤ 90 := UInt32.le_iff_toNat_le.mp upper.2
    have step : ('a'.val - 'A'.val).toNat = 32 := by decide
    rw [UInt32.toNat_add, step] at moved
    omega
  · have kept : c.toLower = c := dif_neg upper
    rw [← kept, lower]

theorem space_notMem_lower (noSpace : ' ' ∉ url) : ' ' ∉ url.map Char.toLower := by
  intro spaceMem
  rcases List.mem_map.mp spaceMem with ⟨c, cMem, lower⟩
  rw [toLower_eq_space lower] at cMem
  exact noSpace cMem

/-- Only messages without a space occur in a text without one. -/
theorem mentions_of_noSpace (noSpace : ' ' ∉ text) (messages : List Text) :
    mentions text messages = mentions text (messages.filter (' ' ∉ ·)) := by
  rw [Bool.eq_iff_iff]
  simp only [mentions_eq_true_iff, List.mem_filter, decide_eq_true_eq]
  constructor
  · rintro ⟨message, messageMem, occurs⟩
    exact ⟨message, ⟨messageMem, fun spaceMem => noSpace (occurs.subset spaceMem)⟩, occurs⟩
  · rintro ⟨message, ⟨messageMem, _⟩, occurs⟩
    exact ⟨message, messageMem, occurs⟩

theorem blind_fence (slash : Bool) {code : Text} (codeMem : code ∈ transientStatuses)
    (x y : Text) :
    decide ("returned error: ".toList ++ code <:+ (x ++ fence slash :: y).rdropWhile isWhitespace) =
      decide ("returned error: ".toList ++ code <:+ y.rdropWhile isWhitespace) := by
  have foreign : ∀ code ∈ transientStatuses, ∀ slash,
      fence slash ∉ "returned error: ".toList ++ code := by
    decide +kernel
  have visible : ¬isWhitespace (fence slash) = true := by
    cases slash <;> decide
  have trimmed : (x ++ fence slash :: y).rdropWhile isWhitespace =
      x ++ fence slash :: y.rdropWhile isWhitespace := by
    induction y using List.reverseRecOn with
    | nil => rw [List.rdropWhile_nil, List.rdropWhile_concat_neg _ _ _ visible]
    | append_singleton y c ih =>
        rw [← List.cons_append, ← List.append_assoc, List.rdropWhile_concat,
          List.rdropWhile_concat, ih]
        split
        · rfl
        · simp
  rw [decide_eq_decide, trimmed]
  exact suffix_append_cons_iff (foreign code codeMem slash)

/-- A line that ends in a status has spaces in it. -/
theorem no_status_of_noSpace (noSpace : ' ' ∉ text) (code : Text) :
    (lines text).dropLast.any (fun line =>
      decide ("returned error: ".toList ++ code <:+ line.rdropWhile isWhitespace)) = false := by
  rw [List.any_eq_false]
  intro line lineMem status
  have spaceMem : ' ' ∈ "returned error: ".toList ++ code :=
    List.mem_append_left _ (by decide)
  have inLine : line <:+: text := infix_of_mem_splitOn (List.mem_of_mem_dropLast lineMem)
  have inText := (of_decide_eq_true status).isInfix.trans
    ((List.rdropWhile_prefix _ _).isInfix.trans inLine)
  exact noSpace (inText.subset spaceMem)

/-- The URL has no part in whether a status is reported. -/
theorem returnedError_quoted (noSpace : ' ' ∉ url) {code : Text}
    (codeMem : code ∈ transientStatuses) :
    returnedError (lowered (quoted before after slash url)) code =
      ((lines (lowered before)).dropLast.any (fun line => decide ("returned error: ".toList ++
        code <:+ line.rdropWhile isWhitespace)) || returnedError (lowered after) code) := by
  have ordinary : ∀ slash, fence slash ≠ '\n' := by decide
  have none := no_status_of_noSpace (space_notMem_lower noSpace) code
  rw [lines] at none
  rw [lowered_quoted, returnedError, lines,
    any_splitOn_append_cons (ordinary false) (blind_fence false codeMem),
    any_splitOn_append_cons (ordinary slash) (blind_fence slash codeMem), none, Bool.false_or]
  rfl

/-- The two messages that have no space. -/
theorem messages_without_space : permanentMessages.filter (' ' ∉ ·) = [".lock".toList] ∧
    tlsMessages.filter (' ' ∉ ·) = ["ssl_error_syscall".toList] ∧
    connectionMessages.filter (' ' ∉ ·) = [] ∧ dnsMessages.filter (' ' ∉ ·) = [] := by
  decide +kernel

theorem mentions_nil {messages : List Text} (among : messages ∈ messageLists) :
    mentions [] messages = false := by
  rw [← Bool.not_eq_true, mentions_eq_true_iff]
  rintro ⟨message, messageMem, inside⟩
  exact (of_mem_messageLists messages among message messageMem).1 (List.infix_nil.mp inside)

theorem mentions_permanent_iff (noSpace : ' ' ∉ url) :
    mentions (url.map Char.toLower) permanentMessages = true ↔ HasMark ".lock" url := by
  rw [mentions_of_noSpace (space_notMem_lower noSpace), messages_without_space.1]
  simp [mentions_eq_true_iff, HasMark]

theorem mentions_tls_iff (noSpace : ' ' ∉ url) :
    mentions (url.map Char.toLower) tlsMessages = true ↔ HasMark "ssl_error_syscall" url := by
  rw [mentions_of_noSpace (space_notMem_lower noSpace), messages_without_space.2.1]
  simp [mentions_eq_true_iff, HasMark]

theorem mentions_connection (noSpace : ' ' ∉ url) :
    mentions (url.map Char.toLower) connectionMessages = false := by
  rw [mentions_of_noSpace (space_notMem_lower noSpace), messages_without_space.2.2.1]
  rfl

theorem mentions_dns (noSpace : ' ' ∉ url) :
    mentions (url.map Char.toLower) dnsMessages = false := by
  rw [mentions_of_noSpace (space_notMem_lower noSpace), messages_without_space.2.2.2]
  rfl

theorem transientUpstreamError_quoted_lock (noSpace : ' ' ∉ url) (lock : HasMark ".lock" url) :
    transientUpstreamError (quoted before after slash url) = none := by
  apply transientUpstreamError_of_permanent
  rw [mentions_quoted among_permanent, (mentions_permanent_iff noSpace).mpr lock]
  simp

theorem interchangeable_of_sameMarks (noSpaceFirst : ' ' ∉ first) (noSpaceSecond : ' ' ∉ second)
    (same : SameMarks first second) : Interchangeable first second := by
  intro before after slash
  by_cases lock : HasMark ".lock" first
  · rw [transientUpstreamError_quoted_lock noSpaceFirst lock,
      transientUpstreamError_quoted_lock noSpaceSecond (same.lock.mp lock)]
  have permanent : mentions (first.map Char.toLower) permanentMessages =
      mentions (second.map Char.toLower) permanentMessages := by
    rw [Bool.eq_iff_iff, mentions_permanent_iff noSpaceFirst, mentions_permanent_iff noSpaceSecond]
    exact same.lock
  have tls : mentions (first.map Char.toLower) tlsMessages =
      mentions (second.map Char.toLower) tlsMessages := by
    rw [Bool.eq_iff_iff, mentions_tls_iff noSpaceFirst, mentions_tls_iff noSpaceSecond]
    exact same.syscall lock
  apply transientUpstreamError_congr
  · rw [mentions_quoted among_permanent, mentions_quoted among_permanent, permanent]
  · intro code codeMem
    rw [returnedError_quoted noSpaceFirst codeMem, returnedError_quoted noSpaceSecond codeMem]
  · rw [mentions_quoted among_tls, mentions_quoted among_tls, tls]
  · rw [mentions_quoted among_connection, mentions_quoted among_connection,
      mentions_connection noSpaceFirst, mentions_connection noSpaceSecond]
  · rw [mentions_quoted among_dns, mentions_quoted among_dns,
      mentions_dns noSpaceFirst, mentions_dns noSpaceSecond]

theorem Interchangeable.symm (same : Interchangeable first second) :
    Interchangeable second first :=
  fun before after slash => (same before after slash).symm

theorem mentions_permanent_eq_false (noSpace : ' ' ∉ url) (noLock : ¬HasMark ".lock" url) :
    mentions (url.map Char.toLower) permanentMessages = false := by
  rw [← Bool.not_eq_true, mentions_permanent_iff noSpace]
  exact noLock

theorem mentions_quoted_nil {messages : List Text} (among : messages ∈ messageLists) :
    mentions (lowered (quoted [] [] slash url)) messages =
      mentions (url.map Char.toLower) messages := by
  have empty : lowered [] = [] := rfl
  rw [mentions_quoted among, empty, mentions_nil among, Bool.false_or, Bool.or_false]

/-- A lost connection is reported next to both URLs. -/
theorem Interchangeable.lock (noSpaceFirst : ' ' ∉ first) (noSpaceSecond : ' ' ∉ second)
    (same : Interchangeable first second) (lock : HasMark ".lock" first) :
    HasMark ".lock" second := by
  by_contra noLock
  have lost : mentions (lowered (utf8 ": connection reset".toList)) permanentMessages = false ∧
      mentions (lowered (utf8 ": connection reset".toList)) connectionMessages = true := by
    decide +kernel
  have empty : lowered [] = [] := rfl
  have answer := same [] (utf8 ": connection reset".toList) true
  rw [transientUpstreamError_quoted_lock noSpaceFirst lock] at answer
  apply transientUpstreamError_of_transient _ _ answer.symm
  · rw [mentions_quoted among_permanent, lost.1, empty,
      mentions_nil among_permanent, mentions_permanent_eq_false noSpaceSecond noLock]
    rfl
  · right
    rw [mentions_quoted among_connection, lost.2, Bool.or_true, Bool.or_true]

/-- Nothing is reported next to either URL. -/
theorem Interchangeable.syscall (noSpaceFirst : ' ' ∉ first) (noSpaceSecond : ' ' ∉ second)
    (same : Interchangeable first second) (noLockFirst : ¬HasMark ".lock" first)
    (noLockSecond : ¬HasMark ".lock" second) (syscall : HasMark "ssl_error_syscall" first) :
    HasMark "ssl_error_syscall" second := by
  by_contra noSyscall
  have answer := same [] [] true
  apply transientUpstreamError_of_transient _ _ (answer.trans _)
  · rw [mentions_quoted_nil among_permanent,
      mentions_permanent_eq_false noSpaceFirst noLockFirst]
  · left
    rw [mentions_quoted_nil among_tls, (mentions_tls_iff noSpaceFirst).mpr syscall]
  · have noPermanent : mentions (lowered (quoted [] [] true second)) permanentMessages = false := by
      rw [mentions_quoted_nil among_permanent,
        mentions_permanent_eq_false noSpaceSecond noLockSecond]
    have noStatus : transientStatuses.any
        (returnedError (lowered (quoted [] [] true second))) = false := by
      rw [List.any_eq_false]
      intro code codeMem
      rw [returnedError_quoted noSpaceSecond codeMem]
      revert code
      decide
    have noTls : mentions (lowered (quoted [] [] true second)) tlsMessages = false := by
      rw [mentions_quoted_nil among_tls, ← Bool.not_eq_true,
        mentions_tls_iff noSpaceSecond]
      exact noSyscall
    have noConnection : mentions (lowered (quoted [] [] true second)) connectionMessages =
        false := by
      rw [mentions_quoted_nil among_connection, mentions_connection noSpaceSecond]
    have noDns : mentions (lowered (quoted [] [] true second)) dnsMessages = false := by
      rw [mentions_quoted_nil among_dns, mentions_dns noSpaceSecond]
    unfold lowered at noPermanent noStatus noTls noConnection noDns
    simp only [transientUpstreamError, noPermanent, noStatus, noTls, noConnection, noDns,
      Bool.false_eq_true, if_false]

theorem interchangeable_iff (noSpaceFirst : ' ' ∉ first) (noSpaceSecond : ' ' ∉ second) :
    Interchangeable first second ↔ SameMarks first second := by
  constructor
  · intro same
    have lock : HasMark ".lock" first ↔ HasMark ".lock" second :=
      ⟨same.lock noSpaceFirst noSpaceSecond, same.symm.lock noSpaceSecond noSpaceFirst⟩
    refine ⟨lock, fun noLock => ?_⟩
    have noLock' := (not_congr lock).mp noLock
    exact ⟨same.syscall noSpaceFirst noSpaceSecond noLock noLock',
      same.symm.syscall noSpaceSecond noSpaceFirst noLock' noLock⟩
  · exact interchangeable_of_sameMarks noSpaceFirst noSpaceSecond

end Quoted

/-! ## Which diagnostics and which URLs -/

def plainUrl : Text := "https://git/x".toList

theorem quotable_plainUrl : Quotable plainUrl where
  noSpace := by decide
  built := ⟨"x".toList, "https://git".toList, [], _, rfl, rfl⟩

end GitCacheProxy.Git
