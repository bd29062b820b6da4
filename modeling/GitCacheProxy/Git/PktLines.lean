import GitCacheProxy.Git.Wants

/-!
# The framing of a request

A request is a sequence of pkt-lines: a header of four hexadecimal digits, and the rest of
the length that it gives.  `parse_wants` walks from one header to the next.

A frame carries the proof that its header fits it (`Frame`), so that the walk takes
a frame off the front whatever comes after it (`walk_frame`).  That makes it
complete for what `pkt_line` encodes.  Where the frames end, the walk stops as well, unless the
next four bytes are one of the headers that only the scanner takes for one: the reserved
length 3, and a plus sign with three digits.
-/

namespace GitCacheProxy.Git

/-! ## Frames -/

/-- The number that a header of four hexadecimal digits denotes. -/
def headerValue (header : List UInt8) : Option ℕ :=
  if header.length = 4 then hexDigits header else none

/-- A flush, delim or response-end packet, or a length with the frame that it is the length of. -/
structure Frame where
  bytes : List UInt8
  value : ℕ
  header : headerValue (bytes.take 4) = some value
  size : value ≤ 2 ∧ bytes.length = 4 ∨ 4 ≤ value ∧ bytes.length = value

namespace Frame

def payload (frame : Frame) : List UInt8 := frame.bytes.drop 4

theorem four_le (frame : Frame) : 4 ≤ frame.bytes.length := by
  rcases frame.size with ⟨_, short⟩ | ⟨least, exact⟩
  · omega
  · omega

end Frame

/-- The object IDs that these frames want. -/
def wantsOf (frames : List Frame) : Finset Text :=
  (frames.filterMap fun frame => wantOfPayload frame.payload).toFinset

/-! ## Numbers in hexadecimal -/

section Hex

variable {digits : List UInt8} {value : ℕ}

theorem hexDigits_concat (digits : List UInt8) (digit : UInt8) :
    hexDigits (digits ++ [digit]) = (hexDigits digits).bind fun value =>
      (hexDigit digit).map fun last => 16 * value + last := by
  rw [hexDigits, List.foldl_concat, ← hexDigits]
  cases hexDigits digits with
  | none => rfl
  | some value =>
      cases hexDigit digit with
      | none => rfl
      | some last => rfl

theorem hexDigits_isSome_iff :
    (hexDigits digits).isSome = true ↔ ∀ digit ∈ digits, (hexDigit digit).isSome = true := by
  induction digits using List.reverseRecOn with
  | nil => simp [hexDigits]
  | append_singleton digits digit ih =>
      rw [hexDigits_concat]
      cases found : hexDigits digits with
      | none =>
          rw [found] at ih
          simp only [Option.bind_none, Option.isSome_none, Bool.false_eq_true, false_iff] at ih ⊢
          exact fun all => ih fun digit digitMem => all digit (List.mem_append_left _ digitMem)
      | some value =>
          rw [found] at ih
          have before := ih.mp rfl
          simp only [Option.bind_some, Option.isSome_map, List.mem_append, List.mem_singleton]
          constructor
          · rintro last other (otherMem | rfl)
            · exact before other otherMem
            · exact last
          · exact fun all => all digit (Or.inr rfl)

/-- A header is read as what its digits denote. -/
theorem frameLength_of_headerValue {header : List UInt8}
    (found : headerValue header = some value) : frameLength header = some value := by
  unfold headerValue at found
  split at found
  · have digitsOnly := hexDigits_isSome_iff.mp (Option.isSome_of_eq_some found)
    unfold frameLength
    split
    · have noPlus : (hexDigit 43).isSome ≠ true := by decide
      exact absurd (digitsOnly 43 List.mem_cons_self) noPlus
    · exact found
  · cases found

/-- What the scanner takes for a header has four digits, or a plus sign and three. -/
theorem frameLength_cases {header : List UInt8} (four : header.length = 4)
    (found : frameLength header = some value) : headerValue header = some value ∨
      ∃ digits, header = 43 :: digits ∧ hexDigits digits = some value := by
  unfold frameLength at found
  split at found
  · exact Or.inr ⟨_, rfl, found⟩
  · rw [headerValue, if_pos four]
    exact Or.inl found

end Hex

/-! ## The walk -/

section Walk

variable {body rest : List UInt8}

/-- The object IDs that the walk comes across. -/
def walk (body : List UInt8) : List Text := walkFrames body.length body

theorem walkFrames_eq (fuel : ℕ) (enough : body.length ≤ fuel) :
    walkFrames fuel body = walk body := by
  induction fuel using Nat.strong_induction_on generalizing body with
  | _ fuel ih =>
  cases fuel with
  | zero =>
      rw [Nat.le_zero, List.length_eq_zero_iff] at enough
      rw [enough]
      rfl
  | succ fuel =>
      rw [walk]
      cases count : body.length with
      | zero =>
          rw [List.length_eq_zero_iff] at count
          rw [count]
          rfl
      | succ size =>
          have same (dropped : ℕ) (least : 4 ≤ dropped) : walkFrames fuel (body.drop dropped) =
              walkFrames size (body.drop dropped) := by
            rw [ih fuel (by omega) (by rw [List.length_drop]; omega),
              ih size (by omega) (by rw [List.length_drop]; omega)]
          simp only [walkFrames]
          split
          · rfl
          cases frameLength (body.take 4) with
          | none => rfl
          | some len =>
              simp only [same 4 le_rfl]
              split
              · rfl
              · rw [same len (by omega)]

/-- One round of the walk. -/
theorem walk_eq (body : List UInt8) :
    walk body =
      if body.length < 4 then []
      else
        match frameLength (body.take 4) with
        | none => []
        | some len =>
            if len < 4 then walk (body.drop 4)
            else if len > body.length then []
            else (wantOfPayload ((body.take len).drop 4)).toList ++ walk (body.drop len) := by
  have dropped (fuel count : ℕ) (enough : body.length ≤ fuel + 1) (least : 4 ≤ count) :
      walkFrames fuel (body.drop count) = walk (body.drop count) := by
    apply walkFrames_eq
    rw [List.length_drop]
    omega
  rw [← walkFrames_eq (body.length + 1) (Nat.le_succ _), walkFrames]
  split
  · rfl
  cases frameLength (body.take 4) with
  | none => rfl
  | some len =>
      simp only
      split
      · rw [dropped _ 4 (Nat.le_succ _) le_rfl]
      split
      · rfl
      · rw [dropped _ len (Nat.le_succ _) (by omega)]
        cases wantOfPayload ((body.take len).drop 4) with
        | none => rfl
        | some oid => rfl

/-- The walk takes a frame off the front. -/
theorem walk_frame (frame : Frame) (rest : List UInt8) :
    walk (frame.bytes ++ rest) = (wantOfPayload frame.payload).toList ++ walk rest := by
  have four := frame.four_le
  have header : (frame.bytes ++ rest).take 4 = frame.bytes.take 4 :=
    List.take_append_of_le_length four
  rw [walk_eq, header, frameLength_of_headerValue frame.header, List.length_append,
    if_neg (by omega)]
  simp only
  rcases frame.size with ⟨reserved, short⟩ | ⟨least, exact⟩
  · have nothing : wantOfPayload frame.payload = none := by
      rw [Frame.payload, List.drop_eq_nil_of_le short.le]
      decide
    rw [if_pos (by omega), List.drop_left' short, nothing]
    rfl
  · rw [if_neg (by omega), if_neg (by omega), List.take_left' exact, List.drop_left' exact,
      ← Frame.payload]

theorem parseWants_frames (frames : List Frame) (rest : List UInt8) :
    parseWants (frames.flatMap Frame.bytes ++ rest) = wantsOf frames ∪ parseWants rest := by
  induction frames with
  | nil => simp [wantsOf]
  | cons frame frames ih =>
      have walked := walk_frame frame (frames.flatMap Frame.bytes ++ rest)
      rw [List.flatMap_cons, List.append_assoc]
      rw [parseWants, ← walk, walked, List.toFinset_append]
      rw [parseWants, ← walk] at ih
      rw [ih, ← Finset.union_assoc]
      congr 1
      rw [wantsOf, wantsOf, List.filterMap_cons]
      cases wantOfPayload frame.payload with
      | none => simp
      | some oid =>
          ext other
          simp

end Walk

/-! ## Where the frames end -/

section Malformed

variable {header rest : List UInt8}

/-- No frame of the protocol starts here. -/
def Unframed (rest : List UInt8) : Prop := ¬∃ frame : Frame, frame.bytes <+: rest

/-- Where the frames end with these bytes, no later byte has an influence on the result.  Less than
four bytes are the end of the request. -/
def StopsAt (header : List UInt8) : Prop :=
  ∀ (frames : List Frame) (later : List UInt8), (header.length < 4 → later = []) →
    Unframed (header ++ later) →
      parseWants (frames.flatMap Frame.bytes ++ (header ++ later)) = wantsOf frames

/-- The headers that only the scanner takes for one. -/
inductive Quirk (header : List UInt8) : Prop
  | reserved (denotes : headerValue header = some 3)
  | plus (digits : List UInt8) (signed : header = 43 :: digits) (three : digits.length = 3)
      (hex : ∀ digit ∈ digits, (hexDigit digit).isSome = true)

theorem walk_of_length_lt (short : rest.length < 4) : walk rest = [] := by
  rw [walk_eq, if_pos short]

/-- Why four digits are no header of a frame. -/
theorem Unframed.value {value : ℕ} (unframed : Unframed rest) (four : 4 ≤ rest.length)
    (denotes : headerValue (rest.take 4) = some value) :
    value = 3 ∨ 4 ≤ value ∧ rest.length < value := by
  have taken (size : ℕ) (least : 4 ≤ size) :
      headerValue ((rest.take size).take 4) = some value := by
    rw [List.take_take, Nat.min_eq_left least, denotes]
  have length : (rest.take 4).length = 4 := by
    rw [List.length_take]
    omega
  rcases Nat.lt_or_ge 2 value with large | reserved
  · rcases Nat.lt_or_ge rest.length value with beyond | inside
    · omega
    by_contra! framed
    have sized : (rest.take value).length = value := by
      rw [List.length_take]
      omega
    exact unframed ⟨⟨rest.take value, value, taken value (by omega), Or.inr ⟨by omega, sized⟩⟩,
      List.take_prefix _ _⟩
  · exact absurd ⟨⟨rest.take 4, value, taken 4 le_rfl, Or.inl ⟨reserved, length⟩⟩,
      List.take_prefix _ _⟩ unframed

theorem walk_of_unframed (unframed : Unframed rest) (proper : ¬Quirk (rest.take 4)) :
    walk rest = [] := by
  rcases Nat.lt_or_ge rest.length 4 with short | four
  · exact walk_of_length_lt short
  have taken : (rest.take 4).length = 4 := by
    rw [List.length_take]
    omega
  rw [walk_eq, if_neg (by omega)]
  cases found : frameLength (rest.take 4) with
  | none => rfl
  | some len =>
      rcases frameLength_cases taken found with denotes | ⟨digits, signed, value⟩
      · rcases unframed.value four denotes with rfl | ⟨least, beyond⟩
        · exact absurd (.reserved denotes) proper
        · simp only
          rw [if_neg (by omega), if_pos (by omega)]
      · have three : digits.length = 3 := by
          rw [signed, List.length_cons] at taken
          omega
        have hex := hexDigits_isSome_iff.mp (Option.isSome_of_eq_some value)
        exact absurd (.plus digits signed three hex) proper

/-- Past a quirk, and a payload of zeros if it asks for one, the walk goes on. -/
theorem walk_of_frameLength {value : ℕ} (four : header.length = 4)
    (found : frameLength header = some value) (rest : List UInt8) :
    walk (header ++ (List.replicate (value - 4) 0 ++ rest)) = walk rest := by
  have length : (header ++ (List.replicate (value - 4) 0 ++ rest)).length =
      4 + (value - 4 + rest.length) := by
    simp [four]
  have taken : (header ++ (List.replicate (value - 4) 0 ++ rest)).take 4 = header := by
    rw [← four, List.take_left]
  rw [walk_eq, if_neg (by omega), taken, found]
  simp only
  rcases Nat.lt_or_ge value 4 with small | least
  · have noPayload : value - 4 = 0 := by omega
    rw [if_pos small, List.drop_left' four, noPayload, List.replicate_zero, List.nil_append]
  · have sized : (header ++ List.replicate (value - 4) 0).length = value := by
      rw [List.length_append, List.length_replicate]
      omega
    have payload : wantOfPayload (List.replicate (value - 4) (0 : UInt8)) = none := by
      rw [wantOfPayload, if_neg]
      intro marked
      have zero := List.eq_of_mem_replicate (marked.subset (List.mem_cons_self (a := 119)))
      revert zero
      decide
    have inside : ((header ++ (List.replicate (value - 4) 0 ++ rest)).take value).drop 4 =
        List.replicate (value - 4) 0 := by
      rw [← List.append_assoc, List.take_left' sized, ← four, List.drop_left]
    have beyond : (header ++ (List.replicate (value - 4) 0 ++ rest)).drop value = rest := by
      rw [← List.append_assoc, List.drop_left' sized]
    rw [if_neg (by omega), if_neg (by omega), inside, beyond, payload]
    rfl

theorem Quirk.length (quirk : Quirk header) : header.length = 4 := by
  cases quirk with
  | reserved denotes =>
      unfold headerValue at denotes
      split at denotes
      · assumption
      · cases denotes
  | plus digits signed three hex => rw [signed, List.length_cons, three]

theorem Quirk.frameLength (quirk : Quirk header) : ∃ value, Git.frameLength header = some value := by
  cases quirk with
  | reserved denotes => exact ⟨3, frameLength_of_headerValue denotes⟩
  | plus digits signed three hex =>
      rcases Option.isSome_iff_exists.mp (hexDigits_isSome_iff.mpr hex) with ⟨value, found⟩
      exact ⟨value, by rw [signed]; exact found⟩

/-- A quirk is no header of a frame. -/
theorem Quirk.unframed (quirk : Quirk header) (later : List UInt8) :
    Unframed (header ++ later) := by
  rintro ⟨frame, rest, split⟩
  have taken : frame.bytes.take 4 = header := by
    have whole := congrArg (List.take 4) split
    rwa [List.take_append_of_le_length frame.four_le, List.take_left' quirk.length] at whole
  have denotes := frame.header
  rw [taken] at denotes
  cases quirk with
  | reserved three =>
      rw [three, Option.some.injEq] at denotes
      have size := frame.size
      omega
  | plus digits signed three hex =>
      rw [signed, headerValue] at denotes
      split at denotes
      · have digit := hexDigits_isSome_iff.mp (Option.isSome_of_eq_some denotes) 43
          List.mem_cons_self
        revert digit
        decide
      · cases denotes

/-- A want for the object ID of forty `a`s. -/
def sampleWant : Frame where
  bytes := "0032want ".toList.map (UInt8.ofNat ·.toNat) ++ List.replicate 40 97 ++ [10]
  value := 50
  header := by decide
  size := by decide

theorem want_of_sampleWant : wantOfPayload sampleWant.payload = some (List.replicate 40 'a') := by
  decide

theorem Quirk.not_stopsAt (quirk : Quirk header) : ¬StopsAt header := by
  intro stops
  rcases quirk.frameLength with ⟨value, found⟩
  have short (less : header.length < 4) :
      List.replicate (value - 4) 0 ++ sampleWant.bytes = [] := by
    have four := quirk.length
    omega
  have nothing := stops [] _ short (quirk.unframed _)
  rw [List.flatMap_nil, List.nil_append, parseWants, ← walk, walk_of_frameLength quirk.length found,
    ← List.append_nil sampleWant.bytes, walk_frame, want_of_sampleWant] at nothing
  exact absurd nothing (by simp [wantsOf])

/-- Where the frames end, so does the influence of the bytes, except after the two quirks. -/
theorem stopsAt_iff (header : List UInt8) (within : header.length ≤ 4) :
    StopsAt header ↔ ¬Quirk header := by
  constructor
  · exact fun stops quirk => quirk.not_stopsAt stops
  · intro proper frames later atEnd unframed
    have first : (header ++ later).take 4 = header := by
      rcases Nat.lt_or_ge header.length 4 with short | four
      · rw [atEnd short, List.append_nil, List.take_of_length_le within]
      · exact List.take_left' (Nat.le_antisymm within four)
    have stopped : walk (header ++ later) = [] := by
      apply walk_of_unframed unframed
      rwa [first]
    rw [parseWants_frames, parseWants, ← walk, stopped, List.toFinset_nil, Finset.union_empty]

theorem stopsAt_nonHex : StopsAt ("zzzz".toList.map (UInt8.ofNat ·.toNat)) := by
  refine (stopsAt_iff _ (by decide)).mpr ?_
  rintro (denotes | ⟨digits, signed, _, _⟩)
  · revert denotes
    decide
  · have first : ("zzzz".toList.map (UInt8.ofNat ·.toNat)).head? = some 43 := by
      rw [signed, List.head?_cons]
    revert first
    decide

/-- A request that starts with the reserved length 3 and goes on with a want. -/
def reservedBody : List UInt8 := "0003".toList.map (UInt8.ofNat ·.toNat) ++ sampleWant.bytes

theorem wants_after_reserved : Unframed reservedBody ∧
    parseWants reservedBody = {List.replicate 40 'a'} := by
  have quirk : Quirk ("0003".toList.map (UInt8.ofNat ·.toNat)) := .reserved (by decide)
  refine ⟨quirk.unframed _, ?_⟩
  have found : frameLength ("0003".toList.map (UInt8.ofNat ·.toNat)) = some 3 := by decide
  have walked := walk_of_frameLength (by decide) found sampleWant.bytes
  have after : walk sampleWant.bytes = [List.replicate 40 'a'] := by
    rw [← List.append_nil sampleWant.bytes, walk_frame, want_of_sampleWant]
    rfl
  have same : "0003".toList.map (UInt8.ofNat ·.toNat) ++
      (List.replicate (3 - 4) 0 ++ sampleWant.bytes) = reservedBody := rfl
  rw [same, after] at walked
  rw [parseWants, ← walk, walked]
  rfl

end Malformed

/-! ## What `pkt_line` encodes -/

/-- `format!("{:04x}", n)` in ASCII. -/
def hexHeader (n : ℕ) : List UInt8 :=
  ((Nat.toDigits 16 n).leftpad 4 '0').map fun digit => UInt8.ofNat digit.toNat

def pktLine (payload : List UInt8) : List UInt8 := hexHeader (payload.length + 4) ++ payload

inductive Packet where
  | flush
  | delim
  | responseEnd
  | line (payload : List UInt8) (fits : payload.length + 4 ≤ 0xffff)

namespace Packet

def encode : Packet → List UInt8
  | flush => "0000".toList.map (UInt8.ofNat ·.toNat)
  | delim => "0001".toList.map (UInt8.ofNat ·.toNat)
  | responseEnd => "0002".toList.map (UInt8.ofNat ·.toNat)
  | line payload _ => pktLine payload

end Packet

section Encoding

theorem hexDigit_digitChar : ∀ digit < 16,
    hexDigit (UInt8.ofNat (Nat.digitChar digit).toNat) = some digit := by
  decide

theorem hexDigits_toDigits (n : ℕ) :
    hexDigits ((Nat.toDigits 16 n).map fun digit => UInt8.ofNat digit.toNat) = some n := by
  induction n using Nat.strong_induction_on with
  | _ n ih =>
  rcases Nat.lt_or_ge n 16 with small | large
  · rw [Nat.toDigits_of_lt_base small, List.map_singleton, ← List.nil_append [_], hexDigits_concat,
      hexDigit_digitChar n small]
    simp [hexDigits]
  · have last := hexDigit_digitChar (n % 16) (Nat.mod_lt n (by decide))
    rw [Nat.toDigits_of_base_le (by decide) large, List.map_append, List.map_singleton,
      hexDigits_concat, ih (n / 16) (by omega), last]
    simp only [Option.bind_some, Option.map_some, Option.some.injEq]
    omega

/-- Leading zeros do not count. -/
theorem hexDigits_zeros (k : ℕ) (digits : List UInt8) :
    hexDigits (List.replicate k 48 ++ digits) = hexDigits digits := by
  induction digits using List.reverseRecOn with
  | nil =>
      rw [List.append_nil]
      induction k with
      | zero => rfl
      | succ k ih =>
          rw [List.replicate_succ', hexDigits_concat, ih]
          rfl
  | append_singleton digits digit ih =>
      rw [← List.append_assoc, hexDigits_concat, hexDigits_concat, ih]

theorem headerValue_hexHeader {n : ℕ} (fits : n ≤ 0xffff) :
    headerValue (hexHeader n) = some n := by
  have short : (Nat.toDigits 16 n).length ≤ 4 :=
    (Nat.length_toDigits_le_iff (by decide) (by decide)).mpr (by omega)
  have four : (hexHeader n).length = 4 := by
    rw [hexHeader, List.length_map, List.leftpad, List.length_append, List.length_replicate]
    omega
  rw [headerValue, if_pos four, hexHeader, List.leftpad, List.map_append, List.map_replicate]
  exact (hexDigits_zeros _ _).trans (hexDigits_toDigits n)

theorem length_hexHeader {n : ℕ} (fits : n ≤ 0xffff) : (hexHeader n).length = 4 := by
  have denotes := headerValue_hexHeader fits
  unfold headerValue at denotes
  split at denotes
  · assumption
  · cases denotes

namespace Packet

/-- The payload of a packet; the others than lines have none. -/
def payload : Packet → List UInt8
  | line payload _ => payload
  | _ => []

/-- What is encoded is a frame of the protocol. -/
def frame (packet : Packet) : Frame :=
  match packet with
  | flush => ⟨encode flush, 0, by decide, by decide⟩
  | delim => ⟨encode delim, 1, by decide, by decide⟩
  | responseEnd => ⟨encode responseEnd, 2, by decide, by decide⟩
  | line payload fits => {
      bytes := pktLine payload
      value := payload.length + 4
      header := by
        rw [pktLine, List.take_left' (length_hexHeader fits), headerValue_hexHeader fits]
      size := by
        right
        rw [pktLine, List.length_append, length_hexHeader fits]
        omega }

theorem bytes_frame (packet : Packet) : packet.frame.bytes = packet.encode := by
  cases packet with
  | flush => rfl
  | delim => rfl
  | responseEnd => rfl
  | line payload fits => rfl

theorem payload_frame (packet : Packet) : packet.frame.payload = packet.payload := by
  cases packet with
  | flush => rfl
  | delim => rfl
  | responseEnd => rfl
  | line payload fits => exact List.drop_left' (length_hexHeader fits)

end Packet

end Encoding

/-! ## The cursor -/

/-- `&body[start..stop]`, which panics out of range. -/
def slice (body : List UInt8) (start stop : ℕ) : Option (List UInt8) :=
  if start ≤ stop ∧ stop ≤ body.length then some ((body.take stop).drop start) else none

inductive ScanStep where
  | ends
  | panics
  | advances (pos : ℕ) (want : Option Text)

/-- The body of the loop of `parse_wants`. -/
def scanStep (body : List UInt8) (pos : ℕ) : ScanStep :=
  if pos + 4 ≤ body.length then
    match slice body pos (pos + 4) with
    | none => .panics
    | some header =>
        match frameLength header with
        | none => .ends
        | some len =>
            if len < 4 then .advances (pos + 4) none
            else if pos + len > body.length then .ends
            else
              match slice body (pos + 4) (pos + len) with
              | none => .panics
              | some payload => .advances (pos + len) (wantOfPayload payload)
  else .ends

/-- The loop; `none` is a loop that panics or does not end. -/
def scan (body : List UInt8) : ℕ → ℕ → Option (List Text)
  | 0, _ => none
  | fuel + 1, pos =>
      match scanStep body pos with
      | .ends => some []
      | .panics => none
      | .advances pos want => (scan body fuel pos).map (want.toList ++ ·)

section Cursor

variable {body : List UInt8} {pos : ℕ}

theorem slice_eq {start stop : ℕ} (ordered : start ≤ stop) (inside : stop ≤ body.length) :
    slice body start stop = some ((body.drop start).take (stop - start)) := by
  rw [slice, if_pos ⟨ordered, inside⟩, List.drop_take]

/-- What the loop does on one request, wherever its cursor is. -/
structure Scans (body : List UInt8) : Prop where
  inRange : ∀ pos, scanStep body pos ≠ .panics
  advances : ∀ pos next want, scanStep body pos = .advances next want →
    pos + 4 ≤ next ∧ next ≤ body.length
  ends : ∃ fuel wants, scan body fuel 0 = some wants ∧ wants.toFinset = parseWants body

theorem scanStep_ne_panics (body : List UInt8) (pos : ℕ) : scanStep body pos ≠ .panics := by
  unfold scanStep
  split
  · rename_i inside
    rw [slice_eq (Nat.le_add_right _ _) inside]
    simp only
    split
    · simp
    split
    · simp
    split
    · simp
    · rw [slice_eq (by omega) (by omega)]
      simp
  · simp

theorem advances_of_scanStep {next : ℕ} {want : Option Text}
    (stepped : scanStep body pos = .advances next want) :
    pos + 4 ≤ next ∧ next ≤ body.length := by
  unfold scanStep at stepped
  split at stepped
  · rename_i inside
    rw [slice_eq (Nat.le_add_right _ _) inside] at stepped
    simp only at stepped
    split at stepped
    · cases stepped
    split at stepped
    · cases stepped
      omega
    split at stepped
    · cases stepped
    · rw [slice_eq (by omega) (by omega)] at stepped
      cases stepped
      omega
  · cases stepped

/-- The cursor walks over the rest of the request. -/
theorem scan_eq (fuel : ℕ) (within : pos ≤ body.length) (enough : body.length - pos < fuel) :
    scan body fuel pos = some (walk (body.drop pos)) := by
  induction fuel generalizing pos with
  | zero => omega
  | succ fuel ih =>
      have length := List.length_drop (i := pos) (l := body)
      rw [scan, walk_eq, length, scanStep]
      by_cases inside : pos + 4 ≤ body.length
      · rw [if_pos inside, if_neg (by omega), slice_eq (Nat.le_add_right _ _) inside,
          Nat.add_sub_cancel_left]
        simp only
        cases frameLength ((body.drop pos).take 4) with
        | none => rfl
        | some len =>
            by_cases small : len < 4
            · simp only [small, if_true]
              rw [ih inside (by omega), List.drop_drop]
              rfl
            by_cases beyond : pos + len > body.length
            · have beyond' : len > body.length - pos := by omega
              simp only [small, beyond, beyond', if_true, if_false]
            · have fits : ¬len > body.length - pos := by omega
              have payload : (body.drop (pos + 4)).take (pos + len - (pos + 4)) =
                  ((body.drop pos).take len).drop 4 := by
                rw [List.drop_take, List.drop_drop]
                congr 1
                omega
              simp only [small, beyond, fits, if_false]
              rw [slice_eq (by omega) (by omega), payload, List.drop_drop]
              simp only
              rw [ih (by omega) (by omega)]
              rfl
      · rw [if_neg inside, if_pos (by omega)]

theorem scans (body : List UInt8) : Scans body where
  inRange := scanStep_ne_panics body
  advances _ _ _ := advances_of_scanStep
  ends := ⟨body.length + 1, _, scan_eq _ (Nat.zero_le _) (by omega), rfl⟩

end Cursor

/-! ## Completeness -/

/-- After `want ` there are 40 or 64 hexadecimal digits, and no further one. -/
def IsWant (payload : List UInt8) (oid : Text) : Prop :=
  ∃ run rest, payload = wantMark ++ (run ++ rest) ∧
    (∀ byte ∈ run, (hexDigit byte).isSome = true) ∧
    (∀ byte ∈ rest.head?, (hexDigit byte).isSome = false) ∧
    (run.length = 40 ∨ run.length = 64) ∧ oid = run.map fun byte => Char.ofNat byte.toNat

theorem takeWhile_run {run rest : List UInt8}
    (digits : ∀ byte ∈ run, (hexDigit byte).isSome = true)
    (ended : ∀ byte ∈ rest.head?, (hexDigit byte).isSome = false) :
    (run ++ rest).takeWhile (fun byte => (hexDigit byte).isSome) = run := by
  rw [List.takeWhile_append_of_pos digits]
  cases rest with
  | nil => simp
  | cons byte rest => simp [ended byte rfl]

theorem wantOfPayload_eq_some_iff {payload : List UInt8} {oid : Text} :
    wantOfPayload payload = some oid ↔ IsWant payload oid := by
  constructor
  · intro wanted
    unfold wantOfPayload at wanted
    split at wanted
    · rename_i marked
      rcases marked with ⟨line, rfl⟩
      rw [List.drop_left] at wanted
      simp only [Option.ite_none_right_eq_some, Option.some.injEq] at wanted
      refine ⟨line.takeWhile fun byte => (hexDigit byte).isSome,
        line.dropWhile fun byte => (hexDigit byte).isSome, ?_, ?_, ?_, wanted.1, wanted.2.symm⟩
      · rw [List.takeWhile_append_dropWhile]
      · exact fun byte => List.mem_takeWhile_imp (p := fun byte => (hexDigit byte).isSome)
      · intro byte first
        have notDigit := List.head?_dropWhile_not (fun byte => (hexDigit byte).isSome) line
        rw [Option.mem_def.mp first] at notDigit
        exact notDigit
    · cases wanted
  · rintro ⟨run, rest, rfl, digits, ended, size, rfl⟩
    rw [wantOfPayload, if_pos (List.prefix_append _ _), List.drop_left, takeWhile_run digits ended]
    simp only
    rw [if_pos size]

/-- What is wanted by encoded packets, before whatever bytes. -/
theorem mem_parseWants_packets (packets : List Packet) (rest : List UInt8) (oid : Text) :
    oid ∈ parseWants (packets.flatMap Packet.encode ++ rest) ↔
      oid ∈ parseWants rest ∨ ∃ packet ∈ packets, IsWant packet.payload oid := by
  have encoded : packets.flatMap Packet.encode = (packets.map Packet.frame).flatMap Frame.bytes := by
    rw [List.flatMap_map]
    exact List.flatMap_congr fun packet _ => packet.bytes_frame.symm
  rw [encoded, parseWants_frames, Finset.mem_union, or_comm]
  simp [wantsOf, Packet.payload_frame, wantOfPayload_eq_some_iff]

/-- The scanner finds exactly the wants of well-formed packets, and walks through any bytes. -/
theorem wantScanner_correct :
    (∀ (packets : List Packet) (rest : List UInt8) (oid : Text),
      oid ∈ parseWants (packets.flatMap Packet.encode ++ rest) ↔
        oid ∈ parseWants rest ∨ ∃ packet ∈ packets, IsWant packet.payload oid) ∧
      ∀ body, Scans body :=
  ⟨mem_parseWants_packets, scans⟩

end GitCacheProxy.Git
