import GitCacheProxy.Git.Upstream

/-!
# Decoding what git prints

`String::from_utf8_lossy` reads one character after the other (`lossy_cons`).  Two
pieces that meet between two characters are decoded independently (`lossy_append`), and
a character that was encoded comes back (`lossy_encodeChar`), so that a text in the middle of
arbitrary bytes is found where it was put (`lossy_around`).
-/

namespace GitCacheProxy.Git

/-! ## Decoding -/

section Decoding

variable {low high lead : UInt8} {bytes rest more : Bytes} {c : Char}

/-- What follows does not go on with a sequence begun before. -/
def Boundary (bytes : Bytes) : Prop := ∀ byte ∈ bytes.head?, ¬(0x80 ≤ byte ∧ byte ≤ 0xBF)

/-- The first character of `lead :: rest`, and what is left of `rest`. -/
def decodeFirst (lead : UInt8) (rest : Bytes) : Char × Bytes :=
  if lead < 0x80 then (Char.ofNat lead.toNat, rest)
  else
    match utf8Lead lead with
    | some (low, high, size) =>
        let tail := continuation low high (size - 1) rest
        (if tail.length = size - 1 then
            Char.ofNat (tail.foldl (fun code byte => 64 * code + (byte.toNat - 0x80))
              (lead.toNat % 2 ^ (7 - size)))
          else replacement,
          rest.drop tail.length)
    | none => (replacement, rest)

theorem lossyFrom_cons (fuel : ℕ) (lead : UInt8) (rest : Bytes) :
    lossyFrom (fuel + 1) (lead :: rest) =
      (decodeFirst lead rest).1 :: lossyFrom fuel (decodeFirst lead rest).2 := by
  rw [lossyFrom, decodeFirst]
  split
  · rfl
  · cases utf8Lead lead with
    | none => rfl
    | some range => rfl

theorem length_decodeFirst (lead : UInt8) (rest : Bytes) :
    (decodeFirst lead rest).2.length ≤ rest.length := by
  unfold decodeFirst
  split
  · exact le_rfl
  · split
    · simp
    · exact le_rfl

/-- Fuel for every byte is enough. -/
theorem lossyFrom_eq (fuel : ℕ) (enough : bytes.length ≤ fuel) :
    lossyFrom fuel bytes = lossy bytes := by
  induction fuel using Nat.strong_induction_on generalizing bytes with
  | _ fuel ih =>
  cases bytes with
  | nil => cases fuel <;> rfl
  | cons lead rest =>
      cases fuel with
      | zero => simp at enough
      | succ fuel =>
          have shorter := length_decodeFirst lead rest
          rw [List.length_cons] at enough
          rw [lossy, List.length_cons, lossyFrom_cons, lossyFrom_cons, ih fuel (by omega) (by omega)]
          rw [ih rest.length (by omega) shorter]

theorem lossy_cons (lead : UInt8) (rest : Bytes) :
    lossy (lead :: rest) = (decodeFirst lead rest).1 :: lossy (decodeFirst lead rest).2 := by
  rw [lossy, List.length_cons, lossyFrom_cons, lossyFrom_eq _ (length_decodeFirst lead rest)]

theorem utf8Lead_range {size : ℕ} (found : utf8Lead lead = some (low, high, size)) :
    0x80 ≤ low ∧ high ≤ 0xBF := by
  have ranges : (utf8Lead lead).all fun range => decide (0x80 ≤ range.1 ∧ range.2.1 ≤ 0xBF) := by
    unfold utf8Lead
    split_ifs <;> decide
  rw [found] at ranges
  exact of_decide_eq_true ranges

theorem length_continuation_le (wanted : ℕ) :
    (continuation low high wanted bytes).length ≤ bytes.length := by
  induction bytes generalizing low high wanted with
  | nil => cases wanted <;> exact le_rfl
  | cons byte bytes ih =>
      cases wanted with
      | zero => exact Nat.zero_le _
      | succ wanted =>
          rw [continuation]
          split
          · exact Nat.succ_le_succ (ih wanted)
          · exact Nat.zero_le _

theorem continuation_append (boundary : Boundary more) (wanted : ℕ) (lowest : 0x80 ≤ low)
    (highest : high ≤ 0xBF) :
    continuation low high wanted (bytes ++ more) = continuation low high wanted bytes := by
  induction bytes generalizing low high wanted with
  | nil =>
      cases more with
      | nil => rfl
      | cons byte more =>
          cases wanted with
          | zero => rfl
          | succ wanted =>
              have outside := boundary byte rfl
              simp only [List.nil_append, continuation]
              rw [if_neg]
              exact fun inside => outside ⟨UInt8.le_trans lowest inside.1,
                UInt8.le_trans inside.2 highest⟩
  | cons byte bytes ih =>
      cases wanted with
      | zero => rfl
      | succ wanted => simp only [List.cons_append, continuation,
          ih wanted (UInt8.le_refl _) (UInt8.le_refl _)]

theorem decodeFirst_append (boundary : Boundary more) (lead : UInt8) (rest : Bytes) :
    decodeFirst lead (rest ++ more) =
      ((decodeFirst lead rest).1, (decodeFirst lead rest).2 ++ more) := by
  unfold decodeFirst
  split
  · rfl
  · cases found : utf8Lead lead with
    | none => rfl
    | some range =>
        rcases range with ⟨low, high, size⟩
        rcases utf8Lead_range found with ⟨lowest, highest⟩
        have within : (continuation low high (size - 1) rest).length ≤ rest.length :=
          length_continuation_le _
        simp only [continuation_append boundary (size - 1) lowest highest,
          List.drop_append_of_le_length within]

/-- Two texts that meet between two characters are decoded one after the other. -/
theorem lossy_append (bytes : Bytes) (boundary : Boundary more) :
    lossy (bytes ++ more) = lossy bytes ++ lossy more := by
  induction count : bytes.length using Nat.strong_induction_on generalizing bytes with
  | _ n ih =>
  cases bytes with
  | nil => rfl
  | cons lead rest =>
      have shorter := length_decodeFirst lead rest
      rw [List.length_cons] at count
      rw [List.cons_append, lossy_cons, lossy_cons, decodeFirst_append boundary,
        ih _ (by omega) _ rfl, List.cons_append]

end Decoding

/-! ## Decoding what was encoded -/

section Encoding

variable {c : Char} {more : Bytes}

theorem utf8Lead_two : ∀ n < 32, 2 ≤ n →
    utf8Lead (UInt8.ofNat (n + 0xC0)) = some (0x80, 0xBF, 2) := by
  decide

theorem utf8Lead_three : ∀ n < 16,
    utf8Lead (UInt8.ofNat (n + 0xE0)) = some (.ofNat (if n = 0 then 0xA0 else 0x80),
      .ofNat (if n = 13 then 0x9F else 0xBF), 3) := by
  decide

theorem utf8Lead_four : ∀ n < 5,
    utf8Lead (UInt8.ofNat (n + 0xF0)) = some (.ofNat (if n = 0 then 0x90 else 0x80),
      .ofNat (if n = 4 then 0x8F else 0xBF), 4) := by
  decide

theorem continuation_cons {low high byte : UInt8} {rest : Bytes} (wanted : ℕ)
    (inside : low ≤ byte ∧ byte ≤ high) :
    continuation low high (wanted + 1) (byte :: rest) =
      byte :: continuation 0x80 0xBF wanted rest := by
  rw [continuation, if_pos inside]

theorem le_ofNat_iff (low byte : ℕ) (small : byte < 256) (lowSmall : low < 256) :
    UInt8.ofNat low ≤ UInt8.ofNat byte ↔ low ≤ byte := by
  rw [UInt8.le_iff_toNat_le, UInt8.toNat_ofNat_of_lt' small, UInt8.toNat_ofNat_of_lt' lowSmall]

/-- A trailing byte of a sequence. -/
def trailing (n : ℕ) : UInt8 := UInt8.ofNat (n % 64 + 0x80)

theorem toNat_trailing (n : ℕ) : (trailing n).toNat = n % 64 + 0x80 := by
  rw [trailing, UInt8.toNat_ofNat_of_lt']
  have small : n % 64 < 64 := Nat.mod_lt n (by decide)
  change n % 64 + 0x80 < 256
  omega

theorem trailing_inside (n low high : ℕ) (least : low ≤ n % 64 + 0x80)
    (most : n % 64 + 0x80 ≤ high) (highSmall : high < 256) :
    UInt8.ofNat low ≤ trailing n ∧ trailing n ≤ UInt8.ofNat high := by
  have small : n % 64 < 64 := Nat.mod_lt n (by decide)
  rw [trailing, le_ofNat_iff _ _ (by omega) (by omega), le_ofNat_iff _ _ highSmall (by omega)]
  exact ⟨least, most⟩

theorem continuation_trailing (n wanted : ℕ) (rest : Bytes) :
    continuation 0x80 0xBF (wanted + 1) (trailing n :: rest) =
      trailing n :: continuation 0x80 0xBF wanted rest := by
  have small : n % 64 < 64 := Nat.mod_lt n (by decide)
  have inside := trailing_inside n 0x80 0xBF (by omega) (by omega) (by decide)
  exact continuation_cons wanted inside

theorem decodeFirst_of_lead {lead low high : UInt8} {size : ℕ} {rest tail : Bytes}
    (notAscii : ¬lead < 0x80) (found : utf8Lead lead = some (low, high, size))
    (taken : continuation low high (size - 1) rest = tail) (whole : tail.length = size - 1) :
    decodeFirst lead rest = (Char.ofNat (tail.foldl
      (fun code byte => 64 * code + (byte.toNat - 0x80)) (lead.toNat % 2 ^ (7 - size))),
      rest.drop tail.length) := by
  rw [decodeFirst, if_neg notAscii, found]
  simp only [taken, whole, if_true]

theorem not_ascii {n : ℕ} (least : 0x80 ≤ n) (small : n < 256) : ¬UInt8.ofNat n < 0x80 := by
  rw [UInt8.not_lt]
  exact (le_ofNat_iff 0x80 n small (by decide)).mpr least

theorem decodeFirst_two {v : ℕ} (least : 0x80 ≤ v) (most : v < 0x800) (more : Bytes) :
    decodeFirst (UInt8.ofNat (v / 64 % 32 + 0xC0)) (trailing v :: more) =
      (Char.ofNat v, more) := by
  have found := utf8Lead_two (v / 64 % 32) (by omega) (by omega)
  rw [decodeFirst_of_lead (not_ascii (by omega) (by omega)) found (continuation_trailing v 0 more)
    rfl]
  simp only [continuation, List.foldl_cons, List.foldl_nil, toNat_trailing]
  have code : 64 * ((UInt8.ofNat (v / 64 % 32 + 0xC0)).toNat % 2 ^ (7 - 2)) +
      (v % 64 + 0x80 - 0x80) = v := by
    rw [UInt8.toNat_ofNat_of_lt' (by change _ < 256; omega)]
    omega
  rw [code]
  rfl

theorem decodeFirst_three {v : ℕ} (least : 0x800 ≤ v) (most : v < 0x10000)
    (valid : v < 0xD800 ∨ 0xDFFF < v) (more : Bytes) :
    decodeFirst (UInt8.ofNat (v / 4096 % 16 + 0xE0)) (trailing (v / 64) :: trailing v :: more) =
      (Char.ofNat v, more) := by
  have found := utf8Lead_three (v / 4096 % 16) (by omega)
  have inside := trailing_inside (v / 64) (if v / 4096 % 16 = 0 then 0xA0 else 0x80)
    (if v / 4096 % 16 = 13 then 0x9F else 0xBF) (by split <;> omega) (by split <;> omega)
    (by split <;> omega)
  have taken : continuation (.ofNat (if v / 4096 % 16 = 0 then 0xA0 else 0x80))
      (.ofNat (if v / 4096 % 16 = 13 then 0x9F else 0xBF)) (3 - 1)
        (trailing (v / 64) :: trailing v :: more) = [trailing (v / 64), trailing v] := by
    rw [continuation_cons _ inside, continuation_trailing]
    rfl
  rw [decodeFirst_of_lead (not_ascii (by omega) (by omega)) found taken rfl]
  simp only [List.foldl_cons, List.foldl_nil, toNat_trailing]
  have code : 64 * (64 * ((UInt8.ofNat (v / 4096 % 16 + 0xE0)).toNat % 2 ^ (7 - 3)) +
      (v / 64 % 64 + 0x80 - 0x80)) + (v % 64 + 0x80 - 0x80) = v := by
    rw [UInt8.toNat_ofNat_of_lt' (by change _ < 256; omega)]
    omega
  rw [code]
  rfl

theorem decodeFirst_four {v : ℕ} (least : 0x10000 ≤ v) (most : v < 0x110000) (more : Bytes) :
    decodeFirst (UInt8.ofNat (v / 262144 % 8 + 0xF0))
        (trailing (v / 4096) :: trailing (v / 64) :: trailing v :: more) =
      (Char.ofNat v, more) := by
  have found := utf8Lead_four (v / 262144 % 8) (by omega)
  have inside := trailing_inside (v / 4096) (if v / 262144 % 8 = 0 then 0x90 else 0x80)
    (if v / 262144 % 8 = 4 then 0x8F else 0xBF) (by split <;> omega) (by split <;> omega)
    (by split <;> omega)
  have taken : continuation (.ofNat (if v / 262144 % 8 = 0 then 0x90 else 0x80))
      (.ofNat (if v / 262144 % 8 = 4 then 0x8F else 0xBF)) (4 - 1)
        (trailing (v / 4096) :: trailing (v / 64) :: trailing v :: more) =
          [trailing (v / 4096), trailing (v / 64), trailing v] := by
    rw [continuation_cons _ inside, continuation_trailing,
      continuation_trailing]
    rfl
  rw [decodeFirst_of_lead (not_ascii (by omega) (by omega)) found taken rfl]
  simp only [List.foldl_cons, List.foldl_nil, toNat_trailing]
  have code : 64 * (64 * (64 * ((UInt8.ofNat (v / 262144 % 8 + 0xF0)).toNat % 2 ^ (7 - 4)) +
      (v / 4096 % 64 + 0x80 - 0x80)) + (v / 64 % 64 + 0x80 - 0x80)) + (v % 64 + 0x80 - 0x80) = v := by
    rw [UInt8.toNat_ofNat_of_lt' (by change _ < 256; omega)]
    omega
  rw [code]
  rfl

theorem lossy_encodeChar (c : Char) (more : Bytes) :
    lossy (String.utf8EncodeChar c ++ more) = c :: lossy more := by
  have valid : c.toNat < 0xD800 ∨ 0xDFFF < c.toNat ∧ c.toNat < 0x110000 := c.valid
  have back : Char.ofNat c.toNat = c := Char.ofNat_toNat c
  have same : c.val.toNat = c.toNat := rfl
  simp only [String.utf8EncodeChar, same]
  generalize c.toNat = v at valid back
  split
  · rename_i ascii
    have low : UInt8.ofNat v < 0x80 := by
      rw [UInt8.lt_iff_toNat_lt, UInt8.toNat_ofNat_of_lt' (by change v < 256; omega)]
      exact Nat.lt_succ_of_le ascii
    rw [List.cons_append, List.nil_append, lossy_cons, decodeFirst, if_pos low,
      UInt8.toNat_ofNat_of_lt' (by change v < 256; omega), back]
  split
  · have first := decodeFirst_two (v := v) (by omega) (by omega) more
    rw [trailing] at first
    rw [List.cons_append, List.cons_append, List.nil_append, lossy_cons, first, back]
  split
  · have first := decodeFirst_three (v := v) (by omega) (by omega) (by omega) more
    rw [trailing, trailing] at first
    rw [List.cons_append, List.cons_append, List.cons_append, List.nil_append, lossy_cons, first,
      back]
  · have first := decodeFirst_four (v := v) (by omega) (by omega) more
    rw [trailing, trailing, trailing] at first
    rw [List.cons_append, List.cons_append, List.cons_append, List.cons_append, List.nil_append,
      lossy_cons, first, back]

def utf8 (text : Text) : Bytes := text.flatMap String.utf8EncodeChar

theorem lossy_utf8_append (text : Text) (more : Bytes) :
    lossy (utf8 text ++ more) = text ++ lossy more := by
  induction text with
  | nil => rfl
  | cons c text ih =>
      have encoded : utf8 (c :: text) ++ more = String.utf8EncodeChar c ++ (utf8 text ++ more) := by
        simp [utf8]
      rw [encoded, lossy_encodeChar, ih, List.cons_append]

theorem boundary_of_le {n : ℕ} (small : n < 256) (outside : n < 0x80 ∨ 0xBF < n) (more : Bytes) :
    Boundary (UInt8.ofNat n :: more) := by
  intro byte head inside
  rw [List.head?_cons, Option.mem_some_iff] at head
  subst head
  have least := (le_ofNat_iff 0x80 n small (by decide)).mp inside.1
  have most := (le_ofNat_iff n 0xBF (by decide) small).mp inside.2
  omega

theorem boundary_encodeChar (c : Char) (more : Bytes) :
    Boundary (String.utf8EncodeChar c ++ more) := by
  unfold String.utf8EncodeChar
  simp only
  split
  · exact boundary_of_le (by omega) (by omega) more
  split
  · exact boundary_of_le (by omega) (by omega) _
  split
  · exact boundary_of_le (by omega) (by omega) _
  · exact boundary_of_le (by omega) (by omega) _

/-- A text comes back whatever surrounds it. -/
theorem lossy_around (before after : Bytes) {text : Text} (nonempty : text ≠ []) :
    lossy (before ++ utf8 text ++ after) = lossy before ++ text ++ lossy after := by
  cases text with
  | nil => exact absurd rfl nonempty
  | cons c text =>
      have boundary : Boundary (utf8 (c :: text) ++ after) := by
        have first := boundary_encodeChar c (utf8 text ++ after)
        simpa [utf8] using first
      rw [List.append_assoc, lossy_append before boundary, lossy_utf8_append, List.append_assoc]

end Encoding

end GitCacheProxy.Git
