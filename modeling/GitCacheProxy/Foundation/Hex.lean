import Mathlib.Data.List.Induction
import Mathlib.Data.Nat.Digits.Lemmas

/-!
# Bytes in hexadecimal

Two lowercase digits for every byte.  Every sequence of bytes is written in one way, and every even
number of lowercase digits is what some sequence of bytes is written as.
-/

namespace Hex

/-- The value of a lowercase digit. -/
def digit? (c : Char) : Option ℕ :=
  if '0' ≤ c ∧ c ≤ '9' then some (c.toNat - '0'.toNat)
  else if 'a' ≤ c ∧ c ≤ 'f' then some (c.toNat - 'a'.toNat + 10)
  else none

def encodeByte (byte : UInt8) : List Char := (Nat.toDigits 16 byte.toNat).leftpad 2 '0'

def encode (bytes : List UInt8) : List Char := bytes.flatMap encodeByte

def decode : List Char → Option (List UInt8)
  | [] => some []
  | [_] => none
  | high :: low :: rest =>
      match digit? high, digit? low, decode rest with
      | some high, some low, some bytes => some (UInt8.ofNat (16 * high + low) :: bytes)
      | _, _, _ => none

theorem encodeByte_eq (byte : UInt8) : encodeByte byte =
    [Nat.digitChar (byte.toNat / 16), Nat.digitChar (byte.toNat % 16)] := by
  have small := byte.toNat_lt
  rw [encodeByte]
  rcases Nat.lt_or_ge byte.toNat 16 with one | two
  · rw [Nat.toDigits_of_lt_base one, Nat.div_eq_of_lt one, Nat.mod_eq_of_lt one]
    rfl
  · rw [Nat.toDigits_of_base_le (by decide) two, Nat.toDigits_of_lt_base (by omega)]
    rfl

theorem digit?_digitChar : ∀ digit < 16, digit? (Nat.digitChar digit) = some digit := by
  decide

theorem digitChar_of_digit? {c : Char} {digit : ℕ} (found : digit? c = some digit) :
    digit < 16 ∧ Nat.digitChar digit = c := by
  have decimal : ∀ n < 58, 48 ≤ n → Nat.digitChar (n - 48) = Char.ofNat n := by decide
  have letter : ∀ n < 103, 97 ≤ n → Nat.digitChar (n - 97 + 10) = Char.ofNat n := by decide
  rw [digit?] at found
  split_ifs at found with isDecimal isLetter
  · rcases isDecimal with ⟨least, most⟩
    have least : 48 ≤ c.toNat := least
    have most : c.toNat ≤ 57 := most
    cases found
    refine ⟨show c.toNat - 48 < 16 by omega, ?_⟩
    exact (decimal c.toNat (by omega) least).trans (Char.ofNat_toNat c)
  · rcases isLetter with ⟨least, most⟩
    have least : 97 ≤ c.toNat := least
    have most : c.toNat ≤ 102 := most
    cases found
    refine ⟨show c.toNat - 97 + 10 < 16 by omega, ?_⟩
    exact (letter c.toNat (by omega) least).trans (Char.ofNat_toNat c)

@[simp]
theorem length_encode (bytes : List UInt8) : (encode bytes).length = 2 * bytes.length := by
  induction bytes with
  | nil => rfl
  | cons byte bytes ih =>
      rw [encode, List.flatMap_cons, List.length_append, ← encode, ih, encodeByte_eq,
        List.length_cons]
      simp only [List.length_cons, List.length_nil]
      omega

theorem decode_encode (bytes : List UInt8) : decode (encode bytes) = some bytes := by
  induction bytes with
  | nil => rfl
  | cons byte bytes ih =>
      have small := byte.toNat_lt
      have whole : 16 * (byte.toNat / 16) + byte.toNat % 16 = byte.toNat := by omega
      rw [encode, List.flatMap_cons, ← encode, encodeByte_eq]
      simp only [List.cons_append, List.nil_append, decode, ih,
        digit?_digitChar (byte.toNat / 16) (by omega),
        digit?_digitChar (byte.toNat % 16) (by omega), whole, UInt8.ofNat_toNat]

theorem encode_injective : Function.Injective encode := by
  intro first second same
  have decoded := congrArg decode same
  rw [decode_encode, decode_encode] at decoded
  exact Option.some.inj decoded

theorem encode_of_decode {text : List Char} {bytes : List UInt8}
    (found : decode text = some bytes) : encode bytes = text := by
  induction text using List.twoStepInduction generalizing bytes with
  | nil =>
      cases found
      rfl
  | singleton c => cases found
  | cons_cons high low rest ih _ =>
      rw [decode] at found
      split at found
      · rename_i first second more isFirst isSecond isMore
        cases found
        rcases digitChar_of_digit? isFirst with ⟨firstSmall, isHigh⟩
        rcases digitChar_of_digit? isSecond with ⟨secondSmall, isLow⟩
        have value : (UInt8.ofNat (16 * first + second)).toNat = 16 * first + second :=
          UInt8.toNat_ofNat_of_lt (by simp only [UInt8.size]; omega)
        have upper : (16 * first + second) / 16 = first := by omega
        have lower : (16 * first + second) % 16 = second := by omega
        rw [encode, List.flatMap_cons, ← encode, ih isMore, encodeByte_eq, value, upper, lower,
          isHigh, isLow]
        rfl
      · cases found

/-- Every even number of lowercase digits can be read. -/
theorem exists_decode {text : List Char} {count : ℕ} (even : text.length = 2 * count)
    (digits : ∀ c ∈ text, digit? c ≠ none) : ∃ bytes, decode text = some bytes := by
  induction text using List.twoStepInduction generalizing count with
  | nil => exact ⟨[], rfl⟩
  | singleton c =>
      rw [List.length_singleton] at even
      omega
  | cons_cons high low rest ih _ =>
      rw [List.length_cons, List.length_cons] at even
      have few : rest.length = 2 * (count - 1) := by omega
      have isHigh := digits high (by simp)
      have isLow := digits low (by simp)
      rcases ih few (fun c cMem => digits c (by simp [cMem])) with ⟨bytes, decoded⟩
      rcases Option.ne_none_iff_exists'.mp isHigh with ⟨first, isFirst⟩
      rcases Option.ne_none_iff_exists'.mp isLow with ⟨second, isSecond⟩
      rw [decode, isFirst, isSecond, decoded]
      exact ⟨_, rfl⟩

end Hex
