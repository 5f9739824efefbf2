import Mathlib.Algebra.Group.Nat.Defs
import Mathlib.Data.List.Basic
import Mathlib.Tactic.SplitIfs

/-!
# Decimal numerals as bytes

The decimal numeral of a number, in ASCII, and what a string of digits stands for.

## The model

`numeral` is the numeral of the standard library, a byte for each character. `decimalValue` reads
digits from the left, without regard to zeros in front; `readNumeral` takes only a numeral that has
none.

## What is proved

`readNumeral_numeral`: what is written is read back.
-/

namespace Yasouos.Theory

/-- The decimal numeral of a number. -/
def numeral (n : ℕ) : List UInt8 := (Nat.toDigits 10 n).map fun c => UInt8.ofNat c.toNat

/-- The byte is a digit. -/
def isDigit (b : UInt8) : Bool := 0x30 ≤ b && b ≤ 0x39

/-- The number that digits stand for, with another in front of them. -/
def decimalValueFrom (v : ℕ) (l : List UInt8) : ℕ := l.foldl (fun v b => v * 10 + (b.toNat - 0x30)) v

/-- The number that digits stand for. -/
def decimalValue (l : List UInt8) : ℕ := decimalValueFrom 0 l

/-- The number of a numeral: digits, at least one of them, and no zero in front of others. -/
def readNumeral (l : List UInt8) : Option ℕ :=
  if l ≠ [] ∧ l.all isDigit ∧ (l.head? = some 0x30 → l.length = 1) then some (decimalValue l) else none

theorem toNat_digitChar : ∀ d < 10, (Nat.digitChar d).toNat = 0x30 + d := by decide

/-- The last digit, and the numeral in front of it. -/
theorem numeral_eq (n : ℕ) :
    numeral n = if n < 10 then [UInt8.ofNat (0x30 + n)] else numeral (n / 10) ++ [UInt8.ofNat (0x30 + n % 10)] := by
  rw [numeral, Nat.toDigits_eq_if (by decide)]
  split_ifs with h
  · simp [toNat_digitChar n h]
  · simp [numeral, toNat_digitChar (n % 10) (Nat.mod_lt _ (by decide))]

theorem numeral_of_lt {n : ℕ} (h : n < 10) : numeral n = [UInt8.ofNat (0x30 + n)] := by
  rw [numeral_eq, if_pos h]

theorem numeral_of_ge {n : ℕ} (h : 10 ≤ n) : numeral n = numeral (n / 10) ++ [UInt8.ofNat (0x30 + n % 10)] := by
  rw [numeral_eq, if_neg (Nat.not_lt.2 h)]

theorem numeral_ne_nil (n : ℕ) : numeral n ≠ [] := by simp [numeral]

theorem length_numeral_le_iff {n k : ℕ} (hk : 0 < k) : (numeral n).length ≤ k ↔ n < 10 ^ k := by
  rw [numeral, List.length_map, Nat.length_toDigits_le_iff (by decide) hk]

theorem toNat_digit {d : ℕ} (h : d < 10) : (UInt8.ofNat (0x30 + d)).toNat = 0x30 + d := by
  rw [UInt8.toNat_ofNat']
  omega

theorem isDigit_iff {b : UInt8} : isDigit b = true ↔ 0x30 ≤ b.toNat ∧ b.toNat ≤ 0x39 := by
  rw [isDigit, Bool.and_eq_true, decide_eq_true_iff, decide_eq_true_iff, UInt8.le_iff_toNat_le, UInt8.le_iff_toNat_le]
  rfl

theorem isDigit_digit {d : ℕ} (h : d < 10) : isDigit (UInt8.ofNat (0x30 + d)) = true := by
  rw [isDigit_iff, toNat_digit h]
  omega

theorem isDigit_of_mem_numeral {n : ℕ} {b : UInt8} (h : b ∈ numeral n) : isDigit b = true := by
  induction n using Nat.strongRecOn with
  | ind n ih =>
    by_cases hn : n < 10
    · rw [numeral_of_lt hn, List.mem_singleton] at h
      rw [h]
      exact isDigit_digit hn
    · rw [numeral_of_ge (Nat.not_lt.1 hn), List.mem_append, List.mem_singleton] at h
      rcases h with h | rfl
      · exact ih (n / 10) (by omega) h
      · exact isDigit_digit (Nat.mod_lt _ (by decide))

/-! ### Reading -/

theorem decimalValueFrom_append (v : ℕ) (l l' : List UInt8) :
    decimalValueFrom v (l ++ l') = decimalValueFrom (decimalValueFrom v l) l' := by
  simp [decimalValueFrom]

theorem decimalValue_append_digit (l : List UInt8) {d : ℕ} (h : d < 10) :
    decimalValue (l ++ [UInt8.ofNat (0x30 + d)]) = decimalValue l * 10 + d := by
  rw [decimalValue, decimalValueFrom_append, decimalValue, decimalValueFrom, List.foldl_cons, List.foldl_nil, toNat_digit h]
  omega

theorem decimalValue_numeral (n : ℕ) : decimalValue (numeral n) = n := by
  induction n using Nat.strongRecOn with
  | ind n ih =>
    by_cases hn : n < 10
    · have h := decimalValue_append_digit [] hn
      rw [numeral_of_lt hn]
      simpa [decimalValue, decimalValueFrom] using h
    · rw [numeral_of_ge (Nat.not_lt.1 hn), decimalValue_append_digit _ (Nat.mod_lt _ (by decide)), ih (n / 10) (by omega)]
      omega

theorem numeral_injective {m n : ℕ} (h : numeral m = numeral n) : m = n := by
  rw [← decimalValue_numeral m, h, decimalValue_numeral]

/-- Only the numeral of zero starts with a zero. -/
theorem eq_zero_of_head?_numeral {n : ℕ} (h : (numeral n).head? = some 0x30) : n = 0 := by
  induction n using Nat.strongRecOn with
  | ind n ih =>
    by_cases hn : n < 10
    · rw [numeral_of_lt hn, List.head?_cons, Option.some.injEq] at h
      have hb := congrArg UInt8.toNat h
      rw [toNat_digit hn] at hb
      change 0x30 + n = 0x30 at hb
      omega
    · rw [numeral_of_ge (Nat.not_lt.1 hn), List.head?_append_of_ne_nil _ (numeral_ne_nil _)] at h
      have h0 := ih (n / 10) (by omega) h
      omega

/-- What is written is read back. -/
theorem readNumeral_numeral (n : ℕ) : readNumeral (numeral n) = some n := by
  have hhead : (numeral n).head? = some 0x30 → (numeral n).length = 1 := by
    intro h
    rw [eq_zero_of_head?_numeral h]
    rfl
  rw [readNumeral, if_pos ⟨numeral_ne_nil n, List.all_eq_true.2 fun _ => isDigit_of_mem_numeral, hhead⟩,
    decimalValue_numeral]

end Yasouos.Theory
