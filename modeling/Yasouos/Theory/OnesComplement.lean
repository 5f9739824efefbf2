import Mathlib.Data.List.Basic
import Mathlib.Algebra.Order.Ring.Nat
import Mathlib.Algebra.Order.BigOperators.Group.List
import Mathlib.Tactic.SplitIfs

/-!
# One's-complement sums

The Internet checksum of a string of bytes is the one's complement of the
one's-complement sum of its 16-bit words, in big-endian order, an odd byte at the end
counting as a word whose other byte is zero. The sum is made in a wider register, and
the carries are folded into the low 16 bits until there are none.

## What is proved

`fold_eq` computes the folding: what is left is the remainder modulo 65535, except that
a sum that is not zero never becomes zero. So a word that completes a sum to a multiple
of 65535 makes it fold to `0xFFFF`, and the one's complement of a folded sum is such a
word (`fold_add_complement`). Folding at the end is the same as adding the words one after
another with an end-around carry (`fold_sum`).
-/

namespace Yasouos.Theory

/-- The carries of a sum, folded into its low 16 bits. -/
def fold (sum : ℕ) : ℕ := if sum / 2 ^ 16 = 0 then sum else fold (sum % 2 ^ 16 + sum / 2 ^ 16)
termination_by sum
decreasing_by omega

/-- What is left when the carries have been folded. -/
theorem fold_eq (sum : ℕ) : fold sum = if sum = 0 then 0 else (sum - 1) % 65535 + 1 := by
  induction sum using fold.induct with
  | case1 sum h =>
    rw [fold, if_pos h]
    split_ifs with h0
    · exact h0
    · rw [Nat.mod_eq_of_lt (by omega)]
      omega
  | case2 sum h ih =>
    rw [fold, if_neg h, ih, if_neg (by omega), if_neg (by omega)]
    omega

theorem fold_lt (sum : ℕ) : fold sum < 2 ^ 16 := by
  rw [fold_eq]
  by_cases h : sum = 0
  · simp [h]
  · rw [if_neg h]
    omega

/-- A sum folds to all ones when it is a multiple of 65535, other than zero. -/
theorem fold_eq_ones_iff {sum : ℕ} : fold sum = 65535 ↔ 0 < sum ∧ sum % 65535 = 0 := by
  rw [fold_eq]
  by_cases h : sum = 0
  · simp [h]
  · rw [if_neg h]
    omega

/-- The complement of a sum completes it. -/
theorem fold_add_complement (sum : ℕ) : fold (sum + (65535 - fold sum)) = 65535 := by
  rw [fold_eq_ones_iff, fold_eq]
  split_ifs with h <;> omega

/-- Exactly two words complete a sum that folds to all ones: zero has two representations. -/
theorem fold_add_eq_ones_iff {sum word : ℕ} (h : word < 2 ^ 16) :
    fold (sum + word) = 65535 ↔ word = 65535 - fold sum ∨ 65535 - fold sum = 0 ∧ word = 65535 := by
  rw [fold_eq_ones_iff, fold_eq]
  split_ifs with h0 <;> omega

/-! ### Addition with an end-around carry -/

/-- The one's-complement sum of two words: a carry out of the top is added at the bottom. -/
def onesAdd (a b : ℕ) : ℕ := (a + b) % 2 ^ 16 + (a + b) / 2 ^ 16

/-- The one's-complement sum of a list of words. -/
def onesSum (l : List ℕ) : ℕ := l.foldl onesAdd 0

theorem onesAdd_fold (sum : ℕ) {word : ℕ} (h : word < 2 ^ 16) : onesAdd (fold sum) word = fold (sum + word) := by
  rw [onesAdd, fold_eq, fold_eq]
  split_ifs with h0 h1 h1 <;> omega

theorem foldl_onesAdd_fold {l : List ℕ} (h : ∀ w ∈ l, w < 2 ^ 16) (sum : ℕ) :
    l.foldl onesAdd (fold sum) = fold (sum + l.sum) := by
  induction l generalizing sum with
  | nil => rfl
  | cons w l ih =>
    rw [List.foldl_cons, onesAdd_fold _ (h w (by simp)), ih (fun v hv => h v (by simp [hv])), List.sum_cons,
      Nat.add_assoc]

/-- To fold the carries of a whole sum is to add with an end-around carry. -/
theorem fold_sum {l : List ℕ} (h : ∀ w ∈ l, w < 2 ^ 16) : fold l.sum = onesSum l := by
  have hzero : fold 0 = 0 := by rw [fold_eq, if_pos rfl]
  have hfold := foldl_onesAdd_fold h 0
  rw [hzero, Nat.zero_add] at hfold
  exact hfold.symm

/-! ### The words of a string of bytes -/

/-- The 16-bit words of a string of bytes. -/
def words : List UInt8 → List ℕ
  | [] => []
  | [b] => [b.toNat * 2 ^ 8]
  | b :: c :: l => (b.toNat * 2 ^ 8 + c.toNat) :: words l

/-- Words are not split by an even number of bytes in front. -/
theorem words_append {l l' : List UInt8} (h : l.length % 2 = 0) : words (l ++ l') = words l ++ words l' := by
  induction l using words.induct with
  | case1 => rfl
  | case2 b => simp at h
  | case3 b c l ih =>
    have hl : l.length % 2 = 0 := by
      simp at h
      omega
    simp [words, ih hl]

/-- A string of bytes with one zero byte more if their number is odd. -/
def padded (l : List UInt8) : List UInt8 := if l.length % 2 = 1 then l ++ [0] else l

/-- The byte that is missing at the end counts as zero. -/
theorem words_padded (l : List UInt8) : words (padded l) = words l := by
  induction l using words.induct with
  | case1 => rfl
  | case2 b => simp [padded, words]
  | case3 b c l ih =>
    have hcons : padded (b :: c :: l) = b :: c :: padded l := by
      simp only [padded, List.length_cons, Nat.add_mod_right, Nat.add_assoc]
      split_ifs <;> rfl
    rw [hcons, words, words, ih]

theorem word_lt {l : List UInt8} {w : ℕ} (h : w ∈ words l) : w < 2 ^ 16 := by
  induction l using words.induct with
  | case1 => simp [words] at h
  | case2 b =>
    have := b.toNat_lt
    simp [words] at h
    omega
  | case3 b c l ih =>
    have := b.toNat_lt
    have := c.toNat_lt
    simp only [words, List.mem_cons] at h
    rcases h with rfl | h
    · omega
    · exact ih h

theorem length_words (l : List UInt8) : (words l).length = (l.length + 1) / 2 := by
  induction l using words.induct with
  | case1 => rfl
  | case2 b => simp [words]
  | case3 b c l ih =>
    simp [words, ih]
    omega

/-- The sum of the words is less than 65536 times their number. -/
theorem sum_words_le (l : List UInt8) : (words l).sum ≤ (l.length + 1) / 2 * 65535 := by
  rw [← length_words]
  have h : ∀ w ∈ words l, w ≤ 65535 := fun w hw => Nat.le_of_lt_succ (word_lt hw)
  simpa using List.sum_le_card_nsmul _ _ h

end Yasouos.Theory
