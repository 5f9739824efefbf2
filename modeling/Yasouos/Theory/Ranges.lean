import Mathlib.Data.Nat.Bitwise
import Mathlib.Algebra.Group.Nat.Defs

/-!
# Aligned ranges

Powers of two as alignments, and ranges of addresses that are handed out from a window one
after another.

* `and_not_mask32`, `and_not_mask64` — clearing the low bits of a word rounds it down.
* `roundUp` — the next multiple, with what a user needs to know of it.
* `Stacked` — ranges that lie in a window up to a mark and do not overlap; a range from the mark
  on may be added (`Stacked.push`).
-/

namespace Yasouos.Theory

/-! ### Masks -/

section Masks

variable {k : ℕ}

theorem toNat_and_not_mask {w : ℕ} (x : BitVec w) {m : BitVec w} (hm : m.toNat = 2 ^ k - 1) :
    (x &&& ~~~m).toNat = x.toNat / 2 ^ k * 2 ^ k := by
  apply Nat.eq_of_testBit_eq
  intro i
  have hmask : m.getLsbD i = decide (i < k) := by
    rw [BitVec.getLsbD, hm, Nat.testBit_two_pow_sub_one]
  rw [Nat.testBit_mul_two_pow, Nat.testBit_div_two_pow]
  change (x &&& ~~~m).getLsbD i = _
  rw [BitVec.getLsbD_and, BitVec.getLsbD_not, hmask]
  by_cases hi : i < k
  · simp [hi, Nat.not_le.2 hi]
  · have hw : x.toNat.testBit i = true → i < w := by
      intro hx
      by_contra hge
      rw [Nat.testBit_lt_two_pow (Nat.lt_of_lt_of_le x.isLt (Nat.pow_le_pow_right (by omega) (by omega)))] at hx
      exact absurd hx (by decide)
    cases hx : x.toNat.testBit i with
    | false => simp [BitVec.getLsbD, hx, Nat.sub_add_cancel (Nat.le_of_not_lt hi)]
    | true => simp [BitVec.getLsbD, hx, hw hx, hi, Nat.le_of_not_lt hi, Nat.sub_add_cancel (Nat.le_of_not_lt hi)]

theorem and_not_mask32 (x : UInt32) {m : UInt32} (hm : m.toNat = 2 ^ k - 1) :
    (x &&& ~~~m).toNat = x.toNat / 2 ^ k * 2 ^ k :=
  toNat_and_not_mask x.toBitVec hm

theorem and_not_mask64 (x : UInt64) {m : UInt64} (hm : m.toNat = 2 ^ k - 1) :
    (x &&& ~~~m).toNat = x.toNat / 2 ^ k * 2 ^ k :=
  toNat_and_not_mask x.toBitVec hm

end Masks

/-! ### Rounding -/

/-- The next multiple of `size`. -/
def roundUp (n size : ℕ) : ℕ := (n + (size - 1)) / size * size

theorem dvd_roundUp (n size : ℕ) : size ∣ roundUp n size := Nat.dvd_mul_left _ _

theorem le_roundUp (n : ℕ) {size : ℕ} (h : 0 < size) : n ≤ roundUp n size := by
  have := Nat.div_add_mod' (n + (size - 1)) size
  have := Nat.mod_lt (n + (size - 1)) h
  rw [roundUp]
  omega

theorem roundUp_lt (n : ℕ) {size : ℕ} (h : 0 < size) : roundUp n size < n + size := by
  have := Nat.div_mul_le_self (n + (size - 1)) size
  rw [roundUp]
  omega

/-! ### Ranges -/

/-- The addresses from `base` on, `size` of them. -/
structure Range where
  base : ℕ
  size : ℕ
  deriving DecidableEq

namespace Range

/-- The first address behind the range. -/
def stop (r : Range) : ℕ := r.base + r.size

/-- One of the ranges ends before the other begins. -/
def Apart (r s : Range) : Prop := r.stop ≤ s.base ∨ s.stop ≤ r.base

instance (r s : Range) : Decidable (Apart r s) := inferInstanceAs (Decidable (_ ∨ _))

end Range

/-- Ranges between `lo` and `hi` that do not overlap. -/
structure Stacked (lo hi : ℕ) (rs : List Range) : Prop where
  le : lo ≤ hi
  inside : ∀ r ∈ rs, lo ≤ r.base ∧ r.stop ≤ hi
  apart : rs.Pairwise Range.Apart

namespace Stacked

variable {lo hi : ℕ} {rs : List Range} {r : Range}

theorem nil (lo : ℕ) : Stacked lo lo [] := ⟨le_refl _, by simp, List.Pairwise.nil⟩

/-- A range from the mark on. -/
theorem push (h : Stacked lo hi rs) (hr : hi ≤ r.base) : Stacked lo r.stop (rs ++ [r]) where
  le := h.le.trans (hr.trans (Nat.le_add_right _ _))
  inside := by
    intro s hs
    rcases List.mem_append.1 hs with hs | hs
    · exact ⟨(h.inside s hs).1, ((h.inside s hs).2.trans hr).trans (Nat.le_add_right _ _)⟩
    · obtain rfl := List.mem_singleton.1 hs
      exact ⟨h.le.trans hr, le_refl _⟩
  apart := by
    rw [List.pairwise_append]
    refine ⟨h.apart, List.pairwise_singleton _ _, ?_⟩
    intro s hs t ht
    obtain rfl := List.mem_singleton.1 ht
    exact Or.inl ((h.inside s hs).2.trans hr)

end Stacked

end Yasouos.Theory
