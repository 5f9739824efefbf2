import Mathlib.Data.Finite.Prod
import Mathlib.Data.Fintype.EquivFin
import Mathlib.Logic.Function.Iterate

/-!
# Xorshift generators

A xorshift generator steps from one word to the next by three maps of one kind: the word is
shifted, and xored with itself. Each of them is linear over the bits, so that it loses nothing if
a shift has no fixed point but zero; and it has none, since a word that is shifted often enough is
zero.

* `xorShift_bijective` — a step is a bijection, whatever the three shifts are.
* `xorShift_eq_zero_iff` — it leads to zero only from zero.
* `iterate_ne_zero` — so does any number of steps.
-/

namespace Yasouos.Theory

variable {w : ℕ}

/-! ### One map -/

/-- The word is xored with its shift. -/
theorem xor_injective_of_fixed {f : BitVec w → BitVec w} (hadd : ∀ x y, f (x ^^^ y) = f x ^^^ f y)
    (hfixed : ∀ x, f x = x → x = 0#w) : Function.Injective fun x => x ^^^ f x := by
  intro x y hxy
  -- the difference of the two arguments is a fixed point
  have hdiff : f (x ^^^ y) ^^^ (x ^^^ y) = 0#w := by
    calc f (x ^^^ y) ^^^ (x ^^^ y) = (x ^^^ f x) ^^^ (y ^^^ f y) := by rw [hadd]; ac_rfl
      _ = 0#w := BitVec.xor_eq_zero_iff.2 hxy
  exact BitVec.xor_eq_zero_iff.1 (hfixed _ (BitVec.xor_eq_zero_iff.1 hdiff))

theorem eq_zero_of_shiftLeft {k : ℕ} (hk : 0 < k) {x : BitVec w} (h : x <<< k = x) : x = 0#w := by
  have hall : ∀ n, x <<< (k * n) = x := by
    intro n
    induction n with
    | zero => simp
    | succ n ih => rw [Nat.mul_succ, BitVec.shiftLeft_add, ih, h]
  rw [← hall w]
  exact BitVec.shiftLeft_eq_zero (Nat.le_mul_of_pos_left w hk)

theorem eq_zero_of_ushiftRight {k : ℕ} (hk : 0 < k) {x : BitVec w} (h : x >>> k = x) : x = 0#w := by
  have hall : ∀ n, x >>> (k * n) = x := by
    intro n
    induction n with
    | zero => simp
    | succ n ih => rw [Nat.mul_succ, BitVec.shiftRight_add, ih, h]
  rw [← hall w]
  exact BitVec.ushiftRight_eq_zero (Nat.le_mul_of_pos_left w hk)

theorem xor_shiftLeft_injective {k : ℕ} (hk : 0 < k) : Function.Injective fun x : BitVec w => x ^^^ (x <<< k) :=
  xor_injective_of_fixed (fun x y => BitVec.shiftLeft_xor_distrib x y k) fun _ => eq_zero_of_shiftLeft hk

theorem xor_ushiftRight_injective {k : ℕ} (hk : 0 < k) : Function.Injective fun x : BitVec w => x ^^^ (x >>> k) :=
  xor_injective_of_fixed (fun x y => BitVec.ushiftRight_xor_distrib x y k) fun _ => eq_zero_of_ushiftRight hk

/-! ### A step -/

/-- A step of the generator with the shifts `a`, `b` and `c`. -/
def xorShift (a b c : ℕ) (x : BitVec w) : BitVec w :=
  let x := x ^^^ (x <<< a)
  let x := x ^^^ (x >>> b)
  x ^^^ (x <<< c)

theorem xorShift_bijective {a b c : ℕ} (ha : 0 < a) (hb : 0 < b) (hc : 0 < c) :
    Function.Bijective (xorShift a b c : BitVec w → BitVec w) := by
  have hfin : Finite (BitVec w) := Finite.of_injective BitVec.toFin fun _ _ => BitVec.toFin_inj.1
  rw [← Finite.injective_iff_bijective]
  exact (xor_shiftLeft_injective hc).comp ((xor_ushiftRight_injective hb).comp (xor_shiftLeft_injective ha))

@[simp] theorem xorShift_zero (a b c : ℕ) : xorShift a b c (0#w) = 0#w := by simp [xorShift]

theorem xorShift_eq_zero_iff {a b c : ℕ} (ha : 0 < a) (hb : 0 < b) (hc : 0 < c) {x : BitVec w} :
    xorShift a b c x = 0#w ↔ x = 0#w :=
  (xorShift_bijective ha hb hc).injective.eq_iff' (xorShift_zero a b c)

/-- Steps that lead to `z` from `z` alone lead to it from nothing else, however many they are. -/
theorem iterate_ne {α : Type} {f : α → α} {z x : α} (hf : ∀ y, f y = z → y = z) (hx : x ≠ z) (n : ℕ) : f^[n] x ≠ z := by
  induction n with
  | zero => exact hx
  | succ n ih =>
    rw [Function.iterate_succ_apply']
    exact fun h => ih (hf _ h)

end Yasouos.Theory
