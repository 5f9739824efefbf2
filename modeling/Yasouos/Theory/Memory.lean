import Yasouos.Theory.Program
import Mathlib.Data.List.Range
import Mathlib.Logic.Function.Basic

/-!
# Byte ranges of a memory

A memory is a function from addresses to values. `load` reads a range of it and
`store` writes one, all at once, as a device does. A driver copies one value after
another, and the device may move in between: `readEach` and `writeEach` are those
copies as programs, over whatever operation reads or writes one value.

* `load_store` — what is stored is loaded back.
* `store_append`, `store_comm`, `store_store` — stores of adjacent ranges are one store,
  stores of disjoint ranges commute, and a store within an earlier one replaces part of it.
* `Safe.readEach` — a copy out of a range whose values the device does not change
  returns those values.
* `AllUnder.readEach` — in a copy that is allowed, every single read is.
* `Safe.writeEach` — a copy into a range goes through as many stages as there are
  values, and what holds at one stage need only lead to the next.
-/

namespace Yasouos.Theory

/-! ### Ranges -/

section Ranges

variable {α : Type}

/-- The `n` values from address `a` on. -/
def load (f : ℕ → α) (a n : ℕ) : List α := (List.range n).map fun i => f (a + i)

/-- The memory with the values `bs` from address `a` on. -/
def store (f : ℕ → α) (a : ℕ) (bs : List α) : ℕ → α :=
  fun i => if a ≤ i then bs.getD (i - a) (f i) else f i

@[simp] theorem length_load (f : ℕ → α) (a n : ℕ) : (load f a n).length = n := by simp [load]

theorem getElem_load (f : ℕ → α) (a : ℕ) {n i : ℕ} (h : i < (load f a n).length) : (load f a n)[i] = f (a + i) := by
  simp [load]

theorem load_congr {f g : ℕ → α} {a n : ℕ} (h : ∀ i < n, f (a + i) = g (a + i)) : load f a n = load g a n :=
  List.map_congr_left fun i hi => h i (List.mem_range.mp hi)

theorem store_apply (f : ℕ → α) (a : ℕ) (bs : List α) {i : ℕ} (h : i < bs.length) :
    store f a bs (a + i) = bs[i] := by
  simp [store, h]

/-- Outside the range, nothing changes. -/
theorem store_outside (f : ℕ → α) (a : ℕ) (bs : List α) {i : ℕ} (h : i < a ∨ a + bs.length ≤ i) :
    store f a bs i = f i := by
  unfold store
  split_ifs with ha
  · rw [List.getD_eq_getElem?_getD, List.getElem?_eq_none (by omega), Option.getD_none]
  · rfl

/-- What is stored is loaded back. -/
theorem load_store (f : ℕ → α) (a : ℕ) (bs : List α) : load (store f a bs) a bs.length = bs := by
  refine List.ext_getElem (by simp) fun i h₁ h₂ => ?_
  rw [getElem_load, store_apply f a bs h₂]

/-- Part of what is stored is loaded back. -/
theorem load_store_drop (f : ℕ → α) (a : ℕ) (bs : List α) {m n : ℕ} (h : m + n = bs.length) :
    load (store f a bs) (a + m) n = bs.drop m := by
  refine List.ext_getElem (by simp; omega) fun i h₁ h₂ => ?_
  rw [getElem_load, Nat.add_assoc, store_apply f a bs (by simp at h₁; omega), List.getElem_drop]

theorem load_store_outside (f : ℕ → α) (a : ℕ) (bs : List α) {b n : ℕ} (h : b + n ≤ a ∨ a + bs.length ≤ b) :
    load (store f a bs) b n = load f b n :=
  load_congr fun i hi => store_outside f a bs (by omega)

/-- Two ranges with the same values have the same value at each place. -/
theorem eq_of_load_eq {f g : ℕ → α} {a b n i : ℕ} (h : load f a n = load g b n) (hi : i < n) : f (a + i) = g (b + i) := by
  have hget := congrArg (fun l : List α => l[i]?) h
  simpa [load, hi] using hget

theorem load_append (f : ℕ → α) (a m n : ℕ) : load f a (m + n) = load f a m ++ load f (a + m) n := by
  simp [load, List.range_add, Function.comp_def, Nat.add_assoc]

theorem load_succ (f : ℕ → α) (a n : ℕ) : load f a (n + 1) = f a :: load f (a + 1) n := by
  rw [Nat.add_comm n, load_append]
  simp [load]

/-- Stores of adjacent ranges are one store. -/
theorem store_append (f : ℕ → α) {a b : ℕ} {l l' : List α} (h : a + l.length = b) :
    store (store f a l) b l' = store f a (l ++ l') := by
  subst h
  funext i
  by_cases h : a ≤ i
  · obtain ⟨k, rfl⟩ := Nat.exists_eq_add_of_le h
    simp only [store, Nat.le_add_right, if_true, Nat.add_le_add_iff_left, Nat.add_sub_add_left, Nat.add_sub_cancel_left,
      List.getD_eq_getElem?_getD, List.getElem?_append]
    split_ifs with h1 h2 h2
    · omega
    · rw [List.getElem?_eq_none h1, Option.getD_none]
    · rfl
    · omega
  · have h' : ¬ a + l.length ≤ i := by omega
    simp [store, h, h']

@[simp] theorem store_nil (f : ℕ → α) (a : ℕ) : store f a [] = f := by
  funext i
  exact store_outside f a [] (by simp; omega)

/-- One value after another: the next value goes where the values so far end. -/
theorem update_store_take (f : ℕ → α) (a : ℕ) (bs : List α) {i : ℕ} (hi : i < bs.length) :
    Function.update (store f a (bs.take i)) (a + i) bs[i] = store f a (bs.take (i + 1)) := by
  have hlen : a + (bs.take i).length = a + i := by simp; omega
  rw [List.take_succ_eq_append_getElem hi, ← store_append f hlen]
  funext j
  by_cases hj : j = a + i
  · subst hj
    rw [Function.update_self]
    exact (store_apply _ (a + i) [bs[i]] (i := 0) (by simp)).symm
  · rw [Function.update_of_ne hj, store_outside _ (a + i) [bs[i]] (by simp; omega)]

/-- Stores of disjoint ranges commute. -/
theorem store_comm (f : ℕ → α) {a b : ℕ} {l l' : List α} (h : a + l.length ≤ b ∨ b + l'.length ≤ a) :
    store (store f a l) b l' = store (store f b l') a l := by
  funext i
  by_cases ha : a ≤ i ∧ i < a + l.length
  · rw [store_outside _ b l' (by omega)]
    obtain ⟨k, rfl⟩ := Nat.exists_eq_add_of_le ha.1
    have hk : k < l.length := by omega
    rw [store_apply _ _ _ hk, store_apply _ _ _ hk]
  · rw [store_outside _ a l (by omega)]
    by_cases hb : b ≤ i ∧ i < b + l'.length
    · obtain ⟨k, rfl⟩ := Nat.exists_eq_add_of_le hb.1
      have hk : k < l'.length := by omega
      rw [store_apply _ _ _ hk, store_apply _ _ _ hk]
    · rw [store_outside _ b l' (by omega), store_outside _ b l' (by omega), store_outside _ a l (by omega)]

/-- A store within what was stored before replaces that part of it. -/
theorem store_store (f : ℕ → α) {a b : ℕ} {x y y' z : List α} (hb : a + x.length = b) (hy : y.length = y'.length) :
    store (store f a (x ++ y ++ z)) b y' = store f a (x ++ y' ++ z) := by
  subst hb
  rw [← store_append f rfl, ← store_append f rfl, ← store_append f rfl, ← store_append f rfl]
  rw [store_comm _ (l := z) (by simp [hy]; omega), List.length_append, List.length_append, hy]
  congr 1
  funext i
  by_cases hi : a + x.length ≤ i ∧ i < a + x.length + y'.length
  · obtain ⟨k, rfl⟩ := Nat.exists_eq_add_of_le hi.1
    have hk : k < y'.length := by omega
    rw [store_apply _ _ _ hk, store_apply _ _ _ hk]
  · rw [store_outside _ _ y' (by omega), store_outside _ _ y' (by omega), store_outside _ _ y (by omega)]

end Ranges

/-! ### Copies -/

namespace Prog

variable {Op : Type} {Ans : Op → Type} {σ ε α β : Type} {M : Machine Op Ans σ ε} {A G : Op → σ → Prop}

/-- Read `n` values one after another, from address `a` on. -/
def readEach (read : ℕ → Prog Op Ans α) (a : ℕ) : ℕ → Prog Op Ans (List α)
  | 0 => return []
  | n + 1 => do
    let b ← read a
    let bs ← readEach read (a + 1) n
    return b :: bs

/-- Write values one after another, from address `a` on. -/
def writeEach (write : ℕ → α → Prog Op Ans Unit) (a : ℕ) : List α → Prog Op Ans Unit
  | [] => return ()
  | b :: bs => do
    write a b
    writeEach write (a + 1) bs

/-- While `B` holds, every read gives what `f` has there; then so does the copy. -/
theorem Safe.readEach {B : σ → Prop} (hB : M.Stable B) {read : ℕ → Prog Op Ans α} {f : ℕ → α} {a n : ℕ}
    (hread : ∀ i < n, ∀ s, B s → (read (a + i)).Safe M A G (fun b s' => b = f (a + i) ∧ B s') s) {s : σ} (hs : B s) :
    (readEach read a n).Safe M A G (fun bs s' => bs = load f a n ∧ B s') s := by
  induction n generalizing a s with
  | zero => exact Safe.ret_of_stable hB hs fun s' h => ⟨rfl, h⟩
  | succ n ih =>
    refine Safe.bind ((hread 0 (by omega) s hs).mono ?_)
    rintro b s₁ ⟨rfl, h₁⟩
    have htail := ih (a := a + 1) (fun i hi s hs => ?_) h₁
    · refine Safe.bind (htail.mono ?_)
      rintro bs s₂ ⟨rfl, h₂⟩
      refine Safe.ret_of_stable hB h₂ fun s₃ h₃ => ⟨?_, h₃⟩
      simp [load, List.range_succ_eq_map, Function.comp_def, Nat.add_assoc, Nat.add_comm 1]
    · have := hread (i + 1) (by omega) s hs
      rwa [show a + (i + 1) = a + 1 + i by omega] at this

/-- If writing value number `i` leads from `B i` to `B (i + 1)`, a copy of all of them
leads from `B 0` to the end. -/
theorem Safe.writeEach {bs : List α} {B : ℕ → σ → Prop} (hB : ∀ i, M.Stable (B i)) {write : ℕ → α → Prog Op Ans Unit}
    {a : ℕ} (hwrite : ∀ i (hi : i < bs.length) s, B i s →
      (write (a + i) (bs.get ⟨i, hi⟩)).Safe M A G (fun _ => B (i + 1)) s) {s : σ} (hs : B 0 s) :
    (writeEach write a bs).Safe M A G (fun _ => B bs.length) s := by
  induction bs generalizing a B s with
  | nil => exact Safe.ret_of_stable (hB 0) hs fun s' h => h
  | cons b bs ih =>
    refine Safe.bind ((hwrite 0 (by simp) s hs).mono fun _ s₁ h₁ => ?_)
    refine ih (B := fun i => B (i + 1)) (fun i => hB (i + 1)) (fun i hi s hs => ?_) h₁
    have := hwrite (i + 1) (by simpa using hi) s hs
    rw [show a + (i + 1) = a + 1 + i by omega] at this
    exact this

/-- What every read of a range does, a copy of the range does. -/
theorem readEach_all_of_lt {P : Op → Prop} {read : ℕ → Prog Op Ans α} {a n : ℕ}
    (h : ∀ i < n, (read (a + i)).All P fun _ => True) : (readEach read a n).All P fun bs => bs.length = n := by
  induction n generalizing a with
  | zero => exact rfl
  | succ n ih =>
    refine (h 0 (by omega)).bind fun _ _ => (ih fun i hi => ?_).bind fun bs hbs => by simp [All, hbs]
    have := h (i + 1) (by omega)
    rwa [show a + (i + 1) = a + 1 + i by omega] at this

theorem readEach_all {P : Op → Prop} {read : ℕ → Prog Op Ans α} (h : ∀ a, (read a).All P fun _ => True) (a n : ℕ) :
    (readEach read a n).All P fun bs => bs.length = n := readEach_all_of_lt fun i _ => h (a + i)

/-- If a read at an address is as `T` says whenever it is followed by anything that is allowed, so is every
read of a copy that is allowed. -/
theorem AllUnder.readEach {C : (o : Op) → Ans o → Prop} {P : Op → Prop} {R : List α → Prop} {T : ℕ → Prop}
    {read : ℕ → Prog Op Ans α} {a n : ℕ}
    (hread : ∀ (a : ℕ) (f : α → Prog Op Ans (List α)) R', (read a >>= f).AllUnder C P R' →
      T a ∧ ∃ b, (f b).AllUnder C P R')
    (h : (readEach read a n).AllUnder C P R) : ∀ i < n, T (a + i) := by
  induction n generalizing a R with
  | zero => intro i hi; omega
  | succ n ih =>
    intro i hi
    obtain ⟨hT, b, hb⟩ := hread a _ R h
    cases i with
    | zero => exact hT
    | succ i =>
      have := ih (a := a + 1) (AllUnder.of_bind hb) i (by omega)
      rwa [show a + (i + 1) = a + 1 + i by omega]

theorem writeEach_all {P : Op → Prop} {write : ℕ → α → Prog Op Ans Unit} (h : ∀ a b, (write a b).All P fun _ => True)
    (a : ℕ) (bs : List α) : (writeEach write a bs).All P fun _ => True := by
  induction bs generalizing a with
  | nil => exact trivial
  | cons b bs ih => exact (h a b).bind fun _ _ => ih (a + 1)

end Prog

end Yasouos.Theory
