import Mathlib.Data.List.Range
import Mathlib.Data.List.Rotate
import Mathlib.Data.Nat.ModEq
import Mathlib.Logic.Function.Basic

/-!
# Rings with free-running indices

A producer and a consumer share an array of `N` slots. Each keeps an index that
only ever counts up and wraps at `M`, a multiple of `N`; index `i` names slot
`i % N`. What the ring holds is what lies from the consumer's index up to the
producer's, and since the indices wrap it is never visible in their order: only
in their distance modulo `M`.

`ringDist M head tail` is that distance and `window` the list of what the ring holds.
The lemmas say that a producer who writes slot `tail % N` and then advances
appends to the window, as long as the window has fewer than `N` entries
(`window_push`), and that a consumer who advances drops its first entry, which is
the one in slot `head % N` (`window_pop`).

`goRound N i v` are the slots that an index comes to that starts at `i` and goes round in `v` turns: as
many turns as there are slots come to each slot once (`goRound_perm`).
-/

namespace Yasouos.Theory

variable {α : Type} {M N : ℕ}

/-- How far `tail` is ahead of `head`, both counted modulo `M`. -/
def ringDist (M head tail : ℕ) : ℕ := (tail + M - head) % M

/-- The entries from `head` up to `tail`, oldest first. -/
def window (M N : ℕ) (slots : ℕ → α) (head tail : ℕ) : List α :=
  (List.range (ringDist M head tail)).map fun k => slots ((head + k) % N)

/-! ### Distances -/

theorem ringDist_eq {head tail : ℕ} (hh : head < M) (ht : tail < M) :
    ringDist M head tail = if head ≤ tail then tail - head else tail + M - head := by
  unfold ringDist
  split_ifs with h
  · rw [show tail + M - head = tail - head + M by omega, Nat.add_mod_right, Nat.mod_eq_of_lt (by omega)]
  · exact Nat.mod_eq_of_lt (by omega)

theorem succ_mod_eq {i : ℕ} (hi : i < M) : (i + 1) % M = if i + 1 = M then 0 else i + 1 := by
  split_ifs with h
  · rw [h, Nat.mod_self]
  · exact Nat.mod_eq_of_lt (by omega)

theorem ringDist_lt (head : ℕ) {tail : ℕ} (ht : tail < M) : ringDist M head tail < M := Nat.mod_lt _ (by omega)

theorem ringDist_self {i : ℕ} (hi : i < M) : ringDist M i i = 0 := by simp [ringDist_eq hi hi]

theorem ringDist_eq_zero_iff {head tail : ℕ} (hh : head < M) (ht : tail < M) : ringDist M head tail = 0 ↔ head = tail := by
  rw [ringDist_eq hh ht]
  split_ifs <;> omega

/-- The producer advances: the distance grows, unless it wraps onto the consumer. -/
theorem ringDist_succ_right {head tail : ℕ} (hh : head < M) (ht : tail < M) (hd : ringDist M head tail + 1 < M) :
    ringDist M head ((tail + 1) % M) = ringDist M head tail + 1 := by
  have ht' : (tail + 1) % M < M := Nat.mod_lt _ (by omega)
  rw [ringDist_eq hh ht'] at *
  rw [ringDist_eq hh ht] at *
  rw [succ_mod_eq ht] at *
  split_ifs at * <;> omega

/-- The consumer advances: the distance shrinks. -/
theorem ringDist_succ_left {head tail : ℕ} (hh : head < M) (ht : tail < M) (hne : head ≠ tail) :
    ringDist M ((head + 1) % M) tail + 1 = ringDist M head tail := by
  have hh' : (head + 1) % M < M := Nat.mod_lt _ (by omega)
  rw [ringDist_eq hh' ht, ringDist_eq hh ht, succ_mod_eq hh]
  split_ifs <;> omega

/-- From the index after `i`, index `i` is the last to come to. -/
theorem ringDist_succ_self {i : ℕ} (hi : i < M) : ringDist M ((i + 1) % M) i = M - 1 := by
  rw [ringDist_eq (Nat.mod_lt _ (by omega)) hi, succ_mod_eq hi]
  split_ifs <;> omega

/-! ### Slots -/

/-- The slot of an index does not depend on the index having wrapped. -/
theorem mod_add_mod_of_dvd (hN : N ∣ M) (i k : ℕ) : (i % M + k) % N = (i + k) % N := by
  rw [Nat.add_mod, Nat.mod_mod_of_dvd i hN, ← Nat.add_mod]

/-- Different indices are at different distances. -/
theorem ringDist_inj {head i j : ℕ} (hh : head < M) (hi : i < M) (hj : j < M) (h : ringDist M head i = ringDist M head j) :
    i = j := by
  rw [ringDist_eq hh hi, ringDist_eq hh hj] at h
  split_ifs at h <;> omega

/-- The producer's slot is the one `ringDist` places after the consumer's. -/
theorem add_ringDist_mod (hN : N ∣ M) {head tail : ℕ} (hh : head < M) (ht : tail < M) :
    (head + ringDist M head tail) % N = tail % N := by
  rw [ringDist_eq hh ht]
  split_ifs with h
  · rw [show head + (tail - head) = tail by omega]
  · obtain ⟨c, rfl⟩ := hN
    rw [show head + (tail + N * c - head) = tail + N * c by omega, Nat.add_mul_mod_self_left]

/-- Different places of a window of at most `N` entries are in different slots. -/
theorem slot_ne {i j k : ℕ} (hjk : j < k) (hk : k < j + N) : (i + j) % N ≠ (i + k) % N := by
  intro h
  have h' : j % N = k % N := Nat.ModEq.add_left_cancel' i h
  have hd : N ∣ k - j := (Nat.modEq_iff_dvd' hjk.le).mp h'
  have := Nat.le_of_dvd (by omega) hd
  omega

/-! ### Windows -/

@[simp] theorem length_window (slots : ℕ → α) (head tail : ℕ) :
    (window M N slots head tail).length = ringDist M head tail := by
  simp [window]

theorem window_self (slots : ℕ → α) {i : ℕ} (hi : i < M) : window M N slots i i = [] := by
  simp [window, ringDist_self hi]

theorem mem_window {slots : ℕ → α} {head tail : ℕ} {x : α} :
    x ∈ window M N slots head tail ↔ ∃ k < ringDist M head tail, slots ((head + k) % N) = x := by
  simp [window]

theorem ringDist_add_mod {head k : ℕ} (hh : head < M) (hk : k < M) : ringDist M head ((head + k) % M) = k := by
  rw [ringDist_eq hh (Nat.mod_lt _ (by omega)), Nat.mod_def]
  rcases Nat.lt_or_ge (head + k) M with h | h
  · rw [Nat.div_eq_of_lt h]
    split_ifs <;> omega
  · rw [Nat.div_eq_of_lt_le (k := 1) (by omega) (by omega)]
    split_ifs <;> omega

/-- The slots between `head` and `tail` are those nearer to `head` than `tail` is. -/
theorem mem_window_id {head tail i : ℕ} (hh : head < M) (ht : tail < M) (hi : i < M) :
    i ∈ window M M id head tail ↔ ringDist M head i < ringDist M head tail := by
  rw [mem_window]
  constructor
  · rintro ⟨k, hk, rfl⟩
    rwa [id, ringDist_add_mod hh (hk.trans (ringDist_lt _ ht))]
  · intro h
    exact ⟨_, h, by rw [id, add_ringDist_mod (dvd_refl M) hh hi, Nat.mod_eq_of_lt hi]⟩

/-- Slots that agree on the entries give the same entries. -/
theorem window_congr {slots slots' : ℕ → α} {head tail : ℕ}
    (h : ∀ k < ringDist M head tail, slots ((head + k) % N) = slots' ((head + k) % N)) :
    window M N slots head tail = window M N slots' head tail :=
  List.map_congr_left fun k hk => h k (List.mem_range.mp hk)

/-- Writing a slot that no entry of the window is in does not change the window. -/
theorem window_update_of_ne (slots : ℕ → α) {head tail i : ℕ} (x : α)
    (h : ∀ k < ringDist M head tail, (head + k) % N ≠ i) :
    window M N (Function.update slots i x) head tail = window M N slots head tail := by
  refine List.map_congr_left fun k hk => ?_
  rw [Function.update_of_ne (h k (List.mem_range.mp hk))]

/-- The producer's slot holds no entry of a window with room in it. -/
theorem slot_free (hN : N ∣ M) {head tail : ℕ} (hh : head < M) (ht : tail < M) (hd : ringDist M head tail < N) :
    ∀ k < ringDist M head tail, (head + k) % N ≠ tail % N := by
  intro k hk
  rw [← add_ringDist_mod hN hh ht]
  exact slot_ne hk (by omega)

/-- Writing the producer's slot, before advancing, does not change the window. -/
theorem window_write (hN : N ∣ M) (slots : ℕ → α) {head tail : ℕ} (x : α) (hh : head < M) (ht : tail < M)
    (hd : ringDist M head tail < N) :
    window M N (Function.update slots (tail % N) x) head tail = window M N slots head tail :=
  window_update_of_ne slots x (slot_free hN hh ht hd)

/-- The producer advances over a slot: what the slot holds is appended. -/
theorem window_advance (hN : N ∣ M) (slots : ℕ → α) {head tail : ℕ} (hh : head < M) (ht : tail < M)
    (hd : ringDist M head tail + 1 < M) :
    window M N slots head ((tail + 1) % M) = window M N slots head tail ++ [slots (tail % N)] := by
  unfold window
  rw [ringDist_succ_right hh ht hd, List.range_succ, List.map_append, List.map_singleton, add_ringDist_mod hN hh ht]

/-- **Production**: the producer writes its slot and advances. -/
theorem window_push (hN : N ∣ M) (slots : ℕ → α) {head tail : ℕ} (x : α) (hh : head < M) (ht : tail < M)
    (hd : ringDist M head tail < N) (hM : ringDist M head tail + 1 < M) :
    window M N (Function.update slots (tail % N) x) head ((tail + 1) % M) = window M N slots head tail ++ [x] := by
  rw [window_advance hN _ hh ht hM, window_write hN slots x hh ht hd, Function.update_self]

/-- **Consumption**: the oldest entry is in the consumer's slot, and advancing drops it. -/
theorem window_pop (hN : N ∣ M) (slots : ℕ → α) {head tail : ℕ} (hh : head < M) (ht : tail < M) (hne : head ≠ tail) :
    window M N slots head tail = slots (head % N) :: window M N slots ((head + 1) % M) tail := by
  unfold window
  rw [← ringDist_succ_left hh ht hne, List.range_succ_eq_map, List.map_cons, List.map_map, Nat.add_zero]
  congr 1
  refine List.map_congr_left fun k _ => ?_
  simp only [Function.comp]
  rw [mod_add_mod_of_dvd hN, show head + 1 + k = head + k.succ by omega]

/-! ### Going round -/

/-- The slots that an index comes to in `v` turns from `i` on. -/
def goRound (N i v : ℕ) : List ℕ := (List.range v).map fun j => (i + j) % N

theorem goRound_add (i v v' : ℕ) : goRound N i (v + v') = goRound N i v ++ goRound N ((i + v) % N) v' := by
  rw [goRound, goRound, goRound, List.range_add, List.map_append, List.map_map]
  refine congrArg _ (List.map_congr_left fun j _ => ?_)
  rw [Function.comp_apply, Nat.mod_add_mod, Nat.add_assoc]

theorem lt_of_mem_goRound (hN : 0 < N) {i v k : ℕ} (h : k ∈ goRound N i v) : k < N := by
  obtain ⟨j, -, rfl⟩ := List.mem_map.1 h
  exact Nat.mod_lt _ hN

/-- Once round is once for each slot, wherever it starts. -/
theorem goRound_perm (N i : ℕ) : (goRound N i N).Perm (List.range N) := by
  have hrotate : goRound N i N = (List.range N).rotate i := by
    refine List.ext_getElem (by simp [goRound]) fun k h₁ h₂ => ?_
    simp [goRound, List.getElem_rotate, Nat.add_comm]
  rw [hrotate]
  exact List.rotate_perm _ _

end Yasouos.Theory
