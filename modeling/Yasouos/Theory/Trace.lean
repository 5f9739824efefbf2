import Mathlib.Data.List.Induction

/-!
# Loops

A loop over a list with a state, which writes one entry a step. What is to be shown of the entries,
or of every two of them, is shown of the step at a point of the list with what is before it.

* `trace` — the log; `trace_concat` is the last step.
* `forall_trace` — a property of every entry.
* `pairwise_trace` — a relation between every entry and those that are written after it.

A loop that is given a number of iterations, and that makes at most one for each place it moves on.

* `LoopsTo` — the loop gets from one state to another; `LoopsTo.run_eq` is how much it is to be given.
* `lt_of_stuck` — a loop that moves on below a bound is not stuck for long; `run_eq_of_forever` — one that always
  comes to another state of an invariant is stuck however much it is given.
-/

namespace Yasouos.Theory

variable {σ α β : Type} (step : σ → α → σ) (out : σ → α → β)

/-- The log of a loop. -/
def trace : σ → List α → List β
  | _, [] => []
  | s, x :: xs => out s x :: trace (step s x) xs

theorem trace_append (s : σ) (xs ys : List α) :
    trace step out s (xs ++ ys) = trace step out s xs ++ trace step out (xs.foldl step s) ys := by
  induction xs generalizing s with
  | nil => rfl
  | cons x xs ih => rw [List.cons_append, trace, trace, ih, List.foldl_cons, List.cons_append]

theorem trace_concat (s : σ) (xs : List α) (x : α) :
    trace step out s (xs ++ [x]) = trace step out s xs ++ [out (xs.foldl step s) x] :=
  trace_append step out s xs [x]

variable {step out}

/-- An entry of the log is written at a point of the list. -/
theorem exists_of_mem_trace {s : σ} {xs : List α} {y : β} (h : y ∈ trace step out s xs) :
    ∃ before x after, xs = before ++ x :: after ∧ y = out (before.foldl step s) x := by
  induction xs generalizing s with
  | nil => exact absurd h List.not_mem_nil
  | cons x xs ih =>
    rcases List.mem_cons.1 h with rfl | h
    · exact ⟨[], x, xs, rfl, rfl⟩
    · obtain ⟨before, z, after, rfl, rfl⟩ := ih h
      exact ⟨x :: before, z, after, rfl, rfl⟩

theorem mem_trace (s : σ) (before : List α) (x : α) (after : List α) :
    out (before.foldl step s) x ∈ trace step out s (before ++ x :: after) := by
  rw [trace_append]
  exact List.mem_append_right _ List.mem_cons_self

/-- A property of every entry. -/
theorem forall_trace {P : β → Prop} {s : σ} {xs : List α} :
    (∀ y ∈ trace step out s xs, P y) ↔
      ∀ before x after, xs = before ++ x :: after → P (out (before.foldl step s) x) := by
  constructor
  · rintro h before x after rfl
    exact h _ (mem_trace s before x after)
  · intro h y hy
    obtain ⟨before, x, after, hxs, rfl⟩ := exists_of_mem_trace hy
    exact h before x after hxs

/-- A relation between every entry and the later ones. -/
theorem pairwise_trace {R : β → β → Prop} {s : σ} {xs : List α} :
    (trace step out s xs).Pairwise R ↔
      ∀ before x after, xs = before ++ x :: after →
        ∀ y ∈ trace step out s before, R y (out (before.foldl step s) x) := by
  constructor
  · rintro h before x after rfl y hy
    rw [trace_append, List.pairwise_append] at h
    exact h.2.2 y hy _ List.mem_cons_self
  · intro h
    induction xs using List.reverseRecOn with
    | nil => exact List.Pairwise.nil
    | append_singleton xs x ih =>
      rw [trace_concat, List.pairwise_append]
      refine ⟨ih ?_, List.pairwise_singleton _ _, ?_⟩
      · rintro before z after rfl
        exact h before z (after ++ [x]) (by simp)
      · intro y hy z hz
        obtain rfl := List.mem_singleton.1 hz
        exact h xs x [] rfl y hy

/-! ### Loops that are given a number of iterations -/

section Fuel

variable {run : ℕ → σ → α} {pos : σ → ℕ} {s s' s'' : σ}

variable (run pos) in
/-- The loop gets from one state to the other, making no more iterations than it moves on. -/
def LoopsTo (s s' : σ) : Prop := ∃ n, pos s + n ≤ pos s' ∧ ∀ k, run (k + n) s = run k s'

theorem LoopsTo.refl (s : σ) : LoopsTo run pos s s := ⟨0, Nat.le_refl _, fun _ => rfl⟩

theorem LoopsTo.trans (h : LoopsTo run pos s s') (h' : LoopsTo run pos s' s'') : LoopsTo run pos s s'' := by
  obtain ⟨n, hn, h⟩ := h
  obtain ⟨m, hm, h'⟩ := h'
  refine ⟨m + n, by omega, fun k => ?_⟩
  rw [← Nat.add_assoc, h, h']

theorem LoopsTo.single (h : ∀ k, run (k + 1) s = run k s') (hlt : pos s < pos s') : LoopsTo run pos s s' :=
  ⟨1, hlt, h⟩

/-- With one iteration more than it moves on, the loop comes to look at where it has got to. -/
theorem LoopsTo.run_eq (h : LoopsTo run pos s s') {fuel : ℕ} (hfuel : pos s' ≤ pos s + fuel) :
    ∃ k, run (fuel + 1) s = run (k + 1) s' := by
  obtain ⟨n, hn, h⟩ := h
  refine ⟨fuel - n, ?_⟩
  rw [← h, show fuel - n + 1 + n = fuel + 1 by omega]

/-- While a loop runs out of iterations, it moves on by `d` in each, below the bound. -/
theorem lt_of_stuck (Stuck : ℕ → σ → Prop) {bound d n : ℕ}
    (h : ∀ n s, Stuck (n + 1) s → pos s < bound ∧ ∃ s', pos s + d ≤ pos s' ∧ Stuck n s') (hs : Stuck (n + 1) s) :
    pos s + d * n < bound := by
  induction n generalizing s with
  | zero => exact (h 0 s hs).1
  | succ n ih =>
    obtain ⟨-, s', hpos, hs'⟩ := h (n + 1) s hs
    have hlt := ih hs'
    rw [Nat.mul_succ]
    omega

/-- A loop that never leaves an invariant gives what it gives without any iterations. -/
theorem run_eq_of_forever {Inv : σ → Prop} {r : α} (hzero : ∀ s, run 0 s = r)
    (h : ∀ s, Inv s → ∃ s', Inv s' ∧ ∀ k, run (k + 1) s = run k s') {s : σ} (hs : Inv s) (fuel : ℕ) : run fuel s = r := by
  induction fuel generalizing s with
  | zero => exact hzero s
  | succ fuel ih =>
    obtain ⟨s', hs', hrun⟩ := h s hs
    rw [hrun]
    exact ih hs'

end Fuel

end Yasouos.Theory
