import Yasouos.Theory.Program
import Mathlib.Logic.Function.Basic

/-!
# Several devices of one kind, and layers of programs

A driver is written for one device. A kernel that has several of them calls the driver for
one or the other, with a context for each, and while a call is running all devices move.

## The model

`Machine.indexed` is a family of machines of one kind: an operation is performed on one of
them, and so is a move of the environment. `Prog.onDevice` runs a program on one of them.
A program whose operations are calls of a driver is run by `Prog.expand`, which puts the
driver's program in the place of each operation.

## What is proved

`Prog.Safe.onDevice`: a program that is safe on one device is safe in the family, and what
the other devices keep by themselves they keep.
-/

namespace Yasouos.Theory

open Relation

variable {Op : Type} {Ans : Op → Type} {σ ε α ι : Type}

namespace Machine

variable [DecidableEq ι] (M : Machine Op Ans σ ε)

/-- A machine for each index. -/
def indexed : Machine (ι × Op) (fun o => Ans o.2) (ι → σ) (ι × ε) where
  exec o s := ((M.exec o.2 (s o.1)).1, Function.update s o.1 (M.exec o.2 (s o.1)).2)
  env e s := (M.env e.2 (s e.1)).map (Function.update s e.1)

variable {M}

/-- A move of the family is one of a single device. -/
theorem indexed_env {e : ι × ε} {s s' : ι → σ} (h : (M.indexed (ι := ι)).env e s = some s') :
    ∃ t, M.env e.2 (s e.1) = some t ∧ s' = Function.update s e.1 t := by
  obtain ⟨t, ht, heq⟩ := Option.map_eq_some_iff.mp h
  exact ⟨t, ht, heq.symm⟩

/-- What each device keeps by itself, the family keeps. -/
theorem Stable.indexed {B : ι → σ → Prop} (hB : ∀ i, M.Stable (B i)) :
    (M.indexed (ι := ι)).Stable fun s => ∀ i, B i (s i) := by
  intro e s s' hs he i
  obtain ⟨t, ht, rfl⟩ := indexed_env he
  by_cases hi : i = e.1
  · subst hi
    rw [Function.update_self]
    exact hB e.1 e.2 _ _ (hs e.1) ht
  · rw [Function.update_of_ne hi]
    exact hs i

/-- What the devices of the family do by themselves, each of them does by itself. -/
theorem EnvReach.component {s s' : ι → σ} (h : M.indexed.EnvReach s s') (i : ι) : M.EnvReach (s i) (s' i) := by
  induction h with
  | refl => exact .refl
  | tail _ he ih =>
    obtain ⟨e, he⟩ := he
    obtain ⟨t, ht, rfl⟩ := indexed_env he
    by_cases hi : i = e.1
    · subst hi
      rw [Function.update_self]
      exact ih.tail ⟨e.2, ht⟩
    · rw [Function.update_of_ne hi]
      exact ih

end Machine

namespace Prog

/-- Run a program on one of the devices. -/
def onDevice (i : ι) : Prog Op Ans α → Prog (ι × Op) (fun o => Ans o.2) α
  | ret a => ret a
  | op o k => op (i, o) fun x => (k x).onDevice i

/-- Put a program in the place of each operation. The programs pass on a state of their own. -/
def expand {Op' : Type} {Ans' : Op' → Type} {π : Type} (h : (o : Op) → π → Prog Op' Ans' (π × Ans o)) :
    Prog Op Ans α → π → Prog Op' Ans' (π × α)
  | ret a, p => ret (p, a)
  | op o k, p => h o p >>= fun x => (k x.2).expand h x.1

variable [DecidableEq ι] {M : Machine Op Ans σ ε} {A G : Op → σ → Prop} {Q : α → σ → Prop}

/-- **One device of several.** A program that is safe on a device is safe on it among others, and these
keep what they keep by themselves. -/
theorem Safe.onDevice {i : ι} {p : Prog Op Ans α} {B : ι → σ → Prop} {s : ι → σ} (h : p.Safe M A G Q (s i))
    (hB : ∀ j, M.Stable (B j)) (hs : ∀ j, j ≠ i → B j (s j)) :
    (p.onDevice i).Safe M.indexed (fun o s => A o.2 (s o.1)) (fun o s => G o.2 (s o.1))
      (fun a s' => Q a (s' i) ∧ ∀ j, j ≠ i → B j (s' j)) s := by
  induction p generalizing s with
  | ret a =>
    intro s' hr
    exact ⟨h _ (hr.component i), fun j hj => (hB j).reach (hr.component j) (hs j hj)⟩
  | op o k ih =>
    intro s' hr
    obtain ⟨hG, hk⟩ := h _ (hr.component i)
    refine ⟨hG, fun hA => ih _ ?_ ?_⟩
    · show (k _).Safe M A G Q (Function.update s' i (M.exec o (s' i)).2 i)
      rw [Function.update_self]
      exact hk hA
    · intro j hj
      show B j (Function.update s' i (M.exec o (s' i)).2 j)
      rw [Function.update_of_ne hj]
      exact (hB j).reach (hr.component j) (hs j hj)

end Prog

end Yasouos.Theory
