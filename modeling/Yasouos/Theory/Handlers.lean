import Yasouos.Theory.Program

/-!
# Operations carried out by programs

An operation of a program may itself be a program, over operations of a lower level.

## The model

`Prog.handle` carries out each operation of a program by a program. `Machine.alone` is a machine with
no device: `Prog.Safe` is then about the one run that there is.

## What is proved

`Prog.Safe.runOn_handle`: if every operation that the program performs is carried out as it says, on related
states, the whole program is.
-/

namespace Yasouos.Theory

variable {Op Op' : Type} {Ans : Op → Type} {Ans' : Op' → Type} {σ τ α β : Type}

/-- The machine on which nothing moves of its own accord. -/
def Machine.alone (exec : (o : Op) → σ → Ans o × σ) : Machine Op Ans σ Empty := ⟨exec, fun e => nomatch e⟩

theorem Machine.stable_alone (exec : (o : Op) → σ → Ans o × σ) (B : σ → Prop) : (alone exec).Stable B :=
  fun e => nomatch e

namespace Prog

/-- The program, each of its operations carried out by a program. -/
def handle (f : (o : Op) → Prog Op' Ans' (Ans o)) : Prog Op Ans α → Prog Op' Ans' α
  | ret a => ret a
  | op o k => f o >>= fun x => (k x).handle f

/-- **Simulation.** A program runs as it says when every operation that it performs does, on related states. -/
theorem Safe.runOn_handle {exec : (o : Op) → σ → Ans o × σ} {exec' : (o : Op') → τ → Ans' o × τ}
    {f : (o : Op) → Prog Op' Ans' (Ans o)} {Sim : σ → τ → Prop} {G : Op → σ → Prop} {Q : α → σ → Prop}
    (hsim : ∀ o s t, Sim s t → G o s →
      ((f o).runOn exec' t).1 = (exec o s).1 ∧ Sim (exec o s).2 ((f o).runOn exec' t).2)
    {p : Prog Op Ans α} {s : σ} {t : τ} (h : p.Safe (Machine.alone exec) (fun _ _ => True) G Q s) (ht : Sim s t) :
    ((p.handle f).runOn exec' t).1 = (p.runOn exec s).1 ∧
      Sim (p.runOn exec s).2 ((p.handle f).runOn exec' t).2 := by
  induction p generalizing s t with
  | ret a => exact ⟨rfl, ht⟩
  | op o k ih =>
    obtain ⟨hG, hk⟩ := h s .refl
    obtain ⟨hans, hstate⟩ := hsim o s t ht hG
    rw [handle, runOn_bind, hans]
    exact ih _ (hk trivial) hstate

end Prog

end Yasouos.Theory
