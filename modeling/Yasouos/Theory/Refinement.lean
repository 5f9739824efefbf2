import Yasouos.Theory.Program

/-!
# A system on a lower level

The state that a driver shares with its device can be described on two levels: as the fields and the
rings that it is meant to be, or as the bytes and the registers that it is. On both levels the driver
makes the same calls, and each of its accesses on one level is one on the other.

## The model

A `Lowering` says what each operation is on the lower level, and how its answer is to be read;
`Prog.lower` is a program on the lower level. `Simulates t S' S R G`: from states that `R` relates,
what `S` does under the guarantee `G` and what the device of `S'` does is matched on the other side.

## What is proved

`Simulates.exists_run`: if the guarantee holds in all runs of `S`, then to every run of `S'` there is
one of `S` with the same calls and the same results, and they end in states that `R` relates.
-/

namespace Yasouos.Theory

variable {Op Op' : Type} {Ans : Op → Type} {Ans' : Op' → Type} {σ σ' ε ε' κ π ρ α : Type}

/-- What each operation is on the lower level. -/
structure Lowering (Op : Type) (Ans : Op → Type) (Op' : Type) (Ans' : Op' → Type) where
  /-- The operation. -/
  op : Op → Op'
  /-- How its answer is read. -/
  ans : (o : Op) → Ans' (op o) → Ans o

/-- The program on the lower level. -/
def Prog.lower (t : Lowering Op Ans Op' Ans') : Prog Op Ans α → Prog Op' Ans' α
  | ret a => ret a
  | op o k => op (t.op o) fun x => (k (t.ans o x)).lower t

namespace Lowering

variable (t : Lowering Op Ans Op' Ans')

/-- **Simulation.** The system `S'` does what `S` does, on the states that `R` relates, as long as the operations of
`S` meet the guarantee `G`. -/
structure Simulates (S' : System Op' Ans' σ' ε' κ π ρ) (S : System Op Ans σ ε κ π ρ) (R : σ' → σ → Prop)
    (G : Op → σ → Prop) : Prop where
  body : ∀ k p, S'.body k p = (S.body k p).lower t
  exec : ∀ o s' s, R s' s → G o s →
    t.ans o (S'.exec (t.op o) s').1 = (S.exec o s).1 ∧ R (S'.exec (t.op o) s').2 (S.exec o s).2
  env : ∀ e' s' s₁' s, R s' s → S'.env e' s' = some s₁' → ∃ e s₁, S.env e s = some s₁ ∧ R s₁' s₁

/-- Two configurations in which the same has happened. -/
structure Matches (R : σ' → σ → Prop) (c' : Cfg Op' Ans' σ' κ π ρ) (c : Cfg Op Ans σ κ π ρ) : Prop where
  priv : c'.priv = c.priv
  log : c'.log = c.log
  shared : R c'.shared c.shared
  cur : c'.cur = c.cur.map fun kp => (kp.1, kp.2.lower t)

variable {t} {S' : System Op' Ans' σ' ε' κ π ρ} {S : System Op Ans σ ε κ π ρ} {R : σ' → σ → Prop} {G : Op → σ → Prop}

/-- One event. -/
theorem Simulates.exists_step (h : t.Simulates S' S R G) {A : κ → Op → σ → Prop}
    {I : List (Done κ π ρ) → π → σ → Prop} {c' d' : Cfg Op' Ans' σ' κ π ρ} {c : Cfg Op Ans σ κ π ρ}
    (hgood : S.Good A (fun _ => G) I c) (hm : t.Matches R c' c) {e' : Event κ ε'} (hstep : S'.step c' e' = some d') :
    ∃ e d, S.step c e = some d ∧ t.Matches R d' d := by
  obtain ⟨p', s', cur', l'⟩ := c'
  obtain ⟨p, s, cur, l⟩ := c
  obtain ⟨hp, hl, hs, hcur⟩ := hm
  change p' = p at hp
  change l' = l at hl
  change cur' = cur.map fun kp => (kp.1, kp.2.lower t) at hcur
  subst hp hl hcur
  match e', cur, hgood, hstep with
  | .call k, none, _, hstep =>
    obtain rfl := Option.some.inj hstep
    exact ⟨.call k, _, rfl, rfl, rfl, hs, congrArg (fun p => some (k, p)) (h.body k p')⟩
  | .tick, some (k, .ret (q, r)), _, hstep =>
    obtain rfl := Option.some.inj hstep
    exact ⟨.tick, _, rfl, rfl, rfl, hs, rfl⟩
  | .tick, some (k, .op o f), hgood, hstep =>
    obtain rfl := Option.some.inj hstep
    obtain ⟨hans, hs'⟩ := h.exec o s' s hs (hgood.guarantee rfl)
    exact ⟨.tick, _, rfl, rfl, rfl, hs', congrArg (fun x => some (k, (f x).lower t)) hans⟩
  | .env e', cur, _, hstep =>
    obtain ⟨s₁', he', rfl⟩ := Option.map_eq_some_iff.mp hstep
    obtain ⟨e, s₁, he, hs'⟩ := h.env e' s' s₁' s hs he'
    exact ⟨.env e, _, Option.map_eq_some_iff.mpr ⟨s₁, he, rfl⟩, rfl, rfl, hs', rfl⟩

/-- **Refinement.** Every run on the lower level is one on the upper level. -/
theorem Simulates.exists_run (h : t.Simulates S' S R G) {I : List (Done κ π ρ) → π → σ → Prop}
    (hI : ∀ l p, S.toMachine.Stable (I l p))
    (hcall : ∀ l k p s, I l p s →
      (S.body k p).Safe S.toMachine (fun _ _ => True) G (fun r s => I (l ++ [⟨k, p, r.2, r.1⟩]) r.1 s) s)
    {c' d' : Cfg Op' Ans' σ' κ π ρ} {c : Cfg Op Ans σ κ π ρ} (hgood : S.Good (fun _ _ _ => True) (fun _ => G) I c)
    (hm : t.Matches R c' c) {es' : List (Event κ ε')} (hrun : S'.run c' es' = some d') :
    ∃ es d, S.run c es = some d ∧ t.Matches R d' d := by
  induction es' generalizing c' c with
  | nil =>
    obtain rfl := Option.some.inj hrun
    exact ⟨[], c, rfl, hm⟩
  | cons e' es' ih =>
    obtain ⟨c₁', hstep', hrest'⟩ := Option.bind_eq_some_iff.mp hrun
    obtain ⟨e, c₁, hstep, hm₁⟩ := h.exists_step hgood hm hstep'
    have hgood₁ := System.reach_safe hI hcall hgood (.single ⟨e, System.meets_true c e, hstep⟩)
    obtain ⟨es, d, hrest, hd⟩ := ih hgood₁ hm₁ hrest'
    exact ⟨e :: es, d, Option.bind_eq_some_iff.mpr ⟨c₁, hstep, hrest⟩, hd⟩

end Lowering

end Yasouos.Theory
