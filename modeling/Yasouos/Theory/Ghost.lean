import Yasouos.Theory.Program

/-!
# Records beside a run

What a run has done is not always visible in the state it has reached. This module puts a record
beside the state that a driver and its device share: each operation and each move of the device may
extend the record, and nothing depends on it.

`run_erase` says that the record makes no difference: without it, the runs are those of the system
itself. So a property of the runs with the record is a property of the runs of the system.
-/

namespace Yasouos.Theory

variable {Op : Type} {Ans : Op → Type} {σ ε κ π ρ γ : Type}

/-- The system with a record of type `γ`, to which `onOp` and `onEnv` say what to add. -/
def System.withRecord (S : System Op Ans σ ε κ π ρ) (onOp : Op → γ → γ) (onEnv : ε → γ → γ) :
    System Op Ans (σ × γ) ε κ π ρ where
  exec o s := ((S.exec o s.1).1, ((S.exec o s.1).2, onOp o s.2))
  env e s := (S.env e s.1).map fun s' => (s', onEnv e s.2)
  body := S.body

/-- The configuration without the record. -/
def Cfg.erase (c : Cfg Op Ans (σ × γ) κ π ρ) : Cfg Op Ans σ κ π ρ := ⟨c.priv, c.shared.1, c.cur, c.log⟩

namespace System

variable (S : System Op Ans σ ε κ π ρ) (onOp : Op → γ → γ) (onEnv : ε → γ → γ)

theorem step_erase (c : Cfg Op Ans (σ × γ) κ π ρ) (e : Event κ ε) :
    ((S.withRecord onOp onEnv).step c e).map Cfg.erase = S.step c.erase e := by
  obtain ⟨p, ⟨s, g⟩, cur, l⟩ := c
  match e, cur with
  | .call k, none => rfl
  | .call k, some _ => rfl
  | .tick, none => rfl
  | .tick, some (k, .ret (q, r)) => rfl
  | .tick, some (k, .op o f) => rfl
  | .env e, cur =>
    simp only [step, withRecord, Cfg.erase, Option.map_map]
    cases S.env e s <;> rfl

/-- **The record makes no difference.** -/
theorem run_erase (c : Cfg Op Ans (σ × γ) κ π ρ) (es : List (Event κ ε)) :
    ((S.withRecord onOp onEnv).run c es).map Cfg.erase = S.run c.erase es := by
  induction es generalizing c with
  | nil => rfl
  | cons e es ih =>
    rw [run, run, ← step_erase S onOp onEnv c e]
    cases (S.withRecord onOp onEnv).step c e with
    | none => rfl
    | some c' => exact ih c'

/-- Every run is a run with the record. -/
theorem exists_run_of_run {c : Cfg Op Ans (σ × γ) κ π ρ} {d : Cfg Op Ans σ κ π ρ} {es : List (Event κ ε)}
    (h : S.run c.erase es = some d) : ∃ c', (S.withRecord onOp onEnv).run c es = some c' ∧ c'.erase = d := by
  rw [← run_erase S onOp onEnv] at h
  exact Option.map_eq_some_iff.mp h

end System

end Yasouos.Theory
