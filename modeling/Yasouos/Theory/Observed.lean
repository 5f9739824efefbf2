import Yasouos.Theory.Ghost

/-!
# Observed devices, and clients

What the device does of its own accord may depend on what it finds in the shared state, and a record
of that has to be written when it looks. And a driver does not choose its calls: the program above it
makes them, and what it makes next depends on what the calls so far have returned.

## The model

`System.observed` is the system with a record beside its state to which each move of the device adds,
according to the state it finds. `System.Driven` are the runs in which a client makes the calls:
`client log k` says that after the calls of `log` it may make call `k`.

## What is proved

* `Prog.Safe.observed` — what a program does safely, it does safely where the device is observed.
* `ReachUnder.erase`, `exists_reachUnder_observed` — the record makes no difference to the runs.
* `Driven.reachUnder`, `Driven.follows` — in a run that a client drives, its calls are the client's.
* `Driven.good` — the rule for such runs: only the calls that the client makes have to be safe.
-/

namespace Yasouos.Theory

open Relation

variable {Op : Type} {Ans : Op → Type} {σ ε κ π ρ γ α : Type}

/-! ### Records of the device's moves -/

/-- The system with a record, to which `onEnv` says what a move of the device adds. -/
def System.observed (S : System Op Ans σ ε κ π ρ) (onEnv : ε → σ → γ → γ) : System Op Ans (σ × γ) ε κ π ρ where
  exec o s := ((S.exec o s.1).1, ((S.exec o s.1).2, s.2))
  env e s := (S.env e s.1).map fun s' => (s', onEnv e s.1 s.2)
  body := S.body

section Observed

variable {S : System Op Ans σ ε κ π ρ} {onEnv : ε → σ → γ → γ}

theorem env_observed {e : ε} {x x' : σ × γ} :
    (S.observed onEnv).env e x = some x' ↔ S.env e x.1 = some x'.1 ∧ x'.2 = onEnv e x.1 x.2 := by
  obtain ⟨s', g'⟩ := x'
  simp only [System.observed, Option.map_eq_some_iff, Prod.mk.injEq]
  constructor
  · rintro ⟨s, h, rfl, rfl⟩
    exact ⟨h, rfl⟩
  · rintro ⟨h, rfl⟩
    exact ⟨s', h, rfl, rfl⟩

theorem envReach_observed {x x' : σ × γ} (h : (S.observed onEnv).EnvReach x x') : S.EnvReach x.1 x'.1 := by
  induction h with
  | refl => exact .refl
  | tail _ he ih =>
    obtain ⟨e, he⟩ := he
    exact ih.tail ⟨e, (env_observed.1 he).1⟩

/-- What the device keeps, it keeps when it is observed. -/
theorem Machine.Stable.observed {B : σ → Prop} (h : S.toMachine.Stable B) :
    (S.observed onEnv).toMachine.Stable fun x => B x.1 :=
  fun e x x' hx he => h e x.1 x'.1 hx (env_observed.1 he).1

/-- Observing the device makes no program unsafe. -/
theorem Prog.Safe.observed {A G : Op → σ → Prop} {Q : α → σ → Prop} {p : Prog Op Ans α} {s : σ}
    (h : p.Safe S.toMachine A G Q s) (g : γ) :
    p.Safe (S.observed onEnv).toMachine (fun o x => A o x.1) (fun o x => G o x.1) (fun a x => Q a x.1) (s, g) := by
  induction p generalizing s g with
  | ret a => exact fun x hr => h x.1 (envReach_observed hr)
  | op o k ih =>
    intro x hr
    obtain ⟨hG, hk⟩ := h x.1 (envReach_observed hr)
    exact ⟨hG, fun hA => ih _ (hk hA) x.2⟩

/-! ### The runs are the same -/

/-- The configuration with a record. -/
def Cfg.record (c : Cfg Op Ans σ κ π ρ) (g : γ) : Cfg Op Ans (σ × γ) κ π ρ := ⟨c.priv, (c.shared, g), c.cur, c.log⟩

@[simp] theorem Cfg.erase_record (c : Cfg Op Ans σ κ π ρ) (g : γ) : (c.record g).erase = c := rfl

@[simp] theorem Cfg.erase_log (c : Cfg Op Ans (σ × γ) κ π ρ) : c.erase.log = c.log := rfl

@[simp] theorem Cfg.erase_shared (c : Cfg Op Ans (σ × γ) κ π ρ) : c.erase.shared = c.shared.1 := rfl

@[simp] theorem Cfg.erase_priv (c : Cfg Op Ans (σ × γ) κ π ρ) : c.erase.priv = c.priv := rfl

@[simp] theorem Cfg.erase_cur (c : Cfg Op Ans (σ × γ) κ π ρ) : c.erase.cur = c.cur := rfl

namespace System

theorem observed_step (c : Cfg Op Ans (σ × γ) κ π ρ) (e : Event κ ε) :
    ((S.observed onEnv).step c e).map Cfg.erase = S.step c.erase e := by
  obtain ⟨p, ⟨s, g⟩, cur, l⟩ := c
  match e, cur with
  | .call k, none => rfl
  | .call k, some _ => rfl
  | .tick, none => rfl
  | .tick, some (k, .ret (q, r)) => rfl
  | .tick, some (k, .op o f) => rfl
  | .env e, cur =>
    simp only [step, observed, Cfg.erase, Option.map_map]
    cases S.env e s <;> rfl

/-- A run with the record is a run. -/
theorem ReachUnder.erase {A : κ → Op → σ → Prop} {c c' : Cfg Op Ans (σ × γ) κ π ρ}
    (h : (S.observed onEnv).ReachUnder (fun k o x => A k o x.1) c c') : S.ReachUnder A c.erase c'.erase := by
  induction h with
  | refl => exact .refl
  | tail _ hs ih =>
    obtain ⟨e, hA, he⟩ := hs
    refine ih.tail ⟨e, ?_, ?_⟩
    · cases e with
      | call k => exact trivial
      | tick => exact hA
      | env e => exact trivial
    · exact (observed_step _ e).symm.trans (congrArg (Option.map Cfg.erase) he)

/-- Every run is one with the record. -/
theorem exists_reachUnder_observed {A : κ → Op → σ → Prop} {c d : Cfg Op Ans σ κ π ρ} (h : S.ReachUnder A c d) (g : γ) :
    ∃ c', (S.observed onEnv).ReachUnder (fun k o x => A k o x.1) (c.record g) c' ∧ c'.erase = d := by
  induction h with
  | refl => exact ⟨c.record g, .refl, rfl⟩
  | tail _ hs ih =>
    obtain ⟨c', hreach, rfl⟩ := ih
    obtain ⟨e, hA, he⟩ := hs
    have hstep : ((S.observed onEnv).step c' e).map Cfg.erase = some _ := (observed_step c' e).trans he
    obtain ⟨c'', hc'', rfl⟩ := Option.map_eq_some_iff.mp hstep
    refine ⟨c'', hreach.tail ⟨e, ?_, hc''⟩, rfl⟩
    cases e with
    | call k => exact trivial
    | tick => exact hA
    | env e => exact trivial

end System

end Observed

/-! ### Clients -/

namespace System

variable (S : System Op Ans σ ε κ π ρ) (client : List (Done κ π ρ) → κ → Prop)

/-- A step in which a call is made only if the client makes it. -/
def DrivenStep (c c' : Cfg Op Ans σ κ π ρ) : Prop :=
  ∃ e, (∀ k, e = .call k → client c.log k) ∧ S.step c e = some c'

/-- `c'` is reached from `c` by a run in which the client makes the calls. -/
def Driven : Cfg Op Ans σ κ π ρ → Cfg Op Ans σ κ π ρ → Prop := ReflTransGen (S.DrivenStep client)

/-- The configuration after events, if all can happen and the client makes the calls. -/
def drive [∀ log k, Decidable (client log k)] (c : Cfg Op Ans σ κ π ρ) :
    List (Event κ ε) → Option (Cfg Op Ans σ κ π ρ)
  | [] => some c
  | .call k :: es => if client c.log k then (S.step c (.call k)).bind fun c' => drive c' es else none
  | e :: es => (S.step c e).bind fun c' => drive c' es

/-- The calls of a log are those of the client, and so is the one that is running. -/
structure Follows (c : Cfg Op Ans σ κ π ρ) : Prop where
  cur : ∀ k p, c.cur = some (k, p) → client c.log k
  log : ∀ before e after, c.log = before ++ e :: after → client before e.call

variable {S client}

/-- In a run that the client drives, the calls are the client's. -/
theorem Driven.follows {c c' : Cfg Op Ans σ κ π ρ} (h₀ : Follows client c) (h : S.Driven client c c') :
    Follows client c' := by
  induction h with
  | refl => exact h₀
  | @tail c₁ c₂ _ hs ih =>
    obtain ⟨e, hclient, he⟩ := hs
    obtain ⟨p, s, cur, l⟩ := c₁
    match e, cur, ih, he with
    | .call k, none, ih, he =>
      cases he
      refine ⟨?_, ih.log⟩
      rintro k' q ⟨rfl, rfl⟩
      exact hclient k rfl
    | .call k, some _, _, he => cases he
    | .tick, none, _, he => cases he
    | .tick, some (k, .ret (q, r)), ih, he =>
      cases he
      refine ⟨fun k' q' hcur => (by cases hcur), fun before e after heq => ?_⟩
      -- the last call of the log was the one that was running
      rcases List.eq_nil_or_concat after with rfl | ⟨after', e', rfl⟩
      · obtain ⟨rfl, rfl⟩ := List.append_inj' heq rfl |>.imp id List.singleton_inj.1
        exact ih.cur k _ rfl
      · rw [List.concat_eq_append, ← List.cons_append, ← List.append_assoc] at heq
        exact ih.log before e after' (List.append_inj' heq rfl).1
    | .tick, some (k, .op o f), ih, he =>
      cases he
      refine ⟨?_, ih.log⟩
      rintro k' q ⟨rfl, rfl⟩
      exact ih.cur k _ rfl
    | .env e, cur, ih, he =>
      simp only [step, Option.map_eq_some_iff] at he
      obtain ⟨s', -, rfl⟩ := he
      exact ⟨ih.cur, ih.log⟩

/-- What is driven to, is reached by a run that the client drives. -/
theorem driven_of_drive [∀ log k, Decidable (client log k)] {c c' : Cfg Op Ans σ κ π ρ} {es : List (Event κ ε)}
    (h : S.drive client c es = some c') : S.Driven client c c' := by
  induction es generalizing c with
  | nil =>
    cases h
    exact .refl
  | cons e es ih =>
    cases e with
    | call k =>
      rw [drive] at h
      split_ifs at h with hk
      obtain ⟨c₁, he, h⟩ := Option.bind_eq_some_iff.1 h
      refine .head ⟨.call k, ?_, he⟩ (ih h)
      rintro k' ⟨⟩
      exact hk
    | tick =>
      obtain ⟨c₁, he, h⟩ := Option.bind_eq_some_iff.1 h
      exact .head ⟨.tick, fun k hk => (by cases hk), he⟩ (ih h)
    | env e =>
      obtain ⟨c₁, he, h⟩ := Option.bind_eq_some_iff.1 h
      exact .head ⟨.env e, fun k hk => (by cases hk), he⟩ (ih h)

/-- A client whose calls are all of a kind drives runs whose calls are of this kind. -/
theorem Driven.reachUnder {P : κ → Prop} (hP : ∀ log k, client log k → P k) {c c' : Cfg Op Ans σ κ π ρ}
    (h₀ : Follows client c) (h : S.Driven client c c') : S.ReachUnder (fun k _ _ => P k) c c' := by
  induction h with
  | refl => exact .refl
  | @tail c₁ c₂ hr hs ih =>
    have hfollows := Driven.follows h₀ hr
    obtain ⟨e, -, he⟩ := hs
    refine ih.tail ⟨e, ?_, he⟩
    cases e with
    | call k => exact trivial
    | tick => exact fun k o f hcur => hP _ k (hfollows.cur k _ hcur)
    | env e => exact trivial

/-- **The rule for runs that a client drives.** Let `I` be kept by the device, and let every call that the client
makes, from every state that satisfies `I`, be safe and re-establish `I`. -/
theorem Driven.good {G : κ → Op → σ → Prop} {I : List (Done κ π ρ) → π → σ → Prop}
    (hI : ∀ l p, S.toMachine.Stable (I l p))
    (hcall : ∀ l k p s, I l p s → client l k →
      (S.body k p).Safe S.toMachine (fun _ _ => True) (G k) (fun r s => I (l ++ [⟨k, p, r.2, r.1⟩]) r.1 s) s)
    {c c' : Cfg Op Ans σ κ π ρ} (h₀ : S.Good (fun _ _ _ => True) G I c) (h : S.Driven client c c') :
    S.Good (fun _ _ _ => True) G I c' := by
  induction h with
  | refl => exact h₀
  | @tail c₁ c₂ _ hs ih =>
    obtain ⟨e, hclient, he⟩ := hs
    obtain ⟨p, s, cur, l⟩ := c₁
    match e, cur, ih, he with
    | .call k, none, ih, he =>
      cases he
      exact hcall l k p s ih (hclient k rfl)
    | .call k, some _, _, he => cases he
    | .tick, none, _, he => cases he
    | .tick, some (k, .ret (q, r)), ih, he =>
      cases he
      exact ih s .refl
    | .tick, some (k, .op o f), ih, he =>
      cases he
      exact (ih s .refl).2 trivial
    | .env e, cur, ih, he =>
      simp only [step, Option.map_eq_some_iff] at he
      obtain ⟨s', henv, rfl⟩ := he
      cases cur with
      | none => exact hI l p e s s' ih henv
      | some kp => exact Prog.Safe.env (ih : Prog.Safe _ _ _ _ _ _) (.single ⟨e, henv⟩)

end System

end Yasouos.Theory
