import Yasouos.Theory.Handlers
import Yasouos.Theory.Observed

/-!
# Protocols of accesses

Some devices expect to be spoken to in a certain order, and what may come next depends on what they
have answered so far. Nothing is known of the answers.

## The model

A `Protocol` says of each state of a conversation which operations may come next, and what an answer
makes of it. `Prog.Obeys` is that a program performs only operations that may come next, whatever it is
answered. `Protocol.machine` is a device that gives any answers, which keeps track of the conversation.

## What is proved

* `Obeys.bind`, `Obeys.handle` — programs that obey a protocol compose; and they obey another protocol
  when their operations are carried out by programs that simulate it.
* `Protocol.obeys_of_driven` — the rule for runs: if every call of the client obeys the protocol and
  re-establishes an invariant, every operation of every run may come when it comes.
-/

namespace Yasouos.Theory

variable {Op Op' : Type} {Ans : Op → Type} {Ans' : Op' → Type} {Q Q' α β κ π ρ : Type}

/-- Which operations may come next, and how the conversation goes on with their answers. -/
structure Protocol (Op : Type) (Ans : Op → Type) (Q : Type) where
  /-- The operation may come next. -/
  allowed : Q → Op → Prop
  /-- What the operation and its answer make of the conversation. -/
  next : Q → (o : Op) → Ans o → Q

namespace Prog

/-- Whatever it is answered, the program performs only operations that may come next, and returns as `R` says. -/
def Obeys (P : Protocol Op Ans Q) (R : α → Q → Prop) : Prog Op Ans α → Q → Prop
  | ret a, q => R a q
  | op o k, q => P.allowed q o ∧ ∀ x, Obeys P R (k x) (P.next q o x)

variable {P : Protocol Op Ans Q} {P' : Protocol Op' Ans' Q'} {R : α → Q → Prop} {q : Q}

theorem Obeys.mono {R' : α → Q → Prop} {p : Prog Op Ans α} (h : p.Obeys P R q) (hR : ∀ a q, R a q → R' a q) :
    p.Obeys P R' q := by
  induction p generalizing q with
  | ret a => exact hR a q h
  | op o k ih => exact ⟨h.1, fun x => ih x (h.2 x)⟩

theorem Obeys.bind {R' : β → Q → Prop} {p : Prog Op Ans α} {f : α → Prog Op Ans β}
    (h : p.Obeys P (fun a q => (f a).Obeys P R' q) q) : (p >>= f).Obeys P R' q := by
  induction p generalizing q with
  | ret a => exact h
  | op o k ih => exact ⟨h.1, fun x => ih x (h.2 x)⟩

/-- **Simulation.** A program that obeys a protocol obeys another one when its operations are carried out by programs
that obey it as long as the first allows the operation, and that keep the conversations related. -/
theorem Obeys.handle {Sim : Q → Q' → Prop} {f : (o : Op) → Prog Op' Ans' (Ans o)}
    (hsim : ∀ o q q', Sim q q' → P.allowed q o → (f o).Obeys P' (fun x r' => Sim (P.next q o x) r') q')
    {p : Prog Op Ans α} (h : p.Obeys P R q) {q' : Q'} (hq : Sim q q') :
    (p.handle f).Obeys P' (fun a r' => ∃ r, Sim r r' ∧ R a r) q' := by
  induction p generalizing q q' with
  | ret a => exact ⟨q, hq, h⟩
  | op o k ih => exact ((hsim o q q' hq h.1).mono fun x r' hr => ih x (h.2 x) hr).bind

end Prog

namespace Protocol

/-- The protocol that allows everything. -/
def free (Op : Type) (Ans : Op → Type) : Protocol Op Ans Unit := ⟨fun _ _ => True, fun _ _ _ => ()⟩

variable (P : Protocol Op Ans Q)

/-- A device that gives any answers, now these and then others. -/
def machine : Machine Op Ans (((o : Op) → Ans o) × Q) ((o : Op) → Ans o) where
  exec o s := (s.1 o, (s.1, P.next s.2 o (s.1 o)))
  env answers s := some (answers, s.2)

/-- The machine, with calls. -/
def system (body : κ → π → Prog Op Ans (π × ρ)) : System Op Ans (((o : Op) → Ans o) × Q) ((o : Op) → Ans o) κ π ρ :=
  { P.machine with body := body }

variable {P}

theorem stable (B : Q → Prop) : P.machine.Stable fun s => B s.2 := by
  rintro e s s' h ⟨⟩
  exact h

end Protocol

namespace Prog

variable {P : Protocol Op Ans Q} {R : α → Q → Prop} {p : Prog Op Ans α}

/-- Nothing is asked of a program where everything is allowed. -/
theorem All.obeys_free {B : Op → Prop} {R : α → Prop} (h : p.All B R) :
    p.Obeys (Protocol.free Op Ans) (fun a _ => R a) () := by
  induction p with
  | ret a => exact h
  | op o k ih => exact ⟨trivial, fun x => ih x (h.2 x)⟩

/-- What obeys the protocol is safe. -/
theorem Obeys.safe {s : ((o : Op) → Ans o) × Q} (h : p.Obeys P R s.2) :
    p.Safe P.machine (fun _ _ => True) (fun o s => P.allowed s.2 o) (fun a s => R a s.2) s := by
  induction p generalizing s with
  | ret a => exact fun s' hr => (Protocol.stable (fun q => R a q)).reach hr h
  | op o k ih =>
    intro s' hr
    obtain ⟨hallowed, hk⟩ : P.allowed s'.2 o ∧ ∀ x, (k x).Obeys P R (P.next s'.2 o x) :=
      (Protocol.stable fun q => P.allowed q o ∧ ∀ x, (k x).Obeys P R (P.next q o x)).reach hr h
    exact ⟨hallowed, fun _ => ih _ (hk _)⟩

end Prog

namespace Protocol

variable {P : Protocol Op Ans Q}

/-- **The rule for runs.** If every call that the client makes obeys the protocol and re-establishes `I`, then in
every run that the client drives every operation may come when it comes, and `I` holds between calls. -/
theorem obeys_of_driven {body : κ → π → Prog Op Ans (π × ρ)} {client : List (Done κ π ρ) → κ → Prop}
    {I : List (Done κ π ρ) → π → Q → Prop}
    (hcall : ∀ l k p q, I l p q → client l k →
      (body k p).Obeys P (fun r q => I (l ++ [⟨k, p, r.2, r.1⟩]) r.1 q) q)
    {p : π} {s : ((o : Op) → Ans o) × Q} (h₀ : I [] p s.2) {c : Cfg Op Ans (((o : Op) → Ans o) × Q) κ π ρ}
    (h : (P.system body).Driven client (.start p s) c) :
    (∀ k o f, c.cur = some (k, .op o f) → P.allowed c.shared.2 o) ∧ (c.Idle → I c.log c.priv c.shared.2) := by
  have hgood : (P.system body).Good (fun _ _ _ => True) (fun _ o s => P.allowed s.2 o) (fun l p s => I l p s.2) c :=
    System.Driven.good (fun l p => stable (I l p)) (fun l k p s hI hk => (hcall l k p s.2 hI hk).safe)
      (System.Good.start h₀) h
  exact ⟨fun k o f hcur => hgood.guarantee hcur, fun hc => hgood.idle hc⟩

end Protocol

end Yasouos.Theory
