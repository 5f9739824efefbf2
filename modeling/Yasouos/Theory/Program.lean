import Mathlib.Logic.Relation
import Mathlib.Tactic.SplitIfs
import Mathlib.Data.List.Infix

/-!
# Programs that share their state with a device

A driver is a sequential program, but the state it works on is not its own: a
device reads and writes the same memory and the same registers while the driver
runs. This module gives an account of such programs that does not depend on any
particular driver.

## The model

A program (`Prog`) is a tree of *operations*: it performs an operation, gets an
answer, and goes on as the answer says, until it returns. What an operation does
is left to a `Machine`, which also says how the device moves on its own. A
`System` adds the calls a driver offers. Its configurations (`Cfg`) keep the
driver's private state, the state it shares with the device, the call that is
running, if any, and a log of the calls that have returned; its steps start a
call, perform one operation, return, or let the device move. So the device may
move between any two operations of a call, and a run is any interleaving. `runOn`
runs a program where nothing else moves.

## What is proved

* `Prog.Safe` — a program is safe from a state when, however the device moves in
  between, every operation it performs meets its guarantee and it returns in a
  state that meets its postcondition. An assumption may be made of the states in
  which operations are performed.
* `Prog.Safe.op_of_stable`, `Prog.Safe.bind` — the rules that prove it: an
  assertion that the device keeps may be used at the next operation, and programs
  compose.
* `Prog.Safe.of_all` — the frame rule: what every operation of a program keeps, the
  program keeps (`Prog.All` says which operations a program may perform, whatever
  answers it gets, and `Prog.AllUnder` which when the answers are as assumed).
* `System.reach_safe` — the rule for runs: if every call, from every state that
  satisfies an invariant, is safe and re-establishes it, the invariant holds
  between calls in every run, and every operation of every run meets its
  guarantee.
* `System.run_undisturbed` — a call that nothing interferes with is a run, too.
-/

namespace Yasouos.Theory

open Relation

/-! ### Programs -/

/-- A program over the operations `Op`, operation `o` being answered by an
element of `Ans o`. -/
inductive Prog (Op : Type) (Ans : Op → Type) (α : Type) : Type where
  /-- Return `a`. -/
  | ret (a : α)
  /-- Perform `o`, and go on as the answer says. -/
  | op (o : Op) (k : Ans o → Prog Op Ans α)

namespace Prog

variable {Op : Type} {Ans : Op → Type} {α β : Type}

/-- Run `p`, then what its result says. -/
protected def bind : Prog Op Ans α → (α → Prog Op Ans β) → Prog Op Ans β
  | ret a, f => f a
  | op o k, f => op o fun x => (k x).bind f

instance : Monad (Prog Op Ans) where
  pure := ret
  bind := Prog.bind

/-- Perform one operation, and return its answer. -/
def perform (o : Op) : Prog Op Ans (Ans o) := op o ret

@[simp] theorem pure_eq (a : α) : (pure a : Prog Op Ans α) = ret a := rfl

@[simp] theorem ret_bind (a : α) (f : α → Prog Op Ans β) : (ret a >>= f) = f a := rfl

@[simp] theorem op_bind (o : Op) (k : Ans o → Prog Op Ans α) (f : α → Prog Op Ans β) :
    (op o k >>= f) = op o fun x => k x >>= f := rfl

protected theorem bind_assoc {γ : Type} (p : Prog Op Ans α) (f : α → Prog Op Ans β) (g : β → Prog Op Ans γ) :
    (p >>= f >>= g) = p >>= fun a => f a >>= g := by
  induction p with
  | ret a => rfl
  | op o k ih => exact congrArg (op o) (funext ih)

@[simp] theorem perform_bind (o : Op) (f : Ans o → Prog Op Ans β) : (perform o >>= f) = op o f := rfl

/-- Run a program by itself, with nothing else going on: an operation does what `exec` says. -/
def runOn {σ : Type} (exec : (o : Op) → σ → Ans o × σ) : Prog Op Ans α → σ → α × σ
  | ret a, s => (a, s)
  | op o k, s => (k (exec o s).1).runOn exec (exec o s).2

theorem runOn_bind {σ : Type} (exec : (o : Op) → σ → Ans o × σ) (p : Prog Op Ans α) (f : α → Prog Op Ans β) (s : σ) :
    (p >>= f).runOn exec s = (f (p.runOn exec s).1).runOn exec (p.runOn exec s).2 := by
  induction p generalizing s with
  | ret a => rfl
  | op o k ih => exact ih (exec o s).1 (exec o s).2

theorem runOn_ite {σ : Type} (exec : (o : Op) → σ → Ans o × σ) (c : Prop) [Decidable c] (p q : Prog Op Ans α) (s : σ) :
    (if c then p else q).runOn exec s = if c then p.runOn exec s else q.runOn exec s :=
  apply_ite (fun p : Prog Op Ans α => p.runOn exec s) c p q

end Prog

/-! ### Machines -/

/-- What an operation does and answers, and how the device moves on its own. A
move that is not possible in a state is `none` there. -/
structure Machine (Op : Type) (Ans : Op → Type) (σ ε : Type) where
  /-- Perform an operation. -/
  exec : (o : Op) → σ → Ans o × σ
  /-- A move of the device. -/
  env : ε → σ → Option σ

namespace Machine

variable {Op : Type} {Ans : Op → Type} {σ ε : Type} (M : Machine Op Ans σ ε)

/-- The device, by itself, takes `s` to `s'`. -/
def EnvReach : σ → σ → Prop := ReflTransGen fun s s' => ∃ e, M.env e s = some s'

/-- No move of the device takes `B` away. -/
def Stable (B : σ → Prop) : Prop := ∀ e s s', B s → M.env e s = some s' → B s'

variable {M}

theorem Stable.reach {B : σ → Prop} (hB : M.Stable B) {s s' : σ} (h : M.EnvReach s s') (hs : B s) : B s' := by
  induction h with
  | refl => exact hs
  | tail _ he ih => obtain ⟨e, he⟩ := he; exact hB e _ _ ih he

theorem Stable.and {B C : σ → Prop} (hB : M.Stable B) (hC : M.Stable C) : M.Stable fun s => B s ∧ C s :=
  fun e s s' h he => ⟨hB e s s' h.1 he, hC e s s' h.2 he⟩

end Machine

/-! ### Safe programs -/

namespace Prog

variable {Op : Type} {Ans : Op → Type} {σ ε α β : Type} (M : Machine Op Ans σ ε)

/-- **The program is safe from `s`**: however the device moves in between, as long as
every operation is performed in a state as `A` assumes, every operation comes up in a
state as `G` guarantees, and the program returns in a state as `Q` says. -/
def Safe (A G : Op → σ → Prop) (Q : α → σ → Prop) : Prog Op Ans α → σ → Prop
  | ret a, s => ∀ s', M.EnvReach s s' → Q a s'
  | op o k, s => ∀ s', M.EnvReach s s' →
      G o s' ∧ (A o s' → Safe A G Q (k (M.exec o s').1) (M.exec o s').2)

variable {M} {A G : Op → σ → Prop} {Q : α → σ → Prop}

/-- A move of the device does not make a safe program unsafe. -/
theorem Safe.env {p : Prog Op Ans α} {s s' : σ} (h : p.Safe M A G Q s) (hs : M.EnvReach s s') :
    p.Safe M A G Q s' := by
  cases p with
  | ret a => exact fun s'' h' => h s'' (hs.trans h')
  | op o k => exact fun s'' h' => h s'' (hs.trans h')

/-- Returning, under an assertion that the device keeps. -/
theorem Safe.ret_of_stable {B : σ → Prop} (hB : M.Stable B) {a : α} {s : σ} (hs : B s)
    (h : ∀ s', B s' → Q a s') : (ret a : Prog Op Ans α).Safe M A G Q s :=
  fun s' hr => h s' (hB.reach hr hs)

/-- Performing an operation, under an assertion that the device keeps. -/
theorem Safe.op_of_stable {B : σ → Prop} (hB : M.Stable B) {o : Op} {k : Ans o → Prog Op Ans α} {s : σ} (hs : B s)
    (h : ∀ s', B s' → G o s' ∧ (A o s' → (k (M.exec o s').1).Safe M A G Q (M.exec o s').2)) :
    (op o k).Safe M A G Q s :=
  fun s' hr => h s' (hB.reach hr hs)

/-- Programs compose: the second is safe wherever the first returns. -/
theorem Safe.bind {p : Prog Op Ans α} {f : α → Prog Op Ans β} {R : β → σ → Prop} {s : σ}
    (h : p.Safe M A G (fun a s' => (f a).Safe M A G R s') s) : (p >>= f).Safe M A G R s := by
  induction p generalizing s with
  | ret a => exact h s .refl
  | op o k ih =>
    intro s' hr
    obtain ⟨hG, hk⟩ := h s' hr
    exact ⟨hG, fun hA => ih _ (hk hA)⟩

/-- Safety for a postcondition gives it for a weaker one. -/
theorem Safe.mono {p : Prog Op Ans α} {R : α → σ → Prop} {s : σ} (h : p.Safe M A G Q s)
    (hQ : ∀ a s', Q a s' → R a s') : p.Safe M A G R s := by
  induction p generalizing s with
  | ret a => exact fun s' hr => hQ a s' (h s' hr)
  | op o k ih =>
    intro s' hr
    obtain ⟨hG, hk⟩ := h s' hr
    exact ⟨hG, fun hA => ih _ (hk hA)⟩

/-- **Loops.** If round `i` leads from `B i` to `B (i + 1)`, the loop leads from `B 0` to the end. -/
theorem Safe.forM {B : ℕ → σ → Prop} (hB : ∀ i, M.Stable (B i)) {f : ℕ → Prog Op Ans Unit} {n : ℕ}
    (h : ∀ i < n, ∀ s, B i s → (f i).Safe M A G (fun _ => B (i + 1)) s) {s : σ} (hs : B 0 s) :
    ((List.range n).forM f).Safe M A G (fun _ => B n) s := by
  suffices hfrom : ∀ k m, m + k = n → ∀ s, B m s → ((List.range' m k).forM f).Safe M A G (fun _ => B n) s by
    rw [List.range_eq_range']
    exact hfrom n 0 (by omega) s hs
  intro k
  induction k with
  | zero =>
    rintro m rfl s hs
    exact Safe.ret_of_stable (hB m) hs fun s' h => h
  | succ k ih =>
    intro m hmn s hs
    exact Safe.bind ((h m (by omega) s hs).mono fun _ s₁ h₁ => ih (m + 1) (by omega) s₁ h₁)

/-- Every operation the program may perform is as `P` says, and every result it may
return as `R` says, whatever the operations answer. -/
def All (P : Op → Prop) (R : α → Prop) : Prog Op Ans α → Prop
  | ret a => R a
  | op o k => P o ∧ ∀ x, All P R (k x)

/-- Every operation the program may perform after its first is as `P` says. -/
def TailAll (P : Op → Prop) : Prog Op Ans α → Prop
  | ret _ => True
  | op _ k => ∀ x, All P (fun _ => True) (k x)

theorem perform_all {P : Op → Prop} {o : Op} (h : P o) : (perform o : Prog Op Ans (Ans o)).All P fun _ => True :=
  ⟨h, fun _ => trivial⟩

/-- Of any operations and any result, nothing is said. -/
theorem all_true (p : Prog Op Ans α) : p.All (fun _ => True) fun _ => True := by
  induction p with
  | ret a => trivial
  | op o k ih => exact ⟨trivial, ih⟩

theorem All.bind {P : Op → Prop} {R : α → Prop} {R' : β → Prop} {p : Prog Op Ans α} {f : α → Prog Op Ans β}
    (h : p.All P R) (hf : ∀ a, R a → (f a).All P R') : (p >>= f).All P R' := by
  induction p with
  | ret a => exact hf a h
  | op o k ih => exact ⟨h.1, fun x => ih x (h.2 x)⟩

theorem All.mono {P P' : Op → Prop} {R R' : α → Prop} {p : Prog Op Ans α} (h : p.All P R) (hP : ∀ o, P o → P' o)
    (hR : ∀ a, R a → R' a) : p.All P' R' := by
  induction p with
  | ret a => exact hR a h
  | op o k ih => exact ⟨hP o h.1, fun x => ih x (h.2 x)⟩

/-- **Frames.** A program all of whose operations keep an assertion that the device
keeps too is safe, and the assertion holds when it returns. -/
theorem Safe.of_all {P : Op → Prop} {R : α → Prop} {B : σ → Prop} {p : Prog Op Ans α} (h : p.All P R)
    (hB : M.Stable B) (hop : ∀ o s, P o → B s → G o s ∧ B (M.exec o s).2) {s : σ} (hs : B s) :
    p.Safe M A G (fun a s' => R a ∧ B s') s := by
  induction p generalizing s with
  | ret a => exact Safe.ret_of_stable hB hs fun s' hs' => ⟨h, hs'⟩
  | op o k ih =>
    refine Safe.op_of_stable hB hs fun s' hs' => ?_
    obtain ⟨hG, hs''⟩ := hop o s' h.1 hs'
    exact ⟨hG, fun _ => ih _ (h.2 _) hs''⟩

/-- What a program returns whatever its operations answer, it returns. -/
theorem Safe.and_all {P : Op → Prop} {R : α → Prop} {p : Prog Op Ans α} {s : σ} (h : p.Safe M A G Q s)
    (hall : p.All P R) : p.Safe M A G (fun a s' => R a ∧ Q a s') s := by
  induction p generalizing s with
  | ret a => exact fun s' hr => ⟨hall, h s' hr⟩
  | op o k ih =>
    intro s' hr
    obtain ⟨hG, hk⟩ := h s' hr
    exact ⟨hG, fun hA => ih _ (hk hA) (hall.2 _)⟩

/-- What nothing ever takes away is still there when a program returns. -/
theorem Safe.and_kept {B : σ → Prop} {p : Prog Op Ans α} {s : σ} (h : p.Safe M A G Q s) (hB : M.Stable B)
    (hop : ∀ o s, B s → B (M.exec o s).2) (hs : B s) : p.Safe M A G (fun a s' => Q a s' ∧ B s') s := by
  induction p generalizing s with
  | ret a => exact fun s' hr => ⟨h s' hr, hB.reach hr hs⟩
  | op o k ih =>
    intro s' hr
    obtain ⟨hG, hk⟩ := h s' hr
    exact ⟨hG, fun hA => ih _ (hk hA) (hop o s' (hB.reach hr hs))⟩

/-- More may be assumed than is needed. -/
theorem Safe.assume {A' : Op → σ → Prop} {p : Prog Op Ans α} {s : σ} (h : p.Safe M A G Q s)
    (hA : ∀ o s, A' o s → A o s) : p.Safe M A' G Q s := by
  induction p generalizing s with
  | ret a => exact h
  | op o k ih =>
    intro s' hr
    obtain ⟨hG, hk⟩ := h s' hr
    exact ⟨hG, fun hA' => ih _ (hk (hA o s' hA'))⟩

/-- What is proved of a program by two arguments holds at once. -/
theorem Safe.and {G' : Op → σ → Prop} {Q' : α → σ → Prop} {p : Prog Op Ans α} {s : σ} (h : p.Safe M A G Q s)
    (h' : p.Safe M A G' Q' s) : p.Safe M A G (fun a s' => Q a s' ∧ Q' a s') s := by
  induction p generalizing s with
  | ret a => exact fun s' hr => ⟨h s' hr, h' s' hr⟩
  | op o k ih =>
    intro s' hr
    obtain ⟨hG, hk⟩ := h s' hr
    exact ⟨hG, fun hA => ih _ (hk hA) ((h' s' hr).2 hA)⟩

/-- A safe program that runs where nothing else moves ends as it promises. -/
theorem Safe.runOn {p : Prog Op Ans α} {s : σ} (h : p.Safe M A G Q s) (hA : ∀ o s, A o s) :
    Q (p.runOn M.exec s).1 (p.runOn M.exec s).2 := by
  induction p generalizing s with
  | ret a => exact h s .refl
  | op o k ih => exact ih _ ((h s .refl).2 (hA o s))

/-- As `All`, but only for the answers that `C` allows. -/
def AllUnder (C : (o : Op) → Ans o → Prop) (P : Op → Prop) (R : α → Prop) : Prog Op Ans α → Prop
  | ret a => R a
  | op o k => P o ∧ ∀ x, C o x → AllUnder C P R (k x)

/-- A program that does something whatever the answers does it for the answers that are allowed. -/
theorem All.under {P : Op → Prop} {R : α → Prop} {p : Prog Op Ans α} (h : p.All P R)
    (C : (o : Op) → Ans o → Prop) : p.AllUnder C P R := by
  induction p with
  | ret a => exact h
  | op o k ih => exact ⟨h.1, fun x _ => ih x (h.2 x)⟩

theorem AllUnder.bind {C : (o : Op) → Ans o → Prop} {P : Op → Prop} {R : α → Prop} {R' : β → Prop} {p : Prog Op Ans α}
    {f : α → Prog Op Ans β} (h : p.AllUnder C P R) (hf : ∀ a, R a → (f a).AllUnder C P R') :
    (p >>= f).AllUnder C P R' := by
  induction p with
  | ret a => exact hf a h
  | op o k ih => exact ⟨h.1, fun x hx => ih x (h.2 x hx)⟩

/-- The first of two programs does by itself what it does in front of the other. -/
theorem AllUnder.of_bind {C : (o : Op) → Ans o → Prop} {P : Op → Prop} {R : β → Prop} {p : Prog Op Ans α}
    {f : α → Prog Op Ans β} (h : (p >>= f).AllUnder C P R) : p.AllUnder C P fun _ => True := by
  induction p with
  | ret a => exact trivial
  | op o k ih => exact ⟨h.1, fun x hx => ih x (h.2 x hx)⟩

end Prog

/-! ### Systems and their runs -/

/-- A machine and a driver for it: call `c`, from the private state `p`, runs the
program `body c p`, which returns the new private state and the call's result. -/
structure System (Op : Type) (Ans : Op → Type) (σ ε κ π ρ : Type) extends Machine Op Ans σ ε where
  /-- The program of a call. -/
  body : κ → π → Prog Op Ans (π × ρ)

/-- A call that has returned. -/
structure Done (κ π ρ : Type) where
  /-- The call. -/
  call : κ
  /-- The private state it was called in. -/
  before : π
  /-- Its result. -/
  result : ρ
  /-- The private state it left. -/
  after : π
  deriving DecidableEq

/-- An event of a run. -/
inductive Event (κ ε : Type) where
  /-- A call is made. -/
  | call (c : κ)
  /-- The running call performs its next operation, or returns. -/
  | tick
  /-- The device moves. -/
  | env (e : ε)

/-- A configuration. -/
structure Cfg (Op : Type) (Ans : Op → Type) (σ κ π ρ : Type) where
  /-- The driver's private state, as the last call left it. -/
  priv : π
  /-- The state shared with the device. -/
  shared : σ
  /-- The running call, and what is left of it to do. -/
  cur : Option (κ × Prog Op Ans (π × ρ))
  /-- The calls that have returned, in order. -/
  log : List (Done κ π ρ)

/-- No call is running. -/
def Cfg.Idle {Op : Type} {Ans : Op → Type} {σ κ π ρ : Type} (c : Cfg Op Ans σ κ π ρ) : Prop := c.cur = none

/-- The configuration before any call. -/
def Cfg.start {Op : Type} {Ans : Op → Type} {σ κ π ρ : Type} (p : π) (s : σ) : Cfg Op Ans σ κ π ρ :=
  ⟨p, s, none, []⟩

namespace System

variable {Op : Type} {Ans : Op → Type} {σ ε κ π ρ : Type} (S : System Op Ans σ ε κ π ρ)

/-- **One step of a run**; `none` if the event is not possible. -/
def step (c : Cfg Op Ans σ κ π ρ) : Event κ ε → Option (Cfg Op Ans σ κ π ρ)
  | .call k =>
    match c.cur with
    | none => some { c with cur := some (k, S.body k c.priv) }
    | some _ => none
  | .tick =>
    match c.cur with
    | none => none
    | some (k, .ret (p, r)) => some { c with priv := p, cur := none, log := c.log ++ [⟨k, c.priv, r, p⟩] }
    | some (k, .op o f) =>
      some { c with shared := (S.exec o c.shared).2, cur := some (k, f (S.exec o c.shared).1) }
  | .env e => (S.env e c.shared).map fun s => { c with shared := s }

/-- A run over a list of events; `none` if one of them is not possible. -/
def run (c : Cfg Op Ans σ κ π ρ) : List (Event κ ε) → Option (Cfg Op Ans σ κ π ρ)
  | [] => some c
  | e :: es => (S.step c e).bind fun c' => run c' es

/-- The operation the next `tick` performs, if it performs one, is performed in a
state as `A` assumes of the running call. -/
def Meets (A : κ → Op → σ → Prop) (c : Cfg Op Ans σ κ π ρ) : Event κ ε → Prop
  | .tick => ∀ k o f, c.cur = some (k, .op o f) → A k o c.shared
  | _ => True

/-- A step whose operation, if there is one, is performed as `A` assumes. -/
def Step (A : κ → Op → σ → Prop) (c c' : Cfg Op Ans σ κ π ρ) : Prop :=
  ∃ e, Meets A c e ∧ S.step c e = some c'

/-- `c'` is reached from `c` by a run all of whose operations are performed as `A`
assumes. -/
def ReachUnder (A : κ → Op → σ → Prop) : Cfg Op Ans σ κ π ρ → Cfg Op Ans σ κ π ρ → Prop :=
  ReflTransGen (S.Step A)

/-- `c'` is reached from `c` by some run. -/
def Reach : Cfg Op Ans σ κ π ρ → Cfg Op Ans σ κ π ρ → Prop := S.ReachUnder fun _ _ _ => True

theorem meets_true (c : Cfg Op Ans σ κ π ρ) (e : Event κ ε) : Meets (fun _ _ _ => True) c e := by
  cases e <;> simp [Meets]

theorem ReachUnder.reach {A : κ → Op → σ → Prop} {c c' : Cfg Op Ans σ κ π ρ} (h : S.ReachUnder A c c') :
    S.Reach c c' := by
  refine ReflTransGen.mono ?_ c c' h
  rintro c₁ c₂ ⟨e, -, he⟩
  exact ⟨e, meets_true c₁ e, he⟩

/-- What a run over a list of events reaches is reached. -/
theorem reach_of_run {c c' : Cfg Op Ans σ κ π ρ} {es : List (Event κ ε)} (h : S.run c es = some c') :
    S.Reach c c' := by
  induction es generalizing c with
  | nil => cases h; exact .refl
  | cons e es ih =>
    obtain ⟨c₁, h₁, h₂⟩ := Option.bind_eq_some_iff.mp h
    exact .head ⟨e, meets_true c e, h₁⟩ (ih h₂)

/-- As `Meets`, to be computed. -/
def meets (A : κ → Op → σ → Prop) [∀ k o s, Decidable (A k o s)] (c : Cfg Op Ans σ κ π ρ) : Event κ ε → Bool
  | .tick =>
    match c.cur with
    | some (k, .op o _) => decide (A k o c.shared)
    | _ => true
  | _ => true

theorem meets_iff (A : κ → Op → σ → Prop) [∀ k o s, Decidable (A k o s)] (c : Cfg Op Ans σ κ π ρ) (e : Event κ ε) :
    meets A c e = true ↔ Meets A c e := by
  obtain ⟨p, s, cur, l⟩ := c
  match e, cur with
  | .tick, none => simp [meets, Meets]
  | .tick, some (k, .ret r) => simp [meets, Meets]
  | .tick, some (k, .op o f) =>
    simp only [meets, Meets, decide_eq_true_eq, Option.some.injEq, Prod.mk.injEq, Prog.op.injEq]
    constructor
    · rintro h k' o' f' ⟨rfl, rfl, -⟩
      exact h
    · exact fun h => h k o f ⟨rfl, rfl, HEq.rfl⟩
  | .call k, _ => simp [meets, Meets]
  | .env e, _ => simp [meets, Meets]

/-- A run over a list of events, all of whose operations are performed as `A` assumes;
`none` if one is not, or an event is not possible. -/
def runUnder (A : κ → Op → σ → Prop) [∀ k o s, Decidable (A k o s)] (c : Cfg Op Ans σ κ π ρ) :
    List (Event κ ε) → Option (Cfg Op Ans σ κ π ρ)
  | [] => some c
  | e :: es => if meets A c e then (S.step c e).bind fun c' => runUnder A c' es else none

theorem reachUnder_of_run (A : κ → Op → σ → Prop) [∀ k o s, Decidable (A k o s)] {c c' : Cfg Op Ans σ κ π ρ}
    {es : List (Event κ ε)} (h : S.runUnder A c es = some c') : S.ReachUnder A c c' := by
  induction es generalizing c with
  | nil => cases h; exact .refl
  | cons e es ih =>
    unfold runUnder at h
    split_ifs at h with hA
    obtain ⟨c₁, h₁, h₂⟩ := Option.bind_eq_some_iff.mp h
    exact .head ⟨e, (meets_iff A c e).mp hA, h₁⟩ (ih h₂)

/-- Every event of such a run is as `A` assumes. -/
theorem meets_of_runUnder (A : κ → Op → σ → Prop) [∀ k o s, Decidable (A k o s)] {c c' : Cfg Op Ans σ κ π ρ}
    {es : List (Event κ ε)} (h : S.runUnder A c es = some c') :
    S.run c es = some c' ∧ ∀ es₁ e c₁, es₁ ++ [e] <+: es → S.run c es₁ = some c₁ → Meets A c₁ e := by
  induction es generalizing c with
  | nil =>
    refine ⟨h, fun es₁ e c₁ hpre => ?_⟩
    have := hpre.length_le
    simp at this
  | cons e es ih =>
    unfold runUnder at h
    split_ifs at h with hA
    obtain ⟨c₁, h₁, h₂⟩ := Option.bind_eq_some_iff.mp h
    obtain ⟨hrun, hmeets⟩ := ih h₂
    refine ⟨by rw [run, h₁]; exact hrun, fun es₁ e₁ c₂ hpre hrun₂ => ?_⟩
    cases es₁ with
    | nil =>
      obtain rfl : c = c₂ := Option.some.inj hrun₂
      obtain ⟨rfl, -⟩ := List.cons_prefix_cons.mp hpre
      exact (meets_iff A c e₁).mp hA
    | cons e₂ es₁ =>
      obtain ⟨rfl, hpre'⟩ := List.cons_prefix_cons.mp hpre
      rw [run, h₁] at hrun₂
      exact hmeets es₁ e₁ c₂ hpre' hrun₂

/-- What holds of every configuration of a run, given the invariant `I` between
calls: between calls `I` holds, and a running call is safe and will re-establish it. -/
def Good (A G : κ → Op → σ → Prop) (I : List (Done κ π ρ) → π → σ → Prop) (c : Cfg Op Ans σ κ π ρ) : Prop :=
  match c.cur with
  | none => I c.log c.priv c.shared
  | some (k, p) => p.Safe S.toMachine (A k) (G k) (fun r s => I (c.log ++ [⟨k, c.priv, r.2, r.1⟩]) r.1 s) c.shared

variable {S}

/-- **The rule for runs.** Let `I` be kept by the device, and let every call, from
every state that satisfies `I`, be safe and re-establish `I`. Then `Good` holds of
every configuration of every run from a state that satisfies `I`. -/
theorem reach_safe {A G : κ → Op → σ → Prop} {I : List (Done κ π ρ) → π → σ → Prop}
    (hI : ∀ l p, S.toMachine.Stable (I l p))
    (hcall : ∀ l k p s, I l p s →
      (S.body k p).Safe S.toMachine (A k) (G k) (fun r s => I (l ++ [⟨k, p, r.2, r.1⟩]) r.1 s) s)
    {c c' : Cfg Op Ans σ κ π ρ} (h₀ : S.Good A G I c) (h : S.ReachUnder A c c') : S.Good A G I c' := by
  induction h with
  | refl => exact h₀
  | @tail c₁ c₂ _ hs ih =>
    obtain ⟨e, hA, he⟩ := hs
    obtain ⟨p, s, cur, l⟩ := c₁
    cases e with
    | call k =>
      cases cur with
      | none =>
        simp only [step, Option.some.injEq] at he
        subst he
        exact hcall l k p s ih
      | some _ => simp [step] at he
    | tick =>
      match cur, ih, hA, he with
      | none, _, _, he => simp [step] at he
      | some (k, .ret (q, r)), ih, _, he =>
        simp only [step, Option.some.injEq] at he
        subst he
        exact ih s .refl
      | some (k, .op o f), ih, hA, he =>
        simp only [step, Option.some.injEq] at he
        subst he
        exact (ih s .refl).2 (hA k o f rfl)
    | env e =>
      simp only [step, Option.map_eq_some_iff] at he
      obtain ⟨s', he, rfl⟩ := he
      cases cur with
      | none => exact hI l p e s s' ih he
      | some kp => exact Prog.Safe.env (ih : Prog.Safe _ _ _ _ _ _) (.single ⟨e, he⟩)

/-- What follows from the invariant between calls, and is kept by every operation and
every move of the device, holds in the middle of calls too. -/
theorem reach_always {A G : κ → Op → σ → Prop} {I : List (Done κ π ρ) → π → σ → Prop}
    {J : List (Done κ π ρ) → σ → Prop} (hI : ∀ l p, S.toMachine.Stable (I l p))
    (hcall : ∀ l k p s, I l p s →
      (S.body k p).Safe S.toMachine (A k) (G k) (fun r s => I (l ++ [⟨k, p, r.2, r.1⟩]) r.1 s) s)
    (hIJ : ∀ l p s, I l p s → J l s) (hJ : ∀ l, S.toMachine.Stable (J l))
    (hop : ∀ l o s, J l s → J l (S.exec o s).2) {c c' : Cfg Op Ans σ κ π ρ} (h₀ : S.Good A G I c)
    (hJ₀ : J c.log c.shared) (h : S.ReachUnder A c c') : J c'.log c'.shared := by
  induction h with
  | refl => exact hJ₀
  | @tail c₁ c₂ hr hs ih =>
    have hgood := reach_safe hI hcall h₀ hr
    obtain ⟨e, -, he⟩ := hs
    obtain ⟨p, s, cur, l⟩ := c₁
    cases e with
    | call k =>
      cases cur with
      | none => simp only [step, Option.some.injEq] at he; subst he; exact ih
      | some _ => simp [step] at he
    | tick =>
      match cur, hgood, he with
      | none, _, he => simp [step] at he
      | some (k, .ret (q, r)), hgood, he =>
        simp only [step, Option.some.injEq] at he
        subst he
        exact hIJ _ _ _ (hgood s .refl)
      | some (k, .op o f), _, he =>
        simp only [step, Option.some.injEq] at he
        subst he
        exact hop l o s ih
    | env e =>
      simp only [step, Option.map_eq_some_iff] at he
      obtain ⟨s', he, rfl⟩ := he
      exact hJ l e s s' ih he

/-- Let `J` hold of the private state, and let every call keep it and return as `P` says, whatever its
operations answer. Then every call in the log is as `P` says. -/
theorem log_of_inv {J : π → Prop} {P : Done κ π ρ → Prop}
    (h : ∀ k p, J p → (S.body k p).All (fun _ => True) fun r => J r.1 ∧ P ⟨k, p, r.2, r.1⟩) {c c' : Cfg Op Ans σ κ π ρ}
    (h₀ : c.Idle) (hJ : J c.priv) (hlog : ∀ e ∈ c.log, P e) (hr : S.Reach c c') : ∀ e ∈ c'.log, P e := by
  have hgood : S.Good (fun _ _ _ => True) (fun _ _ _ => True) (fun l p _ => J p ∧ ∀ e ∈ l, P e) c := by
    unfold Good
    rw [show c.cur = none from h₀]
    exact ⟨hJ, hlog⟩
  refine reach_always (S := S) (J := fun l _ => ∀ e ∈ l, P e) (fun _ _ _ _ _ h _ => h) ?_ (fun _ _ _ h => h.2)
    (fun _ _ _ _ h _ => h) (fun _ _ _ h => h) hgood hlog hr
  rintro l k p s ⟨hp, hl⟩
  refine (Prog.Safe.of_all (B := fun _ => True) (h k p hp) (fun _ _ _ _ _ => trivial)
    (fun _ _ _ _ => ⟨trivial, trivial⟩) trivial).mono fun r s' hr => ?_
  simpa [or_imp, forall_and] using ⟨hr.1.1, hl, hr.1.2⟩

/-- What every call returns, whatever its operations answer, is so of every call in
the log. -/
theorem log_of_all {P : Done κ π ρ → Prop}
    (h : ∀ k p, (S.body k p).All (fun _ => True) fun r => P ⟨k, p, r.2, r.1⟩) {c c' : Cfg Op Ans σ κ π ρ}
    (h₀ : c.Idle) (hlog : ∀ e ∈ c.log, P e) (hr : S.Reach c c') : ∀ e ∈ c'.log, P e :=
  log_of_inv (J := fun _ => True) (fun k p _ => (h k p).mono (fun _ h => h) fun _ h => ⟨trivial, h⟩) h₀ trivial hlog hr

theorem Good.start {A G : κ → Op → σ → Prop} {I : List (Done κ π ρ) → π → σ → Prop} {p : π} {s : σ} (h : I [] p s) :
    S.Good A G I (.start p s) := h

/-- Between calls, the invariant holds. -/
theorem Good.idle {A G : κ → Op → σ → Prop} {I : List (Done κ π ρ) → π → σ → Prop} {c : Cfg Op Ans σ κ π ρ}
    (h : S.Good A G I c) (hc : c.Idle) : I c.log c.priv c.shared := by
  unfold Good at h
  rwa [show c.cur = none from hc] at h

/-- An operation about to be performed meets its guarantee. -/
theorem Good.guarantee {A G : κ → Op → σ → Prop} {I : List (Done κ π ρ) → π → σ → Prop} {c : Cfg Op Ans σ κ π ρ}
    (h : S.Good A G I c) {k : κ} {o : Op} {f : Ans o → Prog Op Ans (π × ρ)} (hc : c.cur = some (k, .op o f)) :
    G k o c.shared := by
  unfold Good at h
  rw [hc] at h
  exact (h c.shared .refl).1

/-- A call about to return has re-established the invariant. -/
theorem Good.returning {A G : κ → Op → σ → Prop} {I : List (Done κ π ρ) → π → σ → Prop} {c : Cfg Op Ans σ κ π ρ}
    (h : S.Good A G I c) {k : κ} {p : π} {r : ρ} (hc : c.cur = some (k, .ret (p, r))) :
    I (c.log ++ [⟨k, c.priv, r, p⟩]) p c.shared := by
  unfold Good at h
  rw [hc] at h
  exact h c.shared .refl

/-! ### Runs, event by event -/

theorem run_append (c : Cfg Op Ans σ κ π ρ) (es es' : List (Event κ ε)) :
    S.run c (es ++ es') = (S.run c es).bind fun c' => S.run c' es' := by
  induction es generalizing c with
  | nil => rfl
  | cons e es ih =>
    simp only [List.cons_append, run, ih, Option.bind_assoc]

/-- What the device reaches by itself, a run reaches in which no call is made. -/
theorem run_of_envReach {p : π} {s s' : σ} (h : S.toMachine.EnvReach s s') :
    ∃ es, S.run (.start p s) es = some (.start p s') := by
  induction h with
  | refl => exact ⟨[], rfl⟩
  | tail _ he ih =>
    obtain ⟨e, he⟩ := he
    obtain ⟨es, hes⟩ := ih
    refine ⟨es ++ [.env e], ?_⟩
    rw [run_append, hes]
    simp [run, step, Cfg.start, he]

/-- If every event of a run is as `A` assumes, what the run reaches is reached so. -/
theorem reachUnder_of_meets {A : κ → Op → σ → Prop} {c c' : Cfg Op Ans σ κ π ρ} {es : List (Event κ ε)}
    (h : S.run c es = some c')
    (hm : ∀ es₁ e c₁, es₁ ++ [e] <+: es → S.run c es₁ = some c₁ → Meets A c₁ e) : S.ReachUnder A c c' := by
  induction es generalizing c with
  | nil => cases h; exact .refl
  | cons e es ih =>
    obtain ⟨c₁, h₁, h₂⟩ := Option.bind_eq_some_iff.mp h
    refine .head ⟨e, hm [] e c (by simp) rfl, h₁⟩ (ih h₂ fun es₁ e₁ c₂ hpre hrun => ?_)
    refine hm (e :: es₁) e₁ c₂ ?_ ?_
    · rw [List.cons_append]
      exact List.cons_prefix_cons.mpr ⟨rfl, hpre⟩
    · rw [run, h₁]
      exact hrun

/-- In a run that ends between calls, a safe call that is running returns. -/
theorem run_returns {G : Op → σ → Prop} {Q : π × ρ → σ → Prop} {c c' : Cfg Op Ans σ κ π ρ} {es : List (Event κ ε)}
    {k : κ} {q : Prog Op Ans (π × ρ)} (hcur : c.cur = some (k, q))
    (hsafe : q.Safe S.toMachine (fun _ _ => True) G Q c.shared) (h : S.run c es = some c') (hidle : c'.Idle) :
    ∃ es₁ es₂ c₁ r, es = es₁ ++ es₂ ∧ S.run c es₁ = some c₁ ∧ S.run c₁ es₂ = some c' ∧ c₁.Idle ∧ Q r c₁.shared ∧
      c₁.log = c.log ++ [⟨k, c.priv, r.2, r.1⟩] := by
  induction es generalizing c q with
  | nil =>
    cases h
    rw [Cfg.Idle, hcur] at hidle
    cases hidle
  | cons e es ih =>
    obtain ⟨c₁, h₁, h₂⟩ := Option.bind_eq_some_iff.mp h
    obtain ⟨p, s, cur, l⟩ := c
    obtain rfl : cur = some (k, q) := hcur
    -- either this event returns, or the call is still running after it
    have hstep : (∃ r, q = .ret r ∧ c₁ = ⟨r.1, s, none, l ++ [⟨k, p, r.2, r.1⟩]⟩) ∨
        ∃ q' s', c₁ = ⟨p, s', some (k, q'), l⟩ ∧ q'.Safe S.toMachine (fun _ _ => True) G Q s' := by
      cases e with
      | call k' => simp [step] at h₁
      | tick =>
        cases q with
        | ret r =>
          obtain ⟨p', r⟩ := r
          simp only [step, Option.some.injEq] at h₁
          exact .inl ⟨(p', r), rfl, h₁.symm⟩
        | op o f =>
          simp only [step, Option.some.injEq] at h₁
          exact .inr ⟨_, _, h₁.symm, (hsafe s .refl).2 trivial⟩
      | env e =>
        simp only [step, Option.map_eq_some_iff] at h₁
        obtain ⟨s', he, rfl⟩ := h₁
        exact .inr ⟨q, s', rfl, hsafe.env (.single ⟨e, he⟩)⟩
    rcases hstep with ⟨r, rfl, rfl⟩ | ⟨q', s', rfl, hsafe'⟩
    · refine ⟨[e], es, _, r, rfl, ?_, h₂, rfl, hsafe s .refl, rfl⟩
      rw [run, h₁]
      rfl
    · obtain ⟨es₁, es₂, c₂, r, rfl, hrun₁, hrun₂, hidle₂, hQ, hlog⟩ := ih rfl hsafe' h₂
      refine ⟨e :: es₁, es₂, c₂, r, rfl, ?_, hrun₂, hidle₂, hQ, hlog⟩
      rw [run, h₁]
      exact hrun₁

/-- What the running call does when nothing else moves, it does in a run. -/
theorem run_ticks (c : Cfg Op Ans σ κ π ρ) (k : κ) (q : Prog Op Ans (π × ρ)) (hc : c.cur = some (k, q)) :
    ∃ n, S.run c (List.replicate n .tick) = some ⟨(q.runOn S.exec c.shared).1.1, (q.runOn S.exec c.shared).2, none,
      c.log ++ [⟨k, c.priv, (q.runOn S.exec c.shared).1.2, (q.runOn S.exec c.shared).1.1⟩]⟩ := by
  induction q generalizing c with
  | ret a =>
    obtain ⟨p, r⟩ := a
    refine ⟨1, ?_⟩
    simp [run, step, hc, Prog.runOn]
  | op o f ih =>
    obtain ⟨n, hn⟩ := ih (S.exec o c.shared).1
      { c with shared := (S.exec o c.shared).2, cur := some (k, f (S.exec o c.shared).1) } rfl
    refine ⟨n + 1, ?_⟩
    rw [List.replicate_succ, run, step, hc]
    exact hn

/-- **An undisturbed call.** From any configuration between calls there is a run that makes a call and sees
it through to the end. -/
theorem run_undisturbed (c : Cfg Op Ans σ κ π ρ) (hc : c.Idle) (k : κ) :
    ∃ n, S.run c (.call k :: List.replicate n .tick) =
      some ⟨((S.body k c.priv).runOn S.exec c.shared).1.1, ((S.body k c.priv).runOn S.exec c.shared).2, none,
        c.log ++ [⟨k, c.priv, ((S.body k c.priv).runOn S.exec c.shared).1.2,
          ((S.body k c.priv).runOn S.exec c.shared).1.1⟩]⟩ := by
  obtain ⟨n, hn⟩ := run_ticks (S := S) { c with cur := some (k, S.body k c.priv) } k (S.body k c.priv) rfl
  refine ⟨n, ?_⟩
  rw [run, step, show c.cur = none from hc]
  exact hn

/-- What every step can only add to, a run can only add to. -/
theorem run_mono {R : Cfg Op Ans σ κ π ρ → Cfg Op Ans σ κ π ρ → Prop} (hrefl : ∀ c, R c c)
    (htrans : ∀ a b c, R a b → R b c → R a c) (hstep : ∀ c e c', S.step c e = some c' → R c c')
    {c c' : Cfg Op Ans σ κ π ρ} {es : List (Event κ ε)} (h : S.run c es = some c') : R c c' := by
  induction es generalizing c with
  | nil => cases h; exact hrefl _
  | cons e es ih =>
    obtain ⟨c₁, h₁, h₂⟩ := Option.bind_eq_some_iff.mp h
    exact htrans c c₁ c' (hstep c e c₁ h₁) (ih h₂)

/-- The log only grows. -/
theorem run_log {c c' : Cfg Op Ans σ κ π ρ} {es : List (Event κ ε)} (h : S.run c es = some c') : c.log <+: c'.log := by
  refine run_mono (S := S) (R := fun c c' => c.log <+: c'.log) (fun _ => List.prefix_rfl)
    (fun _ _ _ => List.IsPrefix.trans) ?_ h
  rintro ⟨p, s, cur, l⟩ e c' hstep
  match e, cur, hstep with
  | .call k, none, hstep => cases hstep; exact List.prefix_rfl
  | .call k, some _, hstep => cases hstep
  | .tick, none, hstep => cases hstep
  | .tick, some (k, .ret (q, r)), hstep => cases hstep; exact List.prefix_append _ _
  | .tick, some (k, .op o f), hstep => cases hstep; exact List.prefix_rfl
  | .env e, cur, hstep =>
    simp only [step, Option.map_eq_some_iff] at hstep
    obtain ⟨s', -, rfl⟩ := hstep
    exact List.prefix_rfl

/-- If only the first operation of a call can be other than `P` says, then a call about
to perform such an operation has just begun. -/
theorem first_of_reach {P : Op → Prop} (hbody : ∀ k p, (S.body k p).TailAll P) {c c' : Cfg Op Ans σ κ π ρ}
    (h₀ : c.Idle) (h : S.Reach c c') {k : κ} {o : Op} {f : Ans o → Prog Op Ans (π × ρ)}
    (hcur : c'.cur = some (k, .op o f)) (ho : ¬ P o) : .op o f = S.body k c'.priv := by
  suffices hinv : ∀ k q, c'.cur = some (k, q) → q = S.body k c'.priv ∨ q.All P fun _ => True by
    rcases hinv k _ hcur with h | h
    · exact h
    · exact absurd h.1 ho
  clear hcur ho
  induction h with
  | refl =>
    intro k q hcur
    cases hcur.symm.trans h₀
  | @tail c₁ c₂ _ hs ih =>
    obtain ⟨e, -, he⟩ := hs
    obtain ⟨p, s, cur, l⟩ := c₁
    match e, cur, ih, he with
    | .call k, none, _, he =>
      cases he
      rintro k' q ⟨rfl, rfl⟩
      exact .inl rfl
    | .call k, some _, _, he => cases he
    | .tick, none, _, he => cases he
    | .tick, some (k, .ret (q, r)), _, he => cases he; rintro k' q' ⟨⟩
    | .tick, some (k, .op o f), ih, he =>
      cases he
      rintro k' q ⟨rfl, rfl⟩
      rcases ih k _ rfl with h | h
      · have htail := hbody k p
        rw [← show Prog.op o f = S.body k p from h] at htail
        exact .inr (htail _)
      · exact .inr (h.2 _)
    | .env e, cur, ih, he =>
      simp only [step, Option.map_eq_some_iff] at he
      obtain ⟨s', -, rfl⟩ := he
      exact ih

end System

end Yasouos.Theory
