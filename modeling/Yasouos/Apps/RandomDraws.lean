import Yasouos.Theory.XorShift
import Yasouos.Theory.VirtqueueBytes
import Yasouos.Apps.Random
import Mathlib.Algebra.Order.Floor.Div
import Mathlib.Data.List.Iterate
import Mathlib.GroupTheory.GroupAction.Ring

/-!
# The numbers of the software generator

The software generator of `apps/random/random.c` has one word of state, and is stuck if that word is
zero. The word is seeded from the devices on the first call of `random_get_bytes`, whether that call
needs the generator or not, and from then on only bytes that are drawn change it.

## The model

The functions are those of `Random`: `xorshift64`, `prngInit`, `prngFillBytes`, and the system `random` of
`random_hardware_init`, `random_get_bytes` and the driver. `numbers` and `numberBytes` are the numbers that
follow a state and their bytes, in order.

## What is proved

`prngFillBytes_eq` says what a draw writes and where it leaves the state. `draws_spec` puts it together with
`xorshift64_bijective` and with every run: a call of `random_get_bytes` comes to a state other than zero, and
either draws from it or leaves it as it is.
-/

namespace Yasouos.Apps.Random

open Theory Prog
open Kernel (Device)
open Drivers

/-! ### One step -/

/-- The step is one of the xorshift generators. -/
theorem toBitVec_xorshift64 (x : UInt64) : (xorshift64 x).toBitVec = xorShift 13 7 17 x.toBitVec := by
  simp [xorshift64, xorShift]

theorem xorshift64_bijective : Function.Bijective xorshift64 := by
  obtain ⟨hinj, hsurj⟩ := xorShift_bijective (w := 64) (a := 13) (b := 7) (c := 17) (by omega) (by omega) (by omega)
  constructor
  · intro x y h
    apply UInt64.toBitVec_inj.1
    apply hinj
    rw [← toBitVec_xorshift64, ← toBitVec_xorshift64, h]
  · intro y
    obtain ⟨b, hb⟩ := hsurj y.toBitVec
    refine ⟨UInt64.ofBitVec b, UInt64.toBitVec_inj.1 ?_⟩
    rw [toBitVec_xorshift64, ← hb]

/-- Zero comes from zero only. -/
theorem xorshift64_eq_zero_iff (x : UInt64) : xorshift64 x = 0 ↔ x = 0 :=
  xorshift64_bijective.injective.eq_iff' rfl

/-! ### What a draw writes -/

/-- The `n` numbers that follow a state. -/
def numbers (x : UInt64) (n : ℕ) : List UInt64 := List.iterate xorshift64 (xorshift64 x) n

/-- Their bytes, one number after the other, each the lowest byte first. -/
def numberBytes (x : UInt64) (n : ℕ) : List UInt8 := (numbers x n).flatMap fun val => leBytes 8 val.toNat

/-- Bytes of the software generator. -/
def softwareCells (bytes : List UInt8) : List Cell := bytes.map fun b => ⟨b, .software⟩

/-- A byte of a number, found by division and by a shift. -/
theorem toUInt8_word (val : UInt64) {i : ℕ} (hi : i < 8) :
    (val >>> UInt64.ofNat (i * 8)).toUInt8 = UInt8.ofNat (val.toNat / 256 ^ i) := by
  apply UInt8.toNat_inj.1
  have hpow : 2 ^ (i * 8) = 256 ^ i := by rw [Nat.mul_comm, Nat.pow_mul]
  have hshift : i * 8 % 2 ^ 64 % 64 = i * 8 := by omega
  rw [UInt64.toNat_toUInt8, UInt64.toNat_shiftRight, UInt64.toNat_ofNat', hshift, Nat.shiftRight_eq_div_pow, hpow,
    UInt8.toNat_ofNat']

/-- The cells of a number are its first bytes. -/
theorem wordCells_eq (val : UInt64) {n : ℕ} (hn : n ≤ 8) :
    wordCells val n = softwareCells ((leBytes 8 val.toNat).take n) := by
  rw [leBytes_eq, ← List.map_take, List.take_range, Nat.min_eq_left hn, softwareCells, List.map_map, wordCells]
  refine List.map_congr_left fun i hi => ?_
  rw [Function.comp_apply, toUInt8_word val ((List.mem_range.1 hi).trans_le hn)]

theorem numberBytes_succ (x : UInt64) (n : ℕ) :
    numberBytes x (n + 1) = leBytes 8 (xorshift64 x).toNat ++ numberBytes (xorshift64 x) n := by
  rw [numberBytes, numbers, List.iterate, List.flatMap_cons, numberBytes, numbers]

/-- **A draw of `length` bytes** takes one step for every eight of them, and for the rest, and writes the first bytes
of the numbers that it steps to. -/
theorem prngFillBytes_eq (length : ℕ) (x : UInt64) :
    prngFillBytes length x =
      (softwareCells ((numberBytes x (length ⌈/⌉ 8)).take length), xorshift64^[length ⌈/⌉ 8] x) := by
  induction length, x using prngFillBytes.induct with
  | case1 length x val ih =>
    have hsteps : (length + 8) ⌈/⌉ 8 = length ⌈/⌉ 8 + 1 := by
      rw [Nat.ceilDiv_eq_add_pred_div, Nat.ceilDiv_eq_add_pred_div]
      omega
    have hlen : (leBytes 8 val.toNat).length = 8 := length_leBytes 8 _
    have htake : (leBytes 8 val.toNat ++ numberBytes val (length ⌈/⌉ 8)).take (length + 8) =
        leBytes 8 val.toNat ++ (numberBytes val (length ⌈/⌉ 8)).take length := by
      rw [List.take_append, List.take_of_length_le (by omega), hlen, Nat.add_sub_cancel]
    rw [hsteps, numberBytes_succ, Function.iterate_succ_apply, htake]
    show (wordCells val 8 ++ (prngFillBytes length val).1, (prngFillBytes length val).2) = _
    rw [ih, wordCells_eq val (le_refl 8), List.take_of_length_le hlen.le, softwareCells, softwareCells, softwareCells,
      List.map_append]
  | case2 x => rfl
  | case3 length x hlt hpos =>
    -- fewer than eight bytes are left, and at least one
    have hsmall : length < 8 := by
      by_contra hge
      exact hlt (length - 8) (by omega)
    have hone : length ⌈/⌉ 8 = 1 := by
      rw [Nat.ceilDiv_eq_add_pred_div]
      have : length ≠ 0 := fun h => hpos h
      omega
    rw [hone, numberBytes_succ, prngFillBytes]
    · have hlen : length ≤ (leBytes 8 (xorshift64 x).toNat).length := by
        rw [length_leBytes]
        omega
      rw [List.take_append_of_le_length hlen, wordCells_eq _ hsmall.le, Function.iterate_one]
    · exact hlt
    · exact hpos

/-! ### The states that are drawn from -/

theorem prngInit_ne_zero (devices : List (Device String)) : prngInit devices ≠ 0 := by
  rw [prngInit]
  split_ifs with hzero
  · decide
  · exact hzero

theorem iterate_xorshift64_ne_zero {x : UInt64} (hx : x ≠ 0) (n : ℕ) : xorshift64^[n] x ≠ 0 :=
  iterate_ne (fun y => (xorshift64_eq_zero_iff y).1) hx n

/-- The generator is not stuck, once it has been seeded. -/
def Seeded (t : State) : Prop := t.initialized = true → t.prngState ≠ 0

theorem Seeded.ensureInit {t : State} (h : Seeded t) (devices : List (Device String)) :
    (t.ensureInit devices).prngState ≠ 0 := by
  unfold State.ensureInit
  split_ifs with hinit
  · exact h hinit
  · exact prngInit_ne_zero devices

/-- The call has drawn `length` bytes, from the state `x`. -/
structure Drew (x : UInt64) (length : ℕ) (r : Driven × Ret) : Prop where
  /-- They are the first bytes of the numbers that follow. -/
  buffer : r.2.buffer = softwareCells ((numberBytes x (length ⌈/⌉ 8)).take length)
  /-- The state is behind the last of these numbers. -/
  state : r.1.state.prngState = xorshift64^[length ⌈/⌉ 8] x

/-- The call has drawn nothing, and the state is still `x`. -/
structure Spared (x : UInt64) (r : Driven × Ret) : Prop where
  /-- All bytes come from one device. -/
  buffer : ∃ i, ∀ cell ∈ r.2.buffer, cell.source = .hardware i
  /-- The state is as it was. -/
  state : r.1.state.prngState = x

section Calls

variable {m : Driven} {length : ℕ}

theorem drew_software (manager : Kernel.Resources.Manager String) (contexts : ℕ → VirtioRng.Ctx) (length : ℕ)
    (t : State) :
    Drew t.prngState length (⟨⟨manager, (software length t).1⟩, contexts⟩, (software length t).2) where
  buffer := by rw [software, prngFillBytes_eq]
  state := by rw [software, prngFillBytes_eq]

/-- A state that has been drawn from, or not, is not zero. -/
theorem Drew.seeded {x : UInt64} {r : Driven × Ret} (h : Drew x length r) (hx : x ≠ 0) : Seeded r.1.state := by
  intro _
  rw [h.state]
  exact iterate_xorshift64_ne_zero hx _

theorem Spared.seeded {x : UInt64} {r : Driven × Ret} (h : Spared x r) (hx : x ≠ 0) : Seeded r.1.state := by
  intro _
  rw [h.state]
  exact hx

/-- What the driver's answer is made into either draws or does not. -/
theorem answered_draws (m : Driven) (length : ℕ) (x : VirtioRng.Ctx × VirtioRng.Ret) :
    Drew m.ready.prngState length (m.answered length x) ∨ Spared m.ready.prngState (m.answered length x) := by
  by_cases hcode : x.2.code = asInt length
  · right
    simp only [Driven.answered, if_pos hcode]
    refine ⟨⟨m.ready.nextDeviceIndex, fun cell hc => ?_⟩, rfl⟩
    obtain ⟨b, -, rfl⟩ := List.mem_map.1 hc
    rfl
  · left
    simp only [Driven.answered, if_neg hcode]
    exact drew_software m.manager _ length m.selected

/-- **A call of `random_get_bytes`**, whatever its operations answer. -/
theorem getBytes_draws (m : Driven) (hlen : length ≠ 0) :
    (m.getBytes length).All (fun _ => True) fun r => Drew m.ready.prngState length r ∨ Spared m.ready.prngState r := by
  rcases Nat.eq_zero_or_pos m.state.deviceCount with hdev | hdev
  · rw [getBytes_of_none hlen hdev]
    exact .inl (drew_software m.manager m.contexts length m.ready)
  · rw [getBytes_of_device hlen hdev]
    exact (all_true _).bind fun x _ => answered_draws m length x

end Calls

/-! ### Runs -/

/-- What is known of a call that has returned. -/
def DrawLogged (e : Done Call Driven Ret) : Prop :=
  ∀ length, e.call = .getBytes length → length ≠ 0 → e.before.ready.prngState ≠ 0 ∧
    (Drew e.before.ready.prngState length (e.after, e.result) ∨ Spared e.before.ready.prngState (e.after, e.result))

/-- Every call leaves the generator seeded, and draws as said. -/
theorem body_draws (addr : ℕ → ℕ) (k : Call) (m : Driven) (h : Seeded m.state) :
    ((random addr).body k m).All (fun _ => True) fun r => Seeded r.1.state ∧ DrawLogged ⟨k, m, r.2, r.1⟩ := by
  cases k with
  | hardwareInit init =>
    have hstate : Seeded (m.hardwareInit addr init).1.state := by
      rcases hardwareInit_cases addr init m with ⟨hstate, -⟩ | ⟨r, hstate, -⟩
      · rw [hstate]
        exact h
      · rw [hstate]
        exact h
    refine ⟨hstate, ?_⟩
    intro length hcall
    cases hcall
  | getBytes length =>
    by_cases hlen : length = 0
    · subst hlen
      refine ⟨h, ?_⟩
      intro length hcall hpos
      exact absurd (Call.getBytes.inj hcall).symm hpos
    have hready : m.ready.prngState ≠ 0 := h.ensureInit m.manager.devices
    refine (getBytes_draws m hlen).mono (fun _ h => h) fun r hr => ⟨?_, ?_⟩
    · exact hr.elim (fun hd => hd.seeded hready) fun hs => hs.seeded hready
    · intro length' hcall _
      obtain rfl : length = length' := Call.getBytes.inj hcall
      exact ⟨hready, hr⟩

/-- The step of the generator is a bijection under which only zero goes to zero. A draw of any length, from any state,
takes one step for every eight bytes, and for the rest, and writes the first bytes of the numbers that it steps to, each
the lowest byte first. And in every run from boot, with whatever devices, calls and answers: each call of
`random_get_bytes` for at least one byte comes to a state other than zero, from which it draws all of its bytes, or
which it leaves as it is, with the bytes of a device. -/
theorem draws_spec (addr : ℕ → ℕ) (devices : List (Device String)) (c : Cfg Op Ans Mem Call Driven Ret)
    (h : (random addr).Reach (start devices) c) :
    Function.Bijective xorshift64 ∧ (∀ x, xorshift64 x = 0 ↔ x = 0) ∧
      (∀ length x, prngFillBytes length x =
        (softwareCells ((numberBytes x (length ⌈/⌉ 8)).take length), xorshift64^[length ⌈/⌉ 8] x)) ∧
      (∀ devices, prngInit devices ≠ 0) ∧
      ∀ e ∈ c.log, ∀ length, e.call = .getBytes length → length ≠ 0 → e.before.ready.prngState ≠ 0 ∧
        (Drew e.before.ready.prngState length (e.after, e.result) ∨
          Spared e.before.ready.prngState (e.after, e.result)) := by
  refine ⟨xorshift64_bijective, xorshift64_eq_zero_iff, prngFillBytes_eq, prngInit_ne_zero, ?_⟩
  have hseeded : Seeded (Module.start devices).state := fun hinit => by cases hinit
  exact System.log_of_inv (S := random addr) (J := fun m => Seeded m.state) (P := DrawLogged) (body_draws addr)
    (show (start devices).Idle from rfl) hseeded (by simp [start, Cfg.start]) h

/-- With no device, a first call for nine bytes takes two steps from the base seed. -/
theorem draws_nine :
    ∃ c, (random id).run (start []) [.call (.getBytes 9), .tick] = some c ∧
      ∃ e ∈ c.log, e.before.ready.prngState = baseSeed ∧ baseSeed ≠ 0 ∧ e.result.buffer.length = 9 ∧
        (Drew baseSeed 9 (e.after, e.result) ∨ Spared baseSeed (e.after, e.result)) := by
  obtain ⟨c, hc⟩ : ∃ c, (random id).run (start []) [.call (.getBytes 9), .tick] = some c := ⟨_, rfl⟩
  obtain ⟨e, he, hcall, hready, hlen⟩ : ∃ e ∈ c.log, e.call = .getBytes 9 ∧ e.before.ready.prngState = baseSeed ∧
      e.result.buffer.length = 9 := by
    obtain rfl : _ = c := Option.some.inj hc
    exact ⟨_, List.mem_singleton.2 rfl, rfl, by decide, by decide⟩
  obtain ⟨-, -, -, -, hdraws⟩ := draws_spec id [] c ((random id).reach_of_run hc)
  obtain ⟨hne, hdrew⟩ := hdraws e he 9 hcall (by decide)
  rw [hready] at hne hdrew
  exact ⟨c, hc, e, he, hready, hne, hlen, hdrew⟩

end Yasouos.Apps.Random
