import Yasouos.Apps.Random
import Yasouos.Theory.Ring
import Mathlib.Logic.Embedding.Basic

/-!
# Taking turns with the random number generators

`random_get_bytes` asks one random number generator after another: `next_device_index` goes round
the contexts that are in use, while `random_hardware_init` may add one at any time. A device that
does not initialise leaves its traces in the first context that is not in use.

## The model

A `Bank` is the module of `Random` with its contexts. Of a context there is what `init_context` was last called
for, and what that returned, at the address of the context; `addr` says where the contexts are, and they are all in
different places. Requests come in any order. What `init_context` returns for each device and what
`virtio_rng_read` returns are part of the request, and a buffer may be `NULL`. For each request a `Turn` is recorded:
what it returned, and for each call of `virtio_rng_read` what its context had been initialised for.

## What is proved

`turns_spec`, about every bank that requests lead to: the next context is one that has been initialised, for a device
that the module has acquired; and as long as no device is acquired, as many valid requests as there are devices ask
each of them once.
-/

namespace Yasouos.Apps.Random

open Theory Prog
open Kernel (Device)
open Kernel.Resources (Manager Slot Holds acquireAvailable acquireAvailable_eq search_cases candidates
  mem_candidates_iff initEvents initFails push_pool)
open Drivers

/-! ### Requests -/

/-- The module, and its contexts. -/
structure Bank where
  /-- The module, with the resource manager. -/
  module : Module
  /-- For the context at an address: the device that `init_context` was last called for, and what that returned. -/
  lastInit : ℕ → Option (ℕ × ℤ)

/-- The bank at boot. -/
def Bank.start (devices : List (Device String)) : Bank := ⟨.start devices, fun _ => none⟩

/-- A request. -/
inductive Request where
  /-- `random_hardware_init`, with what `init_context` will return for each device. -/
  | hardwareInit (init : ℕ → ℤ)
  /-- `random_get_bytes`, with the buffer, the length, and what `virtio_rng_read` will return. -/
  | getBytes (buffer : Option ℕ) (length : ℕ) (answer : VirtioRng.Ret)

/-- What is recorded of a request. -/
structure Turn where
  /-- The request. -/
  request : Request
  /-- What it returned. -/
  code : ℤ
  /-- For each call of `virtio_rng_read`, what the context had been initialised for, and with what result. -/
  uses : List (Option (ℕ × ℤ))

/-- `random_get_bytes`, with the check of the buffer. -/
def randomGetBytesAt (devices : List (Device String)) (buffer : Option ℕ) (length : ℕ) (s : State) : App (State × Ret) :=
  match buffer with
  | none => return (s, ⟨-1, []⟩)
  | some _ => randomGetBytes devices length s

/-- The calls that `random_hardware_init` makes of `init_context`. -/
def initCalls (addr : ℕ → ℕ) (init : ℕ → ℤ) (m : Module) : List (Kernel.Resources.Event String) :=
  if maxHardwareRngDevices ≤ m.state.deviceCount then []
  else
    match acquireAvailable (some rngDriver) (some (addr m.state.deviceCount)) init m.manager with
    | some (_, events, _) => events
    | none => []

/-- What a call of `init_context` leaves. -/
def noteInit (init : ℕ → ℤ) (lastInit : ℕ → Option (ℕ × ℤ)) : Kernel.Resources.Event String → ℕ → Option (ℕ × ℤ)
  | .init _ context device => Function.update lastInit context (some (device, init device))
  | .deinit _ _ => lastInit

/-- A call of `virtio_rng_read` is recorded. -/
def noteRead (addr : ℕ → ℕ) (lastInit : ℕ → Option (ℕ × ℤ)) (answer : VirtioRng.Ret) (o : Read)
    (uses : List (Option (ℕ × ℤ))) : VirtioRng.Ret × List (Option (ℕ × ℤ)) :=
  (answer, uses ++ [lastInit (addr o.context)])

/-- A request is made. -/
def Bank.exec (addr : ℕ → ℕ) (b : Bank) : Request → Option (Turn × Bank)
  | .hardwareInit init => do
    let (code, module) ← randomHardwareInit addr init b.module
    return (⟨.hardwareInit init, code, []⟩,
      ⟨module, (initCalls addr init b.module).foldl (noteInit init) b.lastInit⟩)
  | .getBytes buffer length answer =>
    let r := (randomGetBytesAt b.module.manager.devices buffer length b.module.state).runOn
      (noteRead addr b.lastInit answer) []
    some (⟨.getBytes buffer length answer, r.1.2.code, r.2⟩, ⟨⟨b.module.manager, r.1.1⟩, b.lastInit⟩)

/-- Requests are made one after another. -/
def Bank.execAll (addr : ℕ → ℕ) : List Request → Bank → Option (List Turn × Bank)
  | [], b => some ([], b)
  | q :: qs, b => do
    let (turn, b) ← b.exec addr q
    let (turns, b) ← Bank.execAll addr qs b
    return (turn :: turns, b)

/-! ### What there is in a bank -/

/-- The context with index `i` has been initialised for the device `d`, which the module holds. -/
structure Bank.Live (addr : ℕ → ℕ) (b : Bank) (i d : ℕ) : Prop where
  /-- The last call of `init_context` was for the device, and succeeded. -/
  lastInit : b.lastInit (addr i) = some (d, 0)
  /-- The resource of the context is one for the device. -/
  resource : ∃ r, b.module.state.resources i = some r ∧ (b.module.manager.pool r).inUse = true ∧
    (b.module.manager.pool r).device = some d ∧ (b.module.manager.pool r).context = some (addr i)

/-- The device of a resource of the module. -/
def Bank.device (b : Bank) (i : ℕ) : Option ℕ :=
  (b.module.state.resources i).bind fun r => (b.module.manager.pool r).device

/-- The devices that have been acquired. -/
def Bank.acquired (b : Bank) : List (Option ℕ) := (List.range b.module.state.deviceCount).map b.device

/-- A call of `random_get_bytes` with valid arguments. -/
def Request.valid : Request → Bool
  | .hardwareInit _ => false
  | .getBytes buffer length _ => buffer.isSome && length != 0

/-- `random_hardware_init` has acquired a device. -/
def Turn.acquires : Turn → Bool
  | ⟨.hardwareInit _, code, _⟩ => code == 0
  | ⟨.getBytes _ _ _, _, _⟩ => false

/-! ### The calls of `init_context` -/

/-- Calls of `init_context` with one context leave the other contexts as they are. -/
theorem foldl_noteInit_of_ne {init : ℕ → ℤ} {driver : Kernel.Driver String} {context a : ℕ} (ha : a ≠ context)
    (is : List ℕ) (lastInit : ℕ → Option (ℕ × ℤ)) :
    (initEvents driver context is).foldl (noteInit init) lastInit a = lastInit a := by
  rw [initEvents]
  split_ifs
  · induction is generalizing lastInit with
    | nil => rfl
    | cons i is ih =>
      rw [List.map_cons, List.foldl_cons, ih, noteInit, Function.update_of_ne ha]
  · rfl

/-- The last of them is what the context is left with. -/
theorem foldl_noteInit_self {init : ℕ → ℤ} {driver : Kernel.Driver String} (hinit : driver.initContext = true)
    (context : ℕ) (before : List ℕ) (i : ℕ) (lastInit : ℕ → Option (ℕ × ℤ)) :
    (initEvents driver context (before ++ [i])).foldl (noteInit init) lastInit context = some (i, init i) := by
  rw [initEvents, if_pos hinit, List.map_append, List.foldl_append, List.map_singleton, List.foldl_cons, List.foldl_nil,
    noteInit, Function.update_self]

/-! ### The invariant -/

section Invariant

variable {addr : ℕ → ℕ} {b b' b'' : Bank}

/-- What is kept of a bank. -/
structure Bank.Inv (addr : ℕ → ℕ) (b : Bank) : Prop where
  /-- The resource manager is sound. -/
  holds : ∃ l, Holds b.module.manager l
  /-- There are enough contexts. -/
  count_le : b.module.state.deviceCount ≤ maxHardwareRngDevices
  /-- The next context is in use, if any is. -/
  next : b.module.state.nextDeviceIndex < b.module.state.deviceCount ∨
    (b.module.state.deviceCount = 0 ∧ b.module.state.nextDeviceIndex = 0)
  /-- The contexts in use have been initialised. -/
  live : ∀ i < b.module.state.deviceCount, ∃ d, b.Live addr i d

theorem Bank.Inv.start (addr : ℕ → ℕ) (devices : List (Device String)) : (Bank.start devices).Inv addr where
  holds := ⟨[], Holds.start devices⟩
  count_le := Nat.zero_le _
  next := .inr ⟨rfl, rfl⟩
  live := fun i hi => absurd hi (Nat.not_lt_zero i)

/-- Nothing has been acquired: the contexts that are in use are the same, and are left alone. -/
structure Bank.Steady (addr : ℕ → ℕ) (b b' : Bank) : Prop where
  /-- The resources are the same. -/
  manager : b'.module.manager = b.module.manager
  /-- So is what the module knows of them. -/
  resources : b'.module.state.resources = b.module.state.resources
  /-- No context is added. -/
  count : b'.module.state.deviceCount = b.module.state.deviceCount
  /-- None of those in use is initialised again. -/
  lastInit : ∀ i < b.module.state.deviceCount, b'.lastInit (addr i) = b.lastInit (addr i)

/-- Contexts are not initialised by a request for bytes. -/
theorem Bank.Steady.of_state (addr : ℕ → ℕ) (b : Bank) {t : State} (hres : t.resources = b.module.state.resources)
    (hcount : t.deviceCount = b.module.state.deviceCount) :
    b.Steady addr ⟨⟨b.module.manager, t⟩, b.lastInit⟩ :=
  ⟨rfl, hres, hcount, fun _ _ => rfl⟩

theorem Bank.Steady.live (h : b.Steady addr b') {i d : ℕ} (hi : i < b.module.state.deviceCount) (hl : b.Live addr i d) :
    b'.Live addr i d where
  lastInit := (h.lastInit i hi).trans hl.lastInit
  resource := by
    rw [h.resources, h.manager]
    exact hl.resource

theorem Bank.Steady.inv (h : b.Steady addr b') (hb : b.Inv addr)
    (hnext : b'.module.state.nextDeviceIndex < b.module.state.deviceCount ∨
      (b.module.state.deviceCount = 0 ∧ b'.module.state.nextDeviceIndex = 0)) : b'.Inv addr where
  holds := h.manager ▸ hb.holds
  count_le := h.count ▸ hb.count_le
  next := h.count ▸ hnext
  live := by
    intro i hi
    rw [h.count] at hi
    obtain ⟨d, hd⟩ := hb.live i hi
    exact ⟨d, h.live hi hd⟩

/-- What `v` valid requests ask, if nothing is acquired. -/
def Bank.asks (addr : ℕ → ℕ) (b : Bank) (v : ℕ) : List (Option (ℕ × ℤ)) :=
  if b.module.state.deviceCount = 0 then []
  else (goRound b.module.state.deviceCount b.module.state.nextDeviceIndex v).map fun i => b.lastInit (addr i)

/-- Nothing has been acquired, and `v` valid requests have been made. -/
structure Bank.Round (addr : ℕ → ℕ) (b : Bank) (v : ℕ) (uses : List (Option (ℕ × ℤ))) (b' : Bank) : Prop extends
    Bank.Steady addr b b' where
  /-- They have asked the next devices. -/
  uses : uses = b.asks addr v
  /-- The index has gone on as far. -/
  next : 0 < b.module.state.deviceCount →
    b'.module.state.nextDeviceIndex = (b.module.state.nextDeviceIndex + v) % b.module.state.deviceCount

/-- No valid request has been made. -/
theorem Bank.Round.of_steady (h : b.Steady addr b') (hb : b.Inv addr)
    (hnext : b'.module.state.nextDeviceIndex = b.module.state.nextDeviceIndex) : b.Round addr 0 [] b' where
  toSteady := h
  uses := by
    rw [Bank.asks]
    split_ifs <;> rfl
  next := by
    intro hpos
    have := hb.next
    rw [hnext, Nat.add_zero, Nat.mod_eq_of_lt (by omega)]

/-- One round follows another. -/
theorem Bank.Round.trans {v v' : ℕ} {uses uses' : List (Option (ℕ × ℤ))} (h : b.Round addr v uses b')
    (h' : b'.Round addr v' uses' b'') : b.Round addr (v + v') (uses ++ uses') b'' := by
  have hlast : ∀ i < b.module.state.deviceCount, b''.lastInit (addr i) = b.lastInit (addr i) := fun i hi =>
    (h'.lastInit i (h.count.symm ▸ hi)).trans (h.lastInit i hi)
  refine ⟨⟨h'.manager.trans h.manager, h'.resources.trans h.resources, h'.count.trans h.count, hlast⟩, ?_, ?_⟩
  · rw [h.uses, h'.uses, Bank.asks, Bank.asks, Bank.asks, h.count]
    by_cases hzero : b.module.state.deviceCount = 0
    · rw [if_pos hzero, if_pos hzero, if_pos hzero]
      rfl
    · have hpos := Nat.pos_of_ne_zero hzero
      rw [if_neg hzero, if_neg hzero, if_neg hzero, h.next hpos, goRound_add, List.map_append]
      refine congrArg _ (List.map_congr_left fun i hi => ?_)
      exact h.lastInit i (lt_of_mem_goRound hpos hi)
  · intro hpos
    rw [h'.next (h.count.symm ▸ hpos), h.next hpos, h.count, Nat.mod_add_mod, Nat.add_assoc]

end Invariant

/-! ### Requests for bytes -/

section GetBytes

variable {addr : ℕ → ℕ} {b : Bank}

/-- A valid request, if there is no device, asks none. -/
theorem runOn_randomGetBytes_of_none (devices : List (Device String)) (t : State) {length : ℕ}
    (exec : Read → List (Option (ℕ × ℤ)) → VirtioRng.Ret × List (Option (ℕ × ℤ))) (hlen : length ≠ 0)
    (hdev : t.deviceCount = 0) :
    ((randomGetBytes devices length t).runOn exec []).2 = [] ∧
      ((randomGetBytes devices length t).runOn exec []).1.1.resources = t.resources ∧
      ((randomGetBytes devices length t).runOn exec []).1.1.deviceCount = t.deviceCount ∧
      ((randomGetBytes devices length t).runOn exec []).1.1.nextDeviceIndex = t.nextDeviceIndex := by
  rw [randomGetBytes_of_none hlen hdev]
  exact ⟨rfl, resources_ensureInit _ _, deviceCount_ensureInit _ _, nextDeviceIndex_ensureInit _ _⟩

/-- If there are devices, it asks the next one, and goes on to the one after it. -/
theorem runOn_randomGetBytes_of_device (devices : List (Device String)) (t : State) {length : ℕ}
    (exec : Read → List (Option (ℕ × ℤ)) → VirtioRng.Ret × List (Option (ℕ × ℤ))) (hlen : length ≠ 0)
    (hdev : 0 < t.deviceCount) :
    ((randomGetBytes devices length t).runOn exec []).2 = (exec ⟨t.nextDeviceIndex, length⟩ []).2 ∧
      ((randomGetBytes devices length t).runOn exec []).1.1.resources = t.resources ∧
      ((randomGetBytes devices length t).runOn exec []).1.1.deviceCount = t.deviceCount ∧
      ((randomGetBytes devices length t).runOn exec []).1.1.nextDeviceIndex =
        (t.nextDeviceIndex + 1) % t.deviceCount := by
  rw [randomGetBytes_of_device hlen hdev, runOn_hardwareReadBytes, nextDeviceIndex_ensureInit]
  refine ⟨rfl, ?_⟩
  dsimp only
  split_ifs <;>
    simp [State.select, software]

/-- The request is not valid. -/
theorem runOn_randomGetBytesAt_of_invalid (devices : List (Device String)) (t : State) {buffer : Option ℕ}
    {length : ℕ} {answer : VirtioRng.Ret} (exec : Read → List (Option (ℕ × ℤ)) → VirtioRng.Ret × List (Option (ℕ × ℤ)))
    (h : (Request.getBytes buffer length answer).valid = false) :
    (randomGetBytesAt devices buffer length t).runOn exec [] = ((t, ⟨-1, []⟩), []) := by
  cases buffer with
  | none => rfl
  | some p =>
    obtain rfl : length = 0 := by simpa [Request.valid] using h
    rfl

/-- **A request for bytes.** If it is valid, it asks the next device. -/
theorem getBytes_round (h : b.Inv addr) (buffer : Option ℕ) (length : ℕ) (answer : VirtioRng.Ret) :
    ∃ t b', b.exec addr (.getBytes buffer length answer) = some (t, b') ∧ b'.Inv addr ∧ t.acquires = false ∧
      b.Round addr (if (Request.getBytes buffer length answer).valid then 1 else 0) t.uses b' := by
  have hnext := h.next
  refine ⟨_, _, rfl, ?_⟩
  by_cases hvalid : (Request.getBytes buffer length answer).valid = true
  swap
  · -- the request fails
    have hrun := runOn_randomGetBytesAt_of_invalid b.module.manager.devices b.module.state
      (noteRead addr b.lastInit answer) (by simpa using hvalid)
    rw [hrun, if_neg hvalid]
    exact ⟨h, rfl, Bank.Round.of_steady ⟨rfl, rfl, rfl, fun _ _ => rfl⟩ h rfl⟩
  rw [if_pos hvalid]
  obtain ⟨hbuffer, hlen⟩ : buffer.isSome = true ∧ length ≠ 0 := by simpa [Request.valid] using hvalid
  obtain ⟨p, rfl⟩ := Option.isSome_iff_exists.1 hbuffer
  rcases Nat.eq_zero_or_pos b.module.state.deviceCount with hdev | hdev
  · -- there is no device
    obtain ⟨huses, hres, hcount, hidx⟩ := runOn_randomGetBytes_of_none b.module.manager.devices b.module.state
      (noteRead addr b.lastInit answer) hlen hdev
    have hsteady := Bank.Steady.of_state addr b hres hcount
    refine ⟨hsteady.inv h (.inr ⟨hdev, hidx.trans (by omega)⟩), rfl, hsteady, ?_, fun hpos => by omega⟩
    rw [Bank.asks, if_pos hdev]
    exact huses
  · obtain ⟨huses, hres, hcount, hidx⟩ := runOn_randomGetBytes_of_device b.module.manager.devices b.module.state
      (noteRead addr b.lastInit answer) hlen hdev
    have hsteady := Bank.Steady.of_state addr b hres hcount
    refine ⟨hsteady.inv h (.inl ?_), rfl, hsteady, ?_, fun _ => hidx⟩
    · exact hidx.trans_lt (Nat.mod_lt _ hdev)
    · rw [Bank.asks, if_neg hdev.ne']
      refine huses.trans ?_
      simp [noteRead, goRound, Nat.mod_eq_of_lt (show b.module.state.nextDeviceIndex < b.module.state.deviceCount by omega)]

end GetBytes

/-! ### Acquiring devices -/

section HardwareInit

variable {addr : ℕ → ℕ} {b : Bank}

/-- What `random_hardware_init` comes to: no context is written; or the first one that is not in use is, and no device
is acquired; or one is, the last that the context was initialised for. -/
theorem randomHardwareInit_cases (h : b.Inv addr) (init : ℕ → ℤ) :
    ∃ code m, randomHardwareInit addr init b.module = some (code, m) ∧
      ((code = -1 ∧ m = b.module ∧ ∃ is, initCalls addr init b.module =
          initEvents rngDriver (addr b.module.state.deviceCount) is) ∨
        ∃ before i r device, code = 0 ∧ b.module.state.deviceCount < maxHardwareRngDevices ∧ init i = 0 ∧
          initCalls addr init b.module =
            initEvents rngDriver (addr b.module.state.deviceCount) (before ++ [i]) ∧
          m = ⟨b.module.manager.push r i rngDriver (addr b.module.state.deviceCount),
            b.module.state.acquired r⟩ ∧
          (b.module.manager.pool r).inUse = false ∧ b.module.manager.devices[i]? = some device ∧
          Kernel.deviceMatchesDriver device rngDriver = true ∧
          ∀ l, Holds b.module.manager l → ∀ k ∈ l, (b.module.manager.pool k).device ≠ some i) := by
  obtain ⟨l, hs⟩ := h.holds
  by_cases hfull : maxHardwareRngDevices ≤ b.module.state.deviceCount
  · refine ⟨-1, b.module, ?_, .inl ⟨rfl, rfl, [], ?_⟩⟩
    · simp [randomHardwareInit, hfull]
    · rw [initCalls, if_pos hfull]
      rfl
  have hrun : ∀ {x}, acquireAvailable (some rngDriver) (some (addr b.module.state.deviceCount)) init
      b.module.manager = some x → initCalls addr init b.module = x.2.1 := by
    intro x hx
    rw [initCalls, if_neg hfull, hx]
  rcases acquireAvailable_eq rngDriver (addr b.module.state.deviceCount) init hs with
    ⟨-, heq⟩ | ⟨r, hr, heq⟩
  · -- the pool of the resource manager is full
    refine ⟨-1, b.module, ?_, .inl ⟨rfl, rfl, [], hrun heq⟩⟩
    simp [randomHardwareInit, hfull, heq]
  rcases search_cases rngDriver (addr b.module.state.deviceCount) init b.module.manager r
    (candidates rngDriver b.module.manager) with
    ⟨-, hsearch⟩ | ⟨before, i, after, hcands, -, hi, hsearch⟩
  · rw [hsearch] at heq
    refine ⟨-1, b.module, ?_, .inl ⟨rfl, rfl, _, hrun heq⟩⟩
    simp [randomHardwareInit, hfull, heq]
  · rw [hsearch] at heq
    have hcand : i ∈ candidates rngDriver b.module.manager := by simp [hcands]
    obtain ⟨device, hdev, hmatch, -⟩ := (mem_candidates_iff _ hs).1 hcand
    refine ⟨0, _, ?_, .inr ⟨before, i, r, device, rfl, Nat.lt_of_not_le hfull, ?_, hrun heq, rfl, hr, hdev, hmatch, ?_⟩⟩
    · simp [randomHardwareInit, hfull, heq]
    · simpa [initFails, VirtioInit.Virtio.driver] using hi
    · intro l' hs' k hk
      obtain ⟨-, -, -, hfree⟩ := (mem_candidates_iff _ hs').1 hcand
      exact hfree k hk

/-- A device has been acquired: the next context is for it, and the others are as they were. -/
theorem Bank.Inv.acquired (haddr : Function.Injective addr) (h : b.Inv addr) {init : ℕ → ℤ} {before : List ℕ} {i : ℕ}
    {r : Slot} {device : Device String} (hlt : b.module.state.deviceCount < maxHardwareRngDevices) (hinit : init i = 0)
    (hevents : initCalls addr init b.module = initEvents rngDriver (addr b.module.state.deviceCount) (before ++ [i]))
    (hr : (b.module.manager.pool r).inUse = false) (hdev : b.module.manager.devices[i]? = some device)
    (hmatch : Kernel.deviceMatchesDriver device rngDriver = true)
    (hfree : ∀ l, Holds b.module.manager l → ∀ k ∈ l, (b.module.manager.pool k).device ≠ some i) :
    Bank.Inv addr
      ⟨⟨b.module.manager.push r i rngDriver (addr b.module.state.deviceCount), b.module.state.acquired r⟩,
        (initCalls addr init b.module).foldl (noteInit init) b.lastInit⟩ := by
  obtain ⟨l, hs⟩ := h.holds
  obtain ⟨hnew, hold⟩ := push_pool rngDriver (addr b.module.state.deviceCount) b.module.manager r i
  have hrl : r ∉ l := by simp [hs.inUse, hr]
  have hnext := h.next
  refine ⟨⟨r :: l, hs.push hrl _ hdev hmatch (hfree l hs)⟩, hlt, .inl ?_, ?_⟩
  · show b.module.state.nextDeviceIndex < b.module.state.deviceCount + 1
    omega
  intro j hj
  have hj' : j < b.module.state.deviceCount + 1 := hj
  by_cases hlast : j = b.module.state.deviceCount
  · -- the context that has just been initialised
    subst hlast
    refine ⟨i, ?_, r, Function.update_self _ _ _, ?_⟩
    · show (initCalls addr init b.module).foldl (noteInit init) b.lastInit _ = _
      rw [hevents, foldl_noteInit_self rfl, hinit]
    · rw [hnew]
      exact ⟨rfl, rfl, rfl⟩
  · -- one of the others
    obtain ⟨d, hinitd, r', hr', huse, hdevice, hcontext⟩ := h.live j (by omega)
    have hne : r' ≠ r := by
      rintro rfl
      rw [hr] at huse
      cases huse
    refine ⟨d, ?_, r', (Function.update_of_ne hlast _ _).trans hr', ?_⟩
    · show (initCalls addr init b.module).foldl (noteInit init) b.lastInit _ = _
      rw [hevents, foldl_noteInit_of_ne (haddr.ne hlast), hinitd]
    · rw [hold r' hne]
      exact ⟨huse, hdevice, hcontext⟩

/-- **A request for a device.** Either one is acquired, or the devices that are held are left alone. -/
theorem hardwareInit_round (haddr : Function.Injective addr) (h : b.Inv addr) (init : ℕ → ℤ) :
    ∃ t b', b.exec addr (.hardwareInit init) = some (t, b') ∧ b'.Inv addr ∧
      (t.acquires = false → b.Round addr 0 t.uses b') := by
  obtain ⟨code, m, hrun, hcases⟩ := randomHardwareInit_cases h init
  refine ⟨⟨.hardwareInit init, code, []⟩, ⟨m, (initCalls addr init b.module).foldl (noteInit init) b.lastInit⟩, ?_, ?_⟩
  · rw [Bank.exec, hrun]
    rfl
  rcases hcases with ⟨rfl, rfl, is, hevents⟩ |
    ⟨before, i, r, device, rfl, hlt, hinit, hevents, rfl, hr, hdev, hmatch, hfree⟩
  · have hsteady : b.Steady addr ⟨b.module, (initCalls addr init b.module).foldl (noteInit init) b.lastInit⟩ := by
      refine ⟨rfl, rfl, rfl, fun i hi => ?_⟩
      rw [hevents]
      exact foldl_noteInit_of_ne (haddr.ne hi.ne) is b.lastInit
    exact ⟨hsteady.inv h h.next, fun _ => Bank.Round.of_steady hsteady h rfl⟩
  · exact ⟨h.acquired haddr hlt hinit hevents hr hdev hmatch hfree, fun hcode => by cases hcode⟩

end HardwareInit

/-! ### Runs -/

section Runs

variable {addr : ℕ → ℕ} {b b' : Bank}

theorem exec_round (haddr : Function.Injective addr) (h : b.Inv addr) (q : Request) :
    ∃ t b', b.exec addr q = some (t, b') ∧ b'.Inv addr ∧
      (t.acquires = false → b.Round addr (if q.valid then 1 else 0) t.uses b') := by
  cases q with
  | hardwareInit init => exact hardwareInit_round haddr h init
  | getBytes buffer length answer =>
    obtain ⟨t, b', hexec, hinv, -, hround⟩ := getBytes_round h buffer length answer
    exact ⟨t, b', hexec, hinv, fun _ => hround⟩

/-- **Every sequence of requests** is answered, and as long as nothing is acquired, it is a round of as many turns as it
has valid requests. -/
theorem execAll_round (haddr : Function.Injective addr) (h : b.Inv addr) (qs : List Request) :
    ∃ ts b', Bank.execAll addr qs b = some (ts, b') ∧ b'.Inv addr ∧
      ((∀ t ∈ ts, t.acquires = false) → b.Round addr (qs.countP Request.valid) (ts.flatMap Turn.uses) b') := by
  induction qs generalizing b with
  | nil => exact ⟨[], b, rfl, h, fun _ => Bank.Round.of_steady ⟨rfl, rfl, rfl, fun _ _ => rfl⟩ h rfl⟩
  | cons q qs ih =>
    obtain ⟨t, b₁, hexec, hinv₁, hround₁⟩ := exec_round haddr h q
    obtain ⟨ts, b₂, hrest, hinv₂, hround₂⟩ := ih hinv₁
    refine ⟨t :: ts, b₂, ?_, hinv₂, fun hnone => ?_⟩
    · simp only [Bank.execAll, hexec, hrest, Option.bind_eq_bind, Option.bind_some]
      rfl
    · have hfirst := hround₁ (hnone t List.mem_cons_self)
      have hlater := hround₂ fun t' ht' => hnone t' (List.mem_cons_of_mem t ht')
      rw [List.countP_cons, Nat.add_comm, List.flatMap_cons]
      exact hfirst.trans hlater

theorem Bank.Live.device {i d : ℕ} (h : b.Live addr i d) : b.device i = some d := by
  obtain ⟨r, hr, -, hd, -⟩ := h.resource
  rw [Bank.device, hr]
  exact hd

/-- Two contexts that are in use are not for one device. -/
theorem Bank.Inv.device_inj (haddr : Function.Injective addr) (h : b.Inv addr) {i j : ℕ}
    (hi : i < b.module.state.deviceCount) (hj : j < b.module.state.deviceCount) (heq : b.device i = b.device j) :
    i = j := by
  obtain ⟨l, hs⟩ := h.holds
  obtain ⟨d, hd⟩ := h.live i hi
  obtain ⟨e, he⟩ := h.live j hj
  rw [hd.device, he.device] at heq
  obtain ⟨r, -, huse, hdev, hctx⟩ := hd.resource
  obtain ⟨r', -, huse', hdev', hctx'⟩ := he.resource
  obtain rfl : r = r' :=
    hs.exclusive r ((hs.inUse r).2 huse) r' ((hs.inUse r').2 huse') (hdev.trans (heq.trans hdev'.symm))
  exact haddr (Option.some.inj (hctx.symm.trans hctx'))

theorem Bank.Inv.acquired_nodup (haddr : Function.Injective addr) (h : b.Inv addr) : b.acquired.Nodup :=
  List.Nodup.map_on (fun _ hi _ hj heq => h.device_inj haddr (List.mem_range.1 hi) (List.mem_range.1 hj) heq)
    List.nodup_range

/-- **Once round**, each device is asked once. -/
theorem Bank.Inv.asks_perm (h : b.Inv addr) :
    (b.asks addr b.module.state.deviceCount).Perm (b.acquired.map fun d => d.map fun i => (i, 0)) := by
  have hlast : ∀ i ∈ List.range b.module.state.deviceCount,
      b.lastInit (addr i) = (b.device i).map fun d => (d, (0 : ℤ)) := by
    intro i hi
    obtain ⟨d, hd⟩ := h.live i (List.mem_range.1 hi)
    rw [hd.lastInit, hd.device]
    rfl
  rw [Bank.asks, Bank.acquired, List.map_map]
  split_ifs with hzero
  · rw [hzero]
    exact List.Perm.refl _
  · refine ((goRound_perm _ _).map _).trans ?_
    rw [List.map_congr_left hlast]
    rfl

end Runs

/-- Whatever devices there are and whatever requests have been made, with whatever answers, `random_hardware_init` and
`random_get_bytes` in any order.

* If there are devices, there are at most four, and the next context is one of those in use: it was last initialised
  for a device that the module holds a resource of, and that succeeded.
* The devices that the module has acquired are different devices.
* Let more requests follow, none of which acquires a device, and as many of which are valid requests for bytes as there
  are devices. Then the calls of `virtio_rng_read` are made with the contexts of these devices, once for each. -/
theorem turns_spec (addr : ℕ ↪ ℕ) (devices : List (Device String)) (requests : List Request) :
    ∃ turns b, Bank.execAll addr requests (.start devices) = some (turns, b) ∧
      b.module.state.deviceCount ≤ 4 ∧
      (0 < b.module.state.deviceCount → b.module.state.nextDeviceIndex < b.module.state.deviceCount ∧
        ∃ d, b.Live addr b.module.state.nextDeviceIndex d) ∧
      b.acquired.length = b.module.state.deviceCount ∧ b.acquired.Nodup ∧ none ∉ b.acquired ∧
      ∀ more, ∃ turns' b', Bank.execAll addr more b = some (turns', b') ∧
        ((∀ t ∈ turns', t.acquires = false) → more.countP Request.valid = b.module.state.deviceCount →
          (turns'.flatMap Turn.uses).Perm (b.acquired.map fun d => d.map fun i => (i, 0))) := by
  obtain ⟨turns, b, hrun, hinv, -⟩ := execAll_round addr.injective (Bank.Inv.start addr devices) requests
  refine ⟨turns, b, hrun, hinv.count_le, fun hpos => ?_, by simp [Bank.acquired], hinv.acquired_nodup addr.injective,
    ?_, fun more => ?_⟩
  · have hnext := hinv.next
    have hlt : b.module.state.nextDeviceIndex < b.module.state.deviceCount := by omega
    exact ⟨hlt, hinv.live _ hlt⟩
  · intro hmem
    obtain ⟨i, hi, hnone⟩ := List.mem_map.1 hmem
    obtain ⟨d, hd⟩ := hinv.live i (List.mem_range.1 hi)
    rw [hd.device] at hnone
    cases hnone
  · obtain ⟨turns', b', hmore, -, hround⟩ := execAll_round addr.injective hinv more
    refine ⟨turns', b', hmore, fun hnone hcount => ?_⟩
    rw [(hround hnone).uses, hcount]
    exact hinv.asks_perm

end Yasouos.Apps.Random
