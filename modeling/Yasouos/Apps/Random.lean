import Yasouos.Theory.Indexed
import Yasouos.Drivers.VirtioInit
import Yasouos.Drivers.VirtioRngPrompt

/-!
# Random bytes

`apps/random/random.c`: `random_hardware_init` acquires a random number generator through
the resource manager, up to four of them, and `random_get_bytes` takes its bytes from the
next of those, in turn, or from a software generator (xorshift64).

## The model

`random_get_bytes` is a program whose operations are the calls of `virtio_rng_read`
(`Read`), each with the number of the context that it is for; the buffer is taken not to be
`NULL`. Every byte that it returns is marked with its source. The contexts, and the memory
that each of them shares with its device, are not seen by it: `random` puts the driver's
program in the place of each of the operations, with as many devices as there are contexts.
They move at any time, and `random_hardware_init` may be called between the calls of
`random_get_bytes`. What `init_context` returns for each device is an argument of the call,
and if it succeeds the context is as the driver expects it. The lines printed are not here.

## What is proved

`getBytes_spec`: with a device and a prompt answer, a call returns what the device wrote
if it asks for at most 64 bytes. The driver gives 64 bytes to a call that asks for more, and
`hardware_read_bytes` takes a number other than its own length, as an `int`, for a failure.
`getBytes_fromHardware_iff` is this for every run.
-/

namespace Yasouos.Apps.Random

open Theory Prog
open Kernel (Device Driver)
open Kernel.Resources (Manager Slot acquireAvailable)
open Drivers

/-! ### The module -/

/-- `MAX_HARDWARE_RNG_DEVICES`. -/
abbrev maxHardwareRngDevices : ℕ := 4

/-- `random_state` without its contexts, and `prng_state`. -/
structure State where
  /-- `resources`. -/
  resources : ℕ → Option Slot
  /-- `device_count`. -/
  deviceCount : ℕ
  /-- `next_device_index`. -/
  nextDeviceIndex : ℕ
  /-- `initialized`. -/
  initialized : Bool
  /-- `prng_state.state`. -/
  prngState : UInt64

/-- Where a byte comes from. -/
inductive Source where
  /-- The random number generator of a context. -/
  | hardware (context : ℕ)
  /-- The software generator. -/
  | software
  deriving DecidableEq

/-- A byte in the caller's buffer. -/
structure Cell where
  /-- Its value. -/
  byte : UInt8
  /-- Its source. -/
  source : Source
  deriving DecidableEq

/-- What a call returns: its return code, and what is at the start of the caller's buffer. -/
structure Ret where
  /-- The return code. -/
  code : ℤ
  /-- The bytes that have been written to the buffer. -/
  buffer : List Cell
  deriving DecidableEq

/-- `(int)length`. -/
def asInt (length : ℕ) : ℤ :=
  if length % 2 ^ 32 < 2 ^ 31 then (length % 2 ^ 32 : ℕ) else (length % 2 ^ 32 : ℕ) - 2 ^ 32

/-! ### The software generator -/

/-- `xorshift64`: the number, which is also the new state. -/
def xorshift64 (x : UInt64) : UInt64 :=
  let x := x ^^^ (x <<< 13)
  let x := x ^^^ (x >>> 7)
  x ^^^ (x <<< 17)

/-- The base seed. -/
def baseSeed : UInt64 := 0x123456789ABCDEF0

/-- A device is mixed into the seed. -/
def mixDevice (seed : UInt64) (device : Device String) : UInt64 :=
  let seed := seed ^^^ UInt64.ofNat device.regBase
  let seed := seed ^^^ (UInt64.ofNat device.vendorId <<< 32)
  let seed := seed ^^^ (UInt64.ofNat device.deviceId <<< 16)
  (seed <<< 7) ||| (seed >>> 57)

/-- `prng_init`: the state that it leaves. -/
def prngInit (devices : List (Device String)) : UInt64 :=
  let seed := (devices.take 16).foldl mixDevice baseSeed
  if seed = 0 then baseSeed else seed

/-- The first `n` bytes of a number. -/
def wordCells (val : UInt64) (n : ℕ) : List Cell :=
  (List.range n).map fun i => ⟨(val >>> UInt64.ofNat (i * 8)).toUInt8, .software⟩

/-- `prng_fill_bytes`: the bytes, and the state that it leaves. -/
def prngFillBytes : ℕ → UInt64 → List Cell × UInt64
  | length + 8, state =>
    let val := xorshift64 state
    let rest := prngFillBytes length val
    (wordCells val 8 ++ rest.1, rest.2)
  | 0, state => ([], state)
  | length, state =>
    let val := xorshift64 state
    (wordCells val length, val)

/-! ### Getting bytes -/

/-- A call of `virtio_rng_read`. -/
structure Read where
  /-- The number of the context. -/
  context : ℕ
  /-- How many bytes it asks for. -/
  size : ℕ

/-- A program that calls `virtio_rng_read`. -/
abbrev App := Prog Read fun _ => VirtioRng.Ret

/-- The buffer is filled by the software generator. -/
def software (length : ℕ) (s : State) : State × Ret :=
  let (cells, prngState) := prngFillBytes length s.prngState
  ({ s with prngState }, ⟨asInt length, cells⟩)

/-- `hardware_read_bytes`. -/
def hardwareReadBytes (ctx : Option ℕ) (length : ℕ) (s : State) : App (State × Ret) :=
  match ctx with
  | none => return software length s
  | some i => do
    let result : VirtioRng.Ret ← (perform (Read.mk i length) : App VirtioRng.Ret)
    if result.code = asInt length then
      return (s, ⟨result.code, result.buffer.map fun b => ⟨b, .hardware i⟩⟩)
    else return software length s

/-- The software generator is initialised on first use. -/
def State.ensureInit (devices : List (Device String)) (s : State) : State :=
  if s.initialized then s else { s with prngState := prngInit devices, initialized := true }

/-- `random_get_bytes`. -/
def randomGetBytes (devices : List (Device String)) (length : ℕ) (s : State) : App (State × Ret) :=
  if length = 0 then return (s, ⟨-1, []⟩)
  else
    let s := s.ensureInit devices
    if 0 < s.deviceCount then
      let deviceIdx := s.nextDeviceIndex
      let s := { s with nextDeviceIndex := (s.nextDeviceIndex + 1) % s.deviceCount }
      hardwareReadBytes (some deviceIdx) length s
    else return software length s

/-! ### Acquiring devices -/

/-- The module, and the resource manager that it calls. -/
structure Module where
  /-- The resource manager. -/
  manager : Manager String
  /-- The module's own variables. -/
  state : State

/-- The module at boot. -/
def Module.start (devices : List (Device String)) : Module :=
  ⟨Kernel.Resources.start devices, ⟨fun _ => none, 0, 0, false, 0⟩⟩

/-- `virtio_rng_get_driver`. -/
abbrev rngDriver : Kernel.Driver String := VirtioInit.Virtio.driver .rng

/-- A device has been acquired. -/
def State.acquired (s : State) (resource : Slot) : State :=
  { s with
    resources := Function.update s.resources s.deviceCount (some resource)
    deviceCount := s.deviceCount + 1 }

/-- `random_hardware_init`; `addr` says where the contexts are, and `init` what `init_context` returns for each
device. -/
def randomHardwareInit (addr : ℕ → ℕ) (init : ℕ → ℤ) (m : Module) : Option (ℤ × Module) :=
  if maxHardwareRngDevices ≤ m.state.deviceCount then some (-1, m)
  else do
    let deviceIdx := m.state.deviceCount
    let (resource, _, manager) ←
      acquireAvailable (some (VirtioInit.Virtio.driver .rng)) (some (addr deviceIdx)) init m.manager
    match resource with
    | some resource => return (0, ⟨manager, m.state.acquired resource⟩)
    | none => return (-1, ⟨manager, m.state⟩)

/-! ### The module with its driver -/

/-- The module, with the part of the contexts that only the driver uses. -/
structure Driven extends Module where
  /-- `rng_contexts`. -/
  contexts : ℕ → VirtioRng.Ctx

/-- A call of the module. -/
inductive Call where
  /-- `random_hardware_init`, with what `init_context` will return. -/
  | hardwareInit (init : ℕ → ℤ)
  /-- `random_get_bytes`. -/
  | getBytes (length : ℕ)

/-- An access of the driver, for a context. -/
abbrev Op : Type := ℕ × VirtioRng.Op

/-- What an access answers. -/
abbrev Ans (o : Op) : Type := VirtioRng.Ans o.2

/-- A call of `virtio_rng_read` is run by the driver. -/
def runRead (o : Read) (contexts : ℕ → VirtioRng.Ctx) : Prog Op Ans ((ℕ → VirtioRng.Ctx) × VirtioRng.Ret) := do
  let (ctx, result) ← (VirtioRng.virtioRngRead o.size (contexts o.context)).onDevice o.context
  return (Function.update contexts o.context ctx, result)

/-- `random_get_bytes`, with the driver. -/
def Driven.getBytes (length : ℕ) (m : Driven) : Prog Op Ans (Driven × Ret) := do
  let (contexts, state, result) ← (randomGetBytes m.manager.devices length m.state).expand runRead m.contexts
  return (⟨⟨m.manager, state⟩, contexts⟩, result)

/-- A context that `init_context` has initialised: the queue has been zeroed. -/
def initialised (ctx : VirtioRng.Ctx) : VirtioRng.Ctx := { ctx with initialized := true, lastUsedIdx := 0 }

/-- `random_hardware_init`, with the driver. The loops of the resource manager end in every state that it gets into
(`Kernel.Resources.acquire_spec`), so the first case does not come up. -/
def Driven.hardwareInit (addr : ℕ → ℕ) (init : ℕ → ℤ) (m : Driven) : Driven × Ret :=
  match randomHardwareInit addr init m.toModule with
  | none => (m, ⟨-1, []⟩)
  | some (code, next) =>
    let i := m.state.deviceCount
    (⟨next, if code = 0 then Function.update m.contexts i (initialised (m.contexts i)) else m.contexts⟩, ⟨code, []⟩)

/-- The memory of the contexts, shared with the devices. -/
abbrev Mem : Type := ℕ → VirtioRng.Mem

/-- The module, its driver and the devices. -/
def random (addr : ℕ → ℕ) : System Op Ans Mem (ℕ × VirtioRng.Dev) Call Driven Ret where
  toMachine := VirtioRng.rng.toMachine.indexed
  body
    | .hardwareInit init, m => return m.hardwareInit addr init
    | .getBytes length, m => m.getBytes length

/-- A context that has not been initialised. -/
def zeroCtx : VirtioRng.Ctx := ⟨false, 0, fun _ => false⟩

/-- Its memory. -/
def zeroMem : VirtioRng.Mem := ⟨Virtqueue.zero, fun _ => 0, 0, [], []⟩

/-- The module at boot. -/
def start (devices : List (Device String)) : Cfg Op Ans Mem Call Driven Ret :=
  .start ⟨.start devices, fun _ => zeroCtx⟩ fun _ => zeroMem

/-- The device of a context has answered every request in time, and with as many bytes as it asks for. -/
def Prompt (_ : Call) (o : Op) (s : Mem) : Prop := VirtioRng.Prompt o.2 (s o.1)

instance (k : Call) (o : Op) (s : Mem) : Decidable (Prompt k o s) :=
  inferInstanceAs (Decidable (VirtioRng.Prompt o.2 (s o.1)))

/-- What the driver promises of an access. -/
def Promise (o : Op) (s : Mem) : Prop := VirtioRng.Promise o.2 (s o.1)

/-- **Every byte returned comes from a hardware device**: it is one that the device of a context wrote for a
request. -/
def FromHardware (s : Mem) (r : Ret) : Prop :=
  ∀ cell ∈ r.buffer, ∃ i, cell.source = .hardware i ∧ ∃ a ∈ (s i).done, cell.byte ∈ a.bytes

/-- The length is one that the driver can serve in one request, or one that is taken for such a length once it is
an `int`. -/
def Served (length : ℕ) : Prop := length ≤ VirtioRng.bufferSize ∨ length % 2 ^ 32 = VirtioRng.bufferSize

/-! ### The software generator fills the buffer -/

theorem prngFillBytes_cells (length : ℕ) (state : UInt64) :
    (prngFillBytes length state).1.length = length ∧
      ∀ cell ∈ (prngFillBytes length state).1, cell.source = .software := by
  have hword : ∀ (val : UInt64) (n : ℕ), (wordCells val n).length = n ∧
      ∀ cell ∈ wordCells val n, cell.source = .software := by
    intro val n
    simp [wordCells]
  induction length, state using prngFillBytes.induct with
  | case1 length state val ih =>
    obtain ⟨hlen, hcells⟩ := ih
    refine ⟨?_, ?_⟩
    · show (wordCells val 8 ++ (prngFillBytes length val).1).length = length + 8
      rw [List.length_append, (hword val 8).1, hlen, Nat.add_comm]
    · intro cell hc
      rcases List.mem_append.1 hc with hc | hc
      · exact (hword val 8).2 cell hc
      · exact hcells cell hc
  | case2 state => simp [prngFillBytes]
  | case3 state length hne hzero =>
    rw [prngFillBytes]
    · exact hword _ _
    · exact hne
    · exact hzero

/-- What the driver gives, as the length that was asked for. -/
theorem min_eq_asInt_iff (length : ℕ) : ((min length VirtioRng.bufferSize : ℕ) : ℤ) = asInt length ↔ Served length := by
  rw [asInt, Served]
  simp only [VirtioRng.bufferSize]
  split_ifs <;> omega

/-! ### A call -/

section Calls

variable {addr : ℕ → ℕ} {m : Driven} {s s' : Mem} {length : ℕ} {log : List (Done Call Driven Ret)}

@[simp] theorem deviceCount_ensureInit (devices : List (Device String)) (t : State) :
    (t.ensureInit devices).deviceCount = t.deviceCount := by
  unfold State.ensureInit
  split_ifs <;> rfl

@[simp] theorem nextDeviceIndex_ensureInit (devices : List (Device String)) (t : State) :
    (t.ensureInit devices).nextDeviceIndex = t.nextDeviceIndex := by
  unfold State.ensureInit
  split_ifs <;> rfl

@[simp] theorem resources_ensureInit (devices : List (Device String)) (t : State) :
    (t.ensureInit devices).resources = t.resources := by
  unfold State.ensureInit
  split_ifs <;> rfl

/-- A hardware read is one call of the driver, and what is made of its answer. -/
theorem runOn_hardwareReadBytes {σ : Type} (exec : Read → σ → VirtioRng.Ret × σ) (i length : ℕ) (t : State) (x : σ) :
    (hardwareReadBytes (some i) length t).runOn exec x =
      (if (exec ⟨i, length⟩ x).1.code = asInt length then
        (t, ⟨(exec ⟨i, length⟩ x).1.code, (exec ⟨i, length⟩ x).1.buffer.map fun b => ⟨b, .hardware i⟩⟩)
      else software length t, (exec ⟨i, length⟩ x).2) := by
  show ((if (exec ⟨i, length⟩ x).1.code = asInt length then ret _ else ret _ : App (State × Ret))).runOn _ _ = _
  split_ifs <;> rfl

/-- The next device is selected. -/
def State.select (s : State) : State := { s with nextDeviceIndex := (s.nextDeviceIndex + 1) % s.deviceCount }

/-- With a device, `random_get_bytes` is a hardware read. -/
theorem randomGetBytes_of_device {devices : List (Device String)} {t : State} (hlen : length ≠ 0)
    (hdev : 0 < t.deviceCount) :
    randomGetBytes devices length t =
      hardwareReadBytes (some (t.ensureInit devices).nextDeviceIndex) length (t.ensureInit devices).select := by
  rw [randomGetBytes, if_neg hlen]
  exact if_pos ((deviceCount_ensureInit devices t).symm ▸ hdev)

/-- Without one, it is left to the software generator. -/
theorem randomGetBytes_of_none {devices : List (Device String)} {t : State} (hlen : length ≠ 0)
    (hdev : t.deviceCount = 0) : randomGetBytes devices length t = ret (software length (t.ensureInit devices)) := by
  rw [randomGetBytes, if_neg hlen]
  exact if_neg (by simp [hdev])

/-- The module's variables once the software generator is initialised. -/
def Driven.ready (m : Driven) : State := m.state.ensureInit m.manager.devices

@[simp] theorem deviceCount_ready (m : Driven) : m.ready.deviceCount = m.state.deviceCount :=
  deviceCount_ensureInit _ _

@[simp] theorem nextDeviceIndex_ready (m : Driven) : m.ready.nextDeviceIndex = m.state.nextDeviceIndex :=
  nextDeviceIndex_ensureInit _ _

/-- The state that a hardware read starts in. -/
def Driven.selected (m : Driven) : State := m.ready.select

/-- What is made of the driver's answer. -/
def Driven.answered (m : Driven) (length : ℕ) (x : VirtioRng.Ctx × VirtioRng.Ret) : Driven × Ret :=
  let i := m.ready.nextDeviceIndex
  let r : State × Ret :=
    if x.2.code = asInt length then (m.selected, ⟨x.2.code, x.2.buffer.map fun b => ⟨b, .hardware i⟩⟩)
    else software length m.selected
  (⟨⟨m.manager, r.1⟩, Function.update m.contexts i x.1⟩, r.2)

/-- With a device, a call is a call of the driver. -/
theorem getBytes_of_device (hlen : length ≠ 0) (hdev : 0 < m.state.deviceCount) :
    m.getBytes length =
      (VirtioRng.virtioRngRead length (m.contexts m.ready.nextDeviceIndex)).onDevice m.ready.nextDeviceIndex >>=
        fun x => ret (m.answered length x) := by
  rw [Driven.getBytes, randomGetBytes_of_device hlen hdev]
  simp only [hardwareReadBytes, perform_bind, expand, runRead, Prog.bind_assoc]
  congr 1
  funext x
  by_cases hcode : x.2.code = asInt length
  · simp [Driven.answered, Driven.selected, Driven.ready, hcode, expand]
  · simp [Driven.answered, Driven.selected, Driven.ready, hcode, expand]

theorem getBytes_of_none (hlen : length ≠ 0) (hdev : m.state.deviceCount = 0) :
    m.getBytes length = ret (⟨⟨m.manager, (software length m.ready).1⟩, m.contexts⟩, (software length m.ready).2) := by
  rw [Driven.getBytes, randomGetBytes_of_none hlen hdev]
  rfl

theorem getBytes_zero : m.getBytes 0 = ret (m, ⟨-1, []⟩) := rfl

/-! ### The invariant -/

/-- The context of a device that was acquired is as the driver leaves it between calls; the others have not been
used. -/
def Own (m : Driven) (i : ℕ) (t : VirtioRng.Mem) : Prop :=
  (i < m.state.deviceCount ∧ ∃ log, VirtioRng.Inv log (m.contexts i) t) ∨
    (m.state.deviceCount ≤ i ∧ m.contexts i = zeroCtx ∧ t = zeroMem)

theorem Own.stable (m : Driven) (i : ℕ) : VirtioRng.rng.Stable (Own m i) := by
  rintro e t t' (⟨hi, log, h⟩ | ⟨hi, hctx, rfl⟩) he
  · exact .inl ⟨hi, log, VirtioRng.Inv.stable log _ e t t' h he⟩
  · have hfrozen : VirtioRng.Frozen zeroMem := ⟨rfl, rfl⟩
    exact .inr ⟨hi, hctx, hfrozen.stable e _ _ rfl he⟩

/-- What has been answered stays answered. -/
def Grown (done : List VirtioRng.Completion) (t : VirtioRng.Mem) : Prop := done <+: t.done

theorem Grown.stable (done : List VirtioRng.Completion) : VirtioRng.rng.Stable (Grown done) := by
  intro e t t' h he
  obtain ⟨l, hl⟩ := VirtioRng.device_done he
  rw [Grown, hl]
  exact h.trans (List.prefix_append _ _)

theorem Grown.exec {done : List VirtioRng.Completion} (o : VirtioRng.Op) (t : VirtioRng.Mem) (h : Grown done t) :
    Grown done (VirtioRng.exec o t).2 := by
  rw [Grown, VirtioRng.exec_done]
  exact h

/-- What is known of a call that has returned: if there was a device, its bytes are those of a device, or there is
one of the software generator among them. -/
def Logged (s : Mem) (e : Done Call Driven Ret) : Prop :=
  ∀ length, e.call = .getBytes length → 0 < e.before.state.deviceCount →
    (Served length → FromHardware s e.result) ∧
      (¬ Served length → ∃ cell ∈ e.result.buffer, cell.source = .software)

theorem FromHardware.mono {r : Ret} (h : FromHardware s r) (hs : ∀ i, Grown (s i).done (s' i)) : FromHardware s' r := by
  intro cell hc
  obtain ⟨i, hi, a, ha, hb⟩ := h cell hc
  exact ⟨i, hi, a, (hs i).subset ha, hb⟩

theorem Logged.mono {e : Done Call Driven Ret} (h : Logged s e) (hs : ∀ i, Grown (s i).done (s' i)) : Logged s' e := by
  intro length hcall hdev
  obtain ⟨hserved, hnot⟩ := h length hcall hdev
  exact ⟨fun hl => (hserved hl).mono hs, hnot⟩

/-- The invariant between calls. -/
structure Kept (log : List (Done Call Driven Ret)) (m : Driven) (s : Mem) : Prop where
  next : m.state.nextDeviceIndex < m.state.deviceCount ∨ (m.state.deviceCount = 0 ∧ m.state.nextDeviceIndex = 0)
  own : ∀ i, Own m i (s i)
  logged : ∀ e ∈ log, Logged s e

/-- The answers of every device are still there after a move. -/
theorem grown_of_env {e : ℕ × VirtioRng.Dev} (he : (random addr).env e s = some s') : ∀ i, Grown (s i).done (s' i) :=
  Machine.Stable.indexed (B := fun i => Grown (s i).done) (fun _ => Grown.stable _) e s s' (fun _ => List.prefix_rfl) he

theorem Kept.stable (log : List (Done Call Driven Ret)) (m : Driven) : (random addr).Stable (Kept log m) := by
  intro e s s' h he
  exact ⟨h.next, Machine.Stable.indexed (Own.stable m) e s s' h.own he, fun d hd =>
    (h.logged d hd).mono (grown_of_env he)⟩

theorem kept_start (devices : List (Device String)) :
    Kept [] ⟨.start devices, fun _ => zeroCtx⟩ fun _ => zeroMem where
  next := .inr ⟨rfl, rfl⟩
  own := fun i => .inr ⟨Nat.zero_le i, rfl, rfl⟩
  logged := by simp

/-- A call that is not a read, or that has no device. -/
theorem Kept.append (h : Kept log m s) {e : Done Call Driven Ret} (he : Logged s e) : Kept (log ++ [e]) m s := by
  refine ⟨h.next, h.own, fun d hd => ?_⟩
  rcases List.mem_append.1 hd with hd | hd
  · exact h.logged d hd
  · obtain rfl := List.mem_singleton.1 hd
    exact he

/-- What `random_hardware_init` does to the module's own variables: nothing, or there is one more device. -/
theorem hardwareInit_cases (addr : ℕ → ℕ) (init : ℕ → ℤ) (m : Driven) :
    ((m.hardwareInit addr init).1.state = m.state ∧ (m.hardwareInit addr init).1.contexts = m.contexts) ∨
      ∃ r, (m.hardwareInit addr init).1.state = m.state.acquired r ∧ (m.hardwareInit addr init).1.contexts =
        Function.update m.contexts m.state.deviceCount (initialised (m.contexts m.state.deviceCount)) := by
  simp only [Driven.hardwareInit, randomHardwareInit]
  by_cases hfull : maxHardwareRngDevices ≤ m.state.deviceCount
  · rw [if_pos hfull]
    exact .inl ⟨rfl, rfl⟩
  · rw [if_neg hfull]
    cases hrun : acquireAvailable (some (VirtioInit.Virtio.driver .rng)) (some (addr m.state.deviceCount)) init
      m.manager with
    | none => exact .inl ⟨rfl, rfl⟩
    | some x =>
      obtain ⟨resource, events, manager⟩ := x
      cases resource with
      | none => exact .inl ⟨rfl, rfl⟩
      | some r => exact .inr ⟨r, rfl, rfl⟩

/-- **`random_hardware_init`** keeps the invariant: a context that is taken has not been used before. -/
theorem Kept.hardwareInit (h : Kept log m s) (init : ℕ → ℤ) : Kept log (m.hardwareInit addr init).1 s := by
  rcases hardwareInit_cases addr init m with ⟨hstate, hctx⟩ | ⟨r, hstate, hctx⟩
  · refine ⟨hstate ▸ h.next, fun i => ?_, h.logged⟩
    rw [Own, hstate, hctx]
    exact h.own i
  · refine ⟨?_, fun i => ?_, h.logged⟩
    · rw [hstate]
      show m.state.nextDeviceIndex < m.state.deviceCount + 1 ∨ _
      have := h.next
      omega
    · rw [Own, hstate, hctx]
      show (i < m.state.deviceCount + 1 ∧ _) ∨ (m.state.deviceCount + 1 ≤ i ∧ _)
      rcases h.own i with ⟨hi, hinv⟩ | ⟨hi, hzero, hmem⟩
      · rw [Function.update_of_ne (by omega)]
        exact .inl ⟨by omega, hinv⟩
      · by_cases heq : i = m.state.deviceCount
        · subst heq
          rw [Function.update_self, hzero, hmem]
          exact .inl ⟨by omega, [], VirtioRng.inv_start⟩
        · rw [Function.update_of_ne heq]
          exact .inr ⟨by omega, hzero, hmem⟩

/-- What a call that had a device returns. -/
theorem logged_answered {x : VirtioRng.Ctx × VirtioRng.Ret} {a : VirtioRng.Completion}
    (ha : a ∈ (s m.ready.nextDeviceIndex).done) (hx : x.2 = ⟨(min length VirtioRng.bufferSize : ℕ), a.bytes⟩) :
    Logged s ⟨.getBytes length, m, (m.answered length x).2, (m.answered length x).1⟩ := by
  intro length' hcall _
  obtain rfl : length = length' := Call.getBytes.inj hcall
  have hcode : x.2.code = asInt length ↔ Served length := by
    rw [hx]
    exact min_eq_asInt_iff length
  constructor
  · intro hserved cell hc
    simp only [Driven.answered, if_pos (hcode.2 hserved), List.mem_map] at hc
    rw [hx] at hc
    obtain ⟨b, hb, rfl⟩ := hc
    exact ⟨_, rfl, a, ha, hb⟩
  · intro hnot
    have hlen : length ≠ 0 := by
      rintro rfl
      exact hnot (.inl (Nat.zero_le _))
    simp only [Driven.answered, if_neg (mt hcode.1 hnot), software]
    obtain ⟨hcells, hsource⟩ := prngFillBytes_cells length m.selected.prngState
    cases hfill : (prngFillBytes length m.selected.prngState).1 with
    | nil => exact absurd (hfill ▸ hcells).symm hlen
    | cons cell cells => exact ⟨cell, by simp, hsource cell (by simp [hfill])⟩

theorem deviceCount_software (length : ℕ) (t : State) : (software length t).1.deviceCount = t.deviceCount := rfl

theorem nextDeviceIndex_software (length : ℕ) (t : State) :
    (software length t).1.nextDeviceIndex = t.nextDeviceIndex := rfl

/-- The state after a call that had a device. -/
theorem answered_state (m : Driven) (length : ℕ) (x : VirtioRng.Ctx × VirtioRng.Ret) :
    (m.answered length x).1.state.deviceCount = m.state.deviceCount ∧
      (m.answered length x).1.state.nextDeviceIndex = (m.state.nextDeviceIndex + 1) % m.state.deviceCount ∧
      (m.answered length x).1.contexts = Function.update m.contexts m.state.nextDeviceIndex x.1 := by
  by_cases hcode : x.2.code = asInt length
  · simp [Driven.answered, hcode, Driven.selected, State.select]
  · simp [Driven.answered, hcode, Driven.selected, State.select, deviceCount_software, nextDeviceIndex_software]

/-- A call that had a device keeps the invariant: the driver's call has kept that of the context it was for, and left
the other contexts alone. -/
theorem Kept.answered (h : Kept log m s) (hdev : 0 < m.state.deviceCount) (hgrow : ∀ j, Grown (s j).done (s' j))
    {x : VirtioRng.Ctx × VirtioRng.Ret} {log₁ : List VirtioRng.Entry}
    (hinv : VirtioRng.Inv log₁ x.1 (s' m.state.nextDeviceIndex))
    (hothers : ∀ j, j ≠ m.state.nextDeviceIndex → Own m j (s' j))
    (hlogged : Logged s' ⟨.getBytes length, m, (m.answered length x).2, (m.answered length x).1⟩) :
    Kept (log ++ [⟨.getBytes length, m, (m.answered length x).2, (m.answered length x).1⟩])
      (m.answered length x).1 s' := by
  have hnext : m.state.nextDeviceIndex < m.state.deviceCount := by
    have := h.next
    omega
  obtain ⟨hcount, hindex, hctx⟩ := answered_state m length x
  refine ⟨.inl ?_, fun j => ?_, fun e he => ?_⟩
  · rw [hcount, hindex]
    exact Nat.mod_lt _ hdev
  · rw [Own, hcount, hctx]
    by_cases hj : j = m.state.nextDeviceIndex
    · subst hj
      rw [Function.update_self]
      exact .inl ⟨hnext, log₁, hinv⟩
    · rw [Function.update_of_ne hj]
      exact hothers j hj
  · rcases List.mem_append.1 he with he | he
    · exact (h.logged e he).mono hgrow
    · obtain rfl := List.mem_singleton.1 he
      exact hlogged

/-- **`random_get_bytes`** keeps the invariant, if the devices are prompt. -/
theorem getBytes_spec (h : Kept log m s) (length : ℕ) :
    (m.getBytes length).Safe (random addr).toMachine (Prompt (.getBytes length)) Promise
      (fun r s' => Kept (log ++ [⟨.getBytes length, m, r.2, r.1⟩]) r.1 s') s := by
  by_cases hlen : length = 0
  · subst hlen
    rw [getBytes_zero]
    refine Safe.ret_of_stable (Kept.stable log m) h fun s' h' => h'.append ?_
    intro length hcall _
    obtain rfl : 0 = length := Call.getBytes.inj hcall
    exact ⟨fun _ => by simp [FromHardware], fun hnot => absurd (.inl (Nat.zero_le _)) hnot⟩
  rcases Nat.eq_zero_or_pos m.state.deviceCount with hdev | hdev
  · rw [getBytes_of_none hlen hdev]
    refine Safe.ret_of_stable (Kept.stable log m) h fun s' h' => ?_
    have hlogged : Logged s' ⟨.getBytes length, m, (software length m.ready).2,
        ⟨⟨m.manager, (software length m.ready).1⟩, m.contexts⟩⟩ := fun _ _ hpos => absurd hpos (by simp [hdev])
    have happ := h'.append hlogged
    refine ⟨?_, fun i => ?_, happ.logged⟩
    · simpa [deviceCount_software, nextDeviceIndex_software] using h'.next
    · simpa [Own, deviceCount_software] using h'.own i
  -- the call is one of the driver for the next context, and the other contexts are left alone
  obtain ⟨log₀, hinv⟩ : ∃ log, VirtioRng.Inv log (m.contexts m.ready.nextDeviceIndex) (s m.ready.nextDeviceIndex) := by
    rw [nextDeviceIndex_ready]
    rcases h.own m.state.nextDeviceIndex with ⟨-, hinv⟩ | ⟨hle, -⟩
    · exact hinv
    · have := h.next
      omega
  have hread := (VirtioRng.read_prompt hinv hlen).and_kept (Grown.stable _) Grown.exec List.prefix_rfl
  have hall := Safe.onDevice (B := fun j t => Own m j t ∧ Grown (s j).done t) hread
    (fun j => (Own.stable m j).and (Grown.stable _)) fun j _ => ⟨h.own j, List.prefix_rfl⟩
  rw [getBytes_of_device hlen hdev]
  refine Safe.bind (hall.mono ?_)
  rintro x s₁ ⟨⟨⟨⟨log₁, hinv₁⟩, a, ha, hx, -⟩, hgrown⟩, hothers⟩
  have hgrow : ∀ j, Grown (s j).done (s₁ j) := by
    intro j
    by_cases hj : j = m.ready.nextDeviceIndex
    · exact hj ▸ hgrown
    · exact (hothers j hj).2
  rw [nextDeviceIndex_ready] at hinv₁ hothers
  refine Safe.ret_of_stable (Kept.stable _ _) (?_ : Kept _ _ s₁) fun s' h' => h'
  exact h.answered hdev hgrow hinv₁ (fun j hj => (hothers j hj).1) (logged_answered ha hx)

end Calls

/-! ### Runs -/

/-- Every call keeps the invariant. -/
theorem body_spec (addr : ℕ → ℕ) (l : List (Done Call Driven Ret)) (k : Call) (m : Driven) (s : Mem) (h : Kept l m s) :
    ((random addr).body k m).Safe (random addr).toMachine (Prompt k) Promise
      (fun r s' => Kept (l ++ [⟨k, m, r.2, r.1⟩]) r.1 s') s := by
  cases k with
  | getBytes length => exact getBytes_spec h length
  | hardwareInit init =>
    refine Safe.ret_of_stable (Kept.stable l m) h fun s' h' => (h'.hardwareInit init).append ?_
    intro length hcall
    cases hcall

/-- In the middle of a call, too, what is known of the calls that have returned still holds. -/
theorem logged_always {addr : ℕ → ℕ} {devices : List (Device String)} {c : Cfg Op Ans Mem Call Driven Ret}
    (h : (random addr).ReachUnder Prompt (start devices) c) : ∀ e ∈ c.log, Logged c.shared e := by
  refine System.reach_always (S := random addr) (J := fun l s => ∀ e ∈ l, Logged s e) (G := fun _ => Promise)
    Kept.stable (body_spec addr) (fun l m s h => h.logged) ?_ ?_ (.start (kept_start devices)) (by simp [Cfg.start]) h
  · intro l e s s' hl he d hd
    exact (hl d hd).mono (grown_of_env he)
  · intro l o s hl d hd
    refine (hl d hd).mono fun i => ?_
    show Grown (s i).done (Function.update s o.1 (VirtioRng.exec o.2 (s o.1)).2 i)
    by_cases hi : i = o.1
    · subst hi
      rw [Function.update_self]
      exact Grown.exec _ _ List.prefix_rfl
    · rw [Function.update_of_ne hi]
      exact List.prefix_rfl

/-- In every run from boot in which the devices are prompt, `random_get_bytes`, called when a hardware random number
generator has been acquired, returns bytes of a hardware device only, exactly if it is asked for at most 64 bytes (or
for a number that is 64 once it is an `int`). -/
theorem getBytes_fromHardware_iff (addr : ℕ → ℕ) (devices : List (Device String)) (c : Cfg Op Ans Mem Call Driven Ret)
    (h : (random addr).ReachUnder Prompt (start devices) c) (e : Done Call Driven Ret) (he : e ∈ c.log) (length : ℕ)
    (hcall : e.call = .getBytes length) (hdev : 0 < e.before.state.deviceCount) :
    FromHardware c.shared e.result ↔ Served length := by
  obtain ⟨hserved, hnot⟩ := logged_always h e he length hcall hdev
  refine ⟨fun hall => ?_, hserved⟩
  by_contra hns
  obtain ⟨cell, hc, hsource⟩ := hnot hns
  obtain ⟨i, hi, -⟩ := hall cell hc
  rw [hsource] at hi
  cases hi

/-- A random number generator. -/
def rngDevice : Device String := ⟨some "virtio,rng", none, 0x10001000, 512, 0, 0, 1⟩

/-- A device is acquired, and asked for `length` bytes; it answers at once. -/
def answeredCall (length : ℕ) (bytes : List UInt8) : List (Event Call (ℕ × VirtioRng.Dev)) :=
  [.call (.hardwareInit fun _ => 0), .tick, .call (.getBytes length)] ++ List.replicate 6 .tick ++
    [.env (0, .take), .env (0, .complete 0 bytes)] ++ List.replicate (bytes.length + 3) .tick

/-- What is seen of the second call of a run: how many bytes it asked for, how many devices there were, and what it
returned. -/
def secondCall (c : Cfg Op Ans Mem Call Driven Ret) : Option (Option ℕ × ℕ × Ret) :=
  c.log[1]?.map fun e =>
    (match e.call with
      | .getBytes length => some length
      | .hardwareInit _ => none, e.before.state.deviceCount, e.result)

theorem secondCall_eq {c : Cfg Op Ans Mem Call Driven Ret} {length count : ℕ} {r : Ret}
    (h : secondCall c = some (some length, count, r)) :
    ∃ e ∈ c.log, e.call = .getBytes length ∧ e.before.state.deviceCount = count ∧ e.result = r := by
  obtain ⟨e, he, hobs⟩ := Option.map_eq_some_iff.mp h
  simp only [Prod.mk.injEq] at hobs
  obtain ⟨hcall, hcount, hr⟩ := hobs
  refine ⟨e, List.mem_of_getElem? he, ?_, hcount, hr⟩
  cases hc : e.call with
  | getBytes n =>
    rw [hc] at hcall
    exact congrArg _ (Option.some.inj hcall)
  | hardwareInit init =>
    rw [hc] at hcall
    cases hcall

/-- A call for two bytes returns those of the device. -/
theorem getBytes_fromHardware_two :
    ∃ c, (random id).runUnder Prompt (start [rngDevice]) (answeredCall 2 [7, 9]) = some c ∧
      secondCall c = some (some 2, 1, ⟨2, [⟨7, .hardware 0⟩, ⟨9, .hardware 0⟩]⟩) ∧
      FromHardware c.shared ⟨2, [⟨7, .hardware 0⟩, ⟨9, .hardware 0⟩]⟩ := by
  obtain ⟨c, hc⟩ : ∃ c, (random id).runUnder Prompt (start [rngDevice]) (answeredCall 2 [7, 9]) = some c :=
    Option.isSome_iff_exists.mp (by decide +kernel)
  have hobs : ((random id).runUnder Prompt (start [rngDevice]) (answeredCall 2 [7, 9])).bind secondCall =
      some (some 2, 1, ⟨2, [⟨7, .hardware 0⟩, ⟨9, .hardware 0⟩]⟩) := by decide +kernel
  rw [hc, Option.bind_some] at hobs
  obtain ⟨e, he, hcall, hcount, hr⟩ := secondCall_eq hobs
  refine ⟨c, hc, hobs, hr ▸ ?_⟩
  exact (getBytes_fromHardware_iff id [rngDevice] c ((random id).reachUnder_of_run Prompt hc) e he 2 hcall
    (by rw [hcount]; decide)).2 (.inl (by decide))

/-- A device answers a call for 65 bytes at once, with the 64 bytes that the driver asks it for; what is returned comes
from the software generator. -/
theorem getBytes_falls_back :
    ¬ ∀ addr devices c, (random addr).ReachUnder Prompt (start devices) c → ∀ e ∈ c.log, ∀ length,
      e.call = .getBytes length → 0 < e.before.state.deviceCount → FromHardware c.shared e.result := by
  intro hall
  obtain ⟨c, hc⟩ : ∃ c, (random id).runUnder Prompt (start [rngDevice]) (answeredCall 65 (List.replicate 64 7)) =
      some c := Option.isSome_iff_exists.mp (by decide +kernel)
  have hobs : ((random id).runUnder Prompt (start [rngDevice]) (answeredCall 65 (List.replicate 64 7))).bind
      secondCall = some (some 65, 1, ⟨65, (prngFillBytes 65 (prngInit [rngDevice])).1⟩) := by decide +kernel
  rw [hc, Option.bind_some] at hobs
  obtain ⟨e, he, hcall, hcount, hr⟩ := secondCall_eq hobs
  have hfrom := hall id [rngDevice] c ((random id).reachUnder_of_run Prompt hc) e he 65 hcall (by rw [hcount]; decide)
  rw [hr] at hfrom
  obtain ⟨hlen, hsource⟩ := prngFillBytes_cells 65 (prngInit [rngDevice])
  obtain ⟨cell, hcell⟩ := List.exists_mem_of_length_pos (hlen.symm ▸ (by decide : 0 < 65))
  obtain ⟨i, hi, -⟩ := hfrom cell hcell
  rw [hsource cell hcell] at hi
  cases hi

end Yasouos.Apps.Random
