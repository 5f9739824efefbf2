import Yasouos.Drivers.VirtioNet
import Yasouos.Drivers.VirtioRng
import Yasouos.Kernel.Resources

/-!
# Bringing up a virtio device

`virtio_net_init_context` and `virtio_rng_init_context`: the driver resets the device,
negotiates features, hands over the pages of its queues and sets `DRIVER_OK`, and after
each of these it reads a register back. `resource_acquire_available` goes on to the next
device when one of these checks fails, with the same context.

## The model

The functions are programs over the device's registers, which are known by their names; a
read is answered by the device, with whatever value it likes. `play` runs such a program
against a sequence of answers, and keeps of what has been written what matters here: the
last value written to `STATUS`, and the page numbers written to `QUEUE_PFN`. What the
functions do in memory, filling the context and the rings, is not here, nor are the delay
loops and the log lines. The page numbers of the context's queues are a parameter.

## What is proved

`givenBack_iff`: a device that fails after its queues were set has been told so exactly if
it was not `DRIVER_OK` that it failed. `noneLive_iff` is this for a whole call of
`resource_acquire_available`.
-/

namespace Yasouos.Drivers.VirtioInit

open Theory Prog
open VirtioNet (Arch Transport)
open Kernel (Device Driver DeviceId)
open Kernel.Resources (Manager acquireAvailable Tried Call execAll)

/-! ### Registers -/

/-- The registers of a virtio device. -/
inductive Reg where
  /-- The version of the interface. -/
  | version
  /-- The features the device offers. -/
  | deviceFeatures
  /-- The features the driver accepts. -/
  | driverFeatures
  /-- The size of a page. -/
  | guestPageSize
  /-- The queue that the other registers are about. -/
  | queueSel
  /-- The largest size of the queue. -/
  | queueNumMax
  /-- The size of the queue. -/
  | queueNum
  /-- The alignment of the used ring. -/
  | queueAlign
  /-- The page that the queue is at. -/
  | queuePfn
  /-- The queue that has something new. -/
  | queueNotify
  /-- The status of the device. -/
  | status
  /-- The configuration of the device. -/
  | config (i : ℕ)
  deriving DecidableEq

/-- An access to a register. -/
inductive Op where
  /-- A register is read. -/
  | read (r : Reg)
  /-- A register is written. -/
  | write (r : Reg) (v : ℕ)

/-- What an access answers. -/
def Ans : Op → Type
  | .read _ => ℕ
  | .write _ _ => Unit

/-- A program over the registers. -/
abbrev Drv := Prog Op Ans

/-- `VIRTIO_STATUS_ACKNOWLEDGE`. -/
abbrev statusAcknowledge : ℕ := 1

/-- `VIRTIO_STATUS_DRIVER`. -/
abbrev statusDriver : ℕ := 2

/-- `VIRTIO_STATUS_DRIVER_OK`. -/
abbrev statusDriverOk : ℕ := 4

/-- `VIRTIO_STATUS_FEATURES_OK`. -/
abbrev statusFeaturesOk : ℕ := 8

/-- `VIRTIO_STATUS_FAILED`. -/
abbrev statusFailed : ℕ := 128

/-- `virtio_read8`, `virtio_read16` and `virtio_read32`: the lower bits of what the device
answers. -/
def readBits (bits : ℕ) (r : Reg) : Drv ℕ := do
  let v : ℕ ← (perform (Op.read r) : Drv ℕ)
  return v % 2 ^ bits

/-- `virtio_write8`, `virtio_write16` and `virtio_write32`. -/
def write (r : Reg) (v : ℕ) : Drv Unit := perform (Op.write r v)

/-- The device is told that the driver has given up. -/
def giveUp : Drv ℤ := do
  write .status statusFailed
  return -1

/-! ### The network driver -/

/-- `virtio_net_init_virtqueue`; `pfn` has the page numbers of the queues. -/
def virtioNetInitVirtqueue (pfn : ℕ → ℕ) (queueIndex : ℕ) : Transport → Drv ℤ
  | .pci => do
    write .queueSel queueIndex
    let maxQueueSize ← readBits 16 .queueNum
    if maxQueueSize = 0 ∨ maxQueueSize < VirtioNet.queueSize then return -1
    else
      write .queuePfn (pfn queueIndex)
      let readbackPfn ← readBits 32 .queuePfn
      if readbackPfn ≠ pfn queueIndex then return -1 else return 0
  | .mmio => do
    write .queueSel queueIndex
    let queueSize ← readBits 32 .queueNumMax
    if queueSize = 0 ∨ queueSize < VirtioNet.queueSize then return -1
    else
      write .queueNum VirtioNet.queueSize
      write .queueAlign 4096
      write .queuePfn (pfn queueIndex)
      let readbackPfn ← readBits 32 .queuePfn
      if readbackPfn ≠ pfn queueIndex then return -1 else return 0

/-- `virtio_net_init_context`, up to the check of `FEATURES_OK`. -/
def netFeatures : Drv ℕ := do
  write .status 0
  write .status statusAcknowledge
  write .status (statusAcknowledge ||| statusDriver)
  let _ ← readBits 32 .deviceFeatures
  write .driverFeatures 0
  write .status (statusAcknowledge ||| statusDriver ||| statusFeaturesOk)
  readBits 8 .status

/-- The MAC address is read. -/
def readMac : Drv (List ℕ) := (List.range 6).mapM fun i => readBits 8 (.config i)

/-- What is written to `STATUS` last: there is no `FEATURES_OK` on PCI. -/
def lastStatus : Transport → ℕ
  | .mmio => statusAcknowledge ||| statusDriver ||| statusFeaturesOk ||| statusDriverOk
  | .pci => statusAcknowledge ||| statusDriver ||| statusDriverOk

/-- The end of `virtio_net_init_context`, once the queues are set. On MMIO the device is
notified of the receive buffers. -/
def netDriverOk (tr : Transport) : Drv ℤ := do
  write .status (lastStatus tr)
  let status ← readBits 8 .status
  if status &&& statusDriverOk = 0 then return -1
  else
    if tr = .mmio then write .queueNotify 0
    let _ ← readMac
    return 0

/-- `virtio_net_init_context`. -/
def virtioNetInitContext (pfn : ℕ → ℕ) (tr : Transport) : Drv ℤ := do
  let status ← netFeatures
  if status &&& statusFeaturesOk = 0 then giveUp
  else
    if tr = .mmio then write .guestPageSize 4096
    let rx ← virtioNetInitVirtqueue pfn 0 tr
    if rx ≠ 0 then giveUp
    else
      let tx ← virtioNetInitVirtqueue pfn 1 tr
      if tx ≠ 0 then giveUp else netDriverOk tr

/-! ### The driver of the random number generator -/

/-- `virtio_rng_init_context`, up to the check of `FEATURES_OK`: whether to go on. -/
def rngFeatures : Transport → Drv Bool
  | .pci => do
    write .status 0
    write .status statusAcknowledge
    write .status (statusAcknowledge ||| statusDriver)
    let _ ← readBits 32 .deviceFeatures
    write .driverFeatures 0
    return true
  | .mmio => do
    write .status 0
    write .status statusAcknowledge
    write .status (statusAcknowledge ||| statusDriver)
    let _ ← readBits 32 .deviceFeatures
    write .driverFeatures 0
    write .status (statusAcknowledge ||| statusDriver ||| statusFeaturesOk)
    let status ← readBits 8 .status
    return decide (status &&& statusFeaturesOk ≠ 0)

/-- The size of the queue is read. -/
def rngQueueSize : Transport → Drv ℕ
  | .pci => readBits 16 .queueNum
  | .mmio => readBits 32 .queueNumMax

/-- The end of `virtio_rng_init_context`, once the queue is set. -/
def rngDriverOk (tr : Transport) : Drv ℤ := do
  write .status (lastStatus tr)
  let status ← readBits 8 .status
  if status &&& statusDriverOk = 0 then return -1 else return 0

/-- The queue of `virtio_rng_init_context`, and what comes after it. -/
def rngQueue (pfn : ℕ → ℕ) (version : ℕ) (tr : Transport) : Drv ℤ := do
  if version = 1 ∧ tr = .mmio then write .guestPageSize 4096
  write .queueSel 0
  let queueSize ← rngQueueSize tr
  if queueSize = 0 ∨ queueSize < VirtioRng.queueSize then giveUp
  else
    write .queueNum VirtioRng.queueSize
    if version = 1 then
      if tr = .mmio then write .queueAlign 4096
      write .queuePfn (pfn 0)
      let readbackPfn ← readBits 32 .queuePfn
      if readbackPfn ≠ pfn 0 then giveUp else rngDriverOk tr
    else giveUp

/-- `virtio_rng_init_context`. A device on PCI is taken to have version 1. -/
def virtioRngInitContext (pfn : ℕ → ℕ) (tr : Transport) : Drv ℤ := do
  let version ← readBits 32 .version
  if tr = .mmio ∧ version ≠ 1 ∧ version ≠ 2 then return -1
  else
    let version := if tr = .pci then 1 else version
    let ok ← rngFeatures tr
    if ok then rngQueue pfn version tr else giveUp

/-! ### Running against a device -/

/-- What has been written to a device. -/
structure Written where
  /-- The last value written to `STATUS`. -/
  status : Option ℕ
  /-- The values written to `QUEUE_PFN`. -/
  queuePfn : List ℕ
  deriving DecidableEq

/-- A register is written. -/
def Written.add (w : Written) : Reg → ℕ → Written
  | .status, v => { w with status := some v }
  | .queuePfn, v => { w with queuePfn := w.queuePfn ++ [v] }
  | _, _ => w

/-- What an access does to a device whose reads are answered by `answers`. Kept are how many of
them have been given, and what has been written. -/
def respond (answers : ℕ → ℕ) : (o : Op) → ℕ × Written → Ans o × ℕ × Written
  | .read _, s => (answers s.1, s.1 + 1, s.2)
  | .write r v, s => ((), s.1, s.2.add r v)

/-- Run a program against a device whose reads are answered by `answers`, from number `n`
on: the result, how many reads have been answered, and what has been written. -/
def play {α : Type} (answers : ℕ → ℕ) (p : Drv α) (n : ℕ) (w : Written) : α × ℕ × Written :=
  p.runOn (respond answers) (n, w)

section Play

variable {α β : Type} (answers : ℕ → ℕ) (n : ℕ) (w : Written)

@[simp] theorem play_ret (a : α) : play answers (.ret a) n w = (a, n, w) := rfl

@[simp] theorem play_bind (p : Drv α) (f : α → Drv β) :
    play answers (p >>= f) n w =
      play answers (f (play answers p n w).1) (play answers p n w).2.1 (play answers p n w).2.2 :=
  runOn_bind (respond answers) p f (n, w)

@[simp] theorem play_readBits (bits : ℕ) (r : Reg) :
    play answers (readBits bits r) n w = (answers n % 2 ^ bits, n + 1, w) := (rfl)

@[simp] theorem play_write (r : Reg) (v : ℕ) : play answers (write r v) n w = ((), n, w.add r v) := (rfl)

@[simp] theorem play_giveUp : play answers giveUp n w = (-1, n, { w with status := some statusFailed }) := rfl

theorem play_ite (c : Prop) [Decidable c] (p q : Drv α) :
    play answers (if c then p else q) n w = if c then play answers p n w else play answers q n w :=
  runOn_ite (respond answers) c p q (n, w)

end Play

/-! ### What a device has to answer -/

section Answers

variable (pfn : ℕ → ℕ) (tr : Transport) (answers : ℕ → ℕ)

/-- How wide the register is that the size of a queue is read from. -/
def sizeBits : Transport → ℕ
  | .pci => 16
  | .mmio => 32

/-- Answers `n` and `n + 1` make a queue: it is large enough, and its page is read back. -/
def QueueOk (queueSize queueIndex n : ℕ) : Prop :=
  queueSize ≤ answers n % 2 ^ sizeBits tr ∧ answers (n + 1) % 2 ^ 32 = pfn queueIndex

/-- Answer `n` has the bit of `STATUS`. -/
def StatusHas (bit n : ℕ) : Prop := answers n % 2 ^ 8 &&& bit ≠ 0

/-- The answers pass every check of `virtio_net_init_context` before the last. -/
def NetPasses : Prop :=
  StatusHas answers statusFeaturesOk 1 ∧ QueueOk pfn tr answers VirtioNet.queueSize 0 2 ∧
    QueueOk pfn tr answers VirtioNet.queueSize 1 4

/-- The answers pass the last check of `virtio_net_init_context`. -/
def NetReady : Prop := StatusHas answers statusDriverOk 6

/-- The answers pass every check of `virtio_rng_init_context` before the last. -/
def RngPasses : Transport → Prop
  | .pci => QueueOk pfn .pci answers VirtioRng.queueSize 0 2
  | .mmio => answers 0 % 2 ^ 32 = 1 ∧ StatusHas answers statusFeaturesOk 2 ∧
      QueueOk pfn .mmio answers VirtioRng.queueSize 0 3

/-- The answers pass the last check of `virtio_rng_init_context`. -/
def RngReady : Transport → Prop
  | .pci => StatusHas answers statusDriverOk 4
  | .mmio => StatusHas answers statusDriverOk 5

/-- How a device that has answered is left: if it has passed the checks before the last one,
its queues are set, and it has been told so; if not, it has been told that the driver has
given up, or it has never been given a queue. -/
def Left (passes ready : Prop) (r : ℤ × ℕ × Written) : Prop :=
  (passes → (r.1 = 0 ↔ ready) ∧ r.2.2.queuePfn ≠ [] ∧ r.2.2.status = some (lastStatus tr)) ∧
    (¬ passes → r.1 ≠ 0 ∧ (r.2.2.status = some statusFailed ∨ r.2.2.queuePfn = []))

variable (n : ℕ) (w : Written)

theorem play_netFeatures :
    play answers netFeatures n w = (answers (n + 1) % 2 ^ 8, n + 2, { w with status := some 11 }) := (rfl)

/-- A queue that is set. -/
theorem play_initVirtqueue_of_ok {queueIndex : ℕ} (h : QueueOk pfn tr answers VirtioNet.queueSize queueIndex n) :
    play answers (virtioNetInitVirtqueue pfn queueIndex tr) n w =
      (0, n + 2, { w with queuePfn := w.queuePfn ++ [pfn queueIndex] }) := by
  have hsize : ¬ (answers n % 2 ^ sizeBits tr = 0 ∨ answers n % 2 ^ sizeBits tr < VirtioNet.queueSize) := by
    have := h.1
    simp only [VirtioNet.queueSize] at *
    omega
  cases tr <;> simp only [virtioNetInitVirtqueue, play_bind, play_write, play_readBits, play_ite, pure_eq, play_ret,
    Written.add, ite_not]
  · exact (if_neg hsize).trans (if_pos h.2)
  · exact (if_neg hsize).trans (if_pos h.2)

/-- A queue that is not. -/
theorem play_initVirtqueue_of_not {queueIndex : ℕ} (h : ¬ QueueOk pfn tr answers VirtioNet.queueSize queueIndex n) :
    (play answers (virtioNetInitVirtqueue pfn queueIndex tr) n w).1 = -1 := by
  by_cases hsize : answers n % 2 ^ sizeBits tr = 0 ∨ answers n % 2 ^ sizeBits tr < VirtioNet.queueSize
  · cases tr <;> simp only [virtioNetInitVirtqueue, play_bind, play_write, play_readBits, play_ite, pure_eq, play_ret,
      Written.add]
    · exact congrArg Prod.fst (if_pos hsize)
    · exact congrArg Prod.fst (if_pos hsize)
  · have hpfn : ¬ answers (n + 1) % 2 ^ 32 = pfn queueIndex := fun hpfn => h ⟨by omega, hpfn⟩
    cases tr <;> simp only [virtioNetInitVirtqueue, play_bind, play_write, play_readBits, play_ite, pure_eq, play_ret,
      Written.add, ite_not]
    · exact congrArg Prod.fst ((if_neg hsize).trans (if_neg hpfn))
    · exact congrArg Prod.fst ((if_neg hsize).trans (if_neg hpfn))

theorem play_readMac : (play answers readMac n w).2.2 = w := (rfl)

/-- Setting `DRIVER_OK`. -/
theorem play_netDriverOk :
    ((play answers (netDriverOk tr) n w).1 = 0 ↔ StatusHas answers statusDriverOk n) ∧
      (play answers (netDriverOk tr) n w).2.2 = { w with status := some (lastStatus tr) } := by
  simp only [netDriverOk, play_bind, play_write, play_readBits, play_ite, pure_eq, play_ret, Written.add, play_readMac]
  by_cases h : StatusHas answers statusDriverOk n
  · simp only [if_neg h]
    cases tr <;> exact ⟨iff_of_true rfl h, rfl⟩
  · simp only [if_pos (not_not.mp h)]
    exact ⟨iff_of_false (by decide) h, trivial⟩

/-- A device that has failed a check, and has been told. -/
theorem left_giveUp {passes ready : Prop} (h : ¬ passes) (pfns : List ℕ) :
    Left tr passes ready (-1, n, ⟨some statusFailed, pfns⟩) :=
  ⟨fun h' => absurd h' h, fun _ => ⟨by simp, .inl rfl⟩⟩

/-- How `virtio_net_init_context` leaves a device. -/
theorem left_net :
    Left tr (NetPasses pfn tr answers) (NetReady answers) (play answers (virtioNetInitContext pfn tr) 0 ⟨none, []⟩) := by
  simp only [virtioNetInitContext, play_bind, play_netFeatures, play_ite, play_giveUp]
  by_cases hfeatures : StatusHas answers statusFeaturesOk 1
  · simp only [if_neg hfeatures, play_write, Written.add, ite_self]
    by_cases hrx : QueueOk pfn tr answers VirtioNet.queueSize 0 2
    · simp only [play_initVirtqueue_of_ok pfn tr answers 2 _ hrx, ne_eq, not_true, if_false]
      by_cases htx : QueueOk pfn tr answers VirtioNet.queueSize 1 4
      · simp only [play_initVirtqueue_of_ok pfn tr answers 4 _ htx, not_true, if_false]
        obtain ⟨hcode, hleft⟩ := play_netDriverOk tr answers 6 ⟨some 11, [] ++ [pfn 0] ++ [pfn 1]⟩
        refine ⟨fun _ => ⟨hcode, ?_⟩, fun h => absurd ⟨hfeatures, hrx, htx⟩ h⟩
        rw [hleft]
        exact ⟨by simp, rfl⟩
      · simp only [play_initVirtqueue_of_not pfn tr answers 4 _ htx]
        rw [if_pos (by decide)]
        exact left_giveUp tr _ (fun h => htx h.2.2) _
    · simp only [play_initVirtqueue_of_not pfn tr answers 2 _ hrx]
      rw [if_pos (by decide)]
      exact left_giveUp tr _ (fun h => hrx h.2.1) _
  · simp only [if_pos (not_not.mp hfeatures)]
    exact left_giveUp tr _ (fun h => hfeatures h.1) _

/-- Setting `DRIVER_OK`. -/
theorem play_rngDriverOk :
    ((play answers (rngDriverOk tr) n w).1 = 0 ↔ StatusHas answers statusDriverOk n) ∧
      (play answers (rngDriverOk tr) n w).2.2 = { w with status := some (lastStatus tr) } := by
  simp only [rngDriverOk, play_bind, play_write, play_readBits, play_ite, pure_eq, play_ret, Written.add]
  by_cases h : StatusHas answers statusDriverOk n
  · simp only [if_neg h]
    exact ⟨iff_of_true trivial h, trivial⟩
  · simp only [if_pos (not_not.mp h)]
    exact ⟨iff_of_false (by decide) h, trivial⟩

theorem play_rngQueueSize :
    play answers (rngQueueSize tr) n w = (answers n % 2 ^ sizeBits tr, n + 1, w) := by
  cases tr <;> simp only [rngQueueSize, play_readBits, sizeBits]

/-- A queue that is set. -/
theorem play_rngQueue_of_ok (h : QueueOk pfn tr answers VirtioRng.queueSize 0 n) :
    ((play answers (rngQueue pfn 1 tr) n w).1 = 0 ↔ StatusHas answers statusDriverOk (n + 2)) ∧
      (play answers (rngQueue pfn 1 tr) n w).2.2 = ⟨some (lastStatus tr), w.queuePfn ++ [pfn 0]⟩ := by
  have hsize : ¬ (answers n % 2 ^ sizeBits tr = 0 ∨ answers n % 2 ^ sizeBits tr < VirtioRng.queueSize) := by
    have := h.1
    simp only [VirtioRng.queueSize] at *
    omega
  have hpfn : ¬ answers (n + 1) % 2 ^ 32 ≠ pfn 0 := not_not.mpr h.2
  have hok := play_rngDriverOk tr answers (n + 2) ⟨w.status, w.queuePfn ++ [pfn 0]⟩
  simp only [rngQueue, play_bind, play_write, play_readBits, play_ite, play_rngQueueSize, Written.add, ite_self,
    if_neg hsize, if_neg hpfn, if_true]
  exact hok

/-- A queue that is not, or a version that is not known. -/
theorem play_rngQueue_of_not {version : ℕ}
    (h : ¬ (version = 1 ∧ QueueOk pfn tr answers VirtioRng.queueSize 0 n)) :
    (play answers (rngQueue pfn version tr) n w).1 = -1 ∧
      (play answers (rngQueue pfn version tr) n w).2.2.status = some statusFailed := by
  simp only [rngQueue, play_bind, play_write, play_readBits, play_ite, play_giveUp, play_rngQueueSize, Written.add,
    ite_self]
  by_cases hsize : answers n % 2 ^ sizeBits tr = 0 ∨ answers n % 2 ^ sizeBits tr < VirtioRng.queueSize
  · simp only [if_pos hsize]
    exact ⟨trivial, trivial⟩
  · simp only [if_neg hsize]
    by_cases hversion : version = 1
    · have hpfn : answers (n + 1) % 2 ^ 32 ≠ pfn 0 := fun hpfn => h ⟨hversion, by omega, hpfn⟩
      simp only [if_pos hversion, if_pos hpfn]
      exact ⟨trivial, trivial⟩
    · simp only [if_neg hversion]
      exact ⟨trivial, trivial⟩

theorem play_rngFeatures_pci : play answers (rngFeatures .pci) n w = (true, n + 1, { w with status := some 3 }) := (rfl)

theorem play_rngFeatures_mmio :
    play answers (rngFeatures .mmio) n w =
      (decide (answers (n + 1) % 2 ^ 8 &&& statusFeaturesOk ≠ 0), n + 2, { w with status := some 11 }) := (rfl)

/-- How `virtio_rng_init_context` leaves a device. -/
theorem left_rng :
    Left tr (RngPasses pfn answers tr) (RngReady answers tr) (play answers (virtioRngInitContext pfn tr) 0 ⟨none, []⟩) := by
  cases tr with
  | pci =>
    simp only [virtioRngInitContext, play_bind, play_readBits, play_rngFeatures_pci, reduceCtorEq, false_and,
      if_false, if_true]
    by_cases hqueue : QueueOk pfn .pci answers VirtioRng.queueSize 0 2
    · obtain ⟨hcode, hleft⟩ := play_rngQueue_of_ok pfn .pci answers 2 ⟨some 3, []⟩ hqueue
      refine ⟨fun _ => ⟨hcode, ?_⟩, fun h => absurd hqueue h⟩
      rw [hleft]
      exact ⟨by simp, rfl⟩
    · obtain ⟨hcode, hleft⟩ := play_rngQueue_of_not pfn .pci answers 2 ⟨some 3, []⟩ fun h => hqueue h.2
      exact ⟨fun h => absurd h hqueue, fun _ => ⟨by rw [hcode]; decide, .inl hleft⟩⟩
  | mmio =>
    simp only [virtioRngInitContext, play_bind, play_readBits, play_ite, play_rngFeatures_mmio, play_giveUp, true_and,
      reduceCtorEq, if_false, decide_eq_true_eq]
    by_cases hversion : answers 0 % 2 ^ 32 ≠ 1 ∧ answers 0 % 2 ^ 32 ≠ 2
    · simp only [if_pos hversion]
      exact ⟨fun h => absurd h.1 hversion.1, fun _ => ⟨by simp, .inr rfl⟩⟩
    simp only [if_neg hversion]
    by_cases hfeatures : StatusHas answers statusFeaturesOk 2
    swap
    · rw [if_neg (show ¬ answers (0 + 1 + 1) % 2 ^ 8 &&& statusFeaturesOk ≠ 0 from hfeatures)]
      exact left_giveUp .mmio _ (fun h => hfeatures h.2.1) _
    rw [if_pos (show answers (0 + 1 + 1) % 2 ^ 8 &&& statusFeaturesOk ≠ 0 from hfeatures)]
    by_cases hqueue : answers 0 % 2 ^ 32 = 1 ∧ QueueOk pfn .mmio answers VirtioRng.queueSize 0 3
    · obtain ⟨hcode, hleft⟩ := play_rngQueue_of_ok pfn .mmio answers 3 ⟨some 11, []⟩ hqueue.2
      rw [hqueue.1]
      refine ⟨fun _ => ⟨hcode, ?_⟩, fun h => absurd ⟨hqueue.1, hfeatures, hqueue.2⟩ h⟩
      rw [hleft]
      exact ⟨by simp, rfl⟩
    · obtain ⟨hcode, hleft⟩ := play_rngQueue_of_not pfn .mmio answers 3 ⟨some 11, []⟩ hqueue
      exact ⟨fun h => absurd ⟨h.1, h.2.2⟩ hqueue, fun _ => ⟨by rw [hcode]; decide, .inl hleft⟩⟩

/-- The device has been given back, if it failed after a queue of it was set: the last value
written to `STATUS` is `FAILED`, or 0. -/
def GivenBack (r : ℤ × ℕ × Written) : Prop :=
  r.1 ≠ 0 → r.2.2.queuePfn ≠ [] → r.2.2.status = some statusFailed ∨ r.2.2.status = some 0

variable {tr} in
/-- A device is given back unless it fails the last check. -/
theorem Left.givenBack_iff {passes ready : Prop} {r : ℤ × ℕ × Written} (h : Left tr passes ready r) :
    GivenBack r ↔ (passes → ready) := by
  constructor
  · intro hback hpasses
    obtain ⟨hcode, hqueue, hstatus⟩ := h.1 hpasses
    by_contra hready
    have hlast := hback (fun h => hready (hcode.mp h)) hqueue
    rw [hstatus] at hlast
    revert hlast
    cases tr <;> decide
  · intro hready hcode hqueue
    by_cases hpasses : passes
    · exact absurd (((h.1 hpasses).1).mpr (hready hpasses)) hcode
    · rcases (h.2 hpasses).2 with hfailed | hnone
      · exact .inl hfailed
      · exact absurd hnone hqueue

variable {tr} in
theorem Left.ne_zero_iff {passes ready : Prop} {r : ℤ × ℕ × Written} (h : Left tr passes ready r) :
    r.1 ≠ 0 ↔ ¬ (passes ∧ ready) := by
  by_cases hpasses : passes
  · rw [ne_eq, (h.1 hpasses).1]
    simp [hpasses]
  · simp [(h.2 hpasses).1, hpasses]

end Answers

/-! ### A call of the resource manager -/

/-- The two drivers. -/
inductive Virtio where
  | net
  | rng
  deriving DecidableEq

/-- `virtio_net_driver` and `virtio_rng_driver`, with their tables. -/
def Virtio.driver : Virtio → Driver String
  | net =>
    ⟨some [⟨some "virtio,net", 0x1AF4, 0x1041⟩, ⟨none, 0x1AF4, 0x1041⟩, ⟨some "virtio,net", 0x1AF4, 0x1000⟩,
      ⟨none, 0x1AF4, 0x1000⟩, ⟨some "virtio,net", 0x1AF4, 1⟩, ⟨none, 0x1AF4, 1⟩, ⟨none, 0, 0⟩], true, true⟩
  | rng => ⟨some [⟨some "virtio,rng", 0x1AF4, 0x1005⟩, ⟨none, 0, 0⟩], true, true⟩

section Acquire

variable (v : Virtio) (arch : Arch) (pfn : ℕ → ℕ)

/-- The transport that the driver talks to a device over. The network driver has the
registers of PCI on AMD64 only. -/
def Virtio.transport (device : Device String) : Transport :=
  match v with
  | net => if arch = .amd64 ∧ device.regBase < 0x10000 then .pci else .mmio
  | rng => if device.regBase < 0x10000 then .pci else .mmio

/-- The driver's `init_context`. -/
def Virtio.initContext (device : Device String) : Drv ℤ :=
  match v with
  | net => virtioNetInitContext pfn (v.transport arch device)
  | rng => virtioRngInitContext pfn (v.transport arch device)

/-- What becomes of a device that is initialised, when it gives the answers. -/
def outcome (device : Device String) (answers : ℕ → ℕ) : ℤ × ℕ × Written :=
  play answers (v.initContext arch pfn device) 0 ⟨none, []⟩

/-- The answers pass every check of the driver's `init_context` before the last. -/
def Virtio.Passes (device : Device String) (answers : ℕ → ℕ) : Prop :=
  match v with
  | net => NetPasses pfn (v.transport arch device) answers
  | rng => RngPasses pfn answers (v.transport arch device)

/-- The answers pass the last check of the driver's `init_context`, of `DRIVER_OK`. -/
def Virtio.Ready (device : Device String) (answers : ℕ → ℕ) : Prop :=
  match v with
  | net => NetReady answers
  | rng => RngReady answers (v.transport arch device)

theorem left_outcome (device : Device String) (answers : ℕ → ℕ) :
    Left (v.transport arch device) (v.Passes arch pfn device answers) (v.Ready arch device answers)
      (outcome v arch pfn device answers) := by
  cases v with
  | net => exact left_net pfn _ answers
  | rng => exact left_rng pfn _ answers

variable (s : Manager String) (answers : ℕ → ℕ → ℕ)

/-- What `init_context` returns for the devices of the list, the `i`-th of which gives the
answers `answers i`. -/
def initResult (i : ℕ) : ℤ :=
  match s.devices[i]? with
  | some device => (outcome v arch pfn device (answers i)).1
  | none => -1

/-- **No device is left live.** In a call of `resource_acquire_available`, every device that
`init_context` is called for and fails after its queues were set has been given back. -/
def NoneLive (context : ℕ) : Prop :=
  ∃ h t s', acquireAvailable (some v.driver) (some context) (initResult v arch pfn s answers) s = some (h, t, s') ∧
    ∀ i device, .init v.driver context i ∈ t → s.devices[i]? = some device →
      GivenBack (outcome v arch pfn device (answers i))

/-- The device at place `i` passes all the checks. -/
def ComesUp (i : ℕ) : Prop :=
  ∃ device, s.devices[i]? = some device ∧ v.Passes arch pfn device (answers i) ∧ v.Ready arch device (answers i)

theorem initResult_ne_zero_iff {v : Virtio} {arch : Arch} {pfn : ℕ → ℕ} {s : Manager String} {answers : ℕ → ℕ → ℕ}
    {i : ℕ} {device : Device String} (hi : s.devices[i]? = some device) :
    initResult v arch pfn s answers i ≠ 0 ↔ ¬ ComesUp v arch pfn s answers i := by
  have hresult : initResult v arch pfn s answers i = (outcome v arch pfn device (answers i)).1 := by
    simp [initResult, hi]
  have hup : ComesUp v arch pfn s answers i ↔ v.Passes arch pfn device (answers i) ∧ v.Ready arch device (answers i) := by
    simp [ComesUp, hi]
  rw [hresult, hup]
  exact (left_outcome v arch pfn device (answers i)).ne_zero_iff

/-- **A call of `resource_acquire_available`**, in any state that calls of the resource manager
have led to, leaves no device live exactly if no device that it tries passes every check up to
`DRIVER_OK` and then does not report it. -/
theorem noneLive_iff {devices : List (Device String)} {calls : List (Call String)} {s : Manager String}
    (hs : execAll calls (Kernel.Resources.start devices) = some s) (context : ℕ) :
    NoneLive v arch pfn s answers context ↔
      ∀ i device, Tried s v.driver (fun j => ¬ ComesUp v arch pfn s answers j) i → s.devices[i]? = some device →
        v.Passes arch pfn device (answers i) → v.Ready arch device (answers i) := by
  obtain ⟨s', l, heq, hholds, -⟩ := Kernel.Resources.execAll_holds calls (Kernel.Resources.Holds.start devices)
  obtain rfl : s = s' := Option.some.inj (hs.symm.trans heq)
  have hinit : v.driver.initContext = true := by cases v <;> rfl
  obtain ⟨h, t, s', hcall, hevents⟩ :=
    Kernel.Resources.acquire_events v.driver context (initResult v arch pfn s answers) hholds hinit
  have htried (i : ℕ) : .init v.driver context i ∈ t ↔ Tried s v.driver (fun j => ¬ ComesUp v arch pfn s answers j) i := by
    rw [hevents]
    refine and_congr_right fun _ => and_congr_right fun _ => forall₂_congr fun j _ => forall_congr' fun hj => ?_
    obtain ⟨device, hdevice, -⟩ := hj
    exact initResult_ne_zero_iff hdevice
  have hback (i : ℕ) (device : Device String) := (left_outcome v arch pfn device (answers i)).givenBack_iff
  constructor
  · rintro ⟨h', t', s'', hcall', hall⟩ i device hi hdevice
    obtain ⟨rfl, rfl, rfl⟩ : h' = h ∧ t' = t ∧ s'' = s' := by simpa using hcall'.symm.trans hcall
    exact (hback i device).mp (hall i device ((htried i).mpr hi) hdevice)
  · intro hall
    refine ⟨h, t, s', hcall, fun i device hi hdevice => ?_⟩
    exact (hback i device).mpr (hall i device ((htried i).mp hi) hdevice)

end Acquire

/-- Two network devices on MMIO. -/
def twoDevices : List (Device String) :=
  [⟨some "virtio,mmio", none, 0x0a000000, 0x200, 0x1AF4, 0x1000, 0⟩,
    ⟨some "virtio,mmio", none, 0x0a000200, 0x200, 0x1AF4, 0x1000, 0⟩]

/-- The answers of a device with queues of 256 entries, with the given pages read back, and the
last status. -/
def answersOf (rx tx status : ℕ) : ℕ → ℕ
  | 1 => 11
  | 2 | 4 => 256
  | 3 => rx
  | 5 => tx
  | 6 => status
  | _ => 0

/-- A device does not read back its second queue, and is given back before the next device is
acquired. -/
theorem noneLive_readback :
    NoneLive .net .arm64 (fun q => 100 + q) (Kernel.Resources.start twoDevices)
      (fun i => answersOf 100 (if i = 0 then 0 else 101) 15) 7 := by
  refine (noneLive_iff .net .arm64 (fun q => 100 + q) (fun i => answersOf 100 (if i = 0 then 0 else 101) 15)
    (show execAll [] (Kernel.Resources.start twoDevices) = some _ from rfl) 7).mpr ?_
  intro i device _ hdevice hpasses
  match i, hdevice with
  | 0, hdevice => exact absurd hpasses.2.2.2 (by decide)
  | 1, hdevice => exact (by decide : ¬ (15 % 2 ^ 8 &&& statusDriverOk = 0))
  | i + 2, hdevice => simp [Kernel.Resources.start, twoDevices] at hdevice

/-- A device sets up both queues and does not report `DRIVER_OK`; the next device is acquired,
and nobody has told the first that the driver has given up. -/
theorem not_noneLive_driverOk :
    ¬ ∀ (v : Virtio) (arch : Arch) (pfn : ℕ → ℕ) (answers : ℕ → ℕ → ℕ) (devices : List (Device String))
      (calls : List (Call String)) (s : Manager String) (context : ℕ),
      execAll calls (Kernel.Resources.start devices) = some s → NoneLive v arch pfn s answers context := by
  intro hall
  obtain ⟨h, t, s', hcall, hback⟩ := hall .net .arm64 (fun q => 100 + q)
    (fun i => answersOf 100 101 (if i = 0 then 11 else 15)) twoDevices [] _ 7 rfl
  -- the first device is tried
  obtain ⟨h', t', s'', hcall', hevents⟩ := Kernel.Resources.acquire_events Virtio.net.driver 7
    (initResult .net .arm64 (fun q => 100 + q) (Kernel.Resources.start twoDevices)
      fun i => answersOf 100 101 (if i = 0 then 11 else 15)) (Kernel.Resources.Holds.start twoDevices) rfl
  obtain ⟨rfl, rfl, rfl⟩ : h' = h ∧ t' = t ∧ s'' = s' := by simpa using hcall'.symm.trans hcall
  have hfirst := hback 0 _ ((hevents 0).mpr ⟨⟨_, rfl, by decide, by decide +kernel⟩, by decide +kernel, by simp⟩) rfl
  -- what was written to it last is that the driver is ready
  revert hfirst
  unfold GivenBack
  decide +kernel

end Yasouos.Drivers.VirtioInit
