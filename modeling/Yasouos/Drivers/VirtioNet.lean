import Yasouos.Theory.Memory
import Yasouos.Theory.Virtqueue

/-!
# The virtio-net driver

The receive and transmit paths of `drivers/virtio_net/virtio_net.c`, as programs
over the memory the driver shares with the device, and the conforming device they
run against.

## The model

The context `virtio_net_t` is split in two. `Ctx` has the fields only the driver
reads and writes: `initialized`, the two last-seen indices and `tx_desc_in_use`.
`Mem` has what the device sees: the two virtqueues and the packet buffers. The
fields `io_base`, `mac_addr` and the log lines are left out, since no path modelled
here depends on them; the pointers a caller passes are taken not to be `NULL`.

The transport decides the size of the rings (16 entries for MMIO, 256 for legacy
PCI) and the architecture the offset of the packets in their buffers (2 on ARM64,
0 elsewhere); both are fixed when the context is initialised, so they are
parameters here.

The buffers are kept flat, as they lie in the structure: byte `j` of
`rx_buffers[i]` is at `2048 * i + j` of `rxBuffers`, and likewise for
`tx_buffers`. What follows `tx_buffers` in the structure are the 16 bytes of
`rx_desc_in_use`; they are bytes `32768` to `32783` of `txBuffers`. A transmit
writes no further than that (`txWrite_lt`), whatever the length of the packet.

`Mem.done` is not in the memory of the machine: it records what the device has
reported, each completion of a receive descriptor with the bytes its buffer held.
-/

namespace Yasouos.Drivers.VirtioNet

open Theory Prog Virtqueue

/-! ### Constants -/

/-- `VIRTIO_NET_QUEUE_SIZE`: the descriptors the driver uses. -/
abbrev queueSize : ℕ := 16

/-- `VIRTIO_NET_MAX_QUEUE_SIZE`: the size of the rings on legacy PCI. -/
abbrev maxQueueSize : ℕ := 256

/-- `VIRTIO_NET_MAX_PACKET_SIZE`: the size of a buffer. -/
abbrev maxPacketSize : ℕ := 2048

/-- `sizeof(virtio_net_hdr_t)`. -/
abbrev hdrLen : ℕ := 10

/-- `VRING_DESC_F_WRITE`. -/
abbrev descFWrite : ℕ := 2

/-- The architecture the kernel is built for. -/
inductive Arch where
  | riscv
  | arm64
  | amd64
  deriving DecidableEq

/-- `virtio_net_transport_t`. -/
inductive Transport where
  | mmio
  | pci
  deriving DecidableEq

/-- `VIRTIO_NET_RX_BUFFER_OFFSET`. -/
def rxBufferOffset : Arch → ℕ
  | .arm64 => 2
  | .riscv | .amd64 => 0

/-- The size of the rings of a transport. -/
def ringSize : Transport → ℕ
  | .mmio => queueSize
  | .pci => maxQueueSize

/-! ### The context -/

/-- The fields of `virtio_net_t` that only the driver uses. -/
structure Ctx where
  /-- `initialized`. -/
  initialized : Bool
  /-- `rx_last_used_idx`. -/
  rxLastUsedIdx : ℕ
  /-- `tx_last_used_idx`. -/
  txLastUsedIdx : ℕ
  /-- `tx_desc_in_use`. -/
  txDescInUse : ℕ → Bool

/-- A completion of a receive descriptor, as the device reported it, and the bytes
that its buffer held then. -/
structure Completion where
  /-- The descriptor. -/
  id : ℕ
  /-- The bytes, header first. -/
  bytes : List UInt8
  deriving DecidableEq

/-- The entry of the used ring for a completion. -/
def Completion.used (c : Completion) : VUsed := ⟨c.id, c.bytes.length⟩

/-- The packet: what follows the 10-byte header. -/
def Completion.packet (c : Completion) : List UInt8 := c.bytes.drop hdrLen

/-- What the driver and the device share. -/
structure Mem where
  /-- The receive queue. -/
  rxq : Virtqueue
  /-- The transmit queue. -/
  txq : Virtqueue
  /-- `rx_buffers`, flat. -/
  rxBuffers : ℕ → UInt8
  /-- `tx_buffers`, flat, and `rx_desc_in_use` after them. -/
  txBuffers : ℕ → UInt8
  /-- The completions reported so far, oldest first. -/
  done : List Completion

/-- The bytes of a receive buffer from where its descriptor points. -/
def Mem.rxBytes (s : Mem) (id len : ℕ) : List UInt8 :=
  (List.range len).map fun i => s.rxBuffers ((s.rxq.desc id).addr + i)

/-! ### Accesses -/

/-- The queues. -/
inductive Queue where
  | rx
  | tx
  deriving DecidableEq

/-- An access of the driver to what it shares with the device. An access to a queue
also shows the driver's own fields, as they are at that point. -/
inductive Op where
  /-- An access to a queue. -/
  | queue (ctx : Ctx) (which : Queue) (o : QOp)
  /-- Read a byte of `rx_buffers`. -/
  | readRx (a : ℕ)
  /-- Write a byte of `tx_buffers`. -/
  | writeTx (a : ℕ) (b : UInt8)
  /-- Write a queue's index to the notification register. -/
  | notify (which : Queue)

/-- What an access answers. -/
def Ans : Op → Type
  | .queue _ _ o => o.Ans
  | .readRx _ => UInt8
  | .writeTx _ _ | .notify _ => Unit

/-- What an access does. -/
def exec : (o : Op) → Mem → Ans o × Mem
  | .queue _ .rx o, s => ((o.exec s.rxq).1, { s with rxq := (o.exec s.rxq).2 })
  | .queue _ .tx o, s => ((o.exec s.txq).1, { s with txq := (o.exec s.txq).2 })
  | .readRx a, s => (s.rxBuffers a, s)
  | .writeTx a b, s => ((), { s with txBuffers := Function.update s.txBuffers a b })
  | .notify _, s => ((), s)

/-- A driver program. -/
abbrev Drv := Prog Op Ans

/-- Read `used.idx`. -/
def readUsedIdx (ctx : Ctx) (which : Queue) : Drv ℕ := perform (Op.queue ctx which .usedIdx)

/-- Read `used.ring[slot]`. -/
def readUsed (ctx : Ctx) (which : Queue) (slot : ℕ) : Drv VUsed := perform (Op.queue ctx which (.used slot))

/-- Read `avail.idx`. -/
def readAvailIdx (ctx : Ctx) (which : Queue) : Drv ℕ := perform (Op.queue ctx which .availIdx)

/-- Write `desc[i]`. -/
def writeDesc (ctx : Ctx) (which : Queue) (i : ℕ) (d : VDesc) : Drv Unit :=
  perform (Op.queue ctx which (.writeDesc i d))

/-- Write `avail.ring[slot]`. -/
def writeAvail (ctx : Ctx) (which : Queue) (slot d : ℕ) : Drv Unit := perform (Op.queue ctx which (.writeAvail slot d))

/-- Write `avail.idx`. -/
def writeAvailIdx (ctx : Ctx) (which : Queue) (i : ℕ) : Drv Unit := perform (Op.queue ctx which (.writeAvailIdx i))

/-- `memcpy` out of `rx_buffers`, from `a`, byte by byte. -/
def readBytes (a n : ℕ) : Drv (List UInt8) := readEach (fun a => (perform (Op.readRx a) : Drv UInt8)) a n

/-- Store bytes into `tx_buffers`, from `a`. -/
def writeBytes (a : ℕ) (bs : List UInt8) : Drv Unit := writeEach (fun a b => (perform (Op.writeTx a b) : Drv Unit)) a bs

/-! ### The driver -/

section Driver

variable (arch : Arch) (tr : Transport)

/-- What a call returns: its return code, what it has stored in `*received_length`,
if anything, and what it has copied to the caller's buffer. -/
structure Ret where
  /-- The return code. -/
  code : ℤ
  /-- `*received_length`. -/
  receivedLength : Option ℕ
  /-- The bytes at the start of the caller's buffer. -/
  buffer : List UInt8
  deriving DecidableEq

/-- `return -1`. -/
def Ret.fail : Ret := ⟨-1, none, []⟩

/-- Add descriptor `d` to the available ring, and notify the device. -/
def publish (ctx : Ctx) (which : Queue) (d : ℕ) : Drv Unit := do
  let idx ← readAvailIdx ctx which
  writeAvail ctx which (idx % ringSize tr) d
  let idx ← readAvailIdx ctx which
  writeAvailIdx ctx which ((idx + 1) % idxMod)
  perform (Op.notify which)

/-- `ctx->rx_last_used_idx++`. -/
def Ctx.bumpRx (ctx : Ctx) : Ctx := { ctx with rxLastUsedIdx := (ctx.rxLastUsedIdx + 1) % idxMod }

/-- `virtio_net_receive` once it has read the used element of descriptor `descId` and
length `packetLen`. -/
def receiveUsed (bufferSize : ℕ) (ctx : Ctx) (descId packetLen : ℕ) : Drv (Ctx × Ret) := do
  if descId ≥ queueSize then
    return (ctx.bumpRx, .fail)
  if packetLen = 0 ∨ packetLen > maxPacketSize then
    return (ctx.bumpRx, .fail)
  if packetLen < hdrLen then
    return (ctx.bumpRx, .fail)
  let dataLen := packetLen - hdrLen
  if dataLen > bufferSize then
    return (ctx.bumpRx, .fail)
  let data ← readBytes (descId * maxPacketSize + rxBufferOffset arch + hdrLen) dataLen
  publish tr ctx.bumpRx .rx descId
  return (ctx.bumpRx, ⟨0, some dataLen, data⟩)

/-- `virtio_net_receive`, with a buffer of `bufferSize` bytes. -/
def virtioNetReceive (bufferSize : ℕ) (ctx : Ctx) : Drv (Ctx × Ret) := do
  if !ctx.initialized then
    return (ctx, .fail)
  let lastUsed := ctx.rxLastUsedIdx
  let usedRingIdx ← readUsedIdx ctx .rx
  if usedRingIdx = lastUsed then
    return (ctx, .fail)
  let elem ← readUsed ctx .rx (lastUsed % ringSize tr)
  receiveUsed arch tr bufferSize ctx elem.id elem.len

/-- A completed transmit descriptor is marked free, and `tx_last_used_idx` advances. -/
def Ctx.reclaimed (ctx : Ctx) (descId : ℕ) : Ctx :=
  { ctx with
    txDescInUse := if descId < queueSize then Function.update ctx.txDescInUse descId false else ctx.txDescInUse
    txLastUsedIdx := (ctx.txLastUsedIdx + 1) % idxMod }

/-- The loop of `virtio_net_reclaim_tx`. The driver's index is 16 bits wide, so it
meets `usedIdx` before it has gone once round. -/
def reclaimLoop (usedIdx : ℕ) : ℕ → Ctx → Drv Ctx
  | 0, ctx => return ctx
  | fuel + 1, ctx =>
    if ctx.txLastUsedIdx = usedIdx then return ctx
    else do
      let elem ← readUsed ctx .tx (ctx.txLastUsedIdx % ringSize tr)
      reclaimLoop usedIdx fuel (ctx.reclaimed elem.id)

/-- `virtio_net_reclaim_tx`. -/
def virtioNetReclaimTx (ctx : Ctx) : Drv Ctx := do
  let usedIdx ← readUsedIdx ctx .tx
  reclaimLoop tr usedIdx idxMod ctx

/-- The first descriptor that is not in use. -/
def findFree (inUse : ℕ → Bool) : Option ℕ := firstFree queueSize inUse

/-- `virtio_net_transmit`. -/
def virtioNetTransmit (packet : List UInt8) (ctx : Ctx) : Drv (Ctx × Ret) := do
  if packet.length = 0 ∨ packet.length > maxPacketSize ∨ !ctx.initialized then
    return (ctx, .fail)
  let ctx ← virtioNetReclaimTx tr ctx
  match findFree ctx.txDescInUse with
  | none => return (ctx, .fail)
  | some descIdx =>
    let ctx := { ctx with txDescInUse := Function.update ctx.txDescInUse descIdx true }
    let txBuffer := descIdx * maxPacketSize + rxBufferOffset arch
    writeBytes txBuffer (List.replicate hdrLen 0)
    writeBytes (txBuffer + hdrLen) packet
    writeDesc ctx .tx descIdx ⟨txBuffer, hdrLen + packet.length, 0, 0⟩
    publish tr ctx .tx descIdx
    return (ctx, ⟨0, none, []⟩)

/-! ### Initialisation -/

/-- What descriptor `i` of the receive queue is set to. -/
def rxDesc (i : ℕ) : VDesc :=
  ⟨i * maxPacketSize + rxBufferOffset arch, maxPacketSize - rxBufferOffset arch, descFWrite, 0⟩

/-- One round of the loop of `virtio_net_init_context` that fills the receive queue. -/
def populate (s : Mem) (i : ℕ) : Mem :=
  { s with
    rxq := ((s.rxq.writeDesc i (rxDesc arch i)).writeAvail (s.rxq.availIdx % ringSize tr) i).writeAvailIdx
      ((s.rxq.availIdx + 1) % idxMod)
    txBuffers := Function.update s.txBuffers (queueSize * maxPacketSize + i) 1 }

/-- The shared memory as `virtio_net_init_context` leaves it: everything zero but for
the receive queue. -/
def initMem : Mem :=
  (List.range queueSize).foldl (populate arch tr) ⟨Virtqueue.zero, Virtqueue.zero, fun _ => 0, fun _ => 0, []⟩

/-- The driver's own fields as `virtio_net_init_context` leaves them. -/
def initCtx : Ctx := ⟨true, 0, 0, fun _ => false⟩

/-! ### The device -/

/-- A move of the device. -/
inductive Dev where
  /-- Take the next receive descriptor. -/
  | rxTake
  /-- Write byte `i` of the buffer of receive descriptor `id`. -/
  | rxWrite (id i : ℕ) (b : UInt8)
  /-- Return receive descriptor `id`, reporting `len` bytes. -/
  | rxComplete (id len : ℕ)
  /-- Take the next transmit descriptor. -/
  | txTake
  /-- Return transmit descriptor `id`, reporting `len` bytes. -/
  | txComplete (id len : ℕ)

/-- **A conforming device.** It takes descriptors from the available rings in order,
writes only into buffers whose descriptors it holds, and returns only descriptors
it holds, a receive descriptor with at least `minLen` bytes and no more than fit. -/
def device (minLen : ℕ) : Dev → Mem → Option Mem
  | .rxTake, s => (s.rxq.take (ringSize tr)).map fun q => { s with rxq := q }
  | .rxWrite id i b, s =>
    if id ∈ s.rxq.held ∧ i < (s.rxq.desc id).len then
      some { s with rxBuffers := Function.update s.rxBuffers ((s.rxq.desc id).addr + i) b }
    else none
  | .rxComplete id len, s =>
    if minLen ≤ len ∧ len ≤ (s.rxq.desc id).len then
      (s.rxq.complete (ringSize tr) id len).map fun q => { s with rxq := q, done := s.done ++ [⟨id, s.rxBytes id len⟩] }
    else none
  | .txTake, s => (s.txq.take (ringSize tr)).map fun q => { s with txq := q }
  | .txComplete id len, s => (s.txq.complete (ringSize tr) id len).map fun q => { s with txq := q }

/-! ### The system -/

/-- A call of the driver. -/
inductive Call where
  /-- `virtio_net_receive` with a buffer of that size. -/
  | receive (bufferSize : ℕ)
  /-- `virtio_net_transmit` of that packet. -/
  | transmit (packet : List UInt8)
  deriving DecidableEq

/-- The driver and the device. -/
def net (minLen : ℕ) : System Op Ans Mem Dev Call Ctx Ret where
  exec := exec
  env := device tr minLen
  body
    | .receive n => virtioNetReceive arch tr n
    | .transmit p => virtioNetTransmit arch tr p

/-- An initialised context, before any call. -/
def start : Cfg Op Ans Mem Call Ctx Ret := .start initCtx (initMem arch tr)

end Driver

/-! ### Sizes -/

theorem ringSize_dvd (tr : Transport) : ringSize tr ∣ idxMod := by cases tr <;> decide

theorem queueSize_le_ringSize (tr : Transport) : queueSize ≤ ringSize tr := by cases tr <;> decide

theorem ringSize_lt (tr : Transport) : ringSize tr < idxMod := by cases tr <;> decide

/-- The bytes a transmit writes are in `tx_buffers` or in the 16 bytes after them. -/
theorem txWrite_lt (arch : Arch) {d j : ℕ} {packet : List UInt8} (hd : d < queueSize)
    (hp : packet.length ≤ maxPacketSize) (hj : j < hdrLen + packet.length) :
    d * maxPacketSize + rxBufferOffset arch + j < queueSize * maxPacketSize + queueSize := by
  have : rxBufferOffset arch ≤ 2 := by cases arch <;> decide
  simp only [queueSize, maxPacketSize, hdrLen] at *
  omega

/-! ### The queues -/

/-- A queue of the shared memory. -/
def Mem.q (s : Mem) : Queue → Virtqueue
  | .rx => s.rxq
  | .tx => s.txq

/-- The shared memory with another queue. -/
def Mem.setQ (s : Mem) (which : Queue) (q : Virtqueue) : Mem :=
  match which with
  | .rx => { s with rxq := q }
  | .tx => { s with txq := q }

@[simp] theorem q_setQ (s : Mem) (which : Queue) (q : Virtqueue) : (s.setQ which q).q which = q := by
  cases which <;> rfl

@[simp] theorem setQ_self (s : Mem) (which : Queue) : s.setQ which (s.q which) = s := by
  cases which <;> rfl

/-! ### Rules for the accesses -/

section Rules

variable {arch : Arch} {tr : Transport} {minLen : ℕ} {A G : Op → Mem → Prop} {α : Type} {Q : α → Mem → Prop}
  {B : Mem → Prop} {s : Mem} {ctx : Ctx} {which : Queue}

/-- An access to a queue, under an assertion that the device keeps. -/
theorem safe_queue (o : QOp) {f : o.Ans → Drv α} (hB : (net arch tr minLen).Stable B) (hs : B s)
    (h : ∀ s', B s' → G (.queue ctx which o) s' ∧
      (f (o.exec (s'.q which)).1).Safe (net arch tr minLen).toMachine A G Q (s'.setQ which (o.exec (s'.q which)).2)) :
    (op (.queue ctx which o) f : Drv α).Safe (net arch tr minLen).toMachine A G Q s := by
  refine Safe.op_of_stable hB hs fun s' hs' => ?_
  obtain ⟨hG, hf⟩ := h s' hs'
  cases which <;> exact ⟨hG, fun _ => hf⟩

theorem safe_readUsedIdx {f : ℕ → Drv α} (hB : (net arch tr minLen).Stable B) (hs : B s)
    (h : ∀ s', B s' → G (.queue ctx which .usedIdx) s' ∧
      (f (s'.q which).usedIdx).Safe (net arch tr minLen).toMachine A G Q s') :
    (readUsedIdx ctx which >>= f).Safe (net arch tr minLen).toMachine A G Q s :=
  safe_queue .usedIdx hB hs fun s' hs' => by rw [QOp.exec, setQ_self]; exact h s' hs'

theorem safe_readUsed {slot : ℕ} {f : VUsed → Drv α} (hB : (net arch tr minLen).Stable B) (hs : B s)
    (h : ∀ s', B s' → G (.queue ctx which (.used slot)) s' ∧
      (f ((s'.q which).used slot)).Safe (net arch tr minLen).toMachine A G Q s') :
    (readUsed ctx which slot >>= f).Safe (net arch tr minLen).toMachine A G Q s :=
  safe_queue (.used slot) hB hs fun s' hs' => by rw [QOp.exec, setQ_self]; exact h s' hs'

theorem safe_readAvailIdx {f : ℕ → Drv α} (hB : (net arch tr minLen).Stable B) (hs : B s)
    (h : ∀ s', B s' → G (.queue ctx which .availIdx) s' ∧
      (f (s'.q which).availIdx).Safe (net arch tr minLen).toMachine A G Q s') :
    (readAvailIdx ctx which >>= f).Safe (net arch tr minLen).toMachine A G Q s :=
  safe_queue .availIdx hB hs fun s' hs' => by rw [QOp.exec, setQ_self]; exact h s' hs'

theorem safe_writeAvail {slot d : ℕ} {f : Unit → Drv α} (hB : (net arch tr minLen).Stable B) (hs : B s)
    (h : ∀ s', B s' → G (.queue ctx which (.writeAvail slot d)) s' ∧
      (f ()).Safe (net arch tr minLen).toMachine A G Q (s'.setQ which ((s'.q which).writeAvail slot d))) :
    (writeAvail ctx which slot d >>= f).Safe (net arch tr minLen).toMachine A G Q s :=
  safe_queue (.writeAvail slot d) hB hs h

theorem safe_writeAvailIdx {i : ℕ} {f : Unit → Drv α} (hB : (net arch tr minLen).Stable B) (hs : B s)
    (h : ∀ s', B s' → G (.queue ctx which (.writeAvailIdx i)) s' ∧
      (f ()).Safe (net arch tr minLen).toMachine A G Q (s'.setQ which ((s'.q which).writeAvailIdx i))) :
    (writeAvailIdx ctx which i >>= f).Safe (net arch tr minLen).toMachine A G Q s :=
  safe_queue (.writeAvailIdx i) hB hs h

theorem safe_writeDesc {i : ℕ} {d : VDesc} {f : Unit → Drv α} (hB : (net arch tr minLen).Stable B) (hs : B s)
    (h : ∀ s', B s' → G (.queue ctx which (.writeDesc i d)) s' ∧
      (f ()).Safe (net arch tr minLen).toMachine A G Q (s'.setQ which ((s'.q which).writeDesc i d))) :
    (writeDesc ctx which i d >>= f).Safe (net arch tr minLen).toMachine A G Q s :=
  safe_queue (.writeDesc i d) hB hs h

end Rules

variable {arch : Arch} {tr : Transport} {minLen : ℕ}

/-- The device does not write the available rings. -/
theorem device_avail {e : Dev} {s s' : Mem} (h : device tr minLen e s = some s') (which : Queue) :
    (s'.q which).avail = (s.q which).avail ∧ (s'.q which).availIdx = (s.q which).availIdx := by
  cases e with
  | rxTake =>
    simp only [device, Option.map_eq_some_iff] at h
    obtain ⟨q, hq, rfl⟩ := h
    cases which
    · exact ⟨(take_frame hq).2.1, (take_frame hq).2.2.1⟩
    · exact ⟨rfl, rfl⟩
  | rxWrite id i b =>
    simp only [device] at h
    split_ifs at h
    cases h
    cases which <;> exact ⟨rfl, rfl⟩
  | rxComplete id len =>
    simp only [device] at h
    split_ifs at h
    simp only [Option.map_eq_some_iff] at h
    obtain ⟨q, hq, rfl⟩ := h
    cases which
    · exact ⟨(complete_frame hq).2.1, (complete_frame hq).2.2.1⟩
    · exact ⟨rfl, rfl⟩
  | txTake =>
    simp only [device, Option.map_eq_some_iff] at h
    obtain ⟨q, hq, rfl⟩ := h
    cases which
    · exact ⟨rfl, rfl⟩
    · exact ⟨(take_frame hq).2.1, (take_frame hq).2.2.1⟩
  | txComplete id len =>
    simp only [device, Option.map_eq_some_iff] at h
    obtain ⟨q, hq, rfl⟩ := h
    cases which
    · exact ⟨rfl, rfl⟩
    · exact ⟨(complete_frame hq).2.1, (complete_frame hq).2.2.1⟩

/-! ### Publishing a descriptor -/

/-- **Publishing.** `H` says that descriptor `d` is the driver's and `D` that it has
been published; both are kept by the device. If writing the driver's slot of the
available ring keeps `H`, and advancing the index over a slot that holds `d` turns `H`
into `D`, then `publish` is safe from `H` and ends with `D`. -/
theorem publish_safe {A G : Op → Mem → Prop} {H D : Mem → Prop} (ctx : Ctx) (which : Queue) (d : ℕ)
    (hH : (net arch tr minLen).Stable H) (hD : (net arch tr minLen).Stable D)
    (hslot : ∀ s, H s → H (s.setQ which ((s.q which).writeAvail ((s.q which).availIdx % ringSize tr) d)))
    (hbump : ∀ s, H s → (s.q which).avail ((s.q which).availIdx % ringSize tr) = d →
      D (s.setQ which ((s.q which).writeAvailIdx (((s.q which).availIdx + 1) % idxMod))))
    (hG : ∀ o s, (∀ c slot x, o ≠ .queue c which (.writeAvail slot x)) → G o s)
    (hGw : ∀ s, H s → G (.queue ctx which (.writeAvail ((s.q which).availIdx % ringSize tr) d)) s)
    {s : Mem} (hs : H s) : (publish tr ctx which d).Safe (net arch tr minLen).toMachine A G (fun _ => D) s := by
  have hidx : ∀ i, (net arch tr minLen).Stable fun s => H s ∧ (s.q which).availIdx = i := fun i =>
    hH.and fun e s s' h he => (device_avail he which).2.trans h
  have hfull : ∀ i, (net arch tr minLen).Stable
      fun s => (H s ∧ (s.q which).availIdx = i) ∧ (s.q which).avail (i % ringSize tr) = d := fun i =>
    (hidx i).and fun e s s' h he => by rw [(device_avail he which).1]; exact h
  refine safe_readAvailIdx hH hs fun s₁ h₁ => ⟨hG _ _ (by simp), ?_⟩
  refine safe_writeAvail (hidx _) ⟨h₁, rfl⟩ fun s₂ ⟨h₂, hi₂⟩ => ?_
  rw [← hi₂]
  refine ⟨hGw s₂ h₂, ?_⟩
  refine safe_readAvailIdx (hfull (s₂.q which).availIdx) ⟨⟨hslot s₂ h₂, ?_⟩, ?_⟩ fun s₃ ⟨⟨h₃, hi₃⟩, hd₃⟩ =>
    ⟨hG _ _ (by simp), ?_⟩
  · rw [q_setQ]; rfl
  · rw [q_setQ]; exact Function.update_self ..
  refine safe_writeAvailIdx (hfull _) ⟨⟨h₃, rfl⟩, by rw [hi₃]; exact hd₃⟩ fun s₄ ⟨⟨h₄, hi₄⟩, hd₄⟩ =>
    ⟨hG _ _ (by simp), ?_⟩
  rw [← hi₄] at hd₄ ⊢
  refine Safe.op_of_stable hD (hbump s₄ h₄ hd₄) fun s₅ h₅ => ⟨hG _ _ (by simp), fun _ => ?_⟩
  exact Safe.ret_of_stable hD h₅ fun _ h => h

/-! ### What the two paths touch -/

/-- The access is to what belongs to queue `which`. -/
def Touches (which : Queue) : Op → Prop
  | .queue _ w _ => w = which
  | .readRx _ => which = .rx
  | .writeTx _ _ => which = .tx
  | .notify _ => True

theorem exec_touches_tx {o : Op} (h : Touches .tx o) (s : Mem) :
    (exec o s).2.rxq = s.rxq ∧ (exec o s).2.rxBuffers = s.rxBuffers ∧ (exec o s).2.done = s.done := by
  cases o with
  | queue ctx w o =>
    obtain rfl : w = .tx := h
    exact ⟨rfl, rfl, rfl⟩
  | readRx a => cases h
  | writeTx a b => exact ⟨rfl, rfl, rfl⟩
  | notify w => exact ⟨rfl, rfl, rfl⟩

theorem exec_touches_rx {o : Op} (h : Touches .rx o) (s : Mem) : (exec o s).2.txq = s.txq := by
  cases o with
  | queue ctx w o =>
    obtain rfl : w = .rx := h
    rfl
  | readRx a => rfl
  | writeTx a b => cases h
  | notify w => rfl

theorem publish_all (tr : Transport) (ctx : Ctx) (which : Queue) (d : ℕ) :
    (publish tr ctx which d).All (Touches which) fun _ => True :=
  ⟨rfl, fun _ => ⟨rfl, fun _ => ⟨rfl, fun _ => ⟨rfl, fun _ => ⟨trivial, fun _ => trivial⟩⟩⟩⟩⟩

theorem readBytes_all (a k : ℕ) : (readBytes a k).All (Touches .rx) fun bs => bs.length = k := by
  refine readEach_all (fun i => ?_) a k
  exact perform_all (P := Touches .rx) rfl

/-- Storing bytes into `tx_buffers` does nothing else. -/
theorem writeBytes_all (a : ℕ) (bs : List UInt8) :
    (writeBytes a bs).All (fun o => ∃ i b, o = .writeTx i b) fun _ => True := by
  refine writeEach_all (fun i b => ?_) a bs
  exact perform_all (P := fun o : Op => ∃ i b, o = .writeTx i b) ⟨i, b, rfl⟩

theorem writeBytes_touches (a : ℕ) (bs : List UInt8) : (writeBytes a bs).All (Touches .tx) fun _ => True :=
  (writeBytes_all a bs).mono (by rintro o ⟨i, b, rfl⟩; rfl) fun _ h => h

/-- A receive leaves the driver's fields as they are, or advances `rx_last_used_idx`. -/
theorem receive_all (arch : Arch) (tr : Transport) (n : ℕ) (ctx : Ctx) :
    (virtioNetReceive arch tr n ctx).All (Touches .rx) fun r => r = (ctx, .fail) ∨ r.1 = ctx.bumpRx := by
  unfold virtioNetReceive
  split_ifs with hi
  · exact .inl rfl
  refine ⟨rfl, fun (i : ℕ) => ?_⟩
  show Prog.All _ _ (if i = ctx.rxLastUsedIdx then _ else _)
  split_ifs with hidx
  · exact .inl rfl
  refine ⟨rfl, fun (e : VUsed) => ?_⟩
  show Prog.All _ _ (receiveUsed arch tr n ctx e.id e.len)
  unfold receiveUsed
  dsimp only
  split_ifs
  iterate 4 exact .inr rfl
  exact (readBytes_all _ _).bind fun _ _ => (publish_all tr _ .rx _).bind fun _ _ => .inr rfl

theorem reclaimLoop_all (tr : Transport) (usedIdx k : ℕ) (ctx : Ctx) :
    (reclaimLoop tr usedIdx k ctx).All (Touches .tx)
      fun c => c.rxLastUsedIdx = ctx.rxLastUsedIdx ∧ c.initialized = ctx.initialized := by
  induction k generalizing ctx with
  | zero => exact ⟨rfl, rfl⟩
  | succ k ih =>
    unfold reclaimLoop
    split_ifs with h
    · exact ⟨rfl, rfl⟩
    · exact ⟨rfl, fun (e : VUsed) => ih (ctx.reclaimed e.id)⟩

/-- A transmit does not move `rx_last_used_idx`. -/
theorem transmit_all (arch : Arch) (tr : Transport) (packet : List UInt8) (ctx : Ctx) :
    (virtioNetTransmit arch tr packet ctx).All (Touches .tx)
      fun r => r.1.rxLastUsedIdx = ctx.rxLastUsedIdx ∧ r.1.initialized = ctx.initialized := by
  unfold virtioNetTransmit
  split_ifs with h
  · exact ⟨rfl, rfl⟩
  have hrec : (virtioNetReclaimTx tr ctx).All (Touches .tx)
      fun c => c.rxLastUsedIdx = ctx.rxLastUsedIdx ∧ c.initialized = ctx.initialized :=
    ⟨rfl, fun _ => reclaimLoop_all tr _ _ ctx⟩
  refine hrec.bind fun c hc => ?_
  cases findFree c.txDescInUse with
  | none => exact hc
  | some d =>
    refine (writeBytes_touches _ _).bind fun _ _ => (writeBytes_touches _ _).bind fun _ _ => ⟨rfl, fun _ => ?_⟩
    exact (publish_all tr _ .tx d).bind fun _ _ => hc

end Yasouos.Drivers.VirtioNet
