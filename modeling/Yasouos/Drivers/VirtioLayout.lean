import Yasouos.Theory.VirtqueueBytes
import Yasouos.Drivers.VirtioInit

/-!
# Where the virtqueues are

The structures `virtio_net_queue_t`, `virtio_net_queue_pci_t` and `virtio_rng_queue_t`, which
the drivers lay over the memory of a queue, and where a legacy device looks for the parts of
the queue: that depends on the size of the queue, which the driver can choose on MMIO, but
not on PCI.

## The model

`CType` has the size and the alignment of a C type, and `offsets` where the compiler puts the
fields of a structure. `serve` runs the set-up of a queue, the functions of
`Yasouos.Drivers.VirtioInit`, against the registers of a legacy device, which has a queue of
`N` entries. The size it is left with is the one that the device goes by, `deviceLayout`.

## What is proved

`agrees_iff`: when the set-up succeeds, the driver and the device have the same layout, and
hence see the same queue in every run, exactly if the transport is MMIO, or the size of the
queue is the one that the structure was written for. The set-up checks only that the queue is
not too small. `netBody_inRange` and `rngBody_inRange` say that the accesses of the drivers
are such as the runs are made of, and `initMem_run` that the receive queue is filled by a run.
-/

namespace Yasouos.Drivers.VirtioLayout

open Theory Prog ByteQueue
open VirtioNet (Arch Transport)
open VirtioInit (Reg Drv Virtio readBits giveUp virtioNetInitVirtqueue virtioRngInitContext)

/-! ### Structures in C -/

/-- The next multiple of `a`. -/
def roundUp (n a : ℕ) : ℕ := (n + a - 1) / a * a

/-- What the compiler knows of a type. -/
structure CType where
  /-- `sizeof`. -/
  size : ℕ
  /-- `_Alignof`. -/
  align : ℕ
  deriving DecidableEq

/-- `uint8_t`. -/
def u8 : CType := ⟨1, 1⟩

/-- `uint16_t`. -/
def u16 : CType := ⟨2, 2⟩

/-- `uint32_t`. -/
def u32 : CType := ⟨4, 4⟩

/-- `uint64_t`. -/
def u64 : CType := ⟨8, 8⟩

/-- An array. -/
def CType.array (t : CType) (n : ℕ) : CType := ⟨t.size * n, t.align⟩

/-- The offsets of the fields of a structure, from `start` on, and where the last one ends. -/
def place : ℕ → List CType → List ℕ × ℕ
  | start, [] => ([], start)
  | start, t :: ts =>
    let offset := roundUp start t.align
    let rest := place (offset + t.size) ts
    (offset :: rest.1, rest.2)

/-- The offsets of the fields of a structure. -/
def offsets (fields : List CType) : List ℕ := (place 0 fields).1

/-- A structure as a type. -/
def struct (fields : List CType) : CType :=
  let align := (fields.map CType.align).foldl max 1
  ⟨roundUp (place 0 fields).2 align, align⟩

theorem roundUp_of_dvd {n a : ℕ} (ha : 0 < a) (h : a ∣ n) : roundUp n a = n := by
  obtain ⟨k, rfl⟩ := h
  rw [roundUp, Nat.add_sub_assoc ha, Nat.mul_add_div ha, Nat.div_eq_of_lt (by omega), Nat.add_zero, Nat.mul_comm]

/-! ### The queues of the drivers -/

/-- The fields of `virtio_net_desc_t` and `virtio_rng_desc_t`. -/
def descFields : List CType := [u64, u32, u16, u16]

/-- The fields of the available ring. -/
def availFields (n : ℕ) : List CType := [u16, u16, u16.array n, u16]

/-- The fields of an element of the used ring. -/
def usedElemFields : List CType := [u32, u32]

/-- The fields of the used ring. -/
def usedFields (n : ℕ) : List CType := [u16, u16, (struct usedElemFields).array n, u16]

/-- The fields of a queue: the descriptors, the available ring, padding, and the used ring. -/
def queueFields (n padding : ℕ) : List CType :=
  [(struct descFields).array n, struct (availFields n), u8.array padding, struct (usedFields n)]

/-- `virtio_net_queue_t`. -/
def virtioNetQueue : List CType :=
  queueFields VirtioNet.queueSize (4096 - 16 * VirtioNet.queueSize - (6 + 2 * VirtioNet.queueSize))

/-- `virtio_net_queue_pci_t`. -/
def virtioNetQueuePci : List CType :=
  queueFields VirtioNet.maxQueueSize (8192 - 16 * VirtioNet.maxQueueSize - (6 + 2 * VirtioNet.maxQueueSize))

/-- `virtio_rng_queue_t`, which has `last_used_idx` at its end. The padding is two bytes short
of the used ring, which is aligned. -/
def virtioRngQueue : List CType := queueFields VirtioRng.queueSize (4096 - 128 - 24) ++ [u16]

/-- The structure that a driver lays over a queue. -/
def queueStruct : Virtio → Transport → List CType
  | .net, .mmio => virtioNetQueue
  | .net, .pci => virtioNetQueuePci
  | .rng, _ => virtioRngQueue

/-- What a driver takes the slots of the rings modulo. -/
def slots : Virtio → Transport → ℕ
  | .net, tr => VirtioNet.ringSize tr
  | .rng, _ => VirtioRng.queueSize

/-- The layout of a driver. -/
def driverLayout (v : Virtio) (tr : Transport) : Layout :=
  ⟨slots v tr, (offsets (queueStruct v tr)).getD 1 0, (offsets (queueStruct v tr)).getD 3 0⟩

/-- A descriptor has its fields where a virtqueue has them. -/
theorem offsets_desc : offsets descFields = [0, 8, 12, 14] ∧ (struct descFields).size = 16 := by decide

/-- So has the available ring. -/
theorem offsets_avail (n : ℕ) : offsets (availFields n) = [0, 2, 4, 4 + 2 * n] := by
  have h : roundUp (4 + 2 * n) 2 = 4 + 2 * n := roundUp_of_dvd (by decide) (by omega)
  simp [offsets, availFields, place, u16, CType.array, h, show roundUp 0 2 = 0 from rfl, show roundUp 2 2 = 2 from rfl,
    show roundUp 4 2 = 4 from rfl]

/-- So has the used ring. -/
theorem offsets_used (n : ℕ) :
    offsets (usedFields n) = [0, 2, 4, 4 + 8 * n] ∧ offsets usedElemFields = [0, 4] ∧ struct usedElemFields = ⟨8, 4⟩ := by
  have h : roundUp (4 + 8 * n) 2 = 4 + 8 * n := roundUp_of_dvd (by decide) (by omega)
  have helem : struct usedElemFields = ⟨8, 4⟩ := by decide
  refine ⟨?_, by decide, helem⟩
  simp [offsets, usedFields, place, helem, u16, CType.array, h, show roundUp 0 2 = 0 from rfl,
    show roundUp 2 2 = 2 from rfl, show roundUp 4 4 = 4 from rfl]

/-- The rings of each structure: those of a queue with as many entries. -/
theorem driverLayout_eq (v : Virtio) (tr : Transport) :
    driverLayout v tr = ⟨slots v tr, 16 * slots v tr, roundUp (16 * slots v tr + 6 + 2 * slots v tr) 4096⟩ := by
  cases v <;> cases tr <;> decide

theorem driverLayout_wf (v : Virtio) (tr : Transport) : (driverLayout v tr).Wf := by
  cases v <;> cases tr <;> exact ⟨by decide, by decide, by decide⟩

/-! ### A legacy device -/

/-- The registers of a device, as far as they are about one queue. -/
structure Regs where
  /-- The size of the queue. -/
  num : ℕ
  /-- The alignment of the used ring. -/
  align : ℕ
  /-- The page of the queue. -/
  pfn : ℕ
  /-- The status of the device. -/
  status : ℕ

/-- A device with a queue of `N` entries. On PCI the alignment is fixed, on MMIO there is none
until it is written. -/
def powerOn (N : ℕ) : Transport → Regs
  | .pci => ⟨N, 4096, 0, 0⟩
  | .mmio => ⟨N, 1, 0, 0⟩

/-- What a register is read as, in a device that offers `N` entries. -/
def Regs.read (N : ℕ) (r : Regs) : Reg → ℕ
  | .version => 1
  | .queueNumMax => N
  | .queueNum => r.num
  | .queuePfn => r.pfn
  | .status => r.status
  | _ => 0

/-- A register is written. On PCI the size of the queue is read-only. -/
def Regs.write (tr : Transport) (r : Regs) : Reg → ℕ → Regs
  | .queueNum, v => if tr = .mmio then { r with num := v } else r
  | .queueAlign, v => { r with align := v }
  | .queuePfn, v => { r with pfn := v }
  | .status, v => { r with status := v }
  | _, _ => r

/-- Where the device has the rings. -/
def deviceLayout (r : Regs) : Layout := ⟨r.num, 16 * r.num, roundUp (16 * r.num + 6 + 2 * r.num) r.align⟩

variable (tr : Transport) (N : ℕ)

/-- What an access does to the device. -/
def respond : (o : VirtioInit.Op) → Regs → VirtioInit.Ans o × Regs
  | .read reg, r => (r.read N reg, r)
  | .write reg v, r => ((), r.write tr reg v)

/-- Run a program against the device. -/
def serve {α : Type} (p : Drv α) (r : Regs) : α × Regs := p.runOn (respond tr N) r

/-- The function that sets a queue up: `virtio_net_init_virtqueue` for queue `i`, or
`virtio_rng_init_context`. -/
def setUp (v : Virtio) (pfn : ℕ → ℕ) (i : ℕ) : Drv ℤ :=
  match v with
  | .net => virtioNetInitVirtqueue pfn i tr
  | .rng => virtioRngInitContext pfn tr

variable (v : Virtio) (pfn : ℕ → ℕ) (i : ℕ)

/-- The driver accepts the queue. -/
def Accepts : Prop := (serve tr N (setUp tr v pfn i) (powerOn N tr)).1 = 0

instance : Decidable (Accepts tr N v pfn i) := inferInstanceAs (Decidable (_ = _))

/-- The registers after the set-up. -/
def negotiated : Regs := (serve tr N (setUp tr v pfn i) (powerOn N tr)).2

/-- The sizes that a legacy device can have: powers of two, up to 32768. -/
def Legal : Prop := ∃ k ≤ 15, N = 2 ^ k

/-- **The driver and the device agree.** The rings are where they are in a queue of the size
that was negotiated, and in every run both see the same queue. -/
structure Agrees : Prop where
  avail : (driverLayout v tr).avail = 16 * (negotiated tr N v pfn i).num
  used : (driverLayout v tr).used =
    roundUp (16 * (negotiated tr N v pfn i).num + 6 + 2 * (negotiated tr N v pfn i).num) 4096
  slots : (driverLayout v tr).num = (negotiated tr N v pfn i).num
  runs : RunsAgree (driverLayout v tr) (deviceLayout (negotiated tr N v pfn i))

/-! ### The size that is negotiated -/

section Serve

variable {α β : Type} {tr N} (r : Regs)

@[simp] theorem serve_ret (a : α) : serve tr N (.ret a) r = (a, r) := rfl

@[simp] theorem serve_bind (p : Drv α) (f : α → Drv β) :
    serve tr N (p >>= f) r = serve tr N (f (serve tr N p r).1) (serve tr N p r).2 :=
  runOn_bind (respond tr N) p f r

@[simp] theorem serve_readBits (bits : ℕ) (reg : Reg) :
    serve tr N (readBits bits reg) r = (r.read N reg % 2 ^ bits, r) := (rfl)

@[simp] theorem serve_write (reg : Reg) (w : ℕ) :
    serve tr N (VirtioInit.write reg w) r = ((), r.write tr reg w) := (rfl)

theorem serve_ite (c : Prop) [Decidable c] (p q : Drv α) :
    serve tr N (if c then p else q) r = if c then serve tr N p r else serve tr N q r :=
  runOn_ite (respond tr N) c p q r

end Serve

/-- The size that the device goes by. -/
def size : ℕ :=
  match tr with
  | .mmio => slots v .mmio
  | .pci => N

variable {tr N v pfn i}

theorem negotiated_net (h : Accepts tr N .net pfn i) :
    (negotiated tr N .net pfn i).num = size tr N .net ∧ (negotiated tr N .net pfn i).align = 4096 := by
  unfold Accepts setUp at h
  unfold negotiated setUp
  cases tr <;> simp only [virtioNetInitVirtqueue, serve_bind, serve_readBits, serve_write, serve_ite, pure_eq,
    serve_ret] at h ⊢
  · split_ifs at h ⊢
    · simp at h
    · simp at h
    · exact ⟨rfl, rfl⟩
  · split_ifs at h ⊢
    · simp at h
    · simp at h
    · exact ⟨rfl, rfl⟩

theorem serve_rngFeatures_pci (r : Regs) :
    serve .pci N (VirtioInit.rngFeatures .pci) r = (true, { r with status := 3 }) := (rfl)

theorem serve_rngFeatures_mmio (r : Regs) :
    serve .mmio N (VirtioInit.rngFeatures .mmio) r = (true, { r with status := 11 }) := by
  simp only [VirtioInit.rngFeatures, serve_bind, serve_write, serve_readBits, pure_eq, serve_ret, Regs.read, Regs.write]
  rfl

/-- The registers after the queue of `virtio_rng_init_context` is set. -/
theorem serve_rngQueue {r : Regs} (hr : tr = .pci → r.num = N ∧ r.align = 4096)
    (h : (serve tr N (VirtioInit.rngQueue pfn 1 tr) r).1 = 0) :
    (serve tr N (VirtioInit.rngQueue pfn 1 tr) r).2.num = size tr N .rng ∧
      (serve tr N (VirtioInit.rngQueue pfn 1 tr) r).2.align = 4096 := by
  cases tr <;> simp only [VirtioInit.rngQueue, VirtioInit.rngQueueSize, VirtioInit.rngDriverOk, giveUp, serve_bind,
    serve_readBits, serve_write, serve_ite, pure_eq, serve_ret, Regs.read, Regs.write, reduceCtorEq, if_true, if_false,
    and_false, and_true] at h ⊢
  · split_ifs at h ⊢ with hsize hpfn hok
    · simp at h
    · simp at h
    · simp at h
    · exact ⟨rfl, rfl⟩
  · split_ifs at h ⊢ with hsize hpfn hok
    · simp at h
    · simp at h
    · simp at h
    · exact hr rfl

theorem negotiated_rng (h : Accepts tr N .rng pfn i) :
    (negotiated tr N .rng pfn i).num = size tr N .rng ∧ (negotiated tr N .rng pfn i).align = 4096 := by
  have hversion : ¬ (1 % 2 ^ 32 ≠ 1 ∧ 1 % 2 ^ 32 ≠ 2) := by decide
  unfold Accepts setUp at h
  unfold negotiated setUp
  cases tr with
  | mmio =>
    simp only [virtioRngInitContext, serve_bind, serve_readBits, serve_rngFeatures_mmio, Regs.read, true_and, if_neg hversion,
      reduceCtorEq, if_false, if_true] at h ⊢
    exact serve_rngQueue (fun h => absurd h (by decide)) h
  | pci =>
    simp only [virtioRngInitContext, serve_bind, serve_readBits, serve_rngFeatures_pci, reduceCtorEq, false_and,
      if_false, if_true] at h ⊢
    exact serve_rngQueue (fun _ => ⟨rfl, rfl⟩) h

/-- On MMIO the driver has chosen the size, on PCI the device has. -/
theorem negotiated_of_accepts (h : Accepts tr N v pfn i) :
    (negotiated tr N v pfn i).num = size tr N v ∧ (negotiated tr N v pfn i).align = 4096 := by
  cases v with
  | net => exact negotiated_net h
  | rng => exact negotiated_rng h

/-- The device has the layout of the driver if it has as many entries. -/
theorem deviceLayout_negotiated (h : Accepts tr N v pfn i) (hsize : slots v tr = size tr N v) :
    deviceLayout (negotiated tr N v pfn i) = driverLayout v tr := by
  obtain ⟨hnum, halign⟩ := negotiated_of_accepts h
  rw [deviceLayout, driverLayout_eq, hnum, halign, hsize]

/-- The runs alone tell the layouts apart. -/
theorem runsAgree_iff (h : Accepts tr N v pfn i) :
    RunsAgree (driverLayout v tr) (deviceLayout (negotiated tr N v pfn i)) ↔ slots v tr = size tr N v := by
  constructor
  · intro hruns
    by_contra hsize
    obtain ⟨hnum, -⟩ := negotiated_of_accepts h
    refine not_runsAgree ?_ hruns
    rw [driverLayout_eq, deviceLayout, hnum]
    dsimp only
    omega
  · intro hsize
    rw [deviceLayout_negotiated h hsize]
    exact runsAgree (driverLayout_wf v tr)

theorem slots_eq_size_iff : slots v tr = size tr N v ↔ tr = .mmio ∨ N = slots v tr := by
  cases tr with
  | mmio => simp [size]
  | pci => simp [size, eq_comm]

/-- **The driver and the device agree exactly if the driver can choose the size, or the device
has the size that the driver's structure was written for**: whatever size a device offers that
the driver accepts. -/
theorem agrees_iff (h : Accepts tr N v pfn i) : Agrees tr N v pfn i ↔ tr = .mmio ∨ N = slots v tr := by
  obtain ⟨hnum, -⟩ := negotiated_of_accepts h
  rw [← slots_eq_size_iff]
  constructor
  · intro hagrees
    exact (runsAgree_iff h).mp hagrees.runs
  · intro hsize
    have hlayout := driverLayout_eq v tr
    refine ⟨?_, ?_, ?_, (runsAgree_iff h).mpr hsize⟩
    · rw [hnum, ← hsize, hlayout]
    · rw [hnum, ← hsize, hlayout]
    · rw [hnum, ← hsize, hlayout]

/-- A network device on PCI with queues of 256 entries. -/
theorem agrees_256 : Accepts .pci 256 .net (fun i => i + 1) 0 ∧ Agrees .pci 256 .net (fun i => i + 1) 0 := by
  have haccepts : Accepts .pci 256 .net (fun i => i + 1) 0 := by decide
  exact ⟨haccepts, (agrees_iff haccepts).mpr (.inr rfl)⟩

/-- A network device on PCI with queues of 512 entries is accepted. -/
theorem not_agrees_512 :
    ¬ ∀ tr N v pfn i, Legal N → Accepts tr N v pfn i → Agrees tr N v pfn i := by
  intro h
  have haccepts : Accepts .pci 512 .net (fun i => i + 1) 0 := by decide
  have hagrees := h .pci 512 .net (fun i => i + 1) 0 ⟨9, by decide, rfl⟩ haccepts
  have hslots : slots .net .pci = 512 := (runsAgree_iff haccepts).mp hagrees.runs
  exact absurd hslots (by decide)

/-! ### The accesses of the drivers -/

section Net

open VirtioNet

/-- An access of the network driver is to what is there in a queue with `n` slots. -/
def NetInRange (n : ℕ) : Op → Prop
  | .queue _ _ o => InRange n o
  | .readRx _ | .writeTx _ _ | .notify _ => True

variable (arch : Arch) (tr : Transport) (ctx : Ctx)

theorem mod_ringSize_lt (k : ℕ) : k % ringSize tr < ringSize tr := Nat.mod_lt _ (by cases tr <;> decide)

theorem publish_inRange (which : Queue) {d : ℕ} (hd : d < queueSize) :
    (VirtioNet.publish tr ctx which d).All (NetInRange (ringSize tr)) fun _ => True := by
  have hd16 : d < 2 ^ 16 := hd.trans (by decide)
  refine ⟨trivial, fun (k : ℕ) => ⟨⟨mod_ringSize_lt tr k, hd16⟩, fun _ => ⟨trivial, fun (k : ℕ) => ?_⟩⟩⟩
  exact ⟨Virtqueue.mod_idxMod_lt _, fun _ => ⟨trivial, fun _ => trivial⟩⟩

theorem readBytes_inRange (a k : ℕ) : (readBytes a k).All (NetInRange (ringSize tr)) fun bs => bs.length = k := by
  refine readEach_all (fun i => ?_) a k
  exact perform_all (P := NetInRange (ringSize tr)) trivial

theorem writeBytes_inRange (a : ℕ) (bs : List UInt8) :
    (writeBytes a bs).All (NetInRange (ringSize tr)) fun _ => True := by
  refine writeEach_all (fun i b => ?_) a bs
  exact perform_all (P := NetInRange (ringSize tr)) trivial

theorem receive_inRange (n : ℕ) : (virtioNetReceive arch tr n ctx).All (NetInRange (ringSize tr)) fun _ => True := by
  unfold virtioNetReceive
  split_ifs with hinit
  · trivial
  refine ⟨trivial, fun (k : ℕ) => ?_⟩
  change Prog.All _ _ (if k = ctx.rxLastUsedIdx then _ else _)
  split_ifs with hidx
  · trivial
  refine ⟨mod_ringSize_lt tr _, fun (e : VUsed) => ?_⟩
  change Prog.All _ _ (receiveUsed arch tr n ctx e.id e.len)
  unfold receiveUsed
  dsimp only
  split_ifs with hid
  iterate 4 trivial
  exact (readBytes_inRange tr _ _).bind fun _ _ => (publish_inRange tr _ .rx (not_le.mp hid)).bind fun _ _ => trivial

theorem reclaimLoop_inRange (usedIdx k : ℕ) :
    (reclaimLoop tr usedIdx k ctx).All (NetInRange (ringSize tr)) fun _ => True := by
  induction k generalizing ctx with
  | zero => trivial
  | succ k ih =>
    unfold reclaimLoop
    split_ifs with h
    · trivial
    · exact ⟨mod_ringSize_lt tr _, fun (e : VUsed) => ih (ctx.reclaimed e.id)⟩

theorem transmit_inRange (packet : List UInt8) :
    (virtioNetTransmit arch tr packet ctx).All (NetInRange (ringSize tr)) fun _ => True := by
  have hoffset : rxBufferOffset arch ≤ 2 := by cases arch <;> decide
  have hring := queueSize_le_ringSize tr
  unfold virtioNetTransmit
  split_ifs with hpacket
  · trivial
  have hreclaim : (virtioNetReclaimTx tr ctx).All (NetInRange (ringSize tr)) fun _ => True :=
    ⟨trivial, fun _ => reclaimLoop_inRange tr ctx _ _⟩
  refine hreclaim.bind fun c _ => ?_
  cases hfind : findFree c.txDescInUse with
  | none => trivial
  | some d =>
    obtain ⟨hd, -⟩ := Virtqueue.firstFree_some hfind
    refine (writeBytes_inRange tr _ _).bind fun _ _ => (writeBytes_inRange tr _ _).bind fun _ _ => ⟨?_, fun _ => ?_⟩
    · refine ⟨by omega, ?_, ?_, by simp, by simp⟩
      · simp only [queueSize, maxPacketSize] at *
        omega
      · simp only [not_or, hdrLen, maxPacketSize] at *
        omega
    · exact (publish_inRange tr _ .tx hd).bind fun _ _ => trivial

/-- One round of the loop that fills the receive queue makes three accesses. -/
theorem populate_run (s : Mem) {i : ℕ} (hi : i < queueSize) :
    ∃ moves : List Move, (∀ m ∈ moves, m.InRange (ringSize tr)) ∧
      moves.foldlM (queueStep (ringSize tr)) s.rxq = some (populate arch tr s i).rxq := by
  have hring := queueSize_le_ringSize tr
  have hdesc : InRange (ringSize tr) (.writeDesc i (rxDesc arch i)) := by
    refine ⟨by omega, ?_, ?_, by simp [rxDesc, descFWrite], by simp [rxDesc]⟩
    · have hoffset : rxBufferOffset arch ≤ 2 := by cases arch <;> decide
      simp only [rxDesc, queueSize, maxPacketSize] at *
      omega
    · simp only [rxDesc, maxPacketSize]
      omega
  have hslot : InRange (ringSize tr) (.writeAvail (s.rxq.availIdx % ringSize tr) i) :=
    ⟨mod_ringSize_lt tr _, hi.trans (by decide)⟩
  have hidx : InRange (ringSize tr) (.writeAvailIdx ((s.rxq.availIdx + 1) % Virtqueue.idxMod)) :=
    Virtqueue.mod_idxMod_lt _
  refine ⟨[.driver (.writeDesc i (rxDesc arch i)), .driver (.writeAvail (s.rxq.availIdx % ringSize tr) i),
    .driver (.writeAvailIdx ((s.rxq.availIdx + 1) % Virtqueue.idxMod))], ?_, rfl⟩
  intro m hm
  simp only [List.mem_cons, List.not_mem_nil, or_false] at hm
  rcases hm with rfl | rfl | rfl
  · exact hdesc
  · exact hslot
  · exact hidx

/-- The receive queue as `virtio_net_init_context` leaves it is reached by a run. -/
theorem initMem_run : ∃ moves : List Move, (∀ m ∈ moves, m.InRange (ringSize tr)) ∧
    moves.foldlM (queueStep (ringSize tr)) Virtqueue.zero = some (initMem arch tr).rxq := by
  have hrun : ∀ l : List ℕ, (∀ i ∈ l, i < queueSize) → ∀ s : Mem, ∃ moves : List Move,
      (∀ m ∈ moves, m.InRange (ringSize tr)) ∧
        moves.foldlM (queueStep (ringSize tr)) s.rxq = some (l.foldl (populate arch tr) s).rxq := by
    intro l
    induction l with
    | nil => exact fun _ s => ⟨[], by simp, rfl⟩
    | cons i l ih =>
      intro hl s
      obtain ⟨first, hfirst, hs⟩ := populate_run arch tr s (hl i (by simp))
      obtain ⟨rest, hrest, hl⟩ := ih (fun j hj => hl j (by simp [hj])) (populate arch tr s i)
      refine ⟨first ++ rest, ?_, ?_⟩
      · intro m hm
        rcases List.mem_append.mp hm with hm | hm
        · exact hfirst m hm
        · exact hrest m hm
      · rw [List.foldlM_append, hs]
        exact hl
  exact hrun (List.range queueSize) (fun i hi => List.mem_range.mp hi)
    ⟨Virtqueue.zero, Virtqueue.zero, fun _ => 0, fun _ => 0, []⟩

/-- Every access of the network driver is one of a run on a queue with as many slots as its
structure has. -/
theorem netBody_inRange (minLen : ℕ) (call : Call) :
    ((net arch tr minLen).body call ctx).All (NetInRange (driverLayout .net tr).num) fun _ => True := by
  cases call with
  | receive n => exact receive_inRange arch tr ctx n
  | transmit packet => exact transmit_inRange arch tr ctx packet

end Net

section Rng

open VirtioRng

/-- An access of the driver of the random number generator is to what is there in a queue with
`n` slots. -/
def RngInRange (n : ℕ) : Op → Prop
  | .queue o => InRange n o
  | .poll _ _ | .readBuffer _ | .notify => True

theorem poll_inRange (ctx : Ctx) (count : ℕ) : (poll ctx count).All (RngInRange queueSize) fun _ => True := by
  induction count with
  | zero => exact ⟨trivial, fun _ => trivial⟩
  | succ count ih =>
    refine ⟨trivial, fun (k : ℕ) => ?_⟩
    change Prog.All _ _ (if k = ctx.lastUsedIdx then _ else _)
    split_ifs
    · exact ih
    · trivial

theorem rngPublish_inRange {d size : ℕ} (hd : d < queueSize) (hsize : size ≤ bufferSize) :
    (VirtioRng.publish d size).All (RngInRange queueSize) fun _ => True := by
  have hd16 : d < 2 ^ 16 := hd.trans (by decide)
  have hsize32 : size < 2 ^ 32 := hsize.trans_lt (by decide)
  refine ⟨⟨hd, by simp, hsize32, by simp [descFWrite], by simp⟩, fun _ => ⟨trivial, fun (k : ℕ) => ?_⟩⟩
  refine ⟨⟨Nat.mod_lt _ (by decide), hd16⟩, fun _ => ⟨trivial, fun (k : ℕ) => ?_⟩⟩
  exact ⟨Virtqueue.mod_idxMod_lt _, fun _ => ⟨trivial, fun _ => trivial⟩⟩

theorem readBuffer_inRange (k : ℕ) : (readBuffer k).All (RngInRange queueSize) fun bs => bs.length = k := by
  refine readEach_all (fun i => ?_) 0 k
  exact perform_all (P := RngInRange queueSize) trivial

theorem finish_inRange (ctx : Ctx) (d size count : ℕ) :
    (finish ctx d size count).All (RngInRange queueSize) fun _ => True := by
  unfold finish
  split_ifs with hcount
  · trivial
  · refine ⟨Nat.mod_lt _ (by decide), fun (e : VUsed) => ?_⟩
    exact (readBuffer_inRange _).bind fun _ _ => trivial

/-- Every access of the driver of the random number generator is one of a run on a queue with as
many slots as its structure has. -/
theorem rngBody_inRange (tr : Transport) (size : ℕ) (ctx : Ctx) :
    (rng.body size ctx).All (RngInRange (driverLayout .rng tr).num) fun _ => True := by
  change (virtioRngRead size ctx).All (RngInRange queueSize) fun _ => True
  have hsize : (if size > bufferSize then bufferSize else size) ≤ bufferSize := by
    split_ifs <;> omega
  unfold virtioRngRead
  generalize (if size > bufferSize then bufferSize else size) = size' at hsize ⊢
  split_ifs with hzero hinit
  · trivial
  · trivial
  cases hfind : Virtqueue.firstFree queueSize ctx.descInUse with
  | none => trivial
  | some d =>
    obtain ⟨hd, -⟩ := Virtqueue.firstFree_some hfind
    refine (rngPublish_inRange hd hsize).bind fun _ _ => ?_
    exact (poll_inRange _ _).bind fun count _ => finish_inRange _ d size' count

end Rng

end Yasouos.Drivers.VirtioLayout
