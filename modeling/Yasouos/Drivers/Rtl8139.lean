import Yasouos.Theory.Memory
import Yasouos.Theory.Ring

/-!
# The RTL8139 driver

`rtl8139_receive` and `rtl8139_transmit` of `drivers/rtl8139/rtl8139.c`, and the receive
ring and the four transmit slots of the device.

## The model

`Ctx` has the fields of `rtl8139_t` that only the driver uses, `Mem` the buffers and the
registers. Left out are `mmio_base`, `use_mmio` and `mac_addr`, which say how the
registers are reached, `rx_offset`, which nothing uses, and the delay loop of the receive
path; the pointers a caller passes are taken not to be `NULL`.

The device stores each packet behind a header of four bytes, the status and the length
(which counts the four bytes of the CRC), and starts the next one at the next multiple of
four. The WRAP bit of `RCR` is set, so it stores a packet contiguously, past the end of
the 8192-byte ring if it must; the ring has room for that behind it, and a packet that
would not fit there is not stored. It keeps the driver from falling behind: a packet that
would reach the byte the driver is at, as `CAPR` says, is dropped. The bit `BUFE` of the
command register says that the driver has caught up.

The registers `TSAD0` to `TSAD3` and `TSD0` to `TSD3` are the transmit slots. Writing the
length to a slot's `TSD` starts it, and the device sends the slots in the order in which
they were started. `tx_buffer` is at address 0 of `txBuffer`.

`Mem.stored` and `Mem.sent` are not in the memory of the machine: they record the packets
the device has stored and has sent.
-/

namespace Yasouos.Drivers.Rtl8139

open Theory Prog

/-! ### Constants -/

/-- The size of the receive ring. -/
abbrev ringSize : ℕ := 8192

/-- `RTL8139_RX_BUFFER_SIZE`. -/
abbrev rxBufferSize : ℕ := 8192 + 16 + 1536

/-- The size of `tx_buffer`. -/
abbrev txBufferSize : ℕ := 2048

/-- The registers `CAPR` and `CBR` are 16 bits wide. -/
abbrev regMod : ℕ := 65536

/-- `RTL8139_CMD_BUFE`. -/
def cmdBUFE : UInt8 := 1

/-- `RTL8139_CMD_RE | RTL8139_CMD_TE`. -/
def cmdRETE : UInt8 := 8 ||| 4

/-- `RTL8139_INT_RXOK`. -/
def intRXOK : UInt16 := 1

/-! ### The context -/

/-- The fields of `rtl8139_t` that only the driver uses. -/
structure Ctx where
  /-- `initialized`. -/
  initialized : Bool
  /-- `tx_current`. -/
  txCurrent : ℕ
  deriving DecidableEq

/-- What the driver and the device share. -/
structure Mem where
  /-- `rx_buffer`. -/
  rxBuffer : ℕ → UInt8
  /-- The register `CAPR`. -/
  capr : ℕ
  /-- The register `CBR`: where the device stores the next packet. -/
  cbr : ℕ
  /-- The register `ISR`. -/
  isr : UInt16
  /-- The packets the device has stored, without their CRC, oldest first. -/
  stored : List (List UInt8)
  /-- `tx_buffer`. -/
  txBuffer : ℕ → UInt8
  /-- The registers `TSAD0` to `TSAD3`. -/
  tsad : ℕ → ℕ
  /-- The lengths in the registers `TSD0` to `TSD3`. -/
  tsd : ℕ → ℕ
  /-- The slots that were started and are not yet sent, oldest first. -/
  started : List ℕ
  /-- The packets the device has sent, oldest first. -/
  sent : List (List UInt8)

/-- Where in the ring the driver is. -/
def Mem.offset (s : Mem) : ℕ := (s.capr + 16) % ringSize

/-- The command register: the receiver and the transmitter are on, and `BUFE` says that
the ring is empty. -/
def Mem.cmd (s : Mem) : UInt8 := (if s.offset = s.cbr then cmdBUFE else 0) ||| cmdRETE

/-- The packet of a transmit slot. -/
def Mem.slotPacket (s : Mem) (d : ℕ) : List UInt8 := load s.txBuffer (s.tsad d) (s.tsd d)

/-! ### Accesses -/

/-- An access of the driver to what it shares with the device. -/
inductive Op where
  /-- Read the command register. -/
  | readCmd
  /-- Read `CAPR`. -/
  | readCapr
  /-- Read 16 bits of `rx_buffer`. -/
  | readRx16 (a : ℕ)
  /-- Read a byte of `rx_buffer`. -/
  | readRx (a : ℕ)
  /-- Read `ISR`. -/
  | readIsr
  /-- Write `ISR`, which clears the bits that are set in `v`. -/
  | writeIsr (v : UInt16)
  /-- Write `CAPR`. -/
  | writeCapr (v : ℕ)
  /-- Write a byte of `tx_buffer`. -/
  | writeTx (a : ℕ) (b : UInt8)
  /-- Write the address of a transmit slot. -/
  | writeTsad (d a : ℕ)
  /-- Write the length of a transmit slot, which starts it. -/
  | writeTsd (d n : ℕ)

/-- What an access answers. -/
def Ans : Op → Type
  | .readCmd | .readRx _ => UInt8
  | .readCapr | .readRx16 _ => ℕ
  | .readIsr => UInt16
  | .writeIsr _ | .writeCapr _ | .writeTx _ _ | .writeTsad _ _ | .writeTsd _ _ => Unit

/-- What an access does. -/
def exec : (o : Op) → Mem → Ans o × Mem
  | .readCmd, s => (s.cmd, s)
  | .readCapr, s => (s.capr, s)
  | .readRx16 a, s => ((s.rxBuffer a).toNat + 256 * (s.rxBuffer (a + 1)).toNat, s)
  | .readRx a, s => (s.rxBuffer a, s)
  | .readIsr, s => (s.isr, s)
  | .writeIsr v, s => ((), { s with isr := s.isr &&& ~~~v })
  | .writeCapr v, s => ((), { s with capr := v })
  | .writeTx a b, s => ((), { s with txBuffer := Function.update s.txBuffer a b })
  | .writeTsad d a, s => ((), { s with tsad := Function.update s.tsad d a })
  | .writeTsd d n, s =>
    ((), { s with tsd := Function.update s.tsd d n
                  started := if d ∈ s.started then s.started else s.started ++ [d] })

/-- A driver program. -/
abbrev Drv := Prog Op Ans

/-- Read the command register. -/
def readCmd : Drv UInt8 := perform Op.readCmd

/-- Read `CAPR`. -/
def readCapr : Drv ℕ := perform Op.readCapr

/-- Read 16 bits of `rx_buffer`. -/
def readRx16 (a : ℕ) : Drv ℕ := perform (Op.readRx16 a)

/-- Read `ISR`. -/
def readIsr : Drv UInt16 := perform Op.readIsr

/-- Write `ISR`. -/
def writeIsr (v : UInt16) : Drv Unit := perform (Op.writeIsr v)

/-- Write `CAPR`. -/
def writeCapr (v : ℕ) : Drv Unit := perform (Op.writeCapr v)

/-! ### The driver -/

/-- What a call returns: its return code, what it has stored in `*received_length`, if
anything, and what it has copied to the caller's buffer. -/
structure Ret where
  /-- The return code. -/
  code : ℤ
  /-- `*received_length`. -/
  receivedLength : Option ℕ
  /-- The bytes at the start of the caller's buffer. -/
  buffer : List UInt8
  deriving DecidableEq

/-- `return -1`. -/
def Ret.fail : Ret := ⟨-1, none, []⟩

/-- `(n + 3) & ~3`. -/
def align4 (n : ℕ) : ℕ := (n + 3) / 4 * 4

/-- The copy loop and the end of `rtl8139_receive`, for a packet of `packetLength` bytes
without the CRC. -/
def receivePacket (size : ℕ) (ctx : Ctx) (offset packetLength : ℕ) : Drv (Ctx × Ret) := do
  if packetLength > size then
    return (ctx, .fail)
  let data ← readEach (fun i => (perform (Op.readRx ((offset + 4 + i) % ringSize)) : Drv UInt8)) 0 packetLength
  writeCapr ((align4 (offset + packetLength + 4) % ringSize + (regMod - 16)) % regMod)
  return (ctx, ⟨0, some packetLength, data⟩)

/-- Write back the interrupts that were found set. -/
def acknowledge (isr : UInt16) : Drv Unit := if isr ≠ 0 then writeIsr isr else return ()

/-- `rtl8139_receive` once it has read the header of a packet. -/
def receiveHeader (size : ℕ) (ctx : Ctx) (offset packetStatus packetLength : ℕ) : Drv (Ctx × Ret) := do
  if packetStatus % 2 = 0 ∨ packetLength < 4 then
    return (ctx, .fail)
  let isr ← readIsr
  acknowledge isr
  receivePacket size ctx offset (packetLength - 4)

/-- `rtl8139_receive`, with a buffer of `size` bytes. -/
def rtl8139Receive (size : ℕ) (ctx : Ctx) : Drv (Ctx × Ret) := do
  if !ctx.initialized then
    return (ctx, .fail)
  let cmd ← readCmd
  if cmd &&& cmdBUFE ≠ 0 then
    return (ctx, .fail)
  let capr ← readCapr
  let packetStatus ← readRx16 ((capr + 16) % ringSize)
  let packetLength ← readRx16 ((capr + 16) % ringSize + 2)
  receiveHeader size ctx ((capr + 16) % ringSize) packetStatus packetLength

/-- `rtl8139_transmit`. -/
def rtl8139Transmit (packet : List UInt8) (ctx : Ctx) : Drv (Ctx × Ret) := do
  if !ctx.initialized ∨ packet.length > txBufferSize ∨ packet.length < 1 then
    return (ctx, .fail)
  writeEach (fun a b => (perform (Op.writeTx a b) : Drv Unit)) 0 packet
  (perform (Op.writeTsad ctx.txCurrent 0) : Drv Unit)
  (perform (Op.writeTsd ctx.txCurrent packet.length) : Drv Unit)
  return ({ ctx with txCurrent := (ctx.txCurrent + 1) % 4 }, ⟨0, none, []⟩)

/-- The shared memory as `rtl8139_init_context` leaves it. -/
def initMem : Mem where
  rxBuffer _ := 0
  capr := 0xFFF0
  cbr := 0
  isr := 0
  stored := []
  txBuffer _ := 0
  tsad _ := 0
  tsd _ := 0
  started := []
  sent := []

/-- The driver's own fields as `rtl8139_init_context` leaves them. -/
def initCtx : Ctx := ⟨true, 0⟩

/-! ### The device -/

/-- Where the packet after one at `p` with length field `len` starts. -/
def nextStart (p len : ℕ) : ℕ := align4 (p + 4 + len) % ringSize

/-- What the device stores for a packet: the status, the length, the packet, the CRC. -/
def frame (lo hi : UInt8) (data crc : List UInt8) : List UInt8 :=
  [lo, hi, UInt8.ofNat (data.length + 4), UInt8.ofNat ((data.length + 4) / 256)] ++ data ++ crc

/-- A move of the device. -/
inductive Dev where
  /-- Store a packet, with these two status bytes and this CRC. -/
  | arrive (lo hi : UInt8) (data crc : List UInt8)
  /-- Send the slot that was started first. -/
  | send

/-- **The device as specified.** A stored packet has bit 0 of its status set and a CRC of
four bytes. -/
def device : Dev → Mem → Option Mem
  | .arrive lo hi data crc, s =>
    if lo.toNat % 2 = 1 ∧ crc.length = 4 ∧ s.cbr + 4 + (data.length + 4) ≤ rxBufferSize ∧
        ringDist ringSize s.offset s.cbr + align4 (4 + (data.length + 4)) < ringSize then
      some { s with
        rxBuffer := store s.rxBuffer s.cbr (frame lo hi data crc)
        cbr := nextStart s.cbr (data.length + 4)
        isr := s.isr ||| intRXOK
        stored := s.stored ++ [data] }
    else none
  | .send, s =>
    match s.started with
    | [] => none
    | d :: rest => some { s with sent := s.sent ++ [s.slotPacket d], started := rest }

/-! ### The system -/

/-- A call of the driver. -/
inductive Call where
  /-- `rtl8139_receive` with a buffer of that size. -/
  | receive (size : ℕ)
  /-- `rtl8139_transmit` of that packet. -/
  | transmit (packet : List UInt8)
  deriving DecidableEq

/-- The driver and the device. -/
def nic : System Op Ans Mem Dev Call Ctx Ret where
  exec := exec
  env := device
  body
    | .receive n => rtl8139Receive n
    | .transmit p => rtl8139Transmit p

/-- An initialised context, before any call. -/
def start : Cfg Op Ans Mem Call Ctx Ret := .start initCtx initMem

/-- A call that has returned. -/
abbrev Entry := Done Call Ctx Ret

/-! ### What the two paths touch -/

/-- An access of the receive path other than its first. -/
def TouchesRx : Op → Prop
  | .readCapr | .readRx16 _ | .readRx _ | .readIsr | .writeIsr _ | .writeCapr _ => True
  | _ => False

/-- An access of the transmit path. -/
def TouchesTx : Op → Prop
  | .writeTx _ _ | .writeTsad _ _ | .writeTsd _ _ => True
  | _ => False

/-- What belongs to the transmit slots is the same. -/
def SameTx (s s' : Mem) : Prop :=
  s'.txBuffer = s.txBuffer ∧ s'.tsad = s.tsad ∧ s'.tsd = s.tsd ∧ s'.started = s.started ∧ s'.sent = s.sent

/-- What belongs to the receive ring is the same. -/
def SameRx (s s' : Mem) : Prop :=
  s'.rxBuffer = s.rxBuffer ∧ s'.capr = s.capr ∧ s'.cbr = s.cbr ∧ s'.stored = s.stored

theorem exec_touchesRx {o : Op} (h : TouchesRx o ∨ o = .readCmd) (s : Mem) : SameTx s (exec o s).2 := by
  rcases h with h | rfl
  · cases o <;> first | exact ⟨rfl, rfl, rfl, rfl, rfl⟩ | cases h
  · exact ⟨rfl, rfl, rfl, rfl, rfl⟩

theorem exec_touchesTx {o : Op} (h : TouchesTx o) (s : Mem) : SameRx s (exec o s).2 := by
  cases o <;> first | exact ⟨rfl, rfl, rfl, rfl⟩ | cases h

theorem acknowledge_all (isr : UInt16) : (acknowledge isr).All (fun o => ∃ v, o = .writeIsr v) fun _ => True := by
  unfold acknowledge
  split_ifs with h
  · exact ⟨⟨isr, rfl⟩, fun _ => trivial⟩
  · exact trivial

/-- The copy loop only reads the buffer. -/
theorem readRx_all (offset n : ℕ) :
    (readEach (fun i => (perform (Op.readRx ((offset + 4 + i) % ringSize)) : Drv UInt8)) 0 n).All
      (fun o => ∃ a, o = .readRx a) fun bs => bs.length = n := by
  refine readEach_all (fun i => ?_) 0 n
  exact perform_all (P := fun o : Op => ∃ a, o = .readRx a) ⟨_, rfl⟩

/-- After the header has been read, the receive path leaves the driver's fields alone. -/
theorem receiveHeader_all (n : ℕ) (ctx : Ctx) (offset status len : ℕ) :
    (receiveHeader n ctx offset status len).All TouchesRx fun r => r.1 = ctx := by
  have hpacket : (receivePacket n ctx offset (len - 4)).All TouchesRx fun r => r.1 = ctx := by
    unfold receivePacket
    split_ifs with hlen
    · exact rfl
    · have htouch : ∀ o, (∃ a, o = Op.readRx a) → TouchesRx o := by
        rintro o ⟨a, rfl⟩
        trivial
      have hread := (readRx_all offset (len - 4)).mono htouch fun _ h => h
      exact hread.bind fun _ _ => ⟨trivial, fun _ => rfl⟩
  unfold receiveHeader
  split_ifs with hstat
  · exact rfl
  refine ⟨trivial, fun (isr : UInt16) => ?_⟩
  have hack : (acknowledge isr).All TouchesRx _ :=
    (acknowledge_all isr).mono (by rintro o ⟨v, rfl⟩; trivial) fun _ h => h
  exact hack.bind fun _ _ => hpacket

/-- The first access of a receive reads the command register, and no other does. -/
theorem receive_eq (n : ℕ) {ctx : Ctx} (hi : ctx.initialized = true) : ∃ g : UInt8 → Drv (Ctx × Ret),
    rtl8139Receive n ctx = op .readCmd g ∧ ∀ cmd, (g cmd).All TouchesRx fun r => r.1 = ctx := by
  refine ⟨fun cmd => if cmd &&& cmdBUFE ≠ 0 then ret (ctx, .fail) else readCapr >>= fun capr =>
    readRx16 ((capr + 16) % ringSize) >>= fun status => readRx16 ((capr + 16) % ringSize + 2) >>= fun len =>
      receiveHeader n ctx ((capr + 16) % ringSize) status len, ?_, fun cmd => ?_⟩
  · unfold rtl8139Receive
    rw [hi]
    rfl
  · dsimp only
    split_ifs with hcmd
    · exact rfl
    · exact ⟨trivial, fun (capr : ℕ) => ⟨trivial, fun (status : ℕ) => ⟨trivial, fun (len : ℕ) =>
        receiveHeader_all n ctx _ status len⟩⟩⟩

theorem transmit_all (packet : List UInt8) (ctx : Ctx) :
    (rtl8139Transmit packet ctx).All TouchesTx fun r => r.1.initialized = ctx.initialized := by
  unfold rtl8139Transmit
  split_ifs with h
  · exact rfl
  refine (writeEach_all (P := TouchesTx) (fun i b => ?_) 0 packet).bind fun _ _ => ⟨trivial, fun _ => ⟨trivial, fun _ => rfl⟩⟩
  exact perform_all (P := TouchesTx) trivial

end Yasouos.Drivers.Rtl8139
