import Yasouos.Theory.Memory
import Yasouos.Theory.Ring

/-!
# The E1000 driver

`e1000_receive` and `e1000_transmit` of `drivers/e1000/e1000.c`, and the receiver and
transmitter of the device as its manual specifies them.

## The model

The context `e1000_t` is split in two: `Ctx` has what only the driver uses, and `Mem`
what the device sees, the two descriptor rings with their buffers and the head and tail
registers. The buffers are kept flat, as they lie in the structure: byte `j` of
`rx_buffers[i]` is at `2048 * i + j` of `rxBuffers`, and a descriptor's `buffer_addr` is
such a position. Left out are `mmio_base` and `mac_addr`, which the two paths do not use
otherwise, and the descriptor fields that neither side writes (`checksum`, `errors`,
`special`, `cso`, `css`); the pointers a caller passes are taken not to be `NULL`.

The device owns the transmit descriptors from `TDH` up to but not including `TDT`, and
fills the receive descriptors from `RDH` on, while `RDH` is not `RDT`. A packet longer
than a buffer takes several receive descriptors, and only the last has the EOP bit.

`Mem.sent` is not in the memory of the machine: it records what the device has sent.
-/

namespace Yasouos.Drivers.E1000

open Theory Prog

/-! ### Constants -/

/-- `E1000_NUM_RX_DESC` and `E1000_NUM_TX_DESC`. -/
abbrev numDesc : ℕ := 8

/-- `E1000_RX_BUFFER_SIZE` and `E1000_TX_BUFFER_SIZE`. -/
abbrev bufferSize : ℕ := 2048

/-- `E1000_RXD_STAT_DD` and `E1000_TXD_STAT_DD`. -/
def statDD : UInt8 := 1

/-- `E1000_RXD_STAT_EOP`. -/
def statEOP : UInt8 := 2

/-- `E1000_TXD_CMD_EOP | E1000_TXD_CMD_RS`. -/
def cmdEOPRS : UInt8 := 1 ||| 8

/-! ### The context -/

/-- The fields of `e1000_t` that only the driver uses. -/
structure Ctx where
  /-- `initialized`. -/
  initialized : Bool
  /-- `rx_current`. -/
  rxCurrent : ℕ
  /-- `tx_current`. -/
  txCurrent : ℕ
  deriving DecidableEq

/-- `e1000_rx_desc_t`. -/
structure RxDesc where
  /-- `buffer_addr`. -/
  bufferAddr : ℕ
  /-- `length`. -/
  length : ℕ
  /-- `status`. -/
  status : UInt8

/-- `e1000_tx_desc_t`. -/
structure TxDesc where
  /-- `buffer_addr`. -/
  bufferAddr : ℕ
  /-- `length`. -/
  length : ℕ
  /-- `cmd`. -/
  cmd : UInt8
  /-- `status`. -/
  status : UInt8

/-- The DD bit of a receive descriptor. -/
def RxDesc.dd (d : RxDesc) : Prop := d.status &&& statDD ≠ 0

/-- The EOP bit of a receive descriptor. -/
def RxDesc.eop (d : RxDesc) : Prop := d.status &&& statEOP ≠ 0

/-- The DD bit of a transmit descriptor. -/
def TxDesc.dd (d : TxDesc) : Prop := d.status &&& statDD ≠ 0

instance (d : RxDesc) : Decidable d.dd := inferInstanceAs (Decidable (_ ≠ _))

instance (d : RxDesc) : Decidable d.eop := inferInstanceAs (Decidable (_ ≠ _))

instance (d : TxDesc) : Decidable d.dd := inferInstanceAs (Decidable (_ ≠ _))

/-- What the driver and the device share. -/
structure Mem where
  /-- `rx_descs`. -/
  rxDescs : ℕ → RxDesc
  /-- `rx_buffers`, flat. -/
  rxBuffers : ℕ → UInt8
  /-- The register `RDH`. -/
  rdh : ℕ
  /-- The register `RDT`. -/
  rdt : ℕ
  /-- `tx_descs`. -/
  txDescs : ℕ → TxDesc
  /-- `tx_buffers`, flat. -/
  txBuffers : ℕ → UInt8
  /-- The register `TDH`. -/
  tdh : ℕ
  /-- The register `TDT`. -/
  tdt : ℕ
  /-- The packets the device has sent, oldest first. -/
  sent : List (List UInt8)

/-- The packet that a transmit descriptor describes. -/
def Mem.txPacket (s : Mem) (i : ℕ) : List UInt8 :=
  load s.txBuffers (s.txDescs i).bufferAddr (s.txDescs i).length

/-! ### Accesses -/

/-- An access of the driver to what it shares with the device. -/
inductive Op where
  /-- Read `rx_descs[i].status`. -/
  | readRxStatus (i : ℕ)
  /-- Read `rx_descs[i].length`. -/
  | readRxLength (i : ℕ)
  /-- Read a byte of `rx_buffers`. -/
  | readRx (a : ℕ)
  /-- Write `rx_descs[i].status`. -/
  | writeRxStatus (i : ℕ) (v : UInt8)
  /-- Write the register `RDT`. -/
  | writeRdt (i : ℕ)
  /-- Read `tx_descs[i].status`. -/
  | readTxStatus (i : ℕ)
  /-- Write a byte of `tx_buffers`. -/
  | writeTx (a : ℕ) (b : UInt8)
  /-- Write `tx_descs[i].length`. -/
  | writeTxLength (i n : ℕ)
  /-- Write `tx_descs[i].cmd`. -/
  | writeTxCmd (i : ℕ) (v : UInt8)
  /-- Write `tx_descs[i].status`. -/
  | writeTxStatus (i : ℕ) (v : UInt8)
  /-- Write the register `TDT`. -/
  | writeTdt (i : ℕ)

/-- What an access answers. -/
def Ans : Op → Type
  | .readRxStatus _ | .readTxStatus _ | .readRx _ => UInt8
  | .readRxLength _ => ℕ
  | .writeRxStatus _ _ | .writeRdt _ | .writeTx _ _ | .writeTxLength _ _ | .writeTxCmd _ _ | .writeTxStatus _ _
  | .writeTdt _ => Unit

/-- What an access does. -/
def exec : (o : Op) → Mem → Ans o × Mem
  | .readRxStatus i, s => ((s.rxDescs i).status, s)
  | .readRxLength i, s => ((s.rxDescs i).length, s)
  | .readRx a, s => (s.rxBuffers a, s)
  | .writeRxStatus i v, s => ((), { s with rxDescs := Function.update s.rxDescs i { s.rxDescs i with status := v } })
  | .writeRdt i, s => ((), { s with rdt := i })
  | .readTxStatus i, s => ((s.txDescs i).status, s)
  | .writeTx a b, s => ((), { s with txBuffers := Function.update s.txBuffers a b })
  | .writeTxLength i n, s => ((), { s with txDescs := Function.update s.txDescs i { s.txDescs i with length := n } })
  | .writeTxCmd i v, s => ((), { s with txDescs := Function.update s.txDescs i { s.txDescs i with cmd := v } })
  | .writeTxStatus i v, s => ((), { s with txDescs := Function.update s.txDescs i { s.txDescs i with status := v } })
  | .writeTdt i, s => ((), { s with tdt := i })

/-- A driver program. -/
abbrev Drv := Prog Op Ans

/-- Read `rx_descs[i].status`. -/
def readRxStatus (i : ℕ) : Drv UInt8 := perform (Op.readRxStatus i)

/-- Read `rx_descs[i].length`. -/
def readRxLength (i : ℕ) : Drv ℕ := perform (Op.readRxLength i)

/-- Copy out of `rx_buffers`, from `a`, byte by byte. -/
def readBytes (a n : ℕ) : Drv (List UInt8) := readEach (fun a => (perform (Op.readRx a) : Drv UInt8)) a n

/-- Write `rx_descs[i].status`. -/
def writeRxStatus (i : ℕ) (v : UInt8) : Drv Unit := perform (Op.writeRxStatus i v)

/-- Read `tx_descs[i].status`. -/
def readTxStatus (i : ℕ) : Drv UInt8 := perform (Op.readTxStatus i)

/-- Copy into `tx_buffers`, from `a`, byte by byte. -/
def writeBytes (a : ℕ) (bs : List UInt8) : Drv Unit := writeEach (fun a b => (perform (Op.writeTx a b) : Drv Unit)) a bs

/-- Write `tx_descs[i].length`. -/
def writeTxLength (i n : ℕ) : Drv Unit := perform (Op.writeTxLength i n)

/-- Write `tx_descs[i].cmd`. -/
def writeTxCmd (i : ℕ) (v : UInt8) : Drv Unit := perform (Op.writeTxCmd i v)

/-- Write `tx_descs[i].status`. -/
def writeTxStatus (i : ℕ) (v : UInt8) : Drv Unit := perform (Op.writeTxStatus i v)

/-! ### The driver -/

/-- What a call returns: its return code, what it has stored in `*received_length`, if
anything, and what it has copied to the caller's buffer. -/
structure Ret where
  /-- The return code. -/
  code : ℤ
  /-- `*received_length`. -/
  receivedLength : Option ℕ
  /-- The bytes at the start of the caller's buffer. -/
  buffer : List UInt8
  deriving DecidableEq

/-- `return -1`. -/
def Ret.fail : Ret := ⟨-1, none, []⟩

/-- `ctx->rx_current = (ctx->rx_current + 1) % E1000_NUM_RX_DESC`. -/
def Ctx.nextRx (ctx : Ctx) : Ctx := { ctx with rxCurrent := (ctx.rxCurrent + 1) % numDesc }

/-- `ctx->tx_current = (ctx->tx_current + 1) % E1000_NUM_TX_DESC`. -/
def Ctx.nextTx (ctx : Ctx) : Ctx := { ctx with txCurrent := (ctx.txCurrent + 1) % numDesc }

/-- `e1000_receive` once it has found a whole packet, of length `pktLen`. -/
def receivePacket (size : ℕ) (ctx : Ctx) (pktLen : ℕ) : Drv (Ctx × Ret) := do
  if pktLen > size then
    writeRxStatus ctx.rxCurrent 0
    return (ctx.nextRx, .fail)
  let data ← readBytes (ctx.rxCurrent * bufferSize) pktLen
  writeRxStatus ctx.rxCurrent 0
  perform (Op.writeRdt ctx.rxCurrent)
  return (ctx.nextRx, ⟨0, some pktLen, data⟩)

/-- `e1000_receive`, with a buffer of `size` bytes. -/
def e1000Receive (size : ℕ) (ctx : Ctx) : Drv (Ctx × Ret) := do
  if !ctx.initialized then
    return (ctx, .fail)
  let status ← readRxStatus ctx.rxCurrent
  if status &&& statDD = 0 then
    return (ctx, .fail)
  let status ← readRxStatus ctx.rxCurrent
  if status &&& statEOP = 0 then
    writeRxStatus ctx.rxCurrent 0
    return (ctx.nextRx, .fail)
  let pktLen ← readRxLength ctx.rxCurrent
  receivePacket size ctx pktLen

/-- `e1000_transmit`. -/
def e1000Transmit (packet : List UInt8) (ctx : Ctx) : Drv (Ctx × Ret) := do
  if !ctx.initialized then
    return (ctx, .fail)
  if packet.length > bufferSize then
    return (ctx, .fail)
  let status ← readTxStatus ctx.txCurrent
  if status &&& statDD = 0 then
    return (ctx, .fail)
  writeBytes (ctx.txCurrent * bufferSize) packet
  writeTxLength ctx.txCurrent packet.length
  writeTxCmd ctx.txCurrent cmdEOPRS
  writeTxStatus ctx.txCurrent 0
  perform (Op.writeTdt ctx.nextTx.txCurrent)
  return (ctx.nextTx, ⟨0, none, []⟩)

/-- The shared memory as `e1000_init_context` leaves it. -/
def initMem : Mem where
  rxDescs i := ⟨i * bufferSize, 0, 0⟩
  rxBuffers _ := 0
  rdh := 0
  rdt := numDesc - 1
  txDescs i := ⟨i * bufferSize, 0, 0, statDD⟩
  txBuffers _ := 0
  tdh := 0
  tdt := 0
  sent := []

/-- The driver's own fields as `e1000_init_context` leaves them. -/
def initCtx : Ctx := ⟨true, 0, 0⟩

/-! ### The device -/

/-- A move of the device. -/
inductive Dev where
  /-- Fill the next receive descriptor with these bytes, the last of a packet or not. -/
  | fill (bytes : List UInt8) (last : Bool)
  /-- Send the next transmit descriptor. -/
  | send

/-- **The device as specified.** It fills descriptor `RDH` and advances it, unless `RDH`
is `RDT`; it sends descriptor `TDH`, sets its DD bit and advances it, unless `TDH` is
`TDT`. -/
def device : Dev → Mem → Option Mem
  | .fill bytes last, s =>
    if s.rdh ≠ s.rdt ∧ bytes.length ≤ bufferSize then
      some { s with
        rxBuffers := store s.rxBuffers (s.rxDescs s.rdh).bufferAddr bytes
        rxDescs := Function.update s.rxDescs s.rdh
          { s.rxDescs s.rdh with length := bytes.length, status := if last then statDD ||| statEOP else statDD }
        rdh := (s.rdh + 1) % numDesc }
    else none
  | .send, s =>
    if s.tdh ≠ s.tdt then
      some { s with
        sent := s.sent ++ [s.txPacket s.tdh]
        txDescs := Function.update s.txDescs s.tdh
          { s.txDescs s.tdh with status := (s.txDescs s.tdh).status ||| statDD }
        tdh := (s.tdh + 1) % numDesc }
    else none

/-! ### The system -/

/-- A call of the driver. -/
inductive Call where
  /-- `e1000_receive` with a buffer of that size. -/
  | receive (size : ℕ)
  /-- `e1000_transmit` of that packet. -/
  | transmit (packet : List UInt8)
  deriving DecidableEq

/-- The driver and the device. -/
def nic : System Op Ans Mem Dev Call Ctx Ret where
  exec := exec
  env := device
  body
    | .receive n => e1000Receive n
    | .transmit p => e1000Transmit p

/-- An initialised context, before any call. -/
def start : Cfg Op Ans Mem Call Ctx Ret := .start initCtx initMem

/-! ### What the two paths touch -/

/-- An access to the receive ring. -/
def TouchesRx : Op → Prop
  | .readRxStatus _ | .readRxLength _ | .readRx _ | .writeRxStatus _ _ | .writeRdt _ => True
  | _ => False

/-- An access to the transmit ring. -/
def TouchesTx : Op → Prop
  | .readTxStatus _ | .writeTx _ _ | .writeTxLength _ _ | .writeTxCmd _ _ | .writeTxStatus _ _ | .writeTdt _ => True
  | _ => False

/-- What belongs to the transmit ring is the same. -/
def SameTx (s s' : Mem) : Prop :=
  s'.txDescs = s.txDescs ∧ s'.txBuffers = s.txBuffers ∧ s'.tdh = s.tdh ∧ s'.tdt = s.tdt ∧ s'.sent = s.sent

/-- What belongs to the receive ring is the same. -/
def SameRx (s s' : Mem) : Prop :=
  s'.rxDescs = s.rxDescs ∧ s'.rxBuffers = s.rxBuffers ∧ s'.rdh = s.rdh ∧ s'.rdt = s.rdt

theorem exec_touchesRx {o : Op} (h : TouchesRx o) (s : Mem) : SameTx s (exec o s).2 := by
  cases o <;> first | exact ⟨rfl, rfl, rfl, rfl, rfl⟩ | cases h

theorem exec_touchesTx {o : Op} (h : TouchesTx o) (s : Mem) : SameRx s (exec o s).2 := by
  cases o <;> first | exact ⟨rfl, rfl, rfl, rfl⟩ | cases h

/-- A copy out of the buffers only reads them. -/
theorem readBytes_all (a n : ℕ) : (readBytes a n).All (fun o => ∃ i, o = .readRx i) fun bs => bs.length = n := by
  refine readEach_all (fun i => ?_) a n
  exact perform_all (P := fun o : Op => ∃ i, o = .readRx i) ⟨i, rfl⟩

theorem readBytes_touches (a n : ℕ) : (readBytes a n).All TouchesRx fun bs => bs.length = n :=
  (readBytes_all a n).mono (by rintro o ⟨i, rfl⟩; trivial) fun _ h => h

theorem writeBytes_all (a : ℕ) (bs : List UInt8) : (writeBytes a bs).All TouchesTx fun _ => True := by
  refine writeEach_all (fun i b => ?_) a bs
  exact perform_all (P := TouchesTx) trivial

/-- A receive does not move `tx_current`. -/
theorem receive_all (n : ℕ) (ctx : Ctx) : (e1000Receive n ctx).All TouchesRx
    fun r => r.1.txCurrent = ctx.txCurrent ∧ r.1.initialized = ctx.initialized := by
  unfold e1000Receive
  split_ifs with hi
  · exact ⟨rfl, rfl⟩
  refine ⟨trivial, fun (st : UInt8) => ?_⟩
  show Prog.All _ _ (if st &&& statDD = 0 then _ else _)
  split_ifs with hdd
  · exact ⟨rfl, rfl⟩
  refine ⟨trivial, fun (st : UInt8) => ?_⟩
  show Prog.All _ _ (if st &&& statEOP = 0 then _ else _)
  split_ifs with heop
  · exact ⟨trivial, fun _ => ⟨rfl, rfl⟩⟩
  refine ⟨trivial, fun (len : ℕ) => ?_⟩
  show Prog.All _ _ (receivePacket n ctx len)
  unfold receivePacket
  split_ifs with hlen
  · exact ⟨trivial, fun _ => ⟨rfl, rfl⟩⟩
  · exact (readBytes_touches _ _).bind fun _ _ => ⟨trivial, fun _ => ⟨trivial, fun _ => ⟨rfl, rfl⟩⟩⟩

/-- A transmit does not move `rx_current`. -/
theorem transmit_all (packet : List UInt8) (ctx : Ctx) : (e1000Transmit packet ctx).All TouchesTx
    fun r => r.1.rxCurrent = ctx.rxCurrent ∧ r.1.initialized = ctx.initialized := by
  unfold e1000Transmit
  split_ifs with hi hlen
  · exact ⟨rfl, rfl⟩
  · exact ⟨rfl, rfl⟩
  refine ⟨trivial, fun (st : UInt8) => ?_⟩
  show Prog.All _ _ (if st &&& statDD = 0 then _ else _)
  split_ifs with hdd
  · exact ⟨rfl, rfl⟩
  refine (writeBytes_all _ _).bind fun _ _ => ⟨trivial, fun _ => ⟨trivial, fun _ => ⟨trivial, fun _ => ⟨trivial, fun _ => ?_⟩⟩⟩⟩
  exact ⟨rfl, rfl⟩

/-! ### The device moves one ring at a time -/

/-- Setting the DD bit sets it. -/
theorem or_statDD (x : UInt8) : (x ||| statDD) &&& statDD ≠ 0 := by
  intro h
  have hbit := congrArg (fun b => b.toBitVec.getLsbD 0) h
  simp [statDD] at hbit

/-- A move of the device either fills a receive descriptor or sends a transmit
descriptor; what it does not say stays as it is. -/
theorem device_cases {e : Dev} {s s' : Mem} (h : device e s = some s') :
    (s.rdh ≠ s.rdt ∧ SameTx s s' ∧ s'.rdt = s.rdt ∧ s'.rdh = (s.rdh + 1) % numDesc ∧
      ∃ d, d.dd ∧ s'.rxDescs = Function.update s.rxDescs s.rdh d) ∨
    (s.tdh ≠ s.tdt ∧ SameRx s s' ∧ s'.tdt = s.tdt ∧ s'.tdh = (s.tdh + 1) % numDesc ∧
      s'.sent = s.sent ++ [s.txPacket s.tdh] ∧ s'.txBuffers = s.txBuffers ∧
      ∃ d, d.dd ∧ d.bufferAddr = (s.txDescs s.tdh).bufferAddr ∧ d.length = (s.txDescs s.tdh).length ∧
        s'.txDescs = Function.update s.txDescs s.tdh d) := by
  cases e with
  | fill bytes last =>
    simp only [device, Option.ite_none_right_eq_some] at h
    obtain ⟨hne, h⟩ := h
    cases h
    refine .inl ⟨hne.1, ⟨rfl, rfl, rfl, rfl, rfl⟩, rfl, rfl, _, ?_, rfl⟩
    show (if last then statDD ||| statEOP else statDD) &&& statDD ≠ 0
    cases last <;> decide
  | send =>
    simp only [device] at h
    split_ifs at h with hne
    cases h
    exact .inr ⟨hne, ⟨rfl, rfl, rfl, rfl⟩, rfl, rfl, rfl, rfl,
      { s.txDescs s.tdh with status := (s.txDescs s.tdh).status ||| statDD }, or_statDD _, rfl, rfl, rfl⟩

end Yasouos.Drivers.E1000
