import Yasouos.Drivers.E1000
import Yasouos.Drivers.VirtioLayout
import Yasouos.Theory.Refinement

/-!
# The E1000 in bytes and registers

The context of the driver, `e1000_t`, is a structure in memory. The card knows only what
`e1000_init_context` writes to its registers: where two tables of descriptors are, and how long they
are. All else it finds in memory, in the descriptors.

## The model

`Card` is memory and the registers of the card, and `cardMove` what the card does by itself, as its
manual has it: it reads a descriptor where the registers say, and copies to or from where the
descriptor says, with no regard for where that is. `initContext` is `e1000_init_context`, access by
access. The two other paths are those of `Yasouos.Drivers.E1000`, each access at its place in the
structure (`lowering`), where the compiler's layout puts it (`offsets_ctx`).

A card that is not in use has both its halves off, and a context that is not in use is zero. The
access to `ICR` that clears it has no other effect here.
-/

namespace Yasouos.Drivers.E1000.Bytes

open Theory Prog
open VirtioLayout (CType u8 u16 u64 offsets)

/-! ### The structure -/

/-- A type with `__attribute__((aligned(a)))`. -/
def aligned (a : ℕ) (t : CType) : CType := ⟨t.size, max t.align a⟩

/-- A structure with `__attribute__((packed))`, as a type. -/
def packed (fields : List CType) : CType := ⟨(fields.map CType.size).sum, 1⟩

/-- The fields of `e1000_rx_desc_t`. -/
def rxDescFields : List CType := [u64, u16, u16, u8, u8, u16]

/-- The fields of `e1000_tx_desc_t`. -/
def txDescFields : List CType := [u64, u16, u8, u8, u8, u8, u16]

/-- The fields of `e1000_t`. -/
def ctxFields : List CType :=
  [ u64, u8, u8.array 6,
    aligned 16 ((packed rxDescFields).array numDesc),
    aligned 16 ((u8.array bufferSize).array numDesc),
    u16,
    aligned 16 ((packed txDescFields).array numDesc),
    aligned 16 ((u8.array bufferSize).array numDesc),
    u16 ]

theorem offsets_ctx : offsets ctxFields = [0, 8, 9, 16, 144, 16528, 16544, 16672, 33056] := by decide

/-- The fields of a packed structure follow each other. -/
theorem offsets_desc :
    offsets (rxDescFields.map fun t => ⟨t.size, 1⟩) = [0, 8, 10, 12, 13, 14] ∧
      offsets (txDescFields.map fun t => ⟨t.size, 1⟩) = [0, 8, 10, 11, 12, 13, 14] := by decide

/-- `sizeof(e1000_t)`. -/
def ctxSize : ℕ := 33072

/-- `&ctx->rx_descs[i]`, of the context at `b`. -/
def rxDesc (b i : ℕ) : ℕ := b + 16 + 16 * i

/-- `ctx->rx_buffers`. -/
def rxBuffers (b : ℕ) : ℕ := b + 144

/-- `&ctx->tx_descs[i]`. -/
def txDesc (b i : ℕ) : ℕ := b + 16544 + 16 * i

/-- `ctx->tx_buffers`. -/
def txBuffers (b : ℕ) : ℕ := b + 16672

/-! ### The card -/

/-- The registers, by their offsets. -/
def ctrlReg : ℕ := 0x00000
def icrReg : ℕ := 0x000C0
def imsReg : ℕ := 0x000D0
def rctlReg : ℕ := 0x00100
def tctlReg : ℕ := 0x00400
def rdbalReg : ℕ := 0x02800
def rdbahReg : ℕ := 0x02804
def rdlenReg : ℕ := 0x02808
def rdhReg : ℕ := 0x02810
def rdtReg : ℕ := 0x02818
def tdbalReg : ℕ := 0x03800
def tdbahReg : ℕ := 0x03804
def tdlenReg : ℕ := 0x03808
def tdhReg : ℕ := 0x03810
def tdtReg : ℕ := 0x03818
def ralReg : ℕ := 0x05400
def rahReg : ℕ := 0x05404

/-- Memory, the registers of the card, and what the card has sent. -/
structure Card where
  mem : ℕ → UInt8
  reg : ℕ → UInt32
  /-- What has been read of a packet that goes on in the next descriptor. -/
  pending : List UInt8
  /-- The packets that have been sent, oldest first. -/
  sent : List (List UInt8)

namespace Card

variable (c : Card)

/-- The number in a register. -/
def num (r : ℕ) : ℕ := (c.reg r).toNat

/-- Where the table of descriptors is; the lowest four bits of a register have no meaning. -/
def table (low high : ℕ) : ℕ := c.num low / 16 * 16 + 2 ^ 32 * c.num high

/-- How large a receive buffer is: two bits of `RCTL` say how often 2048 is halved. -/
def receiveSize : ℕ := 2048 / 2 ^ (c.num rctlReg / 2 ^ 16 % 4)

/-- The descriptor that is filled next. -/
def rxHead : ℕ := c.table rdbalReg rdbahReg + 16 * c.num rdhReg

/-- The descriptor that is sent next. -/
def txHead : ℕ := c.table tdbalReg tdbahReg + 16 * c.num tdhReg

/-- The next descriptor of a table. -/
def advance (head len : ℕ) : UInt32 := UInt32.ofNat ((c.num head + 1) % (c.num len / 16))

/-- Write a register. -/
def setReg (r : ℕ) (v : UInt32) : Card := { c with reg := Function.update c.reg r v }

end Card

/-- A move of the card. -/
inductive Move where
  /-- Fill the next receive descriptor with these bytes, the last of a packet or not, and write the rest of it. -/
  | receive (bytes : List UInt8) (last : Bool) (checksum : ℕ) (errors : UInt8) (special : ℕ)
  /-- Send the next transmit descriptor. -/
  | transmit

/-- **The card as specified.** A half of it that is not enabled does nothing, nor does it when its head is its tail. -/
def cardMove : Move → Card → Option Card
  | .receive bytes last checksum errors special, c =>
    if c.reg rctlReg &&& 2 ≠ 0 ∧ c.num rdhReg ≠ c.num rdtReg ∧ bytes.length ≤ c.receiveSize then
      let d := c.rxHead
      let filled := store c.mem (getNat c.mem d 8) bytes
      let counted := setNat (setNat filled (d + 8) 2 bytes.length) (d + 10) 2 checksum
      let status := if last then statDD ||| statEOP else statDD
      some { c with
        mem := store counted (d + 12) (status :: errors :: leBytes 2 special)
        reg := Function.update c.reg rdhReg (c.advance rdhReg rdlenReg) }
    else none
  | .transmit, c =>
    if c.reg tctlReg &&& 2 ≠ 0 ∧ c.num tdhReg ≠ c.num tdtReg then
      let d := c.txHead
      let bytes := c.pending ++ load c.mem (getNat c.mem d 8) (getNat c.mem (d + 8) 2)
      let cmd := c.mem (d + 11)
      some {
        -- `RS` asks for the status, and `EOP` ends the packet
        mem := if cmd &&& 8 ≠ 0 then Function.update c.mem (d + 12) (c.mem (d + 12) ||| statDD) else c.mem
        reg := Function.update c.reg tdhReg (c.advance tdhReg tdlenReg)
        pending := if cmd &&& 1 ≠ 0 then [] else bytes
        sent := if cmd &&& 1 ≠ 0 then c.sent ++ [bytes] else c.sent }
    else none

/-- The card uses the byte at `a` in its next move. -/
def Uses (c : Card) (a : ℕ) : Move → Prop
  | .receive bytes _ _ _ _ =>
    c.rxHead ≤ a ∧ a < c.rxHead + 16 ∨ getNat c.mem c.rxHead 8 ≤ a ∧ a < getNat c.mem c.rxHead 8 + bytes.length
  | .transmit =>
    c.txHead ≤ a ∧ a < c.txHead + 16 ∨
      getNat c.mem c.txHead 8 ≤ a ∧ a < getNat c.mem c.txHead 8 + getNat c.mem (c.txHead + 8) 2

/-! ### The driver -/

/-- An access of the driver. -/
inductive ByteOp where
  | read8 (a : ℕ)
  | read16 (a : ℕ)
  | write8 (a : ℕ) (v : UInt8)
  | write16 (a v : ℕ)
  | write64 (a v : ℕ)
  /-- `e1000_read32`. -/
  | regRead (r : ℕ)
  /-- `e1000_write32`. -/
  | regWrite (r : ℕ) (v : UInt32)

/-- What an access answers. -/
def ByteAns : ByteOp → Type
  | .read8 _ => UInt8
  | .read16 _ => ℕ
  | .regRead _ => UInt32
  | .write8 _ _ | .write16 _ _ | .write64 _ _ | .regWrite _ _ => Unit

/-- What an access does. -/
def byteExec : (o : ByteOp) → Card → ByteAns o × Card
  | .read8 a, c => (c.mem a, c)
  | .read16 a, c => (getNat c.mem a 2, c)
  | .write8 a v, c => ((), { c with mem := Function.update c.mem a v })
  | .write16 a v, c => ((), { c with mem := setNat c.mem a 2 v })
  | .write64 a v, c => ((), { c with mem := setNat c.mem a 8 v })
  | .regRead r, c => (c.reg r, if r = icrReg then c.setReg icrReg 0 else c)
  | .regWrite r v, c => ((), c.setReg r v)

/-- A driver program. -/
abbrev ByteDrv := Prog ByteOp ByteAns

def regRead (r : ℕ) : ByteDrv UInt32 := perform (ByteOp.regRead r)

def regWrite (r : ℕ) (v : UInt32) : ByteDrv Unit := perform (ByteOp.regWrite r v)

def write8 (a : ℕ) (v : UInt8) : ByteDrv Unit := perform (ByteOp.write8 a v)

def write64 (a v : ℕ) : ByteDrv Unit := perform (ByteOp.write64 a v)

/-- `e1000_read_mac_address`. -/
def readMacAddress (mmioBase : ℕ) : ByteDrv (List UInt8) := do
  if mmioBase = 0 then
    return [0, 0, 0, 0, 0, 0]
  let ral ← regRead ralReg
  let rah ← regRead rahReg
  return [ral.toUInt8, (ral >>> 8).toUInt8, (ral >>> 16).toUInt8, (ral >>> 24).toUInt8, rah.toUInt8, (rah >>> 8).toUInt8]

/-- `e1000_init_context`, for the context at `b`: the fields that only the driver uses, and `mac_addr`. -/
def initContext (mmioBase b : ℕ) : ByteDrv (Ctx × List UInt8) := do
  let ctrl ← regRead ctrlReg
  regWrite ctrlReg (ctrl ||| 0x40)
  let mac ← readMacAddress mmioBase
  (List.range numDesc).forM fun i => do
    write64 (rxDesc b i) (rxBuffers b + i * bufferSize)
    write8 (rxDesc b i + 12) 0
  regWrite rdbalReg (UInt32.ofNat (rxDesc b 0))
  regWrite rdbahReg (UInt32.ofNat (rxDesc b 0 / 2 ^ 32))
  regWrite rdlenReg (UInt32.ofNat (numDesc * 16))
  regWrite rdhReg 0
  regWrite rdtReg (UInt32.ofNat (numDesc - 1))
  let _ ← regRead icrReg
  regWrite imsReg 0
  (List.range numDesc).forM fun i => do
    write64 (txDesc b i) (txBuffers b + i * bufferSize)
    write8 (txDesc b i + 12) statDD
    write8 (txDesc b i + 11) 0
  regWrite tdbalReg (UInt32.ofNat (txDesc b 0))
  regWrite tdbahReg (UInt32.ofNat (txDesc b 0 / 2 ^ 32))
  regWrite tdlenReg (UInt32.ofNat (numDesc * 16))
  regWrite tdhReg 0
  regWrite tdtReg 0
  regWrite tctlReg ((0x2 : UInt32) ||| 0x8)
  regWrite rctlReg ((0x2 : UInt32) ||| 0x8 ||| 0x10 ||| 0x8000 ||| 0)
  return (⟨true, 0, 0⟩, mac)

/-- Each access of the two other paths, for the context at `b`. -/
def lowering (b : ℕ) : Lowering Op Ans ByteOp ByteAns where
  op
    | .readRxStatus i => .read8 (rxDesc b i + 12)
    | .readRxLength i => .read16 (rxDesc b i + 8)
    | .readRx a => .read8 (rxBuffers b + a)
    | .writeRxStatus i v => .write8 (rxDesc b i + 12) v
    | .writeRdt i => .regWrite rdtReg (UInt32.ofNat i)
    | .readTxStatus i => .read8 (txDesc b i + 12)
    | .writeTx a v => .write8 (txBuffers b + a) v
    | .writeTxLength i n => .write16 (txDesc b i + 8) n
    | .writeTxCmd i v => .write8 (txDesc b i + 11) v
    | .writeTxStatus i v => .write8 (txDesc b i + 12) v
    | .writeTdt i => .regWrite tdtReg (UInt32.ofNat i)
  ans
    | .readRxStatus _ => id
    | .readRxLength _ => id
    | .readRx _ => id
    | .writeRxStatus _ _ => id
    | .writeRdt _ => id
    | .readTxStatus _ => id
    | .writeTx _ _ => id
    | .writeTxLength _ _ => id
    | .writeTxCmd _ _ => id
    | .writeTxStatus _ _ => id
    | .writeTdt _ => id

/-- The driver and the card, for the context at `b`. -/
def card (b : ℕ) : System ByteOp ByteAns Card Move Call Ctx Ret where
  exec := byteExec
  env := cardMove
  body k p := (nic.body k p).lower (lowering b)

end Yasouos.Drivers.E1000.Bytes
