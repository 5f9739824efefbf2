import Yasouos.Net.ByteOrder
import Yasouos.Theory.Isa

/-!
# Byte order in assembly

`common/byteorder.h` has `htonl` and `htons` three times, in the assembly of each architecture, and
`ntohl` and `ntohs` as other names for them.

## The model

A block of assembly is the list of its instructions. The registers of its operands are the
compiler's to choose, as far as the constraints of the block let it: `RiscvOperands` are registers
that are not clobbered. No block says that its result is written before the argument has been read,
so both may be in one register. `htonlRiscv`, `htonsRiscv` and the others put the argument there, run
the block and read the result.

An argument is what a register of 64 bits holds: above the number there may be anything.

## What is proved

What each block computes (`Arch.htonl_eq`, `Arch.htons_eq`), and that a block of RISC-V changes
nothing that it does not declare (`htonlRiscvAsm_frame`, `htonsRiscvAsm_frame`). So the three
architectures agree, with each other and with the functions of `common/byteorder.c`
(`byteOrder_spec`).
-/

namespace Yasouos.Net

open Yasouos.Theory

/-! ### RISC-V -/

/-- `t0`. -/
def t0 : Rv64.Reg := 5#5

/-- `t1`. -/
def t1 : Rv64.Reg := 6#5

/-- `"=r" (result) : "r" (x) : "t0", "t1"`. -/
structure RiscvOperands where
  /-- `%0`. -/
  result : Rv64.Reg
  /-- `%1`. -/
  x : Rv64.Reg
  result_ne_zero : result ≠ 0#5
  result_ne_t0 : result ≠ t0
  result_ne_t1 : result ≠ t1
  x_ne_zero : x ≠ 0#5
  x_ne_t0 : x ≠ t0
  x_ne_t1 : x ≠ t1

attribute [simp] RiscvOperands.result_ne_zero RiscvOperands.result_ne_t0 RiscvOperands.result_ne_t1
  RiscvOperands.x_ne_zero RiscvOperands.x_ne_t0 RiscvOperands.x_ne_t1

@[simp] theorem t0_ne_zero : t0 ≠ 0#5 := by decide

@[simp] theorem t1_ne_zero : t1 ≠ 0#5 := by decide

@[simp] theorem t0_ne_t1 : t0 ≠ t1 := by decide

@[simp] theorem t1_ne_t0 : t1 ≠ t0 := by decide

/-- The block of `htonl_riscv`. -/
def htonlRiscvAsm (o : RiscvOperands) : List Rv64.Instr :=
  [ .srliw t0 o.x 24,               -- Byte 3 -> position 0
    .slliw t1 o.x 24,               -- Byte 0 -> position 3
    .or t0 t0 t1,                   -- Combine outer bytes
    .srliw t1 o.x 16,
    .andi t1 t1 0xff,
    .slli t1 t1 8,                  -- Byte 2 -> position 1
    .or t0 t0 t1,
    .srliw t1 o.x 8,
    .andi t1 t1 0xff,
    .slli t1 t1 16,                 -- Byte 1 -> position 2
    .or o.result t0 t1,
    .slli o.result o.result 32,     -- Clear upper 32 bits
    .srli o.result o.result 32 ]

/-- `htonl_riscv`. -/
def htonlRiscv (o : RiscvOperands) (s : Rv64.Regs) (x : BitVec 64) : BitVec 64 :=
  Rv64.get (Rv64.run (Rv64.set s o.x x) (htonlRiscvAsm o)) o.result

/-- The block of `htons_riscv`. -/
def htonsRiscvAsm (o : RiscvOperands) : List Rv64.Instr :=
  [ .andi t0 o.x 0xff,              -- Get low byte
    .slli t0 t0 8,                  -- Shift to high position
    .srli t1 o.x 8,                 -- Get high byte
    .andi t1 t1 0xff,
    .or o.result t0 t1 ]

/-- `htons_riscv`. -/
def htonsRiscv (o : RiscvOperands) (s : Rv64.Regs) (x : BitVec 64) : BitVec 64 :=
  Rv64.get (Rv64.run (Rv64.set s o.x x) (htonsRiscvAsm o)) o.result

/-- What the block writes is its result and what it clobbers. -/
theorem htonlRiscvAsm_frame (o : RiscvOperands) (s : Rv64.Regs) {k : Rv64.Reg} (hk : k ≠ o.result) (h0 : k ≠ t0)
    (h1 : k ≠ t1) : Rv64.get (Rv64.run s (htonlRiscvAsm o)) k = Rv64.get s k := by
  simp [htonlRiscvAsm, Rv64.Instr.exec, hk, h0, h1]

theorem htonsRiscvAsm_frame (o : RiscvOperands) (s : Rv64.Regs) {k : Rv64.Reg} (hk : k ≠ o.result) (h0 : k ≠ t0)
    (h1 : k ≠ t1) : Rv64.get (Rv64.run s (htonsRiscvAsm o)) k = Rv64.get s k := by
  simp [htonsRiscvAsm, Rv64.Instr.exec, hk, h0, h1]

theorem signExtend_255 : BitVec.signExtend 64 0xff#12 = 255#64 := by decide

theorem htonlRiscv_eq (o : RiscvOperands) (s : Rv64.Regs) (x : BitVec 64) :
    htonlRiscv o s x = (byteReverse32 (x.setWidth 32)).setWidth 64 := by
  have hrun : htonlRiscv o s x =
      (Rv64.sext (x.setWidth 32 >>> 24) ||| Rv64.sext (x.setWidth 32 <<< 24) |||
        ((Rv64.sext (x.setWidth 32 >>> 16) &&& 255#64) <<< 8) |||
        ((Rv64.sext (x.setWidth 32 >>> 8) &&& 255#64) <<< 16)) <<< 32 >>> 32 := by
    simp [htonlRiscv, htonlRiscvAsm, Rv64.Instr.exec, signExtend_255]
  rw [hrun, Rv64.shl_shr_32, ← shifts_eq_byteReverse32]
  congr 1
  simp only [BitVec.setWidth_or, BitVec.setWidth_and, Rv64.setWidth_shl (by omega : 32 ≤ 64), Rv64.setWidth_sext]
  rfl

theorem htonsRiscv_eq (o : RiscvOperands) (s : Rv64.Regs) (x : BitVec 64) :
    (htonsRiscv o s x).setWidth 16 = byteReverse16 (x.setWidth 16) := by
  have hrun : htonsRiscv o s x = ((x &&& 255#64) <<< 8) ||| ((x >>> 8) &&& 255#64) := by
    simp [htonsRiscv, htonsRiscvAsm, Rv64.Instr.exec, signExtend_255]
  rw [hrun]
  apply BitVec.eq_of_getLsbD_eq
  intro i hi
  have hbyte : i < 8 ∨ (8 ≤ i ∧ i < 16) := by omega
  simp only [byteReverse16, BitVec.getLsbD_setWidth, BitVec.getLsbD_or, BitVec.getLsbD_and, BitVec.getLsbD_shiftLeft,
    BitVec.getLsbD_ushiftRight, BitVec.getLsbD_append, BitVec.getLsbD_extractLsb', getLsbD_255 (by omega : 8 ≤ 64)]
  rcases hbyte with h | ⟨h, h'⟩ <;> grind

/-! ### ARM64 -/

/-- `"=r" (result) : "r" (x)`. -/
structure Arm64Operands where
  /-- `%0`. -/
  result : A64.Reg
  /-- `%1`. -/
  x : A64.Reg

/-- `htonl_arm64`. -/
def htonlArm64 (o : Arm64Operands) (s : A64.Regs) (x : BitVec 64) : BitVec 64 :=
  A64.run (Function.update s o.x x) [.rev o.result o.x] o.result

/-- `htons_arm64`. -/
def htonsArm64 (o : Arm64Operands) (s : A64.Regs) (x : BitVec 64) : BitVec 64 :=
  A64.run (Function.update s o.x x) [.rev16 o.result o.x] o.result

theorem htonlArm64_eq (o : Arm64Operands) (s : A64.Regs) (x : BitVec 64) :
    htonlArm64 o s x = (byteReverse32 (x.setWidth 32)).setWidth 64 := by
  simp [htonlArm64, A64.run, A64.Instr.exec, A64.setW]

theorem htonsArm64_eq (o : Arm64Operands) (s : A64.Regs) (x : BitVec 64) :
    (htonsArm64 o s x).setWidth 16 = byteReverse16 (x.setWidth 16) := by
  simp only [htonsArm64, A64.run, List.foldl_cons, List.foldl_nil]
  rw [A64.setWidth_rev16, Function.update_self]

/-! ### AMD64 -/

/-- `htonl_amd64`, `"=r" (result) : "0" (x)`: the result is where the argument was. -/
def htonlAmd64 (r : X64.Reg) (s : X64.Regs) (x : BitVec 64) : BitVec 64 :=
  X64.run (Function.update s r x) [.bswap r] r

/-- `htons_amd64`, `"=Q" (result) : "0" (x)`: a register with a second byte of its own. -/
def htonsAmd64 (q : Fin 4) (s : X64.Regs) (x : BitVec 64) : BitVec 64 :=
  let r : X64.Reg := .ofFirst q
  X64.run (Function.update s r x) [.xchg (.low r) (.high q)] r

theorem htonlAmd64_eq (r : X64.Reg) (s : X64.Regs) (x : BitVec 64) :
    htonlAmd64 r s x = (byteReverse32 (x.setWidth 32)).setWidth 64 := by
  simp [htonlAmd64, X64.run, X64.Instr.exec]

theorem htonsAmd64_eq (q : Fin 4) (s : X64.Regs) (x : BitVec 64) :
    (htonsAmd64 q s x).setWidth 16 = byteReverse16 (x.setWidth 16) := by
  simp only [htonsAmd64, X64.run, List.foldl_cons, List.foldl_nil]
  rw [X64.setWidth_xchg, Function.update_self]

/-! ### The public functions -/

/-- The architectures. -/
inductive Arch where
  | riscv
  | arm64
  | amd64

/-- The registers of an architecture. -/
def Arch.Regs : Arch → Type
  | riscv => Rv64.Regs
  | arm64 => A64.Regs
  | amd64 => X64.Regs

/-- What the compiler may choose for the block of `htonl`. -/
def Arch.Operands32 : Arch → Type
  | riscv => RiscvOperands
  | arm64 => Arm64Operands
  | amd64 => X64.Reg

/-- What the compiler may choose for the block of `htons`. -/
def Arch.Operands16 : Arch → Type
  | riscv => RiscvOperands
  | arm64 => Arm64Operands
  | amd64 => Fin 4

/-- `htonl`. -/
def Arch.htonl : (arch : Arch) → arch.Operands32 → arch.Regs → BitVec 64 → BitVec 64
  | riscv => htonlRiscv
  | arm64 => htonlArm64
  | amd64 => htonlAmd64

/-- `htons`. -/
def Arch.htons : (arch : Arch) → arch.Operands16 → arch.Regs → BitVec 64 → BitVec 64
  | riscv => htonsRiscv
  | arm64 => htonsArm64
  | amd64 => htonsAmd64

/-- `ntohl`: on every architecture it calls `htonl`. -/
def Arch.ntohl (arch : Arch) : arch.Operands32 → arch.Regs → BitVec 64 → BitVec 64 := arch.htonl

/-- `ntohs`: on every architecture it calls `htons`. -/
def Arch.ntohs (arch : Arch) : arch.Operands16 → arch.Regs → BitVec 64 → BitVec 64 := arch.htons

theorem Arch.htonl_eq (arch : Arch) (o : arch.Operands32) (s : arch.Regs) (x : BitVec 64) :
    arch.htonl o s x = (byteReverse32 (x.setWidth 32)).setWidth 64 := by
  cases arch with
  | riscv => exact htonlRiscv_eq o s x
  | arm64 => exact htonlArm64_eq o s x
  | amd64 => exact htonlAmd64_eq o s x

theorem Arch.htons_eq (arch : Arch) (o : arch.Operands16) (s : arch.Regs) (x : BitVec 64) :
    (arch.htons o s x).setWidth 16 = byteReverse16 (x.setWidth 16) := by
  cases arch with
  | riscv => exact htonsRiscv_eq o s x
  | arm64 => exact htonsArm64_eq o s x
  | amd64 => exact htonsAmd64_eq o s x

/-! ### Loads -/

theorem toBitVec_be16 (a b : UInt8) : (be16 a b).toBitVec = a.toBitVec ++ b.toBitVec := by
  have ha := a.toNat_lt
  have hb := b.toNat_lt
  apply BitVec.eq_of_toNat_eq
  rw [UInt16.toNat_toBitVec, toNat_be16, BitVec.toNat_append, UInt8.toNat_toBitVec, UInt8.toNat_toBitVec,
    shiftLeft_or hb]

theorem toBitVec_be32 (a b c d : UInt8) :
    (be32 a b c d).toBitVec = a.toBitVec ++ b.toBitVec ++ c.toBitVec ++ d.toBitVec := by
  have hb := b.toNat_lt
  have hc := c.toNat_lt
  have hd := d.toNat_lt
  apply BitVec.eq_of_toNat_eq
  rw [UInt32.toNat_toBitVec, toNat_be32]
  simp only [BitVec.toNat_append, UInt8.toNat_toBitVec, shiftLeft_or hb, shiftLeft_or hc, shiftLeft_or hd]
  omega

theorem byteReverse16_load16 (buf : Buf) (i : ℕ) :
    byteReverse16 (load16 buf i).toBitVec = (ntohsUnaligned buf i).toBitVec := by
  rw [load16, ntohsUnaligned, toBitVec_be16, toBitVec_be16, byteReverse16_append]

theorem byteReverse32_load32 (buf : Buf) (i : ℕ) :
    byteReverse32 (load32 buf i).toBitVec = (ntohlUnaligned buf i).toBitVec := by
  rw [load32, ntohlUnaligned, toBitVec_be32, toBitVec_be32, byteReverse32_append]

/-- `htons` as the other modules have it is what each of the blocks computes. -/
theorem toBitVec_htons (x : UInt16) : (htons x).toBitVec = byteReverse16 x.toBitVec := by
  rw [← shifts_eq_byteReverse16]
  rfl

theorem ntohsUnaligned_store (buf : Buf) (i : ℕ) (a b : UInt8) :
    ntohsUnaligned (store buf i [a, b]) i = be16 a b := by
  simp [ntohsUnaligned, store]

theorem ntohlUnaligned_store (buf : Buf) (i : ℕ) (a b c d : UInt8) :
    ntohlUnaligned (store buf i [a, b, c, d]) i = be32 a b c d := by
  simp [ntohlUnaligned, store]

theorem ntohsUnaligned_write (buf : Buf) (i : ℕ) (v : UInt16) :
    ntohsUnaligned (writeHtonsUnaligned buf i v) i = v := by
  rw [writeHtonsUnaligned, htonsBytes, ntohsUnaligned_store, be16_htonsBytes]

theorem ntohlUnaligned_write (buf : Buf) (i : ℕ) (v : UInt32) :
    ntohlUnaligned (writeHtonlUnaligned buf i v) i = v := by
  rw [writeHtonlUnaligned, htonlBytes, ntohlUnaligned_store, be32_htonlBytes]

/-- On every architecture, and whatever registers the blocks are given, `htonl` and `htons` reverse the bytes of their
argument, whatever is above it in its register; `ntohl` and `ntohs` of what was loaded are what `ntohl_unaligned` and
`ntohs_unaligned` read; and these read what was written. -/
theorem byteOrder_spec (arch : Arch) (o : arch.Operands32) (o' : arch.Operands16) (s : arch.Regs) :
    (∀ x, arch.htonl o s x = (byteReverse32 (x.setWidth 32)).setWidth 64) ∧
      (∀ x, (arch.htons o' s x).setWidth 16 = byteReverse16 (x.setWidth 16)) ∧
      (∀ buf i, ∀ upper : BitVec 32,
        arch.ntohl o s (upper ++ (load32 buf i).toBitVec) = (ntohlUnaligned buf i).toBitVec.setWidth 64) ∧
      (∀ buf i, ∀ upper : BitVec 48,
        (arch.ntohs o' s (upper ++ (load16 buf i).toBitVec)).setWidth 16 = (ntohsUnaligned buf i).toBitVec) ∧
      (∀ buf i v, ntohlUnaligned (writeHtonlUnaligned buf i v) i = v) ∧
      ∀ buf i v, ntohsUnaligned (writeHtonsUnaligned buf i v) i = v := by
  refine ⟨arch.htonl_eq o s, arch.htons_eq o' s, fun buf i upper => ?_, fun buf i upper => ?_, ntohlUnaligned_write,
    ntohsUnaligned_write⟩
  · have hlow : (upper ++ (load32 buf i).toBitVec).setWidth 32 = (load32 buf i).toBitVec := setWidth_append_right _ _
    rw [Arch.ntohl, arch.htonl_eq, hlow, byteReverse32_load32]
  · have hlow : (upper ++ (load16 buf i).toBitVec).setWidth 16 = (load16 buf i).toBitVec := setWidth_append_right _ _
    rw [Arch.ntohs, arch.htons_eq, hlow, byteReverse16_load16]

end Yasouos.Net
