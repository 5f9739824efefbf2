import Mathlib.Data.Nat.Notation
import Mathlib.Logic.Function.Basic
import Mathlib.Tactic.SplitIfs

/-!
# Instructions on 64-bit registers

The meaning of some instructions of three architectures: RV64, AArch64 and x86-64. A machine is its
registers; an instruction reads and writes them, and a block of instructions is run from the first
to the last. There are only instructions here that move bytes within a register.

* RV64: the instructions that end in `w` work on the lower half of a register and extend the sign of
  what they come to; register 0 is always zero.
* AArch64: a `w` register is the lower half of an `x` register, and to write it clears the upper
  half.
* x86-64: so is a 32-bit register; but to write one of the two lowest bytes leaves the other bytes
  as they are.

## What is proved

What shifts and masks are for a word of four or two bytes (`shifts_eq_byteReverse32`,
`shifts_eq_byteReverse16`), and what the instructions do to the lower part of a register
(`Rv64.setWidth_sext`, `Rv64.setWidth_shl`, `A64.setWidth_rev16`, `X64.setWidth_xchg`).
-/

namespace Yasouos.Theory

/-! ### The bytes of a word -/

/-- The bytes of a word of four, in the other order. -/
def byteReverse32 (x : BitVec 32) : BitVec 32 :=
  x.extractLsb' 0 8 ++ x.extractLsb' 8 8 ++ x.extractLsb' 16 8 ++ x.extractLsb' 24 8

/-- The bytes of a word of two, in the other order. -/
def byteReverse16 (x : BitVec 16) : BitVec 16 := x.extractLsb' 0 8 ++ x.extractLsb' 8 8

theorem byteReverse32_append (a b c d : BitVec 8) : byteReverse32 (a ++ b ++ c ++ d) = d ++ c ++ b ++ a := by
  apply BitVec.eq_of_getLsbD_eq
  intro i hi
  have hbyte : i < 8 ∨ (8 ≤ i ∧ i < 16) ∨ (16 ≤ i ∧ i < 24) ∨ (24 ≤ i ∧ i < 32) := by omega
  simp only [byteReverse32, BitVec.getLsbD_append, BitVec.getLsbD_extractLsb']
  rcases hbyte with h | ⟨h, h'⟩ | ⟨h, h'⟩ | ⟨h, h'⟩ <;> grind

theorem byteReverse16_append (a b : BitVec 8) : byteReverse16 (a ++ b) = b ++ a := by
  apply BitVec.eq_of_getLsbD_eq
  intro i hi
  simp only [byteReverse16, BitVec.getLsbD_append, BitVec.getLsbD_extractLsb']
  grind

/-- The lower part of two. -/
theorem setWidth_append_right {n w : ℕ} (upper : BitVec n) (x : BitVec w) : (upper ++ x).setWidth w = x := by
  apply BitVec.eq_of_getLsbD_eq
  intro i hi
  simp [BitVec.getLsbD_append, hi]

/-- The mask of the lowest byte. -/
theorem getLsbD_255 {w : ℕ} (hw : 8 ≤ w) (i : ℕ) : (255#w).getLsbD i = decide (i < 8) := by
  have hmask : (255#w).toNat = 2 ^ 8 - 1 := by
    rw [BitVec.toNat_ofNat]
    exact Nat.mod_eq_of_lt (Nat.lt_of_lt_of_le (by decide : 255 < 2 ^ 8) (Nat.pow_le_pow_right (by omega) hw))
  rw [BitVec.getLsbD, hmask, Nat.testBit_two_pow_sub_one]

/-- Each byte is shifted to its place. -/
theorem shifts_eq_byteReverse32 (x : BitVec 32) :
    x >>> 24 ||| x <<< 24 ||| ((x >>> 16) &&& 255#32) <<< 8 ||| ((x >>> 8) &&& 255#32) <<< 16 = byteReverse32 x := by
  apply BitVec.eq_of_getLsbD_eq
  intro i hi
  have hbyte : i < 8 ∨ (8 ≤ i ∧ i < 16) ∨ (16 ≤ i ∧ i < 24) ∨ (24 ≤ i ∧ i < 32) := by omega
  simp only [byteReverse32, BitVec.getLsbD_or, BitVec.getLsbD_and, BitVec.getLsbD_shiftLeft, BitVec.getLsbD_ushiftRight,
    BitVec.getLsbD_append, BitVec.getLsbD_extractLsb', getLsbD_255 (by omega : 8 ≤ 32)]
  rcases hbyte with h | ⟨h, h'⟩ | ⟨h, h'⟩ | ⟨h, h'⟩ <;> grind

theorem shifts_eq_byteReverse16 (x : BitVec 16) : x <<< 8 ||| x >>> 8 = byteReverse16 x := by
  apply BitVec.eq_of_getLsbD_eq
  intro i hi
  simp only [byteReverse16, BitVec.getLsbD_or, BitVec.getLsbD_shiftLeft, BitVec.getLsbD_ushiftRight,
    BitVec.getLsbD_append, BitVec.getLsbD_extractLsb']
  grind

/-! ### RV64 -/

namespace Rv64

/-- The number of a register. -/
abbrev Reg := BitVec 5

/-- What is in the registers. -/
abbrev Regs := Reg → BitVec 64

/-- Read a register. -/
def get (s : Regs) (r : Reg) : BitVec 64 := if r = 0#5 then 0 else s r

/-- Write a register. -/
def set (s : Regs) (r : Reg) (v : BitVec 64) : Regs := Function.update s r v

@[simp] theorem get_set_self (s : Regs) {r : Reg} (hr : r ≠ 0#5) (v : BitVec 64) : get (set s r v) r = v := by
  simp [get, set, hr]

@[simp] theorem get_set_of_ne (s : Regs) {r k : Reg} (hk : k ≠ r) (v : BitVec 64) : get (set s r v) k = get s k := by
  simp [get, set, hk]

/-- An instruction. -/
inductive Instr where
  /-- Shift right, the lower half, and extend the sign. -/
  | srliw (rd rs : Reg) (shamt : BitVec 5)
  /-- Shift left, the lower half, and extend the sign. -/
  | slliw (rd rs : Reg) (shamt : BitVec 5)
  /-- And with a number of twelve bits, its sign extended. -/
  | andi (rd rs : Reg) (imm : BitVec 12)
  /-- Shift left. -/
  | slli (rd rs : Reg) (shamt : BitVec 6)
  /-- Shift right. -/
  | srli (rd rs : Reg) (shamt : BitVec 6)
  /-- Or. -/
  | or (rd rs₁ rs₂ : Reg)

/-- The sign of the lower half is extended. -/
def sext (v : BitVec 32) : BitVec 64 := v.signExtend 64

/-- What an instruction does. -/
def Instr.exec (s : Regs) : Instr → Regs
  | srliw rd rs shamt => set s rd (sext ((get s rs).setWidth 32 >>> shamt.toNat))
  | slliw rd rs shamt => set s rd (sext ((get s rs).setWidth 32 <<< shamt.toNat))
  | andi rd rs imm => set s rd (get s rs &&& imm.signExtend 64)
  | slli rd rs shamt => set s rd (get s rs <<< shamt.toNat)
  | srli rd rs shamt => set s rd (get s rs >>> shamt.toNat)
  | or rd rs₁ rs₂ => set s rd (get s rs₁ ||| get s rs₂)

/-- What a block of instructions does. -/
def run (s : Regs) (block : List Instr) : Regs := block.foldl Instr.exec s

@[simp] theorem run_nil (s : Regs) : run s [] = s := rfl

@[simp] theorem run_cons (s : Regs) (i : Instr) (block : List Instr) : run s (i :: block) = run (i.exec s) block := rfl

/-- The sign is not in the lower half. -/
theorem setWidth_sext (v : BitVec 32) : (sext v).setWidth 32 = v := by
  apply BitVec.eq_of_getLsbD_eq
  intro i hi
  simp only [sext, BitVec.getLsbD_setWidth, BitVec.getLsbD_signExtend]
  grind

/-- What a shift to the left does to the lower bits is seen from them alone. -/
theorem setWidth_shl {n : ℕ} (hn : n ≤ 64) (v : BitVec 64) (k : ℕ) : (v <<< k).setWidth n = v.setWidth n <<< k := by
  apply BitVec.eq_of_getLsbD_eq
  intro i hi
  simp only [BitVec.getLsbD_setWidth, BitVec.getLsbD_shiftLeft]
  grind

/-- To shift the upper half out, and back, clears it. -/
theorem shl_shr_32 (v : BitVec 64) : v <<< 32 >>> 32 = (v.setWidth 32).setWidth 64 := by
  apply BitVec.eq_of_getLsbD_eq
  intro i hi
  simp only [BitVec.getLsbD_setWidth, BitVec.getLsbD_shiftLeft, BitVec.getLsbD_ushiftRight]
  grind

end Rv64

/-! ### AArch64 -/

namespace A64

/-- The number of a register. -/
abbrev Reg := Fin 31

/-- What is in the registers. -/
abbrev Regs := Reg → BitVec 64

/-- Write a `w` register. -/
def setW (s : Regs) (r : Reg) (v : BitVec 32) : Regs := Function.update s r (v.setWidth 64)

/-- An instruction, on `w` registers. -/
inductive Instr where
  /-- The bytes in the other order. -/
  | rev (rd rn : Reg)
  /-- The bytes of each half in the other order. -/
  | rev16 (rd rn : Reg)

/-- What an instruction does. -/
def Instr.exec (s : Regs) : Instr → Regs
  | rev rd rn => setW s rd (byteReverse32 ((s rn).setWidth 32))
  | rev16 rd rn => setW s rd (byteReverse16 ((s rn).extractLsb' 16 16) ++ byteReverse16 ((s rn).extractLsb' 0 16))

/-- What a block of instructions does. -/
def run (s : Regs) (block : List Instr) : Regs := block.foldl Instr.exec s

/-- The two lowest bytes change places. -/
theorem setWidth_rev16 (s : Regs) (rd rn : Reg) :
    ((Instr.rev16 rd rn).exec s rd).setWidth 16 = byteReverse16 ((s rn).setWidth 16) := by
  have hlow : (s rn).extractLsb' 0 16 = (s rn).setWidth 16 := by
    apply BitVec.eq_of_getLsbD_eq
    intro i hi
    simp [hi]
  rw [Instr.exec, setW, Function.update_self, hlow, BitVec.setWidth_setWidth_of_le _ (by omega), setWidth_append_right]

end A64

/-! ### x86-64 -/

namespace X64

/-- The number of a register. -/
abbrev Reg := Fin 16

/-- What is in the registers. -/
abbrev Regs := Reg → BitVec 64

/-- A register of eight bits. -/
inductive Reg8 where
  /-- The lowest byte of a register. -/
  | low (r : Reg)
  /-- The byte above it, of one of the first four registers. -/
  | high (q : Fin 4)

/-- One of the first four registers. -/
def Reg.ofFirst (q : Fin 4) : Reg := q.castLE (by omega)

/-- Read a byte. -/
def get8 (s : Regs) : Reg8 → BitVec 8
  | .low r => (s r).extractLsb' 0 8
  | .high q => (s (.ofFirst q)).extractLsb' 8 8

/-- Write a byte. -/
def set8 (s : Regs) : Reg8 → BitVec 8 → Regs
  | .low r, v => Function.update s r ((s r).extractLsb' 8 56 ++ v)
  | .high q, v =>
    let r := .ofFirst q
    Function.update s r ((s r).extractLsb' 16 48 ++ v ++ (s r).extractLsb' 0 8)

/-- An instruction. -/
inductive Instr where
  /-- The bytes of a 32-bit register in the other order. -/
  | bswap (r : Reg)
  /-- Two bytes change places. -/
  | xchg (a b : Reg8)

/-- What an instruction does. -/
def Instr.exec (s : Regs) : Instr → Regs
  | bswap r => Function.update s r ((byteReverse32 ((s r).setWidth 32)).setWidth 64)
  | xchg a b => set8 (set8 s a (get8 s b)) b (get8 s a)

/-- What a block of instructions does. -/
def run (s : Regs) (block : List Instr) : Regs := block.foldl Instr.exec s

/-- The two lowest bytes of a register change places. -/
theorem setWidth_xchg (s : Regs) (q : Fin 4) :
    ((Instr.xchg (.low (.ofFirst q)) (.high q)).exec s (.ofFirst q)).setWidth 16 =
      byteReverse16 ((s (.ofFirst q)).setWidth 16) := by
  simp only [Instr.exec, set8, get8, Function.update_self]
  apply BitVec.eq_of_getLsbD_eq
  intro i hi
  simp only [byteReverse16, BitVec.getLsbD_setWidth, BitVec.getLsbD_append, BitVec.getLsbD_extractLsb']
  grind

end X64

end Yasouos.Theory
