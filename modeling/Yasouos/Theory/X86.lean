import Yasouos.Theory.VirtqueueBytes
import Mathlib.Logic.Relation

/-!
# A 32-bit x86 processor without paging

The instructions that start-up code is made of, on a processor in 32-bit protected mode before
paging is on: moves, a little arithmetic, the control registers, the register `EFER`, jumps, and the
string instructions with `rep`.

## The model

Addresses are physical, and the segments start at zero and have no limit below 4 GiB. An access that
reaches over the end of the 4 GiB faults; so does turning on paging in a mode that has none, and
from then on no instruction is modelled that uses memory. Jumps say how many instructions they go,
and code is a list of instructions that does not change. A string instruction with `rep` is one step
for each time it repeats. Of the flags there are the zero flag and the direction flag, and of the
model-specific registers only `EFER`.

`step` is one step of some code, `Steps` any number of them, and `Runs b c c'` says that a block `b`,
wherever it stands in the code, goes from its start to its end, and from `c` to `c'`.

## What is proved

How blocks are put together: one after the other (`Runs.append`), from instructions that do not jump
(`Runs.ops`), as the two branches of a test (`Runs.ifElse`), as a loop with an invariant (`Runs.loop`),
and what `rep stosl` and `rep movsl` do (`Runs.repStosl`, `Runs.repMovsl`).
-/

namespace Yasouos.Theory.X86

open Relation

/-! ### The processor -/

/-- A register. -/
inductive Reg where
  | eax | ecx | edx | ebx | esp | ebp | esi | edi
  deriving DecidableEq

/-- A control register. -/
inductive Ctl where
  | cr0 | cr3 | cr4
  deriving DecidableEq

/-- The state of the processor, and memory. -/
structure Cpu where
  reg : Reg → BitVec 32
  ctl : Ctl → BitVec 32
  /-- The model-specific register `EFER`. -/
  efer : BitVec 64
  /-- The zero flag. -/
  zf : Bool
  /-- The direction flag: the string instructions go down. -/
  df : Bool
  mem : ℕ → UInt8

namespace Cpu

variable (c : Cpu)

/-- `PE` of `CR0`: protected mode. -/
def protectedMode : Bool := (c.ctl .cr0).getLsbD 0

/-- `PG` of `CR0`: paging is on. -/
def paging : Bool := (c.ctl .cr0).getLsbD 31

/-- `PAE` of `CR4`: entries of page tables have eight bytes. -/
def pae : Bool := (c.ctl .cr4).getLsbD 5

/-- `LME` of `EFER`: the paging that is turned on is that of long mode. -/
def lme : Bool := c.efer.getLsbD 8

/-- `LMA` of `EFER`: the processor is in long mode. -/
def longMode : Bool := c.efer.getLsbD 10

/-- `NXE` of `EFER`: entries of page tables can forbid execution. -/
def nxe : Bool := c.efer.getLsbD 11

/-- Write a register. -/
def set (r : Reg) (v : BitVec 32) : Cpu := { c with reg := Function.update c.reg r v }

/-- Write a register, and set the zero flag by what is written. -/
def arith (r : Reg) (v : BitVec 32) : Cpu := { c.set r v with zf := v == 0 }

/-- Four bytes at `a` can be used. -/
def Reaches (a : BitVec 32) : Prop := c.paging = false ∧ a.toNat + 4 ≤ 2 ^ 32

instance (a : BitVec 32) : Decidable (c.Reaches a) := inferInstanceAs (Decidable (_ ∧ _))

/-- Read four bytes. -/
def read (a : BitVec 32) : Option (BitVec 32) :=
  if c.Reaches a then some (BitVec.ofNat 32 (getNat c.mem a.toNat 4)) else none

/-- Write four bytes. -/
def write (a v : BitVec 32) : Option Cpu :=
  if c.Reaches a then some { c with mem := setNat c.mem a.toNat 4 v.toNat } else none

/-- Write a control register, while paging is off. -/
def setCtl (k : Ctl) (v : BitVec 32) : Option Cpu :=
  let c' := { c with ctl := Function.update c.ctl k v }
  if c.paging then none
  else if !c'.paging then some c'
  -- paging needs protected mode, and in long mode it needs the large entries
  else if !c'.protectedMode || c.lme && !c.pae then none
  else if c.lme then some { c' with efer := c.efer ||| 0x400 }
  else some c'

/-- The number of `EFER` among the model-specific registers. -/
def eferNumber : BitVec 32 := 0xC0000080

/-- How far a string instruction goes. -/
def stride : BitVec 32 := if c.df then -4 else 4

end Cpu

/-! ### Instructions -/

/-- An instruction that does not jump. -/
inductive Op where
  /-- `movl $v, %r` -/
  | movImm (r : Reg) (v : BitVec 32)
  /-- `movl %src, %dst` -/
  | mov (src dst : Reg)
  /-- `movl %src, disp(%base)` -/
  | store (src : Reg) (disp : BitVec 32) (base : Reg)
  /-- `movl $v, disp(%base)` -/
  | storeImm (v disp : BitVec 32) (base : Reg)
  /-- `addl $v, %r` -/
  | addImm (v : BitVec 32) (r : Reg)
  /-- `orl $v, %r` -/
  | orImm (v : BitVec 32) (r : Reg)
  /-- `xorl %src, %dst` -/
  | xor (src dst : Reg)
  /-- `testl %a, %b` -/
  | test (a b : Reg)
  /-- `pushl %r` -/
  | push (r : Reg)
  /-- `popl %r` -/
  | pop (r : Reg)
  /-- `movl %src, %k` -/
  | toCtl (src : Reg) (k : Ctl)
  /-- `movl %k, %dst` -/
  | fromCtl (k : Ctl) (dst : Reg)
  /-- Read the model-specific register with the number in `ecx`. -/
  | rdmsr
  /-- Write it. -/
  | wrmsr
  /-- Do not take interrupts. -/
  | cli

/-- What such an instruction does; `none` if it faults. -/
def Op.exec (c : Cpu) : Op → Option Cpu
  | movImm r v => some (c.set r v)
  | mov src dst => some (c.set dst (c.reg src))
  | store src disp base => c.write (c.reg base + disp) (c.reg src)
  | storeImm v disp base => c.write (c.reg base + disp) v
  | addImm v r => some (c.arith r (c.reg r + v))
  | orImm v r => some (c.arith r (c.reg r ||| v))
  | xor src dst => some (c.arith dst (c.reg dst ^^^ c.reg src))
  | test a b => some { c with zf := c.reg b &&& c.reg a == 0 }
  | push r => (c.write (c.reg .esp - 4) (c.reg r)).map fun c' => c'.set .esp (c.reg .esp - 4)
  | pop r => (c.read (c.reg .esp)).map fun v => (c.set .esp (c.reg .esp + 4)).set r v
  | toCtl src k => c.setCtl k (c.reg src)
  | fromCtl k dst => some (c.set dst (c.ctl k))
  | rdmsr =>
    if c.reg .ecx = Cpu.eferNumber then some ((c.set .eax (c.efer.setWidth 32)).set .edx ((c.efer >>> 32).setWidth 32))
    else none
  | wrmsr =>
    -- `LMA` is the processor's to write
    if c.reg .ecx = Cpu.eferNumber ∧ c.paging = false then
      some { c with efer := (c.reg .edx ++ c.reg .eax) &&& ~~~0x400#64 ||| c.efer &&& 0x400#64 }
    else none
  | cli => some c

/-- An instruction. -/
inductive Instr where
  | op (o : Op)
  /-- Jump over the next `n` instructions if the zero flag is set. -/
  | jz (n : ℕ)
  /-- Jump over the next `n` instructions. -/
  | jmp (n : ℕ)
  /-- Count `ecx` down, and go back `n` instructions if it has not come to zero. -/
  | loop (n : ℕ)
  /-- `rep stosl` -/
  | repStosl
  /-- `rep movsl` -/
  | repMovsl

/-- `stosl`, and count down. -/
def Cpu.stosl (c : Cpu) : Option Cpu :=
  (c.write (c.reg .edi) (c.reg .eax)).map fun c' =>
    (c'.set .edi (c.reg .edi + c.stride)).set .ecx (c.reg .ecx - 1)

/-- `movsl`, and count down. -/
def Cpu.movsl (c : Cpu) : Option Cpu :=
  (c.read (c.reg .esi)).bind fun v => (c.write (c.reg .edi) v).map fun c' =>
    ((c'.set .esi (c.reg .esi + c.stride)).set .edi (c.reg .edi + c.stride)).set .ecx (c.reg .ecx - 1)

/-- What the instruction at `pc` does, and where the processor goes on. -/
def Instr.exec (pc : ℕ) (c : Cpu) : Instr → Option (ℕ × Cpu)
  | op o => (o.exec c).map fun c' => (pc + 1, c')
  | jz n => some (if c.zf then pc + 1 + n else pc + 1, c)
  | jmp n => some (pc + 1 + n, c)
  | loop n =>
    let count := c.reg .ecx - 1
    some (if count = 0 then pc + 1 else pc - n, c.set .ecx count)
  | repStosl => if c.reg .ecx = 0 then some (pc + 1, c) else c.stosl.map fun c' => (pc, c')
  | repMovsl => if c.reg .ecx = 0 then some (pc + 1, c) else c.movsl.map fun c' => (pc, c')

theorem Instr.exec_loop (pc n : ℕ) (c : Cpu) :
    (Instr.loop n).exec pc c =
      some (if c.reg .ecx - 1 = 0 then pc + 1 else pc - n, c.set .ecx (c.reg .ecx - 1)) := rfl

/-- One step; `none` at the end of the code, or if the instruction faults. -/
def step (code : List Instr) (s : ℕ × Cpu) : Option (ℕ × Cpu) := code[s.1]?.bind fun i => i.exec s.1 s.2

/-- Any number of steps. -/
def Steps (code : List Instr) : ℕ × Cpu → ℕ × Cpu → Prop := ReflTransGen fun s s' => step code s = some s'

/-! ### Blocks -/

/-- The block `b` is in the code from `pc` on. -/
def CodeAt (code : List Instr) : ℕ → List Instr → Prop
  | _, [] => True
  | pc, i :: b => code[pc]? = some i ∧ CodeAt code (pc + 1) b

theorem CodeAt.append {code b₁ b₂ : List Instr} {pc : ℕ} (h : CodeAt code pc (b₁ ++ b₂)) :
    CodeAt code pc b₁ ∧ CodeAt code (pc + b₁.length) b₂ := by
  induction b₁ generalizing pc with
  | nil => exact ⟨trivial, h⟩
  | cons i b₁ ih =>
    obtain ⟨h₁, h₂⟩ := ih h.2
    rw [Nat.add_right_comm] at h₂
    exact ⟨⟨h.1, h₁⟩, h₂⟩

/-- A whole program is in itself. -/
theorem codeAt_self (pre b : List Instr) : CodeAt (pre ++ b) pre.length b := by
  induction b generalizing pre with
  | nil => trivial
  | cons i b ih =>
    refine ⟨by simp, ?_⟩
    have h := ih (pre ++ [i])
    rwa [List.append_assoc, List.singleton_append, List.length_append, List.length_singleton] at h

/-- Wherever the block `b` is, it goes from its start to its end, and from `c` to `c'`. -/
def Runs (b : List Instr) (c c' : Cpu) : Prop :=
  ∀ code pc, CodeAt code pc b → Steps code (pc, c) (pc + b.length, c')

/-- One step of code that is there. -/
theorem CodeAt.step {code b : List Instr} {i : Instr} {pc : ℕ} {c : Cpu} {s : ℕ × Cpu} (h : CodeAt code pc (i :: b))
    (hi : i.exec pc c = some s) : Steps code (pc, c) s :=
  .single (by rw [X86.step, h.1, Option.bind_some, hi])

namespace Runs

variable {c c' c'' : Cpu} {b b₁ b₂ : List Instr}

/-- The program by itself. -/
theorem steps (h : Runs b c c') : Steps b (0, c) (b.length, c') := by
  have h0 := h b 0 (codeAt_self [] b)
  rwa [Nat.zero_add] at h0

theorem nil (c : Cpu) : Runs [] c c := fun _ _ _ => .refl

/-- One block after the other. -/
theorem append (h₁ : Runs b₁ c c') (h₂ : Runs b₂ c' c'') : Runs (b₁ ++ b₂) c c'' := by
  intro code pc h
  obtain ⟨hb₁, hb₂⟩ := h.append
  rw [List.length_append, ← Nat.add_assoc]
  exact (h₁ code pc hb₁).trans (h₂ code _ hb₂)

/-- An instruction that goes on to the next one. -/
theorem single {i : Instr} (h : ∀ pc, i.exec pc c = some (pc + 1, c')) : Runs [i] c c' :=
  fun _ pc hb => hb.step (h pc)

theorem op {o : Op} (h : o.exec c = some c') : Runs [.op o] c c' :=
  single fun pc => by rw [Instr.exec, h, Option.map_some]

end Runs

/-- What several instructions do that do not jump. -/
def runOps (c : Cpu) (os : List Op) : Option Cpu := os.foldlM Op.exec c

@[simp] theorem runOps_nil (c : Cpu) : runOps c [] = some c := rfl

@[simp] theorem runOps_cons (c : Cpu) (o : Op) (os : List Op) :
    runOps c (o :: os) = (o.exec c).bind fun c' => runOps c' os := rfl

namespace Runs

variable {c c' c'' : Cpu}

theorem ops {os : List Op} (h : runOps c os = some c') : Runs (os.map .op) c c' := by
  induction os generalizing c with
  | nil =>
    obtain rfl : c = c' := Option.some.inj h
    exact nil c
  | cons o os ih =>
    obtain ⟨c₁, h₁, h₂⟩ := Option.bind_eq_some_iff.mp h
    exact (op h₁).append (ih h₂)

/-- The two branches of a test. -/
theorem ifElse {b₁ b₂ : List Instr} (h₁ : c.zf = false → Runs b₁ c c') (h₂ : c.zf = true → Runs b₂ c c') :
    Runs (.jz (b₁.length + 1) :: (b₁ ++ .jmp b₂.length :: b₂)) c c' := by
  intro code pc h
  obtain ⟨hb₁, hb₂⟩ := h.2.append
  have hlen : pc + (Instr.jz (b₁.length + 1) :: (b₁ ++ .jmp b₂.length :: b₂)).length =
      pc + 1 + b₁.length + 1 + b₂.length := by
    simp only [List.length_cons, List.length_append]
    omega
  rw [hlen]
  cases hz : c.zf with
  | false =>
    have hjz : Steps code (pc, c) (pc + 1, c) := h.step (by simp [Instr.exec, hz])
    have hjmp : Steps code (pc + 1 + b₁.length, c') (pc + 1 + b₁.length + 1 + b₂.length, c') := hb₂.step rfl
    exact (hjz.trans (h₁ hz code _ hb₁)).trans hjmp
  | true =>
    have hjz : Steps code (pc, c) (pc + 1 + (b₁.length + 1), c) := h.step (by simp [Instr.exec, hz])
    exact hjz.trans (h₂ hz code _ hb₂.2)

/-- A loop: `I n` is what holds when it has still to go round `n` times. -/
theorem loop {b : List Instr} {I : ℕ → Cpu → Prop} (hcount : ∀ n c, I n c → (c.reg .ecx).toNat = n)
    (hbody : ∀ n c, I (n + 1) c → ∃ c', Runs b c c' ∧ I n (c'.set .ecx (c'.reg .ecx - 1))) {n : ℕ} (h : I (n + 1) c) :
    ∃ c', Runs (b ++ [.loop b.length]) c c' ∧ I 0 c' := by
  induction n generalizing c with
  | zero =>
    obtain ⟨c₁, hrun, hI⟩ := hbody 0 c h
    refine ⟨_, hrun.append (single fun pc => ?_), hI⟩
    have hz : c₁.reg .ecx - 1 = 0 :=
      BitVec.eq_of_toNat_eq (by simpa [Cpu.set] using hcount 0 _ hI)
    rw [Instr.exec_loop, if_pos hz]
  | succ n ih =>
    obtain ⟨c₁, hrun, hI⟩ := hbody (n + 1) c h
    obtain ⟨c₂, hrest, hI₂⟩ := ih hI
    refine ⟨c₂, fun code pc hb => ?_, hI₂⟩
    obtain ⟨hb₁, hb₂⟩ := hb.append
    have hnz : c₁.reg .ecx - 1 ≠ 0 := by
      intro hz
      have hc := hcount _ _ hI
      rw [hz] at hc
      simp [Cpu.set] at hc
    have hback : Steps code (pc + b.length, c₁) (pc, c₁.set .ecx (c₁.reg .ecx - 1)) :=
      hb₂.step (by rw [Instr.exec_loop, if_neg hnz, Nat.add_sub_cancel])
    exact ((hrun code pc hb₁).trans hback).trans (hrest code pc hb)

end Runs

/-! ### String instructions -/

/-- Counting down in a register. -/
theorem toNat_sub_one {v : BitVec 32} {n : ℕ} (h : v.toNat = n + 1) : (v - 1).toNat = n := by
  have hlt := v.isLt
  have hone : (1#32).toNat = 1 := rfl
  rw [BitVec.toNat_sub, BitVec.ofNat_eq_ofNat, hone]
  omega

/-- One number further, with one less to go. -/
theorem add_four_mul_sub_one (v n : BitVec 32) : v + 4 + 4 * (n - 1) = v + 4 * n := by grind

namespace Cpu

variable (c : Cpu)

@[simp] theorem set_reg_self (r : Reg) (v : BitVec 32) : (c.set r v).reg r = v := Function.update_self ..

theorem stride_up (h : c.df = false) : c.stride = 4 := by
  simp [stride, h]

@[simp] theorem set_self (r : Reg) : c.set r (c.reg r) = c := by
  rw [set, Function.update_eq_self]

end Cpu

namespace Runs

variable {c : Cpu}

/-- `rep stosl` fills memory with the number in `eax`. -/
theorem repStosl (hdf : c.df = false) (hpg : c.paging = false) {n : ℕ} (hn : (c.reg .ecx).toNat = n)
    (hfit : (c.reg .edi).toNat + 4 * n ≤ 2 ^ 32) :
    ∃ mem, Runs [.repStosl] c { (c.set .edi (c.reg .edi + 4 * c.reg .ecx)).set .ecx 0 with mem := mem } ∧
      (∀ i < n, getNat mem ((c.reg .edi).toNat + 4 * i) 4 = (c.reg .eax).toNat) ∧
      ∀ a, a < (c.reg .edi).toNat ∨ (c.reg .edi).toNat + 4 * n ≤ a → mem a = c.mem a := by
  induction n generalizing c with
  | zero =>
    have hz : c.reg .ecx = 0 := BitVec.eq_of_toNat_eq (by simpa using hn)
    refine ⟨c.mem, single fun pc => ?_, by simp, fun a _ => rfl⟩
    have hsame : (c.set .edi (c.reg .edi + 4 * c.reg .ecx)).set .ecx 0 = c := by
      have hedi : c.reg .edi + 4 * c.reg .ecx = c.reg .edi := by simp [hz]
      rw [hedi, Cpu.set_self, ← hz, Cpu.set_self]
    rw [Instr.exec, if_pos hz, hsame]
  | succ n ih =>
    have hnz : c.reg .ecx ≠ 0 := by
      intro hz
      simp [hz] at hn
    -- one number, and then the rest of them
    let c₁ : Cpu := { (c.set .edi (c.reg .edi + 4)).set .ecx (c.reg .ecx - 1) with
      mem := setNat c.mem (c.reg .edi).toNat 4 (c.reg .eax).toNat }
    have hstep : ∀ pc, Instr.repStosl.exec pc c = some (pc, c₁) := by
      intro pc
      have hreach : c.Reaches (c.reg .edi) := ⟨hpg, by omega⟩
      rw [Instr.exec, if_neg hnz, Cpu.stosl, Cpu.write, if_pos hreach, c.stride_up hdf]
      rfl
    have hnat : (c.reg .edi + 4).toNat = ((c.reg .edi).toNat + 4) % 2 ^ 32 := BitVec.toNat_add ..
    obtain ⟨mem, hrun, hwords, hout⟩ := ih (c := c₁) hdf hpg (toNat_sub_one hn) (by
      change (c.reg .edi + 4).toNat + 4 * n ≤ 2 ^ 32
      omega)
    change ∀ i < n, getNat mem ((c.reg .edi + 4).toNat + 4 * i) 4 = (c.reg .eax).toNat at hwords
    change ∀ a, a < (c.reg .edi + 4).toNat ∨ (c.reg .edi + 4).toNat + 4 * n ≤ a → mem a = c₁.mem a at hout
    have hend : ({ (c₁.set .edi (c₁.reg .edi + 4 * c₁.reg .ecx)).set .ecx 0 with mem := mem } : Cpu) =
        { (c.set .edi (c.reg .edi + 4 * c.reg .ecx)).set .ecx 0 with mem := mem } := by
      refine congrArg (fun regs => ({ c with reg := regs, mem := mem } : Cpu)) (funext fun r => ?_)
      cases r with
      | edi => exact add_four_mul_sub_one _ _
      | _ => rfl
    refine ⟨mem, fun code pc hb => ?_, fun i hi => ?_, fun a ha => ?_⟩
    · have hrest := hrun code pc hb
      rw [hend] at hrest
      exact (hb.step (hstep pc)).trans hrest
    · cases i with
      | zero =>
        rw [getNat_congr fun j hj => hout ((c.reg .edi).toNat + 4 * 0 + j) (by omega)]
        exact getNat_setNat _ _ (BitVec.isLt _)
      | succ i =>
        have hadd : (c.reg .edi + 4).toNat + 4 * i = (c.reg .edi).toNat + 4 * (i + 1) := by omega
        rw [← hadd]
        exact hwords i (by omega)
    · rw [hout a (by omega)]
      exact setNat_outside _ _ (by omega)

/-- `rep movsl` copies memory, if what it has still to read is not where it writes. -/
theorem repMovsl (hdf : c.df = false) (hpg : c.paging = false) {n : ℕ} (hn : (c.reg .ecx).toNat = n)
    (hsrc : (c.reg .esi).toNat + 4 * n ≤ 2 ^ 32) (hdst : (c.reg .edi).toNat + 4 * n ≤ 2 ^ 32) :
    ∃ mem, Runs [.repMovsl] c { ((c.set .esi (c.reg .esi + 4 * c.reg .ecx)).set .edi
        (c.reg .edi + 4 * c.reg .ecx)).set .ecx 0 with mem := mem } ∧
      ((c.reg .edi).toNat ≤ (c.reg .esi).toNat ∨ (c.reg .esi).toNat + 4 * n ≤ (c.reg .edi).toNat →
        load mem (c.reg .edi).toNat (4 * n) = load c.mem (c.reg .esi).toNat (4 * n)) ∧
      ∀ a, a < (c.reg .edi).toNat ∨ (c.reg .edi).toNat + 4 * n ≤ a → mem a = c.mem a := by
  induction n generalizing c with
  | zero =>
    have hz : c.reg .ecx = 0 := BitVec.eq_of_toNat_eq (by simpa using hn)
    refine ⟨c.mem, single fun pc => ?_, fun _ => rfl, fun a _ => rfl⟩
    have hsame : ((c.set .esi (c.reg .esi + 4 * c.reg .ecx)).set .edi (c.reg .edi + 4 * c.reg .ecx)).set .ecx 0 = c := by
      have hesi : c.reg .esi + 4 * c.reg .ecx = c.reg .esi := by simp [hz]
      have hedi : c.reg .edi + 4 * c.reg .ecx = c.reg .edi := by simp [hz]
      rw [hesi, hedi, Cpu.set_self, Cpu.set_self, ← hz, Cpu.set_self]
    rw [Instr.exec, if_pos hz, hsame]
  | succ n ih =>
    have hnz : c.reg .ecx ≠ 0 := by
      intro hz
      simp [hz] at hn
    let c₁ : Cpu := { ((c.set .esi (c.reg .esi + 4)).set .edi (c.reg .edi + 4)).set .ecx (c.reg .ecx - 1) with
      mem := store c.mem (c.reg .edi).toNat (load c.mem (c.reg .esi).toNat 4) }
    have hstep : ∀ pc, Instr.repMovsl.exec pc c = some (pc, c₁) := by
      intro pc
      have hread : c.Reaches (c.reg .esi) := ⟨hpg, by omega⟩
      have hwrite : c.Reaches (c.reg .edi) := ⟨hpg, by omega⟩
      have hval : (BitVec.ofNat 32 (getNat c.mem (c.reg .esi).toNat 4)).toNat = getNat c.mem (c.reg .esi).toNat 4 := by
        have hlt := leNat_lt (load c.mem (c.reg .esi).toNat 4)
        rw [length_load] at hlt
        exact Nat.mod_eq_of_lt hlt
      rw [Instr.exec, if_neg hnz, Cpu.movsl, Cpu.read, if_pos hread, Option.bind_some, Cpu.write, if_pos hwrite,
        c.stride_up hdf, hval, setNat_getNat]
      rfl
    have hesi : (c.reg .esi + 4).toNat = ((c.reg .esi).toNat + 4) % 2 ^ 32 := BitVec.toNat_add ..
    have hedi : (c.reg .edi + 4).toNat = ((c.reg .edi).toNat + 4) % 2 ^ 32 := BitVec.toNat_add ..
    obtain ⟨mem, hrun, hcopy, hout⟩ := ih (c := c₁) hdf hpg (toNat_sub_one hn)
      (by change (c.reg .esi + 4).toNat + 4 * n ≤ 2 ^ 32; omega)
      (by change (c.reg .edi + 4).toNat + 4 * n ≤ 2 ^ 32; omega)
    change (c.reg .edi + 4).toNat ≤ (c.reg .esi + 4).toNat ∨ (c.reg .esi + 4).toNat + 4 * n ≤ (c.reg .edi + 4).toNat →
      load mem (c.reg .edi + 4).toNat (4 * n) = load c₁.mem (c.reg .esi + 4).toNat (4 * n) at hcopy
    change ∀ a, a < (c.reg .edi + 4).toNat ∨ (c.reg .edi + 4).toNat + 4 * n ≤ a → mem a = c₁.mem a at hout
    have hend : ({ ((c₁.set .esi (c₁.reg .esi + 4 * c₁.reg .ecx)).set .edi
          (c₁.reg .edi + 4 * c₁.reg .ecx)).set .ecx 0 with mem := mem } : Cpu) =
        { ((c.set .esi (c.reg .esi + 4 * c.reg .ecx)).set .edi
          (c.reg .edi + 4 * c.reg .ecx)).set .ecx 0 with mem := mem } := by
      refine congrArg (fun regs => ({ c with reg := regs, mem := mem } : Cpu)) (funext fun r => ?_)
      cases r with
      | esi => exact add_four_mul_sub_one _ _
      | edi => exact add_four_mul_sub_one _ _
      | _ => rfl
    refine ⟨mem, fun code pc hb => ?_, fun hapart => ?_, fun a ha => ?_⟩
    · have hrest := hrun code pc hb
      rw [hend] at hrest
      exact (hb.step (hstep pc)).trans hrest
    · have hfirst : load mem (c.reg .edi).toNat 4 = load c.mem (c.reg .esi).toNat 4 := by
        rw [load_congr fun j hj => hout ((c.reg .edi).toNat + j) (by omega)]
        have hload := load_store c.mem (c.reg .edi).toNat (load c.mem (c.reg .esi).toNat 4)
        rwa [length_load] at hload
      have hrest : load mem ((c.reg .edi).toNat + 4) (4 * n) = load c.mem ((c.reg .esi).toNat + 4) (4 * n) := by
        rcases Nat.eq_zero_or_pos n with rfl | hpos
        · rfl
        have hedi' : (c.reg .edi + 4).toNat = (c.reg .edi).toNat + 4 := by omega
        have hesi' : (c.reg .esi + 4).toNat = (c.reg .esi).toNat + 4 := by omega
        rw [hedi', hesi'] at hcopy
        rw [hcopy (by omega)]
        -- what was written is before what is read, or after it
        refine load_congr fun j hj => store_outside _ _ _ ?_
        rw [length_load]
        omega
      have hsplit : 4 * (n + 1) = 4 + 4 * n := by omega
      rw [hsplit, load_append, load_append, hfirst, hrest]
    · rw [hout a (by omega)]
      exact store_outside _ _ _ (by rw [length_load]; omega)

end Runs

end Yasouos.Theory.X86
