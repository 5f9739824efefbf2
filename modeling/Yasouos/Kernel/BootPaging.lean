import Yasouos.Theory.Paging
import Yasouos.Theory.X86

/-!
# Start-up on x86-64: the page tables

The kernel is started in one of three ways: by another loader (`amd64/boot_kernel.S`), from a CD
(`amd64/boot_iso.S`) or from a disk (`amd64/boot_disk.S`). All three come to the same code, in 32-bit
protected mode, that makes page tables for the first 4 GiB and goes to long mode.

## The model

`setUpPaging` is that code up to the control registers, `enterLongMode` is the rest of it, and
`Boot.code` is the code of each of the three files from the place on where it is 32-bit code with its
segments set, up to `lgdt gdtptr64`. In `boot_kernel.S` it comes after a copy of what the loader
passed on, and the flag for it is on the stack meanwhile. Labels are the linker's to place:
`bootInfoCopy` is an argument. The code is not in the memory of the model.

## What is proved

`started_identityMapped`: all three come to their end without a fault, in long mode, with every address
below 4 GiB mapped to itself and no other mapped, and have written nothing but the tables, one number on
the stack and the copy. `bootInfo_read`: what the loader passed on is what the kernel then reads in the
copy.
-/

namespace Yasouos.Kernel.Boot

open Yasouos.Theory
open Yasouos.Theory.Paging (Halves Rights Mapping Processor IdentityTables Fits entry field tableFlags pageFlags)
open X86

/-! ### The code -/

/-- "Set up identity paging for first 4GB". -/
def setUpPaging : List Instr :=
  [ .op (.movImm .edi 0x1000),
    .op (.toCtl .edi .cr3),
    .op (.xor .eax .eax),
    .op (.movImm .ecx 6144),          -- Clear 24KB (6144 dwords)
    .repStosl,
    .op (.fromCtl .cr3 .edi),
    .op (.storeImm 0x2003 0 .edi),    -- PML4[0] -> PDPT
    .op (.addImm 0x1000 .edi),
    .op (.storeImm 0x3003 0 .edi),    -- PDPT[0] -> PD0 (first 1GB)
    .op (.storeImm 0x4003 8 .edi),
    .op (.storeImm 0x5003 16 .edi),
    .op (.storeImm 0x6003 24 .edi),
    .op (.movImm .edi 0x3000),        -- PD0 at 0x3000
    .op (.movImm .eax 0x0083),        -- Present, R/W, 2MB page
    .op (.movImm .ecx 2048),          -- 2048 * 2MB = 4GB
    .op (.store .eax 0 .edi),         -- .fill_pd
    .op (.addImm 0x200000 .eax),      -- Next 2MB
    .op (.addImm 8 .edi),
    .loop 3 ]

/-- "Enable PAE", "Enable long mode in EFER MSR", "Enable paging". -/
def enterLongMode : List Instr :=
  [ .op (.fromCtl .cr4 .eax),
    .op (.orImm 0x20 .eax),
    .op (.toCtl .eax .cr4),
    .op (.movImm .ecx 0xC0000080),
    .op .rdmsr,
    .op (.orImm 0x100 .eax),
    .op .wrmsr,
    .op (.fromCtl .cr0 .eax),
    .op (.orImm 0x80000000 .eax),
    .op (.toCtl .eax .cr0) ]

/-- Up to `.have_boot_info`: copy what the loader passed on, if it passed something on. -/
def copyBootInfo (bootInfoCopy : BitVec 32) : List Instr :=
  [ .op .cli,
    .op (.test .ebx .ebx),
    .jz 6,
    .op (.mov .ebx .esi),             -- Source
    .op (.movImm .edi bootInfoCopy),  -- Destination
    .op (.movImm .ecx 64),            -- Copy 64 dwords (256 bytes)
    .repMovsl,
    .op (.movImm .edi 1),
    .jmp 1,
    .op (.xor .edi .edi) ]            -- .no_boot_info

/-- How the kernel is started. -/
inductive File where
  | kernel | iso | disk
  deriving DecidableEq

/-- The code of a file. -/
def File.code (bootInfoCopy : BitVec 32) : File → List Instr
  | kernel =>
    copyBootInfo bootInfoCopy ++ ([.op (.push .edi)] ++ (setUpPaging ++ ([.op (.pop .edi)] ++ enterLongMode)))
  | iso => setUpPaging ++ enterLongMode
  | disk => setUpPaging ++ enterLongMode

/-- What an address is mapped to in long mode, if physical addresses have `width` bits. -/
def translate (c : Cpu) (width : ℕ) (hw : width ≤ 52) (va : BitVec 64) : Option Mapping :=
  Paging.translate ⟨width, hw, c.nxe⟩ c.mem (c.ctl .cr3).toNat va

/-! ### What the tables come to -/

/-- The entries from `0x1000` on, when `k` of the pages have been entered. -/
def entries (k i : ℕ) : ℕ :=
  if i = 0 then 0x2003
  else if 512 ≤ i ∧ i < 516 then 0x1000 * (i - 512) + 0x3003
  else if 1024 ≤ i ∧ i < 1024 + k then 0x200000 * (i - 1024) + 0x83
  else 0

/-- The entries for tables, in zeroed memory. -/
theorem entries_zero : Function.update (Function.update (Function.update (Function.update (Function.update
    (fun _ => 0) 0 0x2003) 512 0x3003) 513 0x4003) 514 0x5003) 515 0x6003 = entries 0 := by
  funext i
  simp only [Function.update_apply, entries]
  split_ifs <;> omega

/-- One more page. -/
theorem entries_succ (k : ℕ) : Function.update (entries k) (1024 + k) (0x200000 * k + 0x83) = entries (k + 1) := by
  funext i
  simp only [Function.update_apply, entries]
  split_ifs <;> omega

/-- They map the first 4 GiB to themselves. -/
theorem identityTables {f : ℕ → UInt8} (h : Halves f 0x1000 3072 (entries 2048)) :
    IdentityTables f 0x1000 0x2000 0x3000 4 where
  first := h.entry_eq (j := 0) rfl (by omega)
  others i hpos hi := by
    rw [h.entry_eq (j := 0) rfl (by omega), entries, if_neg (by omega), if_neg (by omega), if_neg (by omega)]
  directories i hi := by
    rw [h.entry_eq (j := 512) rfl (by omega), entries, if_neg (by omega), if_pos (by omega), tableFlags]
    omega
  noMore i hpos hi := by
    rw [h.entry_eq (j := 512) rfl (by omega), entries, if_neg (by omega), if_neg (by omega), if_neg (by omega)]
  pages i hi := by
    rw [h.entry_eq (j := 1024) rfl (by omega), entries, if_neg (by omega), if_neg (by omega), if_pos (by omega), pageFlags]
    omega

/-- On every processor that has them. -/
theorem fits {width : ℕ} (h32 : 32 ≤ width) (hw : width ≤ 52) (nxe : Bool) : Fits ⟨width, hw, nxe⟩ 0x2000 0x3000 4 := by
  have hle : 2 ^ 32 ≤ 2 ^ width := Nat.pow_le_pow_right (by omega) h32
  exact ⟨rfl, rfl, by omega, by change _ ≤ 2 ^ width; omega, by change _ ≤ 2 ^ width; omega, by change _ ≤ 2 ^ width; omega⟩

/-! ### The code, step by step -/

/-- What is as it was before: everything but the general registers, the zero flag and `cr3`. -/
structure Same (c₀ c : Cpu) : Prop where
  cr0 : c.ctl .cr0 = c₀.ctl .cr0
  cr4 : c.ctl .cr4 = c₀.ctl .cr4
  efer : c.efer = c₀.efer
  df : c.df = c₀.df
  esp : c.reg .esp = c₀.reg .esp

/-- Where the processor is while the tables are made: they hold the entries `e`. -/
structure Stage (c₀ c : Cpu) (e : ℕ → ℕ) : Prop extends Same c₀ c where
  cr3 : c.ctl .cr3 = 0x1000
  halves : Halves c.mem 0x1000 3072 e
  frame : ∀ a, a < 0x1000 ∨ 0x7000 ≤ a → c.mem a = c₀.mem a

theorem Same.paging {c₀ c : Cpu} (h : Same c₀ c) : c.paging = c₀.paging := by
  rw [Cpu.paging, h.cr0, Cpu.paging]

theorem Same.trans {c₀ c c' : Cpu} (h : Same c₀ c) (h' : Same c c') : Same c₀ c' :=
  ⟨h'.cr0.trans h.cr0, h'.cr4.trans h.cr4, h'.efer.trans h.efer, h'.df.trans h.df, h'.esp.trans h.esp⟩

/-- Up to `rep stosl`. -/
def clear : List Op := [.movImm .edi 0x1000, .toCtl .edi .cr3, .xor .eax .eax, .movImm .ecx 6144]

/-- The entries for tables, and the registers for the loop. -/
def enterTables : List Op :=
  [ .fromCtl .cr3 .edi, .storeImm 0x2003 0 .edi, .addImm 0x1000 .edi, .storeImm 0x3003 0 .edi, .storeImm 0x4003 8 .edi,
    .storeImm 0x5003 16 .edi, .storeImm 0x6003 24 .edi, .movImm .edi 0x3000, .movImm .eax 0x0083, .movImm .ecx 2048 ]

/-- The loop, without its end. -/
def fillPd : List Op := [.store .eax 0 .edi, .addImm 0x200000 .eax, .addImm 8 .edi]

theorem setUpPaging_eq : setUpPaging =
    clear.map .op ++ ([.repStosl] ++ (enterTables.map .op ++ (fillPd.map .op ++ [.loop fillPd.length]))) := rfl

section Stages

variable {c₀ c : Cpu}

theorem clear_runs (hpg : c.paging = false) : ∃ c', runOps c clear = some c' ∧ Same c c' ∧ c'.ctl .cr3 = 0x1000 ∧
    c'.mem = c.mem ∧ c'.reg .edi = 0x1000 ∧ c'.reg .eax = 0 ∧ c'.reg .ecx = 6144 := by
  have hpg' : (c.ctl .cr0)[31] = false := by simpa [Cpu.paging] using hpg
  refine ⟨{ ((c.set .edi 0x1000).set .eax 0).set .ecx 6144 with zf := true, ctl := Function.update c.ctl .cr3 0x1000 },
    ?_, ⟨?_, ?_, ?_, ?_, ?_⟩, ?_, ?_, ?_, ?_, ?_⟩
  · simp [clear, Op.exec, Cpu.setCtl, Cpu.paging, Cpu.arith, Cpu.set, hpg']
  all_goals rfl

/-- Memory is zeroed where the tables will be. -/
theorem zeroed_runs (hpg : c₀.paging = false) (hdf : c₀.df = false) :
    ∃ c, Runs (clear.map .op ++ [.repStosl]) c₀ c ∧ Stage c₀ c fun _ => 0 := by
  obtain ⟨c₁, hops, hsame, hcr3, hmem, hedi, heax, hecx⟩ := clear_runs hpg
  have hedi' : (c₁.reg .edi).toNat = 0x1000 := by rw [hedi]; rfl
  have heax' : (c₁.reg .eax).toNat = 0 := by rw [heax]; rfl
  obtain ⟨mem, hrun, hwords, hout⟩ := Runs.repStosl (n := 6144) (hsame.df.trans hdf) (hsame.paging.trans hpg)
    (by rw [hecx]; rfl) (by omega)
  rw [hedi'] at hwords hout
  rw [heax'] at hwords
  rw [hmem] at hout
  refine ⟨_, (Runs.ops hops).append hrun, ⟨hsame.cr0, hsame.cr4, hsame.efer, hsame.df, hsame.esp⟩, hcr3, fun i hi => ?_,
    fun a ha => hout a (by omega)⟩
  have hlow := hwords (2 * i) (by omega)
  have hhigh := hwords (2 * i + 1) (by omega)
  have haddr : 0x1000 + 4 * (2 * i) = 0x1000 + 8 * i := by omega
  have haddr' : 0x1000 + 4 * (2 * i + 1) = 0x1000 + 8 * i + 4 := by omega
  rw [haddr] at hlow
  rw [haddr'] at hhigh
  exact ⟨hlow, hhigh⟩

theorem enterTables_runs (hpg : c.paging = false) (hcr3 : c.ctl .cr3 = 0x1000) :
    ∃ c', runOps c enterTables = some c' ∧ Same c c' ∧ c'.ctl .cr3 = 0x1000 ∧
      c'.mem = setNat (setNat (setNat (setNat (setNat c.mem 0x1000 4 0x2003) 0x2000 4 0x3003) 0x2008 4 0x4003) 0x2010 4
        0x5003) 0x2018 4 0x6003 ∧
      c'.reg .edi = 0x3000 ∧ c'.reg .eax = 0x83 ∧ c'.reg .ecx = 2048 := by
  have hpg' : (c.ctl .cr0)[31] = false := by simpa [Cpu.paging] using hpg
  refine ⟨{ ((c.set .edi 0x3000).set .eax 0x83).set .ecx 2048 with
      zf := false,
      mem := setNat (setNat (setNat (setNat (setNat c.mem 0x1000 4 0x2003) 0x2000 4 0x3003) 0x2008 4 0x4003) 0x2010 4
        0x5003) 0x2018 4 0x6003 }, ?_, ⟨rfl, rfl, rfl, rfl, rfl⟩, hcr3, rfl, rfl, rfl, rfl⟩
  simp [enterTables, Op.exec, hcr3, Cpu.write, Cpu.Reaches, Cpu.paging, Cpu.arith, Cpu.set, hpg']

/-- The entries for tables are entered. -/
theorem tables_runs (hpg : c₀.paging = false) (h : Stage c₀ c fun _ => 0) :
    ∃ c', Runs (enterTables.map .op) c c' ∧ Stage c₀ c' (entries 0) ∧
      c'.reg .edi = 0x3000 ∧ c'.reg .eax = 0x83 ∧ c'.reg .ecx = 2048 := by
  obtain ⟨c', hops, hsame, hcr3, hmem, hregs⟩ := enterTables_runs (h.paging.trans hpg) h.cr3
  have hhalves : Halves c'.mem 0x1000 3072 (entries 0) := by
    rw [hmem, ← entries_zero]
    have h0 := h.halves.set 0 (v := 0x2003) (by omega)
    have h1 := h0.set 512 (v := 0x3003) (by omega)
    have h2 := h1.set 513 (v := 0x4003) (by omega)
    have h3 := h2.set 514 (v := 0x5003) (by omega)
    exact h3.set 515 (v := 0x6003) (by omega)
  refine ⟨c', .ops hops, ⟨h.toSame.trans hsame, hcr3, hhalves, fun a ha => ?_⟩, hregs⟩
  rw [hmem, setNat_outside _ _ (by omega), setNat_outside _ _ (by omega), setNat_outside _ _ (by omega),
    setNat_outside _ _ (by omega), setNat_outside _ _ (by omega), h.frame a ha]

theorem fillPd_runs (hpg : c.paging = false) (hfit : (c.reg .edi).toNat + 4 ≤ 2 ^ 32) :
    ∃ c', runOps c fillPd = some c' ∧ Same c c' ∧ c'.ctl .cr3 = c.ctl .cr3 ∧
      c'.mem = setNat c.mem (c.reg .edi).toNat 4 (c.reg .eax).toNat ∧
      c'.reg .edi = c.reg .edi + 8 ∧ c'.reg .eax = c.reg .eax + 0x200000 ∧ c'.reg .ecx = c.reg .ecx := by
  have hpg' : (c.ctl .cr0)[31] = false := by simpa [Cpu.paging] using hpg
  have hfit' : (c.reg .edi).toNat ≤ 4294967292 := by omega
  refine ⟨{ (c.set .eax (c.reg .eax + 0x200000)).set .edi (c.reg .edi + 8) with
      zf := c.reg .edi + 8 == 0, mem := setNat c.mem (c.reg .edi).toNat 4 (c.reg .eax).toNat },
    ?_, ⟨rfl, rfl, rfl, rfl, rfl⟩, rfl, rfl, rfl, rfl, rfl⟩
  simp [fillPd, Op.exec, Cpu.write, Cpu.Reaches, Cpu.paging, Cpu.arith, Cpu.set, hpg', hfit']

/-- What holds when `n` of the pages are still to be entered. -/
structure Filling (c₀ : Cpu) (n : ℕ) (c : Cpu) : Prop where
  stage : Stage c₀ c (entries (2048 - n))
  le : n ≤ 2048
  edi : (c.reg .edi).toNat = 0x3000 + 8 * (2048 - n)
  eax : c.reg .eax = BitVec.ofNat 32 (0x200000 * (2048 - n) + 0x83)
  ecx : (c.reg .ecx).toNat = n

/-- One page is entered. -/
theorem Filling.succ {n : ℕ} (hpg : c₀.paging = false) (h : Filling c₀ (n + 1) c) :
    ∃ c', Runs (fillPd.map .op) c c' ∧ Filling c₀ n (c'.set .ecx (c'.reg .ecx - 1)) := by
  have hle := h.le
  have hedi := h.edi
  obtain ⟨c', hops, hsame, hcr3, hmem, hedi', heax', hecx'⟩ := fillPd_runs (h.stage.paging.trans hpg) (by omega)
  -- the page that is entered now is the one of this number
  obtain ⟨k, hk⟩ : ∃ k, 2048 - (n + 1) = k := ⟨_, rfl⟩
  have hk' : 2048 - n = k + 1 := by omega
  have haddr : (c.reg .edi).toNat = 0x1000 + 8 * (1024 + k) := by omega
  have hpage : (c.reg .eax).toNat = 0x200000 * k + 0x83 := by
    rw [h.eax, hk, BitVec.toNat_ofNat]
    omega
  have hstage := h.stage
  rw [hk] at hstage
  refine ⟨c', .ops hops, ?_⟩
  constructor
  case stage =>
    rw [hk', ← entries_succ]
    refine ⟨hstage.toSame.trans ⟨hsame.cr0, hsame.cr4, hsame.efer, hsame.df, hsame.esp⟩, hcr3.trans hstage.cr3, ?_,
      fun a ha => ?_⟩
    · change Halves c'.mem _ _ _
      rw [hmem, haddr, hpage]
      exact hstage.halves.set (1024 + k) (by omega)
    · change c'.mem a = _
      rw [hmem, setNat_outside _ _ (by omega), hstage.frame a ha]
  case le => omega
  case edi =>
    change (c'.reg .edi).toNat = _
    have h8 : (8 : BitVec 32).toNat = 8 := rfl
    rw [hedi', BitVec.toNat_add, haddr, hk', h8]
    omega
  case eax =>
    change c'.reg .eax = _
    rw [heax', h.eax, hk, hk']
    have hsize : (0x200000 : BitVec 32).toNat = 0x200000 := rfl
    apply BitVec.eq_of_toNat_eq
    rw [BitVec.toNat_add, BitVec.toNat_ofNat, BitVec.toNat_ofNat, hsize]
    omega
  case ecx =>
    rw [Cpu.set_reg_self, hecx']
    exact toNat_sub_one h.ecx

/-- The tables are made. -/
theorem setUpPaging_runs (hpg : c₀.paging = false) (hdf : c₀.df = false) :
    ∃ c, Runs setUpPaging c₀ c ∧ Stage c₀ c (entries 2048) := by
  obtain ⟨c₁, hclear, h₁⟩ := zeroed_runs hpg hdf
  obtain ⟨c₂, htables, h₂, hedi, heax, hecx⟩ := tables_runs hpg h₁
  have hfilling : Filling c₀ (2047 + 1) c₂ := ⟨h₂, by omega, by rw [hedi]; rfl, by rw [heax]; rfl, by rw [hecx]; rfl⟩
  obtain ⟨c₃, hfill, h₃⟩ := Runs.loop (I := Filling c₀) (fun n c h => h.ecx) (fun n c h => Filling.succ hpg h) hfilling
  rw [List.length_map] at hfill
  refine ⟨c₃, ?_, h₃.stage⟩
  rw [setUpPaging_eq, ← List.append_assoc]
  exact hclear.append (htables.append hfill)

/-! ### Long mode -/

/-- "Enable PAE". -/
def enablePae : List Op := [.fromCtl .cr4 .eax, .orImm 0x20 .eax, .toCtl .eax .cr4]

/-- "Enable long mode in EFER MSR". -/
def enableLme : List Op := [.movImm .ecx 0xC0000080, .rdmsr, .orImm 0x100 .eax, .wrmsr]

/-- "Enable paging". -/
def enablePg : List Op := [.fromCtl .cr0 .eax, .orImm 0x80000000 .eax, .toCtl .eax .cr0]

theorem enterLongMode_eq : enterLongMode =
    enablePae.map .op ++ (enableLme.map .op ++ enablePg.map .op) := rfl

theorem enablePae_runs (hpg : c.paging = false) : ∃ c', runOps c enablePae = some c' ∧ c'.pae = true ∧
    c'.ctl .cr0 = c.ctl .cr0 ∧ c'.ctl .cr3 = c.ctl .cr3 ∧ c'.efer = c.efer ∧ c'.mem = c.mem := by
  have hpg' : (c.ctl .cr0)[31] = false := by simpa [Cpu.paging] using hpg
  refine ⟨{ c.set .eax (c.ctl .cr4 ||| 0x20) with
      zf := c.ctl .cr4 ||| 0x20 == 0, ctl := Function.update c.ctl .cr4 (c.ctl .cr4 ||| 0x20) }, ?_, ?_, rfl, rfl, rfl, rfl⟩
  · simp [enablePae, Op.exec, Cpu.setCtl, Cpu.paging, Cpu.arith, Cpu.set, hpg']
  · simp [Cpu.pae]

/-- What is written to `EFER`, as the halves it is made of. -/
def eferWritten (efer : BitVec 64) : BitVec 64 :=
  ((efer >>> 32).setWidth 32 ++ (efer.setWidth 32 ||| 0x100#32)) &&& ~~~0x400#64 ||| efer &&& 0x400#64

theorem enableLme_runs (hpg : c.paging = false) : ∃ c', runOps c enableLme = some c' ∧ c'.efer = eferWritten c.efer ∧
    c'.ctl = c.ctl ∧ c'.mem = c.mem := by
  have hpg' : (c.ctl .cr0)[31] = false := by simpa [Cpu.paging] using hpg
  refine ⟨{ (((c.set .ecx 0xC0000080).set .eax (c.efer.setWidth 32)).set .edx ((c.efer >>> 32).setWidth 32)).set .eax
      (c.efer.setWidth 32 ||| 0x100) with
      zf := c.efer.setWidth 32 ||| 0x100 == 0, efer := eferWritten c.efer }, ?_, rfl, rfl, rfl⟩
  simp [enableLme, Op.exec, Cpu.arith, Cpu.set, Cpu.eferNumber, Cpu.paging, hpg', eferWritten]

/-- Long mode is asked for. -/
theorem getLsbD_eferWritten_lme (efer : BitVec 64) : (eferWritten efer).getLsbD 8 = true := by
  rw [eferWritten, BitVec.getLsbD_or, BitVec.getLsbD_and, BitVec.getLsbD_append]
  simp

/-- The bit for execution is as it was. -/
theorem getLsbD_eferWritten_nxe (efer : BitVec 64) : (eferWritten efer).getLsbD 11 = efer.getLsbD 11 := by
  rw [eferWritten, BitVec.getLsbD_or, BitVec.getLsbD_and, BitVec.getLsbD_append]
  simp

theorem enablePg_runs (hpe : c.protectedMode = true) (hpg : c.paging = false) (hpae : c.pae = true) (hlme : c.lme = true) :
    ∃ c', runOps c enablePg = some c' ∧ c'.paging = true ∧ c'.efer = c.efer ||| 0x400 ∧ c'.ctl .cr3 = c.ctl .cr3 ∧
      c'.mem = c.mem := by
  have hpg' : (c.ctl .cr0)[31] = false := by simpa [Cpu.paging] using hpg
  have hpe' : (c.ctl .cr0)[0] = true := by simpa [Cpu.protectedMode] using hpe
  refine ⟨{ c.set .eax (c.ctl .cr0 ||| 0x80000000) with
      zf := c.ctl .cr0 ||| 0x80000000 == 0, ctl := Function.update c.ctl .cr0 (c.ctl .cr0 ||| 0x80000000),
      efer := c.efer ||| 0x400 }, ?_, ?_, rfl, rfl, rfl⟩
  · simp [enablePg, Op.exec, Cpu.setCtl, Cpu.arith, Cpu.set, Cpu.paging, Cpu.protectedMode, hpg', hpe']
    exact ⟨fun _ => hpae, fun h => absurd (hlme.symm.trans h) (by simp)⟩
  · simp [Cpu.paging]

/-- The processor goes to long mode. -/
theorem enterLongMode_runs (hpe : c.protectedMode = true) (hpg : c.paging = false) :
    ∃ c', Runs enterLongMode c c' ∧ c'.paging = true ∧ c'.longMode = true ∧ c'.nxe = c.nxe ∧
      c'.ctl .cr3 = c.ctl .cr3 ∧ c'.mem = c.mem := by
  obtain ⟨c₁, h₁, hpae, hcr0, hcr3, hefer, hmem⟩ := enablePae_runs hpg
  have hpg₁ : c₁.paging = false := by rw [Cpu.paging, hcr0]; exact hpg
  obtain ⟨c₂, h₂, hefer₂, hctl₂, hmem₂⟩ := enableLme_runs hpg₁
  have hpe₂ : c₂.protectedMode = true := by rw [Cpu.protectedMode, hctl₂, hcr0]; exact hpe
  have hpg₂ : c₂.paging = false := by rw [Cpu.paging, hctl₂]; exact hpg₁
  have hpae₂ : c₂.pae = true := by rw [Cpu.pae, hctl₂]; exact hpae
  have hlme₂ : c₂.lme = true := by rw [Cpu.lme, hefer₂]; exact getLsbD_eferWritten_lme _
  obtain ⟨c₃, h₃, hpg₃, hefer₃, hcr3₃, hmem₃⟩ := enablePg_runs hpe₂ hpg₂ hpae₂ hlme₂
  refine ⟨c₃, ?_, hpg₃, ?_, ?_, ?_, ?_⟩
  · rw [enterLongMode_eq]
    exact (Runs.ops h₁).append ((Runs.ops h₂).append (Runs.ops h₃))
  · simp [Cpu.longMode, hefer₃]
  · have hnxe := getLsbD_eferWritten_nxe c₁.efer
    rw [hefer] at hnxe
    rw [Cpu.nxe, Cpu.nxe, hefer₃, hefer₂, hefer, BitVec.getLsbD_or, hnxe]
    simp
  · rw [hcr3₃, hctl₂, hcr3]
  · rw [hmem₃, hmem₂, hmem]

end Stages

/-! ### The whole code -/

/-- What a loader must leave behind: protected mode without paging, string instructions that go up and, for
`boot_kernel.S`, a place for one number on the stack and 256 bytes at what `ebx` points to and at the copy. -/
structure Loaded (bootInfoCopy : BitVec 32) (b : File) (c : Cpu) : Prop where
  protectedMode : c.protectedMode = true
  paging : c.paging = false
  df : c.df = false
  stack : b = .kernel → (c.reg .esp - 4).toNat + 4 ≤ 2 ^ 32
  info : b = .kernel → c.reg .ebx ≠ 0 → (c.reg .ebx).toNat + 256 ≤ 2 ^ 32
  copy : b = .kernel → c.reg .ebx ≠ 0 → bootInfoCopy.toNat + 256 ≤ 2 ^ 32

/-- The bytes that the code of a file may write. -/
def Writes (bootInfoCopy : BitVec 32) (b : File) (c : Cpu) (a : ℕ) : Prop :=
  0x1000 ≤ a ∧ a < 0x7000 ∨
    b = .kernel ∧ ((c.reg .esp - 4).toNat ≤ a ∧ a < (c.reg .esp - 4).toNat + 4 ∨
      c.reg .ebx ≠ 0 ∧ bootInfoCopy.toNat ≤ a ∧ a < bootInfoCopy.toNat + 256)

/-- The branch of `copyBootInfo` with something to copy. -/
def copyBranch (bootInfoCopy : BitVec 32) : List Instr :=
  [Op.mov .ebx .esi, .movImm .edi bootInfoCopy, .movImm .ecx 64].map .op ++ ([.repMovsl] ++ [.op (.movImm .edi 1)])

theorem copyBootInfo_eq (bootInfoCopy : BitVec 32) : copyBootInfo bootInfoCopy =
    [Op.cli, .test .ebx .ebx].map .op ++ (.jz ((copyBranch bootInfoCopy).length + 1) ::
      (copyBranch bootInfoCopy ++ .jmp [Instr.op (.xor .edi .edi)].length :: [Instr.op (.xor .edi .edi)])) := rfl

section Code

variable {c : Cpu} {bootInfoCopy : BitVec 32}

/-- The copy is made. -/
theorem copyBranch_runs (hpg : c.paging = false) (hdf : c.df = false) (hinfo : (c.reg .ebx).toNat + 256 ≤ 2 ^ 32)
    (hcopy : bootInfoCopy.toNat + 256 ≤ 2 ^ 32) :
    ∃ c', Runs (copyBranch bootInfoCopy) c c' ∧ Same c c' ∧
      (bootInfoCopy.toNat ≤ (c.reg .ebx).toNat ∨ (c.reg .ebx).toNat + 256 ≤ bootInfoCopy.toNat →
        load c'.mem bootInfoCopy.toNat 256 = load c.mem (c.reg .ebx).toNat 256) ∧
      ∀ a, a < bootInfoCopy.toNat ∨ bootInfoCopy.toNat + 256 ≤ a → c'.mem a = c.mem a := by
  obtain ⟨c₁, hc₁⟩ : ∃ c₁, c₁ = ((c.set .esi (c.reg .ebx)).set .edi bootInfoCopy).set .ecx 64 := ⟨_, rfl⟩
  have hops : runOps c [.mov .ebx .esi, .movImm .edi bootInfoCopy, .movImm .ecx 64] = some c₁ := by
    simp [Op.exec, hc₁, Cpu.set]
  have hesi : c₁.reg .esi = c.reg .ebx := by rw [hc₁]; rfl
  have hedi : c₁.reg .edi = bootInfoCopy := by rw [hc₁]; rfl
  have hecx : (c₁.reg .ecx).toNat = 64 := by rw [hc₁]; rfl
  have hmem : c₁.mem = c.mem := by rw [hc₁]; rfl
  have hsame : Same c c₁ := by rw [hc₁]; exact ⟨rfl, rfl, rfl, rfl, rfl⟩
  obtain ⟨mem, hrun, hload, hout⟩ := Runs.repMovsl (hsame.df.trans hdf) (hsame.paging.trans hpg) hecx
    (by rw [hesi]; exact hinfo) (by rw [hedi]; exact hcopy)
  rw [hesi, hedi, hmem] at hload
  rw [hedi, hmem] at hout
  have hflag := Runs.op (o := .movImm .edi 1) (c := { ((c₁.set .esi (c₁.reg .esi + 4 * c₁.reg .ecx)).set .edi
    (c₁.reg .edi + 4 * c₁.reg .ecx)).set .ecx 0 with mem := mem }) rfl
  exact ⟨_, (Runs.ops hops).append (hrun.append hflag), ⟨hsame.cr0, hsame.cr4, hsame.efer, hsame.df, hsame.esp⟩,
    hload, hout⟩

/-- What is on the stack meanwhile is the flag, and nothing else changes. -/
theorem copyBootInfo_runs (hl : Loaded bootInfoCopy .kernel c) :
    ∃ c', Runs (copyBootInfo bootInfoCopy) c c' ∧ Same c c' ∧
      (c.reg .ebx ≠ 0 → bootInfoCopy.toNat ≤ (c.reg .ebx).toNat ∨ (c.reg .ebx).toNat + 256 ≤ bootInfoCopy.toNat →
        load c'.mem bootInfoCopy.toNat 256 = load c.mem (c.reg .ebx).toNat 256) ∧
      ∀ a, (c.reg .ebx ≠ 0 → a < bootInfoCopy.toNat ∨ bootInfoCopy.toNat + 256 ≤ a) → c'.mem a = c.mem a := by
  obtain ⟨c₁, hc₁⟩ : ∃ c₁, c₁ = { c with zf := c.reg .ebx == 0 } := ⟨_, rfl⟩
  have hops : runOps c [.cli, .test .ebx .ebx] = some c₁ := by
    simp [Op.exec, hc₁]
  by_cases hz : c.reg .ebx = 0
  · obtain ⟨c₂, hc₂⟩ : ∃ c₂, c₂ = c₁.arith .edi (c₁.reg .edi ^^^ c₁.reg .edi) := ⟨_, rfl⟩
    have hzero : Runs [Instr.op (.xor .edi .edi)] c₁ c₂ := Runs.op (by rw [hc₂]; rfl)
    refine ⟨c₂, ?_, ?_, fun h => absurd hz h, fun a _ => ?_⟩
    · rw [copyBootInfo_eq]
      refine (Runs.ops hops).append (Runs.ifElse (fun hzf => ?_) fun _ => hzero)
      simp [hc₁, hz] at hzf
    · rw [hc₂, hc₁]
      exact ⟨rfl, rfl, rfl, rfl, rfl⟩
    · rw [hc₂, hc₁]
      rfl
  · have hcpu : c₁.paging = false ∧ c₁.df = false ∧ c₁.reg = c.reg ∧ c₁.mem = c.mem := by
      rw [hc₁]
      exact ⟨hl.paging, hl.df, rfl, rfl⟩
    obtain ⟨hpg, hdf, hreg, hmem⟩ := hcpu
    obtain ⟨c₂, hrun, hsame, hload, hout⟩ := copyBranch_runs (c := c₁) hpg hdf
      (by rw [hreg]; exact hl.info rfl hz) (hl.copy rfl hz)
    rw [hreg, hmem] at hload
    rw [hmem] at hout
    refine ⟨c₂, ?_, ?_, fun _ => hload, fun a ha => hout a (ha hz)⟩
    · rw [copyBootInfo_eq]
      refine (Runs.ops hops).append (Runs.ifElse (fun _ => hrun) fun hzf => ?_)
      exact absurd (by simpa [hc₁] using hzf) hz
    · exact Same.trans (by rw [hc₁]; exact ⟨rfl, rfl, rfl, rfl, rfl⟩) hsame

/-- The flag goes on the stack. -/
theorem push_runs (hpg : c.paging = false) (hstack : (c.reg .esp - 4).toNat + 4 ≤ 2 ^ 32) :
    ∃ c', Runs [.op (.push .edi)] c c' ∧ c'.ctl = c.ctl ∧ c'.efer = c.efer ∧ c'.df = c.df ∧
      c'.reg .esp = c.reg .esp - 4 ∧
      ∀ a, a < (c.reg .esp - 4).toNat ∨ (c.reg .esp - 4).toNat + 4 ≤ a → c'.mem a = c.mem a := by
  have hpush : (Op.push .edi).exec c =
      some ({ c with mem := setNat c.mem (c.reg .esp - 4).toNat 4 (c.reg .edi).toNat }.set .esp (c.reg .esp - 4)) := by
    rw [Op.exec, Cpu.write, if_pos ⟨hpg, hstack⟩]
    rfl
  exact ⟨_, .op hpush, rfl, rfl, rfl, rfl, fun a ha => setNat_outside _ _ ha⟩

/-- What is there comes off the stack. -/
theorem pop_runs (hpg : c.paging = false) (hstack : (c.reg .esp).toNat + 4 ≤ 2 ^ 32) :
    ∃ c', Runs [.op (.pop .edi)] c c' ∧ c'.ctl = c.ctl ∧ c'.efer = c.efer ∧ c'.mem = c.mem := by
  obtain ⟨v, hv⟩ : ∃ v, c.read (c.reg .esp) = some v := ⟨_, if_pos ⟨hpg, hstack⟩⟩
  have hpop : (Op.pop .edi).exec c = some ((c.set .esp (c.reg .esp + 4)).set .edi v) := by
    rw [Op.exec, hv]
    rfl
  exact ⟨_, .op hpop, rfl, rfl, rfl⟩

/-- Where the code ends: in long mode, and the tables are in memory. -/
structure LongMode (c : Cpu) : Prop where
  paging : c.paging = true
  longMode : c.longMode = true
  cr3 : c.ctl .cr3 = 0x1000
  halves : Halves c.mem 0x1000 3072 (entries 2048)

/-- The code of `boot_iso.S` and of `boot_disk.S`. -/
theorem tables_longMode (hpe : c.protectedMode = true) (hpg : c.paging = false) (hdf : c.df = false) :
    ∃ c', Runs (setUpPaging ++ enterLongMode) c c' ∧ LongMode c' ∧
      ∀ a, a < 0x1000 ∨ 0x7000 ≤ a → c'.mem a = c.mem a := by
  obtain ⟨c₁, hrun₁, h₁⟩ := setUpPaging_runs hpg hdf
  have hpe₁ : c₁.protectedMode = true := by rw [Cpu.protectedMode, h₁.cr0]; exact hpe
  obtain ⟨c₂, hrun₂, hpg₂, hlong, -, hcr3, hmem⟩ := enterLongMode_runs hpe₁ (h₁.paging.trans hpg)
  exact ⟨c₂, hrun₁.append hrun₂, ⟨hpg₂, hlong, hcr3.trans h₁.cr3, by rw [hmem]; exact h₁.halves⟩,
    by rw [hmem]; exact h₁.frame⟩

/-- The code of `boot_kernel.S`. The copy is made before anything is written over. -/
theorem kernel_longMode (hl : Loaded bootInfoCopy .kernel c) :
    ∃ c', Runs (File.kernel.code bootInfoCopy) c c' ∧ LongMode c' ∧
      (∀ a, ¬ Writes bootInfoCopy .kernel c a → c'.mem a = c.mem a) ∧
      ∃ m : ℕ → UInt8, (c.reg .ebx ≠ 0 →
          bootInfoCopy.toNat ≤ (c.reg .ebx).toNat ∨ (c.reg .ebx).toNat + 256 ≤ bootInfoCopy.toNat →
          load m bootInfoCopy.toNat 256 = load c.mem (c.reg .ebx).toNat 256) ∧
        ∀ a, (a < 0x1000 ∨ 0x7000 ≤ a) → (a < (c.reg .esp - 4).toNat ∨ (c.reg .esp - 4).toNat + 4 ≤ a) →
          c'.mem a = m a := by
  obtain ⟨c₁, hrun₁, h₁, hload, hout₁⟩ := copyBootInfo_runs hl
  have hpg₁ : c₁.paging = false := h₁.paging.trans hl.paging
  have hstack : (c₁.reg .esp - 4).toNat + 4 ≤ 2 ^ 32 := by rw [h₁.esp]; exact hl.stack rfl
  obtain ⟨c₂, hrun₂, hctl₂, hefer₂, hdf₂, hesp₂, hout₂⟩ := push_runs hpg₁ hstack
  have hpg₂ : c₂.paging = false := by rw [Cpu.paging, hctl₂]; exact hpg₁
  obtain ⟨c₃, hrun₃, h₃⟩ := setUpPaging_runs hpg₂ (hdf₂.trans (h₁.df.trans hl.df))
  have hpg₃ : c₃.paging = false := h₃.paging.trans hpg₂
  obtain ⟨c₄, hrun₄, hctl₄, hefer₄, hmem₄⟩ := pop_runs hpg₃ (by rw [h₃.esp, hesp₂]; exact hstack)
  have hpg₄ : c₄.paging = false := by rw [Cpu.paging, hctl₄]; exact hpg₃
  have hpe₄ : c₄.protectedMode = true := by
    rw [Cpu.protectedMode, hctl₄, h₃.cr0, hctl₂, h₁.cr0]
    exact hl.protectedMode
  obtain ⟨c₅, hrun₅, hpg₅, hlong₅, -, hcr3₅, hmem₅⟩ := enterLongMode_runs hpe₄ hpg₄
  rw [h₁.esp] at hout₂
  have hsame : ∀ a, (a < 0x1000 ∨ 0x7000 ≤ a) → (a < (c.reg .esp - 4).toNat ∨ (c.reg .esp - 4).toNat + 4 ≤ a) →
      c₅.mem a = c₁.mem a := by
    intro a ha hs
    rw [hmem₅, hmem₄, h₃.frame a ha, hout₂ a hs]
  refine ⟨c₅, hrun₁.append (hrun₂.append (hrun₃.append (hrun₄.append hrun₅))), ⟨hpg₅, hlong₅, ?_, ?_⟩, fun a ha => ?_,
    c₁.mem, hload, hsame⟩
  · rw [hcr3₅, hctl₄, h₃.cr3]
  · rw [hmem₅, hmem₄]
    exact h₃.halves
  · simp only [Writes, true_and, not_or, not_and, not_lt] at ha
    obtain ⟨htables, hslot, hcopy⟩ := ha
    rw [hsame a (by omega) (by omega)]
    refine hout₁ a fun hz => ?_
    have hup := hcopy hz
    omega

/-- What the tables mean. -/
theorem LongMode.translate_eq (h : LongMode c) {width : ℕ} (h32 : 32 ≤ width) (hw : width ≤ 52) (va : BitVec 64) :
    translate c width hw va = if va.toNat < 2 ^ 32 then some ⟨⟨true, false, true⟩, va.toNat⟩ else none := by
  have hcr3 : field (c.ctl .cr3).toNat 12 52 = 0x1000 := by rw [h.cr3]; rfl
  exact (identityTables h.halves).translate_eq (fits h32 hw _) hcr3 va

end Code

/-- However the kernel is started, the code comes to its end, in long mode. Every address below 4 GiB is then mapped to
itself, for the kernel to read, write and execute, and no other address is mapped. Of memory, only the tables, one number
on the stack and the copy have been written. -/
theorem started_identityMapped (b : File) (bootInfoCopy : BitVec 32) (c : Cpu) (hl : Loaded bootInfoCopy b c) :
    ∃ c', Steps (b.code bootInfoCopy) (0, c) ((b.code bootInfoCopy).length, c') ∧
      c'.paging = true ∧ c'.longMode = true ∧
      (∀ width, 32 ≤ width → ∀ hw va, translate c' width hw va =
        if va.toNat < 2 ^ 32 then some ⟨⟨true, false, true⟩, va.toNat⟩ else none) ∧
      ∀ a, ¬ Writes bootInfoCopy b c a → c'.mem a = c.mem a := by
  cases b with
  | kernel =>
    obtain ⟨c', hrun, hlong, hframe, -⟩ := kernel_longMode hl
    exact ⟨c', hrun.steps, hlong.paging, hlong.longMode, fun width h32 hw va => hlong.translate_eq h32 hw va, hframe⟩
  | iso | disk =>
    obtain ⟨c', hrun, hlong, hframe⟩ := tables_longMode hl.protectedMode hl.paging hl.df
    refine ⟨c', hrun.steps, hlong.paging, hlong.longMode, fun width h32 hw va => hlong.translate_eq h32 hw va,
      fun a ha => hframe a ?_⟩
    simp only [Writes] at ha
    omega

/-- A loader that starts `boot_kernel.S` with something at `0x2000`, where one of the tables will be. -/
def handedOver : Cpu where
  reg
    | .ebx => 0x2000
    | .esp => 0x80000
    | _ => 0
  ctl
    | .cr0 => 1
    | _ => 0
  efer := 0
  zf := false
  df := false
  mem a := UInt8.ofNat a

theorem loaded_handedOver : Loaded 0x100000 .kernel handedOver where
  protectedMode := by decide
  paging := by decide
  df := rfl
  stack _ := by decide
  info _ _ := by decide
  copy _ _ := by decide

theorem started_identityMapped_handedOver : ∃ c',
    Steps (File.kernel.code 0x100000) (0, handedOver) ((File.kernel.code 0x100000).length, c') ∧
      c'.paging = true ∧ c'.longMode = true ∧
      (∀ width, 32 ≤ width → ∀ hw va, translate c' width hw va =
        if va.toNat < 2 ^ 32 then some ⟨⟨true, false, true⟩, va.toNat⟩ else none) ∧
      ∀ a, ¬ Writes 0x100000 .kernel handedOver a → c'.mem a = UInt8.ofNat a :=
  started_identityMapped .kernel 0x100000 handedOver loaded_handedOver

/-- What a loader passed on to `boot_kernel.S` is what the kernel reads at `boot_info_copy`, even if it was where the
tables are now: by the addresses of long mode, and on every processor that has it. -/
theorem bootInfo_read (bootInfoCopy : BitVec 32) (c : Cpu) (hl : Loaded bootInfoCopy .kernel c) (hz : c.reg .ebx ≠ 0)
    (hsrc : bootInfoCopy.toNat ≤ (c.reg .ebx).toNat ∨ (c.reg .ebx).toNat + 256 ≤ bootInfoCopy.toNat)
    (htables : bootInfoCopy.toNat + 256 ≤ 0x1000 ∨ 0x7000 ≤ bootInfoCopy.toNat)
    (hstack : bootInfoCopy.toNat + 256 ≤ (c.reg .esp - 4).toNat ∨ (c.reg .esp - 4).toNat + 4 ≤ bootInfoCopy.toNat) :
    ∃ c', Steps (File.kernel.code bootInfoCopy) (0, c) ((File.kernel.code bootInfoCopy).length, c') ∧
      ∀ width, 32 ≤ width → ∀ hw, ∀ i < 256,
        (translate c' width hw (BitVec.ofNat 64 (bootInfoCopy.toNat + i))).map (fun m => c'.mem m.addr) =
          some (c.mem ((c.reg .ebx).toNat + i)) := by
  obtain ⟨c', hrun, hlong, -, m, hload, hsame⟩ := kernel_longMode hl
  refine ⟨c', hrun.steps, fun width h32 hw i hi => ?_⟩
  have hcopy := hl.copy rfl hz
  have haddr : (BitVec.ofNat 64 (bootInfoCopy.toNat + i)).toNat = bootInfoCopy.toNat + i :=
    Nat.mod_eq_of_lt (by omega)
  have hbyte : c'.mem (bootInfoCopy.toNat + i) = c.mem ((c.reg .ebx).toNat + i) :=
    (hsame _ (by omega) (by omega)).trans (eq_of_load_eq (hload hz hsrc) hi)
  rw [hlong.translate_eq h32 hw, haddr, if_pos (by omega), Option.map_some]
  exact congrArg some hbyte

theorem bootInfo_read_handedOver : ∃ c',
    Steps (File.kernel.code 0x100000) (0, handedOver) ((File.kernel.code 0x100000).length, c') ∧
      ∀ width, 32 ≤ width → ∀ hw, ∀ i < 256,
        (translate c' width hw (BitVec.ofNat 64 (0x100000 + i))).map (fun m => c'.mem m.addr) =
          some (UInt8.ofNat (0x2000 + i)) :=
  bootInfo_read 0x100000 handedOver loaded_handedOver (by decide) (.inr (by decide)) (.inr (by decide))
    (.inr (by decide))

end Yasouos.Kernel.Boot
