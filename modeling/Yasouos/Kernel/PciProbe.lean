import Yasouos.Kernel.PciConfig

/-!
# The probing of a BAR

`pci_probe_bar_size` is written three times, in `devices_amd64.c`, `devices_arm64.c` and
`devices_riscv.c`: it writes ones to a base address register, reads back which of them stayed, and
puts back what was there.

## The model

`Layout` says which bits of a register can be written and what the others read as. It has what
`BarKind` leaves out: an I/O BAR may decode only sixteen bits of an address, and then the upper half
of the register is zero.

The source reaches a register in two ways. Memory-mapped, it has an address of its own; with ports,
its address goes to one port and its value through another. `Bridge` says which register an address
selects, and nothing is assumed of it: `Copy.place` is the register that a copy probes. The function
is the same in all three files but for its accesses, which `probeBarSize` takes as arguments.

## What is proved

Every copy finds `Layout.found` and leaves all registers as they were (`Copy.pciProbeBarSize_found`).
That is the size if and only if the register reads as a mask of 32 bits (`pciProbeBarSize_iff`): of
an I/O BAR that decodes sixteen bits, the upper half of the complement is never cleared.
-/

namespace Yasouos.Kernel.Pci.Probe

open Yasouos.Theory

/-! ### Registers -/

/-- The bits from `k` on, below `top`. -/
def bits (k top : ℕ) : UInt32 := lowMask top &&& ~~~lowMask k

/-- Which bits of a base address register can be written, and what the others read as. -/
inductive Layout where
  /-- `2 ^ k` bytes of memory; `type` are the low four bits. -/
  | memory (k : ℕ) (hk : 4 ≤ k ∧ k < 32) (type : UInt32) (htype : type.toNat < 16 ∧ type.toNat % 2 = 0)
  /-- `2 ^ k` I/O ports, of as many as `top` bits can tell apart; `type` are the low two bits. -/
  | io (k top : ℕ) (htop : top = 16 ∨ top = 32) (hk : 2 ≤ k ∧ k < top) (type : UInt32)
    (htype : type.toNat < 4 ∧ type.toNat % 2 = 1)
  /-- Nothing. -/
  | unimplemented

/-- The bits that can be written. -/
def Layout.writable : Layout → UInt32
  | memory k _ _ _ => bits k 32
  | io k top _ _ _ _ => bits k top
  | unimplemented => 0

/-- The bits that are always set. -/
def Layout.fixed : Layout → UInt32
  | memory _ _ type _ => type
  | io _ _ _ _ type _ => type
  | unimplemented => 0

/-- What a register holds after a write. -/
def Layout.latch (l : Layout) (value : UInt32) : UInt32 := (value &&& l.writable) ||| l.fixed

/-- The size of what is behind the register. -/
def Layout.size : Layout → ℕ
  | memory k _ _ _ => 2 ^ k
  | io k _ _ _ _ _ => 2 ^ k
  | unimplemented => 0

theorem Layout.latch_latch (l : Layout) (value : UInt32) : l.latch (l.latch value) = l.latch value := by
  rw [UInt32.eq_iff_toBitVec_eq]
  apply BitVec.eq_of_getLsbD_eq
  intro i _
  simp only [Layout.latch, UInt32.toBitVec_or, UInt32.toBitVec_and, BitVec.getLsbD_or, BitVec.getLsbD_and]
  grind

/-- A base address register. -/
structure Register where
  layout : Layout
  /-- What is in it. -/
  value : UInt32
  /-- It can hold that. -/
  legal : layout.latch value = value

/-- Write to the register. -/
def Register.write (r : Register) (value : UInt32) : Register := ⟨r.layout, r.layout.latch value, r.layout.latch_latch _⟩

@[simp] theorem Register.write_value (r : Register) (value : UInt32) : (r.write value).value = r.layout.latch value := rfl

@[simp] theorem Register.write_layout (r : Register) (value : UInt32) : (r.write value).layout = r.layout := rfl

/-- What was in the register is restored by writing it back. -/
@[simp] theorem Register.write_write_value (r : Register) (value : UInt32) : (r.write value).write r.value = r := by
  cases r with
  | mk layout v legal => simp [Register.write, legal]

/-! ### Accesses -/

/-- Which register is behind an address. -/
structure Bridge (Key : Type) where
  /-- What `PCI_CONFIG_ADDRESS_PORT` selects. -/
  port : UInt32 → Key
  /-- What is mapped to memory. -/
  ecam : UInt64 → Key

/-- The registers, and what is in `PCI_CONFIG_ADDRESS_PORT`. -/
structure Machine (Key : Type) where
  bar : Key → Register
  configAddress : UInt32

/-- `bus`, `device` and `function`. -/
structure Bdf where
  bus : UInt8
  device : UInt8
  function : UInt8

section Accesses

variable {Key : Type} [DecidableEq Key]

/-- Write to a register. -/
def Machine.store (m : Machine Key) (key : Key) (value : UInt32) : Machine Key :=
  { m with bar := Function.update m.bar key ((m.bar key).write value) }

@[simp] theorem Machine.bar_store (m : Machine Key) (key : Key) (value : UInt32) :
    (m.store key value).bar = Function.update m.bar key ((m.bar key).write value) := rfl

/-- `pcie_ecam_address`, from `PCIE_ECAM_BASE`. -/
def pcieEcamAddress (base : UInt64) (f : Bdf) (offset : UInt16) : UInt64 :=
  base ||| (f.bus.toUInt64 <<< 20) ||| (f.device.toUInt64 <<< 15) ||| (f.function.toUInt64 <<< 12) |||
    (offset &&& 0xFFC).toUInt64

/-- `pcie_ecam_read32`. -/
def pcieEcamRead32 (bridge : Bridge Key) (base : UInt64) (f : Bdf) (offset : UInt16) (m : Machine Key) :
    Machine Key × UInt32 :=
  (m, (m.bar (bridge.ecam (pcieEcamAddress base f offset))).value)

/-- `pcie_ecam_write32`. -/
def pcieEcamWrite32 (bridge : Bridge Key) (base : UInt64) (f : Bdf) (offset : UInt16) (value : UInt32)
    (m : Machine Key) : Machine Key :=
  m.store (bridge.ecam (pcieEcamAddress base f offset)) value

/-- `pci_make_address`. -/
def pciMakeAddress (f : Bdf) (offset : UInt8) : UInt32 :=
  (0x80000000 : UInt32) ||| (f.bus.toUInt32 <<< 16) ||| (f.device.toUInt32 <<< 11) ||| (f.function.toUInt32 <<< 8) |||
    (offset &&& 0xFC).toUInt32

/-- `io_outl` to `PCI_CONFIG_ADDRESS_PORT`. -/
def outAddress (value : UInt32) (m : Machine Key) : Machine Key := { m with configAddress := value }

/-- `io_outl` to `PCI_CONFIG_DATA_PORT`. -/
def outData (bridge : Bridge Key) (value : UInt32) (m : Machine Key) : Machine Key :=
  m.store (bridge.port m.configAddress) value

/-- `io_inl` from `PCI_CONFIG_DATA_PORT`. -/
def inData (bridge : Bridge Key) (m : Machine Key) : UInt32 := (m.bar (bridge.port m.configAddress)).value

/-- `pci_io_read32`. -/
def pciIoRead32 (bridge : Bridge Key) (f : Bdf) (offset : UInt8) (m : Machine Key) : Machine Key × UInt32 :=
  let m := outAddress (pciMakeAddress f offset) m
  (m, inData bridge m)

/-- `pci_io_write32`. -/
def pciIoWrite32 (bridge : Bridge Key) (f : Bdf) (offset : UInt8) (value : UInt32) (m : Machine Key) : Machine Key :=
  let m := outAddress (pciMakeAddress f offset) m
  outData bridge value m

/-- `PCIE_ECAM_BASE` of `devices_amd64.c`. -/
abbrev amd64EcamBase : UInt64 := 0xB0000000

/-- `PCIE_ECAM_BASE` of `devices_arm64.c`. -/
abbrev arm64EcamBase : UInt64 := 0x4010000000

/-- `PCIE_ECAM_BASE` of `devices_riscv.c`. -/
abbrev riscvEcamBase : UInt64 := 0x30000000

/-- `pci_config_read32`. -/
def pciConfigRead32 (bridge : Bridge Key) (useEcam : Bool) (f : Bdf) (offset : UInt16) (m : Machine Key) :
    Machine Key × UInt32 :=
  if useEcam then pcieEcamRead32 bridge amd64EcamBase f offset m
  else pciIoRead32 bridge f offset.toUInt8 m

/-- `pci_config_write32`. -/
def pciConfigWrite32 (bridge : Bridge Key) (useEcam : Bool) (f : Bdf) (offset : UInt16) (value : UInt32)
    (m : Machine Key) : Machine Key :=
  if useEcam then pcieEcamWrite32 bridge amd64EcamBase f offset value m
  else pciIoWrite32 bridge f offset.toUInt8 value m

end Accesses

/-! ### Probing -/

/-- What the three functions do, with whatever they read and write a register. -/
def probeBarSize {M : Type} (read32 : M → M × UInt32) (write32 : UInt32 → M → M) (m : M) : M × UInt64 :=
  let (m, originalBar) := read32 m
  let m := write32 0xFFFFFFFF m
  let (m, sizeMask) := read32 m
  let m := write32 originalBar m
  (m, barSize originalBar sizeMask)

/-- The scans probe in the same way. -/
theorem pciProbeBarSize_eq (p : Place) (c : Config) :
    Pci.pciProbeBarSize p c = probeBarSize (fun c => (c, c.read32 p)) (fun value c => c.write32 p value) c := by
  simp only [Pci.pciProbeBarSize, probeBarSize, barSize]
  split_ifs <;> rfl

section Copies

variable {Key : Type} [DecidableEq Key] (bridge : Bridge Key)

/-- `pci_probe_bar_size` of `devices_amd64.c`. -/
def amd64ProbeBarSize (useEcam : Bool) (f : Bdf) (barOffset : UInt8) : Machine Key → Machine Key × UInt64 :=
  probeBarSize (pciConfigRead32 bridge useEcam f barOffset.toUInt16)
    (pciConfigWrite32 bridge useEcam f barOffset.toUInt16)

/-- `pci_probe_bar_size` of `devices_arm64.c`. -/
def arm64ProbeBarSize (f : Bdf) (barOffset : UInt8) : Machine Key → Machine Key × UInt64 :=
  probeBarSize (pcieEcamRead32 bridge arm64EcamBase f barOffset.toUInt16)
    (pcieEcamWrite32 bridge arm64EcamBase f barOffset.toUInt16)

/-- `pci_probe_bar_size` of `devices_riscv.c`. -/
def riscvProbeBarSize (f : Bdf) (barOffset : UInt8) : Machine Key → Machine Key × UInt64 :=
  probeBarSize (pcieEcamRead32 bridge riscvEcamBase f barOffset.toUInt16)
    (pcieEcamWrite32 bridge riscvEcamBase f barOffset.toUInt16)

/-- The copies of the function; that of `devices_amd64.c` goes by `use_ecam`. -/
inductive Copy where
  | amd64 (useEcam : Bool)
  | arm64
  | riscv

/-- `pci_probe_bar_size`. -/
def Copy.pciProbeBarSize : Copy → Bdf → UInt8 → Machine Key → Machine Key × UInt64
  | amd64 useEcam => amd64ProbeBarSize bridge useEcam
  | arm64 => arm64ProbeBarSize bridge
  | riscv => riscvProbeBarSize bridge

/-- The register that a copy probes. -/
def Copy.place (f : Bdf) (barOffset : UInt8) : Copy → Key
  | amd64 true => bridge.ecam (pcieEcamAddress amd64EcamBase f barOffset.toUInt16)
  | amd64 false => bridge.port (pciMakeAddress f barOffset)
  | arm64 => bridge.ecam (pcieEcamAddress arm64EcamBase f barOffset.toUInt16)
  | riscv => bridge.ecam (pcieEcamAddress riscvEcamBase f barOffset.toUInt16)

end Copies

/-- Reads and writes of the register `key`, as far as registers go. -/
structure Accesses {Key : Type} [DecidableEq Key] (key : Key) (read32 : Machine Key → Machine Key × UInt32)
    (write32 : UInt32 → Machine Key → Machine Key) : Prop where
  bar_read32 : ∀ m, (read32 m).1.bar = m.bar
  read32_snd : ∀ m, (read32 m).2 = (m.bar key).value
  bar_write32 : ∀ value m, (write32 value m).bar = Function.update m.bar key ((m.bar key).write value)

section Spec

variable {Key : Type} [DecidableEq Key]

/-- All registers are as they were, and the size comes from what was in the register and what it makes of ones. -/
theorem Accesses.probe {key : Key} {read32 : Machine Key → Machine Key × UInt32}
    {write32 : UInt32 → Machine Key → Machine Key} (h : Accesses key read32 write32) (m : Machine Key) :
    (probeBarSize read32 write32 m).1.bar = m.bar ∧
      (probeBarSize read32 write32 m).2 = barSize (m.bar key).value ((m.bar key).layout.latch 0xFFFFFFFF) := by
  constructor
  · simp only [probeBarSize, h.bar_write32, h.bar_read32, h.read32_snd, Function.update_self, Function.update_idem,
      Register.write_write_value, Function.update_eq_self]
  · simp only [probeBarSize, h.bar_write32, h.bar_read32, h.read32_snd, Function.update_self, Register.write_value]

variable (bridge : Bridge Key)

theorem accesses_ecam (base : UInt64) (f : Bdf) (offset : UInt16) :
    Accesses (bridge.ecam (pcieEcamAddress base f offset)) (pcieEcamRead32 bridge base f offset)
      (pcieEcamWrite32 bridge base f offset) where
  bar_read32 _ := rfl
  read32_snd _ := rfl
  bar_write32 _ _ := rfl

theorem accesses_io (f : Bdf) (offset : UInt8) :
    Accesses (bridge.port (pciMakeAddress f offset)) (pciIoRead32 bridge f offset) (pciIoWrite32 bridge f offset) where
  bar_read32 _ := rfl
  read32_snd _ := rfl
  bar_write32 _ _ := rfl

theorem Copy.probe (copy : Copy) (f : Bdf) (barOffset : UInt8) (m : Machine Key) :
    (copy.pciProbeBarSize bridge f barOffset m).1.bar = m.bar ∧
      (copy.pciProbeBarSize bridge f barOffset m).2 =
        barSize (m.bar (copy.place bridge f barOffset)).value
          ((m.bar (copy.place bridge f barOffset)).layout.latch 0xFFFFFFFF) := by
  cases copy with
  | amd64 useEcam =>
    cases useEcam with
    | true => exact (accesses_ecam bridge amd64EcamBase f barOffset.toUInt16).probe m
    | false =>
      have hplace : (Copy.amd64 false).place bridge f barOffset =
          bridge.port (pciMakeAddress f barOffset.toUInt16.toUInt8) := by
        rw [Copy.place, UInt8.toUInt8_toUInt16]
      rw [hplace]
      exact (accesses_io bridge f barOffset.toUInt16.toUInt8).probe m
  | arm64 => exact (accesses_ecam bridge arm64EcamBase f barOffset.toUInt16).probe m
  | riscv => exact (accesses_ecam bridge riscvEcamBase f barOffset.toUInt16).probe m

end Spec

/-! ### Sizes -/

theorem toNat_latch {k top : ℕ} (hk : k ≤ top) (htop : top ≤ 32) {type : UInt32} (htype : type.toNat < 2 ^ k)
    (value : UInt32) :
    ((value &&& bits k top) ||| type).toNat = value.toNat % 2 ^ top / 2 ^ k * 2 ^ k + type.toNat := by
  have hlow : (value &&& lowMask top).toNat = value.toNat % 2 ^ top := by
    rw [UInt32.toNat_and, toNat_lowMask htop, Nat.and_two_pow_sub_one_eq_mod]
  have hand : (value &&& bits k top).toNat = value.toNat % 2 ^ top / 2 ^ k * 2 ^ k := by
    rw [bits, ← UInt32.and_assoc, and_not_mask32 _ (toNat_lowMask (by omega : k ≤ 32)), hlow]
  rw [toNat_or_of_dvd (by rw [hand]; exact Nat.dvd_mul_left _ _) htype, hand]

/-- What a register makes of ones. -/
theorem toNat_latch_ones {k top : ℕ} (hk : k < top) (htop : top = 16 ∨ top = 32) (type : UInt32)
    (htype : type.toNat < 2 ^ k) :
    ((0xFFFFFFFF &&& bits k top) ||| type).toNat = 2 ^ top - 2 ^ k + type.toNat := by
  have hones : (0xFFFFFFFF : UInt32).toNat % 2 ^ top = 2 ^ top - 1 := by
    rcases htop with rfl | rfl <;> rfl
  rw [toNat_latch hk.le (by omega) htype, hones, ones_div hk]

/-- The lowest bit is one of the type. -/
theorem Register.mod_two (r : Register) (k top : ℕ) (hk : 1 ≤ k ∧ k ≤ top) (htop : top ≤ 32)
    (hwritable : r.layout.writable = bits k top) (hfixed : r.layout.fixed.toNat < 2 ^ k) :
    r.value.toNat % 2 = r.layout.fixed.toNat % 2 := by
  have hlegal := congrArg UInt32.toNat r.legal
  rw [Layout.latch, hwritable, toNat_latch hk.2 htop hfixed] at hlegal
  obtain ⟨q, hq⟩ : 2 ∣ 2 ^ k := dvd_pow_self 2 (by omega)
  rw [← hlegal, hq, Nat.mul_left_comm, Nat.mul_add_mod]

/-- The size that is found. -/
def Layout.found : Layout → ℕ
  | memory k _ _ _ => 2 ^ k
  | io k top _ _ type _ => if top = 32 ∧ k = 2 ∧ type.toNat = 3 then 0 else 2 ^ 32 - 2 ^ top + 2 ^ k
  | unimplemented => 0

theorem toNat_barSize (r : Register) : (barSize r.value (r.layout.latch 0xFFFFFFFF)).toNat = r.layout.found := by
  cases hlayout : r.layout with
  | memory k hk type htype =>
    have hlow : 2 ^ 4 ≤ 2 ^ k := Nat.pow_le_pow_right (by omega) hk.1
    have hbar := r.mod_two k 32 (by omega) le_rfl (by rw [hlayout]; rfl)
      (by rw [hlayout]; exact (by omega : type.toNat < 2 ^ k))
    rw [hlayout, Layout.fixed, htype.2] at hbar
    exact toNat_barSize_of_memory hk htype hbar (toNat_latch_ones hk.2 (.inr rfl) type (by omega))
  | io k top htop hk type htype =>
    have hlow : 2 ^ 2 ≤ 2 ^ k := Nat.pow_le_pow_right (by omega) hk.1
    have hmid : 2 ^ (k + 1) ≤ 2 ^ top := Nat.pow_le_pow_right (by omega) hk.2
    have hmask := toNat_latch_ones hk.2 htop type (by omega)
    have hbar := r.mod_two k top (by omega) (by omega) (by rw [hlayout]; rfl)
      (by rw [hlayout]; exact (by omega : type.toNat < 2 ^ k))
    rw [hlayout, Layout.fixed, htype.2] at hbar
    rw [Layout.latch, Layout.writable, Layout.fixed, Layout.found]
    by_cases hones : top = 32 ∧ k = 2 ∧ type.toNat = 3
    · obtain ⟨rfl, rfl, htype3⟩ := hones
      rw [if_pos ⟨rfl, rfl, htype3⟩, barSize_of_ones (by omega)]
      rfl
    · rw [if_neg hones]
      refine toNat_barSize_of_ports hk (by omega) htype.1 hbar ?_ hmask
      rcases htop with rfl | rfl
      · omega
      · -- three bits are fixed, or the second one is zero
        by_cases hk2 : k = 2
        · subst hk2
          omega
        · have hlow8 : 2 ^ 3 ≤ 2 ^ k := Nat.pow_le_pow_right (by omega) (by omega)
          omega
  | unimplemented =>
    rw [Layout.latch, Layout.writable, Layout.fixed, Layout.found]
    rfl

/-! ### What is found -/

section Found

variable {Key : Type} [DecidableEq Key] (bridge : Bridge Key) (copy : Copy) (f : Bdf) (barOffset : UInt8)
  (m : Machine Key)

/-- All copies find the same, and change nothing. -/
theorem Copy.pciProbeBarSize_found :
    (copy.pciProbeBarSize bridge f barOffset m).1.bar = m.bar ∧
      (copy.pciProbeBarSize bridge f barOffset m).2.toNat =
        (m.bar (copy.place bridge f barOffset)).layout.found := by
  obtain ⟨hbar, hsize⟩ := copy.probe bridge f barOffset m
  refine ⟨hbar, ?_⟩
  rw [hsize, toNat_barSize]

end Found

/-- The register reads as a mask of 32 bits, not all of them set, after ones have been written. -/
def Layout.ReadsAsMask : Layout → Prop
  | memory _ _ _ _ => True
  | io k top _ _ type _ => top = 32 ∧ ¬ (k = 2 ∧ type.toNat = 3)
  | unimplemented => True

theorem Layout.found_eq_size_iff (l : Layout) : l.found = l.size ↔ l.ReadsAsMask := by
  cases l with
  | memory k hk type htype => exact ⟨fun _ => trivial, fun _ => rfl⟩
  | io k top htop hk type htype =>
    rw [Layout.found, Layout.size, Layout.ReadsAsMask]
    rcases htop with rfl | rfl
    · simp
    · by_cases hones : k = 2 ∧ type.toNat = 3
      · simp [hones]
      · simp [hones]
  | unimplemented => exact ⟨fun _ => trivial, fun _ => rfl⟩

/-- The size is found and the registers are as they were if and only if the register reads as a mask. -/
theorem pciProbeBarSize_iff {Key : Type} [DecidableEq Key] (bridge : Bridge Key) (copy : Copy) (f : Bdf)
    (barOffset : UInt8) (m : Machine Key) :
    ((copy.pciProbeBarSize bridge f barOffset m).2.toNat = (m.bar (copy.place bridge f barOffset)).layout.size ∧
        (copy.pciProbeBarSize bridge f barOffset m).1.bar = m.bar) ↔
      (m.bar (copy.place bridge f barOffset)).layout.ReadsAsMask := by
  obtain ⟨hbar, hfound⟩ := copy.pciProbeBarSize_found bridge f barOffset m
  rw [hfound, ← Layout.found_eq_size_iff]
  exact and_iff_left hbar

/-- 256 ports at `0xC000`, of whose addresses sixteen bits are decoded. -/
def ports256 : Register := ⟨.io 8 16 (.inl rfl) (by decide) 1 (by decide), 0xC001, by decide⟩

/-- `0xFFFF0100` ports are found, not 256. -/
theorem ports256_found :
    let bridge : Bridge Unit := ⟨fun _ => (), fun _ => ()⟩
    let found := (Copy.amd64 false).pciProbeBarSize bridge ⟨0, 3, 0⟩ 0x10 ⟨fun _ => ports256, 0⟩
    found.2 = 0xFFFF0100 ∧ found.2.toNat ≠ ports256.layout.size := by
  decide

end Yasouos.Kernel.Pci.Probe
