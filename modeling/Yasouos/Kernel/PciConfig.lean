import Yasouos.Theory.Ranges
import Yasouos.Kernel.Devices
import Mathlib.Tactic.Positivity
import Mathlib.Tactic.SplitIfs
import Mathlib.Logic.Function.Basic

/-!
# PCI configuration space

What the enumerators of `devices_riscv.c`, `devices_arm64.c` and `devices_amd64.c` read and write:
the vendor, the device, the command register and six base address registers of function 0 of every
slot.

## The model

A base address register (BAR) latches what is written to it: of a memory BAR of `2 ^ k` bytes, the
address bits from bit `k` on, while the low four bits say what it is. A 64-bit BAR is two registers,
and the source does not tell the upper one from a BAR of its own. The invariant that a register
holds a value it can hold is a field of `Bar`. `Config` holds the slots; `pciProbeBarSize` is the
same function in all three files.

The upper half of the dword of the command register, the status bits, is left out.

## What is proved

Probing leaves the register as it was (`pciProbeBarSize_fst`) and finds the size of what is behind
it (`toNat_pciProbeBarSize`). The size of what is taken for memory is a power of two, and an address
that is aligned to it can be written (`Bar.size_of_even`).
-/

namespace Yasouos.Kernel.Pci

open Yasouos.Theory

/-! ### Registers -/

/-- What there is behind a base address register. -/
inductive BarKind where
  /-- `2 ^ k` bytes of memory, or at least that many if `k` is 32; `type` are the low four bits. -/
  | memory (k : ℕ) (hk : 4 ≤ k ∧ k ≤ 32) (type : UInt32) (htype : type.toNat < 16 ∧ type.toNat % 2 = 0)
  /-- `2 ^ k` I/O ports. -/
  | io (k : ℕ) (hk : 2 ≤ k ∧ k < 32)
  /-- The upper half of a 64-bit address, for `2 ^ (32 + j)` bytes or, if `j` is 0, less. -/
  | upper (j : ℕ) (hj : j < 32)
  /-- Nothing. -/
  | absent

/-- `2 ^ k - 1` as a register value. -/
def lowMask (k : ℕ) : UInt32 := UInt32.ofNat (2 ^ k - 1)

theorem toNat_lowMask {k : ℕ} (hk : k ≤ 32) : (lowMask k).toNat = 2 ^ k - 1 := by
  have hle : 2 ^ k ≤ 2 ^ 32 := Nat.pow_le_pow_right (by omega) hk
  have hpos : 0 < 2 ^ k := Nat.two_pow_pos k
  rw [lowMask, UInt32.toNat_ofNat']
  omega

/-- What a register holds after a write. -/
def BarKind.latch : BarKind → UInt32 → UInt32
  | .memory k _ type _, value => (value &&& ~~~lowMask k) ||| type
  | .io k _, value => (value &&& ~~~lowMask k) ||| 1
  | .upper j _, value => value &&& ~~~lowMask j
  | .absent, _ => 0

theorem toNat_or_of_dvd {k : ℕ} {x y : UInt32} (hx : 2 ^ k ∣ x.toNat) (hy : y.toNat < 2 ^ k) :
    (x ||| y).toNat = x.toNat + y.toNat := by
  obtain ⟨q, hq⟩ := hx
  rw [UInt32.toNat_or, hq, Nat.mul_comm, ← Nat.shiftLeft_eq, Nat.shiftLeft_add_eq_or_of_lt hy]

theorem toNat_latch_memory {k : ℕ} (hk : 4 ≤ k ∧ k ≤ 32) {type : UInt32}
    (htype : type.toNat < 16 ∧ type.toNat % 2 = 0) (value : UInt32) :
    ((BarKind.memory k hk type htype).latch value).toNat = value.toNat / 2 ^ k * 2 ^ k + type.toNat := by
  have hand := and_not_mask32 value (toNat_lowMask (by omega : k ≤ 32))
  have hlt : 2 ^ 4 ≤ 2 ^ k := Nat.pow_le_pow_right (by omega) hk.1
  rw [BarKind.latch, toNat_or_of_dvd (by rw [hand]; exact Nat.dvd_mul_left _ _) (by omega), hand]

theorem toNat_latch_io {k : ℕ} (hk : 2 ≤ k ∧ k < 32) (value : UInt32) :
    ((BarKind.io k hk).latch value).toNat = value.toNat / 2 ^ k * 2 ^ k + 1 := by
  have hand := and_not_mask32 value (toNat_lowMask (by omega : k ≤ 32))
  have hlt : 2 ^ 2 ≤ 2 ^ k := Nat.pow_le_pow_right (by omega) hk.1
  have hone : (1 : UInt32).toNat = 1 := rfl
  rw [BarKind.latch, toNat_or_of_dvd (by rw [hand]; exact Nat.dvd_mul_left _ _) (by omega), hand, hone]

theorem toNat_latch_upper {j : ℕ} (hj : j < 32) (value : UInt32) :
    ((BarKind.upper j hj).latch value).toNat = value.toNat / 2 ^ j * 2 ^ j :=
  and_not_mask32 value (toNat_lowMask hj.le)

theorem latch_latch (kind : BarKind) (value : UInt32) : kind.latch (kind.latch value) = kind.latch value := by
  have hround : ∀ {k t : ℕ}, t < 2 ^ k → (value.toNat / 2 ^ k * 2 ^ k + t) / 2 ^ k = value.toNat / 2 ^ k := by
    intro k t ht
    rw [Nat.add_comm, Nat.add_mul_div_right _ _ (Nat.two_pow_pos k), Nat.div_eq_of_lt ht, Nat.zero_add]
  cases kind with
  | memory k hk type htype =>
    have hlt : 2 ^ 4 ≤ 2 ^ k := Nat.pow_le_pow_right (by omega) hk.1
    apply UInt32.toNat_inj.1
    rw [toNat_latch_memory, toNat_latch_memory, hround (by omega)]
  | io k hk =>
    have hlt : 2 ^ 2 ≤ 2 ^ k := Nat.pow_le_pow_right (by omega) hk.1
    apply UInt32.toNat_inj.1
    rw [toNat_latch_io, toNat_latch_io, hround (by omega)]
  | upper j hj =>
    apply UInt32.toNat_inj.1
    rw [toNat_latch_upper, toNat_latch_upper, Nat.mul_div_left _ (Nat.two_pow_pos j)]
  | absent => rfl

/-- A base address register. -/
structure Bar where
  kind : BarKind
  /-- What is in it. -/
  value : UInt32
  /-- It can hold that. -/
  legal : kind.latch value = value

/-- Write to the register. -/
def Bar.write (b : Bar) (value : UInt32) : Bar := ⟨b.kind, b.kind.latch value, latch_latch _ _⟩

@[simp] theorem Bar.write_value (b : Bar) (value : UInt32) : (b.write value).value = b.kind.latch value := rfl

@[simp] theorem Bar.write_kind (b : Bar) (value : UInt32) : (b.write value).kind = b.kind := rfl

/-- What was in the register is restored by writing it back. -/
theorem Bar.write_write_value (b : Bar) (value : UInt32) : (b.write value).write b.value = b := by
  cases b with
  | mk kind v legal => simp [Bar.write, legal]

/-! ### Slots -/

/-- A register: the bus, the device and the number of the BAR. -/
abbrev Place := ℕ × ℕ × ℕ

/-- The configuration space of function 0 of every slot. -/
structure Config where
  vendorId : ℕ → ℕ → UInt16
  deviceId : ℕ → ℕ → UInt16
  command : ℕ → ℕ → UInt16
  bar : Place → Bar

/-- `pcie_ecam_read32` of a BAR. -/
def Config.read32 (c : Config) (p : Place) : UInt32 := (c.bar p).value

/-- `pcie_ecam_write32` to a BAR. -/
def Config.write32 (c : Config) (p : Place) (value : UInt32) : Config :=
  { c with bar := Function.update c.bar p ((c.bar p).write value) }

/-- Set the bits of `PCI_COMMAND_MEMORY` and `PCI_COMMAND_MASTER`. -/
def Config.enable (c : Config) (bus device : ℕ) : Config :=
  { c with
    command := fun b d => if b = bus ∧ d = device then c.command b d ||| 0x0002 ||| 0x0004 else c.command b d }

@[simp] theorem Config.bar_enable (c : Config) (bus device : ℕ) : (c.enable bus device).bar = c.bar := rfl

@[simp] theorem Config.bar_write32 (c : Config) (p : Place) (value : UInt32) :
    (c.write32 p value).bar = Function.update c.bar p ((c.bar p).write value) := rfl

theorem Config.read32_write32_self (c : Config) (p : Place) (value : UInt32) :
    (c.write32 p value).read32 p = (c.bar p).kind.latch value := by
  simp [Config.read32]

/-- `pci_probe_bar_size`. -/
def pciProbeBarSize (p : Place) (c : Config) : Config × UInt64 :=
  let originalBar := c.read32 p
  let c := c.write32 p 0xFFFFFFFF
  let sizeMask := c.read32 p
  let c := c.write32 p originalBar
  if sizeMask == 0 || sizeMask == 0xFFFFFFFF then (c, 0)
  else
    let sizeMask := if originalBar &&& 0x1 == 0 then sizeMask &&& 0xFFFFFFF0 else sizeMask &&& 0xFFFFFFFC
    (c, (~~~sizeMask + 1).toUInt64)

/-- Probing leaves the configuration as it was. -/
@[simp] theorem pciProbeBarSize_fst (p : Place) (c : Config) : (pciProbeBarSize p c).1 = c := by
  have hrestore : (c.write32 p 0xFFFFFFFF).write32 p (c.read32 p) = c := by
    simp only [Config.write32, Config.read32, Function.update_self, Function.update_idem, Bar.write_write_value,
      Function.update_eq_self]
  simp only [pciProbeBarSize, hrestore]
  split_ifs <;> rfl

/-- The size that `pci_probe_bar_size` returns, from what was in the register and what was read back. -/
def barSize (originalBar sizeMask : UInt32) : UInt64 :=
  if sizeMask == 0 || sizeMask == 0xFFFFFFFF then 0
  else
    let sizeMask := if originalBar &&& 0x1 == 0 then sizeMask &&& 0xFFFFFFF0 else sizeMask &&& 0xFFFFFFFC
    (~~~sizeMask + 1).toUInt64

theorem pciProbeBarSize_snd (p : Place) (c : Config) :
    (pciProbeBarSize p c).2 = barSize (c.read32 p) ((c.bar p).kind.latch 0xFFFFFFFF) := by
  simp only [pciProbeBarSize, barSize, Config.read32_write32_self]
  split_ifs <;> rfl

/-! ### Sizes -/

/-- The size of what is behind a register, as far as the source can tell. -/
def BarKind.size : BarKind → ℕ
  | .memory k _ _ _ => if k < 32 then 2 ^ k else 0
  | .io k _ => 2 ^ k
  | .upper j _ => if j = 0 then 0 else 2 ^ max j 4
  | .absent => 0

theorem BarKind.size_lt (kind : BarKind) : kind.size < 2 ^ 32 := by
  have hpow : ∀ {k : ℕ}, k < 32 → 2 ^ k < 2 ^ 32 := fun hk => Nat.pow_lt_pow_right (by omega) hk
  cases kind with
  | memory k hk type htype =>
    rw [BarKind.size]
    split_ifs with hlt
    · exact hpow hlt
    · omega
  | io k hk => exact hpow hk.2
  | upper j hj =>
    rw [BarKind.size]
    split_ifs
    · omega
    · exact hpow (by omega)
  | absent => exact Nat.two_pow_pos 32

theorem ones_div {k n : ℕ} (hk : k < n) : (2 ^ n - 1) / 2 ^ k * 2 ^ k = 2 ^ n - 2 ^ k := by
  have hsplit : 2 ^ n = 2 ^ k * 2 ^ (n - k) := by rw [← pow_add, Nat.add_sub_of_le (by omega)]
  have hdiv : (2 ^ k * 2 ^ (n - k) - (0 + 1)) / 2 ^ k = 2 ^ (n - k) - (0 / 2 ^ k + 1) :=
    Nat.mul_sub_div 0 (2 ^ k) (2 ^ (n - k)) (by positivity)
  rw [← hsplit, Nat.zero_div] at hdiv
  rw [hdiv, Nat.sub_mul, Nat.mul_comm, ← hsplit, Nat.zero_add, Nat.one_mul]

/-- The complement of a mask, one added. -/
theorem toNat_not_add_one {mask : UInt32} (hmask : mask.toNat ≠ 0) :
    (~~~mask + 1).toUInt64.toNat = 2 ^ 32 - mask.toNat := by
  have hlt := mask.toNat_lt
  have hone : (1 : UInt32).toNat = 1 := rfl
  rw [UInt32.toNat_toUInt64, UInt32.toNat_add, UInt32.toNat_not, UInt32.size, hone]
  omega

theorem and_one_eq_zero_iff (x : UInt32) : x &&& 0x1 = 0 ↔ x.toNat % 2 = 0 := by
  have hand : (x &&& 0x1).toNat = x.toNat % 2 := by
    rw [UInt32.toNat_and]
    exact Nat.and_two_pow_sub_one_eq_mod x.toNat 1
  rw [← UInt32.toNat_inj, hand]
  rfl

theorem toNat_and_address (x : UInt32) : (x &&& 0xFFFFFFF0).toNat = x.toNat / 16 * 16 :=
  and_not_mask32 x (k := 4) (m := 0xF) rfl

theorem toNat_and_ports (x : UInt32) : (x &&& 0xFFFFFFFC).toNat = x.toNat / 4 * 4 :=
  and_not_mask32 x (k := 2) (m := 0x3) rfl

theorem sixteen_dvd {k : ℕ} (hk : 4 ≤ k) : 16 ∣ 2 ^ k := Nat.pow_dvd_pow 2 hk

theorem four_dvd {k : ℕ} (hk : 2 ≤ k) : 4 ∣ 2 ^ k := Nat.pow_dvd_pow 2 hk

/-- The low four bits of a memory BAR are its type. -/
theorem Bar.mod_of_memory {b : Bar} {k : ℕ} {hk : 4 ≤ k ∧ k ≤ 32} {type : UInt32}
    {htype : type.toNat < 16 ∧ type.toNat % 2 = 0} (h : b.kind = .memory k hk type htype) :
    b.value.toNat % 16 = type.toNat := by
  have hlegal := congrArg UInt32.toNat b.legal
  rw [h, toNat_latch_memory] at hlegal
  obtain ⟨q, hq⟩ := sixteen_dvd hk.1
  rw [← hlegal, hq, Nat.mul_comm, Nat.mul_assoc, Nat.mul_add_mod, Nat.mod_eq_of_lt htype.1]

/-- The lowest bit of an I/O BAR is set. -/
theorem Bar.mod_of_io {b : Bar} {k : ℕ} {hk : 2 ≤ k ∧ k < 32} (h : b.kind = .io k hk) : b.value.toNat % 2 = 1 := by
  have hlegal := congrArg UInt32.toNat b.legal
  rw [h, toNat_latch_io] at hlegal
  obtain ⟨q, hq⟩ := four_dvd hk.1
  rw [hq] at hlegal
  rw [← hlegal, Nat.mul_comm, Nat.mul_assoc, Nat.mul_assoc 2 2]
  omega

/-- The upper half of an address is a multiple of what its low bits are fixed for. -/
theorem Bar.dvd_of_upper {b : Bar} {j : ℕ} {hj : j < 32} (h : b.kind = .upper j hj) : 2 ^ j ∣ b.value.toNat := by
  have hlegal := congrArg UInt32.toNat b.legal
  rw [h, toNat_latch_upper] at hlegal
  rw [← hlegal]
  exact Nat.dvd_mul_left _ _

theorem even_of_upper {b : Bar} {j : ℕ} {hj : j < 32} (h : b.kind = .upper j hj) (hpos : j ≠ 0) :
    b.value.toNat % 2 = 0 := by
  have hdvd : 2 ^ 1 ∣ b.value.toNat := (Nat.pow_dvd_pow 2 (by omega)).trans (Bar.dvd_of_upper h)
  omega

theorem toNat_and_type (x : UInt32) : (x &&& 0xF).toNat = x.toNat % 16 := by
  rw [UInt32.toNat_and]
  exact Nat.and_two_pow_sub_one_eq_mod x.toNat 4

theorem isMask {mask : UInt32} (hzero : mask.toNat ≠ 0) (hones : mask.toNat ≠ 2 ^ 32 - 1) :
    (mask == 0 || mask == 0xFFFFFFFF) = false := by
  rw [Bool.or_eq_false_iff, beq_eq_false_iff_ne, beq_eq_false_iff_ne]
  constructor
  · rintro rfl
    exact hzero rfl
  · rintro rfl
    exact hones rfl

section BarSize

variable {bar mask : UInt32}

/-- The size of what passes for memory. -/
theorem toNat_barSize_of_even (hbar : bar.toNat % 2 = 0) (hmask : 16 ≤ mask.toNat) (hones : mask.toNat ≠ 2 ^ 32 - 1) :
    (barSize bar mask).toNat = 2 ^ 32 - mask.toNat / 16 * 16 := by
  rw [← and_one_eq_zero_iff] at hbar
  simp only [barSize, isMask (by omega) hones, hbar, beq_self_eq_true, if_true, Bool.false_eq_true, if_false]
  rw [toNat_not_add_one (by rw [toNat_and_address]; omega), toNat_and_address]

/-- The size of what passes for ports. -/
theorem toNat_barSize_of_odd (hbar : bar.toNat % 2 = 1) (hmask : 4 ≤ mask.toNat) (hones : mask.toNat ≠ 2 ^ 32 - 1) :
    (barSize bar mask).toNat = 2 ^ 32 - mask.toNat / 4 * 4 := by
  have hodd : ¬ bar &&& 0x1 = 0 := by
    rw [and_one_eq_zero_iff]
    omega
  simp only [barSize, isMask (by omega) hones, beq_eq_false_iff_ne.2 hodd, Bool.false_eq_true, if_false]
  rw [toNat_not_add_one (by rw [toNat_and_ports]; omega), toNat_and_ports]

/-- No size is found if none of the address bits can be set. -/
theorem barSize_of_small (hbar : bar.toNat % 2 = 0) (hmask : mask.toNat < 16) : barSize bar mask = 0 := by
  have hzero : mask &&& 0xFFFFFFF0 = 0 := by
    apply UInt32.toNat_inj.1
    rw [toNat_and_address, Nat.div_eq_of_lt hmask]
    rfl
  rw [← and_one_eq_zero_iff] at hbar
  simp only [barSize, hbar, beq_self_eq_true, if_true, hzero]
  split_ifs <;> rfl

/-- Nor if all bits are set. -/
theorem barSize_of_ones (hmask : mask.toNat = 2 ^ 32 - 1) : barSize bar mask = 0 := by
  obtain rfl : mask = 0xFFFFFFFF := UInt32.toNat_inj.1 hmask
  rfl

/-- Of `2 ^ k` bytes of memory, the bits below `k` read as the low four bits of the register. -/
theorem toNat_barSize_of_memory {k type : ℕ} (hk : 4 ≤ k ∧ k < 32) (htype : type < 16 ∧ type % 2 = 0)
    (hbar : bar.toNat % 2 = 0) (hmask : mask.toNat = 2 ^ 32 - 2 ^ k + type) : (barSize bar mask).toNat = 2 ^ k := by
  have hlow : 2 ^ 4 ≤ 2 ^ k := Nat.pow_le_pow_right (by omega) hk.1
  have hhigh : 2 ^ (k + 1) ≤ 2 ^ 32 := Nat.pow_le_pow_right (by omega) hk.2
  obtain ⟨q, hq⟩ := sixteen_dvd hk.1
  rw [toNat_barSize_of_even hbar (by omega) (by omega), hmask]
  omega

/-- Of `2 ^ k` ports, the bits below `k` read as the low two bits, and those from `top` on as zero. -/
theorem toNat_barSize_of_ports {k top type : ℕ} (hk : 2 ≤ k ∧ k < top) (htop : top ≤ 32) (htype : type < 4)
    (hbar : bar.toNat % 2 = 1) (hones : mask.toNat ≠ 2 ^ 32 - 1) (hmask : mask.toNat = 2 ^ top - 2 ^ k + type) :
    (barSize bar mask).toNat = 2 ^ 32 - 2 ^ top + 2 ^ k := by
  have hlow : 2 ^ (k + 1) ≤ 2 ^ top := Nat.pow_le_pow_right (by omega) hk.2
  have hhigh : 2 ^ top ≤ 2 ^ 32 := Nat.pow_le_pow_right (by omega) htop
  obtain ⟨q, hq⟩ := four_dvd hk.1
  obtain ⟨t, ht⟩ := four_dvd (hk.1.trans hk.2.le)
  have hpos : 0 < 2 ^ k := Nat.two_pow_pos k
  rw [toNat_barSize_of_odd hbar (by omega) hones, hmask]
  omega

end BarSize

/-- Probing finds the size. -/
theorem toNat_pciProbeBarSize (p : Place) (c : Config) : (pciProbeBarSize p c).2.toNat = (c.bar p).kind.size := by
  have hones : (0xFFFFFFFF : UInt32).toNat = 2 ^ 32 - 1 := rfl
  rw [pciProbeBarSize_snd, Config.read32]
  cases hkind : (c.bar p).kind with
  | memory k hk type htype =>
    have hbar : (c.bar p).value.toNat % 2 = 0 := by
      have := Bar.mod_of_memory hkind
      omega
    have hmask := toNat_latch_memory hk htype 0xFFFFFFFF
    rw [hones] at hmask
    by_cases hlt : k < 32
    · rw [ones_div hlt] at hmask
      rw [BarKind.size, if_pos hlt]
      exact toNat_barSize_of_memory ⟨hk.1, hlt⟩ htype hbar hmask
    · obtain rfl : k = 32 := by omega
      rw [Nat.div_eq_of_lt (by omega), Nat.zero_mul, Nat.zero_add] at hmask
      rw [barSize_of_small hbar (by omega)]
      rfl
  | io k hk =>
    have hlow : 2 ^ 2 ≤ 2 ^ k := Nat.pow_le_pow_right (by omega) hk.1
    have hhigh : 2 ^ k < 2 ^ 32 := Nat.pow_lt_pow_right (by omega) hk.2
    have hmask := toNat_latch_io hk 0xFFFFFFFF
    rw [hones, ones_div hk.2] at hmask
    rw [BarKind.size, toNat_barSize_of_ports hk le_rfl (by omega) (Bar.mod_of_io hkind) (by omega) hmask]
    omega
  | upper j hj =>
    have hmask := toNat_latch_upper hj 0xFFFFFFFF
    rw [hones, ones_div hj] at hmask
    by_cases hzero : j = 0
    · subst hzero
      rw [barSize_of_ones hmask]
      rfl
    · have hbar := even_of_upper hkind hzero
      rw [BarKind.size, if_neg hzero]
      rcases le_total j 4 with hle | hle
      · -- what is fixed are less than four bits: the others are taken for the type
        have hlow : 2 ^ 1 ≤ 2 ^ j := Nat.pow_le_pow_right (by omega) (by omega)
        have hhigh : 2 ^ j ≤ 2 ^ 4 := Nat.pow_le_pow_right (by omega) hle
        obtain ⟨q, hq⟩ : 2 ∣ 2 ^ j := dvd_pow_self 2 hzero
        rw [max_eq_right hle]
        exact toNat_barSize_of_memory (by omega) (by omega : 16 - 2 ^ j < 16 ∧ (16 - 2 ^ j) % 2 = 0) hbar (by omega)
      · rw [max_eq_left hle]
        exact toNat_barSize_of_memory ⟨hle, hj⟩ ⟨Nat.zero_lt_succ 15, rfl⟩ hbar hmask
  | absent => rfl

/-- What is taken for memory has a power of two as its size, and holds every aligned address. -/
theorem Bar.size_of_even (b : Bar) (heven : b.value.toNat % 2 = 0) (hsize : b.kind.size ≠ 0) :
    ∃ k, 4 ≤ k ∧ k < 32 ∧ b.kind.size = 2 ^ k ∧
      ∀ a : UInt32, 2 ^ k ∣ a.toNat → b.kind.latch (a ||| (b.value &&& 0xF)) = a ||| (b.value &&& 0xF) := by
  have hlow : ∀ {k : ℕ} {a : UInt32}, 4 ≤ k → 2 ^ k ∣ a.toNat →
      (a ||| (b.value &&& 0xF)).toNat = a.toNat + b.value.toNat % 16 := by
    intro k a hk ha
    rw [toNat_or_of_dvd (k := 4) ((sixteen_dvd hk).trans ha) (by rw [toNat_and_type]; omega), toNat_and_type]
  cases hkind : b.kind with
  | memory k hk type htype =>
    have hlt : k < 32 := by
      by_contra hge
      exact hsize (by rw [hkind]; exact if_neg hge)
    have hpow : 2 ^ 4 ≤ 2 ^ k := Nat.pow_le_pow_right (by omega) hk.1
    refine ⟨k, hk.1, hlt, if_pos hlt, ?_⟩
    intro a ha
    apply UInt32.toNat_inj.1
    obtain ⟨q, hq⟩ := ha
    rw [toNat_latch_memory, hlow hk.1 ⟨q, hq⟩, Bar.mod_of_memory hkind, hq, Nat.mul_add_div (Nat.two_pow_pos k),
      Nat.div_eq_of_lt (by omega : type.toNat < 2 ^ k), Nat.add_zero, Nat.mul_comm]
  | io k hk =>
    have := Bar.mod_of_io hkind
    omega
  | upper j hj =>
    have hpos : j ≠ 0 := by
      rintro rfl
      exact hsize (by rw [hkind]; rfl)
    refine ⟨max j 4, by omega, by omega, if_neg hpos, ?_⟩
    intro a ha
    apply UInt32.toNat_inj.1
    rw [toNat_latch_upper, hlow (le_max_right j 4) ha]
    apply Nat.div_mul_cancel
    apply Nat.dvd_add ((Nat.pow_dvd_pow 2 (le_max_left j 4)).trans ha)
    -- the low four bits of the register are zero from bit `j` on
    have hdvd := Bar.dvd_of_upper hkind
    rcases le_total j 4 with hle | hle
    · exact (Nat.dvd_mod_iff (Nat.pow_dvd_pow 2 hle)).2 hdvd
    · rw [Nat.mod_eq_zero_of_dvd ((sixteen_dvd hle).trans hdvd)]
      exact Nat.dvd_zero _
  | absent =>
    rw [hkind] at hsize
    exact absurd rfl hsize

end Yasouos.Kernel.Pci
