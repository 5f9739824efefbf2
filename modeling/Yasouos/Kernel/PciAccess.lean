import Yasouos.Kernel.Enumerate
import Yasouos.Kernel.PciProbe
import Yasouos.Theory.Handlers

/-!
# From the scans of the PCI buses to the accesses

A scan reads and writes registers of the configuration space, and in the source each of these is a
few accesses to ports or to memory: an address is put together from the number of the bus, the device,
the function and the register, and a register of sixteen bits is half of one of 32.

## The model

`Hardware` is what is behind the ports and the window of memory: it takes addresses apart again, and an
access to something else is a fault. A register takes a value as it likes (`accept`), and nothing is said
of registers that no scan needs. The accessors of the three files are programs over these accesses, under
their names. The operations of a scan on the configuration space are `ConfigOp`: the identification, the
BARs, and enabling a device.

## What is proved

`configOp_refines`: on a machine whose registers are those of the model, each operation does what it does in the
model, as far as a scan may ask for it; no access is a fault, and no other register of the machine changes.
-/

namespace Yasouos.Kernel.Pci.Access

open Theory Prog
open Probe (Bdf Copy pcieEcamAddress pciMakeAddress amd64EcamBase arm64EcamBase riscvEcamBase)

/-! ### The machine -/

/-- A register of 32 bits in the configuration space. -/
structure Key where
  bus : ℕ
  device : ℕ
  function : ℕ
  /-- Its offset, divided by four. -/
  index : ℕ
  deriving DecidableEq

/-- The registers, and what is in `PCI_CONFIG_ADDRESS_PORT`. -/
structure Hardware where
  dword : Key → UInt32
  configAddress : UInt32

/-- An access. -/
inductive Op where
  /-- `io_outl`. -/
  | outl (port : UInt16) (value : UInt32)
  /-- `io_inl`. -/
  | inl (port : UInt16)
  /-- A load of 32 bits. -/
  | load (addr : UInt64)
  /-- A store of 32 bits. -/
  | store (addr : UInt64) (value : UInt32)

/-- What an access answers. -/
def Ans : Op → Type
  | .outl _ _ | .store _ _ => Unit
  | .inl _ | .load _ => UInt32

/-- `PCI_CONFIG_ADDRESS_PORT`. -/
abbrev pciConfigAddressPort : UInt16 := 0xCF8

/-- `PCI_CONFIG_DATA_PORT`. -/
abbrev pciConfigDataPort : UInt16 := 0xCFC

/-- The register that the data port is of, if the enable bit is set. -/
def decodePort (a : UInt32) : Option Key :=
  if 2 ^ 31 ≤ a.toNat then
    some ⟨a.toNat / 2 ^ 16 % 2 ^ 8, a.toNat / 2 ^ 11 % 2 ^ 5, a.toNat / 2 ^ 8 % 2 ^ 3, a.toNat / 4 % 2 ^ 6⟩
  else none

/-- The register at an address in the window of 256 MB that starts at `base`. -/
def decodeEcam (base addr : UInt64) : Option Key :=
  if base.toNat ≤ addr.toNat ∧ addr.toNat < base.toNat + 2 ^ 28 ∧ addr.toNat % 4 = 0 then
    let o := addr.toNat - base.toNat
    some ⟨o / 2 ^ 20, o / 2 ^ 15 % 2 ^ 5, o / 2 ^ 12 % 2 ^ 3, o / 4 % 2 ^ 10⟩
  else none

/-- What a register makes of a value that is written to it: from what is in it, and the value. -/
abbrev Accept := Key → UInt32 → UInt32 → UInt32

section Exec

variable (accept : Accept) (base : UInt64)

/-- A register takes a value. -/
def Hardware.take (hw : Hardware) (key : Key) (value : UInt32) : Hardware :=
  { hw with dword := Function.update hw.dword key (accept key (hw.dword key) value) }

/-- What an access answers, where it is no fault. -/
def Hardware.answer (hw : Hardware) : (o : Op) → Option (Ans o × Hardware)
  | .outl port value =>
    if port = pciConfigAddressPort then some ((), { hw with configAddress := value })
    else if port = pciConfigDataPort then (decodePort hw.configAddress).map fun key => ((), hw.take accept key value)
    else none
  | .inl port =>
    if port = pciConfigDataPort then (decodePort hw.configAddress).map fun key => (hw.dword key, hw) else none
  | .load addr => (decodeEcam base addr).map fun key => (hw.dword key, hw)
  | .store addr value => (decodeEcam base addr).map fun key => ((), hw.take accept key value)

/-- What is answered after a fault does not matter. -/
def noAnswer : (o : Op) → Ans o
  | .outl _ _ | .store _ _ => ()
  | .inl _ | .load _ => (0 : UInt32)

/-- What an access does; after a fault nothing is left of the machine. -/
def exec (o : Op) (s : Option Hardware) : Ans o × Option Hardware :=
  match s.bind fun hw => hw.answer accept base o with
  | some (x, hw) => (x, some hw)
  | none => (noAnswer o, none)

end Exec

/-! ### The accessors -/

/-- A program over the accesses. -/
abbrev Drv := Prog Op Ans

/-- `io_outl`. -/
def ioOutl (port : UInt16) (value : UInt32) : Drv Unit := perform (Op.outl port value)

/-- `io_inl`. -/
def ioInl (port : UInt16) : Drv UInt32 := perform (Op.inl port)

/-- A load from memory. -/
def load (addr : UInt64) : Drv UInt32 := perform (Op.load addr)

/-- A store to memory. -/
def store (addr : UInt64) (value : UInt32) : Drv Unit := perform (Op.store addr value)

/-- `(offset & 2) * 8`. -/
def shiftOf (offset : UInt16) : UInt32 := ((offset &&& 2) * 8).toUInt32

/-- `pci_io_read16`. -/
def pciIoRead16 (f : Bdf) (offset : UInt8) : Drv UInt16 := do
  ioOutl pciConfigAddressPort (pciMakeAddress f offset)
  let data ← ioInl pciConfigDataPort
  return ((data >>> shiftOf offset.toUInt16) &&& 0xFFFF).toUInt16

/-- `pci_io_read32`. -/
def pciIoRead32 (f : Bdf) (offset : UInt8) : Drv UInt32 := do
  ioOutl pciConfigAddressPort (pciMakeAddress f offset)
  ioInl pciConfigDataPort

/-- `pci_io_write16`. -/
def pciIoWrite16 (f : Bdf) (offset : UInt8) (value : UInt16) : Drv Unit := do
  ioOutl pciConfigAddressPort (pciMakeAddress f offset)
  let data ← ioInl pciConfigDataPort
  let shift := shiftOf offset.toUInt16
  let mask := (0xFFFF : UInt32) <<< shift
  ioOutl pciConfigDataPort ((data &&& ~~~mask) ||| (value.toUInt32 <<< shift))

/-- `pci_io_write32`. -/
def pciIoWrite32 (f : Bdf) (offset : UInt8) (value : UInt32) : Drv Unit := do
  ioOutl pciConfigAddressPort (pciMakeAddress f offset)
  ioOutl pciConfigDataPort value

section Ecam

variable (base : UInt64) (f : Bdf) (offset : UInt16)

/-- `pcie_ecam_read16`. -/
def pcieEcamRead16 : Drv UInt16 := do
  let value ← load (pcieEcamAddress base f offset)
  return ((value >>> shiftOf offset) &&& 0xFFFF).toUInt16

/-- `pcie_ecam_read32`. -/
def pcieEcamRead32 : Drv UInt32 := load (pcieEcamAddress base f offset)

/-- `pcie_ecam_write16` of AMD64 and ARM64. -/
def pcieEcamWrite16 (value : UInt16) : Drv Unit := do
  let current ← load (pcieEcamAddress base f offset)
  let shift := shiftOf offset
  let mask := (0xFFFF : UInt32) <<< shift
  store (pcieEcamAddress base f offset) ((current &&& ~~~mask) ||| (value.toUInt32 <<< shift))

/-- `pcie_ecam_write16` of RISC-V. -/
def riscvEcamWrite16 (value : UInt16) : Drv Unit := do
  let addr := pcieEcamAddress base f (offset &&& ~~~3)
  let current ← load addr
  let shift := shiftOf offset
  let mask := ~~~((0xFFFF : UInt32) <<< shift)
  store addr ((current &&& mask) ||| (value.toUInt32 <<< shift))

/-- `pcie_ecam_write32`. -/
def pcieEcamWrite32 (value : UInt32) : Drv Unit := store (pcieEcamAddress base f offset) value

end Ecam

section Config

variable (useEcam : Bool) (f : Bdf) (offset : UInt16)

/-- `pci_config_read16`. -/
def pciConfigRead16 : Drv UInt16 :=
  if useEcam then pcieEcamRead16 amd64EcamBase f offset else pciIoRead16 f offset.toUInt8

/-- `pci_config_read32`. -/
def pciConfigRead32 : Drv UInt32 :=
  if useEcam then pcieEcamRead32 amd64EcamBase f offset else pciIoRead32 f offset.toUInt8

/-- `pci_config_write16`. -/
def pciConfigWrite16 (value : UInt16) : Drv Unit :=
  if useEcam then pcieEcamWrite16 amd64EcamBase f offset value else pciIoWrite16 f offset.toUInt8 value

/-- `pci_config_write32`. -/
def pciConfigWrite32 (value : UInt32) : Drv Unit :=
  if useEcam then pcieEcamWrite32 amd64EcamBase f offset value else pciIoWrite32 f offset.toUInt8 value

end Config

section Copies

variable (copy : Copy) (f : Bdf) (offset : UInt16)

/-- The function that a file reads 16 bits with. -/
def read16 : Drv UInt16 :=
  match copy with
  | .amd64 useEcam => pciConfigRead16 useEcam f offset
  | .arm64 => pcieEcamRead16 arm64EcamBase f offset
  | .riscv => pcieEcamRead16 riscvEcamBase f offset

/-- The function that a file reads 32 bits with. -/
def read32 : Drv UInt32 :=
  match copy with
  | .amd64 useEcam => pciConfigRead32 useEcam f offset
  | .arm64 => pcieEcamRead32 arm64EcamBase f offset
  | .riscv => pcieEcamRead32 riscvEcamBase f offset

/-- The function that a file writes 16 bits with. -/
def write16 (value : UInt16) : Drv Unit :=
  match copy with
  | .amd64 useEcam => pciConfigWrite16 useEcam f offset value
  | .arm64 => pcieEcamWrite16 arm64EcamBase f offset value
  | .riscv => riscvEcamWrite16 riscvEcamBase f offset value

/-- The function that a file writes 32 bits with. -/
def write32 (value : UInt32) : Drv Unit :=
  match copy with
  | .amd64 useEcam => pciConfigWrite32 useEcam f offset value
  | .arm64 => pcieEcamWrite32 arm64EcamBase f offset value
  | .riscv => pcieEcamWrite32 riscvEcamBase f offset value

/-- Where the window of the machine starts. -/
def ecamBase : UInt64 :=
  match copy with
  | .amd64 _ => amd64EcamBase
  | .arm64 => arm64EcamBase
  | .riscv => riscvEcamBase

end Copies

/-! ### Addresses -/

section Addresses

variable {f : Bdf}

theorem toNat_or_of_dvd64 {k : ℕ} {x y : UInt64} (hx : 2 ^ k ∣ x.toNat) (hy : y.toNat < 2 ^ k) :
    (x ||| y).toNat = x.toNat + y.toNat := by
  obtain ⟨q, hq⟩ := hx
  rw [UInt64.toNat_or, hq, Nat.mul_comm, ← Nat.shiftLeft_eq, Nat.shiftLeft_add_eq_or_of_lt hy]

/-- A number of eight bits, shifted. -/
theorem toNat_shift32 (x : UInt8) {k : UInt32} (hk : k.toNat ≤ 24) :
    (x.toUInt32 <<< k).toNat = x.toNat * 2 ^ k.toNat := by
  have hpow : 2 ^ k.toNat ≤ 2 ^ 24 := Nat.pow_le_pow_right (by omega) hk
  have hlt : x.toNat * 2 ^ k.toNat < 2 ^ 8 * 2 ^ 24 := Nat.mul_lt_mul_of_lt_of_le x.toNat_lt hpow (by omega)
  rw [UInt32.toNat_shiftLeft, UInt8.toNat_toUInt32, Nat.shiftLeft_eq, Nat.mod_eq_of_lt (by omega : k.toNat < 32)]
  exact Nat.mod_eq_of_lt hlt

theorem toNat_shift64 (x : UInt8) {k : UInt64} (hk : k.toNat ≤ 56) :
    (x.toUInt64 <<< k).toNat = x.toNat * 2 ^ k.toNat := by
  have hpow : 2 ^ k.toNat ≤ 2 ^ 56 := Nat.pow_le_pow_right (by omega) hk
  have hlt : x.toNat * 2 ^ k.toNat < 2 ^ 8 * 2 ^ 56 := Nat.mul_lt_mul_of_lt_of_le x.toNat_lt hpow (by omega)
  rw [UInt64.toNat_shiftLeft, UInt8.toNat_toUInt64, Nat.shiftLeft_eq, Nat.mod_eq_of_lt (by omega : k.toNat < 64)]
  exact Nat.mod_eq_of_lt hlt

/-- The address for the port. -/
theorem toNat_pciMakeAddress (offset : UInt8) (hd : f.device.toNat < 32) (hf : f.function.toNat < 8) :
    (pciMakeAddress f offset).toNat = 2 ^ 31 + f.bus.toNat * 2 ^ 16 + f.device.toNat * 2 ^ 11 +
      f.function.toNat * 2 ^ 8 + offset.toNat / 4 * 4 := by
  have hbus := f.bus.toNat_lt
  have hoff := offset.toNat_lt
  have h₁ : (f.bus.toUInt32 <<< 16).toNat = f.bus.toNat * 2 ^ 16 := toNat_shift32 _ (by decide)
  have h₂ : (f.device.toUInt32 <<< 11).toNat = f.device.toNat * 2 ^ 11 := toNat_shift32 _ (by decide)
  have h₃ : (f.function.toUInt32 <<< 8).toNat = f.function.toNat * 2 ^ 8 := toNat_shift32 _ (by decide)
  have h₄ : (offset &&& 0xFC).toUInt32.toNat = offset.toNat / 4 * 4 := by
    rw [UInt8.toNat_toUInt32]
    exact toNat_and_not_mask (k := 2) offset.toBitVec (m := 3) rfl
  have h₀ : (0x80000000 : UInt32).toNat = 2 ^ 31 := rfl
  have e₁ : ((0x80000000 : UInt32) ||| (f.bus.toUInt32 <<< 16)).toNat = 2 ^ 31 + f.bus.toNat * 2 ^ 16 := by
    rw [toNat_or_of_dvd (k := 24) (by rw [h₀]; exact ⟨2 ^ 7, by norm_num⟩) (by rw [h₁]; omega), h₀, h₁]
  have e₂ := toNat_or_of_dvd (k := 16) (x := (0x80000000 : UInt32) ||| (f.bus.toUInt32 <<< 16))
    (y := f.device.toUInt32 <<< 11) (by rw [e₁]; omega) (by rw [h₂]; omega)
  rw [e₁, h₂] at e₂
  have e₃ := toNat_or_of_dvd (k := 11) (y := f.function.toUInt32 <<< 8) (by rw [e₂]; omega) (by rw [h₃]; omega)
  rw [e₂, h₃] at e₃
  have e₄ := toNat_or_of_dvd (k := 8) (y := (offset &&& 0xFC).toUInt32) (by rw [e₃]; omega) (by rw [h₄]; omega)
  rw [e₃, h₄] at e₄
  exact e₄

/-- The port takes the address apart again. -/
theorem decodePort_pciMakeAddress (offset : UInt8) (hd : f.device.toNat < 32) (hf : f.function.toNat < 8) :
    decodePort (pciMakeAddress f offset) =
      some ⟨f.bus.toNat, f.device.toNat, f.function.toNat, offset.toNat / 4⟩ := by
  have hbus := f.bus.toNat_lt
  have hoff := offset.toNat_lt
  rw [decodePort, toNat_pciMakeAddress offset hd hf, if_pos (by omega)]
  simp only [Option.some.injEq, Key.mk.injEq]
  refine ⟨?_, ?_, ?_, ?_⟩ <;> omega

/-- The address in memory. -/
theorem toNat_pcieEcamAddress {base : UInt64} (offset : UInt16) (hbase : 2 ^ 28 ∣ base.toNat)
    (hd : f.device.toNat < 32) (hf : f.function.toNat < 8) :
    (pcieEcamAddress base f offset).toNat = base.toNat + f.bus.toNat * 2 ^ 20 + f.device.toNat * 2 ^ 15 +
      f.function.toNat * 2 ^ 12 + offset.toNat % 2 ^ 12 / 4 * 4 := by
  have hbus := f.bus.toNat_lt
  have h₁ : (f.bus.toUInt64 <<< 20).toNat = f.bus.toNat * 2 ^ 20 := toNat_shift64 _ (by decide)
  have h₂ : (f.device.toUInt64 <<< 15).toNat = f.device.toNat * 2 ^ 15 := toNat_shift64 _ (by decide)
  have h₃ : (f.function.toUInt64 <<< 12).toNat = f.function.toNat * 2 ^ 12 := toNat_shift64 _ (by decide)
  have h₄ : (offset &&& 0xFFC).toUInt64.toNat = offset.toNat % 2 ^ 12 / 4 * 4 := by
    have hmask : offset &&& 0xFFC = (offset &&& 0xFFF) &&& ~~~3 := by rw [UInt16.and_assoc]; rfl
    have hlow : (offset &&& 0xFFF).toNat = offset.toNat % 2 ^ 12 := Nat.and_two_pow_sub_one_eq_mod _ 12
    rw [UInt16.toNat_toUInt64, hmask, ← hlow]
    exact toNat_and_not_mask (k := 2) (offset &&& 0xFFF).toBitVec (m := 3) rfl
  have e₁ : (base ||| (f.bus.toUInt64 <<< 20)).toNat = base.toNat + f.bus.toNat * 2 ^ 20 := by
    rw [toNat_or_of_dvd64 hbase (by rw [h₁]; omega), h₁]
  have e₂ := toNat_or_of_dvd64 (k := 20) (y := f.device.toUInt64 <<< 15) (by rw [e₁]; omega) (by rw [h₂]; omega)
  rw [e₁, h₂] at e₂
  have e₃ := toNat_or_of_dvd64 (k := 15) (y := f.function.toUInt64 <<< 12) (by rw [e₂]; omega) (by rw [h₃]; omega)
  rw [e₂, h₃] at e₃
  have e₄ := toNat_or_of_dvd64 (k := 12) (y := (offset &&& 0xFFC).toUInt64) (by rw [e₃]; omega) (by rw [h₄]; omega)
  rw [e₃, h₄] at e₄
  exact e₄

/-- The window takes the address apart again. -/
theorem decodeEcam_pcieEcamAddress {base : UInt64} (offset : UInt16) (hbase : 2 ^ 28 ∣ base.toNat)
    (hd : f.device.toNat < 32) (hf : f.function.toNat < 8) :
    decodeEcam base (pcieEcamAddress base f offset) =
      some ⟨f.bus.toNat, f.device.toNat, f.function.toNat, offset.toNat % 2 ^ 12 / 4⟩ := by
  have hbus := f.bus.toNat_lt
  rw [decodeEcam, toNat_pcieEcamAddress offset hbase hd hf, if_pos (by omega)]
  simp only [Option.some.injEq, Key.mk.injEq]
  refine ⟨?_, ?_, ?_, ?_⟩ <;> omega

end Addresses

/-! ### What the accessors do -/

section Accessors

variable (accept : Accept) (copy : Copy)

/-- The register behind an offset. -/
def keyOf (f : Bdf) (offset : UInt16) : Key := ⟨f.bus.toNat, f.device.toNat, f.function.toNat, offset.toNat / 4⟩

/-- On the machine of a file, a program answers `x` and leaves the machine as `hw'`. -/
def Does {α : Type} (p : Drv α) (hw : Hardware) (x : α) (hw' : Hardware) : Prop :=
  p.runOn (exec accept (ecamBase copy)) (some hw) = (x, some hw')

variable {accept copy} {hw hw' hw'' : Hardware} {f : Bdf} {offset : UInt16}

theorem Does.bind {α β : Type} {p : Drv α} {g : α → Drv β} {x : α} {y : β} (hp : Does accept copy p hw x hw')
    (hg : Does accept copy (g x) hw' y hw'') : Does accept copy (p >>= g) hw y hw'' := by
  rw [Does, runOn_bind, show p.runOn _ (some hw) = _ from hp]
  exact hg

theorem Does.ret {α : Type} (hw : Hardware) (x : α) : Does accept copy (.ret x) hw x hw := rfl

theorem Does.perform {o : Op} {x : Ans o} (h : hw.answer accept (ecamBase copy) o = some (x, hw')) :
    Does accept copy (Prog.perform o) hw x hw' := by
  show (exec accept (ecamBase copy) o (some hw)) = (x, some hw')
  simp only [exec, Option.bind_some, h]

/-- The address goes to the port. -/
theorem does_outAddress (a : UInt32) :
    Does accept copy (ioOutl pciConfigAddressPort a) hw () { hw with configAddress := a } :=
  .perform (by simp only [Hardware.answer, if_true])

theorem ecamBase_dvd (copy : Copy) : 2 ^ 28 ∣ (ecamBase copy).toNat := by
  cases copy with
  | amd64 useEcam => exact ⟨11, rfl⟩
  | arm64 => exact ⟨1025, rfl⟩
  | riscv => exact ⟨3, rfl⟩

section Device

variable (hd : f.device.toNat < 32) (hf : f.function.toNat < 8) (hoff : offset.toNat < 256)

include hd hf hoff

theorem decodePort_keyOf : decodePort (pciMakeAddress f offset.toUInt8) = some (keyOf f offset) := by
  rw [decodePort_pciMakeAddress _ hd hf, UInt16.toNat_toUInt8, Nat.mod_eq_of_lt hoff]
  rfl

theorem decodeEcam_keyOf :
    decodeEcam (ecamBase copy) (pcieEcamAddress (ecamBase copy) f offset) = some (keyOf f offset) := by
  rw [decodeEcam_pcieEcamAddress offset (ecamBase_dvd copy) hd hf, Nat.mod_eq_of_lt (by omega)]
  rfl

/-- The data port has been set to a register, and is read. -/
theorem does_inData (haddr : hw.configAddress = pciMakeAddress f offset.toUInt8) :
    Does accept copy (ioInl pciConfigDataPort) hw (hw.dword (keyOf f offset)) hw := by
  refine .perform ?_
  simp only [Hardware.answer, if_pos, haddr, decodePort_keyOf hd hf hoff, Option.map_some]

/-- The data port has been set to a register, and is written. -/
theorem does_outData (haddr : hw.configAddress = pciMakeAddress f offset.toUInt8) (value : UInt32) :
    Does accept copy (ioOutl pciConfigDataPort value) hw () (hw.take accept (keyOf f offset) value) := by
  refine .perform ?_
  have hport : ¬ pciConfigDataPort = pciConfigAddressPort := by decide
  simp only [Hardware.answer, if_neg hport, if_true, haddr, decodePort_keyOf hd hf hoff, Option.map_some]

variable (copy) in
theorem does_load :
    Does accept copy (load (pcieEcamAddress (ecamBase copy) f offset)) hw (hw.dword (keyOf f offset)) hw := by
  refine .perform ?_
  simp only [Hardware.answer, decodeEcam_keyOf hd hf hoff, Option.map_some]

variable (copy) in
theorem does_store (value : UInt32) :
    Does accept copy (store (pcieEcamAddress (ecamBase copy) f offset) value) hw ()
      (hw.take accept (keyOf f offset) value) := by
  refine .perform ?_
  simp only [Hardware.answer, decodeEcam_keyOf hd hf hoff, Option.map_some]

variable (accept copy hw) in
/-- What a file reads 32 bits with. -/
theorem does_read32 :
    ∃ a, Does accept copy (read32 copy f offset) hw (hw.dword (keyOf f offset)) { hw with configAddress := a } := by
  match copy with
  | .amd64 false => exact ⟨_, (does_outAddress _).bind (does_inData hd hf hoff rfl)⟩
  | .amd64 true => exact ⟨_, does_load (.amd64 true) hd hf hoff⟩
  | .arm64 => exact ⟨_, does_load .arm64 hd hf hoff⟩
  | .riscv => exact ⟨_, does_load .riscv hd hf hoff⟩

variable (accept copy hw) in
/-- What a file writes 32 bits with. -/
theorem does_write32 (value : UInt32) :
    ∃ a, Does accept copy (write32 copy f offset value) hw ()
      { hw with dword := (hw.take accept (keyOf f offset) value).dword, configAddress := a } := by
  match copy with
  | .amd64 false => exact ⟨_, (does_outAddress _).bind (does_outData hd hf hoff rfl value)⟩
  | .amd64 true => exact ⟨_, does_store (.amd64 true) hd hf hoff value⟩
  | .arm64 => exact ⟨_, does_store .arm64 hd hf hoff value⟩
  | .riscv => exact ⟨_, does_store .riscv hd hf hoff value⟩

omit hd hf in
theorem shiftOf_narrow : shiftOf offset.toUInt8.toUInt16 = shiftOf offset := by
  have hnarrow : offset.toUInt8.toUInt16 = offset := by
    apply UInt16.toNat_inj.1
    rw [UInt8.toNat_toUInt16, UInt16.toNat_toUInt8, Nat.mod_eq_of_lt hoff]
  rw [hnarrow]

variable (accept copy hw) in
/-- What a file reads 16 bits with: half of the register. -/
theorem does_read16 :
    ∃ a, Does accept copy (read16 copy f offset) hw ((hw.dword (keyOf f offset) >>> shiftOf offset) &&& 0xFFFF).toUInt16
      { hw with configAddress := a } := by
  match copy with
  | .amd64 false =>
    refine ⟨pciMakeAddress f offset.toUInt8, (does_outAddress _).bind ((does_inData hd hf hoff rfl).bind ?_)⟩
    rw [shiftOf_narrow hoff]
    exact .ret _ _
  | .amd64 true => exact ⟨_, (does_load (.amd64 true) hd hf hoff).bind (.ret _ _)⟩
  | .arm64 => exact ⟨_, (does_load .arm64 hd hf hoff).bind (.ret _ _)⟩
  | .riscv => exact ⟨_, (does_load .riscv hd hf hoff).bind (.ret _ _)⟩

/-- A register with half of it replaced. -/
def merged (x : UInt32) (shift : UInt32) (value : UInt16) : UInt32 :=
  (x &&& ~~~((0xFFFF : UInt32) <<< shift)) ||| (value.toUInt32 <<< shift)

variable (f offset) in
omit hd hf hoff in
/-- Clearing the low two bits of an offset leaves the register. -/
theorem keyOf_aligned : keyOf f (offset &&& ~~~3) = keyOf f offset ∧ (offset &&& ~~~3).toNat ≤ offset.toNat := by
  have hmask : (offset &&& ~~~3).toNat = offset.toNat / 2 ^ 2 * 2 ^ 2 :=
    toNat_and_not_mask (k := 2) offset.toBitVec (m := 3) rfl
  rw [keyOf, keyOf, hmask]
  exact ⟨by congr 1; omega, Nat.div_mul_le_self _ _⟩

variable (accept copy hw) in
/-- What a file writes 16 bits with: the other half of the register is written back as it is read. -/
theorem does_write16 (value : UInt16) :
    ∃ a, Does accept copy (write16 copy f offset value) hw ()
      { hw with
        dword := (hw.take accept (keyOf f offset) (merged (hw.dword (keyOf f offset)) (shiftOf offset) value)).dword
        configAddress := a } := by
  match copy with
  | .amd64 false =>
    refine ⟨pciMakeAddress f offset.toUInt8, (does_outAddress _).bind ((does_inData hd hf hoff rfl).bind ?_)⟩
    rw [← shiftOf_narrow hoff]
    exact does_outData hd hf hoff rfl _
  | .amd64 true =>
    exact ⟨_, (does_load (.amd64 true) hd hf hoff).bind (does_store (.amd64 true) hd hf hoff _)⟩
  | .arm64 => exact ⟨_, (does_load .arm64 hd hf hoff).bind (does_store .arm64 hd hf hoff _)⟩
  | .riscv =>
    obtain ⟨hkey, hle⟩ := keyOf_aligned f offset
    have hlt : (offset &&& ~~~3).toNat < 256 := Nat.lt_of_le_of_lt hle hoff
    rw [← hkey]
    exact ⟨_, (does_load .riscv hd hf hlt).bind (does_store .riscv hd hf hlt _)⟩

end Device

end Accessors

/-! ### Operations of a scan -/

/-- An operation on the configuration space. -/
inductive ConfigOp where
  /-- Read the vendor. -/
  | vendorId (bus device : ℕ)
  /-- Read the device. -/
  | deviceId (bus device : ℕ)
  /-- Read a BAR. -/
  | read32 (p : Place)
  /-- Write a BAR. -/
  | write32 (p : Place) (value : UInt32)
  /-- Set `PCI_COMMAND_MEMORY` and `PCI_COMMAND_MASTER` in the command register. -/
  | enable (bus device : ℕ)

/-- What an operation answers. -/
def ConfigAns : ConfigOp → Type
  | .vendorId _ _ | .deviceId _ _ => UInt16
  | .read32 _ => UInt32
  | .write32 _ _ | .enable _ _ => Unit

/-- What an operation does in the model. -/
def execConfig : (o : ConfigOp) → Pci.Config → ConfigAns o × Pci.Config
  | .vendorId bus device, c => (c.vendorId bus device, c)
  | .deviceId bus device, c => (c.deviceId bus device, c)
  | .read32 p, c => (c.read32 p, c)
  | .write32 p value, c => ((), c.write32 p value)
  | .enable bus device, c => ((), c.enable bus device)

/-- Function 0 of a slot. -/
def bdfOf (bus device : ℕ) : Bdf := ⟨UInt8.ofNat bus, UInt8.ofNat device, 0⟩

/-- `PCI_BAR0_OFFSET`, and four more for each BAR. -/
def barOffset (i : ℕ) : UInt16 := UInt16.ofNat (0x10 + 4 * i)

/-- What an operation does in a file. -/
def configOp (copy : Copy) : (o : ConfigOp) → Drv (ConfigAns o)
  | .vendorId bus device => read16 copy (bdfOf bus device) 0x00
  | .deviceId bus device => read16 copy (bdfOf bus device) 0x02
  | .read32 (bus, device, i) => read32 copy (bdfOf bus device) (barOffset i)
  | .write32 (bus, device, i) value => write32 copy (bdfOf bus device) (barOffset i) value
  | .enable bus device => do
    let command ← read16 copy (bdfOf bus device) 0x04
    write16 copy (bdfOf bus device) 0x04 (command ||| 0x0002 ||| 0x0004)

/-- There is a device in the slot. -/
def Present (c : Pci.Config) (bus device : ℕ) : Prop := bus < 2 ∧ device < 32 ∧ c.vendorId bus device ≠ 0xFFFF

/-- Of an empty slot, a scan reads the vendor only. -/
def Asks : ConfigOp → Pci.Config → Prop
  | .vendorId bus device, _ => bus < 2 ∧ device < 32
  | .deviceId bus device, c | .enable bus device, c => Present c bus device
  | .read32 (bus, device, i), c | .write32 (bus, device, i) _, c => Present c bus device ∧ i < 6

/-- The registers of the machine are those of the model, as far as there are devices. -/
structure Represents (accept : Accept) (c : Pci.Config) (dword : Key → UInt32) : Prop where
  vendorId : ∀ bus < 2, ∀ device < 32, (dword ⟨bus, device, 0, 0⟩).toUInt16 = c.vendorId bus device
  deviceId : ∀ bus device, Present c bus device →
    (dword ⟨bus, device, 0, 0⟩ >>> 16).toUInt16 = c.deviceId bus device
  command : ∀ bus device, Present c bus device → (dword ⟨bus, device, 0, 1⟩).toUInt16 = c.command bus device
  bar : ∀ bus device, Present c bus device → ∀ i < 6, dword ⟨bus, device, 0, 4 + i⟩ = c.read32 (bus, device, i)
  /-- The command register takes the two bits, beside what is in it. -/
  takesCommand : ∀ bus device, Present c bus device → ∀ old value,
    value.toUInt16 = old.toUInt16 ||| 0x0002 ||| 0x0004 →
      (accept ⟨bus, device, 0, 1⟩ old value).toUInt16 = value.toUInt16
  /-- A BAR takes what it can of a value. -/
  takesBar : ∀ bus device, Present c bus device → ∀ i < 6, ∀ old value,
    accept ⟨bus, device, 0, 4 + i⟩ old value = (c.bar (bus, device, i)).kind.latch value

/-- The registers that a scan may write. -/
def Writes (c : Pci.Config) (key : Key) : Prop :=
  key.function = 0 ∧ Present c key.bus key.device ∧ (key.index = 1 ∨ 4 ≤ key.index ∧ key.index < 10)

section Refinement

variable {accept : Accept} {c : Pci.Config} {dword : Key → UInt32} {bus device : ℕ} {hw : Hardware}

theorem toNat_slot {device : ℕ} (hd : device < 32) : (UInt8.ofNat device).toNat = device :=
  UInt8.toNat_ofNat_of_lt (by simp only [UInt8.size]; omega)

theorem keyOf_bdfOf (hb : bus < 2) (hd : device < 32) (offset : UInt16) :
    keyOf (bdfOf bus device) offset = ⟨bus, device, 0, offset.toNat / 4⟩ := by
  simp only [keyOf, bdfOf, toNat_slot (by omega : bus < 32), toNat_slot hd]
  rfl

theorem toNat_barOffset {i : ℕ} (hi : i < 6) : (barOffset i).toNat = 0x10 + 4 * i :=
  UInt16.toNat_ofNat_of_lt (by simp only [UInt16.size]; omega)

theorem and_ones16 (x : UInt16) : x &&& 0xFFFF = x := by
  apply UInt16.toNat_inj.1
  have hmod : (x &&& 0xFFFF).toNat = x.toNat % 2 ^ 16 := Nat.and_two_pow_sub_one_eq_mod _ 16
  rw [hmod, Nat.mod_eq_of_lt x.toNat_lt]

/-- The two halves of a register. -/
theorem half_low (x : UInt32) : ((x >>> shiftOf 0) &&& 0xFFFF).toUInt16 = x.toUInt16 := by
  have hshift : shiftOf 0 = 0 := rfl
  simp [hshift, and_ones16]

theorem half_high (x : UInt32) : ((x >>> shiftOf 2) &&& 0xFFFF).toUInt16 = (x >>> 16).toUInt16 := by
  have hshift : shiftOf 2 = 16 := rfl
  simp [hshift, and_ones16]

theorem merged_low (x : UInt32) (value : UInt16) : (merged x (shiftOf 4) value).toUInt16 = value := by
  have hshift : shiftOf 4 = 0 := rfl
  have hnone : ~~~(0xFFFF : UInt16) = 0 := rfl
  simp [merged, hshift, hnone]

/-- Enabling a device. -/
theorem Represents.enable (h : Represents accept c dword) (hp : Present c bus device) {value : UInt32}
    (hvalue : value.toUInt16 = c.command bus device ||| 0x0002 ||| 0x0004) :
    Represents accept (c.enable bus device)
      (Function.update dword ⟨bus, device, 0, 1⟩ (accept ⟨bus, device, 0, 1⟩ (dword ⟨bus, device, 0, 1⟩) value)) := by
  have hother : ∀ key : Key, key.index ≠ 1 → Function.update dword ⟨bus, device, 0, 1⟩
      (accept ⟨bus, device, 0, 1⟩ (dword ⟨bus, device, 0, 1⟩) value) key = dword key :=
    fun key hkey => Function.update_of_ne (fun heq => hkey (by rw [heq])) _ _
  refine ⟨fun b hb d hd => ?_, fun b d hbd => ?_, fun b d hbd => ?_, fun b d hbd i hi => ?_, h.takesCommand, h.takesBar⟩
  · rw [hother _ Nat.zero_ne_one]
    exact h.vendorId b hb d hd
  · rw [hother _ Nat.zero_ne_one]
    exact h.deviceId b d hbd
  · by_cases hslot : b = bus ∧ d = device
    · obtain ⟨rfl, rfl⟩ := hslot
      rw [Function.update_self, h.takesCommand b d hp _ _ (by rw [h.command b d hp, hvalue]), hvalue]
      exact (if_pos ⟨rfl, rfl⟩).symm
    · rw [Function.update_of_ne fun heq => hslot ⟨congrArg Key.bus heq, congrArg Key.device heq⟩, h.command b d hbd]
      exact (if_neg hslot).symm
  · rw [hother _ (by show 4 + i ≠ 1; omega)]
    exact h.bar b d hbd i hi

/-- Writing a BAR. -/
theorem Represents.write32 (h : Represents accept c dword) (hp : Present c bus device) {i : ℕ} (hi : i < 6)
    (value : UInt32) :
    Represents accept (c.write32 (bus, device, i) value)
      (Function.update dword ⟨bus, device, 0, 4 + i⟩
        (accept ⟨bus, device, 0, 4 + i⟩ (dword ⟨bus, device, 0, 4 + i⟩) value)) := by
  have hother : ∀ key : Key, key.index < 4 → Function.update dword ⟨bus, device, 0, 4 + i⟩
      (accept ⟨bus, device, 0, 4 + i⟩ (dword ⟨bus, device, 0, 4 + i⟩) value) key = dword key :=
    fun key hkey => Function.update_of_ne (fun heq => by rw [heq] at hkey; exact absurd hkey (by simp)) _ _
  have hkind : ∀ p, ((c.write32 (bus, device, i) value).bar p).kind = (c.bar p).kind := by
    intro p
    rw [Pci.Config.bar_write32]
    by_cases hplace : p = (bus, device, i)
    · rw [hplace, Function.update_self, Bar.write_kind]
    · rw [Function.update_of_ne hplace]
  refine ⟨fun b hb d hd => ?_, fun b d hbd => ?_, fun b d hbd => ?_, fun b d hbd j hj => ?_, h.takesCommand,
    fun b d hbd j hj old v => ?_⟩
  · rw [hother _ (by show 0 < 4; omega)]
    exact h.vendorId b hb d hd
  · rw [hother _ (by show 0 < 4; omega)]
    exact h.deviceId b d hbd
  · rw [hother _ (by show 1 < 4; omega)]
    exact h.command b d hbd
  · rw [Pci.Config.read32, Pci.Config.bar_write32]
    by_cases hplace : (b, d, j) = (bus, device, i)
    · obtain ⟨rfl, rfl, rfl⟩ : b = bus ∧ d = device ∧ j = i := by simpa using hplace
      rw [Function.update_self, Function.update_self, h.takesBar b d hp j hi, Bar.write_value]
    · rw [Function.update_of_ne hplace, Function.update_of_ne ?_]
      · exact h.bar b d hbd j hj
      · rintro heq
        simp only [Key.mk.injEq, true_and] at heq
        exact hplace (by rw [heq.1, heq.2.1, show j = i by omega])
  · rw [hkind]
    exact h.takesBar b d hbd j hj old v

/-- The machine is as the model, and only registers that a scan may write have changed since the start. -/
def Sim (accept : Accept) (c₀ : Pci.Config) (dword₀ : Key → UInt32) (c : Pci.Config) (s : Option Hardware) : Prop :=
  ∃ hw, s = some hw ∧ Represents accept c hw.dword ∧ c.vendorId = c₀.vendorId ∧
    ∀ key, ¬ Writes c₀ key → hw.dword key = dword₀ key

theorem Sim.of_eq {c₀ c' : Pci.Config} {dword₀ : Key → UInt32} {α : Type} {copy : Copy} {q : Drv α} {x y : α}
    {s : Option Hardware} {hw' : Hardware} (hrun : q.runOn (exec accept (ecamBase copy)) s = (x, some hw'))
    (hans : x = y) (hsim : Sim accept c₀ dword₀ c' (some hw')) :
    (q.runOn (exec accept (ecamBase copy)) s).1 = y ∧
      Sim accept c₀ dword₀ c' (q.runOn (exec accept (ecamBase copy)) s).2 := by
  rw [hrun]
  exact ⟨hans, hsim⟩

/-- **Each operation** is carried out as in the model. -/
theorem configOp_refines (copy : Copy) {c₀ : Pci.Config} {dword₀ : Key → UInt32} (o : ConfigOp) (c : Pci.Config)
    (s : Option Hardware) (h : Sim accept c₀ dword₀ c s) (hasks : Asks o c) :
    ((configOp copy o).runOn (exec accept (ecamBase copy)) s).1 = (execConfig o c).1 ∧
      Sim accept c₀ dword₀ (execConfig o c).2 ((configOp copy o).runOn (exec accept (ecamBase copy)) s).2 := by
  obtain ⟨hw, rfl, hrep, hids, hsame⟩ := h
  have hdev : ∀ (bus : ℕ) {device : ℕ}, device < 32 → (bdfOf bus device).device.toNat < 32 := fun _ _ hd => by
    simpa only [bdfOf, toNat_slot hd] using hd
  have hfun : ∀ {bus device : ℕ}, (bdfOf bus device).function.toNat < 8 := fun {_ _} => by
    show (0 : UInt8).toNat < 8
    decide
  -- a register that a scan may write
  have hwrites : ∀ {bus device index : ℕ}, Present c bus device → index = 1 ∨ 4 ≤ index ∧ index < 10 →
      Writes c₀ ⟨bus, device, 0, index⟩ := fun hp hindex => ⟨rfl, ⟨hp.1, hp.2.1, hids ▸ hp.2.2⟩, hindex⟩
  have hkeep : ∀ {key' : Key} {value : UInt32}, Writes c₀ key' → ∀ key, ¬ Writes c₀ key →
      Function.update hw.dword key' value key = dword₀ key := fun hkey' key hkey => by
    rw [Function.update_of_ne fun heq => hkey (by rw [heq]; exact hkey')]
    exact hsame key hkey
  cases o with
  | vendorId bus device =>
    obtain ⟨a, hrun⟩ := does_read16 accept copy hw (hdev bus hasks.2) hfun
      (by decide : (0 : UInt16).toNat < 256)
    rw [keyOf_bdfOf hasks.1 hasks.2] at hrun
    exact Sim.of_eq hrun ((half_low _).trans (hrep.vendorId bus hasks.1 device hasks.2)) ⟨_, rfl, hrep, hids, hsame⟩
  | deviceId bus device =>
    obtain ⟨a, hrun⟩ := does_read16 accept copy hw (hdev bus hasks.2.1) hfun
      (by decide : (2 : UInt16).toNat < 256)
    rw [keyOf_bdfOf hasks.1 hasks.2.1] at hrun
    exact Sim.of_eq hrun ((half_high _).trans (hrep.deviceId bus device hasks)) ⟨_, rfl, hrep, hids, hsame⟩
  | enable bus device =>
    obtain ⟨a, hread⟩ := does_read16 accept copy hw (hdev bus hasks.2.1) hfun
      (by decide : (4 : UInt16).toNat < 256)
    have hcommand : ((hw.dword ⟨bus, device, 0, (4 : UInt16).toNat / 4⟩ >>> shiftOf 4) &&& 0xFFFF).toUInt16 =
        c.command bus device := (half_low _).trans (hrep.command bus device hasks)
    rw [keyOf_bdfOf hasks.1 hasks.2.1, hcommand] at hread
    obtain ⟨a', hwrite⟩ := does_write16 accept copy { hw with configAddress := a } (hdev bus hasks.2.1) hfun
      (by decide : (4 : UInt16).toNat < 256) (c.command bus device ||| 0x0002 ||| 0x0004)
    rw [keyOf_bdfOf hasks.1 hasks.2.1] at hwrite
    exact Sim.of_eq (hread.bind hwrite) rfl
      ⟨_, rfl, hrep.enable hasks (merged_low _ _), hids, hkeep (hwrites hasks (.inl rfl))⟩
  | read32 p =>
    obtain ⟨bus, device, i⟩ := p
    obtain ⟨hp, hi⟩ := hasks
    have hoff := toNat_barOffset hi
    obtain ⟨a, hrun⟩ := does_read32 accept copy hw (hdev bus hp.2.1) hfun
      (by omega : (barOffset i).toNat < 256)
    rw [keyOf_bdfOf hp.1 hp.2.1, show (barOffset i).toNat / 4 = 4 + i by omega] at hrun
    exact Sim.of_eq hrun (hrep.bar bus device hp i hi) ⟨_, rfl, hrep, hids, hsame⟩
  | write32 p value =>
    obtain ⟨bus, device, i⟩ := p
    obtain ⟨hp, hi⟩ := hasks
    have hoff := toNat_barOffset hi
    obtain ⟨a, hrun⟩ := does_write32 accept copy hw (hdev bus hp.2.1) hfun
      (by omega : (barOffset i).toNat < 256) value
    rw [keyOf_bdfOf hp.1 hp.2.1, show (barOffset i).toNat / 4 = 4 + i by omega] at hrun
    exact Sim.of_eq hrun rfl ⟨_, rfl, hrep.write32 hp hi value, hids, hkeep (hwrites hp (.inr (by omega)))⟩

end Refinement

end Yasouos.Kernel.Pci.Access
