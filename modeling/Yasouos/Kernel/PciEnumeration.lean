import Yasouos.Kernel.PciAccess

/-!
# The scans of the PCI buses, access by access

`pcie_enumerate_devices` of RISC-V and ARM64 and the loop of `devices_enumerate` of AMD64, as programs
that perform an operation on the configuration space wherever the source accesses it.

## The model

A scan works on the static variable `next_mmio_address`, the calls of the callback and their number
(`Data`). The programs are written from the source, operation by operation, and so they probe every register
the source probes, also where the result is only printed.

## What is proved

`Carries` says that a program does what a function on the scan of the model does, and asks only for what a scan
may ask for; `carries_scan` that each of the three programs does so. Then `devicesEnumerate_refines`: on a machine
whose registers are those of the model, the accesses of a scan are no faults, the devices that it reports and the
addresses it hands out are those of the model, and so are the registers afterwards; all other registers are as they
were.
-/

namespace Yasouos.Kernel.Pci.Access

open Theory Prog
open Probe (Copy)

/-! ### The programs -/

/-- What a scan works on. -/
structure Data where
  /-- `next_mmio_address`. -/
  next : UInt64
  /-- What the callback has been called with. -/
  reported : List (Discovered ℕ)
  /-- `device_count`. -/
  deviceCount : ℤ

/-- A program of a scan. -/
abbrev ScanProg := StateT Data (Prog ConfigOp ConfigAns)

/-- An operation on the configuration space. -/
def config (o : ConfigOp) : ScanProg (ConfigAns o) := fun d => perform o >>= fun x => ret (x, d)

/-- Read the vendor. -/
def vendorId (bus device : ℕ) : ScanProg UInt16 := config (.vendorId bus device)

/-- Read the device. -/
def deviceId (bus device : ℕ) : ScanProg UInt16 := config (.deviceId bus device)

/-- Read a BAR. -/
def readBar (p : Place) : ScanProg UInt32 := config (.read32 p)

/-- Write a BAR. -/
def writeBar (p : Place) (value : UInt32) : ScanProg Unit := config (.write32 p value)

/-- Read `next_mmio_address`. -/
def nextMmioAddress : ScanProg UInt64 := fun d => ret (d.next, d)

/-- Write `next_mmio_address`. -/
def setNextMmioAddress (next : UInt64) : ScanProg Unit := fun d => ret ((), { d with next })

/-- `pci_probe_bar_size`. -/
def pciProbeBarSize (p : Place) : ScanProg UInt64 := do
  let originalBar ← readBar p
  writeBar p 0xFFFFFFFF
  let sizeMask ← readBar p
  writeBar p originalBar
  return barSize originalBar sizeMask

/-- Enable the device, call the callback and count it. -/
def report (bus device : ℕ) (vendor deviceVal : UInt16) (regBase regSize : UInt64) : ScanProg Unit := do
  config (.enable bus device)
  fun d => ret ((), { d with
    reported := d.reported ++
      [{ compatible := none
         name := none
         regBase := regBase.toNat
         regSize := regSize.toNat
         vendorId := vendor.toNat
         deviceId := deviceVal.toNat
         depth := 0
         bus := UInt8.ofNat bus
         deviceNum := UInt8.ofNat device
         function := 0 }]
    deviceCount := d.deviceCount + 1 })

namespace Amd64

/-- The body of the loop of `devices_enumerate`. -/
def scanSlot (bus device : ℕ) : ScanProg Unit := do
  let vendor ← vendorId bus device
  if vendor = 0xFFFF then return ()
  else
    let deviceVal ← deviceId bus device
    let bar0 ← readBar (bus, device, 0)
    let barSize ← pciProbeBarSize (bus, device, 0)
    report bus device vendor deviceVal (bar0 &&& 0xFFFFFFF0).toUInt64 barSize

end Amd64

namespace Arm64

open Pci.Arm64 (pciMmioBase pciMmioSize)

/-- `pci_assign_bar_if_needed`. -/
def pciAssignBarIfNeeded (p : Place) (barSize : UInt64) : ScanProg UInt32 := do
  let barValue ← readBar p
  if barValue &&& 0x1 = 0 then
    let addr := barValue &&& 0xFFFFFFF0
    if addr ≠ 0 then return barValue
    else
      let next ← nextMmioAddress
      if barSize > 0 ∧ next + barSize ≤ pciMmioBase + pciMmioSize then
        let newBar := next.toUInt32 ||| (barValue &&& 0xF)
        writeBar p newBar
        setNextMmioAddress (next + barSize)
        return newBar
      else return barValue
  else return barValue

/-- The body of the loop of `pcie_enumerate_devices`. -/
def scanSlot (bus device : ℕ) : ScanProg Unit := do
  let vendor ← vendorId bus device
  if vendor = 0xFFFF ∨ vendor = 0x0000 then return ()
  else
    let deviceVal ← deviceId bus device
    let bar0Size ← pciProbeBarSize (bus, device, 0)
    let bar1Size ← pciProbeBarSize (bus, device, 1)
    let bar0 ← pciAssignBarIfNeeded (bus, device, 0) bar0Size
    let bar1 ← pciAssignBarIfNeeded (bus, device, 1) bar1Size
    if bar0 &&& 0x1 ≠ 0 ∧ bar1Size > 0 ∧ bar1 &&& 0x1 = 0 then
      report bus device vendor deviceVal (bar1 &&& 0xFFFFFFF0).toUInt64 bar1Size
    else report bus device vendor deviceVal (bar0 &&& 0xFFFFFFF0).toUInt64 bar0Size

end Arm64

namespace Riscv

open Pci.Riscv (pciMmioBase pciMmioSize BarInfo pciVendorIsValid pciSelectBarForDevice)

/-- `pci_assign_bar_if_needed`. -/
def pciAssignBarIfNeeded (p : Place) (barSize : UInt64) : ScanProg UInt32 := do
  let barValue ← readBar p
  if barValue &&& 0x1 ≠ 0 then return barValue
  else if barSize = 0 then return barValue
  else
    let next ← nextMmioAddress
    if next + barSize > pciMmioBase + pciMmioSize then return barValue
    else
      let alignedAddress := (next + (barSize - 1)) &&& ~~~(barSize - 1)
      if alignedAddress + barSize > pciMmioBase + pciMmioSize then return barValue
      else
        let newBar := alignedAddress.toUInt32 ||| (barValue &&& 0xF)
        writeBar p newBar
        setNextMmioAddress (alignedAddress + barSize)
        return newBar

/-- `pci_read_bar`. -/
def pciReadBar (p : Place) : ScanProg BarInfo := do
  let barSize ← pciProbeBarSize p
  let barValue ← readBar p
  return ⟨barValue, barSize⟩

/-- `pci_print_all_bars`, but for what it prints. -/
def pciPrintAllBars (bus device : ℕ) : ScanProg Unit :=
  (List.range 6).forM fun i => do
    let _ ← pciReadBar (bus, device, i)
    return ()

/-- The assignment of one of the three BARs. -/
def assignBar (p : Place) (bar : BarInfo) : ScanProg BarInfo :=
  if bar.barSize > 0 then do
    let barValue ← pciAssignBarIfNeeded p bar.barSize
    return { bar with barValue }
  else return bar

/-- `pci_process_device`. -/
def pciProcessDevice (bus device : ℕ) : ScanProg Unit := do
  let vendor ← vendorId bus device
  if pciVendorIsValid vendor then
    let deviceVal ← deviceId bus device
    let bar0 ← pciReadBar (bus, device, 0)
    let bar1 ← pciReadBar (bus, device, 1)
    let bar4 ← pciReadBar (bus, device, 4)
    let bar0 ← assignBar (bus, device, 0) bar0
    let bar1 ← assignBar (bus, device, 1) bar1
    let bar4 ← assignBar (bus, device, 4) bar4
    pciPrintAllBars bus device
    let selected := pciSelectBarForDevice vendor bar0 bar1 bar4
    report bus device vendor deviceVal selected.1 selected.2
  else return ()

end Riscv

/-- The body of the loop over the slots. -/
def slotProg : Copy → ℕ → ℕ → ScanProg Unit
  | .amd64 _ => Amd64.scanSlot
  | .arm64 => Arm64.scanSlot
  | .riscv => Riscv.pciProcessDevice

/-- The loop over the slots. -/
def scanProg (copy : Copy) : ScanProg Unit := slots.forM fun slot => slotProg copy slot.1 slot.2

/-- `pci_detect_ecam` of ARM64 and RISC-V. -/
def pciDetectEcam (copy : Copy) : Drv Bool := do
  let testValue ← load (ecamBase copy)
  let vendor := (testValue &&& 0xFFFF).toUInt16
  return vendor != 0x0000 && vendor != 0xFFFF

/-- The scan, down to the accesses. -/
def pcieEnumerateDevices (copy : Copy) (d : Data) : Drv Data := do
  let (_, d) ← (scanProg copy d).handle (configOp copy)
  return d

/-- What `devices_enumerate` does with the PCI buses, from `next_mmio_address`. -/
def devicesEnumerate (copy : Copy) (next : UInt64) : Drv Data :=
  match copy with
  | .amd64 _ => pcieEnumerateDevices copy ⟨next, [], 0⟩
  | .arm64 | .riscv => do
    let found ← pciDetectEcam copy
    if found then pcieEnumerateDevices copy ⟨next, [], 0⟩ else return ⟨next, [], 0⟩

/-! ### The scans of the model -/

/-- The body of the loop in the model. -/
def slotOf : Copy → Scan ℕ → ℕ → ℕ → Scan ℕ
  | .amd64 _, s, bus, device => Kernel.Amd64.scanSlot s bus device
  | .arm64, s, bus, device => Pci.Arm64.scanSlot s bus device
  | .riscv, s, bus, device => Pci.Riscv.pciProcessDevice bus device s

/-- The loop in the model. -/
def loopOf (copy : Copy) (s : Scan ℕ) : Scan ℕ := slots.foldl (fun s slot => slotOf copy s slot.1 slot.2) s

/-- What `devices_enumerate` of the model does with the PCI buses. -/
def scanOf (copy : Copy) (config : Pci.Config) (next : UInt64) : Scan ℕ :=
  match copy with
  | .amd64 _ => loopOf copy (.start config next)
  | .arm64 | .riscv =>
    if Kernel.pciDetectEcam config then loopOf copy (.start config next) else .start config next

example (b : Board) (useEcam : Bool) :
    Kernel.Amd64.devicesEnumerate b =
      ⟨(scanOf (.amd64 useEcam) b.config 0).reported, (scanOf (.amd64 useEcam) b.config 0).deviceCount⟩ := rfl

example (st : Statics) (b : Board) (h : b.fdtAddr = 0) :
    Kernel.Riscv.devicesEnumerate st b = .ok
      ⟨(scanOf .riscv b.config st.nextMmioAddress).reported,
        (scanOf .riscv b.config st.nextMmioAddress).deviceCount⟩ := by
  simp only [Kernel.Riscv.devicesEnumerate, enumerateWithFdt, h]
  rfl

/-- What a scan of the model works on. -/
def dataOf (s : Scan ℕ) : Data := ⟨s.machine.next, s.reported, s.deviceCount⟩

/-! ### What the programs do -/

/-- The devices are those of `c₀`. -/
structure SameIds (c₀ c : Pci.Config) : Prop where
  vendorId : c.vendorId = c₀.vendorId
  deviceId : c.deviceId = c₀.deviceId

/-- What can be seen of a scan. -/
def view {α : Type} (r : Scan ℕ × α) : (α × Data) × Pci.Config := ((r.2, dataOf r.1), r.1.machine.config)

section Carries

variable {c₀ : Pci.Config} {α β : Type} {q : ScanProg α} {g g' : Scan ℕ → Scan ℕ × α} {bus device : ℕ}

variable (c₀) in
/-- The program does what `g` does to a scan, and asks only for what a scan may ask for. -/
def Carries (q : ScanProg α) (g : Scan ℕ → Scan ℕ × α) : Prop :=
  ∀ s, SameIds c₀ s.machine.config →
    (q (dataOf s)).Safe (Machine.alone execConfig) (fun _ _ => True) Asks
      (fun r c => (r, c) = view (g s) ∧ SameIds c₀ c) s.machine.config

theorem Carries.congr (h : Carries c₀ q g) (heq : ∀ s, SameIds c₀ s.machine.config → view (g s) = view (g' s)) :
    Carries c₀ q g' :=
  fun s hs => (h s hs).mono fun _ _ hr => ⟨heq s hs ▸ hr.1, hr.2⟩

theorem Carries.bind (h : Carries c₀ q g) {r : α → ScanProg β} {k : α → Scan ℕ → Scan ℕ × β}
    (hr : ∀ a, Carries c₀ (r a) (k a)) : Carries c₀ (q >>= r) fun s => k (g s).2 (g s).1 := by
  intro s hs
  refine Safe.bind ((h s hs).mono ?_)
  rintro ⟨a, d⟩ c ⟨heq, hids⟩
  obtain ⟨⟨rfl, rfl⟩, rfl⟩ := heq
  exact hr _ _ hids

/-- Returning what is to be seen. -/
theorem safe_ret {r : α × Data} {c : Pci.Config} {s : Scan ℕ × α} (h : (r, c) = view s) (hs : SameIds c₀ c) :
    (ret r : Prog ConfigOp ConfigAns (α × Data)).Safe (Machine.alone execConfig) (fun _ _ => True) Asks
      (fun r c => (r, c) = view s ∧ SameIds c₀ c) c :=
  Safe.ret_of_stable (Machine.stable_alone _ fun c => (r, c) = view s ∧ SameIds c₀ c) ⟨h, hs⟩ fun _ h => h

theorem carries_pure (a : α) : Carries c₀ (pure a) fun s => (s, a) := fun _ hs => safe_ret rfl hs

theorem carries_ite {P : Prop} [Decidable P] {q' : ScanProg α} (h : P → Carries c₀ q g) (h' : ¬ P → Carries c₀ q' g') :
    Carries c₀ (if P then q else q') fun s => if P then g s else g' s := by
  by_cases hP : P
  · simpa only [if_pos hP] using h hP
  · simpa only [if_neg hP] using h' hP

/-- An operation. -/
theorem carries_config {o : ConfigOp} (hasks : ∀ c, SameIds c₀ c → Asks o c) :
    Carries c₀ (config o) fun s =>
      ({ s with machine := { s.machine with config := (execConfig o s.machine.config).2 } },
        (execConfig o s.machine.config).1) := by
  intro s hs
  refine Safe.op_of_stable (Machine.stable_alone _ fun c => c = s.machine.config) rfl fun c hc => ?_
  subst hc
  refine ⟨hasks _ hs, fun _ => ?_⟩
  have hids : SameIds c₀ (execConfig o s.machine.config).2 := by
    cases o <;> exact ⟨hs.vendorId, hs.deviceId⟩
  exact safe_ret rfl hids

theorem carries_nextMmioAddress : Carries c₀ nextMmioAddress fun s => (s, s.machine.next) :=
  fun _ hs => safe_ret rfl hs

theorem carries_setNextMmioAddress (next : UInt64) :
    Carries c₀ (setNextMmioAddress next) fun s => ({ s with machine := { s.machine with next } }, ()) :=
  fun _ hs => safe_ret rfl hs

/-- A loop. -/
theorem carries_forM {ι : Type} {f : ι → ScanProg Unit} {k : Scan ℕ → ι → Scan ℕ} {l : List ι}
    (h : ∀ x ∈ l, Carries c₀ (f x) fun s => (k s x, ())) : Carries c₀ (l.forM f) fun s => (l.foldl k s, ()) := by
  induction l with
  | nil => exact carries_pure ()
  | cons x l ih =>
    exact (h x List.mem_cons_self).bind fun _ => ih fun y hy => h y (List.mem_cons_of_mem x hy)

/-- The vendor is that of `c₀`. -/
theorem Carries.vendorId_bind (hb : bus < 2) (hd : device < 32) {r : UInt16 → ScanProg α}
    (h : Carries c₀ (r (c₀.vendorId bus device)) g) : Carries c₀ (vendorId bus device >>= r) g := by
  intro s hs
  refine Safe.bind ((carries_config (o := .vendorId bus device) (fun _ _ => ⟨hb, hd⟩) s hs).mono ?_)
  rintro ⟨a, d⟩ c ⟨heq, hids⟩
  obtain ⟨⟨rfl, rfl⟩, rfl⟩ := heq
  show (r (s.machine.config.vendorId bus device) (dataOf s)).Safe _ _ _ _ s.machine.config
  rw [hs.vendorId]
  exact h s hs

section Device

variable (hp : Present c₀ bus device)

include hp

theorem SameIds.present {c : Pci.Config} (h : SameIds c₀ c) : Present c bus device :=
  ⟨hp.1, hp.2.1, h.vendorId ▸ hp.2.2⟩

theorem Carries.deviceId_bind {r : UInt16 → ScanProg α} (h : Carries c₀ (r (c₀.deviceId bus device)) g) :
    Carries c₀ (deviceId bus device >>= r) g := by
  intro s hs
  refine Safe.bind ((carries_config (o := .deviceId bus device) (fun _ hc => hc.present hp) s hs).mono ?_)
  rintro ⟨a, d⟩ c ⟨heq, hids⟩
  obtain ⟨⟨rfl, rfl⟩, rfl⟩ := heq
  show (r (s.machine.config.deviceId bus device) (dataOf s)).Safe _ _ _ _ s.machine.config
  rw [hs.deviceId]
  exact h s hs

section Bar

variable {i : ℕ} (hi : i < 6)

include hi

theorem carries_readBar :
    Carries c₀ (readBar (bus, device, i)) fun s => (s, s.machine.config.read32 (bus, device, i)) :=
  carries_config (o := .read32 (bus, device, i)) fun _ hc => ⟨hc.present hp, hi⟩

theorem carries_writeBar (value : UInt32) :
    Carries c₀ (writeBar (bus, device, i) value) fun s =>
      ({ s with machine := { s.machine with config := s.machine.config.write32 (bus, device, i) value } }, ()) :=
  carries_config (o := .write32 (bus, device, i) value) fun _ hc => ⟨hc.present hp, hi⟩

/-- Probing. -/
theorem carries_pciProbeBarSize : Carries c₀ (pciProbeBarSize (bus, device, i)) fun s => s.probe (bus, device, i) := by
  refine ((carries_readBar hp hi).bind fun originalBar => (carries_writeBar hp hi _).bind fun _ =>
    (carries_readBar hp hi).bind fun sizeMask => (carries_writeBar hp hi _).bind fun _ => carries_pure _).congr ?_
  intro s _
  simp only [Scan.probe, Pci.pciProbeBarSize, barSize]
  split_ifs <;> rfl

/-- Probing, and what comes after. -/
theorem Carries.probe_bind {r : UInt64 → ScanProg α} {k : UInt64 → Scan ℕ → Scan ℕ × α}
    (h : ∀ a, Carries c₀ (r a) (k a)) :
    Carries c₀ (pciProbeBarSize (bus, device, i) >>= r) fun s => k (s.probe (bus, device, i)).2 s := by
  refine ((carries_pciProbeBarSize hp hi).bind h).congr fun s _ => ?_
  rw [Scan.probe_fst]

/-- The assignment on ARM64. -/
theorem carries_arm64_pciAssignBarIfNeeded (size : UInt64) :
    Carries c₀ (Arm64.pciAssignBarIfNeeded (bus, device, i) size) fun s =>
      s.ask Pci.Arm64.pciAssignBarIfNeeded (bus, device, i) size := by
  refine ((carries_readBar hp hi).bind fun barValue => carries_ite (fun _ => carries_ite (fun _ => carries_pure _)
    fun _ => carries_nextMmioAddress.bind fun next => carries_ite
      (fun _ => (carries_writeBar hp hi _).bind fun _ => (carries_setNextMmioAddress _).bind fun _ => carries_pure _)
      fun _ => carries_pure _) fun _ => carries_pure _).congr ?_
  intro s _
  simp only [Scan.ask, Scan.record, Pci.Arm64.pciAssignBarIfNeeded]
  split_ifs <;> rfl

/-- The assignment on RISC-V. -/
theorem carries_riscv_pciAssignBarIfNeeded (size : UInt64) :
    Carries c₀ (Riscv.pciAssignBarIfNeeded (bus, device, i) size) fun s =>
      s.ask Pci.Riscv.pciAssignBarIfNeeded (bus, device, i) size := by
  refine ((carries_readBar hp hi).bind fun barValue => carries_ite (fun _ => carries_pure _) fun _ =>
    carries_ite (fun _ => carries_pure _) fun _ => carries_nextMmioAddress.bind fun next =>
      carries_ite (fun _ => carries_pure _) fun _ => carries_ite (fun _ => carries_pure _) fun _ =>
        (carries_writeBar hp hi _).bind fun _ => (carries_setNextMmioAddress _).bind fun _ => carries_pure _).congr ?_
  intro s _
  simp only [Scan.ask, Scan.record, Pci.Riscv.pciAssignBarIfNeeded]
  split_ifs <;> rfl

/-- `pci_read_bar`. -/
theorem carries_pciReadBar :
    Carries c₀ (Riscv.pciReadBar (bus, device, i)) fun s => Pci.Riscv.pciReadBar s (bus, device, i) := by
  refine ((carries_pciProbeBarSize hp hi).bind fun _ => (carries_readBar hp hi).bind fun _ => carries_pure _).congr ?_
  intro s _
  rfl

/-- The assignment of one of the three BARs. -/
theorem carries_assignBar (bar : Pci.Riscv.BarInfo) :
    Carries c₀ (Riscv.assignBar (bus, device, i) bar) fun s => Pci.Riscv.assignBar s (bus, device, i) bar := by
  refine (carries_ite (fun _ => (carries_riscv_pciAssignBarIfNeeded hp hi _).bind fun _ => carries_pure _)
    fun _ => carries_pure _).congr ?_
  intro s _
  rfl

end Bar

/-- A device is enabled and reported. -/
theorem carries_report (regBase regSize : UInt64) :
    Carries c₀ (report bus device (c₀.vendorId bus device) (c₀.deviceId bus device) regBase regSize) fun s =>
      (s.report bus device regBase regSize, ()) := by
  intro s hs
  refine Safe.bind ((carries_config (o := .enable bus device) (fun _ hc => hc.present hp) s hs).mono ?_)
  rintro ⟨a, d⟩ c ⟨heq, hids⟩
  obtain ⟨⟨rfl, rfl⟩, rfl⟩ := heq
  refine safe_ret ?_ hids
  rw [← hs.vendorId, ← hs.deviceId]
  rfl

/-- What is printed is probed, too. -/
theorem carries_pciPrintAllBars :
    Carries c₀ (Riscv.pciPrintAllBars bus device) fun s => (Pci.Riscv.pciPrintAllBars bus device s, ()) :=
  carries_forM fun _ hi => (carries_pciReadBar hp (List.mem_range.1 hi)).bind fun _ => carries_pure ()

end Device

section Slot

variable (hb : bus < 2) (hd : device < 32)

include hb hd

theorem carries_amd64_scanSlot :
    Carries c₀ (Amd64.scanSlot bus device) fun s => (Kernel.Amd64.scanSlot s bus device, ()) := by
  refine .vendorId_bind hb hd ?_
  by_cases hvendor : c₀.vendorId bus device = 0xFFFF
  · rw [if_pos hvendor]
    refine (carries_pure ()).congr fun s hs => ?_
    simp only [Kernel.Amd64.scanSlot, hs.vendorId, if_pos hvendor]
  · rw [if_neg hvendor]
    have hp : Present c₀ bus device := ⟨hb, hd, hvendor⟩
    refine (Carries.deviceId_bind hp ((carries_readBar hp (by omega)).bind fun bar0 => .probe_bind hp (by omega)
      fun size => carries_report hp _ _)).congr fun s hs => ?_
    simp only [Kernel.Amd64.scanSlot, hs.vendorId, if_neg hvendor, Scan.probe_fst]

theorem carries_arm64_scanSlot :
    Carries c₀ (Arm64.scanSlot bus device) fun s => (Pci.Arm64.scanSlot s bus device, ()) := by
  refine .vendorId_bind hb hd ?_
  by_cases hvendor : c₀.vendorId bus device = 0xFFFF ∨ c₀.vendorId bus device = 0x0000
  · rw [if_pos hvendor]
    refine (carries_pure ()).congr fun s hs => ?_
    simp only [Pci.Arm64.scanSlot, hs.vendorId, if_pos hvendor]
  · rw [if_neg hvendor]
    have hp : Present c₀ bus device := ⟨hb, hd, fun h => hvendor (.inl h)⟩
    refine (Carries.deviceId_bind hp (.probe_bind hp (by omega) fun size0 => .probe_bind hp (by omega) fun size1 =>
      (carries_arm64_pciAssignBarIfNeeded hp (by omega) size0).bind fun bar0 =>
        (carries_arm64_pciAssignBarIfNeeded hp (by omega) size1).bind fun bar1 =>
          carries_ite (fun _ => carries_report hp _ _) fun _ => carries_report hp _ _)).congr fun s hs => ?_
    simp only [Pci.Arm64.scanSlot, hs.vendorId, if_neg hvendor, Scan.probe_fst]
    split_ifs <;> rfl

theorem carries_pciProcessDevice :
    Carries c₀ (Riscv.pciProcessDevice bus device) fun s => (Pci.Riscv.pciProcessDevice bus device s, ()) := by
  refine .vendorId_bind hb hd ?_
  by_cases hvendor : Pci.Riscv.pciVendorIsValid (c₀.vendorId bus device) = true
  · rw [if_pos hvendor]
    have hp : Present c₀ bus device := ⟨hb, hd, fun h => by simp [h, Pci.Riscv.pciVendorIsValid] at hvendor⟩
    refine (Carries.deviceId_bind hp ((carries_pciReadBar hp (by omega)).bind fun bar0 =>
      (carries_pciReadBar hp (by omega)).bind fun bar1 => (carries_pciReadBar hp (by omega)).bind fun bar4 =>
        (carries_assignBar hp (by omega) bar0).bind fun bar0 => (carries_assignBar hp (by omega) bar1).bind fun bar1 =>
          (carries_assignBar hp (by omega) bar4).bind fun bar4 => (carries_pciPrintAllBars hp).bind fun _ =>
            carries_report hp _ _)).congr fun s hs => ?_
    simp only [Pci.Riscv.pciProcessDevice, hs.vendorId, if_pos hvendor]
  · rw [if_neg hvendor]
    refine (carries_pure ()).congr fun s hs => ?_
    simp only [Pci.Riscv.pciProcessDevice, hs.vendorId, if_neg hvendor]

end Slot

/-- **The scans.** -/
theorem carries_scan (copy : Copy) :
    Carries c₀ (scanProg copy) fun s => (loopOf copy s, ()) := by
  refine carries_forM fun slot hslot => ?_
  obtain ⟨hb, hd⟩ : slot.1 < 2 ∧ slot.2 < 32 := by
    simp only [slots, List.mem_flatMap, List.mem_map, List.mem_range] at hslot
    obtain ⟨bus, hb, device, hd, rfl⟩ := hslot
    exact ⟨hb, hd⟩
  cases copy with
  | amd64 _ => exact carries_amd64_scanSlot hb hd
  | arm64 => exact carries_arm64_scanSlot hb hd
  | riscv => exact carries_pciProcessDevice hb hd

end Carries

/-! ### Down to the accesses -/

section Machine

variable {accept : Accept} {config : Pci.Config} {hw : Hardware}

/-- The scan. -/
theorem pcieEnumerateDevices_refines (copy : Copy) (next : UInt64) (h : Represents accept config hw.dword) :
    ∃ hw', (pcieEnumerateDevices copy ⟨next, [], 0⟩).runOn (exec accept (ecamBase copy)) (some hw) =
        (dataOf (loopOf copy (.start config next)), some hw') ∧
      Represents accept (loopOf copy (.start config next)).machine.config hw'.dword ∧
      ∀ key, ¬ Writes config key → hw'.dword key = hw.dword key := by
  have hsafe := carries_scan copy (Scan.start config next) ⟨rfl, rfl⟩
  have heq : (scanProg copy (dataOf (.start config next))).runOn execConfig config =
      view (loopOf copy (.start config next), ()) := (hsafe.runOn fun _ _ => trivial).1
  have hrun := hsafe.runOn_handle (configOp_refines copy)
    (⟨hw, rfl, h, rfl, fun _ _ => rfl⟩ : Sim accept config hw.dword config (some hw))
  rw [show (Scan.start config next : Scan ℕ).machine.config = config from rfl, heq] at hrun
  obtain ⟨hans, hw', hstate, hrep, -, hsame⟩ := hrun
  refine ⟨hw', ?_, hrep, hsame⟩
  rw [pcieEnumerateDevices, runOn_bind]
  show (((((scanProg copy (dataOf (.start config next))).handle (configOp copy)).runOn _ (some hw)).1).2,
    (((scanProg copy (dataOf (.start config next))).handle (configOp copy)).runOn _ (some hw)).2) = _
  rw [hans, hstate]
  rfl

/-- What is read from the first register says if there is a window. -/
theorem does_pciDetectEcam {copy : Copy} (hcopy : ∀ useEcam, copy ≠ .amd64 useEcam)
    (h : Represents accept config hw.dword) :
    Does accept copy (pciDetectEcam copy) hw (Kernel.pciDetectEcam config) hw := by
  have haddr : ecamBase copy = Probe.pcieEcamAddress (ecamBase copy) (bdfOf 0 0) 0 := by
    cases copy with
    | amd64 useEcam => exact absurd rfl (hcopy useEcam)
    | arm64 => rfl
    | riscv => rfl
  have hload : Does accept copy (load (Probe.pcieEcamAddress (ecamBase copy) (bdfOf 0 0) 0)) hw
      (hw.dword (keyOf (bdfOf 0 0) 0)) hw := does_load copy (by decide) (by decide) (by decide)
  rw [← haddr, keyOf_bdfOf (by omega) (by omega)] at hload
  have hvendor : ((hw.dword ⟨0, 0, 0, 0⟩) &&& 0xFFFF).toUInt16 = config.vendorId 0 0 := by
    rw [← h.vendorId 0 (by omega) 0 (by omega)]
    simp [and_ones16]
  refine hload.bind ?_
  show Does accept copy (.ret (((hw.dword ⟨0, 0, 0, 0⟩) &&& 0xFFFF).toUInt16 != 0x0000 &&
    ((hw.dword ⟨0, 0, 0, 0⟩) &&& 0xFFFF).toUInt16 != 0xFFFF)) hw _ hw
  rw [hvendor]
  exact .ret _ _

/-- **Down to the accesses**, `devices_enumerate` finds the PCI devices that it finds in the model and hands out
the same addresses: no access is a fault, the registers are left as in the model, and no others have changed. -/
theorem devicesEnumerate_refines (copy : Copy) (next : UInt64) (h : Represents accept config hw.dword) :
    ∃ hw', (devicesEnumerate copy next).runOn (exec accept (ecamBase copy)) (some hw) =
        (dataOf (scanOf copy config next), some hw') ∧
      Represents accept (scanOf copy config next).machine.config hw'.dword ∧
      ∀ key, ¬ Writes config key → hw'.dword key = hw.dword key := by
  obtain ⟨hw', hrun, hrep, hsame⟩ := pcieEnumerateDevices_refines copy next h
  have hdetect : ∀ copy : Copy, (∀ useEcam, copy ≠ .amd64 useEcam) →
      (pciDetectEcam copy).runOn (exec accept (ecamBase copy)) (some hw) = (Kernel.pciDetectEcam config, some hw) :=
    fun copy hcopy => does_pciDetectEcam hcopy h
  cases copy with
  | amd64 useEcam =>
    rw [devicesEnumerate, scanOf]
    exact ⟨hw', hrun, hrep, hsame⟩
  | arm64 =>
    rw [devicesEnumerate, runOn_bind, hdetect .arm64 (by simp), scanOf]
    by_cases hfound : Kernel.pciDetectEcam config = true
    · rw [if_pos hfound, if_pos hfound]
      exact ⟨hw', hrun, hrep, hsame⟩
    · rw [if_neg hfound, if_neg hfound]
      exact ⟨hw, rfl, h, fun _ _ => rfl⟩
  | riscv =>
    rw [devicesEnumerate, runOn_bind, hdetect .riscv (by simp), scanOf]
    by_cases hfound : Kernel.pciDetectEcam config = true
    · rw [if_pos hfound, if_pos hfound]
      exact ⟨hw', hrun, hrep, hsame⟩
    · rw [if_neg hfound, if_neg hfound]
      exact ⟨hw, rfl, h, fun _ _ => rfl⟩

end Machine

/-! ### There is such a machine -/

/-- A register with the vendor in its lower half, and the device in its upper half. -/
def identification (vendor deviceVal : UInt16) : UInt32 := (deviceVal.toUInt32 <<< 16) ||| vendor.toUInt32

theorem toNat_identification (vendor deviceVal : UInt16) :
    (identification vendor deviceVal).toNat = deviceVal.toNat * 2 ^ 16 + vendor.toNat := by
  have hvendor := vendor.toNat_lt
  have hdevice := deviceVal.toNat_lt
  have hshift : (deviceVal.toUInt32 <<< 16).toNat = deviceVal.toNat * 2 ^ 16 := by
    have hlt : deviceVal.toNat * 2 ^ 16 < 2 ^ 32 := by omega
    rw [UInt32.toNat_shiftLeft, UInt16.toNat_toUInt32, Nat.shiftLeft_eq]
    exact Nat.mod_eq_of_lt hlt
  rw [identification, toNat_or_of_dvd (k := 16) (by rw [hshift]; exact Nat.dvd_mul_left _ _)
    (by rw [UInt16.toNat_toUInt32]; exact hvendor), hshift, UInt16.toNat_toUInt32]

theorem identification_low (vendor deviceVal : UInt16) : (identification vendor deviceVal).toUInt16 = vendor := by
  have hvendor := vendor.toNat_lt
  apply UInt16.toNat_inj.1
  rw [UInt32.toNat_toUInt16, toNat_identification]
  omega

theorem identification_high (vendor deviceVal : UInt16) :
    (identification vendor deviceVal >>> 16).toUInt16 = deviceVal := by
  have hvendor := vendor.toNat_lt
  have hdevice := deviceVal.toNat_lt
  have hsixteen : (16 : UInt32).toNat % 32 = 16 := rfl
  apply UInt16.toNat_inj.1
  rw [UInt32.toNat_toUInt16, UInt32.toNat_shiftRight, toNat_identification, hsixteen, Nat.shiftRight_eq_div_pow]
  omega

/-- The registers of a machine with a configuration. -/
def dwordOf (c : Pci.Config) (key : Key) : UInt32 :=
  if key.index = 0 then identification (c.vendorId key.bus key.device) (c.deviceId key.bus key.device)
  else if key.index = 1 then (c.command key.bus key.device).toUInt32
  else c.read32 (key.bus, key.device, key.index - 4)

/-- What its registers take. -/
def acceptOf (c : Pci.Config) : Accept := fun key old value =>
  if key.index = 1 then value
  else if 4 ≤ key.index then (c.bar (key.bus, key.device, key.index - 4)).kind.latch value else old

/-- Every configuration is that of a machine. -/
theorem represents_dwordOf (c : Pci.Config) : Represents (acceptOf c) c (dwordOf c) where
  vendorId := fun bus _ device _ => identification_low _ _
  deviceId := fun bus device _ => identification_high _ _
  command := fun bus device _ => by
    rw [dwordOf, if_neg Nat.one_ne_zero, if_pos rfl, UInt16.toUInt16_toUInt32]
  bar := fun bus device _ i _ => by
    rw [dwordOf, if_neg (by show 4 + i ≠ 0; omega), if_neg (by show 4 + i ≠ 1; omega), Nat.add_sub_cancel_left]
  takesCommand := fun bus device _ old value _ => by rw [acceptOf, if_pos rfl]
  takesBar := fun bus device _ i _ old value => by
    rw [acceptOf, if_neg (by show 4 + i ≠ 1; omega), if_pos (by show 4 ≤ 4 + i; omega), Nat.add_sub_cancel_left]

/-- Plain memory has no type bits. -/
theorem plainMemory : (0 : UInt32).toNat < 16 ∧ (0 : UInt32).toNat % 2 = 0 := by decide

/-- Where there is nothing, zero is read. -/
theorem latch_absent_zero : BarKind.absent.latch 0 = 0 := rfl

/-- A network card in the first slot, with a memory BAR that is not set. -/
def oneCard : Pci.Config where
  vendorId bus device := if bus = 0 ∧ device = 0 then 0x8086 else 0xFFFF
  deviceId _ _ := 0x100E
  command _ _ := 0
  bar p := if p.2.2 = 0 then ⟨.memory 17 (by decide) 0 plainMemory, 0, by decide⟩ else ⟨.absent, 0, latch_absent_zero⟩

/-- The scan of RISC-V, on a machine with a card. -/
theorem devicesEnumerate_refines_oneCard :
    ∃ hw', (devicesEnumerate .riscv 0x40000000).runOn (exec (acceptOf oneCard) (ecamBase .riscv))
        (some ⟨dwordOf oneCard, 0⟩) = (dataOf (scanOf .riscv oneCard 0x40000000), some hw') ∧
      Represents (acceptOf oneCard) (scanOf .riscv oneCard 0x40000000).machine.config hw'.dword ∧
      ∀ key, ¬ Writes oneCard key → hw'.dword key = dwordOf oneCard key :=
  devicesEnumerate_refines .riscv 0x40000000
    (represents_dwordOf oneCard : Represents _ oneCard (Hardware.mk (dwordOf oneCard) 0).dword)

end Yasouos.Kernel.Pci.Access
