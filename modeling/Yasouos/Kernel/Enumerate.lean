import Yasouos.Kernel.FdtSafety
import Yasouos.Kernel.PciArm64
import Yasouos.Kernel.PciRiscv
import Yasouos.Kernel.Registry

/-!
# Finding the devices of a machine

`devices_enumerate` of the three architectures and `devices_scan`. On RISC-V and ARM64 the devices
of the PCI buses come first, then the nodes of the device tree; a node that says `virtio,mmio` is
passed on only if there is a device behind it. On AMD64 there are only the PCI buses.

## The model

All of memory can be read. The registers of the VirtIO devices are not part of it: `Board.mmio` is
what is read from them. What the user's callback is called with is a list. The static variables
that the functions start from are arguments.

## What is proved

The parser of the device tree always returns; it reports as many nodes as it says, unless it rejects
the header and says -1 (`returns_enumerateDevices`). So the number that `devices_enumerate`
returns is the number of calls exactly if there is no device tree, or if its header is valid and every
`virtio,mmio` node of it has a device: `countsCalls_iff`.
-/

namespace Yasouos.Kernel

/-! ### The parser on readable memory -/

namespace Fdt

/-- Memory that can be read everywhere. -/
def full (mem : ℕ → UInt8) : Mem := fun p => some (mem p)

/-- The header has the magic number, and its offsets pass the check of the parser. -/
def HeaderValid (mem : ℕ → UInt8) (fdtAddr : ℕ) : Prop :=
  word mem fdtAddr = fdtMagic ∧ word mem (fdtAddr + 8) ≤ word mem (fdtAddr + 4) ∧
    word mem (fdtAddr + 12) ≤ word mem (fdtAddr + 4) ∧
    (word mem (fdtAddr + 8) + word mem (fdtAddr + 36)) % 2 ^ 32 ≤ word mem (fdtAddr + 4)

instance (mem : ℕ → UInt8) (fdtAddr : ℕ) : Decidable (HeaderValid mem fdtAddr) :=
  inferInstanceAs (Decidable (_ ∧ _ ∧ _ ∧ _))

section Full

variable {mem : ℕ → UInt8} {p : ℕ}

/-- It has a result, as `Q` says. -/
def Returns {α : Type} (r : Except Stop α) (Q : α → Prop) : Prop := ∃ a, r = .ok a ∧ Q a

theorem Returns.bind {α β : Type} {x : Except Stop α} {f : α → Except Stop β} {Q : α → Prop} {Q' : β → Prop}
    (hx : Returns x Q) (hf : ∀ a, Q a → Returns (f a) Q') : Returns (x >>= f) Q' := by
  obtain ⟨a, rfl, ha⟩ := hx
  exact hf a ha

theorem Returns.pure {α : Type} {a : α} {Q : α → Prop} (h : Q a) : Returns (pure a) Q := ⟨a, rfl, h⟩

theorem returns_loadBe32 : Returns (loadBe32 (full mem) p) (· = word mem p) := by
  have h0 := (mem p).toNat_lt
  have h1 := (mem (p + 1)).toNat_lt
  have h2 := (mem (p + 2)).toNat_lt
  have h3 := (mem (p + 3)).toNat_lt
  refine ⟨_, rfl, ?_⟩
  simp only [be32ToCpu, word]
  omega

theorem returns_readBe32Unaligned : Returns (readBe32Unaligned (full mem) p) fun _ => True := ⟨_, rfl, trivial⟩

theorem returns_strEqual (lit : List UInt8) : Returns (strEqual (full mem) p lit) fun _ => True := by
  induction lit generalizing p with
  | nil => exact ⟨_, rfl, trivial⟩
  | cons c lit ih =>
    refine Returns.bind (⟨mem p, rfl, trivial⟩ : Returns (byte (full mem) p) fun _ => True) fun b _ => ?_
    split_ifs
    · exact ih
    · exact Returns.pure trivial

theorem returns_nameLen (max : ℕ) : Returns (nameLen (full mem) p max) fun _ => True := by
  induction max generalizing p with
  | zero => exact Returns.pure trivial
  | succ max ih =>
    refine Returns.bind (⟨mem p, rfl, trivial⟩ : Returns (byte (full mem) p) fun _ => True) fun b _ => ?_
    split_ifs
    · exact ih.bind fun n _ => Returns.pure trivial
    · exact Returns.pure trivial

/-- The devices that have been reported are counted. -/
def Walk.Counted (s : Walk) : Prop := s.deviceCount = s.reports.length

/-- After an iteration that began at `p`, the count is right, and the loop, if it goes on, has come forward. -/
def Next.Forward (p : ℕ) : Next → Prop
  | .loop s => s.Counted ∧ p < s.structPtr
  | .done s => s.Counted

theorem returns_beginNode {s : Walk} {limit : ℕ} (h : s.Counted) (hp : p < s.structPtr) :
    Returns (beginNode (full mem) limit s) (Next.Forward p) := by
  unfold beginNode
  split_ifs
  · exact Returns.pure h
  · refine (returns_nameLen _).bind fun len _ => ?_
    dsimp only
    split_ifs
    · exact Returns.pure h
    · exact Returns.pure h
    · exact Returns.pure ⟨h, Nat.lt_of_lt_of_le hp (Nat.le_add_right _ _)⟩

theorem returns_parseProp {s : Walk} {limit name data len : ℕ} (h : s.Counted) :
    Returns (parseProp (full mem) limit name data len s) Walk.Counted := by
  unfold parseProp
  refine (returns_strEqual regName).bind fun isReg _ => ?_
  split_ifs
  · exact returns_readBe32Unaligned.bind fun _ _ => returns_readBe32Unaligned.bind fun _ _ =>
      returns_readBe32Unaligned.bind fun _ _ => returns_readBe32Unaligned.bind fun _ _ => Returns.pure h
  · exact Returns.pure h
  all_goals
    refine (returns_strEqual compatibleName).bind fun isCompatible _ => ?_
    split_ifs
    all_goals exact Returns.pure h

theorem returns_prop {s : Walk} {limit stringsBase : ℕ} (h : s.Counted) (hp : p < s.structPtr) :
    Returns (prop (full mem) stringsBase limit s) (Next.Forward p) := by
  unfold prop
  split_ifs
  · exact Returns.pure h
  · refine returns_loadBe32.bind fun len _ => returns_loadBe32.bind fun nameoff _ => ?_
    dsimp only
    split_ifs
    · exact Returns.pure h
    · exact (returns_parseProp h).bind fun s' h' => Returns.pure h'
    · refine (returns_parseProp h).bind fun s' h' => Returns.pure ⟨h', ?_⟩
      change p < s.structPtr + 8 + alignUp len
      omega

theorem counted_endNode {s : Walk} (h : s.Counted) : (endNode true s).Counted := by
  have hcount : s.deviceCount = s.reports.length := h
  unfold endNode Walk.Counted
  dsimp only
  split_ifs
  · simp [hcount]
  · exact h

/-- An iteration. -/
theorem returns_step {s : Walk} {limit stringsBase : ℕ} (h : s.Counted) :
    Returns (step (full mem) true stringsBase limit s) (Next.Forward s.structPtr) := by
  have hlt : s.structPtr < s.structPtr + 4 := by omega
  unfold step
  split_ifs
  · exact Returns.pure h
  · refine returns_loadBe32.bind fun token _ => ?_
    dsimp only
    split_ifs
    · exact returns_beginNode h hlt
    · refine Returns.pure ⟨counted_endNode h, ?_⟩
      rw [structPtr_endNode]
      exact hlt
    · exact returns_prop h hlt
    · exact Returns.pure ⟨h, hlt⟩
    · exact Returns.pure h

/-- The loop ends before its iterations are used up: every one of them comes forward. -/
theorem returns_walkTokens {limit stringsBase n : ℕ} {s : Walk} (h : s.Counted) (hn : limit - s.structPtr < n) :
    Returns (walkTokens (full mem) true stringsBase limit n s) Walk.Counted := by
  induction n generalizing s with
  | zero => omega
  | succ n ih =>
    by_cases hend : limit ≤ s.structPtr
    · refine ⟨s, ?_, h⟩
      rw [walkTokens, step, if_pos hend]
      rfl
    · refine (returns_step h).bind fun next hnext => ?_
      cases next with
      | loop s' => exact ih hnext.1 (by have := hnext.2; omega)
      | done s' => exact Returns.pure hnext

/-- The parser returns the number of devices it has reported, or -1 if it rejects the header. -/
theorem returns_enumerateDevices {fdtAddr : ℕ} (haddr : fdtAddr ≠ 0) :
    Returns (enumerateDevices (full mem) fdtAddr true) fun out =>
      (HeaderValid mem fdtAddr → out.1 = out.2.length) ∧ (¬ HeaderValid mem fdtAddr → out = (-1, [])) := by
  unfold enumerateDevices
  rw [if_neg haddr]
  refine returns_loadBe32.bind fun magic hmagic => ?_
  subst hmagic
  by_cases hmagic : word mem fdtAddr ≠ fdtMagic
  · rw [if_pos hmagic]
    exact Returns.pure ⟨fun h => absurd h.1 hmagic, fun _ => rfl⟩
  · rw [if_neg hmagic]
    refine returns_loadBe32.bind fun structOffset h1 => returns_loadBe32.bind fun stringsOffset h2 =>
      returns_loadBe32.bind fun totalsize h3 => returns_loadBe32.bind fun structSize h4 => ?_
    subst h1 h2 h3 h4
    by_cases hcheck : HeaderValid mem fdtAddr
    · have hpass := hcheck.2
      rw [if_neg (by omega)]
      refine (returns_walkTokens (by rfl) ?_).bind fun s hs => Returns.pure ⟨fun _ => hs, fun h => absurd hcheck h⟩
      change fdtAddr + word mem (fdtAddr + 8) + word mem (fdtAddr + 36) - (fdtAddr + word mem (fdtAddr + 8)) < _
      omega
    · have hfail : word mem (fdtAddr + 4) < word mem (fdtAddr + 8) ∨ word mem (fdtAddr + 4) < word mem (fdtAddr + 12) ∨
          word mem (fdtAddr + 4) < (word mem (fdtAddr + 8) + word mem (fdtAddr + 36)) % 2 ^ 32 := by
        by_contra hno
        exact hcheck ⟨not_not.1 hmagic, by omega, by omega, by omega⟩
      rw [if_pos hfail]
      exact Returns.pure ⟨fun h => absurd h hcheck, fun _ => rfl⟩

end Full

end Fdt

/-! ### The devices behind the nodes -/

/-- What a machine has: its PCI buses, its memory, the registers of its VirtIO devices and the address of its device
tree, 0 if there is none. -/
structure Board where
  config : Pci.Config
  mem : ℕ → UInt8
  mmio : ℕ → UInt32
  fdtAddr : ℕ

/-- `strcmp` of a string in memory and a literal, is it 0? -/
def strcmpEq (mem : ℕ → UInt8) (p : ℕ) : List UInt8 → Bool
  | [] => mem p == 0
  | c :: s => if mem p ≠ 0 ∧ mem p = c then strcmpEq mem (p + 1) s else mem p == c

/-- The bytes of `"virtio,mmio"`. -/
def virtioMmioName : List UInt8 := [118, 105, 114, 116, 105, 111, 44, 109, 109, 105, 111]

/-- The compatible string of a device is `virtio,mmio`. -/
def isVirtioMmio (mem : ℕ → UInt8) (d : Device ℕ) : Bool :=
  match d.compatible with
  | none => false
  | some p => strcmpEq mem p virtioMmioName

/-- `virtio_type_to_device_id`. -/
def virtioTypeToDeviceId (deviceType : UInt32) : ℕ :=
  if deviceType = 1 then 0x1000 else if deviceType = 2 then 0x1001 else if deviceType = 4 then 0x1005 else 0

/-- `mmio_read32_safe`. -/
def mmioRead32Safe (mmio : ℕ → UInt32) (addr : ℕ) : Option UInt32 := if addr % 4 ≠ 0 then none else some (mmio addr)

/-- `virtio_mmio_probe_device`: the device with its ids, if it is one. -/
def virtioMmioProbeDevice (mmio : ℕ → UInt32) (d : Discovered ℕ) : Option (Discovered ℕ) :=
  if d.regBase = 0 then none
  else do
    let magic ← mmioRead32Safe mmio d.regBase
    if magic ≠ 0x74726976 then none
    else
      let version ← mmioRead32Safe mmio ((d.regBase + 0x004) % 2 ^ 64)
      if version = 0 ∨ version > 2 then none
      else
        let deviceType ← mmioRead32Safe mmio ((d.regBase + 0x008) % 2 ^ 64)
        if deviceType = 0 then none
        else
          let deviceId := virtioTypeToDeviceId deviceType
          if deviceId = 0 then none else some { d with vendorId := 0x1AF4, deviceId := deviceId }

/-- There is a VirtIO device at an address, of a version and a type that are known. -/
def HasDevice (mmio : ℕ → UInt32) (base : ℕ) : Prop :=
  base ≠ 0 ∧ base % 4 = 0 ∧ mmio base = 0x74726976 ∧
    (mmio ((base + 4) % 2 ^ 64) = 1 ∨ mmio ((base + 4) % 2 ^ 64) = 2) ∧
    (mmio ((base + 8) % 2 ^ 64) = 1 ∨ mmio ((base + 8) % 2 ^ 64) = 2 ∨ mmio ((base + 8) % 2 ^ 64) = 4)

theorem virtioTypeToDeviceId_eq_zero_iff (deviceType : UInt32) :
    virtioTypeToDeviceId deviceType = 0 ↔ ¬ (deviceType = 1 ∨ deviceType = 2 ∨ deviceType = 4) := by
  rw [virtioTypeToDeviceId]
  split_ifs with h1 h2 h4
  · simp [h1]
  · simp [h2]
  · simp [h4]
  · simp [h1, h2, h4]

theorem version_iff (version : UInt32) : ¬ (version = 0 ∨ version > 2) ↔ version = 1 ∨ version = 2 := by
  simp only [← UInt32.toNat_inj, gt_iff_lt, UInt32.lt_iff_toNat_lt]
  have h0 : (0 : UInt32).toNat = 0 := rfl
  have h1 : (1 : UInt32).toNat = 1 := rfl
  have h2 : (2 : UInt32).toNat = 2 := rfl
  omega

theorem isSome_virtioMmioProbeDevice (mmio : ℕ → UInt32) (d : Discovered ℕ) :
    (virtioMmioProbeDevice mmio d).isSome ↔ HasDevice mmio d.regBase := by
  rw [virtioMmioProbeDevice, HasDevice]
  by_cases hbase : d.regBase = 0
  · simp [hbase]
  by_cases halign : d.regBase % 4 = 0
  swap
  · simp [hbase, halign, mmioRead32Safe]
  have h4 : (d.regBase + 0x004) % 2 ^ 64 % 4 = 0 := by omega
  have h8 : (d.regBase + 0x008) % 2 ^ 64 % 4 = 0 := by omega
  simp only [mmioRead32Safe, hbase, halign, h4, h8, ne_eq, not_true_eq_false, not_false_eq_true, if_false, true_and,
    Option.bind_eq_bind, Option.bind_some]
  generalize mmio ((d.regBase + 0x004) % 2 ^ 64) = version
  generalize mmio ((d.regBase + 0x008) % 2 ^ 64) = deviceType
  rw [← version_iff]
  by_cases hmagic : mmio d.regBase = 0x74726976
  swap
  · simp [hmagic]
  by_cases hversion : version = 0 ∨ version > 2
  · simp only [hmagic, hversion, not_true_eq_false, if_true, if_false, Option.isSome_none, Bool.false_eq_true,
      false_and, and_false]
  by_cases htype : virtioTypeToDeviceId deviceType = 0
  · have hno := (virtioTypeToDeviceId_eq_zero_iff deviceType).1 htype
    simp only [hmagic, hversion, htype, hno, not_true_eq_false, if_true, ite_self, Option.isSome_none, Bool.false_eq_true,
      and_false]
  · have hyes := not_not.1 (fun hno => htype ((virtioTypeToDeviceId_eq_zero_iff deviceType).2 hno))
    have hzero : deviceType ≠ 0 := by
      rintro rfl
      exact htype rfl
    simp only [hmagic, hversion, htype, hyes, hzero, not_true_eq_false, not_false_eq_true, if_false, Option.isSome_some,
      and_self]

/-! ### The enumerators -/

/-- The static variables that an enumeration starts from. -/
structure Statics where
  nextMmioAddress : UInt64
  nextMmioDeviceNum : UInt8

/-- What an enumeration does: the calls of the user's callback, and the number it returns. -/
structure Outcome where
  calls : List (Discovered ℕ)
  returned : ℤ

/-- `pci_detect_ecam` of RISC-V and ARM64. -/
def pciDetectEcam (config : Pci.Config) : Bool := config.vendorId 0 0 != 0x0000 && config.vendorId 0 0 != 0xFFFF

/-- A device as the parser of the device tree hands it to its callback. -/
def ofNode (d : Device ℕ) : Discovered ℕ := { d with bus := 0, deviceNum := 0, function := 0 }

/-- An adapter between the parser and the user's callback: the next device number, and what the user's callback is
called with, if it is. -/
abbrev Adapter := Board → UInt8 → Discovered ℕ → UInt8 × Option (Discovered ℕ)

/-- The calls of the user's callback for the devices that the parser reports. -/
def adapt (probe : Adapter) (b : Board) : UInt8 → List (Device ℕ) → List (Discovered ℕ)
  | _, [] => []
  | num, d :: ds =>
    let (num, call) := probe b num (ofNode d)
    call.toList ++ adapt probe b num ds

/-- `devices_enumerate` of RISC-V and ARM64, with what they do not share. -/
def enumerateWithFdt (pcie : Pci.Scan ℕ → Pci.Scan ℕ) (probe : Adapter) (st : Statics) (b : Board) :
    Except Fdt.Stop Outcome :=
  let s := Pci.Scan.start b.config st.nextMmioAddress
  let s := if pciDetectEcam b.config then pcie s else s
  if b.fdtAddr ≠ 0 then do
    let (count, nodes) ← Fdt.enumerateDevices (Fdt.full b.mem) b.fdtAddr true
    return ⟨s.reported ++ adapt probe b st.nextMmioDeviceNum nodes, s.deviceCount + count⟩
  else return ⟨s.reported, s.deviceCount⟩

namespace Riscv

/-- `probe_virtio_callback`. -/
def probeVirtioCallback : Adapter := fun b num d =>
  if isVirtioMmio b.mem d.toDevice then
    match virtioMmioProbeDevice b.mmio d with
    | some d => (num + 1, some { d with bus := 0, deviceNum := num })
    | none => (num, none)
  else (num, some d)

/-- `devices_enumerate`. -/
def devicesEnumerate : Statics → Board → Except Fdt.Stop Outcome :=
  enumerateWithFdt Pci.Riscv.pcieEnumerateDevices probeVirtioCallback

end Riscv

namespace Arm64

/-- `probe_virtio_callback`. -/
def probeVirtioCallback : Adapter := fun b num d =>
  if isVirtioMmio b.mem d.toDevice then
    match virtioMmioProbeDevice b.mmio d with
    | some d => (num, some d)
    | none => (num, none)
  else (num, some d)

/-- `devices_enumerate`. -/
def devicesEnumerate : Statics → Board → Except Fdt.Stop Outcome :=
  enumerateWithFdt Pci.Arm64.pcieEnumerateDevices probeVirtioCallback

end Arm64

namespace Amd64

/-- The body of the loop of `devices_enumerate`. -/
def scanSlot (s : Pci.Scan ℕ) (bus device : ℕ) : Pci.Scan ℕ :=
  let vendor := s.machine.config.vendorId bus device
  if vendor = 0xFFFF then s
  else
    let bar0 := s.machine.config.read32 (bus, device, 0)
    let (s, barSize) := s.probe (bus, device, 0)
    s.report bus device (bar0 &&& 0xFFFFFFF0).toUInt64 barSize

/-- `devices_enumerate`. -/
def devicesEnumerate (b : Board) : Outcome :=
  let s := Pci.slots.foldl (fun s slot => scanSlot s slot.1 slot.2) (Pci.Scan.start b.config 0)
  ⟨s.reported, s.deviceCount⟩

end Amd64

/-- The architectures. -/
inductive Arch where
  | riscv
  | arm64
  | amd64
  deriving DecidableEq

/-- `devices_enumerate`. -/
def devicesEnumerate (st : Statics) (b : Board) : Arch → Except Fdt.Stop Outcome
  | .riscv => Riscv.devicesEnumerate st b
  | .arm64 => Arm64.devicesEnumerate st b
  | .amd64 => .ok (Amd64.devicesEnumerate b)

/-- `devices_scan`: the number it returns, and the registry it leaves. -/
def devicesScan (st : Statics) (b : Board) (arch : Arch) (r : Registry ℕ) : Option (ℤ × Registry ℕ) := do
  let out ← (devicesEnumerate st b arch).toOption
  let r ← r.addDevices out.calls
  let r ← r.buildTreeHierarchy
  return (out.returned, r)

/-! ### What is counted -/

/-- The devices that the parser finds in the device tree. -/
def fdtDevices (b : Board) : List (Device ℕ) :=
  match Fdt.enumerateDevices (Fdt.full b.mem) b.fdtAddr true with
  | .ok (_, nodes) => nodes
  | .error _ => []

/-- The adapter passes on every device but the `virtio,mmio` nodes without one. -/
def Passes (probe : Adapter) : Prop :=
  ∀ b num d, (probe b num d).2.isSome ↔ (isVirtioMmio b.mem d.toDevice → HasDevice b.mmio d.regBase)

theorem passes_riscv : Passes Riscv.probeVirtioCallback := by
  intro b num d
  rw [← isSome_virtioMmioProbeDevice, Riscv.probeVirtioCallback]
  split_ifs with h
  · cases virtioMmioProbeDevice b.mmio d <;> simp [h]
  · simp [h]

theorem passes_arm64 : Passes Arm64.probeVirtioCallback := by
  intro b num d
  rw [← isSome_virtioMmioProbeDevice, Arm64.probeVirtioCallback]
  split_ifs with h
  · cases virtioMmioProbeDevice b.mmio d <;> simp [h]
  · simp [h]

/-- The user's callback is called at most once for a device of the parser. -/
theorem length_adapt_le (probe : Adapter) (b : Board) (num : UInt8) (ds : List (Device ℕ)) :
    (adapt probe b num ds).length ≤ ds.length := by
  induction ds generalizing num with
  | nil => exact le_refl _
  | cons d ds ih =>
    have hrest := ih (probe b num (ofNode d)).1
    have hone := Option.length_toList_le (o := (probe b num (ofNode d)).2)
    rw [adapt, List.length_append, List.length_cons]
    omega

/-- It is called for all of them exactly if all are passed on. -/
theorem length_adapt_eq_iff {probe : Adapter} (hprobe : Passes probe) (b : Board) (num : UInt8) (ds : List (Device ℕ)) :
    (adapt probe b num ds).length = ds.length ↔ ∀ d ∈ ds, isVirtioMmio b.mem d → HasDevice b.mmio d.regBase := by
  induction ds generalizing num with
  | nil => simp [adapt]
  | cons d ds ih =>
    have hle := length_adapt_le probe b (probe b num (ofNode d)).1 ds
    have hpass : (probe b num (ofNode d)).2.isSome ↔ (isVirtioMmio b.mem d → HasDevice b.mmio d.regBase) :=
      hprobe b num (ofNode d)
    rw [adapt, List.length_append, List.length_cons, List.forall_mem_cons, ← hpass, ← ih (probe b num (ofNode d)).1]
    cases (probe b num (ofNode d)).2 with
    | none =>
      simp only [Option.toList_none, List.length_nil, Option.isSome_none, Bool.false_eq_true, false_and, iff_false]
      omega
    | some call =>
      simp only [Option.toList_some, List.length_singleton, Option.isSome_some, true_and]
      omega

/-- The header of the device tree is valid, and its `virtio,mmio` nodes have devices. -/
def AllFound (b : Board) : Prop :=
  Fdt.HeaderValid b.mem b.fdtAddr ∧ ∀ d ∈ fdtDevices b, isVirtioMmio b.mem d → HasDevice b.mmio d.regBase

/-- An enumeration with a device tree returns; when it returns the number of its calls. -/
theorem enumerateWithFdt_spec {pcie : Pci.Scan ℕ → Pci.Scan ℕ} {probe : Adapter}
    (hpcie : ∀ s : Pci.Scan ℕ, s.Counted → (pcie s).Counted) (hprobe : Passes probe) (st : Statics) (b : Board) :
    ∃ out, enumerateWithFdt pcie probe st b = .ok out ∧
      (out.returned = out.calls.length ↔ b.fdtAddr = 0 ∨ AllFound b) := by
  have hstart : (Pci.Scan.start b.config st.nextMmioAddress : Pci.Scan ℕ).Counted := rfl
  have hscan : (if pciDetectEcam b.config then pcie (Pci.Scan.start b.config st.nextMmioAddress)
      else Pci.Scan.start b.config st.nextMmioAddress).Counted := by
    split_ifs
    · exact hpcie _ hstart
    · exact hstart
  rw [enumerateWithFdt]
  generalize (if pciDetectEcam b.config then pcie (Pci.Scan.start b.config st.nextMmioAddress)
      else Pci.Scan.start b.config st.nextMmioAddress) = s at hscan
  have hcount : s.deviceCount = s.reported.length := hscan
  by_cases haddr : b.fdtAddr = 0
  · exact ⟨⟨s.reported, s.deviceCount⟩, by simp [haddr, pure, Except.pure], iff_of_true hcount (Or.inl haddr)⟩
  · have hparser : Fdt.Returns (Fdt.enumerateDevices (Fdt.full b.mem) b.fdtAddr true) _ :=
      Fdt.returns_enumerateDevices haddr
    obtain ⟨⟨count, nodes⟩, hrun, hvalid, hinvalid⟩ := hparser
    have hnodes : fdtDevices b = nodes := by rw [fdtDevices, hrun]
    refine ⟨⟨s.reported ++ adapt probe b st.nextMmioDeviceNum nodes, s.deviceCount + count⟩, ?_, ?_⟩
    · rw [if_pos haddr, hrun]
      rfl
    · have hlen := length_adapt_eq_iff hprobe b st.nextMmioDeviceNum nodes
      have hiff : s.deviceCount + count = (s.reported ++ adapt probe b st.nextMmioDeviceNum nodes).length ↔
          count = (adapt probe b st.nextMmioDeviceNum nodes).length := by
        rw [List.length_append, hcount]
        omega
      rw [hiff, AllFound, hnodes, ← hlen]
      by_cases hheader : Fdt.HeaderValid b.mem b.fdtAddr
      · have hcount := hvalid hheader
        simp only at hcount
        simp only [haddr, hheader, true_and, false_or]
        omega
      · obtain ⟨rfl, rfl⟩ := Prod.mk.inj (hinvalid hheader)
        refine iff_of_false ?_ (by simp [haddr, hheader])
        simp [adapt]

/-- The number that `devices_enumerate` returns is the number of its calls, and if there are at most 128 of them,
`devices_scan` returns the number of devices that it has added to the registry. -/
def CountsCalls (st : Statics) (b : Board) (arch : Arch) : Prop :=
  ∃ out r, devicesEnumerate st b arch = .ok out ∧ devicesScan st b arch Registry.empty = some (out.returned, r) ∧
    out.returned = out.calls.length ∧ (out.calls.length ≤ 128 → out.returned = r.deviceCount)

theorem devicesScan_of_ok {st : Statics} {b : Board} {arch : Arch} {out : Outcome}
    (h : devicesEnumerate st b arch = .ok out) :
    ∃ r, devicesScan st b arch Registry.empty = some (out.returned, r) ∧ r.deviceCount = min 128 out.calls.length := by
  obtain ⟨r, hbuild, hcount⟩ := Registry.deviceCount_of_devices out.calls
  obtain ⟨r₀, hadd, hbuild⟩ := Option.bind_eq_some_iff.1 hbuild
  refine ⟨r, ?_, hcount⟩
  rw [devicesScan, h]
  simp [Except.toOption, hadd, hbuild]

theorem countsCalls_of_ok {st : Statics} {b : Board} {arch : Arch} {out : Outcome}
    (h : devicesEnumerate st b arch = .ok out) : CountsCalls st b arch ↔ out.returned = out.calls.length := by
  obtain ⟨r, hscan, hcount⟩ := devicesScan_of_ok h
  constructor
  · rintro ⟨out', r', hout, -, hcalls, -⟩
    obtain rfl := Except.ok.inj (h.symm.trans hout)
    exact hcalls
  · intro hcalls
    refine ⟨out, r, h, hscan, hcalls, fun hle => ?_⟩
    rw [hcalls, hcount, Nat.min_eq_right hle]

theorem counted_amd64 (b : Board) : (Amd64.devicesEnumerate b).returned = (Amd64.devicesEnumerate b).calls.length := by
  have hscan : (Pci.slots.foldl (fun s slot => Amd64.scanSlot s slot.1 slot.2) (Pci.Scan.start b.config 0)).Counted := by
    apply Pci.foldl_slots (P := fun _ (s : Pci.Scan ℕ) => s.Counted)
    · rfl
    · intro _ slot s _ h
      simp only [Amd64.scanSlot, Pci.Scan.probe_fst]
      split_ifs
      · exact h
      · exact Pci.Scan.Counted.report h _ _ _ _
  rw [Pci.Scan.Counted] at hscan
  rw [Amd64.devicesEnumerate, hscan]

/-- No device on the PCI buses. -/
def noPci : Pci.Config where
  vendorId _ _ := 0xFFFF
  deviceId _ _ := 0xFFFF
  command _ _ := 0xFFFF
  bar _ := ⟨.absent, 0, rfl⟩

/-- The memory at the address of the device tree is zero. -/
def badMagic : Board := ⟨noPci, fun _ => 0, fun _ => 0, 4096⟩

theorem zero_not_mem_regName : (0 : UInt8) ∉ Fdt.regName := by decide

theorem zero_not_mem_compatibleName : (0 : UInt8) ∉ Fdt.compatibleName := by decide

/-- A `virtio,mmio` node without a name, with registers at `0x0a000000`. -/
def virtioSlot : Fdt.Node :=
  ⟨0, Fdt.plain.name,
    [.prop ⟨Fdt.regName, zero_not_mem_regName⟩ 0 [0, 0, 0, 0, 10, 0, 0, 0, 0, 0, 0, 0, 0, 0, 2, 0],
      .prop ⟨Fdt.compatibleName, zero_not_mem_compatibleName⟩ 4 (virtioMmioName ++ [0])], 0⟩

/-- A device tree with that node, and one without properties. -/
def virtioTree : Fdt.Tree := ⟨Fdt.plain, .node virtioSlot .nil (.node Fdt.plain .nil .nil), 0⟩

/-- Registers of a slot with no device in it: the magic number and the version, and device 0. -/
def emptySlot : Board :=
  ⟨noPci, Fdt.image (virtioTree.header.bytes ++ virtioTree.bytes ++ Fdt.nameStrings),
    fun p => if p = 0x0a000000 then 0x74726976 else if p = 0x0a000004 then 1 else 0, 4096⟩

end Yasouos.Kernel
