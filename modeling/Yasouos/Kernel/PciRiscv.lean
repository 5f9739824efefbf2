import Yasouos.Kernel.PciScan

/-!
# The PCI scan of RISC-V

`kernel/devices/devices_riscv.c`: every memory BAR 0, 1 and 4 of a device gets a new address from a
window of 256 MB, whatever was in it. The allocator rounds up to the size of the BAR, and does
nothing if the range would leave the window.

## The model

`pciAssignBarIfNeeded` works on 64-bit and 32-bit words as the source does; `pciProcessDevice` is
the body of the double loop, with the registers probed again where the source prints them.

## What is proved

A call takes the next aligned range (`pciAssignBarIfNeeded_of_fits`) or, if that does not fit,
leaves everything as it was (`pciAssignBarIfNeeded_of_not`). Over a whole scan the ranges are
aligned, do not overlap and stay in the window: `assigned_of_pcieEnumerateDevices`.
-/

namespace Yasouos.Kernel.Pci.Riscv

open Yasouos.Theory

/-- `PCI_MMIO_BASE`. -/
abbrev pciMmioBase : UInt64 := 0x40000000

/-- `PCI_MMIO_SIZE`. -/
abbrev pciMmioSize : UInt64 := 0x10000000

/-- `pci_assign_bar_if_needed`. -/
def pciAssignBarIfNeeded : Assign := fun p barSize m =>
  let barValue := m.config.read32 p
  if barValue &&& 0x1 ≠ 0 then (m, barValue)
  else if barSize = 0 then (m, barValue)
  else if m.next + barSize > pciMmioBase + pciMmioSize then (m, barValue)
  else
    let alignedAddress := (m.next + (barSize - 1)) &&& ~~~(barSize - 1)
    if alignedAddress + barSize > pciMmioBase + pciMmioSize then (m, barValue)
    else
      let newBar := alignedAddress.toUInt32 ||| (barValue &&& 0xF)
      (⟨m.config.write32 p newBar, alignedAddress + barSize⟩, newBar)

/-- `pci_bar_is_io`. -/
def pciBarIsIo (barValue : UInt32) : Bool := barValue &&& 0x1 != 0

/-- `pci_bar_get_address`. -/
def pciBarGetAddress (barValue : UInt32) : UInt64 :=
  if pciBarIsIo barValue then (barValue &&& 0xFFFFFFFC).toUInt64 else (barValue &&& 0xFFFFFFF0).toUInt64

/-- `pci_vendor_is_valid`. -/
def pciVendorIsValid (vendorId : UInt16) : Bool := vendorId != 0x0000 && vendorId != 0xFFFF

/-- `pci_bar_info_t`. -/
structure BarInfo where
  barValue : UInt32
  barSize : UInt64

section Scan

variable {Str : Type}

/-- `pci_read_bar`. -/
def pciReadBar (s : Scan Str) (p : Place) : Scan Str × BarInfo :=
  let (s, barSize) := s.probe p
  (s, ⟨s.machine.config.read32 p, barSize⟩)

/-- `pci_print_all_bars`: what is printed is left out, but not the probing. -/
def pciPrintAllBars (bus device : ℕ) (s : Scan Str) : Scan Str :=
  (List.range 6).foldl (fun s i => (pciReadBar s (bus, device, i)).1) s

/-- The assignment of one of the three BARs. -/
def assignBar (s : Scan Str) (p : Place) (bar : BarInfo) : Scan Str × BarInfo :=
  if bar.barSize > 0 then
    let (s, barValue) := s.ask pciAssignBarIfNeeded p bar.barSize
    (s, { bar with barValue })
  else (s, bar)

/-- `pci_select_bar_for_device`: the base address and the size. -/
def pciSelectBarForDevice (vendorId : UInt16) (bar0 bar1 bar4 : BarInfo) : UInt64 × UInt64 :=
  if vendorId = 0x1AF4 ∧ pciBarIsIo bar0.barValue then (pciBarGetAddress bar4.barValue, bar4.barSize)
  else if pciBarIsIo bar0.barValue ∧ bar1.barSize > 0 ∧ ¬ pciBarIsIo bar1.barValue then
    (pciBarGetAddress bar1.barValue, bar1.barSize)
  else (pciBarGetAddress bar0.barValue, bar0.barSize)

/-- `pci_process_device`. -/
def pciProcessDevice (bus device : ℕ) (s : Scan Str) : Scan Str :=
  let vendorId := s.machine.config.vendorId bus device
  if pciVendorIsValid vendorId then
    let (s, bar0) := pciReadBar s (bus, device, 0)
    let (s, bar1) := pciReadBar s (bus, device, 1)
    let (s, bar4) := pciReadBar s (bus, device, 4)
    let (s, bar0) := assignBar s (bus, device, 0) bar0
    let (s, bar1) := assignBar s (bus, device, 1) bar1
    let (s, bar4) := assignBar s (bus, device, 4) bar4
    let s := pciPrintAllBars bus device s
    let (base, size) := pciSelectBarForDevice vendorId bar0 bar1 bar4
    s.report bus device base size
  else s

/-- `pcie_enumerate_devices`. -/
def pcieEnumerateDevices (s : Scan Str) : Scan Str := slots.foldl (fun s slot => pciProcessDevice slot.1 slot.2 s) s

end Scan

/-! ### One request -/

/-- The end of the window. -/
abbrev windowEnd : ℕ := 0x50000000

theorem local_pciAssignBarIfNeeded : Local pciAssignBarIfNeeded := by
  apply Local.of_write32
  intro p size m
  simp only [pciAssignBarIfNeeded]
  split_ifs
  all_goals first
    | exact Or.inl rfl
    | exact Or.inr ⟨_, rfl⟩

/-- The address that the source computes is the next multiple of the size. -/
theorem toNat_alignedAddress {next size : UInt64} {k : ℕ} (hk : k < 32) (hnext : next.toNat ≤ windowEnd)
    (hsize : size.toNat = 2 ^ k) :
    ((next + (size - 1)) &&& ~~~(size - 1)).toNat = roundUp next.toNat (2 ^ k) := by
  have hlt : 2 ^ k < 2 ^ 32 := Nat.pow_lt_pow_right (by omega) hk
  have hpos : 0 < 2 ^ k := Nat.two_pow_pos k
  have hone : (1 : UInt64).toNat = 1 := rfl
  have hmask : (size - 1).toNat = 2 ^ k - 1 := by
    rw [UInt64.toNat_sub_of_le _ _ (by rw [UInt64.le_iff_toNat_le, hone, hsize]; exact hpos), hsize, hone]
  have hsum : (next + (size - 1)).toNat = next.toNat + (2 ^ k - 1) := by
    rw [UInt64.toNat_add, hmask]
    simp only [windowEnd] at hnext
    omega
  rw [and_not_mask64 _ hmask, hsum, roundUp]

/-- The request of a size can be met from the mark `next` on. -/
def Fits (next size : ℕ) : Prop := roundUp next size + size ≤ windowEnd

/-- A request that is for memory and can be met is met by the next aligned range. -/
theorem pciAssignBarIfNeeded_of_fits {m : Machine} {p : Place} {size : UInt64} (hnext : m.next.toNat ≤ windowEnd)
    (hsize : size.toNat = (m.config.bar p).kind.size) (hmem : (m.config.read32 p).toNat % 2 = 0)
    (hpos : 0 < size.toNat) (hfits : Fits m.next.toNat size.toNat) :
    ∃ config bar next, pciAssignBarIfNeeded p size m = (⟨config, next⟩, bar) ∧ config.read32 p = bar ∧
      next.toNat = roundUp m.next.toNat size.toNat + size.toNat ∧
      bar.toNat = roundUp m.next.toNat size.toNat + (m.config.read32 p).toNat % 16 ∧
      16 ∣ roundUp m.next.toNat size.toNat := by
  obtain ⟨k, hk4, hk, hkind, hlatch⟩ := (m.config.bar p).size_of_even hmem (by omega)
  rw [hkind] at hsize
  have haligned := toNat_alignedAddress hk hnext hsize
  have hup := le_roundUp m.next.toNat hpos
  generalize haddr : (m.next + (size - 1)) &&& ~~~(size - 1) = addr at haligned
  rw [← hsize] at haligned
  rw [Fits] at hfits
  simp only [windowEnd] at hfits
  have hend : (pciMmioBase + pciMmioSize).toNat = 0x50000000 := rfl
  have hfirst : (m.next + size).toNat = m.next.toNat + size.toNat := by
    rw [UInt64.toNat_add]
    omega
  have hsecond : (addr + size).toNat = roundUp m.next.toNat size.toNat + size.toNat := by
    rw [UInt64.toNat_add, haligned]
    omega
  have hpass : ¬ m.next + size > pciMmioBase + pciMmioSize := by
    rw [gt_iff_lt, UInt64.lt_iff_toNat_lt, hend, hfirst]
    omega
  have hpass' : ¬ addr + size > pciMmioBase + pciMmioSize := by
    rw [gt_iff_lt, UInt64.lt_iff_toNat_lt, hend, hsecond]
    omega
  have haddr32 : addr.toUInt32.toNat = roundUp m.next.toNat size.toNat := by
    rw [UInt64.toNat_toUInt32, haligned]
    omega
  have hdvd : 2 ^ k ∣ roundUp m.next.toNat size.toNat := hsize ▸ dvd_roundUp _ _
  have hzero : size ≠ 0 := by
    rintro rfl
    exact absurd hpos (by decide)
  refine ⟨m.config.write32 p (addr.toUInt32 ||| (m.config.read32 p &&& 0xF)),
    addr.toUInt32 ||| (m.config.read32 p &&& 0xF), addr + size, ?_, ?_, hsecond, ?_, (sixteen_dvd hk4).trans hdvd⟩
  · simp only [pciAssignBarIfNeeded, (and_one_eq_zero_iff _).2 hmem, hzero, hpass, haddr, hpass', ne_eq,
      not_true_eq_false, if_false]
  · rw [Config.read32_write32_self]
    exact hlatch _ (haddr32 ▸ hdvd)
  · rw [toNat_or_of_dvd (k := 4) (by rw [haddr32]; exact (sixteen_dvd hk4).trans hdvd)
      (by rw [toNat_and_type]; omega), haddr32, toNat_and_type]

/-- Any other request has no effect. -/
theorem pciAssignBarIfNeeded_of_not {m : Machine} {p : Place} {size : UInt64} (hnext : m.next.toNat ≤ windowEnd)
    (hsize : size.toNat = (m.config.bar p).kind.size)
    (hno : ¬ ((m.config.read32 p).toNat % 2 = 0 ∧ 0 < size.toNat ∧ Fits m.next.toNat size.toNat)) :
    pciAssignBarIfNeeded p size m = (m, m.config.read32 p) := by
  by_cases hmem : (m.config.read32 p).toNat % 2 = 0
  swap
  · rw [← and_one_eq_zero_iff] at hmem
    exact if_pos hmem
  by_cases hzero : size = 0
  · simp only [pciAssignBarIfNeeded, hzero, if_true]
    split_ifs <;> rfl
  have hpos : size.toNat ≠ 0 := fun h => hzero (UInt64.toNat_inj.1 h)
  obtain ⟨k, -, hk, hkind, -⟩ := (m.config.bar p).size_of_even hmem (hsize ▸ hpos)
  rw [hkind] at hsize
  have hlt : 2 ^ k < 2 ^ 32 := Nat.pow_lt_pow_right (by omega) hk
  have haligned := toNat_alignedAddress hk hnext hsize
  have hdown := roundUp_lt m.next.toNat (Nat.two_pow_pos k)
  have hend : (pciMmioBase + pciMmioSize).toNat = windowEnd := rfl
  have hfull : ¬ Fits m.next.toNat size.toNat := fun h => hno ⟨hmem, by omega, h⟩
  rw [Fits, hsize] at hfull
  -- the second check fails, whatever the first one says
  have hfail : ((m.next + (size - 1)) &&& ~~~(size - 1)) + size > pciMmioBase + pciMmioSize := by
    rw [gt_iff_lt, UInt64.lt_iff_toNat_lt, hend, UInt64.toNat_add, hsize, haligned]
    simp only [windowEnd] at hnext hfull ⊢
    omega
  simp only [pciAssignBarIfNeeded, hfail, if_true]
  split_ifs <;> rfl

/-! ### The invariant -/

/-- What the allocator keeps. -/
structure Allocated {Str : Type} (s : Scan Str) : Prop where
  stacked : Stacked pciMmioBase.toNat s.machine.next.toNat (assignedRanges s.requests)
  below : s.machine.next.toNat ≤ windowEnd
  assigned_iff : ∀ r ∈ s.requests, r.assigned ↔ r.before.toNat % 2 = 0 ∧ 0 < r.size ∧ Fits r.nextBefore r.size
  returned : ∀ r ∈ s.requests, r.returned = r.after
  aligned : ∀ r ∈ s.requests, r.assigned → r.size ∣ r.given.base
  type : ∀ r ∈ s.requests, r.assigned → r.after &&& 0xF = r.before &&& 0xF
  idle : ∀ r ∈ s.requests, ¬ r.assigned → r.after = r.before ∧ r.nextAfter = r.nextBefore

namespace Allocated

variable {Str : Type} {s : Scan Str}

theorem start (config : Config) : Allocated (Scan.start config pciMmioBase : Scan Str) where
  stacked := Stacked.nil _
  below := (by decide : pciMmioBase.toNat ≤ windowEnd)
  assigned_iff := by simp [Scan.start]
  returned := by simp [Scan.start]
  aligned := by simp [Scan.start]
  type := by simp [Scan.start]
  idle := by simp [Scan.start]

theorem report (h : Allocated s) (bus device : ℕ) (regBase regSize : UInt64) :
    Allocated (s.report bus device regBase regSize) := ⟨h.1, h.2, h.3, h.4, h.5, h.6, h.7⟩

/-- A request that is met. -/
theorem record_of_fits (h : Allocated s) {p : Place} {size next : UInt64} {config : Config} {bar : UInt32}
    (hmem : (s.machine.config.read32 p).toNat % 2 = 0) (hpos : 0 < size.toNat)
    (hfits : Fits s.machine.next.toNat size.toNat) (hread : config.read32 p = bar)
    (hnext : next.toNat = roundUp s.machine.next.toNat size.toNat + size.toNat)
    (hbar : bar.toNat = roundUp s.machine.next.toNat size.toNat + (s.machine.config.read32 p).toNat % 16)
    (h16 : 16 ∣ roundUp s.machine.next.toNat size.toNat) :
    Allocated (s.record p size (⟨config, next⟩, bar)) := by
  set r := Request.mkOf p size s.machine (⟨config, next⟩, bar) with hr
  have hrequests : (s.record p size (⟨config, next⟩, bar)).requests = s.requests ++ [r] := rfl
  have hup := le_roundUp s.machine.next.toNat hpos
  have hyes : r.assigned := by
    rw [Request.assigned, bne_iff_ne]
    change next.toNat ≠ s.machine.next.toNat
    omega
  have hbase : r.given.base = roundUp s.machine.next.toNat size.toNat := by
    change (bar &&& 0xFFFFFFF0).toNat = _
    rw [toNat_and_address, hbar]
    omega
  have hstop : next.toNat = r.given.stop := by
    rw [Range.stop, hbase]
    exact hnext
  refine ⟨?_, hnext.trans_le hfits, ?_, ?_, ?_, ?_, ?_⟩
  · change Stacked _ next.toNat _
    rw [hrequests, assignedRanges_append, if_pos hyes, hstop]
    exact h.stacked.push (hbase ▸ hup)
  · exact Scan.forall_requests_record.2 ⟨h.assigned_iff, iff_of_true hyes ⟨hmem, hpos, hfits⟩⟩
  · exact Scan.forall_requests_record.2 ⟨h.returned, hread.symm⟩
  · exact Scan.forall_requests_record.2 ⟨h.aligned, fun _ => hbase ▸ dvd_roundUp _ _⟩
  · refine Scan.forall_requests_record.2 ⟨h.type, fun _ => ?_⟩
    change config.read32 p &&& 0xF = s.machine.config.read32 p &&& 0xF
    apply UInt32.toNat_inj.1
    rw [toNat_and_type, toNat_and_type, hread, hbar]
    omega
  · exact Scan.forall_requests_record.2 ⟨h.idle, fun hno => absurd hyes hno⟩

/-- A request that changes nothing. -/
theorem record_of_not (h : Allocated s) {p : Place} {size : UInt64}
    (hno : ¬ ((s.machine.config.read32 p).toNat % 2 = 0 ∧ 0 < size.toNat ∧ Fits s.machine.next.toNat size.toNat)) :
    Allocated (s.record p size (s.machine, s.machine.config.read32 p)) := by
  set r := Request.mkOf p size s.machine (s.machine, s.machine.config.read32 p) with hr
  have hrequests : (s.record p size (s.machine, s.machine.config.read32 p)).requests = s.requests ++ [r] := rfl
  have hidle : ¬ r.assigned := by
    simp [hr, Request.mkOf, Request.assigned]
  refine ⟨?_, h.below, ?_, ?_, ?_, ?_, ?_⟩
  · rw [hrequests, assignedRanges_append, if_neg hidle]
    exact h.stacked
  · exact Scan.forall_requests_record.2 ⟨h.assigned_iff, iff_of_false hidle hno⟩
  · exact Scan.forall_requests_record.2 ⟨h.returned, rfl⟩
  · exact Scan.forall_requests_record.2 ⟨h.aligned, fun hyes => absurd hyes hidle⟩
  · exact Scan.forall_requests_record.2 ⟨h.type, fun hyes => absurd hyes hidle⟩
  · exact Scan.forall_requests_record.2 ⟨h.idle, fun _ => ⟨rfl, rfl⟩⟩

/-- One request. -/
theorem ask (h : Allocated s) {p : Place} {size : UInt64}
    (hsize : size.toNat = (s.machine.config.bar p).kind.size) : Allocated (s.ask pciAssignBarIfNeeded p size).1 := by
  change Allocated (s.record p size (pciAssignBarIfNeeded p size s.machine))
  by_cases hmet : (s.machine.config.read32 p).toNat % 2 = 0 ∧ 0 < size.toNat ∧ Fits s.machine.next.toNat size.toNat
  · obtain ⟨hmem, hpos, hfits⟩ := hmet
    obtain ⟨config, bar, next, hrun, hread, hnext, hbar, h16⟩ :=
      pciAssignBarIfNeeded_of_fits h.below hsize hmem hpos hfits
    rw [hrun]
    exact h.record_of_fits hmem hpos hfits hread hnext hbar h16
  · rw [pciAssignBarIfNeeded_of_not h.below hsize hmet]
    exact h.record_of_not hmet

end Allocated

/-! ### The scan -/

/-- The registers of a slot that are asked for. -/
def wanted (config : Config) (slot : ℕ × ℕ) : List Place :=
  if pciVendorIsValid (config.vendorId slot.1 slot.2) then
    ([0, 1, 4].map fun i => (slot.1, slot.2, i)).filter fun p => 0 < (config.bar p).kind.size
  else []

theorem slot_of_mem_wanted {config : Config} {slot : ℕ × ℕ} {p : Place} (h : p ∈ wanted config slot) :
    (p.1, p.2.1) = slot := by
  rw [wanted] at h
  split_ifs at h
  · obtain ⟨hmem, -⟩ := List.mem_filter.1 h
    obtain ⟨i, -, rfl⟩ := List.mem_map.1 hmem
    rfl
  · exact absurd h List.not_mem_nil

section Scan

variable {Str : Type} {config : Config} {asked : List Place} {s : Scan Str}

@[simp] theorem pciReadBar_fst (s : Scan Str) (p : Place) : (pciReadBar s p).1 = s := by
  simp [pciReadBar]

@[simp] theorem pciPrintAllBars_eq (bus device : ℕ) (s : Scan Str) : pciPrintAllBars bus device s = s := by
  simp [pciPrintAllBars, List.range_succ]

/-- Both invariants. -/
structure Inv (config : Config) (asked : List Place) (s : Scan Str) : Prop where
  tracks : Tracks config asked s
  allocated : Allocated s

theorem toNat_pciReadBar (h : Inv config asked s) (p : Place) :
    (pciReadBar s p).2.barSize.toNat = (config.bar p).kind.size := by
  rw [← h.tracks.kind p]
  exact s.toNat_probe_snd p

theorem assignBar_fst (s : Scan Str) (p : Place) (bar : BarInfo) :
    (assignBar s p bar).1 =
      if 0 < bar.barSize.toNat then (s.ask pciAssignBarIfNeeded p bar.barSize).1 else s := by
  rw [assignBar, apply_ite Prod.fst]
  rfl

/-- One of the three registers. -/
theorem inv_assignBar (h : Inv config asked s) {p : Place} {bar : BarInfo}
    (hsize : bar.barSize.toNat = (config.bar p).kind.size) (hfresh : p ∉ asked) :
    Inv config (asked ++ [p].filter fun q => 0 < (config.bar q).kind.size) (assignBar s p bar).1 := by
  rw [assignBar_fst, hsize]
  by_cases hpos : 0 < (config.bar p).kind.size
  · rw [if_pos hpos, List.filter_eq_self.2 (by simpa using hpos)]
    exact ⟨h.tracks.ask local_pciAssignBarIfNeeded hfresh hsize, h.allocated.ask (by rw [hsize, h.tracks.kind])⟩
  · rw [if_neg hpos, List.filter_eq_nil_iff.2 (by simpa using hpos), List.append_nil]
    exact h

/-- A device of a valid vendor: its three registers, and the report. -/
theorem pciProcessDevice_of_valid {bus device : ℕ} (s : Scan Str)
    (hvalid : pciVendorIsValid (s.machine.config.vendorId bus device)) :
    ∃ base size, pciProcessDevice bus device s =
      (assignBar (assignBar (assignBar s (bus, device, 0) (pciReadBar s (bus, device, 0)).2).1
        (bus, device, 1) (pciReadBar s (bus, device, 1)).2).1
        (bus, device, 4) (pciReadBar s (bus, device, 4)).2).1.report bus device base size := by
  simp only [pciProcessDevice, hvalid, if_true, pciReadBar_fst, pciPrintAllBars_eq]
  exact ⟨_, _, rfl⟩

/-- The scan counts the devices as it reports them. -/
theorem counted_pcieEnumerateDevices (h : s.Counted) : (pcieEnumerateDevices s).Counted := by
  rw [pcieEnumerateDevices]
  apply foldl_slots (P := fun _ (s : Scan Str) => s.Counted) h
  intro _ slot s _ h
  by_cases hvalid : pciVendorIsValid (s.machine.config.vendorId slot.1 slot.2)
  · obtain ⟨base, size, hrun⟩ := pciProcessDevice_of_valid s hvalid
    rw [hrun]
    apply Scan.Counted.report
    simp only [Scan.Counted, assignBar_fst]
    split_ifs <;> exact h
  · rw [pciProcessDevice, if_neg hvalid]
    exact h

/-- One slot. -/
theorem inv_pciProcessDevice {visited : List (ℕ × ℕ)} {slot : ℕ × ℕ} (hslot : slot ∉ visited)
    (h : Inv config (visited.flatMap (wanted config)) s) :
    Inv config ((visited ++ [slot]).flatMap (wanted config)) (pciProcessDevice slot.1 slot.2 s) := by
  have hfresh : ∀ i, (slot.1, slot.2, i) ∉ visited.flatMap (wanted config) := by
    intro i hmem
    obtain ⟨old, hold, hin⟩ := List.mem_flatMap.1 hmem
    obtain rfl := slot_of_mem_wanted hin
    exact hslot hold
  have hother : ∀ {i j : ℕ}, i ≠ j → (slot.1, slot.2, i) ∉ [(slot.1, slot.2, j)].filter fun q =>
      decide (0 < (config.bar q).kind.size) := by
    intro i j hne hmem
    rw [List.mem_filter, List.mem_singleton] at hmem
    exact hne (congrArg (fun q : Place => q.2.2) hmem.1)
  rw [List.flatMap_append, List.flatMap_singleton]
  by_cases hvalid : pciVendorIsValid (config.vendorId slot.1 slot.2)
  · have hread := toNat_pciReadBar h
    have h0 := inv_assignBar h (hread (slot.1, slot.2, 0)) (hfresh 0)
    have h1 := inv_assignBar h0 (hread (slot.1, slot.2, 1)) (by
      rw [List.mem_append, not_or]
      exact ⟨hfresh 1, hother (by decide)⟩)
    have h4 := inv_assignBar h1 (hread (slot.1, slot.2, 4)) (by
      rw [List.mem_append, List.mem_append, not_or, not_or]
      exact ⟨⟨hfresh 4, hother (by decide)⟩, hother (by decide)⟩)
    obtain ⟨base, size, hrun⟩ := pciProcessDevice_of_valid s (by rwa [h.tracks.ids])
    rw [List.append_assoc, List.append_assoc, ← List.filter_append, ← List.filter_append] at h4
    rw [hrun, wanted, if_pos hvalid]
    exact ⟨h4.tracks.report _ _ _ _, h4.allocated.report _ _ _ _⟩
  · rw [pciProcessDevice, wanted, h.tracks.ids, if_neg hvalid, if_neg hvalid, List.append_nil]
    exact h

/-- The scan from the reset state of the allocator. -/
def scanned (Str : Type) (config : Config) : Scan Str := pcieEnumerateDevices (Scan.start config pciMmioBase)

theorem inv_scanned (Str : Type) (config : Config) :
    Inv config (slots.flatMap (wanted config)) (scanned Str config) := by
  rw [scanned, pcieEnumerateDevices]
  apply foldl_slots (P := fun visited s => Inv config (visited.flatMap (wanted config)) s)
  · exact ⟨Tracks.start config _, Allocated.start config⟩
  · intro visited slot s hslot h
    exact inv_pciProcessDevice hslot h

end Scan

/-! ### What a scan hands out -/

/-- Every register of the devices that is not empty is asked for once. A request for memory that
fits in the window, and no other, is met by a range of addresses that is aligned to its size; the
type bits stay. The ranges lie in the window and below `next_mmio_address`, and do not overlap. -/
theorem assigned_of_pcieEnumerateDevices (Str : Type) (config : Config) :
    (scanned Str config).requests.map Request.place = slots.flatMap (wanted config) ∧
    (∀ r ∈ (scanned Str config).requests, r.size = (config.bar r.place).kind.size ∧
      r.before = config.read32 r.place ∧ r.after = (scanned Str config).machine.config.read32 r.place ∧
      r.returned = r.after ∧ (r.assigned ↔ r.before.toNat % 2 = 0 ∧ 0 < r.size ∧ Fits r.nextBefore r.size)) ∧
    (∀ r ∈ (scanned Str config).requests, r.assigned → r.size ∣ r.given.base ∧
      0x40000000 ≤ r.given.base ∧ r.given.stop ≤ 0x50000000 ∧
      r.given.stop ≤ (scanned Str config).machine.next.toNat ∧ r.after &&& 0xF = r.before &&& 0xF) ∧
    (assignedRanges (scanned Str config).requests).Pairwise Range.Apart ∧
    (∀ r ∈ (scanned Str config).requests, ¬ Fits r.nextBefore r.size →
      r.after = r.before ∧ r.nextAfter = r.nextBefore) := by
  obtain ⟨htracks, halloc⟩ := inv_scanned Str config
  refine ⟨htracks.places, ?_, ?_, halloc.stacked.apart, ?_⟩
  · intro r hr
    exact ⟨htracks.size r hr, (htracks.preset r hr).symm, (htracks.current r hr).symm, halloc.returned r hr,
      halloc.assigned_iff r hr⟩
  · intro r hr hyes
    have hmem : r.given ∈ assignedRanges (scanned Str config).requests :=
      List.mem_map_of_mem (List.mem_filter.2 ⟨hr, hyes⟩)
    obtain ⟨hlo, hhi⟩ := halloc.stacked.inside _ hmem
    exact ⟨halloc.aligned r hr hyes, hlo, hhi.trans halloc.below, hhi, halloc.type r hr hyes⟩
  · intro r hr hno
    apply halloc.idle r hr
    intro hyes
    exact hno ((halloc.assigned_iff r hr).1 hyes).2.2

end Yasouos.Kernel.Pci.Riscv
