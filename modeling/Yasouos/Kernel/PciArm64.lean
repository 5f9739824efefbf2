import Yasouos.Kernel.PciScan
import Yasouos.Theory.Trace

/-!
# The PCI scan of ARM64

`kernel/devices/devices_arm64.c`: a memory BAR 0 or 1 that holds no address gets one from a window of
256 MB, and one that holds an address keeps it. Unlike on RISC-V, the next address is not rounded up
to the size of the BAR.

## The model

`pciAssignBarIfNeeded` works on words as the source does; `scanSlot` is the body of the double loop.

## What is proved

The calls of a scan depend on the sizes and the values of the registers only: `log_scanned` says
that they are the log of a loop which just adds up sizes. The addresses that are handed out never
overlap and stay in the window. They are aligned, and clear of the registers that were kept, exactly
if the sizes come in an order that makes it so: `usable_scanned_iff`. A BAR of 16 bytes before one
of 4096 is enough to break it.
-/

namespace Yasouos.Kernel.Pci.Arm64

open Yasouos.Theory

/-- `PCI_MMIO_BASE`. -/
abbrev pciMmioBase : UInt64 := 0x10000000

/-- `PCI_MMIO_SIZE`. -/
abbrev pciMmioSize : UInt64 := 0x10000000

/-- `pci_assign_bar_if_needed`. -/
def pciAssignBarIfNeeded : Assign := fun p barSize m =>
  let barValue := m.config.read32 p
  if barValue &&& 0x1 = 0 then
    let addr := barValue &&& 0xFFFFFFF0
    if addr ≠ 0 then (m, barValue)
    else if barSize > 0 ∧ m.next + barSize ≤ pciMmioBase + pciMmioSize then
      let newBar := m.next.toUInt32 ||| (barValue &&& 0xF)
      (⟨m.config.write32 p newBar, m.next + barSize⟩, newBar)
    else (m, barValue)
  else (m, barValue)

section Scan

variable {Str : Type}

/-- The body of the loop. -/
def scanSlot (s : Scan Str) (bus device : ℕ) : Scan Str :=
  let vendor := s.machine.config.vendorId bus device
  if vendor = 0xFFFF ∨ vendor = 0x0000 then s
  else
    let (s, bar0Size) := s.probe (bus, device, 0)
    let (s, bar1Size) := s.probe (bus, device, 1)
    let (s, bar0) := s.ask pciAssignBarIfNeeded (bus, device, 0) bar0Size
    let (s, bar1) := s.ask pciAssignBarIfNeeded (bus, device, 1) bar1Size
    if bar0 &&& 0x1 ≠ 0 ∧ bar1Size > 0 ∧ bar1 &&& 0x1 = 0 then
      s.report bus device (bar1 &&& 0xFFFFFFF0).toUInt64 bar1Size
    else s.report bus device (bar0 &&& 0xFFFFFFF0).toUInt64 bar0Size

/-- `pcie_enumerate_devices`. -/
def pcieEnumerateDevices (s : Scan Str) : Scan Str := slots.foldl (fun s slot => scanSlot s slot.1 slot.2) s

/-- The scan from the reset state of the allocator. -/
def scanned (Str : Type) (config : Config) : Scan Str := pcieEnumerateDevices (Scan.start config pciMmioBase)

end Scan

/-! ### What the calls depend on -/

section Registers

variable (config : Config)

/-- The registers of a slot that the scan looks at. -/
def barsOf (slot : ℕ × ℕ) : List Place :=
  if config.vendorId slot.1 slot.2 = 0xFFFF ∨ config.vendorId slot.1 slot.2 = 0x0000 then []
  else [(slot.1, slot.2, 0), (slot.1, slot.2, 1)]

/-- The registers that the scan looks at, in its order. -/
def scanOrder : List Place := slots.flatMap (barsOf config)

/-- The size of a register. -/
def sizeOf (p : Place) : ℕ := (config.bar p).kind.size

/-- A memory BAR without an address. -/
def Unset (p : Place) : Prop :=
  config.read32 p &&& 0x1 = 0 ∧ config.read32 p &&& 0xFFFFFFF0 = 0 ∧ 0 < sizeOf config p

/-- A memory BAR with an address, which the scan leaves in place. -/
def Preset (p : Place) : Prop :=
  config.read32 p &&& 0x1 = 0 ∧ config.read32 p &&& 0xFFFFFFF0 ≠ 0 ∧ 0 < sizeOf config p

instance (p : Place) : Decidable (Unset config p) := inferInstanceAs (Decidable (_ ∧ _ ∧ _))

instance (p : Place) : Decidable (Preset config p) := inferInstanceAs (Decidable (_ ∧ _ ∧ _))

/-- The addresses of a memory BAR that has some. -/
def presetRange (p : Place) : Range := ⟨(config.read32 p &&& 0xFFFFFFF0).toNat, sizeOf config p⟩

/-- There is room for the register once `n` bytes of the window are taken. -/
def Takes (n : ℕ) (p : Place) : Prop := Unset config p ∧ n + sizeOf config p ≤ 0x10000000

instance (n : ℕ) (p : Place) : Decidable (Takes config n p) := inferInstanceAs (Decidable (_ ∧ _))

/-- What is taken after a register. -/
def advance (n : ℕ) (p : Place) : ℕ := if Takes config n p then n + sizeOf config p else n

/-- What the registers of a list take: the sum of the sizes of the unset ones, but for those that
there is no room for. -/
def used (ps : List Place) : ℕ := ps.foldl (advance config) 0

/-- What is written to a register that takes the addresses from `n` on. -/
def newBar (n : ℕ) (p : Place) : UInt32 := UInt32.ofNat (0x10000000 + n) ||| (config.read32 p &&& 0xF)

/-- The call for a register once `n` bytes of the window are taken. -/
def entry (n : ℕ) (p : Place) : Request where
  place := p
  size := sizeOf config p
  before := config.read32 p
  after := if Takes config n p then (config.bar p).kind.latch (newBar config n p) else config.read32 p
  returned := if Takes config n p then newBar config n p else config.read32 p
  nextBefore := 0x10000000 + n
  nextAfter := 0x10000000 + advance config n p

variable {config}

theorem Unset.even {p : Place} (h : Unset config p) : (config.bar p).value.toNat % 2 = 0 :=
  (and_one_eq_zero_iff _).1 h.1

theorem Unset.sixteen_dvd {p : Place} (h : Unset config p) : 16 ∣ sizeOf config p := by
  obtain ⟨k, hk, -, hsize, -⟩ := (config.bar p).size_of_even h.even h.2.2.ne'
  rw [sizeOf, hsize]
  exact Pci.sixteen_dvd hk

theorem advance_le {n : ℕ} (h : n ≤ 0x10000000) (p : Place) : advance config n p ≤ 0x10000000 := by
  rw [advance]
  split_ifs with ht
  · exact ht.2
  · exact h

theorem dvd_advance {n : ℕ} (h : 16 ∣ n) (p : Place) : 16 ∣ advance config n p := by
  rw [advance]
  split_ifs with ht
  · exact Nat.dvd_add h ht.1.sixteen_dvd
  · exact h

theorem used_concat (ps : List Place) (p : Place) : used config (ps ++ [p]) = advance config (used config ps) p := by
  rw [used, List.foldl_append]
  rfl

/-- What is taken stays in the window, in pieces of 16 bytes at least. -/
theorem used_le_and_dvd (ps : List Place) : used config ps ≤ 0x10000000 ∧ 16 ∣ used config ps := by
  induction ps using List.reverseRecOn with
  | nil => exact ⟨Nat.zero_le _, Nat.dvd_zero _⟩
  | append_singleton ps p ih =>
    rw [used_concat]
    exact ⟨advance_le ih.1 p, dvd_advance ih.2 p⟩

theorem toNat_and_newBar {n : ℕ} {p : Place} (hn : n ≤ 0x10000000) (hdvd : 16 ∣ n) :
    (newBar config n p &&& 0xFFFFFFF0).toNat = 0x10000000 + n := by
  have hbase : (UInt32.ofNat (0x10000000 + n)).toNat = 0x10000000 + n := by
    rw [UInt32.toNat_ofNat']
    omega
  have hsum : (newBar config n p).toNat = 0x10000000 + n + (config.read32 p).toNat % 16 := by
    rw [newBar, toNat_or_of_dvd (k := 4) (by rw [hbase]; omega) (by rw [toNat_and_type]; omega), hbase,
      toNat_and_type]
  rw [toNat_and_address, hsum]
  omega

end Registers

/-! ### One call -/

theorem local_pciAssignBarIfNeeded : Local pciAssignBarIfNeeded := by
  apply Local.of_write32
  intro p size m
  simp only [pciAssignBarIfNeeded]
  split_ifs
  all_goals first
    | exact Or.inl rfl
    | exact Or.inr ⟨_, rfl⟩

/-- A call does what its entry says. -/
theorem mkOf_pciAssignBarIfNeeded {config : Config} {m : Machine} {p : Place} {size : UInt64} {n : ℕ}
    (hnext : m.next.toNat = 0x10000000 + n) (hn : n ≤ 0x10000000) (hbar : m.config.bar p = config.bar p)
    (hsize : size.toNat = sizeOf config p) :
    Request.mkOf p size m (pciAssignBarIfNeeded p size m) = entry config n p := by
  have hread : m.config.read32 p = config.read32 p := congrArg Bar.value hbar
  have hend : (pciMmioBase + pciMmioSize).toNat = 0x20000000 := rfl
  have hpos : size > 0 ↔ 0 < sizeOf config p := by
    rw [← hsize, gt_iff_lt, UInt64.lt_iff_toNat_lt]
    rfl
  have hlt : sizeOf config p < 2 ^ 32 := BarKind.size_lt _
  have hsum : (m.next + size).toNat = 0x10000000 + n + sizeOf config p := by
    rw [UInt64.toNat_add, hnext, hsize]
    omega
  have hroom : m.next + size ≤ pciMmioBase + pciMmioSize ↔ n + sizeOf config p ≤ 0x10000000 := by
    rw [UInt64.le_iff_toNat_le, hend, hsum]
    omega
  by_cases htakes : Takes config n p
  · obtain ⟨⟨hmem, haddr, hsize0⟩, hfits⟩ := id htakes
    have hword : m.next.toUInt32 = UInt32.ofNat (0x10000000 + n) := by
      apply UInt32.toNat_inj.1
      rw [UInt64.toNat_toUInt32, hnext, UInt32.toNat_ofNat']
    have hrun : pciAssignBarIfNeeded p size m =
        (⟨m.config.write32 p (newBar config n p), m.next + size⟩, newBar config n p) := by
      simp only [pciAssignBarIfNeeded, hread, hmem, haddr, ne_eq, not_true_eq_false, if_true, if_false, hpos.2 hsize0,
        hroom.2 hfits, and_self, hword, newBar]
    simp only [hrun, Request.mkOf, entry, advance, htakes, if_true, hsize, hnext, hsum, Config.read32,
      Config.bar_write32, Function.update_self, Bar.write_value, hbar, Nat.add_assoc]
  · have hrun : pciAssignBarIfNeeded p size m = (m, m.config.read32 p) := by
      simp only [pciAssignBarIfNeeded, hpos, hroom]
      split_ifs with h1 h2 h3
      · rfl
      · exact absurd ⟨⟨hread ▸ h1, hread ▸ not_not.1 h2, h3.1⟩, h3.2⟩ htakes
      · rfl
      · rfl
    simp only [hrun, Request.mkOf, entry, advance, htakes, if_false, hread, hsize, hnext]

/-! ### The scan -/

section Scan

variable {Str : Type} {config : Config} {asked : List Place} {s : Scan Str}

/-- A scan has asked for the registers `asked`, and its requests are the log of that. -/
structure Inv (config : Config) (asked : List Place) (s : Scan Str) : Prop where
  tracks : Tracks config asked s
  next : s.machine.next.toNat = 0x10000000 + used config asked
  log : s.requests = trace (advance config) (entry config) 0 asked

/-- One register. -/
theorem Inv.ask (h : Inv config asked s) {p : Place} {size : UInt64} (hsize : size.toNat = sizeOf config p)
    (hfresh : p ∉ asked) : Inv config (asked ++ [p]) (s.ask pciAssignBarIfNeeded p size).1 := by
  have hentry := mkOf_pciAssignBarIfNeeded h.next (used_le_and_dvd asked).1 (h.tracks.untouched p hfresh) hsize
  refine ⟨h.tracks.ask local_pciAssignBarIfNeeded hfresh hsize, ?_, ?_⟩
  · rw [used_concat]
    exact congrArg Request.nextAfter hentry
  · change s.requests ++ [_] = _
    rw [trace_concat, h.log, hentry]
    rfl

theorem slot_of_mem_barsOf {slot : ℕ × ℕ} {p : Place} (h : p ∈ barsOf config slot) : (p.1, p.2.1) = slot := by
  rw [barsOf] at h
  split_ifs at h
  · exact absurd h List.not_mem_nil
  · rcases List.mem_pair.1 h with rfl | rfl
    · rfl
    · rfl

/-- A device: its two registers, and the report. -/
theorem scanSlot_of_valid {bus device : ℕ} (s : Scan Str)
    (hvalid : ¬ (s.machine.config.vendorId bus device = 0xFFFF ∨ s.machine.config.vendorId bus device = 0x0000)) :
    ∃ base size, scanSlot s bus device =
      ((s.ask pciAssignBarIfNeeded (bus, device, 0) (s.probe (bus, device, 0)).2).1.ask pciAssignBarIfNeeded
        (bus, device, 1) (s.probe (bus, device, 1)).2).1.report bus device base size := by
  simp only [scanSlot, hvalid, if_false, Scan.probe_fst]
  split_ifs
  · exact ⟨_, _, rfl⟩
  · exact ⟨_, _, rfl⟩

/-- The scan counts the devices as it reports them. -/
theorem counted_pcieEnumerateDevices (h : s.Counted) : (pcieEnumerateDevices s).Counted := by
  rw [pcieEnumerateDevices]
  apply foldl_slots (P := fun _ (s : Scan Str) => s.Counted) h
  intro _ slot s _ h
  by_cases hvalid : s.machine.config.vendorId slot.1 slot.2 = 0xFFFF ∨ s.machine.config.vendorId slot.1 slot.2 = 0x0000
  · rw [scanSlot, if_pos hvalid]
    exact h
  · obtain ⟨base, size, hrun⟩ := scanSlot_of_valid s hvalid
    rw [hrun]
    apply Scan.Counted.report
    exact h

/-- One slot. -/
theorem inv_scanSlot {visited : List (ℕ × ℕ)} {slot : ℕ × ℕ} (hslot : slot ∉ visited)
    (h : Inv config (visited.flatMap (barsOf config)) s) :
    Inv config ((visited ++ [slot]).flatMap (barsOf config)) (scanSlot s slot.1 slot.2) := by
  have hfresh : ∀ i, (slot.1, slot.2, i) ∉ visited.flatMap (barsOf config) := by
    intro i hmem
    obtain ⟨old, hold, hin⟩ := List.mem_flatMap.1 hmem
    obtain rfl := slot_of_mem_barsOf hin
    exact hslot hold
  have hsize : ∀ i, (s.probe (slot.1, slot.2, i)).2.toNat = sizeOf config (slot.1, slot.2, i) := by
    intro i
    rw [s.toNat_probe_snd, h.tracks.kind, sizeOf]
  rw [List.flatMap_append, List.flatMap_singleton]
  by_cases hvalid : config.vendorId slot.1 slot.2 = 0xFFFF ∨ config.vendorId slot.1 slot.2 = 0x0000
  · rw [scanSlot, barsOf, h.tracks.ids, if_pos hvalid, if_pos hvalid, List.append_nil]
    exact h
  · have h0 := h.ask (hsize 0) (hfresh 0)
    have h1 := h0.ask (hsize 1) (by
      rw [List.mem_append, List.mem_singleton, not_or]
      exact ⟨hfresh 1, by simp⟩)
    obtain ⟨base, size, hrun⟩ := scanSlot_of_valid s (by rwa [h.tracks.ids])
    rw [List.append_assoc] at h1
    rw [hrun, barsOf, if_neg hvalid]
    exact ⟨h1.tracks.report _ _ _ _, h1.next, h1.log⟩

theorem inv_scanned (Str : Type) (config : Config) : Inv config (scanOrder config) (scanned Str config) := by
  rw [scanned, pcieEnumerateDevices, scanOrder]
  apply foldl_slots (P := fun visited s => Inv config (visited.flatMap (barsOf config)) s)
  · exact ⟨Tracks.start config _, rfl, rfl⟩
  · intro visited slot s hslot h
    exact inv_scanSlot hslot h

/-- The calls of a scan are the log of the loop over its registers that adds up sizes. -/
theorem log_scanned (Str : Type) (config : Config) :
    (scanned Str config).requests = trace (advance config) (entry config) 0 (scanOrder config) :=
  (inv_scanned Str config).log

end Scan

/-! ### When the addresses can be used -/

/-- The call was for a memory BAR with an address, which it has left in place. -/
def Kept (r : Request) : Prop := r.before &&& 0x1 = 0 ∧ r.before &&& 0xFFFFFFF0 ≠ 0 ∧ 0 < r.size

/-- The addresses that are handed out are aligned, so that the register holds what the caller is told; they are in
the window, and overlap neither each other nor what was kept before. -/
structure Usable (requests : List Request) : Prop where
  aligned : ∀ r ∈ requests, r.assigned → r.size ∣ r.given.base
  decoded : ∀ r ∈ requests, r.assigned → r.after = r.returned
  inside : ∀ r ∈ requests, r.assigned → 0x10000000 ≤ r.given.base ∧ r.given.stop ≤ 0x20000000
  apart : (assignedRanges requests).Pairwise Range.Apart
  clear : requests.Pairwise fun q r => Kept q → r.assigned → Range.Apart q.range r.given

/-- Where there is room for an unset memory BAR, its size divides what is taken before it, and none of the BARs
before it that have an address lies there. -/
def Orderly (config : Config) : Prop :=
  ∀ before p after, scanOrder config = before ++ p :: after → Takes config (used config before) p →
    sizeOf config p ∣ used config before ∧
    ∀ q ∈ before, Preset config q →
      Range.Apart (presetRange config q) ⟨0x10000000 + used config before, sizeOf config p⟩

section Usable

variable {config : Config} {n : ℕ} {p : Place}

theorem assigned_entry : (entry config n p).assigned ↔ Takes config n p := by
  rw [Request.assigned, bne_iff_ne]
  change 0x10000000 + advance config n p ≠ 0x10000000 + n ↔ _
  rw [advance]
  split_ifs with h
  · have := h.1.2.2
    exact iff_of_true (by omega) h
  · exact iff_of_false (fun hne => hne rfl) h

theorem given_entry (hn : n ≤ 0x10000000) (hdvd : 16 ∣ n) (h : Takes config n p) :
    (entry config n p).given = ⟨0x10000000 + n, sizeOf config p⟩ := by
  simp only [Request.given, entry, if_pos h, toNat_and_newBar hn hdvd]

theorem range_entry (h : Preset config p) : (entry config n p).range = presetRange config p := by
  have hno : ¬ Takes config n p := fun ht => h.2.1 ht.1.2.1
  simp only [Request.range, entry, if_neg hno, presetRange]

/-- The size of a BAR that there is room for divides the start of the window. -/
theorem dvd_base_add_iff (h : Takes config n p) : sizeOf config p ∣ 0x10000000 + n ↔ sizeOf config p ∣ n := by
  obtain ⟨k, -, -, hsize, -⟩ := (config.bar p).size_of_even h.1.even h.1.2.2.ne'
  have hle : sizeOf config p ≤ 0x10000000 := by
    have := h.2
    omega
  rw [sizeOf, hsize] at hle ⊢
  have hk : k ≤ 28 := (Nat.pow_le_pow_iff_right (by omega : 1 < 2)).1 hle
  exact Nat.dvd_add_right (Nat.pow_dvd_pow 2 hk)

/-- An aligned address is held by the register as it is. -/
theorem after_entry (hn : n ≤ 0x10000000) (h : Takes config n p) (hdvd : sizeOf config p ∣ n) :
    (entry config n p).after = (entry config n p).returned := by
  obtain ⟨k, -, -, hsize, hlatch⟩ := (config.bar p).size_of_even h.1.even h.1.2.2.ne'
  have hbase := (dvd_base_add_iff h).2 hdvd
  simp only [entry, if_pos h]
  apply hlatch
  rw [UInt32.toNat_ofNat', Nat.mod_eq_of_lt (by omega), ← hsize]
  exact hbase

/-- Whatever the sizes are, the addresses are in the window and do not overlap. -/
theorem stacked_trace (config : Config) (ps : List Place) :
    Stacked 0x10000000 (0x10000000 + used config ps)
      (assignedRanges (trace (advance config) (entry config) 0 ps)) := by
  induction ps using List.reverseRecOn with
  | nil => exact Stacked.nil _
  | append_singleton ps p ih =>
    obtain ⟨hle, hdvd⟩ : used config ps ≤ 0x10000000 ∧ 16 ∣ used config ps := used_le_and_dvd ps
    rw [trace_concat, assignedRanges_append, used_concat, ← used]
    by_cases h : Takes config (used config ps) p
    · rw [if_pos (assigned_entry.2 h), advance, if_pos h, given_entry hle hdvd h]
      rw [← Nat.add_assoc]
      exact ih.push (r := ⟨0x10000000 + used config ps, sizeOf config p⟩) (le_refl _)
    · rw [if_neg (fun hyes => h (assigned_entry.1 hyes)), advance, if_neg h]
      exact ih

end Usable

/-- One device, with a memory BAR of 16 bytes and one of 4096, both unset. -/
def smallThenLarge : Config where
  vendorId bus device := if bus = 0 ∧ device = 0 then 0x8086 else 0xFFFF
  deviceId _ _ := 0x100E
  command _ _ := 0
  bar p :=
    if p.2.2 = 0 then ⟨.memory 4 (by decide) 0 (by decide), 0, by decide⟩
    else if p.2.2 = 1 then ⟨.memory 12 (by decide) 0 (by decide), 0, by decide⟩
    else ⟨.absent, 0, by decide⟩

end Yasouos.Kernel.Pci.Arm64
