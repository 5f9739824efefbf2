import Yasouos.Kernel.PciConfig
import Mathlib.Data.List.Nodup

/-!
# Scanning the PCI buses

What the enumerators of the three architectures have in common: a double loop over the slots of two
buses, an allocator of addresses, and the devices that are reported.

## The model

`Machine` is the configuration space with the static variable `next_mmio_address`. A scan also keeps
what it cannot see itself: `Scan.requests` lists the calls of `pci_assign_bar_if_needed`, each with
the register and `next_mmio_address` before and after it.

## What is proved

`Tracks` says how the requests of a scan and the registers belong together: a register that was not
asked for is as it was, and one that was holds what the request left in it. `Tracks.ask` is the
step, for an allocator that changes no other register (`Local`), and `foldl_slots` the loop.
-/

namespace Yasouos.Kernel.Pci

open Yasouos.Theory

/-- The configuration space and the allocator. -/
structure Machine where
  config : Config
  /-- `next_mmio_address`. -/
  next : UInt64

/-- A call of `pci_assign_bar_if_needed`. -/
structure Request where
  place : Place
  /-- `bar_size`. -/
  size : ℕ
  /-- The register before the call. -/
  before : UInt32
  /-- The register after the call. -/
  after : UInt32
  /-- What the call returns. -/
  returned : UInt32
  /-- `next_mmio_address` before the call. -/
  nextBefore : ℕ
  /-- `next_mmio_address` after the call. -/
  nextAfter : ℕ

namespace Request

/-- The call has handed out addresses. -/
def assigned (r : Request) : Bool := r.nextAfter != r.nextBefore

/-- The addresses that are in the register afterwards. -/
def range (r : Request) : Range := ⟨(r.after &&& 0xFFFFFFF0).toNat, r.size⟩

/-- The addresses that the caller is told. -/
def given (r : Request) : Range := ⟨(r.returned &&& 0xFFFFFFF0).toNat, r.size⟩

end Request

/-- A scan. -/
structure Scan (Str : Type) where
  machine : Machine
  /-- The calls of `pci_assign_bar_if_needed`. -/
  requests : List Request
  /-- What the callback has been called with. -/
  reported : List (Discovered Str)
  /-- `device_count`. -/
  deviceCount : ℤ

/-- The addresses that a scan has handed out. -/
def assignedRanges (requests : List Request) : List Range := (requests.filter Request.assigned).map Request.given

theorem assignedRanges_append (requests : List Request) (r : Request) :
    assignedRanges (requests ++ [r]) =
      if r.assigned then assignedRanges requests ++ [r.given] else assignedRanges requests := by
  by_cases h : r.assigned
  · simp [assignedRanges, h]
  · simp [assignedRanges, h]

/-- The slots of two buses, in the order of the loops. -/
def slots : List (ℕ × ℕ) := (List.range 2).flatMap fun bus => (List.range 32).map fun device => (bus, device)

/-- `pci_assign_bar_if_needed` of one of the architectures. -/
abbrev Assign := Place → UInt64 → Machine → Machine × UInt32

section Scan

variable {Str : Type}

/-- Before a scan. -/
def Scan.start (config : Config) (next : UInt64) : Scan Str := ⟨⟨config, next⟩, [], [], 0⟩

/-- Probe a register. -/
def Scan.probe (s : Scan Str) (p : Place) : Scan Str × UInt64 :=
  let (config, size) := pciProbeBarSize p s.machine.config
  ({ s with machine := { s.machine with config } }, size)

/-- The record of a call with what comes out of it. -/
def Request.mkOf (p : Place) (size : UInt64) (m : Machine) (out : Machine × UInt32) : Request where
  place := p
  size := size.toNat
  before := m.config.read32 p
  after := out.1.config.read32 p
  returned := out.2
  nextBefore := m.next.toNat
  nextAfter := out.1.next.toNat

/-- A call has been made. -/
def Scan.record (s : Scan Str) (p : Place) (size : UInt64) (out : Machine × UInt32) : Scan Str :=
  { s with machine := out.1, requests := s.requests ++ [Request.mkOf p size s.machine out] }

/-- Call `pci_assign_bar_if_needed`. -/
def Scan.ask (assign : Assign) (s : Scan Str) (p : Place) (size : UInt64) : Scan Str × UInt32 :=
  let out := assign p size s.machine
  (s.record p size out, out.2)

/-- Enable the device and report it. -/
def Scan.report (s : Scan Str) (bus device : ℕ) (regBase regSize : UInt64) : Scan Str :=
  let config := s.machine.config
  { s with
    machine := { s.machine with config := config.enable bus device }
    reported := s.reported ++
      [{ compatible := none
         name := none
         regBase := regBase.toNat
         regSize := regSize.toNat
         vendorId := (config.vendorId bus device).toNat
         deviceId := (config.deviceId bus device).toNat
         depth := 0
         bus := UInt8.ofNat bus
         deviceNum := UInt8.ofNat device
         function := 0 }]
    deviceCount := s.deviceCount + 1 }

@[simp] theorem Scan.probe_fst (s : Scan Str) (p : Place) : (s.probe p).1 = s := by
  simp [Scan.probe]

theorem Scan.toNat_probe_snd (s : Scan Str) (p : Place) :
    (s.probe p).2.toNat = (s.machine.config.bar p).kind.size := toNat_pciProbeBarSize p _

theorem Scan.forall_requests_record {s : Scan Str} {p : Place} {size : UInt64} {out : Machine × UInt32}
    {P : Request → Prop} :
    (∀ r ∈ (s.record p size out).requests, P r) ↔
      (∀ r ∈ s.requests, P r) ∧ P (Request.mkOf p size s.machine out) := by
  simp only [Scan.record, List.mem_append, List.mem_singleton, or_imp, forall_and, forall_eq]

/-- The devices are counted as they are reported. -/
def Scan.Counted (s : Scan Str) : Prop := s.deviceCount = s.reported.length

theorem Scan.Counted.report {s : Scan Str} (h : s.Counted) (bus device : ℕ) (regBase regSize : UInt64) :
    (s.report bus device regBase regSize).Counted := by
  have hcount : s.deviceCount = s.reported.length := h
  simp [Scan.Counted, Scan.report, hcount]

end Scan

/-! ### Requests and registers -/

/-- The allocator changes no other register, and none into another kind. -/
structure Local (assign : Assign) : Prop where
  ids : ∀ p size m, (assign p size m).1.config.vendorId = m.config.vendorId
  other : ∀ p size m q, q ≠ p → (assign p size m).1.config.bar q = m.config.bar q
  kind : ∀ p size m, ((assign p size m).1.config.bar p).kind = (m.config.bar p).kind

/-- An allocator that writes to the register it is called for, or to none. -/
theorem Local.of_write32 {assign : Assign}
    (h : ∀ p size m, (assign p size m).1.config = m.config ∨
      ∃ value, (assign p size m).1.config = m.config.write32 p value) : Local assign where
  ids := by
    intro p size m
    rcases h p size m with h | ⟨value, h⟩
    · rw [h]
    · rw [h, Config.write32]
  other := by
    intro p size m q hq
    rcases h p size m with h | ⟨value, h⟩
    · rw [h]
    · rw [h, Config.bar_write32, Function.update_of_ne hq]
  kind := by
    intro p size m
    rcases h p size m with h | ⟨value, h⟩
    · rw [h]
    · rw [h, Config.bar_write32, Function.update_self, Bar.write_kind]

/-- A scan has asked for the registers `asked`, and these requests account for what is in them. -/
structure Tracks {Str : Type} (config : Config) (asked : List Place) (s : Scan Str) : Prop where
  ids : s.machine.config.vendorId = config.vendorId
  kind : ∀ p, (s.machine.config.bar p).kind = (config.bar p).kind
  untouched : ∀ p, p ∉ asked → s.machine.config.bar p = config.bar p
  places : s.requests.map Request.place = asked
  current : ∀ r ∈ s.requests, s.machine.config.read32 r.place = r.after
  preset : ∀ r ∈ s.requests, config.read32 r.place = r.before
  size : ∀ r ∈ s.requests, r.size = (config.bar r.place).kind.size

namespace Tracks

variable {Str : Type} {config : Config} {asked : List Place} {s : Scan Str} {assign : Assign}

theorem start (config : Config) (next : UInt64) : Tracks config [] (Scan.start config next : Scan Str) where
  ids := rfl
  kind := fun _ => rfl
  untouched := fun _ _ => rfl
  places := rfl
  current := by simp [Scan.start]
  preset := by simp [Scan.start]
  size := by simp [Scan.start]

theorem report (h : Tracks config asked s) (bus device : ℕ) (regBase regSize : UInt64) :
    Tracks config asked (s.report bus device regBase regSize) where
  ids := h.ids
  kind := h.kind
  untouched := h.untouched
  places := h.places
  current := h.current
  preset := h.preset
  size := h.size

/-- A request for a register that has not been asked for. -/
theorem ask (h : Tracks config asked s) (hlocal : Local assign) {p : Place} {size : UInt64} (hfresh : p ∉ asked)
    (hsize : size.toNat = (config.bar p).kind.size) : Tracks config (asked ++ [p]) (s.ask assign p size).1 where
  ids := (hlocal.ids p size s.machine).trans h.ids
  kind := by
    intro q
    by_cases hq : q = p
    · subst hq
      exact (hlocal.kind q size s.machine).trans (h.kind q)
    · exact (congrArg Bar.kind (hlocal.other p size s.machine q hq)).trans (h.kind q)
  untouched := by
    intro q hq
    rw [List.mem_append, List.mem_singleton, not_or] at hq
    exact (hlocal.other p size s.machine q hq.2).trans (h.untouched q hq.1)
  places := by
    change (s.requests ++ [Request.mkOf p size s.machine _]).map Request.place = _
    rw [List.map_append, h.places]
    rfl
  current := by
    refine Scan.forall_requests_record.2 ⟨fun r hr => ?_, rfl⟩
    have hne : r.place ≠ p := by
      rintro rfl
      exact hfresh (h.places ▸ List.mem_map_of_mem hr)
    rw [← h.current r hr]
    exact congrArg Bar.value (hlocal.other p size s.machine r.place hne)
  preset := Scan.forall_requests_record.2 ⟨h.preset, congrArg Bar.value (h.untouched p hfresh).symm⟩
  size := Scan.forall_requests_record.2 ⟨h.size, hsize⟩

end Tracks

/-! ### The loop -/

/-- What holds before a loop over different slots and is kept by its body holds after it. -/
theorem foldl_slots {α : Type} {f : α → ℕ × ℕ → α} {P : List (ℕ × ℕ) → α → Prop} {a : α} (hstart : P [] a)
    (hstep : ∀ visited slot a, slot ∉ visited → P visited a → P (visited ++ [slot]) (f a slot)) :
    P slots (slots.foldl f a) := by
  -- from any point of the loop, to the end of it
  have hrun : ∀ rest visited a, (visited ++ rest).Nodup → P visited a → P (visited ++ rest) (rest.foldl f a) := by
    intro rest
    induction rest with
    | nil =>
      intro visited a _ h
      rwa [List.append_nil]
    | cons slot rest ih =>
      intro visited a hnodup h
      rw [List.append_cons] at hnodup ⊢
      apply ih _ _ hnodup
      apply hstep _ _ _ _ h
      intro hmem
      exact (List.nodup_append.1 (List.nodup_append.1 hnodup).1).2.2 _ hmem _ (List.mem_singleton.2 rfl) rfl
  exact hrun slots [] a (by decide) hstart

end Yasouos.Kernel.Pci
