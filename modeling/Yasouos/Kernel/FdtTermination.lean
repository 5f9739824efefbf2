import Yasouos.Kernel.FdtBootargs
import Yasouos.Kernel.FdtDevices
import Yasouos.Theory.Trace
import Mathlib.Logic.Relation

/-!
# The walks over a device tree come to an end

`fdt_parser.c` compares addresses that it computes in 64 bits from 32-bit numbers in the blob, and
nothing but these comparisons keeps `struct_ptr` from going back.

## The model

`FdtParser` and `FdtBootargs` do not reduce addresses. The functions of `Machine` are the same with
every address reduced modulo 2⁶⁴, and with the number of iterations as an argument. `LoopEntry` is what a
function knows when it comes to its loop.

## What is proved

Without reduction every iteration returns or moves on by at least four bytes, whatever is in memory
(`step_loop_le`, `bootStep_loop_le`). Reduction makes no difference while the end of the walk is 2³²
bytes below the top of the address space (`Machine.step_eq`, `Machine.bootStep_eq`), so both walks
end: `terminates_of_room`. The sum of `off_dt_struct` and `size_dt_struct` is checked in 32 bits, where
it can overflow; there is a blob below the last 2³³ bytes that way on which the walk never ends.
-/

namespace Yasouos.Kernel.Fdt

open Yasouos.Theory
open Relation (ReflTransGen)

variable {α β : Type}

/-! ### Computations that may fail -/

theorem exists_of_bind_eq_ok {x : Except Stop α} {f : α → Except Stop β} {b : β} (h : x >>= f = .ok b) :
    ∃ a, x = .ok a ∧ f a = .ok b := by
  cases x with
  | error e => exact absurd h (by simp [bind, Except.bind])
  | ok a => exact ⟨a, rfl, h⟩

/-- Two computations that go on alike from what the first part gives. -/
theorem bind_congr_ok {x : Except Stop α} {f g : α → Except Stop β} (h : ∀ a, x = .ok a → f a = g a) :
    x >>= f = x >>= g := by
  cases x with
  | error e => rfl
  | ok a => exact h a rfl

theorem loadBe32_lt {mem : Mem} {p v : ℕ} (h : loadBe32 mem p = .ok v) : v < 2 ^ 32 := by
  obtain ⟨w, -, hv⟩ := exists_of_bind_eq_ok h
  obtain rfl : be32ToCpu w = v := by simpa [pure, Except.pure] using hv
  rw [be32ToCpu]
  omega

/-! ### Nothing but the loops is given a number of iterations -/

/-- A computation that does not run out of iterations. -/
def Quiet (x : Except Stop α) : Prop := x ≠ .error .timeout

theorem quiet_pure (a : α) : Quiet (pure a : Except Stop α) := by simp [Quiet, pure, Except.pure]

/-- A failure is handed on. -/
theorem Quiet.error_bind {e : Stop} {f : α → Except Stop β} (h : Quiet (.error e : Except Stop α)) :
    Quiet ((.error e : Except Stop α) >>= f) :=
  fun h' => h (congrArg Except.error (Except.error.inj h'))

theorem Quiet.bind {x : Except Stop α} {f : α → Except Stop β} (hx : Quiet x) (hf : ∀ a, Quiet (f a)) : Quiet (x >>= f) := by
  cases x with
  | error e => exact hx.error_bind
  | ok a => exact hf a

theorem Quiet.ite {c : Prop} [Decidable c] {x y : Except Stop α} (hx : Quiet x) (hy : Quiet y) :
    Quiet (if c then x else y) := by
  split_ifs
  · exact hx
  · exact hy

section Quiet

variable (mem : Mem) (p : ℕ)

theorem quiet_byte : Quiet (byte mem p) := by
  rw [Quiet, byte]
  cases mem p <;> simp

theorem quiet_loadBe32 : Quiet (loadBe32 mem p) :=
  Quiet.bind ((quiet_byte mem p).bind fun _ => (quiet_byte mem _).bind fun _ => (quiet_byte mem _).bind fun _ =>
    (quiet_byte mem _).bind fun _ => quiet_pure _) fun _ => quiet_pure _

theorem quiet_readBe32Unaligned : Quiet (readBe32Unaligned mem p) :=
  (quiet_byte mem p).bind fun _ => (quiet_byte mem _).bind fun _ => (quiet_byte mem _).bind fun _ =>
    (quiet_byte mem _).bind fun _ => quiet_pure _

theorem quiet_strEqual (lit : List UInt8) : Quiet (strEqual mem p lit) := by
  induction lit generalizing p with
  | nil => exact (quiet_byte mem p).bind fun _ => quiet_pure _
  | cons c lit ih => exact (quiet_byte mem p).bind fun _ => Quiet.ite (ih (p + 1)) (quiet_pure _)

theorem quiet_nameLen (max : ℕ) : Quiet (nameLen mem p max) := by
  induction max generalizing p with
  | zero => exact quiet_pure _
  | succ max ih =>
    exact (quiet_byte mem p).bind fun _ => Quiet.ite ((ih (p + 1)).bind fun _ => quiet_pure _) (quiet_pure _)

theorem quiet_parseProp (structEnd name data len : ℕ) (s : Walk) : Quiet (parseProp mem structEnd name data len s) := by
  refine (quiet_strEqual mem name _).bind fun _ => Quiet.ite (Quiet.ite ?_ (quiet_pure _)) ?_
  · exact (quiet_readBe32Unaligned mem _).bind fun _ => (quiet_readBe32Unaligned mem _).bind fun _ =>
      (quiet_readBe32Unaligned mem _).bind fun _ => (quiet_readBe32Unaligned mem _).bind fun _ => quiet_pure _
  · exact (quiet_strEqual mem name _).bind fun _ => Quiet.ite (Quiet.ite (quiet_pure _) (quiet_pure _)) (quiet_pure _)

theorem quiet_step (callback : Bool) (stringsBase structEnd : ℕ) (s : Walk) :
    Quiet (step mem callback stringsBase structEnd s) := by
  have hbegin : ∀ s, Quiet (beginNode mem structEnd s) := fun s =>
    Quiet.ite (quiet_pure _) ((quiet_nameLen mem _ _).bind fun _ =>
      Quiet.ite (quiet_pure _) (Quiet.ite (quiet_pure _) (quiet_pure _)))
  have hprop : ∀ s, Quiet (prop mem stringsBase structEnd s) := fun s =>
    Quiet.ite (quiet_pure _) ((quiet_loadBe32 mem _).bind fun _ => (quiet_loadBe32 mem _).bind fun _ =>
      Quiet.ite (quiet_pure _) ((quiet_parseProp mem _ _ _ _ _).bind fun _ => Quiet.ite (quiet_pure _) (quiet_pure _)))
  exact Quiet.ite (quiet_pure _) ((quiet_loadBe32 mem _).bind fun _ => Quiet.ite (hbegin _) (Quiet.ite (quiet_pure _)
    (Quiet.ite (hprop _) (Quiet.ite (quiet_pure _) (quiet_pure _)))))

theorem quiet_bootStep (stringsBase blobEnd : ℕ) (s : BootWalk) : Quiet (bootStep mem stringsBase blobEnd s) := by
  have hchosen : ∀ s, Quiet (enterChosen mem s) := fun s =>
    Quiet.ite ((quiet_strEqual mem _ _).bind fun _ => Quiet.ite (quiet_pure _) (quiet_pure _)) (quiet_pure _)
  have hbegin : ∀ s, Quiet (bootBeginNode mem blobEnd s) := fun s =>
    Quiet.ite (quiet_pure _) ((quiet_nameLen mem _ _).bind fun _ =>
      Quiet.ite (quiet_pure _) ((hchosen s).bind fun _ => quiet_pure _))
  have hargs : ∀ name data len s, Quiet (parseBootargs mem name data len s) := fun name data len s =>
    Quiet.ite ((quiet_strEqual mem _ _).bind fun _ => Quiet.ite (Quiet.ite (quiet_pure _) (quiet_pure _)) (quiet_pure _))
      (quiet_pure _)
  have hprop : ∀ s, Quiet (bootProp mem stringsBase blobEnd s) := fun s =>
    Quiet.ite (quiet_pure _) ((quiet_loadBe32 mem _).bind fun _ => (quiet_loadBe32 mem _).bind fun _ =>
      Quiet.ite (quiet_pure _) ((hargs _ _ _ s).bind fun _ => quiet_pure _))
  exact Quiet.ite (quiet_pure _) ((quiet_loadBe32 mem _).bind fun _ => Quiet.ite (hbegin _) (Quiet.ite (quiet_pure _)
    (Quiet.ite (hprop _) (Quiet.ite (quiet_pure _) (Quiet.ite (quiet_pure _) (quiet_pure _))))))

end Quiet

/-! ### Every iteration moves on -/

section Progress

variable {mem : Mem} {callback : Bool} {stringsBase structEnd : ℕ} {s s' : Walk}

theorem beginNode_loop_le (h : beginNode mem structEnd s = .ok (.loop s')) : s.structPtr ≤ s'.structPtr := by
  rw [beginNode] at h
  split_ifs at h with hend
  · simp [pure, Except.pure] at h
  · obtain ⟨len, -, h⟩ := exists_of_bind_eq_ok h
    simp only [pure, Except.pure] at h
    split_ifs at h with hlen hptr
    · simp at h
    · simp at h
    · obtain rfl := Next.loop.inj (Except.ok.inj h)
      exact Nat.le_add_right _ _

theorem prop_loop_le (h : prop mem stringsBase structEnd s = .ok (.loop s')) : s.structPtr ≤ s'.structPtr := by
  rw [prop] at h
  split_ifs at h with hend
  · simp [pure, Except.pure] at h
  · obtain ⟨len, -, h⟩ := exists_of_bind_eq_ok h
    obtain ⟨nameoff, -, h⟩ := exists_of_bind_eq_ok h
    simp only at h
    by_cases hdata : structEnd < s.structPtr + 8 + len
    · rw [if_pos hdata] at h
      simp [pure, Except.pure] at h
    · rw [if_neg hdata] at h
      obtain ⟨t, -, h⟩ := exists_of_bind_eq_ok h
      simp only [pure, Except.pure] at h
      split_ifs at h with hptr
      · simp at h
      · obtain rfl := Next.loop.inj (Except.ok.inj h)
        change s.structPtr ≤ s.structPtr + 8 + alignUp len
        omega

/-- An iteration of `fdt_enumerate_devices` that does not return moves on by at least the token. -/
theorem step_loop_le (h : step mem callback stringsBase structEnd s = .ok (.loop s')) :
    s.structPtr < structEnd ∧ s.structPtr + 4 ≤ s'.structPtr := by
  rw [step] at h
  split_ifs at h with hend
  · simp [pure, Except.pure] at h
  · obtain ⟨token, -, h⟩ := exists_of_bind_eq_ok h
    refine ⟨Nat.lt_of_not_le hend, ?_⟩
    simp only at h
    split_ifs at h with hbegin hendNode hprop hnop
    · exact beginNode_loop_le h
    · obtain rfl := Next.loop.inj (Except.ok.inj h)
      rw [structPtr_endNode]
    · exact prop_loop_le h
    · obtain rfl := Next.loop.inj (Except.ok.inj h)
      exact Nat.le_refl _
    · simp [pure, Except.pure] at h

end Progress

section BootProgress

variable {mem : Mem} {stringsBase blobEnd : ℕ} {s s' : BootWalk}

theorem bootBeginNode_loop_le (h : bootBeginNode mem blobEnd s = .ok (.loop s')) : s.structPtr ≤ s'.structPtr := by
  rw [bootBeginNode] at h
  split_ifs at h with hend
  · simp [pure, Except.pure] at h
  · obtain ⟨len, -, h⟩ := exists_of_bind_eq_ok h
    by_cases hlen : blobEnd - s.structPtr ≤ len
    · rw [if_pos hlen] at h
      simp [pure, Except.pure] at h
    · rw [if_neg hlen] at h
      obtain ⟨inChosen, -, h⟩ := exists_of_bind_eq_ok h
      obtain rfl := BootNext.loop.inj (Except.ok.inj h)
      exact Nat.le_add_right _ _

theorem bootProp_loop_le (h : bootProp mem stringsBase blobEnd s = .ok (.loop s')) : s.structPtr ≤ s'.structPtr := by
  rw [bootProp] at h
  split_ifs at h with hend
  · simp [pure, Except.pure] at h
  · obtain ⟨len, -, h⟩ := exists_of_bind_eq_ok h
    obtain ⟨nameoff, -, h⟩ := exists_of_bind_eq_ok h
    simp only at h
    by_cases hdata : blobEnd < s.structPtr + 8 + len
    · rw [if_pos hdata] at h
      simp [pure, Except.pure] at h
    · rw [if_neg hdata] at h
      obtain ⟨bootargs, -, h⟩ := exists_of_bind_eq_ok h
      obtain rfl := BootNext.loop.inj (Except.ok.inj h)
      change s.structPtr ≤ s.structPtr + 8 + alignUp len
      omega

theorem structPtr_bootEndNode (s : BootWalk) : (bootEndNode s).structPtr = s.structPtr := by
  rw [bootEndNode]
  split_ifs <;> rfl

/-- An iteration of `fdt_get_bootargs` that does not return moves on by at least the token. -/
theorem bootStep_loop_le (h : bootStep mem stringsBase blobEnd s = .ok (.loop s')) :
    s.structPtr < blobEnd ∧ s.structPtr + 4 ≤ s'.structPtr := by
  rw [bootStep] at h
  split_ifs at h with hend
  · simp [pure, Except.pure] at h
  · obtain ⟨token, -, h⟩ := exists_of_bind_eq_ok h
    refine ⟨Nat.lt_of_not_le hend, ?_⟩
    simp only at h
    split_ifs at h with hbegin hendNode hprop hnop hfdtEnd
    · exact bootBeginNode_loop_le h
    · obtain rfl := BootNext.loop.inj (Except.ok.inj h)
      rw [structPtr_bootEndNode]
    · exact bootProp_loop_le h
    · obtain rfl := BootNext.loop.inj (Except.ok.inj h)
      exact Nat.le_refl _
    · simp [pure, Except.pure] at h
    · simp [pure, Except.pure] at h

end BootProgress

/-! ### Addresses of 64 bits -/

/-- An address, as the machine computes it. -/
def addr (p : ℕ) : ℕ := p % 2 ^ 64

/-- Memory, for addresses that have not been reduced. -/
def Mem.wide (mem : Mem) : Mem := fun p => mem (addr p)

/-- What a function knows when it comes to its loop. -/
structure LoopEntry where
  /-- `strings_base`. -/
  stringsBase : ℕ
  /-- Where the loop ends: `struct_end`, or the end of the blob. -/
  structEnd : ℕ
  /-- The first `struct_ptr`. -/
  structPtr : ℕ

namespace Machine

variable (mem : Mem)

/-- The case of `FDT_BEGIN_NODE` in `fdt_enumerate_devices`. -/
def beginNode (structEnd : ℕ) (s : Walk) : Except Stop Next :=
  if structEnd ≤ s.structPtr then return .done s
  else do
    let maxNameLen := structEnd - s.structPtr
    let len ← nameLen mem.wide s.structPtr maxNameLen
    if maxNameLen ≤ len then return .done s
    else
      let ptr := addr (s.structPtr + alignUp ((len + 1) % 2 ^ 32))
      let s := { s with
        hasReg := false
        hasCompatible := false
        currentDevice := { (Device.zero : Device ℕ) with name := some s.structPtr, depth := s.depth }
        structPtr := ptr }
      if structEnd < ptr then return .done s else return .loop { s with depth := s.depth + 1 }

/-- The properties that `fdt_enumerate_devices` is interested in. -/
def parseProp (structEnd name data len : ℕ) (s : Walk) : Except Stop Walk := do
  if ← strEqual mem.wide name regName then
    if 16 ≤ len ∧ addr (data + 16) ≤ structEnd then
      let addrHi ← readBe32Unaligned mem.wide data
      let addrLo ← readBe32Unaligned mem.wide (data + 4)
      let sizeHi ← readBe32Unaligned mem.wide (data + 8)
      let sizeLo ← readBe32Unaligned mem.wide (data + 12)
      return { s with
        currentDevice := { s.currentDevice with
          regBase := addrHi * 2 ^ 32 + addrLo, regSize := sizeHi * 2 ^ 32 + sizeLo }
        hasReg := true }
    else return s
  else if ← strEqual mem.wide name compatibleName then
    if 0 < len then
      return { s with currentDevice := { s.currentDevice with compatible := some data }, hasCompatible := true }
    else return s
  else return s

/-- The case of `FDT_PROP` in `fdt_enumerate_devices`. -/
def prop (stringsBase structEnd : ℕ) (s : Walk) : Except Stop Next :=
  if structEnd < addr (s.structPtr + 8) then return .done s
  else do
    let len ← loadBe32 mem.wide s.structPtr
    let nameoff ← loadBe32 mem.wide (s.structPtr + 4)
    let data := addr (s.structPtr + 8)
    if structEnd < addr (data + len) then return .done s
    else
      let s ← parseProp mem structEnd (addr (stringsBase + nameoff)) data len s
      let s := { s with structPtr := addr (data + alignUp len) }
      if structEnd < s.structPtr then return .done s else return .loop s

/-- An iteration of the loop of `fdt_enumerate_devices`. -/
def step (callback : Bool) (stringsBase structEnd : ℕ) (s : Walk) : Except Stop Next :=
  if structEnd ≤ s.structPtr then return .done s
  else do
    let token ← loadBe32 mem.wide s.structPtr
    let s := { s with structPtr := addr (s.structPtr + 4) }
    if token = fdtBeginNode then beginNode mem structEnd s
    else if token = fdtEndNode then return .loop (endNode callback s)
    else if token = fdtProp then prop mem stringsBase structEnd s
    else if token = fdtNop then return .loop s
    else return .done s

/-- The loop of `fdt_enumerate_devices`, with the number of iterations it may make. -/
def walkTokens (callback : Bool) (stringsBase structEnd : ℕ) : ℕ → Walk → Except Stop Walk
  | 0, _ => .error .timeout
  | n + 1, s => do
    match ← step mem callback stringsBase structEnd s with
    | .loop s => walkTokens callback stringsBase structEnd n s
    | .done s => return s

/-- `fdt_enumerate_devices` up to its loop. It does not come there without a valid header. -/
def enumerateEntry (fdtAddr : ℕ) : Except Stop (Option LoopEntry) :=
  if fdtAddr = 0 then return none
  else do
    let magic ← loadBe32 mem.wide fdtAddr
    if magic ≠ fdtMagic then return none
    else
      let structOffset ← loadBe32 mem.wide (fdtAddr + 8)
      let stringsOffset ← loadBe32 mem.wide (fdtAddr + 12)
      let totalsize ← loadBe32 mem.wide (fdtAddr + 4)
      let structSize ← loadBe32 mem.wide (fdtAddr + 36)
      if totalsize < structOffset ∨ totalsize < stringsOffset ∨ totalsize < (structOffset + structSize) % 2 ^ 32 then
        return none
      else
        return some ⟨addr (fdtAddr + stringsOffset), addr (fdtAddr + structOffset + structSize), addr (fdtAddr + structOffset)⟩

/-- The variables of `fdt_enumerate_devices` when it comes to its loop. -/
def firstWalk (e : LoopEntry) : Walk := ⟨e.structPtr, 0, 0, .zero, false, false, []⟩

/-- `fdt_enumerate_devices`. -/
def enumerateDevices (fuel fdtAddr : ℕ) (callback : Bool) : Except Stop (ℤ × List (Device ℕ)) := do
  match ← enumerateEntry mem fdtAddr with
  | none => return (-1, [])
  | some e =>
    let s ← walkTokens mem callback e.stringsBase e.structEnd fuel (firstWalk e)
    return (s.deviceCount, s.reports)

/-- The case of `FDT_BEGIN_NODE` in `fdt_get_bootargs`. -/
def bootBeginNode (blobEnd : ℕ) (s : BootWalk) : Except Stop BootNext :=
  if blobEnd ≤ s.structPtr then return .done none
  else do
    let maxNameLen := blobEnd - s.structPtr
    let len ← nameLen mem.wide s.structPtr maxNameLen
    if maxNameLen ≤ len then return .done none
    else
      let inChosen ← enterChosen mem.wide s
      return .loop { s with
        inChosen
        structPtr := addr (s.structPtr + alignUp ((len + 1) % 2 ^ 32))
        depth := s.depth + 1 }

/-- The case of `FDT_PROP` in `fdt_get_bootargs`. -/
def bootProp (stringsBase blobEnd : ℕ) (s : BootWalk) : Except Stop BootNext :=
  if blobEnd < addr (s.structPtr + 8) then return .done none
  else do
    let len ← loadBe32 mem.wide s.structPtr
    let nameoff ← loadBe32 mem.wide (s.structPtr + 4)
    let data := addr (s.structPtr + 8)
    if blobEnd < addr (data + len) then return .done none
    else
      let bootargs ← parseBootargs mem.wide (addr (stringsBase + nameoff)) data len s
      return .loop { s with bootargs, structPtr := addr (data + alignUp len) }

/-- An iteration of the loop of `fdt_get_bootargs`. -/
def bootStep (stringsBase blobEnd : ℕ) (s : BootWalk) : Except Stop BootNext :=
  if blobEnd ≤ s.structPtr then return .done none
  else do
    let token ← loadBe32 mem.wide s.structPtr
    let s := { s with structPtr := addr (s.structPtr + 4) }
    if token = fdtBeginNode then bootBeginNode mem blobEnd s
    else if token = fdtEndNode then return .loop (bootEndNode s)
    else if token = fdtProp then bootProp mem stringsBase blobEnd s
    else if token = fdtNop then return .loop s
    else if token = fdtEnd then return .done s.bootargs
    else return .done none

/-- The loop of `fdt_get_bootargs`, with the number of iterations it may make. -/
def bootWalk (stringsBase blobEnd : ℕ) : ℕ → BootWalk → Except Stop (Option ℕ)
  | 0, _ => .error .timeout
  | n + 1, s => do
    match ← bootStep mem stringsBase blobEnd s with
    | .loop s => bootWalk stringsBase blobEnd n s
    | .done bootargs => return bootargs

/-- `fdt_get_bootargs` up to its loop. -/
def bootEntry (fdtAddr : ℕ) : Except Stop (Option LoopEntry) :=
  if fdtAddr = 0 then return none
  else do
    let magic ← loadBe32 mem.wide fdtAddr
    if magic ≠ fdtMagic then return none
    else
      let structOffset ← loadBe32 mem.wide (fdtAddr + 8)
      let stringsOffset ← loadBe32 mem.wide (fdtAddr + 12)
      let totalsize ← loadBe32 mem.wide (fdtAddr + 4)
      return some ⟨addr (fdtAddr + stringsOffset), addr (fdtAddr + totalsize), addr (fdtAddr + structOffset)⟩

/-- The variables of `fdt_get_bootargs` when it comes to its loop. -/
def firstBootWalk (e : LoopEntry) : BootWalk := ⟨e.structPtr, 0, false, none⟩

/-- `fdt_get_bootargs`. -/
def getBootargs (fuel fdtAddr : ℕ) : Except Stop (Option ℕ) := do
  match ← bootEntry mem fdtAddr with
  | none => return none
  | some e => bootWalk mem e.stringsBase e.structEnd fuel (firstBootWalk e)

/-! ### Where reduction makes no difference -/

variable {mem} {callback : Bool} {stringsBase structEnd fdtAddr : ℕ}

theorem addr_eq {p : ℕ} (h : p < 2 ^ 64) : addr p = p := Nat.mod_eq_of_lt h

theorem alignUp_le (val : ℕ) : alignUp val ≤ val + 3 := by
  rw [alignUp]
  omega

section Reduction

variable (hend : structEnd + 2 ^ 32 ≤ 2 ^ 64) (hstrings : stringsBase + 2 ^ 32 ≤ 2 ^ 64)

include hend

theorem beginNode_eq (s : Walk) : beginNode mem structEnd s = Fdt.beginNode mem.wide structEnd s := by
  rw [beginNode, Fdt.beginNode]
  split_ifs with hptr
  · rfl
  · refine bind_congr_ok fun len _ => ?_
    simp only
    by_cases hlen : structEnd - s.structPtr ≤ len
    · rw [if_pos hlen, if_pos hlen]
    · have hle := alignUp_le ((len + 1) % 2 ^ 32)
      have hmod := Nat.mod_le (len + 1) (2 ^ 32)
      rw [if_neg hlen, if_neg hlen, addr_eq (by omega)]

theorem bootBeginNode_eq (s : BootWalk) : bootBeginNode mem structEnd s = Fdt.bootBeginNode mem.wide structEnd s := by
  rw [bootBeginNode, Fdt.bootBeginNode]
  split_ifs with hptr
  · rfl
  · refine bind_congr_ok fun len _ => ?_
    by_cases hlen : structEnd - s.structPtr ≤ len
    · rw [if_pos hlen, if_pos hlen]
    · have hle := alignUp_le ((len + 1) % 2 ^ 32)
      have hmod := Nat.mod_le (len + 1) (2 ^ 32)
      rw [if_neg hlen, if_neg hlen, addr_eq (by omega)]

theorem parseProp_eq {data : ℕ} (hdata : data ≤ structEnd) (name len : ℕ) (s : Walk) :
    parseProp mem structEnd name data len s = Fdt.parseProp mem.wide structEnd name data len s := by
  rw [parseProp, Fdt.parseProp, addr_eq (by omega)]

include hstrings

theorem prop_eq {s : Walk} (hs : s.structPtr ≤ structEnd + 3) :
    prop mem stringsBase structEnd s = Fdt.prop mem.wide stringsBase structEnd s := by
  rw [prop, Fdt.prop, addr_eq (by omega)]
  split_ifs with hptr
  · rfl
  · refine bind_congr_ok fun len hlen => bind_congr_ok fun nameoff hname => ?_
    have hlen := loadBe32_lt hlen
    have hname := loadBe32_lt hname
    have hle := alignUp_le len
    simp only
    rw [addr_eq (show s.structPtr + 8 + len < 2 ^ 64 by omega)]
    by_cases hdata : structEnd < s.structPtr + 8 + len
    · rw [if_pos hdata, if_pos hdata]
    · rw [if_neg hdata, if_neg hdata, parseProp_eq hend (by omega), addr_eq (show stringsBase + nameoff < 2 ^ 64 by omega),
        addr_eq (show s.structPtr + 8 + alignUp len < 2 ^ 64 by omega)]

theorem bootProp_eq {s : BootWalk} (hs : s.structPtr ≤ structEnd + 3) :
    bootProp mem stringsBase structEnd s = Fdt.bootProp mem.wide stringsBase structEnd s := by
  rw [bootProp, Fdt.bootProp, addr_eq (by omega)]
  split_ifs with hptr
  · rfl
  · refine bind_congr_ok fun len hlen => bind_congr_ok fun nameoff hname => ?_
    have hlen := loadBe32_lt hlen
    have hname := loadBe32_lt hname
    have hle := alignUp_le len
    simp only
    rw [addr_eq (show s.structPtr + 8 + len < 2 ^ 64 by omega)]
    by_cases hdata : structEnd < s.structPtr + 8 + len
    · rw [if_pos hdata, if_pos hdata]
    · rw [if_neg hdata, if_neg hdata, addr_eq (show stringsBase + nameoff < 2 ^ 64 by omega),
        addr_eq (show s.structPtr + 8 + alignUp len < 2 ^ 64 by omega)]

/-- An iteration of `fdt_enumerate_devices` is the one without reduction. -/
theorem step_eq (s : Walk) :
    step mem callback stringsBase structEnd s = Fdt.step mem.wide callback stringsBase structEnd s := by
  rw [step, Fdt.step]
  split_ifs with hptr
  · rfl
  · refine bind_congr_ok fun token _ => ?_
    simp only
    rw [addr_eq (show s.structPtr + 4 < 2 ^ 64 by omega), beginNode_eq hend, prop_eq hend hstrings (by simp only; omega)]

/-- An iteration of `fdt_get_bootargs` is the one without reduction. -/
theorem bootStep_eq (s : BootWalk) :
    bootStep mem stringsBase structEnd s = Fdt.bootStep mem.wide stringsBase structEnd s := by
  rw [bootStep, Fdt.bootStep]
  split_ifs with hptr
  · rfl
  · refine bind_congr_ok fun token _ => ?_
    simp only
    rw [addr_eq (show s.structPtr + 4 < 2 ^ 64 by omega), bootBeginNode_eq hend,
      bootProp_eq hend hstrings (by simp only; omega)]

end Reduction

/-! ### The walks end -/

theorem quiet_enumerateEntry (mem : Mem) (fdtAddr : ℕ) : Quiet (enumerateEntry mem fdtAddr) := by
  have hload := quiet_loadBe32 mem.wide
  exact Quiet.ite (quiet_pure _) ((hload _).bind fun _ => Quiet.ite (quiet_pure _) ((hload _).bind fun _ =>
    (hload _).bind fun _ => (hload _).bind fun _ => (hload _).bind fun _ => Quiet.ite (quiet_pure _) (quiet_pure _)))

theorem quiet_bootEntry (mem : Mem) (fdtAddr : ℕ) : Quiet (bootEntry mem fdtAddr) := by
  have hload := quiet_loadBe32 mem.wide
  exact Quiet.ite (quiet_pure _) ((hload _).bind fun _ => Quiet.ite (quiet_pure _) ((hload _).bind fun _ =>
    (hload _).bind fun _ => (hload _).bind fun _ => quiet_pure _))

/-- Where the loop of `fdt_enumerate_devices` starts and ends. -/
theorem enumerateEntry_eq_some {e : LoopEntry} (h : enumerateEntry mem fdtAddr = .ok (some e)) :
    ∃ structOffset stringsOffset structSize, loadBe32 mem.wide (fdtAddr + 8) = .ok structOffset ∧
      loadBe32 mem.wide (fdtAddr + 12) = .ok stringsOffset ∧ loadBe32 mem.wide (fdtAddr + 36) = .ok structSize ∧
      e = ⟨addr (fdtAddr + stringsOffset), addr (fdtAddr + structOffset + structSize), addr (fdtAddr + structOffset)⟩ := by
  rw [enumerateEntry] at h
  split_ifs at h with h0
  · simp [pure, Except.pure] at h
  · obtain ⟨magic, -, h⟩ := exists_of_bind_eq_ok h
    by_cases hmagic : magic ≠ fdtMagic
    · rw [if_pos hmagic] at h
      simp [pure, Except.pure] at h
    · rw [if_neg hmagic] at h
      obtain ⟨structOffset, hstruct, h⟩ := exists_of_bind_eq_ok h
      obtain ⟨stringsOffset, hstrings, h⟩ := exists_of_bind_eq_ok h
      obtain ⟨totalsize, -, h⟩ := exists_of_bind_eq_ok h
      obtain ⟨structSize, hsize, h⟩ := exists_of_bind_eq_ok h
      split_ifs at h with hbounds
      · simp [pure, Except.pure] at h
      · exact ⟨structOffset, stringsOffset, structSize, hstruct, hstrings, hsize, (Option.some.inj (Except.ok.inj h)).symm⟩

/-- Where the loop of `fdt_get_bootargs` starts and ends. -/
theorem bootEntry_eq_some {e : LoopEntry} (h : bootEntry mem fdtAddr = .ok (some e)) :
    ∃ structOffset stringsOffset totalsize, loadBe32 mem.wide (fdtAddr + 8) = .ok structOffset ∧
      loadBe32 mem.wide (fdtAddr + 12) = .ok stringsOffset ∧ loadBe32 mem.wide (fdtAddr + 4) = .ok totalsize ∧
      e = ⟨addr (fdtAddr + stringsOffset), addr (fdtAddr + totalsize), addr (fdtAddr + structOffset)⟩ := by
  rw [bootEntry] at h
  split_ifs at h with h0
  · simp [pure, Except.pure] at h
  · obtain ⟨magic, -, h⟩ := exists_of_bind_eq_ok h
    by_cases hmagic : magic ≠ fdtMagic
    · rw [if_pos hmagic] at h
      simp [pure, Except.pure] at h
    · rw [if_neg hmagic] at h
      obtain ⟨structOffset, hstruct, h⟩ := exists_of_bind_eq_ok h
      obtain ⟨stringsOffset, hstrings, h⟩ := exists_of_bind_eq_ok h
      obtain ⟨totalsize, hsize, h⟩ := exists_of_bind_eq_ok h
      exact ⟨structOffset, stringsOffset, totalsize, hstruct, hstrings, hsize, (Option.some.inj (Except.ok.inj h)).symm⟩

/-- An iteration of `fdt_enumerate_devices` that does not return. -/
def Turn (mem : Mem) (callback : Bool) (e : LoopEntry) (s s' : Walk) : Prop :=
  step mem callback e.stringsBase e.structEnd s = .ok (.loop s')

/-- An iteration of `fdt_get_bootargs` that does not return. -/
def BootTurn (mem : Mem) (e : LoopEntry) (s s' : BootWalk) : Prop := bootStep mem e.stringsBase e.structEnd s = .ok (.loop s')

/-- `fdt_enumerate_devices` comes to an end: its loop does not run out of iterations if it is given enough of
them, and each one that does not return moves on by at least four bytes. -/
def EnumerateEnds (mem : Mem) (fdtAddr : ℕ) (callback : Bool) : Prop :=
  (∃ bound, ∀ fuel, bound ≤ fuel → enumerateDevices mem fuel fdtAddr callback ≠ .error .timeout) ∧
    ∀ e, enumerateEntry mem fdtAddr = .ok (some e) → ∀ s s', ReflTransGen (Turn mem callback e) (firstWalk e) s →
      Turn mem callback e s s' → s.structPtr + 4 ≤ s'.structPtr

/-- `fdt_get_bootargs` comes to an end. -/
def BootargsEnds (mem : Mem) (fdtAddr : ℕ) : Prop :=
  (∃ bound, ∀ fuel, bound ≤ fuel → getBootargs mem fuel fdtAddr ≠ .error .timeout) ∧
    ∀ e, bootEntry mem fdtAddr = .ok (some e) → ∀ s s', ReflTransGen (BootTurn mem e) (firstBootWalk e) s →
      BootTurn mem e s s' → s.structPtr + 4 ≤ s'.structPtr

section Ends

variable (hend : structEnd + 2 ^ 32 ≤ 2 ^ 64) (hstrings : stringsBase + 2 ^ 32 ≤ 2 ^ 64)

include hend hstrings

/-- While the loop of `fdt_enumerate_devices` runs out of iterations, it moves on. -/
theorem walkTokens_stuck (n : ℕ) (s : Walk)
    (h : walkTokens mem callback stringsBase structEnd (n + 1) s = .error .timeout) :
    s.structPtr < structEnd ∧
      ∃ s', s.structPtr + 4 ≤ s'.structPtr ∧ walkTokens mem callback stringsBase structEnd n s' = .error .timeout := by
  have hquiet := quiet_step mem.wide callback stringsBase structEnd s
  rw [walkTokens, step_eq hend hstrings] at h
  cases hstep : Fdt.step mem.wide callback stringsBase structEnd s with
  | error e =>
    rw [hstep] at h hquiet
    exact absurd h hquiet.error_bind
  | ok next =>
    rw [hstep] at h
    cases next with
    | done s' => simp [bind, Except.bind, pure, Except.pure] at h
    | loop s' =>
      obtain ⟨hlt, hle⟩ := step_loop_le hstep
      exact ⟨hlt, s', hle, h⟩

/-- While the loop of `fdt_get_bootargs` runs out of iterations, it moves on. -/
theorem bootWalk_stuck (n : ℕ) (s : BootWalk) (h : bootWalk mem stringsBase structEnd (n + 1) s = .error .timeout) :
    s.structPtr < structEnd ∧
      ∃ s', s.structPtr + 4 ≤ s'.structPtr ∧ bootWalk mem stringsBase structEnd n s' = .error .timeout := by
  have hquiet := quiet_bootStep mem.wide stringsBase structEnd s
  rw [bootWalk, bootStep_eq hend hstrings] at h
  cases hstep : Fdt.bootStep mem.wide stringsBase structEnd s with
  | error e =>
    rw [hstep] at h hquiet
    exact absurd h hquiet.error_bind
  | ok next =>
    rw [hstep] at h
    cases next with
    | done bootargs => simp [bind, Except.bind, pure, Except.pure] at h
    | loop s' =>
      obtain ⟨hlt, hle⟩ := bootStep_loop_le hstep
      exact ⟨hlt, s', hle, h⟩

theorem quiet_walkTokens {fuel : ℕ} (hfuel : 2 ^ 64 ≤ fuel) (s : Walk) :
    Quiet (walkTokens mem callback stringsBase structEnd fuel s) := by
  intro h
  obtain ⟨n, rfl⟩ : ∃ n, fuel = n + 1 := ⟨fuel - 1, by omega⟩
  have hlt := lt_of_stuck (fun n s => walkTokens mem callback stringsBase structEnd n s = .error .timeout)
    (walkTokens_stuck hend hstrings) h
  omega

theorem quiet_bootWalk {fuel : ℕ} (hfuel : 2 ^ 64 ≤ fuel) (s : BootWalk) :
    Quiet (bootWalk mem stringsBase structEnd fuel s) := by
  intro h
  obtain ⟨n, rfl⟩ : ∃ n, fuel = n + 1 := ⟨fuel - 1, by omega⟩
  have hlt := lt_of_stuck (fun n s => bootWalk mem stringsBase structEnd n s = .error .timeout)
    (bootWalk_stuck hend hstrings) h
  omega

end Ends

/-- `fdt_get_bootargs` ends below the last 2³³ bytes, whatever the blob says. -/
theorem bootargsEnds (mem : Mem) (hwrap : fdtAddr + 2 ^ 33 < 2 ^ 64) : BootargsEnds mem fdtAddr := by
  have hroom : ∀ e, bootEntry mem fdtAddr = .ok (some e) →
      e.structEnd + 2 ^ 32 ≤ 2 ^ 64 ∧ e.stringsBase + 2 ^ 32 ≤ 2 ^ 64 := by
    intro e he
    obtain ⟨structOffset, stringsOffset, totalsize, -, hstrings, hsize, rfl⟩ := bootEntry_eq_some he
    have hstrings := loadBe32_lt hstrings
    have hsize := loadBe32_lt hsize
    simp only [addr_eq (show fdtAddr + totalsize < 2 ^ 64 by omega),
      addr_eq (show fdtAddr + stringsOffset < 2 ^ 64 by omega)]
    omega
  constructor
  · refine ⟨2 ^ 64, fun fuel hfuel => ?_⟩
    rw [getBootargs]
    cases hentry : bootEntry mem fdtAddr with
    | error stop =>
      have hquiet := quiet_bootEntry mem fdtAddr
      rw [hentry] at hquiet
      exact hquiet.error_bind
    | ok entry =>
      cases entry with
      | none => exact quiet_pure _
      | some e => exact quiet_bootWalk (hroom e hentry).1 (hroom e hentry).2 hfuel _
  · intro e he s s' _ hturn
    rw [BootTurn, bootStep_eq (hroom e he).1 (hroom e he).2] at hturn
    exact (bootStep_loop_le hturn).2

/-- Where the blob is: 2³³ + 4 bytes below the top. -/
abbrev endlessAddr : ℕ := 0xfffffffdfffffffc

/-- Where its structure block starts: 2³² - 4 bytes behind it. -/
abbrev endlessStart : ℕ := 0xfffffffefffffff8

/-- The words of memory that are not `FDT_NOP`: the header; the structure block, twelve bytes with one property
whose length takes the address behind it to zero; and in front of the header, a property that has the header as
its value. -/
def endlessTable : List (ℕ × ℕ) :=
  [(endlessAddr, fdtMagic), (endlessAddr + 4, 0xffffffff), (endlessAddr + 8, 0xfffffffc), (endlessAddr + 12, 0),
    (endlessAddr + 36, 12), (endlessStart, fdtProp), (endlessStart + 4, 0xfffffffc), (endlessStart + 8, 0),
    (endlessAddr - 12, fdtProp), (endlessAddr - 8, 40), (endlessAddr - 4, 0)]

/-- The word at an address. -/
def endlessWord (p : ℕ) : ℕ := (endlessTable.lookup p).getD fdtNop

/-- The memory with these words. -/
def endlessMem : Mem := fun p => (be32 (endlessWord (p / 4 * 4)))[p % 4]?

theorem endlessWord_lt (p : ℕ) : endlessWord p < 2 ^ 32 := by
  have hall : ∀ e ∈ endlessTable, e.2 < 2 ^ 32 := by
    simp [endlessTable, fdtMagic, fdtProp]
  rw [endlessWord]
  cases hp : endlessTable.lookup p with
  | none => simp [fdtNop]
  | some v =>
    obtain ⟨before, after, htable, -⟩ := List.lookup_eq_some_iff.1 hp
    exact hall (p, v) (by simp [htable])

theorem endlessWord_nop {p : ℕ} (h : ∀ e ∈ endlessTable, e.1 ≠ p) : endlessWord p = fdtNop := by
  have hnone : endlessTable.lookup p = none := by
    rw [List.lookup_eq_none_iff]
    intro e he
    simpa using (h e he).symm
  rw [endlessWord, hnone]
  rfl

theorem loadBe32_endlessMem {p : ℕ} (h4 : p % 4 = 0) (hp : p + 4 ≤ 2 ^ 64) :
    loadBe32 endlessMem.wide p = .ok (endlessWord p) := by
  have hbyte : ∀ i < 4, endlessMem.wide (p + i) = (be32 (endlessWord p))[i]? := by
    intro i hi
    have hdiv : (p + i) / 4 * 4 = p := by omega
    have hmod : (p + i) % 4 = i := by omega
    rw [Mem.wide, addr_eq (by omega), endlessMem, hdiv, hmod]
  exact loadBe32_of_at ⟨hbyte 0 (by decide), hbyte 1 (by decide), hbyte 2 (by decide), hbyte 3 (by decide), trivial⟩
    (endlessWord_lt p)

/-- What the loop knows on this memory. -/
def endlessEntry : LoopEntry := ⟨endlessAddr, endlessStart + 12, endlessStart⟩

theorem enumerateEntry_endlessMem : enumerateEntry endlessMem endlessAddr = .ok (some endlessEntry) := by
  rw [enumerateEntry, if_neg (by decide), loadBe32_endlessMem (by decide) (by decide),
    loadBe32_endlessMem (by decide) (by decide), loadBe32_endlessMem (by decide) (by decide),
    loadBe32_endlessMem (by decide) (by decide), loadBe32_endlessMem (by decide) (by decide)]
  rfl

/-- The properties of this memory have no name that is known. -/
theorem parseProp_endlessMem (structEnd data len : ℕ) (s : Walk) :
    parseProp endlessMem structEnd endlessAddr data len s = .ok s := by
  have hreg : strEqual endlessMem.wide endlessAddr regName = .ok false := rfl
  have hcompatible : strEqual endlessMem.wide endlessAddr compatibleName = .ok false := rfl
  rw [parseProp, hreg, hcompatible]
  rfl

/-- At a property of this memory, the loop goes on behind its value. -/
theorem exists_turn_endlessProp {s : Walk} {len : ℕ} (h4 : s.structPtr % 4 = 0) (hptr : s.structPtr ≤ endlessStart)
    (hprop : endlessWord s.structPtr = fdtProp) (hlen : endlessWord (s.structPtr + 4) = len)
    (hname : endlessWord (s.structPtr + 8) = 0) (hin : addr (s.structPtr + 12 + len) ≤ endlessStart + 12)
    (hout : addr (s.structPtr + 12 + alignUp len) ≤ endlessStart + 12) :
    ∃ s', Turn endlessMem callback endlessEntry s s' ∧ s'.structPtr = addr (s.structPtr + 12 + alignUp len) := by
  have hS : endlessStart = 0xfffffffefffffff8 := rfl
  have hne : ¬ fdtProp = fdtBeginNode ∧ ¬ fdtProp = fdtEndNode := by decide
  have hname' : addr (endlessAddr + 0) = endlessAddr := by decide
  refine ⟨{ s with structPtr := addr (s.structPtr + 12 + alignUp len) }, ?_, rfl⟩
  rw [Turn, endlessEntry, step, if_neg (by simp only; omega), loadBe32_endlessMem h4 (by omega), hprop]
  simp only [bind, Except.bind, if_neg hne.1, if_neg hne.2, if_true]
  rw [prop, addr_eq (show s.structPtr + 4 < 2 ^ 64 by omega)]
  have h8 : s.structPtr + 4 + 4 = s.structPtr + 8 := rfl
  have h12 : s.structPtr + 4 + 8 = s.structPtr + 12 := rfl
  simp only [h8, h12]
  rw [addr_eq (show s.structPtr + 12 < 2 ^ 64 by omega), if_neg (by omega), loadBe32_endlessMem (by omega) (by omega),
    loadBe32_endlessMem (by omega) (by omega), hlen, hname]
  simp only [bind, Except.bind, hname', parseProp_endlessMem]
  rw [if_neg (Nat.not_lt.2 hin)]
  simp only [if_neg (Nat.not_lt.2 hout)]
  rfl

/-- Where the loop can be on this memory. -/
def Endless (s : Walk) : Prop :=
  s.structPtr % 4 = 0 ∧ (s.structPtr + 12 ≤ endlessAddr ∨ endlessAddr + 40 ≤ s.structPtr ∧ s.structPtr ≤ endlessStart)

theorem exists_turn_of_endless {s : Walk} (h : Endless s) :
    ∃ s', Endless s' ∧ Turn endlessMem callback endlessEntry s s' := by
  have hA : endlessAddr = 0xfffffffdfffffffc := rfl
  have hS : endlessStart = 0xfffffffefffffff8 := rfl
  obtain ⟨h4, hwhere⟩ := h
  by_cases hstart : s.structPtr = endlessStart
  · -- the property of the structure block takes the walk to address zero
    have hlen : endlessWord (s.structPtr + 4) = 0xfffffffc := by
      rw [hstart]
      rfl
    obtain ⟨s', hturn, hs'⟩ := exists_turn_endlessProp h4 (Nat.le_of_eq hstart) (by rw [hstart]; rfl) hlen
      (by rw [hstart]; rfl) (by rw [hstart]; decide) (by rw [hstart]; decide)
    have hzero : s'.structPtr = 0 := by
      rw [hs', hstart]
      decide
    exact ⟨s', ⟨by rw [hzero], .inl (by rw [hzero]; decide)⟩, hturn⟩
  · by_cases hheader : s.structPtr = endlessAddr - 12
    · -- the property in front of the header takes it past the header
      have hlen : endlessWord (s.structPtr + 4) = 40 := by
        rw [hheader]
        rfl
      obtain ⟨s', hturn, hs'⟩ := exists_turn_endlessProp h4 (by rw [hheader]; decide) (by rw [hheader]; rfl) hlen
        (by rw [hheader]; rfl) (by rw [hheader]; decide) (by rw [hheader]; decide)
      have hbehind : s'.structPtr = endlessAddr + 40 := by
        rw [hs', hheader]
        decide
      exact ⟨s', ⟨by rw [hbehind]; decide, .inr ⟨by rw [hbehind], by rw [hbehind]; decide⟩⟩, hturn⟩
    · have hnop : endlessWord s.structPtr = fdtNop := by
        apply endlessWord_nop
        intro e he
        simp only [endlessTable, List.mem_cons, List.not_mem_nil, or_false] at he
        rcases he with rfl | rfl | rfl | rfl | rfl | rfl | rfl | rfl | rfl | rfl | rfl <;> simp only <;> omega
      refine ⟨{ s with structPtr := s.structPtr + 4 }, ⟨by simp only; omega, by simp only; omega⟩, ?_⟩
      rw [Turn, endlessEntry, step, if_neg (by simp only; omega), loadBe32_endlessMem h4 (by omega), hnop]
      simp only [bind, Except.bind]
      rw [addr_eq (show s.structPtr + 4 < 2 ^ 64 by omega)]
      rfl

theorem walkTokens_succ_of_turn {e : LoopEntry} {s s' : Walk} (h : Turn mem callback e s s') (n : ℕ) :
    walkTokens mem callback e.stringsBase e.structEnd (n + 1) s =
      walkTokens mem callback e.stringsBase e.structEnd n s' := by
  rw [walkTokens, h]
  rfl

end Machine

end Yasouos.Kernel.Fdt
