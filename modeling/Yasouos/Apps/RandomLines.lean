import Yasouos.Apps.Random
import Yasouos.Kernel.InitApps
import Yasouos.Kernel.ResourceCalls

/-!
# The lines with random bytes

`app=random-software` and `app=random-hardware` of `init_apps`: each prints a line with
eight random bytes, and a label that says where they come from. The label is taken from
the name of the application and from what `random_hardware_init` returned for this line,
while the bytes come from any device that was acquired before.

## The model

The two applications are run one after another on one `World`, the module of `Random` with the
resource manager. What `init_context` returns for each device and what each call of
`virtio_rng_read` comes to are parameters: a read fails, or has copied some bytes to the
buffer (`read_answers` says that it does nothing else). Whether the log shows the lines is a
parameter as well; a line is its label and its bytes, each with its source.

## What is proved

`launchRandom_truthful_iff` is about one application, in any state that the earlier ones lead to:
its line is truthful exactly if a device is acquired for it and can be read, or none is
acquired and none is read. `lines_truthful_iff` is this for every command line.
-/

namespace Yasouos.Apps.Random

open Theory Prog
open Kernel (Device deviceMatchesDriver initApps)
open Kernel.Resources (Manager Slot Holds acquireAvailable deviceIsAllocated acquireAvailable_eq search_cases candidates
  mem_candidates_iff mem_candidates_iff_candidate initFails)
open Drivers

/-! ### Reads -/

/-- What a call of `virtio_rng_read` comes to: nothing if it fails, and otherwise the bytes that it has copied. -/
abbrev Answer : Type := Option (List UInt8)

/-- What the call returns. -/
def answerRet : Answer → VirtioRng.Ret
  | none => .fail
  | some bytes => ⟨bytes.length, bytes⟩

/-- Whatever the device does, a call of `virtio_rng_read` comes to one of these. -/
theorem read_answers (n : ℕ) (ctx : VirtioRng.Ctx) :
    (VirtioRng.virtioRngRead n ctx).All (fun _ => True) fun r => ∃ a, r.2 = answerRet a := by
  rw [VirtioRng.virtioRngRead]
  by_cases hn : n = 0
  · rw [if_pos hn]
    exact ⟨none, rfl⟩
  rw [if_neg hn]
  by_cases hinit : (!ctx.initialized) = true
  · rw [if_pos hinit]
    exact ⟨none, rfl⟩
  rw [if_neg hinit]
  dsimp only
  cases Virtqueue.firstFree VirtioRng.queueSize ctx.descInUse with
  | none => exact ⟨none, rfl⟩
  | some d =>
    refine (all_true _).bind fun _ _ => (all_true _).bind fun count _ => ?_
    rw [VirtioRng.finish]
    by_cases hcount : count = 0
    · rw [if_pos hcount]
      exact ⟨none, rfl⟩
    · rw [if_neg hcount]
      refine (all_true _).bind fun elem _ => ?_
      refine (readEach_all (fun _ => all_true _) 0 _).bind fun data hdata => ⟨some data, ?_⟩
      rw [answerRet, hdata]

/-- The reads are answered in turn. -/
def respond (answers : ℕ → Answer) (_ : Read) (n : ℕ) : VirtioRng.Ret × ℕ := (answerRet (answers n), n + 1)

/-! ### The applications -/

/-- The module, and what has been used up of the parameters. -/
structure World where
  /-- The module and the resource manager. -/
  module : Module
  /-- How often `random_hardware_init` has been called. -/
  attempts : ℕ
  /-- How often `virtio_rng_read` has been called. -/
  reads : ℕ

/-- The world at boot. -/
def World.start (devices : List (Device String)) : World := ⟨.start devices, 0, 0⟩

/-- The labels. -/
inductive Label where
  | hardware
  | software
  deriving DecidableEq

/-- What is printed for a label. -/
def Label.text : Label → String
  | hardware => "Random (hardware): "
  | software => "Random (software): "

/-- A line that is printed. -/
structure Line where
  /-- Its label. -/
  label : Label
  /-- The bytes printed, with their sources. -/
  bytes : List Cell

/-- The applications that print random bytes. -/
inductive RandomApp where
  /-- `random-software`. -/
  | software
  /-- `random-hardware`. -/
  | hardware
  deriving DecidableEq

/-- The application, among those of `init_apps`. -/
def RandomApp.app : RandomApp → Kernel.App
  | software => .randomSoftware
  | hardware => .randomHardware

/-- The applications of `init_apps` that are here. -/
def RandomApp.ofApp : Kernel.App → Option RandomApp
  | .randomSoftware => some software
  | .randomHardware => some hardware
  | _ => none

/-- An application that has been launched. -/
structure Launched where
  /-- The application. -/
  app : RandomApp
  /-- The world before. -/
  before : World
  /-- The line that it has printed. -/
  line : Option Line

section Model

variable (addr : ℕ → ℕ) (init : ℕ → ℕ → ℤ) (answers : ℕ → Answer) (enabled : Bool)

/-- `random_get_bytes`. -/
def World.getBytes (length : ℕ) (w : World) : Ret × World :=
  let r := (randomGetBytes w.module.manager.devices length w.module.state).runOn (respond answers) w.reads
  (r.1.2, ⟨⟨w.module.manager, r.1.1⟩, w.attempts, r.2⟩)

/-- `random_hardware_init`. -/
def World.hardwareInit (w : World) : Option (ℤ × World) := do
  let (code, module) ← randomHardwareInit addr (init w.attempts) w.module
  return (code, ⟨module, w.attempts + 1, w.reads⟩)

/-- The line is printed, if there is something to print and the log shows it. -/
def printLine (label : Label) (r : Ret) : Option Line :=
  if 0 < r.code then
    if enabled then some ⟨label, r.buffer.take r.code.toNat⟩ else none
  else none

/-- The two blocks of `init_apps`. -/
def launchRandom : RandomApp → World → Option (Option Line × World)
  | .software, w =>
    let (result, w) := w.getBytes answers 8
    some (printLine enabled .software result, w)
  | .hardware, w => do
    let (hwResult, w) ← w.hardwareInit addr init
    let (result, w) := w.getBytes answers 8
    return (printLine enabled (if hwResult = 0 then .hardware else .software) result, w)

/-- Applications are launched one after another. -/
def launchAll : List RandomApp → World → Option (List Launched × World)
  | [], w => some ([], w)
  | app :: apps, w => do
    let (line, w₁) ← launchRandom addr init answers enabled app w
    let (launched, w₂) ← launchAll apps w₁
    return (⟨app, w, line⟩ :: launched, w₂)

/-- `init_apps`, for a command line that names no other applications: what has been launched. -/
def initRandomApps (cmdline : Option (List Char)) (w : World) : Option (List Launched × World) := do
  let apps ← (initApps cmdline).mapM RandomApp.ofApp
  launchAll addr init answers enabled apps w

end Model

/-! ### What the labels should say -/

/-- The bytes come from a random number generator. -/
def Line.ByDevice (line : Line) : Prop := ∀ cell ∈ line.bytes, ∃ i, cell.source = .hardware i

/-- The bytes come from the software generator. -/
def Line.BySoftware (line : Line) : Prop := ∀ cell ∈ line.bytes, cell.source = .software

/-- **The label tells where the bytes come from.** -/
def Line.Truthful (line : Line) : Prop :=
  (line.label = .hardware ↔ line.ByDevice) ∧ (line.label = .software ↔ line.BySoftware)

/-- If the application has printed a line, it is truthful. -/
def Launched.Truthful (l : Launched) : Prop := ∀ line, l.line = some line → line.Truthful

/-- There is a context left, and a random number generator that nobody holds and that initialises. -/
def Acquires (init : ℕ → ℕ → ℤ) (w : World) : Prop :=
  w.module.state.deviceCount < maxHardwareRngDevices ∧
    ∃ i device, w.module.manager.devices[i]? = some device ∧
      deviceMatchesDriver device rngDriver = true ∧
      deviceIsAllocated w.module.manager i = some false ∧ init w.attempts i = 0

/-- The next read gives all of eight bytes. -/
def Reads (answers : ℕ → Answer) (w : World) : Prop := ∃ bytes, answers w.reads = some bytes ∧ bytes.length = 8

/-- When an application prints a truthful line: `random-software` when no device is held, or the read fails;
`random-hardware` when it acquires a device and the read does not fail, or it acquires none and, as before, no device is
held or the read fails. -/
def Honest (init : ℕ → ℕ → ℤ) (answers : ℕ → Answer) (w : World) : RandomApp → Prop
  | .software => w.module.state.deviceCount = 0 ∨ ¬ Reads answers w
  | .hardware => (Acquires init w ∧ Reads answers w) ∨
      (¬ Acquires init w ∧ (w.module.state.deviceCount = 0 ∨ ¬ Reads answers w))

/-! ### One application -/

section Launch

variable {answers : ℕ → Answer} {enabled : Bool} {w : World}

/-- The manager is sound, and holds one resource for each device of the module, of which there are at most four. -/
def World.Inv (w : World) : Prop :=
  ∃ l, Holds w.module.manager l ∧ l.length = w.module.state.deviceCount ∧
    w.module.state.deviceCount ≤ maxHardwareRngDevices

theorem World.Inv.start (devices : List (Device String)) : (World.start devices).Inv :=
  ⟨[], Holds.start devices, rfl, Nat.zero_le _⟩

/-- Four resources leave a slot free. -/
theorem exists_free {manager : Manager String} {l : List Slot} (h : Holds manager l)
    (hlen : l.length ≤ maxHardwareRngDevices) : ¬ ∀ r, (manager.pool r).inUse = true := by
  intro hall
  have hsub : List.finRange 16 ⊆ l := fun r _ => (h.inUse r).2 (hall r)
  have hle := (List.nodup_finRange 16).length_le_of_subset hsub
  simp only [List.length_finRange, maxHardwareRngDevices] at hle hlen
  omega

/-- There is a device to be had exactly if one of those that the manager would try initialises. -/
theorem acquires_iff (init : ℕ → ℕ → ℤ) (hlt : w.module.state.deviceCount < maxHardwareRngDevices) :
    Acquires init w ↔
      ∃ i ∈ candidates rngDriver w.module.manager, initFails rngDriver (init w.attempts) i = false := by
  have hinit : ∀ i, initFails rngDriver (init w.attempts) i = false ↔ init w.attempts i = 0 := fun i => by
    simp [initFails, rngDriver, VirtioInit.Virtio.driver]
  constructor
  · rintro ⟨-, i, device, hi, hmatch, hfree, hzero⟩
    exact ⟨i, (mem_candidates_iff_candidate rngDriver).2 ⟨device, hi, hmatch, hfree⟩, (hinit i).2 hzero⟩
  · rintro ⟨i, hi, hfails⟩
    obtain ⟨device, hi, hmatch, hfree⟩ := (mem_candidates_iff_candidate rngDriver).1 hi
    exact ⟨hlt, i, device, hi, hmatch, hfree, (hinit i).1 hfails⟩

/-- **`random_hardware_init`** has a device exactly if there is one to be had. -/
theorem hardwareInit_spec (addr : ℕ → ℕ) (init : ℕ → ℕ → ℤ) (h : w.Inv) :
    ∃ code w', w.hardwareInit addr init = some (code, w') ∧ w'.Inv ∧ w'.reads = w.reads ∧
      ((Acquires init w ∧ code = 0 ∧ 0 < w'.module.state.deviceCount) ∨
        (¬ Acquires init w ∧ code ≠ 0 ∧ w'.module.state.deviceCount = w.module.state.deviceCount)) := by
  obtain ⟨l, hs, hlen, hle⟩ := h
  by_cases hfull : maxHardwareRngDevices ≤ w.module.state.deviceCount
  · refine ⟨-1, ⟨w.module, w.attempts + 1, w.reads⟩, ?_, ⟨l, hs, hlen, hle⟩, rfl, .inr ⟨?_, by decide, rfl⟩⟩
    · simp [World.hardwareInit, randomHardwareInit, hfull]
    · rintro ⟨hlt, -⟩
      omega
  have hmem := acquires_iff init (Nat.lt_of_not_le hfull)
  obtain ⟨r, hr, heq⟩ : ∃ r, (w.module.manager.pool r).inUse = false ∧ acquireAvailable (some rngDriver)
      (some (addr w.module.state.deviceCount)) (init w.attempts) w.module.manager = some _ :=
    (acquireAvailable_eq rngDriver (addr w.module.state.deviceCount) (init w.attempts) hs).resolve_left
      fun hnone => exists_free hs (hlen.trans_le hle) hnone.1
  rcases search_cases rngDriver (addr w.module.state.deviceCount) (init w.attempts) w.module.manager r
    (candidates rngDriver w.module.manager) with ⟨hfail, hsearch⟩ | ⟨before, i, after, hcands, -, hi, hsearch⟩
  · rw [hsearch] at heq
    refine ⟨-1, ⟨w.module, w.attempts + 1, w.reads⟩, ?_, ⟨l, hs, hlen, hle⟩, rfl, .inr ⟨?_, by decide, rfl⟩⟩
    · simp [World.hardwareInit, randomHardwareInit, hfull, heq]
    · rw [hmem]
      rintro ⟨i, hi, hok⟩
      rw [hfail i hi] at hok
      cases hok
  · rw [hsearch] at heq
    have hcand : i ∈ candidates rngDriver w.module.manager := by simp [hcands]
    obtain ⟨device, hdev, hmatch, hfree⟩ := (mem_candidates_iff rngDriver hs).1 hcand
    have hnew : r ∉ l := by
      rw [hs.inUse, hr]
      simp
    refine ⟨0, ⟨⟨w.module.manager.push r i rngDriver (addr w.module.state.deviceCount), w.module.state.acquired r⟩,
      w.attempts + 1, w.reads⟩, ?_, ⟨r :: l, hs.push hnew _ hdev hmatch hfree, ?_, ?_⟩, rfl,
      .inl ⟨hmem.2 ⟨i, hcand, hi⟩, rfl, Nat.succ_pos _⟩⟩
    · simp [World.hardwareInit, randomHardwareInit, hfull, heq]
    · simpa [State.acquired] using hlen
    · simp only [State.acquired]
      omega

/-- The next read goes to a device, and gives all of the bytes. -/
def HardwareNext (answers : ℕ → Answer) (w : World) : Prop := 0 < w.module.state.deviceCount ∧ Reads answers w

theorem not_hardwareNext_iff : ¬ HardwareNext answers w ↔ w.module.state.deviceCount = 0 ∨ ¬ Reads answers w := by
  rw [HardwareNext, not_and_or, Nat.pos_iff_ne_zero, not_not]

theorem answerRet_code_iff (answers : ℕ → Answer) (w : World) :
    (answerRet (answers w.reads)).code = asInt 8 ↔ Reads answers w := by
  have height : asInt 8 = 8 := by decide
  rw [height, Reads]
  cases answers w.reads with
  | none => simp [answerRet, VirtioRng.Ret.fail]
  | some bytes =>
    simp only [answerRet, Option.some.injEq, exists_eq_left']
    omega

/-- If a device is held and can be read, the bytes come from it. -/
theorem getBytes_of_next (h : HardwareNext answers w) :
    ∃ (i : ℕ) (bytes : List UInt8) (t : State) (n : ℕ), w.getBytes answers 8 =
        (⟨8, bytes.map fun b => ⟨b, .hardware i⟩⟩, ⟨⟨w.module.manager, t⟩, w.attempts, n⟩) ∧
      bytes.length = 8 ∧ t.deviceCount = w.module.state.deviceCount := by
  obtain ⟨hdev, hread⟩ := h
  have hcode : ∀ o, (respond answers o w.reads).1.code = asInt 8 := fun _ => (answerRet_code_iff answers w).2 hread
  obtain ⟨bytes, hbytes, hlen⟩ := hread
  let ready := w.module.state.ensureInit w.module.manager.devices
  refine ⟨ready.nextDeviceIndex, bytes, ready.select, w.reads + 1, ?_, hlen, ?_⟩
  · rw [World.getBytes, randomGetBytes_of_device (by decide) hdev]
    simp only [runOn_hardwareReadBytes, if_pos (hcode _)]
    simp only [respond, hbytes, answerRet, hlen]
    rfl
  · exact deviceCount_ensureInit _ _

/-- Otherwise they come from the software generator. -/
theorem getBytes_of_not_next (h : ¬ HardwareNext answers w) :
    ∃ t n, w.getBytes answers 8 =
        ((software 8 t).2, ⟨⟨w.module.manager, (software 8 t).1⟩, w.attempts, n⟩) ∧
      t.deviceCount = w.module.state.deviceCount := by
  rcases Nat.eq_zero_or_pos w.module.state.deviceCount with hdev | hdev
  · refine ⟨w.module.state.ensureInit w.module.manager.devices, w.reads, ?_, deviceCount_ensureInit _ _⟩
    rw [World.getBytes, randomGetBytes_of_none (by decide) hdev]
    rfl
  · have hcode : ∀ o, ¬ (respond answers o w.reads).1.code = asInt 8 := fun _ =>
      mt (answerRet_code_iff answers w).1 fun hread => h ⟨hdev, hread⟩
    refine ⟨(w.module.state.ensureInit w.module.manager.devices).select, w.reads + 1, ?_, deviceCount_ensureInit _ _⟩
    rw [World.getBytes, randomGetBytes_of_device (by decide) hdev]
    simp only [runOn_hardwareReadBytes, if_neg (hcode _)]
    rfl

/-- **`random_get_bytes`** for eight bytes: they come from a device if one is held and it can be read, and otherwise from
the software generator. -/
theorem getBytes_eight (answers : ℕ → Answer) (w : World) :
    (w.getBytes answers 8).1.code = 8 ∧ (w.getBytes answers 8).1.buffer.length = 8 ∧
      (HardwareNext answers w → ∀ cell ∈ (w.getBytes answers 8).1.buffer, ∃ i, cell.source = .hardware i) ∧
      (¬ HardwareNext answers w → ∀ cell ∈ (w.getBytes answers 8).1.buffer, cell.source = .software) ∧
      (w.getBytes answers 8).2.module.manager = w.module.manager ∧
      (w.getBytes answers 8).2.module.state.deviceCount = w.module.state.deviceCount := by
  by_cases hnext : HardwareNext answers w
  · obtain ⟨i, bytes, t, n, heq, hlen, hcount⟩ := getBytes_of_next hnext
    rw [heq]
    refine ⟨rfl, by rw [List.length_map, hlen], fun _ cell hc => ?_, fun hnot => absurd hnext hnot, rfl, hcount⟩
    obtain ⟨b, -, rfl⟩ := List.mem_map.1 hc
    exact ⟨i, rfl⟩
  · obtain ⟨t, n, heq, hcount⟩ := getBytes_of_not_next hnext
    obtain ⟨hlen, hsource⟩ := prngFillBytes_cells 8 t.prngState
    rw [heq]
    have height : asInt 8 = 8 := by decide
    exact ⟨height, hlen, fun h => absurd h hnext, fun _ => hsource, rfl, hcount⟩

/-- The line is truthful when the label is that of the source. -/
theorem printLine_truthful_iff (answers : ℕ → Answer) (w : World) (label : Label) :
    (∀ line, printLine enabled label (w.getBytes answers 8).1 = some line → line.Truthful) ↔
      enabled = false ∨ (label = .hardware ↔ HardwareNext answers w) := by
  obtain ⟨hcode, hlen, hhw, hsw, -⟩ := getBytes_eight answers w
  cases enabled with
  | false => simp [printLine]
  | true =>
    have hline : printLine true label (w.getBytes answers 8).1 = some ⟨label, (w.getBytes answers 8).1.buffer⟩ := by
      rw [printLine, if_pos (by rw [hcode]; decide), if_pos rfl, hcode, List.take_of_length_le (by rw [hlen]; rfl)]
    obtain ⟨cell, hcell⟩ := List.exists_mem_of_length_pos (hlen.symm ▸ (by decide : 0 < 8))
    simp only [hline, Option.some.injEq, forall_eq', Bool.true_eq_false, false_or]
    by_cases hnext : HardwareNext answers w
    · have hby : Line.ByDevice ⟨label, (w.getBytes answers 8).1.buffer⟩ := hhw hnext
      have hnot : ¬ Line.BySoftware ⟨label, (w.getBytes answers 8).1.buffer⟩ := by
        intro hall
        obtain ⟨i, hi⟩ := hhw hnext cell hcell
        rw [hall cell hcell] at hi
        cases hi
      cases label <;> simp [Line.Truthful, hby, hnot, hnext]
    · have hby : Line.BySoftware ⟨label, (w.getBytes answers 8).1.buffer⟩ := hsw hnext
      have hnot : ¬ Line.ByDevice ⟨label, (w.getBytes answers 8).1.buffer⟩ := by
        intro hall
        obtain ⟨i, hi⟩ := hall cell hcell
        rw [hsw hnext cell hcell] at hi
        cases hi
      cases label <;> simp [Line.Truthful, hby, hnot, hnext]

/-- **One application.** It ends, keeps the invariant, and prints a truthful line exactly as said. -/
theorem launchRandom_truthful_iff (addr : ℕ → ℕ) (init : ℕ → ℕ → ℤ) (answers : ℕ → Answer) (enabled : Bool)
    (h : w.Inv) (app : RandomApp) :
    ∃ line w', launchRandom addr init answers enabled app w = some (line, w') ∧ w'.Inv ∧
      ((∀ l, line = some l → l.Truthful) ↔ enabled = false ∨ Honest init answers w app) := by
  have hkeep : ∀ w : World, w.Inv → (w.getBytes answers 8).2.Inv := by
    rintro w ⟨l, hs, hlen, hle⟩
    obtain ⟨-, -, -, -, hmanager, hcount⟩ := getBytes_eight answers w
    exact ⟨l, hmanager ▸ hs, hlen.trans hcount.symm, hcount.trans_le hle⟩
  cases app with
  | software =>
    refine ⟨_, _, rfl, hkeep w h, (printLine_truthful_iff answers w .software).trans ?_⟩
    simp only [reduceCtorEq, false_iff, not_hardwareNext_iff, Honest]
  | hardware =>
    obtain ⟨code, w', hrun, hinv, hreads, hspec⟩ := hardwareInit_spec addr init h
    have hread : Reads answers w' ↔ Reads answers w := by rw [Reads, Reads, hreads]
    refine ⟨printLine enabled (if code = 0 then .hardware else .software) (w'.getBytes answers 8).1, _, ?_,
      hkeep w' hinv, (printLine_truthful_iff answers w' _).trans ?_⟩
    · rw [launchRandom, hrun]
      rfl
    · rcases hspec with ⟨hacq, rfl, hpos⟩ | ⟨hacq, hcode, hcount⟩
      · simp [HardwareNext, hread, Honest, hacq, hpos]
      · simp only [hcode, if_false, reduceCtorEq, false_iff, not_hardwareNext_iff, hread, hcount, Honest, hacq,
          false_and, not_false_eq_true, true_and, false_or]

/-- **Every sequence of applications** ends, and each line is truthful exactly as said. -/
theorem launchAll_truthful_iff (addr : ℕ → ℕ) (init : ℕ → ℕ → ℤ) (answers : ℕ → Answer) (enabled : Bool)
    (h : w.Inv) (apps : List RandomApp) :
    ∃ launched w', launchAll addr init answers enabled apps w = some (launched, w') ∧
      launched.map Launched.app = apps ∧
      ∀ l ∈ launched, l.Truthful ↔ enabled = false ∨ Honest init answers l.before l.app := by
  induction apps generalizing w with
  | nil => exact ⟨[], w, rfl, rfl, by simp⟩
  | cons app apps ih =>
    obtain ⟨line, w₁, hrun, hinv, htrue⟩ := launchRandom_truthful_iff addr init answers enabled h app
    obtain ⟨launched, w₂, hrest, happs, hall⟩ := ih hinv
    refine ⟨⟨app, w, line⟩ :: launched, w₂, ?_, by rw [List.map_cons, happs], ?_⟩
    · simp only [launchAll, hrun, hrest, Option.bind_eq_bind, Option.bind_some]
      rfl
    · intro l hl
      rcases List.mem_cons.1 hl with rfl | hl
      · exact htrue
      · exact hall l hl

theorem mapM_ofApp {apps : List Kernel.App} (h : ∀ a ∈ apps, a = .randomSoftware ∨ a = .randomHardware) :
    ∃ rs, apps.mapM RandomApp.ofApp = some rs ∧ rs.map RandomApp.app = apps := by
  induction apps with
  | nil => exact ⟨[], rfl, rfl⟩
  | cons a apps ih =>
    obtain ⟨rs, hrs, happs⟩ := ih fun b hb => h b (List.mem_cons_of_mem a hb)
    rcases h a (by simp) with rfl | rfl
    · exact ⟨.software :: rs, by simp [hrs, RandomApp.ofApp], by simp [happs, RandomApp.app]⟩
    · exact ⟨.hardware :: rs, by simp [hrs, RandomApp.ofApp], by simp [happs, RandomApp.app]⟩

end Launch

/-! ### Command lines -/

/-- For every command line that names only `random-software` and `random-hardware`, whatever devices there are, whatever
they answer to `init_context` and however each read ends: every application that is named prints a truthful line exactly
if the log hides it, or a device is acquired for this line and gives all bytes, or none is acquired for it and no device
that was acquired earlier gives all bytes. -/
theorem lines_truthful_iff (addr : ℕ → ℕ) (init : ℕ → ℕ → ℤ) (answers : ℕ → Answer) (enabled : Bool)
    (devices : List (Device String)) (cmdline : Option (List Char))
    (h : ∀ a ∈ initApps cmdline, a = .randomSoftware ∨ a = .randomHardware) :
    ∃ launched w, initRandomApps addr init answers enabled cmdline (.start devices) = some (launched, w) ∧
      (launched.map fun l => l.app.app) = initApps cmdline ∧
      ∀ l ∈ launched, l.Truthful ↔ enabled = false ∨ Honest init answers l.before l.app := by
  obtain ⟨apps, hmap, happs⟩ := mapM_ofApp h
  obtain ⟨launched, w, hrun, hlaunched, hall⟩ :=
    launchAll_truthful_iff addr init answers enabled (World.Inv.start devices) apps
  refine ⟨launched, w, ?_, ?_, hall⟩
  · rw [initRandomApps, hmap]
    exact hrun
  · rw [← happs, ← hlaunched, List.map_map]
    rfl

/-- The command line of the test of the driver. -/
def hardwareTwice : List Char := "app=random-hardware app=random-hardware".toList

theorem initApps_hardwareTwice : initApps (some hardwareTwice) = [.randomHardware, .randomHardware] := by
  rw [initApps, Kernel.initAppsLoop_findParam]
  decide

/-- Devices that all initialise and give eight bytes. -/
def launchTwice (devices : List (Device String)) : Option (List Launched × World) :=
  initRandomApps id (fun _ _ => 0) (fun _ => some [1, 2, 3, 4, 5, 6, 7, 8]) true (some hardwareTwice) (.start devices)

theorem launchTwice_eq (devices : List (Device String)) :
    launchTwice devices = launchAll id (fun _ _ => 0) (fun _ => some [1, 2, 3, 4, 5, 6, 7, 8]) true
      [.hardware, .hardware] (.start devices) := by
  rw [launchTwice, initRandomApps, initApps_hardwareTwice]
  rfl

/-- Hardware twice, with two devices: both lines are truthful. -/
theorem lines_truthful_two_devices :
    ∃ launched w, launchTwice [rngDevice, rngDevice] = some (launched, w) ∧ launched.length = 2 ∧
      ∀ l ∈ launched, l.Truthful := by
  obtain ⟨launched, w, hrun, happs, hall⟩ := lines_truthful_iff id (fun _ _ => 0)
    (fun _ => some [1, 2, 3, 4, 5, 6, 7, 8]) true [rngDevice, rngDevice] (some hardwareTwice)
    (by simp [initApps_hardwareTwice])
  have hlen := congrArg List.length happs
  rw [List.length_map, initApps_hardwareTwice] at hlen
  refine ⟨launched, w, hrun, hlen, fun l hl => (hall l hl).2 (.inr ?_)⟩
  -- before either line the second device is free
  have hobs : (launchTwice [rngDevice, rngDevice]).map (fun x => x.1.all fun l => l.app = .hardware ∧
      l.before.module.state.deviceCount < 4 ∧ l.before.module.manager.devices[1]? = some rngDevice ∧
      deviceIsAllocated l.before.module.manager 1 = some false) = some true := by
    rw [launchTwice_eq]
    decide +kernel
  rw [show launchTwice [rngDevice, rngDevice] = some (launched, w) from hrun, Option.map_some, Option.some.injEq,
    List.all_eq_true] at hobs
  obtain ⟨happ, hcount, hdev, hfree⟩ := of_decide_eq_true (hobs l hl)
  rw [happ]
  exact .inl ⟨⟨hcount, 1, rngDevice, hdev, by decide +kernel, hfree, rfl⟩, _, rfl, rfl⟩

/-- Hardware twice, with one device: the second line has the label of the software generator and the bytes of the
device. -/
theorem lines_not_truthful_one_device :
    ¬ ∀ addr init answers enabled devices cmdline,
      (∀ a ∈ initApps cmdline, a = .randomSoftware ∨ a = .randomHardware) →
      ∃ launched w, initRandomApps addr init answers enabled cmdline (.start devices) = some (launched, w) ∧
        ∀ l ∈ launched, l.Truthful := by
  intro hall
  obtain ⟨launched, w, hrun, htrue⟩ := hall id (fun _ _ => 0) (fun _ => some [1, 2, 3, 4, 5, 6, 7, 8]) true [rngDevice]
    (some hardwareTwice) (by simp [initApps_hardwareTwice])
  have hobs : (launchTwice [rngDevice]).map (fun x => x.1.any fun l => l.line.map (fun line =>
      (line.label, line.bytes.map Cell.source)) = some (.software, List.replicate 8 (.hardware 0))) = some true := by
    rw [launchTwice_eq]
    decide +kernel
  rw [show launchTwice [rngDevice] = some (launched, w) from hrun, Option.map_some, Option.some.injEq,
    List.any_eq_true] at hobs
  obtain ⟨l, hl, hline⟩ := hobs
  obtain ⟨line, hline, hobs⟩ := Option.map_eq_some_iff.1 (of_decide_eq_true hline)
  obtain ⟨hlabel, hsources⟩ := Prod.mk.inj hobs
  have hsoftware := (htrue l hl line hline).2.1 hlabel
  obtain ⟨cell, hcell, hsource⟩ : ∃ cell ∈ line.bytes, cell.source = .hardware 0 := by
    rw [← List.mem_map, hsources]
    decide
  rw [hsoftware cell hcell] at hsource
  cases hsource

end Yasouos.Apps.Random
