import Yasouos.Drivers.VirtioHandshake
import Yasouos.Kernel.ResourceCalls

/-!
# The resource manager and the virtio drivers

`VirtioHandshake` has two drivers whose users take care: nobody initialises a device that a live
context is on. In the kernel they are called by the resource manager, which keeps a list of the devices that
it has handed out. This module puts the two together.

## The model

The loop of `resource_acquire_available` is a program here: where `Resources` takes for an argument what
`init_context` will return, the driver is run on the device, and its accesses are accesses of the system.
So is the call of `deinit_context` in `resource_release`. Contexts are numbers, as in `Resources`. There may
be other drivers, whose devices are not modelled: what their `init_context` returns is an argument.

## What is proved

`managed_obeys`: users need not know which devices are in use. In every run of calls of the manager, with any handles,
valid or not, and of uses of the contexts, the drivers keep to the handshake, and the device of a live context is one
that the manager has handed out for it.
-/

namespace Yasouos.Kernel.Managed

open Theory Prog
open Resources (Manager Holds)
open Drivers.VirtioInit (Virtio)
open Drivers.VirtioHandshake (Op Ans Drv Stage Sound handshakes life initContext deinitContext obliging netDevice)

/-- A context, as far as it says which device it is on. -/
abbrev Context : Type := Drivers.VirtioHandshake.Slot

/-- A handle. -/
abbrev Handle : Type := Resources.Slot

/-- What is kept between calls. -/
structure State where
  manager : Manager String
  contexts : ℕ → Context

/-- What a call returns. -/
inductive Result where
  /-- A handle, or `NULL`. -/
  | handle (r : Option Handle)
  /-- A number. -/
  | code (x : ℤ)
  /-- Nothing: a loop over the allocations list has not ended. -/
  | lost
  deriving DecidableEq

/-- A call. -/
inductive Call where
  /-- `resource_acquire_available` with the virtio driver that the context is for. -/
  | acquire (c : ℕ)
  /-- `resource_acquire_available` with another driver, whose `init_context` will return `init`. -/
  | acquireOther (driver : Option (Driver String)) (context : Option ℕ) (init : ℕ → ℤ)
  /-- `resource_release`. -/
  | release (r : Option Handle)
  /-- A call of a driver by the user of a context. -/
  | use (call : Drivers.VirtioHandshake.Call ℕ)

/-- The loop of `resource_acquire_available`. -/
def acquireLoop (driver : Driver String) (context : ℕ)
    (initContext : ℕ → (ℕ → Context) → Drv ((ℕ → Context) × ℤ)) :
    List (Device String × ℕ) → State → Drv (State × Result)
  | [], s => return (s, .handle none)
  | (device, i) :: rest, s =>
    if !deviceMatchesDriver device driver then acquireLoop driver context initContext rest s
    else
      match Resources.deviceIsAllocated s.manager i with
      | none => return (s, .lost)
      | some true => acquireLoop driver context initContext rest s
      | some false =>
        match Resources.resourceAlloc s.manager with
        | none => return (s, .handle none)
        | some (r, manager) =>
          let manager := Resources.fill manager r i driver context
          if driver.initContext then do
            let (contexts, result) ← initContext i s.contexts
            if result ≠ 0 then
              acquireLoop driver context initContext rest ⟨Resources.resourceFree manager r, contexts⟩
            else return (⟨Resources.resourceAddAllocation manager r, contexts⟩, .handle (some r))
          else return (⟨Resources.resourceAddAllocation manager r, s.contexts⟩, .handle (some r))

/-- `resource_acquire_available`. -/
def acquireAvailable (driver : Option (Driver String)) (context : Option ℕ)
    (initContext : ℕ → (ℕ → Context) → Drv ((ℕ → Context) × ℤ)) (s : State) : Drv (State × Result) :=
  match driver, context with
  | some driver, some context => acquireLoop driver context initContext s.manager.devices.zipIdx s
  | _, _ => return (s, .handle none)

section Run

variable (arch : Drivers.VirtioNet.Arch) (kind : ℕ → Virtio) (pfn : ℕ → ℕ → ℕ)

/-- The calls that the manager makes into the drivers when it releases a resource. -/
def deinitAll (contexts : ℕ → Context) : List (Resources.Event String) → Drv (ℕ → Context)
  | [] => return contexts
  | .deinit driver c :: events =>
    if driver = (kind c).driver then do
      let (contexts, _) ← deinitContext kind contexts c
      deinitAll contexts events
    else deinitAll contexts events
  | .init _ _ _ :: events => deinitAll contexts events

/-- `resource_release`. -/
def releaseResource (r : Option Handle) (s : State) : Drv (State × Result) :=
  match Resources.release r s.manager with
  | none => return (s, .lost)
  | some (x, events, manager) => do
    let contexts ← deinitAll kind s.contexts events
    return (⟨manager, contexts⟩, .code x)

/-- The record of a device. -/
def deviceAt (s : State) (k : ℕ) : Device String := s.manager.devices.getD k .zero

/-- A call. -/
def run : Call → State → Drv (State × Result)
  | .acquire c, s =>
    acquireAvailable (some (kind c).driver) (some c)
      (fun i contexts => initContext arch kind (deviceAt s) pfn contexts c i) s
  | .acquireOther driver context init, s =>
    acquireAvailable driver context (fun i contexts => return (contexts, init i)) s
  | .release r, s => releaseResource kind r s
  | .use call, s => do
    let (contexts, x) ← life arch kind (deviceAt s) pfn call s.contexts
    return (⟨s.manager, contexts⟩, .code x)

/-- The kernel at boot, once the devices are known. -/
def boot (devices : List (Device String)) : State := ⟨Resources.start devices, fun _ => ⟨0, false⟩⟩

/-- The state after the calls of a log. -/
def stateAfter (devices : List (Device String)) (log : List (Done Call State Result)) : State :=
  match log.getLast? with
  | none => boot devices
  | some e => e.after

/-- What the callers take care of: a context for random numbers is not acquired while it is live, drivers are not
called but by the manager, and are given contexts of theirs. -/
def Careful (devices : List (Device String)) (log : List (Done Call State Result)) : Call → Prop
  | .acquire c => kind c = .rng → ((stateAfter devices log).contexts c).initialized = false
  | .acquireOther driver _ _ => driver ≠ some (Virtio.driver .net) ∧ driver ≠ some (Virtio.driver .rng)
  | .release _ => True
  | .use call => call.IsUse kind

instance (devices : List (Device String)) (log : List (Done Call State Result)) (call : Call) :
    Decidable (Careful kind devices log call) :=
  match call with
  | .acquire _ => inferInstanceAs (Decidable (_ → _))
  | .acquireOther _ _ _ => inferInstanceAs (Decidable (_ ∧ _))
  | .release _ => inferInstanceAs (Decidable True)
  | .use call => inferInstanceAs (Decidable (call.IsUse kind))

/-- The resource manager, the drivers and the devices, which answer anything. -/
abbrev machine : System Op Ans (((o : Op) → Ans o) × (ℕ → Stage)) ((o : Op) → Ans o) Call State Result :=
  handshakes.system (run arch kind pfn)

end Run

/-! ### What every call keeps -/

section Invariant

variable (kind : ℕ → Virtio) (pfn : ℕ → ℕ → ℕ) (devices : List (Device String))

/-- The resource is for a context, and has a device. -/
structure Owns (v : Resources.Resource String) (c k : ℕ) : Prop where
  inUse : v.inUse = true
  device : v.device = some k
  driver : v.driver = some (kind c).driver
  context : v.context = some c

/-- The devices of live contexts are allocated for them. -/
def Owned (m : Manager String) (contexts : ℕ → Context) : Prop :=
  ∀ c, (contexts c).initialized = true → ∃ r, Owns kind (m.pool r) c (contexts c).device

/-- The manager and the contexts are sound, and what is live is allocated. -/
structure Kept (s : State) (stages : ℕ → Stage) : Prop where
  devices : s.manager.devices = devices
  holds : ∃ l, Holds s.manager l
  sound : Sound kind pfn s.contexts stages
  owned : Owned kind s.manager s.contexts

/-- The invariant between calls. -/
structure Inv (log : List (Done Call State Result)) (s : State) (stages : ℕ → Stage) : Prop where
  after : s = stateAfter devices log
  kept : Kept kind pfn devices s stages
  /-- Every call has come to an end. -/
  returned : ∀ e ∈ log, e.result ≠ .lost

variable {kind pfn devices} {arch : Drivers.VirtioNet.Arch} {s : State} {stages stages' : ℕ → Stage} {contexts : ℕ → Context}

/-- What `init_context` does to the contexts: nothing, or it has been called for a context of the driver. -/
def Initialised (kind : ℕ → Virtio) (driver : Driver String) (context i : ℕ) (contexts : ℕ → Context)
    (r : (ℕ → Context) × ℤ) : Prop :=
  r.1 = contexts ∨
    driver = (kind context).driver ∧ r.1 = Function.update contexts context ⟨i, decide (r.2 = 0)⟩

/-- A context for random numbers is not live when it is acquired. -/
def Fresh (kind : ℕ → Virtio) (driver : Driver String) (context : ℕ) (contexts : ℕ → Context) : Prop :=
  driver = (kind context).driver → kind context = .rng → (contexts context).initialized = false

namespace Kept

variable (h : Kept kind pfn devices s stages)

include h

/-- A device that is not allocated is not that of a live context. -/
theorem device_ne {l : List Handle} (hl : Holds s.manager l) {i : ℕ}
    (hfree : ¬ ∃ r ∈ l, (s.manager.pool r).device = some i) (c : ℕ) (hc : (s.contexts c).initialized = true) :
    (s.contexts c).device ≠ i := by
  rintro rfl
  obtain ⟨r, howns⟩ := h.owned c hc
  exact hfree ⟨r, (hl.inUse r).mpr howns.inUse, howns.device⟩

/-- `init_context` has failed. -/
theorem failed {driver : Driver String} {context i : ℕ} {r : (ℕ → Context) × ℤ}
    (hr : Initialised kind driver context i s.contexts r) (hsound : Sound kind pfn r.1 stages') (hcode : r.2 ≠ 0) :
    Kept kind pfn devices ⟨s.manager, r.1⟩ stages' := by
  refine ⟨h.devices, h.holds, hsound, ?_⟩
  show Owned kind s.manager r.1
  rcases hr with hr | ⟨-, hr⟩
  · rw [hr]
    exact h.owned
  · rw [hr]
    intro c hc
    by_cases hne : c = context
    · rw [hne, Function.update_self] at hc
      exact absurd (of_decide_eq_true hc) hcode
    · rw [Function.update_of_ne hne] at hc ⊢
      exact h.owned c hc

/-- A resource is put in front of the list. -/
theorem added {driver : Driver String} {context i : ℕ} {r : (ℕ → Context) × ℤ} {l : List Handle}
    (hl : Holds s.manager l) {slot : Handle} (hslot : slot ∉ l) {device : Device String}
    (hi : s.manager.devices[i]? = some device) (hm : deviceMatchesDriver device driver = true)
    (hfree : ¬ ∃ r ∈ l, (s.manager.pool r).device = some i)
    (hr : Initialised kind driver context i s.contexts r) (hsound : Sound kind pfn r.1 stages') :
    Kept kind pfn devices ⟨s.manager.push slot i driver context, r.1⟩ stages' := by
  obtain ⟨hnew, hold⟩ := Resources.push_pool driver context s.manager slot i
  -- what was allocated still is
  have hkeep : Owned kind (s.manager.push slot i driver context) s.contexts := by
    intro c hc
    obtain ⟨r, howns⟩ := h.owned c hc
    have hne : r ≠ slot := by
      rintro rfl
      exact hslot ((hl.inUse r).mpr howns.inUse)
    exact ⟨r, by rw [hold r hne]; exact howns⟩
  refine ⟨h.devices, ⟨slot :: l, hl.push hslot context hi hm fun k hk hdevice => hfree ⟨k, hk, hdevice⟩⟩, hsound, ?_⟩
  show Owned kind (s.manager.push slot i driver context) r.1
  rcases hr with hr | ⟨hdriver, hr⟩
  · rw [hr]
    exact hkeep
  · rw [hr]
    intro c hc
    by_cases hne : c = context
    · subst hne
      rw [Function.update_self]
      exact ⟨slot, by rw [hnew, hdriver]; exact ⟨rfl, rfl, rfl, rfl⟩⟩
    · rw [Function.update_of_ne hne] at hc ⊢
      exact hkeep c hc

/-- **The loop.** Every device that a driver is called for is free. -/
theorem acquireLoop_obeys {driver : Driver String} {context : ℕ}
    {initContext : ℕ → (ℕ → Context) → Drv ((ℕ → Context) × ℤ)}
    (hinit : ∀ i contexts stages, Sound kind pfn contexts stages → Fresh kind driver context contexts →
      (∀ c, (contexts c).initialized = true → (contexts c).device ≠ i) →
      (initContext i contexts).Obeys handshakes
        (fun r stages' => Initialised kind driver context i contexts r ∧ Sound kind pfn r.1 stages') stages)
    (hfresh : Fresh kind driver context s.contexts) (rest : List (Device String × ℕ))
    (hrest : ∀ x ∈ rest, devices[x.2]? = some x.1) :
    (acquireLoop driver context initContext rest s).Obeys handshakes
      (fun r stages' => Kept kind pfn devices r.1 stages' ∧ r.2 ≠ .lost) stages := by
  induction rest generalizing s stages with
  | nil => exact ⟨h, by simp⟩
  | cons x rest ih =>
    obtain ⟨device, i⟩ := x
    have hi : s.manager.devices[i]? = some device := by
      rw [h.devices]
      exact hrest _ List.mem_cons_self
    have hnext : ∀ {s : State} {stages : ℕ → Stage}, Kept kind pfn devices s stages →
        Fresh kind driver context s.contexts →
        (acquireLoop driver context initContext rest s).Obeys handshakes
          (fun r stages' => Kept kind pfn devices r.1 stages' ∧ r.2 ≠ .lost) stages :=
      fun h hfresh => ih h hfresh fun x hx => hrest x (List.mem_cons_of_mem _ hx)
    obtain ⟨l, hl⟩ := h.holds
    rw [acquireLoop]
    by_cases hm : deviceMatchesDriver device driver = true
    swap
    · rw [if_pos (by simpa using hm)]
      exact hnext h hfresh
    rw [if_neg (by simpa using hm), hl.deviceIsAllocated_eq]
    by_cases hfree : ∃ r ∈ l, (s.manager.pool r).device = some i
    · rw [decide_eq_true hfree]
      exact hnext h hfresh
    rw [decide_eq_false hfree]
    rcases hl.resourceAlloc_cases with hfull | ⟨r, hr, halloc⟩
    · rw [hfull]
      exact ⟨h, by simp⟩
    rw [halloc]
    simp only [hl.free_fill hr, Holds.add_fill]
    by_cases hcalls : driver.initContext = true
    · rw [if_pos hcalls]
      refine ((hinit i s.contexts stages h.sound hfresh (h.device_ne hl hfree)).mono fun r' stages' hr' => ?_).bind
      obtain ⟨hchange, hsound⟩ := hr'
      by_cases hcode : r'.2 ≠ 0
      · rw [if_pos hcode]
        refine hnext (h.failed hchange hsound hcode) fun hdriver hkind => ?_
        show (r'.1 context).initialized = false
        rcases hchange with hsame | ⟨-, hsame⟩
        · rw [hsame]
          exact hfresh hdriver hkind
        · rw [hsame, Function.update_self]
          exact decide_eq_false hcode
      · rw [if_neg hcode]
        exact ⟨h.added hl hr hi hm hfree hchange hsound, by simp⟩
    · rw [if_neg hcalls]
      exact ⟨h.added hl hr hi hm hfree (.inl rfl : Initialised kind driver context i s.contexts (s.contexts, 0)) h.sound,
        by simp⟩

/-- An acquisition. -/
theorem acquireAvailable_obeys {driver : Option (Driver String)} {context : Option ℕ}
    {initContext : ℕ → (ℕ → Context) → Drv ((ℕ → Context) × ℤ)}
    (hinit : ∀ d c, driver = some d → context = some c → Fresh kind d c s.contexts ∧
      ∀ i contexts stages, Sound kind pfn contexts stages → Fresh kind d c contexts →
        (∀ c, (contexts c).initialized = true → (contexts c).device ≠ i) →
        (initContext i contexts).Obeys handshakes
          (fun r stages' => Initialised kind d c i contexts r ∧ Sound kind pfn r.1 stages') stages) :
    (acquireAvailable driver context initContext s).Obeys handshakes
      (fun r stages' => Kept kind pfn devices r.1 stages' ∧ r.2 ≠ .lost) stages := by
  cases driver with
  | none => exact ⟨h, by simp⟩
  | some d =>
    cases context with
    | none => exact ⟨h, by simp⟩
    | some c =>
      obtain ⟨hfresh, hcall⟩ := hinit d c rfl rfl
      refine h.acquireLoop_obeys hcall hfresh _ fun x hx => ?_
      rw [← h.devices]
      exact List.mk_mem_zipIdx_iff_getElem?.1 hx

/-- A resource has been released, and its context is not live any more. -/
theorem released {r : Handle} {l : List Handle} {manager : Manager String}
    (hholds : Holds manager l) (hdevices : manager.devices = s.manager.devices)
    (hpool : ∀ k, k ≠ r → { manager.pool k with next := none } = { s.manager.pool k with next := none })
    (hsound : Sound kind pfn contexts stages')
    (hcontexts : ∀ c, (contexts c).initialized = true →
      contexts c = s.contexts c ∧ ∀ k, ¬ Owns kind (s.manager.pool r) c k) :
    Kept kind pfn devices ⟨manager, contexts⟩ stages' := by
  refine ⟨hdevices.trans h.devices, ⟨_, hholds⟩, hsound, ?_⟩
  show Owned kind manager contexts
  intro c hc
  obtain ⟨hsame, hnot⟩ := hcontexts c hc
  rw [hsame] at hc ⊢
  obtain ⟨k, howns⟩ := h.owned c hc
  have hne : k ≠ r := by
    rintro rfl
    exact hnot _ howns
  have hslot := hpool k hne
  simp only [Resources.Resource.mk.injEq] at hslot
  obtain ⟨hdevice, hdriver, hcontext, -, hinUse⟩ := hslot
  exact ⟨k, by rw [hinUse]; exact howns.inUse, by rw [hdevice]; exact howns.device,
    by rw [hdriver]; exact howns.driver, by rw [hcontext]; exact howns.context⟩

/-- The calls of a release: the context of the resource, if it is one of a virtio driver, is not live afterwards. -/
theorem deinitAll_obeys (v : Resources.Resource String) :
    (deinitAll kind s.contexts (Resources.deinitEvents v)).Obeys handshakes
      (fun contexts stages' => Sound kind pfn contexts stages' ∧ ∀ c, (contexts c).initialized = true →
        contexts c = s.contexts c ∧ ∀ k, ¬ Owns kind v c k) stages := by
  -- no call is made: then the resource is not for a context of a virtio driver
  have hsame : (∀ c k, ¬ Owns kind v c k) →
      ((return s.contexts : Drv (ℕ → Context))).Obeys handshakes
        (fun contexts stages' => Sound kind pfn contexts stages' ∧ ∀ c, (contexts c).initialized = true →
          contexts c = s.contexts c ∧ ∀ k, ¬ Owns kind v c k) stages :=
    fun hnot => ⟨h.sound, fun c _ => ⟨rfl, hnot c⟩⟩
  have hnone : v.driver = none ∨ v.context = none → ∀ c k, ¬ Owns kind v c k := by
    rintro (hv | hv) c k howns
    · exact absurd (hv.symm.trans howns.driver) (by simp)
    · exact absurd (hv.symm.trans howns.context) (by simp)
  rw [Resources.deinitEvents]
  cases hdriver : v.driver with
  | none => exact hsame (hnone (.inl hdriver))
  | some driver =>
    cases hcontext : v.context with
    | none => exact hsame (hnone (.inr hcontext))
    | some context =>
      have howner : ∀ c k, Owns kind v c k → c = context ∧ driver = (kind context).driver := by
        intro c k howns
        obtain rfl : context = c := Option.some.inj (hcontext.symm.trans howns.context)
        exact ⟨rfl, Option.some.inj (hdriver.symm.trans howns.driver)⟩
      have hcalls : driver = (kind context).driver → driver.deinitContext = true := by
        rintro rfl
        cases kind context <;> rfl
      dsimp only
      by_cases hvirtio : driver = (kind context).driver
      · rw [if_pos (hcalls hvirtio), deinitAll, if_pos hvirtio]
        refine ((h.sound.deinit context).mono fun r stages' hr => ?_).bind
        refine ⟨hr.2, fun c hc => ?_⟩
        have hne : c ≠ context := by
          rintro rfl
          rw [hr.1, Function.update_self] at hc
          exact absurd hc Bool.false_ne_true
        refine ⟨?_, fun k howns => hne (howner c k howns).1⟩
        rw [hr.1, Function.update_of_ne hne]
      · have hnot : ∀ c k, ¬ Owns kind v c k := fun c k howns => hvirtio (howner c k howns).2
        by_cases hdeinit : driver.deinitContext = true
        · rw [if_pos hdeinit, deinitAll, if_neg hvirtio]
          exact hsame hnot
        · rw [if_neg hdeinit]
          exact hsame hnot

/-- A release, of any handle. -/
theorem releaseResource_obeys (r : Option Handle) :
    (releaseResource kind r s).Obeys handshakes
      (fun r stages' => Kept kind pfn devices r.1 stages' ∧ r.2 ≠ .lost) stages := by
  obtain ⟨l, hl⟩ := h.holds
  have hfails : Resources.release r s.manager = some (-1, [], s.manager) →
      (releaseResource kind r s).Obeys handshakes
        (fun r stages' => Kept kind pfn devices r.1 stages' ∧ r.2 ≠ .lost) stages := by
    intro heq
    rw [releaseResource, heq]
    exact ⟨h, by simp⟩
  cases r with
  | none => exact hfails rfl
  | some r =>
    by_cases hr : r ∈ l
    · obtain ⟨manager, heq, hholds, hdevices, -, hpool⟩ := Resources.release_of_mem hl hr
      rw [releaseResource, heq]
      refine ((h.deinitAll_obeys _).mono fun contexts stages' hc => ?_).bind
      exact ⟨h.released hholds hdevices hpool hc.1 hc.2, by simp⟩
    · exact hfails (Resources.release_of_not_mem hl hr)

end Kept

/-- **Every call** keeps to the handshake, and keeps the contexts and the manager sound. -/
theorem run_obeys (h : Kept kind pfn devices s stages) {log : List (Done Call State Result)}
    (hs : s = stateAfter devices log) {call : Call} (hcareful : Careful kind devices log call) :
    (run arch kind pfn call s).Obeys handshakes
      (fun r stages' => Kept kind pfn devices r.1 stages' ∧ r.2 ≠ .lost) stages := by
  cases call with
  | acquire c =>
    rw [run]
    refine h.acquireAvailable_obeys ?_
    rintro d c' ⟨⟩ ⟨⟩
    refine ⟨fun _ hkind => by rw [hs]; exact hcareful hkind, fun i contexts stages hsound hfresh hne => ?_⟩
    exact (hsound.init (fun c' hc' hdevice => absurd hdevice (hne c' hc')) (hfresh rfl)).mono
      fun r stages' hr => ⟨.inr ⟨rfl, hr.1⟩, hr.2⟩
  | acquireOther driver context init =>
    rw [run]
    refine h.acquireAvailable_obeys ?_
    rintro d c rfl rfl
    have hother : d ≠ (kind c).driver := by
      rintro rfl
      cases hkind : kind c with
      | net => exact hcareful.1 (by rw [hkind])
      | rng => exact hcareful.2 (by rw [hkind])
    exact ⟨fun hdriver => absurd hdriver hother, fun i contexts stages hsound _ _ => ⟨.inl rfl, hsound⟩⟩
  | release r => exact h.releaseResource_obeys r
  | use call =>
    refine ((h.sound.use hcareful).mono fun r stages' hr => ?_).bind
    refine ⟨?_, by simp⟩
    rw [hr.1, hr.2]
    exact h

end Invariant

/-! ### Runs -/

/-- The first slot of the pool. -/
def firstSlot : Option Handle := (List.finRange Resources.maxResourceAllocations).head?

/-- A context gets the only device; it is released, and released again, and another context gets the device. -/
def handedOver : List (Event Call ((o : Op) → Ans o)) :=
  let initialise := List.replicate 15 .tick ++ [.env (obliging 101)] ++ List.replicate 15 .tick
  [.call (.acquire 0)] ++ initialise ++ [.call (.release firstSlot), .tick, .tick, .call (.release firstSlot), .tick,
    .env (obliging 100), .call (.acquire 1)] ++ initialise

end Yasouos.Kernel.Managed
