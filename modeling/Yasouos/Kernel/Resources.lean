import Yasouos.Theory.Chain
import Yasouos.Kernel.Devices
import Mathlib.Data.Fintype.Card
import Mathlib.Data.Fintype.List

/-!
# The resource manager

`resources.c` hands out devices to applications. A resource is a slot of a static
pool that ties a device to the driver and the context it was acquired with; the
resources that are allocated form a linked list that is threaded through the pool.
`resource_acquire_available` goes through the devices, takes a slot for each one
that matches the driver and is not allocated, and gives the slot back when the
driver does not manage to initialise the device. `resource_release` takes a
resource out of the list and gives its slot back.

## The model

A pointer to a resource is the number of its slot, and a pointer to a device is its
place in the list of devices. What `init_context` returns for a device is an
argument of the call, since it is up to the device. The loops over the linked list
need not end, so a call has an answer only when they do; the calls of
`init_context` and `deinit_context` are recorded, in order.

`candidates` are the devices that match the driver and are not allocated, in list order. They do
not change while the loop runs, because an attempt that fails gives back the slot it took
(`Holds.free_fill`). So the loop is a `search` of that list for the first device that initialises.

## What is proved

`Holds s l` says that the linked list of `s` has the slots `l`, and that these are
the slots in use, that the other slots are empty, that no device is held twice, and
that every device matches its driver. `acquireAvailable_eq` computes an acquisition in such
a state. `acquire_spec` and `release_spec` say what a call does: it ends; `acquire` that
finds nothing leaves the state as it was, and otherwise it puts one slot in front of the
list; `release` takes out the slot it is given, if that is in the list. So `Holds` is kept,
and it holds after any sequence of calls.
-/

namespace Yasouos.Kernel.Resources

open Yasouos.Theory

/-- `MAX_RESOURCE_ALLOCATIONS`. -/
abbrev maxResourceAllocations : ℕ := 16

/-- A pointer to a slot of the pool. -/
abbrev Slot : Type := Fin maxResourceAllocations

/-- `struct resource`. -/
structure Resource (Str : Type) where
  /-- The device that is held. -/
  device : Option ℕ
  /-- The driver it was acquired with. -/
  driver : Option (Driver Str)
  /-- The context it was acquired with. -/
  context : Option ℕ
  /-- The next resource of the allocations list. -/
  next : Option Slot
  /-- The slot is taken. -/
  inUse : Bool

/-- A slot with nothing in it. -/
def Resource.zero {Str : Type} : Resource Str := ⟨none, none, none, none, false⟩

/-- The state of the resource manager. -/
structure Manager (Str : Type) where
  /-- The device list. -/
  devices : List (Device Str)
  /-- The head of the allocations list. -/
  allocations : Option Slot
  /-- The static pool. -/
  pool : Slot → Resource Str

/-- A call that the manager makes into a driver. -/
inductive Event (Str : Type) where
  /-- `init_context` is called with a context, for a device. -/
  | init (driver : Driver Str) (context device : ℕ)
  /-- `deinit_context` is called with a context. -/
  | deinit (driver : Driver Str) (context : ℕ)

variable {Str : Type} [DecidableEq Str]

/-- The links of the allocations list. -/
def Manager.next (s : Manager Str) (r : Slot) : Option Slot := (s.pool r).next

/-- Write a slot. -/
def Manager.set (s : Manager Str) (r : Slot) (v : Resource Str) : Manager Str :=
  { s with pool := Function.update s.pool r v }

/-- The manager at boot, once it has been given the devices. -/
def start (devices : List (Device Str)) : Manager Str := ⟨devices, none, fun _ => .zero⟩

/-- `device_is_allocated`. -/
def deviceIsAllocated (s : Manager Str) (device : ℕ) : Option Bool :=
  (walk s.next (fun r => if (s.pool r).device = some device then some () else none)
    maxResourceAllocations s.allocations).map Option.isSome

/-- `resource_alloc`: the first slot that is not in use. -/
def resourceAlloc (s : Manager Str) : Option (Slot × Manager Str) :=
  ((List.finRange maxResourceAllocations).find? fun i => !(s.pool i).inUse).map fun i =>
    (i, s.set i { s.pool i with inUse := true })

/-- `resource_free`. -/
def resourceFree (s : Manager Str) (r : Slot) : Manager Str :=
  s.set r { s.pool r with inUse := false, device := none, driver := none, context := none, next := none }

/-- `resource_add_allocation`. -/
def resourceAddAllocation (s : Manager Str) (r : Slot) : Manager Str :=
  { s.set r { s.pool r with next := s.allocations } with allocations := some r }

/-- `resource_remove_allocation`. -/
def resourceRemoveAllocation (s : Manager Str) (r : Slot) : Option (Bool × Manager Str) :=
  if s.allocations = some r then some (true, { s with allocations := (s.pool r).next })
  else
    (walk s.next (fun k => if (s.pool k).next = some r then some k else none)
      maxResourceAllocations s.allocations).map fun found =>
        match found with
        | some k => (true, s.set k { s.pool k with next := (s.pool r).next })
        | none => (false, s)

/-- The slot is filled in, before the device is initialised. -/
def fill (s : Manager Str) (r : Slot) (device : ℕ) (driver : Driver Str) (context : ℕ) : Manager Str :=
  s.set r { s.pool r with device := some device, driver := some driver, context := some context }

/-- The loop of `resource_acquire_available` over the devices that are left. `init`
is what `init_context` returns for each device. -/
def acquireLoop (driver : Driver Str) (context : ℕ) (init : ℕ → ℤ) :
    List (Device Str × ℕ) → Manager Str → Option (Option Slot × List (Event Str) × Manager Str)
  | [], s => some (none, [], s)
  | (device, i) :: rest, s =>
    if !deviceMatchesDriver device driver then acquireLoop driver context init rest s
    else do
      let allocated ← deviceIsAllocated s i
      if allocated then acquireLoop driver context init rest s
      else
        match resourceAlloc s with
        | none => return (none, [], s)
        | some (r, s) =>
          let s := fill s r i driver context
          if driver.initContext then
            if init i ≠ 0 then
              let (h, t, s) ← acquireLoop driver context init rest (resourceFree s r)
              return (h, .init driver context i :: t, s)
            else return (some r, [.init driver context i], resourceAddAllocation s r)
          else return (some r, [], resourceAddAllocation s r)

/-- `resource_acquire_available`: the handle, the calls made, and the state after. -/
def acquireAvailable (driver : Option (Driver Str)) (context : Option ℕ) (init : ℕ → ℤ) (s : Manager Str) :
    Option (Option Slot × List (Event Str) × Manager Str) :=
  match driver, context with
  | some driver, some context => acquireLoop driver context init s.devices.zipIdx s
  | _, _ => some (none, [], s)

/-- The call of `deinit_context` when a resource is released. -/
def deinitEvents (v : Resource Str) : List (Event Str) :=
  match v.driver, v.context with
  | some driver, some context => if driver.deinitContext then [.deinit driver context] else []
  | _, _ => []

/-- `resource_release`: the result, the calls made, and the state after. -/
def release (r : Option Slot) (s : Manager Str) : Option (ℤ × List (Event Str) × Manager Str) :=
  match r with
  | none => some (-1, [], s)
  | some r => do
    let (removed, s) ← resourceRemoveAllocation s r
    if removed then return (0, deinitEvents (s.pool r), resourceFree s r)
    else return (-1, [], s)

/-- A call of the resource manager. -/
inductive Call (Str : Type) where
  /-- `resource_acquire_available`, with what `init_context` will return. -/
  | acquire (driver : Option (Driver Str)) (context : Option ℕ) (init : ℕ → ℤ)
  /-- `resource_release`. -/
  | release (r : Option Slot)

/-- The state after a call. -/
def Call.exec : Call Str → Manager Str → Option (Manager Str)
  | .acquire driver context init, s => (acquireAvailable driver context init s).map fun x => x.2.2
  | .release r, s => (Resources.release r s).map fun x => x.2.2

/-- The state after a sequence of calls. -/
def execAll (calls : List (Call Str)) (s : Manager Str) : Option (Manager Str) :=
  calls.foldlM (fun s call => call.exec s) s

/-! ### The allocations list -/

/-- The allocations list has the slots `l`, and the pool agrees with it. -/
structure Holds (s : Manager Str) (l : List Slot) : Prop where
  /-- The list is threaded through the slots of `l`. -/
  linked : Linked s.next s.allocations l
  /-- They are the slots in use. -/
  inUse : ∀ r, r ∈ l ↔ (s.pool r).inUse = true
  /-- The other slots are empty. -/
  empty : ∀ r, (s.pool r).inUse = false → s.pool r = .zero
  /-- No device is held twice. -/
  exclusive : ∀ r ∈ l, ∀ r' ∈ l, (s.pool r).device = (s.pool r').device → r = r'
  /-- Every device matches its driver. -/
  matched : ∀ r ∈ l, ∃ i device driver, (s.pool r).device = some i ∧ s.devices[i]? = some device ∧
    (s.pool r).driver = some driver ∧ deviceMatchesDriver device driver = true

/-- A resource is put in front of the allocations list. -/
def Manager.push (s : Manager Str) (r : Slot) (device : ℕ) (driver : Driver Str) (context : ℕ) : Manager Str :=
  { s with allocations := some r,
           pool := Function.update s.pool r ⟨some device, some driver, some context, s.allocations, true⟩ }

omit [DecidableEq Str] in
/-- The resource that is put in front of the list is the only slot that changes. -/
theorem push_pool (driver : Driver Str) (context : ℕ) (s : Manager Str) (r : Slot) (i : ℕ) :
    (s.push r i driver context).pool r = ⟨some i, some driver, some context, s.allocations, true⟩ ∧
      ∀ k, k ≠ r → (s.push r i driver context).pool k = s.pool k := by
  refine ⟨by simp [Manager.push], fun k hk => by simp [Manager.push, hk]⟩

omit [DecidableEq Str] in
theorem set_next (s : Manager Str) (r : Slot) (v : Resource Str) :
    (s.set r v).next = Function.update s.next r v.next := by
  funext k
  by_cases hk : k = r
  · subst hk
    simp [Manager.next, Manager.set]
  · simp [Manager.next, Manager.set, hk]

namespace Holds

variable {s : Manager Str} {l : List Slot} {r : Slot} {i : ℕ}

/-- The list is no longer than the pool. -/
theorem length_le (hs : Holds s l) : l.length ≤ maxResourceAllocations := by
  have h := hs.linked.nodup.length_le_card
  simpa using h

/-- A slot that is not in the list is empty. -/
theorem zero_of_not_mem (hs : Holds s l) (hr : r ∉ l) : s.pool r = .zero := by
  apply hs.empty
  rw [hs.inUse] at hr
  simpa using hr

theorem start (devices : List (Device Str)) : Holds (Resources.start devices) [] where
  linked := rfl
  inUse := by simp [Resources.start, Resource.zero]
  empty := by simp [Resources.start]
  exclusive := by simp
  matched := by simp

/-- A device is allocated when a resource of the list holds it. -/
theorem deviceIsAllocated_eq (hs : Holds s l) (i : ℕ) :
    deviceIsAllocated s i = some (decide (∃ r ∈ l, (s.pool r).device = some i)) := by
  rw [deviceIsAllocated, walk_of_linked _ hs.linked hs.length_le, Option.map_some, Option.some_inj,
    Bool.eq_iff_iff, decide_eq_true_iff, List.isSome_findSome?, List.any_eq_true]
  refine exists_congr fun r => and_congr_right fun _ => ?_
  by_cases hi : (s.pool r).device = some i <;> simp [hi]

/-- The slot that is allocated was empty. -/
theorem resourceAlloc_cases (hs : Holds s l) :
    resourceAlloc s = none ∨
      ∃ r, r ∉ l ∧ resourceAlloc s = some (r, s.set r { (Resource.zero : Resource Str) with inUse := true }) := by
  rw [resourceAlloc]
  cases hf : (List.finRange maxResourceAllocations).find? fun i => !(s.pool i).inUse with
  | none => exact .inl rfl
  | some r =>
    have hr : (s.pool r).inUse = false := by simpa using List.find?_some hf
    refine .inr ⟨r, ?_, ?_⟩
    · rw [hs.inUse]
      simp [hr]
    · simp [hs.empty r hr]

/-- A slot that is taken, filled in and given back is as it was. -/
theorem free_fill (hs : Holds s l) (hr : r ∉ l) (driver : Driver Str) (context : ℕ) :
    resourceFree (fill (s.set r { (Resource.zero : Resource Str) with inUse := true }) r i driver context) r = s := by
  have hz := hs.zero_of_not_mem hr
  simp only [Resource.zero] at hz
  simp only [resourceFree, fill, Manager.set, Function.update_self, Function.update_idem]
  rw [← hz, Function.update_eq_self]

omit [DecidableEq Str] in
/-- A slot that is taken, filled in and added is in front of the list. -/
theorem add_fill (driver : Driver Str) (context : ℕ) :
    resourceAddAllocation (fill (s.set r { (Resource.zero : Resource Str) with inUse := true }) r i driver context) r =
      s.push r i driver context := by
  simp [resourceAddAllocation, fill, Manager.set, Manager.push, Function.update_idem]

/-- A free device that matches its driver is put in front of the list, in a free
slot. -/
theorem push (hs : Holds s l) (hr : r ∉ l) {device : Device Str} {driver : Driver Str} (context : ℕ)
    (hi : s.devices[i]? = some device) (hm : deviceMatchesDriver device driver = true)
    (hfree : ∀ k ∈ l, (s.pool k).device ≠ some i) : Holds (s.push r i driver context) (r :: l) := by
  obtain ⟨hnew, hother⟩ := push_pool driver context s r i
  have hold : ∀ k ∈ l, (s.push r i driver context).pool k = s.pool k :=
    fun k hk => hother k fun hkr => hr (hkr ▸ hk)
  constructor
  · have hn : (s.push r i driver context).next = Function.update s.next r s.allocations := set_next s r _
    rw [hn]
    exact hs.linked.push hr
  · intro k
    by_cases hk : k = r
    · subst hk
      simp [hnew]
    · simp [hother k hk, hk, hs.inUse]
  · intro k hk
    by_cases hkr : k = r
    · subst hkr
      simp [hnew] at hk
    · rw [hother k hkr] at hk ⊢
      exact hs.empty k hk
  · intro k hk k' hk' heq
    rcases List.mem_cons.1 hk with rfl | hl <;> rcases List.mem_cons.1 hk' with rfl | hl'
    · rfl
    · rw [hnew, hold k' hl'] at heq
      exact absurd heq.symm (hfree k' hl')
    · rw [hnew, hold k hl] at heq
      exact absurd heq (hfree k hl)
    · rw [hold k hl, hold k' hl'] at heq
      exact hs.exclusive k hl k' hl' heq
  · intro k hk
    rcases List.mem_cons.1 hk with rfl | hk
    · exact ⟨i, device, driver, by rw [hnew], hi, by rw [hnew], hm⟩
    · rw [hold k hk]
      exact hs.matched k hk

end Holds

/-! ### Acquiring -/

section Acquire

variable {s : Manager Str} {l : List Slot} {r : Slot} {i : ℕ} (driver : Driver Str) (context : ℕ) (init : ℕ → ℤ)

/-- A device that the loop would take: it matches the driver, and no resource holds it. -/
def Candidate (s : Manager Str) (driver : Driver Str) (i : ℕ) : Prop :=
  ∃ device, s.devices[i]? = some device ∧ deviceMatchesDriver device driver = true ∧
    deviceIsAllocated s i = some false

/-- The loop calls `init_context` for a device that it would take, if there is a slot, and if
`init_context` has failed for every device before it that it would take. -/
def Tried (s : Manager Str) (driver : Driver Str) (fails : ℕ → Prop) (i : ℕ) : Prop :=
  Candidate s driver i ∧ (resourceAlloc s).isSome = true ∧ ∀ j < i, Candidate s driver j → fails j

/-- `init_context` is there and fails for the device. -/
def initFails (i : ℕ) : Bool := driver.initContext && init i != 0

/-- The calls of `init_context` for some devices, if the driver has one. -/
def initEvents (is : List ℕ) : List (Event Str) := if driver.initContext then is.map (.init driver context) else []

omit [DecidableEq Str] in
theorem init_mem_initEvents_iff (hinit : driver.initContext = true) {is : List ℕ} :
    .init driver context i ∈ initEvents driver context is ↔ i ∈ is := by
  simp [initEvents, hinit]

/-- The devices of a part of the list that match the driver and are not allocated. -/
def candidatesOf (s : Manager Str) (rest : List (Device Str × ℕ)) : List ℕ :=
  (rest.filter fun x => deviceMatchesDriver x.1 driver && deviceIsAllocated s x.2 == some false).map Prod.snd

/-- The devices that match the driver and are not allocated, in list order. -/
def candidates (s : Manager Str) : List ℕ := candidatesOf driver s s.devices.zipIdx

/-- What a search of the candidates `is` for the first device that initialises comes to, when the
slot `r` is free. -/
def search (s : Manager Str) (r : Slot) (is : List ℕ) : Option Slot × List (Event Str) × Manager Str :=
  match is.find? fun i => !initFails driver init i with
  | none => (none, initEvents driver context is, s)
  | some i =>
    (some r, initEvents driver context (is.takeWhile (initFails driver init) ++ [i]), s.push r i driver context)

omit [DecidableEq Str] in
/-- A candidate that fails is passed over. -/
theorem search_cons_of_fails (is : List ℕ) (hi : initFails driver init i = true) :
    search driver context init s r (i :: is) =
      let (h, t, s') := search driver context init s r is
      (h, .init driver context i :: t, s') := by
  have hinit : driver.initContext = true := by
    rw [initFails, Bool.and_eq_true] at hi
    exact hi.1
  simp only [search, List.find?_cons, hi, Bool.not_true, List.takeWhile_cons, if_true, List.cons_append]
  cases is.find? fun i => !initFails driver init i with
  | none => simp [initEvents, hinit]
  | some j => simp [initEvents, hinit]

omit [DecidableEq Str] in
theorem search_cons_of_initialises (is : List ℕ) (hi : initFails driver init i = false) :
    search driver context init s r (i :: is) =
      (some r, initEvents driver context [i], s.push r i driver context) := by
  simp [search, hi]

/-- With the pool full, the loop finds nothing and calls nothing. -/
theorem acquireLoop_of_full (hs : Holds s l) (hfull : resourceAlloc s = none) (rest : List (Device Str × ℕ)) :
    acquireLoop driver context init rest s = some (none, [], s) := by
  induction rest with
  | nil => rfl
  | cons x rest ih =>
    obtain ⟨device, i⟩ := x
    rw [acquireLoop, hs.deviceIsAllocated_eq, hfull]
    simp [ih]

/-- With a free slot, the loop is a search of the candidates. -/
theorem acquireLoop_of_slot (hs : Holds s l) (hr : r ∉ l)
    (halloc : resourceAlloc s = some (r, s.set r { (Resource.zero : Resource Str) with inUse := true }))
    (rest : List (Device Str × ℕ)) :
    acquireLoop driver context init rest s =
      some (search driver context init s r (candidatesOf driver s rest)) := by
  induction rest with
  | nil => simp [acquireLoop, candidatesOf, search, initEvents]
  | cons x rest ih =>
    obtain ⟨device, i⟩ := x
    rw [acquireLoop, candidatesOf, List.filter_cons]
    simp only [hs.deviceIsAllocated_eq]
    by_cases hm : deviceMatchesDriver device driver = true
    swap
    · simpa [hm, candidatesOf, hs.deviceIsAllocated_eq] using ih
    by_cases hheld : ∃ k ∈ l, (s.pool k).device = some i
    · simpa [hm, hheld, candidatesOf, hs.deviceIsAllocated_eq] using ih
    simp only [candidatesOf, hs.deviceIsAllocated_eq] at ih
    simp only [hm, hheld, halloc, Bool.not_true, Bool.false_eq_true, if_false, decide_false, Option.bind_eq_bind,
      Option.bind_some, hs.free_fill hr, Holds.add_fill, Bool.and_self, BEq.rfl, if_true, List.map_cons]
    by_cases hinit : driver.initContext = true
    · by_cases hres : init i ≠ 0
      · rw [search_cons_of_fails driver context init _ (by simp [initFails, hinit, hres])]
        simp [hinit, hres, ih]
      · rw [search_cons_of_initialises driver context init _ (by simpa [initFails, hinit] using hres)]
        simp [hinit, hres, initEvents]
    · rw [search_cons_of_initialises driver context init _ (by simp [initFails, hinit])]
      simp [hinit, initEvents]

/-- The candidates are the devices that the loop would take. -/
theorem mem_candidates_iff_candidate : i ∈ candidates driver s ↔ Candidate s driver i := by
  simp only [candidates, candidatesOf, Candidate, List.mem_map, List.mem_filter, Bool.and_eq_true, beq_iff_eq]
  constructor
  · rintro ⟨⟨device, j⟩, ⟨hx, hm, hfree⟩, rfl⟩
    exact ⟨device, List.mk_mem_zipIdx_iff_getElem?.1 hx, hm, hfree⟩
  · rintro ⟨device, hi, hm, hfree⟩
    exact ⟨(device, i), ⟨List.mk_mem_zipIdx_iff_getElem?.2 hi, hm, hfree⟩, rfl⟩

/-- They are the devices that match and that no resource of the list holds. -/
theorem mem_candidates_iff (hs : Holds s l) :
    i ∈ candidates driver s ↔ ∃ device, s.devices[i]? = some device ∧ deviceMatchesDriver device driver = true ∧
      ∀ k ∈ l, (s.pool k).device ≠ some i := by
  rw [mem_candidates_iff_candidate, Candidate]
  simp only [hs.deviceIsAllocated_eq, Option.some.injEq, decide_eq_false_iff_not, not_exists, not_and, ne_eq]

/-- They are in list order, and each is there once. -/
theorem candidates_pairwise (s : Manager Str) : (candidates driver s).Pairwise (· < ·) := by
  have hsub : (candidates driver s).Sublist (s.devices.zipIdx.map Prod.snd) := List.filter_sublist.map Prod.snd
  refine List.Pairwise.sublist hsub ?_
  rw [List.zipIdx_map_snd]
  exact List.pairwise_lt_range'

omit [DecidableEq Str] in
/-- There is no slot to be had when all are in use. -/
theorem resourceAlloc_eq_none_iff (s : Manager Str) : resourceAlloc s = none ↔ ∀ k, (s.pool k).inUse = true := by
  simp [resourceAlloc]

/-- **The call, computed.** With the pool full it does nothing. With a free slot it searches the
candidates. -/
theorem acquireAvailable_eq (hs : Holds s l) :
    ((∀ k, (s.pool k).inUse = true) ∧ acquireAvailable (some driver) (some context) init s = some (none, [], s)) ∨
      ∃ r, (s.pool r).inUse = false ∧ acquireAvailable (some driver) (some context) init s =
        some (search driver context init s r (candidates driver s)) := by
  rcases hs.resourceAlloc_cases with hfull | ⟨r, hr, halloc⟩
  · exact .inl ⟨(resourceAlloc_eq_none_iff s).1 hfull, acquireLoop_of_full driver context init hs hfull _⟩
  · refine .inr ⟨r, ?_, acquireLoop_of_slot driver context init hs hr halloc _⟩
    rw [hs.zero_of_not_mem hr]
    rfl

omit [DecidableEq Str] in
/-- The search ends at the first device that initialises, if there is one. -/
theorem search_cases (s : Manager Str) (r : Slot) (is : List ℕ) :
    ((∀ i ∈ is, initFails driver init i = true) ∧
        search driver context init s r is = (none, initEvents driver context is, s)) ∨
      ∃ before i after, is = before ++ i :: after ∧ (∀ j ∈ before, initFails driver init j = true) ∧
        initFails driver init i = false ∧
        search driver context init s r is =
          (some r, initEvents driver context (before ++ [i]), s.push r i driver context) := by
  cases hfind : is.find? fun i => !initFails driver init i with
  | none =>
    refine .inl ⟨?_, by rw [search, hfind]⟩
    intro i hi
    simpa using List.find?_eq_none.1 hfind i hi
  | some i =>
    obtain ⟨hi, before, after, rfl, hbefore⟩ := List.find?_eq_some_iff_append.1 hfind
    have hall : ∀ j ∈ before, initFails driver init j = true := fun j hj => by simpa using hbefore j hj
    have hstop : initFails driver init i = false := by simpa using hi
    refine .inr ⟨before, i, after, rfl, hall, hstop, ?_⟩
    rw [search, hfind]
    simp only [List.takeWhile_append_of_pos hall, List.takeWhile_cons, hstop, Bool.false_eq_true, if_false,
      List.append_nil]

/-- In a list in ascending order, the elements up to the first for which `F` fails are those that have only
elements with `F` before them. -/
theorem mem_append_singleton_iff {F : ℕ → Prop} {before after : List ℕ} {k : ℕ}
    (hpair : (before ++ k :: after).Pairwise (· < ·)) (hbefore : ∀ j ∈ before, F j) (hk : ¬ F k) (i : ℕ) :
    i ∈ before ++ [k] ↔ i ∈ before ++ k :: after ∧ ∀ j < i, j ∈ before ++ k :: after → F j := by
  rw [List.pairwise_append, List.pairwise_cons] at hpair
  obtain ⟨-, ⟨hafter, -⟩, hlt⟩ := hpair
  simp only [List.mem_append, List.mem_cons, List.not_mem_nil, or_false]
  constructor
  · intro hi
    refine ⟨hi.imp_right .inl, fun j hji hj => ?_⟩
    rcases hj with hj | hj
    · exact hbefore j hj
    · have hkj : k ≤ j := hj.elim (fun h => h.ge) fun h => (hafter j h).le
      rcases hi with hi | hi
      · have := hlt i hi k List.mem_cons_self
        omega
      · omega
  · rintro ⟨hi | hi | hi, hall⟩
    · exact .inl hi
    · exact .inr hi
    · exact absurd (hall k (hafter i hi) (.inr (.inl rfl))) hk

/-- The calls of `init_context` that are made. -/
theorem acquire_events (hs : Holds s l) (hinit : driver.initContext = true) :
    ∃ h t s', acquireAvailable (some driver) (some context) init s = some (h, t, s') ∧
      ∀ i, .init driver context i ∈ t ↔ Tried s driver (fun j => init j ≠ 0) i := by
  have hfails : ∀ j, initFails driver init j = true ↔ init j ≠ 0 := fun j => by simp [initFails, hinit]
  rcases acquireAvailable_eq driver context init hs with ⟨hfull, heq⟩ | ⟨r, hr, heq⟩
  · -- the pool is full
    refine ⟨none, [], s, heq, fun i => iff_of_false (by simp) ?_⟩
    rintro ⟨-, hslot, -⟩
    rw [(resourceAlloc_eq_none_iff s).2 hfull] at hslot
    cases hslot
  have hslot : (resourceAlloc s).isSome = true := by
    rw [Option.isSome_iff_ne_none, Ne, resourceAlloc_eq_none_iff]
    intro hfull
    rw [hfull r] at hr
    cases hr
  rcases search_cases driver context init s r (candidates driver s) with
    ⟨hall, hsearch⟩ | ⟨before, k, after, hcands, hbefore, hk, hsearch⟩
  · -- every candidate is tried
    rw [hsearch] at heq
    refine ⟨none, _, s, heq, fun i => ?_⟩
    rw [init_mem_initEvents_iff driver context hinit, mem_candidates_iff_candidate]
    refine (and_iff_left ⟨hslot, fun j _ hj => ?_⟩).symm
    exact (hfails j).1 (hall j ((mem_candidates_iff_candidate driver).2 hj))
  · -- every candidate up to the first that initialises
    rw [hsearch] at heq
    refine ⟨some r, _, _, heq, fun i => ?_⟩
    have hpair := candidates_pairwise driver s
    rw [hcands] at hpair
    have hmem : ∀ j, j ∈ before ++ k :: after ↔ Candidate s driver j := by
      intro j
      rw [← hcands]
      exact mem_candidates_iff_candidate driver
    have hkeep : ¬ init k ≠ 0 := by
      rw [← hfails, hk]
      simp
    rw [init_mem_initEvents_iff driver context hinit,
      mem_append_singleton_iff hpair (fun j hj => (hfails j).1 (hbefore j hj)) hkeep i]
    simp only [hmem, Tried, hslot, true_and]

/-- The call ends. Either it returns `NULL` and leaves the state as it was, or the
resource it returns has been put in front of the list, with a device that matches the
driver and that no resource held. -/
theorem acquire_spec (driver : Option (Driver Str)) (context : Option ℕ) (hs : Holds s l) :
    ∃ h t s', acquireAvailable driver context init s = some (h, t, s') ∧
      ((h = none ∧ s' = s) ∨
        ∃ r i device drv ctx, h = some r ∧ driver = some drv ∧ context = some ctx ∧ r ∉ l ∧
          s.devices[i]? = some device ∧ deviceMatchesDriver device drv = true ∧
          (∀ k ∈ l, (s.pool k).device ≠ some i) ∧ s' = s.push r i drv ctx) := by
  cases driver with
  | none => exact ⟨none, [], s, rfl, .inl ⟨rfl, rfl⟩⟩
  | some drv =>
    cases context with
    | none => exact ⟨none, [], s, rfl, .inl ⟨rfl, rfl⟩⟩
    | some ctx =>
      rcases acquireAvailable_eq drv ctx init hs with ⟨-, heq⟩ | ⟨r, hr, heq⟩
      · exact ⟨none, [], s, heq, .inl ⟨rfl, rfl⟩⟩
      rcases search_cases drv ctx init s r (candidates drv s) with
        ⟨-, hsearch⟩ | ⟨before, i, after, hcands, -, -, hsearch⟩
      · rw [hsearch] at heq
        exact ⟨none, _, s, heq, .inl ⟨rfl, rfl⟩⟩
      · rw [hsearch] at heq
        have hrl : r ∉ l := by simp [hs.inUse, hr]
        obtain ⟨device, hi, hm, hfree⟩ := (mem_candidates_iff drv hs).1 (by simp [hcands] : i ∈ candidates drv s)
        exact ⟨some r, _, _, heq, .inr ⟨r, i, device, drv, ctx, rfl, rfl, rfl, hrl, hi, hm, hfree, rfl⟩⟩

end Acquire

/-! ### Releasing -/

section Release

variable {s s' : Manager Str} {l : List Slot} {r : Slot}

/-- Only links differ, and only those of the slots in `l`. -/
structure Relinked (s s' : Manager Str) (l : List Slot) : Prop where
  /-- The devices are the same. -/
  devices : s'.devices = s.devices
  /-- The slots are the same, but for their links. -/
  pool : ∀ k, { s'.pool k with next := none } = { s.pool k with next := none }
  /-- Outside of `l` they are the same. -/
  outside : ∀ k, k ∉ l → s'.pool k = s.pool k

/-- A slot of the list is taken out of it. -/
theorem resourceRemoveAllocation_of_mem (hs : Holds s l) (hr : r ∈ l) :
    ∃ s', resourceRemoveAllocation s r = some (true, s') ∧ Linked s'.next s'.allocations (l.erase r) ∧
      Relinked s s' l := by
  by_cases hhead : s.allocations = some r
  · -- the first of the list
    obtain ⟨t, rfl, ht⟩ := (hhead ▸ hs.linked).pop
    refine ⟨{ s with allocations := (s.pool r).next }, by simp [resourceRemoveAllocation, hhead], ?_,
      rfl, fun k => rfl, fun k hk => rfl⟩
    rw [List.erase_cons_head]
    exact ht
  · -- some slot before it has a link to it
    obtain ⟨k₀, hk₀, hlink₀⟩ := (hs.linked.mem_cases hr).resolve_left hhead
    have hw := walk_of_linked (fun k => if (s.pool k).next = some r then some k else none) hs.linked hs.length_le
    cases hf : l.findSome? fun k => if (s.pool k).next = some r then some k else none with
    | none =>
      rw [List.findSome?_eq_none_iff] at hf
      have := hf k₀ hk₀
      simp only [Manager.next] at hlink₀
      simp [hlink₀] at this
    | some k =>
      obtain ⟨k', hk, hlink⟩ := List.exists_of_findSome?_eq_some hf
      obtain ⟨hnext, rfl⟩ : (s.pool k').next = some r ∧ k' = k := by simpa using hlink
      refine ⟨s.set k' { s.pool k' with next := (s.pool r).next }, ?_, ?_, rfl, ?_, ?_⟩
      · simp [resourceRemoveAllocation, hhead, hw, hf]
      · rw [set_next]
        exact hs.linked.unlink hk hnext
      · intro m
        by_cases hm : m = k'
        · subst hm
          simp [Manager.set]
        · simp [Manager.set, hm]
      · intro m hm
        have hmk : m ≠ k' := fun hmk => hm (hmk ▸ hk)
        simp [Manager.set, hmk]

/-- A slot that is not in the list is not found. -/
theorem resourceRemoveAllocation_of_not_mem (hs : Holds s l) (hr : r ∉ l) :
    resourceRemoveAllocation s r = some (false, s) := by
  have hhead : s.allocations ≠ some r := by
    intro hhead
    obtain ⟨t, rfl, -⟩ := (hhead ▸ hs.linked).pop
    simp at hr
  have hf : l.findSome? (fun k => if (s.pool k).next = some r then some k else none) = none := by
    rw [List.findSome?_eq_none_iff]
    intro k hk
    have hne : (s.pool k).next ≠ some r := fun hnext => hr (hs.linked.next_mem hk hnext).1
    simp [hne]
  simp [resourceRemoveAllocation, hhead, walk_of_linked _ hs.linked hs.length_le, hf]

/-- Once a slot has been taken out of the list and given back, the pool agrees with
the list again. -/
theorem Holds.free (hs : Holds s l) (hr : r ∈ l) (hl : Linked s'.next s'.allocations (l.erase r))
    (hrel : Relinked s s' l) : Holds (resourceFree s' r) (l.erase r) := by
  have hnd := hs.linked.nodup
  have hmem : ∀ k, k ∈ l.erase r ↔ k ≠ r ∧ k ∈ l := fun k => hnd.mem_erase_iff
  have hfreed : (resourceFree s' r).pool r = .zero := by simp [resourceFree, Manager.set, Resource.zero]
  have hother : ∀ k, k ≠ r → (resourceFree s' r).pool k = s'.pool k := by
    intro k hk
    simp [resourceFree, Manager.set, hk]
  have hsame : ∀ k, (s'.pool k).device = (s.pool k).device ∧ (s'.pool k).driver = (s.pool k).driver ∧
      (s'.pool k).inUse = (s.pool k).inUse := by
    intro k
    have h := hrel.pool k
    simp only [Resource.mk.injEq] at h
    exact ⟨h.1, h.2.1, h.2.2.2.2⟩
  constructor
  · have hn : (resourceFree s' r).next = Function.update s'.next r none := set_next s' r _
    rw [hn]
    exact hl.update (by simp [hmem]) none
  · intro k
    by_cases hk : k = r
    · subst hk
      simp [hfreed, hmem, Resource.zero]
    · rw [hmem, hother k hk, (hsame k).2.2, hs.inUse]
      simp [hk]
  · intro k hk
    by_cases hkr : k = r
    · subst hkr
      exact hfreed
    · rw [hother k hkr, (hsame k).2.2] at hk
      have hkl : k ∉ l := by
        rw [hs.inUse]
        simp [hk]
      rw [hother k hkr, hrel.outside k hkl]
      exact hs.empty k hk
  · intro k hk k' hk' heq
    rw [hmem] at hk hk'
    rw [hother k hk.1, hother k' hk'.1, (hsame k).1, (hsame k').1] at heq
    exact hs.exclusive k hk.2 k' hk'.2 heq
  · intro k hk
    rw [hmem] at hk
    have hdev : (resourceFree s' r).devices = s.devices := hrel.devices
    rw [hother k hk.1, (hsame k).1, (hsame k).2.1, hdev]
    exact hs.matched k hk.2

/-- The call ends. A slot of the list is taken out; for any other pointer, `NULL`
included, the call fails and the state is as it was. -/
theorem release_spec (hs : Holds s l) (r : Option Slot) :
    ∃ v t s', release r s = some (v, t, s') ∧
      ((v = 0 ∧ ∃ k ∈ l, r = some k ∧ Holds s' (l.erase k) ∧ s'.devices = s.devices) ∨
        (v = -1 ∧ (∀ k ∈ l, r ≠ some k) ∧ t = [] ∧ s' = s)) := by
  cases r with
  | none => exact ⟨-1, [], s, rfl, .inr ⟨rfl, by simp, rfl, rfl⟩⟩
  | some r =>
    by_cases hr : r ∈ l
    · obtain ⟨s', heq, hl, hrel⟩ := resourceRemoveAllocation_of_mem hs hr
      refine ⟨0, deinitEvents (s'.pool r), resourceFree s' r, by simp [release, heq], .inl ⟨rfl, r, hr, rfl, ?_⟩⟩
      exact ⟨hs.free hr hl hrel, hrel.devices⟩
    · refine ⟨-1, [], s, by simp [release, resourceRemoveAllocation_of_not_mem hs hr], .inr ⟨rfl, ?_, rfl, rfl⟩⟩
      rintro k hk heq
      obtain rfl : r = k := by simpa using heq
      exact hr hk

end Release

/-! ### Sequences of calls -/

/-- A call ends, and the pool still agrees with the list. -/
theorem exec_holds {s : Manager Str} {l : List Slot} (hs : Holds s l) (call : Call Str) :
    ∃ s' l', call.exec s = some s' ∧ Holds s' l' ∧ s'.devices = s.devices := by
  cases call with
  | acquire driver context init =>
    obtain ⟨h, t, s', heq, hspec⟩ := acquire_spec init driver context hs
    have hexec : (Call.acquire driver context init).exec s = some s' := by simp [Call.exec, heq]
    rcases hspec with ⟨-, rfl⟩ | ⟨r, i, device, drv, ctx, -, -, -, hr, hi, hm, hfree, rfl⟩
    · exact ⟨s', l, hexec, hs, rfl⟩
    · exact ⟨_, r :: l, hexec, hs.push hr ctx hi hm hfree, rfl⟩
  | release r =>
    obtain ⟨v, t, s', heq, hspec⟩ := release_spec hs r
    have hexec : (Call.release r).exec s = some s' := by simp [Call.exec, heq]
    rcases hspec with ⟨-, k, -, -, hs', hdev⟩ | ⟨-, -, -, rfl⟩
    · exact ⟨s', _, hexec, hs', hdev⟩
    · exact ⟨s', l, hexec, hs, rfl⟩

/-- Every sequence of calls ends, and the pool agrees with the list after it. -/
theorem execAll_holds (calls : List (Call Str)) {s : Manager Str} {l : List Slot} (hs : Holds s l) :
    ∃ s' l', execAll calls s = some s' ∧ Holds s' l' ∧ s'.devices = s.devices := by
  induction calls generalizing s l with
  | nil => exact ⟨s, l, rfl, hs, rfl⟩
  | cons call calls ih =>
    obtain ⟨s₁, l₁, heq₁, hs₁, hdev₁⟩ := exec_holds hs call
    obtain ⟨s₂, l₂, heq₂, hs₂, hdev₂⟩ := ih hs₁
    refine ⟨s₂, l₂, ?_, hs₂, hdev₂.trans hdev₁⟩
    rw [execAll, List.foldlM_cons, heq₁]
    exact heq₂

/-- Whatever devices there are, whatever the drivers' `init_context` returns, and
whatever sequence of calls is made — `resource_release` being given any slot, or
`NULL` — the calls all end, and in the state they lead to the allocations list is
acyclic and consists of the slots in use; the other slots are empty; no two resources
hold the same device; and every resource holds a device of the list, which matches
its driver's id table. -/
theorem execAll_exclusive (devices : List (Device Str)) (calls : List (Call Str)) :
    ∃ s l, execAll calls (start devices) = some s ∧
      Linked s.next s.allocations l ∧ l.Nodup ∧
      (∀ r, r ∈ l ↔ (s.pool r).inUse = true) ∧
      (∀ r, (s.pool r).inUse = false →
        (s.pool r).device = none ∧ (s.pool r).driver = none ∧ (s.pool r).context = none ∧ (s.pool r).next = none) ∧
      (∀ r ∈ l, ∀ r' ∈ l, (s.pool r).device = (s.pool r').device → r = r') ∧
      ∀ r ∈ l, ∃ i device driver, (s.pool r).device = some i ∧ devices[i]? = some device ∧
        (s.pool r).driver = some driver ∧ deviceMatchesDriver device driver = true := by
  obtain ⟨s, l, heq, hs, hdev⟩ := execAll_holds calls (Holds.start devices)
  have hdev' : s.devices = devices := hdev
  refine ⟨s, l, heq, hs.linked, hs.linked.nodup, hs.inUse, ?_, hs.exclusive, ?_⟩
  · intro r hr
    rw [hs.empty r hr]
    exact ⟨rfl, rfl, rfl, rfl⟩
  · intro r hr
    rw [← hdev']
    exact hs.matched r hr

end Yasouos.Kernel.Resources
