import Yasouos.Drivers.VirtioInit

/-!
# Acquiring network devices

`apps/netdev-mac/netdev.c`: `netdev_acquire_all` fills an array with the network devices that it
can get, and gives each a context from one of three static arrays of four. Which contexts have been
given away is kept in static variables, from one call to the next.

## The model

A context is an element of one of the arrays, known by the network card it is for and its number;
where the arrays are in memory is a parameter. The contents of a context are not modelled. What
`init_context` returns is a parameter as well, and may be different for every call that the
function makes of `resource_acquire_available`. A run is a sequence of calls of
`netdev_acquire_all`, mixed with any calls of the resource manager.

## What is proved

`tryDrivers_spec` is about one round of the loop: it takes a context that was never taken, or all
three cards have run out of contexts or of devices. From it `netdevAcquireAll_run` follows for every run:
nothing is given away twice, and no array is indexed beyond its end.
-/

namespace Yasouos.Apps.Netdev

open Kernel (Device Driver deviceMatchesDriver)
open Kernel.Resources (Manager Slot Holds Call acquireAvailable acquire_spec exec_holds)

/-- The network cards. -/
inductive Card where
  | rtl8139
  | virtioNet
  | e1000
  deriving DecidableEq

/-- `rtl8139_get_driver`, `virtio_net_get_driver` and `e1000_get_driver`. -/
def Card.driver : Card → Driver String
  | rtl8139 => ⟨some [⟨none, 0x10EC, 0x8139⟩, ⟨none, 0, 0⟩], true, true⟩
  | virtioNet => Drivers.VirtioInit.Virtio.driver .net
  | e1000 => ⟨some [⟨none, 0x8086, 0x100E⟩, ⟨none, 0, 0⟩], true, true⟩

/-- `MAX_NETDEV_CONTEXTS_PER_DRIVER`. -/
abbrev maxNetdevContextsPerDriver : ℕ := 4

/-- An element of the array of contexts for a card. -/
structure Context where
  card : Card
  index : ℕ
  deriving DecidableEq

/-- `device_entry_t`. -/
structure Entry where
  resource : Slot
  driver : Card
  context : Context

/-- The resource manager and the static variables. -/
structure State where
  manager : Manager String
  /-- `rtl8139_index`, `virtio_net_index` and `e1000_index`. -/
  index : Card → ℕ
  /-- How often `resource_acquire_available` has been called. -/
  attempts : ℕ
  /-- The elements of the arrays whose address has been taken. -/
  accessed : List Context

/-- The state at boot. -/
def start (devices : List (Device String)) : State := ⟨Kernel.Resources.start devices, fun _ => 0, 0, []⟩

section Model

variable (addr : Context → ℕ) (init : ℕ → ℕ → ℤ)

/-- The block for one card. -/
def tryDriver (card : Card) (s : State) : Option (Option Entry × State) :=
  if s.index card < maxNetdevContextsPerDriver then do
    let context : Context := ⟨card, s.index card⟩
    let (resource, _, manager) ←
      acquireAvailable (some card.driver) (some (addr context)) (init s.attempts) s.manager
    let s := { s with manager := manager, attempts := s.attempts + 1, accessed := s.accessed ++ [context] }
    match resource with
    | some resource =>
      return (some ⟨resource, card, context⟩, { s with index := Function.update s.index card (s.index card + 1) })
    | none => return (none, s)
  else return (none, s)

/-- The blocks, one after another, until one has got a device. -/
def tryDrivers : List Card → State → Option (Option Entry × State)
  | [], s => some (none, s)
  | card :: cards, s => do
    match ← tryDriver addr init card s with
    | (some entry, s) => return (some entry, s)
    | (none, s) => tryDrivers cards s

/-- The loop, while there is room for `n` more entries. -/
def acquireLoop : ℕ → State → Option (List Entry × State)
  | 0, s => some ([], s)
  | n + 1, s => do
    match ← tryDrivers addr init [.rtl8139, .virtioNet, .e1000] s with
    | (none, s) => return ([], s)
    | (some entry, s) =>
      let (entries, s) ← acquireLoop n s
      return (entry :: entries, s)

/-- `netdev_acquire_all`: the entries it fills in. What it returns is how many there are. -/
def netdevAcquireAll (maxDevices : ℤ) (s : State) : Option (List Entry × State) :=
  acquireLoop addr init maxDevices.toNat s

/-- What happens in a run. -/
inductive Op where
  /-- `netdev_acquire_all` is called. -/
  | netdev (maxDevices : ℤ)
  /-- The resource manager is called by someone else. -/
  | other (call : Call String)

/-- What a call of `netdev_acquire_all` has done. -/
structure Outcome where
  maxDevices : ℤ
  entries : List Entry
  before : State
  after : State

/-- A run: what its calls of `netdev_acquire_all` have done, and the state it leads to. -/
def run : List Op → State → Option (List Outcome × State)
  | [], s => some ([], s)
  | .netdev maxDevices :: ops, s => do
    let (entries, s₁) ← netdevAcquireAll addr init maxDevices s
    let (outcomes, s₂) ← run ops s₁
    return (⟨maxDevices, entries, s, s₁⟩ :: outcomes, s₂)
  | .other call :: ops, s => do
    let manager ← call.exec s.manager
    run ops { s with manager := manager }

end Model

/-! ### The invariant -/

variable {addr : Context → ℕ} {init : ℕ → ℕ → ℤ} {devices : List (Device String)} {s s' : State} {entry : Entry}

/-- The manager is sound, the indices are in bounds, and no array was indexed beyond its end. -/
structure Inv (devices : List (Device String)) (s : State) : Prop where
  holds : ∃ l, Holds s.manager l
  devices : s.manager.devices = devices
  index_le : ∀ card, s.index card ≤ maxNetdevContextsPerDriver
  accessed : ∀ context ∈ s.accessed, context.index < maxNetdevContextsPerDriver

theorem Inv.start (devices : List (Device String)) : Inv devices (start devices) where
  holds := ⟨[], Holds.start devices⟩
  devices := rfl
  index_le := fun _ => Nat.zero_le _
  accessed := by simp [Netdev.start]

/-- The resource of an entry is in use, for a device that matches the driver, with the context of the entry. -/
def Held (addr : Context → ℕ) (s : State) (entry : Entry) : Prop :=
  ∃ i device, (s.manager.pool entry.resource).inUse = true ∧ (s.manager.pool entry.resource).device = some i ∧
    s.manager.devices[i]? = some device ∧ deviceMatchesDriver device entry.driver.driver = true ∧
    (s.manager.pool entry.resource).driver = some entry.driver.driver ∧
    (s.manager.pool entry.resource).context = some (addr entry.context)

theorem Held.of_pool (h : Held addr s entry) (hpool : s'.manager.pool entry.resource = s.manager.pool entry.resource)
    (hdevices : s'.manager.devices = s.manager.devices) : Held addr s' entry := by
  rwa [Held, hpool, hdevices]

/-- The card has no contexts left, or `resource_acquire_available` has found nothing for it in the state that is still
there, after the first `since` attempts. -/
def Exhausted (addr : Context → ℕ) (init : ℕ → ℕ → ℤ) (since : ℕ) (s : State) (card : Card) : Prop :=
  s.index card = maxNetdevContextsPerDriver ∨
    ∃ attempt events, since ≤ attempt ∧ attempt < s.attempts ∧
      acquireAvailable (some card.driver) (some (addr ⟨card, s.index card⟩)) (init attempt) s.manager =
        some (none, events, s.manager)

/-- An entry has been filled in, with the next context of its card. -/
structure Filled (addr : Context → ℕ) (s : State) (entry : Entry) (s' : State) : Prop where
  context : entry.context = ⟨entry.driver, s.index entry.driver⟩
  attempts_le : s.attempts ≤ s'.attempts
  index : s'.index = Function.update s.index entry.driver (s.index entry.driver + 1)
  held : Held addr s' entry
  keeps : ∀ old, Held addr s old → Held addr s' old

/-- Nothing has been found, and nothing has changed but the log. -/
structure Same (s s' : State) : Prop where
  manager : s'.manager = s.manager
  index : s'.index = s.index
  attempts_le : s.attempts ≤ s'.attempts

/-! ### One round of the loop -/

/-- The block for one card. -/
theorem tryDriver_spec (addr : Context → ℕ) (init : ℕ → ℕ → ℤ) (card : Card) (h : Inv devices s) :
    ∃ found s', tryDriver addr init card s = some (found, s') ∧ Inv devices s' ∧
      ((found = none ∧ Same s s' ∧ Exhausted addr init s.attempts s' card) ∨
        ∃ entry, found = some entry ∧ Filled addr s entry s') := by
  by_cases hlt : s.index card < maxNetdevContextsPerDriver
  · obtain ⟨l, hs⟩ := h.holds
    obtain ⟨found, events, manager, hrun, hspec⟩ :=
      acquire_spec (init s.attempts) (some card.driver) (some (addr ⟨card, s.index card⟩)) hs
    have haccessed : ∀ context ∈ s.accessed ++ [⟨card, s.index card⟩], context.index < maxNetdevContextsPerDriver := by
      intro context hmem
      rcases List.mem_append.1 hmem with hmem | hmem
      · exact h.accessed context hmem
      · obtain rfl := List.mem_singleton.1 hmem
        exact hlt
    simp only [tryDriver, if_pos hlt, hrun, Option.bind_eq_bind, Option.bind_some]
    rcases hspec with ⟨rfl, rfl⟩ | ⟨r, i, device, driver, context, rfl, hdriver, hcontext, hr, hi, hmatch, hfree, rfl⟩
    · refine ⟨none, _, rfl, ⟨⟨l, hs⟩, h.devices, h.index_le, haccessed⟩, Or.inl ⟨rfl, ⟨rfl, rfl, Nat.le_succ _⟩, ?_⟩⟩
      exact Or.inr ⟨s.attempts, events, le_refl _, Nat.lt_succ_self _, hrun⟩
    · obtain rfl := Option.some.inj hdriver
      obtain rfl := Option.some.inj hcontext
      have hpool : (s.manager.push r i card.driver (addr ⟨card, s.index card⟩)).pool r =
          ⟨some i, some card.driver, some (addr ⟨card, s.index card⟩), s.manager.allocations, true⟩ :=
        Function.update_self _ _ _
      refine ⟨_, _, rfl, ⟨⟨r :: l, hs.push hr _ hi hmatch hfree⟩, h.devices, ?_, haccessed⟩,
        Or.inr ⟨_, rfl, rfl, Nat.le_succ _, rfl, ?_, ?_⟩⟩
      · intro other
        change Function.update s.index card (s.index card + 1) other ≤ _
        by_cases hother : other = card
        · rw [hother, Function.update_self]
          exact hlt
        · rw [Function.update_of_ne hother]
          exact h.index_le other
      · refine ⟨i, device, ?_, ?_, hi, hmatch, ?_, ?_⟩
        all_goals exact congrArg _ hpool
      · intro old hold
        have hne : old.resource ≠ r := by
          obtain ⟨_, _, huse, -⟩ := hold
          rintro rfl
          exact hr ((hs.inUse _).2 huse)
        exact hold.of_pool (Function.update_of_ne hne _ _) rfl
  · refine ⟨none, s, if_neg hlt, h, Or.inl ⟨rfl, ⟨rfl, rfl, le_refl _⟩, Or.inl ?_⟩⟩
    have hle := h.index_le card
    omega

theorem Exhausted.mono {since since' : ℕ} {card : Card} (hsince : since' ≤ since) (hsame : Same s s')
    (h : Exhausted addr init since s card) : Exhausted addr init since' s' card := by
  rw [Exhausted, hsame.manager, hsame.index]
  rcases h with h | ⟨attempt, events, hle, hlt, hrun⟩
  · exact Or.inl h
  · exact Or.inr ⟨attempt, events, hsince.trans hle, hlt.trans_le hsame.attempts_le, hrun⟩

theorem Filled.of_same {s₁ : State} (hsame : Same s s₁) (h : Filled addr s₁ entry s') : Filled addr s entry s' where
  context := hsame.index ▸ h.context
  attempts_le := hsame.attempts_le.trans h.attempts_le
  index := hsame.index ▸ h.index
  held := h.held
  keeps := by
    intro old hold
    apply h.keeps
    rw [Held, hsame.manager]
    exact hold

/-- The blocks for several cards. -/
theorem tryDrivers_spec (addr : Context → ℕ) (init : ℕ → ℕ → ℤ) (cards : List Card) (h : Inv devices s) :
    ∃ found s', tryDrivers addr init cards s = some (found, s') ∧ Inv devices s' ∧
      ((found = none ∧ Same s s' ∧ ∀ card ∈ cards, Exhausted addr init s.attempts s' card) ∨
        ∃ entry, found = some entry ∧ Filled addr s entry s') := by
  induction cards generalizing s with
  | nil => exact ⟨none, s, rfl, h, Or.inl ⟨rfl, ⟨rfl, rfl, le_refl _⟩, by simp⟩⟩
  | cons card cards ih =>
    obtain ⟨found, s₁, hrun, h₁, hspec⟩ := tryDriver_spec addr init card h
    rcases hspec with ⟨rfl, hsame, hcard⟩ | ⟨entry, rfl, hfilled⟩
    · obtain ⟨found, s₂, hrest, h₂, hspec⟩ := ih h₁
      refine ⟨found, s₂, by simp only [tryDrivers, hrun, hrest, Option.bind_eq_bind, Option.bind_some], h₂, ?_⟩
      rcases hspec with ⟨rfl, hsame', hcards⟩ | ⟨entry, rfl, hfilled⟩
      · refine Or.inl ⟨rfl, ⟨hsame'.manager.trans hsame.manager, hsame'.index.trans hsame.index,
          hsame.attempts_le.trans hsame'.attempts_le⟩, ?_⟩
        refine List.forall_mem_cons.2 ⟨hcard.mono (le_refl _) hsame', fun other hother => ?_⟩
        exact (hcards other hother).mono hsame.attempts_le ⟨rfl, rfl, le_refl _⟩
      · exact Or.inr ⟨entry, rfl, hfilled.of_same hsame⟩
    · refine ⟨some entry, s₁, ?_, h₁, Or.inr ⟨entry, rfl, hfilled⟩⟩
      simp only [tryDrivers, hrun, Option.bind_eq_bind, Option.bind_some]
      rfl

/-! ### Contexts -/

/-- The contexts of the entries are of the type of their driver, and are those that the indices have passed over on the
way from `s` to `s'`. -/
structure Fresh (s s' : State) (entries : List Entry) : Prop where
  mono : ∀ card, s.index card ≤ s'.index card
  typed : ∀ e ∈ entries, e.context.card = e.driver
  passed : ∀ e ∈ entries, s.index e.context.card ≤ e.context.index ∧ e.context.index < s'.index e.context.card
  nodup : (entries.map Entry.context).Nodup

theorem Fresh.nil (h : s'.index = s.index) : Fresh s s' [] where
  mono := fun card => (congrFun h card).ge
  typed := by simp
  passed := by simp
  nodup := List.nodup_nil

theorem Fresh.append {s₁ s₂ : State} {es es' : List Entry} (h : Fresh s s₁ es) (h' : Fresh s₁ s₂ es') :
    Fresh s s₂ (es ++ es') where
  mono := fun card => (h.mono card).trans (h'.mono card)
  typed := List.forall_mem_append.2 ⟨h.typed, h'.typed⟩
  passed := by
    refine List.forall_mem_append.2 ⟨fun e he => ?_, fun e he => ?_⟩
    · exact ⟨(h.passed e he).1, (h.passed e he).2.trans_le (h'.mono _)⟩
    · exact ⟨(h.mono _).trans (h'.passed e he).1, (h'.passed e he).2⟩
  nodup := by
    rw [List.map_append, List.nodup_append]
    refine ⟨h.nodup, h'.nodup, ?_⟩
    intro c hc c' hc' heq
    obtain ⟨e, he, rfl⟩ := List.mem_map.1 hc
    obtain ⟨e', he', rfl⟩ := List.mem_map.1 hc'
    have hlt := (h.passed e he).2
    have hle := (h'.passed e' he').1
    rw [← heq] at hle
    omega

theorem Filled.fresh (h : Filled addr s entry s') : Fresh s s' [entry] where
  mono := by
    intro card
    rw [h.index]
    by_cases hcard : card = entry.driver
    · rw [hcard, Function.update_self]
      exact Nat.le_succ _
    · rw [Function.update_of_ne hcard]
  typed := by
    rintro e he
    obtain rfl := List.mem_singleton.1 he
    rw [h.context]
  passed := by
    rintro e he
    obtain rfl := List.mem_singleton.1 he
    rw [h.context, h.index, Function.update_self]
    exact ⟨le_refl _, Nat.lt_succ_self _⟩
  nodup := List.nodup_singleton _

/-! ### One call -/

theorem Card.mem_all (card : Card) : card ∈ [Card.rtl8139, .virtioNet, .e1000] := by
  cases card <;> decide

/-- The loop: every entry is held when it is over, and if there is room left, all cards are exhausted. -/
theorem acquireLoop_spec (addr : Context → ℕ) (init : ℕ → ℕ → ℤ) (n : ℕ) (h : Inv devices s) :
    ∃ entries s', acquireLoop addr init n s = some (entries, s') ∧ Inv devices s' ∧ Fresh s s' entries ∧
      entries.length ≤ n ∧ (∀ e, Held addr s e ∨ e ∈ entries → Held addr s' e) ∧
      (entries.length < n → ∀ card, Exhausted addr init s.attempts s' card) := by
  induction n generalizing s with
  | zero =>
    refine ⟨[], s, rfl, h, Fresh.nil rfl, le_refl _, ?_, fun hlt => absurd hlt (Nat.lt_irrefl _)⟩
    rintro e (he | he)
    · exact he
    · exact absurd he List.not_mem_nil
  | succ n ih =>
    obtain ⟨found, s₁, hrun, h₁, hspec⟩ := tryDrivers_spec addr init [.rtl8139, .virtioNet, .e1000] h
    rcases hspec with ⟨rfl, hsame, hall⟩ | ⟨entry, rfl, hfilled⟩
    · refine ⟨[], s₁, ?_, h₁, Fresh.nil hsame.index, Nat.zero_le _, ?_, ?_⟩
      · simp only [acquireLoop, hrun, Option.bind_eq_bind, Option.bind_some]
        rfl
      · rintro e (he | he)
        · rw [Held, hsame.manager]
          exact he
        · exact absurd he List.not_mem_nil
      · intro _ card
        exact hall card card.mem_all
    · obtain ⟨entries, s₂, hrest, h₂, hfresh, hlen, hheld, hshort⟩ := ih h₁
      refine ⟨entry :: entries, s₂, ?_, h₂, hfilled.fresh.append hfresh, Nat.succ_le_succ hlen, ?_, ?_⟩
      · simp only [acquireLoop, hrun, hrest, Option.bind_eq_bind, Option.bind_some]
        rfl
      · rintro e (he | he)
        · exact hheld e (Or.inl (hfilled.keeps e he))
        · rcases List.mem_cons.1 he with rfl | he
          · exact hheld e (Or.inl hfilled.held)
          · exact hheld e (Or.inr he)
      · intro hlt card
        exact (hshort (Nat.lt_of_succ_lt_succ hlt) card).mono hfilled.attempts_le ⟨rfl, rfl, le_refl _⟩

/-! ### Runs -/

/-- The entries of a run. -/
def entriesOf (outcomes : List Outcome) : List Entry := outcomes.flatMap Outcome.entries

/-- What a call of `netdev_acquire_all` may do: the entries are within bounds, each is held, and there is room left only
if all cards are exhausted. -/
structure Sound (addr : Context → ℕ) (init : ℕ → ℕ → ℤ) (devices : List (Device String)) (o : Outcome) : Prop where
  length_le : o.entries.length ≤ o.maxDevices.toNat
  devices : o.after.manager.devices = devices
  held : ∀ e ∈ o.entries, Held addr o.after e
  short : o.entries.length < o.maxDevices → ∀ card, Exhausted addr init o.before.attempts o.after card

theorem run_inv (ops : List Op) (h : Inv devices s) :
    ∃ outcomes s', run addr init ops s = some (outcomes, s') ∧ Inv devices s' ∧ Fresh s s' (entriesOf outcomes) ∧
      ∀ o ∈ outcomes, Sound addr init devices o := by
  induction ops generalizing s with
  | nil => exact ⟨[], s, rfl, h, Fresh.nil rfl, by simp⟩
  | cons op ops ih =>
    cases op with
    | netdev maxDevices =>
      obtain ⟨entries, s₁, hrun, h₁, hfresh₁, hlen, hheld, hshort⟩ := acquireLoop_spec addr init maxDevices.toNat h
      obtain ⟨outcomes, s₂, hrest, h₂, hfresh₂, hsound⟩ := ih h₁
      refine ⟨⟨maxDevices, entries, s, s₁⟩ :: outcomes, s₂, ?_, h₂, ?_, ?_⟩
      · simp only [run, netdevAcquireAll, hrun, hrest, Option.bind_eq_bind, Option.bind_some]
        rfl
      · exact hfresh₁.append hfresh₂
      · refine List.forall_mem_cons.2 ⟨⟨hlen, h₁.devices, fun e he => hheld e (Or.inr he), fun hlt => ?_⟩, hsound⟩
        exact hshort (by simp only at hlt; omega)
    | other call =>
      obtain ⟨l, hs⟩ := h.holds
      obtain ⟨manager, l', hexec, hs', hdevices⟩ := exec_holds hs call
      have h₁ : Inv devices { s with manager := manager } :=
        ⟨⟨l', hs'⟩, hdevices.trans h.devices, h.index_le, h.accessed⟩
      obtain ⟨outcomes, s₂, hrest, h₂, hfresh₂, hsound⟩ := ih h₁
      refine ⟨outcomes, s₂, ?_, h₂, ?_, hsound⟩
      · simp only [run, hexec, hrest, Option.bind_eq_bind, Option.bind_some]
      · exact ⟨hfresh₂.mono, hfresh₂.typed, hfresh₂.passed, hfresh₂.nodup⟩

/-- Every run ends. Each of its calls fills in at most as many entries as there is room for, each with a resource for a
device that matches its driver, and leaves room only if every card has run out of contexts or of devices. The contexts
of all entries of the run are different and of the type of their driver, and no array is indexed beyond its end. -/
theorem netdevAcquireAll_run (addr : Context → ℕ) (init : ℕ → ℕ → ℤ) (devices : List (Device String)) (ops : List Op) :
    ∃ outcomes s, run addr init ops (start devices) = some (outcomes, s) ∧
      (∀ o ∈ outcomes, Sound addr init devices o) ∧ ((entriesOf outcomes).map Entry.context).Nodup ∧
      (∀ e ∈ entriesOf outcomes, e.context.card = e.driver) ∧ ∀ context ∈ s.accessed, context.index < 4 := by
  obtain ⟨outcomes, s, hrun, hinv, hfresh, hsound⟩ := run_inv ops (Inv.start devices)
  exact ⟨outcomes, s, hrun, hsound, hfresh.nodup, hfresh.typed, hinv.accessed⟩

end Yasouos.Apps.Netdev
