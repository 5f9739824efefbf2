import Yasouos.Kernel.Devices
import Yasouos.Theory.Chain
import Mathlib.Data.List.FinRange
import Mathlib.Data.List.Induction

/-!
# The registry of devices

`kernel/devices/devices.c`: the devices that are found are copied into an array and chained up; then
those of depth 1 are made children of the first one of depth 0, and the tree can be printed.

## The model

A pointer to a device is its place in the array `device_storage`. The links of the records are
functions of the place, beside the fields that describe the devices. The loops that follow a link
get a number of visits, and have no result if these do not suffice; so does the printer, whose
recursion follows two links. A printed line is what it says, and the device it is about; the title
is left out.

## What is proved

However many devices are added and whatever their depths, the chain holds the first 128 of them in
order, the links form a forest, and the printer ends and prints every device of the chain once:
`registry_of_devices`.
-/

namespace Yasouos.Kernel

open Yasouos.Theory

/-- A pointer into `device_storage`. -/
abbrev Ptr : Type := Fin 128

/-- The static variables of `devices.c`. -/
structure Registry (Str : Type) where
  /-- The fields that describe a device. -/
  device : Ptr → Discovered Str
  /-- The name of its driver, if it has one. -/
  driver : Ptr → Option Str
  parent : Ptr → Option Ptr
  firstChild : Ptr → Option Ptr
  nextSibling : Ptr → Option Ptr
  next : Ptr → Option Ptr
  /-- `device_count`. -/
  deviceCount : ℕ
  /-- `device_list_head`. -/
  head : Option Ptr
  /-- `device_tree_root`. -/
  root : Option Ptr

namespace Registry

variable {Str : Type}

/-- Before any device has been added. -/
def empty : Registry Str where
  device _ := { (Device.zero : Device Str) with bus := 0, deviceNum := 0, function := 0 }
  driver _ := none
  parent _ := none
  firstChild _ := none
  nextSibling _ := none
  next _ := none
  deviceCount := 0
  head := none
  root := none

/-! ### Adding devices -/

/-- The copy of a device in its place, with all links empty. -/
def store (r : Registry Str) (i : Ptr) (d : Discovered Str) : Registry Str :=
  { r with
    device := Function.update r.device i d
    driver := Function.update r.driver i none
    parent := Function.update r.parent i none
    firstChild := Function.update r.firstChild i none
    nextSibling := Function.update r.nextSibling i none
    next := Function.update r.next i none }

/-- The loop to the last device of the chain. -/
def lastDevice (r : Registry Str) (h : Ptr) : Option (Option Ptr) :=
  walk r.next (fun i => if (r.next i).isNone then some i else none) 128 (some h)

/-- `add_device_to_registry`. -/
def addDeviceToRegistry (r : Registry Str) (d : Discovered Str) : Option (Registry Str) :=
  if hfull : 128 ≤ r.deviceCount then some r
  else
    let i : Ptr := ⟨r.deviceCount, Nat.lt_of_not_le hfull⟩
    let r := r.store i d
    match r.head with
    | none => some { r with head := some i, deviceCount := r.deviceCount + 1 }
    | some h =>
      match r.lastDevice h with
      | some (some last) =>
        some { r with next := Function.update r.next last (some i), deviceCount := r.deviceCount + 1 }
      | _ => none

/-- The calls of `add_device_to_registry` for a sequence of devices. -/
def addDevices (r : Registry Str) (ds : List (Discovered Str)) : Option (Registry Str) :=
  ds.foldlM addDeviceToRegistry r

/-! ### The tree -/

/-- The second loop of `build_tree_hierarchy`, from `current` on. -/
def linkChildren (root : Ptr) : ℕ → Option Ptr → Option Ptr → Registry Str → Option (Registry Str)
  | _, none, _, r => some r
  | 0, some _, _, _ => none
  | n + 1, some current, lastChild, r =>
    if (r.device current).depth = 1 ∧ current ≠ root then
      let r := { r with parent := Function.update r.parent current (some root) }
      if r.firstChild root = none then
        let r := { r with firstChild := Function.update r.firstChild root (some current) }
        linkChildren root n (r.next current) (some current) r
      else
        match lastChild with
        | some last =>
          let r := { r with nextSibling := Function.update r.nextSibling last (some current) }
          linkChildren root n (r.next current) (some current) r
        | none => linkChildren root n (r.next current) none r
    else linkChildren root n (r.next current) lastChild r

/-- `build_tree_hierarchy`. -/
def buildTreeHierarchy (r : Registry Str) : Option (Registry Str) :=
  match walk r.next (fun i => if (r.device i).depth = 0 then some i else none) 128 r.head with
  | none => none
  | some none => some r
  | some (some root) => linkChildren root 128 r.head none { r with root := some root }

/-! ### Printing -/

/-- A line of the printer. -/
structure Line (Str : Type) where
  /-- The device it is about. -/
  device : Ptr
  indent : ℕ
  /-- The name or else the compatible string; if there is neither, `(unnamed)` is printed. -/
  label : Option Str
  regBase : ℕ
  /-- The vendor and the device, if they are printed. -/
  ids : Option (ℕ × ℕ)
  driver : Option Str

/-- The line for a device. -/
def lineOf (r : Registry Str) (indent : ℕ) (i : Ptr) : Line Str where
  device := i
  indent := indent
  label := (r.device i).name.or (r.device i).compatible
  regBase := (r.device i).regBase
  ids :=
    if (r.device i).vendorId ≠ 0 ∨ (r.device i).deviceId ≠ 0 then some ((r.device i).vendorId, (r.device i).deviceId)
    else none
  driver := r.driver i

mutual

/-- `print_device`. -/
def printDevice (r : Registry Str) : ℕ → Ptr → ℕ → Option (List (Line Str))
  | 0, _, _ => none
  | n + 1, i, indent => do
    let children ← printSiblings r n (r.firstChild i) (indent + 1)
    return r.lineOf indent i :: children

/-- The loop of `print_device` over the children. -/
def printSiblings (r : Registry Str) : ℕ → Option Ptr → ℕ → Option (List (Line Str))
  | _, none, _ => some []
  | 0, some _, _ => none
  | n + 1, some child, indent => do
    let lines ← printDevice r n child indent
    let rest ← printSiblings r n (r.nextSibling child) indent
    return lines ++ rest

end

/-- A loop of `device_tree_print` over the chain, for the devices that `shown` picks. -/
def printChain (r : Registry Str) (shown : Ptr → Bool) : ℕ → Option Ptr → Option (List (Line Str))
  | _, none => some []
  | 0, some _ => none
  | n + 1, some current => do
    let lines ← if shown current then r.printDevice n current 0 else some []
    let rest ← printChain r shown n (r.next current)
    return lines ++ rest

/-- `device_tree_print`, with `enabled` for whether the level of the log admits it. -/
def deviceTreePrint (r : Registry Str) (enabled : Bool) (n : ℕ) : Option (List (Line Str)) :=
  if enabled then
    if r.root.isSome then r.printChain (fun i => (r.parent i).isNone) n r.head else r.printChain (fun _ => true) n r.head
  else some []

/-! ### The chain -/

variable {r : Registry Str} {ds : List (Discovered Str)} {l : List Ptr}

/-- The registry after the devices `ds` have been added: the chain holds the first 128 of them, in the places `l`. -/
structure Filled (ds : List (Discovered Str)) (l : List Ptr) (r : Registry Str) : Prop where
  count : r.deviceCount = l.length
  chain : Linked r.next r.head l
  places : ∀ i ∈ l, i.1 < l.length
  fields : l.map r.device = ds.take 128
  driver : ∀ i, r.driver i = none
  parent : ∀ i, r.parent i = none
  firstChild : ∀ i, r.firstChild i = none
  nextSibling : ∀ i, r.nextSibling i = none
  root : r.root = none

theorem update_none {α : Type} {f : Ptr → Option α} (h : ∀ j, f j = none) (i j : Ptr) :
    Function.update f i none j = none := by
  by_cases hj : j = i
  · rw [hj, Function.update_self]
  · rw [Function.update_of_ne hj, h]

namespace Filled

theorem empty : Filled [] [] (Registry.empty : Registry Str) where
  count := rfl
  chain := rfl
  places := by simp
  fields := rfl
  driver _ := rfl
  parent _ := rfl
  firstChild _ := rfl
  nextSibling _ := rfl
  root := rfl

theorem length_eq (h : Filled ds l r) : l.length = min 128 ds.length := by
  rw [← List.length_map r.device, h.fields, List.length_take]

theorem length_le (h : Filled ds l r) : l.length ≤ 128 := by
  rw [h.length_eq]
  exact Nat.min_le_left _ _

/-- A device is stored in a place that is not in the chain, and linked behind it. -/
theorem push (h : Filled ds l r) {i : Ptr} (hi : i.1 = l.length) (d : Discovered Str) {next : Ptr → Option Ptr}
    {head : Option Ptr} (hchain : Linked next head (l ++ [i])) :
    Filled (ds ++ [d]) (l ++ [i])
      { r.store i d with next := next, head := head, deviceCount := r.deviceCount + 1 } where
  count := by
    change r.deviceCount + 1 = _
    rw [h.count, List.length_append, List.length_singleton]
  chain := hchain
  places := by
    intro j hj
    rw [List.length_append, List.length_singleton]
    rcases List.mem_append.1 hj with hj | hj
    · exact (h.places j hj).trans (Nat.lt_succ_self _)
    · obtain rfl := List.mem_singleton.1 hj
      omega
  fields := by
    have hnot : i ∉ l := fun hmem => absurd (h.places i hmem) (by omega)
    have hold : l.map (Function.update r.device i d) = l.map r.device := by
      refine List.map_congr_left fun j hj => Function.update_of_ne ?_ _ _
      rintro rfl
      exact hnot hj
    have hlen := h.length_eq
    have hlt := i.2
    change (l ++ [i]).map (Function.update r.device i d) = _
    rw [List.map_append, hold, h.fields, List.take_of_length_le (by omega : ds.length ≤ 128),
      List.take_of_length_le (by rw [List.length_append, List.length_singleton]; omega)]
    simp
  driver := update_none h.driver i
  parent := update_none h.parent i
  firstChild := update_none h.firstChild i
  nextSibling := update_none h.nextSibling i
  root := h.root

/-- One device. -/
theorem addDevice (h : Filled ds l r) (d : Discovered Str) :
    ∃ r' l', addDeviceToRegistry r d = some r' ∧ Filled (ds ++ [d]) l' r' := by
  by_cases hfull : 128 ≤ r.deviceCount
  · -- there is no room, and the device is dropped
    refine ⟨r, l, dif_pos hfull, { h with fields := ?_ }⟩
    have hlen := h.length_eq
    rw [h.count] at hfull
    rw [h.fields, List.take_append_of_le_length (by omega)]
  · have hlt : r.deviceCount < 128 := Nat.lt_of_not_le hfull
    have hcount : (⟨r.deviceCount, hlt⟩ : Ptr).1 = l.length := h.count
    have hnot : (⟨r.deviceCount, hlt⟩ : Ptr) ∉ l := fun hmem => absurd (h.places _ hmem) (by omega)
    have hchain := h.chain.update hnot none
    rw [addDeviceToRegistry, dif_neg hfull]
    rcases List.eq_nil_or_concat' l with rfl | ⟨a, last, rfl⟩
    · have hhead : r.head = none := h.chain
      have hnone : Linked (Function.update r.next ⟨r.deviceCount, hlt⟩ none) (some ⟨r.deviceCount, hlt⟩)
          ([] ++ [⟨r.deviceCount, hlt⟩]) := ⟨rfl, Function.update_self _ _ _⟩
      refine ⟨_, _, ?_, h.push hcount d hnone⟩
      simp only [store, hhead]
    · have hsnoc := hchain.snoc hnot (Function.update_self _ _ _)
      obtain ⟨first, hhead⟩ : ∃ first, r.head = some first := by
        cases a with
        | nil => exact ⟨_, hchain.1⟩
        | cons k a => exact ⟨_, hchain.1⟩
      rw [hhead] at hchain
      have hlast : (r.store ⟨r.deviceCount, hlt⟩ d).lastDevice first = some (some last) := by
        rw [lastDevice]
        exact (walk_of_linked _ hchain h.length_le).trans (congrArg some hchain.findSome?_last)
      refine ⟨_, _, ?_, h.push hcount d hsnoc⟩
      have hhead' : (r.store ⟨r.deviceCount, hlt⟩ d).head = some first := hhead
      simp only [hhead', hlast]
      simp only [store, hhead]

/-- Any number of devices. -/
theorem addDevices (h : Filled ds l r) (rest : List (Discovered Str)) :
    ∃ r' l', r.addDevices rest = some r' ∧ Filled (ds ++ rest) l' r' := by
  induction rest generalizing ds l r with
  | nil =>
    rw [List.append_nil]
    exact ⟨r, l, rfl, h⟩
  | cons d rest ih =>
    obtain ⟨r₁, l₁, hadd, h₁⟩ := h.addDevice d
    obtain ⟨r₂, l₂, hrest, h₂⟩ := ih h₁
    rw [List.append_cons]
    refine ⟨r₂, l₂, ?_, h₂⟩
    rw [Registry.addDevices, List.foldlM_cons, hadd]
    exact hrest

end Filled

/-! ### The forest -/

/-- The links form a forest: the chain of the children of a device holds those whose parent it is, and no device is
above itself. -/
structure IsForest (r : Registry Str) : Prop where
  children : ∀ p, ∃ cs, Linked r.nextSibling (r.firstChild p) cs ∧ ∀ x, x ∈ cs ↔ r.parent x = some p
  acyclic : WellFounded fun p x => r.parent x = some p

/-- The devices `cs` are the children of `root`, and no other device has children. -/
structure Family (root : Ptr) (cs : List Ptr) (r : Registry Str) : Prop where
  chain : Linked r.nextSibling (r.firstChild root) cs
  parent : ∀ x, r.parent x = if x ∈ cs then some root else none
  leaf : ∀ p, p ≠ root → r.firstChild p = none
  last : ∀ x, x ∉ cs → r.nextSibling x = none
  root_not_mem : root ∉ cs

namespace Family

variable {root : Ptr} {cs : List Ptr}

theorem isForest (h : Family root cs r) : IsForest r where
  children := by
    intro p
    by_cases hp : p = root
    · subst hp
      refine ⟨cs, h.chain, fun x => ?_⟩
      rw [h.parent]
      split_ifs with hx <;> simp [hx]
    · refine ⟨[], h.leaf p hp, fun x => ?_⟩
      rw [h.parent]
      split_ifs <;> simp [Ne.symm hp]
  acyclic := by
    have hroot : ∀ p x, r.parent x = some p → p = root := by
      intro p x hx
      rw [h.parent] at hx
      split_ifs at hx with hmem
      simpa using hx.symm
    have hacc : Acc (fun p x => r.parent x = some p) root := by
      refine ⟨root, fun p hp => ?_⟩
      rw [h.parent, if_neg h.root_not_mem] at hp
      cases hp
    refine ⟨fun x => ⟨x, fun p hp => ?_⟩⟩
    rw [hroot p x hp]
    exact hacc

/-- The first child. -/
theorem adoptFirst (h : Family root [] r) {c : Ptr} (hc : c ≠ root) :
    Family root [c]
      { r with
        parent := Function.update r.parent c (some root)
        firstChild := Function.update r.firstChild root (some c) } where
  chain := by
    refine ⟨Function.update_self _ _ _, ?_⟩
    exact h.last c (List.not_mem_nil)
  parent := by
    intro x
    by_cases hx : x = c
    · simp [hx]
    · simp [hx, h.parent]
  leaf := by
    intro p hp
    change Function.update r.firstChild root (some c) p = none
    rw [Function.update_of_ne hp, h.leaf p hp]
  last := fun x _ => h.last x List.not_mem_nil
  root_not_mem := by simpa using hc.symm

/-- One more child. -/
theorem adoptNext {a : List Ptr} {j : Ptr} (h : Family root (a ++ [j]) r) {c : Ptr} (hc : c ≠ root)
    (hfresh : c ∉ a ++ [j]) :
    Family root (a ++ [j] ++ [c])
      { r with
        parent := Function.update r.parent c (some root)
        nextSibling := Function.update r.nextSibling j (some c) } where
  chain := h.chain.snoc hfresh (h.last c hfresh)
  parent := by
    intro x
    by_cases hx : x = c
    · simp [hx]
    · simp [hx, h.parent]
  leaf := h.leaf
  last := by
    intro x hx
    rw [List.mem_append, not_or] at hx
    have hxj : x ≠ j := by
      rintro rfl
      exact hx.1 (List.mem_append_right _ (List.mem_singleton.2 rfl))
    change Function.update r.nextSibling j (some c) x = none
    rw [Function.update_of_ne hxj, h.last x hx.1]
  root_not_mem := by
    rw [List.mem_append, not_or]
    exact ⟨h.root_not_mem, by simpa using hc.symm⟩

end Family

/-- The devices that become children. -/
def isChild (r : Registry Str) (root i : Ptr) : Bool := (r.device i).depth = 1 ∧ i ≠ root

/-- The second loop, from a point of the chain on: the devices of depth 1 become children, behind those there are. -/
theorem linkChildren_of_linked {root : Ptr} {n : ℕ} {current : Option Ptr} {rest cs : List Ptr} {r : Registry Str}
    (h : Family root cs r) (hl : Linked r.next current rest) (hn : rest.length ≤ n) (hfresh : ∀ x ∈ rest, x ∉ cs) :
    ∃ parent firstChild nextSibling,
      linkChildren root n current cs.getLast? r =
        some { r with parent := parent, firstChild := firstChild, nextSibling := nextSibling } ∧
      Family root (cs ++ rest.filter (r.isChild root))
        { r with parent := parent, firstChild := firstChild, nextSibling := nextSibling } := by
  induction rest generalizing n current cs r with
  | nil =>
    rw [linked_nil_iff] at hl
    subst hl
    refine ⟨r.parent, r.firstChild, r.nextSibling, ?_, ?_⟩
    · rw [linkChildren]
    · rw [List.filter_nil, List.append_nil]
      exact h
  | cons x rest ih =>
    have hnodup := List.nodup_cons.1 hl.nodup
    obtain ⟨rfl, hl⟩ := hl
    obtain ⟨n, rfl⟩ : ∃ m, n = m + 1 := ⟨n - 1, by simp at hn; omega⟩
    have hn : rest.length ≤ n := by simpa using hn
    by_cases hchild : (r.device x).depth = 1 ∧ x ≠ root
    · have hfilter : (x :: rest).filter (r.isChild root) = [x] ++ rest.filter (r.isChild root) := by
        simp [isChild, hchild]
      have hnew : ∀ y ∈ rest, y ∉ cs ++ [x] := by
        intro y hy hmem
        rcases List.mem_append.1 hmem with hmem | hmem
        · exact hfresh y (List.mem_cons_of_mem x hy) hmem
        · obtain rfl := List.mem_singleton.1 hmem
          exact hnodup.1 hy
      rw [hfilter, ← List.append_assoc]
      rcases List.eq_nil_or_concat' cs with rfl | ⟨a, j, rfl⟩
      · have hfirst : r.firstChild root = none := h.chain
        obtain ⟨p, f, s, hrun, hfamily⟩ := ih (h.adoptFirst hchild.2) hl hn hnew
        refine ⟨p, f, s, ?_, hfamily⟩
        rw [linkChildren, if_pos hchild]
        simp only [hfirst, if_true]
        exact hrun
      · have hfirst : r.firstChild root ≠ none := by
          cases a with
          | nil => rw [h.chain.1]; exact Option.some_ne_none _
          | cons k a => rw [h.chain.1]; exact Option.some_ne_none _
        obtain ⟨p, f, s, hrun, hfamily⟩ := ih (h.adoptNext hchild.2 (hfresh x List.mem_cons_self)) hl hn hnew
        refine ⟨p, f, s, ?_, hfamily⟩
        rw [linkChildren, if_pos hchild, List.getLast?_concat]
        simp only [hfirst, if_false]
        rw [List.getLast?_concat] at hrun
        exact hrun
    · have hfilter : (x :: rest).filter (r.isChild root) = rest.filter (r.isChild root) := by
        simp [isChild, hchild]
      obtain ⟨p, f, s, hrun, hfamily⟩ := ih h hl hn (fun y hy => hfresh y (List.mem_cons_of_mem x hy))
      rw [hfilter]
      refine ⟨p, f, s, ?_, hfamily⟩
      rw [linkChildren, if_neg hchild]
      exact hrun

/-- Before the tree is built, no device has children. -/
theorem Filled.family (h : Filled ds l r) (root : Ptr) : Family root [] r where
  chain := h.firstChild root
  parent := fun x => h.parent x
  leaf := fun p _ => h.firstChild p
  last := fun x _ => h.nextSibling x
  root_not_mem := List.not_mem_nil

/-- The tree is built: there is no root, or the devices of depth 1 are the children of one. -/
theorem Filled.buildTreeHierarchy (h : Filled ds l r) :
    r.buildTreeHierarchy = some r ∨
    ∃ root ∈ l, ∃ r', r.buildTreeHierarchy = some r' ∧ Family root (l.filter (r.isChild root)) r' ∧
      r'.root = some root ∧ r'.next = r.next ∧ r'.head = r.head ∧ r'.device = r.device ∧
      r'.deviceCount = r.deviceCount := by
  rw [Registry.buildTreeHierarchy, walk_of_linked _ h.chain h.length_le]
  cases hfind : l.findSome? fun i => if (r.device i).depth = 0 then some i else none with
  | none => exact Or.inl rfl
  | some root =>
    obtain ⟨i, hi, hroot⟩ := List.exists_of_findSome?_eq_some hfind
    split_ifs at hroot
    obtain rfl := Option.some.inj hroot
    have hfamily : Family i [] { r with root := some i } := ⟨h.firstChild i, h.parent, fun p _ => h.firstChild p,
      fun x _ => h.nextSibling x, List.not_mem_nil⟩
    obtain ⟨p, f, s, hrun, htree⟩ := linkChildren_of_linked hfamily h.chain h.length_le (fun _ _ => List.not_mem_nil)
    exact Or.inr ⟨i, hi, _, hrun, htree, rfl, rfl, rfl, rfl, rfl⟩

/-- After any number of devices and the tree, the registry counts the devices it holds. -/
theorem deviceCount_of_devices (ds : List (Discovered Str)) :
    ∃ r : Registry Str, (empty.addDevices ds).bind Registry.buildTreeHierarchy = some r ∧
      r.deviceCount = min 128 ds.length := by
  obtain ⟨r, l, hadd, hfilled⟩ := Filled.empty.addDevices ds
  have hcount : r.deviceCount = min 128 ds.length := hfilled.count.trans hfilled.length_eq
  rw [hadd, Option.bind_some]
  rcases hfilled.buildTreeHierarchy with hbuild | ⟨root, -, r', hbuild, -, -, -, -, -, hsame⟩
  · exact ⟨r, hbuild, hcount⟩
  · exact ⟨r', hbuild, hsame.trans hcount⟩

/-! ### The printer -/

theorem printDevice_of_siblings {n indent : ℕ} {i : Ptr} {lines : List (Line Str)}
    (h : r.printSiblings n (r.firstChild i) (indent + 1) = some lines) :
    r.printDevice (n + 1) i indent = some (r.lineOf indent i :: lines) := by
  rw [printDevice, h]
  rfl

/-- A chain of devices without children. -/
theorem printSiblings_of_linked {n indent : ℕ} {h : Option Ptr} {cs : List Ptr} (hl : Linked r.nextSibling h cs)
    (hleaf : ∀ c ∈ cs, r.firstChild c = none) (hn : cs.length < n) :
    r.printSiblings n h indent = some (cs.map (r.lineOf indent)) := by
  induction cs generalizing h n with
  | nil =>
    rw [linked_nil_iff] at hl
    subst hl
    rw [printSiblings]
    rfl
  | cons c cs ih =>
    obtain ⟨rfl, hl⟩ := hl
    obtain ⟨n, rfl⟩ : ∃ m, n = m + 2 := ⟨n - 2, by simp at hn; omega⟩
    have hrest := ih hl (fun x hx => hleaf x (List.mem_cons_of_mem c hx)) (by simp at hn; omega : cs.length < n + 1)
    have hnone : r.printSiblings n (r.firstChild c) (indent + 1) = some [] := by
      rw [hleaf c List.mem_cons_self, printSiblings]
    rw [printSiblings, printDevice_of_siblings hnone, hrest]
    rfl

/-- What is printed for a device that has no parent. -/
def linesOf (r : Registry Str) (root : Ptr) (cs : List Ptr) (i : Ptr) : List (Line Str) :=
  r.lineOf 0 i :: if i = root then cs.map (r.lineOf 1) else []

theorem Family.printDevice {root : Ptr} {cs : List Ptr} (h : Family root cs r) {n : ℕ} (hn : cs.length + 1 < n)
    (i : Ptr) : r.printDevice n i 0 = some (r.linesOf root cs i) := by
  obtain ⟨n, rfl⟩ : ∃ m, n = m + 1 := ⟨n - 1, by omega⟩
  apply printDevice_of_siblings
  by_cases hi : i = root
  · subst hi
    rw [if_pos rfl]
    apply printSiblings_of_linked h.chain _ (by omega)
    intro c hc
    apply h.leaf c
    rintro rfl
    exact h.root_not_mem hc
  · rw [if_neg hi, h.leaf i hi, printSiblings]

/-- A loop over the chain. -/
theorem Family.printChain {root : Ptr} {cs : List Ptr} (h : Family root cs r) (shown : Ptr → Bool) {n : ℕ}
    {current : Option Ptr} (hl : Linked r.next current l) (hn : l.length + cs.length + 1 < n) :
    r.printChain shown n current = some ((l.filter shown).flatMap (r.linesOf root cs)) := by
  induction l generalizing current n with
  | nil =>
    rw [linked_nil_iff] at hl
    subst hl
    rw [Registry.printChain]
    rfl
  | cons i l ih =>
    obtain ⟨rfl, hl⟩ := hl
    rw [List.length_cons] at hn
    obtain ⟨n, rfl⟩ : ∃ m, n = m + 1 := ⟨n - 1, by omega⟩
    rw [Registry.printChain, ih hl (by omega), h.printDevice (by omega)]
    by_cases hi : shown i = true
    · rw [if_pos hi, List.filter_cons_of_pos hi]
      rfl
    · rw [if_neg hi, List.filter_cons_of_neg hi]
      rfl

theorem map_device_linesOf (r : Registry Str) (root : Ptr) (cs : List Ptr) (i : Ptr) :
    (r.linesOf root cs i).map Line.device = i :: if i = root then cs else [] := by
  rw [linesOf, List.map_cons, apply_ite (List.map Line.device), List.map_map]
  have hid : Line.device ∘ r.lineOf 1 = id := rfl
  rw [hid, List.map_id]
  rfl

/-- Every device without a parent, and behind the root its children: that is every device once. -/
theorem perm_devices {l cs : List Ptr} {root : Ptr} {shown : Ptr → Bool} (hl : l.Nodup) (hroot : root ∈ l)
    (hshown : shown root) (hcs : cs = l.filter fun i => ! shown i) :
    ((l.filter shown).flatMap fun i => i :: if i = root then cs else []).Perm l := by
  obtain ⟨a, b, hab⟩ := List.append_of_mem (List.mem_filter.2 ⟨hroot, hshown⟩)
  have hnodup : (a ++ root :: b).Nodup := hab ▸ hl.filter shown
  have hother : ∀ {c : List Ptr}, root ∉ c → (c.flatMap fun i => i :: if i = root then cs else []) = c := by
    intro c hc
    induction c with
    | nil => rfl
    | cons i c ih =>
      rw [List.mem_cons, not_or] at hc
      rw [List.flatMap_cons, if_neg (Ne.symm hc.1), ih hc.2]
      rfl
  have ha : root ∉ a := fun h => (List.nodup_append.1 hnodup).2.2 root h root List.mem_cons_self rfl
  have hb : root ∉ b := (List.nodup_cons.1 (List.nodup_append.1 hnodup).2.1).1
  rw [hab, List.flatMap_append, List.flatMap_cons, if_pos rfl, hother ha, hother hb]
  have hmove : (a ++ (root :: cs ++ b)).Perm (a ++ root :: b ++ cs) := by
    rw [List.append_assoc]
    exact (List.perm_append_comm.cons root).append_left a
  rw [← hab] at hmove
  exact hmove.trans (hcs ▸ List.filter_append_perm shown l)

theorem eq_lineOf_of_mem {root : Ptr} {cs : List Ptr} {is : List Ptr} {line : Line Str}
    (h : line ∈ is.flatMap (r.linesOf root cs)) : line = r.lineOf line.indent line.device := by
  obtain ⟨i, -, hline⟩ := List.mem_flatMap.1 h
  rcases List.mem_cons.1 hline with rfl | hline
  · rfl
  · split_ifs at hline
    · obtain ⟨c, -, rfl⟩ := List.mem_map.1 hline
      rfl
    · exact absurd hline List.not_mem_nil

theorem map_device_flatMap (r : Registry Str) (root : Ptr) (cs is : List Ptr) :
    (is.flatMap (r.linesOf root cs)).map Line.device = is.flatMap fun i => i :: if i = root then cs else [] := by
  rw [List.map_flatMap]
  exact congrArg (List.flatMap · is) (funext (map_device_linesOf r root cs))

/-! ### The registry -/

/-- The devices are added and the tree is built. The chain holds the first 128 devices as they came; the links form a
forest; and every run of the printer that is long enough prints each device of the chain once. -/
theorem registry_of_devices (ds : List (Discovered Str)) :
    ∃ (r : Registry Str) (l : List Ptr) (lines : List (Line Str)),
      (empty.addDevices ds).bind buildTreeHierarchy = some r ∧
      Linked r.next r.head l ∧ l.Nodup ∧ l.map r.device = ds.take 128 ∧ IsForest r ∧
      (∀ n, 258 ≤ n → r.deviceTreePrint true n = some lines) ∧ (lines.map Line.device).Perm l ∧
      ∀ line ∈ lines, line = r.lineOf line.indent line.device := by
  obtain ⟨r, l, hadd, hfilled⟩ := Filled.empty.addDevices ds
  have hnodup := hfilled.chain.nodup
  have hlen := hfilled.length_le
  rw [hadd, Option.bind_some]
  rcases hfilled.buildTreeHierarchy with hbuild | ⟨root, hroot, r', hbuild, hfamily, hset, hnext, hhead, hdevice, -⟩
  · -- no device has depth 0, and the list is printed as it is
    have hfamily := hfilled.family 0
    refine ⟨r, l, l.flatMap (r.linesOf 0 []), hbuild, hfilled.chain, hnodup, hfilled.fields, hfamily.isForest, ?_, ?_,
      fun line hline => eq_lineOf_of_mem hline⟩
    · intro n hn
      have hprint := hfamily.printChain (fun _ => true) hfilled.chain (by simp; omega : l.length + 0 + 1 < n)
      rw [List.filter_true] at hprint
      rw [deviceTreePrint, if_pos rfl, hfilled.root]
      exact hprint
    · rw [map_device_flatMap]
      simp
  · have hcs : (l.filter (r.isChild root)).length ≤ l.length := List.length_filter_le _ _
    have hshown : ∀ i ∈ l, r.isChild root i = ! (r'.parent i).isNone := by
      intro i hi
      rw [hfamily.parent]
      by_cases hchild : r.isChild root i
      · rw [if_pos (List.mem_filter.2 ⟨hi, hchild⟩), hchild]
        rfl
      · rw [if_neg (fun hmem => hchild (List.mem_filter.1 hmem).2), Bool.eq_false_of_not_eq_true hchild]
        rfl
    have hchain : Linked r'.next r'.head l := by
      rw [hnext, hhead]
      exact hfilled.chain
    refine ⟨r', l, (l.filter fun i => (r'.parent i).isNone).flatMap (r'.linesOf root (l.filter (r.isChild root))),
      hbuild, hchain, hnodup, hdevice ▸ hfilled.fields, hfamily.isForest, ?_, ?_, fun line hline => eq_lineOf_of_mem hline⟩
    · intro n hn
      rw [deviceTreePrint, if_pos rfl, hset]
      exact hfamily.printChain _ hchain (by omega)
    · rw [map_device_flatMap]
      apply perm_devices hnodup hroot _ (List.filter_congr hshown)
      rw [hfamily.parent, if_neg hfamily.root_not_mem]
      rfl

end Registry

end Yasouos.Kernel
