import Yasouos.Kernel.FdtBootargs
import Yasouos.Kernel.FdtDevices

/-!
# The boot arguments of a device tree

What `fdt_get_bootargs` is for: given a device tree, it is to return the value of the
`bootargs` property of `/chosen`.

## The model

The trees and the blobs are those of `FdtDevices`. `/chosen` is a child of the root with
that name; should there be several, or several properties, the last one counts. What is
returned is the address of a value in the blob, so it tells which property it is.

## What is proved

`getBootargs_eq` says what the walk returns: the flag `in_chosen` stays set in the nodes
below `/chosen`, and their properties come after those of `/chosen`, so the last value in
`/chosen` or below it. This is the right one exactly when it is not below.
-/

namespace Yasouos.Kernel.Fdt

open Yasouos.Theory

/-! ### What is to be found -/

/-- The value of a `bootargs` property that is not empty. -/
def Entry.bootargs : Entry → Option (List UInt8)
  | nop => none
  | prop name _ value => if name.1 = bootargsName ∧ 0 < value.length then some value else none

/-- The `bootargs` property in a node's own properties, which are at `p`: where its value
is, and the value. If there are several, the last one counts. -/
def ownBootargs (p : ℕ) (es : List Entry) : Option (ℕ × List UInt8) := lastEntry Entry.bootargs p es

/-- The node has a `bootargs` property that is not empty. -/
def Node.hasBootargs (n : Node) : Bool := n.entries.any fun e => e.bootargs.isSome

/-- The node has the name of `/chosen`. -/
def Node.isChosen (n : Node) : Bool := decide (n.name.1 = chosenName)

/-- Where the node's `bootargs` is, and its value. -/
def Placed.bootargs (n : Placed) : Option (ℕ × List UInt8) :=
  ownBootargs (n.addr + n.node.nameBytes.length) n.node.entries

/-- The nodes below the root, placed in memory; the structure block is at `p`. -/
def Tree.below (t : Tree) (p : ℕ) : Forest Placed :=
  locate (p + (nops t.root.nopsBefore).length + 4 + t.root.nameBytes.length + (entriesBytes t.root.entries).length) 1
    t.children

/-- Where the `bootargs` of `/chosen` is, and its value. -/
def Tree.chosenBootargs (t : Tree) (p : ℕ) : Option (ℕ × List UInt8) :=
  (t.below p).lastOwn (fun n => n.node.isChosen) Placed.bootargs

/-- The parser returns the `bootargs` property of `/chosen` if it is there and not empty,
and `NULL` otherwise; the structure block is at `p`. -/
def ReturnsBootargs (mem : Mem) (fdtAddr p : ℕ) (t : Tree) : Prop :=
  getBootargs mem fdtAddr = .ok ((t.chosenBootargs p).map Prod.fst) ∧
    ∀ q value, t.chosenBootargs p = some (q, value) → At mem q value

/-! ### The walk over a tree -/

section Walk

variable {mem : Mem} {base blobEnd p : ℕ} {d : ℤ} {c : Bool} {b : Option ℕ} {s s' s'' : BootWalk}

variable (mem base blobEnd) in
/-- The loop gets from one state to the other, making no more iterations than it has bytes
behind it. -/
def BootReaches (s s' : BootWalk) : Prop := LoopsTo (bootWalk mem base blobEnd) BootWalk.structPtr s s'

theorem BootReaches.refl (s : BootWalk) : BootReaches mem base blobEnd s s := LoopsTo.refl s

theorem BootReaches.trans (h : BootReaches mem base blobEnd s s') (h' : BootReaches mem base blobEnd s' s'') :
    BootReaches mem base blobEnd s s'' := LoopsTo.trans h h'

theorem BootReaches.of_step (h : bootStep mem base blobEnd s = .ok (.loop s')) (hlt : s.structPtr < s'.structPtr) :
    BootReaches mem base blobEnd s s' := by
  refine LoopsTo.single (fun k => ?_) hlt
  rw [bootWalk, h]
  rfl

/-- The token that is there is read. -/
theorem bootStep_eq {token : ℕ} (hat : At mem p (be32 token)) (htoken : token < 2 ^ 32) (hend : p < blobEnd) :
    bootStep mem base blobEnd ⟨p, d, c, b⟩ =
      (if token = fdtBeginNode then bootBeginNode mem blobEnd ⟨p + 4, d, c, b⟩
      else if token = fdtEndNode then .ok (.loop (bootEndNode ⟨p + 4, d, c, b⟩))
      else if token = fdtProp then bootProp mem base blobEnd ⟨p + 4, d, c, b⟩
      else if token = fdtNop then .ok (.loop ⟨p + 4, d, c, b⟩)
      else if token = fdtEnd then .ok (.done b)
      else .ok (.done none)) := by
  rw [bootStep, if_neg (by simpa using hend), loadBe32_of_at hat htoken]
  rfl

/-- `FDT_NOP`s are skipped. -/
theorem bootReaches_nops {n : ℕ} (hat : At mem p (nops n)) (hend : p + (nops n).length ≤ blobEnd) :
    BootReaches mem base blobEnd ⟨p, d, c, b⟩ ⟨p + (nops n).length, d, c, b⟩ := by
  induction n generalizing p with
  | zero => exact .refl _
  | succ n ih =>
    have hsucc : nops (n + 1) = be32 fdtNop ++ nops n := by simp [nops, List.replicate_succ]
    rw [hsucc, List.length_append, length_be32] at hend ⊢
    rw [hsucc, at_append, length_be32] at hat
    have hfirst : BootReaches mem base blobEnd ⟨p, d, c, b⟩ ⟨p + 4, d, c, b⟩ := by
      refine .of_step ?_ (by simp)
      rw [bootStep_eq hat.1 (by decide) (by omega)]
      rfl
    have hrest := hfirst.trans (ih hat.2 (by omega))
    rwa [Nat.add_assoc] at hrest

/-- Whether the flag is set once the node has begun. -/
def Node.entersChosen (n : Node) (d : ℤ) (c : Bool) : Bool := (decide (d = 1) && n.isChosen) || c

theorem enterChosen_eq {n : Node} (hname : At mem p (n.name.1 ++ [0])) :
    enterChosen mem ⟨p, d, c, b⟩ = .ok (n.entersChosen d c) := by
  have heq : strEqual mem p chosenName = .ok (decide (n.name.1 = chosenName)) :=
    strEqual_of_at hname n.name.2 (by decide)
  by_cases hd : d = 1
  · by_cases hn : n.name.1 = chosenName <;>
      simp [enterChosen, Node.entersChosen, Node.isChosen, heq, hd, hn, bind, Except.bind, pure, Except.pure]
  · simp [enterChosen, Node.entersChosen, hd, pure, Except.pure]

/-- A node begins. -/
theorem bootReaches_begin {n : Node} (hat : At mem p (be32 fdtBeginNode ++ n.nameBytes))
    (hend : p + 4 + n.nameBytes.length ≤ blobEnd) (hlen : n.nameBytes.length < 2 ^ 32) :
    BootReaches mem base blobEnd ⟨p, d, c, b⟩ ⟨p + 4 + n.nameBytes.length, d + 1, n.entersChosen d c, b⟩ := by
  rw [at_append, length_be32] at hat
  have hname : At mem (p + 4) (n.name.1 ++ [0]) := (at_append.1 hat.2).1
  have hpad : n.name.1.length + 1 ≤ n.nameBytes.length := by
    rw [Node.nameBytes, length_pad]
    simp
    omega
  have halign : alignUp ((n.name.1.length + 1) % 2 ^ 32) = n.nameBytes.length := by
    rw [Nat.mod_eq_of_lt (by omega), Node.nameBytes, ← alignUp_eq hlen]
    simp
  refine .of_step ?_ (by simp; omega)
  rw [bootStep_eq hat.1 (by decide) (by omega), if_pos rfl, bootBeginNode, if_neg (by simp; omega)]
  simp only [nameLen_of_at hname n.name.2 (show n.name.1.length < blobEnd - (p + 4) by omega), bind, Except.bind]
  rw [if_neg (by omega), enterChosen_eq hname, halign]
  rfl

/-- What has been found after some properties of the node. -/
def found (c : Bool) (own b : Option ℕ) : Option ℕ := if c then own.or b else b

@[simp] theorem found_false (own b : Option ℕ) : found false own b = b := rfl

@[simp] theorem found_true (own b : Option ℕ) : found true own b = own.or b := rfl

@[simp] theorem found_none (c : Bool) (b : Option ℕ) : found c none b = b := by cases c <;> rfl

@[simp] theorem found_found (c : Bool) (own own' b : Option ℕ) :
    found c own' (found c own b) = found c (own'.or own) b := by
  cases c <;> simp [Option.or_assoc]

/-- A property is noted, if it is one that matters. -/
theorem parseBootargs_eq {name : CStr} {q data : ℕ} {value : List UInt8} (nameoff : ℕ)
    (hname : At mem q (name.1 ++ [0])) :
    parseBootargs mem q data value.length ⟨p, d, c, b⟩ =
      .ok (found c ((Entry.prop name nameoff value).bootargs.map fun _ => data) b) := by
  have heq : strEqual mem q bootargsName = .ok (decide (name.1 = bootargsName)) :=
    strEqual_of_at hname name.2 (by decide)
  cases c with
  | false => rfl
  | true =>
    by_cases hn : name.1 = bootargsName
    · by_cases hl : 0 < value.length <;>
        simp [parseBootargs, Entry.bootargs, heq, hn, hl, bind, Except.bind, pure, Except.pure]
    · simp [parseBootargs, Entry.bootargs, heq, hn, bind, Except.bind, pure, Except.pure]

/-- An entry is read. -/
theorem bootReaches_entry {e : Entry} (hat : At mem p e.bytes) (hnamed : e.Named mem base)
    (hend : p + e.bytes.length ≤ blobEnd) (hlen : e.bytes.length < 2 ^ 32) :
    BootReaches mem base blobEnd ⟨p, d, c, b⟩
      ⟨p + e.bytes.length, d, c, found c (e.bootargs.map fun _ => p + 12) b⟩ := by
  cases e with
  | nop =>
    refine .of_step ?_ (by simp [Entry.bytes, length_be32])
    rw [bootStep_eq hat (by decide) (by simp [Entry.bytes, length_be32] at hend; omega)]
    simp [Entry.bytes, length_be32, Entry.bootargs, fdtNop, fdtBeginNode, fdtEndNode, fdtProp]
  | prop name nameoff value =>
    have hbytes : (Entry.prop name nameoff value).bytes.length = 12 + (pad value).length := by
      simp [Entry.bytes, length_be32]
      omega
    have hpad : value.length ≤ (pad value).length := by
      rw [length_pad]
      omega
    rw [hbytes] at hend hlen ⊢
    simp only [Entry.bytes, at_append, List.length_append, length_be32] at hat
    obtain ⟨⟨⟨htoken, hl⟩, hoff⟩, -⟩ := hat
    refine .of_step ?_ (by simp)
    rw [bootStep_eq htoken (by decide) (by omega), if_neg (by decide), if_neg (by decide), if_pos rfl, bootProp,
      if_neg (by simp; omega)]
    simp only [loadBe32_of_at hl (show value.length < 2 ^ 32 by omega), Nat.add_assoc, Nat.reduceAdd,
      loadBe32_of_at hoff hnamed.1, bind, Except.bind]
    rw [if_neg (by omega), parseBootargs_eq nameoff hnamed.2, alignUp_eq (by omega)]
    rfl

/-- The entries of a node are read. -/
theorem bootReaches_entries {es : List Entry} (hat : At mem p (entriesBytes es))
    (hnamed : ∀ e ∈ es, e.Named mem base) (hend : p + (entriesBytes es).length ≤ blobEnd)
    (hlen : (entriesBytes es).length < 2 ^ 32) :
    BootReaches mem base blobEnd ⟨p, d, c, b⟩
      ⟨p + (entriesBytes es).length, d, c, found c ((ownBootargs p es).map Prod.fst) b⟩ := by
  induction es generalizing p b with
  | nil => simpa [ownBootargs, lastEntry, entriesBytes] using BootReaches.refl _
  | cons e es ih =>
    have hcons : entriesBytes (e :: es) = e.bytes ++ entriesBytes es := rfl
    rw [hcons, List.length_append] at hend hlen ⊢
    rw [hcons, at_append] at hat
    have hfirst : BootReaches mem base blobEnd ⟨p, d, c, b⟩ _ :=
      bootReaches_entry hat.1 (hnamed e (by simp)) (by omega) (by omega)
    have hrest := hfirst.trans (ih hat.2 (fun e' he' => hnamed e' (by simp [he'])) (by omega) (by omega))
    simpa [ownBootargs, lastEntry, Option.map_or, Function.comp_def, Nat.add_assoc] using hrest

/-- From before a node to its children. -/
theorem bootReaches_children {n : Node}
    (hat : At mem p (nops n.nopsBefore ++ be32 fdtBeginNode ++ n.nameBytes ++ entriesBytes n.entries))
    (hnamed : ∀ e ∈ n.entries, e.Named mem base)
    (hend : p + (nops n.nopsBefore).length + 4 + n.nameBytes.length + (entriesBytes n.entries).length ≤ blobEnd)
    (hname : n.nameBytes.length < 2 ^ 32) (hentries : (entriesBytes n.entries).length < 2 ^ 32) (e : ℕ) :
    BootReaches mem base blobEnd ⟨p, d, c, b⟩
      ⟨p + (nops n.nopsBefore).length + 4 + n.nameBytes.length + (entriesBytes n.entries).length, d + 1,
        n.entersChosen d c, found (n.entersChosen d c)
          ((Placed.bootargs ⟨n, p + (nops n.nopsBefore).length + 4, e⟩).map Prod.fst) b⟩ := by
  simp only [at_append, List.length_append, length_be32, ← Nat.add_assoc] at hat
  obtain ⟨⟨⟨hat₁, hat₂⟩, hat₃⟩, hat₄⟩ := hat
  have h₁ : BootReaches mem base blobEnd ⟨p, d, c, b⟩ _ := bootReaches_nops hat₁ (by omega)
  have h₂ := h₁.trans (bootReaches_begin (at_append.2 ⟨hat₂, hat₃⟩) (by omega) hname)
  exact h₂.trans (bootReaches_entries hat₄ hnamed (by omega) hentries)

/-- From the end of a node's children to after the node. -/
theorem bootReaches_after {n : Node} (hat : At mem p (nops n.nopsAfter ++ be32 fdtEndNode))
    (hend : p + (nops n.nopsAfter).length + 4 ≤ blobEnd) :
    BootReaches mem base blobEnd ⟨p, d + 1, c, b⟩
      ⟨p + (nops n.nopsAfter).length + 4, d, if d = 1 then false else c, b⟩ := by
  rw [at_append] at hat
  have h₁ : BootReaches mem base blobEnd ⟨p, d + 1, c, b⟩ _ := bootReaches_nops hat.1 (by omega)
  refine h₁.trans (.of_step ?_ (by simp))
  rw [bootStep_eq hat.2 (by decide) (by omega), if_neg (by decide), if_pos rfl]
  by_cases hd : d = 1 <;> cases c <;> simp [bootEndNode, hd]

/-- Below a child of the root the flag stays as it is, so if it is set every `bootargs` is
taken. -/
theorem bootReaches_deep (f : Forest Node) (e : ℕ) (hd : 2 ≤ d) (hat : At mem p (forestBytes f))
    (hnamed : Named mem base f) (hend : p + (forestBytes f).length ≤ blobEnd) (hlen : (forestBytes f).length < 2 ^ 32) :
    BootReaches mem base blobEnd ⟨p, d, c, b⟩
      ⟨p + (forestBytes f).length, d, c, found c (((locate p e f).lastValue Placed.bootargs).map Prod.fst) b⟩ := by
  induction f generalizing p d b e with
  | nil => simpa [forestBytes, locate, Forest.lastValue] using BootReaches.refl _
  | node n children rest ihc ihr =>
    obtain ⟨hentries, hchildren, hrest⟩ := hnamed
    obtain ⟨hat₁, hat₂, hat₃, hat₄⟩ := at_node hat
    rw [length_node] at hend hlen ⊢
    simp only [← Nat.add_assoc] at hend ⊢
    have henters : n.entersChosen d c = c := by
      have hne : d ≠ 1 := by omega
      simp [Node.entersChosen, hne]
    have h₁ : BootReaches mem base blobEnd ⟨p, d, c, b⟩ _ :=
      bootReaches_children hat₁ hentries (by omega) (by omega) (by omega) e
    rw [henters] at h₁
    have h₂ := h₁.trans (ihc (e + 1) (by omega) hat₂ hchildren (by omega) (by omega))
    have h₃ := h₂.trans (bootReaches_after hat₃ (by omega))
    rw [if_neg (by omega)] at h₃
    have h₄ := h₃.trans (ihr e hd hat₄ hrest (by omega) (by omega))
    simpa [locate, Forest.lastValue, Option.map_or] using h₄

/-- Among the children of the root the flag is set for `/chosen`, and for what is below
it. -/
theorem bootReaches_top (f : Forest Node) (e : ℕ) (hat : At mem p (forestBytes f)) (hnamed : Named mem base f)
    (hend : p + (forestBytes f).length ≤ blobEnd) (hlen : (forestBytes f).length < 2 ^ 32) :
    BootReaches mem base blobEnd ⟨p, 1, false, b⟩
      ⟨p + (forestBytes f).length, 1, false,
        (((locate p e f).lastUnder (fun n => n.node.isChosen) Placed.bootargs).map Prod.fst).or b⟩ := by
  induction f generalizing p b e with
  | nil => simpa [forestBytes, locate, Forest.lastUnder] using BootReaches.refl _
  | node n children rest _ ihr =>
    obtain ⟨hentries, hchildren, hrest⟩ := hnamed
    obtain ⟨hat₁, hat₂, hat₃, hat₄⟩ := at_node hat
    rw [length_node] at hend hlen ⊢
    simp only [← Nat.add_assoc] at hend ⊢
    have henters : n.entersChosen 1 false = n.isChosen := by simp [Node.entersChosen]
    have h₁ : BootReaches mem base blobEnd ⟨p, 1, false, b⟩ _ :=
      bootReaches_children hat₁ hentries (by omega) (by omega) (by omega) e
    rw [henters] at h₁
    have h₂ := h₁.trans (bootReaches_deep children (e + 1) (by omega) hat₂ hchildren (by omega) (by omega))
    have h₃ := h₂.trans (bootReaches_after hat₃ (by omega))
    rw [if_pos rfl] at h₃
    have h₄ := h₃.trans (ihr e hat₄ hrest (by omega) (by omega))
    cases hn : n.isChosen <;> simpa [locate, Forest.lastUnder, Option.map_or, hn, Option.or_assoc] using h₄

end Walk

/-! ### The whole function -/

section Bootargs

variable {mem : Mem} {fdtAddr : ℕ} {h : Header} {t : Tree}

/-- The walk over the structure block of a tree. -/
theorem bootWalk_tree (hb : Flattened mem fdtAddr h t) :
    bootWalk mem (fdtAddr + h.offDtStrings) (fdtAddr + h.totalsize) (h.totalsize + 1)
        ⟨fdtAddr + h.offDtStruct, 0, false, none⟩ =
      .ok (((t.below (fdtAddr + h.offDtStruct)).lastUnder (fun n => n.node.isChosen) Placed.bootargs).map Prod.fst) := by
  have hsize := hb.totalsize
  have hstruct := hb.offDtStruct
  have hlen := hb.sizeDtStruct
  have hat := hb.dtStruct
  obtain ⟨hentries, hchildren, -⟩ := hb.dtStrings
  simp only [Tree.bytes, Tree.forest, at_append, List.length_append, length_be32] at hat hlen
  obtain ⟨⟨hat, hat₄⟩, hat₅⟩ := hat
  obtain ⟨hat₁, hat₂, hat₃, -⟩ := at_node hat
  simp only [length_node, ← Nat.add_assoc] at hat₄ hat₅ hlen
  simp only [forestBytes, List.length_nil, Nat.add_zero] at hat₄ hat₅ hlen
  have henters : t.root.entersChosen 0 false = false := by simp [Node.entersChosen]
  have h₁ : BootReaches mem (fdtAddr + h.offDtStrings) (fdtAddr + h.totalsize)
      ⟨fdtAddr + h.offDtStruct, 0, false, none⟩ _ :=
    bootReaches_children hat₁ hentries (by omega) (by omega) (by omega) 0
  rw [henters, found_false] at h₁
  have h₂ := h₁.trans (bootReaches_top t.children 1 hat₂ hchildren (by omega) (by omega))
  have h₃ := h₂.trans (bootReaches_after (d := 0) hat₃ (by omega))
  have h₄ := h₃.trans (bootReaches_nops hat₄ (by omega))
  obtain ⟨k, hk⟩ := LoopsTo.run_eq h₄ (show _ ≤ fdtAddr + h.offDtStruct + h.totalsize by simp only; omega)
  rw [hk, bootWalk, bootStep_eq hat₅ (by decide) (by omega), Option.or_none]
  rfl

/-- `fdt_get_bootargs`, given a device tree, returns the last value of a `bootargs` in
`/chosen` or below it. -/
theorem getBootargs_eq (hb : Flattened mem fdtAddr h t) :
    getBootargs mem fdtAddr =
      .ok (((t.below (fdtAddr + h.offDtStruct)).lastUnder (fun n => n.node.isChosen) Placed.bootargs).map Prod.fst) := by
  obtain ⟨h₀, h₁, h₂, h₃, -⟩ := header_reads hb
  rw [getBootargs, if_neg hb.addr]
  simp only [h₀, h₁, h₂, h₃, bind, Except.bind]
  rw [if_neg (by simp [hb.magic]), bootWalk_tree hb]

/-! ### Where the values are -/

/-- A node's `bootargs` is among its properties. -/
theorem ownBootargs_lt {p q : ℕ} {es : List Entry} {v : List UInt8} (h : ownBootargs p es = some (q, v)) :
    p < q ∧ q ≤ p + (entriesBytes es).length := by
  induction es generalizing p with
  | nil => simp [ownBootargs, lastEntry] at h
  | cons e es ih =>
    have hcons : (entriesBytes (e :: es)).length = e.bytes.length + (entriesBytes es).length :=
      List.length_append
    rw [ownBootargs, lastEntry, Option.or_eq_some_iff] at h
    rcases h with h | ⟨-, h⟩
    · have := ih h
      omega
    · cases e with
      | nop => simp [Entry.bootargs] at h
      | prop name nameoff value =>
        obtain ⟨-, rfl, rfl⟩ : _ ∧ p + 12 = q ∧ value = v := by simpa [Entry.bootargs] using h
        have hbytes : 12 ≤ (Entry.prop name nameoff value).bytes.length := by
          simp [Entry.bytes, length_be32]
          omega
        omega

theorem Entry.value_of_bootargs (e : Entry) (v : List UInt8) (h : e.bootargs = some v) : e.value = some v := by
  cases e with
  | nop => cases h
  | prop name nameoff value =>
    rw [Entry.bootargs, Option.ite_none_right_eq_some] at h
    exact h.2

/-- Values are told apart by where they are. -/
theorem nodup_bootargs (p d : ℕ) (f : Forest Node) :
    (((locate p d f).ends.filterMap Placed.bootargs).map Prod.fst).Nodup := by
  rw [List.map_filterMap]
  refine nodup_place (fun n q h => ?_) p d f
  obtain ⟨⟨q', v⟩, hv, rfl⟩ := Option.map_eq_some_iff.1 h
  have := ownBootargs_lt hv
  simp only at this ⊢
  omega

/-- The values in a forest are where they are said to be. -/
theorem bootargs_at {p d q : ℕ} {f : Forest Node} {v : List UInt8} (hat : At mem p (forestBytes f))
    (h : (q, v) ∈ (locate p d f).ends.filterMap Placed.bootargs) : At mem q v := by
  induction f generalizing p d with
  | nil => simp [locate, Forest.ends] at h
  | node m children rest ihc ihr =>
    rw [List.mem_filterMap] at h
    obtain ⟨n, hn, hv⟩ := h
    simp only [locate, Forest.ends, List.mem_append, List.mem_cons] at hn
    obtain ⟨hopen, hchildren, -, hrest⟩ := at_node hat
    rcases hn with hn | rfl | hn
    · exact ihc hchildren (List.mem_filterMap.2 ⟨n, hn, hv⟩)
    · simp only [at_append, List.length_append, length_be32, ← Nat.add_assoc] at hopen
      exact lastEntry_at Entry.value_of_bootargs hopen.2 hv
    · exact ihr hrest (List.mem_filterMap.2 ⟨n, hn, hv⟩)

/-- What is said to be the `bootargs` of `/chosen` is in memory. -/
theorem chosenBootargs_at (hb : Flattened mem fdtAddr h t) {q : ℕ} {v : List UInt8}
    (hv : t.chosenBootargs (fdtAddr + h.offDtStruct) = some (q, v)) : At mem q v := by
  have hat := hb.dtStruct
  rw [Tree.bytes, Tree.forest, at_append, at_append] at hat
  obtain ⟨-, hat, -⟩ := at_node hat.1.1
  exact bootargs_at hat (Forest.lastOwn_mem hv)

/-- What is found and what is to be found are the same value if they are in the same
place. -/
theorem lastUnder_eq_iff_map_fst {f : Forest Placed} {p : Placed → Bool}
    (hnd : ((f.ends.filterMap Placed.bootargs).map Prod.fst).Nodup) :
    (f.lastUnder p Placed.bootargs).map Prod.fst = (f.lastOwn p Placed.bootargs).map Prod.fst ↔
      f.lastUnder p Placed.bootargs = f.lastOwn p Placed.bootargs := by
  constructor
  · intro h
    cases hu : f.lastUnder p Placed.bootargs with
    | none => exact (Forest.lastOwn_eq_none hu).symm
    | some x =>
      cases ho : f.lastOwn p Placed.bootargs with
      | none => simp [hu, ho] at h
      | some y =>
        rw [hu, ho, Option.map_some, Option.map_some, Option.some_inj] at h
        exact congrArg some (List.inj_on_of_nodup_map hnd (Forest.lastUnder_mem hu) (Forest.lastOwn_mem ho) h)
  · exact congrArg _

/-- On a blob that is a device tree, `fdt_get_bootargs` returns the value of the `bootargs`
property of `/chosen` itself when it is there and not empty, and `NULL` otherwise, exactly
when nothing below `/chosen` has a `bootargs` property that is not empty. (Should the root
have several children named `chosen`, this is about the last of them with such a property
in it or below it.) -/
theorem returnsBootargs_iff (hb : Flattened mem fdtAddr h t) :
    ReturnsBootargs mem fdtAddr (fdtAddr + h.offDtStruct) t ↔ t.children.Unshadowed Node.isChosen Node.hasBootargs := by
  have hnd : (((t.below (fdtAddr + h.offDtStruct)).ends.filterMap Placed.bootargs).map Prod.fst).Nodup :=
    nodup_bootargs _ _ _
  have hcond : (t.below (fdtAddr + h.offDtStruct)).Unshadowed (fun n => n.node.isChosen)
      (fun n => n.bootargs.isSome) ↔ t.children.Unshadowed Node.isChosen Node.hasBootargs := by
    rw [Tree.below, ← map_node_locate (p := _) 1 t.children, Forest.unshadowed_map, map_node_locate]
    simp only [Placed.bootargs, ownBootargs, isSome_lastEntry]
    rfl
  rw [← hcond, ← Forest.lastUnder_eq_iff (.of_map _ hnd), ← lastUnder_eq_iff_map_fst hnd, ReturnsBootargs,
    getBootargs_eq hb, Except.ok.injEq]
  constructor
  · intro hrun
    exact hrun.1
  · intro heq
    exact ⟨heq, fun q v hv => chosenBootargs_at hb hv⟩

end Bootargs

/-! ### A blob -/

/-- The strings block with the name that the function looks for. -/
def bootStrings : List UInt8 := bootargsName ++ [0]

/-- A header for the tree and that strings block, without memory reservations. -/
def Tree.bootHeader (t : Tree) : Header :=
  ⟨fdtMagic, 40 + t.bytes.length + bootStrings.length, 40, 40 + t.bytes.length, 40, 17, 16, 0, bootStrings.length,
    t.bytes.length⟩

/-- The blob, at address 4096, and nothing else. -/
def Tree.bootImage (t : Tree) : Mem := fun p =>
  if p < 4096 then none else (t.bootHeader.bytes ++ t.bytes ++ bootStrings)[p - 4096]?

/-- `/chosen`, with the boot arguments `log=all`. -/
def chosen : Node :=
  ⟨0, ⟨chosenName, by decide⟩, [.nop, .prop ⟨bootargsName, by decide⟩ 0 [108, 111, 103, 61, 97, 108, 108, 0]], 1⟩

/-- A node with a `bootargs` of its own. -/
def extra : Node := ⟨0, ⟨[107], by decide⟩, [.prop ⟨bootargsName, by decide⟩ 0 [120, 0]], 0⟩

/-- `/chosen` with a node below it that has no properties, and after it a node that has a
`bootargs`. -/
def chosenThenOther : Tree := ⟨plain, .node chosen (.node plain .nil .nil) (.node extra .nil .nil), 0⟩

/-- The boot arguments of `/chosen` are returned, whatever other nodes have. -/
theorem returnsBootargs_chosenThenOther :
    Flattened chosenThenOther.bootImage 4096 chosenThenOther.bootHeader chosenThenOther ∧
      ReturnsBootargs chosenThenOther.bootImage 4096 (4096 + chosenThenOther.bootHeader.offDtStruct)
        chosenThenOther := by
  have hb : Flattened chosenThenOther.bootImage 4096 chosenThenOther.bootHeader chosenThenOther := by
    constructor <;> decide +kernel
  refine ⟨hb, (returnsBootargs_iff hb).2 ?_⟩
  have hp : plain.hasBootargs = false := by decide
  have hk : extra.isChosen = false := by decide
  simp [chosenThenOther, Forest.Unshadowed, Forest.ends, hp, hk]

/-- `/chosen` with a node below it that has a `bootargs`. -/
def otherInChosen : Tree := ⟨plain, .node chosen (.node extra .nil .nil) .nil, 0⟩

/-- The boot arguments of the node below `/chosen` are returned. -/
theorem not_returnsBootargs_otherInChosen :
    ¬ ∀ mem fdtAddr h t, Flattened mem fdtAddr h t → ReturnsBootargs mem fdtAddr (fdtAddr + h.offDtStruct) t := by
  intro hall
  have hb : Flattened otherInChosen.bootImage 4096 otherInChosen.bootHeader otherInChosen := by
    constructor <;> decide +kernel
  have hrun := (hall _ _ _ _ hb).1
  have hfound : (getBootargs otherInChosen.bootImage 4096).toOption = some (some 4204) := by decide +kernel
  have hown : (otherInChosen.chosenBootargs (4096 + otherInChosen.bootHeader.offDtStruct)).map Prod.fst =
      some 4176 := by decide +kernel
  rw [hrun, hown] at hfound
  simp [Except.toOption] at hfound

end Yasouos.Kernel.Fdt
