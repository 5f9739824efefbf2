import Yasouos.Theory.Forest
import Yasouos.Theory.Trace
import Yasouos.Kernel.FdtParser
import Mathlib.Data.Set.Function
import Mathlib.Tactic.Ring

/-!
# The devices of a device tree

What `fdt_enumerate_devices` is for: given a device tree, it is to report the nodes
that describe a device, each of them once and with its own properties.

## The model

A device tree is a forest of nodes, each with a name and properties; `FDT_NOP` tokens
may stand before a node, among its properties and before its end. `Tree.bytes` is the
structure block that a tree is flattened to, and `Flattened` says that a blob in memory
is a tree: its header has the magic number and says where the blocks are, the structure
block is there, and every property's name is in the strings block. `locate` places the
nodes, so that a node is known by the address of its name.

## What is proved

`walk_forest` says what the walk does over any part of a tree: at the end of each node
it reports the node that began last, when that one is a device. So it gets the devices
right exactly when no device has children and none is the last child of its parent.
-/

namespace Yasouos.Kernel.Fdt

open Yasouos.Theory

/-! ### Device trees -/

/-- A string of bytes without a zero. -/
abbrev CStr : Type := { s : List UInt8 // (0 : UInt8) ∉ s }

/-- What may stand between the beginning of a node and its children. -/
inductive Entry where
  /-- A `FDT_NOP`. -/
  | nop
  /-- A property. Its name is in the strings block, at `nameoff`. -/
  | prop (name : CStr) (nameoff : ℕ) (value : List UInt8)
  deriving DecidableEq

/-- A node, without its children. -/
structure Node where
  /-- How many `FDT_NOP`s stand before it. -/
  nopsBefore : ℕ
  /-- Its name. -/
  name : CStr
  /-- Its properties. -/
  entries : List Entry
  /-- How many `FDT_NOP`s stand before its end. -/
  nopsAfter : ℕ
  deriving DecidableEq

/-- A device tree. -/
structure Tree where
  /-- The root. -/
  root : Node
  /-- The nodes below the root. -/
  children : Forest Node
  /-- How many `FDT_NOP`s stand after the root. -/
  nopsEnd : ℕ

/-- The nodes of the tree. -/
def Tree.forest (t : Tree) : Forest Node := .node t.root t.children .nil

/-- Big-endian numbers. -/
def be32 (n : ℕ) : List UInt8 :=
  [UInt8.ofNat (n / 2 ^ 24), UInt8.ofNat (n / 2 ^ 16), UInt8.ofNat (n / 2 ^ 8), UInt8.ofNat n]

/-- The bytes, and zeros up to a multiple of four. -/
def pad (l : List UInt8) : List UInt8 := l ++ List.replicate ((l.length + 3) / 4 * 4 - l.length) 0

/-- A number of `FDT_NOP`s. -/
def nops (n : ℕ) : List UInt8 := (List.replicate n (be32 fdtNop)).flatten

/-- An entry, in the structure block. -/
def Entry.bytes : Entry → List UInt8
  | nop => be32 fdtNop
  | prop _ nameoff value => be32 fdtProp ++ be32 value.length ++ be32 nameoff ++ pad value

/-- The entries, in the structure block. -/
def entriesBytes (es : List Entry) : List UInt8 := es.flatMap Entry.bytes

/-- A node's name, in the structure block. -/
def Node.nameBytes (n : Node) : List UInt8 := pad (n.name.1 ++ [0])

/-- A forest, in the structure block. -/
def forestBytes : Forest Node → List UInt8
  | .nil => []
  | .node n children rest =>
    nops n.nopsBefore ++ be32 fdtBeginNode ++ n.nameBytes ++ entriesBytes n.entries ++ forestBytes children ++
      nops n.nopsAfter ++ be32 fdtEndNode ++ forestBytes rest

/-- The structure block of a tree. -/
def Tree.bytes (t : Tree) : List UInt8 := forestBytes t.forest ++ nops t.nopsEnd ++ be32 fdtEnd

/-- `fdt_header_t`. -/
structure Header where
  /-- The magic number. -/
  magic : ℕ
  /-- The size of the blob. -/
  totalsize : ℕ
  /-- Where the structure block is. -/
  offDtStruct : ℕ
  /-- Where the strings block is. -/
  offDtStrings : ℕ
  /-- Where the memory reservations are. -/
  offMemRsvmap : ℕ
  /-- The version of the format. -/
  version : ℕ
  /-- The oldest version it is compatible with. -/
  lastCompVersion : ℕ
  /-- The processor that boots. -/
  bootCpuidPhys : ℕ
  /-- The size of the strings block. -/
  sizeDtStrings : ℕ
  /-- The size of the structure block. -/
  sizeDtStruct : ℕ

/-- The header, in memory. -/
def Header.bytes (h : Header) : List UInt8 :=
  [h.magic, h.totalsize, h.offDtStruct, h.offDtStrings, h.offMemRsvmap, h.version, h.lastCompVersion,
    h.bootCpuidPhys, h.sizeDtStrings, h.sizeDtStruct].flatMap be32

/-- Memory has the bytes `l` at `p`. -/
def At (mem : Mem) : ℕ → List UInt8 → Prop
  | _, [] => True
  | p, b :: l => mem p = some b ∧ At mem (p + 1) l

/-- The entry's name is in the strings block, which is at `base`. -/
def Entry.Named (mem : Mem) (base : ℕ) : Entry → Prop
  | nop => True
  | prop name nameoff _ => nameoff < 2 ^ 32 ∧ At mem (base + nameoff) (name.1 ++ [0])

/-- The names of a forest's properties are in the strings block. -/
def Named (mem : Mem) (base : ℕ) : Forest Node → Prop
  | .nil => True
  | .node n children rest => (∀ e ∈ n.entries, e.Named mem base) ∧ Named mem base children ∧ Named mem base rest

/-- The blob at `fdtAddr`, with header `h`, is the tree. -/
structure Flattened (mem : Mem) (fdtAddr : ℕ) (h : Header) (t : Tree) : Prop where
  /-- The blob is somewhere. -/
  addr : fdtAddr ≠ 0
  /-- The header is at its beginning. -/
  header : At mem fdtAddr h.bytes
  /-- It has the magic number. -/
  magic : h.magic = fdtMagic
  /-- The size of the blob has 32 bits. -/
  totalsize : h.totalsize < 2 ^ 32
  /-- The strings block is in the blob. -/
  offDtStrings : h.offDtStrings ≤ h.totalsize
  /-- The structure block is in the blob. -/
  offDtStruct : h.offDtStruct + h.sizeDtStruct ≤ h.totalsize
  /-- Its size is what it says. -/
  sizeDtStruct : h.sizeDtStruct = t.bytes.length
  /-- It is there. -/
  dtStruct : At mem (fdtAddr + h.offDtStruct) t.bytes
  /-- The names of the properties are in the strings block. -/
  dtStrings : Named mem (fdtAddr + h.offDtStrings) t.forest

/-! ### What is to be reported -/

/-- The number that the bytes are, the first one being the most significant. -/
def beNat (l : List UInt8) : ℕ := l.foldl (fun n b => n * 2 ^ 8 + b.toNat) 0

/-- The base and the size in a `reg` property of at least 16 bytes. -/
def Entry.reg : Entry → Option (ℕ × ℕ)
  | nop => none
  | prop name _ value =>
    if name.1 = regName ∧ 16 ≤ value.length then some (beNat (value.take 8), beNat ((value.drop 8).take 8)) else none

/-- The value of a `compatible` property that is not empty. -/
def Entry.compatible : Entry → Option (List UInt8)
  | nop => none
  | prop name _ value => if name.1 = compatibleName ∧ 0 < value.length then some value else none

/-- The base and the size in a node's own properties; if there are several, the last
ones count. -/
def ownReg : List Entry → Option (ℕ × ℕ)
  | [] => none
  | e :: es => (ownReg es).or e.reg

/-- The `compatible` property in a node's own properties, which are at `p`: where its
value is, and the value. -/
def ownCompatible (p : ℕ) : List Entry → Option (ℕ × List UInt8)
  | [] => none
  | e :: es => (ownCompatible (p + e.bytes.length) es).or (e.compatible.map fun value => (p + 12, value))

/-- The node describes a device: its own properties have a `reg` of at least 16 bytes
and a `compatible` that is not empty. -/
def Node.isDevice (n : Node) : Bool := (ownReg n.entries).isSome && n.entries.any fun e => e.compatible.isSome

/-- A node, where it is in memory. -/
structure Placed where
  /-- The node. -/
  node : Node
  /-- Where its name is. -/
  addr : ℕ
  /-- How many nodes it is in. -/
  depth : ℕ
  deriving DecidableEq

/-- Where the node's `compatible` is, and its value. -/
def Placed.compatible (n : Placed) : Option (ℕ × List UInt8) :=
  ownCompatible (n.addr + n.node.nameBytes.length) n.node.entries

/-- What is to be reported of the node: its own name, depth, `reg` and `compatible`. -/
def Placed.record (n : Placed) : Device ℕ :=
  { (Device.zero : Device ℕ) with
    name := some n.addr
    depth := n.depth
    regBase := ((ownReg n.node.entries).map Prod.fst).getD 0
    regSize := ((ownReg n.node.entries).map Prod.snd).getD 0
    compatible := n.compatible.map Prod.fst }

/-- The nodes of a forest at `p`, `d` nodes deep, placed in memory. -/
def locate (p d : ℕ) : Forest Node → Forest Placed
  | .nil => .nil
  | .node n children rest =>
    let name := p + (nops n.nopsBefore).length + 4
    let below := name + n.nameBytes.length + (entriesBytes n.entries).length
    let after := below + (forestBytes children).length + (nops n.nopsAfter).length + 4
    .node ⟨n, name, d⟩ (locate below (d + 1) children) (locate after d rest)

/-- The nodes of a tree that describe a device, its structure block being at `p`. -/
def Tree.devices (t : Tree) (p : ℕ) : List Placed := (locate p 0 t.forest).ends.filter fun n => n.node.isDevice

/-- The value of a property. -/
def Entry.value : Entry → Option (List UInt8)
  | nop => none
  | prop _ _ value => some value

/-- The last of some entries, which are at `p`, for which `g` gives the value: where the value is, and the
value. -/
def lastEntry (g : Entry → Option (List UInt8)) (p : ℕ) : List Entry → Option (ℕ × List UInt8)
  | [] => none
  | e :: es => (lastEntry g (p + e.bytes.length) es).or ((g e).map fun value => (p + 12, value))

theorem isSome_lastEntry (g : Entry → Option (List UInt8)) (p : ℕ) (es : List Entry) :
    (lastEntry g p es).isSome = es.any fun e => (g e).isSome := by
  induction es generalizing p with
  | nil => rfl
  | cons e es ih => simp [lastEntry, ih, Bool.or_comm]

theorem ownCompatible_eq_lastEntry (p : ℕ) (es : List Entry) :
    ownCompatible p es = lastEntry Entry.compatible p es := by
  induction es generalizing p with
  | nil => rfl
  | cons e es ih => rw [ownCompatible, lastEntry, ih]

/-! ### Reading what has been written -/

section Read

variable {mem : Mem} {p : ℕ} {l l' : List UInt8}

theorem at_cons {b : UInt8} : At mem p (b :: l) ↔ mem p = some b ∧ At mem (p + 1) l := Iff.rfl

theorem at_append : At mem p (l ++ l') ↔ At mem p l ∧ At mem (p + l.length) l' := by
  induction l generalizing p with
  | nil => simp [At]
  | cons b l ih =>
    have hp : p + 1 + l.length = p + (l.length + 1) := by omega
    simp [At, ih, and_assoc, hp]

theorem byte_of_at {b : UInt8} (h : At mem p (b :: l)) : byte mem p = .ok b := by
  simp [byte, (at_cons.1 h).1]

theorem length_be32 (n : ℕ) : (be32 n).length = 4 := rfl

theorem length_pad : (pad l).length = (l.length + 3) / 4 * 4 := by
  simp [pad]
  omega

theorem be32ToCpu_eq {b₀ b₁ b₂ b₃ : ℕ} (h₀ : b₀ < 2 ^ 8) (h₁ : b₁ < 2 ^ 8) (h₂ : b₂ < 2 ^ 8) (h₃ : b₃ < 2 ^ 8) :
    be32ToCpu (b₀ + b₁ * 2 ^ 8 + b₂ * 2 ^ 16 + b₃ * 2 ^ 24) = b₀ * 2 ^ 24 + b₁ * 2 ^ 16 + b₂ * 2 ^ 8 + b₃ := by
  have e₃ : (b₀ + b₁ * 2 ^ 8 + b₂ * 2 ^ 16 + b₃ * 2 ^ 24) / 2 ^ 24 % 2 ^ 8 = b₃ := by omega
  have e₂ : (b₀ + b₁ * 2 ^ 8 + b₂ * 2 ^ 16 + b₃ * 2 ^ 24) / 2 ^ 16 % 2 ^ 8 = b₂ := by omega
  have e₁ : (b₀ + b₁ * 2 ^ 8 + b₂ * 2 ^ 16 + b₃ * 2 ^ 24) / 2 ^ 8 % 2 ^ 8 = b₁ := by omega
  have e₀ : (b₀ + b₁ * 2 ^ 8 + b₂ * 2 ^ 16 + b₃ * 2 ^ 24) % 2 ^ 8 = b₀ := by omega
  rw [be32ToCpu, e₀, e₁, e₂, e₃]
  omega

/-- Numbers are read back. -/
theorem loadBe32_of_at {n : ℕ} (h : At mem p (be32 n)) (hn : n < 2 ^ 32) : loadBe32 mem p = .ok n := by
  simp only [be32, at_cons] at h
  obtain ⟨h₀, h₁, h₂, h₃, -⟩ := h
  have hswap : be32ToCpu ((UInt8.ofNat (n / 2 ^ 24)).toNat + (UInt8.ofNat (n / 2 ^ 16)).toNat * 2 ^ 8 +
      (UInt8.ofNat (n / 2 ^ 8)).toNat * 2 ^ 16 + (UInt8.ofNat n).toNat * 2 ^ 24) = n := by
    rw [be32ToCpu_eq (UInt8.toNat_lt _) (UInt8.toNat_lt _) (UInt8.toNat_lt _) (UInt8.toNat_lt _)]
    simp only [UInt8.toNat_ofNat']
    omega
  rw [← hswap]
  simp only [loadBe32, load32, byte, h₀, h₁, h₂, h₃]
  rfl

theorem readBe32Unaligned_of_at (h : At mem p l) (hl : l.length = 4) : readBe32Unaligned mem p = .ok (beNat l) := by
  obtain ⟨b₀, b₁, b₂, b₃, rfl⟩ : ∃ b₀ b₁ b₂ b₃, l = [b₀, b₁, b₂, b₃] := by
    rcases l with _ | ⟨b₀, _ | ⟨b₁, _ | ⟨b₂, _ | ⟨b₃, _ | ⟨b₄, l⟩⟩⟩⟩⟩ <;> simp at hl
    exact ⟨b₀, b₁, b₂, b₃, rfl⟩
  simp only [at_cons] at h
  obtain ⟨h₀, h₁, h₂, h₃, -⟩ := h
  have hval : beNat [b₀, b₁, b₂, b₃] =
      b₀.toNat * 2 ^ 24 + b₁.toNat * 2 ^ 16 + b₂.toNat * 2 ^ 8 + b₃.toNat := by
    simp only [beNat, List.foldl_cons, List.foldl_nil]
    omega
  rw [hval]
  simp only [readBe32Unaligned, byte, h₀, h₁, h₂, h₃]
  rfl

theorem at_slice {i n : ℕ} (h : At mem p l) (hl : i + n ≤ l.length) : At mem (p + i) ((l.drop i).take n) := by
  rw [← List.take_append_drop i l, at_append, ← List.take_append_drop n (l.drop i), at_append,
    List.length_take_of_le (by omega)] at h
  exact h.2.1

theorem beNat_append (l l' : List UInt8) : beNat (l ++ l') = beNat l * 2 ^ (8 * l'.length) + beNat l' := by
  have hfold : ∀ (l' : List UInt8) (n : ℕ),
      l'.foldl (fun n b => n * 2 ^ 8 + b.toNat) n = n * 2 ^ (8 * l'.length) + beNat l' := by
    intro l'
    induction l' with
    | nil => simp [beNat]
    | cons b l' ih =>
      intro n
      have hb : beNat (b :: l') = b.toNat * 2 ^ (8 * l'.length) + beNat l' := by
        rw [beNat, List.foldl_cons, ih]
        simp
      rw [List.foldl_cons, ih, hb, List.length_cons]
      ring
  rw [beNat, List.foldl_append, hfold]
  rfl

/-- The parser reads an address or a size of two cells. -/
theorem readBe32Unaligned_pair {i : ℕ} (h : At mem p l) (hl : i + 8 ≤ l.length) :
    ∃ hi lo, readBe32Unaligned mem (p + i) = .ok hi ∧ readBe32Unaligned mem (p + i + 4) = .ok lo ∧
      hi * 2 ^ 32 + lo = beNat ((l.drop i).take 8) := by
  have hat := at_slice h hl
  have hlen : ((l.drop i).take 8).length = 8 := by simp; omega
  generalize (l.drop i).take 8 = v at hat hlen
  have hhi := at_slice (i := 0) (n := 4) hat (by omega)
  have hlo := at_slice (i := 4) (n := 4) hat (by omega)
  refine ⟨_, _, readBe32Unaligned_of_at hhi (by simp; omega), readBe32Unaligned_of_at hlo (by simp; omega), ?_⟩
  have hv : v = v.take 4 ++ (v.drop 4).take 4 := by
    rw [List.take_of_length_le (l := v.drop 4) (by simp; omega), List.take_append_drop]
  conv_rhs => rw [hv, beNat_append]
  simp [hlen]

/-- Strings are compared as they should be. -/
theorem strEqual_of_at {s lit : List UInt8} (h : At mem p (s ++ [0])) (hs : (0 : UInt8) ∉ s) (hlit : (0 : UInt8) ∉ lit) :
    strEqual mem p lit = .ok (decide (s = lit)) := by
  induction lit generalizing s p with
  | nil =>
    cases s with
    | nil =>
      rw [strEqual, byte_of_at h]
      rfl
    | cons b s =>
      have hb : b ≠ 0 := fun hb => hs (by simp [hb])
      rw [strEqual, byte_of_at h]
      simp [pure, Except.pure, bind, Except.bind, hb]
  | cons c lit ih =>
    have hc : c ≠ 0 := fun hc => hlit (by simp [hc])
    cases s with
    | nil =>
      rw [strEqual, byte_of_at h]
      simp [pure, Except.pure, bind, Except.bind, hc.symm]
    | cons b s =>
      have hb : b ≠ 0 := fun hb => hs (by simp [hb])
      have htail := ih (at_cons.1 h).2 (fun h0 => hs (by simp [h0])) (fun h0 => hlit (by simp [h0]))
      rw [strEqual, byte_of_at h]
      by_cases hbc : b = c
      · subst hbc
        simpa [bind, Except.bind, hb] using htail
      · simp [pure, Except.pure, bind, Except.bind, hbc]

/-- A name is measured up to its end. -/
theorem nameLen_of_at {s : List UInt8} {max : ℕ} (h : At mem p (s ++ [0])) (hs : (0 : UInt8) ∉ s) (hmax : s.length < max) :
    nameLen mem p max = .ok s.length := by
  induction s generalizing p max with
  | nil =>
    obtain ⟨m, rfl⟩ : ∃ m, max = m + 1 := ⟨max - 1, by simp at hmax; omega⟩
    rw [nameLen, byte_of_at h]
    rfl
  | cons b s ih =>
    obtain ⟨m, rfl⟩ : ∃ m, max = m + 1 := ⟨max - 1, by simp at hmax; omega⟩
    have hb : b ≠ 0 := fun hb => hs (by simp [hb])
    have htail := ih (at_cons.1 h).2 (fun h0 => hs (by simp [h0])) (by simpa using hmax)
    rw [nameLen, byte_of_at h]
    simp [pure, Except.pure, bind, Except.bind, hb, htail]

/-- In a block of less than 2³² bytes, the parser skips over the padding. -/
theorem alignUp_eq (h : (pad l).length < 2 ^ 32) : alignUp l.length = (pad l).length := by
  rw [length_pad] at h ⊢
  rw [alignUp, Nat.mod_eq_of_lt (by omega)]

end Read

/-! ### The walk over a tree -/

namespace Walk

/-- The walk is at `p`. -/
def moveTo (s : Walk) (p : ℕ) : Walk := { s with structPtr := p }

/-- A node whose name is at `name` has begun: the record is cleared. -/
def enter (s : Walk) (name : ℕ) : Walk :=
  { s with
    depth := s.depth + 1
    hasReg := false
    hasCompatible := false
    currentDevice := { (Device.zero : Device ℕ) with name := some name, depth := s.depth } }

/-- Some properties have been seen: a `reg`, or a `compatible` at some address. -/
def note (s : Walk) (reg : Option (ℕ × ℕ)) (compatible : Option ℕ) : Walk :=
  { s with
    hasReg := s.hasReg || reg.isSome
    hasCompatible := s.hasCompatible || compatible.isSome
    currentDevice := { s.currentDevice with
      regBase := (reg.map Prod.fst).getD s.currentDevice.regBase
      regSize := (reg.map Prod.snd).getD s.currentDevice.regSize
      compatible := compatible.or s.currentDevice.compatible } }

/-- The properties of a node have been seen. -/
def readEntries (s : Walk) (es : List Entry) : Walk :=
  (s.note (ownReg es) ((ownCompatible s.structPtr es).map Prod.fst)).moveTo (s.structPtr + (entriesBytes es).length)

/-- The depth is `d`. -/
def setDepth (s : Walk) (d : ℤ) : Walk := { s with depth := d }

/-- The record is that of the node `n`. -/
def sees (s : Walk) (n : Placed) : Walk :=
  { s with
    hasReg := (ownReg n.node.entries).isSome
    hasCompatible := n.compatible.isSome
    currentDevice := n.record }

/-- The record is that of the node, if there is one, and otherwise what it was. -/
def seesLast (s : Walk) : Option Placed → Walk
  | none => s
  | some n => s.sees n

/-- Those of the nodes that are devices have been reported. -/
def reported (s : Walk) (ns : List Placed) : Walk :=
  { s with
    deviceCount := s.deviceCount + (ns.filter fun n => n.node.isDevice).length
    reports := s.reports ++ (ns.filter fun n => n.node.isDevice).map Placed.record }

/-- The walk has gone over the forest, and is at `p`. -/
def after (s : Walk) (f : Forest Placed) (p : ℕ) : Walk := ((s.seesLast f.lastBegun).reported f.atEnds).moveTo p

variable (s : Walk)

@[simp] theorem structPtr_moveTo (p : ℕ) : (s.moveTo p).structPtr = p := rfl

@[simp] theorem structPtr_note (reg : Option (ℕ × ℕ)) (compatible : Option ℕ) :
    (s.note reg compatible).structPtr = s.structPtr := rfl

@[simp] theorem moveTo_moveTo (p q : ℕ) : (s.moveTo p).moveTo q = s.moveTo q := rfl

@[simp] theorem moveTo_self : s.moveTo s.structPtr = s := rfl

@[simp] theorem note_moveTo (p : ℕ) (reg : Option (ℕ × ℕ)) (compatible : Option ℕ) :
    (s.moveTo p).note reg compatible = (s.note reg compatible).moveTo p := rfl

@[simp] theorem note_none : s.note none none = s := by simp [note]

@[simp] theorem note_note (reg reg' : Option (ℕ × ℕ)) (compatible compatible' : Option ℕ) :
    (s.note reg compatible).note reg' compatible' = s.note (reg'.or reg) (compatible'.or compatible) := by
  cases reg <;> cases reg' <;> cases compatible <;> cases compatible' <;> simp [note]

@[simp] theorem depth_moveTo (p : ℕ) : (s.moveTo p).depth = s.depth := rfl

@[simp] theorem depth_setDepth (d : ℤ) : (s.setDepth d).depth = d := rfl

@[simp] theorem depth_sees (n : Placed) : (s.sees n).depth = s.depth := rfl

@[simp] theorem depth_reported (ns : List Placed) : (s.reported ns).depth = s.depth := rfl

@[simp] theorem setDepth_moveTo (p : ℕ) (d : ℤ) : (s.moveTo p).setDepth d = (s.setDepth d).moveTo p := rfl

@[simp] theorem setDepth_setDepth (d e : ℤ) : (s.setDepth d).setDepth e = s.setDepth e := rfl

@[simp] theorem setDepth_self : s.setDepth s.depth = s := rfl

@[simp] theorem seesLast_some (n : Placed) : s.seesLast (some n) = s.sees n := rfl

@[simp] theorem seesLast_moveTo (p : ℕ) (o : Option Placed) :
    (s.moveTo p).seesLast o = (s.seesLast o).moveTo p := by cases o <;> rfl

@[simp] theorem seesLast_setDepth (d : ℤ) (o : Option Placed) :
    (s.setDepth d).seesLast o = (s.seesLast o).setDepth d := by cases o <;> rfl

@[simp] theorem seesLast_reported (ns : List Placed) (o : Option Placed) :
    (s.reported ns).seesLast o = (s.seesLast o).reported ns := by cases o <;> rfl

@[simp] theorem seesLast_sees (n : Placed) (o : Option Placed) : (s.sees n).seesLast o = s.sees (o.getD n) := by
  cases o <;> rfl

@[simp] theorem reported_moveTo (p : ℕ) (ns : List Placed) :
    (s.moveTo p).reported ns = (s.reported ns).moveTo p := rfl

@[simp] theorem reported_setDepth (d : ℤ) (ns : List Placed) :
    (s.setDepth d).reported ns = (s.reported ns).setDepth d := rfl

@[simp] theorem reported_reported (ns ns' : List Placed) :
    (s.reported ns).reported ns' = s.reported (ns ++ ns') := by
  simp [reported, Int.add_assoc]

theorem after_nil : s.after .nil s.structPtr = s := by simp [after, Forest.lastBegun, Forest.atEnds, seesLast, reported]

/-- Once a node has begun and its properties have been seen, the record is the node's
own. -/
theorem readEntries_enter (n : Node) (name d : ℕ) (hd : s.depth = d) :
    ((s.enter name).moveTo (name + n.nameBytes.length)).readEntries n.entries =
      ((s.sees ⟨n, name, d⟩).setDepth (d + 1)).moveTo
        (name + n.nameBytes.length + (entriesBytes n.entries).length) := by
  simp [readEntries, enter, moveTo, note, sees, setDepth, Placed.record, Placed.compatible, Device.zero, hd]

theorem readEntries_nil : s.readEntries [] = s := by simp [readEntries, ownReg, ownCompatible, entriesBytes]

theorem readEntries_singleton (e : Entry) :
    s.readEntries [e] =
      (s.note e.reg (e.compatible.map fun _ => s.structPtr + 12)).moveTo (s.structPtr + e.bytes.length) := by
  simp [readEntries, ownReg, ownCompatible, entriesBytes, Function.comp_def]

theorem readEntries_cons (e : Entry) (es : List Entry) :
    s.readEntries (e :: es) = (s.readEntries [e]).readEntries es := by
  rw [readEntries_singleton]
  simp [readEntries, ownReg, ownCompatible, entriesBytes, Option.map_or, Function.comp_def, Nat.add_assoc]

end Walk

section Walk

variable {mem : Mem} {base structEnd : ℕ} {s s' s'' : Walk}

variable (mem base structEnd) in
/-- The loop gets from one state to the other, making no more iterations than it has
bytes behind it. -/
def Reaches (s s' : Walk) : Prop :=
  ∃ n, s.structPtr + n ≤ s'.structPtr ∧
    ∀ k, walkTokens mem true base structEnd (k + n) s = walkTokens mem true base structEnd k s'

theorem Reaches.refl (s : Walk) : Reaches mem base structEnd s s := LoopsTo.refl s

theorem Reaches.trans (h : Reaches mem base structEnd s s') (h' : Reaches mem base structEnd s' s'') :
    Reaches mem base structEnd s s'' := LoopsTo.trans h h'

theorem Reaches.of_step (h : step mem true base structEnd s = .ok (.loop s')) (hlt : s.structPtr < s'.structPtr) :
    Reaches mem base structEnd s s' := by
  refine LoopsTo.single (fun k => ?_) hlt
  rw [walkTokens, h]
  rfl

/-- The token that is there is read. -/
theorem step_eq {token : ℕ} (hat : At mem s.structPtr (be32 token)) (htoken : token < 2 ^ 32)
    (hend : s.structPtr < structEnd) :
    step mem true base structEnd s =
      (if token = fdtBeginNode then beginNode mem structEnd (s.moveTo (s.structPtr + 4))
      else if token = fdtEndNode then .ok (.loop (endNode true (s.moveTo (s.structPtr + 4))))
      else if token = fdtProp then prop mem base structEnd (s.moveTo (s.structPtr + 4))
      else if token = fdtNop then .ok (.loop (s.moveTo (s.structPtr + 4)))
      else .ok (.done (s.moveTo (s.structPtr + 4)))) := by
  rw [step, if_neg (by omega), loadBe32_of_at hat htoken]
  rfl

theorem reaches_nop (hat : At mem s.structPtr (be32 fdtNop)) (hend : s.structPtr < structEnd) :
    Reaches mem base structEnd s (s.moveTo (s.structPtr + 4)) := by
  refine .of_step ?_ (by simp)
  rw [step_eq hat (by decide) hend]
  rfl

/-- `FDT_NOP`s are skipped. -/
theorem reaches_nops {n : ℕ} (hat : At mem s.structPtr (nops n)) (hend : s.structPtr + (nops n).length ≤ structEnd) :
    Reaches mem base structEnd s (s.moveTo (s.structPtr + (nops n).length)) := by
  induction n generalizing s with
  | zero => exact .refl s
  | succ n ih =>
    have hsucc : nops (n + 1) = be32 fdtNop ++ nops n := by simp [nops, List.replicate_succ]
    rw [hsucc, List.length_append, length_be32] at hend ⊢
    rw [hsucc, at_append, length_be32] at hat
    have hfirst : Reaches mem base structEnd s (s.moveTo (s.structPtr + 4)) :=
      reaches_nop hat.1 (by omega)
    have hrest := ih (s := s.moveTo (s.structPtr + 4)) hat.2 (by simp; omega)
    simpa [Nat.add_assoc] using hfirst.trans hrest

/-- A node begins: the record is cleared. -/
theorem beginNode_eq {n : Node} (hat : At mem s.structPtr n.nameBytes)
    (hend : s.structPtr + n.nameBytes.length ≤ structEnd) (hlen : n.nameBytes.length < 2 ^ 32) :
    beginNode mem structEnd s =
      .ok (.loop ((s.enter s.structPtr).moveTo (s.structPtr + n.nameBytes.length))) := by
  have hname : At mem s.structPtr (n.name.1 ++ [0]) := (at_append.1 hat).1
  have hpad : n.name.1.length + 1 ≤ n.nameBytes.length := by
    rw [Node.nameBytes, length_pad]
    simp
    omega
  have halign : alignUp ((n.name.1.length + 1) % 2 ^ 32) = n.nameBytes.length := by
    rw [Nat.mod_eq_of_lt (by omega), Node.nameBytes, ← alignUp_eq hlen]
    simp
  rw [beginNode, if_neg (by omega)]
  simp only [nameLen_of_at hname n.name.2 (show n.name.1.length < structEnd - s.structPtr by omega), bind, Except.bind]
  rw [if_neg (by omega), if_neg (by omega), halign]
  rfl

theorem reaches_begin {n : Node} (hat : At mem s.structPtr (be32 fdtBeginNode ++ n.nameBytes))
    (hend : s.structPtr + 4 + n.nameBytes.length ≤ structEnd) (hlen : n.nameBytes.length < 2 ^ 32) :
    Reaches mem base structEnd s
      ((s.enter (s.structPtr + 4)).moveTo (s.structPtr + 4 + n.nameBytes.length)) := by
  rw [at_append, length_be32] at hat
  refine .of_step ?_ (by simp; omega)
  rw [step_eq hat.1 (by decide) (by omega), if_pos rfl, beginNode_eq hat.2 hend hlen]
  rfl

/-- A property is noted, if it is one that matters. -/
theorem parseProp_eq {name : CStr} {p data : ℕ} {value : List UInt8} (nameoff : ℕ) (hname : At mem p (name.1 ++ [0]))
    (hat : At mem data value) (hend : data + value.length ≤ structEnd) :
    parseProp mem structEnd p data value.length s =
      .ok (s.note (Entry.prop name nameoff value).reg ((Entry.prop name nameoff value).compatible.map fun _ => data)) := by
  have hreg : strEqual mem p regName = .ok (decide (name.1 = regName)) :=
    strEqual_of_at hname name.2 (by decide)
  have hcompatible : strEqual mem p compatibleName = .ok (decide (name.1 = compatibleName)) :=
    strEqual_of_at hname name.2 (by decide)
  have hne : regName ≠ compatibleName := by decide
  by_cases h₁ : name.1 = regName
  · by_cases h₂ : 16 ≤ value.length
    · obtain ⟨ahi, alo, hahi, halo, haddr⟩ := readBe32Unaligned_pair (i := 0) hat (by omega)
      obtain ⟨shi, slo, hshi, hslo, hsize⟩ := readBe32Unaligned_pair (i := 8) hat (by omega)
      simp only [Nat.add_zero, List.drop_zero] at hahi halo haddr
      have hdata : data + 16 ≤ structEnd := by omega
      simp [parseProp, hreg, h₁, h₂, hdata, hahi, halo, hshi, hslo, bind, Except.bind, pure, Except.pure,
        Entry.reg, Entry.compatible, Walk.note, hne]
      exact ⟨haddr, hsize⟩
    · simp [parseProp, hreg, h₁, h₂, bind, Except.bind, pure, Except.pure, Entry.reg, Entry.compatible, hne,
        Walk.note_none]
  · by_cases h₂ : name.1 = compatibleName
    · by_cases h₃ : 0 < value.length
      · simp [parseProp, hreg, hcompatible, h₂, hne.symm, h₃, bind, Except.bind, pure, Except.pure, Entry.reg,
          Entry.compatible, Walk.note]
      · simp [parseProp, hreg, hcompatible, h₂, hne.symm, h₃, bind, Except.bind, pure, Except.pure, Entry.reg,
          Entry.compatible, Walk.note_none]
    · simp [parseProp, hreg, hcompatible, h₁, h₂, bind, Except.bind, pure, Except.pure, Entry.reg,
        Entry.compatible, Walk.note_none]

/-- A property is read, after its token. -/
theorem prop_eq {name : CStr} {nameoff : ℕ} {value : List UInt8}
    (hat : At mem s.structPtr (be32 value.length ++ be32 nameoff ++ pad value))
    (hnamed : (Entry.prop name nameoff value).Named mem base)
    (hend : s.structPtr + 8 + (pad value).length ≤ structEnd) (hlen : (pad value).length < 2 ^ 32) :
    prop mem base structEnd s =
      .ok (.loop ((s.note (Entry.prop name nameoff value).reg
        ((Entry.prop name nameoff value).compatible.map fun _ => s.structPtr + 8)).moveTo
          (s.structPtr + 8 + (pad value).length))) := by
  simp only [at_append, List.length_append, length_be32] at hat
  obtain ⟨⟨hl, hoff⟩, hvalue⟩ := hat
  have hpad : value.length ≤ (pad value).length := by
    rw [length_pad]
    omega
  have hdata : At mem (s.structPtr + 8) value := (at_append.1 hvalue).1
  have hparse := parseProp_eq (s := s) nameoff hnamed.2 hdata (show _ ≤ structEnd by omega)
  rw [prop, if_neg (by omega)]
  simp only [loadBe32_of_at hl (show value.length < 2 ^ 32 by omega), loadBe32_of_at hoff hnamed.1, bind, Except.bind]
  rw [if_neg (by omega), hparse]
  simp only [alignUp_eq hlen]
  rw [if_neg (by omega)]
  rfl

/-- An entry is read. -/
theorem reaches_entry {e : Entry} (hat : At mem s.structPtr e.bytes) (hnamed : e.Named mem base)
    (hend : s.structPtr + e.bytes.length ≤ structEnd) (hlen : e.bytes.length < 2 ^ 32) :
    Reaches mem base structEnd s (s.readEntries [e]) := by
  rw [Walk.readEntries_singleton]
  cases e with
  | nop =>
    simp only [Entry.bytes, length_be32, Entry.reg, Entry.compatible, Option.map_none, Walk.note_none] at hend ⊢
    exact reaches_nop hat (by omega)
  | prop name nameoff value =>
    have hbytes : (Entry.prop name nameoff value).bytes =
        be32 fdtProp ++ (be32 value.length ++ be32 nameoff ++ pad value) := by simp [Entry.bytes]
    have hbytes' : (Entry.prop name nameoff value).bytes.length = 12 + (pad value).length := by
      simp [Entry.bytes, length_be32]
      omega
    rw [hbytes'] at hend hlen ⊢
    rw [hbytes, at_append, length_be32] at hat
    refine .of_step ?_ (by simp)
    rw [step_eq hat.1 (by decide) (by omega), if_neg (by decide), if_neg (by decide), if_pos rfl,
      prop_eq hat.2 hnamed (by simp; omega) (by omega)]
    simp [Nat.add_assoc]

/-- The entries of a node are read. -/
theorem reaches_entries {es : List Entry} (hat : At mem s.structPtr (entriesBytes es))
    (hnamed : ∀ e ∈ es, e.Named mem base) (hend : s.structPtr + (entriesBytes es).length ≤ structEnd)
    (hlen : (entriesBytes es).length < 2 ^ 32) : Reaches mem base structEnd s (s.readEntries es) := by
  induction es generalizing s with
  | nil =>
    rw [Walk.readEntries_nil]
    exact .refl s
  | cons e es ih =>
    have hcons : entriesBytes (e :: es) = e.bytes ++ entriesBytes es := rfl
    rw [hcons, List.length_append] at hend hlen
    rw [hcons, at_append] at hat
    have hptr : (s.readEntries [e]).structPtr = s.structPtr + e.bytes.length := by
      rw [Walk.readEntries_singleton, Walk.structPtr_moveTo]
    rw [Walk.readEntries_cons]
    refine (reaches_entry hat.1 (hnamed e (by simp)) (by omega) (by omega)).trans (ih ?_ ?_ ?_ (by omega))
    · rw [hptr]
      exact hat.2
    · exact fun e' he' => hnamed e' (by simp [he'])
    · omega

/-- A node ends: what the record is about is reported, if it is a device. -/
theorem endNode_eq {n : Placed} (hs : s.sees n = s) :
    endNode true s = (s.reported [n]).setDepth (s.depth - 1) := by
  have hdev : n.node.isDevice = (s.hasReg && s.hasCompatible) := by
    rw [← hs]
    simp [Walk.sees, Node.isDevice, Placed.compatible, ownCompatible_eq_lastEntry, isSome_lastEntry]
  have hcur : s.currentDevice = n.record := by
    rw [← hs]
    rfl
  cases hb : n.node.isDevice with
  | true => simp [endNode, Walk.reported, Walk.setDepth, ← hdev, hb, hcur]
  | false => simp [endNode, Walk.reported, Walk.setDepth, ← hdev, hb]

theorem reaches_end {n : Placed} (hs : s.sees n = s) (hat : At mem s.structPtr (be32 fdtEndNode))
    (hend : s.structPtr < structEnd) :
    Reaches mem base structEnd s (((s.reported [n]).setDepth (s.depth - 1)).moveTo (s.structPtr + 4)) := by
  have hs' : (s.moveTo (s.structPtr + 4)).sees n = s.moveTo (s.structPtr + 4) := congrArg (Walk.moveTo · _) hs
  refine .of_step ?_ (by simp)
  rw [step_eq hat (by decide) hend, if_neg (by decide), if_pos rfl, endNode_eq hs']
  simp

/-- From before a node to its children. -/
theorem reaches_children {n : Node} {d : ℕ} (hd : s.depth = d)
    (hat : At mem s.structPtr (nops n.nopsBefore ++ be32 fdtBeginNode ++ n.nameBytes ++ entriesBytes n.entries))
    (hnamed : ∀ e ∈ n.entries, e.Named mem base)
    (hend : s.structPtr + (nops n.nopsBefore).length + 4 + n.nameBytes.length + (entriesBytes n.entries).length ≤
      structEnd)
    (hname : n.nameBytes.length < 2 ^ 32) (hentries : (entriesBytes n.entries).length < 2 ^ 32) :
    Reaches mem base structEnd s
      (((s.sees ⟨n, s.structPtr + (nops n.nopsBefore).length + 4, d⟩).setDepth (d + 1)).moveTo
        (s.structPtr + (nops n.nopsBefore).length + 4 + n.nameBytes.length + (entriesBytes n.entries).length)) := by
  simp only [at_append, List.length_append, length_be32, ← Nat.add_assoc] at hat
  obtain ⟨⟨⟨hat₁, hat₂⟩, hat₃⟩, hat₄⟩ := hat
  rw [← s.readEntries_enter n _ d hd]
  have h₁ : Reaches mem base structEnd s (s.moveTo (s.structPtr + (nops n.nopsBefore).length)) :=
    reaches_nops hat₁ (by omega)
  have h₂ := h₁.trans (reaches_begin (at_append.2 ⟨hat₂, hat₃⟩) (by simp; omega) hname)
  exact h₂.trans (reaches_entries hat₄ hnamed (by simp; omega) hentries)

/-- From the end of a node's children to after the node. -/
theorem reaches_after {n : Node} {x : Placed} (hs : s.sees x = s)
    (hat : At mem s.structPtr (nops n.nopsAfter ++ be32 fdtEndNode))
    (hend : s.structPtr + (nops n.nopsAfter).length + 4 ≤ structEnd) :
    Reaches mem base structEnd s
      (((s.reported [x]).setDepth (s.depth - 1)).moveTo (s.structPtr + (nops n.nopsAfter).length + 4)) := by
  rw [at_append] at hat
  have h₁ : Reaches mem base structEnd s (s.moveTo (s.structPtr + (nops n.nopsAfter).length)) :=
    reaches_nops hat.1 (by omega)
  have hs' : (s.moveTo (s.structPtr + (nops n.nopsAfter).length)).sees x = s.moveTo _ :=
    congrArg (Walk.moveTo · _) hs
  simpa using h₁.trans (reaches_end hs' hat.2 (by simp; omega))

/-- The parts of a node that is in memory. -/
theorem at_node {p : ℕ} {n : Node} {children rest : Forest Node} (hat : At mem p (forestBytes (.node n children rest))) :
    At mem p (nops n.nopsBefore ++ be32 fdtBeginNode ++ n.nameBytes ++ entriesBytes n.entries) ∧
      At mem (p + (nops n.nopsBefore).length + 4 + n.nameBytes.length + (entriesBytes n.entries).length)
        (forestBytes children) ∧
      At mem (p + (nops n.nopsBefore).length + 4 + n.nameBytes.length + (entriesBytes n.entries).length +
        (forestBytes children).length) (nops n.nopsAfter ++ be32 fdtEndNode) ∧
      At mem (p + (nops n.nopsBefore).length + 4 + n.nameBytes.length + (entriesBytes n.entries).length +
        (forestBytes children).length + (nops n.nopsAfter).length + 4) (forestBytes rest) := by
  simp only [forestBytes, at_append, List.length_append, length_be32, ← Nat.add_assoc] at hat ⊢
  obtain ⟨⟨⟨⟨h₁, h₂⟩, h₃⟩, h₄⟩, h₅⟩ := hat
  exact ⟨h₁, h₂, ⟨h₃, h₄⟩, h₅⟩

theorem length_node (n : Node) (children rest : Forest Node) :
    (forestBytes (.node n children rest)).length =
      (nops n.nopsBefore).length + 4 + n.nameBytes.length + (entriesBytes n.entries).length +
        (forestBytes children).length + (nops n.nopsAfter).length + 4 + (forestBytes rest).length := by
  simp only [forestBytes, List.length_append, length_be32]

/-- Over a forest, the walk reports at the end of each node the node that began last, if
that is a device. -/
theorem walk_forest (f : Forest Node) {d : ℕ} (hd : s.depth = d) (hat : At mem s.structPtr (forestBytes f))
    (hnamed : Named mem base f) (hend : s.structPtr + (forestBytes f).length ≤ structEnd)
    (hlen : (forestBytes f).length < 2 ^ 32) :
    Reaches mem base structEnd s
      (s.after (locate s.structPtr d f) (s.structPtr + (forestBytes f).length)) := by
  induction f generalizing s d with
  | nil =>
    have h : s.after (locate s.structPtr d .nil) (s.structPtr + (forestBytes .nil).length) = s := s.after_nil
    rw [h]
    exact .refl s
  | node n children rest ihc ihr =>
    obtain ⟨hentries, hchildren, hrest⟩ := hnamed
    obtain ⟨hat₁, hat₂, hat₃, hat₄⟩ := at_node hat
    rw [length_node] at hend hlen ⊢
    simp only [← Nat.add_assoc] at hend ⊢
    have h₁ : Reaches mem base structEnd s _ := reaches_children hd hat₁ hentries (by omega) (by omega) (by omega)
    have h₂ := h₁.trans (ihc (d := d + 1) (by simp) hat₂ hchildren (by simp; omega) (by omega))
    simp only [Walk.after, Walk.structPtr_moveTo, Walk.seesLast_moveTo, Walk.seesLast_setDepth, Walk.seesLast_sees,
      Walk.reported_moveTo, Walk.reported_setDepth, Walk.moveTo_moveTo] at h₂
    have h₃ := h₂.trans (reaches_after rfl hat₃ (by simp; omega))
    have h₄ := h₃.trans (ihr (d := d) (by simp) hat₄ hrest (by simp; omega) (by omega))
    have hsame : ∀ ns x, ((s.sees x).reported ns).setDepth d = (s.sees x).reported ns := by
      intro ns x
      rw [← hd]
      rfl
    simpa [Walk.after, hsame, locate, Forest.lastBegun, Forest.atEnds, Nat.add_assoc] using h₄

end Walk

/-! ### Where the nodes are -/

section Locate

variable {mem : Mem}

theorem map_node_locate (p d : ℕ) (f : Forest Node) : (locate p d f).map Placed.node = f := by
  induction f generalizing p d with
  | nil => rfl
  | node n children rest ihc ihr => simp [locate, Forest.map, ihc, ihr]

section Places

variable {g : Placed → Option ℕ} (hg : ∀ n q, g n = some q → n.addr ≤ q ∧
  q ≤ n.addr + n.node.nameBytes.length + (entriesBytes n.node.entries).length)

include hg

/-- Places in the nodes of a forest are in its bytes. -/
theorem place_mem {p d q : ℕ} {f : Forest Node} (hq : q ∈ (locate p d f).ends.filterMap g) :
    p < q ∧ q < p + (forestBytes f).length := by
  induction f generalizing p d with
  | nil => simp [locate, Forest.ends] at hq
  | node m children rest ihc ihr =>
    simp only [locate, Forest.ends, List.filterMap_append, List.mem_append] at hq
    rw [length_node]
    rcases hq with hq | hq
    · have := ihc hq
      omega
    obtain ⟨n, hn, hnq⟩ := List.mem_filterMap.1 hq
    rcases List.mem_cons.1 hn with rfl | hn
    · have := hg _ _ hnq
      simp only at this
      omega
    · have := ihr (List.mem_filterMap.2 ⟨n, hn, hnq⟩)
      omega

/-- Places in different nodes are different. -/
theorem nodup_place (p d : ℕ) (f : Forest Node) : ((locate p d f).ends.filterMap g).Nodup := by
  induction f generalizing p d with
  | nil => simp [locate, Forest.ends]
  | node m children rest ihc ihr =>
    simp only [locate, Forest.ends, List.filterMap_append]
    refine List.Nodup.append (ihc _ _) ?_ ?_
    · rw [List.filterMap_cons]
      cases hq : g _ with
      | none => exact ihr _ _
      | some q =>
        refine List.nodup_cons.2 ⟨fun hmem => ?_, ihr _ _⟩
        have hown := hg _ _ hq
        have hrest := place_mem hg hmem
        simp only at hown
        omega
    · intro q hq hq'
      have hchildren := place_mem hg hq
      obtain ⟨n, hn, hnq⟩ := List.mem_filterMap.1 hq'
      rcases List.mem_cons.1 hn with rfl | hn
      · have hown := hg _ _ hnq
        simp only at hown
        omega
      · have hrest := place_mem hg (List.mem_filterMap.2 ⟨n, hn, hnq⟩)
        omega

end Places

/-- Nodes are told apart by where they are. -/
theorem nodup_addr (p d : ℕ) (f : Forest Node) : ((locate p d f).ends.map Placed.addr).Nodup := by
  rw [← List.filterMap_eq_map]
  refine nodup_place (fun n q h => ?_) p d f
  obtain rfl : n.addr = q := Option.some.inj h
  omega

/-- The value of a property is behind its token, its length and the offset of its name. -/
theorem at_value {p : ℕ} {e : Entry} {v : List UInt8} (hv : e.value = some v) (hat : At mem p e.bytes) :
    At mem (p + 12) v := by
  cases e with
  | nop => cases hv
  | prop name nameoff value =>
    cases hv
    simp only [Entry.bytes, pad, at_append, List.length_append, length_be32] at hat
    exact hat.2.1

/-- The value of the last entry is where it is said to be. -/
theorem lastEntry_at {g : Entry → Option (List UInt8)} (hg : ∀ e v, g e = some v → e.value = some v) {p q : ℕ}
    {es : List Entry} {v : List UInt8} (hat : At mem p (entriesBytes es)) (h : lastEntry g p es = some (q, v)) :
    At mem q v := by
  induction es generalizing p with
  | nil => simp [lastEntry] at h
  | cons e es ih =>
    have hcons : entriesBytes (e :: es) = e.bytes ++ entriesBytes es := rfl
    rw [hcons, at_append] at hat
    rw [lastEntry, Option.or_eq_some_iff] at h
    rcases h with h | ⟨-, h⟩
    · exact ih hat.2 h
    · obtain ⟨v', hv', hpair⟩ := Option.map_eq_some_iff.1 h
      obtain ⟨rfl, rfl⟩ := Prod.mk.inj hpair
      exact at_value (hg e v' hv') hat.1

theorem Entry.value_of_compatible (e : Entry) (v : List UInt8) (h : e.compatible = some v) : e.value = some v := by
  cases e with
  | nop => cases h
  | prop name nameoff value =>
    rw [Entry.compatible, Option.ite_none_right_eq_some] at h
    exact h.2

/-- The node's name, and its `compatible` if it has one, are where they are said to
be. -/
def Placed.InMemory (mem : Mem) (n : Placed) : Prop :=
  At mem n.addr (n.node.name.1 ++ [0]) ∧ ∀ q v, n.compatible = some (q, v) → At mem q v

theorem inMemory_of_at {p d : ℕ} {f : Forest Node} (hat : At mem p (forestBytes f)) {n : Placed}
    (hn : n ∈ (locate p d f).ends) : n.InMemory mem := by
  induction f generalizing p d with
  | nil => simp [locate, Forest.ends] at hn
  | node m children rest ihc ihr =>
    simp only [locate, Forest.ends, List.mem_append, List.mem_cons] at hn
    obtain ⟨hopen, hchildren, -, hrest⟩ := at_node hat
    rcases hn with hn | rfl | hn
    · exact ihc hchildren hn
    · simp only [at_append, List.length_append, length_be32, ← Nat.add_assoc] at hopen
      obtain ⟨⟨-, hname⟩, hentries⟩ := hopen
      refine ⟨(at_append.1 hname).1, fun q v h => ?_⟩
      rw [Placed.compatible, ownCompatible_eq_lastEntry] at h
      exact lastEntry_at Entry.value_of_compatible hentries h
    · exact ihr hrest hn

end Locate

/-! ### The whole function -/

section Enumerate

variable {mem : Mem} {fdtAddr : ℕ} {h : Header} {t : Tree}

/-- The header is read. -/
theorem header_reads (hb : Flattened mem fdtAddr h t) :
    loadBe32 mem fdtAddr = .ok h.magic ∧ loadBe32 mem (fdtAddr + 4) = .ok h.totalsize ∧
      loadBe32 mem (fdtAddr + 8) = .ok h.offDtStruct ∧ loadBe32 mem (fdtAddr + 12) = .ok h.offDtStrings ∧
      loadBe32 mem (fdtAddr + 36) = .ok h.sizeDtStruct := by
  have hat := hb.header
  have hsize := hb.totalsize
  have hstrings := hb.offDtStrings
  have hstruct := hb.offDtStruct
  simp only [Header.bytes, List.flatMap_cons, List.flatMap_nil, at_append, length_be32, Nat.add_assoc,
    Nat.reduceAdd] at hat
  obtain ⟨h₀, h₁, h₂, h₃, -, -, -, -, -, h₉, -⟩ := hat
  refine ⟨loadBe32_of_at h₀ ?_, loadBe32_of_at h₁ hsize, loadBe32_of_at h₂ (by omega), loadBe32_of_at h₃ (by omega),
    loadBe32_of_at h₉ (by omega)⟩
  rw [hb.magic]
  decide

/-- The walk over the structure block of a tree. -/
theorem walkTokens_tree (hb : Flattened mem fdtAddr h t) :
    ∃ s, walkTokens mem true (fdtAddr + h.offDtStrings) (fdtAddr + h.offDtStruct + h.sizeDtStruct) (h.sizeDtStruct + 1)
        ⟨fdtAddr + h.offDtStruct, 0, 0, .zero, false, false, []⟩ = .ok s ∧
      s.reports = ((locate (fdtAddr + h.offDtStruct) 0 t.forest).atEnds.filter
        fun n => n.node.isDevice).map Placed.record ∧
      s.deviceCount = s.reports.length := by
  have hsize := hb.totalsize
  have hstruct := hb.offDtStruct
  have hlen := hb.sizeDtStruct
  have hat := hb.dtStruct
  simp only [Tree.bytes, at_append, List.length_append, length_be32] at hat hlen
  obtain ⟨⟨hforest, hnops⟩, hdone⟩ := hat
  generalize hs : (⟨fdtAddr + h.offDtStruct, 0, 0, .zero, false, false, []⟩ : Walk) = s
  have hptr : s.structPtr = fdtAddr + h.offDtStruct := by rw [← hs]
  rw [← hptr] at hforest hnops hdone ⊢
  have hwalk : Reaches mem (fdtAddr + h.offDtStrings) (s.structPtr + h.sizeDtStruct) s _ :=
    walk_forest t.forest (d := 0) (by rw [← hs]; rfl) hforest hb.dtStrings (by omega) (by omega)
  have hskip := hwalk.trans (reaches_nops hnops (by simp [Walk.after]; omega))
  simp only [Walk.after, Walk.structPtr_moveTo, Walk.moveTo_moveTo, Nat.add_assoc] at hskip hdone
  obtain ⟨k, hk⟩ := LoopsTo.run_eq hskip (show _ ≤ s.structPtr + h.sizeDtStruct by simp; omega)
  rw [hk, walkTokens, step_eq hdone (by decide) (by simp; omega)]
  have hseen : (s.seesLast (locate s.structPtr 0 t.forest).lastBegun).reports = [] ∧
      (s.seesLast (locate s.structPtr 0 t.forest).lastBegun).deviceCount = 0 := by
    rw [← hs]
    cases (locate _ 0 t.forest).lastBegun <;> exact ⟨rfl, rfl⟩
  refine ⟨_, rfl, ?_, ?_⟩
  · simp [Walk.moveTo, Walk.reported, hseen.1]
  · simp [Walk.moveTo, Walk.reported, hseen.1, hseen.2]

/-- `fdt_enumerate_devices`, given a device tree, reports at the end of each node the node
that began last, if that is a device, and returns how many it has reported. -/
theorem enumerateDevices_eq (hb : Flattened mem fdtAddr h t) :
    ∃ reports, enumerateDevices mem fdtAddr true = .ok ((reports.length : ℤ), reports) ∧
      reports = ((locate (fdtAddr + h.offDtStruct) 0 t.forest).atEnds.filter
        fun n => n.node.isDevice).map Placed.record := by
  obtain ⟨h₀, h₁, h₂, h₃, h₉⟩ := header_reads hb
  obtain ⟨s, hs, hreports, hcount⟩ := walkTokens_tree hb
  have hsize := hb.totalsize
  have hstrings := hb.offDtStrings
  have hstruct := hb.offDtStruct
  have hmod : (h.offDtStruct + h.sizeDtStruct) % 2 ^ 32 = h.offDtStruct + h.sizeDtStruct :=
    Nat.mod_eq_of_lt (by omega)
  refine ⟨s.reports, ?_, hreports⟩
  rw [enumerateDevices, if_neg hb.addr]
  simp only [h₀, h₁, h₂, h₃, h₉, bind, Except.bind, hs, hmod]
  rw [if_neg (by simp [hb.magic]), if_neg (by omega), hcount]
  rfl

/-- What a node's report is tells the node. -/
theorem record_injOn (p d : ℕ) (f : Forest Node) : Set.InjOn Placed.record { n | n ∈ (locate p d f).ends } := by
  intro n hn n' hn' heq
  have haddr : n.addr = n'.addr := by
    have := congrArg Device.name heq
    simpa [Placed.record] using this
  exact List.inj_on_of_nodup_map (nodup_addr p d f) hn hn' haddr

theorem map_record_perm_iff {p d : ℕ} {f : Forest Node} {l l' : List Placed} (hl : l ⊆ (locate p d f).ends)
    (hl' : l' ⊆ (locate p d f).ends) : (l.map Placed.record).Perm (l'.map Placed.record) ↔ l.Perm l' := by
  constructor
  · intro hperm
    have : Nonempty Placed := ⟨⟨⟨0, ⟨[], by simp⟩, [], 0⟩, 0, 0⟩⟩
    have hinv := (record_injOn p d f).leftInvOn_invFunOn
    have hback : ∀ l : List Placed, l ⊆ (locate p d f).ends →
        (l.map Placed.record).map (Function.invFunOn Placed.record { n | n ∈ (locate p d f).ends }) = l := by
      intro l hl
      rw [List.map_map]
      conv_rhs => rw [← List.map_id l]
      exact List.map_congr_left fun n hn => hinv (hl hn)
    rw [← hback l hl, ← hback l' hl']
    exact hperm.map _
  · exact fun hperm => hperm.map _

/-- The parser reports the nodes that describe a device, each of them once and with what
is its own, and returns how many there are; the structure block is at `p`. -/
def ReportsDevices (mem : Mem) (fdtAddr p : ℕ) (t : Tree) : Prop :=
  ∃ reports, enumerateDevices mem fdtAddr true = .ok (((t.devices p).length : ℤ), reports) ∧
    reports.Perm ((t.devices p).map Placed.record) ∧ ∀ n ∈ t.devices p, n.InMemory mem

/-- On a blob that is a device tree, `fdt_enumerate_devices` calls the callback once for
each node whose own properties have a `reg` of at least 16 bytes and a `compatible` that
is not empty, and for no other, with the node's own name, depth, base, size and
`compatible`, and returns their number, exactly when no such node has children and none
is the last child of its parent. -/
theorem reportsDevices_iff (hb : Flattened mem fdtAddr h t) :
    ReportsDevices mem fdtAddr (fdtAddr + h.offDtStruct) t ↔ t.forest.Apart Node.isDevice := by
  obtain ⟨reports, hrun, hreports⟩ := enumerateDevices_eq hb
  have hat : At mem (fdtAddr + h.offDtStruct) (forestBytes t.forest) := by
    have := hb.dtStruct
    rw [Tree.bytes, at_append, at_append] at this
    exact this.1.1
  generalize fdtAddr + h.offDtStruct = p at hreports hat ⊢
  have hnd : (locate p 0 t.forest).ends.Nodup := List.Nodup.of_map _ (nodup_addr p 0 t.forest)
  have hapart : (locate p 0 t.forest).Apart (fun n => n.node.isDevice) ↔ t.forest.Apart Node.isDevice := by
    conv_rhs => rw [← map_node_locate p 0 t.forest]
    exact Forest.apart_map.symm
  have hperm : reports.Perm ((t.devices p).map Placed.record) ↔ t.forest.Apart Node.isDevice := by
    rw [hreports, Tree.devices, map_record_perm_iff (d := 0) (f := t.forest) (p := p), Forest.filter_atEnds_perm_iff hnd,
      hapart]
    · exact fun n hn => Forest.atEnds_subset (List.mem_of_mem_filter hn)
    · exact fun n hn => List.mem_of_mem_filter hn
  rw [← hperm]
  constructor
  · rintro ⟨reports', hrun', hperm', -⟩
    rw [hrun, Except.ok.injEq, Prod.mk.injEq] at hrun'
    rw [hrun'.2]
    exact hperm'
  · intro hp
    refine ⟨reports, ?_, hp, fun n hn => inMemory_of_at hat (List.mem_of_mem_filter hn)⟩
    rw [hrun, hp.length_eq, List.length_map]

end Enumerate

/-! ### A blob -/

instance decidableAt (mem : Mem) : ∀ p l, Decidable (At mem p l)
  | _, [] => inferInstanceAs (Decidable True)
  | p, b :: l =>
    have := decidableAt mem (p + 1) l
    inferInstanceAs (Decidable (mem p = some b ∧ At mem (p + 1) l))

instance decidableEntryNamed (mem : Mem) (base : ℕ) : ∀ e, Decidable (Entry.Named mem base e)
  | .nop => inferInstanceAs (Decidable True)
  | .prop name nameoff _ => inferInstanceAs (Decidable (nameoff < 2 ^ 32 ∧ At mem (base + nameoff) (name.1 ++ [0])))

instance decidableNamed (mem : Mem) (base : ℕ) : ∀ f, Decidable (Named mem base f)
  | .nil => inferInstanceAs (Decidable True)
  | .node n children rest =>
    have := decidableNamed mem base children
    have := decidableNamed mem base rest
    inferInstanceAs (Decidable ((∀ e ∈ n.entries, e.Named mem base) ∧ Named mem base children ∧ Named mem base rest))

/-- The strings block with the names that the parser looks for. -/
def nameStrings : List UInt8 := regName ++ [0] ++ compatibleName ++ [0]

/-- A header for the tree and that strings block, without memory reservations. -/
def Tree.header (t : Tree) : Header :=
  ⟨fdtMagic, 40 + t.bytes.length + nameStrings.length, 40, 40 + t.bytes.length, 40, 17, 16, 0, nameStrings.length,
    t.bytes.length⟩

/-- The blob, at address 4096, and nothing else. -/
def Tree.image (t : Tree) : Mem := fun p =>
  if p < 4096 then none else (t.header.bytes ++ t.bytes ++ nameStrings)[p - 4096]?

/-- A serial port, with a `reg` and a `compatible`. -/
def uart : Node :=
  ⟨0, ⟨[117], by decide⟩,
    [.prop ⟨regName, by decide⟩ 0 [0, 0, 0, 0, 16, 0, 0, 0, 0, 0, 0, 0, 0, 0, 1, 0], .nop,
      .prop ⟨compatibleName, by decide⟩ 4 [110, 0]], 0⟩

/-- A node without properties. -/
def plain : Node := ⟨1, ⟨[], by decide⟩, [], 1⟩

/-- A serial port below the root, and a node after it. -/
def uartThenPlain : Tree := ⟨plain, .node uart .nil (.node plain .nil .nil), 0⟩

/-- A serial port that is followed by another node is reported as it should be. -/
theorem reportsDevices_uartThenPlain :
    Flattened uartThenPlain.image 4096 uartThenPlain.header uartThenPlain ∧
      ReportsDevices uartThenPlain.image 4096 (4096 + uartThenPlain.header.offDtStruct) uartThenPlain := by
  have hb : Flattened uartThenPlain.image 4096 uartThenPlain.header uartThenPlain := by
    constructor <;> decide +kernel
  refine ⟨hb, (reportsDevices_iff hb).2 ?_⟩
  have hp : plain.isDevice = false := by decide
  simp [uartThenPlain, Tree.forest, Forest.Apart, Forest.lastSibling, hp]

/-- A serial port as the only child of the root. -/
def uartOnly : Tree := ⟨plain, .node uart .nil .nil, 0⟩

/-- A serial port that is the only child of the root is reported twice. -/
theorem not_reportsDevices_uartOnly :
    ¬ ∀ mem fdtAddr h t, Flattened mem fdtAddr h t → ReportsDevices mem fdtAddr (fdtAddr + h.offDtStruct) t := by
  intro hall
  have hb : Flattened uartOnly.image 4096 uartOnly.header uartOnly := by
    constructor <;> decide +kernel
  obtain ⟨reports, hrun, -⟩ := hall _ _ _ _ hb
  have hcount : (enumerateDevices uartOnly.image 4096 true).toOption.map Prod.fst = some 2 := by decide +kernel
  have hlen : (uartOnly.devices (4096 + uartOnly.header.offDtStruct)).length = 1 := by decide +kernel
  rw [hrun] at hcount
  have htwo : ((uartOnly.devices (4096 + uartOnly.header.offDtStruct)).length : ℤ) = 2 := Option.some.inj hcount
  omega

end Yasouos.Kernel.Fdt
