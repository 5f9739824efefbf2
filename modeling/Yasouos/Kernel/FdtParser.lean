import Yasouos.Kernel.Devices
import Mathlib.Algebra.Group.Nat.Defs
import Mathlib.Logic.Function.Basic
import Mathlib.Tactic.SplitIfs

/-!
# The parser of the flattened device tree

`fdt_parser.c` walks the structure block of a flattened device tree, token by token,
and reports the nodes that describe a device: those with a `reg` and a `compatible`
property.

## The model

Memory has a byte at some addresses, and reading any other address is a fault, so that
what the parser reads can be told from what it computes. A string is a pointer, the
address of its first byte. The loop over the tokens gets a number of iterations that it
may make; running out of them is an error of its own, different from a fault. Values of
type `uint32_t` are reduced modulo 2³² where the source computes with them; addresses
are 64 bits wide in the source and are not reduced, so a blob is taken not to be near the
end of the address space; `FdtTermination` has the walks with addresses of 64 bits, and
says where that makes no difference. The calls of the callback are recorded, in order.
-/

namespace Yasouos.Kernel.Fdt

/-- Memory: the byte at an address, if it can be read. -/
abbrev Mem : Type := ℕ → Option UInt8

/-- Why there is no result. -/
inductive Stop where
  /-- An address that cannot be read was read. -/
  | fault (p : ℕ)
  /-- The loop did not end in the iterations it had. -/
  | timeout
  deriving DecidableEq

/-! ### Constants -/

/-- `FDT_MAGIC`. -/
abbrev fdtMagic : ℕ := 0xd00dfeed

/-- `FDT_BEGIN_NODE`. -/
abbrev fdtBeginNode : ℕ := 1

/-- `FDT_END_NODE`. -/
abbrev fdtEndNode : ℕ := 2

/-- `FDT_PROP`. -/
abbrev fdtProp : ℕ := 3

/-- `FDT_NOP`. -/
abbrev fdtNop : ℕ := 4

/-- `FDT_END`. -/
abbrev fdtEnd : ℕ := 9

/-- The bytes of `"reg"`. -/
def regName : List UInt8 := [114, 101, 103]

/-- The bytes of `"compatible"`. -/
def compatibleName : List UInt8 := [99, 111, 109, 112, 97, 116, 105, 98, 108, 101]

/-! ### Reading -/

variable (mem : Mem)

/-- Read a byte. -/
def byte (p : ℕ) : Except Stop UInt8 :=
  match mem p with
  | some b => .ok b
  | none => .error (.fault p)

/-- Read four bytes as a number of the machine, which is little-endian. -/
def load32 (p : ℕ) : Except Stop ℕ := do
  let b₀ ← byte mem p
  let b₁ ← byte mem (p + 1)
  let b₂ ← byte mem (p + 2)
  let b₃ ← byte mem (p + 3)
  return b₀.toNat + b₁.toNat * 2 ^ 8 + b₂.toNat * 2 ^ 16 + b₃.toNat * 2 ^ 24

/-- `be32_to_cpu`: the four bytes of a number, the other way round. -/
def be32ToCpu (val : ℕ) : ℕ :=
  val / 2 ^ 24 % 2 ^ 8 + val / 2 ^ 16 % 2 ^ 8 * 2 ^ 8 + val / 2 ^ 8 % 2 ^ 8 * 2 ^ 16 + val % 2 ^ 8 * 2 ^ 24

/-- Read four bytes as the parser reads its tokens and its header. -/
def loadBe32 (p : ℕ) : Except Stop ℕ := do
  let val ← load32 mem p
  return be32ToCpu val

/-- `read_be32_unaligned`. -/
def readBe32Unaligned (p : ℕ) : Except Stop ℕ := do
  let b₀ ← byte mem p
  let b₁ ← byte mem (p + 1)
  let b₂ ← byte mem (p + 2)
  let b₃ ← byte mem (p + 3)
  return b₀.toNat * 2 ^ 24 + b₁.toNat * 2 ^ 16 + b₂.toNat * 2 ^ 8 + b₃.toNat

/-- `align_up`, on 32 bits. -/
def alignUp (val : ℕ) : ℕ := (val + 3) % 2 ^ 32 / 4 * 4

/-- `str_equal`, of a string in memory and a literal that has no zero in it. -/
def strEqual (p : ℕ) : List UInt8 → Except Stop Bool
  | [] => do
    let b ← byte mem p
    return b == 0
  | c :: s => do
    let b ← byte mem p
    if b ≠ 0 ∧ b = c then strEqual (p + 1) s else return b == c

/-- The loop that measures a node's name, over at most `max` bytes. -/
def nameLen (p : ℕ) : ℕ → Except Stop ℕ
  | 0 => return 0
  | max + 1 => do
    let b ← byte mem p
    if b ≠ 0 then
      let n ← nameLen (p + 1) max
      return n + 1
    else return 0

/-! ### The walk -/

/-- The variables of `fdt_enumerate_devices`, and the calls of the callback so far. -/
structure Walk where
  /-- Where the next token is. -/
  structPtr : ℕ
  /-- How many nodes are open. -/
  depth : ℤ
  /-- How many devices have been reported. -/
  deviceCount : ℤ
  /-- The device being built. -/
  currentDevice : Device ℕ
  /-- It has a `reg` property. -/
  hasReg : Bool
  /-- It has a `compatible` property. -/
  hasCompatible : Bool
  /-- The devices the callback has been called with. -/
  reports : List (Device ℕ)

/-- What an iteration of the loop does. -/
inductive Next where
  /-- The loop goes on. -/
  | loop (s : Walk)
  /-- The function returns the number of devices it has counted. -/
  | done (s : Walk)

/-- The case of `FDT_BEGIN_NODE`. -/
def beginNode (structEnd : ℕ) (s : Walk) : Except Stop Next :=
  if structEnd ≤ s.structPtr then return .done s
  else do
    let maxNameLen := structEnd - s.structPtr
    let len ← nameLen mem s.structPtr maxNameLen
    if maxNameLen ≤ len then return .done s
    else
      let ptr := s.structPtr + alignUp ((len + 1) % 2 ^ 32)
      let s := { s with
        hasReg := false
        hasCompatible := false
        currentDevice := { (Device.zero : Device ℕ) with name := some s.structPtr, depth := s.depth }
        structPtr := ptr }
      if structEnd < ptr then return .done s else return .loop { s with depth := s.depth + 1 }

/-- The case of `FDT_END_NODE`. -/
def endNode (callback : Bool) (s : Walk) : Walk :=
  let s := if s.hasReg && s.hasCompatible && callback then
      { s with reports := s.reports ++ [s.currentDevice], deviceCount := s.deviceCount + 1 }
    else s
  { s with depth := s.depth - 1 }

theorem structPtr_endNode (callback : Bool) (s : Walk) : (endNode callback s).structPtr = s.structPtr := by
  rw [endNode]
  split_ifs <;> rfl

/-- The properties that the parser is interested in: one named `name` has its `len`
bytes at `data`. -/
def parseProp (structEnd name data len : ℕ) (s : Walk) : Except Stop Walk := do
  if ← strEqual mem name regName then
    if 16 ≤ len ∧ data + 16 ≤ structEnd then
      let addrHi ← readBe32Unaligned mem data
      let addrLo ← readBe32Unaligned mem (data + 4)
      let sizeHi ← readBe32Unaligned mem (data + 8)
      let sizeLo ← readBe32Unaligned mem (data + 12)
      return { s with
        currentDevice := { s.currentDevice with
          regBase := addrHi * 2 ^ 32 + addrLo, regSize := sizeHi * 2 ^ 32 + sizeLo }
        hasReg := true }
    else return s
  else if ← strEqual mem name compatibleName then
    if 0 < len then
      return { s with currentDevice := { s.currentDevice with compatible := some data }, hasCompatible := true }
    else return s
  else return s

/-- The case of `FDT_PROP`. -/
def prop (stringsBase structEnd : ℕ) (s : Walk) : Except Stop Next :=
  if structEnd < s.structPtr + 8 then return .done s
  else do
    let len ← loadBe32 mem s.structPtr
    let nameoff ← loadBe32 mem (s.structPtr + 4)
    let data := s.structPtr + 8
    if structEnd < data + len then return .done s
    else
      let s ← parseProp mem structEnd (stringsBase + nameoff) data len s
      let s := { s with structPtr := data + alignUp len }
      if structEnd < s.structPtr then return .done s else return .loop s

/-- An iteration of the loop. -/
def step (callback : Bool) (stringsBase structEnd : ℕ) (s : Walk) : Except Stop Next :=
  if structEnd ≤ s.structPtr then return .done s
  else do
    let token ← loadBe32 mem s.structPtr
    let s := { s with structPtr := s.structPtr + 4 }
    if token = fdtBeginNode then beginNode mem structEnd s
    else if token = fdtEndNode then return .loop (endNode callback s)
    else if token = fdtProp then prop mem stringsBase structEnd s
    else if token = fdtNop then return .loop s
    else return .done s -- `FDT_END`, or a token that is not known

/-- The loop, with the number of iterations it may make. -/
def walkTokens (callback : Bool) (stringsBase structEnd : ℕ) : ℕ → Walk → Except Stop Walk
  | 0, _ => .error .timeout
  | n + 1, s => do
    match ← step mem callback stringsBase structEnd s with
    | .loop s => walkTokens callback stringsBase structEnd n s
    | .done s => return s

/-- `fdt_enumerate_devices`: what it returns, and the devices it calls the callback
with. An iteration reads at least one byte of the structure block, so the loop has as
many iterations as that has bytes, and one more. -/
def enumerateDevices (fdtAddr : ℕ) (callback : Bool) : Except Stop (ℤ × List (Device ℕ)) :=
  if fdtAddr = 0 then return (-1, [])
  else do
    let magic ← loadBe32 mem fdtAddr
    if magic ≠ fdtMagic then return (-1, [])
    else
      let structOffset ← loadBe32 mem (fdtAddr + 8)
      let stringsOffset ← loadBe32 mem (fdtAddr + 12)
      let totalsize ← loadBe32 mem (fdtAddr + 4)
      let structSize ← loadBe32 mem (fdtAddr + 36)
      if totalsize < structOffset ∨ totalsize < stringsOffset ∨ totalsize < (structOffset + structSize) % 2 ^ 32 then
        return (-1, [])
      else
        let s ← walkTokens mem callback (fdtAddr + stringsOffset) (fdtAddr + structOffset + structSize) (structSize + 1)
          ⟨fdtAddr + structOffset, 0, 0, .zero, false, false, []⟩
        return (s.deviceCount, s.reports)

end Yasouos.Kernel.Fdt
