import Yasouos.Kernel.FdtParser

/-!
# The boot arguments

`fdt_get_bootargs` walks the structure block like `fdt_enumerate_devices`, and returns the
`bootargs` property of `/chosen`. It looks at the bounds of the blob, not of the structure
block, and does not check the offsets in the header.

## The model

As in `FdtParser`: reading what cannot be read is a fault, and the loop has a number of
iterations. A pointer that is returned is an address, `NULL` is `none`.
-/

namespace Yasouos.Kernel.Fdt

/-- The bytes of `"chosen"`. -/
def chosenName : List UInt8 := [99, 104, 111, 115, 101, 110]

/-- The bytes of `"bootargs"`. -/
def bootargsName : List UInt8 := [98, 111, 111, 116, 97, 114, 103, 115]

/-- The variables of `fdt_get_bootargs`. -/
structure BootWalk where
  /-- Where the next token is. -/
  structPtr : ℕ
  /-- How many nodes are open. -/
  depth : ℤ
  /-- The walk is inside `/chosen`. -/
  inChosen : Bool
  /-- What has been found. -/
  bootargs : Option ℕ

/-- What an iteration of the loop does. -/
inductive BootNext where
  /-- The loop goes on. -/
  | loop (s : BootWalk)
  /-- The function returns. -/
  | done (bootargs : Option ℕ)

variable (mem : Mem)

/-- Whether the walk is inside `/chosen` once it has entered a node. -/
def enterChosen (s : BootWalk) : Except Stop Bool := do
  if s.depth = 1 then
    if ← strEqual mem s.structPtr chosenName then return true
    else return s.inChosen
  else return s.inChosen

/-- The case of `FDT_BEGIN_NODE`. -/
def bootBeginNode (blobEnd : ℕ) (s : BootWalk) : Except Stop BootNext :=
  if blobEnd ≤ s.structPtr then return .done none
  else do
    let maxNameLen := blobEnd - s.structPtr
    let len ← nameLen mem s.structPtr maxNameLen
    if maxNameLen ≤ len then return .done none
    else
      let inChosen ← enterChosen mem s
      return .loop { s with
        inChosen
        structPtr := s.structPtr + alignUp ((len + 1) % 2 ^ 32)
        depth := s.depth + 1 }

/-- The case of `FDT_END_NODE`. -/
def bootEndNode (s : BootWalk) : BootWalk :=
  let s := { s with depth := s.depth - 1 }
  if s.depth = 1 ∧ s.inChosen then { s with inChosen := false } else s

/-- The property that the function is interested in: one named `name` has its `len` bytes at
`data`. -/
def parseBootargs (name data len : ℕ) (s : BootWalk) : Except Stop (Option ℕ) := do
  if s.inChosen then
    if ← strEqual mem name bootargsName then
      if 0 < len then return some data else return s.bootargs
    else return s.bootargs
  else return s.bootargs

/-- The case of `FDT_PROP`. -/
def bootProp (stringsBase blobEnd : ℕ) (s : BootWalk) : Except Stop BootNext :=
  if blobEnd < s.structPtr + 8 then return .done none
  else do
    let len ← loadBe32 mem s.structPtr
    let nameoff ← loadBe32 mem (s.structPtr + 4)
    let data := s.structPtr + 8
    if blobEnd < data + len then return .done none
    else
      let bootargs ← parseBootargs mem (stringsBase + nameoff) data len s
      return .loop { s with bootargs, structPtr := data + alignUp len }

/-- An iteration of the loop. -/
def bootStep (stringsBase blobEnd : ℕ) (s : BootWalk) : Except Stop BootNext :=
  if blobEnd ≤ s.structPtr then return .done none
  else do
    let token ← loadBe32 mem s.structPtr
    let s := { s with structPtr := s.structPtr + 4 }
    if token = fdtBeginNode then bootBeginNode mem blobEnd s
    else if token = fdtEndNode then return .loop (bootEndNode s)
    else if token = fdtProp then bootProp mem stringsBase blobEnd s
    else if token = fdtNop then return .loop s
    else if token = fdtEnd then return .done s.bootargs
    else return .done none

/-- The loop, with the number of iterations it may make. -/
def bootWalk (stringsBase blobEnd : ℕ) : ℕ → BootWalk → Except Stop (Option ℕ)
  | 0, _ => .error .timeout
  | n + 1, s => do
    match ← bootStep mem stringsBase blobEnd s with
    | .loop s => bootWalk stringsBase blobEnd n s
    | .done bootargs => return bootargs

/-- `fdt_get_bootargs`. An iteration moves on by at least one byte, so the loop has as many
iterations as the blob has bytes, and one more. -/
def getBootargs (fdtAddr : ℕ) : Except Stop (Option ℕ) :=
  if fdtAddr = 0 then return none
  else do
    let magic ← loadBe32 mem fdtAddr
    if magic ≠ fdtMagic then return none
    else
      let structOffset ← loadBe32 mem (fdtAddr + 8)
      let stringsOffset ← loadBe32 mem (fdtAddr + 12)
      let totalsize ← loadBe32 mem (fdtAddr + 4)
      bootWalk mem (fdtAddr + stringsOffset) (fdtAddr + totalsize) (totalsize + 1)
        ⟨fdtAddr + structOffset, 0, false, none⟩

end Yasouos.Kernel.Fdt
