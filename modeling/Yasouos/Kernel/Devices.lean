import Mathlib.Data.Nat.Notation
import Mathlib.Data.Int.Notation

/-!
# Devices and drivers

The records of `devices.h` and `drivers.h`: what is known of a device when it has
been discovered, and what a driver says about the devices it can work with.

## The model

A string is an element of a type `Str`, and two strings are equal when `strcmp`
says so; a pointer to a string that may be `NULL` is an `Option`. The links that
thread a device into the registry are not fields of it: the registry is a list,
and a pointer to a device is its place in that list.
-/

namespace Yasouos.Kernel

/-- What is known of a device. -/
structure Device (Str : Type) where
  /-- The device's compatible string. -/
  compatible : Option Str
  /-- The name of its node in the device tree. -/
  name : Option Str
  /-- Where its registers are. -/
  regBase : ℕ
  /-- The size of its register region. -/
  regSize : ℕ
  /-- The PCI vendor, 0 when there is none. -/
  vendorId : ℕ
  /-- The PCI device, 0 when there is none. -/
  deviceId : ℕ
  /-- The depth of its node in the device tree. -/
  depth : ℤ
  deriving DecidableEq

/-- The record of a device that has been zeroed. -/
def Device.zero {Str : Type} : Device Str := ⟨none, none, 0, 0, 0, 0, 0⟩

/-- What is known of a device, with its place on the PCI bus. -/
structure Discovered (Str : Type) extends Device Str where
  bus : UInt8
  deviceNum : UInt8
  function : UInt8
  deriving DecidableEq

/-- An entry of a driver's id table. -/
structure DeviceId (Str : Type) where
  /-- The compatible string of the device. -/
  compatible : Option Str
  /-- Its PCI vendor. -/
  vendorId : ℕ
  /-- Its PCI device. -/
  deviceId : ℕ
  deriving DecidableEq

/-- A driver, as the resource manager sees it. -/
structure Driver (Str : Type) where
  /-- The devices it works with. The table ends at the first entry that is empty, or
  after its last one. -/
  idTable : Option (List (DeviceId Str))
  /-- It has an `init_context`. -/
  initContext : Bool
  /-- It has a `deinit_context`. -/
  deinitContext : Bool
  deriving DecidableEq

section Match

variable {Str : Type} [DecidableEq Str]

/-- An entry that is not the end of the table. -/
def DeviceId.isEntry (e : DeviceId Str) : Bool := e.compatible.isSome || e.vendorId != 0 || e.deviceId != 0

/-- The entry is about the device: their compatible strings are both there and are
equal, or the entry has both ids and they are those of the device. -/
def DeviceId.describes (e : DeviceId Str) (device : Device Str) : Bool :=
  (e.compatible.isSome && device.compatible.isSome && e.compatible == device.compatible) ||
    (e.vendorId != 0 && e.deviceId != 0 && device.vendorId == e.vendorId && device.deviceId == e.deviceId)

/-- The loop over the id table. -/
def idTableMatches (device : Device Str) : List (DeviceId Str) → Bool
  | [] => false
  | e :: table =>
    if e.isEntry then
      if e.describes device then true else idTableMatches device table
    else false

/-- `device_matches_driver`. -/
def deviceMatchesDriver (device : Device Str) (driver : Driver Str) : Bool :=
  match driver.idTable with
  | none => false
  | some table => idTableMatches device table

end Match

end Yasouos.Kernel
