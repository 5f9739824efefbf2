import Yasouos.Theory.Memory
import Mathlib.Data.Nat.Bitwise
import Mathlib.Tactic.Positivity

/-!
# Byte order

`common/byteorder.c` reads and writes big-endian numbers a byte at a time;
`common/byteorder.h` swaps the bytes of a register. Headers are built with both: some
fields are written a byte at a time, others by one store of a swapped value.

## The model

A pointer is a buffer, `Buf`: what is at each offset from it. `ntohsUnaligned`,
`ntohlUnaligned`, `writeHtonsUnaligned` and `writeHtonlUnaligned` are the functions of
`byteorder.c`. The host is little-endian: `load16`, `load32`, `store16` and `store32`
are its loads and stores, and `htons` swaps.

## What is proved

A store of a swapped value is a big-endian write (`store16_htons`), a swapped load is a
big-endian read (`ntohs_load16`), and what has been written is read back
(`be16_htonsBytes`, `be32_htonlBytes`).
-/

namespace Yasouos.Net

open Yasouos.Theory

/-- What a pointer points to. -/
abbrev Buf := ℕ → UInt8

/-- The pointer `buf + o`. -/
def advance (buf : Buf) (o : ℕ) : Buf := fun i => buf (o + i)

/-- A pointer to a string of bytes. -/
def bufOf (l : List UInt8) : Buf := fun i => l.getD i 0

theorem load_bufOf (l : List UInt8) : load (bufOf l) 0 l.length = l := by
  refine List.ext_getElem (by simp) fun i h₁ h₂ => ?_
  rw [getElem_load]
  simp [bufOf, h₂]

theorem load_advance (buf : Buf) (o n : ℕ) : load (advance buf o) 0 n = load buf o n := by
  simp [load, advance]

theorem load_advance_store (buf : Buf) (o : ℕ) (l : List UInt8) : load (advance (store buf o l) o) 0 l.length = l := by
  rw [load_advance, load_store]

/-- A slice of a string of bytes. -/
theorem load_bufOf_append (x y z : List UInt8) : load (bufOf (x ++ y ++ z)) x.length y.length = y := by
  refine List.ext_getElem (by simp) fun i h₁ h₂ => ?_
  rw [getElem_load, bufOf, List.append_assoc, List.getD_append_right _ _ _ _ (Nat.le_add_right _ _),
    Nat.add_sub_cancel_left, List.getD_append _ _ _ _ h₂, List.getD_eq_getElem]

/-! ### Numbers of two and four bytes -/

/-- The 16-bit number with a given high and low byte. -/
def be16 (a b : UInt8) : UInt16 := (a.toUInt16 <<< 8) ||| b.toUInt16

/-- The 32-bit number with given bytes, the highest first. -/
def be32 (a b c d : UInt8) : UInt32 :=
  (a.toUInt32 <<< 24) ||| (b.toUInt32 <<< 16) ||| (c.toUInt32 <<< 8) ||| d.toUInt32

/-- The bytes of a 16-bit number, the high one first. -/
def htonsBytes (value : UInt16) : List UInt8 := [(value >>> 8).toUInt8, value.toUInt8]

/-- The bytes of a 32-bit number, the highest first. -/
def htonlBytes (value : UInt32) : List UInt8 :=
  [(value >>> 24).toUInt8, (value >>> 16).toUInt8, (value >>> 8).toUInt8, value.toUInt8]

@[simp] theorem length_htonsBytes (value : UInt16) : (htonsBytes value).length = 2 := rfl

@[simp] theorem length_htonlBytes (value : UInt32) : (htonlBytes value).length = 4 := rfl

theorem shiftLeft_or {a b k : ℕ} (h : b < 2 ^ k) : a <<< k ||| b = a * 2 ^ k + b := by
  rw [← Nat.shiftLeft_add_eq_or_of_lt h, Nat.shiftLeft_eq]

theorem toNat_be16 (a b : UInt8) : (be16 a b).toNat = a.toNat * 2 ^ 8 + b.toNat := by
  have ha := a.toNat_lt
  have hb := b.toNat_lt
  have h : a.toNat <<< 8 < 2 ^ 16 := by
    rw [Nat.shiftLeft_eq]
    omega
  simp only [be16, UInt16.toNat_or, UInt16.toNat_shiftLeft, UInt8.toNat_toUInt16, UInt16.reduceToNat, Nat.reduceMod]
  rw [Nat.mod_eq_of_lt h, shiftLeft_or hb]

theorem toNat_be32 (a b c d : UInt8) :
    (be32 a b c d).toNat = a.toNat * 2 ^ 24 + b.toNat * 2 ^ 16 + c.toNat * 2 ^ 8 + d.toNat := by
  have ha := a.toNat_lt
  have hb := b.toNat_lt
  have hc := c.toNat_lt
  have hd := d.toNat_lt
  have h : ∀ {x k m : ℕ}, x < 2 ^ 8 → k + 8 = m → m ≤ 32 → x <<< k % 2 ^ 32 = x <<< k := by
    intro x k m hx hk hm
    apply Nat.mod_eq_of_lt
    calc x <<< k = x * 2 ^ k := Nat.shiftLeft_eq x k
      _ < 2 ^ 8 * 2 ^ k := Nat.mul_lt_mul_of_pos_right hx (by positivity)
      _ = 2 ^ m := by rw [← pow_add, ← hk, Nat.add_comm]
      _ ≤ 2 ^ 32 := Nat.pow_le_pow_right (by omega) hm
  simp only [be32, UInt32.toNat_or, UInt32.toNat_shiftLeft, UInt8.toNat_toUInt32, UInt32.reduceToNat, Nat.reduceMod]
  rw [h ha rfl (by omega), h hb rfl (by omega), h hc rfl (by omega), Nat.or_assoc, Nat.or_assoc, shiftLeft_or hd,
    shiftLeft_or (k := 16) (by omega), shiftLeft_or (k := 24) (by omega)]
  omega

/-- What has been written is read back. -/
theorem be16_htonsBytes (v : UInt16) : be16 (v >>> 8).toUInt8 v.toUInt8 = v := by
  have hv := v.toNat_lt
  apply UInt16.toNat_inj.mp
  rw [toNat_be16]
  simp [Nat.shiftRight_eq_div_pow]
  omega

theorem be32_htonlBytes (v : UInt32) :
    be32 (v >>> 24).toUInt8 (v >>> 16).toUInt8 (v >>> 8).toUInt8 v.toUInt8 = v := by
  have hv := v.toNat_lt
  apply UInt32.toNat_inj.mp
  rw [toNat_be32]
  simp [Nat.shiftRight_eq_div_pow]
  omega

/-! ### Reads and writes -/

/-- `ntohs_unaligned`. -/
def ntohsUnaligned (buf : Buf) (o : ℕ) : UInt16 := be16 (buf o) (buf (o + 1))

/-- `ntohl_unaligned`. -/
def ntohlUnaligned (buf : Buf) (o : ℕ) : UInt32 := be32 (buf o) (buf (o + 1)) (buf (o + 2)) (buf (o + 3))

/-- `write_htons_unaligned`. -/
def writeHtonsUnaligned (buf : Buf) (o : ℕ) (value : UInt16) : Buf := store buf o (htonsBytes value)

/-- `write_htonl_unaligned`. -/
def writeHtonlUnaligned (buf : Buf) (o : ℕ) (value : UInt32) : Buf := store buf o (htonlBytes value)

/-- `htons`, and `ntohs`: the bytes swapped. -/
def htons (x : UInt16) : UInt16 := (x <<< 8) ||| (x >>> 8)

/-- A 16-bit load of a little-endian host. -/
def load16 (buf : Buf) (o : ℕ) : UInt16 := be16 (buf (o + 1)) (buf o)

/-- A 32-bit load of a little-endian host. -/
def load32 (buf : Buf) (o : ℕ) : UInt32 := be32 (buf (o + 3)) (buf (o + 2)) (buf (o + 1)) (buf o)

/-- The bytes of a 32-bit number in memory. -/
def raw32 (value : UInt32) : List UInt8 :=
  [value.toUInt8, (value >>> 8).toUInt8, (value >>> 16).toUInt8, (value >>> 24).toUInt8]

@[simp] theorem length_raw32 (value : UInt32) : (raw32 value).length = 4 := rfl

/-- A 16-bit store of a little-endian host. -/
def store16 (buf : Buf) (o : ℕ) (value : UInt16) : Buf := store buf o [value.toUInt8, (value >>> 8).toUInt8]

/-- A 32-bit store of a little-endian host. -/
def store32 (buf : Buf) (o : ℕ) (value : UInt32) : Buf := store buf o (raw32 value)

theorem toNat_htons (x : UInt16) : (htons x).toNat = x.toNat % 2 ^ 8 * 2 ^ 8 + x.toNat / 2 ^ 8 := by
  have hx := x.toNat_lt
  have h : x.toNat / 2 ^ 8 < 2 ^ 8 := by omega
  have hshift : x.toNat <<< 8 % 2 ^ 16 = (x.toNat % 2 ^ 8) <<< 8 := by
    rw [Nat.shiftLeft_eq, Nat.shiftLeft_eq]
    omega
  simp only [htons, UInt16.toNat_or, UInt16.toNat_shiftLeft, UInt16.toNat_shiftRight, UInt16.reduceToNat, Nat.reduceMod]
  rw [hshift, Nat.shiftRight_eq_div_pow, shiftLeft_or h]

/-- Swapped and stored is written high byte first. -/
theorem store16_htons (buf : Buf) (o : ℕ) (value : UInt16) :
    store16 buf o (htons value) = writeHtonsUnaligned buf o value := by
  have hv := value.toNat_lt
  have hlow : (htons value).toUInt8 = (value >>> 8).toUInt8 := by
    apply UInt8.toNat_inj.mp
    simp [toNat_htons, Nat.shiftRight_eq_div_pow]
  have hhigh : (htons value >>> 8).toUInt8 = value.toUInt8 := by
    apply UInt8.toNat_inj.mp
    have hq : value.toNat / 256 < 256 := by omega
    simp only [UInt16.toNat_toUInt8, UInt16.toNat_shiftRight, toNat_htons, Nat.shiftRight_eq_div_pow,
      UInt16.reduceToNat, Nat.reduceMod, Nat.reducePow]
    rw [Nat.mul_comm, Nat.mul_add_div (by omega), Nat.div_eq_of_lt hq]
    omega
  rw [store16, hlow, hhigh, writeHtonsUnaligned, htonsBytes]

/-- Loaded and swapped is read high byte first. -/
theorem ntohs_load16 (buf : Buf) (o : ℕ) : htons (load16 buf o) = ntohsUnaligned buf o := by
  have ha := (buf o).toNat_lt
  apply UInt16.toNat_inj.mp
  rw [toNat_htons, load16, ntohsUnaligned, toNat_be16, toNat_be16]
  have hb := (buf (o + 1)).toNat_lt
  omega

/-- What a 32-bit load gives are the four bytes there. -/
theorem raw32_load32 (buf : Buf) (o : ℕ) : raw32 (load32 buf o) = load buf o 4 := by
  have ha := (buf o).toNat_lt
  have hb := (buf (o + 1)).toNat_lt
  have hc := (buf (o + 2)).toNat_lt
  have hd := (buf (o + 3)).toNat_lt
  have h := toNat_be32 (buf (o + 3)) (buf (o + 2)) (buf (o + 1)) (buf o)
  simp only [raw32, load32, load, List.range_succ, List.range_zero, List.nil_append, List.cons_append, List.map_cons,
    List.map_nil, Nat.add_zero, List.cons.injEq, and_true]
  refine ⟨?_, ?_, ?_, ?_⟩ <;>
  · apply UInt8.toNat_inj.mp
    simp [h, Nat.shiftRight_eq_div_pow]
    omega

end Yasouos.Net
