import Yasouos.Theory.VirtqueueBytes
import Mathlib.Data.Nat.Bitwise
import Mathlib.Logic.Function.Basic
import Mathlib.Tactic.SplitIfs

/-!
# Page tables of x86-64

In 64-bit mode every address of a program goes through four levels of tables of 512 entries each.
An entry is eight bytes. It says where the next table is, or, from the second level on, it is itself
a large page. What a page allows is what all the entries on the way to it allow.

## The model

`entry` reads an entry from memory and `walk` goes down the tables from one of them. `translate` is
the whole: where an address is mapped to, or `none` if using it faults. A processor differs from
another in how many bits its physical addresses have, and in whether entries can forbid execution;
a bit that it has no use for must not be set.

## What is proved

How the walk goes on at one entry (`walk_table`, `walk_large`, `walk_absent`), and what a whole set
of tables means that maps the first `k` GiB to themselves by pages of 2 MiB
(`IdentityTables.translate_eq`): below `k` GiB every address is mapped to itself, and no other
address is mapped at all.
-/

namespace Yasouos.Theory.Paging

/-- What a page allows. -/
structure Rights where
  /-- Writing. -/
  writable : Bool
  /-- Use by programs that are not the kernel. -/
  user : Bool
  /-- Execution. -/
  executable : Bool
  deriving DecidableEq

/-- What an address is mapped to. -/
structure Mapping extends Rights where
  /-- The physical address. -/
  addr : ℕ
  deriving DecidableEq

/-- What one processor's page tables differ in from another's. -/
structure Processor where
  /-- How many bits a physical address has. -/
  width : ℕ
  width_le : width ≤ 52
  /-- Whether an entry can forbid execution. -/
  nxe : Bool

variable (p : Processor) (f : ℕ → UInt8)

/-- Entry number `i` of the table at `t`. -/
def entry (t i : ℕ) : ℕ := getNat f (t + 8 * i) 8

/-- The bits of `e` from `lo` on and below `hi`, where they are. -/
def field (e lo hi : ℕ) : ℕ := e / 2 ^ lo % 2 ^ (hi - lo) * 2 ^ lo

/-- A bit is set that the processor has no use for. -/
def reserved (e : ℕ) : Bool := field e p.width 52 != 0 || !p.nxe && e.testBit 63

/-- What is left of the rights below an entry. -/
def Rights.meet (r : Rights) (e : ℕ) : Rights :=
  ⟨r.writable && e.testBit 1, r.user && e.testBit 2, r.executable && !e.testBit 63⟩

/-- The walk for the address `va`, with `n` tables to go: the next one is at `t`. After the last of
them, what is at `t` is a page of 4 KiB. -/
def walk (va : ℕ) : ℕ → ℕ → Rights → Option Mapping
  | 0, t, r => some ⟨r, t + va % 2 ^ 12⟩
  | n + 1, t, r =>
    let e := entry f t (va / 2 ^ (12 + 9 * n) % 512)
    if !e.testBit 0 || reserved p e then none
    -- in an entry of the last table, bit 7 means something else
    else if n ≠ 0 ∧ e.testBit 7 then
      if 3 ≤ n ∨ field e 13 (12 + 9 * n) ≠ 0 then none
      else some ⟨r.meet e, field e (12 + 9 * n) 52 + va % 2 ^ (12 + 9 * n)⟩
    else walk va n (field e 12 52) (r.meet e)

/-- The upper 17 bits are all the same. -/
def Canonical (va : BitVec 64) : Prop := va.toNat < 2 ^ 47 ∨ 2 ^ 64 - 2 ^ 47 ≤ va.toNat

instance (va : BitVec 64) : Decidable (Canonical va) := inferInstanceAs (Decidable (_ ∨ _))

/-- What an address is mapped to, if the register `cr3` is this. -/
def translate (cr3 : ℕ) (va : BitVec 64) : Option Mapping :=
  if Canonical va then walk p f (va.toNat % 2 ^ 48) 4 (field cr3 12 52) ⟨true, true, true⟩ else none

/-! ### One entry -/

section Walk

variable {p f} {va n t e : ℕ} {r : Rights}

/-- The way goes on to the next table. -/
theorem walk_table (he : entry f t (va / 2 ^ (12 + 9 * n) % 512) = e) (h0 : e.testBit 0 = true) (hr : reserved p e = false)
    (h7 : e.testBit 7 = false) : walk p f va (n + 1) t r = walk p f va n (field e 12 52) (r.meet e) := by
  simp [walk, he, h0, hr, h7]

/-- The way ends at a large page. -/
theorem walk_large (he : entry f t (va / 2 ^ (12 + 9 * n) % 512) = e) (h0 : e.testBit 0 = true) (hr : reserved p e = false)
    (h7 : e.testBit 7 = true) (hn : 0 < n) (hn3 : n < 3) (hf : field e 13 (12 + 9 * n) = 0) :
    walk p f va (n + 1) t r = some ⟨r.meet e, field e (12 + 9 * n) 52 + va % 2 ^ (12 + 9 * n)⟩ := by
  have hn3' : ¬ 3 ≤ n := by omega
  simp [walk, he, h0, hr, h7, hn3', Nat.pos_iff_ne_zero.mp hn, hf]

/-- There is no way on. -/
theorem walk_absent (he : entry f t (va / 2 ^ (12 + 9 * n) % 512) = e) (h0 : e.testBit 0 = false) :
    walk p f va (n + 1) t r = none := by
  simp [walk, he, h0]

end Walk

/-! ### Entries -/

/-- The flags of an entry for a table: it is present, and writable. -/
def tableFlags : ℕ := 3

/-- The flags of an entry for a large page: it is present, writable, and a page. -/
def pageFlags : ℕ := 0x83

/-- The lower bits of an entry are its flags. -/
theorem testBit_add_flags {a fl i : ℕ} (ha : a % 2 ^ 12 = 0) (hfl : fl < 2 ^ 12) (hi : i < 12) :
    (a + fl).testBit i = fl.testBit i := by
  have hmod : (a + fl) % 2 ^ 12 = fl := by omega
  have hbit := Nat.testBit_mod_two_pow (a + fl) 12 i
  rw [hmod] at hbit
  simp [hbit, hi]

/-- An entry whose upper bits are all zero has no reserved bit. -/
theorem reserved_eq_false {e : ℕ} (h : e < 2 ^ p.width) : reserved p e = false := by
  have hbits : e / 2 ^ p.width = 0 := Nat.div_eq_of_lt h
  have hlt : e < 2 ^ 63 := Nat.lt_of_lt_of_le h (Nat.pow_le_pow_right (by omega) (Nat.le_trans p.width_le (by omega)))
  simp [reserved, field, hbits, Nat.testBit_lt_two_pow hlt]

/-- What is left of the rights below an entry with these flags: the kernel may write. -/
theorem meet_add_flags {a fl : ℕ} (r : Rights) (ha : a % 2 ^ 12 = 0) (hlt : a + fl < 2 ^ 63)
    (hfl : fl = tableFlags ∨ fl = pageFlags) : r.meet (a + fl) = ⟨r.writable, false, r.executable⟩ := by
  have hsmall : fl < 2 ^ 12 := by
    rcases hfl with rfl | rfl <;> decide
  have h1 : fl.testBit 1 = true ∧ fl.testBit 2 = false := by
    rcases hfl with rfl | rfl <;> decide
  simp [Rights.meet, testBit_add_flags ha hsmall, h1, Nat.testBit_lt_two_pow hlt]

section Entries

variable {p f} {va n t a : ℕ} {r : Rights}

/-- An entry for a table, on the way. -/
theorem walk_add_tableFlags (he : entry f t (va / 2 ^ (12 + 9 * n) % 512) = a + tableFlags) (ha : a % 2 ^ 12 = 0)
    (hw : a + 2 ^ 12 ≤ 2 ^ p.width) : walk p f va (n + 1) t r = walk p f va n a ⟨r.writable, false, r.executable⟩ := by
  have hw52 : 2 ^ p.width ≤ 2 ^ 52 := Nat.pow_le_pow_right (by omega) p.width_le
  have hsmall : tableFlags < 2 ^ 12 := by decide
  have hfield : field (a + tableFlags) 12 52 = a := by
    rw [field]
    omega
  rw [walk_table he (by rw [testBit_add_flags ha hsmall (by omega)]; rfl) (reserved_eq_false p (by omega))
    (by rw [testBit_add_flags ha hsmall (by omega)]; rfl), hfield, meet_add_flags r ha (by omega) (.inl rfl)]

/-- An entry for a page of 2 MiB, on the way. -/
theorem walk_add_pageFlags (he : entry f t (va / 2 ^ 21 % 512) = a + pageFlags) (ha : a % 2 ^ 21 = 0)
    (hw : a + 2 ^ 21 ≤ 2 ^ p.width) :
    walk p f va 2 t r = some ⟨⟨r.writable, false, r.executable⟩, a + va % 2 ^ 21⟩ := by
  have hw52 : 2 ^ p.width ≤ 2 ^ 52 := Nat.pow_le_pow_right (by omega) p.width_le
  have hsmall : pageFlags < 2 ^ 12 := by decide
  have ha12 : a % 2 ^ 12 = 0 := by omega
  have hfield : field (a + pageFlags) 21 52 = a := by
    rw [field]
    omega
  have hlow : field (a + pageFlags) 13 21 = 0 := by
    rw [field, pageFlags]
    omega
  rw [walk_large (n := 1) he (by rw [testBit_add_flags ha12 hsmall (by omega)]; rfl) (reserved_eq_false p (by omega))
    (by rw [testBit_add_flags ha12 hsmall (by omega)]; rfl) (by omega) (by omega) hlow, hfield,
    meet_add_flags r ha12 (by omega) (.inr rfl)]

end Entries

/-! ### Tables written in halves -/

/-- The numbers of four bytes from `a` on, `2 * n` of them, are the lower and the upper halves of the `n` entries `e`,
and all upper halves are zero. -/
def Halves (f : ℕ → UInt8) (a n : ℕ) (e : ℕ → ℕ) : Prop :=
  ∀ i < n, getNat f (a + 8 * i) 4 = e i ∧ getNat f (a + 8 * i + 4) 4 = 0

namespace Halves

variable {f : ℕ → UInt8} {a n i v : ℕ} {e : ℕ → ℕ}

/-- The lower half of an entry is written. -/
theorem set (h : Halves f a n e) (i : ℕ) (hv : v < 2 ^ 32) :
    Halves (setNat f (a + 8 * i) 4 v) a n (Function.update e i v) := by
  intro j hj
  obtain ⟨hlow, hhigh⟩ := h j hj
  rw [getNat_setNat_outside _ (a := a + 8 * i) (b := a + 8 * j + 4) _ (by omega)]
  by_cases hji : j = i
  · subst hji
    rw [Function.update_self, getNat_setNat _ _ (by omega)]
    exact ⟨rfl, hhigh⟩
  · rw [Function.update_of_ne hji, getNat_setNat_outside _ _ (by omega)]
    exact ⟨hlow, hhigh⟩

/-- The entries of a table among them. -/
theorem entry_eq (h : Halves f a n e) {t j : ℕ} (ht : t = a + 8 * j) (hi : j + i < n) : entry f t i = e (j + i) := by
  obtain ⟨hlow, hhigh⟩ := h (j + i) hi
  have haddr : t + 8 * i = a + 8 * (j + i) := by omega
  rw [getNat] at hlow hhigh
  rw [entry, getNat, haddr, load_append f _ 4 4, leNat_append, hlow, hhigh, Nat.mul_zero, Nat.add_zero]

end Halves

/-! ### Tables that map memory to itself -/

/-- Tables that map the first `k` GiB to themselves, by pages of 2 MiB: a table at `t₄`, one at `t₃`, and `k` of them
in a row at `t₂`. -/
structure IdentityTables (t₄ t₃ t₂ k : ℕ) : Prop where
  first : entry f t₄ 0 = t₃ + tableFlags
  others : ∀ i, 0 < i → i < 512 → entry f t₄ i = 0
  directories : ∀ i < k, entry f t₃ i = t₂ + 2 ^ 12 * i + tableFlags
  noMore : ∀ i, k ≤ i → i < 512 → entry f t₃ i = 0
  pages : ∀ i < 512 * k, entry f t₂ i = 2 ^ 21 * i + pageFlags

/-- The tables, and the memory they map, are within the physical addresses, and tables start where they can. -/
structure Fits (t₃ t₂ k : ℕ) : Prop where
  aligned₃ : t₃ % 2 ^ 12 = 0
  aligned₂ : t₂ % 2 ^ 12 = 0
  le : k ≤ 512
  width₃ : t₃ + 2 ^ 12 ≤ 2 ^ p.width
  width₂ : t₂ + 2 ^ 12 * k ≤ 2 ^ p.width
  width : 2 ^ 30 * k ≤ 2 ^ p.width

namespace IdentityTables

variable {p f} {t₄ t₃ t₂ k va : ℕ}

/-- Within the first `k` GiB the walk goes through all three tables to a page. -/
theorem walk_eq_self (h : IdentityTables f t₄ t₃ t₂ k) (hf : Fits p t₃ t₂ k) (hva : va < 2 ^ 30 * k) (r : Rights) :
    walk p f va 4 t₄ r = some ⟨⟨r.writable, false, r.executable⟩, va⟩ := by
  obtain ⟨ha3, ha2, hk, hw3, hw2, hw⟩ := hf
  have hi4 : va / 2 ^ (12 + 9 * 3) % 512 = 0 := by omega
  have hi3 : va / 2 ^ (12 + 9 * 2) % 512 = va / 2 ^ 30 := by omega
  have hj : va / 2 ^ 30 < k := by omega
  -- the tables at `t₂` are in a row, so that their entries are numbered from the first
  have he2 : entry f (t₂ + 2 ^ 12 * (va / 2 ^ 30)) (va / 2 ^ 21 % 512) = entry f t₂ (va / 2 ^ 21) := by
    have haddr : t₂ + 2 ^ 12 * (va / 2 ^ 30) + 8 * (va / 2 ^ 21 % 512) = t₂ + 8 * (va / 2 ^ 21) := by omega
    rw [entry, entry, haddr]
  rw [walk_add_tableFlags (n := 3) (by rw [hi4]; exact h.first) ha3 hw3,
    walk_add_tableFlags (n := 2) (by rw [hi3]; exact h.directories _ hj) (by omega) (by omega),
    walk_add_pageFlags (by rw [he2]; exact h.pages _ (by omega)) (by omega) (by omega),
    Nat.div_add_mod]

/-- Above them there is no way. -/
theorem walk_eq_none (h : IdentityTables f t₄ t₃ t₂ k) (hf : Fits p t₃ t₂ k) (hva : 2 ^ 30 * k ≤ va) (h48 : va < 2 ^ 48)
    (r : Rights) : walk p f va 4 t₄ r = none := by
  by_cases hi4 : va / 2 ^ 39 = 0
  · have hi4' : va / 2 ^ (12 + 9 * 3) % 512 = 0 := by omega
    rw [walk_add_tableFlags (n := 3) (by rw [hi4']; exact h.first) hf.aligned₃ hf.width₃]
    exact walk_absent (n := 2) (h.noMore _ (by omega) (by omega)) rfl
  · exact walk_absent (n := 3) (h.others _ (by omega) (by omega)) rfl

/-- What every address is mapped to. -/
theorem translate_eq (h : IdentityTables f t₄ t₃ t₂ k) (hf : Fits p t₃ t₂ k) {cr3 : ℕ} (hcr3 : field cr3 12 52 = t₄)
    (va : BitVec 64) :
    translate p f cr3 va = if va.toNat < 2 ^ 30 * k then some ⟨⟨true, false, true⟩, va.toNat⟩ else none := by
  have hk512 := hf.le
  rw [translate, hcr3]
  have hlt : va.toNat < 2 ^ 64 := va.isLt
  split_ifs with hc hk hk
  · have hmod : va.toNat % 2 ^ 48 = va.toNat := by omega
    rw [hmod]
    exact h.walk_eq_self hf hk _
  · refine h.walk_eq_none hf ?_ (Nat.mod_lt _ (by omega)) _
    rcases hc with hc | hc <;> omega
  · refine absurd (Or.inl ?_) hc
    omega
  · rfl

end IdentityTables

end Yasouos.Theory.Paging
