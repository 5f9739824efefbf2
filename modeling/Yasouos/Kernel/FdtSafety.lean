import Yasouos.Kernel.FdtBootargs
import Yasouos.Kernel.FdtDevices
import Yasouos.Theory.Memory
import Mathlib.Logic.Relation
import Mathlib.Tactic.SplitIfs

/-!
# What the parsers of the device tree read

The blob may be malformed in any way. Whether the parsers read only bytes of it is asked by
running them on a memory that has nothing but the blob: it has as many bytes as its header
says, and reading any other is a fault.

## The model

`nextToken` says where the next token of a structure block is, from the bytes alone;
`ItemFits` and `BootItemFits` say that all that is read for a token, its name, its header,
its value and the name of a property, lies before the end of the blob.

## What is proved

`readsInside_iff`: both parsers read only bytes of the blob exactly when the header lies in
it and everything that is reached from the first token fits.
-/

namespace Yasouos.Kernel.Fdt

open Yasouos.Theory (load load_succ length_load)
open Relation (ReflTransGen)

variable {α β : Type}

/-! ### Reading from a part of memory -/

/-- The memory that has `size` bytes at `fdtAddr`, and nothing else. -/
def blob (mem : ℕ → UInt8) (fdtAddr size : ℕ) : Mem :=
  fun p => if fdtAddr ≤ p ∧ p < fdtAddr + size then some (mem p) else none

/-- The big-endian number of four bytes. -/
def word (mem : ℕ → UInt8) (p : ℕ) : ℕ :=
  (mem p).toNat * 2 ^ 24 + (mem (p + 1)).toNat * 2 ^ 16 + (mem (p + 2)).toNat * 2 ^ 8 + (mem (p + 3)).toNat

/-- A computation succeeds exactly if `fits`, with a value as `Q` says, and faults if not. -/
def Reads (r : Except Stop α) (fits : Prop) (Q : α → Prop) : Prop :=
  (fits → ∃ a, r = .ok a ∧ Q a) ∧ (¬ fits → ∃ p, r = .error (.fault p))

theorem Reads.pure {a : α} {Q : α → Prop} (h : Q a) : Reads (pure a : Except Stop α) True Q :=
  ⟨fun _ => ⟨a, rfl, h⟩, fun h => absurd trivial h⟩

/-- One computation after another: both must fit. -/
theorem Reads.bind {x : Except Stop α} {f : α → Except Stop β} {fits fits' : Prop} {Q : α → Prop} {Q' : β → Prop}
    (hx : Reads x fits Q) (hf : ∀ a, fits → Q a → Reads (f a) fits' Q') : Reads (x >>= f) (fits ∧ fits') Q' := by
  by_cases h : fits
  · obtain ⟨a, rfl, ha⟩ := hx.1 h
    refine ⟨fun h' => (hf a h ha).1 h'.2, fun h' => (hf a h ha).2 fun hf' => h' ⟨h, hf'⟩⟩
  · obtain ⟨p, rfl⟩ := hx.2 h
    exact ⟨fun h' => absurd h'.1 h, fun _ => ⟨p, rfl⟩⟩

theorem Reads.congr {r : Except Stop α} {fits fits' : Prop} {Q Q' : α → Prop} (h : Reads r fits Q)
    (hfits : fits ↔ fits') (hQ : ∀ a, Q a → Q' a) : Reads r fits' Q' := by
  refine ⟨fun h' => ?_, fun h' => h.2 fun hf => h' (hfits.mp hf)⟩
  obtain ⟨a, hr, ha⟩ := h.1 (hfits.mpr h')
  exact ⟨a, hr, hQ a ha⟩

/-- What comes after reads nothing more. -/
theorem Reads.bind_true {x : Except Stop α} {f : α → Except Stop β} {fits : Prop} {Q : α → Prop} {Q' : β → Prop}
    (hx : Reads x fits Q) (hf : ∀ a, fits → Q a → Reads (f a) True Q') : Reads (x >>= f) fits Q' :=
  (hx.bind hf).congr (by simp) fun _ => id

theorem Reads.ite {c : Prop} [Decidable c] {x y : Except Stop α} {fits fits' : Prop} {Q : α → Prop}
    (hx : c → Reads x fits Q) (hy : ¬ c → Reads y fits' Q) :
    Reads (if c then x else y) ((c → fits) ∧ (¬ c → fits')) Q := by
  by_cases h : c
  · rw [if_pos h]
    exact (hx h).congr (by simp [h]) fun _ => id
  · rw [if_neg h]
    exact (hy h).congr (by simp [h]) fun _ => id

/-- It does not fault exactly if it fits. -/
theorem Reads.ne_fault_iff {r : Except Stop α} {fits : Prop} {Q : α → Prop} (h : Reads r fits Q) :
    (∀ p, r ≠ .error (.fault p)) ↔ fits := by
  constructor
  · intro hr
    by_contra hf
    obtain ⟨p, hp⟩ := h.2 hf
    exact hr p hp
  · intro hf p hp
    obtain ⟨a, ha, -⟩ := h.1 hf
    rw [ha] at hp
    simp at hp

section Primitives

variable {mem : ℕ → UInt8} {fdtAddr size p : ℕ} (hp : fdtAddr ≤ p)

include hp

theorem reads_byte : Reads (byte (blob mem fdtAddr size) p) (p < fdtAddr + size) (· = mem p) := by
  by_cases h : p < fdtAddr + size
  · exact ⟨fun _ => ⟨mem p, by simp [byte, blob, hp, h], rfl⟩, fun h' => absurd h h'⟩
  · exact ⟨fun h' => absurd h' h, fun _ => ⟨p, by simp [byte, blob, h]⟩⟩

theorem reads_load32 :
    Reads (load32 (blob mem fdtAddr size) p) (p + 4 ≤ fdtAddr + size) (fun v => be32ToCpu v = word mem p) := by
  have h0 := (mem p).toNat_lt
  have h1 := (mem (p + 1)).toNat_lt
  have h2 := (mem (p + 2)).toNat_lt
  have h3 := (mem (p + 3)).toNat_lt
  have hread : Reads (load32 (blob mem fdtAddr size) p)
      (p < fdtAddr + size ∧ p + 1 < fdtAddr + size ∧ p + 2 < fdtAddr + size ∧ p + 3 < fdtAddr + size ∧ True)
      (fun v => be32ToCpu v = word mem p) := by
    refine (reads_byte hp).bind fun a _ ha => (reads_byte (p := p + 1) (by omega)).bind fun b _ hb =>
      (reads_byte (p := p + 2) (by omega)).bind fun c _ hc => (reads_byte (p := p + 3) (by omega)).bind fun d _ hd =>
      Reads.pure ?_
    subst ha hb hc hd
    simp only [be32ToCpu, word]
    omega
  refine hread.congr ?_ fun _ => id
  rw [and_true]
  omega

theorem reads_loadBe32 : Reads (loadBe32 (blob mem fdtAddr size) p) (p + 4 ≤ fdtAddr + size) (· = word mem p) :=
  (reads_load32 hp).bind_true fun _ _ hv => Reads.pure hv

theorem reads_readBe32Unaligned :
    Reads (readBe32Unaligned (blob mem fdtAddr size) p) (p + 4 ≤ fdtAddr + size) (fun _ => True) := by
  have hread : Reads (readBe32Unaligned (blob mem fdtAddr size) p)
      (p < fdtAddr + size ∧ p + 1 < fdtAddr + size ∧ p + 2 < fdtAddr + size ∧ p + 3 < fdtAddr + size ∧ True)
      (fun _ => True) :=
    (reads_byte hp).bind fun a _ ha => (reads_byte (p := p + 1) (by omega)).bind fun b _ hb =>
      (reads_byte (p := p + 2) (by omega)).bind fun c _ hc => (reads_byte (p := p + 3) (by omega)).bind fun d _ hd =>
      Reads.pure trivial
  refine hread.congr ?_ fun _ => id
  rw [and_true]
  omega

/-- The bytes up to the end of the blob are not all of them bytes of the literal, so that a
comparison with it ends before. -/
def NameFits (mem : ℕ → UInt8) (blobEnd p : ℕ) (lit : List UInt8) : Prop := ¬ load mem p (blobEnd - p) <+: lit

omit hp in
theorem nameFits_nil {blobEnd : ℕ} : NameFits mem blobEnd p [] ↔ p < blobEnd := by
  rw [NameFits, List.prefix_nil, ← List.length_eq_zero_iff, length_load]
  omega

omit hp in
theorem nameFits_cons {blobEnd : ℕ} {c : UInt8} {lit : List UInt8} :
    NameFits mem blobEnd p (c :: lit) ↔ p < blobEnd ∧ (mem p = c → NameFits mem blobEnd (p + 1) lit) := by
  unfold NameFits
  by_cases h : p < blobEnd
  · rw [show blobEnd - p = blobEnd - (p + 1) + 1 by omega, load_succ, List.cons_prefix_cons]
    simp [h]
  · simp [show blobEnd - p = 0 by omega, h, load]

/-- A comparison reads until the bytes differ, or the literal ends. -/
theorem reads_strEqual {lit : List UInt8} (hlit : (0 : UInt8) ∉ lit) :
    Reads (strEqual (blob mem fdtAddr size) p lit) (NameFits mem (fdtAddr + size) p lit)
      (fun b => b = decide (load mem p (lit.length + 1) = lit ++ [0])) := by
  induction lit generalizing p with
  | nil =>
    have hread : Reads (strEqual (blob mem fdtAddr size) p []) (p < fdtAddr + size ∧ True)
        (fun b => b = decide (load mem p 1 = [0])) := by
      refine (reads_byte hp).bind fun b _ hb => Reads.pure ?_
      simp [hb, load, beq_eq_decide]
    exact hread.congr (by rw [nameFits_nil, and_true]) fun _ => id
  | cons c lit ih =>
    have hc : c ≠ 0 := fun h => hlit (by simp [h])
    have hrest := ih (p := p + 1) (by omega) fun h => hlit (List.mem_cons_of_mem c h)
    have hread : Reads (strEqual (blob mem fdtAddr size) p (c :: lit))
        (p < fdtAddr + size ∧ (mem p = c → NameFits mem (fdtAddr + size) (p + 1) lit) ∧ (¬ mem p = c → True))
        (fun b => b = decide (load mem p (lit.length + 1 + 1) = c :: (lit ++ [0]))) := by
      refine (reads_byte hp).bind fun b _ hb => ?_
      subst hb
      rw [load_succ]
      by_cases h : mem p = c
      · rw [if_pos ⟨h ▸ hc, h⟩]
        refine hrest.congr (by simp [h]) fun b hb => ?_
        simp [hb, h]
      · rw [if_neg fun h' => h h'.2]
        refine (Reads.pure ?_).congr (by simp [h]) fun _ => id
        simp [h]
    exact hread.congr (by rw [nameFits_cons]; simp) fun _ => id

/-- How many bytes the name of a node has: up to its terminator, but not more than `max`. -/
def nodeNameLen (mem : ℕ → UInt8) (p max : ℕ) : ℕ := (load mem p max).findIdx (· == 0)

theorem reads_nameLen {max : ℕ} :
    Reads (nameLen (blob mem fdtAddr size) p max)
      (0 < max → p + min (nodeNameLen mem p max + 1) max ≤ fdtAddr + size) (· = nodeNameLen mem p max) := by
  induction max generalizing p with
  | zero => exact (Reads.pure (by simp [nodeNameLen, load])).congr (by simp) fun _ => id
  | succ max ih =>
    have hlen : nodeNameLen mem p (max + 1) = if mem p ≠ 0 then nodeNameLen mem (p + 1) max + 1 else 0 := by
      rw [nodeNameLen, load_succ, List.findIdx_cons]
      by_cases h : mem p = 0 <;> simp [cond_eq_ite, h, nodeNameLen]
    have hread : Reads (nameLen (blob mem fdtAddr size) p (max + 1))
        (p < fdtAddr + size ∧ (mem p ≠ 0 →
          ((0 < max → p + 1 + min (nodeNameLen mem (p + 1) max + 1) max ≤ fdtAddr + size) ∧ True)) ∧ (¬ mem p ≠ 0 → True))
        (· = nodeNameLen mem p (max + 1)) := by
      refine (reads_byte hp).bind fun b _ hb => ?_
      subst hb
      rw [hlen]
      refine Reads.ite (fun h => ?_) fun h => ?_
      · refine (ih (by omega)).bind fun n _ hn => Reads.pure ?_
        rw [if_pos h, hn]
      · refine Reads.pure ?_
        rw [if_neg h]
    refine hread.congr ?_ fun _ => id
    rw [hlen]
    by_cases h : mem p = 0
    · rw [if_neg (not_not.mpr h)]
      simp only [h, ne_eq, not_true_eq_false, false_imp_iff, imp_true_iff, and_true]
      omega
    · rw [if_pos h]
      simp only [h, ne_eq, not_false_eq_true, true_imp_iff, imp_true_iff, and_true]
      omega

end Primitives

/-! ### What is read for a token -/

section Items

variable (mem : ℕ → UInt8)

/-- Where a token is, after the name of a node at `p`, when its terminator comes before `limit`. -/
def afterName (limit p : ℕ) : Option ℕ :=
  let len := nodeNameLen mem p (limit - p)
  if limit - p ≤ len then none else some (p + alignUp ((len + 1) % 2 ^ 32))

/-- Where a token is, after the property at `p`, when it ends before `limit`. -/
def afterProp (limit p : ℕ) : Option ℕ :=
  let len := word mem p
  if limit < p + 8 + len then none else some (p + 8 + alignUp len)

/-- Where the token after the one at `p` is. -/
def nextToken (limit p : ℕ) : Option ℕ :=
  if limit ≤ p then none
  else if word mem p = fdtBeginNode then afterName mem limit (p + 4)
  else if word mem p = fdtEndNode then some (p + 4)
  else if word mem p = fdtProp then afterProp mem limit (p + 4)
  else if word mem p = fdtNop then some (p + 4)
  else none

/-- The name of a node, which is looked for up to `limit`, is inside. -/
def NodeNameFits (limit blobEnd p : ℕ) : Prop :=
  p < limit → p + min (nodeNameLen mem p (limit - p) + 1) (limit - p) ≤ blobEnd

/-- The header of a property is inside, and so is what is read because of its name. -/
def PropFits (limit blobEnd p : ℕ) (named : Prop) : Prop :=
  p + 8 ≤ limit → p + 8 ≤ blobEnd ∧ (p + 8 + word mem p ≤ limit → named)

/-- What is read for the token at `p` is inside. -/
def ItemFits (limit blobEnd p : ℕ) (named : Prop) : Prop :=
  p < limit → p + 4 ≤ blobEnd ∧ (word mem p = fdtBeginNode → NodeNameFits mem limit blobEnd (p + 4)) ∧
    (word mem p = fdtProp → PropFits mem limit blobEnd (p + 4) named)

/-- What `fdt_enumerate_devices` reads of a property because of its name is inside: the name
itself, and the sixteen bytes of a `reg` property. -/
def DeviceNameFits (blobEnd name data len : ℕ) : Prop :=
  NameFits mem blobEnd name regName ∧ NameFits mem blobEnd name compatibleName ∧
    (load mem name 4 = regName ++ [0] → 16 ≤ len → data + 16 ≤ blobEnd)

/-- What `fdt_enumerate_devices` reads for the token at `p` is inside. -/
def DeviceItemFits (stringsBase limit blobEnd p : ℕ) : Prop :=
  ItemFits mem limit blobEnd p (DeviceNameFits mem blobEnd (stringsBase + word mem (p + 8)) (p + 12) (word mem (p + 4)))

end Items

section Shared

variable {mem : ℕ → UInt8} {fdtAddr size limit p : ℕ} {Q : β → Prop}

/-- Both parsers look for the end of a node's name, and return if there is none. -/
theorem reads_nodeName (hp : fdtAddr ≤ p) {done : β} {f : ℕ → Except Stop β}
    (hdone : afterName mem limit p = none → Q done)
    (hf : nodeNameLen mem p (limit - p) < limit - p → Reads (f (nodeNameLen mem p (limit - p))) True Q) :
    Reads (if limit ≤ p then pure done else do
        let len ← nameLen (blob mem fdtAddr size) p (limit - p)
        if limit - p ≤ len then pure done else f len)
      (NodeNameFits mem limit (fdtAddr + size) p) Q := by
  by_cases h : limit ≤ p
  · rw [if_pos h]
    exact (Reads.pure (hdone (by simp [afterName, Nat.sub_eq_zero_of_le h]))).congr (by simp [NodeNameFits, h]) fun _ => id
  · rw [if_neg h]
    refine Reads.congr ((reads_nameLen hp).bind_true fun len _ hlen => ?_)
      (by simp [NodeNameFits]) fun _ => id
    subst hlen
    by_cases h₁ : limit - p ≤ nodeNameLen mem p (limit - p)
    · rw [if_pos h₁]
      exact Reads.pure (hdone (if_pos h₁))
    · rw [if_neg h₁]
      exact hf (by omega)

/-- Both parsers read the header of a property, and return if the property does not end
before the limit. -/
theorem reads_propHeader (hp : fdtAddr ≤ p) {done : β} {f : ℕ → ℕ → Except Stop β} {named : Prop}
    (hdone : afterProp mem limit p = none → Q done)
    (hf : p + 8 + word mem p ≤ limit → Reads (f (word mem p) (word mem (p + 4))) named Q) :
    Reads (if limit < p + 8 then pure done else do
        let len ← loadBe32 (blob mem fdtAddr size) p
        let nameoff ← loadBe32 (blob mem fdtAddr size) (p + 4)
        if limit < p + 8 + len then pure done else f len nameoff)
      (PropFits mem limit (fdtAddr + size) p named) Q := by
  by_cases h : limit < p + 8
  · rw [if_pos h]
    have hnone : afterProp mem limit p = none := if_pos (show limit < p + 8 + word mem p by omega)
    exact (Reads.pure (hdone hnone)).congr (by simp [PropFits, h]) fun _ => id
  · rw [if_neg h]
    have hread : Reads (do
          let len ← loadBe32 (blob mem fdtAddr size) p
          let nameoff ← loadBe32 (blob mem fdtAddr size) (p + 4)
          if limit < p + 8 + len then pure done else f len nameoff)
        (p + 4 ≤ fdtAddr + size ∧ p + 4 + 4 ≤ fdtAddr + size ∧
          (limit < p + 8 + word mem p → True) ∧ (¬ limit < p + 8 + word mem p → named)) Q := by
      refine (reads_loadBe32 hp).bind fun len _ hlen => (reads_loadBe32 (by omega)).bind fun nameoff _ hnameoff => ?_
      subst hlen hnameoff
      exact Reads.ite (fun h' => Reads.pure (hdone (if_pos h'))) fun h' => hf (by omega)
    refine hread.congr ?_ fun _ => id
    simp only [PropFits, imp_true_iff, true_and, Nat.not_lt]
    constructor
    · intro ⟨h₁, h₂, h₃⟩ _
      exact ⟨h₂, h₃⟩
    · intro h'
      obtain ⟨h₁, h₂⟩ := h' (by omega)
      exact ⟨by omega, h₁, h₂⟩

end Shared

/-! ### Reaching a token -/

/-- `x` is reached from `a`, one after another. -/
def Reached (next : α → Option α) : α → α → Prop := ReflTransGen fun x y => next x = some y

/-- What is reached is the first, and what is reached from the one after it. -/
theorem forall_reached_iff {next : α → Option α} {F : α → Prop} {a : α} :
    (∀ x, Reached next a x → F x) ↔ F a ∧ ∀ b ∈ next a, ∀ x, Reached next b x → F x := by
  constructor
  · intro h
    exact ⟨h a .refl, fun b hb x hx => h x (.head hb hx)⟩
  · intro ⟨ha, h⟩ x hx
    rcases hx.cases_head with rfl | ⟨b, hb, hx⟩
    · exact ha
    · exact h b hb x hx

/-! ### The walk over the devices -/

/-- An iteration agrees with the place of the next token: the loop goes on there, or ends, and
then no token comes before `limit`. -/
def Next.Agrees (next : Option ℕ) (limit : ℕ) : Next → Prop
  | .loop s => next = some s.structPtr
  | .done _ => ∀ p ∈ next, limit ≤ p

theorem lt_of_nextToken {mem : ℕ → UInt8} {limit p p' : ℕ} (h : nextToken mem limit p = some p') :
    p < limit ∧ p + 4 ≤ p' := by
  simp only [nextToken, afterName, afterProp] at h
  split_ifs at h <;> simp only [Option.some.injEq] at h <;> omega

section Devices

variable {mem : ℕ → UInt8} {fdtAddr size limit stringsBase : ℕ} {callback : Bool}

theorem reads_regValue {data : ℕ} (hdata : fdtAddr ≤ data) (f : ℕ → ℕ → ℕ → ℕ → Walk) :
    Reads (do
      let addrHi ← readBe32Unaligned (blob mem fdtAddr size) data
      let addrLo ← readBe32Unaligned (blob mem fdtAddr size) (data + 4)
      let sizeHi ← readBe32Unaligned (blob mem fdtAddr size) (data + 8)
      let sizeLo ← readBe32Unaligned (blob mem fdtAddr size) (data + 12)
      return f addrHi addrLo sizeHi sizeLo) (data + 16 ≤ fdtAddr + size) fun _ => True := by
  have hword (i : ℕ) : Reads (readBe32Unaligned (blob mem fdtAddr size) (data + i)) (data + i + 4 ≤ fdtAddr + size)
      fun _ => True := reads_readBe32Unaligned (by omega)
  have hread := (hword 0).bind fun a _ _ => (hword 4).bind fun b _ _ => (hword 8).bind fun c _ _ =>
    (hword 12).bind fun d _ _ => Reads.pure (a := f a b c d) (Q := fun _ => True) trivial
  refine hread.congr ?_ fun _ => id
  rw [and_true]
  omega

theorem reads_parseProp {name data len : ℕ} {s : Walk} (hname : fdtAddr ≤ name) (hdata : fdtAddr ≤ data)
    (hlen : data + len ≤ limit) :
    Reads (parseProp (blob mem fdtAddr size) limit name data len s)
      (DeviceNameFits mem (fdtAddr + size) name data len) fun _ => True := by
  have hread : Reads (parseProp (blob mem fdtAddr size) limit name data len s)
      (NameFits mem (fdtAddr + size) name regName ∧
        (load mem name 4 = regName ++ [0] → 16 ≤ len → data + 16 ≤ fdtAddr + size) ∧
        (¬ load mem name 4 = regName ++ [0] → NameFits mem (fdtAddr + size) name compatibleName))
      fun _ => True := by
    refine (reads_strEqual hname (by decide)).bind fun b _ hb => ?_
    change b = decide (load mem name 4 = regName ++ [0]) at hb
    by_cases hreg : load mem name 4 = regName ++ [0]
    · rw [if_pos (by simp [hb, hreg])]
      by_cases h : 16 ≤ len
      · rw [if_pos ⟨h, by omega⟩]
        exact (reads_regValue hdata _).congr (by simp [hreg, h]) fun _ => id
      · rw [if_neg fun h' => h h'.1]
        exact (Reads.pure trivial).congr (by simp [h, hreg]) fun _ => id
    · rw [if_neg (by simp [hb, hreg])]
      refine Reads.congr ((reads_strEqual hname (by decide)).bind_true fun b _ _ => ?_) (by simp [hreg]) fun _ => id
      split_ifs <;> exact Reads.pure trivial
  refine hread.congr ?_ fun _ => id
  constructor
  · intro ⟨h₁, h₂, h₃⟩
    refine ⟨h₁, ?_, h₂⟩
    by_cases hreg : load mem name 4 = regName ++ [0]
    · -- a name that is `reg` differs from `compatible` at once
      rw [load_succ, regName, List.cons_append, List.cons.injEq] at hreg
      rw [compatibleName, nameFits_cons, hreg.1]
      exact ⟨(nameFits_cons.mp h₁).1, fun h => absurd h (by decide)⟩
    · exact h₃ hreg
  · intro ⟨h₁, h₂, h₃⟩
    exact ⟨h₁, h₃, fun _ => h₂⟩

theorem reads_beginNode {s : Walk} (hs : fdtAddr ≤ s.structPtr) :
    Reads (beginNode (blob mem fdtAddr size) limit s) (NodeNameFits mem limit (fdtAddr + size) s.structPtr)
      (Next.Agrees (afterName mem limit s.structPtr) limit) := by
  refine reads_nodeName hs (fun hnone => by simp [Next.Agrees, hnone]) fun hlen => ?_
  rw [afterName, if_neg (Nat.not_le.mpr hlen)]
  dsimp only
  split_ifs with h
  · exact Reads.pure (by simpa [Next.Agrees] using Nat.le_of_lt h)
  · exact Reads.pure rfl

theorem reads_prop {s : Walk} (hs : fdtAddr ≤ s.structPtr) (hstrings : fdtAddr ≤ stringsBase) :
    Reads (prop (blob mem fdtAddr size) stringsBase limit s)
      (PropFits mem limit (fdtAddr + size) s.structPtr
        (DeviceNameFits mem (fdtAddr + size) (stringsBase + word mem (s.structPtr + 4)) (s.structPtr + 8)
          (word mem s.structPtr)))
      (Next.Agrees (afterProp mem limit s.structPtr) limit) := by
  refine reads_propHeader hs (fun hnone => by simp [Next.Agrees, hnone]) fun hlen => ?_
  rw [afterProp, if_neg (Nat.not_lt.mpr hlen)]
  refine (reads_parseProp (by omega) (by omega) hlen).bind_true fun s' _ _ => ?_
  dsimp only
  split_ifs with h
  · exact Reads.pure (by simpa [Next.Agrees] using Nat.le_of_lt h)
  · exact Reads.pure rfl

/-- An iteration reads what `DeviceItemFits` says, and goes on to the next token. -/
theorem reads_step {s : Walk} (hs : fdtAddr ≤ s.structPtr) (hstrings : fdtAddr ≤ stringsBase) :
    Reads (step (blob mem fdtAddr size) callback stringsBase limit s)
      (DeviceItemFits mem stringsBase limit (fdtAddr + size) s.structPtr)
      (Next.Agrees (nextToken mem limit s.structPtr) limit) := by
  unfold step DeviceItemFits ItemFits nextToken
  by_cases h : limit ≤ s.structPtr
  · rw [if_pos h, if_pos h]
    exact (Reads.pure (by simp [Next.Agrees])).congr (by simp [h]) fun _ => id
  · rw [if_neg h, if_neg h]
    simp only [Nat.lt_of_not_le h, forall_const]
    refine (reads_loadBe32 hs).bind fun token _ htoken => ?_
    subst htoken
    by_cases hbegin : word mem s.structPtr = fdtBeginNode
    · rw [if_pos hbegin, if_pos hbegin]
      exact (reads_beginNode (by simp only; omega)).congr (by simp [hbegin, fdtBeginNode, fdtProp]) fun _ => id
    · rw [if_neg hbegin, if_neg hbegin]
      by_cases hend : word mem s.structPtr = fdtEndNode
      · rw [if_pos hend, if_pos hend]
        refine (Reads.pure ?_).congr (by simp [hend, fdtBeginNode, fdtEndNode, fdtProp]) fun _ => id
        unfold endNode
        dsimp only
        split_ifs <;> rfl
      · rw [if_neg hend, if_neg hend]
        by_cases hprop : word mem s.structPtr = fdtProp
        · rw [if_pos hprop, if_pos hprop]
          exact (reads_prop (by simp only; omega) hstrings).congr (by simp [hprop, fdtBeginNode, fdtProp]) fun _ => id
        · rw [if_neg hprop, if_neg hprop]
          split_ifs with hnop
          · exact (Reads.pure (by rfl)).congr (by simp [hbegin, hprop]) fun _ => id
          · exact (Reads.pure (by simp [Next.Agrees])).congr (by simp [hbegin, hprop]) fun _ => id

/-- Nothing is read from the limit on. -/
theorem forall_reached_of_limit_le {blobEnd p : ℕ} (h : limit ≤ p) :
    ∀ p', Reached (nextToken mem limit) p p' → DeviceItemFits mem stringsBase limit blobEnd p' := by
  rw [forall_reached_iff, nextToken, if_pos h]
  exact ⟨fun h' => absurd h' (by omega), by simp⟩

/-- The loop reads what is read for the tokens that are reached. -/
theorem reads_walkTokens (hstrings : fdtAddr ≤ stringsBase) {n : ℕ} {s : Walk} (hs : fdtAddr ≤ s.structPtr)
    (hn : limit - s.structPtr < n) :
    Reads (walkTokens (blob mem fdtAddr size) callback stringsBase limit n s)
      (∀ p, Reached (nextToken mem limit) s.structPtr p → DeviceItemFits mem stringsBase limit (fdtAddr + size) p)
      fun _ => True := by
  induction n generalizing s with
  | zero => omega
  | succ n ih =>
    rw [forall_reached_iff]
    refine (reads_step hs hstrings).bind fun r _ hr => ?_
    cases r with
    | loop s' =>
      obtain ⟨hlimit, hp⟩ := lt_of_nextToken hr
      refine (ih (by omega) (by omega)).congr ?_ fun _ => id
      rw [show nextToken mem limit s.structPtr = some s'.structPtr from hr]
      simp
    | done s' =>
      refine (Reads.pure trivial).congr (iff_of_true trivial fun p hp => ?_) fun _ => id
      exact forall_reached_of_limit_le (hr p hp)

end Devices

/-! ### The walk for the boot arguments -/

/-- Where `fdt_get_bootargs` is. -/
structure Place where
  /-- The place of a token. -/
  ptr : ℕ
  /-- How many nodes are open there. -/
  depth : ℤ
  /-- It is inside `/chosen`. -/
  inChosen : Bool
  deriving DecidableEq

/-- The place in the blob that the variables of the function stand for. -/
def BootWalk.place (s : BootWalk) : Place := ⟨s.structPtr, s.depth, s.inChosen⟩

/-- The place after `x`. -/
def nextPlace (mem : ℕ → UInt8) (blobEnd : ℕ) (x : Place) : Option Place :=
  (nextToken mem blobEnd x.ptr).map fun p =>
    if word mem x.ptr = fdtBeginNode then
      ⟨p, x.depth + 1, x.inChosen || decide (x.depth = 1 ∧ load mem (x.ptr + 4) 7 = chosenName ++ [0])⟩
    else if word mem x.ptr = fdtEndNode then ⟨p, x.depth - 1, x.inChosen && decide (x.depth ≠ 2)⟩
    else ⟨p, x.depth, x.inChosen⟩

/-- What `fdt_get_bootargs` reads for the token at a place is inside: of a property, the name
is read only in `/chosen`. -/
def BootItemFits (mem : ℕ → UInt8) (stringsBase blobEnd : ℕ) (x : Place) : Prop :=
  ItemFits mem blobEnd blobEnd x.ptr
    (x.inChosen = true → NameFits mem blobEnd (stringsBase + word mem (x.ptr + 8)) bootargsName)

/-- An iteration agrees with the next place. -/
def BootNext.Agrees (next : Option Place) : BootNext → Prop
  | .loop s => next = some s.place
  | .done _ => next = none

section Bootargs

variable {mem : ℕ → UInt8} {fdtAddr size stringsBase : ℕ}

/-- A name that is terminated in the blob can be compared with any literal. -/
theorem nameFits_of_lt {blobEnd p : ℕ} {lit : List UInt8} (h : nodeNameLen mem p (blobEnd - p) < blobEnd - p)
    (hlit : (0 : UInt8) ∉ lit) : NameFits mem blobEnd p lit := by
  intro hinit
  have hlt : (load mem p (blobEnd - p)).findIdx (· == 0) < (load mem p (blobEnd - p)).length := by
    rw [length_load]
    exact h
  obtain ⟨b, hb, hzero⟩ := List.findIdx_lt_length.mp hlt
  rw [beq_iff_eq] at hzero
  exact hlit (hinit.subset (hzero ▸ hb))

theorem reads_enterChosen {s : BootWalk} (hs : fdtAddr ≤ s.structPtr)
    (h : nodeNameLen mem s.structPtr (fdtAddr + size - s.structPtr) < fdtAddr + size - s.structPtr) :
    Reads (enterChosen (blob mem fdtAddr size) s) True
      (· = (s.inChosen || decide (s.depth = 1 ∧ load mem s.structPtr 7 = chosenName ++ [0]))) := by
  unfold enterChosen
  by_cases hdepth : s.depth = 1
  · rw [if_pos hdepth]
    have hname : NameFits mem (fdtAddr + size) s.structPtr chosenName := nameFits_of_lt h (by decide)
    refine Reads.congr ((reads_strEqual hs (by decide)).bind_true fun b _ hb => ?_) (iff_of_true hname trivial) fun _ => id
    change b = decide (load mem s.structPtr 7 = chosenName ++ [0]) at hb
    by_cases hchosen : load mem s.structPtr 7 = chosenName ++ [0]
    · rw [if_pos (by simp [hb, hchosen])]
      exact Reads.pure (by simp [hdepth, hchosen])
    · rw [if_neg (by simp [hb, hchosen])]
      exact Reads.pure (by simp [hchosen])
  · rw [if_neg hdepth]
    exact Reads.pure (by simp [hdepth])

theorem reads_bootBeginNode {s : BootWalk} (hs : fdtAddr ≤ s.structPtr) :
    Reads (bootBeginNode (blob mem fdtAddr size) (fdtAddr + size) s)
      (NodeNameFits mem (fdtAddr + size) (fdtAddr + size) s.structPtr)
      (BootNext.Agrees ((afterName mem (fdtAddr + size) s.structPtr).map fun p =>
        ⟨p, s.depth + 1, s.inChosen || decide (s.depth = 1 ∧ load mem s.structPtr 7 = chosenName ++ [0])⟩)) := by
  refine reads_nodeName hs (fun hnone => by simp [BootNext.Agrees, hnone]) fun hlen => ?_
  rw [afterName, if_neg (Nat.not_le.mpr hlen)]
  refine (reads_enterChosen hs hlen).bind_true fun inChosen _ hchosen => Reads.pure ?_
  rw [hchosen]
  rfl

theorem reads_parseBootargs {name data len : ℕ} {s : BootWalk} (hname : fdtAddr ≤ name) :
    Reads (parseBootargs (blob mem fdtAddr size) name data len s)
      (s.inChosen = true → NameFits mem (fdtAddr + size) name bootargsName) fun _ => True := by
  unfold parseBootargs
  by_cases h : s.inChosen = true
  · rw [if_pos h]
    refine Reads.congr ((reads_strEqual hname (by decide)).bind_true fun b _ _ => ?_) (by simp [h]) fun _ => id
    split_ifs <;> exact Reads.pure trivial
  · rw [if_neg h]
    exact (Reads.pure trivial).congr (by simp [h]) fun _ => id

theorem reads_bootProp {s : BootWalk} (hs : fdtAddr ≤ s.structPtr) (hstrings : fdtAddr ≤ stringsBase) :
    Reads (bootProp (blob mem fdtAddr size) stringsBase (fdtAddr + size) s)
      (PropFits mem (fdtAddr + size) (fdtAddr + size) s.structPtr
        (s.inChosen = true → NameFits mem (fdtAddr + size) (stringsBase + word mem (s.structPtr + 4)) bootargsName))
      (BootNext.Agrees ((afterProp mem (fdtAddr + size) s.structPtr).map fun p => ⟨p, s.depth, s.inChosen⟩)) := by
  refine reads_propHeader hs (fun hnone => by simp [BootNext.Agrees, hnone]) fun hlen => ?_
  rw [afterProp, if_neg (Nat.not_lt.mpr hlen)]
  exact (reads_parseBootargs (by omega)).bind_true fun bootargs _ _ => Reads.pure rfl

theorem place_bootEndNode (s : BootWalk) :
    (bootEndNode s).place = ⟨s.structPtr, s.depth - 1, s.inChosen && decide (s.depth ≠ 2)⟩ := by
  unfold bootEndNode
  dsimp only
  split_ifs with h
  · have hdepth : s.depth = 2 := by omega
    simp [BootWalk.place, hdepth]
  · cases hchosen : s.inChosen with
    | false => simp [BootWalk.place]
    | true =>
      have hdepth : s.depth ≠ 2 := fun h' => h ⟨by omega, hchosen⟩
      simp [BootWalk.place, hdepth]

/-- An iteration reads what `BootItemFits` says, and goes on to the next place. -/
theorem reads_bootStep {s : BootWalk} (hs : fdtAddr ≤ s.structPtr) (hstrings : fdtAddr ≤ stringsBase) :
    Reads (bootStep (blob mem fdtAddr size) stringsBase (fdtAddr + size) s)
      (BootItemFits mem stringsBase (fdtAddr + size) s.place)
      (BootNext.Agrees (nextPlace mem (fdtAddr + size) s.place)) := by
  unfold bootStep BootItemFits ItemFits nextPlace nextToken BootWalk.place
  dsimp only
  by_cases h : fdtAddr + size ≤ s.structPtr
  · rw [if_pos h, if_pos h]
    exact (Reads.pure (by rfl)).congr (by simp [h]) fun _ => id
  · rw [if_neg h, if_neg h]
    simp only [Nat.lt_of_not_le h, forall_const]
    refine (reads_loadBe32 hs).bind fun token _ htoken => ?_
    subst htoken
    by_cases hbegin : word mem s.structPtr = fdtBeginNode
    · simp only [if_pos hbegin]
      exact (reads_bootBeginNode (by simp only; omega)).congr (by simp [hbegin, fdtBeginNode, fdtProp]) fun _ => id
    · simp only [if_neg hbegin]
      by_cases hend : word mem s.structPtr = fdtEndNode
      · simp only [if_pos hend]
        refine (Reads.pure ?_).congr (by simp [hend, fdtBeginNode, fdtEndNode, fdtProp]) fun _ => id
        exact congrArg some (place_bootEndNode { s with structPtr := s.structPtr + 4 }).symm
      · simp only [if_neg hend]
        by_cases hprop : word mem s.structPtr = fdtProp
        · rw [if_pos hprop, if_pos hprop]
          exact (reads_bootProp (by simp only; omega) hstrings).congr (by simp [hprop, fdtBeginNode, fdtProp]) fun _ => id
        · rw [if_neg hprop, if_neg hprop]
          split_ifs with hnop
          · exact (Reads.pure (by rfl)).congr (by simp [hbegin, hprop]) fun _ => id
          · exact (Reads.pure (by rfl)).congr (by simp [hbegin, hprop]) fun _ => id
          · exact (Reads.pure (by rfl)).congr (by simp [hbegin, hprop]) fun _ => id

/-- The loop reads what is read for the places that are reached. -/
theorem reads_bootWalk (hstrings : fdtAddr ≤ stringsBase) {n : ℕ} {s : BootWalk} (hs : fdtAddr ≤ s.structPtr)
    (hn : fdtAddr + size - s.structPtr < n) :
    Reads (bootWalk (blob mem fdtAddr size) stringsBase (fdtAddr + size) n s)
      (∀ x, Reached (nextPlace mem (fdtAddr + size)) s.place x → BootItemFits mem stringsBase (fdtAddr + size) x)
      fun _ => True := by
  induction n generalizing s with
  | zero => omega
  | succ n ih =>
    rw [forall_reached_iff]
    refine (reads_bootStep hs hstrings).bind fun r _ hr => ?_
    cases r with
    | loop s' =>
      obtain ⟨p, hp, hp'⟩ := Option.map_eq_some_iff.mp hr
      have hptr : s'.structPtr = p := by
        have h := congrArg Place.ptr hp'
        split_ifs at h <;> exact h.symm
      obtain ⟨hlimit, hlt⟩ : s.structPtr < fdtAddr + size ∧ s.structPtr + 4 ≤ p := lt_of_nextToken hp
      refine (ih (by omega) (by omega)).congr ?_ fun _ => id
      rw [show nextPlace mem (fdtAddr + size) s.place = some s'.place from hr]
      simp
    | done bootargs =>
      refine (Reads.pure trivial).congr (iff_of_true trivial fun x hx => ?_) fun _ => id
      rw [show nextPlace mem (fdtAddr + size) s.place = none from hr] at hx
      simp at hx

end Bootargs

/-! ### The parsers -/

section Parsers

variable (mem : ℕ → UInt8) (fdtAddr : ℕ)

/-- The size of the blob, as its header says. -/
def totalsize : ℕ := word mem (fdtAddr + 4)

/-- Both parsers read only bytes of the blob. -/
def ReadsInside : Prop :=
  (∀ callback p, enumerateDevices (blob mem fdtAddr (totalsize mem fdtAddr)) fdtAddr callback ≠ .error (.fault p)) ∧
    ∀ p, getBootargs (blob mem fdtAddr (totalsize mem fdtAddr)) fdtAddr ≠ .error (.fault p)

/-- What `fdt_enumerate_devices` reads is inside: the header, and, if the offsets pass its
check, what it reads for every token it reaches. -/
def DevicesFit : Prop :=
  let structOffset := word mem (fdtAddr + 8)
  let stringsOffset := word mem (fdtAddr + 12)
  let structSize := word mem (fdtAddr + 36)
  40 ≤ totalsize mem fdtAddr ∧
    (structOffset ≤ totalsize mem fdtAddr → stringsOffset ≤ totalsize mem fdtAddr →
      (structOffset + structSize) % 2 ^ 32 ≤ totalsize mem fdtAddr →
      ∀ p, Reached (nextToken mem (fdtAddr + structOffset + structSize)) (fdtAddr + structOffset) p →
        DeviceItemFits mem (fdtAddr + stringsOffset) (fdtAddr + structOffset + structSize)
          (fdtAddr + totalsize mem fdtAddr) p)

/-- What `fdt_get_bootargs` reads is inside: its part of the header, and what it reads for every
token it reaches. -/
def BootargsFit : Prop :=
  let structOffset := word mem (fdtAddr + 8)
  let stringsOffset := word mem (fdtAddr + 12)
  16 ≤ totalsize mem fdtAddr ∧
    ∀ x, Reached (nextPlace mem (fdtAddr + totalsize mem fdtAddr)) ⟨fdtAddr + structOffset, 0, false⟩ x →
      BootItemFits mem (fdtAddr + stringsOffset) (fdtAddr + totalsize mem fdtAddr) x

variable {mem fdtAddr}

theorem reads_field (i : ℕ) :
    Reads (loadBe32 (blob mem fdtAddr (totalsize mem fdtAddr)) (fdtAddr + i)) (i + 4 ≤ totalsize mem fdtAddr)
      (· = word mem (fdtAddr + i)) :=
  (reads_loadBe32 (Nat.le_add_right fdtAddr i)).congr (by omega) fun _ => id

theorem reads_enumerateDevices (hmagic : word mem fdtAddr = fdtMagic) (haddr : fdtAddr ≠ 0) (callback : Bool) :
    Reads (enumerateDevices (blob mem fdtAddr (totalsize mem fdtAddr)) fdtAddr callback) (DevicesFit mem fdtAddr)
      fun _ => True := by
  have hfits : DevicesFit mem fdtAddr ↔ 0 + 4 ≤ totalsize mem fdtAddr ∧ 8 + 4 ≤ totalsize mem fdtAddr ∧
      12 + 4 ≤ totalsize mem fdtAddr ∧ 4 + 4 ≤ totalsize mem fdtAddr ∧ DevicesFit mem fdtAddr := by
    constructor
    · intro h
      have := h.1
      exact ⟨by omega, by omega, by omega, by omega, h⟩
    · intro h
      exact h.2.2.2.2
  rw [hfits]
  unfold enumerateDevices
  rw [if_neg haddr]
  refine (reads_field 0).bind fun magic _ hm => ?_
  rw [if_neg (by simp [hm, hmagic])]
  refine (reads_field 8).bind fun structOffset _ h₁ => (reads_field 12).bind fun stringsOffset _ h₂ =>
    (reads_field 4).bind fun size _ h₃ => (reads_field 36).bind fun structSize _ h₄ => ?_
  subst h₁ h₂ h₃ h₄
  -- the check of the offsets, as the source makes it
  split_ifs with hcheck
  · refine (Reads.pure trivial).congr (iff_of_true trivial fun h₁ h₂ h₃ => ?_) fun _ => id
    unfold totalsize at h₁ h₂ h₃
    omega
  · refine Reads.congr ((reads_walkTokens (by omega) (by simp) (by simp)).bind_true fun s _ _ => Reads.pure trivial) ?_
      fun _ => id
    unfold totalsize
    constructor
    · intro h _ _ _
      exact h
    · intro h
      exact h (by omega) (by omega) (by omega)

theorem reads_getBootargs (hmagic : word mem fdtAddr = fdtMagic) (haddr : fdtAddr ≠ 0) :
    Reads (getBootargs (blob mem fdtAddr (totalsize mem fdtAddr)) fdtAddr) (BootargsFit mem fdtAddr)
      fun _ => True := by
  have hfits : BootargsFit mem fdtAddr ↔ 0 + 4 ≤ totalsize mem fdtAddr ∧ 8 + 4 ≤ totalsize mem fdtAddr ∧
      12 + 4 ≤ totalsize mem fdtAddr ∧ 4 + 4 ≤ totalsize mem fdtAddr ∧
      ∀ x, Reached (nextPlace mem (fdtAddr + totalsize mem fdtAddr)) ⟨fdtAddr + word mem (fdtAddr + 8), 0, false⟩ x →
        BootItemFits mem (fdtAddr + word mem (fdtAddr + 12)) (fdtAddr + totalsize mem fdtAddr) x := by
    constructor
    · intro h
      have := h.1
      exact ⟨by omega, by omega, by omega, by omega, h.2⟩
    · intro h
      exact ⟨h.2.2.1, h.2.2.2.2⟩
  rw [hfits]
  unfold getBootargs
  rw [if_neg haddr]
  refine (reads_field 0).bind fun magic _ hm => ?_
  rw [if_neg (by simp [hm, hmagic])]
  refine (reads_field 8).bind fun structOffset _ h₁ => (reads_field 12).bind fun stringsOffset _ h₂ =>
    (reads_field 4).bind fun size _ h₃ => ?_
  subst h₁ h₂ h₃
  exact reads_bootWalk (by omega) (by simp) (by simp only [totalsize]; omega)

end Parsers

/-- Memory with some bytes at address 4096. -/
def image (bytes : List UInt8) : ℕ → UInt8 := fun p => if p < 4096 then 0 else bytes.getD (p - 4096) 0

theorem ne_fault_of_isSome {r : Except Stop α} (h : r.toOption.isSome = true) (p : ℕ) : r ≠ .error (.fault p) := by
  intro hr
  rw [hr] at h
  cases h

/-- A well-formed tree, with its strings block. -/
def uartBlob : List UInt8 := uartThenPlain.header.bytes ++ uartThenPlain.bytes ++ nameStrings

/-- A blob of 68 bytes: a root with a property, whose name is 4096 bytes after the end. -/
def strayName : List UInt8 :=
  Header.bytes ⟨fdtMagic, 68, 40, 68, 40, 17, 16, 0, 0, 28⟩ ++
    [fdtBeginNode, 0, fdtProp, 0, 4096, fdtEndNode, fdtEnd].flatMap be32

end Yasouos.Kernel.Fdt
