import Yasouos.Theory.Memory
import Yasouos.Theory.Virtqueue
import Mathlib.Data.Option.Basic

/-!
# Virtqueues in bytes

A virtqueue is a block of memory, and where its parts are in it is a convention: the table
of descriptors comes first, and a `Layout` says where the two rings are and how many slots
they have. The driver and the device each have a layout, and they only share a queue if it
is the same one.

## The model

`exec` is a driver's access to the bytes, `take` and `complete` are the moves of the device,
each by a layout of its own. `Shows L b q` says that the bytes `b`, seen through the layout
`L`, are the queue `q`.

## What is proved

`runsAgree`: when both sides have one layout, in which the parts do not overlap, the bytes
are a queue. Every run of the driver's accesses and the device's moves on the bytes is a
run on a `Virtqueue`, step by step, and both sides see that queue in them. `not_runsAgree`:
when they have the available ring in different places, there is a run in which they do not.
-/

namespace Yasouos.Theory

/-! ### Numbers in memory -/

/-- The lower `n` bytes of a number, the lowest first. -/
def leBytes : ℕ → ℕ → List UInt8
  | 0, _ => []
  | n + 1, v => UInt8.ofNat v :: leBytes n (v / 256)

/-- The number that the bytes are, the lowest first. -/
def leNat : List UInt8 → ℕ
  | [] => 0
  | b :: bs => b.toNat + 256 * leNat bs

@[simp] theorem length_leBytes (n v : ℕ) : (leBytes n v).length = n := by
  induction n generalizing v with
  | zero => rfl
  | succ n ih => rw [leBytes, List.length_cons, ih]

/-- Each byte by itself. -/
theorem leBytes_eq (n v : ℕ) : leBytes n v = (List.range n).map fun i => UInt8.ofNat (v / 256 ^ i) := by
  induction n generalizing v with
  | zero => rfl
  | succ n ih =>
    rw [leBytes, ih, List.range_succ_eq_map, List.map_cons, List.map_map, Nat.pow_zero, Nat.div_one]
    refine congrArg _ (List.map_congr_left fun i _ => ?_)
    rw [Function.comp_apply, Nat.div_div_eq_div_mul, Nat.pow_succ']

theorem leNat_leBytes {n v : ℕ} (h : v < 256 ^ n) : leNat (leBytes n v) = v := by
  induction n generalizing v with
  | zero =>
    rw [Nat.pow_zero] at h
    simp only [leBytes, leNat]
    omega
  | succ n ih =>
    have hdiv : v / 256 < 256 ^ n := by
      rw [Nat.pow_succ] at h
      omega
    rw [leBytes, leNat, ih hdiv, UInt8.toNat_ofNat']
    omega

/-- The number in the `n` bytes at `a`. -/
def getNat (f : ℕ → UInt8) (a n : ℕ) : ℕ := leNat (load f a n)

/-- Memory with a number in the `n` bytes at `a`. -/
def setNat (f : ℕ → UInt8) (a n v : ℕ) : ℕ → UInt8 := store f a (leBytes n v)

theorem getNat_setNat (f : ℕ → UInt8) (a : ℕ) {n v : ℕ} (h : v < 256 ^ n) : getNat (setNat f a n v) a n = v := by
  have hload := load_store f a (leBytes n v)
  rw [length_leBytes] at hload
  rw [getNat, setNat, hload, leNat_leBytes h]

/-- Another number is not changed. -/
theorem getNat_setNat_outside (f : ℕ → UInt8) {a n b m : ℕ} (v : ℕ) (h : b + m ≤ a ∨ a + n ≤ b) :
    getNat (setNat f a n v) b m = getNat f b m := by
  rw [getNat, setNat, load_store_outside f a _ (by simpa using h), getNat]

theorem getNat_zero (a n : ℕ) : getNat (fun _ => 0) a n = 0 := by
  have h : ∀ l : List UInt8, (∀ b ∈ l, b = 0) → leNat l = 0 := by
    intro l hl
    induction l with
    | nil => rfl
    | cons b l ih =>
      rw [leNat, hl b (by simp), ih fun b hb => hl b (by simp [hb])]
      rfl
  exact h _ (by simp [load])

theorem leNat_append (l l' : List UInt8) : leNat (l ++ l') = leNat l + 256 ^ l.length * leNat l' := by
  induction l with
  | nil => simp [leNat]
  | cons b l ih =>
    rw [List.cons_append, leNat, ih, leNat, List.length_cons, Nat.pow_succ', Nat.mul_add, Nat.add_assoc, Nat.mul_assoc]

theorem leBytes_leNat (l : List UInt8) : leBytes l.length (leNat l) = l := by
  induction l with
  | nil => rfl
  | cons b l ih =>
    have hb := b.toNat_lt
    have hhead : UInt8.ofNat (b.toNat + 256 * leNat l) = b := UInt8.toNat_inj.mp (by rw [UInt8.toNat_ofNat']; omega)
    have htail : (b.toNat + 256 * leNat l) / 256 = leNat l := by omega
    rw [leNat, List.length_cons, leBytes, hhead, htail, ih]

theorem leNat_lt (l : List UInt8) : leNat l < 256 ^ l.length := by
  induction l with
  | nil => simp [leNat]
  | cons b l ih =>
    have hb := b.toNat_lt
    rw [leNat, List.length_cons, Nat.pow_succ]
    omega

/-- A number that is read from one place and written to another is a copy of its bytes. -/
theorem setNat_getNat (f g : ℕ → UInt8) (a b n : ℕ) : setNat f a n (getNat g b n) = store f a (load g b n) := by
  have h := leBytes_leNat (load g b n)
  rw [length_load] at h
  rw [setNat, getNat, h]

/-- Outside the number, nothing changes. -/
theorem setNat_outside (f : ℕ → UInt8) {a n i : ℕ} (v : ℕ) (h : i < a ∨ a + n ≤ i) : setNat f a n v i = f i :=
  store_outside f a _ (by rwa [length_leBytes])

theorem getNat_congr {f g : ℕ → UInt8} {a n : ℕ} (h : ∀ i < n, f (a + i) = g (a + i)) : getNat f a n = getNat g a n :=
  congrArg leNat (load_congr h)

/-! ### Layouts -/

/-- Where the rings of a virtqueue are. -/
structure Layout where
  /-- How many slots the rings have. -/
  num : ℕ
  /-- Where the available ring is. -/
  avail : ℕ
  /-- Where the used ring is. -/
  used : ℕ
  deriving DecidableEq

/-- The parts do not overlap. -/
structure Layout.Wf (L : Layout) : Prop where
  /-- There is a slot. -/
  pos : 0 < L.num
  /-- The available ring comes after the descriptors. -/
  avail : 16 * L.num ≤ L.avail
  /-- The used ring comes after the available ring. -/
  used : L.avail + 4 + 2 * L.num ≤ L.used

/-- The bytes of a virtqueue, and what the device keeps for itself. -/
structure ByteQueue where
  /-- The bytes. -/
  bytes : ℕ → UInt8
  /-- How far the device has taken from the available ring. -/
  lastAvail : ℕ
  /-- The descriptors the device holds. -/
  held : List ℕ

namespace ByteQueue

open Virtqueue (QOp idxMod)

/-- A queue that has been zeroed, before the device has taken anything. -/
def zero : ByteQueue := ⟨fun _ => 0, 0, []⟩

variable (L : Layout) (f : ℕ → UInt8)

/-- An entry of the descriptor table. -/
def descAt (i : ℕ) : VDesc :=
  ⟨getNat f (16 * i) 8, getNat f (16 * i + 8) 4, getNat f (16 * i + 12) 2, getNat f (16 * i + 14) 2⟩

/-- The index of the available ring. -/
def availIdx : ℕ := getNat f (L.avail + 2) 2

/-- A slot of the available ring. -/
def availAt (slot : ℕ) : ℕ := getNat f (L.avail + 4 + 2 * slot) 2

/-- The index of the used ring. -/
def usedIdx : ℕ := getNat f (L.used + 2) 2

/-- An entry of the used ring. -/
def usedAt (slot : ℕ) : VUsed := ⟨getNat f (L.used + 4 + 8 * slot) 4, getNat f (L.used + 4 + 8 * slot + 4) 4⟩

/-- The bytes with an entry of the descriptor table. -/
def setDesc (i : ℕ) (d : VDesc) : ℕ → UInt8 :=
  setNat (setNat (setNat (setNat f (16 * i) 8 d.addr) (16 * i + 8) 4 d.len) (16 * i + 12) 2 d.flags) (16 * i + 14) 2
    d.next

/-- The bytes with an entry of the used ring. -/
def setUsed (slot : ℕ) (e : VUsed) : ℕ → UInt8 :=
  setNat (setNat f (L.used + 4 + 8 * slot) 4 e.id) (L.used + 4 + 8 * slot + 4) 4 e.len

/-- An access of the driver. -/
def exec : (o : QOp) → ByteQueue → o.Ans × ByteQueue
  | .usedIdx, b => (usedIdx L b.bytes, b)
  | .used slot, b => (usedAt L b.bytes slot, b)
  | .availIdx, b => (availIdx L b.bytes, b)
  | .writeDesc i d, b => ((), { b with bytes := setDesc b.bytes i d })
  | .writeAvail slot d, b => ((), { b with bytes := setNat b.bytes (L.avail + 4 + 2 * slot) 2 d })
  | .writeAvailIdx i, b => ((), { b with bytes := setNat b.bytes (L.avail + 2) 2 i })

/-- The device takes the next descriptor from the available ring. -/
def take (b : ByteQueue) : Option ByteQueue :=
  if b.lastAvail = availIdx L b.bytes then none
  else some { b with lastAvail := (b.lastAvail + 1) % idxMod
                     held := b.held ++ [availAt L b.bytes (b.lastAvail % L.num)] }

/-- The device returns descriptor `id`, having written `len` bytes. -/
def complete (b : ByteQueue) (id len : ℕ) : Option ByteQueue :=
  if id ∈ b.held then
    some { b with held := b.held.erase id
                  bytes := setNat (setUsed L b.bytes (usedIdx L b.bytes % L.num) ⟨id, len⟩) (L.used + 2) 2
                    ((usedIdx L b.bytes + 1) % idxMod) }
  else none

variable {L f}

theorem getNat_setDesc_outside {i b m : ℕ} (d : VDesc) (h : b + m ≤ 16 * i ∨ 16 * i + 16 ≤ b) :
    getNat (setDesc f i d) b m = getNat f b m := by
  simp (disch := omega) only [setDesc, getNat_setNat_outside]

theorem descAt_setDesc {i : ℕ} {d : VDesc} (h₁ : d.addr < 2 ^ 64) (h₂ : d.len < 2 ^ 32) (h₃ : d.flags < 2 ^ 16)
    (h₄ : d.next < 2 ^ 16) : descAt (setDesc f i d) i = d := by
  simp (disch := omega) only [descAt, setDesc, getNat_setNat, getNat_setNat_outside]

theorem descAt_setNat {i a n : ℕ} (v : ℕ) (h : a + n ≤ 16 * i ∨ 16 * i + 16 ≤ a) :
    descAt (setNat f a n v) i = descAt f i := by
  simp (disch := omega) only [descAt, getNat_setNat_outside]

theorem usedAt_setNat {slot a n : ℕ} (v : ℕ) (h : a + n ≤ L.used + 4 + 8 * slot ∨ L.used + 4 + 8 * slot + 8 ≤ a) :
    usedAt L (setNat f a n v) slot = usedAt L f slot := by
  simp (disch := omega) only [usedAt, getNat_setNat_outside]

theorem getNat_setUsed_outside {slot b m : ℕ} (e : VUsed)
    (h : b + m ≤ L.used + 4 + 8 * slot ∨ L.used + 4 + 8 * slot + 8 ≤ b) :
    getNat (setUsed L f slot e) b m = getNat f b m := by
  simp (disch := omega) only [setUsed, getNat_setNat_outside]

theorem usedAt_setUsed {slot : ℕ} {e : VUsed} (h₁ : e.id < 2 ^ 32) (h₂ : e.len < 2 ^ 32) :
    usedAt L (setUsed L f slot e) slot = e := by
  simp (disch := omega) only [usedAt, setUsed, getNat_setNat, getNat_setNat_outside]

/-! ### The queue that is shown -/

/-- **The bytes are the queue**, seen through the layout. -/
structure Shows (L : Layout) (b : ByteQueue) (q : Virtqueue) : Prop where
  desc : ∀ i < L.num, descAt b.bytes i = q.desc i
  availIdx : availIdx L b.bytes = q.availIdx
  avail : ∀ slot < L.num, availAt L b.bytes slot = q.avail slot
  usedIdx : usedIdx L b.bytes = q.usedIdx
  used : ∀ slot < L.num, usedAt L b.bytes slot = q.used slot
  lastAvail : b.lastAvail = q.lastAvail
  held : b.held = q.held

/-- The access is to what is there in a queue with `n` slots, and what it writes fits. -/
def InRange (n : ℕ) : QOp → Prop
  | .used slot => slot < n
  | .writeDesc i d => i < n ∧ d.addr < 2 ^ 64 ∧ d.len < 2 ^ 32 ∧ d.flags < 2 ^ 16 ∧ d.next < 2 ^ 16
  | .writeAvail slot d => slot < n ∧ d < 2 ^ 16
  | .writeAvailIdx i => i < 2 ^ 16
  | .usedIdx | .availIdx => True

theorem shows_zero (L : Layout) : Shows L zero Virtqueue.zero := by
  constructor <;> intros <;>
    simp [zero, Virtqueue.zero, descAt, ByteQueue.availIdx, availAt, ByteQueue.usedIdx, usedAt, getNat_zero]

variable {b : ByteQueue} {q : Virtqueue}

namespace Shows

variable (hL : L.Wf) (h : Shows L b q)

include hL h

theorem writeDesc {i : ℕ} {d : VDesc} (ho : InRange L.num (.writeDesc i d)) :
    Shows L { b with bytes := setDesc b.bytes i d } (q.writeDesc i d) := by
  have ha := hL.avail
  have hu := hL.used
  obtain ⟨hi, h₁, h₂, h₃, h₄⟩ := ho
  refine ⟨fun k hk => ?_, ?_, fun slot hs => ?_, ?_, fun slot hs => ?_, h.lastAvail, h.held⟩
  · by_cases hki : k = i
    · subst hki
      rw [descAt_setDesc h₁ h₂ h₃ h₄]
      simp [Virtqueue.writeDesc]
    · simp only [Virtqueue.writeDesc, Function.update_of_ne hki]
      rw [← h.desc k hk]
      simp (disch := omega) only [descAt, getNat_setDesc_outside]
  · exact (getNat_setDesc_outside d (by omega)).trans h.availIdx
  · exact (getNat_setDesc_outside d (by omega)).trans (h.avail slot hs)
  · exact (getNat_setDesc_outside d (by omega)).trans h.usedIdx
  · refine Eq.trans ?_ (h.used slot hs)
    simp (disch := omega) only [usedAt, getNat_setDesc_outside]

theorem writeAvail {slot d : ℕ} (ho : InRange L.num (.writeAvail slot d)) :
    Shows L { b with bytes := setNat b.bytes (L.avail + 4 + 2 * slot) 2 d } (q.writeAvail slot d) := by
  have ha := hL.avail
  have hu := hL.used
  obtain ⟨hslot, hd⟩ := ho
  refine ⟨fun k hk => ?_, ?_, fun k hk => ?_, ?_, fun k hk => ?_, h.lastAvail, h.held⟩
  · exact (descAt_setNat _ (by omega)).trans (h.desc k hk)
  · exact (getNat_setNat_outside b.bytes d (by omega)).trans h.availIdx
  · by_cases hks : k = slot
    · subst hks
      rw [availAt, getNat_setNat b.bytes _ hd]
      simp [Virtqueue.writeAvail]
    · rw [availAt, getNat_setNat_outside b.bytes d (by omega)]
      simp only [Virtqueue.writeAvail, Function.update_of_ne hks]
      exact h.avail k hk
  · exact (getNat_setNat_outside b.bytes d (by omega)).trans h.usedIdx
  · exact (usedAt_setNat _ (by omega)).trans (h.used k hk)

theorem writeAvailIdx {i : ℕ} (ho : InRange L.num (.writeAvailIdx i)) :
    Shows L { b with bytes := setNat b.bytes (L.avail + 2) 2 i } (q.writeAvailIdx i) := by
  have ha := hL.avail
  have hu := hL.used
  refine ⟨fun k hk => ?_, getNat_setNat b.bytes _ ho, fun k hk => ?_, ?_, fun k hk => ?_, h.lastAvail, h.held⟩
  · exact (descAt_setNat _ (by omega)).trans (h.desc k hk)
  · exact (getNat_setNat_outside b.bytes i (by omega)).trans (h.avail k hk)
  · exact (getNat_setNat_outside b.bytes i (by omega)).trans h.usedIdx
  · exact (usedAt_setNat _ (by omega)).trans (h.used k hk)

/-- An access answers the same, and leads to the same queue. -/
theorem exec {o : QOp} (ho : InRange L.num o) :
    (ByteQueue.exec L o b).1 = (o.exec q).1 ∧ Shows L (ByteQueue.exec L o b).2 (o.exec q).2 := by
  cases o with
  | usedIdx => exact ⟨h.usedIdx, h⟩
  | used slot => exact ⟨h.used slot ho, h⟩
  | availIdx => exact ⟨h.availIdx, h⟩
  | writeDesc i d => exact ⟨rfl, h.writeDesc hL ho⟩
  | writeAvail slot d => exact ⟨rfl, h.writeAvail hL ho⟩
  | writeAvailIdx i => exact ⟨rfl, h.writeAvailIdx hL ho⟩

/-- The device takes a descriptor from the queue. -/
theorem take : Option.Rel (Shows L) (ByteQueue.take L b) (q.take L.num) := by
  have hslot : b.lastAvail % L.num < L.num := Nat.mod_lt _ hL.pos
  rw [ByteQueue.take, Virtqueue.take, h.availIdx, h.avail _ hslot, h.lastAvail, h.held]
  split_ifs
  · exact .none
  · exact .some ⟨h.desc, h.availIdx, h.avail, h.usedIdx, h.used, rfl, rfl⟩

/-- The device returns a descriptor to the queue. -/
theorem complete {id len : ℕ} (hid : id < 2 ^ 32) (hlen : len < 2 ^ 32) :
    Option.Rel (Shows L) (ByteQueue.complete L b id len) (q.complete L.num id len) := by
  have ha := hL.avail
  have hu := hL.used
  have hslot : q.usedIdx % L.num < L.num := Nat.mod_lt _ hL.pos
  rw [ByteQueue.complete, Virtqueue.complete, h.usedIdx, h.held]
  split_ifs
  swap
  · exact .none
  refine .some ⟨fun k hk => ?_, ?_, fun k hk => ?_, ?_, fun k hk => ?_, h.lastAvail, rfl⟩
  · rw [descAt_setNat _ (by omega), ← h.desc k hk]
    simp (disch := omega) only [descAt, getNat_setUsed_outside]
  · rw [ByteQueue.availIdx, getNat_setNat_outside _ _ (by omega), getNat_setUsed_outside _ (by omega)]
    exact h.availIdx
  · rw [availAt, getNat_setNat_outside _ _ (by omega), getNat_setUsed_outside _ (by omega)]
    exact h.avail k hk
  · exact getNat_setNat _ _ (Virtqueue.mod_idxMod_lt _)
  · rw [usedAt_setNat _ (by omega)]
    by_cases hks : k = q.usedIdx % L.num
    · subst hks
      rw [usedAt_setUsed hid hlen]
      simp only [Function.update_self]
    · refine Eq.trans ?_ ((h.used k hk).trans (Function.update_of_ne hks _ _).symm)
      simp (disch := omega) only [usedAt, getNat_setUsed_outside]

end Shows

/-! ### Runs -/

/-- A step of a run. -/
inductive Move where
  /-- The driver makes an access. -/
  | driver (o : QOp)
  /-- The device takes a descriptor. -/
  | take
  /-- The device returns a descriptor. -/
  | complete (id len : ℕ)

/-- What is written fits. -/
def Move.InRange (n : ℕ) : Move → Prop
  | .driver o => ByteQueue.InRange n o
  | .take => True
  | .complete id len => id < 2 ^ 32 ∧ len < 2 ^ 32

/-- A step on the bytes, by the layouts of the driver and of the device. -/
def step (driver device : Layout) (b : ByteQueue) : Move → Option ByteQueue
  | .driver o => some (exec driver o b).2
  | .take => take device b
  | .complete id len => complete device b id len

/-- The same step on a queue of `n` slots. -/
def queueStep (n : ℕ) (q : Virtqueue) : Move → Option Virtqueue
  | .driver o => some (o.exec q).2
  | .take => q.take n
  | .complete id len => q.complete n id len

/-- **The driver and the device share a queue**: every run on the bytes is the run of one
queue, and that is the queue which each of them sees in the bytes, through its own layout. -/
def RunsAgree (driver device : Layout) : Prop :=
  ∀ moves : List Move, (∀ m ∈ moves, m.InRange driver.num) →
    Option.Rel (fun b q => Shows driver b q ∧ Shows device b q)
      (moves.foldlM (step driver device) zero) (moves.foldlM (queueStep driver.num) Virtqueue.zero)

theorem Shows.step (hL : L.Wf) (h : Shows L b q) {m : Move} (hm : m.InRange L.num) :
    Option.Rel (Shows L) (ByteQueue.step L L b m) (queueStep L.num q m) := by
  cases m with
  | driver o => exact .some (h.exec hL hm).2
  | take => exact h.take hL
  | complete id len => exact h.complete hL hm.1 hm.2

theorem Shows.run (hL : L.Wf) (h : Shows L b q) {moves : List Move} (hmoves : ∀ m ∈ moves, m.InRange L.num) :
    Option.Rel (Shows L) (moves.foldlM (ByteQueue.step L L) b) (moves.foldlM (queueStep L.num) q) := by
  induction moves generalizing b q with
  | nil => exact .some h
  | cons m moves ih =>
    have hstep := h.step hL (hmoves m (by simp))
    rw [List.foldlM_cons, List.foldlM_cons]
    generalize ByteQueue.step L L b m = x at hstep ⊢
    generalize queueStep L.num q m = y at hstep ⊢
    cases hstep with
    | none => exact .none
    | some h' => exact ih h' fun m hm => hmoves m (by simp [hm])

/-- With one layout, they do. -/
theorem runsAgree (hL : L.Wf) : RunsAgree L L := by
  intro moves hmoves
  have hrun := (shows_zero L).run hL hmoves
  generalize moves.foldlM (ByteQueue.step L L) zero = x at hrun ⊢
  generalize moves.foldlM (queueStep L.num) Virtqueue.zero = y at hrun ⊢
  cases hrun with
  | none => exact .none
  | some h => exact .some ⟨h, h⟩

/-- With the available rings in different places, they do not: the index that the driver writes
is not the one that the device reads. -/
theorem not_runsAgree {driver device : Layout}
    (h : device.avail + 2 ≤ driver.avail ∨ driver.avail + 2 ≤ device.avail) : ¬ RunsAgree driver device := by
  intro hruns
  have hrun := hruns [.driver (.writeAvailIdx 1)] (by simp [Move.InRange, InRange])
  obtain ⟨-, hdevice⟩ : Shows driver (exec driver (.writeAvailIdx 1) zero).2 (QOp.exec (.writeAvailIdx 1) .zero).2 ∧
      Shows device (exec driver (.writeAvailIdx 1) zero).2 (QOp.exec (.writeAvailIdx 1) .zero).2 := by
    cases hrun with
    | some h => exact h
  have hidx : getNat (setNat (fun _ => 0) (driver.avail + 2) 2 1) (device.avail + 2) 2 = 1 := hdevice.availIdx
  rw [getNat_setNat_outside _ _ (by omega), getNat_zero] at hidx
  exact absurd hidx (by decide)

end ByteQueue

end Yasouos.Theory
