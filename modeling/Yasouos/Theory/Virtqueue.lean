import Yasouos.Theory.Ring
import Mathlib.Data.List.Perm.Basic
import Mathlib.Data.Finset.Card
import Mathlib.Data.Finset.Range

/-!
# Split virtqueues

A split virtqueue of `N` entries is three areas of memory that a driver and a
device share: a table of descriptors; the *available* ring, where the driver
publishes descriptors for the device; and the *used* ring, where the device
returns them. Both rings have a free-running 16-bit index. The device keeps for
itself how far it has got in the available ring and which descriptors it holds;
the driver keeps for itself how far it has got in the used ring.

## The model

`Virtqueue` has the shared areas and the device's own state. A conforming device
has two moves: it takes the next descriptor from the available ring (`take`), and
it returns one that it holds, any one, through the used ring (`complete`). The
driver's index into the used ring is an argument, `last`, since it is not in the
queue.

## What is proved

The queue is abstracted to three lists: the descriptors published and not yet
taken (`pending`), those the device holds (`held`), and the entries of the used
ring not yet consumed (`completed`). `take_spec`, `complete_spec`, `consume_spec`,
`writeAvail_spec` and `bumpAvail_spec` say what each move does to the lists.
`Owned` says that no descriptor is in two places, and that all are below `K`, the
number of descriptors the driver uses; every move keeps it, and while it holds
neither ring ever overflows.
-/

namespace Yasouos.Theory

/-- An entry of the descriptor table. -/
structure VDesc where
  /-- Where the buffer is. -/
  addr : ℕ
  /-- Its length. -/
  len : ℕ
  /-- The descriptor's flags. -/
  flags : ℕ
  /-- The next descriptor of a chain. -/
  next : ℕ
  deriving DecidableEq

/-- An entry of the used ring. -/
structure VUsed where
  /-- The descriptor that is returned. -/
  id : ℕ
  /-- How many bytes the device has written. -/
  len : ℕ
  deriving DecidableEq

/-- A split virtqueue, and the state of the device. -/
structure Virtqueue where
  /-- The descriptor table. -/
  desc : ℕ → VDesc
  /-- The index of the available ring. -/
  availIdx : ℕ
  /-- The available ring. -/
  avail : ℕ → ℕ
  /-- The index of the used ring. -/
  usedIdx : ℕ
  /-- The used ring. -/
  used : ℕ → VUsed
  /-- The device's own: how far it has taken from the available ring. -/
  lastAvail : ℕ
  /-- The device's own: the descriptors it holds. -/
  held : List ℕ

namespace Virtqueue

/-- A queue that has been zeroed, before the device has taken anything. -/
def zero : Virtqueue := ⟨fun _ => ⟨0, 0, 0, 0⟩, 0, fun _ => 0, 0, fun _ => ⟨0, 0⟩, 0, []⟩

/-- The indices are 16 bits wide. -/
abbrev idxMod : ℕ := 65536

variable (N : ℕ)

/-- The device takes the next descriptor from the available ring. -/
def take (q : Virtqueue) : Option Virtqueue :=
  if q.lastAvail = q.availIdx then none
  else some { q with lastAvail := (q.lastAvail + 1) % idxMod, held := q.held ++ [q.avail (q.lastAvail % N)] }

/-- The device returns descriptor `id`, having written `len` bytes. -/
def complete (q : Virtqueue) (id len : ℕ) : Option Virtqueue :=
  if id ∈ q.held then
    some { q with held := q.held.erase id, used := Function.update q.used (q.usedIdx % N) ⟨id, len⟩,
                  usedIdx := (q.usedIdx + 1) % idxMod }
  else none

/-- The driver writes a slot of the available ring. -/
def writeAvail (q : Virtqueue) (slot d : ℕ) : Virtqueue := { q with avail := Function.update q.avail slot d }

/-- The driver writes the index of the available ring. -/
def writeAvailIdx (q : Virtqueue) (i : ℕ) : Virtqueue := { q with availIdx := i }

/-- The driver writes an entry of the descriptor table. -/
def writeDesc (q : Virtqueue) (i : ℕ) (d : VDesc) : Virtqueue := { q with desc := Function.update q.desc i d }

/-- A driver's access to the queue. -/
inductive QOp where
  /-- Read the index of the used ring. -/
  | usedIdx
  /-- Read an entry of the used ring. -/
  | used (slot : ℕ)
  /-- Read the index of the available ring. -/
  | availIdx
  /-- Write an entry of the descriptor table. -/
  | writeDesc (i : ℕ) (d : VDesc)
  /-- Write a slot of the available ring. -/
  | writeAvail (slot d : ℕ)
  /-- Write the index of the available ring. -/
  | writeAvailIdx (i : ℕ)

/-- What an access answers. -/
def QOp.Ans : QOp → Type
  | usedIdx | availIdx => ℕ
  | used _ => VUsed
  | writeDesc _ _ | writeAvail _ _ | writeAvailIdx _ => Unit

/-- What an access does. -/
def QOp.exec : (o : QOp) → Virtqueue → o.Ans × Virtqueue
  | usedIdx, q => (q.usedIdx, q)
  | used slot, q => (q.used slot, q)
  | availIdx, q => (q.availIdx, q)
  | writeDesc i d, q => ((), q.writeDesc i d)
  | writeAvail slot d, q => ((), q.writeAvail slot d)
  | writeAvailIdx i, q => ((), q.writeAvailIdx i)

/-! ### The lists -/

/-- The descriptors published in the available ring and not yet taken. -/
def pending (q : Virtqueue) : List ℕ := window idxMod N q.avail q.lastAvail q.availIdx

/-- The entries of the used ring that a driver at index `last` has not yet consumed. -/
def completed (q : Virtqueue) (last : ℕ) : List VUsed := window idxMod N q.used last q.usedIdx

/-- The descriptors that are in one of the three places: published and not taken,
held by the device, returned and not consumed. -/
def flight (q : Virtqueue) (last : ℕ) : List ℕ :=
  q.pending N ++ (q.held ++ (q.completed N last).map VUsed.id)

/-- No descriptor is in two places, all are below `K`, and the indices are 16 bits
wide. -/
structure Owned (K : ℕ) (q : Virtqueue) (last : ℕ) : Prop where
  lastAvail_lt : q.lastAvail < idxMod
  availIdx_lt : q.availIdx < idxMod
  usedIdx_lt : q.usedIdx < idxMod
  last_lt : last < idxMod
  nodup : (q.flight N last).Nodup
  lt : ∀ d ∈ q.flight N last, d < K

/-- The first of `K` descriptors that is not marked. -/
def firstFree (K : ℕ) (inUse : ℕ → Bool) : Option ℕ := (List.range K).find? fun i => !inUse i

theorem firstFree_none {K : ℕ} {inUse : ℕ → Bool} (h : firstFree K inUse = none) : ∀ i < K, inUse i = true := by
  intro i hi
  simpa using List.find?_eq_none.mp h i (List.mem_range.mpr hi)

theorem firstFree_some {K d : ℕ} {inUse : ℕ → Bool} (h : firstFree K inUse = some d) : d < K ∧ inUse d = false := by
  refine ⟨List.mem_range.mp (List.mem_of_find?_eq_some h), ?_⟩
  simpa using List.find?_some h

variable {N} {K : ℕ} {q q' : Virtqueue} {last : ℕ}

/-- What the device does not write, it does not change. -/
theorem take_frame (h : q.take N = some q') : q'.desc = q.desc ∧ q'.avail = q.avail ∧ q'.availIdx = q.availIdx ∧
    q'.used = q.used ∧ q'.usedIdx = q.usedIdx := by
  simp only [take] at h
  split_ifs at h
  cases h
  exact ⟨rfl, rfl, rfl, rfl, rfl⟩

theorem complete_frame {id len : ℕ} (h : q.complete N id len = some q') :
    q'.desc = q.desc ∧ q'.avail = q.avail ∧ q'.availIdx = q.availIdx ∧ q'.lastAvail = q.lastAvail := by
  simp only [complete] at h
  split_ifs at h
  cases h
  exact ⟨rfl, rfl, rfl, rfl⟩

/-! ### Bounds -/

/-- Distinct descriptors below `K` are at most `K`, and fewer if one is missing. -/
theorem length_le_of_nodup {l : List ℕ} (hl : l.Nodup) (hlt : ∀ d ∈ l, d < K) : l.length ≤ K := by
  rw [← List.toFinset_card_of_nodup hl, ← Finset.card_range K]
  refine Finset.card_le_card fun d hd => ?_
  exact Finset.mem_range.mpr (hlt d (List.mem_toFinset.mp hd))

theorem length_lt_of_nodup {l : List ℕ} (hl : l.Nodup) (hlt : ∀ d ∈ l, d < K) {d : ℕ} (hd : d < K) (hn : d ∉ l) :
    l.length < K := by
  have h : (d :: l).length ≤ K :=
    length_le_of_nodup (List.nodup_cons.mpr ⟨hn, hl⟩) (by simpa using ⟨hd, hlt⟩)
  rwa [List.length_cons] at h

theorem length_flight (q : Virtqueue) (last : ℕ) :
    (q.flight N last).length = ringDist idxMod q.lastAvail q.availIdx + (q.held.length + ringDist idxMod last q.usedIdx) := by
  simp [flight, pending, completed]

theorem Owned.length_le (h : Owned N K q last) : (q.flight N last).length ≤ K := length_le_of_nodup h.nodup h.lt

theorem Owned.length_lt (h : Owned N K q last) {d : ℕ} (hd : d < K) (hn : d ∉ q.flight N last) :
    (q.flight N last).length < K := length_lt_of_nodup h.nodup h.lt hd hn

/-- `Owned` only depends on which descriptors are in flight. -/
theorem Owned.of_perm (h : Owned N K q last) {last' : ℕ} (hp : (q'.flight N last').Perm (q.flight N last))
    (h₁ : q'.lastAvail < idxMod) (h₂ : q'.availIdx < idxMod) (h₃ : q'.usedIdx < idxMod) (h₄ : last' < idxMod) :
    Owned N K q' last' :=
  ⟨h₁, h₂, h₃, h₄, hp.nodup_iff.mpr h.nodup, fun d hd => h.lt d (hp.mem_iff.mp hd)⟩

theorem mod_idxMod_lt (i : ℕ) : i % idxMod < idxMod := Nat.mod_lt _ (by decide)

/-! ### The moves of the device -/

section

variable (hN : N ∣ idxMod) (hK : K ≤ N) (hM : N < idxMod)

include hN

/-- The device takes the oldest published descriptor. -/
theorem take_spec (h₁ : q.lastAvail < idxMod) (h₂ : q.availIdx < idxMod) (h : q.take N = some q') :
    ∃ d, q.pending N = d :: q'.pending N ∧ q'.held = q.held ++ [d] ∧ ∀ l, q'.completed N l = q.completed N l := by
  simp only [take] at h
  split_ifs at h with hne
  cases h
  exact ⟨_, window_pop hN q.avail h₁ h₂ hne, rfl, fun _ => rfl⟩

theorem take_flight (ho : Owned N K q last) (h : q.take N = some q') :
    (q'.flight N last).Perm (q.flight N last) := by
  obtain ⟨d, hp, hh, hc⟩ := take_spec hN ho.lastAvail_lt ho.availIdx_lt h
  unfold flight
  rw [hp, hh, hc, List.append_assoc, List.singleton_append, List.cons_append]
  exact ((List.perm_middle.append_left _).trans List.perm_middle)

theorem take_owned (ho : Owned N K q last) (h : q.take N = some q') : Owned N K q' last := by
  refine ho.of_perm (take_flight hN ho h) ?_ ?_ ?_ ho.last_lt
  · simp only [take] at h
    split_ifs at h
    cases h
    exact mod_idxMod_lt _
  · rw [(take_frame h).2.2.1]; exact ho.availIdx_lt
  · rw [(take_frame h).2.2.2.2]; exact ho.usedIdx_lt

include hK hM

/-- The device returns a descriptor it holds: a new entry, after those not yet
consumed. -/
theorem complete_spec (ho : Owned N K q last) {id len : ℕ} (h : q.complete N id len = some q') :
    id ∈ q.held ∧ q'.held = q.held.erase id ∧ q'.pending N = q.pending N ∧
      q'.completed N last = q.completed N last ++ [⟨id, len⟩] := by
  simp only [complete] at h
  split_ifs at h with hid
  cases h
  have hroom : ringDist idxMod last q.usedIdx < N := by
    have h₁ := ho.length_le
    rw [length_flight] at h₁
    have h₂ := List.length_pos_of_mem hid
    omega
  exact ⟨hid, rfl, rfl, window_push hN q.used _ ho.last_lt ho.usedIdx_lt hroom (by omega)⟩

theorem complete_flight (ho : Owned N K q last) {id len : ℕ} (h : q.complete N id len = some q') :
    (q'.flight N last).Perm (q.flight N last) := by
  obtain ⟨hid, hh, hp, hc⟩ := complete_spec hN hK hM ho h
  unfold flight
  rw [hh, hp, hc, List.map_append, List.map_singleton]
  refine List.Perm.append_left _ ?_
  refine List.perm_append_comm_assoc _ _ _ |>.trans ?_
  refine (List.Perm.append_left _ ?_).trans List.perm_append_comm
  exact (List.perm_append_singleton _ _).trans (List.perm_cons_erase hid).symm

theorem complete_owned (ho : Owned N K q last) {id len : ℕ} (h : q.complete N id len = some q') :
    Owned N K q' last := by
  obtain ⟨-, -, hf, hl⟩ := complete_frame h
  refine ho.of_perm (complete_flight hN hK hM ho h) ?_ ?_ ?_ ho.last_lt
  · rw [hl]; exact ho.lastAvail_lt
  · rw [hf]; exact ho.availIdx_lt
  · simp only [complete] at h
    split_ifs at h
    cases h
    exact mod_idxMod_lt _

omit hK hM

/-! ### The moves of the driver -/

/-- The driver consumes the oldest entry of the used ring, which is in its slot. -/
theorem consume_spec (ho : Owned N K q last) (hne : last ≠ q.usedIdx) :
    q.completed N last = q.used (last % N) :: q.completed N ((last + 1) % idxMod) :=
  window_pop hN q.used ho.last_lt ho.usedIdx_lt hne

theorem consume_flight (ho : Owned N K q last) (hne : last ≠ q.usedIdx) :
    (q.flight N last).Perm ((q.used (last % N)).id :: q.flight N ((last + 1) % idxMod)) := by
  unfold flight
  rw [consume_spec hN ho hne, List.map_cons]
  exact (List.perm_middle.append_left _).trans List.perm_middle

/-- After consuming, the descriptor is the driver's: it is in flight no more. -/
theorem consume_owned (ho : Owned N K q last) (hne : last ≠ q.usedIdx) :
    Owned N K q ((last + 1) % idxMod) ∧ (q.used (last % N)).id < K ∧
      (q.used (last % N)).id ∉ q.flight N ((last + 1) % idxMod) := by
  have hp := consume_flight hN ho hne
  have hnd := List.nodup_cons.mp (hp.nodup_iff.mp ho.nodup)
  refine ⟨⟨ho.lastAvail_lt, ho.availIdx_lt, ho.usedIdx_lt, mod_idxMod_lt _, hnd.2, fun d hd => ?_⟩, ?_, hnd.1⟩
  · exact ho.lt d (hp.mem_iff.mpr (List.mem_cons_of_mem _ hd))
  · exact ho.lt _ (hp.mem_iff.mpr List.mem_cons_self)

include hK

omit hN in
/-- While a descriptor is the driver's, there is room in the available ring. -/
theorem Owned.room (ho : Owned N K q last) {d : ℕ} (hd : d < K) (hn : d ∉ q.flight N last) :
    ringDist idxMod q.lastAvail q.availIdx < N := by
  have h := ho.length_lt hd hn
  rw [length_flight] at h
  omega

/-- The slot the driver writes holds nothing that the device has yet to take. -/
theorem Owned.slot_free (ho : Owned N K q last) {d : ℕ} (hd : d < K) (hn : d ∉ q.flight N last) :
    ∀ k < ringDist idxMod q.lastAvail q.availIdx, (q.lastAvail + k) % N ≠ q.availIdx % N :=
  Theory.slot_free hN ho.lastAvail_lt ho.availIdx_lt (ho.room hK hd hn)

/-- Writing its slot publishes nothing yet. -/
theorem writeAvail_flight (ho : Owned N K q last) {d : ℕ} (hd : d < K) (hn : d ∉ q.flight N last) (x : ℕ) :
    (q.writeAvail (q.availIdx % N) x).flight N last = q.flight N last := by
  have hr := ho.room hK hd hn
  have h : (q.writeAvail (q.availIdx % N) x).pending N = q.pending N :=
    window_write hN q.avail x ho.lastAvail_lt ho.availIdx_lt hr
  unfold flight
  rw [h]
  rfl

include hM

/-- Advancing the index publishes what the slot holds. -/
theorem bumpAvail_spec (ho : Owned N K q last) {d : ℕ} (hd : d < K) (hn : d ∉ q.flight N last) :
    (q.writeAvailIdx ((q.availIdx + 1) % idxMod)).pending N = q.pending N ++ [q.avail (q.availIdx % N)] := by
  have hr : ringDist idxMod q.lastAvail q.availIdx + 1 < idxMod := by
    have := ho.room hK hd hn
    omega
  exact window_advance hN q.avail ho.lastAvail_lt ho.availIdx_lt hr

theorem bumpAvail_flight (ho : Owned N K q last) {d : ℕ} (hd : d < K) (hn : d ∉ q.flight N last)
    (hs : q.avail (q.availIdx % N) = d) :
    ((q.writeAvailIdx ((q.availIdx + 1) % idxMod)).flight N last).Perm (d :: q.flight N last) := by
  unfold flight
  rw [bumpAvail_spec hN hK hM ho hd hn, hs, List.append_assoc, List.singleton_append]
  exact List.perm_middle

theorem bumpAvail_owned (ho : Owned N K q last) {d : ℕ} (hd : d < K) (hn : d ∉ q.flight N last)
    (hs : q.avail (q.availIdx % N) = d) : Owned N K (q.writeAvailIdx ((q.availIdx + 1) % idxMod)) last := by
  have hp := bumpAvail_flight hN hK hM ho hd hn hs
  refine ⟨ho.lastAvail_lt, mod_idxMod_lt _, ho.usedIdx_lt, ho.last_lt, ?_, fun x hx => ?_⟩
  · exact hp.nodup_iff.mpr (List.nodup_cons.mpr ⟨hn, ho.nodup⟩)
  · rcases List.mem_cons.mp (hp.mem_iff.mp hx) with rfl | hx
    · exact hd
    · exact ho.lt x hx

end

end Virtqueue

end Yasouos.Theory
