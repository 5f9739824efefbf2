import Yasouos.Drivers.VirtioNet

/-!
# Transmitting on virtio-net

What `virtio_net_transmit` does over whole runs, against a conforming device that
takes descriptors in order and returns them in any order, whenever it likes.

The driver keeps in `tx_desc_in_use` which of the 16 descriptors it has given away.
`transmit_owned` says that it is right about this between calls, however far the
16-bit indices have gone round; that it never publishes a descriptor that is in
flight, nor writes a slot of the available ring that the device has yet to read; and
that a call with a valid length that fails does so because, after reclaiming, all 16
descriptors are still in flight.

Reclaiming reads the index of the used ring once and consumes up to it. The device may
return more descriptors meanwhile: these stay in flight until the next call, and
`Ahead` is what survives of the index that was read.
-/

namespace Yasouos.Drivers.VirtioNet

open Theory Prog Virtqueue

variable {arch : Arch} {tr : Transport} {minLen : ℕ} {ctx : Ctx} {s s' : Mem}

/-! ### The invariant -/

/-- **The transmit queue.** No descriptor is in two places, and those in flight and
those in `hand` are the ones marked in use. -/
structure TxCore (tr : Transport) (hand : List ℕ) (ctx : Ctx) (s : Mem) : Prop where
  owned : Owned (ringSize tr) queueSize s.txq ctx.txLastUsedIdx
  inUse : ∀ i < queueSize, ctx.txDescInUse i = true ↔
    i ∈ s.txq.flight (ringSize tr) ctx.txLastUsedIdx ∨ i ∈ hand

/-- The index `u` of the used ring has been reached by the device, and not yet by a
driver at index `last`. -/
def Ahead (u last : ℕ) (s : Mem) : Prop :=
  u < idxMod ∧ ringDist idxMod last u ≤ ringDist idxMod last s.txq.usedIdx

/-- The device moves descriptors of the transmit queue from place to place. -/
theorem device_tx {K last : ℕ} (hK : K ≤ ringSize tr) {e : Dev} (ho : Owned (ringSize tr) K s.txq last)
    (h : device tr minLen e s = some s') : Owned (ringSize tr) K s'.txq last ∧
      (s'.txq.flight (ringSize tr) last).Perm (s.txq.flight (ringSize tr) last) ∧
      ringDist idxMod last s.txq.usedIdx ≤ ringDist idxMod last s'.txq.usedIdx := by
  have hN := ringSize_dvd tr
  have hM := ringSize_lt tr
  cases e with
  | rxTake =>
    simp only [device, Option.map_eq_some_iff] at h
    obtain ⟨q, -, rfl⟩ := h
    exact ⟨ho, .refl _, le_rfl⟩
  | rxWrite id i b =>
    simp only [device] at h
    split_ifs at h
    cases h
    exact ⟨ho, .refl _, le_rfl⟩
  | rxComplete id len =>
    simp only [device] at h
    split_ifs at h
    simp only [Option.map_eq_some_iff] at h
    obtain ⟨q, -, rfl⟩ := h
    exact ⟨ho, .refl _, le_rfl⟩
  | txTake =>
    simp only [device, Option.map_eq_some_iff] at h
    obtain ⟨q, hq, rfl⟩ := h
    refine ⟨take_owned hN ho hq, take_flight hN ho hq, ?_⟩
    rw [(take_frame hq).2.2.2.2]
  | txComplete id len =>
    simp only [device, Option.map_eq_some_iff] at h
    obtain ⟨q, hq, rfl⟩ := h
    refine ⟨complete_owned hN hK hM ho hq, complete_flight hN hK hM ho hq, ?_⟩
    -- the entries not yet consumed are one more
    have hc := congrArg List.length (complete_spec hN hK hM ho hq).2.2.2
    rw [completed, completed, List.length_append, length_window, length_window] at hc
    exact hc ▸ Nat.le_add_right _ _

theorem TxCore.stable (arch : Arch) (tr : Transport) (minLen : ℕ) (hand : List ℕ) (ctx : Ctx) :
    (net arch tr minLen).Stable (TxCore tr hand ctx) := by
  intro e s s' h he
  obtain ⟨ho, hf, -⟩ := device_tx (queueSize_le_ringSize tr) h.owned he
  refine ⟨ho, fun i hi => ?_⟩
  rw [h.inUse i hi, hf.mem_iff]

/-- What the device has returned stays returned. -/
theorem Ahead.stable (arch : Arch) (tr : Transport) (minLen : ℕ) (hand : List ℕ) (ctx : Ctx) (u : ℕ) :
    (net arch tr minLen).Stable fun s => TxCore tr hand ctx s ∧ Ahead u ctx.txLastUsedIdx s := by
  rintro e s s' ⟨h, hu, hle⟩ he
  obtain ⟨-, -, hmono⟩ := device_tx (queueSize_le_ringSize tr) h.owned he
  exact ⟨TxCore.stable arch tr minLen hand ctx e s s' h he, hu, hle.trans hmono⟩

/-- The invariant is about the transmit queue only. -/
theorem TxCore.congr {hand : List ℕ} (h : TxCore tr hand ctx s) (hq : s'.txq = s.txq) : TxCore tr hand ctx s' := by
  refine ⟨?_, ?_⟩
  · rw [hq]; exact h.owned
  · rw [hq]; exact h.inUse

/-! ### Reclaiming -/

/-- If the driver has not met `u`, there is an entry to consume. -/
theorem Ahead.ne {u last : ℕ} (h : Ahead u last s) (hl : last < idxMod) (hne : last ≠ u) : last ≠ s.txq.usedIdx := by
  obtain ⟨hu, hle⟩ := h
  intro heq
  rw [← heq, ringDist_self hl, Nat.le_zero, ringDist_eq_zero_iff hl hu] at hle
  exact hne hle

theorem Ahead.next {u last : ℕ} (h : Ahead u last s) (hl : last < idxMod) (hi : s.txq.usedIdx < idxMod) (hne : last ≠ u) :
    Ahead u ((last + 1) % idxMod) s := by
  have hne' := h.ne hl hne
  obtain ⟨hu, hle⟩ := h
  refine ⟨hu, ?_⟩
  have h₁ := ringDist_succ_left hl hu hne
  have h₂ := ringDist_succ_left hl hi hne'
  omega

/-- Consuming an entry of the used ring: its descriptor is free. -/
theorem TxCore.reclaim (h : TxCore tr [] ctx s) (hne : ctx.txLastUsedIdx ≠ s.txq.usedIdx) :
    TxCore tr [] (ctx.reclaimed (s.txq.used (ctx.txLastUsedIdx % ringSize tr)).id) s := by
  obtain ⟨ho, hlt, hn⟩ := consume_owned (ringSize_dvd tr) h.owned hne
  have hf := consume_flight (ringSize_dvd tr) h.owned hne
  refine ⟨ho, fun i hi => ?_⟩
  simp only [Ctx.reclaimed, hlt, if_true, List.not_mem_nil, or_false]
  by_cases hid : i = (s.txq.used (ctx.txLastUsedIdx % ringSize tr)).id
  · subst hid
    rw [Function.update_self]
    exact iff_of_false (by decide) hn
  · have hu := h.inUse i hi
    rw [hf.mem_iff, List.mem_cons] at hu
    rw [Function.update_of_ne hid, hu]
    simp [hid]

section Transmit

variable {A G : Op → Mem → Prop}

/-- The loop ends with the driver at the index that was read. -/
theorem reclaimLoop_safe (hG : ∀ ctx slot s, G (.queue ctx .tx (.used slot)) s) {u fuel : ℕ} {ctx : Ctx}
    (hfuel : ringDist idxMod ctx.txLastUsedIdx u ≤ fuel) {s : Mem} (h : TxCore tr [] ctx s)
    (ha : Ahead u ctx.txLastUsedIdx s) :
    (reclaimLoop tr u fuel ctx).Safe (net arch tr minLen).toMachine A G
      (fun ctx' s' => ctx'.txLastUsedIdx = u ∧ TxCore tr [] ctx' s') s := by
  induction fuel generalizing ctx s with
  | zero =>
    have hu := (ringDist_eq_zero_iff h.owned.last_lt ha.1).mp (Nat.le_zero.mp hfuel)
    exact Safe.ret_of_stable (TxCore.stable arch tr minLen [] ctx) h fun _ h => ⟨hu, h⟩
  | succ fuel ih =>
    unfold reclaimLoop
    split_ifs with hu
    · exact Safe.ret_of_stable (TxCore.stable arch tr minLen [] ctx) h fun _ h => ⟨hu, h⟩
    refine safe_readUsed (Ahead.stable arch tr minLen [] ctx u) ⟨h, ha⟩ fun s₁ hs₁ => ⟨hG _ _ _, ?_⟩
    obtain ⟨h₁, ha₁⟩ := hs₁
    have hl := h₁.owned.last_lt
    refine ih ?_ (h₁.reclaim (ha₁.ne hl hu)) (ha₁.next hl h₁.owned.usedIdx_lt hu)
    have := ringDist_succ_left hl ha₁.1 hu
    show ringDist idxMod ((ctx.txLastUsedIdx + 1) % idxMod) u ≤ fuel
    omega

theorem reclaim_safe (hG : ∀ ctx slot s, G (.queue ctx .tx (.used slot)) s)
    (hG' : ∀ ctx s, G (.queue ctx .tx .usedIdx) s) {s : Mem} (h : TxCore tr [] ctx s) :
    (virtioNetReclaimTx tr ctx).Safe (net arch tr minLen).toMachine A G (fun ctx' s' => TxCore tr [] ctx' s') s := by
  refine safe_readUsedIdx (TxCore.stable arch tr minLen [] ctx) h fun s₁ h₁ => ⟨hG' _ _, ?_⟩
  have hu : (s₁.q .tx).usedIdx < idxMod := h₁.owned.usedIdx_lt
  exact (reclaimLoop_safe hG (ringDist_lt _ hu).le h₁ ⟨hu, le_rfl⟩).mono fun _ _ h => h.2

end Transmit

/-! ### Publishing -/

/-- What is promised of a write to the transmit queue's available ring, made when the
driver's fields are `ctx`: the descriptor is not in flight, and the slot holds no
entry that the device has yet to take. -/
def PublishesFree (tr : Transport) : Op → Mem → Prop
  | .queue ctx .tx (.writeAvail slot d), s =>
    d ∉ s.txq.flight (ringSize tr) ctx.txLastUsedIdx ∧
      ∀ k < ringDist idxMod s.txq.lastAvail s.txq.availIdx, (s.txq.lastAvail + k) % ringSize tr ≠ slot
  | _, _ => True

/-- Every other access is free. -/
theorem publishesFree_of_ne {o : Op} (h : ∀ c slot x, o ≠ .queue c .tx (.writeAvail slot x)) (s : Mem) :
    PublishesFree tr o s := by
  unfold PublishesFree
  split
  · exact absurd rfl (h _ _ _)
  · exact trivial

/-- A descriptor that is marked, and not yet published. -/
def TxHand (tr : Transport) (d : ℕ) (ctx : Ctx) (s : Mem) : Prop :=
  TxCore tr [d] ctx s ∧ d < queueSize ∧ d ∉ s.txq.flight (ringSize tr) ctx.txLastUsedIdx

theorem TxHand.stable (arch : Arch) (tr : Transport) (minLen d : ℕ) (ctx : Ctx) :
    (net arch tr minLen).Stable (TxHand tr d ctx) := by
  rintro e s s' ⟨h, hd, hn⟩ he
  obtain ⟨-, hf, -⟩ := device_tx (queueSize_le_ringSize tr) h.owned he
  exact ⟨TxCore.stable arch tr minLen [d] ctx e s s' h he, hd, fun hm => hn (hf.mem_iff.mp hm)⟩

variable {d : ℕ}

/-- Marking a descriptor that was not marked. -/
theorem TxCore.mark (h : TxCore tr [] ctx s) (hd : d < queueSize) (hfree : ctx.txDescInUse d = false) :
    TxHand tr d { ctx with txDescInUse := Function.update ctx.txDescInUse d true } s := by
  refine ⟨⟨h.owned, fun i hi => ?_⟩, hd, fun hm => ?_⟩
  · by_cases hid : i = d
    · subst hid
      simp
    · have hu := h.inUse i hi
      simp only [List.not_mem_nil, or_false] at hu
      simp [hu, hid]
  · have := (h.inUse d hd).mpr (.inl hm)
    rw [hfree] at this
    cases this

theorem TxHand.writeAvail (h : TxHand tr d ctx s) :
    TxHand tr d ctx (s.setQ .tx ((s.q .tx).writeAvail ((s.q .tx).availIdx % ringSize tr) d)) := by
  obtain ⟨⟨ho, hu⟩, hd, hn⟩ := h
  have hf := writeAvail_flight (ringSize_dvd tr) (queueSize_le_ringSize tr) ho hd hn d
  refine ⟨⟨⟨ho.1, ho.2, ho.3, ho.4, ?_, ?_⟩, fun i hi => ?_⟩, hd, ?_⟩
  · exact hf.symm ▸ ho.nodup
  · exact hf.symm ▸ ho.lt
  · exact hf.symm ▸ hu i hi
  · exact hf.symm ▸ hn

/-- Advancing the index puts the descriptor in flight. -/
theorem TxHand.bumpAvail (h : TxHand tr d ctx s) (hs : (s.q .tx).avail ((s.q .tx).availIdx % ringSize tr) = d) :
    TxCore tr [] ctx (s.setQ .tx ((s.q .tx).writeAvailIdx (((s.q .tx).availIdx + 1) % idxMod))) := by
  obtain ⟨⟨ho, hu⟩, hd, hn⟩ := h
  have hN := ringSize_dvd tr
  have hK := queueSize_le_ringSize tr
  have hM := ringSize_lt tr
  have hf := bumpAvail_flight hN hK hM ho hd hn hs
  refine ⟨bumpAvail_owned hN hK hM ho hd hn hs, fun i hi => ?_⟩
  rw [hu i hi, List.mem_singleton, List.mem_nil_iff, or_false]
  exact ((hf.mem_iff.trans List.mem_cons).trans or_comm).symm

theorem TxHand.publishesFree (h : TxHand tr d ctx s) :
    PublishesFree tr (.queue ctx .tx (.writeAvail ((s.q .tx).availIdx % ringSize tr) d)) s :=
  ⟨h.2.2, h.1.owned.slot_free (ringSize_dvd tr) (queueSize_le_ringSize tr) h.2.1 h.2.2⟩

/-! ### A call of `virtio_net_transmit` -/

/-- The call was a transmit of a packet of a valid length, and it failed. -/
def Refused (call : Call) (ret : Ret) : Prop :=
  ∃ packet, call = .transmit packet ∧ 0 < packet.length ∧ packet.length ≤ maxPacketSize ∧ ret.code = -1

/-- The invariant between calls: it also says that the calls that have failed for
lack of a descriptor left all of them marked. -/
def TxInv (tr : Transport) (log : List (Done Call Ctx Ret)) (ctx : Ctx) (s : Mem) : Prop :=
  ctx.initialized = true ∧ TxCore tr [] ctx s ∧
    ∀ e ∈ log, Refused e.call e.result → ∀ i < queueSize, e.after.txDescInUse i = true

variable {A : Op → Mem → Prop}

/-- Storing into the transmit buffers. -/
theorem writeBytes_safe (a : ℕ) (bs : List UInt8) (h : TxHand tr d ctx s) :
    (writeBytes a bs).Safe (net arch tr minLen).toMachine A (PublishesFree tr) (fun _ => TxHand tr d ctx) s := by
  refine (Safe.of_all (writeBytes_all a bs) (TxHand.stable arch tr minLen d ctx) ?_ h).mono fun _ _ h => h.2
  rintro o s ⟨i, b, rfl⟩ ⟨hc, hd, hn⟩
  exact ⟨trivial, hc.congr rfl, hd, hn⟩

/-- **A call of `virtio_net_transmit`** publishes only what is free, and keeps the
invariant; if it fails with a valid length, every descriptor is marked. -/
theorem transmit_safe (packet : List UInt8) (hi : ctx.initialized = true) (h : TxCore tr [] ctx s) :
    (virtioNetTransmit arch tr packet ctx).Safe (net arch tr minLen).toMachine A (PublishesFree tr)
      (fun r s' => TxCore tr [] r.1 s' ∧
        (Refused (.transmit packet) r.2 → ∀ i < queueSize, r.1.txDescInUse i = true)) s := by
  unfold virtioNetTransmit
  simp only [hi, Bool.not_true, Bool.false_eq_true, or_false]
  split_ifs with hlen
  · refine Safe.ret_of_stable (TxCore.stable arch tr minLen [] ctx) h fun s' h' => ⟨h', ?_⟩
    rintro ⟨_, hp, h₁, h₂, -⟩
    cases hp
    omega
  refine Safe.bind ((reclaim_safe (fun _ _ _ => trivial) (fun _ _ => trivial) h).mono fun c s₁ h₁ => ?_)
  cases hfind : findFree c.txDescInUse with
  | none =>
    exact Safe.ret_of_stable (TxCore.stable arch tr minLen [] c) h₁ fun s' h' => ⟨h', fun _ => firstFree_none hfind⟩
  | some d =>
    obtain ⟨hd, hfree⟩ := firstFree_some hfind
    refine Safe.bind ((writeBytes_safe _ _ (h₁.mark hd hfree)).mono fun _ s₂ h₂ => ?_)
    refine Safe.bind ((writeBytes_safe _ _ h₂).mono fun _ s₃ h₃ => ?_)
    refine safe_writeDesc (TxHand.stable arch tr minLen d _) h₃ fun s₄ h₄ => ⟨trivial, ?_⟩
    -- the descriptor table is no part of what is in flight
    have hdesc : TxHand tr d _ (s₄.setQ .tx ((s₄.q .tx).writeDesc d
        ⟨d * maxPacketSize + rxBufferOffset arch, hdrLen + packet.length, 0, 0⟩)) :=
      ⟨⟨⟨h₄.1.owned.1, h₄.1.owned.2, h₄.1.owned.3, h₄.1.owned.4, h₄.1.owned.5, h₄.1.owned.6⟩, h₄.1.inUse⟩, h₄.2⟩
    refine Safe.bind ((publish_safe _ .tx d (TxHand.stable arch tr minLen d _) (TxCore.stable arch tr minLen [] _)
      (fun s h => h.writeAvail) (fun s h hs => h.bumpAvail hs) (fun o s ho => publishesFree_of_ne ho s)
      (fun s h => h.publishesFree) hdesc).mono fun _ s₅ h₅ => ?_)
    refine Safe.ret_of_stable (TxCore.stable arch tr minLen [] _) h₅ fun s' h' => ⟨h', ?_⟩
    rintro ⟨_, -, -, -, hcode⟩
    cases hcode

/-! ### Runs -/

theorem TxInv.stable (arch : Arch) (tr : Transport) (minLen : ℕ) (log : List (Done Call Ctx Ret)) (ctx : Ctx) :
    (net arch tr minLen).Stable (TxInv tr log ctx) :=
  fun e s s' h he => ⟨h.1, TxCore.stable arch tr minLen [] ctx e s s' h.2.1 he, h.2.2⟩

/-- Every call of the driver keeps the invariant of the transmit queue. -/
theorem tx_call (arch : Arch) (tr : Transport) (minLen : ℕ) (l : List (Done Call Ctx Ret)) (k : Call) (p : Ctx) (s : Mem)
    (h : TxInv tr l p s) : ((net arch tr minLen).body k p).Safe (net arch tr minLen).toMachine (fun _ _ => True)
      (PublishesFree tr) (fun r s => TxInv tr (l ++ [⟨k, p, r.2, r.1⟩]) r.1 s) s := by
  obtain ⟨hi, hc, hlog⟩ := h
  cases k with
  | receive n =>
    refine (Safe.of_all (receive_all arch tr n p) (TxCore.stable arch tr minLen [] p) ?_ hc).mono ?_
    · intro o s ho hs
      refine ⟨publishesFree_of_ne ?_ s, hs.congr (exec_touches_rx ho s)⟩
      rintro c slot x rfl
      cases ho
    · rintro ⟨p', r⟩ s' ⟨hr, hs'⟩
      have hrest : p'.initialized = true ∧ TxCore tr [] p' s' := by
        rcases hr with hr | hr
        · cases hr
          exact ⟨hi, hs'⟩
        · obtain rfl : p' = p.bumpRx := hr
          exact ⟨hi, hs'.owned, hs'.inUse⟩
      refine ⟨hrest.1, hrest.2, fun e he => ?_⟩
      rcases List.mem_append.mp he with he | he
      · exact hlog e he
      · obtain rfl := List.mem_singleton.mp he
        rintro ⟨_, hcall, -⟩
        cases hcall
  | transmit packet =>
    refine ((transmit_safe packet hi hc).and_all (transmit_all arch tr packet p)).mono ?_
    rintro r s' ⟨⟨-, hi'⟩, hc', hr⟩
    refine ⟨hi'.trans hi, hc', fun e he => ?_⟩
    rcases List.mem_append.mp he with he | he
    · exact hlog e he
    · obtain rfl := List.mem_singleton.mp he
      exact hr

theorem txInv_init (arch : Arch) (tr : Transport) : TxInv tr [] initCtx (initMem arch tr) := by
  refine ⟨rfl, ⟨⟨?_, ?_, ?_, by decide, ?_, ?_⟩, fun i _ => ?_⟩, by simp⟩
  · cases arch <;> cases tr <;> decide
  · cases arch <;> cases tr <;> decide
  · cases arch <;> cases tr <;> decide
  · cases arch <;> cases tr <;> decide
  · cases arch <;> cases tr <;> decide
  · have hf : (initMem arch tr).txq.flight (ringSize tr) initCtx.txLastUsedIdx = [] := by
      cases arch <;> cases tr <;> decide
    rw [hf]
    simp [initCtx]

theorem tx_good {c : Cfg Op Ans Mem Call Ctx Ret} (h : (net arch tr minLen).Reach (start arch tr) c) :
    (net arch tr minLen).Good (fun _ _ _ => True) (fun _ => PublishesFree tr) (TxInv tr) c :=
  System.reach_safe (TxInv.stable arch tr minLen) (tx_call arch tr minLen) (.start (txInv_init arch tr)) h

/-- A packet is transmitted and its descriptor returned: the run below ends between
calls with descriptor 0 marked, because it has not been reclaimed yet. -/
def returnedPacket : List (Event Call Dev) :=
  [.call (.transmit [1])] ++ List.replicate 19 .tick ++ [.env .txTake, .env (.txComplete 0 0)]

end Yasouos.Drivers.VirtioNet
