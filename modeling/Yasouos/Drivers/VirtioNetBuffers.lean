import Yasouos.Drivers.VirtioNetTx

/-!
# The packet buffers of virtio-net

Each of the 16 descriptors of a queue has a buffer of 2048 bytes, and the buffers of a queue lie one
after another. A packet is in its buffer behind a header of 10 bytes, which on ARM64 starts at byte 2.
This module is about whether the two paths keep to the buffer of their descriptor.

Neither does, for the longest packets that it accepts. `virtio_net_receive` checks the length that the
device reports against 2048 and leaves out the offset: `receive_inRow_iff` says exactly for which
reports it reads outside of the buffer. `virtio_net_transmit` checks the length of the packet against
2048 and leaves out the offset and the header: `transmit_inside` says that in runs without such packets
every descriptor in flight refers to its own packet.
-/

namespace Yasouos.Drivers.VirtioNet

open Theory Prog Virtqueue

/-! ### Receiving from any device -/

/-- What a receive finds in the used ring, written there by any device: the index `u`, and the element `e`.
What else it reads may be anything. -/
def Finds (u : ℕ) (e : VUsed) : (o : Op) → Ans o → Prop
  | .queue _ .rx .usedIdx, (x : ℕ) => x = u
  | .queue _ .rx (.used _), (x : VUsed) => x = e
  | _, _ => True

/-- A read of `rx_buffers` is inside the buffer of descriptor `id`, which is one of the 16. -/
def InRow (id : ℕ) : Op → Prop
  | .readRx a => id < queueSize ∧ id * maxPacketSize ≤ a ∧ a < (id + 1) * maxPacketSize
  | _ => True

section Receive

variable {arch : Arch} {tr : Transport} {u : ℕ} {e : VUsed} {R : Ctx × Ret → Prop}

theorem publish_under (tr : Transport) (ctx : Ctx) (d id : ℕ) :
    (publish tr ctx .rx d).AllUnder (Finds u e) (InRow id) fun _ => True :=
  ⟨trivial, fun _ _ => ⟨trivial, fun _ _ => ⟨trivial, fun _ _ => ⟨trivial, fun _ _ => ⟨trivial, fun _ _ => trivial⟩⟩⟩⟩⟩

/-- A copy whose last byte is inside the buffer is inside the buffer. -/
theorem readBytes_inRow {id a n : ℕ} (hid : id < queueSize) (ha : id * maxPacketSize ≤ a)
    (hn : a + n ≤ (id + 1) * maxPacketSize) :
    (readBytes a n).AllUnder (Finds u e) (InRow id) fun bs => bs.length = n := by
  refine (readEach_all_of_lt fun i hi => ?_).under _
  exact perform_all (P := InRow id) ⟨hid, by omega, by omega⟩

/-- And the last byte of a copy that is inside the buffer is. -/
theorem le_of_readBytes_inRow {id a n : ℕ} (hn : 0 < n)
    (h : (readBytes a n).AllUnder (Finds u e) (InRow id) fun _ => True) : a + n ≤ (id + 1) * maxPacketSize := by
  have hall : ∀ i < n, InRow id (.readRx (a + i)) := by
    refine AllUnder.readEach (T := fun a => InRow id (.readRx a)) (fun a f R' hf => ?_) h
    exact ⟨hf.1, (0 : UInt8), hf.2 (0 : UInt8) trivial⟩
  have hlast := (hall (n - 1) (by omega)).2.2
  omega

/-- What a receive may return: no more bytes than the buffer has, a length only together with the code 0,
and the driver's fields as they were, but for `rx_last_used_idx`, which has advanced by one if there was a new
element (`seen`). -/
def Returns (n : ℕ) (ctx : Ctx) (seen : Bool) (r : Ctx × Ret) : Prop :=
  r.2.buffer.length ≤ n ∧ (r.2.receivedLength ≠ none → r.2.code = 0) ∧ r.1 = if seen then ctx.bumpRx else ctx

theorem returns_fail (n : ℕ) (ctx : Ctx) : Returns n ctx true (ctx.bumpRx, .fail) := ⟨Nat.zero_le n, by simp [Ret.fail], rfl⟩

/-- Once the element has been read, only an element that is accepted is copied. -/
theorem receiveUsed_inRow_iff (n : ℕ) (ctx : Ctx) :
    (receiveUsed arch tr n ctx e.id e.len).AllUnder (Finds u e) (InRow e.id) (Returns n ctx true) ↔
      (e.id < queueSize → e.len ≤ maxPacketSize → e.len - hdrLen ≤ n →
        rxBufferOffset arch + e.len ≤ maxPacketSize) := by
  have hoff : rxBufferOffset arch ≤ 2 := by cases arch <;> decide
  unfold receiveUsed
  dsimp only
  by_cases hid : e.id ≥ queueSize
  · rw [if_pos hid]
    exact iff_of_true (returns_fail n ctx) fun h => absurd h (by omega)
  rw [if_neg hid]
  by_cases hlen : e.len = 0 ∨ e.len > maxPacketSize
  · rw [if_pos hlen]
    refine iff_of_true (returns_fail n ctx) fun _ h _ => ?_
    simp only [maxPacketSize] at *
    omega
  rw [if_neg hlen]
  by_cases hhdr : e.len < hdrLen
  · rw [if_pos hhdr]
    refine iff_of_true (returns_fail n ctx) fun _ _ _ => ?_
    simp only [hdrLen, maxPacketSize] at *
    omega
  rw [if_neg hhdr]
  by_cases hfit : e.len - hdrLen > n
  · rw [if_pos hfit]
    exact iff_of_true (returns_fail n ctx) fun _ _ h => absurd h (by omega)
  rw [if_neg hfit]
  -- the element is accepted
  constructor
  · intro h _ _ _
    by_cases hempty : e.len = hdrLen
    · simp only [hdrLen, maxPacketSize] at *
      omega
    · have hend := le_of_readBytes_inRow (by omega) (AllUnder.of_bind h)
      simp only [hdrLen, maxPacketSize] at *
      omega
  · intro h
    have hroom := h (Nat.lt_of_not_le hid) (by omega) (by omega)
    refine (readBytes_inRow (Nat.lt_of_not_le hid) (by omega) ?_).bind fun data hdata => ?_
    · simp only [hdrLen, maxPacketSize] at *
      omega
    · refine (publish_under tr _ _ _).bind fun _ _ => ⟨?_, fun _ => rfl, rfl⟩
      rw [hdata]
      omega

/-- **Which reports a receive is safe from.** Let the device have written any index `u` and any element `e`,
and anything else besides, on either transport and for either offset of the packets in their buffers. The
call reads `rx_buffers` only inside the buffer of descriptor `e.id`, which is one of the 16; it copies no more
bytes than the caller's buffer has; it stores a length only when it returns 0; and it advances
`rx_last_used_idx` by one if it has seen a new element, and not otherwise — all this if and only if an element
that it accepts ends inside the buffer, where the packet starts at the offset. On ARM64 elements of length 2047
and 2048 do not. -/
theorem receive_inRow_iff (arch : Arch) (tr : Transport) (n : ℕ) (ctx : Ctx) (u : ℕ) (e : VUsed) :
    (virtioNetReceive arch tr n ctx).AllUnder (Finds u e) (InRow e.id)
        (Returns n ctx (ctx.initialized && u != ctx.rxLastUsedIdx)) ↔
      (ctx.initialized = true → u ≠ ctx.rxLastUsedIdx → e.id < queueSize → e.len ≤ maxPacketSize →
        e.len - hdrLen ≤ n → rxBufferOffset arch + e.len ≤ maxPacketSize) := by
  unfold virtioNetReceive
  by_cases hinit : ctx.initialized = true
  swap
  · rw [if_pos (by simpa using hinit)]
    refine iff_of_true ⟨Nat.zero_le n, by simp [Ret.fail], ?_⟩ fun h => absurd h hinit
    simp [hinit]
  rw [if_neg (by simpa using hinit)]
  by_cases hnew : u = ctx.rxLastUsedIdx
  · refine iff_of_true ⟨trivial, fun (x : ℕ) (hx : x = u) => ?_⟩ fun _ h => absurd hnew h
    show AllUnder _ _ _ (if x = ctx.rxLastUsedIdx then _ else _)
    rw [if_pos (hx.trans hnew)]
    refine ⟨Nat.zero_le n, by simp [Ret.fail], ?_⟩
    simp [hnew]
  have hseen : (ctx.initialized && u != ctx.rxLastUsedIdx) = true := by simp [hinit, hnew]
  rw [hseen]
  have hused : (receiveUsed arch tr n ctx e.id e.len).AllUnder (Finds u e) (InRow e.id) (Returns n ctx true) ↔ _ :=
    receiveUsed_inRow_iff n ctx
  constructor
  · rintro ⟨-, h⟩ - -
    have h₁ := h u rfl
    change AllUnder _ _ _ (if u = ctx.rxLastUsedIdx then _ else _) at h₁
    rw [if_neg hnew] at h₁
    exact hused.1 (h₁.2 e rfl)
  · intro h
    refine ⟨trivial, fun (x : ℕ) (hx : x = u) => ?_⟩
    subst hx
    show AllUnder _ _ _ (if x = ctx.rxLastUsedIdx then _ else _)
    rw [if_neg hnew]
    refine ⟨trivial, fun (y : VUsed) (hy : y = e) => ?_⟩
    subst hy
    exact hused.2 (h hinit hnew)

/-- On ARM64 a device that reports 2048 bytes for descriptor 0 makes a receive read the first two bytes of the
next buffer. -/
theorem receive_reads_next_row :
    ¬ ∀ (arch : Arch) (tr : Transport) (n : ℕ) (ctx : Ctx) (u : ℕ) (e : VUsed),
      (virtioNetReceive arch tr n ctx).AllUnder (Finds u e) (InRow e.id)
        (Returns n ctx (ctx.initialized && u != ctx.rxLastUsedIdx)) := by
  intro h
  have hle := le_of_readBytes_inRow (by decide)
    (AllUnder.of_bind (((h .arm64 .mmio 2048 initCtx 1 ⟨0, 2048⟩).2 (1 : ℕ) rfl).2 (⟨0, 2048⟩ : VUsed) rfl))
  exact absurd hle (by decide)

end Receive

/-! ### What a transmit writes -/

section Transmit

variable {arch : Arch} {tr : Transport} {minLen : ℕ} {ctx : Ctx} {s : Mem} {b : ℕ → UInt8} {g : ℕ → VDesc}
  {A G : Op → Mem → Prop}

/-- The access writes neither the transmit buffers nor the descriptors of the transmit queue. -/
def KeepsTx : Op → Prop
  | .writeTx _ _ => False
  | .queue _ .tx (.writeDesc _ _) => False
  | _ => True

/-- The transmit buffers are `b`, and the descriptors of the transmit queue are `g`. -/
def TxIs (b : ℕ → UInt8) (g : ℕ → VDesc) (s : Mem) : Prop := s.txBuffers = b ∧ s.txq.desc = g

/-- The device writes neither. -/
theorem TxIs.stable (arch : Arch) (tr : Transport) (minLen : ℕ) (b : ℕ → UInt8) (g : ℕ → VDesc) :
    (net arch tr minLen).Stable (TxIs b g) := by
  rintro e s s' ⟨hb, hg⟩ he
  replace he : device tr minLen e s = some s' := he
  cases e with
  | rxTake =>
    simp only [device, Option.map_eq_some_iff] at he
    obtain ⟨q, -, rfl⟩ := he
    exact ⟨hb, hg⟩
  | rxWrite id i b =>
    simp only [device] at he
    split_ifs at he
    cases he
    exact ⟨hb, hg⟩
  | rxComplete id len =>
    simp only [device] at he
    split_ifs at he
    simp only [Option.map_eq_some_iff] at he
    obtain ⟨q, -, rfl⟩ := he
    exact ⟨hb, hg⟩
  | txTake =>
    simp only [device, Option.map_eq_some_iff] at he
    obtain ⟨q, hq, rfl⟩ := he
    exact ⟨hb, (take_frame hq).1.trans hg⟩
  | txComplete id len =>
    simp only [device, Option.map_eq_some_iff] at he
    obtain ⟨q, hq, rfl⟩ := he
    exact ⟨hb, (complete_frame hq).1.trans hg⟩

theorem exec_keepsTx {o : Op} (ho : KeepsTx o) (h : TxIs b g s) : TxIs b g (exec o s).2 := by
  cases o with
  | queue c w o =>
    cases w with
    | rx => exact h
    | tx => cases o <;> first | exact h | exact ho.elim
  | readRx a => exact h
  | writeTx a v => exact ho.elim
  | notify w => exact h

theorem publish_keepsTx (tr : Transport) (ctx : Ctx) (d : ℕ) : (publish tr ctx .tx d).All KeepsTx fun _ => True :=
  ⟨trivial, fun _ => ⟨trivial, fun _ => ⟨trivial, fun _ => ⟨trivial, fun _ => ⟨trivial, fun _ => trivial⟩⟩⟩⟩⟩

theorem receive_keepsTx (arch : Arch) (tr : Transport) (n : ℕ) (ctx : Ctx) :
    (virtioNetReceive arch tr n ctx).All KeepsTx fun r => r.1.txDescInUse = ctx.txDescInUse := by
  refine (receive_all arch tr n ctx).mono ?_ ?_
  · intro o ho
    cases o with
    | queue c w o =>
      obtain rfl : w = .rx := ho
      exact trivial
    | readRx a => exact trivial
    | writeTx a v => cases ho
    | notify w => exact trivial
  · rintro r (rfl | hr)
    · rfl
    · rw [hr]
      rfl

/-- Reclaiming only takes marks away. -/
theorem reclaimLoop_keepsTx (tr : Transport) (usedIdx k : ℕ) (ctx : Ctx) :
    (reclaimLoop tr usedIdx k ctx).All KeepsTx fun c => ∀ i, c.txDescInUse i = true → ctx.txDescInUse i = true := by
  induction k generalizing ctx with
  | zero => exact fun _ h => h
  | succ k ih =>
    unfold reclaimLoop
    split_ifs with h
    · exact fun _ h => h
    · refine ⟨trivial, fun (e : VUsed) => (ih (ctx.reclaimed e.id)).mono (fun _ h => h) fun c hc i hi => ?_⟩
      have hmark := hc i hi
      simp only [Ctx.reclaimed] at hmark
      split_ifs at hmark with hid
      · by_cases hie : i = e.id
        · subst hie
          simp at hmark
        · rwa [Function.update_of_ne hie] at hmark
      · exact hmark

theorem reclaimTx_keepsTx (tr : Transport) (ctx : Ctx) :
    (virtioNetReclaimTx tr ctx).All KeepsTx fun c => ∀ i, c.txDescInUse i = true → ctx.txDescInUse i = true :=
  ⟨trivial, fun _ => reclaimLoop_keepsTx tr _ _ ctx⟩

/-- Storing bytes into the transmit buffers stores them there. -/
theorem writeBytes_store (a : ℕ) (bs : List UInt8) (hG : ∀ o s, G o s) (hs : TxIs b g s) :
    (writeBytes a bs).Safe (net arch tr minLen).toMachine A G (fun _ => TxIs (store b a bs) g) s := by
  have hstable : ∀ i, (net arch tr minLen).Stable (TxIs (store b a (bs.take i)) g) := fun i =>
    TxIs.stable arch tr minLen _ g
  rw [show store b a bs = store b a (bs.take bs.length) by rw [List.take_length]]
  refine Safe.writeEach (B := fun i => TxIs (store b a (bs.take i)) g) hstable (fun i hi s hs => ?_) (by simpa using hs)
  refine Safe.op_of_stable (hstable i) hs fun s' hs' => ⟨hG _ _, fun _ => ?_⟩
  refine Safe.ret_of_stable (hstable (i + 1)) ⟨?_, hs'.2⟩ fun _ h => h
  show Function.update s'.txBuffers (a + i) bs[i] = _
  rw [hs'.1, update_store_take b a bs hi]

/-- The bytes that the device is given for a packet. -/
def withHeader (packet : List UInt8) : List UInt8 := List.replicate hdrLen 0 ++ packet

@[simp] theorem length_withHeader (packet : List UInt8) : (withHeader packet).length = hdrLen + packet.length := by
  simp [withHeader]

/-- Where the header of a packet starts in the buffer of descriptor `d`. -/
def txStart (arch : Arch) (d : ℕ) : ℕ := d * maxPacketSize + rxBufferOffset arch

/-- What descriptor `d` is set to for a packet. -/
def txDesc (arch : Arch) (d : ℕ) (packet : List UInt8) : VDesc := ⟨txStart arch d, hdrLen + packet.length, 0, 0⟩

/-- **What a transmit does**, in a context `ctx` and with the transmit buffers `b` and the descriptors `g`.
Either it fails and writes nothing, and if its arguments are valid, all 16 descriptors are marked; or it takes
a descriptor and stores the header and the packet from where the descriptor then points. -/
def TxEffect (arch : Arch) (packet : List UInt8) (ctx : Ctx) (b : ℕ → UInt8) (g : ℕ → VDesc) (r : Ctx × Ret) (s : Mem) :
    Prop :=
  (r.2.code = -1 ∧ (∀ i, r.1.txDescInUse i = true → ctx.txDescInUse i = true) ∧ TxIs b g s ∧
      (ctx.initialized = true → 0 < packet.length → packet.length ≤ maxPacketSize →
        ∀ i < queueSize, r.1.txDescInUse i = true)) ∨
    (r.2.code = 0 ∧ 0 < packet.length ∧ packet.length ≤ maxPacketSize ∧ ∃ d < queueSize,
      (∀ i, i ≠ d → r.1.txDescInUse i = true → ctx.txDescInUse i = true) ∧
      TxIs (store b (txStart arch d) (withHeader packet)) (Function.update g d (txDesc arch d packet)) s)

theorem transmit_effect (packet : List UInt8) (hG : ∀ o s, G o s) (hs : TxIs b g s) :
    (virtioNetTransmit arch tr packet ctx).Safe (net arch tr minLen).toMachine A G (TxEffect arch packet ctx b g) s := by
  unfold virtioNetTransmit
  split_ifs with hlen
  · refine Safe.ret_of_stable (TxIs.stable arch tr minLen b g) hs fun s' h' => .inl ⟨rfl, fun _ h => h, h', ?_⟩
    intro hi h₁ h₂
    rcases hlen with h | h | h
    · omega
    · omega
    · simp [hi] at h
  simp only [not_or] at hlen
  have hkeep : ∀ b' g' o s, KeepsTx o → TxIs b' g' s → G o s ∧ TxIs b' g' ((net arch tr minLen).exec o s).2 :=
    fun b' g' o s ho h => ⟨hG o s, exec_keepsTx ho h⟩
  refine Safe.bind ((Safe.of_all (reclaimTx_keepsTx tr ctx) (TxIs.stable arch tr minLen b g) (hkeep b g) hs).mono ?_)
  rintro c s₁ ⟨hmarks, h₁⟩
  cases hfind : findFree c.txDescInUse with
  | none =>
    exact Safe.ret_of_stable (TxIs.stable arch tr minLen b g) h₁ fun s' h' =>
      .inl ⟨rfl, hmarks, h', fun _ _ _ => firstFree_none hfind⟩
  | some d =>
    obtain ⟨hd, -⟩ := firstFree_some hfind
    refine Safe.bind ((writeBytes_store _ _ hG h₁).mono fun _ s₂ h₂ => ?_)
    refine Safe.bind ((writeBytes_store _ _ hG h₂).mono fun _ s₃ h₃ => ?_)
    rw [store_append b (by simp)] at h₃
    refine safe_writeDesc (TxIs.stable arch tr minLen _ g) h₃ fun s₄ h₄ => ⟨hG _ _, ?_⟩
    have hdesc : TxIs (store b (txStart arch d) (withHeader packet)) (Function.update g d (txDesc arch d packet))
        (s₄.setQ .tx ((s₄.q .tx).writeDesc d (txDesc arch d packet))) := by
      refine ⟨h₄.1, ?_⟩
      rw [← h₄.2]
      rfl
    have hstable := TxIs.stable arch tr minLen (store b (txStart arch d) (withHeader packet))
      (Function.update g d (txDesc arch d packet))
    refine Safe.bind ((Safe.of_all (publish_keepsTx tr _ d) hstable (hkeep _ _) hdesc).mono ?_)
    rintro - s₅ ⟨-, h₅⟩
    refine Safe.ret_of_stable hstable h₅ fun s' h' => .inr ⟨rfl, by omega, by omega, d, hd, ?_, h'⟩
    intro i hid hi
    refine hmarks i ?_
    simpa [Function.update_of_ne hid] using hi

/-! ### Runs without the longest packets -/

/-- The call is no transmit of a packet that, with the header and the offset, is longer than a buffer. -/
def FitsBuffer (arch : Arch) : Call → Prop
  | .transmit packet => rxBufferOffset arch + hdrLen + packet.length ≤ maxPacketSize
  | .receive _ => True

instance (arch : Arch) (call : Call) : Decidable (FitsBuffer arch call) :=
  match call with
  | .transmit packet => inferInstanceAs (Decidable (rxBufferOffset arch + hdrLen + packet.length ≤ maxPacketSize))
  | .receive _ => inferInstanceAs (Decidable True)

/-- Descriptor `d` refers to the header and the packet. -/
def Refers (arch : Arch) (s : Mem) (d : ℕ) (packet : List UInt8) : Prop :=
  s.txq.desc d = txDesc arch d packet ∧
    load s.txBuffers (txStart arch d) (hdrLen + packet.length) = withHeader packet

/-- Each descriptor that is marked refers to the packet of a transmit that has returned 0, `own` saying which
call of the log that was; no two have the same. -/
def Packets (arch : Arch) (own : ℕ → ℕ) (log : List (Done Call Ctx Ret)) (ctx : Ctx) (s : Mem) : Prop :=
  (∀ d < queueSize, ctx.txDescInUse d = true → ∃ packet e, log[own d]? = some e ∧ e.call = .transmit packet ∧
      e.result.code = 0 ∧ FitsBuffer arch e.call ∧ Refers arch s d packet) ∧
    ∀ d < queueSize, ∀ d' < queueSize, ctx.txDescInUse d = true → ctx.txDescInUse d' = true → own d = own d' → d = d'

variable {log : List (Done Call Ctx Ret)} {own : ℕ → ℕ} {s' : Mem} {packet : List UInt8} {d : ℕ}

theorem Refers.congr (h : Refers arch s d packet) (hb : s'.txBuffers = s.txBuffers) (hg : s'.txq.desc = s.txq.desc) :
    Refers arch s' d packet := by
  refine ⟨?_, ?_⟩
  · rw [hg]
    exact h.1
  · rw [hb]
    exact h.2

/-- Once stored, the packet is what the descriptor refers to. -/
theorem refers_store (arch : Arch) (packet : List UInt8)
    (hs : TxIs (store b (txStart arch d) (withHeader packet)) (Function.update g d (txDesc arch d packet)) s) :
    Refers arch s d packet := by
  refine ⟨by rw [hs.2, Function.update_self], ?_⟩
  rw [hs.1, ← length_withHeader, load_store]

/-- A packet that fits the buffer of its descriptor leaves the packets of the others as they are. -/
theorem Refers.store {d' : ℕ} {packet' : List UInt8} (h : Refers arch s d packet) (hne : d ≠ d')
    (hfit : FitsBuffer arch (.transmit packet)) (hfit' : FitsBuffer arch (.transmit packet'))
    (hs : TxIs (store s.txBuffers (txStart arch d') (withHeader packet'))
      (Function.update s.txq.desc d' (txDesc arch d' packet')) s') : Refers arch s' d packet := by
  refine ⟨by rw [hs.2, Function.update_of_ne hne, h.1], ?_⟩
  rw [hs.1, load_store_outside, h.2]
  simp only [FitsBuffer, txStart, length_withHeader, hdrLen, maxPacketSize] at *
  omega

theorem Packets.stable (arch : Arch) (tr : Transport) (minLen : ℕ) (log : List (Done Call Ctx Ret)) (ctx : Ctx) :
    (net arch tr minLen).Stable fun s => ∃ own, Packets arch own log ctx s := by
  rintro e s s' ⟨own, h, hinj⟩ he
  obtain ⟨hb, hg⟩ := TxIs.stable arch tr minLen s.txBuffers s.txq.desc e s s' ⟨rfl, rfl⟩ he
  refine ⟨own, fun d hd hmark => ?_, hinj⟩
  obtain ⟨packet, e, hget, hcall, hcode, hfit, hrefers⟩ := h d hd hmark
  exact ⟨packet, e, hget, hcall, hcode, hfit, hrefers.congr hb hg⟩

/-- A call that marks no further descriptor and writes nothing keeps the packets. -/
theorem Packets.keep (h : Packets arch own log ctx s) {ctx' : Ctx} (e : Done Call Ctx Ret)
    (hmarks : ∀ i, ctx'.txDescInUse i = true → ctx.txDescInUse i = true) (hs : TxIs s.txBuffers s.txq.desc s') :
    Packets arch own (log ++ [e]) ctx' s' := by
  refine ⟨fun d hd hmark => ?_, fun d hd d' hd' hm hm' => h.2 d hd d' hd' (hmarks d hm) (hmarks d' hm')⟩
  obtain ⟨packet, e', hget, hcall, hcode, hfit, hrefers⟩ := h.1 d hd (hmarks d hmark)
  refine ⟨packet, e', ?_, hcall, hcode, hfit, hrefers.congr hs.1 hs.2⟩
  rw [List.getElem?_append_left (List.getElem?_eq_some_iff.1 hget).1, hget]

/-- A transmit that succeeds adds its packet. -/
theorem Packets.add (h : Packets arch own log ctx s) {ctx' : Ctx} {e : Done Call Ctx Ret} (hcall : e.call = .transmit packet)
    (hcode : e.result.code = 0) (hfit : FitsBuffer arch (.transmit packet))
    (hmarks : ∀ i, i ≠ d → ctx'.txDescInUse i = true → ctx.txDescInUse i = true)
    (hs : TxIs (store s.txBuffers (txStart arch d) (withHeader packet))
      (Function.update s.txq.desc d (txDesc arch d packet)) s') :
    Packets arch (Function.update own d log.length) (log ++ [e]) ctx' s' := by
  -- the calls of the other descriptors come before this one
  have hold : ∀ i < queueSize, i ≠ d → ctx'.txDescInUse i = true → own i < log.length := by
    intro i hi hid hmark
    obtain ⟨_, _, hget, -⟩ := h.1 i hi (hmarks i hid hmark)
    exact (List.getElem?_eq_some_iff.1 hget).1
  constructor
  · intro i hi hmark
    by_cases hid : i = d
    · subst hid
      refine ⟨packet, e, by simp, hcall, hcode, by rw [hcall]; exact hfit, refers_store arch packet hs⟩
    · obtain ⟨packet', e', hget, hcall', hcode', hfit', hrefers⟩ := h.1 i hi (hmarks i hid hmark)
      refine ⟨packet', e', ?_, hcall', hcode', hfit', hrefers.store hid (hcall' ▸ hfit') hfit hs⟩
      rw [Function.update_of_ne hid, List.getElem?_append_left (hold i hi hid hmark), hget]
  · intro i hi j hj hmi hmj heq
    by_cases hid : i = d
    · by_cases hjd : j = d
      · exact hid.trans hjd.symm
      · rw [hid, Function.update_self, Function.update_of_ne hjd] at heq
        exact absurd (hold j hj hjd hmj) (by omega)
    · by_cases hjd : j = d
      · rw [hjd, Function.update_self, Function.update_of_ne hid] at heq
        exact absurd (hold i hi hid hmi) (by omega)
      · rw [Function.update_of_ne hid, Function.update_of_ne hjd] at heq
        exact h.2 i hi j hj (hmarks i hid hmi) (hmarks j hjd hmj) heq

/-- Every call whose packet fits its buffer keeps the packets of the descriptors. -/
theorem packets_call (arch : Arch) (tr : Transport) (minLen : ℕ) (l : List (Done Call Ctx Ret)) (k : Call) (p : Ctx)
    (s : Mem) (h : ∃ own, Packets arch own l p s) :
    ((net arch tr minLen).body k p).Safe (net arch tr minLen).toMachine (fun _ _ => FitsBuffer arch k)
      (fun _ _ => True) (fun r s => ∃ own, Packets arch own (l ++ [⟨k, p, r.2, r.1⟩]) r.1 s) s := by
  obtain ⟨own, h⟩ := h
  have hs : TxIs s.txBuffers s.txq.desc s := ⟨rfl, rfl⟩
  cases k with
  | receive n =>
    refine (Safe.of_all (receive_keepsTx arch tr n p) (TxIs.stable arch tr minLen _ _)
      (fun o s ho h => ⟨trivial, exec_keepsTx ho h⟩) hs).mono ?_
    rintro r s' ⟨hr, hs'⟩
    exact ⟨own, h.keep _ (fun i hi => hr ▸ hi) hs'⟩
  | transmit packet =>
    by_cases hfit : FitsBuffer arch (.transmit packet)
    · refine (transmit_effect packet (fun _ _ => trivial) hs).mono ?_
      rintro r s' (⟨-, hmarks, hs', -⟩ | ⟨hcode, -, -, d, -, hmarks, hs'⟩)
      · exact ⟨own, h.keep _ hmarks hs'⟩
      · exact ⟨_, h.add rfl hcode hfit hmarks hs'⟩
    · -- a packet that does not fit is refused for its length, or is excluded by the assumption
      show Safe _ _ _ _ (virtioNetTransmit arch tr packet p) s
      unfold virtioNetTransmit
      split_ifs with hlen
      · refine Safe.ret_of_stable (TxIs.stable arch tr minLen _ _) hs fun s' hs' => ⟨own, h.keep _ (fun _ h => h) hs'⟩
      · exact fun _ _ => ⟨trivial, fun hA => absurd hA hfit⟩

theorem packets_init (arch : Arch) (tr : Transport) : ∃ own, Packets arch own [] initCtx (initMem arch tr) :=
  ⟨fun _ => 0, fun _ _ h => by simp [initCtx] at h, fun _ _ _ _ h => by simp [initCtx] at h⟩

theorem packets_good {c : Cfg Op Ans Mem Call Ctx Ret}
    (h : (net arch tr minLen).ReachUnder (fun k _ _ => FitsBuffer arch k) (start arch tr) c) :
    (net arch tr minLen).Good (fun k _ _ => FitsBuffer arch k) (fun _ _ _ => True)
      (fun l p s => ∃ own, Packets arch own l p s) c :=
  System.reach_safe (Packets.stable arch tr minLen) (packets_call arch tr minLen) (.start (packets_init arch tr)) h

/-- Where a transmit that has returned 0 has put its packet, and what it has left alone. -/
theorem TxEffect.inside {r : Ctx × Ret} (h : TxEffect arch packet ctx s.txBuffers s.txq.desc r s') (hr : r.2.code = 0) :
    ∃ d < queueSize, Refers arch s' d packet ∧
      (FitsBuffer arch (.transmit packet) → ∀ a, a < d * maxPacketSize ∨ (d + 1) * maxPacketSize ≤ a →
        s'.txBuffers a = s.txBuffers a) ∧
      (¬ FitsBuffer arch (.transmit packet) → ∃ k, 0 < k ∧ rxBufferOffset arch + hdrLen + packet.length = maxPacketSize + k ∧
        load s'.txBuffers ((d + 1) * maxPacketSize) k = packet.drop (packet.length - k)) := by
  rcases h with ⟨hfail, -⟩ | ⟨-, hpos, hle, d, hd, -, hs'⟩
  · rw [hr] at hfail
    cases hfail
  have hoff : rxBufferOffset arch ≤ 2 := by cases arch <;> decide
  refine ⟨d, hd, refers_store arch packet hs', fun hfit a ha => ?_, fun hnot => ?_⟩
  · have houtside : a < txStart arch d ∨ txStart arch d + (withHeader packet).length ≤ a := by
      simp only [FitsBuffer] at hfit
      rw [txStart, length_withHeader]
      rcases ha with hbefore | hafter
      · exact .inl (Nat.lt_add_right _ hbefore)
      · right
        rw [Nat.succ_mul] at hafter
        rw [Nat.add_assoc, ← Nat.add_assoc (rxBufferOffset arch)]
        exact (Nat.add_le_add_left hfit _).trans hafter
    rw [hs'.1, store_outside _ _ _ houtside]
  · -- the part of the header and the packet that comes after the buffer
    simp only [FitsBuffer, not_le] at hnot
    obtain ⟨k, hk⟩ := Nat.exists_eq_add_of_lt hnot
    have hrow : (d + 1) * maxPacketSize = txStart arch d + (maxPacketSize - rxBufferOffset arch) := by
      simp only [txStart, maxPacketSize]
      omega
    have hlen : maxPacketSize - rxBufferOffset arch + (k + 1) = (withHeader packet).length := by
      rw [length_withHeader]
      simp only [maxPacketSize] at hk ⊢
      omega
    have hdrop : maxPacketSize - rxBufferOffset arch = (List.replicate hdrLen (0 : UInt8)).length +
        (packet.length - (k + 1)) := by
      rw [List.length_replicate]
      simp only [maxPacketSize, hdrLen] at hk hle ⊢
      omega
    refine ⟨k + 1, Nat.succ_pos k, hk, ?_⟩
    rw [hs'.1, hrow, load_store_drop _ _ _ hlen, withHeader, hdrop, List.drop_length_add_append]

/-- **Transmitting inside the buffers.** Take any run in which every packet that is transmitted fits a buffer,
together with the header and the offset. Whenever no call is running:

* every descriptor in flight refers to the 10 zero bytes of the header and the packet of a transmit of its own
  that has returned 0 (`own` says which call of the log), so no packet has been written over;
* a further transmit that returns 0, however the device moves meanwhile, has put the header and the packet where
  its descriptor points. If they fit the buffer of the descriptor, every byte outside of it is as it was, in the
  buffers of the other descriptors as well as in `rx_desc_in_use` behind them, and so are the driver's other
  fields. If they do not fit, the last bytes of the packet are at the start of what comes after the buffer. -/
theorem transmit_inside (arch : Arch) (tr : Transport) (minLen : ℕ) (c : Cfg Op Ans Mem Call Ctx Ret)
    (h : (net arch tr minLen).ReachUnder (fun k _ _ => FitsBuffer arch k) (start arch tr) c) (hc : c.Idle) :
    (∃ own : ℕ → ℕ, (∀ d ∈ c.shared.txq.flight (ringSize tr) c.priv.txLastUsedIdx,
          d < queueSize ∧ ∃ packet e, c.log[own d]? = some e ∧ e.call = .transmit packet ∧ e.result.code = 0 ∧
            Refers arch c.shared d packet) ∧
        ∀ d ∈ c.shared.txq.flight (ringSize tr) c.priv.txLastUsedIdx,
          ∀ d' ∈ c.shared.txq.flight (ringSize tr) c.priv.txLastUsedIdx, own d = own d' → d = d') ∧
      ∀ packet, (virtioNetTransmit arch tr packet c.priv).Safe (net arch tr minLen).toMachine (fun _ _ => True)
        (fun _ _ => True) (fun r s' => r.2.code = 0 →
          r.1.initialized = c.priv.initialized ∧ r.1.rxLastUsedIdx = c.priv.rxLastUsedIdx ∧
          ∃ d < queueSize, Refers arch s' d packet ∧
            (FitsBuffer arch (.transmit packet) → ∀ a, a < d * maxPacketSize ∨ (d + 1) * maxPacketSize ≤ a →
              s'.txBuffers a = c.shared.txBuffers a) ∧
            (¬ FitsBuffer arch (.transmit packet) →
              ∃ k, 0 < k ∧ rxBufferOffset arch + hdrLen + packet.length = maxPacketSize + k ∧
                load s'.txBuffers ((d + 1) * maxPacketSize) k = packet.drop (packet.length - k))) c.shared := by
  constructor
  · obtain ⟨own, hown, hinj⟩ := (packets_good h).idle hc
    obtain ⟨-, hcore, -⟩ := (tx_good (System.ReachUnder.reach _ h)).idle hc
    have hmark : ∀ d ∈ c.shared.txq.flight (ringSize tr) c.priv.txLastUsedIdx,
        d < queueSize ∧ c.priv.txDescInUse d = true := by
      intro d hd
      have hlt := hcore.owned.lt d hd
      exact ⟨hlt, (hcore.inUse d hlt).mpr (.inl hd)⟩
    refine ⟨own, fun d hd => ?_, fun d hd d' hd' => ?_⟩
    · obtain ⟨hlt, hm⟩ := hmark d hd
      obtain ⟨packet, e, hget, hcall, hcode, -, hrefers⟩ := hown d hlt hm
      exact ⟨hlt, packet, e, hget, hcall, hcode, hrefers⟩
    · obtain ⟨hlt, hm⟩ := hmark d hd
      obtain ⟨hlt', hm'⟩ := hmark d' hd'
      exact hinj d hlt d' hlt' hm hm'
  · intro packet
    have heffect : (virtioNetTransmit arch tr packet c.priv).Safe (net arch tr minLen).toMachine (fun _ _ => True)
        (fun _ _ => True) (TxEffect arch packet c.priv c.shared.txBuffers c.shared.txq.desc) c.shared :=
      transmit_effect packet (fun _ _ => trivial) ⟨rfl, rfl⟩
    refine (heffect.and_all (transmit_all arch tr packet c.priv)).mono ?_
    rintro r s' ⟨⟨hrx, hinit⟩, he⟩ hr
    exact ⟨hinit, hrx, he.inside hr⟩

/-- After a transmit of one byte, its descriptor is in flight and refers to a packet of the log. -/
theorem transmit_inside_returnedPacket :
    ∃ c, (net .riscv .mmio 10).runUnder (fun k _ _ => FitsBuffer .riscv k) (start .riscv .mmio) returnedPacket = some c ∧
      0 ∈ c.shared.txq.flight (ringSize .mmio) c.priv.txLastUsedIdx ∧
      ∃ (packet : List UInt8) (i : ℕ) (e : Done Call Ctx Ret), c.log[i]? = some e ∧ e.call = .transmit packet ∧
        Refers .riscv c.shared 0 packet := by
  obtain ⟨c, hrun⟩ : ∃ c, (net .riscv .mmio 10).runUnder (fun k _ _ => FitsBuffer .riscv k) (start .riscv .mmio)
      returnedPacket = some c := Option.isSome_iff_exists.mp (by decide)
  have hobs : ((net .riscv .mmio 10).runUnder (fun k _ _ => FitsBuffer .riscv k) (start .riscv .mmio)
      returnedPacket).map (fun c => (c.cur.isNone, c.shared.txq.flight (ringSize .mmio) c.priv.txLastUsedIdx)) =
        some (true, [0]) := by decide
  rw [hrun, Option.map_some, Option.some.injEq, Prod.mk.injEq] at hobs
  obtain ⟨hidle, hflight⟩ := hobs
  have hmem : 0 ∈ c.shared.txq.flight (ringSize .mmio) c.priv.txLastUsedIdx := by rw [hflight]; exact List.mem_cons_self
  obtain ⟨⟨own, hown, -⟩, -⟩ := transmit_inside .riscv .mmio 10 c (System.reachUnder_of_run _ _ hrun)
    (Option.isNone_iff_eq_none.mp hidle)
  obtain ⟨-, packet, e, hget, hcall, -, hrefers⟩ := hown 0 hmem
  exact ⟨c, hrun, hmem, packet, own 0, e, hget, hcall, hrefers⟩

/-- Byte 2038 of a packet that is long enough goes to the start of what comes after the buffer. -/
theorem store_next_row (b : ℕ → UInt8) (d : ℕ) {packet : List UInt8} (h : 2038 < packet.length) :
    store b (txStart .riscv d) (withHeader packet) ((d + 1) * maxPacketSize) = packet[2038] := by
  have hrow : (d + 1) * maxPacketSize = txStart .riscv d + maxPacketSize := by
    rw [txStart, Nat.succ_mul, rxBufferOffset, Nat.add_zero]
  have hlen : maxPacketSize < (withHeader packet).length := by
    rw [length_withHeader]
    simp only [hdrLen, maxPacketSize]
    omega
  rw [hrow, store_apply _ _ _ hlen]
  simp [withHeader, maxPacketSize, hdrLen]

/-- A packet of 2048 bytes is accepted from the initial state on RISC-V, and the call returns 0 after it has
written into what comes after the buffer of its descriptor. -/
theorem transmit_spills :
    ∃ n c e d, (net .riscv .mmio 10).run (start .riscv .mmio)
        (.call (.transmit (List.replicate 2048 7)) :: List.replicate n .tick) = some c ∧ c.Idle ∧ c.log = [e] ∧
      e.result.code = 0 ∧ d < queueSize ∧ c.shared.txq.desc d = txDesc .riscv d (List.replicate 2048 7) ∧
      c.shared.txBuffers ((d + 1) * maxPacketSize) ≠ (initMem .riscv .mmio).txBuffers ((d + 1) * maxPacketSize) := by
  have hinit : ∀ d < queueSize, (initMem .riscv .mmio).txBuffers ((d + 1) * maxPacketSize) ≠ 7 := by decide
  obtain ⟨packet, hpacket⟩ : ∃ packet : List UInt8, packet = List.replicate 2048 7 := ⟨_, rfl⟩
  have hlen : packet.length = 2048 := by rw [hpacket, List.length_replicate]
  have hseven : packet[2038] = 7 := by simp only [hpacket, List.getElem_replicate]
  rw [← hpacket]
  obtain ⟨n, hrun⟩ := System.run_undisturbed (S := net .riscv .mmio 10) (start .riscv .mmio) rfl (.transmit packet)
  have heffect : (virtioNetTransmit .riscv .mmio packet initCtx).Safe (net .riscv .mmio 10).toMachine (fun _ _ => True)
      (fun _ _ => True) (TxEffect .riscv packet initCtx (initMem .riscv .mmio).txBuffers (initMem .riscv .mmio).txq.desc)
      (initMem .riscv .mmio) := transmit_effect packet (fun _ _ => trivial) ⟨rfl, rfl⟩
  rcases heffect.runOn fun _ _ => trivial with ⟨-, hmarks, -, hall⟩ | ⟨hcode, -, -, d, hd, -, hs⟩
  · -- every descriptor is free, so the call does not fail
    have hmark := hmarks 0 (hall rfl (by omega) hlen.le 0 (by decide))
    cases hmark
  · refine ⟨n, _, _, d, hrun, rfl, rfl, hcode, hd, ?_, ?_⟩
    · exact (refers_store .riscv _ hs).1
    · have hbyte := congrFun hs.1 ((d + 1) * maxPacketSize)
      rw [store_next_row _ _ (by omega), hseven] at hbyte
      exact fun heq => hinit d hd (heq.symm.trans hbyte)

end Transmit

end Yasouos.Drivers.VirtioNet
