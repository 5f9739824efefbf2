import Yasouos.Drivers.Rtl8139

/-!
# Transmitting on the RTL8139

What `rtl8139_transmit` does over whole runs, against a device that sends whenever it
likes, also between two accesses of one call.

The four transmit slots all point at the one `tx_buffer`, and the driver never looks
whether a slot is done. `transmit_exact` says that every packet accepted is sent once, as
it was passed in, and that no slot is started again before it was sent, as long as the
device has sent everything whenever the driver stores a byte into `tx_buffer`.
`transmit_overwrites` is the run that breaks this: a second packet is copied over the
first.
-/

namespace Yasouos.Drivers.Rtl8139

open Theory Prog

/-! ### What a run should do -/

/-- The packets that were accepted, in order. -/
def accepted (log : List Entry) : List (List UInt8) :=
  log.filterMap fun e =>
    match e.call with
    | .transmit packet => if e.result.code = 0 then some packet else none
    | .receive _ => none

theorem accepted_receive (log : List Entry) (n : ℕ) (p q : Ctx) (r : Ret) :
    accepted (log ++ [⟨.receive n, p, r, q⟩]) = accepted log := by
  simp [accepted]

theorem accepted_transmit (log : List Entry) (packet : List UInt8) (p q : Ctx) (r : Ret) :
    accepted (log ++ [⟨.transmit packet, p, r, q⟩]) = accepted log ++ (if r.code = 0 then [packet] else []) := by
  by_cases hcode : r.code = 0 <;> simp [accepted, hcode]

/-- The packets accepted are those sent and those in the slots that were started, in
order; and a slot about to be written is not one that was started and not sent. -/
structure TxExact (c : Cfg Op Ans Mem Call Ctx Ret) : Prop where
  packets : c.Idle → accepted c.log = c.shared.sent ++ c.shared.started.map c.shared.slotPacket
  address : ∀ k d a f, c.cur = some (k, .op (.writeTsad d a) f) → d ∉ c.shared.started
  arm : ∀ k d n f, c.cur = some (k, .op (.writeTsd d n) f) → d ∉ c.shared.started

/-- When the driver stores a byte into `tx_buffer`, the device has sent everything. -/
def AllSent : Op → Mem → Prop
  | .writeTx _ _, s => s.started = []
  | _, _ => True

instance : (o : Op) → (s : Mem) → Decidable (AllSent o s)
  | .writeTx _ _, s => inferInstanceAs (Decidable (s.started = []))
  | .readCmd, _ | .readCapr, _ | .readRx16 _, _ | .readRx _, _ | .readIsr, _ | .writeIsr _, _ | .writeCapr _, _
  | .writeTsad _ _, _ | .writeTsd _ _, _ => isTrue trivial

/-! ### The invariant -/

/-- The packets `acc` are those sent and those in the slots that were started. -/
def TxCore (acc : List (List UInt8)) (s : Mem) : Prop := acc = s.sent ++ s.started.map s.slotPacket

/-- A call has stored the first `n` bytes of its packet, and if there are any, nothing is
left for the device to send. -/
def Storing (acc : List (List UInt8)) (packet : List UInt8) (n : ℕ) (s : Mem) : Prop :=
  TxCore acc s ∧ (0 < n → s.started = []) ∧ ∀ j < n, s.txBuffer j = packet.getD j 0

variable {acc : List (List UInt8)} {packet : List UInt8} {n d a : ℕ} {s s' : Mem} {ctx : Ctx}

theorem TxCore.congr (h : TxCore acc s) (hs : SameTx s s') : TxCore acc s' := by
  obtain ⟨h₁, h₂, h₃, h₄, h₅⟩ := hs
  have hslot : s'.slotPacket = s.slotPacket := by
    funext d
    simp only [Mem.slotPacket, h₁, h₂, h₃]
  rw [TxCore, h₄, h₅, hslot]
  exact h

/-- A packet arrives, or the oldest slot is sent. -/
theorem device_tx {e : Dev} (h : device e s = some s') : SameTx s s' ∨
    ∃ d rest, s.started = d :: rest ∧ s' = { s with sent := s.sent ++ [s.slotPacket d], started := rest } := by
  cases e with
  | arrive lo hi data crc =>
    simp only [device, Option.ite_none_right_eq_some] at h
    obtain ⟨-, h⟩ := h
    cases h
    exact .inl ⟨rfl, rfl, rfl, rfl, rfl⟩
  | send =>
    simp only [device] at h
    split at h
    · cases h
    · rename_i d rest hstarted
      cases h
      exact .inr ⟨d, rest, hstarted, rfl⟩

theorem Storing.stable (acc : List (List UInt8)) (packet : List UInt8) (n : ℕ) :
    nic.Stable (Storing acc packet n) := by
  rintro e s s' ⟨hc, hquiet, hbytes⟩ he
  rcases device_tx he with hsame | ⟨d, rest, hstarted, rfl⟩
  · refine ⟨hc.congr hsame, ?_, ?_⟩
    · rw [hsame.2.2.2.1]; exact hquiet
    · rw [hsame.1]; exact hbytes
  · refine ⟨?_, fun hn => ?_, hbytes⟩
    · rw [TxCore, hstarted] at hc
      show acc = (s.sent ++ [s.slotPacket d]) ++ rest.map s.slotPacket
      rw [hc]
      simp
    · rw [hquiet hn] at hstarted
      cases hstarted

/-- Between calls nothing is known of the buffer. -/
theorem storing_zero : Storing acc packet 0 s ↔ TxCore acc s := by simp [Storing]

theorem TxCore.stable (acc : List (List UInt8)) : nic.Stable (TxCore acc) := by
  intro e s s' h he
  exact storing_zero.mp (Storing.stable acc [] 0 e s s' (storing_zero.mpr h) he)

/-- Nothing is left for the device to send, and the packet is in the buffer. -/
def Stored (acc : List (List UInt8)) (packet : List UInt8) (s : Mem) : Prop :=
  s.started = [] ∧ acc = s.sent ∧ load s.txBuffer 0 packet.length = packet

theorem Stored.stable (acc : List (List UInt8)) (packet : List UInt8) : nic.Stable (Stored acc packet) := by
  rintro e s s' ⟨hquiet, hacc, hload⟩ he
  rcases device_tx he with ⟨h₁, -, -, h₄, h₅⟩ | ⟨d, rest, hstarted, rfl⟩
  · exact ⟨h₄.trans hquiet, h₅ ▸ hacc, h₁ ▸ hload⟩
  · rw [hquiet] at hstarted
    cases hstarted

theorem Storing.stored (h : Storing acc packet packet.length s) (hpos : 0 < packet.length) : Stored acc packet s := by
  obtain ⟨hc, hquiet, hbytes⟩ := h
  refine ⟨hquiet hpos, ?_, ?_⟩
  · rw [TxCore, hquiet hpos] at hc
    simpa using hc
  · refine List.ext_getElem (by simp) fun j h₁ h₂ => ?_
    rw [getElem_load, Nat.zero_add, hbytes j h₂]
    simp [h₂]

/-- Storing one more byte, when nothing is left for the device to send. -/
theorem Storing.writeTx (h : Storing acc packet n s) (hn : n < packet.length) (hquiet : s.started = []) :
    Storing acc packet (n + 1) (exec (.writeTx n (packet.get ⟨n, hn⟩)) s).2 := by
  obtain ⟨hc, -, hbytes⟩ := h
  refine ⟨?_, fun _ => hquiet, fun j hj => ?_⟩
  · rw [TxCore, hquiet] at hc
    show acc = s.sent ++ List.map _ s.started
    rw [hquiet]
    exact hc
  · show Function.update s.txBuffer n (packet.get ⟨n, hn⟩) j = _
    by_cases hjn : j = n
    · subst hjn
      rw [Function.update_self]
      simp [hn]
    · rw [Function.update_of_ne hjn]
      exact hbytes j (by omega)

/-- A slot about to be written is not one that was started and not sent. -/
def Rearms : Op → Mem → Prop
  | .writeTsad d _, s | .writeTsd d _, s => d ∉ s.started
  | _, _ => True

/-- **A call of `rtl8139_transmit`**, as long as the device has sent everything when it
stores a byte: the packet is accepted if its length is valid, and is in the slot. -/
theorem transmit_safe (packet : List UInt8) (hi : ctx.initialized = true) (h : TxCore acc s) :
    (rtl8139Transmit packet ctx).Safe nic.toMachine AllSent Rearms
      (fun r s' => TxCore (acc ++ (if r.2.code = 0 then [packet] else [])) s') s := by
  simp only [rtl8139Transmit, hi, Bool.not_true, Bool.false_eq_true, false_or]
  split_ifs with hlen
  · refine Safe.ret_of_stable (TxCore.stable acc) h fun s' h' => ?_
    rw [if_neg (show ¬ Ret.fail.code = 0 by decide), List.append_nil]
    exact h'
  refine Safe.bind ((Safe.writeEach (Storing.stable acc packet) (fun n hn s hs => ?_) (storing_zero.mpr h)).mono
    fun _ s₁ h₁ => ?_)
  · refine Safe.op_of_stable (Storing.stable acc packet n) hs fun s₁ h₁ => ⟨trivial, fun hquiet => ?_⟩
    refine Safe.ret_of_stable (Storing.stable acc packet (n + 1)) ?_ fun _ h => h
    rw [Nat.zero_add]
    exact h₁.writeTx hn hquiet
  -- the packet is in the buffer, and the device has nothing to do
  have hstored := h₁.stored (by omega)
  refine Safe.op_of_stable (Stored.stable acc packet) hstored fun s₂ h₂ => ⟨?_, fun _ => ?_⟩
  · show ctx.txCurrent ∉ s₂.started
    simp [h₂.1]
  have haddr : Stored acc packet (exec (.writeTsad ctx.txCurrent 0) s₂).2 ∧
      (exec (.writeTsad ctx.txCurrent 0) s₂).2.tsad ctx.txCurrent = 0 := ⟨h₂, Function.update_self ..⟩
  have hstable : nic.Stable fun s => Stored acc packet s ∧ s.tsad ctx.txCurrent = 0 :=
    (Stored.stable acc packet).and fun e s s' h he => by
      rcases device_tx he with hsame | ⟨_, _, _, rfl⟩
      · rw [hsame.2.1]; exact h
      · exact h
  refine Safe.op_of_stable hstable haddr fun s₃ ⟨h₃, ha₃⟩ => ⟨?_, fun _ => ?_⟩
  · show ctx.txCurrent ∉ s₃.started
    simp [h₃.1]
  refine Safe.ret_of_stable (TxCore.stable (acc ++ [packet])) ?_ fun s' h' => ?_
  · obtain ⟨hquiet, hacc, hload⟩ := h₃
    show acc ++ [packet] = s₃.sent ++ List.map _ (if ctx.txCurrent ∈ s₃.started then _ else _)
    rw [hquiet, if_neg List.not_mem_nil, List.nil_append, List.map_singleton, hacc]
    show s₃.sent ++ [packet] = s₃.sent ++ [load s₃.txBuffer (s₃.tsad ctx.txCurrent)
      (Function.update s₃.tsd ctx.txCurrent packet.length ctx.txCurrent)]
    rw [Function.update_self, ha₃, hload]
  · rw [if_pos rfl]
    exact h'

/-! ### Runs -/

/-- The invariant between calls. -/
def TxInv (log : List Entry) (ctx : Ctx) (s : Mem) : Prop := ctx.initialized = true ∧ TxCore (accepted log) s

theorem TxInv.stable (log : List Entry) (ctx : Ctx) : nic.Stable (TxInv log ctx) :=
  fun e s s' h he => ⟨h.1, TxCore.stable _ e s s' h.2 he⟩

/-- Every call of the driver keeps the invariant. -/
theorem tx_call (l : List Entry) (k : Call) (p : Ctx) (s : Mem) (h : TxInv l p s) :
    (nic.body k p).Safe nic.toMachine AllSent Rearms (fun r s => TxInv (l ++ [⟨k, p, r.2, r.1⟩]) r.1 s) s := by
  obtain ⟨hi, hc⟩ := h
  cases k with
  | receive n =>
    obtain ⟨g, hg, hall⟩ := receive_eq n hi
    have hbody : (nic.body (.receive n) p).All (fun o => TouchesRx o ∨ o = .readCmd) fun r => r.1 = p := by
      show (rtl8139Receive n p).All _ _
      rw [hg]
      exact ⟨.inr rfl, fun cmd => (hall cmd).mono (fun _ => .inl) fun _ h => h⟩
    refine (Safe.of_all hbody (TxCore.stable (accepted l)) ?_ hc).mono ?_
    · intro o s ho hs
      refine ⟨?_, hs.congr (exec_touchesRx ho s)⟩
      rcases ho with ho | rfl
      · cases o <;> first | cases ho; done | trivial
      · trivial
    · rintro r s' ⟨hr, hs'⟩
      rw [TxInv, accepted_receive, hr]
      exact ⟨hi, hs'⟩
  | transmit packet =>
    refine ((transmit_safe packet hi hc).and_all (transmit_all packet p)).mono ?_
    rintro r s' ⟨hi', hs'⟩
    rw [TxInv, accepted_transmit]
    exact ⟨hi'.trans hi, hs'⟩

theorem txInv_init : TxInv [] initCtx initMem := ⟨rfl, rfl⟩

/-- **No packet is overwritten as long as the device keeps up.** In every run in which
the device has sent everything whenever the driver stores a byte into `tx_buffer`: every
packet accepted is sent once, as it was passed in and in order, or is in a slot that was
started; and no slot is written again before it was sent. -/
theorem transmit_exact (c : Cfg Op Ans Mem Call Ctx Ret) (h : nic.ReachUnder (fun _ => AllSent) start c) :
    TxExact c := by
  have hgood : nic.Good (fun _ => AllSent) (fun _ => Rearms) TxInv c :=
    System.reach_safe TxInv.stable tx_call (.start txInv_init) h
  exact ⟨fun hc => (hgood.idle hc).2, fun k d a f hc => hgood.guarantee hc, fun k d n f hc => hgood.guarantee hc⟩

/-- Two packets, the first sent before the second is passed in. -/
def sentInTime : List (Event Call Dev) :=
  [.call (.transmit [1, 2])] ++ List.replicate 5 .tick ++ [.env .send] ++ [.call (.transmit [3])] ++
    List.replicate 4 .tick

theorem transmit_exact_sentInTime :
    ∃ c, nic.runUnder (fun _ => AllSent) start sentInTime = some c ∧ c.shared.sent = [[1, 2]] ∧
      c.shared.started.map c.shared.slotPacket = [[3]] ∧ TxExact c := by
  obtain ⟨c, hc⟩ : ∃ c, nic.runUnder (fun _ => AllSent) start sentInTime = some c :=
    Option.isSome_iff_exists.mp (by decide)
  have hobs : (nic.runUnder (fun _ => AllSent) start sentInTime).map (fun c =>
      (c.shared.sent, c.shared.started.map c.shared.slotPacket)) = some ([[1, 2]], [[3]]) := by decide
  rw [hc, Option.map_some, Option.some.injEq, Prod.mk.injEq] at hobs
  exact ⟨c, hc, hobs.1, hobs.2, transmit_exact c (nic.reachUnder_of_run _ hc)⟩

/-- Two packets of one byte, and the device sends neither in between. -/
def backToBack : List (Event Call Dev) :=
  [.call (.transmit [1])] ++ List.replicate 4 .tick ++ [.call (.transmit [2])] ++ List.replicate 4 .tick

/-- The second packet is copied over the first: the device will send it twice. -/
theorem transmit_overwrites : ¬ ∀ c, nic.Reach start c → TxExact c := by
  intro h
  obtain ⟨c, hc⟩ : ∃ c, nic.run start backToBack = some c := Option.isSome_iff_exists.mp (by decide)
  have hobs : (nic.run start backToBack).map (fun c =>
      (c.cur.isNone, accepted c.log, c.shared.sent ++ c.shared.started.map c.shared.slotPacket)) =
      some (true, [[1], [2]], [[2], [2]]) := by decide
  rw [hc, Option.map_some, Option.some.injEq, Prod.mk.injEq, Prod.mk.injEq] at hobs
  have hpackets := (h c (nic.reach_of_run hc)).packets (Option.isNone_iff_eq_none.mp hobs.1)
  rw [hobs.2.1, hobs.2.2] at hpackets
  exact absurd hpackets (by decide)

end Yasouos.Drivers.Rtl8139
