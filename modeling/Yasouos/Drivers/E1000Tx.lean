import Yasouos.Drivers.E1000

/-!
# Transmitting on the E1000

What `e1000_transmit` does over whole runs, against the transmitter as specified, which
sends whenever it likes, also between two accesses of one call.

The driver takes a descriptor to be free when its DD bit is set; the device takes the
ring to be empty when `TDH` is `TDT`. `transmit_visible` says that the two agree, and
that the packets accepted are those sent and those the device will send, in order, as
long as the device owns fewer than 7 descriptors whenever the driver writes `TDT`.
`transmit_hides_packets` is the run that breaks this: the eighth packet makes `TDT` equal
to `TDH`, and the device takes the full ring to be empty.
-/

namespace Yasouos.Drivers.E1000

open Theory Prog

/-! ### What a run should do -/

/-- The packets that were accepted, in order. -/
def accepted (log : List (Done Call Ctx Ret)) : List (List UInt8) :=
  log.filterMap fun e =>
    match e.call with
    | .transmit packet => if e.result.code = 0 then some packet else none
    | .receive _ => none

theorem accepted_receive (log : List (Done Call Ctx Ret)) (n : ℕ) (p q : Ctx) (r : Ret) :
    accepted (log ++ [⟨.receive n, p, r, q⟩]) = accepted log := by
  simp [accepted]

theorem accepted_transmit (log : List (Done Call Ctx Ret)) (packet : List UInt8) (p q : Ctx) (r : Ret) :
    accepted (log ++ [⟨.transmit packet, p, r, q⟩]) = accepted log ++ (if r.code = 0 then [packet] else []) := by
  by_cases hcode : r.code = 0 <;> simp [accepted, hcode]

/-- The descriptors the device owns, from `TDH` up to `TDT`. -/
def Mem.ownedTx (s : Mem) : List ℕ := window numDesc numDesc id s.tdh s.tdt

/-- The packets the device has yet to send. -/
def Mem.visible (s : Mem) : List (List UInt8) := s.ownedTx.map s.txPacket

/-- The device owns exactly the descriptors whose DD bit is clear, and the packets
accepted are those sent and those the device has yet to send, in order. -/
def TxAgree (c : Cfg Op Ans Mem Call Ctx Ret) : Prop :=
  (∀ i < numDesc, i ∈ c.shared.ownedTx ↔ ¬ (c.shared.txDescs i).dd) ∧
    accepted c.log = c.shared.sent ++ c.shared.visible

/-- When the driver writes `TDT`, the device owns fewer than 7 descriptors. -/
def RoomForOne : Op → Mem → Prop
  | .writeTdt _, s => s.ownedTx.length < numDesc - 1
  | _, _ => True

instance : (o : Op) → (s : Mem) → Decidable (RoomForOne o s)
  | .writeTdt _, s => inferInstanceAs (Decidable (s.ownedTx.length < numDesc - 1))
  | .readRxStatus _, _ | .readRxLength _, _ | .readRx _, _ | .writeRxStatus _ _, _ | .writeRdt _, _
  | .readTxStatus _, _ | .writeTx _ _, _ | .writeTxLength _ _, _ | .writeTxCmd _ _, _ | .writeTxStatus _ _, _ =>
    isTrue trivial

theorem length_ownedTx (s : Mem) : s.ownedTx.length = ringDist numDesc s.tdh s.tdt := length_window ..

theorem visible_eq (s : Mem) : s.visible = window numDesc numDesc s.txPacket s.tdh s.tdt := by
  simp [Mem.visible, Mem.ownedTx, window]

/-! ### The invariant -/

/-- **The transmit ring**, when the driver is at descriptor `cur` and has accepted the
packets `acc`. What the descriptor `cur` itself says is left open. -/
structure TxCore (acc : List (List UInt8)) (cur : ℕ) (s : Mem) : Prop where
  cur_lt : cur < numDesc
  tdh_lt : s.tdh < numDesc
  tdt_eq : s.tdt = cur
  addr : ∀ i < numDesc, (s.txDescs i).bufferAddr = i * bufferSize
  length_le : ∀ i < numDesc, (s.txDescs i).length ≤ bufferSize
  /-- The other descriptors are the device's exactly when their DD bit is clear. -/
  owned : ∀ i < numDesc, i ≠ cur → (¬ (s.txDescs i).dd ↔ ringDist numDesc s.tdh i < ringDist numDesc s.tdh cur)
  acc_eq : acc = s.sent ++ window numDesc numDesc s.txPacket s.tdh cur

variable {acc : List (List UInt8)} {cur : ℕ} {s s' : Mem} {ctx : Ctx} {packet : List UInt8}

/-- The device does not own the driver's descriptor. -/
theorem TxCore.slot_ne (h : TxCore acc cur s) {k : ℕ} (hk : k < ringDist numDesc s.tdh cur) :
    (s.tdh + k) % numDesc < numDesc ∧ (s.tdh + k) % numDesc ≠ cur := by
  refine ⟨Nat.mod_lt _ (by decide), ?_⟩
  have := slot_free (dvd_refl numDesc) h.tdh_lt h.cur_lt (ringDist_lt _ h.cur_lt) k hk
  rwa [Nat.mod_eq_of_lt h.cur_lt] at this

/-- **Frame.** The driver may do what it likes with its own descriptor and the buffer of
that descriptor. -/
theorem TxCore.frame (h : TxCore acc cur s) (htdh : s'.tdh = s.tdh) (htdt : s'.tdt = s.tdt) (hsent : s'.sent = s.sent)
    (hdesc : ∀ i, i ≠ cur → s'.txDescs i = s.txDescs i)
    (hbuf : ∀ a, a < cur * bufferSize ∨ (cur + 1) * bufferSize ≤ a → s'.txBuffers a = s.txBuffers a)
    (haddr : (s'.txDescs cur).bufferAddr = cur * bufferSize) (hlen : (s'.txDescs cur).length ≤ bufferSize) :
    TxCore acc cur s' := by
  have hpacket : ∀ i < numDesc, i ≠ cur → s'.txPacket i = s.txPacket i := by
    intro i hi hne
    simp only [Mem.txPacket, hdesc i hne]
    refine load_congr fun j hj => hbuf _ ?_
    have h₁ := h.addr i hi
    have h₂ := h.length_le i hi
    simp only [bufferSize] at *
    omega
  refine ⟨h.cur_lt, htdh ▸ h.tdh_lt, htdt ▸ h.tdt_eq, fun i hi => ?_, fun i hi => ?_, fun i hi hne => ?_, ?_⟩
  · by_cases hne : i = cur
    · rw [hne, haddr]
    · rw [hdesc i hne]
      exact h.addr i hi
  · by_cases hne : i = cur
    · rw [hne]
      exact hlen
    · rw [hdesc i hne]
      exact h.length_le i hi
  · rw [hdesc i hne, htdh]
    exact h.owned i hi hne
  · rw [h.acc_eq, hsent, htdh]
    congr 1
    refine window_congr fun k hk => ?_
    obtain ⟨hlt, hne⟩ := h.slot_ne hk
    exact (hpacket _ hlt hne).symm

theorem TxCore.congr (h : TxCore acc cur s) (hs : SameTx s s') : TxCore acc cur s' := by
  obtain ⟨h₁, h₂, h₃, h₄, h₅⟩ := hs
  refine h.frame h₃ h₄ h₅ (fun i _ => by rw [h₁]) (fun a _ => by rw [h₂]) ?_ ?_
  · rw [h₁]; exact h.addr cur h.cur_lt
  · rw [h₁]; exact h.length_le cur h.cur_lt

/-- The device sends the oldest packet. -/
theorem TxCore.send (h : TxCore acc cur s) {d : TxDesc} (hne : s.tdh ≠ s.tdt) (hdd : d.dd)
    (haddr : d.bufferAddr = (s.txDescs s.tdh).bufferAddr) (hlen : d.length = (s.txDescs s.tdh).length)
    (htdt : s'.tdt = s.tdt) (htdh : s'.tdh = (s.tdh + 1) % numDesc) (hsent : s'.sent = s.sent ++ [s.txPacket s.tdh])
    (hbuf : s'.txBuffers = s.txBuffers) (hdesc : s'.txDescs = Function.update s.txDescs s.tdh d) :
    TxCore acc cur s' := by
  have htdh' : s'.tdh < numDesc := htdh ▸ Nat.mod_lt _ (by decide)
  rw [h.tdt_eq] at hne
  have hpacket : s'.txPacket = s.txPacket := by
    funext i
    simp only [Mem.txPacket, hbuf, hdesc]
    by_cases hi : i = s.tdh
    · subst hi
      rw [Function.update_self, haddr, hlen]
    · rw [Function.update_of_ne hi]
  have hcur := ringDist_succ_left h.tdh_lt h.cur_lt hne
  refine ⟨h.cur_lt, htdh', htdt.trans h.tdt_eq, fun i hi => ?_, fun i hi => ?_, fun i hi hic => ?_, ?_⟩
  · by_cases hit : i = s.tdh
    · subst hit
      rw [hdesc, Function.update_self, haddr]
      exact h.addr _ hi
    · rw [hdesc, Function.update_of_ne hit]
      exact h.addr i hi
  · by_cases hit : i = s.tdh
    · subst hit
      rw [hdesc, Function.update_self, hlen]
      exact h.length_le _ hi
    · rw [hdesc, Function.update_of_ne hit]
      exact h.length_le i hi
  · rw [htdh, hdesc]
    by_cases hit : i = s.tdh
    · -- the descriptor just sent is now the last the device would come to
      subst hit
      rw [Function.update_self]
      refine iff_of_false (not_not.mpr hdd) ?_
      have hlast := ringDist_succ_self h.tdh_lt
      have := ringDist_lt ((s.tdh + 1) % numDesc) h.cur_lt
      omega
    · rw [Function.update_of_ne hit, h.owned i hi hic]
      have := ringDist_succ_left h.tdh_lt hi (Ne.symm hit)
      omega
  · rw [h.acc_eq, hsent, hpacket, htdh, window_pop (dvd_refl numDesc) s.txPacket h.tdh_lt h.cur_lt hne,
      Nat.mod_eq_of_lt h.tdh_lt]
    simp

/-- What the device does to the ring of a driver at `cur`. -/
theorem TxCore.device (h : TxCore acc cur s) {e : Dev} (he : device e s = some s') :
    TxCore acc cur s' ∧ s'.txBuffers = s.txBuffers ∧ s'.txDescs cur = s.txDescs cur := by
  rcases device_cases he with ⟨-, hsame, -, -, -⟩ | ⟨hne, -, htdt, htdh, hsent, hbuf, d, hdd, haddr, hlen, hdesc⟩
  · exact ⟨h.congr hsame, hsame.2.1, by rw [hsame.1]⟩
  · refine ⟨h.send hne hdd haddr hlen htdt htdh hsent hbuf hdesc, hbuf, ?_⟩
    rw [hdesc, Function.update_of_ne]
    rw [h.tdt_eq] at hne
    exact hne.symm

/-- The ring, and what is known of the driver's own descriptor and the buffers. -/
def Slot (acc : List (List UInt8)) (cur : ℕ) (P : (ℕ → UInt8) → TxDesc → Prop) (s : Mem) : Prop :=
  TxCore acc cur s ∧ P s.txBuffers (s.txDescs cur)

theorem Slot.stable (acc : List (List UInt8)) (cur : ℕ) (P : (ℕ → UInt8) → TxDesc → Prop) :
    nic.Stable (Slot acc cur P) := by
  rintro e s s' ⟨h, hP⟩ he
  obtain ⟨h', hbuf, hdesc⟩ := h.device he
  exact ⟨h', by rw [hbuf, hdesc]; exact hP⟩

/-! ### A call of `e1000_transmit` -/

/-- The first `n` bytes of the packet are in the driver's buffer. -/
def Copied (packet : List UInt8) (cur n : ℕ) (buf : ℕ → UInt8) : Prop :=
  ∀ j < n, buf (cur * bufferSize + j) = packet.getD j 0

theorem Copied.load {buf : ℕ → UInt8} (h : Copied packet cur packet.length buf) :
    load buf (cur * bufferSize) packet.length = packet := by
  refine List.ext_getElem (by simp) fun j h₁ h₂ => ?_
  rw [getElem_load, h j h₂]
  simp [h₂]

/-- Copying one more byte. -/
theorem Slot.writeTx (hlen : packet.length ≤ bufferSize) {n : ℕ} (hn : n < packet.length)
    (h : Slot acc cur (fun buf _ => Copied packet cur n buf) s) :
    Slot acc cur (fun buf _ => Copied packet cur (n + 1) buf)
      (exec (.writeTx (cur * bufferSize + n) (packet.get ⟨n, hn⟩)) s).2 := by
  obtain ⟨hc, hcopy⟩ := h
  refine ⟨hc.frame rfl rfl rfl (fun _ _ => rfl) (fun a ha => ?_) (hc.addr cur hc.cur_lt) (hc.length_le cur hc.cur_lt),
    fun j hj => ?_⟩
  · refine Function.update_of_ne ?_ _ _
    simp only [bufferSize] at *
    omega
  · show Function.update s.txBuffers _ _ _ = _
    by_cases hjn : j = n
    · subst hjn
      rw [Function.update_self]
      simp [hn]
    · rw [Function.update_of_ne (by omega)]
      exact hcopy j (by omega)

/-- Writing a field of the driver's own descriptor, all but where its buffer is. -/
theorem Slot.writeDesc {P Q : (ℕ → UInt8) → TxDesc → Prop} {d : TxDesc} (h : Slot acc cur P s)
    (haddr : d.bufferAddr = (s.txDescs cur).bufferAddr) (hlen : d.length ≤ bufferSize)
    (hQ : P s.txBuffers (s.txDescs cur) → Q s.txBuffers d) :
    Slot acc cur Q { s with txDescs := Function.update s.txDescs cur d } := by
  obtain ⟨hc, hP⟩ := h
  refine ⟨hc.frame rfl rfl rfl (fun i hi => Function.update_of_ne hi _ _) (fun _ _ => rfl) ?_ ?_, ?_⟩
  · show (Function.update s.txDescs cur d cur).bufferAddr = _
    rw [Function.update_self, haddr]
    exact hc.addr cur hc.cur_lt
  · show (Function.update s.txDescs cur d cur).length ≤ _
    rwa [Function.update_self]
  · show Q s.txBuffers (Function.update s.txDescs cur d cur)
    rw [Function.update_self]
    exact hQ hP

/-- A driver that is at `cur`, with the descriptor free for it. -/
def TxReady (acc : List (List UInt8)) (cur : ℕ) : Mem → Prop := Slot acc cur fun _ d => d.dd

/-- With room for one more, advancing `TDT` makes the packet the device's, and the next
descriptor is free. -/
theorem Slot.writeTdt (h : Slot acc cur (fun buf d => Copied packet cur packet.length buf ∧
      d.length = packet.length ∧ d.status = 0) s) (hroom : s.ownedTx.length < numDesc - 1) :
    TxReady (acc ++ [packet]) ((cur + 1) % numDesc) { s with tdt := (cur + 1) % numDesc } := by
  obtain ⟨hc, hcopy, hlen, hstat⟩ := h
  rw [length_ownedTx, hc.tdt_eq] at hroom
  have hnext : (cur + 1) % numDesc < numDesc := Nat.mod_lt _ (by decide)
  have hdist := ringDist_succ_right hc.tdh_lt hc.cur_lt (by omega)
  have hpacket : s.txPacket cur = packet := by
    rw [Mem.txPacket, hc.addr cur hc.cur_lt, hlen]
    exact hcopy.load
  have hdd : ¬ (s.txDescs cur).dd := by
    rw [TxDesc.dd, hstat]
    decide
  refine ⟨⟨hnext, hc.tdh_lt, rfl, hc.addr, hc.length_le, fun i hi hne => ?_, ?_⟩, ?_⟩
  · show ¬ (s.txDescs i).dd ↔ _
    rw [hdist]
    by_cases hic : i = cur
    · subst hic
      exact iff_of_true hdd (Nat.lt_succ_self _)
    · rw [hc.owned i hi hic]
      have hinj := mt (ringDist_inj hc.tdh_lt hi hc.cur_lt) hic
      show _ ↔ ringDist numDesc s.tdh i < _
      omega
  · show acc ++ [packet] = s.sent ++ window numDesc numDesc s.txPacket s.tdh _
    rw [window_advance (dvd_refl numDesc) s.txPacket hc.tdh_lt hc.cur_lt (by omega), Nat.mod_eq_of_lt hc.cur_lt, hpacket,
      ← List.append_assoc, hc.acc_eq]
  · have hne : (cur + 1) % numDesc ≠ cur := by
      have := hc.cur_lt
      simp only [numDesc] at *
      omega
    by_contra hnot
    have := (hc.owned _ hnext hne).mp hnot
    omega

variable {G : Op → Mem → Prop} (hG : ∀ o s, G o s)

include hG

/-- **A call of `e1000_transmit`**, as long as there is room when it writes `TDT`: it
accepts every packet that fits a buffer, and the driver is ready for the next. -/
theorem transmit_safe (packet : List UInt8) (hi : ctx.initialized = true) (h : TxReady acc ctx.txCurrent s) :
    (e1000Transmit packet ctx).Safe nic.toMachine RoomForOne G
      (fun r s' => TxReady (acc ++ (if r.2.code = 0 then [packet] else [])) r.1.txCurrent s') s := by
  simp only [e1000Transmit, hi, Bool.not_true, Bool.false_eq_true, if_false]
  split_ifs with hlen
  · refine Safe.ret_of_stable (Slot.stable _ _ _) h fun s' h' => ?_
    rw [if_neg (show ¬ Ret.fail.code = 0 by decide), List.append_nil]
    exact h'
  refine Safe.op_of_stable (Slot.stable _ _ _) h fun s₁ h₁ => ⟨hG _ _, fun _ => ?_⟩
  show Safe _ _ _ _ (if (s₁.txDescs ctx.txCurrent).status &&& statDD = 0 then _ else _) _
  rw [if_neg h₁.2]
  have hle : packet.length ≤ bufferSize := Nat.not_lt.mp hlen
  have hstart : Slot acc ctx.txCurrent (fun buf _ => Copied packet ctx.txCurrent 0 buf) s₁ :=
    ⟨h₁.1, fun j hj => absurd hj (Nat.not_lt_zero j)⟩
  refine Safe.bind ((Safe.writeEach (B := fun n => Slot acc ctx.txCurrent fun buf _ => Copied packet ctx.txCurrent n buf)
    (fun n => Slot.stable _ _ _) (fun n hn s hs => ?_) hstart).mono fun _ s₂ h₂ => ?_)
  · refine Safe.op_of_stable (Slot.stable _ _ _) hs fun s' hs' => ⟨hG _ _, fun _ => ?_⟩
    exact Safe.ret_of_stable (Slot.stable _ _ _) (hs'.writeTx hle hn) fun _ h => h
  -- the fields of the descriptor, one by one
  refine Safe.op_of_stable (Slot.stable _ _ _) h₂ fun s₃ h₃ => ⟨hG _ _, fun _ => ?_⟩
  have hlength := h₃.writeDesc (d := { s₃.txDescs ctx.txCurrent with length := packet.length })
    (Q := fun buf d => Copied packet ctx.txCurrent packet.length buf ∧ d.length = packet.length) rfl hle fun hcopy =>
      ⟨hcopy, rfl⟩
  refine Safe.op_of_stable (Slot.stable _ _ _) hlength fun s₄ h₄ => ⟨hG _ _, fun _ => ?_⟩
  have hcmd := h₄.writeDesc (d := { s₄.txDescs ctx.txCurrent with cmd := cmdEOPRS })
    (Q := fun buf d => Copied packet ctx.txCurrent packet.length buf ∧ d.length = packet.length) rfl
    (h₄.2.2.le.trans hle) fun hP => hP
  refine Safe.op_of_stable (Slot.stable _ _ _) hcmd fun s₅ h₅ => ⟨hG _ _, fun _ => ?_⟩
  have hstatus := h₅.writeDesc (d := { s₅.txDescs ctx.txCurrent with status := 0 })
    (Q := fun buf d => Copied packet ctx.txCurrent packet.length buf ∧ d.length = packet.length ∧ d.status = 0) rfl
    (h₅.2.2.le.trans hle) fun hP => ⟨hP.1, hP.2, rfl⟩
  refine Safe.op_of_stable (Slot.stable _ _ _) hstatus fun s₆ h₆ => ⟨hG _ _, fun hroom => ?_⟩
  refine Safe.ret_of_stable (Slot.stable _ _ _) (h₆.writeTdt hroom) fun s' h' => ?_
  rw [if_pos rfl]
  exact h'

omit hG

/-! ### Runs -/

/-- The invariant between calls. -/
def TxInv (log : List (Done Call Ctx Ret)) (ctx : Ctx) (s : Mem) : Prop :=
  ctx.initialized = true ∧ TxReady (accepted log) ctx.txCurrent s

theorem TxInv.stable (log : List (Done Call Ctx Ret)) (ctx : Ctx) : nic.Stable (TxInv log ctx) :=
  fun e s s' h he => ⟨h.1, Slot.stable _ _ _ e s s' h.2 he⟩

/-- Every call of the driver keeps the invariant. -/
theorem tx_call (l : List (Done Call Ctx Ret)) (k : Call) (p : Ctx) (s : Mem) (h : TxInv l p s) :
    (nic.body k p).Safe nic.toMachine RoomForOne (fun _ _ => True)
      (fun r s => TxInv (l ++ [⟨k, p, r.2, r.1⟩]) r.1 s) s := by
  obtain ⟨hi, hr⟩ := h
  cases k with
  | receive n =>
    refine (Safe.of_all (receive_all n p) (Slot.stable _ _ _) ?_ hr).mono ?_
    · intro o s ho ⟨hc, hdd⟩
      have hsame := exec_touchesRx ho s
      exact ⟨trivial, hc.congr hsame, by rw [show (nic.exec o s).2.txDescs = s.txDescs from hsame.1]; exact hdd⟩
    · rintro r s' ⟨⟨hcur, hi'⟩, hs'⟩
      refine ⟨hi'.trans hi, ?_⟩
      rw [hcur, accepted_receive]
      exact hs'
  | transmit packet =>
    refine ((transmit_safe (fun _ _ => trivial) packet hi hr).and_all (transmit_all packet p)).mono ?_
    rintro r s' ⟨⟨-, hi'⟩, hs'⟩
    refine ⟨hi'.trans hi, ?_⟩
    rw [accepted_transmit]
    exact hs'

theorem txInv_init : TxInv [] initCtx initMem := by
  refine ⟨rfl, ⟨by decide, by decide, rfl, fun _ _ => rfl, fun _ _ => Nat.zero_le _, fun i _ _ => ?_, rfl⟩, ?_⟩
  · exact iff_of_false (not_not.mpr (show (1 : UInt8) &&& 1 ≠ 0 by decide)) (Nat.not_lt_zero _)
  · exact show (1 : UInt8) &&& 1 ≠ 0 by decide

/-- **No packet is hidden as long as there is room.** In every run in which the device
owns fewer than 7 descriptors whenever the driver writes `TDT`: between calls, the device
owns exactly the descriptors whose DD bit is clear, and the packets accepted are those
sent and those the device has yet to send, in order and unchanged. -/
theorem transmit_visible (c : Cfg Op Ans Mem Call Ctx Ret) (h : nic.ReachUnder (fun _ => RoomForOne) start c)
    (hc : c.Idle) : TxAgree c := by
  have hgood : nic.Good (fun _ => RoomForOne) (fun _ _ _ => True) TxInv c :=
    System.reach_safe TxInv.stable tx_call (.start txInv_init) h
  obtain ⟨-, hcore, hdd⟩ := hgood.idle hc
  have htdt := hcore.tdt_eq
  refine ⟨fun i hi => ?_, ?_⟩
  · rw [Mem.ownedTx, htdt, mem_window_id hcore.tdh_lt hcore.cur_lt hi]
    by_cases hic : i = c.priv.txCurrent
    · rw [hic]
      exact iff_of_false (Nat.lt_irrefl _) (not_not.mpr hdd)
    · exact (hcore.owned i hi hic).symm
  · rw [visible_eq, htdt]
    exact hcore.acc_eq

/-- Two packets are accepted, and the device sends the first. -/
def twoPackets : List (Event Call Dev) :=
  [.call (.transmit [1, 2])] ++ List.replicate 8 .tick ++ [.call (.transmit [3])] ++ List.replicate 7 .tick ++ [.env .send]

theorem transmit_visible_twoPackets :
    ∃ c, nic.runUnder (fun _ => RoomForOne) start twoPackets = some c ∧ c.shared.sent = [[1, 2]] ∧
      c.shared.visible = [[3]] ∧ TxAgree c := by
  obtain ⟨c, hc⟩ : ∃ c, nic.runUnder (fun _ => RoomForOne) start twoPackets = some c :=
    Option.isSome_iff_exists.mp (by decide)
  have hobs : (nic.runUnder (fun _ => RoomForOne) start twoPackets).map (fun c =>
      (c.cur.isNone, c.shared.sent, c.shared.visible)) = some (true, [[1, 2]], [[3]]) := by decide
  rw [hc, Option.map_some, Option.some.injEq, Prod.mk.injEq, Prod.mk.injEq] at hobs
  have hidle := Option.isNone_iff_eq_none.mp hobs.1
  exact ⟨c, hc, hobs.2.1, hobs.2.2, transmit_visible c (nic.reachUnder_of_run _ hc) hidle⟩

/-- Eight packets of one byte are accepted, and the device sends none of them. -/
def eightPackets : List (Event Call Dev) :=
  (List.replicate 8 ([.call (.transmit [1])] ++ List.replicate 7 .tick)).flatten

/-- After eight packets `TDT` is back at `TDH`: the device owns no descriptor, and the
eight packets are neither sent nor to be sent. -/
theorem transmit_hides_packets : ¬ ∀ c, nic.Reach start c → c.Idle → TxAgree c := by
  intro h
  obtain ⟨c, hc⟩ : ∃ c, nic.run start eightPackets = some c := Option.isSome_iff_exists.mp (by decide)
  have hobs : (nic.run start eightPackets).map (fun c =>
      (c.cur.isNone, (accepted c.log).length, (c.shared.sent ++ c.shared.visible).length)) = some (true, 8, 0) := by
    decide
  rw [hc, Option.map_some, Option.some.injEq, Prod.mk.injEq, Prod.mk.injEq] at hobs
  have hagree := h c (nic.reach_of_run hc) (Option.isNone_iff_eq_none.mp hobs.1)
  have hlen := congrArg List.length hagree.2
  rw [hobs.2.1, hobs.2.2] at hlen
  cases hlen

end Yasouos.Drivers.E1000
