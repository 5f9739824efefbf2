import Yasouos.Drivers.Rtl8139

/-!
# Receiving on the RTL8139

What `rtl8139_receive` does to its place in the receive ring over whole runs.

The driver is to be at the header of the oldest packet it has not received, or, if there
is none, where the device will store the next. It advances by the length without the CRC,
so every packet it receives leaves it four bytes short of the next header.
`receive_aligned_iff` makes this exact: in a run whose packets fit the buffers of its
calls, the driver is where it should be between all calls if and only if no call finds a
packet in the ring. So the first packet is received, and after it the driver is lost;
`receive_skips` is a run in which it misses the second packet.
-/

namespace Yasouos.Drivers.Rtl8139

open Theory Prog

/-! ### What a run should do -/

/-- What a successful receive has returned. -/
def Entry.packet (e : Entry) : Option (Option ℕ × List UInt8) :=
  match e.call with
  | .receive _ => if e.result.code = 0 then some (e.result.receivedLength, e.result.buffer) else none
  | .transmit _ => none

/-- What the successful receives have returned, in order. -/
def received (log : List Entry) : List (Option ℕ × List UInt8) := log.filterMap Entry.packet

theorem received_append (log : List Entry) (e : Entry) : received (log ++ [e]) = received log ++ (Entry.packet e).toList := by
  cases h : Entry.packet e <;> simp [received, h]

/-- Where the header of packet number `k` starts: the first is at the start of the ring,
and each further one where the device puts it. -/
def headerStart (stored : List (List UInt8)) (k : ℕ) : ℕ :=
  (stored.take k).foldl (fun p data => nextStart p (data.length + 4)) 0

/-- The driver has received the packets stored so far, or the first of them, in order;
and it is at the header of the next. -/
def Aligned (c : Cfg Op Ans Mem Call Ctx Ret) : Prop :=
  received c.log = (c.shared.stored.take (received c.log).length).map (fun data => (some data.length, data)) ∧
    c.shared.offset = headerStart c.shared.stored (received c.log).length

/-- Every packet that was stored fits the buffer of every receive that was called. -/
def AllFit (c : Cfg Op Ans Mem Call Ctx Ret) : Prop :=
  ∀ data ∈ c.shared.stored, ∀ e ∈ c.log, ∀ n, e.call = .receive n → data.length ≤ n

theorem AllFit.of_calls {c : Cfg Op Ans Mem Call Ctx Ret} {size : ℕ} (hcalls : (c.log.map fun e => e.call) = [.receive size])
    (h : ∀ data ∈ c.shared.stored, data.length ≤ size) : AllFit c := by
  intro data hdata e he n hn
  have hcall : e.call ∈ [Call.receive size] := hcalls ▸ List.mem_map_of_mem he
  rw [hn, List.mem_singleton] at hcall
  cases hcall
  exact h data hdata

/-- When the driver reads the command register, the ring is empty. -/
def RingEmpty : Op → Mem → Prop
  | .readCmd, s => s.offset = s.cbr
  | _, _ => True

/-! ### Before the first packet is received -/

/-- The first packet is in the ring, with its header intact. -/
structure First (data : List UInt8) (s : Mem) : Prop where
  stored : ∃ rest, s.stored = data :: rest
  cbr_pos : 4 ≤ s.cbr
  cbr_lt : s.cbr < ringSize
  cbr_dvd : s.cbr % 4 = 0
  status : (s.rxBuffer 0).toNat % 2 = 1
  length : (s.rxBuffer 2).toNat + 256 * (s.rxBuffer 3).toNat = data.length + 4
  room : align4 (4 + (data.length + 4)) < ringSize

/-- **Nothing has been received**: the driver is at the start of the ring, which is empty
or begins with the first packet. -/
def Fresh (s : Mem) : Prop := s.capr = 0xFFF0 ∧ ((s.stored = [] ∧ s.cbr = 0) ∨ ∃ data, First data s)

variable {s s' : Mem} {ctx : Ctx} {data : List UInt8} {log : List Entry}

theorem First.congr (h : First data s) (hs : SameRx s s') : First data s' := by
  obtain ⟨h₁, -, h₃, h₄⟩ := hs
  obtain ⟨a, b, c, d, e, f, g⟩ := h
  exact ⟨h₄ ▸ a, h₃ ▸ b, h₃ ▸ c, h₃ ▸ d, h₁ ▸ e, h₁ ▸ f, g⟩

theorem Fresh.congr (h : Fresh s) (hs : SameRx s s') : Fresh s' := by
  obtain ⟨hcapr, h⟩ := h
  refine ⟨hs.2.1.trans hcapr, ?_⟩
  rcases h with ⟨h₁, h₂⟩ | ⟨data, h⟩
  · exact .inl ⟨hs.2.2.2.trans h₁, hs.2.2.1.trans h₂⟩
  · exact .inr ⟨data, h.congr hs⟩

/-- What the device does to the receive ring. -/
theorem device_rx {e : Dev} (h : device e s = some s') : SameRx s s' ∨
    ∃ lo hi data crc, lo.toNat % 2 = 1 ∧ crc.length = 4 ∧ s.cbr + 4 + (data.length + 4) ≤ rxBufferSize ∧
      ringDist ringSize s.offset s.cbr + align4 (4 + (data.length + 4)) < ringSize ∧ s'.capr = s.capr ∧
      s'.rxBuffer = store s.rxBuffer s.cbr (frame lo hi data crc) ∧ s'.cbr = nextStart s.cbr (data.length + 4) ∧
      s'.stored = s.stored ++ [data] := by
  cases e with
  | arrive lo hi data crc =>
    simp only [device, Option.ite_none_right_eq_some] at h
    obtain ⟨⟨hlo, hcrc, hfit, hroom⟩, h⟩ := h
    cases h
    exact .inr ⟨lo, hi, data, crc, hlo, hcrc, hfit, hroom, rfl, rfl, rfl, rfl⟩
  | send =>
    simp only [device] at h
    split at h
    · cases h
    · cases h
      exact .inl ⟨rfl, rfl, rfl, rfl⟩

theorem offset_of_capr (h : s.capr = 0xFFF0) : s.offset = 0 := by
  unfold Mem.offset
  rw [h]
  decide

theorem align4_add {k n : ℕ} (hk : k % 4 = 0) : align4 (k + n) = k + align4 n := by
  unfold align4
  omega

theorem nextStart_dvd (q len : ℕ) : nextStart q len % 4 = 0 := by
  unfold nextStart align4
  simp only [ringSize]
  omega

theorem nextStart_lt (q len : ℕ) : nextStart q len < ringSize := Nat.mod_lt _ (by decide)

/-- A packet stored at a multiple of four with room for it ends inside the ring. -/
theorem nextStart_eq {p len : ℕ} (hp : p % 4 = 0) (h : p + align4 (4 + len) < ringSize) :
    nextStart p len = p + align4 (4 + len) := by
  rw [nextStart, Nat.add_assoc, align4_add hp]
  exact Nat.mod_eq_of_lt h

/-- What is stored for a packet: the status, the length, and the packet behind them. -/
theorem frame_stored (lo hi : UInt8) (crc : List UInt8) (f : ℕ → UInt8) (q : ℕ)
    (hlen : data.length + 4 < 65536) :
    store f q (frame lo hi data crc) q = lo ∧
      (store f q (frame lo hi data crc) (q + 2)).toNat + 256 * (store f q (frame lo hi data crc) (q + 3)).toNat =
        data.length + 4 ∧
      load (store f q (frame lo hi data crc)) (q + 4) data.length = data := by
  have hframe : 4 + data.length ≤ (frame lo hi data crc).length := by simp [frame]; omega
  have hget : ∀ i (hi' : i < (frame lo hi data crc).length), store f q (frame lo hi data crc) (q + i) =
      (frame lo hi data crc)[i] := fun i hi' => store_apply f q _ hi'
  refine ⟨hget 0 (by omega), ?_, ?_⟩
  · rw [hget 2 (by omega), hget 3 (by omega)]
    show (UInt8.ofNat (data.length + 4)).toNat + 256 * (UInt8.ofNat ((data.length + 4) / 256)).toNat = _
    simp only [UInt8.toNat_ofNat']
    omega
  · refine List.ext_getElem (by simp) fun i h₁ h₂ => ?_
    rw [getElem_load, Nat.add_assoc, hget (4 + i) (by omega)]
    simp [frame, Nat.add_comm 4 i, List.getElem_append_left h₂]

/-- The first packet stored puts its header at the start of the ring. -/
theorem first_of_arrive {lo hi : UInt8} {crc : List UInt8} (hcbr : s.cbr = 0) (hstored : s.stored = [])
    (hlo : lo.toNat % 2 = 1) (hroom : align4 (4 + (data.length + 4)) < ringSize)
    (hbuf : s'.rxBuffer = store s.rxBuffer s.cbr (frame lo hi data crc)) (hcbr' : s'.cbr = nextStart s.cbr (data.length + 4))
    (hstored' : s'.stored = s.stored ++ [data]) : First data s' := by
  have hsize : data.length + 4 < 65536 := by
    simp only [align4, ringSize] at hroom
    omega
  obtain ⟨hstat, hlen, -⟩ := frame_stored lo hi crc s.rxBuffer 0 hsize
  have hpos : 4 ≤ align4 (4 + (data.length + 4)) := by unfold align4; omega
  rw [hcbr] at hbuf hcbr'
  rw [← hbuf] at hstat hlen
  have hnext : s'.cbr = align4 (4 + (data.length + 4)) := by
    rw [hcbr', nextStart_eq (by decide) (by omega), Nat.zero_add]
  refine ⟨⟨[], by rw [hstored', hstored]; rfl⟩, by omega, by omega, hcbr' ▸ nextStart_dvd _ _, ?_, hlen, hroom⟩
  rw [hstat]
  exact hlo

/-- A further packet does not touch the header of the first. -/
theorem First.arrive (h : First data s) {lo hi : UInt8} {d crc : List UInt8}
    (hroom : s.cbr + align4 (4 + (d.length + 4)) < ringSize)
    (hbuf : s'.rxBuffer = store s.rxBuffer s.cbr (frame lo hi d crc)) (hcbr' : s'.cbr = nextStart s.cbr (d.length + 4))
    (hstored' : s'.stored = s.stored ++ [d]) : First data s' := by
  obtain ⟨⟨rest, hstored⟩, hpos, hlt, hdvd, hstat, hlen, hr⟩ := h
  have hdvd' : s'.cbr % 4 = 0 := hcbr' ▸ nextStart_dvd _ _
  rw [nextStart_eq hdvd hroom] at hcbr'
  have hbyte : ∀ i < 4, s'.rxBuffer i = s.rxBuffer i := fun i hi => by
    rw [hbuf]
    exact store_outside _ _ _ (.inl (by omega))
  refine ⟨⟨rest ++ [d], by rw [hstored', hstored]; rfl⟩, by omega, by omega, hdvd', ?_, ?_, hr⟩
  · rw [hbyte 0 (by decide)]
    exact hstat
  · rw [hbyte 2 (by decide), hbyte 3 (by decide)]
    exact hlen

/-- Once the first packet is in the ring, it stays until the driver moves. -/
theorem First.stable (data : List UInt8) : nic.Stable fun s => s.capr = 0xFFF0 ∧ First data s := by
  rintro e s s' ⟨hcapr, hfirst⟩ he
  rcases device_rx he with hsame | ⟨lo, hi, d, crc, hlo, -, -, hroom, hcapr', hbuf, hcbr', hstored'⟩
  · exact ⟨hsame.2.1.trans hcapr, hfirst.congr hsame⟩
  refine ⟨hcapr'.trans hcapr, hfirst.arrive ?_ hbuf hcbr' hstored'⟩
  rwa [offset_of_capr hcapr, ringDist_eq (by decide) hfirst.cbr_lt, if_pos (Nat.zero_le _), Nat.sub_zero] at hroom

theorem Fresh.stable : nic.Stable Fresh := by
  rintro e s s' ⟨hcapr, ⟨hstored, hcbr⟩ | ⟨data, hfirst⟩⟩ he
  · rcases device_rx he with hsame | ⟨lo, hi, d, crc, hlo, -, -, hroom, hcapr', hbuf, hcbr', hstored'⟩
    · exact Fresh.congr ⟨hcapr, .inl ⟨hstored, hcbr⟩⟩ hsame
    · exact ⟨hcapr'.trans hcapr, .inr ⟨d, first_of_arrive hcbr hstored hlo (by omega) hbuf hcbr' hstored'⟩⟩
  · obtain ⟨h₁, h₂⟩ := First.stable data e s s' ⟨hcapr, hfirst⟩ he
    exact ⟨h₁, .inr ⟨data, h₂⟩⟩

/-! ### A receive that finds nothing -/

/-- What the driver finds when it comes to read the command register. -/
def FreshAtCmd : Op → Mem → Prop
  | .readCmd, s => Fresh s
  | _, _ => True

/-- The bit `BUFE` says whether the ring is empty. -/
theorem cmd_bufe (s : Mem) : s.cmd &&& cmdBUFE ≠ 0 ↔ s.offset = s.cbr := by
  unfold Mem.cmd
  by_cases h : s.offset = s.cbr
  · rw [if_pos h]
    exact iff_of_true (by decide) h
  · rw [if_neg h]
    exact iff_of_false (by decide) h

/-- The invariant between calls, while no call has found a packet. -/
def Unread (log : List Entry) (ctx : Ctx) (s : Mem) : Prop :=
  ctx.initialized = true ∧ received log = [] ∧ Fresh s

theorem Unread.stable (log : List Entry) (ctx : Ctx) : nic.Stable (Unread log ctx) :=
  fun e s s' h he => ⟨h.1, h.2.1, Fresh.stable e s s' h.2.2 he⟩

theorem Unread.append (h : Unread log ctx s) {e : Entry} (he : Entry.packet e = none) : Unread (log ++ [e]) ctx s := by
  refine ⟨h.1, ?_, h.2.2⟩
  rw [received_append, h.2.1, he]
  rfl

/-- A receive that finds the ring empty. -/
theorem receive_empty_safe (n : ℕ) (h : Unread log ctx s) :
    (rtl8139Receive n ctx).Safe nic.toMachine RingEmpty FreshAtCmd
      (fun r s' => Unread (log ++ [⟨.receive n, ctx, r.2, r.1⟩]) r.1 s') s := by
  simp only [rtl8139Receive, h.1, Bool.not_true, Bool.false_eq_true, if_false]
  refine Safe.op_of_stable (Unread.stable log ctx) h fun s₁ h₁ => ⟨h₁.2.2, fun hempty => ?_⟩
  show Safe _ _ _ _ (if s₁.cmd &&& cmdBUFE ≠ 0 then _ else _) _
  rw [if_pos ((cmd_bufe s₁).mpr hempty)]
  exact Safe.ret_of_stable (Unread.stable log ctx) h₁ fun s₂ h₂ => h₂.append rfl

theorem unread_call (l : List Entry) (k : Call) (p : Ctx) (s : Mem) (h : Unread l p s) :
    (nic.body k p).Safe nic.toMachine RingEmpty FreshAtCmd (fun r s => Unread (l ++ [⟨k, p, r.2, r.1⟩]) r.1 s) s := by
  cases k with
  | receive n => exact receive_empty_safe n h
  | transmit packet =>
    refine (Safe.of_all (transmit_all packet p) (Unread.stable l p) ?_ h).mono ?_
    · rintro o s ho ⟨hi, hrec, hfresh⟩
      refine ⟨?_, hi, hrec, hfresh.congr (exec_touchesTx ho s)⟩
      cases o <;> trivial
    · rintro r s' ⟨hi, hs'⟩
      have := hs'.append (e := ⟨.transmit packet, p, r.2, r.1⟩) rfl
      exact ⟨hi.trans h.1, this.2⟩

/-! ### A receive that finds a packet -/

/-- The driver has received the first packet, and is not at the header of the second. -/
def Lost (data : List UInt8) (s : Mem) : Prop :=
  (∃ rest, s.stored = data :: rest) ∧ s.offset ≠ nextStart 0 (data.length + 4)

theorem Lost.stable (data : List UInt8) : nic.Stable (Lost data) := by
  rintro e s s' ⟨⟨rest, hstored⟩, hoff⟩ he
  rcases device_rx he with ⟨-, hcapr, -, hst⟩ | ⟨_, _, d, _, _, _, _, _, hcapr, _, _, hst⟩
  · exact ⟨⟨rest, hst.trans hstored⟩, by rwa [Mem.offset, hcapr]⟩
  · exact ⟨⟨rest ++ [d], by rw [hst, hstored]; rfl⟩, by rwa [Mem.offset, hcapr]⟩

/-- The driver advances by the length without the CRC, four bytes less than it should. -/
theorem advance_ne {len : ℕ} (h : align4 (4 + (len + 4)) < ringSize) :
    ((align4 (0 + len + 4) % ringSize + (regMod - 16)) % regMod + 16) % ringSize ≠ nextStart 0 (len + 4) := by
  rw [nextStart_eq (by decide) (by omega)]
  simp only [align4, ringSize, regMod] at *
  omega

theorem First.lost (h : First data s) {v : ℕ} (hv : (v + 16) % ringSize ≠ nextStart 0 (data.length + 4)) :
    Lost data { s with capr := v } := ⟨h.stored, hv⟩

variable {A G : Op → Mem → Prop} (hG : ∀ o s, G o s)

include hG

/-- A receive that finds the first packet takes it, if it fits, and is lost after it. -/
theorem receive_first_safe (n : ℕ) (hi : ctx.initialized = true) (hcapr : s.capr = 0xFFF0) (h : First data s) :
    (rtl8139Receive n ctx).Safe nic.toMachine A G
      (fun r s' => data ∈ s'.stored ∧ (data.length ≤ n → r.2.code = 0 ∧ Lost data s')) s := by
  have hB := First.stable data
  simp only [rtl8139Receive, hi, Bool.not_true, Bool.false_eq_true, if_false]
  refine Safe.op_of_stable hB ⟨hcapr, h⟩ fun s₁ h₁ => ⟨hG _ _, fun _ => ?_⟩
  show Safe _ _ _ _ (if s₁.cmd &&& cmdBUFE ≠ 0 then _ else _) _
  have hne : ¬ s₁.offset = s₁.cbr := by
    have := h₁.2.cbr_pos
    rw [offset_of_capr h₁.1]
    omega
  rw [if_neg ((cmd_bufe s₁).not.mpr hne)]
  refine Safe.op_of_stable hB h₁ fun s₂ h₂ => ⟨hG _ _, fun _ => ?_⟩
  have hoff : (s₂.capr + 16) % ringSize = 0 := offset_of_capr h₂.1
  show Safe _ _ _ _ (readRx16 ((s₂.capr + 16) % ringSize) >>= fun status =>
    readRx16 ((s₂.capr + 16) % ringSize + 2) >>= fun len => receiveHeader n ctx ((s₂.capr + 16) % ringSize) status len) _
  rw [hoff]
  refine Safe.op_of_stable hB h₂ fun s₃ h₃ => ⟨hG _ _, fun _ => ?_⟩
  refine Safe.op_of_stable hB h₃ fun s₄ h₄ => ⟨hG _ _, fun _ => ?_⟩
  show Safe _ _ _ _ (receiveHeader n ctx 0 ((s₃.rxBuffer 0).toNat + 256 * (s₃.rxBuffer (0 + 1)).toNat)
    ((s₄.rxBuffer (0 + 2)).toNat + 256 * (s₄.rxBuffer (0 + 2 + 1)).toNat)) _
  rw [show (s₄.rxBuffer (0 + 2)).toNat + 256 * (s₄.rxBuffer (0 + 2 + 1)).toNat = data.length + 4 from h₄.2.length]
  have hstat : ¬ (((s₃.rxBuffer 0).toNat + 256 * (s₃.rxBuffer (0 + 1)).toNat) % 2 = 0 ∨ data.length + 4 < 4) := by
    have := h₃.2.status
    omega
  rw [receiveHeader, if_neg hstat]
  refine Safe.op_of_stable hB h₄ fun s₅ h₅ => ⟨hG _ _, fun _ => ?_⟩
  show Safe _ _ _ _ (acknowledge s₅.isr >>= fun _ => receivePacket n ctx 0 (data.length + 4 - 4)) s₅
  refine Safe.bind ((Safe.of_all (acknowledge_all _) hB ?_ h₅).mono ?_)
  · rintro o s ⟨v, rfl⟩ hs
    exact ⟨hG _ _, hs.1, hs.2.congr ⟨rfl, rfl, rfl, rfl⟩⟩
  rintro - s₆ ⟨-, h₆⟩
  rw [Nat.add_sub_cancel, receivePacket]
  have hmem : ∀ s : Mem, (∃ rest, s.stored = data :: rest) → data ∈ s.stored := by
    rintro s ⟨rest, hrest⟩
    rw [hrest]
    exact List.mem_cons_self
  split_ifs with hlen
  · exact Safe.ret_of_stable hB h₆ fun s₇ h₇ => ⟨hmem s₇ h₇.2.stored, fun hfit => absurd hlen (Nat.not_lt.mpr hfit)⟩
  refine Safe.bind ((Safe.of_all (readRx_all 0 data.length) hB ?_ h₆).mono ?_)
  · rintro o s ⟨a, rfl⟩ hs
    exact ⟨hG _ _, hs⟩
  rintro bytes s₇ ⟨-, h₇⟩
  refine Safe.op_of_stable hB h₇ fun s₈ h₈ => ⟨hG _ _, fun _ => ?_⟩
  refine Safe.ret_of_stable (Lost.stable data) (h₈.2.lost (advance_ne h₈.2.room)) fun s₉ h₉ => ?_
  exact ⟨hmem s₉ h₉.1, fun _ => ⟨rfl, h₉⟩⟩

omit hG

/-! ### Runs -/

/-- While no call has found a packet, the driver is where it should be. -/
theorem Unread.aligned {c : Cfg Op Ans Mem Call Ctx Ret} (h : Unread c.log c.priv c.shared) : Aligned c := by
  obtain ⟨-, hrec, hcapr, -⟩ := h
  rw [Aligned, hrec]
  exact ⟨rfl, offset_of_capr hcapr⟩

theorem unread_init : Unread [] initCtx initMem := ⟨rfl, rfl, rfl, .inl ⟨rfl, rfl⟩⟩

theorem unread_good {c : Cfg Op Ans Mem Call Ctx Ret} (h : nic.ReachUnder (fun _ => RingEmpty) start c) :
    nic.Good (fun _ => RingEmpty) (fun _ => FreshAtCmd) Unread c :=
  System.reach_safe Unread.stable unread_call (.start unread_init) h

/-- In the middle of a call, too, nothing has been received. -/
theorem received_nil {c : Cfg Op Ans Mem Call Ctx Ret} (h : nic.ReachUnder (fun _ => RingEmpty) start c) :
    received c.log = [] :=
  System.reach_always (S := nic) (J := fun l _ => received l = []) (G := fun _ => FreshAtCmd) Unread.stable unread_call
    (fun _ _ _ h => h.2.1) (fun _ _ _ _ h _ => h) (fun _ _ _ h => h) (.start unread_init) rfl h

/-- Only a receive reads the command register, and that is the first it does. -/
theorem body_tailAll (k : Call) (p : Ctx) : (nic.body k p).TailAll (· ≠ .readCmd) := by
  cases k with
  | receive n =>
    by_cases hi : p.initialized = true
    · obtain ⟨g, hg, hall⟩ := receive_eq n hi
      show (rtl8139Receive n p).TailAll _
      rw [hg]
      intro cmd
      refine (hall cmd).mono ?_ fun _ _ => trivial
      rintro o ho rfl
      exact ho
    · show (rtl8139Receive n p).TailAll _
      rw [rtl8139Receive, if_pos (by simpa using hi)]
      exact trivial
  | transmit packet =>
    have hall := transmit_all packet p
    show (rtl8139Transmit packet p).TailAll _
    cases hp : rtl8139Transmit packet p with
    | ret r => exact trivial
    | op o f =>
      rw [hp] at hall
      intro x
      refine (hall.2 x).mono ?_ fun _ _ => trivial
      rintro o ho rfl
      exact ho

/-- The device only ever adds to the packets stored. -/
theorem stored_mono {es : List (Event Call Dev)} {c c' : Cfg Op Ans Mem Call Ctx Ret} (h : nic.run c es = some c') :
    c.shared.stored <+: c'.shared.stored := by
  refine System.run_mono (S := nic) (R := fun c c' => c.shared.stored <+: c'.shared.stored) (fun _ => List.prefix_rfl)
    (fun _ _ _ => List.IsPrefix.trans) ?_ h
  rintro ⟨p, s, cur, l⟩ e c' hstep
  match e, cur, hstep with
  | .call k, none, hstep => cases hstep; exact List.prefix_rfl
  | .call k, some _, hstep => cases hstep
  | .tick, none, hstep => cases hstep
  | .tick, some (k, .ret (q, r)), hstep => cases hstep; exact List.prefix_rfl
  | .tick, some (k, .op o f), hstep =>
    cases hstep
    cases o <;> exact List.prefix_rfl
  | .env e, cur, hstep =>
    simp only [System.step, Option.map_eq_some_iff] at hstep
    obtain ⟨s', he, rfl⟩ := hstep
    rcases device_rx he with hsame | ⟨_, _, d, _, _, _, _, _, _, _, _, hst⟩
    · rw [show s'.stored = s.stored from hsame.2.2.2]
    · rw [show s'.stored = s.stored ++ [d] from hst]
      exact List.prefix_append _ _

/-- The first call that finds a packet takes it, and the state it leaves is not aligned. -/
theorem lost_of_found {es : List (Event Call Dev)} {c c' : Cfg Op Ans Mem Call Ctx Ret}
    (h : nic.ReachUnder (fun _ => RingEmpty) start c) {k : Call} {f : Ans .readCmd → Drv (Ctx × Ret)}
    (hcur : c.cur = some (k, .op .readCmd f)) (hne : c.shared.offset ≠ c.shared.cbr) (hrun : nic.run c es = some c')
    (hidle : c'.Idle) (hfit : AllFit c') :
    ∃ es₁ es₂ c₁, es = es₁ ++ es₂ ∧ nic.run c es₁ = some c₁ ∧ c₁.Idle ∧ ¬ Aligned c₁ := by
  have hfirst := System.first_of_reach (S := nic) body_tailAll (show start.Idle from rfl) (System.ReachUnder.reach nic h)
    hcur (by simp)
  obtain ⟨hcapr, ⟨hstored, hcbr⟩ | ⟨data, hdata⟩⟩ : Fresh c.shared := (unread_good h).guarantee hcur
  · rw [offset_of_capr hcapr, hcbr] at hne
    exact absurd rfl hne
  -- the call is a receive that has just begun
  obtain ⟨n, rfl⟩ : ∃ n, k = .receive n := by
    cases k with
    | receive n => exact ⟨n, rfl⟩
    | transmit packet =>
      have hall := transmit_all packet c.priv
      rw [show rtl8139Transmit packet c.priv = .op .readCmd f from hfirst.symm] at hall
      exact hall.1.elim
  have hi : c.priv.initialized = true := by
    by_contra hi
    have hret : nic.body (.receive n) c.priv = ret (c.priv, .fail) := by
      show rtl8139Receive n c.priv = _
      rw [rtl8139Receive, if_pos (by simpa using hi)]
      rfl
    rw [hret] at hfirst
    cases hfirst
  have hsafe := receive_first_safe (A := fun _ _ => True) (G := fun _ _ => True) (fun _ _ => trivial) n hi hcapr hdata
  rw [show rtl8139Receive n c.priv = .op .readCmd f from hfirst.symm] at hsafe
  obtain ⟨es₁, es₂, c₁, r, rfl, hrun₁, hrun₂, hidle₁, ⟨hmem, hQ⟩, hlog⟩ := System.run_returns hcur hsafe hrun hidle
  refine ⟨es₁, es₂, c₁, rfl, hrun₁, hidle₁, ?_⟩
  -- the packet fits, so the call has taken it
  have hstored : c₁.shared.stored <+: c'.shared.stored := stored_mono hrun₂
  have hentry : (⟨.receive n, c.priv, r.2, r.1⟩ : Entry) ∈ c'.log := by
    refine (System.run_log hrun₂).subset ?_
    rw [hlog]
    exact List.mem_append_right _ (List.mem_singleton_self _)
  obtain ⟨hcode, ⟨rest, hrest⟩, hoff⟩ := hQ (hfit data (hstored.subset hmem) _ hentry n rfl)
  rintro ⟨-, haligned⟩
  have hone : (received c₁.log).length = 1 := by
    rw [hlog, received_append, received_nil h]
    simp [Entry.packet, hcode]
  rw [hone, hrest] at haligned
  exact hoff haligned

/-- **When the driver keeps its place.** In a run that ends between calls and whose
packets all fit the buffers of its calls: between all calls the driver has received the
stored packets in order and is at the header of the next, if and only if no call finds a
packet in the ring. -/
theorem receive_aligned_iff (es : List (Event Call Dev)) (c : Cfg Op Ans Mem Call Ctx Ret)
    (hrun : nic.run start es = some c) (hidle : c.Idle) (hfit : AllFit c) :
    (∀ es₁ c₁, es₁ <+: es → nic.run start es₁ = some c₁ → c₁.Idle → Aligned c₁) ↔
      ∀ es₁ c₁ k f, es₁ ++ [.tick] <+: es → nic.run start es₁ = some c₁ → c₁.cur = some (k, .op .readCmd f) →
        c₁.shared.offset = c₁.shared.cbr := by
  -- a run in which no call finds a packet is one in which every event is as `RingEmpty` assumes
  have hmeets : ∀ es₁ c₁, nic.run start es₁ = some c₁ → (∀ es₂ c₂ k f, es₂ ++ [.tick] <+: es₁ →
      nic.run start es₂ = some c₂ → c₂.cur = some (k, .op .readCmd f) → c₂.shared.offset = c₂.shared.cbr) →
      nic.ReachUnder (fun _ => RingEmpty) start c₁ := by
    intro es₁ c₁ hrun₁ h
    refine System.reachUnder_of_meets hrun₁ fun es₂ e c₂ hpre hrun₂ => ?_
    cases e with
    | tick =>
      intro k o f hcur
      cases o with
      | readCmd => exact h es₂ c₂ k f hpre hrun₂ hcur
      | _ => exact trivial
    | call k => exact trivial
    | env e => exact trivial
  constructor
  · intro haligned es₁
    -- by induction on the length: before this call, no call has found a packet
    induction hn : es₁.length using Nat.strong_induction_on generalizing es₁ with
    | _ m ih =>
      intro c₁ k f hpre hrun₁ hcur
      by_contra hne
      have hreach := hmeets es₁ c₁ hrun₁ fun es₂ c₂ k₂ f₂ hpre₂ hrun₂ => by
        have hlen := hpre₂.length_le
        rw [List.length_append, List.length_singleton] at hlen
        exact ih es₂.length (by omega) es₂ rfl c₂ k₂ f₂ ((hpre₂.trans (List.prefix_append _ _)).trans hpre) hrun₂
      obtain ⟨rest, rfl⟩ := (List.prefix_append es₁ [.tick]).trans hpre
      rw [System.run_append, hrun₁, Option.bind_some] at hrun
      obtain ⟨es₃, es₄, c₃, rfl, hrun₃, hidle₃, hnot⟩ := lost_of_found hreach hcur hne hrun hidle hfit
      refine hnot (haligned (es₁ ++ es₃) c₃ ?_ ?_ hidle₃)
      · rw [← List.append_assoc]
        exact List.prefix_append _ _
      · rw [System.run_append, hrun₁, Option.bind_some]
        exact hrun₃
  · intro h es₁ c₁ hpre hrun₁ hidle₁
    have hreach := hmeets es₁ c₁ hrun₁ fun es₂ c₂ k f hpre₂ => h es₂ c₂ k f (hpre₂.trans hpre)
    exact ((unread_good hreach).idle hidle₁).aligned

/-- A call finds the ring empty, and a packet of one byte arrives after it. -/
def lateArrival : List (Event Call Dev) := [.call (.receive 64), .tick, .tick, .env (.arrive 1 0 [7] [0, 0, 0, 0])]

theorem receive_aligned_lateArrival :
    ∃ c, nic.run start lateArrival = some c ∧ c.shared.stored = [[7]] ∧
      ((∀ es₁ c₁, es₁ <+: lateArrival → nic.run start es₁ = some c₁ → c₁.Idle → Aligned c₁) ↔
        ∀ es₁ c₁ k f, es₁ ++ [.tick] <+: lateArrival → nic.run start es₁ = some c₁ →
          c₁.cur = some (k, .op .readCmd f) → c₁.shared.offset = c₁.shared.cbr) := by
  obtain ⟨c, hc⟩ : ∃ c, nic.run start lateArrival = some c := Option.isSome_iff_exists.mp (by decide)
  have hobs : (nic.run start lateArrival).map (fun c => (c.cur.isNone, c.shared.stored, c.log.map fun e => e.call)) =
      some (true, [[7]], [.receive 64]) := by decide
  rw [hc, Option.map_some, Option.some.injEq, Prod.mk.injEq, Prod.mk.injEq] at hobs
  obtain ⟨hidle, hstored, hcalls⟩ := hobs
  refine ⟨c, hc, hstored, receive_aligned_iff _ c hc (Option.isNone_iff_eq_none.mp hidle) (.of_calls hcalls ?_)⟩
  rw [hstored]
  decide

/-- A packet of one byte arrives and is received, and another one arrives. -/
def twoPackets : List (Event Call Dev) :=
  [.env (.arrive 1 0 [7] [0, 0, 0, 0]), .call (.receive 64)] ++ List.replicate 9 .tick ++
    [.env (.arrive 1 0 [8] [0, 0, 0, 0])]

/-- After the first packet the driver is at offset 8, while the header of the second is at
offset 12. -/
theorem receive_skips : ¬ ∀ c, nic.Reach start c → c.Idle → AllFit c → Aligned c := by
  intro h
  obtain ⟨c, hc⟩ : ∃ c, nic.run start twoPackets = some c := Option.isSome_iff_exists.mp (by decide)
  have hobs : (nic.run start twoPackets).map (fun c => (c.cur.isNone, c.shared.stored, c.log.map fun e => e.call,
      (received c.log).length, c.shared.offset)) = some (true, [[7], [8]], [.receive 64], 1, 8) := by decide
  rw [hc, Option.map_some, Option.some.injEq, Prod.mk.injEq, Prod.mk.injEq, Prod.mk.injEq, Prod.mk.injEq] at hobs
  obtain ⟨hidle, hstored, hcalls, hone, hoff⟩ := hobs
  have hfit : AllFit c := .of_calls hcalls (by rw [hstored]; decide)
  have hat := (h c (nic.reach_of_run hc) (Option.isNone_iff_eq_none.mp hidle) hfit).2
  rw [hone, hoff, hstored] at hat
  exact absurd hat (by decide)

end Yasouos.Drivers.Rtl8139
