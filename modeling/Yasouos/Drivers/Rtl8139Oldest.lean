import Yasouos.Drivers.Rtl8139Rx

/-!
# The oldest packet in the ring of the RTL8139

What one call of `rtl8139_receive` does with the packet that the driver is at, wherever in the ring that is.

With the WRAP bit set the device stores a packet contiguously, past the end of the ring if it must, but the copy
loop of the driver goes on at the start of the ring. `receive_copies_iff` says exactly when the caller gets
the packet all the same. A packet that is longer than the caller's buffer is refused before `CAPR` is written, so it
stays where it is: `receive_blocks` says that in every run of such calls it is refused each time, and what
came after it is never received.

`Oldest p data s` says that the driver is at offset `p` and finds the header of the packet `data` there. The
device keeps this, and also the bytes at the start of the ring that the copy loop would read
(`Oldest.wrapped_stable`).
-/

namespace Yasouos.Drivers.Rtl8139

open Theory Prog

variable {s s' : Mem} {ctx : Ctx} {p : ℕ} {data : List UInt8}

/-! ### The packet the driver is at -/

/-- **The oldest packet that was not received** is `data`, and the driver is at its header, at offset `p`. -/
structure Oldest (p : ℕ) (data : List UInt8) (s : Mem) : Prop where
  /-- The driver is at `p`, which is a multiple of four. -/
  offset : s.offset = p
  dvd : p % 4 = 0
  /-- So is the place where the device will store the next packet. -/
  cbr_lt : s.cbr < ringSize
  cbr_dvd : s.cbr % 4 = 0
  /-- The header says that the packet is valid, and how long it is with its CRC. -/
  status : (s.rxBuffer p).toNat % 2 = 1
  length : (s.rxBuffer (p + 2)).toNat + 256 * (s.rxBuffer (p + 3)).toNat = data.length + 4
  /-- The packet is behind the header, all in one piece. -/
  bytes : load s.rxBuffer (p + 4) data.length = data
  /-- It has not been received: it is between the driver and where the device stores next. -/
  fits : p + 4 + (data.length + 4) ≤ rxBufferSize
  unread : align4 (4 + (data.length + 4)) ≤ ringDist ringSize p s.cbr

theorem Oldest.lt (h : Oldest p data s) : p < ringSize := by
  rw [← h.offset]
  exact Nat.mod_lt _ (by decide)

theorem Oldest.ne_cbr (h : Oldest p data s) : s.offset ≠ s.cbr := by
  intro heq
  have hu := h.unread
  rw [h.offset] at heq
  rw [heq, ringDist_self h.cbr_lt] at hu
  unfold align4 at hu
  omega

/-- The device advances by the room that a packet takes. -/
theorem ringDist_nextStart {len : ℕ} (hp : p < ringSize) (hc : s.cbr < ringSize) (hdvd : s.cbr % 4 = 0)
    (hroom : ringDist ringSize p s.cbr + align4 (4 + len) < ringSize) :
    ringDist ringSize p (nextStart s.cbr len) = ringDist ringSize p s.cbr + align4 (4 + len) := by
  have hcbr : (p + ringDist ringSize p s.cbr) % ringSize = s.cbr := by
    rw [add_ringDist_mod dvd_rfl hp hc, Nat.mod_eq_of_lt hc]
  rw [nextStart, Nat.add_assoc, align4_add hdvd, ← ringDist_add_mod hp hroom]
  congr 1
  rw [← Nat.add_assoc, Nat.add_mod (p + _) (align4 _), hcbr, Nat.add_mod_mod]

/-- A packet that is stored in an empty ring is the oldest. -/
theorem oldest_of_arrive {lo hi : UInt8} {crc : List UInt8} (hdvd : s.offset % 4 = 0) (hempty : s.cbr = s.offset)
    (h : device (.arrive lo hi data crc) s = some s') : Oldest s.offset data s' := by
  simp only [device, Option.ite_none_right_eq_some] at h
  obtain ⟨⟨hlo, -, hfit, hroom⟩, h⟩ := h
  cases h
  have hlt : s.offset < ringSize := Nat.mod_lt _ (by decide)
  rw [hempty, ringDist_self hlt, Nat.zero_add] at hroom
  rw [hempty] at hfit
  have hsize : data.length + 4 < 65536 := by
    simp only [align4, ringSize] at hroom
    omega
  obtain ⟨hstat, hlen, hbytes⟩ := frame_stored lo hi crc s.rxBuffer s.offset hsize
  refine ⟨rfl, hdvd, nextStart_lt _ _, nextStart_dvd _ _, ?_, ?_, ?_, hfit, ?_⟩
  · show (store s.rxBuffer s.cbr (frame lo hi data crc) s.offset).toNat % 2 = 1
    rw [hempty, hstat]
    exact hlo
  · show (store s.rxBuffer s.cbr (frame lo hi data crc) _).toNat + 256 * (store s.rxBuffer s.cbr _ _).toNat = _
    rw [hempty]
    exact hlen
  · show load (store s.rxBuffer s.cbr (frame lo hi data crc)) _ _ = _
    rw [hempty]
    exact hbytes
  · show _ ≤ ringDist ringSize s.offset (nextStart s.cbr (data.length + 4))
    have hroom' : ringDist ringSize s.offset s.cbr + align4 (4 + (data.length + 4)) < ringSize := by
      rwa [hempty, ringDist_self hlt, Nat.zero_add]
    rw [ringDist_nextStart hlt (hempty ▸ hlt) (hempty ▸ hdvd) hroom']
    exact Nat.le_add_left _ _

/-- The byte belongs to the packet, or is where it would be if the packet were wrapped. -/
def InPacket (p : ℕ) (data : List UInt8) (a : ℕ) : Prop :=
  (p ≤ a ∧ a < p + 4 + (data.length + 4)) ∨ a + ringSize < p + 4 + (data.length + 4)

/-- The device stores further packets elsewhere. -/
theorem Oldest.keeps (h : Oldest p data s) {e : Dev} (he : device e s = some s') :
    (∀ a, InPacket p data a → s'.rxBuffer a = s.rxBuffer a) ∧ s'.capr = s.capr ∧ s'.cbr < ringSize ∧ s'.cbr % 4 = 0 ∧
      ringDist ringSize p s.cbr ≤ ringDist ringSize p s'.cbr := by
  rcases device_rx he with ⟨hbuf, hcapr, hcbr, -⟩ | ⟨lo, hi, d, crc, -, hcrc, -, hroom, hcapr, hbuf, hcbr, -⟩
  · rw [hbuf, hcbr]
    exact ⟨fun _ _ => rfl, hcapr, h.cbr_lt, h.cbr_dvd, le_rfl⟩
  · rw [h.offset] at hroom
    rw [hbuf, hcbr]
    refine ⟨fun a ha => ?_, hcapr, nextStart_lt _ _, nextStart_dvd _ _, ?_⟩
    · refine store_outside _ _ _ ?_
      have hframe : (frame lo hi d crc).length = 4 + (d.length + 4) := by
        simp [frame, hcrc]
        omega
      have hu := h.unread
      have hp := h.lt
      rw [ringDist_eq h.lt h.cbr_lt] at hu hroom
      rw [hframe]
      have h₁ : 4 + (data.length + 4) ≤ align4 (4 + (data.length + 4)) := by unfold align4; omega
      have h₂ : 4 + (d.length + 4) ≤ align4 (4 + (d.length + 4)) := by unfold align4; omega
      -- if the device is ahead of `p`, the packet ends before it; if it is behind, it stays behind
      rcases ha with ⟨ha₁, ha₂⟩ | ha
      · split_ifs at hu hroom with hc
        · left; omega
        · right; omega
      · split_ifs at hu hroom with hc
        · omega
        · left; omega
    · rw [ringDist_nextStart h.lt h.cbr_lt h.cbr_dvd hroom]
      exact Nat.le_add_right _ _

/-- If the bytes of the packet stay, and the driver stays, it stays the oldest. -/
theorem Oldest.of_keeps (h : Oldest p data s) (hbuf : ∀ a, InPacket p data a → s'.rxBuffer a = s.rxBuffer a)
    (hcapr : s'.capr = s.capr) (hlt : s'.cbr < ringSize) (hdvd : s'.cbr % 4 = 0)
    (hdist : ringDist ringSize p s.cbr ≤ ringDist ringSize p s'.cbr) : Oldest p data s' := by
  have hin : ∀ i < 4 + data.length, s'.rxBuffer (p + i) = s.rxBuffer (p + i) := fun i hi =>
    hbuf (p + i) (.inl ⟨by omega, by omega⟩)
  refine ⟨?_, h.dvd, hlt, hdvd, ?_, ?_, ?_, h.fits, h.unread.trans hdist⟩
  · rw [← h.offset, Mem.offset, hcapr]
    rfl
  · rw [show s'.rxBuffer p = s.rxBuffer p from hin 0 (by omega)]
    exact h.status
  · rw [hin 2 (by omega), hin 3 (by omega)]
    exact h.length
  · refine Eq.trans (load_congr fun i hi => ?_) h.bytes
    rw [Nat.add_assoc]
    exact hin (4 + i) (by omega)

theorem Oldest.stable (p : ℕ) (data : List UInt8) : nic.Stable (Oldest p data) := by
  intro e s s' h he
  obtain ⟨hbuf, hcapr, hlt, hdvd, hdist⟩ := h.keeps he
  exact h.of_keeps hbuf hcapr hlt hdvd hdist

/-- What the copy loop reads for byte `i` of the packet, which goes on at the start of the ring, stays as it is,
too. -/
theorem Oldest.wrapped_stable (p : ℕ) (data : List UInt8) (f : ℕ → UInt8) : nic.Stable fun s =>
    Oldest p data s ∧ ∀ i < data.length, s.rxBuffer ((p + 4 + i) % ringSize) = f i := by
  rintro e s s' ⟨h, hf⟩ he
  refine ⟨Oldest.stable p data e s s' h he, fun i hi => ?_⟩
  rw [(h.keeps he).1 _ ?_, hf i hi]
  have hp := h.lt
  have hfits := h.fits
  rcases Nat.lt_or_ge (p + 4 + i) ringSize with hlt | hge
  · rw [Nat.mod_eq_of_lt hlt]
    exact .inl ⟨by omega, by omega⟩
  · rw [Nat.mod_eq_sub_mod hge, Nat.mod_eq_of_lt (by simp only [rxBufferSize, ringSize] at *; omega)]
    exact .inr (by omega)

/-- Accesses that leave the receive ring alone keep the packet. -/
theorem Oldest.congr (h : Oldest p data s) (hs : SameRx s s') : Oldest p data s' := by
  obtain ⟨hbuf, hcapr, hcbr, -⟩ := hs
  exact h.of_keeps (fun a _ => by rw [hbuf]) hcapr (hcbr ▸ h.cbr_lt) (hcbr ▸ h.cbr_dvd) (by rw [hcbr])

/-! ### A call -/

/-- What a call does with the packet, `f` being what the copy loop would read: it refuses a packet that is too
long and leaves it where it is, and copies any other. -/
def TakesOldest (n p : ℕ) (data : List UInt8) (f : ℕ → UInt8) (ctx : Ctx) (r : Ctx × Ret) (s : Mem) : Prop :=
  (n < data.length ∧ r = (ctx, .fail) ∧ Oldest p data s) ∨
    (data.length ≤ n ∧ r = (ctx, ⟨0, some data.length, load f 0 data.length⟩))

section Call

variable {A G : Op → Mem → Prop} (hG : ∀ o s, G o s) {f : ℕ → UInt8}

include hG

/-- The copy loop and what comes after it. -/
theorem receivePacket_oldest (n : ℕ) (h : Oldest p data s)
    (hf : ∀ i < data.length, s.rxBuffer ((p + 4 + i) % ringSize) = f i) :
    (receivePacket n ctx p data.length).Safe nic.toMachine A G (TakesOldest n p data f ctx) s := by
  have hB := Oldest.wrapped_stable p data f
  rw [receivePacket]
  by_cases hlen : data.length > n
  · rw [if_pos hlen]
    exact Safe.ret_of_stable hB ⟨h, hf⟩ fun s₁ h₁ => .inl ⟨hlen, rfl, h₁.1⟩
  · rw [if_neg hlen]
    refine Safe.bind ((Safe.readEach (f := f) hB (fun i hi s hs => ?_) ⟨h, hf⟩).mono ?_)
    · rw [Nat.zero_add]
      refine Safe.op_of_stable hB hs fun s' hs' => ⟨hG _ _, fun _ => ?_⟩
      exact Safe.ret_of_stable hB hs' fun s'' hs'' => ⟨hs'.2 i hi, hs''⟩
    · rintro bytes s₁ ⟨rfl, h₁⟩
      refine Safe.op_of_stable hB h₁ fun s₂ _ => ⟨hG _ _, fun _ => ?_⟩
      exact fun s₃ _ => .inr ⟨by omega, rfl⟩

/-- **A call with a packet in the ring.** -/
theorem receive_oldest (n : ℕ) (hi : ctx.initialized = true) (h : Oldest p data s)
    (hf : ∀ i < data.length, s.rxBuffer ((p + 4 + i) % ringSize) = f i) :
    (rtl8139Receive n ctx).Safe nic.toMachine A G (TakesOldest n p data f ctx) s := by
  have hB := Oldest.wrapped_stable p data f
  simp only [rtl8139Receive, hi, Bool.not_true, Bool.false_eq_true, if_false]
  refine Safe.op_of_stable hB ⟨h, hf⟩ fun s₁ h₁ => ⟨hG _ _, fun _ => ?_⟩
  show Safe _ _ _ _ (if s₁.cmd &&& cmdBUFE ≠ 0 then _ else _) _
  rw [if_neg ((cmd_bufe s₁).not.mpr h₁.1.ne_cbr)]
  refine Safe.op_of_stable hB h₁ fun s₂ h₂ => ⟨hG _ _, fun _ => ?_⟩
  show Safe _ _ _ _ (readRx16 ((s₂.capr + 16) % ringSize) >>= fun status =>
    readRx16 ((s₂.capr + 16) % ringSize + 2) >>= fun len => receiveHeader n ctx ((s₂.capr + 16) % ringSize) status len) _
  rw [show (s₂.capr + 16) % ringSize = p from h₂.1.offset]
  refine Safe.op_of_stable hB h₂ fun s₃ h₃ => ⟨hG _ _, fun _ => ?_⟩
  refine Safe.op_of_stable hB h₃ fun s₄ h₄ => ⟨hG _ _, fun _ => ?_⟩
  show Safe _ _ _ _ (receiveHeader n ctx p ((s₃.rxBuffer p).toNat + 256 * (s₃.rxBuffer (p + 1)).toNat)
    ((s₄.rxBuffer (p + 2)).toNat + 256 * (s₄.rxBuffer (p + 2 + 1)).toNat)) _
  rw [show (s₄.rxBuffer (p + 2)).toNat + 256 * (s₄.rxBuffer (p + 2 + 1)).toNat = data.length + 4 from h₄.1.length]
  have hstat : ¬ (((s₃.rxBuffer p).toNat + 256 * (s₃.rxBuffer (p + 1)).toNat) % 2 = 0 ∨ data.length + 4 < 4) := by
    have := h₃.1.status
    omega
  rw [receiveHeader, if_neg hstat]
  refine Safe.op_of_stable hB h₄ fun s₅ h₅ => ⟨hG _ _, fun _ => ?_⟩
  show Safe _ _ _ _ (acknowledge s₅.isr >>= fun _ => receivePacket n ctx p (data.length + 4 - 4)) s₅
  refine Safe.bind ((Safe.of_all (acknowledge_all _) hB ?_ h₅).mono ?_)
  · rintro o s ⟨v, rfl⟩ hs
    exact ⟨hG _ _, hs.1.congr ⟨rfl, rfl, rfl, rfl⟩, hs.2⟩
  rintro - s₆ ⟨-, h₆⟩
  rw [Nat.add_sub_cancel]
  exact receivePacket_oldest hG n h₆.1 h₆.2

end Call

/-! ### What the caller gets -/

/-- What the copy loop reads is the packet, when the bytes that it takes from the start of the ring are those that
the device stored past its end. -/
theorem Oldest.copied_iff (h : Oldest p data s) :
    load (fun i => s.rxBuffer ((p + 4 + i) % ringSize)) 0 data.length = data ↔
      ∀ i (hi : i < data.length), ringSize ≤ p + 4 + i → s.rxBuffer (p + 4 + i - ringSize) = data.get ⟨i, hi⟩ := by
  have hp := h.lt
  have hfits := h.fits
  have hget : ∀ i (hi : i < data.length), s.rxBuffer (p + 4 + i) = data.get ⟨i, hi⟩ := by
    intro i hi
    have hb := h.bytes
    rw [← getElem_load s.rxBuffer (p + 4) (n := data.length) (by simpa using hi), List.get_eq_getElem]
    simp only [hb]
  have hmod : ∀ i, ringSize ≤ p + 4 + i → i < data.length → (p + 4 + i) % ringSize = p + 4 + i - ringSize := by
    intro i hge hi
    rw [Nat.mod_eq_sub_mod hge, Nat.mod_eq_of_lt (by simp only [rxBufferSize, ringSize] at *; omega)]
  constructor
  · intro heq i hi hge
    have hbyte := congrArg (fun l : List UInt8 => l[i]?) heq
    simp only [load, List.getElem?_map, List.getElem?_range hi, Option.map_some, List.getElem?_eq_getElem hi,
      Option.some.injEq, Nat.zero_add, hmod i hge hi] at hbyte
    exact hbyte
  · intro hall
    refine List.ext_getElem (by simp) fun i h₁ h₂ => ?_
    rw [getElem_load, Nat.zero_add]
    rcases Nat.lt_or_ge (p + 4 + i) ringSize with hlt | hge
    · rw [Nat.mod_eq_of_lt hlt]
      exact hget i h₂
    · rw [hmod i hge h₂]
      exact hall i h₂ hge

/-- **When the caller gets the packet.** Let the oldest packet be `data`, at any offset `p`, and let it fit the
caller's buffer. However the device moves during the call, the call returns 0 and exactly the packet, if and only if
each byte that the device has stored past the end of the ring is equal to the byte at the start of the ring that is
read in its place. So it does for every packet that ends before the end of the ring. -/
theorem receive_copies_iff (p n : ℕ) (data : List UInt8) (ctx : Ctx) (s : Mem) (hi : ctx.initialized = true)
    (h : Oldest p data s) (hn : data.length ≤ n) :
    (rtl8139Receive n ctx).Safe nic.toMachine (fun _ _ => True) (fun _ _ => True)
        (fun r _ => r.2.code = 0 ∧ r.2.receivedLength = some data.length ∧ r.2.buffer = data) s ↔
      ∀ i (hi : i < data.length), ringSize ≤ p + 4 + i → s.rxBuffer (p + 4 + i - ringSize) = data.get ⟨i, hi⟩ := by
  have hsafe := receive_oldest (A := fun _ _ => True) (G := fun _ _ => True) (fun _ _ => trivial) n hi h
    (f := fun i => s.rxBuffer ((p + 4 + i) % ringSize)) fun _ _ => rfl
  rw [← h.copied_iff]
  constructor
  · intro hget
    have hbuffer := (hget.runOn fun _ _ => trivial).2.2
    rcases hsafe.runOn fun _ _ => trivial with ⟨hlt, -⟩ | ⟨-, hret⟩
    · omega
    · rw [hret] at hbuffer
      exact hbuffer
  · intro hcopy
    refine hsafe.mono ?_
    rintro r s' (⟨hlt, -⟩ | ⟨-, hret⟩)
    · omega
    · rw [hret]
      exact ⟨rfl, rfl, hcopy⟩

/-- The ring is empty, and driver and device are at offset 8188, its last multiple of four. -/
def atEnd : Mem := { initMem with capr := 8172, cbr := 8188 }

/-- A packet of one byte is stored there, behind the end of the ring. -/
theorem atEnd_arrive : ∃ s, device (.arrive 1 0 [7] [0, 0, 0, 0]) atEnd = some s ∧ Oldest 8188 [7] s ∧
    s.rxBuffer 0 = 0 := by
  obtain ⟨s, hs⟩ : ∃ s, device (.arrive 1 0 [7] [0, 0, 0, 0]) atEnd = some s := Option.isSome_iff_exists.mp (by decide)
  have hbyte : (device (.arrive 1 0 [7] [0, 0, 0, 0]) atEnd).map (fun s => s.rxBuffer 0) = some 0 := by decide
  rw [hs, Option.map_some, Option.some.injEq] at hbyte
  exact ⟨s, hs, oldest_of_arrive (s := atEnd) (by decide) (by decide) hs, hbyte⟩

theorem receive_copies_atEnd :
    ∃ s, device (.arrive 1 0 [7] [0, 0, 0, 0]) atEnd = some s ∧
      ((rtl8139Receive 64 initCtx).Safe nic.toMachine (fun _ _ => True) (fun _ _ => True)
          (fun r _ => r.2.code = 0 ∧ r.2.receivedLength = some 1 ∧ r.2.buffer = [7]) s ↔
        ∀ i (hi : i < [(7 : UInt8)].length), ringSize ≤ 8188 + 4 + i →
          s.rxBuffer (8188 + 4 + i - ringSize) = [(7 : UInt8)].get ⟨i, hi⟩) := by
  obtain ⟨s, hs, hold, -⟩ := atEnd_arrive
  exact ⟨s, hs, receive_copies_iff 8188 64 [7] initCtx s rfl hold (by decide)⟩

/-- The caller does not get it: the byte is read from the start of the ring, where there is another. -/
theorem receive_reads_start :
    ¬ ∀ (p n : ℕ) (data : List UInt8) (ctx : Ctx) (s : Mem), ctx.initialized = true → Oldest p data s →
      data.length ≤ n → (rtl8139Receive n ctx).Safe nic.toMachine (fun _ _ => True) (fun _ _ => True)
        (fun r _ => r.2.code = 0 ∧ r.2.receivedLength = some data.length ∧ r.2.buffer = data) s := by
  intro h
  obtain ⟨s, -, hold, hzero⟩ := atEnd_arrive
  have hbuffer := ((h 8188 64 [7] initCtx s rfl hold (by decide)).runOn fun _ _ => trivial).2.2
  have hsafe : (rtl8139Receive 64 initCtx).Safe nic.toMachine (fun _ _ => True) (fun _ _ => True)
      (TakesOldest 64 8188 [7] (fun i => s.rxBuffer ((8188 + 4 + i) % ringSize)) initCtx) s :=
    receive_oldest (fun _ _ => trivial) 64 rfl hold fun _ _ => rfl
  rcases hsafe.runOn fun _ _ => trivial with ⟨hlt, -⟩ | ⟨-, hret⟩
  · exact absurd hlt (by decide)
  · rw [hret] at hbuffer
    have hcopied : ∀ i (hi : i < [(7 : UInt8)].length), ringSize ≤ 8188 + 4 + i →
        s.rxBuffer (8188 + 4 + i - ringSize) = [(7 : UInt8)].get ⟨i, hi⟩ := hold.copied_iff.1 hbuffer
    have hseven := hcopied 0 (by decide) (by decide)
    rw [show 8188 + 4 + 0 - ringSize = 0 from rfl, hzero] at hseven
    exact absurd hseven (by decide)

/-! ### A packet that is too long -/

/-- The invariant of a run of calls whose buffers are too small for the packet. -/
def Blocked (p : ℕ) (data : List UInt8) (log : List Entry) (ctx : Ctx) (s : Mem) : Prop :=
  ctx.initialized = true ∧ Oldest p data s ∧ ∀ e ∈ log, ∀ n, e.call = .receive n → e.result = .fail

theorem Blocked.stable (p : ℕ) (data : List UInt8) (log : List Entry) (ctx : Ctx) : nic.Stable (Blocked p data log ctx) :=
  fun e s s' h he => ⟨h.1, Oldest.stable p data e s s' h.2.1 he, h.2.2⟩

theorem Blocked.append {log : List Entry} {e : Entry} (hi : e.after.initialized = true) (hold : Oldest p data s)
    (hlog : ∀ e ∈ log, ∀ n, e.call = .receive n → e.result = .fail)
    (he : ∀ n, e.call = .receive n → e.result = .fail) : Blocked p data (log ++ [e]) e.after s := by
  refine ⟨hi, hold, fun e' he' => ?_⟩
  rcases List.mem_append.mp he' with he' | he'
  · exact hlog e' he'
  · rw [List.mem_singleton.mp he']
    exact he

/-- The call is no receive with a buffer that the packet fits. -/
def TooSmall (data : List UInt8) : Call → Prop
  | .receive n => n < data.length
  | .transmit _ => True

theorem blocked_call (p : ℕ) (data : List UInt8) (l : List Entry) (k : Call) (ctx : Ctx) (s : Mem)
    (h : Blocked p data l ctx s) : (nic.body k ctx).Safe nic.toMachine (fun _ _ => TooSmall data k) (fun _ _ => True)
      (fun r s => Blocked p data (l ++ [⟨k, ctx, r.2, r.1⟩]) r.1 s) s := by
  obtain ⟨hi, hold, hlog⟩ := h
  cases k with
  | receive n =>
    by_cases hn : n < data.length
    · refine (receive_oldest (f := fun i => s.rxBuffer ((p + 4 + i) % ringSize)) (fun _ _ => trivial) n hi hold
        fun _ _ => rfl).mono ?_
      rintro r s' (⟨-, rfl, hold'⟩ | ⟨hle, -⟩)
      · exact Blocked.append (e := ⟨.receive n, ctx, .fail, ctx⟩) hi hold' hlog fun _ _ => rfl
      · omega
    · -- such a call is excluded by the assumption, once it performs an access
      obtain ⟨g, hg, -⟩ := receive_eq n hi
      show (rtl8139Receive n ctx).Safe _ _ _ _ s
      rw [hg]
      exact fun _ _ => ⟨trivial, fun hA => absurd hA hn⟩
  | transmit packet =>
    refine (Safe.of_all (transmit_all packet ctx) (Oldest.stable p data) ?_ hold).mono ?_
    · intro o s ho hs
      exact ⟨trivial, hs.congr (exec_touchesTx ho s)⟩
    · rintro r s' ⟨hinit, hs'⟩
      exact Blocked.append (e := ⟨.transmit packet, ctx, r.2, r.1⟩) (hinit.trans hi) hs' hlog fun _ hn => by cases hn

/-- **A packet that is refused stays.** Let the oldest packet be `data`, at any offset. A call whose buffer is too
small for it returns -1, however the device moves meanwhile, and the driver is still at that packet. So in every
run whose receives all have such buffers, with any packets arriving and any packets being sent, every receive
fails: the packet is refused each time, and no packet behind it is ever received, not even one that fits. -/
theorem receive_blocks (p : ℕ) (data : List UInt8) (ctx : Ctx) (s : Mem) (hi : ctx.initialized = true)
    (h : Oldest p data s) :
    (∀ n < data.length, (rtl8139Receive n ctx).Safe nic.toMachine (fun _ _ => True) (fun _ _ => True)
        (fun r s' => r.2.code = -1 ∧ s'.offset = s.offset ∧ Oldest p data s') s) ∧
      ∀ c, nic.ReachUnder (fun k _ _ => TooSmall data k) (.start ctx s) c →
        (c.Idle → c.shared.offset = s.offset ∧ Oldest p data c.shared) ∧
        ∀ e ∈ c.log, ∀ n, e.call = .receive n → e.result.code = -1 ∧ e.result.buffer = [] := by
  constructor
  · intro n hn
    refine (receive_oldest (f := fun i => s.rxBuffer ((p + 4 + i) % ringSize)) (fun _ _ => trivial) n hi h
      fun _ _ => rfl).mono ?_
    rintro r s' (⟨-, rfl, hold'⟩ | ⟨hle, -⟩)
    · exact ⟨rfl, hold'.offset.trans h.offset.symm, hold'⟩
    · omega
  · intro c hc
    have hstart : Blocked p data [] ctx s := ⟨hi, h, by simp⟩
    constructor
    · intro hidle
      have hgood := System.reach_safe (Blocked.stable p data) (blocked_call p data) (.start hstart) hc
      obtain ⟨-, hold', -⟩ := hgood.idle hidle
      exact ⟨hold'.offset.trans h.offset.symm, hold'⟩
    · have hlog : ∀ e ∈ c.log, ∀ n, e.call = .receive n → e.result = .fail :=
        System.reach_always (S := nic) (J := fun l _ => ∀ e ∈ l, ∀ n, e.call = .receive n → e.result = .fail)
          (Blocked.stable p data) (blocked_call p data) (fun _ _ _ h => h.2.2) (fun _ _ _ _ h _ => h)
          (fun _ _ _ h => h) (.start hstart) (by simp [Cfg.start]) hc
      intro e he n hn
      rw [hlog e he n hn]
      exact ⟨rfl, rfl⟩

theorem receive_blocks_atEnd :
    ∃ s, device (.arrive 1 0 [7] [0, 0, 0, 0]) atEnd = some s ∧ (rtl8139Receive 0 initCtx).Safe nic.toMachine
      (fun _ _ => True) (fun _ _ => True) (fun r s' => r.2.code = -1 ∧ s'.offset = s.offset ∧ Oldest 8188 [7] s') s := by
  obtain ⟨s, hs, hold, -⟩ := atEnd_arrive
  exact ⟨s, hs, (receive_blocks 8188 [7] initCtx s rfl hold).1 0 (by decide)⟩

/-- A packet of two bytes and one of one byte arrive, and are twice asked for with a buffer of one byte. -/
def refusedTwice : List (Event Call Dev) :=
  [.env (.arrive 1 0 [7, 8] [0, 0, 0, 0]), .env (.arrive 1 0 [9] [0, 0, 0, 0]), .call (.receive 1)] ++
    List.replicate 7 .tick ++ [.call (.receive 1)] ++ List.replicate 6 .tick

/-- Both calls are refused the first packet, and the second, which fits, is not received. -/
theorem receive_refuses_twice :
    (nic.run start refusedTwice).map (fun c => (c.cur.isNone, c.shared.stored, c.shared.offset,
      c.log.map fun e => e.result.code)) = some (true, [[7, 8], [9]], 0, [-1, -1]) := by
  decide

end Yasouos.Drivers.Rtl8139
