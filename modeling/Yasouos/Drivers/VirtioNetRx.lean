import Yasouos.Drivers.VirtioNet

/-!
# Receiving on virtio-net

What `virtio_net_receive` does over whole runs, against a conforming device that
moves whenever it likes, also between two accesses of one call.

* `receive_exact` — **the packets**: the packets that the successful calls have
  returned are exactly the packets of the consumed completions that fitted the
  buffer of the call that consumed them, in the order of completion, with the
  bytes the device wrote after its header; and a call that finds no new entry in
  the used ring changes nothing.
* `receive_capacity_iff` — **the descriptors**: all 16 receive descriptors are in
  one of their three places (published, held, returned) exactly as long as every
  completion consumed so far fitted the buffer of the call that consumed it. A
  call that consumes a completion and rejects it does not publish the descriptor
  again, so the device never sees it again.

The invariant behind both is `RxCore`. It relates the used ring to the completions
the device has reported: what the driver has yet to consume are the last of them,
and the buffer of each still holds what it held when it was reported, because the
device writes only into buffers whose descriptors it holds.
-/

namespace Yasouos.Drivers.VirtioNet

open Theory Prog Virtqueue

/-! ### What the log says -/

/-- A call that has returned. -/
abbrev Entry := Done Call Ctx Ret

/-- The buffer size of a call that has consumed an entry of the receive queue's used
ring. Such a call is a `virtio_net_receive` that has moved `rx_last_used_idx`. -/
def Entry.consumer (e : Entry) : Option ℕ :=
  match e.call with
  | .receive n => if e.after.rxLastUsedIdx = e.before.rxLastUsedIdx then none else some n
  | .transmit _ => none

/-- What a successful `virtio_net_receive` has returned. -/
def Entry.packet (e : Entry) : Option (Option ℕ × List UInt8) :=
  match e.call with
  | .receive _ => if e.result.code = 0 then some (e.result.receivedLength, e.result.buffer) else none
  | .transmit _ => none

/-- The buffer sizes of the calls that have consumed an entry, in order. -/
def consumers (log : List Entry) : List ℕ := log.filterMap Entry.consumer

/-- What the successful calls have returned, in order. -/
def received (log : List Entry) : List (Option ℕ × List UInt8) := log.filterMap Entry.packet

/-- The completion has a header, and its packet fits a buffer of `n` bytes. -/
def Fits (n : ℕ) (c : Completion) : Prop := hdrLen ≤ c.bytes.length ∧ c.bytes.length - hdrLen ≤ n

instance (n : ℕ) (c : Completion) : Decidable (Fits n c) := inferInstanceAs (Decidable (_ ∧ _))

/-- The consumed completions, each with the buffer size of the call that consumed
it: the calls consume the completions in order. -/
def consumed (log : List Entry) (done : List Completion) : List (ℕ × Completion) := (consumers log).zip done

/-- What a call returns for a completion that fits. -/
def delivery : ℕ × Completion → Option (Option ℕ × List UInt8)
  | (n, c) => if Fits n c then some (some (c.bytes.length - hdrLen), c.packet) else none

/-- The consumed completions that did not fit. -/
def rejected (log : List Entry) (done : List Completion) : List (ℕ × Completion) :=
  (consumed log done).filter fun p => !decide (Fits p.1 p.2)

theorem consumers_append (log : List Entry) (e : Entry) :
    consumers (log ++ [e]) = consumers log ++ e.consumer.toList := by
  cases h : e.consumer <;> simp [consumers, h]

theorem received_append (log : List Entry) (e : Entry) : received (log ++ [e]) = received log ++ e.packet.toList := by
  cases h : e.packet <;> simp [received, h]

/-- Zipping with a list does not look past the list. -/
theorem zip_append_right {α β : Type} : ∀ {l : List α} {d : List β} (_ : l.length ≤ d.length) (x : List β),
    l.zip (d ++ x) = l.zip d
  | [], _, _, _ => by simp
  | a :: l, [], h, _ => by simp at h
  | a :: l, b :: d, h, x => by
    simp only [List.cons_append, List.zip_cons_cons]
    rw [zip_append_right (by simpa using h)]

/-- New completions are not yet consumed. -/
theorem consumed_append_done {log : List Entry} {done : List Completion} (h : (consumers log).length ≤ done.length)
    (l : List Completion) : consumed log (done ++ l) = consumed log done := zip_append_right h _

/-- A call that consumes takes the first completion that has not been consumed. -/
theorem consumed_append_log {log : List Entry} {done : List Completion} {e : Entry} {n : ℕ} {c : Completion}
    (he : e.consumer = some n) (hc : done[(consumers log).length]? = some c) :
    consumed (log ++ [e]) done = consumed log done ++ [(n, c)] := by
  obtain ⟨hlt, hget⟩ := List.getElem?_eq_some_iff.mp hc
  have hlen : (consumers log).length = (done.take (consumers log).length).length := by simp; omega
  unfold consumed
  rw [consumers_append, he, Option.toList_some]
  conv_lhs => rw [← List.take_append_drop (consumers log).length done, List.drop_eq_getElem_cons hlt, hget]
  conv_rhs => rw [← List.take_append_drop (consumers log).length done]
  rw [List.zip_append hlen, zip_append_right hlen.le]
  simp

/-- A call that does not consume changes nothing here. -/
theorem consumed_append_of_none {log : List Entry} {done : List Completion} {e : Entry} (he : e.consumer = none) :
    consumed (log ++ [e]) done = consumed log done := by
  unfold consumed
  rw [consumers_append, he, Option.toList_none, List.append_nil]

/-! ### The invariant -/

/-- **The receive queue**, when the driver is at index `last` of the used ring, has
consumed `m` completions, and the descriptors in `out` are in none of the three
places. -/
structure RxCore (arch : Arch) (tr : Transport) (minLen last m : ℕ) (out : List ℕ) (s : Mem) : Prop where
  lastAvail_lt : s.rxq.lastAvail < idxMod
  availIdx_lt : s.rxq.availIdx < idxMod
  usedIdx_lt : s.rxq.usedIdx < idxMod
  last_lt : last < idxMod
  /-- Every descriptor is in exactly one place, or out. -/
  perm : (s.rxq.flight (ringSize tr) last ++ out).Perm (List.range queueSize)
  /-- The descriptor table is as it was initialised. -/
  desc : ∀ d < queueSize, s.rxq.desc d = rxDesc arch d
  /-- `m` completions have been consumed. -/
  le_done : m ≤ s.done.length
  /-- The entries of the used ring not yet consumed are the other completions. -/
  used : (s.done.drop m).map Completion.used = s.rxq.completed (ringSize tr) last
  /-- Their buffers still hold their bytes. -/
  bytes : ∀ c ∈ s.done.drop m, c.bytes = s.rxBytes c.id c.bytes.length
  /-- They are as long as a conforming device makes them. -/
  len : ∀ c ∈ s.done, minLen ≤ c.bytes.length ∧ c.bytes.length ≤ maxPacketSize - rxBufferOffset arch

variable {arch : Arch} {tr : Transport} {minLen last m : ℕ} {out : List ℕ} {s s' : Mem}

@[simp] theorem length_rxBytes (s : Mem) (id len : ℕ) : (s.rxBytes id len).length = len := by simp [Mem.rxBytes]

theorem RxCore.owned (h : RxCore arch tr minLen last m out s) : Owned (ringSize tr) queueSize s.rxq last := by
  refine ⟨h.lastAvail_lt, h.availIdx_lt, h.usedIdx_lt, h.last_lt, ?_, fun d hd => ?_⟩
  · exact ((h.perm.nodup_iff.mpr List.nodup_range).sublist (List.sublist_append_left _ _))
  · exact List.mem_range.mp (h.perm.mem_iff.mp (List.mem_append_left _ hd))

/-- A descriptor that is out is not in flight. -/
theorem RxCore.not_mem {d : ℕ} (h : RxCore arch tr minLen last m (d :: out) s) :
    d < queueSize ∧ d ∉ s.rxq.flight (ringSize tr) last := by
  refine ⟨List.mem_range.mp (h.perm.mem_iff.mp (by simp)), fun hd => ?_⟩
  have := List.nodup_append'.mp (h.perm.nodup_iff.mpr List.nodup_range)
  exact this.2.2 hd List.mem_cons_self

/-- The invariant is about the receive queue, its buffers and its completions only. -/
theorem RxCore.congr (h : RxCore arch tr minLen last m out s) (hq : s'.rxq = s.rxq) (hb : s'.rxBuffers = s.rxBuffers)
    (hd : s'.done = s.done) : RxCore arch tr minLen last m out s' := by
  obtain ⟨q, t, b, x, d⟩ := s
  obtain ⟨q', t', b', x', d'⟩ := s'
  cases hq
  cases hb
  cases hd
  exact ⟨h.1, h.2, h.3, h.4, h.5, h.6, h.7, h.8, h.9, h.10⟩

/-! ### The device keeps it -/

/-- A byte written into a buffer that the device holds is not one of a completion that
has yet to be consumed. -/
theorem RxCore.rxBytes_write (h : RxCore arch tr minLen last m out s) {id i : ℕ} {b : UInt8} (hid : id ∈ s.rxq.held)
    (hi : i < (s.rxq.desc id).len) {c : Completion} (hc : c ∈ s.done.drop m) :
    ({ s with rxBuffers := Function.update s.rxBuffers ((s.rxq.desc id).addr + i) b } : Mem).rxBytes c.id
      c.bytes.length = s.rxBytes c.id c.bytes.length := by
  have hcu : c.used ∈ s.rxq.completed (ringSize tr) last := h.used ▸ List.mem_map_of_mem hc
  have hcf : c.id ∈ (s.rxq.completed (ringSize tr) last).map VUsed.id := List.mem_map_of_mem (f := VUsed.id) hcu
  have hne : c.id ≠ id := by
    rintro rfl
    have hnd := (List.nodup_append'.mp h.owned.nodup).2.1
    exact (List.nodup_append'.mp hnd).2.2 hid hcf
  have hlen := (h.len c (List.mem_of_mem_drop hc)).2
  have hlt : id < queueSize := h.owned.lt id (List.mem_append_right _ (List.mem_append_left _ hid))
  have hltc : c.id < queueSize := h.owned.lt c.id (List.mem_append_right _ (List.mem_append_right _ hcf))
  refine List.map_congr_left fun j hj => Function.update_of_ne ?_ _ _
  rw [List.mem_range] at hj
  rw [h.desc id hlt] at hi ⊢
  show (s.rxq.desc c.id).addr + j ≠ _
  rw [h.desc c.id hltc]
  simp only [rxDesc, maxPacketSize] at *
  omega

/-- The device takes a descriptor. -/
theorem RxCore.take {q : Virtqueue} (h : RxCore arch tr minLen last m out s) (hq : s.rxq.take (ringSize tr) = some q) :
    RxCore arch tr minLen last m out { s with rxq := q } := by
  have ho := h.owned
  have hN := ringSize_dvd tr
  have ho' := take_owned hN ho hq
  obtain ⟨d, -, -, hc⟩ := take_spec hN ho.lastAvail_lt ho.availIdx_lt hq
  have hd := (take_frame hq).1
  refine ⟨ho'.1, ho'.2, ho'.3, ho'.4, ((take_flight hN ho hq).append_right _).trans h.perm, ?_, h.le_done, ?_, ?_,
    h.len⟩
  · exact hd ▸ h.desc
  · exact h.used.trans (hc last).symm
  · intro c hc
    exact (h.bytes c hc).trans (by simp only [Mem.rxBytes, hd])

/-- The device completes a descriptor that it holds. -/
theorem RxCore.complete {q : Virtqueue} {id len : ℕ} (h : RxCore arch tr minLen last m out s)
    (hlen : minLen ≤ len ∧ len ≤ (s.rxq.desc id).len) (hq : s.rxq.complete (ringSize tr) id len = some q) :
    RxCore arch tr minLen last m out { s with rxq := q, done := s.done ++ [⟨id, s.rxBytes id len⟩] } := by
  have ho := h.owned
  have hN := ringSize_dvd tr
  have hK := queueSize_le_ringSize tr
  have hM := ringSize_lt tr
  have ho' := complete_owned hN hK hM ho hq
  obtain ⟨hid, -, -, hc⟩ := complete_spec hN hK hM ho hq
  have hd := (complete_frame hq).1
  have hdrop : ∀ c : Completion, (s.done ++ [c]).drop m = s.done.drop m ++ [c] := fun _ =>
    List.drop_append_of_le_length h.le_done
  refine ⟨ho'.1, ho'.2, ho'.3, ho'.4, ((complete_flight hN hK hM ho hq).append_right _).trans h.perm, ?_, ?_, ?_, ?_,
    ?_⟩
  · exact hd ▸ h.desc
  · simp only [List.length_append]
    exact Nat.le_add_right_of_le h.le_done
  · rw [hdrop, List.map_append, h.used, hc]
    simp [Completion.used]
  · rw [hdrop]
    intro c hc
    simp only [Mem.rxBytes, hd]
    rcases List.mem_append.mp hc with hc | hc
    · exact h.bytes c hc
    · obtain rfl := List.mem_singleton.mp hc
      simp [Mem.rxBytes]
  · intro c hc
    rcases List.mem_append.mp hc with hc | hc
    · exact h.len c hc
    · obtain rfl := List.mem_singleton.mp hc
      have hlt : id < queueSize := ho.lt id (List.mem_append_right _ (List.mem_append_left _ hid))
      rw [h.desc id hlt] at hlen
      simpa [rxDesc] using hlen

theorem RxCore.stable (arch : Arch) (tr : Transport) (minLen last m : ℕ) (out : List ℕ) :
    (net arch tr minLen).Stable (RxCore arch tr minLen last m out) := by
  intro e s s' h he
  cases e with
  | rxTake =>
    simp only [net, device, Option.map_eq_some_iff] at he
    obtain ⟨q, hq, rfl⟩ := he
    exact h.take hq
  | rxWrite id i b =>
    simp only [net, device] at he
    split_ifs at he with hw
    cases he
    refine ⟨h.1, h.2, h.3, h.4, h.perm, h.desc, h.le_done, h.used, fun c hc => ?_, h.len⟩
    rw [h.rxBytes_write hw.1 hw.2 hc]
    exact h.bytes c hc
  | rxComplete id len =>
    simp only [net, device] at he
    split_ifs at he with hlen
    simp only [Option.map_eq_some_iff] at he
    obtain ⟨q, hq, rfl⟩ := he
    exact h.complete hlen hq
  | txTake =>
    simp only [net, device, Option.map_eq_some_iff] at he
    obtain ⟨q, -, rfl⟩ := he
    exact h.congr rfl rfl rfl
  | txComplete id len =>
    simp only [net, device, Option.map_eq_some_iff] at he
    obtain ⟨q, -, rfl⟩ := he
    exact h.congr rfl rfl rfl

/-- The device only ever adds to the completions. -/
theorem device_done {e : Dev} (h : device tr minLen e s = some s') : ∃ l, s'.done = s.done ++ l := by
  cases e with
  | rxTake | txTake | txComplete id len =>
    simp only [device, Option.map_eq_some_iff] at h
    obtain ⟨q, -, rfl⟩ := h
    exact ⟨[], (List.append_nil _).symm⟩
  | rxWrite id i b =>
    simp only [device] at h
    split_ifs at h
    cases h
    exact ⟨[], (List.append_nil _).symm⟩
  | rxComplete id len =>
    simp only [device] at h
    split_ifs at h
    simp only [Option.map_eq_some_iff] at h
    obtain ⟨q, -, rfl⟩ := h
    exact ⟨_, rfl⟩

/-- A conforming device makes every completion as long as it should be. -/
theorem device_len {e : Dev} (hlen : ∀ c ∈ s.done, minLen ≤ c.bytes.length) (h : device tr minLen e s = some s') :
    ∀ c ∈ s'.done, minLen ≤ c.bytes.length := by
  cases e with
  | rxTake | txTake | txComplete id len =>
    simp only [device, Option.map_eq_some_iff] at h
    obtain ⟨q, -, rfl⟩ := h
    exact hlen
  | rxWrite id i b =>
    simp only [device] at h
    split_ifs at h
    cases h
    exact hlen
  | rxComplete id len =>
    simp only [device] at h
    split_ifs at h with hl
    simp only [Option.map_eq_some_iff] at h
    obtain ⟨q, -, rfl⟩ := h
    intro c hc
    rcases List.mem_append.mp hc with hc | hc
    · exact hlen c hc
    · obtain rfl := List.mem_singleton.mp hc
      rw [length_rxBytes]
      exact hl.1

/-! ### The driver's moves -/

/-- If the used ring has a new entry, there is a completion to consume. -/
theorem RxCore.exists_of_ne (h : RxCore arch tr minLen last m out s) (hne : s.rxq.usedIdx ≠ last) :
    ∃ c, s.done[m]? = some c := by
  have hc := consume_spec (ringSize_dvd tr) h.owned (Ne.symm hne)
  rw [← h.used] at hc
  cases hd : s.done.drop m with
  | nil => simp [hd] at hc
  | cons c l => exact ⟨c, by rw [← Nat.add_zero m, ← List.getElem?_drop, hd]; rfl⟩

/-- Consuming a completion: it is what the driver's slot of the used ring says, its
buffer holds its bytes, and its descriptor is out until it is published again. -/
theorem RxCore.consume (h : RxCore arch tr minLen last m out s) {c : Completion} (hc : s.done[m]? = some c) :
    c.used = s.rxq.used (last % ringSize tr) ∧ c.id < queueSize ∧ c.bytes = s.rxBytes c.id c.bytes.length ∧
      RxCore arch tr minLen ((last + 1) % idxMod) (m + 1) (c.id :: out) s := by
  obtain ⟨hlt, hget⟩ := List.getElem?_eq_some_iff.mp hc
  have hdrop : s.done.drop m = c :: s.done.drop (m + 1) := by rw [List.drop_eq_getElem_cons hlt, hget]
  have hused := h.used
  rw [hdrop, List.map_cons] at hused
  have hne : last ≠ s.rxq.usedIdx := by
    rintro rfl
    rw [completed, window_self _ h.last_lt] at hused
    cases hused
  rw [consume_spec (ringSize_dvd tr) h.owned hne, List.cons.injEq] at hused
  have hflight := consume_flight (ringSize_dvd tr) h.owned hne
  rw [← hused.1] at hflight
  have hmem : c ∈ s.done.drop m := hdrop ▸ List.mem_cons_self
  have hout := hflight.symm.append_right out
  rw [List.cons_append] at hout
  refine ⟨hused.1, ?_, h.bytes c hmem, ?_⟩
  · exact h.owned.lt _ (hflight.mem_iff.mpr List.mem_cons_self)
  · refine ⟨h.lastAvail_lt, h.availIdx_lt, h.usedIdx_lt, mod_idxMod_lt _, ?_, h.desc, hlt, hused.2, ?_, h.len⟩
    · exact List.perm_middle.trans (hout.trans h.perm)
    · intro c' hc'
      exact h.bytes c' (hdrop ▸ List.mem_cons_of_mem _ hc')

/-- Writing the driver's slot of the available ring. -/
theorem RxCore.writeAvail {d : ℕ} (h : RxCore arch tr minLen last m (d :: out) s) :
    RxCore arch tr minLen last m (d :: out)
      (s.setQ .rx ((s.q .rx).writeAvail ((s.q .rx).availIdx % ringSize tr) d)) := by
  obtain ⟨hd, hn⟩ := h.not_mem
  refine ⟨h.1, h.2, h.3, h.4, ?_, h.desc, h.le_done, h.used, h.bytes, h.len⟩
  have hf := writeAvail_flight (ringSize_dvd tr) (queueSize_le_ringSize tr) h.owned hd hn d
  exact (hf ▸ h.perm :)

/-- Advancing the index of the available ring: the descriptor is out no more. -/
theorem RxCore.bumpAvail {d : ℕ} (h : RxCore arch tr minLen last m (d :: out) s)
    (hs : (s.q .rx).avail ((s.q .rx).availIdx % ringSize tr) = d) :
    RxCore arch tr minLen last m out
      (s.setQ .rx ((s.q .rx).writeAvailIdx (((s.q .rx).availIdx + 1) % idxMod))) := by
  obtain ⟨hd, hn⟩ := h.not_mem
  refine ⟨h.1, mod_idxMod_lt _, h.3, h.4, ?_, h.desc, h.le_done, h.used, h.bytes, h.len⟩
  have hf := bumpAvail_flight (ringSize_dvd tr) (queueSize_le_ringSize tr) (ringSize_lt tr) h.owned hd hn hs
  have hout := hf.append_right out
  rw [List.cons_append] at hout
  exact hout.trans (List.perm_middle.symm.trans h.perm)

/-! ### The invariant between calls, and inside one -/

/-- The receive queue together with the log of the calls so far. The driver is at
index `last`, has consumed `m` completions, and has the descriptors `hand` in its
hands; beyond those, one descriptor is out for each rejected completion. -/
def RxState (arch : Arch) (tr : Transport) (minLen : ℕ) (log : List Entry) (last m : ℕ) (hand : List ℕ)
    (s : Mem) : Prop :=
  (consumers log).length ≤ m ∧
  (∃ out, RxCore arch tr minLen last m (hand ++ out) s ∧ out.length = (rejected log s.done).length) ∧
  received log = (consumed log s.done).filterMap delivery

/-- The invariant between calls. -/
def RxInv (arch : Arch) (tr : Transport) (minLen : ℕ) (log : List Entry) (ctx : Ctx) (s : Mem) : Prop :=
  ctx.initialized = true ∧ RxState arch tr minLen log ctx.rxLastUsedIdx (consumers log).length [] s

variable {log : List Entry} {hand : List ℕ} {ctx : Ctx} {c : Completion} {n : ℕ}

theorem RxState.stable (arch : Arch) (tr : Transport) (minLen : ℕ) (log : List Entry) (last m : ℕ) (hand : List ℕ) :
    (net arch tr minLen).Stable (RxState arch tr minLen log last m hand) := by
  rintro e s s' ⟨hm, ⟨out, hcore, hout⟩, hrec⟩ he
  obtain ⟨l, hl⟩ := device_done he
  have hle : (consumers log).length ≤ s.done.length := hm.trans hcore.le_done
  refine ⟨hm, ⟨out, RxCore.stable arch tr minLen last m _ e s s' hcore he, ?_⟩, ?_⟩
  · rw [hout, rejected, rejected, hl, consumed_append_done hle]
  · rw [hrec, hl, consumed_append_done hle]

theorem RxInv.stable (arch : Arch) (tr : Transport) (minLen : ℕ) (log : List Entry) (ctx : Ctx) :
    (net arch tr minLen).Stable (RxInv arch tr minLen log ctx) :=
  fun e s s' h he => ⟨h.1, RxState.stable arch tr minLen log _ _ _ e s s' h.2 he⟩

theorem stable_done (arch : Arch) (tr : Transport) (minLen m : ℕ) (c : Completion) :
    (net arch tr minLen).Stable fun s => s.done[m]? = some c := by
  intro e s s' h he
  obtain ⟨l, hl⟩ := device_done he
  rw [hl, List.getElem?_append_left (List.getElem?_eq_some_iff.mp h).1]
  exact h

/-- A call that has not consumed anything and has returned no packet. -/
theorem RxInv.append_of_none (h : RxInv arch tr minLen log ctx s) {e : Entry} (hc : e.consumer = none)
    (hp : e.packet = none) : RxInv arch tr minLen (log ++ [e]) ctx s := by
  have hcons : consumers (log ++ [e]) = consumers log := by simp [consumers_append, hc]
  obtain ⟨hi, hm, ⟨out, hcore, hout⟩, hrec⟩ := h
  refine ⟨hi, ?_⟩
  rw [hcons]
  refine ⟨by rw [hcons], ⟨out, hcore, ?_⟩, ?_⟩
  · rw [hout, rejected, rejected, consumed_append_of_none hc]
  · rw [received_append, hp, consumed_append_of_none hc, hrec, Option.toList_none, List.append_nil]

/-- The index moves, so a call that has advanced it has consumed. -/
theorem consumer_bumpRx (n : ℕ) (ctx : Ctx) (ret : Ret) :
    Entry.consumer ⟨.receive n, ctx, ret, ctx.bumpRx⟩ = some n := by
  have : (ctx.rxLastUsedIdx + 1) % idxMod ≠ ctx.rxLastUsedIdx := by
    simp only [idxMod]
    omega
  simp [Entry.consumer, Ctx.bumpRx, this]

/-- A call that has consumed a completion and put its descriptor back has returned
its packet. -/
theorem RxState.accept (hi : ctx.initialized = true)
    (h : RxState arch tr minLen log ctx.bumpRx.rxLastUsedIdx ((consumers log).length + 1) [] s)
    (hc : s.done[(consumers log).length]? = some c) (hf : Fits n c) :
    RxInv arch tr minLen
      (log ++ [⟨.receive n, ctx, ⟨0, some (c.bytes.length - hdrLen), c.packet⟩, ctx.bumpRx⟩]) ctx.bumpRx s := by
  have hcons := consumer_bumpRx n ctx ⟨0, some (c.bytes.length - hdrLen), c.packet⟩
  obtain ⟨-, ⟨out, hcore, hout⟩, hrec⟩ := h
  refine ⟨hi, ?_⟩
  rw [consumers_append, hcons, Option.toList_some, List.length_append]
  refine ⟨by simp [consumers_append, hcons], ⟨out, hcore, ?_⟩, ?_⟩
  · rw [hout, rejected, rejected, consumed_append_log hcons hc, List.filter_append]
    simp [hf]
  · rw [received_append, consumed_append_log hcons hc, List.filterMap_append, hrec]
    simp [Entry.packet, delivery, hf]

/-- A call that has consumed a completion that does not fit has lost its descriptor. -/
theorem RxState.reject (hi : ctx.initialized = true) (h : RxState arch tr minLen log ctx.rxLastUsedIdx
    (consumers log).length [] s) (hc : s.done[(consumers log).length]? = some c) (hf : ¬ Fits n c) :
    RxInv arch tr minLen (log ++ [⟨.receive n, ctx, .fail, ctx.bumpRx⟩]) ctx.bumpRx s := by
  obtain ⟨-, ⟨out, hcore, hout⟩, hrec⟩ := h
  have hcons := consumer_bumpRx n ctx .fail
  obtain ⟨-, -, -, hcore'⟩ := hcore.consume hc
  refine ⟨hi, ?_⟩
  rw [consumers_append, hcons, Option.toList_some, List.length_append]
  refine ⟨by simp [consumers_append, hcons], ⟨c.id :: out, hcore', ?_⟩, ?_⟩
  · rw [List.length_cons, hout, rejected, rejected, consumed_append_log hcons hc, List.filter_append]
    simp [hf]
  · rw [received_append, consumed_append_log hcons hc, List.filterMap_append, hrec]
    simp [Entry.packet, delivery, hf, Ret.fail]

/-! ### A call of `virtio_net_receive` -/

section Receive

variable {A G : Op → Mem → Prop} (hG : ∀ o s, G o s)

include hG

/-- The bytes copied out of the buffer of a completion that has not been consumed are
its bytes, however the device moves during the copy. -/
theorem readBytes_safe {s : Mem} (h : RxInv arch tr minLen log ctx s) (hc : s.done[(consumers log).length]? = some c) :
    (readBytes (c.id * maxPacketSize + rxBufferOffset arch + hdrLen) (c.bytes.length - hdrLen)).Safe
      (net arch tr minLen).toMachine A G (fun r s' => r = c.packet ∧ RxInv arch tr minLen log ctx s' ∧
        s'.done[(consumers log).length]? = some c) s := by
  have hB := (RxInv.stable arch tr minLen log ctx).and (stable_done arch tr minLen (consumers log).length c)
  refine (Safe.readEach hB (f := fun a => c.bytes.getD (a - (c.id * maxPacketSize + rxBufferOffset arch)) 0) ?_
    ⟨h, hc⟩).mono ?_
  · intro i hi s hs
    refine Safe.op_of_stable hB hs fun s₁ h₁ => ⟨hG _ _, fun _ => Safe.ret_of_stable hB h₁ fun s₂ h₂ => ⟨?_, h₂⟩⟩
    obtain ⟨⟨-, -, ⟨out, hcore, -⟩, -⟩, hc₁⟩ := h₁
    obtain ⟨-, hid, hbytes, -⟩ := hcore.consume hc₁
    have hlt : hdrLen + i < c.bytes.length := by omega
    have hget : c.bytes[hdrLen + i]? = (s₁.rxBytes c.id c.bytes.length)[hdrLen + i]? := by rw [← hbytes]
    simp only [Mem.rxBytes, hcore.desc c.id hid, rxDesc, List.getElem?_map, List.getElem?_range hlt,
      Option.map_some] at hget
    rw [Nat.add_assoc, Nat.add_sub_cancel_left, List.getD_eq_getElem?_getD, hget, Option.getD_some]
    rfl
  · rintro r s' ⟨rfl, hs'⟩
    refine ⟨List.ext_getElem (by simp [Completion.packet]) fun i h₁ h₂ => ?_, hs'⟩
    simp only [length_load] at h₁
    have hlt : hdrLen + i < c.bytes.length := by omega
    rw [getElem_load, Nat.add_assoc, Nat.add_sub_cancel_left]
    simp [Completion.packet, hlt]

/-- From the reading of the used element on, the call is safe. -/
theorem receiveUsed_safe (n : ℕ) {s : Mem} (h : RxInv arch tr minLen log ctx s)
    (hc : s.done[(consumers log).length]? = some c) :
    (receiveUsed arch tr n ctx c.id c.bytes.length).Safe (net arch tr minLen).toMachine A G
      (fun r s' => RxInv arch tr minLen (log ++ [⟨.receive n, ctx, r.2, r.1⟩]) r.1 s') s := by
  have hinit : ctx.initialized = true := h.1
  have hdone := stable_done arch tr minLen (consumers log).length c
  have hB := (RxInv.stable arch tr minLen log ctx).and hdone
  obtain ⟨-, -, ⟨out, hcore, -⟩, -⟩ := id h
  obtain ⟨-, hid, -, -⟩ := hcore.consume hc
  have hlen := (hcore.len c (List.mem_of_getElem? hc)).2
  have hreject : ¬ Fits n c → (Prog.ret (ctx.bumpRx, Ret.fail) : Drv (Ctx × Ret)).Safe (net arch tr minLen).toMachine A G
      (fun r s' => RxInv arch tr minLen (log ++ [⟨.receive n, ctx, r.2, r.1⟩]) r.1 s') s := fun hf =>
    Safe.ret_of_stable hB ⟨h, hc⟩ fun s' hs' => RxState.reject hinit hs'.1.2 hs'.2 hf
  unfold receiveUsed
  rw [if_neg (Nat.not_le.mpr hid)]
  dsimp only
  split_ifs with h0 hhdr hbuf
  · refine hreject fun hf => ?_
    have := hf.1
    simp only [hdrLen, maxPacketSize] at *
    omega
  · exact hreject fun hf => absurd hf.1 (Nat.not_le.mpr hhdr)
  · exact hreject fun hf => absurd hf.2 (Nat.not_le.mpr hbuf)
  have hfits : Fits n c := ⟨Nat.not_lt.mp hhdr, Nat.not_lt.mp hbuf⟩
  refine Safe.bind ((readBytes_safe hG h hc).mono ?_)
  rintro data s₁ ⟨rfl, ⟨-, hst₁⟩, hc₁⟩
  -- the descriptor is in the driver's hands until it is published
  refine Safe.bind ((publish_safe (A := A) (G := G) ctx.bumpRx .rx c.id
    (H := fun s => RxState arch tr minLen log ctx.bumpRx.rxLastUsedIdx ((consumers log).length + 1) [c.id] s ∧
      s.done[(consumers log).length]? = some c)
    (D := fun s => RxState arch tr minLen log ctx.bumpRx.rxLastUsedIdx ((consumers log).length + 1) [] s ∧
      s.done[(consumers log).length]? = some c)
    ((RxState.stable arch tr minLen log _ _ _).and hdone) ((RxState.stable arch tr minLen log _ _ _).and hdone)
    ?_ ?_ (fun o s _ => hG o s) (fun s _ => hG _ s) ?_).mono ?_)
  · rintro s ⟨⟨hm, ⟨out, hcore, hout⟩, hrec⟩, hc⟩
    exact ⟨⟨hm, ⟨out, hcore.writeAvail, hout⟩, hrec⟩, hc⟩
  · rintro s ⟨⟨hm, ⟨out, hcore, hout⟩, hrec⟩, hc⟩ hslot
    exact ⟨⟨hm, ⟨out, hcore.bumpAvail hslot, hout⟩, hrec⟩, hc⟩
  · obtain ⟨hm, ⟨out, hcore, hout⟩, hrec⟩ := hst₁
    exact ⟨⟨by omega, ⟨out, (hcore.consume hc₁).2.2.2, hout⟩, hrec⟩, hc₁⟩
  · rintro - s₂ h₂
    refine Safe.ret_of_stable ((RxState.stable arch tr minLen log _ _ _).and hdone) h₂ fun s₃ h₃ => ?_
    exact RxState.accept hinit h₃.1 h₃.2 hfits

/-- **A call of `virtio_net_receive`** is safe, and re-establishes the invariant. -/
theorem receive_safe (n : ℕ) {s : Mem} (h : RxInv arch tr minLen log ctx s) :
    (virtioNetReceive arch tr n ctx).Safe (net arch tr minLen).toMachine A G
      (fun r s' => RxInv arch tr minLen (log ++ [⟨.receive n, ctx, r.2, r.1⟩]) r.1 s') s := by
  have hinit : ctx.initialized = true := h.1
  simp only [virtioNetReceive, hinit, Bool.not_true, Bool.false_eq_true, if_false]
  refine safe_readUsedIdx (RxInv.stable arch tr minLen log ctx) h fun s₁ h₁ => ⟨hG _ _, ?_⟩
  split_ifs with hidx
  · -- nothing new in the used ring
    refine Safe.ret_of_stable (RxInv.stable arch tr minLen log ctx) h₁ fun s₂ h₂ => ?_
    exact h₂.append_of_none (by simp [Entry.consumer]) (by simp [Entry.packet, Ret.fail])
  -- the completion that this call consumes
  obtain ⟨c, hc₁⟩ : ∃ c, s₁.done[(consumers log).length]? = some c := by
    obtain ⟨-, -, ⟨out, hcore, -⟩, -⟩ := h₁
    exact hcore.exists_of_ne hidx
  have hB := (RxInv.stable arch tr minLen log ctx).and (stable_done arch tr minLen (consumers log).length c)
  refine safe_readUsed hB ⟨h₁, hc₁⟩ fun s₂ ⟨h₂, hc₂⟩ => ⟨hG _ _, ?_⟩
  obtain ⟨-, -, ⟨out, hcore, -⟩, -⟩ := id h₂
  rw [show (s₂.q .rx).used (ctx.rxLastUsedIdx % ringSize tr) = c.used from (hcore.consume hc₂).1.symm]
  exact receiveUsed_safe hG n h₂ hc₂

end Receive

/-! ### Runs -/

/-- The invariant does not depend on the driver's other fields. -/
theorem RxInv.congr_ctx {ctx' : Ctx} (h : RxInv arch tr minLen log ctx s)
    (hl : ctx'.rxLastUsedIdx = ctx.rxLastUsedIdx) (hi : ctx'.initialized = ctx.initialized) :
    RxInv arch tr minLen log ctx' s := by
  refine ⟨hi.trans h.1, ?_⟩
  rw [hl]
  exact h.2

theorem RxInv.congr (h : RxInv arch tr minLen log ctx s) (hq : s'.rxq = s.rxq) (hb : s'.rxBuffers = s.rxBuffers)
    (hd : s'.done = s.done) : RxInv arch tr minLen log ctx s' := by
  obtain ⟨hi, hm, ⟨out, hcore, hout⟩, hrec⟩ := h
  exact ⟨hi, hm, ⟨out, hcore.congr hq hb hd, by rw [hd]; exact hout⟩, by rw [hd]; exact hrec⟩

/-- Every call of the driver keeps the invariant of the receive queue. -/
theorem rx_call (arch : Arch) (tr : Transport) (minLen : ℕ) (l : List Entry) (k : Call) (p : Ctx) (s : Mem)
    (h : RxInv arch tr minLen l p s) : ((net arch tr minLen).body k p).Safe (net arch tr minLen).toMachine
      (fun _ _ => True) (fun _ _ => True) (fun r s => RxInv arch tr minLen (l ++ [⟨k, p, r.2, r.1⟩]) r.1 s) s := by
  cases k with
  | receive n => exact receive_safe (fun _ _ => trivial) n h
  | transmit packet =>
    refine (Safe.of_all (transmit_all arch tr packet p) (RxInv.stable arch tr minLen l p) ?_ h).mono ?_
    · intro o s ho hs
      obtain ⟨hq, hb, hd⟩ := exec_touches_tx ho s
      exact ⟨trivial, hs.congr hq hb hd⟩
    · rintro r s' ⟨⟨hl, hi⟩, hs'⟩
      exact (hs'.congr_ctx hl hi).append_of_none rfl rfl

/-- Initialisation publishes the 16 receive descriptors. -/
theorem rxInv_init (arch : Arch) (tr : Transport) (minLen : ℕ) :
    RxInv arch tr minLen [] initCtx (initMem arch tr) := by
  have hdone : (initMem arch tr).done = [] := rfl
  refine ⟨rfl, le_rfl, ⟨[], ⟨?_, ?_, ?_, by decide, ?_, ?_, Nat.zero_le _, ?_, ?_, ?_⟩, rfl⟩, rfl⟩
  · cases arch <;> cases tr <;> decide
  · cases arch <;> cases tr <;> decide
  · cases arch <;> cases tr <;> decide
  · cases arch <;> cases tr <;> decide
  · cases arch <;> cases tr <;> decide
  · cases arch <;> cases tr <;> decide
  · simp [hdone]
  · simp [hdone]

/-- In every run, the receive queue is as the invariant says. -/
theorem rx_good {c : Cfg Op Ans Mem Call Ctx Ret} (h : (net arch tr minLen).Reach (start arch tr) c) :
    (net arch tr minLen).Good (fun _ _ _ => True) (fun _ _ _ => True) (RxInv arch tr minLen) c :=
  System.reach_safe (RxInv.stable arch tr minLen) (rx_call arch tr minLen) (.start (rxInv_init arch tr minLen)) h

/-- Every receive descriptor is in exactly one place: published in the available ring
and not yet taken, held by the device, or in the used ring and not yet consumed. -/
def AllPresent (tr : Transport) (c : Cfg Op Ans Mem Call Ctx Ret) : Prop :=
  (c.shared.rxq.flight (ringSize tr) c.priv.rxLastUsedIdx).Perm (List.range queueSize)

/-- **No receive descriptor is lost as long as packets fit.** Against a device that
reports at least one byte with each descriptor it returns, between calls all 16
receive descriptors are in exactly one place if and only if every completion that a
call has consumed had a whole header and a packet that fitted that call's buffer. -/
theorem receive_capacity_iff (arch : Arch) (tr : Transport) (c : Cfg Op Ans Mem Call Ctx Ret)
    (h : (net arch tr 1).Reach (start arch tr) c) (hc : c.Idle) :
    AllPresent tr c ↔ ∀ p ∈ consumed c.log c.shared.done, Fits p.1 p.2 := by
  obtain ⟨-, -, ⟨out, hcore, hout⟩, -⟩ := (rx_good h).idle hc
  rw [List.nil_append] at hcore
  have hrej : (∀ p ∈ consumed c.log c.shared.done, Fits p.1 p.2) ↔ out = [] := by
    rw [← List.length_eq_zero_iff, hout, List.length_eq_zero_iff, rejected, List.filter_eq_nil_iff]
    simp
  rw [hrej]
  constructor
  · intro hall
    have h₁ := hall.length_eq
    have h₂ := hcore.perm.length_eq
    rw [List.length_append] at h₂
    exact List.length_eq_zero_iff.mp (by omega)
  · rintro rfl
    exact (List.append_nil (c.shared.rxq.flight _ _) ▸ hcore.perm :)

/-- A frame of 65 bytes arrives, and a call with a 64-byte buffer rejects it. -/
def oversizedFrame : List (Event Call Dev) :=
  [.env .rxTake, .env (.rxComplete 0 75), .call (.receive 64), .tick, .tick, .tick]

/-- A call that rejects a frame loses its descriptor: after the run above only 15 are
in any of the three places. -/
theorem receive_loses_descriptor :
    ¬ ∀ c, (net .riscv .mmio 1).Reach (start .riscv .mmio) c → c.Idle → AllPresent .mmio c := by
  intro h
  obtain ⟨c, hc⟩ : ∃ c, (net .riscv .mmio 1).run (start .riscv .mmio) oversizedFrame = some c :=
    Option.isSome_iff_exists.mp (by decide)
  have hobs : ((net .riscv .mmio 1).run (start .riscv .mmio) oversizedFrame).map (fun c =>
      (c.cur.isNone, (c.shared.rxq.flight 16 c.priv.rxLastUsedIdx).length)) = some (true, 15) := by decide
  rw [hc, Option.map_some, Option.some.injEq, Prod.mk.injEq] at hobs
  have hall := h c (System.reach_of_run _ hc) (Option.isNone_iff_eq_none.mp hobs.1)
  have hlen := hall.length_eq
  rw [List.length_range] at hlen
  exact absurd (hlen.symm.trans hobs.2) (by decide)

/-- A frame of two bytes arrives, and a call with a 64-byte buffer receives it. -/
def fittingFrame : List (Event Call Dev) :=
  [.env .rxTake, .env (.rxWrite 0 10 7), .env (.rxComplete 0 12), .call (.receive 64)] ++ List.replicate 10 .tick

/-- The run above consumes a completion that fits, and all descriptors are present. -/
theorem receive_capacity_fittingFrame :
    ∃ c, (net .amd64 .pci 1).run (start .amd64 .pci) fittingFrame = some c ∧ c.Idle ∧
      (consumed c.log c.shared.done).length = 1 ∧
      (AllPresent .pci c ↔ ∀ p ∈ consumed c.log c.shared.done, Fits p.1 p.2) := by
  obtain ⟨c, hc⟩ : ∃ c, (net .amd64 .pci 1).run (start .amd64 .pci) fittingFrame = some c :=
    Option.isSome_iff_exists.mp (by decide)
  have hobs : ((net .amd64 .pci 1).run (start .amd64 .pci) fittingFrame).map (fun c =>
      (c.cur.isNone, (consumed c.log c.shared.done).length)) = some (true, 1) := by decide
  rw [hc, Option.map_some, Option.some.injEq, Prod.mk.injEq] at hobs
  have hidle := Option.isNone_iff_eq_none.mp hobs.1
  exact ⟨c, hc, hidle, hobs.2, receive_capacity_iff .amd64 .pci c (System.reach_of_run _ hc) hidle⟩

/-! ### The packets received -/

/-- What the log says of the completions, and they of it: it holds in the middle of a
call as well as between calls. -/
def Delivered (minLen : ℕ) (log : List Entry) (s : Mem) : Prop :=
  (consumers log).length ≤ s.done.length ∧ received log = (consumed log s.done).filterMap delivery ∧
    ∀ c ∈ s.done, minLen ≤ c.bytes.length

theorem exec_done (o : Op) (s : Mem) : (exec o s).2.done = s.done := by
  rcases o with ⟨ctx, _ | _, o⟩ | _ | _ | _ <;> rfl

theorem delivered {c : Cfg Op Ans Mem Call Ctx Ret} (h : (net arch tr minLen).Reach (start arch tr) c) :
    Delivered minLen c.log c.shared := by
  have hI : ∀ l p s, RxInv arch tr minLen l p s → Delivered minLen l s := by
    rintro l p s ⟨-, -, ⟨out, hcore, -⟩, hrec⟩
    exact ⟨hcore.le_done, hrec, fun c hc => (hcore.len c hc).1⟩
  refine System.reach_always (S := net arch tr minLen) (RxInv.stable arch tr minLen) (rx_call arch tr minLen) hI ?_ ?_
    (.start (rxInv_init arch tr minLen)) (hI _ _ _ (rxInv_init arch tr minLen)) h
  · rintro l e s s' ⟨hle, hrec, hlen⟩ he
    obtain ⟨x, hx⟩ := device_done he
    refine ⟨?_, ?_, ?_⟩
    · rw [hx, List.length_append]
      exact Nat.le_add_right_of_le hle
    · rw [hx, consumed_append_done hle]
      exact hrec
    · intro c hc
      exact device_len hlen he c hc
  · rintro l o s ⟨hle, hrec, hlen⟩
    have hd := exec_done o s
    exact ⟨hd ▸ hle, hd ▸ hrec, hd ▸ hlen⟩

/-- A call that does not advance `rx_last_used_idx` changes nothing, and fails. -/
theorem unchanged_of_consumer_none {c : Cfg Op Ans Mem Call Ctx Ret} (h : (net arch tr minLen).Reach (start arch tr) c)
    {e : Entry} (he : e ∈ c.log) {n : ℕ} (hcall : e.call = .receive n) (hcons : e.consumer = none) :
    e.after = e.before ∧ e.result = .fail := by
  have hall : ∀ e ∈ c.log, ∀ n, e.call = .receive n → Entry.consumer e = none → e.after = e.before ∧ e.result = .fail := by
    refine System.log_of_all (S := net arch tr minLen) (fun k p => ?_) (show (start arch tr).Idle from rfl)
      (by simp [start, Cfg.start]) h
    cases k with
    | receive n =>
      refine (receive_all arch tr n p).mono (fun _ _ => trivial) ?_
      rintro ⟨p', r⟩ (hr | hr) n' - hnone
      · cases hr
        exact ⟨rfl, rfl⟩
      · obtain rfl : p' = p.bumpRx := hr
        rw [consumer_bumpRx] at hnone
        cases hnone
    | transmit packet =>
      refine (transmit_all arch tr packet p).mono (fun _ _ => trivial) ?_
      rintro r - n' hcall
      cases hcall
  exact hall e he n hcall hcons

/-- A call that finds no new entry in the used ring returns at once. -/
theorem receive_empty {c : Cfg Op Ans Mem Call Ctx Ret} (hc : c.Idle) (hi : c.priv.initialized = true)
    (hidx : c.shared.rxq.usedIdx = c.priv.rxLastUsedIdx) (n : ℕ) :
    (net arch tr minLen).run c [.call (.receive n), .tick, .tick] =
      some { c with log := c.log ++ [⟨.receive n, c.priv, .fail, c.priv⟩] } := by
  obtain ⟨p, s, cur, log⟩ := c
  obtain rfl : cur = none := hc
  have hfirst : (net arch tr minLen).run ⟨p, s, none, log⟩ [.call (.receive n), .tick, .tick] =
      (net arch tr minLen).run ⟨p, s, some (.receive n, if s.rxq.usedIdx = p.rxLastUsedIdx then ret (p, .fail) else
        readUsed p .rx (p.rxLastUsedIdx % ringSize tr) >>= fun elem => receiveUsed arch tr n p elem.id elem.len),
        log⟩ [.tick] := by
    show (net arch tr minLen).run ⟨p, s, some (.receive n, virtioNetReceive arch tr n p), log⟩ [.tick, .tick] = _
    unfold virtioNetReceive
    rw [show p.initialized = true from hi]
    rfl
  rw [hfirst, if_pos hidx]
  rfl

/-- **The packets received.** Against a device that reports a whole header with each
completion, in every run and on both transports: the calls consume the completions
one by one in order; what the successful calls have returned is exactly the packets
of the consumed completions that fitted the buffer of the call that consumed them,
with the length the device reported less the header; a call that has consumed nothing
has changed none of the driver's fields; and a call that finds no new entry in the
used ring consumes nothing. -/
theorem receive_exact (arch : Arch) (tr : Transport) (c : Cfg Op Ans Mem Call Ctx Ret)
    (h : (net arch tr hdrLen).Reach (start arch tr) c) :
    (consumers c.log).length ≤ c.shared.done.length ∧
    received c.log = ((consumers c.log).zip c.shared.done).filterMap (fun p =>
      if p.2.packet.length ≤ p.1 then some (some (p.2.bytes.length - hdrLen), p.2.packet) else none) ∧
    (∀ e ∈ c.log, ∀ n, e.call = .receive n → Entry.consumer e = none → e.after = e.before ∧ e.result = .fail) ∧
    (c.Idle → c.shared.rxq.usedIdx = c.priv.rxLastUsedIdx → ∀ n,
      (net arch tr hdrLen).run c [.call (.receive n), .tick, .tick] =
        some { c with log := c.log ++ [⟨.receive n, c.priv, .fail, c.priv⟩] }) := by
  obtain ⟨hle, hrec, hlen⟩ := delivered h
  refine ⟨hle, ?_, fun e he n => unchanged_of_consumer_none h he, fun hidle hidx => ?_⟩
  · rw [hrec]
    refine List.filterMap_congr fun p hp => ?_
    have hhdr := hlen p.2 (List.of_mem_zip hp).2
    have hfits : Fits p.1 p.2 ↔ p.2.packet.length ≤ p.1 := by
      simp only [Fits, Completion.packet, List.length_drop]
      exact and_iff_right hhdr
    simp only [delivery, hfits]
  · exact receive_empty hidle ((rx_good h).idle hidle).1 hidx

/-- In the run of the frame that fits, its two bytes are received. -/
theorem receive_exact_fittingFrame :
    ∃ c, (net .amd64 .pci hdrLen).run (start .amd64 .pci) fittingFrame = some c ∧
      received c.log = [(some 2, [7, 0])] ∧ received c.log = ((consumers c.log).zip c.shared.done).filterMap (fun p =>
        if p.2.packet.length ≤ p.1 then some (some (p.2.bytes.length - hdrLen), p.2.packet) else none) := by
  obtain ⟨c, hc⟩ : ∃ c, (net .amd64 .pci hdrLen).run (start .amd64 .pci) fittingFrame = some c :=
    Option.isSome_iff_exists.mp (by decide)
  have hobs : ((net .amd64 .pci hdrLen).run (start .amd64 .pci) fittingFrame).map (fun c => received c.log) =
      some [(some 2, [7, 0])] := by decide
  rw [hc, Option.map_some, Option.some.injEq] at hobs
  exact ⟨c, hc, hobs, (receive_exact .amd64 .pci c (System.reach_of_run _ hc)).2.1⟩

end Yasouos.Drivers.VirtioNet
