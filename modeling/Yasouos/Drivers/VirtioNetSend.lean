import Yasouos.Drivers.VirtioNetBuffers
import Yasouos.Theory.Observed

/-!
# What is sent on virtio-net

The device takes the descriptors that `virtio_net_transmit` publishes one after another and reads the
packets that they refer to whenever it likes, until it returns them. Meanwhile the driver goes on
transmitting.

## The model

The system is that of `Drivers.VirtioNet`, with a record (`Found`) of what the device has found in the
buffers when it took a descriptor.

## What is proved

`sent_exact`: in every run whose packets fit the buffers, the packets that the device has taken,
and after them those that are still in the available ring, are the packets for which
`virtio_net_transmit` has returned 0, each once, in the order of the calls, behind ten zero bytes; and
whenever the device looks at a descriptor that it holds, it finds what was there when it took it.
-/

namespace Yasouos.Drivers.VirtioNet

open Theory Prog Virtqueue

/-! ### What the device finds -/

/-- The bytes that descriptor `d` of the transmit queue refers to. -/
def Mem.txBytes (s : Mem) (d : ℕ) : List UInt8 := load s.txBuffers (s.txq.desc d).addr (s.txq.desc d).len

/-- What the device has found in the transmit buffers. -/
structure Found where
  /-- The bytes of the descriptors that it has taken, in order. -/
  taken : List (List UInt8)
  /-- The bytes of each descriptor when it was last taken. -/
  last : ℕ → List UInt8

/-- The device looks at a descriptor when it takes it. -/
def look (tr : Transport) : Dev → Mem → Found → Found
  | .txTake, s, found =>
    let d := s.txq.avail (s.txq.lastAvail % ringSize tr)
    ⟨found.taken ++ [s.txBytes d], Function.update found.last d (s.txBytes d)⟩
  | _, _, found => found

/-- The driver and the device, and what the device has found. -/
def netFound (arch : Arch) (tr : Transport) (minLen : ℕ) : System Op Ans (Mem × Found) Dev Call Ctx Ret :=
  (net arch tr minLen).observed (look tr)

/-- An initialised context, and a device that has taken nothing. -/
def startFound (arch : Arch) (tr : Transport) : Cfg Op Ans (Mem × Found) Call Ctx Ret :=
  (start arch tr).record ⟨[], fun _ => []⟩

/-- No run is left out: every run of the driver and the device is one with the record. -/
theorem exists_found {arch : Arch} {tr : Transport} {minLen : ℕ} {A : Call → Op → Mem → Prop}
    {c : Cfg Op Ans Mem Call Ctx Ret} (h : (net arch tr minLen).ReachUnder A (start arch tr) c) :
    ∃ c', (netFound arch tr minLen).ReachUnder (fun k o x => A k o x.1) (startFound arch tr) c' ∧ c'.erase = c :=
  System.exists_reachUnder_observed h _

/-- The packets of the transmits that have returned 0. -/
def accepted (log : List (Done Call Ctx Ret)) : List (List UInt8) :=
  log.filterMap fun e =>
    match e.call with
    | .transmit packet => if e.result.code = 0 then some packet else none
    | .receive _ => none

/-! ### The invariant -/

/-- **What is sent.** `sent` is what the device has taken and what is published after it; what is published or
held is inside its buffer; and what is held is as it was found. -/
structure Sent (arch : Arch) (tr : Transport) (sent : List (List UInt8)) (s : Mem) (found : Found) : Prop where
  inside : ∀ d, d ∈ s.txq.pending (ringSize tr) ∨ d ∈ s.txq.held →
    (s.txq.desc d).addr = txStart arch d ∧ rxBufferOffset arch + (s.txq.desc d).len ≤ maxPacketSize
  taken : found.taken ++ (s.txq.pending (ringSize tr)).map s.txBytes = sent
  held : ∀ d ∈ s.txq.held, s.txBytes d = found.last d

variable {arch : Arch} {tr : Transport} {minLen : ℕ} {sent : List (List UInt8)} {s s' : Mem} {found : Found}
  {hand : List ℕ} {ctx : Ctx} {d : ℕ} {packet : List UInt8}

/-- Only what is published or held matters. -/
theorem Sent.congr (h : Sent arch tr sent s found) (hp : s'.txq.pending (ringSize tr) = s.txq.pending (ringSize tr))
    (hh : s'.txq.held = s.txq.held)
    (hd : ∀ d, d ∈ s.txq.pending (ringSize tr) ∨ d ∈ s.txq.held →
      s'.txq.desc d = s.txq.desc d ∧ s'.txBytes d = s.txBytes d) : Sent arch tr sent s' found := by
  refine ⟨fun d hmem => ?_, ?_, fun d hmem => ?_⟩
  · rw [hp, hh] at hmem
    rw [(hd d hmem).1]
    exact h.inside d hmem
  · rw [hp, ← h.taken, List.append_cancel_left_eq]
    exact List.map_congr_left fun d hmem => (hd d (.inl hmem)).2
  · rw [hh] at hmem
    rw [(hd d (.inr hmem)).2]
    exact h.held d hmem

theorem Sent.of_eq (h : Sent arch tr sent s found) (hq : s'.txq = s.txq) (hb : s'.txBuffers = s.txBuffers) :
    Sent arch tr sent s' found := by
  refine h.congr (by rw [hq]) (by rw [hq]) fun d _ => ⟨by rw [hq], ?_⟩
  rw [Mem.txBytes, Mem.txBytes, hq, hb]

/-- What the device takes, it has found. -/
theorem Sent.take (h : Sent arch tr sent s found) (hcore : TxCore tr hand ctx s) {q : Virtqueue}
    (hq : s.txq.take (ringSize tr) = some q) : Sent arch tr sent { s with txq := q } (look tr .txTake s found) := by
  obtain ⟨d, hd⟩ : ∃ d, d = s.txq.avail (s.txq.lastAvail % ringSize tr) := ⟨_, rfl⟩
  have hlook : look tr .txTake s found = ⟨found.taken ++ [s.txBytes d], Function.update found.last d (s.txBytes d)⟩ := by
    rw [hd]
    rfl
  have hpop : s.txq.pending (ringSize tr) = d :: q.pending (ringSize tr) ∧ q.held = s.txq.held ++ [d] := by
    have hne : s.txq.lastAvail ≠ s.txq.availIdx := fun heq => by simp [Virtqueue.take, heq] at hq
    rw [Virtqueue.take, if_neg hne] at hq
    cases hq
    rw [hd]
    exact ⟨window_pop (ringSize_dvd tr) s.txq.avail hcore.owned.lastAvail_lt hcore.owned.availIdx_lt hne, rfl⟩
  obtain ⟨hpend, hheld⟩ := hpop
  have hdesc := (take_frame hq).1
  have hbytes : Mem.txBytes { s with txq := q } = s.txBytes := funext fun i => by rw [Mem.txBytes, Mem.txBytes, hdesc]
  rw [hlook]
  refine ⟨fun i hi => ?_, ?_, fun i hi => ?_⟩
  · show (q.desc i).addr = _ ∧ _
    rw [hdesc]
    refine h.inside i ?_
    replace hi : i ∈ q.pending (ringSize tr) ∨ i ∈ s.txq.held ++ [d] := hheld ▸ hi
    rw [List.mem_append, List.mem_singleton] at hi
    rw [hpend, List.mem_cons]
    tauto
  · rw [hbytes, ← h.taken, hpend, List.map_cons, List.append_assoc, List.singleton_append]
  · rw [hbytes]
    show s.txBytes i = Function.update found.last d (s.txBytes d) i
    by_cases hid : i = d
    · rw [hid, Function.update_self]
    · rw [Function.update_of_ne hid]
      have hi' : i ∈ s.txq.held ++ [d] := hheld ▸ hi
      rw [List.mem_append, List.mem_singleton] at hi'
      exact h.held i (hi'.resolve_right hid)

/-- What the device returns, it holds no more. -/
theorem Sent.complete (h : Sent arch tr sent s found) (hcore : TxCore tr hand ctx s) {q : Virtqueue} {id len : ℕ}
    (hq : s.txq.complete (ringSize tr) id len = some q) : Sent arch tr sent { s with txq := q } found := by
  obtain ⟨-, hheld, hpend, -⟩ :=
    complete_spec (ringSize_dvd tr) (queueSize_le_ringSize tr) (ringSize_lt tr) hcore.owned hq
  have hdesc := (complete_frame hq).1
  have hbytes : Mem.txBytes { s with txq := q } = s.txBytes := funext fun i => by rw [Mem.txBytes, Mem.txBytes, hdesc]
  have hsub : ∀ i ∈ q.held, i ∈ s.txq.held := fun i hi => List.mem_of_mem_erase (hheld ▸ hi)
  refine ⟨fun i hi => ?_, ?_, fun i hi => ?_⟩
  · show (q.desc i).addr = _ ∧ _
    rw [hdesc]
    exact h.inside i (hi.imp (fun hi => hpend ▸ hi) (hsub i))
  · rw [hbytes, hpend, h.taken]
  · rw [hbytes]
    exact h.held i (hsub i hi)

/-- The device keeps the invariant. -/
theorem Sent.stable (arch : Arch) (tr : Transport) (minLen : ℕ) (hand : List ℕ) (ctx : Ctx) (sent : List (List UInt8)) :
    (netFound arch tr minLen).Stable fun x => TxCore tr hand ctx x.1 ∧ Sent arch tr sent x.1 x.2 := by
  rintro e ⟨s, found⟩ ⟨s', found'⟩ ⟨hcore, h⟩ he
  obtain ⟨he, hfound⟩ := env_observed.1 he
  obtain rfl : found' = look tr e s found := hfound
  refine ⟨TxCore.stable arch tr minLen hand ctx e s s' hcore he, ?_⟩
  replace he : device tr minLen e s = some s' := he
  cases e with
  | rxTake =>
    simp only [device, Option.map_eq_some_iff] at he
    obtain ⟨q, -, rfl⟩ := he
    exact h.of_eq rfl rfl
  | rxWrite id i b =>
    simp only [device] at he
    split_ifs at he
    cases he
    exact h.of_eq rfl rfl
  | rxComplete id len =>
    simp only [device] at he
    split_ifs at he
    simp only [Option.map_eq_some_iff] at he
    obtain ⟨q, -, rfl⟩ := he
    exact h.of_eq rfl rfl
  | txTake =>
    simp only [device, Option.map_eq_some_iff] at he
    obtain ⟨q, hq, rfl⟩ := he
    exact h.take hcore hq
  | txComplete id len =>
    simp only [device, Option.map_eq_some_iff] at he
    obtain ⟨q, hq, rfl⟩ := he
    exact h.complete hcore hq

/-! ### What a transmit writes -/

theorem mem_flight {i : ℕ} (h : i ∈ s.txq.pending (ringSize tr) ∨ i ∈ s.txq.held) (last : ℕ) :
    i ∈ s.txq.flight (ringSize tr) last := by
  rw [flight, List.mem_append, List.mem_append]
  tauto

/-- Writing inside the buffer of a descriptor that is not in flight. -/
theorem Sent.writeTx (h : Sent arch tr sent s found) {last : ℕ} (hd : d ∉ s.txq.flight (ringSize tr) last)
    {a : ℕ} {b : UInt8}
    (ha : d * maxPacketSize ≤ a ∧ a < (d + 1) * maxPacketSize) :
    Sent arch tr sent { s with txBuffers := Function.update s.txBuffers a b } found := by
  refine h.congr rfl rfl fun i hi => ⟨rfl, load_congr fun j hj => ?_⟩
  obtain ⟨haddr, hlen⟩ := h.inside i hi
  have hne : i ≠ d := fun heq => hd (heq ▸ mem_flight hi last)
  refine Function.update_of_ne ?_ _ _
  show (s.txq.desc i).addr + j ≠ a
  rw [haddr, txStart]
  have hj' : j < (s.txq.desc i).len := hj
  intro heq
  rcases Nat.lt_or_gt_of_ne hne with hlt | hlt
  · have := Nat.mul_le_mul_right maxPacketSize (show i + 1 ≤ d from hlt)
    rw [Nat.succ_mul] at this
    omega
  · have := Nat.mul_le_mul_right maxPacketSize (show d + 1 ≤ i from hlt)
    omega

/-- Setting a descriptor that is not in flight. -/
theorem Sent.writeDesc (h : Sent arch tr sent s found) {last : ℕ} (hd : d ∉ s.txq.flight (ringSize tr) last) (v : VDesc) :
    Sent arch tr sent { s with txq := s.txq.writeDesc d v } found := by
  refine h.congr rfl rfl fun i hi => ?_
  have hne : i ≠ d := fun heq => hd (heq ▸ mem_flight hi last)
  have hdesc : (s.txq.writeDesc d v).desc i = s.txq.desc i := Function.update_of_ne hne _ _
  refine ⟨hdesc, ?_⟩
  show load s.txBuffers ((s.txq.writeDesc d v).desc i).addr ((s.txq.writeDesc d v).desc i).len = _
  rw [hdesc]
  rfl

/-- Writing the driver's slot of the available ring publishes nothing yet. -/
theorem Sent.writeAvail (h : Sent arch tr sent s found) (hd : TxHand tr d ctx s) :
    Sent arch tr sent { s with txq := s.txq.writeAvail (s.txq.availIdx % ringSize tr) d } found := by
  have hroom := hd.1.owned.room (queueSize_le_ringSize tr) hd.2.1 hd.2.2
  refine h.congr ?_ rfl fun i _ => ⟨rfl, rfl⟩
  exact window_write (ringSize_dvd tr) s.txq.avail d hd.1.owned.lastAvail_lt hd.1.owned.availIdx_lt hroom

/-- Advancing the index publishes the packet. -/
theorem Sent.bumpAvail (h : Sent arch tr sent s found) (hd : TxHand tr d ctx s)
    (hslot : s.txq.avail (s.txq.availIdx % ringSize tr) = d) (hrefers : Refers arch s d packet)
    (hfit : FitsBuffer arch (.transmit packet)) :
    Sent arch tr (sent ++ [withHeader packet])
      { s with txq := s.txq.writeAvailIdx ((s.txq.availIdx + 1) % idxMod) } found := by
  have hpend := bumpAvail_spec (ringSize_dvd tr) (queueSize_le_ringSize tr) (ringSize_lt tr) hd.1.owned hd.2.1 hd.2.2
  rw [hslot] at hpend
  have hbytes : s.txBytes d = withHeader packet := by
    rw [Mem.txBytes, hrefers.1]
    exact hrefers.2
  refine ⟨fun i hi => ?_, ?_, h.held⟩
  · rw [hpend, List.mem_append, List.mem_singleton] at hi
    by_cases hid : i = d
    · subst hid
      show (s.txq.desc i).addr = _ ∧ _ + (s.txq.desc i).len ≤ _
      rw [hrefers.1]
      refine ⟨rfl, ?_⟩
      simp only [FitsBuffer] at hfit
      rw [txDesc, ← Nat.add_assoc]
      exact hfit
    · exact h.inside i (by tauto)
  · show found.taken ++ (pending _ _).map s.txBytes = _
    rw [hpend, List.map_append, List.map_singleton, hbytes, ← List.append_assoc, h.taken]

/-! ### A call of `virtio_net_transmit` -/

/-- A descriptor that the device holds is as it was found. -/
def HeldAsFound (x : Mem × Found) : Prop := ∀ d ∈ x.1.txq.held, x.1.txBytes d = x.2.last d

/-- The access only reads. -/
def OnlyReads : Op → Prop
  | .queue _ _ .usedIdx | .queue _ _ (.used _) | .queue _ _ .availIdx => True
  | _ => False

theorem exec_onlyReads {o : Op} (h : OnlyReads o) (s : Mem) : (exec o s).2 = s := by
  match o, h with
  | .queue _ .rx .usedIdx, _ => rfl
  | .queue _ .rx (.used _), _ => rfl
  | .queue _ .rx .availIdx, _ => rfl
  | .queue _ .tx .usedIdx, _ => rfl
  | .queue _ .tx (.used _), _ => rfl
  | .queue _ .tx .availIdx, _ => rfl

theorem reclaimTx_onlyReads (tr : Transport) (ctx : Ctx) :
    (virtioNetReclaimTx tr ctx).All OnlyReads fun _ => True := by
  refine ⟨trivial, fun (u : ℕ) => ?_⟩
  show (reclaimLoop tr u idxMod ctx).All _ _
  generalize idxMod = fuel
  induction fuel generalizing ctx with
  | zero => exact trivial
  | succ fuel ih =>
    unfold reclaimLoop
    split_ifs
    · exact trivial
    · exact ⟨trivial, fun (e : VUsed) => ih (ctx.reclaimed e.id)⟩

/-- Storing bytes writes where they go. -/
theorem writeBytes_within (a : ℕ) (bs : List UInt8) :
    (writeBytes a bs).All (fun o => ∃ i b, (a ≤ i ∧ i < a + bs.length) ∧ o = .writeTx i b) fun _ => True := by
  induction bs generalizing a with
  | nil => exact trivial
  | cons b bs ih =>
    refine ⟨⟨a, b, by simp, rfl⟩, fun _ => (ih (a + 1)).mono ?_ fun _ h => h⟩
    rintro o ⟨i, b, hi, rfl⟩
    exact ⟨i, b, by rw [List.length_cons]; omega, rfl⟩

/-- A descriptor that is marked and not yet published, and what is sent. -/
def Sending (arch : Arch) (tr : Transport) (d : ℕ) (ctx : Ctx) (sent : List (List UInt8)) (x : Mem × Found) : Prop :=
  TxHand tr d ctx x.1 ∧ Sent arch tr sent x.1 x.2

theorem Sending.stable (arch : Arch) (tr : Transport) (minLen d : ℕ) (ctx : Ctx) (sent : List (List UInt8)) :
    (netFound arch tr minLen).Stable (Sending arch tr d ctx sent) := by
  rintro e x x' ⟨hd, hs⟩ he
  exact ⟨(TxHand.stable arch tr minLen d ctx).observed e x x' hd he,
    (Sent.stable arch tr minLen [d] ctx sent e x x' ⟨hd.1, hs⟩ he).2⟩

theorem Refers.stable (arch : Arch) (tr : Transport) (minLen d : ℕ) (packet : List UInt8) :
    (net arch tr minLen).Stable fun s => Refers arch s d packet := by
  intro e s s' h he
  obtain ⟨hb, hg⟩ := TxIs.stable arch tr minLen s.txBuffers s.txq.desc e s s' ⟨rfl, rfl⟩ he
  exact h.congr hb hg

section Transmit

variable {A : Op → Mem × Found → Prop} {x : Mem × Found} {b : ℕ → UInt8} {g : ℕ → VDesc}

/-- Storing bytes in the buffer of a descriptor that is not in flight. -/
theorem writeBytes_sending {a : ℕ} {bs : List UInt8} (ha : d * maxPacketSize ≤ a ∧ a + bs.length ≤ (d + 1) * maxPacketSize)
    (h : Sending arch tr d ctx sent x) (hb : TxIs b g x.1) :
    (writeBytes a bs).Safe (netFound arch tr minLen).toMachine A (fun _ => HeldAsFound)
      (fun _ x' => Sending arch tr d ctx sent x' ∧ TxIs (store b a bs) g x'.1) x := by
  have hkeep : (writeBytes a bs).Safe (netFound arch tr minLen).toMachine A (fun _ => HeldAsFound)
      (fun _ x' => True ∧ Sending arch tr d ctx sent x') x := by
    refine Safe.of_all (writeBytes_within a bs) (Sending.stable arch tr minLen d ctx sent) ?_ h
    rintro o y ⟨i, v, hi, rfl⟩ ⟨hd, hs⟩
    exact ⟨hs.held, ⟨hd.1.congr rfl, hd.2⟩, hs.writeTx hd.2.2 ⟨by omega, by omega⟩⟩
  have hstore : (writeBytes a bs).Safe (net arch tr minLen).toMachine (fun _ _ => True) (fun _ _ => True)
      (fun _ => TxIs (store b a bs) g) x.1 := writeBytes_store a bs (fun _ _ => trivial) hb
  have hbytes : (writeBytes a bs).Safe (netFound arch tr minLen).toMachine A (fun _ _ => True)
      (fun _ x' => TxIs (store b a bs) g x'.1) x := (hstore.observed x.2).assume fun _ _ _ => trivial
  exact (hkeep.and hbytes).mono fun _ y hy => ⟨hy.1.2, hy.2⟩

/-- An access to the transmit queue, under an assertion that the device keeps. -/
theorem safe_queueFound {α : Type} {Q : α → Mem × Found → Prop} {G : Op → Mem × Found → Prop} {B : Mem × Found → Prop}
    (o : QOp) {f : o.Ans → Drv α} (hB : (netFound arch tr minLen).Stable B) (hx : B x)
    (h : ∀ y a q, B y → o.exec y.1.txq = (a, q) → G (.queue ctx .tx o) y ∧
      (f a).Safe (netFound arch tr minLen).toMachine A G Q ({ y.1 with txq := q }, y.2)) :
    (op (.queue ctx .tx o) f : Drv α).Safe (netFound arch tr minLen).toMachine A G Q x :=
  Safe.op_of_stable hB hx fun y hy => ⟨(h y _ _ hy rfl).1, fun _ => (h y _ _ hy rfl).2⟩

/-- Publishing the descriptor of a packet. -/
theorem publish_sending (hfit : FitsBuffer arch (.transmit packet)) (h : Sending arch tr d ctx sent x)
    (hr : Refers arch x.1 d packet) :
    (publish tr ctx .tx d).Safe (netFound arch tr minLen).toMachine A (fun _ => HeldAsFound)
      (fun _ x' => TxCore tr [] ctx x'.1 ∧ Sent arch tr (sent ++ [withHeader packet]) x'.1 x'.2) x := by
  have hH : (netFound arch tr minLen).Stable fun y => Sending arch tr d ctx sent y ∧ Refers arch y.1 d packet :=
    (Sending.stable arch tr minLen d ctx sent).and (Refers.stable arch tr minLen d packet).observed
  have hidx : ∀ i, (netFound arch tr minLen).Stable
      fun y => (Sending arch tr d ctx sent y ∧ Refers arch y.1 d packet) ∧ y.1.txq.availIdx = i := fun i =>
    hH.and fun e y y' hy he => (device_avail (env_observed.1 he).1 .tx).2.trans hy
  have hfull : ∀ i, (netFound arch tr minLen).Stable
      fun y => ((Sending arch tr d ctx sent y ∧ Refers arch y.1 d packet) ∧ y.1.txq.availIdx = i) ∧
        y.1.txq.avail (i % ringSize tr) = d := fun i =>
    (hidx i).and fun e y y' hy he => by
      have havail : y'.1.txq.avail = y.1.txq.avail := (device_avail (env_observed.1 he).1 .tx).1
      rw [havail, hy]
  have hstable := Sent.stable arch tr minLen [] ctx (sent ++ [withHeader packet])
  refine safe_queueFound .availIdx hH ⟨h, hr⟩ ?_
  rintro y₁ i q h₁ ⟨⟩
  refine ⟨h₁.1.2.held, ?_⟩
  refine safe_queueFound (.writeAvail (y₁.1.txq.availIdx % ringSize tr) d) (hidx y₁.1.txq.availIdx) ⟨h₁, rfl⟩ ?_
  rintro y₂ i q ⟨⟨hs₂, hr₂⟩, hi₂⟩ ⟨⟩
  refine ⟨hs₂.2.held, ?_⟩
  -- the slot holds the descriptor
  rw [← hi₂]
  refine safe_queueFound .availIdx (hfull y₂.1.txq.availIdx)
    ⟨⟨⟨⟨hs₂.1.writeAvail, hs₂.2.writeAvail hs₂.1⟩, hr₂⟩, rfl⟩, Function.update_self _ _ _⟩ ?_
  rintro y₃ i q h₃ ⟨⟩
  refine ⟨h₃.1.1.1.2.held, ?_⟩
  refine safe_queueFound (.writeAvailIdx ((y₃.1.txq.availIdx + 1) % idxMod)) (hfull y₂.1.txq.availIdx) h₃ ?_
  rintro y₄ i q ⟨⟨⟨hs₄, hr₄⟩, hi₄⟩, hd₄⟩ ⟨⟩
  refine ⟨hs₄.2.held, ?_⟩
  -- advancing the index publishes it
  rw [h₃.1.2, ← hi₄]
  rw [← hi₄] at hd₄
  refine Safe.op_of_stable hstable ⟨hs₄.1.bumpAvail hd₄, hs₄.2.bumpAvail hs₄.1 hd₄ hr₄ hfit⟩ fun y₅ h₅ =>
    ⟨h₅.2.held, fun _ => ?_⟩
  exact Safe.ret_of_stable hstable h₅ fun _ h => h

/-- What a call adds to what is sent. -/
def sentBy (packet : List UInt8) (ret : Ret) : List (List UInt8) := if ret.code = 0 then [withHeader packet] else []

/-- **A call of `virtio_net_transmit`** that returns 0 adds its packet to what is sent, and one that fails adds
nothing. -/
theorem transmit_sent (hfit : FitsBuffer arch (.transmit packet)) (h : TxCore tr [] ctx x.1)
    (hs : Sent arch tr sent x.1 x.2) :
    (virtioNetTransmit arch tr packet ctx).Safe (netFound arch tr minLen).toMachine A (fun _ => HeldAsFound)
      (fun r x' => TxCore tr [] r.1 x'.1 ∧ Sent arch tr (sent ++ sentBy packet r.2) x'.1 x'.2) x := by
  have hfail : sent ++ sentBy packet .fail = sent := List.append_nil sent
  unfold virtioNetTransmit
  split_ifs
  · refine Safe.ret_of_stable (Sent.stable arch tr minLen [] ctx sent) ⟨h, hs⟩ fun x' hx' => ?_
    rw [hfail]
    exact hx'
  -- reclaiming only reads
  have hkeep : (virtioNetReclaimTx tr ctx).Safe (netFound arch tr minLen).toMachine A (fun _ => HeldAsFound)
      (fun _ x' => True ∧ TxCore tr [] ctx x'.1 ∧ Sent arch tr sent x'.1 x'.2) x := by
    refine Safe.of_all (reclaimTx_onlyReads tr ctx) (Sent.stable arch tr minLen [] ctx sent) ?_ ⟨h, hs⟩
    rintro o y ho hy
    have hsame : ((netFound arch tr minLen).exec o y).2 = y := Prod.ext (exec_onlyReads ho y.1) rfl
    rw [hsame]
    exact ⟨hy.2.held, hy⟩
  have hreclaim : (virtioNetReclaimTx tr ctx).Safe (net arch tr minLen).toMachine (fun _ _ => True) (fun _ _ => True)
      (fun ctx' => TxCore tr [] ctx') x.1 := reclaim_safe (fun _ _ _ => trivial) (fun _ _ => trivial) h
  have hcore : (virtioNetReclaimTx tr ctx).Safe (netFound arch tr minLen).toMachine A (fun _ _ => True)
      (fun ctx' x' => TxCore tr [] ctx' x'.1) x := (hreclaim.observed x.2).assume fun _ _ _ => trivial
  refine Safe.bind ((hkeep.and hcore).mono ?_)
  rintro c x₁ ⟨⟨-, -, hs₁⟩, h₁⟩
  cases hfind : findFree c.txDescInUse with
  | none =>
    refine Safe.ret_of_stable (Sent.stable arch tr minLen [] c sent) ⟨h₁, hs₁⟩ fun x' hx' => ?_
    rw [hfail]
    exact hx'
  | some d =>
    obtain ⟨hd, hfree⟩ := firstFree_some hfind
    have hroom : txStart arch d + hdrLen + packet.length ≤ (d + 1) * maxPacketSize := by
      simp only [FitsBuffer] at hfit
      rw [txStart, Nat.succ_mul]
      omega
    have hstart : d * maxPacketSize ≤ txStart arch d := Nat.le_add_right _ _
    have hheader : txStart arch d + (List.replicate hdrLen (0 : UInt8)).length ≤ (d + 1) * maxPacketSize := by
      rw [List.length_replicate]
      exact (Nat.le_add_right _ _).trans hroom
    refine Safe.bind ((writeBytes_sending ⟨hstart, hheader⟩ ⟨h₁.mark hd hfree, hs₁⟩ ⟨rfl, rfl⟩).mono ?_)
    rintro - x₂ ⟨h₂, hb₂⟩
    refine Safe.bind ((writeBytes_sending ⟨hstart.trans (Nat.le_add_right _ _), hroom⟩ h₂ hb₂).mono ?_)
    rintro - x₃ ⟨h₃, hb₃⟩
    replace hb₃ : TxIs (store x₁.1.txBuffers (txStart arch d) (withHeader packet)) x₁.1.txq.desc x₃.1 := by
      rw [withHeader, ← store_append x₁.1.txBuffers (show txStart arch d + (List.replicate hdrLen (0 : UInt8)).length =
        txStart arch d + hdrLen by rw [List.length_replicate])]
      exact hb₃
    refine safe_queueFound (.writeDesc d (txDesc arch d packet))
      ((Sending.stable arch tr minLen d _ sent).and (TxIs.stable arch tr minLen _ _).observed) ⟨h₃, hb₃⟩ ?_
    rintro x₄ i q ⟨⟨hd₄, hs₄⟩, hb₄⟩ ⟨⟩
    refine ⟨hs₄.held, ?_⟩
    -- the descriptor table is no part of what is in flight
    have hhand : TxHand tr d _ { x₄.1 with txq := x₄.1.txq.writeDesc d (txDesc arch d packet) } :=
      ⟨⟨⟨hd₄.1.owned.1, hd₄.1.owned.2, hd₄.1.owned.3, hd₄.1.owned.4, hd₄.1.owned.5, hd₄.1.owned.6⟩, hd₄.1.inUse⟩, hd₄.2⟩
    have hrefers : Refers arch { x₄.1 with txq := x₄.1.txq.writeDesc d (txDesc arch d packet) } d packet := by
      refine ⟨Function.update_self _ _ _, ?_⟩
      show load x₄.1.txBuffers _ _ = _
      rw [hb₄.1, ← length_withHeader, load_store]
    change (publish tr _ .tx d >>= fun _ => _).Safe _ _ _ _ _
    refine Safe.bind ((publish_sending hfit ⟨hhand, hs₄.writeDesc hd₄.2.2 _⟩ hrefers).mono fun _ x₅ h₅ => ?_)
    exact Safe.ret_of_stable (Sent.stable arch tr minLen [] _ _) h₅ fun _ h => h

/-- A receive sends nothing. -/
theorem receive_sent (n : ℕ) (h : TxCore tr [] ctx x.1) (hs : Sent arch tr sent x.1 x.2) :
    (virtioNetReceive arch tr n ctx).Safe (netFound arch tr minLen).toMachine A (fun _ => HeldAsFound)
      (fun r x' => TxCore tr [] r.1 x'.1 ∧ Sent arch tr sent x'.1 x'.2) x := by
  refine (Safe.of_all (receive_all arch tr n ctx) (Sent.stable arch tr minLen [] ctx sent) ?_ ⟨h, hs⟩).mono ?_
  · rintro o y ho ⟨hcore, hy⟩
    have hbuf : (exec o y.1).2.txBuffers = y.1.txBuffers := by
      cases o with
      | queue c w o =>
        obtain rfl : w = .rx := ho
        rfl
      | readRx a => rfl
      | writeTx a b => cases ho
      | notify w => rfl
    exact ⟨hy.held, hcore.congr (exec_touches_rx ho y.1), hy.of_eq (exec_touches_rx ho y.1) hbuf⟩
  · rintro r x' ⟨hr, hcore, hs'⟩
    refine ⟨?_, hs'⟩
    rcases hr with rfl | hr
    · exact hcore
    · rw [hr]
      exact ⟨hcore.owned, hcore.inUse⟩

end Transmit

/-! ### Runs -/

/-- The invariant between calls: what is sent are the packets of the transmits that have returned 0. -/
def SentInv (arch : Arch) (tr : Transport) (log : List (Done Call Ctx Ret)) (ctx : Ctx) (x : Mem × Found) : Prop :=
  TxCore tr [] ctx x.1 ∧ Sent arch tr ((accepted log).map withHeader) x.1 x.2

theorem accepted_append (log : List (Done Call Ctx Ret)) (e : Done Call Ctx Ret) :
    accepted (log ++ [e]) = accepted log ++ accepted [e] := by
  simp [accepted, List.filterMap_append]

/-- Every call whose packet fits its buffer keeps the invariant. -/
theorem sent_call (arch : Arch) (tr : Transport) (minLen : ℕ) (l : List (Done Call Ctx Ret)) (k : Call) (p : Ctx)
    (x : Mem × Found) (h : SentInv arch tr l p x) :
    ((netFound arch tr minLen).body k p).Safe (netFound arch tr minLen).toMachine (fun _ _ => FitsBuffer arch k)
      (fun _ => HeldAsFound) (fun r x' => SentInv arch tr (l ++ [⟨k, p, r.2, r.1⟩]) r.1 x') x := by
  obtain ⟨hcore, hs⟩ := h
  cases k with
  | receive n =>
    refine (receive_sent n hcore hs).mono fun r x' hx' => ?_
    rw [SentInv, accepted_append, show accepted [(⟨.receive n, p, r.2, r.1⟩ : Done Call Ctx Ret)] = [] from rfl,
      List.append_nil]
    exact hx'
  | transmit packet =>
    have hadd : ∀ r : Ctx × Ret, (accepted (l ++ [⟨.transmit packet, p, r.2, r.1⟩])).map withHeader =
        (accepted l).map withHeader ++ sentBy packet r.2 := by
      intro r
      rw [accepted_append, List.map_append, sentBy]
      split_ifs with hcode <;> simp [accepted, hcode]
    by_cases hfit : FitsBuffer arch (.transmit packet)
    · refine (transmit_sent hfit hcore hs).mono fun r x' hx' => ?_
      rw [SentInv, hadd]
      exact hx'
    · -- a packet that does not fit is refused for its length, or is excluded by the assumption
      show Safe _ _ _ _ (virtioNetTransmit arch tr packet p) x
      unfold virtioNetTransmit
      split_ifs with hlen
      · refine Safe.ret_of_stable (Sent.stable arch tr minLen [] p _) ⟨hcore, hs⟩ fun x' hx' => ?_
        rw [SentInv, hadd]
        exact ⟨hx'.1, by simpa [sentBy, Ret.fail] using hx'.2⟩
      · intro x' hr
        have hheld := (Sent.stable arch tr minLen [] p _).reach hr ⟨hcore, hs⟩
        exact ⟨hheld.2.held, fun hA => absurd hA hfit⟩

theorem sentInv_init (arch : Arch) (tr : Transport) :
    SentInv arch tr [] initCtx (initMem arch tr, ⟨[], fun _ => []⟩) := by
  have hempty : (initMem arch tr).txq.pending (ringSize tr) = [] ∧ (initMem arch tr).txq.held = [] := by
    cases arch <;> cases tr <;> decide
  refine ⟨(txInv_init arch tr).2.1, fun d hd => ?_, ?_, fun d hd => ?_⟩
  · rw [hempty.1, hempty.2] at hd
    simp at hd
  · rw [hempty.1]
    rfl
  · rw [hempty.2] at hd
    simp at hd

theorem sent_good {c : Cfg Op Ans (Mem × Found) Call Ctx Ret}
    (h : (netFound arch tr minLen).ReachUnder (fun k _ _ => FitsBuffer arch k) (startFound arch tr) c) :
    (netFound arch tr minLen).Good (fun k _ _ => FitsBuffer arch k) (fun _ _ => HeldAsFound) (SentInv arch tr) c :=
  System.reach_safe (fun _ p => Sent.stable arch tr minLen [] p _) (sent_call arch tr minLen)
    (System.Good.start (sentInv_init arch tr)) h

/-- **Every accepted packet is sent once, in order, and as it was.** Take any run in which every packet that is
transmitted fits a buffer, with the header and the offset.

* At any time, every descriptor that the device holds refers to the bytes that were there when the device took
  it.
* Whenever no call is running, what the device has taken so far, followed by what is still in the available ring,
  are the packets of the transmits that have returned 0, in their order, each behind ten zero bytes. -/
theorem sent_exact (arch : Arch) (tr : Transport) (minLen : ℕ) (c : Cfg Op Ans (Mem × Found) Call Ctx Ret)
    (h : (netFound arch tr minLen).ReachUnder (fun k _ _ => FitsBuffer arch k) (startFound arch tr) c) :
    (∀ d ∈ c.shared.1.txq.held, c.shared.1.txBytes d = c.shared.2.last d) ∧
      (c.Idle → c.shared.2.taken ++ (c.shared.1.txq.pending (ringSize tr)).map c.shared.1.txBytes =
        (accepted c.log).map withHeader) := by
  have hgood := sent_good h
  refine ⟨?_, fun hc => (hgood.idle hc).2.taken⟩
  obtain ⟨p, x, cur, l⟩ := c
  match cur, hgood with
  | none, hgood => exact (hgood.idle rfl).2.held
  | some (k, .ret (q, r)), hgood => exact (hgood.returning rfl).2.held
  | some (k, .op o f), hgood => exact hgood.guarantee rfl

/-- The packet of one byte has been taken, behind its header. -/
theorem sent_exact_returnedPacket :
    ∃ c, (netFound .riscv .mmio 10).runUnder (fun k _ _ => FitsBuffer .riscv k) (startFound .riscv .mmio)
        returnedPacket = some c ∧ c.shared.2.taken = [withHeader [1]] ∧
      c.shared.2.taken ++ (c.shared.1.txq.pending (ringSize .mmio)).map c.shared.1.txBytes =
        (accepted c.log).map withHeader := by
  obtain ⟨c, hrun⟩ : ∃ c, (netFound .riscv .mmio 10).runUnder (fun k _ _ => FitsBuffer .riscv k)
      (startFound .riscv .mmio) returnedPacket = some c := Option.isSome_iff_exists.mp (by decide)
  have hobs : ((netFound .riscv .mmio 10).runUnder (fun k _ _ => FitsBuffer .riscv k) (startFound .riscv .mmio)
      returnedPacket).map (fun c => (c.cur.isNone, c.shared.2.taken)) = some (true, [withHeader [1]]) := by decide
  rw [hrun, Option.map_some, Option.some.injEq, Prod.mk.injEq] at hobs
  obtain ⟨hidle, htaken⟩ := hobs
  exact ⟨c, hrun, htaken, (sent_exact .riscv .mmio 10 c (System.reachUnder_of_run _ _ hrun)).2
    (Option.isNone_iff_eq_none.mp hidle)⟩

end Yasouos.Drivers.VirtioNet
