import Yasouos.Theory.Ghost
import Yasouos.Drivers.E1000Rx
import Mathlib.Data.List.GetD

/-!
# Packets that the E1000 spreads over several descriptors

A packet that does not fit a buffer takes several receive descriptors, and only the last of them has the EOP
bit. `e1000_receive` drops a descriptor without the EOP bit and does not remember that it did. So it takes
the last descriptor of such a packet for a packet of its own (`receive_returns_tail`).

`receive_whole` says that this is all that goes wrong: in every run in which no receive comes to the last
descriptor of a spread packet with room for what is in it, each receive that succeeds returns one packet that the
device had stored in one descriptor, with all its bytes.

What the device has filled is in the descriptors only until the driver gives them back. So runs are taken with a
record (`Ledger`): what was put into each descriptor, in order, and how many descriptors the driver has given
back. The invariant `Ring` says that the descriptors from the driver's on hold the fills that it has not taken,
wherever in the ring that is.
-/

namespace Yasouos.Drivers.E1000

open Theory Prog

/-! ### The record -/

/-- What was put into one descriptor, and whether it has the EOP bit. -/
abbrev Fill := List UInt8 × Bool

/-- The record of a run. -/
structure Ledger where
  /-- What the device has put into descriptors, in order. -/
  fills : List Fill
  /-- How many descriptors the driver has given back. -/
  taken : ℕ

/-- The driver gives back a descriptor by clearing its status. -/
def Ledger.onOp : Op → Ledger → Ledger
  | .writeRxStatus _ _, g => { g with taken := g.taken + 1 }
  | _, g => g

/-- The device fills a descriptor. -/
def Ledger.onEnv : Dev → Ledger → Ledger
  | .fill bytes last, g => { g with fills := g.fills ++ [(bytes, last)] }
  | .send, g => g

/-- The driver and the device, with the record. -/
def recorded : System Op Ans (Mem × Ledger) Dev Call Ctx Ret := nic.withRecord Ledger.onOp Ledger.onEnv

/-- An initialised context, before any call. -/
def recordedStart : Cfg Op Ans (Mem × Ledger) Call Ctx Ret := .start initCtx (initMem, ⟨[], 0⟩)

/-- Fill number `k` is the last of a packet that was spread over several descriptors. -/
def isTail (fills : List Fill) : ℕ → Bool
  | 0 => false
  | k + 1 => fills[k]?.map Prod.snd == some false && fills[k + 1]?.map Prod.snd == some true

/-- Fill number `k` is a packet of its own. -/
def Single (fills : List Fill) (k : ℕ) (bytes : List UInt8) : Prop :=
  fills[k]? = some (bytes, true) ∧ (k = 0 ∨ ∃ before, fills[k - 1]? = some (before, true))

/-- How many calls have given back a descriptor. -/
def consumed (log : List (Done Call Ctx Ret)) : ℕ := log.countP fun e => e.before.rxCurrent ≠ e.after.rxCurrent

/-- **Whole packets only.** Every receive that has succeeded has returned a packet that the device had stored in
one descriptor, and all of it: the descriptor that it gave back, which is the one after those that the calls before
it gave back. -/
def Whole (fills : List Fill) (log : List (Done Call Ctx Ret)) : Prop :=
  ∀ i e n, log[i]? = some e → e.call = .receive n → e.result.code = 0 →
    ∃ bytes, Single fills (consumed (log.take i)) bytes ∧ e.result.buffer = bytes ∧
      e.result.receivedLength = some bytes.length

/-- A receive that reads the status of the last descriptor of a spread packet has no room for what is in it. -/
def NoTail : Call → Op → Mem × Ledger → Prop
  | .receive n, .readRxStatus _, x => isTail x.2.fills x.2.taken = true → ∀ f ∈ x.2.fills[x.2.taken]?, n < f.1.length
  | _, _, _ => True

instance : (k : Call) → (o : Op) → (x : Mem × Ledger) → Decidable (NoTail k o x)
  | .receive n, .readRxStatus _, x =>
    inferInstanceAs (Decidable (isTail x.2.fills x.2.taken = true → ∀ f ∈ x.2.fills[x.2.taken]?, n < f.1.length))
  | .transmit _, _, _ => isTrue trivial
  | .receive _, .readRxLength _, _ | .receive _, .readRx _, _ | .receive _, .writeRxStatus _ _, _
  | .receive _, .writeRdt _, _ | .receive _, .readTxStatus _, _ | .receive _, .writeTx _ _, _
  | .receive _, .writeTxLength _ _, _ | .receive _, .writeTxCmd _ _, _ | .receive _, .writeTxStatus _ _, _
  | .receive _, .writeTdt _, _ => isTrue trivial

/-! ### The ring and the record -/

/-- Descriptor `i` and its buffer are as the device has left them. -/
structure HoldsFill (s : Mem) (i : ℕ) (f : Fill) : Prop where
  le : f.1.length ≤ bufferSize
  length : (s.rxDescs i).length = f.1.length
  status : (s.rxDescs i).status = if f.2 then statDD ||| statEOP else statDD
  bytes : load s.rxBuffers (i * bufferSize) f.1.length = f.1

/-- **The ring and the record.** The descriptors from the driver's, `cur`, up to `RDH` hold the fills that the driver
has not taken. -/
structure Ring (cur : ℕ) (s : Mem) (g : Ledger) : Prop where
  core : ∃ short, RxCore cur short s
  count : g.taken + ringDist numDesc cur s.rdh = g.fills.length
  addr : ∀ i < numDesc, (s.rxDescs i).bufferAddr = i * bufferSize
  held : ∀ j f, g.fills[g.taken + j]? = some f → HoldsFill s ((cur + j) % numDesc) f

variable {cur : ℕ} {s s' : Mem} {g : Ledger} {f : Fill} {i : ℕ}

theorem HoldsFill.congr (h : HoldsFill s i f) (hdesc : s'.rxDescs i = s.rxDescs i)
    (hbuf : ∀ a, i * bufferSize ≤ a → a < (i + 1) * bufferSize → s'.rxBuffers a = s.rxBuffers a) : HoldsFill s' i f := by
  refine ⟨h.le, by rw [hdesc, h.length], by rw [hdesc, h.status], ?_⟩
  refine Eq.trans (load_congr fun j hj => ?_) h.bytes
  have hle := h.le
  refine hbuf _ (Nat.le_add_right _ _) ?_
  rw [Nat.succ_mul]
  omega

/-- There is a fill for a descriptor when it has the DD bit. -/
theorem Ring.exists_fill (h : Ring cur s g) (hdd : (s.rxDescs cur).dd) : ∃ f, g.fills[g.taken]? = some f := by
  obtain ⟨short, hcore⟩ := h.core
  have hlt := (hcore.dd cur hcore.cur_lt).mp hdd
  rw [ringDist_self hcore.cur_lt] at hlt
  have hcount := h.count
  exact ⟨_, List.getElem?_eq_getElem (by omega)⟩

theorem Ring.held_cur (h : Ring cur s g) (hf : g.fills[g.taken]? = some f) : HoldsFill s cur f := by
  obtain ⟨short, hcore⟩ := h.core
  have := h.held 0 f hf
  rwa [Nat.add_zero, Nat.mod_eq_of_lt hcore.cur_lt] at this

/-- A descriptor that is written keeps the address of its buffer. -/
theorem Ring.addr_update (h : Ring cur s g) {k : ℕ} {d : RxDesc} (hd : d.bufferAddr = (s.rxDescs k).bufferAddr) :
    ∀ i < numDesc, (Function.update s.rxDescs k d i).bufferAddr = i * bufferSize := by
  intro i hi
  by_cases hik : i = k
  · subst hik
    rw [Function.update_self, hd]
    exact h.addr i hi
  · rw [Function.update_of_ne hik]
    exact h.addr i hi

/-- The descriptor that the device fills. -/
theorem HoldsFill.of_fill {bytes : List UInt8} {last : Bool} (haddr : (s.rxDescs s.rdh).bufferAddr = s.rdh * bufferSize)
    (he : device (.fill bytes last) s = some s') : HoldsFill s' s.rdh (bytes, last) := by
  simp only [device, Option.ite_none_right_eq_some] at he
  obtain ⟨⟨-, hle⟩, he⟩ := he
  cases he
  refine ⟨hle, ?_, ?_, ?_⟩
  · show (Function.update s.rxDescs s.rdh _ s.rdh).length = _
    rw [Function.update_self]
  · show (Function.update s.rxDescs s.rdh _ s.rdh).status = _
    rw [Function.update_self]
  · show load (store s.rxBuffers (s.rxDescs s.rdh).bufferAddr bytes) _ _ = _
    rw [haddr, load_store]

/-- The device fills the next descriptor. -/
theorem Ring.fill (h : Ring cur s g) {bytes : List UInt8} {last : Bool}
    (he : device (.fill bytes last) s = some s') : Ring cur s' (Ledger.onEnv (.fill bytes last) g) := by
  obtain ⟨short, hcore⟩ := h.core
  have hcore' := hcore.device he |>.1
  have haddr := h.addr s.rdh hcore.rdh_lt
  have hfilled := HoldsFill.of_fill haddr he
  simp only [device, Option.ite_none_right_eq_some] at he
  obtain ⟨⟨hne, hle⟩, he⟩ := he
  cases he
  have hcount := h.count
  have hslots := hcore.count
  have hfree : 0 < ringDist numDesc s.rdh s.rdt := by
    rw [Nat.pos_iff_ne_zero]
    exact fun h0 => hne ((ringDist_eq_zero_iff hcore.rdh_lt hcore.rdt_lt).1 h0)
  have hdist : ringDist numDesc cur ((s.rdh + 1) % numDesc) = ringDist numDesc cur s.rdh + 1 :=
    ringDist_succ_right hcore.cur_lt hcore.rdh_lt (by simp only [numDesc] at *; omega)
  have hrdh : (cur + ringDist numDesc cur s.rdh) % numDesc = s.rdh := by
    rw [add_ringDist_mod dvd_rfl hcore.cur_lt hcore.rdh_lt, Nat.mod_eq_of_lt hcore.rdh_lt]
  refine ⟨⟨short, hcore'⟩, ?_, h.addr_update rfl, fun j f hf => ?_⟩
  · show g.taken + ringDist numDesc cur ((s.rdh + 1) % numDesc) = (g.fills ++ [(bytes, last)]).length
    rw [hdist, List.length_append, List.length_singleton]
    omega
  · replace hf : (g.fills ++ [(bytes, last)])[g.taken + j]? = some f := hf
    rcases Nat.lt_or_ge (g.taken + j) g.fills.length with hlt | hge
    · -- a descriptor that was filled before
      rw [List.getElem?_append_left hlt] at hf
      have hjr : (cur + j) % numDesc ≠ s.rdh := by
        rw [← hrdh]
        exact slot_ne (by omega) (by simp only [numDesc] at *; omega)
      refine (h.held j f hf).congr (Function.update_of_ne hjr _ _) fun a ha₁ ha₂ => ?_
      refine store_outside _ _ _ ?_
      rw [haddr]
      simp only [bufferSize] at *
      omega
    · -- the one that is filled now
      have hj : j = ringDist numDesc cur s.rdh := by
        have hlen := (List.getElem?_eq_some_iff.1 hf).1
        rw [List.length_append, List.length_singleton] at hlen
        omega
      subst hj
      rw [hcount, List.getElem?_append_right le_rfl, Nat.sub_self] at hf
      obtain rfl : (bytes, last) = f := by simpa using hf
      rw [hrdh]
      exact hfilled

theorem Ring.congr (h : Ring cur s g) (hs : SameRx s s') : Ring cur s' g := by
  obtain ⟨short, hcore⟩ := h.core
  obtain ⟨hdesc, hbuf, hrdh, hrdt⟩ := hs
  refine ⟨⟨short, hcore.congr ⟨hdesc, hbuf, hrdh, hrdt⟩⟩, by rw [hrdh]; exact h.count, ?_, fun j f hf => ?_⟩
  · rw [hdesc]
    exact h.addr
  · exact (h.held j f hf).congr (by rw [hdesc]) fun _ _ _ => by rw [hbuf]

/-- The driver gives back its descriptor, and is at the next. -/
theorem Ring.consume (h : Ring cur s g) (hdd : (s.rxDescs cur).dd) :
    Ring ((cur + 1) % numDesc) (exec (.writeRxStatus cur 0) s).2 (Ledger.onOp (.writeRxStatus cur 0) g) := by
  obtain ⟨short, hcore⟩ := h.core
  have hcount := h.count
  have hslots := hcore.count
  have hlt := (hcore.dd cur hcore.cur_lt).mp hdd
  rw [ringDist_self hcore.cur_lt] at hlt
  have hne : cur ≠ s.rdh := by
    intro heq
    rw [← heq, ringDist_self hcore.cur_lt] at hlt
    omega
  have hdist := ringDist_succ_left hcore.cur_lt hcore.rdh_lt hne
  refine ⟨⟨short + 1, hcore.consume hdd⟩, ?_, h.addr_update rfl, fun j f hf => ?_⟩
  · show g.taken + 1 + ringDist numDesc ((cur + 1) % numDesc) s.rdh = g.fills.length
    omega
  · replace hf : g.fills[g.taken + 1 + j]? = some f := hf
    have hj : g.taken + 1 + j < g.fills.length := (List.getElem?_eq_some_iff.1 hf).1
    have hnext : ((cur + 1) % numDesc + j) % numDesc = (cur + (1 + j)) % numDesc := by
      rw [Nat.mod_add_mod, Nat.add_assoc]
    have hjc : (cur + (1 + j)) % numDesc ≠ cur := by
      have := slot_ne (N := numDesc) (i := cur) (j := 0) (k := 1 + j) (by omega) (by simp only [numDesc] at *; omega)
      rw [Nat.add_zero, Nat.mod_eq_of_lt hcore.cur_lt] at this
      exact this.symm
    rw [hnext]
    refine (h.held (1 + j) f (by rw [← Nat.add_assoc]; exact hf)).congr ?_ fun _ _ _ => rfl
    exact Function.update_of_ne hjc _ _

/-- Writing `RDT` changes nothing else. -/
theorem Ring.writeRdt (hcur : cur < numDesc) (h : Ring ((cur + 1) % numDesc) s g) :
    Ring ((cur + 1) % numDesc) (exec (.writeRdt cur) s).2 (Ledger.onOp (.writeRdt cur) g) := by
  obtain ⟨short, hcore⟩ := h.core
  refine ⟨⟨0, hcore.writeRdt hcur⟩, h.count, h.addr, fun j f hf => ?_⟩
  exact (h.held j f hf).congr rfl fun _ _ _ => rfl

theorem Ring.device (h : Ring cur s g) {e : Dev} (he : device e s = some s') : Ring cur s' (Ledger.onEnv e g) := by
  cases e with
  | fill bytes last => exact h.fill he
  | send =>
    refine h.congr ?_
    simp only [E1000.device] at he
    split_ifs at he
    cases he
    exact ⟨rfl, rfl, rfl, rfl⟩

/-! ### What stays while a call runs -/

/-- The ring and the record, the driver having given back `k` descriptors. -/
def RingAt (cur k : ℕ) (x : Mem × Ledger) : Prop := Ring cur x.1 x.2 ∧ x.2.taken = k

/-- The same, and the driver's descriptor holds the fill `f`. -/
def FillAt (cur k : ℕ) (f : Fill) (x : Mem × Ledger) : Prop := RingAt cur k x ∧ x.2.fills[k]? = some f

variable {k : ℕ} {x x' : Mem × Ledger}

theorem recorded_env {e : Dev} (he : recorded.env e x = some x') :
    ∃ s', device e x.1 = some s' ∧ x' = (s', Ledger.onEnv e x.2) := by
  obtain ⟨s', hs', rfl⟩ := Option.map_eq_some_iff.mp he
  exact ⟨s', hs', rfl⟩

theorem onEnv_fills (e : Dev) (g : Ledger) : g.fills <+: (Ledger.onEnv e g).fills := by
  cases e with
  | fill bytes last => exact List.prefix_append _ _
  | send => exact List.prefix_rfl

theorem onEnv_taken (e : Dev) (g : Ledger) : (Ledger.onEnv e g).taken = g.taken := by
  cases e <;> rfl

theorem onOp_fills (o : Op) (g : Ledger) : (Ledger.onOp o g).fills = g.fills := by
  cases o <;> rfl

/-- A transmit gives back no receive descriptor. -/
theorem onOp_touchesTx {o : Op} (h : TouchesTx o) (g : Ledger) : Ledger.onOp o g = g := by
  cases o <;> first | rfl | cases h

theorem getElem?_mono {α : Type} {l l' : List α} {a : α} (h : l <+: l') (hi : l[i]? = some a) : l'[i]? = some a := by
  obtain ⟨t, rfl⟩ := h
  rw [List.getElem?_append_left (List.getElem?_eq_some_iff.1 hi).1, hi]

theorem RingAt.stable (cur k : ℕ) : recorded.Stable (RingAt cur k) := by
  rintro e x x' ⟨h, hk⟩ he
  obtain ⟨s', hs', rfl⟩ := recorded_env he
  exact ⟨h.device hs', (onEnv_taken e x.2).trans hk⟩

theorem FillAt.stable (cur k : ℕ) (f : Fill) : recorded.Stable (FillAt cur k f) := by
  rintro e x x' ⟨h, hf⟩ he
  refine ⟨RingAt.stable cur k e x x' h he, ?_⟩
  obtain ⟨s', -, rfl⟩ := recorded_env he
  exact getElem?_mono (onEnv_fills e x.2) hf

theorem FillAt.held (h : FillAt cur k f x) : HoldsFill x.1 cur f := by
  obtain ⟨⟨hring, hk⟩, hf⟩ := h
  exact hring.held_cur (hk ▸ hf)

theorem HoldsFill.dd (h : HoldsFill s i f) : (s.rxDescs i).dd := by
  rw [RxDesc.dd, h.status]
  cases f.2 <;> decide

theorem HoldsFill.eop_iff (h : HoldsFill s i f) : (s.rxDescs i).status &&& statEOP = 0 ↔ f.2 = false := by
  rw [h.status]
  cases f.2 <;> decide

/-- The driver has given back the descriptor of fill `k`. -/
def Gave (cur k : ℕ) (f : Fill) (x : Mem × Ledger) : Prop := RingAt ((cur + 1) % numDesc) (k + 1) x ∧ x.2.fills[k]? = some f

theorem Gave.stable (cur k : ℕ) (f : Fill) : recorded.Stable (Gave cur k f) := by
  rintro e x x' ⟨h, hf⟩ he
  refine ⟨RingAt.stable _ _ e x x' h he, ?_⟩
  obtain ⟨s', -, rfl⟩ := recorded_env he
  exact getElem?_mono (onEnv_fills e x.2) hf

theorem FillAt.gave (h : FillAt cur k f x) : Gave cur k f (recorded.exec (.writeRxStatus cur 0) x).2 := by
  have hdd := h.held.dd
  obtain ⟨⟨hring, hk⟩, hf⟩ := h
  exact ⟨⟨hring.consume hdd, congrArg (· + 1) hk⟩, hf⟩

theorem Gave.writeRdt (hcur : cur < numDesc) (h : Gave cur k f x) : Gave cur k f (recorded.exec (.writeRdt cur) x).2 :=
  ⟨⟨h.1.1.writeRdt hcur, h.1.2⟩, h.2⟩

/-! ### A call of `e1000_receive` -/

variable {n : ℕ} {ctx : Ctx}

theorem Single.mono {fills fills' : List Fill} {bytes : List UInt8} (h : Single fills k bytes) (hpre : fills <+: fills') :
    Single fills' k bytes := by
  obtain ⟨hk, hbefore⟩ := h
  refine ⟨getElem?_mono hpre hk, hbefore.imp_right ?_⟩
  rintro ⟨before, hb⟩
  exact ⟨before, getElem?_mono hpre hb⟩

/-- A fill with the EOP bit that is not the last of a spread packet is a packet of its own. -/
theorem single_of_not_tail {fills : List Fill} (hf : fills[k]? = some f) (hlast : f.2 = true)
    (htail : isTail fills k = false) : Single fills k f.1 := by
  obtain ⟨bytes, last⟩ := f
  obtain rfl : last = true := hlast
  refine ⟨hf, ?_⟩
  cases k with
  | zero => exact .inl rfl
  | succ k =>
    right
    have hlt : k < fills.length := by
      have := (List.getElem?_eq_some_iff.1 hf).1
      omega
    refine ⟨fills[k].1, ?_⟩
    simp only [isTail, hf, List.getElem?_eq_getElem hlt, Option.map_some] at htail
    rw [Nat.add_sub_cancel, List.getElem?_eq_getElem hlt, Option.some.injEq]
    refine Prod.ext rfl ?_
    simpa using htail

/-- The driver's descriptor holds `f`, and if it is going to be returned, it is a packet of its own. -/
def Ready (n cur k : ℕ) (f : Fill) (x : Mem × Ledger) : Prop :=
  FillAt cur k f x ∧ (f.2 = true → f.1.length ≤ n → Single x.2.fills k f.1)

theorem Ready.stable (n cur k : ℕ) (f : Fill) : recorded.Stable (Ready n cur k f) := by
  rintro e x x' ⟨h, hsingle⟩ he
  refine ⟨FillAt.stable cur k f e x x' h he, fun hlast hle => ?_⟩
  obtain ⟨s', -, rfl⟩ := recorded_env he
  exact (hsingle hlast hle).mono (onEnv_fills e x.2)

/-- What a receive does, `k` descriptors having been given back before it: it finds nothing; or it gives back the
next descriptor, and fails, or returns what is in it, a packet of its own. -/
def Took (ctx : Ctx) (k : ℕ) (r : Ctx × Ret) (x : Mem × Ledger) : Prop :=
  (r = (ctx, .fail) ∧ RingAt ctx.rxCurrent k x) ∨
    (r.1 = ctx.nextRx ∧ RingAt ctx.nextRx.rxCurrent (k + 1) x ∧
      (r.2 = .fail ∨ ∃ bytes, Single x.2.fills k bytes ∧ r.2 = ⟨0, some bytes.length, bytes⟩))

variable {G : Op → Mem × Ledger → Prop} (hG : ∀ o x, G o x) {A : Op → Mem × Ledger → Prop}

include hG

/-- Dropping the driver's descriptor. -/
theorem drop_took (h : FillAt ctx.rxCurrent k f x) :
    (writeRxStatus ctx.rxCurrent 0 >>= fun _ => (return (ctx.nextRx, .fail) : Drv (Ctx × Ret))).Safe recorded.toMachine A G
      (Took ctx k) x := by
  refine Safe.op_of_stable (FillAt.stable _ _ f) h fun x₁ h₁ => ⟨hG _ _, fun _ => ?_⟩
  refine Safe.ret_of_stable (Gave.stable _ _ f) h₁.gave fun x₂ h₂ => .inr ⟨rfl, h₂.1, .inl rfl⟩

/-- The bytes that are copied are those of the fill. -/
theorem readBytes_fill (h : Ready n cur k f x) :
    (readBytes (cur * bufferSize) f.1.length).Safe recorded.toMachine A G
      (fun bs x' => bs = f.1 ∧ Ready n cur k f x') x := by
  have hB := Ready.stable n cur k f
  refine (Safe.readEach (f := fun a => f.1.getD (a - cur * bufferSize) 0) hB (fun i hi x hx => ?_) h).mono ?_
  · refine Safe.op_of_stable hB hx fun x' hx' => ⟨hG _ _, fun _ => ?_⟩
    refine Safe.ret_of_stable hB hx' fun x'' hx'' => ⟨?_, hx''⟩
    have hbytes := hx'.1.held.bytes
    show x'.1.rxBuffers (cur * bufferSize + i) = _
    rw [Nat.add_sub_cancel_left, List.getD_eq_getElem _ _ hi,
      ← getElem_load x'.1.rxBuffers (cur * bufferSize) (n := f.1.length) (by simpa using hi)]
    simp only [hbytes]
  · rintro bs x' ⟨rfl, hx'⟩
    refine ⟨List.ext_getElem (by simp) fun i h₁ h₂ => ?_, hx'⟩
    rw [getElem_load, Nat.add_sub_cancel_left, List.getD_eq_getElem _ _ h₂]

/-- Returning, or refusing, a descriptor with the EOP bit. -/
theorem receivePacket_took (hlast : f.2 = true) (h : Ready n ctx.rxCurrent k f x) :
    (receivePacket n ctx f.1.length).Safe recorded.toMachine A G (Took ctx k) x := by
  unfold receivePacket
  by_cases hlen : f.1.length > n
  · rw [if_pos hlen]
    exact drop_took hG h.1
  rw [if_neg hlen]
  refine Safe.bind ((readBytes_fill hG h).mono ?_)
  rintro bs x₁ ⟨rfl, h₁⟩
  refine Safe.op_of_stable (Ready.stable n _ k f) h₁ fun x₂ h₂ => ⟨hG _ _, fun _ => ?_⟩
  obtain ⟨short, hcore⟩ := h₂.1.1.1.core
  have hgave : recorded.Stable fun x => Gave ctx.rxCurrent k f x ∧ Single x.2.fills k f.1 :=
    (Gave.stable _ _ f).and fun e x x' hx he => by
      obtain ⟨s', -, rfl⟩ := recorded_env he
      exact hx.mono (onEnv_fills e x.2)
  refine Safe.op_of_stable hgave ⟨h₂.1.gave, h₂.2 hlast (by omega)⟩ fun x₃ h₃ => ⟨hG _ _, fun _ => ?_⟩
  refine Safe.ret_of_stable hgave ⟨h₃.1.writeRdt hcore.cur_lt, h₃.2⟩ fun x₄ h₄ => ?_
  exact .inr ⟨rfl, h₄.1.1, .inr ⟨f.1, h₄.2, rfl⟩⟩

/-- **A call of `e1000_receive`.** -/
theorem receive_took (n : ℕ) (h : RingAt ctx.rxCurrent k x) :
    (e1000Receive n ctx).Safe recorded.toMachine (NoTail (.receive n)) G (Took ctx k) x := by
  have hB := RingAt.stable ctx.rxCurrent k
  unfold e1000Receive
  split_ifs with hi
  · exact Safe.ret_of_stable hB h fun _ h => .inl ⟨rfl, h⟩
  refine Safe.op_of_stable hB h fun x₁ h₁ => ⟨hG _ _, fun hA => ?_⟩
  show Safe _ _ _ _ (if (x₁.1.rxDescs ctx.rxCurrent).status &&& statDD = 0 then _ else _) _
  split_ifs with hdd
  · exact Safe.ret_of_stable hB h₁ fun _ h => .inl ⟨rfl, h⟩
  -- the driver's descriptor is filled
  obtain ⟨f, hf⟩ := h₁.1.exists_fill hdd
  have hready : Ready n ctx.rxCurrent k f x₁ := by
    rw [h₁.2] at hf
    refine ⟨⟨h₁, hf⟩, fun hlast hle => single_of_not_tail hf hlast ?_⟩
    by_contra htail
    have htail' : isTail x₁.2.fills x₁.2.taken = true := by
      rw [h₁.2]
      simpa using htail
    have hlt : n < f.1.length := hA htail' f (by rw [h₁.2]; exact hf)
    omega
  refine Safe.op_of_stable (Ready.stable n _ k f) hready fun x₂ h₂ => ⟨hG _ _, fun _ => ?_⟩
  show Safe _ _ _ _ (if (x₂.1.rxDescs ctx.rxCurrent).status &&& statEOP = 0 then _ else _) _
  by_cases heop : (x₂.1.rxDescs ctx.rxCurrent).status &&& statEOP = 0
  · rw [if_pos heop]
    exact drop_took hG h₂.1
  rw [if_neg heop]
  have hlast : f.2 = true := by simpa using h₂.1.held.eop_iff.not.1 heop
  refine Safe.op_of_stable (Ready.stable n _ k f) h₂ fun x₃ h₃ => ⟨hG _ _, fun _ => ?_⟩
  show Safe _ _ _ _ (receivePacket n ctx (x₃.1.rxDescs ctx.rxCurrent).length) x₃
  rw [h₃.1.held.length]
  exact receivePacket_took hG hlast h₃

omit hG

/-! ### Runs -/

/-- The invariant between calls. -/
def PacketInv (log : List (Done Call Ctx Ret)) (ctx : Ctx) (x : Mem × Ledger) : Prop :=
  RingAt ctx.rxCurrent (consumed log) x ∧ Whole x.2.fills log

theorem Whole.mono {fills fills' : List Fill} {log : List (Done Call Ctx Ret)} (h : Whole fills log)
    (hpre : fills <+: fills') : Whole fills' log := by
  intro i e n hget hcall hcode
  obtain ⟨bytes, hsingle, hret⟩ := h i e n hget hcall hcode
  exact ⟨bytes, hsingle.mono hpre, hret⟩

theorem PacketInv.stable (log : List (Done Call Ctx Ret)) (ctx : Ctx) : recorded.Stable (PacketInv log ctx) := by
  rintro e x x' ⟨h, hwhole⟩ he
  refine ⟨RingAt.stable _ _ e x x' h he, ?_⟩
  obtain ⟨s', -, rfl⟩ := recorded_env he
  exact hwhole.mono (onEnv_fills e x.2)

/-- One more call. -/
theorem Whole.append {fills : List Fill} {log : List (Done Call Ctx Ret)} {e : Done Call Ctx Ret} (h : Whole fills log)
    (he : ∀ n, e.call = .receive n → e.result.code = 0 → ∃ bytes, Single fills (consumed log) bytes ∧
      e.result.buffer = bytes ∧ e.result.receivedLength = some bytes.length) : Whole fills (log ++ [e]) := by
  intro i e' n hget hcall hcode
  rcases Nat.lt_or_ge i log.length with hlt | hge
  · rw [List.getElem?_append_left hlt] at hget
    rw [List.take_append_of_le_length hlt.le]
    exact h i e' n hget hcall hcode
  · obtain rfl : i = log.length := by
      have := (List.getElem?_eq_some_iff.1 hget).1
      rw [List.length_append, List.length_singleton] at this
      omega
    rw [List.getElem?_append_right le_rfl, Nat.sub_self] at hget
    obtain rfl : e = e' := by simpa using hget
    rw [List.take_left]
    exact he n hcall hcode

theorem consumed_append (log : List (Done Call Ctx Ret)) (e : Done Call Ctx Ret) :
    consumed (log ++ [e]) = consumed log + if e.before.rxCurrent = e.after.rxCurrent then 0 else 1 := by
  rw [consumed, List.countP_append]
  by_cases h : e.before.rxCurrent = e.after.rxCurrent <;> simp [consumed, h]

/-- The driver moves to another descriptor. -/
theorem nextRx_ne (ctx : Ctx) : ctx.rxCurrent ≠ ctx.nextRx.rxCurrent := by
  simp only [Ctx.nextRx, numDesc]
  omega

theorem Took.inv {log : List (Done Call Ctx Ret)} {r : Ctx × Ret} (h : Took ctx (consumed log) r x)
    (hwhole : Whole x.2.fills log) : PacketInv (log ++ [⟨.receive n, ctx, r.2, r.1⟩]) r.1 x := by
  rcases h with ⟨rfl, hring⟩ | ⟨hr, hring, hret⟩
  · refine ⟨by rw [consumed_append, if_pos rfl]; exact hring, hwhole.append fun _ _ hcode => ?_⟩
    cases hcode
  · obtain ⟨ctx', ret⟩ := r
    obtain rfl : ctx' = ctx.nextRx := hr
    refine ⟨by rw [consumed_append, if_neg (nextRx_ne ctx)]; exact hring, hwhole.append fun _ _ hcode => ?_⟩
    rcases hret with hfail | ⟨bytes, hsingle, hret⟩
    · obtain rfl : ret = .fail := hfail
      cases hcode
    · obtain rfl : ret = ⟨0, some bytes.length, bytes⟩ := hret
      exact ⟨bytes, hsingle, rfl, rfl⟩

theorem packet_call (l : List (Done Call Ctx Ret)) (k : Call) (p : Ctx) (x : Mem × Ledger) (h : PacketInv l p x) :
    (recorded.body k p).Safe recorded.toMachine (NoTail k) (fun _ _ => True)
      (fun r x => PacketInv (l ++ [⟨k, p, r.2, r.1⟩]) r.1 x) x := by
  obtain ⟨hring, hwhole⟩ := h
  -- what the calls so far have returned stays right, since the record only grows
  have hmono : recorded.Stable fun x' => Whole x'.2.fills l := fun e x x' hx he => by
    obtain ⟨s', -, rfl⟩ := recorded_env he
    exact hx.mono (onEnv_fills e x.2)
  have hkept : ∀ o (x : Mem × Ledger), Whole x.2.fills l → Whole (recorded.exec o x).2.2.fills l := fun o x hx => by
    rw [show (recorded.exec o x).2.2.fills = x.2.fills from onOp_fills o x.2]
    exact hx
  cases k with
  | receive n =>
    refine ((receive_took (fun _ _ => trivial) n hring).and_kept hmono hkept hwhole).mono ?_
    rintro r x' ⟨htook, hwhole'⟩
    exact htook.inv hwhole'
  | transmit packet =>
    refine ((Safe.of_all (transmit_all packet p) (RingAt.stable _ _) ?_ hring).and_kept hmono hkept hwhole).mono ?_
    · rintro o x ho ⟨hr, hk⟩
      have hsame : (recorded.exec o x).2 = ((exec o x.1).2, x.2) := Prod.ext rfl (onOp_touchesTx ho x.2)
      rw [hsame]
      exact ⟨trivial, hr.congr (exec_touchesTx ho x.1), hk⟩
    · rintro r x' ⟨⟨⟨hcur, -⟩, hring'⟩, hwhole'⟩
      refine ⟨?_, hwhole'.append fun _ hn => by cases hn⟩
      rw [consumed_append, if_pos hcur.symm, hcur]
      exact hring'

theorem packetInv_init : PacketInv [] initCtx (initMem, ⟨[], 0⟩) :=
  ⟨⟨⟨⟨0, rxCore_init⟩, rfl, fun _ _ => rfl, fun _ _ hf => by cases hf⟩, rfl⟩, fun _ _ _ hget => by cases hget⟩

/-- **Whole packets only.** Take any run of the driver and the device, the device spreading packets over
descriptors as it likes, and the record of that run. If no receive reads the status of the last descriptor of a
spread packet with room for what is in that descriptor, then every receive that has succeeded has returned one
packet that the device had stored in a single descriptor, with all its bytes. -/
theorem receive_whole (es : List (Event Call Dev)) (d : Cfg Op Ans Mem Call Ctx Ret) (hrun : nic.run start es = some d) :
    ∃ c, recorded.run recordedStart es = some c ∧ c.erase = d ∧
      ((∀ es₁ e c₁, es₁ ++ [e] <+: es → recorded.run recordedStart es₁ = some c₁ → System.Meets NoTail c₁ e) →
        Whole c.shared.2.fills d.log) := by
  obtain ⟨c, hc, rfl⟩ := nic.exists_run_of_run Ledger.onOp Ledger.onEnv (c := recordedStart) hrun
  refine ⟨c, hc, rfl, fun hmeets => ?_⟩
  have hreach : recorded.ReachUnder NoTail recordedStart c := System.reachUnder_of_meets hc hmeets
  refine System.reach_always (S := recorded) (J := fun l x => Whole x.2.fills l) PacketInv.stable packet_call
    (fun _ _ _ h => h.2) ?_ ?_ (.start packetInv_init) packetInv_init.2 hreach
  · intro l e x x' h he
    obtain ⟨s', -, rfl⟩ := recorded_env he
    exact h.mono (onEnv_fills e x.2)
  · intro l o x h
    show Whole (Ledger.onOp o x.2).fills l
    rw [onOp_fills]
    exact h

/-- A packet is spread over two descriptors and another one fits one. With room for one byte, the driver drops both
descriptors of the first packet, and receives the second. -/
def droppedPacket : List (Event Call Dev) :=
  [.env (.fill [1] false), .env (.fill [2, 3] true), .env (.fill [4] true), .call (.receive 1)] ++ List.replicate 4 .tick ++
    [.call (.receive 1)] ++ List.replicate 5 .tick ++ [.call (.receive 1)] ++ List.replicate 7 .tick

theorem receive_whole_droppedPacket :
    ∃ d, nic.run start droppedPacket = some d ∧ (d.log.map fun e => e.result.code) = [-1, -1, 0] ∧
      ∃ fills, Whole fills d.log := by
  obtain ⟨c, hc⟩ : ∃ c, recorded.runUnder NoTail recordedStart droppedPacket = some c :=
    Option.isSome_iff_exists.mp (by decide)
  obtain ⟨hrec, hmeets⟩ := System.meets_of_runUnder recorded NoTail hc
  have hrun : nic.run start droppedPacket = some c.erase := by
    rw [show start = recordedStart.erase from rfl, ← nic.run_erase Ledger.onOp Ledger.onEnv]
    exact congrArg (Option.map Cfg.erase) hrec
  have hcodes : (nic.run start droppedPacket).map (fun d => d.log.map fun e => e.result.code) = some [-1, -1, 0] := by
    decide
  rw [hrun, Option.map_some, Option.some.injEq] at hcodes
  obtain ⟨c', -, -, hwhole⟩ := receive_whole droppedPacket c.erase hrun
  exact ⟨c.erase, hrun, hcodes, c'.shared.2.fills, hwhole hmeets⟩

/-- A packet is spread over two descriptors, and the driver is called twice. -/
def spreadPacket : List (Event Call Dev) :=
  [.env (.fill [1] false), .env (.fill [2] true), .call (.receive 64)] ++ List.replicate 4 .tick ++
    [.call (.receive 64)] ++ List.replicate 7 .tick

/-- The second call returns the second descriptor as if it were a packet. -/
theorem receive_returns_tail :
    (nic.run start spreadPacket).map (fun d => d.log.map fun e => (e.result.code, e.result.buffer)) =
      some [(-1, []), (0, [2])] := by
  decide

end Yasouos.Drivers.E1000
