import Yasouos.Drivers.E1000

/-!
# Receiving on the E1000

What `e1000_receive` does to the receive ring over whole runs, against the receiver as
specified, which fills descriptors whenever it likes, also between two accesses of one
call.

One descriptor of the eight is never free for the device: it stops when `RDH` is `RDT`.
`receive_balanced` says that between calls the other seven are free for the device or
filled and unread, and that `RDT` is the descriptor before the driver's, as long as every
call that finds a filled descriptor accepts it: it has the EOP bit, and its length fits
the caller's buffer. A call that consumes a descriptor and rejects it does not write
`RDT`, and the device is one descriptor short; `receive_loses_capacity` is such a run.

The invariant, `RxCore`, has that shortage as a number. Inside a call that accepts a
packet it is one for a while.
-/

namespace Yasouos.Drivers.E1000

open Theory Prog

/-! ### What a run should do -/

/-- How many descriptors the device can fill before it stops. -/
def Mem.freeRx (s : Mem) : ℕ := ringDist numDesc s.rdh s.rdt

/-- How many descriptors are filled and unread. -/
def Mem.filledRx (s : Mem) : ℕ := ((List.range numDesc).filter fun i => decide (s.rxDescs i).dd).length

/-- `RDT` is the descriptor before the driver's, and seven descriptors are free for the
device or filled and unread. -/
def RxBalanced (c : Cfg Op Ans Mem Call Ctx Ret) : Prop :=
  c.shared.rdt = (c.priv.rxCurrent + (numDesc - 1)) % numDesc ∧ c.shared.freeRx + c.shared.filledRx = numDesc - 1

/-- A receive that finds a filled descriptor finds a whole packet that fits its buffer. -/
def Acceptable : Call → Op → Mem → Prop
  | .receive n, .readRxStatus i, s => (s.rxDescs i).dd → (s.rxDescs i).eop ∧ (s.rxDescs i).length ≤ n
  | _, _, _ => True

instance : (k : Call) → (o : Op) → (s : Mem) → Decidable (Acceptable k o s)
  | .receive n, .readRxStatus i, s =>
    inferInstanceAs (Decidable ((s.rxDescs i).dd → (s.rxDescs i).eop ∧ (s.rxDescs i).length ≤ n))
  | .transmit _, _, _ => isTrue trivial
  | .receive _, .readRxLength _, _ | .receive _, .readRx _, _ | .receive _, .writeRxStatus _ _, _
  | .receive _, .writeRdt _, _ | .receive _, .readTxStatus _, _ | .receive _, .writeTx _ _, _
  | .receive _, .writeTxLength _ _, _ | .receive _, .writeTxCmd _ _, _ | .receive _, .writeTxStatus _ _, _
  | .receive _, .writeTdt _, _ => isTrue trivial

/-! ### The invariant -/

/-- **The receive ring**, when the driver is at descriptor `cur` and the device is `short`
descriptors short. -/
structure RxCore (cur short : ℕ) (s : Mem) : Prop where
  cur_lt : cur < numDesc
  rdh_lt : s.rdh < numDesc
  rdt_lt : s.rdt < numDesc
  /-- From the driver to `RDH` the descriptors are filled, from there to `RDT` free. -/
  count : ringDist numDesc cur s.rdh + ringDist numDesc s.rdh s.rdt + short = numDesc - 1
  dd : ∀ i < numDesc, (s.rxDescs i).dd ↔ ringDist numDesc cur i < ringDist numDesc cur s.rdh

variable {cur short : ℕ} {s s' : Mem} {ctx : Ctx}

theorem RxCore.congr (h : RxCore cur short s) (hs : SameRx s s') : RxCore cur short s' := by
  obtain ⟨h₁, -, h₃, h₄⟩ := hs
  exact ⟨h.cur_lt, h₃ ▸ h.rdh_lt, h₄ ▸ h.rdt_lt, by rw [h₃, h₄]; exact h.count, by rw [h₁, h₃]; exact h.dd⟩

/-- The device fills a descriptor that was free. -/
theorem RxCore.fill (h : RxCore cur short s) {d : RxDesc} (hne : s.rdh ≠ s.rdt) (hd : d.dd) (hrdt : s'.rdt = s.rdt)
    (hrdh : s'.rdh = (s.rdh + 1) % numDesc) (hdesc : s'.rxDescs = Function.update s.rxDescs s.rdh d) :
    RxCore cur short s' := by
  have hfree := ringDist_succ_left h.rdh_lt h.rdt_lt hne
  have hcount := h.count
  have hfilled := ringDist_succ_right h.cur_lt h.rdh_lt (by simp only [numDesc] at *; omega)
  refine ⟨h.cur_lt, hrdh ▸ Nat.mod_lt _ (by decide), hrdt ▸ h.rdt_lt, ?_, fun i hi => ?_⟩
  · rw [hrdt, hrdh]
    omega
  · rw [hdesc, hrdh, hfilled]
    by_cases hir : i = s.rdh
    · subst hir
      rw [Function.update_self]
      exact iff_of_true hd (Nat.lt_succ_self _)
    · have hinj := mt (ringDist_inj h.cur_lt hi h.rdh_lt) hir
      rw [Function.update_of_ne hir, h.dd i hi]
      omega

/-- A filled descriptor is not the device's to write. -/
theorem RxCore.device (h : RxCore cur short s) {e : Dev} (he : device e s = some s') :
    RxCore cur short s' ∧ ((s.rxDescs cur).dd → s'.rxDescs cur = s.rxDescs cur) := by
  rcases device_cases he with ⟨hne, -, hrdt, hrdh, d, hd, hdesc⟩ | ⟨-, hsame, -⟩
  · refine ⟨h.fill hne hd hrdt hrdh hdesc, fun hdd => ?_⟩
    have hlt := (h.dd cur h.cur_lt).mp hdd
    rw [hdesc, Function.update_of_ne]
    rintro heq
    rw [← heq, ringDist_self h.cur_lt] at hlt
    exact Nat.lt_irrefl _ hlt
  · exact ⟨h.congr hsame, fun _ => by rw [hsame.1]⟩

theorem RxCore.stable (cur short : ℕ) : nic.Stable (RxCore cur short) := fun _ _ _ h he => (h.device he).1

/-- The ring, with the driver's descriptor filled as `P` says. -/
def Filled (cur : ℕ) (P : RxDesc → Prop) (s : Mem) : Prop :=
  RxCore cur 0 s ∧ (s.rxDescs cur).dd ∧ P (s.rxDescs cur)

theorem Filled.stable (cur : ℕ) (P : RxDesc → Prop) : nic.Stable (Filled cur P) := by
  rintro e s s' ⟨h, hdd, hP⟩ he
  obtain ⟨h', hdesc⟩ := h.device he
  exact ⟨h', by rw [hdesc hdd]; exact ⟨hdd, hP⟩⟩

/-! ### The driver's moves -/

/-- Clearing the driver's descriptor consumes it: the device is one short. -/
theorem RxCore.consume (h : RxCore cur short s) (hdd : (s.rxDescs cur).dd) :
    RxCore ((cur + 1) % numDesc) (short + 1) (exec (.writeRxStatus cur 0) s).2 := by
  have hlt := (h.dd cur h.cur_lt).mp hdd
  have hne : cur ≠ s.rdh := by
    rintro heq
    rw [← heq] at hlt
    exact Nat.lt_irrefl _ hlt
  have hnext : (cur + 1) % numDesc < numDesc := Nat.mod_lt _ (by decide)
  have hdist := ringDist_succ_left h.cur_lt h.rdh_lt hne
  have hcount := h.count
  refine ⟨hnext, h.rdh_lt, h.rdt_lt, ?_, fun i hi => ?_⟩
  · show ringDist numDesc ((cur + 1) % numDesc) s.rdh + ringDist numDesc s.rdh s.rdt + (short + 1) = _
    omega
  · show (Function.update s.rxDescs cur { s.rxDescs cur with status := 0 } i).dd ↔
      ringDist numDesc ((cur + 1) % numDesc) i < ringDist numDesc ((cur + 1) % numDesc) s.rdh
    by_cases hic : i = cur
    · subst hic
      rw [Function.update_self, ringDist_succ_self hi]
      refine iff_of_false (show ¬ ((0 : UInt8) &&& 1 ≠ 0) by decide) ?_
      have := ringDist_lt ((i + 1) % numDesc) h.rdh_lt
      omega
    · have := ringDist_succ_left h.cur_lt hi (Ne.symm hic)
      rw [Function.update_of_ne hic, h.dd i hi]
      omega

/-- Writing `RDT` gives back every descriptor that was consumed. -/
theorem RxCore.writeRdt (hcur : cur < numDesc) (h : RxCore ((cur + 1) % numDesc) short s) :
    RxCore ((cur + 1) % numDesc) 0 (exec (.writeRdt cur) s).2 := by
  refine ⟨h.cur_lt, h.rdh_lt, hcur, ?_, h.dd⟩
  show ringDist numDesc ((cur + 1) % numDesc) s.rdh + ringDist numDesc s.rdh cur + 0 = _
  have hrdh := h.rdh_lt
  rw [ringDist_eq h.cur_lt hrdh, ringDist_eq hrdh hcur, succ_mod_eq hcur]
  simp only [numDesc] at *
  split_ifs <;> omega

/-! ### A call of `e1000_receive` -/

variable {G : Op → Mem → Prop} (hG : ∀ o s, G o s)

include hG

/-- Accepting a packet. -/
theorem receivePacket_safe (n len : ℕ) (hlen : len ≤ n) (h : Filled ctx.rxCurrent (fun d => d.length = len) s) :
    (receivePacket n ctx len).Safe nic.toMachine (Acceptable (.receive n)) G (fun r s' => RxCore r.1.rxCurrent 0 s') s := by
  unfold receivePacket
  rw [if_neg (Nat.not_lt.mpr hlen)]
  have hstable := Filled.stable ctx.rxCurrent fun d => d.length = len
  refine Safe.bind ((Safe.of_all (readBytes_all _ _) hstable ?_ h).mono ?_)
  · rintro o s ⟨i, rfl⟩ hs
    exact ⟨hG _ _, hs⟩
  · rintro data s₁ ⟨-, h₁⟩
    refine Safe.op_of_stable hstable h₁ fun s₂ h₂ => ⟨hG _ _, fun _ => ?_⟩
    refine Safe.op_of_stable (RxCore.stable _ _) (h₂.1.consume h₂.2.1) fun s₃ h₃ => ⟨hG _ _, fun _ => ?_⟩
    exact Safe.ret_of_stable (RxCore.stable _ _) (h₃.writeRdt h.1.cur_lt) fun _ h => h

/-- **A call of `e1000_receive`** that finds nothing, or a packet it accepts, leaves the
ring as it should be. -/
theorem receive_safe (n : ℕ) (h : RxCore ctx.rxCurrent 0 s) :
    (e1000Receive n ctx).Safe nic.toMachine (Acceptable (.receive n)) G (fun r s' => RxCore r.1.rxCurrent 0 s') s := by
  unfold e1000Receive
  split_ifs with hi
  · exact Safe.ret_of_stable (RxCore.stable _ _) h fun _ h => h
  refine Safe.op_of_stable (RxCore.stable _ _) h fun s₁ h₁ => ⟨hG _ _, fun hA => ?_⟩
  show Safe _ _ _ _ (if (s₁.rxDescs ctx.rxCurrent).status &&& statDD = 0 then _ else _) _
  split_ifs with hdd
  · exact Safe.ret_of_stable (RxCore.stable _ _) h₁ fun _ h => h
  -- the driver's descriptor is filled, and so holds a packet that this call accepts
  have hstable := Filled.stable ctx.rxCurrent fun d => d.eop ∧ d.length ≤ n
  refine Safe.op_of_stable hstable ⟨h₁, hdd, hA hdd⟩ fun s₂ h₂ => ⟨hG _ _, fun _ => ?_⟩
  show Safe _ _ _ _ (if (s₂.rxDescs ctx.rxCurrent).status &&& statEOP = 0 then _ else _) _
  rw [if_neg h₂.2.2.1]
  refine Safe.op_of_stable hstable h₂ fun s₃ h₃ => ⟨hG _ _, fun _ => ?_⟩
  exact receivePacket_safe hG n _ h₃.2.2.2 ⟨h₃.1, h₃.2.1, rfl⟩

omit hG

/-! ### Runs -/

/-- Every call of the driver keeps the invariant. -/
theorem rx_call (_ : List (Done Call Ctx Ret)) (k : Call) (p : Ctx) (s : Mem) (h : RxCore p.rxCurrent 0 s) :
    (nic.body k p).Safe nic.toMachine (Acceptable k) (fun _ _ => True) (fun r s => RxCore r.1.rxCurrent 0 s) s := by
  cases k with
  | receive n => exact receive_safe (fun _ _ => trivial) n h
  | transmit packet =>
    refine (Safe.of_all (transmit_all packet p) (RxCore.stable _ _) ?_ h).mono ?_
    · intro o s ho hs
      exact ⟨trivial, hs.congr (exec_touchesTx ho s)⟩
    · rintro r s' ⟨⟨hcur, -⟩, hs'⟩
      rw [hcur]
      exact hs'

theorem rxCore_init : RxCore initCtx.rxCurrent 0 initMem := by
  refine ⟨by decide, by decide, by decide, by decide, fun i _ => ?_⟩
  exact iff_of_false (show ¬ ((0 : UInt8) &&& 1 ≠ 0) by decide) (Nat.not_lt_zero _)

/-- With none short, the filled and the free descriptors are seven, and `RDT` is the
descriptor before the driver's. -/
theorem RxCore.balanced (h : RxCore cur 0 s) :
    s.rdt = (cur + (numDesc - 1)) % numDesc ∧ s.freeRx + s.filledRx = numDesc - 1 := by
  have hcur := h.cur_lt
  have hrdh := h.rdh_lt
  have hrdt := h.rdt_lt
  have hcount := h.count
  have hfilled : s.filledRx = ringDist numDesc cur s.rdh := by
    have hfilter : ∀ a < numDesc, ∀ d < numDesc,
        ((List.range numDesc).filter fun i => decide (ringDist numDesc a i < d)).length = d := by decide
    rw [Mem.filledRx, ← hfilter cur hcur _ (ringDist_lt cur hrdh)]
    congr 1
    refine List.filter_congr fun i hi => ?_
    simp only [h.dd i (List.mem_range.mp hi)]
  constructor
  · rw [ringDist_eq hcur hrdh, ringDist_eq hrdh hrdt] at hcount
    simp only [numDesc] at *
    split_ifs at hcount <;> omega
  · rw [Mem.freeRx, hfilled]
    omega

/-- **No capacity is lost as long as packets are accepted.** In every run in which a
receive that finds a filled descriptor finds a whole packet that fits its buffer: between
calls `RDT` is the descriptor before the driver's, and seven descriptors are free for the
device or filled and unread. -/
theorem receive_balanced (c : Cfg Op Ans Mem Call Ctx Ret) (h : nic.ReachUnder Acceptable start c) (hc : c.Idle) :
    RxBalanced c := by
  have hgood : nic.Good Acceptable (fun _ _ _ => True) (fun _ p s => RxCore p.rxCurrent 0 s) c :=
    System.reach_safe (fun _ p => RxCore.stable p.rxCurrent 0) rx_call (.start rxCore_init) h
  exact (hgood.idle hc).balanced

/-- A packet of three bytes arrives and is received. -/
def onePacket : List (Event Call Dev) := [.env (.fill [1, 2, 3] true), .call (.receive 64)] ++ List.replicate 9 .tick

theorem receive_balanced_onePacket :
    ∃ c, nic.runUnder Acceptable start onePacket = some c ∧ c.shared.rdt = 0 ∧ c.priv.rxCurrent = 1 ∧ RxBalanced c := by
  obtain ⟨c, hc⟩ : ∃ c, nic.runUnder Acceptable start onePacket = some c := Option.isSome_iff_exists.mp (by decide)
  have hobs : (nic.runUnder Acceptable start onePacket).map (fun c =>
      (c.cur.isNone, c.shared.rdt, c.priv.rxCurrent)) = some (true, 0, 1) := by decide
  rw [hc, Option.map_some, Option.some.injEq, Prod.mk.injEq, Prod.mk.injEq] at hobs
  have hidle := Option.isNone_iff_eq_none.mp hobs.1
  exact ⟨c, hc, hobs.2.1, hobs.2.2, receive_balanced c (nic.reachUnder_of_run _ hc) hidle⟩

/-- A packet of two bytes arrives, and a call with room for one byte rejects it. -/
def rejectedPacket : List (Event Call Dev) := [.env (.fill [1, 2] true), .call (.receive 1)] ++ List.replicate 5 .tick

/-- The call that rejects a packet moves on without writing `RDT`. -/
theorem receive_loses_capacity : ¬ ∀ c, nic.Reach start c → c.Idle → RxBalanced c := by
  intro h
  obtain ⟨c, hc⟩ : ∃ c, nic.run start rejectedPacket = some c := Option.isSome_iff_exists.mp (by decide)
  have hobs : (nic.run start rejectedPacket).map (fun c =>
      (c.cur.isNone, c.shared.rdt, c.priv.rxCurrent)) = some (true, 7, 1) := by decide
  rw [hc, Option.map_some, Option.some.injEq, Prod.mk.injEq, Prod.mk.injEq] at hobs
  have hbal := (h c (nic.reach_of_run hc) (Option.isNone_iff_eq_none.mp hobs.1)).1
  rw [hobs.2.1, hobs.2.2] at hbal
  exact absurd hbal (by decide)

end Yasouos.Drivers.E1000
