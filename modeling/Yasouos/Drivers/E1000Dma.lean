import Yasouos.Drivers.E1000Bytes

/-!
# What the E1000 reads and writes

The card follows the addresses that it finds in the descriptors, and nothing in it keeps it to the
buffers. That it stays there is the driver's work: the card must see a descriptor only when it has been
written, and find in it the address and the length that the driver meant.

## What is proved

* `call_within` — every access of a call is within the rings and the buffers, and the tail moves over a
  transmit descriptor only when its command has been written; in a run, whatever the device does.
* `simulates` — on a context that shows the rings (`Shows`), the driver and the card as specified do
  what they do on the rings.
* `Shows.confined` — what the card uses in a move is the ring of that half, and its buffers.
* `simulates_outside` — neither writes outside the context.
-/

namespace Yasouos.Drivers.E1000

open Theory Prog

/-! ### Within the rings -/

/-- An access within the rings. The tail moves over a descriptor only when its command has been written. -/
def Within : Op → Mem → Prop
  | .readRxStatus i, _ | .readRxLength i, _ | .writeRxStatus i _, _ | .writeRdt i, _ | .readTxStatus i, _
  | .writeTxStatus i _, _ => i < numDesc
  | .readRx a, _ | .writeTx a _, _ => a < numDesc * bufferSize
  | .writeTxLength i n, _ => i < numDesc ∧ n ≤ bufferSize
  | .writeTxCmd i v, _ => i < numDesc ∧ v = cmdEOPRS
  | .writeTdt n, s => n = (s.tdt + 1) % numDesc ∧ (s.txDescs s.tdt).cmd = cmdEOPRS

/-- The descriptors up to the tail have their command, or all have it, when the tail has been round. -/
def Commanded (s : Mem) : Prop :=
  (∀ i < numDesc, (s.txDescs i).cmd = cmdEOPRS) ∨ s.tdh ≤ s.tdt ∧ ∀ i < s.tdt, (s.txDescs i).cmd = cmdEOPRS

/-- Receive descriptor `i` describes its own buffer. -/
def RxOwn (i : ℕ) (d : RxDesc) : Prop := d.bufferAddr = i * bufferSize ∧ d.length ≤ bufferSize

/-- Transmit descriptor `i` describes its own buffer. -/
def TxOwn (i : ℕ) (d : TxDesc) : Prop := d.bufferAddr = i * bufferSize ∧ d.length ≤ bufferSize

/-- The indices and the descriptors are such as the driver sets them up. -/
structure Ranges (s : Mem) : Prop where
  rdh : s.rdh < numDesc
  rdt : s.rdt < numDesc
  tdh : s.tdh < numDesc
  tdt : s.tdt < numDesc
  rx : ∀ i < numDesc, RxOwn i (s.rxDescs i)
  tx : ∀ i < numDesc, TxOwn i (s.txDescs i)
  commanded : Commanded s

variable {s s' : Mem} {ctx : Ctx} {e : Dev}

/-- What holds of every other descriptor, and of the one that replaces this one, holds of every descriptor. -/
theorem forall_update {α : Type} {f : ℕ → α} {P : ℕ → α → Prop} {k : ℕ} {d : α} (h : ∀ i < numDesc, i ≠ k → P i (f i))
    (hd : k < numDesc → P k d) : ∀ i < numDesc, P i (Function.update f k d i) := by
  intro i hi
  by_cases hik : i = k
  · subst hik
    rw [Function.update_self]
    exact hd hi
  · rw [Function.update_of_ne hik]
    exact h i hi hik

theorem Commanded.congr (h : Commanded s) (hcmd : ∀ i, (s'.txDescs i).cmd = (s.txDescs i).cmd) (htdh : s'.tdh = s.tdh)
    (htdt : s'.tdt = s.tdt) : Commanded s' := by
  rcases h with h | ⟨hle, h⟩
  · exact .inl fun i hi => (hcmd i).trans (h i hi)
  · exact .inr ⟨by omega, fun i hi => (hcmd i).trans (h i (by omega))⟩

theorem cmd_update (f : ℕ → TxDesc) {k : ℕ} {d : TxDesc} (hd : d.cmd = (f k).cmd) (i : ℕ) :
    (Function.update f k d i).cmd = (f i).cmd := by
  by_cases hik : i = k
  · subst hik
    rw [Function.update_self, hd]
  · rw [Function.update_of_ne hik]

/-- An access within the rings leaves them as they should be. -/
theorem Ranges.exec (h : Ranges s) {o : Op} (ho : Within o s) : Ranges (exec o s).2 := by
  obtain ⟨hrdh, hrdt, htdh, htdt, hrx, htx, hcmd⟩ := h
  cases o with
  | readRxStatus | readRxLength | readRx | readTxStatus | writeTx => exact ⟨hrdh, hrdt, htdh, htdt, hrx, htx, hcmd⟩
  | writeRxStatus i v =>
    exact ⟨hrdh, hrdt, htdh, htdt, forall_update (P := RxOwn) (fun i hi _ => hrx i hi) (hrx i), htx, hcmd⟩
  | writeRdt i => exact ⟨hrdh, ho, htdh, htdt, hrx, htx, hcmd⟩
  | writeTxLength i n =>
    exact ⟨hrdh, hrdt, htdh, htdt, hrx, forall_update (P := TxOwn) (fun i hi _ => htx i hi) fun hi => ⟨(htx i hi).1, ho.2⟩,
      hcmd.congr (cmd_update _ rfl) rfl rfl⟩
  | writeTxCmd i v =>
    refine ⟨hrdh, hrdt, htdh, htdt, hrx, forall_update (P := TxOwn) (fun i hi _ => htx i hi) (htx i), ?_⟩
    have hkept : ∀ j, (s.txDescs j).cmd = cmdEOPRS → ((E1000.exec (.writeTxCmd i v) s).2.txDescs j).cmd = cmdEOPRS := by
      intro j hj
      by_cases hji : j = i
      · subst hji
        exact (congrArg TxDesc.cmd (Function.update_self ..)).trans ho.2
      · exact (congrArg TxDesc.cmd (Function.update_of_ne hji ..)).trans hj
    rcases hcmd with hall | ⟨hle, hsome⟩
    · exact .inl fun j hj => hkept j (hall j hj)
    · exact .inr ⟨hle, fun j hj => hkept j (hsome j hj)⟩
  | writeTxStatus i v =>
    exact ⟨hrdh, hrdt, htdh, htdt, hrx, forall_update (P := TxOwn) (fun i hi _ => htx i hi) (htx i),
      hcmd.congr (cmd_update _ rfl) rfl rfl⟩
  | writeTdt n =>
    obtain ⟨hn, hcur⟩ := ho
    refine ⟨hrdh, hrdt, htdh, hn ▸ Nat.mod_lt _ (by decide), hrx, htx, ?_⟩
    rcases hcmd with hall | ⟨hle, hsome⟩
    · exact .inl hall
    have hupto : ∀ i ≤ s.tdt, (s.txDescs i).cmd = cmdEOPRS := by
      intro i hi
      rcases Nat.lt_or_eq_of_le hi with hlt | rfl
      · exact hsome i hlt
      · exact hcur
    -- past the last descriptor, the tail has been round
    by_cases hlast : s.tdt + 1 = numDesc
    · exact .inl fun i hi => hupto i (by omega)
    · have hn' : n = s.tdt + 1 := by rw [hn, Nat.mod_eq_of_lt (by omega)]
      exact .inr ⟨by change s.tdh ≤ n; omega, fun i hi => hupto i (by change i < n at hi; omega)⟩

/-- So does a move of the device. -/
theorem Ranges.device (h : Ranges s) (he : device e s = some s') : Ranges s' := by
  obtain ⟨hrdh, hrdt, htdh, htdt, hrx, htx, hcmd⟩ := h
  cases e with
  | fill bytes last =>
    simp only [E1000.device, Option.ite_none_right_eq_some] at he
    obtain ⟨⟨-, hlen⟩, he⟩ := he
    cases he
    refine ⟨Nat.mod_lt _ (by decide), hrdt, htdh, htdt, ?_, htx, hcmd⟩
    exact forall_update (P := RxOwn) (fun i hi _ => hrx i hi) fun hi => ⟨(hrx _ hi).1, hlen⟩
  | send =>
    simp only [E1000.device, Option.ite_none_right_eq_some] at he
    obtain ⟨hne, he⟩ := he
    cases he
    refine ⟨hrdh, hrdt, Nat.mod_lt _ (by decide), htdt, hrx,
      forall_update (P := TxOwn) (fun i hi _ => htx i hi) (htx s.tdh), ?_⟩
    have hkept := cmd_update s.txDescs (k := s.tdh)
      (d := { s.txDescs s.tdh with status := (s.txDescs s.tdh).status ||| statDD }) rfl
    rcases hcmd with hall | ⟨hle, hsome⟩
    · exact .inl fun i hi => (hkept i).trans (hall i hi)
    · have hnext : (s.tdh + 1) % numDesc = s.tdh + 1 := Nat.mod_eq_of_lt (by omega)
      refine .inr ⟨?_, fun i hi => (hkept i).trans (hsome i hi)⟩
      change (s.tdh + 1) % numDesc ≤ s.tdt
      omega

/-- The command of the next transmit descriptor. -/
theorem Ranges.cmd_head (h : Ranges s) (hne : s.tdh ≠ s.tdt) : (s.txDescs s.tdh).cmd = cmdEOPRS := by
  rcases h.commanded with hall | ⟨hle, hsome⟩
  · exact hall _ h.tdh
  · exact hsome _ (by omega)

/-! ### The calls stay within the rings -/

/-- The rings as they should be, with the driver at transmit descriptor `cur`, whose command is as `P` says. -/
def AtTx (cur : ℕ) (P : UInt8 → Prop) (s : Mem) : Prop := Ranges s ∧ s.tdt = cur ∧ P (s.txDescs cur).cmd

/-- The device writes neither the tail nor a command. -/
theorem device_tail (h : device e s = some s') : s'.tdt = s.tdt ∧ ∀ i, (s'.txDescs i).cmd = (s.txDescs i).cmd := by
  cases e with
  | fill bytes last =>
    simp only [device, Option.ite_none_right_eq_some] at h
    obtain ⟨-, h⟩ := h
    cases h
    exact ⟨rfl, fun _ => rfl⟩
  | send =>
    simp only [device, Option.ite_none_right_eq_some] at h
    obtain ⟨-, h⟩ := h
    cases h
    exact ⟨rfl, cmd_update s.txDescs (k := s.tdh) rfl⟩

theorem AtTx.stable (cur : ℕ) (P : UInt8 → Prop) : nic.Stable (AtTx cur P) := by
  rintro e s s' ⟨h, hcur, hP⟩ he
  obtain ⟨htdt, hcmd⟩ := device_tail he
  exact ⟨h.device he, htdt.trans hcur, by rw [hcmd]; exact hP⟩

/-- Any command. -/
abbrev Anything : UInt8 → Prop := fun _ => True

/-- What the driver relies on between calls. -/
structure Sound (ctx : Ctx) (s : Mem) : Prop where
  initialized : ctx.initialized = true
  rxCurrent : ctx.rxCurrent < numDesc
  txCurrent : ctx.txCurrent < numDesc
  atTx : AtTx ctx.txCurrent Anything s

theorem Sound.stable (ctx : Ctx) : nic.Stable (Sound ctx) :=
  fun e _ _ h he => ⟨h.1, h.2, h.3, AtTx.stable _ _ e _ _ h.4 he⟩

theorem Sound.nextRx (h : Sound ctx s) : Sound ctx.nextRx s := ⟨h.1, Nat.mod_lt _ (by decide), h.3, h.4⟩

/-- An access that does not write a command, nor the tail of the transmit ring. -/
theorem Sound.exec (h : Sound ctx s) {o : Op} (ho : Within o s) (hrx : TouchesRx o) : Sound ctx (exec o s).2 := by
  obtain ⟨htxDescs, -, -, htdt, -⟩ := exec_touchesRx hrx s
  exact ⟨h.1, h.2, h.3, h.4.1.exec ho, htdt.trans h.4.2.1, trivial⟩

variable {A : Op → Mem → Prop}

/-- Reading a packet that fits its buffer. -/
theorem readBytes_within (cur n : ℕ) (hcur : cur < numDesc) (hn : n ≤ bufferSize) (h : Sound ctx s) :
    (readBytes (cur * bufferSize) n).Safe nic.toMachine A Within (fun _ s' => Sound ctx s') s := by
  have hall : (readBytes (cur * bufferSize) n).All
      (fun o => ∃ a, a < numDesc * bufferSize ∧ o = .readRx a) fun _ => True := by
    refine (readEach_all_of_lt fun i hi => ?_).mono (fun _ h => h) fun _ _ => trivial
    refine perform_all (P := fun o : Op => ∃ a, a < numDesc * bufferSize ∧ o = .readRx a) ⟨_, ?_, rfl⟩
    simp only [numDesc, bufferSize] at *
    omega
  refine (Safe.of_all hall (Sound.stable ctx) ?_ h).mono fun _ _ h => h.2
  rintro o s ⟨a, ha, rfl⟩ hs
  exact ⟨ha, hs.exec ha trivial⟩

theorem receivePacket_within (n len : ℕ) (hlen : len ≤ bufferSize) (h : Sound ctx s) :
    (receivePacket n ctx len).Safe nic.toMachine A Within (fun r s' => Sound r.1 s') s := by
  have hcur := h.rxCurrent
  unfold receivePacket
  split_ifs with hsize
  · refine Safe.op_of_stable (Sound.stable ctx) h fun s₁ h₁ => ⟨hcur, fun _ => ?_⟩
    exact Safe.ret_of_stable (Sound.stable ctx) (h₁.exec (o := .writeRxStatus ctx.rxCurrent 0) hcur trivial)
      fun _ h => h.nextRx
  · refine Safe.bind ((readBytes_within ctx.rxCurrent len hcur hlen h).mono fun _ s₁ h₁ => ?_)
    refine Safe.op_of_stable (Sound.stable ctx) h₁ fun s₂ h₂ => ⟨hcur, fun _ => ?_⟩
    refine Safe.op_of_stable (Sound.stable ctx) (h₂.exec (o := .writeRxStatus ctx.rxCurrent 0) hcur trivial)
      fun s₃ h₃ => ⟨hcur, fun _ => ?_⟩
    exact Safe.ret_of_stable (Sound.stable ctx) (h₃.exec (o := .writeRdt ctx.rxCurrent) hcur trivial) fun _ h => h.nextRx

/-- **A call of `e1000_receive`.** -/
theorem receive_within (n : ℕ) (h : Sound ctx s) :
    (e1000Receive n ctx).Safe nic.toMachine A Within (fun r s' => Sound r.1 s') s := by
  have hcur := h.rxCurrent
  have hread : ∀ s, Sound ctx s → Sound ctx (exec (.readRxStatus ctx.rxCurrent) s).2 := fun s hs => hs.exec hcur trivial
  unfold e1000Receive
  split_ifs with hi
  · exact Safe.ret_of_stable (Sound.stable ctx) h fun _ h => h
  refine Safe.op_of_stable (Sound.stable ctx) h fun s₁ h₁ => ⟨hcur, fun _ => ?_⟩
  show Safe _ _ _ _ (if (s₁.rxDescs ctx.rxCurrent).status &&& statDD = 0 then _ else _) _
  split_ifs with hdd
  · exact Safe.ret_of_stable (Sound.stable ctx) (hread s₁ h₁) fun _ h => h
  refine Safe.op_of_stable (Sound.stable ctx) (hread s₁ h₁) fun s₂ h₂ => ⟨hcur, fun _ => ?_⟩
  show Safe _ _ _ _ (if (s₂.rxDescs ctx.rxCurrent).status &&& statEOP = 0 then _ else _) _
  split_ifs with heop
  · refine Safe.op_of_stable (Sound.stable ctx) (hread s₂ h₂) fun s₃ h₃ => ⟨hcur, fun _ => ?_⟩
    exact Safe.ret_of_stable (Sound.stable ctx) (h₃.exec (o := .writeRxStatus ctx.rxCurrent 0) hcur trivial)
      fun _ h => h.nextRx
  refine Safe.op_of_stable (Sound.stable ctx) (hread s₂ h₂) fun s₃ h₃ => ⟨hcur, fun _ => ?_⟩
  -- the length is one that the device has written, or zero
  exact receivePacket_within n _ (h₃.atTx.1.rx _ hcur).2 (h₃.exec (o := .readRxLength ctx.rxCurrent) hcur trivial)

/-- Copying a packet that fits its buffer. -/
theorem writeBytes_within (cur : ℕ) (packet : List UInt8) (hcur : cur < numDesc) (hlen : packet.length ≤ bufferSize)
    (h : AtTx cur Anything s) :
    (writeBytes (cur * bufferSize) packet).Safe nic.toMachine A Within (fun _ => AtTx cur Anything) s := by
  refine Safe.writeEach (B := fun _ => AtTx cur Anything) (fun _ => AtTx.stable cur _) (fun i hi s hs => ?_) h
  refine Safe.op_of_stable (AtTx.stable cur _) hs fun s₁ h₁ => ?_
  have ha : cur * bufferSize + i < numDesc * bufferSize := by
    simp only [numDesc, bufferSize] at *
    omega
  refine ⟨ha, fun _ => Safe.ret_of_stable (AtTx.stable cur _) ?_ fun _ h => h⟩
  exact ⟨h₁.1.exec (o := .writeTx (cur * bufferSize + i) _) ha, h₁.2⟩

/-- **A call of `e1000_transmit`.** -/
theorem transmit_within (packet : List UInt8) (h : Sound ctx s) :
    (e1000Transmit packet ctx).Safe nic.toMachine A Within (fun r s' => Sound r.1 s') s := by
  have hcur := h.txCurrent
  unfold e1000Transmit
  split_ifs with hi hlen
  · exact Safe.ret_of_stable (Sound.stable ctx) h fun _ h => h
  · exact Safe.ret_of_stable (Sound.stable ctx) h fun _ h => h
  have hlen' : packet.length ≤ bufferSize := Nat.not_lt.mp hlen
  refine Safe.op_of_stable (Sound.stable ctx) h fun s₁ h₁ => ⟨hcur, fun _ => ?_⟩
  show Safe _ _ _ _ (if (s₁.txDescs ctx.txCurrent).status &&& statDD = 0 then _ else _) _
  split_ifs with hdd
  · exact Safe.ret_of_stable (Sound.stable ctx) h₁ fun _ h => h
  have hcopy := writeBytes_within (A := A) ctx.txCurrent packet hcur hlen' h₁.atTx
  refine Safe.bind (hcopy.mono fun _ s₂ h₂ => ?_)
  have hany := AtTx.stable ctx.txCurrent Anything
  have hcmd := AtTx.stable ctx.txCurrent (· = cmdEOPRS)
  refine Safe.op_of_stable hany h₂ fun s₃ h₃ => ⟨⟨hcur, hlen'⟩, fun _ => ?_⟩
  have h₃' : AtTx ctx.txCurrent Anything (exec (.writeTxLength ctx.txCurrent packet.length) s₃).2 :=
    ⟨h₃.1.exec ⟨hcur, hlen'⟩, h₃.2.1, trivial⟩
  refine Safe.op_of_stable hany h₃' fun s₄ h₄ => ⟨⟨hcur, rfl⟩, fun _ => ?_⟩
  have h₄' : AtTx ctx.txCurrent (· = cmdEOPRS) (exec (.writeTxCmd ctx.txCurrent cmdEOPRS) s₄).2 :=
    ⟨h₄.1.exec ⟨hcur, rfl⟩, h₄.2.1, by
      show (Function.update s₄.txDescs ctx.txCurrent _ ctx.txCurrent).cmd = cmdEOPRS
      rw [Function.update_self]⟩
  refine Safe.op_of_stable hcmd h₄' fun s₅ h₅ => ⟨hcur, fun _ => ?_⟩
  have h₅' : AtTx ctx.txCurrent (· = cmdEOPRS) (exec (.writeTxStatus ctx.txCurrent 0) s₅).2 :=
    ⟨h₅.1.exec (o := .writeTxStatus ctx.txCurrent 0) hcur, h₅.2.1,
      (cmd_update s₅.txDescs (d := { s₅.txDescs ctx.txCurrent with status := 0 }) rfl _).trans h₅.2.2⟩
  -- only now does the tail move over the descriptor
  refine Safe.op_of_stable hcmd h₅' fun s₆ h₆ => ?_
  have hwithin : Within (.writeTdt ctx.nextTx.txCurrent) s₆ := by
    refine ⟨?_, ?_⟩
    · rw [h₆.2.1]
      rfl
    · rw [h₆.2.1]
      exact h₆.2.2
  refine ⟨hwithin, fun _ => ?_⟩
  have hsound : Sound ctx.nextTx (exec (.writeTdt ctx.nextTx.txCurrent) s₆).2 :=
    ⟨h.initialized, h.rxCurrent, Nat.mod_lt _ (by decide), h₆.1.exec hwithin, rfl, trivial⟩
  exact Safe.ret_of_stable (Sound.stable _) hsound fun _ h => h

/-- Every call stays within the rings. -/
theorem call_within (_ : List (Done Call Ctx Ret)) (k : Call) (p : Ctx) (s : Mem) (h : Sound p s) :
    (nic.body k p).Safe nic.toMachine A Within (fun r s => Sound r.1 s) s := by
  cases k with
  | receive n => exact receive_within n h
  | transmit packet => exact transmit_within packet h

theorem sound_init : Sound initCtx initMem where
  initialized := rfl
  rxCurrent := by decide
  txCurrent := by decide
  atTx := by
    refine ⟨⟨by decide, by decide, by decide, by decide, fun _ _ => ⟨rfl, Nat.zero_le _⟩, fun _ _ => ⟨rfl, Nat.zero_le _⟩,
      .inr ⟨Nat.le_refl _, fun i hi => absurd hi (Nat.not_lt_zero i)⟩⟩, rfl, trivial⟩

/-! ### What the bytes show -/

namespace Bytes

/-- The descriptor at `d` is a receive descriptor, of a buffer among those at `buf`. -/
structure ShowsRx (f : ℕ → UInt8) (d buf : ℕ) (x : RxDesc) : Prop where
  addr : getNat f d 8 = buf + x.bufferAddr
  length : getNat f (d + 8) 2 = x.length
  status : f (d + 12) = x.status

/-- The descriptor at `d` is a transmit descriptor. -/
structure ShowsTx (f : ℕ → UInt8) (d buf : ℕ) (x : TxDesc) : Prop where
  addr : getNat f d 8 = buf + x.bufferAddr
  length : getNat f (d + 8) 2 = x.length
  cmd : f (d + 11) = x.cmd
  status : f (d + 12) = x.status

/-- The memory of the context at `b` holds the rings. -/
structure ShowsMem (b : ℕ) (f : ℕ → UInt8) (s : Mem) : Prop where
  rxDescs : ∀ i < numDesc, ShowsRx f (rxDesc b i) (rxBuffers b) (s.rxDescs i)
  rxBuffers : ∀ j < numDesc * bufferSize, f (rxBuffers b + j) = s.rxBuffers j
  txDescs : ∀ i < numDesc, ShowsTx f (txDesc b i) (txBuffers b) (s.txDescs i)
  txBuffers : ∀ j < numDesc * bufferSize, f (txBuffers b + j) = s.txBuffers j

/-- The registers are those of the context at `b`, and both halves of the card are enabled. -/
structure ShowsReg (b : ℕ) (c : Card) (s : Mem) : Prop where
  rctl : c.reg rctlReg &&& 2 ≠ 0
  size : c.receiveSize = bufferSize
  rxTable : c.table rdbalReg rdbahReg = rxDesc b 0
  rdlen : c.num rdlenReg = numDesc * 16
  rdh : c.num rdhReg = s.rdh
  rdt : c.num rdtReg = s.rdt
  tctl : c.reg tctlReg &&& 2 ≠ 0
  txTable : c.table tdbalReg tdbahReg = txDesc b 0
  tdlen : c.num tdlenReg = numDesc * 16
  tdh : c.num tdhReg = s.tdh
  tdt : c.num tdtReg = s.tdt

/-- **What the card is.** -/
structure Shows (b : ℕ) (c : Card) (s : Mem) : Prop where
  mem : ShowsMem b c.mem s
  reg : ShowsReg b c s
  sent : c.sent = s.sent
  pending : c.pending = []
  ranges : Ranges s

section Frames

variable {b d buf : ℕ} {f f' : ℕ → UInt8} {s s' : Mem} {x : RxDesc} {y : TxDesc}

theorem ShowsRx.congr (h : ShowsRx f d buf x) (hf : ∀ a, d ≤ a → a < d + 16 → f' a = f a) : ShowsRx f' d buf x where
  addr := (getNat_congr fun i hi => hf _ (by omega) (by omega)).trans h.addr
  length := (getNat_congr fun i hi => hf _ (by omega) (by omega)).trans h.length
  status := (hf _ (by omega) (by omega)).trans h.status

theorem ShowsTx.congr (h : ShowsTx f d buf y) (hf : ∀ a, d ≤ a → a < d + 16 → f' a = f a) : ShowsTx f' d buf y where
  addr := (getNat_congr fun i hi => hf _ (by omega) (by omega)).trans h.addr
  length := (getNat_congr fun i hi => hf _ (by omega) (by omega)).trans h.length
  cmd := (hf _ (by omega) (by omega)).trans h.cmd
  status := (hf _ (by omega) (by omega)).trans h.status

/-- The receive ring is where nothing has been written. -/
theorem ShowsMem.rx_congr (h : ShowsMem b f s) (hf : ∀ a, b + 16 ≤ a → a < b + 16528 → f' a = f a) :
    (∀ i < numDesc, ShowsRx f' (rxDesc b i) (Bytes.rxBuffers b) (s.rxDescs i)) ∧
      ∀ j < numDesc * bufferSize, f' (Bytes.rxBuffers b + j) = s.rxBuffers j := by
  simp only [numDesc, bufferSize] at *
  refine ⟨fun i hi => (h.rxDescs i hi).congr fun a hlo hhi => hf a ?_ ?_, fun j hj => (hf _ ?_ ?_).trans (h.rxBuffers j hj)⟩
    <;> simp only [rxDesc, Bytes.rxBuffers] at * <;> omega

/-- The transmit ring is where nothing has been written. -/
theorem ShowsMem.tx_congr (h : ShowsMem b f s) (hf : ∀ a, b + 16544 ≤ a → a < b + 33056 → f' a = f a) :
    (∀ i < numDesc, ShowsTx f' (txDesc b i) (Bytes.txBuffers b) (s.txDescs i)) ∧
      ∀ j < numDesc * bufferSize, f' (Bytes.txBuffers b + j) = s.txBuffers j := by
  simp only [numDesc, bufferSize] at *
  refine ⟨fun i hi => (h.txDescs i hi).congr fun a hlo hhi => hf a ?_ ?_, fun j hj => (hf _ ?_ ?_).trans (h.txBuffers j hj)⟩
    <;> simp only [txDesc, Bytes.txBuffers] at * <;> omega

/-- One receive descriptor is written, and nothing else. -/
theorem ShowsMem.setRx (h : ShowsMem b f s) {i : ℕ} (hi : i < numDesc)
    (hf : ∀ a, a < rxDesc b i ∨ rxDesc b i + 16 ≤ a → f' a = f a)
    (hx : ShowsRx f' (rxDesc b i) (Bytes.rxBuffers b) x) :
    ShowsMem b f' { s with rxDescs := Function.update s.rxDescs i x } := by
  simp only [rxDesc, numDesc] at hf hi
  obtain ⟨htx, htb⟩ := h.tx_congr fun a hlo hhi => hf a (by omega)
  refine ⟨forall_update (P := fun j d => ShowsRx f' (rxDesc b j) (Bytes.rxBuffers b) d) (fun j hj hji => ?_) fun _ => hx,
    fun j hj => (hf _ ?_).trans (h.rxBuffers j hj), htx, htb⟩
  · refine (h.rxDescs j hj).congr fun a hlo hhi => hf a ?_
    simp only [rxDesc] at hlo hhi
    omega
  · simp only [Bytes.rxBuffers]
    omega

/-- One transmit descriptor is written, and nothing else. -/
theorem ShowsMem.setTx (h : ShowsMem b f s) {i : ℕ} (hi : i < numDesc)
    (hf : ∀ a, a < txDesc b i ∨ txDesc b i + 16 ≤ a → f' a = f a)
    (hy : ShowsTx f' (txDesc b i) (Bytes.txBuffers b) y) :
    ShowsMem b f' { s with txDescs := Function.update s.txDescs i y } := by
  simp only [txDesc, numDesc] at hf hi
  obtain ⟨hrx, hrb⟩ := h.rx_congr fun a hlo hhi => hf a (by omega)
  refine ⟨hrx, hrb, forall_update (P := fun j d => ShowsTx f' (txDesc b j) (Bytes.txBuffers b) d) (fun j hj hji => ?_)
    fun _ => hy, fun j hj => (hf _ ?_).trans (h.txBuffers j hj)⟩
  · refine (h.txDescs j hj).congr fun a hlo hhi => hf a ?_
    simp only [txDesc] at hlo hhi
    omega
  · simp only [Bytes.txBuffers]
    omega

/-- Receive buffers are written, and nothing else. -/
theorem ShowsMem.setRxBuffers (h : ShowsMem b f s) {g : ℕ → UInt8}
    (hf : ∀ a, a < Bytes.rxBuffers b ∨ Bytes.rxBuffers b + numDesc * bufferSize ≤ a → f' a = f a)
    (hg : ∀ j < numDesc * bufferSize, f' (Bytes.rxBuffers b + j) = g j) : ShowsMem b f' { s with rxBuffers := g } := by
  simp only [Bytes.rxBuffers, numDesc, bufferSize] at hf
  obtain ⟨htx, htb⟩ := h.tx_congr fun a hlo hhi => hf a (by omega)
  refine ⟨fun j hj => (h.rxDescs j hj).congr fun a hlo hhi => hf a ?_, hg, htx, htb⟩
  simp only [rxDesc, numDesc] at hlo hhi hj
  omega

/-- Transmit buffers are written, and nothing else. -/
theorem ShowsMem.setTxBuffers (h : ShowsMem b f s) {g : ℕ → UInt8}
    (hf : ∀ a, a < Bytes.txBuffers b ∨ Bytes.txBuffers b + numDesc * bufferSize ≤ a → f' a = f a)
    (hg : ∀ j < numDesc * bufferSize, f' (Bytes.txBuffers b + j) = g j) : ShowsMem b f' { s with txBuffers := g } := by
  simp only [Bytes.txBuffers, numDesc, bufferSize] at hf
  obtain ⟨hrx, hrb⟩ := h.rx_congr fun a hlo hhi => hf a (by omega)
  refine ⟨hrx, hrb, fun j hj => (h.txDescs j hj).congr fun a hlo hhi => hf a ?_, hg⟩
  simp only [txDesc, numDesc] at hlo hhi hj
  omega

theorem ShowsRx.setStatus (h : ShowsRx f d buf x) (v : UInt8) :
    ShowsRx (Function.update f (d + 12) v) d buf { x with status := v } where
  addr := (getNat_congr fun i hi => Function.update_of_ne (by omega) ..).trans h.addr
  length := (getNat_congr fun i hi => Function.update_of_ne (by omega) ..).trans h.length
  status := Function.update_self ..

/-- The rest of a receive descriptor is written behind its address, and nothing else. -/
theorem fill_outside (f : ℕ → UInt8) (n checksum : ℕ) (status errors : UInt8) (special : ℕ) {a : ℕ}
    (ha : a < d ∨ d + 16 ≤ a) :
    store (setNat (setNat f (d + 8) 2 n) (d + 10) 2 checksum) (d + 12) (status :: errors :: leBytes 2 special) a = f a := by
  rw [store_outside _ _ _ (by simp; omega), setNat_outside _ _ (by omega), setNat_outside _ _ (by omega)]

theorem ShowsRx.fill (h : ShowsRx f d buf x) {n : ℕ} (hn : n < 2 ^ 16) (checksum : ℕ) (status errors : UInt8)
    (special : ℕ) :
    ShowsRx (store (setNat (setNat f (d + 8) 2 n) (d + 10) 2 checksum) (d + 12) (status :: errors :: leBytes 2 special))
      d buf { x with length := n, status := status } where
  addr := by
    refine (getNat_congr fun i hi => ?_).trans h.addr
    rw [store_outside _ _ _ (by simp; omega), setNat_outside _ _ (by omega), setNat_outside _ _ (by omega)]
  length := by
    refine (getNat_congr fun i hi => ?_).trans (getNat_setNat f (d + 8) hn)
    rw [store_outside _ _ _ (by simp; omega), setNat_outside _ _ (by omega)]
  status := store_apply _ _ _ (i := 0) (by simp)

theorem ShowsTx.setStatus (h : ShowsTx f d buf y) (v : UInt8) :
    ShowsTx (Function.update f (d + 12) v) d buf { y with status := v } where
  addr := (getNat_congr fun i hi => Function.update_of_ne (by omega) ..).trans h.addr
  length := (getNat_congr fun i hi => Function.update_of_ne (by omega) ..).trans h.length
  cmd := (Function.update_of_ne (by omega) ..).trans h.cmd
  status := Function.update_self ..

theorem ShowsTx.setCmd (h : ShowsTx f d buf y) (v : UInt8) :
    ShowsTx (Function.update f (d + 11) v) d buf { y with cmd := v } where
  addr := (getNat_congr fun i hi => Function.update_of_ne (by omega) ..).trans h.addr
  length := (getNat_congr fun i hi => Function.update_of_ne (by omega) ..).trans h.length
  cmd := Function.update_self ..
  status := (Function.update_of_ne (by omega) ..).trans h.status

theorem ShowsTx.setLength (h : ShowsTx f d buf y) {n : ℕ} (hn : n < 2 ^ 16) :
    ShowsTx (setNat f (d + 8) 2 n) d buf { y with length := n } where
  addr := (getNat_setNat_outside f n (by omega)).trans h.addr
  length := getNat_setNat f _ hn
  cmd := (setNat_outside f n (by omega)).trans h.cmd
  status := (setNat_outside f n (by omega)).trans h.status

end Frames

section Simulation

variable {b : ℕ} {c c' : Card} {s s' : Mem}

/-- The registers are the same. -/
theorem ShowsReg.congr (h : ShowsReg b c s) (hreg : c'.reg = c.reg) (hrdh : s'.rdh = s.rdh) (hrdt : s'.rdt = s.rdt)
    (htdh : s'.tdh = s.tdh) (htdt : s'.tdt = s.tdt) : ShowsReg b c' s' := by
  have hnum : c'.num = c.num := by
    funext r
    rw [Card.num, hreg, Card.num]
  obtain ⟨h1, h2, h3, h4, h5, h6, h7, h8, h9, h10, h11⟩ := h
  simp only [Card.receiveSize, Card.table] at h2 h3 h8
  exact ⟨by rwa [hreg], by simpa only [Card.receiveSize, hnum], by simpa only [Card.table, hnum], by rwa [hnum],
    by rw [hnum, hrdh, h5], by rw [hnum, hrdt, h6], by rwa [hreg], by simpa only [Card.table, hnum], by rwa [hnum],
    by rw [hnum, htdh, h10], by rw [hnum, htdt, h11]⟩

/-- A head or a tail is written. -/
theorem ShowsReg.setReg (h : ShowsReg b c s) {r : ℕ} {v : UInt32} (hr : r ∈ [rdhReg, rdtReg, tdhReg, tdtReg])
    (hreg : c'.reg = Function.update c.reg r v) (hrdh : s'.rdh = if r = rdhReg then v.toNat else s.rdh)
    (hrdt : s'.rdt = if r = rdtReg then v.toNat else s.rdt) (htdh : s'.tdh = if r = tdhReg then v.toNat else s.tdh)
    (htdt : s'.tdt = if r = tdtReg then v.toNat else s.tdt) : ShowsReg b c' s' := by
  have hnum : ∀ k, c'.num k = if r = k then v.toNat else c.num k := by
    intro k
    rw [Card.num, hreg, Function.update_apply]
    by_cases hk : r = k
    · rw [if_pos hk, if_pos hk.symm]
    · rw [if_neg hk, if_neg (Ne.symm hk), Card.num]
  have hkept : ∀ k, k ∉ [rdhReg, rdtReg, tdhReg, tdtReg] → c'.num k = c.num k ∧ c'.reg k = c.reg k := by
    intro k hk
    have hne : r ≠ k := fun heq => hk (heq ▸ hr)
    exact ⟨by rw [hnum, if_neg hne], by rw [hreg, Function.update_of_ne (Ne.symm hne)]⟩
  obtain ⟨h1, h2, h3, h4, h5, h6, h7, h8, h9, h10, h11⟩ := h
  refine ⟨?_, ?_, ?_, ?_, by rw [hnum, hrdh, h5], by rw [hnum, hrdt, h6], ?_, ?_, ?_, by rw [hnum, htdh, h10],
    by rw [hnum, htdt, h11]⟩
  · rwa [(hkept rctlReg (by decide)).2]
  · rwa [Card.receiveSize, (hkept rctlReg (by decide)).1]
  · rwa [Card.table, (hkept rdbalReg (by decide)).1, (hkept rdbahReg (by decide)).1]
  · rwa [(hkept rdlenReg (by decide)).1]
  · rwa [(hkept tctlReg (by decide)).2]
  · rwa [Card.table, (hkept tdbalReg (by decide)).1, (hkept tdbahReg (by decide)).1]
  · rwa [(hkept tdlenReg (by decide)).1]

/-- A number of a descriptor fits a register. -/
theorem toNat_ofNat_of_lt {n : ℕ} (h : n < numDesc) : (UInt32.ofNat n).toNat = n := by
  simp only [numDesc] at h
  rw [UInt32.toNat_ofNat']
  exact Nat.mod_eq_of_lt (by omega)

/-- **One access**, on both levels. -/
theorem Shows.exec (h : Shows b c s) {o : Op} (ho : Within o s) :
    (lowering b).ans o (byteExec ((lowering b).op o) c).1 = (E1000.exec o s).1 ∧
      Shows b (byteExec ((lowering b).op o) c).2 (E1000.exec o s).2 := by
  have hranges := h.ranges.exec ho
  cases o with
  | readRxStatus i => exact ⟨(h.mem.rxDescs i ho).status, h⟩
  | readRxLength i => exact ⟨(h.mem.rxDescs i ho).length, h⟩
  | readRx a => exact ⟨h.mem.rxBuffers a ho, h⟩
  | readTxStatus i => exact ⟨(h.mem.txDescs i ho).status, h⟩
  | writeRxStatus i v =>
    refine ⟨rfl, h.mem.setRx ho (fun a ha => ?_) ((h.mem.rxDescs i ho).setStatus v), h.reg.congr rfl rfl rfl rfl rfl,
      h.sent, h.pending, hranges⟩
    exact Function.update_of_ne (by omega) ..
  | writeTxStatus i v =>
    refine ⟨rfl, h.mem.setTx ho (fun a ha => ?_) ((h.mem.txDescs i ho).setStatus v), h.reg.congr rfl rfl rfl rfl rfl,
      h.sent, h.pending, hranges⟩
    exact Function.update_of_ne (by omega) ..
  | writeTxCmd i v =>
    refine ⟨rfl, h.mem.setTx ho.1 (fun a ha => ?_) ((h.mem.txDescs i ho.1).setCmd v), h.reg.congr rfl rfl rfl rfl rfl,
      h.sent, h.pending, hranges⟩
    exact Function.update_of_ne (by omega) ..
  | writeTxLength i n =>
    have hn : n < 2 ^ 16 := Nat.lt_of_le_of_lt ho.2 (by decide)
    refine ⟨rfl, h.mem.setTx ho.1 (fun a ha => ?_) ((h.mem.txDescs i ho.1).setLength hn), h.reg.congr rfl rfl rfl rfl rfl,
      h.sent, h.pending, hranges⟩
    exact setNat_outside _ _ (by omega)
  | writeTx a v =>
    refine ⟨rfl, h.mem.setTxBuffers (fun k hk => ?_) (fun j hj => ?_), h.reg.congr rfl rfl rfl rfl rfl, h.sent, h.pending,
      hranges⟩
    · exact Function.update_of_ne (by simp only [Within] at ho; omega) ..
    · show Function.update c.mem (txBuffers b + a) v (txBuffers b + j) = Function.update s.txBuffers a v j
      simp only [Function.update_apply, Nat.add_left_cancel_iff, h.mem.txBuffers j hj]
  | writeRdt i =>
    refine ⟨rfl, ?_, h.reg.setReg (r := rdtReg) (v := UInt32.ofNat i) (by decide) rfl rfl ?_ rfl rfl, h.sent, h.pending,
      hranges⟩
    · exact ⟨h.mem.1, h.mem.2, h.mem.3, h.mem.4⟩
    · exact (toNat_ofNat_of_lt ho).symm
  | writeTdt n =>
    have hn : n < numDesc := ho.1 ▸ Nat.mod_lt _ (by decide)
    refine ⟨rfl, ?_, h.reg.setReg (r := tdtReg) (v := UInt32.ofNat n) (by decide) rfl rfl rfl rfl ?_, h.sent, h.pending,
      hranges⟩
    · exact ⟨h.mem.1, h.mem.2, h.mem.3, h.mem.4⟩
    · exact (toNat_ofNat_of_lt hn).symm

/-- Where the next receive descriptor is, and its buffer. -/
theorem Shows.rxHead (h : Shows b c s) :
    c.rxHead = rxDesc b s.rdh ∧ getNat c.mem (rxDesc b s.rdh) 8 = rxBuffers b + s.rdh * bufferSize := by
  refine ⟨?_, ?_⟩
  · rw [Card.rxHead, h.reg.rxTable, h.reg.rdh, rxDesc, rxDesc]
  · rw [(h.mem.rxDescs _ h.ranges.rdh).addr, (h.ranges.rx _ h.ranges.rdh).1]

/-- Where the next transmit descriptor is, and its buffer. -/
theorem Shows.txHead (h : Shows b c s) :
    c.txHead = txDesc b s.tdh ∧ getNat c.mem (txDesc b s.tdh) 8 = txBuffers b + s.tdh * bufferSize ∧
      getNat c.mem (txDesc b s.tdh + 8) 2 = (s.txDescs s.tdh).length := by
  refine ⟨?_, ?_, (h.mem.txDescs _ h.ranges.tdh).length⟩
  · rw [Card.txHead, h.reg.txTable, h.reg.tdh, txDesc, txDesc]
  · rw [(h.mem.txDescs _ h.ranges.tdh).addr, (h.ranges.tx _ h.ranges.tdh).1]

/-- The head goes on. -/
theorem advance_eq {head len i : ℕ} (hhead : c.num head = i) (hlen : c.num len = numDesc * 16) :
    (c.advance head len).toNat = (i + 1) % numDesc := by
  have hmod : (i + 1) % numDesc < numDesc := Nat.mod_lt _ (by decide)
  rw [Card.advance, hhead, hlen]
  exact toNat_ofNat_of_lt hmod

/-- **The card receives**, on both levels. -/
theorem Shows.receive (h : Shows b c s) {bytes : List UInt8} {last : Bool} {checksum special : ℕ} {errors : UInt8}
    (he : cardMove (.receive bytes last checksum errors special) c = some c') :
    ∃ s', device (.fill bytes last) s = some s' ∧ Shows b c' s' := by
  simp only [cardMove, Option.ite_none_right_eq_some] at he
  obtain ⟨⟨-, hne, hlen⟩, he⟩ := he
  rw [h.reg.rdh, h.reg.rdt] at hne
  rw [h.reg.size] at hlen
  obtain ⟨hhead, hbuf⟩ := h.rxHead
  rw [hhead, hbuf] at he
  have hi := h.ranges.rdh
  have hdev : device (.fill bytes last) s = some _ := if_pos ⟨hne, hlen⟩
  refine ⟨_, hdev, ?_⟩
  obtain rfl := Option.some.inj he
  -- first the buffer, and then the descriptor
  have hfilled : ShowsMem b (store c.mem (rxBuffers b + s.rdh * bufferSize) bytes)
      { s with rxBuffers := store s.rxBuffers (s.rdh * bufferSize) bytes } := by
    refine h.mem.setRxBuffers (fun a ha => ?_) fun j hj => ?_
    · refine store_outside _ _ _ ?_
      simp only [numDesc, bufferSize] at *
      omega
    · by_cases hin : s.rdh * bufferSize ≤ j ∧ j < s.rdh * bufferSize + bytes.length
      · obtain ⟨k, rfl⟩ := Nat.exists_eq_add_of_le hin.1
        rw [← Nat.add_assoc, store_apply _ _ _ (by omega : k < bytes.length), store_apply _ _ _ (by omega)]
      · rw [store_outside _ _ _ (by omega), store_outside _ _ _ (by omega)]
        exact h.mem.rxBuffers j hj
  have hdesc := hfilled.rxDescs _ hi
  have hfits : bytes.length < 2 ^ 16 := Nat.lt_of_le_of_lt hlen (by decide)
  have hmem := hfilled.setRx hi (fun a ha => fill_outside _ _ _ _ _ _ ha)
    ((hfilled.rxDescs _ hi).fill hfits checksum (if last then statDD ||| statEOP else statDD) errors special)
  refine ⟨⟨hmem.1, ?_, hmem.3, hmem.4⟩, ?_, h.sent, h.pending, h.ranges.device hdev⟩
  · rw [(h.ranges.rx _ hi).1]
    exact hmem.2
  · have hadv := advance_eq h.reg.rdh h.reg.rdlen
    exact h.reg.setReg (r := rdhReg) (by decide) rfl hadv.symm rfl rfl rfl

/-- **The card sends**, on both levels. -/
theorem Shows.transmit (h : Shows b c s) (he : cardMove .transmit c = some c') :
    ∃ s', device .send s = some s' ∧ Shows b c' s' := by
  simp only [cardMove, Option.ite_none_right_eq_some] at he
  obtain ⟨⟨-, hne⟩, he⟩ := he
  rw [h.reg.tdh, h.reg.tdt] at hne
  obtain ⟨hhead, hbuf, hlen⟩ := h.txHead
  have hi := h.ranges.tdh
  have hcmd : c.mem (txDesc b s.tdh + 11) = cmdEOPRS := (h.mem.txDescs _ hi).cmd.trans (h.ranges.cmd_head hne)
  rw [hhead, hbuf, hlen, hcmd, h.pending, if_pos (by decide), if_pos (by decide), if_pos (by decide), List.nil_append] at he
  have hdev : device .send s = some _ := if_pos hne
  refine ⟨_, hdev, ?_⟩
  obtain rfl := Option.some.inj he
  have hdesc := h.mem.txDescs _ hi
  have hframe : ∀ a, a < txDesc b s.tdh ∨ txDesc b s.tdh + 16 ≤ a →
      Function.update c.mem (txDesc b s.tdh + 12) ((s.txDescs s.tdh).status ||| statDD) a = c.mem a :=
    fun a ha => Function.update_of_ne (by omega) ..
  have hmem := h.mem.setTx hi hframe (hdesc.setStatus _)
  rw [← hdesc.status] at hmem
  refine ⟨⟨hmem.1, hmem.2, ?_, hmem.4⟩, ?_, ?_, rfl, h.ranges.device hdev⟩
  · rw [← hdesc.status]
    exact hmem.3
  · have hadv := advance_eq h.reg.tdh h.reg.tdlen
    exact h.reg.setReg (r := tdhReg) (by decide) rfl rfl rfl hadv.symm rfl
  · -- what it reads is the packet of that descriptor
    obtain ⟨hown, hle⟩ := h.ranges.tx _ hi
    have hpacket : load c.mem (txBuffers b + s.tdh * bufferSize) (s.txDescs s.tdh).length = s.txPacket s.tdh := by
      rw [Mem.txPacket, hown]
      refine List.map_congr_left fun i hlt => ?_
      have hlt := List.mem_range.mp hlt
      rw [Nat.add_assoc]
      refine h.mem.txBuffers _ ?_
      simp only [numDesc, bufferSize] at *
      omega
    show c.sent ++ [_] = s.sent ++ [_]
    rw [h.sent, hpacket]

/-- **The driver and the card as specified do what they should on the rings.** -/
theorem simulates (b : ℕ) : (lowering b).Simulates (card b) nic (Shows b) Within where
  body _ _ := rfl
  exec _ _ _ h ho := h.exec ho
  env e _ _ _ h he := by
    cases e with
    | receive bytes last checksum errors special =>
      obtain ⟨s', hs', hshows⟩ := h.receive he
      exact ⟨.fill bytes last, s', hs', hshows⟩
    | transmit =>
      obtain ⟨s', hs', hshows⟩ := h.transmit he
      exact ⟨.send, s', hs', hshows⟩

/-- The card keeps within the rings and the buffers. -/
def Confined (b a : ℕ) : Prop := b + 16 ≤ a ∧ a < b + 16528 ∨ b + 16544 ≤ a ∧ a < b + 33056

/-- **What the card uses** in a move that it can make. -/
theorem Shows.confined (h : Shows b c s) {e : Move} (he : cardMove e c = some c') {a : ℕ} (ha : Uses c a e) :
    Confined b a := by
  cases e with
  | receive bytes last checksum errors special =>
    simp only [cardMove, Option.ite_none_right_eq_some] at he
    obtain ⟨⟨-, -, hlen⟩, -⟩ := he
    rw [h.reg.size] at hlen
    have hi := h.ranges.rdh
    obtain ⟨hhead, hbuf⟩ := h.rxHead
    rw [Uses, hhead, hbuf] at ha
    simp only [rxDesc, rxBuffers, numDesc, bufferSize] at *
    left
    omega
  | transmit =>
    have hi := h.ranges.tdh
    have hle := (h.ranges.tx _ hi).2
    obtain ⟨hhead, hbuf, hlen⟩ := h.txHead
    rw [Uses, hhead, hbuf, hlen] at ha
    simp only [txDesc, txBuffers, numDesc, bufferSize] at *
    right
    omega

/-- **A byte that the card does not use** is as it was. -/
theorem cardMove_unused {e : Move} (he : cardMove e c = some c') {a : ℕ} (ha : ¬ Uses c a e) : c'.mem a = c.mem a := by
  cases e with
  | receive bytes last checksum errors special =>
    simp only [cardMove, Option.ite_none_right_eq_some] at he
    obtain ⟨-, he⟩ := he
    obtain rfl := Option.some.inj he
    rw [Uses] at ha
    exact (fill_outside _ _ _ _ _ _ (by omega)).trans (store_outside _ _ _ (by omega))
  | transmit =>
    simp only [cardMove, Option.ite_none_right_eq_some] at he
    obtain ⟨-, he⟩ := he
    obtain rfl := Option.some.inj he
    rw [Uses] at ha
    show (if _ then Function.update c.mem (c.txHead + 12) _ else c.mem) a = c.mem a
    split_ifs with hrs
    · exact Function.update_of_ne (by omega) ..
    · rfl

/-- Outside the context, memory is as it was. -/
def Outside (b : ℕ) (f₀ f : ℕ → UInt8) : Prop := ∀ a, a < b ∨ b + ctxSize ≤ a → f a = f₀ a

/-- An access within the rings writes nothing outside the context. -/
theorem exec_outside {f₀ : ℕ → UInt8} {o : Op} (ho : Within o s) (h : Outside b f₀ c.mem) :
    Outside b f₀ (byteExec ((lowering b).op o) c).2.mem := by
  intro a ha
  refine Eq.trans ?_ (h a ha)
  simp only [ctxSize] at ha
  cases o with
  | readRxStatus | readRxLength | readRx | writeRdt | readTxStatus | writeTdt => rfl
  | writeRxStatus i v =>
    simp only [Within, numDesc] at ho
    exact Function.update_of_ne (by simp only [rxDesc]; omega) ..
  | writeTx k v =>
    simp only [Within, numDesc, bufferSize] at ho
    exact Function.update_of_ne (by simp only [txBuffers]; omega) ..
  | writeTxLength i n =>
    simp only [Within, numDesc] at ho
    exact setNat_outside _ _ (by simp only [txDesc]; omega)
  | writeTxCmd i v =>
    simp only [Within, numDesc] at ho
    exact Function.update_of_ne (by simp only [txDesc]; omega) ..
  | writeTxStatus i v =>
    simp only [Within, numDesc] at ho
    exact Function.update_of_ne (by simp only [txDesc]; omega) ..

/-- **And nothing else.** -/
theorem simulates_outside (b : ℕ) (f₀ : ℕ → UInt8) :
    (lowering b).Simulates (card b) nic (fun c s => Shows b c s ∧ Outside b f₀ c.mem) Within where
  body _ _ := rfl
  exec o c s h ho := by
    obtain ⟨hans, hshows⟩ := h.1.exec ho
    exact ⟨hans, hshows, exec_outside ho h.2⟩
  env e c c' s h he := by
    obtain ⟨e', s', hs', hshows⟩ := (simulates b).env e c c' s h.1 he
    refine ⟨e', s', hs', hshows, fun a ha => ?_⟩
    have hunused : ¬ Uses c a e := by
      intro huses
      have hconfined := h.1.confined he huses
      simp only [Confined, ctxSize] at hconfined ha
      omega
    exact (cardMove_unused he hunused).trans (h.2 a ha)

end Simulation

end Bytes

end Yasouos.Drivers.E1000
