import Yasouos.Drivers.E1000Dma

/-!
# Setting up the E1000

`e1000_init_context` writes the descriptors one by one and tells the card where they are. If the card were
enabled before all of that is done, it would follow addresses that are not there yet.

## What is proved

`initContext_shows`: on a fresh card, no access is made while the card can move, and in the end the
context shows the rings as the driver sets them up. With the simulation, `initContext_refines`: every run
from there on bytes and registers is one of `nic`, with the same results and the same packets on the wire,
in which the card uses only the rings and the buffers and nothing outside the context is written.
-/

namespace Yasouos.Drivers.E1000.Bytes

open Theory Prog

variable {b m n : ℕ} {f₀ f f' : ℕ → UInt8} {R : ℕ → UInt32} {c : Card}

/-! ### The context, as it is written -/

/-- The first `m` receive descriptors and the first `n` transmit descriptors have been written, and the rest of the
context is zero. -/
structure Written (b : ℕ) (f₀ : ℕ → UInt8) (m n : ℕ) (f : ℕ → UInt8) : Prop where
  rx : ∀ i < m, ShowsRx f (rxDesc b i) (rxBuffers b) (initMem.rxDescs i)
  tx : ∀ i < n, ShowsTx f (txDesc b i) (txBuffers b) (initMem.txDescs i)
  rest : ∀ a, rxDesc b m ≤ a ∧ a < txDesc b 0 ∨ txDesc b n ≤ a ∧ a < b + 33056 → f a = 0
  outside : Outside b f₀ f

/-- Zero has nothing written. -/
theorem Written.zero (h : ∀ a, b ≤ a → a < b + ctxSize → f a = 0) : Written b f 0 0 f where
  rx i hi := absurd hi (Nat.not_lt_zero i)
  tx i hi := absurd hi (Nat.not_lt_zero i)
  rest a ha := h a (by simp only [rxDesc, txDesc] at ha; omega) (by simp only [rxDesc, txDesc, ctxSize] at *; omega)
  outside _ _ := rfl

/-- One more receive descriptor is written. -/
theorem Written.rx_succ (h : Written b f₀ m n f) (hm : m < numDesc)
    (hf : ∀ a, a < rxDesc b m ∨ rxDesc b m + 16 ≤ a → f' a = f a)
    (hx : ShowsRx f' (rxDesc b m) (rxBuffers b) (initMem.rxDescs m)) : Written b f₀ (m + 1) n f' where
  rx i hi := by
    rcases Nat.lt_succ_iff_lt_or_eq.mp hi with hlt | rfl
    · refine (h.rx i hlt).congr fun a hlo hhi => hf a (.inl ?_)
      simp only [rxDesc] at *
      omega
    · exact hx
  tx i hi := (h.tx i hi).congr fun a hlo _ => hf a (.inr (by simp only [rxDesc, txDesc, numDesc] at *; omega))
  rest a ha := by
    simp only [rxDesc, txDesc, numDesc] at *
    exact (hf a (by omega)).trans (h.rest a (by simp only [rxDesc, txDesc]; omega))
  outside a ha := (hf a (by simp only [rxDesc, numDesc, ctxSize] at *; omega)).trans (h.outside a ha)

/-- One more transmit descriptor is written. -/
theorem Written.tx_succ (h : Written b f₀ m n f) (hm : m ≤ numDesc) (hn : n < numDesc)
    (hf : ∀ a, a < txDesc b n ∨ txDesc b n + 16 ≤ a → f' a = f a)
    (hx : ShowsTx f' (txDesc b n) (txBuffers b) (initMem.txDescs n)) : Written b f₀ m (n + 1) f' where
  rx i hi := (h.rx i hi).congr fun a _ hhi => hf a (.inl (by simp only [rxDesc, txDesc, numDesc] at *; omega))
  tx i hi := by
    rcases Nat.lt_succ_iff_lt_or_eq.mp hi with hlt | rfl
    · refine (h.tx i hlt).congr fun a hlo hhi => hf a (.inl ?_)
      simp only [txDesc] at *
      omega
    · exact hx
  rest a ha := by
    simp only [rxDesc, txDesc] at *
    exact (hf a (by omega)).trans (h.rest a (by simp only [rxDesc, txDesc]; omega))
  outside a ha := (hf a (by simp only [txDesc, numDesc, ctxSize] at *; omega)).trans (h.outside a ha)

/-- All of them are, and the context holds the rings as the driver sets them up. -/
theorem Written.showsMem (h : Written b f₀ numDesc numDesc f) : ShowsMem b f initMem where
  rxDescs := h.rx
  txDescs := h.tx
  rxBuffers j hj := h.rest _ (.inl (by simp only [rxDesc, txDesc, rxBuffers, numDesc, bufferSize] at *; omega))
  txBuffers j hj := h.rest _ (.inr (by simp only [txDesc, txBuffers, numDesc, bufferSize] at *; omega))

/-- The bytes of the length are zero before the descriptor is written. -/
theorem getNat_of_zero {a k : ℕ} (h : ∀ i < k, f (a + i) = 0) : getNat f a k = 0 :=
  (getNat_congr h).trans (getNat_zero a k)

/-- Writing receive descriptor `m`. -/
theorem Written.write_rx (h : Written b f₀ m n f) (hm : m < numDesc) (hb : b + ctxSize ≤ 2 ^ 64) :
    Written b f₀ (m + 1) n
      (Function.update (setNat f (rxDesc b m) 8 (rxBuffers b + m * bufferSize)) (rxDesc b m + 12) 0) := by
  have haddr : rxBuffers b + m * bufferSize < 256 ^ 8 := by
    simp only [rxBuffers, numDesc, bufferSize, ctxSize] at *
    omega
  refine h.rx_succ hm (fun a ha => ?_) ⟨?_, ?_, Function.update_self ..⟩
  · rw [Function.update_of_ne (by omega), setNat_outside _ _ (by omega)]
  · exact (getNat_congr fun i hi => Function.update_of_ne (by omega) ..).trans (getNat_setNat f _ haddr)
  · refine getNat_of_zero fun i hi => ?_
    rw [Function.update_of_ne (by omega), setNat_outside _ _ (by omega)]
    refine h.rest _ (.inl ?_)
    simp only [rxDesc, txDesc, numDesc] at *
    omega

/-- Writing transmit descriptor `n`. -/
theorem Written.write_tx (h : Written b f₀ m n f) (hm : m ≤ numDesc) (hn : n < numDesc) (hb : b + ctxSize ≤ 2 ^ 64) :
    Written b f₀ m (n + 1)
      (Function.update (Function.update (setNat f (txDesc b n) 8 (txBuffers b + n * bufferSize)) (txDesc b n + 12) statDD)
        (txDesc b n + 11) 0) := by
  have haddr : txBuffers b + n * bufferSize < 256 ^ 8 := by
    simp only [txBuffers, numDesc, bufferSize, ctxSize] at *
    omega
  refine h.tx_succ hm hn (fun a ha => ?_) ⟨?_, ?_, Function.update_self .., ?_⟩
  · rw [Function.update_of_ne (by omega), Function.update_of_ne (by omega), setNat_outside _ _ (by omega)]
  · refine (getNat_congr fun i hi => ?_).trans (getNat_setNat f (txDesc b n) haddr)
    rw [Function.update_of_ne (by omega), Function.update_of_ne (by omega)]
    rfl
  · refine getNat_of_zero fun i hi => ?_
    rw [Function.update_of_ne (by omega), Function.update_of_ne (by omega), setNat_outside _ _ (by omega)]
    refine h.rest _ (.inr ?_)
    simp only [txDesc, numDesc] at *
    omega
  · rw [Function.update_of_ne (by omega), Function.update_self]
    rfl

/-! ### The card, as it is set up -/

/-- The card can make no move. -/
def Halted (c : Card) : Prop := ∀ e, cardMove e c = none

/-- The registers are such that the card makes no move. -/
def Still (R : ℕ → UInt32) : Prop := R rctlReg &&& 2 = 0 ∧ (R tctlReg &&& 2 = 0 ∨ R tdhReg = R tdtReg)

/-- Both halves of the card are off. -/
def Off (R : ℕ → UInt32) : Prop := R rctlReg &&& 2 = 0 ∧ R tctlReg &&& 2 = 0

theorem Off.still (h : Off R) : Still R := ⟨h.1, .inl h.2⟩

theorem Off.update (h : Off R) {r : ℕ} (v : UInt32) (hr : r ∉ [rctlReg, tctlReg]) : Off (Function.update R r v) := by
  have hrctl : rctlReg ≠ r := fun heq => hr (by simp [heq])
  have htctl : tctlReg ≠ r := fun heq => hr (by simp [heq])
  exact ⟨by rw [Function.update_of_ne hrctl]; exact h.1, by rw [Function.update_of_ne htctl]; exact h.2⟩

/-- The card is being set up, and its registers are `R`. -/
structure Setting (b : ℕ) (f₀ : ℕ → UInt8) (R : ℕ → UInt32) (m n : ℕ) (c : Card) : Prop where
  reg : c.reg = R
  pending : c.pending = []
  sent : c.sent = []
  written : Written b f₀ m n c.mem

theorem Still.halted (h : Still c.reg) : Halted c := by
  rintro (⟨bytes, last, checksum, errors, special⟩ | _)
  · exact if_neg fun hgo => hgo.1 h.1
  · refine if_neg fun hgo => ?_
    rcases h.2 with hoff | heq
    · exact hgo.1 hoff
    · exact hgo.2 (congrArg UInt32.toNat heq)

/-- A card that makes no move stays as it is. -/
theorem Still.stable_eq (h : Still c.reg) : (card b).toMachine.Stable (· = c) := by
  rintro e _ c' rfl he
  exact absurd ((h.halted e).symm.trans he) (by simp)

theorem Setting.stable (hR : Still R) : (card b).toMachine.Stable (Setting b f₀ R m n) := by
  intro e c c' h he
  exact absurd ((Still.halted (h.reg ▸ hR) e).symm.trans he) (by simp)

theorem Setting.setReg (h : Setting b f₀ R m n c) (r : ℕ) (v : UInt32) :
    Setting b f₀ (Function.update R r v) m n (c.setReg r v) :=
  ⟨congrArg (fun f : ℕ → UInt32 => Function.update f r v) h.reg, h.pending, h.sent, h.written⟩

section Rules

variable {α : Type} {A : ByteOp → Card → Prop} {Q : α → Card → Prop}

/-- An access that the card does not interfere with. -/
theorem op_still (hR : Still c.reg) {o : ByteOp} {k : ByteAns o → ByteDrv α}
    (hk : (k (byteExec o c).1).Safe (card b).toMachine A (fun _ => Halted) Q (byteExec o c).2) :
    (op o k).Safe (card b).toMachine A (fun _ => Halted) Q c := by
  refine Safe.op_of_stable hR.stable_eq rfl ?_
  rintro _ rfl
  exact ⟨hR.halted, fun _ => hk⟩

theorem regWrite_bind (hR : Still R) (h : Setting b f₀ R m n c) {r : ℕ} {v : UInt32} {k : Unit → ByteDrv α}
    (hk : ∀ c', Setting b f₀ (Function.update R r v) m n c' → (k ()).Safe (card b).toMachine A (fun _ => Halted) Q c') :
    (regWrite r v >>= k).Safe (card b).toMachine A (fun _ => Halted) Q c :=
  op_still (h.reg ▸ hR) (hk _ (h.setReg r v))

/-- Reading a register, other than the one that reading clears. -/
theorem regRead_bind (hR : Still R) (h : Setting b f₀ R m n c) {r : ℕ} (hr : r ≠ icrReg) {k : UInt32 → ByteDrv α}
    (hk : (k (R r)).Safe (card b).toMachine A (fun _ => Halted) Q c) :
    (regRead r >>= k).Safe (card b).toMachine A (fun _ => Halted) Q c := by
  refine op_still (h.reg ▸ hR) ?_
  show (k (c.reg r)).Safe _ _ _ _ (if r = icrReg then c.setReg icrReg 0 else c)
  rwa [if_neg hr, h.reg]

theorem regClear_bind (hR : Still R) (h : Setting b f₀ R m n c) {k : UInt32 → ByteDrv α}
    (hk : ∀ v c', Setting b f₀ (Function.update R icrReg 0) m n c' →
      (k v).Safe (card b).toMachine A (fun _ => Halted) Q c') :
    (regRead icrReg >>= k).Safe (card b).toMachine A (fun _ => Halted) Q c :=
  op_still (h.reg ▸ hR) (hk _ _ (h.setReg icrReg 0))

/-- Writing a register that leaves both halves off. -/
theorem regWrite_off (hoff : Off R) (h : Setting b f₀ R m n c) {r : ℕ} {v : UInt32} (hr : r ∉ [rctlReg, tctlReg])
    {k : Unit → ByteDrv α}
    (hk : ∀ c', Off (Function.update R r v) → Setting b f₀ (Function.update R r v) m n c' →
      (k ()).Safe (card b).toMachine A (fun _ => Halted) Q c') :
    (regWrite r v >>= k).Safe (card b).toMachine A (fun _ => Halted) Q c :=
  regWrite_bind hoff.still h fun c' h' => hk c' (hoff.update v hr) h'

/-- One round of the first loop. -/
theorem write_rx (hR : Still R) (h : Setting b f₀ R m n c) (hm : m < numDesc) (hb : b + ctxSize ≤ 2 ^ 64) :
    (do write64 (rxDesc b m) (rxBuffers b + m * bufferSize); write8 (rxDesc b m + 12) 0 : ByteDrv Unit).Safe
      (card b).toMachine A (fun _ => Halted) (fun _ => Setting b f₀ R (m + 1) n) c := by
  have hreg : Still c.reg := h.reg ▸ hR
  refine op_still hreg (op_still ?_ ?_)
  · exact hreg
  exact Safe.ret_of_stable (Setting.stable hR) ⟨h.reg, h.pending, h.sent, h.written.write_rx hm hb⟩ fun _ h => h

/-- One round of the second. -/
theorem write_tx (hR : Still R) (h : Setting b f₀ R m n c) (hm : m ≤ numDesc) (hn : n < numDesc)
    (hb : b + ctxSize ≤ 2 ^ 64) :
    (do
      write64 (txDesc b n) (txBuffers b + n * bufferSize)
      write8 (txDesc b n + 12) statDD
      write8 (txDesc b n + 11) 0 : ByteDrv Unit).Safe
      (card b).toMachine A (fun _ => Halted) (fun _ => Setting b f₀ R m (n + 1)) c := by
  have hreg : Still c.reg := h.reg ▸ hR
  refine op_still hreg (op_still ?_ (op_still ?_ ?_))
  · exact hreg
  · exact hreg
  exact Safe.ret_of_stable (Setting.stable hR) ⟨h.reg, h.pending, h.sent, h.written.write_tx hm hn hb⟩ fun _ h => h

end Rules

/-! ### The driver sets it up -/

/-- The address in `RAL` and `RAH`, byte by byte. -/
def macAddr (mmioBase : ℕ) (R : ℕ → UInt32) : List UInt8 :=
  if mmioBase = 0 then List.replicate 6 0 else leBytes 4 (R ralReg).toNat ++ leBytes 2 (R rahReg).toNat

theorem leBytes_four (v : UInt32) :
    leBytes 4 v.toNat = [v.toUInt8, (v >>> 8).toUInt8, (v >>> 16).toUInt8, (v >>> 24).toUInt8] := by
  simp [leBytes, ← UInt8.toNat_inj, Nat.shiftRight_eq_div_pow, Nat.div_div_eq_div_mul]

theorem leBytes_two (v : UInt32) : leBytes 2 v.toNat = [v.toUInt8, (v >>> 8).toUInt8] := by
  simp [leBytes, ← UInt8.toNat_inj, Nat.shiftRight_eq_div_pow]

/-- The two halves of an address that is a multiple of 16. -/
theorem address_halves {x : ℕ} (h16 : 16 ∣ x) (hx : x < 2 ^ 64) :
    (UInt32.ofNat x).toNat / 16 * 16 + 2 ^ 32 * (UInt32.ofNat (x / 2 ^ 32)).toNat = x := by
  rw [UInt32.toNat_ofNat', UInt32.toNat_ofNat']
  omega

/-- A card that is not in use, and a context that is not. -/
structure Fresh (b : ℕ) (c : Card) : Prop where
  off : Off c.reg
  pending : c.pending = []
  sent : c.sent = []
  zero : ∀ a, b ≤ a → a < b + ctxSize → c.mem a = 0

section Init

variable {α : Type} {A : ByteOp → Card → Prop} {Q : α → Card → Prop}

theorem readMac_bind (hR : Still R) (h : Setting b f₀ R m n c) (mmioBase : ℕ) {k : List UInt8 → ByteDrv α}
    (hk : (k (macAddr mmioBase R)).Safe (card b).toMachine A (fun _ => Halted) Q c) :
    (readMacAddress mmioBase >>= k).Safe (card b).toMachine A (fun _ => Halted) Q c := by
  refine Safe.bind ?_
  unfold readMacAddress
  by_cases hbase : mmioBase = 0
  · rw [macAddr, if_pos hbase] at hk
    rw [if_pos hbase]
    exact Safe.ret_of_stable (Still.stable_eq (h.reg ▸ hR)) rfl fun _ heq => heq ▸ hk
  · rw [macAddr, if_neg hbase, leBytes_four, leBytes_two] at hk
    rw [if_neg hbase]
    refine regRead_bind hR h (by decide) (regRead_bind hR h (by decide) ?_)
    exact Safe.ret_of_stable (Still.stable_eq (h.reg ▸ hR)) rfl fun _ heq => heq ▸ hk

/-- **`e1000_init_context`** sets up the rings, and the card comes to know them when it does. -/
theorem initContext_shows (mmioBase : ℕ) (h16 : 16 ∣ b) (hb : b + ctxSize ≤ 2 ^ 64) (hc : Fresh b c) :
    (initContext mmioBase b).Safe (card b).toMachine A (fun _ => Halted)
      (fun r c' => r = (initCtx, macAddr mmioBase c.reg) ∧
        ∃ s, nic.EnvReach initMem s ∧ Shows b c' s ∧ Outside b c.mem c'.mem) c := by
  have h₀ : Setting b c.mem c.reg 0 0 c := ⟨rfl, hc.pending, hc.sent, .zero hc.zero⟩
  refine regRead_bind hc.off.still h₀ (by decide) (regWrite_off hc.off h₀ (by decide) fun c₁ hoff₁ h₁ => ?_)
  refine readMac_bind hoff₁.still h₁ mmioBase (Safe.bind ?_)
  refine (Safe.forM (B := fun i => Setting b _ _ i 0) (fun _ => Setting.stable hoff₁.still)
    (fun i hi _ h => write_rx hoff₁.still h hi hb) h₁).mono fun _ c₂ h₂ => ?_
  refine regWrite_off hoff₁ h₂ (by decide) fun c₃ hoff₃ h₃ => ?_
  refine regWrite_off hoff₃ h₃ (by decide) fun c₄ hoff₄ h₄ => ?_
  refine regWrite_off hoff₄ h₄ (by decide) fun c₅ hoff₅ h₅ => ?_
  refine regWrite_off hoff₅ h₅ (by decide) fun c₆ hoff₆ h₆ => ?_
  refine regWrite_off hoff₆ h₆ (by decide) fun c₇ hoff₇ h₇ => ?_
  refine regClear_bind hoff₇.still h₇ fun _ c₈ h₈ => ?_
  have hoff₈ := hoff₇.update (r := icrReg) 0 (by decide)
  refine regWrite_off hoff₈ h₈ (by decide) fun c₉ hoff₉ h₉ => Safe.bind ?_
  refine (Safe.forM (B := fun i => Setting b _ _ numDesc i) (fun _ => Setting.stable hoff₉.still)
    (fun i hi _ h => write_tx hoff₉.still h (Nat.le_refl _) hi hb) h₉).mono fun _ c₁₀ h₁₀ => ?_
  refine regWrite_off hoff₉ h₁₀ (by decide) fun c₁₁ hoff₁₁ h₁₁ => ?_
  refine regWrite_off hoff₁₁ h₁₁ (by decide) fun c₁₂ hoff₁₂ h₁₂ => ?_
  refine regWrite_off hoff₁₂ h₁₂ (by decide) fun c₁₃ hoff₁₃ h₁₃ => ?_
  refine regWrite_off hoff₁₃ h₁₃ (by decide) fun c₁₄ hoff₁₄ h₁₄ => ?_
  refine regWrite_off hoff₁₄ h₁₄ (by decide) fun c₁₅ hoff₁₅ h₁₅ => ?_
  -- the transmitter has nothing to send yet, and the receiver is off
  refine regWrite_bind hoff₁₅.still h₁₅ fun c₁₆ h₁₆ => regWrite_bind ⟨?_, .inr ?_⟩ h₁₆ fun c₁₇ h₁₇ => ?_
  · rw [Function.update_of_ne (by decide)]
    exact hoff₁₅.1
  · rfl
  have hlow : rxDesc b 0 < 2 ^ 64 ∧ txDesc b 0 < 2 ^ 64 := by
    simp only [rxDesc, txDesc, ctxSize] at *
    omega
  have hdvd : 16 ∣ rxDesc b 0 ∧ 16 ∣ txDesc b 0 := by
    simp only [rxDesc, txDesc]
    omega
  have hreg : ShowsReg b c₁₇ initMem := by
    constructor <;> simp only [Card.receiveSize, Card.table, Card.num, h₁₇.reg]
    · rw [Function.update_self]
      decide
    · rw [Function.update_self]
      decide
    · exact address_halves hdvd.1 hlow.1
    · rfl
    · rfl
    · rfl
    · rw [Function.update_of_ne (by decide), Function.update_self]
      decide
    · exact address_halves hdvd.2 hlow.2
    · rfl
    · rfl
    · rfl
  have hranges : Ranges initMem := sound_init.atTx.1
  have hshows : Shows b c₁₇ initMem := ⟨h₁₇.written.showsMem, hreg, h₁₇.sent, h₁₇.pending, hranges⟩
  refine Safe.ret_of_stable (B := fun c' => ∃ s, nic.EnvReach initMem s ∧ Shows b c' s ∧ Outside b c.mem c'.mem) ?_
    ⟨_, .refl, hshows, h₁₇.written.outside⟩ ?_
  · rintro e c c' ⟨s, hs, h⟩ he
    obtain ⟨e', s', hs', h'⟩ := (simulates_outside b _).env e _ _ s h he
    exact ⟨s', hs.tail ⟨e', hs'⟩, h'⟩
  · intro c' h'
    exact ⟨rfl, h'⟩

end Init

/-- **What a run on bytes is.** It is one on the rings, with the same calls, the same results and the same packets on
the wire; the card uses nothing but the rings and the buffers, and outside the context nothing is written. -/
structure Refined (b : ℕ) (f₀ : ℕ → UInt8) (d : Cfg ByteOp ByteAns Card Call Ctx Ret) : Prop where
  rings : ∃ es' d', nic.run start es' = some d' ∧ d'.priv = d.priv ∧ d'.log = d.log ∧ d'.shared.sent = d.shared.sent
  confined : ∀ e c', cardMove e d.shared = some c' → ∀ a, Uses d.shared a e → Confined b a
  outside : ∀ a, a < b ∨ b + ctxSize ≤ a → d.shared.mem a = f₀ a

/-- Every run from a card that shows the rings is so. -/
theorem Shows.refined {f₀ : ℕ → UInt8} {s : Mem} (hs : nic.EnvReach initMem s) (h : Shows b c s) (hout : Outside b f₀ c.mem)
    {es : List (Event Call Move)} {d : Cfg ByteOp ByteAns Card Call Ctx Ret}
    (hrun : (card b).run (.start initCtx c) es = some d) : Refined b f₀ d := by
  have hsound : Sound initCtx s := (Sound.stable initCtx).reach hs sound_init
  have hmatch : (lowering b).Matches (fun c s => Shows b c s ∧ Outside b f₀ c.mem)
      (Cfg.start initCtx c : Cfg ByteOp ByteAns Card Call Ctx Ret) (Cfg.start initCtx s) :=
    ⟨rfl, rfl, ⟨h, hout⟩, rfl⟩
  obtain ⟨es₂, d', hrun₂, hd⟩ := (simulates_outside b f₀).exists_run (I := fun _ => Sound) (fun _ => Sound.stable)
    call_within (System.Good.start hsound) hmatch hrun
  obtain ⟨es₁, hrun₁⟩ := System.run_of_envReach (S := nic) (p := initCtx) hs
  refine ⟨⟨es₁ ++ es₂, d', ?_, hd.priv.symm, hd.log.symm, hd.shared.1.sent.symm⟩, fun e c' he a => hd.shared.1.confined he,
    hd.shared.2⟩
  rw [System.run_append, start, hrun₁]
  exact hrun₂

/-- **The card serves the rings, and touches nothing else.** While `e1000_init_context` sets up a fresh card, the card
makes no move at any access; and when it returns, every run from there is one on the rings. -/
theorem initContext_refines (mmioBase b : ℕ) (h16 : 16 ∣ b) (hb : b + ctxSize ≤ 2 ^ 64) (c : Card) (hc : Fresh b c) :
    (initContext mmioBase b).Safe (card b).toMachine (fun _ _ => True) (fun _ => Halted)
      (fun r c' => r = (initCtx, macAddr mmioBase c.reg) ∧
        ∀ es d, (card b).run (.start r.1 c') es = some d → Refined b c.mem d) c := by
  refine (initContext_shows mmioBase h16 hb hc).mono ?_
  rintro _ c' ⟨rfl, s, hs, hshows, hout⟩
  exact ⟨rfl, fun _ _ hrun => hshows.refined hs hout hrun⟩

/-- A card whose address is `52:54:00:12:34:56`, and nothing in memory. -/
def freshCard : Card where
  mem _ := 0
  reg := Function.update (Function.update (fun _ => 0) ralReg 0x12005452) rahReg 0x80005634
  pending := []
  sent := []

theorem initContext_refines_freshCard :
    Fresh 0x10000 freshCard ∧ macAddr 1 freshCard.reg = [0x52, 0x54, 0x00, 0x12, 0x34, 0x56] ∧
      (initContext 1 0x10000).Safe (card 0x10000).toMachine (fun _ _ => True) (fun _ => Halted)
        (fun r c' => r = (initCtx, macAddr 1 freshCard.reg) ∧
          ∀ es d, (card 0x10000).run (.start r.1 c') es = some d → Refined 0x10000 freshCard.mem d) freshCard := by
  have hfresh : Fresh 0x10000 freshCard := ⟨⟨by decide, by decide⟩, rfl, rfl, fun _ _ _ => rfl⟩
  exact ⟨hfresh, by decide, initContext_refines 1 0x10000 (by decide) (by decide) freshCard hfresh⟩

end Yasouos.Drivers.E1000.Bytes
