import Yasouos.Drivers.VirtioInit
import Yasouos.Theory.Protocol

/-!
# How the virtio drivers speak to their devices

A virtio device is set up in a fixed order: reset, acknowledged, its features negotiated, its queues given
to it, and told that the driver is ready; and it may be notified only after that. A driver's context goes
through this again and again, with one device or another, and between it is used and given up.

## The model

`Stage` is what has been said to a device since its last reset, and `handshake` which accesses to its
registers may come next: this is what the device expects, and not taken from the drivers. The drivers are
`virtio_net` and `virtio_rng`, with any number of contexts and devices: contexts are initialised, used and
deinitialised in any order (`life`). A device may answer anything, and the memory that is shared with it may
change at any time; the fields of a context that are not the device and the `initialized` flag are left open,
so a call takes them as an argument.

`Careful` are the users of the drivers: a device is initialised for a context only if no other context is live
on it, and the random number driver is given only contexts that are not live.

## What is proved

`life_obeys`: no driver ever makes an access that may not come next; and whenever no call is running, each live
context is on a device that has confirmed its queues and that the driver is ready.
-/

namespace Yasouos.Drivers.VirtioHandshake

open Theory Prog VirtioInit
open VirtioNet (Arch Transport)
open Kernel (Device)

/-! ### What a device expects -/

/-- What has been said to a device since it was last reset, and what it has answered. -/
structure Stage where
  /-- The last value written to `STATUS`. -/
  status : ℕ
  /-- What has been read from `STATUS` since, or 0. -/
  answered : ℕ
  /-- The features that the device has offered. -/
  offered : Option ℕ
  /-- The driver's features have been written. -/
  accepted : Bool
  /-- The queue that is selected. -/
  sel : Option ℕ
  /-- The largest size of this queue, or 0 if it has not been read. -/
  room : ℕ
  /-- The pages of the queues that have been given. -/
  given : ℕ → Option ℕ
  /-- The queues whose pages have been read back. -/
  confirmed : ℕ → Bool

/-- A device that has just been reset. -/
def Stage.reset : Stage := ⟨0, 0, none, false, none, 0, fun _ => none, fun _ => false⟩

/-- `VIRTIO_NET_QUEUE_SIZE` and `VIRTIO_RNG_QUEUE_SIZE`. -/
def queueSize : Virtio → ℕ
  | .net => VirtioNet.queueSize
  | .rng => VirtioRng.queueSize

/-- How many queues the driver has. -/
def queues : Virtio → ℕ
  | .net => 2
  | .rng => 1

/-- The features are negotiated, and the device has confirmed this where it has been asked to. -/
def Stage.Configuring (s : Stage) : Prop :=
  s.accepted = true ∧ (s.status = statusAcknowledge ||| statusDriver ∨
    s.status = statusAcknowledge ||| statusDriver ||| statusFeaturesOk ∧ s.answered &&& statusFeaturesOk ≠ 0)

/-- The driver has told the device that it is ready, with all its queues, and the device has confirmed this. -/
def Stage.Live (v : Virtio) (s : Stage) : Prop :=
  (∃ tr, s.status = lastStatus tr) ∧ s.answered &&& statusDriverOk ≠ 0 ∧ ∀ q < queues v, s.confirmed q = true

/-- The values of `STATUS`, one after the other. The device may be reset, or told that the driver has given up, at
any time. -/
inductive Stage.StatusMay (v : Virtio) (s : Stage) : ℕ → Prop where
  | reset : StatusMay v s 0
  | failed : StatusMay v s statusFailed
  | acknowledge : s.status = 0 → StatusMay v s statusAcknowledge
  | driver : s.status = statusAcknowledge → StatusMay v s (statusAcknowledge ||| statusDriver)
  | featuresOk : s.status = statusAcknowledge ||| statusDriver → s.accepted = true →
      StatusMay v s (statusAcknowledge ||| statusDriver ||| statusFeaturesOk)
  | driverOk (tr : Transport) : s.Configuring → (∀ q < queues v, s.confirmed q = true) → StatusMay v s (lastStatus tr)

/-- The accesses that a device expects from a driver. A register may always be read. -/
def Stage.May (v : Virtio) (s : Stage) : VirtioInit.Op → Prop
  | .read _ => True
  | .write .status x => s.StatusMay v x
  | .write .driverFeatures x =>
    s.status = statusAcknowledge ||| statusDriver ∧ s.accepted = false ∧ ∃ f, s.offered = some f ∧ x &&& f = x
  | .write .guestPageSize _ => s.Configuring ∧ ∀ q, s.given q = none
  | .write .queueSel q => s.Configuring ∧ q < queues v
  | .write .queueNum n => s.Configuring ∧ n ≤ s.room
  | .write .queueAlign _ => s.Configuring ∧ s.sel.isSome
  | .write .queuePfn _ => s.Configuring ∧ ∃ q, s.sel = some q ∧ s.given q = none ∧ queueSize v ≤ s.room
  | .write .queueNotify q => s.Live v ∧ q < queues v
  | .write _ _ => False

/-- A page has been read back for the selected queue. -/
def Stage.readBack (s : Stage) (x : ℕ) : Stage :=
  match s.sel with
  | none => s
  | some q => { s with confirmed := Function.update s.confirmed q (decide (s.given q = some x)) }

/-- A page has been given for the selected queue. -/
def Stage.give (s : Stage) (page : ℕ) : Stage :=
  match s.sel with
  | none => s
  | some q =>
    { s with given := Function.update s.given q (some page), confirmed := Function.update s.confirmed q false }

/-- What an answer tells the driver: registers are 8, 16 or 32 bits wide. -/
def Stage.read (s : Stage) (r : Reg) (x : ℕ) : Stage :=
  match r with
  | .status => { s with answered := x % 2 ^ 8 }
  | .deviceFeatures => { s with offered := some (x % 2 ^ 32) }
  | .queueNum => { s with room := x % 2 ^ 16 }
  | .queueNumMax => { s with room := x % 2 ^ 32 }
  | .queuePfn => s.readBack (x % 2 ^ 32)
  | _ => s

/-- What a value tells the device. -/
def Stage.write (s : Stage) (r : Reg) (x : ℕ) : Stage :=
  match r with
  | .status => if x = 0 then .reset else { s with status := x, answered := 0 }
  | .driverFeatures => { s with accepted := true }
  | .queueSel => { s with sel := some x, room := 0 }
  | .queuePfn => s.give x
  | _ => s

/-- What an access and its answer make of the conversation. -/
def Stage.after (s : Stage) : (o : VirtioInit.Op) → VirtioInit.Ans o → Stage
  | .read r, x => s.read r x
  | .write r x, _ => s.write r x

/-- **The handshake** of a driver with a device. -/
def handshake (v : Virtio) : Protocol VirtioInit.Op VirtioInit.Ans Stage := ⟨Stage.May v, Stage.after⟩

/-- The device is live, with these pages. -/
def Stage.LiveOn (v : Virtio) (pfn : ℕ → ℕ) (s : Stage) : Prop :=
  s.Live v ∧ ∀ q < queues v, s.given q = some (pfn q)

/-! ### Initialisation keeps to it -/

section Init

variable {α : Type} {v : Virtio} {R : α → Stage → Prop} {s : Stage} {pfn : ℕ → ℕ} {tr : Transport}

@[simp] theorem obeys_write {r : Reg} {x : ℕ} {f : Unit → VirtioInit.Drv α} :
    (write r x >>= f).Obeys (handshake v) R s ↔ s.May v (.write r x) ∧ (f ()).Obeys (handshake v) R (s.write r x) :=
  and_congr_right fun _ => ⟨fun h => h (), fun h _ => h⟩

@[simp] theorem obeys_readBits {bits : ℕ} {r : Reg} {f : ℕ → VirtioInit.Drv α} :
    (readBits bits r >>= f).Obeys (handshake v) R s ↔
      ∀ x : ℕ, (f (x % 2 ^ bits)).Obeys (handshake v) R (s.read r x) :=
  ⟨fun h => h.2, fun h => ⟨trivial, h⟩⟩

@[simp] theorem obeys_ret {a : α} : (Prog.ret a : VirtioInit.Drv α).Obeys (handshake v) R s ↔ R a s := Iff.rfl

/-- A driver may always give up. -/
theorem obeys_giveUp {R : ℤ → Stage → Prop} (h : ∀ s, R (-1) s) : giveUp.Obeys (handshake v) R s := by
  rw [giveUp, obeys_write]
  exact ⟨.failed, h _⟩

/-- The features have been negotiated: no queue has been given yet. -/
structure Stage.Begun (s : Stage) : Prop where
  configuring : s.Configuring
  given : ∀ q, s.given q = none

/-- The queue has been given to the device, and confirmed. -/
structure Stage.Handed (pfn : ℕ → ℕ) (q : ℕ) (s s' : Stage) : Prop where
  status : s'.status = s.status
  answered : s'.answered = s.answered
  accepted : s'.accepted = s.accepted
  given : s'.given = Function.update s.given q (some (pfn q))
  confirmed : s'.confirmed = Function.update s.confirmed q true

theorem Stage.Handed.configuring {s' : Stage} {q : ℕ} (h : s.Handed pfn q s') (hs : s.Configuring) : s'.Configuring := by
  rwa [Configuring, h.status, h.answered, h.accepted]

/-- The pages of a queue. -/
theorem obeys_queuePfn {q : ℕ} {R : ℤ → Stage → Prop} {f : ℕ → VirtioInit.Drv ℤ} (hs : s.Configuring)
    (hsel : s.sel = some q) (hgiven : s.given q = none) (hroom : queueSize v ≤ s.room)
    (hok : ∀ s', s.Handed pfn q s' → (f (pfn q)).Obeys (handshake v) R s')
    (hbad : ∀ page s', page ≠ pfn q → (f page).Obeys (handshake v) R s') :
    (do write .queuePfn (pfn q); let page ← readBits 32 .queuePfn; f page : VirtioInit.Drv ℤ).Obeys (handshake v) R s := by
  rw [obeys_write, obeys_readBits]
  refine ⟨⟨hs, q, hsel, hgiven, hroom⟩, fun x => ?_⟩
  by_cases hpage : x % 2 ^ 32 = pfn q
  · rw [hpage]
    refine hok _ ?_
    simp only [Stage.write, Stage.read, Stage.give, Stage.readBack, hsel, hpage, Function.update_self, decide_true]
    exact ⟨rfl, rfl, rfl, rfl, Function.update_idem _ _ _⟩
  · exact hbad _ _ hpage

/-- `virtio_net_init_virtqueue`. -/
theorem obeys_initVirtqueue {q : ℕ} (hq : q < 2) (hs : s.Configuring) (hgiven : s.given q = none) :
    (virtioNetInitVirtqueue pfn q tr).Obeys (handshake .net) (fun code s' => code = 0 → s.Handed pfn q s') s := by
  cases tr with
  | pci =>
    rw [virtioNetInitVirtqueue, obeys_write, obeys_readBits]
    refine ⟨⟨hs, hq⟩, fun x => ?_⟩
    split_ifs with hsize
    · exact fun h => absurd h (by decide)
    refine obeys_queuePfn hs rfl hgiven (by simp only [queueSize, Stage.read]; omega) (fun s' h => ?_) fun page s' h => ?_
    · rw [if_neg (not_not.2 rfl)]
      exact fun _ => ⟨h.1, h.2, h.3, h.4, h.5⟩
    · rw [if_pos h]
      exact fun h => absurd h (by decide)
  | mmio =>
    rw [virtioNetInitVirtqueue, obeys_write, obeys_readBits]
    refine ⟨⟨hs, hq⟩, fun x => ?_⟩
    split_ifs with hsize
    · exact fun h => absurd h (by decide)
    have hroom : VirtioNet.queueSize ≤ x % 2 ^ 32 := by omega
    rw [obeys_write, obeys_write]
    refine ⟨⟨hs, hroom⟩, ⟨hs, rfl⟩, ?_⟩
    refine obeys_queuePfn hs rfl hgiven hroom (fun s' h => ?_) fun page s' h => ?_
    · rw [if_neg (not_not.2 rfl)]
      exact fun _ => ⟨h.1, h.2, h.3, h.4, h.5⟩
    · rw [if_pos h]
      exact fun h => absurd h (by decide)

/-- `virtio_net_init_context`, up to the check of `FEATURES_OK`. -/
theorem obeys_netFeatures {f : ℕ → VirtioInit.Drv α}
    (hok : ∀ status s', status &&& statusFeaturesOk ≠ 0 → s'.Begun → (f status).Obeys (handshake .net) R s')
    (hbad : ∀ status s', status &&& statusFeaturesOk = 0 → (f status).Obeys (handshake .net) R s') :
    (netFeatures >>= f).Obeys (handshake .net) R s := by
  simp only [netFeatures, Prog.bind_assoc, obeys_write, obeys_readBits]
  refine ⟨.reset, .acknowledge rfl, .driver rfl, fun features => ⟨⟨rfl, rfl, _, rfl, Nat.zero_and _⟩, .featuresOk rfl rfl,
    fun x => ?_⟩⟩
  by_cases hstatus : x % 2 ^ 8 &&& statusFeaturesOk = 0
  · exact hbad _ _ hstatus
  · exact hok _ _ hstatus ⟨⟨rfl, .inr ⟨rfl, hstatus⟩⟩, fun _ => rfl⟩

/-- Reading registers other than those of the handshake. -/
theorem obeys_readMac {f : List ℕ → VirtioInit.Drv α} (h : ∀ mac, (f mac).Obeys (handshake v) R s) :
    (readMac >>= f).Obeys (handshake v) R s := by
  have hmac : readMac.Obeys (handshake v) (fun _ s' => s' = s) s :=
    ⟨trivial, fun _ => ⟨trivial, fun _ => ⟨trivial, fun _ => ⟨trivial, fun _ => ⟨trivial, fun _ => ⟨trivial,
      fun _ => rfl⟩⟩⟩⟩⟩⟩
  exact (hmac.mono fun mac s' hs' => hs' ▸ h mac).bind

/-- The end of `virtio_net_init_context`. -/
theorem obeys_netDriverOk (hs : s.Configuring) (hconf : ∀ q < 2, s.confirmed q = true)
    (hgiven : ∀ q < 2, s.given q = some (pfn q)) :
    (netDriverOk tr).Obeys (handshake .net) (fun code s' => code = 0 → s'.LiveOn .net pfn) s := by
  have hne : lastStatus tr ≠ 0 := by cases tr <;> decide
  rw [netDriverOk, obeys_write, obeys_readBits]
  refine ⟨.driverOk tr hs hconf, fun x => ?_⟩
  simp only [Stage.write, if_neg hne, Stage.read]
  split_ifs with hstatus hmmio
  · exact fun h => absurd h (by decide)
  · rw [obeys_write]
    have hlive : Stage.LiveOn .net pfn { s with status := lastStatus tr, answered := x % 2 ^ 8 } :=
      ⟨⟨⟨tr, rfl⟩, hstatus, hconf⟩, hgiven⟩
    exact ⟨⟨hlive.1, by decide⟩, obeys_readMac fun mac => fun _ => hlive⟩
  · exact obeys_readMac fun mac => fun _ => ⟨⟨⟨tr, rfl⟩, hstatus, hconf⟩, hgiven⟩

/-- **`virtio_net_init_context` keeps to the handshake**, and if it succeeds, the device is live. -/
theorem obeys_netInit :
    (virtioNetInitContext pfn tr).Obeys (handshake .net) (fun code s' => code = 0 → s'.LiveOn .net pfn) s := by
  have hfail : ∀ s' : Stage, (-1 : ℤ) = 0 → s'.LiveOn .net pfn := fun _ h => absurd h (by decide)
  have hqueues : ∀ s' : Stage, s'.Begun → (do
      let rx ← virtioNetInitVirtqueue pfn 0 tr
      if rx ≠ 0 then giveUp
      else
        let tx ← virtioNetInitVirtqueue pfn 1 tr
        if tx ≠ 0 then giveUp else netDriverOk tr).Obeys (handshake .net)
      (fun code s' => code = 0 → s'.LiveOn .net pfn) s' := by
    intro s₀ hbegun
    refine ((obeys_initVirtqueue (by decide) hbegun.configuring (hbegun.given 0)).mono fun rx s₁ hrx => ?_).bind
    split_ifs with h
    · exact obeys_giveUp hfail
    replace hrx := hrx (not_not.1 h)
    have hgiven : s₁.given 1 = none := by rw [hrx.given, Function.update_of_ne (by decide), hbegun.given]
    refine ((obeys_initVirtqueue (by decide) (hrx.configuring hbegun.configuring) hgiven).mono fun tx s₂ htx => ?_).bind
    split_ifs with h
    · exact obeys_giveUp hfail
    replace htx := htx (not_not.1 h)
    refine obeys_netDriverOk (htx.configuring (hrx.configuring hbegun.configuring)) (fun q hq => ?_) fun q hq => ?_
    · rw [htx.confirmed, hrx.confirmed]
      obtain rfl | rfl : q = 0 ∨ q = 1 := by omega
      · rfl
      · rfl
    · rw [htx.given, hrx.given]
      obtain rfl | rfl : q = 0 ∨ q = 1 := by omega
      · rfl
      · rfl
  rw [virtioNetInitContext]
  refine obeys_netFeatures (fun status s' hstatus hbegun => ?_) fun status s' hstatus => ?_
  · rw [if_neg hstatus]
    split_ifs
    · rw [obeys_write]
      exact ⟨⟨hbegun.configuring, hbegun.given⟩, hqueues _ hbegun⟩
    · exact hqueues _ hbegun
  · rw [if_pos hstatus]
    exact obeys_giveUp hfail

/-- `virtio_rng_init_context`, up to the queue. -/
theorem obeys_rngFeatures {f : Bool → VirtioInit.Drv α}
    (hok : ∀ s' : Stage, s'.Begun → (f true).Obeys (handshake .rng) R s')
    (hbad : ∀ s', (f false).Obeys (handshake .rng) R s') : (rngFeatures tr >>= f).Obeys (handshake .rng) R s := by
  cases tr with
  | pci =>
    simp only [rngFeatures, Prog.bind_assoc, obeys_write, obeys_readBits]
    exact ⟨.reset, .acknowledge rfl, .driver rfl, fun features => ⟨⟨rfl, rfl, _, rfl, Nat.zero_and _⟩,
      hok _ ⟨⟨rfl, .inl rfl⟩, fun _ => rfl⟩⟩⟩
  | mmio =>
    simp only [rngFeatures, Prog.bind_assoc, obeys_write, obeys_readBits]
    refine ⟨.reset, .acknowledge rfl, .driver rfl, fun features => ⟨⟨rfl, rfl, _, rfl, Nat.zero_and _⟩,
      .featuresOk rfl rfl, fun x => ?_⟩⟩
    by_cases hstatus : x % 2 ^ 8 &&& statusFeaturesOk ≠ 0
    · rw [decide_eq_true hstatus]
      exact hok _ ⟨⟨rfl, .inr ⟨rfl, hstatus⟩⟩, fun _ => rfl⟩
    · rw [decide_eq_false hstatus]
      exact hbad _

/-- The end of `virtio_rng_init_context`. -/
theorem obeys_rngDriverOk (hs : s.Configuring) (hconf : s.confirmed 0 = true) (hgiven : s.given 0 = some (pfn 0)) :
    (rngDriverOk tr).Obeys (handshake .rng) (fun code s' => code = 0 → s'.LiveOn .rng pfn) s := by
  have hne : lastStatus tr ≠ 0 := by cases tr <;> decide
  have hzero : ∀ q < queues .rng, q = 0 := fun q hq => Nat.lt_one_iff.1 hq
  have hconf' : ∀ q < queues .rng, s.confirmed q = true := fun q hq => hzero q hq ▸ hconf
  rw [rngDriverOk, obeys_write, obeys_readBits]
  refine ⟨.driverOk tr hs hconf', fun x => ?_⟩
  simp only [Stage.write, if_neg hne, Stage.read]
  split_ifs with hstatus
  · exact fun h => absurd h (by decide)
  · exact fun _ => ⟨⟨⟨tr, rfl⟩, hstatus, hconf'⟩, fun q hq => hzero q hq ▸ hgiven⟩

/-- The size of the queue is read. -/
theorem obeys_rngQueueSize {f : ℕ → VirtioInit.Drv α} (hs : s.Begun) (hsel : s.sel = some 0)
    (h : ∀ s' : Stage, s'.Begun → s'.sel = some 0 → (f s'.room).Obeys (handshake .rng) R s') :
    (rngQueueSize tr >>= f).Obeys (handshake .rng) R s := by
  cases tr with
  | pci =>
    rw [rngQueueSize, obeys_readBits]
    exact fun x => h (s.read .queueNum x) ⟨hs.configuring, hs.given⟩ hsel
  | mmio =>
    rw [rngQueueSize, obeys_readBits]
    exact fun x => h (s.read .queueNumMax x) ⟨hs.configuring, hs.given⟩ hsel

/-- The queue of `virtio_rng_init_context`, and what comes after it. -/
theorem obeys_rngQueue {version : ℕ} (hs : s.Begun) :
    (rngQueue pfn version tr).Obeys (handshake .rng) (fun code s' => code = 0 → s'.LiveOn .rng pfn) s := by
  have hfail : ∀ s' : Stage, (-1 : ℤ) = 0 → s'.LiveOn .rng pfn := fun _ h => absurd h (by decide)
  have hpages : ∀ s' : Stage, s'.Begun → s'.sel = some 0 → VirtioRng.queueSize ≤ s'.room → (do
      write .queuePfn (pfn 0)
      let readbackPfn ← readBits 32 .queuePfn
      if readbackPfn ≠ pfn 0 then giveUp else rngDriverOk tr).Obeys (handshake .rng)
      (fun code s' => code = 0 → s'.LiveOn .rng pfn) s' := by
    intro s' hbegun hsel hroom
    refine obeys_queuePfn hbegun.configuring hsel (hbegun.given 0) hroom (fun s₁ h => ?_) fun page s₁ h => ?_
    · rw [if_neg (not_not.2 rfl)]
      refine obeys_rngDriverOk (h.configuring hbegun.configuring) ?_ ?_
      · rw [h.confirmed, Function.update_self]
      · rw [h.given, Function.update_self]
    · rw [if_pos h]
      exact obeys_giveUp hfail
  have hqueue : ∀ s' : Stage, s'.Begun → (do
      write .queueSel 0
      let queueSize ← rngQueueSize tr
      if queueSize = 0 ∨ queueSize < VirtioRng.queueSize then giveUp
      else
        write .queueNum VirtioRng.queueSize
        if version = 1 then
          if tr = Transport.mmio then write .queueAlign 4096
          write .queuePfn (pfn 0)
          let readbackPfn ← readBits 32 .queuePfn
          if readbackPfn ≠ pfn 0 then giveUp else rngDriverOk tr
        else giveUp).Obeys (handshake .rng) (fun code s' => code = 0 → s'.LiveOn .rng pfn) s' := by
    intro s' hbegun
    rw [obeys_write]
    refine ⟨⟨hbegun.configuring, by decide⟩, ?_⟩
    refine obeys_rngQueueSize (s := s'.write .queueSel 0) ⟨hbegun.configuring, hbegun.given⟩ rfl fun s₁ h₁ hsel => ?_
    have hwrite : s₁.write .queueNum VirtioRng.queueSize = s₁ ∧ s₁.write .queueAlign 4096 = s₁ := ⟨rfl, rfl⟩
    split_ifs with hsize hversion hmmio
    · exact obeys_giveUp hfail
    · have hroom : VirtioRng.queueSize ≤ s₁.room := by omega
      rw [obeys_write, obeys_write, hwrite.1, hwrite.2]
      exact ⟨⟨h₁.configuring, hroom⟩, ⟨h₁.configuring, by rw [hsel]; rfl⟩, hpages s₁ h₁ hsel hroom⟩
    · have hroom : VirtioRng.queueSize ≤ s₁.room := by omega
      rw [obeys_write, hwrite.1]
      exact ⟨⟨h₁.configuring, hroom⟩, hpages s₁ h₁ hsel hroom⟩
    · have hroom : VirtioRng.queueSize ≤ s₁.room := by omega
      rw [obeys_write]
      exact ⟨⟨h₁.configuring, hroom⟩, obeys_giveUp hfail⟩
  rw [rngQueue]
  by_cases hlegacy : version = 1 ∧ tr = .mmio
  · rw [if_pos hlegacy, obeys_write]
    exact ⟨⟨hs.configuring, hs.given⟩, hqueue s hs⟩
  · rw [if_neg hlegacy]
    exact hqueue s hs

/-- **`virtio_rng_init_context` keeps to the handshake**, and if it succeeds, the device is live. -/
theorem obeys_rngInit :
    (virtioRngInitContext pfn tr).Obeys (handshake .rng) (fun code s' => code = 0 → s'.LiveOn .rng pfn) s := by
  have hfail : ∀ s' : Stage, (-1 : ℤ) = 0 → s'.LiveOn .rng pfn := fun _ h => absurd h (by decide)
  rw [virtioRngInitContext, obeys_readBits]
  intro version
  split_ifs
  · exact hfail _
  all_goals
    refine obeys_rngFeatures (fun s' h => obeys_rngQueue h) fun s' => ?_
    exact obeys_giveUp hfail

end Init

/-! ### The life of contexts -/

section Life

variable {ι : Type} [DecidableEq ι] (arch : Arch) (kind : ι → Virtio) (devices : ℕ → Device String) (pfn : ι → ℕ → ℕ)

/-- An access to a register of a device, or to memory. -/
inductive Op where
  /-- An access of a driver to a register of device `k`. -/
  | reg (v : Virtio) (k : ℕ) (o : VirtioInit.Op)
  /-- An access of the network driver to the memory that it shares with its device. -/
  | net (o : VirtioNet.Op)
  /-- An access of the random number driver to the memory that it shares with its device. -/
  | rng (o : VirtioRng.Op)

/-- What an access answers. -/
def Ans : Op → Type
  | .reg _ _ o => VirtioInit.Ans o
  | .net o => VirtioNet.Ans o
  | .rng o => VirtioRng.Ans o

/-- A program of a driver. -/
abbrev Drv := Prog Op Ans

/-- The fields of a context that say whether it is live, and on which device. -/
structure Slot where
  /-- The device that `io_base` is of. -/
  device : ℕ
  /-- `initialized`. -/
  initialized : Bool
  deriving DecidableEq

/-- A call of a driver, with the context and the other fields that it has then. -/
inductive Call (ι : Type) where
  /-- `init_context`, with device `k`. -/
  | init (c : ι) (k : ℕ)
  /-- `deinit_context`. -/
  | deinit (c : ι)
  /-- `virtio_net_receive`. -/
  | receive (c : ι) (bufferSize : ℕ) (ctx : VirtioNet.Ctx)
  /-- `virtio_net_transmit`. -/
  | transmit (c : ι) (packet : List UInt8) (ctx : VirtioNet.Ctx)
  /-- `virtio_rng_read`. -/
  | read (c : ι) (size : ℕ) (ctx : VirtioRng.Ctx)

/-- The number that a queue is notified by. -/
def queueIndex : VirtioNet.Queue → ℕ
  | .rx => 0
  | .tx => 1

/-- An access of the network driver: it notifies its device through a register. -/
def netOp (k : ℕ) : (o : VirtioNet.Op) → Drv (VirtioNet.Ans o)
  | .notify which => perform (Op.reg .net k (.write .queueNotify (queueIndex which)))
  | .queue ctx which o => perform (Op.net (.queue ctx which o))
  | .readRx a => perform (Op.net (.readRx a))
  | .writeTx a b => perform (Op.net (.writeTx a b))

/-- An access of the random number driver. -/
def rngOp (k : ℕ) : (o : VirtioRng.Op) → Drv (VirtioRng.Ans o)
  | .notify => perform (Op.reg .rng k (.write .queueNotify 0))
  | .queue o => perform (Op.rng (.queue o))
  | .poll ctx count => perform (Op.rng (.poll ctx count))
  | .readBuffer i => perform (Op.rng (.readBuffer i))

/-- `init_context`. The network driver clears the context first, and the random number driver does not. -/
def initContext (slots : ι → Slot) (c : ι) (k : ℕ) : Drv ((ι → Slot) × ℤ) := do
  let code ← ((kind c).initContext arch (pfn c) (devices k)).handle fun o => perform (Op.reg (kind c) k o)
  let kept := match kind c with
    | .net => false
    | .rng => (slots c).initialized
  return (Function.update slots c ⟨k, if code = 0 then true else kept⟩, code)

/-- `deinit_context`. -/
def deinitContext (slots : ι → Slot) (c : ι) : Drv ((ι → Slot) × ℤ) :=
  if (slots c).initialized then do
    perform (Op.reg (kind c) (slots c).device (.write .status 0))
    return (Function.update slots c { slots c with initialized := false }, 0)
  else return (slots, 0)

/-- A call of a driver. -/
def life : Call ι → (ι → Slot) → Drv ((ι → Slot) × ℤ)
  | .init c k, slots => initContext arch kind devices pfn slots c k
  | .deinit c, slots => deinitContext kind slots c
  | .receive c bufferSize ctx, slots => do
    let r ← (VirtioNet.virtioNetReceive arch (Virtio.net.transport arch (devices (slots c).device)) bufferSize
      { ctx with initialized := (slots c).initialized }).handle (netOp (slots c).device)
    return (Function.update slots c { slots c with initialized := r.1.initialized }, r.2.code)
  | .transmit c packet ctx, slots => do
    let r ← (VirtioNet.virtioNetTransmit arch (Virtio.net.transport arch (devices (slots c).device)) packet
      { ctx with initialized := (slots c).initialized }).handle (netOp (slots c).device)
    return (Function.update slots c { slots c with initialized := r.1.initialized }, r.2.code)
  | .read c size ctx, slots => do
    let r ← (VirtioRng.virtioRngRead size { ctx with initialized := (slots c).initialized }).handle
      (rngOp (slots c).device)
    return (Function.update slots c { slots c with initialized := r.1.initialized }, r.2.code)

/-- The handshakes with all devices. Nothing is asked of accesses to memory. -/
def handshakes : Protocol Op Ans (ℕ → Stage) where
  allowed stages
    | .reg v k o => (stages k).May v o
    | .net _ => True
    | .rng _ => True
  next stages
    | .reg _ k o, x => Function.update stages k ((stages k).after o x)
    | .net _, _ => stages
    | .rng _, _ => stages

/-- The contexts after the calls of a log. -/
def slotsAfter (log : List (Done (Call ι) (ι → Slot) ℤ)) : ι → Slot :=
  match log.getLast? with
  | none => fun _ => ⟨0, false⟩
  | some e => e.after

/-- What the users of the drivers take care of. -/
def Careful (log : List (Done (Call ι) (ι → Slot) ℤ)) : Call ι → Prop
  | .init c k =>
    (∀ c', (slotsAfter log c').initialized = true → (slotsAfter log c').device = k → c' = c) ∧
      (kind c = .rng → (slotsAfter log c).initialized = false)
  | .deinit _ => True
  | .receive c _ _ => kind c = .net
  | .transmit c _ _ => kind c = .net
  | .read c _ _ => kind c = .rng

instance [Fintype ι] (log : List (Done (Call ι) (ι → Slot) ℤ)) (call : Call ι) : Decidable (Careful kind log call) :=
  match call with
  | .init _ _ => inferInstanceAs (Decidable (_ ∧ _))
  | .deinit _ => inferInstanceAs (Decidable True)
  | .receive _ _ _ => inferInstanceAs (Decidable (_ = _))
  | .transmit _ _ _ => inferInstanceAs (Decidable (_ = _))
  | .read _ _ _ => inferInstanceAs (Decidable (_ = _))

/-- A use of a context. -/
def Call.IsUse : Call ι → Prop
  | .init _ _ | .deinit _ => False
  | .receive c _ _ | .transmit c _ _ => kind c = .net
  | .read c _ _ => kind c = .rng

instance (call : Call ι) : Decidable (call.IsUse kind) :=
  match call with
  | .init _ _ => inferInstanceAs (Decidable False)
  | .deinit _ => inferInstanceAs (Decidable False)
  | .receive _ _ _ => inferInstanceAs (Decidable (_ = _))
  | .transmit _ _ _ => inferInstanceAs (Decidable (_ = _))
  | .read _ _ _ => inferInstanceAs (Decidable (_ = _))

/-- The drivers with their devices, which answer anything. -/
abbrev machine : System Op Ans (((o : Op) → Ans o) × (ℕ → Stage)) ((o : Op) → Ans o) (Call ι) (ι → Slot) ℤ :=
  handshakes.system (life arch kind devices pfn)

/-- No context is live. Nothing is known of the devices. -/
def begin (answers : (o : Op) → Ans o) (stages : ℕ → Stage) :
    Cfg Op Ans (((o : Op) → Ans o) × (ℕ → Stage)) (Call ι) (ι → Slot) ℤ :=
  .start (fun _ => ⟨0, false⟩) (answers, stages)

/-! ### Every call keeps to the handshake -/

/-- The live contexts are on live devices of their own. -/
structure Sound (slots : ι → Slot) (stages : ℕ → Stage) : Prop where
  /-- The device of a live context is live. -/
  live : ∀ c, (slots c).initialized = true → (stages (slots c).device).LiveOn (kind c) (pfn c)
  /-- Live contexts are on different devices. -/
  apart : ∀ c c', (slots c).initialized = true → (slots c').initialized = true →
    (slots c).device = (slots c').device → c = c'

/-- The invariant between calls. -/
structure Inv (log : List (Done (Call ι) (ι → Slot) ℤ)) (slots : ι → Slot) (stages : ℕ → Stage) : Prop extends
    Sound kind pfn slots stages where
  after : slots = slotsAfter log

variable {arch kind devices pfn} {stages : ℕ → Stage} {slots : ι → Slot}

/-- What is said to one device is not said to the others. -/
theorem obeys_reg {α : Type} {v : Virtio} {R : α → Stage → Prop} {p : VirtioInit.Drv α} (k : ℕ)
    (h : p.Obeys (handshake v) R (stages k)) :
    (p.handle fun o => (perform (Op.reg v k o) : Drv (VirtioInit.Ans o))).Obeys handshakes
      (fun a stages' => R a (stages' k) ∧ ∀ j, j ≠ k → stages' j = stages j) stages := by
  have hsim : ∀ o (s : Stage) (stages' : ℕ → Stage), (stages' k = s ∧ ∀ j, j ≠ k → stages' j = stages j) → s.May v o →
      (perform (Op.reg v k o) : Drv (VirtioInit.Ans o)).Obeys handshakes
        (fun x stages'' => stages'' k = s.after o x ∧ ∀ j, j ≠ k → stages'' j = stages j) stages' := by
    rintro o s stages' ⟨rfl, hothers⟩ hmay
    refine ⟨hmay, fun x => ⟨Function.update_self _ _ _, fun j hj => ?_⟩⟩
    exact (Function.update_of_ne hj _ _).trans (hothers j hj)
  refine (h.handle hsim ⟨rfl, fun _ _ => rfl⟩).mono ?_
  rintro a stages' ⟨s, ⟨rfl, hothers⟩, hR⟩
  exact ⟨hR, hothers⟩

/-- What the network driver does with its queues, on a device that is live. -/
theorem obeys_netOp {α : Type} {B : VirtioNet.Op → Prop} {R : α → Prop} {p : VirtioNet.Drv α} (h : p.All B R) {k : ℕ}
    (hlive : (stages k).Live .net) :
    (p.handle (netOp k)).Obeys handshakes (fun a stages' => R a ∧ stages' = stages) stages := by
  have hsim : ∀ (o : VirtioNet.Op) (_ : Unit) stages', stages' = stages → True →
      (netOp k o).Obeys handshakes (fun _ stages'' => stages'' = stages) stages' := by
    rintro o - _ rfl -
    cases o with
    | notify which =>
      refine ⟨⟨hlive, by cases which <;> decide⟩, fun x => ?_⟩
      exact Function.update_eq_self k _
    | queue ctx which o => exact ⟨trivial, fun _ => rfl⟩
    | readRx a => exact ⟨trivial, fun _ => rfl⟩
    | writeTx a b => exact ⟨trivial, fun _ => rfl⟩
  have hhandled : (p.handle (netOp k)).Obeys handshakes (fun a stages' => ∃ _ : Unit, stages' = stages ∧ R a) stages :=
    h.obeys_free.handle hsim rfl
  exact hhandled.mono fun a stages' ⟨_, hstages, hR⟩ => ⟨hR, hstages⟩

/-- What the random number driver does with its queue, on a device that is live. -/
theorem obeys_rngOp {α : Type} {B : VirtioRng.Op → Prop} {R : α → Prop} {p : VirtioRng.Drv α} (h : p.All B R) {k : ℕ}
    (hlive : (stages k).Live .rng) :
    (p.handle (rngOp k)).Obeys handshakes (fun a stages' => R a ∧ stages' = stages) stages := by
  have hsim : ∀ (o : VirtioRng.Op) (_ : Unit) stages', stages' = stages → True →
      (rngOp k o).Obeys handshakes (fun _ stages'' => stages'' = stages) stages' := by
    rintro o - _ rfl -
    cases o with
    | notify => exact ⟨⟨hlive, by decide⟩, fun x => Function.update_eq_self k _⟩
    | queue o => exact ⟨trivial, fun _ => rfl⟩
    | poll ctx count => exact ⟨trivial, fun _ => rfl⟩
    | readBuffer i => exact ⟨trivial, fun _ => rfl⟩
  have hhandled : (p.handle (rngOp k)).Obeys handshakes (fun a stages' => ∃ _ : Unit, stages' = stages ∧ R a) stages :=
    h.obeys_free.handle hsim rfl
  exact hhandled.mono fun a stages' ⟨_, hstages, hR⟩ => ⟨hR, hstages⟩

omit [DecidableEq ι] in
theorem slotsAfter_append (log : List (Done (Call ι) (ι → Slot) ℤ)) (e : Done (Call ι) (ι → Slot) ℤ) :
    slotsAfter (log ++ [e]) = e.after := by
  simp [slotsAfter]

/-- The flag of a context is not changed by using it. -/
theorem receive_initialized (arch : Arch) (tr : Transport) (n : ℕ) (ctx : VirtioNet.Ctx) :
    (VirtioNet.virtioNetReceive arch tr n ctx).All (fun _ => True) fun r => r.1.initialized = ctx.initialized := by
  refine (VirtioNet.receive_all arch tr n ctx).mono (fun _ _ => trivial) ?_
  rintro r (rfl | hr)
  · rfl
  · rw [hr]
    rfl

theorem read_initialized (size : ℕ) (ctx : VirtioRng.Ctx) :
    (VirtioRng.virtioRngRead size ctx).All (fun _ => True) fun r => r.1.initialized = ctx.initialized := by
  rw [VirtioRng.virtioRngRead]
  by_cases hsize : size = 0
  · rw [if_pos hsize]
    exact rfl
  rw [if_neg hsize]
  by_cases hflag : (!ctx.initialized) = true
  · rw [if_pos hflag]
    exact rfl
  rw [if_neg hflag]
  generalize (if size > VirtioRng.bufferSize then VirtioRng.bufferSize else size) = size
  dsimp only
  cases Virtqueue.firstFree VirtioRng.queueSize ctx.descInUse with
  | none => exact rfl
  | some descIdx =>
    refine (Prog.all_true _).bind fun _ _ => (Prog.all_true _).bind fun count _ => ?_
    rw [VirtioRng.finish]
    split_ifs
    · exact rfl
    · exact (Prog.all_true _).bind fun elem _ => (Prog.all_true _).bind fun data _ => rfl

section Calls

section Sound

variable (h : Sound kind pfn slots stages)

include h

/-- One context is changed, and the devices of the others are left as they are. -/
theorem Sound.update {c : ι} {slot : Slot} {stages' : ℕ → Stage}
    (hlive : slot.initialized = true → (stages' slot.device).LiveOn (kind c) (pfn c))
    (hkeep : ∀ c', c' ≠ c → (slots c').initialized = true → stages' (slots c').device = stages (slots c').device)
    (hapart : slot.initialized = true → ∀ c', c' ≠ c → (slots c').initialized = true →
      (slots c').device ≠ slot.device) :
    Sound kind pfn (Function.update slots c slot) stages' := by
  have hself : Function.update slots c slot c = slot := Function.update_self _ _ _
  have hother : ∀ c', c' ≠ c → Function.update slots c slot c' = slots c' := fun c' hne => Function.update_of_ne hne _ _
  refine ⟨fun c' hc' => ?_, fun c₁ c₂ h₁ h₂ heq => ?_⟩
  · by_cases hne : c' = c
    · rw [hne, hself] at hc' ⊢
      exact hlive hc'
    · rw [hother c' hne] at hc' ⊢
      rw [hkeep c' hne hc']
      exact h.live c' hc'
  · by_cases hne₁ : c₁ = c
    · by_cases hne₂ : c₂ = c
      · rw [hne₁, hne₂]
      · rw [hne₁, hself] at h₁ heq
        rw [hother c₂ hne₂] at h₂ heq
        exact absurd heq.symm (hapart h₁ c₂ hne₂ h₂)
    · rw [hother c₁ hne₁] at h₁ heq
      by_cases hne₂ : c₂ = c
      · rw [hne₂, hself] at h₂ heq
        exact absurd heq (hapart h₂ c₁ hne₁ h₁)
      · rw [hother c₂ hne₂] at h₂ heq
        exact h.apart c₁ c₂ h₁ h₂ heq

/-- `init_context`. -/
theorem Sound.init {c : ι} {k : ℕ}
    (hother : ∀ c', (slots c').initialized = true → (slots c').device = k → c' = c)
    (hrng : kind c = .rng → (slots c).initialized = false) :
    (initContext arch kind devices pfn slots c k).Obeys handshakes
      (fun r stages' => r.1 = Function.update slots c ⟨k, decide (r.2 = 0)⟩ ∧ Sound kind pfn r.1 stages') stages := by
  have hinit : ((kind c).initContext arch (pfn c) (devices k)).Obeys (handshake (kind c))
      (fun code s' => code = 0 → s'.LiveOn (kind c) (pfn c)) (stages k) := by
    cases kind c with
    | net => exact obeys_netInit
    | rng => exact obeys_rngInit
  have hkept : (match kind c with | .net => false | .rng => (slots c).initialized) = false := by
    cases hkind : kind c with
    | net => rfl
    | rng => exact hrng hkind
  refine ((obeys_reg k hinit).mono fun code stages' hcode => ?_).bind
  obtain ⟨hlive, hothers⟩ := hcode
  rw [hkept]
  have hflag : (if code = 0 then true else false) = decide (code = 0) := by split_ifs with hzero <;> simp [hzero]
  refine ⟨by rw [hflag], h.update (fun hslot => hlive (by simpa using hslot)) (fun c' hne hc' => ?_)
    fun _ c' hne hc' hdevice => ?_⟩
  · exact hothers _ fun hdevice => hne (hother c' hc' hdevice)
  · exact hne (hother c' hc' hdevice)

/-- `deinit_context`. -/
theorem Sound.deinit (c : ι) :
    (deinitContext kind slots c).Obeys handshakes
      (fun r stages' => r.1 = Function.update slots c { slots c with initialized := false } ∧
        Sound kind pfn r.1 stages') stages := by
  rw [deinitContext]
  split_ifs with hc
  · refine ⟨.reset, fun x => ⟨rfl, ?_⟩⟩
    refine h.update (fun hslot => absurd hslot Bool.false_ne_true) (fun c' hne hc' => ?_) fun hslot =>
      absurd hslot Bool.false_ne_true
    exact Function.update_of_ne (fun hdevice => hne (h.apart c' c hc' hc hdevice)) _ _
  · have hslot : ({ slots c with initialized := false } : Slot) = slots c := by
      rw [← Bool.eq_false_iff.mpr hc]
    exact ⟨by rw [hslot, Function.update_eq_self], h⟩

omit h in
/-- A use of a context that its flag lets through only on a live device. -/
theorem use_obeys {ρ γ : Type} {c : ι} {p : Drv (γ × ρ)} {initialized : γ → Bool} {code : ρ → ℤ}
    (hp : p.Obeys handshakes (fun r stages' => initialized r.1 = (slots c).initialized ∧ stages' = stages) stages) :
    (p >>= fun r => (Prog.ret (Function.update slots c { slots c with initialized := initialized r.1 }, code r.2) :
        Drv ((ι → Slot) × ℤ))).Obeys handshakes
      (fun r stages' => r.1 = slots ∧ stages' = stages) stages := by
  refine (hp.mono fun r stages' hr => ⟨?_, hr.2⟩).bind
  rw [hr.1]
  exact Function.update_eq_self c slots

/-- A use leaves the contexts as they are, and the conversations with the devices. -/
theorem Sound.use {call : Call ι} (huse : call.IsUse kind) :
    (life arch kind devices pfn call slots).Obeys handshakes
      (fun r stages' => r.1 = slots ∧ stages' = stages) stages := by
  cases call with
  | init c k => exact huse.elim
  | deinit c => exact huse.elim
  | receive c bufferSize ctx =>
    refine use_obeys ?_
    by_cases hc : (slots c).initialized = true
    · have hlive := (h.live c hc).1
      rw [show kind c = .net from huse] at hlive
      exact obeys_netOp (receive_initialized arch _ bufferSize { ctx with initialized := (slots c).initialized }) hlive
    · rw [VirtioNet.virtioNetReceive, if_pos (by simpa using hc)]
      exact ⟨rfl, rfl⟩
  | transmit c packet ctx =>
    refine use_obeys ?_
    by_cases hc : (slots c).initialized = true
    · have hlive := (h.live c hc).1
      rw [show kind c = .net from huse] at hlive
      have hflag := VirtioNet.transmit_all arch (Virtio.net.transport arch (devices (slots c).device)) packet
        { ctx with initialized := (slots c).initialized }
      exact obeys_netOp (hflag.mono (fun _ h => h) fun _ hr => hr.2) hlive
    · rw [VirtioNet.virtioNetTransmit, if_pos (.inr (.inr (by simpa using hc)))]
      exact ⟨rfl, rfl⟩
  | read c size ctx =>
    refine use_obeys ?_
    by_cases hc : (slots c).initialized = true
    · have hlive := (h.live c hc).1
      rw [show kind c = .rng from huse] at hlive
      exact obeys_rngOp (read_initialized size { ctx with initialized := (slots c).initialized }) hlive
    · rw [VirtioRng.virtioRngRead]
      by_cases hsize : size = 0
      · rw [if_pos hsize]
        exact ⟨rfl, rfl⟩
      · rw [if_neg hsize, if_pos (by simpa using hc)]
        exact ⟨rfl, rfl⟩

end Sound

/-- Every call keeps to the handshake, and the invariant. -/
theorem call_obeys {log : List (Done (Call ι) (ι → Slot) ℤ)} (h : Inv kind pfn log slots stages) (call : Call ι)
    (hcareful : Careful kind log call) :
    (life arch kind devices pfn call slots).Obeys handshakes
      (fun r stages' => Inv kind pfn (log ++ [⟨call, slots, r.2, r.1⟩]) r.1 stages') stages := by
  have hafter : ∀ (slots' : ι → Slot) (code : ℤ), slots' = slotsAfter (log ++ [⟨call, slots, code, slots'⟩]) :=
    fun _ _ => by rw [slotsAfter_append]
  have huse : call.IsUse kind → (life arch kind devices pfn call slots).Obeys handshakes
      (fun r stages' => Inv kind pfn (log ++ [⟨call, slots, r.2, r.1⟩]) r.1 stages') stages := fun huse =>
    (h.toSound.use huse).mono fun r stages' hr => ⟨by rw [hr.1, hr.2]; exact h.toSound, hafter _ _⟩
  cases call with
  | init c k =>
    obtain ⟨hother, hrng⟩ := hcareful
    rw [← h.after] at hother hrng
    exact (h.toSound.init hother hrng).mono fun r stages' hr => ⟨hr.2, hafter _ _⟩
  | deinit c => exact (h.toSound.deinit c).mono fun r stages' hr => ⟨hr.2, hafter _ _⟩
  | receive c bufferSize ctx => exact huse hcareful
  | transmit c packet ctx => exact huse hcareful
  | read c size ctx => exact huse hcareful

end Calls

/-! ### Runs -/

/-- A device with queues of 256 entries that has just been given the page, and has every bit of `STATUS` set. Of
memory, everything is zero. -/
def obliging (page : ℕ) : (o : Op) → Ans o
  | .reg _ _ (.read .queuePfn) => page
  | .reg _ _ (.read .queueNumMax) => (256 : ℕ)
  | .reg _ _ (.read .status) => (15 : ℕ)
  | .reg _ _ (.read _) => (0 : ℕ)
  | .reg _ _ (.write _ _) => ()
  | .net (.queue _ _ o) => (o.exec Virtqueue.zero).1
  | .net (.readRx _) => (0 : UInt8)
  | .net (.writeTx _ _) => ()
  | .net (.notify _) => ()
  | .rng (.queue o) => (o.exec Virtqueue.zero).1
  | .rng (.poll _ _) => (0 : ℕ)
  | .rng (.readBuffer _) => (0 : UInt8)
  | .rng .notify => ()

/-- A network device on MMIO. -/
def netDevice : Device String := ⟨some "virtio,mmio", none, 0x0a000000, 0x200, 0x1AF4, 0x1000, 0⟩

/-- A network device is initialised, and a packet is transmitted on it. -/
def firstPacket : List (Event (Call Unit) ((o : Op) → Ans o)) :=
  [.call (.init () 0)] ++ List.replicate 15 .tick ++ [.env (obliging 101)] ++ List.replicate 15 .tick ++
    [.call (.transmit () [1] VirtioNet.initCtx)] ++ List.replicate 19 .tick

end Life

end Yasouos.Drivers.VirtioHandshake
