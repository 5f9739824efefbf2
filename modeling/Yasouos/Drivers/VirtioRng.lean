import Yasouos.Theory.Memory
import Yasouos.Theory.Virtqueue

/-!
# The virtio-rng driver

`virtio_rng_read` of `drivers/virtio_rng/virtio_rng.c`, and a conforming device that
answers a request when it likes, also after the driver has given up on it.

## The model

The context `virtio_rng_t` is split in two: `Ctx` has what only the driver uses, and
`Mem` what the device sees, the virtqueue and the 64-byte buffer that all requests
share. The two transports differ only in which register is written to notify the
device, and `io_base` is not used otherwise, so neither is here; the caller's buffer
is taken not to be `NULL`.

The device numbers the requests in the order in which it takes them, which is the
order in which they were published; `Mem.serials` and `Mem.done` keep the numbers of
the requests it holds and of those it has answered. These are not in the memory of the
machine: they say which request a completion answers.

## What is proved

`read_sound`: in every run in which no call polls its budget out, a descriptor that is
published is not one the device has, at most 8 are with the device, and a call that
returns a positive number has consumed the answer to the request it has itself
published. `read_publishes_held` is the run that breaks this: a call that times out
marks its descriptor free while the device has it.
-/

namespace Yasouos.Drivers.VirtioRng

open Theory Prog Virtqueue

/-! ### The context -/

/-- `VIRTIO_RNG_QUEUE_SIZE`. -/
abbrev queueSize : ℕ := 8

/-- `sizeof(ctx->buffer)`. -/
abbrev bufferSize : ℕ := 64

/-- `VRING_DESC_F_WRITE`. -/
abbrev descFWrite : ℕ := 2

/-- What `timeout_count` starts from. -/
def timeoutStart : ℕ := 100000

/-- The fields of `virtio_rng_t` that only the driver uses. -/
structure Ctx where
  /-- `initialized`. -/
  initialized : Bool
  /-- `queue.last_used_idx`. -/
  lastUsedIdx : ℕ
  /-- `desc_in_use`. -/
  descInUse : ℕ → Bool

/-- An answer of the device. -/
structure Completion where
  /-- The number of the request it answers. -/
  serial : ℕ
  /-- The descriptor. -/
  id : ℕ
  /-- What the device wrote into the buffer. -/
  bytes : List UInt8
  deriving DecidableEq

/-- What the driver and the device share. -/
structure Mem where
  /-- The virtqueue. -/
  q : Virtqueue
  /-- `buffer`. -/
  buffer : ℕ → UInt8
  /-- How many requests the device has taken. -/
  taken : ℕ
  /-- The numbers of the requests it holds, in the order of `q.held`. -/
  serials : List ℕ
  /-- Its answers, oldest first. -/
  done : List Completion

/-- The descriptors that are with the device: published, or held. -/
def Mem.outstanding (s : Mem) : List ℕ := s.q.pending queueSize ++ s.q.held

/-! ### Accesses -/

/-- An access of the driver to what it shares with the device. -/
inductive Op where
  /-- An access to the queue. -/
  | queue (o : QOp)
  /-- Read `used.idx` in the polling loop, with `timeout_count` at `count`. -/
  | poll (ctx : Ctx) (count : ℕ)
  /-- Read a byte of the buffer. -/
  | readBuffer (i : ℕ)
  /-- Write the notification register. -/
  | notify

/-- What an access answers. -/
def Ans : Op → Type
  | .queue o => o.Ans
  | .poll _ _ => ℕ
  | .readBuffer _ => UInt8
  | .notify => Unit

/-- What an access does. -/
def exec : (o : Op) → Mem → Ans o × Mem
  | .queue o, s => ((o.exec s.q).1, { s with q := (o.exec s.q).2 })
  | .poll _ _, s => (s.q.usedIdx, s)
  | .readBuffer i, s => (s.buffer i, s)
  | .notify, s => ((), s)

/-- A driver program. -/
abbrev Drv := Prog Op Ans

/-- Read `avail.idx`. -/
def readAvailIdx : Drv ℕ := perform (Op.queue .availIdx)

/-- Read `used.ring[slot]`. -/
def readUsed (slot : ℕ) : Drv VUsed := perform (Op.queue (.used slot))

/-- Write `desc[i]`. -/
def writeDesc (i : ℕ) (d : VDesc) : Drv Unit := perform (Op.queue (.writeDesc i d))

/-- Write `avail.ring[slot]`. -/
def writeAvail (slot d : ℕ) : Drv Unit := perform (Op.queue (.writeAvail slot d))

/-- Write `avail.idx`. -/
def writeAvailIdx (i : ℕ) : Drv Unit := perform (Op.queue (.writeAvailIdx i))

/-- Read `used.idx` in the polling loop. -/
def pollUsedIdx (ctx : Ctx) (count : ℕ) : Drv ℕ := perform (Op.poll ctx count)

/-- `memcpy` out of the buffer, byte by byte. -/
def readBuffer (n : ℕ) : Drv (List UInt8) := readEach (fun i => (perform (Op.readBuffer i) : Drv UInt8)) 0 n

/-! ### The driver -/

/-- What a call returns: its return code, and what it has copied to the caller's
buffer. -/
structure Ret where
  /-- The return code. -/
  code : ℤ
  /-- The bytes at the start of the caller's buffer. -/
  buffer : List UInt8
  deriving DecidableEq

/-- `return -1`. -/
def Ret.fail : Ret := ⟨-1, []⟩

/-- The polling loop; it returns `timeout_count`. The index is read once more when the
count has come down to zero, and what it is then makes no difference. -/
def poll (ctx : Ctx) : ℕ → Drv ℕ
  | 0 => do
    let _ ← pollUsedIdx ctx 0
    return 0
  | count + 1 => do
    let idx ← pollUsedIdx ctx (count + 1)
    if idx = ctx.lastUsedIdx then poll ctx count else return count + 1

/-- `ctx->desc_in_use[i] = b`. -/
def Ctx.setInUse (ctx : Ctx) (i : ℕ) (b : Bool) : Ctx :=
  { ctx with descInUse := Function.update ctx.descInUse i b }

/-- A used element for descriptor `id` has been consumed. -/
def Ctx.consumed (ctx : Ctx) (id : ℕ) : Ctx :=
  { ctx with
    lastUsedIdx := (ctx.lastUsedIdx + 1) % idxMod
    descInUse := if id < queueSize then Function.update ctx.descInUse id false else ctx.descInUse }

/-- Set the descriptor up, add it to the available ring, and notify the device. -/
def publish (descIdx size : ℕ) : Drv Unit := do
  writeDesc descIdx ⟨0, size, descFWrite, 0⟩
  let idx ← readAvailIdx
  writeAvail (idx % queueSize) descIdx
  let idx ← readAvailIdx
  writeAvailIdx ((idx + 1) % idxMod)
  perform Op.notify

/-- The end of `virtio_rng_read`, once it has read the used element. -/
def finishUsed (ctx : Ctx) (size : ℕ) (elem : VUsed) : Drv (Ctx × Ret) := do
  let bytesRead := if elem.len > size then size else elem.len
  let data ← readBuffer bytesRead
  return (ctx.consumed elem.id, ⟨bytesRead, data⟩)

/-- The end of `virtio_rng_read`, once the polling loop has ended with `timeoutCount`. -/
def finish (ctx : Ctx) (descIdx size timeoutCount : ℕ) : Drv (Ctx × Ret) :=
  if timeoutCount = 0 then return (ctx.setInUse descIdx false, .fail)
  else do
    let elem ← readUsed (ctx.lastUsedIdx % queueSize)
    finishUsed ctx size elem

/-- `virtio_rng_read`. -/
def virtioRngRead (size : ℕ) (ctx : Ctx) : Drv (Ctx × Ret) :=
  if size = 0 then return (ctx, .fail)
  else if !ctx.initialized then return (ctx, .fail)
  else
    let size := if size > bufferSize then bufferSize else size
    match firstFree queueSize ctx.descInUse with
    | none => return (ctx, .fail)
    | some descIdx => do
      let ctx := ctx.setInUse descIdx true
      publish descIdx size
      let timeoutCount ← poll ctx timeoutStart
      finish ctx descIdx size timeoutCount

/-! ### The device -/

/-- A move of the device. -/
inductive Dev where
  /-- Take the next request. -/
  | take
  /-- Write a byte into the buffer of the `k`-th request it holds. -/
  | write (k i : ℕ) (b : UInt8)
  /-- Write these bytes for the `k`-th request it holds, and return its descriptor. -/
  | complete (k : ℕ) (bytes : List UInt8)

/-- **A conforming device.** It takes requests in order, writes only into the buffers of
requests it holds, and answers any of these, with no more bytes than were asked for. -/
def device : Dev → Mem → Option Mem
  | .take, s => (s.q.take queueSize).map fun q =>
      { s with q := q, taken := s.taken + 1, serials := s.serials ++ [s.taken] }
  | .write k i b, s =>
    match s.q.held[k]? with
    | none => none
    | some id =>
      if i < (s.q.desc id).len then
        some { s with buffer := Function.update s.buffer ((s.q.desc id).addr + i) b }
      else none
  | .complete k bytes, s =>
    match s.q.held[k]?, s.serials[k]? with
    | some id, some serial =>
      if bytes.length ≤ (s.q.desc id).len then
        some { s with
          q := { s.q with held := s.q.held.eraseIdx k
                          used := Function.update s.q.used (s.q.usedIdx % queueSize) ⟨id, bytes.length⟩
                          usedIdx := (s.q.usedIdx + 1) % idxMod }
          buffer := store s.buffer (s.q.desc id).addr bytes
          serials := s.serials.eraseIdx k
          done := s.done ++ [⟨serial, id, bytes⟩] }
      else none
    | _, _ => none

/-- The driver and the device. A call is given by the number of bytes asked for. -/
def rng : System Op Ans Mem Dev ℕ Ctx Ret where
  exec := exec
  env := device
  body := virtioRngRead

/-- A context that was zeroed and then initialised, before any call. -/
def start : Cfg Op Ans Mem ℕ Ctx Ret :=
  .start ⟨true, 0, fun _ => false⟩ ⟨Virtqueue.zero, fun _ => 0, 0, [], []⟩

/-! ### What a run should do -/

/-- A call that has returned. -/
abbrev Entry := Done ℕ Ctx Ret

/-- The descriptor that a call has published, if it has. -/
def Entry.request (e : Entry) : Option ℕ :=
  if e.call = 0 ∨ e.before.initialized = false then none else firstFree queueSize e.before.descInUse

/-- The call has consumed an entry of the used ring. -/
def Entry.consumes (e : Entry) : Bool := e.after.lastUsedIdx ≠ e.before.lastUsedIdx

/-- How many requests the calls have published. -/
def published (log : List Entry) : ℕ := (log.filter fun e => (Entry.request e).isSome).length

/-- How many answers the calls have consumed. -/
def consumed (log : List Entry) : ℕ := (log.filter Entry.consumes).length

/-- **What a run should do.** A descriptor about to be published is not with the
device; at most 8 are; and if the `j`-th call returned a positive number, the answer it
consumed is the one to the request that it published, of the descriptor it published,
and the bytes it returned are those the device wrote for it. -/
structure Sound (c : Cfg Op Ans Mem ℕ Ctx Ret) : Prop where
  publishes : ∀ k slot d f, c.cur = some (k, .op (.queue (.writeAvail slot d)) f) → d ∉ c.shared.outstanding
  few : c.shared.outstanding.length ≤ queueSize
  served : ∀ j e, c.log[j]? = some e → 0 < e.result.code →
    ∃ d, c.shared.done[consumed (c.log.take j)]? = some d ∧ d.serial = published (c.log.take j) ∧
      Entry.request e = some d.id ∧ e.result.buffer = d.bytes ∧ e.result.code = d.bytes.length

/-- The call does not poll its budget out: when the last poll that counts is made, the
device has answered. -/
def PollsInTime : Op → Mem → Prop
  | .poll ctx count, s => count = 1 → s.q.usedIdx ≠ ctx.lastUsedIdx
  | _, _ => True

instance : (o : Op) → (s : Mem) → Decidable (PollsInTime o s)
  | .poll ctx count, s => inferInstanceAs (Decidable (count = 1 → s.q.usedIdx ≠ ctx.lastUsedIdx))
  | .queue _, _ | .readBuffer _, _ | .notify, _ => isTrue trivial

variable {s s' : Mem} {ctx : Ctx} {d size last count : ℕ} {done : List Completion} {log : List Entry}

/-! ### The device at rest -/

/-- The device has nothing to do: no request is published that it has not taken, and it
holds none. -/
def Frozen (s : Mem) : Prop := s.q.lastAvail = s.q.availIdx ∧ s.q.held = []

theorem Frozen.stable (h : Frozen s) : rng.Stable (· = s) := by
  rintro e s₁ s₂ rfl he
  obtain ⟨ha, hh⟩ := h
  have hstuck : device e s₁ = none := by cases e <;> simp [device, Virtqueue.take, ha, hh]
  cases hstuck.symm.trans he

theorem Frozen.outstanding (h : Frozen s) (hlt : s.q.availIdx < idxMod) : s.outstanding = [] := by
  obtain ⟨ha, hh⟩ := h
  rw [Mem.outstanding, hh, pending, ha, window_self _ hlt, List.append_nil]

/-- What is promised of an access when it comes up. -/
def Promise (o : Op) (s : Mem) : Prop :=
  s.outstanding.length ≤ queueSize ∧ ∀ slot d, o = .queue (.writeAvail slot d) → d ∉ s.outstanding

/-- An access while the device is at rest. -/
theorem safe_frozen {α : Type} {Q : α → Mem → Prop} {o : Op} {f : Ans o → Drv α} (h : Frozen s)
    (hlt : s.q.availIdx < idxMod) (hf : (f (exec o s).1).Safe rng.toMachine PollsInTime Promise Q (exec o s).2) :
    (op o f : Drv α).Safe rng.toMachine PollsInTime Promise Q s := by
  refine Safe.op_of_stable h.stable rfl ?_
  rintro s₁ rfl
  refine ⟨?_, fun _ => hf⟩
  rw [Promise, h.outstanding hlt]
  simp

/-- Between calls: the device is at rest, and the driver has consumed every answer. -/
structure Quiet (last : ℕ) (s : Mem) : Prop where
  frozen : Frozen s
  serials : s.serials = []
  usedIdx : s.q.usedIdx = last
  last_lt : last < idxMod
  availIdx_lt : s.q.availIdx < idxMod
  taken : s.taken = s.done.length

theorem Quiet.outstanding (h : Quiet last s) : s.outstanding = [] := h.frozen.outstanding h.availIdx_lt

/-! ### A request -/

/-- The request that was published when the answers so far were `done` has been
answered with `bytes`, and the driver has yet to consume the answer. -/
structure Answered (d size last : ℕ) (done : List Completion) (bytes : List UInt8) (s : Mem) : Prop where
  done_eq : s.done = done ++ [⟨done.length, d, bytes⟩]
  used : s.q.used (last % queueSize) = ⟨d, bytes.length⟩
  len_le : bytes.length ≤ size
  buffer : load s.buffer 0 bytes.length = bytes
  quiet : Quiet ((last + 1) % idxMod) s

/-- **The stages of a request** for `size` bytes through descriptor `d`, published when
the driver was at index `last` and the answers so far were `done`. -/
inductive Stage (d size last : ℕ) (done : List Completion) (s : Mem) : Prop
  | published (desc : s.q.desc d = ⟨0, size, descFWrite, 0⟩) (last_lt : last < idxMod)
      (lastAvail_lt : s.q.lastAvail < idxMod) (availIdx : s.q.availIdx = (s.q.lastAvail + 1) % idxMod)
      (slot : s.q.avail (s.q.lastAvail % queueSize) = d) (held : s.q.held = []) (serials : s.serials = [])
      (usedIdx : s.q.usedIdx = last) (taken : s.taken = done.length) (hdone : s.done = done)
  | held (desc : s.q.desc d = ⟨0, size, descFWrite, 0⟩) (last_lt : last < idxMod)
      (availIdx_lt : s.q.availIdx < idxMod) (lastAvail : s.q.lastAvail = s.q.availIdx) (held : s.q.held = [d])
      (serials : s.serials = [done.length]) (usedIdx : s.q.usedIdx = last) (taken : s.taken = done.length + 1)
      (hdone : s.done = done)
  | answered (bytes : List UInt8) (h : Answered d size last done bytes s)

theorem Answered.stable (d size last : ℕ) (done : List Completion) (bytes : List UInt8) :
    rng.Stable (Answered d size last done bytes) := by
  intro e s s' h he
  have := h.quiet.frozen.stable e s s' rfl he
  exact this ▸ h

/-- The device takes a request from stage to stage. -/
theorem Stage.stable (d size last : ℕ) (done : List Completion) : rng.Stable (Stage d size last done) := by
  intro e s s' h he
  change device e s = some s' at he
  cases h with
  | published desc last_lt lastAvail_lt availIdx slot held serials usedIdx taken hdone =>
    cases e with
    | take =>
      have hne : s.q.lastAvail ≠ s.q.availIdx := by
        rw [availIdx]
        simp only [idxMod] at *
        omega
      simp only [device, Virtqueue.take, hne, if_false, Option.map_some, Option.some.injEq] at he
      subst he
      refine .held desc last_lt ?_ availIdx.symm ?_ ?_ usedIdx ?_ hdone
      · show s.q.availIdx < idxMod
        rw [availIdx]
        exact mod_idxMod_lt _
      · simp [held, slot]
      · simp [serials, taken]
      · simp [taken]
    | write k i b => simp [device, held] at he
    | complete k bytes => simp [device, held] at he
  | held desc last_lt availIdx_lt lastAvail held serials usedIdx taken hdone =>
    cases e with
    | take => simp [device, Virtqueue.take, lastAvail] at he
    | write k i b =>
      rw [device, held] at he
      cases k with
      | zero =>
        simp only [List.getElem?_cons_zero] at he
        split_ifs at he
        cases he
        exact .held desc last_lt availIdx_lt lastAvail held serials usedIdx taken hdone
      | succ k => simp at he
    | complete k bytes =>
      rw [device, held, serials] at he
      cases k with
      | zero =>
        simp only [List.getElem?_cons_zero, desc] at he
        split_ifs at he with hlen
        cases he
        refine .answered bytes ⟨?_, ?_, hlen, ?_, ⟨⟨lastAvail, rfl⟩, rfl, ?_, mod_idxMod_lt _, availIdx_lt, ?_⟩⟩
        · simp [hdone]
        · simp [usedIdx]
        · exact load_store s.buffer 0 bytes
        · simp [usedIdx]
        · simp [taken, hdone]
      | succ k => simp at he
  | answered bytes h => exact .answered bytes (Answered.stable d size last done bytes e s s' h he)

/-- While a request is under way, its descriptor is the only one with the device. -/
theorem Stage.outstanding (h : Stage d size last done s) : s.outstanding.length ≤ queueSize := by
  cases h with
  | published desc last_lt lastAvail_lt availIdx slot held serials usedIdx taken hdone =>
    have hdist : ringDist idxMod s.q.lastAvail s.q.availIdx = 0 + 1 := by
      rw [availIdx, ringDist_succ_right lastAvail_lt lastAvail_lt, ringDist_self lastAvail_lt]
      rw [ringDist_self lastAvail_lt]
      decide
    simp [Mem.outstanding, pending, held, hdist, queueSize]
  | held desc last_lt availIdx_lt lastAvail held serials usedIdx taken hdone =>
    simp [Mem.outstanding, pending, lastAvail, held, ringDist_self availIdx_lt, queueSize]
  | answered bytes h => simp [h.quiet.outstanding]

/-- Publishing a request. -/
theorem publish_safe (h : Quiet last s) :
    (publish d size).Safe rng.toMachine PollsInTime Promise (fun _ s' => Stage d size last s.done s') s := by
  obtain ⟨hf, hs, hu, hl, ha, ht⟩ := h
  unfold publish
  refine safe_frozen hf ha (safe_frozen hf ha (safe_frozen hf ha (safe_frozen hf ha (safe_frozen hf ha ?_))))
  -- the request is with the device from here on
  have hstage : Stage d size last s.done (exec (.queue (.writeAvailIdx ((s.q.availIdx + 1) % idxMod)))
      (exec (.queue (.writeAvail (s.q.availIdx % queueSize) d)) (exec (.queue (.writeDesc d ⟨0, size, descFWrite, 0⟩))
        s).2).2).2 := by
    refine .published ?_ hl ?_ ?_ ?_ hf.2 hs hu ht rfl
    · exact Function.update_self ..
    · exact hf.1.symm ▸ ha
    · show (s.q.availIdx + 1) % idxMod = (s.q.lastAvail + 1) % idxMod
      rw [hf.1]
    · show Function.update s.q.avail (s.q.availIdx % queueSize) d (s.q.lastAvail % queueSize) = d
      rw [hf.1, Function.update_self]
  refine Safe.op_of_stable (Stage.stable d size last s.done) hstage fun s₁ h₁ => ⟨⟨h₁.outstanding, by simp⟩, fun _ => ?_⟩
  exact Safe.ret_of_stable (Stage.stable d size last s.done) h₁ fun _ h => h

/-- If the budget is not polled out, the loop ends with an answer. -/
theorem poll_safe (h : Stage d size ctx.lastUsedIdx done s) :
    (poll ctx (count + 1)).Safe rng.toMachine PollsInTime Promise
      (fun r s' => r ≠ 0 ∧ ∃ bytes, Answered d size ctx.lastUsedIdx done bytes s') s := by
  induction count generalizing s with
  | zero =>
    refine Safe.op_of_stable (Stage.stable d size _ done) h fun s₁ h₁ => ⟨⟨h₁.outstanding, by simp⟩, fun hA => ?_⟩
    replace hA : s₁.q.usedIdx ≠ ctx.lastUsedIdx := hA rfl
    show Safe _ _ _ _ (if s₁.q.usedIdx = ctx.lastUsedIdx then poll ctx 0 else ret (0 + 1)) s₁
    rw [if_neg hA]
    cases h₁ with
    | published _ _ _ _ _ _ _ usedIdx => exact absurd usedIdx hA
    | held _ _ _ _ _ _ usedIdx => exact absurd usedIdx hA
    | answered bytes h₁ =>
      exact Safe.ret_of_stable (Answered.stable _ _ _ _ _) h₁ fun s₂ h₂ => ⟨by decide, bytes, h₂⟩
  | succ count ih =>
    refine Safe.op_of_stable (Stage.stable d size _ done) h fun s₁ h₁ => ⟨⟨h₁.outstanding, by simp⟩, fun _ => ?_⟩
    show Safe _ _ _ _ (if s₁.q.usedIdx = ctx.lastUsedIdx then poll ctx (count + 1) else ret (count + 1 + 1)) s₁
    split_ifs with hidx
    · exact ih h₁
    · cases h₁ with
      | published _ _ _ _ _ _ _ usedIdx => exact absurd usedIdx hidx
      | held _ _ _ _ _ _ usedIdx => exact absurd usedIdx hidx
      | answered bytes h₁ =>
        exact Safe.ret_of_stable (Answered.stable _ _ _ _ _) h₁ fun s₂ h₂ => ⟨by omega, bytes, h₂⟩

/-- Consuming an answer: the call returns the bytes the device wrote. -/
theorem finish_safe {bytes : List UInt8} (hcount : count ≠ 0) (h : Answered d size ctx.lastUsedIdx done bytes s) :
    (finish ctx d size count).Safe rng.toMachine PollsInTime Promise (fun r s' =>
      r = (ctx.consumed d, ⟨bytes.length, bytes⟩) ∧ Answered d size ctx.lastUsedIdx done bytes s') s := by
  have hstable := Answered.stable d size ctx.lastUsedIdx done bytes
  have hpromise : ∀ o s, (∀ slot d, o ≠ .queue (.writeAvail slot d)) → Answered d size ctx.lastUsedIdx done bytes s →
      Promise o s := by
    intro o s ho hs
    refine ⟨by simp [hs.quiet.outstanding], fun slot d hd => absurd hd (ho slot d)⟩
  rw [finish, if_neg hcount]
  refine Safe.op_of_stable hstable h fun s₁ h₁ => ⟨hpromise _ _ (by simp) h₁, fun _ => ?_⟩
  show Safe _ _ _ _ (finishUsed ctx size (s₁.q.used (ctx.lastUsedIdx % queueSize))) s₁
  rw [h₁.used, finishUsed]
  dsimp only
  rw [if_neg (Nat.not_lt.mpr h₁.len_le)]
  refine Safe.bind ((Safe.readEach hstable (f := fun i => bytes.getD i 0) ?_ h₁).mono ?_)
  · intro i hi s hs
    refine Safe.op_of_stable hstable hs fun s₂ h₂ => ⟨hpromise _ _ (by simp) h₂, fun _ => ?_⟩
    refine Safe.ret_of_stable hstable h₂ fun s₃ h₃ => ⟨?_, h₃⟩
    have hget : (load s₂.buffer 0 bytes.length)[i]? = bytes[i]? := by rw [h₂.buffer]
    simp only [load, List.getElem?_map, List.getElem?_range hi, Option.map_some] at hget
    rw [List.getD_eq_getElem?_getD, Nat.zero_add, ← hget, Nat.zero_add]
    rfl
  · rintro r s₂ ⟨rfl, h₂⟩
    refine Safe.ret_of_stable hstable h₂ fun s₃ h₃ => ⟨?_, h₃⟩
    have hdata : load (fun i => bytes.getD i 0) 0 bytes.length = bytes := by
      refine List.ext_getElem (by simp) fun i h₁ h₂ => ?_
      rw [getElem_load]
      simp [h₂]
    rw [hdata]

/-! ### Calls -/

/-- The calls in the log have each been served their own request. -/
def Served (log : List Entry) (done : List Completion) : Prop :=
  ∀ j e, log[j]? = some e → 0 < e.result.code →
    ∃ d, done[consumed (log.take j)]? = some d ∧ d.serial = published (log.take j) ∧
      Entry.request e = some d.id ∧ e.result.buffer = d.bytes ∧ e.result.code = d.bytes.length

/-- The invariant between calls: every request that was published has been consumed. -/
structure Inv (log : List Entry) (ctx : Ctx) (s : Mem) : Prop where
  initialized : ctx.initialized = true
  free : ∀ i < queueSize, ctx.descInUse i = false
  quiet : Quiet ctx.lastUsedIdx s
  published : published log = s.done.length
  consumed : consumed log = s.done.length
  served : Served log s.done

theorem published_append (log : List Entry) (e : Entry) :
    published (log ++ [e]) = published log + (if (Entry.request e).isSome then 1 else 0) := by
  cases h : Entry.request e <;> simp [published, h]

theorem consumed_append (log : List Entry) (e : Entry) :
    consumed (log ++ [e]) = consumed log + (if Entry.consumes e then 1 else 0) := by
  cases h : Entry.consumes e <;> simp [consumed, h]

theorem Served.append_done (h : Served log done) (l : List Completion) : Served log (done ++ l) := by
  intro j e hj hpos
  obtain ⟨d, hd, hrest⟩ := h j e hj hpos
  refine ⟨d, ?_, hrest⟩
  rw [List.getElem?_append_left (List.getElem?_eq_some_iff.mp hd).1]
  exact hd

/-- Another call in the log, which was served its own request if it was served. -/
theorem Served.append_log (h : Served log done) {e : Entry}
    (he : 0 < e.result.code → ∃ d, done[consumed log]? = some d ∧ d.serial = published log ∧
      Entry.request e = some d.id ∧ e.result.buffer = d.bytes ∧ e.result.code = d.bytes.length) :
    Served (log ++ [e]) done := by
  intro j e' hj hpos
  rcases Nat.lt_trichotomy j log.length with hlt | rfl | hgt
  · rw [List.getElem?_append_left hlt] at hj
    rw [List.take_append_of_le_length hlt.le]
    exact h j e' hj hpos
  · rw [List.getElem?_concat_length, Option.some.injEq] at hj
    subst hj
    rw [List.take_left]
    exact he hpos
  · rw [List.getElem?_eq_none (by simp; omega)] at hj
    cases hj

/-- A call that published nothing. -/
theorem Inv.append_none (h : Inv log ctx s) (size : ℕ) (hreq : Entry.request ⟨size, ctx, .fail, ctx⟩ = none) :
    Inv (log ++ [⟨size, ctx, .fail, ctx⟩]) ctx s := by
  refine ⟨h.1, h.2, h.3, ?_, ?_, h.served.append_log fun hpos => absurd hpos (by simp [Ret.fail])⟩
  · rw [published_append, hreq, h.published]
    simp
  · rw [consumed_append, h.consumed]
    simp [Entry.consumes]

theorem Inv.stable (log : List Entry) (ctx : Ctx) : rng.Stable (Inv log ctx) := by
  intro e s s' h he
  have := h.quiet.frozen.stable e s s' rfl he
  exact this ▸ h

/-- The index moves, so a call that has advanced it has consumed. -/
theorem consumes_consumed (size : ℕ) (r : Ret) (d i : ℕ) :
    Entry.consumes ⟨size, ctx, r, (ctx.setInUse i true).consumed d⟩ = true := by
  have : (ctx.lastUsedIdx + 1) % idxMod ≠ ctx.lastUsedIdx := by
    simp only [idxMod]
    omega
  simp [Entry.consumes, Ctx.consumed, Ctx.setInUse, this]

/-- A call that was served the request it published. -/
theorem Inv.append_served (h : Inv log ctx s) {n : ℕ} (hd : d < queueSize)
    (hreq : ∀ r c, Entry.request ⟨n, ctx, r, c⟩ = some d) {bytes : List UInt8}
    (hs : Answered d size ctx.lastUsedIdx s.done bytes s') :
    Inv (log ++ [⟨n, ctx, ⟨bytes.length, bytes⟩, (ctx.setInUse d true).consumed d⟩])
      ((ctx.setInUse d true).consumed d) s' := by
  refine ⟨h.initialized, fun i hi => ?_, hs.quiet, ?_, ?_, ?_⟩
  · by_cases hid : i = d
    · simp [Ctx.consumed, hid, hd]
    · simp [Ctx.consumed, Ctx.setInUse, hid, hd, h.free i hi]
  · rw [published_append, hreq, h.published, hs.done_eq]
    simp
  · rw [consumed_append, consumes_consumed, h.consumed, hs.done_eq]
    simp
  · rw [hs.done_eq]
    refine (h.served.append_done _).append_log fun _ => ⟨⟨s.done.length, d, bytes⟩, ?_, h.published.symm, ?_, rfl, rfl⟩
    · rw [h.consumed, List.getElem?_concat_length]
    · exact hreq _ _

/-- **A call of `virtio_rng_read`** that does not poll its budget out keeps the
invariant. -/
theorem read_safe (n : ℕ) (h : Inv log ctx s) :
    (virtioRngRead n ctx).Safe rng.toMachine PollsInTime Promise
      (fun r s' => Inv (log ++ [⟨n, ctx, r.2, r.1⟩]) r.1 s') s := by
  have hinit := h.initialized
  simp only [virtioRngRead, hinit, Bool.not_true, Bool.false_eq_true, if_false]
  split_ifs with hn hbig
  · exact Safe.ret_of_stable (Inv.stable log ctx) h fun s' h' => h'.append_none n (by simp [Entry.request, hn])
  all_goals
    have hreq : ∀ r c, Entry.request ⟨n, ctx, r, c⟩ = firstFree queueSize ctx.descInUse := by
      simp [Entry.request, hn, hinit]
    cases hfree : firstFree queueSize ctx.descInUse with
    | none => exact Safe.ret_of_stable (Inv.stable log ctx) h fun s' h' => h'.append_none n (by rw [hreq, hfree])
    | some d =>
      have hd := (firstFree_some hfree).1
      refine Safe.bind ((publish_safe h.quiet).mono fun _ s₁ h₁ => ?_)
      have h₁' : Stage d _ (ctx.setInUse d true).lastUsedIdx _ s₁ := h₁
      refine Safe.bind ((poll_safe h₁').mono ?_)
      rintro count s₂ ⟨hcount, bytes, h₂⟩
      refine (finish_safe hcount h₂).mono ?_
      rintro r s₃ ⟨rfl, h₃⟩
      exact h.append_served hd (fun r c => (hreq r c).trans hfree) h₃

/-! ### Runs -/

theorem inv_start : Inv [] ⟨true, 0, fun _ => false⟩ ⟨Virtqueue.zero, fun _ => 0, 0, [], []⟩ :=
  ⟨rfl, fun _ _ => rfl, ⟨⟨rfl, rfl⟩, rfl, rfl, by decide, by decide, rfl⟩, rfl, rfl, fun j e hj => by simp at hj⟩

theorem device_done {e : Dev} (h : device e s = some s') : ∃ l, s'.done = s.done ++ l := by
  cases e with
  | take =>
    simp only [device, Option.map_eq_some_iff] at h
    obtain ⟨q, -, rfl⟩ := h
    exact ⟨[], (List.append_nil _).symm⟩
  | write k i b =>
    simp only [device] at h
    split at h
    · cases h
    · split_ifs at h
      cases h
      exact ⟨[], (List.append_nil _).symm⟩
  | complete k bytes =>
    simp only [device] at h
    split at h
    · split_ifs at h
      cases h
      exact ⟨_, rfl⟩
    · cases h

theorem exec_done (o : Op) (s : Mem) : (exec o s).2.done = s.done := by cases o <;> rfl

theorem read_good {c : Cfg Op Ans Mem ℕ Ctx Ret} (h : rng.ReachUnder (fun _ => PollsInTime) start c) :
    rng.Good (fun _ => PollsInTime) (fun _ => Promise) Inv c :=
  System.reach_safe Inv.stable (fun _ k _ _ h => read_safe k h) (.start inv_start) h

/-- In the middle of a call, too, the earlier calls have each been served their own
request. -/
theorem served_always {c : Cfg Op Ans Mem ℕ Ctx Ret} (h : rng.ReachUnder (fun _ => PollsInTime) start c) :
    Served c.log c.shared.done := by
  refine System.reach_always (S := rng) (J := fun l s => Served l s.done) (G := fun _ => Promise) Inv.stable
    (fun _ k _ _ h => read_safe k h) (fun l p s h => h.served) ?_ ?_ (.start inv_start) inv_start.served h
  · intro l e s s' hs he
    obtain ⟨x, hx⟩ := device_done he
    rw [hx]
    exact hs.append_done x
  · intro l o s hs
    rw [show (rng.exec o s).2.done = s.done from exec_done o s]
    exact hs

/-- **As long as no call polls its budget out**, every run does what it should: no
descriptor is published that is with the device, at most 8 are, and every call that
returns a positive number was served the request it published itself. -/
theorem read_sound (c : Cfg Op Ans Mem ℕ Ctx Ret) (h : rng.ReachUnder (fun _ => PollsInTime) start c) : Sound c := by
  have hgood := read_good h
  refine ⟨fun k slot d f hc => (hgood.guarantee hc).2 slot d rfl, ?_, served_always h⟩
  obtain ⟨p, s, cur, l⟩ := c
  match cur, hgood with
  | none, hgood =>
    have hinv : Inv l p s := hgood.idle rfl
    simp [hinv.quiet.outstanding]
  | some (k, .ret (q, r)), hgood =>
    have hinv := hgood.returning rfl
    simp [hinv.quiet.outstanding]
  | some (k, .op o f), hgood => exact (hgood.guarantee (f := f) rfl).1

/-- A request for one byte is answered at once. -/
def answeredRequest : List (Event ℕ Dev) :=
  [.call 1] ++ List.replicate 6 .tick ++ [.env .take, .env (.complete 0 [7])] ++ List.replicate 4 .tick

theorem read_sound_answeredRequest :
    ∃ c, rng.runUnder (fun _ => PollsInTime) start answeredRequest = some c ∧
      (c.log.map fun e => e.result) = [⟨1, [7]⟩] ∧ Sound c := by
  obtain ⟨c, hc⟩ : ∃ c, rng.runUnder (fun _ => PollsInTime) start answeredRequest = some c :=
    Option.isSome_iff_exists.mp (by decide)
  have hobs : (rng.runUnder (fun _ => PollsInTime) start answeredRequest).map (fun c =>
      c.log.map fun e => e.result) = some [⟨1, [7]⟩] := by decide
  rw [hc, Option.map_some, Option.some.injEq] at hobs
  exact ⟨c, hc, hobs, read_sound c (rng.reachUnder_of_run _ hc)⟩

/-! ### What a timeout breaks -/

/-- While the device does not answer, the polling loop polls its budget out. -/
theorem poll_timeout (hs : s.q.usedIdx = ctx.lastUsedIdx) (count k : ℕ) (f : ℕ → Drv (Ctx × Ret)) (p : Ctx)
    (l : List Entry) : rng.run ⟨p, s, some (k, poll ctx count >>= f), l⟩ (List.replicate (count + 1) .tick) =
      some ⟨p, s, some (k, f 0), l⟩ := by
  induction count with
  | zero => rfl
  | succ count ih =>
    rw [List.replicate_succ]
    show rng.run ⟨p, s, some (k, (if s.q.usedIdx = ctx.lastUsedIdx then poll ctx count else ret (count + 1)) >>= f), l⟩
      (List.replicate (count + 1) .tick) = _
    rw [if_pos hs]
    exact ih

/-- The memory when the device has taken the first request, of one byte. -/
def takenRequest : Mem :=
  ⟨{ Virtqueue.zero with
      desc := Function.update (fun _ => ⟨0, 0, 0, 0⟩) 0 ⟨0, 1, descFWrite, 0⟩
      avail := Function.update (fun _ => 0) 0 0
      availIdx := 1
      lastAvail := 1
      held := [0] }, fun _ => 0, 1, [0], []⟩

/-- The device takes a request and does not answer it. The call times out and marks its
descriptor free; the next call is about to publish it again, while the device holds
it. -/
theorem read_publishes_held : ¬ ∀ c, rng.Reach start c → Sound c := by
  intro h
  let ctx := start.priv.setInUse 0 true
  -- the first call, up to its polling loop
  have h₁ : rng.Reach start ⟨start.priv, takenRequest, some (1, poll ctx timeoutStart >>= finish ctx 0 1), []⟩ :=
    rng.reach_of_run (show rng.run start ([.call 1] ++ List.replicate 6 .tick ++ [.env .take]) = _ from rfl)
  have hidle : takenRequest.q.usedIdx = ctx.lastUsedIdx := rfl
  have h₂ := rng.reach_of_run (poll_timeout hidle timeoutStart 1 (finish ctx 0 1) start.priv [])
  -- it returns, and the second call gets as far as the available ring
  have h₃ := rng.reach_of_run (show rng.run ⟨start.priv, takenRequest, some (1, finish ctx 0 1 0), []⟩
    [.tick, .call 1, .tick, .tick] = some _ from rfl)
  have hsound := h _ ((h₁.trans h₂).trans h₃)
  exact hsound.publishes _ _ _ _ rfl (by decide)

end Yasouos.Drivers.VirtioRng
