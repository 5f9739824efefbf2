import Yasouos.Drivers.VirtioRng

/-!
# A prompt random number generator

What `virtio_rng_read` returns when the device answers every request before the driver
has polled its budget out, with as many bytes as the request asks for.

## What is proved

`read_prompt`: a call that asks for something returns as many bytes as it asks for, but
no more than the 64 of the buffer in the context, and they are those that the device
wrote for a request. So a call that asks for more gets less, and is not told so.
-/

namespace Yasouos.Drivers.VirtioRng

open Theory Prog Virtqueue

/-- The device has answered when the last poll that counts is made, and what it has written has the
length of the descriptor. -/
def Prompt : Op → Mem → Prop
  | .poll ctx count, s => count = 1 → s.q.usedIdx ≠ ctx.lastUsedIdx
  | .queue (.used slot), s => (s.q.used slot).len = (s.q.desc (s.q.used slot).id).len
  | _, _ => True

instance : (o : Op) → (s : Mem) → Decidable (Prompt o s)
  | .poll ctx count, s => inferInstanceAs (Decidable (count = 1 → s.q.usedIdx ≠ ctx.lastUsedIdx))
  | .queue (.used slot), s => inferInstanceAs (Decidable ((s.q.used slot).len = (s.q.desc (s.q.used slot).id).len))
  | .queue .availIdx, _ | .queue .usedIdx, _ | .queue (.writeDesc _ _), _ | .queue (.writeAvail _ _), _
  | .queue (.writeAvailIdx _), _ | .readBuffer _, _ | .notify, _ => isTrue trivial

theorem Prompt.pollsInTime {o : Op} {s : Mem} (h : Prompt o s) : PollsInTime o s := by
  cases o with
  | poll ctx count => exact h
  | queue o => trivial
  | readBuffer i => trivial
  | notify => trivial

variable {s : Mem} {ctx : Ctx} {d size count n : ℕ} {done : List Completion} {log : List Entry}

/-! ### What a request asks for -/

/-- Descriptor `d` asks for `size` bytes. -/
def Asks (d size : ℕ) (s : Mem) : Prop := (s.q.desc d).len = size

/-- The device does not write the descriptors. -/
theorem device_desc {e : Dev} {s' : Mem} (h : device e s = some s') : s'.q.desc = s.q.desc := by
  cases e with
  | take =>
    simp only [device, Option.map_eq_some_iff] at h
    obtain ⟨q, hq, rfl⟩ := h
    exact (take_frame hq).1
  | write k i b =>
    simp only [device] at h
    split at h
    · cases h
    · split_ifs at h
      cases h
      rfl
  | complete k bytes =>
    simp only [device] at h
    split at h
    · split_ifs at h
      cases h
      rfl
    · cases h

theorem Asks.stable (d size : ℕ) : rng.Stable (Asks d size) := by
  intro e s s' h he
  rw [Asks, device_desc he]
  exact h

/-- The access writes no descriptor. -/
def LeavesDesc (o : Op) : Prop := ∀ i v, o ≠ .queue (.writeDesc i v)

theorem LeavesDesc.exec_desc {o : Op} (h : LeavesDesc o) (s : Mem) : (exec o s).2.q.desc = s.q.desc := by
  cases o with
  | queue o =>
    cases o with
    | writeDesc i v => exact absurd rfl (h i v)
    | _ => rfl
  | _ => rfl

/-- What writes no descriptor leaves the request as it is. -/
theorem Asks.safe {α : Type} {A : Op → Mem → Prop} {p : Drv α} (hp : p.All LeavesDesc fun _ => True)
    (h : Asks d size s) : p.Safe rng.toMachine A (fun _ _ => True) (fun _ s' => Asks d size s') s := by
  refine (Safe.of_all (A := A) hp (Asks.stable d size) ?_ h).mono fun _ _ h => h.2
  intro o s ho hs
  refine ⟨trivial, ?_⟩
  show ((exec o s).2.q.desc d).len = size
  rw [ho.exec_desc]
  exact hs

/-- A request that is published asks for as many bytes as it should. -/
theorem publish_asks {A : Op → Mem → Prop} :
    (publish d size).Safe rng.toMachine A (fun _ _ => True) (fun _ s' => Asks d size s') s := by
  intro s' _
  refine ⟨trivial, fun _ => Asks.safe ?_ ?_⟩
  · refine ⟨by simp [LeavesDesc], fun i => ⟨by simp [LeavesDesc], fun _ => ⟨by simp [LeavesDesc], fun j => ?_⟩⟩⟩
    exact ⟨by simp [LeavesDesc], fun _ => ⟨by simp [LeavesDesc], fun _ => trivial⟩⟩
  · show (Function.update s'.q.desc d ⟨0, size, descFWrite, 0⟩ d).len = size
    rw [Function.update_self]

theorem poll_leaves (ctx : Ctx) (count : ℕ) : (poll ctx count).All LeavesDesc fun _ => True := by
  induction count with
  | zero => exact ⟨by simp [LeavesDesc], fun _ => trivial⟩
  | succ count ih =>
    refine ⟨by simp [LeavesDesc], fun (idx : ℕ) => ?_⟩
    show Prog.All _ _ (if idx = ctx.lastUsedIdx then poll ctx count else ret (count + 1))
    split_ifs
    · exact ih
    · trivial

/-! ### Calls -/

/-- Consuming an answer that has the length of its descriptor. -/
theorem finish_prompt {bytes : List UInt8} (hcount : count ≠ 0) (h : Answered d size ctx.lastUsedIdx done bytes s)
    (hask : Asks d size s) :
    (finish ctx d size count).Safe rng.toMachine Prompt Promise (fun r s' =>
      (r = (ctx.consumed d, ⟨bytes.length, bytes⟩) ∧ Answered d size ctx.lastUsedIdx done bytes s') ∧
        bytes.length = size) s := by
  have hsafe := (finish_safe hcount h).assume fun o s => Prompt.pollsInTime (o := o) (s := s)
  rw [finish, if_neg hcount] at hsafe ⊢
  intro s₁ hr
  obtain ⟨hG, hk⟩ := hsafe s₁ hr
  refine ⟨hG, fun hA => (hk hA).mono fun r s' hpost => ⟨hpost, ?_⟩⟩
  have h₁ := (Answered.stable _ _ _ _ _).reach hr h
  have hask₁ : (s₁.q.desc d).len = size := (Asks.stable d size).reach hr hask
  have hlen : (s₁.q.used (ctx.lastUsedIdx % queueSize)).len =
      (s₁.q.desc (s₁.q.used (ctx.lastUsedIdx % queueSize)).id).len := hA
  rw [h₁.used] at hlen
  exact hlen.trans hask₁

/-- **A call of `virtio_rng_read`** on a prompt device returns as many bytes as it asks for, up to the size of the
buffer, and they are what the device wrote for a request. -/
theorem read_prompt (h : Inv log ctx s) (hn : n ≠ 0) :
    (virtioRngRead n ctx).Safe rng.toMachine Prompt Promise
      (fun r s' => (∃ log', Inv log' r.1 s') ∧ ∃ a ∈ s'.done, r.2 = ⟨(min n bufferSize : ℕ), a.bytes⟩ ∧
        a.bytes.length = min n bufferSize) s := by
  have hmin : (if n > bufferSize then bufferSize else n) = min n bufferSize := by
    simp only [bufferSize]
    split_ifs <;> omega
  have hreq : ∀ r c, Entry.request ⟨n, ctx, r, c⟩ = firstFree queueSize ctx.descInUse := by
    simp [Entry.request, hn, h.initialized]
  simp only [virtioRngRead, h.initialized, Bool.not_true, Bool.false_eq_true, if_false, hn, hmin]
  cases hfree : firstFree queueSize ctx.descInUse with
  | none =>
    have := firstFree_none hfree 0 (by decide)
    rw [h.free 0 (by decide)] at this
    cases this
  | some d =>
    have hd := (firstFree_some hfree).1
    have hpolls : ∀ o s, Prompt o s → PollsInTime o s := fun _ _ => Prompt.pollsInTime
    refine Safe.bind ((((publish_safe h.quiet).assume hpolls).and publish_asks).mono ?_)
    rintro _ s₁ ⟨h₁, hask₁⟩
    have h₁' : Stage d _ (ctx.setInUse d true).lastUsedIdx _ s₁ := h₁
    refine Safe.bind ((((poll_safe h₁').assume hpolls).and (Asks.safe (poll_leaves _ _) hask₁)).mono ?_)
    rintro count s₂ ⟨⟨hcount, bytes, h₂⟩, hask₂⟩
    refine (finish_prompt hcount h₂ hask₂).mono ?_
    rintro r s₃ ⟨⟨rfl, h₃⟩, hlen⟩
    refine ⟨⟨_, h.append_served hd (fun r c => (hreq r c).trans hfree) h₃⟩, ⟨s.done.length, d, bytes⟩, ?_, ?_, hlen⟩
    · rw [h₃.done_eq]
      simp
    · rw [← hlen]

end Yasouos.Drivers.VirtioRng
