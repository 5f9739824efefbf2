import Yasouos.Kernel.Resources

/-!
# What the calls of the resource manager do

`Resources` says what every call keeps. This module says what a call does: which devices
`resource_acquire_available` tries, in which order, and what it returns; and what
`resource_release` takes out of the list and what it leaves as it is.

## What is proved

`deviceMatchesDriver_iff` says when a device matches a driver. `acquireAvailable_eq` of `Resources` computes
an acquisition; `release_of_mem` does the same for the release of a resource of the list, wherever it stands,
and `release_push` is about a release that follows an acquisition at once. The main results,
`acquire_first_success` and `release_effect`, are about every state that calls lead to.
-/

namespace Yasouos.Kernel

/-! ### Matching -/

section Match

variable {Str : Type} [DecidableEq Str]

/-- The entry ends the id table. -/
def DeviceId.IsTerminator (e : DeviceId Str) : Prop := e.compatible = none ∧ e.vendorId = 0 ∧ e.deviceId = 0

/-- The compatible strings are equal, or the ids are equal and are not zero. -/
def DeviceId.Agrees (e : DeviceId Str) (device : Device Str) : Prop :=
  (∃ c, e.compatible = some c ∧ device.compatible = some c) ∨
    (e.vendorId ≠ 0 ∧ e.deviceId ≠ 0 ∧ device.vendorId = e.vendorId ∧ device.deviceId = e.deviceId)

omit [DecidableEq Str] in
theorem DeviceId.isEntry_iff (e : DeviceId Str) : e.isEntry = true ↔ ¬ e.IsTerminator := by
  obtain ⟨compatible, vendorId, deviceId⟩ := e
  cases compatible <;> simp [DeviceId.isEntry, DeviceId.IsTerminator, imp_iff_not_or]

theorem DeviceId.describes_iff (e : DeviceId Str) (device : Device Str) :
    e.describes device = true ↔ e.Agrees device := by
  simp only [DeviceId.describes, DeviceId.Agrees, Bool.or_eq_true, Bool.and_eq_true, bne_iff_ne, beq_iff_eq, and_assoc]
  refine or_congr_left ?_
  cases e.compatible <;> cases device.compatible <;> simp [eq_comm]

omit [DecidableEq Str] in
/-- An entry that agrees with a device does not end the table. -/
theorem DeviceId.Agrees.not_terminator {e : DeviceId Str} {device : Device Str} (h : e.Agrees device) :
    ¬ e.IsTerminator := by
  rintro ⟨hc, hv, -⟩
  rcases h with ⟨c, hc', -⟩ | ⟨hv', -⟩
  · rw [hc] at hc'
    cases hc'
  · exact hv' hv

theorem idTableMatches_iff (device : Device Str) (table : List (DeviceId Str)) :
    idTableMatches device table = true ↔
      ∃ before e after, table = before ++ e :: after ∧ (∀ x ∈ before, ¬ x.IsTerminator) ∧ e.Agrees device := by
  induction table with
  | nil => simp [idTableMatches]
  | cons x table ih =>
    rw [idTableMatches]
    by_cases hx : x.isEntry = true
    swap
    · -- the table ends here
      have hterm : x.IsTerminator := by
        rw [DeviceId.isEntry_iff, not_not] at hx
        exact hx
      rw [if_neg hx]
      refine iff_of_false (by simp) ?_
      rintro ⟨before, e, after, heq, hbefore, he⟩
      cases before with
      | nil =>
        obtain ⟨rfl, -⟩ := List.cons.inj heq
        exact he.not_terminator hterm
      | cons y before =>
        obtain ⟨rfl, -⟩ := List.cons.inj heq
        exact hbefore x (by simp) hterm
    rw [if_pos hx]
    by_cases hdesc : x.describes device = true
    · rw [if_pos hdesc]
      exact iff_of_true rfl ⟨[], x, table, rfl, by simp, (DeviceId.describes_iff x device).1 hdesc⟩
    · rw [if_neg hdesc, ih]
      constructor
      · rintro ⟨before, e, after, rfl, hbefore, he⟩
        refine ⟨x :: before, e, after, rfl, ?_, he⟩
        intro y hy
        rcases List.mem_cons.1 hy with rfl | hy
        · exact (DeviceId.isEntry_iff y).1 hx
        · exact hbefore y hy
      · rintro ⟨before, e, after, heq, hbefore, he⟩
        cases before with
        | nil =>
          obtain ⟨rfl, -⟩ := List.cons.inj heq
          exact absurd ((DeviceId.describes_iff x device).2 he) hdesc
        | cons y before =>
          obtain ⟨rfl, rfl⟩ := List.cons.inj heq
          exact ⟨before, e, after, rfl, fun z hz => hbefore z (by simp [hz]), he⟩

/-- **A device matches a driver** when an entry of the driver's id table, before the one that ends
it, agrees with the device. -/
theorem deviceMatchesDriver_iff (device : Device Str) (driver : Driver Str) :
    deviceMatchesDriver device driver = true ↔
      ∃ before e after, driver.idTable = some (before ++ e :: after) ∧ (∀ x ∈ before, ¬ x.IsTerminator) ∧
        e.Agrees device := by
  rw [deviceMatchesDriver]
  cases driver.idTable with
  | none => simp
  | some table =>
    simp only [Option.some.injEq]
    exact idTableMatches_iff device table

end Match

namespace Resources

open Yasouos.Theory

variable {Str : Type} [DecidableEq Str] {s s' : Manager Str} {l : List Slot} {r : Slot} {i : ℕ}

/-! ### Acquiring -/

/-- Whatever calls have been made, whatever devices there are and whatever `init_context` returns for
each of them: let `cands` be the devices that match the driver and that no resource of the allocations
list `l` holds, in list order. Then `resource_acquire_available`, with a driver and a context, does one of
three things.

* The pool has no free slot, and the call returns `NULL` without calling `init_context`.
* No device of `cands` initialises, and the call returns `NULL` after it has called `init_context` for each
  of them once, in order.
* The first device that initialises is `i`; the call calls `init_context` for the devices before `i` and
  for `i`, and returns a resource that holds `i`. It is a slot that was free, and is now in front of the list;
  the other slots are as they were.

So it returns `NULL` if and only if no device of `cands` initialises or the pool has no free slot, and then
the state is as it was. A driver without an `init_context` initialises every device. A device matches a
driver when an entry of the id table, before the one that ends it, agrees with the device. -/
theorem acquire_first_success (devices : List (Device Str)) (calls : List (Call Str)) (driver : Driver Str)
    (context : ℕ) (init : ℕ → ℤ) :
    ∃ s l cands h t s', execAll calls (start devices) = some s ∧ Linked s.next s.allocations l ∧
      cands.Pairwise (· < ·) ∧
      (∀ i, i ∈ cands ↔ ∃ device, devices[i]? = some device ∧ deviceMatchesDriver device driver = true ∧
        ∀ k ∈ l, (s.pool k).device ≠ some i) ∧
      (∀ device, deviceMatchesDriver device driver = true ↔
        ∃ before e after, driver.idTable = some (before ++ e :: after) ∧ (∀ x ∈ before, ¬ x.IsTerminator) ∧
          e.Agrees device) ∧
      acquireAvailable (some driver) (some context) init s = some (h, t, s') ∧
      (((∀ k, (s.pool k).inUse = true) ∧ h = none ∧ t = [] ∧ s' = s) ∨
        ((∃ k, (s.pool k).inUse = false) ∧ (∀ i ∈ cands, initFails driver init i = true) ∧ h = none ∧
          t = initEvents driver context cands ∧ s' = s) ∨
        ∃ before i after r, cands = before ++ i :: after ∧ (∀ j ∈ before, initFails driver init j = true) ∧
          initFails driver init i = false ∧ (s.pool r).inUse = false ∧ h = some r ∧
          t = initEvents driver context (before ++ [i]) ∧ s'.devices = s.devices ∧
          Linked s'.next s'.allocations (r :: l) ∧ (∀ k, k ≠ r → s'.pool k = s.pool k) ∧
          s'.pool r = ⟨some i, some driver, some context, s.allocations, true⟩) ∧
      (h = none ↔ (∀ i ∈ cands, initFails driver init i = true) ∨ ∀ k, (s.pool k).inUse = true) ∧
      (h = none → s' = s) := by
  obtain ⟨s, l, hrun, hs, hdev⟩ := execAll_holds calls (Holds.start devices)
  have hdev' : s.devices = devices := hdev
  have hmem : ∀ i, i ∈ candidates driver s ↔ ∃ device, devices[i]? = some device ∧
      deviceMatchesDriver device driver = true ∧ ∀ k ∈ l, (s.pool k).device ≠ some i := by
    intro i
    rw [← hdev']
    exact mem_candidates_iff driver hs
  have hpair := candidates_pairwise driver s
  have hmatch : ∀ device, deviceMatchesDriver device driver = true ↔ ∃ before e after,
      driver.idTable = some (before ++ e :: after) ∧ (∀ x ∈ before, ¬ x.IsTerminator) ∧ e.Agrees device :=
    fun device => deviceMatchesDriver_iff device driver
  rcases acquireAvailable_eq driver context init hs with ⟨hfull, heq⟩ | ⟨r, hr, heq⟩
  · exact ⟨s, l, _, none, [], s, hrun, hs.linked, hpair, hmem, hmatch, heq, .inl ⟨hfull, rfl, rfl, rfl⟩,
      iff_of_true rfl (.inr hfull), fun _ => rfl⟩
  rcases search_cases driver context init s r (candidates driver s) with
    ⟨hfail, hsearch⟩ | ⟨before, i, after, hcands, hbefore, hi, hsearch⟩
  · rw [hsearch] at heq
    exact ⟨s, l, _, none, _, s, hrun, hs.linked, hpair, hmem, hmatch, heq, .inr (.inl ⟨⟨r, hr⟩, hfail, rfl, rfl, rfl⟩),
      iff_of_true rfl (.inl hfail), fun _ => rfl⟩
  · rw [hsearch] at heq
    have hicand : i ∈ candidates driver s := by simp [hcands]
    have hrl : r ∉ l := by simp [hs.inUse, hr]
    obtain ⟨device, hidev, hm, hfree⟩ := (mem_candidates_iff driver hs).1 hicand
    have hs' := hs.push hrl context hidev hm hfree
    obtain ⟨hnew, hold⟩ := push_pool driver context s r i
    refine ⟨s, l, _, some r, _, _, hrun, hs.linked, hpair, hmem, hmatch, heq, .inr (.inr ?_), ?_, by simp⟩
    · exact ⟨before, i, after, r, hcands, hbefore, hi, hr, rfl, rfl, rfl, hs'.linked, hold, hnew⟩
    · refine iff_of_false (by simp) ?_
      rintro (hall | hfull)
      · rw [hall i hicand] at hi
        cases hi
      · rw [hfull r] at hr
        cases hr

/-! ### Releasing -/

/-- The resources in use have a context. -/
def HasContexts (s : Manager Str) : Prop := ∀ k, (s.pool k).inUse = true → ∃ c, (s.pool k).context = some c

/-- **Release, computed**, for a resource of the list. The resource is taken out of the list and its
slot is emptied; of the other slots, only links change. -/
theorem release_of_mem (hs : Holds s l) (hr : r ∈ l) :
    ∃ s', release (some r) s = some (0, deinitEvents (s.pool r), s') ∧ Holds s' (l.erase r) ∧
      s'.devices = s.devices ∧ s'.pool r = .zero ∧
      ∀ k, k ≠ r → { s'.pool k with next := none } = { s.pool k with next := none } := by
  obtain ⟨s₁, heq, hl, hrel⟩ := resourceRemoveAllocation_of_mem hs hr
  have hsame := hrel.pool r
  simp only [Resource.mk.injEq] at hsame
  obtain ⟨-, hdriver, hcontext, -⟩ := hsame
  have hevents : deinitEvents (s₁.pool r) = deinitEvents (s.pool r) := by
    rw [deinitEvents, deinitEvents, hdriver, hcontext]
  refine ⟨resourceFree s₁ r, by simp [release, heq, hevents], hs.free hr hl hrel, hrel.devices, ?_, ?_⟩
  · simp [resourceFree, Manager.set, Resource.zero]
  · intro k hk
    rw [← hrel.pool k]
    simp [resourceFree, Manager.set, hk]

theorem release_of_not_mem (hs : Holds s l) (hr : r ∉ l) : release (some r) s = some (-1, [], s) := by
  simp [release, resourceRemoveAllocation_of_not_mem hs hr]

omit [DecidableEq Str] in
/-- A resource that has just been put in front of the list is taken out again, and everything is as it
was before. -/
theorem release_push (hr : s.pool r = .zero) (driver : Driver Str) (context i : ℕ) :
    release (some r) (s.push r i driver context) =
      some (0, deinitEvents ⟨some i, some driver, some context, s.allocations, true⟩, s) := by
  have hback : Function.update s.pool r .zero = s.pool := by rw [← hr, Function.update_eq_self]
  simp only [Resource.zero] at hback
  simp [release, resourceRemoveAllocation, Manager.push, resourceFree, Manager.set, hback]

/-- A call leaves a context in every resource in use. -/
theorem exec_hasContexts (hs : Holds s l) (hc : HasContexts s) {call : Call Str} (heq : call.exec s = some s') :
    HasContexts s' := by
  cases call with
  | acquire driver context init =>
    obtain ⟨h, t, s₁, hcall, hspec⟩ := acquire_spec init driver context hs
    have hexec : (Call.acquire driver context init).exec s = some s₁ := by simp [Call.exec, hcall]
    obtain rfl : s₁ = s' := Option.some.inj (hexec.symm.trans heq)
    rcases hspec with ⟨-, rfl⟩ | ⟨r, i, device, drv, ctx, -, -, -, -, -, -, -, rfl⟩
    · exact hc
    · obtain ⟨hnew, hold⟩ := push_pool drv ctx s r i
      intro k hk
      by_cases hkr : k = r
      · subst hkr
        exact ⟨ctx, by rw [hnew]⟩
      · rw [hold k hkr] at hk ⊢
        exact hc k hk
  | release r =>
    obtain ⟨v, t, s₁, hcall, hspec⟩ := release_spec hs r
    have hexec : (Call.release r).exec s = some s₁ := by simp [Call.exec, hcall]
    obtain rfl : s₁ = s' := Option.some.inj (hexec.symm.trans heq)
    rcases hspec with ⟨-, k, hk, rfl, -⟩ | ⟨-, -, -, rfl⟩
    swap
    · exact hc
    obtain ⟨s₂, hcall₂, -, -, hzero, hother⟩ := release_of_mem hs hk
    rw [hcall] at hcall₂
    obtain ⟨-, -, rfl⟩ : v = 0 ∧ t = deinitEvents (s.pool k) ∧ s₁ = s₂ := by simpa using hcall₂
    intro m hm
    by_cases hmk : m = k
    · subst hmk
      rw [hzero] at hm
      cases hm
    · have hsame := hother m hmk
      simp only [Resource.mk.injEq] at hsame
      obtain ⟨-, -, hcontext, -, huse⟩ := hsame
      rw [hcontext]
      exact hc m (huse ▸ hm)

/-- Every sequence of calls ends in a state where the pool agrees with the list and every resource in
use has a context. -/
theorem execAll_hasContexts (calls : List (Call Str)) (hs : Holds s l) (hc : HasContexts s) :
    ∃ s' l', execAll calls s = some s' ∧ Holds s' l' ∧ HasContexts s' ∧ s'.devices = s.devices := by
  induction calls generalizing s l with
  | nil => exact ⟨s, l, rfl, hs, hc, rfl⟩
  | cons call calls ih =>
    obtain ⟨s₁, l₁, heq₁, hs₁, hdev₁⟩ := exec_holds hs call
    obtain ⟨s₂, l₂, heq₂, hs₂, hc₂, hdev₂⟩ := ih hs₁ (exec_hasContexts hs hc heq₁)
    refine ⟨s₂, l₂, ?_, hs₂, hc₂, hdev₂.trans hdev₁⟩
    rw [execAll, List.foldlM_cons, heq₁]
    exact heq₂

/-- A device is taken when it is the first of the candidates that initialises. -/
theorem acquireAvailable_of_first (hs : Holds s l) (driver : Driver Str) (context : ℕ) (init : ℕ → ℤ)
    (hfree : (s.pool r).inUse = false) (hi : i ∈ candidates driver s) (hinit : initFails driver init i = false)
    (hfirst : ∀ j ∈ candidates driver s, j < i → initFails driver init j = true) :
    ∃ r' t, acquireAvailable (some driver) (some context) init s =
      some (some r', t, s.push r' i driver context) := by
  rcases acquireAvailable_eq driver context init hs with ⟨hfull, -⟩ | ⟨r', -, heq⟩
  · rw [hfull r] at hfree
    cases hfree
  rcases search_cases driver context init s r' (candidates driver s) with
    ⟨hfail, -⟩ | ⟨before, j, after, hcands, hbefore, hj, hsearch⟩
  · rw [hfail i hi] at hinit
    cases hinit
  obtain rfl : j = i := by
    -- a candidate before `i` fails, and one before `j` does
    have hpair := candidates_pairwise driver s
    rw [hcands] at hi hpair hfirst
    rcases List.mem_append.1 hi with hib | hia
    · rw [hbefore i hib] at hinit
      cases hinit
    rcases List.mem_cons.1 hia with rfl | hia
    · rfl
    · have hji : j < i := (List.pairwise_cons.1 (List.pairwise_append.1 hpair).2.1).1 i hia
      rw [hfirst j (by simp) hji] at hj
      cases hj
  exact ⟨r', _, by rw [heq, hsearch]⟩

/-- Whatever calls have been made and whatever devices there are, let `l` be the allocations list.

* `resource_release` of a resource of `l`, wherever it stands, returns 0. It calls the `deinit_context` of
  the resource's driver once, with the resource's context, if the driver has one. The list is `l` without the
  resource, the slot is empty, and the device, driver and context of every other slot are as they were. The
  device can be acquired again: no resource of the list holds it, and `resource_acquire_available` returns a
  resource for it whenever it is given a driver that the device matches and the device is the first candidate
  that initialises.
* When `resource_acquire_available` returns a resource, to release it at once returns 0 and leaves the state as
  it was before both calls.
* `resource_release` of a slot that is not in `l` returns -1, calls nothing and leaves the state as it was. -/
theorem release_effect (devices : List (Device Str)) (calls : List (Call Str)) :
    ∃ s l, execAll calls (start devices) = some s ∧ Linked s.next s.allocations l ∧
      (∀ r ∈ l, ∃ i device driver context s', (s.pool r).device = some i ∧ devices[i]? = some device ∧
        (s.pool r).driver = some driver ∧ (s.pool r).context = some context ∧
        release (some r) s =
          some (0, if driver.deinitContext then [.deinit driver context] else [], s') ∧
        Linked s'.next s'.allocations (l.erase r) ∧ s'.devices = s.devices ∧ s'.pool r = .zero ∧
        (∀ k, k ≠ r → (s'.pool k).device = (s.pool k).device ∧ (s'.pool k).driver = (s.pool k).driver ∧
          (s'.pool k).context = (s.pool k).context ∧ (s'.pool k).inUse = (s.pool k).inUse) ∧
        (∀ k ∈ l.erase r, (s'.pool k).device ≠ some i) ∧
        ∀ driver' context' init', deviceMatchesDriver device driver' = true →
          initFails driver' init' i = false →
          (∀ j ∈ candidates driver' s', j < i → initFails driver' init' j = true) →
          ∃ r' t s'', acquireAvailable (some driver') (some context') init' s' = some (some r', t, s'') ∧
            (s''.pool r').device = some i) ∧
      (∀ driver context init r t s', acquireAvailable driver context init s = some (some r, t, s') →
        ∃ t', release (some r) s' = some (0, t', s)) ∧
      ∀ r, r ∉ l → release (some r) s = some (-1, [], s) := by
  have hc₀ : HasContexts (start devices) := by simp [HasContexts, start, Resource.zero]
  obtain ⟨s, l, hrun, hs, hc, hdev⟩ := execAll_hasContexts calls (Holds.start devices) hc₀
  have hdev' : s.devices = devices := hdev
  refine ⟨s, l, hrun, hs.linked, ?_, ?_, fun r hr => release_of_not_mem hs hr⟩
  · intro r hr
    obtain ⟨i, device, driver, hi, hidev, hdriver, -⟩ := hs.matched r hr
    obtain ⟨context, hcontext⟩ := hc r ((hs.inUse r).1 hr)
    obtain ⟨s', hrel, hs', hdevs, hzero, hother⟩ := release_of_mem hs hr
    have hsame : ∀ k, k ≠ r → (s'.pool k).device = (s.pool k).device ∧ (s'.pool k).driver = (s.pool k).driver ∧
        (s'.pool k).context = (s.pool k).context ∧ (s'.pool k).inUse = (s.pool k).inUse := by
      intro k hk
      have h := hother k hk
      simp only [Resource.mk.injEq] at h
      exact ⟨h.1, h.2.1, h.2.2.1, h.2.2.2.2⟩
    have hunheld : ∀ k ∈ l.erase r, (s'.pool k).device ≠ some i := by
      intro k hk hki
      rw [hs.linked.nodup.mem_erase_iff] at hk
      rw [(hsame k hk.1).1, ← hi] at hki
      exact hk.1 (hs.exclusive k hk.2 r hr hki)
    refine ⟨i, device, driver, context, s', hi, by rw [← hdev']; exact hidev, hdriver, hcontext, ?_, hs'.linked,
      hdevs, hzero, hsame, hunheld, ?_⟩
    · rw [hrel, deinitEvents, hdriver, hcontext]
    · intro driver' context' init' hm hinit hfirst
      have hcand : i ∈ candidates driver' s' :=
        (mem_candidates_iff driver' hs').2 ⟨device, by rw [hdevs]; exact hidev, hm, hunheld⟩
      have hfree : (s'.pool r).inUse = false := by rw [hzero]; rfl
      obtain ⟨r', t, heq⟩ := acquireAvailable_of_first hs' driver' context' init' hfree hcand hinit hfirst
      exact ⟨r', t, _, heq, by rw [(push_pool driver' context' s' r' i).1]⟩
  · intro driver context init r t s' hacq
    obtain ⟨h, t₁, s₁, heq, hspec⟩ := acquire_spec init driver context hs
    rw [hacq] at heq
    obtain ⟨rfl, -, rfl⟩ : some r = h ∧ t = t₁ ∧ s' = s₁ := by simpa using heq
    rcases hspec with ⟨hnone, -⟩ | ⟨r', i, device, drv, ctx, hr', -, -, hrl, -, -, -, rfl⟩
    · cases hnone
    · obtain rfl : r = r' := Option.some.inj hr'
      exact ⟨_, release_push (hs.zero_of_not_mem hrl) drv ctx i⟩

end Resources

end Yasouos.Kernel
