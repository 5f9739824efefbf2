import Mathlib.Logic.Function.Basic
import Mathlib.Data.List.Nodup

/-!
# Intrusive singly linked lists

A list that is threaded through its own elements: each element has a link, which
names the next element or is empty, and a head names the first. The elements live
in a pool, so the links are a function on the pool, and nothing in the
representation says that following them ever ends.

## The model

`walk` is the loop that visits the elements one after another until something is
found. It has an answer only when it ends within the number of visits it is given;
a pool has finitely many elements, so a walk that visits more of them than there
are has come round.

## What is proved

`Linked next h l` says that the links, followed from the head `h`, visit exactly
the elements of `l` and then end. Such an `l` is unique and has no duplicates, so
a linked list is acyclic (`Linked.nodup`). `walk_of_linked` computes every walk.
`Linked.push`, `Linked.snoc` and `Linked.unlink` are the updates: an element is put in
front or behind the last one, and the element after a given one is taken out.
-/

namespace Yasouos.Theory

variable {ι β : Type}

/-- The loop that visits the elements from the head `h` on, until `stop` finds
something, making at most `n` visits. -/
def walk (next : ι → Option ι) (stop : ι → Option β) : ℕ → Option ι → Option (Option β)
  | _, none => some none
  | 0, some _ => none
  | n + 1, some i =>
    match stop i with
    | some b => some (some b)
    | none => walk next stop n (next i)

/-- The links `next`, followed from `h`, visit the elements of `l` and end. -/
def Linked (next : ι → Option ι) : Option ι → List ι → Prop
  | h, [] => h = none
  | h, i :: l => h = some i ∧ Linked next (next i) l

variable {next next' : ι → Option ι} {h : Option ι} {l l' : List ι} {i j : ι}

theorem linked_nil_iff : Linked next h [] ↔ h = none := Iff.rfl

/-- A walk along a linked list looks at its elements in order. -/
theorem walk_of_linked (stop : ι → Option β) {n : ℕ} (hl : Linked next h l) (hn : l.length ≤ n) :
    walk next stop n h = some (l.findSome? stop) := by
  induction l generalizing h n with
  | nil =>
    rw [linked_nil_iff] at hl
    subst hl
    cases n <;> rfl
  | cons i l ih =>
    obtain ⟨rfl, hl⟩ := hl
    obtain ⟨n, rfl⟩ : ∃ m, n = m + 1 := ⟨n - 1, by simp at hn; omega⟩
    have hn' : l.length ≤ n := by simpa using hn
    cases hs : stop i with
    | some b => simp [walk, hs]
    | none => simp [walk, hs, ih hl hn']

namespace Linked

/-- The links determine the list. -/
theorem unique (hl : Linked next h l) (hl' : Linked next h l') : l = l' := by
  induction l generalizing h l' with
  | nil =>
    cases l' with
    | nil => rfl
    | cons i l' =>
      rw [linked_nil_iff] at hl
      exact absurd (hl.symm.trans hl'.1) (by simp)
  | cons i l ih =>
    obtain ⟨rfl, hl⟩ := hl
    cases l' with
    | nil => simp [linked_nil_iff] at hl'
    | cons j l' =>
      obtain ⟨hij, hl'⟩ := hl'
      obtain rfl : i = j := by simpa using hij
      rw [ih hl hl']

/-- The list from an element on is linked from that element. -/
theorem suffix {a b : List ι} (hl : Linked next h (a ++ i :: b)) : Linked next (next i) b := by
  induction a generalizing h with
  | nil => exact hl.2
  | cons k a ih => exact ih hl.2

/-- The loop that runs as long as there is a next element finds the last one. -/
theorem findSome?_last {a : List ι} (hl : Linked next h (a ++ [j])) :
    (a ++ [j]).findSome? (fun k => if (next k).isNone then some k else none) = some j := by
  induction a generalizing h with
  | nil =>
    obtain ⟨-, hj⟩ := hl
    rw [linked_nil_iff] at hj
    simp [hj]
  | cons k a ih =>
    have hk : (next k).isNone = false := by
      cases a with
      | nil => rw [hl.2.1]; rfl
      | cons m a => rw [hl.2.1]; rfl
    rw [List.cons_append, List.findSome?_cons, hk]
    exact ih hl.2

/-- A linked list does not come back to an element: from both occurrences the links
would visit the same list. -/
theorem nodup (hl : Linked next h l) : l.Nodup := by
  induction l generalizing h with
  | nil => exact List.nodup_nil
  | cons i l ih =>
    refine List.nodup_cons.2 ⟨?_, ih hl.2⟩
    intro hi
    obtain ⟨a, b, rfl⟩ := List.append_of_mem hi
    have hab : a ++ i :: b = b := unique hl.2 (suffix hl.2)
    have hlen := congrArg List.length hab
    simp at hlen
    omega

/-- Only the links of the elements of the list matter. -/
theorem congr (hl : Linked next h l) (hn : ∀ k ∈ l, next' k = next k) : Linked next' h l := by
  induction l generalizing h with
  | nil => exact hl
  | cons k l ih =>
    obtain ⟨rfl, hl⟩ := hl
    refine ⟨rfl, ?_⟩
    rw [hn k (by simp)]
    exact ih hl fun m hm => hn m (by simp [hm])

/-- The head of the list is taken out. -/
theorem pop (hl : Linked next (some i) l) : ∃ t, l = i :: t ∧ Linked next (next i) t := by
  cases l with
  | nil => simp [linked_nil_iff] at hl
  | cons k t =>
    obtain ⟨hk, ht⟩ := hl
    obtain rfl : i = k := by simpa using hk
    exact ⟨t, rfl, ht⟩

/-- Only the head, and the elements that a link of the list names, are in it. -/
theorem mem_cases (hl : Linked next h l) (hi : i ∈ l) : h = some i ∨ ∃ k ∈ l, next k = some i := by
  induction l generalizing h with
  | nil => simp at hi
  | cons k l ih =>
    obtain ⟨rfl, hl⟩ := hl
    rcases List.mem_cons.1 hi with rfl | hi
    · exact .inl rfl
    · rcases ih hl hi with hk | ⟨m, hm, hmi⟩
      · exact .inr ⟨k, by simp, hk⟩
      · exact .inr ⟨m, by simp [hm], hmi⟩

/-- What the link of an element of the list names is in the list, and is not its
head. -/
theorem next_mem (hl : Linked next h l) (hk : j ∈ l) (hj : next j = some i) : i ∈ l ∧ h ≠ some i := by
  obtain ⟨a, b, rfl⟩ := List.append_of_mem hk
  have hb : Linked next (some i) b := hj ▸ hl.suffix
  obtain ⟨t, rfl, -⟩ := hb.pop
  refine ⟨by simp, ?_⟩
  rintro rfl
  obtain ⟨t', hl', -⟩ := hl.pop
  have hnd := hl.nodup
  rw [hl'] at hnd
  cases a with
  | nil =>
    simp at hl'
    simp [← hl'.2] at hnd
  | cons m a =>
    simp at hl'
    simp [← hl'.2] at hnd

variable [DecidableEq ι]

/-- The link of an element that is not in the list may change. -/
theorem update (hl : Linked next h l) (hj : j ∉ l) (v : Option ι) : Linked (Function.update next j v) h l := by
  apply hl.congr
  intro k hk
  have hkj : k ≠ j := fun hkj => hj (hkj ▸ hk)
  rw [Function.update_of_ne hkj]

/-- An element is put in front of the list. -/
theorem push (hl : Linked next h l) (hj : j ∉ l) : Linked (Function.update next j h) (some j) (j :: l) := by
  refine ⟨rfl, ?_⟩
  rw [Function.update_self]
  exact hl.update hj h

/-- An element is put behind the last one. -/
theorem snoc {a : List ι} (hl : Linked next h (a ++ [j])) (hi : i ∉ a ++ [j]) (hnone : next i = none) :
    Linked (Function.update next j (some i)) h (a ++ [j] ++ [i]) := by
  induction a generalizing h with
  | nil =>
    obtain ⟨rfl, -⟩ := hl
    have hij : i ≠ j := fun hij => hi (by simp [hij])
    refine ⟨rfl, Function.update_self j (some i) next, ?_⟩
    rw [linked_nil_iff, Function.update_of_ne hij, hnone]
  | cons k a ih =>
    have hkj : k ≠ j := by
      rintro rfl
      exact (List.nodup_cons.1 hl.nodup).1 (List.mem_append_right _ (List.mem_singleton.2 rfl))
    obtain ⟨rfl, hl⟩ := hl
    refine ⟨rfl, ?_⟩
    rw [Function.update_of_ne hkj]
    exact ih hl fun hmem => hi (List.mem_cons_of_mem k hmem)

/-- The element that the link of `j` names is taken out, `j` taking over its
link. -/
theorem unlink (hl : Linked next h l) (hk : j ∈ l) (hj : next j = some i) :
    Linked (Function.update next j (next i)) h (l.erase i) := by
  induction l generalizing h with
  | nil => simp at hk
  | cons k l ih =>
    have hnd := hl.nodup
    have hne : some k ≠ some i := hl.1 ▸ (hl.next_mem hk hj).2
    have hki : k ≠ i := by simpa using hne
    rw [List.erase_cons_tail (by simpa using hki)]
    obtain ⟨rfl, hl⟩ := hl
    refine ⟨rfl, ?_⟩
    rcases List.mem_cons.1 hk with rfl | hk'
    · -- the element after the first: the rest of the list is as it was
      obtain ⟨t, rfl, ht⟩ := (hj ▸ hl).pop
      rw [Function.update_self, List.erase_cons_head]
      exact ht.update (by simp at hnd; exact hnd.1.2) _
    · have hjk : k ≠ j := fun hkj => (List.nodup_cons.1 hnd).1 (hkj ▸ hk')
      rw [Function.update_of_ne hjk]
      exact ih hl hk'

end Linked

end Yasouos.Theory
