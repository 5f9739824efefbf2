import Mathlib.Data.List.Perm.Basic
import Mathlib.Data.List.Nodup

/-!
# Walking a forest with one record

A depth-first walk over a forest begins and ends every node. A walk that keeps one
record for the node it is in, which it sets when a node begins and does not restore
when a node ends, has at the end of a node the record of the node that began last:
the node's own if it has no children, and otherwise that of a descendant.

## What is proved

`Forest.ends` has the labels in the order in which the nodes end; `Forest.atEnds` has
the labels that such a walk has at hand when they do. `Forest.filter_atEnds_perm_iff`
says when the walk gets the labels of some kind right, each of them once: no node of
that kind has children, and none is the last child of its parent.

A walk that keeps one flag, set when some node of the top level begins and cleared when
it ends, takes what is below that node for the node's own. `Forest.lastUnder` is the last
value that it finds while the flag is set, and `Forest.lastUnder_eq_iff` says when that is
a value of a node of the top level.
-/

namespace Yasouos.Theory

/-- A forest, as the first node with its label and its children, and the rest. -/
inductive Forest (α : Type) : Type where
  /-- There is no node. -/
  | nil
  /-- A node, and the nodes after it. -/
  | node (a : α) (children rest : Forest α)

namespace Forest

variable {α β : Type}

/-- The labels, in the order in which the nodes end. -/
def ends : Forest α → List α
  | nil => []
  | node a children rest => children.ends ++ a :: rest.ends

/-- The label of the node that begins last. -/
def lastBegun : Forest α → Option α
  | nil => none
  | node a children rest => rest.lastBegun.or (some (children.lastBegun.getD a))

/-- The label of the last node of the top level. -/
def lastSibling : Forest α → Option α
  | nil => none
  | node a _ rest => rest.lastSibling.or (some a)

/-- At the end of each node, the label of the node that began last. -/
def atEnds : Forest α → List α
  | nil => []
  | node a children rest => children.atEnds ++ children.lastBegun.getD a :: rest.atEnds

/-- No node that satisfies `p` has children, and none is the last child of its
parent. -/
def Apart (p : α → Bool) : Forest α → Prop
  | nil => True
  | node a children rest =>
    (p a = true → children = nil) ∧ (∀ b, children.lastSibling = some b → p b = false) ∧
      children.Apart p ∧ rest.Apart p

/-- The forest with other labels. -/
def map (g : α → β) : Forest α → Forest β
  | nil => nil
  | node a children rest => node (g a) (children.map g) (rest.map g)

variable {p : α → Bool} {a b : α} {f children rest : Forest α}

theorem lastBegun_eq_none_iff : f.lastBegun = none ↔ f = nil := by
  cases f with
  | nil => simp [lastBegun]
  | node a children rest => simp [lastBegun]

theorem lastSibling_eq_none_iff : f.lastSibling = none ↔ f = nil := by
  cases f with
  | nil => simp [lastSibling]
  | node a children rest => simp [lastSibling]

theorem lastBegun_node_eq_some_iff :
    (node a children rest).lastBegun = some b ↔
      rest.lastBegun = some b ∨ (rest = nil ∧ children.lastBegun.getD a = b) := by
  rw [lastBegun, Option.or_eq_some_iff, lastBegun_eq_none_iff, Option.some_inj]

theorem lastSibling_node_eq_some_iff :
    (node a children rest).lastSibling = some b ↔ rest.lastSibling = some b ∨ (rest = nil ∧ a = b) := by
  rw [lastSibling, Option.or_eq_some_iff, lastSibling_eq_none_iff, Option.some_inj]

/-- The node that begins last has its own label at hand when it ends. -/
theorem lastBegun_mem_atEnds (hf : f.lastBegun = some b) : b ∈ f.atEnds := by
  induction f with
  | nil => simp [lastBegun] at hf
  | node a children rest _ ihr =>
    rcases lastBegun_node_eq_some_iff.1 hf with hr | ⟨-, hc⟩
    · simp [atEnds, ihr hr]
    · simp [atEnds, hc]

theorem getD_lastBegun_cases (hc : ∀ b, children.lastBegun = some b → b ∈ children.ends) :
    children.lastBegun.getD a ∈ children.ends ∨ children.lastBegun.getD a = a := by
  cases h : children.lastBegun with
  | none => exact .inr rfl
  | some c => exact .inl (hc c h)

theorem lastBegun_mem_ends (hf : f.lastBegun = some b) : b ∈ f.ends := by
  induction f generalizing b with
  | nil => simp [lastBegun] at hf
  | node a children rest ihc ihr =>
    simp only [ends, List.mem_append, List.mem_cons]
    rcases lastBegun_node_eq_some_iff.1 hf with hr | ⟨-, rfl⟩
    · exact .inr (.inr (ihr hr))
    · exact (getD_lastBegun_cases fun b hb => ihc hb).imp_right .inl

/-- The labels at hand are labels of the forest. -/
theorem atEnds_subset : f.atEnds ⊆ f.ends := by
  induction f with
  | nil => simp [atEnds]
  | node a children rest ihc ihr =>
    intro x hx
    simp only [atEnds, List.mem_append, List.mem_cons] at hx
    simp only [ends, List.mem_append, List.mem_cons]
    rcases hx with hx | rfl | hx
    · exact .inl (ihc hx)
    · exact (getD_lastBegun_cases fun b hb => lastBegun_mem_ends hb).imp_right .inl
    · exact .inr (.inr (ihr hx))

theorem map_eq_nil_iff {g : α → β} : f.map g = nil ↔ f = nil := by
  cases f <;> simp [map]

theorem lastSibling_map {g : α → β} : (f.map g).lastSibling = f.lastSibling.map g := by
  induction f with
  | nil => rfl
  | node a children rest _ ihr =>
    rw [map, lastSibling, lastSibling, ihr]
    cases rest.lastSibling <;> rfl

/-- The condition is about the labels only. -/
theorem apart_map {g : α → β} {q : β → Bool} : (f.map g).Apart q ↔ f.Apart fun a => q (g a) := by
  induction f with
  | nil => simp [map, Apart]
  | node a children rest ihc ihr => simp [map, Apart, map_eq_nil_iff, lastSibling_map, ihc, ihr]

/-- Among the nodes that satisfy `p`, the one that begins last is the last of the top
level. -/
theorem Apart.lastBegun_iff (hf : f.Apart p) (hp : p b = true) :
    f.lastBegun = some b ↔ f.lastSibling = some b := by
  induction f with
  | nil => simp [lastBegun, lastSibling]
  | node a children rest ihc ihr =>
    obtain ⟨hleaf, hlast, hc, hr⟩ := hf
    rw [lastBegun_node_eq_some_iff, lastSibling_node_eq_some_iff, ihr hr]
    refine or_congr_right (and_congr_right fun _ => ?_)
    cases hcb : children.lastBegun with
    | none => simp
    | some c =>
      have hne : children ≠ nil := fun hnil => by simp [hnil, lastBegun] at hcb
      have hpa : ¬ p a = true := fun hpa => hne (hleaf hpa)
      have hcb' : c ≠ b := by
        rintro rfl
        have := hlast c ((ihc hc).1 hcb)
        simp [hp] at this
      have hab : a ≠ b := by
        rintro rfl
        exact hpa hp
      simp [hcb', hab]

/-- At the end of a node the walk has the right label at hand, when it is one that
matters. -/
theorem getD_lastBegun_iff (hc : children.Apart p) (ha : a ∉ children.ends) :
    (∀ b, p b = true → (children.lastBegun.getD a = b ↔ a = b)) ↔
      (p a = true → children = nil) ∧ ∀ b, children.lastSibling = some b → p b = false := by
  cases hlast : children.lastBegun with
  | none =>
    have hnil := lastBegun_eq_none_iff.1 hlast
    simp [hnil, lastSibling]
  | some c =>
    have hne : children ≠ nil := fun hnil => by simp [hnil, lastBegun] at hlast
    have hca : c ≠ a := fun hca => ha (hca ▸ lastBegun_mem_ends hlast)
    have hsib : (∀ b, children.lastSibling = some b → p b = false) ↔ ¬ p c = true := by
      constructor
      · intro h hp
        have := h c ((hc.lastBegun_iff hp).1 hlast)
        simp [hp] at this
      · intro hp b hb
        by_contra hpb
        rw [Bool.not_eq_false] at hpb
        have hcb : c = b := Option.some_inj.1 (hlast.symm.trans ((hc.lastBegun_iff hpb).2 hb))
        exact hp (hcb ▸ hpb)
    simp only [hsib, hne, Option.getD_some, imp_false]
    constructor
    · intro h
      exact ⟨fun hp => hca ((h a hp).2 rfl), fun hp => hca.symm ((h c hp).1 rfl)⟩
    · rintro ⟨hpa, hpc⟩ b hb
      have hcb : c ≠ b := fun hcb => hpc (hcb ▸ hb)
      have hab : a ≠ b := fun hab => hpa (hab ▸ hb)
      simp [hcb, hab]

section Count

variable [DecidableEq α]

theorem filter_perm_filter_iff {l l' : List α} :
    (l.filter p).Perm (l'.filter p) ↔ ∀ b, p b = true → l.count b = l'.count b := by
  rw [List.perm_iff_count]
  refine forall_congr' fun b => ?_
  by_cases hp : p b = true
  · simp [hp, List.count_filter]
  · have hl : ∀ l : List α, (l.filter p).count b = 0 := fun l => List.count_eq_zero.2 (by simp [hp])
    simp [hl, hp]

theorem count_atEnds_node :
    (node a children rest).atEnds.count b =
      children.atEnds.count b + (if children.lastBegun.getD a = b then 1 else 0) + rest.atEnds.count b := by
  rw [atEnds, List.count_append, List.count_cons]
  simp only [beq_iff_eq]
  omega

theorem count_ends_node :
    (node a children rest).ends.count b =
      children.ends.count b + (if a = b then 1 else 0) + rest.ends.count b := by
  rw [ends, List.count_append, List.count_cons]
  simp only [beq_iff_eq]
  omega

theorem count_atEnds_eq_zero (hb : b ∉ f.ends) : f.atEnds.count b = 0 :=
  List.count_eq_zero.2 fun h => hb (atEnds_subset h)

/-- The counts agree when they do in the children, at the end of the node, and in the
rest. The labels of the three are different, so nothing missing in one of them is made
up for in another. -/
theorem count_node_iff (hnd : (node a children rest).ends.Nodup) :
    (∀ b, p b = true → (node a children rest).atEnds.count b = (node a children rest).ends.count b) ↔
      (∀ b, p b = true → children.atEnds.count b = children.ends.count b) ∧
      (∀ b, p b = true → (children.lastBegun.getD a = b ↔ a = b)) ∧
      ∀ b, p b = true → rest.atEnds.count b = rest.ends.count b := by
  simp only [count_atEnds_node, count_ends_node]
  constructor
  swap
  · rintro ⟨hc, hx, hr⟩ b hb
    rw [hc b hb, hr b hb]
    simp only [hx b hb]
  intro h
  rw [ends, List.nodup_append'] at hnd
  obtain ⟨hcnd, har, hdis⟩ := hnd
  have hac : a ∉ children.ends := fun ha => hdis ha (by simp)
  have hcr : ∀ b, b ∈ children.ends → b ∉ rest.ends := fun b hb hbr => hdis hb (by simp [hbr])
  have har : a ∉ rest.ends := (List.nodup_cons.1 har).1
  have hx : ∀ b, p b = true → (children.lastBegun.getD a = b ↔ a = b) := by
    intro b hb
    cases hlast : children.lastBegun with
    | none => simp
    | some c =>
      simp only [hlast, Option.getD_some] at h
      have hce := lastBegun_mem_ends hlast
      have hca : c ≠ a := fun hca => hac (hca ▸ hce)
      have hcb : c ≠ b := by
        rintro rfl
        -- it is at hand when it ends, and once more at the end of the node
        have hone : children.ends.count c = 1 := List.count_eq_one_of_mem hcnd hce
        have hmore : 0 < children.atEnds.count c := List.count_pos_iff.2 (lastBegun_mem_atEnds hlast)
        have hrest : rest.ends.count c = 0 := List.count_eq_zero.2 (hcr c hce)
        have := h c hb
        simp only [hone, hrest, hca.symm, if_true, if_false] at this
        omega
      have hab : a ≠ b := by
        rintro rfl
        have := h a hb
        simp [count_atEnds_eq_zero hac, count_atEnds_eq_zero har, hca] at this
        omega
      simp [hcb, hab]
  have hr : ∀ b, p b = true → rest.atEnds.count b = rest.ends.count b := by
    intro b hb
    by_cases hbr : b ∈ rest.ends
    · have hbc : b ∉ children.ends := fun hbc => hcr b hbc hbr
      have := h b hb
      rw [count_atEnds_eq_zero hbc, List.count_eq_zero.2 hbc] at this
      simp only [hx b hb] at this
      omega
    · rw [count_atEnds_eq_zero hbr, List.count_eq_zero.2 hbr]
  refine ⟨fun b hb => ?_, hx, hr⟩
  have := h b hb
  simp only [hx b hb, hr b hb] at this
  omega

/-- The walk has every label that satisfies `p` at hand as often as it occurs, in a
forest whose nodes are told apart by their labels. -/
theorem count_atEnds_iff (hnd : f.ends.Nodup) :
    (∀ b, p b = true → f.atEnds.count b = f.ends.count b) ↔ f.Apart p := by
  induction f with
  | nil => simp [atEnds, ends, Apart]
  | node a children rest ihc ihr =>
    have hnd' := hnd
    rw [ends, List.nodup_append'] at hnd'
    have ha : a ∉ children.ends := fun ha => hnd'.2.2 ha (by simp)
    rw [count_node_iff hnd, ihc hnd'.1, ihr (List.nodup_cons.1 hnd'.2.1).2, Apart]
    constructor
    · rintro ⟨hc, hx, hr⟩
      obtain ⟨h₁, h₂⟩ := (getD_lastBegun_iff hc ha).1 hx
      exact ⟨h₁, h₂, hc, hr⟩
    · rintro ⟨h₁, h₂, hc, hr⟩
      exact ⟨hc, (getD_lastBegun_iff hc ha).2 ⟨h₁, h₂⟩, hr⟩

/-- Of the labels that satisfy `p`, the walk has each at hand once, and no other,
exactly when no node with such a label has children or is the last child of its
parent. -/
theorem filter_atEnds_perm_iff (hnd : f.ends.Nodup) :
    (f.atEnds.filter p).Perm (f.ends.filter p) ↔ f.Apart p :=
  filter_perm_filter_iff.trans (count_atEnds_iff hnd)

end Count

/-! ### The last value under a flag -/

/-- The value of the node that begins last among those that have one. -/
def lastValue (v : α → Option β) : Forest α → Option β
  | nil => none
  | node a children rest => (rest.lastValue v).or ((children.lastValue v).or (v a))

/-- The last value in the nodes of the top level that satisfy `p` and in what is below
them. -/
def lastUnder (p : α → Bool) (v : α → Option β) : Forest α → Option β
  | nil => none
  | node a children rest => (rest.lastUnder p v).or (if p a then (children.lastValue v).or (v a) else none)

/-- The last value in the nodes of the top level that satisfy `p`. -/
def lastOwn (p : α → Bool) (v : α → Option β) : Forest α → Option β
  | nil => none
  | node a _ rest => (rest.lastOwn p v).or (if p a then v a else none)

/-- Some node satisfies `q` that is a node of the top level satisfying `p`, or is below
one. -/
def hasUnder (p q : α → Bool) : Forest α → Bool
  | nil => false
  | node a children rest => p a && (q a || children.ends.any q) || rest.hasUnder p q

/-- Below a node of the top level that satisfies `p` nothing satisfies `q`, unless a later
node of the top level that satisfies `p` does, or something below it. -/
def Unshadowed (p q : α → Bool) : Forest α → Prop
  | nil => True
  | node a children rest =>
    (p a = true → rest.hasUnder p q = true ∨ ∀ b ∈ children.ends, q b = false) ∧ rest.Unshadowed p q

section Values

variable {v : α → Option β}

theorem isSome_lastValue : (f.lastValue v).isSome = f.ends.any fun a => (v a).isSome := by
  induction f with
  | nil => rfl
  | node a children rest ihc ihr =>
    simp only [lastValue, ends, Option.isSome_or, List.any_append, List.any_cons, ihc, ihr]
    cases children.ends.any fun a => (v a).isSome <;> cases (v a).isSome <;> simp

theorem isSome_lastUnder : (f.lastUnder p v).isSome = f.hasUnder p fun a => (v a).isSome := by
  induction f with
  | nil => rfl
  | node a children rest _ ihr =>
    rw [lastUnder, hasUnder, Option.isSome_or, ihr]
    by_cases hp : p a = true
    · simp only [hp, if_true, Option.isSome_or, isSome_lastValue, Bool.true_and]
      rw [Bool.or_comm, Bool.or_comm (v a).isSome]
    · simp [hp]

/-- The last value is one of the values. -/
theorem lastValue_mem {x : β} (h : f.lastValue v = some x) : x ∈ f.ends.filterMap v := by
  induction f with
  | nil => simp [lastValue] at h
  | node a children rest ihc ihr =>
    simp only [lastValue, Option.or_eq_some_iff] at h
    simp only [ends, List.filterMap_append, List.mem_append, List.mem_filterMap, List.mem_cons] at ihc ihr ⊢
    rcases h with h | ⟨-, h | ⟨-, h⟩⟩
    · obtain ⟨b, hb, hx⟩ := ihr h
      exact .inr ⟨b, .inr hb, hx⟩
    · exact .inl (ihc h)
    · exact .inr ⟨a, .inl rfl, h⟩

theorem lastUnder_mem {x : β} (h : f.lastUnder p v = some x) : x ∈ f.ends.filterMap v := by
  induction f with
  | nil => simp [lastUnder] at h
  | node a children rest _ ihr =>
    simp only [lastUnder, Option.or_eq_some_iff] at h
    simp only [ends, List.filterMap_append, List.mem_append, List.mem_filterMap, List.mem_cons] at ihr ⊢
    rcases h with h | ⟨-, h⟩
    · obtain ⟨b, hb, hx⟩ := ihr h
      exact .inr ⟨b, .inr hb, hx⟩
    · by_cases hp : p a = true
      · simp only [hp, if_true, Option.or_eq_some_iff] at h
        rcases h with h | ⟨-, h⟩
        · exact .inl (List.mem_filterMap.1 (lastValue_mem h))
        · exact .inr ⟨a, .inl rfl, h⟩
      · simp [hp] at h

theorem lastOwn_mem {x : β} (h : f.lastOwn p v = some x) : x ∈ f.ends.filterMap v := by
  induction f with
  | nil => simp [lastOwn] at h
  | node a children rest _ ihr =>
    simp only [lastOwn, Option.or_eq_some_iff] at h
    simp only [ends, List.filterMap_append, List.mem_append, List.mem_filterMap, List.mem_cons] at ihr ⊢
    rcases h with h | ⟨-, h⟩
    · obtain ⟨b, hb, hx⟩ := ihr h
      exact .inr ⟨b, .inr hb, hx⟩
    · by_cases hp : p a = true
      · rw [if_pos hp] at h
        exact .inr ⟨a, .inl rfl, h⟩
      · simp [hp] at h

/-- What a node of the top level has is found while the flag is set. -/
theorem lastOwn_eq_none (h : f.lastUnder p v = none) : f.lastOwn p v = none := by
  induction f with
  | nil => rfl
  | node a children rest _ ihr =>
    simp only [lastUnder, Option.or_eq_none_iff] at h
    rw [lastOwn, ihr h.1, Option.none_or]
    by_cases hp : p a = true
    · simp only [hp, if_true, Option.or_eq_none_iff] at h ⊢
      exact h.2.2
    · simp [hp]

/-- In a forest whose nodes have different values, the last value that the walk finds
while the flag is set is the last one of the nodes for which it is set, exactly when no
later value is below one of them. -/
theorem lastUnder_eq_iff (hnd : (f.ends.filterMap v).Nodup) :
    f.lastUnder p v = f.lastOwn p v ↔ f.Unshadowed p fun a => (v a).isSome := by
  induction f with
  | nil => simp [lastUnder, lastOwn, Unshadowed]
  | node a children rest _ ihr =>
    have hends : (node a children rest).ends.filterMap v =
        children.ends.filterMap v ++ ((v a).toList ++ rest.ends.filterMap v) := by
      rw [ends, List.filterMap_append, List.filterMap_cons]
      cases v a <;> rfl
    rw [hends, List.nodup_append', List.nodup_append'] at hnd
    obtain ⟨-, ⟨-, hrest, har⟩, hcr⟩ := hnd
    rw [lastUnder, lastOwn, Unshadowed, ← isSome_lastUnder]
    have ihr := ihr hrest
    cases hu : rest.lastUnder p v with
    | some x =>
      rw [hu] at ihr
      -- what is found in the rest is not a value of this node
      have hx := lastUnder_mem hu
      simp only [Option.some_or, Option.isSome_some, true_or, implies_true, true_and, ← ihr]
      cases ho : rest.lastOwn p v with
      | some y => simp
      | none =>
        have hne : ¬ some x = if p a then v a else none := by
          intro heq
          by_cases hp : p a = true
          · rw [if_pos hp] at heq
            exact har (by simp [← heq]) hx
          · simp [hp] at heq
        simpa using hne
    | none =>
      rw [hu, lastOwn_eq_none hu] at ihr
      have hclean := ihr.1 rfl
      simp only [lastOwn_eq_none hu, Option.none_or, Option.isSome_none, Bool.false_eq_true, false_or, hclean, and_true]
      by_cases hp : p a = true
      · simp only [hp, if_true, forall_const]
        have hany : (∀ b ∈ children.ends, (v b).isSome = false) ↔ children.lastValue v = none := by
          rw [← Option.not_isSome_iff_eq_none, isSome_lastValue]
          simp
        rw [hany]
        cases hc : children.lastValue v with
        | none => simp
        | some x =>
          have hx := lastValue_mem hc
          have hne : ¬ some x = v a := fun heq => hcr hx (by simp [← heq])
          simpa using hne
      · simp [hp]

end Values

theorem ends_map {g : α → β} : (f.map g).ends = f.ends.map g := by
  induction f with
  | nil => rfl
  | node a children rest ihc ihr => simp [map, ends, ihc, ihr]

theorem hasUnder_map {g : α → β} {r q : β → Bool} :
    (f.map g).hasUnder r q = f.hasUnder (fun a => r (g a)) fun a => q (g a) := by
  induction f with
  | nil => rfl
  | node a children rest _ ihr => simp [map, hasUnder, ends_map, ihr, Function.comp_def]

theorem unshadowed_map {g : α → β} {r q : β → Bool} :
    (f.map g).Unshadowed r q ↔ f.Unshadowed (fun a => r (g a)) fun a => q (g a) := by
  induction f with
  | nil => simp [map, Unshadowed]
  | node a children rest _ ihr => simp [map, Unshadowed, ends_map, hasUnder_map, ihr]

end Forest

end Yasouos.Theory
