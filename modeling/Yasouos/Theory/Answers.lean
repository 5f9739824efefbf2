import Mathlib.Algebra.BigOperators.Group.Multiset.Basic
import Mathlib.Algebra.Order.BigOperators.Group.Multiset
import Mathlib.Data.Fintype.Card
import Mathlib.Algebra.Order.Ring.Nat
import Mathlib.Algebra.Module.NatInt
import Mathlib.Tactic.SplitIfs

/-!
# Nodes that answer messages

Nodes on a wire: a message on it is handed to some of them, in any order and at any time, and each
puts its answers on the wire. Where an answer can be answered in turn, an exchange may never end.

## The model

`Reacts i s m s' out` says that node `i` may, in state `s`, take the message `m`, come to the state
`s'` and answer with `out`. `Network` has the states of the nodes and the messages on the wire. A
step (`Network.Step`) takes a message off the wire and hands it to nodes, none of them twice; to no
node at all if it is lost.

## What is proved

* `Network.Runs.length_le` — where answers are not answered, no exchange goes on: every run has at
  most so many steps for each message it starts with.
* `Network.exists_run` — where a message of a kind may get an answer of the same kind, there are runs
  of any length.
-/

namespace Yasouos.Theory

/-- The states of the nodes, and the messages on the wire. -/
structure Network (ι σ μ : Type) where
  /-- The nodes. -/
  nodes : ι → σ
  /-- The messages on their way. -/
  wire : Multiset μ

variable {ι σ μ : Type} [DecidableEq ι] (Reacts : ι → σ → μ → σ → List μ → Prop)

/-- A message is handed to nodes one by one; `out` are their answers. -/
inductive Delivers (m : μ) : List ι → (ι → σ) → (ι → σ) → List μ → Prop
  /-- No node is left. -/
  | nil {nodes : ι → σ} : Delivers m [] nodes nodes []
  /-- A node takes the message. -/
  | cons {i : ι} {takers : List ι} {nodes nodes' : ι → σ} {s' : σ} {out rest : List μ} :
      Reacts i (nodes i) m s' out → Delivers m takers (Function.update nodes i s') nodes' rest →
        Delivers m (i :: takers) nodes nodes' (out ++ rest)

namespace Network

/-- A message leaves the wire, and the answers to it come onto it. -/
inductive Step : Network ι σ μ → Network ι σ μ → Prop
  /-- The message `m` is handed to the nodes `takers`. -/
  | deliver {m : μ} {takers : List ι} {nodes nodes' : ι → σ} {wire : Multiset μ} {out : List μ} :
      takers.Nodup → Delivers Reacts m takers nodes nodes' out → Step ⟨nodes, m ::ₘ wire⟩ ⟨nodes', ↑out + wire⟩

/-- So many steps lead from one network to another. -/
inductive Runs : ℕ → Network ι σ μ → Network ι σ μ → Prop
  /-- No step. -/
  | refl {net : Network ι σ μ} : Runs 0 net net
  /-- A step, and then a run. -/
  | head {n : ℕ} {net net' net'' : Network ι σ μ} :
      net.Step Reacts net' → Runs n net' net'' → Runs (n + 1) net net''

variable {Reacts}

/-- No node answers the message, whatever its state is. -/
def Quiet (Reacts : ι → σ → μ → σ → List μ → Prop) (m : μ) : Prop := ∀ i s s' out, Reacts i s m s' out → out = []

/-- A node gives at most `k` answers to the message, and none of them is answered. -/
def Calm (Reacts : ι → σ → μ → σ → List μ → Prop) (k : ℕ) (m : μ) : Prop :=
  ∀ i s s' out, Reacts i s m s' out → out.length ≤ k ∧ ∀ a ∈ out, Quiet Reacts a

omit [DecidableEq ι] in
theorem Quiet.calm {m : μ} (h : Quiet Reacts m) (k : ℕ) : Calm Reacts k m := by
  intro i s s' out hreact
  obtain rfl := h i s s' out hreact
  exact ⟨Nat.zero_le _, fun a ha => absurd ha List.not_mem_nil⟩

/-- A quiet message is handed out without an answer. -/
theorem Quiet.delivers {m : μ} (h : Quiet Reacts m) {takers : List ι} {nodes nodes' : ι → σ} {out : List μ}
    (hd : Delivers Reacts m takers nodes nodes' out) : out = [] := by
  induction hd with
  | nil => rfl
  | cons hreact _ ih => rw [h _ _ _ _ hreact, ih, List.append_nil]

/-- The answers to a calm message are quiet, and there are at most `k` from each node. -/
theorem Calm.delivers {k : ℕ} {m : μ} (h : Calm Reacts k m) {takers : List ι} {nodes nodes' : ι → σ} {out : List μ}
    (hd : Delivers Reacts m takers nodes nodes' out) : out.length ≤ k * takers.length ∧ ∀ a ∈ out, Quiet Reacts a := by
  induction hd with
  | nil => exact ⟨Nat.zero_le _, fun a ha => absurd ha List.not_mem_nil⟩
  | cons hreact _ ih =>
    obtain ⟨hlen, hquiet⟩ := h _ _ _ _ hreact
    constructor
    · rw [List.length_append, List.length_cons, Nat.mul_succ]
      omega
    · intro a ha
      rcases List.mem_append.1 ha with ha | ha
      · exact hquiet a ha
      · exact ih.2 a ha

/-! ### Where no answer is answered -/

section Calm

open Classical in
/-- How often a message is handed out at most, with the answers to it. -/
noncomputable def weight (Reacts : ι → σ → μ → σ → List μ → Prop) (c : ℕ) (m : μ) : ℕ :=
  if Quiet Reacts m then 1 else 1 + c

omit [DecidableEq ι] in
theorem weight_le (c : ℕ) (m : μ) : weight Reacts c m ≤ 1 + c := by
  rw [weight]
  split_ifs <;> omega

omit [DecidableEq ι] in
theorem sum_weight_le (c : ℕ) (wire : Multiset μ) : (wire.map (weight Reacts c)).sum ≤ (1 + c) * wire.card := by
  have hsum := Multiset.sum_le_card_nsmul (wire.map (weight Reacts c)) (1 + c) (by
    intro w hw
    obtain ⟨m, -, rfl⟩ := Multiset.mem_map.1 hw
    exact weight_le c m)
  rw [Multiset.card_map, nsmul_eq_mul, Nat.cast_id, Nat.mul_comm] at hsum
  exact hsum

omit [DecidableEq ι] in
theorem sum_weight_quiet (c : ℕ) {out : List μ} (h : ∀ a ∈ out, Quiet Reacts a) :
    ((out : Multiset μ).map (weight Reacts c)).sum = out.length := by
  induction out with
  | nil => rfl
  | cons a out ih =>
    rw [← Multiset.cons_coe, Multiset.map_cons, Multiset.sum_cons, ih fun b hb => h b (List.mem_cons_of_mem a hb),
      weight, if_pos (h a List.mem_cons_self), List.length_cons, Nat.add_comm]

variable [Fintype ι] {k : ℕ}

/-- A step leaves only calm messages on the wire, and less to hand out. -/
theorem Step.weight_lt {net net' : Network ι σ μ} (h : net.Step Reacts net') (hcalm : ∀ m ∈ net.wire, Calm Reacts k m) :
    (∀ m ∈ net'.wire, Calm Reacts k m) ∧
      (net'.wire.map (weight Reacts (k * Fintype.card ι))).sum < (net.wire.map (weight Reacts (k * Fintype.card ι))).sum := by
  cases h with
  | @deliver m takers nodes nodes' wire out hnodup hd =>
    have hm : Calm Reacts k m := hcalm m (Multiset.mem_cons_self m wire)
    obtain ⟨hlen, hquiet⟩ := hm.delivers hd
    constructor
    · intro a ha
      rcases Multiset.mem_add.1 ha with ha | ha
      · exact (hquiet a (Multiset.mem_coe.1 ha)).calm k
      · exact hcalm a (Multiset.mem_cons_of_mem ha)
    · have hout : out.length < weight Reacts (k * Fintype.card ι) m := by
        rw [weight]
        split_ifs with hq
        · rw [hq.delivers hd]
          exact Nat.one_pos
        · have htakers : k * takers.length ≤ k * Fintype.card ι := Nat.mul_le_mul_left k hnodup.length_le_card
          omega
      simp only [Multiset.map_add, Multiset.sum_add, Multiset.map_cons, Multiset.sum_cons, sum_weight_quiet _ hquiet]
      omega

/-- **Where no answer is answered**, a run ends: a message is handed out once, and then the answers that each
node gives to it. -/
theorem Runs.length_le {n : ℕ} {net net' : Network ι σ μ} (h : Runs Reacts n net net')
    (hcalm : ∀ m ∈ net.wire, Calm Reacts k m) : n ≤ (1 + k * Fintype.card ι) * net.wire.card := by
  have hsum : n ≤ (net.wire.map (weight Reacts (k * Fintype.card ι))).sum := by
    induction h with
    | refl => exact Nat.zero_le _
    | head hstep _ ih =>
      obtain ⟨hcalm', hlt⟩ := hstep.weight_lt hcalm
      have := ih hcalm'
      omega
  exact hsum.trans (sum_weight_le _ _)

end Calm

/-! ### Where an answer is answered again -/

/-- **An echo.** Where a node answers every message of a kind with one of the same kind, there are runs of any
length. -/
theorem exists_run {Echo : μ → Prop} {Ready : σ → Prop} {i : ι}
    (hecho : ∀ s m, Ready s → Echo m → ∃ s' out, Reacts i s m s' out ∧ Ready s' ∧ ∃ a ∈ out, Echo a)
    {net : Network ι σ μ} (hready : Ready (net.nodes i)) (h : ∃ m ∈ net.wire, Echo m) (n : ℕ) :
    ∃ net', Runs Reacts n net net' := by
  induction n generalizing net with
  | zero => exact ⟨net, Runs.refl⟩
  | succ n ih =>
    obtain ⟨m, hm, hem⟩ := h
    obtain ⟨nodes, wire⟩ := net
    obtain ⟨wire', rfl⟩ := Multiset.exists_cons_of_mem hm
    obtain ⟨s', out, hreact, hready', a, ha, hea⟩ := hecho (nodes i) m hready hem
    let next : Network ι σ μ := ⟨Function.update nodes i s', Multiset.ofList (out ++ []) + wire'⟩
    have hstep : Step Reacts ⟨nodes, m ::ₘ wire'⟩ next :=
      Step.deliver (List.nodup_singleton i) (Delivers.cons hreact Delivers.nil)
    have hnode : next.nodes i = s' := Function.update_self i s' nodes
    obtain ⟨net', hrun⟩ := ih (hnode ▸ hready') ⟨a, Multiset.mem_add.2 (Or.inl (by simpa using ha)), hea⟩
    exact ⟨net', Runs.head hstep hrun⟩

end Network

end Yasouos.Theory
