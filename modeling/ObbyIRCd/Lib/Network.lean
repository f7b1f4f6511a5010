import Mathlib.Algebra.BigOperators.Group.Finset.Basic
import Mathlib.Combinatorics.SimpleGraph.Acyclic
import Mathlib.Data.Fintype.Prod
import Mathlib.Logic.Relation

/-!
# Parties on a network with ordered links

Every ordered pair of parties has a queue of the messages under way from the first to the second.
A step takes the oldest message of one queue and lets its receiver handle it; what the receiver sends
goes to the ends of its own queues. Nothing else moves, so a run is one order of deliveries among
those that the queues allow.

Two rules for runs are proved here: an invariant (`Network.invariant`), and a bound on the number of
deliveries from a weight for every message that exceeds the weight of all that its delivery sends
(`Network.run_length_le`). For a tree, `closer_unique` says that a party has one neighbour on the way
to any other party, and `farther_of_adj` that what is passed on to the other neighbours moves away.
-/

namespace ObbyIRCd

open SimpleGraph Walk

structure Network (V σ μ : Type*) where
  node : V → σ
  /-- The messages under way from one party to another, oldest first. -/
  link : V → V → List μ

namespace Network

variable {V σ μ : Type*} [DecidableEq V]

/-- Party `v` has taken the first message from `u`, leaving `rest`, moved to the state `x` and sent
`out w` to every party `w`. -/
def deliver (n : Network V σ μ) (u v : V) (rest : List μ) (x : σ) (out : V → List μ) :
    Network V σ μ where
  node := Function.update n.node v x
  link a b := (if a = u ∧ b = v then rest else n.link a b) ++ (if a = v then out b else [])

section
variable {n : Network V σ μ} {u v : V} {rest : List μ} {x : σ} {out : V → List μ}

@[simp] theorem deliver_node_self : (n.deliver u v rest x out).node v = x := by simp [deliver]

theorem deliver_node_of_ne {w : V} (h : w ≠ v) : (n.deliver u v rest x out).node w = n.node w := by
  simp [deliver, h]

variable {m : μ}

theorem mem_link_deliver_of_out {w : V} (h : m ∈ out w) :
    m ∈ (n.deliver u v rest x out).link v w := by
  simp [deliver, h]

theorem mem_link_deliver {a b : V} (h : m ∈ n.link a b) (hne : ¬ (a = u ∧ b = v)) :
    m ∈ (n.deliver u v rest x out).link a b := by
  simp [deliver, hne, h]

theorem mem_link_deliver_of_rest (h : m ∈ rest) : m ∈ (n.deliver u v rest x out).link u v := by
  simp [deliver, h]

/-- What is under way after a delivery was under way before or has been sent. -/
theorem mem_link_deliver_cases {a b : V} {m' : μ} (hlink : n.link u v = m :: rest)
    (h : m' ∈ (n.deliver u v rest x out).link a b) : m' ∈ n.link a b ∨ (a = v ∧ m' ∈ out b) := by
  rcases List.mem_append.mp h with hold | hnew
  · left
    by_cases hab : a = u ∧ b = v
    · obtain ⟨rfl, rfl⟩ := hab
      rw [if_pos ⟨rfl, rfl⟩] at hold
      rw [hlink]
      exact List.mem_cons_of_mem _ hold
    · rwa [if_neg hab] at hold
  · right
    by_cases hav : a = v
    · rw [if_pos hav] at hnew
      exact ⟨hav, hnew⟩
    · rw [if_neg hav] at hnew
      cases hnew

end

/-- How a party `v` handles a message from `u`: its next state, and what it sends to whom. -/
abbrev Handler (V σ μ : Type*) := V → V → μ → σ → σ × (V → List μ)

variable (H : Handler V σ μ)

inductive Step : Network V σ μ → Network V σ μ → Prop
  | deliver (n : Network V σ μ) (u v : V) (m : μ) (rest : List μ) :
      n.link u v = m :: rest →
      Step n (n.deliver u v rest (H v u m (n.node v)).1 (H v u m (n.node v)).2)

/-- The states that a run from `n₀` passes. -/
def Reaches (n₀ n : Network V σ μ) : Prop := Relation.ReflTransGen (Step H) n₀ n

def Final (n : Network V σ μ) : Prop := ¬ ∃ n', Step H n n'

variable {H}

theorem final_iff {n : Network V σ μ} : Final H n ↔ ∀ u v, n.link u v = [] := by
  constructor
  · intro h u v
    rcases hlink : n.link u v with - | ⟨m, rest⟩
    · rfl
    · exact absurd ⟨_, Step.deliver n u v m rest hlink⟩ h
  · rintro h ⟨_, hstep⟩
    cases hstep with
    | deliver u v m rest hlink =>
      rw [h u v] at hlink
      cases hlink

variable {I : Network V σ μ → Prop}

/-- What holds at the start and is kept by every delivery holds along every run. -/
theorem invariant {n₀ n : Network V σ μ} (hrun : Reaches H n₀ n)
    (h₀ : I n₀) (hstep : ∀ n n', I n → Step H n n' → I n') : I n := by
  induction hrun with
  | refl => exact h₀
  | tail _ hlast ih => exact hstep _ _ ih hlast

section Weight

variable [Fintype V] (weight : V → V → μ → ℕ)

/-- The weight of the messages in a queue from `u` to `v`. -/
def queueWeight (u v : V) (q : List μ) : ℕ := (q.map (weight u v)).sum

def totalWeight (n : Network V σ μ) : ℕ :=
  ∑ p : V × V, queueWeight weight p.1 p.2 (n.link p.1 p.2)

/-- A delivery takes the weight of its message away and adds the weight of what is sent. -/
theorem totalWeight_deliver (n : Network V σ μ) (u v : V) (m : μ) (rest : List μ) (x : σ)
    (out : V → List μ) (hlink : n.link u v = m :: rest) :
    totalWeight weight (n.deliver u v rest x out) + weight u v m =
      totalWeight weight n + ∑ w, queueWeight weight v w (out w) := by
  let taken : V × V → ℕ := fun p => if p = (u, v) then weight u v m else 0
  let sent : V × V → ℕ := fun p => if p.1 = v then queueWeight weight v p.2 (out p.2) else 0
  -- each queue loses the message if it was its first, and gains what is sent over it
  have hpoint : ∀ p : V × V,
      queueWeight weight p.1 p.2 ((n.deliver u v rest x out).link p.1 p.2) + taken p =
        queueWeight weight p.1 p.2 (n.link p.1 p.2) + sent p := by
    rintro ⟨a, b⟩
    by_cases hab : a = u ∧ b = v
    · obtain ⟨rfl, rfl⟩ := hab
      by_cases hav : a = b
      · subst hav
        simp [deliver, taken, sent, queueWeight, hlink]
        omega
      · simp [deliver, taken, sent, queueWeight, hlink, hav]
        omega
    · have hne : (a, b) ≠ (u, v) := fun h => hab (Prod.mk.inj h)
      by_cases hav : a = v
      · subst hav
        simp [deliver, taken, sent, queueWeight, hab, hne]
      · simp [deliver, taken, sent, queueWeight, hab, hne, hav]
  have htaken : ∑ p, taken p = weight u v m := by simp [taken]
  have hsent : ∑ p, sent p = ∑ w, queueWeight weight v w (out w) := by
    rw [Fintype.sum_prod_type]
    simp [sent]
  calc totalWeight weight (n.deliver u v rest x out) + weight u v m
      = ∑ p : V × V, (queueWeight weight p.1 p.2 ((n.deliver u v rest x out).link p.1 p.2) +
          taken p) := by rw [Finset.sum_add_distrib, htaken]; rfl
    _ = ∑ p : V × V, (queueWeight weight p.1 p.2 (n.link p.1 p.2) + sent p) :=
        Finset.sum_congr rfl fun p _ => hpoint p
    _ = totalWeight weight n + ∑ w, queueWeight weight v w (out w) := by
        rw [Finset.sum_add_distrib, hsent]; rfl

/-- If under an invariant every message weighs more than what its delivery sends, a run has no more
deliveries than the weight at its start. -/
theorem run_length_le (hstep : ∀ n n', I n → Step H n n' → I n')
    (hless : ∀ n, I n → ∀ u v m rest, n.link u v = m :: rest →
      ∑ w, queueWeight weight v w ((H v u m (n.node v)).2 w) < weight u v m)
    (run : ℕ → Network V σ μ) (k : ℕ) (h₀ : I (run 0))
    (hrun : ∀ i < k, Step H (run i) (run (i + 1))) : k ≤ totalWeight weight (run 0) := by
  suffices h : ∀ i ≤ k, I (run i) ∧ totalWeight weight (run i) + i ≤ totalWeight weight (run 0) by
    have := (h k le_rfl).2
    omega
  intro i
  induction i with
  | zero => exact fun _ => ⟨h₀, le_rfl⟩
  | succ i ih =>
    intro hi
    obtain ⟨hinv, hle⟩ := ih (by omega)
    have hnext := hrun i (by omega)
    refine ⟨hstep _ _ hinv hnext, ?_⟩
    generalize hn' : run (i + 1) = n' at hnext
    generalize hn : run i = n at *
    cases hnext with
    | deliver u v m rest hlink =>
      have hlt := hless n hinv u v m rest hlink
      have heq := totalWeight_deliver weight n u v m rest (H v u m (n.node v)).1
        (H v u m (n.node v)).2 hlink
      omega

end Weight

end Network

section Tree

variable {V : Type*} {G : SimpleGraph V}

/-- In a connected graph, a party other than the target has a neighbour closer to it. -/
theorem exists_closer (hG : G.Connected) {v x : V} (h : v ≠ x) :
    ∃ w, G.Adj v w ∧ G.dist w x < G.dist v x := by
  obtain ⟨p, hp⟩ := hG.exists_walk_length_eq_dist v x
  cases p with
  | nil => exact absurd rfl h
  | cons hadj q =>
    refine ⟨_, hadj, ?_⟩
    have hq := dist_le q
    rw [length_cons] at hp
    omega

/-- In a connected graph, no two parties are farther apart than there are parties. -/
theorem dist_lt_card [Fintype V] (hG : G.Connected) (a b : V) : G.dist a b < Fintype.card V := by
  obtain ⟨p, hp, hlen⟩ := hG.exists_path_of_dist a b
  rw [← hlen]
  exact hp.length_lt

/-- In a tree, a party has at most one neighbour on the way to `o`. -/
theorem closer_unique (hG : G.IsTree) {o v a b : V} (hva : G.Adj a v) (hvb : G.Adj b v)
    (ha : G.dist o v = G.dist o a + 1) (hb : G.dist o v = G.dist o b + 1) : a = b := by
  obtain ⟨p, -, hp⟩ := hG.connected.exists_path_of_dist o a
  obtain ⟨q, -, hq⟩ := hG.connected.exists_path_of_dist o b
  -- both shortest walks, prolonged to `v`, are paths, and there is only one
  have hpath : (p.concat hva).IsPath :=
    isPath_of_length_eq_dist _ (by rw [length_concat, hp, ha])
  have hqath : (q.concat hvb).IsPath :=
    isPath_of_length_eq_dist _ (by rw [length_concat, hq, hb])
  have heq := congrArg Subtype.val
    ((hG.isAcyclic.subsingleton_path o v).elim ⟨p.concat hva, hpath⟩ ⟨q.concat hvb, hqath⟩)
  exact (concat_inj heq).1

/-- In a tree, a neighbour that is not the one toward `o` is farther from `o`. -/
theorem farther_of_adj (hG : G.IsTree) {o v a b : V} (hva : G.Adj a v) (hvb : G.Adj b v)
    (ha : G.dist o v = G.dist o a + 1) (hab : b ≠ a) : G.dist o b = G.dist o v + 1 := by
  rcases hG.dist_eq_dist_add_one_of_adj o hvb with h | h
  · exact h
  · exact absurd (closer_unique hG hvb hva h ha) hab

end Tree

end ObbyIRCd
