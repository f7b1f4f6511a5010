import Mathlib.Data.List.Infix
import Mathlib.Data.Nat.Notation

/-!
# Binary search trees over bit strings

A search tree is a graph whose inner nodes have a child for each bit; every other node is a leaf.
Nodes may be shared, so a leaf can stand at the end of several paths. The networks of the tree are the
paths from the root that end in a leaf (`Leads`), and a search follows the bits of an address until
it is at a leaf (`walk`). No network is inside another one, so the search finds the one network
that contains the address (`walk_eq_iff`).
-/

namespace ObbyIRCd.PrefixTree

open List

variable {ν : Type*} (child : ν → Bool → ν) (inner : ν → Bool)

/-- Follow the bits from a node until a leaf, or until there are no more bits. -/
def walk (n : ν) : List Bool → ν
  | [] => n
  | b :: bits => if inner n then walk (child n b) bits else n

/-- The path `p` goes from the node through inner nodes and ends in the leaf `m`. -/
inductive Leads : ν → List Bool → ν → Prop
  /-- A leaf is at the end of the empty path. -/
  | leaf {n : ν} (h : inner n = false) : Leads n [] n
  /-- An inner node leads to what its children lead to. -/
  | step {n m : ν} {b : Bool} {p : List Bool} (h : inner n = true)
      (rest : Leads (child n b) p m) : Leads n (b :: p) m

variable {child inner} {n m m' : ν} {p p' bits : List Bool}

/-- Walking along a path that ends in a leaf ends there, whatever bits follow. -/
theorem Leads.walk_eq (h : Leads child inner n p m) (hp : p <+: bits) :
    walk child inner n bits = m := by
  induction h generalizing bits with
  | leaf h =>
    cases bits with
    | nil => rfl
    | cons b bits => simp only [walk, h, Bool.false_eq_true, if_false]
  | @step n m b p h _ ih =>
    obtain ⟨rest, rfl⟩ := hp
    simp only [cons_append, walk, h, if_true]
    exact ih (prefix_append p rest)

/-- A walk that ends in a leaf went along a path to it. -/
theorem exists_leads (h : inner (walk child inner n bits) = false) :
    ∃ p, p <+: bits ∧ Leads child inner n p (walk child inner n bits) := by
  induction bits generalizing n with
  | nil => exact ⟨[], prefix_rfl, .leaf h⟩
  | cons b bits ih =>
    by_cases hn : inner n = true
    · simp only [walk, hn, if_true] at h ⊢
      obtain ⟨p, hp, hl⟩ := ih h
      exact ⟨b :: p, cons_prefix_cons.2 ⟨rfl, hp⟩, .step hn hl⟩
    · rw [Bool.not_eq_true] at hn
      simp only [walk, hn, Bool.false_eq_true, if_false] at h ⊢
      exact ⟨[], nil_prefix, .leaf hn⟩

/-- No path to a leaf goes on to another leaf: of the paths that an address begins with, one at most
ends in a leaf. -/
theorem Leads.unique (h : Leads child inner n p m) (h' : Leads child inner n p' m')
    (hp : p <+: bits) (hp' : p' <+: bits) : p = p' ∧ m = m' := by
  refine ⟨?_, (h.walk_eq hp).symm.trans (h'.walk_eq hp')⟩
  induction h generalizing p' m' bits with
  | leaf h =>
    cases h' with
    | leaf _ => rfl
    | step h' _ => rw [h] at h'; cases h'
  | @step n m b p h _ ih =>
    cases h' with
    | leaf h' => rw [h] at h'; cases h'
    | @step _ _ b' p' _ rest' =>
      obtain ⟨rest, rfl⟩ := hp
      rw [cons_append, cons_prefix_cons] at hp'
      obtain ⟨rfl, hp'⟩ := hp'
      rw [ih rest' (prefix_append p rest) hp']

/-- Where every walk along so many bits ends in a leaf, it ends in `m` exactly if the address is in a
network of `m`. -/
theorem walk_eq_iff (hleaf : inner (walk child inner n bits) = false) :
    walk child inner n bits = m ↔ ∃ p, p <+: bits ∧ Leads child inner n p m := by
  constructor
  · rintro rfl
    exact exists_leads hleaf
  · rintro ⟨p, hp, h⟩
    exact h.walk_eq hp

theorem walk_append (p q : List Bool) :
    walk child inner n (p ++ q) = walk child inner (walk child inner n p) q := by
  induction p generalizing n with
  | nil => rfl
  | cons b p ih =>
    by_cases hn : inner n = true
    · simp only [cons_append, walk, hn, if_true, ih]
    · rw [Bool.not_eq_true] at hn
      have hstay : walk child inner n q = n := (Leads.leaf hn).walk_eq nil_prefix
      simp only [cons_append, walk, hn, Bool.false_eq_true, if_false, hstay]

end ObbyIRCd.PrefixTree
