import Mathlib.Data.List.Basic

/-!
# Inserting into a list by walking over it

A walk from one end of a list decides at each element to go on, to put the new element in front of
it, or to give up. `insertWalk_eq_some` and `insertWalk_eq_none` say where a walk ends, in terms of
the elements it passed, and `pairwise_insertWalk` that it keeps an order that its decisions respect.
-/

namespace ObbyIRCd

open List

variable {α : Type*}

inductive Walk
  | next
  | stop
  | reject
deriving DecidableEq, Repr

/-- Insert `l` in front of the first element where the walk stops, or at the end. -/
def insertWalk (f : α → Walk) (l : α) : List α → Option (List α)
  | [] => some [l]
  | e :: rest =>
    match f e with
    | .stop => some (l :: e :: rest)
    | .reject => none
    | .next => (insertWalk f l rest).map (e :: ·)

variable {f : α → Walk} {list : List α}

/-- A list with a first element is cut in front of it or behind it. -/
theorem exists_cons_eq_append {e : α} {P : List α → List α → Prop} :
    (∃ passed rest, e :: list = passed ++ rest ∧ P passed rest) ↔
      P [] (e :: list) ∨ ∃ passed rest, list = passed ++ rest ∧ P (e :: passed) rest := by
  constructor
  · rintro ⟨passed, rest, hlist, h⟩
    rcases passed with _ | ⟨e', passed⟩
    · obtain rfl : e :: list = rest := hlist
      exact .inl h
    · obtain ⟨rfl, rfl⟩ : e = e' ∧ list = passed ++ rest := by simpa using hlist
      exact .inr ⟨passed, rest, rfl, h⟩
  · rintro (h | ⟨passed, rest, rfl, h⟩)
    · exact ⟨[], e :: list, rfl, h⟩
    · exact ⟨e :: passed, rest, rfl, h⟩

theorem insertWalk_eq_some {l : α} {r : List α} :
    insertWalk f l list = some r ↔ ∃ passed rest, list = passed ++ rest ∧
      (∀ e ∈ passed, f e = .next) ∧ (∀ e ∈ rest.head?, f e = .stop) ∧ r = passed ++ l :: rest := by
  induction list generalizing r with
  | nil =>
    constructor
    · intro h
      obtain rfl : [l] = r := by simpa [insertWalk] using h
      exact ⟨[], [], by simp⟩
    · rintro ⟨passed, rest, hlist, -, -, rfl⟩
      obtain ⟨rfl, rfl⟩ := append_eq_nil_iff.mp hlist.symm
      rfl
  | cons e list ih =>
    unfold insertWalk
    rw [exists_cons_eq_append]
    cases he : f e with
    | next =>
      simp only [Option.map_eq_some_iff, ih]
      constructor
      · rintro ⟨_, ⟨passed, rest, rfl, hpassed, hrest, rfl⟩, rfl⟩
        exact .inr ⟨passed, rest, rfl, by simpa [he] using hpassed, hrest, rfl⟩
      · rintro (⟨-, hrest, -⟩ | ⟨passed, rest, rfl, hpassed, hrest, rfl⟩)
        · simp [he] at hrest
        · exact ⟨_, ⟨passed, rest, rfl, (forall_mem_cons.mp hpassed).2, hrest, rfl⟩, rfl⟩
    | stop =>
      constructor
      · intro h
        exact .inl ⟨by simp, by simp [he], (Option.some.inj h).symm⟩
      · rintro (⟨-, -, rfl⟩ | ⟨passed, rest, -, hpassed, -⟩)
        · rfl
        · simp [he] at hpassed
    | reject =>
      refine iff_of_false (by simp) ?_
      rintro (⟨-, hrest, -⟩ | ⟨passed, rest, -, hpassed, -⟩)
      · simp [he] at hrest
      · simp [he] at hpassed

theorem insertWalk_eq_none {l : α} :
    insertWalk f l list = none ↔ ∃ passed e rest, list = passed ++ e :: rest ∧
      (∀ x ∈ passed, f x = .next) ∧ f e = .reject := by
  suffices h : insertWalk f l list = none ↔ ∃ passed rest, list = passed ++ rest ∧
      (∀ x ∈ passed, f x = .next) ∧ ∃ e ∈ rest.head?, f e = .reject by
    rw [h]
    constructor
    · rintro ⟨passed, rest, rfl, hpassed, e, he, hreject⟩
      obtain ⟨rest', rfl⟩ := head?_eq_some_iff.mp he
      exact ⟨passed, e, rest', rfl, hpassed, hreject⟩
    · rintro ⟨passed, e, rest, rfl, hpassed, hreject⟩
      exact ⟨passed, e :: rest, rfl, hpassed, e, rfl, hreject⟩
  induction list with
  | nil => simp [insertWalk]
  | cons e list ih =>
    unfold insertWalk
    rw [exists_cons_eq_append]
    cases he : f e with
    | next => simp [he, ih]
    | stop => simp [he]
    | reject => simp [he]

/-- Inserting keeps a transitive order when what the walk passes comes in front of the new element
and what it stops at comes behind it. -/
theorem pairwise_insertWalk {R : α → α → Prop} (htrans : ∀ a b c, R a b → R b c → R a c)
    {l : α} {r : List α} (hlist : list.Pairwise R)
    (hnext : ∀ e, f e = .next → R e l) (hstop : ∀ e, f e = .stop → R l e)
    (h : insertWalk f l list = some r) : r.Pairwise R := by
  obtain ⟨passed, rest, rfl, hpassed, hrest, rfl⟩ := insertWalk_eq_some.mp h
  obtain ⟨h1, h2, h3⟩ := pairwise_append.mp hlist
  have hl : ∀ e ∈ rest, R l e := by
    rcases rest with _ | ⟨s, rest⟩
    · simp
    have hs : R l s := hstop s (hrest s rfl)
    refine forall_mem_cons.mpr ⟨hs, fun e he => ?_⟩
    exact htrans _ _ _ hs ((pairwise_cons.mp h2).1 e he)
  refine pairwise_append.mpr ⟨h1, pairwise_cons.mpr ⟨hl, h2⟩, fun a ha => ?_⟩
  exact forall_mem_cons.mpr ⟨hnext a (hpassed a ha), h3 a ha⟩

end ObbyIRCd
