import Mathlib.Data.List.Basic

/-!
# Binary search

`bsearch` halves the interval `[l, u)` of a sorted table until the middle entry compares equal to
the key. What it returns is always an entry that compares equal; that it finds one whenever there is
one rests on `Sorted`: entries before one that the key follows are followed too, and entries behind
one that the key precedes are preceded.
-/

namespace ObbyIRCd

variable {α : Type*}

/-- The search in `[l, u)`; the number of rounds is bounded by `fuel`. -/
def bsearchIn (cmp : α → Ordering) (base : List α) : ℕ → ℕ → ℕ → Option α
  | 0, _, _ => none
  | fuel + 1, l, u =>
    if l < u then
      match base[(l + u) / 2]? with
      | none => none
      | some x =>
        match cmp x with
        | .lt => bsearchIn cmp base fuel l ((l + u) / 2)
        | .gt => bsearchIn cmp base fuel ((l + u) / 2 + 1) u
        | .eq => some x
    else none

/-- `bsearch`: `cmp x` compares the key with the entry `x`. -/
def bsearch (cmp : α → Ordering) (base : List α) : Option α :=
  bsearchIn cmp base base.length 0 base.length

/-- The entries that the key follows stand before those that it precedes. -/
def Sorted (cmp : α → Ordering) (base : List α) : Prop :=
  ∀ i j (hi : i < base.length) (hj : j < base.length), i < j →
    (cmp base[i] = .lt → cmp base[j] = .lt) ∧ (cmp base[j] = .gt → cmp base[i] = .gt)

variable {cmp : α → Ordering} {base : List α}

/-- An entry that the search returns is in the table and compares equal. -/
theorem bsearchIn_eq_some {fuel l u : ℕ} {x : α}
    (h : bsearchIn cmp base fuel l u = some x) : x ∈ base ∧ cmp x = .eq := by
  fun_induction bsearchIn cmp base fuel l u with
  | case1 | case2 | case6 => cases h
  | case3 _ _ _ _ _ _ _ ih | case4 _ _ _ _ _ _ _ ih => exact ih h
  | case5 fuel l u _ y hy hcmp =>
    obtain rfl : y = x := by simpa using h
    exact ⟨List.mem_of_getElem? hy, hcmp⟩

/-- A search that finds nothing leaves no equal entry in its interval. -/
theorem bsearchIn_eq_none (hs : Sorted cmp base) {fuel l u : ℕ} (hfuel : u ≤ l + fuel)
    (hu : u ≤ base.length) (h : bsearchIn cmp base fuel l u = none) :
    ∀ i (hi : i < base.length), l ≤ i → i < u → cmp base[i] ≠ .eq := by
  fun_induction bsearchIn cmp base fuel l u with
  | case1 | case6 fuel l u hlu => intro i hi hl hu'; omega
  | case2 fuel l u hlu hmid =>
    rw [List.getElem?_eq_none_iff] at hmid
    omega
  | case3 fuel l u hlu x hx hcmp ih =>
    -- The key precedes the middle entry: everything from there on is excluded.
    intro i hi hl hiu heq
    obtain ⟨hm, rfl⟩ := List.getElem?_eq_some_iff.mp hx
    by_cases hlt : i < (l + u) / 2
    · exact ih (by omega) (by omega) h i hi hl hlt heq
    rcases Nat.eq_or_lt_of_le (Nat.le_of_not_lt hlt) with heqi | hgt
    · subst heqi
      rw [hcmp] at heq
      cases heq
    · rw [(hs _ i hm hi hgt).1 hcmp] at heq
      cases heq
  | case4 fuel l u hlu x hx hcmp ih =>
    intro i hi hl hiu heq
    obtain ⟨hm, rfl⟩ := List.getElem?_eq_some_iff.mp hx
    by_cases hlt : (l + u) / 2 < i
    · exact ih (by omega) hu h i hi (by omega) hiu heq
    rcases Nat.eq_or_lt_of_le (Nat.le_of_not_lt hlt) with heqi | hgt
    · subst heqi
      rw [hcmp] at heq
      cases heq
    · rw [(hs i _ hi hm hgt).2 hcmp] at heq
      cases heq
  | case5 => cases h

/-- Two equal entries of a table whose entries all differ cannot both be there: a search for the
key of an entry returns that entry. -/
theorem bsearch_eq_some_iff (hs : Sorted cmp base)
    (hunique : ∀ x ∈ base, ∀ y ∈ base, cmp x = .eq → cmp y = .eq → x = y) {x : α} :
    bsearch cmp base = some x ↔ x ∈ base ∧ cmp x = .eq := by
  constructor
  · exact bsearchIn_eq_some
  · rintro ⟨hx, hcmp⟩
    rcases hb : bsearch cmp base with _ | y
    · obtain ⟨i, hi, rfl⟩ := List.getElem_of_mem hx
      exact absurd hcmp (bsearchIn_eq_none hs (by omega) (Nat.le_refl _) hb i hi (Nat.zero_le i) hi)
    · obtain ⟨hy, hcmp'⟩ := bsearchIn_eq_some hb
      rw [hunique x hx y hy hcmp hcmp']

end ObbyIRCd
