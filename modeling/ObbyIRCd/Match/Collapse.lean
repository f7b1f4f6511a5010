import Mathlib.Data.List.Basic

/-!
# Collapsing a pattern

`collapse` of `match.c` shortens the runs of `*` and `?` in a pattern in place. Of the stars right behind a
star none is kept, and of a run behind `*?` only the question marks are. But behind a star whose stars
have been dropped the loop goes on as if no star were there. So the result is minimal, and collapsing it
again does not change it, exactly if no run begins with two stars and goes on with question marks and a
star (`collapse_minimal_iff`).
-/

namespace ObbyIRCd.Match

/-- Where `collapse` is: in its loop, behind a backslash, right behind a star, or in one of the inner
loops over the stars that follow a star and over the run behind `*?`. -/
inductive Place
  | loop | escaped | star | stars | marks
deriving DecidableEq

/-- What `collapse` keeps of the text from a place on. -/
def keep : Place → List Char → List Char
  | _, [] => []
  | .escaped, c :: s => c :: keep .loop s
  | _, '\\' :: s => '\\' :: keep .escaped s
  | .loop, '*' :: s => '*' :: keep .star s
  | .marks, '*' :: s => keep .marks s
  | _, '*' :: s => keep .stars s
  | .star, '?' :: s | .marks, '?' :: s => '?' :: keep .marks s
  | _, '?' :: s => '?' :: keep .loop s
  | _, c :: s => c :: keep .loop s

/-- `collapse`. -/
def collapse (pattern : List Char) : List Char := keep .loop pattern

/-- A star comes next, or behind question marks. -/
def StarNext : List Char → Prop
  | '?' :: s => StarNext s
  | s => s.head? = some '*'

/-- Behind no star comes a star, with or without question marks between them. -/
def Minimal : (escaped : Bool) → List Char → Prop
  | _, [] => True
  | true, _ :: s => Minimal false s
  | _, '\\' :: s => Minimal true s
  | _, '*' :: s => ¬ StarNext s ∧ Minimal false s
  | _, _ :: s => Minimal false s

/-- No two stars at the start of a run have question marks and a star behind them. -/
def StarsApart : Place → List Char → Prop
  | _, [] => True
  | .escaped, _ :: s => StarsApart .loop s
  | _, '\\' :: s => StarsApart .escaped s
  | .loop, '*' :: s => StarsApart .star s
  | .marks, '*' :: s => StarsApart .marks s
  | _, '*' :: s => StarsApart .stars s
  | .star, '?' :: s | .marks, '?' :: s => StarsApart .marks s
  | .stars, '?' :: s => ¬ StarNext s ∧ StarsApart .loop s
  | _, _ :: s => StarsApart .loop s

section Other

variable {c : Char} (hb : c ≠ '\\') (hs : c ≠ '*') (hq : c ≠ '?') (s : List Char)
include hs hq

/-- A run ends at any other character. -/
theorem not_starNext_other : ¬StarNext (c :: s) := by
  simp [StarNext, hs, hq]

include hb

theorem keep_other (p : Place) : keep p (c :: s) = c :: keep .loop s := by
  cases p <;> simp [keep, hs, hq]

theorem starsApart_other (p : Place) : StarsApart p (c :: s) ↔ StarsApart .loop s := by
  cases p <;> simp [StarsApart, hs, hq]

omit hq in
theorem minimal_other (escaped : Bool) : Minimal escaped (c :: s) ↔ Minimal false s := by
  cases escaped <;> simp [Minimal]

end Other

/-- The loop keeps the star that comes next, with the question marks before it. -/
theorem starNext_keep_loop (s : List Char) : StarNext (keep .loop s) ↔ StarNext s := by
  induction s with
  | nil => rfl
  | cons c s ih =>
    by_cases hb : c = '\\'
    · subst hb
      rfl
    by_cases hs : c = '*'
    · subst hs
      exact iff_of_true rfl rfl
    by_cases hq : c = '?'
    · subst hq
      exact ih
    rw [keep_other hb hs hq]
    exact iff_of_false (not_starNext_other hs hq _) (not_starNext_other hs hq _)

/-- Behind `*?` the stars of the run are dropped. -/
theorem not_starNext_keep_marks (s : List Char) : ¬StarNext (keep .marks s) := by
  induction s with
  | nil => exact nofun
  | cons c s ih =>
    by_cases hb : c = '\\'
    · subst hb
      simp [keep, StarNext]
    by_cases hs : c = '*'
    · subst hs
      exact ih
    by_cases hq : c = '?'
    · subst hq
      exact ih
    rw [keep_other hb hs hq]
    exact not_starNext_other hs hq _

/-- What is kept from a place on is minimal exactly if the stars are apart. By induction on the text,
with the place that the loop goes on from. -/
theorem minimal_keep_iff (p : Place) (s : List Char) :
    ((p = .star ∨ p = .stars → ¬ StarNext (keep p s)) ∧ Minimal (p = .escaped) (keep p s)) ↔
      StarsApart p s := by
  induction s generalizing p with
  | nil => cases p <;> simp [keep, Minimal, StarNext, StarsApart]
  | cons c s ih =>
    by_cases hesc : p = .escaped
    · subst hesc
      simpa [keep, Minimal, StarsApart] using ih .loop
    by_cases hb : c = '\\'
    · subst hb
      cases p with
      | escaped => exact absurd rfl hesc
      | _ => simpa [keep, Minimal, StarNext, StarsApart] using ih .escaped
    by_cases hs : c = '*'
    · subst hs
      cases p with
      | loop => simpa [keep, Minimal, StarsApart] using ih .star
      | escaped => exact absurd rfl hesc
      | star | stars => simpa [keep, StarsApart] using ih .stars
      | marks => simpa [keep, StarsApart] using ih .marks
    by_cases hq : c = '?'
    · subst hq
      cases p with
      | loop => simpa [keep, Minimal, StarsApart] using ih .loop
      | escaped => exact absurd rfl hesc
      | star =>
        have hmarks := not_starNext_keep_marks s
        simpa [keep, Minimal, StarNext, StarsApart, hmarks] using ih .marks
      | stars =>
        -- the loop goes on as if no star were there
        have hloop := starNext_keep_loop s
        simpa [keep, Minimal, StarNext, StarsApart, hloop] using fun _ => ih .loop
      | marks => simpa [keep, Minimal, StarsApart] using ih .marks
    rw [keep_other hb hs hq, minimal_other hb hs, starsApart_other hb hs hq]
    simpa [not_starNext_other hs hq] using ih .loop

/-- A minimal pattern is kept. -/
theorem Minimal.keep_eq {p : Place} {s : List Char} (h : Minimal (p = .escaped) s) (hp : p ≠ .stars)
    (hnext : p = .star ∨ p = .marks → ¬ StarNext s) : keep p s = s := by
  induction s generalizing p with
  | nil => cases p <;> rfl
  | cons c s ih =>
    by_cases hesc : p = .escaped
    · subst hesc
      exact congrArg (List.cons c) (ih h (by decide) (by simp))
    by_cases hb : c = '\\'
    · subst hb
      have hrest : Minimal true s := by simpa [Minimal, hesc] using h
      have hkept := ih (p := .escaped) hrest (by decide) (by simp)
      cases p with
      | escaped => exact absurd rfl hesc
      | _ => exact congrArg (List.cons '\\') hkept
    by_cases hs : c = '*'
    · subst hs
      cases p with
      | loop =>
        obtain ⟨hstar, hrest⟩ : ¬StarNext s ∧ Minimal false s := by simpa [Minimal] using h
        exact congrArg (List.cons '*') (ih (p := .star) hrest (by decide) fun _ => hstar)
      | escaped => exact absurd rfl hesc
      | star => exact absurd rfl (hnext (.inl rfl))
      | stars => exact absurd rfl hp
      | marks => exact absurd rfl (hnext (.inr rfl))
    by_cases hq : c = '?'
    · subst hq
      have hrest : Minimal false s := by simpa [Minimal, hesc] using h
      have hmarks : ¬StarNext s → keep .marks s = s := fun hno =>
        ih (p := .marks) hrest (by decide) fun _ => hno
      cases p with
      | loop => exact congrArg (List.cons '?') (ih (p := .loop) hrest (by decide) (by simp))
      | escaped => exact absurd rfl hesc
      | star => exact congrArg (List.cons '?') (hmarks (hnext (.inl rfl)))
      | stars => exact absurd rfl hp
      | marks => exact congrArg (List.cons '?') (hmarks (hnext (.inr rfl)))
    rw [keep_other hb hs hq, ih (p := .loop) ((minimal_other hb hs s _).mp h) (by decide) (by simp)]

/-- The result is minimal and collapsing it again does not change it, exactly if the stars are apart. -/
theorem collapse_minimal_iff (p : List Char) :
    (collapse (collapse p) = collapse p ∧ Minimal false (collapse p)) ↔ StarsApart .loop p := by
  rw [← minimal_keep_iff]
  constructor
  · rintro ⟨-, h⟩
    exact ⟨by simp, h⟩
  · rintro ⟨-, h⟩
    exact ⟨h.keep_eq (by simp) (by simp), h⟩

/-- A pattern that is collapsed further by collapsing it again. -/
theorem collapse_not_idempotent :
    collapse "**?*".toList = "*?*".toList ∧ collapse "*?*".toList = "*?".toList := by
  decide

end ObbyIRCd.Match
