import Mathlib.Data.List.TakeWhile

/-!
# Framing a stream into lines

A line protocol cuts a stream at runs of terminators, drops the blanks in front of each line,
ignores empty lines, and keeps a bounded prefix of each line. `lines` and `tail` say what the lines
of a whole stream are and what is left over behind the last terminator. The lemmas say what happens
to both when the stream starts with a byte that frames nothing (`junk_append`) and when
it starts with a complete line (`lines_line`, `tail_piece`). A scanner that consumes a stream from
the front keeps `lines` and `tail` of what is still to come by these rules alone.
-/

namespace ObbyIRCd.Framing

open List

variable {α : Type*} (eol blank : α → Bool) (cap : ℕ)

/-- The complete lines of a stream. Cutting at every terminator differs from cutting at maximal
runs of terminators only in empty pieces, which are dropped. -/
def lines (s : List α) : List (List α) :=
  (((s.splitOnP eol).dropLast.map fun l => l.dropWhile blank).filter fun l => l ≠ []).map
    fun l => l.take cap

/-- The piece behind the last terminator, without the blanks in front of it. -/
def tail (s : List α) : List α :=
  (((s.splitOnP eol).getLast?).getD []).dropWhile blank

variable {l : List α}

/-- What `dropWhile` stops at. -/
theorem of_dropWhile_eq_cons {p : α → Bool} {r : List α} {b : α}
    (h : l.dropWhile p = b :: r) : p b = false := by
  have hne : l.dropWhile p ≠ [] := by simp [h]
  simpa [h] using head_dropWhile_not p hne

/-- Dropping as many as `takeWhile` takes. -/
theorem drop_length_takeWhile (p : α → Bool) (l : List α) :
    l.drop (l.takeWhile p).length = l.dropWhile p := by
  have h : (l.takeWhile p ++ l.dropWhile p).drop (l.takeWhile p).length = l.dropWhile p :=
    drop_left' rfl
  rwa [takeWhile_append_dropWhile] at h

/-- A byte that belongs to no line when it stands in front of one. -/
def junk (b : α) : Bool := eol b || blank b

variable {eol blank cap}

variable {s : List α}

theorem lines_of_forall (h : ∀ b ∈ s, eol b = false) : lines eol blank cap s = [] := by
  simp [lines, splitOnP_eq_singleton h]

theorem tail_of_forall (h : ∀ b ∈ s, eol b = false) : tail eol blank s = s.dropWhile blank := by
  simp [tail, splitOnP_eq_singleton h]

theorem lines_piece {e : α} (hl : ∀ b ∈ l, eol b = false) (he : eol e = true) :
    lines eol blank cap (l ++ e :: s) =
      (if l.dropWhile blank = [] then [] else [(l.dropWhile blank).take cap]) ++
        lines eol blank cap s := by
  have hne := splitOnP_ne_nil eol s
  rw [lines, splitOnP_append_cons_of_forall_mem hl e he, dropLast_cons_of_ne_nil hne]
  by_cases hd : l.dropWhile blank = []
  · simp [lines, hd]
  · simp [lines, hd]

theorem tail_piece {e : α} (hl : ∀ b ∈ l, eol b = false) (he : eol e = true) :
    tail eol blank (l ++ e :: s) = tail eol blank s := by
  obtain ⟨p, ps, hps⟩ := exists_cons_of_ne_nil (splitOnP_ne_nil eol s)
  rw [tail, splitOnP_append_cons_of_forall_mem hl e he, tail, hps]
  simp

/-- Every stream either has no terminator or starts with a piece that ends at its first one. -/
theorem eq_piece_or_forall (eol : α → Bool) (s : List α) : (∀ b ∈ s, eol b = false) ∨
      ∃ l e r, s = l ++ e :: r ∧ (∀ b ∈ l, eol b = false) ∧ eol e = true := by
  rcases hdrop : s.dropWhile (!eol ·) with _ | ⟨e, r⟩
  · exact .inl fun b hb => by simpa using dropWhile_eq_nil_iff.mp hdrop b hb
  · refine .inr ⟨s.takeWhile (!eol ·), e, r, ?_, fun b hb => by simpa using mem_takeWhile_imp hb,
      by simpa using of_dropWhile_eq_cons hdrop⟩
    rw [← hdrop, takeWhile_append_dropWhile]

/-- A byte that frames nothing changes neither the lines nor the tail behind it. -/
theorem cons_junk {b : α} (hb : junk eol blank b = true) (s : List α) :
    lines eol blank cap (b :: s) = lines eol blank cap s ∧
      tail eol blank (b :: s) = tail eol blank s := by
  cases he : eol b with
  | true =>
    have hlines : lines eol blank cap ([] ++ b :: s) = _ := lines_piece (by simp) he
    have htail : tail eol blank ([] ++ b :: s) = _ := tail_piece (by simp) he
    exact ⟨by simpa using hlines, htail⟩
  | false =>
    have hbl : blank b = true := by simpa [junk, he] using hb
    rcases eq_piece_or_forall eol s with h | ⟨l, e, r, rfl, hl, hr⟩
    · have h' : ∀ x ∈ b :: s, eol x = false := by simpa [he] using h
      rw [lines_of_forall h, lines_of_forall h', tail_of_forall h, tail_of_forall h']
      simp [hbl]
    · have hl' : ∀ x ∈ b :: l, eol x = false := by simpa [he] using hl
      rw [← cons_append, lines_piece hl' hr, lines_piece hl hr, tail_piece hl' hr, tail_piece hl hr]
      simp [hbl]

/-- Leading bytes that frame nothing can be dropped from a stream. -/
theorem junk_append {j : List α} (hj : ∀ b ∈ j, junk eol blank b = true) (s : List α) :
    lines eol blank cap (j ++ s) = lines eol blank cap s ∧
      tail eol blank (j ++ s) = tail eol blank s := by
  induction j with
  | nil => exact ⟨rfl, rfl⟩
  | cons b j ih =>
    obtain ⟨hlines, htail⟩ := ih fun x hx => hj x (by simp [hx])
    obtain ⟨hlines', htail'⟩ := cons_junk (hj b (by simp)) (j ++ s)
    exact ⟨hlines'.trans hlines, htail'.trans htail⟩

theorem lines_line {e : α} (hl : ∀ b ∈ l, eol b = false) (he : eol e = true)
    (hne : l.dropWhile blank = l) (hl0 : l ≠ []) :
    lines eol blank cap (l ++ e :: s) = l.take cap :: lines eol blank cap s := by
  rw [lines_piece hl he, hne, if_neg hl0, singleton_append]

end ObbyIRCd.Framing
