import Mathlib.Data.List.Basic

/-!
# Words separated by one character

`strtoken` with one separator: the nonempty runs between separators. Words that are written one after
the other, each with a separator behind it, are read back, also without the last separator.
-/

namespace ObbyIRCd

open List

variable {α : Type*} (sep : α)

def unwords (ws : List (List α)) : List α := ws.flatMap (· ++ [sep])

theorem unwords_cons (w : List α) (ws : List (List α)) :
    unwords sep (w :: ws) = w ++ sep :: unwords sep ws := by
  unfold unwords
  rw [flatMap_cons, append_assoc, singleton_append]

theorem dropLast_unwords_cons (w : List α) (ws : List (List α)) :
    (unwords sep (w :: ws)).dropLast = w ++ ws.flatMap (sep :: ·) := by
  induction ws generalizing w with
  | nil =>
    rw [unwords_cons, show unwords sep ([] : List (List α)) = [] from rfl, dropLast_concat,
      flatMap_nil, append_nil]
  | cons w' ws ih =>
    have hne : unwords sep (w' :: ws) ≠ [] := by simp [unwords]
    rw [unwords_cons, dropLast_append_of_ne_nil (cons_ne_nil _ _),
      dropLast_cons_of_ne_nil hne, ih w', flatMap_cons, cons_append]

variable {ws : List (List α)}

theorem foldl_join (hws : ∀ w ∈ ws, w ≠ []) :
    ws.foldl (fun text w => (if text ≠ [] then text ++ [sep] else text) ++ w) [] =
      (unwords sep ws).dropLast := by
  have hrest : ∀ (ws : List (List α)) (text : List α), text ≠ [] →
      ws.foldl (fun text w => (if text ≠ [] then text ++ [sep] else text) ++ w) text =
        text ++ ws.flatMap (sep :: ·) := by
    intro ws
    induction ws with
    | nil => simp
    | cons w ws ih =>
      intro text htext
      rw [foldl_cons, if_pos htext, ih _ (by simp [htext]), flatMap_cons, append_assoc,
        append_assoc, singleton_append, cons_append]
  cases ws with
  | nil => rfl
  | cons w ws =>
    rw [foldl_cons, if_neg (not_not.mpr rfl), nil_append,
      hrest ws w (hws w mem_cons_self), dropLast_unwords_cons]

variable [DecidableEq α]

/-- The words of a text, where `word` is what has been read of the first one. -/
def words (word : List α) : List α → List (List α)
  | [] => if word = [] then [] else [word]
  | c :: text =>
    if c = sep then if word = [] then words [] text else word :: words [] text
    else words (word ++ [c]) text

variable {sep}

variable {w : List α}

theorem words_append (hw : ∀ c ∈ w, c ≠ sep) (word text : List α) :
    words sep word (w ++ text) = words sep (word ++ w) text := by
  induction w generalizing word with
  | nil => rw [nil_append, append_nil]
  | cons c w ih =>
    rw [cons_append, words, if_neg (hw c mem_cons_self),
      ih fun c' hc' => hw c' (mem_cons_of_mem c hc'), append_assoc, singleton_append]

/-- A separator at the end adds no word. -/
theorem words_concat (word text : List α) : words sep word (text ++ [sep]) = words sep word text := by
  induction text generalizing word with
  | nil =>
    exact if_pos rfl
  | cons c text ih =>
    rw [cons_append, words, words, ih, ih]

/-- Texts without separators are read back, apart from the empty ones. -/
theorem words_unwords (hws : ∀ w ∈ ws, ∀ c ∈ w, c ≠ sep) :
    words sep [] (unwords sep ws) = ws.filter (· ≠ []) := by
  induction ws with
  | nil => rfl
  | cons w ws ih =>
    obtain ⟨hw, hws⟩ := forall_mem_cons.mp hws
    rw [unwords_cons, words_append hw, nil_append, words, if_pos rfl, ih hws]
    by_cases hne : w = []
    · rw [if_pos hne, filter_cons_of_neg (by simp [hne])]
    · rw [if_neg hne, filter_cons_of_pos (by simp [hne])]

theorem words_dropLast_unwords (ws : List (List α)) :
    words sep [] (unwords sep ws).dropLast = words sep [] (unwords sep ws) := by
  rcases eq_nil_or_concat ws with rfl | ⟨ws, w, rfl⟩
  · rfl
  · have hlast : unwords sep (ws ++ [w]) = (unwords sep ws ++ w) ++ [sep] := by simp [unwords]
    rw [concat_eq_append, hlast, dropLast_concat, words_concat]

end ObbyIRCd
