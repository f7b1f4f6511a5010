import Mathlib.Data.List.Chain
import Mathlib.Data.Nat.Notation

/-!
# Spamfilter reasons as one parameter

The reason of a spamfilter is not the last parameter of a TKL line, so `misc.c` writes its spaces as
underscores and its underscores as pairs of them. Reading goes from left to right and takes two
underscores for one, so a space that is followed by a space or an underscore is lost
(`unrealDecodespace_encodespace_iff`).
-/

namespace ObbyIRCd.Tkl

open List

/-- What `unreal_encodespace` writes for a character. -/
def encodespaceChar (c : Char) : List Char :=
  if c = ' ' then ['_'] else if c = '_' then ['_', '_'] else [c]

/-- The loop of `unreal_encodespace`, with the room that is left before `buf+509`. -/
def encodespaceLoop (room : ℕ) : List Char → List Char
  | [] => []
  | c :: s =>
    if room = 0 then []
    else encodespaceChar c ++ encodespaceLoop (room - (encodespaceChar c).length) s

variable (s : List Char)

/-- `unreal_encodespace`. -/
def unrealEncodespace : List Char := encodespaceLoop 509 s

/-- The loop of `unreal_decodespace`, with the room that is left before `buf+510`. -/
def decodespaceLoop : ℕ → List Char → List Char
  | 0, _ => []
  | _, [] => []
  | room + 1, c :: s =>
    if c = '_' then
      -- of a pair of underscores the second one is skipped
      if s.head? = some '_' then '_' :: decodespaceLoop room s.tail
      else ' ' :: decodespaceLoop room s
    else c :: decodespaceLoop room s

/-- `unreal_decodespace`. -/
def unrealDecodespace : List Char := decodespaceLoop 510 s

/-- The buffers are large enough: there is room where the last character is written. -/
def FitsEncodespace : Prop := (s.dropLast.flatMap encodespaceChar).length < 509

instance (s : List Char) : Decidable (FitsEncodespace s) := inferInstanceAs (Decidable (_ < _))

theorem encodespaceChar_length (c : Char) :
    1 ≤ (encodespaceChar c).length ∧ (encodespaceChar c).length ≤ 2 := by
  unfold encodespaceChar
  split_ifs <;> simp

theorem encodespaceLoop_eq (room : ℕ) (hroom : (s.dropLast.flatMap encodespaceChar).length < room) :
    encodespaceLoop room s = s.flatMap encodespaceChar := by
  induction s generalizing room with
  | nil => rfl
  | cons c s ih =>
    rw [encodespaceLoop, if_neg (by omega)]
    congr 1
    rcases s with _ | ⟨d, s⟩
    · rfl
    · rw [dropLast_cons_cons, flatMap_cons, length_append] at hroom
      exact ih _ (by omega)

/-- Whether the code of a text starts with an underscore. -/
theorem head?_flatMap_encodespaceChar :
    (s.flatMap encodespaceChar).head? = some '_' ↔ ∃ c ∈ s.head?, c = ' ' ∨ c = '_' := by
  rcases s with _ | ⟨c, s⟩
  · simp
  unfold encodespaceChar
  by_cases hspace : c = ' '
  · simp [hspace]
  · by_cases hline : c = '_'
    · simp [hline]
    · simp [hspace, hline]

theorem decodespaceLoop_encoded (room : ℕ) (hroom : (s.flatMap encodespaceChar).length ≤ room) :
    decodespaceLoop room (s.flatMap encodespaceChar) = s ↔
      s.IsChain fun c d => c = ' ' → ¬ (d = ' ' ∨ d = '_') := by
  induction s generalizing room with
  | nil => exact iff_of_true (by cases room <;> rfl) isChain_nil
  | cons c s ih =>
    have hlen := (encodespaceChar_length c).1
    rw [flatMap_cons, length_append] at hroom
    obtain ⟨room, rfl⟩ : ∃ r, room = r + 1 := ⟨room - 1, by omega⟩
    have hrest := ih room (by omega)
    have hhead := head?_flatMap_encodespaceChar s
    rw [flatMap_cons, isChain_cons]
    by_cases hspace : c = ' '
    · subst hspace
      rw [show encodespaceChar ' ' = ['_'] from rfl, singleton_append, decodespaceLoop, if_pos rfl]
      by_cases hnext : (s.flatMap encodespaceChar).head? = some '_'
      · -- The underscore is taken for the first one of a pair.
        rw [if_pos hnext]
        obtain ⟨d, hd, hmark⟩ := hhead.mp hnext
        exact iff_of_false (by simp) (fun h => h.1 d hd rfl hmark)
      · rw [if_neg hnext, cons.injEq, and_iff_right rfl, hrest]
        exact (and_iff_right fun d hd _ hmark => hnext (hhead.mpr ⟨d, hd, hmark⟩)).symm
    · rw [and_iff_right fun d _ h => absurd h hspace, ← hrest]
      by_cases hline : c = '_'
      · subst hline
        rw [show encodespaceChar '_' = ['_', '_'] from rfl, cons_append, decodespaceLoop]
        simp
      · have hcode : encodespaceChar c = [c] := by rw [encodespaceChar, if_neg hspace, if_neg hline]
        rw [hcode, singleton_append, decodespaceLoop, if_neg hline]
        simp

/-- A reason survives, exactly when no space in it is followed by a space or an underscore. -/
theorem unrealDecodespace_encodespace_iff (s : List Char) (hfits : FitsEncodespace s) :
    unrealDecodespace (unrealEncodespace s) = s ↔
      s.IsChain fun c d => c = ' ' → ¬ (d = ' ' ∨ d = '_') := by
  unfold unrealDecodespace unrealEncodespace
  rw [encodespaceLoop_eq s 509 hfits]
  refine decodespaceLoop_encoded s 510 ?_
  rcases eq_nil_or_concat' s with rfl | ⟨init, last, rfl⟩
  · decide
  rw [FitsEncodespace, dropLast_concat] at hfits
  rw [flatMap_append, length_append, flatMap_singleton]
  have hlast := (encodespaceChar_length last).2
  omega

/-- `unrealDecodespace_encodespace_iff` for a reason of two words. -/
theorem unrealDecodespace_two_words :
    unrealDecodespace (unrealEncodespace "go_away now".toList) = "go_away now".toList :=
  (unrealDecodespace_encodespace_iff "go_away now".toList (by decide)).mpr (by decide)

/-- Two spaces are read as an underscore. -/
theorem unrealDecodespace_two_spaces : FitsEncodespace "no  spam".toList ∧
    unrealDecodespace (unrealEncodespace "no  spam".toList) = "no_spam".toList := by
  decide

end ObbyIRCd.Tkl
