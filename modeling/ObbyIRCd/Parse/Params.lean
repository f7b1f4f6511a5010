import Mathlib.Data.List.TakeWhile

/-!
# The parameters of a command

`parse2` of `src/parse.c` splits the rest of a line at blanks. A parameter that starts with a colon,
and the last one that the command takes, go to the end of the line. `concat_params` of `src/misc.c`
joins parameters to a line again, with a colon in front of one that has a blank in it or starts with
a colon. An empty parameter gets none, so it is lost when the line is split again; it can only be
the last one (`Shaped`).
-/

namespace ObbyIRCd.Parse

open List

/-- The loop of `parse2` over the rest of the line. `more` is the number of parameters that the
command takes behind the current one. -/
def parse2Loop : (more : ℕ) → (s : List Char) → List (List Char)
  | more, s =>
    match more, s.dropWhile (· = ' ') with
    | _, [] => []
    | _, ':' :: rest => [rest]
    | 0, c :: rest => [c :: rest]
    | more + 1, c :: rest =>
      (c :: rest).takeWhile (· ≠ ' ') :: parse2Loop more ((c :: rest).dropWhile (· ≠ ' '))

/-- What `parse2` makes of the rest of a line from a server. It cuts off each parameter at 510 bytes,
unless the command has `CMD_BIGLINES`; that the line is longer than that is checked first, and makes
no difference. -/
def parse2 (bigLines : Bool) (paramcount : ℕ) (s : List Char) : List (List Char) :=
  let para := parse2Loop (paramcount - 1) s
  if bigLines then para else para.map (List.take 510)

/-- Whether `concat_params` writes a colon in front of a parameter. -/
def needsColon (param : List Char) : Bool := ' ' ∈ param || param.head? = some ':'

/-- The loop of `concat_params`: the whole text that it writes. -/
def concatLoop (buf : List Char) : List (List Char) → List Char
  | [] => buf
  | param :: parv =>
    let buf := if buf.isEmpty then buf else buf ++ [' ']
    if needsColon param then buf ++ ':' :: param else concatLoop (buf ++ param) parv

/-- `concat_params` for a buffer of a size: `strlcat` appends as much as there is room for. -/
def concatParams (size : ℕ) (parv : List (List Char)) : List Char :=
  (concatLoop [] parv).take (size - 1)

def blankText : List (List Char) → List Char
  | [] => []
  | param :: parv =>
    if needsColon param then ' ' :: ':' :: param else ' ' :: param ++ blankText parv

/-- The parameters that a command with `more` further ones can get: only the last one can be empty,
start with a colon or have a blank in it. -/
inductive Shaped : (more : ℕ) → List (List Char) → Prop
  | nil (more : ℕ) : Shaped more []
  | last (more : ℕ) (param : List Char) : Shaped more [param]
  | cons {more : ℕ} {param : List Char} {parv : List (List Char)} :
      param ≠ [] → needsColon param = false → Shaped more parv → Shaped (more + 1) (param :: parv)

theorem concatLoop_append {buf : List Char} (hbuf : buf ≠ []) (parv : List (List Char)) :
    concatLoop buf parv = buf ++ blankText parv := by
  induction parv generalizing buf with
  | nil => simp [concatLoop, blankText]
  | cons param parv ih =>
    rw [concatLoop, blankText]
    split <;> simp [hbuf, ih]

variable (more : ℕ)

theorem parse2Loop_blank (s : List Char) :
    parse2Loop more (' ' :: s) = parse2Loop more s := by
  rw [parse2Loop.eq_def, parse2Loop.eq_def more s]
  simp

theorem shaped_parse2Loop (s : List Char) : Shaped more (parse2Loop more s) := by
  fun_induction parse2Loop more s with
  | case1 => exact .nil _
  | case2 | case3 => exact .last _ _
  | case4 s more c rest hcolon hs ih =>
    have hc : c ≠ ' ' := by
      intro hc
      have := head_dropWhile_not (fun x => decide (x = ' ')) (l := s) (by rw [hs]; simp)
      simp [hs, hc] at this
    refine .cons (by simp [hc]) ?_ ih
    have hblank : ' ' ∉ (c :: rest).takeWhile (· ≠ ' ') := fun h => by
      simpa using mem_takeWhile_imp h
    simp_all [needsColon]

theorem parse2Loop_cons {c : Char} {rest : List Char}
    (hcolon : needsColon (c :: rest) = false) (t : List Char) :
    parse2Loop more (c :: rest ++ t) =
      match more with
      | 0 => [c :: rest ++ t]
      | more + 1 => (c :: rest ++ t).takeWhile (· ≠ ' ') ::
          parse2Loop more ((c :: rest ++ t).dropWhile (· ≠ ' ')) := by
  have hc : c ≠ ':' ∧ c ≠ ' ' := by
    constructor <;> rintro rfl <;> simp [needsColon] at hcolon
  cases more <;> rw [parse2Loop.eq_def] <;> simp [hc]

theorem parse2Loop_word {c : Char} {rest : List Char}
    (hcolon : needsColon (c :: rest) = false) {t : List Char} (ht : t.head?.all (· = ' ')) :
    parse2Loop (more + 1) (c :: rest ++ t) = (c :: rest) :: parse2Loop more t := by
  have hblank : ∀ a ∈ c :: rest, decide (a ≠ ' ') = true := by
    rintro a ha
    simp only [needsColon, Bool.or_eq_false_iff, decide_eq_false_iff_not] at hcolon
    simpa using fun h : a = ' ' => hcolon.1 (h ▸ ha)
  have hsplit : t.takeWhile (· ≠ ' ') = [] ∧ t.dropWhile (· ≠ ' ') = t := by
    cases t <;> simp_all
  rw [parse2Loop_cons _ hcolon]
  rw [takeWhile_append_of_pos hblank, dropWhile_append_of_pos hblank, hsplit.1, hsplit.2,
    append_nil]

variable {more : ℕ} {parv : List (List Char)}

/-- Splitting the text of parameters gives them, without an empty one at the end. -/
theorem parse2Loop_blankText (h : Shaped more parv) :
    parse2Loop more (blankText parv) =
      if parv.getLast? = some [] then parv.dropLast else parv := by
  induction h with
  | nil more => simp [blankText, parse2Loop.eq_def]
  | last more param =>
    rw [blankText]
    split_ifs with hcolon hnil hnil
    · simp_all [needsColon]
    · simp [parse2Loop.eq_def]
    · simp_all [blankText, parse2Loop.eq_def]
    · obtain ⟨c, rest, rfl⟩ := exists_cons_of_ne_nil (show param ≠ [] by simpa using hnil)
      rw [Bool.not_eq_true] at hcolon
      cases more with
      | zero =>
        simpa [blankText, parse2Loop_blank] using parse2Loop_cons 0 hcolon []
      | succ more =>
        have := parse2Loop_word more hcolon (t := []) rfl
        simpa [blankText, parse2Loop_blank, parse2Loop.eq_def more] using this
  | @cons more param parv hne hcolon h ih =>
    have ht : (blankText parv).head?.all (· = ' ') := by
      cases parv with
      | nil => rfl
      | cons q parv => rw [blankText]; split <;> rfl
    obtain ⟨c, rest, rfl⟩ := exists_cons_of_ne_nil hne
    rw [blankText, if_neg (by simp [hcolon]), cons_append, parse2Loop_blank,
      parse2Loop_word more hcolon ht, ih]
    cases parv with
    | nil => simp
    | cons q parv => split <;> simp_all

/-- Cutting off a parameter does not give it a colon. -/
theorem Shaped.map_take (h : Shaped more parv) : Shaped more (parv.map (List.take 510)) := by
  induction h with
  | nil more => exact .nil more
  | last more param => exact .last more _
  | cons hne hcolon _ ih =>
    refine .cons (by simp [hne]) ?_ ih
    simp only [needsColon, Bool.or_eq_false_iff, decide_eq_false_iff_not] at hcolon ⊢
    exact ⟨fun h => hcolon.1 (mem_of_mem_take h), by simpa [head?_take] using hcolon.2⟩

/-- The blank in front of the first parameter makes no difference. -/
theorem parse2Loop_concatLoop (h : Shaped more parv) :
    parse2Loop more (concatLoop [] parv) = parse2Loop more (blankText parv) := by
  cases parv with
  | nil => rfl
  | cons param parv =>
    rw [concatLoop, blankText]
    by_cases hcolon : needsColon param = true
    · simp [hcolon, parse2Loop_blank]
    rw [if_neg hcolon, if_neg hcolon, cons_append, parse2Loop_blank]
    cases param with
    | nil => cases h with
      | last => rfl
      | cons hne => exact absurd rfl hne
    | cons c rest => exact congrArg _ (concatLoop_append (by simp) parv)

/-- For every line from a server, splitting what `concat_params` makes of its parameters gives the
same parameters, if it fits the buffer, exactly if the last one is not empty. -/
theorem parse2_concatParams_iff (bigLines : Bool) (paramcount size : ℕ) (s : List Char)
    (hfit : (concatLoop [] (parse2 bigLines paramcount s)).length < size) :
    parse2 bigLines paramcount (concatParams size (parse2 bigLines paramcount s)) =
        parse2 bigLines paramcount s ↔
      (parse2 bigLines paramcount s).getLast? ≠ some [] := by
  have hshaped : Shaped (paramcount - 1) (parse2 bigLines paramcount s) := by
    have h := shaped_parse2Loop (paramcount - 1) s
    cases bigLines
    · exact h.map_take
    · exact h
  have hshort : bigLines = false →
      ∀ param ∈ parse2 bigLines paramcount s, param.take 510 = param := by
    rintro rfl param hparam
    obtain ⟨long, -, rfl⟩ := mem_map.mp hparam
    rw [take_take, Nat.min_self]
  generalize parse2 bigLines paramcount s = parv at *
  -- Nothing is cut off a second time.
  have hparse : parse2 bigLines paramcount (concatParams size parv) =
      if parv.getLast? = some [] then parv.dropLast else parv := by
    rw [concatParams, take_of_length_le (by omega), parse2, parse2Loop_concatLoop hshaped,
      parse2Loop_blankText hshaped]
    cases bigLines with
    | true => rfl
    | false =>
      refine (map_congr_left fun param h => hshort rfl param ?_).trans (map_id _)
      split at h
      · exact (dropLast_subset _) h
      · exact h
  rw [hparse]
  split_ifs with hlast
  · refine iff_of_false (fun h => ?_) (by simpa using hlast)
    have := congrArg length h
    cases parv <;> simp at hlast this
  · exact iff_of_true rfl hlast

/-- A numeric with a text of several words. -/
theorem parse2_concatParams_words :
    parse2 false 15 (concatParams 512 (parse2 false 15 "nick :two words".toList)) =
      parse2 false 15 "nick :two words".toList :=
  (parse2_concatParams_iff false 15 512 _ (by decide +kernel)).mpr (by decide +kernel)

/-- The last parameter is empty, and gets lost. -/
theorem parse2_concatParams_empty :
    parse2 false 15 "nick :".toList = ["nick".toList, []] ∧
      parse2 false 15 (concatParams 512 ["nick".toList, []]) = ["nick".toList] := by
  decide +kernel

end ObbyIRCd.Parse
