import Mathlib.Algebra.GroupWithZero.Nat
import Mathlib.Algebra.Order.Ring.Nat
import ObbyIRCd.Lib.Decimal

/-!
# Times in the configuration

The times of `src/conf.c`. `pretty_time_val` prints a number of seconds in days, hours, minutes and
seconds, and leaves out the parts that are zero. `config_checkval` reads it back, and so it does any
sequence of numbers with their units (`checkvalTime_exact`). A unit is a letter: all but those for
weeks, days, hours and minutes stand for seconds.
-/

namespace ObbyIRCd.Conf

open List

/-- The seconds of a unit. -/
def timeFactor (c : Char) : ℤ :=
  match c.toLower with
  | 'w' => 604800
  | 'd' => 86400
  | 'h' => 3600
  | 'm' => 60
  | _ => 1

/-- `config_checkval` with `CFG_TIME`: `digits` are those right before the text, and `letters` tells
whether a letter is. Each run of letters counts the digits before it in the unit of its first letter.
The digits at the end are seconds, also with one more character behind them. -/
def checkvalTime (letters : Bool) (digits : List Char) : List Char → ℤ
  | [] => atoi digits
  | c :: text =>
    if c.isAlpha then
      (if letters then 0 else (atoi digits * timeFactor c).bmod (2 ^ 32)) + checkvalTime true [] text
    else if c.isDigit then checkvalTime false (digits ++ [c]) text
    else if text = [] then atoi digits
    else checkvalTime false [] text

/-- A part of the text that `pretty_time_val` prints. -/
def prettyPart (n : ℕ) (unit : Char) : List Char := if n = 0 then [] else decimal n ++ [unit]

/-- `pretty_time_val`. -/
def prettyTimeVal (timeval : ℕ) : List Char :=
  if timeval = 0 then ['0']
  else prettyPart (timeval / 86400) 'd' ++ prettyPart (timeval / 3600 % 24) 'h' ++
    prettyPart (timeval / 60 % 60) 'm' ++ prettyPart (timeval % 60) 's'

/-- Digits are collected. -/
theorem checkvalTime_digits {l : List Char} (hl : ∀ c ∈ l, c.isDigit = true) (digits text : List Char) :
    checkvalTime false digits (l ++ text) = checkvalTime false (digits ++ l) text := by
  induction l generalizing digits with
  | nil => rw [nil_append, append_nil]
  | cons c l ih =>
    have hc := hl c mem_cons_self
    have halpha := isAlpha_of_isDigit hc
    rw [cons_append, checkvalTime, halpha, hc, if_neg (by decide), if_pos rfl,
      ih fun c' hc' => hl c' (mem_cons_of_mem c hc'), append_assoc, singleton_append]

/-- A number with a unit. -/
theorem checkvalTime_unit {n : ℕ} (hn : n < 2 ^ 31) {u : Char} (hu : u.isAlpha = true) :
    checkvalTime false [] (decimal n ++ [u]) = (n * timeFactor u).bmod (2 ^ 32) := by
  rw [checkvalTime_digits fun c hc => isDigit_of_mem_decimal hc, nil_append, checkvalTime, hu,
    atoi_decimal hn]
  exact Int.add_zero _

/-- A number and its unit. -/
structure TimePart where
  digits : List Char
  unit : Char
  digits_ne : digits ≠ []
  isDigit : ∀ c ∈ digits, c.isDigit = true
  isAlpha : unit.isAlpha = true

namespace TimePart

def text (p : TimePart) : List Char := p.digits ++ [p.unit]

def seconds (p : TimePart) : ℕ := Nat.ofDigitChars 10 p.digits 0 * (timeFactor p.unit).toNat

theorem timeFactor_pos (c : Char) : 0 < timeFactor c := by
  unfold timeFactor
  split <;> decide

/-- A part adds its seconds. The digits are taken whether letters stand before them or not. -/
theorem checkvalTime_text (p : TimePart) (letters : Bool) (text : List Char)
    (hlt : p.seconds < 2 ^ 31) :
    checkvalTime letters [] (p.text ++ text) = p.seconds + checkvalTime true [] text := by
  obtain ⟨ds, u, hne, hds, hu⟩ := p
  have hpos := timeFactor_pos u
  unfold TimePart.text TimePart.seconds at *
  dsimp only at *
  have hnumber : Nat.ofDigitChars 10 ds 0 < 2 ^ 31 :=
    Nat.lt_of_le_of_lt (Nat.le_mul_of_pos_right _ (by omega)) hlt
  have hvalue : (Nat.ofDigitChars 10 ds 0 : ℤ) * timeFactor u =
      ((Nat.ofDigitChars 10 ds 0 * (timeFactor u).toNat : ℕ) : ℤ) := by
    rw [Int.natCast_mul, Int.toNat_of_nonneg (Int.le_of_lt hpos)]
  have hread : checkvalTime letters [] (ds ++ u :: text) = checkvalTime false ds (u :: text) := by
    obtain ⟨c, ds, rfl⟩ := exists_cons_of_ne_nil hne
    have hc := hds c mem_cons_self
    rw [cons_append, checkvalTime, isAlpha_of_isDigit hc, hc, if_neg Bool.false_ne_true, if_pos rfl,
      checkvalTime_digits fun c' hc' => hds c' (mem_cons_of_mem c hc')]
    rfl
  rw [append_assoc, singleton_append, hread, checkvalTime, hu, if_pos rfl, if_neg Bool.false_ne_true,
    atoi_digits hds hnumber, hvalue, Int.bmod_eq_of_le (by omega) (by omega)]

/-- A sequence of parts is read as the sum of their seconds. -/
theorem checkvalTime_flatMap (ps : List TimePart) (letters : Bool)
    (hlt : (ps.map seconds).sum < 2 ^ 31) :
    checkvalTime letters [] (ps.flatMap text) = (ps.map seconds).sum := by
  induction ps generalizing letters with
  | nil => rfl
  | cons p ps ih =>
    rw [map_cons, sum_cons] at hlt ⊢
    rw [flatMap_cons, checkvalTime_text p letters _ (by omega), ih true (by omega), Int.natCast_add]

/-- The part that is printed for a number, if one is. -/
def printed (n : ℕ) (unit : Char) (hunit : unit.isAlpha = true) : List TimePart :=
  if n = 0 then []
  else [⟨decimal n, unit, decimal_ne_nil n, fun _ hc => isDigit_of_mem_decimal hc, hunit⟩]

variable (n : ℕ) (unit : Char) (hunit : unit.isAlpha = true)

theorem flatMap_printed : (printed n unit hunit).flatMap text = prettyPart n unit := by
  unfold printed prettyPart
  split
  · rfl
  · exact flatMap_singleton text _

theorem sum_printed :
    ((printed n unit hunit).map seconds).sum = n * (timeFactor unit).toNat := by
  unfold printed
  split
  · simp_all
  · simp [seconds, ofDigitChars_decimal]

end TimePart

/-- Times are read back as they are printed, and every sequence of parts is read as the sum of their
seconds, up to the largest `int`. -/
theorem checkvalTime_exact :
    (∀ t < 2 ^ 31, checkvalTime false [] (prettyTimeVal t) = t) ∧
      ∀ ps : List TimePart, (ps.map TimePart.seconds).sum < 2 ^ 31 →
        checkvalTime false [] (ps.flatMap TimePart.text) = (ps.map TimePart.seconds).sum := by
  refine ⟨fun t ht => ?_, fun ps hlt => TimePart.checkvalTime_flatMap ps false hlt⟩
  unfold prettyTimeVal
  split
  · subst t
    decide
  have hsum : t / 86400 * 86400 + t / 3600 % 24 * 3600 + t / 60 % 60 * 60 + t % 60 * 1 = t := by
    omega
  have hread := TimePart.checkvalTime_flatMap (TimePart.printed (t / 86400) 'd' rfl ++
    TimePart.printed (t / 3600 % 24) 'h' rfl ++ TimePart.printed (t / 60 % 60) 'm' rfl ++
    TimePart.printed (t % 60) 's' rfl) false
  simp only [flatMap_append, TimePart.flatMap_printed, map_append, sum_append,
    TimePart.sum_printed] at hread
  exact (hread (hsum.trans_lt ht)).trans (congrArg _ hsum)

end ObbyIRCd.Conf
