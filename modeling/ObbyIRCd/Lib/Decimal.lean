import Mathlib.Algebra.Group.Int.Defs
import Mathlib.Algebra.Group.Nat.Defs

/-!
# Decimal numerals in text

`printf("%d")` and `atoi` of the C library, on lists of characters. `atoi` skips blanks, takes a sign
and the digits that follow, and ignores the rest; `strtol` stops at the ends of the 64-bit range and
`atoi` keeps the low 32 bits of that. Users need that digits are read (`atoi_digits`) and that a printed
number is read back: `atoi_decimal` below `2^31`, and `atol_lld` for a 64-bit number that is not
negative.
-/

namespace ObbyIRCd

open List

/-- `%d` of a number that is not negative. -/
def decimal (n : ℕ) : List Char := Nat.toDigits 10 n

/-- `%lld`. -/
def lld (i : ℤ) : List Char := if i < 0 then '-' :: decimal i.natAbs else decimal i.natAbs

/-- `isspace` in the C locale. -/
def isSpace (c : Char) : Bool := c = ' ' || ('\t' ≤ c && c ≤ '\r')

/-- The number that the digits at the start of a text denote, 0 without any. -/
def leadingNumber (s : List Char) : ℕ := Nat.ofDigitChars 10 (s.takeWhile Char.isDigit) 0

/-- `strtol` in base ten. -/
def strtol (s : List Char) : ℤ :=
  match s.dropWhile isSpace with
  | '-' :: rest => max (-2 ^ 63) (-(leadingNumber rest : ℤ))
  | '+' :: rest => min (2 ^ 63 - 1) (leadingNumber rest)
  | rest => min (2 ^ 63 - 1) (leadingNumber rest)

/-- `atoi`: the value of `strtol` converted to `int`. -/
def atoi (s : List Char) : ℤ := (strtol s).bmod (2 ^ 32)

/-- `atol`, where `long` has 64 bits. -/
def atol (s : List Char) : ℤ := strtol s

theorem decimal_ne_nil (n : ℕ) : decimal n ≠ [] := Nat.toDigits_ne_nil

variable {n : ℕ}

theorem isDigit_of_mem_decimal {c : Char} (h : c ∈ decimal n) : c.isDigit = true :=
  Nat.isDigit_of_mem_toDigits (by decide) (by decide) h

/-- A digit is none of the characters that `strtol` treats in a special way. -/
theorem isSpace_of_isDigit {c : Char} (h : c.isDigit = true) : isSpace c = false := by
  simp only [Char.isDigit, Bool.and_eq_true, decide_eq_true_eq] at h
  simp only [isSpace, Bool.or_eq_false_iff, decide_eq_false_iff_not, Bool.and_eq_false_iff]
  refine ⟨?_, .inr ?_⟩
  · rintro rfl
    exact absurd h.1 (by decide)
  · intro hle
    exact absurd (UInt32.le_trans h.1 hle) (by decide)

theorem isAlpha_of_isDigit {c : Char} (h : c.isDigit = true) : c.isAlpha = false := by
  simp only [Char.isDigit, Bool.and_eq_true, decide_eq_true_eq] at h
  refine Bool.or_eq_false_iff.mpr ⟨decide_eq_false fun hle => ?_, ?_⟩
  · exact absurd (UInt32.le_trans hle.1 h.2) (by decide)
  · refine Bool.and_eq_false_iff.mpr (.inl (decide_eq_false fun hle => ?_))
    exact absurd (UInt32.le_trans hle h.2) (by decide)

/-- An `int` has at most ten digits. -/
theorem length_decimal_le (hn : n < 2 ^ 31) : (decimal n).length ≤ 10 :=
  (Nat.length_toDigits_le_iff (by decide) (by decide)).mpr (by omega)

/-- The digits of a numeral are taken up to whatever follows it. -/
theorem takeWhile_decimal_append (n : ℕ) {rest : List Char}
    (hrest : ∀ c ∈ rest.head?, c.isDigit = false) :
    (decimal n ++ rest).takeWhile Char.isDigit = decimal n := by
  rw [takeWhile_append_of_pos (fun c hc => isDigit_of_mem_decimal hc)]
  cases rest with
  | nil => simp
  | cons c rest =>
    have hc : c.isDigit = false := hrest c rfl
    simp [hc]

section

variable {ds : List Char} (hds : ∀ c ∈ ds, c.isDigit = true)
include hds

theorem leadingNumber_digits : leadingNumber ds = Nat.ofDigitChars 10 ds 0 := by
  have htake := @takeWhile_append_of_pos _ Char.isDigit ds [] hds
  rw [append_nil, takeWhile_nil, append_nil] at htake
  rw [leadingNumber, htake]

/-- `strtol` reads digits, up to the largest value it returns. -/
theorem strtol_digits : strtol ds = min (2 ^ 63 - 1) (Nat.ofDigitChars 10 ds 0 : ℤ) := by
  have hvalue := leadingNumber_digits hds
  have hdrop : ds.dropWhile isSpace = ds := by
    cases ds with
    | nil => rfl
    | cons c ds => exact dropWhile_cons_of_neg (by simp [isSpace_of_isDigit (hds c mem_cons_self)])
  rw [strtol, hdrop]
  -- a digit is not a sign
  split
  · exact absurd (hds '-' mem_cons_self) (by decide)
  · exact absurd (hds '+' mem_cons_self) (by decide)
  · rw [hvalue]

theorem atoi_digits (hlt : Nat.ofDigitChars 10 ds 0 < 2 ^ 31) : atoi ds = Nat.ofDigitChars 10 ds 0 := by
  unfold atoi
  rw [strtol_digits hds, Int.bmod_eq_of_le (by omega) (by omega)]
  omega

end

theorem ofDigitChars_decimal (n : ℕ) : Nat.ofDigitChars 10 (decimal n) 0 = n :=
  Nat.ofDigitChars_toDigits (by decide) (by decide)

/-- `atol` reads a printed number back, if it is not negative. -/
theorem atol_lld {i : ℤ} (hnonneg : 0 ≤ i) (hlt : i < 2 ^ 63) : atol (lld i) = i := by
  have h := @strtol_digits (decimal i.natAbs) fun c hc => isDigit_of_mem_decimal hc
  rw [ofDigitChars_decimal] at h
  unfold atol lld
  rw [if_neg (by omega)]
  omega

/-- `atoi` reads a printed number back. -/
theorem atoi_decimal (hn : n < 2 ^ 31) : atoi (decimal n) = n := by
  have h := ofDigitChars_decimal n
  rw [atoi_digits (fun c hc => isDigit_of_mem_decimal hc) (by omega), h]

/-- `atoi` reads a printed number back, also if it is negative. -/
theorem atoi_lld {i : ℤ} (hge : -2 ^ 31 < i) (hlt : i < 2 ^ 31) : atoi (lld i) = i := by
  unfold lld
  split
  · have hvalue := @leadingNumber_digits (decimal i.natAbs) fun c hc => isDigit_of_mem_decimal hc
    rw [ofDigitChars_decimal] at hvalue
    show (max (-2 ^ 63) (-(leadingNumber (decimal i.natAbs) : ℤ))).bmod (2 ^ 32) = i
    rw [Int.bmod_eq_of_le (by omega) (by omega)]
    omega
  · rw [atoi_decimal (by omega)]
    omega

end ObbyIRCd
