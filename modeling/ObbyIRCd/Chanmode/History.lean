import ObbyIRCd.Conf.Timeval
import ObbyIRCd.Lib.Bytes

/-!
# The parameter of channel mode +H

The handlers of `chanmodes/history.c`. The parameter is a number of lines and a time, printed in whole
days, hours or minutes. A setting in whole minutes is read back from its text, up to the limits of the
configuration (`historyParseChanmode_getParam`): the limits for unregistered channels apply where a
parameter is converted, those for registered ones where it is stored.
-/

namespace ObbyIRCd.Chanmode

open List Conf

/-- `HistoryChanMode`, and the limits of `set::history::channel::max-storage-per-channel`. -/
structure HistoryChanMode where
  maxLines : ℕ
  maxTime : ℕ
deriving DecidableEq, Repr

/-! ## Reading -/

/-- `history_parse_chanmode`, with the limits that apply. -/
def historyParseChanmode (limit : HistoryChanMode) (param : List Char) : Option HistoryChanMode :=
  let buf := param.take 63
  match buf.dropWhile (· ≠ ':') with
  | [] => none
  | _ :: p =>
    let lines := atoi (buf.takeWhile (· ≠ ':'))
    -- only digits are minutes
    let t := if p.all Char.isDigit then (atoi p * 60).bmod (2 ^ 32) else checkvalTime false [] p
    if lines < 1 ∨ t < 60 then none
    else some ⟨min lines.toNat limit.maxLines, min t.toNat limit.maxTime⟩

/-- `history_chanmode_helper`, which is also `history_chanmode_get_param`. -/
def HistoryChanMode.getParam (h : HistoryChanMode) : List Char :=
  decimal h.maxLines ++ ':' ::
    if h.maxTime % 86400 = 0 then decimal (h.maxTime / 86400) ++ ['d']
    else if h.maxTime % 3600 = 0 then decimal (h.maxTime / 3600) ++ ['h']
    else decimal (h.maxTime / 60) ++ ['m']

/-- `history_chanmode_sjoin_check`, for settings that differ. -/
def HistoryChanMode.merge (our their : HistoryChanMode) : HistoryChanMode :=
  ⟨max our.maxLines their.maxLines, max our.maxTime their.maxTime⟩

def HistoryChanMode.cap (h limit : HistoryChanMode) : HistoryChanMode :=
  ⟨min h.maxLines limit.maxLines, min h.maxTime limit.maxTime⟩

/-! ## Texts -/

/-- A setting that its text keeps. -/
structure HistoryChanMode.Valid (h : HistoryChanMode) : Prop where
  lines_pos : 1 ≤ h.maxLines
  lines_lt : h.maxLines < 2 ^ 31
  time_pos : 60 ≤ h.maxTime
  time_lt : h.maxTime < 2 ^ 31
  minutes : 60 ∣ h.maxTime

/-- A setting whose numbers are in the range of the parser. -/
structure HistoryChanMode.InRange (h : HistoryChanMode) : Prop where
  lines_pos : 1 ≤ h.maxLines
  lines_lt : h.maxLines < 2 ^ 31
  time_pos : 60 ≤ h.maxTime
  time_lt : h.maxTime < 2 ^ 31

variable {h : HistoryChanMode}

theorem HistoryChanMode.Valid.inRange (hv : h.Valid) : h.InRange :=
  ⟨hv.lines_pos, hv.lines_lt, hv.time_pos, hv.time_lt⟩

/-- The setting in whole minutes. -/
def HistoryChanMode.floor (h : HistoryChanMode) : HistoryChanMode :=
  ⟨h.maxLines, h.maxTime / 60 * 60⟩

theorem HistoryChanMode.InRange.floor_valid (hr : h.InRange) : h.floor.Valid where
  lines_pos := hr.lines_pos
  lines_lt := hr.lines_lt
  time_pos := by
    have hpos := hr.time_pos
    show 60 ≤ h.maxTime / 60 * 60
    omega
  time_lt := Nat.lt_of_le_of_lt (Nat.div_mul_le_self _ _) hr.time_lt
  minutes := Nat.dvd_mul_left _ _

theorem HistoryChanMode.Valid.floor_eq (hv : h.Valid) : h.floor = h := by
  unfold HistoryChanMode.floor
  rw [Nat.div_mul_cancel hv.minutes]

variable (hr : h.InRange)
include hr

namespace HistoryChanMode.InRange

/-- The unit is chosen so that the minutes are a whole number of it. -/
theorem time_eq :
    ∃ (n : ℕ) (u : Char), n < 2 ^ 31 ∧ u ∈ ['d', 'h', 'm'] ∧
      (n * timeFactor u : ℤ) = h.floor.maxTime ∧
      h.getParam = decimal h.maxLines ++ ':' :: (decimal n ++ [u]) := by
  have hlt := hr.time_lt
  unfold HistoryChanMode.getParam HistoryChanMode.floor
  split
  · refine ⟨h.maxTime / 86400, 'd', by omega, by simp, ?_, rfl⟩
    show ((h.maxTime / 86400 : ℕ) : ℤ) * 86400 = (h.maxTime / 60 * 60 : ℕ)
    omega
  · split
    · refine ⟨h.maxTime / 3600, 'h', by omega, by simp, ?_, rfl⟩
      show ((h.maxTime / 3600 : ℕ) : ℤ) * 3600 = (h.maxTime / 60 * 60 : ℕ)
      omega
    · refine ⟨h.maxTime / 60, 'm', by omega, by simp, ?_, rfl⟩
      show ((h.maxTime / 60 : ℕ) : ℤ) * 60 = (h.maxTime / 60 * 60 : ℕ)
      omega

theorem getParam_length_le : h.getParam.length ≤ 22 := by
  obtain ⟨n, u, hn, -, -, htext⟩ := hr.time_eq
  have hlines := length_decimal_le hr.lines_lt
  have htime := length_decimal_le hn
  rw [htext]
  simp only [length_append, length_cons, length_nil]
  omega

theorem getParam_chars : ∀ c ∈ h.getParam, c ≠ ' ' := by
  obtain ⟨n, u, -, hu, -, htext⟩ := hr.time_eq
  have hunits : ∀ u ∈ ['d', 'h', 'm'], u ≠ ' ' := by simp
  have hdigits : ∀ n, ∀ c ∈ decimal n, c ≠ ' ' := by
    rintro n c hc rfl
    exact absurd (isDigit_of_mem_decimal hc) (by decide)
  rw [htext, forall_mem_append, forall_mem_cons, forall_mem_append, forall_mem_singleton]
  exact ⟨hdigits _, by decide, hdigits _, hunits u hu⟩

/-- The text of a setting is read back in whole minutes, within the limits. -/
theorem parse_getParam
    (limit : HistoryChanMode) : historyParseChanmode limit h.getParam = some (h.floor.cap limit) := by
  have hlength := hr.getParam_length_le
  obtain ⟨n, u, hn, hu, htime, htext⟩ := hr.time_eq
  have hcolon : ∀ c ∈ decimal h.maxLines, decide (c ≠ ':') = true := by
    intro c hc
    refine decide_eq_true ?_
    rintro rfl
    exact absurd (isDigit_of_mem_decimal hc) (by decide)
  have hunits : ∀ u ∈ ['d', 'h', 'm'], u.isAlpha = true ∧ u.isDigit = false :=
    forall_mem_of_all (by decide)
  have halpha := hunits u hu
  have hall : (decimal n ++ [u]).all Char.isDigit = false := by
    simp [halpha.2]
  have hfloor := hr.floor_valid
  have hvalue : checkvalTime false [] (decimal n ++ [u]) = h.floor.maxTime := by
    have hlt := hfloor.time_lt
    rw [checkvalTime_unit hn halpha.1, htime]
    exact Int.bmod_eq_of_le (by omega) (by omega)
  have hlines := atoi_decimal hr.lines_lt
  have hlines_pos := hr.lines_pos
  have htime_pos := hfloor.time_pos
  unfold historyParseChanmode
  rw [take_of_length_le (by omega), htext]
  dsimp only
  rw [dropWhile_append_of_pos hcolon, takeWhile_append_of_pos hcolon,
    dropWhile_cons_of_neg (by simp), takeWhile_cons_of_neg (by simp), append_nil]
  dsimp only
  rw [hall, if_neg Bool.false_ne_true, hvalue, hlines, if_neg (by omega)]
  rfl

end HistoryChanMode.InRange

omit hr

/-- The text of a setting in whole minutes is read back, within the limits. -/
theorem historyParseChanmode_getParam (hv : h.Valid) (limit : HistoryChanMode) :
    historyParseChanmode limit h.getParam = some (h.cap limit) := by
  rw [hv.inRange.parse_getParam, hv.floor_eq]

theorem inRange_of_parse {limit : HistoryChanMode} {s : List Char} (hlimit : limit.InRange)
    (h' : historyParseChanmode limit s = some h) : h.InRange := by
  unfold historyParseChanmode at h'
  dsimp only at h'
  split at h'
  · cases h'
  rename_i p _
  generalize (if p.all Char.isDigit then (atoi p * 60).bmod (2 ^ 32)
    else checkvalTime false [] p) = t at h'
  split at h'
  · cases h'
  rename_i hrange
  obtain ⟨hlines, htime⟩ := not_or.mp hrange
  obtain rfl := Option.some.inj h'
  have hlines_pos := hlimit.lines_pos
  have hlines_lt := hlimit.lines_lt
  have htime_pos := hlimit.time_pos
  have htime_lt := hlimit.time_lt
  exact ⟨by dsimp only; omega, by dsimp only; omega, by dsimp only; omega, by dsimp only; omega⟩

end ObbyIRCd.Chanmode
