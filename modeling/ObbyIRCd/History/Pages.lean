import Mathlib.Data.List.DropRight
import ObbyIRCd.History.Query
import ObbyIRCd.History.Run

/-!
# Pages of a channel's history

`CHATHISTORY AFTER`, `BEFORE` and `LATEST` ask for the entries next to a selector, or for the last
ones, with a limit. `hbm_return_after` walks from the head, `hbm_return_before` and
`hbm_return_latest` from the tail. A loop that copies ends at the limit, at an entry where it has to
stop, or at the end of the list, and `reached_end` is unset in the first case only
(`hbmReturnAfterLoop_started`, `hbmReturnLatestLoop_eq`).

A `msgid` that is stored more than once stands for the entry with it that the walk comes to first.
A time is compared as a text, while the list is in the order of the seconds, so that the pages are right
exactly if the two agree (`pages_right_iff`): the time of another server's message can be any text.
-/

namespace ObbyIRCd.History

open List Selector HistoryFilter
open CStr (strcmp)

variable {L : Libc}

/-- The loop of `hbm_return_before`, from the tail to the head, with the result so far. -/
def hbmReturnBeforeLoop (filter : HistoryFilter) : List (HistoryLogLine L) → (started : Bool) →
    (written : ℤ) → (log : List (HistoryLogLine L)) → HistoryResult L
  | [], _, _, log => ⟨log, true⟩
  | l :: prev, started, written, log =>
    if started || filter.timestampA.any (fun a => strcmp l.time a = .lt) then
      if filter.stopsBack l then ⟨log, true⟩
      else if written ≥ filter.limit then ⟨log, false⟩
      else hbmReturnBeforeLoop filter prev true (written + 1) (l :: log)
    -- `continue` at the entry with the `msgid`
    else hbmReturnBeforeLoop filter prev (filter.msgidA = some l.msgid) written log

/-- `hbm_return_before`. -/
def hbmReturnBefore (h : HistoryLogObject L) (filter : HistoryFilter) : HistoryResult L :=
  hbmReturnBeforeLoop filter h.lines.reverse false 0 []

variable (filter : HistoryFilter)

/-- Whether `hbm_return_latest` stops at an entry. -/
def HistoryFilter.stopsLatest (l : HistoryLogLine L) : Bool :=
  filter.timestampA.any (fun a => strcmp l.time a ≠ .gt) || filter.msgidA = some l.msgid

/-- The loop of `hbm_return_latest`. -/
def hbmReturnLatestLoop (filter : HistoryFilter) : List (HistoryLogLine L) →
    (written : ℤ) → (log : List (HistoryLogLine L)) → HistoryResult L
  | [], _, log => ⟨log, true⟩
  | l :: prev, written, log =>
    if filter.stopsLatest l then ⟨log, true⟩
    else if written ≥ filter.limit then ⟨log, false⟩
    else hbmReturnLatestLoop filter prev (written + 1) (l :: log)

/-- `hbm_return_latest`. -/
def hbmReturnLatest (h : HistoryLogObject L) (filter : HistoryFilter) : HistoryResult L :=
  hbmReturnLatestLoop filter h.lines.reverse 0 []

@[simp]
def pageFilter (s : Option Selector) (limit : ℤ) : HistoryFilter :=
  ⟨s.bind Selector.time?, s.bind Selector.msgid?, none, none, none, limit⟩

variable (lines : List (HistoryLogLine L))

/-- The entries strictly after a selector, from the head. -/
def Selector.after : Selector → List (HistoryLogLine L)
  | timestamp time => lines.filter fun l => strcmp l.time time = .gt
  | msgid id => (lines.dropWhile fun l => l.msgid ≠ id).tail

/-- The entries strictly in front of a selector, from the tail. -/
def Selector.inFront : Selector → List (HistoryLogLine L)
  | timestamp time => lines.filter fun l => strcmp l.time time = .lt
  | msgid id => (lines.rdropWhile fun l => l.msgid ≠ id).dropLast

/-- The entries strictly after a selector, from the tail. -/
def Selector.since : Selector → List (HistoryLogLine L)
  | timestamp time => lines.filter fun l => strcmp l.time time = .gt
  | msgid id => lines.rtakeWhile fun l => l.msgid ≠ id

def firstPage (entries : List (HistoryLogLine L)) (limit : ℤ) : HistoryResult L :=
  ⟨entries.take limit.toNat, entries.length ≤ limit.toNat⟩

def lastPage (entries : List (HistoryLogLine L)) (limit : ℤ) : HistoryResult L :=
  ⟨entries.rtake limit.toNat, entries.length ≤ limit.toNat⟩

/-- A predicate that holds of everything in front of an entry where it holds. -/
theorem takeWhile_dropWhile_eq_filter {α : Type*} {P : α → Prop} [DecidablePred P] {l : List α}
    (hp : l.Pairwise fun a b => P b → P a) :
    l.takeWhile P = l.filter P ∧ (l.dropWhile P = l.filter fun a => ¬ P a) ∧
      l.drop (l.takeWhile P).length = l.dropWhile P := by
  induction l with
  | nil => exact ⟨rfl, rfl, rfl⟩
  | cons a l ih =>
    obtain ⟨ha, hl⟩ := pairwise_cons.mp hp
    by_cases h : P a
    · simpa [h] using ih hl
    · have hnone : ∀ b ∈ l, ¬ P b := fun b hb hpb => h (ha b hb hpb)
      simpa [h] using ⟨hnone, (filter_eq_self.mpr fun b hb => by simp [hnone b hb]).symm⟩

theorem hbmReturnLatestLoop_eq (written : ℤ) (log : List (HistoryLogLine L)) :
    hbmReturnLatestLoop filter lines written log =
      ⟨((lines.takeWhile fun l => !filter.stopsLatest l).take
          (filter.limit - written).toNat).reverse ++ log,
        (lines.takeWhile fun l => !filter.stopsLatest l).length ≤
          (filter.limit - written).toNat⟩ := by
  induction lines generalizing written log with
  | nil => simp [hbmReturnLatestLoop]
  | cons l prev ih =>
    rw [hbmReturnLatestLoop]
    split_ifs with hstop hfull
    · simp [hstop]
    · have hzero : (filter.limit - written).toNat = 0 := by omega
      simp [hstop, hzero]
    · have hsucc : (filter.limit - written).toNat = (filter.limit - (written + 1)).toNat + 1 := by
        omega
      simp [hstop, hsucc, ih]

theorem hbmReturnLatestLoop_page :
    hbmReturnLatestLoop filter lines 0 [] =
      lastPage (lines.takeWhile fun l => !filter.stopsLatest l).reverse filter.limit := by
  rw [hbmReturnLatestLoop_eq, lastPage, rtake_eq_reverse_take_reverse]
  simp

/-- Once started, `hbm_return_before` copies as `hbm_return_latest` does without a selector. -/
theorem hbmReturnBeforeLoop_started (s : Option Selector) (limit : ℤ)
    (lines : List (HistoryLogLine L)) (written : ℤ) (log : List (HistoryLogLine L)) :
    hbmReturnBeforeLoop (pageFilter s limit) lines true written log =
      hbmReturnLatestLoop (pageFilter none limit) lines written log := by
  induction lines generalizing written log with
  | nil => rfl
  | cons l prev ih =>
    simp only [pageFilter] at ih
    simp [hbmReturnBeforeLoop, hbmReturnLatestLoop, stopsBack, stopsLatest, ih]

/-- `hbm_return_before` starts at the first entry earlier than a time, or behind the one with a
`msgid`. -/
theorem hbmReturnBeforeLoop_eq (s : Selector) (limit : ℤ) (lines : List (HistoryLogLine L)) :
    hbmReturnBeforeLoop (pageFilter (some s) limit) lines false 0 [] =
      hbmReturnLatestLoop (pageFilter none limit) (match s with
          | .timestamp time => lines.dropWhile fun l => !(strcmp l.time time = .lt)
          | .msgid id => (lines.dropWhile fun l => l.msgid ≠ id).tail) 0 [] := by
  rw [← hbmReturnBeforeLoop_started (some s)]
  induction lines with
  | nil => cases s <;> rfl
  | cons l prev ih =>
    cases s with
    | timestamp time =>
      by_cases hlt : strcmp l.time time = .lt
      · simp [hbmReturnBeforeLoop, hlt]
      · simpa [hbmReturnBeforeLoop, hlt] using ih
    | msgid id =>
      by_cases hid : l.msgid = id
      · simp [hbmReturnBeforeLoop, hid]
      · simpa [hbmReturnBeforeLoop, hid, Ne.symm hid] using ih

/-- `AFTER` returns the first entries behind its start. -/
theorem hbmReturnAfter_page (h : HistoryLogObject L) (s : Selector) (limit : ℤ) :
    hbmReturnAfter h (pageFilter (some s) limit) =
      firstPage (h.lines.drop (s.upTo h.lines)) limit := by
  have hall : ∀ l : List (HistoryLogLine L), l.takeWhile (fun _ => true) = l := fun l =>
    takeWhile_eq_self_iff.mpr fun _ _ => rfl
  rw [hbmReturnAfter, hbmReturnAfterLoop_eq _ s rfl rfl, hbmReturnAfterLoop_started]
  simp [firstPage, stops, hall]

/-- Without a selector, the walk from the tail copies the last entries. -/
theorem hbmReturnLatestLoop_none (limit : ℤ) (l : List (HistoryLogLine L)) :
    hbmReturnLatestLoop (pageFilter none limit) l 0 [] = lastPage l.reverse limit := by
  have hall : ∀ l : List (HistoryLogLine L), l.takeWhile (fun _ => true) = l := fun l =>
    takeWhile_eq_self_iff.mpr fun _ _ => rfl
  simp [hbmReturnLatestLoop_page, stopsLatest, hall]

/-- `AFTER`, `BEFORE` and `LATEST` return the page that is asked for, in the order of the list, and
`reached_end` exactly if there is no further entry. -/
structure PagesRight (h : HistoryLogObject L) (s : Selector) (limit : ℤ) : Prop where
  after : hbmReturnAfter h (pageFilter (some s) limit) = firstPage (s.after h.lines) limit
  before : hbmReturnBefore h (pageFilter (some s) limit) = lastPage (s.inFront h.lines) limit
  since : hbmReturnLatest h (pageFilter (some s) limit) = lastPage (s.since h.lines) limit
  latest : hbmReturnLatest h (pageFilter none limit) = lastPage h.lines limit

variable {h : HistoryLogObject L}

/-- In a list that is ordered by the texts of the times, every page is right. -/
theorem PagesRight.of_timeOrdered (ho : TimeOrdered h.lines) (s : Selector) (limit : ℤ) :
    PagesRight h s limit := by
  have hr := pairwise_reverse.mpr ho
  refine ⟨?_, ?_, ?_, ?_⟩
  · have hafter : h.lines.drop (s.upTo h.lines) = s.after h.lines := by
      cases s with
      | timestamp time =>
        obtain ⟨-, hdrop, hlength⟩ :=
          takeWhile_dropWhile_eq_filter (ho.imp fun hab => Std.TransCmp.isLE_trans (c := time) hab)
        simpa [upTo, Selector.after] using hlength.trans hdrop
      | msgid id => simp [upTo, Selector.after, dropWhile_eq_drop_findIdx_not]
    rw [hbmReturnAfter_page, hafter]
  · rw [hbmReturnBefore, hbmReturnBeforeLoop_eq, hbmReturnLatestLoop_none]
    cases s with
    | timestamp time =>
      have hdrop := (takeWhile_dropWhile_eq_filter
        (hr.imp fun hab => mt (Std.TransCmp.lt_of_isLE_of_lt (c := time) hab))).2.1
      simp only [decide_not] at hdrop
      simp [hdrop, inFront]
    | msgid id => simp [inFront, rdropWhile]
  · rw [hbmReturnLatest, hbmReturnLatestLoop_page]
    cases s with
    | timestamp time =>
      have htake := (takeWhile_dropWhile_eq_filter (P := fun l => strcmp l.time time = .gt)
        (hr.imp fun hab hb => by
          simpa using mt (Std.TransCmp.isLE_trans (c := time) hab) (by simp [hb]))).1
      simp [htake, Selector.since, stopsLatest]
    | msgid id => simp [Selector.since, stopsLatest, rtakeWhile, eq_comm]
  · rw [hbmReturnLatest, hbmReturnLatestLoop_none, reverse_reverse]

/-- A page that is long enough is everything that is asked for. -/
theorem log_firstPage (entries : List (HistoryLogLine L)) {limit : ℤ} (hlimit : entries.length ≤ limit) :
    (firstPage entries limit).log = entries :=
  take_of_length_le (by omega)

/-- If `AFTER` is right for every time, no entry with a time comes behind a later one. -/
theorem timeOrdered_of_pagesRight
    (hright : ∀ time limit, 1 ≤ limit → PagesRight h (.timestamp time) limit) :
    TimeOrdered h.lines := by
  refine timeOrdered_of_drop fun time l hl htime => ?_
  have hpage := (hright time (h.lines.length + 1) (by omega)).after
  rw [hbmReturnAfter_page] at hpage
  have hlog := congrArg HistoryResult.log hpage
  have hdrop := (drop_sublist ((Selector.timestamp time).upTo h.lines) h.lines).length_le
  have hfilter : ((Selector.timestamp time).after h.lines).length ≤ h.lines.length :=
    filter_sublist.length_le
  rw [log_firstPage _ (by omega), log_firstPage _ (by omega)] at hlog
  -- the entry is copied, and its time is not later than itself
  have hmem : l ∈ (Selector.timestamp time).after h.lines := hlog ▸ hl
  have hgt := (mem_filter.mp hmem).2
  rw [htime, CStr.strcmp_eq_eq.mpr rfl] at hgt
  exact absurd hgt (by decide)

/-- Every page of a history is right exactly if the seconds of its entries follow the texts of their
times. -/
theorem pages_right_iff (hi : h.Inv) :
    (∀ s : Selector, s.Present h.lines → ∀ limit, 1 ≤ limit → PagesRight h s limit) ↔
      SecondsFollow h.lines := by
  constructor
  · intro hright
    exact secondsFollow_of_timeOrdered hi.ordered
      (timeOrdered_of_pagesRight fun time limit hlimit => hright (.timestamp time) trivial limit hlimit)
  · intro hs s _ limit _
    exact .of_timeOrdered (timeOrdered_of_before hi.ordered hs) s limit

/-- What follows the first of two messages. -/
theorem pages_right_second : SecondsFollow (exampleFull 2).lines ∧
    PagesRight (exampleFull 2) (.msgid (exampleMsgid 0)) 1 :=
  ⟨by decide +kernel, (pages_right_iff (run_inv _ _)).mpr (by decide +kernel) _ (by decide +kernel) 1
    le_rfl⟩

/-- The time of the first of January with a month of one digit, and that of the second. -/
def shortMonth : CStr := .ofBuffer (ascii "2026-1-01T00:00:00.001Z")
def secondDay : CStr := .ofBuffer (ascii "2026-01-02T00:00:00.001Z")

/-- What the C library makes of the two. -/
def twoDayLibc : Libc :=
  ⟨fun s => some ⟨2026, 1, if s = shortMonth then 1 else 2, 0, 0, 0⟩,
    fun tm => 1767225600 + (tm.mday - 1) * 86400⟩

/-- A message of each day, the first with the time of another server. -/
def twoDays : HistoryLogObject twoDayLibc :=
  run twoDayLibc [.setLimit 10 864000 1767225600,
    .add exampleStamp [⟨timeName, some shortMonth⟩, ⟨msgidName, some (exampleMsgid 0)⟩]
      (by simp [TimeValued, findMtag]) (exampleMsgid 0),
    .add exampleStamp [⟨timeName, some secondDay⟩, ⟨msgidName, some (exampleMsgid 1)⟩]
      (by simp [TimeValued, findMtag]) (exampleMsgid 1)]

/-- `AFTER` returns the message that has exactly the time of the selector. -/
theorem after_own_time :
    (hbmReturnAfter twoDays (pageFilter (some (.timestamp secondDay)) 10)).log.map (·.time) =
      [shortMonth, secondDay] ∧
    ¬ PagesRight twoDays (.timestamp secondDay) 10 := by
  have hlog : (hbmReturnAfter twoDays (pageFilter (some (.timestamp secondDay)) 10)).log.map (·.time) =
      [shortMonth, secondDay] := by decide +kernel
  refine ⟨hlog, fun hright => ?_⟩
  rw [hright.after] at hlog
  exact absurd hlog (by decide +kernel)

end ObbyIRCd.History
