import Mathlib.Data.List.TakeWhile
import ObbyIRCd.History.Invariant

/-!
# Requests for a part of a channel's history

`hbm_return_after`, `hbm_return_between` and `hbm_return_around` of
`src/modules/history_backend_mem.c` copy entries of the list to the result of a request. A selector
of a request is a time or a `msgid`. `Selector.locate` says how a position of the list compares to
it, in the terms of the request, and the entries in front of a selector and up to it are a number
of entries at the head of the list (`locate_eq_lt`, `locate_eq_gt`).

The loop of `hbm_return_after` then copies what is behind its first selector up to the first entry
that it stops at (`hbmReturnAfter_log`).
-/

namespace ObbyIRCd.History

open CStr (strcmp strcmp_eq_swap)

variable {L : Libc}

/-- The result of a request, `HistoryResult`: the copies of the entries, and whether there are no
more. -/
structure HistoryResult (L : Libc) where
  /-- From `log` to `log_tail`. -/
  log : List (HistoryLogLine L)
  /-- `reached_end`. -/
  reachedEnd : Bool

/-- `hbm_result_append_line` of an entry in front of what the loop appends later. -/
def HistoryResult.appended (l : HistoryLogLine L) (r : HistoryResult L) : HistoryResult L :=
  { r with log := l :: r.log }

/-- The loop of `hbm_return_after`. -/
def hbmReturnAfterLoop (filter : HistoryFilter) :
    List (HistoryLogLine L) → (started : Bool) → (written : ℤ) → HistoryResult L
  | [], _, _ => ⟨[], true⟩
  | l :: rest, started, written =>
    if started || filter.timestampA.any (fun a => strcmp l.time a = .gt) then
      if filter.stops l then ⟨[], true⟩
      else if written ≥ filter.limit then ⟨[], false⟩
      else (hbmReturnAfterLoop filter rest true (written + 1)).appended l
    -- `continue` at the entry with the `msgid`
    else if filter.msgidA = some l.msgid then hbmReturnAfterLoop filter rest true written
    else hbmReturnAfterLoop filter rest false written

variable (h : HistoryLogObject L)

/-- `hbm_return_after`. -/
def hbmReturnAfter (filter : HistoryFilter) : HistoryResult L :=
  hbmReturnAfterLoop filter h.lines false 0

variable (filter : HistoryFilter)

/-- Whether `hbm_return_between_figure_out_direction` finds the point A at an entry. -/
@[simp]
def HistoryFilter.findsA (l : HistoryLogLine L) : Bool :=
  filter.timestampA.any (fun a => strcmp l.time a ≠ .lt) || filter.msgidA = some l.msgid

@[simp]
def HistoryFilter.findsB (l : HistoryLogLine L) : Bool :=
  filter.timestampB.any (fun b => strcmp l.time b ≠ .lt) || filter.msgidB = some l.msgid

/-- What it decides at an entry where it finds the point A, if it can already. -/
@[simp]
def HistoryFilter.decidesA (l : HistoryLogLine L) (foundB : Bool) : Option Bool :=
  if foundB then some false
  else filter.timestampB.map fun b => (strcmp l.time b).isLE

/-- What it decides at an entry where it finds the point B, if it can already. -/
@[simp]
def HistoryFilter.decidesB (l : HistoryLogLine L) (foundA : Bool) : Option Bool :=
  if foundA then some true
  else filter.timestampA.map fun a => (strcmp a l.time).isLE

/-- The loop of `hbm_return_between_figure_out_direction`. -/
def figureOutDirectionLoop (filter : HistoryFilter) :
    List (HistoryLogLine L) → (foundA foundB : Bool) → Option Bool
  | [], _, _ => none
  | l :: rest, foundA, foundB =>
    let newA := !foundA && filter.findsA l
    let newB := !foundB && filter.findsB l
    match if newA then filter.decidesA l foundB else none with
    | some forward => some forward
    | none =>
      match if newB then filter.decidesB l (foundA || newA) else none with
      | some forward => some forward
      | none => figureOutDirectionLoop filter rest (foundA || newA) (foundB || newB)

/-- `hbm_return_between_figure_out_direction`: whether to search forward, or nothing for -1. -/
def hbmReturnBetweenFigureOutDirection (filter : HistoryFilter) : Option Bool :=
  match filter.timestampA, filter.timestampB with
  | some a, some b => some (strcmp a b).isLE
  | _, _ => figureOutDirectionLoop filter h.lines false false

/-- The temporary filter of `hbm_return_between`, with the two points swapped. -/
def HistoryFilter.swapped : HistoryFilter where
  timestampA := filter.timestampB
  msgidA := filter.msgidB
  timestampB := filter.timestampA
  msgidB := filter.msgidA
  account := none
  limit := filter.limit

/-- `hbm_return_between`. -/
def hbmReturnBetween (filter : HistoryFilter) : HistoryResult L :=
  match hbmReturnBetweenFigureOutDirection h filter with
  | some true => hbmReturnAfter h filter
  | some false => hbmReturnAfter h filter.swapped
  | none => ⟨[], true⟩

/-- What the loops of `hbm_return_around` share. -/
structure AroundState (L : Libc) where
  /-- The list from `started` on, empty for `NULL`. -/
  started : List (HistoryLogLine L)
  /-- `written`. -/
  written : ℤ
  /-- From `log` to `log_tail` of the result. -/
  log : List (HistoryLogLine L)

/-- Whether the first loop of `hbm_return_around` stops at an entry, on its way back. -/
def HistoryFilter.stopsBack (l : HistoryLogLine L) : Bool :=
  filter.timestampB.any (fun b => strcmp l.time b = .lt) || filter.msgidB = some l.msgid

/-- The number of entries in front of the anchor that the first loop is content with: half of the
limit, or just under the limit if the anchor is the end of the buffer. -/
def aroundBound (limit : ℤ) (started : List (HistoryLogLine L)) : ℤ :=
  if started.tail.isEmpty then limit - 1 else limit.tdiv 2

/-- The first loop of `hbm_return_around`, over the entries from the tail to the head. `next` is the
list behind the current entry. -/
def hbmReturnAroundLoop (filter : HistoryFilter) :
    List (HistoryLogLine L) → (next : List (HistoryLogLine L)) → AroundState L → AroundState L
  | [], _, s => s
  | l :: prev, next, s =>
    let early := filter.timestampA.any fun a => strcmp l.time a = .lt
    if s.started.isEmpty && !early && filter.msgidA = some l.msgid then
      hbmReturnAroundLoop filter prev (l :: next) { s with started := l :: next }
    else
      let started := if s.started.isEmpty && early then next else s.started
      if started.isEmpty then hbmReturnAroundLoop filter prev (l :: next) s
      else if filter.stopsBack l then { s with started }
      else
        let s' : AroundState L := ⟨started, s.written + 1, l :: s.log⟩
        if s'.written ≥ aroundBound filter.limit started then s'
        else hbmReturnAroundLoop filter prev (l :: next) s'

/-- The special case of `hbm_return_around` for a time that was not found: it starts at the head, if
the tail is not an hour later or more. -/
def aroundOldest (filter : HistoryFilter) (s : AroundState L) : AroundState L :=
  match filter.timestampA, h.lines.getLast? with
  | some a, some tail =>
    if s.written = 0 ∧ s.started.isEmpty ∧
        serverTimeToUnixTime L tail.time - serverTimeToUnixTime L a < 3600 then
      { s with started := h.lines }
    else s
  | _, _ => s

/-- The second loop of `hbm_return_around`. -/
def hbmReturnAroundCopy (limit : ℤ) :
    List (HistoryLogLine L) → (written : ℤ) → List (HistoryLogLine L)
  | [], _ => []
  | l :: rest, written =>
    if written + 1 ≥ limit then [l] else l :: hbmReturnAroundCopy limit rest (written + 1)

/-- `hbm_return_around`, which leaves `reached_end` unset. -/
def hbmReturnAround (filter : HistoryFilter) : HistoryResult L :=
  let s := aroundOldest h filter (hbmReturnAroundLoop filter h.lines.reverse [] ⟨[], 0, []⟩)
  ⟨s.log ++ hbmReturnAroundCopy filter.limit s.started s.written, false⟩

inductive Selector
  | timestamp (time : CStr)
  | msgid (id : CStr)

@[simp]
def Selector.time? : Selector → Option CStr
  | timestamp time => some time
  | msgid _ => none

/-- The `msgid` of a selector, if it is one. -/
@[simp]
def Selector.msgid? : Selector → Option CStr
  | timestamp _ => none
  | msgid id => some id

/-- The filter of `CHATHISTORY BETWEEN`. -/
@[simp]
def betweenFilter (a b : Selector) (limit : ℤ) : HistoryFilter :=
  ⟨a.time?, a.msgid?, b.time?, b.msgid?, none, limit⟩

/-- The filter of `CHATHISTORY AROUND`. -/
@[simp]
def aroundFilter (anchor : Selector) (limit : ℤ) : HistoryFilter :=
  ⟨anchor.time?, anchor.msgid?, none, none, none, limit⟩

/-- How an entry at an index compares to a selector: by its time, or by its place against the first
entry with the `msgid`. -/
def Selector.locate (lines : List (HistoryLogLine L)) : Selector → HistoryLogLine L × ℕ → Ordering
  | timestamp time, (l, _) => strcmp l.time time
  | msgid id, (_, i) => compare i (lines.findIdx fun l => l.msgid = id)

/-- The number of entries in front of a selector. -/
def Selector.before (lines : List (HistoryLogLine L)) : Selector → ℕ
  | timestamp time => (lines.takeWhile fun l => strcmp l.time time = .lt).length
  | msgid id => lines.findIdx fun l => l.msgid = id

def Selector.upTo (lines : List (HistoryLogLine L)) : Selector → ℕ
  | timestamp time => (lines.takeWhile fun l => (strcmp l.time time).isLE).length
  | msgid id => (lines.findIdx fun l => l.msgid = id) + 1

/-- A selector is a time, or a `msgid` that is in the list. -/
def Selector.Present (lines : List (HistoryLogLine L)) : Selector → Prop
  | timestamp _ => True
  | msgid id => ∃ l ∈ lines, l.msgid = id

instance (lines : List (HistoryLogLine L)) (s : Selector) : Decidable (s.Present lines) :=
  match s with
  | .timestamp _ => inferInstanceAs (Decidable True)
  | .msgid id => inferInstanceAs (Decidable (∃ l ∈ lines, l.msgid = id))

def TimeOrdered (lines : List (HistoryLogLine L)) : Prop :=
  lines.Pairwise fun a b => (strcmp a.time b.time).isLE

instance (lines : List (HistoryLogLine L)) : Decidable (TimeOrdered lines) :=
  inferInstanceAs (Decidable (List.Pairwise _ _))

/-- The seconds follow the texts of the times, as they do for server times: these have a fixed
number of digits for each part, the year first. -/
def SecondsFollow (lines : List (HistoryLogLine L)) : Prop :=
  ∀ a ∈ lines, ∀ b ∈ lines, strcmp a.time b.time = .lt → a.t ≤ b.t

instance (lines : List (HistoryLogLine L)) : Decidable (SecondsFollow lines) :=
  inferInstanceAs (Decidable (∀ a ∈ lines, ∀ b ∈ lines, _ → _))

variable {lines : List (HistoryLogLine L)}

/-- A list in the order of the history is ordered by the texts of the times. -/
theorem timeOrdered_of_before
    (ho : lines.Pairwise HistoryLogLine.Before) (hs : SecondsFollow lines) :
    TimeOrdered lines := by
  refine List.Pairwise.imp_of_mem ?_ ho
  intro a b ha hb hab
  rcases hab with hlt | ⟨-, hle⟩
  · -- The seconds differ, so the texts cannot be the other way round.
    have hnot : strcmp b.time a.time ≠ .lt := fun h => absurd (hs b hb a ha h) (by omega)
    rw [strcmp_eq_swap]
    cases hcmp : strcmp b.time a.time <;> simp_all
  · exact hle

/-- In the order of the history, the seconds follow the texts if the list is ordered by them. -/
theorem secondsFollow_of_timeOrdered (ho : lines.Pairwise HistoryLogLine.Before)
    (ht : TimeOrdered lines) : SecondsFollow lines := by
  intro a ha b hb hlt
  obtain ⟨i, hi, rfl⟩ := List.getElem_of_mem ha
  obtain ⟨j, hj, rfl⟩ := List.getElem_of_mem hb
  rcases lt_trichotomy i j with hij | rfl | hji
  · rcases List.pairwise_iff_getElem.mp ho i j hi hj hij with hless | ⟨heq, -⟩
    · exact hless.le
    · exact heq.le
  · exact le_rfl
  · have hle := List.pairwise_iff_getElem.mp ht j i hj hi hji
    rw [strcmp_eq_swap, hlt] at hle
    exact absurd hle (by decide)

/-- A list is ordered by the texts of the times if no entry with a time comes behind one that is
later than it. -/
theorem timeOrdered_of_drop
    (h : ∀ time, ∀ l ∈ lines.drop (lines.takeWhile fun l => (strcmp l.time time).isLE).length,
      l.time ≠ time) : TimeOrdered lines := by
  refine List.pairwise_iff_getElem.mpr fun i j hi hj hij => ?_
  by_contra hnot
  refine h lines[j].time lines[j] ?_ rfl
  set n := (lines.takeWhile fun l => (strcmp l.time lines[j].time).isLE).length with hn
  have hle : n ≤ i := by
    by_contra hlt
    rw [not_le, hn] at hlt
    have hpre : (lines.takeWhile fun l => (strcmp l.time lines[j].time).isLE) <+: lines :=
      List.takeWhile_prefix _
    have hmem := List.mem_takeWhile_imp (List.getElem_mem hlt)
    rw [hpre.getElem hlt] at hmem
    exact hnot hmem
  exact List.mem_drop_iff_getElem.mpr ⟨j - n, by omega, by congr 1; omega⟩

/-- A text with one more character is later. -/
theorem exists_strcmp_lt (s : CStr) : ∃ t, strcmp s t = .lt := by
  have hfree : ∀ b ∈ s.bytes ++ [1], b ≠ 0 :=
    List.forall_mem_append.mpr ⟨s.nul_free, List.forall_mem_singleton.mpr (by decide)⟩
  refine ⟨⟨s.bytes ++ [1], hfree⟩, ?_⟩
  show compare s.bytes (s.bytes ++ [1]) = .lt
  induction s.bytes with
  | nil => rfl
  | cons a bytes ih => simpa [List.compare_cons_cons] using ih

/-- There is a time later than all entries. -/
theorem exists_later (lines : List (HistoryLogLine L)) :
    ∃ time, ∀ l ∈ lines, strcmp l.time time = .lt := by
  induction lines with
  | nil => exact ⟨.empty, List.forall_mem_nil _⟩
  | cons l lines ih =>
    obtain ⟨time, htime⟩ := ih
    by_cases hlt : strcmp l.time time = .lt
    · exact ⟨time, List.forall_mem_cons.mpr ⟨hlt, htime⟩⟩
    · obtain ⟨next, hnext⟩ := exists_strcmp_lt l.time
      refine ⟨next, List.forall_mem_cons.mpr ⟨hnext, fun l' hl' => ?_⟩⟩
      have hle : (strcmp time l.time).isLE := by
        rw [strcmp_eq_swap]
        cases hcmp : strcmp l.time time <;> simp_all
      exact Std.TransCmp.lt_trans (Std.TransCmp.lt_of_lt_of_isLE (htime l' hl') hle) hnext

/-- The first entries that satisfy a predicate are all of them, if it holds of no entry behind one
where it fails. -/
theorem lt_length_takeWhile_iff {α : Type*} {p : α → Bool} {l : List α}
    (hp : l.Pairwise fun a b => p b → p a) {i : ℕ} (hi : i < l.length) :
    i < (l.takeWhile p).length ↔ p l[i] := by
  induction l generalizing i with
  | nil => simp at hi
  | cons a l ih =>
    obtain ⟨ha, hl⟩ := List.pairwise_cons.mp hp
    cases i with
    | zero => by_cases h : p a <;> simp [h]
    | succ i =>
      have hi' : i < l.length := by simpa using hi
      by_cases h : p a
      · simp [h, ih hl hi']
      have hnot : p l[i] = false := by
        by_contra hc
        exact h (ha _ (List.getElem_mem hi') (by simpa using hc))
      simp [h, hnot]

theorem Selector.locate_eq_lt (ho : TimeOrdered lines)
    (s : Selector) {i : ℕ} (hi : i < lines.length) :
    s.locate lines (lines[i], i) = .lt ↔ i < s.before lines := by
  cases s with
  | timestamp time =>
    have hp : lines.Pairwise fun a b => decide (strcmp b.time time = .lt) →
        decide (strcmp a.time time = .lt) := by
      refine List.Pairwise.imp ?_ ho
      intro a b hab hb
      simp only [decide_eq_true_eq] at hb ⊢
      exact Std.TransCmp.lt_of_isLE_of_lt hab hb
    rw [Selector.before, lt_length_takeWhile_iff hp hi]
    simp [Selector.locate]
  | msgid id => simp [Selector.locate, Selector.before, compare_lt_iff_lt]

theorem Selector.locate_eq_gt (ho : TimeOrdered lines)
    (s : Selector) {i : ℕ} (hi : i < lines.length) :
    s.locate lines (lines[i], i) = .gt ↔ s.upTo lines ≤ i := by
  cases s with
  | timestamp time =>
    have hp : lines.Pairwise fun a b => (strcmp b.time time).isLE →
        (strcmp a.time time).isLE := by
      refine List.Pairwise.imp ?_ ho
      intro a b hab hb
      exact Std.TransCmp.isLE_trans hab hb
    rw [← not_lt, Selector.upTo, lt_length_takeWhile_iff hp hi]
    simp [Selector.locate]
  | msgid id =>
    rw [Selector.locate, Selector.upTo, compare_gt_iff_gt]
    exact Nat.succ_le_iff.symm

/-- What is in front of the earlier one of two times is up to the later one. -/
theorem Selector.before_le_upTo_of_isLE {a b : CStr} (h : (strcmp a b).isLE) :
    (timestamp a).before lines ≤ (timestamp b).upTo lines := by
  unfold before upTo
  induction lines with
  | nil => simp
  | cons l lines ih =>
    by_cases hlt : strcmp l.time a = .lt
    · have hle : (strcmp l.time b).isLE := by
        rw [Std.TransCmp.lt_of_lt_of_isLE hlt h]
        rfl
      simpa [hlt, hle] using ih
    · simp [hlt]

theorem Selector.before_le_upTo (s : Selector) : s.before lines ≤ s.upTo lines := by
  cases s with
  | timestamp time => exact before_le_upTo_of_isLE Std.ReflCmp.isLE_rfl
  | msgid id => exact Nat.le_succ _

theorem hbmReturnAfterLoop_started (lines : List (HistoryLogLine L)) (written : ℤ) :
    hbmReturnAfterLoop filter lines true written =
      ⟨(lines.takeWhile fun l => !filter.stops l).take (filter.limit - written).toNat,
        (lines.takeWhile fun l => !filter.stops l).length ≤ (filter.limit - written).toNat⟩ := by
  induction lines generalizing written with
  | nil => simp [hbmReturnAfterLoop]
  | cons l rest ih =>
    rw [hbmReturnAfterLoop, Bool.true_or, if_pos rfl]
    split_ifs with hstop hfull
    · simp [hstop]
    · have hzero : (filter.limit - written).toNat = 0 := by omega
      simp [hstop, hzero]
    · have hsucc : (filter.limit - written).toNat = (filter.limit - (written + 1)).toNat + 1 := by
        omega
      simp [HistoryResult.appended, hstop, hsucc, ih]

theorem hbmReturnAfterLoop_eq (a : Selector) (ht : filter.timestampA = a.time?)
    (hm : filter.msgidA = a.msgid?) (lines : List (HistoryLogLine L)) :
    hbmReturnAfterLoop filter lines false 0 =
      hbmReturnAfterLoop filter (lines.drop (a.upTo lines)) true 0 := by
  induction lines with
  | nil => simp [hbmReturnAfterLoop]
  | cons l rest ih =>
    cases a with
    | timestamp time =>
      cases hle : (strcmp l.time time).isLE with
      | true =>
        have hnot : strcmp l.time time ≠ .gt := by
          intro hgt
          simp [hgt] at hle
        simpa [hbmReturnAfterLoop, ht, hm, Selector.upTo, hnot,
          List.takeWhile_cons, hle] using ih
      | false =>
        have hgt : strcmp l.time time = .gt := by
          cases hcmp : strcmp l.time time <;> simp_all
        simp [hbmReturnAfterLoop, ht, Selector.upTo, hgt]
    | msgid id =>
      by_cases hid : l.msgid = id
      · simp [hbmReturnAfterLoop, ht, hm, Selector.upTo, hid,
          List.findIdx_cons]
      · simpa [hbmReturnAfterLoop, ht, hm, Selector.upTo, hid, Ne.symm hid,
          List.findIdx_cons] using ih

/-- `hbm_return_after` copies what is behind the first selector up to the entry that it stops at,
or up to the limit. -/
theorem hbmReturnAfter_log (filter : HistoryFilter) (a : Selector)
    (ht : filter.timestampA = a.time?) (hm : filter.msgidA = a.msgid?) :
    (hbmReturnAfter h filter).log =
      ((h.lines.drop (a.upTo h.lines)).takeWhile fun l => !filter.stops l).take
        filter.limit.toNat := by
  unfold hbmReturnAfter
  rw [hbmReturnAfterLoop_eq filter a ht hm, hbmReturnAfterLoop_started, sub_zero]

end ObbyIRCd.History
