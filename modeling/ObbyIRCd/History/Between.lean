import ObbyIRCd.History.Query
import ObbyIRCd.History.Run

/-!
# What lies between the two selectors of a request

`CHATHISTORY BETWEEN` asks for the entries strictly between two selectors, in either order
(`strictlyBetween`). `hbm_return_between` first finds out the direction and then copies from behind
one selector up to the other. If the second one is behind the first, these are the entries between
them (`takeWhile_stops`), and there are none the other way round.

If both denote the same position, there are none at all. The loop then starts behind the position
where it should stop. It stops at once for a time, since every entry from there on is later. For a
`msgid` it looks for one that it has passed already, and copies all entries from there on.
`Overruns` says when that happens. The reply is right otherwise, as long as the texts of the times,
which are compared, are in the order of the seconds (`hbmReturnBetween_iff`).
-/

namespace ObbyIRCd.History

open List Selector CStr
open HistoryFilter (stops)

variable {L : Libc}

/-- The entries strictly between two selectors, given in either order. -/
def strictlyBetween (lines : List (HistoryLogLine L)) (a b : Selector) : List (HistoryLogLine L) :=
  (lines.zipIdx.filter fun p =>
    (a.locate lines p = .gt ∧ b.locate lines p = .lt) ∨
      (a.locate lines p = .lt ∧ b.locate lines p = .gt)).map Prod.fst

/-- A reply to a request for the entries strictly between two selectors: only such entries, in
order, at most as many as the limit says, and all of them if they are not more. -/
structure RepliesBetween (lines : List (HistoryLogLine L)) (a b : Selector) (limit : ℤ)
    (log : List (HistoryLogLine L)) : Prop where
  /-- Only entries between the selectors, in their order. -/
  sublist : log.Sublist (strictlyBetween lines a b)
  length_le : log.length ≤ limit
  all : (strictlyBetween lines a b).length ≤ limit → log = strictlyBetween lines a b

/-- The entry with an index from `lo` on and below `hi`. -/
theorem map_fst_filter_zipIdx {α : Type*} (l : List α) (lo hi : ℕ) (p : α × ℕ → Bool)
    (hp : ∀ i (h : i < l.length), p (l[i], i) ↔ lo ≤ i ∧ i < hi) :
    (l.zipIdx.filter p).map Prod.fst = (l.take hi).drop lo := by
  induction l using reverseRecOn with
  | nil => simp
  | append_singleton l x ih =>
    have hl := ih fun i h => by
      have hx := hp i (by simp; omega)
      rwa [getElem_append_left h] at hx
    have hx := hp l.length (by simp)
    rw [getElem_concat_length rfl] at hx
    rw [zipIdx_append, filter_append, map_append, hl]
    by_cases hmem : lo ≤ l.length ∧ l.length < hi
    · -- The last entry belongs to the segment.
      have hpx := hx.mpr hmem
      rw [take_of_length_le (by omega), take_of_length_le (by simp; omega),
        drop_append_of_le_length hmem.1]
      simp [hpx]
    · have hpx : p (x, l.length) = false := by rwa [← Bool.not_eq_true, hx]
      simp only [take_append, drop_append]
      simp [hpx]
      omega

variable {lines : List (HistoryLogLine L)} {a b : Selector}

/-- The entries between two selectors when nothing lies between them the other way round. -/
theorem strictlyBetween_eq (ho : TimeOrdered lines) (h : a.before lines ≤ b.upTo lines) :
    strictlyBetween lines a b = (lines.take (b.before lines)).drop (a.upTo lines) := by
  refine map_fst_filter_zipIdx lines _ _ _ fun i hi => ?_
  simp only [decide_eq_true_eq, locate_eq_gt ho _ hi, locate_eq_lt ho _ hi]
  omega

theorem strictlyBetween_comm (lines : List (HistoryLogLine L)) (a b : Selector) :
    strictlyBetween lines a b = strictlyBetween lines b a := by
  unfold strictlyBetween
  congr 2
  funext p
  simp only [decide_eq_decide]
  tauto

/-- The direction for a time and a `msgid`: forward if the entry with the `msgid` is not in front of
the time. -/
theorem figureOutDirectionLoop_timestamp_msgid (time id : CStr) (limit : ℤ)
    (lines : List (HistoryLogLine L)) (foundA : Bool) (hid : ∃ l ∈ lines, l.msgid = id) :
    figureOutDirectionLoop (betweenFilter (.timestamp time) (.msgid id) limit) lines foundA false =
      some (foundA || decide ((timestamp time).before lines ≤ (msgid id).before lines)) := by
  induction lines generalizing foundA with
  | nil => simp at hid
  | cons l rest ih =>
    unfold before at ih ⊢
    by_cases hl : l.msgid = id
    · by_cases hlt : strcmp l.time time = .lt
      · -- Its time is the earlier one.
        have hgt : (strcmp time l.time).isLE = false := by
          rw [strcmp_eq_swap, hlt]
          rfl
        cases foundA <;> simp [figureOutDirectionLoop, findIdx_cons, hl, hlt, hgt]
      · cases foundA <;> simp [figureOutDirectionLoop, findIdx_cons, hl, hlt]
    · have hid' : ∃ l ∈ rest, l.msgid = id := by simpa [hl] using hid
      by_cases hlt : strcmp l.time time = .lt
      · simpa [figureOutDirectionLoop, findIdx_cons, hl, Ne.symm hl, hlt] using ih foundA hid'
      · simpa [figureOutDirectionLoop, findIdx_cons, hl, Ne.symm hl, hlt] using ih true hid'

/-- The direction for a `msgid` and a time: forward if the entry with the `msgid` is the first of
its time or earlier. -/
theorem figureOutDirectionLoop_msgid_timestamp (id time : CStr) (limit : ℤ)
    (lines : List (HistoryLogLine L)) (foundB : Bool) (hid : ∃ l ∈ lines, l.msgid = id) :
    figureOutDirectionLoop (betweenFilter (.msgid id) (.timestamp time) limit) lines false foundB =
      some (!foundB && decide ((msgid id).before lines ≤
        (timestamp time).before lines ∧
          (msgid id).before lines < (timestamp time).upTo lines)) := by
  induction lines generalizing foundB with
  | nil => simp at hid
  | cons l rest ih =>
    unfold before upTo at ih ⊢
    by_cases hl : l.msgid = id
    · cases hle : (strcmp l.time time).isLE <;> cases foundB <;>
        simp [figureOutDirectionLoop, findIdx_cons, takeWhile_cons, hl, hle]
    have hid' : ∃ l ∈ rest, l.msgid = id := by simpa [hl] using hid
    by_cases hlt : strcmp l.time time = .lt
    · simpa [figureOutDirectionLoop, findIdx_cons, hl, Ne.symm hl, hlt] using ih foundB hid'
    · simpa [figureOutDirectionLoop, findIdx_cons, hl, Ne.symm hl, hlt] using ih true hid'

/-- With one of two `msgid`s found, the direction is known at the other one. -/
theorem figureOutDirectionLoop_found (a b : CStr) (limit : ℤ) (lines : List (HistoryLogLine L)) :
    ((∃ l ∈ lines, l.msgid = b) → figureOutDirectionLoop
      (betweenFilter (.msgid a) (.msgid b) limit) lines true false = some true) ∧
    ((∃ l ∈ lines, l.msgid = a) → figureOutDirectionLoop
      (betweenFilter (.msgid a) (.msgid b) limit) lines false true = some false) := by
  induction lines with
  | nil => simp
  | cons l rest ih =>
    refine ⟨fun hb => ?_, fun ha => ?_⟩
    · by_cases hl : l.msgid = b
      · simp [figureOutDirectionLoop, hl]
      · have hb' : ∃ l ∈ rest, l.msgid = b := by simpa [hl] using hb
        simpa [figureOutDirectionLoop, Ne.symm hl] using ih.1 hb'
    · by_cases hl : l.msgid = a
      · simp [figureOutDirectionLoop, hl]
      · have ha' : ∃ l ∈ rest, l.msgid = a := by simpa [hl] using ha
        simpa [figureOutDirectionLoop, Ne.symm hl] using ih.2 ha'

/-- The direction for two `msgid`s: forward if the first one is found not later. -/
theorem figureOutDirectionLoop_msgid_msgid (a b : CStr) (limit : ℤ)
    (lines : List (HistoryLogLine L)) (ha : ∃ l ∈ lines, l.msgid = a)
    (hb : ∃ l ∈ lines, l.msgid = b) :
    figureOutDirectionLoop (betweenFilter (.msgid a) (.msgid b) limit) lines false false =
      some (decide ((msgid a).before lines ≤ (msgid b).before lines)) := by
  induction lines with
  | nil => simp at ha
  | cons l rest ih =>
    unfold before at ih ⊢
    have hfound := figureOutDirectionLoop_found a b limit rest
    by_cases hla : l.msgid = a
    · by_cases hlb : l.msgid = b
      · simp [figureOutDirectionLoop, findIdx_cons, ← hla, ← hlb]
      · have hb' : ∃ l ∈ rest, l.msgid = b := by simpa [hlb] using hb
        subst hla
        simpa [figureOutDirectionLoop, findIdx_cons, hlb, Ne.symm hlb] using hfound.1 hb'
    · have ha' : ∃ l ∈ rest, l.msgid = a := by simpa [hla] using ha
      by_cases hlb : l.msgid = b
      · subst hlb
        simpa [figureOutDirectionLoop, findIdx_cons, hla, Ne.symm hla] using hfound.2 ha'
      · have hb' : ∃ l ∈ rest, l.msgid = b := by simpa [hlb] using hb
        simpa [figureOutDirectionLoop, findIdx_cons, hla, hlb, Ne.symm hla, Ne.symm hlb] using
          ih ha' hb'

/-- What is dropped in front does not change where the rest is cut off. -/
theorem takeWhile_drop_of_le {α : Type*} (p : α → Bool) (l : List α) (k : ℕ)
    (h : k ≤ (l.takeWhile p).length) : (l.drop k).takeWhile p = (l.takeWhile p).drop k := by
  induction l generalizing k with
  | nil => simp
  | cons a l ih =>
    cases k <;> grind [takeWhile_cons]

theorem length_takeWhile_stops (a b : Selector) (limit : ℤ) (lines : List (HistoryLogLine L)) :
    (lines.takeWhile fun l => !(betweenFilter a b limit).stops l).length = b.before lines := by
  cases b with
  | timestamp time => simp [stops, before]
  | msgid id =>
    simp [stops, before, takeWhile_eq_take_findIdx_not, findIdx_le_length, eq_comm]

theorem takeWhile_stops (a b : Selector) (limit : ℤ) (h : a.upTo lines ≤ b.before lines) :
    ((lines.drop (a.upTo lines)).takeWhile fun l => !(betweenFilter a b limit).stops l) =
      (lines.take (b.before lines)).drop (a.upTo lines) := by
  rw [← length_takeWhile_stops a b limit] at h ⊢
  have hpre : lines.takeWhile (fun l => !(betweenFilter a b limit).stops l) <+: lines :=
    takeWhile_prefix _
  rw [takeWhile_drop_of_le _ _ _ h, ← prefix_iff_eq_take.mp hpre]

/-- The loop starts behind the `msgid` that it should stop at, and at another one. -/
def Passes (lines : List (HistoryLogLine L)) (a : Selector) : Selector → Prop
  | .timestamp _ => False
  | .msgid id => (Selector.msgid id).before lines < a.upTo lines ∧
      ∃ l, lines[a.upTo lines]? = some l ∧ l.msgid ≠ id

/-- Where the second selector is not behind the first, the loop copies nothing, unless it passes the
second one. -/
theorem takeWhile_stops_eq_nil (ho : TimeOrdered lines)
    (limit : ℤ) (h : b.before lines < a.upTo lines) :
    ((lines.drop (a.upTo lines)).takeWhile fun l => !(betweenFilter a b limit).stops l) = [] ↔
      ¬ Passes lines a b := by
  rcases hnext : lines[a.upTo lines]? with _ | l
  · -- There is no entry behind the first selector.
    rw [List.drop_of_length_le (List.getElem?_eq_none_iff.mp hnext)]
    cases b <;> simp [Passes, hnext]
  · obtain ⟨hlt, rfl⟩ := List.getElem?_eq_some_iff.mp hnext
    rw [List.drop_eq_getElem_cons hlt, List.takeWhile_cons]
    cases b with
    | timestamp time =>
      have hstop : strcmp lines[a.upTo lines].time time ≠ .lt := by
        intro hcmp
        have := (locate_eq_lt ho (.timestamp time) hlt).mp hcmp
        omega
      simp [Passes, stops, hstop]
    | msgid id =>
      have hcomm : id = lines[a.upTo lines].msgid ↔ lines[a.upTo lines].msgid = id := eq_comm
      simp [Passes, stops, h, hlt, hcomm]

variable {h : HistoryLogObject L}

/-- Copying forward replies to the request, unless the loop passes the selector to stop at. -/
theorem hbmReturnAfter_replies (ho : TimeOrdered h.lines)
    {limit : ℤ} (hlimit : 1 ≤ limit) (hle : a.before h.lines ≤ b.upTo h.lines) :
    RepliesBetween h.lines a b limit (hbmReturnAfter h (betweenFilter a b limit)).log ↔
      ¬ Passes h.lines a b := by
  rw [hbmReturnAfter_log h (betweenFilter a b limit) a rfl rfl]
  have hbetween := strictlyBetween_eq ho hle
  rcases le_or_gt (a.upTo h.lines) (b.before h.lines) with hfar | hnear
  · -- All that is copied is between the selectors.
    rw [takeWhile_stops a b limit hfar, ← hbetween]
    refine iff_of_true ⟨take_sublist _ _, ?_, fun hall => ?_⟩ ?_
    · have hlen := length_take_le limit.toNat (strictlyBetween h.lines a b)
      simp only [betweenFilter]
      omega
    · exact take_of_length_le (by simp only [betweenFilter]; omega)
    · cases b with
      | timestamp time => exact id
      | msgid id => exact fun hpass => absurd hpass.1 (by omega)
  · -- Nothing is between them.
    have hnone : strictlyBetween h.lines a b = [] := by
      rw [hbetween]
      exact drop_of_length_le (by simp; omega)
    rw [← takeWhile_stops_eq_nil ho limit hnear]
    constructor
    · intro hreplies
      have hnil := sublist_nil.mp (hnone ▸ hreplies.sublist)
      rcases take_eq_nil_iff.mp hnil with hzero | hnil
      · simp only [betweenFilter] at hzero
        omega
      · exact hnil
    · intro hnil
      rw [hnil, take_nil]
      exact ⟨nil_sublist _, by simpa using hlimit.trans' (by omega), fun _ => hnone.symm⟩

theorem before_msgid_lt {id : CStr} (hid : ∃ l ∈ lines, l.msgid = id) :
    (msgid id).before lines < lines.length :=
  findIdx_lt_length_of_exists (by simpa using hid)

/-- The first entry with a `msgid` is not in front of a time and up to it, exactly if it is its
time. -/
theorem find?_time_eq_iff (ho : TimeOrdered lines) {id : CStr}
    (hid : ∃ l ∈ lines, l.msgid = id) (time : CStr) :
    (∃ l, lines.find? (fun l => l.msgid = id) = some l ∧ l.time = time) ↔
      (timestamp time).before lines ≤ (msgid id).before lines ∧
        (msgid id).before lines < (timestamp time).upTo lines := by
  have hlt := before_msgid_lt hid
  have hfind : lines.find? (fun l => l.msgid = id) = some lines[(msgid id).before lines] := by
    rw [find?_eq_getElem?_findIdx]
    exact getElem?_eq_getElem hlt
  have hbefore := locate_eq_lt ho (.timestamp time) hlt
  have hupTo := locate_eq_gt ho (.timestamp time) hlt
  rw [hfind, ← not_lt, ← hbefore, ← not_le, ← hupTo]
  simp only [Option.some.injEq, exists_eq_left', locate, ← strcmp_eq_eq]
  cases strcmp lines[(msgid id).before lines].time time <;> simp

/-- The two selectors denote the same position and the request is answered with what is behind it:
the `msgid` to stop at is not behind the start, and the next entry has another one. For a `msgid`
and a time, in this order, it is only so if an entry of the same time is in front of the one with
the `msgid`. -/
def Overruns (lines : List (HistoryLogLine L)) : Selector → Selector → Prop
  | .timestamp _, .timestamp _ => False
  | .timestamp time, .msgid id =>
    (∃ l, lines.find? (fun l => l.msgid = id) = some l ∧ l.time = time) ∧
      ∃ l, lines[(Selector.timestamp time).upTo lines]? = some l ∧ l.msgid ≠ id
  | .msgid id, .timestamp time =>
    (∃ l, lines.find? (fun l => l.msgid = id) = some l ∧ l.time = time) ∧
      (Selector.timestamp time).before lines < (Selector.msgid id).before lines ∧
      ∃ l, lines[(Selector.timestamp time).upTo lines]? = some l ∧ l.msgid ≠ id
  | .msgid id, .msgid id' =>
    id = id' ∧ ∃ l, lines[(Selector.msgid id).upTo lines]? = some l ∧ l.msgid ≠ id

/-- A `msgid` that is there has one first entry. -/
theorem before_msgid_inj {id id' : CStr} (hid : ∃ l ∈ lines, l.msgid = id)
    (h : (msgid id).before lines = (msgid id').before lines) : id = id' := by
  have hfirst : ∀ id (hlt : (msgid id).before lines < lines.length),
      lines[(msgid id).before lines].msgid = id := fun id hlt =>
    of_decide_eq_true (findIdx_getElem (w := hlt))
  have hlt := before_msgid_lt hid
  rw [← hfirst id hlt, ← hfirst id' (h ▸ hlt)]
  simp only [h]

/-- The direction is found for selectors that are there. Nothing lies between them the other way
round, and the loop passes the selector to stop at exactly if the request overruns. -/
theorem figureOutDirection_spec (ho : TimeOrdered h.lines)
    (limit : ℤ) (ha : a.Present h.lines) (hb : b.Present h.lines) :
    (hbmReturnBetweenFigureOutDirection h (betweenFilter a b limit) = some true ∧
      a.before h.lines ≤ b.upTo h.lines ∧ (Overruns h.lines a b ↔ Passes h.lines a b)) ∨
    (hbmReturnBetweenFigureOutDirection h (betweenFilter a b limit) = some false ∧
      b.before h.lines ≤ a.upTo h.lines ∧ (Overruns h.lines a b ↔ Passes h.lines b a)) := by
  cases a with
  | timestamp s =>
    have hs : (timestamp s).before h.lines ≤ (timestamp s).upTo h.lines :=
      (timestamp s).before_le_upTo
    cases b with
    | timestamp t =>
      rcases hle : (strcmp s t).isLE with _ | _
      · have hle' : (strcmp t s).isLE := by
          rw [strcmp_eq_swap]
          cases hcmp : strcmp s t <;> simp_all
        exact .inr ⟨congrArg some hle, before_le_upTo_of_isLE hle', Iff.rfl⟩
      · exact .inl ⟨congrArg some hle, before_le_upTo_of_isLE hle, Iff.rfl⟩
    | msgid t =>
      have hdir := figureOutDirectionLoop_timestamp_msgid s t limit h.lines false hb
      have ht : (msgid t).upTo h.lines = (msgid t).before h.lines + 1 := rfl
      simp only [Overruns, Passes, find?_time_eq_iff ho hb]
      by_cases hle : (timestamp s).before h.lines ≤ (msgid t).before h.lines
      · refine .inl ⟨hdir.trans (by simp [hle]), by omega, by simp [hle]⟩
      · refine .inr ⟨hdir.trans (by simp [hle]), by omega, by simp [hle]⟩
  | msgid s =>
    have hs : (msgid s).upTo h.lines = (msgid s).before h.lines + 1 := rfl
    cases b with
    | timestamp t =>
      have hdir := figureOutDirectionLoop_msgid_timestamp s t limit h.lines false ha
      have ht : (timestamp t).before h.lines ≤ (timestamp t).upTo h.lines :=
        (timestamp t).before_le_upTo
      simp only [Overruns, Passes, find?_time_eq_iff ho ha]
      by_cases hle : (msgid s).before h.lines ≤ (timestamp t).before h.lines ∧
          (msgid s).before h.lines < (timestamp t).upTo h.lines
      · -- The entry is the first of its time or earlier: nothing is passed.
        refine .inl ⟨hdir.trans (by simp [hle]), by omega, iff_of_false ?_ id⟩
        rintro ⟨-, hlt, -⟩
        omega
      · refine .inr ⟨hdir.trans (by simp [hle]), by omega, ?_⟩
        constructor
        · rintro ⟨⟨-, hlt⟩, -, hnext⟩
          exact ⟨hlt, hnext⟩
        · rintro ⟨hlt, hnext⟩
          exact ⟨⟨by omega, hlt⟩, by omega, hnext⟩
    | msgid t =>
      have hdir := figureOutDirectionLoop_msgid_msgid s t limit h.lines ha hb
      have ht : (msgid t).upTo h.lines = (msgid t).before h.lines + 1 := rfl
      by_cases hle : (msgid s).before h.lines ≤ (msgid t).before h.lines
      · refine .inl ⟨hdir.trans (by simp [hle]), by omega, ?_⟩
        constructor
        · rintro ⟨rfl, hnext⟩
          exact ⟨by omega, hnext⟩
        · rintro ⟨hlt, hnext⟩
          obtain rfl : s = t := before_msgid_inj ha (by omega)
          exact ⟨rfl, hnext⟩
      · refine .inr ⟨hdir.trans (by simp [hle]), by omega, iff_of_false ?_ ?_⟩
        · rintro ⟨rfl, -⟩
          exact hle le_rfl
        · rintro ⟨hlt, -⟩
          omega

/-- A reply is one for the selectors in the other order as well. -/
theorem RepliesBetween.comm {log : List (HistoryLogLine L)} {limit : ℤ} :
    RepliesBetween lines a b limit log ↔ RepliesBetween lines b a limit log := by
  have hcomm := strictlyBetween_comm lines a b
  constructor <;> exact fun ⟨h1, h2, h3⟩ => ⟨hcomm ▸ h1, h2, hcomm ▸ h3⟩

/-- In a list that is ordered by the texts of the times, `hbm_return_between` replies with the entries
strictly between two selectors, exactly if the request does not overrun. -/
theorem hbmReturnBetween_of_timeOrdered (ho : TimeOrdered h.lines) (ha : a.Present h.lines)
    (hb : b.Present h.lines) {limit : ℤ} (hlimit : 1 ≤ limit) :
    RepliesBetween h.lines a b limit (hbmReturnBetween h (betweenFilter a b limit)).log ↔
      ¬ Overruns h.lines a b := by
  unfold hbmReturnBetween
  rcases figureOutDirection_spec ho limit ha hb with ⟨hdir, hle, hover⟩ | ⟨hdir, hle, hover⟩
  · rw [hdir, hover]
    exact hbmReturnAfter_replies ho hlimit hle
  · rw [hdir, hover, RepliesBetween.comm]
    exact hbmReturnAfter_replies ho hlimit hle

/-- Up to a time that is later than all entries, nothing stops the loop. -/
theorem hbmReturnBetween_later {time later : CStr} (hlater : ∀ l ∈ h.lines, strcmp l.time later = .lt)
    (hle : (strcmp time later).isLE) {limit : ℤ} (hlimit : h.lines.length ≤ limit) :
    (hbmReturnBetween h (betweenFilter (.timestamp time) (.timestamp later) limit)).log =
      h.lines.drop ((timestamp time).upTo h.lines) := by
  have hdir : hbmReturnBetweenFigureOutDirection h
      (betweenFilter (.timestamp time) (.timestamp later) limit) = some true := congrArg some hle
  have hgo : ∀ l ∈ h.lines.drop ((timestamp time).upTo h.lines),
      (!(betweenFilter (.timestamp time) (.timestamp later) limit).stops l) = true := by
    intro l hl
    simp [stops, hlater l (mem_of_mem_drop hl)]
  have hlen := (drop_sublist ((timestamp time).upTo h.lines) h.lines).length_le
  rw [hbmReturnBetween, hdir]
  show (hbmReturnAfter h (betweenFilter (.timestamp time) (.timestamp later) limit)).log = _
  rw [hbmReturnAfter_log h _ (.timestamp time) rfl rfl, takeWhile_eq_self_iff.mpr hgo]
  exact take_of_length_le (by simp only [betweenFilter]; omega)

/-- If the replies are right for every two times, no entry with a time comes behind a later one. -/
theorem timeOrdered_of_replies
    (hright : ∀ s t limit, 1 ≤ limit → RepliesBetween h.lines (.timestamp s) (.timestamp t) limit
      (hbmReturnBetween h (betweenFilter (.timestamp s) (.timestamp t) limit)).log) :
    TimeOrdered h.lines := by
  refine timeOrdered_of_drop fun time l hl htime => ?_
  obtain ⟨later, hlater⟩ := exists_later h.lines
  have hlt := htime ▸ hlater l (mem_of_mem_drop hl)
  have hsub := (hright time later (h.lines.length + 1) (by omega)).sublist
  rw [hbmReturnBetween_later hlater (by rw [hlt]; rfl) (by omega)] at hsub
  -- the entry is copied although its time is that of the selector
  obtain ⟨⟨l', i⟩, hmem, rfl⟩ := mem_map.mp (hsub.subset hl)
  have hbetween := of_decide_eq_true (mem_filter.mp hmem).2
  simp only [locate] at hbetween
  rw [htime, strcmp_eq_eq.mpr rfl] at hbetween
  simp at hbetween

/-- `hbm_return_between` replies with the entries strictly between two selectors, in whichever order
they are given and for every limit, to exactly the requests that do not overrun, if and only if the
seconds of the entries follow the texts of their times. -/
theorem hbmReturnBetween_iff {h : HistoryLogObject L} (hi : h.Inv) :
    (∀ a b : Selector, a.Present h.lines → b.Present h.lines → ∀ limit, 1 ≤ limit →
      (RepliesBetween h.lines a b limit (hbmReturnBetween h (betweenFilter a b limit)).log ↔
        ¬ Overruns h.lines a b)) ↔ SecondsFollow h.lines := by
  constructor
  · intro hright
    refine secondsFollow_of_timeOrdered hi.ordered (timeOrdered_of_replies fun s t limit hlimit => ?_)
    exact (hright (.timestamp s) (.timestamp t) trivial trivial limit hlimit).mpr id
  · intro hs a b ha hb limit hlimit
    exact hbmReturnBetween_of_timeOrdered (timeOrdered_of_before hi.ordered hs) ha hb hlimit

/-- Three messages, a millisecond apart. -/
def exampleHistory : HistoryLogObject exampleLibc :=
  run exampleLibc [.setLimit 10 3600 1767225600, exampleAdd 0 0, exampleAdd 1 1, exampleAdd 2 2]

/-- Between the first and the last one, in reverse order, is the message in the middle. -/
theorem hbmReturnBetween_reverse :
    RepliesBetween exampleHistory.lines (.msgid (exampleMsgid 2)) (.msgid (exampleMsgid 0)) 10
      (hbmReturnBetween exampleHistory
        (betweenFilter (.msgid (exampleMsgid 2)) (.msgid (exampleMsgid 0)) 10)).log := by
  refine ((hbmReturnBetween_iff (run_inv _ _)).mpr (by decide +kernel) _ _ (by decide +kernel)
    (by decide +kernel) 10 (by decide)).mpr ?_
  rintro ⟨heq, -⟩
  exact absurd heq (by decide)

/-- Between a message and itself, the reply is all that follows. -/
theorem hbmReturnBetween_same :
    ¬ RepliesBetween exampleHistory.lines (.msgid (exampleMsgid 0)) (.msgid (exampleMsgid 0)) 10
      (hbmReturnBetween exampleHistory
        (betweenFilter (.msgid (exampleMsgid 0)) (.msgid (exampleMsgid 0)) 10)).log := by
  intro hreplies
  exact absurd hreplies.sublist.length_le (by decide +kernel)

end ObbyIRCd.History
