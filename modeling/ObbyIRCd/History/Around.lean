import ObbyIRCd.History.Query
import ObbyIRCd.History.Run

/-!
# What lies around the anchor of a request

`CHATHISTORY AROUND` asks for a part of the list with the anchor in it. `hbm_return_around` first
goes back from the anchor and then forward from it, so that the two parts are next to each other in
the list (`hbmReturnAroundLoop_started`, `hbmReturnAroundCopy_eq`). Going back takes at least one
entry if there is one, and so does going forward. With a limit of 1 these are two.

A time before every entry is not found. The reply is then meant to be the oldest entries, if the
oldest one is less than an hour later than the time. It is the latest one whose time is compared.
`hbmReturnAround_iff` says that nothing else can go wrong.
-/

namespace ObbyIRCd.History

open List
open CStr (strcmp strcmp_eq_swap)

variable {L : Libc}

/-- A reply to a request for the entries around an anchor. -/
structure RepliesAround (lines : List (HistoryLogLine L)) (anchor : Selector) (limit : ℤ)
    (log : List (HistoryLogLine L)) : Prop where
  part : log <:+: lines
  length_le : log.length ≤ limit
  /-- The message with the anchor's `msgid` is in it. -/
  mem : ∀ id, anchor = .msgid id → (∃ l ∈ lines, l.msgid = id) → ∃ l ∈ log, l.msgid = id
  /-- For a time before all messages, by less than an hour, it is the oldest ones. -/
  oldest : ∀ time, anchor = .timestamp time →
    (∀ l ∈ lines, strcmp time l.time = .lt) →
    (∀ head ∈ lines.head?, head.t - serverTimeToUnixTime L time < 3600) →
    log = lines.take limit.toNat

/-- The second loop copies what the limit has room for, and one entry at least. -/
theorem hbmReturnAroundCopy_eq (limit : ℤ) (lines : List (HistoryLogLine L)) (written : ℤ) :
    hbmReturnAroundCopy limit lines written = lines.take (max 1 (limit - written)).toNat := by
  induction lines generalizing written with
  | nil => simp [hbmReturnAroundCopy]
  | cons l rest ih =>
    unfold hbmReturnAroundCopy
    split_ifs with hfull
    · have hone : (max 1 (limit - written)).toNat = 1 := by omega
      rw [hone]
      rfl
    · have hsucc : (max 1 (limit - written)).toNat = (max 1 (limit - (written + 1))).toNat + 1 := by
        omega
      rw [hsucc, take_succ_cons, ih]

/-- Once started, the first loop copies up to its bound, and one entry at least. -/
theorem hbmReturnAroundLoop_started (anchor : Selector) (limit : ℤ)
    (prev next : List (HistoryLogLine L)) (s : AroundState L) (hs : s.started ≠ []) :
    hbmReturnAroundLoop (aroundFilter anchor limit) prev next s =
      let taken := prev.take (max 1 (aroundBound limit s.started - s.written)).toNat
      ⟨s.started, s.written + taken.length, taken.reverse ++ s.log⟩ := by
  induction prev generalizing next s with
  | nil => simp [hbmReturnAroundLoop]
  | cons l prev ih =>
    have hempty : s.started.isEmpty = false := by simpa using hs
    have hstop : (aroundFilter anchor limit).stopsBack l = false := rfl
    simp only [hbmReturnAroundLoop, hempty, hstop, Bool.false_and, Bool.false_eq_true, if_false]
    split_ifs with hfull
    · -- The bound is reached with this entry.
      have hone : (max 1 (aroundBound limit s.started - s.written)).toNat = 1 := by
        simp only [aroundFilter] at hfull
        omega
      rw [hone]
      rfl
    · have hsucc : (max 1 (aroundBound limit s.started - s.written)).toNat =
          (max 1 (aroundBound limit s.started - (s.written + 1))).toNat + 1 := by
        simp only [aroundFilter] at hfull
        omega
      rw [ih (l :: next) ⟨s.started, s.written + 1, l :: s.log⟩ hs, hsucc, take_succ_cons]
      simp [add_assoc, add_comm]

/-- The first loop goes back to the last entry that it can start at. -/
theorem hbmReturnAroundLoop_search (filter : HistoryFilter) (P : HistoryLogLine L → Prop)
    (hskip : ∀ l prev next, ¬ P l → hbmReturnAroundLoop filter (l :: prev) next ⟨[], 0, []⟩ =
      hbmReturnAroundLoop filter prev (l :: next) ⟨[], 0, []⟩)
    (prev next : List (HistoryLogLine L)) :
    ((∀ l ∈ prev, ¬ P l) ∧ hbmReturnAroundLoop filter prev next ⟨[], 0, []⟩ = ⟨[], 0, []⟩) ∨
    ∃ older l newer, prev = newer ++ l :: older ∧ P l ∧ (∀ m ∈ newer, ¬ P m) ∧
      hbmReturnAroundLoop filter prev next ⟨[], 0, []⟩ =
        hbmReturnAroundLoop filter (l :: older) (newer.reverse ++ next) ⟨[], 0, []⟩ := by
  induction prev generalizing next with
  | nil => exact .inl ⟨by simp, rfl⟩
  | cons l prev ih =>
    by_cases hl : P l
    · exact .inr ⟨prev, l, [], rfl, hl, by simp, rfl⟩
    rw [hskip l prev next hl]
    rcases ih (l :: next) with ⟨hnone, heq⟩ | ⟨older, m, newer, rfl, hm, hnewer, heq⟩
    · exact .inl ⟨by simpa [hl] using hnone, heq⟩
    · exact .inr ⟨older, m, l :: newer, rfl, hm, by simpa [hl] using hnewer, by simpa using heq⟩

variable {limit : ℤ}

/-- What the first loop is content with leaves room for the anchor, but for a limit of 1. -/
theorem aroundBound_lt (h : 2 ≤ limit) (started : List (HistoryLogLine L)) :
    aroundBound limit started < limit := by
  unfold aroundBound
  split_ifs
  · omega
  · rw [Int.tdiv_eq_ediv_of_nonneg (by omega)]
    omega

/-- A reply that starts somewhere in the list: the entries in front of that place and those from
there on. -/
def around (limit : ℤ) (front started : List (HistoryLogLine L)) : List (HistoryLogLine L) :=
  let taken := front.take (max 1 (aroundBound limit started)).toNat
  taken.reverse ++ started.take (max 1 (limit - taken.length)).toNat

theorem reverse_take_append_take_infix {α : Type*} (front started : List α) (i j : ℕ) :
    (front.take i).reverse ++ started.take j <:+: front.reverse ++ started := by
  refine ⟨(front.drop i).reverse, started.drop j, ?_⟩
  calc (front.drop i).reverse ++ ((front.take i).reverse ++ started.take j) ++ started.drop j
      = (front.take i ++ front.drop i).reverse ++ (started.take j ++ started.drop j) := by
        simp only [reverse_append, append_assoc]
    _ = front.reverse ++ started := by rw [take_append_drop, take_append_drop]

variable {started : List (HistoryLogLine L)}

theorem length_around_le_iff (hlimit : 1 ≤ limit)
    (front : List (HistoryLogLine L)) (hs : started ≠ []) :
    (around limit front started).length ≤ limit ↔ ¬ (limit = 1 ∧ front ≠ []) := by
  have hpos := length_pos_iff.mpr hs
  unfold around
  simp only [length_append, length_reverse, length_take]
  rcases hlimit.eq_or_lt with rfl | htwo
  · -- One entry is taken from each side.
    have hbound : max 1 (aroundBound 1 started) = 1 := by
      unfold aroundBound
      split_ifs <;> simp
    cases front with
    | nil =>
      refine iff_of_true ?_ (by simp)
      rw [length_nil]
      omega
    | cons l front =>
      refine iff_of_false ?_ (by simp)
      rw [length_cons]
      omega
  · have hbound := aroundBound_lt (Int.add_one_le_of_lt htwo) started
    refine iff_of_true ?_ (by omega)
    omega

/-- What goes wrong: the limit is 1 and an entry is in front of the anchor, or the anchor is a time
before all entries that is near to the first one and an hour or more away from the last one. -/
def Misses (lines : List (HistoryLogLine L)) (limit : ℤ) : Selector → Prop
  | .msgid id => limit = 1 ∧ ∃ l ∈ lines.tail, l.msgid = id
  | .timestamp time =>
    (limit = 1 ∧ ∃ l ∈ lines.dropLast, strcmp l.time time = .lt) ∨
    ((∀ l ∈ lines, strcmp time l.time = .lt) ∧
      (∃ head ∈ lines.head?, head.t - serverTimeToUnixTime L time < 3600) ∧
      ∃ tail ∈ lines.getLast?, 3600 ≤ tail.t - serverTimeToUnixTime L time)

variable {h : HistoryLogObject L} {next : List (HistoryLogLine L)}

theorem hbmReturnAround_of_started {anchor : Selector}
    {front : List (HistoryLogLine L)} (hs : started ≠ [])
    (hloop : hbmReturnAroundLoop (aroundFilter anchor limit) h.lines.reverse [] ⟨[], 0, []⟩ =
      hbmReturnAroundLoop (aroundFilter anchor limit) front next ⟨started, 0, []⟩) :
    (hbmReturnAround h (aroundFilter anchor limit)).log = around limit front started := by
  have hskip (s : AroundState L) (hstarted : s.started ≠ []) :
      aroundOldest h (aroundFilter anchor limit) s = s := by
    unfold aroundOldest
    split
    · exact if_neg fun hc => hstarted (by simpa using hc.2.1)
    · rfl
  unfold hbmReturnAround
  rw [hloop, hbmReturnAroundLoop_started _ _ _ _ _ hs]
  dsimp only
  rw [hskip _ hs, hbmReturnAroundCopy_eq]
  simp [around]

/-- The reply for a `msgid`. -/
theorem hbmReturnAround_msgid (h : HistoryLogObject L) (id : CStr) (hlimit : 1 ≤ limit) :
    RepliesAround h.lines (.msgid id) limit
      (hbmReturnAround h (aroundFilter (.msgid id) limit)).log ↔
      ¬ Misses h.lines limit (.msgid id) := by
  rcases hbmReturnAroundLoop_search (aroundFilter (.msgid id) limit) (fun l => l.msgid = id)
      (fun l prev next hl => by simp [hbmReturnAroundLoop, Ne.symm hl]) h.lines.reverse [] with
    ⟨hnone, hloop⟩ | ⟨older, l, newer, hsplit, hl, hnewer, hloop⟩
  · -- The `msgid` is not there.
    have hlog : (hbmReturnAround h (aroundFilter (.msgid id) limit)).log = [] := by
      unfold hbmReturnAround
      rw [hloop]
      rfl
    have hnone' : ∀ l ∈ h.lines, l.msgid ≠ id := by simpa using hnone
    rw [hlog]
    refine iff_of_true ⟨?_, by simp; omega, ?_, by simp⟩ ?_
    · exact nil_infix
    · rintro id' ⟨⟩ ⟨l, hl, hid⟩
      exact absurd hid (hnone' l hl)
    · rintro ⟨-, l, hl, hid⟩
      exact hnone' l (mem_of_mem_tail hl) hid
  · have hlines : h.lines = older.reverse ++ l :: newer.reverse := by
      rw [← h.lines.reverse_reverse, hsplit]
      simp
    have hstart : hbmReturnAroundLoop (aroundFilter (.msgid id) limit) h.lines.reverse []
        ⟨[], 0, []⟩ = hbmReturnAroundLoop (aroundFilter (.msgid id) limit) older (l :: newer.reverse)
          ⟨l :: newer.reverse, 0, []⟩ := by
      rw [hloop]
      simp [hbmReturnAroundLoop, hl]
    rw [hbmReturnAround_of_started (cons_ne_nil _ _) hstart]
    have hmiss : Misses h.lines limit (.msgid id) ↔ limit = 1 ∧ older ≠ [] := by
      refine and_congr_right fun _ => ?_
      rw [hlines]
      rcases eq_nil_or_concat older with rfl | ⟨init, oldest, rfl⟩
      · simpa using hnewer
      · simpa using ⟨l, by simp, hl⟩
    rw [hmiss, ← length_around_le_iff hlimit older (cons_ne_nil l newer.reverse)]
    refine ⟨RepliesAround.length_le, fun hlen => ⟨?_, hlen, ?_, by simp⟩⟩
    · rw [hlines]
      exact reverse_take_append_take_infix _ _ _ _
    · -- The entry that the loop starts at is always copied.
      rintro id' ⟨⟩ -
      refine ⟨l, ?_, hl⟩
      obtain ⟨n, hn⟩ : ∃ n, (max 1 (limit - (older.take
          (max 1 (aroundBound limit (l :: newer.reverse))).toNat).length)).toNat = n + 1 :=
        ⟨_, (Nat.succ_pred_eq_of_pos (by omega)).symm⟩
      simp only [around, hn, take_succ_cons]
      simp

/-- The reply for a time that no entry in front of the tail is earlier than: it depends on the
tail. -/
theorem hbmReturnAround_of_not_found {init : List (HistoryLogLine L)}
    {tail : HistoryLogLine L} (hlines : h.lines = init ++ [tail]) {time : CStr}
    (hlimit : 1 ≤ limit) (hnone : ∀ l ∈ init, strcmp l.time time ≠ .lt)
    (hloop : hbmReturnAroundLoop (aroundFilter (.timestamp time) limit) h.lines.reverse []
      ⟨[], 0, []⟩ = ⟨[], 0, []⟩) :
    RepliesAround h.lines (.timestamp time) limit
      (hbmReturnAround h (aroundFilter (.timestamp time) limit)).log ↔
      ¬ Misses h.lines limit (.timestamp time) := by
  have hearly : ¬ (limit = 1 ∧ ∃ l ∈ h.lines.dropLast, strcmp l.time time = .lt) := by
    rintro ⟨-, l, hl, hlt⟩
    rw [hlines, dropLast_concat] at hl
    exact hnone l hl hlt
  have hlast : h.lines.getLast? = some tail := by rw [hlines, getLast?_concat]
  simp only [Misses, hearly, hlast, false_or]
  unfold hbmReturnAround
  rw [hloop]
  -- the oldest lines are sent if the last one is less than an hour after the time
  by_cases hnear : tail.t - serverTimeToUnixTime L time < 3600
  · have hold : aroundOldest h (aroundFilter (.timestamp time) limit) ⟨[], 0, []⟩ =
        ⟨h.lines, 0, []⟩ := by
      simp [aroundOldest, hlast, ← tail.t_eq, hnear]
    have hmax : (max 1 (limit - 0)).toNat = limit.toNat := by omega
    rw [hold]
    dsimp only
    rw [hbmReturnAroundCopy_eq, aroundFilter, hmax, nil_append]
    have hpage : h.lines.take limit.toNat <+: h.lines := take_prefix _ _
    refine iff_of_true ⟨hpage.isInfix, ?_, by simp, by simp⟩ ?_
    · rw [length_take]
      omega
    · rintro ⟨-, -, m, ⟨⟩, hm⟩
      omega
  · have hold : aroundOldest h (aroundFilter (.timestamp time) limit) ⟨[], 0, []⟩ =
        ⟨[], 0, []⟩ := by
      simp [aroundOldest, hlast, ← tail.t_eq, hnear]
    rw [hold]
    dsimp only [hbmReturnAroundCopy, append_nil]
    constructor
    · rintro hreplies ⟨hall, ⟨head, hhead, hnearHead⟩, -⟩
      have hempty := hreplies.oldest time rfl hall fun head' hhead' => by
        obtain rfl : head = head' := Option.mem_unique hhead hhead'
        exact hnearHead
      rcases take_eq_nil_iff.mp hempty.symm with hzero | hnil
      · omega
      · simp [hlines] at hnil
    · intro hnot
      refine ⟨?_, by simp; omega, by simp, ?_⟩
      · exact nil_infix
      rintro time' ⟨⟩ hall hhead
      obtain ⟨head, hmem⟩ : ∃ head, head ∈ h.lines.head? :=
        Option.isSome_iff_exists.mp (by simp [hlines])
      exact absurd ⟨hall, ⟨head, hmem, hhead head hmem⟩, tail, rfl, by omega⟩ hnot

/-- The reply for a time that an entry in front of the tail is earlier than: it starts behind that
entry. -/
theorem hbmReturnAround_of_found {time : CStr}
    (hlimit : 1 ≤ limit) {older : List (HistoryLogLine L)} {l : HistoryLogLine L}
    (hlines : h.lines = (l :: older).reverse ++ started) (hs : started ≠ [])
    (hl : strcmp l.time time = .lt)
    (hloop : hbmReturnAroundLoop (aroundFilter (.timestamp time) limit) h.lines.reverse []
      ⟨[], 0, []⟩ = hbmReturnAroundLoop (aroundFilter (.timestamp time) limit) (l :: older) started
        ⟨[], 0, []⟩) :
    RepliesAround h.lines (.timestamp time) limit
      (hbmReturnAround h (aroundFilter (.timestamp time) limit)).log ↔
      ¬ Misses h.lines limit (.timestamp time) := by
  have hmem : l ∈ h.lines.dropLast := by
    rw [hlines, dropLast_append_of_ne_nil hs]
    simp
  have hlate : ¬ ∀ m ∈ h.lines, strcmp time m.time = .lt := by
    intro hall
    have hlt := hall l (mem_of_mem_dropLast hmem)
    rw [strcmp_eq_swap, hl] at hlt
    exact absurd hlt (by decide)
  have hmiss : Misses h.lines limit (.timestamp time) ↔ limit = 1 ∧ l :: older ≠ [] := by
    simp only [Misses, hlate, false_and, or_false]
    exact and_congr_right fun _ => iff_of_true ⟨l, hmem, hl⟩ (cons_ne_nil _ _)
  have hstart : _ = hbmReturnAroundLoop (aroundFilter (.timestamp time) limit) (l :: older) started
      ⟨started, 0, []⟩ := hloop.trans (by simp [hbmReturnAroundLoop, hl, hs])
  rw [hbmReturnAround_of_started hs hstart, hmiss, ← length_around_le_iff hlimit _ hs]
  refine ⟨RepliesAround.length_le, fun hlen => ⟨?_, hlen, by simp, ?_⟩⟩
  · rw [hlines]
    exact reverse_take_append_take_infix _ _ _ _
  · rintro time' ⟨⟩ hall
    exact absurd hall hlate

/-- `hbm_return_around` replies with a part of the list within the limit, that has the anchor in it
or is the oldest entries, exactly if nothing of what can go wrong does. -/
theorem hbmReturnAround_iff (h : HistoryLogObject L) (anchor : Selector) {limit : ℤ}
    (hlimit : 1 ≤ limit) :
    RepliesAround h.lines anchor limit (hbmReturnAround h (aroundFilter anchor limit)).log ↔
      ¬ Misses h.lines limit anchor := by
  cases anchor with
  | timestamp time =>
    rcases eq_nil_or_concat h.lines with hnil | ⟨init, tail, hlines⟩
    · have hlog : (hbmReturnAround h (aroundFilter (.timestamp time) limit)).log = [] := by
        unfold hbmReturnAround aroundOldest
        rw [hnil]
        rfl
      rw [hlog, hnil]
      refine iff_of_true ⟨?_, by simp; omega, by simp, by simp⟩ (by simp [Misses])
      exact nil_infix
    · rw [concat_eq_append] at hlines
      -- At the tail, an earlier time makes `started` the end of the list, which is `NULL`.
      have htail : hbmReturnAroundLoop (aroundFilter (.timestamp time) limit) h.lines.reverse []
          ⟨[], 0, []⟩ = hbmReturnAroundLoop (aroundFilter (.timestamp time) limit) init.reverse [tail]
            ⟨[], 0, []⟩ := by
        rw [hlines]
        simp [hbmReturnAroundLoop]
      rcases hbmReturnAroundLoop_search (aroundFilter (.timestamp time) limit)
          (fun l => strcmp l.time time = .lt)
          (fun l prev next hl => by simp [hbmReturnAroundLoop, hl]) init.reverse [tail] with
        ⟨hnone, hloop⟩ | ⟨older, l, newer, hsplit, hl, -, hloop⟩
      · exact hbmReturnAround_of_not_found hlines hlimit (by simpa using hnone) (htail.trans hloop)
      have hlines' : h.lines = (l :: older).reverse ++ (newer.reverse ++ [tail]) := by
        rw [hlines, ← init.reverse_reverse, hsplit]
        simp
      exact hbmReturnAround_of_found hlimit hlines' (by simp) hl (htail.trans hloop)
  | msgid id => exact hbmReturnAround_msgid h id hlimit

/-- Around the second of three messages, for a limit of 2, are the first and the second one. -/
theorem hbmReturnAround_two :
    RepliesAround (run exampleLibc [exampleAdd 0 0, exampleAdd 1 1, exampleAdd 2 2]).lines
      (.msgid (exampleMsgid 1)) 2
      (hbmReturnAround (run exampleLibc [exampleAdd 0 0, exampleAdd 1 1, exampleAdd 2 2])
        (aroundFilter (.msgid (exampleMsgid 1)) 2)).log := by
  refine (hbmReturnAround_iff _ _ (by decide)).mpr ?_
  rintro ⟨hone, -⟩
  exact absurd hone (by decide)

/-- Around the second of two messages, for a limit of 1, are both. -/
theorem hbmReturnAround_one :
    ¬ RepliesAround (run exampleLibc [exampleAdd 0 0, exampleAdd 1 1]).lines
      (.msgid (exampleMsgid 1)) 1
      (hbmReturnAround (run exampleLibc [exampleAdd 0 0, exampleAdd 1 1])
        (aroundFilter (.msgid (exampleMsgid 1)) 1)).log := by
  intro hreplies
  exact absurd hreplies.length_le (by decide +kernel)

end ObbyIRCd.History
