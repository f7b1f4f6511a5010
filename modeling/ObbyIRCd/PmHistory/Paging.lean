import ObbyIRCd.Lib.Keyed
import ObbyIRCd.Lib.Paging
import ObbyIRCd.PmHistory.Model

/-!
# Paging through a conversation

A client reads a conversation from its end with `LATEST` and then with `BEFORE` the oldest message it
has received, or from its first message on with `AFTER` the newest one. The replies are pages in the
sense of `Lib/Paging.lean`, with the time as the key (`pages_of_reads`), so the messages of the same
time as the anchor are never sent if they are not on its page. `pagingComplete_iff` says that every
reading is complete exactly if no page ends between two messages of the same time.
-/

namespace ObbyIRCd.PmHistory

open List PmHistory.Order Paging

open History (HistoryFilter)

def Order.key : Order → Row → ℤ
  | asc, r => r.tsMs
  | desc, r => -r.tsMs

theorem Order.le_iff (order : Order) (r s : Row) :
    order.le r.tsMs s.tsMs ↔ order.key r ≤ order.key s := by
  cases order <;> simp [le, key]

theorem exists_answers (db : List Row) (q : Query) {sorted : List Row}
    (hperm : sorted.Perm (q.rows db))
    (hsorted : sorted.Pairwise fun r s => q.order.le r.tsMs s.tsMs) :
    ∃ select, Answers db select ∧ select q = sorted.take q.limit.toNat := by
  choose other hother using fun q : Query => exists_sorted q.order.key (q.rows db)
  refine ⟨fun q' => if q' = q then sorted.take q.limit.toNat else (other q').take q'.limit.toNat,
    fun q' => ?_, if_pos rfl⟩
  by_cases hq : q' = q
  · subst hq
    exact ⟨sorted, hperm, hsorted, if_pos rfl⟩
  · exact ⟨other q', (hother q').1, (hother q').2.imp fun h => (le_iff _ _ _).mpr h, if_neg hq⟩

/-- The rows as they are sent: always in the order of their times. -/
def Order.shown : Order → List Row → List Row
  | asc, rows => rows
  | desc, rows => rows.reverse

def Order.further : Order → HistoryCommand
  | asc => .after
  | desc => .before

/-- The condition of this command, for an anchor of the time `ms`. -/
def Order.behind : Order → ℤ → TsRange
  | asc, ms => .gt ms
  | desc, ms => .lt ms

theorem Order.filter_behind (order : Order) (r : Row) (rows : List Row) :
    rows.filter (fun s => (order.behind r.tsMs).contains s.tsMs) =
      beyond order.key (order.key r) rows := by
  refine filter_congr fun s _ => ?_
  rw [Bool.eq_iff_iff, decide_eq_true_iff]
  cases order <;> simp [behind, key, TsRange.contains]

theorem Order.shown_injective (order : Order) : Function.Injective order.shown := by
  cases order with
  | asc => exact Function.injective_id
  | desc => exact reverse_injective

section

variable (parseIsoMs : CStr → Option ℤ) (db : List Row) (accA accB : CStr) (limit : ℤ)

def Replies (cmd : HistoryCommand) (filter : HistoryFilter) (page : List Row) : Prop :=
  ∃ select, Answers db select ∧ pmhSendHistory parseIsoMs db select accA accB cmd filter = page

/-- The filter of a command with a `msgid` as its anchor, or with none. -/
def anchored (msgid : Option CStr) : HistoryFilter := ⟨none, msgid, none, none, none, limit⟩

/-- What is received, in the order of reading, by a command and by reading on behind the last message
received until nothing is returned. From the end of a conversation, this is the oldest one received,
and reading on is `BEFORE`. -/
inductive Reads (order : Order) : HistoryCommand → HistoryFilter → List Row → Prop
  | done {cmd : HistoryCommand} {filter : HistoryFilter}
      (h : Replies parseIsoMs db accA accB cmd filter []) : Reads order cmd filter []
  | more {cmd : HistoryCommand} {filter : HistoryFilter} {front received : List Row} {last : Row}
      (h : Replies parseIsoMs db accA accB cmd filter (order.shown (front ++ [last])))
      (hrest : Reads order order.further (anchored limit last.msgid) received) :
      Reads order cmd filter (front ++ last :: received)

end

/-- The messages of a conversation have different ids. -/
structure Identified (rows : List Row) : Prop where
  msgid : ∀ r ∈ rows, r.msgid.any (· ≠ CStr.empty)
  nodup : (rows.map Row.msgid).Nodup

/-- Every message once, in the order of the times. -/
structure Visits (rows received : List Row) : Prop where
  perm : received.Perm rows
  sorted : received.Pairwise fun r s => r.tsMs ≤ s.tsMs

variable {parseIsoMs : CStr → Option ℤ} {db : List Row} {accA accB : CStr} {limit : ℤ}

/-- The limit is positive, and not larger than the array for the rows. -/
theorem pageLimit_spec (limit : ℤ) : 0 < (pageLimit limit).toNat ∧
    (pageLimit limit).toNat ≤ dmhMaxLimit := by
  unfold pageLimit dmhMaxLimit
  split_ifs <;> omega

theorem pmhResolveBound_msgid (hid : Identified (conversation db accA accB)) {r : Row}
    (hr : r ∈ conversation db accA accB) :
    pmhResolveBound parseIsoMs db accA accB none r.msgid = some r.tsMs := by
  obtain ⟨id, hmsgid, hne⟩ := (Option.any_eq_true _ _).mp (hid.msgid r hr)
  have hfind : (conversation db accA accB).find? (fun s => s.msgid = some id) = some r := by
    rw [← hmsgid]
    exact Keyed.find_of_mem Row.msgid hid.nodup hr
  have hfilter : (some id).filter (· ≠ CStr.empty) = some id := by rw [Option.filter_some, if_pos hne]
  unfold pmhResolveBound
  rw [hmsgid, hfilter]
  dsimp only [Option.filter_none]
  rw [hfind]
  rfl

variable {cmd : HistoryCommand} {filter : HistoryFilter}

theorem replies_iff {q : Query} (hlimit : q.limit.toNat ≤ dmhMaxLimit)
    (hsend : ∀ select, pmhSendHistory parseIsoMs db select accA accB cmd filter =
      match q.order with
      | .asc => select q
      | .desc => flipped (select q)) (page : List Row) :
    Replies parseIsoMs db accA accB cmd filter page ↔
      ∃ sorted : List Row, Paging.Sorted q.order.key sorted ∧ sorted.Perm (q.rows db) ∧
        page = q.order.shown (sorted.take q.limit.toNat) := by
  have hle (sorted : List Row) : (sorted.Pairwise fun r s => q.order.le r.tsMs s.tsMs) ↔
      Paging.Sorted q.order.key sorted := by
    simp only [le_iff]
    rfl
  -- The array has room for all rows of the query.
  have hshown (sorted : List Row) (select : Query → List Row)
      (heq : select q = sorted.take q.limit.toNat) :
      pmhSendHistory parseIsoMs db select accA accB cmd filter =
        q.order.shown (sorted.take q.limit.toNat) := by
    rw [hsend, heq]
    cases q.order with
    | asc => rfl
    | desc => rw [flipped, take_take, min_eq_right hlimit, shown]
  constructor
  · rintro ⟨select, hselect, rfl⟩
    obtain ⟨sorted, hperm, hsorted, heq⟩ := hselect q
    exact ⟨sorted, (hle sorted).mp hsorted, hperm, hshown sorted select heq⟩
  · rintro ⟨sorted, hsorted, hperm, rfl⟩
    obtain ⟨select, hselect, heq⟩ := exists_answers db q hperm ((hle sorted).mpr hsorted)
    exact ⟨select, hselect, hshown sorted select heq⟩

variable {rows : List Row} {order : Order} {received : List Row}

theorem mem_beyond {k : ℤ} {r : Row} (hr : r ∈ beyond order.key k rows) :
    r ∈ rows ∧ beyond order.key (order.key r) (beyond order.key k rows) =
      beyond order.key (order.key r) rows := by
  obtain ⟨hmem, hlt⟩ := mem_filter.mp hr
  exact ⟨hmem, beyond_beyond (of_decide_eq_true hlt).le rows⟩

def times (rows : List Row) : List ℤ := (rows.map Row.tsMs).insertionSort (· ≤ ·)

/-- The replies to a command are the first pages of `rows` in an order. -/
def Asks (parseIsoMs : CStr → Option ℤ) (db : List Row) (accA accB : CStr) (limit : ℤ)
    (order : Order) (cmd : HistoryCommand) (filter : HistoryFilter) (rows : List Row) : Prop :=
  ∀ page, Replies parseIsoMs db accA accB cmd filter page ↔
    ∃ sorted : List Row, Paging.Sorted order.key sorted ∧ sorted.Perm rows ∧
      page = order.shown (sorted.take (pageLimit limit).toNat)

/-- `LATEST` without an anchor asks for all of a conversation. -/
theorem asks_latest : Asks parseIsoMs db accA accB limit .desc .latest (anchored limit none)
    (conversation db accA accB) := by
  intro page
  rw [replies_iff (q := ⟨accA, accB, .any, .desc, pageLimit limit⟩) (pageLimit_spec limit).2
    fun _ => rfl]
  simp [Query.rows, TsRange.contains]

section

variable (hid : Identified (conversation db accA accB))
include hid

theorem asks_further (order : Order) {r : Row} (hr : r ∈ conversation db accA accB) :
    Asks parseIsoMs db accA accB limit order order.further (anchored limit r.msgid)
      (beyond order.key (order.key r) (conversation db accA accB)) := by
  intro page
  have hbound : pmhResolveBound parseIsoMs db accA accB none r.msgid = some r.tsMs :=
    pmhResolveBound_msgid hid hr
  rw [replies_iff (q := ⟨accA, accB, order.behind r.tsMs, order, pageLimit limit⟩)
    (pageLimit_spec limit).2, Query.rows, filter_behind]
  intro select
  cases order <;> simp [pmhSendHistory, anchored, further, behind, hbound]

section

variable (hasks : Asks parseIsoMs db accA accB limit order cmd filter rows)
  (hrows : ∀ r ∈ rows, r ∈ conversation db accA accB ∧ beyond order.key (order.key r) rows =
    beyond order.key (order.key r) (conversation db accA accB))
include hasks hrows

theorem pages_of_reads (h : Reads parseIsoMs db accA accB limit order cmd filter received) :
    Pages order.key (pageLimit limit).toNat rows received := by
  induction h generalizing rows with
  | done h =>
    -- An empty page means that there are no rows, as the limit is positive.
    obtain ⟨sorted, -, hperm, hpage⟩ := (hasks []).mp h
    have htake := order.shown_injective (by cases order <;> exact hpage)
    rcases take_eq_nil_iff.mp htake.symm with hzero | rfl
    · exact absurd hzero (pageLimit_spec limit).1.ne'
    · obtain rfl := nil_perm.mp hperm
      exact Pages.done
  | @more cmd filter front received last h hrest ih =>
    obtain ⟨sorted, hsorted, hperm, hpage⟩ := (hasks _).mp h
    have htake := (order.shown_injective hpage).symm
    have hmem : last ∈ rows := by
      have hlast : last ∈ sorted.take (pageLimit limit).toNat := by simp [htake]
      exact hperm.subset (mem_of_mem_take hlast)
    obtain ⟨hconv, hbeyond⟩ := hrows last hmem
    refine Pages.more hperm hsorted htake ?_
    rw [hbeyond]
    exact ih (asks_further hid order hconv) fun r hr => mem_beyond hr

theorem exists_reads :
    ∃ received, Reads parseIsoMs db accA accB limit order cmd filter received := by
  -- Induction on the number of rows: the last message of a page is not behind itself.
  induction hn : rows.length using Nat.strong_induction_on generalizing cmd filter rows with
  | _ n ih =>
    obtain ⟨sorted, hperm, hsorted⟩ := exists_sorted order.key rows
    have hreply := (hasks _).mpr ⟨sorted, hsorted, hperm, rfl⟩
    rcases eq_nil_or_concat (sorted.take (pageLimit limit).toNat) with hnil | ⟨front, last, hcat⟩
    · rw [hnil] at hreply
      exact ⟨[], Reads.done (by cases order <;> exact hreply)⟩
    rw [hcat, concat_eq_append] at hreply
    have hmem : last ∈ rows := by
      have hlast : last ∈ sorted.take (pageLimit limit).toNat := by simp [hcat]
      exact hperm.subset (mem_of_mem_take hlast)
    obtain ⟨hconv, hbeyond⟩ := hrows last hmem
    have hless : (beyond order.key (order.key last) (conversation db accA accB)).length < n := by
      rw [← hbeyond, ← hn]
      exact length_filter_lt_length_iff_exists.mpr ⟨last, hmem, by simp⟩
    obtain ⟨received, hreceived⟩ := ih _ hless (asks_further hid order hconv)
      (fun r hr => mem_beyond hr) rfl
    exact ⟨_, Reads.more hreply hreceived⟩

end

/-- A reading from the end of the conversation is complete, exactly if no page ends between two
messages of the same time. -/
theorem visits_reverse_iff
    (h : Reads parseIsoMs db accA accB limit .desc .latest (anchored limit none) received) :
    Visits (conversation db accA accB) received.reverse ↔
      AlignedAt (pageLimit limit).toNat (pageLimit limit).toNat
        (times (conversation db accA accB)).reverse := by
  have hpages := pages_of_reads hid asks_latest (fun r hr => ⟨hr, rfl⟩) h
  have hperm : ((times (conversation db accA accB)).reverse.map (- ·)).Perm
      ((conversation db accA accB).map (key .desc)) := by
    have hkeys : (conversation db accA accB).map (key .desc) =
        ((conversation db accA accB).map Row.tsMs).map (- ·) := by simp [key]
    rw [hkeys]
    exact ((reverse_perm _).trans (perm_insertionSort _ _)).map _
  have hle : ((times (conversation db accA accB)).reverse.map (- ·)).Pairwise (· ≤ ·) := by
    rw [pairwise_map, pairwise_reverse]
    exact (pairwise_insertionSort (· ≤ ·) _).imp fun h => by simpa using h
  have hiff := pages_perm_iff (pageLimit_spec limit).1 hpages hperm hle
  rw [alignedAt_map neg_injective] at hiff
  rw [← hiff]
  refine ⟨fun hv => (reverse_perm _).symm.trans hv.perm, fun hp => ⟨?_, ?_⟩⟩
  · exact (reverse_perm _).trans hp
  · rw [pairwise_reverse]
    exact (pages_spec hpages).1.imp fun h => by simpa [key] using h

/-- A reading from the first message on is complete, exactly if neither the first message nor any page
is followed by a message of the same time. -/
theorem visits_cons_iff {first : Row} (hfirst : first ∈ conversation db accA accB)
    (hmin : ∀ r ∈ conversation db accA accB, first.tsMs ≤ r.tsMs)
    (h : Reads parseIsoMs db accA accB limit .asc .after (anchored limit first.msgid) received) :
    Visits (conversation db accA accB) (first :: received) ↔
      AlignedAt 1 (pageLimit limit).toNat (times (conversation db accA accB)) := by
  have hpages := pages_of_reads hid (asks_further hid .asc hfirst) (fun r hr => mem_beyond hr) h
  have hiff := cons_pages_perm_iff (pageLimit_spec limit).1 hfirst hmin hpages
    (perm_insertionSort _ _) (pairwise_insertionSort (· ≤ ·) _)
  rw [times, ← hiff]
  refine ⟨Visits.perm, fun hp => ⟨hp, pairwise_cons.mpr ⟨fun r hr => ?_, ?_⟩⟩⟩
  · exact hmin r (hp.subset (mem_cons_of_mem _ hr))
  · exact (pages_spec hpages).1

end

theorem exists_first (h : rows ≠ []) : ∃ first ∈ rows, ∀ r ∈ rows, first.tsMs ≤ r.tsMs := by
  obtain ⟨sorted, hperm, hsorted⟩ := exists_sorted Row.tsMs rows
  cases sorted with
  | nil => exact absurd (nil_perm.mp hperm) h
  | cons first rest =>
    refine ⟨first, hperm.subset mem_cons_self, fun r hr => ?_⟩
    rcases mem_cons.mp (hperm.symm.subset hr) with rfl | hr
    · exact le_rfl
    · exact (pairwise_cons.mp hsorted).1 r hr

/-- Reading a conversation from its end, and from its first message on, comes to an end, and yields
every message once and in order. -/
structure PagingComplete (parseIsoMs : CStr → Option ℤ) (db : List Row) (accA accB : CStr)
    (limit : ℤ) : Prop where
  /-- Reading comes to an end with `LATEST` and `BEFORE`. -/
  back_ends : ∃ received,
    Reads parseIsoMs db accA accB limit .desc .latest (anchored limit none) received
  back : ∀ received,
    Reads parseIsoMs db accA accB limit .desc .latest (anchored limit none) received →
      Visits (conversation db accA accB) received.reverse
  /-- Reading comes to an end with `AFTER`. -/
  forth_ends : ∀ first ∈ conversation db accA accB,
    ∃ received, Reads parseIsoMs db accA accB limit .asc .after (anchored limit first.msgid) received
  forth : ∀ first ∈ conversation db accA accB,
    (∀ r ∈ conversation db accA accB, first.tsMs ≤ r.tsMs) → ∀ received,
    Reads parseIsoMs db accA accB limit .asc .after (anchored limit first.msgid) received →
      Visits (conversation db accA accB) (first :: received)

/-- Paging visits every message once and in order, exactly if no page ends between two messages of the
same time: from the end, a cut behind each full page, and from the first message on, a cut behind the
first message and behind each full page. -/
theorem pagingComplete_iff (parseIsoMs : CStr → Option ℤ) {db : List Row} {accA accB : CStr}
    (hid : Identified (conversation db accA accB)) {limit : ℤ} (hlimit : 1 ≤ limit) :
    PagingComplete parseIsoMs db accA accB limit ↔
      AlignedAt (min limit 100).toNat (min limit 100).toNat
        (times (conversation db accA accB)).reverse ∧
      AlignedAt 1 (min limit 100).toNat (times (conversation db accA accB)) := by
  have hpage : pageLimit limit = min limit 100 := by
    unfold pageLimit dmhMaxLimit
    split_ifs <;> omega
  rw [← hpage]
  have hback : ∃ received,
      Reads parseIsoMs db accA accB limit .desc .latest (anchored limit none) received :=
    exists_reads hid asks_latest fun r hr => ⟨hr, rfl⟩
  have hforth : ∀ first ∈ conversation db accA accB, ∃ received,
      Reads parseIsoMs db accA accB limit .asc .after (anchored limit first.msgid) received :=
    fun first hfirst => exists_reads hid (asks_further hid .asc hfirst) fun r hr => mem_beyond hr
  constructor
  · intro hcomplete
    constructor
    · obtain ⟨received, hreads⟩ := hback
      exact (visits_reverse_iff hid hreads).mp (hcomplete.back received hreads)
    · -- An empty conversation has no first message, and no cuts.
      rcases hrows : conversation db accA accB with _ | ⟨r, rows⟩
      · exact fun k hk => absurd hk (Nat.not_lt_zero k)
      obtain ⟨first, hfirst, hmin⟩ := exists_first (h := hrows ▸ cons_ne_nil r rows)
      obtain ⟨received, hreads⟩ := hforth first hfirst
      rw [← hrows]
      exact (visits_cons_iff hid hfirst hmin hreads).mp
        (hcomplete.forth first hfirst hmin received hreads)
  · rintro ⟨hend, hstart⟩
    exact
      { back_ends := hback
        back := fun received hreads => (visits_reverse_iff hid hreads).mpr hend
        forth_ends := hforth
        forth := fun first hfirst hmin received hreads =>
          (visits_cons_iff hid hfirst hmin hreads).mpr hstart }

/-- A name or an id of one character. -/
def exampleText (c : ℕ) : CStr := .ofBuffer [97 + UInt8.ofNat c]

/-- A message from one account to another, with its id and the second of its arrival. -/
def exampleMessage (db : List Row) (id : ℕ) (now : ℤ) : List Row :=
  pmhUsermsg db (some (exampleText 0)) (some (exampleText 1))
    [⟨History.msgidName, some (exampleText id)⟩] now (exampleText id)

/-- Two messages in different seconds. -/
def exampleApart : List Row := exampleMessage (exampleMessage [] 2 100) 3 101

def exampleTogether : List Row := exampleMessage (exampleMessage [] 2 100) 3 100

/-- Messages in different seconds are all visited, one by one. -/
theorem pagingComplete_apart :
    PagingComplete (fun _ => none) exampleApart (exampleText 0) (exampleText 1) 1 := by
  exact (pagingComplete_iff _ ⟨by decide +kernel, by decide +kernel⟩ le_rfl).mpr (by decide +kernel)

/-- Of two messages in the same second, one is not visited by pages of one message. -/
theorem not_pagingComplete_together :
    ¬ PagingComplete (fun _ => none) exampleTogether (exampleText 0) (exampleText 1) 1 := by
  intro hcomplete
  obtain ⟨received, hreads⟩ := hcomplete.back_ends
  have haligned := (visits_reverse_iff ⟨by decide +kernel, by decide +kernel⟩ hreads).mp
    (hcomplete.back received hreads)
  exact absurd haligned (by decide +kernel)

end ObbyIRCd.PmHistory
