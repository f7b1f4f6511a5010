import Mathlib.Algebra.Order.BigOperators.Group.List
import Mathlib.Data.List.Infix
import ObbyIRCd.History.Model

/-!
# What holds of a history object in every state

`Inv` collects what every call keeps: the list is ordered by time, the counter is the number of
lines in it, and there are no more of them than the limit, or there is only one entry. The loops
have one lemma each: deleting and cleaning up leave a sublist (`hbmHistoryDeleteLoop_spec`,
`cleanupTimeLoop_spec`, `cleanupLinesLoop_spec`), and making room leaves the longest end of the list
that fits (`makeRoom_spec`). Inserting is one walk from the tail (`hbmHistoryLink_eq`).

That no message is stored twice is not among these. The walk stops at the first entry that is not
later than the message, so of several entries at the message's own time it compares only the last
one. `noDuplicates_link` says when that is enough, and `run_spec` is about every run.
-/

namespace ObbyIRCd.History

open List Option HistoryLogLine History

variable {L : Libc}

/-- The order of the list: by seconds, and by the exact time within a second. -/
def HistoryLogLine.Before (a b : HistoryLogLine L) : Prop :=
  a.t < b.t ∨ a.t = b.t ∧ (CStr.strcmp a.time b.time).isLE

def totalLines (lines : List (HistoryLogLine L)) : ℕ := (lines.map HistoryLogLine.numLines).sum

@[simp]
theorem totalLines_nil : totalLines ([] : List (HistoryLogLine L)) = 0 := rfl

@[simp]
theorem totalLines_cons (l : HistoryLogLine L) (lines : List (HistoryLogLine L)) :
    totalLines (l :: lines) = l.numLines + totalLines lines := by simp [totalLines]

@[simp]
theorem totalLines_append (a b : List (HistoryLogLine L)) :
    totalLines (a ++ b) = totalLines a + totalLines b := by simp [totalLines]

/-- What every call keeps. -/
structure HistoryLogObject.Inv (h : HistoryLogObject L) : Prop where
  ordered : h.lines.Pairwise HistoryLogLine.Before
  count : h.numLines = totalLines h.lines
  /-- The limit is kept, but for a single entry. -/
  limit : h.numLines ≤ h.maxLines ∨ h.lines.length = 1

/-- Two entries with the same `msgid` and the same time. -/
def HistoryLogLine.Same (a b : HistoryLogLine L) : Prop := a.msgid = b.msgid ∧ a.time = b.time

variable (h : HistoryLogObject L)

/-- No message is stored twice. -/
def HistoryLogObject.NoDuplicates : Prop :=
  h.lines.Pairwise fun a b => ¬ a.Same b

theorem HistoryLogLine.Before.trans {a b c : HistoryLogLine L} (hab : a.Before b)
    (hbc : b.Before c) : a.Before c := by
  rcases hab with hab | ⟨hab, hab'⟩
  · rcases hbc with hbc | ⟨hbc, -⟩
    · exact .inl (hab.trans hbc)
    · exact .inl (hbc ▸ hab)
  · rcases hbc with hbc | ⟨hbc, hbc'⟩
    · exact .inl (hab ▸ hbc)
    · exact .inr ⟨hab.trans hbc, Std.TransCmp.isLE_trans hab' hbc'⟩

variable {a b : HistoryLogLine L}

theorem HistoryLogLine.before_of_not (h : ¬ a.Before b) : b.Before a := by
  unfold Before at h ⊢
  push Not at h
  obtain ⟨h1, h2⟩ := h
  rcases h1.lt_or_eq with hlt | heq
  · exact .inl hlt
  · refine .inr ⟨heq, Std.OrientedCmp.isLE_of_isGE ?_⟩
    rcases hcmp : CStr.strcmp a.time b.time <;> simp_all

theorem HistoryLogLine.before_of_time_eq (h : a.time = b.time) :
    a.Before b := by
  refine .inr ⟨by rw [a.t_eq, b.t_eq, h], ?_⟩
  rw [h]
  exact Std.ReflCmp.isLE_rfl

variable {l : HistoryLogLine L} {lines : List (HistoryLogLine L)}

variable {e : HistoryLogLine L} {lines' : List (HistoryLogLine L)}

/-- The walk goes on behind the entries that are later and have another `msgid`. -/
theorem walkBack_eq_next : walkBack l e = .next ↔ ¬ e.Before l ∧ e.msgid ≠ l.msgid := by
  unfold walkBack Before
  split_ifs <;> simp_all

theorem before_of_walkBack_eq_stop (h : walkBack l e = .stop) :
    e.Before l ∧ (e.t < l.t ∨ e.msgid ≠ l.msgid) := by
  unfold walkBack at h
  unfold Before
  split_ifs at h <;> simp_all

/-- The walk rejects the message's own `msgid`. -/
theorem walkBack_eq_reject : walkBack l e = .reject ↔ ¬ e.t < l.t ∧ e.msgid = l.msgid := by
  unfold walkBack
  split_ifs <;> simp_all

/-- Appending to the tail is what the walk does as well: linking is one walk from the tail. -/
theorem hbmHistoryLink_eq (lines : List (HistoryLogLine L)) (l : HistoryLogLine L) :
    hbmHistoryLink lines l = hbmHistoryAddLineInTime lines l := by
  unfold hbmHistoryLink
  rcases eq_nil_or_concat lines with rfl | ⟨init, tail, rfl⟩
  · simp [hbmHistoryAddLineInTime, insertWalk]
  simp only [concat_eq_append, getLast?_concat]
  split_ifs with ht
  · have hstop : walkBack l tail = .stop := by rw [walkBack, if_pos ht]
    simp [hbmHistoryAddLineInTime, insertWalk, hstop]
  · rfl

/-- Where a line is linked in: behind `earlier`, all of which is not later, and before `later`. -/
theorem hbmHistoryLink_eq_some (h : hbmHistoryLink lines l = some lines') :
    ∃ earlier later, lines = earlier ++ later ∧ lines' = earlier ++ l :: later ∧
      (∀ e ∈ later, ¬ e.Before l ∧ e.msgid ≠ l.msgid) ∧
      ∀ e ∈ earlier.getLast?, e.Before l ∧ (e.t < l.t ∨ e.msgid ≠ l.msgid) := by
  rw [hbmHistoryLink_eq, hbmHistoryAddLineInTime, map_eq_some_iff] at h
  obtain ⟨r, hr, rfl⟩ := h
  obtain ⟨passed, rest, hlist, hpassed, hrest, rfl⟩ := insertWalk_eq_some.mp hr
  refine ⟨rest.reverse, passed.reverse, ?_, by simp, ?_, ?_⟩
  · rw [← reverse_append, ← hlist, reverse_reverse]
  · intro e he
    exact walkBack_eq_next.mp (hpassed e (mem_reverse.mp he))
  · intro e he
    rw [getLast?_reverse] at he
    exact before_of_walkBack_eq_stop (hrest e he)

/-- A line is rejected for an entry of its `msgid` with only later ones behind it. -/
theorem hbmHistoryLink_eq_none (h : hbmHistoryLink lines l = none) :
    ∃ f after, f :: after <:+ lines ∧ f.msgid = l.msgid ∧ ∀ x ∈ after, ¬ x.Before l := by
  rw [hbmHistoryLink_eq, hbmHistoryAddLineInTime, map_eq_none_iff] at h
  obtain ⟨passed, f, rest, hlist, hpassed, hf⟩ := insertWalk_eq_none.mp h
  refine ⟨f, passed.reverse, ⟨rest.reverse, ?_⟩, (walkBack_eq_reject.mp hf).2, fun x hx => ?_⟩
  · rw [← reverse_reverse lines, hlist]
    simp
  · exact (walkBack_eq_next.mp (hpassed x (mem_reverse.mp hx))).1

theorem ordered_hbmHistoryLink
    (ho : lines.Pairwise Before) (h : hbmHistoryLink lines l = some lines') :
    lines'.Pairwise Before := by
  rw [hbmHistoryLink_eq, hbmHistoryAddLineInTime, map_eq_some_iff] at h
  obtain ⟨r, hr, rfl⟩ := h
  rw [pairwise_reverse]
  refine pairwise_insertWalk (R := fun a b => Before b a)
    (fun a b c hab hbc => hbc.trans hab) (pairwise_reverse.mpr ho) ?_ ?_ hr
  · intro e he
    exact before_of_not (walkBack_eq_next.mp he).1
  · intro e he
    exact (before_of_walkBack_eq_stop he).1

/-- What the walk can see of a message that is stored already: an entry of its `msgid` has only
later entries behind it. -/
def Seen (lines : List (HistoryLogLine L)) (l : HistoryLogLine L) : Prop :=
  ∃ f after, f :: after <:+ lines ∧ f.msgid = l.msgid ∧ ∀ x ∈ after, ¬ x.Before l

/-- Linking a line into an ordered list without duplicates makes none, exactly when the walk can see
the message wherever it is stored already. -/
theorem noDuplicates_link (ho : lines.Pairwise Before) (hd : lines.Pairwise fun a b => ¬ a.Same b)
    (l : HistoryLogLine L) :
    ((hbmHistoryLink lines l).getD lines).Pairwise (fun a b => ¬ a.Same b) ↔
      ∀ e ∈ lines, e.Same l → Seen lines l := by
  rcases hlink : hbmHistoryLink lines l with _ | lines'
  · simp only [getD_none, hd, true_iff]
    intro e he hsame
    exact hbmHistoryLink_eq_none hlink
  · obtain ⟨earlier, later, rfl, rfl, hlater, hlast⟩ := hbmHistoryLink_eq_some hlink
    have hperm : (earlier ++ l :: later).Perm (l :: (earlier ++ later)) := perm_middle
    have hsymm : ∀ {a b : HistoryLogLine L}, ¬ a.Same b → ¬ b.Same a :=
      fun hab hba => hab ⟨hba.1.symm, hba.2.symm⟩
    rw [getD_some, hperm.pairwise_iff hsymm, pairwise_cons]
    constructor
    · rintro ⟨hnew, -⟩ e he hsame
      exact absurd ⟨hsame.1.symm, hsame.2.symm⟩ (hnew e he)
    · -- Where the walk stopped it has seen nothing, so the message is not stored.
      intro hseen
      refine ⟨fun e he hsame => ?_, hd⟩
      have hel := before_of_time_eq hsame.2.symm
      obtain ⟨f, after, hsuffix, hmsgid, hafter⟩ := hseen e he ⟨hsame.1.symm, hsame.2.symm⟩
      have hearlier : e ∈ earlier := by
        rcases mem_append.mp he with h | h
        · exact h
        · exact absurd hel (hlater e h).1
      rcases eq_nil_or_concat earlier with rfl | ⟨init, s, rfl⟩
      · simp at hearlier
      obtain ⟨hs, hs'⟩ := hlast s (by simp)
      rw [concat_eq_append, append_assoc] at hsuffix ho
      -- The entry where the walk stopped has another `msgid`.
      have hne : s.msgid ≠ l.msgid := by
        rcases hs' with hlt | hne
        · have het : e.t = l.t := by rw [e.t_eq, l.t_eq, hsame.2]
          have hle : e.t ≤ s.t := by
            rcases (by simpa using hearlier : e ∈ init ∨ e = s) with h | rfl
            · rcases (pairwise_append.mp ho).2.2 e h s (by simp) with h | h
              · exact h.le
              · exact h.1.le
            · exact le_rfl
          omega
        · exact hne
      rcases suffix_or_suffix_of_suffix hsuffix (suffix_append init (s :: later)) with
        hf | hf
      · rcases suffix_cons_iff.mp hf with heq | hf
        · exact hne ((cons.inj heq).1 ▸ hmsgid)
        · exact (hlater f (hf.subset (by simp))).2 hmsgid
      · rcases suffix_cons_iff.mp hf with heq | hf
        · exact hne ((cons.inj heq).1 ▸ hmsgid)
        · exact hafter s (hf.subset (by simp)) hs

section

variable {r rest : List (HistoryLogLine L)} {k n : ℕ}

theorem sub_numLines : k + totalLines (l :: rest) - l.numLines = k + totalLines rest := by
  rw [totalLines_cons]
  omega

theorem keeps_cons (h : r.Sublist rest ∧ n = k + l.numLines + totalLines r) :
    (l :: r).Sublist (l :: rest) ∧ n = k + totalLines (l :: r) :=
  ⟨h.1.cons_cons l, by rw [h.2, totalLines_cons, Nat.add_assoc]⟩

end

/-- Deleting leaves a sublist, and takes the lines of the others off the counter. -/
theorem hbmHistoryDeleteLoop_spec (filter : HistoryFilter) (lines : List (HistoryLogLine L))
    (started : Bool) (k : ℕ) (deleted rejected : ℤ) :
    let r := hbmHistoryDeleteLoop filter lines started (k + totalLines lines) deleted rejected
    r.1.Sublist lines ∧ r.2.1 = k + totalLines r.1 := by
  induction lines generalizing started k deleted rejected with
  | nil => simp [hbmHistoryDeleteLoop]
  | cons l rest ih =>
    have hskip (started : Bool) (deleted rejected : ℤ) :
        let r := hbmHistoryDeleteLoop filter rest started (k + totalLines (l :: rest)) deleted
          rejected
        (l :: r.1).Sublist (l :: rest) ∧ r.2.1 = k + totalLines (l :: r.1) := by
      rw [totalLines_cons, ← Nat.add_assoc]
      exact keeps_cons (ih started (k + l.numLines) deleted rejected)
    unfold hbmHistoryDeleteLoop
    split_ifs
    · exact ⟨.refl _, rfl⟩
    · exact hskip true deleted (rejected + 1)
    · exact ⟨sublist_cons_self l rest, sub_numLines⟩
    · rw [sub_numLines]
      exact (ih true k (deleted + 1) rejected).imp_left (.cons l)
    · exact ⟨.refl _, rfl⟩
    · exact hskip false deleted rejected

theorem cleanupTimeLoop_spec (redline : ℤ) (lines : List (HistoryLogLine L)) (k : ℕ) (o : ℤ) :
    let r := cleanupTimeLoop redline lines (k + totalLines lines) o
    r.1.Sublist lines ∧ r.2.1 = k + totalLines r.1 := by
  induction lines generalizing k o with
  | nil => simp [cleanupTimeLoop]
  | cons l rest ih =>
    unfold cleanupTimeLoop
    split_ifs
    · rw [sub_numLines]
      exact (ih k o).imp_left (.cons l)
    · rw [totalLines_cons, ← Nat.add_assoc]
      exact keeps_cons (ih (k + l.numLines) (oldest o l.t))

/-- Within the limit, cleaning up by the number of lines leaves the list as it is. -/
theorem cleanupLinesLoop_of_le {maxLines n : ℕ} (h : n ≤ maxLines)
    (lines : List (HistoryLogLine L)) (o : ℤ) :
    (cleanupLinesLoop maxLines lines n o).1 = lines ∧
      (cleanupLinesLoop maxLines lines n o).2.1 = n := by
  induction lines generalizing o with
  | nil => simp [cleanupLinesLoop]
  | cons l rest ih =>
    unfold cleanupLinesLoop
    rw [if_neg (by omega)]
    exact ⟨congrArg (l :: ·) (ih (oldest o l.t)).1, (ih (oldest o l.t)).2⟩

/-- Cleaning up by the number of lines leaves an end of the list that is within the limit, or one
entry. -/
theorem cleanupLinesLoop_spec (maxLines : ℕ) (lines : List (HistoryLogLine L)) (o : ℤ) :
    let r := cleanupLinesLoop maxLines lines (totalLines lines) o
    r.1.Sublist lines ∧ r.2.1 = totalLines r.1 ∧ (r.2.1 ≤ maxLines ∨ r.1.length = 1) := by
  induction lines generalizing o with
  | nil => simp [cleanupLinesLoop]
  | cons l rest ih =>
    by_cases hle : totalLines (l :: rest) ≤ maxLines
    · obtain ⟨h1, h2⟩ := cleanupLinesLoop_of_le hle (l :: rest) o
      exact ⟨by rw [h1], by rw [h2, h1], .inl (h2.trans_le hle)⟩
    unfold cleanupLinesLoop
    rw [if_pos (by omega)]
    split_ifs with hrest
    · -- The last entry stays.
      subst hrest
      exact ⟨.refl _, rfl, .inr rfl⟩
    · rw [totalLines_cons, Nat.add_sub_cancel_left]
      exact (ih o).imp_left (.cons l)

/-- Making room leaves the longest end of the list that leaves room for `n` lines, and nothing if
none does. -/
theorem makeRoom_spec (n : ℕ) (h : HistoryLogObject L) (lines : List (HistoryLogLine L))
    (hcount : h.numLines = totalLines lines) :
    let h' := makeRoom n h lines
    h'.lines <:+ lines ∧ h'.numLines = totalLines h'.lines ∧ h'.maxLines = h.maxLines ∧
      (h'.lines = [] ∨ totalLines h'.lines + n ≤ h.maxLines) ∧
      ∀ s, s <:+ lines → totalLines s + n ≤ h.maxLines → s <:+ h'.lines := by
  induction lines generalizing h with
  | nil => simp [makeRoom, hcount]
  | cons l rest ih =>
    unfold makeRoom
    split_ifs with hfull
    · -- The head goes.
      have hcount' : (hbmHistoryDelHead h l rest).numLines = totalLines rest := by
        simp [hbmHistoryDelHead, hcount]
      obtain ⟨h1, h2, h3, h4, h5⟩ := ih (hbmHistoryDelHead h l rest) hcount'
      refine ⟨h1.trans (suffix_cons l rest), h2, h3, h4, fun s hs hle => ?_⟩
      rcases suffix_cons_iff.mp hs with rfl | hs
      · omega
      · exact h5 s hs hle
    · have hle : totalLines (l :: rest) + n ≤ h.maxLines := by omega
      exact ⟨suffix_refl _, hcount, rfl, .inr hle, fun s hs _ => hs⟩

theorem HistoryLogObject.Inv.defaultLimits {h : HistoryLogObject L} (hi : h.Inv) :
    (defaultLimits h).lines = h.lines ∧
      (defaultLimits h).numLines = totalLines h.lines ∧
      0 < (defaultLimits h).maxLines := by
  unfold History.defaultLimits
  split_ifs with h0
  · exact ⟨rfl, hi.count, Nat.succ_pos 49⟩
  · exact ⟨rfl, hi.count, Nat.pos_of_ne_zero h0⟩

theorem limit_of_sublist {a b : List (HistoryLogLine L)} {m : ℕ} (hsub : a.Sublist b)
    (h : totalLines b ≤ m ∨ b.length = 1) : totalLines a ≤ m ∨ a.length = 1 := by
  have hle := (hsub.map numLines).sum_le_sum (by simp)
  rcases h with h | h
  · exact .inl (hle.trans h)
  have hlen := hsub.length_le
  rcases a with _ | ⟨x, a⟩
  · simp
  · right
    simp only [length_cons] at hlen ⊢
    omega

/-- Make room for an entry and add it, the part that both kinds of messages share. -/
def store (l : HistoryLogLine L) : HistoryLogObject L :=
  insertEntry (makeRoom l.numLines (defaultLimits h) h.lines) l

/-- The count of lines follows the list. -/
theorem insertEntry_spec (l : HistoryLogLine L) (hcount : h.numLines = totalLines h.lines) :
    (insertEntry h l).lines = (hbmHistoryLink h.lines l).getD h.lines ∧
      (insertEntry h l).numLines = totalLines (insertEntry h l).lines ∧
      (insertEntry h l).maxLines = h.maxLines := by
  unfold insertEntry hbmHistoryAddLine
  rcases hlink : hbmHistoryLink h.lines l with _ | lines
  · exact ⟨rfl, hcount, rfl⟩
  refine ⟨rfl, ?_, rfl⟩
  obtain ⟨earlier, later, hlines, rfl, -, -⟩ := hbmHistoryLink_eq_some hlink
  have hnum := l.num_lines_eq
  simp only [map_some, hcount, hlines, totalLines_append, totalLines_cons]
  omega

theorem HistoryLogObject.Inv.store {h : HistoryLogObject L} (hi : h.Inv) (l : HistoryLogLine L) :
    (store h l).Inv := by
  obtain ⟨-, hcount, hpos⟩ := hi.defaultLimits
  obtain ⟨h1, h2, h3, h4, -⟩ := makeRoom_spec l.numLines (History.defaultLimits h) h.lines hcount
  unfold History.store
  generalize makeRoom l.numLines (History.defaultLimits h) h.lines = h₁ at h1 h2 h3 h4 ⊢
  have ho := hi.ordered.sublist h1.sublist
  obtain ⟨h5, h6, h7⟩ := insertEntry_spec h₁ l h2
  rcases hlink : hbmHistoryLink h₁.lines l with _ | lines
  · -- A duplicate: only the eviction is left.
    rw [hlink, getD_none] at h5
    refine ⟨h5 ▸ ho, h6, .inl ?_⟩
    rw [h6, h5]
    rcases h4 with h4 | h4
    · simp [h4]
    · omega
  · rw [hlink, getD_some] at h5
    refine ⟨h5 ▸ ordered_hbmHistoryLink ho hlink, h6, ?_⟩
    obtain ⟨earlier, later, hlines, rfl, -, -⟩ := hbmHistoryLink_eq_some hlink
    rw [h6, h5]
    rcases h4 with h4 | h4
    · -- The entry is alone, whatever its size.
      right
      rw [h4] at hlines
      obtain ⟨rfl, rfl⟩ := append_eq_nil_iff.mp hlines.symm
      rfl
    · left
      rw [hlines] at h4
      simp only [totalLines_append, totalLines_cons] at h4 ⊢
      omega

/-- Where adding an entry can go wrong: the same message is stored, not evicted for the entry, and
the walk does not see it. `Sees` says that this is not so. -/
def Sees (l : HistoryLogLine L) : Prop :=
  ∀ e post, e :: post <:+ h.lines →
    totalLines (e :: post) + l.numLines ≤ (defaultLimits h).maxLines → e.Same l → Seen h.lines l

/-- Storing an entry makes no duplicate, exactly when the walk can see the message wherever it is
stored already. -/
theorem noDuplicates_store {h : HistoryLogObject L} (hi : h.Inv) (hd : h.NoDuplicates)
    (l : HistoryLogLine L) : (store h l).NoDuplicates ↔ Sees h l := by
  obtain ⟨-, hcount, -⟩ := hi.defaultLimits
  obtain ⟨h1, h2, h3, h4, h5⟩ := makeRoom_spec l.numLines (defaultLimits h) h.lines hcount
  unfold store HistoryLogObject.NoDuplicates Sees
  generalize makeRoom l.numLines (defaultLimits h) h.lines = h₁ at h1 h2 h3 h4 h5 ⊢
  rw [(insertEntry_spec h₁ l h2).1,
    noDuplicates_link (hi.ordered.sublist h1.sublist) (hd.sublist h1.sublist)]
  constructor
  · intro hseen e post hsuffix hle hsame
    have he : e ∈ h₁.lines := (h5 _ hsuffix hle).subset (by simp)
    obtain ⟨f, after, hf, hmsgid, hafter⟩ := hseen e he hsame
    exact ⟨f, after, hf.trans h1, hmsgid, hafter⟩
  · intro hsees e he hsame
    obtain ⟨pre, post, hsplit⟩ := append_of_mem he
    have hsuffix : e :: post <:+ h₁.lines := ⟨pre, hsplit.symm⟩
    have hle : totalLines (e :: post) + l.numLines ≤ (defaultLimits h).maxLines := by
      rcases h4 with h4 | h4
      · simp [h4] at he
      · rw [hsplit, totalLines_append] at h4
        omega
    obtain ⟨f, after, hf, hmsgid, hafter⟩ := hsees e post (hsuffix.trans h1) hle hsame
    refine ⟨f, after, ?_, hmsgid, hafter⟩
    -- The entry that is seen is not in front of `e`, so it was not evicted either.
    rcases suffix_or_suffix_of_suffix hf (hsuffix.trans h1) with hfe | hef
    · exact hfe.trans hsuffix
    · rcases suffix_cons_iff.mp hef with heq | hef
      · exact heq ▸ hsuffix
      · exact absurd (before_of_time_eq hsame.2) (hafter e (hef.subset (by simp)))

end ObbyIRCd.History
