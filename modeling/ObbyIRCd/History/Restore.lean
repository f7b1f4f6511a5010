import Mathlib.Data.List.Chain
import ObbyIRCd.History.Persist

/-!
# Reading the entries of a history file

Reading takes the file apart as it was written (`readEntries_spec`), so that what it leaves is the
written entries inserted one after the other (`restore`). Two things can go wrong. A string that is
longer than the reader takes makes it fail (`readEntries_short`), and an entry that has the seconds
and the `msgid` of the one before it is dropped as a duplicate: inserted last, it is compared with
the tail. `restore_spec` says that nothing else can go wrong on the way in.
-/

namespace ObbyIRCd.History

open List Option

open Database

variable {L : Libc} {C : Crypto}

/-! ## Reading takes apart what was written -/

/-- Every string of an entry is one that the reader takes. -/
structure HistoryLogLine.Short (l : HistoryLogLine L) : Prop where
  /-- The names and values of the tags. -/
  mtags : ∀ m ∈ l.mtags, m.name.strlen ≤ 10000 ∧ ∀ v ∈ m.value, v.strlen ≤ 10000
  line : l.line.strlen ≤ 10000
  batch : ∀ b ∈ l.nextInBatch, b.line.strlen ≤ 10000

instance (l : HistoryLogLine L) : Decidable l.Short :=
  decidable_of_iff
    ((∀ m ∈ l.mtags, m.name.strlen ≤ 10000 ∧ ∀ v ∈ m.value, v.strlen ≤ 10000) ∧
      l.line.strlen ≤ 10000 ∧ ∀ b ∈ l.nextInBatch, b.line.strlen ≤ 10000)
    ⟨fun h => ⟨h.1, h.2.1, h.2.2⟩, fun h => ⟨h.mtags, h.line, h.batch⟩⟩

theorem readMtags_eq (c : UnrealDB C) (mtags : List MessageTag) :
    readMtags c mtags = (rSafe (unrealdbReadStr c)).bind fun (name, c₁) =>
      (rSafe (unrealdbReadStr c₁)).bind fun (value, c₂) =>
        match name with
        | some name => readMtags c₂ (mtags ++ [⟨name, value⟩])
        | none => if value = none then some (mtags, c₂) else none := by
  rw [readMtags]
  split
  · rename_i h1
    simp [h1]
  rename_i name c₁ h1
  split
  · rename_i h2
    simp [h1, h2]
  rename_i value c₂ h2
  rcases name with _ | name <;> simp [h1, h2]

variable {c : UnrealDB C} {mtags : List MessageTag} {q : List UInt8}

theorem readMtags_spec
    (hshort : ∀ m ∈ mtags, m.name.strlen ≤ 10000 ∧ ∀ v ∈ m.value, v.strlen ≤ 10000)
    (acc : List MessageTag)
    (hr : Reading c ((mtags.flatMap mtagRecords).flatMap encode ++
      (encode (.str none) ++ (encode (.str none) ++ q)))) :
    ∃ c', readMtags c acc = some (acc ++ mtags, c') ∧ Reading c' q := by
  induction mtags generalizing c acc with
  | nil =>
    obtain ⟨c₁, h1, hr⟩ := unrealdbReadStr_spec (by simp) hr
    obtain ⟨c₂, h2, hr⟩ := unrealdbReadStr_spec (by simp) hr
    refine ⟨c₂, ?_, hr⟩
    rw [readMtags_eq]
    simp [rSafe, h1, h2]
  | cons m mtags ih =>
    simp only [flatMap_cons, mtagRecords, cons_append, nil_append, append_assoc] at hr ih
    obtain ⟨hname, hvalue⟩ := hshort m (by simp)
    obtain ⟨c₁, h1, hr⟩ := unrealdbReadStr_spec (by simpa using hname) hr
    obtain ⟨c₂, h2, hr⟩ := unrealdbReadStr_spec (readable_str.mpr hvalue) hr
    obtain ⟨c₃, h3, hr⟩ := ih (fun m' hm' => hshort m' (by simp [hm'])) (acc ++ [m]) hr
    refine ⟨c₃, ?_, hr⟩
    rw [readMtags_eq]
    simpa [rSafe, h1, h2] using h3

theorem readBatch_spec {batch : List BatchLine} (hshort : ∀ b ∈ batch, b.line.strlen ≤ 10000)
    (hr : Reading c ((batch.flatMap batchRecords).flatMap encode ++ q)) :
    ∃ c', readBatch c batch.length = some (batch, c') ∧ Reading c' q := by
  induction batch generalizing c with
  | nil => exact ⟨c, rfl, hr⟩
  | cons b batch ih =>
    simp only [flatMap_cons, batchRecords, cons_append, nil_append, append_assoc] at hr
    obtain ⟨c₁, h1, hr⟩ := unrealdbReadInt32_spec hr
    obtain ⟨c₂, h2, hr⟩ := unrealdbReadStr_spec (by simpa using hshort b (by simp)) hr
    obtain ⟨c₃, h3, hr⟩ := ih (fun b' hb' => hshort b' (by simp [hb'])) hr
    refine ⟨c₃, ?_, hr⟩
    simp [readBatch, rSafe, h1, h2, h3]

def rawOf (l : HistoryLogLine L) : RawEntry :=
  ⟨l.mtags, by simp [TimeValued, l.time_tag], l.line, l.concat, l.nextInBatch⟩

theorem addMissing_of_find {token v : CStr}
    (h : findMtag mtags token = some ⟨token, some v⟩) (value : CStr) :
    addMissing mtags token value = (mtags, v) := by
  simp [addMissing, h]

theorem entry_rawOf (stamp : Stamp) (l : HistoryLogLine L) : (rawOf l).entry L stamp = l := by
  have htime := addMissing_of_find l.time_tag stamp.time
  have hmsgid := addMissing_of_find l.msgid_tag stamp.msgid
  apply HistoryLogLine.ext <;>
    simp [RawEntry.entry, rawOf, hbmDuplicateMtags, htime, hmsgid, l.t_eq, l.num_lines_eq,
      l.num_bytes_eq]

theorem readEntry_spec {l : HistoryLogLine L} (hshort : l.Short) (hcount : l.numLines < 2 ^ 31)
    (hr : Reading c ((entryBody l).flatMap encode ++ q)) :
    ∃ c', readEntry 5001 c = some (rawOf l, c') ∧ Reading c' q := by
  simp only [entryBody, cons_append, flatMap_cons, flatMap_append, flatMap_nil,
    append_assoc, nil_append] at hr
  obtain ⟨c₁, h1, hr⟩ := unrealdbReadInt64_spec hr
  obtain ⟨c₂, h2, hr⟩ := readMtags_spec hshort.mtags [] hr
  obtain ⟨c₃, h3, hr⟩ := unrealdbReadStr_spec (by simpa using hshort.line) hr
  obtain ⟨c₄, h4, hr⟩ := unrealdbReadInt32_spec hr
  obtain ⟨c₅, h5, hr⟩ := unrealdbReadInt32_spec hr
  obtain ⟨c₆, h6, hr⟩ := readBatch_spec hshort.batch hr
  obtain ⟨c₇, h7, hr⟩ := unrealdbReadInt32_spec hr
  refine ⟨c₇, ?_, hr⟩
  have hlen : (UInt32.ofNat l.nextInBatch.length).toNat = l.nextInBatch.length := by
    have hnum := l.num_lines_eq
    rw [UInt32.toNat_ofNat']
    omega
  rw [nil_append] at h2
  have htime : TimeValued l.mtags := (rawOf l).time_valued
  unfold readEntry
  simp only [rSafe, h1, h2, h3, h4, h5, hlen, h6, h7, map_some, bind_eq_bind,
    bind_some, htime, dite_true, ne_eq, not_true_eq_false, if_false]
  rfl

theorem readEntries_eq (version : UInt32) (stamp : ℕ → Stamp) (i : ℕ) (h : HistoryLogObject L)
    (c : UnrealDB C) :
    readEntries version stamp i h c = (rSafe (unrealdbReadInt32 c)).bind fun (magic, c₁) =>
      if magic = magicFileEnd then some h
      else if magic ≠ magicEntryStart then none
      else (readEntry version c₁).bind fun (raw, c₂) =>
        readEntries version stamp (i + 1) (restoreEntry h (raw.entry L (stamp i))) c₂ := by
  rw [readEntries]
  split
  · rename_i h1
    simp [h1]
  rename_i magic c₁ h1
  rw [h1, bind_some]
  dsimp only
  split_ifs
  · rfl
  · rfl
  split
  · rename_i h2
    simp [h2]
  · rename_i h2
    simp [h2]

variable {es : List (HistoryLogLine L)}

/-- The loop over the entries restores them one by one. -/
theorem readEntries_spec (hshort : ∀ e ∈ es, e.Short) (hcount : ∀ e ∈ es, e.numLines < 2 ^ 31)
    (stamp : ℕ → Stamp) (i : ℕ) (h : HistoryLogObject L)
    (hr : Reading c ((es.flatMap entryRecords).flatMap encode ++
      (encode (.int32 magicFileEnd) ++ q))) :
    readEntries 5001 stamp i h c = some (es.foldl restoreEntry h) := by
  induction es generalizing c i h with
  | nil =>
    obtain ⟨c₁, h1, -⟩ := unrealdbReadInt32_spec hr
    rw [readEntries_eq]
    simp [rSafe, h1]
  | cons e es ih =>
    simp only [flatMap_cons, entryRecords, cons_append, flatMap_append, append_assoc] at hr ih
    obtain ⟨c₁, h1, hr⟩ := unrealdbReadInt32_spec hr
    obtain ⟨c₂, h2, hr⟩ := readEntry_spec (hshort e (by simp)) (hcount e (by simp)) hr
    have hrec := ih (fun e' he' => hshort e' (by simp [he'])) (fun e' he' => hcount e' (by simp [he']))
      (i + 1) (restoreEntry h e) hr
    rw [readEntries_eq]
    simp only [rSafe, h1, map_some, bind_some]
    rw [h2, bind_some, entry_rawOf, hrec]
    rfl

/-! ## Inserting the entries again -/

/-- The neighbours of a list differ in their seconds or in their `msgid`. -/
def NeighboursDiffer (es : List (HistoryLogLine L)) : Prop :=
  es.IsChain fun a b => ¬ (a.t = b.t ∧ a.msgid = b.msgid)

variable {h : HistoryLogObject L}

/-- Inserting an entry again leaves the limits alone, and adds one entry at most. -/
theorem restoreEntry_spec (hcount : h.numLines = totalLines h.lines) (l : HistoryLogLine L) :
    (restoreEntry h l).numLines = totalLines (restoreEntry h l).lines ∧
      (restoreEntry h l).maxLines = h.maxLines ∧
      (restoreEntry h l).lines.length ≤ h.lines.length + 1 := by
  obtain ⟨h1, h2, h3, -⟩ := makeRoom_spec 1 h h.lines hcount
  obtain ⟨h4, h5, h6⟩ := insertEntry_spec _ l h2
  refine ⟨h5, h6.trans h3, ?_⟩
  unfold restoreEntry
  rw [h4]
  have hlen := h1.length_le
  rcases hlink : hbmHistoryLink (makeRoom 1 h h.lines).lines l with _ | lines
  · rw [getD_none]
    omega
  obtain ⟨earlier, later, heq, rfl, -⟩ := hbmHistoryLink_eq_some hlink
  rw [heq, length_append] at hlen
  rw [getD_some, length_append, length_cons]
  omega

theorem makeRoom_of_le (hroom : h.lines = [] ∨ h.numLines + 1 ≤ h.maxLines) :
    (makeRoom 1 h h.lines).lines = h.lines := by
  rcases hlines : h.lines with _ | ⟨l, rest⟩
  · rfl
  have hle : ¬ h.numLines + 1 > h.maxLines := by
    rcases hroom with h0 | hle
    · simp [hlines] at h0
    · omega
  rw [makeRoom, if_neg hle]

/-- Behind the tail of an ordered list, an entry is appended, unless it has the seconds and the
`msgid` of the tail. -/
theorem hbmHistoryLink_concat {pre : List (HistoryLogLine L)} {e : HistoryLogLine L}
    (ho : (pre ++ [e]).Pairwise HistoryLogLine.Before) :
    hbmHistoryLink pre e =
      if ∃ a ∈ pre.getLast?, a.t = e.t ∧ a.msgid = e.msgid then none else some (pre ++ [e]) := by
  rw [hbmHistoryLink_eq, hbmHistoryAddLineInTime]
  rcases eq_nil_or_concat pre with rfl | ⟨init, a, rfl⟩
  · simp [insertWalk]
  rw [concat_eq_append] at ho ⊢
  have hae := (pairwise_append.mp ho).2.2 a (by simp) e (by simp)
  simp only [reverse_append, reverse_singleton, singleton_append, insertWalk,
    getLast?_concat, mem_some_iff, exists_eq_left']
  rcases hae with hlt | ⟨heq, hle⟩
  · have hstop : walkBack e a = .stop := by rw [walkBack, if_pos hlt]
    rw [hstop, if_neg (by omega)]
    simp
  · by_cases hmsgid : a.msgid = e.msgid
    · have hreject : walkBack e a = .reject := by
        rw [walkBack, if_neg (by omega), if_pos hmsgid]
      rw [hreject, if_pos ⟨heq, hmsgid⟩]
      rfl
    · have hstop : walkBack e a = .stop := by
        rw [walkBack, if_neg (by omega), if_neg hmsgid, if_pos ⟨heq, hle⟩]
      rw [hstop, if_neg (by simp [hmsgid])]
      simp

/-- The entries of an ordered list within the limits, inserted one after the other into an empty
object: if neighbours differ the list is as it was, and otherwise an entry is missing. -/
theorem restore_spec {h₀ : HistoryLogObject L} (hempty : h₀.lines = []) (hzero : h₀.numLines = 0)
    (ho : es.Pairwise HistoryLogLine.Before)
    (hlimit : totalLines es ≤ h₀.maxLines ∨ es.length = 1) :
    (es.foldl restoreEntry h₀).numLines = totalLines (es.foldl restoreEntry h₀).lines ∧
      (es.foldl restoreEntry h₀).maxLines = h₀.maxLines ∧
      (NeighboursDiffer es → (es.foldl restoreEntry h₀).lines = es) ∧
      (¬ NeighboursDiffer es → (es.foldl restoreEntry h₀).lines.length < es.length) := by
  induction es using reverseRecOn with
  | nil => simp [hempty, hzero, NeighboursDiffer]
  | append_singleton pre e ih =>
    have hpre := limit_of_sublist (sublist_append_left pre [e]) hlimit
    obtain ⟨h1, h2, h3, h4⟩ := ih (pairwise_append.mp ho).1 hpre
    have hchain : NeighboursDiffer (pre ++ [e]) ↔ NeighboursDiffer pre ∧
        ¬ ∃ a ∈ pre.getLast?, a.t = e.t ∧ a.msgid = e.msgid := by
      simp [NeighboursDiffer, isChain_append]
    rw [foldl_append, foldl_cons, foldl_nil]
    generalize pre.foldl restoreEntry h₀ = h at h1 h2 h3 h4 ⊢
    obtain ⟨h5, h6, h7⟩ := restoreEntry_spec h1 e
    refine ⟨h5, h6.trans h2, ?_⟩
    by_cases hdiffer : NeighboursDiffer pre
    · -- Everything so far is there, so there is room and the tail is the entry before.
      have hlines := h3 hdiffer
      have hroom : h.lines = [] ∨ h.numLines + 1 ≤ h.maxLines := by
        rcases hlimit with hle | hlen
        · right
          have hnum := e.num_lines_eq
          rw [totalLines_append, totalLines_cons] at hle
          rw [h1, hlines]
          omega
        · left
          rw [hlines]
          rw [length_append, length_singleton] at hlen
          exact length_eq_zero_iff.mp (by omega)
      obtain ⟨-, hcount, -⟩ := makeRoom_spec 1 h h.lines h1
      have hinsert : (restoreEntry h e).lines = (hbmHistoryLink pre e).getD pre := by
        unfold restoreEntry
        rw [(insertEntry_spec _ e hcount).1, makeRoom_of_le hroom, hlines]
      rw [hchain, hinsert, hbmHistoryLink_concat ho]
      constructor
      · rintro ⟨-, hnew⟩
        rw [if_neg hnew, getD_some]
      · intro hnot
        rw [if_pos (by simpa [hdiffer] using hnot)]
        simp
    · -- An entry is missing already.
      have hlt := h4 hdiffer
      rw [hchain, length_append, length_singleton]
      exact ⟨fun h => absurd h.1 hdiffer, fun _ => by omega⟩

/-! ## What is read is short -/

theorem addMissing_short {token value : CStr} (h : ∀ m ∈ mtags, m.Short)
    (htoken : token.strlen ≤ 10000) (hvalue : value.strlen ≤ 10000) :
    ∀ m ∈ (addMissing mtags token value).1, m.Short := by
  unfold addMissing
  split
  · exact h
  refine forall_mem_cons.mpr ⟨⟨htoken, fun v hv => ?_⟩, h⟩
  obtain rfl : value = v := by simpa using hv
  exact hvalue

theorem RawEntry.Short.entry {raw : RawEntry} (h : raw.Short) (stamp : Stamp) :
    (raw.entry L stamp).Short := by
  have htime : stamp.time.strlen ≤ 10000 := by have := stamp.time_lt; omega
  have hmsgid : stamp.msgid.strlen ≤ 10000 := by have := stamp.msgid_eq; omega
  have htags := addMissing_short
    (addMissing_short h.1 (by decide +kernel : timeName.strlen ≤ 10000) htime)
    (by decide +kernel : msgidName.strlen ≤ 10000) hmsgid
  exact ⟨htags, h.2.1, h.2.2⟩

theorem mem_restoreEntry (hcount : h.numLines = totalLines h.lines)
    {l e : HistoryLogLine L} (he : e ∈ (restoreEntry h l).lines) : e ∈ h.lines ∨ e = l := by
  obtain ⟨h1, h2, -⟩ := makeRoom_spec 1 h h.lines hcount
  unfold restoreEntry at he
  rw [(insertEntry_spec _ l h2).1] at he
  rcases hlink : hbmHistoryLink (makeRoom 1 h h.lines).lines l with _ | lines
  · rw [hlink] at he
    exact .inl (h1.subset he)
  obtain ⟨earlier, later, heq, rfl, -⟩ := hbmHistoryLink_eq_some hlink
  rw [hlink] at he
  rcases mem_append.mp he with he | he
  · exact .inl (h1.subset (heq ▸ mem_append_left _ he))
  · rcases mem_cons.mp he with rfl | he
    · exact .inr rfl
    · exact .inl (h1.subset (heq ▸ mem_append_right _ he))

theorem readEntries_short {version : UInt32} {stamp : ℕ → Stamp} {i : ℕ}
    {h h' : HistoryLogObject L} {c : UnrealDB C} (hcount : h.numLines = totalLines h.lines)
    (hshort : ∀ e ∈ h.lines, e.Short) (hread : readEntries version stamp i h c = some h') :
    ∀ e ∈ h'.lines, e.Short := by
  rw [readEntries_eq] at hread
  obtain ⟨⟨magic, c₁⟩, h1, hread⟩ := bind_eq_some_iff.mp hread
  have hp1 := (rSafe_takes (unrealdbReadInt32_takes _) h1).2
  dsimp only at hread
  split_ifs at hread
  · obtain rfl : h = h' := by simpa using hread
    exact hshort
  obtain ⟨⟨raw, c₂⟩, h2, hread⟩ := bind_eq_some_iff.mp hread
  obtain ⟨hp2, hraw⟩ := readEntry_takes h2
  refine readEntries_short (restoreEntry_spec hcount _).1 (fun e he => ?_) hread
  rcases mem_restoreEntry hcount he with he | rfl
  · exact hshort e he
  · exact hraw.entry _
termination_by c.pending
decreasing_by exact hp2.trans hp1

end ObbyIRCd.History
