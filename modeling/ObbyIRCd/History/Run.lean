import ObbyIRCd.History.Invariant

/-!
# Runs of calls on a history object

`run_spec` is about every sequence of calls on a new object, at any times and with any limits. The
order, the counter and the limit hold after every call. No message is stored twice as long as every
message that is added could be seen if it is stored already (`Op.Sees`), and a call where it could
not makes a duplicate: three messages of the same millisecond do (`run_stores_twice`).

Room is made for a message before it is known to be new. So a message that is rejected leaves the
history as it was exactly when there was room for it (`rejected_unchanged_iff`).
-/

namespace ObbyIRCd.History

open List

variable {L : Libc}

/-- A call on the object, with what it takes from its surroundings. -/
inductive Op
  | add (stamp : Stamp) (mtags : List MessageTag) (hm : TimeValued mtags) (line : CStr)
  | addMultiline (stamp : Stamp) (mtags : List MessageTag) (hm : TimeValued mtags) (env : Envelope)
      (lines : List MLine)
  | delete (filter : HistoryFilter)
  | setLimit (maxLines : ℕ) (maxTime now : ℤ)
  | cleanup (now : ℤ)
  | request (now : ℤ)

def step (h : HistoryLogObject L) : Op → HistoryLogObject L
  | .add stamp mtags hm line => hbmHistoryAdd h stamp mtags hm line
  | .addMultiline stamp mtags hm env lines => hbmHistoryAddMultiline h stamp mtags hm env lines
  | .delete filter => (hbmHistoryDelete h filter).1
  | .setLimit maxLines maxTime now => hbmHistorySetLimit h maxLines maxTime now
  | .cleanup now => hbmHistoryCleanup h now
  | .request now => hbmHistoryRequest h now

def run (L : Libc) (ops : List Op) : HistoryLogObject L := ops.foldl step (newObject L)

def Op.entry (L : Libc) : Op → Option (HistoryLogLine L)
  | .add stamp mtags hm line => some (hbmDuplicateMtags L stamp line mtags hm)
  | .addMultiline stamp mtags hm env (first :: rest) =>
    some (multilineEntry L stamp mtags hm env first rest)
  | _ => none

/-- The message that a call adds is seen if it is stored already. -/
def Op.Sees (op : Op) (h : HistoryLogObject L) : Prop := ∀ l ∈ op.entry L, History.Sees h l

theorem step_of_entry {op : Op} {l : HistoryLogLine L} (h : HistoryLogObject L)
    (hl : op.entry L = some l) : step h op = store h l := by
  rcases op with ⟨stamp, mtags, hm, line⟩ | ⟨stamp, mtags, hm, env, _ | ⟨first, rest⟩⟩ | _ | _ | _ | _
  case add =>
    obtain rfl : hbmDuplicateMtags L stamp line mtags hm = l := by simpa [Op.entry] using hl
    rfl
  case addMultiline.cons =>
    obtain rfl : multilineEntry L stamp mtags hm env first rest = l := by
      simpa [Op.entry] using hl
    rfl
  all_goals simp [Op.entry] at hl

variable {h : HistoryLogObject L}

theorem cleanupTime_spec (hcount : h.numLines = totalLines h.lines) (redline : ℤ) :
    (cleanupTime h redline).lines.Sublist h.lines ∧
      (cleanupTime h redline).numLines = totalLines (cleanupTime h redline).lines := by
  unfold cleanupTime
  split_ifs
  · have hspec := cleanupTimeLoop_spec redline h.lines 0 0
    rw [Nat.zero_add, ← hcount] at hspec
    exact ⟨hspec.1, hspec.2.trans (Nat.zero_add _)⟩
  · exact ⟨.refl _, hcount⟩

/-- Cleaning up by the number of lines leaves a sublist within the limit. -/
theorem cleanupLines_spec (hcount : h.numLines = totalLines h.lines) :
    (cleanupLines h).lines.Sublist h.lines ∧
      (cleanupLines h).numLines = totalLines (cleanupLines h).lines ∧
      ((cleanupLines h).numLines ≤ (cleanupLines h).maxLines ∨ (cleanupLines h).lines.length = 1) := by
  unfold cleanupLines
  split_ifs with hmany
  · have hspec := cleanupLinesLoop_spec h.maxLines h.lines 0
    rw [← hcount] at hspec
    exact hspec
  · exact ⟨.refl _, hcount, .inl (by omega)⟩

/-- `hbm_history_cleanup` establishes the limits, whatever they are, and leaves a sublist. -/
theorem hbmHistoryCleanup_spec
    (ho : h.lines.Pairwise HistoryLogLine.Before) (hcount : h.numLines = totalLines h.lines)
    (now : ℤ) : (hbmHistoryCleanup h now).lines.Sublist h.lines ∧ (hbmHistoryCleanup h now).Inv := by
  obtain ⟨h1, h2⟩ := cleanupTime_spec hcount (now - h.maxTime)
  obtain ⟨h3, h4, h5⟩ := cleanupLines_spec h2
  exact ⟨h3.trans h1, ho.sublist (h3.trans h1), h4, h5⟩

/-- `hbm_history_delete` leaves a sublist, and keeps the invariant. -/
theorem hbmHistoryDelete_spec (hi : h.Inv) (filter : HistoryFilter) :
    (hbmHistoryDelete h filter).1.lines.Sublist h.lines ∧ (hbmHistoryDelete h filter).1.Inv := by
  have hspec := hbmHistoryDeleteLoop_spec filter h.lines false 0 0 0
  rw [Nat.zero_add, ← hi.count] at hspec
  obtain ⟨hsub, hcount⟩ := hspec
  rw [Nat.zero_add] at hcount
  have hlimit := hi.limit
  rw [hi.count] at hlimit
  refine ⟨hsub, hi.ordered.sublist hsub, hcount, ?_⟩
  unfold hbmHistoryDelete
  dsimp only
  rw [hcount]
  exact limit_of_sublist hsub hlimit

/-- A call that adds nothing leaves a sublist, and keeps the invariant. -/
theorem step_of_entry_eq_none {op : Op} (hi : h.Inv)
    (hop : op.entry L = none) : (step h op).lines.Sublist h.lines ∧ (step h op).Inv := by
  rcases op with _ | ⟨stamp, mtags, hm, env, _ | _⟩ | filter | ⟨maxLines, maxTime, now⟩ | now | now
  case add => simp [Op.entry] at hop
  case addMultiline.cons => simp [Op.entry] at hop
  case addMultiline.nil =>
    -- Only the limits can change, from none to some.
    unfold step hbmHistoryAddMultiline defaultLimits
    split_ifs with h0
    · have hlimit : h.numLines ≤ 50 ∨ h.lines.length = 1 := hi.limit.imp (by omega) id
      exact ⟨.refl _, hi.ordered, hi.count, hlimit⟩
    · exact ⟨.refl _, hi⟩
  case delete => exact hbmHistoryDelete_spec hi filter
  case setLimit =>
    exact hbmHistoryCleanup_spec (h := { h with maxLines, maxTime }) hi.ordered hi.count now
  case cleanup => exact hbmHistoryCleanup_spec hi.ordered hi.count now
  case request =>
    unfold step hbmHistoryRequest
    dsimp only
    split_ifs
    · exact hbmHistoryCleanup_spec hi.ordered hi.count now
    · exact ⟨.refl _, hi⟩

/-- Each operation keeps the invariant. -/
theorem step_inv (hi : h.Inv) (op : Op) : (step h op).Inv := by
  rcases hop : op.entry L with _ | l
  · exact (step_of_entry_eq_none hi hop).2
  · rw [step_of_entry h hop]
    exact hi.store l

/-- A call makes no duplicate, exactly when the message it adds is seen if it is stored already. -/
theorem step_noDuplicates (hi : h.Inv) (hd : h.NoDuplicates) (op : Op) :
    (step h op).NoDuplicates ↔ op.Sees h := by
  unfold Op.Sees
  rcases hop : op.entry L with _ | l
  · simp only [Option.mem_def, reduceCtorEq, false_implies, implies_true, iff_true]
    exact hd.sublist (step_of_entry_eq_none hi hop).1
  · rw [step_of_entry h hop, noDuplicates_store hi hd]
    simp

/-- So every history that can be reached satisfies it. -/
theorem run_inv (L : Libc) (ops : List Op) : (run L ops).Inv := by
  induction ops using reverseRecOn with
  | nil => exact ⟨.nil, rfl, .inl le_rfl⟩
  | append_singleton ops op ih =>
    rw [run, foldl_append]
    exact step_inv ih op

theorem run_concat (L : Libc) (before : List Op) (op : Op) :
    run L (before ++ [op]) = step (run L before) op := by
  rw [run, foldl_append]
  rfl

/-- After any calls, the list is ordered by time, the counter is the number of lines in it, counting
each entry's further lines, and it is within the limit but for a single entry. No message is stored
twice throughout a run, exactly when every message that is added is seen if it is stored already. -/
theorem run_spec (L : Libc) (ops : List Op) :
    ((run L ops).Inv ∧ ∀ e ∈ (run L ops).lines, e.numLines = 1 + e.nextInBatch.length) ∧
      ((∀ before, before <+: ops → (run L before).NoDuplicates) ↔
        ∀ before op, before ++ [op] <+: ops → op.Sees (run L before)) := by
  refine ⟨⟨run_inv L ops, fun e _ => e.num_lines_eq⟩, ?_⟩
  constructor
  · intro hall before op hbefore
    have hprev := hall before ((prefix_append before [op]).trans hbefore)
    rw [← step_noDuplicates (run_inv L before) hprev op, ← run_concat]
    exact hall _ hbefore
  · -- Induction on the calls made so far: each one met the condition.
    intro hcond before hbefore
    induction before using reverseRecOn with
    | nil => exact .nil
    | append_singleton before op ih =>
      have hprev := ih ((prefix_append before [op]).trans hbefore)
      rw [run_concat, step_noDuplicates (run_inv L before) hprev op]
      exact hcond before op hbefore

theorem makeRoom_suffix (n : ℕ) (h : HistoryLogObject L) (lines : List (HistoryLogLine L)) :
    (makeRoom n h lines).lines <:+ lines := by
  induction lines generalizing h with
  | nil => exact suffix_refl []
  | cons l rest ih =>
    unfold makeRoom
    split_ifs
    · exact (ih _).trans (suffix_cons l rest)
    · exact suffix_refl _

/-- Whether `hbm_history_add_line` rejects an entry, once room was made for it. -/
def Rejected (h : HistoryLogObject L) (l : HistoryLogLine L) : Prop :=
  (hbmHistoryAddLine (makeRoom l.numLines (defaultLimits h) h.lines) l).isNone

instance (h : HistoryLogObject L) (l : HistoryLogLine L) : Decidable (Rejected h l) :=
  inferInstanceAs (Decidable (_ = _))

theorem store_of_rejected {l : HistoryLogLine L} (hrej : Rejected h l) :
    store h l = makeRoom l.numLines (defaultLimits h) h.lines := by
  unfold store insertEntry
  rw [Option.isNone_iff_eq_none.mp hrej]

/-- A message that is rejected as a duplicate leaves the history as it was, exactly when there was
room for it. -/
theorem rejected_unchanged_iff (h : HistoryLogObject L) (op : Op) (l : HistoryLogLine L)
    (hop : op.entry L = some l) (hrej : Rejected h l) :
    ((step h op).lines = h.lines ∧ (step h op).numLines = h.numLines) ↔
      h.numLines + l.numLines ≤ (defaultLimits h).maxLines := by
  have hcount : (defaultLimits h).numLines = h.numLines := by
    unfold defaultLimits
    split_ifs <;> rfl
  rw [step_of_entry h hop, store_of_rejected hrej]
  rcases hlines : h.lines with _ | ⟨e, rest⟩
  · -- Into an empty list every entry is linked.
    rw [Rejected, hlines] at hrej
    cases hrej
  · unfold makeRoom
    rw [hcount]
    split_ifs with hfull
    · refine iff_of_false (fun hsame => ?_) (by omega)
      have hlen := (makeRoom_suffix l.numLines (hbmHistoryDelHead (defaultLimits h) e rest)
        rest).length_le
      rw [hsame.1, length_cons] at hlen
      omega
    · exact iff_of_true ⟨rfl, rfl⟩ (by omega)

/-- The C library on the times of the second used here. -/
def exampleLibc : Libc := ⟨fun _ => some ⟨2026, 1, 1, 0, 0, 0⟩, fun _ => 1767225600⟩

/-- The server time of a millisecond, one to nine, given as a digit. -/
def exampleTime (ms : ℕ) : CStr :=
  .ofBuffer (ascii "2026-01-01T00:00:00.00" ++ [49 + UInt8.ofNat ms] ++ ascii "Z")

/-- A `msgid` of one character. -/
def exampleMsgid (msgid : ℕ) : CStr := .ofBuffer [97 + UInt8.ofNat msgid]

/-- The random characters that no message below needs. -/
def exampleStamp : Stamp :=
  ⟨exampleTime 0, ⟨List.replicate 22 97, forall_mem_of_all (by decide)⟩, by decide +kernel, rfl⟩

/-- Add a message with its time and its `msgid`. -/
def exampleAdd (ms msgid : ℕ) : Op :=
  .add exampleStamp
    [⟨timeName, some (exampleTime ms)⟩, ⟨msgidName, some (exampleMsgid msgid)⟩]
    (by simp [TimeValued, findMtag]) (exampleMsgid msgid)

/-- Two messages of the same millisecond, and the first one once more: it is stored twice. -/
theorem run_stores_twice :
    ¬ (run exampleLibc [.setLimit 10 3600 1767225600, exampleAdd 0 0, exampleAdd 0 1,
      exampleAdd 0 0]).NoDuplicates := by
  unfold HistoryLogObject.NoDuplicates HistoryLogLine.Same
  decide +kernel

def exampleFull (maxLines : ℕ) : HistoryLogObject exampleLibc :=
  run exampleLibc [.setLimit maxLines 3600 1767225600, exampleAdd 0 0, exampleAdd 1 1]

/-- `rejected_unchanged_iff` where there is room for a third line. -/
theorem rejected_unchanged_with_room :
    ((step (exampleFull 3) (exampleAdd 1 1)).lines = (exampleFull 3).lines ∧
      (step (exampleFull 3) (exampleAdd 1 1)).numLines = (exampleFull 3).numLines) :=
  (rejected_unchanged_iff (exampleFull 3) (exampleAdd 1 1) _ rfl (by decide +kernel)).mpr
    (by decide +kernel)

/-- In a full history the duplicate of the last message is rejected, and the first message is
gone. -/
theorem rejected_evicts : (exampleAdd 1 1).entry exampleLibc = (exampleFull 2).lines.getLast? ∧
      (∀ l ∈ (exampleAdd 1 1).entry exampleLibc, Rejected (exampleFull 2) l) ∧
      (exampleFull 2).lines.map (fun e => e.msgid) = [exampleMsgid 0, exampleMsgid 1] ∧
      (step (exampleFull 2) (exampleAdd 1 1)).lines.map (fun e => e.msgid) = [exampleMsgid 1] := by
  refine ⟨rfl, ?_, by decide +kernel, by decide +kernel⟩
  intro l hl
  obtain rfl := Option.some.inj hl
  decide +kernel

end ObbyIRCd.History
