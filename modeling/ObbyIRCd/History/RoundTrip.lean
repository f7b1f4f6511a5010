import ObbyIRCd.History.Restore

/-!
# When a history file gives the history back

`hbmReadDb_iff` is about a file that `hbm_write_db` has written and `hbm_read_db` reads into an empty
object with the same limits. Whatever the entries are, the reader gets through the header to the
object (`hbmReadDb_header`). The history comes back exactly when the reader takes every string in it
and no entry has the seconds and the `msgid` of the one before it. Such neighbours come about when
the message between them is deleted (`hbmReadDb_drops`).
-/

namespace ObbyIRCd.History

open List

open Database

variable {L : Libc} {C : Crypto}

theorem headerRecords_readable (master : MasterDb) (name : ObjectName) (h : HistoryLogObject L) :
    ∀ r ∈ headerRecords master name h, r.Readable := by
  have hname := name.name_le
  simp only [headerRecords, forall_mem_cons, readable_int32, readable_int64, readable_str,
    Option.mem_def, Option.some.injEq, forall_eq', not_mem_nil, true_and]
  exact ⟨master.prehash_le, master.posthash_le, by omega, by simp⟩

theorem entryRecords_readable {l : HistoryLogLine L} (hshort : l.Short) :
    ∀ r ∈ entryRecords l, r.Readable := by
  have hmtags : ∀ r ∈ l.mtags.flatMap mtagRecords, r.Readable := by
    rw [forall_mem_flatMap]
    simpa [mtagRecords] using hshort.mtags
  have hbatch : ∀ r ∈ l.nextInBatch.flatMap batchRecords, r.Readable := by
    rw [forall_mem_flatMap]
    simpa [batchRecords] using hshort.batch
  intro r hr
  simp only [entryRecords, entryBody, mem_cons, mem_append, not_mem_nil, or_false] at hr
  rcases hr with rfl | ((rfl | hr) | rfl | rfl | rfl | rfl | rfl | hr) | rfl
  case inr.inl.inl.inr => exact hmtags r hr
  case inr.inl.inr.inr.inr.inr.inr.inr => exact hbatch r hr
  all_goals simp [hshort.line]

theorem entriesRecords_readable {lines : List (HistoryLogLine L)} (hshort : ∀ e ∈ lines, e.Short) :
    ∀ r ∈ lines.flatMap entryRecords ++ [.int32 magicFileEnd], r.Readable := by
  rw [forall_mem_append, forall_mem_flatMap, forall_mem_singleton]
  exact ⟨fun e he => entryRecords_readable (hshort e he), by simp⟩

/-- Reading a file that was written comes to its entries, with the object that has its name. What
follows there is the written entries if they are short. -/
theorem hbmReadDb_header {secr secr₂ : Secret C} (hpass : secr₂.password = secr.password)
    {now : UInt64} {random : Random} {free : ℕ} {master : MasterDb} {name : ObjectName}
    {h h₀ : HistoryLogObject L} {find : CStr → Option (HistoryLogObject L)} (stamp : ℕ → Stamp)
    {file : List UInt8} (hfind : find name.name = some h₀)
    (hwrite : hbmWriteDb secr now random free master name h = some file) :
    ∃ (c : UnrealDB C) (q : List UInt8), hbmReadDb secr₂ master stamp find file =
        (match readEntries 5001 stamp 0 h₀ c with
        | none => .failed
        | some h' => .object { h' with dirty := false }) ∧ Reading c q ∧
      ((∀ e ∈ h.lines, e.Short) →
        q = (h.lines.flatMap entryRecords).flatMap encode ++ (encode (.int32 magicFileEnd) ++ [])) := by
  unfold hbmWriteDb at hwrite
  split at hwrite
  · simp at hwrite
  rename_i c₀ secr' hopen
  obtain ⟨c₁, hrecords, hclose⟩ := Option.bind_eq_some_iff.mp hwrite
  have hpass' : (some secr₂).map Secret.password = (some secr).map Secret.password := by
    simp [hpass]
  obtain ⟨s, hdr, p₀, hw, hback⟩ := unrealdbOpen_spec hpass' hopen
  -- The header is written as it can be read, and the entries behind it if they are short.
  unfold fileRecords at hrecords
  rw [append_assoc, writeRecords_append] at hrecords
  obtain ⟨c₂, hheader, hentries⟩ := Option.bind_eq_some_iff.mp hrecords
  have hheaderR := headerRecords_readable master name h
  have hw₂ := writeRecords_spec hw hheaderR hheader
  have htail : ∃ w, Writing s hdr c₁ (p₀ ++ (headerRecords master name h).flatMap encode ++ w) ∧
      ((∀ e ∈ h.lines, e.Short) →
        w = (h.lines.flatMap entryRecords).flatMap encode ++
          (encode (.int32 magicFileEnd) ++ [])) := by
    by_cases hshort : ∀ e ∈ h.lines, e.Short
    · have hreadable := entriesRecords_readable hshort
      exact ⟨_, writeRecords_spec hw₂ hreadable hentries, fun _ => by simp⟩
    · obtain ⟨w, hw₃⟩ := writeRecords_appends hw₂ hentries
      exact ⟨w, hw₃, fun h => absurd h hshort⟩
  obtain ⟨w, hw₃, hq⟩ := htail
  rw [append_assoc] at hw₃
  obtain ⟨body, rfl, hbody⟩ := unrealdbClose_spec hw₃ hclose
  obtain ⟨c₃, hopenRead, hr⟩ := hback body _ hbody
  obtain ⟨c₄, hreadHeader, hr⟩ := readRecords_spec hheaderR hr
  refine ⟨c₄, w, ?_, hr, hq⟩
  simp only [headerRecords, map_cons, map_nil, Record.kind] at hreadHeader
  unfold hbmReadDb
  simp only [hopenRead, hreadHeader, hfind, ne_eq, not_true_eq_false, or_self, if_false]
  exact (if_neg (by decide)).trans (if_neg (by decide))

/-- A history object that was written to a file comes back into an empty object with the same
limits, exactly when no string in it is longer than 10000 bytes and no two neighbours have the same
seconds and the same `msgid`. -/
theorem hbmReadDb_iff {secr secr₂ : Secret C} (hpass : secr₂.password = secr.password)
    {now : UInt64} {random : Random} {free : ℕ} {master : MasterDb} {name : ObjectName}
    {h h₀ : HistoryLogObject L} {find : CStr → Option (HistoryLogObject L)} (stamp : ℕ → Stamp)
    {file : List UInt8} (hi : h.Inv) (hint : ∀ e ∈ h.lines, e.numLines < 2 ^ 31)
    (hempty : h₀.lines = []) (hzero : h₀.numLines = 0) (hlimit : h₀.maxLines = h.maxLines)
    (hfind : find name.name = some h₀)
    (hwrite : hbmWriteDb secr now random free master name h = some file) :
    (∃ h', hbmReadDb secr₂ master stamp find file = .object h' ∧ h'.lines = h.lines ∧
      h'.numLines = h.numLines) ↔
      (∀ e ∈ h.lines, e.Short) ∧ NeighboursDiffer h.lines := by
  obtain ⟨c, q, hread, hr, hq⟩ := hbmReadDb_header hpass stamp hfind hwrite
  have hlimit' : totalLines h.lines ≤ h₀.maxLines ∨ h.lines.length = 1 := by
    rw [hlimit, ← hi.count]
    exact hi.limit
  obtain ⟨hcount, -, hsame, hless⟩ := restore_spec hempty hzero hi.ordered hlimit'
  rw [hread]
  constructor
  · rintro ⟨h', hobject, hlines, -⟩
    rcases hentries : readEntries 5001 stamp 0 h₀ c with _ | h''
    · simp [hentries] at hobject
    have hlines' : h''.lines = h.lines := by
      simp only [hentries, ReadResult.object.injEq] at hobject
      rw [← hlines, ← hobject]
    have hshort : ∀ e ∈ h.lines, e.Short := by
      rw [← hlines']
      refine readEntries_short (by simp [hempty, hzero]) ?_ hentries
      simp [hempty]
    refine ⟨hshort, ?_⟩
    -- Everything was read, so an entry that is missing was dropped on the way in.
    by_contra hnot
    have hfold := readEntries_spec hshort hint stamp 0 h₀ (hq hshort ▸ hr)
    have hlt := hless hnot
    rw [hentries, Option.some.injEq] at hfold
    rw [← hfold, hlines'] at hlt
    omega
  · rintro ⟨hshort, hdiffer⟩
    have hfold := readEntries_spec hshort hint stamp 0 h₀ (hq hshort ▸ hr)
    rw [hfold]
    exact ⟨_, rfl, hsame hdiffer, hcount.trans (by rw [hsame hdiffer, hi.count])⟩

/-- Any two strings for the files of a set. -/
def exampleMaster : MasterDb := ⟨exampleTime 0, exampleTime 1, by decide +kernel, by decide +kernel⟩

def exampleName : ObjectName := ⟨⟨ascii "#test", by decide +kernel⟩, by decide +kernel⟩

/-- A small object is written to a file of a single block. -/
theorem hbmWriteDb_example {h : HistoryLogObject L} (hshort : ∀ e ∈ h.lines, e.Short)
    (hlen : ((fileRecords exampleMaster exampleName h).flatMap encode).length < 4000) :
    ∃ file, hbmWriteDb exampleSecret 5 zeroRandom 10086 exampleMaster exampleName h =
      some file := by
  have hreadable : ∀ r ∈ fileRecords exampleMaster exampleName h, r.Readable := by
    rw [fileRecords, append_assoc, forall_mem_append]
    exact ⟨headerRecords_readable _ _ _, entriesRecords_readable hshort⟩
  have hstart : exampleStart.length = 35 := by decide +kernel
  have hrecords := writeRecords_cryptedFile exampleHeader 10000 (p := exampleStart) hreadable
    (by omega)
  unfold hbmWriteDb
  rw [unrealdbOpenWrite_cryptedFile 10000]
  simp only
  rw [hrecords]
  exact unrealdbClose_cryptedFile exampleHeader (by rw [length_append]; omega)

/-- An object that nothing has been added to, with the limits of the ones below. -/
def exampleEmpty : HistoryLogObject exampleLibc :=
  { newObject exampleLibc with maxLines := 10, maxTime := 3600 }

def exampleFind : CStr → Option (HistoryLogObject exampleLibc) := fun _ => some exampleEmpty

theorem exampleFind_name : exampleFind exampleName.name = some exampleEmpty := rfl

def exampleOps : List Op := [.setLimit 10 3600 1767225600, exampleAdd 0 0, exampleAdd 1 1]

/-- Two messages with different `msgid` come back. -/
theorem hbmReadDb_iff_example :
    ∃ file, hbmWriteDb exampleSecret 5 zeroRandom 10086 exampleMaster exampleName
        (run exampleLibc exampleOps) = some file ∧
      ∃ h', hbmReadDb exampleSecret exampleMaster (fun _ => exampleStamp)
        exampleFind file = .object h' ∧
        h'.lines = (run exampleLibc exampleOps).lines ∧
        h'.numLines = (run exampleLibc exampleOps).numLines := by
  have hshort : ∀ e ∈ (run exampleLibc exampleOps).lines, e.Short := by decide +kernel
  have hdiffer : NeighboursDiffer (run exampleLibc exampleOps).lines := by
    unfold NeighboursDiffer
    decide +kernel
  obtain ⟨file, hfile⟩ := hbmWriteDb_example hshort (by decide +kernel)
  have hlimit : exampleEmpty.maxLines = (run exampleLibc exampleOps).maxLines := by decide +kernel
  exact ⟨file, hfile, (hbmReadDb_iff rfl (fun _ => exampleStamp) (run_inv _ _) (by decide +kernel)
    rfl rfl hlimit exampleFind_name hfile).mpr ⟨hshort, hdiffer⟩⟩

/-- Three messages of a second, the first and the last with the same `msgid`, and the one between
them deleted. -/
def exampleDeleteOps : List Op :=
  [.setLimit 10 3600 1767225600, exampleAdd 0 0, exampleAdd 1 1, exampleAdd 2 0,
    .delete ⟨none, some (exampleMsgid 1), none, none, none, 1⟩]

/-- The second of the two messages that are left is not read back. -/
theorem hbmReadDb_drops :
    ∃ file h', hbmWriteDb exampleSecret 5 zeroRandom 10086 exampleMaster exampleName
        (run exampleLibc exampleDeleteOps) = some file ∧
      hbmReadDb exampleSecret exampleMaster (fun _ => exampleStamp) exampleFind file = .object h' ∧
      (run exampleLibc exampleDeleteOps).lines.length = 2 ∧ h'.lines.length = 1 := by
  have hshort : ∀ e ∈ (run exampleLibc exampleDeleteOps).lines, e.Short := by decide +kernel
  obtain ⟨file, hfile⟩ := hbmWriteDb_example hshort (by decide +kernel)
  obtain ⟨c, q, hread, hr, hq⟩ :=
    hbmReadDb_header rfl (fun _ => exampleStamp) exampleFind_name hfile
  have hentries := readEntries_spec hshort (by decide +kernel) (fun _ => exampleStamp) 0 exampleEmpty
    (hq hshort ▸ hr)
  rw [hentries] at hread
  exact ⟨file, _, hfile, hread, by decide +kernel, by decide +kernel⟩

end ObbyIRCd.History
