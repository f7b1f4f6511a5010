import ObbyIRCd.Database.RoundTrip
import ObbyIRCd.History.Run

/-!
# The history files: `hbm_write_db` and `hbm_read_db`

The writer puts out a header and the entries in the order of the list, each between two magic
numbers: its time, its tags ended by two `NULL` strings, the line, and the further lines of a
multiline message. The reader does not rebuild the list from that. It makes room and inserts every
entry as if the message came in once more (`restoreEntry`).

What the reader makes of a file that ends early or has a wrong magic number is a failure; the
entries it has inserted by then are not followed further. A `NULL` where the code takes the length
of a string counts as a failure as well.
-/

namespace ObbyIRCd.History

open Database Option

/-- `HISTORYDB_MAGIC_FILE_START`. -/
def magicFileStart : UInt32 := 0xFEFEFEFE
/-- `HISTORYDB_MAGIC_FILE_END`. -/
def magicFileEnd : UInt32 := 0xEFEFEFEF
/-- `HISTORYDB_MAGIC_ENTRY_START`. -/
def magicEntryStart : UInt32 := 0xFFFFFFFF
/-- `HISTORYDB_MAGIC_ENTRY_END`. -/
def magicEntryEnd : UInt32 := 0xEEEEEEEE

/-- The strings of `master.db` that the files of one set share, read by `unrealdb_read_str` or made
of random characters. -/
structure MasterDb where
  /-- `hbm_prehash`. -/
  prehash : CStr
  /-- `hbm_posthash`. -/
  posthash : CStr
  /-- Its length is one that a string in a database can have. -/
  prehash_le : prehash.strlen ≤ 10000
  /-- Its length is one that a string in a database can have. -/
  posthash_le : posthash.strlen ≤ 10000

structure ObjectName where
  /-- `name`. -/
  name : CStr
  /-- `OBJECTLEN`. -/
  name_le : name.strlen ≤ 32

variable {L : Libc} {C : Crypto}

def mtagRecords (m : MessageTag) : List Record := [.str (some m.name), .str m.value]

def batchRecords (b : BatchLine) : List Record := [.int32 b.concat, .str (some b.line)]

def entryBody (l : HistoryLogLine L) : List Record :=
  .int64 (UInt64.ofInt l.t) :: l.mtags.flatMap mtagRecords ++
    .str none :: .str none :: .str (some l.line) :: .int32 l.concat ::
    .int32 (UInt32.ofNat l.nextInBatch.length) :: l.nextInBatch.flatMap batchRecords ++
    [.int32 magicEntryEnd]

def entryRecords (l : HistoryLogLine L) : List Record := .int32 magicEntryStart :: entryBody l

def headerRecords (master : MasterDb) (name : ObjectName) (h : HistoryLogObject L) : List Record :=
  [.int32 magicFileStart, .int32 5001, .str (some master.prehash), .str (some master.posthash),
    .str (some name.name), .int64 (UInt64.ofNat h.maxLines), .int64 (UInt64.ofInt h.maxTime)]

def fileRecords (master : MasterDb) (name : ObjectName) (h : HistoryLogObject L) : List Record :=
  headerRecords master name h ++ h.lines.flatMap entryRecords ++ [.int32 magicFileEnd]

/-- `hbm_write_db` of a channel with mode `P`: the bytes of the file. -/
def hbmWriteDb (secr : Secret C) (now : UInt64) (random : Random) (free : ℕ) (master : MasterDb)
    (name : ObjectName) (h : HistoryLogObject L) : Option (List UInt8) :=
  match unrealdbOpenWrite (some secr) now random free with
  | .error _ => none
  | .ok (c, _) => (writeRecords c (fileRecords master name h)).bind unrealdbClose

/-- `R_SAFE`: a read that has to succeed. -/
def rSafe {α : Type} (r : Option α × UnrealDB C) : Option (α × UnrealDB C) :=
  r.1.map fun a => (a, r.2)

variable {c' c : UnrealDB C}

theorem rSafe_eq_some {α : Type} {r : Option α × UnrealDB C} {a : α} :
    rSafe r = some (a, c') ↔ r = (some a, c') := by
  rcases r with ⟨_ | b, c⟩ <;> simp [rSafe]

theorem rSafe_takes {α : Type} {P : α → Prop} {r : Option α × UnrealDB C} {a : α}
    (h : Takes c P r) (hr : rSafe r = some (a, c')) : P a ∧ c'.pending < c.pending := by
  obtain rfl := rSafe_eq_some.mp hr
  exact h.2 a rfl

/-- The loop of `hbm_read_db` over the tags of an entry. -/
def readMtags (c : UnrealDB C) (mtags : List MessageTag) : Option (List MessageTag × UnrealDB C) :=
  match _hname : rSafe (unrealdbReadStr c) with
  | none => none
  | some (name, c₁) =>
    match _hvalue : rSafe (unrealdbReadStr c₁) with
    | none => none
    | some (value, c₂) =>
      match name with
      | some name => readMtags c₂ (mtags ++ [⟨name, value⟩])
      | none => if value = none then some (mtags, c₂) else none
termination_by c.pending
decreasing_by
  exact (rSafe_takes (unrealdbReadStr_takes _) _hvalue).2.trans
    (rSafe_takes (unrealdbReadStr_takes _) _hname).2

/-- The loop of `hbm_read_db` over the further lines of an entry. -/
def readBatch (c : UnrealDB C) : ℕ → Option (List BatchLine × UnrealDB C)
  | 0 => some ([], c)
  | count + 1 =>
    match rSafe (unrealdbReadInt32 c) with
    | none => none
    | some (concat, c₁) =>
      match rSafe (unrealdbReadStr c₁) with
      | some (some line, c₂) =>
        (readBatch c₂ count).map fun (batch, c₃) => (⟨line, concat⟩ :: batch, c₃)
      | _ => none

structure RawEntry where
  mtags : List MessageTag
  /-- The tag `time` has a value. -/
  time_valued : TimeValued mtags
  line : CStr
  /-- `concat_flag`. -/
  concat : UInt32
  batch : List BatchLine

/-- An entry between its magic numbers, from its time on. Files before version 5001 have no further
lines. -/
def readEntry (version : UInt32) (c : UnrealDB C) : Option (RawEntry × UnrealDB C) := do
  let (_lineTs, c) ← rSafe (unrealdbReadInt64 c)
  let (mtags, c) ← readMtags c []
  let (line, c) ← rSafe (unrealdbReadStr c)
  let line ← line
  if hm : TimeValued mtags then
    if version ≥ 5001 then
      let (concat, c) ← rSafe (unrealdbReadInt32 c)
      let (count, c) ← rSafe (unrealdbReadInt32 c)
      let (batch, c) ← readBatch c count.toNat
      let (magic, c) ← rSafe (unrealdbReadInt32 c)
      if magic ≠ magicEntryEnd then none else some (⟨mtags, hm, line, concat, batch⟩, c)
    else
      let (magic, c) ← rSafe (unrealdbReadInt32 c)
      if magic ≠ magicEntryEnd then none else some (⟨mtags, hm, line, 0, []⟩, c)
  else none

/-- A tag of which the reader takes both texts. -/
def MessageTag.Short (m : MessageTag) : Prop :=
  m.name.strlen ≤ 10000 ∧ ∀ v ∈ m.value, v.strlen ≤ 10000

/-- The texts of an entry are ones that the reader takes. -/
def RawEntry.Short (raw : RawEntry) : Prop :=
  (∀ m ∈ raw.mtags, m.Short) ∧ raw.line.strlen ≤ 10000 ∧ ∀ b ∈ raw.batch, b.line.strlen ≤ 10000

theorem readMtags_takes {c c' : UnrealDB C} {mtags mtags' : List MessageTag}
    (h : readMtags c mtags = some (mtags', c')) :
    c'.pending < c.pending ∧ ((∀ m ∈ mtags, m.Short) → ∀ m ∈ mtags', m.Short) := by
  rw [readMtags] at h
  split at h
  · simp at h
  rename_i name c₁ hname
  obtain ⟨hname, h1⟩ := rSafe_takes (unrealdbReadStr_takes _) hname
  split at h
  · simp at h
  rename_i value c₂ hvalue
  obtain ⟨hvalue, h2⟩ := rSafe_takes (unrealdbReadStr_takes _) hvalue
  split at h
  · obtain ⟨hlt, hshort⟩ := readMtags_takes h
    refine ⟨hlt.trans (h2.trans h1), fun hmtags => hshort ?_⟩
    rw [List.forall_mem_append, List.forall_mem_singleton]
    exact ⟨hmtags, hname _ rfl, hvalue⟩
  · split_ifs at h
    obtain ⟨rfl, rfl⟩ : mtags = mtags' ∧ c₂ = c' := by simpa using h
    exact ⟨h2.trans h1, id⟩
termination_by c.pending
decreasing_by exact h2.trans h1

/-- Reading further lines does not add anything, and returns short ones. -/
theorem readBatch_takes {count : ℕ} {batch : List BatchLine}
    (h : readBatch c count = some (batch, c')) :
    c'.pending ≤ c.pending ∧ ∀ b ∈ batch, b.line.strlen ≤ 10000 := by
  induction count generalizing c batch with
  | zero =>
    obtain ⟨rfl, rfl⟩ : [] = batch ∧ c = c' := by simpa [readBatch] using h
    exact ⟨le_rfl, by simp⟩
  | succ count ih =>
    unfold readBatch at h
    split at h
    · simp at h
    rename_i concat c₁ hconcat
    have h1 := (rSafe_takes (unrealdbReadInt32_takes _) hconcat).2
    split at h
    · rename_i line c₂ hline
      obtain ⟨hline, h2⟩ := rSafe_takes (unrealdbReadStr_takes _) hline
      obtain ⟨⟨rest, c₃⟩, hrest, heq⟩ := map_eq_some_iff.mp h
      obtain ⟨rfl, rfl⟩ : ⟨line, concat⟩ :: rest = batch ∧ c₃ = c' := by simpa using heq
      obtain ⟨hle, hshort⟩ := ih hrest
      exact ⟨hle.trans (h2.trans h1).le, List.forall_mem_cons.mpr ⟨hline line rfl, hshort⟩⟩
    · simp at h

theorem readEntry_takes {version : UInt32} {raw : RawEntry}
    (h : readEntry version c = some (raw, c')) : c'.pending < c.pending ∧ raw.Short := by
  unfold readEntry at h
  simp only [bind_eq_bind, bind_eq_some_iff, Prod.exists] at h
  obtain ⟨_, c₁, h1, mtags, c₂, h2, line, c₃, h3, _, rfl, h⟩ := h
  have h1 := (rSafe_takes (unrealdbReadInt64_takes _) h1).2
  obtain ⟨h2, hmtags⟩ := readMtags_takes h2
  obtain ⟨hline, h3⟩ := rSafe_takes (unrealdbReadStr_takes _) h3
  have hmtags := hmtags (by simp)
  split_ifs at h
  · simp only [bind_eq_some_iff, Prod.exists] at h
    obtain ⟨_, c₄, h4, _, c₅, h5, _, c₆, h6, _, c₇, h7, h⟩ := h
    split_ifs at h
    have h4 := (rSafe_takes (unrealdbReadInt32_takes _) h4).2
    have h5 := (rSafe_takes (unrealdbReadInt32_takes _) h5).2
    obtain ⟨h6, hbatch⟩ := readBatch_takes h6
    have h7 := (rSafe_takes (unrealdbReadInt32_takes _) h7).2
    cases h
    exact ⟨by omega, hmtags, hline _ rfl, hbatch⟩
  · simp only [bind_eq_some_iff, Prod.exists] at h
    obtain ⟨_, c₄, h4, h⟩ := h
    split_ifs at h
    have h4 := (rSafe_takes (unrealdbReadInt32_takes _) h4).2
    cases h
    exact ⟨by omega, hmtags, hline _ rfl, by simp⟩

def RawEntry.entry (L : Libc) (stamp : Stamp) (raw : RawEntry) : HistoryLogLine L :=
  { hbmDuplicateMtags L stamp raw.line raw.mtags raw.time_valued with
    concat := raw.concat
    nextInBatch := raw.batch
    numLines := 1 + raw.batch.length
    numBytes := raw.line.strlen + (raw.batch.map fun b => b.line.strlen).sum
    num_lines_eq := rfl
    num_bytes_eq := rfl }

/-- What `hbm_read_db` does with an entry: make room for one line, and insert it. -/
def restoreEntry (h : HistoryLogObject L) (l : HistoryLogLine L) : HistoryLogObject L :=
  insertEntry (makeRoom 1 h h.lines) l

/-- The loop of `hbm_read_db` over the entries. The `i`th entry gets `stamp i` where its tags lack
something. -/
def readEntries (version : UInt32) (stamp : ℕ → Stamp) (i : ℕ) (h : HistoryLogObject L)
    (c : UnrealDB C) : Option (HistoryLogObject L) :=
  match _hmagic : rSafe (unrealdbReadInt32 c) with
  | none => none
  | some (magic, c₁) =>
    if magic = magicFileEnd then some h
    else if magic ≠ magicEntryStart then none
    else
      match _hentry : readEntry version c₁ with
      | none => none
      | some (raw, c₂) =>
        readEntries version stamp (i + 1) (restoreEntry h (raw.entry L (stamp i))) c₂
termination_by c.pending
decreasing_by
  exact (readEntry_takes _hentry).1.trans (rSafe_takes (unrealdbReadInt32_takes _) _hmagic).2

inductive ReadResult (L : Libc)
  /-- An error; the file is put aside. -/
  | failed
  | noObject
  | object (h : HistoryLogObject L)

/-- `hbm_read_db`, where `hbm_find_object` finds the objects of `find`. -/
def hbmReadDb (secr : Secret C) (master : MasterDb) (stamp : ℕ → Stamp)
    (find : CStr → Option (HistoryLogObject L)) (file : List UInt8) : ReadResult L :=
  match unrealdbOpenRead (some secr) file with
  | .error _ => .failed
  | .ok c =>
    match readRecords c [.int32, .int32, .str, .str, .str, .int64, .int64] with
    | some ([.int32 magic, .int32 version, .str prehash, .str posthash, .str (some object),
        .int64 _maxLines, .int64 _maxTime], c) =>
      if magic ≠ magicFileStart then .failed
      else if version < 4999 then .failed
      else if version > 5001 then .failed
      else if prehash ≠ some master.prehash ∨ posthash ≠ some master.posthash then .failed
      else
        match find object with
        | none => .noObject
        | some h =>
          match readEntries version stamp 0 h c with
          | none => .failed
          | some h' => .object { h' with dirty := false }
    | _ => .failed

end ObbyIRCd.History
