import Mathlib.Tactic.NormNum
import ObbyIRCd.Database.Stream

/-!
# The records of a database file

A file is written by a sequence of `unrealdb_write_*` calls and read by the corresponding sequence
of `unrealdb_read_*` calls. `encode` gives the bytes of a record in the plaintext; writing appends
them (`writeRecord_spec`) and reading takes them off (`readRecord_spec`), in both formats.

This is so for the strings that the reader takes. The writer admits up to 65534 bytes, and the
reader refuses a length above 10000 (`unrealdbReadStr_strlen_le`).
-/

namespace ObbyIRCd.Database

open List UnrealDB

variable {C : Crypto}

/-- What one write call writes. -/
inductive Record
  | int64 (t : UInt64)
  | int32 (t : UInt32)
  | int16 (t : UInt16)
  | char (t : UInt8)
  | str (x : Option CStr)
deriving DecidableEq

/-- The calls that read a record. -/
inductive Kind
  | int64
  | int32
  | int16
  | char
  | str
deriving DecidableEq, Repr

/-- The call that reads a record back. -/
def Record.kind : Record → Kind
  | .int64 _ => .int64
  | .int32 _ => .int32
  | .int16 _ => .int16
  | .char _ => .char
  | .str _ => .str

def writeRecord (c : UnrealDB C) : Record → Bool × UnrealDB C
  | .int64 t => unrealdbWriteInt64 c t
  | .int32 t => unrealdbWriteInt32 c t
  | .int16 t => unrealdbWriteInt16 c t
  | .char t => unrealdbWriteChar c t
  | .str x => unrealdbWriteStr c x

/-- Write records while the calls return success. -/
def writeRecords (c : UnrealDB C) : List Record → Option (UnrealDB C)
  | [] => some c
  | r :: rs =>
    match writeRecord c r with
    | (false, _) => none
    | (true, c') => writeRecords c' rs

def readRecord (c : UnrealDB C) : Kind → Option Record × UnrealDB C
  | .int64 => let (t, c') := unrealdbReadInt64 c; (t.map .int64, c')
  | .int32 => let (t, c') := unrealdbReadInt32 c; (t.map .int32, c')
  | .int16 => let (t, c') := unrealdbReadInt16 c; (t.map .int16, c')
  | .char => let (t, c') := unrealdbReadChar c; (t.map .char, c')
  | .str => let (x, c') := unrealdbReadStr c; (x.map .str, c')

/-- Read records while the calls return success. -/
def readRecords (c : UnrealDB C) : List Kind → Option (List Record × UnrealDB C)
  | [] => some ([], c)
  | k :: ks =>
    match readRecord c k with
    | (none, _) => none
    | (some r, c') => (readRecords c' ks).map fun (rs, c'') => (r :: rs, c'')

/-- A string that the reader takes: `NULL`, or at most 10000 bytes. -/
def Record.Readable (r : Record) : Prop := ∀ x, r = .str (some x) → x.strlen ≤ 10000

/-- A string is readable if it is `NULL` or has at most 10000 bytes. -/
@[simp]
theorem readable_str {x : Option CStr} : (Record.str x).Readable ↔ ∀ s ∈ x, s.strlen ≤ 10000 := by
  simp [Record.Readable]

/-- An integer is readable. -/
@[simp]
theorem readable_int32 (t : UInt32) : (Record.int32 t).Readable := by simp [Record.Readable]

@[simp, inherit_doc readable_int32]
theorem readable_int64 (t : UInt64) : (Record.int64 t).Readable := by simp [Record.Readable]

@[simp, inherit_doc readable_int32]
theorem readable_char (t : UInt8) : (Record.char t).Readable := by simp [Record.Readable]

def encode : Record → List UInt8
  | .int64 t => leBytes 8 t.toNat
  | .int32 t => leBytes 4 t.toNat
  | .int16 t => leBytes 2 t.toNat
  | .char t => [t]
  | .str none => leBytes 2 0xffff
  | .str (some x) => leBytes 2 x.strlen ++ x.bytes

theorem stringlen_of_lt {x : CStr} (h : x.strlen < 2 ^ 31) : stringlen x = x.strlen := by
  unfold stringlen
  generalize x.strlen = n at h ⊢
  exact Int.bmod_eq_of_le (by norm_num) (by norm_num; omega)

theorem ofInt_stringlen {x : CStr} (h : x.strlen ≤ 10000) :
    (UInt16.ofInt (stringlen x)).toNat = x.strlen := by
  rw [stringlen_of_lt (by omega), UInt16.ofInt, UInt16.toNat_ofNat']
  omega

variable {s : Option C.State} {hdr p q : List UInt8} {c c' : UnrealDB C} {rs : List Record}

variable {r : Record}

/-- A record is written by one call, or, a string with bytes, by one for the length and one for the
bytes. -/
theorem writeRecord_eq (c : UnrealDB C) (hr : r.Readable) :
    writeRecord c r = unrealdbWrite c (encode r) ∨
      ∃ w w', encode r = w ++ w' ∧ writeRecord c r = match unrealdbWrite c w with
          | (false, c') => (false, c')
          | (true, c') => unrealdbWrite c' w' := by
  rcases r with t | t | t | t | _ | x
  iterate 5 exact .inl rfl
  have hx : x.strlen ≤ 10000 := hr x rfl
  have hlen := ofInt_stringlen hx
  have hsmall : ¬(0xffff ≤ stringlen x) := by
    rw [stringlen_of_lt (by omega)]
    omega
  have htake : x.bytes.take x.strlen = x.bytes := take_of_length_le (by rfl)
  simp only [writeRecord, unrealdbWriteStr, unrealdbWriteInt16, if_neg hsmall, hlen, htake]
  by_cases hpos : 0 < UInt16.ofInt (stringlen x) ∧ UInt16.ofInt (stringlen x) < 0xffff
  · exact .inr ⟨_, _, rfl, by split <;> simp_all⟩
  · -- the empty string is only its length
    have hb : x.bytes = [] := by
      have hlt : ¬(0 < x.strlen ∧ x.strlen < 65535) := by
        simpa [UInt16.lt_iff_toNat_lt, hlen] using hpos
      exact length_eq_zero_iff.mp (show x.strlen = 0 by omega)
    refine .inl ?_
    simp only [if_neg hpos, encode, hb, append_nil]
    split <;> simp_all

variable (hw : Writing s hdr c p)
include hw

/-- A write that succeeds appends the record's bytes to the plaintext. -/
theorem writeRecord_spec (hr : r.Readable) (h : writeRecord c r = (true, c')) :
    Writing s hdr c' (p ++ encode r) := by
  rcases writeRecord_eq c hr with heq | ⟨w, w', henc, heq⟩
  · exact unrealdbWrite_spec hw (heq ▸ h)
  rw [heq] at h
  split at h
  · simp at h
  · rename_i c1 h1
    rw [henc, ← append_assoc]
    exact unrealdbWrite_spec (unrealdbWrite_spec hw h1) h

/-- Writes that all succeed append the records' bytes to the plaintext. -/
theorem writeRecords_spec (hrs : ∀ r ∈ rs, r.Readable)
    (h : writeRecords c rs = some c') : Writing s hdr c' (p ++ rs.flatMap encode) := by
  induction rs generalizing c p with
  | nil =>
    obtain rfl : c = c' := by simpa [writeRecords] using h
    simpa using hw
  | cons r rs ih =>
    simp only [writeRecords] at h
    split at h
    · simp at h
    · rename_i c1 h1
      have := ih (writeRecord_spec hw (hrs r (by simp)) h1) (fun r' hr' => hrs r' (by simp [hr'])) h
      simpa [append_assoc] using this

theorem writeRecord_appends (h : writeRecord c r = (true, c')) :
    ∃ w, Writing s hdr c' (p ++ w) := by
  rcases r with t | t | t | t | x
  any_goals exact ⟨_, unrealdbWrite_spec hw h⟩
  rcases x with _ | x
  · exact ⟨_, unrealdbWrite_spec hw h⟩
  simp only [writeRecord, unrealdbWriteStr] at h
  by_cases hlong : 0xffff ≤ stringlen x
  · simp [hlong] at h
  rw [if_neg hlong] at h
  split at h
  · simp at h
  rename_i c1 hint
  have h1 := unrealdbWrite_spec hw hint
  split_ifs at h with hpos
  · have h2 := unrealdbWrite_spec h1 h
    exact ⟨_, append_assoc p _ _ ▸ h2⟩
  · simp only [Prod.mk.injEq, true_and] at h
    exact ⟨_, h ▸ h1⟩

theorem writeRecords_appends (h : writeRecords c rs = some c') :
    ∃ w, Writing s hdr c' (p ++ w) := by
  induction rs generalizing c p with
  | nil =>
    obtain rfl : c = c' := by simpa [writeRecords] using h
    exact ⟨[], by simpa using hw⟩
  | cons r rs ih =>
    simp only [writeRecords] at h
    split at h
    · simp at h
    rename_i c1 h1
    obtain ⟨w1, hw1⟩ := writeRecord_appends hw h1
    obtain ⟨w2, hw2⟩ := ih hw1 h
    exact ⟨w1 ++ w2, by rwa [← append_assoc]⟩

omit hw

theorem writeRecords_append (c : UnrealDB C) (rs rs' : List Record) :
    writeRecords c (rs ++ rs') = (writeRecords c rs).bind fun c' => writeRecords c' rs' := by
  induction rs generalizing c with
  | nil => rfl
  | cons r rs ih =>
    simp only [cons_append, writeRecords]
    split
    · rfl
    · exact ih _

/-- Reading a little-endian integer off the plaintext. -/
theorem unrealdbRead_leBytes {k n : ℕ} (hr : Reading c (leBytes k n ++ q)) (hk : 0 < k) :
    ∃ c', unrealdbRead c k = (some (leBytes k n), c') ∧ Reading c' q := by
  have hne : leBytes k n ≠ [] := length_pos_iff.mp (by rw [length_leBytes]; exact hk)
  obtain ⟨c', h1, h2⟩ := unrealdbRead_append hr hne
  rw [length_leBytes] at h1
  exact ⟨c', h1, h2⟩

theorem unrealdbReadInt16_spec {n : ℕ} (hn : n < 65536) (hr : Reading c (leBytes 2 n ++ q)) :
    ∃ c', unrealdbReadInt16 c = (some (UInt16.ofNat n), c') ∧ Reading c' q := by
  obtain ⟨c', h1, h2⟩ := unrealdbRead_leBytes hr (by norm_num)
  refine ⟨c', ?_, h2⟩
  simp only [unrealdbReadInt16, h1, leNat_leBytes_of_lt (k := 2) hn]

theorem unrealdbReadInt64_spec {t : UInt64} (hr : Reading c (leBytes 8 t.toNat ++ q)) :
    ∃ c', unrealdbReadInt64 c = (some t, c') ∧ Reading c' q := by
  obtain ⟨c', h1, h2⟩ := unrealdbRead_leBytes hr (by norm_num)
  refine ⟨c', ?_, h2⟩
  simp only [unrealdbReadInt64, h1, leNat_leBytes_of_lt (k := 8) t.toNat_lt, UInt64.ofNat_toNat]

theorem unrealdbReadInt32_spec {t : UInt32} (hr : Reading c (leBytes 4 t.toNat ++ q)) :
    ∃ c', unrealdbReadInt32 c = (some t, c') ∧ Reading c' q := by
  obtain ⟨c', h1, h2⟩ := unrealdbRead_leBytes hr (by norm_num)
  refine ⟨c', ?_, h2⟩
  simp only [unrealdbReadInt32, h1, leNat_leBytes_of_lt (k := 4) t.toNat_lt, UInt32.ofNat_toNat]

/-- Reading a string off the plaintext, or `NULL`. -/
theorem unrealdbReadStr_spec {x : Option CStr} (hreadable : (Record.str x).Readable)
    (hr : Reading c (encode (.str x) ++ q)) :
    ∃ c', unrealdbReadStr c = (some x, c') ∧ Reading c' q := by
  rcases x with _ | x
  · obtain ⟨c', h1, h2⟩ := unrealdbReadInt16_spec (by norm_num) hr
    exact ⟨c', by simp [unrealdbReadStr, h1], h2⟩
  have hx : x.strlen ≤ 10000 := hreadable x rfl
  rw [encode, append_assoc] at hr
  obtain ⟨c1, h1, h2⟩ := unrealdbReadInt16_spec (by omega) hr
  have hlen : (UInt16.ofNat x.strlen).toNat = x.strlen := by
    rw [UInt16.toNat_ofNat']; omega
  have hne : UInt16.ofNat x.strlen ≠ 0xffff := by
    intro h
    have := congrArg UInt16.toNat h
    simp at this
    omega
  have hle : ¬ UInt16.ofNat x.strlen > 10000 := by
    rw [gt_iff_lt, UInt16.lt_iff_toNat_lt, hlen]
    simpa using hx
  by_cases h0 : x.bytes = []
  · -- The empty string.
    have h00 : x.strlen = 0 := by rw [CStr.strlen, h0]; rfl
    have hx0 : x = CStr.empty := CStr.ext_bytes h0
    refine ⟨c1, ?_, by simpa [h0] using h2⟩
    simp only [unrealdbReadStr, h1]
    rw [if_neg hne, if_pos (by rw [h00]; rfl), hx0]
  · -- The bytes follow the length.
    obtain ⟨c2, h3, h4⟩ := unrealdbRead_append h2 h0
    refine ⟨c2, ?_, h4⟩
    have hpos : UInt16.ofNat x.strlen ≠ 0 := by
      intro h
      have := congrArg UInt16.toNat h
      rw [hlen] at this
      exact h0 (length_eq_zero_iff.mp this)
    simp only [unrealdbReadStr, h1]
    rw [if_neg hne, if_neg hpos, if_neg hle, hlen, CStr.strlen, h3]
    simp only [CStr.ofBuffer_bytes]

/-- A readable record is read as it was written. -/
theorem readRecord_spec (hreadable : r.Readable) (hr : Reading c (encode r ++ q)) :
    ∃ c', readRecord c r.kind = (some r, c') ∧ Reading c' q := by
  rcases r with t | t | t | t | x
  · obtain ⟨c', h1, h2⟩ := unrealdbReadInt64_spec hr
    exact ⟨c', by simp [readRecord, Record.kind, h1], h2⟩
  · obtain ⟨c', h1, h2⟩ := unrealdbReadInt32_spec hr
    exact ⟨c', by simp [readRecord, Record.kind, h1], h2⟩
  · obtain ⟨c', h1, h2⟩ := unrealdbReadInt16_spec t.toNat_lt hr
    exact ⟨c', by simp [readRecord, Record.kind, h1], h2⟩
  · obtain ⟨c', h1, h2⟩ := unrealdbRead_append hr (by simp [encode])
    refine ⟨c', ?_, h2⟩
    simp only [encode, length_singleton] at h1
    simp [readRecord, Record.kind, unrealdbReadChar, h1]
  · obtain ⟨c', h1, h2⟩ := unrealdbReadStr_spec hreadable hr
    exact ⟨c', by simp [readRecord, Record.kind, h1], h2⟩

theorem readRecords_spec (hrs : ∀ r ∈ rs, r.Readable) (hr : Reading c (rs.flatMap encode ++ q)) :
    ∃ c', readRecords c (rs.map Record.kind) = some (rs, c') ∧ Reading c' q := by
  induction rs generalizing c with
  | nil => exact ⟨c, rfl, by simpa using hr⟩
  | cons r rs ih =>
    rw [flatMap_cons, append_assoc] at hr
    obtain ⟨c1, h1, h2⟩ := readRecord_spec (hrs r (by simp)) hr
    obtain ⟨c2, h3, h4⟩ := ih (fun r' hr' => hrs r' (by simp [hr'])) h2
    exact ⟨c2, by simp [readRecords, h1, h3], h4⟩

/-- The bytes that are left, in the buffer and in the file. -/
def UnrealDB.pending (c : UnrealDB C) : ℕ := c.buf.length + c.fd.rest.length

/-- A read adds nothing to what is left. One that succeeds takes something off, and returns what `P`
says. -/
def Takes {α : Type} (c : UnrealDB C) (P : α → Prop) (r : Option α × UnrealDB C) : Prop :=
  r.2.pending ≤ c.pending ∧ ∀ x, r.1 = some x → P x ∧ r.2.pending < c.pending

theorem Takes.pending {α : Type} {P : α → Prop} {r : Option α × UnrealDB C} {x : α}
    (h : Takes c P r) (hr : r = (some x, c')) : c'.pending < c.pending := by
  subst hr
  exact (h.2 x rfl).2

/-- The read loop returns the bytes it has and `len` more, and uses up a block. -/
theorem unrealdbReadLoop_takes (c : UnrealDB C) (st : C.State) (acc : List UInt8) (len : ℕ) :
    (unrealdbReadLoop c st acc len).2.pending ≤ c.pending ∧
      ∀ b, (unrealdbReadLoop c st acc len).1 = some b → b.length = acc.length + len ∧
        (unrealdbReadLoop c st acc len).2.pending < c.fd.rest.length := by
  rw [unrealdbReadLoop]
  have hsplit : (c.fd.fread (cryptFileChunkSize + aBytes)).1.length +
      (c.fd.fread (cryptFileChunkSize + aBytes)).2.rest.length = c.fd.rest.length := by
    simp only [File.fread, length_take, length_drop]
    omega
  have ha : 0 < aBytes := by decide
  split
  · exact ⟨by simp only [pending, setError]; omega, by simp⟩
  rename_i hin
  have hpos := length_pos_iff.mpr hin
  split
  · exact ⟨by simp only [pending, setError]; omega, by simp⟩
  rename_i st' out tag hpull
  have hout := C.pull_length _ _ _ _ _ hpull
  split_ifs with hlen heof
  · exact ⟨by simp only [pending, setError]; omega, by simp⟩
  · obtain ⟨hle, hsome⟩ := unrealdbReadLoop_takes { c with
      fd := (c.fd.fread (cryptFileChunkSize + aBytes)).2, st := some st' } st' (acc ++ out)
        (len - out.length)
    refine ⟨hle.trans (by simp only [pending]; omega), fun b hb => ?_⟩
    obtain ⟨hb, hlt⟩ := hsome b hb
    rw [length_append] at hb
    exact ⟨by omega, hlt.trans (by dsimp only; omega)⟩
  · simp only [pending, length_drop, Option.some.injEq]
    refine ⟨by omega, ?_⟩
    rintro _ rfl
    rw [length_append, length_take]
    omega
termination_by c.fd.rest.length
decreasing_by omega

theorem unrealdbRead_takes (c : UnrealDB C) {len : ℕ} (hlen : 0 < len) :
    Takes c (fun b => b.length = len) (unrealdbRead c len) := by
  unfold unrealdbRead Takes
  split_ifs
  any_goals exact ⟨le_rfl, nofun⟩
  rcases hst : c.st with _ | st
  · dsimp only
    have hread : (c.fd.fread len).1.length = min len c.fd.rest.length := length_take
    have hrest : (c.fd.fread len).2.rest.length = c.fd.rest.length - len := length_drop
    split_ifs with hshort
    · exact ⟨by simp only [pending, setError]; omega, nofun⟩
    simp only [pending, Option.some.injEq]
    refine ⟨by omega, ?_⟩
    rintro _ rfl
    omega
  · dsimp only
    split_ifs with hbuf
    · have hpos := length_pos_iff.mpr hbuf.1
      simp only [pending, length_drop, Option.some.injEq]
      refine ⟨by omega, ?_⟩
      rintro _ rfl
      rw [length_take]
      omega
    · obtain ⟨hle, hsome⟩ := unrealdbReadLoop_takes { c with
        st := some st, buf := c.buf.drop (min c.buf.length len) } st (c.buf.take (min c.buf.length len))
          (len - min c.buf.length len)
      have hdrop : (c.buf.drop (min c.buf.length len)).length ≤ c.buf.length := by
        rw [length_drop]
        omega
      refine ⟨hle.trans (Nat.add_le_add_right hdrop _), fun b hb => ?_⟩
      obtain ⟨hb, hlt⟩ := hsome b hb
      rw [length_take] at hb
      exact ⟨by omega, hlt.trans_le (Nat.le_add_left _ _)⟩

theorem unrealdbReadInt32_takes (c : UnrealDB C) :
    Takes c (fun _ => True) (unrealdbReadInt32 c) := by
  have h := unrealdbRead_takes c (show 0 < 4 by decide)
  unfold unrealdbReadInt32
  rcases hread : unrealdbRead c 4 with ⟨_ | b, c'⟩ <;> rw [hread] at h
  · exact ⟨h.1, nofun⟩
  · exact ⟨h.1, fun _ _ => ⟨trivial, (h.2 b rfl).2⟩⟩

theorem unrealdbReadInt64_takes (c : UnrealDB C) :
    Takes c (fun _ => True) (unrealdbReadInt64 c) := by
  have h := unrealdbRead_takes c (show 0 < 8 by decide)
  unfold unrealdbReadInt64
  rcases hread : unrealdbRead c 8 with ⟨_ | b, c'⟩ <;> rw [hread] at h
  · exact ⟨h.1, nofun⟩
  · exact ⟨h.1, fun _ _ => ⟨trivial, (h.2 b rfl).2⟩⟩

/-- Every string that the reader returns is short: a longer length is refused. -/
theorem unrealdbReadStr_takes (c : UnrealDB C) :
    Takes c (fun x => ∀ s ∈ x, s.strlen ≤ 10000) (unrealdbReadStr c) := by
  have h := unrealdbRead_takes c (show 0 < 2 by decide)
  unfold unrealdbReadStr unrealdbReadInt16
  rcases hread : unrealdbRead c 2 with ⟨_ | b, c₁⟩ <;> rw [hread] at h
  · exact ⟨h.1, nofun⟩
  have hlt := (h.2 b rfl).2
  dsimp only
  split_ifs with hnull hempty hlong
  · exact ⟨h.1, fun x hx => ⟨fun s hs => (by cases hx; cases hs), hlt⟩⟩
  · exact ⟨h.1, fun x hx => ⟨fun s hs => (by cases hx; cases hs; exact Nat.zero_le _), hlt⟩⟩
  · exact ⟨h.1, nofun⟩
  have hpos : 0 < (UInt16.ofNat (leNat b)).toNat :=
    Nat.pos_of_ne_zero fun h0 => hempty (UInt16.toNat_inj.mp h0)
  have hle : (UInt16.ofNat (leNat b)).toNat ≤ 10000 := by
    simpa using UInt16.le_iff_toNat_le.mp (UInt16.not_lt.mp hlong)
  have h₂ := unrealdbRead_takes c₁ hpos
  rcases hread₂ : unrealdbRead c₁ (UInt16.ofNat (leNat b)).toNat with ⟨_ | b₂, c₂⟩ <;>
    rw [hread₂] at h₂
  · exact ⟨h₂.1.trans h.1, nofun⟩
  · obtain ⟨hlength, hlt₂⟩ := h₂.2 b₂ rfl
    refine ⟨h₂.1.trans h.1, fun x hx => ⟨?_, hlt₂.trans hlt⟩⟩
    rintro s rfl
    cases hx
    exact (CStr.strlen_ofBuffer_le b₂).trans (hlength.le.trans hle)

theorem readRecord_pending_le (c : UnrealDB C) (k : Kind) :
    (readRecord c k).2.pending ≤ c.pending := by
  rcases k with _ | _ | _ | _ | _
  · refine le_trans (le_of_eq ?_) (unrealdbRead_takes c (show 0 < 8 by decide)).1
    unfold readRecord unrealdbReadInt64
    rcases unrealdbRead c 8 with ⟨_ | b, c'⟩ <;> rfl
  · refine le_trans (le_of_eq ?_) (unrealdbRead_takes c (show 0 < 4 by decide)).1
    unfold readRecord unrealdbReadInt32
    rcases unrealdbRead c 4 with ⟨_ | b, c'⟩ <;> rfl
  · refine le_trans (le_of_eq ?_) (unrealdbRead_takes c (show 0 < 2 by decide)).1
    unfold readRecord unrealdbReadInt16
    rcases unrealdbRead c 2 with ⟨_ | b, c'⟩ <;> rfl
  · refine le_trans (le_of_eq ?_) (unrealdbRead_takes c (show 0 < 1 by decide)).1
    unfold readRecord unrealdbReadChar
    rcases unrealdbRead c 1 with ⟨_ | b, c'⟩ <;> rfl
  · exact (unrealdbReadStr_takes c).1

theorem readRecords_pending_le {ks : List Kind}
    (h : readRecords c ks = some (rs, c')) : c'.pending ≤ c.pending := by
  induction ks generalizing c rs with
  | nil =>
    obtain ⟨-, rfl⟩ : [] = rs ∧ c = c' := by simpa [readRecords] using h
    exact le_rfl
  | cons k ks ih =>
    have hstep := readRecord_pending_le c k
    unfold readRecords at h
    rcases hread : readRecord c k with ⟨_ | r, c₁⟩
    · simp [hread] at h
    rw [hread] at h hstep
    obtain ⟨⟨rest, c₂⟩, hrest, heq⟩ := Option.map_eq_some_iff.mp h
    obtain ⟨-, rfl⟩ : r :: rest = rs ∧ c₂ = c' := by simpa using heq
    exact (ih hrest).trans hstep

theorem unrealdbReadStr_strlen_le {x : CStr} (h : unrealdbReadStr c = (some (some x), c')) :
    x.strlen ≤ 10000 :=
  ((unrealdbReadStr_takes c).2 _ (by rw [h])).1 x rfl

end ObbyIRCd.Database
