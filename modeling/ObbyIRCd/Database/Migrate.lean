import ObbyIRCd.Database.Table

/-!
# Files of the migration tool

`obbyircd-migrate` writes its files without a header, which `unrealdb_open` takes for an old format and
reads from the start (`unrealdbOpenReadAny_headerless`). Its strings are sequences of any bytes. A string
without a zero byte is written as the server writes it (`writeFields_eq`); the server would read one with
a zero byte up to there.
-/

namespace ObbyIRCd.Database

open List Option
open CStr (ofBuffer)

variable {C : Crypto}

/-- What one call of the tool's writer writes. -/
inductive Field
  | uint32 (v : UInt32)
  | uint64 (v : UInt64)
  | byte (v : UInt8)
  | str (s : List UInt8)

/-- `writeUint32LE`, `writeUint64LE`, `WriteByte` and `writeStr`, of which the last one fails beyond
`maxStringLen`. -/
def Field.write : Field → Option (List UInt8)
  | .uint32 v => some (leBytes 4 v.toNat)
  | .uint64 v => some (leBytes 8 v.toNat)
  | .byte v => some [v]
  | .str s =>
    if s = [] then some (leBytes 2 0)
    else if 0xfffe < s.length then none
    else some (leBytes 2 s.length ++ s)

def writeFields : List Field → Option (List UInt8)
  | [] => some []
  | f :: fs =>
    match f.write, writeFields fs with
    | some bytes, some rest => some (bytes ++ rest)
    | _, _ => none

def Field.record : Field → Record
  | .uint32 v => .int32 v
  | .uint64 v => .int64 v
  | .byte v => .char v
  | .str s => .str (some (ofBuffer s))

/-- A string that a server can hold. -/
def NulFree (s : List UInt8) : Prop := ∀ b ∈ s, b ≠ 0

/-- A text that the server reads as it was. -/
def Migratable (s : List UInt8) : Prop := NulFree s ∧ s.length ≤ 10000

/-- `unixOrZeroSigned`. -/
def unixOrZeroSigned (t : Option Int64) : Int64 := t.getD 0

theorem bytes_ofBuffer {s : List UInt8} (h : NulFree s) : (ofBuffer s).bytes = s :=
  takeWhile_eq_self_iff.mpr fun b hb => bne_iff_ne.mpr (h b hb)

theorem strlen_ofBuffer {s : List UInt8} (h : NulFree s) : (ofBuffer s).strlen = s.length := by
  unfold CStr.strlen
  rw [bytes_ofBuffer h]

theorem write_eq_encode {f : Field} (hf : ∀ s, f = .str s → NulFree s) {bytes : List UInt8}
    (h : f.write = some bytes) : bytes = encode f.record := by
  cases f with
  | uint32 v | uint64 v | byte v => exact (some.inj h).symm
  | str s =>
    have hs := hf s rfl
    unfold Field.record encode
    dsimp only
    rw [strlen_ofBuffer hs, bytes_ofBuffer hs]
    unfold Field.write at h
    dsimp only at h
    split_ifs at h with hnil hlong
    · obtain rfl := some.inj h
      rw [hnil]
      rfl
    · exact (some.inj h).symm

/-- Strings without a zero byte are written as the server writes them. -/
theorem writeFields_eq {fs : List Field} (hfs : ∀ f ∈ fs, ∀ s, f = .str s → NulFree s)
    {bytes : List UInt8} (h : writeFields fs = some bytes) :
    bytes = (fs.map Field.record).flatMap encode := by
  induction fs generalizing bytes with
  | nil => exact (some.inj h).symm
  | cons f fs ih =>
    unfold writeFields at h
    split at h
    · rename_i b rest hwrite hrest
      obtain rfl := some.inj h
      have hf := hfs f mem_cons_self
      have hrest' := ih (fun g hg => hfs g (mem_cons_of_mem f hg)) hrest
      rw [map_cons, flatMap_cons, ← write_eq_encode hf hwrite, ← hrest']
    · cases h

/-- Texts that the server reads as they were are read from the records. -/
theorem readable_of_migratable {fs : List Field} (hfs : ∀ f ∈ fs, ∀ s, f = .str s → Migratable s) :
    ∀ x ∈ fs.map Field.record, x.Readable := by
  intro x hx y hy
  obtain ⟨f, hf, rfl⟩ := mem_map.mp hx
  cases f with
  | str s =>
    obtain rfl : ofBuffer s = y := by simpa [Field.record] using hy
    exact (CStr.strlen_ofBuffer_le s).trans (hfs _ hf s rfl).2
  | _ => cases hy

variable {file : List UInt8}

theorem head_fgets {b : UInt8}
    (h : (ofBuffer (fgets file)).bytes.head? = some b) : file.head? = some b := by
  rcases file with - | ⟨a, file⟩
  · simp [fgets, ofBuffer] at h
  by_cases hnewline : a = 10
  · subst hnewline
    simpa [fgets, ofBuffer] using h
  · by_cases hzero : a = 0
    · simp [fgets, ofBuffer, hzero] at h
    · simpa [fgets, ofBuffer, hnewline, hzero] using h

theorem not_startsWith (hfile : file.head? ≠ some 85) {needle : String}
    (hneedle : (ascii needle).head? = some 85) : startsWith (fgets file) needle = false := by
  rw [Bool.eq_false_iff]
  intro h
  obtain ⟨rest, hrest⟩ := isPrefixOf_iff_prefix.mp h
  refine hfile (head_fgets ?_)
  rw [← hrest, head?_append, hneedle, some_or]

theorem unrealdbOpenReadAny_headerless {secr : Option (Secret C)}
    (hsecr : ∀ s ∈ secr, validSecretPassword s.password = true) (hfile : file.head? ≠ some 85) :
    ∃ c, unrealdbOpenReadAny secr file = .ok c ∧ Reading c file := by
  have hplain : unrealdbOpenRead (C := C) none file =
      .ok ⟨⟨[], 0, file, false⟩, .read, none, 0, [], none⟩ := by
    have hcrypted : startsWith (fgets file) "UnrealIRCd-DB-Crypted" = false :=
      not_startsWith hfile (by decide +kernel)
    have hother : startsWith (fgets file) "UnrealIRCd-DB" = false :=
      not_startsWith hfile (by decide +kernel)
    have hv1 : (ofBuffer (fgets file)).bytes ≠ ascii "UnrealIRCd-DB-v1" := by
      intro h
      refine hfile (head_fgets ?_)
      rw [h]
      decide +kernel
    unfold unrealdbOpenRead unrealdbOpenReadPlain
    dsimp only
    rw [if_neg (Bool.eq_false_iff.mp hcrypted), if_neg (Bool.eq_false_iff.mp hother)]
    split_ifs <;> rfl
  have hreading : Reading (C := C) ⟨⟨[], 0, file, false⟩, .read, none, 0, [], none⟩ file :=
    ⟨rfl, rfl, fun _ => rfl, fun st h => by cases h⟩
  refine ⟨_, ?_, hreading⟩
  unfold unrealdbOpenReadAny
  rcases secr with - | secr
  · rw [hplain]
  -- The reader finds out that the file is not crypted.
  have hnot : ∃ text, unrealdbOpenRead (some secr) file = .error ⟨.notCrypted, text⟩ := by
    unfold unrealdbOpenRead unrealdbOpenReadCrypted
    dsimp only
    rw [if_neg (by rw [hsecr secr rfl]; simp)]
    rcases hread : (⟨[], 0, file, false⟩ : File).freadExact 32 with - | ⟨buf, fd⟩
    · exact ⟨_, rfl⟩
    have hbuf : buf.take 24 ≠ ascii "UnrealIRCd-DB-Crypted-v1" := by
      intro h
      unfold File.freadExact File.fread at hread
      dsimp only at hread
      split_ifs at hread
      obtain ⟨rfl, -⟩ := Prod.mk.inj (some.inj hread)
      have hhead := congrArg head? h
      rw [take_take, head?_take] at hhead
      refine hfile (hhead.trans ?_)
      decide +kernel
    dsimp only
    rw [if_pos hbuf]
    exact ⟨_, rfl⟩
  obtain ⟨text, hnot⟩ := hnot
  rw [hnot]
  dsimp only
  rw [if_pos rfl, hplain]

end ObbyIRCd.Database
