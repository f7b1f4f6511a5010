import ObbyIRCd.Database.RoundTrip

/-!
# Plain files

A file that is opened without a secret and written on a disk with enough space: all writes succeed
(`exists_writeRecords_plain`), the closed file is `plainBytes`, and a reader starts at the first record
(`unrealdbOpenRead_plainBytes`).
-/

namespace ObbyIRCd.Database

variable {C : Crypto}

def plainBytes (now : UInt64) (rs : List Record) : List UInt8 :=
  fileHeader "UnrealIRCd-DB-v1" ++ (leBytes 8 now.toNat ++ rs.flatMap encode)

/-- The disk space that a plain file takes. -/
def plainSize (rs : List Record) : ℕ := 40 + (rs.flatMap encode).length

theorem length_fileHeader_plain : (fileHeader "UnrealIRCd-DB-v1").length = 32 := by decide +kernel

variable {hdr p : List UInt8} {c : UnrealDB C}

variable (hw : Writing none hdr c p)
include hw

theorem unrealdbWrite_of_free (wbuf : List UInt8) (hfree : wbuf.length ≤ c.fd.free) :
    ∃ c', unrealdbWrite c wbuf = (true, c') ∧ c'.fd.free = c.fd.free - wbuf.length := by
  have hmin : (c.fd.fwrite wbuf).1 = wbuf.length := Nat.min_eq_left hfree
  have herror : c.error.isSome = false := by rw [hw.error_eq]; rfl
  refine ⟨{ c with fd := (c.fd.fwrite wbuf).2 }, ?_, ?_⟩
  · unfold unrealdbWrite
    rw [if_neg (Bool.eq_false_iff.mp herror), if_neg (not_not.mpr hw.mode_eq), (hw.plain rfl).1]
    rw [if_neg (not_not.mpr hmin)]
  · show c.fd.free - min wbuf.length c.fd.free = _
    rw [Nat.min_eq_left hfree]

theorem writeRecord_of_free {r : Record} (hr : r.Readable) (hfree : (encode r).length ≤ c.fd.free) :
    ∃ c', writeRecord c r = (true, c') ∧ c'.fd.free = c.fd.free - (encode r).length := by
  rcases writeRecord_eq c hr with heq | ⟨w, w', henc, heq⟩
  · rw [heq]
    exact unrealdbWrite_of_free hw _ hfree
  rw [henc, List.length_append] at hfree ⊢
  obtain ⟨c₁, h1, hfree1⟩ := unrealdbWrite_of_free hw w (by omega)
  obtain ⟨c₂, h2, hfree2⟩ := unrealdbWrite_of_free (unrealdbWrite_spec hw h1) w' (by omega)
  rw [heq, h1]
  exact ⟨c₂, h2, by omega⟩

theorem exists_writeRecords_of_free {rs : List Record} (hrs : ∀ r ∈ rs, r.Readable)
    (hfree : (rs.flatMap encode).length ≤ c.fd.free) : ∃ c', writeRecords c rs = some c' := by
  induction rs generalizing c p with
  | nil => exact ⟨c, rfl⟩
  | cons r rs ih =>
    rw [List.flatMap_cons, List.length_append] at hfree
    have hr := hrs r List.mem_cons_self
    obtain ⟨c₁, h1, hfree1⟩ := writeRecord_of_free hw hr (by omega)
    obtain ⟨c₂, h2⟩ := ih (writeRecord_spec hw hr h1) (fun r' h => hrs r' (List.mem_cons_of_mem r h))
      (by omega)
    refine ⟨c₂, ?_⟩
    rw [writeRecords, h1]
    exact h2

omit hw

theorem exists_unrealdbOpenWrite_plain (C : Crypto) (now : UInt64) (random : Random) {free : ℕ}
    (hfree : 40 ≤ free) :
    ∃ c : UnrealDB C, unrealdbOpenWrite none now random free = .ok (c, none) ∧
      Writing none (fileHeader "UnrealIRCd-DB-v1") c (leBytes 8 now.toNat) ∧
      c.fd.free = free - 40 := by
  have hheader : (⟨[], free, [], false⟩ : File).fwriteAll [fileHeader "UnrealIRCd-DB-v1"] =
      some ⟨fileHeader "UnrealIRCd-DB-v1", free - 32, [], false⟩ := by
    rw [fwriteAll_of_le (by simp only [List.flatten_singleton, length_fileHeader_plain]; omega)]
    simp only [List.flatten_singleton, length_fileHeader_plain, List.nil_append]
  have hw : Writing (C := C) none (fileHeader "UnrealIRCd-DB-v1")
      ⟨⟨fileHeader "UnrealIRCd-DB-v1", free - 32, [], false⟩, .write, none, 0, [], none⟩ [] :=
    ⟨rfl, rfl, fun _ => ⟨rfl, (List.append_nil _).symm⟩, fun _ h => by cases h⟩
  obtain ⟨c, hc, hfree'⟩ := unrealdbWrite_of_free hw (leBytes 8 now.toNat)
    (by rw [length_leBytes]; show 8 ≤ free - 32; omega)
  have hopen : unrealdbOpenWrite (C := C) none now random free = .ok (c, none) := by
    simp [unrealdbOpenWrite, unrealdbWriteInt64, hheader, hc]
  refine ⟨c, hopen, unrealdbOpenWrite_plain hopen, ?_⟩
  rw [hfree']
  show free - 32 - 8 = _
  omega

/-- On a disk with enough space all records are written, and the closed file has them. -/
theorem exists_writeRecords_plain (C : Crypto) (now : UInt64) (random : Random) {free : ℕ}
    {rs : List Record} (hrs : ∀ r ∈ rs, r.Readable) (hfree : plainSize rs ≤ free) :
    ∃ c c' : UnrealDB C, unrealdbOpenWrite none now random free = .ok (c, none) ∧
      writeRecords c rs = some c' ∧ unrealdbClose c' = some (plainBytes now rs) := by
  unfold plainSize at hfree
  have hheader : 40 ≤ free := by omega
  obtain ⟨c, hopen, hw, hfree'⟩ := exists_unrealdbOpenWrite_plain C now random hheader
  obtain ⟨c', hwrite⟩ := exists_writeRecords_of_free hw hrs (by omega)
  have hplain := (writeRecords_spec hw hrs hwrite).plain rfl
  refine ⟨c, c', hopen, hwrite, ?_⟩
  unfold unrealdbClose plainBytes
  rw [hplain.1]
  rw [hplain.2]

theorem unrealdbOpenRead_plainBytes (C : Crypto) (now : UInt64) (rs : List Record) :
    ∃ c : UnrealDB C, unrealdbOpenRead none (plainBytes now rs) = .ok c ∧
      Reading c (rs.flatMap encode) :=
  unrealdbOpenRead_plain now _

end ObbyIRCd.Database
