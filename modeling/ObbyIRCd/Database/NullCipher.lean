import ObbyIRCd.Database.Records

/-!
# The null cipher

An instance of the primitives that can be followed by hand: the secretstream of `nullCrypto` does
not encrypt. Files on a disk with enough space are written without a failure, a plain one
(`plainFile`) and a crypted one as long as it is a single block (`cryptedFile`).
-/

namespace ObbyIRCd.Database

open List

def nullPull : List UInt8 → Option (Unit × List UInt8 × Tag)
  | [] => none
  | b :: rest =>
    if rest.length < 16 then none
    else some ((), rest.take (rest.length - 16), if b = 3 then .final else .message)

theorem nullPull_length {c m : List UInt8} {s : Unit} {t : Tag} (h : nullPull c = some (s, m, t)) :
    m.length + aBytes = c.length := by
  rcases c with _ | ⟨b, rest⟩
  · simp [nullPull] at h
  · simp only [nullPull, Option.ite_none_left_eq_some, Option.some.injEq, Prod.mk.injEq] at h
    rw [← h.2.2.1, length_take, length_cons, aBytes]
    omega

/-- A null cipher: a block is a tag byte, the message and sixteen zeroes. -/
def nullCrypto : Crypto where
  State := Unit
  argon2id _ _ _ _ _ keylen := some (List.replicate keylen 0)
  initPush _ _ := ((), List.replicate headerBytes 0)
  initPull _ _ := some ()
  push _ m t := ((), (if t = .final then 3 else 0) :: (m ++ List.replicate 16 0))
  pull _ := nullPull
  header_length _ _ := by simp
  push_length _ m t := by simp [aBytes]
  pull_length _ _ _ _ _ := nullPull_length
  Synced _ _ := True
  initPull_initPush _ _ := ⟨(), rfl, trivial⟩
  pull_push _ _ m t _ := ⟨(), by rcases t <;> simp [nullPull], trivial⟩

def zeroRandom : Random := ⟨List.replicate 16 0, rfl, []⟩

/-- A plain file opened for writing that holds `p` behind its header. -/
def plainFile (p : List UInt8) (free : ℕ) : UnrealDB nullCrypto :=
  ⟨⟨fileHeader "UnrealIRCd-DB-v1" ++ p, free, [], false⟩, .write, none, 0, [], none⟩

theorem unrealdbOpenWrite_plainFile (free : ℕ) :
    unrealdbOpenWrite (C := nullCrypto) none 5 zeroRandom (free + 40) =
      .ok (plainFile (leBytes 8 5) free, none) := rfl

theorem unrealdbWrite_plainFile (p wbuf : List UInt8) (free : ℕ) :
    unrealdbWrite (plainFile p (free + wbuf.length)) wbuf = (true, plainFile (p ++ wbuf) free) := by
  simp [unrealdbWrite, plainFile, File.fwrite]

variable (hdr : List UInt8) (free : ℕ)

/-- A crypted file of the null cipher opened for writing, with `p` in its buffer. -/
def cryptedFile (p : List UInt8) : UnrealDB nullCrypto :=
  ⟨⟨hdr, free, [], false⟩, .write, some (), 0, p, none⟩

variable {p : List UInt8}

theorem unrealdbWrite_cryptedFile {w : List UInt8} (h : p.length + w.length < 4096) :
    unrealdbWrite (cryptedFile hdr free p) w = (true, cryptedFile hdr free (p ++ w)) :=
  (unrealdbWriteLoop.eq_1 (cryptedFile hdr free p) () w).trans (if_pos h)

theorem writeRecord_cryptedFile {r : Record}
    (hr : r.Readable) (h : p.length + (encode r).length < 4096) :
    writeRecord (cryptedFile hdr free p) r = (true, cryptedFile hdr free (p ++ encode r)) := by
  rcases writeRecord_eq (cryptedFile hdr free p) hr with heq | ⟨w, w', henc, heq⟩
  · rw [heq]
    exact unrealdbWrite_cryptedFile hdr free h
  rw [henc, length_append] at h
  rw [heq, unrealdbWrite_cryptedFile hdr free (by omega), henc, ← append_assoc]
  exact unrealdbWrite_cryptedFile hdr free (by rw [length_append]; omega)

theorem writeRecords_cryptedFile {rs : List Record}
    (hrs : ∀ r ∈ rs, r.Readable) (h : p.length + (rs.flatMap encode).length < 4096) :
    writeRecords (cryptedFile hdr free p) rs =
      some (cryptedFile hdr free (p ++ rs.flatMap encode)) := by
  induction rs generalizing p with
  | nil => simp [writeRecords]
  | cons r rs ih =>
    rw [flatMap_cons, length_append] at h
    rw [writeRecords, writeRecord_cryptedFile hdr free (hrs r (by simp)) (by omega)]
    simp only
    rw [ih (fun r' hr' => hrs r' (by simp [hr'])) (by rw [length_append]; omega),
      flatMap_cons, append_assoc]

theorem unrealdbClose_of_pushBlock {C : Crypto} {c c' : UnrealDB C} {st : C.State}
    (hst : c.st = some st) (h : c.pushBlock st c.buf .final = (true, c')) :
    unrealdbClose c = some c'.fd.written := by
  simp only [unrealdbClose, hst, h]

theorem unrealdbClose_cryptedFile {free : ℕ}
    (h : p.length + 17 ≤ free) : ∃ file, unrealdbClose (cryptedFile hdr free p) = some file := by
  have hlen : (nullCrypto.push () p .final).2.length = p.length + 17 := nullCrypto.push_length _ _ _
  have hfit : ((cryptedFile hdr free p).fd.fwrite (nullCrypto.push () p .final).2).1 =
      (nullCrypto.push () p .final).2.length := by
    simp only [File.fwrite, cryptedFile]
    omega
  obtain ⟨c', hpush⟩ : ∃ c', (cryptedFile hdr free p).pushBlock () p .final = (true, c') := by
    unfold UnrealDB.pushBlock
    rw [if_neg (not_not.mpr hfit)]
    exact ⟨_, rfl⟩
  exact ⟨c'.fd.written, unrealdbClose_of_pushBlock rfl hpush⟩

/-- `fwrite` calls on a disk with enough space. -/
theorem fwriteAll_of_le {fd : File} {l : List (List UInt8)} (h : l.flatten.length ≤ fd.free) :
    fd.fwriteAll l = some
      { fd with written := fd.written ++ l.flatten, free := fd.free - l.flatten.length } := by
  induction l generalizing fd with
  | nil => simp [File.fwriteAll]
  | cons bytes l ih =>
    rw [flatten_cons, length_append] at h
    have hmin : min bytes.length fd.free = bytes.length := by omega
    simp only [File.fwriteAll, File.fwrite, hmin, take_length, ne_eq, not_true_eq_false, if_false]
    rw [ih (by simp only; omega)]
    simp only [flatten_cons, length_append, append_assoc, Nat.sub_sub]

/-- A secret with a password of the required strength. -/
def exampleSecret : Secret nullCrypto :=
  ⟨"example", ⟨ascii "Abcdefgh12", by decide +kernel⟩, []⟩

theorem cryptedNow_readable : (Record.str (some cryptedNow)).Readable := by
  intro x hx
  obtain rfl : cryptedNow = x := by simpa using hx
  decide +kernel

/-- The configuration that a file of this secret is written with. -/
def exampleConfig : SecretCache nullCrypto exampleSecret.password :=
  ⟨{ newConfig zeroRandom.salt with key := List.replicate 32 0 },
    ⟨rfl, rfl, rfl, by decide, by decide, rfl⟩⟩

def exampleHeader : List UInt8 :=
  fileHeader "UnrealIRCd-DB-Crypted-v1" ++ exampleConfig.val.fields.flatten ++
    List.replicate headerBytes 0

def exampleStart : List UInt8 := encode (.str (some cryptedNow)) ++ leBytes 8 5

/-- Opening a crypted file writes its headers, and the start of its stream is buffered. -/
theorem unrealdbOpenWrite_cryptedFile :
    unrealdbOpenWrite (some exampleSecret) 5 zeroRandom (free + 86) =
      .ok (cryptedFile exampleHeader free exampleStart,
        some (unrealdbAddToSecretCache exampleSecret exampleConfig)) := by
  have hcfg : writeConfig exampleSecret zeroRandom = .ok exampleConfig := rfl
  have hA : (⟨[], free + 86, [], false⟩ : File).fwriteAll [fileHeader "UnrealIRCd-DB-Crypted-v1"] =
      some ⟨fileHeader "UnrealIRCd-DB-Crypted-v1", free + 54, [], false⟩ := rfl
  have hB : (⟨fileHeader "UnrealIRCd-DB-Crypted-v1", free + 54, [], false⟩ : File).fwriteAll
      exampleConfig.val.fields = some ⟨fileHeader "UnrealIRCd-DB-Crypted-v1" ++
        exampleConfig.val.fields.flatten, free + 24, [], false⟩ := by
    have hlen : exampleConfig.val.fields.flatten.length = 30 := by decide +kernel
    rw [fwriteAll_of_le (by rw [hlen]; simp)]
    simp [hlen]
  have hC : (⟨fileHeader "UnrealIRCd-DB-Crypted-v1" ++ exampleConfig.val.fields.flatten, free + 24,
      [], false⟩ : File).fwriteAll [replicate headerBytes 0] =
        some ⟨exampleHeader, free, [], false⟩ := rfl
  have hnow : (encode (.str (some cryptedNow))).length = 27 := by decide +kernel
  have hD : unrealdbWriteStr (cryptedFile exampleHeader free []) (some cryptedNow) =
      (true, cryptedFile exampleHeader free (encode (.str (some cryptedNow)))) := by
    have h := writeRecord_cryptedFile exampleHeader free (p := []) cryptedNow_readable
      (by rw [length_nil]; omega)
    rwa [nil_append] at h
  have hE : unrealdbWriteInt64 (cryptedFile exampleHeader free (encode (.str (some cryptedNow)))) 5 =
      (true, cryptedFile exampleHeader free exampleStart) :=
    unrealdbWrite_cryptedFile exampleHeader free (by rw [length_leBytes]; omega)
  have hpush : nullCrypto.initPush exampleConfig.val.key zeroRandom.stream =
    ((), replicate headerBytes 0) := rfl
  unfold unrealdbOpenWrite
  simp only [hA, hcfg, hB, hpush, hC]
  unfold cryptedFile at hD
  rw [hD]
  unfold cryptedFile at hE
  simp only [hE]
  rfl

end ObbyIRCd.Database
