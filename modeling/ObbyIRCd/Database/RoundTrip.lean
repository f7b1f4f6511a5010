import ObbyIRCd.Database.NullCipher

/-!
# A file reads back what was written to it

`unrealdbOpenWrite_plain` and `unrealdbOpenWrite_crypted` say what a file that was opened for writing
starts with: a header, and in a crypted file also the start of the plaintext. By
`unrealdbOpenRead_plain` and `unrealdbOpenRead_crypted` the reader takes off just that, with a secret
of the same password, whatever is in either secret's cache: a cached key is the key that Argon2 gives.
`unrealdbOpen_spec` is the two together.

Between the two, the records of a closed file are read back exactly when no string among them is
longer than the reader takes (`roundTrip_iff`). The writer admits longer ones.
-/

namespace ObbyIRCd.Database

open List

variable {C : Crypto}

def RoundTrips (secr : Option (Secret C)) (file : List UInt8) (rs : List Record) : Prop :=
  ∃ c c', unrealdbOpenRead secr file = .ok c ∧ readRecords c (rs.map Record.kind) = some (rs, c')

/-- `fwrite` calls that all succeeded. -/
theorem fwriteAll_spec {fd fd' : File} {l : List (List UInt8)} (h : fd.fwriteAll l = some fd') :
    fd'.written = fd.written ++ l.flatten := by
  induction l generalizing fd with
  | nil =>
    obtain rfl : fd = fd' := by simpa [File.fwriteAll] using h
    simp
  | cons bytes rest ih =>
    simp only [File.fwriteAll] at h
    split_ifs at h with hn
    have hwr : (fd.fwrite bytes).2.written = fd.written ++ bytes :=
      fwrite_of_eq rfl (not_not.mp hn)
    rw [ih h, hwr]
    simp

/-- The headers in front of a file's stream. -/
def cryptedHeader (cfg : UnrealDBConfig) (header : List UInt8) : List UInt8 :=
  fileHeader "UnrealIRCd-DB-Crypted-v1" ++ (cfg.fields.flatten ++ header)

def cryptedStart (now : UInt64) : List UInt8 :=
  encode (.str (some cryptedNow)) ++ leBytes 8 now.toNat

variable {c : UnrealDB C} {secr' : Option (Secret C)}

variable {now : UInt64} {random : Random} {free : ℕ} {secr : Secret C}

theorem unrealdbOpenWrite_plain (h : unrealdbOpenWrite none now random free = .ok (c, secr')) :
    Writing none (fileHeader "UnrealIRCd-DB-v1") c (leBytes 8 now.toNat) := by
  unfold unrealdbOpenWrite at h
  dsimp only at h
  split at h
  · simp at h
  rename_i fd hfd
  split at h
  · simp at h
  rename_i c1 hint
  obtain ⟨rfl, -⟩ : c1 = c ∧ none = secr' := by simpa using h
  have hw : Writing (C := C) none (fileHeader "UnrealIRCd-DB-v1")
      ⟨fd, .write, none, 0, [], none⟩ [] :=
    ⟨rfl, rfl, fun _ => ⟨rfl, by simpa using fwriteAll_spec hfd⟩, by simp⟩
  exact unrealdbWrite_spec hw hint

/-- A file opened for writing with a secret: the configuration in its header is valid for the
password, and the stream is the one that starts with that key. -/
theorem unrealdbOpenWrite_crypted
    (h : unrealdbOpenWrite (some secr) now random free = .ok (c, secr')) :
    validSecretPassword secr.password = true ∧ ∃ cfg : SecretCache C secr.password,
      Writing (some (C.initPush cfg.val.key random.stream).1)
        (cryptedHeader cfg.val (C.initPush cfg.val.key random.stream).2) c (cryptedStart now) := by
  unfold unrealdbOpenWrite at h
  dsimp only at h
  split_ifs at h with hvalid
  split at h
  · simp at h
  rename_i fd1 hfd1
  split at h
  · simp at h
  rename_i cfg hcfg
  split at h
  · simp at h
  rename_i fd2 hfd2
  split at h
  · simp at h
  rename_i fd3 hfd3
  split at h
  · simp at h
  rename_i c1 hstr
  split at h
  · simp at h
  rename_i c2 hint
  obtain ⟨rfl, -⟩ : c2 = c ∧ some (unrealdbAddToSecretCache secr cfg) = secr' := by simpa using h
  refine ⟨by simpa using hvalid, cfg, ?_⟩
  -- Nothing is in the stream yet.
  have hw : Writing (some (C.initPush cfg.val.key random.stream).1)
      (cryptedHeader cfg.val (C.initPush cfg.val.key random.stream).2)
      ⟨fd3, .write, some (C.initPush cfg.val.key random.stream).1, 0, [], none⟩ [] := by
    refine ⟨rfl, rfl, by simp, fun s₀ hs => ⟨[], by simp, by simp [cryptFileChunkSize], rfl, ?_, ?_⟩⟩
    · exact hs
    · simp only [pushAll, append_nil, cryptedHeader]
      rw [fwriteAll_spec hfd3, fwriteAll_spec hfd2, fwriteAll_spec hfd1]
      simp
  have h1 := writeRecord_spec (r := .str (some cryptedNow)) hw cryptedNow_readable hstr
  exact unrealdbWrite_spec h1 hint

theorem freadExact_append (a rest : List UInt8) :
    (⟨[], 0, a ++ rest, false⟩ : File).freadExact a.length = some (a, ⟨[], 0, rest, false⟩) := by
  simp [File.freadExact, File.fread]

theorem freadUInt16_leBytes (v : UInt16) (rest : List UInt8) :
    (⟨[], 0, leBytes 2 v.toNat ++ rest, false⟩ : File).freadUInt16 =
      some (v, ⟨[], 0, rest, false⟩) := by
  have h := freadExact_append (leBytes 2 v.toNat) rest
  rw [length_leBytes] at h
  simp only [File.freadUInt16, h, Option.map_some, leNat_leBytes_of_lt (k := 2) v.toNat_lt,
    UInt16.ofNat_toNat]

theorem readConfig_spec {password : CStr} (cfg : SecretCache C password) (rest : List UInt8) :
    readConfig ⟨[], 0, cfg.val.fields.flatten ++ rest, false⟩ =
      .ok ({ cfg.val with key := [] }, ⟨[], 0, rest, false⟩) := by
  obtain ⟨cfg, hv⟩ := cfg
  have hsalt : ∀ r, (⟨[], 0, cfg.salt ++ r, false⟩ : File).freadExact cfg.saltlen.toNat =
      some (cfg.salt, ⟨[], 0, r, false⟩) := by
    intro r
    rw [hv.saltlen_eq, freadExact_append]
  have h1 : ¬ cfg.saltlen.toNat > 1024 := by have := hv.saltlen_le; omega
  have h2 : ¬ cfg.keylen.toNat > 1024 := by have := hv.keylen_le; omega
  simp [readConfig, UnrealDBConfig.fields, freadUInt16_leBytes, hsalt, hv.kdf_eq, hv.cipher_eq,
    h1, h2]

theorem kdf_congr {one two : UnrealDBConfig} (h : unrealdbConfigIdentical one two = true)
    (password : CStr) : C.kdf one password = C.kdf two password := by
  simp only [unrealdbConfigIdentical, Bool.and_eq_true, beq_iff_eq] at h
  obtain ⟨⟨⟨⟨⟨⟨⟨-, ht⟩, hm⟩, hp⟩, -⟩, hs⟩, -⟩, hk⟩ := h
  simp only [Crypto.kdf, ht, hm, hp, hs, hk]

/-- The key that the reader uses is the one that the file was written with, cached or not. -/
theorem readKey_spec (cfg : SecretCache C secr.password) :
    readKey secr { cfg.val with key := [] } = .ok cfg.val.key := by
  have hkdf : C.kdf { cfg.val with key := [] } secr.password = some cfg.val.key :=
    cfg.property.key_eq
  unfold readKey
  split
  · rename_i dbcache hfind
    have hid := find?_some hfind
    have hkey := dbcache.property.key_eq
    rw [kdf_congr hid, hkdf] at hkey
    simpa using hkey.symm
  · rw [hkdf]

theorem unrealdbOpenRead_plain (now : UInt64) (p : List UInt8) :
    ∃ c : UnrealDB C, unrealdbOpenRead none
      (fileHeader "UnrealIRCd-DB-v1" ++ (leBytes 8 now.toNat ++ p)) = .ok c ∧ Reading c p := by
  have hgets : fgets (fileHeader "UnrealIRCd-DB-v1" ++ (leBytes 8 now.toNat ++ p)) =
      fgets (fileHeader "UnrealIRCd-DB-v1") := by
    simp only [fgets]
    rw [take_append_of_le_length (by decide +kernel)]
  have hdrop : (fileHeader "UnrealIRCd-DB-v1" ++ (leBytes 8 now.toNat ++ p)).drop 32 =
      leBytes 8 now.toNat ++ p := drop_left' (by decide +kernel)
  have hne : fileHeader "UnrealIRCd-DB-v1" ++ (leBytes 8 now.toNat ++ p) ≠ [] := by
    intro h
    exact absurd (append_eq_nil_iff.mp h).1 (by decide +kernel)
  have hr : Reading (C := C) ⟨⟨[], 0, leBytes 8 now.toNat ++ p, false⟩, .read, none, 0, [], none⟩
      (leBytes 8 now.toNat ++ p) := ⟨rfl, rfl, fun _ => rfl, by simp⟩
  obtain ⟨c, h1, h2⟩ := unrealdbReadInt64_spec hr
  refine ⟨{ c with creationtime := now }, ?_, h2.mode_eq, h2.error_eq, h2.plain, h2.crypted⟩
  simp only [unrealdbOpenRead, unrealdbOpenReadPlain]
  rw [if_neg hne, hgets, if_neg (by decide +kernel), if_pos (by decide +kernel), hdrop, h1]

theorem unrealdbOpenRead_crypted (hvalid : validSecretPassword secr.password)
    (cfg : SecretCache C secr.password) (now : UInt64) (stream : List UInt8) {body p : List UInt8}
    (hbody : Holds (some (C.initPush cfg.val.key stream).1) body (cryptedStart now ++ p)) :
    ∃ c, unrealdbOpenRead (some secr)
      (cryptedHeader cfg.val (C.initPush cfg.val.key stream).2 ++ body) = .ok c ∧ Reading c p := by
  obtain ⟨st, hst, hsync⟩ := C.initPull_initPush cfg.val.key stream
  have hr : Reading (C := C) ⟨⟨[], 0, body, false⟩, .read, some st, 0, [], none⟩
      (encode (.str (some cryptedNow)) ++ (leBytes 8 now.toNat ++ p)) := by
    refine ⟨rfl, rfl, by simp, fun st' hst' => ⟨_, rfl, .inl ⟨rfl, _, ?_, hbody⟩⟩⟩
    obtain rfl : st = st' := by simpa using hst'
    exact hsync
  obtain ⟨c1, hstr, h2⟩ := unrealdbReadStr_spec cryptedNow_readable hr
  obtain ⟨c2, h3, h4⟩ := unrealdbReadInt64_spec h2
  refine ⟨{ c2 with creationtime := now }, ?_, h4.mode_eq, h4.error_eq, h4.plain, h4.crypted⟩
  -- The reader's steps, one behind the other: the headers, the key, the stream's first records.
  have hread (rest : List UInt8) :=
    freadExact_append (fileHeader "UnrealIRCd-DB-Crypted-v1") rest
  have hheader := freadExact_append (C.initPush cfg.val.key stream).2 body
  rw [show (fileHeader "UnrealIRCd-DB-Crypted-v1").length = 32 by decide +kernel] at hread
  rw [C.header_length] at hheader
  have htext : (fileHeader "UnrealIRCd-DB-Crypted-v1").take 24 =
      ascii "UnrealIRCd-DB-Crypted-v1" := by decide +kernel
  simp only [unrealdbOpenRead, unrealdbOpenReadCrypted, cryptedHeader, append_assoc, hvalid,
    hread, htext, readConfig_spec, readKey_spec, hheader, hst, hstr, h3, ne_eq, not_true_eq_false,
    if_false, Bool.true_eq_false, Except.map]


theorem readRecord_readable {c' : UnrealDB C} {k : Kind} {r : Record}
    (h : readRecord c k = (some r, c')) : r.Readable := by
  intro x hx
  subst hx
  rcases k with _ | _ | _ | _ | _
  case str =>
    have hstr : unrealdbReadStr c = (some (some x), c') := by
      simpa [readRecord, Prod.ext_iff] using h
    exact unrealdbReadStr_strlen_le hstr
  all_goals simp [readRecord] at h

theorem readRecords_readable {c' : UnrealDB C} {ks : List Kind} {rs : List Record}
    (h : readRecords c ks = some (rs, c')) : ∀ r ∈ rs, r.Readable := by
  induction ks generalizing c rs with
  | nil =>
    obtain ⟨rfl, -⟩ : [] = rs ∧ c = c' := by simpa [readRecords] using h
    simp
  | cons k ks ih =>
    simp only [readRecords] at h
    split at h
    · simp at h
    rename_i r c1 hr
    obtain ⟨⟨rs', c2⟩, hrs, heq⟩ := Option.map_eq_some_iff.mp h
    obtain ⟨rfl, rfl⟩ : r :: rs' = rs ∧ c2 = c' := by simpa using heq
    intro r' hr'
    rcases mem_cons.mp hr' with rfl | hr'
    · exact readRecord_readable hr
    · exact ih hrs r' hr'

/-- A file that was opened with a secret opens again with a secret of the same password, and what
was written in between is there to be read. -/
theorem unrealdbOpen_spec {secr secr₂ : Option (Secret C)}
    (hpass : secr₂.map Secret.password = secr.map Secret.password)
    (h : unrealdbOpenWrite secr now random free = .ok (c, secr')) :
    ∃ s hdr p₀, Writing s hdr c p₀ ∧ ∀ body p, Holds s body (p₀ ++ p) →
      ∃ c₂, unrealdbOpenRead secr₂ (hdr ++ body) = .ok c₂ ∧ Reading c₂ p := by
  rcases secr with _ | secr
  · obtain rfl : secr₂ = none := by simpa using hpass
    refine ⟨_, _, _, unrealdbOpenWrite_plain h, fun body p hbody => ?_⟩
    obtain rfl : body = leBytes 8 now.toNat ++ p := hbody
    exact unrealdbOpenRead_plain now p
  · rcases secr₂ with _ | ⟨name, password, cache⟩
    · simp at hpass
    obtain rfl : password = secr.password := by simpa using hpass
    obtain ⟨hvalid, cfg, hw⟩ := unrealdbOpenWrite_crypted h
    refine ⟨_, _, _, hw, fun body p hbody => ?_⟩
    have hvalid₂ : validSecretPassword (Secret.mk name secr.password cache).password := hvalid
    exact unrealdbOpenRead_crypted hvalid₂ cfg now random.stream hbody

/-- Records written to a file and read from it again, with a secret of the same password or without
one, come back exactly when no string among them is longer than 10000 bytes. -/
theorem roundTrip_iff {secr secr₂ : Option (Secret C)}
    (hpass : secr₂.map Secret.password = secr.map Secret.password) {now : UInt64} {random : Random}
    {free : ℕ} {c c' : UnrealDB C} {secr' : Option (Secret C)} {rs : List Record}
    {file : List UInt8} (hopen : unrealdbOpenWrite secr now random free = .ok (c, secr'))
    (hwrite : writeRecords c rs = some c') (hclose : unrealdbClose c' = some file) :
    RoundTrips secr₂ file rs ↔ ∀ x, Record.str (some x) ∈ rs → x.strlen ≤ 10000 := by
  constructor
  · rintro ⟨c₁, c₂, -, hread⟩ x hx
    exact readRecords_readable hread _ hx x rfl
  · intro hshort
    have hrs : ∀ r ∈ rs, r.Readable := by
      rintro r hr x rfl
      exact hshort x hr
    obtain ⟨s, hdr, p₀, hw, hback⟩ := unrealdbOpen_spec hpass hopen
    obtain ⟨body, rfl, hbody⟩ := unrealdbClose_spec (writeRecords_spec hw hrs hwrite) hclose
    obtain ⟨c₁, hopen', hr⟩ := hback body _ hbody
    obtain ⟨c₂, hread, -⟩ := readRecords_spec hrs (q := []) (by simpa using hr)
    exact ⟨c₁, c₂, hopen', hread⟩

/-- Integers and strings in a plain file come back. -/
theorem roundTrip_iff_plain :
    RoundTrips (C := nullCrypto) none
      (fileHeader "UnrealIRCd-DB-v1" ++ (leBytes 8 5 ++ leBytes 8 7 ++ leBytes 2 0xffff ++ [1]))
      [.int64 7, .str none, .char 1] := by
  have hopen := unrealdbOpenWrite_plainFile 11
  have hwrite : writeRecords (plainFile (leBytes 8 5) 11) [.int64 7, .str none, .char 1] =
      some (plainFile (leBytes 8 5 ++ leBytes 8 7 ++ leBytes 2 0xffff ++ [1]) 0) := rfl
  exact (roundTrip_iff rfl hopen hwrite rfl).mpr (by simp)

/-- A string that the writer takes and the reader does not. -/
def longString : CStr :=
  ⟨List.replicate 10001 97, fun b hb => by rw [List.eq_of_mem_replicate hb]; decide⟩

theorem strlen_longString : longString.strlen = 10001 := List.length_replicate

/-- A string of 10001 bytes is written to a plain file, and does not come back. -/
theorem roundTrip_fails_longString :
    ∃ c c' file, unrealdbOpenWrite (C := nullCrypto) none 5 zeroRandom 20000 = .ok (c, none) ∧
      writeRecords c [.str (some longString)] = some c' ∧ unrealdbClose c' = some file ∧
      ¬ RoundTrips (C := nullCrypto) none file [.str (some longString)] := by
  have h1 := unrealdbWrite_plainFile (leBytes 8 5) (leBytes 2 10001) 19958
  have h2 := unrealdbWrite_plainFile (leBytes 8 5 ++ leBytes 2 10001) longString.bytes 9957
  rw [length_leBytes] at h1
  rw [show longString.bytes.length = 10001 from strlen_longString] at h2
  have hint : stringlen longString = 10001 := by
    rw [stringlen_of_lt (by rw [strlen_longString]; norm_num), strlen_longString]
    norm_num
  have hwrite : writeRecords (plainFile (leBytes 8 5) 19960) [.str (some longString)] =
      some (plainFile (leBytes 8 5 ++ leBytes 2 10001 ++ longString.bytes) 9957) := by
    simp only [writeRecords, writeRecord, unrealdbWriteStr, hint]
    rw [if_neg (by decide)]
    have hlen : (UInt16.ofInt 10001) = 10001 := by decide
    have htake : longString.bytes.take 10001 = longString.bytes :=
      take_of_length_le strlen_longString.le
    simp only [unrealdbWriteInt16, hlen, UInt16.reduceToNat, h1]
    rw [if_pos (by decide), htake, h2]
  refine ⟨_, _, _, unrealdbOpenWrite_plainFile 19960, hwrite, rfl, ?_⟩
  rintro ⟨c₁, c₂, -, hread⟩
  have hle := readRecords_readable hread _ (mem_singleton_self _) longString rfl
  rw [strlen_longString] at hle
  omega

end ObbyIRCd.Database
