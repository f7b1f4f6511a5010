import ObbyIRCd.Database.Migrate
import ObbyIRCd.Tkl.Reload

/-!
# Bans of the migration tool

`tkldb.go` writes the bans of a bundle as a file of version 4999, in which an entry has no ids and no
hits, and `read_tkldb` reads it. A ban is written as an entry that the server could have written
(`Ban.raw`), so the reader adds what that entry stands for, the first one of each type and mask. The tool
does not look at what it writes: a user part that starts with a percent sign becomes a soft ban, and a
text with a zero byte or of more than 10000 bytes is not read as it was.

The warnings and counts of the report, and the replacement of the file, are not modelled.
-/

namespace ObbyIRCd.Tkl

open List Option
open CStr (ofBuffer)

open Database

variable {C : Crypto}

/-! ## The writer -/

/-- `ir.Ban`. Times are in seconds, and the zero time is `none`. -/
structure Ban where
  type : List Char
  mask : List UInt8
  reason : List UInt8
  setBy : List UInt8
  setAt : Option Int64
  expiresAt : Option Int64

/-- `splitMask`: the parts before and behind the first `@`. -/
def splitMask (mask : List UInt8) : List UInt8 × List UInt8 :=
  if 64 ∈ mask then (mask.takeWhile (· != 64), (mask.dropWhile (· != 64)).tail)
  else ([42], mask)

/-- `encodedTKL`. -/
structure EncodedTKL where
  letter : Char
  setBy : List UInt8
  setAt : Int64
  expireAt : Int64
  usermask : List UInt8
  hostmask : List UInt8
  reason : List UInt8
  isNameBan : Bool
  nameHold : List UInt8
  nameMask : List UInt8

/-- The letter of a ban. Others are skipped with a warning. -/
def Ban.letter (b : Ban) : Option Char :=
  match b.type.map Char.toUpper with
  | ['K'] | ['G'] => some 'G'
  | ['Z'] => some 'Z'
  | ['Q'] => some 'Q'
  | _ => none

def Ban.setter (b : Ban) : List UInt8 := if b.setBy = [] then ascii "imported" else b.setBy

def Ban.encoded (b : Ban) : Option EncodedTKL :=
  b.letter.map fun letter =>
    if letter = 'Q' then
      { letter, setBy := b.setter, setAt := unixOrZeroSigned b.setAt
        expireAt := unixOrZeroSigned b.expiresAt, usermask := [], hostmask := [], reason := b.reason
        isNameBan := true, nameHold := ascii "H", nameMask := b.mask }
    else
      { letter, setBy := b.setter, setAt := unixOrZeroSigned b.setAt
        expireAt := unixOrZeroSigned b.expiresAt, usermask := (splitMask b.mask).1
        hostmask := (splitMask b.mask).2, reason := b.reason
        isNameBan := false, nameHold := [], nameMask := [] }

def EncodedTKL.fields (e : EncodedTKL) : List Field :=
  [.byte (Database.letter e.letter), .str e.setBy, .uint64 e.setAt.toUInt64, .uint64 e.expireAt.toUInt64] ++
    if e.isNameBan then [.str e.nameHold, .str e.nameMask, .str e.reason]
    else [.str e.usermask, .str e.hostmask, .str e.reason]

/-- `tkldbVersion` of the tool. -/
def migrateVersion : UInt32 := 4999

/-- What `WriteTKLDB` writes. -/
def tkldbFields (encoded : List EncodedTKL) : List Field :=
  .uint32 tkldbMagic :: .uint32 migrateVersion :: .uint64 (UInt64.ofNat encoded.length) ::
    encoded.flatMap EncodedTKL.fields

/-- `WriteTKLDB`. -/
def writeTKLDB (bans : List Ban) : Option (List UInt8) :=
  writeFields (tkldbFields (bans.filterMap Ban.encoded))

/-! ## What the bans stand for -/

/-- The kind of entry that a ban becomes: `K` and `G` bans are global, and nicks are held. -/
def Ban.body (b : Ban) : Option Body :=
  let serverban (type : ServerBanType) : Body :=
    .serverban type false (ofBuffer (splitMask b.mask).1) (ofBuffer (splitMask b.mask).2)
      (ofBuffer b.reason)
  b.letter.map fun letter =>
    if letter = 'Q' then .nameban true true (ofBuffer b.mask) (ofBuffer b.reason)
    else if letter = 'Z' then serverban .gzline
    else serverban .gline

def Ban.tkl (b : Ban) : Option TKL :=
  b.body.map fun body =>
    { body
      setBy := ofBuffer b.setter
      setAt := unixOrZeroSigned b.setAt
      expireAt := unixOrZeroSigned b.expiresAt
      id := strlcpy 15 CStr.empty
      spamfilterId := strlcpy 15 CStr.empty
      hits := 0
      lasthit := 0
      config := false
      central := false }

/-- A ban that the tool writes so that it is read as it was. -/
structure Ban.Migratable (b : Ban) : Prop where
  mask : Database.Migratable b.mask
  reason : Database.Migratable b.reason
  setBy : Database.Migratable b.setBy
  hard : b.letter ≠ some 'Q' → (splitMask b.mask).1.head? ≠ some 37
  setter : b.letter ≠ some 'Q' → b.setBy ≠ configName.bytes

variable {b : Ban}

theorem letter_cases {l : Char} (h : b.letter = some l) : l = 'G' ∨ l = 'Z' ∨ l = 'Q' := by
  unfold Ban.letter at h
  split at h <;> cases h <;> simp

theorem migratable_splitMask {mask : List UInt8} (h : Migratable mask) :
    Migratable (splitMask mask).1 ∧ Migratable (splitMask mask).2 := by
  unfold splitMask
  split_ifs
  · have htake := takeWhile_sublist (l := mask) (fun b : UInt8 => b != 64)
    have hdrop := (tail_sublist (mask.dropWhile fun b : UInt8 => b != 64)).trans
      (dropWhile_sublist (l := mask) fun b : UInt8 => b != 64)
    exact ⟨⟨fun b hb => h.1 b (htake.subset hb), htake.length_le.trans h.2⟩,
      ⟨fun b hb => h.1 b (hdrop.subset hb), hdrop.length_le.trans h.2⟩⟩
  · have hany : Migratable [42] := ⟨forall_mem_of_all (by decide), by decide⟩
    exact ⟨hany, h⟩

theorem migratable_setter (h : b.Migratable) : Migratable b.setter := by
  unfold Ban.setter
  split_ifs
  · unfold Migratable NulFree
    decide +kernel
  · exact h.setBy

/-! ## The file -/

def Ban.raw (b : Ban) : Option Raw :=
  let serverban (type : ServerBanType) : RawBody :=
    .serverban type (ofBuffer (splitMask b.mask).1) (ofBuffer (splitMask b.mask).2)
      (ofBuffer b.reason)
  b.letter.map fun letter =>
    { common := ⟨ofBuffer b.setter, unixOrZeroSigned b.setAt, unixOrZeroSigned b.expiresAt,
        CStr.empty, CStr.empty, 0, 0⟩
      body :=
        if letter = 'Q' then
          .nameban true (ofBuffer (ascii "H")) (ofBuffer b.mask) (ofBuffer b.reason)
        else if letter = 'Z' then serverban .gzline
        else serverban .gline }

theorem record_fields (b : Ban) :
    (b.encoded.map fun e => e.fields.map Field.record) = b.raw.map (Raw.records migrateVersion) := by
  unfold Ban.encoded Ban.raw
  rcases hl : b.letter with - | l
  · rfl
  · rcases letter_cases hl with rfl | rfl | rfl <;> rfl

theorem flatMap_fields (bans : List Ban) :
    ((bans.filterMap Ban.encoded).flatMap EncodedTKL.fields).map Field.record =
      (bans.filterMap Ban.raw).flatMap (Raw.records migrateVersion) ∧
    (bans.filterMap Ban.encoded).length = (bans.filterMap Ban.raw).length := by
  induction bans with
  | nil => exact ⟨rfl, rfl⟩
  | cons b bans ih =>
    have hfields := record_fields b
    rw [filterMap_cons, filterMap_cons]
    rcases hencoded : b.encoded with - | e <;> rcases hraw : b.raw with - | r <;>
      rw [hencoded, hraw] at hfields
    · exact ih
    · cases hfields
    · cases hfields
    · have hrecords : e.fields.map Field.record = r.records migrateVersion := some.inj hfields
      rw [flatMap_cons, map_append, ih.1, hrecords, length_cons, ih.2]
      exact ⟨rfl, rfl⟩

theorem record_tkldbFields (bans : List Ban) :
    (tkldbFields (bans.filterMap Ban.encoded)).map Field.record =
      tkldbRecords migrateVersion (bans.filterMap Ban.raw) := by
  obtain ⟨hrecords, hlength⟩ := flatMap_fields bans
  unfold tkldbFields tkldbRecords
  rw [map_cons, map_cons, map_cons, hrecords, hlength]
  rfl

theorem nulFree_fields (hb : b.Migratable) {e : EncodedTKL} (he : b.encoded = some e) :
    ∀ f ∈ e.fields, ∀ s, f = .str s → Migratable s := by
  obtain ⟨huser, hhost⟩ := migratable_splitMask hb.mask
  have hsetter := migratable_setter hb
  have hhold : Migratable (ascii "H") := by
    unfold Migratable NulFree
    decide +kernel
  obtain ⟨l, -, rfl⟩ := map_eq_some_iff.mp he
  rintro f hf s rfl
  unfold EncodedTKL.fields at hf
  by_cases hq : l = 'Q'
  · simp only [if_pos hq, if_true, cons_append, nil_append, mem_cons,
      Field.str.injEq, reduceCtorEq, not_mem_nil, or_false, false_or] at hf
    rcases hf with rfl | rfl | rfl | rfl
    · exact hsetter
    · exact hhold
    · exact hb.mask
    · exact hb.reason
  · simp only [if_neg hq, Bool.false_eq_true, if_false, cons_append, nil_append,
      mem_cons, Field.str.injEq, reduceCtorEq, not_mem_nil, or_false, false_or] at hf
    rcases hf with rfl | rfl | rfl | rfl
    · exact hsetter
    · exact huser
    · exact hhost
    · exact hb.reason

variable {bans : List Ban}

variable (hbans : ∀ b ∈ bans, b.Migratable)
include hbans

theorem migratable_tkldbFields :
    ∀ f ∈ tkldbFields (bans.filterMap Ban.encoded), ∀ s, f = .str s → Migratable s := by
  rintro f hf s rfl
  unfold tkldbFields at hf
  simp only [mem_cons, reduceCtorEq, false_or] at hf
  obtain ⟨e, he, hf⟩ := mem_flatMap.mp hf
  obtain ⟨b, hb, hencoded⟩ := mem_filterMap.mp he
  exact nulFree_fields (hbans b hb) hencoded _ hf s rfl

theorem writeTKLDB_eq {file : List UInt8} (hwrite : writeTKLDB bans = some file) :
    file = (tkldbRecords migrateVersion (bans.filterMap Ban.raw)).flatMap encode := by
  have hnul : ∀ f ∈ tkldbFields (bans.filterMap Ban.encoded), ∀ s, f = .str s → NulFree s :=
    fun f hf s hs => (migratable_tkldbFields hbans f hf s hs).1
  rw [writeFields_eq hnul hwrite, record_tkldbFields]

theorem readable_raw :
    ∀ r ∈ bans.filterMap Ban.raw, ∀ x ∈ r.records migrateVersion, x.Readable := by
  have hall : ∀ x ∈ tkldbRecords migrateVersion (bans.filterMap Ban.raw), x.Readable := by
    rw [← record_tkldbFields]
    exact readable_of_migratable (migratable_tkldbFields hbans)
  intro r hr x hx
  refine hall x ?_
  exact mem_cons_of_mem _ (mem_cons_of_mem _ (mem_cons_of_mem _ (mem_flatMap.mpr ⟨r, hr, hx⟩)))

omit hbans

theorem within_raw {r : Raw} (hr : b.raw = some r) : r.Within migrateVersion := by
  obtain ⟨l, -, rfl⟩ := map_eq_some_iff.mp hr
  refine .inr ⟨rfl, rfl, rfl, rfl, fun global => ?_⟩
  split_ifs <;> exact TklType.noConfusion

/-! ## The reader -/

def TKL.Unexpired (now : Int64) (t : TKL) : Prop := t.expireAt = 0 ∨ now < t.expireAt

instance (now : Int64) (t : TKL) : Decidable (t.Unexpired now) :=
  inferInstanceAs (Decidable (_ ∨ _))

theorem not_isSoft_ofBuffer {s : List UInt8} (hs : s.head? ≠ some 37) :
    isSoft (ofBuffer s) = false := by
  unfold isSoft ofBuffer
  rcases s with - | ⟨b, s⟩
  · decide
  have hb : b ≠ 37 := fun h => hs (congrArg some h)
  by_cases hzero : b = 0
  · simp [hzero]
  · simp [hzero, hb]

theorem setter_ne_configName (hb : b.Migratable) (hl : b.letter ≠ some 'Q') :
    ofBuffer b.setter ≠ configName := by
  intro h
  have hbytes : b.setter = configName.bytes := by
    rw [← bytes_ofBuffer (migratable_setter hb).1, h]
  unfold Ban.setter at hbytes
  split_ifs at hbytes
  · exact absurd hbytes (by decide +kernel)
  · exact hb.setter hl hbytes

theorem admits_eq_filter {env : Env} {r : Raw} {t : TKL} (htkl : r.tkl env = some t)
    (hconfig : ¬(r.body.skipsConfig = true ∧ r.common.setBy = configName)) (now : Int64) :
    r.admits env now = (some t).filter fun t => t.Unexpired now := by
  have hexpire : t.expireAt = r.common.expireAt := by
    obtain ⟨body, -, rfl⟩ := map_eq_some_iff.mp htkl
    rfl
  have hskip : (t.expireAt ≠ 0 ∧ t.expireAt ≤ now ∨ r.body.skipsConfig = true ∧
      r.common.setBy = configName) ↔ ¬t.Unexpired now := by
    rw [or_iff_left hconfig, TKL.Unexpired, unexpired_iff, not_not]
  unfold Raw.admits
  rw [htkl, ← hexpire]
  by_cases h : t.Unexpired now <;> simp only [hskip, h] <;> simp [Option.filter, h]

/-- The reader adds what a ban stands for, unless it has expired. -/
theorem admits_ban (env : Env) (now : Int64) (hb : b.Migratable) :
    b.raw.bind (Raw.admits env now) = b.tkl.filter fun t => t.Unexpired now := by
  rcases hl : b.letter with - | l
  · unfold Ban.raw Ban.tkl Ban.body
    rw [hl]
    rfl
  · have hsetter (h : l ≠ 'Q') : ofBuffer b.setter ≠ configName :=
      setter_ne_configName hb fun hq => h (Option.mem_unique hl hq)
    -- The percent sign is the only thing that the reader takes off a user mask.
    have hread (h : l ≠ 'Q') (type : ServerBanType) :
        RawBody.read env (.serverban type (ofBuffer (splitMask b.mask).1)
          (ofBuffer (splitMask b.mask).2) (ofBuffer b.reason)) =
        some (.serverban type false (ofBuffer (splitMask b.mask).1)
          (ofBuffer (splitMask b.mask).2) (ofBuffer b.reason)) := by
      have hsoft := not_isSoft_ofBuffer (hb.hard fun hq => h (Option.mem_unique hl hq))
      simp [RawBody.read, dropSoft, hsoft]
    unfold Ban.raw Ban.tkl Ban.body
    simp only [hl, Option.map_some, Option.bind_some]
    refine admits_eq_filter ?_ ?_ now
    · rcases letter_cases hl with rfl | rfl | rfl
      · exact congrArg (Option.map _) (hread (by decide) .gline)
      · exact congrArg (Option.map _) (hread (by decide) .gzline)
      · rfl
    · rcases letter_cases hl with rfl | rfl | rfl
      · exact fun h => hsetter (by decide) h.2
      · exact fun h => hsetter (by decide) h.2
      · exact fun h => absurd h.1 Bool.false_ne_true

/-- The whole file is accepted, and what it adds is what the bans stand for that have not expired, the
first of each type and mask. -/
theorem readTkldb_writeTKLDB (env : Env) (now : Int64) {secr : Option (Secret C)}
    (hsecr : ∀ s ∈ secr, validSecretPassword s.password = true) {bans : List Ban}
    (hbans : ∀ b ∈ bans, b.Migratable) (hcount : bans.length < 2 ^ 64) {file : List UInt8}
    (hwrite : writeTKLDB bans = some file) :
    (readTkldb env now secr file).2 = .complete ∧
      ((readTkldb env now secr file).1.map TKL.key).Nodup ∧
      ∀ t, t ∈ (readTkldb env now secr file).1 ↔
        ∃ before b after, bans = before ++ b :: after ∧ b.tkl = some t ∧ t.Unexpired now ∧
          ∀ b' ∈ before, ∀ t', b'.tkl = some t' → t'.Unexpired now → t'.key ≠ t.key := by
  have hfile := writeTKLDB_eq hbans hwrite
  have hhead : file.head? ≠ some 85 := by
    rw [hfile]
    exact fun h => absurd (some.inj h) (by decide)
  obtain ⟨c, hopen, hreading⟩ := unrealdbOpenReadAny_headerless hsecr hhead
  have hwithin : ∀ r ∈ bans.filterMap Ban.raw, r.Within migrateVersion := by
    intro r hr
    obtain ⟨b, -, hraw⟩ := mem_filterMap.mp hr
    exact within_raw hraw
  have hread := readTkldb_of_reading env now (by decide) (by decide) hwithin (readable_raw hbans)
    ((length_filterMap_le _ _).trans_lt hcount) hopen (hfile ▸ hreading)
  have hadmits : (bans.filterMap Ban.raw).filterMap (Raw.admits env now) =
      bans.filterMap fun b => b.tkl.filter fun t => t.Unexpired now := by
    rw [filterMap_filterMap]
    exact filterMap_congr fun b hb => admits_ban env now (hbans b hb)
  rw [hread, foldl_addRead, hadmits]
  refine ⟨rfl, Keyed.nodup_foldl_keep TKL.key _ nodup_nil, fun t => ?_⟩
  rw [Keyed.mem_foldl_keep_filterMap]
  simp only [filter_eq_some_iff, decide_eq_true_eq, and_assoc, and_imp]

def banOf (type : Char) (mask : String) : Ban where
  type := [type]
  mask := ascii mask
  reason := ascii "r"
  setBy := ascii "o"
  setAt := some 1
  expiresAt := none

theorem migratable_banOf : ∀ b ∈ [banOf 'k' "a@h", banOf 'Q' "nick"], b.Migratable := by
  have htext : ∀ b ∈ [banOf 'k' "a@h", banOf 'Q' "nick"],
      (b.mask ++ b.reason ++ b.setBy).length ≤ 10000 ∧ 0 ∉ b.mask ++ b.reason ++ b.setBy ∧
        (splitMask b.mask).1.head? ≠ some 37 ∧ b.setBy ≠ configName.bytes := by
    decide +kernel
  intro b hb
  obtain ⟨hlength, hzero, hhard, hsetter⟩ := htext b hb
  simp only [mem_append, not_or, length_append] at hzero hlength
  exact ⟨⟨fun _ h h' => hzero.1.1 (h' ▸ h), by omega⟩, ⟨fun _ h h' => hzero.1.2 (h' ▸ h), by omega⟩,
    ⟨fun _ h h' => hzero.2 (h' ▸ h), by omega⟩, fun _ => hhard, fun _ => hsetter⟩

/-- A ban of a user and one of a nick are both added. -/
theorem readTkldb_banOf :
    ∃ file, writeTKLDB [banOf 'k' "a@h", banOf 'Q' "nick"] = some file ∧
      (readTkldb (C := nullCrypto) plainEnv 5 none file).2 = .complete ∧
      ∀ b ∈ [banOf 'k' "a@h", banOf 'Q' "nick"], ∀ t, b.tkl = some t →
        t ∈ (readTkldb (C := nullCrypto) plainEnv 5 none file).1 := by
  obtain ⟨file, hwrite⟩ : ∃ file, writeTKLDB [banOf 'k' "a@h", banOf 'Q' "nick"] = some file :=
    isSome_iff_exists.mp (by decide +kernel)
  have hsecr : ∀ s ∈ (none : Option (Secret nullCrypto)), validSecretPassword s.password = true :=
    fun _ h => absurd h (not_mem_none _)
  obtain ⟨hcomplete, -, hmem⟩ :=
    readTkldb_writeTKLDB plainEnv 5 hsecr migratable_banOf (by decide) hwrite
  refine ⟨file, hwrite, hcomplete, forall_mem_cons.mpr ⟨fun t ht => ?_,
    forall_mem_singleton.mpr fun t ht => ?_⟩⟩
  · obtain rfl := some.inj ht
    exact (hmem _).mpr ⟨[], _, _, rfl, rfl, .inl rfl, forall_mem_nil _⟩
  · obtain rfl := some.inj ht
    refine (hmem _).mpr ⟨[banOf 'k' "a@h"], _, _, rfl, rfl, .inl rfl, fun b hb t' ht' _ => ?_⟩
    obtain rfl := mem_singleton.mp hb
    obtain rfl := some.inj ht'
    decide +kernel

/-- A `K` ban of the user `%a` becomes a soft global ban of the user `a`. -/
theorem readTkldb_percent :
    ∃ file, writeTKLDB [banOf 'K' "%a@h"] = some file ∧
      (readTkldb (C := nullCrypto) plainEnv 5 none file).1.map TKL.body =
        [.serverban .gline true (text ['a']) (text ['h']) (text ['r'])] := by
  refine ⟨_, rfl, ?_⟩
  decide +kernel

end ObbyIRCd.Tkl
