import ObbyIRCd.Mmdb.Format

/-!
# The metadata is read back

Each decoder of the reader gives what the format says is written at an offset: control bytes,
pointers, integers, and where a field ends. `parse_metadata` then collects the entries of the map one
by one (`parseEntries_eq`), and what it has at the end is what the last entry with each key says.
Where a field ends is exact for every field of the format (`skipValue_exact`).
-/

namespace ObbyIRCd.Mmdb

open List

variable {buf : List UInt8} {off type size data next : ℕ}

/-! ## Bytes in a buffer -/

variable {bs : List UInt8}

theorem hasAt_cons {b : UInt8} :
    HasAt buf off (b :: bs) ↔ (off < buf.length ∧ byte buf off = b.toNat) ∧ HasAt buf (off + 1) bs := by
  unfold HasAt byte
  rw [← drop_drop]
  cases h : buf.drop off with
  | nil =>
    rw [drop_eq_nil_iff] at h
    simp [Nat.not_lt.2 h]
  | cons x xs =>
    have hlt : off < buf.length := by
      have hlen := congrArg length h
      rw [length_drop, length_cons] at hlen
      omega
    have hx : buf[off]? = some x := by
      rw [← head?_drop, h]
      rfl
    simp only [cons_prefix_cons, hlt, true_and, getD_eq_getElem?_getD, hx, Option.getD_some,
      drop_succ_cons, drop_zero, UInt8.toNat_inj]
    exact and_congr_left' eq_comm

theorem HasAt.le_length (h : HasAt buf off bs) (hbs : bs ≠ []) : off + bs.length ≤ buf.length := by
  have hle := h.length_le
  have hpos := length_pos_iff.2 hbs
  rw [length_drop] at hle
  omega

/-- Reading as many bytes as stand there gives them. -/
theorem HasAt.take_drop (h : HasAt buf off bs) :
    (buf.drop off).take bs.length = bs := (List.prefix_iff_eq_take.1 h).symm

/-- A byte made from a number is the number modulo 256. -/
theorem toNat_ofNat_mod (n : ℕ) : (UInt8.ofNat n).toNat = n % 256 := by simp

/-! ## Control bytes -/

theorem decodeSize_eq (hsize : size < 65821 + 2 ^ 24) (h : HasAt buf off (sizeField size).2) :
    decodeSize buf (sizeField size).1 off = .ok (size, off + (sizeField size).2.length) := by
  unfold sizeField at h ⊢
  by_cases h29 : size < 29
  · simp only [h29, if_true, decodeSize]
    rfl
  by_cases h285 : size < 285
  · simp only [h29, h285, if_true, if_false, beBytes, hasAt_cons, toNat_ofNat_mod,
      Nat.reducePow, Nat.div_one] at h ⊢
    obtain ⟨⟨hlt, hb⟩, -⟩ := h
    unfold decodeSize
    rw [if_neg (by omega), if_pos rfl, if_neg (by omega)]
    simp only [length_cons, length_nil, Except.ok.injEq, Prod.mk.injEq, and_true]
    omega
  by_cases h65821 : size < 65821
  · simp only [h29, h285, h65821, if_true, if_false, beBytes, hasAt_cons, toNat_ofNat_mod,
      Nat.reducePow, Nat.div_one] at h ⊢
    obtain ⟨⟨_, hb⟩, ⟨hlt, hb'⟩, -⟩ := h
    unfold decodeSize
    rw [if_neg (by omega), if_neg (by omega), if_pos rfl, if_neg (by omega)]
    simp only [length_cons, length_nil, Except.ok.injEq, Prod.mk.injEq, Nat.shiftLeft_eq, and_true]
    omega
  · simp only [h29, h285, h65821, if_false, beBytes, hasAt_cons, toNat_ofNat_mod,
      Nat.reducePow, Nat.div_one] at h ⊢
    obtain ⟨⟨_, hb⟩, ⟨_, hb'⟩, ⟨hlt, hb''⟩, -⟩ := h
    unfold decodeSize
    rw [if_neg (by omega), if_neg (by omega), if_neg (by omega), if_neg (by omega), hb'']
    simp only [length_cons, length_nil, Except.ok.injEq, Prod.mk.injEq, Nat.shiftLeft_eq, and_true]
    omega

/-- The low bits of a control byte fit. -/
theorem sizeField_lt (size : ℕ) : (sizeField size).1 < 32 := by
  unfold sizeField
  split_ifs <;> omega

theorem control_type {t s : ℕ} (ht : t < 8) (hs : s < 32) :
    ((t * 32 + s) % 256) >>> 5 &&& 0x7 = t := by
  have hand : ∀ n, n &&& 0x7 = n % 8 := fun n => Nat.and_two_pow_sub_one_eq_mod n 3
  rw [hand]
  omega

theorem control_size {t s : ℕ} (hs : s < 32) : (t * 32 + s) % 256 &&& 0x1F = s := by
  have hand : ∀ n, n &&& 0x1F = n % 32 := fun n => Nat.and_two_pow_sub_one_eq_mod n 5
  rw [hand]
  omega

variable (h : ControlAt buf off type size data)
include h

/-- A control byte with what belongs to it is read back. -/
theorem ControlAt.decodeCtrl_eq : decodeCtrl buf off = .ok (type, size, data) := by
  obtain ⟨⟨h2, h262, hsize⟩, h, rfl⟩ := h
  have hs := sizeField_lt size
  unfold controlBytes at h ⊢
  unfold decodeCtrl
  by_cases h7 : type ≤ 7
  · rw [if_pos h7, hasAt_cons, toNat_ofNat_mod] at h
    obtain ⟨⟨hlt, hb⟩, h⟩ := h
    rw [if_neg (by omega), if_pos h7, hb, control_type (by omega) hs, control_size hs]
    rw [if_neg (by omega), decodeCtrlSize, if_neg (by unfold dtPointer; omega),
      decodeSize_eq hsize h]
    simp only [Except.map, length_cons, Nat.add_assoc, Nat.add_comm 1]
  · rw [if_neg h7, hasAt_cons, hasAt_cons, toNat_ofNat_mod, toNat_ofNat_mod] at h
    obtain ⟨⟨_, hb⟩, ⟨hlt, hb'⟩, h⟩ := h
    have htype := control_type (t := 0) (by omega) hs
    have hrest := control_size (t := 0) hs
    rw [Nat.zero_add] at htype hrest
    rw [if_neg (by omega), if_neg h7, hb, htype, hrest]
    rw [if_pos rfl, if_neg (by omega), decodeCtrlSize, if_neg (by unfold dtPointer; omega),
      decodeSize_eq hsize h]
    simp only [Except.map, length_cons, Except.ok.injEq, Prod.mk.injEq, true_and]
    omega

/-- The payload of a field begins in the buffer, or at its end. -/
theorem ControlAt.data_le : data ≤ buf.length := by
  obtain ⟨-, h, rfl⟩ := h
  refine h.le_length ?_
  unfold controlBytes
  split <;> exact cons_ne_nil _ _

theorem ControlAt.type_ne : type ≠ dtPointer := by
  have := h.1.1
  unfold dtPointer
  omega

omit h

/-! ## Pointers and integers -/

theorem shiftLeft_or (acc : ℕ) (b : UInt8) : acc <<< 8 ||| b.toNat = acc * 256 + b.toNat := by
  have hb := b.toNat_lt
  rw [← Nat.shiftLeft_add_eq_or_of_lt hb, Nat.shiftLeft_eq]

theorem shiftIn_eq (start : ℕ) (bs : List UInt8) :
    shiftIn start bs = start * 256 ^ bs.length + beNat bs := by
  -- For `beNat` the start moves as well, so both sides are compared from any start.
  have hfold : ∀ (bs : List UInt8) (acc : ℕ),
      bs.foldl (fun acc b => acc * 256 + b.toNat) acc = acc * 256 ^ bs.length + beNat bs := by
    intro bs
    induction bs with
    | nil => intro acc; simp [beNat]
    | cons b bs ih =>
      intro acc
      have hb : beNat (b :: bs) = b.toNat * 256 ^ bs.length + beNat bs := by
        unfold beNat
        rw [foldl_cons, ih]
        simp [beNat]
      rw [foldl_cons, ih, hb, length_cons, Nat.pow_succ, Nat.add_mul]
      rw [Nat.mul_assoc, Nat.mul_comm 256, Nat.add_assoc]
  unfold shiftIn
  simp only [shiftLeft_or]
  exact hfold bs start

theorem pointer_low {k low : ℕ} (hk : 1 ≤ k) (hk' : k ≤ 4) (hlow : low < 8) :
    pointerSize ((k - 1) * 8 + low) = k ∧ (k - 1) * 8 + low &&& 0x7 = low := by
  have h3 : ∀ n, n &&& 0x3 = n % 4 := fun n => Nat.and_two_pow_sub_one_eq_mod n 2
  have h7 : ∀ n, n &&& 0x7 = n % 8 := fun n => Nat.and_two_pow_sub_one_eq_mod n 3
  unfold pointerSize
  rw [h3, h7]
  omega

/-- The control byte of a pointer is read back, and so is where it points to. -/
theorem PointerAt.decode_eq {target : ℕ} (h : PointerAt buf off target next) :
    ∃ low, decodeCtrl buf off = .ok (dtPointer, low, off + 1) ∧ next ≤ buf.length ∧
      next = off + 1 + pointerSize low ∧ decodePointer buf low (off + 1) = .ok target := by
  obtain ⟨low, payload, hlow, hpos, hle, h, rfl, rfl⟩ := h
  obtain ⟨hsize, hand⟩ := pointer_low hpos hle hlow
  rw [hasAt_cons, toNat_ofNat_mod] at h
  obtain ⟨⟨hlt, hb⟩, h⟩ := h
  have hend := h.le_length (length_pos_iff.1 hpos)
  have hbyte : 32 + (payload.length - 1) * 8 + low = 1 * 32 + ((payload.length - 1) * 8 + low) := by
    omega
  rw [hbyte] at hb
  refine ⟨(payload.length - 1) * 8 + low, ?_, hend, by rw [hsize], ?_⟩
  · unfold decodeCtrl
    rw [if_neg (by omega), hb, control_type (by omega) (by omega), control_size (by omega)]
    rfl
  · unfold decodePointer
    rw [hsize, hand]
    dsimp only
    rw [h.take_drop, if_neg (by omega), shiftIn_eq]
    unfold pointerTarget
    have hcases : payload.length = 1 ∨ payload.length = 2 ∨ payload.length = 3 ∨
        payload.length = 4 := by omega
    rcases hcases with hk | hk | hk | hk <;> simp [hk, Nat.add_comm]

theorem EntryAt.resolveEntry_eq (h : EntryAt buf off type size data) :
    resolveEntry buf off = .ok (type, size, data) := by
  unfold resolveEntry
  rcases h with h | ⟨target, next, hptr, h⟩
  · simp only [h.decodeCtrl_eq, h.type_ne, if_false]
  · obtain ⟨low, hctrl, -, -, htarget⟩ := hptr.decode_eq
    simp only [hctrl, htarget, h.decodeCtrl_eq, h.type_ne, if_true, if_false]

/-- The payload of a field begins in the buffer, or at its end. -/
theorem EntryAt.data_le (h : EntryAt buf off type size data) : data ≤ buf.length := by
  rcases h with h | ⟨target, next, -, h⟩ <;> exact h.data_le

/-- A payload that stands where a field says ends in the buffer. -/
theorem EntryAt.payload_le (h : EntryAt buf off type bs.length data)
    (hbs : HasAt buf data bs) : data + bs.length ≤ buf.length := by
  rcases eq_nil_or_concat bs with rfl | hne
  · simpa using h.data_le
  · refine hbs.le_length ?_
    rintro rfl
    simp at hne

theorem UintAt.decodeUint_eq {types : List ℕ} {width n : ℕ} (h : UintAt buf types width off n) :
    ∃ type size data, type ∈ types ∧ resolveEntry buf off = .ok (type, size, data) ∧
      decodeUint width buf size data = .ok n := by
  obtain ⟨type, data, bs, htype, hwidth, hentry, hbs, rfl⟩ := h
  refine ⟨type, bs.length, data, htype, hentry.resolveEntry_eq, ?_⟩
  have hle := hentry.payload_le hbs
  unfold decodeUint
  rw [if_neg (by omega), hbs.take_drop, shiftIn_eq, Nat.zero_mul, Nat.zero_add]

/-! ## Where a field ends -/

theorem Steps.skipMany_eq {R : ℕ → ℕ → Prop} {skip : ℕ → Except Status ℕ} {n : ℕ}
    (hskip : ∀ a b, R a b → skip a = .ok b) (h : Steps R n off next) :
    skipMany skip n off = .ok next := by
  induction n generalizing off with
  | zero =>
    cases h
    rfl
  | succ n ih =>
    obtain ⟨c, hR, h⟩ := h
    simp only [skipMany, hskip off c hR]
    exact ih h

/-- Skipping a field ends where the field ends. -/
theorem Spans.skipValueFrom_eq {levels : ℕ} (h : Spans buf levels off next) :
    skipValueFrom buf levels off = .ok next := by
  induction levels generalizing off next with
  | zero => exact h.elim
  | succ levels ih =>
    have hmany : ∀ {n a b}, Steps (Spans buf levels) n a b →
        skipMany (skipValueFrom buf levels) n a = .ok b :=
      fun h => h.skipMany_eq fun _ _ => ih
    unfold skipValueFrom
    rcases h with ⟨target, hptr⟩ | ⟨type, size, data, hctrl, h⟩
    · obtain ⟨low, hctrl, hle, rfl, -⟩ := hptr.decode_eq
      simp only [hctrl, if_true]
      rw [if_neg (by omega)]
    · simp only [hctrl.decodeCtrl_eq, hctrl.type_ne, if_false]
      by_cases hmap : type = dtMap
      · simp only [hmap, if_true] at h ⊢
        exact hmany h
      by_cases harray : type = dtArray
      · simp only [harray, if_true] at h ⊢
        exact hmany h
      by_cases hbool : type = dtBool
      · simp only [hmap, harray, if_false] at h ⊢
        rw [if_pos hbool] at h ⊢
        rw [h]
      · simp only [hmap, harray, hbool, if_false] at h ⊢
        obtain ⟨rfl, hle⟩ := h
        rw [if_neg (by omega)]

theorem decodeSize_within {raw : ℕ} (hle : off ≤ buf.length)
    (h : decodeSize buf raw off = .ok (size, next)) : off ≤ next ∧ next ≤ buf.length := by
  unfold decodeSize at h
  split_ifs at h
  all_goals
    have hnext := congrArg Prod.snd (Except.ok.inj h)
    dsimp only at hnext
    omega

theorem decodeCtrlSize_within {raw t : ℕ} (hle : off ≤ buf.length)
    (h : decodeCtrlSize buf type raw off = .ok (t, size, next)) : off ≤ next ∧ next ≤ buf.length := by
  unfold decodeCtrlSize at h
  split_ifs at h
  · cases h
    omega
  · cases hsize : decodeSize buf raw off with
    | error e => simp [hsize, Except.map] at h
    | ok p =>
      rw [hsize] at h
      cases h
      exact decodeSize_within hle hsize

/-- The payload of a field begins behind its control byte and not behind the buffer. -/
theorem decodeCtrl_within (h : decodeCtrl buf off = .ok (type, size, data)) :
    off < data ∧ data ≤ buf.length := by
  unfold decodeCtrl at h
  dsimp only at h
  split_ifs at h
  all_goals
    have hdata := decodeCtrlSize_within (by omega) h
    omega

theorem skipMany_within {skip : ℕ → Except Status ℕ} {n : ℕ}
    (hskip : ∀ {a b}, skip a = .ok b → a < b ∧ b ≤ buf.length) (hle : off ≤ buf.length)
    (h : skipMany skip n off = .ok next) : off ≤ next ∧ next ≤ buf.length := by
  induction n generalizing off with
  | zero =>
    cases h
    exact ⟨le_rfl, hle⟩
  | succ n ih =>
    unfold skipMany at h
    split at h
    · cases h
    · rename_i mid hmid
      have hstep := hskip hmid
      have hrest := ih hstep.2 h
      omega

theorem skipValueFrom_within {levels : ℕ} (h : skipValueFrom buf levels off = .ok next) :
    off < next ∧ next ≤ buf.length := by
  induction levels generalizing off next with
  | zero => cases h
  | succ levels ih =>
    unfold skipValueFrom at h
    split at h
    · cases h
    rename_i type size data hctrl
    have hdata := decodeCtrl_within hctrl
    have hmany : ∀ {n}, skipMany (skipValueFrom buf levels) n data = .ok next →
        off < next ∧ next ≤ buf.length := fun h => by
      have := skipMany_within ih hdata.2 h
      omega
    split_ifs at h
    · cases h
      omega
    · exact hmany h
    · exact hmany h
    · cases h
      exact hdata
    · cases h
      omega

/-- Skipping is exact: a field as the format writes it is skipped to its end, and whatever stands in
the buffer, a skip that succeeds goes forward and stays in the buffer. -/
theorem skipValue_exact (buf : List UInt8) (off next : ℕ) :
    (Spans buf (maxDecodeDepth + 1) off next → skipValue buf off = .ok next) ∧
      (skipValue buf off = .ok next → off < next ∧ next ≤ buf.length) :=
  ⟨Spans.skipValueFrom_eq, skipValueFrom_within⟩

/-! ## The map -/

def Field.store (md : Metadata) : Field → Metadata
  | nodeCount n => { md with nodeCount := n }
  | recordSize n => { md with recordSize := n }
  | ipVersion n => { md with ipVersion := n }
  | buildEpoch n => { md with buildEpoch := n }
  | databaseType s => { md with databaseType := s.take 127 }
  | other _ => md

theorem Field.parseField_eq (f : Field) (md : Metadata) (h : f.ValueAt buf off) :
    ∃ vtype vsize voff, resolveEntry buf off = .ok (vtype, vsize, voff) ∧
      parseField buf md f.key vtype vsize voff = .ok (f.store md) := by
  cases f with
  | nodeCount n | recordSize n | ipVersion n | buildEpoch n =>
    obtain ⟨type, size, data, htype, hentry, hval⟩ := UintAt.decodeUint_eq h
    refine ⟨type, size, data, hentry, ?_⟩
    rcases mem_pair.mp htype with rfl | rfl
    all_goals
      simp +decide only [parseField, Field.key, decodeUint16, decodeUint32, decodeUint64, hval, if_true,
        if_false]
      rfl
  | databaseType s =>
    obtain ⟨data, hentry, hs⟩ := h
    have hle := hentry.payload_le hs
    have hend : ¬ data + min s.length 127 > buf.length := by omega
    have htake : (buf.drop data).take (min s.length 127) = s.take 127 := by
      rw [Nat.min_comm, ← take_take, hs.take_drop]
    refine ⟨dtString, s.length, data, hentry.resolveEntry_eq, ?_⟩
    simp +decide only [parseField, Field.key, hend, htake, if_true, if_false]
    rfl
  | other key =>
    obtain ⟨hkey, type, size, data, hentry⟩ := h
    refine ⟨type, size, data, hentry.resolveEntry_eq, ?_⟩
    simp only [knownKeys, mem_cons, not_mem_nil, or_false, not_or] at hkey
    obtain ⟨h₁, h₂, h₃, h₄, h₅⟩ := hkey
    simp only [parseField, Field.key, h₁, h₂, h₃, h₄, h₅, if_false]
    rfl

theorem parseEntries_eq {fields : List Field} (md : Metadata) (h : EntriesAt buf fields off) :
    parseEntries buf fields.length md off = .ok (fields.foldl Field.store md) := by
  induction fields generalizing md off with
  | nil => rfl
  | cons f fs ih =>
    obtain ⟨valOff, next, ⟨data, hkey, hs⟩, hspan, hval, hspan', h⟩ := h
    obtain ⟨vtype, vsize, voff, hentry, hfield⟩ := f.parseField_eq md hval
    have hle := hkey.payload_le hs
    have hstep : parseEntry buf md off = .ok (f.store md, next) := by
      unfold parseEntry skipValue
      simp only [hkey.resolveEntry_eq, hspan.skipValueFrom_eq, hspan'.skipValueFrom_eq, hentry,
        hs.take_drop, hfield]
      rw [if_neg (by simp), if_neg (by omega)]
      rfl
    simp only [length_cons, parseEntries, hstep, foldl_cons]
    exact ih (f.store md) h

/-- The value that a key has at the end, where all entries with it agree. -/
theorem foldl_store_eq {α : Type*} (get : Metadata → α) (isKey : α → Field) {v : α}
    (hself : ∀ md w, get ((isKey w).store md) = w)
    (hother : ∀ md f, (∀ w, f ≠ isKey w) → get (f.store md) = get md)
    {fields : List Field} (hv : isKey v ∈ fields) (hall : ∀ w, isKey w ∈ fields → w = v)
    (md : Metadata) : get (fields.foldl Field.store md) = v := by
  -- Once it has the value it keeps it.
  have hkeep : ∀ (fields : List Field), (∀ w, isKey w ∈ fields → w = v) →
      ∀ md, get md = v → get (fields.foldl Field.store md) = v := by
    intro fields
    induction fields with
    | nil => exact fun _ md hmd => hmd
    | cons f fs ih =>
      intro hall md hmd
      refine ih (fun w hw => hall w (mem_cons_of_mem _ hw)) _ ?_
      by_cases hf : ∃ w, f = isKey w
      · obtain ⟨w, rfl⟩ := hf
        rw [hself, hall w mem_cons_self]
      · rw [hother md f fun w hw => hf ⟨w, hw⟩, hmd]
  obtain ⟨before, after, rfl⟩ := append_of_mem hv
  rw [foldl_append]
  refine hkeep after (fun w hw => hall w (by simp [hw])) _ ?_
  rw [hself]

/-- The metadata that is read from a well-formed database. -/
def Database.md (d : Database) : Metadata := d.fields.foldl Field.store .zero

theorem Database.md_eq (d : Database) :
    d.md.nodeCount = d.nodes.length ∧ d.md.recordSize = d.recordSize.bits ∧
      d.md.ipVersion = d.ipVersion.number := by
  refine ⟨foldl_store_eq (·.nodeCount) .nodeCount ?_ ?_ d.nodeCount_ok.1 d.nodeCount_ok.2 _,
    foldl_store_eq (·.recordSize) .recordSize ?_ ?_ d.recordSize_ok.1 d.recordSize_ok.2 _,
    foldl_store_eq (·.ipVersion) .ipVersion ?_ ?_ d.ipVersion_ok.1 d.ipVersion_ok.2 _⟩
  all_goals
    first
    | exact fun _ _ => rfl
    | intro md f hf
      cases f with
      | _ => first | rfl | exact absurd rfl (hf _)

/-- `parse_metadata` accepts the metadata of a well-formed database. -/
theorem Database.parseMetadata_eq (d : Database) : parseMetadata d.metadata = .ok d.md := by
  obtain ⟨data, hctrl, hentries⟩ := d.metadata_ok
  obtain ⟨hcount, hsize, hversion⟩ := d.md_eq
  have hpos := length_pos_iff.2 d.nodes_ne
  have hbits : d.recordSize.bits = 24 ∨ d.recordSize.bits = 28 ∨ d.recordSize.bits = 32 := by
    cases d.recordSize <;> decide
  have hnumber : d.ipVersion.number = 4 ∨ d.ipVersion.number = 6 := by
    cases d.ipVersion <;> decide
  have hparse : parseEntries d.metadata d.fields.length .zero data = .ok d.md :=
    parseEntries_eq .zero hentries
  unfold parseMetadata
  simp only [hctrl.decodeCtrl_eq, hparse, hcount, hsize, hversion, ne_eq, not_true_eq_false, if_false]
  rw [if_neg (by omega), if_neg (by omega)]

end ObbyIRCd.Mmdb
