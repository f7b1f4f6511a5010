import Mathlib.Algebra.Order.BigOperators.Group.List
import ObbyIRCd.Tkl.Store

/-!
# Reading the TKL entries back

The reads of one round take off what `write_tkline` wrote (`readTkline_spec`), so `read_tkldb` adds what
each entry was written as. A user mask is the only field that can come back changed: a percent sign at
its start is taken for a soft ban, and that of a soft ban is cut by the buffer it is written to
(`rereadMask`). Either makes it shorter, so a server that has the same entries again has the same
masks. It has them again exactly if no text is too long for the reader, no mask is changed, no ban or
spamfilter is set by `-config-`, and no two entries have the same key.
-/

namespace ObbyIRCd.Tkl

open List Keyed TKL RawBody

open Database

variable {C : Crypto}

/-! ## Letters and texts -/

theorem tklChartotype_letter (t : TklType) :
    tklChartotype (Char.ofNat (letter (tklTypetochar t)).toNat) = some t := by
  have hlt : (tklTypetochar t).toNat < 256 := by
    rcases t with (_ | _ | _ | _ | _) | (_ | _) | (_ | _) | (_ | _) <;> decide
  rw [ofNat_letter hlt, tklChartotype_tklTypetochar]

theorem banactChartoval_letter (a : BanAction) :
    banactChartoval (Char.ofNat (letter (banactValtochar a)).toNat) = some a := by
  have hlt : (banactValtochar a).toNat < 256 := by cases a <;> decide
  rw [ofNat_letter hlt, banactChartoval_banactValtochar]

theorem unrealMatchMethodStrtoval_text (m : MatchType) :
    unrealMatchMethodStrtoval (chars (text (unrealMatchMethodValtostr m))) = some m := by
  have hascii : ∀ c ∈ unrealMatchMethodValtostr m, 0 < c.toNat ∧ c.toNat < 256 := by
    cases m <;> exact forall_mem_of_all (by decide)
  rw [chars_text hascii, unrealMatchMethodStrtoval_valtostr]

theorem spamfilterTargetInttostring_ascii (target : Finset SpamfTarget) :
    ∀ c ∈ spamfilterTargetInttostring target, 0 < c.toNat ∧ c.toNat < 256 := by
  have hletter (t : SpamfTarget) : 0 < t.character.toNat ∧ t.character.toNat < 256 := by
    cases t <;> decide
  intro c hc
  unfold spamfilterTargetInttostring at hc
  dsimp only at hc
  split_ifs at hc
  · obtain rfl := mem_singleton.mp hc
    decide
  · obtain ⟨t, -, rfl⟩ := mem_map.mp hc
    exact hletter t

theorem spamfilterGettargets_text {target : Finset SpamfTarget} (hne : target ≠ ∅) :
    spamfilterGettargets (chars (text (spamfilterTargetInttostring target))) = target := by
  rw [chars_text (spamfilterTargetInttostring_ascii target), spamfilterGettargets_inttostring hne]

/-! ## User masks -/

/-- What comes back of a user mask, and whether it is one of a soft ban. -/
def rereadMask (soft : Bool) (usermask : CStr) : Bool × CStr :=
  let written := if soft then (softUsermask usermask).str else usermask
  (isSoft written, dropSoft written)

def MaskOk (soft : Bool) (usermask : CStr) : Prop :=
  if soft then usermask.strlen ≤ 254 else isSoft usermask = false

variable (usermask : CStr)

theorem isSoft_softUsermask : isSoft (softUsermask usermask).str = true := by
  unfold isSoft softUsermask strlcpy
  simp

theorem bytes_dropSoft_softUsermask :
    (dropSoft (softUsermask usermask).str).bytes = usermask.bytes.take 254 := by
  unfold dropSoft
  rw [if_pos (isSoft_softUsermask usermask)]
  rfl

theorem strlen_dropSoft_le : (dropSoft usermask).strlen ≤ usermask.strlen := by
  unfold dropSoft CStr.strlen
  split_ifs
  · rw [length_tail]
    omega
  · exact le_rfl

/-- A mask does not get longer, and one that is changed gets shorter. -/
theorem rereadMask_shorter (soft : Bool) (usermask : CStr) :
    (rereadMask soft usermask).2.strlen ≤ usermask.strlen ∧
      ((rereadMask soft usermask).2.strlen = usermask.strlen → MaskOk soft usermask) := by
  unfold rereadMask MaskOk
  cases soft with
  | true =>
    simp only [if_true]
    have hlen : (dropSoft (softUsermask usermask).str).strlen = min 254 usermask.strlen := by
      unfold CStr.strlen
      rw [bytes_dropSoft_softUsermask, length_take]
    omega
  | false =>
    simp only [Bool.false_eq_true, if_false]
    refine ⟨strlen_dropSoft_le usermask, fun hlen => ?_⟩
    by_contra hsoft
    rw [Bool.not_eq_false] at hsoft
    -- The percent sign is gone.
    unfold dropSoft CStr.strlen at hlen
    rw [if_pos hsoft] at hlen
    change usermask.bytes.tail.length = usermask.bytes.length at hlen
    unfold isSoft at hsoft
    rcases hbytes : usermask.bytes with - | ⟨b, bs⟩
    · rw [hbytes] at hsoft
      exact absurd hsoft (by decide)
    · rw [hbytes, tail_cons, length_cons] at hlen
      omega

theorem rereadMask_of_ok {soft : Bool} {usermask : CStr} (h : MaskOk soft usermask) :
    rereadMask soft usermask = (soft, usermask) := by
  unfold rereadMask
  cases soft with
  | true =>
    simp only [if_true] at h ⊢
    have hdrop : dropSoft (softUsermask usermask).str = usermask := by
      apply CStr.ext_bytes
      rw [bytes_dropSoft_softUsermask]
      exact take_of_length_le h
    rw [isSoft_softUsermask, hdrop]
  | false =>
    simp only [Bool.false_eq_true, if_false] at h ⊢
    unfold dropSoft
    rw [h]
    rfl

/-! ## One entry -/

/-- A version of the file that has all fields that are set. -/
def Raw.Within (version : UInt32) (r : Raw) : Prop :=
  6260 ≤ version ∨
    (r.common.id = CStr.empty ∧ r.common.spamfilterId = CStr.empty ∧ r.common.hits = 0 ∧
      r.common.lasthit = 0 ∧ ∀ global, r.body.type ≠ .spamfilter global)

theorem kind_common (version : UInt32) (h : Common) :
    (h.records version).map Record.kind = Common.kinds version := by
  unfold Common.records Common.kinds
  split_ifs <;> rfl

theorem kind_body (version : UInt32) (b : RawBody) :
    (b.records version).map Record.kind = kinds version b.type := by
  cases b with
  | spamfilter =>
    unfold records kinds type
    split_ifs <;> rfl
  | _ => rfl

variable {version : UInt32}

variable {r : Raw} {c : UnrealDB C}

theorem ofRecords_common (h : r.Within version) :
    Common.ofRecords (r.common.records version) = some r.common := by
  unfold Common.records
  split_ifs with hversion
  · rfl
  obtain ⟨hid, hspamfilterId, hhits, hlasthit, -⟩ := h.resolve_left hversion
  rcases r with ⟨⟨setBy, setAt, expireAt, id, spamfilterId, hits, lasthit⟩, body⟩
  subst hid hspamfilterId hhits hlasthit
  rfl

theorem ofRecords_body (h : r.Within version) :
    ofRecords r.body.type (r.body.records version) = some r.body := by
  rcases r with ⟨common, body⟩
  cases body with
  | spamfilter global =>
    have hversion : 6260 ≤ version := by
      rcases h with hversion | ⟨-, -, -, -, htype⟩
      · exact hversion
      · exact absurd rfl (htype global)
    unfold records
    dsimp only
    rw [if_pos hversion]
    rfl
  | _ => rfl

/-- The reads of one round take an entry off the file. -/
theorem readTkline_spec (hwithin : r.Within version)
    (hreadable : ∀ x ∈ r.records version, x.Readable) {q : List UInt8}
    (hr : Reading c ((r.records version).flatMap encode ++ q)) :
    ∃ c', readTkline version c = .ok (r, c') ∧ Reading c' q := by
  unfold Raw.records at hr hreadable
  rw [flatMap_cons, flatMap_append, append_assoc, append_assoc] at hr
  obtain ⟨c₁, h1, hr⟩ := readRecord_spec (hreadable _ mem_cons_self) hr
  have hcommon : ∀ x ∈ r.common.records version, x.Readable := fun x hx =>
    hreadable x (mem_cons_of_mem _ (mem_append_left _ hx))
  have hbody : ∀ x ∈ r.body.records version, x.Readable := fun x hx =>
    hreadable x (mem_cons_of_mem _ (mem_append_right _ hx))
  obtain ⟨c₂, h2, hr⟩ := readAs_spec Stop.failed (ofRecords_common hwithin) hcommon hr
  obtain ⟨c₃, h3, hr⟩ := readAs_spec Stop.failed (ofRecords_body hwithin) hbody hr
  rw [kind_common] at h2
  rw [kind_body] at h3
  refine ⟨c₃, ?_, hr⟩
  have hchar : unrealdbReadChar c = (some (letter (tklTypetochar r.body.type)), c₁) := by
    unfold Record.kind readRecord at h1
    rcases hread : unrealdbReadChar c with ⟨ch, c'⟩
    simp only [hread, Prod.mk.injEq] at h1
    obtain ⟨hch, rfl⟩ := h1
    rcases ch with - | ch
    · simp at hch
    · simpa using hch
  simp [readTkline, hchar, tklChartotype_letter, h2, h3]

/-- An entry that a running server can hold. Only the configuration has other spamfilters. -/
structure TKL.Valid (env : Env) (now : Int64) (t : TKL) : Prop where
  unexpired : t.expireAt = 0 ∨ now < t.expireAt
  spamfilter : ∀ global target action matchType matchString tklReason tklDuration hitsExcept
    lasthitExcept, t.body = .spamfilter global target action matchType matchString tklReason
      tklDuration hitsExcept lasthitExcept →
    target ≠ ∅ ∧ banactConfigOnly action = false ∧ createsMatch env t.body.ptr = true

/-- What comes back of an entry. -/
def Body.reread : Body → Body
  | .serverban type soft usermask hostmask reason =>
    .serverban type (rereadMask soft usermask).1 (rereadMask soft usermask).2 hostmask reason
  | .banexception global soft usermask hostmask bantypes reason =>
    .banexception global (rereadMask soft usermask).1 (rereadMask soft usermask).2 hostmask bantypes
      reason
  | body => body

def TKL.reread (t : TKL) : TKL := { t with body := t.body.reread }

variable {env : Env} {now : Int64} {t : TKL}

theorem read_raw_body (hvalid : t.Valid env now) : t.body.raw.read env = some t.body.reread := by
  have hspamfilter := hvalid.spamfilter
  generalize t.body = body at hspamfilter ⊢
  cases body with
  | serverban | banexception => rfl
  | nameban global hold name reason =>
    have hhold : decide ((text [if hold then 'H' else '*']).bytes.head? = some (letter 'H')) = hold := by
      cases hold <;> decide
    unfold Body.raw RawBody.read
    dsimp only
    rw [hhold]
    rfl
  | spamfilter global target action matchType matchString tklReason tklDuration hitsExcept
      lasthitExcept =>
    obtain ⟨htarget, haction, hmatch⟩ := hspamfilter _ _ _ _ _ _ _ _ _ rfl
    have hadmits : ¬(createsMatch env (Body.spamfilter global target action matchType matchString
        tklReason tklDuration hitsExcept lasthitExcept).ptr = false ∨ target = ∅ ∨
          banactConfigOnly action = true) := by
      simp [hmatch, htarget, haction]
    unfold Body.raw RawBody.read
    simp only [unrealMatchMethodStrtoval_text, banactChartoval_letter,
      spamfilterGettargets_text htarget, Option.bind_eq_bind, Option.bind_some, if_neg hadmits]
    rfl

theorem tkl_raw (hvalid : t.Valid env now)
    (hsaved : t.saved = true) : t.raw.tkl env = some t.reread := by
  have hflags : t.config = false ∧ t.central = false := by
    unfold saved at hsaved
    simpa using hsaved
  unfold Raw.tkl
  rw [show t.raw.body = t.body.raw from rfl, read_raw_body hvalid, Option.map_some]
  unfold raw reread
  rw [strlcpy_str, strlcpy_str, hflags.1, hflags.2]

/-! ## The loop -/

/-- What an entry is added as, if it has not expired and is not set by `-config-`. -/
def Raw.admits (env : Env) (now : Int64) (r : Raw) : Option TKL :=
  if (r.common.expireAt ≠ 0 ∧ r.common.expireAt ≤ now) ∨
      (r.body.skipsConfig = true ∧ r.common.setBy = configName) then none
  else r.tkl env

theorem findTkl_isSome (tklines : List TKL) (t : TKL) :
    (findTkl (tklines.map entry) t.body.ptr).isSome = (Keyed.find key tklines t.key).isSome := by
  have hkeys : (tklines.map entry).map Entry.key = tklines.map key := by
    rw [map_map]
    rfl
  rw [findTkl_eq_find, Bool.eq_iff_iff, ← Option.ne_none_iff_isSome, ← Option.ne_none_iff_isSome,
    not_iff_not, find_eq_none_iff, find_eq_none_iff, hkeys]
  rfl

theorem addRead_eq (env : Env) (now : Int64) (tklines : List TKL) (r : Raw) :
    addRead env now tklines r =
      match r.admits env now with
      | none => tklines
      | some t => Keyed.keep key tklines t := by
  unfold addRead Raw.admits doNotAdd keep
  rcases r.tkl env with - | t
  · split_ifs <;> rfl
  dsimp only
  rw [findTkl_isSome]
  simp only [Bool.or_eq_true, Bool.and_eq_true, decide_eq_true_eq]
  by_cases hskip : (r.common.expireAt ≠ 0 ∧ r.common.expireAt ≤ now) ∨
      (r.body.skipsConfig = true ∧ r.common.setBy = configName)
  · rw [if_pos hskip, if_pos (by tauto)]
  rw [if_neg hskip]
  dsimp only
  by_cases hfound : (find key tklines t.key).isSome = true
  · rw [if_pos hfound, if_pos (by tauto)]
  · rw [if_neg hfound, if_neg (by tauto)]

theorem foldl_addRead (env : Env) (now : Int64) (raws : List Raw) (tklines : List TKL) :
    raws.foldl (addRead env now) tklines =
      (raws.filterMap (Raw.admits env now)).foldl (Keyed.keep key) tklines := by
  induction raws generalizing tklines with
  | nil => rfl
  | cons r raws ih =>
    rw [foldl_cons, addRead_eq, ih, filterMap_cons]
    rcases r.admits env now with - | t <;> rfl

/-! ## Texts that the reader takes -/

def Body.texts : Body → List CStr
  | .serverban _ _ usermask hostmask reason => [usermask, hostmask, reason]
  | .banexception _ _ usermask hostmask bantypes reason => [usermask, hostmask, bantypes, reason]
  | .nameban _ _ name reason => [name, reason]
  | .spamfilter _ _ _ _ matchString tklReason _ _ _ => [matchString, tklReason]

def TKL.Short (t : TKL) : Prop := t.setBy.strlen ≤ 10000 ∧ ∀ s ∈ t.body.texts, s.strlen ≤ 10000

theorem length_spamfilterTargetInttostring (target : Finset SpamfTarget) :
    (spamfilterTargetInttostring target).length ≤ 12 := by
  have hfilter : (spamfilterTargetTable.filter fun t => t ∈ target).length ≤ 12 :=
    length_filter_le _ spamfilterTargetTable
  unfold spamfilterTargetInttostring
  dsimp only
  split_ifs
  · decide
  · rwa [length_map]

theorem strlen_writtenMask {usermask : CStr} (h : usermask.strlen ≤ 10000) (soft : Bool) :
    (if soft then (softUsermask usermask).str else usermask).strlen ≤ 10000 := by
  cases soft with
  | true => exact (softUsermask usermask).le.trans (by norm_num)
  | false => exact h

variable {body : Body}

theorem readable_records_body (version : UInt32) (hshort : ∀ s ∈ body.texts, s.strlen ≤ 10000) :
    ∀ x ∈ body.raw.records version, x.Readable := by
  cases body with
  | serverban type soft usermask hostmask reason
  | banexception global soft usermask hostmask bantypes reason =>
    simp only [Body.texts, forall_mem_cons] at hshort
    simpa [Body.raw, records, strlen_writtenMask hshort.1 soft] using hshort.2
  | nameban global hold name reason =>
    have hhold : (text [if hold then 'H' else '*']).strlen ≤ 10000 :=
      (strlen_text_le _).trans (by norm_num)
    simpa [Body.raw, records, hhold, Body.texts] using hshort
  | spamfilter global target action matchType matchString tklReason =>
    have hmatchType : (text (unrealMatchMethodValtostr matchType)).strlen ≤ 10000 :=
      (strlen_text_le _).trans (by cases matchType <;> decide)
    have htarget : (text (spamfilterTargetInttostring target)).strlen ≤ 10000 :=
      (strlen_text_le _).trans ((length_spamfilterTargetInttostring target).trans (by norm_num))
    simp only [Body.texts, forall_mem_cons] at hshort
    refine forall_mem_append.mpr ⟨?_, ?_⟩
    · simp [hmatchType, htarget, hshort]
    · split_ifs <;> simp

theorem readable_records_common (version : UInt32) (hsetBy : t.setBy.strlen ≤ 10000) :
    ∀ x ∈ t.raw.common.records version, x.Readable := by
  have hid : t.id.str.strlen ≤ 10000 := t.id.le.trans (by norm_num)
  have hspamfilterId : t.spamfilterId.str.strlen ≤ 10000 := t.spamfilterId.le.trans (by norm_num)
  refine forall_mem_append.mpr ⟨?_, ?_⟩
  · simpa [raw] using hsetBy
  · split_ifs <;> simp [raw, hid, hspamfilterId]

theorem TKL.Short.readable (h : t.Short) (version : UInt32) :
    ∀ x ∈ t.raw.records version, x.Readable := by
  unfold Raw.records
  rw [forall_mem_cons, forall_mem_append]
  exact ⟨readable_char _, readable_records_common version h.1, readable_records_body version h.2⟩

def RawBody.texts : RawBody → List CStr
  | .serverban _ usermask hostmask reason => [usermask, hostmask, reason]
  | .banexception _ usermask hostmask bantypes reason => [usermask, hostmask, bantypes, reason]
  | .nameban _ _ name reason => [name, reason]
  | .spamfilter _ _ matchString _ _ tklReason _ _ _ => [matchString, tklReason]

def Raw.Short (r : Raw) : Prop := r.common.setBy.strlen ≤ 10000 ∧ ∀ s ∈ r.body.texts, s.strlen ≤ 10000

theorem short_common {rs : List Record} (hrs : ∀ x ∈ rs, x.Readable) {h : Common}
    (hof : Common.ofRecords rs = some h) : h.setBy.strlen ≤ 10000 := by
  unfold Common.ofRecords at hof
  split at hof <;> cases hof <;> exact hrs _ mem_cons_self _ rfl

theorem short_body {rs : List Record} (hrs : ∀ x ∈ rs, x.Readable) {type : TklType} {b : RawBody}
    (hof : ofRecords type rs = some b) : ∀ s ∈ b.texts, s.strlen ≤ 10000 := by
  have hshort : ∀ s, Record.str (some s) ∈ rs → s.strlen ≤ 10000 := fun s hs => hrs _ hs s rfl
  unfold ofRecords at hof
  split at hof <;> cases hof <;> intro s hs <;> refine hshort s ?_ <;>
    simp only [texts, mem_cons, not_mem_nil, or_false] at hs <;>
    simp only [mem_cons, Record.str.injEq, Option.some.injEq] <;> tauto

theorem short_read {b : RawBody} (hb : ∀ s ∈ b.texts, s.strlen ≤ 10000)
    (hread : b.read env = some body) : ∀ s ∈ body.texts, s.strlen ≤ 10000 := by
  cases b with
  | serverban type usermask hostmask reason
  | banexception global usermask hostmask bantypes reason =>
    obtain rfl := Option.some.inj hread
    simp only [RawBody.texts, Body.texts, forall_mem_cons] at hb ⊢
    exact ⟨(strlen_dropSoft_le usermask).trans hb.1, hb.2⟩
  | nameban global hold name reason =>
    obtain rfl := Option.some.inj hread
    exact hb
  | spamfilter global matchType matchString target action tklReason =>
    unfold RawBody.read at hread
    simp only [Option.bind_eq_bind, Option.bind_eq_some_iff] at hread
    obtain ⟨matchMethod, -, action', -, hbody⟩ := hread
    split_ifs at hbody
    obtain rfl := Option.some.inj hbody
    exact hb

theorem short_readTkline {c' : UnrealDB C} (h : readTkline version c = .ok (r, c')) : r.Short := by
  unfold readTkline at h
  split at h
  · cases h
  split at h
  · cases h
  split at h
  · cases h
  rename_i common c₁ hcommon
  split at h
  · cases h
  rename_i body c₂ hbody
  obtain ⟨rfl, -⟩ := Prod.mk.inj (Except.ok.inj h)
  obtain ⟨rs, hof, hrs⟩ := readAs_readable hcommon
  obtain ⟨rs', hof', hrs'⟩ := readAs_readable hbody
  exact ⟨short_common hrs hof, short_body hrs' hof'⟩

variable {tklines : List TKL} {secr : Option (Secret C)}

theorem short_addRead (hr : r.Short) (h : ∀ t ∈ tklines, t.Short) : ∀ t ∈ addRead env now tklines r, t.Short := by
  unfold addRead
  split
  · exact h
  rename_i t htkl
  split_ifs
  · exact h
  · obtain ⟨body, hbody, rfl⟩ := Option.map_eq_some_iff.mp htkl
    exact forall_mem_cons.mpr ⟨⟨hr.1, short_read hr.2 hbody⟩, h⟩

theorem short_readTklines (env : Env) (now : Int64) (version : UInt32) (tklcount : UInt64)
    (c : UnrealDB C) : ∀ t ∈ (readTklines env now version tklcount c).1, t.Short := by
  have hadd : ∀ (tklines : List TKL) (r : Raw) (c c' : UnrealDB C),
      readTkline version c = .ok (r, c') → (∀ t ∈ tklines, t.Short) →
        ∀ t ∈ addRead env now tklines r, t.Short :=
    fun _ _ _ _ hread h => short_addRead (short_readTkline hread) h
  have hloop := readItems_invariant hadd tklcount.toNat (forall_mem_nil _) c
  unfold readTklines
  split
  all_goals
    rename_i heq
    rw [heq] at hloop
    exact hloop

/-! ## Whole files -/

theorem readTkldb_of_reading (env : Env) (now : Int64) {file : List UInt8} (hold : ¬version < 4999)
    (hnew : ¬tkldbVersion < version) {raws : List Raw} (hwithin : ∀ r ∈ raws, r.Within version)
    (hreadable : ∀ r ∈ raws, ∀ x ∈ r.records version, x.Readable) (hcount : raws.length < 2 ^ 64)
    (hopen : unrealdbOpenReadAny secr file = .ok c)
    (hr : Reading c ((tkldbRecords version raws).flatMap encode)) :
    readTkldb env now secr file = (raws.foldl (addRead env now) [], .complete) := by
  unfold tkldbRecords at hr
  simp only [flatMap_cons] at hr
  obtain ⟨c₁, h1, hr⟩ := unrealdbReadInt32_spec hr
  obtain ⟨c₂, h2, hr⟩ := unrealdbReadInt32_spec hr
  obtain ⟨c₃, h3, hr⟩ := unrealdbReadInt64_spec hr
  have hlength : (UInt64.ofNat raws.length).toNat = raws.length := by
    rw [UInt64.toNat_ofNat']
    exact Nat.mod_eq_of_lt hcount
  have hread : ∀ r ∈ raws, ∀ (c : UnrealDB C) (q : List UInt8),
      Reading c ((r.records version).flatMap encode ++ q) →
        ∃ c', readTkline version c = .ok (r, c') ∧ Reading c' q :=
    fun r hmem c q hr => readTkline_spec (hwithin r hmem) (hreadable r hmem) hr
  rw [flatMap_assoc, ← append_nil (raws.flatMap _)] at hr
  obtain ⟨c₄, h4, -⟩ := readItems_spec (addRead env now) hread [] hr
  simp [readTkldb, hopen, h1, h2, hold, hnew, h3, readTklines, hlength, h4]

theorem readable_tkldbRecords {raws : List Raw}
    (hreadable : ∀ r ∈ raws, ∀ x ∈ r.records version, x.Readable) :
    ∀ x ∈ tkldbRecords version raws, x.Readable := by
  unfold tkldbRecords
  simpa only [forall_mem_cons, forall_mem_flatMap, readable_int32, readable_int64,
    true_and] using hreadable

theorem readable_of_short {saved : List TKL} (hshort : ∀ t ∈ saved, t.Short) :
    ∀ r ∈ saved.map raw, ∀ x ∈ r.records tkldbVersion, x.Readable := by
  intro r hr
  obtain ⟨t, ht, rfl⟩ := mem_map.mp hr
  exact (hshort t ht).readable tkldbVersion

theorem readTkldb_eq (env : Env) (now : Int64) {secr₂ : Option (Secret C)}
    (hpass : secr₂.map Secret.password = secr.map Secret.password) {wnow : UInt64} {random : Random}
    {free : ℕ} {file : List UInt8}
    (hwrite : writeTkldb secr wnow random free tklines = some file)
    (hshort : ∀ t ∈ tklines.filter saved, t.Short)
    (hcount : (tklines.filter saved).length < 2 ^ 64) :
    readTkldb env now secr₂ file =
      (((tklines.filter saved).map raw).foldl (addRead env now) [], .complete) := by
  have hreadable := readable_of_short hshort
  obtain ⟨c, hopen, hr⟩ := unrealdbOpenReadAny_saveRecords hpass hwrite
    (readable_tkldbRecords hreadable)
  refine readTkldb_of_reading env now (by decide) (by decide) (fun r _ => .inl (by decide))
    hreadable ?_ hopen hr
  rwa [length_map]

theorem short_readTkldb (env : Env) (now : Int64) (secr : Option (Secret C)) (file : List UInt8) :
    ∀ t ∈ (readTkldb env now secr file).1, t.Short := by
  unfold readTkldb
  repeat' split
  all_goals first | exact forall_mem_nil _ | exact short_readTklines env now _ _ _

def Body.MaskOk : Body → Prop
  | .serverban _ soft usermask _ _ | .banexception _ soft usermask _ _ _ => Tkl.MaskOk soft usermask
  | _ => True

def Body.maskLength : Body → ℕ
  | .serverban _ _ usermask _ _ | .banexception _ _ usermask _ _ _ => usermask.strlen
  | _ => 0

theorem reread_of_maskOk (h : body.MaskOk) : body.reread = body := by
  cases body with
  | serverban | banexception =>
    simp [Body.reread, rereadMask_of_ok h]
  | _ => rfl

theorem maskLength_reread (body : Body) :
    body.reread.maskLength ≤ body.maskLength ∧
      (body.reread.maskLength = body.maskLength → body.MaskOk) := by
  cases body with
  | serverban _ soft usermask
  | banexception _ soft usermask => exact rereadMask_shorter soft usermask
  | _ => exact ⟨le_rfl, fun _ => trivial⟩

/-- An entry that is read back as it was. -/
structure TKL.Storable (t : TKL) : Prop where
  short : t.Short
  mask : t.body.MaskOk
  setBy : t.body.raw.skipsConfig = true → t.setBy ≠ configName

theorem unexpired_iff {t now : Int64} : (t = 0 ∨ now < t) ↔ ¬(t ≠ 0 ∧ t ≤ now) := by
  rw [not_and_or, not_not, Int64.not_le]

/-- It is set by `-config-`, and not added. -/
abbrev TKL.Skipped (t : TKL) : Prop := t.body.raw.skipsConfig = true ∧ t.setBy = configName

/-- A valid entry is added unless it is set by `-config-`. -/
theorem admits_raw (hvalid : t.Valid env now) (hsaved : t.saved = true) :
    t.raw.admits env now = if t.Skipped then none else some t.reread := by
  unfold Raw.admits
  rw [tkl_raw hvalid hsaved]
  exact if_congr (or_iff_right (unexpired_iff.mp hvalid.unexpired)) rfl rfl

/-- Entries that come back, each as what is read of it, come back with their masks: a mask that is
changed becomes shorter, and no mask becomes longer. -/
theorem maskOk_of_perm_reread {saved : List TKL} (hperm : (saved.map reread).Perm saved) :
    ∀ t ∈ saved, t.body.MaskOk := by
  have hsum : (saved.map fun t => t.reread.body.maskLength).sum =
      (saved.map fun t => t.body.maskLength).sum := by
    have h := (hperm.map fun t => t.body.maskLength).sum_nat
    rwa [map_map] at h
  have hle := fun t : TKL => (maskLength_reread t.body).1
  refine fun t ht => (maskLength_reread t.body).2 (by_contra fun hne => ?_)
  exact (sum_lt_sum _ _ (fun t _ => hle t) ⟨t, ht, (hle t).lt_of_ne hne⟩).ne hsum

section Loop

variable {env : Env} {now : Int64} {saved : List TKL} (hvalid : ∀ t ∈ saved, t.Valid env now)
  (hsaved : ∀ t ∈ saved, t.saved = true)

include hvalid hsaved

theorem filterMap_admits (hskip : ∀ t ∈ saved, ¬t.Skipped) :
    (saved.map raw).filterMap (Raw.admits env now) = saved.map reread := by
  rw [filterMap_map, ← filterMap_eq_map]
  refine filterMap_congr fun t ht => ?_
  show t.raw.admits env now = some t.reread
  rw [admits_raw (hvalid t ht) (hsaved t ht), if_neg (hskip t ht)]

theorem added_of_perm (hperm : ((saved.map raw).foldl (addRead env now) []).Perm saved) :
    (∀ t ∈ saved, ¬t.Skipped) ∧ (saved.map reread).Perm saved := by
  rw [foldl_addRead] at hperm
  have hsub := foldl_keep_sublist key ((saved.map raw).filterMap (Raw.admits env now)) []
  rw [append_nil] at hsub
  have hlen : ((saved.map raw).filterMap (Raw.admits env now)).length = (saved.map raw).length := by
    refine le_antisymm (length_filterMap_le _ _) ?_
    calc (saved.map raw).length = saved.length := length_map ..
      _ = _ := hperm.length_eq.symm
      _ ≤ _ := hsub.length_le.trans_eq length_reverse
  have hskip : ∀ t ∈ saved, ¬t.Skipped := by
    intro t ht hskip
    have hsome := filterMap_length_eq_length.mp hlen t.raw (mem_map_of_mem ht)
    rw [admits_raw (hvalid t ht) (hsaved t ht), if_pos hskip] at hsome
    exact absurd hsome Bool.false_ne_true
  refine ⟨hskip, ?_⟩
  rw [filterMap_admits hvalid hsaved hskip] at hsub hperm
  have heq := hsub.eq_of_length (by rw [hperm.length_eq, length_reverse, length_map])
  rw [heq] at hperm
  exact (reverse_perm _).symm.trans hperm

end Loop

/-- The file has given back all entries that were saved, and no other one. -/
def ReadsBack (tklines : List TKL) (result : List TKL × Stop) : Prop :=
  result.2 = .complete ∧ result.1.Perm (tklines.filter TKL.saved)

/-- The entries come back exactly if each of them can be stored and no two have the same key. -/
theorem readsBack_iff (env : Env) (now : Int64) {secr secr₂ : Option (Secret C)}
    (hpass : secr₂.map Secret.password = secr.map Secret.password) {wnow : UInt64} {random : Random}
    {free : ℕ} {tklines : List TKL} {file : List UInt8}
    (hwrite : writeTkldb secr wnow random free tklines = some file)
    (hvalid : ∀ t ∈ tklines.filter TKL.saved, t.Valid env now)
    (hcount : (tklines.filter TKL.saved).length < 2 ^ 64) :
    ReadsBack tklines (readTkldb env now secr₂ file) ↔
      (∀ t ∈ tklines.filter TKL.saved, t.Storable) ∧
        ((tklines.filter TKL.saved).map TKL.key).Nodup := by
  have hsaved : ∀ t ∈ tklines.filter saved, t.saved = true := fun t ht =>
    of_mem_filter ht
  set saved := tklines.filter saved with hdef
  constructor
  · rintro ⟨-, hperm⟩
    -- What is read is short, so the file holds what was written.
    have hshort : ∀ t ∈ saved, t.Short := fun t ht =>
      short_readTkldb env now secr₂ file t (hperm.mem_iff.mpr ht)
    rw [readTkldb_eq env now hpass hwrite hshort hcount] at hperm
    obtain ⟨hskip, hreread⟩ := added_of_perm hvalid hsaved hperm
    have hmask := maskOk_of_perm_reread hreread
    refine ⟨fun t ht => ⟨hshort t ht, hmask t ht, fun h hname => hskip t ht ⟨h, hname⟩⟩, ?_⟩
    rw [foldl_addRead] at hperm
    exact (hperm.map key).nodup_iff.mp (nodup_foldl_keep key _ nodup_nil)
  · rintro ⟨hstorable, hnodup⟩
    have hreread : saved.map reread = saved := by
      conv_rhs => rw [← map_id saved]
      refine map_congr_left fun t ht => ?_
      unfold reread
      rw [reread_of_maskOk (hstorable t ht).mask]
      rfl
    have hadmits := filterMap_admits hvalid hsaved fun t ht h => (hstorable t ht).setBy h.1 h.2
    rw [hreread] at hadmits
    have hnodup' : ((saved.reverse ++ []).map key).Nodup := by
      rw [append_nil, map_reverse]
      exact nodup_reverse.mpr hnodup
    rw [readTkldb_eq env now hpass hwrite (fun t ht => (hstorable t ht).short) hcount, foldl_addRead,
      hadmits, foldl_keep_of_nodup key hnodup', append_nil]
    exact ⟨rfl, reverse_perm saved⟩

/-- A plain file with short entries is written if there is space for it. -/
theorem exists_writeTkldb (C : Crypto) (wnow : UInt64) (random : Random)
    (hshort : ∀ t ∈ tklines, t.Short) :
    ∃ free file, writeTkldb (C := C) none wnow random free tklines = some file := by
  have hsaved : ∀ t ∈ tklines.filter saved, t.Short := fun t ht =>
    hshort t (mem_of_mem_filter ht)
  exact ⟨_, _, saveRecords_plain C wnow random (readable_tkldbRecords (readable_of_short hsaved))
    le_rfl⟩

def softGline (usermask : CStr) : TKL where
  body := .serverban .gline true usermask (text ['h']) (text ['r'])
  setBy := text ['o']
  setAt := 1
  expireAt := 0
  id := strlcpy 15 (text ['G', '1'])
  spamfilterId := strlcpy 15 CStr.empty
  hits := 2
  lasthit := 3
  config := false
  central := false

theorem valid_softGline : (softGline usermask).Valid plainEnv 5 where
  unexpired := .inl rfl
  spamfilter := fun _ _ _ _ _ _ _ _ _ h => absurd h (by simp [softGline])

def spamfilterX : TKL :=
  { softGline CStr.empty with
    body := .spamfilter true [SpamfTarget.chanmsg, .usermsg].toFinset .block .simple (text ['x']) (text ['r']) 60 4 5 }

theorem valid_spamfilterX : spamfilterX.Valid plainEnv 5 where
  unexpired := .inl rfl
  spamfilter := by
    intro global target action matchType matchString tklReason tklDuration hitsExcept lasthitExcept h
    obtain ⟨-, rfl, rfl, rfl, -⟩ := h
    exact ⟨by decide, by decide, by decide⟩

/-- A soft ban and a spamfilter come back. -/
theorem readsBack_softGline_spamfilterX :
    ∃ free file, writeTkldb (C := nullCrypto) none 5 zeroRandom free
        [softGline (text ['u']), spamfilterX] = some file ∧
      ReadsBack [softGline (text ['u']), spamfilterX]
        (readTkldb (C := nullCrypto) plainEnv 5 none file) := by
  have hsaved : [softGline (text ['u']), spamfilterX].filter saved =
      [softGline (text ['u']), spamfilterX] := rfl
  have hstorable : ∀ t ∈ [softGline (text ['u']), spamfilterX], t.Storable := by
    have hshort : ∀ t ∈ [softGline (text ['u']), spamfilterX], t.Short := by
      unfold Short
      decide +kernel
    refine forall_mem_cons.mpr ⟨⟨hshort _ mem_cons_self, ?_, ?_⟩,
      forall_mem_singleton.mpr ⟨hshort _ (mem_cons_of_mem _ mem_cons_self), trivial, ?_⟩⟩
    · show (text ['u']).strlen ≤ 254
      decide
    any_goals exact fun _ => by decide +kernel
  obtain ⟨free, file, hwrite⟩ := exists_writeTkldb nullCrypto 5 zeroRandom
    (fun t ht => (hstorable t ht).short)
  refine ⟨free, file, hwrite, (readsBack_iff plainEnv 5 rfl hwrite ?_ ?_).mpr ?_⟩
  · rw [hsaved]
    exact forall_mem_cons.mpr ⟨valid_softGline _, forall_mem_singleton.mpr valid_spamfilterX⟩
  · rw [hsaved]
    decide
  · rw [hsaved]
    exact ⟨hstorable, by decide +kernel⟩

/-- A user mask that does not fit into the buffer. -/
def longUsermask : CStr :=
  ⟨List.replicate 300 97, fun b hb => by rw [List.eq_of_mem_replicate hb]; decide⟩

/-- A soft ban with that mask is written, and does not come back. -/
theorem softGline_longUsermask_lost :
    ∃ free file, writeTkldb (C := nullCrypto) none 5 zeroRandom free [softGline longUsermask] =
        some file ∧ (softGline longUsermask).Valid plainEnv 5 ∧
      ¬ReadsBack [softGline longUsermask] (readTkldb (C := nullCrypto) plainEnv 5 none file) := by
  have hsaved : [softGline longUsermask].filter saved = [softGline longUsermask] := rfl
  have hshort : ∀ t ∈ [softGline longUsermask], t.Short := by
    unfold Short
    decide +kernel
  obtain ⟨free, file, hwrite⟩ := exists_writeTkldb nullCrypto 5 zeroRandom hshort
  refine ⟨free, file, hwrite, valid_softGline _, ?_⟩
  rintro ⟨-, hperm⟩
  rw [readTkldb_eq plainEnv 5 rfl hwrite hshort (by rw [hsaved]; decide)] at hperm
  have heq := perm_singleton.mp hperm
  have hlength := congrArg (fun l => (l.map fun t : TKL => t.body.maskLength).sum) heq
  exact absurd hlength (by decide +kernel)

end ObbyIRCd.Tkl
