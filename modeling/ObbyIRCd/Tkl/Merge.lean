import ObbyIRCd.Tkl.Model

/-!
# Entries that can be stored, and their merge

`Storable` is what `cmd_tkl_add` has checked of an entry before it stores it. The merge of two entries
keeps it, is a join on `set_at`, `expire_at` and `set_by` (`stamp_mergeTkl`), and picks the same id
from both sides (`id_mergeTkl_comm`).
-/

namespace ObbyIRCd.Tkl

variable {env : Env}

/-! ## What a table can hold -/

/-- What `cmd_tkl_add` has checked of the part that differs from kind to kind. -/
def Ptr.Storable (env : Env) : Ptr → Prop
  | .serverban _ soft usermask hostmask _ | .banexception _ soft usermask hostmask _ _ =>
    '@' ∉ usermask ∧ '@' ∉ hostmask ∧ (soft = false → usermask.head? ≠ some '%')
  | .nameban _ _ _ _ => True
  | .spamfilter global target action matchType matchString tklDuration tklReason =>
    target ≠ ∅ ∧ banactConfigOnly action = false ∧
      createsMatch env
        (.spamfilter global target action matchType matchString tklDuration tklReason) = true

/-- A time that passes the validation of `cmd_tkl_add`. -/
structure ValidTime (env : Env) (t : ℤ) : Prop where
  nonneg : 0 ≤ t
  lt : t < 2 ^ 63
  date : env.shortDate t = true

/-- An entry that `cmd_tkl_add` can have stored. -/
structure Entry.Storable (env : Env) (tkl : Entry) : Prop where
  ptr : tkl.ptr.Storable env
  setAt : ValidTime env tkl.setAt
  expireAt : ValidTime env tkl.expireAt
  id : tkl.id.length < tklIdLen

theorem atol_lt (s : List Char) : atol s < 2 ^ 63 := by
  unfold atol strtol
  split <;> omega

theorem tklS2sSetId_length (id : Option (List Char)) : (tklS2sSetId id).length < tklIdLen := by
  unfold tklS2sSetId
  split
  · split_ifs with h
    · exact h
    · decide
  · decide

variable {s : List Char} {tkl incoming : Entry}

/-- A user mask that had no percent sign does not start with one. -/
theorem stripSoft_hard (h : (stripSoft s).1 = false) : (stripSoft s).2.head? ≠ some '%' := by
  unfold stripSoft at h ⊢
  split at h
  · simp at h
  rename_i hs
  rcases s with - | ⟨c, s⟩
  · simp
  · intro hc
    exact hs s (by rw [Option.some.inj hc])

theorem mem_of_mem_stripSoft {c : Char} (h : c ∈ (stripSoft s).2) : c ∈ s := by
  unfold stripSoft at h
  split at h
  · exact List.mem_cons_of_mem _ h
  · exact h

theorem storable_mask {parv3 parv4 : List Char} (h : ¬('@' ∈ parv3 ∨ '@' ∈ parv4)) :
    '@' ∉ (stripSoft parv3).2 ∧ '@' ∉ parv4 ∧
      ((stripSoft parv3).1 = false → (stripSoft parv3).2.head? ≠ some '%') :=
  ⟨fun hmem => h (.inl (mem_of_mem_stripSoft hmem)), fun hmem => h (.inr hmem), stripSoft_hard⟩

theorem readPtr_storable {type : TklType} {parv3 parv4 parv8 : List Char} {rest : List (List Char)}
    {ptr : Ptr} (h : readPtr type parv3 parv4 parv8 rest = some ptr)
    (hmatch : createsMatch env ptr = true) : ptr.Storable env := by
  unfold readPtr at h
  rcases type with type | global | global | global
  · -- a server ban
    simp only [Option.ite_none_left_eq_some, Option.some.injEq] at h
    obtain ⟨hat, rfl⟩ := h
    exact storable_mask hat
  · -- a name ban
    obtain rfl := Option.some.inj h
    trivial
  · -- a spamfilter
    rcases rest with - | ⟨tklReason, - | ⟨parv10, - | ⟨matchString, rest⟩⟩⟩
    · simp at h
    · simp at h
    · simp at h
    simp only [Option.bind_eq_bind, Option.bind_eq_some_iff, Option.ite_none_left_eq_some,
      Option.some.injEq] at h
    obtain ⟨method, -, action, -, hvalid, rfl⟩ := h
    rw [not_or, Bool.not_eq_true] at hvalid
    exact ⟨hvalid.1, hvalid.2, hmatch⟩
  · -- a ban exception
    rcases rest with - | ⟨reason, rest⟩
    · simp at h
    · simp only [Option.ite_none_left_eq_some, Option.some.injEq] at h
      obtain ⟨hat, rfl⟩ := h
      exact storable_mask hat

theorem validTime_atol (h : ¬(atol s < 0 ∨ env.shortDate (atol s) = false)) :
    ValidTime env (atol s) := by
  rw [not_or, Bool.not_eq_false] at h
  exact ⟨Int.not_lt.mp h.1, atol_lt s, h.2⟩

theorem readTkl_valid {msg : Message} (h : readTkl env msg = some tkl) :
    ValidTime env tkl.setAt ∧ ValidTime env tkl.expireAt ∧ tkl.id.length < tklIdLen ∧
      (createsMatch env tkl.ptr = true → tkl.ptr.Storable env) := by
  unfold readTkl at h
  split at h
  · simp only [Option.bind_eq_bind, Option.bind_eq_some_iff, Option.ite_none_left_eq_some,
      Option.some.injEq] at h
    obtain ⟨type, -, hset, hexpire, ptr, hptr, rfl⟩ := h
    exact ⟨validTime_atol hset, validTime_atol hexpire, tklS2sSetId_length _, readPtr_storable hptr⟩
  · simp at h

theorem readTkl_storable {msg : Message} (h : readTkl env msg = some tkl)
    (hmatch : createsMatch env tkl.ptr = true) : tkl.Storable env := by
  obtain ⟨hset, hexpire, hid, hptr⟩ := readTkl_valid h
  exact ⟨hptr hmatch, hset, hexpire, hid⟩

/-! ## Merging -/

/-- The fields that a merge joins. -/
structure Stamp where
  setAt : ℤ
  expireAt : ℤ
  setBy : List Char
deriving DecidableEq

/-- The older `set_at`, the longer `expire_at` and the greater `set_by`. -/
def Stamp.join (a b : Stamp) : Stamp :=
  ⟨min a.setAt b.setAt, mergeExpire a.expireAt b.expireAt, max a.setBy b.setBy⟩

/-- The fields of an entry that a merge joins. -/
def Entry.stamp (tkl : Entry) : Stamp := ⟨tkl.setAt, tkl.expireAt, tkl.setBy⟩

theorem mergeExpire_comm (a b : ℤ) : mergeExpire a b = mergeExpire b a := by
  unfold mergeExpire
  simp only [or_comm, max_comm]

theorem mergeExpire_assoc (a b c : ℤ) :
    mergeExpire (mergeExpire a b) c = mergeExpire a (mergeExpire b c) := by
  unfold mergeExpire
  split_ifs <;> omega

theorem Stamp.join_comm (a b : Stamp) : a.join b = b.join a := by
  unfold Stamp.join
  rw [min_comm, mergeExpire_comm, max_comm]

theorem Stamp.join_assoc (a b c : Stamp) : (a.join b).join c = a.join (b.join c) := by
  unfold Stamp.join
  rw [min_assoc, mergeExpire_assoc, max_assoc]

variable (tkl incoming)

theorem key_mergeTkl : (mergeTkl tkl incoming).key = tkl.key := by
  unfold mergeTkl
  split_ifs <;> rfl

theorem ptr_mergeTkl : (mergeTkl tkl incoming).ptr = tkl.ptr := by
  unfold mergeTkl
  split_ifs <;> rfl

theorem id_mergeTkl :
    (mergeTkl tkl incoming).id = if takesId tkl incoming then incoming.id else tkl.id := by
  unfold mergeTkl
  split_ifs <;> rfl

/-- A merge joins the stamps, also where `cmd_tkl_add` finds that nothing differs. -/
theorem stamp_mergeTkl :
    (mergeTkl tkl incoming).stamp = tkl.stamp.join incoming.stamp := by
  have hmax : (if tkl.setBy < incoming.setBy then incoming.setBy else tkl.setBy) =
      max tkl.setBy incoming.setBy := by
    rw [max_def_lt]
    congr
  by_cases h : takesTimes tkl incoming
  · have hstamp : (mergeTkl tkl incoming).stamp = ⟨min tkl.setAt incoming.setAt,
        mergeExpire tkl.expireAt incoming.expireAt,
        if tkl.setBy < incoming.setBy then incoming.setBy else tkl.setBy⟩ := by
      unfold mergeTkl
      rw [if_pos h]
      rfl
    rw [hstamp, hmax]
    rfl
  · have hstamp : (mergeTkl tkl incoming).stamp = tkl.stamp := by
      unfold mergeTkl
      rw [if_neg h]
      split_ifs <;> rfl
    simp only [takesTimes, Bool.or_eq_true, decide_eq_true_eq, not_or, not_not] at h
    obtain ⟨⟨hset, hexpire⟩, hby⟩ := h
    rw [hstamp]
    unfold Entry.stamp Stamp.join
    rw [min_eq_left (not_lt.mp hset), hexpire, hby, max_self]
    congr 1
    unfold mergeExpire
    split_ifs with h0
    · rw [or_self] at h0
      exact h0
    · exact (max_self _).symm

variable {tkl incoming}

theorem id_mergeTkl_comm (a b : Entry) : (mergeTkl a b).id = (mergeTkl b a).id := by
  rw [id_mergeTkl, id_mergeTkl]
  by_cases hid : a.id = b.id
  · rw [hid, ite_self, ite_self]
  by_cases ha : a.id = []
  · have hb : b.id ≠ [] := fun hb => hid (ha.trans hb.symm)
    simp [takesId, ha, hb, Ne.symm hb]
  by_cases hb : b.id = []
  · simp [takesId, ha, hb]
  -- both are assigned: the older entry has its way, then the smaller id
  rcases lt_trichotomy a.setAt b.setAt with hlt | heq | hgt
  · simp [takesId, ha, hb, Ne.symm hid, hlt, not_lt.mpr (le_of_lt hlt), ne_of_gt hlt]
  · rcases lt_or_gt_of_ne hid with hl | hg
    · simp [takesId, ha, hb, hid, Ne.symm hid, heq, hl, not_lt.mpr (le_of_lt hl)]
    · simp [takesId, ha, hb, hid, Ne.symm hid, heq, hg, not_lt.mpr (le_of_lt hg)]
  · simp [takesId, ha, hb, hid, hgt, not_lt.mpr (le_of_lt hgt), ne_of_gt hgt]

theorem ValidTime.min {a b : ℤ} (ha : ValidTime env a) (hb : ValidTime env b) :
    ValidTime env (min a b) := by
  rcases min_choice a b with h | h <;> rw [h] <;> assumption

theorem ValidTime.mergeExpire {a b : ℤ} (ha : ValidTime env a) (hb : ValidTime env b) :
    ValidTime env (mergeExpire a b) := by
  unfold Tkl.mergeExpire
  split_ifs with h0
  · rcases h0 with h0 | h0
    · exact h0 ▸ ha
    · exact h0 ▸ hb
  · rcases max_choice a b with h | h <;> rw [h] <;> assumption

/-- A merged entry can be stored, whether or not the match of the message can be created. -/
theorem mergeTkl_storable (h : tkl.Storable env)
    (hset : ValidTime env incoming.setAt) (hexpire : ValidTime env incoming.expireAt)
    (hid : incoming.id.length < tklIdLen) : (mergeTkl tkl incoming).Storable env := by
  have hstamp := stamp_mergeTkl tkl incoming
  have hsetAt : (mergeTkl tkl incoming).setAt = min tkl.setAt incoming.setAt :=
    congrArg Stamp.setAt hstamp
  have hexpireAt : (mergeTkl tkl incoming).expireAt =
      mergeExpire tkl.expireAt incoming.expireAt := congrArg Stamp.expireAt hstamp
  refine ⟨?_, ?_, ?_, ?_⟩
  · rw [ptr_mergeTkl]
    exact h.ptr
  · rw [hsetAt]
    exact h.setAt.min hset
  · rw [hexpireAt]
    exact h.expireAt.mergeExpire hexpire
  · rw [id_mergeTkl]
    split_ifs
    · exact hid
    · exact h.id

end ObbyIRCd.Tkl
