import ObbyIRCd.Persist.Store

/-!
# Loading what was saved

The loop of `persist_load_db` takes a record apart as it was written, up to the limit on the channels
(`persistLoadLoop_entry`): it reads the first `PERSIST_MAX_CHANNELS` of them and takes what follows for
the next account. So a file is read to its end exactly if no entry in it has more channels than that.
The sessions start with what the records say about their accounts (`loadRow_restored`).
-/

namespace ObbyIRCd.Persist

open List Option Keyed PersistEntry

open Database

variable {C : Crypto} (env : Env)

/-! ## One record -/

/-- An entry that a running server can hold. `MAXAWAYLEN` is 360, and a number of channels is an
`int`. -/
structure PersistEntry.Valid (e : PersistEntry) : Prop where
  account : e.account.str ≠ CStr.empty
  account_ne : e.account.str ≠ zeroAccount
  away : ∀ a ∈ e.away, a ≠ CStr.empty ∧ a.strlen ≤ 360
  channels : e.channels.length ≤ maxChannels
  count : e.memberships.length < 2 ^ 31
  names : ∀ ch ∈ e.memberships, startsChannel ch.name.str = true

def PersistEntry.restored (env : Env) (e : PersistEntry) : PersistEntry :=
  let e := { e with channels := e.memberships.take maxChannels, ghost := none, canonical := none }
  { e with ghost := env.ghost e }

theorem readable_buf {n : ℕ} (b : Buf n) (hn : n ≤ 10000) : (Record.str (some b.str)).Readable :=
  readable_str.mpr (by simpa using b.le.trans hn)

variable {e : PersistEntry} {c : UnrealDB C} {q : List UInt8} {list entries : List PersistEntry}

theorem PersistEntry.Valid.readable_head (hvalid : e.Valid) : ∀ r ∈ e.head.records, r.Readable := by
  have haway : (e.away.getD CStr.empty).strlen ≤ 10000 := by
    rcases h : e.away with - | a
    · exact Nat.zero_le _
    · have hle := (hvalid.away a h).2
      show a.strlen ≤ 10000
      omega
  unfold Head.records head
  have haway' := readable_str (x := some (e.away.getD CStr.empty))
  simp [readable_buf, haway', haway, -readable_str]

/-- The fields before the channels are read as they were written. -/
theorem readHead_spec (hvalid : e.Valid) (hr : Reading c (e.head.records.flatMap encode ++ q)) :
    ∃ c', readHead c = some (e.head, c') ∧ Reading c' q := by
  obtain ⟨c', hread, hr'⟩ := readRecords_spec hvalid.readable_head hr
  have hkinds : e.head.records.map Record.kind = Head.kinds := rfl
  rw [hkinds] at hread
  refine ⟨c', ?_, hr'⟩
  unfold readHead
  rw [hread]
  rfl

/-- The channels are read as they were written. -/
theorem readChannels_spec (channels : List PersistChannel)
    (hr : Reading c ((channels.flatMap PersistChannel.records).flatMap encode ++ q)) :
    ∃ c', readChannels c channels.length = (channels, c') ∧ Reading c' q := by
  induction channels generalizing c with
  | nil => exact ⟨c, rfl, hr⟩
  | cons ch channels ih =>
    simp only [flatMap_cons, PersistChannel.records, cons_append, nil_append, append_assoc] at hr
    obtain ⟨c₁, h1, hr⟩ := unrealdbReadStr_spec (readable_buf ch.name (by norm_num)) hr
    obtain ⟨c₂, h2, hr⟩ := unrealdbReadStr_spec (readable_buf ch.modes (by norm_num)) hr
    obtain ⟨c₃, h3, hr⟩ := ih hr
    refine ⟨c₃, ?_, hr⟩
    simp [length_cons, readChannels, h1, h2, h3, getD_some, strlcpy_str]

theorem PersistEntry.Valid.channelCount {e : PersistEntry} (hvalid : e.Valid) :
    e.head.channelCount = (e.memberships.take maxChannels).length := by
  have hcount : (UInt64.ofNat e.memberships.length).toInt64.toInt32 =
      Int32.ofNat e.memberships.length := by simp
  show min (UInt64.ofNat e.memberships.length).toInt64.toInt32.toInt.toNat maxChannels = _
  rw [hcount, Int32.toInt_ofNat_of_lt hvalid.count, Int.toNat_natCast, length_take, Nat.min_comm]

theorem PersistEntry.Valid.fill {e : PersistEntry} (hvalid : e.Valid) (now : Int64) :
    env.fill e.head (e.memberships.take maxChannels) (newEntry now e.account.str) =
      e.restored env := by
  have haway : (if e.away.getD CStr.empty = CStr.empty then none else some (e.away.getD CStr.empty)) =
      e.away := by
    rcases h : e.away with - | a
    · rfl
    · exact if_neg (hvalid.away a h).1
  have hpref : e.preference.toInt64.toUInt64.toInt64.toInt32 = e.preference :=
    Int32.toInt32_toInt64 _
  unfold Env.fill restored head newEntry
  simp only [getD_some, strlcpy_str, haway, hpref]
  rfl

theorem persistLoadLoop_eq (list : List PersistEntry) (c : UnrealDB C) :
    persistLoadLoop env list c =
      match unrealdbReadStr c with
      | (none, _) => (list, .failed)
      | (some account, c₁) =>
        if account.getD CStr.empty = CStr.empty then (list, .complete)
        else
          match readHead c₁ with
          | none => (list, .failed)
          | some (h, c₂) =>
            persistLoadLoop env (updateEntry env.now list (account.getD CStr.empty)
              (env.fill h (readChannels c₂ h.channelCount).1))
              (readChannels c₂ h.channelCount).2 := by
  rw [persistLoadLoop]
  split
  · rename_i haccount
    simp only [haccount]
  rename_i account c₁ haccount
  simp only [haccount]
  split_ifs
  · rfl
  split
  · rename_i hhead
    simp only [hhead]
  · rename_i h c₂ hhead
    simp only [hhead]

theorem persistLoadLoop_end (list : List PersistEntry)
    (hr : Reading c (encode (.str (some CStr.empty)) ++ q)) :
    persistLoadLoop env list c = (list, .complete) := by
  obtain ⟨c₁, h1, -⟩ := unrealdbReadStr_spec (readable_str.mpr (by decide)) hr
  rw [persistLoadLoop_eq, h1]
  exact if_pos rfl

/-- The loop reads an entry with at most `PERSIST_MAX_CHANNELS` channels, and stops behind the last of
those. -/
theorem persistLoadLoop_entry (hvalid : e.Valid) (hnew : e.key ∉ list.map key)
    (hr : Reading c (e.records.flatMap encode ++ q)) :
    ∃ c' : UnrealDB C,
      persistLoadLoop env list c = persistLoadLoop env (e.restored env :: list) c' ∧
      Reading c' (((e.memberships.drop maxChannels).flatMap PersistChannel.records).flatMap encode ++
        q) := by
  have hsplit : e.memberships.flatMap PersistChannel.records =
      (e.memberships.take maxChannels).flatMap PersistChannel.records ++
        (e.memberships.drop maxChannels).flatMap PersistChannel.records := by
    rw [← flatMap_append, take_append_drop]
  unfold records at hr
  rw [hsplit] at hr
  simp only [flatMap_cons, flatMap_append, append_assoc] at hr
  obtain ⟨c₁, h1, hr⟩ := unrealdbReadStr_spec (readable_buf e.account (by norm_num)) hr
  obtain ⟨c₂, h2, hr⟩ := readHead_spec hvalid hr
  obtain ⟨c₃, h3, hr⟩ := readChannels_spec (e.memberships.take maxChannels) hr
  refine ⟨c₃, ?_, hr⟩
  have hnone : find key list e.account.str.fold = none :=
    (find_eq_none_iff _).mpr hnew
  have hupdate : ∀ f, updateEntry env.now list e.account.str f =
      f (newEntry env.now e.account.str) :: list := by
    intro f
    unfold updateEntry
    rw [hnone]
    exact if_neg fun h => absurd h.2 Bool.false_ne_true
  rw [persistLoadLoop_eq, h1]
  dsimp only
  rw [getD_some, if_neg hvalid.account, h2]
  dsimp only
  rw [hvalid.channelCount, h3, hupdate, hvalid.fill]

/-! ## Whole files -/

/-- No letter is among the `CHANTYPES`. -/
theorem startsChannel_eq_fold (s : CStr) : startsChannel s = s.fold.head?.any (· ∈ chantypes) := by
  have hbyte : ∀ b : UInt8, (b ∈ chantypes) ↔ ((if 65 ≤ b ∧ b ≤ 90 then b + 32 else b) ∈ chantypes) := by
    have hlist : chantypes = [35, 94, 36] := by decide +kernel
    intro b
    rw [hlist]
    simp only [mem_cons, not_mem_nil, or_false]
    split
    · rename_i hletter
      simp only [UInt8.le_iff_toNat_le, ← UInt8.toNat_inj, UInt8.toNat_add, UInt8.reduceToNat]
        at hletter ⊢
      omega
    · exact Iff.rfl
  unfold startsChannel CStr.fold
  rw [head?_map]
  rcases s.bytes.head? with - | b
  · rfl
  · exact decide_eq_decide.mpr (hbyte b)

theorem startsChannel_strlcpy {n : ℕ} (hn : 0 < n) (s : CStr) :
    startsChannel (strlcpy n s).str = startsChannel s := by
  unfold startsChannel strlcpy
  rw [head?_take, if_neg hn.ne']

theorem account_fill (h : Head) (channels : List PersistChannel) (e : PersistEntry) :
    (env.fill h channels e).account = e.account := rfl

theorem mem_updateEntry (now : Int64) (list : List PersistEntry) (account : CStr)
    {f : PersistEntry → PersistEntry} (hf : ∀ e, (f e).account = e.account) :
    (∀ a ∈ list.map PersistEntry.account, a ∈ (updateEntry now list account f).map PersistEntry.account) ∧
      ∃ e ∈ updateEntry now list account f, startsChannel e.account.str = startsChannel account := by
  have hkey : ∀ e, (f e).key = e.key := fun e => by
    unfold PersistEntry.key
    rw [hf]
  unfold updateEntry
  split_ifs with hfound
  · -- the entry has the same name but for the case
    obtain ⟨e, he⟩ := isSome_iff_exists.mp hfound.2
    have hmem := mem_of_find PersistEntry.key (by rw [find_modify PersistEntry.key hkey, if_pos rfl,
      he, map_some])
    refine ⟨fun a ha => ?_, f e, hmem, ?_⟩
    · rw [map_modify PersistEntry.key PersistEntry.account hf]
      exact ha
    · have hfold : e.account.str.fold = account.fold := key_of_find PersistEntry.key he
      rw [hf, startsChannel_eq_fold, startsChannel_eq_fold, hfold]
  · refine ⟨fun a ha => mem_cons_of_mem _ ha, _, mem_cons_self, ?_⟩
    rw [hf]
    exact startsChannel_strlcpy (by norm_num) account

theorem persistLoadLoop_accounts (list : List PersistEntry) (c : UnrealDB C) :
    ∀ a ∈ list.map PersistEntry.account,
      a ∈ (persistLoadLoop env list c).1.map PersistEntry.account := by
  intro a ha
  fun_induction persistLoadLoop env list c with
  | case1 | case2 | case3 => exact ha
  | case4 list c account c₁ _ _ h c₂ _ channels ih =>
    exact ih ((mem_updateEntry env.now list _ (account_fill env h channels.1)).1 a ha)

theorem persistLoadLoop_overfull (list : List PersistEntry) {ch : PersistChannel}
    (hname : startsChannel ch.name.str = true)
    (hr : Reading c (encode (.str (some ch.name.str)) ++ q)) :
    (persistLoadLoop env list c).2 = .failed ∨
      ∃ e ∈ (persistLoadLoop env list c).1, startsChannel e.account.str = true := by
  have hne : ch.name.str ≠ CStr.empty := by
    intro h
    rw [h] at hname
    exact Bool.false_ne_true hname
  obtain ⟨c₁, h1, -⟩ := unrealdbReadStr_spec (readable_buf ch.name (by norm_num)) hr
  rw [persistLoadLoop_eq, h1]
  dsimp only
  rw [getD_some, if_neg hne]
  rcases hhead : readHead c₁ with - | ⟨h, c₂⟩
  · exact .inl rfl
  right
  obtain ⟨e, he, hstarts⟩ := (mem_updateEntry env.now list ch.name.str
    (account_fill env h (readChannels c₂ h.channelCount).1)).2
  obtain ⟨e', he', haccount⟩ := mem_map.mp (persistLoadLoop_accounts env _
    (readChannels c₂ h.channelCount).2 e.account (mem_map_of_mem he))
  exact ⟨e', he', by rw [haccount, hstarts, hname]⟩

/-- The loop reads entries that are not too long, one after the other. Behind one that is too long it
fails, or makes an entry with the name of a channel. -/
theorem persistLoadLoop_entries (hvalid : ∀ e ∈ entries, e.Valid) (hnodup : (entries.map key).Nodup)
    (hnew : ∀ e ∈ entries, e.key ∉ list.map key)
    (hr : Reading c ((entries.flatMap records).flatMap encode ++ q)) :
    if ∀ e ∈ entries, e.memberships.length ≤ maxChannels then
      ∃ c' : UnrealDB C, persistLoadLoop env list c =
          persistLoadLoop env ((entries.map (restored env)).reverse ++ list) c' ∧
        Reading c' q
    else (persistLoadLoop env list c).2 = .failed ∨
      ∃ e ∈ (persistLoadLoop env list c).1, startsChannel e.account.str = true := by
  induction entries generalizing list c with
  | nil => exact (if_pos nofun).mpr ⟨c, rfl, hr⟩
  | cons e entries ih =>
    obtain ⟨hself, hvalid⟩ := forall_mem_cons.mp hvalid
    obtain ⟨hnotin, hnodup⟩ := nodup_cons.mp hnodup
    rw [flatMap_cons, flatMap_append, append_assoc] at hr
    obtain ⟨c₁, h1, hr⟩ := persistLoadLoop_entry env hself (hnew e mem_cons_self) hr
    rw [h1]
    rcases hdrop : e.memberships.drop maxChannels with - | ⟨ch, rest⟩
    · have hnew' : ∀ e' ∈ entries, e'.key ∉ (e.restored env :: list).map key := by
        intro e' he' hmem
        rcases mem_cons.mp hmem with heq | hmem
        · exact hnotin (mem_map.mpr ⟨e', he', heq⟩)
        · exact hnew e' (mem_cons_of_mem e he') hmem
      rw [hdrop] at hr
      simpa [drop_eq_nil_iff.mp hdrop] using ih hvalid hnodup hnew' hr
    · have hmem : ch ∈ e.memberships := mem_of_mem_drop (hdrop ▸ mem_cons_self)
      have hlong : ¬e.memberships.length ≤ maxChannels := fun hle => by
        rw [drop_of_length_le hle] at hdrop
        cases hdrop
      rw [if_neg fun h => hlong (h e mem_cons_self)]
      rw [hdrop, flatMap_cons, PersistChannel.records, cons_append, flatMap_cons, append_assoc] at hr
      exact persistLoadLoop_overfull env _ (hself.names ch hmem) hr

/-- All entries with channels or a preference are loaded with what they had, up to
`PERSIST_MAX_CHANNELS` channels, and no other one, and the file is read to its end. -/
def LoadsBack (C : Crypto) (entries : List PersistEntry) (file : List UInt8) : Prop :=
  (persistLoadDb C env file).2 = .complete ∧
    (persistLoadDb C env file).1.Perm
      ((entries.filter PersistEntry.saved).map (PersistEntry.restored env))

theorem PersistEntry.Valid.readable (hvalid : e.Valid) : ∀ r ∈ e.records, r.Readable := by
  unfold records
  rw [forall_mem_cons, forall_mem_append, forall_mem_flatMap]
  refine ⟨readable_buf e.account (by norm_num), hvalid.readable_head, fun ch _ => ?_⟩
  simp [PersistChannel.records, readable_buf, -readable_str]

theorem readable_persistRecords (hvalid : ∀ e ∈ entries, e.Valid) :
    ∀ r ∈ persistRecords entries, r.Readable := by
  unfold persistRecords
  rw [forall_mem_cons, forall_mem_append, forall_mem_flatMap, forall_mem_singleton]
  exact ⟨readable_int64 1, fun e he => (hvalid e (mem_of_mem_filter he)).readable,
    readable_str.mpr (by decide)⟩

theorem foldl_writeRecord {c' : UnrealDB C} {rs : List Record} (h : writeRecords c rs = some c') :
    rs.foldl (fun c r => (writeRecord c r).2) c = c' := by
  induction rs generalizing c with
  | nil => exact some.inj h
  | cons r rs ih =>
    unfold writeRecords at h
    split at h
    · cases h
    · rename_i c₁ h1
      rw [foldl_cons, h1]
      exact ih h

/-- A disk with enough space takes the file. -/
theorem persistSaveDb_eq (C : Crypto) (now : UInt64) (random : Random) {free : ℕ}
    (hvalid : ∀ e ∈ entries, e.Valid) (hfree : plainSize (persistRecords entries) ≤ free) :
    persistSaveDb C now random free entries = some (plainBytes now (persistRecords entries)) := by
  obtain ⟨c, c', hopen, hwrite, hclose⟩ :=
    exists_writeRecords_plain C now random (readable_persistRecords hvalid) hfree
  simp [persistSaveDb, hopen, foldl_writeRecord hwrite, hclose]

theorem persistLoadDb_entries (C : Crypto) (now : UInt64) (hvalid : ∀ e ∈ entries, e.Valid)
    (hnodup : (entries.map key).Nodup) :
    let result := persistLoadDb C env (plainBytes now (persistRecords entries))
    if ∀ e ∈ entries.filter saved, e.memberships.length ≤ maxChannels then
      result = (((entries.filter saved).map (restored env)).reverse, .complete)
    else result.2 = .failed ∨ ∃ e ∈ result.1, startsChannel e.account.str = true := by
  obtain ⟨c, hopen, hr⟩ := unrealdbOpenRead_plainBytes C now (persistRecords entries)
  unfold persistRecords at hr
  rw [flatMap_cons, flatMap_append] at hr
  obtain ⟨c₁, h1, hr⟩ := unrealdbReadInt64_spec hr
  have hload : persistLoadDb C env (plainBytes now (persistRecords entries)) =
      persistLoadLoop env [] c₁ := by
    unfold persistLoadDb
    rw [hopen]
    dsimp only
    rw [h1]
    exact if_pos rfl
  have hnew : ∀ e ∈ entries.filter saved, e.key ∉ map key [] := fun _ _ => not_mem_nil
  have hloop := persistLoadLoop_entries env (fun e he => hvalid e (mem_of_mem_filter he))
    (hnodup.sublist (filter_sublist.map _)) hnew hr
  dsimp only
  rw [hload]
  split_ifs at hloop ⊢
  · obtain ⟨c', hloop, hr'⟩ := hloop
    rw [flatMap_singleton, ← append_nil (encode _)] at hr'
    rw [hloop, persistLoadLoop_end env _ hr', append_nil]
  · exact hloop

/-- With an entry that has too many channels, the file is not read to its end, or there is an entry
that was not saved. -/
theorem LoadsBack.fit {env : Env} {now : UInt64} (hvalid : ∀ e ∈ entries, e.Valid)
    (hnodup : (entries.map key).Nodup) (hnames : ∀ e ∈ entries, startsChannel e.account.str = false)
    (hback : LoadsBack env C entries (plainBytes now (persistRecords entries))) :
    ∀ e ∈ entries, e.saved = true → e.memberships.length ≤ maxChannels := by
  obtain ⟨hstop, hperm⟩ := hback
  by_contra hnot
  push Not at hnot
  obtain ⟨e, he, hsaved, hlong⟩ := hnot
  have hloop := persistLoadDb_entries env C now hvalid hnodup
  dsimp only at hloop
  rw [if_neg fun h => (h e (mem_filter.mpr ⟨he, hsaved⟩)).not_gt hlong] at hloop
  rcases hloop with hfailed | ⟨x, hx, hstarts⟩
  · rw [hstop] at hfailed
    cases hfailed
  obtain ⟨e', he', rfl⟩ := mem_map.mp (hperm.subset hx)
  have hname := hnames e' (mem_of_mem_filter he')
  rw [show (e'.restored env).account = e'.account from rfl, hname] at hstarts
  exact Bool.false_ne_true hstarts

/-! ## The sessions -/

/-- A preference as the model of the sessions has it. -/
def toPref (preference : Int32) : Pref :=
  if preference = prefOn then .on else if preference = prefOff then .off else .default

/-- The row is what the sessions are told about the record of the entry. -/
structure PersistEntry.HasRow (e : PersistEntry) (row : Row) : Prop where
  account : row.account.text = e.account.str.bytes.map fun b => Char.ofNat b.toNat
  disconnectTime : row.disconnectTime = e.disconnectTime.toInt
  preference : row.preference = toPref e.preference
  numChannels : row.numChannels = e.memberships.length

theorem persistenceEffective_toPref {a : Entry} {preference : Int32}
    (h : a.preference = toPref preference) :
    persistenceEffective env.cfg (some a) = env.effective preference := by
  unfold persistenceEffective Env.effective
  rw [elim_some, h, toPref]
  split_ifs <;> rfl

/-- A record makes the same entry in the model of the sessions as in the database, and a ghost in both
or in none. -/
theorem loadRow_restored {row : Row} {s : State} (hrow : e.HasRow row) (hnew : s.findEntry row.account.text = none)
    (hnick : e.nick.str ≠ CStr.empty) :
    ∃ a ∈ (s.loadRow env.cfg env.now.toInt row).entries,
      a.account = row.account.text ∧ a.disconnectTime = (e.restored env).disconnectTime.toInt ∧
      a.preference = toPref (e.restored env).preference ∧
      a.numChannels = (e.restored env).channels.length ∧
      a.ghost.isSome = (e.restored env).ghost.isSome := by
  obtain ⟨-, htime, hpref, hcount⟩ := hrow
  set a : Entry := ⟨s.nextEntry, row.account.text, row.disconnectTime,
    min row.numChannels maxChannels, none, none, [], 0, row.preference⟩
  have hlen : (e.memberships.take maxChannels).length = min row.numChannels maxChannels := by
    rw [length_take, hcount, min_comm]
  have hghost : (0 < a.numChannels ∧ env.now.toInt - row.disconnectTime < env.cfg.timeout ∧
      persistenceEffective env.cfg (some a) = true) ↔ (e.restored env).ghost.isSome = true := by
    rw [persistenceEffective_toPref env hpref]
    simp only [restored, Env.ghost, ← length_pos_iff, hlen, htime, a]
    split_ifs with h
    · exact iff_of_true ⟨h.1, h.2.1, h.2.2.1⟩ rfl
    · exact iff_of_false (fun h' => h ⟨h'.1, h'.2.1, h'.2.2, hnick⟩) Bool.false_ne_true
  unfold State.loadRow State.getOrCreateEntry
  simp only [hnew]
  split_ifs with h
  · refine ⟨{ a with ghost := some s.nextClient }, ?_, rfl, htime, hpref, hlen.symm,
      (hghost.mp h).symm⟩
    simp [State.createGhost, State.entry, State.modify, Keyed.modify, find_cons, a,
      (show min row.numChannels maxChannels ≠ 0 from h.1.ne')]
  · refine ⟨a, ?_, rfl, htime, hpref, hlen.symm, ?_⟩
    · simp [State.modify, Keyed.modify, a]
    · exact (Bool.eq_false_iff.mpr (mt hghost.mpr h)).symm

/-! ## Files -/

def exampleChannel (i : ℕ) : PersistChannel where
  name := strlcpy 32 (CStr.ofBuffer [35, UInt8.ofNat (97 + i / 26 % 26), UInt8.ofNat (97 + i % 26)])
  modes := strlcpy 7 CStr.empty

def exampleEntry (name : String) : PersistEntry :=
  { newEntry 0 (CStr.ofBuffer (ascii name)) with
    nick := strlcpy 30 (CStr.ofBuffer (ascii name))
    preference := prefOn }

/-- A user on `n` channels. -/
def onChannels (n : ℕ) : PersistEntry :=
  { exampleEntry "alice" with canonical := some ((List.range n).map exampleChannel) }

def exampleEnv : Env := ⟨0, ⟨true, 604800⟩, id⟩

theorem startsChannel_exampleChannel (i : ℕ) : startsChannel (exampleChannel i).name.str = true := by
  rfl

theorem onChannels_valid {n : ℕ} (hn : n < 2 ^ 31) : (onChannels n).Valid where
  account := by
    show (exampleEntry "alice").account.str ≠ CStr.empty
    decide +kernel
  account_ne := by
    show (exampleEntry "alice").account.str ≠ zeroAccount
    decide +kernel
  away := fun _ h => by cases h
  channels := Nat.zero_le _
  count := by
    show ((range n).map exampleChannel).length < 2 ^ 31
    rwa [length_map, length_range]
  names := by
    intro ch hch
    obtain ⟨i, -, rfl⟩ := mem_map.mp hch
    exact startsChannel_exampleChannel i

theorem bob_valid : (exampleEntry "bob").Valid where
  account := by decide +kernel
  account_ne := by decide +kernel
  away := fun _ h => by cases h
  channels := Nat.zero_le _
  count := by decide
  names := fun _ h => absurd h List.not_mem_nil

/-- The entries come back if none of them has too many channels, and only then if no account is named
like a channel. -/
theorem persistLoadDb_iff (C : Crypto) (now : UInt64) (random : Random)
    {entries : List PersistEntry} (hvalid : ∀ e ∈ entries, e.Valid)
    (hnodup : (entries.map PersistEntry.key).Nodup) {free : ℕ}
    (hfree : plainSize (persistRecords entries) ≤ free) :
    ∃ file, persistSaveDb C now random free entries = some file ∧
      ((∀ e ∈ entries, e.saved = true → e.memberships.length ≤ maxChannels) →
        LoadsBack env C entries file) ∧
      ((∀ e ∈ entries, startsChannel e.account.str = false) → LoadsBack env C entries file →
        ∀ e ∈ entries, e.saved = true → e.memberships.length ≤ maxChannels) := by
  refine ⟨_, persistSaveDb_eq C now random hvalid hfree, fun hfit => ?_,
    fun hnames hback => hback.fit hvalid hnodup hnames⟩
  have hload := persistLoadDb_entries env C now hvalid hnodup
  dsimp only at hload
  rw [if_pos fun e he => hfit e (mem_of_mem_filter he) (of_mem_filter he)] at hload
  unfold LoadsBack
  rw [hload]
  exact ⟨rfl, reverse_perm _⟩

/-- A user on two channels comes back. -/
theorem persistLoadDb_two_channels :
    ∃ file, persistSaveDb nullCrypto 5 zeroRandom 1000 [onChannels 2, exampleEntry "bob"] = some file ∧
      LoadsBack exampleEnv nullCrypto [onChannels 2, exampleEntry "bob"] file := by
  have hvalid : ∀ e ∈ [onChannels 2, exampleEntry "bob"], e.Valid := by
    rw [forall_mem_cons, forall_mem_singleton]
    exact ⟨onChannels_valid (by norm_num), bob_valid⟩
  obtain ⟨file, hsave, hback, -⟩ := persistLoadDb_iff exampleEnv nullCrypto 5 zeroRandom hvalid
    (by decide +kernel) (show plainSize _ ≤ 1000 by decide +kernel)
  exact ⟨file, hsave, hback (by decide +kernel)⟩

/-- With a user on 101 channels in front, what follows does not come back. -/
theorem not_loadsBack_hundred_and_one :
    ¬LoadsBack exampleEnv nullCrypto [onChannels 101, exampleEntry "bob"]
      (plainBytes 5 (persistRecords [onChannels 101, exampleEntry "bob"])) := by
  have hvalid : ∀ e ∈ [onChannels 101, exampleEntry "bob"], e.Valid := by
    rw [forall_mem_cons, forall_mem_singleton]
    exact ⟨onChannels_valid (by norm_num), bob_valid⟩
  intro hback
  have hfit := hback.fit hvalid (by decide +kernel) (by decide +kernel) (onChannels 101)
    mem_cons_self (by decide +kernel)
  exact absurd hfit (by decide +kernel)

end ObbyIRCd.Persist
