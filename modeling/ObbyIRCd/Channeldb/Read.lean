import ObbyIRCd.Channeldb.Model

/-!
# Reading permanent channels

The reads of one channel take off what was written for it (`readHead_spec`, `readLists_spec`), so a file
with readable texts is read to its end (`readChanneldb_of_reading`). Channels with different names do not
meet: each is restored as on a server without channels (`foldl_restoreRaw`). What is read is short, also
where a read fails (`short_readChanneldb`).
-/

namespace ObbyIRCd.Channeldb

open List Option Keyed

open Database Chanmode

variable {C : Crypto}

/-! ## The reads -/

variable {c : UnrealDB C} {q : List UInt8}

variable (cfg : Config)

/-- A list of bans is read as it was written, and added one by one. -/
theorem readListmode_spec (l : ListMode) (ch : Channel) {list : List RawBan}
    (hreadable : ∀ b ∈ list, ∀ x ∈ b.records, x.Readable) (hcount : list.length < 2 ^ 32)
    (hr : Reading c ((listRecords list).flatMap encode ++ q)) :
    ∃ c', readListmode cfg l ch c =
        (ch.setList l (list.foldl (addEntry cfg l) (ch.lists l)), .ok c') ∧ Reading c' q := by
  unfold listRecords at hr
  rw [flatMap_cons] at hr
  obtain ⟨c₁, htotal, hr⟩ := unrealdbReadInt32_spec hr
  have hlength : (UInt32.ofNat list.length).toNat = list.length := by
    exact Nat.mod_eq_of_lt hcount
  have hread : ∀ b ∈ list, ∀ (c : UnrealDB C) (q : List UInt8),
      Reading c (b.records.flatMap encode ++ q) →
        ∃ c', readAs Stop.failed RawBan.ofRecords [.str, .str, .int64] c = .ok (b, c') ∧
          Reading c' q := by
    intro b hb c q hr
    have hdecode : RawBan.ofRecords b.records = some b := rfl
    exact readAs_spec Stop.failed hdecode (hreadable b hb) hr
  rw [flatMap_assoc] at hr
  obtain ⟨c₂, hitems, hr⟩ := readItems_spec (addEntry cfg l) hread (ch.lists l) hr
  refine ⟨c₂, ?_, hr⟩
  simp [readListmode, htotal, hlength, hitems]

/-- A list of a file is put in front of the one that is there. -/
def Channel.restoreList (cfg : Config) (lists : ListMode → List RawBan) (ch : Channel) (l : ListMode) :
    Channel :=
  ch.setList l ((lists l).foldl (addEntry cfg l) (ch.lists l))

def Channel.restoreLists (cfg : Config) (lists : ListMode → List RawBan) (ch : Channel) : Channel :=
  [ListMode.ban, .except, .invex].foldl (Channel.restoreList cfg lists) ch

theorem readLists_spec (ch : Channel) {lists : ListMode → List RawBan}
    (hreadable : ∀ l, ∀ b ∈ lists l, ∀ x ∈ b.records, x.Readable)
    (hcount : ∀ l, (lists l).length < 2 ^ 32)
    (hr : Reading c ((listRecords (lists .ban) ++ (listRecords (lists .except) ++
      (listRecords (lists .invex) ++ [Record.int32 magicChannelEnd]))).flatMap encode ++ q)) :
    ∃ c', readLists cfg ch c = (ch.restoreLists cfg lists, .ok c') ∧ Reading c' q := by
  simp only [flatMap_append, append_assoc] at hr
  obtain ⟨c₁, hban, hr⟩ := readListmode_spec cfg .ban ch (hreadable .ban) (hcount .ban) hr
  obtain ⟨c₂, hexcept, hr⟩ := readListmode_spec cfg .except (ch.restoreList cfg lists .ban)
    (hreadable .except) (hcount .except) hr
  obtain ⟨c₃, hinvex, hr⟩ := readListmode_spec cfg .invex
    ((ch.restoreList cfg lists .ban).restoreList cfg lists .except) (hreadable .invex)
    (hcount .invex) hr
  obtain ⟨c₄, hmagic, hr⟩ := unrealdbReadInt32_spec hr
  refine ⟨c₄, ?_, hr⟩
  have hexcept' : readListmode cfg .except
      (ch.setList .ban ((lists .ban).foldl (addEntry cfg .ban) (ch.lists .ban))) c₁ = _ := hexcept
  unfold readLists
  rw [hban]
  dsimp only
  rw [hexcept']
  dsimp only
  rw [show ((ch.restoreList cfg lists .ban).setList .except _) =
    (ch.restoreList cfg lists .ban).restoreList cfg lists .except from rfl, hinvex]
  dsimp only
  rw [hmagic]
  rfl

/-- The fields before the lists are read as they were written. -/
theorem readHead_spec {h : Head} (hreadable : ∀ x ∈ h.records, x.Readable)
    (hr : Reading c ((.int32 magicChannelStart :: h.records).flatMap encode ++ q)) :
    ∃ c', readHead channeldbVersion c = .ok (h, c') ∧ Reading c' q := by
  obtain ⟨c₁, hmagic, hr⟩ := unrealdbReadInt32_spec hr
  have hkinds : h.records.map Record.kind = Head.kinds channeldbVersion := rfl
  have hdecode : Head.ofRecords h.records = some h := rfl
  obtain ⟨c₂, hhead, hr⟩ := readAs_spec Stop.failed hdecode hreadable hr
  refine ⟨c₂, ?_, hr⟩
  unfold readHead
  rw [hmagic]
  dsimp only
  rw [if_neg (not_not.mpr rfl), ← hkinds, hhead]

variable (env : Env)

def restoreRaw (channels : List Channel) (r : Raw) : List Channel :=
  match makeChannel env channels (chars r.head.name) with
  | none => channels
  | some ch => putChannel channels ((r.head.restore env ch).restoreLists env.cfg r.lists)

/-- The texts of a channel in a file are readable, its name is not empty, and the numbers of its entries
are in range. -/
structure Raw.Readable (r : Raw) : Prop where
  head : ∀ x ∈ r.head.records, x.Readable
  lists : ∀ l, ∀ b ∈ r.lists l, ∀ x ∈ b.records, x.Readable
  count : ∀ l, (r.lists l).length < 2 ^ 32
  name : chars r.head.name ≠ []

theorem Raw.readable_of_records {r : Raw} (hrecords : ∀ x ∈ r.records, x.Readable)
    (hcount : ∀ l, (r.lists l).length < 2 ^ 32) (hname : chars r.head.name ≠ []) : r.Readable := by
  have hsub : ∀ l, ∀ x ∈ listRecords (r.lists l), x ∈ r.records := by
    intro l x hx
    unfold Raw.records
    cases l <;> simp [hx]
  refine ⟨fun x hx => hrecords x ?_, fun l b hb x hx => hrecords x (hsub l x ?_), hcount, hname⟩
  · exact mem_cons_of_mem _ (mem_append_left _ hx)
  · exact mem_cons_of_mem _ (mem_flatMap.mpr ⟨b, hb, hx⟩)

variable {raws : List Raw}

variable (hraws : ∀ r ∈ raws, r.Readable)
include hraws

theorem readable_channeldbRecords :
    ∀ x ∈ channeldbRecords raws, x.Readable := by
  have hlist : ∀ r ∈ raws, ∀ l, ∀ x ∈ listRecords (r.lists l), x.Readable := by
    intro r hr l
    rw [listRecords, forall_mem_cons, forall_mem_flatMap]
    exact ⟨readable_int32 _, (hraws r hr).lists l⟩
  simp only [channeldbRecords, Raw.records, forall_mem_cons, forall_mem_append,
    forall_mem_flatMap, readable_int32, readable_int64, true_and]
  exact fun r hr => ⟨(hraws r hr).head, hlist r hr .ban, hlist r hr .except, hlist r hr .invex,
    forall_mem_nil _⟩

/-- The loop reads all channels that were written. -/
theorem readChannels_spec (channels : List Channel)
    (hr : Reading c ((raws.flatMap Raw.records).flatMap encode ++ q)) :
    readChannels env channeldbVersion raws.length channels c =
      (raws.foldl (restoreRaw env) channels, .complete) := by
  induction raws generalizing channels c with
  | nil => rfl
  | cons r raws ih =>
    have hread := hraws r mem_cons_self
    have hsplit : Raw.records r = (.int32 magicChannelStart :: r.head.records) ++
        (listRecords (r.lists .ban) ++ (listRecords (r.lists .except) ++
          (listRecords (r.lists .invex) ++ [.int32 magicChannelEnd]))) := rfl
    rw [flatMap_cons, flatMap_append, hsplit, flatMap_append, append_assoc, append_assoc] at hr
    obtain ⟨c₁, hhead, hr⟩ := readHead_spec hread.head hr
    have hmake : ∃ ch, makeChannel env channels (chars r.head.name) = some ch := by
      unfold makeChannel
      rw [if_neg hread.name]
      exact ⟨_, rfl⟩
    obtain ⟨ch, hmake⟩ := hmake
    obtain ⟨c₂, hlists, hr⟩ := readLists_spec env.cfg (r.head.restore env ch) hread.lists hread.count hr
    have hrest := ih (fun r' h => hraws r' (mem_cons_of_mem r h)) (restoreRaw env channels r) hr
    rw [length_cons, readChannels, hhead]
    dsimp only
    rw [hmake]
    dsimp only
    rw [hlists]
    rw [foldl_cons, ← hrest]
    unfold restoreRaw
    rw [hmake]

theorem readChanneldb_of_reading {secr : Option (Secret C)} {file : List UInt8}
    (hcount : raws.length < 2 ^ 64) (hopen : unrealdbOpenReadAny secr file = .ok c)
    (hr : Reading c ((channeldbRecords raws).flatMap encode)) :
    readChanneldb env secr file = (raws.foldl (restoreRaw env) [], .complete) := by
  unfold channeldbRecords at hr
  simp only [flatMap_cons] at hr
  obtain ⟨c₁, hversion, hr⟩ := unrealdbReadInt32_spec hr
  obtain ⟨c₂, hnumber, hr⟩ := unrealdbReadInt64_spec hr
  have hlength : (UInt64.ofNat raws.length).toNat = raws.length := by
    exact Nat.mod_eq_of_lt hcount
  rw [← append_nil ((raws.flatMap Raw.records).flatMap encode)] at hr
  simp [readChanneldb, hopen, hversion, hnumber, hlength, readChannels_spec env hraws [] hr]

omit hraws

/-! ## Channels with different names -/

/-- What the channel of a file is found by. -/
def Raw.key (r : Raw) : List Char := lower (namebuf (chars r.head.name))

/-- The channel that a server without it makes of a file. -/
def Raw.channel (r : Raw) : Channel :=
  (r.head.restore env (newChannel env (namebuf (chars r.head.name)))).restoreLists env.cfg r.lists

variable (lists : ListMode → List RawBan)

theorem restoreLists_frame (ch : Channel) :
    (ch.restoreLists cfg lists).name = ch.name ∧
      (ch.restoreLists cfg lists).creationtime = ch.creationtime ∧
      (ch.restoreLists cfg lists).mode = ch.mode ∧ (ch.restoreLists cfg lists).params = ch.params ∧
      (ch.restoreLists cfg lists).topic = ch.topic ∧
      (ch.restoreLists cfg lists).topicNick = ch.topicNick ∧
      (ch.restoreLists cfg lists).topicTime = ch.topicTime ∧
      (ch.restoreLists cfg lists).modeLock = ch.modeLock ∧
      (ch.restoreLists cfg lists).registration = ch.registration :=
  ⟨rfl, rfl, rfl, rfl, rfl, rfl, rfl, rfl, rfl⟩

theorem restoreLists_lists (ch : Channel) (l : ListMode) :
    (ch.restoreLists cfg lists).lists l = (lists l).foldl (addEntry cfg l) (ch.lists l) := by
  cases l <;> rfl

theorem restore_frame (h : Head) (ch : Channel) : (h.restore env ch).name = ch.name ∧
      (h.restore env ch).creationtime = restoreTime env h.creationtime ∧
      ((∀ c ∈ chars h.modes1, coreMode c = none) → (h.restore env ch).lists = ch.lists) := by
  have hframe := setModeLoop_frame env.cfg env.me.source true
    (words ' ' [] ((chars h.modes2).take 511)) (chars h.modes1)
    ⟨{ ch.toChannel with creationtime := restoreTime env h.creationtime }, []⟩
  exact ⟨hframe.name, hframe.creationtime, hframe.lists⟩

def Raw.base (r : Raw) : Chanmode.Channel :=
  { Chanmode.makeChannel env.cfg env.me (namebuf (chars r.head.name)) with
    creationtime := restoreTime env r.head.creationtime }

/-- What a channel of a file becomes, field by field. -/
structure Raw.Fields (env : Env) (r : Raw) (ch : Channel) : Prop where
  name : ch.name = namebuf (chars r.head.name)
  creationtime : ch.creationtime = restoreTime env r.head.creationtime
  topic : ch.topic = r.head.topic
  topicNick : ch.topicNick = r.head.topicNick
  topicTime : ch.topicTime = r.head.topicTime.toInt64
  modeLock : ch.modeLock = r.head.modeLock
  registration : ch.registration =
    (r.head.restore env (newChannel env (namebuf (chars r.head.name)))).registration
  mode : ch.mode = (setChannelMode env (chars r.head.modes1) (chars r.head.modes2) (r.base env)).mode
  params : ch.params =
    (setChannelMode env (chars r.head.modes1) (chars r.head.modes2) (r.base env)).params
  lists : (∀ c ∈ chars r.head.modes1, coreMode c = none) →
    ∀ l, ch.lists l = (r.lists l).foldl (addEntry env.cfg l) []

theorem fields_channel (r : Raw) : r.Fields env (r.channel env) := by
  obtain ⟨hname, hcreation, hmode, hparams, htopic, hnick, htime, hlock, hreg⟩ :=
    restoreLists_frame env.cfg r.lists
      (r.head.restore env (newChannel env (namebuf (chars r.head.name))))
  obtain ⟨hheadName, hheadCreation, hheadLists⟩ :=
    restore_frame env r.head (newChannel env (namebuf (chars r.head.name)))
  refine ⟨hname.trans hheadName, hcreation.trans hheadCreation, htopic, hnick, htime, hlock, hreg, hmode,
    hparams, fun hletters l => ?_⟩
  unfold Raw.channel
  rw [restoreLists_lists, hheadLists hletters]
  rfl

theorem key_channel (r : Raw) : (r.channel env).key = r.key := by
  unfold Channel.key Raw.key
  rw [(fields_channel env r).name]

variable {channels : List Channel}

/-- Channels with different names are restored independently. -/
theorem foldl_restoreRaw (hname : ∀ r ∈ raws, chars r.head.name ≠ [])
    (hnodup : (raws.map Raw.key).Nodup) (hnew : ∀ r ∈ raws, r.key ∉ channels.map Channel.key) :
    raws.foldl (restoreRaw env) channels = (raws.map (Raw.channel env)).reverse ++ channels := by
  induction raws generalizing channels with
  | nil => rfl
  | cons r raws ih =>
    obtain ⟨hnotMem, hnodup'⟩ := nodup_cons.mp hnodup
    have hfree := hnew r mem_cons_self
    have hfind := (find_eq_none_iff Channel.key).mpr hfree
    have hrestore : restoreRaw env channels r = r.channel env :: channels := by
      have hmake : makeChannel env channels (chars r.head.name) =
          some (newChannel env (namebuf (chars r.head.name))) := by
        unfold makeChannel
        rw [if_neg (hname r mem_cons_self)]
        unfold Raw.key at hfind
        rw [hfind]
        rfl
      have hput : putChannel channels (r.channel env) = r.channel env :: channels := by
        unfold putChannel
        rw [key_channel, hfind]
        rfl
      unfold restoreRaw
      rw [hmake]
      exact hput
    rw [foldl_cons, hrestore, ih (fun r' h => hname r' (mem_cons_of_mem r h)) hnodup',
      map_cons, reverse_cons, append_assoc, singleton_append]
    intro r' hr'
    rw [map_cons, mem_cons, not_or, key_channel]
    exact ⟨fun h => hnotMem (h ▸ mem_map_of_mem hr'), hnew r' (mem_cons_of_mem r hr')⟩

/-! ## Short texts -/

/-- A mask and a setter that can be read. -/
def ShortBan (b : Ban) : Prop := b.banstr.length ≤ 10000 ∧ b.who.length ≤ 10000

/-- Texts of at most 10000 bytes. -/
structure Channel.Short (ch : Channel) : Prop where
  topic : ∀ s ∈ ch.topic, s.strlen ≤ 10000
  topicNick : ∀ s ∈ ch.topicNick, s.strlen ≤ 10000
  modeLock : ∀ s ∈ ch.modeLock, s.strlen ≤ 10000
  registration : ∀ r ∈ ch.registration, r.registeredBy.strlen ≤ 10000
  lists : ch.toChannel.AllBans ShortBan

theorem length_chars (s : CStr) : (chars s).length = s.strlen := List.length_map _

/-- `clean_ban_mask` returns a text in a buffer of 512 bytes. -/
def CleanShort (cfg : Config) : Prop :=
  ∀ l mask str, cfg.cleanBanMask true false l mask = some str → str.length ≤ 511

variable {ch : Channel}

theorem Channel.Short.setList (hch : ch.Short) (l : ListMode) {list : List Ban}
    (hlist : ∀ b ∈ list, ShortBan b) : (ch.setList l list).Short :=
  ⟨hch.topic, hch.topicNick, hch.modeLock, hch.registration, hch.lists.setList l hlist⟩

theorem short_readHead {version : UInt32} {c' : UnrealDB C} {h : Head}
    (hread : readHead version c = .ok (h, c')) :
    (∀ s ∈ h.topic, s.strlen ≤ 10000) ∧ (∀ s ∈ h.topicNick, s.strlen ≤ 10000) ∧
      (∀ s ∈ h.modeLock, s.strlen ≤ 10000) ∧ ∀ s ∈ h.registeredBy, s.strlen ≤ 10000 := by
  unfold readHead at hread
  split at hread
  · cases hread
  split at hread
  · cases hread
  obtain ⟨rs, hdecode, hreadable⟩ := readAs_readable hread
  have hshort : ∀ x : Option CStr, .str x ∈ rs → ∀ s ∈ x, s.strlen ≤ 10000 := by
    rintro x hx s rfl
    exact hreadable _ hx s rfl
  unfold Head.ofRecords at hdecode
  split at hdecode
  · obtain rfl := some.inj hdecode
    exact ⟨hshort _ (by simp), hshort _ (by simp), hshort _ (by simp), fun s hs => by cases hs⟩
  · obtain rfl := some.inj hdecode
    exact ⟨hshort _ (by simp), hshort _ (by simp), hshort _ (by simp), hshort _ (by simp)⟩
  · cases hdecode

theorem short_restore {version : UInt32} {c' : UnrealDB C} {h : Head}
    (hread : readHead version c = .ok (h, c')) (hch : ch.Short) :
    (h.restore env ch).Short := by
  obtain ⟨htopic, htopicNick, hmodeLock, hregisteredBy⟩ := short_readHead hread
  refine ⟨htopic, htopicNick, hmodeLock, fun r hr => ?_, ?_⟩
  · unfold Head.restore at hr
    split at hr
    · exact hch.registration r hr
    rename_i registeredBy heq
    split at hr
    · exact hch.registration r hr
    · obtain rfl := some.inj hr
      exact hregisteredBy registeredBy heq
  · have hnew : ∀ mask : List Char,
        ShortBan ⟨mask.take modebuflen, env.me.source.name.take 106, env.me.source.time⟩ := fun mask =>
      ⟨(length_take_le _ _).trans (by decide), (length_take_le _ _).trans (by decide)⟩
    have hlists := hch.lists
    exact setModeLoop_allBans hnew true _ _ hlists

theorem short_makeChannel {env : Env} (hchannels : ∀ ch ∈ channels, ch.Short)
    {name : List Char} (hmake : makeChannel env channels name = some ch) : ch.Short := by
  unfold makeChannel at hmake
  split at hmake
  · cases hmake
  obtain rfl := some.inj hmake
  rcases hfind : find Channel.key channels (lower (namebuf name)) with - | ch
  · have hnone {α : Type} {P : α → Prop} : ∀ x ∈ (none : Option α), P x := fun x hx =>
      absurd hx (not_mem_none x)
    exact ⟨hnone, hnone, hnone, hnone, fun _ => forall_mem_nil _⟩
  · exact hchannels ch (mem_of_find Channel.key hfind)

section Short

variable {cfg : Config} (hclean : CleanShort cfg)
include hclean

theorem short_readListmode (l : ListMode) (hch : ch.Short) (c : UnrealDB C) :
    (readListmode cfg l ch c).1.Short := by
  have hadd : ∀ (list : List Ban) (b : RawBan) (c c' : UnrealDB C),
      readAs Stop.failed RawBan.ofRecords [.str, .str, .int64] c = .ok (b, c') →
        (∀ b ∈ list, ShortBan b) → ∀ b' ∈ addEntry cfg l list b, ShortBan b' := by
    intro list b c c' hread hlist
    obtain ⟨rs, hdecode, hreadable⟩ := readAs_readable hread
    unfold addEntry
    split
    · exact hlist
    rename_i str hstr
    split
    · exact hlist
    refine forall_mem_cons.mpr ⟨⟨(hclean l _ str hstr).trans (by decide), ?_⟩, hlist⟩
    unfold RawBan.ofRecords at hdecode
    split at hdecode
    · rename_i banstr who when
      obtain rfl := some.inj hdecode
      have hwho := hreadable (.str (some who)) (by simp) who rfl
      rwa [← length_chars] at hwho
    · cases hdecode
  unfold readListmode
  split
  · exact hch
  · rename_i total c₁ _
    exact hch.setList l (readItems_invariant hadd total.toNat (hch.lists l) c₁)

theorem short_readLists (hch : ch.Short) (c : UnrealDB C) :
    (readLists cfg ch c).1.Short := by
  unfold readLists
  have hban := short_readListmode hclean .ban hch c
  split
  · rename_i heq
    rwa [heq] at hban
  rename_i ch₁ c₁ heq
  rw [heq] at hban
  have hexcept := short_readListmode hclean .except hban c₁
  split
  · rename_i heq
    rwa [heq] at hexcept
  rename_i ch₂ c₂ heq
  rw [heq] at hexcept
  have hinvex := short_readListmode hclean .invex hexcept c₂
  split
  · rename_i heq
    rwa [heq] at hinvex
  · rename_i ch₃ c₃ heq
    rw [heq] at hinvex
    split <;> exact hinvex

theorem short_readChannels (env : Env) (henv : env.cfg = cfg) (version : UInt32) (n : ℕ)
    {channels : List Channel} (hchannels : ∀ ch ∈ channels, ch.Short) (c : UnrealDB C) :
    ∀ ch ∈ (readChannels env version n channels c).1, ch.Short := by
  subst henv
  induction n generalizing channels c with
  | zero => exact hchannels
  | succ n ih =>
    have hput : ∀ ch : Channel, ch.Short → ∀ ch' ∈ putChannel channels ch, ch'.Short := by
      intro ch hch ch' hch'
      unfold putChannel at hch'
      split at hch'
      · rcases mem_modify _ hch' with hch' | ⟨_, -, rfl⟩
        · exact hchannels ch' hch'
        · exact hch
      · rcases mem_cons.mp hch' with rfl | hch'
        · exact hch
        · exact hchannels ch' hch'
    unfold readChannels
    split
    · exact hchannels
    rename_i h c₁ hread
    split
    · exact hchannels
    rename_i ch hmake
    have hrestored := short_restore env hread (short_makeChannel hchannels hmake)
    have hlists := short_readLists hclean hrestored c₁
    split
    · rename_i ch' stop heq
      rw [heq] at hlists
      exact hput ch' hlists
    · rename_i ch' c₂ heq
      rw [heq] at hlists
      exact ih (hput ch' hlists) c₂

end Short

theorem short_readChanneldb {env : Env} (hclean : CleanShort env.cfg) (secr : Option (Secret C))
    (file : List UInt8) : ∀ ch ∈ (readChanneldb env secr file).1, ch.Short := by
  have hnil : ∀ ch ∈ ([] : List Channel), ch.Short := forall_mem_nil _
  unfold readChanneldb
  repeat' split
  all_goals first | exact hnil | exact short_readChannels hclean env rfl _ _ hnil _

end ObbyIRCd.Channeldb
