import ObbyIRCd.Channeldb.Read
import ObbyIRCd.Chanmode.Merge

/-!
# Reading permanent channels back

What a server makes of the entry that it has written for a channel, field by field. The modes come back
through `set_mode` with the limits of +H for a channel that is not +r. Whatever the modes were, the
parameters that are set are valid, so parameters that are not valid do not come back. The flood profile
of a channel that is -F is not written: the new channel has the default one. The lists come back
in the other order (`restoreList_eq_iff`), so only lists of at most one entry are as they were.
-/

namespace ObbyIRCd.Channeldb

open List Channel Keyed

open Database Chanmode

variable {C : Crypto}

/-! ## Lists -/

/-- What is assumed of `clean_ban_mask`: it returns a text in a buffer of 512 bytes, and it does not make
two masks of each other. -/
structure CleanSpec (cfg : Config) : Prop where
  short : CleanShort cfg
  swap : ∀ l mask mask', cfg.cleanBanMask true false l mask = some mask' →
    cfg.cleanBanMask true false l mask' = some mask → mask = mask'

/-- A `time_t`. -/
def InTime (t : ℤ) : Prop := -2 ^ 63 ≤ t ∧ t < 2 ^ 63

theorem time_stamp {t : ℤ} (ht : InTime t) : time (stamp t) = t := by
  exact Int64.toInt_ofInt_of_le ht.1 ht.2

/-- An entry of a list in memory. -/
def BanText (b : Ban) : Prop := IsText b.banstr ∧ IsText b.who ∧ InTime b.when

def cleaned (cfg : Config) (l : ListMode) (b : Ban) : Option Ban :=
  (cfg.cleanBanMask true false l b.banstr).map fun str => { b with banstr := str }

/-- What `ban_exists` looks an entry up by. -/
def banKey (b : Ban) : List Char := lower b.banstr

theorem banExists_eq (list : List Ban) (b : Ban) :
    banExists list b.banstr = (find banKey list (banKey b)).isSome := by
  unfold banExists find
  rw [Bool.eq_iff_iff, any_eq_true, find?_isSome]
  rfl

theorem addEntry_rawBan (cfg : Config) (l : ListMode) (list : List Ban) {b : Ban} (hb : BanText b) :
    addEntry cfg l list (rawBan b) =
      match cleaned cfg l b with
      | none => list
      | some b => keep banKey list b := by
  unfold addEntry rawBan cleaned keep
  rw [chars_text hb.1, chars_text hb.2.1, time_stamp hb.2.2]
  rcases cfg.cleanBanMask true false l b.banstr with - | str
  · rfl
  · dsimp only [Option.map_some]
    rw [← banExists_eq]

/-- Adding the bans that were saved keeps the first of each mask. -/
theorem foldl_addEntry (cfg : Config) (l : ListMode) {bans : List Ban} (hbans : ∀ b ∈ bans, BanText b)
    (list : List Ban) :
    (bans.map rawBan).foldl (addEntry cfg l) list =
      (bans.filterMap (cleaned cfg l)).foldl (keep banKey) list := by
  induction bans generalizing list with
  | nil => rfl
  | cons b bans ih =>
    rw [map_cons, foldl_cons, addEntry_rawBan cfg l list (hbans b mem_cons_self),
      ih fun b' h => hbans b' (mem_cons_of_mem b h), filterMap_cons]
    rcases cleaned cfg l b with - | b' <;> rfl

variable {cfg : Config}

/-- A list comes back exactly if it has at most one entry, whose mask is clean. -/
theorem restoreList_eq_iff (hclean : CleanSpec cfg) (l : ListMode) {bans : List Ban}
    (hbans : ∀ b ∈ bans, BanText b) :
    (bans.map rawBan).foldl (addEntry cfg l) [] = bans ↔
      bans.length ≤ 1 ∧ ∀ b ∈ bans, cfg.cleanBanMask true false l b.banstr = some b.banstr := by
  rw [foldl_addEntry cfg l hbans]
  constructor
  · intro heq
    -- nothing is dropped, so all entries are cleaned and come back in the other order
    have hsub := foldl_keep_sublist banKey (bans.filterMap (cleaned cfg l)) []
    rw [heq, append_nil] at hsub
    have hle : bans.length ≤ (bans.filterMap (cleaned cfg l)).length := by
      simpa using hsub.length_le
    have hlength := (length_filterMap_le _ _).antisymm hle
    have hreverse := hsub.eq_of_length (by rw [length_reverse, hlength])
    have hnodup : (bans.map banKey).Nodup := by
      rw [← heq]
      exact nodup_foldl_keep banKey _ nodup_nil
    have hsome := filterMap_length_eq_length.mp hlength
    have hmask : ∀ {b b' : Ban}, cleaned cfg l b = some b' →
        cfg.cleanBanMask true false l b.banstr = some b'.banstr := by
      intro b b' h
      obtain ⟨str, hstr, rfl⟩ := Option.map_eq_some_iff.mp h
      exact hstr
    rcases bans with - | ⟨b, bans⟩
    · exact ⟨Nat.zero_le _, forall_mem_nil _⟩
    obtain ⟨b₁, hb₁⟩ := Option.isSome_iff_exists.mp (hsome b mem_cons_self)
    rcases eq_nil_or_concat bans with rfl | ⟨middle, b', rfl⟩
    · rw [filterMap_cons_some hb₁] at hreverse
      obtain rfl : b = b₁ := (cons.inj hreverse).1
      exact ⟨Nat.le_refl _, fun b' h => mem_singleton.mp h ▸ hmask hb₁⟩
    · -- the first and the last entry would be made of each other
      obtain ⟨b₂, hb₂⟩ := Option.isSome_iff_exists.mp (hsome b' (by simp))
      rw [concat_eq_append, filterMap_cons_some hb₁, filterMap_append,
        filterMap_cons_some hb₂, filterMap_nil, reverse_cons, reverse_append,
        reverse_singleton, singleton_append, cons_append, cons.injEq] at hreverse
      obtain ⟨rfl, hrest⟩ := hreverse
      obtain rfl : b' = b₁ := singleton_inj.mp (append_inj_right' hrest rfl)
      have hsame := hclean.swap l _ _ (hmask hb₁) (hmask hb₂)
      refine absurd ?_ (nodup_cons.mp hnodup).1
      rw [show banKey b = banKey b' from congrArg lower hsame]
      simp
  · rintro ⟨hlength, hmask⟩
    have hcleaned : bans.filterMap (cleaned cfg l) = bans := by
      refine (filterMap_congr fun b hb => ?_).trans filterMap_some
      unfold cleaned
      rw [hmask b hb]
      rfl
    rw [hcleaned]
    rcases bans with - | ⟨b, - | ⟨b', bans⟩⟩
    · rfl
    · rfl
    · simp at hlength

/-! ## Modes -/

/-- What every channel of a server is like. -/
structure Channel.WellFormed (cfg : Config) (ch : Channel) : Prop where
  name_ne : ch.name ≠ []
  name_eq : namebuf ch.name = ch.name
  name_text : IsText ch.name
  creationtime : InTime ch.creationtime
  params_text : ∀ m v, ch.params m = some v → IsText (m.getParam v)
  bans_text : ch.toChannel.AllBans BanText
  count : ∀ l, (ch.lists l).length < 2 ^ 31
  loaded : ∀ c, ch.mode c = true → ∃ cm ∈ cfg.channelmodes, cm.letter = c ∧ ∀ p r, cm.kind ≠ .member p r

/-- The modes can be set again: their parameters are valid and not empty, +H is within its limits, and +s
and +p are not both set. -/
structure ModesStorable (cfg : Config) (ch : Chanmode.Channel) : Prop where
  params : ∀ m : ParamMode, ch.mode m.letter = true →
    ∃ v, ch.params m = some v ∧ m.Valid cfg.toParamConfig ch.name v ∧ m.getParam v ≠ []
  history : ch.mode 'r' = false → ∀ v, ch.shown .history = some v →
    HistoryChanMode.Within v cfg.unregistered
  secrecy : ¬(ch.mode 's' = true ∧ ch.mode 'p' = true)

theorem letters_text (cfg : Config) (ch : Chanmode.Channel) :
    ∀ c ∈ modebuf cfg ch, (0 < c.toNat ∧ c.toNat < 256) ∧ coreMode c = none := by
  have hall : ∀ cm ∈ allChannelmodes, (0 < cm.letter.toNat ∧ cm.letter.toNat < 256) ∧
      coreMode cm.letter = none := by
    decide
  intro c hc
  rcases mem_cons.mp (mem_of_mem_take hc) with rfl | hc
  · decide
  · obtain ⟨cm, hcm, rfl⟩ := mem_map.mp hc
    exact hall cm (mem_channelmodes.mp (mem_of_mem_filter hcm)).1

variable {ch : Chanmode.Channel}

theorem parabuf_text (hparams : ∀ m v, ch.params m = some v → IsText (m.getParam v)) :
    IsText (parabuf (channelModes cfg ch).2).dropLast := by
  intro c hc
  have hmem := mem_of_mem_take ((dropLast_sublist _).subset hc)
  obtain ⟨w, hw, hc⟩ := mem_flatMap.mp hmem
  rcases mem_append.mp hc with hc | hc
  · obtain ⟨cm, -, htext⟩ := mem_filterMap.mp hw
    unfold Channel.paramText at htext
    split at htext
    · rename_i m _
      obtain ⟨v, hv, rfl⟩ := Option.map_eq_some_iff.mp htext
      exact hparams m v hv c hc
    · cases htext
  · rw [mem_singleton.mp hc]
    decide

theorem setChannelMode_valid {env : Env} (modes parameters : List Char)
    (hch : ch.Valid env.cfg) : (setChannelMode env modes parameters ch).Valid env.cfg :=
  setMode_valid (fun h => absurd h Bool.false_ne_true) modes _ hch

theorem setChannelMode_own {env : Env} {base : Chanmode.Channel} (hch : ch.Valid env.cfg)
    (hparams : ∀ m v, ch.params m = some v → IsText (m.getParam v)) (hbase : base.Valid env.cfg)
    (hname : ch.name = base.name) :
    setChannelMode env (chars (text (modebuf env.cfg ch)))
        (chars (text (parabuf (channelModes env.cfg ch).2).dropLast)) base =
      base.receiveAll env.cfg ch.told := by
  rw [chars_text fun c hc => (letters_text env.cfg ch c hc).1, chars_text (parabuf_text hparams)]
  obtain ⟨-, hlength, -⟩ := channelModes_words hch
  have hparabuf : parabuf (channelModes env.cfg ch).2 = unwords ' ' (channelModes env.cfg ch).2 :=
    take_of_length_le (by omega)
  have htokens : words ' ' [] ((parabuf (channelModes env.cfg ch).2).dropLast.take 511) =
      sjoinParams (channelModes env.cfg ch).2 := by
    have hle := (dropLast_sublist (unwords ' ' (channelModes env.cfg ch).2)).length_le
    unfold sjoinParams mp2parv
    rw [hparabuf, take_of_length_le (by omega), words_dropLast_unwords]
  unfold setChannelMode
  rw [htokens]
  exact setMode_channelModes env.me hch hbase hname

/-- A channel with the parameters of its modes only, which is what is written. -/
def settings (ch : Chanmode.Channel) : Chanmode.Channel := { ch with params := ch.shown }

theorem settings_mode (ch : Chanmode.Channel) : (settings ch).mode = ch.mode := rfl

theorem settings_params (ch : Chanmode.Channel) (m : ParamMode) : (settings ch).params m = ch.shown m := rfl

theorem channelModes_settings (cfg : Config) (ch : Chanmode.Channel) :
    channelModes cfg (settings ch) = channelModes cfg ch := by
  have htexts : (cfg.modesOf ch).filterMap (settings ch).paramText =
      (cfg.modesOf ch).filterMap ch.paramText := by
    refine filterMap_congr fun cm hcm => ?_
    obtain ⟨hmem, hset⟩ := mem_filter.mp hcm
    unfold Channel.paramText
    split
    · rename_i m hkind
      have hletter := (letter_of_param (mem_channelmodes.mp hmem).1 hkind).1
      have hmode := hletter ▸ (Bool.and_eq_true_iff.mp hset).2
      unfold Channel.getParameter
      rw [settings_params, shown_of_set hmode]
    · rfl
  exact Prod.ext rfl htexts

section Modes

variable {env : Env} {ch base : Chanmode.Channel}
  (hparams : ∀ m v, ch.params m = some v → IsText (m.getParam v)) (hname : ch.name = base.name)
  (hloaded : ∀ c, ch.mode c = true →
    ∃ cm ∈ env.cfg.channelmodes, cm.letter = c ∧ ∀ p r, cm.kind ≠ .member p r)
  (hmode : ∀ c, base.mode c = false) (hbase : base.Valid env.cfg)

/-- The modes are as they were with their parameters, apart from those that a server keeps for itself. -/
structure SameModes (ch ch' : Chanmode.Channel) : Prop where
  mode : ∀ c, localLetter c = false → ch'.mode c = ch.mode c
  params : ∀ m, ch'.shown m = ch.shown m

theorem localLetter_param (m : ParamMode) : localLetter m.letter = false := by cases m <;> decide

include hloaded in
theorem settings_valid (hset : ∀ m : ParamMode, ch.mode m.letter = true →
    ∃ v, ch.params m = some v ∧ m.Valid env.cfg.toParamConfig ch.name v) : (settings ch).Valid env.cfg where
  set m hm := by
    obtain ⟨v, hv, hvalid⟩ := hset m hm
    rw [settings_mode] at hm
    exact ⟨v, by rw [settings_params, shown_of_set hm, hv], hvalid⟩
  unset m _ hm := shown_of_unset hm
  loaded := hloaded

include hparams hname hbase in
/-- What is written of the modes is set again, apart from +L with an empty text. -/
theorem setChannelMode_settings (hch : (settings ch).Valid env.cfg) :
    setChannelMode env (chars (text (modebuf env.cfg ch)))
        (chars (text (parabuf (channelModes env.cfg ch).2).dropLast)) base =
      base.receiveAll env.cfg (settings ch).told := by
  have htexts : ∀ m v, (settings ch).params m = some v → IsText (m.getParam v) := by
    intro m v hv
    exact hparams m v (shown_eq_some.mp hv).2
  have hown := setChannelMode_own hch htexts hbase hname
  unfold modebuf at hown ⊢
  rwa [channelModes_settings] at hown

include hname hloaded in
/-- Whatever the modes were, what is set is valid. -/
theorem SameModes.settings_valid {ch' : Chanmode.Channel} (h : SameModes ch ch')
    (hch' : ch'.Valid env.cfg) (hname' : ch'.name = base.name) : (settings ch).Valid env.cfg := by
  refine Channeldb.settings_valid hloaded fun m hm => ?_
  have hm' := (h.mode _ (localLetter_param m)).trans hm
  obtain ⟨v, hv, hvalid⟩ := hch'.set m hm'
  have hshown := h.params m
  rw [shown_of_set hm', shown_of_set hm, hv] at hshown
  exact ⟨v, hshown.symm, by rwa [hname, ← hname']⟩

include hmode in
/-- An empty +L does not come back. -/
theorem SameModes.link_ne_nil (hch : (settings ch).Valid env.cfg)
    (h : SameModes ch (base.receiveAll env.cfg (settings ch).told)) :
    (settings ch).params .link ≠ some [] := by
  intro hempty
  have hset : ch.mode ParamMode.link.letter = true := (shown_eq_some.mp hempty).1
  have hL := h.mode _ (localLetter_param .link)
  rw [receiveAll_mode hch.told base (by decide) (by decide), hmode, told_mode, hempty,
    settings_mode, hset] at hL
  simp at hL

include hmode in
/-- Modes that come back were storable. -/
theorem SameModes.storable (hch : (settings ch).Valid env.cfg)
    (h : SameModes ch (base.receiveAll env.cfg (settings ch).told)) : ModesStorable env.cfg ch := by
  have hlink := h.link_ne_nil hmode hch
  rw [told_of_ne hlink] at h
  refine ⟨fun m hm => ?_, fun hr v hv => ?_, fun hboth => ?_⟩
  · obtain ⟨v, hv, hvalid⟩ := hch.set m hm
    rw [settings_params, shown_of_set hm] at hv
    refine ⟨v, hv, hvalid, fun hempty => ?_⟩
    obtain rfl := (m.getParam_word hvalid).1 hempty
    exact hlink (by rw [settings_params, shown_of_set hm, hv]; exact congrArg some hempty)
  · have hset : ch.mode ParamMode.history.letter = true := (shown_eq_some.mp hv).1
    have hparam := h.params .history
    have hset' : (base.receiveAll env.cfg (settings ch)).mode ParamMode.history.letter = true :=
      (h.mode _ (localLetter_param .history)).trans hset
    rw [shown_of_set hset', receiveAll_params hch, settings_mode, if_pos hset, settings_params, hv,
      hmode, hr] at hparam
    exact cap_eq_iff.mp (Option.some.inj hparam)
  · have hp := h.mode 'p' (by decide)
    rw [(receiveAll_mode_secrecy hch base).1, settings_mode, hboth.1, hboth.2] at hp
    simp at hp

include hmode in
theorem ModesStorable.receiveAll_mode (hch : (settings ch).Valid env.cfg)
    (h : ModesStorable env.cfg ch) {c : Char} (hc : localLetter c = false) :
    (base.receiveAll env.cfg (settings ch)).mode c = ch.mode c := by
  by_cases hs : c = 's'
  · rw [hs, (receiveAll_mode_secrecy hch base).2, hmode]
    exact Bool.false_or _
  by_cases hp : c = 'p'
  · rw [hp, (receiveAll_mode_secrecy hch base).1, hmode, settings_mode]
    rcases hsecret : ch.mode 's' with - | -
    · simp
    have hprivate : ch.mode 'p' = false := by
      by_contra hprivate
      exact h.secrecy ⟨hsecret, by simpa using hprivate⟩
    simp [hprivate]
  · rw [Chanmode.receiveAll_mode hch base hs hp, hmode, hc, settings_mode]
    simp

include hmode in
/-- Modes that are storable come back. -/
theorem ModesStorable.sameModes (hch : (settings ch).Valid env.cfg) (h : ModesStorable env.cfg ch) :
    SameModes ch (base.receiveAll env.cfg (settings ch)) := by
  refine ⟨fun c hc => h.receiveAll_mode hmode hch hc, fun m => ?_⟩
  have hm' := h.receiveAll_mode hmode hch (localLetter_param m)
  rcases hm : ch.mode m.letter with - | -
  · rw [shown_of_unset hm, shown_of_unset (hm'.trans hm)]
  · obtain ⟨v, hv, hvalid, -⟩ := h.params m hm
    rw [shown_of_set hm, shown_of_set (hm'.trans hm), receiveAll_params hch, settings_mode,
      if_pos hm, settings_params, shown_of_set hm, hv, hmode]
    refine congrArg some ?_
    by_cases hhist : m = .history
    · subst hhist
      rcases hr : ch.mode 'r' with - | -
      · exact cap_eq_iff.mpr (h.history hr v ((shown_of_set hm).trans hv))
      · exact ParamMode.received_registered _ hvalid
    · exact ParamMode.received_of_ne hhist _ _ v

include hparams hname hloaded hmode hbase in
/-- The modes come back exactly if their text holds them. -/
theorem sameModes_iff :
    SameModes ch (setChannelMode env (chars (text (modebuf env.cfg ch)))
        (chars (text (parabuf (channelModes env.cfg ch).2).dropLast)) base) ↔
      ModesStorable env.cfg ch := by
  constructor
  · intro h
    have hframe := (setModeLoop_frame env.cfg env.me.source true
      (words ' ' [] ((chars (text (parabuf (channelModes env.cfg ch).2).dropLast)).take 511))
      (chars (text (modebuf env.cfg ch))) ⟨base, []⟩).name
    have hch := h.settings_valid hname hloaded (setChannelMode_valid _ _ hbase) hframe
    rw [setChannelMode_settings hparams hname hbase hch] at h
    exact h.storable hmode hch
  · intro h
    have hch : (settings ch).Valid env.cfg := settings_valid hloaded fun m hm => by
      obtain ⟨v, hv, hvalid, -⟩ := h.params m hm
      exact ⟨v, hv, hvalid⟩
    have hlink : (settings ch).params .link ≠ some [] := by
      intro hempty
      obtain ⟨hm, hv⟩ := shown_eq_some.mp hempty
      obtain ⟨v, hv', -, hne⟩ := h.params .link hm
      exact hne (Option.some.inj (hv'.symm.trans hv))
    rw [setChannelMode_settings hparams hname hbase hch, told_of_ne hlink]
    exact h.sameModes hmode hch

end Modes

/-! ## Whole channels -/

/-- A channel is as it was. Its members are not saved. -/
structure Restored (ch ch' : Channel) : Prop where
  name : ch'.name = ch.name
  creationtime : ch'.creationtime = ch.creationtime
  topic : ch'.topic = ch.topic
  topicNick : ch'.topicNick = ch.topicNick
  topicTime : ch'.topicTime = ch.topicTime
  modes : SameModes ch.toChannel ch'.toChannel
  modeLock : ch'.modeLock = ch.modeLock
  registration : ch'.registration = ch.registration
  lists : ch'.lists = ch.lists

/-- A channel that comes back. -/
structure Channel.Storable (env : Env) (ch : Channel) : Prop where
  short : ch.Short
  creationtime : 1000000 < ch.creationtime ∨ ch.creationtime < 0 ∨ ch.creationtime = env.now.toInt
  modes : ModesStorable env.cfg ch.toChannel
  lists : ∀ l, (ch.lists l).length ≤ 1
  masks : ∀ l, ∀ b ∈ ch.lists l, env.cfg.cleanBanMask true false l b.banstr = some b.banstr

theorem toNat_stamp {t : ℤ} (ht : InTime t) :
    (stamp t).toNat = if 0 ≤ t then t.toNat else (t + 2 ^ 64).toNat := by
  have hmod : (stamp t).toNat = (t % 2 ^ 64).toNat := by
    rfl
  obtain ⟨hmin, hmax⟩ := ht
  split <;> omega

/-- A time in the first days of the epoch is taken for one that is not valid. -/
theorem restoreTime_stamp (env : Env) {t : ℤ} (ht : InTime t) :
    restoreTime env (stamp t) = t ↔ 1000000 < t ∨ t < 0 ∨ t = env.now.toInt := by
  have hle : stamp t ≤ 1000000 ↔ 0 ≤ t ∧ t ≤ 1000000 := by
    rw [UInt64.le_iff_toNat_le, toNat_stamp ht]
    have hnum : UInt64.toNat 1000000 = 1000000 := rfl
    obtain ⟨hmin, hmax⟩ := ht
    split <;> omega
  unfold restoreTime
  split_ifs with hearly
  · have hrange := hle.mp hearly
    omega
  · rw [time_stamp ht]
    have hrange := mt hle.mpr hearly
    omega

/-- The registration comes back: one without an account is written for none. -/
theorem registration_raw (env : Env) (ch : Channel) (name : List Char) :
    ((ch.raw env.cfg).head.restore env (newChannel env name)).registration = ch.registration := by
  unfold Head.restore raw
  dsimp only
  rcases ch.registration with - | r
  · rfl
  · rw [Option.map_some, Option.getD_some, dif_neg r.nonempty]
    rfl

theorem SameModes.congr {ch ch₁ ch₂ : Chanmode.Channel} (h : SameModes ch ch₁) (hmode : ch₁.mode = ch₂.mode)
    (hparams : ch₁.params = ch₂.params) : SameModes ch ch₂ := by
  refine ⟨hmode ▸ h.mode, fun m => ?_⟩
  rw [← h.params m]
  unfold Channel.shown
  rw [hmode, hparams]

theorem base_valid (env : Env) (r : Raw) : (r.base env).Valid env.cfg :=
  (makeChannel_valid env.cfg env.me (namebuf (chars r.head.name))).congr rfl rfl rfl

/-- One channel comes back exactly if all its parts do. -/
theorem restored_iff_storable {env : Env} (hclean : CleanSpec env.cfg) {ch : Channel}
    (hwf : ch.WellFormed env.cfg) (hshort : ch.Short) :
    Restored ch ((ch.raw env.cfg).channel env) ↔ ch.Storable env := by
  have hname : namebuf (chars (ch.raw env.cfg).head.name) = ch.name := by
    show namebuf (chars (text ch.name)) = ch.name
    rw [chars_text hwf.name_text, hwf.name_eq]
  have hfields := fields_channel env (ch.raw env.cfg)
  have hletters : ∀ c ∈ chars (ch.raw env.cfg).head.modes1, coreMode c = none := by
    intro c hc
    rw [show (ch.raw env.cfg).head.modes1 = text (modebuf env.cfg ch.toChannel) from rfl,
      chars_text fun c hc => (letters_text env.cfg ch.toChannel c hc).1] at hc
    exact (letters_text env.cfg ch.toChannel c hc).2
  have hlists : ((ch.raw env.cfg).channel env).lists = ch.lists ↔
      ∀ l, ((ch.lists l).map rawBan).foldl (addEntry env.cfg l) [] = ch.lists l := by
    rw [funext_iff]
    refine forall_congr' fun l => ?_
    rw [hfields.lists hletters]
    rfl
  have hmodes : SameModes ch.toChannel ((ch.raw env.cfg).channel env).toChannel ↔
      ModesStorable env.cfg ch.toChannel := by
    have hset : SameModes ch.toChannel (setChannelMode env (chars (ch.raw env.cfg).head.modes1)
        (chars (ch.raw env.cfg).head.modes2) ((ch.raw env.cfg).base env)) ↔
          ModesStorable env.cfg ch.toChannel :=
      sameModes_iff hwf.params_text hname.symm hwf.loaded (fun _ => rfl) (base_valid env _)
    rw [← hset]
    exact ⟨fun h => h.congr hfields.mode hfields.params,
      fun h => h.congr hfields.mode.symm hfields.params.symm⟩
  have hcreation : ((ch.raw env.cfg).channel env).creationtime = ch.creationtime ↔
      1000000 < ch.creationtime ∨ ch.creationtime < 0 ∨ ch.creationtime = env.now.toInt := by
    rw [← restoreTime_stamp env hwf.creationtime, hfields.creationtime]
    rfl
  constructor
  · intro h
    have hlist l := (restoreList_eq_iff hclean l (hwf.bans_text l)).mp (hlists.mp h.lists l)
    exact ⟨hshort, hcreation.mp h.creationtime, hmodes.mp h.modes, fun l => (hlist l).1,
      fun l => (hlist l).2⟩
  · intro h
    exact ⟨hfields.name.trans hname, hcreation.mpr h.creationtime, hfields.topic, hfields.topicNick,
      hfields.topicTime.trans (Int64.toInt64_toUInt64 _), hmodes.mpr h.modes, hfields.modeLock,
      hfields.registration.trans (registration_raw env ch _),
      hlists.mpr fun l => (restoreList_eq_iff hclean l (hwf.bans_text l)).mpr ⟨h.lists l, h.masks l⟩⟩

/-! ## Whole files -/

theorem key_raw {ch : Channel} (hwf : ch.WellFormed cfg) : (ch.raw cfg).key = ch.key := by
  show lower (namebuf (chars (text ch.name))) = lower ch.name
  rw [chars_text hwf.name_text, hwf.name_eq]

theorem readable_raw {ch : Channel} (hwf : ch.WellFormed cfg) (hshort : ch.Short) :
    (ch.raw cfg).Readable := by
  have hname : ch.name.length ≤ 32 := by
    rw [← hwf.name_eq]
    exact (takeWhile_sublist _).length_le.trans (length_take_le _ _)
  have htake : ∀ l : List Char, (text (l.take 511)).strlen ≤ 10000 := fun l =>
    ((strlen_text_le _).trans (length_take_le _ _)).trans (by decide)
  refine ⟨?_, ?_, fun l => ?_, ?_⟩
  · have hparabuf : (text (parabuf (channelModes cfg ch.toChannel).2).dropLast).strlen ≤ 10000 := by
      have hle := (dropLast_sublist (parabuf (channelModes cfg ch.toChannel).2)).length_le
      have htake : (parabuf (channelModes cfg ch.toChannel).2).length ≤ 511 := length_take_le _ _
      exact (strlen_text_le _).trans (by omega)
    have hregistered : ((ch.registration.map ChannelRegistration.registeredBy).getD
        CStr.empty).strlen ≤ 10000 := by
      rcases hr : ch.registration with - | r
      · decide
      · exact hshort.registration r hr
    have hname := (strlen_text_le ch.name).trans (hname.trans (by norm_num : 32 ≤ 10000))
    have hmodebuf : (text (modebuf cfg ch.toChannel)).strlen ≤ 10000 := htake _
    simpa [raw, Head.records, hname, hmodebuf, hparabuf, hregistered] using
      ⟨hshort.topic, hshort.topicNick, hshort.modeLock⟩
  · intro l b hb
    obtain ⟨ban, hban, rfl⟩ := mem_map.mp hb
    obtain ⟨hmask, hwho⟩ := hshort.lists l ban hban
    simpa [rawBan, RawBan.records] using
      ⟨(strlen_text_le _).trans hmask, (strlen_text_le _).trans hwho⟩
  · show ((ch.lists l).map rawBan).length < 2 ^ 32
    have hcount := hwf.count l
    rw [length_map]
    omega
  · show chars (text ch.name) ≠ []
    rw [chars_text hwf.name_text]
    exact hwf.name_ne

/-- The file is read to its end, and every channel in it comes back. -/
structure ReadsBack (channels : List Channel) (result : List Channel × Stop) : Prop where
  complete : result.2 = .complete
  restored : ∀ ch ∈ channels.filter Channel.saved, ∃ ch' ∈ result.1, Restored ch ch'

section Files

variable {env : Env} {secr secr₂ : Option (Secret C)}
  (hpass : secr₂.map Secret.password = secr.map Secret.password) {now : UInt64} {random : Random}
  {free : ℕ} {channels : List Channel} {file : List UInt8}
  (hwrite : writeChanneldb env.cfg secr now random free channels = some file)
  (hwf : ∀ ch ∈ channels.filter Channel.saved, ch.WellFormed env.cfg)
  (hkeys : ((channels.filter Channel.saved).map Channel.key).Nodup)
  (hcount : (channels.filter Channel.saved).length < 2 ^ 64)
include hpass hwrite hwf hkeys hcount

theorem readChanneldb_eq (hshort : ∀ ch ∈ channels.filter saved, ch.Short) :
    readChanneldb env secr₂ file =
      (((channels.filter saved).map fun ch => (ch.raw env.cfg).channel env).reverse,
        .complete) := by
  set saved := channels.filter saved with hsaved
  have hraws : ∀ r ∈ saved.map (raw env.cfg), r.Readable := by
    intro r hr
    obtain ⟨ch, hch, rfl⟩ := mem_map.mp hr
    exact readable_raw (hwf ch hch) (hshort ch hch)
  obtain ⟨c, hopen, hr⟩ :=
    unrealdbOpenReadAny_saveRecords hpass hwrite (readable_channeldbRecords hraws)
  have hnodup : ((saved.map (raw env.cfg)).map Raw.key).Nodup := by
    have hmap : saved.map (Raw.key ∘ raw env.cfg) = saved.map key :=
      map_congr_left fun ch hch => key_raw (hwf ch hch)
    rw [map_map, hmap]
    exact hkeys
  rw [readChanneldb_of_reading env hraws (by rwa [length_map]) hopen hr,
    foldl_restoreRaw env (fun r h => (hraws r h).name) hnodup fun r _ => not_mem_nil,
    append_nil, map_map]
  rfl

/-- Whatever channels a server saves, they come back exactly if each of them can be stored. -/
theorem channels_readBack_iff (hclean : CleanSpec env.cfg) :
    ReadsBack channels (readChanneldb env secr₂ file) ↔
      ∀ ch ∈ channels.filter Channel.saved, ch.Storable env := by
  constructor
  · rintro ⟨-, hrestored⟩
    -- What is read is short, so the file holds what was written.
    have hshort : ∀ ch ∈ channels.filter saved, ch.Short := by
      intro ch hch
      obtain ⟨ch', hch', hback⟩ := hrestored ch hch
      have hshort' := short_readChanneldb hclean.short secr₂ file ch' hch'
      exact ⟨hback.topic ▸ hshort'.topic, hback.topicNick ▸ hshort'.topicNick,
        hback.modeLock ▸ hshort'.modeLock, hback.registration ▸ hshort'.registration,
        fun l => hback.lists ▸ hshort'.lists l⟩
    rw [readChanneldb_eq hpass hwrite hwf hkeys hcount hshort] at hrestored
    intro ch hch
    obtain ⟨ch', hch', hback⟩ := hrestored ch hch
    obtain ⟨ch₁, hch₁, rfl⟩ := mem_map.mp (mem_reverse.mp hch')
    -- the names tell which entry it was
    have hname : ch₁.key = ch.key := by
      rw [← key_raw (hwf ch₁ hch₁), ← key_channel env]
      exact congrArg lower hback.name
    obtain rfl : ch₁ = ch := inj_on_of_nodup_map hkeys hch₁ hch hname
    exact (restored_iff_storable hclean (hwf _ hch) (hshort _ hch)).mp hback
  · intro hstorable
    rw [readChanneldb_eq hpass hwrite hwf hkeys hcount fun ch hch => (hstorable ch hch).short]
    refine ⟨rfl, fun ch hch => ⟨(ch.raw env.cfg).channel env, ?_, ?_⟩⟩
    · exact mem_reverse.mpr (mem_map_of_mem hch)
    · exact (restored_iff_storable hclean (hwf ch hch) (hstorable ch hch).short).mpr
        (hstorable ch hch)

end Files

/-! ## An example -/

/-- On a disk with enough space channels with short texts are saved. -/
theorem exists_writeChanneldb (C : Crypto) (now : UInt64) (random : Random)
    {channels : List Channel} (hwf : ∀ ch ∈ channels.filter saved, ch.WellFormed cfg)
    (hshort : ∀ ch ∈ channels.filter saved, ch.Short) :
    ∃ free file, writeChanneldb (C := C) cfg none now random free channels = some file := by
  refine ⟨_, _, saveRecords_plain C now random (readable_channeldbRecords ?_) le_rfl⟩
  intro r hr
  obtain ⟨ch, hch, rfl⟩ := mem_map.mp hr
  exact readable_raw (hwf ch hch) (hshort ch hch)

/-- A server that takes every mask of at most 511 bytes as it is. -/
def plainEnv : Env where
  cfg := { server with cleanBanMask := fun _ _ _ mask => some (mask.take 511) }
  name := "irc".toList
  now := 1700000005

theorem cleanSpec_plainEnv : CleanSpec plainEnv.cfg := by
  refine ⟨fun l mask str h => ?_, fun l mask mask' h h' => ?_⟩
  · obtain rfl := Option.some.inj h
    exact length_take_le _ _
  · obtain rfl := Option.some.inj h
    have htake := Option.some.inj h'
    rw [take_take] at htake
    exact htake.symm

def banOn (nick : Char) : Ban := ⟨[nick, '!', '*', '@', '*'], "ann".toList, 1700000002⟩

def lobby (nicks : List Char) : Channel where
  name := "#irc".toList
  creationtime := 1700000000
  mode c := c = 'P' || c = 'l'
  params
    | .limit => some (50 : ℕ)
    | m => plainEnv.cfg.initialParam m
  lists
    | .ban => nicks.map banOn
    | _ => []
  members := []
  topic := some (text "News".toList)
  topicNick := some (text "ann".toList)
  topicTime := 1700000001
  modeLock := none
  registration := none

section Lobby

variable {nicks : List Char}

theorem lobby_loaded (c : Char) (hc : (lobby nicks).mode c = true) :
    ∃ cm ∈ plainEnv.cfg.channelmodes, cm.letter = c ∧ ∀ p r, cm.kind ≠ .member p r := by
  have hc' : c = 'P' ∨ c = 'l' := by simpa [lobby] using hc
  rcases hc' with rfl | rfl
  · exact ⟨⟨'P', .simple, false⟩, by decide, rfl, fun p r h => by cases h⟩
  · exact ⟨⟨'l', .param .limit, false⟩, by decide, rfl, fun p r h => by cases h⟩

theorem lobby_modesStorable : ModesStorable plainEnv.cfg (lobby nicks).toChannel := by
  have hletter : ∀ m : ParamMode, (lobby nicks).mode m.letter = decide (m = .limit) := by
    intro m
    cases m <;> rfl
  have hlimit : LimitValid 50 := ⟨by decide, by decide⟩
  refine ⟨fun m h => ?_, fun _ v hv => ?_, fun h => ?_⟩
  · rw [hletter, decide_eq_true_eq] at h
    subst h
    exact ⟨_, rfl, hlimit, by decide⟩
  · cases hv
  · cases h.1

theorem lobby_wellFormed (hnicks : IsText nicks) (hcount : nicks.length < 2 ^ 31) :
    (lobby nicks).WellFormed plainEnv.cfg := by
  have hname : "#irc".toList ≠ [] ∧ namebuf "#irc".toList = "#irc".toList := by decide
  have htime : InTime 1700000000 ∧ InTime 1700000002 := by unfold InTime; decide
  refine ⟨hname.1, hname.2, ?_, htime.1, ?_, ?_, ?_, lobby_loaded⟩
  · show IsText "#irc".toList
    exact forall_mem_of_all (by decide)
  · intro m v hv
    cases m with
    | limit =>
      obtain rfl := Option.some.inj hv
      exact forall_mem_of_all (by decide)
    | profile =>
      obtain rfl := Option.some.inj hv
      exact forall_mem_of_all (by decide)
    | key | link | history | flood => cases hv
  · intro l b hb
    cases l with
    | ban =>
      obtain ⟨nick, hnick, rfl⟩ := mem_map.mp hb
      refine ⟨forall_mem_cons.mpr ⟨hnicks nick hnick, forall_mem_of_all (by decide)⟩, ?_, htime.2⟩
      show IsText "ann".toList
      exact forall_mem_of_all (by decide)
    | except | invex => cases hb
  · intro l
    cases l with
    | ban => rwa [show (lobby nicks).lists .ban = nicks.map banOn from rfl, length_map]
    | except | invex => exact Nat.two_pow_pos 31

theorem lobby_short : (lobby nicks).Short := by
  refine ⟨?_, ?_, ?_, ?_, ?_⟩
  · rintro s ⟨⟩
    decide
  · rintro s ⟨⟩
    decide
  · rintro s ⟨⟩
  · rintro r ⟨⟩
  · intro l b hb
    cases l with
    | ban =>
      obtain ⟨nick, hnick, rfl⟩ := mem_map.mp hb
      exact ⟨Nat.le_of_ble_eq_true rfl, Nat.le_of_ble_eq_true rfl⟩
    | except | invex => cases hb

end Lobby

/-- A channel with one ban comes back. -/
theorem channels_readBack_one_ban :
    ∃ free file, writeChanneldb (C := nullCrypto) plainEnv.cfg none 5 zeroRandom free [lobby ['a']] =
        some file ∧
      ReadsBack [lobby ['a']] (readChanneldb (C := nullCrypto) plainEnv none file) := by
  have hwf : ∀ ch ∈ [lobby ['a']].filter saved, ch.WellFormed plainEnv.cfg := by
    exact forall_mem_singleton.mpr (lobby_wellFormed (forall_mem_of_all (by decide)) (by decide))
  have hstorable : (lobby ['a']).Storable plainEnv := by
    refine ⟨lobby_short, .inl (by decide), lobby_modesStorable, fun l => ?_, fun l b hb => ?_⟩
    · cases l <;> decide
    · cases l with
      | ban =>
        obtain rfl := mem_singleton.mp hb
        rfl
      | except | invex => cases hb
  obtain ⟨free, file, hwrite⟩ := exists_writeChanneldb nullCrypto 5 zeroRandom hwf
    (forall_mem_singleton.mpr lobby_short)
  refine ⟨free, file, hwrite, (channels_readBack_iff rfl hwrite hwf ?_ ?_ cleanSpec_plainEnv).mpr ?_⟩
  · decide
  · decide
  · exact forall_mem_singleton.mpr hstorable

/-- The two bans of a channel come back in the other order. -/
theorem bans_reversed :
    ∃ free file, writeChanneldb (C := nullCrypto) plainEnv.cfg none 5 zeroRandom free
        [lobby ['a', 'b']] = some file ∧
      (readChanneldb (C := nullCrypto) plainEnv none file).1.map (fun ch => ch.lists .ban) =
        [[banOn 'b', banOn 'a']] ∧
      ¬ReadsBack [lobby ['a', 'b']] (readChanneldb (C := nullCrypto) plainEnv none file) := by
  have hwf : ∀ ch ∈ [lobby ['a', 'b']].filter saved, ch.WellFormed plainEnv.cfg := by
    exact forall_mem_singleton.mpr (lobby_wellFormed (forall_mem_of_all (by decide)) (by decide))
  have hshort : ∀ ch ∈ [lobby ['a', 'b']].filter saved, ch.Short :=
    forall_mem_singleton.mpr lobby_short
  obtain ⟨free, file, hwrite⟩ := exists_writeChanneldb nullCrypto 5 zeroRandom hwf hshort
  have hread := readChanneldb_eq rfl hwrite hwf (by decide) (by decide) hshort
  have hlists : (readChanneldb (C := nullCrypto) plainEnv none file).1.map (fun ch => ch.lists .ban) =
      [[banOn 'b', banOn 'a']] := by
    rw [hread]
    decide +kernel
  refine ⟨free, file, hwrite, hlists, fun h => ?_⟩
  obtain ⟨ch', hch', hback⟩ := h.restored (lobby ['a', 'b']) mem_cons_self
  have hmem := mem_map_of_mem (f := fun ch : Channel => ch.lists .ban) hch'
  rw [hlists, hback.lists] at hmem
  exact absurd hmem (by decide)

end ObbyIRCd.Channeldb
