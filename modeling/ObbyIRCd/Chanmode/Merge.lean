import ObbyIRCd.Chanmode.Receive

/-!
# Two servers with the same timestamp

After a netsplit two servers with the same timestamp for a channel send each other their modes, and each
merges what it receives (`merge` in `cmd_sjoin`). First the value that one server has for a parameter
afterwards (`merged`), which is found from the two values by `sjoin_check`; then the modes and parameters
after the whole command (`cmdSjoin_merge`). The servers agree unless a parameter is resolved differently
on the two sides (`merge_agree_iff`). That happens for +f, where settings that differ in the period
count as the same and are exchanged; for +H above the limits of a channel that is not registered, where
what is received is lowered and what is there is not; and for +L with an empty text, which is sent as a
letter without a parameter. A channel that is -F has a flood profile too, the one it was made with, which
is not sent at all.
-/

namespace ObbyIRCd.Chanmode

open Function Option ChannelFloodProtection ParamMode Progress

variable {cfg : Config}

/-! ## One parameter -/

namespace ParamMode

def settle (m : ParamMode) (our their : m.Value) : m.Value :=
  match m.sjoinCheck our their with
  | .same | .theyWon => their
  | .weWon => our
  | .merge v => v

def merged (cfg : ParamConfig) (registered : Bool) (m : ParamMode) (our their : Option m.Value) :
    Option m.Value :=
  Keyed.combine m.settle our (their.map (m.received cfg registered))

/-- The two sides come to the same result. -/
def SymmetricCheck (m : ParamMode) (our their : m.Value) : Prop :=
  match m.sjoinCheck our their, m.sjoinCheck their our with
  | .same, .same => m.getParam our = m.getParam their
  | .weWon, .theyWon => True
  | .theyWon, .weWon => True
  | .merge x, .merge y => m.getParam x = m.getParam y
  | _, _ => False

end ParamMode

/-- What decides between two values on the two sides. -/
inductive Decided {α : Type} (x y : α) : SjoinCheck α → SjoinCheck α → Prop
  | same (h : x = y) : Decided x y .same .same
  | won : Decided x y .weWon .theyWon
  | lost : Decided x y .theyWon .weWon
  | merge (v : α) : Decided x y (.merge v) (.merge v)

theorem decided_of_order {α : Type} [LinearOrder α] [DecidableEq α] [DecidableLT α] (our their : α) :
    Decided our their
      (if our = their then .same else if their < our then .weWon else .theyWon : SjoinCheck α)
      (if their = our then .same else if our < their then .weWon else .theyWon) := by
  rcases lt_trichotomy our their with h | h | h
  · rw [if_neg h.ne, if_neg (lt_asymm h), if_neg h.ne', if_pos h]
    exact .lost
  · rw [if_pos h, if_pos h.symm]
    exact .same h
  · rw [if_neg h.ne', if_pos h, if_neg h.ne, if_neg (lt_asymm h)]
    exact .won

namespace ParamMode

variable {m : ParamMode}

theorem sjoinCheck_decided (hm : m ≠ .flood) (our their : m.Value) :
    Decided our their (m.sjoinCheck our their) (m.sjoinCheck their our) := by
  cases m with
  | key | link | profile => exact @decided_of_order (List Char) _ _ _ our their
  | flood => exact absurd rfl hm
  | limit => exact @decided_of_order ℕ _ _ _ our their
  | history =>
    unfold sjoinCheck
    dsimp only
    have hcomm : HistoryChanMode.merge our their = HistoryChanMode.merge their our := by
      unfold HistoryChanMode.merge
      rw [Nat.max_comm, Nat.max_comm (HistoryChanMode.maxTime our)]
    by_cases h : our = their
    · rw [if_pos h, if_pos h.symm]
      exact .same h
    · rw [if_neg h, if_neg fun h' => h h'.symm, hcomm]
      exact .merge _

theorem settle_comm (hm : m ≠ .flood) (our their : m.Value) :
    m.settle our their = m.settle their our ∧ m.SymmetricCheck our their := by
  unfold settle SymmetricCheck
  have h := sjoinCheck_decided hm our their
  generalize m.sjoinCheck our their = x at h
  generalize m.sjoinCheck their our = y at h
  cases h with
  | same h => exact ⟨h.symm, congrArg m.getParam h⟩
  | won | lost => exact ⟨rfl, trivial⟩
  | merge v => exact ⟨rfl, rfl⟩

end ParamMode

/-! ## The period of +f -/

variable (our : ChannelFloodProtection) (their : ChannelFloodProtection)

def FloodMergeable : Prop :=
  our.same their = true → our.per = their.per

theorem settle_flood :
    flood.settle our their = if our.same their then their else our.merge their := by
  unfold settle sjoinCheck
  dsimp only
  split_ifs <;> rfl

theorem eq_of_same {our their : ChannelFloodProtection} (hsame : our.same their = true)
    (hper : our.per = their.per) : our = their :=
  ext_row hper (same_iff.mp hsame)

theorem settle_flood_comm_iff :
    flood.settle our their = flood.settle their our ↔ FloodMergeable our their := by
  rw [settle_flood, settle_flood, their.same_comm our]
  split_ifs with h
  · exact ⟨fun heq _ => congrArg per heq.symm, fun hper => (eq_of_same h (hper h)).symm⟩
  · rw [merge_comm]
    exact ⟨fun _ hsame => absurd hsame h, fun _ => rfl⟩

theorem symmetricCheck_flood {own : List Char} {our their : ChannelFloodProtection}
    (hour : flood.Valid cfg.toParamConfig own our)
    (htheir : flood.Valid cfg.toParamConfig own their) :
    flood.SymmetricCheck our their ↔ FloodMergeable our their := by
  have hcheck : ∀ x y : ChannelFloodProtection, flood.sjoinCheck x y =
      if x.same y then .same else .merge (x.merge y) := fun x y => rfl
  unfold SymmetricCheck FloodMergeable
  rw [hcheck, hcheck, their.same_comm our]
  split_ifs with h
  · constructor
    · intro htext _
      exact congrArg per (flood.getParam_injective hour htheir htext)
    · intro hper
      exact congrArg flood.getParam (eq_of_same h (hper h))
  · rw [merge_comm]
    exact ⟨fun _ hsame => absurd hsame h, fun _ => rfl⟩

/-! ## The limits of +H -/

theorem settle_history (our their : HistoryChanMode) :
    history.settle our their = our.merge their := by
  unfold settle sjoinCheck
  dsimp only
  split_ifs with h
  · simp [h, HistoryChanMode.merge]
  · rfl

/-- Two settings of +H on a channel with limits are merged to the same. -/
def HistoryMergeable (limit : HistoryChanMode) : Option HistoryChanMode → Option HistoryChanMode → Prop
  | some our, some their =>
    (our.maxLines = their.maxLines ∨
      our.maxLines ≤ limit.maxLines ∧ their.maxLines ≤ limit.maxLines) ∧
    (our.maxTime = their.maxTime ∨ our.maxTime ≤ limit.maxTime ∧ their.maxTime ≤ limit.maxTime)
  | some our, none => our.Within limit
  | none, some their => their.Within limit
  | none, none => True

theorem max_min_eq_iff (a b limit : ℕ) :
    max a (min b limit) = max b (min a limit) ↔ a = b ∨ a ≤ limit ∧ b ≤ limit := by
  omega

theorem merged_history_comm_iff (cfg : ParamConfig) (registered : Bool)
    (our their : Option HistoryChanMode) :
    history.merged cfg registered our their = history.merged cfg registered their our ↔
      HistoryMergeable (cfg.historyLimit registered) our their := by
  rcases our with - | our <;> rcases their with - | their
  · exact iff_of_true rfl trivial
  · show some (their.cap _) = some their ↔ _
    rw [some_inj, cap_eq_iff]
    rfl
  · show some our = some (our.cap _) ↔ _
    rw [some_inj, eq_comm, cap_eq_iff]
    rfl
  · show some (history.settle our (their.cap _)) = some (history.settle their (our.cap _)) ↔ _
    rw [some_inj, settle_history, settle_history]
    rw [HistoryChanMode.mk.injEq]
    exact and_congr (max_min_eq_iff _ _ _) (max_min_eq_iff _ _ _)

variable {m : ParamMode}

theorem merged_of_ne (hm : m ≠ .history) (cfg : ParamConfig) (registered : Bool)
    (our their : Option m.Value) :
    m.merged cfg registered our their = Keyed.combine m.settle our their := by
  unfold merged
  rw [funext (received_of_ne hm cfg registered), map_id']

/-! ## Valid values -/

theorem HistoryChanMode.Valid.merge {our their : HistoryChanMode} (hour : our.Valid)
    (htheir : their.Valid) : (our.merge their).Valid where
  lines_pos := Nat.le_trans hour.lines_pos (Nat.le_max_left _ _)
  lines_lt := Nat.max_lt.mpr ⟨hour.lines_lt, htheir.lines_lt⟩
  time_pos := Nat.le_trans hour.time_pos (Nat.le_max_left _ _)
  time_lt := Nat.max_lt.mpr ⟨hour.time_lt, htheir.time_lt⟩
  minutes := by
    show 60 ∣ max our.maxTime their.maxTime
    rcases max_choice our.maxTime their.maxTime with h | h <;> rw [h]
    exacts [hour.minutes, htheir.minutes]

theorem settle_choice (hflood : m ≠ .flood) (hhistory : m ≠ .history)
    (our their : m.Value) : m.settle our their = our ∨ m.settle our their = their := by
  have hcheck : ∀ v, m.sjoinCheck our their ≠ .merge v := by
    cases m with
    | flood => exact absurd rfl hflood
    | history => exact absurd rfl hhistory
    | _ =>
      intro v h
      simp only [sjoinCheck, strcmpCheck] at h
      split_ifs at h
  unfold settle
  cases h : m.sjoinCheck our their with
  | merge v => exact absurd h (hcheck v)
  | _ => simp

theorem settle_valid {own : List Char} (m : ParamMode) {our their : m.Value}
    (hour : m.Valid cfg.toParamConfig own our) (htheir : m.Valid cfg.toParamConfig own their) :
    m.Valid cfg.toParamConfig own (m.settle our their) := by
  cases m with
  | flood =>
    rw [settle_flood]
    split
    · exact htheir
    · exact Valid.merge hour htheir
  | history =>
    rw [settle_history]
    exact ⟨hour.1.merge htheir.1, Nat.max_le.mpr ⟨hour.2.1, htheir.2.1⟩,
      Nat.max_le.mpr ⟨hour.2.2, htheir.2.2⟩⟩
  | _ =>
    rcases settle_choice (by decide) (by decide) our their with h | h <;> rw [h]
    exacts [hour, htheir]

/-! ## The parameters after the merge -/

/-- The parameter of a mode that is set. -/
def Channel.shown (ch : Channel) (m : ParamMode) : Option m.Value :=
  if ch.mode m.letter then ch.params m else none

theorem shown_of_set {ch : Channel} (h : ch.mode m.letter = true) : ch.shown m = ch.params m := if_pos h

theorem shown_of_unset {ch : Channel} (h : ch.mode m.letter = false) : ch.shown m = none :=
  if_neg (by simp [h])

theorem shown_eq_some {ch : Channel} {v : m.Value} :
    ch.shown m = some v ↔ ch.mode m.letter = true ∧ ch.params m = some v := by
  unfold Channel.shown
  split <;> simp [*]

theorem Channel.Valid.shown_eq {ch : Channel} (hch : ch.Valid cfg) (hm : m ≠ .profile) :
    ch.shown m = ch.params m := by
  rcases hmode : ch.mode m.letter with - | -
  · rw [shown_of_unset hmode, hch.unset m hm hmode]
  · exact shown_of_set hmode

def ParamMode.settled (m : ParamMode) : Option m.Value → Option m.Value → Option m.Value
  | some our, some their => some (m.settle our their)
  | _, their => their

variable {old : Channel} {st : Progress} {cm : Cmode}

theorem mergeParam_of_simple (hkind : ∀ m, cm.kind ≠ .param m) : mergeParam cfg old st cm = st := by
  unfold mergeParam
  split
  · rename_i m h
    exact absurd h (hkind m)
  · rfl

/-- What one mode of the loop leaves: the modes, and all parameters but its own. -/
structure Settles (cfg : Config) (old : Channel) (letters : List Char) (before after : Channel) : Prop where
  mode : after.mode = before.mode
  valid : after.Valid cfg
  name : after.name = old.name
  params : ∀ m : ParamMode, after.params m =
    if m.letter ∈ letters then m.settled (old.shown m) (before.params m) else before.params m

theorem Channel.Valid.settled {ch : Channel} (hch : ch.Valid cfg) (hold : old.Valid cfg)
    (hname : ch.name = old.name) {letters : List Char} {params : (m : ParamMode) → Option m.Value}
    (hparams : ∀ m : ParamMode, params m =
      if m.letter ∈ letters then m.settled (old.shown m) (ch.params m) else ch.params m) :
    { ch with params := params }.Valid cfg := by
  refine ⟨fun m hmode => ?_, fun m hne hmode => ?_, hch.loaded⟩
  · obtain ⟨their, htheir, htheirv⟩ := hch.set m hmode
    show ∃ v, params m = some v ∧ _
    rw [hparams m, htheir]
    split
    · rcases hmode' : old.mode m.letter with - | -
      · rw [shown_of_unset hmode']
        exact ⟨their, rfl, htheirv⟩
      · obtain ⟨our, hour, hourv⟩ := hold.set m hmode'
        rw [shown_of_set hmode', hour]
        exact ⟨_, rfl, settle_valid m (hname ▸ hourv) htheirv⟩
    · exact ⟨their, rfl, htheirv⟩
  · show params m = none
    rw [hparams m, hch.unset m hne hmode]
    split
    · cases old.shown m <;> rfl
    · rfl

section

variable (hold : old.Valid cfg) (hst : st.channel.Valid cfg) (hname : st.channel.name = old.name)
  (hkeep : ∀ m : ParamMode, old.mode m.letter = true → st.channel.mode m.letter = true)
  (hcm : cm ∈ cfg.channelmodes)
include hold hst hname hkeep hcm

/-- A parameter that both have is settled, and no other mode or parameter is touched. -/
theorem mergeParam_channel (hkind : cm.kind = .param m) :
    (mergeParam cfg old st cm).channel = { st.channel with
        params := Function.update st.channel.params m
          (m.settled (old.shown m) (st.channel.params m)) } := by
  have hletter := (letter_of_param (mem_channelmodes.mp hcm).1 hkind).1
  have hself : ∀ v, st.channel.params m = v → st.channel =
      { st.channel with params := update st.channel.params m v } := by
    rintro v rfl
    rw [update_eq_self]
  unfold mergeParam
  rw [hkind, hletter]
  dsimp only
  by_cases hboth : old.mode m.letter = true ∧ st.channel.mode m.letter = true
  · obtain ⟨our, hour, hourv⟩ := hold.set m hboth.1
    obtain ⟨their, htheir, htheirv⟩ := hst.set m hboth.2
    rw [← hname] at hourv
    have hvalid := settle_valid m hourv htheirv
    have hsettled : m.settled (some our) (some their) = some (m.settle our their) := rfl
    have hsettle : m.settle our their = match m.sjoinCheck our their with
      | .same | .theyWon => their
      | .weWon => our
      | .merge v => v := rfl
    rw [if_pos hboth, shown_of_set hboth.1, hour, htheir, hsettled]
    dsimp only
    rcases hcheck : m.sjoinCheck our their with - | - | - | v <;> rw [hcheck] at hsettle
    · rw [hsettle]
      exact hself _ htheir
    · rw [hsettle]
      exact putParameter_getParam hourv
    · rw [hsettle, addit_channel]
      exact hself _ htheir
    · rw [hsettle] at hvalid ⊢
      rw [addit_channel]
      exact putParameter_getParam hvalid
  · rw [if_neg hboth]
    -- a mode that we had is still set
    have hmode : old.mode m.letter = false :=
      Bool.eq_false_iff.mpr fun h => hboth ⟨h, hkeep m h⟩
    rw [shown_of_unset hmode]
    exact hself _ rfl

theorem settles_mergeParam :
    Settles cfg old [cm.letter] st.channel (mergeParam cfg old st cm).channel := by
  have hmem := (mem_channelmodes.mp hcm).1
  by_cases hkind : ∃ m, cm.kind = .param m
  · obtain ⟨m, hkind⟩ := hkind
    obtain ⟨hletter, -⟩ := letter_of_param hmem hkind
    rw [mergeParam_channel hold hst hname hkeep hcm hkind, hletter]
    have hparams : ∀ m' : ParamMode, update st.channel.params m
        (m.settled (old.shown m) (st.channel.params m)) m' = if m'.letter ∈ [m.letter] then
          m'.settled (old.shown m') (st.channel.params m') else st.channel.params m' := by
      intro m'
      by_cases hm : m' = m
      · subst hm
        rw [update_self, if_pos List.mem_cons_self]
      · have hnotin : m'.letter ∉ [m.letter] := fun h => hm (letter_injective (List.mem_singleton.mp h))
        rw [update_of_ne hm, if_neg hnotin]
    exact ⟨rfl, hst.settled hold hname hparams, hname, hparams⟩
  · have hsimple : ∀ m, cm.kind ≠ .param m := fun m h => hkind ⟨m, h⟩
    rw [mergeParam_of_simple hsimple]
    refine ⟨rfl, hst, hname, fun m => (if_neg fun h => ?_).symm⟩
    exact hsimple m (kind_of_letter hmem (List.mem_singleton.mp h).symm)

end

theorem settles_foldl_mergeParam (hold : old.Valid cfg) (l : List Cmode)
    (hl : ∀ cm ∈ l, cm ∈ cfg.channelmodes) (hnodup : (l.map Cmode.letter).Nodup)
    (hst : st.channel.Valid cfg) (hname : st.channel.name = old.name)
    (hkeep : ∀ m : ParamMode, old.mode m.letter = true → st.channel.mode m.letter = true) :
    Settles cfg old (l.map Cmode.letter) st.channel (l.foldl (mergeParam cfg old) st).channel := by
  induction l generalizing st with
  | nil => exact ⟨rfl, hst, hname, fun m => rfl⟩
  | cons cm l ih =>
    obtain ⟨hnotin, hnodup'⟩ := List.nodup_cons.mp hnodup
    have hstep := settles_mergeParam hold hst hname hkeep (hl cm List.mem_cons_self)
    have hrest := ih (fun cm' h => hl cm' (List.mem_cons_of_mem cm h)) hnodup' hstep.valid hstep.name
      (hstep.mode ▸ hkeep)
    refine ⟨hrest.mode.trans hstep.mode, hrest.valid, hrest.name, fun m => ?_⟩
    rw [List.foldl_cons, hrest.params m, hstep.params m]
    by_cases hm : m.letter = cm.letter
    · rw [if_neg (hm ▸ hnotin), if_pos (by simp [hm]), if_pos (by simp [hm])]
    · simp [hm]

theorem settle_self (m : ParamMode) (v : m.Value) : m.settle v v = v := by
  cases m with
  | flood =>
    rw [settle_flood]
    exact if_pos (same_iff.mpr fun i => rfl)
  | history =>
    rw [settle_history]
    show HistoryChanMode.mk _ _ = _
    rw [Nat.max_self, Nat.max_self]
  | _ => rcases settle_choice (by decide) (by decide) v v with h | h <;> exact h

/-! ## The merge branch -/

theorem foldl_channel {α : Type} (f : Progress → α → Progress)
    (hf : ∀ st a, (f st a).channel = st.channel) (l : List α) (st : Progress) :
    (l.foldl f st).channel = st.channel := by
  induction l generalizing st with
  | nil => rfl
  | cons a l ih => rw [List.foldl_cons, ih, hf]

theorem mergeGone_channel (old : Channel) (st : Progress) (cm : Cmode) :
    (mergeGone old st cm).channel = st.channel := by
  unfold mergeGone
  repeat' split
  all_goals first | rfl | rw [addit_channel]

theorem mergeNew_channel (old : Channel) (st : Progress) (cm : Cmode) :
    (mergeNew old st cm).channel = st.channel := by
  unfold mergeNew
  repeat' split
  all_goals first | rfl | rw [addit_channel]

/-- The modes of a channel after the merge, up to the local ones. -/
def mergedMode (our their : Channel) (c : Char) : Bool :=
  if c = 'p' then (our.mode 'p' || their.mode 'p') && !(our.mode 's' || their.mode 's')
  else our.mode c || (their.mode c && !localLetter c)

/-- A channel has what is merged from two others. Without +F on either side our flood profile stays. -/
structure Merges (cfg : ParamConfig) (our their ch : Channel) : Prop where
  mode : ∀ c, ch.mode c = mergedMode our their c
  params : ∀ m, ch.params m =
    if our.mode m.letter ∨ their.mode m.letter then
      m.merged cfg (our.mode 'r' || their.mode 'r') (our.shown m) (their.shown m)
    else our.params m

variable {our their : Channel}

theorem staySecret_mode (htheir : their.Valid cfg) (c : Char) :
    (staySecret our (our.receiveAll cfg their)).mode c = mergedMode our their c := by
  obtain ⟨hprivate, hsecret⟩ := receiveAll_mode_secrecy htheir our
  unfold staySecret mergedMode
  rcases eq_or_ne c 'p' with rfl | hp
  · split_ifs with h <;> grind
  rcases eq_or_ne c 's' with rfl | hs
  · have hlocal : localLetter 's' = false := by decide
    split_ifs with h <;> grind
  · have hmode := receiveAll_mode htheir our hs hp
    split_ifs <;> simp [hp, hs, hmode]

theorem settled_receiveAll (htheir : their.Valid cfg) (m : ParamMode) :
    m.settled (our.shown m) ((our.receiveAll cfg their).params m) =
      if our.mode m.letter ∨ their.mode m.letter then
        m.merged cfg.toParamConfig (our.mode 'r' || their.mode 'r') (our.shown m) (their.shown m)
      else our.params m := by
  rw [receiveAll_params htheir]
  by_cases htheirs : their.mode m.letter = true
  · obtain ⟨v, hv, -⟩ := htheir.set m htheirs
    rw [if_pos htheirs, if_pos (.inr htheirs), shown_of_set htheirs, hv]
    cases our.shown m <;> rfl
  rw [if_neg htheirs]
  by_cases hours : our.mode m.letter = true
  · rw [if_pos (.inl hours), shown_of_set hours, shown_of_unset (by simpa using htheirs)]
    rcases our.params m with - | v
    · rfl
    · exact congrArg some (settle_self m v)
  · rw [if_neg (not_or.mpr ⟨hours, htheirs⟩), shown_of_unset (by simpa using hours)]
    rfl

section MergeBranch

variable {our their : Channel} (hour : our.Valid cfg) (htheir : their.Valid cfg)
  (hname : their.name = our.name)
include hour htheir hname

theorem staySecret_valid : (staySecret our (our.receiveAll cfg their)).Valid cfg ∧
    (staySecret our (our.receiveAll cfg their)).name = our.name ∧
    (staySecret our (our.receiveAll cfg their)).params = (our.receiveAll cfg their).params := by
  obtain ⟨hvalid, hname'⟩ := receiveAll_valid htheir our hour hname
  unfold staySecret
  split
  · rename_i hsecret
    refine ⟨⟨fun m hmode => hvalid.set m ?_, fun m hne hmode => hvalid.unset m hne ?_, fun c hc => ?_⟩,
      hname', rfl⟩
    any_goals cases m <;> exact hmode
    · by_cases hs : c = 's'
      · subst hs
        exact hour.loaded 's' hsecret.1
      · by_cases hp : c = 'p'
        · simp [hp] at hc
        · exact hvalid.loaded c (by simpa [hs, hp] using hc)
  · exact ⟨hvalid, hname', rfl⟩

theorem mergeModes_channel (link : Link) {st : Progress} (hst : st.channel = our) :
    Merges cfg.toParamConfig our their.told
      (mergeModes cfg link (channelModes cfg their).1 (channelModes cfg their).2 st).channel := by
  have hsetMode := setMode_channelModes link htheir hour hname
  have htold := htheir.told
  have hnametold := (told_name their).trans hname
  generalize their.told = told at htold hnametold hsetMode ⊢
  obtain ⟨hvalid, hname', hparams⟩ := staySecret_valid hour htold hnametold
  have hmode := @staySecret_mode cfg our _ htold
  have hkeep : ∀ m : ParamMode, our.mode m.letter = true →
      (staySecret our (our.receiveAll cfg told)).mode m.letter = true := by
    intro m hset
    rw [hmode]
    cases m <;> exact Bool.or_eq_true_iff.mpr (.inl hset)
  unfold mergeModes
  rw [hst]
  dsimp only
  rw [hsetMode]
  generalize hst₁ : cfg.channelmodes.foldl (mergeGone our) _ = st₁
  have hch₁ : st₁.channel = staySecret our (our.receiveAll cfg told) := by
    rw [← hst₁, foldl_channel _ (mergeGone_channel our)]
    rfl
  generalize hst₂ : (if 1 < st₁.buf.modes.length then st₁.addsingle '+' else st₁.reset '+') = st₂
  have hch₂ : st₂.channel = staySecret our (our.receiveAll cfg told) := by
    rw [← hst₂, ← hch₁]
    split <;> rfl
  generalize hst₃ : cfg.channelmodes.foldl (mergeNew our) st₂ = st₃
  have hch₃ : st₃.channel = staySecret our (our.receiveAll cfg told) := by
    rw [← hst₃, foldl_channel _ (mergeNew_channel our), hch₂]
  have hsettles := settles_foldl_mergeParam hour cfg.channelmodes (fun cm h => h)
    (channelmodes_nodup cfg) (hch₃ ▸ hvalid) (hch₃ ▸ hname') (hch₃ ▸ hkeep)
  rw [flush_channel]
  constructor
  · intro c
    rw [hsettles.mode, hch₃, hmode]
  · intro m
    rw [hsettles.params m, hch₃, hparams, ← settled_receiveAll htold]
    split
    · rfl
    -- a mode that is not loaded is not set
    rename_i hnotin
    have hunset : our.mode m.letter = false := by
      refine Bool.eq_false_iff.mpr fun hset => hnotin ?_
      obtain ⟨cm, hcm, hletter, -⟩ := hour.loaded _ hset
      exact hletter ▸ List.mem_map_of_mem hcm
    rw [shown_of_unset hunset]
    rfl

end MergeBranch

/-! ## The command -/

/-- What the items of an `SJOIN` leave alone. -/
structure SameModes (a b : Channel) : Prop where
  name : b.name = a.name
  creationtime : b.creationtime = a.creationtime
  mode : b.mode = a.mode
  params : b.params = a.params

theorem SameModes.refl (a : Channel) : SameModes a a := ⟨rfl, rfl, rfl, rfl⟩

theorem SameModes.trans {a b c : Channel} (hab : SameModes a b) (hbc : SameModes b c) : SameModes a c :=
  ⟨hbc.name.trans hab.name, hbc.creationtime.trans hab.creationtime, hbc.mode.trans hab.mode,
    hbc.params.trans hab.params⟩

variable {a b : Channel}

theorem SameModes.valid (h : SameModes a b) (ha : a.Valid cfg) : b.Valid cfg :=
  ha.congr h.name h.mode h.params

variable (link : Link) (removetheirs : Bool)

theorem sjoinUser_sameModes (item : Item) (st : Progress) :
    SameModes st.channel (sjoinUser cfg link removetheirs item st).channel := by
  unfold sjoinUser
  split
  · exact .refl _
  split
  · exact .refl _
  rw [foldl_channel _ fun st c => addit_channel st c _]
  split
  · exact .refl _
  · exact ⟨rfl, rfl, rfl, rfl⟩

theorem sjoinListEntry_sameModes (item : Item) (st : Progress) :
    SameModes st.channel (sjoinListEntry cfg removetheirs item st).channel := by
  unfold sjoinListEntry
  split
  · exact .refl _
  split
  · exact .refl _
  split
  · exact .refl _
  dsimp only
  split
  · rw [addit_channel]
    exact ⟨rfl, rfl, rfl, rfl⟩
  · exact ⟨rfl, rfl, rfl, rfl⟩

theorem sjoinItem_sameModes (st : Progress) (s : List Char) :
    SameModes st.channel (sjoinItem cfg link removetheirs st s).channel := by
  unfold sjoinItem
  split
  · exact .refl _
  · split
    · exact sjoinListEntry_sameModes removetheirs _ st
    · exact sjoinUser_sameModes link removetheirs _ st

theorem foldl_sjoinItem_sameModes (l : List (List Char)) (st : Progress) :
    SameModes st.channel (l.foldl (sjoinItem cfg link removetheirs) st).channel := by
  induction l generalizing st with
  | nil => exact .refl _
  | cons s l ih => exact (sjoinItem_sameModes link removetheirs st s).trans (ih _)

/-- The `SJOIN` of another server for a channel with the same timestamp. -/
def mergeLine (cfg : Config) (their : Channel) (items : List Char) : SjoinLine :=
  ⟨their.creationtime, some (channelModes cfg their), items⟩

/-- The whole command merges what the line tells about the other channel. -/
theorem cmdSjoin_merge (hour : our.Valid cfg) (htheir : their.Valid cfg) (hname : their.name = our.name)
    (hts : their.creationtime = our.creationtime) (items : List Char) :
    Merges cfg.toParamConfig our their.told
      (cmdSjoin cfg link our.name (mergeLine cfg their items) (some our)).1 := by
  have heffective : effectiveTs our their.creationtime = our.creationtime := by
    unfold effectiveTs
    rw [hts, ite_self]
  have hverdict : verdict our our.creationtime = .merge := by
    unfold verdict
    rw [if_neg (lt_irrefl _), if_neg (lt_irrefl _)]
  unfold cmdSjoin mergeLine
  dsimp only
  rw [heffective, hverdict, min_self]
  unfold sjoinWith
  dsimp only
  generalize hst : flush _ = st
  have hsame : SameModes our st.channel := by
    rw [← hst, flush_channel]
    exact foldl_sjoinItem_sameModes link _ _ (reset ⟨our, ⟨[], []⟩, []⟩ '+')
  obtain ⟨hmode, hparams⟩ :=
    mergeModes_channel (hsame.valid hour) htheir (hname.trans hsame.name.symm) link rfl
  constructor
  · intro c
    rw [hmode c]
    unfold mergedMode
    rw [hsame.mode]
  · intro m
    rw [hparams m]
    unfold Channel.shown
    rw [hsame.mode, hsame.params]

/-! ## Agreement -/

/-- Two servers hold the same modes, but for the local ones, and the same parameters. -/
structure Agree (a b : Channel) : Prop where
  mode : ∀ c, localLetter c = false → a.mode c = b.mode c
  param : ∀ m, a.getParameter m = b.getParameter m

/-- An empty +L does not reach a server that is -L. -/
def LinkMergeable : Option (List Char) → Option (List Char) → Prop
  | some s, none | none, some s => s ≠ []
  | _, _ => True

/-- The values of two channels can be merged to the same. -/
structure Mergeable (cfg : Config) (a b : Channel) : Prop where
  /-- Settings of +f that count as the same have the same period. -/
  flood : ∀ x ∈ a.params .flood, ∀ y ∈ b.params .flood, FloodMergeable x y
  history : HistoryMergeable (cfg.historyLimit (a.mode 'r' || b.mode 'r')) (a.params .history)
    (b.params .history)
  link : LinkMergeable (a.params .link) (b.params .link)
  /-- Nobody is told the flood profile of a channel that is -F. -/
  profile : a.mode 'F' = false → b.mode 'F' = false → a.params .profile = b.params .profile

theorem Channel.Valid.param {ch : Channel} (hch : ch.Valid cfg) (hm : m ≠ .profile) {v : m.Value}
    (hv : ch.params m = some v) : m.Valid cfg.toParamConfig ch.name v := by
  rcases hmode : ch.mode m.letter with - | -
  · rw [hch.unset m hm hmode] at hv
    exact absurd hv (some_ne_none v).symm
  · obtain ⟨w, hw, hwv⟩ := hch.set m hmode
    rw [hw] at hv
    exact some.inj hv ▸ hwv

theorem Merges.params_of_ne {ch : Channel} (h : Merges cfg.toParamConfig our their ch)
    (hour : our.Valid cfg) (htheir : their.Valid cfg) (hm : m ≠ .profile) :
    ch.params m =
      m.merged cfg.toParamConfig (our.mode 'r' || their.mode 'r') (our.params m) (their.params m) := by
  rw [h.params m, hour.shown_eq hm, htheir.shown_eq hm]
  split
  · rfl
  · rename_i hneither
    obtain ⟨hours, htheirs⟩ := not_or.mp hneither
    rw [hour.unset m hm (by simpa using hours), htheir.unset m hm (by simpa using htheirs)]
    rfl

theorem merged_valid (ha : a.Valid cfg) (hb : b.Valid cfg) (hname : a.name = b.name)
    (registered : Bool) (hm : m ≠ .profile) :
    ∀ v ∈ m.merged cfg.toParamConfig registered (a.params m) (b.params m),
      m.Valid cfg.toParamConfig a.name v := by
  rcases hx : a.params m with - | x <;> rcases hy : b.params m with - | y
  · exact fun v hv => absurd hv (not_mem_none v)
  · rintro v ⟨⟩
    exact m.received_valid (hname ▸ hb.param hm hy) registered
  · rintro v ⟨⟩
    exact ha.param hm hx
  · rintro v ⟨⟩
    exact settle_valid m (ha.param hm hx) (m.received_valid (hname ▸ hb.param hm hy) registered)

/-- Two flood settings merge alike on both sides if they are mergeable. -/
theorem merged_flood_comm_iff (cfg : ParamConfig) (registered : Bool)
    (a b : Option ChannelFloodProtection) :
    flood.merged cfg registered a b = flood.merged cfg registered b a ↔
      ∀ x ∈ a, ∀ y ∈ b, FloodMergeable x y := by
  rw [merged_of_ne (by decide), merged_of_ne (by decide), Keyed.combine_comm_iff]
  constructor
  · exact fun h x hx y hy => (settle_flood_comm_iff x y).mp (h x hx y hy)
  · exact fun h x hx y hy => (settle_flood_comm_iff x y).mpr (h x hx y hy)

theorem map_getParam_inj {own : List Char} {x y : Option m.Value}
    (hx : ∀ v ∈ x, m.Valid cfg.toParamConfig own v) (hy : ∀ v ∈ y, m.Valid cfg.toParamConfig own v) :
    x.map m.getParam = y.map m.getParam ↔ x = y := by
  refine ⟨fun h => ?_, congrArg _⟩
  rcases x with - | x <;> rcases y with - | y
  · rfl
  · cases h
  · cases h
  · exact congrArg some (m.getParam_injective (hx x rfl) (hy y rfl) (some.inj h))

/-- Nothing is before the empty text. -/
theorem settle_link_nil (their : List Char) : ParamMode.link.settle [] their = their := by
  have hlt : ¬their < [] := List.not_lt_nil their
  unfold settle sjoinCheck strcmpCheck
  dsimp only
  split_ifs <;> rfl

/-- An empty +L is kept where it is and told nobody, and any other one is stronger. -/
theorem combine_link_comm_iff (x y : Option (List Char)) :
    Keyed.combine ParamMode.link.settle x (y.filter (· ≠ [])) =
      Keyed.combine ParamMode.link.settle y (x.filter (· ≠ [])) ↔ LinkMergeable x y := by
  have hempty : (some ([] : List Char)).filter (· ≠ []) = none := rfl
  have hfilter : ∀ s : List Char, s ≠ [] → (some s).filter (· ≠ []) = some s := fun s hs => by simp [hs]
  rcases x with - | s <;> rcases y with - | t
  · exact iff_of_true rfl trivial
  · by_cases ht : t = []
    · subst ht
      exact iff_of_false (some_ne_none ([] : List Char)).symm fun h => h rfl
    · rw [hfilter t ht]
      exact iff_of_true rfl ht
  · by_cases hs : s = []
    · subst hs
      exact iff_of_false (some_ne_none ([] : List Char)) fun h => h rfl
    · rw [hfilter s hs]
      exact iff_of_true rfl hs
  · refine iff_of_true ?_ trivial
    by_cases hs : s = [] <;> by_cases ht : t = []
    · rw [hs, ht]
    · rw [hs, hempty, hfilter t ht]
      exact congrArg some (settle_link_nil t)
    · rw [ht, hempty, hfilter s hs]
      exact congrArg some (settle_link_nil s).symm
    · rw [hfilter s hs, hfilter t ht]
      exact congrArg some (settle_comm (m := .link) (by decide) s t).1

theorem Channel.Valid.mode_link {ch : Channel} (hch : ch.Valid cfg) :
    ch.mode 'L' = (ch.params .link).isSome := by
  rcases hmode : ch.mode 'L' with - | -
  · rw [hch.unset .link (by decide) hmode]
    rfl
  · obtain ⟨v, hv, -⟩ := hch.set .link hmode
    rw [hv]
    rfl

section Told

variable {a b : Channel}

theorem told_mode_of_ne {c : Char} (hc : c ≠ 'L') (ch : Channel) : ch.told.mode c = ch.mode c := by
  have hletter : decide (c = ParamMode.link.letter) = false := decide_eq_false hc
  rw [told_mode, hletter, Bool.false_and, Bool.not_false, Bool.and_true]

/-- The modes of both sides are the same if +L is. -/
theorem mergedMode_comm (ha : a.Valid cfg) (hb : b.Valid cfg)
    (hlink : LinkMergeable (a.params .link) (b.params .link)) {c : Char} (hc : localLetter c = false) :
    mergedMode a b.told c = mergedMode b a.told c := by
  unfold mergedMode
  rw [hc, Bool.not_false, Bool.and_true, Bool.and_true]
  split
  · have hprivate : 'p' ≠ 'L' := by decide
    have hsecret : 's' ≠ 'L' := by decide
    rw [told_mode_of_ne hprivate, told_mode_of_ne hprivate, told_mode_of_ne hsecret,
      told_mode_of_ne hsecret, Bool.or_comm (a.mode 'p'), Bool.or_comm (a.mode 's')]
  by_cases hL : c = 'L'
  · subst hL
    have hcomb := congrArg isSome ((combine_link_comm_iff _ _).mpr hlink)
    rw [ha.mode_link, hb.mode_link, ha.told.mode_link, hb.told.mode_link, told_params_link,
      told_params_link]
    revert hcomb
    rcases a.params .link with - | s <;> rcases b.params .link with - | t <;> intro hcomb
    · rfl
    · rcases ht : (some t).filter (· ≠ []) with - | t' <;> rw [ht] at hcomb
      · exact absurd hcomb Bool.false_ne_true
      · rfl
    · rcases hs : (some s).filter (· ≠ []) with - | s' <;> rw [hs] at hcomb
      · exact absurd hcomb.symm Bool.false_ne_true
      · rfl
    · rfl
  · rw [told_mode_of_ne hL, told_mode_of_ne hL, Bool.or_comm]

/-- The flood profiles of both sides are the same if one is +F, or if they were. -/
theorem Merges.profile_comm_iff {chA chB : Channel} (hA : Merges cfg.toParamConfig a b.told chA)
    (hB : Merges cfg.toParamConfig b a.told chB) :
    chA.getParameter .profile = chB.getParameter .profile ↔
      (a.mode 'F' = false → b.mode 'F' = false → a.params .profile = b.params .profile) := by
  have htext : ∀ ch : Channel, ch.getParameter .profile = ch.params .profile := by
    intro ch
    unfold Channel.getParameter
    cases ch.params .profile <;> rfl
  have hF : 'F' ≠ 'L' := by decide
  have hletter : ParamMode.profile.letter = 'F' := rfl
  have hshown : ∀ ch : Channel, ch.told.shown .profile = ch.shown .profile := by
    intro ch
    unfold Channel.shown
    rw [told_params_of_ne (by decide), hletter, told_mode_of_ne hF]
  rw [htext, htext, hA.params, hB.params, hshown, hshown, hletter, told_mode_of_ne hF,
    told_mode_of_ne hF]
  by_cases hset : a.mode 'F' = true ∨ b.mode 'F' = true
  · rw [if_pos hset, if_pos hset.symm, merged_of_ne (by decide), merged_of_ne (by decide),
      Keyed.combine_comm_iff]
    refine iff_of_true (fun x _ y _ => (settle_comm (m := .profile) (by decide) x y).1) fun ha hb => ?_
    simp [ha, hb] at hset
  · rw [if_neg hset, if_neg fun h => hset h.symm]
    simp only [not_or, Bool.not_eq_true] at hset
    exact ⟨fun h _ _ => h, fun h => h hset.1 hset.2⟩

end Told

/-- A server with all modules, and the limits for +H and the flood profiles that are the default. -/
def server : Config where
  registered := ⟨5000, 2678400⟩
  unregistered := ⟨200, 2678400⟩
  registered_valid := ⟨by decide, by decide, by decide, by decide, by decide⟩
  unregistered_valid := ⟨by decide, by decide, by decide, by decide, by decide⟩
  flood := ⟨0, 60, true⟩
  profiles := ["off".toList, "very-relaxed".toList, "relaxed".toList, "normal".toList,
    "strict".toList, "very-strict".toList]
  profiles_valid := by simp
  defaultProfile := some "normal".toList
  channelchars _ := true
  loaded _ := true
  cleanBanMask _ _ _ mask := some mask
  findUser := some
  maxbans := 200

def neighbour : Link where
  name := "hub".toList
  time := 0
  sjsby := true
  findUser := some
  behind _ := true
  insecure _ := false
  unknownParacount _ _ := 0

/-- A number of lines within a number of seconds. -/
def textFlood (lines per : ℕ) : ChannelFloodProtection :=
  ⟨per, fun i => if i = .text then lines else 0, fun _ => '\x00', fun _ => 0⟩

def floodChannel (lines per : ℕ) : Channel where
  name := "#irc".toList
  creationtime := 1700000000
  mode c := c = 'f'
  params
    | .flood => some (textFlood lines per)
    | m => server.initialParam m
  lists _ := []
  members := []

theorem floodChannel_valid {lines per : ℕ} (hlines : 1 ≤ lines ∧ lines ≤ 999)
    (hper : 1 ≤ per ∧ per < 2 ^ 15) : (floodChannel lines per).Valid server := by
  have htext : ∀ f ∈ floodtypes, f.index = .text → '\x00' ∈ f.defaultAction :: f.actions := by decide
  have hmode : ∀ m : ParamMode, decide (m.letter = 'f') = true ↔ m = .flood := by
    intro m
    cases m <;> decide
  have hvalid : (textFlood lines per).Valid server.flood := by
    refine ⟨hper.1, hper.2, fun i => ?_, fun i _ => ⟨rfl, rfl⟩, fun f hf hlimit => htext f hf ?_,
      fun i => Nat.zero_le _, fun i _ => rfl, fun f _ _ _ => rfl, ?_⟩
    · show (if i = .text then lines else 0) ≤ 999
      split <;> omega
    · by_contra h
      exact hlimit (if_neg h)
    · refine ⟨⟨'t', .text, '\x00', ['b', 'd'], true⟩, by decide, ?_⟩
      show lines ≠ 0
      omega
  refine ⟨fun m h => ?_, fun m hprofile h => ?_, fun c hc => ?_⟩
  · obtain rfl := (hmode m).mp h
    exact ⟨_, rfl, hvalid⟩
  · have hne : m ≠ .flood := fun heq => by
      have htrue : (floodChannel lines per).mode m.letter = true := (hmode m).mpr heq
      exact absurd (h.symm.trans htrue) Bool.false_ne_true
    cases m <;> first | rfl | exact absurd rfl hne | exact absurd rfl hprofile
  · exact ⟨⟨'f', .param .flood, false⟩, by decide, (of_decide_eq_true hc).symm, fun p r h => by cases h⟩

end ObbyIRCd.Chanmode
