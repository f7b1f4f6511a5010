import ObbyIRCd.Chanmode.Receive

/-!
# Parameters stay valid

Whatever anyone sets or unsets, the parameters that a channel has afterwards are as they are stored
(`setMode_valid`). A parameter is not stored as the text that was sent but as the text that its
conversion prints, which is why a value that its own text would not keep is never stored.
-/

namespace ObbyIRCd.Chanmode

open List Function Channel

variable {cfg : Config}

/-! ## Changes of a channel -/

theorem unsetMode_mode (ch : Channel) (x c : Char) :
    (ch.unsetMode x).mode c = (ch.mode c && !(c = x || (x = 'i' && c = 'K'))) := by
  show modecharDel x (update ch.mode x false) c = _
  unfold modecharDel
  split
  · rename_i hx
    subst hx
    by_cases hK : c = 'K'
    · simp [hK]
    · by_cases hc : c = 'i' <;> simp [hK, hc]
  · rename_i hx
    by_cases hc : c = x <;> simp [hc, hx]

variable {ch : Channel} {cm : Cmode}

theorem Channel.Valid.unsetMode (hch : ch.Valid cfg)
    (hcm : cm ∈ cfg.channelmodes) (hkind : cm.kind = .simple) :
    (ch.unsetMode cm.letter).Valid cfg := by
  have hparam : ∀ m : ParamMode, (ch.unsetMode cm.letter).mode m.letter = ch.mode m.letter := by
    intro m
    have hne := letter_of_simple (mem_channelmodes.mp hcm).1 hkind m
    have hK : m.letter ≠ 'K' := by cases m <;> decide
    rw [unsetMode_mode]
    simp [hne, hK]
  refine ⟨fun m hm => hch.set m ((hparam m).symm.trans hm),
    fun m hne hm => hch.unset m hne ((hparam m).symm.trans hm), fun c hc => ?_⟩
  rw [unsetMode_mode] at hc
  exact hch.loaded c (Bool.and_eq_true_iff.mp hc).1

theorem Channel.Valid.freeParameter (hch : ch.Valid cfg) (m : ParamMode) :
    ((ch.unsetMode m.letter).freeParameter cfg m).Valid cfg := by
  have hi : m.letter ≠ 'i' := by cases m <;> decide
  have hmode : ∀ c, ((ch.unsetMode m.letter).freeParameter cfg m).mode c =
      (ch.mode c && !decide (c = m.letter)) := by
    intro c
    show (ch.unsetMode m.letter).mode c = _
    rw [unsetMode_mode]
    simp [hi]
  have hother : ∀ m', m' ≠ m → ((ch.unsetMode m.letter).freeParameter cfg m).mode m'.letter =
        ch.mode m'.letter ∧
      ((ch.unsetMode m.letter).freeParameter cfg m).params m' = ch.params m' := by
    intro m' hne
    have hletter : m'.letter ≠ m.letter := fun h => hne (letter_injective h)
    exact ⟨by rw [hmode]; simp [hletter], update_of_ne hne _ _⟩
  refine ⟨fun m' hm => ?_, fun m' hne hm => ?_, fun c hc => ?_⟩
  · by_cases heq : m' = m
    · subst heq
      rw [hmode] at hm
      simp at hm
    · rw [(hother m' heq).2]
      exact hch.set m' ((hother m' heq).1 ▸ hm)
  · by_cases heq : m' = m
    · subst heq
      -- only a flood profile stays
      exact (update_self _ _ _).trans (m'.freeParam_of_ne hne _)
    · rw [(hother m' heq).2]
      exact hch.unset m' hne ((hother m' heq).1 ▸ hm)
  · rw [hmode] at hc
    exact hch.loaded c (Bool.and_eq_true_iff.mp hc).1

/-! ## One letter -/

theorem Pass.write_channel (st : Pass) (add : Bool) (letter : Char) (text : List Char) :
    (st.write add letter text).channel = st.channel := by
  unfold Pass.write
  split <;> rfl

variable {src : Source} {add : Bool} {param : Option (List Char)} {st : Pass}

theorem mem_delListmode {banid : List Char} {list list' : List Ban}
    (h : delListmode banid list = some list') : list'.Sublist list := by
  induction list generalizing list' with
  | nil => cases h
  | cons b list ih =>
    unfold delListmode at h
    split at h
    · obtain rfl := Option.some.inj h
      exact sublist_cons_self b list
    · obtain ⟨list'', hdel, rfl⟩ := Option.map_eq_some_iff.mp h
      exact (ih hdel).cons_cons b

theorem doModeCharListMode_channel (cfg : Config) (src : Source) (l : ListMode) (add : Bool)
    (param : Option (List Char)) (st : Pass) :
    (doModeCharListMode cfg src l add param st).1.channel = st.channel ∨
      ∃ list, (doModeCharListMode cfg src l add param st).1.channel = st.channel.setList l list ∧
        ∀ b ∈ list, b ∈ st.channel.lists l ∨
          ∃ mask : List Char, b = ⟨mask.take modebuflen, src.name.take 106, src.time⟩ := by
  have hadd : ∀ full mask, ∀ b ∈ (addListmodeEx full mask src.name src.time (st.channel.lists l)).1,
      b ∈ st.channel.lists l ∨
        ∃ mask : List Char, b = ⟨mask.take modebuflen, src.name.take 106, src.time⟩ := by
    intro full mask b hb
    unfold addListmodeEx at hb
    split at hb <;> split at hb
    · exact .inl hb
    · exact (mem_cons.mp hb).symm.imp_right fun h => ⟨mask, h⟩
    · exact .inl hb
    · rcases Keyed.mem_modify _ hb with hb | ⟨_, _, hb⟩
      · exact .inl hb
      · exact .inr ⟨mask, hb⟩
  unfold doModeCharListMode
  repeat' split
  all_goals first | exact .inl rfl | skip
  · dsimp only
    split
    · exact .inr ⟨_, Pass.write_channel _ _ _ _, hadd _ _⟩
    · exact .inr ⟨_, rfl, hadd _ _⟩
  · rename_i hdel
    exact .inr ⟨_, Pass.write_channel _ _ _ _, fun b hb => .inl ((mem_delListmode hdel).subset hb)⟩

theorem doModeCharMemberMode_channel (cfg : Config) (letter : Char) (add : Bool) (param : List Char)
    (st : Pass) : ∃ members,
      (doModeCharMemberMode cfg letter add param st).channel = { st.channel with members } := by
  unfold doModeCharMemberMode
  split
  · exact ⟨_, rfl⟩
  split
  · exact ⟨_, rfl⟩
  · exact ⟨_, Pass.write_channel _ _ _ _⟩

-- `modef_default_unsettime` is an `unsigned char`
variable (hunset : src.myUser = true → cfg.flood.defaultUnsettime ≤ 255)
include hunset

theorem doParamMode_valid (hcm : cm ∈ cfg.channelmodes) {m : ParamMode} (hkind : cm.kind = .param m)
    (param : List Char) (hst : st.channel.Valid cfg) :
    (doParamMode cfg src m add param st).channel.Valid cfg := by
  unfold doParamMode
  cases add with
  | true =>
    rw [if_pos rfl]
    split
    · exact hst
    rename_i hok
    split
    · exact hst
    rename_i morphed hconv
    split
    · exact hst
    obtain ⟨v, hput, hvalid⟩ := m.putParam_valid hunset (by simpa using hok) hconv
      (st.channel.params m)
    have hset := hst.setParam hvalid hcm hkind
    refine hset.congr rfl ?_ ?_
    · show modecharAdd m.letter (update st.channel.mode m.letter true) = _
      rw [modecharAdd_param]
    · show update st.channel.params m (m.putParam cfg.toParamConfig _ morphed) = _
      rw [hput]
  | false =>
    rw [if_neg Bool.false_ne_true]
    split
    · exact hst
    · exact hst.freeParameter m

theorem doExtmodeChar_valid (hcm : cm ∈ cfg.channelmodes) (hst : st.channel.Valid cfg) :
    (doExtmodeChar cfg src cm add param st).1.channel.Valid cfg := by
  unfold doExtmodeChar
  dsimp only
  split
  · exact hst
  split
  · exact hst
  split
  · exact hst
  split
  · obtain ⟨members, h⟩ := doModeCharMemberMode_channel cfg cm.letter add (param.getD []) st
    rw [h]
    exact hst.congr rfl rfl rfl
  · rename_i m hkind
    split
    · exact hst
    exact doParamMode_valid hunset hcm hkind _ hst
  · rename_i hkind
    split
    · exact hst.setMode hcm hkind
    · exact hst.unsetMode hcm hkind

/-- One letter keeps a channel valid. -/
theorem modeChar_valid {c : Char} (hst : st.channel.Valid cfg) :
    (modeChar cfg src add c param st).1.channel.Valid cfg := by
  unfold modeChar
  split
  · split
    · exact hst
    rcases doModeCharListMode_channel cfg src _ add (param.map (take modebuflen)) st with
      h | ⟨list, h, -⟩
    · rwa [h]
    · rw [h]
      exact hst.congr rfl rfl rfl
  · split
    · exact hst
    rename_i cm hfind
    split
    · exact hst
    · exact doExtmodeChar_valid hunset (mem_of_find?_eq_some hfind) hst

omit hunset

/-! ## All letters -/

variable {params : List (List Char)}

theorem setModeLoop_induction {P : Channel → Prop} (modes : List Char)
    (hstep : ∀ c ∈ modes, ∀ add param (st : Pass), (∀ p ∈ param, p ∈ params) → P st.channel →
      P (modeChar cfg src add c param st).1.channel) (add : Bool) (hst : P st.channel) :
    P (setModeLoop cfg src add params modes st).channel := by
  induction modes generalizing add params st with
  | nil => exact hst
  | cons c modes ih =>
    obtain ⟨hc, hmodes⟩ := forall_mem_cons.mp hstep
    unfold setModeLoop
    split
    · exact ih hmodes true hst
    split
    · exact ih hmodes false hst
    split
    · exact ih hmodes add hst
    refine ih (fun c' hc' add param st hparam => hmodes c' hc' add param st fun p hp =>
      mem_of_mem_drop (hparam p hp)) add ?_
    exact hc add _ st (fun p hp => mem_of_mem_head? hp) hst

/-- Whatever anyone changes, a channel stays valid. -/
theorem setMode_valid (hunset : src.myUser = true → cfg.flood.defaultUnsettime ≤ 255)
    (modes : List Char) (params : List (List Char)) (hch : ch.Valid cfg) :
    (setMode cfg src modes params ch).1.Valid cfg := by
  have hst : (⟨ch, []⟩ : Pass).channel.Valid cfg := hch
  exact setModeLoop_induction modes (fun c _ add param st _ hst =>
    modeChar_valid hunset hst) true hst

/-- A new channel is valid. -/
theorem makeChannel_valid (cfg : Config) (link : Link) (name : List Char) :
    (makeChannel cfg link name).Valid cfg where
  set m hmode := absurd hmode Bool.false_ne_true
  unset m hne _ := by cases m <;> first | rfl | exact absurd rfl hne
  loaded c hmode := absurd hmode Bool.false_ne_true

/-! ## What modes are not about -/

/-- Between the two channels neither the name nor the time nor, if `lists` holds, a list has changed. -/
structure Channel.Frame (lists : Prop) (ch ch' : Channel) : Prop where
  name : ch'.name = ch.name
  creationtime : ch'.creationtime = ch.creationtime
  lists : lists → ch'.lists = ch.lists

theorem Channel.Frame.refl (lists : Prop) (ch : Channel) : Frame lists ch ch :=
  ⟨rfl, rfl, fun _ => rfl⟩

theorem Channel.Frame.trans {lists : Prop} {ch₁ ch₂ ch₃ : Channel} (h : Frame lists ch₁ ch₂)
    (h' : Frame lists ch₂ ch₃) : Frame lists ch₁ ch₃ :=
  ⟨h'.name.trans h.name, h'.creationtime.trans h.creationtime,
    fun hl => (h'.lists hl).trans (h.lists hl)⟩

theorem doParamMode_frame (cfg : Config) (src : Source) (m : ParamMode) (add : Bool)
    (param : List Char) (st : Pass) :
    Frame True st.channel (doParamMode cfg src m add param st).channel := by
  unfold doParamMode
  dsimp only
  repeat' split
  all_goals exact ⟨rfl, rfl, fun _ => rfl⟩

theorem doExtmodeChar_frame (cfg : Config) (src : Source) (cm : Cmode) (add : Bool)
    (param : Option (List Char)) (st : Pass) :
    Frame True st.channel (doExtmodeChar cfg src cm add param st).1.channel := by
  have hmember : ∀ letter param,
      Frame True st.channel (doModeCharMemberMode cfg letter add param st).channel := by
    intro letter param
    obtain ⟨members, h⟩ := doModeCharMemberMode_channel cfg letter add param st
    rw [h]
    exact ⟨rfl, rfl, fun _ => rfl⟩
  unfold doExtmodeChar
  dsimp only
  repeat' split
  all_goals first
    | exact .refl _ _ | exact hmember _ _ | exact doParamMode_frame cfg src _ add _ st
    | exact ⟨rfl, rfl, fun _ => rfl⟩

theorem modeChar_frame (cfg : Config) (src : Source) (add : Bool) (c : Char)
    (param : Option (List Char)) (st : Pass) :
    Frame (coreMode c = none) st.channel (modeChar cfg src add c param st).1.channel := by
  unfold modeChar
  split
  · rename_i l hl
    split
    · exact .refl _ _
    rcases doModeCharListMode_channel cfg src l add (param.map (take modebuflen)) st with
      h | ⟨list, h, -⟩
    · rw [h]
      exact .refl _ _
    · rw [h]
      exact ⟨rfl, rfl, fun hnone => by simp [hl] at hnone⟩
  · split
    · exact .refl _ _
    rename_i cm _
    split
    · exact .refl _ _
    · have h := doExtmodeChar_frame cfg src cm add (param.map (take modebuflen)) st
      exact ⟨h.name, h.creationtime, fun _ => h.lists trivial⟩

/-- Changes of modes leave the name and the time, and the lists if no letter is about one. -/
theorem setModeLoop_frame (cfg : Config) (src : Source) (add : Bool) (params : List (List Char))
    (modes : List Char) (st : Pass) :
    Frame (∀ c ∈ modes, coreMode c = none) st.channel
      (setModeLoop cfg src add params modes st).channel := by
  refine setModeLoop_induction (P := Frame _ st.channel) modes
    (fun c hc add param st' _ h => h.trans ?_) add (.refl _ _)
  have hstep := modeChar_frame cfg src add c param st'
  exact ⟨hstep.name, hstep.creationtime, fun hl => hstep.lists (hl c hc)⟩

/-! ## Entries of lists -/

def Channel.AllBans (P : Ban → Prop) (ch : Channel) : Prop := ∀ l, ∀ b ∈ ch.lists l, P b

theorem Channel.AllBans.setList {P : Ban → Prop} (hch : ch.AllBans P) (l : ListMode)
    {list : List Ban} (hlist : ∀ b ∈ list, P b) : (ch.setList l list).AllBans P := by
  intro l' b hb
  change b ∈ update ch.lists l list l' at hb
  by_cases hl : l' = l
  · subst hl
    rw [update_self] at hb
    exact hlist b hb
  · rw [update_of_ne hl] at hb
    exact hch l' b hb

section AllBans

variable {P : Ban → Prop} {src : Source}
  (hnew : ∀ mask : List Char, P ⟨mask.take modebuflen, src.name.take 106, src.time⟩)
include hnew

theorem modeChar_allBans {add : Bool} {c : Char} {param : Option (List Char)} {st : Pass}
    (hst : st.channel.AllBans P) : (modeChar cfg src add c param st).1.channel.AllBans P := by
  rcases hc : coreMode c with - | l
  · -- other letters leave the lists alone
    have hlists := (modeChar_frame cfg src add c param st).lists hc
    intro l b hb
    exact hst l b (hlists ▸ hb)
  · unfold modeChar
    rw [hc]
    dsimp only
    split
    · exact hst
    rcases doModeCharListMode_channel cfg src l add (param.map (take modebuflen)) st with
      h | ⟨list, h, hlist⟩
    · rwa [h]
    · rw [h]
      refine hst.setList l fun b hb => ?_
      rcases hlist b hb with hb | ⟨mask, rfl⟩
      · exact hst l b hb
      · exact hnew mask

theorem setModeLoop_allBans (add : Bool) (params : List (List Char)) (modes : List Char) {st : Pass}
    (hst : st.channel.AllBans P) : (setModeLoop cfg src add params modes st).channel.AllBans P := by
  exact setModeLoop_induction modes (fun c _ add param st _ => modeChar_allBans hnew) add hst

end AllBans

end ObbyIRCd.Chanmode
