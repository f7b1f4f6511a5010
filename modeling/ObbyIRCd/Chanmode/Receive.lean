import Mathlib.Algebra.Order.BigOperators.Group.List
import Mathlib.Algebra.Order.Group.Nat
import ObbyIRCd.Chanmode.Sjoin

/-!
# Setting the modes of another server

`set_mode` with the modes of a channel as another server prints them, parameter by parameter. Each
letter sets its mode, with the value that is received for it (`receive`): the letters are different, so
none is ignored as a second change, and there are few enough to be written down. The parameters are
words, so that they pass through the buffers.
-/

namespace ObbyIRCd.Chanmode

open List Function Cmode Channel

variable {cfg : Config} (link : Link)

/-! ## The table of modes -/

theorem allChannelmodes_nodup : (allChannelmodes.map letter).Nodup := by decide

theorem channelmodes_nodup (cfg : Config) : (cfg.channelmodes.map letter).Nodup :=
  allChannelmodes_nodup.sublist (filter_sublist.map letter)

variable {cm : Cmode} {m : ParamMode}

theorem mem_channelmodes :
    cm ∈ cfg.channelmodes ↔ cm ∈ allChannelmodes ∧ cfg.loaded cm.letter = true := List.mem_filter

variable (h : cm ∈ allChannelmodes)
include h

/-- The letters of modes are neither those of lists nor signs. -/
theorem letter_of_mem : coreMode cm.letter = none ∧ cm.letter ≠ '+' ∧ cm.letter ≠ '-' := by
  revert cm
  decide

theorem letter_of_param
    (hkind : cm.kind = .param m) : cm.letter = m.letter ∧ cm.isLocal = false := by
  revert cm
  cases m <;> decide

theorem kind_of_letter (hletter : cm.letter = m.letter) : cm.kind = .param m := by
  revert cm
  cases m <;> decide

theorem letter_of_simple (hkind : cm.kind = .simple) (m : ParamMode) : m.letter ≠ cm.letter := by
  revert cm
  cases m <;> decide

omit h

theorem findMode_of_mem (h : cm ∈ cfg.channelmodes) : cfg.findMode cm.letter = some cm :=
  Keyed.find_of_mem letter (channelmodes_nodup cfg) h

theorem letter_injective {m' : ParamMode} (h : m.letter = m'.letter) : m = m' := by
  revert h
  cases m <;> cases m' <;> decide

theorem ParamMode.maxLength_le (m : ParamMode) : m.maxLength ≤ modebuflen := by cases m <;> decide

/-! ## Valid channels -/

/-- The parameters of a channel: those of its modes are as they are stored, and there are no others,
apart from the flood profile of a channel that is -F. -/
structure Channel.Valid (cfg : Config) (ch : Channel) : Prop where
  set : ∀ m : ParamMode, ch.mode m.letter = true →
    ∃ v, ch.params m = some v ∧ m.Valid cfg.toParamConfig ch.name v
  unset : ∀ m : ParamMode, m ≠ .profile → ch.mode m.letter = false → ch.params m = none
  loaded : ∀ c, ch.mode c = true → ∃ cm ∈ cfg.channelmodes, cm.letter = c ∧ ∀ p r, cm.kind ≠ .member p r

theorem Channel.Valid.congr {ch ch' : Channel} (hch : ch.Valid cfg) (hname : ch'.name = ch.name)
    (hmode : ch'.mode = ch.mode) (hparams : ch'.params = ch.params) : ch'.Valid cfg := by
  refine ⟨fun m hm => ?_, fun m hne hm => ?_, fun c hc => ?_⟩
  · rw [hparams, hname]
    exact hch.set m (hmode ▸ hm)
  · rw [hparams]
    exact hch.unset m hne (hmode ▸ hm)
  · exact hch.loaded c (hmode ▸ hc)

def Channel.receiveParam (cfg : Config) (ch : Channel) (m : ParamMode) (v : m.Value) : Channel :=
  { ch with
    mode := Function.update ch.mode m.letter true
    params := Function.update ch.params m (some (m.received cfg.toParamConfig (ch.mode 'r') v)) }

def Channel.receive (cfg : Config) (their ch : Channel) (cm : Cmode) : Channel :=
  match cm.kind with
  | .param m =>
    match their.params m with
    | some v => ch.receiveParam cfg m v
    | none => ch
  | _ => ch.setMode cm.letter

theorem modecharAdd_param (m : ParamMode) (mode : Char → Bool) : modecharAdd m.letter mode = mode := by
  cases m <;> rfl

/-! ## One letter from a server -/

/-- A letter of the table goes to `do_extmode_char`. -/
theorem modeChar_of_mem (hcm : cm ∈ cfg.channelmodes) (add : Bool)
    (param : Option (List Char)) (st : Pass) :
    modeChar cfg link.source add cm.letter param st =
      doExtmodeChar cfg link.source cm add (param.map (List.take modebuflen)) st := by
  obtain ⟨hcore, -, -⟩ := letter_of_mem (mem_channelmodes.mp hcm).1
  unfold modeChar
  rw [hcore, findMode_of_mem hcm]
  exact if_neg (by simp [Link.source])

theorem doExtmodeChar_simple (hkind : cm.kind = .simple) (hlocal : cm.isLocal = false)
    (add : Bool) (param : Option (List Char)) (st : Pass) :
    doExtmodeChar cfg link.source cm add param st = ({ st with
        channel := if add then st.channel.setMode cm.letter else st.channel.unsetMode cm.letter }, 0) := by
  have hparacount : cm.paracount add = 0 := by simp [paracount, hkind]
  unfold doExtmodeChar
  rw [hparacount, hlocal, hkind]
  cases add <;> simp [Link.source]

theorem doExtmodeChar_param (hcm : cm ∈ cfg.channelmodes)
    (hkind : cm.kind = .param m) (add : Bool) {param : Option (List Char)} {st : Pass}
    (hroom : cm.paracount add = 1 → param ≠ none ∧ st.pvar.length < maxmodeparams)
    (hnew : ∀ p ∈ st.pvar, p.letter ≠ cm.letter) :
    doExtmodeChar cfg link.source cm add param st =
      (doParamMode cfg link.source m add (param.getD []) st, cm.paracount add) := by
  obtain ⟨-, hlocal⟩ := letter_of_param (mem_channelmodes.mp hcm).1 hkind
  have hany : (st.pvar.any fun p => decide (p.letter = cm.letter)) = false :=
    any_eq_false.mpr fun p hp => by simpa using hnew p hp
  have hparam : ¬(cm.paracount add = 1 ∧ (param = none ∨ maxmodeparams ≤ st.pvar.length)) := by
    rintro ⟨hcount, hnone | hfull⟩
    · exact (hroom hcount).1 hnone
    · exact absurd (hroom hcount).2 (Nat.not_lt.mpr hfull)
  unfold doExtmodeChar
  rw [if_neg hparam, hlocal, hkind]
  simp [Link.source, hany]

/-! ## One letter of another channel -/

variable {ch : Channel}

variable {v : m.Value} {pvar : List PVar}

/-- The value received is what is printed on both sides, and stored. -/
theorem putParameter_getParam (hv : m.Valid cfg.toParamConfig ch.name v) :
    ch.putParameter cfg m (m.getParam v) =
      { ch with params := Function.update ch.params m (some v) } := by
  unfold putParameter
  rw [m.putParam_getParam hv]

section

variable (hch : ch.Valid cfg) (hv : m.Valid cfg.toParamConfig ch.name v)
include hch hv

theorem receiveParam_eq_self (hmode : ch.mode m.letter = true)
    (htext : ch.getParameter m = some (m.getParam (m.received cfg.toParamConfig (ch.mode 'r') v))) :
    ch.receiveParam cfg m v = ch := by
  obtain ⟨x, hx, hxv⟩ := hch.set m hmode
  have hreceived := m.received_valid hv (ch.mode 'r')
  unfold getParameter at htext
  rw [hx] at htext
  have heq := m.getParam_injective hxv hreceived (Option.some.inj htext)
  unfold receiveParam
  rw [← heq, ← hx, ← hmode, update_eq_self, update_eq_self]

theorem doParamMode_getParam (hlen : pvar.length < maxmodeparams) :
    ∃ pvar', doParamMode cfg link.source m true (m.getParam v) ⟨ch, pvar⟩ =
        ⟨ch.receiveParam cfg m v, pvar'⟩ ∧
      (pvar' = pvar ∨
        pvar' = pvar ++ [⟨true, m.letter, m.getParam (m.received cfg.toParamConfig (ch.mode 'r') v)⟩]) := by
  have hok := m.isOk_getParam hv (ch.mode 'r')
  have hconv := m.convParam_getParam hv (ch.mode 'r')
  have hreceived := m.received_valid hv (ch.mode 'r')
  have hlength := (m.getParam_word hreceived).2.1
  unfold doParamMode
  simp only [if_true, Link.source, hok, hconv, Bool.true_eq_false, if_false]
  split
  · rename_i hsame
    rw [receiveParam_eq_self hch hv hsame.1 hsame.2]
    exact ⟨pvar, rfl, .inl rfl⟩
  · refine ⟨_, ?_, .inr rfl⟩
    unfold Pass.write
    rw [if_pos hlen, take_of_length_le (Nat.le_trans hlength m.maxLength_le),
      putParameter_getParam hreceived]
    unfold Channel.setMode Channel.receiveParam
    rw [modecharAdd_param]

variable (hcm : cm ∈ cfg.channelmodes) (hkind : cm.kind = .param m)
include hcm hkind

theorem modeChar_param
    (hlen : pvar.length < maxmodeparams) (hnew : ∀ p ∈ pvar, p.letter ≠ cm.letter) :
    ∃ pvar', modeChar cfg link.source true cm.letter (some (m.getParam v)) ⟨ch, pvar⟩ =
        (⟨ch.receiveParam cfg m v, pvar'⟩, 1) ∧
      (pvar' = pvar ∨
        pvar' = pvar ++ [⟨true, m.letter, m.getParam (m.received cfg.toParamConfig (ch.mode 'r') v)⟩]) := by
  obtain ⟨pvar', hdo, hpvar'⟩ := doParamMode_getParam link hch hv hlen
  have hlength := (m.getParam_word hv).2.1
  have hparacount : cm.paracount true = 1 := by simp [paracount, hkind]
  refine ⟨pvar', ?_, hpvar'⟩
  rw [modeChar_of_mem link hcm, Option.map_some,
    take_of_length_le (Nat.le_trans hlength m.maxLength_le),
    doExtmodeChar_param link hcm hkind true (fun _ => ⟨Option.some_ne_none _, hlen⟩) hnew,
    Option.getD_some, hdo, hparacount]

theorem Channel.Valid.setParam :
    Valid cfg { ch with
        mode := Function.update ch.mode m.letter true
        params := Function.update ch.params m (some v) } := by
  have hletter := (letter_of_param (mem_channelmodes.mp hcm).1 hkind).1
  have hother : ∀ m', m' ≠ m → update ch.mode m.letter true m'.letter = ch.mode m'.letter ∧
      update ch.params m (some v) m' = ch.params m' := fun m' hne =>
    ⟨update_of_ne (fun h => hne (letter_injective h)) _ _, update_of_ne hne _ _⟩
  refine ⟨fun m' hmode => ?_, fun m' hne hmode => ?_, fun c hc => ?_⟩ <;> dsimp only at *
  · by_cases hm : m' = m
    · subst hm
      exact ⟨v, update_self _ _ _, hv⟩
    · rw [(hother m' hm).1] at hmode
      rw [(hother m' hm).2]
      exact hch.set m' hmode
  · by_cases hm : m' = m
    · subst hm
      rw [update_self] at hmode
      cases hmode
    · rw [(hother m' hm).1] at hmode
      rw [(hother m' hm).2]
      exact hch.unset m' hne hmode
  · by_cases hc' : c = m.letter
    · exact ⟨cm, hcm, hletter.trans hc'.symm, fun p r h => by simp [hkind] at h⟩
    · rw [update_of_ne hc'] at hc
      exact hch.loaded c hc

theorem Channel.Valid.receiveParam : (ch.receiveParam cfg m v).Valid cfg :=
  hch.setParam (m.received_valid hv _) hcm hkind

end

/-! ## All letters of another channel -/

structure Sent (cfg : Config) (their : Channel) (cm : Cmode) : Prop where
  mem : cm ∈ cfg.channelmodes
  notLocal : cm.isLocal = false
  notMember : ∀ p r, cm.kind ≠ .member p r
  mode : their.mode cm.letter = true

/-- Setting the mode `x` clears the mode `c`. -/
def clears (x c : Char) : Bool := (x = 's' && c = 'p') || (x = 'p' && c = 's')

theorem setMode_mode_eq (ch : Channel) (x c : Char) :
    (ch.setMode x).mode c = ((ch.mode c && !clears x c) || c = x) := by
  show modecharAdd x (update ch.mode x true) c = _
  unfold modecharAdd clears
  split_ifs <;> simp only [update_apply] <;> grind

theorem setMode_mode_param (hcm : cm ∈ allChannelmodes) (hkind : cm.kind = .simple)
    (ch : Channel) (m : ParamMode) : (ch.setMode cm.letter).mode m.letter = ch.mode m.letter := by
  have hclears : clears cm.letter m.letter = false := by cases m <;> simp [clears, ParamMode.letter]
  simp [setMode_mode_eq, hclears, letter_of_simple hcm hkind m]

theorem setMode_mode {letter c : Char} (h : (ch.setMode letter).mode c = true) :
    c = letter ∨ ch.mode c = true := by
  rw [setMode_mode_eq, Bool.or_eq_true, Bool.and_eq_true, decide_eq_true_eq] at h
  exact h.symm.imp_right And.left

theorem Channel.Valid.setMode {ch : Channel} (hch : ch.Valid cfg) {cm : Cmode}
    (hcm : cm ∈ cfg.channelmodes) (hkind : cm.kind = .simple) : (ch.setMode cm.letter).Valid cfg := by
  have hparam := setMode_mode_param (mem_channelmodes.mp hcm).1 hkind ch
  refine ⟨fun m hmode => hch.set m ((hparam m).symm.trans hmode),
    fun m hne hmode => hch.unset m hne ((hparam m).symm.trans hmode), fun c hc => ?_⟩
  rcases setMode_mode hc with rfl | hc
  · exact ⟨cm, hcm, rfl, fun p r h => by simp [hkind] at h⟩
  · exact hch.loaded c hc

theorem Sent.receive {their : Channel} (htheir : their.Valid cfg) {cm : Cmode}
    (h : Sent cfg their cm) :
    (cm.kind = .simple ∧ their.paramText cm = none ∧
      ∀ ch, Channel.receive cfg their ch cm = ch.setMode cm.letter) ∨
    ∃ m v, cm.kind = .param m ∧ cm.letter = m.letter ∧ their.params m = some v ∧
      m.Valid cfg.toParamConfig their.name v ∧ their.paramText cm = some (m.getParam v) ∧
      ∀ ch, Channel.receive cfg their ch cm = ch.receiveParam cfg m v := by
  rcases hkind : cm.kind with - | m | ⟨p, r⟩
  · exact .inl ⟨rfl, by simp [Channel.paramText, hkind], by simp [Channel.receive, hkind]⟩
  · have hletter := (letter_of_param (mem_channelmodes.mp h.mem).1 hkind).1
    obtain ⟨v, hv, hvalid⟩ := htheir.set m (hletter ▸ h.mode)
    exact .inr ⟨m, v, rfl, hletter, hv, hvalid,
      by simp [Channel.paramText, Channel.getParameter, hkind, hv],
      by simp [Channel.receive, hkind, hv]⟩
  · exact absurd hkind (h.notMember p r)

theorem Channel.Valid.receive {ch their : Channel} (hch : ch.Valid cfg) (htheir : their.Valid cfg)
    (hname : their.name = ch.name) {cm : Cmode} (hsent : Sent cfg their cm) :
    (receive cfg their ch cm).Valid cfg ∧ (receive cfg their ch cm).name = ch.name := by
  rcases hsent.receive htheir with ⟨hkind, -, heq⟩ | ⟨m, v, hkind, -, -, hv, -, heq⟩
  · rw [heq]
    exact ⟨hch.setMode hsent.mem hkind, rfl⟩
  · rw [heq]
    exact ⟨hch.receiveParam (hname ▸ hv) hsent.mem hkind, rfl⟩

theorem Sent.modeChar {ch their : Channel} (hch : ch.Valid cfg) (htheir : their.Valid cfg)
    (hname : their.name = ch.name) {cm : Cmode} (hsent : Sent cfg their cm) {pvar : List PVar}
    (hlen : pvar.length < maxmodeparams) (hnew : ∀ p ∈ pvar, p.letter ≠ cm.letter)
    (rest : List (List Char)) :
    ∃ pvar' eaten,
      modeChar cfg link.source true cm.letter ((their.paramText cm).toList ++ rest).head? ⟨ch, pvar⟩ =
        (⟨Channel.receive cfg their ch cm, pvar'⟩, eaten) ∧
      ((their.paramText cm).toList ++ rest).drop eaten = rest ∧
      pvar'.length ≤ pvar.length + (their.paramText cm).toList.length ∧
      ∀ p ∈ pvar', p ∈ pvar ∨ p.letter = cm.letter := by
  rcases hsent.receive htheir with ⟨hkind, htext, heq⟩ | ⟨m, v, hkind, hletter, -, hv, htext, heq⟩
  · rw [heq, htext, modeChar_of_mem link hsent.mem, doExtmodeChar_simple link hkind hsent.notLocal]
    exact ⟨pvar, 0, rfl, rfl, Nat.le_refl _, fun p hp => .inl hp⟩
  obtain ⟨pvar', hchar, hpvar'⟩ := modeChar_param link hch (hname ▸ hv) hsent.mem hkind hlen hnew
  rw [heq, htext]
  rcases hpvar' with rfl | rfl
  · exact ⟨_, 1, hchar, rfl, Nat.le_add_right _ _, fun p hp => .inl hp⟩
  refine ⟨_, 1, hchar, rfl, by simp, fun p hp => (mem_append.mp hp).imp_right fun hp => ?_⟩
  rw [mem_singleton.mp hp, hletter]

/-- A letter of the table is no sign, and no letter is locked for a server. -/
theorem setModeLoop_letter (hcm : cm ∈ cfg.channelmodes) (add : Bool)
    (params : List (List Char)) (modes : List Char) (st : Pass) :
    setModeLoop cfg link.source add params (cm.letter :: modes) st =
      setModeLoop cfg link.source add
        (params.drop (modeChar cfg link.source add cm.letter params.head? st).2) modes
        (modeChar cfg link.source add cm.letter params.head? st).1 := by
  obtain ⟨-, hplus, hminus⟩ := letter_of_mem (mem_channelmodes.mp hcm).1
  rw [setModeLoop, if_neg hplus, if_neg hminus, if_neg (by simp [Link.source])]

variable {their : Channel}

/-- The loop of `set_mode` over modes of another channel, and then over what follows them. -/
theorem setModeLoop_append (htheir : their.Valid cfg) (l : List Cmode)
    (hl : ∀ cm ∈ l, Sent cfg their cm) (hnodup : (l.map letter).Nodup)
    (hch : ch.Valid cfg) (hname : their.name = ch.name)
    (hroom : pvar.length + (l.filterMap their.paramText).length < maxmodeparams)
    (hnew : ∀ p ∈ pvar, p.letter ∉ l.map letter) (params : List (List Char)) (modes : List Char) :
    ∃ pvar', setModeLoop cfg link.source true (l.filterMap their.paramText ++ params)
        (l.map letter ++ modes) ⟨ch, pvar⟩ =
      setModeLoop cfg link.source true params modes ⟨l.foldl (Channel.receive cfg their) ch, pvar'⟩ ∧
      pvar'.length ≤ pvar.length + (l.filterMap their.paramText).length ∧
      ∀ p ∈ pvar', p ∈ pvar ∨ p.letter ∈ l.map letter := by
  -- by induction on the modes; what is written down has letters that do not come again
  induction l generalizing ch pvar with
  | nil => exact ⟨pvar, rfl, Nat.le_refl _, fun p hp => .inl hp⟩
  | cons cm l ih =>
    obtain ⟨hsent, hl⟩ := forall_mem_cons.mp hl
    have hrest : (cm :: l).filterMap their.paramText =
        (their.paramText cm).toList ++ l.filterMap their.paramText := by
      rw [filterMap_cons]
      cases their.paramText cm <;> rfl
    rw [hrest, length_append] at hroom
    have hne : ∀ p ∈ pvar, p.letter ≠ cm.letter := fun p hp h =>
      hnew p hp (h ▸ mem_cons_self)
    obtain ⟨pvar₁, eaten, hchar, hdrop, hlength, hletters⟩ :=
      hsent.modeChar link hch htheir hname (by omega) hne (l.filterMap their.paramText ++ params)
    obtain ⟨hvalid, hname'⟩ := hch.receive htheir hname hsent
    obtain ⟨hnotin, hnodup'⟩ := nodup_cons.mp hnodup
    have hnew₁ : ∀ p ∈ pvar₁, p.letter ∉ l.map letter := by
      intro p hp
      rcases hletters p hp with hp | hp
      · exact fun h => hnew p hp (mem_cons_of_mem _ h)
      · rw [hp]
        exact hnotin
    obtain ⟨pvar', hloop, hlength', hletters'⟩ :=
      ih hl hnodup' hvalid (hname.trans hname'.symm) (by omega) hnew₁
    refine ⟨pvar', ?_, ?_, fun p hp => ?_⟩
    · rw [hrest, append_assoc, map_cons, cons_append, setModeLoop_letter link hsent.mem, hchar,
        hdrop, hloop, foldl_cons]
    · rw [hrest, length_append]
      omega
    · rcases hletters' p hp with hp | hp
      · exact (hletters p hp).imp_right fun h => mem_cons.mpr (.inl h)
      · exact .inr (mem_cons_of_mem _ hp)

/-- The loop of `set_mode` over modes of another channel. -/
theorem setModeLoop_sent (htheir : their.Valid cfg) (l : List Cmode)
    (hl : ∀ cm ∈ l, Sent cfg their cm) (hnodup : (l.map letter).Nodup)
    (hch : ch.Valid cfg) (hname : their.name = ch.name)
    (hroom : pvar.length + (l.filterMap their.paramText).length < maxmodeparams)
    (hnew : ∀ p ∈ pvar, p.letter ∉ l.map letter) :
    (setModeLoop cfg link.source true (l.filterMap their.paramText) (l.map letter)
      ⟨ch, pvar⟩).channel = l.foldl (Channel.receive cfg their) ch := by
  obtain ⟨pvar', hloop, -, -⟩ :=
    setModeLoop_append link htheir l hl hnodup hch hname hroom hnew [] []
  rw [append_nil, append_nil] at hloop
  rw [hloop]
  rfl

/-- A letter whose parameter is missing changes nothing. -/
theorem setModeLoop_missing (hcm : cm ∈ cfg.channelmodes) (hkind : cm.kind = .param m)
    (modes : List Char) (st : Pass) :
    setModeLoop cfg link.source true [] (cm.letter :: modes) st =
      setModeLoop cfg link.source true [] modes st := by
  have hparacount : cm.paracount true = 1 := by simp [paracount, hkind]
  have hchar : modeChar cfg link.source true cm.letter none st = (st, 0) := by
    rw [modeChar_of_mem link hcm]
    unfold doExtmodeChar
    exact if_pos ⟨hparacount, .inl rfl⟩
  rw [setModeLoop_letter link hcm, head?_nil, hchar]
  rfl

/-! ## The modes afterwards -/

theorem Sent.receive_mode (htheir : their.Valid cfg)
    (h : Sent cfg their cm) (ch : Channel) (c : Char) :
    (Channel.receive cfg their ch cm).mode c =
      ((ch.mode c && !clears cm.letter c) || c = cm.letter) := by
  rcases h.receive htheir with ⟨-, -, heq⟩ | ⟨m, v, -, hletter, -, -, -, heq⟩
  · rw [heq, setMode_mode_eq]
  have hclears : clears m.letter c = false := by cases m <;> rfl
  rw [heq, hletter, hclears]
  show update ch.mode m.letter true c = _
  by_cases hc : c = m.letter <;> simp [hc]

section Fold

variable {their : Channel} {l : List Cmode} {m : ParamMode}

variable (htheir : their.Valid cfg)
include htheir

theorem Sent.receive_params_of_ne {cm : Cmode} (h : Sent cfg their cm)
    (hne : m.letter ≠ cm.letter) (ch : Channel) :
    (Channel.receive cfg their ch cm).params m = ch.params m := by
  rcases h.receive htheir with ⟨-, -, heq⟩ | ⟨m', v, -, hletter, -, -, -, heq⟩
  · rw [heq]
    rfl
  have hne' : m ≠ m' := by
    rintro rfl
    exact hne hletter.symm
  rw [heq]
  exact update_of_ne hne' _ _

section

variable (hl : ∀ cm ∈ l, Sent cfg their cm)
include hl

/-- Receiving modes keeps a channel valid. -/
theorem foldl_receive_valid {ch : Channel} (hch : ch.Valid cfg) (hname : their.name = ch.name) :
    (l.foldl (receive cfg their) ch).Valid cfg ∧ (l.foldl (receive cfg their) ch).name = ch.name := by
  refine foldlRecOn (motive := fun ch' : Channel => ch'.Valid cfg ∧ ch'.name = ch.name)
    l _ ⟨hch, rfl⟩ fun ch' ⟨hvalid, hname'⟩ cm hcm => ?_
  obtain ⟨hvalid', hname''⟩ := hvalid.receive htheir (hname.trans hname'.symm) (hl cm hcm)
  exact ⟨hvalid', hname''.trans hname'⟩

theorem foldl_receive_mode_set {c : Char}
    (hc : (l.any fun cm => clears cm.letter c) = false) (ch : Channel) :
    (l.foldl (receive cfg their) ch).mode c = (ch.mode c || decide (c ∈ l.map letter)) := by
  induction l generalizing ch with
  | nil => simp
  | cons cm l ih =>
    rw [forall_mem_cons] at hl
    rw [any_cons, Bool.or_eq_false_iff] at hc
    rw [foldl_cons, ih hl.2 hc.2, hl.1.receive_mode htheir, hc.1]
    simp [Bool.or_assoc]

theorem foldl_receive_mode_clear {c : Char} (hc : c ∉ l.map letter) (ch : Channel) :
    (l.foldl (receive cfg their) ch).mode c =
      (ch.mode c && !l.any fun cm => clears cm.letter c) := by
  induction l generalizing ch with
  | nil => simp
  | cons cm l ih =>
    rw [forall_mem_cons] at hl
    rw [map_cons, mem_cons, not_or] at hc
    rw [foldl_cons, ih hl.2 hc.2, hl.1.receive_mode htheir]
    simp [hc.1, Bool.and_assoc]

theorem foldl_receive_params_of_notMem (hm : m.letter ∉ l.map letter) (ch : Channel) :
    (l.foldl (receive cfg their) ch).params m = ch.params m := by
  refine foldlRecOn (motive := fun ch' : Channel => ch'.params m = ch.params m) l _ rfl
    fun ch' hch' cm hcm => ?_
  rw [(hl cm hcm).receive_params_of_ne htheir (fun h => hm (h ▸ mem_map_of_mem hcm)), hch']

end

theorem foldl_receive_params_at {early late : List Cmode} {cm : Cmode}
    (hl : ∀ cm' ∈ early ++ cm :: late, Sent cfg their cm')
    (hnodup : ((early ++ cm :: late).map letter).Nodup)
    (hletter : cm.letter = m.letter) (ch : Channel) :
    ((early ++ cm :: late).foldl (receive cfg their) ch).params m =
      (their.params m).map
        (m.received cfg.toParamConfig (ch.mode 'r' || decide ('r' ∈ early.map letter))) := by
  have hearly : ∀ cm' ∈ early, Sent cfg their cm' := fun cm' h => hl cm' (mem_append_left _ h)
  have hlate : ∀ cm' ∈ late, Sent cfg their cm' := fun cm' h =>
    hl cm' (mem_append_right _ (mem_cons_of_mem cm h))
  have hsent := hl cm (mem_append_right _ mem_cons_self)
  have hkind := kind_of_letter (mem_channelmodes.mp hsent.mem).1 hletter
  have hclears : (early.any fun cm' => clears cm'.letter 'r') = false := by simp [clears]
  rw [map_append] at hnodup
  have hnotin : m.letter ∉ late.map letter :=
    hletter ▸ (nodup_cons.mp hnodup.of_append_right).1
  rw [foldl_append, foldl_cons, foldl_receive_params_of_notMem htheir hlate hnotin,
    ← foldl_receive_mode_set htheir hearly hclears ch]
  rcases hsent.receive htheir with ⟨hsimple, -, -⟩ | ⟨m', v, hkind', -, hv, -, -, heq⟩
  · simp [hkind] at hsimple
  · obtain rfl : m = m' := ModeKind.param.inj (hkind.symm.trans hkind')
    rw [heq, hv]
    exact update_self _ _ _

theorem foldl_receive_params_of_mem (hl : ∀ cm ∈ l, Sent cfg their cm)
    (hnodup : (l.map letter).Nodup) (hm : m.letter ∈ l.map letter)
    (hr : m = .history → 'r' ∉ l.map letter) (ch : Channel) :
    (l.foldl (receive cfg their) ch).params m =
      (their.params m).map (m.received cfg.toParamConfig (ch.mode 'r')) := by
  obtain ⟨cm, hcm, hletter⟩ := mem_map.mp hm
  obtain ⟨early, late, rfl⟩ := append_of_mem hcm
  rw [foldl_receive_params_at htheir hl hnodup hletter]
  by_cases hm' : m = .history
  · have hearly : 'r' ∉ early.map letter := fun h =>
      hr hm' (map_append ▸ mem_append_left _ h)
    rw [decide_eq_false hearly, Bool.or_false]
  · rw [funext (ParamMode.received_of_ne hm' cfg.toParamConfig (ch.mode 'r')),
      funext (ParamMode.received_of_ne hm' cfg.toParamConfig _)]

omit htheir

end Fold

/-! ## All modes of another channel -/

/-- A letter of a mode that servers do not tell each other. -/
def localLetter (c : Char) : Bool := allChannelmodes.any fun cm => cm.letter = c && cm.isLocal

theorem modesOf_sublist (cfg : Config) (their : Channel) :
    (cfg.modesOf their).Sublist allChannelmodes := filter_sublist.trans filter_sublist

theorem modesOf_nodup (cfg : Config) (their : Channel) : ((cfg.modesOf their).map letter).Nodup :=
  allChannelmodes_nodup.sublist ((modesOf_sublist cfg their).map letter)

theorem any_clears (l : List Cmode) {x c : Char} (hx : ∀ y, clears y c = decide (y = x)) :
    (l.any fun cm => clears cm.letter c) = decide (x ∈ l.map letter) := by
  rw [Bool.eq_iff_iff, decide_eq_true_iff, any_eq_true, mem_map]
  simp only [hx, decide_eq_true_eq]

theorem clears_private (y : Char) : clears y 'p' = decide (y = 's') := by simp [clears]

theorem clears_secret (y : Char) : clears y 's' = decide (y = 'p') := by simp [clears]

section ReceiveAll

variable (htheir : their.Valid cfg)
include htheir

theorem sent_of_mem (h : cm ∈ cfg.modesOf their) : Sent cfg their cm := by
  obtain ⟨hmem, hp⟩ := mem_filter.mp h
  obtain ⟨hlocal, hmode⟩ := Bool.and_eq_true_iff.mp hp
  refine ⟨hmem, by simpa using hlocal, fun p r hkind => ?_, hmode⟩
  obtain ⟨cm', hmem', hletter, hkind'⟩ := htheir.loaded cm.letter hmode
  have heq : cm' = cm := by
    have hfind := findMode_of_mem hmem'
    rw [hletter, findMode_of_mem hmem] at hfind
    exact (Option.some.inj hfind).symm
  exact hkind' p r (heq ▸ hkind)

theorem mem_letters_modesOf {c : Char} :
    c ∈ (cfg.modesOf their).map letter ↔ their.mode c = true ∧ localLetter c = false := by
  have hlocal : ∀ cm ∈ allChannelmodes, cm.isLocal = localLetter cm.letter := by decide
  constructor
  · intro h
    obtain ⟨cm, hcm, rfl⟩ := mem_map.mp h
    have hsent := sent_of_mem htheir hcm
    exact ⟨hsent.mode, (hlocal cm (mem_channelmodes.mp hsent.mem).1).symm.trans hsent.notLocal⟩
  · rintro ⟨hmode, hnot⟩
    obtain ⟨cm, hcm, rfl, -⟩ := htheir.loaded c hmode
    refine mem_map.mpr ⟨cm, mem_filter.mpr ⟨hcm, ?_⟩, rfl⟩
    rw [hlocal cm (mem_channelmodes.mp hcm).1, hnot, hmode]
    rfl

/-- The modes come in the order of the table: the letter `x` before the letter `y`. -/
theorem modesOf_split {x y : Char} (n : ℕ)
    (hx : x ∉ (allChannelmodes.drop n).map letter ∧ localLetter x = false)
    (hy : y ∉ (allChannelmodes.take n).map letter ∧ localLetter y = false) : ∃ early late,
    cfg.modesOf their = early ++ late ∧
    x ∉ late.map letter ∧ decide (x ∈ early.map letter) = their.mode x ∧
    y ∉ early.map letter ∧ decide (y ∈ late.map letter) = their.mode y := by
  let p : Cmode → Bool := fun cm => !cm.isLocal && their.mode cm.letter
  let q : Cmode → Bool := fun cm => cfg.loaded cm.letter
  have hsplit : cfg.modesOf their = ((allChannelmodes.take n).filter q).filter p ++
      ((allChannelmodes.drop n).filter q).filter p := by
    rw [← filter_append, ← filter_append, take_append_drop]
    rfl
  have hx' : x ∉ (((allChannelmodes.drop n).filter q).filter p).map letter :=
    fun h => hx.1 (((filter_sublist.trans filter_sublist).map _).subset h)
  have hy' : y ∉ (((allChannelmodes.take n).filter q).filter p).map letter :=
    fun h => hy.1 (((filter_sublist.trans filter_sublist).map _).subset h)
  have hmem : ∀ c, localLetter c = false →
      (c ∈ (cfg.modesOf their).map letter ↔ their.mode c = true) := fun c hc => by
    rw [mem_letters_modesOf htheir, and_iff_left hc]
  refine ⟨_, _, hsplit, hx', ?_, hy', ?_⟩ <;> rw [Bool.eq_iff_iff, decide_eq_true_iff]
  · rw [← hmem x hx.2, hsplit, map_append, mem_append, or_iff_left hx']
  · rw [← hmem y hy.2, hsplit, map_append, mem_append, or_iff_right hy']

def Channel.receiveAll (cfg : Config) (ch their : Channel) : Channel :=
  (cfg.modesOf their).foldl (Channel.receive cfg their) ch

variable (ch : Channel)

theorem receiveAll_mode {c : Char} (hs : c ≠ 's') (hp : c ≠ 'p') :
    (ch.receiveAll cfg their).mode c = (ch.mode c || (their.mode c && !localLetter c)) := by
  have hclears : ((cfg.modesOf their).any fun cm => clears cm.letter c) = false := by
    simp [clears, hs, hp]
  unfold receiveAll
  rw [foldl_receive_mode_set htheir (fun cm => sent_of_mem htheir) hclears]
  congr 1
  rw [Bool.eq_iff_iff, decide_eq_true_iff, mem_letters_modesOf htheir]
  simp

/-- Private comes before secret, and secret is what counts. -/
theorem receiveAll_mode_secrecy :
    (ch.receiveAll cfg their).mode 'p' = ((ch.mode 'p' || their.mode 'p') && !their.mode 's') ∧
    (ch.receiveAll cfg their).mode 's' = ((ch.mode 's' && !their.mode 'p') || their.mode 's') := by
  obtain ⟨early, late, hsplit, hp, hpeq, hs, hseq⟩ :=
    modesOf_split htheir 12 (show 'p' ∉ _ ∧ _ by decide) (show 's' ∉ _ ∧ _ by decide)
  have hsent : ∀ cm ∈ early ++ late, Sent cfg their cm := hsplit ▸ fun cm => sent_of_mem htheir
  have hearly : ∀ cm ∈ early, Sent cfg their cm := fun cm h => hsent cm (mem_append_left _ h)
  have hlate : ∀ cm ∈ late, Sent cfg their cm := fun cm h => hsent cm (mem_append_right _ h)
  unfold receiveAll
  rw [hsplit, foldl_append]
  constructor
  · rw [foldl_receive_mode_clear htheir hlate hp, any_clears late clears_private, hseq,
      foldl_receive_mode_set htheir hearly ((any_clears early clears_private).trans
        (decide_eq_false hs)), hpeq]
  · rw [foldl_receive_mode_set htheir hlate ((any_clears late clears_secret).trans
        (decide_eq_false hp)), hseq,
      foldl_receive_mode_clear htheir hearly hs, any_clears early clears_secret, hpeq]

theorem receiveAll_valid (hch : ch.Valid cfg) (hname : their.name = ch.name) :
    (ch.receiveAll cfg their).Valid cfg ∧ (ch.receiveAll cfg their).name = ch.name :=
  foldl_receive_valid htheir (fun _ => sent_of_mem htheir) hch hname

theorem receiveAll_params (m : ParamMode) : (ch.receiveAll cfg their).params m =
      if their.mode m.letter then
        (their.params m).map (m.received cfg.toParamConfig (ch.mode 'r' || their.mode 'r'))
      else ch.params m := by
  have hlocal : localLetter m.letter = false := by cases m <;> decide
  have hmem : m.letter ∈ (cfg.modesOf their).map letter ↔ their.mode m.letter = true := by
    rw [mem_letters_modesOf htheir, and_iff_left hlocal]
  have hall : ∀ cm ∈ cfg.modesOf their, Sent cfg their cm := fun cm => sent_of_mem htheir
  have hnodup := modesOf_nodup cfg their
  unfold receiveAll
  split_ifs with hmode
  · by_cases hm : m = .history
    · subst hm
      obtain ⟨early, late, hsplit, hr, hreq, hh, hhl⟩ :=
        modesOf_split htheir 14 (show 'r' ∉ _ ∧ _ by decide) (show 'H' ∉ _ ∧ _ by decide)
      rw [hsplit] at hall hnodup ⊢
      rw [map_append] at hnodup
      have hclears : (early.any fun cm => clears cm.letter 'r') = false := by simp [clears]
      have hin : ParamMode.history.letter ∈ late.map letter := of_decide_eq_true (hhl.trans hmode)
      rw [foldl_append, foldl_receive_params_of_mem htheir
        (fun cm h => hall cm (mem_append_right _ h)) hnodup.of_append_right
        hin (fun _ => hr), foldl_receive_mode_set htheir
        (fun cm h => hall cm (mem_append_left _ h)) hclears, hreq]
    · rw [foldl_receive_params_of_mem htheir hall hnodup (hmem.mpr hmode) fun h => absurd h hm,
        funext (ParamMode.received_of_ne hm cfg.toParamConfig (ch.mode 'r')),
        funext (ParamMode.received_of_ne hm cfg.toParamConfig _)]
  · exact foldl_receive_params_of_notMem htheir hall (fun h => hmode (hmem.mp h)) ch

end ReceiveAll

/-! ## Through the buffers -/

/-- What the parameter of a mode takes in a buffer at most, with the blank behind it. -/
def Cmode.maxLength (cm : Cmode) : ℕ :=
  match cm.kind with
  | .param m => m.maxLength + 1
  | _ => 0

def Cmode.hasParam (cm : Cmode) : Bool :=
  match cm.kind with
  | .param _ => true
  | _ => false

section Buffers

variable {their : Channel} (htheir : their.Valid cfg)
include htheir

/-- A parameter of a channel has no blanks and is short enough. -/
theorem Sent.paramText {cm : Cmode} (h : Sent cfg their cm) :
    (their.paramText cm = none ∧ cm.hasParam = false ∧ cm.maxLength = 0) ∨
    ∃ text, their.paramText cm = some text ∧ cm.hasParam = true ∧ (∀ c ∈ text, c ≠ ' ') ∧
      text.length + 1 ≤ cm.maxLength := by
  unfold hasParam maxLength
  rcases h.receive htheir with ⟨hkind, htext, -⟩ | ⟨m, v, hkind, -, -, hv, htext, -⟩
  · rw [hkind]
    exact .inl ⟨htext, rfl, rfl⟩
  · obtain ⟨-, hlength, hchars⟩ := m.getParam_word hv
    rw [hkind]
    exact .inr ⟨_, htext, rfl, hchars, Nat.succ_le_succ hlength⟩

theorem paramTexts_bounds (l : List Cmode) (hl : ∀ cm ∈ l, Sent cfg their cm) :
    (∀ w ∈ l.filterMap their.paramText, ∀ c ∈ w, c ≠ ' ') ∧
    (unwords ' ' (l.filterMap their.paramText)).length ≤ (l.map maxLength).sum ∧
    (l.filterMap their.paramText).length = l.countP hasParam := by
  induction l with
  | nil => exact ⟨forall_mem_nil _, Nat.le_refl _, rfl⟩
  | cons cm l ih =>
    obtain ⟨hsent, hl⟩ := forall_mem_cons.mp hl
    obtain ⟨hwords, hsum, hcount⟩ := ih hl
    rcases hsent.paramText htheir with
      ⟨htext, hparam, hzero⟩ | ⟨text, htext, hparam, hword, hlength⟩
    · rw [filterMap_cons_none htext, map_cons, sum_cons, hzero, Nat.zero_add,
        countP_cons_of_neg (by simp [hparam])]
      exact ⟨hwords, hsum, hcount⟩
    · have hcons : (unwords ' ' (text :: l.filterMap their.paramText)).length =
          text.length + 1 + (unwords ' ' (l.filterMap their.paramText)).length := by
        simp only [unwords, flatMap_cons, length_append, length_singleton]
      rw [filterMap_cons_some htext, hcons, countP_cons_of_pos hparam, length_cons, hcount]
      exact ⟨forall_mem_cons.mpr ⟨hword, hwords⟩, Nat.add_le_add hlength hsum, rfl⟩

theorem channelModes_words : (∀ w ∈ (channelModes cfg their).2, ∀ c ∈ w, c ≠ ' ') ∧
    (unwords ' ' (channelModes cfg their).2).length ≤ 205 ∧
    (channelModes cfg their).2.length < maxmodeparams := by
  obtain ⟨hwords, hsum, hcount⟩ :=
    paramTexts_bounds htheir (cfg.modesOf their) fun cm => sent_of_mem htheir
  have hsub := modesOf_sublist cfg their
  have hlength : ((cfg.modesOf their).map maxLength).sum ≤ 205 :=
    Nat.le_trans ((hsub.map maxLength).sum_le_sum fun _ _ => Nat.zero_le _) (by decide)
  have hfew : (cfg.modesOf their).countP hasParam ≤ 6 :=
    Nat.le_trans (hsub.countP_le) (by decide)
  exact ⟨hwords, Nat.le_trans hsum hlength, Nat.lt_of_le_of_lt (hcount ▸ hfew) (by decide)⟩

/-- The parameters come out of the buffer, apart from an empty one. -/
theorem sjoinParams_channelModes :
    sjoinParams (channelModes cfg their).2 = (channelModes cfg their).2.filter (· ≠ []) := by
  obtain ⟨hwords, hlength, -⟩ := channelModes_words htheir
  unfold sjoinParams mp2parv parabuf
  rw [take_of_length_le (by omega), words_unwords hwords]

end Buffers

/-! ## What the text carries -/

/-- What the text of a channel's modes carries: with an empty parameter +L is a letter without one. -/
def Channel.told (ch : Channel) : Channel :=
  if ch.params .link = some [] then
    { ch with
      mode := update ch.mode ParamMode.link.letter false
      params := update ch.params .link none }
  else ch

section Told

variable {their : Channel}

theorem told_name (their : Channel) : their.told.name = their.name := by
  unfold told
  split <;> rfl

theorem told_of_ne (hlink : their.params .link ≠ some []) : their.told = their := if_neg hlink

theorem told_mode (their : Channel) (c : Char) : their.told.mode c =
    (their.mode c && !(c = ParamMode.link.letter && decide (their.params .link = some []))) := by
  unfold told
  by_cases hlink : their.params .link = some []
  · rw [if_pos hlink]
    by_cases hc : c = ParamMode.link.letter <;> simp [hlink, hc]
  · rw [if_neg hlink]
    simp [hlink]

theorem told_params_of_ne (hm : m ≠ .link) (their : Channel) : their.told.params m = their.params m := by
  unfold told
  split
  · exact update_of_ne hm _ _
  · rfl

theorem told_params_link (their : Channel) :
    their.told.params .link = (their.params .link).filter (· ≠ []) := by
  unfold told
  by_cases hlink : their.params .link = some []
  · rw [if_pos hlink, hlink]
    show update their.params .link none .link = none
    exact update_self ParamMode.link none their.params
  · rw [if_neg hlink]
    rcases hv : their.params .link with - | v
    · rfl
    · symm
      rw [Option.filter_eq_some_iff]
      exact ⟨rfl, decide_eq_true_iff.mpr fun h => hlink (by rw [hv, h])⟩

theorem filterMap_paramText_eq_nil {l : List Cmode} (ch : Channel)
    (hl : ∀ cm ∈ l, cm.hasParam = false) : l.filterMap ch.paramText = [] := by
  refine filterMap_eq_nil_iff.mpr fun cm h => ?_
  have hparam := hl cm h
  unfold hasParam at hparam
  unfold Channel.paramText
  split at hparam <;> simp_all

/-- A parameter that is told is told as it is. -/
theorem Sent.paramText_told {cm : Cmode} (h : Sent cfg their.told cm) :
    their.paramText cm = their.told.paramText cm := by
  by_cases hlink : their.params .link = some []
  · unfold Channel.paramText Channel.getParameter
    split
    · rename_i m hm
      rw [told_params_of_ne]
      rintro rfl
      have hletter := (letter_of_param (mem_channelmodes.mp h.mem).1 hm).1
      have hmode := h.mode
      rw [told_mode, hletter, hlink] at hmode
      simp at hmode
    · rfl
  · rw [told_of_ne hlink]

variable (htheir : their.Valid cfg)
include htheir

theorem Channel.Valid.told : their.told.Valid cfg := by
  by_cases hlink : their.params .link = some []
  · have hmode : ∀ c, their.told.mode c = true → c ≠ ParamMode.link.letter ∧ their.mode c = true := by
      intro c hc
      rw [told_mode, hlink] at hc
      simpa [and_comm] using hc
    refine ⟨fun m hm => ?_, fun m hne hm => ?_, fun c hc => htheir.loaded c (hmode c hc).2⟩
    · obtain ⟨hletter, hset⟩ := hmode _ hm
      rw [told_params_of_ne (fun h => hletter (congrArg _ h)), told_name]
      exact htheir.set m hset
    · by_cases hm' : m = .link
      · subst hm'
        rw [told_params_link, hlink]
        rfl
      · rw [told_params_of_ne hm']
        refine htheir.unset m hne ?_
        rw [told_mode, decide_eq_false fun h => hm' (letter_injective h)] at hm
        simpa using hm
  · rwa [told_of_ne hlink]

/-- The parameters that the text carries are not empty. -/
theorem told_texts (l : List Cmode) (hl : ∀ cm ∈ l, Sent cfg their.told cm) :
    ∀ w ∈ l.filterMap their.told.paramText, w ≠ [] := by
  intro w hw
  obtain ⟨cm, hcm, htext⟩ := mem_filterMap.mp hw
  rcases (hl cm hcm).receive htheir.told with ⟨-, hnone, -⟩ | ⟨m, v, -, -, hv, hvalid, hsome, -⟩
  · rw [hnone] at htext
    cases htext
  · obtain rfl := Option.some.inj (hsome.symm.trans htext)
    intro hempty
    obtain rfl := (m.getParam_word hvalid).1 hempty
    rw [told_params_link] at hv
    exact of_decide_eq_true (Option.filter_eq_some_iff.mp hv).2 hempty

/-- With an empty parameter +L is the last mode that has one, and all others are in the text. -/
theorem modesOf_of_empty (hlink : their.params .link = some []) : ∃ early cm late,
    cfg.modesOf their = early ++ cm :: late ∧ cfg.modesOf their.told = early ++ late ∧
    cm ∈ cfg.channelmodes ∧ cm.kind = .param .link ∧ their.paramText cm = some [] ∧
    ∀ cm' ∈ late, cm'.hasParam = false := by
  have hset : their.mode ParamMode.link.letter = true := by
    by_contra hunset
    rw [htheir.unset .link (by decide) (by simpa using hunset)] at hlink
    cases hlink
  obtain ⟨cm, hcm, hletter⟩ := mem_map.mp ((mem_letters_modesOf htheir).mpr ⟨hset, by decide⟩)
  have hmem := (sent_of_mem htheir hcm).mem
  have hkind := kind_of_letter (mem_channelmodes.mp hmem).1 hletter
  obtain ⟨early, late, hsplit⟩ := append_of_mem hcm
  have hnodup := modesOf_nodup cfg their
  have horder : allChannelmodes.Pairwise fun cm cm' =>
      cm.letter = ParamMode.link.letter → cm'.hasParam = false := by decide
  have hlate := horder.sublist (modesOf_sublist cfg their)
  rw [hsplit] at hnodup hlate
  rw [map_append, map_cons, nodup_append, nodup_cons] at hnodup
  obtain ⟨-, ⟨hnotlate, -⟩, hdisjoint⟩ := hnodup
  have hfilter : cfg.modesOf their.told =
      (cfg.modesOf their).filter fun cm => cm.letter ≠ ParamMode.link.letter := by
    unfold Config.modesOf
    rw [filter_filter]
    refine filter_congr fun cm' _ => ?_
    rw [told_mode, hlink]
    by_cases h : cm'.letter = ParamMode.link.letter <;> simp [h]
  refine ⟨early, cm, late, hsplit, ?_, hmem, hkind, ?_, fun cm' h => ?_⟩
  · rw [hfilter, hsplit, filter_append, filter_cons_of_neg (by simp [hletter]),
      filter_eq_self.mpr fun cm' h => ?_, filter_eq_self.mpr fun cm' h => ?_]
    · refine decide_eq_true fun heq => hnotlate ?_
      rw [hletter, ← heq]
      exact mem_map_of_mem h
    · refine decide_eq_true fun heq => hdisjoint cm'.letter (mem_map_of_mem h) cm.letter
        mem_cons_self (heq.trans hletter.symm)
  · simp [Channel.paramText, Channel.getParameter, hkind, hlink, ParamMode.getParam]
  · exact (pairwise_cons.mp (pairwise_append.mp hlate).2.1).1 cm' h hletter

/-- `set_mode` with the modes of another channel. -/
theorem setMode_channelModes {ch : Channel} (hch : ch.Valid cfg) (hname : their.name = ch.name) :
    (setMode cfg link.source ((channelModes cfg their).1.take 511)
      (sjoinParams (channelModes cfg their).2) ch).1 = ch.receiveAll cfg their.told := by
  have hsent : ∀ cm ∈ cfg.modesOf their.told, Sent cfg their.told cm := fun cm =>
    sent_of_mem htheir.told
  have hname' := (told_name their).trans hname
  have hroom : ((cfg.modesOf their.told).filterMap their.told.paramText).length < maxmodeparams :=
    (channelModes_words htheir.told).2.2
  have hletters : (channelModes cfg their).1.length ≤ 511 := by
    have hall : allChannelmodes.length ≤ 510 := by decide
    have hle := (modesOf_sublist cfg their).length_le.trans hall
    simp only [channelModes, length_cons, length_map]
    omega
  rw [sjoinParams_channelModes htheir, take_of_length_le hletters]
  show (setModeLoop cfg link.source true
    (((cfg.modesOf their).filterMap their.paramText).filter (· ≠ []))
    ('+' :: (cfg.modesOf their).map letter) ⟨ch, []⟩).channel = _
  rw [setModeLoop, if_pos rfl]
  -- an empty parameter is lost in the line, so that its letter has none when it is read
  by_cases hlink : their.params .link = some []
  · obtain ⟨early, cm, late, hsplit, htold, hcm, hkind, hempty, hlate⟩ := modesOf_of_empty htheir hlink
    rw [htold] at hsent hroom
    have hearly : ∀ cm ∈ early, Sent cfg their.told cm := fun cm h => hsent cm (mem_append_left _ h)
    have hnodup : ((early ++ late).map letter).Nodup := htold ▸ modesOf_nodup cfg their.told
    rw [map_append, nodup_append] at hnodup
    have hnone := fun their => filterMap_paramText_eq_nil their hlate
    have htexts : early.filterMap their.paramText = early.filterMap their.told.paramText :=
      filterMap_congr fun cm' h => (hearly cm' h).paramText_told
    have hparams : ((cfg.modesOf their).filterMap their.paramText).filter (· ≠ []) =
        early.filterMap their.told.paramText := by
      rw [hsplit, filterMap_append, filterMap_cons_some hempty, hnone, filter_append, htexts,
        filter_eq_self.mpr fun w hw => decide_eq_true (told_texts htheir early hearly w hw)]
      simp
    rw [filterMap_append, hnone, append_nil] at hroom
    obtain ⟨pvar', hloop, hlength, hnew⟩ := setModeLoop_append link htheir.told early hearly
      hnodup.1 hch hname' (by rwa [length_nil, Nat.zero_add]) (forall_mem_nil _) []
      (cm.letter :: late.map letter)
    obtain ⟨hvalid, hname''⟩ := foldl_receive_valid htheir.told hearly hch hname'
    have hfinish := @setModeLoop_sent cfg link _ pvar' _ htheir.told late
      (fun cm h => hsent cm (mem_append_right _ h)) hnodup.2.1 hvalid (hname'.trans hname''.symm)
      (by rw [hnone, length_nil] at *; omega) fun p hp h => ?_
    · rw [hnone] at hfinish
      rw [hparams, hsplit, map_append, map_cons, ← append_nil (early.filterMap _), hloop,
        setModeLoop_missing link hcm hkind, hfinish]
      unfold receiveAll
      rw [htold, foldl_append]
    · rcases hnew p hp with hp | hp
      · exact absurd hp not_mem_nil
      · exact hnodup.2.2 _ hp _ h rfl
  · rw [told_of_ne hlink] at hsent hroom hname' ⊢
    have htexts := told_texts htheir (cfg.modesOf their)
    rw [told_of_ne hlink] at htexts
    rw [filter_eq_self.mpr fun w hw => decide_eq_true (htexts hsent w hw)]
    exact setModeLoop_sent link htheir _ hsent (modesOf_nodup cfg their) hch hname'
      (by rwa [length_nil, Nat.zero_add]) (forall_mem_nil _)

end Told

end ObbyIRCd.Chanmode
