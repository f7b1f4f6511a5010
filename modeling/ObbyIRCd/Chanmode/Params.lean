import Mathlib.Data.List.Lex
import ObbyIRCd.Chanmode.Flood
import ObbyIRCd.Chanmode.History

/-!
# Channel modes with a parameter

The handlers of +k, +l, +L, +H, +f and +F: a check of the text of a parameter (`is_ok` with
`EXCHK_PARAM`), its conversion (`conv_param`), storing (`put_param`), printing (`get_param`) and the
comparison when two servers merge a channel (`sjoin_check`). A stored value prints as a text that the
other handlers accept and give the value back for; only +H may be lowered on the way, to the limits
that apply to the channel (`received`).
-/

namespace ObbyIRCd.Chanmode

open List ChannelFloodProtection
open HistoryChanMode (cap getParam)

/-- The channel modes that have a parameter. -/
inductive ParamMode
  | key | limit | link | history | flood | profile
deriving DecidableEq, Repr

namespace ParamMode

def letter : ParamMode → Char
  | key => 'k'
  | limit => 'l'
  | link => 'L'
  | history => 'H'
  | flood => 'f'
  | profile => 'F'

/-- `unset_with_param`. -/
def unsetWithParam : ParamMode → Bool
  | key | link | flood => true
  | limit | history | profile => false

@[reducible]
def Value : ParamMode → Type
  | key | link | profile => List Char
  | limit => ℕ
  | history => HistoryChanMode
  | flood => ChannelFloodProtection

end ParamMode

/-- What the configuration says about the parameters. -/
structure ParamConfig where
  /-- The limits of +H for channels that are +r, and for the others. -/
  registered : HistoryChanMode
  unregistered : HistoryChanMode
  registered_valid : registered.Valid
  unregistered_valid : unregistered.Valid
  flood : FloodConfig
  /-- The names of the flood profiles, which are in lower case. -/
  profiles : List (List Char)
  profiles_valid : ∀ p ∈ profiles, p ≠ [] ∧ p.length ≤ 24 ∧
    ∀ c ∈ p, c.isLower = true ∨ c.isDigit = true ∨ c = '_' ∨ c = '-'
  /-- `default_profile`: the flood profile of channels that are -F. -/
  defaultProfile : Option (List Char)
  /-- What `allowed-channelchars` asks of the name of a channel. -/
  channelchars : List Char → Bool

/-- `valid_key_char`. -/
def validKeyChar (c : Char) : Bool := c ≠ ':' && c ≠ ',' && decide (' ' < c)

/-- `transform_channel_key`, where `KEYLEN` is 23. -/
def transformChannelKey (s : List Char) : List Char := (s.takeWhile validKeyChar).take 23

/-- `transform_channel_limit`. -/
def transformChannelLimit (s : List Char) : ℕ := (max 1 (min (atoi s) 1000000)).toNat

variable (cfg : ParamConfig)

/-- `valid_channelname`, with the types of channels `#`, `^` and `$`. -/
def validChannelname (s : List Char) : Bool :=
  s.head?.all (['#', '^', '$'].contains ·) && decide (s.length ≤ 32) &&
    s.all (fun c => decide (' ' < c) && c ≠ ',' && c ≠ ':') && cfg.channelchars s

/-- `get_channel_flood_profile`. -/
def getChannelFloodProfile (s : List Char) : Option (List Char) :=
  cfg.profiles.find? fun p => lower p = lower s

/-- The profile that `default_profile` names; `normal` is there in any case. -/
def ParamConfig.defaultBase : Option (List Char) :=
  cfg.defaultProfile.map fun p => (getChannelFloodProfile cfg p).getD "normal".toList

def ParamConfig.historyLimit (registered : Bool) : HistoryChanMode :=
  if registered then cfg.registered else cfg.unregistered

namespace ParamMode

/-- `is_ok` with `EXCHK_PARAM`, for the channel `own` that is +r or not. -/
def isOk (cfg : ParamConfig) (own : List Char) (registered localclient : Bool) :
    ParamMode → List Char → Bool
  | key, s => decide (s.length ≤ 23) && s.all validKeyChar
  | limit, s => decide (0 < atoi s)
  | link, s => !s.contains ',' && validChannelname cfg s && lower s ≠ lower own
  | history, s => (historyParseChanmode (cfg.historyLimit registered) s).isSome
  | flood, s => (parseChannelModeFlood cfg.flood true localclient 0 s).1
  | profile, s => (getChannelFloodProfile cfg s).isSome

/-- `conv_param`. -/
def convParam (cfg : ParamConfig) (registered localclient : Bool) :
    ParamMode → List Char → Option (List Char)
  | key, s => if transformChannelKey s = [] then none else some (transformChannelKey s)
  | limit, s => some (decimal (transformChannelLimit s))
  | link, s => if validChannelname cfg s then some s else none
  | history, s =>
    (historyParseChanmode (cfg.historyLimit registered) s).map getParam
  | flood, s =>
    let (ok, fld) := parseChannelModeFlood cfg.flood false localclient 0 s
    if ok then some fld.string else none
  | profile, s => getChannelFloodProfile cfg s

/-- `put_param`, over what was stored before. -/
def putParam (cfg : ParamConfig) : (m : ParamMode) → Option m.Value → List Char → Option m.Value
  | key, _, s => some (transformChannelKey s)
  | limit, _, s => some (transformChannelLimit s)
  | link, _, s => some (s.take 32)
  | history, _, s => historyParseChanmode cfg.registered s
  | flood, old, s =>
    let per := match old with
      | some fld => ChannelFloodProtection.per fld
      | none => 0
    some (parseChannelModeFlood cfg.flood false false per s).2
  | profile, _, s => some s

/-- `free_param`, with `soft`, on what is stored: +F goes back to the default profile. -/
def freeParam (cfg : ParamConfig) : (m : ParamMode) → Option m.Value → Option m.Value
  | profile, some p => if cfg.defaultProfile = some p then some p else cfg.defaultBase
  | _, _ => none

/-- `get_param`. -/
def getParam : (m : ParamMode) → m.Value → List Char
  | key, v => v
  | limit, v => decimal v
  | link, v => v
  | history, v => HistoryChanMode.getParam v
  | flood, v => ChannelFloodProtection.string v
  | profile, v => v

end ParamMode

/-- The results of `sjoin_check`; a merge comes with our value after it. -/
inductive SjoinCheck (α : Type)
  | same | weWon | theyWon
  | merge (our : α)

/-- The larger of two texts wins. -/
def strcmpCheck (our their : List Char) : SjoinCheck (List Char) :=
  if our = their then .same else if their < our then .weWon else .theyWon

/-- `sjoin_check`. -/
def ParamMode.sjoinCheck : (m : ParamMode) → m.Value → m.Value → SjoinCheck m.Value
  | .key, our, their => strcmpCheck our their
  | .limit, our, their =>
    let our : ℕ := our
    let their : ℕ := their
    if our = their then .same else if their < our then .weWon else .theyWon
  | .link, our, their => strcmpCheck our their
  | .history, our, their =>
    let our : HistoryChanMode := our
    let their : HistoryChanMode := their
    if our = their then .same else .merge (our.merge their)
  | .flood, our, their =>
    let our : ChannelFloodProtection := our
    let their : ChannelFloodProtection := their
    if our.same their then .same else .merge (our.merge their)
  | .profile, our, their => strcmpCheck our their

/-! ## Stored values -/

def HistoryChanMode.Within (h limit : HistoryChanMode) : Prop :=
  h.maxLines ≤ limit.maxLines ∧ h.maxTime ≤ limit.maxTime

def KeyValid (s : List Char) : Prop := s ≠ [] ∧ s.length ≤ 23 ∧ ∀ c ∈ s, validKeyChar c = true

def LimitValid (n : ℕ) : Prop := 1 ≤ n ∧ n ≤ 1000000

/-- The channel of +L as it is stored on the channel `own`. The empty text is one of them. -/
def LinkValid (own s : List Char) : Prop :=
  validChannelname cfg s = true ∧ lower s ≠ lower own

/-- A value as it is stored on the channel `own`. -/
def ParamMode.Valid (own : List Char) : (m : ParamMode) → m.Value → Prop
  | .key, v => KeyValid v
  | .limit, v => LimitValid v
  | .link, v => LinkValid cfg own v
  | .history, v => HistoryChanMode.Valid v ∧ HistoryChanMode.Within v cfg.registered
  | .flood, v => ChannelFloodProtection.Valid cfg.flood v
  | .profile, v => List.Mem v cfg.profiles

/-- The value that another server stores for the text of a value. -/
def ParamMode.received (registered : Bool) : (m : ParamMode) → m.Value → m.Value
  | .history, v => cap v (cfg.historyLimit registered)
  | .key, v | .limit, v | .link, v | .flood, v | .profile, v => v

/-- The length of the longest text of a parameter. -/
def ParamMode.maxLength : ParamMode → ℕ
  | .key => 23
  | .limit => 10
  | .link => 32
  | .history => 22
  | .flood => 88
  | .profile => 24

variable {h limit : HistoryChanMode}

theorem cap_eq_iff : h.cap limit = h ↔ h.Within limit := by
  unfold cap HistoryChanMode.Within
  rw [HistoryChanMode.mk.injEq, min_eq_left_iff, min_eq_left_iff]

theorem HistoryChanMode.Valid.cap (hv : h.Valid) (hl : limit.Valid) :
    (h.cap limit).Valid where
  lines_pos := Nat.le_min.mpr ⟨hv.lines_pos, hl.lines_pos⟩
  lines_lt := Nat.lt_of_le_of_lt (Nat.min_le_left _ _) hv.lines_lt
  time_pos := Nat.le_min.mpr ⟨hv.time_pos, hl.time_pos⟩
  time_lt := Nat.lt_of_le_of_lt (Nat.min_le_left _ _) hv.time_lt
  minutes := by
    show 60 ∣ min h.maxTime limit.maxTime
    rcases Nat.le_total h.maxTime limit.maxTime with hle | hle
    · rw [Nat.min_eq_left hle]
      exact hv.minutes
    · rw [Nat.min_eq_right hle]
      exact hl.minutes

theorem ParamConfig.historyLimit_valid (registered : Bool) :
    (cfg.historyLimit registered).Valid := by
  unfold ParamConfig.historyLimit
  split
  · exact cfg.registered_valid
  · exact cfg.unregistered_valid

theorem toLower_of_profile_char {c : Char}
    (h : c.isLower = true ∨ c.isDigit = true ∨ c = '_' ∨ c = '-') : c.toLower = c := by
  refine dif_neg ?_
  rintro ⟨hge, hle⟩
  rcases h with h | h | rfl | rfl
  · have hlow := of_decide_eq_true (Bool.and_eq_true_iff.mp h).1
    exact absurd (UInt32.le_trans hlow hle) (by decide)
  · have hhigh := of_decide_eq_true (Bool.and_eq_true_iff.mp h).2
    exact absurd (UInt32.le_trans hge hhigh) (by decide)
  · exact absurd hle (by decide)
  · exact absurd hge (by decide)

section Laws

variable {cfg : ParamConfig} {own : List Char}

theorem getChannelFloodProfile_of_mem {p : List Char} (hp : p ∈ cfg.profiles) :
    getChannelFloodProfile cfg p = some p := by
  have hfold : ∀ q ∈ cfg.profiles, lower q = q := fun q hq =>
    (map_congr_left fun c hc => toLower_of_profile_char ((cfg.profiles_valid q hq).2.2 c hc)).trans
      (map_id q)
  unfold getChannelFloodProfile
  rcases hfind : cfg.profiles.find? fun q => lower q = lower p with - | q
  · exact absurd (decide_eq_true rfl) (find?_eq_none.mp hfind p hp)
  have heq : lower q = lower p := by simpa using find?_some hfind
  have hq := mem_of_find?_eq_some hfind
  rw [hfold q hq, hfold p hp] at heq
  rw [heq]

theorem KeyValid.transform {s : List Char} (hs : KeyValid s) : transformChannelKey s = s := by
  unfold transformChannelKey
  have hall : s.takeWhile validKeyChar = s := by
    have happend : (s ++ []).takeWhile validKeyChar = s ++ [].takeWhile validKeyChar :=
      takeWhile_append_of_pos hs.2.2
    simpa using happend
  rw [hall, take_of_length_le hs.2.1]

theorem LimitValid.atoi_eq {n : ℕ} (hn : LimitValid n) : atoi (decimal n) = n :=
  atoi_decimal (Nat.lt_of_le_of_lt hn.2 (by decide))

theorem LimitValid.transform {n : ℕ} (hn : LimitValid n) : transformChannelLimit (decimal n)
    = n := by
  obtain ⟨hpos, hle⟩ := hn
  unfold transformChannelLimit
  rw [LimitValid.atoi_eq ⟨hpos, hle⟩]
  omega

theorem LinkValid.chars {s : List Char} (hs : LinkValid cfg own s) :
    s.length ≤ 32 ∧ ∀ c ∈ s, ' ' < c ∧ c ≠ ',' := by
  have hvalid := hs.1
  unfold validChannelname at hvalid
  simp only [Bool.and_eq_true, decide_eq_true_eq, all_eq_true] at hvalid
  obtain ⟨⟨⟨-, hlength⟩, hchars⟩, -⟩ := hvalid
  exact ⟨hlength, fun c hc => ⟨(hchars c hc).1.1, by simpa using (hchars c hc).1.2⟩⟩

namespace ParamMode

variable (m : ParamMode) {v : m.Value}

theorem freeParam_of_ne (hm : m ≠ .profile) (old : Option m.Value) : m.freeParam cfg old = none := by
  cases m with
  | profile => exact absurd rfl hm
  | key | limit | link | history | flood => rfl

variable (hv : m.Valid cfg own v)
include hv

theorem isOk_getParam (registered : Bool) :
    m.isOk cfg own registered false (m.getParam v) = true := by
  cases m with
  | key =>
    obtain ⟨-, hlength, hchars⟩ : KeyValid v := hv
    exact Bool.and_eq_true_iff.mpr ⟨decide_eq_true hlength, all_eq_true.mpr hchars⟩
  | limit =>
    have hvalue := LimitValid.atoi_eq hv
    have hpos := hv.1
    refine decide_eq_true ?_
    show 0 < atoi (decimal v)
    rw [hvalue]
    exact Int.natCast_pos.mpr hpos
  | link =>
    have hcomma : contains v ',' = false := by
      rw [← Bool.not_eq_true, contains_iff_mem]
      exact fun hmem => ((LinkValid.chars hv).2 ',' hmem).2 rfl
    obtain ⟨hvalid, hself⟩ : LinkValid cfg own v := hv
    show (!contains v ',' && validChannelname cfg v && decide (lower v ≠ lower own)) = true
    rw [hcomma, hvalid, decide_eq_true hself]
    rfl
  | history =>
    show (historyParseChanmode _ (HistoryChanMode.getParam v)).isSome = true
    rw [historyParseChanmode_getParam hv.1]
    rfl
  | flood =>
    show (parseChannelModeFlood _ _ _ _ (string v)).1 = true
    rw [parseChannelModeFlood_string hv]
  | profile =>
    show (getChannelFloodProfile cfg v).isSome = true
    rw [getChannelFloodProfile_of_mem hv]
    rfl

theorem convParam_getParam (registered : Bool) :
    m.convParam cfg registered false (m.getParam v) =
      some (m.getParam (m.received cfg registered v)) := by
  cases m with
  | key =>
    show (if transformChannelKey v = [] then none else some (transformChannelKey v)) = some v
    rw [KeyValid.transform hv, if_neg hv.1]
  | limit =>
    show some (decimal (transformChannelLimit (decimal v))) = some (decimal v)
    rw [LimitValid.transform hv]
  | link =>
    exact if_pos hv.1
  | history =>
    show (historyParseChanmode _ (HistoryChanMode.getParam v)).map _ = _
    rw [historyParseChanmode_getParam hv.1]
    rfl
  | flood =>
    show (match parseChannelModeFlood cfg.flood false false 0 (string v) with
      | (ok, fld) => if ok then some fld.string else none) = _
    rw [parseChannelModeFlood_string hv]
    rfl
  | profile =>
    exact getChannelFloodProfile_of_mem hv

theorem putParam_getParam
    (old : Option m.Value) : m.putParam cfg old (m.getParam v) = some v := by
  cases m with
  | key => exact congrArg some (KeyValid.transform hv)
  | limit => exact congrArg some (LimitValid.transform hv)
  | link => exact congrArg some (take_of_length_le (LinkValid.chars hv).1)
  | history =>
    show historyParseChanmode cfg.registered (HistoryChanMode.getParam v) = some v
    rw [historyParseChanmode_getParam hv.1, cap_eq_iff.mpr hv.2]
  | flood =>
    refine congrArg some ?_
    show (parseChannelModeFlood cfg.flood false false _ (string v)).2 = v
    rw [parseChannelModeFlood_string hv]
  | profile => rfl

theorem received_valid (registered : Bool) :
    m.Valid cfg own (m.received cfg registered v) := by
  cases m with
  | history =>
    obtain ⟨hvalid, hlines, htime⟩ := hv
    refine ⟨HistoryChanMode.Valid.cap hvalid (cfg.historyLimit_valid registered), ?_, ?_⟩
    · exact Nat.le_trans (Nat.min_le_left _ _) hlines
    · exact Nat.le_trans (Nat.min_le_left _ _) htime
  | key | limit | link | flood | profile => exact hv

theorem received_registered : m.received cfg true v = v := by
  cases m with
  | history => exact cap_eq_iff.mpr hv.2
  | key | limit | link | flood | profile => rfl

omit hv

theorem received_of_ne {m : ParamMode} (hm : m ≠ .history) (cfg : ParamConfig) (registered : Bool)
    (v : m.Value) : m.received cfg registered v = v := by
  cases m with
  | history => exact absurd rfl hm
  | key | limit | link | flood | profile => rfl

/-- The text of a parameter is short and has no blanks. Only that of +L can be empty. -/
theorem getParam_word (hv : m.Valid cfg own v) :
    (m.getParam v = [] → m = .link) ∧ (m.getParam v).length ≤ m.maxLength ∧
      ∀ c ∈ m.getParam v, c ≠ ' ' := by
  cases m with
  | key =>
    obtain ⟨hne, hlength, hchars⟩ : KeyValid v := hv
    refine ⟨fun h => absurd h hne, hlength, ?_⟩
    rintro c hc rfl
    exact absurd (hchars ' ' hc) (by decide)
  | limit =>
    have hlength := length_decimal_le (n := v) (Nat.lt_of_le_of_lt hv.2 (by decide))
    exact ⟨fun h => absurd h (decimal_ne_nil v), hlength, fun c hc => (ne_of_mem_decimal hc).2.2⟩
  | link =>
    obtain ⟨hlength, hchars⟩ := LinkValid.chars hv
    refine ⟨fun _ => rfl, hlength, ?_⟩
    rintro c hc rfl
    exact absurd (hchars ' ' hc).1 (by decide)
  | history =>
    refine ⟨fun h => absurd h ?_, hv.1.inRange.getParam_length_le, hv.1.inRange.getParam_chars⟩
    exact append_ne_nil_of_left_ne_nil (decimal_ne_nil _) _
  | flood =>
    exact ⟨fun h => absurd h (cons_ne_nil _ _), Valid.length_string_le hv, Valid.string_chars hv⟩
  | profile =>
    obtain ⟨hne, hlength, hchars⟩ := cfg.profiles_valid v hv
    refine ⟨fun h => absurd h hne, hlength, ?_⟩
    rintro c hc rfl
    exact absurd (hchars ' ' hc) (by decide)

/-- Different stored values have different texts. -/
theorem getParam_injective {v w : m.Value} (hv : m.Valid cfg own v)
    (hw : m.Valid cfg own w) (h : m.getParam v = m.getParam w) : v = w := by
  have hput := m.putParam_getParam hv none
  rw [h, m.putParam_getParam hw none] at hput
  exact (Option.some.inj hput).symm

/-! ### Texts that are stored -/

/-- What anyone sets is stored as a valid value. -/
theorem putParam_valid {registered localclient : Bool} {s t : List Char}
    (hunset : localclient = true → cfg.flood.defaultUnsettime ≤ 255)
    (hok : m.isOk cfg own registered localclient s = true)
    (hconv : m.convParam cfg registered localclient s = some t) (old : Option m.Value) :
    ∃ v, m.putParam cfg old t = some v ∧ m.Valid cfg own v := by
  cases m with
  | key =>
    unfold convParam at hconv
    dsimp only at hconv
    split at hconv
    · cases hconv
    rename_i hne
    obtain rfl := Option.some.inj hconv
    have hvalid : KeyValid (transformChannelKey s) := by
      refine ⟨hne, length_take_le _ _, fun c hc => ?_⟩
      exact all_eq_true.mp all_takeWhile c (mem_of_mem_take hc)
    exact ⟨_, congrArg some hvalid.transform, hvalid⟩
  | limit =>
    obtain rfl := Option.some.inj hconv
    have hvalid : LimitValid (transformChannelLimit s) := by
      unfold LimitValid transformChannelLimit
      omega
    exact ⟨_, congrArg some hvalid.transform, hvalid⟩
  | link =>
    unfold convParam at hconv
    dsimp only at hconv
    split at hconv
    · rename_i hname
      obtain rfl := Option.some.inj hconv
      have hvalid : LinkValid cfg own s :=
        ⟨hname, of_decide_eq_true (Bool.and_eq_true_iff.mp hok).2⟩
      exact ⟨s, congrArg some (take_of_length_le hvalid.chars.1), hvalid⟩
    · cases hconv
  | history =>
    obtain ⟨h, hparse, rfl⟩ := Option.map_eq_some_iff.mp hconv
    have hrange := inRange_of_parse (cfg.historyLimit_valid registered).inRange hparse
    refine ⟨h.floor.cap cfg.registered, hrange.parse_getParam _, ?_, Nat.min_le_right _ _,
      Nat.min_le_right _ _⟩
    exact hrange.floor_valid.cap cfg.registered_valid
  | flood =>
    rcases hparse : parseChannelModeFlood cfg.flood false localclient 0 s with ⟨ok, fld⟩
    unfold convParam at hconv
    dsimp only at hconv
    rw [hparse] at hconv
    cases ok with
    | false => cases hconv
    | true =>
      obtain rfl := Option.some.inj hconv
      obtain ⟨hparsed, hon⟩ := parsed_of_parse hunset hparse
      obtain ⟨fld', hstring, hvalid⟩ := parse_string_valid hparsed hon false (match old with
        | some fld => per fld
        | none => 0)
      exact ⟨fld', congrArg (some ∘ Prod.snd) hstring, hvalid⟩
  | profile =>
    exact ⟨t, rfl, mem_of_find?_eq_some hconv⟩

end ParamMode

end Laws

end ObbyIRCd.Chanmode
