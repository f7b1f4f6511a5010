import ObbyIRCd.Chanmode.Merge

/-!
# Mode lines on the wire

`make_mode_str` begins a new line when modes and parameters would pass 507 characters. The length of
what stands before them, `initial_len`, is computed and not used, and what does not fit into four
lines is dropped. So changes are sent whole if all of them, with what stands before them, fit into one
line; for parameters of ordinary length only then (`modeLines_whole`). Four bans by a user with a long
mask do not fit.
-/

namespace ObbyIRCd.Chanmode

open List ModeLine

/-- The user that sets modes, within `NICKLEN`, `USERLEN` and `HOSTLEN`. -/
structure Setter where
  nick : List Char
  username : List Char
  host : List Char
  nick_le : nick.length ≤ 30
  username_le : username.length ≤ 10
  host_le : host.length ≤ 63

/-- `initial_len`. -/
def Setter.initialLen (setter : Setter) (channel : List Char) : ℕ :=
  setter.nick.length + setter.username.length + setter.host.length + channel.length + 11

namespace ModeLine

variable (line : ModeLine)

/-- The line that a local client is sent. -/
def wire (setter : Setter) (channel : List Char) : List Char :=
  ':' :: setter.nick ++ '!' :: setter.username ++ '@' :: setter.host ++ " MODE ".toList ++ channel ++
    ' ' :: line.modes ++ ' ' :: line.params

theorem length_wire (setter : Setter) (channel : List Char) : (line.wire setter channel).length =
      setter.initialLen channel + line.modes.length + line.params.length := by
  have hmode : " MODE ".toList.length = 6 := rfl
  unfold wire Setter.initialLen
  simp only [length_append, length_cons, hmode]
  omega

theorem length_modes_push (what : Option Bool) (p : PVar) :
    (line.push what p).modes.length = line.modes.length + (sign what p.add).length + 1 := by
  simp only [push, length_append, length_singleton]

theorem length_params_push (what : Option Bool) (p : PVar) :
    (line.push what p).params.length = line.params.length + p.text.length + 1 := by
  simp only [push, length_append, length_singleton]

/-- The letters of a line, without the signs. -/
def letters : List Char := line.modes.filter fun c => c ≠ '+' ∧ c ≠ '-'

/-- All changes put on one line, however long it gets. -/
def pushAll : Option Bool → ModeLine → List PVar → ModeLine
  | _, line, [] => line
  | what, line, p :: pvar => pushAll (some p.add) (line.push what p) pvar

end ModeLine

section Pack

variable {curr : ℕ} {what : Option Bool} {line : ModeLine} {pvar : List PVar}

/-- A line only grows. -/
theorem length_le_pushAll (what : Option Bool) (line : ModeLine) (pvar : List PVar) :
    line.modes.length ≤ (pushAll what line pvar).modes.length ∧
      line.params.length ≤ (pushAll what line pvar).params.length := by
  induction pvar generalizing what line with
  | nil => exact ⟨le_rfl, le_rfl⟩
  | cons p pvar ih =>
    obtain ⟨hmodes, hparams⟩ := ih (some p.add) (line.push what p)
    rw [length_modes_push] at hmodes
    rw [length_params_push] at hparams
    unfold pushAll
    exact ⟨by omega, by omega⟩

/-- Changes that are short enough together are put on one line. -/
theorem packLines_of_short
    (h : (pushAll what line pvar).modes.length + (pushAll what line pvar).params.length ≤ 508) :
    packLines curr what line pvar = [(pushAll what line pvar).strip] := by
  induction pvar generalizing what line with
  | nil => rfl
  | cons p pvar ih =>
    unfold pushAll at h ⊢
    obtain ⟨hmodes, hparams⟩ := length_le_pushAll (some p.add) (line.push what p) pvar
    rw [length_modes_push] at hmodes
    rw [length_params_push] at hparams
    unfold packLines
    rw [if_neg (by omega), ih h]

theorem packLines_ne_nil : packLines curr what line pvar ≠ [] := by
  induction pvar generalizing curr what line with
  | nil => exact cons_ne_nil _ _
  | cons p pvar ih =>
    unfold packLines
    split_ifs
    · exact cons_ne_nil _ _
    · exact cons_ne_nil _ _
    · exact ih

/-- All changes are on one line, or the first line of several ends before a change for which 507
characters leave no room. -/
theorem packLines_cases (hcurr : curr ≠ maxmultilinemodes) :
    packLines curr what line pvar = [(pushAll what line pvar).strip] ∨
      ∃ l lines, lines ≠ [] ∧ packLines curr what line pvar = l :: lines ∧
        ∃ p ∈ pvar, 507 ≤ l.modes.length + l.params.length + p.text.length := by
  induction pvar generalizing what line with
  | nil => exact .inl rfl
  | cons p pvar ih =>
    unfold packLines
    split_ifs with hfull
    · -- the blank that goes is one of 508 characters
      refine .inr ⟨_, _, packLines_ne_nil, rfl, p, mem_cons_self, ?_⟩
      simp only [strip, length_dropLast]
      omega
    · rcases ih with hone | ⟨l, lines, hlines, hpack, p', hp', hlong⟩
      · exact .inl hone
      · exact .inr ⟨l, lines, hlines, hpack, p', mem_cons_of_mem _ hp', hlong⟩

/-- A line with a change has a sign and a letter. -/
theorem eq_nil_of_short {first : List Char} (hwhat : first = [] → what = none)
    (h : (pushAll what ⟨first, []⟩ pvar).modes.length ≤ 1) : pvar = [] := by
  by_contra hne
  obtain ⟨p, pvar, rfl⟩ := exists_cons_of_ne_nil hne
  unfold pushAll at h
  have hpush := (length_le_pushAll _ _ _).1.trans h
  rw [length_modes_push] at hpush
  rcases first with - | ⟨c, first⟩
  · rw [hwhat rfl] at hpush
    exact absurd hpush (by simp [sign])
  · rw [length_cons] at hpush
    omega

end Pack

theorem Config.firstWhat_eq_none {cfg : Config} {oldem mode : Char → Bool}
    (h : cfg.firstLine oldem mode = []) : cfg.firstWhat oldem mode = none := by
  obtain ⟨hset, hunset⟩ := append_eq_nil_iff.mp h
  have hset' : cfg.setLetters oldem mode = [] := by_contra fun hne => by simp [hne] at hset
  have hunset' : cfg.unsetLetters oldem mode = [] := by_contra fun hne => by simp [hne] at hunset
  rw [firstWhat, hset', hunset']
  rfl

section Whole

variable (cfg : Config) (oldem : Char → Bool) (st : Pass)

/-- What has changed, on a single line. -/
def request : ModeLine :=
  (pushAll (cfg.firstWhat oldem st.channel.mode) ⟨cfg.firstLine oldem st.channel.mode, []⟩ st.pvar).strip

/-- Every line is sent as it is and every letter that has changed is on one. -/
structure Whole (setter : Setter) : Prop where
  fits : ∀ line ∈ makeModeStr cfg oldem st, (line.wire setter st.channel.name).length ≤ 510
  letters : (makeModeStr cfg oldem st).flatMap letters = (request cfg oldem st).letters

/-- What `make_mode_str` returns: nothing, all changes on one line, or, if they are too long for that,
several lines of which the first is as full as the next change allows. -/
theorem makeModeStr_cases :
    (makeModeStr cfg oldem st = [] ∧ emptyMode (request cfg oldem st).modes = true) ∨
      makeModeStr cfg oldem st = [request cfg oldem st] ∨
      507 < (request cfg oldem st).modes.length + (request cfg oldem st).params.length ∧
        ∃ l ∈ makeModeStr cfg oldem st, ∃ p ∈ st.pvar,
          507 ≤ l.modes.length + l.params.length + p.text.length := by
  unfold makeModeStr
  dsimp only
  rcases @packLines_cases 0 (cfg.firstWhat oldem st.channel.mode)
      ⟨cfg.firstLine oldem st.channel.mode, []⟩ st.pvar (by decide) with
    hone | ⟨l, lines, hlines, hpack, hlong⟩
  · rw [hone]
    dsimp only
    split_ifs with hempty
    · exact .inl ⟨rfl, hempty⟩
    · exact .inr (.inl rfl)
  · obtain ⟨l', lines, rfl⟩ := exists_cons_of_ne_nil hlines
    rw [hpack]
    refine .inr (.inr ⟨?_, l, mem_cons_self, hlong⟩)
    by_contra hshort
    simp only [request, strip, length_dropLast] at hshort
    -- what is short is on one line, and here there are two
    have hone := @packLines_of_short 0 (cfg.firstWhat oldem st.channel.mode)
      ⟨cfg.firstLine oldem st.channel.mode, []⟩ st.pvar (by omega)
    rw [hpack] at hone
    exact cons_ne_nil _ _ (cons.inj hone).2

variable {cfg oldem st}

/-- Without a line there is nothing to tell. -/
theorem letters_of_emptyMode {line : ModeLine} (h : emptyMode line.modes = true) : line.letters = [] := by
  simp only [emptyMode, Bool.or_eq_true, decide_eq_true_eq] at h
  unfold letters
  rcases h with (h | h) | h <;> rw [h] <;> rfl

/-- Without a line the request has at most a sign. -/
theorem request_of_emptyMode (h : emptyMode (request cfg oldem st).modes = true) :
    (request cfg oldem st).modes.length ≤ 1 ∧ (request cfg oldem st).params = [] := by
  have hmodes : (request cfg oldem st).modes.length ≤ 1 := by
    simp only [emptyMode, Bool.or_eq_true, decide_eq_true_eq] at h
    rcases h with (h | h) | h <;> rw [h] <;> decide
  refine ⟨hmodes, ?_⟩
  have hpvar : st.pvar = [] := eq_nil_of_short Config.firstWhat_eq_none hmodes
  unfold request
  rw [hpvar]
  rfl

variable {setter : Setter}

/-- The number of characters of the line with all changes. -/
def Setter.lineLength (setter : Setter) (cfg : Config) (oldem : Char → Bool) (st : Pass) : ℕ :=
  setter.initialLen st.channel.name + (request cfg oldem st).modes.length +
    (request cfg oldem st).params.length

/-- Changes that fit on one line are sent whole. -/
theorem Whole.of_length_le (h : setter.lineLength cfg oldem st ≤ 510) : Whole cfg oldem st setter := by
  rcases makeModeStr_cases cfg oldem st with
    ⟨hnil, hempty⟩ | hone | ⟨hlong, -⟩
  · refine ⟨?_, ?_⟩
    · rw [hnil]
      exact forall_mem_nil _
    · rw [hnil, letters_of_emptyMode hempty]
      rfl
  · refine ⟨?_, ?_⟩
    · rw [hone, forall_mem_singleton, length_wire]
      exact h
    · rw [hone, flatMap_singleton]
  · unfold Setter.lineLength Setter.initialLen at h
    omega

/-- Changes of which each is short do not fit on several lines if they do not fit on one: the first line
is full before `initial_len` is added. -/
theorem Whole.length_le (h : Whole cfg oldem st setter) (hname : st.channel.name.length ≤ 32)
    (hshort : (request cfg oldem st).modes.length + (request cfg oldem st).params.length ≤ 507 ∨
      ∀ p ∈ st.pvar, p.text.length + 3 < setter.initialLen st.channel.name) :
    setter.lineLength cfg oldem st ≤ 510 := by
  rcases makeModeStr_cases cfg oldem st with
    ⟨-, hempty⟩ | hone | ⟨hlong, l, hl, p, hp, hfull⟩
  · obtain ⟨hmodes, hparams⟩ := request_of_emptyMode hempty
    have hnick := setter.nick_le
    have husername := setter.username_le
    have hhost := setter.host_le
    unfold Setter.lineLength Setter.initialLen
    rw [hparams, length_nil]
    omega
  · have hfits := h.fits _ (hone ▸ mem_singleton_self _)
    rwa [length_wire] at hfits
  · rcases hshort with hshort | htexts
    · omega
    · have htext := htexts p hp
      have hfits := h.fits l hl
      rw [length_wire] at hfits
      omega

/-- Mode changes are sent whole if all of them fit on one line after what stands before them. If they
are within 507 characters, or each parameter is shorter than what stands before them, only then. -/
theorem modeLines_whole (setter : Setter) (cfg : Config) (oldem : Char → Bool) (st : Pass)
    (hname : st.channel.name.length ≤ 32) :
    (setter.lineLength cfg oldem st ≤ 510 → Whole cfg oldem st setter) ∧
      ((request cfg oldem st).modes.length + (request cfg oldem st).params.length ≤ 507 ∨
          (∀ p ∈ st.pvar, p.text.length + 3 < setter.initialLen st.channel.name) →
        Whole cfg oldem st setter → setter.lineLength cfg oldem st ≤ 510) :=
  ⟨Whole.of_length_le, fun hshort h => h.length_le hname hshort⟩

end Whole

def longSetter : Setter where
  nick := replicate 30 'n'
  username := replicate 10 'u'
  host := replicate 63 'h'
  nick_le := by decide
  username_le := by decide
  host_le := by decide

/-- A mask of the length that `clean_ban_mask` allows. -/
def longMask (c : Char) : List Char :=
  replicate 30 c ++ '!' :: replicate 10 c ++ '@' :: replicate 63 c

def modeUser : Source where
  myUser := true
  name := longSetter.nick
  time := 0
  locked _ := false
  restricted _ := false
  allowed _ _ _ _ := true
  unknownParacount _ _ := 0

def longChannel : Channel := { floodChannel 5 10 with name := '#' :: replicate 31 'c' }

/-- Three long bans fit into one line, and four do not. -/
theorem modeLines_whole_bans : longChannel.name.length ≤ 32 ∧
    Whole server longChannel.mode ⟨longChannel, ['a', 'b', 'c'].map fun c => ⟨true, 'b', longMask c⟩⟩
      longSetter ∧
    ¬ Whole server longChannel.mode
      ⟨longChannel, ['a', 'b', 'c', 'd'].map fun c => ⟨true, 'b', longMask c⟩⟩ longSetter :=
  ⟨by decide, (modeLines_whole longSetter server _ _ (by decide)).1 (by decide +kernel),
    fun h => absurd ((modeLines_whole longSetter server _ _ (by decide)).2
      (.inl (by decide +kernel)) h) (by decide +kernel)⟩

/-- What a user sets with a line of 467 characters is sent to the others as one of 574. -/
theorem four_bans_cut :
    ∃ line ∈ (setMode server modeUser "+bbbb".toList (['a', 'b', 'c', 'd'].map longMask)
        longChannel).2,
      (line.wire longSetter longChannel.name).length = 574 := by
  decide +kernel

end ObbyIRCd.Chanmode
