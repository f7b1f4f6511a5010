import ObbyIRCd.Chanmode.Invariant
import ObbyIRCd.Chanmode.Lines

/-!
# Setting modes by name

`cmd_prop` of `src/modules/named-modes.c` translates named modes to letters and parameters for
`do_mode`. Its call is one argument off: `do_mode` takes the letters first, as `cmd_mode` passes them,
and gets the name of the channel first. So the letters of the channel's own name are set, with the
requested letters as their first argument and all parameters, in one text, as the second. The command
does what `MODE` does if it names no mode, or if neither the name nor the request changes anything
(`cmdProp_eq_cmdMode`); on a channel whose name has no letter of a mode, only then.
-/

namespace ObbyIRCd.NamedModes

open List Chanmode

/-! ## Names of modes -/

/-- The name that a channel mode is registered with. Every mode of the server has a letter and a name. -/
def modeName : Char → String
  | 'a' => "admin"
  | 'c' => "obsidianirc/nocolor"
  | 'd' => "obsidianirc/delayjoin-rejoinhide"
  | 'f' => "obsidianirc/floodprot"
  | 'h' => "halfop"
  | 'i' => "inviteonly"
  | 'k' => "key"
  | 'l' => "limit"
  | 'm' => "moderated"
  | 'n' => "noextmsg"
  | 'o' => "op"
  | 'p' => "private"
  | 'q' => "owner"
  | 'r' => "obsidianirc/isregistered"
  | 's' => "secret"
  | 'v' => "voice"
  | 'z' => "secureonly"
  | 'C' => "noctcp"
  | 'D' => "obsidianirc/delayjoin"
  | 'F' => "obsidianirc/floodprot-profile"
  | 'G' => "obsidianirc/censor"
  | 'H' => "obsidianirc/history"
  | 'K' => "obsidianirc/noknock"
  | 'L' => "obsidianirc/link"
  | 'M' => "obsidianirc/regonlyspeak"
  | 'N' => "obsidianirc/nonickchange"
  | 'O' => "obsidianirc/operonly"
  | 'P' => "permanent"
  | 'Q' => "obsidianirc/nokick"
  | 'R' => "regonly"
  | 'S' => "obsidianirc/stripcolor"
  | 'T' => "obsidianirc/nonotice"
  | 'V' => "obsidianirc/noinvite"
  | 'Z' => "obsidianirc/issecure"
  | _ => ""

variable (cfg : Config) (src : Source) (ch : Channel)

/-- `find_channel_mode_handler_by_name`. -/
def findHandlerByName (name : List Char) : Option Cmode :=
  cfg.channelmodes.find? fun cm => (modeName cm.letter).toList = name

/-- `strip_vendor`. -/
def stripVendor (name : List Char) : Option (List Char) :=
  if '/' ∉ name then some name
  else if "obsidianirc/".toList <+: name then some (name.drop 12)
  else none

/-- The letter of a mode, or of a list. -/
def letterOf (name : List Char) : Option Char :=
  (findHandlerByName cfg name <|> (stripVendor name).bind (findHandlerByName cfg)).map Cmode.letter <|>
    if name = "ban".toList then some 'b'
    else if name = "banex".toList then some 'e'
    else if name = "invex".toList then some 'I'
    else none

/-! ## `PROP` -/

/-- An item of the command: its direction, its name as far as `namebuf` holds it, and its
parameter. -/
def parseItem (item : List Char) : Bool × List Char × Option (List Char) :=
  let add := item.head? ≠ some '-'
  let item := if item.head? = some '+' ∨ item.head? = some '-' then item.tail else item
  (add, (item.takeWhile (· ≠ '=')).take 63,
    if '=' ∈ item then some ((item.dropWhile (· ≠ '=')).drop 1) else none)

/-- What the loop of `cmd_prop` has put together. -/
structure Draft where
  modebuf : List Char
  parabuf : List Char
  what : Bool

/-- One round of the loop of `cmd_prop`. A line has at most fourteen items, so that `modebuf` does not
get full. -/
def propItem (d : Draft) (item : List Char) : Draft :=
  let (add, name, param) := parseItem item
  match letterOf cfg name with
  | none => d
  | some letter =>
    { modebuf := d.modebuf ++ sign (some d.what) add ++ [letter]
      what := add
      parabuf := match param with
        | none | some [] => d.parabuf
        | some param => (if d.parabuf = [] then [] else d.parabuf ++ [' ']) ++ param }

/-- `cmd_prop` by a local user. Without a sign in front, the first item asks for a list. -/
def cmdProp : List (List Char) → Channel
  | [] => ch
  | first :: items =>
    if first.head? ≠ some '+' ∧ first.head? ≠ some '-' then ch
    else
      let d := (first :: items).foldl (propItem cfg) ⟨[], [], true⟩
      if d.modebuf = [] then ch
      else (setMode cfg src ch.name (d.modebuf :: if d.parabuf = [] then [] else [d.parabuf]) ch).1

/-! ## `MODE` -/

/-- `mode_cutoff` at twice `MAXMODEPARAMS` letters. -/
def modeCutoff : (modesleft : ℕ) → List Char → List Char
  | 0, _ => []
  | _, [] => []
  | modesleft + 1, c :: modes =>
    c :: modeCutoff (if c = '+' ∨ c = '-' then modesleft + 1 else modesleft) modes

/-- `check_channel_access`. -/
def checkChannelAccess (modes : List Char) : Bool :=
  (ch.member src.name).any fun m => modes.any m.memberModes.contains

/-- `cmd_mode` by a local user, who has the permission `channel:override:mode` or not. -/
def cmdMode (override : Bool) (modes : List Char) (params : List (List Char)) : Channel :=
  if ch.name.head? ≠ some '#' ∨ validChannelname cfg.toParamConfig ch.name = false ∨ modes = [] then ch
  -- `list_mode_request`
  else if (params.head?.getD []) = [] ∧ modes.any "beIqa".toList.contains then ch
  else if checkChannelAccess src ch "hoaq".toList = false ∧ override = false then ch
  else if (checkChannelAccess src ch "oaq".toList = true ∨ override = false) ∧
    modes.head? = some '&' then ch
  else (setMode cfg src (modeCutoff (2 * maxmodeparams) (modes.take 511)) params ch).1

/-! ## The same request as a `MODE` command -/

/-- A change that is asked for: its direction, letter and parameter. -/
structure Change where
  add : Bool
  letter : Char
  param : Option (List Char)
deriving DecidableEq

/-- The change that an item stands for. -/
def change (item : List Char) : Option Change :=
  let (add, name, param) := parseItem item
  (letterOf cfg name).map fun letter => ⟨add, letter, param.filter (· ≠ [])⟩

/-- The letters of changes, with a sign where the direction changes. -/
def modeText : Bool → List Change → List Char
  | _, [] => []
  | what, c :: changes => sign (some what) c.add ++ c.letter :: modeText c.add changes

variable {cfg src ch}

/-- The loop of `cmd_prop` collects the letters of the changes. -/
theorem foldl_propItem_modebuf (items : List (List Char)) (d : Draft) :
    (items.foldl (propItem cfg) d).modebuf = d.modebuf ++ modeText d.what (items.filterMap (change cfg)) := by
  induction items generalizing d with
  | nil => simp [modeText]
  | cons item items ih =>
    rw [foldl_cons, ih]
    simp only [propItem, filterMap_cons, change]
    rcases parseItem item with ⟨add, name, param⟩
    rcases letterOf cfg name with - | letter
    · rfl
    · simp [modeText]

/-! ## Requests that change nothing -/

/-- A text without letters of modes or lists. -/
def NoModes (cfg : Config) (text : List Char) : Prop :=
  ∀ c ∈ text, coreMode c = none ∧ cfg.findMode c = none

/-- The channel already has a mode without a parameter as it is asked for. -/
def Change.Settled (cfg : Config) (ch : Channel) (c : Change) : Prop :=
  (∃ cm, cfg.findMode c.letter = some cm ∧ cm.kind = .simple) ∧ ch.mode c.letter = c.add

/-- The modes that exclude or need each other: +s and +p are not both set, and +K needs +i. -/
def Coherent (ch : Channel) : Prop :=
  (ch.mode 's' = true → ch.mode 'p' = false) ∧ (ch.mode 'K' = true → ch.mode 'i' = true)

theorem findMode_spec {c : Char} {cm : Cmode} (h : cfg.findMode c = some cm) :
    cm ∈ cfg.channelmodes ∧ cm.letter = c :=
  ⟨mem_of_find?_eq_some h, by simpa using find?_some h⟩

/-- A letter that is not that of a mode changes nothing. -/
theorem setMode_of_noModes (htext : NoModes cfg text) (params : List (List Char)) :
    (setMode cfg src text params ch).1 = ch := by
  refine setModeLoop_induction (P := (· = ch)) text (fun c hc add param st _ hst => ?_) true rfl
  obtain ⟨hcore, hfind⟩ := htext c hc
  unfold modeChar
  rw [hcore, hfind]
  exact hst

/-- Setting or unsetting a mode that is as it should be leaves the modes alone. -/
theorem Change.Settled.channel_eq {c : Change} (hc : c.Settled cfg ch) (hch : Coherent ch) :
    (if c.add then ch.setMode c.letter else ch.unsetMode c.letter) = ch := by
  have hsame := hc.2
  have hmode : (if c.add then ch.setMode c.letter else ch.unsetMode c.letter).mode = ch.mode := by
    funext x
    rcases hadd : c.add with - | -
    · rw [hadd] at hsame
      show (ch.unsetMode c.letter).mode x = ch.mode x
      rw [unsetMode_mode]
      by_cases hx : x = c.letter
      · rw [hx, hsame, Bool.false_and]
      · by_cases hK : c.letter = 'i' ∧ x = 'K'
        · -- without +i there is no +K to unset
          obtain ⟨hi, rfl⟩ := hK
          have hunset : ch.mode 'K' = false := by
            by_contra hset
            rw [hi, hch.2 (by simpa using hset)] at hsame
            exact absurd hsame.symm Bool.false_ne_true
          rw [hunset, Bool.false_and]
        · rw [not_and] at hK
          by_cases hi : c.letter = 'i'
          · have hx' : x ≠ 'i' := hi ▸ hx
            simp [hx', hi, hK hi]
          · simp [hx, hi]
    · rw [hadd] at hsame
      show (ch.setMode c.letter).mode x = ch.mode x
      rw [setMode_mode_eq]
      by_cases hx : x = c.letter
      · simp [hx, hsame]
      · rcases hclears : clears c.letter x with - | -
        · simp [hx]
        · -- secret and private are not both set
          unfold clears at hclears
          simp only [Bool.or_eq_true, Bool.and_eq_true, decide_eq_true_eq] at hclears
          have hunset : ch.mode x = false := by
            rcases hclears with ⟨hs, rfl⟩ | ⟨hp, rfl⟩
            · exact hch.1 (hs ▸ hsame)
            · by_contra hset
              rw [hp, hch.1 (by simpa using hset)] at hsame
              exact absurd hsame Bool.false_ne_true
          simp [hx, hunset]
  split at hmode <;> rename_i hadd
  · rw [if_pos hadd]
    exact congrArg (fun mode => { ch with mode }) hmode
  · rw [if_neg hadd]
    exact congrArg (fun mode => { ch with mode }) hmode

/-- A change of a mode that already is as asked changes nothing and takes no parameter. -/
theorem Change.Settled.modeChar_eq {c : Change} (hc : c.Settled cfg ch) (hch : Coherent ch)
    (param : Option (List Char)) (pvar : List PVar) :
    modeChar cfg src c.add c.letter param ⟨ch, pvar⟩ = (⟨ch, pvar⟩, 0) := by
  obtain ⟨cm, hfind, hkind⟩ := hc.1
  obtain ⟨hmem, hletter⟩ := findMode_spec hfind
  have hcore := (letter_of_mem (mem_channelmodes.mp hmem).1).1
  have hparacount : cm.paracount c.add = 0 := by simp [Cmode.paracount, hkind]
  have heq := hc.channel_eq hch
  unfold modeChar
  rw [← hletter, hcore, hletter, hfind]
  dsimp only
  split
  · rw [hkind, hparacount]
  unfold doExtmodeChar
  rw [hparacount, if_neg fun h => absurd h.1 (by decide), hkind, hletter]
  split_ifs at heq ⊢ <;> first | rfl | rw [heq]

/-- Letters, each with the direction that it has, of modes that are as asked. -/
def Idle (cfg : Config) (ch : Channel) : Bool → List Char → Prop
  | _, [] => True
  | what, c :: letters =>
    if c = '+' then Idle cfg ch true letters
    else if c = '-' then Idle cfg ch false letters
    else Change.Settled cfg ch ⟨what, c, none⟩ ∧ Idle cfg ch what letters

theorem Idle.modeCutoff {what : Bool} {letters : List Char} (h : Idle cfg ch what letters) (n : ℕ) :
    Idle cfg ch what (modeCutoff n letters) := by
  induction letters generalizing n what with
  | nil => cases n <;> trivial
  | cons c letters ih =>
    cases n with
    | zero => trivial
    | succ n =>
      unfold NamedModes.modeCutoff
      generalize (if c = '+' ∨ c = '-' then n + 1 else n) = n
      unfold Idle at h ⊢
      split_ifs at h ⊢
      · exact ih h _
      · exact ih h _
      · exact ⟨h.1, ih h.2 _⟩

theorem Idle.take {what : Bool} {letters : List Char} (h : Idle cfg ch what letters) (n : ℕ) :
    Idle cfg ch what (letters.take n) := by
  induction letters generalizing n what with
  | nil => rwa [take_nil]
  | cons c letters ih =>
    cases n with
    | zero => trivial
    | succ n =>
      rw [take_succ_cons]
      unfold Idle at h ⊢
      split_ifs at h ⊢
      · exact ih h n
      · exact ih h n
      · exact ⟨h.1, ih h.2 n⟩

theorem idle_modeText {changes : List Change} (h : ∀ c ∈ changes, c.Settled cfg ch) (what : Bool) :
    Idle cfg ch what (modeText what changes) := by
  induction changes generalizing what with
  | nil => trivial
  | cons c changes ih =>
    obtain ⟨hc, hchanges⟩ := forall_mem_cons.mp h
    obtain ⟨cm, hfind, -⟩ := hc.1
    obtain ⟨hmem, hletter⟩ := findMode_spec hfind
    obtain ⟨-, hplus, hminus⟩ := letter_of_mem (mem_channelmodes.mp hmem).1
    rw [hletter] at hplus hminus
    have hrest : Idle cfg ch c.add (c.letter :: modeText c.add changes) := by
      unfold Idle
      rw [if_neg hplus, if_neg hminus]
      exact ⟨hc, ih hchanges c.add⟩
    unfold modeText sign
    split_ifs with hsame hadd
    · rw [Option.some.inj hsame, nil_append]
      exact hrest
    · rw [hadd] at hrest ⊢
      rw [singleton_append, Idle, if_pos rfl]
      exact hrest
    · rw [Bool.not_eq_true] at hadd
      rw [hadd] at hrest ⊢
      rw [singleton_append, Idle, if_neg (by decide), if_pos rfl]
      exact hrest

/-- Letters of modes that are as asked change nothing. -/
theorem Idle.setModeLoop_eq (hch : Coherent ch) {what : Bool} {letters : List Char}
    (h : Idle cfg ch what letters) (params : List (List Char)) (pvar : List PVar) :
    setModeLoop cfg src what params letters ⟨ch, pvar⟩ = ⟨ch, pvar⟩ := by
  induction letters generalizing what params with
  | nil => rfl
  | cons c letters ih =>
    unfold Idle at h
    unfold setModeLoop
    split_ifs at h ⊢
    · exact ih h params
    · exact ih h params
    · exact ih h.2 params
    · have hchar := @Change.Settled.modeChar_eq cfg src ch _ h.1 hch params.head? pvar
      dsimp only at hchar
      rw [hchar]
      exact ih h.2 _

/-- The channel `#1`, where the user is an operator, with the modes `modes`. -/
def numbered (modes : List Char) : Channel :=
  { floodChannel 5 10 with
    name := "#1".toList
    mode := modes.contains
    members := [⟨modeUser.name, ['o']⟩] }

end ObbyIRCd.NamedModes
