import ObbyIRCd.Chanmode.Params
import ObbyIRCd.Lib.Keyed
import ObbyIRCd.Lib.Words

/-!
# Changing the modes of a channel

`set_mode` and what it calls in `mode.c` and `channel.c`, on the part of a channel that modes are
about: the modes, their parameters, the three lists, and the modes of the members. `make_mode_str`
prints what has changed, the modes without a parameter from the difference to the old modes, the rest
from the changes that were written down on the way (`pvar`). Who may change what is decided by
`allowed`; what is sent to the client that asks is left out.
-/

namespace ObbyIRCd.Chanmode

open Function

/-! ## Modes -/

/-- What a channel mode is about. A member mode has its prefix in `SJOIN` and its rank. -/
inductive ModeKind
  | simple
  | param (m : ParamMode)
  | member (sjoinPrefix : Char) (rank : ℤ)
deriving DecidableEq

/-- `Cmode`. -/
structure Cmode where
  letter : Char
  kind : ModeKind
  isLocal : Bool
deriving DecidableEq

/-- `channelmodes` with all modules loaded. -/
def allChannelmodes : List Cmode :=
  [⟨'a', .member '~' 3000, false⟩, ⟨'c', .simple, false⟩, ⟨'d', .simple, true⟩,
    ⟨'f', .param .flood, false⟩, ⟨'h', .member '%' 1000, false⟩, ⟨'i', .simple, false⟩,
    ⟨'k', .param .key, false⟩, ⟨'l', .param .limit, false⟩, ⟨'m', .simple, false⟩,
    ⟨'n', .simple, false⟩, ⟨'o', .member '@' 2000, false⟩, ⟨'p', .simple, false⟩,
    ⟨'q', .member '*' 4000, false⟩, ⟨'r', .simple, false⟩, ⟨'s', .simple, false⟩,
    ⟨'v', .member '+' (-1), false⟩, ⟨'z', .simple, false⟩, ⟨'C', .simple, false⟩,
    ⟨'D', .simple, false⟩, ⟨'F', .param .profile, false⟩, ⟨'G', .simple, false⟩,
    ⟨'H', .param .history, false⟩, ⟨'K', .simple, false⟩, ⟨'L', .param .link, false⟩,
    ⟨'M', .simple, false⟩, ⟨'N', .simple, false⟩, ⟨'O', .simple, false⟩, ⟨'P', .simple, false⟩,
    ⟨'Q', .simple, false⟩, ⟨'R', .simple, false⟩, ⟨'S', .simple, false⟩, ⟨'T', .simple, false⟩,
    ⟨'V', .simple, false⟩, ⟨'Z', .simple, true⟩]

/-- The parameters that a change of a mode takes. -/
def Cmode.paracount (cm : Cmode) (add : Bool) : ℕ :=
  match cm.kind with
  | .simple => 0
  | .param m => if add || m.unsetWithParam then 1 else 0
  | .member _ _ => 1

inductive ListMode
  | ban | except | invex
deriving DecidableEq, Repr

def ListMode.letter : ListMode → Char
  | ban => 'b'
  | except => 'e'
  | invex => 'I'

/-- `corechannelmodetable`. -/
def coreMode (c : Char) : Option ListMode := [ListMode.ban, .except, .invex].find? fun l => l.letter = c

/-- The server: its modules, and the functions outside of `mode.c` that changes of modes use. -/
structure Config extends ParamConfig where
  loaded : Char → Bool
  /-- `clean_ban_mask`, for an addition or a removal, and for a local user or not. -/
  cleanBanMask : (add myUser : Bool) → ListMode → List Char → Option (List Char)
  /-- `find_chasing`: the nick of the user that a parameter names. -/
  findUser : List Char → Option (List Char)
  /-- `MAXBANS`. -/
  maxbans : ℕ

variable (cfg : Config)

/-- `channelmodes`. -/
def Config.channelmodes : List Cmode :=
  allChannelmodes.filter fun cm => cfg.loaded cm.letter

/-- `find_channel_mode_handler`. -/
def Config.findMode (c : Char) : Option Cmode :=
  cfg.channelmodes.find? fun cm => cm.letter = c

/-! ## Channels -/

/-- `Ban`. -/
structure Ban where
  banstr : List Char
  who : List Char
  when : ℤ
deriving DecidableEq, Repr

/-- `Member`. -/
structure Member where
  name : List Char
  memberModes : List Char
deriving DecidableEq, Repr

/-- `Channel`. -/
structure Channel where
  name : List Char
  creationtime : ℤ
  mode : Char → Bool
  params : (m : ParamMode) → Option m.Value
  lists : ListMode → List Ban
  members : List Member

/-- The parameters of a new channel: `HOOKTYPE_CHANNEL_CREATE` installs the default flood profile. -/
def Config.initialParam : (m : ParamMode) → Option m.Value
  | .profile => if cfg.loaded ParamMode.profile.letter then cfg.defaultBase else none
  | .key | .limit | .link | .history | .flood => none

/-- The client that changes modes. -/
structure Source where
  /-- `MyUser`. -/
  myUser : Bool
  name : List Char
  time : ℤ
  /-- The mode lock stops a change of the letter. -/
  locked : Char → Bool
  /-- `restrict-channelmodes`. -/
  restricted : Char → Bool
  /-- A local user may make the change: `is_ok` with `EXCHK_ACCESS` and the overrides. -/
  allowed : Channel → (add : Bool) → Char → List Char → Bool
  /-- `paracount_for_chanmode_from_server`. -/
  unknownParacount : (add : Bool) → Char → ℕ

/-- A change that is written down for `make_mode_str`. -/
structure PVar where
  add : Bool
  letter : Char
  text : List Char
deriving DecidableEq, Repr

/-- `MODEBUFLEN` and `MAXBANLEN`. -/
def modebuflen : ℕ := 200

/-- `MAXMODEPARAMS`. -/
def maxmodeparams : ℕ := 12

/-- The channel and what has been written down. -/
structure Pass where
  channel : Channel
  pvar : List PVar

/-- `do_mode_char_write`, which cuts the text. -/
def Pass.write (st : Pass) (add : Bool) (letter : Char) (text : List Char) : Pass :=
  if st.pvar.length < maxmodeparams then
    { st with pvar := st.pvar ++ [⟨add, letter, text.take modebuflen⟩] }
  else st

/-! ## Lists -/

/-- The results of `add_listmode_ex`. -/
inductive AddResult
  | added | updated | refused
deriving DecidableEq, Repr

/-- `add_listmode_ex`, where a full list takes no new entries. -/
def addListmodeEx (full : Bool) (banid setby : List Char) (seton : ℤ) (list : List Ban) :
    List Ban × AddResult :=
  let ban : Ban := ⟨banid.take modebuflen, setby.take 106, seton⟩
  match Keyed.find (fun b : Ban => lower b.banstr) list (lower banid) with
  | none => if full then (list, .refused) else (ban :: list, .added)
  | some b =>
    if 0 < b.when ∧ b.when ≤ seton then (list, .refused)
    else (Keyed.modify (fun b : Ban => lower b.banstr) (lower banid) (fun _ => ban) list, .updated)

/-- `del_listmode`: the first entry with the mask goes. -/
def delListmode (banid : List Char) : List Ban → Option (List Ban)
  | [] => none
  | b :: list =>
    if lower b.banstr = lower banid then some list else (delListmode banid list).map (b :: ·)

variable (ch : Channel)

def Channel.setList (l : ListMode) (list : List Ban) : Channel :=
  { ch with lists := update ch.lists l list }

variable (src : Source)

/-- `mode_ban_handler` and `do_mode_char_list_mode`. -/
def doModeCharListMode (l : ListMode) (add : Bool)
    (param : Option (List Char)) (st : Pass) : Pass × ℕ :=
  match param with
  | none => (st, 0)
  | some param =>
    if maxmodeparams ≤ st.pvar.length then (st, 0)
    else
      match cfg.cleanBanMask add src.myUser l param with
      | none => (st, 1)
      | some mask =>
        if mask = [] then (st, 1)
        -- the access that an extended ban asks for
        else if src.myUser ∧ src.allowed st.channel add l.letter param = false then (st, 1)
        else if add then
          let list := st.channel.lists l
          let full := (src.myUser || list.isEmpty) && decide (cfg.maxbans ≤ list.length)
          let (list, result) := addListmodeEx full mask src.name src.time list
          let st := { st with channel := st.channel.setList l list }
          (if result = .added then st.write true l.letter mask else st, 1)
        else
          match delListmode mask (st.channel.lists l) with
          | none => (st, 1)
          | some list =>
            ({ st with channel := st.channel.setList l list }.write false l.letter mask, 1)

/-! ## Members -/

def Config.rank (cfg : Config) (c : Char) : Option ℤ :=
  match cfg.findMode c with
  | some ⟨_, .member _ rank, _⟩ => some rank
  | _ => none

variable (letter : Char)

/-- `addlettertomstring`: a letter goes before the first one with a lower rank. -/
def addLetterToMstring (str : List Char) : List Char :=
  match cfg.rank letter with
  | none => str
  | some rank =>
    if 7 ≤ str.length then str
    else
      let lower := fun c => (cfg.rank c).any fun r => decide (r < rank)
      str.takeWhile (fun c => !lower c) ++ letter :: str.dropWhile fun c => !lower c

def Channel.member (name : List Char) : Option Member :=
  Keyed.find Member.name ch.members name

def Channel.modifyMember (name : List Char) (f : List Char → List Char) : Channel :=
  { ch with
    members := Keyed.modify Member.name name (fun m => ⟨m.name, f m.memberModes⟩) ch.members }

/-- `do_mode_char_member_mode_new`. Only a local user can be stopped by `HOOKTYPE_MODE_DEOP`, which is
a part of `allowed`. -/
def doModeCharMemberMode (add : Bool) (param : List Char) (st : Pass) : Pass :=
  match (cfg.findUser param).bind st.channel.member with
  | none => st
  | some m =>
    if add = m.memberModes.contains letter then st
    else
      let f := fun modes =>
        if add then addLetterToMstring cfg letter modes else modes.erase letter
      { st with channel := st.channel.modifyMember m.name f }.write add letter m.name

/-! ## Modes of the channel -/

/-- `HOOKTYPE_MODECHAR_ADD`: secret and private exclude each other. -/
def modecharAdd (mode : Char → Bool) : Char → Bool :=
  if letter = 's' then update mode 'p' false
  else if letter = 'p' then update mode 's' false
  else mode

/-- `HOOKTYPE_MODECHAR_DEL`: without invite only there is no need to stop knocks. -/
def modecharDel (mode : Char → Bool) : Char → Bool :=
  if letter = 'i' then update mode 'K' false else mode

def Channel.setMode : Channel :=
  { ch with mode := modecharAdd letter (update ch.mode letter true) }

def Channel.unsetMode : Channel :=
  { ch with mode := modecharDel letter (update ch.mode letter false) }

/-- `cm_putparameter`. -/
def Channel.putParameter (m : ParamMode) (text : List Char) : Channel :=
  { ch with
    params := update ch.params m (m.putParam cfg.toParamConfig (ch.params m) text) }

/-- `cm_freeparameter`. -/
def Channel.freeParameter (m : ParamMode) : Channel :=
  { ch with params := update ch.params m (m.freeParam cfg.toParamConfig (ch.params m)) }

/-- `cm_getparameter`. -/
def Channel.getParameter (m : ParamMode) : Option (List Char) :=
  (ch.params m).map m.getParam

/-- `do_extmode_char` for a mode with a parameter. -/
def doParamMode (m : ParamMode) (add : Bool) (param : List Char) (st : Pass) : Pass :=
  let ch := st.channel
  if add then
    if m.isOk cfg.toParamConfig ch.name (ch.mode 'r') src.myUser param = false then st
    else
      match m.convParam cfg.toParamConfig (ch.mode 'r') src.myUser param with
      | none => st
      | some morphed =>
        -- the same value as before is ignored
        if ch.mode m.letter ∧ ch.getParameter m = some morphed then st
        else
          let st := st.write true m.letter morphed
          { st with channel := (ch.putParameter cfg m morphed).setMode m.letter }
  else if ch.mode m.letter = false then st
  else
    let st := if m.unsetWithParam then st.write false m.letter ((ch.getParameter m).getD []) else st
    { st with channel := (ch.unsetMode m.letter).freeParameter cfg m }

/-- `do_extmode_char`: the parameters that were eaten come with the result. Both local modes are
refused, as remote changes and by their `is_ok`. -/
def doExtmodeChar (cm : Cmode) (add : Bool) (param : Option (List Char)) (st : Pass) : Pass × ℕ :=
  let paracnt := cm.paracount add
  if paracnt = 1 ∧ (param = none ∨ maxmodeparams ≤ st.pvar.length) then (st, 0)
  else if cm.isLocal then (st, paracnt)
  else if src.myUser ∧ src.allowed st.channel add cm.letter (param.getD []) = false then (st, paracnt)
  else
    match cm.kind with
    | .member _ _ => (doModeCharMemberMode cfg cm.letter add (param.getD []) st, 1)
    | .param m =>
      -- more changes of one letter are ignored, with their parameters
      if st.pvar.any fun p => p.letter = cm.letter then (st, paracnt)
      else (doParamMode cfg src m add (param.getD []) st, paracnt)
    | .simple =>
      if add then ({ st with channel := st.channel.setMode cm.letter }, paracnt)
      else ({ st with channel := st.channel.unsetMode cm.letter }, paracnt)

/-- One letter of `set_mode`, with the parameter that is next. -/
def modeChar (add : Bool) (c : Char) (param : Option (List Char)) (st : Pass) : Pass × ℕ :=
  let argument := param.map (List.take modebuflen)
  match coreMode c with
  | some l => if src.restricted c then (st, 1) else doModeCharListMode cfg src l add argument st
  | none =>
    match cfg.findMode c with
    | none => (st, if src.myUser then 0 else src.unknownParacount add c)
    | some cm =>
      if src.restricted c then
        -- `paracount_for_chanmode`, which does not know the member modes
        (st, match cm.kind with
          | .member _ _ => 0
          | _ => cm.paracount add)
      else doExtmodeChar cfg src cm add argument st

/-- The loop of `set_mode`. -/
def setModeLoop (cfg : Config) (src : Source) : (add : Bool) → List (List Char) → List Char → Pass → Pass
  | _, _, [], st => st
  | add, params, c :: modes, st =>
    if c = '+' then setModeLoop cfg src true params modes st
    else if c = '-' then setModeLoop cfg src false params modes st
    else if src.myUser ∧ src.locked c then setModeLoop cfg src add params modes st
    else
      let (st, eaten) := modeChar cfg src add c params.head? st
      setModeLoop cfg src add (params.drop eaten) modes st

/-! ## Printing -/

/-- A line of a `MultiLineMode`. -/
structure ModeLine where
  modes : List Char
  params : List Char
deriving DecidableEq, Repr

def sign (what : Option Bool) (add : Bool) : List Char :=
  if what = some add then [] else [if add then '+' else '-']

def ModeLine.push (line : ModeLine) (what : Option Bool) (p : PVar) : ModeLine :=
  ⟨line.modes ++ sign what p.add ++ [p.letter], line.params ++ p.text ++ [' ']⟩

/-- The blank at the end goes. -/
def ModeLine.strip (line : ModeLine) : ModeLine := ⟨line.modes, line.params.dropLast⟩

/-- `MAXMULTILINEMODES`. -/
def maxmultilinemodes : ℕ := 3

/-- The loop of `make_mode_str` over `pvar`, in line `curr`. -/
def packLines (curr : ℕ) (what : Option Bool) (line : ModeLine) : List PVar → List ModeLine
  | [] => [line.strip]
  | p :: pvar =>
    if 507 < line.modes.length + line.params.length + p.text.length then
      -- what does not fit into the last line is dropped
      if curr = maxmultilinemodes then [line.strip]
      else line.strip :: packLines (curr + 1) (some p.add) (ModeLine.push ⟨[], []⟩ none p) pvar
    else packLines curr (some p.add) (line.push what p) pvar

variable (oldem : Char → Bool)

def Config.setLetters (mode : Char → Bool) : List Char :=
  (cfg.channelmodes.filter fun cm => cm.kind = .simple && mode cm.letter && !oldem cm.letter).map
    Cmode.letter

/-- The modes that have been unset, of those that need no parameter for it. -/
def Config.unsetLetters (mode : Char → Bool) : List Char :=
  (cfg.channelmodes.filter fun cm =>
    cm.paracount false = 0 && !mode cm.letter && oldem cm.letter).map Cmode.letter

def Config.firstLine (mode : Char → Bool) : List Char :=
  let set := cfg.setLetters oldem mode
  let unset := cfg.unsetLetters oldem mode
  (if set = [] then [] else '+' :: set) ++ if unset = [] then [] else '-' :: unset

/-- The sign at the end of that line. -/
def Config.firstWhat (mode : Char → Bool) : Option Bool :=
  if cfg.unsetLetters oldem mode ≠ [] then some false
  else if cfg.setLetters oldem mode ≠ [] then some true
  else none

/-- `empty_mode`. -/
def emptyMode (m : List Char) : Bool := m = [] || m = ['+'] || m = ['-']

/-- `make_mode_str`; no lines stand for `NULL`. -/
def makeModeStr (st : Pass) : List ModeLine :=
  let mode := st.channel.mode
  match packLines 0 (cfg.firstWhat oldem mode) ⟨cfg.firstLine oldem mode, []⟩ st.pvar with
  | [line] => if emptyMode line.modes then [] else [line]
  | lines => lines

/-- `set_mode`. -/
def setMode (modes : List Char) (params : List (List Char))
    (ch : Channel) : Channel × List ModeLine :=
  let st := setModeLoop cfg src true params modes ⟨ch, []⟩
  (st.channel, makeModeStr cfg ch.mode st)

/-! ## The modes of a channel as text -/

def Channel.paramText (cm : Cmode) : Option (List Char) :=
  match cm.kind with
  | .param m => ch.getParameter m
  | _ => none

def Config.modesOf : List Cmode :=
  cfg.channelmodes.filter fun cm => !cm.isLocal && ch.mode cm.letter

/-- `channel_modes` for a server, without local modes. -/
def channelModes : List Char × List (List Char) :=
  ('+' :: (cfg.modesOf ch).map Cmode.letter, (cfg.modesOf ch).filterMap ch.paramText)

end ObbyIRCd.Chanmode
