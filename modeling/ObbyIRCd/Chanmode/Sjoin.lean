import ObbyIRCd.Chanmode.Model

/-!
# SJOIN

`cmd_sjoin`: what an `SJOIN` does to a channel, and the lines that local users are sent about it. The
modes that members and lists get are collected in two buffers, which are flushed when they are full
(`Progress.addit`). What is forwarded to other servers is left out, as are the end of a channel that
nobody is in and the mode lock.
-/

namespace ObbyIRCd.Chanmode

/-- What local users are sent. -/
inductive Announcement
  | join (name : List Char)
  | mode (line : ModeLine)
deriving DecidableEq, Repr

/-- The server that an `SJOIN` comes from. -/
structure Link where
  name : List Char
  time : ℤ
  /-- `SupportSJSBY`. -/
  sjsby : Bool
  /-- `find_user`: the nick of the user with a nick or an id. -/
  findUser : List Char → Option (List Char)
  /-- The user with a nick is behind this server. -/
  behind : List Char → Bool
  /-- A local user without a secure connection. -/
  insecure : List Char → Bool
  unknownParacount : (add : Bool) → Char → ℕ

/-- A server changes modes without any checks. -/
def Link.source (link : Link) : Source where
  myUser := false
  name := link.name
  time := link.time
  locked _ := false
  restricted _ := false
  allowed _ _ _ _ := true
  unknownParacount := link.unknownParacount

/-- The parameters of an `SJOIN`: the timestamp, the modes with their parameters if there are any, and
the members and list entries. -/
structure SjoinLine where
  ts : ℤ
  modes : Option (List Char × List (List Char))
  items : List Char

/-- The channel, the buffers `modebuf` and `parabuf`, and what has been sent. -/
structure Progress where
  channel : Channel
  buf : ModeLine
  out : List Announcement

namespace Progress

/-- `send_local_chan_mode`. -/
def send (st : Progress) (lines : List ModeLine) : Progress :=
  { st with out := st.out ++ lines.map .mode }

/-- The buffers start with a sign. -/
def reset (st : Progress) (what : Char) : Progress := { st with buf := ⟨[what], []⟩ }

/-- `Addsingle`. -/
def addsingle (st : Progress) (c : Char) : Progress :=
  { st with buf := ⟨st.buf.modes ++ [c], st.buf.params⟩ }

/-- `Addit`. A flush keeps the first character of `modebuf`. -/
def addit (st : Progress) (mode : Char) (param : List Char) : Progress :=
  if st.buf.params.length + param.length + 11 < modebuflen ∧ st.buf.modes.length ≤ maxmodeparams then
    { st with
      buf := ⟨st.buf.modes ++ [mode],
        if st.buf.params = [] then param else st.buf.params ++ ' ' :: param⟩ }
  else { st.send [st.buf] with buf := ⟨st.buf.modes.take 1 ++ [mode], param⟩ }

/-- A flush at the end, unless nothing has been collected. -/
def flush (st : Progress) : Progress := if emptyMode st.buf.modes then st else st.send [st.buf]

/-! The buffers have nothing to do with the channel. -/

variable (st : Progress)

@[simp]
theorem addit_channel (c : Char) (param : List Char) : (st.addit c param).channel = st.channel := by
  unfold addit
  split <;> rfl

@[simp]
theorem flush_channel : st.flush.channel = st.channel := by
  unfold flush
  split <;> rfl

end Progress

/-! ## Our modes are removed -/

/-- The parameters of `channel_modes` go through a buffer. -/
def parabuf (params : List (List Char)) : List Char := (unwords ' ' params).take 511

/-- `mp2parv`. -/
def mp2parv (parabuf : List Char) : List (List Char) := words ' ' [] parabuf

variable (cfg : Config)

def removeModes (link : Link) (ch : Channel) : Channel × List ModeLine :=
  let (modes, params) := channelModes cfg ch
  let modebuf := '-' :: (modes.take 511).drop 1
  if emptyMode modebuf then (ch, [])
  else setMode cfg link.source modebuf (mp2parv (parabuf params).dropLast) ch

def removeList (l : ListMode) (st : Progress) : Progress :=
  let st := (st.channel.lists l).foldl (fun st b => st.addit l.letter b.banstr) st
  { st with channel := st.channel.setList l [] }

def removeMemberModes (st : Progress) : Progress :=
  let st := st.channel.members.foldl (fun st m =>
    m.memberModes.foldl (fun st c => st.addit c m.name) st) st
  { st with
    channel := { st.channel with members := st.channel.members.map fun m => ⟨m.name, []⟩ } }

/-- `removeours`. -/
def removeOurs (link : Link) (ch : Channel) : Progress :=
  let (ch, lines) := removeModes cfg link ch
  let st : Progress := ⟨ch, ⟨['-'], []⟩, lines.map .mode⟩
  (removeMemberModes (removeList .invex (removeList .except (removeList .ban st)))).flush

/-! ## Members and lists -/

/-- `sjoin_prefix_to_mode`. -/
def sjoinPrefixToMode (s : Char) : Option Char :=
  if s = '&' then some 'b'
  else if s = '"' then some 'e'
  else if s = '\'' then some 'I'
  else (cfg.channelmodes.find? fun cm =>
    match cm.kind with
    | .member p _ => p = s
    | _ => false).map Cmode.letter

/-- The prefixes of an item and what follows them. A prefix of a list is the last one. -/
def sjoinPrefixes (cfg : Config) (modes : List Char) : List Char → List Char × List Char
  | [] => (modes, [])
  | c :: text =>
    match sjoinPrefixToMode cfg c with
    | none => (modes, c :: text)
    | some m =>
      let modes := if modes.length < 7 then modes ++ [m] else modes
      if (coreMode m).isSome then (modes, text) else sjoinPrefixes cfg modes text

/-- An item: who set it and when, its modes, and the user or mask. -/
structure Item where
  setby : List Char
  setat : ℤ
  modes : List Char
  text : List Char
deriving DecidableEq, Repr

/-- Who set an item and when, and what follows. -/
def sjsbyInfo (link : Link) (s : List Char) : Option (List Char × ℤ × List Char) :=
  if link.sjsby ∧ s.head? = some '<' then
    let info := s.takeWhile (· ≠ '>')
    if '>' ∉ s ∨ ',' ∉ info then none
    else
      let setby := (info.dropWhile (· ≠ ',')).drop 1
      some (setby.take 106, atol ((info.takeWhile (· ≠ ',')).drop 1), (s.dropWhile (· ≠ '>')).drop 1)
  else some (link.name, link.time, s)

def parseItem (link : Link) (s : List Char) : Option Item :=
  match sjsbyInfo link s with
  | none => none
  | some (setby, setat, s) =>
    let (modes, text) := sjoinPrefixes cfg [] s
    if text = [] then none else some ⟨setby, setat, modes, text.take 1023⟩

/-- `add_user_to_channel`. -/
def Channel.addUser (ch : Channel) (name modes : List Char) : Channel :=
  { ch with
    members := ⟨name, modes.foldl (fun str c => addLetterToMstring cfg c str) []⟩ :: ch.members }

def sjoinUser (link : Link) (removetheirs : Bool) (item : Item) (st : Progress) : Progress :=
  match link.findUser item.text with
  | none => st
  | some name =>
    if link.behind name = false then st
    else
      let modes := if removetheirs then [] else item.modes
      let st := match st.channel.member name with
        | some _ => st
        | none =>
          { st with
            channel := st.channel.addUser cfg name modes
            out := st.out ++ [.join name] }
      modes.foldl (fun st c => st.addit c name) st

/-- A mask that is not an extended ban has the form `nick!user@host`. -/
def maskOk (mask : List Char) : Bool :=
  mask.head? = some '~' || (mask.contains '!' && mask.contains '@' && mask.head? ≠ some '!')

def sjoinListEntry (removetheirs : Bool) (item : Item) (st : Progress) : Progress :=
  if removetheirs ∨ maskOk item.text = false then st
  else
    match item.modes.head?.bind coreMode with
    -- a prefix of a member before that of the list
    | none => st
    | some l =>
      match cfg.cleanBanMask true false l item.text with
      | none => st
      | some mask =>
        let list := st.channel.lists l
        let full := list.isEmpty && decide (cfg.maxbans = 0)
        let (list, result) := addListmodeEx full mask item.setby item.setat list
        let st := { st with channel := st.channel.setList l list }
        if result = .added then st.addit l.letter mask else st

def sjoinItem (link : Link) (removetheirs : Bool) (st : Progress) (s : List Char) : Progress :=
  match parseItem cfg link s with
  | none => st
  | some item =>
    if item.modes.any fun c => (coreMode c).isSome then sjoinListEntry cfg removetheirs item st
    else sjoinUser cfg link removetheirs item st

/-! ## Their modes -/

/-- The parameters of the modes go through a buffer. -/
def sjoinParams (params : List (List Char)) : List (List Char) := mp2parv (parabuf params)

/-- Had we secret and is it private now, then it stays secret. -/
def staySecret (old ch : Channel) : Channel :=
  if old.mode 's' ∧ ch.mode 'p' then
    { ch with mode := Function.update (Function.update ch.mode 'p' false) 's' true }
  else ch

def mergeGone (old : Channel) (st : Progress) (cm : Cmode) : Progress :=
  if cm.isLocal = false ∧ old.mode cm.letter ∧ st.channel.mode cm.letter = false then
    match cm.kind with
    | .param m => st.addit cm.letter ((old.getParameter m).getD [])
    | _ => st.addsingle cm.letter
  else st

def mergeNew (old : Channel) (st : Progress) (cm : Cmode) : Progress :=
  if old.mode cm.letter = false ∧ st.channel.mode cm.letter then
    match cm.kind with
    | .param m =>
      match st.channel.getParameter m with
      | some text => st.addit cm.letter text
      | none => st
    | _ => st.addsingle cm.letter
  else st

def mergeParam (old : Channel) (st : Progress) (cm : Cmode) : Progress :=
  match cm.kind with
  | .param m =>
    if old.mode cm.letter ∧ st.channel.mode cm.letter then
      match old.params m, st.channel.params m with
      | some our, some their =>
        match m.sjoinCheck our their with
        | .same => st
        | .weWon => { st with channel := st.channel.putParameter cfg m (m.getParam our) }
        | .theyWon => st.addit cm.letter (m.getParam their)
        | .merge our =>
          { st with channel := st.channel.putParameter cfg m (m.getParam our) }.addit cm.letter
            (m.getParam our)
      | _, _ => st
    else st
  | _ => st

/-- The modes of two sides with the same timestamp are merged. -/
def mergeModes (link : Link) (modes : List Char) (params : List (List Char))
    (st : Progress) : Progress :=
  let old := st.channel
  let ch := staySecret old (setMode cfg link.source (modes.take 511) (sjoinParams params) old).1
  let st := cfg.channelmodes.foldl (mergeGone old) ({ st with channel := ch }.reset '-')
  let st := if 1 < st.buf.modes.length then st.addsingle '+' else st.reset '+'
  let st := cfg.channelmodes.foldl (mergeNew old) st
  (cfg.channelmodes.foldl (mergeParam cfg old) st).flush

def applyModes (link : Link) (modes : List Char) (params : List (List Char))
    (st : Progress) : Progress :=
  let (ch, lines) := setMode cfg link.source (modes.take 511) (sjoinParams params) st.channel
  { st with channel := ch }.send lines

/-! ## The command -/

/-- What the timestamps say. -/
inductive Verdict
  | fresh | removeours | removetheirs | merge
deriving DecidableEq, Repr

/-- `make_channel`. -/
def makeChannel (link : Link) (name : List Char) : Channel :=
  ⟨name, link.time, fun _ => false, cfg.initialParam, fun _ => [], []⟩

/-- `IsInvalidChannelTS`. -/
def isInvalidChannelTS (ts : ℤ) : Bool := ts ≤ 1000000

/-- The timestamp of the line, or our own if it is not valid. -/
def effectiveTs (ch : Channel) (ts : ℤ) : ℤ := if isInvalidChannelTS ts then ch.creationtime else ts

/-- Whose modes are kept, for a channel that exists. -/
def verdict (ch : Channel) (ts : ℤ) : Verdict :=
  if ts < ch.creationtime then .removeours
  else if ch.creationtime < ts then .removetheirs
  else .merge

/-- `HOOKTYPE_CHANNEL_SYNCED`: insecure users are removed from a channel that is +z. -/
def channelSynced (link : Link) (ch : Channel) : Channel :=
  if ch.mode 'z' then { ch with members := ch.members.filter fun m => !link.insecure m.name } else ch

/-- `cmd_sjoin` after the timestamps have been compared. -/
def sjoinWith (link : Link) (v : Verdict) (line : SjoinLine) (ch : Channel) :
    Channel × List Announcement :=
  let st : Progress := if v = .removeours then removeOurs cfg link ch else ⟨ch, ⟨[], []⟩, []⟩
  let st := ((words ' ' [] line.items).foldl (sjoinItem cfg link (v = .removetheirs))
    (st.reset '+')).flush
  match line.modes, v with
  | none, _ => (st.channel, st.out)
  | some _, .removetheirs => (st.channel, st.out)
  | some (modes, params), .merge =>
    let st := mergeModes cfg link modes params st
    (st.channel, st.out)
  | some (modes, params), _ =>
    let st := applyModes cfg link modes params st
    (channelSynced link st.channel, st.out)

/-- `cmd_sjoin` for the channel `name`, which may exist. -/
def cmdSjoin (link : Link) (name : List Char) (line : SjoinLine) :
    Option Channel → Channel × List Announcement
  | none =>
    let ch := makeChannel cfg link name
    sjoinWith cfg link .fresh line { ch with creationtime := effectiveTs ch line.ts }
  | some ch =>
    let ts := effectiveTs ch line.ts
    sjoinWith cfg link (verdict ch ts) line { ch with creationtime := min ch.creationtime ts }

end ObbyIRCd.Chanmode
