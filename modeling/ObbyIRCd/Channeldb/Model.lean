import ObbyIRCd.Chanmode.Invariant
import ObbyIRCd.Database.Table
import ObbyIRCd.Database.Text

/-!
# The database of permanent channels

`channeldb.c`: `write_channeldb` and `read_channeldb`. A channel is written as its head, in which the
modes are the two texts of `channel_modes`, and its three lists (`Raw`). The reader makes the channel,
sets the modes with `set_channel_mode`, and puts each entry of a list in front of those before it. A read
that fails ends the loop and leaves the channel as it is.

The modes +d and +Z, which a server keeps for its own members, are not written. A channel whose modes do
not have +P would be destroyed by `permanent_chanmode` while it is read, which is not modelled; both
writers set +P. A `NULL` instead of a text of the head or of a list is not told from a read that fails.
-/

namespace ObbyIRCd.Channeldb

open Database Chanmode

variable {C : Crypto}

/-! ## Channels -/

/-- `ChannelRegistration`: `CREGISTER` asks for an account, and one without a name is not taken from
other servers. -/
structure ChannelRegistration where
  registeredBy : CStr
  nonempty : registeredBy.bytes ≠ []
  registeredAt : Int64
deriving DecidableEq

/-- `Channel`, with the fields that are not about modes. -/
structure Channel extends Chanmode.Channel where
  topic : Option CStr
  topicNick : Option CStr
  topicTime : Int64
  modeLock : Option CStr
  registration : Option ChannelRegistration

/-- What `find_channel` looks a channel up by. -/
def Channel.key (ch : Channel) : List Char := lower ch.name

def Channel.setList (ch : Channel) (l : ListMode) (list : List Ban) : Channel :=
  { ch with toChannel := ch.toChannel.setList l list }

/-- The server: its modules, its name and `TStime`. -/
structure Env where
  cfg : Config
  name : List Char
  now : Int64

variable (env : Env)

/-- `me`, as the one who changes modes. -/
def Env.me : Chanmode.Link where
  name := env.name
  time := env.now.toInt
  sjsby := false
  findUser _ := none
  behind _ := false
  insecure _ := false
  unknownParacount _ _ := 0

/-! ## Fields as they are written -/

/-- A `time_t` in a file. -/
def stamp (t : ℤ) : UInt64 := (Int64.ofInt t).toUInt64

/-- A `time_t` from a file. -/
def time (t : UInt64) : ℤ := t.toInt64.toInt

/-- An entry of a list. -/
structure RawBan where
  banstr : CStr
  who : CStr
  when : UInt64

/-- The fields before the lists. A file of version 100 has no registration. -/
structure Head where
  name : CStr
  creationtime : UInt64
  topic : Option CStr
  topicNick : Option CStr
  topicTime : UInt64
  modes1 : CStr
  modes2 : CStr
  modeLock : Option CStr
  registeredBy : Option CStr
  registeredAt : UInt64

/-- A channel in a file. -/
structure Raw where
  head : Head
  lists : ListMode → List RawBan

def RawBan.records (b : RawBan) : List Record :=
  [.str (some b.banstr), .str (some b.who), .int64 b.when]

def listRecords (list : List RawBan) : List Record :=
  .int32 (UInt32.ofNat list.length) :: list.flatMap RawBan.records

def Head.records (h : Head) : List Record :=
  [.str (some h.name), .int64 h.creationtime, .str h.topic, .str h.topicNick, .int64 h.topicTime,
    .str (some h.modes1), .str (some h.modes2), .str h.modeLock, .str h.registeredBy,
    .int64 h.registeredAt]

/-- `MAGIC_CHANNEL_START`. -/
def magicChannelStart : UInt32 := 0x11111111

/-- `MAGIC_CHANNEL_END`. -/
def magicChannelEnd : UInt32 := 0x22222222

def Raw.records (r : Raw) : List Record :=
  .int32 magicChannelStart :: (r.head.records ++ (listRecords (r.lists .ban) ++
    (listRecords (r.lists .except) ++ (listRecords (r.lists .invex) ++ [.int32 magicChannelEnd]))))

/-- `channeldb_version`. -/
def channeldbVersion : UInt32 := 101

def channeldbRecords (raws : List Raw) : List Record :=
  .int32 channeldbVersion :: .int64 (UInt64.ofNat raws.length) :: raws.flatMap Raw.records

/-! ## Writing -/

def rawBan (b : Ban) : RawBan := ⟨text b.banstr, text b.who, stamp b.when⟩

variable (cfg : Config)

/-- `modebuf` of `channel_modes`. -/
def modebuf (ch : Chanmode.Channel) : List Char := (channelModes cfg ch).1.take 511

/-- `write_channel_entry`. -/
def Channel.raw (ch : Channel) : Raw where
  head :=
    { name := text ch.name
      creationtime := stamp ch.creationtime
      topic := ch.topic
      topicNick := ch.topicNick
      topicTime := ch.topicTime.toUInt64
      modes1 := text (modebuf cfg ch.toChannel)
      -- the blank behind the last parameter goes
      modes2 := text (parabuf (channelModes cfg ch.toChannel).2).dropLast
      modeLock := ch.modeLock
      registeredBy := some ((ch.registration.map ChannelRegistration.registeredBy).getD CStr.empty)
      registeredAt :=
        ((ch.registration.map ChannelRegistration.registeredAt).getD 0).toUInt64 }
  lists l := (ch.lists l).map rawBan

def Channel.saved (ch : Channel) : Bool := ch.mode 'P'

/-- `write_channeldb`. -/
def writeChanneldb (secr : Option (Secret C)) (now : UInt64) (random : Random) (free : ℕ)
    (channels : List Channel) : Option (List UInt8) :=
  saveRecords secr now random free
    (channeldbRecords ((channels.filter Channel.saved).map (Channel.raw cfg)))

/-! ## Reading -/

/-- How `read_channeldb` ends: behind the last channel, at a magic that is wrong, at a read that fails, or
by a channel without a name, which `make_channel` returns `NULL` for. -/
inductive Stop
  | complete
  | corrupt
  | failed
  | crashed
deriving DecidableEq, Repr

def RawBan.ofRecords : List Record → Option RawBan
  | [.str (some banstr), .str (some who), .int64 when] => some ⟨banstr, who, when⟩
  | _ => none

/-- `ban_exists`. -/
def banExists (list : List Ban) (str : List Char) : Bool := list.any fun b => lower b.banstr = lower str

/-- One round of the loop of `read_listmode`, behind the reads. -/
def addEntry (l : ListMode) (list : List Ban) (b : RawBan) : List Ban :=
  match cfg.cleanBanMask true false l (chars b.banstr) with
  | none => list
  | some str => if banExists list str then list else ⟨str, chars b.who, time b.when⟩ :: list

/-- `read_listmode`. -/
def readListmode (l : ListMode) (ch : Channel) (c : UnrealDB C) :
    Channel × Except Stop (UnrealDB C) :=
  match unrealdbReadInt32 c with
  | (none, _) => (ch, .error .failed)
  | (some total, c) =>
    let (list, result) := readItems (readAs Stop.failed RawBan.ofRecords [.str, .str, .int64])
      (addEntry cfg l) total.toNat (ch.lists l) c
    (ch.setList l list, result)

def readLists (ch : Channel) (c : UnrealDB C) : Channel × Except Stop (UnrealDB C) :=
  match readListmode cfg .ban ch c with
  | (ch, .error stop) => (ch, .error stop)
  | (ch, .ok c) =>
    match readListmode cfg .except ch c with
    | (ch, .error stop) => (ch, .error stop)
    | (ch, .ok c) =>
      match readListmode cfg .invex ch c with
      | (ch, .error stop) => (ch, .error stop)
      | (ch, .ok c) =>
        match unrealdbReadInt32 c with
        | (none, _) => (ch, .error .failed)
        | (some magic, c) =>
          (ch, if magic ≠ magicChannelEnd then .error .corrupt else .ok c)

/-- A character that `make_channel` takes. -/
def nameChar (c : Char) : Bool := decide (33 ≤ c.toNat) && c ≠ ',' && c ≠ ':'

/-- `namebuf` of `make_channel`, where `CHANNELLEN` is 32. -/
def namebuf (name : List Char) : List Char := (name.take 32).takeWhile nameChar

def newChannel (name : List Char) : Channel where
  toChannel := Chanmode.makeChannel env.cfg env.me name
  topic := none
  topicNick := none
  topicTime := 0
  modeLock := none
  registration := none

/-- `make_channel`: the channel with that name, or a new one. -/
def makeChannel (channels : List Channel) (name : List Char) : Option Channel :=
  if name = [] then none
  else some ((Keyed.find Channel.key channels (lower (namebuf name))).getD
    (newChannel env (namebuf name)))

/-- The channel, in its place or in front of the others. -/
def putChannel (channels : List Channel) (ch : Channel) : List Channel :=
  if (Keyed.find Channel.key channels ch.key).isSome then
    Keyed.modify Channel.key ch.key (fun _ => ch) channels
  else ch :: channels

/-- `_set_channel_mode`. -/
def setChannelMode (modes parameters : List Char) (ch : Chanmode.Channel) : Chanmode.Channel :=
  (setMode env.cfg env.me.source modes (words ' ' [] (parameters.take 511)) ch).1

/-- `IsInvalidChannelTS` of an unsigned time. -/
def restoreTime (creationtime : UInt64) : ℤ :=
  if creationtime ≤ 1000000 then env.now.toInt else time creationtime

def Head.restore (h : Head) (ch : Channel) : Channel where
  toChannel := setChannelMode env (chars h.modes1) (chars h.modes2)
    { ch.toChannel with creationtime := restoreTime env h.creationtime }
  topic := h.topic
  topicNick := h.topicNick
  topicTime := h.topicTime.toInt64
  modeLock := h.modeLock
  registration :=
    match h.registeredBy with
    | none => ch.registration
    | some registeredBy =>
      if hempty : registeredBy.bytes = [] then ch.registration
      else some ⟨registeredBy, hempty, h.registeredAt.toInt64⟩

def Head.kinds (version : UInt32) : List Kind :=
  [.str, .int64, .str, .str, .int64, .str, .str, .str] ++
    if 101 ≤ version then [.str, .int64] else []

def Head.ofRecords : List Record → Option Head
  | [.str (some name), .int64 creationtime, .str topic, .str topicNick, .int64 topicTime,
      .str (some modes1), .str (some modes2), .str modeLock] =>
    some ⟨name, creationtime, topic, topicNick, topicTime, modes1, modes2, modeLock, none, 0⟩
  | [.str (some name), .int64 creationtime, .str topic, .str topicNick, .int64 topicTime,
      .str (some modes1), .str (some modes2), .str modeLock, .str registeredBy,
      .int64 registeredAt] =>
    some ⟨name, creationtime, topic, topicNick, topicTime, modes1, modes2, modeLock, registeredBy,
      registeredAt⟩
  | _ => none

def readHead (version : UInt32) (c : UnrealDB C) : Except Stop (Head × UnrealDB C) :=
  match unrealdbReadInt32 c with
  | (none, _) => .error .failed
  | (some magic, c) =>
    if magic ≠ magicChannelStart then .error .corrupt
    else readAs Stop.failed Head.ofRecords (Head.kinds version) c

/-- The loop of `read_channeldb`. -/
def readChannels (env : Env) (version : UInt32) : ℕ → List Channel → UnrealDB C → List Channel × Stop
  | 0, channels, _ => (channels, .complete)
  | n + 1, channels, c =>
    match readHead version c with
    | .error stop => (channels, stop)
    | .ok (h, c) =>
      match makeChannel env channels (chars h.name) with
      | none => (channels, .crashed)
      | some ch =>
        match readLists env.cfg (h.restore env ch) c with
        | (ch, .error stop) => (putChannel channels ch, stop)
        | (ch, .ok c) => readChannels env version n (putChannel channels ch) c

/-- `read_channeldb` on a server without channels. -/
def readChanneldb (secr : Option (Secret C)) (file : List UInt8) : List Channel × Stop :=
  match unrealdbOpenReadAny secr file with
  | .error _ => ([], .failed)
  | .ok c =>
    match unrealdbReadInt32 c with
    | (none, _) => ([], .failed)
    | (some version, c) =>
      if channeldbVersion < version then ([], .failed)
      else
        match unrealdbReadInt64 c with
        | (none, _) => ([], .failed)
        | (some count, c) => readChannels env version count.toNat [] c

end ObbyIRCd.Channeldb
