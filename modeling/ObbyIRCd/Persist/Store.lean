import ObbyIRCd.Database.Plain
import ObbyIRCd.Persist.Model

/-!
# The database of the persistence module

`persist_save_db` and `persist_load_db`. A record has the fields of an entry, a count, and the name and
the member modes of as many channels: those of the ghost, of the live canonical, or the ones stored in
the entry. The file ends with an empty account. The fixed-size buffers of `PersistEntry` are `Buf`s,
and the memberships of a client are the list of its channels. What a ghost's memberships look like once
it has been added to its channels depends on the channels that exist; it is a parameter.
-/

namespace ObbyIRCd.Persist

open Database

variable {C : Crypto}

/-! ## Entries -/

/-- `PersistChannel`, or a membership: `CHANNELLEN` is 32 and `MEMBERMODESLEN` is 8. -/
structure PersistChannel where
  name : Buf 32
  modes : Buf 7
deriving DecidableEq

/-- `PREF_DEFAULT`. -/
def prefDefault : Int32 := -1

/-- `PREF_OFF`. -/
def prefOff : Int32 := 0

/-- `PREF_ON`. -/
def prefOn : Int32 := 1

/-- `PersistEntry`. A ghost is there with its memberships, and a canonical that is alive and registered
with its own. -/
structure PersistEntry where
  account : Buf 30
  nick : Buf 30
  ident : Buf 10
  host : Buf 63
  realhost : Buf 63
  cloakedhost : Buf 63
  ip : Buf 63
  realname : Buf 50
  umodes : Int64
  away : Option CStr
  disconnectTime : Int64
  channels : List PersistChannel
  preference : Int32
  ghost : Option (List PersistChannel)
  canonical : Option (List PersistChannel)
deriving DecidableEq

variable (e : PersistEntry)

/-- The channels that `persist_save_db` writes. -/
def PersistEntry.memberships : List PersistChannel :=
  match e.ghost, e.canonical with
  | some channels, _ => channels
  | none, some channels => channels
  | none, none => e.channels

def PersistEntry.saved : Bool :=
  !(e.memberships.length = 0 && e.preference = prefDefault)

/-! ## Saving -/

def PersistChannel.records (ch : PersistChannel) : List Record :=
  [.str (some ch.name.str), .str (some ch.modes.str)]

/-- What stands between the account and the channels of a record. -/
structure Head where
  nick : Option CStr
  ident : Option CStr
  host : Option CStr
  realhost : Option CStr
  cloakedhost : Option CStr
  ip : Option CStr
  realname : Option CStr
  umodes : UInt64
  away : Option CStr
  disconnectTime : UInt64
  preference : UInt64
  numChannels : UInt64

def Head.records (h : Head) : List Record :=
  [.str h.nick, .str h.ident, .str h.host, .str h.realhost, .str h.cloakedhost, .str h.ip,
    .str h.realname, .int64 h.umodes, .str h.away, .int64 h.disconnectTime, .int64 h.preference,
    .int64 h.numChannels]

def PersistEntry.head : Head where
  nick := some e.nick.str
  ident := some e.ident.str
  host := some e.host.str
  realhost := some e.realhost.str
  cloakedhost := some e.cloakedhost.str
  ip := some e.ip.str
  realname := some e.realname.str
  umodes := e.umodes.toUInt64
  away := some (e.away.getD CStr.empty)
  disconnectTime := e.disconnectTime.toUInt64
  preference := e.preference.toInt64.toUInt64
  numChannels := UInt64.ofNat e.memberships.length

def PersistEntry.records : List Record :=
  .str (some e.account.str) :: (e.head.records ++ e.memberships.flatMap PersistChannel.records)

/-- What `persist_save_db` writes: `PERSIST_DB_VERSION`, the entries, and an empty account. -/
def persistRecords (entries : List PersistEntry) : List Record :=
  .int64 1 :: ((entries.filter PersistEntry.saved).flatMap PersistEntry.records ++
    [.str (some CStr.empty)])

/-- `persist_save_db`, which does not look at what the writes return. -/
def persistSaveDb (C : Crypto) (now : UInt64) (random : Random) (free : ℕ)
    (entries : List PersistEntry) : Option (List UInt8) :=
  match unrealdbOpenWrite (C := C) none now random free with
  | .error _ => none
  | .ok (c, _) => unrealdbClose ((persistRecords entries).foldl (fun c r => (writeRecord c r).2) c)

/-! ## Loading -/

/-- What the server has when it loads the file: the time, the configuration, and the memberships that a
ghost has after it has been added to channels. -/
structure Env where
  now : Int64
  cfg : Config
  joined : List PersistChannel → List PersistChannel

def Head.kinds : List Kind :=
  [.str, .str, .str, .str, .str, .str, .str, .int64, .str, .int64, .int64, .int64]

def Head.ofRecords : List Record → Option Head
  | [.str nick, .str ident, .str host, .str realhost, .str cloakedhost, .str ip, .str realname,
      .int64 umodes, .str away, .int64 disconnectTime, .int64 preference, .int64 numChannels] =>
    some ⟨nick, ident, host, realhost, cloakedhost, ip, realname, umodes, away, disconnectTime,
      preference, numChannels⟩
  | _ => none

/-- The reads between the account and the channels, joined by `||`. -/
def readHead (c : UnrealDB C) : Option (Head × UnrealDB C) :=
  match readRecords c Head.kinds with
  | some (rs, c') => (Head.ofRecords rs).map fun h => (h, c')
  | none => none

/-- The number of channels that are read: an `int`, and at most `PERSIST_MAX_CHANNELS`. -/
def Head.channelCount (h : Head) : ℕ := min h.numChannels.toInt64.toInt32.toInt.toNat maxChannels

/-- The loop over the channels. A read that fails ends it. -/
def readChannels (c : UnrealDB C) : ℕ → List PersistChannel × UnrealDB C
  | 0 => ([], c)
  | n + 1 =>
    match unrealdbReadStr c with
    | (none, c₁) => ([], c₁)
    | (some name, c₁) =>
      match unrealdbReadStr c₁ with
      | (none, c₂) => ([], c₂)
      | (some modes, c₂) =>
        let rest := readChannels c₂ n
        (⟨strlcpy 32 (name.getD CStr.empty), strlcpy 7 (modes.getD CStr.empty)⟩ :: rest.1, rest.2)

/-- `CHANTYPES`. -/
def chantypes : List UInt8 := ascii "#^$"

def startsChannel (s : CStr) : Bool := s.bytes.head?.any (· ∈ chantypes)

def PersistEntry.key : List UInt8 := e.account.str.fold

/-- A new entry of `get_or_create_entry`. -/
def newEntry (now : Int64) (account : CStr) : PersistEntry where
  account := strlcpy 30 account
  nick := strlcpy 30 CStr.empty
  ident := strlcpy 10 CStr.empty
  host := strlcpy 63 CStr.empty
  realhost := strlcpy 63 CStr.empty
  cloakedhost := strlcpy 63 CStr.empty
  ip := strlcpy 63 CStr.empty
  realname := strlcpy 50 CStr.empty
  umodes := 0
  away := none
  disconnectTime := now
  channels := []
  preference := prefDefault
  ghost := none
  canonical := none

def zeroAccount : CStr := ⟨ascii "0", by decide +kernel⟩

/-- `get_or_create_entry`, and a change of the entry. -/
def updateEntry (now : Int64) (list : List PersistEntry) (account : CStr)
    (f : PersistEntry → PersistEntry) : List PersistEntry :=
  if account ≠ zeroAccount ∧ (Keyed.find PersistEntry.key list account.fold).isSome then
    Keyed.modify PersistEntry.key account.fold f list
  else f (newEntry now account) :: list

/-- `persistence_effective` without a client. -/
def Env.effective (env : Env) (preference : Int32) : Bool :=
  if preference = prefOn then true
  else if preference = prefOff then false
  else env.cfg.defaultOn

/-- `do_create_ghost`, at the end of a record. -/
def Env.ghost (env : Env) (e : PersistEntry) : Option (List PersistChannel) :=
  if e.channels ≠ [] ∧ env.now.toInt - e.disconnectTime.toInt < env.cfg.timeout ∧
      env.effective e.preference ∧ e.nick.str ≠ CStr.empty then
    some (env.joined e.channels)
  else e.ghost

def Env.fill (env : Env) (h : Head) (channels : List PersistChannel) (e : PersistEntry) :
    PersistEntry :=
  let away := h.away.getD CStr.empty
  let e := { e with
    nick := strlcpy 30 (h.nick.getD CStr.empty)
    ident := strlcpy 10 (h.ident.getD CStr.empty)
    host := strlcpy 63 (h.host.getD CStr.empty)
    realhost := strlcpy 63 (h.realhost.getD CStr.empty)
    cloakedhost := strlcpy 63 (h.cloakedhost.getD CStr.empty)
    ip := strlcpy 63 (h.ip.getD CStr.empty)
    realname := strlcpy 50 (h.realname.getD CStr.empty)
    umodes := h.umodes.toInt64
    away := if away = CStr.empty then none else some away
    disconnectTime := h.disconnectTime.toInt64
    preference := h.preference.toInt64.toInt32
    channels := channels }
  { e with ghost := env.ghost e }

theorem readHead_pending {c c' : UnrealDB C} {h : Head} (hread : readHead c = some (h, c')) :
    c'.pending ≤ c.pending := by
  unfold readHead at hread
  split at hread
  · rename_i rs c₁ hrecords
    obtain ⟨h', -, heq⟩ := Option.map_eq_some_iff.mp hread
    obtain ⟨-, rfl⟩ := Prod.mk.inj heq
    exact readRecords_pending_le hrecords
  · cases hread

theorem readChannels_pending (c : UnrealDB C) (n : ℕ) : (readChannels c n).2.pending ≤ c.pending := by
  induction n generalizing c with
  | zero => exact le_rfl
  | succ n ih =>
    have h1 := (unrealdbReadStr_takes c).1
    unfold readChannels
    rcases hname : unrealdbReadStr c with ⟨_ | name, c₁⟩
    · rw [hname] at h1
      exact h1
    rw [hname] at h1
    have h2 := (unrealdbReadStr_takes c₁).1
    rcases hmodes : unrealdbReadStr c₁ with ⟨_ | modes, c₂⟩
    · simp only [hmodes]
      rw [hmodes] at h2
      exact h2.trans h1
    · simp only [hmodes]
      rw [hmodes] at h2
      exact (ih c₂).trans (h2.trans h1)

/-- How the loop of `persist_load_db` ends: at an empty account, or at a read that fails. -/
inductive Stop
  | complete
  | failed
deriving DecidableEq, Repr

/-- The loop of `persist_load_db`. -/
def persistLoadLoop (env : Env) (list : List PersistEntry) (c : UnrealDB C) :
    List PersistEntry × Stop :=
  match _haccount : unrealdbReadStr c with
  | (none, _) => (list, .failed)
  | (some account, c₁) =>
    if account.getD CStr.empty = CStr.empty then (list, .complete)
    else
      match _hhead : readHead c₁ with
      | none => (list, .failed)
      | some (h, c₂) =>
        let channels := readChannels c₂ h.channelCount
        persistLoadLoop env
          (updateEntry env.now list (account.getD CStr.empty) (env.fill h channels.1)) channels.2
termination_by c.pending
decreasing_by
  exact ((readChannels_pending c₂ _).trans (readHead_pending _hhead)).trans_lt
    ((unrealdbReadStr_takes _).pending _haccount)

/-- `persist_load_db` on a server without entries. -/
def persistLoadDb (C : Crypto) (env : Env) (file : List UInt8) : List PersistEntry × Stop :=
  match unrealdbOpenRead (C := C) none file with
  | .error _ => ([], .failed)
  | .ok c =>
    match unrealdbReadInt64 c with
    | (some version, c) => if version = 1 then persistLoadLoop env [] c else ([], .failed)
    | (none, _) => ([], .failed)

end ObbyIRCd.Persist
