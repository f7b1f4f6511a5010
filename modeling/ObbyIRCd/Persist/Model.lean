import Mathlib.Data.Int.Notation
import ObbyIRCd.Lib.Bytes
import ObbyIRCd.Lib.Keyed

/-!
# Sessions of the persistence module

The hooks, commands and events of `persistence.c` that create, attach to, hand over and free the
entries of `persist_list`. Pointers to clients and to entries are numbers that are not used again, so
that a pointer to something freed points to nothing; a client that has gone counts as dead. Memberships
belong to the channels: an event says how many there are when a function counts them. Nicks, hosts and
what is sent to clients are left out. Restoring channels does not kill the client.
-/

namespace ObbyIRCd.Persist

/-! ## State -/

/-- `PERSIST_MAX_SESSIONS`. -/
def maxSessions : ℤ := 8

/-- `PERSIST_MAX_CHANNELS`. -/
def maxChannels : ℕ := 100

/-- The preferences of an account. -/
inductive Pref
  | default | off | on
deriving DecidableEq, Repr

structure Client where
  /-- `client->user->account`. -/
  account : List Char
  /-- `IsUser`. -/
  registered : Bool
  /-- `persistence_ghost`. -/
  ghost : Bool
  /-- `persistence_session`. -/
  session : Bool
  /-- `persistence_restore`. -/
  restore : Option ℕ
deriving DecidableEq, Repr

/-- `PersistEntry`. -/
structure Entry where
  id : ℕ
  account : List Char
  disconnectTime : ℤ
  numChannels : ℕ
  ghost : Option ℕ
  canonical : Option ℕ
  sessions : List ℕ
  numSessions : ℤ
  preference : Pref
deriving DecidableEq, Repr

/-- The clients and `persist_list`. -/
structure State where
  clients : ℕ → Option Client
  entries : List Entry
  nextClient : ℕ
  nextEntry : ℕ

/-- `persist_default_on` and `persist_timeout`. -/
structure Config where
  defaultOn : Bool
  timeout : ℤ

/-- `IsLoggedIn`, by the name of the account. -/
def isLoggedIn : List Char → Bool
  | [] => true
  | ch :: _ => ch ≠ '*' && !ch.isDigit

structure AccountName where
  text : List Char
  ne_nil : text ≠ []

/-! ## Entries -/

variable (s : State)

def State.entry (id : ℕ) : Option Entry := Keyed.find Entry.id s.entries id

def State.modify (id : ℕ) (f : Entry → Entry) : State :=
  { s with entries := Keyed.modify Entry.id id f s.entries }

variable (c : ℕ)

def State.modifyClient (f : Client → Client) : State :=
  { s with clients := Function.update s.clients c ((s.clients c).map f) }

def State.removeClient : State :=
  { s with clients := Function.update s.clients c none }

/-- `find_entry`. -/
def State.findEntry (account : List Char) : Option Entry :=
  if account = [] ∨ account = ['0'] then none
  else Keyed.find (fun e => lower e.account) s.entries (lower account)

/-- `get_or_create_entry`. -/
def State.getOrCreateEntry (now : ℤ) (account : List Char) : State × Entry :=
  match s.findEntry account with
  | some e => (s, e)
  | none =>
    let e : Entry := ⟨s.nextEntry, account, now, 0, none, none, [], 0, .default⟩
    ({ s with entries := e :: s.entries, nextEntry := s.nextEntry + 1 }, e)

/-- `free_entry`. -/
def State.freeEntry (id : ℕ) : State :=
  { s with entries := s.entries.filter fun e => e.id ≠ id }

variable (cfg : Config)

/-- `persistence_effective` for a client that is logged in. -/
def persistenceEffective (e : Option Entry) : Bool :=
  match e.elim .default Entry.preference with
  | .on => true
  | .off => false
  | .default => cfg.defaultOn

/-- A canonical that sessions can attach to: neither dead nor a ghost, and registered. -/
def State.isLive : Bool :=
  match s.clients c with
  | some cl => cl.registered && !cl.ghost
  | none => false

/-! ## Ghosts and sessions -/

/-- `do_create_ghost`. -/
def State.createGhost (id : ℕ) : State :=
  match s.entry id with
  | some e =>
    if e.numChannels = 0 then s
    else
      { s.modify id (fun e => { e with ghost := some s.nextClient }) with
        clients := Function.update s.clients s.nextClient (some ⟨e.account, true, true, false, none⟩)
        nextClient := s.nextClient + 1 }
  | none => s

/-- `destroy_ghost`. -/
def State.destroyGhost (e : Entry) : State :=
  match e.ghost with
  | some g => (s.modify e.id fun e => { e with ghost := none }).removeClient g
  | none => s

/-- `remove_session`. -/
def Entry.removeSession (e : Entry) : Entry :=
  if c ∈ e.sessions then
    { e with sessions := e.sessions.erase c, numSessions := e.numSessions - 1 }
  else e

/-- `promote_session`, with the restoration of the channels. -/
def State.promoteSession (e : Entry) : State :=
  match e.sessions with
  | [] => s
  | c :: rest =>
    (s.modifyClient c fun cl => { cl with session := false, restore := none }).modify e.id fun e =>
      { e with sessions := rest, numSessions := e.numSessions - 1, canonical := some c }

/-- `setup_session`, which attaches the client. -/
def State.setupSession (e : Entry) : State :=
  match e.canonical with
  | some k =>
    if s.isLive k then
      s.modify e.id fun e => { e with sessions := c :: e.sessions, numSessions := e.numSessions + 1 }
    else s
  | none => s

/-! ## Hooks -/

/-- `persist_local_quit`, for a registered client that is in `channels` channels. -/
def State.persistLocalQuit (now : ℤ) (channels c : ℕ) (cl : Client) (s : State) : State :=
  if cl.ghost then s
  else if cl.session then
    match cl.restore with
    | some id => s.modify id (Entry.removeSession c)
    | none => s
  else if isLoggedIn cl.account = false then s
  else if persistenceEffective cfg (s.findEntry cl.account) = false then
    match s.findEntry cl.account with
    | some e => if e.canonical = some c then s.modify e.id fun e => { e with canonical := none } else s
    | none => s
  else
    let (s, e) := s.getOrCreateEntry now cl.account
    if e.canonical ≠ none ∧ e.canonical ≠ some c then s
    else
      let s := s.modify e.id fun e => { e with canonical := none }
      let s := s.destroyGhost e
      -- `save_client_to_entry`
      let s := s.modify e.id fun e =>
        { e with disconnectTime := now, numChannels := min channels maxChannels }
      if 0 < e.numSessions then s.promoteSession e else s.createGhost e.id

/-- `exit_client`: the hook of a registered client, then the client is freed. -/
def State.exitClient (now : ℤ) (channels c : ℕ) (s : State) : State :=
  match s.clients c with
  | some cl =>
    (if cl.registered then s.persistLocalQuit cfg now channels c cl else s).removeClient c
  | none => s

/-- `persist_account_login`, where `entry` is the entry of the account after its ghost has been
reclaimed. -/
def State.loginEntry (now : ℤ) (channels c : ℕ) (registered : Bool) (e : Entry)
    (s : State) : State :=
  if e.canonical.any s.isLive then
    if e.numSessions ≥ maxSessions then s.exitClient cfg now channels c
    else s.modifyClient c fun cl => { cl with session := true, restore := some e.id }
  else
    let s := s.modify e.id fun e => { e with canonical := none }
    if persistenceEffective cfg (some e) = false then s
    else if registered then
      -- the channels are restored at once, which clears the restore pointer
      (s.modifyClient c fun cl => { cl with restore := none }).modify e.id fun e =>
        { e with canonical := some c }
    else s.modifyClient c fun cl => { cl with restore := some e.id }

/-- `persist_account_login`, after the account of the client has been set. -/
def State.persistAccountLogin (now : ℤ) (channels ghostChannels c : ℕ) (cl : Client)
    (s : State) : State :=
  if isLoggedIn cl.account = false then s
  else
    match s.findEntry cl.account with
    | none => s
    | some e =>
      let s := match e.ghost with
        | some _ => (s.destroyGhost e).modify e.id fun e =>
            { e with numChannels := min ghostChannels maxChannels }
        | none => s
      s.loginEntry cfg now channels c cl.registered e

/-- `persist_welcome` after the end of the MOTD. -/
def State.persistWelcome (cl : Client) (s : State) : State :=
  match cl.restore.bind s.entry with
  | none => s
  | some e =>
    if cl.session then s.setupSession c e
    else
      (s.modifyClient c fun cl => { cl with restore := none }).modify e.id fun e =>
        { e with canonical := some c }

/-- One entry in the loop of `ghost_cleanup_event`. -/
def State.cleanEntry (now : ℤ) (s : State) (e : Entry) : State :=
  if e.canonical.any (fun k => (s.clients k).isSome) then s
  else if now - e.disconnectTime > cfg.timeout then (s.destroyGhost e).freeEntry e.id
  else s

/-- `ghost_cleanup_event`. -/
def State.ghostCleanup (now : ℤ) (s : State) : State :=
  s.entries.foldl (State.cleanEntry cfg now) s

/-- What `persist_load_db` reads about an account, as `persist_save_db` wrote it. -/
structure Row where
  account : AccountName
  loggedIn : isLoggedIn account.text = true
  disconnectTime : ℤ
  preference : Pref
  numChannels : ℕ

/-- `persist_load_db`, for one account. -/
def State.loadRow (now : ℤ) (s : State) (row : Row) : State :=
  let (s, e) := s.getOrCreateEntry now row.account.text
  let load := fun e : Entry =>
    { e with
      disconnectTime := row.disconnectTime, preference := row.preference
      numChannels := min row.numChannels maxChannels }
  let s := s.modify e.id load
  if 0 < (load e).numChannels ∧ now - row.disconnectTime < cfg.timeout ∧
      persistenceEffective cfg (some (load e)) then
    s.createGhost e.id
  else s

/-- The server after `persist_load_db`. -/
def State.persistLoadDb (now : ℤ) (rows : List Row) : State :=
  rows.foldl (State.loadRow cfg now) ⟨fun _ => none, [], 0, 0⟩

/-- What happens to the server. -/
inductive Event
  | connect
  | login (now : ℤ) (c : ℕ) (name : AccountName) (channels ghostChannels : ℕ)
  /-- A client is registered and welcomed. -/
  | welcome (c : ℕ)
  | quit (now : ℤ) (c channels : ℕ)
  /-- `PERSISTENCE SET`. -/
  | set (now : ℤ) (c : ℕ) (preference : Pref)
  /-- `PERSISTENCE ERASE` with the right code, or `persistence.erase`. -/
  | erase (account : List Char)
  | cleanup (now : ℤ)

def State.step (s : State) : Event → State
  | .connect =>
    { s with
      clients := Function.update s.clients s.nextClient (some ⟨['0'], false, false, false, none⟩)
      nextClient := s.nextClient + 1 }
  | .login now c name channels ghostChannels =>
    match s.clients c with
    | none => s
    | some cl =>
      let cl := { cl with account := name.text }
      (s.modifyClient c fun _ => cl).persistAccountLogin cfg now channels ghostChannels c cl
  | .welcome c =>
    match s.clients c with
    | none => s
    | some cl =>
      if cl.registered then s
      else (s.modifyClient c fun cl => { cl with registered := true }).persistWelcome c cl
  | .quit now c channels => s.exitClient cfg now channels c
  | .set now c preference =>
    match s.clients c with
    | none => s
    | some cl =>
      if cl.registered = false ∨ isLoggedIn cl.account = false then s
      else
        let (s, e) := s.getOrCreateEntry now cl.account
        let s := s.modify e.id fun e => { e with preference := preference }
        if persistenceEffective cfg (some { e with preference := preference }) = false then
          s.destroyGhost e
        else s
  | .erase account =>
    match s.findEntry account with
    | none => s
    | some e => (s.destroyGhost e).freeEntry e.id
  | .cleanup now => s.ghostCleanup cfg now

end ObbyIRCd.Persist
