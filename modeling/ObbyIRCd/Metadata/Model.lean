import ObbyIRCd.Lib.Bytes
import ObbyIRCd.Lib.Keyed

/-!
# Metadata of users and channels

The part of `metadata.c` that servers tell each other: `metadata_server_sync` sends all metadata to a
server that has just linked, and `cmd_metadata_remote` applies what comes in with the functions that
set metadata. Subscriptions, notifications to clients and the checks of `cmd_metadata_local` are left
out. A change that came from a server is not sent back to it.
-/

namespace ObbyIRCd.Metadata


/-- `struct metadata`. -/
structure Entry where
  name : List Char
  value : List Char
deriving DecidableEq, Repr

/-- A user or a channel. -/
structure Target where
  name : List Char
  metadata : List Entry
deriving DecidableEq, Repr

/-- `metadata_settings`. -/
structure Settings where
  maxUserMetadata : ℕ
  maxChannelMetadata : ℕ

structure Server where
  users : List Target
  channels : List Target
deriving DecidableEq, Repr

/-- Keys and names are compared without case. -/
def Entry.key (e : Entry) : List Char := lower e.name

def Target.key (t : Target) : List Char := lower t.name

/-- `metadata_set_user` and `metadata_set_channel` for a client that the limit holds for; no value
stands for an empty one. -/
def metadataSet (limit : ℕ) (key : List Char) (value : Option (List Char)) (metadata : List Entry) :
    List Entry :=
  match value with
  | none => metadata.eraseP fun e => e.key = lower key
  | some value =>
    if metadata.any fun e => e.key = lower key then
      metadata.map fun e => if e.key = lower key then { e with value := value } else e
    else if metadata.length < limit then metadata ++ [⟨key, value⟩]
    else metadata

/-- `metadata_key_valid`. -/
def metadataKeyValid (key : List Char) : Bool :=
  key ≠ [] && key.all fun c =>
    ('a' ≤ c && c ≤ 'z') || ('0' ≤ c && c ≤ '9') || c = '_' || c = '.' || c = '/' || c = '-'

/-- `METADATA` between servers. -/
structure Message where
  target : List Char
  key : List Char
  value : List Char
deriving DecidableEq, Repr

/-- `metadata_send_change` for all metadata of a user or a channel. -/
def Target.messages (t : Target) : List Message :=
  t.metadata.map fun e => ⟨t.name, e.name, e.value⟩

/-- `metadata_server_sync`. -/
def metadataServerSync (srv : Server) : List Message :=
  srv.users.flatMap Target.messages ++ srv.channels.flatMap Target.messages

def Target.set (limit : ℕ) (key : List Char) (value : Option (List Char)) (t : Target) : Target :=
  { t with metadata := metadataSet limit key value t.metadata }

/-- `cmd_metadata_remote`. A target with a `#` is a channel, from there on; one that is not found is
ignored. -/
def cmdMetadataRemote (cfg : Settings) (srv : Server) (msg : Message) : Server :=
  let value := if msg.value = [] then none else some msg.value
  if msg.target = [] ∨ msg.target = ['*'] ∨ metadataKeyValid msg.key = false then srv
  else if '#' ∈ msg.target then
    { srv with
      channels := Keyed.modify Target.key (lower (msg.target.dropWhile (· ≠ '#')))
        (Target.set cfg.maxChannelMetadata msg.key value) srv.channels }
  else
    { srv with
      users := Keyed.modify Target.key (lower msg.target)
        (Target.set cfg.maxUserMetadata msg.key value) srv.users }

def receive (cfg : Settings) (srv : Server) (msgs : List Message) : Server :=
  msgs.foldl (cmdMetadataRemote cfg) srv

/-- `metadata_get_user_key_value` and `metadata_get_channel_key_value`. -/
def getKeyValue (metadata : List Entry) (key : List Char) : Option (List Char) :=
  (Keyed.find Entry.key metadata (lower key)).map Entry.value

end ObbyIRCd.Metadata
