import Mathlib.Data.Int.Notation
import Mathlib.Data.Nat.Notation
import Mathlib.Logic.Function.Basic

/-!
# Channels, users and the structures between them

`channel.c` records that a user is on a channel in two structures that point to each other: a `Member`
in the list of the channel and a `Membership` in the list of the user. A member that is connected to
this server has a third one, a `LocalMember`, in a second list of the channel. The channel counts its
users, the user its channels, and the server its channels, which are in a list and in a hash table.

Structures live at addresses, and pointers are addresses: reading through a pointer to a structure that
has been freed has no result (`none`). A linked list is the list of the addresses of its items.
`AddListItem` puts an item first and `DelListItem` takes it out. Left out are the data that these
functions do not touch: bans, modes and topic of a channel, module data, and the flags of a member.
-/

namespace ObbyIRCd.Members

open Function

abbrev Address := ℕ

/-- `struct Member`, an item of `channel->members`. -/
structure Member where
  client : Address
  memberModes : List Char
  related : Address
  localMember : Option Address
deriving DecidableEq, Repr

/-- `struct Membership`, an item of `client->user->channel`. -/
structure Membership where
  channel : Address
  memberModes : List Char
  related : Address
deriving DecidableEq, Repr

/-- `struct LocalMember`, an item of `channel->local_members`. -/
structure LocalMember where
  ptr : Address
deriving DecidableEq, Repr

/-- `struct Channel`. -/
structure Channel where
  name : List Char
  users : ℤ
  members : List Address
  localMembers : List Address
deriving DecidableEq, Repr

/-- `struct User`: the part of a client that a server or an unregistered connection lacks. -/
structure User where
  channel : List Address
  joined : ℤ
deriving DecidableEq, Repr

/-- `struct Client`; `myConnect` says whether it is connected to this server. -/
structure Client where
  user : Option User
  myConnect : Bool
deriving DecidableEq, Repr

structure Server where
  member : Address → Option Member
  membership : Address → Option Membership
  localMember : Address → Option LocalMember
  channel : Address → Option Channel
  client : Address → Client
  /-- The list `channels`. -/
  channels : List Address
  /-- The buckets of `channelTable`. -/
  channelTable : ℕ → List Address
  /-- `irccounts.channels`. -/
  channelCount : ℤ
  next : Address

/-- What a server takes from its modules and libraries. -/
structure Env where
  /-- The rank of a member mode, if the letter is one. -/
  rank : Char → Option ℕ
  /-- `hash_channel_name`. -/
  hashChannelName : List Char → ℕ
  /-- `smycmp(a, b) == 0`. -/
  sameName : List Char → List Char → Bool

variable (env : Env)

/-- `MEMBERMODESLEN`. -/
def memberModesLen : ℕ := 8

/-- `CHANNELLEN`. -/
def channelLen : ℕ := 32

/-- The loop of `addlettertomstring`: the letter goes before the first letter of lower rank. -/
def insertLetter (rank : ℕ) (letter : Char) : List Char → List Char
  | [] => [letter]
  | c :: rest => match env.rank c with
    | some r => if r < rank then letter :: c :: rest else c :: insertLetter rank letter rest
    | none => c :: insertLetter rank letter rest

/-- `addlettertomstring`. -/
def addLetterToMstring (str : List Char) (letter : Char) : List Char :=
  match env.rank letter with
  | none => str
  | some r => if str.length ≥ memberModesLen - 1 then str else insertLetter env r letter str

namespace Server

variable (s : Server) (name : List Char)

/-- `find_channel`. -/
def findChannel : Option Address :=
  (s.channelTable (env.hashChannelName name)).find? fun ch =>
    match s.channel ch with
    | some c => env.sameName name c.name
    | none => false

/-- The first lines of `make_channel`: the name is cut at its maximum length, and at the first
character that a channel name cannot have. -/
def nameBuf : List Char :=
  (name.take channelLen).takeWhile fun c => !(c.val < 33 || c = ',' || c = ':')

/-- The rest of `make_channel`, after the channel has not been found. -/
def newChannel : Server :=
  let bucket := env.hashChannelName name
  { s with
    channel := update s.channel s.next (some ⟨name, 0, [], []⟩)
    channels := s.next :: s.channels
    channelTable := update s.channelTable bucket (s.next :: s.channelTable bucket)
    channelCount := s.channelCount + 1
    next := s.next + 1 }

/-- `make_channel`: the channel of that name, which is created if it does not exist. There is none for
an empty name. -/
def makeChannel : Option (Server × Address) :=
  if name = [] then none
  else match s.findChannel env (nameBuf name) with
    | some ch => some (s, ch)
    | none => some (s.newChannel env (nameBuf name), s.next)

/-- `add_user_to_channel`. -/
def addUserToChannel (ch client : Address) (modes : List Char) : Option Server :=
  match (s.client client).user with
  | none => some s
  | some user => do
    let channel ← s.channel ch
    let m := s.next
    let lm := s.next + 1
    let mb := s.next + 2
    let isLocal := (s.client client).myConnect
    let memberModes := modes.foldl (addLetterToMstring env) []
    some { s with
      member := update s.member m
        (some ⟨client, memberModes, mb, if isLocal then some lm else none⟩)
      membership := update s.membership mb (some ⟨ch, memberModes, m⟩)
      localMember := if isLocal then update s.localMember lm (some ⟨m⟩) else s.localMember
      channel := update s.channel ch (some { channel with
        members := m :: channel.members
        users := channel.users + 1
        localMembers := if isLocal then lm :: channel.localMembers else channel.localMembers })
      client := update s.client client { s.client client with
        user := some ⟨mb :: user.channel, user.joined + 1⟩ }
      next := s.next + 3 }

/-- `sub1_from_channel`: one user less; an empty channel is destroyed unless a hook keeps it. Also
returned is the answer of the hooks, if they were asked. -/
def sub1FromChannel (ch : Address) (keep : Bool) : Option (Server × Option Bool) := do
  let channel ← s.channel ch
  if channel.users - 1 > 0 then
    let channel := { channel with users := channel.users - 1 }
    some ({ s with channel := update s.channel ch (some channel) }, none)
  else if keep then
    some ({ s with channel := update s.channel ch (some { channel with users := 0 }) },
      some true)
  else
    let bucket := env.hashChannelName channel.name
    some ({ s with
      channel := update s.channel ch none
      channels := s.channels.erase ch
      channelTable := update s.channelTable bucket ((s.channelTable bucket).erase ch)
      channelCount := s.channelCount - 1 }, some false)

/-- The first part of `remove_user_from_channel_withmb`: the three structures are taken out of their
lists and freed. -/
def unlinkMembership (client ch mb : Address) : Option Server := do
  let membership ← s.membership mb
  let member ← s.member membership.related
  let channel ← s.channel ch
  let user ← (s.client client).user
  some { s with
    member := update s.member membership.related none
    membership := update s.membership mb none
    localMember := match member.localMember with
      | some lm => update s.localMember lm none
      | none => s.localMember
    channel := update s.channel ch (some { channel with
      members := channel.members.erase membership.related
      localMembers := match member.localMember with
        | some lm => channel.localMembers.erase lm
        | none => channel.localMembers })
    client := update s.client client { s.client client with
      user := some ⟨user.channel.erase mb, user.joined - 1⟩ } }

/-- `remove_user_from_channel_withmb`. -/
def removeUserFromChannelWithmb (client ch mb : Address) (keep : Bool) :
    Option (Server × Option Bool) := do
  let s ← s.unlinkMembership client ch mb
  s.sub1FromChannel env ch keep

/-- `find_membership_link`: whether one of the memberships is of the channel. -/
def isMember (user : User) (ch : Address) : Bool :=
  user.channel.any fun mb => match s.membership mb with
    | some membership => membership.channel = ch
    | none => false

end Server

/-- What happens to the channels of a server. -/
inductive Event
  /-- The user joins the channel of that name, if `allowed` by the checks; `keep` is the answer of the
  hooks if a channel without users has to go. -/
  | join (client : Address) (name modes : List Char) (allowed keep : Bool)
  /-- A membership of the user ends: it parts, is kicked or quits. -/
  | part (client mb : Address) (keep : Bool)

namespace Server

/-- What an event does; the second result names a channel about which the hooks were asked, with
their answer. -/
def step (s : Server) : Event → Option (Server × Option (Address × Bool))
  | .join client name modes allowed keep =>
    match s.makeChannel env name with
    | none => some (s, none)
    | some (s', ch) => do
      let user ← (s'.client client).user
      if s'.isMember user ch then some (s', none)
      else if allowed then
        let s'' ← s'.addUserToChannel env ch client modes
        some (s'', none)
      else
        -- the channel may have been made for this join only
        let channel ← s'.channel ch
        if channel.users = 0 then
          let (s'', answer) ← s'.sub1FromChannel env ch keep
          some (s'', answer.map (ch, ·))
        else some (s', none)
  | .part client mb keep => do
    let membership ← s.membership mb
    let (s', answer) ← s.removeUserFromChannelWithmb env client membership.channel mb keep
    some (s', answer.map (membership.channel, ·))

/-- Joins come from users, and only a membership of the user ends. -/
def Admits (s : Server) : Event → Prop
  | .join client _ _ _ _ => (s.client client).user ≠ none
  | .part client mb _ => ∃ user, (s.client client).user = some user ∧ mb ∈ user.channel

end Server

end ObbyIRCd.Members
