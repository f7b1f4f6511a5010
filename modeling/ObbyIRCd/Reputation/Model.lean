import Mathlib.Data.Int.Order.Basic
import Mathlib.Data.Nat.Notation
import ObbyIRCd.Lib.Decimal
import ObbyIRCd.Lib.Network

/-!
# Reputation scores between servers

Every server keeps a score for each IP address it has seen (`reputation.c`). When a user connects,
`reputation_pre_lconnect` tells the network the score of the user's address; a server that knows a
higher score answers toward the sender, a server that knows a lower one takes the new score over, and
both pass the message on (`reputation_server_cmd`). The score travels as text: a leading asterisk
forbids answers, and a trailing one forces the score even if it is lower.

Kept of a server is the score of each address. The time an entry was last seen and the copy of the
score at the connected users are not read by these functions. `client` is the server that a message
names as its source, and the messages to its direction go over the link on which the message came.
-/

namespace ObbyIRCd.Reputation

variable {V Ip : Type*}

/-- `REPUTATION_SCORE_CAP`. -/
def scoreCap : ℕ := 10000

/-- `UPDATE_SCORE_MARGIN`. -/
def updateScoreMargin : ℕ := 1

/-- `:client REPUTATION ip score`. -/
structure Message (V Ip : Type*) where
  client : V
  ip : Ip
  score : List Char
deriving DecidableEq

/-- The entries of a server: `find_reputation_entry` and the score it finds. -/
abbrev Table (Ip : Type*) := Ip → Option ℕ

/-- `reputation_lookup_score_and_set`: an address without an entry has score 0. -/
def lookupScore (t : Table Ip) (ip : Ip) : ℕ := (t ip).getD 0

def scoreText (allowReply : Bool) (score : ℕ) (forced : Bool) : List Char :=
  (if allowReply then [] else ['*']) ++ decimal score ++ (if forced then ['*'] else [])

/-- What the text of a score says. -/
structure ScoreParam where
  score : ℕ
  allowReply : Bool
  forced : Bool
deriving DecidableEq, Repr

/-- A received score is brought into the range 0 to `REPUTATION_SCORE_CAP`. -/
def clampScore (score : ℤ) : ℕ := (min score scoreCap).toNat

/-- The first lines of `reputation_server_cmd`: how `parv[2]` is read. -/
def parseScore : List Char → ScoreParam
  | '*' :: rest => ⟨clampScore (atoi rest), false, rest.getLast? == some '*'⟩
  | text => ⟨clampScore (atoi text), true, false⟩

structure Reaction (V Ip : Type*) where
  table : Table Ip
  /-- Sent to the direction of `client`. -/
  reply : Option (Message V Ip)
  /-- Sent to every other directly linked server. -/
  propagate : Option (Message V Ip)

/-- `reputation_server_cmd` at the server `me`. -/
def reputationServerCmd [DecidableEq Ip] (me : V) (msg : Message V Ip) (t : Table Ip) :
    Reaction V Ip :=
  if msg.score = [] then ⟨t, none, none⟩
  else
    let p := parseScore msg.score
    -- our score is higher: inform the direction of the client, with an asterisk
    let higher : Bool := match t msg.ip with
      | some e => p.allowReply && decide (e > p.score ∧ e - p.score > updateScoreMargin)
      | none => false
    let score := if higher then lookupScore t msg.ip else p.score
    let entry := match t msg.ip with
      | some e => if score > e then some score else if p.forced then some score else some e
      | none => if score > 0 then some score else none
    { table := Function.update t msg.ip entry
      reply := if higher then some ⟨me, msg.ip, scoreText false score false⟩ else none
      propagate := some ⟨msg.client, msg.ip, scoreText p.allowReply score p.forced⟩ }

variable [DecidableEq V] [DecidableEq Ip] (G : SimpleGraph V) [DecidableRel G.Adj]

/-- A server with the links of `G` that receives a message over its link to `u`. -/
def receive : Network.Handler V (Table Ip) (Message V Ip) := fun me u msg t =>
  let r := reputationServerCmd me msg t
  (r.table, fun w =>
    if G.Adj me w then if w = u then r.reply.toList else r.propagate.toList else [])

/-- `reputation_pre_lconnect` at the server `me`: every linked server is told our score. -/
def reputationPreLconnect (me : V) (ip : Ip) (tables : V → Table Ip) :
    Network V (Table Ip) (Message V Ip) where
  node := tables
  link a b := if a = me ∧ G.Adj a b then
    [⟨me, ip, scoreText true (lookupScore (tables me) ip) false⟩] else []

end ObbyIRCd.Reputation
