import ObbyIRCd.History.Model

/-!
# The history of direct messages of `src/modules/pm_history.c`

Direct messages between two accounts are stored in an SQLite table with the time of their arrival.
The time has a resolution of seconds, although it is stored in milliseconds. `CHATHISTORY` for a nick
is one query of the table, or two for `AROUND`, with a limit and the order of the times only: a
`msgid` given as an anchor is replaced by the time of its row.

SQLite is outside of the source. Its answers to the queries are an argument of `pmhSendHistory`, and
`Answers` says what they can be: the rows of the query, ordered by time and cut off at the limit, with
rows of the same time in any order.
-/

namespace ObbyIRCd.PmHistory

open History (MessageTag HistoryFilter msgidName)

/-- A row of the table `dm_history`. -/
structure Row where
  /-- The account that comes first by `strcmp`. -/
  accountA : CStr
  accountB : CStr
  tsMs : ℤ
  /-- The message's id, or `NULL`. -/
  msgid : Option CStr
  senderAccount : CStr
  line : CStr
deriving DecidableEq

/-- `pmh_pair`. -/
def pmhPair (acc1 acc2 : CStr) : CStr × CStr :=
  if (CStr.strcmp acc1 acc2).isLE then (acc1, acc2) else (acc2, acc1)

/-- `pmh_find_msgid`. -/
def pmhFindMsgid (mtags : List MessageTag) : Option CStr :=
  mtags.findSome? fun m => if m.name = msgidName then m.value.filter (· ≠ CStr.empty) else none

/-- `INSERT OR IGNORE`, with the unique index on a `msgid` that is not `NULL`. -/
def insertOrIgnore (db : List Row) (r : Row) : List Row :=
  if r.msgid.isSome ∧ r.msgid ∈ db.map Row.msgid then db else db ++ [r]

/-- `pmh_usermsg` at the time `now`. An account is missing if the sender or the recipient is not
logged in, and `line` is the line that `pmh_format_line` makes. -/
def pmhUsermsg (db : List Row) (client target : Option CStr) (mtags : List MessageTag) (now : ℤ)
    (line : CStr) : List Row :=
  match client, target with
  | some sender, some recipient =>
    if sender.fold = recipient.fold then db
    else
      let pair := pmhPair sender recipient
      insertOrIgnore db ⟨pair.1, pair.2, now * 1000, pmhFindMsgid mtags, sender, line⟩
  | _, _ => db

/-- The condition on `ts_ms` in a query. -/
inductive TsRange
  | any
  | lt (ms : ℤ)
  | gt (ms : ℤ)
  | ge (ms : ℤ)
  | within (lo hi : ℤ)
deriving DecidableEq

/-- Whether a time meets the condition. -/
def TsRange.contains : TsRange → ℤ → Bool
  | any, _ => true
  | lt ms, ts => ts < ms
  | gt ms, ts => ms < ts
  | ge ms, ts => ms ≤ ts
  | within lo hi, ts => lo ≤ ts ∧ ts ≤ hi

/-- `ORDER BY ts_ms`. -/
inductive Order
  | asc
  | desc
deriving DecidableEq

/-- Whether a time may stand in front of another. -/
def Order.le : Order → ℤ → ℤ → Prop
  | asc, s, t => s ≤ t
  | desc, s, t => t ≤ s

/-- A query of the table for the rows of two accounts. -/
structure Query where
  /-- `account_a`. -/
  accountA : CStr
  /-- `account_b`. -/
  accountB : CStr
  range : TsRange
  order : Order
  /-- `LIMIT`. -/
  limit : ℤ
deriving DecidableEq

def conversation (db : List Row) (accA accB : CStr) : List Row :=
  db.filter fun r => r.accountA = accA ∧ r.accountB = accB

/-- The rows that a query selects, before they are ordered and cut off. -/
def Query.rows (q : Query) (db : List Row) : List Row :=
  (conversation db q.accountA q.accountB).filter fun r => q.range.contains r.tsMs

/-- An answer to a query: its rows by time, up to the limit, with rows of the same time in any
order. -/
def Answers (db : List Row) (select : Query → List Row) : Prop :=
  ∀ q, ∃ sorted : List Row, sorted.Perm (q.rows db) ∧
    (sorted.Pairwise fun r s => q.order.le r.tsMs s.tsMs) ∧ select q = sorted.take q.limit.toNat

inductive HistoryCommand
  | before
  | after
  | latest
  | around
  | between
  | simple
deriving DecidableEq

/-- `pmh_resolve_bound`. `parseIsoMs` is `pmh_parse_iso_ms`, which is the C library's `sscanf` and
`timegm`. -/
def pmhResolveBound (parseIsoMs : CStr → Option ℤ) (db : List Row) (accA accB : CStr)
    (timestamp msgid : Option CStr) : Option ℤ :=
  match timestamp.filter (· ≠ CStr.empty) with
  | some t => parseIsoMs t
  | none =>
    match msgid.filter (· ≠ CStr.empty) with
    | some id => ((conversation db accA accB).find? fun r => r.msgid = some id).map Row.tsMs
    | none => none

/-- `DMH_MAX_LIMIT`. -/
def dmhMaxLimit : ℕ := 100

def pageLimit (limit : ℤ) : ℤ := if limit ≤ 0 ∨ limit > dmhMaxLimit then dmhMaxLimit else limit

/-- Rows that are fetched to an array of `DMH_MAX_LIMIT` entries and sent from its end. -/
def flipped (rows : List Row) : List Row := (rows.take dmhMaxLimit).reverse

/-- `pmh_send_history`: the rows that are sent. `select` is what SQLite answers to a query. -/
def pmhSendHistory (parseIsoMs : CStr → Option ℤ) (db : List Row) (select : Query → List Row)
    (accA accB : CStr) (cmd : HistoryCommand) (filter : HistoryFilter) : List Row :=
  let limit := pageLimit filter.limit
  let a := pmhResolveBound parseIsoMs db accA accB filter.timestampA filter.msgidA
  let b := pmhResolveBound parseIsoMs db accA accB filter.timestampB filter.msgidB
  -- A bound that cannot be resolved leaves the time at 0.
  let aMs := a.getD 0
  let bMs := b.getD 0
  match cmd with
  | .latest => flipped (select ⟨accA, accB, if a.isSome then .gt aMs else .any, .desc, limit⟩)
  | .before => flipped (select ⟨accA, accB, .lt aMs, .desc, limit⟩)
  | .after => select ⟨accA, accB, .gt aMs, .asc, limit⟩
  | .between => select ⟨accA, accB, .within (min aMs bMs) (max aMs bMs), .asc, limit⟩
  | .simple => flipped (select ⟨accA, accB, .any, .desc, limit⟩)
  | .around =>
    if a.isNone then []
    else
      let half := max 1 (limit.tdiv 2)
      flipped (select ⟨accA, accB, .lt aMs, .desc, half⟩) ++
        select ⟨accA, accB, .ge aMs, .asc, limit - half⟩

end ObbyIRCd.PmHistory
