import ObbyIRCd.Lib.Bytes
import ObbyIRCd.Lib.Walk

/-!
# The channel history of `src/modules/history_backend_mem.c`

A history object keeps the messages of a channel in a doubly linked list, from the oldest at `head`
to the latest at `tail`; here it is the list of its entries in that order. A message is inserted by
its time, walking back from the tail, and is dropped if the walk meets its `msgid`. A multiline
message is one entry, with its further lines behind `next_in_batch`. Entries are evicted from the
head to make room, and by age in `hbm_history_cleanup`.

An entry's `time` and `msgid` point into its message tags and `t` is the time in seconds, so an
entry carries the proofs that they agree with the tags. The wall clock, and the random `msgid` that
a message without one gets, are arguments. `sscanf` and `timegm` are the C library's.
-/

namespace ObbyIRCd.History

/-- The fields of `struct tm` that are used. -/
structure Tm where
  /-- `tm_year`. -/
  year : ℤ
  /-- `tm_mon`. -/
  mon : ℤ
  /-- `tm_mday`. -/
  mday : ℤ
  /-- `tm_hour`. -/
  hour : ℤ
  /-- `tm_min`. -/
  min : ℤ
  /-- `tm_sec`. -/
  sec : ℤ

/-- What the C library is used for. -/
structure Libc where
  /-- `sscanf` with the format of a server time, if all seven numbers are there. -/
  sscanf : CStr → Option Tm
  /-- `timegm`. -/
  timegm : Tm → ℤ

/-- `server_time_to_unix_time`. -/
def serverTimeToUnixTime (L : Libc) (tbuf : CStr) : ℤ :=
  if tbuf.strlen < 20 then 0
  else
    match L.sscanf tbuf with
    | none => 0
    | some tm => L.timegm { tm with year := tm.year - 1900, mon := tm.mon - 1 }

/-- A message tag. The value can be `NULL`. -/
structure MessageTag where
  /-- `name`. -/
  name : CStr
  /-- `value`. -/
  value : Option CStr
deriving DecidableEq

def timeName : CStr := ⟨ascii "time", by decide +kernel⟩
def msgidName : CStr := ⟨ascii "msgid", by decide +kernel⟩
def accountName : CStr := ⟨ascii "account", by decide +kernel⟩

variable (mtags : List MessageTag)

/-- `find_mtag`. -/
def findMtag (token : CStr) : Option MessageTag :=
  mtags.find? fun m => m.name = token

/-- The tag `time`, if there is one, has a value: `server_time_mtag_is_ok` refuses one without, and
the server's own have one. -/
def TimeValued : Prop := findMtag mtags timeName ≠ some ⟨timeName, none⟩

instance (mtags : List MessageTag) : Decidable (TimeValued mtags) :=
  inferInstanceAs (Decidable (_ ≠ _))

/-- What a message without the tags gets: the time of the day and random characters. -/
structure Stamp where
  time : CStr
  /-- `gen_random_alnum`. -/
  msgid : CStr
  /-- The time is printed to a buffer of 64 bytes. -/
  time_lt : time.strlen < 64
  /-- `MSGIDLEN`. -/
  msgid_eq : msgid.strlen = 22

/-- A line behind the first one of a multiline message. -/
structure BatchLine where
  line : CStr
  /-- `concat`, the bits of an `int`. -/
  concat : UInt32
deriving DecidableEq

/-- An entry of the history, `HistoryLogLine`. -/
@[ext]
structure HistoryLogLine (L : Libc) where
  line : CStr
  mtags : List MessageTag
  t : ℤ
  /-- The value of the tag `time`. -/
  time : CStr
  /-- The value of the tag `msgid`. -/
  msgid : CStr
  /-- `concat`. -/
  concat : UInt32
  /-- The further lines of a multiline message. -/
  nextInBatch : List BatchLine
  numLines : ℕ
  numBytes : ℕ
  /-- `time` is the tag's value. -/
  time_tag : findMtag mtags timeName = some ⟨timeName, some time⟩
  /-- `msgid` is the tag's value. -/
  msgid_tag : findMtag mtags msgidName = some ⟨msgidName, some msgid⟩
  /-- `t` is the time in seconds. -/
  t_eq : t = serverTimeToUnixTime L time
  /-- An entry has its first line and the further ones. -/
  num_lines_eq : numLines = 1 + nextInBatch.length
  num_bytes_eq : numBytes = line.strlen + (nextInBatch.map fun b => b.line.strlen).sum

/-- A history object, `HistoryLogObject`. -/
structure HistoryLogObject (L : Libc) where
  /-- The list, from `head` to `tail`. -/
  lines : List (HistoryLogLine L)
  numLines : ℕ
  oldestT : ℤ
  /-- Maximum number of lines permitted, 0 if it has not been set. -/
  maxLines : ℕ
  /-- Maximum number of seconds to retain history. -/
  maxTime : ℤ
  dirty : Bool

/-- A new object, as `hbm_find_or_add_object` makes it. -/
def newObject (L : Libc) : HistoryLogObject L := ⟨[], 0, 0, 0, 0, false⟩

/-- The tags with a value for `token`: as they are if there is one, or with a new tag in front. -/
def addMissing (token value : CStr) : List MessageTag × CStr :=
  match findMtag mtags token with
  | some ⟨_, some v⟩ => (mtags, v)
  | _ => (⟨token, some value⟩ :: mtags, value)

/-- `addMissing` makes its value the first of its tag. -/
theorem findMtag_addMissing (token value : CStr) : findMtag (addMissing mtags token value).1 token =
      some ⟨token, some (addMissing mtags token value).2⟩ := by
  unfold addMissing
  split
  · rename_i name v h
    have hname : name = token := by simpa using List.find?_some h
    rw [h, hname]
  · simp [findMtag]

/-- `addMissing` leaves the other tags alone. -/
theorem findMtag_addMissing_of_ne {token token' : CStr} (h : token ≠ token')
    (mtags : List MessageTag) (value : CStr) :
    findMtag (addMissing mtags token value).1 token' = findMtag mtags token' := by
  unfold addMissing
  split
  · rfl
  · simp [findMtag, h]

/-- `hbm_duplicate_mtags`: an entry for a line with its tags, and a time and a `msgid` for a message
that has none. A tag `time` has a value. -/
def hbmDuplicateMtags (L : Libc) (stamp : Stamp) (line : CStr) (m : List MessageTag)
    (_hm : TimeValued m) : HistoryLogLine L where
  line := line
  mtags := (addMissing (addMissing m timeName stamp.time).1 msgidName stamp.msgid).1
  t := serverTimeToUnixTime L (addMissing m timeName stamp.time).2
  time := (addMissing m timeName stamp.time).2
  msgid := (addMissing (addMissing m timeName stamp.time).1 msgidName stamp.msgid).2
  concat := 0
  nextInBatch := []
  numLines := 1
  numBytes := line.strlen
  time_tag := by
    rw [findMtag_addMissing_of_ne (by decide +kernel), findMtag_addMissing]
  msgid_tag := findMtag_addMissing _ _ _
  t_eq := rfl
  num_lines_eq := rfl
  num_bytes_eq := by simp

variable {L : Libc}

/-- What the loop of `hbm_history_add_line_in_time` does at an entry, on its way back. -/
def walkBack (l e : HistoryLogLine L) : Walk :=
  if e.t < l.t then .stop
  else if e.msgid = l.msgid then .reject
  else if e.t = l.t ∧ (CStr.strcmp e.time l.time).isLE then .stop
  else .next

/-- `hbm_history_add_line_in_time`: the list with the line in it, or nothing if the line exists. -/
def hbmHistoryAddLineInTime (lines : List (HistoryLogLine L)) (l : HistoryLogLine L) :
    Option (List (HistoryLogLine L)) :=
  (insertWalk (walkBack l) l lines.reverse).map List.reverse

/-- The part of `hbm_history_add_line` that links the line into the list. -/
def hbmHistoryLink (lines : List (HistoryLogLine L)) (l : HistoryLogLine L) :
    Option (List (HistoryLogLine L)) :=
  match lines.getLast? with
  | some tail => if l.t > tail.t then some (lines ++ [l]) else hbmHistoryAddLineInTime lines l
  | none => some [l]

variable (h : HistoryLogObject L)

/-- `hbm_history_add_line`, for an entry that has its further lines already. The object's count
grows by one; nothing if the line is rejected as a duplicate. -/
def hbmHistoryAddLine (l : HistoryLogLine L) : Option (HistoryLogObject L) :=
  (hbmHistoryLink h.lines l).map fun lines =>
    { h with
      lines
      dirty := true
      numLines := h.numLines + 1
      oldestT := if l.t < h.oldestT ∨ h.oldestT = 0 then l.t else h.oldestT }

/-- Add an entry and count its further lines, of which a message of `hbm_history_add` has none, or
leave the object as it is if the entry is a duplicate. -/
def insertEntry (l : HistoryLogLine L) : HistoryLogObject L :=
  match hbmHistoryAddLine h l with
  | none => h
  | some h' => { h' with numLines := h'.numLines + l.nextInBatch.length }

/-- `hbm_history_del_line` of the first line. -/
def hbmHistoryDelHead (l : HistoryLogLine L)
    (rest : List (HistoryLogLine L)) : HistoryLogObject L :=
  { h with lines := rest, dirty := true, numLines := h.numLines - l.numLines }

/-- `while (num_lines + n > max_lines && head)`: delete lines from the head. -/
def makeRoom (n : ℕ) (h : HistoryLogObject L) : List (HistoryLogLine L) → HistoryLogObject L
  | [] => { h with lines := [] }
  | l :: rest =>
    if h.numLines + n > h.maxLines then makeRoom n (hbmHistoryDelHead h l rest) rest
    else { h with lines := l :: rest }

def defaultLimits : HistoryLogObject L :=
  if h.maxLines = 0 then { h with maxLines := 50, maxTime := 86400 } else h

/-- `hbm_history_add`. Its loop's `num_lines >= max_lines` is that there is no room for one line. -/
def hbmHistoryAdd (stamp : Stamp) (mtags : List MessageTag)
    (hm : TimeValued mtags) (line : CStr) : HistoryLogObject L :=
  let h₁ := makeRoom 1 (defaultLimits h) h.lines
  insertEntry h₁ (hbmDuplicateMtags L stamp line mtags hm)

/-- A line of a multiline message, `MLine`. -/
structure MLine where
  /-- `text`, or `NULL`. -/
  text : Option CStr
  /-- `concat`. -/
  concat : UInt32

/-- What identifies a multiline message's lines: source, command and target. -/
structure Envelope where
  /-- `source`. -/
  source : CStr
  /-- `cmd`. -/
  cmd : CStr
  /-- `target`. -/
  target : CStr

/-- `snprintf` of a line into a buffer of 512 bytes. -/
def formatLine (env : Envelope) (ml : MLine) : CStr :=
  CStr.ofBuffer ((ascii ":" ++ env.source.bytes ++ ascii " " ++ env.cmd.bytes ++ ascii " " ++
    env.target.bytes ++ ascii " :" ++ (ml.text.getD CStr.empty).bytes).take 511)

def multilineEntry (L : Libc) (stamp : Stamp) (mtags : List MessageTag) (hm : TimeValued mtags)
    (env : Envelope) (first : MLine) (rest : List MLine) : HistoryLogLine L :=
  { hbmDuplicateMtags L stamp (formatLine env first) mtags hm with
    nextInBatch := rest.map fun ml => ⟨formatLine env ml, ml.concat⟩
    numLines := 1 + rest.length
    numBytes := (formatLine env first).strlen + (rest.map fun ml => (formatLine env ml).strlen).sum
    num_lines_eq := by simp
    num_bytes_eq := by simp [hbmDuplicateMtags, Function.comp_def] }

/-- `hbm_history_add_multiline`. -/
def hbmHistoryAddMultiline (stamp : Stamp) (mtags : List MessageTag)
    (hm : TimeValued mtags) (env : Envelope) (lines : List MLine) : HistoryLogObject L :=
  match lines with
  | [] => defaultLimits h
  | first :: rest =>
    let incomingCount := 1 + rest.length
    let h₁ := makeRoom incomingCount (defaultLimits h) h.lines
    insertEntry h₁ (multilineEntry L stamp mtags hm env first rest)

/-- `HistoryFilter`: what deleting and the queries look for. -/
structure HistoryFilter where
  /-- `timestamp_a`. -/
  timestampA : Option CStr
  /-- `msgid_a`. -/
  msgidA : Option CStr
  /-- `timestamp_b`. -/
  timestampB : Option CStr
  /-- `msgid_b`. -/
  msgidB : Option CStr
  /-- `account`. -/
  account : Option CStr
  /-- `limit`. -/
  limit : ℤ

variable (filter : HistoryFilter)

def HistoryFilter.starts (l : HistoryLogLine L) : Bool :=
  filter.timestampA.any (fun a => CStr.strcmp l.time a = .gt) || filter.msgidA = some l.msgid

/-- Whether deleting stops in front of an entry. -/
def HistoryFilter.stops (l : HistoryLogLine L) : Bool :=
  filter.timestampB.any (fun b => CStr.strcmp l.time b ≠ .lt) || filter.msgidB = some l.msgid

/-- Whether an entry is of another account than the filter's. A tag `account` has a value, that of
`mtag_add_account`. -/
def HistoryFilter.otherAccount (l : HistoryLogLine L) : Bool :=
  match filter.account with
  | none => false
  | some account => (findMtag l.mtags accountName).bind MessageTag.value ≠ some account

/-- The loop of `hbm_history_delete`: the entries that stay, the number of lines, and how many
messages were deleted and rejected. -/
def hbmHistoryDeleteLoop (filter : HistoryFilter) :
    List (HistoryLogLine L) → Bool → ℕ → ℤ → ℤ → List (HistoryLogLine L) × ℕ × ℤ × ℤ
  | [], _, n, deleted, rejected => ([], n, deleted, rejected)
  | l :: rest, started, n, deleted, rejected =>
    if started || filter.starts l then
      if filter.stops l then (l :: rest, n, deleted, rejected)
      else if filter.otherAccount l then
        -- `continue`, which skips the check of the limit
        let r := hbmHistoryDeleteLoop filter rest true n deleted (rejected + 1)
        (l :: r.1, r.2)
      else if deleted + 1 ≥ filter.limit then (rest, n - l.numLines, deleted + 1, rejected)
      else hbmHistoryDeleteLoop filter rest true (n - l.numLines) (deleted + 1) rejected
    else if deleted ≥ filter.limit then (l :: rest, n, deleted, rejected)
    else
      let r := hbmHistoryDeleteLoop filter rest false n deleted rejected
      (l :: r.1, r.2)

/-- `hbm_history_delete`: the object, the number of messages deleted, and `rejected_deletes`. -/
def hbmHistoryDelete : HistoryLogObject L × ℤ × ℤ :=
  let r := hbmHistoryDeleteLoop filter h.lines false h.numLines 0 0
  ({ h with lines := r.1, numLines := r.2.1, dirty := h.dirty || decide (0 < r.2.2.1) }, r.2.2)

/-- The oldest time so far, where 0 stands for none. -/
def oldest (o t : ℤ) : ℤ := if o = 0 ∨ t < o then t else o

/-- The first loop of `hbm_history_cleanup`: the entries that are not too old, the number of lines
and the oldest time. -/
def cleanupTimeLoop (redline : ℤ) :
    List (HistoryLogLine L) → ℕ → ℤ → List (HistoryLogLine L) × ℕ × ℤ
  | [], n, o => ([], n, o)
  | l :: rest, n, o =>
    if l.t < redline then cleanupTimeLoop redline rest (n - l.numLines) o
    else
      let r := cleanupTimeLoop redline rest n (oldest o l.t)
      (l :: r.1, r.2)

/-- The second loop of `hbm_history_cleanup`: lines are deleted from the head while there are too
many, but not the last one. -/
def cleanupLinesLoop (maxLines : ℕ) :
    List (HistoryLogLine L) → ℕ → ℤ → List (HistoryLogLine L) × ℕ × ℤ
  | [], n, o => ([], n, o)
  | l :: rest, n, o =>
    if n > maxLines then
      if rest = [] then ([l], n, o) else cleanupLinesLoop maxLines rest (n - l.numLines) o
    else
      let r := cleanupLinesLoop maxLines rest n (oldest o l.t)
      (l :: r.1, r.2)

/-- The object after a loop of `hbm_history_cleanup`. -/
def HistoryLogObject.cleaned (r : List (HistoryLogLine L) × ℕ × ℤ) : HistoryLogObject L :=
  { h with
    lines := r.1
    numLines := r.2.1
    oldestT := r.2.2
    dirty := h.dirty || decide (r.1.length < h.lines.length) }

/-- The first part of `hbm_history_cleanup`, by time. -/
def cleanupTime (redline : ℤ) : HistoryLogObject L :=
  if h.oldestT < redline then h.cleaned (cleanupTimeLoop redline h.lines h.numLines 0) else h

/-- The second part of `hbm_history_cleanup`, by the number of lines. -/
def cleanupLines : HistoryLogObject L :=
  if h.numLines > h.maxLines then h.cleaned (cleanupLinesLoop h.maxLines h.lines h.numLines 0)
  else h

/-- `hbm_history_cleanup` at the time `now`. -/
def hbmHistoryCleanup (now : ℤ) : HistoryLogObject L :=
  cleanupLines (cleanupTime h (now - h.maxTime))

/-- `hbm_history_set_limit` at the time `now`. -/
def hbmHistorySetLimit (maxLines : ℕ) (maxTime now : ℤ) : HistoryLogObject L :=
  hbmHistoryCleanup { h with maxLines, maxTime } now

/-- `hbm_history_request` at the time `now`: the object that the reply is made from. -/
def hbmHistoryRequest (now : ℤ) : HistoryLogObject L :=
  if h.oldestT < now - h.maxTime then hbmHistoryCleanup h now else h

end ObbyIRCd.History
