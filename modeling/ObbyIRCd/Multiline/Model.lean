import ObbyIRCd.Lib.Bytes

/-!
# Multiline batches

`multiline.c`: a local client collects the lines of a batch, the server delivers the batch when it is
closed and sends it to other servers as a `BATCH`, one tagged message for each line and another
`BATCH`; a server that receives those collects the lines again, delivers the batch, and sends it on.
Texts are lists of bytes. Replies to the client, fake lag and the timeout of open batches are left out.
The checks at the delivery (`can_send_to_channel`, status access, spamfilter, flood limits) are
parameters, as are the tags that modules other than `message-ids` add to a message.

Between servers a line is not cut, but `parse2` cuts each parameter of a command without `CMD_BIGLINES`
at 510 bytes. A line to a client is cut at 510 bytes behind its tags.
-/

namespace ObbyIRCd.Multiline


/-! ## Messages -/

/-- `MLine`. -/
structure MLine where
  text : List Char
  concat : Bool
deriving DecidableEq, Repr

/-- `SendType`, without `SEND_TYPE_TAGMSG`. -/
inductive SendType
  | privmsg | notice
deriving DecidableEq, Repr

/-- `sendtype_to_cmd`. -/
def SendType.cmd : SendType → String
  | .privmsg => "PRIVMSG"
  | .notice => "NOTICE"

/-- `MessageTag`. -/
structure MessageTag where
  name : String
  value : Option (List Char)
deriving DecidableEq, Repr

/-- `find_mtag`. -/
def findMtag (mtags : List MessageTag) (name : String) : Option MessageTag :=
  mtags.find? fun m => m.name = name

def batchName : String := "batch"

def concatName : String := "draft/multiline-concat"

def msgidName : String := "msgid"

/-- A batch as it is delivered to the clients of a server. -/
structure Delivery where
  sender : List Char
  target : List Char
  sendtype : SendType
  lines : List MLine
  mtags : List MessageTag
deriving DecidableEq, Repr

/-- What a client gets for a line of a batch from the user `mask`, cut by `sendbufto_one_prepare_line`,
and whether the line has the tag that joins it to the one before. -/
def Delivery.sentLine (mask : List Char) (d : Delivery) (l : MLine) : List Char × Bool :=
  ((':' :: mask ++ ' ' :: d.sendtype.cmd.toList ++ ' ' :: d.target ++ [' ', ':'] ++ l.text).take 510,
    l.concat)

/-- The lines of `multiline_send_batch_to_client`. -/
def Delivery.sent (mask : List Char) (d : Delivery) : List (List Char × Bool) :=
  d.lines.map (d.sentLine mask)

/-- What a server sends to another one. The opening and closing commands have no tags. -/
inductive Wire
  | batchOpen (sender target ref : List Char)
  | line (mtags : List MessageTag) (sender : List Char) (sendtype : SendType)
      (target text : List Char)
  | batchClose (sender target ref : List Char)
deriving DecidableEq, Repr

/-! ## Servers -/

/-- A member of a channel: the link that leads to it, which a local user does not have, and its
modes. -/
structure Member where
  direction : Option ℕ
  modes : List Char

/-- A channel. `broadcast` says whether messages go to all servers; `CHANNELLEN` is 32. -/
structure Channel where
  name : List Char
  name_le : name.length ≤ 32
  members : List Member
  broadcast : Bool

/-- A user; `IDLEN` is 12, and ids are letters and digits. -/
structure User where
  id : List Char
  id_le : id.length ≤ 12
  hash_not_mem : '#' ∉ id
  name : List Char
  direction : Option ℕ

/-- A server: its channels, users and links, the prefixes of member modes, and what modules do with
tags. -/
structure Env where
  findChannel : List Char → Option Channel
  findClient : List Char → Option User
  servers : List ℕ
  lowestRankingPrefix : List Char → Option Char
  prefixToMode : Char → Char
  /-- `channel_member_modes_generate_equal_or_greater`. -/
  equalOrGreater : Char → List Char
  /-- `MTAG_HANDLER_FLAGS_FIRST_ONLY`. -/
  firstOnly : String → Bool
  /-- The tags that other modules add or inherit. -/
  otherTags : List MessageTag → List MessageTag
  otherTags_name : ∀ mtags, ∀ m ∈ otherTags mtags,
    m.name ≠ batchName ∧ m.name ≠ concatName ∧ m.name ≠ msgidName

/-- Random texts: a `msgid` for a message that has none, and the reference of a batch. `BATCHLEN` is
22. -/
structure Fresh where
  msgid : List Char
  ref : List Char
  ref_le : ref.length ≤ 22

variable (env : Env)

/-- `new_message`. -/
def newMessage (fresh : Fresh) (mtags : List MessageTag) : List MessageTag :=
  (findMtag mtags msgidName).getD ⟨msgidName, some fresh.msgid⟩ :: env.otherTags mtags

/-- `multiline_find_channel`. -/
def multilineFindChannel (target : List Char) : Option Channel :=
  if '#' ∈ target then env.findChannel (target.dropWhile (· ≠ '#')) else none

def memberMode (target : List Char) : Option Char :=
  let pre := target.takeWhile (· ≠ '#')
  if '#' ∈ target ∧ pre ≠ [] then (env.lowestRankingPrefix (pre.take 31)).map env.prefixToMode
  else none

/-- `check_channel_access_member` with the modes of a status prefix. -/
def Member.passes (filter : Option (List Char)) (m : Member) : Bool :=
  match filter with
  | none => true
  | some modes => m.modes.any (· ∈ modes)

def addDirection (skip : Option ℕ) (sent : List ℕ) (d : ℕ) : List ℕ :=
  if some d = skip ∨ d ∈ sent then sent else sent ++ [d]

/-- The directions of `multiline_send_s2s_channel`. -/
def Channel.directions (filter : Option (List Char)) (skip : Option ℕ) (ch : Channel) : List ℕ :=
  let remote := (ch.members.filter (Member.passes filter)).filterMap Member.direction
  let sent := remote.foldl (addDirection skip) []
  if ch.broadcast then env.servers.foldl (addDirection skip) sent else sent

/-! ## Sending -/

def lineTags (ref : List Char) (mtags : List MessageTag) (l : MLine) : List MessageTag :=
  (if l.concat then [⟨concatName, none⟩] else []) ++ ⟨batchName, some ref⟩ :: mtags

/-- The lines of `multiline_send_s2s_to_direction`. The first one has all tags. -/
def wireLines (d : Delivery) (target ref : List Char) : List Wire :=
  let wire (mtags : List MessageTag) (l : MLine) : Wire :=
    .line (lineTags ref mtags l) d.sender d.sendtype target l.text
  match d.lines with
  | [] => []
  | l :: ls => wire d.mtags l :: ls.map (wire (d.mtags.filter fun m => !env.firstOnly m.name))

/-- `multiline_send_s2s_to_direction`. -/
def multilineSendS2s (d : Delivery) (target ref : List Char) : List Wire :=
  .batchOpen d.sender target ref :: (wireLines env d target ref ++ [.batchClose d.sender target ref])

/-! ## Local clients -/

/-- `set::anti-flood::multiline`; `conf.c` keeps the limits below
`MULTILINE_MAX_CONFIGURABLE_LINES` and `MULTILINE_MAX_CONFIGURABLE_BYTES`. -/
structure Limits where
  maxLines : ℕ
  maxBytes : ℕ
  lines_le : maxLines ≤ 200
  bytes_le : maxBytes ≤ 131072

/-- A local client and what the server decides about it. -/
structure Local where
  id : List Char
  hasMultiline : Bool
  limits : Limits
  /-- `get_floodprot_channel_max_lines`. -/
  floodprotMaxLines : Channel → ℕ
  /-- `hash_find_nickatserver`. -/
  findNick : List Char → Option User
  /-- `can_send_to_channel`: the text that is left, if it may be sent. -/
  canSendToChannel : Channel → SendType → List Char → Option (List Char)
  /-- `can_send_to_user`. -/
  canSendToUser : User → SendType → List Char → Option (List Char)
  /-- Status access, spamfilter and paste limit. -/
  admits : Delivery → Bool

/-- `MultilineBatch`. -/
structure MultilineBatch where
  batchId : List Char
  target : List Char
  memberMode : Option Char
  clientMtags : List MessageTag
  sendtype : Option SendType
  lines : List MLine
  lineCount : ℕ
  receivedBytes : ℕ
  failMessage : Option String
deriving DecidableEq, Repr

/-- `valid_batch_reference_tag`; `MAXBATCHREFLEN` is 48. -/
def validBatchReferenceTag (ref : List Char) : Bool :=
  ref ≠ [] && ref.length ≤ 48 && ref.all fun c => c.isAlphanum || c = '-'

variable (loc : Local)

/-- `multiline_override_batch` for `BATCH +ref draft/multiline target`, without an open batch. -/
def batchOpen (ref target : List Char) (mtags : List MessageTag) : Option MultilineBatch :=
  let pre := target.takeWhile (· ≠ '#')
  let batch (target : List Char) (mode : Option Char) : MultilineBatch :=
    ⟨ref, target, mode, mtags.filter fun m => m.name ≠ batchName, none, [], 0, 0, none⟩
  if !validBatchReferenceTag ref || !loc.hasMultiline then none
  else if '#' ∈ target ∧ pre ≠ [] then
    match env.lowestRankingPrefix (pre.take 31), env.findChannel (target.dropWhile (· ≠ '#')) with
    | some p, some ch => some (batch (p :: ch.name) (some (env.prefixToMode p)))
    | _, _ => none
  else some (batch target none)

/-- `multiline_calc_add_bytes`. -/
def multilineCalcAddBytes (textLen lineCount : ℕ) (concat : Bool) : ℕ :=
  textLen + if 0 < lineCount ∧ concat = false then 1 else 0

variable (b : MultilineBatch)

/-- `multiline_fail_batch`. -/
def MultilineBatch.fail (msg : String) : MultilineBatch :=
  { b with failMessage := some (b.failMessage.getD msg) }

def maxLines (target : List Char) : ℕ :=
  match multilineFindChannel env target with
  | some ch => min loc.limits.maxLines (loc.floodprotMaxLines ch)
  | none => loc.limits.maxLines

/-- `multiline_override_msg` for a line of the open batch. Without a target the batch is dropped. -/
def overrideMsg (sendtype : SendType)
    (target text : List Char) (concat : Bool) : Option MultilineBatch :=
  if b.failMessage.isSome then some b
  else if target = [] then none
  else if b.sendtype.isSome ∧ b.sendtype ≠ some sendtype then
    some (b.fail "FAIL BATCH MULTILINE_INVALID :Cannot mix PRIVMSG and NOTICE in a multiline batch")
  else
    let b := { b with sendtype := some sendtype }
    let bytes := multilineCalcAddBytes text.length b.lineCount concat
    if lower target ≠ lower b.target then
      some (b.fail ("FAIL BATCH MULTILINE_INVALID_TARGET " ++ String.ofList b.target ++ " " ++
        String.ofList target ++ " :Target mismatch"))
    else if concat = true ∧ text = [] then
      some (b.fail "FAIL BATCH MULTILINE_INVALID :Blank line with concat tag")
    else if text.head? = some '\x01' then
      some (b.fail "FAIL BATCH MULTILINE_INVALID :CTCP not permitted in multiline batches")
    else if maxLines env loc b.target ≤ b.lineCount then
      some (b.fail ("FAIL BATCH MULTILINE_MAX_LINES " ++ toString (maxLines env loc b.target) ++
        " :Too many lines in batch"))
    else if loc.limits.maxBytes < b.receivedBytes + bytes then
      some (b.fail ("FAIL BATCH MULTILINE_MAX_BYTES " ++ toString loc.limits.maxBytes ++
        " :Too many bytes in batch"))
    else
      some { b with
        receivedBytes := b.receivedBytes + bytes
        lines := b.lines ++ [⟨text, concat⟩]
        lineCount := b.lineCount + 1 }

/-- `multiline_batch_has_content`. -/
def multilineBatchHasContent : Bool := b.lines.any fun l => l.text ≠ []

/-- The checks of `BATCH -ref`. -/
def MultilineBatch.complete : Bool :=
  b.failMessage.isNone && b.lineCount ≠ 0 && multilineBatchHasContent b

/-- The loop over the lines at the delivery: blank lines are not checked, and one line that may not be
sent rejects the batch. -/
def checkLines (check : List Char → Option (List Char)) : List MLine → Option (List MLine)
  | [] => some []
  | l :: ls =>
    if l.text = [] then (checkLines check ls).map (l :: ·)
    else
      match check l.text, checkLines check ls with
      | some text, some ls => some ({ l with text := text } :: ls)
      | _, _ => none

/-- `multiline_deliver_channel`: what local members get, and what each direction is sent. -/
def multilineDeliverChannel (fresh : Fresh) (b : MultilineBatch)
    (sendtype : SendType) (ch : Channel) : Option (Delivery × List (ℕ × Wire)) :=
  match checkLines (loc.canSendToChannel ch sendtype) b.lines with
  | none => none
  | some lines =>
    let d : Delivery := ⟨loc.id, b.target, sendtype, lines, newMessage env fresh b.clientMtags⟩
    if loc.admits d then
      some (d, (ch.directions env (b.memberMode.map env.equalOrGreater) none).flatMap fun dir =>
        (multilineSendS2s env d b.target fresh.ref).map fun w => (dir, w))
    else none

/-- `multiline_deliver_user`. -/
def multilineDeliverUser (fresh : Fresh) (b : MultilineBatch)
    (sendtype : SendType) (target : User) : Option (Delivery × List (ℕ × Wire)) :=
  match checkLines (loc.canSendToUser target sendtype) b.lines with
  | none => none
  | some lines =>
    let d : Delivery := ⟨loc.id, target.name, sendtype, lines, newMessage env fresh b.clientMtags⟩
    if loc.admits d then
      match target.direction with
      | none => some (d, [])
      | some dir => some (d, (multilineSendS2s env d target.id fresh.ref).map fun w => (dir, w))
    else none

/-- `BATCH -ref` and `multiline_deliver`. -/
def multilineDeliver (fresh : Fresh) (b : MultilineBatch) : Option (Delivery × List (ℕ × Wire)) :=
  let sendtype := b.sendtype.getD .privmsg
  if b.complete then
    match multilineFindChannel env b.target with
    | some ch => multilineDeliverChannel env loc fresh b sendtype ch
    | none =>
      if '#' ∈ b.target then none
      else
        match loc.findNick b.target with
        | some target => multilineDeliverUser env loc fresh b sendtype target
        | none => none
  else none

/-! ## Other servers -/

/-- `S2SMultilineBatch`. -/
structure S2SMultilineBatch where
  sender : List Char
  direction : ℕ
  batchId : List Char
  target : List Char
  isChannel : Bool
  sendtype : Option SendType
  firstMtags : List MessageTag
  lines : List MLine
  receivedBytes : ℕ
deriving DecidableEq, Repr

/-- What happens at a server: a batch is delivered, or a line is taken for a message of its own. -/
inductive Event
  | delivered (d : Delivery)
  | message (sender : List Char) (sendtype : SendType) (target text : List Char)
deriving DecidableEq, Repr

/-- The open batches of a server, what happened, and what it sent. -/
structure Node where
  batches : List S2SMultilineBatch
  events : List Event
  out : List (ℕ × Wire)
deriving DecidableEq, Repr

/-- The parameters of a command from a server: if what follows the sender is longer than 510 bytes,
each of them is cut. -/
def para (bytes : ℕ) (p : List Char) : List Char := if 510 < bytes then p.take 510 else p

def S2SMultilineBatch.isFor (sender ref : List Char) (b : S2SMultilineBatch) : Bool :=
  b.sender = sender ∧ b.batchId = ref

/-- `multiline_find_s2s_batch`. -/
def Node.find (n : Node) (sender ref : List Char) : Option S2SMultilineBatch :=
  n.batches.find? (S2SMultilineBatch.isFor sender ref)

/-- `multiline_free_s2s_batch`. -/
def Node.free (n : Node) (sender ref : List Char) : Node :=
  { n with batches := n.batches.eraseP (S2SMultilineBatch.isFor sender ref) }

def Node.update (n : Node) (sender ref : List Char) (f : S2SMultilineBatch → S2SMultilineBatch) :
    Node :=
  { n with batches := n.batches.map fun b => if b.isFor sender ref then f b else b }

/-- `multiline_handle_s2s_batch_open`. -/
def handleBatchOpen (src : ℕ) (n : Node) (sender target ref : List Char)
    (mtags : List MessageTag) : Node :=
  match n.find sender ref with
  | some _ => n
  | none =>
    { n with
      batches := ⟨sender, src, ref.take 22, target, '#' ∈ target, none,
        mtags.filter fun m => m.name ≠ batchName, [], 0⟩ :: n.batches }

/-- `multiline_handle_s2s_msg`, for the open batch `b`. -/
def handleMsg (n : Node) (b : S2SMultilineBatch) (mtags : List MessageTag) (sendtype : SendType)
    (text : List Char) : Node :=
  let concat := (findMtag mtags concatName).isSome
  let bytes := multilineCalcAddBytes text.length b.lines.length concat
  let first :=
    if b.lines.length = 0 ∧ b.firstMtags = [] then
      (mtags.filter fun m => m.name ≠ batchName ∧ m.name ≠ concatName).reverse
    else b.firstMtags
  if b.sendtype.isSome ∧ b.sendtype ≠ some sendtype then n.free b.sender b.batchId
  else if 200 ≤ b.lines.length ∨ 131072 < b.receivedBytes + bytes then n.free b.sender b.batchId
  else
    n.update b.sender b.batchId fun b =>
      { b with
        sendtype := some sendtype
        firstMtags := first
        lines := b.lines ++ [⟨text, concat⟩]
        receivedBytes := b.receivedBytes + bytes }

/-- `multiline_deliver_s2s_batch`. -/
def deliverS2s (fresh : Fresh) (n : Node) (b : S2SMultilineBatch) (sendtype : SendType) : Node :=
  let mtags := newMessage env fresh b.firstMtags
  if b.isChannel then
    match multilineFindChannel env b.target with
    | none => n
    | some ch =>
      let d : Delivery := ⟨b.sender, b.target, sendtype, b.lines, mtags⟩
      let filter := (memberMode env b.target).map env.equalOrGreater
      { n with
        events := n.events ++ [.delivered d]
        out := n.out ++ (ch.directions env filter (some b.direction)).flatMap fun dir =>
          (multilineSendS2s env d b.target fresh.ref).map fun w => (dir, w) }
  else
    match env.findClient b.target with
    | none => n
    | some target =>
      let d : Delivery := ⟨b.sender, target.name, sendtype, b.lines, mtags⟩
      match target.direction with
      | none => { n with events := n.events ++ [.delivered d] }
      | some dir =>
        { n with out := n.out ++ (multilineSendS2s env d target.id fresh.ref).map fun w => (dir, w) }

/-- `multiline_handle_s2s_batch_close`, for the open batch `b`. -/
def handleBatchClose (fresh : Fresh) (n : Node) (b : S2SMultilineBatch) : Node :=
  if b.lines = [] then n.free b.sender b.batchId
  else (deliverS2s env fresh n b (b.sendtype.getD .privmsg)).free b.sender b.batchId

def Wire.bytes : Wire → ℕ
  | .batchOpen _ target ref => 6 + target.length + 2 + ref.length + 16
  | .line _ _ sendtype target text => sendtype.cmd.length + 1 + target.length + 2 + text.length
  | .batchClose _ target ref => 6 + target.length + 2 + ref.length

/-- A command arrives over the link `src`. -/
def receive (fresh : Fresh) (src : ℕ) (n : Node) (w : Wire) : Node :=
  match w with
  | .batchOpen sender target ref =>
    handleBatchOpen src n sender (para w.bytes target) (para w.bytes ref) []
  | .line mtags sender sendtype target text =>
    match (findMtag mtags batchName).bind fun m => m.value.bind (n.find sender) with
    | some b => handleMsg n b mtags sendtype (para w.bytes text)
    | none =>
      { n with events := n.events ++
          [.message sender sendtype (para w.bytes target) (para w.bytes text)] }
  | .batchClose sender _ ref =>
    match n.find sender (para w.bytes ref) with
    | some b => handleBatchClose env fresh n b
    | none => n

def receiveAll (fresh : Fresh) (src : ℕ) (n : Node) (ws : List Wire) : Node :=
  ws.foldl (receive env fresh src) n

end ObbyIRCd.Multiline
