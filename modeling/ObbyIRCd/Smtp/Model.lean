import ObbyIRCd.Lib.Bytes

/-!
# The SMTP client of `src/modules/smtp.c`

A job reads what the server sends into a buffer, takes one reply line after the other from it and
answers each final line by the state that it is in. After the reply to `STARTTLS` the TLS handshake
begins, and when it is done the job says `EHLO` again.

What the network does is given by events: a packet that the loop of `on_readable` reads, that there
is nothing more to read, and how a call of `SSL_connect` ends. A packet that does not fit into the
buffer is read in pieces. Sending does not wait. Two fields are not in the source: the replies that
were taken inside of TLS, and the bytes that were received between the reply to `STARTTLS` and the
end of the handshake.
-/

namespace ObbyIRCd.Smtp

/-- `SMTP_SEC_NONE`, `SMTP_SEC_STARTTLS` and `SMTP_SEC_TLS`. -/
inductive Security where
  | none
  | starttls
  | tls
deriving DecidableEq

/-- The configuration and the mail, as far as they are sent. -/
structure Cfg where
  security : Security
  /-- `AUTH PLAIN` with the encoded credentials, if there is a username. `none` inside is a failure
  to encode them. -/
  authPlain : Option (Option (List UInt8))
  from_ : List UInt8
  toAddr : List UInt8
  /-- The result of `build_dot_stuffed_message`. -/
  message : List UInt8
deriving DecidableEq

/-- `SmtpState`, without the states before the connection is made. -/
inductive SmtpState where
  | tlsInitial
  | waitBanner
  | sentEhlo
  | sentStarttls
  | tlsAfterStarttls
  | sentEhlo2
  | sentAuth
  | sentMailFrom
  | sentRcptTo
  | sentData
  | sentBody
  | sentQuit
  | done
deriving DecidableEq

/-- A reply line: its code, whether more lines follow, and the text behind the code. -/
structure Reply where
  code : ℕ
  more : Bool
  text : Option (List UInt8)
deriving DecidableEq

/-- How the job ends, with what the error text is made from. -/
inductive Outcome where
  | ok
  | rejected (what : List UInt8) (code : ℕ) (text : Option (List UInt8))
  | failed (what : List UInt8)
deriving DecidableEq

/-- `SmtpJob`. -/
structure SmtpJob where
  state : SmtpState
  tlsActive : Bool
  /-- The first `readlen` bytes of `readbuf`. -/
  readbuf : List UInt8
  sent : List (List UInt8)
  outcome : Option Outcome
  /-- The loop of `on_readable` has not come to its end. It goes on when the handshake begins. -/
  reading : Bool
  /-- The reply lines that were taken inside of TLS. -/
  encrypted : List Reply
  /-- The bytes received after the reply to `STARTTLS`, and before the handshake was done. -/
  plain : List UInt8
deriving DecidableEq

/-- The size of `readbuf`: `SMTP_MAX_REPLY_LINE`. -/
def readbufSize : ℕ := 8192

/-! ## Reply lines -/

/-- The index of the first CR LF. -/
def findCrlf : List UInt8 → Option ℕ
  | 13 :: 10 :: _ => some 0
  | _ :: bs => (findCrlf bs).map (· + 1)
  | [] => none

/-- The length of the first line of a buffer and how much of the buffer it takes. The search stops at
a zero byte. -/
def findEol (buf : List UInt8) : Option (ℕ × ℕ) :=
  let str := buf.takeWhile (· != 0)
  match findCrlf str with
  | some i => some (i, i + 2)
  | none => (str.findIdx? (· == 10)).map fun i => (i, i + 1)

/-- `isdigit`. -/
def isDigit (b : UInt8) : Bool := 48 ≤ b && b ≤ 57

def replyOf (line : List UInt8) : Reply :=
  match line with
  | a :: b :: c :: d :: text =>
    if isDigit a && isDigit b && isDigit c then
      { code := (a.toNat - 48) * 100 + (b.toNat - 48) * 10 + (c.toNat - 48)
        more := d == 45
        text := if text = [] then none else some text }
    else ⟨0, false, none⟩
  | _ => ⟨0, false, none⟩

/-- `parse_reply`: the first line of the buffer, and what is left of the buffer. -/
def parseReply (buf : List UInt8) : Option (Reply × List UInt8) :=
  match findEol buf with
  | none => none
  | some (linelen, eat) => some (replyOf (buf.take linelen), buf.drop eat)

/-! ## The state machine -/

/-- How a call of `SSL_connect` ends. -/
inductive Connect where
  | done
  | again
  | failed
deriving DecidableEq

/-- `send_line`. -/
def sendLine (j : SmtpJob) (line : List UInt8) : SmtpJob :=
  { j with sent := j.sent ++ [line ++ [13, 10]] }

/-- `job_finish_err`. -/
def jobFinishErr (j : SmtpJob) (o : Outcome) : SmtpJob :=
  { j with state := .done, outcome := some o }

/-- `continue_tls`, and `begin_tls` once the objects are made. -/
def continueTls (j : SmtpJob) : Connect → SmtpJob
  | .again => j
  | .failed => jobFinishErr j (.failed (ascii "TLS handshake failed"))
  | .done =>
    let j := { j with tlsActive := true }
    match j.state with
    | .tlsInitial => { j with state := .waitBanner }
    | .tlsAfterStarttls => sendLine { j with state := .sentEhlo2 } (ascii "EHLO obbyircd")
    | _ => j

variable (cfg : Cfg)

/-- `MAIL FROM`. The command is cut to its buffer. -/
def sendMailFrom (j : SmtpJob) : SmtpJob :=
  sendLine { j with state := .sentMailFrom }
    ((ascii "MAIL FROM:<" ++ cfg.from_ ++ ascii ">").take 511)

/-- What follows the last `EHLO`: credentials if there are any, and the sender otherwise. -/
def sendAuthOrMailFrom (j : SmtpJob) : SmtpJob :=
  match cfg.authPlain with
  | none => sendMailFrom cfg j
  | some none => jobFinishErr j (.failed (ascii "AUTH PLAIN encode failed"))
  | some (some blob) =>
    sendLine { j with state := .sentAuth } ((ascii "AUTH PLAIN " ++ blob).take 1023)

/-- `process_reply`. `connect` is how `SSL_connect` ends if it is called. -/
def processReply (connect : Connect) (j : SmtpJob) (r : Reply) : SmtpJob :=
  let reject (what : String) := jobFinishErr j (.rejected (ascii what) r.code r.text)
  match j.state with
  | .waitBanner =>
    if r.code ≠ 220 then reject "Bad banner"
    else sendLine { j with state := .sentEhlo } (ascii "EHLO obbyircd")
  | .sentEhlo =>
    if r.code ≠ 250 then reject "EHLO rejected"
    else if cfg.security = .starttls ∧ j.tlsActive = false then
      sendLine { j with state := .sentStarttls } (ascii "STARTTLS")
    else if cfg.authPlain.isSome ∧ j.tlsActive = false ∧ cfg.security ≠ .none then
      jobFinishErr j (.failed (ascii "Refusing AUTH PLAIN over plaintext"))
    else sendAuthOrMailFrom cfg j
  | .sentStarttls =>
    if r.code ≠ 220 then reject "STARTTLS rejected"
    else continueTls { j with state := .tlsAfterStarttls, plain := j.readbuf } connect
  | .sentEhlo2 =>
    if r.code ≠ 250 then reject "EHLO (post-TLS) rejected" else sendAuthOrMailFrom cfg j
  | .sentAuth => if r.code ≠ 235 then reject "AUTH rejected" else sendMailFrom cfg j
  | .sentMailFrom =>
    if r.code ≠ 250 then reject "MAIL FROM rejected"
    else sendLine { j with state := .sentRcptTo }
      ((ascii "RCPT TO:<" ++ cfg.toAddr ++ ascii ">").take 511)
  | .sentRcptTo =>
    if r.code ≠ 250 ∧ r.code ≠ 251 then reject "RCPT TO rejected"
    else sendLine { j with state := .sentData } (ascii "DATA")
  | .sentData =>
    if r.code ≠ 354 then reject "DATA rejected"
    else { j with state := .sentBody, sent := j.sent ++ [cfg.message] }
  | .sentBody =>
    if r.code ≠ 250 then reject "Message rejected"
    else
      { sendLine { j with state := .sentQuit } (ascii "QUIT") with
        state := .done, outcome := some .ok }
  | _ => j

/-! ## Reading -/

def takeLine (j : SmtpJob) (r : Reply) (rest : List UInt8) : SmtpJob :=
  { j with
    readbuf := rest
    encrypted := if j.tlsActive then j.encrypted ++ [r] else j.encrypted }

/-- The inner loop of `on_readable`, for as many lines as there can be. -/
def drainFrom (cfg : Cfg) (connect : Connect) : ℕ → SmtpJob → SmtpJob
  | 0, j => j
  | n + 1, j =>
    match parseReply j.readbuf with
    | none => j
    | some (r, rest) =>
      -- A line that is not the last one of its reply is skipped.
      if r.more then drainFrom cfg connect n (takeLine j r rest)
      else
        let j := processReply cfg connect (takeLine j r rest) r
        if j.state = .done then j else drainFrom cfg connect n j

/-- The inner loop of `on_readable`: every line takes a byte at least. -/
def drain (connect : Connect) (j : SmtpJob) : SmtpJob :=
  drainFrom cfg connect j.readbuf.length j

/-- `readlen` bytes more, as many as fit. -/
def fillBuffer (j : SmtpJob) (got : List UInt8) : SmtpJob :=
  { j with
    readbuf := j.readbuf ++ got
    plain := if j.state = .tlsAfterStarttls then j.plain ++ got else j.plain }

/-- The outer loop of `on_readable` on a packet: so much of it as fits is put into the buffer. If the
handshake is done in between, it has read the rest of the packet. -/
def receiveFrom (cfg : Cfg) (connect : Connect) : ℕ → SmtpJob → List UInt8 → SmtpJob
  | 0, j, _ => j
  | n + 1, j, packet =>
    let space := readbufSize - j.readbuf.length - 1
    if space = 0 then jobFinishErr j (.failed (ascii "Server reply exceeds 8192 bytes"))
    else if packet = [] then j
    else
      let j' := drain cfg connect (fillBuffer j (packet.take space))
      if j'.state = .done then j'
      else receiveFrom cfg connect n j'
        (if j'.tlsActive = j.tlsActive then packet.drop space else [])

/-- A packet is read: every round but the last one takes a byte at least. -/
def receive (connect : Connect) (j : SmtpJob) (packet : List UInt8) : SmtpJob :=
  if j.state = .done then j else receiveFrom cfg connect (packet.length + 1) j packet

inductive Event where
  /-- The loop of `on_readable` reads a packet; `SSL_connect` ends so if it is called. -/
  | read (packet : List UInt8) (connect : Connect)
  | wouldBlock
  /-- `on_tls_progress`. -/
  | tlsProgress (connect : Connect)
  /-- The connection is lost, or the job takes too long. -/
  | lost
deriving DecidableEq

def SmtpState.handshaking (s : SmtpState) : Bool := s == .tlsInitial || s == .tlsAfterStarttls

/-- One event. While the handshake is under way the socket is watched for it only, but a loop of
`on_readable` that has begun goes on. -/
def step (j : SmtpJob) : Event → SmtpJob
  | .read packet connect =>
    if j.state.handshaking && !j.reading then j
    else receive cfg connect { j with reading := true } packet
  | .wouldBlock => { j with reading := false }
  | .tlsProgress connect =>
    if j.state.handshaking && !j.reading then continueTls j connect else j
  | .lost =>
    if j.state = .done then j else jobFinishErr j (.failed (ascii "Server closed connection"))

def start : SmtpJob :=
  { state := if cfg.security = .tls then .tlsInitial else .waitBanner
    tlsActive := false, readbuf := [], sent := [], outcome := none, reading := false, encrypted := []
    plain := [] }

def run (events : List Event) : SmtpJob := events.foldl (step cfg) (start cfg)

end ObbyIRCd.Smtp
