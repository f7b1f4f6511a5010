import ObbyIRCd.Accounts.Model
import ObbyIRCd.Lib.Decimal

/-!
# Account recovery

`account-recovery.c`: `RECOVER REQUEST` mails a code to the address of an account, `RECOVER CONFIRM`
trades the code for a grant, and `SETPASS` uses the grant to store a new password. Every command is
answered by exactly one line.

The sessions that `SETPASS` closes and the metadata it purges are left out. Times are seconds of the
server's clock, which does not go back.
-/

namespace ObbyIRCd.Recovery

variable (db : List Account)

/-! ## Constants -/

/-- `RECOVERY_CODE_LIFETIME`. -/
def recoveryCodeLifetime : ℕ := 300

/-- `RECOVERY_CODE_MAX_TRIES`. -/
def recoveryCodeMaxTries : ℕ := 5

/-- `RECOVERY_REQ_PER_ACCT_MIN`. -/
def recoveryReqPerAcctMin : ℕ := 60

/-- `RECOVERY_REQ_PER_CONN_HOUR`. -/
def recoveryReqPerConnHour : ℕ := 5

/-- `SETPASS_GRANT_LIFETIME`. -/
def setpassGrantLifetime : ℕ := 300

/-! ## Outstanding codes -/

/-- `RecoveryCode`. -/
structure RecoveryCode where
  accountLower : List Char
  code : Option (List Char)
  expiresAt : ℕ
  attempts : ℕ
  lastRequest : ℕ
deriving DecidableEq, Repr

variable (codes : List RecoveryCode)

/-- `find_code_record`. -/
def findCodeRecord (account : List Char) : Option RecoveryCode :=
  Keyed.find RecoveryCode.accountLower codes (lower account)

/-- `prune_expired_codes`. -/
def pruneExpiredCodes (now : ℕ) (codes : List RecoveryCode) : List RecoveryCode :=
  codes.filter fun r => now ≤ r.expiresAt

/-- `upsert_code_record` and the assignments to the record that follow it. -/
def upsertCodeRecord (account : List Char)
    (assign : RecoveryCode → RecoveryCode) : List RecoveryCode :=
  match findCodeRecord codes account with
  | some _ => Keyed.modify RecoveryCode.accountLower (lower account) assign codes
  | none => assign ⟨lower account, none, 0, 0, 0⟩ :: codes

/-- `remove_code_record`. -/
def removeCodeRecord (account : List Char) : List RecoveryCode :=
  codes.eraseP fun r => r.accountLower = lower account

/-- `gen_recovery_code`, from the random characters it draws. -/
def genRecoveryCode (temp : List Char) : List Char :=
  temp.map fun c => Char.ofNat ('0'.toNat + c.toNat % 10)

/-! ## What a client sees -/

/-- `snprintf` into a buffer of `n` bytes. -/
def snprintf (n : ℕ) (text : List Char) : List Char := text.take (n - 1)

/-- What `mask_email` shows in place of an address it cannot mask. -/
def registeredAddress : List Char := "your registered address".toList

/-- `mask_email` into a buffer of 128 bytes: the first and the last character before the `@`, and all
that follows. -/
def maskEmail (email : List Char) : List Char :=
  let localPart := email.takeWhile (· ≠ '@')
  let rest := email.dropWhile (· ≠ '@')
  match localPart, rest with
  | [], _ => snprintf 128 registeredAddress
  | _, [] => snprintf 128 registeredAddress
  | first :: more, rest =>
    snprintf 128 (first :: "***".toList ++ (first :: more).getLast (List.cons_ne_nil _ _) :: rest)

/-- The lines that `RECOVER` sends. -/
inductive Reply
  | requestSyntax
  | confirmSyntax
  | syntaxError
  | unknownSubcommand (sub : List Char)
  | rateLimited
  | emailNotConfigured
  | databaseUnavailable
  | codeSent (acctname masked : List Char)
  | mailUnavailable
  | invalidCode
  | verified (acctname : List Char)
deriving DecidableEq, Repr

/-- The text of a line from the server `me`. -/
def Reply.line (me : List Char) : Reply → List Char
  | .requestSyntax =>
    ':' :: me ++ " FAIL RECOVER INVALID_PARAMS :Syntax: RECOVER REQUEST <account>".toList
  | .confirmSyntax =>
    ':' :: me ++ " FAIL RECOVER INVALID_PARAMS :Syntax: RECOVER CONFIRM <account> <code>".toList
  | .syntaxError =>
    ':' :: me ++ " FAIL RECOVER INVALID_PARAMS :Syntax: RECOVER REQUEST|CONFIRM ...".toList
  | .unknownSubcommand sub =>
    ':' :: me ++ " FAIL RECOVER INVALID_PARAMS :Unknown subcommand '".toList ++ sub ++ "'".toList
  | .rateLimited =>
    ':' :: me ++ (" FAIL RECOVER RATE_LIMITED :Too many recovery requests on this connection.  " ++
      "Try again later.").toList
  | .emailNotConfigured =>
    ':' :: me ++ (" FAIL RECOVER TEMPORARILY_UNAVAILABLE :Email delivery is not configured on this " ++
      "network.").toList
  | .databaseUnavailable =>
    ':' :: me ++ " FAIL RECOVER TEMPORARILY_UNAVAILABLE :Account database unavailable.".toList
  | .codeSent acctname masked =>
    ':' :: me ++ " NOTE RECOVER CODE_SENT ".toList ++ acctname ++ " :If ".toList ++ acctname ++
      " has a verified email on file, a recovery code has been sent to ".toList ++ masked ++
      ".  It expires in 5 minutes.".toList
  | .mailUnavailable =>
    ':' :: me ++ (" FAIL RECOVER TEMPORARILY_UNAVAILABLE :Mail delivery is unavailable right now.  " ++
      "Please try again later.").toList
  | .invalidCode =>
    ':' :: me ++ " FAIL RECOVER INVALID_CODE :The recovery code is incorrect or has expired.".toList
  | .verified acctname =>
    ':' :: me ++ " NOTE RECOVER VERIFIED ".toList ++ acctname ++
      (" :Recovery code accepted.  Run /SETPASS <new password> within 5 minutes to set a new " ++
        "password.").toList

/-! ## RECOVER -/

/-- `SetpassGrant`. -/
structure SetpassGrant where
  account : List Char
  expiresAt : ℕ
deriving DecidableEq, Repr

/-- The state of the module, as far as one connection sees it. -/
structure State where
  now : ℕ
  codes : List RecoveryCode
  /-- `ConnReqLog` of the connection. -/
  connlog : List ℕ
  grant : Option SetpassGrant
deriving DecidableEq, Repr

/-- A `RECOVER` command with what the server finds around it. -/
structure Event where
  /-- Seconds since the command before. -/
  elapsed : ℕ
  /-- The parameters from `parv[1]` on. -/
  parv : List (List Char)
  /-- Whether a `HOOKTYPE_SEND_EMAIL` hook is loaded. -/
  emailLoaded : Bool
  databaseOpen : Bool
  /-- Whether a hook would queue a mail now. -/
  queued : Bool
  /-- What `gen_random_alnum` would draw now. -/
  temp : List Char
deriving DecidableEq, Repr

/-- `connlog_check_and_record`. -/
def connlogCheckAndRecord (now : ℕ) (log : List ℕ) : Bool × List ℕ :=
  let kept := log.filter fun t => now ≤ t + 3600
  if recoveryReqPerConnHour ≤ kept.length then (false, kept) else (true, kept ++ [now])

def mailAddress (acctname : List Char) : Option (List Char) :=
  match findAccount db acctname with
  | some acc => if acc.verified then some acc.email else none
  | none => none

def masked (address : Option (List Char)) : List Char :=
  match address with
  | some email => maskEmail email
  | none => maskEmail []

def acctLimited (acctname : List Char) (now : ℕ) : Bool :=
  match findCodeRecord codes acctname with
  | some r => now < r.lastRequest + recoveryReqPerAcctMin
  | none => false

/-- The last part of `cmd_recover_request`, after the checks that do not look at the account. -/
def requestCode (s : State) (acctname : List Char) (ev : Event) : State × Reply :=
  let codes := pruneExpiredCodes s.now s.codes
  let address := mailAddress db acctname
  if acctLimited codes acctname s.now then
    ({ s with codes := codes }, .codeSent acctname (masked address))
  else
    match address with
    | some _ =>
      let codes := upsertCodeRecord codes acctname fun r =>
        { r with
          code := some (genRecoveryCode ev.temp), expiresAt := s.now + recoveryCodeLifetime,
          attempts := 0, lastRequest := s.now }
      ({ s with codes := codes },
        if ev.queued then .codeSent acctname (masked address) else .mailUnavailable)
    | none =>
      let codes := upsertCodeRecord codes acctname fun r =>
        { r with lastRequest := s.now, expiresAt := s.now + 60 }
      ({ s with codes := codes }, .codeSent acctname (masked address))

/-- `cmd_recover_request`, with the parameters after the subcommand. -/
def cmdRecoverRequest (s : State) (params : List (List Char)) (ev : Event) : State × Reply :=
  match params with
  | [] | [] :: _ => (s, .requestSyntax)
  | acctname :: _ =>
    let checked := connlogCheckAndRecord s.now s.connlog
    let s := { s with connlog := checked.2 }
    if checked.1 = false then (s, .rateLimited)
    else if ev.emailLoaded = false then (s, .emailNotConfigured)
    else if ev.databaseOpen = false then (s, .databaseUnavailable)
    else requestCode db s acctname ev

def codeMatches (acctname code : List Char) : Bool :=
  match findCodeRecord codes acctname with
  | some r => r.code = some code && decide (r.attempts < recoveryCodeMaxTries)
  | none => false

/-- What an attempt leaves of a record: the code is used up, right or wrong. -/
def useUp (r : RecoveryCode) : RecoveryCode :=
  { r with
    code := none
    attempts := if r.code.isSome && decide (r.attempts < recoveryCodeMaxTries) then r.attempts + 1
      else r.attempts }

/-- `cmd_recover_confirm`, with the parameters after the subcommand. -/
def cmdRecoverConfirm (s : State) (params : List (List Char)) : State × Reply :=
  match params with
  | [] | [] :: _ | [_] | _ :: [] :: _ => (s, .confirmSyntax)
  | acctname :: code :: _ =>
    let codes := pruneExpiredCodes s.now s.codes
    let used := Keyed.modify RecoveryCode.accountLower (lower acctname) useUp codes
    if codeMatches codes acctname code then
      ({ s with
          codes := removeCodeRecord used acctname,
          grant := some ⟨acctname, s.now + setpassGrantLifetime⟩ }, .verified acctname)
    else ({ s with codes := used }, .invalidCode)

/-- `cmd_recover`. -/
def cmdRecover (s : State) (ev : Event) : State × Reply :=
  let s := { s with now := s.now + ev.elapsed }
  match ev.parv with
  | [] | [] :: _ => (s, .syntaxError)
  | sub :: params =>
    if lower sub = "request".toList then cmdRecoverRequest db s params ev
    else if lower sub = "confirm".toList then cmdRecoverConfirm s params
    else (s, .unknownSubcommand sub)

/-- The lines that a client gets for a sequence of commands. -/
def replies (db : List Account) (me : List Char) : State → List Event → List (List Char)
  | _, [] => []
  | s, ev :: evs => (cmdRecover db s ev).2.line me :: replies db me (cmdRecover db s ev).1 evs

end ObbyIRCd.Recovery
