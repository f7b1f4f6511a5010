import Mathlib.Data.Int.Notation
import ObbyIRCd.Lib.Bytes
import ObbyIRCd.Lib.Keyed

/-!
# Authentication tokens of `src/modules/authtoken.c`

`TOKEN GENERATE` stores a random token with what is known of the client at that time, and
`TOKEN VALIDATE` takes it out of the list again. A token that is too long for one line is sent in
pieces: a batch `draft/authtoken` is opened with the service and the URL, the pieces are collected,
and closing the batch validates their concatenation. `authtoken.validate` is the same for JSON-RPC.

The random characters and the times are arguments of the commands. So is what a client is at the time
of a command, with the masks that it matches. A reply is modelled with its code, parameters and text.
-/

namespace ObbyIRCd.Authtoken

/-- `AuthService`. -/
structure AuthService where
  key : List Char
  url : List Char
  description : Option (List Char)
  requireAccount : Bool
  /-- If there are none, anyone may validate. -/
  masks : List (List Char)
deriving DecidableEq

/-- The configuration. The length of tokens is left to their making. -/
structure Cfg where
  tokenLifetime : ℤ
  services : List AuthService
deriving DecidableEq

structure Membership where
  channelName : List Char
  memberModes : List Char
deriving DecidableEq

/-- What a client is at the time of a command. -/
structure Client where
  id : ℕ
  /-- The capability `batch`. -/
  hasBatch : Bool
  /-- The capability `draft/authtoken`. -/
  hasAuthtoken : Bool
  /-- `IsUser`. -/
  isUser : Bool
  /-- The account, if `IsLoggedIn`. -/
  account : Option (List Char)
  name : List Char
  channels : List Membership
  /-- `match_user` with `MATCH_CHECK_ALL`. -/
  matchUser : List Char → Bool

/-- `AuthToken`. -/
structure AuthToken where
  token : List Char
  serviceKey : List Char
  serviceUrl : List Char
  account : Option (List Char)
  nick : List Char
  scope : Option (List Char)
  memberOf : Option (List Char)
  operatorOf : Option (List Char)
  expiresAt : ℤ
deriving DecidableEq

/-- `PendingValidate`. -/
structure PendingValidate where
  /-- The `id` of the client. -/
  client : ℕ
  ref : List Char
  serviceKey : List Char
  serviceUrl : List Char
  pieces : List (List Char)
  totalLen : ℕ
  overflowed : Bool
deriving DecidableEq

structure State where
  tokens : List AuthToken
  pending : List PendingValidate
deriving DecidableEq

/-- What is sent for a command. -/
inductive Reply
  /-- `send_fail`. -/
  | fail (code : String) (param : Option (List Char)) (msg : String)
  /-- `FAIL BATCH INVALID_REFTAG`. -/
  | failReftag (ref : List Char)
  /-- `send_note`. -/
  | note (code msg : String)
  /-- The batch of `TOKEN SERVICE` lines. -/
  | services (list : List (List Char × List Char × List Char))
  /-- `TOKEN GENERATE`. -/
  | generated (service url token : List Char)
  /-- The batch of `TOKEN CLAIM` lines. -/
  | response (service url : List Char) (claims : List (String × List Char))
  /-- `rpc_error`, all with `JSON_RPC_ERROR_INVALID_PARAMS`. -/
  | rpcError (msg : String)
  /-- `rpc_response`. -/
  | rpcResult (service url : List Char) (claims : List (String × List Char))
deriving DecidableEq

def Reply.isSuccess : Reply → Bool
  | response .. => true
  | rpcResult .. => true
  | _ => false

inductive Outcome
  | silent
  | reply (r : Reply)
  | validation (service url token : List Char) (r : Reply)
  /-- The command is left to the next override. -/
  | next
deriving DecidableEq

/-- `parv[i]`, for `i` from 1 on, unless `BadPtr`. -/
def arg (parv : List (List Char)) (i : ℕ) : Option (List Char) := (parv[i - 1]?).filter (· ≠ [])

variable (cfg : Cfg)

/-- `find_authservice`. -/
def findAuthservice (key : List Char) : Option AuthService :=
  cfg.services.find? fun s => lower s.key = lower key

/-- What `has_required_caps` sends without the capability. -/
def needBatch : Reply :=
  .fail "NEED_CAPABILITY" (some "batch".toList) "You must negotiate the batch capability"

/-- `client_matches_masks`. -/
def clientMatchesMasks (c : Client) (masks : List (List Char)) : Bool :=
  masks.isEmpty || masks.any c.matchUser

/-- `membership_is_elevated`. -/
def membershipIsElevated (mb : Membership) : Bool :=
  mb.memberModes.any fun m => m = 'q' || m = 'a' || m = 'o' || m = 'h'

def joined : List (List Char) → Option (List Char)
  | [] => none
  | names => some ([' '].intercalate names)

/-- `collect_member_of`. -/
def collectMemberOf (c : Client) : Option (List Char) := joined (c.channels.map Membership.channelName)

/-- `collect_operator_of`. -/
def collectOperatorOf (c : Client) : Option (List Char) :=
  joined ((c.channels.filter membershipIsElevated).map Membership.channelName)

variable (now : ℤ)

/-- `find_and_unlink_token` at the time `now`: the token and the others. -/
def findAndUnlinkToken (tokens : List AuthToken) (token : List Char) :
    Option (AuthToken × List AuthToken) :=
  let p := fun t : AuthToken => decide (t.expiresAt ≥ now) && t.token = token
  (tokens.find? p).map fun t => (t, tokens.eraseP p)

/-- `cull_expired` at the time `now`. -/
def cullExpired (tokens : List AuthToken) : List AuthToken :=
  tokens.filter fun t => ¬ t.expiresAt < now

def PendingValidate.key (p : PendingValidate) : ℕ × List Char := (p.client, p.ref)

variable (pending : List PendingValidate) (client : ℕ) (ref : List Char)

/-- `find_pending`. -/
def findPending : Option PendingValidate :=
  Keyed.find PendingValidate.key pending (client, ref)

/-- `unlink_pending` of the entry that `find_pending` finds. -/
def unlinkPending : List PendingValidate :=
  pending.eraseP fun p => p.key = (client, ref)

/-- `purge_pending_for_client`. -/
def purgePendingForClient : List PendingValidate :=
  pending.filter fun p => p.client ≠ client

/-- `cmd_token_servicelist`. -/
def cmdTokenServicelist (client : Client) : Reply :=
  if !client.hasBatch then needBatch
  else if cfg.services.isEmpty then
    .note "NO_SERVICES" "No services are defined for this network."
  else .services (cfg.services.map fun s => (s.key, s.url, s.description.getD []))

/-- The token that `cmd_token_generate` makes. -/
def issue (client : Client) (svc : AuthService) (scope : Option (List Char))
    (tokstr : List Char) : AuthToken where
  token := tokstr
  serviceKey := svc.key
  serviceUrl := svc.url
  account := client.account
  nick := client.name
  scope := scope
  memberOf := collectMemberOf client
  operatorOf := collectOperatorOf client
  expiresAt := now + cfg.tokenLifetime

variable (s : State)

/-- `cmd_token_generate`. `tokstr` is what `make_token_string` returns. -/
def cmdTokenGenerate (client : Client) (parv : List (List Char))
    (tokstr : List Char) : State × Outcome :=
  if !client.hasBatch then (s, .reply needBatch)
  else if !client.isUser then
    (s, .reply (.fail "NO_PERMISSIONS" none "You must complete connection registration first"))
  else
    match arg parv 2 with
    | none => (s, .reply (.fail "INVALID_SCOPE" none "Missing service parameter"))
    | some serviceName =>
      match findAuthservice cfg serviceName with
      | none => (s, .reply (.fail "UNKNOWN_SERVICE" (some serviceName)
          "No external service by that name is defined"))
      | some svc =>
        if svc.requireAccount && client.account.isNone then
          (s, .reply (.fail "ACCOUNT_REQUIRED" none
            "You must be logged into an account to generate a token for this service"))
        else
          let t := issue cfg now client svc (arg parv 3) tokstr
          ({ s with tokens := t :: s.tokens }, .reply (.generated svc.key svc.url t.token))

def claim (name : String) (text : Option (List Char)) : List (String × List Char) :=
  ((text.filter (· ≠ [])).map fun v => (name, v)).toList

variable (tok : AuthToken)

/-- The claims of `emit_validate_response`. -/
def responseClaims : List (String × List Char) :=
  claim "account" tok.account ++ claim "name" (some tok.nick) ++ claim "member_of" tok.memberOf ++
    claim "operator_of" tok.operatorOf ++ claim "scope" tok.scope

/-- The claims of `rpc_authtoken_validate`. -/
def rpcClaims : List (String × List Char) :=
  claim "account" tok.account ++ claim "nick" (some tok.nick) ++ claim "scope" tok.scope ++
    claim "member_of" tok.memberOf ++ claim "operator_of" tok.operatorOf

/-- `emit_validate_response`. -/
def validateResponse : Reply :=
  .response tok.serviceKey tok.serviceUrl (responseClaims tok)

/-- The reply of `rpc_authtoken_validate`. -/
def rpcResponse : Reply :=
  .rpcResult tok.serviceKey tok.serviceUrl (rpcClaims tok)

/-- What `do_validate` sends for a token that it does not accept. -/
def invalidToken : Reply :=
  .fail "INVALID_TOKEN" none "The provided token could not be validated"

/-- The end of `do_validate` and of `rpc_authtoken_validate`: the token is taken out of the list, and
accepted if it is for the service. -/
def consume (service url token : List Char) (refused : Reply)
    (accepted : AuthToken → Reply) : State × Reply :=
  match findAndUnlinkToken now s.tokens token with
  | none => (s, refused)
  | some (tok, rest) =>
    let s' := { s with tokens := rest }
    if lower tok.serviceKey ≠ lower service ∨ tok.serviceUrl ≠ url then (s', refused)
    else (s', accepted tok)

/-- `do_validate`. -/
def doValidate (client : Client) (serviceName url token : List Char) : State × Reply :=
  match findAuthservice cfg serviceName with
  | none => (s, invalidToken)
  | some svc =>
    if !clientMatchesMasks client svc.masks then
      (s, .fail "NO_PERMISSIONS" (some svc.key)
        "You do not have permission to validate tokens for this service")
    else if svc.url ≠ url then (s, invalidToken)
    else consume now s serviceName url token invalidToken validateResponse

/-- `rpc_authtoken_validate`, for a request with its three strings. -/
def rpcAuthtokenValidate (serviceName url token : List Char) : State × Reply :=
  match findAuthservice cfg serviceName with
  | none => (s, .rpcError "service not configured")
  | some svc =>
    if svc.url ≠ url then (s, .rpcError "token rejected")
    else consume now s serviceName url token (.rpcError "token rejected") rpcResponse

/-- `AT_MAX_PENDING_TOKEN`. -/
def maxPendingToken : ℕ := 16384

def PendingValidate.add (p : PendingValidate) (piece : List Char) : PendingValidate :=
  if p.overflowed || decide (p.totalLen + piece.length ≥ maxPendingToken) then
    { p with overflowed := true }
  else { p with pieces := p.pieces ++ [piece], totalLen := p.totalLen + piece.length }

/-- The pending entries after a piece for the one that `find_pending` finds. -/
def addPiece (piece : List Char) : List PendingValidate :=
  Keyed.modify PendingValidate.key (client, ref) (PendingValidate.add · piece) pending

/-- The batch of a client that a tag `batch` names. -/
def ownBatch (batchTag : Option (List Char)) : Option (List Char) :=
  batchTag.filter fun ref => ref ≠ [] && (findPending pending client ref).isSome

/-- `cmd_token_validate`. `batchTag` is the value of the tag `batch`. -/
def cmdTokenValidate (client : Client)
    (batchTag : Option (List Char)) (parv : List (List Char)) : State × Outcome :=
  if !client.hasBatch then (s, .reply needBatch)
  else
    match ownBatch s.pending client.id batchTag with
    | some ref =>
      match arg parv 2 with
      | none => (s, .silent)
      | some piece => ({ s with pending := addPiece s.pending client.id ref piece }, .silent)
    | none =>
      match arg parv 2, arg parv 3 with
      | some serviceName, some url =>
        match arg parv 4 with
        | none => (s, .reply (.fail "INVALID_TOKEN" none "Missing token parameter"))
        | some token =>
          let r := doValidate cfg now s client serviceName url token
          (r.1, .validation serviceName url token r.2)
      | _, _ =>
        (s, .reply (.fail "INVALID_TOKEN" none "Missing service, url, or token parameter"))

/-- `cmd_token`. -/
def cmdToken (client : Client) (batchTag : Option (List Char))
    (parv : List (List Char)) (tokstr : List Char) : State × Outcome :=
  match arg parv 1 with
  | none => (s, .reply (.fail "UNKNOWN_COMMAND" (some "*".toList) "Missing TOKEN subcommand"))
  | some sub =>
    if lower sub = "servicelist".toList then (s, .reply (cmdTokenServicelist cfg client))
    else if lower sub = "generate".toList then cmdTokenGenerate cfg now s client parv tokstr
    else if lower sub = "validate".toList then cmdTokenValidate cfg now s client batchTag parv
    else (s, .reply (.fail "UNKNOWN_COMMAND" (some sub) "No such TOKEN subcommand"))

/-- `valid_batch_reference_tag`; `MAXBATCHREFLEN` is 48. -/
def validBatchReferenceTag : Bool :=
  ref ≠ [] && ref.length ≤ 48 && ref.all fun c => c.isAlphanum || c = '-'

/-- `authtoken_override_batch` for `BATCH +ref`. -/
def openBatch (client : Client) (ref : List Char) (parv : List (List Char)) : State × Outcome :=
  match arg parv 2 with
  | none => (s, .next)
  | some type =>
    if type ≠ "draft/authtoken".toList then (s, .next)
    else if !validBatchReferenceTag ref then (s, .reply (.failReftag ref))
    else if !client.hasAuthtoken then
      (s, .reply (.fail "NEED_CAPABILITY" (some "draft/authtoken".toList)
        ("You must negotiate the draft/authtoken capability before sending a " ++
          "draft/authtoken batch")))
    else if !client.hasBatch then (s, .reply needBatch)
    else
      match arg parv 3, arg parv 4 with
      | some service, some url =>
        if (findPending s.pending client.id ref).isSome then
          (s, .reply (.fail "INTERNAL_ERROR" none
            "A draft/authtoken batch with that reference is already open"))
        else
          ({ s with pending := ⟨client.id, ref, service, url, [], 0, false⟩ :: s.pending }, .silent)
      | _, _ => (s, .reply (.fail "INVALID_TOKEN" none
          "draft/authtoken batch requires service and url parameters"))

/-- `authtoken_override_batch` for `BATCH -ref`. -/
def closeBatch (client : Client) (ref : List Char) : State × Outcome :=
  match findPending s.pending client.id ref with
  | none => (s, .next)
  | some p =>
    if p.overflowed || p.totalLen = 0 then
      ({ s with pending := unlinkPending s.pending client.id ref },
        .reply (.fail "INVALID_TOKEN" none "Token in draft/authtoken batch was empty or too long"))
    else
      let full := p.pieces.flatten
      let r := doValidate cfg now s client p.serviceKey p.serviceUrl full
      ({ r.1 with pending := unlinkPending r.1.pending client.id ref },
        .validation p.serviceKey p.serviceUrl full r.2)

/-- `authtoken_override_batch`. A local client that is a user is `MyUser`. -/
def authtokenOverrideBatch (client : Client) (parv : List (List Char)) : State × Outcome :=
  if !client.isUser then (s, .next)
  else
    match arg parv 1 with
    | some ('+' :: ref) => openBatch s client ref parv
    | some ('-' :: ref) => closeBatch cfg now s client ref
    | _ => (s, .next)

/-- What can happen to the module. -/
inductive Op
  /-- `TOKEN`, with the tag `batch` of the message, and the random characters for a new token. -/
  | token (client : Client) (batchTag : Option (List Char)) (parv : List (List Char))
      (tokstr : List Char)
  /-- `BATCH`. -/
  | batch (client : Client) (parv : List (List Char))
  /-- `authtoken.validate` of JSON-RPC. -/
  | rpc (service url token : List Char)
  /-- `authtoken_local_quit`. -/
  | quit (client : ℕ)
  /-- `authtoken_cleanup_event`. -/
  | cleanup

/-- One step at the time `now`. -/
def step (now : ℤ) : Op → State × Outcome
  | .token client batchTag parv tokstr => cmdToken cfg now s client batchTag parv tokstr
  | .batch client parv => authtokenOverrideBatch cfg now s client parv
  | .rpc service url token =>
    let r := rpcAuthtokenValidate cfg now s service url token
    (r.1, .validation service url token r.2)
  | .quit client => ({ s with pending := purgePendingForClient s.pending client }, .silent)
  | .cleanup => ({ s with tokens := cullExpired now s.tokens }, .silent)

/-- A step that was made: when, what, and what came of it. -/
structure Event where
  now : ℤ
  op : Op
  outcome : Outcome

def run (cfg : Cfg) : State → List (ℤ × Op) → State × List Event
  | s, [] => (s, [])
  | s, (now, op) :: ops =>
    let r := step cfg s now op
    let r' := run cfg r.1 ops
    (r'.1, ⟨now, op, r.2⟩ :: r'.2)

end ObbyIRCd.Authtoken
