import ObbyIRCd.Sasl.Unique

/-!
# Logging in on a connection

`authenticate_attempt` with the handlers of its mechanisms, the step-up to a second factor,
`oauth_userinfo_callback` and `cmd_identify`, as functions on the part of a connection that they read
and write. `World` is what a handler finds outside: the tables, the configuration, and what decoding,
hashing and signature checks give. A handler returns the new connection and its notes: the replies of
an exchange, the factors it has verified and the accounts it has set.
-/

namespace ObbyIRCd.Sasl

/-! ## Connections -/

/-- `ACCOUNTLEN`. -/
def accountLen : ℕ := 30

/-- `strlcpy` into a field for the name of an account. -/
def cutAccount (name : List Char) : List Char := name.take accountLen

/-- What can verify a user: the password, or an enrolled credential. -/
inductive Factor
  | password
  | cred (t : CredType)
deriving DecidableEq, Repr

/-- The values of `SaslType`. -/
inductive SaslType
  | plain | external | webauthnBio | scramSha256 | oauthbearer | ircv3bearer
  | totpStepup | oauthStepup
deriving DecidableEq, Repr

/-- `TwoFAStepup`, while it is active. -/
structure Stepup where
  account : List Char
  primaryFactor : Factor
deriving DecidableEq, Repr

/-- `WebAuthnSaslState`. -/
structure WebAuthnSaslState where
  step : ℕ
  usernameHint : List Char
deriving DecidableEq, Repr

/-- `OAuthOpaqueOp`, without enrolments. -/
inductive OauthOp
  | login
  | stepup (account : List Char)
deriving DecidableEq, Repr

/-- `OAuthOpaquePending`, a request to a userinfo endpoint. -/
structure Pending where
  op : OauthOp
  providerName : List Char
deriving DecidableEq, Repr

/-- What a connection keeps between messages. -/
structure Conn where
  /-- `client->user->account`. -/
  account : List Char
  saslType : Option SaslType
  stepup : Option Stepup
  scram : Option Account
  webauthn : Option WebAuthnSaslState
  /-- The text of `OAuthSaslBuf`. -/
  buffer : List Char
  pending : List Pending
deriving DecidableEq, Repr

/-- A connection after `make_user`. -/
def Conn.fresh : Conn := ⟨['0'], none, none, none, none, [], []⟩

/-- `OAuthProvider`. -/
structure OAuthProvider where
  name : List Char
  loaded : Bool
  userinfoUrl : Option (List Char)
deriving DecidableEq, Repr

/-- What the payload of a bearer mechanism turns out to be. -/
inductive Bearer
  | malformed
  /-- A token that only the named provider can read. -/
  | userinfo (provider : List Char)
  /-- A JWT, with provider and subject if `oauth_validate_jwt` accepts it. -/
  | jwt (identity : Option (List Char × List Char))
deriving DecidableEq, Repr

/-- A WebAuthn assertion for the challenge of the exchange. -/
structure Assertion where
  credentialId : List Char
  userHandle : List Char
  signCount : ℕ
  /-- Whether the signature fits the key with these coordinates. -/
  signed : List Char → List Char → Bool

/-- What the handlers find outside of the connection. -/
structure World where
  db : Store
  providers : List OAuthProvider
  certfp : Option (List Char)
  /-- A nick collision or a name ban. -/
  refuses : List Char → Bool
  decodeAuthenticatePlain : List Char → Option (List Char × List Char)
  verifyPassword : Account → List Char → Bool
  randBytes : Bool
  /-- The user name of a first SCRAM message. -/
  scramParseClientFirst : List Char → Option (List Char)
  hasScram : Account → Bool
  /-- Whether the answer to a first SCRAM message fits a line. -/
  scramSendB64 : Bool
  /-- The checks of the last SCRAM message, against the keys of the account. -/
  scramProof : Account → List Char → Bool
  /-- The user name in the first message of a WebAuthn exchange. -/
  webauthnHello : List Char → Option (List Char)
  webauthnSendChallenge : Bool
  webauthnAssertion : List Char → Option Assertion
  totpCode : List Char → Option (List Char)
  totpVerify : List Char → List Char → Bool
  oauthbearer : List Char → Bearer
  ircv3bearer : List Char → Bearer

/-- How an account came to be set. -/
inductive Via
  | anonymous
  | first (f : Factor)
  | second (t : CredType)
deriving DecidableEq, Repr

/-- What a handler does besides changing the connection. -/
inductive Note
  /-- `AUTHENTICATE +`, the reply to the choice of a mechanism. -/
  | plus
  /-- `AUTHENTICATE 2FA-REQUIRED`. -/
  | twofaRequired
  /-- `ERR_SASLFAIL`. -/
  | saslFail
  /-- `ERR_SASLABORTED`. -/
  | saslAborted
  /-- `RPL_SASLSUCCESS`. -/
  | saslSuccess
  /-- The client has given up, which outside of a step-up has no reply. -/
  | stopped
  /-- A request to a userinfo endpoint has been started. -/
  | asked
  | verified (f : Factor) (account : List Char)
  /-- `client->user->account` has been set. -/
  | login (account : List Char) (via : Via)
deriving DecidableEq, Repr

/-! ## First factors -/

/-- `twofa_count_credentials_excluding`. -/
def Store.countCredentialsExcluding (db : Store) (accountId : ℕ) (primary : Factor) : ℕ :=
  db.rows.countP fun r => r.accountId = accountId ∧ Factor.cred r.secret.type ≠ primary

/-- `twofa_maybe_start_stepup`: the connection in the step-up, if it has to start. -/
def twofaMaybeStartStepup (db : Store) (acc : Account) (primary : Factor) (c : Conn) : Option Conn :=
  if acc.twofaEnabled = true ∧ 0 < db.countCredentials acc.id ∧
      0 < db.countCredentialsExcluding acc.id primary then
    some { c with stepup := some ⟨cutAccount acc.name, primary⟩ }
  else none

/-- `DelSaslType` and `ERR_SASLFAIL`. -/
def saslFails (c : Conn) : Conn × List Note := ({ c with saslType := none }, [.saslFail])

def firstFactor (db : Store) (acc : Account) (f : Factor) (c : Conn) : Conn × List Note :=
  match twofaMaybeStartStepup db acc f c with
  | some c' => (c', [.verified f acc.name, .twofaRequired])
  | none =>
    ({ c with account := cutAccount acc.name, saslType := none },
      [.verified f acc.name, .login (cutAccount acc.name) (.first f), .saslSuccess])

variable (w : World) (param : List Char)

/-- The branch `SASL_TYPE_PLAIN`. -/
def authenticatePlain (c : Conn) : Conn × List Note :=
  match w.decodeAuthenticatePlain param with
  | none => saslFails c
  | some (username, password) =>
    if username = [] ∨ password = [] then saslFails c
    else
      match w.db.findAccount username with
      | none => saslFails c
      | some acc => if w.verifyPassword acc password then firstFactor w.db acc .password c else saslFails c

/-- The branch `SASL_TYPE_EXTERNAL`. -/
def authenticateExternal (c : Conn) : Conn × List Note :=
  match w.certfp with
  | none => saslFails c
  | some fp =>
    if fp = [] then saslFails c
    else
      match w.db.externalAccount fp with
      | none => saslFails c
      | some acc => firstFactor w.db acc (.cred .external) c

/-- `scram_fail`. -/
def scramFail (c : Conn) : Conn × List Note :=
  ({ c with saslType := none, scram := none }, [.saslFail])

/-- `scram_handle_client_first`. -/
def scramHandleClientFirst (c : Conn) : Conn × List Note :=
  match (w.scramParseClientFirst param).bind w.db.findAccount with
  | none => scramFail c
  | some acc =>
    if w.hasScram acc = false ∨ w.scramSendB64 = false then scramFail c
    else ({ c with scram := some acc }, [])

/-- `scram_handle_client_final`. -/
def scramHandleClientFinal (acc : Account) (param : List Char) (c : Conn) : Conn × List Note :=
  if w.scramProof acc param = false then scramFail c
  else
    let (c', notes) := firstFactor w.db acc .password c
    ({ c' with saslType := none, scram := none }, notes)

/-- `webauthn_sasl_fail_with_code`. -/
def webauthnSaslFail (c : Conn) : Conn × List Note :=
  ({ c with saslType := none, webauthn := none }, [.saslFail])

/-- `webauthn_sasl_handle_hello`. -/
def webauthnSaslHandleHello (c : Conn) : Conn × List Note :=
  match if param = ['+'] then some [] else w.webauthnHello param with
  | none => webauthnSaslFail c
  | some uname =>
    if w.webauthnSendChallenge = false then webauthnSaslFail c
    else ({ c with webauthn := some ⟨1, cutAccount uname⟩ }, [])

/-- The account that an assertion is for. A hint has to name an account, whose rows are searched. -/
def World.assertionAccount (usernameHint param : List Char) : Option Account :=
  (w.webauthnAssertion param).bind fun a =>
    (if usernameHint = [] then some none
      else (w.db.findAccount usernameHint).map fun acc => some acc.id).bind fun hint =>
    ((webauthnVerifyAssertion w.db hint a.credentialId a.userHandle a.signCount a.signed).2).bind
      w.db.accountById

/-- `webauthn_sasl_handle_assertion`. There is no step-up. -/
def webauthnSaslHandleAssertion (usernameHint param : List Char) (c : Conn) : Conn × List Note :=
  match w.assertionAccount usernameHint param with
  | none => webauthnSaslFail c
  | some acc =>
    ({ c with account := cutAccount acc.name, saslType := none, webauthn := none },
      [.verified (.cred .webauthn) acc.name,
        .login (cutAccount acc.name) (.first (.cred .webauthn)), .saslSuccess])

/-! ## OAuth -/

/-- `oauth_find_provider`. -/
def World.oauthFindProvider (name : List Char) : Option OAuthProvider :=
  w.providers.find? fun p => lower p.name = lower name

/-- `oauth_complete_login`. -/
def oauthCompleteLogin (provider subject : List Char) (c : Conn) : Conn × List Note :=
  match (w.db.oauthLookupAccountByCredential provider subject).bind w.db.findAccountById with
  | none => (c, [.saslFail])
  | some acc =>
    let (c', notes) := firstFactor w.db acc (.cred .oauth) c
    ({ c' with saslType := none }, notes)

/-- `oauth_validate_opaque_async` and `oauth_stepup_opaque_async`. -/
def oauthAsk (op : OauthOp) (p : OAuthProvider) (c : Conn) : Conn × List Note :=
  if p.userinfoUrl = none ∨ p.userinfoUrl = some [] then (c, [.saslFail])
  else ({ c with pending := c.pending ++ [⟨op, p.name⟩] }, [.asked])

def World.askable (name : List Char) : Option OAuthProvider :=
  (w.oauthFindProvider name).filter fun p => p.loaded && p.userinfoUrl.isSome

/-- `oauthbearer_dispatch` and `ircv3bearer_dispatch`, from the decoded payload on. -/
def bearerDispatch (payload : Bearer) (c : Conn) : Conn × List Note :=
  match payload with
  | .malformed => (c, [.saslFail])
  | .userinfo name =>
    match w.askable name with
    | none => (c, [.saslFail])
    | some p => oauthAsk .login p c
  | .jwt none => (c, [.saslFail])
  | .jwt (some (provider, subject)) => oauthCompleteLogin w provider subject c

/-- `oauth_sasl_accumulate`: the new buffer, and whether it is complete. -/
def oauthSaslAccumulate (buffer : List Char) : List Char × Bool :=
  let buffer := if param = ['+'] then buffer else buffer ++ param
  (buffer, decide ((param = ['+'] ∨ param.length < 400) ∧ buffer ≠ []))

/-- The branches `SASL_TYPE_OAUTHBEARER` and `SASL_TYPE_IRCV3BEARER`. -/
def authenticateBearer (decode : List Char → Bearer) (param : List Char) (c : Conn) :
    Conn × List Note :=
  match oauthSaslAccumulate param c.buffer with
  | (full, true) =>
    let (c', notes) := bearerDispatch w (decode full) c
    ({ c' with saslType := none, buffer := [] }, notes)
  | (part, false) => ({ c with buffer := part }, [])

/-! ## Second factors -/

/-- The end of a step-up in which both factors are satisfied. -/
def secondFactor (acc : Account) (t : CredType) (c : Conn) : Conn × List Note :=
  ({ c with account := cutAccount acc.name, saslType := none, stepup := none },
    [.verified (.cred t) acc.name, .login (cutAccount acc.name) (.second t), .saslSuccess])

/-- The end of a step-up in which the second factor is not satisfied. -/
def stepupFails (c : Conn) : Conn × List Note :=
  ({ c with saslType := none, stepup := none }, [.saslFail])

def World.boundAccount (account provider subject : List Char) : Option Account :=
  (w.db.findAccount account).filter fun acc =>
    w.db.oauthLookupAccountByCredential provider subject = some acc.id

/-- `twofa_handle_stepup_oauth`, from the decoded payload on. -/
def twofaHandleStepupOauth (s : Stepup) (payload : Bearer) (c : Conn) : Conn × List Note :=
  match payload with
  | .malformed => stepupFails c
  | .userinfo name =>
    match w.askable name with
    | none => stepupFails c
    | some p => oauthAsk (.stepup s.account) p c
  | .jwt none => stepupFails c
  | .jwt (some (provider, subject)) =>
    match w.boundAccount s.account provider subject with
    | none => stepupFails c
    | some acc => secondFactor acc .oauth c

/-- `twofa_verify_proof` for TOTP. -/
def World.twofaVerifyTotp (acc : Account) (code : List Char) : Bool :=
  w.db.rows.any fun r => decide (r.accountId = acc.id) &&
    match r.secret with
    | .totp secretB32 => w.totpVerify secretB32 code
    | _ => false

/-- The account of a step-up, if the code in the message fits it. -/
def World.totpAccount (account param : List Char) : Option Account :=
  (w.totpCode param).bind fun code =>
    (w.db.findAccount account).filter fun acc => w.twofaVerifyTotp acc code

/-- `twofa_handle_stepup_authenticate`, which consumes every message of a step-up. -/
def twofaHandleStepupAuthenticate (s : Stepup) (param : List Char) (c : Conn) : Conn × List Note :=
  if param = ['*'] then ({ c with saslType := none, stepup := none }, [.saslAborted])
  else if lower param = "totp".toList then ({ c with saslType := some .totpStepup }, [.plus])
  else if lower param = "ircv3bearer".toList then
    if s.primaryFactor = .cred .oauth then stepupFails c
    else ({ c with saslType := some .oauthStepup, buffer := [] }, [.plus])
  else if c.saslType = some .oauthStepup then
    match oauthSaslAccumulate param c.buffer with
    | (full, true) =>
      let (c', notes) := twofaHandleStepupOauth w s (w.ircv3bearer full) c
      ({ c' with buffer := [] }, notes)
    | (part, false) => ({ c with buffer := part }, [])
  else if c.saslType ≠ some .totpStepup then stepupFails c
  else
    match w.totpAccount s.account param with
    | none => stepupFails c
    | some acc => secondFactor acc .totp c

/-! ## Messages -/

def selects (t : SaslType) (c : Conn) : Conn × List Note := ({ c with saslType := some t }, [.plus])

/-- `authenticate_attempt` when no mechanism is named: the message goes to the exchange. -/
def authenticateStep (c : Conn) : Conn × List Note :=
  match c.saslType with
  | some .oauthbearer => authenticateBearer w w.oauthbearer param c
  | some .ircv3bearer => authenticateBearer w w.ircv3bearer param c
  | some .external => authenticateExternal w c
  | some .webauthnBio =>
    match c.webauthn with
    | none => saslFails c
    | some st =>
      if st.step = 0 then webauthnSaslHandleHello w param c
      else webauthnSaslHandleAssertion w st.usernameHint param c
  | some .scramSha256 =>
    match c.scram with
    | none => scramHandleClientFirst w param c
    | some acc => scramHandleClientFinal w acc param c
  | some .plain => authenticatePlain w param c
  | some .totpStepup | some .oauthStepup | none => (c, [])

/-- `authenticate_attempt`. -/
def authenticateAttempt (c : Conn) : Conn × List Note :=
  if param = [] then (c, [])
  else
    match c.stepup with
    | some s => twofaHandleStepupAuthenticate w s param c
    | none =>
      if param = ['*'] then ({ c with saslType := none }, [.stopped])
      else if param = "PLAIN".toList then selects .plain c
      else if param = "ANONYMOUS".toList then
        ({ c with account := ['0'], saslType := none }, [.login ['0'] .anonymous, .saslSuccess])
      else if param = "EXTERNAL".toList then selects .external c
      else if lower param = "draft-webauthn-bio".toList ∨ lower param = "webauthn-bio".toList then
        if w.randBytes then selects .webauthnBio { c with webauthn := some ⟨0, []⟩ }
        else saslFails { c with webauthn := none }
      else if lower param = "scram-sha-256".toList then selects .scramSha256 { c with scram := none }
      else if lower param = "oauthbearer".toList then selects .oauthbearer c
      else if lower param = "ircv3bearer".toList then selects .ircv3bearer c
      else authenticateStep w param c

/-- `oauth_userinfo_callback` for the request at a position, with the subject in the answer if there
is one. -/
def oauthUserinfoCallback (i : ℕ) (answer : Option (List Char)) (c : Conn) : Conn × List Note :=
  match c.pending[i]? with
  | none => (c, [])
  | some p =>
    let c := { c with pending := c.pending.eraseIdx i }
    match w.oauthFindProvider p.providerName, answer.filter (· ≠ []) with
    | some prov, some subject =>
      match p.op with
      | .login => oauthCompleteLogin w prov.name subject c
      | .stepup account =>
        match w.boundAccount account prov.name subject with
        | none => stepupFails c
        | some acc => secondFactor acc .oauth c
    | _, _ => (c, [.saslFail])

/-- `cmd_identify`. There is no step-up. -/
def cmdIdentify (accountName password : List Char) (c : Conn) : Conn × List Note :=
  if accountName = [] ∨ lower accountName = lower c.account ∨ w.refuses accountName = true ∨
      password = [] then (c, [])
  else
    match w.db.findAccount accountName with
    | none => (c, [])
    | some acc =>
      if w.verifyPassword acc password then
        ({ c with account := cutAccount acc.name, saslType := none },
          [.verified .password acc.name, .login (cutAccount acc.name) (.first .password)])
      else (c, [])

/-- What happens on a connection. -/
inductive Message
  | authenticate (param : List Char)
  | identify (accountName password : List Char)
  | callback (i : ℕ) (answer : Option (List Char))
deriving DecidableEq, Repr

def step (m : Message) (c : Conn) : Conn × List Note :=
  match m with
  | .authenticate param => authenticateAttempt w param c
  | .identify accountName password => cmdIdentify w accountName password c
  | .callback i answer => oauthUserinfoCallback w i answer c

end ObbyIRCd.Sasl
