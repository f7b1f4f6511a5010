import ObbyIRCd.Accounts.Model

/-!
# Accounts and their credentials

The tables `accounts` and `account_2fa_credentials` of `account-registration.c`, with the queries that
logins and the command `2FA` make. A query with `LIMIT 1` takes the first row in the order of the row
ids. The secret of a WebAuthn credential is a JSON text in the source; kept here are the fields that
`webauthn_pack` writes and `webauthn_unpack` reads. SQLite stores and returns the rows it is given.
-/

namespace ObbyIRCd.Sasl

open Keyed

/-- The types of credentials. -/
inductive CredType
  | totp | oauth | external | webauthn
deriving DecidableEq, Repr

/-- `WebAuthnCred`. -/
structure WebAuthnCred where
  credentialId : List Char
  x : List Char
  y : List Char
  userHandle : List Char
  counter : ℕ
deriving DecidableEq, Repr

/-- The column `secret`, by the type of the credential. -/
inductive Secret
  | totp (secretB32 : List Char)
  | external (fingerprint : List Char)
  | oauth (provider subject : List Char)
  | webauthn (cred : WebAuthnCred)
deriving DecidableEq, Repr

def Secret.type : Secret → CredType
  | .totp _ => .totp
  | .external _ => .external
  | .oauth _ _ => .oauth
  | .webauthn _ => .webauthn

/-- A row of `account_2fa_credentials`. -/
structure Row where
  id : ℕ
  accountId : ℕ
  name : List Char
  secret : Secret
deriving DecidableEq, Repr

/-- The database. Ids are unique, and so are names up to case: `write_account_to_db` refuses a name that
`find_account` finds. -/
structure Store where
  accounts : List Account
  rows : List Row
  nextId : ℕ
  ids_nodup : (accounts.map Account.id).Nodup
  names_nodup : (accounts.map fun acc => lower acc.name).Nodup

variable (db : Store)

/-- `find_account`. -/
def Store.findAccount (name : List Char) : Option Account :=
  ObbyIRCd.findAccount db.accounts name

/-- The query `SELECT name FROM accounts WHERE id = ?`. -/
def Store.accountById (id : ℕ) : Option Account := find Account.id db.accounts id

/-- `find_account_by_id`. -/
def Store.findAccountById (id : ℕ) : Option Account :=
  (db.accountById id).bind fun acc => db.findAccount acc.name

/-- `twofa_count_credentials`. -/
def Store.countCredentials (accountId : ℕ) : ℕ :=
  db.rows.countP fun r => r.accountId = accountId

/-- `twofa_insert_credential`. -/
def Store.insertCredential (accountId : ℕ) (name : List Char) (secret : Secret) : Store :=
  { db with
    rows := db.rows ++ [⟨db.nextId, accountId, name, secret⟩]
    nextId := db.nextId + 1 }

/-- `twofa_delete_credential`. -/
def Store.deleteCredential (accountId credId : ℕ) : Store :=
  { db with rows := db.rows.filter fun r => ¬(r.id = credId ∧ r.accountId = accountId) }

/-- `OAUTH_CRED_SEP`. -/
def oauthCredSep : Char := '\x1F'

/-- `oauth_make_cred_secret`. -/
def oauthMakeCredSecret (provider subject : List Char) : List Char :=
  provider ++ oauthCredSep :: subject

def Row.isOauth (provider subject : List Char) (r : Row) : Bool :=
  match r.secret with
  | .oauth p s => oauthMakeCredSecret p s = oauthMakeCredSecret provider subject
  | _ => false

/-- `oauth_lookup_account_by_credential`. -/
def Store.oauthLookupAccountByCredential (provider subject : List Char) : Option ℕ :=
  (db.rows.find? (Row.isOauth provider subject)).map Row.accountId

/-- Whether a row holds a certificate fingerprint, which is given in lower case. -/
def Row.isExternal (fp : List Char) (r : Row) : Bool :=
  match r.secret with
  | .external fingerprint => lower fingerprint = fp
  | _ => false

/-- The account of SASL `EXTERNAL`: the join of the rows with the fingerprint and the accounts, then
`find_account`. -/
def Store.externalAccount (fp : List Char) : Option Account :=
  ((db.rows.filter (Row.isExternal (lower fp))).findSome? fun r => db.accountById r.accountId).bind
    fun acc => db.findAccount acc.name

/-- Whether a row matches the credential of an assertion. Without a hint for the account the user handle
counts too, if the assertion has one. -/
def Row.isWebauthn (hint : Option ℕ) (credentialId userHandle : List Char) (r : Row) : Bool :=
  match r.secret with
  | .webauthn c =>
    decide (c.credentialId = credentialId) &&
      match hint with
      | some accountId => decide (r.accountId = accountId)
      | none => decide (userHandle = [] ∨ c.userHandle = [] ∨ userHandle = c.userHandle)
  | _ => false

/-- The row that `webauthn_verify_assertion` checks the signature against. -/
def Store.webauthnRow (hint : Option ℕ) (credentialId userHandle : List Char) : Option Row :=
  db.rows.find? (Row.isWebauthn hint credentialId userHandle)

/-- `webauthn_update_secret` with a new counter. -/
def Store.setCounter (rowId counter : ℕ) : Store :=
  { db with rows := db.rows.map fun r =>
      if r.id = rowId then
        match r.secret with
        | .webauthn c => { r with secret := .webauthn { c with counter := counter } }
        | _ => r
      else r }

/-! ## Lookups -/

theorem Store.findAccount_of_mem {acc : Account} (h : acc ∈ db.accounts) :
    db.findAccount acc.name = some acc :=
  find_of_mem (fun acc : Account => lower acc.name) db.names_nodup h

theorem Store.accountById_mem {id : ℕ} {acc : Account}
    (h : db.accountById id = some acc) : acc ∈ db.accounts ∧ acc.id = id :=
  ⟨mem_of_find Account.id h, key_of_find Account.id h⟩

end ObbyIRCd.Sasl
