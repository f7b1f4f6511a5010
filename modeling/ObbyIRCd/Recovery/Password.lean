import Mathlib.Data.List.TakeWhile
import ObbyIRCd.Recovery.Model

/-!
# Setting a new password

`SETPASS` writes an Argon2 hash into the row of an account (`update_account_password` of
`account-recovery.c`), and a later login picks the verifier by the column `password_scheme`
(`verify_password_for_scheme` of `account-registration.c`). `SETPASS` leaves that column alone. The
result is therefore a case distinction on the scheme: a scheme that is checked by another verifier
rejects the new hash, and all others accept the new password and nothing else.
-/

namespace ObbyIRCd.Recovery

open Option

/-! ## Verifiers -/

/-- The digests of the HMAC schemes. -/
inductive Digest
  | sha256 | sha512
deriving DecidableEq, Repr

/-- The cryptographic libraries. -/
structure Crypto where
  /-- `argon2id_hash_encoded` with the server's parameters, from a password and a salt. -/
  argon2Hash : List Char → List Char → Option (List Char)
  /-- `argon2_verify`. -/
  argon2Verify : List Char → List Char → Bool
  /-- `crypt_r`, from a password and a setting. -/
  cryptR : List Char → List Char → Option (List Char)
  /-- `_crypt_blowfish_rn_n` on the SHA3-512 digest of a password. -/
  cryptBlowfishSha3 : List Char → List Char → Option (List Char)
  /-- `pbkdf2v2_verify` after the prefix: the fields, and the password. -/
  pbkdf2Matches : List Char → List Char → Bool
  /-- `anope_hmac_verify` after the split at the colon: hash, key, and the password. -/
  hmacMatches : Digest → List Char → List Char → List Char → Bool

/-- What is assumed of the libraries. -/
structure Crypto.Lawful (c : Crypto) : Prop where
  verify_hash : ∀ password salt stored other, c.argon2Hash password salt = some stored →
    (c.argon2Verify stored other = true ↔ other = password)
  hash_form : ∀ password salt stored, c.argon2Hash password salt = some stored →
    ∃ fields, stored = "$argon2id$".toList ++ fields ∧ ':' ∉ fields
  /-- `libcrypt` has no Argon2. -/
  crypt_argon2 : ∀ password salt stored other, c.argon2Hash password salt = some stored →
    c.cryptR other stored ≠ some stored

variable (c : Crypto) (stored : List Char) (password : List Char)

/-- `crypt_verify_via_libcrypt`. -/
def cryptVerifyViaLibcrypt : Bool :=
  c.cryptR password stored = some stored

/-- `ergo_bcrypt_verify`. -/
def ergoBcryptVerify : Bool :=
  if stored.take 2 = "$2".toList then c.cryptBlowfishSha3 password stored = some stored else false

/-- `pbkdf2v2_verify`. -/
def pbkdf2v2Verify : Bool :=
  if stored.take 3 = "$z$".toList then c.pbkdf2Matches (stored.drop 3) password else false

/-- `anope_hmac_verify`. -/
def anopeHmacVerify (md : Digest) : Bool :=
  match stored.takeWhile (· ≠ ':'), stored.dropWhile (· ≠ ':') with
  | hash, _ :: key => if hash = [] then false else c.hmacMatches md hash key password
  | _, [] => false

/-- `verify_password_for_scheme`. -/
def verifyPasswordForScheme (scheme : Option (List Char)) (stored password : List Char) : Bool :=
  match scheme with
  | none => argon2OrFallback
  | some scheme =>
    if scheme = "argon2id".toList then argon2OrFallback
    else if scheme = "bcrypt".toList then
      cryptVerifyViaLibcrypt c stored password || ergoBcryptVerify c stored password
    else if scheme = "ergo-bcrypt".toList then ergoBcryptVerify c stored password
    else if scheme = "pbkdf2v2".toList then pbkdf2v2Verify c stored password
    else if scheme = "crypt-sha256".toList ∨ scheme = "crypt-sha512".toList then
      cryptVerifyViaLibcrypt c stored password
    else if scheme = "hmac-sha256".toList then anopeHmacVerify c stored password .sha256
    else if scheme = "hmac-sha512".toList then anopeHmacVerify c stored password .sha512
    else if scheme = "reset-required".toList then false
    -- an unknown scheme
    else c.argon2Verify stored password
where
  /-- Argon2 first, then the formats that a migration may have left without a scheme. -/
  argon2OrFallback : Bool :=
    if c.argon2Verify stored password then true
    else if stored.take 2 = "$2".toList ∨ stored.take 2 = "$5".toList ∨ stored.take 2 = "$6".toList then
      if cryptVerifyViaLibcrypt c stored password then true
      else if stored.take 2 = "$2".toList then ergoBcryptVerify c stored password
      else false
    else if stored.take 10 = "$z$pbkdf2-".toList then pbkdf2v2Verify c stored password
    else false

/-- The schemes that are checked by a verifier other than Argon2, or not at all. -/
def legacySchemes : List (List Char) :=
  ["bcrypt".toList, "ergo-bcrypt".toList, "pbkdf2v2".toList, "crypt-sha256".toList,
    "crypt-sha512".toList, "hmac-sha256".toList, "hmac-sha512".toList, "reset-required".toList]

variable (db : List Account)

/-- The password check of `IDENTIFY` and of SASL `PLAIN`. -/
def passwordLogin (name password : List Char) : Bool :=
  match findAccount db name with
  | some acc => verifyPasswordForScheme c acc.passwordScheme acc.password password
  | none => false

/-! ## SETPASS -/

/-- The `UPDATE` of `update_account_password`: the new hash, and no SCRAM credentials. The column
`password_scheme` stays. -/
def writePassword (id : ℕ) (hash : List Char) : List Account :=
  db.map fun acc => if acc.id = id then { acc with password := hash, scram := none } else acc

/-- `update_account_password` of `account-recovery.c`. `stored` tells whether SQLite accepts the
update. -/
def updateAccountPassword (acc : Account)
    (newPassword salt : List Char) (stored : Bool) : Option (List Account) :=
  match c.argon2Hash newPassword salt with
  | none => none
  | some hash => if stored then some (writePassword db acc.id hash) else none

/-- `MIN_PASSWORD_LENGTH`. -/
def minPasswordLength : ℕ := 3

/-- `MAX_PASSWORD_LENGTH`. -/
def maxPasswordLength : ℕ := 200

/-- The replies of `SETPASS`. -/
inductive SetpassReply
  | invalidParams
  | invalidPassword
  | unauthorized
  | databaseUnavailable
  | notStored
  | success (viaGrant : Bool) (account : List Char)
deriving DecidableEq, Repr

/-- `get_grant`: an expired grant is dropped. -/
def getGrant (s : State) : Option SetpassGrant := s.grant.filter fun g => s.now ≤ g.expiresAt

/-- The account that `SETPASS` is about: that of a grant first, then that of the session. -/
def setpassTarget (s : State) (account : Option (List Char)) : Option (List Char) :=
  match getGrant s with
  | some g => some g.account
  | none => account

/-- `cmd_setpass` with the parameters of the command, for a client that is logged in to `account`, if
any. -/
def cmdSetpass (s : State) (account : Option (List Char))
    (params : List (List Char)) (salt : List Char) (databaseOpen stored : Bool) :
    List Account × State × SetpassReply :=
  match params with
  | [] | [] :: _ => (db, s, .invalidParams)
  | newPassword :: _ =>
    let cleared := { s with grant := none }
    if newPassword.length < minPasswordLength ∨ maxPasswordLength < newPassword.length then
      (db, cleared, .invalidPassword)
    else
      let s := { s with grant := getGrant s }
      match setpassTarget s account with
      | none | some [] => (db, s, .unauthorized)
      | some target =>
        if databaseOpen = false then (db, cleared, .databaseUnavailable)
        else
          match findAccount db target with
          | none => (db, cleared, .unauthorized)
          | some acc =>
            match updateAccountPassword c db acc newPassword salt stored with
            | none => (db, cleared, .notStored)
            | some db' => (db', cleared, .success (getGrant s).isSome acc.name)

/-! ## Proofs -/

theorem findAccount_update {db : List Account} {name : List Char} {acc : Account}
    (h : findAccount db name = some acc) (hash : List Char) :
    findAccount (writePassword db acc.id hash) name =
      some { acc with password := hash, scram := none } := by
  unfold findAccount writePassword at *
  have hname : ∀ a ∈ db, lower (if a.id = acc.id then { a with password := hash, scram := none }
      else a : Account).name = lower a.name := by
    intro a _
    split_ifs <;> rfl
  rw [Keyed.find_map (fun a : Account => lower a.name) hname, h, map_some, if_pos rfl]

theorem updateAccountPassword_eq_some {c : Crypto} {db db' : List Account} {acc : Account}
    {newPassword salt : List Char} {stored : Bool}
    (h : updateAccountPassword c db acc newPassword salt stored = some db') :
    ∃ hash, c.argon2Hash newPassword salt = some hash ∧ db' = writePassword db acc.id hash := by
  unfold updateAccountPassword at h
  split at h
  · simp at h
  · rename_i hash hhash
    rw [ite_none_right_eq_some] at h
    exact ⟨hash, hhash, (some.inj h.2).symm⟩

/-- A successful `SETPASS` has written a hash of the new password into the row of its target. -/
theorem cmdSetpass_success {c : Crypto} {db db' : List Account} {s s' : State}
    {account : Option (List Char)} {params : List (List Char)} {salt name : List Char}
    {databaseOpen stored viaGrant : Bool}
    (h : cmdSetpass c db s account params salt databaseOpen stored =
      (db', s', .success viaGrant name)) :
    ∃ newPassword rest target acc hash, params = newPassword :: rest ∧
      setpassTarget { s with grant := getGrant s } account = some target ∧
      findAccount db target = some acc ∧ c.argon2Hash newPassword salt = some hash ∧
      db' = writePassword db acc.id hash := by
  rcases params with - | ⟨- | ⟨p, password⟩, rest⟩
  · simp [cmdSetpass] at h
  · simp [cmdSetpass] at h
  simp only [cmdSetpass] at h
  split at h
  · simp at h
  split at h
  · simp at h
  · simp at h
  rename_i target hne htarget
  split at h
  · simp at h
  split at h
  · simp at h
  rename_i acc hacc
  split at h
  · simp at h
  rename_i written hwritten
  obtain ⟨hash, hhash, hdb⟩ := updateAccountPassword_eq_some hwritten
  exact ⟨p :: password, rest, target, acc, hash, rfl, htarget, hacc, hhash,
    (congrArg Prod.fst h).symm.trans hdb⟩

section Argon2

variable {c : Crypto} (hc : c.Lawful) {password salt hash : List Char}
  (hhash : c.argon2Hash password salt = some hash)

include hc hhash

variable (other : List Char)

theorem cryptVerify_argon2 : cryptVerifyViaLibcrypt c hash other = false := by
  exact decide_eq_false (hc.crypt_argon2 password salt hash other hhash)

theorem ergoBcryptVerify_argon2 : ergoBcryptVerify c hash other = false := by
  obtain ⟨fields, rfl, -⟩ := hc.hash_form password salt hash hhash
  exact if_neg (by simp)

theorem pbkdf2v2Verify_argon2 : pbkdf2v2Verify c hash other = false := by
  obtain ⟨fields, rfl, -⟩ := hc.hash_form password salt hash hhash
  exact if_neg (by simp)

theorem anopeHmacVerify_argon2 (md : Digest) : anopeHmacVerify c hash other md = false := by
  obtain ⟨fields, rfl, hcolon⟩ := hc.hash_form password salt hash hhash
  have hdrop : ("$argon2id$".toList ++ fields).dropWhile (· ≠ ':') = [] := by
    rw [List.dropWhile_eq_nil_iff]
    intro x hx
    rw [decide_eq_true_eq]
    rintro rfl
    rcases List.mem_append.mp hx with hx | hx
    · exact absurd hx (by decide)
    · exact hcolon hx
  unfold anopeHmacVerify
  rw [hdrop]

/-- A scheme that is not checked by Argon2 rejects an Argon2 hash with any password. -/
theorem verify_legacy {scheme : List Char} (hscheme : scheme ∈ legacySchemes) (other : List Char) :
    verifyPasswordForScheme c (some scheme) hash other = false := by
  have hcrypt := cryptVerify_argon2 hc hhash other
  have hergo := ergoBcryptVerify_argon2 hc hhash other
  have hpbkdf2 := pbkdf2v2Verify_argon2 hc hhash other
  have hhmac := anopeHmacVerify_argon2 hc hhash other
  simp only [legacySchemes, List.mem_cons, List.not_mem_nil, or_false] at hscheme
  rcases hscheme with rfl | rfl | rfl | rfl | rfl | rfl | rfl | rfl <;>
    simp [verifyPasswordForScheme, hcrypt, hergo, hpbkdf2, hhmac]

theorem argon2OrFallback_argon2 :
    verifyPasswordForScheme.argon2OrFallback c hash other = c.argon2Verify hash other := by
  obtain ⟨fields, rfl, -⟩ := hc.hash_form password salt hash hhash
  unfold verifyPasswordForScheme.argon2OrFallback
  rcases c.argon2Verify ("$argon2id$".toList ++ fields) other <;> simp

theorem verify_argon2 {scheme : Option (List Char)} (hscheme : ∀ x ∈ scheme, x ∉ legacySchemes)
    (other : List Char) :
    verifyPasswordForScheme c scheme hash other = true ↔ other = password := by
  rw [← hc.verify_hash password salt hash other hhash]
  rcases scheme with - | scheme
  · show verifyPasswordForScheme.argon2OrFallback c hash other = true ↔ _
    rw [argon2OrFallback_argon2 hc hhash]
  have hnot := hscheme scheme rfl
  simp only [legacySchemes, List.mem_cons, List.not_mem_nil, or_false, not_or] at hnot
  obtain ⟨h1, h2, h3, h4, h5, h6, h7, h8⟩ := hnot
  unfold verifyPasswordForScheme
  simp only [if_neg h1, if_neg h2, if_neg h3, if_neg (not_or.mpr ⟨h4, h5⟩), if_neg h6, if_neg h7,
    if_neg h8, argon2OrFallback_argon2 hc hhash, ite_self]

end Argon2

/-- After a successful `SETPASS`, the account that it was about accepts the new password and no other,
if and only if its scheme is not one of those that are checked by another verifier. -/
theorem setpass_restores_iff {c : Crypto} (hc : c.Lawful) {db db' : List Account} {s s' : State}
    {account : Option (List Char)} {newPassword : List Char} {rest : List (List Char)}
    {salt name target : List Char} {databaseOpen stored viaGrant : Bool} {acc : Account}
    (hset : cmdSetpass c db s account (newPassword :: rest) salt databaseOpen stored =
      (db', s', .success viaGrant name))
    (htarget : setpassTarget { s with grant := getGrant s } account = some target)
    (hacc : findAccount db target = some acc) :
    (passwordLogin c db' target newPassword = true ∧
      ∀ other, other ≠ newPassword → passwordLogin c db' target other = false) ↔
    ∀ scheme ∈ acc.passwordScheme, scheme ∉ legacySchemes := by
  obtain ⟨password, rest', target', acc', hash, hparams, htarget', hacc', hhash, rfl⟩ :=
    cmdSetpass_success hset
  obtain ⟨rfl, -⟩ := List.cons.inj hparams
  obtain rfl : target = target' := mem_unique htarget htarget'
  obtain rfl : acc = acc' := mem_unique hacc hacc'
  have hlogin : ∀ other, passwordLogin c (writePassword db acc.id hash) target other =
      verifyPasswordForScheme c acc.passwordScheme hash other := by
    intro other
    unfold passwordLogin
    rw [findAccount_update hacc]
  simp only [hlogin]
  constructor
  · rintro ⟨hnew, -⟩ scheme hscheme hlegacy
    rw [hscheme, verify_legacy hc hhash hlegacy] at hnew
    simp at hnew
  · intro hscheme
    have hverify := verify_argon2 hc hhash hscheme
    refine ⟨(hverify _).mpr rfl, fun other hother => ?_⟩
    exact eq_false_of_ne_true fun h => hother ((hverify other).mp h)

/-- Libraries in which a hash is the password itself behind the Argon2 prefix. -/
def plainCrypto : Crypto where
  argon2Hash password _ := if ':' ∈ password then none else some ("$argon2id$".toList ++ password)
  argon2Verify stored password := stored = "$argon2id$".toList ++ password
  cryptR _ _ := none
  cryptBlowfishSha3 _ _ := none
  pbkdf2Matches _ _ := false
  hmacMatches _ _ _ _ := false

theorem plainCrypto_lawful : plainCrypto.Lawful where
  verify_hash password salt stored other h := by
    simp only [plainCrypto, ite_none_left_eq_some, some.injEq] at h
    obtain ⟨-, rfl⟩ := h
    show decide ("$argon2id$".toList ++ password = "$argon2id$".toList ++ other) = true ↔ _
    rw [decide_eq_true_eq, List.append_cancel_left_eq, eq_comm]
  hash_form password salt stored h := by
    simp only [plainCrypto, ite_none_left_eq_some, some.injEq] at h
    exact ⟨password, h.2.symm, h.1⟩
  crypt_argon2 _ _ stored _ _ := (some_ne_none stored).symm

def bob : Account where
  id := 1
  name := "bob".toList
  email := "bob@example.org".toList
  verified := true
  passwordScheme := some "argon2id".toList

/-- The state after a recovery code for `bob` was accepted. -/
def grantedBob : State := ⟨0, [], [], some ⟨"bob".toList, 300⟩⟩

/-- A recovery of an account with the scheme of new registrations. -/
theorem setpass_restores_bob :
    passwordLogin plainCrypto
        (cmdSetpass plainCrypto [bob] grantedBob none ["new".toList] [] true true).1 "bob".toList
        "new".toList = true ∧
      ∀ other, other ≠ "new".toList → passwordLogin plainCrypto
        (cmdSetpass plainCrypto [bob] grantedBob none ["new".toList] [] true true).1 "bob".toList
        other = false := by
  have hset : cmdSetpass plainCrypto [bob] grantedBob none ["new".toList] [] true true =
      (_, _, .success true "bob".toList) := rfl
  have hbob : findAccount [bob] "bob".toList = some bob := rfl
  exact (setpass_restores_iff plainCrypto_lawful hset rfl hbob).mpr (by decide)

/-- A recovery of an account that the migration tool has marked as `reset-required`: no password is
accepted afterwards. -/
theorem setpass_reset_required :
    passwordLogin plainCrypto
      (cmdSetpass plainCrypto [{ bob with passwordScheme := some "reset-required".toList }] grantedBob
        none ["new".toList] [] true true).1 "bob".toList "new".toList = false := by decide

end ObbyIRCd.Recovery
