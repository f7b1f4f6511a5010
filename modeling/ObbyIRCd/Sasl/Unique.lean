import ObbyIRCd.Sasl.Store

/-!
# One account for an identity

The commands `2FA ADD` and `2FA REMOVE` and the logins that look an identity up. `Good` says that no
identity is enrolled for two accounts, and that each of the three lookups reaches the account that has
enrolled the identity. The second part follows from the first (`good_of_unique`). Enrolment of an OAuth
identity checks for another account first; enrolment of a certificate fingerprint and of a WebAuthn
credential does not, so that a step keeps the identities unique exactly if it does not enrol one of
another account (`unique_step_iff`). What a step can do to the table is said once, in `StepTo`.
-/

namespace ObbyIRCd.Sasl

open List Option

/-! ## Commands and logins -/

inductive OauthEnrolment
  /-- No token was streamed for the enrolment, or it has expired. -/
  | noChallenge
  | noProvider
  /-- The token is not a JWT: the provider is asked, and answers in a callback. -/
  | asked
  /-- `oauth_validate_jwt` does not accept the token for the provider. -/
  | invalid
  | identity (provider subject : List Char)
deriving DecidableEq, Repr

/-- `2FA ADD`, with what the checks of the token, of the attestation and of the code give. -/
structure AddRequest where
  type : List Char
  name : List Char
  data : Option (List Char)
  oauth : OauthEnrolment
  /-- What `parse_webauthn_registration` reads, if challenge and origin are right. -/
  webauthn : Option WebAuthnCred
  /-- The secret of the enrolment, if the code fits it. -/
  totp : Option (List Char)

/-- The replies of `2FA ADD`. -/
inductive AddReply
  | invalidName
  | noChallenge
  | noSuchProvider
  | pending
  | invalidCredentialData
  | alreadyLinkedToAnother
  | alreadyLinked
  | invalidType
  | success (id : ℕ)
deriving DecidableEq, Repr

/-- `TWOFA_NAME_MAX`. -/
def twofaNameMax : ℕ := 64

/-- `twofa_valid_name`. -/
def twofaValidName (name : List Char) : Bool :=
  decide (name ≠ [] ∧ name.length ≤ twofaNameMax) &&
    name.all fun c => decide (0x20 < c.toNat ∧ c.toNat ≠ 0x7F)

/-- The normalisation of a fingerprint: 64 hexadecimal digits, in lower case. -/
def normaliseFingerprint (data : List Char) : Option (List Char) :=
  if data.length = 64 ∧ data.all (fun c => c.isDigit || ('a' ≤ c && c ≤ 'f') || ('A' ≤ c && c ≤ 'F')) then
    some (lower data)
  else none

/-- `twofa_insert_credential` and the reply that names the new row. -/
def Store.enrol (db : Store) (accountId : ℕ) (name : List Char) (secret : Secret) : Store × AddReply :=
  (db.insertCredential accountId name secret, .success db.nextId)

/-- The end of an OAuth enrolment, in `twofa_cmd_add` and in `oauth_userinfo_callback`. -/
def enrolOauth (db : Store) (accountId : ℕ) (name provider subject : List Char) : Store × AddReply :=
  match db.oauthLookupAccountByCredential provider subject with
  | some existing => (db, if existing = accountId then .alreadyLinked else .alreadyLinkedToAnother)
  | none => db.enrol accountId name (.oauth provider subject)

/-- `twofa_cmd_add` for an account. `userHandle` is the handle that `webauthn_2fa_handle_add` makes of
an account id. -/
def twofaCmdAdd (userHandle : ℕ → List Char) (db : Store) (accountId : ℕ) (req : AddRequest) :
    Store × AddReply :=
  if twofaValidName req.name = false then (db, .invalidName)
  else if lower req.type = "oauth".toList then
    match req.oauth with
    | .noChallenge => (db, .noChallenge)
    | .noProvider => (db, .noSuchProvider)
    | .asked => (db, .pending)
    | .invalid => (db, .invalidCredentialData)
    | .identity provider subject => enrolOauth db accountId req.name provider subject
  else
    match req.data with
    | none => (db, .invalidCredentialData)
    | some data =>
      if lower req.type = "webauthn".toList then
        match req.webauthn with
        | none => (db, .invalidCredentialData)
        | some cred =>
          db.enrol accountId req.name (.webauthn { cred with userHandle := userHandle accountId })
      else if lower req.type = "external".toList then
        match normaliseFingerprint data with
        | none => (db, .invalidCredentialData)
        | some fingerprint => db.enrol accountId req.name (.external fingerprint)
      else if lower req.type = "totp".toList then
        match req.totp with
        | none => (db, .invalidCredentialData)
        | some secret => db.enrol accountId req.name (.totp secret)
      else (db, .invalidType)

/-- `twofa_cmd_remove` with the parsed id of a credential. -/
def twofaCmdRemove (db : Store) (acc : Account) (credId : ℕ) : Store :=
  if acc.twofaEnabled ∧ db.countCredentials acc.id ≤ 1 then db else db.deleteCredential acc.id credId

/-- The end of `webauthn_verify_assertion`, where `signed` tells whether the signature fits the key of
the row: the account, and the new counter of the row. -/
def webauthnVerifyAssertion (db : Store) (hint : Option ℕ) (credentialId userHandle : List Char)
    (signCount : ℕ) (signed : List Char → List Char → Bool) : Store × Option ℕ :=
  match db.webauthnRow hint credentialId userHandle with
  | none => (db, none)
  | some r =>
    match r.secret with
    | .webauthn c =>
      if signed c.x c.y = false then (db, none)
      else if 0 < c.counter ∧ signCount ≠ 0 ∧ signCount ≤ c.counter then (db, none)
      else (if 0 < signCount then db.setCounter r.id signCount else db, some r.accountId)
    | _ => (db, none)

/-- What happens to the table. The lookups of `EXTERNAL` and of OAuth logins do not change it. -/
inductive Event
  | add (accountId : ℕ) (req : AddRequest)
  | oauthCallback (accountId : ℕ) (name provider subject : List Char)
  | remove (acc : Account) (credId : ℕ)
  | loginExternal (fp : List Char)
  | loginOauth (provider subject : List Char)
  | loginWebauthn (hint : Option ℕ) (credentialId userHandle : List Char) (signCount : ℕ)
      (signed : List Char → List Char → Bool)

def Store.step (userHandle : ℕ → List Char) (db : Store) : Event → Store
  | .add accountId req => (twofaCmdAdd userHandle db accountId req).1
  | .oauthCallback accountId name provider subject =>
    (enrolOauth db accountId name provider subject).1
  | .remove acc credId => twofaCmdRemove db acc credId
  | .loginExternal _ | .loginOauth _ _ => db
  | .loginWebauthn hint credentialId userHandle signCount signed =>
    (webauthnVerifyAssertion db hint credentialId userHandle signCount signed).1

/-! ## Identities -/

/-- An identity outside the server. -/
inductive Identity
  | external (fp : List Char)
  | oauth (provider subject : List Char)
  | webauthn (credentialId : List Char)
deriving DecidableEq, Repr

def Secret.identity : Secret → Option Identity
  | .totp _ => none
  | .external fingerprint => some (.external (lower fingerprint))
  | .oauth provider subject => some (.oauth provider subject)
  | .webauthn c => some (.webauthn c.credentialId)

def Enrolled (db : Store) (accountId : ℕ) (i : Identity) : Prop :=
  ∃ r ∈ db.rows, r.accountId = accountId ∧ r.secret.identity = some i

def Unique (db : Store) : Prop :=
  ∀ i a b, Enrolled db a i → Enrolled db b i → a = b

/-- A lookup reaches an account that has enrolled the identity, and that no other account has. -/
def Reaches (db : Store) (reached : Option ℕ) (i : Identity) : Prop :=
  ∀ a, reached = some a → Enrolled db a i ∧ ∀ b, Enrolled db b i → a = b

/-- The provider names of a configuration can be told from the subject that follows them. -/
def NoSep (providers : List (List Char)) : Prop := ∀ p ∈ providers, oauthCredSep ∉ p

def Configured (providers : List (List Char)) (db : Store) : Prop :=
  ∀ r ∈ db.rows, ∀ p s, r.secret = .oauth p s → p ∈ providers

/-- What the table promises in every state: identities are unique, and the lookups of the three
mechanisms reach the account that has enrolled what is presented. -/
structure Good (providers : List (List Char)) (db : Store) : Prop where
  unique : Unique db
  external : ∀ fp, Reaches db ((db.externalAccount fp).map Account.id) (.external (lower fp))
  oauth : ∀ p ∈ providers, ∀ s, Reaches db (db.oauthLookupAccountByCredential p s) (.oauth p s)
  webauthn : ∀ hint credentialId userHandle,
    Reaches db ((db.webauthnRow hint credentialId userHandle).map Row.accountId)
      (.webauthn credentialId)

theorem oauthMakeCredSecret_inj {p p' s s' : List Char} (hp : oauthCredSep ∉ p)
    (hp' : oauthCredSep ∉ p') (h : oauthMakeCredSecret p s = oauthMakeCredSecret p' s') :
    p = p' ∧ s = s' := by
  induction p generalizing p' with
  | nil =>
    rcases p' with - | ⟨c, p'⟩
    · exact ⟨rfl, (cons.inj h).2⟩
    · exact absurd ((cons.inj h).1 ▸ mem_cons_self) hp'
  | cons c p ih =>
    rcases p' with - | ⟨c', p'⟩
    · exact absurd ((cons.inj h).1 ▸ mem_cons_self) hp
    obtain ⟨rfl, htail⟩ := cons.inj h
    obtain ⟨rfl, rfl⟩ := ih (fun hm => hp (mem_cons_of_mem _ hm))
      (fun hm => hp' (mem_cons_of_mem _ hm)) htail
    exact ⟨rfl, rfl⟩

variable {db : Store}

/-- A lookup that takes a row of the identity reaches an account as it should. -/
theorem Unique.reaches (h : Unique db) {reached : Option ℕ} {i : Identity}
    (hrow : ∀ a, reached = some a → Enrolled db a i) : Reaches db reached i :=
  fun a ha => ⟨hrow a ha, fun b hb => h i a b (hrow a ha) hb⟩

variable {providers : List (List Char)}

/-- Without an identity for two accounts, all lookups are right. -/
theorem good_of_unique (hsep : NoSep providers)
    (hconf : Configured providers db) (h : Unique db) : Good providers db := by
  refine ⟨h, fun fp => h.reaches ?_, fun p hp s => h.reaches ?_, fun hint cid uh => h.reaches ?_⟩
  · intro a ha
    obtain ⟨acc, hacc, rfl⟩ := map_eq_some_iff.mp ha
    obtain ⟨found, hfound, hname⟩ := bind_eq_some_iff.mp hacc
    obtain ⟨r, hr, hid⟩ := exists_of_findSome?_eq_some hfound
    obtain ⟨hmem, hext⟩ := mem_filter.mp hr
    obtain ⟨hin, hfid⟩ := db.accountById_mem hid
    rw [db.findAccount_of_mem hin] at hname
    obtain rfl := some.inj hname
    refine ⟨r, hmem, hfid.symm, ?_⟩
    unfold Row.isExternal at hext
    split at hext
    · rename_i fingerprint hsecret
      rw [hsecret]
      exact congrArg (fun x => some (Identity.external x)) (of_decide_eq_true hext)
    · simp at hext
  · intro a ha
    obtain ⟨r, hr, rfl⟩ := map_eq_some_iff.mp ha
    have hmem := mem_of_find?_eq_some hr
    have hoauth := find?_some hr
    refine ⟨r, hmem, rfl, ?_⟩
    unfold Row.isOauth at hoauth
    split at hoauth
    · rename_i p' s' hsecret
      obtain ⟨rfl, rfl⟩ := oauthMakeCredSecret_inj (hsep p' (hconf r hmem p' s' hsecret)) (hsep p hp)
        (of_decide_eq_true hoauth)
      rw [hsecret]
      rfl
    · simp at hoauth
  · intro a ha
    obtain ⟨r, hr, rfl⟩ := map_eq_some_iff.mp ha
    have hweb := find?_some hr
    refine ⟨r, mem_of_find?_eq_some hr, rfl, ?_⟩
    unfold Row.isWebauthn at hweb
    split at hweb
    · rename_i c hsecret
      rw [Bool.and_eq_true, decide_eq_true_eq] at hweb
      rw [hsecret]
      exact congrArg (fun x => some (Identity.webauthn x)) hweb.1
    · simp at hweb

/-! ## Steps -/

def enrols : Event → Option (ℕ × Identity)
  | .add accountId req =>
    if twofaValidName req.name = false ∨ lower req.type = "oauth".toList then none
    else
      match req.data with
      | none => none
      | some data =>
        if lower req.type = "webauthn".toList then
          req.webauthn.map fun cred => (accountId, .webauthn cred.credentialId)
        else if lower req.type = "external".toList then
          (normaliseFingerprint data).map fun fingerprint => (accountId, .external (lower fingerprint))
        else none
  | _ => none

/-- The event does not enrol a fingerprint or a WebAuthn credential of another account. -/
def NotForeign (db : Store) (ev : Event) : Prop :=
  ∀ accountId i, enrols ev = some (accountId, i) → ∀ other, Enrolled db other i → other = accountId

def Event.Names (provider : List Char) : Event → Prop
  | .add _ req => ∃ subject, req.oauth = .identity provider subject
  | .oauthCallback _ _ p _ => p = provider
  | _ => False

theorem enrolled_insert {accountId a : ℕ} {name : List Char} {secret : Secret}
    {i : Identity} : Enrolled (db.insertCredential accountId name secret) a i ↔
      Enrolled db a i ∨ (a = accountId ∧ secret.identity = some i) := by
  unfold Enrolled Store.insertCredential
  simp only [mem_append, mem_singleton]
  constructor
  · rintro ⟨r, hr | rfl, ha, hi⟩
    · exact .inl ⟨r, hr, ha, hi⟩
    · exact .inr ⟨ha.symm, hi⟩
  · rintro (⟨r, hr, ha, hi⟩ | ⟨rfl, hi⟩)
    · exact ⟨r, .inl hr, ha, hi⟩
    · exact ⟨_, .inr rfl, rfl, hi⟩

/-- A table with fewer enrolments has no new conflicts. -/
theorem Unique.mono {db' : Store} (h : Unique db)
    (hsub : ∀ a i, Enrolled db' a i → Enrolled db a i) : Unique db' :=
  fun i a b ha hb => h i a b (hsub a i ha) (hsub b i hb)

/-- An insertion keeps the identities unique exactly if no other account has the new one. -/
theorem unique_insert_iff (h : Unique db) (accountId : ℕ) (name : List Char)
    (secret : Secret) : Unique (db.insertCredential accountId name secret) ↔
      ∀ i, secret.identity = some i → ∀ other, Enrolled db other i → other = accountId := by
  constructor
  · intro hnew i hi other hother
    exact hnew i other accountId (enrolled_insert.mpr (.inl hother))
      (enrolled_insert.mpr (.inr ⟨rfl, hi⟩))
  · intro hfresh i a b ha hb
    rcases enrolled_insert.mp ha with ha | ⟨hac, hi⟩ <;>
      rcases enrolled_insert.mp hb with hb | ⟨hbc, hi'⟩
    · exact h i a b ha hb
    · exact (hfresh i hi' a ha).trans hbc.symm
    · exact hac.trans (hfresh i hi b hb).symm
    · exact hac.trans hbc.symm

theorem unique_delete (h : Unique db) (accountId credId : ℕ) :
    Unique (db.deleteCredential accountId credId) := by
  refine h.mono ?_
  rintro a i ⟨r, hr, ha, hi⟩
  exact ⟨r, (mem_filter.mp hr).1, ha, hi⟩

theorem unique_setCounter (h : Unique db) (rowId counter : ℕ) :
    Unique (db.setCounter rowId counter) := by
  refine h.mono ?_
  rintro a i ⟨r, hr, ha, hi⟩
  obtain ⟨r₀, hr₀, rfl⟩ := mem_map.mp hr
  refine ⟨r₀, hr₀, ?_, ?_⟩
  · rw [← ha]
    split_ifs
    · split <;> rfl
    · rfl
  · rw [← hi]
    split_ifs
    · split
      · rename_i c hc
        rw [hc]
        rfl
      · rfl
    · rfl

/-- A row of the OAuth identity is found by the check that comes before an enrolment. -/
theorem isSome_oauthLookup {a : ℕ} {p s : List Char} (h : Enrolled db a (.oauth p s)) :
    (db.oauthLookupAccountByCredential p s).isSome = true := by
  obtain ⟨r, hr, -, hi⟩ := h
  have hsecret : r.secret = .oauth p s := by
    rcases r with ⟨id, accountId, name, secret⟩
    cases secret <;> simp_all [Secret.identity]
  unfold Store.oauthLookupAccountByCredential
  rw [isSome_map, find?_isSome]
  exact ⟨r, hr, by simp [Row.isOauth, hsecret]⟩

inductive Inserts (db : Store) (ev : Event) (accountId : ℕ) : Secret → Prop
  | totp (secretB32 : List Char) : enrols ev = none → Inserts db ev accountId (.totp secretB32)
  | oauth (provider subject : List Char) : enrols ev = none →
      db.oauthLookupAccountByCredential provider subject = none → ev.Names provider →
      Inserts db ev accountId (.oauth provider subject)
  | unchecked (secret : Secret) (i : Identity) : enrols ev = some (accountId, i) →
      secret.identity = some i → (∀ p s, secret ≠ .oauth p s) → Inserts db ev accountId secret

inductive StepTo (db : Store) (ev : Event) : Store → Prop
  | same : enrols ev = none → StepTo db ev db
  | insert (accountId : ℕ) (name : List Char) (secret : Secret) : Inserts db ev accountId secret →
      StepTo db ev (db.insertCredential accountId name secret)
  | delete (accountId credId : ℕ) : enrols ev = none →
      StepTo db ev (db.deleteCredential accountId credId)
  | counter (rowId n : ℕ) : enrols ev = none → StepTo db ev (db.setCounter rowId n)

theorem stepTo_enrolOauth {ev : Event} (he : enrols ev = none) {provider : List Char}
    (hp : ev.Names provider) (accountId : ℕ) (name subject : List Char) :
    StepTo db ev (enrolOauth db accountId name provider subject).1 := by
  unfold enrolOauth
  rcases hl : db.oauthLookupAccountByCredential provider subject with - | existing
  · exact .insert _ _ _ (.oauth _ _ he hl hp)
  · exact .same he

variable (userHandle : ℕ → List Char)

theorem stepTo_twofaCmdAdd (db : Store) (a : ℕ) (req : AddRequest) :
    StepTo db (.add a req) (twofaCmdAdd userHandle db a req).1 := by
  unfold twofaCmdAdd
  by_cases hname : twofaValidName req.name = false
  · rw [if_pos hname]
    exact .same (if_pos (.inl hname))
  rw [if_neg hname]
  by_cases hoauth : lower req.type = "oauth".toList
  · have he : enrols (.add a req) = none := if_pos (.inr hoauth)
    rw [if_pos hoauth]
    rcases hreq : req.oauth with - | - | - | - | ⟨p, s⟩
    any_goals exact .same he
    · exact stepTo_enrolOauth he ⟨s, hreq⟩ a req.name s
  rw [if_neg hoauth]
  have he : enrols (.add a req) = _ := if_neg (not_or.mpr ⟨hname, hoauth⟩)
  rcases hdata : req.data with - | data
  · rw [hdata] at he
    exact .same he
  simp only [hdata] at he ⊢
  by_cases hweb : lower req.type = "webauthn".toList
  · rw [if_pos hweb] at he ⊢
    rcases hcred : req.webauthn with - | cred
    · rw [hcred] at he
      exact .same he
    · rw [hcred] at he
      exact .insert _ _ _ (.unchecked _ _ he rfl (by simp))
  rw [if_neg hweb] at he ⊢
  by_cases hext : lower req.type = "external".toList
  · rw [if_pos hext] at he ⊢
    rcases hfp : normaliseFingerprint data with - | fingerprint
    · rw [hfp] at he
      exact .same he
    · rw [hfp] at he
      exact .insert _ _ _ (.unchecked _ _ he rfl (by simp))
  rw [if_neg hext] at he ⊢
  split
  · split
    · exact .same he
    · exact .insert _ _ _ (.totp _ he)
  · exact .same he

theorem stepTo_step (db : Store) (ev : Event) : StepTo db ev (db.step userHandle ev) := by
  rcases ev with ⟨a, req⟩ | ⟨a, name, p, s⟩ | ⟨acc, credId⟩ | fp | ⟨p, s⟩ | ⟨hint, cid, uh, n, signed⟩
  · exact stepTo_twofaCmdAdd userHandle db a req
  · have hnames : (Event.oauthCallback a name p s).Names p := rfl
    exact stepTo_enrolOauth rfl hnames a name s
  · show StepTo db _ (twofaCmdRemove db acc credId)
    unfold twofaCmdRemove
    split
    · exact .same rfl
    · exact .delete _ _ rfl
  · exact .same rfl
  · exact .same rfl
  · show StepTo db _ (webauthnVerifyAssertion db hint cid uh n signed).1
    unfold webauthnVerifyAssertion
    split
    · exact .same rfl
    split
    · split
      · exact .same rfl
      split
      · exact .same rfl
      split
      · exact .counter _ _ rfl
      · exact .same rfl
    · exact .same rfl

/-- A step keeps the identities unique exactly if it does not enrol one of another account. -/
theorem unique_step_iff (h : Unique db) (ev : Event) :
    Unique (db.step userHandle ev) ↔ NotForeign db ev := by
  have hnone : enrols ev = none → NotForeign db ev := fun he a i hi => absurd hi (by simp [he])
  have hstep := stepTo_step userHandle db ev
  generalize db.step userHandle ev = db' at hstep ⊢
  cases hstep with
  | same he => exact iff_of_true h (hnone he)
  | delete a c he => exact iff_of_true (unique_delete h a c) (hnone he)
  | counter r n he => exact iff_of_true (unique_setCounter h r n) (hnone he)
  | insert a name secret hins =>
    rw [unique_insert_iff h]
    cases hins with
    | totp x he => exact iff_of_true (fun i hi => absurd hi (by simp [Secret.identity])) (hnone he)
    | oauth p s he hlookup =>
      refine iff_of_true (fun i hi other hother => ?_) (hnone he)
      obtain rfl := some.inj hi
      have hsome := isSome_oauthLookup hother
      rw [hlookup] at hsome
      simp at hsome
    | unchecked _ i he hi =>
      unfold NotForeign
      simp [he, hi]

theorem configured_step
    (h : Configured providers db) {ev : Event} (hev : ∀ p, ev.Names p → p ∈ providers) :
    Configured providers (db.step userHandle ev) := by
  have hstep := stepTo_step userHandle db ev
  generalize db.step userHandle ev = db' at hstep ⊢
  cases hstep with
  | same _ => exact h
  | delete a c _ => exact fun r hr => h r (mem_filter.mp hr).1
  | counter rowId n _ =>
    intro r hr p s hsecret
    obtain ⟨r₀, hr₀, rfl⟩ := mem_map.mp hr
    refine h r₀ hr₀ p s ?_
    split_ifs at hsecret
    · split at hsecret
      · simp at hsecret
      · exact hsecret
    · exact hsecret
  | insert a name secret hins =>
    intro r hr p s hsecret
    rcases mem_append.mp hr with hr | hr
    · exact h r hr p s hsecret
    obtain rfl := mem_singleton.mp hr
    obtain rfl : secret = .oauth p s := hsecret
    cases hins with
    | oauth _ _ _ _ hp => exact hev p hp
    | unchecked _ _ _ _ hno => exact absurd rfl (hno p s)

/-! ## Runs -/

/-- Every state of a run satisfies `P`. -/
def Always (userHandle : ℕ → List Char) (P : Store → Prop) : Store → List Event → Prop
  | db, [] => P db
  | db, ev :: evs => P db ∧ Always userHandle P (db.step userHandle ev) evs

/-- No event of a run enrols a fingerprint or a WebAuthn credential of another account. -/
def NeverForeign (userHandle : ℕ → List Char) : Store → List Event → Prop
  | _, [] => True
  | db, ev :: evs => NotForeign db ev ∧ NeverForeign userHandle (db.step userHandle ev) evs

/-- In every state of a run identities are unique and the lookups right, if and only if no event enrols
a fingerprint or a WebAuthn credential that another account has enrolled. -/
theorem always_good_iff (userHandle : ℕ → List Char) (providers : List (List Char))
    (hsep : NoSep providers) (db : Store) (hconf : Configured providers db) (hunique : Unique db)
    (evs : List Event) (hevs : ∀ ev ∈ evs, ∀ p, ev.Names p → p ∈ providers) :
    Always userHandle (Good providers) db evs ↔ NeverForeign userHandle db evs := by
  induction evs generalizing db with
  | nil => exact iff_of_true (good_of_unique hsep hconf hunique) trivial
  | cons ev evs ih =>
    have hconf' := configured_step userHandle hconf (hevs ev mem_cons_self)
    have hgood := good_of_unique hsep hconf hunique
    have hrest : ∀ e ∈ evs, ∀ p, e.Names p → p ∈ providers :=
      fun e he => hevs e (mem_cons_of_mem ev he)
    unfold Always NeverForeign
    rw [← unique_step_iff userHandle hunique ev]
    constructor
    · rintro ⟨-, hall⟩
      have hnext : Unique (db.step userHandle ev) := by
        rcases evs with - | ⟨e, evs⟩
        · exact hall.unique
        · exact hall.1.unique
      exact ⟨hnext, (ih _ hconf' hnext hrest).mp hall⟩
    · rintro ⟨hnext, hnever⟩
      exact ⟨hgood, (ih _ hconf' hnext hrest).mpr hnever⟩

def twoAccounts : Store where
  accounts := [{ id := 1, name := "alice".toList }, { id := 2, name := "bob".toList }]
  rows := []
  nextId := 1
  ids_nodup := by decide
  names_nodup := by decide

/-- `2FA ADD external laptop` with a fingerprint of 64 zeros. -/
def addCert : AddRequest :=
  ⟨"external".toList, "laptop".toList, some (List.replicate 64 '0'), .noChallenge, none, none⟩

/-- One account enrols its certificate twice. -/
theorem always_good_iff_alice :
    Always (fun _ => []) (Good []) twoAccounts [.add 1 addCert, .add 1 addCert] := by
  have hnone : ∀ a i, ¬Enrolled twoAccounts a i := fun a i ⟨r, hr, _⟩ => not_mem_nil hr
  have hnames : ∀ p, ¬(Event.add 1 addCert).Names p := fun p ⟨s, hs⟩ => OauthEnrolment.noConfusion hs
  refine (always_good_iff _ [] (forall_mem_nil _) twoAccounts
    (forall_mem_nil _) (fun i a b ha => absurd ha (hnone a i)) _ ?_).mpr
    ⟨fun a i _ other hother => absurd hother (hnone other i), ?_, trivial⟩
  · intro ev hev p hp
    rcases mem_pair.mp hev with rfl | rfl <;> exact absurd hp (hnames p)
  · rintro a i hi other hother
    obtain ⟨rfl, rfl⟩ := Prod.mk.inj (some.inj hi)
    obtain ⟨r, hr, rfl, -⟩ := hother
    have hrow : r ∈ [(⟨1, 1, "laptop".toList, .external (replicate 64 '0')⟩ : Row)] := hr
    rw [mem_singleton.mp hrow]

/-- Two accounts enrol the same certificate, and both have it. -/
theorem cert_enrolled_twice :
    ¬Always (fun _ => []) (Good []) twoAccounts [.add 1 addCert, .add 2 addCert] := by
  rintro ⟨-, -, hgood⟩
  have hboth := hgood.unique (.external (replicate 64 '0')) 1 2
    ⟨⟨1, 1, "laptop".toList, .external (replicate 64 '0')⟩, by decide, rfl, rfl⟩
    ⟨⟨2, 2, "laptop".toList, .external (replicate 64 '0')⟩, by decide, rfl, rfl⟩
  exact absurd hboth (by decide)

end ObbyIRCd.Sasl
