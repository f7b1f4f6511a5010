import ObbyIRCd.Sasl.Exchange

/-!
# What a message can do to a connection

`Move` lists what `authenticate_attempt` can do, on the fields that several mechanisms share (`Core`),
and `moves_authenticateAttempt` says that its handlers do nothing else: one lemma per handler. What holds
of all moves holds of all mechanisms. `First` and `Second` are the two ways in which a verified factor
is used. The account of a SCRAM exchange, which is kept between its messages, comes from the table
(`scram_step`).
-/

namespace ObbyIRCd.Sasl

open Option

/-! ## What a message can do -/

/-- The fields that several mechanisms share. -/
structure Core where
  account : List Char
  saslType : Option SaslType
  stepup : Option Stepup
  pending : List Pending

/-- The shared fields of a connection. -/
def Conn.core (c : Conn) : Core := ⟨c.account, c.saslType, c.stepup, c.pending⟩

variable (db : Store)

/-- A second factor is asked for when the first one is `f`. -/
def Starts (acc : Account) (f : Factor) : Prop :=
  acc.twofaEnabled = true ∧ 0 < db.countCredentials acc.id ∧
    0 < db.countCredentialsExcluding acc.id f

def HasCred (acc : Account) (t : CredType) : Prop :=
  ∃ r ∈ db.rows, r.accountId = acc.id ∧ r.secret.type = t

/-- A message of a step-up that gives it up or chooses a mechanism. -/
def RestartsStepup (param : List Char) : Prop :=
  param = ['*'] ∨ lower param = "totp".toList ∨ lower param = "ircv3bearer".toList

inductive First (db : Store) (acc : Account) (f : Factor) (c c' : Conn) (notes : List Note) : Prop
  | stepup (hstart : Starts db acc f) (hc : c'.core = { c.core with
        saslType := c'.saslType
        stepup := some ⟨cutAccount acc.name, f⟩ })
      (hn : notes = [.verified f acc.name, .twofaRequired])
  | login (hstart : ¬Starts db acc f)
      (hc : c'.core = { c.core with account := cutAccount acc.name, saslType := none })
      (hn : notes = [.verified f acc.name, .login (cutAccount acc.name) (.first f), .saslSuccess])

/-- A second factor of the account `account` is verified. -/
def Second (account : List Char) (t : CredType) (c c' : Conn) (notes : List Note) : Prop :=
  ∃ acc, db.findAccount account = some acc ∧ HasCred db acc t ∧
    c'.core = { c.core with account := cutAccount acc.name, saslType := none, stepup := none } ∧
    notes = [.verified (.cred t) acc.name, .login (cutAccount acc.name) (.second t), .saslSuccess]

/-- What a message `AUTHENTICATE` can do. -/
inductive Move (w : World) (c : Conn) (param : List Char) (c' : Conn) (notes : List Note) : Prop
  | stays (hc : c'.core = c.core) (hn : notes = [])
  | aborts (hp : param = ['*']) (hc : c'.core = { c.core with saslType := none, stepup := none })
      (hn : notes = [.stopped] ∨ notes = [.saslAborted])
  | selects (t : SaslType) (hs : c.stepup = none) (ht : t ≠ .totpStepup ∧ t ≠ .oauthStepup)
      (hc : c'.core = { c.core with saslType := some t }) (hn : notes = [.plus])
  | selectsTotp (s : Stepup) (hs : c.stepup = some s)
      (hc : c'.core = { c.core with saslType := some .totpStepup }) (hn : notes = [.plus])
  | selectsOauth (s : Stepup) (hs : c.stepup = some s) (hf : s.primaryFactor ≠ .cred .oauth)
      (hc : c'.core = { c.core with saslType := some .oauthStepup }) (hn : notes = [.plus])
  | fails (hc : c'.core = { c.core with saslType := none, stepup := none }) (hn : notes = [.saslFail])
  /-- The provider of a step-up cannot be asked. -/
  | refused (ht : c.saslType = some .oauthStepup) (hc : c'.core = c.core) (hn : notes = [.saslFail])
  | anonymous (hs : c.stepup = none) (hc : c'.core = { c.core with account := ['0'], saslType := none })
      (hn : notes = [.login ['0'] .anonymous, .saslSuccess])
  | first (acc : Account) (f : Factor) (hs : c.stepup = none)
      (ht : c'.saslType = none ∨ c'.saslType = some .plain ∨ c'.saslType = some .external)
      (hf : f ≠ .cred .totp) (hacc : acc ∈ w.db.accounts ∨ c.scram = some acc)
      (h : First w.db acc f c c' notes)
  | webauthn (acc : Account) (hint : List Char) (hs : c.stepup = none)
      (ht : c.saslType = some .webauthnBio) (hacc : w.assertionAccount hint param = some acc)
      (hc : c'.core = { c.core with account := cutAccount acc.name, saslType := none })
      (hn : notes = [.verified (.cred .webauthn) acc.name,
        .login (cutAccount acc.name) (.first (.cred .webauthn)), .saslSuccess])
  | asks (provider : List Char) (hs : c.stepup = none)
      (ht : c.saslType = some .oauthbearer ∨ c.saslType = some .ircv3bearer)
      (hc : c'.core = { c.core with saslType := none, pending := c.pending ++ [⟨.login, provider⟩] })
      (hn : notes = [.asked])
  | asksSecond (s : Stepup) (provider : List Char) (hs : c.stepup = some s)
      (ht : c.saslType = some .oauthStepup) (hp : ¬RestartsStepup param)
      (hc : c'.core = { c.core with pending := c.pending ++ [⟨.stepup s.account, provider⟩] })
      (hn : notes = [.asked])
  | second (s : Stepup) (t : CredType) (hs : c.stepup = some s)
      (ht : t = .totp ∨ t = .oauth ∧ c.saslType = some .oauthStepup)
      (h : Second w.db s.account t c c' notes)

theorem first_firstFactor (acc : Account) (f : Factor) (c : Conn) :
    First db acc f c (firstFactor db acc f c).1 (firstFactor db acc f c).2 ∧
      ((firstFactor db acc f c).1.saslType = none ∨ (firstFactor db acc f c).1.saslType = c.saslType) ∧
      (firstFactor db acc f c).1.scram = c.scram := by
  by_cases hstart : Starts db acc f
  · have heq : twofaMaybeStartStepup db acc f c =
        some { c with stepup := some ⟨cutAccount acc.name, f⟩ } := if_pos hstart
    unfold firstFactor
    rw [heq]
    exact ⟨.stepup hstart rfl rfl, .inr rfl, rfl⟩
  · have heq : twofaMaybeStartStepup db acc f c = none := if_neg hstart
    unfold firstFactor
    rw [heq]
    exact ⟨.login hstart rfl rfl, .inl rfl, rfl⟩

variable {acc : Account} {w : World}

variable {db : Store}

theorem First.del {f : Factor} {c c' c'' : Conn} {notes : List Note}
    (h : First db acc f c c' notes) (hc : c''.core = { c'.core with saslType := none }) :
    First db acc f c c'' notes := by
  have hnone : c''.saslType = none := congrArg Core.saslType hc
  cases h with
  | stepup hstart hc' hn =>
    refine .stepup hstart ?_ hn
    rw [hc, hc', hnone]
  | login hstart hc' hn =>
    refine .login hstart ?_ hn
    rw [hc, hc']

theorem mem_of_findAccount {name : List Char}
    (h : db.findAccount name = some acc) : acc ∈ db.accounts :=
  Keyed.mem_of_find (fun acc : Account => lower acc.name) h

theorem mem_of_externalAccount {fp : List Char}
    (h : db.externalAccount fp = some acc) : acc ∈ db.accounts := by
  obtain ⟨found, -, hfound⟩ := bind_eq_some_iff.mp h
  exact mem_of_findAccount hfound

/-- `oauth_complete_login` fails, or verifies a first factor. -/
theorem oauthCompleteLogin_cases (w : World) (provider subject : List Char) (c : Conn) :
    oauthCompleteLogin w provider subject c = (c, [.saslFail]) ∨
      ∃ acc ∈ w.db.accounts, First w.db acc (.cred .oauth) c
        (oauthCompleteLogin w provider subject c).1 (oauthCompleteLogin w provider subject c).2 ∧
        (oauthCompleteLogin w provider subject c).1.saslType = none ∧
        (oauthCompleteLogin w provider subject c).1.scram = c.scram := by
  unfold oauthCompleteLogin
  rcases hacc : (w.db.oauthLookupAccountByCredential provider subject).bind w.db.findAccountById
    with - | acc
  · exact .inl rfl
  obtain ⟨hfirst, -, hscram⟩ := first_firstFactor w.db acc (.cred .oauth) c
  refine .inr ⟨acc, ?_, hfirst.del rfl, rfl, hscram⟩
  obtain ⟨id, -, hid⟩ := bind_eq_some_iff.mp hacc
  obtain ⟨found, -, hfound⟩ := bind_eq_some_iff.mp hid
  exact mem_of_findAccount hfound

theorem oauthAsk_cases (op : OauthOp) (p : OAuthProvider) (c : Conn) :
    oauthAsk op p c = (c, [.saslFail]) ∨
      oauthAsk op p c = ({ c with pending := c.pending ++ [⟨op, p.name⟩] }, [.asked]) := by
  unfold oauthAsk
  split
  · exact .inl rfl
  · exact .inr rfl

theorem second_of_boundAccount {account provider subject : List Char}
    (h : w.boundAccount account provider subject = some acc) (c : Conn) :
    Second w.db account .oauth c (secondFactor acc .oauth c).1 (secondFactor acc .oauth c).2 := by
  obtain ⟨hfind, hbound⟩ := filter_eq_some_iff.mp h
  obtain ⟨r, hr, hid⟩ := map_eq_some_iff.mp (of_decide_eq_true hbound)
  have hoauth := List.find?_some hr
  refine ⟨acc, hfind, ⟨r, List.mem_of_find?_eq_some hr, hid, ?_⟩, rfl, rfl⟩
  unfold Row.isOauth at hoauth
  split at hoauth
  · rename_i p s hsecret
    rw [hsecret]
    rfl
  · simp at hoauth

theorem second_of_totpAccount {account param : List Char}
    (h : w.totpAccount account param = some acc) (c : Conn) :
    Second w.db account .totp c (secondFactor acc .totp c).1 (secondFactor acc .totp c).2 := by
  obtain ⟨code, -, hcode⟩ := bind_eq_some_iff.mp h
  obtain ⟨hfind, hverify⟩ := filter_eq_some_iff.mp hcode
  obtain ⟨r, hr, hmatch⟩ := List.any_eq_true.mp hverify
  rw [Bool.and_eq_true, decide_eq_true_eq] at hmatch
  refine ⟨acc, hfind, ⟨r, hr, hmatch.1, ?_⟩, rfl, rfl⟩
  have hsecret := hmatch.2
  split at hsecret
  · rename_i secretB32 hs
    rw [hs]
    rfl
  · simp at hsecret

/-! ## The handlers make moves -/

/-- The answer to a message is a move. Only the first message of a SCRAM exchange sets its account. -/
structure Moves (w : World) (c : Conn) (param : List Char) (r : Conn × List Note) : Prop where
  move : Move w c param r.1 r.2
  scram : ∀ {acc}, r.1.scram = some acc → acc ∈ w.db.accounts ∨ c.scram = some acc

section Moves

variable {w : World} {c : Conn} {param : List Char}

theorem Moves.keeps {r : Conn × List Note} (h : Move w c param r.1 r.2) (hscram : r.1.scram = c.scram) :
    Moves w c param r :=
  ⟨h, fun hacc => .inr (hscram.symm.trans hacc)⟩

theorem moves_saslFails (hs : c.stepup = none) : Moves w c param (saslFails c) :=
  .keeps (.fails (by simp [saslFails, Conn.core, hs]) rfl) rfl

theorem moves_stepupFails : Moves w c param (stepupFails c) := .keeps (.fails rfl rfl) rfl

variable (hs : c.stepup = none)
include hs

theorem moves_selects {t : SaslType}
    (ht : t ≠ .totpStepup ∧ t ≠ .oauthStepup) : Moves w c param (selects t c) :=
  .keeps (.selects t hs ht rfl rfl) rfl

theorem moves_authenticatePlain (ht : c.saslType = some .plain) :
    Moves w c param (authenticatePlain w param c) := by
  unfold authenticatePlain
  split
  · exact moves_saslFails hs
  split
  · exact moves_saslFails hs
  split
  · exact moves_saslFails hs
  rename_i acc hacc
  split
  · obtain ⟨hfirst, htype, hscram⟩ := first_firstFactor w.db acc .password c
    rw [ht] at htype
    exact .keeps (.first acc .password hs (htype.imp_right .inl) (by decide)
      (.inl (mem_of_findAccount hacc)) hfirst) hscram
  · exact moves_saslFails hs

theorem moves_authenticateExternal (ht : c.saslType = some .external) :
    Moves w c param (authenticateExternal w c) := by
  unfold authenticateExternal
  split
  · exact moves_saslFails hs
  split
  · exact moves_saslFails hs
  split
  · exact moves_saslFails hs
  rename_i acc hacc
  obtain ⟨hfirst, htype, hscram⟩ := first_firstFactor w.db acc (.cred .external) c
  rw [ht] at htype
  exact .keeps (.first acc (.cred .external) hs (htype.imp_right .inr) (by decide)
    (.inl (mem_of_externalAccount hacc)) hfirst) hscram

theorem moves_scramFail : Moves w c param (scramFail c) :=
  ⟨.fails (by simp [scramFail, Conn.core, hs]) rfl, fun hacc => absurd hacc (by simp [scramFail])⟩

theorem moves_scramHandleClientFirst : Moves w c param (scramHandleClientFirst w param c) := by
  unfold scramHandleClientFirst
  split
  · exact moves_scramFail hs
  rename_i acc hacc
  split
  · exact moves_scramFail hs
  · obtain ⟨name, -, hfind⟩ := bind_eq_some_iff.mp hacc
    exact ⟨.stays rfl rfl, fun h => .inl (some.inj h ▸ mem_of_findAccount hfind)⟩

theorem moves_scramHandleClientFinal {acc : Account} (hacc : c.scram = some acc) :
    Moves w c param (scramHandleClientFinal w acc param c) := by
  unfold scramHandleClientFinal
  split
  · exact moves_scramFail hs
  · exact ⟨.first acc .password hs (.inl rfl) (by decide) (.inr hacc)
      ((first_firstFactor w.db acc .password c).1.del rfl), fun h => absurd h (by simp)⟩

theorem moves_webauthnSaslFail : Moves w c param (webauthnSaslFail c) :=
  .keeps (.fails (by simp [webauthnSaslFail, Conn.core, hs]) rfl) rfl

theorem moves_webauthnSaslHandleHello : Moves w c param (webauthnSaslHandleHello w param c) := by
  unfold webauthnSaslHandleHello
  split
  · exact moves_webauthnSaslFail hs
  · split
    · exact moves_webauthnSaslFail hs
    · exact .keeps (.stays rfl rfl) rfl

theorem moves_webauthnSaslHandleAssertion (ht : c.saslType = some .webauthnBio) (hint : List Char) :
    Moves w c param (webauthnSaslHandleAssertion w hint param c) := by
  unfold webauthnSaslHandleAssertion
  split
  · exact moves_webauthnSaslFail hs
  · rename_i acc hacc
    exact .keeps (.webauthn acc hint hs ht hacc rfl rfl) rfl

omit hs

theorem moves_authenticateBearer (decode : List Char → Bearer) (hs : c.stepup = none)
    (ht : c.saslType = some .oauthbearer ∨ c.saslType = some .ircv3bearer) :
    Moves w c param (authenticateBearer w decode param c) := by
  -- every failure ends in the same connection, as the type is deleted after the dispatch
  have hfail : Moves w c param ({ c with saslType := none, buffer := [] }, [.saslFail]) :=
    .keeps (.fails (by simp [Conn.core, hs]) rfl) rfl
  unfold authenticateBearer
  split
  · rename_i full hfull
    show Moves w c param ({ (bearerDispatch w (decode full) c).1 with saslType := none, buffer := [] },
      (bearerDispatch w (decode full) c).2)
    unfold bearerDispatch
    split
    · exact hfail
    · split
      · exact hfail
      rename_i p hp
      rcases oauthAsk_cases .login p c with heq | heq
      · rw [heq]
        exact hfail
      · rw [heq]
        exact .keeps (.asks p.name hs ht rfl rfl) rfl
    · exact hfail
    · rename_i provider subject hpayload
      rcases oauthCompleteLogin_cases w provider subject c with heq | ⟨acc, hacc, hfirst, -, hscram⟩
      · rw [heq]
        exact hfail
      · exact .keeps (.first acc (.cred .oauth) hs (.inl rfl) (by decide) (.inl hacc)
          (hfirst.del rfl)) hscram
  · exact .keeps (.stays rfl rfl) rfl

theorem moves_authenticateStep (hs : c.stepup = none) :
    Moves w c param (authenticateStep w param c) := by
  unfold authenticateStep
  split
  · rename_i ht
    exact moves_authenticateBearer w.oauthbearer hs (.inl ht)
  · rename_i ht
    exact moves_authenticateBearer w.ircv3bearer hs (.inr ht)
  · rename_i ht
    exact moves_authenticateExternal hs ht
  · rename_i ht
    split
    · exact moves_saslFails hs
    · split
      · exact moves_webauthnSaslHandleHello hs
      · exact moves_webauthnSaslHandleAssertion hs ht _
  · split
    · exact moves_scramHandleClientFirst hs
    · rename_i acc hacc
      exact moves_scramHandleClientFinal hs hacc
  · rename_i ht
    exact moves_authenticatePlain hs ht
  all_goals exact .keeps (.stays rfl rfl) rfl

theorem moves_twofaHandleStepupOauth {s : Stepup} (hs : c.stepup = some s)
    (ht : c.saslType = some .oauthStepup) (hp : ¬RestartsStepup param) (payload : Bearer) :
    Moves w c param ({ (twofaHandleStepupOauth w s payload c).1 with buffer := [] },
      (twofaHandleStepupOauth w s payload c).2) := by
  have hfail : Moves w c param ({ (stepupFails c).1 with buffer := [] }, (stepupFails c).2) :=
    .keeps (.fails rfl rfl) rfl
  unfold twofaHandleStepupOauth
  split
  · exact hfail
  · split
    · exact hfail
    rename_i p _
    rcases oauthAsk_cases (.stepup s.account) p c with heq | heq
    · rw [heq]
      exact .keeps (.refused ht rfl rfl) rfl
    · rw [heq]
      exact .keeps (.asksSecond s p.name hs ht hp rfl rfl) rfl
  · exact hfail
  · split
    · exact hfail
    · rename_i acc hacc
      exact .keeps (.second s .oauth hs (.inr ⟨rfl, ht⟩) (second_of_boundAccount hacc c)) rfl

theorem moves_twofaHandleStepupAuthenticate {s : Stepup} (hs : c.stepup = some s) :
    Moves w c param (twofaHandleStepupAuthenticate w s param c) := by
  unfold twofaHandleStepupAuthenticate
  split
  · rename_i hstar
    exact .keeps (.aborts hstar rfl (.inr rfl)) rfl
  rename_i hstar
  split
  · exact .keeps (.selectsTotp s hs rfl rfl) rfl
  rename_i htotp
  split
  · split
    · exact moves_stepupFails
    · rename_i hf
      exact .keeps (.selectsOauth s hs hf rfl rfl) rfl
  · rename_i hbearer
    split
    · rename_i ht
      split
      · exact moves_twofaHandleStepupOauth hs ht (not_or.mpr ⟨hstar, not_or.mpr ⟨htotp, hbearer⟩⟩) _
      · exact .keeps (.stays rfl rfl) rfl
    · split
      · exact moves_stepupFails
      split
      · exact moves_stepupFails
      · rename_i acc hacc
        exact .keeps (.second s .totp hs (.inl rfl) (second_of_totpAccount hacc c)) rfl

/-- `authenticate_attempt` does nothing else. -/
theorem moves_authenticateAttempt : Moves w c param (authenticateAttempt w param c) := by
  unfold authenticateAttempt
  split
  · exact .keeps (.stays rfl rfl) rfl
  split
  · rename_i s hs
    exact moves_twofaHandleStepupAuthenticate hs
  rename_i hs
  by_cases hstar : param = ['*']
  · rw [if_pos hstar]
    exact .keeps (.aborts hstar (by simp [Conn.core, hs]) (.inl rfl)) rfl
  rw [if_neg hstar]
  split
  · exact moves_selects hs (by decide)
  split
  · exact .keeps (.anonymous hs rfl rfl) rfl
  split
  · exact moves_selects hs (by decide)
  split
  · split
    · exact .keeps (.selects .webauthnBio hs (by decide) rfl rfl) rfl
    · exact .keeps (.fails (by simp [saslFails, Conn.core, hs]) rfl) rfl
  · split
    · exact ⟨.selects .scramSha256 hs (by decide) rfl rfl, fun h => absurd h (by simp [selects])⟩
    split
    · exact moves_selects hs (by decide)
    · split
      · exact moves_selects hs (by decide)
      · exact moves_authenticateStep hs

end Moves

/-! ## Callbacks -/

/-- What the callback of the request `p` can do, which leaves the requests `rest`. -/
inductive Callback (w : World) (c : Conn) (p : Pending) (rest : List Pending) (c' : Conn)
    (notes : List Note) : Prop
  | error (hc : c'.core = { c.core with pending := rest }) (hn : notes = [.saslFail])
  | first (acc : Account) (hop : p.op = .login) (hacc : acc ∈ w.db.accounts)
      (ht : c'.saslType = none)
      (h : First w.db acc (.cred .oauth) { c with pending := rest } c' notes)
  | mismatch (account : List Char) (hop : p.op = .stepup account)
      (hc : c'.core = { c.core with saslType := none, stepup := none, pending := rest })
      (hn : notes = [.saslFail])
  | second (account : List Char) (hop : p.op = .stepup account)
      (h : Second w.db account .oauth { c with pending := rest } c' notes)

theorem callback_oauthUserinfoCallback {c : Conn} {i : ℕ} {p : Pending}
    (hp : c.pending[i]? = some p) (answer : Option (List Char)) :
    Callback w c p (c.pending.eraseIdx i) (oauthUserinfoCallback w i answer c).1
      (oauthUserinfoCallback w i answer c).2 ∧ (oauthUserinfoCallback w i answer c).1.scram = c.scram := by
  unfold oauthUserinfoCallback
  rw [hp]
  dsimp only
  split
  · rename_i prov subject _ _
    split
    · rename_i hop
      rcases oauthCompleteLogin_cases w prov.name subject { c with pending := c.pending.eraseIdx i }
        with heq | ⟨acc, hacc, hfirst, ht, hscram⟩
      · rw [heq]
        exact ⟨.error rfl rfl, rfl⟩
      · exact ⟨.first acc hop hacc ht hfirst, hscram⟩
    · rename_i account hop
      split
      · exact ⟨.mismatch account hop rfl rfl, rfl⟩
      · rename_i acc hacc
        exact ⟨.second account hop (second_of_boundAccount hacc _), rfl⟩
  · exact ⟨.error rfl rfl, rfl⟩

theorem step_callback_none {c : Conn} {i : ℕ} (h : c.pending[i]? = none)
    (answer : Option (List Char)) : step w (.callback i answer) c = (c, []) := by
  simp [step, oauthUserinfoCallback, h]

/-! ## The account of a SCRAM exchange -/

theorem scram_step {m : Message} {c : Conn}
    (h : (step w m c).1.scram = some acc) : acc ∈ w.db.accounts ∨ c.scram = some acc := by
  cases m with
  | authenticate param => exact moves_authenticateAttempt.scram h
  | identify name password =>
    refine .inr ?_
    rw [← h]
    show c.scram = (cmdIdentify w name password c).1.scram
    unfold cmdIdentify
    split
    · rfl
    · split
      · rfl
      · split <;> rfl
  | callback i answer =>
    rcases hp : c.pending[i]? with - | p
    · rw [step_callback_none hp] at h
      exact .inr h
    · exact .inr ((callback_oauthUserinfoCallback hp answer).2.symm.trans h)

end ObbyIRCd.Sasl
