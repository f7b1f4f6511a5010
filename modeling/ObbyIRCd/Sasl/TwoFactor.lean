import ObbyIRCd.Sasl.Moves

/-!
# Two-factor authentication on a connection

An account needs a second factor after a first one if it has two-factor authentication enabled and a
credential of another type (`Needs`). `NoBypass` reads the notes of a run: wherever an account is set
that needs a second factor, a second factor of another type has been verified after the first one.

PLAIN, EXTERNAL, SCRAM and the bearer mechanisms start a step-up, and what the step-up, its bearer
exchange and the requests made from it know is in `Inv`. `IDENTIFY` and the WebAuthn mechanism set the
account without one, so that `noBypass_run` is about runs in which they are not used for an account that
needs a second factor. Names of accounts are cut when they are copied into a connection; the theorem is
about names that fit.
-/

namespace ObbyIRCd.Sasl

open List Option Conn

/-! ## The property -/

/-- The account needs a second factor after `f`. -/
def Needs (db : Store) (acc : Account) (f : Factor) : Prop :=
  acc.twofaEnabled = true ∧ ∃ t, HasCred db acc t ∧ Factor.cred t ≠ f

/-- A second factor of the account has been verified after `f`, and is of another type. -/
def SecondFactor (db : Store) (log : List Note) (acc : Account) (f : Factor) : Prop :=
  ∃ t, Factor.cred t ≠ f ∧ HasCred db acc t ∧ ∃ before after,
    log = before ++ .verified f acc.name :: after ∧ .verified (.cred t) acc.name ∈ after

/-- After these notes the account with the given name may be set. -/
def Justified (db : Store) (log : List Note) (name : List Char) (via : Via) : Prop :=
  ∀ acc, db.findAccount name = some acc →
    match via with
    | .anonymous => False
    | .first f => Needs db acc f → SecondFactor db log acc f
    | .second _ => ∃ f, SecondFactor db log acc f

/-- Two-factor authentication is not bypassed. -/
def NoBypass (db : Store) (log : List Note) : Prop :=
  ∀ before name via after, log = before ++ .login name via :: after → Justified db before name via

def Note.setAccount (account : List Char) : Note → List Char
  | .login name _ => name
  | _ => account

def lastAccount (log : List Note) : List Char := log.foldl Note.setAccount ['0']

/-- Messages with what their handlers find, and the connection and the notes after them. -/
def runLog (evs : List (World × Message)) (s : Conn × List Note) : Conn × List Note :=
  evs.foldl (fun s ev => ((step ev.1 ev.2 s.1).1, s.2 ++ (step ev.1 ev.2 s.1).2)) s

/-- Names fit into a connection, and none is the name of nobody. -/
structure FitNames (db : Store) : Prop where
  length_le : ∀ acc ∈ db.accounts, acc.name.length ≤ accountLen
  zero : db.findAccount ['0'] = none

/-- The tables have the same accounts, with credentials of the same types. -/
structure SameCredentials (db db' : Store) : Prop where
  accounts : db'.accounts = db.accounts
  hasCred : ∀ acc t, HasCred db' acc t ↔ HasCred db acc t

/-- `IDENTIFY` and WebAuthn assertions are not used for an account that needs a second factor. -/
def Complies (db : Store) (w : World) (c : Conn) : Message → Prop
  | .identify accountName password => ∀ acc, db.findAccount accountName = some acc →
      w.verifyPassword acc password = true → ¬Needs db acc .password
  | .authenticate param => c.saslType = some .webauthnBio → ∀ a, w.webauthnAssertion param = some a →
      ∀ r ∈ w.db.rows, ∀ cred, r.secret = .webauthn cred → cred.credentialId = a.credentialId →
      ∀ acc ∈ db.accounts, acc.id = r.accountId → ¬Needs db acc (.cred .webauthn)
  | .callback _ _ => True

def AllComply (db : Store) : Conn → List (World × Message) → Prop
  | _, [] => True
  | c, ev :: evs => Complies db ev.1 c ev.2 ∧ AllComply db (step ev.1 ev.2 c).1 evs

/-! ## Notes -/

variable {db : Store} {log notes : List Note} {f : Factor} {acc : Account}

theorem noBypass_concat {n : Note} (h : NoBypass db log)
    (hn : ∀ name via, n = .login name via → Justified db log name via) :
    NoBypass db (log ++ [n]) := by
  intro before name via after heq
  rcases eq_nil_or_concat after with rfl | ⟨after, last, rfl⟩
  · obtain ⟨rfl, hlast⟩ := append_inj' heq rfl
    exact hn name via (cons.inj hlast).1
  · rw [concat_eq_append, ← cons_append, ← append_assoc] at heq
    exact h before name via after (append_inj' heq rfl).1

/-- The notes are about no login. -/
@[simp]
def Quiet (notes : List Note) : Prop := ∀ name via, .login name via ∉ notes

theorem noBypass_append_of_quiet (h : NoBypass db log) (hq : Quiet notes) :
    NoBypass db (log ++ notes) := by
  induction notes generalizing log with
  | nil => rwa [append_nil]
  | cons n notes ih =>
    rw [append_cons]
    refine ih (noBypass_concat h fun name via hn => ?_) fun name via hm =>
      hq name via (mem_cons_of_mem n hm)
    exact absurd (hn ▸ mem_cons_self) (hq name via)

variable {account : List Char} {tail : List Note}

theorem noBypass_append_login {name : List Char} {via : Via} (h : NoBypass db log)
    (htail : Quiet tail) (hj : Justified db (log ++ [.verified f account]) name via) :
    NoBypass db (log ++ (.verified f account :: .login name via :: tail)) := by
  rw [append_cons, append_cons]
  refine noBypass_append_of_quiet (noBypass_concat (noBypass_concat h (by simp)) ?_) htail
  rintro _ _ ⟨⟩
  exact hj

theorem foldl_setAccount_of_quiet (hq : Quiet notes) (account : List Char) :
    notes.foldl Note.setAccount account = account := by
  induction notes generalizing account with
  | nil => rfl
  | cons n notes ih =>
    have hn : n.setAccount account = account := by
      cases n with
      | login name via => exact absurd mem_cons_self (hq name via)
      | _ => rfl
    rw [foldl_cons, hn]
    exact ih (fun name via hm => hq name via (mem_cons_of_mem n hm)) account

theorem lastAccount_append_of_quiet (hq : Quiet notes) :
    lastAccount (log ++ notes) = lastAccount log := by
  rw [lastAccount, foldl_append]
  exact foldl_setAccount_of_quiet hq _

theorem lastAccount_append_login {name : List Char} {via : Via} (htail : Quiet tail) :
    lastAccount (log ++ (.verified f account :: .login name via :: tail)) = name := by
  rw [lastAccount, foldl_append]
  exact foldl_setAccount_of_quiet htail name

/-! ## Accounts -/

theorem starts_iff_needs : Starts db acc f ↔ Needs db acc f := by
  unfold Starts Needs HasCred Store.countCredentials Store.countCredentialsExcluding
  rw [countP_pos_iff, countP_pos_iff]
  constructor
  · rintro ⟨henabled, -, r, hr, hrow⟩
    obtain ⟨hid, hne⟩ := of_decide_eq_true hrow
    exact ⟨henabled, r.secret.type, ⟨r, hr, hid, rfl⟩, hne⟩
  · rintro ⟨henabled, t, ⟨r, hr, hid, rfl⟩, hne⟩
    exact ⟨henabled, ⟨r, hr, decide_eq_true hid⟩, r, hr, decide_eq_true ⟨hid, hne⟩⟩

theorem SameCredentials.needs {db' : Store} (h : SameCredentials db db') :
    Needs db' acc f ↔ Needs db acc f := by
  unfold Needs
  simp only [h.hasCred]

theorem SameCredentials.findAccount {db db' : Store} (h : SameCredentials db db') (name : List Char) :
    db'.findAccount name = db.findAccount name := by
  unfold Store.findAccount
  rw [h.accounts]

theorem FitNames.cutAccount_eq (h : FitNames db)
    (hacc : acc ∈ db.accounts) : cutAccount acc.name = acc.name :=
  take_of_length_le (h.length_le acc hacc)

theorem FitNames.eq_of_find (h : FitNames db) {acc' : Account}
    (hacc : acc ∈ db.accounts) (hfind : db.findAccount (cutAccount acc.name) = some acc') :
    acc' = acc := by
  rw [h.cutAccount_eq hacc, db.findAccount_of_mem hacc] at hfind
  exact (some.inj hfind).symm

theorem secondFactor_append {t : CredType} (hf : .verified f acc.name ∈ log) (ht : HasCred db acc t)
    (hne : Factor.cred t ≠ f) :
    SecondFactor db (log ++ [.verified (.cred t) acc.name]) acc f := by
  obtain ⟨before, after, rfl⟩ := append_of_mem hf
  exact ⟨t, hne, ht, before, after ++ [.verified (.cred t) acc.name], by simp, by simp⟩

variable {w : World}

theorem row_of_assertionAccount {hint param : List Char}
    (h : w.assertionAccount hint param = some acc) :
    acc ∈ w.db.accounts ∧ ∃ a, w.webauthnAssertion param = some a ∧ ∃ r ∈ w.db.rows, ∃ cred,
      r.secret = .webauthn cred ∧ cred.credentialId = a.credentialId ∧ acc.id = r.accountId := by
  obtain ⟨a, ha, hrest⟩ := bind_eq_some_iff.mp h
  obtain ⟨hint', -, hrest⟩ := bind_eq_some_iff.mp hrest
  obtain ⟨id, hid, hfound⟩ := bind_eq_some_iff.mp hrest
  obtain ⟨hmem, rfl⟩ := w.db.accountById_mem hfound
  refine ⟨hmem, a, ha, ?_⟩
  unfold webauthnVerifyAssertion at hid
  split at hid
  · simp at hid
  rename_i r hr
  split at hid
  · rename_i cred hcred
    have hrow := find?_some hr
    unfold Row.isWebauthn at hrow
    rw [hcred] at hrow
    have hcid := of_decide_eq_true (Bool.and_eq_true _ _ ▸ hrow).1
    refine ⟨r, mem_of_find?_eq_some hr, cred, hcred, hcid, ?_⟩
    split at hid
    · simp at hid
    · split at hid
      · simp at hid
      · exact (some.inj hid).symm
  · simp at hid

/-! ## The invariant -/

def Verified (db : Store) (log : List Note) (account : List Char) (f : Factor) : Prop :=
  ∃ acc ∈ db.accounts, acc.name = account ∧ .verified f acc.name ∈ log

/-- What a connection and its notes satisfy. -/
structure Inv (db : Store) (k : Core) (log : List Note) : Prop where
  noBypass : NoBypass db log
  account : k.account = lastAccount log
  /-- The first factor of a step-up has been verified, and is not a code. -/
  stepup : ∀ s, k.stepup = some s →
    Verified db log s.account s.primaryFactor ∧ s.primaryFactor ≠ .cred .totp
  /-- A bearer exchange in a step-up is not for the first factor. -/
  oauth : k.saslType = some .oauthStepup → ∀ s, k.stepup = some s → s.primaryFactor ≠ .cred .oauth
  /-- A request for a second factor is not for the first factor. -/
  pending : ∀ p ∈ k.pending, ∀ account, p.op = .stepup account →
    ∃ f, f ≠ .cred .oauth ∧ Verified db log account f

theorem Verified.append (h : Verified db log account f) (notes : List Note) :
    Verified db (log ++ notes) account f := by
  obtain ⟨acc, hacc, hname, hf⟩ := h
  exact ⟨acc, hacc, hname, mem_append_left _ hf⟩

section Steps

variable {db : Store} {k k' : Core} {log : List Note}

theorem Inv.pending_append (h : Inv db k log) (notes : List Note) {p : Pending} (hp : p ∈ k.pending)
    {account : List Char} (hop : p.op = .stepup account) :
    ∃ f, f ≠ .cred .oauth ∧ Verified db (log ++ notes) account f := by
  obtain ⟨f, hf, hverified⟩ := h.pending p hp account hop
  exact ⟨f, hf, hverified.append notes⟩

theorem Inv.stepup_append (h : Inv db k log) (notes : List Note) {s : Stepup}
    (hs : k.stepup = some s) :
    Verified db (log ++ notes) s.account s.primaryFactor ∧ s.primaryFactor ≠ .cred .totp :=
  ⟨(h.stepup s hs).1.append notes, (h.stepup s hs).2⟩

variable {notes : List Note}

theorem Inv.quiet (h : Inv db k log) (hq : Quiet notes)
    (ha : k'.account = k.account) (hs : ∀ s, k'.stepup = some s → k.stepup = some s)
    (ho : k'.saslType = some .oauthStepup → ∀ s, k'.stepup = some s → s.primaryFactor ≠ .cred .oauth)
    (hp : ∀ p ∈ k'.pending, ∀ account, p.op = .stepup account →
      ∃ f, f ≠ .cred .oauth ∧ Verified db log account f) : Inv db k' (log ++ notes) where
  noBypass := noBypass_append_of_quiet h.noBypass hq
  account := by rw [ha, h.account, lastAccount_append_of_quiet hq]
  stepup s hs' := h.stepup_append notes (hs s hs')
  oauth := ho
  pending p hmem account hop := by
    obtain ⟨f, hf, hverified⟩ := hp p hmem account hop
    exact ⟨f, hf, hverified.append notes⟩

variable {acc : Account} {f : Factor} {c : Conn}

variable (hfit : FitNames db)
include hfit

theorem Inv.login_first (h : Inv db k log) (hacc : acc ∈ db.accounts) (hneeds : ¬Needs db acc f)
    (htail : Quiet tail) (hk : k' = { k with account := cutAccount acc.name, saslType := none }) :
    Inv db k' (log ++ (.verified f acc.name :: .login (cutAccount acc.name) (.first f) :: tail)) := by
  subst hk
  refine ⟨noBypass_append_login h.noBypass htail ?_, (lastAccount_append_login htail).symm,
    fun s hs => h.stepup_append _ hs, fun ho => absurd ho (by simp),
    fun p hp account hop => h.pending_append _ hp hop⟩
  intro acc' hfind
  rw [hfit.eq_of_find hacc hfind]
  exact fun hn => absurd hn hneeds

theorem Inv.login_second (h : Inv db k log) {account : List Char} (hf : Verified db log account f)
    (hfind : db.findAccount account = some acc) {t : CredType} (ht : HasCred db acc t)
    (hne : Factor.cred t ≠ f) (htail : Quiet tail)
    (hk : k' = { k with account := cutAccount acc.name, saslType := none, stepup := none }) :
    Inv db k' (log ++
      (.verified (.cred t) acc.name :: .login (cutAccount acc.name) (.second t) :: tail)) := by
  subst hk
  have hacc := mem_of_findAccount hfind
  refine ⟨noBypass_append_login h.noBypass htail ?_, (lastAccount_append_login htail).symm,
    fun s hs => absurd hs (by simp), fun ho => absurd ho (by simp),
    fun p hp account hop => h.pending_append _ hp hop⟩
  intro acc' hfind'
  obtain ⟨first, hfirst, rfl, hverified⟩ := hf
  rw [db.findAccount_of_mem hfirst] at hfind
  obtain rfl := some.inj hfind
  rw [hfit.eq_of_find hacc hfind']
  exact ⟨f, secondFactor_append hverified ht hne⟩

theorem Inv.first {db' : Store} (hsame : SameCredentials db db') {c' : Conn} (h : Inv db c.core log)
    (hacc : acc ∈ db.accounts) (hf : f ≠ .cred .totp) (ht : c'.saslType ≠ some .oauthStepup)
    (hfirst : First db' acc f c c' notes) : Inv db c'.core (log ++ notes) := by
  cases hfirst with
  | stepup _ hc hn =>
    subst hn
    have hq : Quiet [.verified f acc.name, .twofaRequired] := by simp
    refine ⟨noBypass_append_of_quiet h.noBypass hq, ?_, ?_, fun ho => absurd ho ht, ?_⟩
    · rw [hc, lastAccount_append_of_quiet hq]
      exact h.account
    · intro s hs
      rw [hc] at hs
      obtain rfl := some.inj hs
      exact ⟨⟨acc, hacc, (hfit.cutAccount_eq hacc).symm, by simp⟩, hf⟩
    · intro p hp account hop
      rw [hc] at hp
      exact h.pending_append _ hp hop
  | login hstart hc hn =>
    subst hn
    rw [starts_iff_needs, hsame.needs] at hstart
    exact h.login_first hfit hacc hstart (by simp) hc

variable (hsame : SameCredentials db w.db)
include hsame

/-- A message `AUTHENTICATE` that complies. -/
theorem Inv.move {c' : Conn} (hscram : ∀ acc, c.scram = some acc → acc ∈ db.accounts)
    (h : Inv db c.core log) {param : List Char} (hcomply : Complies db w c (.authenticate param))
    (hmove : Move w c param c' notes) : Inv db c'.core (log ++ notes) := by
  cases hmove with
  | stays hc hn | refused _ hc hn =>
    rw [hc, hn]
    exact h.quiet (by simp) rfl (fun s hs => hs) h.oauth h.pending
  | aborts _ hc hn =>
    rw [hc]
    refine h.quiet ?_ rfl (by simp) (by simp) h.pending
    rcases hn with rfl | rfl <;> simp
  | selects t hs ht hc hn =>
    rw [hc, hn]
    refine h.quiet (by simp) rfl (fun s hs => hs) ?_ h.pending
    exact fun ho => absurd (some.inj ho) ht.2
  | selectsTotp s hs hc hn =>
    rw [hc, hn]
    exact h.quiet (by simp) rfl (fun s hs => hs) (by simp) h.pending
  | selectsOauth s hs hf hc hn =>
    rw [hc, hn]
    refine h.quiet (by simp) rfl (fun s hs => hs) (fun _ s' hs' => ?_) h.pending
    obtain rfl := mem_unique hs hs'
    exact hf
  | fails hc hn =>
    rw [hc, hn]
    exact h.quiet (by simp) rfl (by simp) (by simp) h.pending
  | anonymous hs hc hn =>
    subst hn
    rw [hc]
    refine ⟨?_, ?_, fun s hs' => h.stepup_append _ hs', by simp,
      fun p hp account hop => h.pending_append _ hp hop⟩
    · rw [append_cons]
      refine noBypass_append_of_quiet (noBypass_concat h.noBypass ?_) (by simp)
      rintro _ _ ⟨⟩ acc hfind
      simp [hfit.zero] at hfind
    · rw [lastAccount, foldl_append]
      rfl
  | first acc f hs ht hf hacc hfirst =>
    have hmem : acc ∈ db.accounts := by
      rcases hacc with hacc | hacc
      · exact hsame.accounts ▸ hacc
      · exact hscram acc hacc
    refine h.first hfit hsame hmem hf ?_ hfirst
    rcases ht with ht | ht | ht <;> simp [ht]
  | webauthn acc hint hs ht hacc hc hn =>
    subst hn
    obtain ⟨hmem, a, ha, r, hr, cred, hcred, hcid, hid⟩ := row_of_assertionAccount hacc
    rw [hsame.accounts] at hmem
    exact h.login_first hfit hmem (hcomply ht a ha r hr cred hcred hcid acc hmem hid) (by simp) hc
  | asks provider hs ht hc hn =>
    rw [hc, hn]
    refine h.quiet (by simp) rfl (fun s hs => hs) (by simp) fun p hp account hop => ?_
    rcases mem_append.mp hp with hp | hp
    · exact h.pending p hp account hop
    · obtain rfl := mem_singleton.mp hp
      simp at hop
  | asksSecond s provider hs ht _ hc hn =>
    rw [hc, hn]
    refine h.quiet (by simp) rfl (fun s hs => hs) h.oauth fun p hp account hop => ?_
    rcases mem_append.mp hp with hp | hp
    · exact h.pending p hp account hop
    · obtain rfl := mem_singleton.mp hp
      obtain rfl := OauthOp.stepup.inj hop
      exact ⟨s.primaryFactor, h.oauth ht s hs, (h.stepup s hs).1⟩
  | second s t hs ht hsecond =>
    obtain ⟨acc, hfind, hcred, hc, rfl⟩ := hsecond
    rw [hsame.findAccount] at hfind
    have hne : Factor.cred t ≠ s.primaryFactor := by
      rcases ht with rfl | ⟨rfl, ht⟩
      · exact (h.stepup s hs).2.symm
      · exact (h.oauth ht s hs).symm
    exact h.login_second hfit (h.stepup s hs).1 hfind ((hsame.hasCred acc t).mp hcred) hne (by simp) hc

theorem Inv.callback {c' : Conn} (h : Inv db c.core log) {p : Pending} (hp : p ∈ c.pending)
    {rest : List Pending} (hrest : ∀ q ∈ rest, q ∈ c.pending)
    (hcallback : Callback w c p rest c' notes) : Inv db c'.core (log ++ notes) := by
  have hinv : Inv db { c.core with pending := rest } log :=
    ⟨h.noBypass, h.account, h.stepup, h.oauth, fun q hq => h.pending q (hrest q hq)⟩
  cases hcallback with
  | error hc hn =>
    rw [hc, hn]
    exact hinv.quiet (by simp) rfl (fun s hs => hs) hinv.oauth hinv.pending
  | first acc hop hacc ht hfirst =>
    exact Inv.first hfit hsame (c := { c with pending := rest }) hinv (hsame.accounts ▸ hacc)
      (by decide) (by simp [ht]) hfirst
  | mismatch account hop hc hn =>
    rw [hc, hn]
    exact hinv.quiet (by simp) rfl (by simp) (by simp) hinv.pending
  | second account hop hsecond =>
    obtain ⟨acc, hfind, hcred, hc, rfl⟩ := hsecond
    rw [hsame.findAccount] at hfind
    obtain ⟨f, hf, hverified⟩ := h.pending p hp account hop
    exact hinv.login_second hfit hverified hfind ((hsame.hasCred acc .oauth).mp hcred) hf.symm
      (by simp) hc

/-- `IDENTIFY` with a password that is enough. -/
theorem Inv.identify (h : Inv db c.core log) {name password : List Char}
    (hcomply : Complies db w c (.identify name password)) :
    Inv db (cmdIdentify w name password c).1.core (log ++ (cmdIdentify w name password c).2) := by
  have hstays : Inv db c.core (log ++ []) := by rwa [append_nil]
  unfold cmdIdentify
  split
  · exact hstays
  split
  · exact hstays
  rename_i acc hfind
  rw [hsame.findAccount] at hfind
  split
  · rename_i hpass
    exact h.login_first hfit (mem_of_findAccount hfind) (hcomply acc hfind hpass) (by simp) rfl
  · exact hstays

end Steps

/-! ## Runs -/

theorem inv_step (hfit : FitNames db) (hsame : SameCredentials db w.db)
    {c : Conn} {m : Message} (hcomply : Complies db w c m)
    (hscram : ∀ acc, c.scram = some acc → acc ∈ db.accounts) (h : Inv db c.core log) :
    Inv db (step w m c).1.core (log ++ (step w m c).2) := by
  cases m with
  | authenticate param => exact h.move hfit hsame hscram hcomply moves_authenticateAttempt.move
  | identify name password => exact h.identify hfit hsame hcomply
  | callback i answer =>
    rcases hp : c.pending[i]? with - | p
    · rwa [step_callback_none hp, append_nil]
    · exact h.callback hfit hsame (mem_of_getElem? hp)
        (fun q hq => mem_of_mem_eraseIdx hq) (callback_oauthUserinfoCallback hp answer).1

theorem inv_runLog (hfit : FitNames db) (evs : List (World × Message)) (c : Conn) (log : List Note)
    (hsame : ∀ ev ∈ evs, SameCredentials db ev.1.db) (hcomply : AllComply db c evs)
    (hscram : ∀ acc, c.scram = some acc → acc ∈ db.accounts) (h : Inv db c.core log) :
    Inv db (runLog evs (c, log)).1.core (runLog evs (c, log)).2 := by
  induction evs generalizing c log with
  | nil => exact h
  | cons ev evs ih =>
    obtain ⟨hfirst, hrest⟩ := hcomply
    have hev := hsame ev mem_cons_self
    refine ih _ _ (fun e he => hsame e (mem_cons_of_mem ev he)) hrest ?_
      (inv_step hfit hev hfirst hscram h)
    intro acc hacc
    rcases scram_step hacc with hmem | hmem
    · exact hev.accounts ▸ hmem
    · exact hscram acc hmem

/-- In a run in which `IDENTIFY` and WebAuthn assertions are not used for accounts that need a second
factor, an account that needs one is set only after a second factor of another type. -/
theorem noBypass_run (db : Store) (hfit : FitNames db) (evs : List (World × Message))
    (hsame : ∀ ev ∈ evs, SameCredentials db ev.1.db) (hcomply : AllComply db fresh evs) :
    (runLog evs (fresh, [])).1.account = lastAccount (runLog evs (fresh, [])).2 ∧
      NoBypass db (runLog evs (fresh, [])).2 := by
  have hstart : Inv db fresh.core [] := by
    refine ⟨fun before name via after heq => absurd heq (by simp), rfl, ?_, ?_, ?_⟩ <;>
      simp [core, fresh]
  have hinv := inv_runLog hfit evs fresh [] hsame hcomply
    (fun acc hacc => absurd hacc (by simp [fresh])) hstart
  exact ⟨hinv.account, hinv.noBypass⟩

/-- An account with a second factor. -/
def alice : Account where
  id := 1
  name := "alice".toList
  twofaEnabled := true

/-- An account with two-factor authentication and a TOTP credential. -/
def twofaStore : Store where
  accounts := [alice]
  rows := [⟨1, 1, "phone".toList, .totp "JBSWY3DP".toList⟩]
  nextId := 2
  ids_nodup := by decide
  names_nodup := by decide

/-- Every password and every code is right, and there is nothing else to log in with. -/
def twofaWorld : World where
  db := twofaStore
  providers := []
  certfp := none
  refuses _ := false
  decodeAuthenticatePlain _ := some ("alice".toList, "secret".toList)
  verifyPassword _ _ := true
  randBytes := true
  scramParseClientFirst _ := none
  hasScram _ := false
  scramSendB64 := true
  scramProof _ _ := false
  webauthnHello _ := none
  webauthnSendChallenge := true
  webauthnAssertion _ := none
  totpCode code := some code
  totpVerify _ _ := true
  oauthbearer _ := .malformed
  ircv3bearer _ := .malformed

/-- A login with password and code. -/
def plainTotp : List (World × Message) :=
  ["PLAIN", "AGFsaWNlAHNlY3JldA==", "TOTP", "MTIzNDU2"].map
    fun param => (twofaWorld, .authenticate param.toList)

/-- The account is logged in after both factors. -/
theorem noBypass_run_alice : (runLog plainTotp (fresh, [])).1.account = "alice".toList ∧
      NoBypass twofaStore (runLog plainTotp (fresh, [])).2 := by
  have hrun := noBypass_run twofaStore ⟨by decide, by decide⟩ plainTotp ?_ ?_
  · exact ⟨hrun.1.trans (by decide), hrun.2⟩
  · intro ev hev
    obtain ⟨param, -, rfl⟩ := mem_map.mp hev
    exact ⟨rfl, fun acc t => Iff.rfl⟩
  · refine ⟨?_, ?_, ?_, ?_, trivial⟩ <;> exact fun _ a ha => absurd ha (by simp [twofaWorld])

/-- `IDENTIFY` with the password alone. -/
theorem identify_bypasses :
    ¬NoBypass twofaStore (runLog [(twofaWorld, .identify "alice".toList "secret".toList)]
      (fresh, [])).2 := by
  intro h
  have hneeds : Needs twofaStore alice .password :=
    ⟨rfl, .totp, ⟨_, mem_singleton_self _, rfl, rfl⟩, by decide⟩
  obtain ⟨t, -, -, before, after, heq, hmem⟩ :=
    h [.verified .password "alice".toList] "alice".toList (.first .password) [] (by decide)
      alice (by decide) hneeds
  -- the only note before the login is the password
  rcases before with - | ⟨n, before⟩
  · obtain ⟨-, rfl⟩ := cons.inj heq
    simp at hmem
  · obtain ⟨-, hrest⟩ := cons.inj heq
    simp at hrest

end ObbyIRCd.Sasl
