import ObbyIRCd.Recovery.Model

/-!
# What RECOVER tells about an account

The commands of one client are run against two databases. The states of the two runs are kept together
by `Sim`: the same clock, the same log of the connection, and the same answer to the question whether an
account is limited, now and at any later time. The records themselves differ, because a record of an
account without mail expires earlier; `lives` says that it lives as long as its limit.

A step keeps `Sim` whatever it replies (`sim_cmdRecover`), and its two replies are equal exactly in the
cases of `SameReply` (`line_cmdRecover`). The rest is an induction over the commands.
-/

namespace ObbyIRCd.Recovery

open List Option Keyed RecoveryCode Reply

/-! ## Replies -/

/-- An address that `mask_email` replaces as a whole: nothing before the `@`, or no `@`. -/
def Unmaskable (email : List Char) : Prop :=
  email.takeWhile (· ≠ '@') = [] ∨ email.dropWhile (· ≠ '@') = []

instance (email : List Char) : Decidable (Unmaskable email) := by unfold Unmaskable; infer_instance

/-- An address is shown in the same way as no address only if it cannot be masked. -/
theorem maskEmail_eq_iff (email : List Char) : maskEmail email = maskEmail [] ↔ Unmaskable email := by
  unfold maskEmail Unmaskable
  rcases hlocal : email.takeWhile (· ≠ '@') with - | ⟨first, more⟩
  · simp
  rcases hrest : email.dropWhile (· ≠ '@') with - | ⟨c, rest⟩
  · simp
  refine iff_of_false (fun h => ?_) (by simp)
  -- the second character tells the two apart
  have hsecond : (snprintf 128 (first :: "***".toList ++
      (first :: more).getLast (cons_ne_nil _ _) :: c :: rest))[1]? =
      (snprintf 128 registeredAddress)[1]? := congrArg (fun l : List Char => l[1]?) h
  exact absurd (some.inj hsecond) (by decide)

/-- Only an address that cannot be masked looks like none. -/
theorem masked_eq_iff (email : List Char) : masked (some email) = masked none ↔ Unmaskable email :=
  maskEmail_eq_iff email

theorem line_codeSent_eq_iff (me acctname m m' : List Char) :
    (codeSent acctname m).line me = (codeSent acctname m').line me ↔ m = m' := by
  unfold line
  simp only [append_cancel_left_eq, append_cancel_right_eq]

theorem line_mailUnavailable_ne (me acctname m : List Char) :
    mailUnavailable.line me ≠ (codeSent acctname m).line me := by
  unfold line
  simp

/-! ## States -/

/-- What holds of the records in every state. -/
structure Valid (codes : List RecoveryCode) : Prop where
  nodup : (codes.map RecoveryCode.accountLower).Nodup
  /-- A record is kept at least as long as it limits requests. -/
  lives : ∀ r ∈ codes, r.lastRequest + recoveryReqPerAcctMin ≤ r.expiresAt

variable {codes : List RecoveryCode}

theorem Valid.prune (h : Valid codes) (now : ℕ) : Valid (pruneExpiredCodes now codes) :=
  ⟨h.nodup.sublist (filter_sublist.map _), fun r hr => h.lives r (mem_of_mem_filter hr)⟩

theorem acctLimited_prune (h : Valid codes) (acctname : List Char) {now t : ℕ} (ht : now ≤ t) :
    acctLimited (pruneExpiredCodes now codes) acctname t = acctLimited codes acctname t := by
  unfold acctLimited findCodeRecord pruneExpiredCodes
  rw [find_filter_of_nodup _ _ h.nodup]
  rcases hf : find accountLower codes (lower acctname) with - | r
  · rfl
  by_cases hr : now ≤ r.expiresAt
  · rw [filter_some_pos (by simpa using hr)]
  -- the record goes, but it did not limit anything any more
  have hlives := h.lives r (mem_of_find _ hf)
  rw [filter_some_neg (by simpa using hr)]
  rw [eq_comm, decide_eq_false_iff_not]
  omega

variable {assign : RecoveryCode → RecoveryCode}

/-- The records after `upsert_code_record` with assignments that set the time of the request. -/
theorem acctLimited_upsert {now : ℕ} (hkey : ∀ r, (assign r).accountLower = r.accountLower)
    (hlast : ∀ r, (assign r).lastRequest = now) (acctname other : List Char) (t : ℕ) :
    acctLimited (upsertCodeRecord codes acctname assign) other t =
      if lower other = lower acctname then decide (t < now + recoveryReqPerAcctMin)
      else acctLimited codes other t := by
  unfold acctLimited upsertCodeRecord findCodeRecord
  rcases hf : find accountLower codes (lower acctname) with - | r
  · simp only [find_cons, hkey, eq_comm (a := lower acctname)]
    split_ifs <;> simp only [hlast]
  · simp only [find_modify _ hkey, hf]
    split_ifs <;> simp only [map_some, hlast]

theorem Valid.upsert (h : Valid codes) (hkey : ∀ r, (assign r).accountLower = r.accountLower)
    (hlives : ∀ r, (assign r).lastRequest + recoveryReqPerAcctMin ≤ (assign r).expiresAt)
    (acctname : List Char) : Valid (upsertCodeRecord codes acctname assign) := by
  unfold upsertCodeRecord findCodeRecord
  split
  · refine ⟨by rw [map_key_modify _ hkey]; exact h.nodup, fun r hr => ?_⟩
    rcases mem_modify _ hr with hr | ⟨a, -, rfl⟩
    · exact h.lives r hr
    · exact hlives a
  · rename_i hnone
    refine ⟨nodup_cons.mpr ⟨?_, h.nodup⟩, fun r hr => ?_⟩
    · rw [hkey]
      exact (find_eq_none_iff _).mp hnone
    · rcases mem_cons.mp hr with rfl | hr
      · exact hlives _
      · exact h.lives r hr

/-- An attempt with a code changes neither the limit nor the life of a record. -/
theorem acctLimited_useUp (codes : List RecoveryCode) (acctname other : List Char) (t : ℕ) :
    acctLimited (Keyed.modify accountLower (lower acctname) useUp codes) other t =
      acctLimited codes other t := by
  unfold acctLimited findCodeRecord
  rw [find_modify accountLower (f := useUp) fun _ => rfl]
  by_cases hk : lower other = lower acctname
  · rw [if_pos hk, hk]
    rcases find accountLower codes (lower acctname) with - | r <;> rfl
  · rw [if_neg hk]

theorem Valid.useUp {codes : List RecoveryCode} (h : Valid codes) (acctname : List Char) :
    Valid (Keyed.modify accountLower (lower acctname) useUp codes) := by
  refine ⟨?_, fun r hr => ?_⟩
  · rw [map_key_modify accountLower (f := Recovery.useUp) fun _ => rfl]
    exact h.nodup
  · rcases mem_modify _ hr with hr | ⟨a, ha, rfl⟩
    · exact h.lives r hr
    · exact h.lives a ha

/-- The states of the two runs. -/
structure Sim (s t : State) : Prop where
  now : s.now = t.now
  connlog : s.connlog = t.connlog
  left : Valid s.codes
  right : Valid t.codes
  limited : ∀ acctname time, s.now ≤ time →
    acctLimited s.codes acctname time = acctLimited t.codes acctname time

variable {s t : State}

theorem Sim.refl (h : Valid s.codes) : Sim s s := ⟨rfl, rfl, h, h, fun _ _ _ => rfl⟩

theorem Sim.elapse (h : Sim s t) (n : ℕ) :
    Sim { s with now := s.now + n } { t with now := t.now + n } :=
  ⟨congrArg (· + n) h.now, h.connlog, h.left, h.right,
    fun acctname time ht => h.limited acctname time (Nat.le_trans (Nat.le_add_right _ _) ht)⟩

theorem Sim.limited_prune (h : Sim s t) (acctname : List Char) {time : ℕ} (ht : s.now ≤ time) :
    acctLimited (pruneExpiredCodes s.now s.codes) acctname time =
      acctLimited (pruneExpiredCodes t.now t.codes) acctname time := by
  rw [acctLimited_prune h.left acctname ht, acctLimited_prune h.right acctname (h.now ▸ ht),
    h.limited acctname time ht]

theorem Sim.limited_now (h : Sim s t) (acctname : List Char) :
    acctLimited (pruneExpiredCodes t.now t.codes) acctname t.now =
      acctLimited (pruneExpiredCodes s.now s.codes) acctname s.now := by
  rw [h.limited_prune acctname (Nat.le_refl _), h.now]

section

variable {codes' : List RecoveryCode} (h : Sim s t) (hleft : Valid codes) (hright : Valid codes')
  (hlimited : ∀ acctname time, s.now ≤ time →
    acctLimited codes acctname time = acctLimited codes' acctname time)
include h hleft hright hlimited

theorem Sim.setCodes :
    Sim { s with codes := codes } { t with codes := codes' } :=
  ⟨h.now, h.connlog, hleft, hright, hlimited⟩

/-- A request that is not limited leaves both runs in step, whether or not a mail is sent. -/
theorem Sim.upsert {assign' : RecoveryCode → RecoveryCode} (acctname : List Char)
    (hkey : ∀ r, (assign r).accountLower = r.accountLower)
    (hkey' : ∀ r, (assign' r).accountLower = r.accountLower)
    (hlast : ∀ r, (assign r).lastRequest = s.now) (hlast' : ∀ r, (assign' r).lastRequest = t.now)
    (hexpires : ∀ r, s.now + recoveryReqPerAcctMin ≤ (assign r).expiresAt)
    (hexpires' : ∀ r, t.now + recoveryReqPerAcctMin ≤ (assign' r).expiresAt) :
    Sim { s with codes := upsertCodeRecord codes acctname assign }
      { t with codes := upsertCodeRecord codes' acctname assign' } := by
  refine h.setCodes (hleft.upsert hkey (fun r => hlast r ▸ hexpires r) acctname)
    (hright.upsert hkey' (fun r => hlast' r ▸ hexpires' r) acctname) fun other time ht => ?_
  rw [acctLimited_upsert hkey hlast, acctLimited_upsert hkey' hlast', h.now, hlimited other time ht]

end

/-! ## One command -/

/-- When the replies to a request for an account are equal: the account has the same address in both
databases or none in both, or the addresses cannot be masked and it does not come to light whether a
mail is sent. -/
def SameReply (address address' : Option (List Char)) (limited queued : Bool) : Prop :=
  address = address' ∨
    ((∀ email ∈ address, Unmaskable email) ∧ (∀ email ∈ address', Unmaskable email) ∧
      (limited = true ∨ queued = true))

/-- `requestCode` without the records: what is replied. -/
theorem reply_requestCode (db : List Account) (s : State) (acctname : List Char) (ev : Event) :
    (requestCode db s acctname ev).2 =
      if acctLimited (pruneExpiredCodes s.now s.codes) acctname s.now = false ∧
          (mailAddress db acctname).isSome ∧ ev.queued = false
      then .mailUnavailable else .codeSent acctname (masked (mailAddress db acctname)) := by
  rcases hl : acctLimited (pruneExpiredCodes s.now s.codes) acctname s.now <;>
    rcases ha : mailAddress db acctname with - | email <;> rcases hq : ev.queued <;>
      simp [requestCode, hl, ha, hq]

variable {db db' : List Account}

theorem line_requestCode (h : Sim s t) (me acctname : List Char) (ev : Event)
    (hsame : ∀ email email', mailAddress db acctname = some email →
      mailAddress db' acctname = some email' → email = email') :
    (requestCode db s acctname ev).2.line me = (requestCode db' t acctname ev).2.line me ↔
      SameReply (mailAddress db acctname) (mailAddress db' acctname)
        (acctLimited s.codes acctname s.now) ev.queued := by
  rw [reply_requestCode, reply_requestCode, h.limited_now,
    acctLimited_prune h.left acctname (Nat.le_refl _)]
  unfold SameReply
  rcases hd : mailAddress db acctname with - | email <;>
    rcases hd' : mailAddress db' acctname with - | email'
  · simp
  · -- only the second database has an address
    rcases acctLimited s.codes acctname s.now <;> rcases ev.queued <;>
      simp [line_codeSent_eq_iff, masked_eq_iff, eq_comm (a := masked none),
        (line_mailUnavailable_ne me acctname _).symm]
  · -- only the first database has an address
    rcases acctLimited s.codes acctname s.now <;> rcases ev.queued <;>
      simp [line_codeSent_eq_iff, masked_eq_iff, line_mailUnavailable_ne]
  · obtain rfl := hsame email email' hd hd'
    simp

theorem sim_requestCode (db db' : List Account) (h : Sim s t) (acctname : List Char)
    (ev : Event) : Sim (requestCode db s acctname ev).1 (requestCode db' t acctname ev).1 := by
  have hprune : ∀ other time, s.now ≤ time → _ := fun other time ht => h.limited_prune other ht
  have hleft := h.left.prune s.now
  have hright := h.right.prune t.now
  unfold requestCode
  simp only [h.limited_now]
  by_cases hl : acctLimited (pruneExpiredCodes s.now s.codes) acctname s.now = true
  · simp only [if_pos hl]
    exact h.setCodes hleft hright hprune
  · simp only [if_neg hl]
    rcases mailAddress db acctname with - | email <;> rcases mailAddress db' acctname with - | email'
    all_goals
      exact h.upsert hleft hright hprune acctname (fun _ => rfl) (fun _ => rfl) (fun _ => rfl)
        (fun _ => rfl) (fun _ => Nat.add_le_add_left (by decide) _)
        (fun _ => Nat.add_le_add_left (by decide) _)

/-- Whether a command presents the code that is outstanding for the account it names. -/
def presentsCode (s : State) (ev : Event) : Bool :=
  match ev.parv with
  | sub :: acctname :: code :: _ =>
    decide (lower sub = "confirm".toList ∧ acctname ≠ [] ∧ code ≠ []) &&
      codeMatches (pruneExpiredCodes (s.now + ev.elapsed) s.codes) acctname code
  | _ => false

/-- The account that a command asks about: a `REQUEST` that passes the checks of
`cmd_recover_request` that do not look at the account. -/
def asksAbout (s : State) (ev : Event) : Option (List Char) :=
  match ev.parv with
  | sub :: acctname :: _ =>
    if lower sub = "request".toList ∧ acctname ≠ [] ∧
        (connlogCheckAndRecord (s.now + ev.elapsed) s.connlog).1 = true ∧
        ev.emailLoaded = true ∧ ev.databaseOpen = true
    then some acctname else none
  | _ => none

/-- What `asksAbout` says of the command, at the time the command comes in and without its name. -/
def Asks (s : State) (params : List (List Char)) (ev : Event) (acctname : List Char) : Prop :=
  params.head? = some acctname ∧ acctname ≠ [] ∧
    (connlogCheckAndRecord s.now s.connlog).1 = true ∧ ev.emailLoaded = true ∧ ev.databaseOpen = true

/-- When the replies to a command are equal. -/
def SameReplyTo (db db' : List Account) (s : State) (ev : Event) : Prop :=
  ∀ acctname ∈ asksAbout s ev, SameReply (mailAddress db acctname) (mailAddress db' acctname)
    (acctLimited s.codes acctname (s.now + ev.elapsed)) ev.queued

def SameAddresses (db db' : List Account) : Prop :=
  ∀ acctname email email', mailAddress db acctname = some email →
    mailAddress db' acctname = some email' → email = email'

/-- Two runs take a step together: they stay in step, and tell the same under a condition. -/
def StepsAlike (me : List Char) (r r' : State × Reply) (same : Prop) : Prop :=
  Sim r.1 r'.1 ∧ (r.2.line me = r'.2.line me ↔ same)

theorem stepsAlike_refusal (h : Sim s t) (me : List Char) (reply : Reply) {same : Prop}
    (hsame : same) : StepsAlike me (s, reply) (t, reply) same :=
  ⟨h, iff_of_true rfl hsame⟩

theorem step_cmdRecoverRequest (hdb : SameAddresses db db')
    (h : Sim s t) (me : List Char) (params : List (List Char)) (ev : Event) :
    StepsAlike me (cmdRecoverRequest db s params ev) (cmdRecoverRequest db' t params ev)
      (∀ acctname, Asks s params ev acctname →
        SameReply (mailAddress db acctname) (mailAddress db' acctname)
          (acctLimited s.codes acctname s.now) ev.queued) := by
  rcases params with - | ⟨- | ⟨c, name⟩, rest⟩
  any_goals exact stepsAlike_refusal h me _ (by simp [Asks])
  unfold cmdRecoverRequest
  have hlog : connlogCheckAndRecord t.now t.connlog = connlogCheckAndRecord s.now s.connlog := by
    rw [h.now, h.connlog]
  have hsim : Sim { s with connlog := (connlogCheckAndRecord s.now s.connlog).2 }
      { t with connlog := (connlogCheckAndRecord s.now s.connlog).2 } :=
    ⟨h.now, rfl, h.left, h.right, h.limited⟩
  simp only [hlog]
  split_ifs with hlimit hmail hopen
  · exact stepsAlike_refusal hsim me _ (by simp [Asks, hlimit])
  · exact stepsAlike_refusal hsim me _ (by simp [Asks, hmail])
  · exact stepsAlike_refusal hsim me _ (by simp [Asks, hopen])
  · refine ⟨sim_requestCode db db' hsim _ ev, (line_requestCode hsim me _ ev (hdb _)).trans ?_⟩
    simp [Asks, hlimit, hmail, hopen]

theorem step_cmdRecoverConfirm (h : Sim s t) (me : List Char) (params : List (List Char))
    (hs : ∀ acctname code rest, params = acctname :: code :: rest → acctname ≠ [] → code ≠ [] →
      codeMatches (pruneExpiredCodes s.now s.codes) acctname code = false)
    (ht : ∀ acctname code rest, params = acctname :: code :: rest → acctname ≠ [] → code ≠ [] →
      codeMatches (pruneExpiredCodes t.now t.codes) acctname code = false) :
    StepsAlike me (cmdRecoverConfirm s params) (cmdRecoverConfirm t params) True := by
  rcases params with - | ⟨- | ⟨a, acct⟩, - | ⟨- | ⟨c, code⟩, rest⟩⟩
  any_goals exact stepsAlike_refusal h me _ trivial
  · have hs := hs (a :: acct) (c :: code) rest rfl (cons_ne_nil _ _) (cons_ne_nil _ _)
    have ht := ht (a :: acct) (c :: code) rest rfl (cons_ne_nil _ _) (cons_ne_nil _ _)
    unfold cmdRecoverConfirm
    simp only [hs, ht, Bool.false_eq_true, if_false]
    refine stepsAlike_refusal ?_ me _ trivial
    refine h.setCodes ((h.left.prune s.now).useUp _) ((h.right.prune t.now).useUp _) ?_
    intro other time htime
    rw [acctLimited_useUp, acctLimited_useUp, h.limited_prune other htime]

/-- Only a `REQUEST` asks about an account. -/
theorem sameReplyTo_of_not_request (db db' : List Account) (s : State) {ev : Event}
    (h : ∀ sub params, ev.parv = sub :: params → lower sub ≠ "request".toList) :
    SameReplyTo db db' s ev := by
  have hnone : asksAbout s ev = none := by
    unfold asksAbout
    rcases hparv : ev.parv with - | ⟨sub, - | ⟨acctname, rest⟩⟩
    · rfl
    · rfl
    · exact if_neg fun hc => h sub _ hparv hc.1
  intro acctname hacct
  rw [hnone] at hacct
  simp at hacct

/-- The step lemma of the comparison. -/
theorem step_cmdRecover (hdb : SameAddresses db db') (h : Sim s t) (me : List Char) (ev : Event)
    (hs : presentsCode s ev = false) (ht : presentsCode t ev = false) :
    StepsAlike me (cmdRecover db s ev) (cmdRecover db' t ev) (SameReplyTo db db' s ev) := by
  have hsim := h.elapse ev.elapsed
  unfold presentsCode at hs ht
  unfold cmdRecover
  rcases hparv : ev.parv with - | ⟨- | ⟨c, sub⟩, params⟩
  · exact stepsAlike_refusal hsim me _ (sameReplyTo_of_not_request db db' s (by simp [hparv]))
  · refine stepsAlike_refusal hsim me _ (sameReplyTo_of_not_request db db' s ?_)
    rintro sub params' heq
    obtain ⟨rfl, -⟩ := cons.inj (hparv.symm.trans heq)
    decide
  · rw [hparv] at hs ht
    by_cases hreq : lower (c :: sub) = "request".toList
    · simp only [if_pos hreq]
      obtain ⟨hstep, hline⟩ := step_cmdRecoverRequest hdb hsim me params ev
      refine ⟨hstep, hline.trans (forall_congr' fun acctname => imp_congr_left ?_)⟩
      unfold asksAbout
      rcases params with - | ⟨acctname', rest⟩
      · simp [Asks, hparv]
      · simp only [Asks, hparv, hreq, head?_cons, mem_def, ite_none_right_eq_some, some.injEq, true_and]
        rw [and_comm]
        exact and_congr_left fun heq => by rw [heq]
    · have hsame : SameReplyTo db db' s ev := by
        refine sameReplyTo_of_not_request db db' s ?_
        rintro sub' params' heq
        obtain ⟨rfl, -⟩ := cons.inj (hparv.symm.trans heq)
        exact hreq
      simp only [if_neg hreq]
      split_ifs with hconf
      · obtain ⟨hstep, hline⟩ := step_cmdRecoverConfirm hsim me params
          (by rintro acctname code rest rfl hne hcode; simpa [hconf, hne, hcode] using hs)
          (by rintro acctname code rest rfl hne hcode; simpa [hconf, hne, hcode] using ht)
        exact ⟨hstep, hline.trans (iff_of_true trivial hsame)⟩
      · exact stepsAlike_refusal hsim me _ hsame

/-! ## A sequence of commands -/

def NeverPresents (db : List Account) : State → List Event → Prop
  | _, [] => True
  | s, ev :: evs => presentsCode s ev = false ∧ NeverPresents db (cmdRecover db s ev).1 evs

/-- Every command of a run gets the same reply from both databases. -/
def SameReplies (db db' : List Account) : State → List Event → Prop
  | _, [] => True
  | s, ev :: evs => SameReplyTo db db' s ev ∧ SameReplies db db' (cmdRecover db s ev).1 evs

/-- The run lemma, by induction over the events. -/
theorem replies_eq_iff_of_sim (hdb : SameAddresses db db') (me : List Char) (evs : List Event)
    (h : Sim s t) (hs : NeverPresents db s evs) (ht : NeverPresents db' t evs) :
    replies db me s evs = replies db' me t evs ↔ SameReplies db db' s evs := by
  induction evs generalizing s t with
  | nil => exact iff_of_true rfl trivial
  | cons ev evs ih =>
    obtain ⟨hstep, hline⟩ := step_cmdRecover hdb h me ev hs.1 ht.1
    unfold replies SameReplies
    rw [cons.injEq, hline, ih hstep hs.2 ht.2]

/-- A client that presents no outstanding code gets the same replies from two databases if and only if
every account it asks about has the same address in both or none in both, or the address cannot be
masked and no mail is refused. -/
theorem replies_eq_iff (db db' : List Account) (hdb : SameAddresses db db') (me : List Char)
    (s : State) (hs : Valid s.codes) (evs : List Event) (hnever : NeverPresents db s evs)
    (hnever' : NeverPresents db' s evs) :
    replies db me s evs = replies db' me s evs ↔ SameReplies db db' s evs :=
  replies_eq_iff_of_sim hdb me evs (Sim.refl hs) hnever hnever'

/-- The state of a server that has just started, for a connection that has sent nothing. -/
def State.initial : State := ⟨0, [], [], none⟩

def alice : Account where
  id := 1
  name := "alice".toList
  email := "alice@example.org".toList
  verified := true

/-- A request for the account `alice`. -/
def requestAlice : Event := ⟨0, ["REQUEST".toList, "alice".toList], true, true, true, "abcdef".toList⟩

/-- A database without accounts and one with an account that is not verified reply alike. -/
theorem replies_eq_unverified :
    replies [] "irc".toList .initial [requestAlice] =
      replies [{ alice with verified := false }] "irc".toList .initial [requestAlice] := by
  have hdb : SameAddresses [] [{ alice with verified := false }] := by
    intro acctname email email' h
    simp [mailAddress, findAccount] at h
  have hvalid : Valid State.initial.codes :=
    ⟨nodup_nil, forall_mem_nil _⟩
  refine (replies_eq_iff _ _ hdb _ _ hvalid [requestAlice] ⟨rfl, trivial⟩ ⟨rfl, trivial⟩).mpr
    ⟨?_, trivial⟩
  intro acctname hacct
  obtain rfl : "alice".toList = acctname := some.inj hacct
  exact .inl rfl

/-- A request shows the masked address of an account that has a verified one. -/
theorem replies_ne_verified :
    replies [] "irc".toList .initial [requestAlice] ≠
      replies [alice] "irc".toList .initial [requestAlice] := by decide

end ObbyIRCd.Recovery
