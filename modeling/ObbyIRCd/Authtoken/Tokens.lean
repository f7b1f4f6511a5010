import Mathlib.Data.List.Nodup
import ObbyIRCd.Authtoken.Model

/-!
# A token is used at most once, and only as issued

What a step does to the list of tokens is said once (`TokenMove`, `step_move`): it issues a token, it
takes one out that was presented for its service, or it leaves a part of the list without accepting
any. `Accounts` is the invariant of a run: every token in the list was issued by an event of the past,
no two are equal, and none was accepted before. `run_sound` then says of every event that accepts a
token that the past has an event that issued it with the same service and URL, that the claims are
those of the client then, and that no event accepted it before.
-/

namespace ObbyIRCd.Authtoken

open List Outcome

variable {cfg : Cfg}

def Outcome.issued : Outcome → Option (List Char)
  | .reply (.generated _ _ token) => some token
  | _ => none

def Outcome.accepted : Outcome → Option (List Char)
  | .validation _ _ token r => if r.isSuccess then some token else none
  | _ => none

/-- An event issues the token `t`. -/
def Event.Issues (cfg : Cfg) (e : Event) (t : AuthToken) : Prop :=
  ∃ client batchTag parv, ∃ svc ∈ cfg.services, e.op = .token client batchTag parv t.token ∧
    e.outcome = .reply (.generated svc.key svc.url t.token) ∧
    t = issue cfg e.now client svc (arg parv 3) t.token

inductive TokenMove (cfg : Cfg) (tokens : List AuthToken) (e : Event) : List AuthToken → Prop
  | issue (t : AuthToken) (h : e.Issues cfg t) : TokenMove cfg tokens e (t :: tokens)
  | accept (service url : List Char) (t : AuthToken) (rest : List AuthToken) (r : Reply)
      (hfind : findAndUnlinkToken e.now tokens t.token = some (t, rest))
      (hservice : lower t.serviceKey = lower service) (hurl : t.serviceUrl = url)
      (hreply : r = validateResponse t ∨ r = rpcResponse t)
      (hout : e.outcome = .validation service url t.token r) : TokenMove cfg tokens e rest
  | keep (tokens' : List AuthToken) (hsub : tokens'.Sublist tokens)
      (hissued : e.outcome.issued = none) (haccepted : e.outcome.accepted = none) :
      TokenMove cfg tokens e tokens'

variable {now : ℤ} {token service url : List Char} {s s' : State} {out : Outcome} {client : Client}
  {batchTag : Option (List Char)} {parv : List (List Char)}

variable {tokens : List AuthToken} {e : Event} {r : Reply}

/-- A token that is found is valid, and no longer in the list. -/
theorem findAndUnlinkToken_spec {rest : List AuthToken}
    {t : AuthToken} (h : findAndUnlinkToken now tokens token = some (t, rest)) :
    t.token = token ∧ now ≤ t.expiresAt ∧ tokens.Perm (t :: rest) := by
  obtain ⟨t', hfind, heq⟩ := Option.map_eq_some_iff.mp h
  obtain ⟨rfl, rfl⟩ := Prod.mk.inj heq
  obtain ⟨hp, front, back, rfl, hfront⟩ := find?_eq_some_iff_append.mp hfind
  have herase : (t' :: back).eraseP (fun t => decide (t.expiresAt ≥ now) && t.token = token) = back :=
    eraseP_cons_of_pos hp
  rw [eraseP_append_right _ fun a ha => by
    simpa only [Bool.not_eq_true', Bool.not_eq_true] using hfront a ha, herase]
  rw [Bool.and_eq_true, decide_eq_true_iff, decide_eq_true_iff] at hp
  exact ⟨hp.2, hp.1, perm_middle⟩

/-- The end of a validation accepts the token that it takes out, or accepts none. -/
theorem consume_spec (now : ℤ) (s : State) (service url token : List Char) {refused : Reply}
    (hrefused : refused.isSuccess = false) (accepted : AuthToken → Reply) :
    (∃ t rest, findAndUnlinkToken now s.tokens t.token = some (t, rest) ∧ t.token = token ∧
      lower t.serviceKey = lower service ∧ t.serviceUrl = url ∧
      consume now s service url token refused accepted = ({ s with tokens := rest }, accepted t)) ∨
    ((consume now s service url token refused accepted).1.tokens.Sublist s.tokens ∧
      (consume now s service url token refused accepted).2.isSuccess = false) := by
  unfold consume
  rcases hfind : findAndUnlinkToken now s.tokens token with _ | ⟨t, rest⟩
  · exact .inr ⟨.refl _, hrefused⟩
  have htoken := (findAndUnlinkToken_spec hfind).1
  dsimp only
  split_ifs with hother
  · -- The token is for another service: it is gone, but not accepted.
    refine .inr ⟨?_, hrefused⟩
    obtain ⟨t', -, heq⟩ := Option.map_eq_some_iff.mp hfind
    obtain ⟨-, rfl⟩ := Prod.mk.inj heq
    exact eraseP_sublist
  · push Not at hother
    exact .inl ⟨t, rest, by rw [htoken, hfind], htoken, hother.1, hother.2, rfl⟩

theorem move_same {op : Op} {o : Outcome}
    (h : (s, o) = (s', out)) (hissued : o.issued = none) (haccepted : o.accepted = none) :
    TokenMove cfg s.tokens ⟨now, op, out⟩ s'.tokens := by
  obtain ⟨rfl, rfl⟩ := Prod.mk.inj h
  exact .keep _ (.refl _) hissued haccepted

section

variable (hout : e.outcome = .validation service url token r)
include hout

theorem move_of_consume {refused : Reply} {accepted : AuthToken → Reply} (hrefused : refused.isSuccess = false)
    (haccepted : ∀ t, accepted t = validateResponse t ∨ accepted t = rpcResponse t)
    (hconsume : consume e.now s service url token refused accepted = (s', r)) :
    TokenMove cfg s.tokens e s'.tokens := by
  rcases consume_spec e.now s service url token hrefused accepted with
    ⟨t, rest, hfind, rfl, hservice, hurl, heq⟩ | ⟨hsub, hr⟩
  · obtain ⟨rfl, rfl⟩ : { s with tokens := rest } = s' ∧ accepted t = r := by
      simpa [heq] using hconsume
    exact .accept service url t rest _ hfind hservice hurl (haccepted t) hout
  · rw [hconsume] at hsub hr
    exact .keep _ hsub (by rw [hout]; rfl) (by simpa [hout, Outcome.accepted] using hr)

theorem move_refused {r₀ : Reply} (h : (s, r₀) = (s', r)) (hr : r₀.isSuccess = false) :
    TokenMove cfg s.tokens e s'.tokens := by
  obtain ⟨rfl, rfl⟩ := Prod.mk.inj h
  exact .keep _ (.refl _) (by rw [hout]; rfl) (by simp [hout, accepted, hr])

/-- `do_validate` as a step. -/
theorem move_doValidate (hdo : doValidate cfg e.now s client service url token = (s', r)) :
    TokenMove cfg s.tokens e s'.tokens := by
  unfold doValidate at hdo
  split at hdo
  · exact move_refused hout hdo rfl
  split_ifs at hdo
  any_goals exact move_refused hout hdo rfl
  · exact move_of_consume hout rfl (fun _ => .inl rfl) hdo

/-- `rpc_authtoken_validate` as a step. -/
theorem move_rpc (hdo : rpcAuthtokenValidate cfg e.now s service url token = (s', r)) :
    TokenMove cfg s.tokens e s'.tokens := by
  unfold rpcAuthtokenValidate at hdo
  split at hdo
  · exact move_refused hout hdo rfl
  · split_ifs at hdo
    · exact move_refused hout hdo rfl
    · exact move_of_consume hout rfl (fun _ => .inr rfl) hdo

end

/-- `TOKEN GENERATE` as a step. -/
theorem move_generate {tokstr : List Char}
    (h : cmdTokenGenerate cfg now s client parv tokstr = (s', out)) :
    TokenMove cfg s.tokens ⟨now, .token client batchTag parv tokstr, out⟩ s'.tokens := by
  unfold cmdTokenGenerate at h
  split_ifs at h
  any_goals exact move_same h rfl rfl
  split at h
  · exact move_same h rfl rfl
  split at h
  · exact move_same h rfl rfl
  rename_i svc hsvc
  split_ifs at h
  · exact move_same h rfl rfl
  · obtain ⟨rfl, rfl⟩ := Prod.mk.inj h
    exact .issue _ ⟨client, batchTag, parv, svc, mem_of_find?_eq_some hsvc, rfl, rfl, rfl⟩

/-- `TOKEN VALIDATE` as a step. -/
theorem move_validate {op : Op} (h : cmdTokenValidate cfg now s client batchTag parv = (s', out)) :
    TokenMove cfg s.tokens ⟨now, op, out⟩ s'.tokens := by
  unfold cmdTokenValidate at h
  split_ifs at h
  · exact move_same h rfl rfl
  split at h
  · -- A piece changes the pending entries only.
    split at h
    · exact move_same h rfl rfl
    · obtain ⟨rfl, rfl⟩ := Prod.mk.inj h
      exact .keep _ (.refl _) rfl rfl
  · split at h
    · split at h
      · exact move_same h rfl rfl
      · obtain ⟨rfl, rfl⟩ := Prod.mk.inj h
        exact move_doValidate rfl rfl
    · exact move_same h rfl rfl

/-- `TOKEN` as a step. -/
theorem move_token {tokstr : List Char}
    (h : cmdToken cfg now s client batchTag parv tokstr = (s', out)) :
    TokenMove cfg s.tokens ⟨now, .token client batchTag parv tokstr, out⟩ s'.tokens := by
  unfold cmdToken at h
  split at h
  · exact move_same h rfl rfl
  split_ifs at h
  · refine move_same h ?_ rfl
    unfold cmdTokenServicelist
    split_ifs <;> rfl
  · exact move_generate h
  · exact move_validate h
  · exact move_same h rfl rfl

/-- `BATCH` as a step. -/
theorem move_batch {op : Op} (h : authtokenOverrideBatch cfg now s client parv = (s', out)) :
    TokenMove cfg s.tokens ⟨now, op, out⟩ s'.tokens := by
  unfold authtokenOverrideBatch at h
  split_ifs at h
  · exact move_same h rfl rfl
  split at h
  · -- Opening a batch changes the pending entries only.
    unfold openBatch at h
    split at h
    · exact move_same h rfl rfl
    split_ifs at h
    any_goals exact move_same h rfl rfl
    · split at h
      any_goals exact move_same h rfl rfl
    · split at h
      · obtain ⟨rfl, rfl⟩ := Prod.mk.inj h
        exact .keep _ (.refl _) rfl rfl
      · exact move_same h rfl rfl
  · unfold closeBatch at h
    split at h
    · exact move_same h rfl rfl
    split_ifs at h
    · obtain ⟨rfl, rfl⟩ := Prod.mk.inj h
      exact .keep _ (.refl _) rfl rfl
    rename_i p _ _
    have hmove : TokenMove cfg s.tokens ⟨now, op, .validation p.serviceKey p.serviceUrl
        p.pieces.flatten
        (doValidate cfg now s client p.serviceKey p.serviceUrl p.pieces.flatten).2⟩
        (doValidate cfg now s client p.serviceKey p.serviceUrl p.pieces.flatten).1.tokens :=
      move_doValidate rfl rfl
    obtain ⟨rfl, rfl⟩ := Prod.mk.inj h
    exact hmove
  · exact move_same h rfl rfl

/-- What a command can do to the tokens. -/
theorem step_move (cfg : Cfg) (s : State) (now : ℤ) (op : Op) :
    TokenMove cfg s.tokens ⟨now, op, (step cfg s now op).2⟩ (step cfg s now op).1.tokens := by
  cases op with
  | token client batchTag parv tokstr => exact move_token rfl
  | batch client parv => exact move_batch rfl
  | rpc service url token => exact move_rpc rfl rfl
  | quit client => exact .keep _ (.refl _) rfl rfl
  | cleanup => exact .keep _ filter_sublist rfl rfl

structure Accounts (cfg : Cfg) (past : List Event) (tokens : List AuthToken) : Prop where
  issued : ∀ t ∈ tokens, ∃ e ∈ past, e.Issues cfg t
  nodup : (tokens.map AuthToken.token).Nodup
  fresh : ∀ e ∈ past, ∀ token, e.outcome.accepted = some token →
    token ∉ tokens.map AuthToken.token ∧ token ∈ past.filterMap fun e => e.outcome.issued

/-- An event that accepts a token, as it should be: no event accepted it before, and an event issued
it for the service and the URL for which it was presented, not longer ago than its lifetime. The
claims are those of the client at that time. -/
structure UsedAsIssued (cfg : Cfg) (past : List Event) (now : ℤ) (service url token : List Char)
    (r : Reply) : Prop where
  first : ∀ e ∈ past, e.outcome.accepted ≠ some token
  /-- It was issued, and the reply is made from what was known then. -/
  issued : ∃ e ∈ past, ∃ client batchTag parv, ∃ svc ∈ cfg.services,
    e.op = .token client batchTag parv token ∧
    e.outcome = .reply (.generated svc.key svc.url token) ∧
    lower svc.key = lower service ∧ svc.url = url ∧ now ≤ e.now + cfg.tokenLifetime ∧
    (r = validateResponse (issue cfg e.now client svc (arg parv 3) token) ∨
      r = rpcResponse (issue cfg e.now client svc (arg parv 3) token))

def Sound (cfg : Cfg) (events : List Event) : Prop :=
  ∀ past e, past ++ [e] <+: events → ∀ service url token r,
    e.outcome = .validation service url token r → r.isSuccess = true →
    UsedAsIssued cfg past e.now service url token r

theorem Event.Issues.issued {e : Event} {t : AuthToken} (h : e.Issues cfg t) :
    e.outcome.issued = some t.token := by
  obtain ⟨_, _, _, _, _, _, hout, _⟩ := h
  rw [hout]
  rfl

variable {past : List Event}

theorem Accounts.step {tokens tokens' : List AuthToken} {e : Event}
    (ha : Accounts cfg past tokens) (hmove : TokenMove cfg tokens e tokens')
    (hnew : ((past ++ [e]).filterMap fun e => e.outcome.issued).Nodup) :
    Accounts cfg (past ++ [e]) tokens' := by
  have hold : ∀ t ∈ tokens, ∃ e' ∈ past ++ [e], e'.Issues cfg t := fun t ht =>
    let ⟨e', he', hi⟩ := ha.issued t ht
    ⟨e', mem_append_left _ he', hi⟩
  have hissuedOf {token : List Char} (h : token ∈ past.filterMap fun e => e.outcome.issued) :
      token ∈ (past ++ [e]).filterMap fun e => e.outcome.issued := by
    rw [filterMap_append]
    exact mem_append_left _ h
  cases hmove with
  | issue t hi =>
    -- The new token is none that was issued before.
    have hfresh : t.token ∉ past.filterMap fun e => e.outcome.issued := by
      rw [filterMap_append, nodup_append] at hnew
      intro hmem
      exact hnew.2.2 _ hmem _ (by simp [hi.issued]) rfl
    have hin : ∀ t' ∈ tokens, t'.token ∈ past.filterMap fun e => e.outcome.issued := by
      intro t' ht'
      obtain ⟨e', he', hi'⟩ := ha.issued t' ht'
      exact mem_filterMap.mpr ⟨e', he', hi'.issued⟩
    refine ⟨?_, ?_, ?_⟩
    · intro t' ht'
      rcases mem_cons.mp ht' with rfl | ht'
      · exact ⟨e, by simp, hi⟩
      · exact hold t' ht'
    · refine nodup_cons.mpr ⟨fun hmem => ?_, ha.nodup⟩
      obtain ⟨t', ht', heq⟩ := mem_map.mp hmem
      exact hfresh (heq ▸ hin t' ht')
    · intro e' he' token haccepted
      rcases mem_append.mp he' with he' | he'
      · obtain ⟨hnot, hmem⟩ := ha.fresh e' he' token haccepted
        refine ⟨?_, hissuedOf hmem⟩
        rw [map_cons, mem_cons, not_or]
        exact ⟨fun heq => hfresh (heq ▸ hmem), hnot⟩
      · obtain rfl := mem_singleton.mp he'
        obtain ⟨_, _, _, _, _, _, hout, _⟩ := hi
        simp [hout, accepted] at haccepted
  | accept service url t _ r hfind hservice hurl hreply hout =>
    obtain ⟨-, -, hperm⟩ := findAndUnlinkToken_spec hfind
    have hnodup := (hperm.map _).nodup_iff.mp ha.nodup
    rw [map_cons, nodup_cons] at hnodup
    have hmem : ∀ t' ∈ tokens', t' ∈ tokens := fun t' ht' =>
      hperm.symm.subset (mem_cons_of_mem _ ht')
    refine ⟨fun t' ht' => hold t' (hmem t' ht'), hnodup.2, ?_⟩
    intro e' he' token haccepted
    rcases mem_append.mp he' with he' | he'
    · obtain ⟨hnot, hin⟩ := ha.fresh e' he' token haccepted
      refine ⟨fun hc => hnot ?_, hissuedOf hin⟩
      exact map_subset _ (fun t' ht' => hmem t' ht') hc
    · -- The token that is accepted now.
      obtain rfl := mem_singleton.mp he'
      have hsuccess : r.isSuccess = true := by rcases hreply with rfl | rfl <;> rfl
      obtain rfl : t.token = token := by simpa [hout, accepted, hsuccess] using haccepted
      obtain ⟨e₀, he₀, hi⟩ := ha.issued t (hperm.symm.subset mem_cons_self)
      exact ⟨hnodup.1, hissuedOf (mem_filterMap.mpr ⟨e₀, he₀, hi.issued⟩)⟩
  | keep _ hsub hissued haccepted =>
    refine ⟨fun t' ht' => hold t' (hsub.subset ht'), ha.nodup.sublist (hsub.map _), ?_⟩
    intro e' he' token hacc
    rcases mem_append.mp he' with he' | he'
    · obtain ⟨hnot, hin⟩ := ha.fresh e' he' token hacc
      exact ⟨fun hc => hnot ((hsub.map _).subset hc), hissuedOf hin⟩
    · obtain rfl := mem_singleton.mp he'
      rw [haccepted] at hacc
      cases hacc

theorem Accounts.used {tokens' : List AuthToken}
    (ha : Accounts cfg past tokens) (hmove : TokenMove cfg tokens e tokens')
    (hout : e.outcome = .validation service url token r) (hr : r.isSuccess = true) :
    UsedAsIssued cfg past e.now service url token r := by
  cases hmove with
  | issue t hi =>
    obtain ⟨_, _, _, _, _, _, hout', _⟩ := hi
    rw [hout] at hout'
    cases hout'
  | accept service' url' t rest r' hfind hservice hurl hreply hout' =>
    rw [hout] at hout'
    cases hout'
    obtain ⟨-, hnow, hperm⟩ := findAndUnlinkToken_spec hfind
    have hmem := hperm.symm.subset mem_cons_self
    refine ⟨fun e' he' haccepted => ?_, ?_⟩
    · exact (ha.fresh e' he' t.token haccepted).1 (mem_map_of_mem hmem)
    · obtain ⟨e₀, he₀, client, batchTag, parv, svc, hsvc, hop, hout₀, ht⟩ := ha.issued t hmem
      refine ⟨e₀, he₀, client, batchTag, parv, svc, hsvc, hop, hout₀, ?_, ?_, ?_, ?_⟩
      · rw [← hservice, ht]
        rfl
      · rw [← hurl, ht]
        rfl
      · rw [ht] at hnow
        exact hnow
      · rw [← ht]
        exact hreply
  | keep _ hsub hissued haccepted =>
    simp [hout, accepted, hr] at haccepted

/-- The run lemma, from any sound past. -/
theorem run_sound_from (ha : Accounts cfg past s.tokens) (hs : Sound cfg past) (ops : List (ℤ × Op))
    (hnew : ((past ++ (run cfg s ops).2).filterMap fun e => e.outcome.issued).Nodup) :
    Sound cfg (past ++ (run cfg s ops).2) := by
  induction ops generalizing past s with
  | nil => simpa [run] using hs
  | cons o ops ih =>
    obtain ⟨now, op⟩ := o
    have hmove := step_move cfg s now op
    rw [run, append_cons] at hnew ⊢
    have hnow : ((past ++ [(⟨now, op, (step cfg s now op).2⟩ : Event)]).filterMap
        fun e => e.outcome.issued).Nodup := by
      rw [filterMap_append] at hnew
      exact (nodup_append.mp hnew).1
    refine ih (ha.step hmove hnow) ?_ hnew
    -- The new event is the last one, the others are as before.
    intro past' e hprefix service url token r hout hr
    rcases prefix_concat_iff.mp hprefix with heq | hprefix
    · obtain ⟨rfl, hlast⟩ := append_inj' heq rfl
      obtain rfl := singleton_inj.mp hlast
      exact ha.used hmove hout hr
    · exact hs past' e hprefix service url token r hout hr

/-- In every run from the start, if all tokens that are issued are different, every event that
accepts a token uses it as issued. -/
theorem run_sound (cfg : Cfg) (ops : List (ℤ × Op))
    (hnew : ((run cfg ⟨[], []⟩ ops).2.filterMap fun e => e.outcome.issued).Nodup) :
    Sound cfg (run cfg ⟨[], []⟩ ops).2 := by
  have ha : Accounts cfg [] (State.mk [] []).tokens := ⟨by simp, by simp, by simp⟩
  have hs : Sound cfg [] := by
    intro past e hprefix
    simp at hprefix
  simpa using run_sound_from ha hs ops (by simpa using hnew)

end ObbyIRCd.Authtoken
