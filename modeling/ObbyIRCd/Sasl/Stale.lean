import ObbyIRCd.Sasl.Moves

/-!
# Answers that come too late

A request to a userinfo endpoint is answered while the connection goes on. `Watch` follows a run from
outside: the exchange and the step-up that are in progress, numbered by the time of their start, and
for each request those that were in progress when it was made. `Current` says of a callback that sets
the account that its exchange, and for a second factor its step-up, are still in progress.

`oauth_userinfo_callback` does not look whether they are. What makes it right is a client that waits
for the answer before its next command, and that chooses a mechanism again after a lookup for a second
factor has failed (`Orderly`): then a request is always alone, and nothing has ended meanwhile
(`InStep`).
-/

namespace ObbyIRCd.Sasl

open Option Conn

/-! ## Exchanges -/

/-- What is in progress, and what was when the unanswered requests were made. -/
structure Watch where
  time : ℕ
  exchange : Option ℕ
  stepup : Option ℕ
  issued : List (Option ℕ × Option ℕ)
deriving DecidableEq, Repr

def Watch.start : Watch := ⟨0, none, none, []⟩

/-- The exchange in progress after a note. The choice of a mechanism starts one; a success, a failure
and an abort end it. -/
def Note.exchange (time : ℕ) (exchange : Option ℕ) : Note → Option ℕ
  | .plus => some time
  | .asked | .verified _ _ => exchange
  | .twofaRequired | .saslFail | .saslAborted | .saslSuccess | .stopped | .login _ _ => none

def Message.remaining {α : Type} (m : Message) (l : List α) : List α :=
  match m with
  | .callback i _ => l.eraseIdx i
  | _ => l

def Watch.next (x : Watch) (m : Message) (c' : Conn) (notes : List Note) : Watch :=
  let exchange := notes.foldl (Note.exchange x.time) x.exchange
  let stepup :=
    if c'.stepup = none then none
    else if .twofaRequired ∈ notes then some x.time else x.stepup
  let issued := m.remaining x.issued
  ⟨x.time + 1, exchange, stepup,
    if .asked ∈ notes then issued ++ [(exchange, stepup)] else issued⟩

/-- A callback that sets the account belongs to what is in progress. -/
def Current (x : Watch) (c : Conn) (m : Message) (notes : List Note) : Prop :=
  ∀ i answer, m = .callback i answer → (∃ name via, .login name via ∈ notes) →
    ∃ e s, x.issued[i]? = some (some e, s) ∧ x.exchange = some e ∧
      ∀ p account, c.pending[i]? = some p → p.op = .stepup account → s.isSome ∧ x.stepup = s

/-- The client waits for answers, and chooses a mechanism again after a failure. -/
def Orderly (x : Watch) (c : Conn) : Message → Prop
  | .authenticate param => c.pending = [] ∧
      (c.saslType = some .oauthStepup → x.exchange = none → RestartsStepup param)
  | .identify _ _ => c.pending = []
  | .callback _ _ => True

/-- All messages of a run come in order. -/
def AllOrderly : Watch → Conn → List (World × Message) → Prop
  | _, _, [] => True
  | x, c, (w, m) :: evs => Orderly x c m ∧
      AllOrderly (x.next m (step w m c).1 (step w m c).2) (step w m c).1 evs

/-- No callback of a run sets the account for what is over. -/
def AllCurrent : Watch → Conn → List (World × Message) → Prop
  | _, _, [] => True
  | x, c, (w, m) :: evs => Current x c m (step w m c).2 ∧
      AllCurrent (x.next m (step w m c).1 (step w m c).2) (step w m c).1 evs

/-! ## The invariant -/

/-- A bearer exchange outside of a step-up. -/
def Bears (k : Core) : Prop := k.saslType = some .oauthbearer ∨ k.saslType = some .ircv3bearer

/-- The only request was made by what is in progress. -/
structure Alone (k : Core) (x : Watch) (p : Pending) (e : ℕ) : Prop where
  pending : k.pending = [p]
  issued : x.issued = [(some e, x.stepup)]
  exchange : x.exchange = some e
  stepup : ∀ account, p.op = .stepup account → x.stepup.isSome
  not_bears : ¬Bears k

/-- What is in progress is what the connection is in. -/
structure InStep (k : Core) (x : Watch) : Prop where
  stepup : k.stepup = none ↔ x.stepup = none
  bears : Bears k → x.exchange.isSome
  requests : k.pending = [] ∧ x.issued = [] ∨ ∃ p e, Alone k x p e

section Steps

variable {c c' : Conn} {x : Watch} {m : Message} {notes : List Note}

theorem next_stepup_none (h : c'.stepup = none) : (x.next m c' notes).stepup = none := if_pos h

theorem next_stepup_iff (hstart : .twofaRequired ∉ notes) (hc : c'.stepup = c.stepup)
    (h : c.stepup = none ↔ x.stepup = none) :
    c'.stepup = none ↔ (x.next m c' notes).stepup = none := by
  unfold Watch.next
  rw [hc]
  split
  · rename_i hnone
    exact iff_of_true hnone rfl
  · exact h

theorem next_stepup_start (hstart : .twofaRequired ∈ notes) :
    c'.stepup = none ↔ (x.next m c' notes).stepup = none := by
  unfold Watch.next
  rw [if_pos hstart]
  simp

theorem next_issued (hasked : .asked ∉ notes) :
    (x.next m c' notes).issued = m.remaining x.issued := if_neg hasked

variable (hi : m.remaining x.issued = [])
include hi

section

variable {k : Core} (hc : c'.core = k) (hp : k.pending = []) (hasked : .asked ∉ notes)
include hc hp hasked

/-- A step that goes on in the same step-up and makes no request, when all others are answered. -/
theorem InStep.go_on (hs : c.stepup = none ↔ x.stepup = none) (hk : k.stepup = c.stepup)
    (hstart : .twofaRequired ∉ notes) (hb : Bears k → (x.next m c' notes).exchange.isSome) :
    InStep c'.core (x.next m c' notes) := by
  subst hc
  exact ⟨next_stepup_iff hstart hk hs, hb, .inl ⟨hp, (next_issued hasked).trans hi⟩⟩

theorem InStep.ended (hk : k.stepup = none) (ht : k.saslType = none) :
    InStep c'.core (x.next m c' notes) := by
  subst hc
  exact ⟨iff_of_true hk (next_stepup_none hk), by simp [Bears, ht],
    .inl ⟨hp, (next_issued hasked).trans hi⟩⟩

end

theorem InStep.first {db : Store} {acc : Account} {f : Factor}
    (hs : c.stepup = none ↔ x.stepup = none) (hp : c.pending = []) (hb : ¬Bears c'.core)
    (h : First db acc f c c' notes) : InStep c'.core (x.next m c' notes) := by
  cases h with
  | stepup _ hc hn =>
    have hp' := congrArg Core.pending hc
    refine ⟨next_stepup_start (by simp [hn]), fun h => absurd h hb, .inl ⟨hp'.trans hp, ?_⟩⟩
    rw [next_issued (by simp [hn]), hi]
  | login _ hc hn => exact .go_on hi hc hp (by simp [hn]) hs rfl (by simp [hn]) (by simp [Bears])

variable {p : Pending}

theorem InStep.asks (hs : c.stepup = none ↔ x.stepup = none)
    (hc : c'.stepup = c.stepup) (hp : c'.pending = [p])
    (hop : ∀ account, p.op = .stepup account → c.stepup ≠ none) {e : ℕ} (he : x.exchange = some e)
    (hb : ¬Bears c'.core) (hn : notes = [.asked]) : InStep c'.core (x.next m c' notes) := by
  subst hn
  have hs' : c'.stepup = none ↔ (x.next m c' [.asked]).stepup = none :=
    next_stepup_iff (by simp) hc hs
  refine ⟨hs', fun h => absurd h hb, .inr ⟨p, e, hp, ?_, he, fun account ho => ?_, hb⟩⟩
  · unfold Watch.next
    dsimp only [List.foldl, Note.exchange]
    rw [if_pos (List.mem_singleton_self _), hi, he, List.nil_append]
  · rw [← ne_none_iff_isSome]
    exact fun hnone => hop account ho (hc.symm.trans (hs'.mpr hnone))

omit hi

variable (h : InStep c.core x)
include h

theorem InStep.issued_nil (hp : c.pending = []) : x.issued = [] := by
  rcases h.requests with ⟨-, hi⟩ | ⟨p, e, halone⟩
  · exact hi
  · exact absurd (hp.symm.trans halone.pending) (by simp)

/-- A message `AUTHENTICATE` that comes in order. -/
theorem InStep.move {w : World} {param : List Char}
    (horder : Orderly x c (.authenticate param)) (hmove : Move w c param c' notes) :
    InStep c'.core (x.next (.authenticate param) c' notes) := by
  obtain ⟨hp, hrestart⟩ := horder
  have hi : (Message.authenticate param).remaining x.issued = [] := h.issued_nil hp
  cases hmove with
  | stays hc hn =>
    refine .go_on hi hc hp (by simp [hn]) h.stepup rfl (by simp [hn]) fun hb => ?_
    rw [hn]
    exact h.bears hb
  | aborts _ hc hn =>
    refine .ended hi hc hp ?_ rfl rfl
    rcases hn with hn | hn <;> simp [hn]
  | selects _ _ _ hc hn | selectsTotp _ _ hc hn | selectsOauth _ _ _ hc hn =>
    refine .go_on hi hc hp (by simp [hn]) h.stepup rfl (by simp [hn]) fun _ => ?_
    rw [hn]
    rfl
  | fails hc hn => exact .ended hi hc hp (by simp [hn]) rfl rfl
  | refused ht hc hn =>
    exact .go_on hi hc hp (by simp [hn]) h.stepup rfl (by simp [hn]) (by simp [Bears, core, ht])
  | anonymous hs hc hn | webauthn acc hint hs _ _ hc hn =>
    exact .ended hi hc hp (by simp [hn]) hs rfl
  | first acc f _ ht _ _ hfirst =>
    refine .first hi h.stepup hp ?_ hfirst
    rcases ht with ht | ht | ht <;> simp [Bears, core, ht]
  | asks provider hs ht hc hn =>
    obtain ⟨e, he⟩ := isSome_iff_exists.mp (h.bears ht)
    have hp' : c'.pending = [⟨.login, provider⟩] := by
      rw [show c'.pending = c.pending ++ [_] from congrArg Core.pending hc, hp, List.nil_append]
    exact .asks hi h.stepup (congrArg Core.stepup hc) hp' (by simp) he (by simp [Bears, hc]) hn
  | asksSecond s provider hs ht hno hc hn =>
    obtain ⟨e, he⟩ : ∃ e, x.exchange = some e := by
      rw [← ne_none_iff_exists']
      exact fun hnone => hno (hrestart ht hnone)
    have hp' : c'.pending = [⟨.stepup s.account, provider⟩] := by
      rw [show c'.pending = c.pending ++ [_] from congrArg Core.pending hc, hp, List.nil_append]
    refine .asks hi h.stepup (congrArg Core.stepup hc) hp' (by simp [hs]) he ?_ hn
    rw [hc]
    simp [Bears, core, ht]
  | second s t _ _ hsecond =>
    obtain ⟨acc, -, -, hc, hn⟩ := hsecond
    exact .ended hi hc hp (by simp [hn]) rfl rfl

theorem InStep.alone {i : ℕ} (hp : c.pending[i]? = some p) :
    ∃ e, i = 0 ∧ Alone c.core x p e := by
  rcases h.requests with ⟨hnone, -⟩ | ⟨q, e, halone⟩
  · rw [show c.pending = [] from hnone] at hp
    simp at hp
  rw [show c.pending = [q] from halone.pending] at hp
  obtain ⟨rfl, rfl⟩ : i = 0 ∧ q = p := by
    rcases i with - | i
    · exact ⟨rfl, some.inj hp⟩
    · simp at hp
  exact ⟨e, rfl, halone⟩

theorem InStep.next_idle (hi : m.remaining x.issued = x.issued) :
    x.next m c [] = { x with time := x.time + 1 } := by
  have hs : (if c.stepup = none then none else x.stepup) = x.stepup := by
    split
    · rename_i hnone
      exact (h.stepup.mp hnone).symm
    · rfl
  simp [Watch.next, hi, hs]

theorem InStep.remaining_callback {i : ℕ} (hp : c.pending[i]? = none)
    (answer : Option (List Char)) : (Message.callback i answer).remaining x.issued = x.issued := by
  show x.issued.eraseIdx i = x.issued
  rcases h.requests with ⟨-, hi⟩ | ⟨p, e, halone⟩
  · rw [hi, List.eraseIdx_nil]
  · rw [show c.pending = [p] from halone.pending] at hp
    rw [halone.issued]
    exact List.eraseIdx_of_length_le (List.getElem?_eq_none_iff.mp hp : [p].length ≤ i)

theorem InStep.callback {w : World} {i : ℕ} {answer : Option (List Char)}
    (hp : c.pending[i]? = some p) (hcallback : Callback w c p (c.pending.eraseIdx i) c' notes) :
    InStep c'.core (x.next (.callback i answer) c' notes) := by
  obtain ⟨e, rfl, halone⟩ := h.alone hp
  have hi : (Message.callback 0 answer).remaining x.issued = [] := by
    rw [halone.issued]
    rfl
  have hrest : c.pending.eraseIdx 0 = [] := by
    rw [show c.pending = [p] from halone.pending]
    rfl
  rw [hrest] at hcallback
  cases hcallback with
  | error hc hn =>
    exact .go_on hi hc rfl (by simp [hn]) h.stepup rfl (by simp [hn])
      fun hb => absurd hb halone.not_bears
  | first acc _ _ ht hfirst =>
    exact InStep.first (c := { c with pending := [] }) hi h.stepup rfl
      (by simp [Bears, core, ht]) hfirst
  | mismatch account _ hc hn =>
    exact .ended hi hc rfl (by simp [hn]) rfl rfl
  | second account _ hsecond =>
    obtain ⟨acc, -, -, hc, hn⟩ := hsecond
    exact .ended hi hc rfl (by simp [hn]) rfl rfl

theorem InStep.identify {w : World} {name password : List Char} (hp : c.pending = []) :
    InStep (cmdIdentify w name password c).1.core
      (x.next (.identify name password) (cmdIdentify w name password c).1
        (cmdIdentify w name password c).2) := by
  have hi : (Message.identify name password).remaining x.issued = [] := h.issued_nil hp
  have hstays : InStep c.core (x.next (.identify name password) c []) :=
    .go_on hi rfl hp (by simp) h.stepup rfl (by simp) h.bears
  unfold cmdIdentify
  split
  · exact hstays
  split
  · exact hstays
  · split
    · exact .go_on hi rfl hp (by simp) h.stepup rfl (by simp) (by simp [Bears, core])
    · exact hstays

end Steps

/-! ## Runs -/

variable {c : Conn}

theorem inStep_step {w : World} {x : Watch} {m : Message} (h : InStep c.core x)
    (horder : Orderly x c m) :
    InStep (step w m c).1.core (x.next m (step w m c).1 (step w m c).2) := by
  cases m with
  | authenticate param => exact h.move horder moves_authenticateAttempt.move
  | identify name password => exact h.identify horder
  | callback i answer =>
    rcases hp : c.pending[i]? with - | p
    · rw [step_callback_none hp, h.next_idle (h.remaining_callback hp answer)]
      refine ⟨h.stepup, h.bears, h.requests.imp_right fun ⟨p, e, halone⟩ => ⟨p, e, ?_⟩⟩
      exact ⟨halone.pending, halone.issued, halone.exchange, halone.stepup, halone.not_bears⟩
    · exact h.callback hp (callback_oauthUserinfoCallback hp answer).1

theorem current_of_inStep {w : World} {x : Watch} (h : InStep c.core x) (m : Message) :
    Current x c m (step w m c).2 := by
  rintro i answer rfl ⟨name, via, hlogin⟩
  rcases hp : c.pending[i]? with - | p
  · rw [step_callback_none hp] at hlogin
    simp at hlogin
  obtain ⟨e, rfl, halone⟩ := h.alone hp
  refine ⟨e, x.stepup, by rw [halone.issued]; rfl, halone.exchange, fun q account hq hop => ?_⟩
  obtain rfl := some.inj hq
  exact ⟨halone.stepup account hop, rfl⟩

theorem allCurrent_of_inStep {x : Watch} (evs : List (World × Message))
    (h : InStep c.core x) (horder : AllOrderly x c evs) : AllCurrent x c evs := by
  induction evs generalizing x c with
  | nil => trivial
  | cons ev evs ih => exact ⟨current_of_inStep h ev.2, ih (inStep_step h horder.1) horder.2⟩

/-- In a run in which the client waits for answers, no callback sets the account for an exchange or a
step-up that is over. -/
theorem allCurrent_of_orderly (evs : List (World × Message))
    (h : AllOrderly Watch.start fresh evs) : AllCurrent Watch.start fresh evs := by
  refine allCurrent_of_inStep evs ⟨iff_of_true rfl rfl, fun hb => ?_, .inl ⟨rfl, rfl⟩⟩ h
  simp [Bears, core, fresh] at hb

/-- An account that is linked to a user of the provider `github`. -/
def linkedStore : Store where
  accounts := [{ id := 1, name := "alice".toList }]
  rows := [⟨1, 1, "github".toList, .oauth "github".toList "42".toList⟩]
  nextId := 2
  ids_nodup := by decide
  names_nodup := by decide

/-- A world in which every bearer payload is a token for `github`. -/
def githubWorld : World where
  db := linkedStore
  providers := [⟨"github".toList, true, some "userinfo".toList⟩]
  certfp := none
  refuses _ := false
  decodeAuthenticatePlain _ := none
  verifyPassword _ _ := false
  randBytes := true
  scramParseClientFirst _ := none
  hasScram _ := false
  scramSendB64 := true
  scramProof _ _ := false
  webauthnHello _ := none
  webauthnSendChallenge := true
  webauthnAssertion _ := none
  totpCode _ := none
  totpVerify _ _ := false
  oauthbearer _ := .userinfo "github".toList
  ircv3bearer _ := .userinfo "github".toList

def sends (param : String) : World × Message := (githubWorld, .authenticate param.toList)

def answered : World × Message := (githubWorld, .callback 0 (some "42".toList))

/-- One answer, to the question that is open. -/
theorem allCurrent_waiting :
    AllCurrent Watch.start fresh [sends "IRCV3BEARER", sends "Z2l0aHVi", answered] :=
  allCurrent_of_orderly _ ⟨⟨rfl, fun ht => absurd ht (by decide)⟩,
    ⟨by decide, fun ht => absurd ht (by decide)⟩, trivial, trivial⟩

/-- The client gives up before the answer comes, and is logged in by it. -/
theorem abort_then_login :
    ¬AllCurrent Watch.start fresh
      [sends "IRCV3BEARER", sends "Z2l0aHVi", sends "*", answered] := by
  rintro ⟨-, -, -, hcurrent, -⟩
  obtain ⟨e, s, -, hexchange, -⟩ :=
    hcurrent 0 _ rfl ⟨"alice".toList, .first (.cred .oauth), by decide⟩
  exact absurd hexchange.symm (some_ne_none e)

end ObbyIRCd.Sasl
