import Mathlib.Data.List.Induction
import ObbyIRCd.Smtp.Model

/-!
# What is left in the buffer when the handshake is done

The buffer is not emptied before the TLS handshake. Lines that are complete are taken and ignored
while it is under way, but the bytes behind the last line end stay, and the first line that is
received inside of TLS is appended to them.

Two sessions are compared, one with what is left in the buffer and one with an empty buffer, over
everything that can be received inside of TLS. If nothing is left they are the same; otherwise one
more line inside of TLS tells them apart (`encrypted_eq_iff`). A run leaves nothing exactly if the
bytes after the reply to `STARTTLS` have no zero byte and end with a line end
(`readbuf_eq_nil_iff`), unless the handshake is done within `begin_tls`: then they are read as replies
(`encrypted_eq_iff_of_fresh`).
-/

namespace ObbyIRCd.Smtp

open List Option SmtpState

/-! ## Lines -/

theorem findCrlf_eq_none {s : List UInt8} (h : 10 ∉ s) : findCrlf s = none := by
  fun_induction findCrlf s with
  | case1 => simp at h
  | case2 b s _ ih => rw [ih fun hs => h (mem_cons_of_mem b hs), map_none]
  | case3 => rfl

theorem findCrlf_append {a t : List UInt8} (h : 10 ∉ a) :
    findCrlf (a ++ 13 :: 10 :: t) = some a.length := by
  induction a with
  | nil => rfl
  | cons b a ih =>
    rw [mem_cons, not_or] at h
    have hnext : ∀ s, a ++ 13 :: 10 :: t ≠ 10 :: s := by
      intro s hs
      cases a with
      | nil => cases hs
      | cons c a => exact h.2 (by rw [(cons.inj hs).1]; exact mem_cons_self)
    rw [cons_append, findCrlf, ih h.2]
    · rfl
    · exact fun t _ ht => hnext t ht

theorem findCrlf_eq_some {s : List UInt8} {i : ℕ} (h : findCrlf s = some i) :
    ∃ a t, s = a ++ 13 :: 10 :: t ∧ a.length = i := by
  fun_induction findCrlf s generalizing i with
  | case1 s => exact ⟨[], s, rfl, some.inj h⟩
  | case2 b s _ ih =>
    obtain ⟨k, hk, rfl⟩ := map_eq_some_iff.1 h
    obtain ⟨a, t, rfl, rfl⟩ := ih hk
    exact ⟨b :: a, t, rfl, rfl⟩
  | case3 => cases h

variable {buf : List UInt8}

/-- What a line end that is found takes from the buffer: bytes without a zero byte that end with a
line feed. -/
theorem findEol_eq_some {linelen eat : ℕ} (h : findEol buf = some (linelen, eat)) :
    ∃ l t, buf = l ++ 10 :: t ∧ eat = l.length + 1 ∧ 0 ∉ l := by
  -- The line feed stands in the part before the first zero byte.
  have hpre : ∃ l t, buf.takeWhile (· != 0) = l ++ 10 :: t ∧ eat = l.length + 1 := by
    unfold findEol at h
    dsimp only at h
    split at h
    · next i hi =>
      obtain ⟨a, t, hs, rfl⟩ := findCrlf_eq_some hi
      obtain ⟨-, rfl⟩ := Prod.mk.inj (some.inj h)
      exact ⟨a ++ [13], t, by simp [hs], by simp⟩
    · obtain ⟨i, hi, hpair⟩ := map_eq_some_iff.1 h
      obtain ⟨-, rfl⟩ := Prod.mk.inj hpair
      obtain ⟨hlt, heq, -⟩ := findIdx?_eq_some_iff_getElem.1 hi
      refine ⟨(buf.takeWhile (· != 0)).take i, (buf.takeWhile (· != 0)).drop (i + 1), ?_, ?_⟩
      · rw [← beq_iff_eq.1 heq, getElem_cons_drop, take_append_drop]
      · rw [length_take, Nat.min_eq_left (Nat.le_of_lt hlt)]
  obtain ⟨l, t, hs, rfl⟩ := hpre
  have hzero : (0 : UInt8) ∉ l := by
    intro h0
    have hmem : (0 : UInt8) ∈ buf.takeWhile (· != 0) := by rw [hs]; exact mem_append_left _ h0
    simpa using mem_takeWhile_imp hmem
  refine ⟨l, t ++ buf.dropWhile (· != 0), ?_, rfl, hzero⟩
  conv_lhs => rw [← takeWhile_append_dropWhile (p := (· != 0)) (l := buf), hs]
  simp

/-- No line is found exactly if there is no line feed before the first zero byte. -/
theorem findEol_eq_none_iff : findEol buf = none ↔ 10 ∉ buf.takeWhile (· != 0) := by
  constructor
  · intro h hmem
    unfold findEol at h
    dsimp only at h
    split at h
    · cases h
    · rw [map_eq_none_iff, findIdx?_eq_none_iff] at h
      simpa using h 10 hmem
  · intro h
    have hlf : (buf.takeWhile (· != 0)).findIdx? (· == 10) = none :=
      findIdx?_eq_none_iff.mpr fun b hb => beq_eq_false_iff_ne.mpr fun heq => h (heq ▸ hb)
    simp only [findEol, findCrlf_eq_none h, hlf, map_none]

/-- No reply is taken exactly if there is no line feed before the first zero byte. -/
theorem parseReply_eq_none_iff : parseReply buf = none ↔ 10 ∉ buf.takeWhile (· != 0) := by
  rw [← findEol_eq_none_iff]
  unfold parseReply
  cases h : findEol buf <;> simp

variable {rest : List UInt8} {r : Reply}

theorem parseReply_eq_some (h : parseReply buf = some (r, rest)) :
    ∃ l, buf = l ++ 10 :: rest ∧ 0 ∉ l := by
  unfold parseReply at h
  split at h
  · cases h
  next linelen eat heol =>
  obtain ⟨-, rfl⟩ := Prod.mk.inj (some.inj h)
  obtain ⟨l, t, rfl, rfl, hzero⟩ := findEol_eq_some heol
  exact ⟨l, by rw [drop_length_add_append]; rfl, hzero⟩

theorem length_rest_lt (h : parseReply buf = some (r, rest)) : rest.length < buf.length := by
  obtain ⟨l, rfl, -⟩ := parseReply_eq_some h
  simp
  omega

/-! ## What a reply changes -/

/-- The states after the handshake that follows `STARTTLS`. -/
def SmtpState.late : SmtpState → Bool
  | sentEhlo2 | sentAuth | sentMailFrom | sentRcptTo | sentData | sentBody | sentQuit | done => true
  | _ => false

/-- Two jobs that differ at most in the state, what was sent and how the job ended. -/
structure Frame (j j' : SmtpJob) : Prop where
  tlsActive_eq : j'.tlsActive = j.tlsActive
  readbuf_eq : j'.readbuf = j.readbuf
  encrypted_eq : j'.encrypted = j.encrypted
  plain_eq : j'.plain = j.plain

/-- What a reply can do: the handshake begins, or the buffer and the histories stay as they are. -/
theorem processReply_cases (cfg : Cfg) (connect : Connect) (j : SmtpJob) (r : Reply) :
    (j.state = .sentStarttls ∧ processReply cfg connect j r =
        continueTls { j with state := .tlsAfterStarttls, plain := j.readbuf } connect) ∨
      (Frame j (processReply cfg connect j r) ∧
        (j.state.late = true → (processReply cfg connect j r).state.late = true) ∧
        ((processReply cfg connect j r).state.handshaking = true →
          (processReply cfg connect j r).state = j.state)) := by
  cases hst : j.state <;> simp only [processReply, hst, sendAuthOrMailFrom]
  case sentStarttls =>
    split_ifs with hcode
    · exact .inr ⟨⟨rfl, rfl, rfl, rfl⟩, (by cases ·), (by cases ·)⟩
    · exact .inl ⟨trivial, rfl⟩
  all_goals
    refine .inr ?_
    repeat' split
    all_goals
      refine ⟨⟨rfl, rfl, rfl, rfl⟩, ?_, ?_⟩ <;>
        simp [jobFinishErr, sendLine, sendMailFrom, late, handshaking]

theorem drainFrom_none {cfg : Cfg} {connect : Connect} {j : SmtpJob} (n : ℕ)
    (h : parseReply j.readbuf = none) : drainFrom cfg connect n j = j := by
  cases n with
  | zero => rfl
  | succ n => simp only [drainFrom, h]

/-- A complete line is taken, and processed if it is the last one of its reply. -/
theorem drainFrom_some {cfg : Cfg} {connect : Connect} {j : SmtpJob}
    (n : ℕ) (h : parseReply j.readbuf = some (r, rest)) :
    drainFrom cfg connect (n + 1) j =
      if r.more then drainFrom cfg connect n (takeLine j r rest)
      else if (processReply cfg connect (takeLine j r rest) r).state = .done then
        processReply cfg connect (takeLine j r rest) r
      else drainFrom cfg connect n (processReply cfg connect (takeLine j r rest) r) := by
  simp only [drainFrom, h]

/-! ## After the handshake -/

/-- Two jobs after the handshake that will take the same replies. -/
structure Same (j j' : SmtpJob) : Prop where
  late : j.state.late = true
  state_eq : j'.state = j.state
  tlsActive_eq : j'.tlsActive = j.tlsActive
  readbuf_eq : j'.readbuf = j.readbuf
  encrypted_eq : j'.encrypted = j.encrypted

/-- A job and what becomes of it after the handshake: replies are added. -/
structure Later (j j' : SmtpJob) : Prop where
  tlsActive_eq : j'.tlsActive = j.tlsActive
  plain_eq : j'.plain = j.plain
  encrypted : j.encrypted <+: j'.encrypted

variable {cfg : Cfg} {connect : Connect} {j j' j'' : SmtpJob}

theorem Same.refl (h : j.state.late = true) : Same j j := ⟨h, rfl, rfl, rfl, rfl⟩

theorem Later.refl (j : SmtpJob) : Later j j := ⟨rfl, rfl, List.prefix_rfl⟩

theorem Later.trans (h : Later j j') (h' : Later j' j'') : Later j j'' :=
  ⟨h'.tlsActive_eq.trans h.tlsActive_eq, h'.plain_eq.trans h.plain_eq, h.encrypted.trans h'.encrypted⟩

theorem later_takeLine (j : SmtpJob) (r : Reply) (rest : List UInt8) : Later j (takeLine j r rest) := by
  refine ⟨rfl, rfl, ?_⟩
  unfold takeLine
  split
  · exact prefix_append _ _
  · exact prefix_rfl

theorem SmtpState.late_ne {s : SmtpState} (h : s.late = true) :
    s ≠ .sentStarttls ∧ s.handshaking = false := by
  revert h
  cases s <;> decide

theorem processReply_state (h : Same j j') (r : Reply) :
    (processReply cfg connect j' r).state = (processReply cfg connect j r).state := by
  have hlate := h.late
  cases hst : j.state <;> rw [hst] at hlate <;> try cases hlate
  all_goals
    simp only [processReply, h.state_eq, hst, sendAuthOrMailFrom]
    repeat' split
    all_goals rfl

/-- A reply after the handshake leaves the buffer and the histories alone. -/
theorem frame_processReply (h : j.state.late = true) (r : Reply) :
    Frame j (processReply cfg connect j r) ∧ (processReply cfg connect j r).state.late = true := by
  rcases processReply_cases cfg connect j r with ⟨hst, -⟩ | ⟨hframe, hlate, -⟩
  · exact absurd hst (late_ne h).1
  · exact ⟨hframe, hlate h⟩

variable (h : Same j j')
include h

theorem Same.processReply (r : Reply) :
    Same (processReply cfg connect j r) (processReply cfg connect j' r) ∧
      Later j (processReply cfg connect j r) := by
  obtain ⟨hframe, hlate⟩ := @frame_processReply cfg connect j h.late r
  obtain ⟨hframe', -⟩ := @frame_processReply cfg connect j' (by rw [h.state_eq]; exact h.late) r
  refine ⟨⟨hlate, processReply_state h r, ?_, ?_, ?_⟩, hframe.tlsActive_eq, hframe.plain_eq, ?_⟩
  · rw [hframe'.tlsActive_eq, hframe.tlsActive_eq, h.tlsActive_eq]
  · rw [hframe'.readbuf_eq, hframe.readbuf_eq, h.readbuf_eq]
  · rw [hframe'.encrypted_eq, hframe.encrypted_eq, h.encrypted_eq]
  · exact hframe.encrypted_eq.symm ▸ prefix_rfl

/-- Reading lines keeps two jobs the same, and adds replies. -/
theorem Same.drainFrom (n : ℕ) :
    Same (drainFrom cfg connect n j) (drainFrom cfg connect n j') ∧
      Later j (drainFrom cfg connect n j) := by
  induction n generalizing j j' with
  | zero => exact ⟨h, .refl j⟩
  | succ n ih =>
    cases hparse : parseReply j.readbuf with
    | none =>
      rw [drainFrom_none _ hparse, drainFrom_none _ (by rwa [h.readbuf_eq])]
      exact ⟨h, .refl j⟩
    | some p =>
      obtain ⟨r, rest⟩ := p
      have htake : Same (takeLine j r rest) (takeLine j' r rest) :=
        ⟨h.late, h.state_eq, h.tlsActive_eq, rfl, by
          simp only [takeLine, h.tlsActive_eq, h.encrypted_eq]⟩
      have hlater := later_takeLine j r rest
      rw [drainFrom_some _ hparse, drainFrom_some _ (by rwa [h.readbuf_eq])]
      split
      · exact ⟨(ih htake).1, hlater.trans (ih htake).2⟩
      obtain ⟨hnext, hlater'⟩ := @Same.processReply cfg connect _ _ htake r
      rw [hnext.state_eq]
      split
      · exact ⟨hnext, hlater.trans hlater'⟩
      · exact ⟨(ih hnext).1, (hlater.trans hlater').trans (ih hnext).2⟩

theorem Same.receiveFrom (n : ℕ) (packet : List UInt8) :
    Same (receiveFrom cfg connect n j packet) (receiveFrom cfg connect n j' packet) ∧
      (receiveFrom cfg connect n j packet).tlsActive = j.tlsActive := by
  induction n generalizing j j' packet with
  | zero => exact ⟨h, rfl⟩
  | succ n ih =>
    unfold Smtp.receiveFrom
    dsimp only
    rw [h.readbuf_eq]
    generalize readbufSize - j.readbuf.length - 1 = space
    split
    · exact ⟨⟨rfl, rfl, h.tlsActive_eq, h.readbuf_eq, h.encrypted_eq⟩, rfl⟩
    split
    · exact ⟨h, rfl⟩
    have hfill : Same (fillBuffer j (packet.take space)) (fillBuffer j' (packet.take space)) :=
      ⟨h.late, h.state_eq, h.tlsActive_eq, by simp only [fillBuffer, h.readbuf_eq], h.encrypted_eq⟩
    unfold drain
    rw [hfill.readbuf_eq]
    obtain ⟨hdrain, hlater⟩ := @Same.drainFrom cfg connect _ _ hfill
      (fillBuffer j (packet.take space)).readbuf.length
    rw [hdrain.state_eq, hdrain.tlsActive_eq, h.tlsActive_eq]
    split
    · exact ⟨hdrain, hlater.tlsActive_eq⟩
    · obtain ⟨hrest, htls⟩ := ih hdrain _
      exact ⟨hrest, htls.trans hlater.tlsActive_eq⟩

theorem Same.step (e : Event) :
    Same (step cfg j e) (step cfg j' e) ∧ (step cfg j e).tlsActive = j.tlsActive := by
  have hhand := (late_ne h.late).2
  cases e with
  | read packet connect =>
    have hhand' : j'.state.handshaking = false := by rw [h.state_eq, hhand]
    have hread : Same { j with reading := true } { j' with reading := true } :=
      ⟨h.late, h.state_eq, h.tlsActive_eq, h.readbuf_eq, h.encrypted_eq⟩
    simp only [Smtp.step, hhand, hhand', Bool.false_and, Bool.false_eq_true, if_false, receive]
    by_cases hdone : j.state = .done
    · rw [if_pos hdone, if_pos (h.state_eq.trans hdone)]
      exact ⟨hread, rfl⟩
    · rw [if_neg hdone, if_neg (by rwa [h.state_eq])]
      exact hread.receiveFrom _ _
  | wouldBlock => exact ⟨⟨h.late, h.state_eq, h.tlsActive_eq, h.readbuf_eq, h.encrypted_eq⟩, rfl⟩
  | tlsProgress connect =>
    simp only [Smtp.step, h.state_eq, hhand, Bool.false_and, Bool.false_eq_true, if_false]
    exact ⟨h, trivial⟩
  | lost =>
    simp only [Smtp.step, h.state_eq]
    split
    · exact ⟨h, rfl⟩
    · exact ⟨⟨rfl, rfl, h.tlsActive_eq, h.readbuf_eq, h.encrypted_eq⟩, rfl⟩

theorem Same.foldl (events : List Event) :
    Same (events.foldl (Smtp.step cfg) j) (events.foldl (Smtp.step cfg) j') := by
  induction events generalizing j j' with
  | nil => exact h
  | cons e events ih => exact ih (h.step e).1

omit h

/-! ## Before the handshake is done -/

/-- What is known of a job before the handshake is done: after the reply to `STARTTLS`, the bytes that
were taken from the buffer are whole lines. -/
structure Unencrypted (j : SmtpJob) : Prop where
  tlsActive_eq : j.tlsActive = false
  encrypted_eq : j.encrypted = []
  state_ne : j.state ≠ .tlsInitial
  taken : j.state = .tlsAfterStarttls → ∃ lines, j.plain = lines ++ j.readbuf ∧ 0 ∉ lines ∧
    (lines = [] ∨ lines.getLast? = some 10)

/-- The job at the end of the handshake, if it is done within `begin_tls`: what is left in the buffer
is what was received after the reply. -/
structure Fresh (j : SmtpJob) : Prop where
  state_eq : j.state = .sentEhlo2
  tlsActive_eq : j.tlsActive = true
  encrypted_eq : j.encrypted = []
  plain_eq : j.plain = j.readbuf

/-- The handshake is not done, and nothing more can be taken from the buffer. -/
def Waiting (j : SmtpJob) : Prop :=
  Unencrypted j ∧ (j.state = .done ∨ parseReply j.readbuf = none)

/-- The handshake was done, and then lines were read. -/
def Continued (cfg : Cfg) (connect : Connect) (j : SmtpJob) : Prop :=
  ∃ j' m, Fresh j' ∧ j'.readbuf.length ≤ m ∧ j = drainFrom cfg connect m j'

/-- The same, or the job has failed then because the buffer was full. -/
def Ended (cfg : Cfg) (connect : Connect) (j : SmtpJob) : Prop :=
  Continued cfg connect j ∨
    ∃ j', Continued cfg connect j' ∧ j'.readbuf ≠ [] ∧ ∃ o, j = jobFinishErr j' o

theorem Unencrypted.finish (h : Unencrypted j) (o : Outcome) : Waiting (jobFinishErr j o) :=
  ⟨⟨h.tlsActive_eq, h.encrypted_eq, nofun, nofun⟩, .inl rfl⟩

theorem Continued.late (h : Continued cfg connect j) :
    j.state.late = true ∧ j.tlsActive = true := by
  obtain ⟨j', m, hj', -, rfl⟩ := h
  obtain ⟨hsame, hlater⟩ := @Same.drainFrom cfg connect _ _
    (.refl (show j'.state.late = true by rw [hj'.state_eq]; rfl)) m
  exact ⟨hsame.late, hlater.tlsActive_eq.trans hj'.tlsActive_eq⟩

theorem Ended.late (h : Ended cfg connect j) : j.state.late = true ∧ j.tlsActive = true := by
  rcases h with h | ⟨j', h, -, o, rfl⟩
  · exact h.late
  · exact ⟨rfl, h.late.2⟩

/-- The loop goes on without the rest of the packet, and looks for space in the buffer. -/
theorem Continued.receiveFrom_nil (h : Continued cfg connect j) (n : ℕ) :
    Ended cfg connect (receiveFrom cfg connect n j []) := by
  cases n with
  | zero => exact .inl h
  | succ n =>
    unfold receiveFrom
    dsimp only
    split
    · next hfull =>
      refine .inr ⟨j, h, fun hnil => ?_, _, rfl⟩
      rw [hnil] at hfull
      exact absurd hfull (by decide)
    · rw [if_pos rfl]
      exact .inl h

/-- Reading lines before the handshake is done: it is not done after them, or it is done in between. -/
theorem drainFrom_unencrypted (cfg : Cfg) (connect : Connect) {n : ℕ}
    (h : Unencrypted j) (hn : j.readbuf.length ≤ n) :
    Waiting (drainFrom cfg connect n j) ∨ Continued cfg connect (drainFrom cfg connect n j) := by
  induction n generalizing j with
  | zero =>
    have hnil := length_eq_zero_iff.1 (Nat.le_zero.1 hn)
    refine .inl ⟨h, .inr ?_⟩
    rw [drainFrom, hnil]
    rfl
  | succ n ih =>
    cases hparse : parseReply j.readbuf with
    | none =>
      rw [drainFrom_none _ hparse]
      exact .inl ⟨h, .inr hparse⟩
    | some p =>
      obtain ⟨r, rest⟩ := p
      have hlen := length_rest_lt hparse
      obtain ⟨l, hl, hzero⟩ := parseReply_eq_some hparse
      -- The line is taken from the buffer.
      have htaken : Unencrypted (takeLine j r rest) := by
        refine ⟨h.tlsActive_eq, ?_, h.state_ne, fun hst => ?_⟩
        · simp only [takeLine, h.tlsActive_eq, Bool.false_eq_true, if_false, h.encrypted_eq]
        obtain ⟨lines, hplain, hlines, -⟩ := h.taken hst
        refine ⟨lines ++ l ++ [10], ?_, ?_, .inr (by simp)⟩
        · simp only [takeLine, hplain, hl, append_assoc, singleton_append]
        · simp only [mem_append, hlines, hzero, mem_singleton, false_or]
          decide
      have hrest : (takeLine j r rest).readbuf.length ≤ n :=
        Nat.le_of_lt_succ (Nat.lt_of_lt_of_le hlen hn)
      rw [drainFrom_some _ hparse]
      generalize takeLine j r rest = j₁ at htaken hrest ⊢
      by_cases hmore : r.more = true
      · rw [if_pos hmore]
        exact ih htaken hrest
      rw [if_neg hmore]
      rcases processReply_cases cfg connect j₁ r with ⟨hst, hreply⟩ | ⟨hframe, -, hstate⟩
      · -- The handshake begins.
        rw [hreply]
        cases connect with
        | again =>
          refine ih ⟨htaken.tlsActive_eq, htaken.encrypted_eq, nofun, fun _ => ?_⟩ hrest
          exact ⟨[], rfl, not_mem_nil, .inl rfl⟩
        | failed =>
          exact .inl ⟨⟨htaken.tlsActive_eq, htaken.encrypted_eq, nofun, nofun⟩, .inl rfl⟩
        | done =>
          refine .inr ⟨continueTls { j₁ with state := .tlsAfterStarttls, plain := j₁.readbuf } .done, n,
            ⟨rfl, rfl, htaken.encrypted_eq, rfl⟩, hrest, if_neg ?_⟩
          exact nofun
      · generalize processReply cfg connect j₁ r = j₂ at hframe hstate ⊢
        have hkept : Unencrypted j₂ := by
          refine ⟨hframe.tlsActive_eq.trans htaken.tlsActive_eq,
            hframe.encrypted_eq.trans htaken.encrypted_eq, fun hst => ?_, fun hst => ?_⟩
          · exact htaken.state_ne ((hstate (by rw [hst]; rfl)).symm.trans hst)
          · obtain ⟨lines, hplain, hlines⟩ :=
              htaken.taken ((hstate (by rw [hst]; rfl)).symm.trans hst)
            exact ⟨lines, by rw [hframe.plain_eq, hframe.readbuf_eq, hplain], hlines⟩
        by_cases hdone : j₂.state = .done
        · rw [if_pos hdone]
          exact .inl ⟨hkept, .inl hdone⟩
        · rw [if_neg hdone]
          exact ih hkept (by rw [hframe.readbuf_eq]; exact hrest)

/-- Bytes that are received before the handshake is done. -/
theorem Unencrypted.fillBuffer {j : SmtpJob} (h : Unencrypted j) (got : List UInt8) :
    Unencrypted (fillBuffer j got) := by
  refine ⟨h.tlsActive_eq, h.encrypted_eq, h.state_ne, fun hst => ?_⟩
  have hst' : j.state = .tlsAfterStarttls := hst
  obtain ⟨lines, hplain, hlines⟩ := h.taken hst'
  refine ⟨lines, ?_, hlines⟩
  simp only [Smtp.fillBuffer, hst', if_true, hplain, append_assoc]

theorem receiveFrom_unencrypted (cfg : Cfg) (connect : Connect) (n : ℕ)
    (packet : List UInt8) (h : Waiting j) :
    Waiting (receiveFrom cfg connect n j packet) ∨
      Ended cfg connect (receiveFrom cfg connect n j packet) := by
  induction n generalizing j packet with
  | zero => exact .inl h
  | succ n ih =>
    unfold receiveFrom
    dsimp only
    generalize readbufSize - j.readbuf.length - 1 = space
    split
    · exact .inl (h.1.finish _)
    split
    · exact .inl h
    have htls := h.1.tlsActive_eq
    rcases drainFrom_unencrypted cfg connect (h.1.fillBuffer (packet.take space)) (Nat.le_refl _) with
      hdrain | hdone
    · split
      · exact .inl hdrain
      · exact ih _ hdrain
    · -- The handshake is done, and the rest of the packet is not read.
      have hactive : (drain cfg connect (fillBuffer j (packet.take space))).tlsActive = true :=
        hdone.late.2
      have hswitch : ¬(drain cfg connect (fillBuffer j (packet.take space))).tlsActive =
          j.tlsActive := by
        rw [hactive, htls]
        exact nofun
      rw [if_neg hswitch]
      split
      · exact .inr (.inl hdone)
      · exact .inr (hdone.receiveFrom_nil n)

/-! ## Whole runs -/

/-- What an event does before the handshake is done: it is not done after it, or it is done within
`begin_tls`, or when `SSL_connect` is called again. -/
theorem step_unencrypted (cfg : Cfg) (h : Waiting j) (e : Event) :
    Waiting (step cfg j e) ∨
      (∃ packet connect, e = .read packet connect ∧ Ended cfg connect (step cfg j e)) ∨
      (e = .tlsProgress .done ∧ j.state = .tlsAfterStarttls ∧ step cfg j e = continueTls j .done) := by
  have hread : ∀ b, Waiting { j with reading := b } := fun b =>
    ⟨⟨h.1.tlsActive_eq, h.1.encrypted_eq, h.1.state_ne, h.1.taken⟩, h.2⟩
  cases e with
  | read packet connect =>
    unfold step
    dsimp only
    split
    · exact .inl h
    unfold receive
    split
    · exact .inl (hread true)
    · exact (receiveFrom_unencrypted cfg connect (packet.length + 1) packet (hread true)).imp_right
        fun hdone => .inl ⟨packet, connect, rfl, hdone⟩
  | wouldBlock => exact .inl (hread false)
  | tlsProgress connect =>
    unfold step
    dsimp only
    split
    · next hhand =>
      have hst : j.state = .tlsAfterStarttls := by
        have hne := h.1.state_ne
        revert hhand hne
        unfold handshaking
        cases j.state <;> simp
      cases connect with
      | again => exact .inl h
      | failed => exact .inl (h.1.finish _)
      | done => exact .inr (.inr ⟨rfl, hst, rfl⟩)
    · exact .inl h
  | lost =>
    unfold step
    dsimp only
    split
    · exact .inl h
    · exact .inl (h.1.finish _)

theorem run_concat (cfg : Cfg) (pre : List Event) (e : Event) :
    run cfg (pre ++ [e]) = step cfg (run cfg pre) e := by
  simp [run]

/-- A job waits for a reply without encryption, or is past the handshake and encrypted. -/
theorem run_cases (hsec : cfg.security = .starttls) (events : List Event) :
    Waiting (run cfg events) ∨
      ((run cfg events).state.late = true ∧ (run cfg events).tlsActive = true) := by
  induction events using reverseRecOn with
  | nil =>
    have hst : (run cfg []).state = .waitBanner := by simp [run, start, hsec]
    exact .inl ⟨⟨rfl, rfl, by simp [hst], by simp [hst]⟩, .inr rfl⟩
  | append_singleton events e ih =>
    rw [run_concat]
    rcases ih with h | ⟨hlate, htls⟩
    · rcases step_unencrypted cfg h e with hplain | ⟨_, _, -, hdone⟩ | ⟨-, hst, heq⟩
      · exact .inl hplain
      · exact .inr hdone.late
      · rw [heq]
        simp only [continueTls, hst, sendLine]
        exact .inr ⟨rfl, trivial⟩
    · obtain ⟨hsame, htls'⟩ := @Same.step cfg _ _ (.refl hlate) e
      exact .inr ⟨hsame.late, htls'.trans htls⟩

/-! ## Telling sessions apart -/

/-- The session right after the handshake, with nothing in the buffer. -/
def afterHandshake : SmtpJob :=
  { state := .sentEhlo2, tlsActive := true, readbuf := [], sent := [], outcome := none, reading := false
    encrypted := [], plain := [] }

theorem length_of_replyOf_text {line t : List UInt8} (h : (replyOf line).text = some t) :
    t.length + 4 = line.length := by
  unfold replyOf at h
  repeat' split at h
  all_goals cases h
  simp

/-- A line inside of TLS by which a session is told apart from the one with an empty buffer. -/
def probe : List UInt8 := ascii "250 x\r\n"

def probeReply : Reply := ⟨250, false, some (ascii "x")⟩

theorem parseReply_append_probe {left : List UInt8} (hleft : left ≠ [])
    (hline : parseReply left = none) :
    parseReply (left ++ probe) = none ∨
      ∃ r, r ≠ probeReply ∧ parseReply (left ++ probe) = some (r, []) := by
  rw [parseReply_eq_none_iff] at hline
  by_cases hzero : 0 ∈ left
  · -- The search does not come to the probe.
    have hne : (left.takeWhile (· != 0)).length ≠ left.length := by
      intro hlen
      have hpre : left.takeWhile (· != 0) <+: left := takeWhile_prefix _
      have hself := hpre.eq_of_length hlen
      simpa using takeWhile_eq_self_iff.1 hself 0 hzero
    refine .inl ?_
    rw [parseReply_eq_none_iff, takeWhile_append, if_neg hne]
    exact hline
  · have hall : ∀ b ∈ left, (b != 0) = true := fun b hb =>
      bne_iff_ne.mpr fun heq => hzero (heq ▸ hb)
    have hlf : 10 ∉ left := by rwa [takeWhile_eq_self_iff.2 hall] at hline
    have hsplit : left ++ probe = (left ++ ascii "250 x") ++ 13 :: 10 :: [] := by
      rw [append_assoc]
      rfl
    have hwhole : (left ++ probe).takeWhile (· != 0) = left ++ probe := by
      rw [takeWhile_eq_self_iff]
      exact forall_mem_append.mpr ⟨hall, forall_mem_of_all (by decide)⟩
    have hlf' : 10 ∉ left ++ ascii "250 x" := by
      rw [mem_append, not_or]
      exact ⟨hlf, by decide⟩
    have hcrlf : findCrlf (left ++ probe) = some (left ++ ascii "250 x").length := by
      rw [hsplit]
      exact findCrlf_append hlf'
    have hparse : parseReply (left ++ probe) = some (replyOf (left ++ ascii "250 x"), []) := by
      unfold parseReply findEol
      simp only [hwhole, hcrlf]
      rw [hsplit, take_left, drop_length_add_append]
      rfl
    refine .inr ⟨_, fun heq => ?_, hparse⟩
    -- The text would have to be a single byte, but it has those of the buffer as well.
    have hlen := length_of_replyOf_text (congrArg Reply.text heq)
    have hpos := length_pos_iff.2 hleft
    rw [length_append] at hlen
    have hx : (ascii "x").length = 1 := rfl
    have h250 : (ascii "250 x").length = 5 := rfl
    omega

/-- What is taken of a packet that fits, which may leave the buffer full. -/
theorem encrypted_receiveFrom_fits {n : ℕ} {packet : List UInt8} (hne : packet ≠ [])
    (hfits : packet.length ≤ readbufSize - j.readbuf.length - 1) :
    (receiveFrom cfg connect (n + 1) j packet).encrypted =
      (drain cfg connect (fillBuffer j packet)).encrypted := by
  have hpos := length_pos_iff.2 hne
  unfold receiveFrom
  dsimp only
  rw [if_neg (by omega), if_neg hne, take_of_length_le hfits, drop_of_length_le hfits, ite_self]
  split
  · rfl
  cases n with
  | zero => rfl
  | succ n =>
    unfold receiveFrom
    dsimp only
    split
    · rfl
    · rw [if_pos rfl]

theorem drain_single (hlate : j.state.late = true) (htls : j.tlsActive = true)
    (henc : j.encrypted = []) (hparse : parseReply j.readbuf = some (r, [])) :
    (drain cfg connect j).encrypted = [r] := by
  obtain ⟨n, hn⟩ := Nat.exists_eq_add_one.2 (Nat.zero_lt_of_lt (length_rest_lt hparse))
  have htake : (takeLine j r []).encrypted = [r] := by simp [takeLine, htls, henc]
  unfold drain
  rw [hn, drainFrom_some n hparse]
  split
  · rw [drainFrom_none n rfl, htake]
  obtain ⟨hframe, -⟩ := @frame_processReply cfg connect (takeLine j r []) hlate r
  have hnone : parseReply (processReply cfg connect (takeLine j r []) r).readbuf = none := by
    rw [hframe.readbuf_eq]
    rfl
  rw [drainFrom_none n hnone, ite_self, hframe.encrypted_eq, htake]

theorem step_read_late (hlate : j.state.late = true) (hdone : j.state ≠ .done) (packet : List UInt8) :
    step cfg j (.read packet connect) =
      receiveFrom cfg connect (packet.length + 1) { j with reading := true } packet := by
  have hhand := (late_ne hlate).2
  simp only [step, hhand, Bool.false_and, Bool.false_eq_true, if_false, receive, hdone]

theorem step_probe_afterHandshake (cfg : Cfg) :
    (step cfg afterHandshake (.read probe .again)).encrypted = [probeReply] := by
  rw [step_read_late rfl (by decide)]
  rw [encrypted_receiveFrom_fits (by decide) (by decide)]
  exact drain_single rfl rfl rfl (by decide)

theorem parseReply_append_take_probe {left : List UInt8} (hline : parseReply left = none) {k : ℕ}
    (hk : k < probe.length) : parseReply (left ++ probe.take k) = none := by
  rw [parseReply_eq_none_iff] at hline ⊢
  have hlf : 10 ∉ probe.take k := by
    intro hmem
    have hmem' : 10 ∈ probe.take 6 :=
      take_subset_take_left probe (Nat.le_of_lt_succ hk) hmem
    revert hmem'
    decide
  rw [takeWhile_append]
  split
  · next heq =>
    have hpre : left.takeWhile (· != 0) <+: left := takeWhile_prefix _
    have hself := hpre.eq_of_length heq
    rw [hself] at hline
    rw [mem_append, not_or]
    exact ⟨hline, fun hmem => hlf ((takeWhile_sublist _).mem hmem)⟩
  · exact hline

section

variable (hst : j.state = .sentEhlo2) (htls : j.tlsActive = true) (henc : j.encrypted = [])
  (hline : parseReply j.readbuf = none)
include hst htls henc hline

theorem receiveFrom_probe (hleft : j.readbuf ≠ []) :
    (receiveFrom cfg connect (probe.length + 1) j probe).encrypted ≠ [probeReply] := by
  have hnil : ([] : List Reply) ≠ [probeReply] := cons_ne_nil _ _ |>.symm
  by_cases hfits : probe.length ≤ readbufSize - j.readbuf.length - 1
  · rw [encrypted_receiveFrom_fits (by decide) hfits]
    rcases parseReply_append_probe hleft hline with hnone | ⟨r, hr, hsome⟩
    · unfold drain
      rw [drainFrom_none _ (show parseReply (fillBuffer j probe).readbuf = none from hnone)]
      change j.encrypted ≠ _
      rwa [henc]
    · have hlate : (fillBuffer j probe).state.late = true := by
        change j.state.late = true
        rw [hst]
        rfl
      rw [drain_single hlate htls henc hsome]
      simpa using hr
  · -- The buffer is full before the line ends, and the job fails.
    unfold receiveFrom
    obtain ⟨space, hs⟩ : ∃ space, readbufSize - j.readbuf.length - 1 = space := ⟨_, rfl⟩
    rw [hs] at hfits ⊢
    dsimp only
    by_cases hspace : space = 0
    · rw [if_pos hspace]
      change j.encrypted ≠ _
      rwa [henc]
    have hk := Nat.lt_of_not_le hfits
    have hdrain : drain cfg connect (fillBuffer j (probe.take space)) =
        fillBuffer j (probe.take space) :=
      drainFrom_none _ (parseReply_append_take_probe hline hk)
    have hfull : readbufSize - (fillBuffer j (probe.take space)).readbuf.length - 1 = 0 := by
      simp only [fillBuffer, length_append, length_take]
      omega
    have hgo : (fillBuffer j (probe.take space)).state ≠ .done := by
      change j.state ≠ .done
      rw [hst]
      decide
    rw [if_neg hspace, if_neg (by decide), hdrain, if_neg hgo, show probe.length = 6 + 1 from rfl]
    unfold receiveFrom
    dsimp only
    rw [if_pos hfull]
    change j.encrypted ≠ _
    rwa [henc]

theorem step_probe (cfg : Cfg) (hleft : j.readbuf ≠ []) :
    (step cfg j (.read probe .again)).encrypted ≠ [probeReply] := by
  rw [step_read_late (by rw [hst]; rfl) (by rw [hst]; decide)]
  exact receiveFrom_probe (j := { j with reading := true }) hst htls henc hline hleft

/-- The replies that are taken inside of TLS are those of a session with an empty buffer, whatever is
received, exactly if the buffer is empty. -/
theorem encrypted_eq_iff :
    (∀ later : List Event, (later.foldl (step cfg) j).encrypted =
        (later.foldl (step cfg) afterHandshake).encrypted) ↔ j.readbuf = [] := by
  constructor
  · intro h
    by_contra hleft
    refine step_probe hst htls henc hline cfg hleft ?_
    rw [← step_probe_afterHandshake cfg]
    exact h [.read probe .again]
  · intro hnil later
    have hsame : Same afterHandshake j := ⟨rfl, hst, htls, hnil, henc⟩
    exact (hsame.foldl later).encrypted_eq

end

/-! ## The bytes between the reply and the handshake -/

/-- The bytes are whole lines, and the search for line ends comes to all of them. -/
def WholeLines (plain : List UInt8) : Prop := plain = [] ∨ (0 ∉ plain ∧ plain.getLast? = some 10)

instance (plain : List UInt8) : Decidable (WholeLines plain) :=
  inferInstanceAs (Decidable (plain = [] ∨ (0 ∉ plain ∧ plain.getLast? = some 10)))

theorem readbuf_eq_nil_iff (h : Unencrypted j) (hst : j.state = .tlsAfterStarttls)
    (hline : parseReply j.readbuf = none) : j.readbuf = [] ↔ WholeLines j.plain := by
  obtain ⟨lines, hplain, hzero, hlines⟩ := h.taken hst
  rw [parseReply_eq_none_iff] at hline
  constructor
  · intro hnil
    rw [hnil, append_nil] at hplain
    rw [hplain]
    exact hlines.imp_right fun hlast => ⟨hzero, hlast⟩
  · rintro (hnil | ⟨hzero', hlast⟩)
    · rw [hnil] at hplain
      exact (append_eq_nil_iff.1 hplain.symm).2
    · by_contra hne
      -- Then the buffer ends with a line feed that the search comes to.
      have hlf : j.readbuf.getLast? = some 10 := by
        rw [hplain, getLast?_append, getLast?_eq_some_getLast hne, some_or] at hlast
        rw [getLast?_eq_some_getLast hne, hlast]
      have hself : j.readbuf.takeWhile (· != 0) = j.readbuf := by
        rw [takeWhile_eq_self_iff]
        intro b hb
        rw [bne_iff_ne]
        rintro rfl
        exact hzero' (by rw [hplain]; exact mem_append_right _ hb)
      rw [hself] at hline
      exact hline (mem_of_getLast? hlf)

/-- If the handshake is done within `begin_tls`, what is in the buffer is read as replies at once. -/
theorem encrypted_eq_iff_of_fresh (h : Fresh j) {m : ℕ} (hm : j.readbuf.length ≤ m) :
    (∀ later : List Event, (later.foldl (step cfg) (drainFrom cfg connect m j)).encrypted =
        (later.foldl (step cfg) afterHandshake).encrypted) ↔
      (drainFrom cfg connect m j).plain = [] := by
  have hlate : j.state.late = true := by rw [h.state_eq]; rfl
  rw [((Same.refl hlate).drainFrom m).2.plain_eq, h.plain_eq]
  cases hparse : parseReply j.readbuf with
  | none =>
    rw [drainFrom_none m hparse]
    exact encrypted_eq_iff h.state_eq h.tlsActive_eq h.encrypted_eq hparse
  | some p =>
    obtain ⟨r, rest⟩ := p
    have hne : j.readbuf ≠ [] := by
      intro hnil
      rw [hnil] at hparse
      cases hparse
    refine ⟨fun hall => ?_, fun hnil => absurd hnil hne⟩
    -- A reply was taken although nothing was received inside of TLS.
    have hempty : (drainFrom cfg connect m j).encrypted = [] := hall []
    have hlt := length_rest_lt hparse
    obtain ⟨n, rfl⟩ := Nat.exists_eq_add_one.2 (show 0 < m by omega)
    have htake : (takeLine j r rest).encrypted = [r] := by
      simp [takeLine, h.tlsActive_eq, h.encrypted_eq]
    have hsame : Same (takeLine j r rest) (takeLine j r rest) := .refl hlate
    have hprefix : [r] <+: (drainFrom cfg connect (n + 1) j).encrypted := by
      rw [drainFrom_some n hparse, ← htake]
      split
      · exact (hsame.drainFrom n).2.encrypted
      obtain ⟨hnext, hlater⟩ := @Same.processReply cfg connect _ _ hsame r
      split
      · exact hlater.encrypted
      · exact (hlater.trans (hnext.drainFrom n).2).encrypted
    rw [hempty] at hprefix
    simp at hprefix

/-- The job has failed, and takes no replies any more. -/
theorem encrypted_ne_of_done (hdone : j.state = .done) :
    ¬∀ later : List Event, (later.foldl (step cfg) j).encrypted =
        (later.foldl (step cfg) afterHandshake).encrypted := by
  intro hall
  have hempty : j.encrypted = [] := hall []
  have hprobe : (step cfg j (.read probe .again)).encrypted =
      (step cfg afterHandshake (.read probe .again)).encrypted := hall [.read probe .again]
  rw [step_probe_afterHandshake] at hprobe
  unfold step receive at hprobe
  rw [hdone] at hprobe
  exact cons_ne_nil _ _ (hprobe.symm.trans hempty)

/-- What must have been received before the handshake: nothing, if it is done within `begin_tls`;
otherwise whole lines. -/
def CleanHandshake (e : Event) (plain : List UInt8) : Prop :=
  match e with
  | .read _ _ => plain = []
  | _ => WholeLines plain

/-- In every run, at the event by which the handshake after `STARTTLS` is done: the replies that are
taken inside of TLS depend on what is received inside of TLS only, exactly if nothing was received
between the reply and the handshake, or whole lines that were ignored while it was under way. -/
theorem replies_independent_iff (cfg : Cfg) (hsec : cfg.security = .starttls) (pre : List Event)
    (e : Event) (hbefore : (run cfg pre).tlsActive = false)
    (hafter : (run cfg (pre ++ [e])).tlsActive = true) :
    (∀ later : List Event, (run cfg (pre ++ [e] ++ later)).encrypted =
        (later.foldl (step cfg) afterHandshake).encrypted) ↔
      CleanHandshake e (run cfg (pre ++ [e])).plain := by
  have hrun : ∀ later, run cfg (pre ++ [e] ++ later) =
      later.foldl (step cfg) (run cfg (pre ++ [e])) := by
    intro later
    simp [run]
  simp only [hrun]
  rcases run_cases hsec pre with hwait | ⟨-, htls⟩
  swap
  · rw [hbefore] at htls
    cases htls
  rw [run_concat] at hafter ⊢
  obtain ⟨h, hj⟩ := hwait
  rcases step_unencrypted cfg ⟨h, hj⟩ e with ⟨hplain, -⟩ | ⟨_, connect, rfl, hended⟩ | ⟨rfl, hst, heq⟩
  · rw [hplain.tlsActive_eq] at hafter
    cases hafter
  · rcases hended with ⟨j', m, hj', hm, heq⟩ | ⟨_, ⟨j', m, hj', hm, rfl⟩, hleft, o, heq⟩
    · rw [heq]
      exact encrypted_eq_iff_of_fresh hj' hm
    -- Bytes were left in the buffer, so that some were received.
    rw [heq]
    refine iff_of_false (encrypted_ne_of_done rfl) fun hnil => hleft ?_
    have hlate : j'.state.late = true := by rw [hj'.state_eq]; rfl
    have hplain : (drainFrom cfg connect m j').plain = j'.readbuf :=
      ((Same.refl hlate).drainFrom m).2.plain_eq.trans hj'.plain_eq
    have hempty : j'.readbuf = [] := hplain.symm.trans hnil
    rw [drainFrom_none m (by rw [hempty]; rfl), hempty]
  have hline : parseReply (run cfg pre).readbuf = none := by
    refine hj.resolve_left ?_
    rw [hst]
    decide
  have hdone : continueTls (run cfg pre) .done =
      sendLine { run cfg pre with tlsActive := true, state := .sentEhlo2 } (ascii "EHLO obbyircd") := by
    simp only [continueTls, hst]
  have hiff := @encrypted_eq_iff cfg (sendLine { run cfg pre with
    tlsActive := true, state := .sentEhlo2 } (ascii "EHLO obbyircd")) rfl rfl h.encrypted_eq hline
  rw [heq, hdone]
  have hclean := readbuf_eq_nil_iff h hst hline
  exact hiff.trans hclean

def plainCfg : Cfg := ⟨.starttls, none, ascii "a@b", ascii "c@d", ascii "."⟩

/-- A session up to the reply to `STARTTLS`, which ends with the given bytes in the same packet. -/
def injected (left : String) : List Event :=
  [.read (ascii "220 hi\r\n") .again, .read (ascii "250 hi\r\n") .again,
    .read (ascii "220 go\r\n" ++ ascii left) .again, .wouldBlock]

/-- The server refuses inside of TLS. -/
def refusal : Event := .read (ascii "554 no\r\n") .again

/-- `replies_independent_iff` where a line that is ignored was sent behind the reply. -/
theorem replies_independent_ignored_line :
    (run plainCfg (injected "250 no\r\n" ++ [.tlsProgress .done] ++ [refusal])).encrypted =
      ([refusal].foldl (step plainCfg) afterHandshake).encrypted :=
  (replies_independent_iff plainCfg rfl (injected "250 no\r\n") (.tlsProgress .done)
    (by decide +kernel) (by decide +kernel)).2 (.inr (by decide +kernel)) [refusal]

/-- Four bytes that were sent in plain text turn a refusal inside of TLS into a success. -/
theorem refusal_read_as_success :
    (run plainCfg (injected "250 " ++ [.tlsProgress .done, refusal])).encrypted =
        [⟨250, false, some (ascii "554 no")⟩] ∧
      (run plainCfg (injected "250 " ++ [.tlsProgress .done, refusal])).state = .sentMailFrom ∧
      (step plainCfg afterHandshake refusal).encrypted = [⟨554, false, some (ascii "no")⟩] ∧
      ¬ ∀ later : List Event,
        (run plainCfg (injected "250 " ++ [.tlsProgress .done] ++ later)).encrypted =
          (later.foldl (step plainCfg) afterHandshake).encrypted := by
  refine ⟨by decide +kernel, by decide +kernel, by decide +kernel, fun h => ?_⟩
  have hstep := h [refusal]
  revert hstep
  decide +kernel

end ObbyIRCd.Smtp
