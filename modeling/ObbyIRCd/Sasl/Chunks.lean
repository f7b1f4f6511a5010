import ObbyIRCd.Sasl.Stale

/-!
# The chunks of a bearer payload

A bearer token is longer than a line, so `AUTHENTICATE` takes it in chunks of 400 characters, which
`oauth_sasl_accumulate` collects on the connection. The buffer is emptied when a payload is complete, but
not when the exchange is given up or another mechanism is chosen (`stale_chunk`), and nothing limits it.
-/

namespace ObbyIRCd.Sasl

open List Conn

/-- The message chooses a mechanism or gives up. -/
def restarts (param : List Char) (c : Conn) : Bool :=
  match c.stepup with
  | none =>
    (["*", "PLAIN", "ANONYMOUS", "EXTERNAL"].map String.toList).contains param ||
      (["draft-webauthn-bio", "webauthn-bio", "scram-sha-256", "oauthbearer", "ircv3bearer"].map
        String.toList).contains (lower param)
  | some _ => param = ['*'] || (["totp", "ircv3bearer"].map String.toList).contains (lower param)

/-- The message goes to a bearer mechanism. -/
def isChunk (param : List Char) (c : Conn) : Bool :=
  param ≠ [] && !restarts param c &&
    match c.stepup with
    | none => c.saslType = some .oauthbearer || c.saslType = some .ircv3bearer
    | some _ => c.saslType = some .oauthStepup

variable {w : World} {param : List Char} {c : Conn}

/-! ## The buffer -/

theorem buffer_firstFactor (db : Store) (acc : Account) (f : Factor) :
    (firstFactor db acc f c).1.buffer = c.buffer := by
  unfold firstFactor
  split
  · rename_i c' hstart
    unfold twofaMaybeStartStepup at hstart
    split_ifs at hstart
    obtain rfl := Option.some.inj hstart
    rfl
  · rfl

theorem buffer_authenticatePlain : (authenticatePlain w param c).1.buffer = c.buffer := by
  unfold authenticatePlain
  split
  · rfl
  split_ifs
  · rfl
  split
  · rfl
  split_ifs
  · exact buffer_firstFactor _ _ _
  · rfl

theorem buffer_authenticateExternal : (authenticateExternal w c).1.buffer = c.buffer := by
  unfold authenticateExternal
  split
  · rfl
  split_ifs
  · rfl
  split
  · rfl
  · exact buffer_firstFactor _ _ _

theorem buffer_scram (acc : Option Account) : (match acc with
    | none => scramHandleClientFirst w param c
    | some acc => scramHandleClientFinal w acc param c).1.buffer = c.buffer := by
  rcases acc with - | acc
  · dsimp only
    unfold scramHandleClientFirst
    split
    · rfl
    split_ifs <;> rfl
  · dsimp only
    unfold scramHandleClientFinal
    split_ifs
    · rfl
    · exact buffer_firstFactor _ _ _

theorem buffer_webauthn (st : WebAuthnSaslState) :
    (if st.step = 0 then webauthnSaslHandleHello w param c
      else webauthnSaslHandleAssertion w st.usernameHint param c).1.buffer = c.buffer := by
  split_ifs
  · unfold webauthnSaslHandleHello
    split
    · rfl
    split_ifs <;> rfl
  · unfold webauthnSaslHandleAssertion
    split <;> rfl

/-- Only the bearer mechanisms use the buffer. -/
theorem buffer_authenticateStep (hs : c.saslType ≠ some .oauthbearer ∧ c.saslType ≠ some .ircv3bearer) :
    (authenticateStep w param c).1.buffer = c.buffer := by
  unfold authenticateStep
  split
  · exact absurd ‹_› hs.1
  · exact absurd ‹_› hs.2
  · exact buffer_authenticateExternal
  · split
    · rfl
    · exact buffer_webauthn _
  · exact buffer_scram c.scram
  · exact buffer_authenticatePlain
  all_goals rfl

/-- A message that is no chunk leaves an empty buffer empty. -/
theorem buffer_of_not_chunk (hbuffer : c.buffer = []) (hchunk : isChunk param c = false) :
    (authenticateAttempt w param c).1.buffer = [] := by
  unfold authenticateAttempt
  cases hs : c.stepup with
  | some s =>
    simp only [isChunk, restarts, hs] at hchunk
    simp only [twofaHandleStepupAuthenticate, stepupFails, secondFactor]
    split_ifs <;> try exact hbuffer
    · rfl
    · simp_all
    · split <;> exact hbuffer
  | none =>
    simp only [isChunk, restarts, hs] at hchunk
    split_ifs <;> try exact hbuffer
    rw [buffer_authenticateStep, hbuffer]
    simp_all

theorem buffer_of_chunk (hchunk : isChunk param c = true) :
    (authenticateAttempt w param c).1.buffer =
      if (oauthSaslAccumulate param c.buffer).2 then [] else (oauthSaslAccumulate param c.buffer).1 := by
  unfold authenticateAttempt
  cases hs : c.stepup with
  | some s =>
    simp [isChunk, restarts, hs] at hchunk
    simp [twofaHandleStepupAuthenticate, hchunk]
    split <;> simp_all
  | none =>
    simp [isChunk, restarts, hs] at hchunk
    obtain ⟨hne, htype | htype⟩ := hchunk
    all_goals
      simp [hne, authenticateStep, authenticateBearer, htype]
      split <;> simp_all

/-- The checks of `cmd_authenticate`. -/
def accepts (param : List Char) : Bool :=
  param.head? ≠ some ':' && ' ' ∉ param && decide (param.length ≤ 400)

/-- The payload that a message hands to the decoder. -/
def handed (param : List Char) (c : Conn) : Option (List Char) :=
  if accepts param && isChunk param c && (oauthSaslAccumulate param c.buffer).2 then
    some (oauthSaslAccumulate param c.buffer).1
  else none

/-- The chunk is the last of its payload. -/
def isFinal (param : List Char) : Bool := param = ['+'] || param.length < 400

/-! ## Exchanges -/

/-- A connection, and the full chunks since the mechanism was chosen or a payload was complete. -/
structure Watched where
  conn : Conn
  chunks : List (List Char)

def Watched.step (x : Watched) (m : World × List Char) : Watched :=
  if accepts m.2 then
    ⟨(authenticateAttempt m.1 m.2 x.conn).1,
      if restarts m.2 x.conn then []
      else if isChunk m.2 x.conn then
        if isFinal m.2 then [] else x.chunks ++ [m.2]
      else x.chunks⟩
  else x

def Watched.run (x : Watched) (ms : List (World × List Char)) : Watched := ms.foldl Watched.step x

/-- An exchange that has begun goes on with its next chunk, and has at most `n` full ones. -/
structure Clean (n : ℕ) (x : Watched) (param : List Char) : Prop where
  next : x.chunks ≠ [] → isChunk param x.conn = true
  few : isFinal param = false → x.chunks.length < n

def AllClean (n : ℕ) : Watched → List (World × List Char) → Prop
  | _, [] => True
  | x, m :: ms => (accepts m.2 = true → Clean n x m.2) ∧ AllClean n (x.step m) ms

/-- The buffer holds the full chunks of the exchange, of which there are at most `n`. -/
structure Watched.Inv (n : ℕ) (x : Watched) : Prop where
  buffer : x.conn.buffer = x.chunks.flatten
  full : ∀ chunk ∈ x.chunks, chunk.length = 400
  few : x.chunks.length ≤ n

variable {x : Watched} {n : ℕ}

theorem restarts_of_chunk (h : isChunk param c = true) : restarts param c = false := by
  simp only [isChunk, Bool.and_eq_true, Bool.not_eq_true'] at h
  exact h.1.2

/-- A chunk that is not the last is kept, and after the last the buffer is empty. -/
theorem buffer_of_chunk_eq (hbuffer : c.buffer = x.chunks.flatten) (hchunk : isChunk param c = true) :
    (authenticateAttempt w param c).1.buffer =
      (if isFinal param then [] else x.chunks ++ [param]).flatten := by
  rw [buffer_of_chunk hchunk]
  unfold oauthSaslAccumulate
  by_cases hplus : param = ['+']
  · by_cases hempty : c.buffer = []
    · simp [isFinal, hplus, hempty]
    · simp [isFinal, hplus, hempty]
  · by_cases hshort : param.length < 400
    · by_cases hempty : c.buffer ++ param = []
      · simp [isFinal, hplus, hshort, hempty]
      · simp only [isFinal, hplus, hshort, hempty, if_false, decide_true, decide_false, ne_eq,
          not_false_eq_true, or_true, and_self, Bool.or_true, if_true, flatten_nil]
    · simp [isFinal, hplus, hshort, hbuffer]

/-- One message of an orderly client. -/
theorem Watched.Inv.step (hx : x.Inv n) (m : World × List Char)
    (hclean : accepts m.2 = true → Clean n x m.2) : (x.step m).Inv n := by
  unfold Watched.step
  rcases haccepts : accepts m.2 with - | -
  · exact hx
  obtain ⟨hnext, hfew⟩ := hclean haccepts
  rw [if_pos rfl]
  rcases hchunk : isChunk m.2 x.conn with - | -
  · -- no chunks wait, and none come
    have hnil : x.chunks = [] := by_contra fun hne => absurd (hnext hne) (by rw [hchunk]; decide)
    have hempty : x.conn.buffer = [] := by rw [hx.buffer, hnil]; rfl
    have hchunks : (if restarts m.2 x.conn then [] else x.chunks) = [] := by
      rw [hnil, ite_self]
    simp only [Bool.false_eq_true, if_false, hchunks]
    exact ⟨buffer_of_not_chunk hempty hchunk, forall_mem_nil _, Nat.zero_le n⟩
  · have hbuffer := buffer_of_chunk_eq (w := m.1) hx.buffer hchunk
    simp only [restarts_of_chunk hchunk, Bool.false_eq_true, if_false, if_true]
    rcases hfinal : isFinal m.2 with - | -
    · have hlength : m.2.length = 400 := by
        simp only [isFinal, Bool.or_eq_false_iff, decide_eq_false_iff_not] at hfinal
        simp only [accepts, Bool.and_eq_true, decide_eq_true_eq] at haccepts
        omega
      rw [hfinal] at hbuffer
      refine ⟨hbuffer, forall_mem_append.mpr ⟨hx.full, forall_mem_singleton.mpr hlength⟩, ?_⟩
      show (x.chunks ++ [m.2]).length ≤ n
      rw [length_append, length_singleton]
      exact hfew hfinal
    · rw [hfinal] at hbuffer
      exact ⟨hbuffer, forall_mem_nil _, Nat.zero_le n⟩

/-- The run lemma of the buffer. -/
theorem Watched.Inv.run (hx : x.Inv n) (ms : List (World × List Char)) (hclean : AllClean n x ms) :
    (x.run ms).Inv n := by
  induction ms generalizing x with
  | nil => exact hx
  | cons m ms ih => exact ih (hx.step m hclean.1) hclean.2

theorem Watched.Inv.length_le (hx : x.Inv n) : x.conn.buffer.length ≤ 400 * n := by
  have hlengths : x.chunks.map length = replicate x.chunks.length 400 :=
    eq_replicate_iff.mpr ⟨length_map _, by simpa using hx.full⟩
  rw [hx.buffer, length_flatten, hlengths, sum_replicate_nat, Nat.mul_comm]
  exact Nat.mul_le_mul_left 400 hx.few

/-- A payload is made of the chunks of its own exchange, and the buffer holds no more than those. -/
theorem payload_of_clean (n : ℕ) (ms : List (World × List Char)) (hclean : AllClean n ⟨fresh, []⟩ ms) :
    (Watched.run ⟨fresh, []⟩ ms).conn.buffer.length ≤ 400 * n ∧
      ∀ param full, handed param (Watched.run ⟨fresh, []⟩ ms).conn = some full →
        full = (Watched.run ⟨fresh, []⟩ ms).chunks.flatten ++ if param = ['+'] then [] else param := by
  have hstart : Watched.Inv n ⟨fresh, []⟩ := ⟨rfl, forall_mem_nil _, Nat.zero_le n⟩
  have hinv := hstart.run ms hclean
  refine ⟨hinv.length_le, fun param full hfull => ?_⟩
  unfold handed at hfull
  split_ifs at hfull
  obtain rfl := Option.some.inj hfull
  unfold oauthSaslAccumulate
  rw [← hinv.buffer]
  by_cases hplus : param = ['+']
  · simp [hplus]
  · simp [hplus]

/-- A mechanism is chosen and a full chunk is sent. -/
def firstChunk : List (World × List Char) :=
  ["IRCV3BEARER".toList, replicate 400 'A'].map (githubWorld, ·)

/-- A payload of 401 characters in two chunks. -/
theorem payload_of_clean_two :
    (Watched.run ⟨fresh, []⟩ firstChunk).conn.buffer.length ≤ 400 ∧
      ∃ full, handed ['B'] (Watched.run ⟨fresh, []⟩ firstChunk).conn = some full ∧
        full = replicate 400 'A' ++ ['B'] := by
  have hclean : AllClean 1 ⟨fresh, []⟩ firstChunk :=
    ⟨fun _ => ⟨by decide +kernel, by decide +kernel⟩, fun _ => ⟨by decide +kernel, by decide +kernel⟩,
      trivial⟩
  have hpayload := payload_of_clean 1 firstChunk hclean
  have hchunks : (Watched.run ⟨fresh, []⟩ firstChunk).chunks.flatten = replicate 400 'A' := by
    decide +kernel
  have hhanded : (handed ['B'] (Watched.run ⟨fresh, []⟩ firstChunk).conn).isSome = true := by
    decide +kernel
  obtain ⟨full, hfull⟩ := Option.isSome_iff_exists.mp hhanded
  refine ⟨hpayload.1, full, hfull, ?_⟩
  rw [hpayload.2 ['B'] full hfull, hchunks]
  rfl

/-- A mechanism is chosen, a chunk is sent, and the same again after `*`. -/
def abandoned : List (World × List Char) :=
  ["IRCV3BEARER".toList, replicate 400 'A', ['*'], "IRCV3BEARER".toList].map (githubWorld, ·)

/-- The old chunk comes before the new one. -/
theorem stale_chunk : (Watched.run ⟨fresh, []⟩ abandoned).chunks = [] ∧
    handed ['B'] (Watched.run ⟨fresh, []⟩ abandoned).conn =
      some (replicate 400 'A' ++ ['B']) := by
  decide +kernel

end ObbyIRCd.Sasl
