import ObbyIRCd.Chanmode.Flood

/-!
# Text floods and repeated messages

`floodprot_can_send_to_channel` counts the messages of a member in a time slot, for the limits `t` and
`r` of channel mode +f. The counter is an unsigned short that grows with dropped messages too, so the
limit holds while fewer than 65536 messages are sent in the slot (`slot_passed_iff`).

A message is compared with the last two by its hash. `gen_floodprot_msghash` puts the message into a
form without formatting and case, but hashes the message as it was sent (`msghash_eq_iff`).
-/

namespace ObbyIRCd.Chanmode

open List

/-! ## The form of a message -/

/-- `isxdigit`. -/
def isxdigit (c : Char) : Bool :=
  c.isDigit || ('a' ≤ c && c ≤ 'f') || ('A' ≤ c && c ≤ 'F')

/-- What `StripControlCodesEx` is reading: text, a colour (whether its background is reached, and the
digits so far), or an RGB colour (the digits so far). -/
inductive StripMode
  | text
  | col (background : Bool) (nc : ℕ)
  | rgb (nc : ℕ)

/-- An RGB code that is cut short by other text. The loop then goes back to the text right behind the
code's first character; at the end of the text it does not. -/
def rgbInvalid (nc : ℕ) : List Char → Bool
  | [] => false
  | c :: text =>
    if isxdigit c ∧ nc < 6 then rgbInvalid (nc + 1) text
    else if c = ',' then rgbInvalid 0 text
    else nc ≠ 6

/-- The codes that are left out alone: bold, underline, reverse, plain, italic, strikethrough and
monospace. -/
def formatCodes : List Char := ['\x02', '\x1f', '\x16', '\x0f', '\x1d', '\x1e', '\x11']

/-- `StripControlCodesEx` with no flags. `skip` characters are jumped over. -/
def stripControlCodesEx (skip : ℕ) (mode : StripMode) : List Char → List Char
  | [] => []
  | c :: text =>
    -- the `switch` on a character that is no part of a colour
    let other : List Char :=
      if c = '\x03' then stripControlCodesEx 0 (.col false 0) text
      else if c = '\x04' then
        stripControlCodesEx 0 (if rgbInvalid 0 text then .text else .rgb 0) text
      else if c ∈ formatCodes then stripControlCodesEx 0 .text text
      else if c = 'â' ∧ text.take 2 = ['\u0080', '\u008b'] then
        stripControlCodesEx 2 .text text
      else c :: stripControlCodesEx 0 .text text
    if skip ≠ 0 then stripControlCodesEx (skip - 1) mode text
    else
      match mode with
      | .text => other
      | .col background nc =>
        if c.isDigit ∧ nc < 2 then stripControlCodesEx 0 (.col background (nc + 1)) text
        else if background = false ∧ c = ',' ∧ (text.head?.any Char.isDigit) ∧ 0 < nc ∧ nc < 3 then
          stripControlCodesEx 0 (.col true 0) text
        else other
      | .rgb nc =>
        if isxdigit c ∧ nc < 6 then stripControlCodesEx 0 (.rgb (nc + 1)) text
        else if c = ',' then stripControlCodesEx 0 (.rgb 0) text
        else other

/-- `StripControlCodes`, into its buffer of 8192 bytes. -/
def stripControlCodes (text : List Char) : List Char :=
  (stripControlCodesEx 0 .text text).take 8191

/-- The form that `gen_floodprot_msghash` puts a message into: without control codes, in lower case
and without the `\001` around a CTCP and the word `ACTION`. -/
def msghashPlaintext (text : List Char) : List Char :=
  let plaintext := (stripControlCodes text).map fun c => if 64 < c.toNat then c.toLower else c
  if text.head? = some '\x01' then
    let plaintext := if plaintext.getLast? = some '\x01' then plaintext.dropLast else plaintext
    if "ACTION ".toList <+: text.tail then plaintext.drop 8 else plaintext.drop 1
  else plaintext

/-- `gen_floodprot_msghash`: the hash that it returns, and the form that it leaves in the buffer. -/
def genFloodprotMsghash (siphash : List Char → List UInt8 → UInt64) (key : List UInt8)
    (text : List Char) : UInt64 × List Char :=
  (siphash text key, msghashPlaintext text)

/-- Two messages of the same form have the same hash, for every key and whatever the hash function
does, exactly when they are the same message. -/
theorem msghash_eq_iff (text text' : List Char) :
    (msghashPlaintext text = msghashPlaintext text' → ∀ siphash key,
      (genFloodprotMsghash siphash key text).1 = (genFloodprotMsghash siphash key text').1) ↔
      (msghashPlaintext text = msghashPlaintext text' → text = text') := by
  refine imp_congr_right fun _ => ⟨fun h => ?_, ?_⟩
  · -- A hash function that tells the first message from all others.
    have hone := h (fun s _ => if s = text then 1 else 0) []
    by_contra hne
    simp only [genFloodprotMsghash, if_true, if_neg (Ne.symm hne)] at hone
    exact absurd hone (by decide)
  · rintro rfl siphash key
    rfl

/-- A word in bold upper case and in lower case, with the length as the hash. -/
theorem msghash_ne_of_format :
    msghashPlaintext "\x02HELLO\x02".toList = msghashPlaintext "hello".toList ∧
      (genFloodprotMsghash (fun s _ => UInt64.ofNat s.length) [] "\x02HELLO\x02".toList).1 ≠
        (genFloodprotMsghash (fun s _ => UInt64.ofNat s.length) [] "hello".toList).1 := by
  decide +kernel

/-! ## The messages of a member -/

/-- `MemberFlood`. -/
structure MemberFlood where
  nmsg : ℕ
  nmsgRepeat : ℕ
  firstmsg : ℤ
  lastmsg : UInt64
  prevmsg : UInt64

/-- What decides about a member: an override or a channel access of `hoaq`, and the exemptions from
the flood types `t` and `r`. -/
structure FloodMember where
  override : Bool
  exemptText : Bool
  exemptRepeat : Bool

/-- The answers of `floodprot_can_send_to_channel`. After a `kick`, with a ban or not, the sender is
no member any more. -/
inductive SendResult
  | allow | drop | kick (ban : Bool)
deriving DecidableEq

section Send

variable (msghash : List Char → UInt64) (fld : ChannelFloodProtection) (who : FloodMember)

/-- Anti-repeat: whether the message is one too many, and the hashes that are kept. -/
def checkRepeat (m : MemberFlood) (msg : List Char) : Bool × MemberFlood :=
  if fld.limit .repeating = 0 then (false, m)
  else
    let hash := msghash msg
    if m.lastmsg = 0 then (false, { m with lastmsg := hash })
    else if m.lastmsg = hash ∨ m.prevmsg = hash then
      let n := (m.nmsgRepeat + 1) % 2 ^ 16
      (fld.limit .repeating < n, { m with nmsgRepeat := n, prevmsg := m.lastmsg, lastmsg := hash })
    else (false, { m with prevmsg := m.lastmsg, lastmsg := hash })

/-- `floodprot_can_send_to_channel`, for a member of a channel with +f. -/
def floodprotCanSendToChannel (now : ℤ) (m : MemberFlood) (msg : List Char) :
    SendResult × MemberFlood :=
  if who.override ∨ (fld.limit .text = 0 ∧ fld.limit .repeating = 0) then (.allow, m)
  else if fld.per ≤ now - m.firstmsg then
    -- a new time slot
    (.allow,
      { nmsg := 1, nmsgRepeat := 1, firstmsg := now
        lastmsg := if fld.limit .repeating = 0 then m.lastmsg else msghash msg
        prevmsg := if fld.limit .repeating = 0 then m.prevmsg else 0 })
  else
    let (floodingRepeat, m) := checkRepeat msghash fld m msg
    let m := if fld.limit .text = 0 then m else { m with nmsg := (m.nmsg + 1) % 2 ^ 16 }
    let floodingText := fld.limit .text ≠ 0 && fld.limit .text < m.nmsg
    if floodingText ∨ floodingRepeat then
      if floodingText ∧ who.exemptText ∨ floodingRepeat ∧ who.exemptRepeat then
        (.allow, { m with nmsg := 0, nmsgRepeat := 0 })
      else
        let action := fld.action (if floodingRepeat then .repeating else .text)
        (if action = 'd' then .drop else .kick (action = 'b'), m)
    else (.allow, m)

/-- The answers to messages, each with its time, up to a kick. -/
def sendAll (m : MemberFlood) : List (ℤ × List Char) → List SendResult
  | [] => []
  | (now, msg) :: rest =>
    let answer := floodprotCanSendToChannel msghash fld who now m msg
    answer.1 :: match answer.1 with
      | .kick _ => []
      | _ => sendAll answer.2 rest

/-- A text limit with action `d`, and a member who is not exempt from anything. -/
structure TextLimited : Prop where
  limit_pos : 1 ≤ fld.limit .text
  limit_le : fld.limit .text ≤ 999
  action : fld.action .text = 'd'
  noOverride : who.override = false
  noExemptText : who.exemptText = false
  noExemptRepeat : who.exemptRepeat = false

variable {msghash fld who}

theorem checkRepeat_counter (m : MemberFlood) (msg : List Char) :
    (checkRepeat msghash fld m msg).2.nmsg = m.nmsg ∧
      (checkRepeat msghash fld m msg).2.firstmsg = m.firstmsg := by
  unfold checkRepeat
  dsimp only
  split_ifs <;> exact ⟨rfl, rfl⟩

/-- A message within the slot: the counter grows, whether or not the message passes, and a message
passes only while the counter is within the limit. -/
theorem send_within_slot (h : TextLimited fld who) {now : ℤ} {m : MemberFlood} (msg : List Char)
    (hslot : now - m.firstmsg < fld.per) {answer : SendResult × MemberFlood}
    (hsend : floodprotCanSendToChannel msghash fld who now m msg = answer) :
    answer.2.nmsg = (m.nmsg + 1) % 2 ^ 16 ∧ answer.2.firstmsg = m.firstmsg ∧
      (answer.1 = .allow → (m.nmsg + 1) % 2 ^ 16 ≤ fld.limit .text) ∧
      (fld.limit .repeating = 0 → answer.1 =
        if (m.nmsg + 1) % 2 ^ 16 ≤ fld.limit .text then .allow else .drop) := by
  subst hsend
  have hpos := h.limit_pos
  have hcounter := @checkRepeat_counter msghash fld m msg
  have hoff : fld.limit .repeating = 0 → (checkRepeat msghash fld m msg).1 = false := fun h0 => by
    unfold checkRepeat
    rw [if_pos h0]
  unfold floodprotCanSendToChannel
  dsimp only
  rw [if_neg (by rw [h.noOverride]; simp; omega), if_neg (by omega), if_neg (by omega : fld.limit .text ≠ 0),
    h.noExemptText, h.noExemptRepeat, hcounter.1]
  generalize (checkRepeat msghash fld m msg).1 = floodingRepeat at hoff ⊢
  generalize (m.nmsg + 1) % 2 ^ 16 = n
  have hne : fld.limit .text ≠ 0 := by omega
  by_cases hle : n ≤ fld.limit .text
  · cases floodingRepeat with
    | false => simp [hle, Nat.not_lt.mpr hle, hcounter.2]
    | true =>
      have hon : fld.limit .repeating ≠ 0 := fun h0 => Bool.noConfusion (hoff h0)
      simp [hle, hcounter.2, hon]
  · -- One too many: it is dropped, or there is the action against a repeated message.
    have hlt := Nat.lt_of_not_le hle
    cases floodingRepeat with
    | false => simp [hle, hlt, hne, hcounter.2, h.action]
    | true =>
      have hon : fld.limit .repeating ≠ 0 := fun h0 => Bool.noConfusion (hoff h0)
      have hanswer : (if fld.action .repeating = 'd' then SendResult.drop
          else .kick (fld.action .repeating = 'b')) ≠ .allow := by
        split_ifs <;> simp
      simp [hcounter.2, hon, hanswer]

def passed (msghash : List Char → UInt64) (fld : ChannelFloodProtection) (who : FloodMember)
    (m : MemberFlood) (msgs : List (ℤ × List Char)) : ℕ :=
  (sendAll msghash fld who m msgs).count .allow

theorem passed_cons (m : MemberFlood) (now : ℤ) (msg : List Char) (msgs : List (ℤ × List Char)) :
    passed msghash fld who m ((now, msg) :: msgs) =
      let answer := floodprotCanSendToChannel msghash fld who now m msg
      match answer.1 with
      | .allow => passed msghash fld who answer.2 msgs + 1
      | .drop => passed msghash fld who answer.2 msgs
      | .kick _ => 0 := by
  unfold passed
  rw [sendAll, count_cons]
  generalize floodprotCanSendToChannel msghash fld who now m msg = answer
  obtain ⟨_ | _ | ban, m'⟩ := answer
  · rfl
  · rfl
  · cases ban <;> rfl

variable (h : TextLimited fld who)
include h

theorem passed_le (msgs : List (ℤ × List Char)) (m : MemberFlood)
    (hslot : ∀ msg ∈ msgs, msg.1 - m.firstmsg < fld.per) (hwrap : m.nmsg + msgs.length < 2 ^ 16) :
    min m.nmsg (fld.limit .text) + passed msghash fld who m msgs ≤ fld.limit .text := by
  induction msgs generalizing m with
  | nil => exact Nat.min_le_right _ _
  | cons msg msgs ih =>
    obtain ⟨now, msg⟩ := msg
    rw [passed_cons]
    generalize hsend : floodprotCanSendToChannel msghash fld who now m msg = answer
    obtain ⟨hnmsg, hfirst, hallow, -⟩ := send_within_slot h msg (hslot _ mem_cons_self) hsend
    rw [length_cons] at hwrap
    have hrest := ih answer.2 (fun x hx => hfirst ▸ hslot x (mem_cons_of_mem _ hx)) (by omega)
    dsimp only
    generalize passed msghash fld who answer.2 msgs = k at hrest ⊢
    cases hanswer : answer.1 with
    | allow =>
      have hle := hallow hanswer
      show _ + (k + 1) ≤ _
      omega
    | drop =>
      show _ + k ≤ _
      omega
    | kick ban => exact Nat.min_le_right _ _

/-- Without a limit on repeated messages, one message too many has passed once the counter wraps. -/
theorem passed_ge (hrepeat : fld.limit .repeating = 0) (msgs : List (ℤ × List Char))
    (m : MemberFlood) (hslot : ∀ msg ∈ msgs, msg.1 - m.firstmsg < fld.per) (hlt : m.nmsg < 2 ^ 16)
    (hwrap : 2 ^ 16 ≤ m.nmsg + msgs.length) :
    fld.limit .text < min m.nmsg (fld.limit .text) + passed msghash fld who m msgs := by
  have hlimit := h.limit_le
  induction msgs generalizing m with
  | nil => exact absurd hwrap (by rw [length_nil]; omega)
  | cons msg msgs ih =>
    obtain ⟨now, msg⟩ := msg
    rw [length_cons] at hwrap
    rw [passed_cons]
    generalize hsend : floodprotCanSendToChannel msghash fld who now m msg = answer
    obtain ⟨hnmsg, hfirst, -, hanswer⟩ := send_within_slot h msg (hslot _ mem_cons_self) hsend
    dsimp only
    rw [hanswer hrepeat]
    by_cases hlast : m.nmsg + 1 = 2 ^ 16
    · -- The counter wraps to zero, and the message passes.
      rw [hlast]
      show _ < _ + (_ + 1)
      omega
    · have hrest := ih answer.2 (fun x hx => hfirst ▸ hslot x (mem_cons_of_mem _ hx)) (by omega) (by omega)
      split_ifs with hle
      · show _ < _ + (_ + 1)
        omega
      · show _ < _ + passed msghash fld who _ msgs
        omega

theorem passed_first {m : MemberFlood} {start : ℤ}
    (hstart : fld.per ≤ start - m.firstmsg) (msg : List Char) (msgs : List (ℤ × List Char)) :
    ∃ m', m'.nmsg = 1 ∧ m'.firstmsg = start ∧
      passed msghash fld who m ((start, msg) :: msgs) = passed msghash fld who m' msgs + 1 := by
  have hpos := h.limit_pos
  rw [passed_cons]
  unfold floodprotCanSendToChannel
  rw [if_neg (by rw [h.noOverride]; simp; omega), if_pos hstart]
  exact ⟨_, rfl, rfl, rfl⟩

omit h

/-- In a time slot no more messages pass than the limit says while fewer than 65536 are sent, and,
without a limit on repeated messages, only then. -/
theorem slot_passed_iff (msghash : List Char → UInt64) (fld : ChannelFloodProtection)
    (who : FloodMember) (h : TextLimited fld who) (m : MemberFlood) (start : ℤ) (msg : List Char)
    (msgs : List (ℤ × List Char)) (hstart : fld.per ≤ start - m.firstmsg)
    (hslot : ∀ msg ∈ msgs, msg.1 < start + fld.per) :
    (msgs.length + 1 < 2 ^ 16 → passed msghash fld who m ((start, msg) :: msgs) ≤ fld.limit .text) ∧
      (fld.limit .repeating = 0 →
        (passed msghash fld who m ((start, msg) :: msgs) ≤ fld.limit .text ↔
          msgs.length + 1 < 2 ^ 16)) := by
  have hpos := h.limit_pos
  obtain ⟨m', hnmsg, rfl, hpassed⟩ := @passed_first msghash fld who h m start hstart msg msgs
  have hslot' : ∀ msg ∈ msgs, msg.1 - m'.firstmsg < fld.per := fun msg hmsg => by
    have := hslot msg hmsg
    omega
  have henough : msgs.length + 1 < 2 ^ 16 →
      passed msghash fld who m ((m'.firstmsg, msg) :: msgs) ≤ fld.limit .text := fun hlt => by
    have := @passed_le msghash fld who h msgs m' hslot' (by omega)
    omega
  refine ⟨henough, fun hrepeat => ⟨fun hle => ?_, henough⟩⟩
  by_contra hwrap
  have := @passed_ge msghash fld who h hrepeat msgs m' hslot' (by omega) (by omega)
  omega

end Send

/-- Two lines in sixty seconds, and whoever sends more is not heard. -/
def exampleTextFlood : ChannelFloodProtection where
  per := 60
  limit i := if i = .text then 2 else 0
  action i := if i = .text then 'd' else '\x00'
  removeAfter _ := 0

def exampleMember : FloodMember := ⟨false, false, false⟩

theorem exampleTextFlood_limited : TextLimited exampleTextFlood exampleMember :=
  ⟨by decide, by decide, by decide, rfl, rfl, rfl⟩

/-- `slot_passed_iff` for three messages of one second. -/
theorem slot_passed_three :
    passed (fun _ => 0) exampleTextFlood exampleMember ⟨0, 0, 0, 0, 0⟩
      [(1000, []), (1000, []), (1000, [])] ≤ 2 :=
  (slot_passed_iff _ exampleTextFlood exampleMember exampleTextFlood_limited _ 1000 []
    [(1000, []), (1000, [])] (by decide) (by decide)).1 (by decide)

/-- Of 65536 messages of one second at least three pass. -/
theorem slot_passed_wrapped :
    2 < passed (fun _ => 0) exampleTextFlood exampleMember ⟨0, 0, 0, 0, 0⟩
      ((1000, []) :: List.replicate 65535 (1000, [])) := by
  obtain ⟨m', hnmsg, hfirst, hpassed⟩ := @passed_first (fun _ => 0) exampleTextFlood exampleMember
    exampleTextFlood_limited ⟨0, 0, 0, 0, 0⟩ 1000 (by decide) [] (replicate 65535 (1000, []))
  have hge := @passed_ge (fun _ => 0) exampleTextFlood exampleMember exampleTextFlood_limited rfl
    (replicate 65535 (1000, [])) m'
    (fun msg hmsg => by rw [eq_of_mem_replicate hmsg, hfirst]; decide) (by omega)
    (by rw [length_replicate, hnmsg]; decide)
  have hlimit : exampleTextFlood.limit .text = 2 := rfl
  omega

end ObbyIRCd.Chanmode
