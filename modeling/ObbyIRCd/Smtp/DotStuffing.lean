import ObbyIRCd.Lib.Bytes

/-!
# The mail that `build_dot_stuffed_message` builds

In one pass over the body of a mail its line ends become CR LF, and a dot at the start of a line is
doubled. A line with a single dot ends the mail. Nothing in front of it can be taken for it, as every
line feed of the mail belongs to a CR LF (`Framed`), and what the server has when it has removed the
first dot of every line is the body with its line ends normalised (`unstuff_stuffLoop`).

A body whose last line has no end gets one. The code looks at the last two bytes of the mail for that:
for an empty body they are those of the header, and nothing is added.
-/

namespace ObbyIRCd.Smtp

open List

/-- What a mail is made from. Strings are given by the bytes in front of their terminator. -/
structure Mail where
  from_ : List UInt8
  toAddr : List UInt8
  subject : Option (List UInt8)
  /-- What `strftime` writes to a `char[64]`. -/
  date : List UInt8
  date_lt : date.length < 64
  body : Option (List UInt8)

/-- The loop over the body. -/
def stuffLoop : (atLineStart : Bool) → (src : List UInt8) → List UInt8
  | _, [] => []
  | true, 46 :: src => 46 :: 46 :: stuffLoop false src
  | _, 13 :: 10 :: src => 13 :: 10 :: stuffLoop true src
  | _, 10 :: src => 13 :: 10 :: stuffLoop true src
  | _, c :: src => c :: stuffLoop false src

namespace Mail

variable (m : Mail)

def headerLines : List (List UInt8) :=
  [ascii "From: " ++ m.from_, ascii "To: " ++ m.toAddr,
    ascii "Subject: " ++ m.subject.getD (ascii "(no subject)"), ascii "Date: " ++ m.date,
    ascii "MIME-Version: 1.0", ascii "Content-Type: text/plain; charset=utf-8",
    ascii "Content-Transfer-Encoding: 8bit", []]

/-- The header, as `snprintf` writes it to a buffer of `hdrlen` bytes. -/
def header : List UInt8 :=
  let hdrlen := 1024 + m.from_.length + m.toAddr.length + (m.subject.getD []).length
  (m.headerLines.flatMap (· ++ [13, 10])).take (hdrlen - 1)

def text : List UInt8 := m.body.getD []

/-- The size of the output buffer. -/
def cap : ℕ := m.header.length + m.text.length * 3 + 16

/-- `build_dot_stuffed_message`. -/
def buildDotStuffedMessage : List UInt8 :=
  let out := m.header ++ stuffLoop true m.text
  let out := if [13, 10] <:+ out then out else out ++ [13, 10]
  out ++ [46, 13, 10]

/-- No field of the header has a line end in it. -/
def Plain : Prop := ∀ l ∈ m.headerLines, 10 ∉ l

end Mail

/-! ## What the server makes of it -/

/-- The first dot of every line is removed. -/
def unstuff : (atLineStart : Bool) → List UInt8 → List UInt8
  | _, [] => []
  | true, 46 :: s => unstuff false s
  | _, 13 :: 10 :: s => 13 :: 10 :: unstuff true s
  | _, c :: s => c :: unstuff false s

/-- Every line end is CR LF. -/
def normalise : List UInt8 → List UInt8
  | [] => []
  | 13 :: 10 :: s => 13 :: 10 :: normalise s
  | 10 :: s => 13 :: 10 :: normalise s
  | c :: s => c :: normalise s

/-- The last line has an end. -/
def ended (atLineStart : Bool) (s : List UInt8) : Bool := s.getLast?.elim atLineStart (· == 10)

/-- A text with an end for its last line. -/
def terminated (s : List UInt8) : List UInt8 := if ended true s then s else s ++ [13, 10]

/-- A line feed only follows a CR, and a line with a single dot is the last one. -/
structure Framed (s : List UInt8) : Prop where
  lf : ∀ a b, s = a ++ 10 :: b → a.getLast? = some 13
  dot : ∀ a b, s = a ++ [13, 10, 46, 13, 10] ++ b → b = []

variable {s : List UInt8} {start : Bool}

theorem Framed.cons (h : Framed s) {c : UInt8} (hc : c ≠ 10) : Framed (c :: s) := by
  constructor
  · rintro (- | ⟨c', a⟩) b heq
    · exact absurd (cons.inj heq).1 hc
    · rw [getLast?_cons, h.lf a b (cons.inj heq).2]
      rfl
  · rintro (- | ⟨c', a⟩) b heq
    -- a line feed cannot be the first byte of `s`
    · exact absurd (h.lf [] _ (cons.inj heq).2) nofun
    · exact h.dot a b (cons.inj heq).2

theorem Framed.crlf (h : Framed s) (hdot : ∀ b, s = [46, 13, 10] ++ b → b = []) :
    Framed (13 :: 10 :: s) := by
  constructor
  · rintro (- | ⟨c, - | ⟨c', a⟩⟩) b heq
    · cases heq
    · rw [(cons.inj heq).1]
      rfl
    · rw [getLast?_cons, getLast?_cons, h.lf a b (cons.inj (cons.inj heq).2).2]
      rfl
  · rintro (- | ⟨c, - | ⟨c', a⟩⟩) b heq
    · exact hdot b (cons.inj (cons.inj heq).2).2
    · cases heq
    · exact h.dot a b (cons.inj (cons.inj heq).2).2

/-! ## The loop -/

@[simp]
theorem ended_append (s t : List UInt8) : ended start (s ++ t) = ended (ended start s) t := by
  unfold ended
  rw [getLast?_append]
  cases t.getLast? <;> rfl

@[simp]
theorem ended_cons (c : UInt8) (s : List UInt8) : ended start (c :: s) = ended (c == 10) s :=
  ended_append [c] s

theorem stuffLoop_ne (start : Bool) (s b : List UInt8) : stuffLoop start s ≠ 10 :: b := by
  fun_cases stuffLoop start s <;> simp_all

/-- Lines are stuffed one by one. -/
theorem stuffLoop_crlf (start : Bool) (s t : List UInt8) :
    stuffLoop start (s ++ 13 :: 10 :: t) = stuffLoop start s ++ 13 :: 10 :: stuffLoop true t := by
  fun_induction stuffLoop start s with
  | case1 start => cases start <;> rfl
  | case5 start c src hcrlf hlf hdot ih =>
    rw [cons_append, stuffLoop, ih, cons_append]
    · intro src' hc heq
      cases src with
      | nil => cases heq
      | cons c' src => exact hcrlf src hc (by rw [(cons.inj heq).1])
    · exact hlf
    · exact hdot
  | _ => simp_all [stuffLoop]

/-- A line of a header stays as it is. -/
theorem stuffLoop_self (hlf : 10 ∉ s) (hdot : start = true → s.head? ≠ some 46) :
    stuffLoop start s = s := by
  fun_induction stuffLoop start s <;> simp_all

theorem ended_stuffLoop (start : Bool) (s : List UInt8) :
    ended start (stuffLoop start s) = ended start s := by
  fun_induction stuffLoop start s with
  | case5 start c src hcrlf hlf hdot ih =>
    have hc : (c == 10) = false := by simpa using hlf
    simp [hc, ih]
  | _ => simp_all

/-- Lines that are stuffed are framed, whatever they contain. -/
theorem framed_stuffLoop (h : ended start s = true) :
    Framed (stuffLoop start s ++ [46, 13, 10]) ∧
      (start = true → ∀ b, stuffLoop start s ++ [46, 13, 10] = [46, 13, 10] ++ b → b = []) := by
  fun_induction stuffLoop start s with
  | case1 start =>
    have hnil : Framed [] := ⟨by simp, by simp⟩
    exact ⟨(hnil.crlf (by simp)).cons (by decide), fun _ b heq => by simpa using heq⟩
  | case2 src ih => exact ⟨((ih (by simpa using h)).1.cons (by decide)).cons (by decide), by simp⟩
  | case3 start src ih | case4 start src ih =>
    obtain ⟨hrest, hdot⟩ := ih (by simpa using h)
    exact ⟨hrest.crlf (hdot rfl), by simp⟩
  | case5 start c src hcrlf hlf hdot ih =>
    have hc : (c == 10) = false := by simpa using hlf
    exact ⟨(ih (by simpa [hc] using h)).1.cons hlf, by simp_all⟩

theorem unstuff_stuffLoop (start : Bool) (s : List UInt8) :
    unstuff start (stuffLoop start s) = normalise s := by
  fun_induction stuffLoop start s with
  | case5 start c src hcrlf hlf hdot ih =>
    rw [unstuff, ih, normalise]
    · exact hcrlf
    · exact hlf
    · exact fun b _ => stuffLoop_ne false src b
    · exact hdot
  | _ => simp_all [unstuff, normalise]

theorem length_stuffLoop_le (start : Bool) (s : List UInt8) :
    (stuffLoop start s).length ≤ 2 * s.length := by
  fun_induction stuffLoop start s <;> simp <;> omega

/-! ## The mail -/

variable {m : Mail}

theorem Mail.header_eq : m.header = m.headerLines.flatMap (· ++ [13, 10]) := by
  refine take_of_length_le ?_
  have hdate := m.date_lt
  rcases m with ⟨_, _, - | _, _, _, _⟩ <;> simp [headerLines, ascii] at * <;> omega

@[simp]
theorem Mail.ended_header : ended start m.header = true := by
  simp [header_eq, headerLines]
  rfl

section

variable (h : m.Plain)
include h

namespace Mail.Plain

theorem stuffLoop_header (s : List UInt8) :
    stuffLoop true (m.header ++ s) = m.header ++ stuffLoop true s := by
  have hhead : ∀ l ∈ m.headerLines, l.head? ≠ some 46 := by simp [headerLines, ascii]
  rw [header_eq]
  unfold Plain at h
  generalize m.headerLines = lines at h hhead
  induction lines with
  | nil => rfl
  | cons l lines ih =>
    rw [forall_mem_cons] at h hhead
    simp [stuffLoop_crlf, stuffLoop_self h.1 fun _ => hhead.1, ih h.2 hhead.2]

theorem framed (hs : ended true s = true) : Framed (m.header ++ stuffLoop true s ++ [46, 13, 10]) := by
  rw [← h.stuffLoop_header]
  exact (framed_stuffLoop (by simp [hs])).1

/-- What the code looks at: the mail ends with CR LF if the body does or is empty. -/
theorem crlf_suffix_iff : [13, 10] <:+ m.header ++ stuffLoop true s ↔ ended true s = true := by
  have hended : ∀ start, ended start (m.header ++ stuffLoop true s) = ended true s := by
    simp [ended_stuffLoop]
  constructor
  · rintro ⟨a, ha⟩
    rw [← hended true, ← ha, ended_append]
    rfl
  · intro hs
    have hlast : (m.header ++ stuffLoop true s).getLast? = some 10 := by
      have hfalse := (hended false).trans hs
      unfold ended at hfalse
      cases hbyte : (m.header ++ stuffLoop true s).getLast? <;> simp_all
    -- the last byte is a line feed, which follows a CR
    obtain ⟨a, ha⟩ := getLast?_eq_some_iff.mp hlast
    obtain ⟨a', rfl⟩ := getLast?_eq_some_iff.mp ((h.framed hs).lf a [46, 13, 10] (by simp [ha]))
    exact ⟨a', by simp [ha]⟩

theorem buildDotStuffedMessage_eq : m.buildDotStuffedMessage =
    m.header ++ stuffLoop true (terminated m.text) ++ [46, 13, 10] := by
  unfold buildDotStuffedMessage terminated
  simp only [h.crlf_suffix_iff]
  split
  · rfl
  · rw [stuffLoop_crlf, append_assoc m.header]
    rfl

end Mail.Plain

/-- The mail is ended by its last line only and has no line feed without a CR. Behind the header is
the body with its line ends normalised, its last line ended unless it is empty, and its dots stuffed.
All of it fits the buffer. -/
theorem buildDotStuffedMessage_spec :
    [13, 10, 46, 13, 10] <:+ m.buildDotStuffedMessage ∧ Framed m.buildDotStuffedMessage ∧
      (∃ content, m.buildDotStuffedMessage = m.header ++ content ++ [46, 13, 10] ∧
        unstuff true content = normalise (terminated m.text)) ∧
      m.buildDotStuffedMessage.length ≤ m.cap := by
  have hended : ended true (terminated m.text) = true := by
    unfold terminated
    split
    · assumption
    · simp only [ended_append]
      rfl
  rw [h.buildDotStuffedMessage_eq]
  refine ⟨?_, h.framed hended, ⟨_, rfl, unstuff_stuffLoop _ _⟩, ?_⟩
  · obtain ⟨a, ha⟩ := h.crlf_suffix_iff.mpr hended
    exact ⟨a, by simp [← ha]⟩
  · have hlen := length_stuffLoop_le true (terminated m.text)
    have hterm : (terminated m.text).length ≤ m.text.length + 2 := by
      unfold terminated
      split <;> simp
    simp only [length_append, Mail.cap, length_cons, length_nil]
    omega

end

def exampleMail (body : List UInt8) : Mail := ⟨[], [], none, [], by decide, some body⟩

/-- `buildDotStuffedMessage_spec` for a body with dots, and without a line end behind the last. -/
theorem buildDotStuffedMessage_dots : ∃ content, (exampleMail (ascii ".\n..")).buildDotStuffedMessage =
    (exampleMail (ascii ".\n..")).header ++ content ++ [46, 13, 10] ∧
      unstuff true content = ascii ".\r\n..\r\n" :=
  (buildDotStuffedMessage_spec (forall_mem_of_all (by decide))).2.2.1

/-- Nothing is added to an empty body. -/
theorem buildDotStuffedMessage_empty :
    (exampleMail []).buildDotStuffedMessage = (exampleMail []).header ++ [46, 13, 10] ∧
      unstuff true [] ≠ [13, 10] := by
  decide

end ObbyIRCd.Smtp
