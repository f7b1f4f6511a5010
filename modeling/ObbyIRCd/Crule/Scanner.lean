import ObbyIRCd.Crule.Grammar
import ObbyIRCd.Lib.Bytes

/-!
# The scanner reads the lax tokens

`cruleGettoken` and `cruleGetword` against `Lex true`: `lex_op_iff`, `lex_word_iff`, `atEnd_iff`,
`openQuote_iff` and `endsArgument_iff` say for each kind of token that the scanner finds it exactly
where it is written. So the tokens of a text are determined by the text (`Reads.unique`), and the
documented form is a special case of the lax one (`Lex.lax`).
-/

namespace ObbyIRCd.Crule

open List

/-! ## Words -/

/-- The characters that the loop of `crule_getword` takes. -/
def takes (quoted : Bool) (c : Char) : Bool := isWordChar c || (quoted && c != '\'')

theorem isWordChar_quote : isWordChar '\'' = false := by decide

/-- Inside quotes the loop takes everything but the quote. -/
theorem takes_quoted (c : Char) : takes true c = true ↔ c ≠ '\'' := by
  unfold takes
  constructor
  · rintro h rfl
    simp [isWordChar_quote] at h
  · intro h
    simp [h]

theorem takes_plain (c : Char) : takes false c = isWordChar c := by simp [takes]

/-- The loop stops at the length of a word, at the end of an unquoted text, or in front of a
character it does not take. -/
def Stops (quoted : Bool) (room : ℕ) (r : List Char) : Prop :=
  room = 0 ∨ (r = [] ∧ quoted = false) ∨ ∃ c r', r = c :: r' ∧ takes quoted c = false

variable {s w r : List Char}

/-- What the loop of `crule_getword` returns. -/
theorem getwordLoop_eq_some {quoted : Bool} {n : ℕ} :
    getwordLoop quoted n s = some (w, r) ↔
      s = w ++ r ∧ (∀ c ∈ w, takes quoted c = true) ∧ w.length ≤ n ∧
        Stops quoted (n - w.length) r := by
  induction n generalizing s w with
  | zero => cases w <;> simp [getwordLoop, Stops]
  | succ n ih =>
    rcases s with _ | ⟨c, s⟩
    · -- The text is at its end.
      cases quoted <;> cases w <;> cases r <;> simp [getwordLoop, Stops]
    change (if takes quoted c = true then _ else _) = _ ↔ _
    rcases w with _ | ⟨d, w⟩
    · -- Nothing is taken exactly if `c` is not.
      obtain rfl | hr := eq_or_ne (c :: s) r
      · by_cases hc : takes quoted c = true <;> simp [hc, Stops]
      · split_ifs <;> simp [hr]
    · have hroom : n + 1 - (d :: w).length = n - w.length := by simp
      split_ifs with hc
      · simp only [Option.map_eq_some_iff, Prod.exists, Prod.mk.injEq, cons.injEq]
        grind
      · grind

/-- The loop of `crule_getword` reads behind the text exactly if the quote is not closed and the
text is shorter than a word. -/
theorem getwordLoop_eq_none {quoted : Bool} {n : ℕ} :
    getwordLoop quoted n s = none ↔ quoted = true ∧ (∀ c ∈ s, c ≠ '\'') ∧ s.length < n := by
  induction n generalizing s with
  | zero => simp [getwordLoop]
  | succ n ih =>
    rcases s with _ | ⟨c, s⟩
    · simp [getwordLoop]
    change (if takes quoted c = true then _ else _) = _ ↔ _
    split_ifs with hc
    · rw [Option.map_eq_none_iff, ih]
      rcases quoted with _ | _
      · simp
      · have hne := (takes_quoted c).mp hc
        simp [hne]
    · rcases quoted with _ | _
      · simp
      · have hne : c = '\'' := by simpa [takes_quoted] using hc
        simp [hne]

theorem eatQuote_of_head (h : ∀ c ∈ r.head?, c ≠ '\'') : eatQuote r = r := by
  rcases r with _ | ⟨c, r⟩
  · rfl
  · have hc : c ≠ '\'' := h c (by simp)
    simp [eatQuote, hc]

variable {c : Char}

theorem wordAt_plain_iff (hc : isWordChar c = true) :
    WordAt true (c :: s) w r ↔ getwordLoop false (crMaxarglen - 1) (c :: s) = some (w, r) := by
  have hne : c ≠ '\'' := by
    rintro rfl
    simp [isWordChar_quote] at hc
  rw [getwordLoop_eq_some]
  simp only [takes_plain]
  constructor
  · intro h
    generalize hs : c :: s = t at h
    cases h with
    | plain hw hpos hlen hstop =>
      refine ⟨rfl, hw, by omega, ?_⟩
      rcases hstop with h | h
      · exact .inl (by omega)
      · rcases r with _ | ⟨d, r⟩
        · exact .inr (.inl ⟨rfl, rfl⟩)
        · exact .inr (.inr ⟨d, r, rfl, by simpa [takes_plain] using h⟩)
    | quoted | cut => cases hs; exact absurd rfl hne
  · rintro ⟨hs, hw, hlen, hstop⟩
    rw [hs]
    refine .plain hw ?_ (by unfold crMaxarglen at hlen ⊢; omega) ?_
    · -- The loop takes at least the first character.
      rintro rfl
      obtain rfl : c :: s = r := hs
      rcases hstop with h | ⟨h, -⟩ | ⟨d, r', h, hd⟩
      · simp [crMaxarglen] at h
      · cases h
      · cases h
        rw [takes_plain, hc] at hd
        cases hd
    · rcases hstop with h | ⟨rfl, -⟩ | ⟨d, r', rfl, hd⟩
      · exact .inl (by omega)
      · exact .inr (by simp)
      · exact .inr (by simpa [takes_plain] using hd)

theorem wordAt_quoted_iff {q : List Char} :
    WordAt true ('\'' :: q) w r ↔
      ∃ r', getwordLoop true (crMaxarglen - 1) q = some (w, r') ∧ eatQuote r' = r := by
  simp only [getwordLoop_eq_some, takes_quoted]
  constructor
  · intro h
    generalize hs : '\'' :: q = t at h
    cases h with
    | plain hw hpos hlen hstop =>
      rcases w with _ | ⟨d, w⟩
      · exact absurd rfl hpos
      · cases hs
        simpa [isWordChar_quote] using hw '\'' (by simp)
    | @quoted _ r hw hlen =>
      cases hs
      refine ⟨'\'' :: r, ⟨rfl, hw, by omega, .inr (.inr ⟨'\'', r, rfl, ?_⟩)⟩, rfl⟩
      simp [takes, isWordChar_quote]
    | cut _ hw hlen hr =>
      cases hs
      exact ⟨r, ⟨rfl, hw, by omega, .inl (by omega)⟩, eatQuote_of_head hr⟩
  · rintro ⟨r', ⟨rfl, hw, hlen, hstop⟩, rfl⟩
    have hlt : w.length < crMaxarglen := by unfold crMaxarglen at hlen ⊢; omega
    by_cases hr : ∀ c ∈ r'.head?, c ≠ '\''
    · -- No quote closes the word: its length ends it.
      rw [eatQuote_of_head hr]
      refine .cut rfl hw ?_ hr
      rcases hstop with h | ⟨-, h⟩ | ⟨d, r, rfl, hd⟩
      · omega
      · cases h
      have hdq : d = '\'' := by
        by_contra hne
        rw [(takes_quoted d).mpr hne] at hd
        cases hd
      exact absurd hdq (hr d (by simp))
    · rcases r' with _ | ⟨d, r⟩
      · simp at hr
      · obtain rfl : d = '\'' := by simpa using hr
        exact .quoted hw hlt (.inl rfl)

/-- `crule_getword` reads the word that stands there. -/
theorem cruleGetword_eq_some (hs : startsWord s = true) :
    cruleGetword s = some (w, r) ↔ WordAt true s w r := by
  rcases s with _ | ⟨c, s⟩
  · cases hs
  simp only [cruleGetword]
  by_cases hc : c = '\''
  · subst hc
    rw [wordAt_quoted_iff]
    simp [Prod.exists]
  · rw [if_neg hc, wordAt_plain_iff]
    simpa [startsWord, hc] using hs

/-- `crule_getword` reads behind the text exactly at a quote that is not closed. -/
theorem cruleGetword_eq_none :
    cruleGetword s = none ↔
      ∃ q, s = '\'' :: q ∧ (∀ c ∈ q, c ≠ '\'') ∧ q.length < crMaxarglen - 1 := by
  rcases s with _ | ⟨c, s⟩
  · simp [cruleGetword, getwordLoop_eq_none]
  unfold cruleGetword
  by_cases hc : c = '\''
  any_goals simp [hc, getwordLoop_eq_none]

theorem WordAt.length_lt {lax : Bool} (h : WordAt lax s w r) : r.length < s.length := by
  cases h with
  | plain _ hpos =>
    have := length_pos_iff.mpr hpos
    simp only [length_append]
    omega
  | quoted | cut => simp only [length_cons, length_append]; omega

/-! ## Other tokens -/

theorem cruleGettoken_blanks {pending : Option Char} {b : List Char} (hb : Blanks b)
    (s : List Char) : cruleGettoken pending (b ++ s) = cruleGettoken pending s := by
  induction b with
  | nil => rfl
  | cons c b ih =>
    have hc : c = ' ' ∨ c = '\t' := hb c (by simp)
    simp only [cons_append, cruleGettoken, if_pos hc]
    exact ih fun d hd => hb d (by simp [hd])

theorem exists_blanks (s : List Char) :
    ∃ b s', s = b ++ s' ∧ Blanks b ∧ ∀ c ∈ s'.head?, ¬ (c = ' ' ∨ c = '\t') := by
  let blank : Char → Bool := fun c => c = ' ' ∨ c = '\t'
  refine ⟨s.takeWhile blank, s.dropWhile blank, takeWhile_append_dropWhile.symm, fun c hc => ?_,
    fun c hc => ?_⟩
  · simpa [blank] using mem_takeWhile_imp hc
  · have hstop := head?_dropWhile_not blank s
    rw [hc] at hstop
    simpa [blank] using hstop

/-- The text starts neither with a blank nor with half an operator. -/
def Plain (s : List Char) : Prop :=
  ∀ c ∈ s.head?, ¬ (c = ' ' ∨ c = '\t') ∧ c ≠ '&' ∧ c ≠ '|' ∧ c ≠ '='

/-- There the scanner forgets the half operator it has seen. -/
theorem cruleGettoken_of_plain (hs : Plain s) (pending : Option Char) :
    cruleGettoken pending s = cruleGettoken none s := by
  rcases s with _ | ⟨c, s⟩
  · rfl
  · obtain ⟨hb, h1, h2, h3⟩ := hs c (by simp)
    simp only [cruleGettoken, if_neg hb, if_neg h1, if_neg h2, if_neg h3]

variable {t : CruleToken}

theorem cruleGettoken_half (hc : (c, t) ∈ doubles) (s : List Char) :
    cruleGettoken none (c :: s) = cruleGettoken (some c) s := by
  simp only [doubles, mem_cons, Prod.mk.injEq, not_mem_nil, or_false] at hc
  rcases hc with ⟨rfl, rfl⟩ | ⟨rfl, rfl⟩ | ⟨rfl, rfl⟩ <;> rfl

theorem cruleGettoken_double (hc : (c, t) ∈ doubles) (s : List Char) :
    ∃ h, cruleGettoken (some c) (c :: s) = .ok ⟨t, s, h⟩ := by
  simp only [doubles, mem_cons, Prod.mk.injEq, not_mem_nil, or_false] at hc
  rcases hc with ⟨rfl, rfl⟩ | ⟨rfl, rfl⟩ | ⟨rfl, rfl⟩ <;> exact ⟨by simp, rfl⟩

variable {g : List Char} {st : Scan} {l : Lexeme}

/-- A gap in front of anything but blanks and half operators is skipped. -/
theorem cruleGettoken_gap (hg : Gap true g) (hs : Plain s) :
    cruleGettoken none (g ++ s) = cruleGettoken none s := by
  cases hg with
  | blanks hg => exact cruleGettoken_blanks hg s
  | half _ hb hc hb' =>
    rw [append_assoc, cruleGettoken_blanks hb, cons_append, cruleGettoken_half hc,
      cruleGettoken_blanks hb', cruleGettoken_of_plain hs]

theorem cruleGettoken_plain (hs : Plain s) (h : cruleGettoken none s = .ok st) :
    (s = [] ∧ st.nextTok = .crEnd) ∨ (s = ':' :: st.ruleptr ∧ st.nextTok = .crEnd) ∨
      (∃ c, s = c :: st.ruleptr ∧ (c, st.nextTok) ∈ singles) ∨
      (s = st.ruleptr ∧ st.nextTok = .word) := by
  rcases s with _ | ⟨c, s⟩
  · cases h
    exact .inl ⟨rfl, rfl⟩
  obtain ⟨hb, h1, h2, h3⟩ := hs c (by simp)
  simp only [cruleGettoken, if_neg hb, if_neg h1, if_neg h2, if_neg h3] at h
  split_ifs at h with g1 g2 g3 g4 g5 g6 g7 <;> cases h
  all_goals first
    | exact .inr (.inr (.inr ⟨rfl, rfl⟩))
    | exact .inr (.inl ⟨by rw [g7], rfl⟩)
    | exact .inr (.inr (.inl ⟨c, rfl, by simp [*, singles]⟩))

theorem found_of_gap (hg : Gap true g) (hs : Plain s) (h : cruleGettoken none s = .ok st) :
    (st.nextTok = .crEnd ∧ AtEnd true (g ++ s)) ∨
      (st.nextTok ≠ .crEnd ∧ st.nextTok ≠ .word ∧ Lex true (g ++ s) (.op st.nextTok) st.ruleptr) ∨
      (st.nextTok = .word ∧ ∃ g', Gap true g' ∧ g ++ s = g' ++ st.ruleptr) := by
  rcases cruleGettoken_plain hs h with ⟨rfl, ht⟩ | ⟨rfl, ht⟩ | ⟨c, rfl, hc⟩ | ⟨rfl, ht⟩
  · exact .inl ⟨ht, by rw [append_nil]; exact .eot hg⟩
  · exact .inl ⟨ht, .colon hg⟩
  · refine .inr (.inl ⟨?_, ?_, .single hg hc⟩) <;>
    · rintro ht
      simp [ht, singles] at hc
  · exact .inr (.inr ⟨ht, g, hg, rfl⟩)

/-- A character that is no blank starts half an operator or something plain. -/
theorem half_or_plain (hs : ∀ c ∈ s.head?, ¬ (c = ' ' ∨ c = '\t')) :
    Plain s ∨ ∃ c t s', (c, t) ∈ doubles ∧ s = c :: s' := by
  rcases s with _ | ⟨c, s⟩
  · exact .inl (by simp [Plain])
  by_cases hc : ∃ t, (c, t) ∈ doubles
  · obtain ⟨t, ht⟩ := hc
    exact .inr ⟨c, t, s, ht, rfl⟩
  refine .inl fun d hd => ?_
  obtain rfl : c = d := by simpa using hd
  refine ⟨hs c (by simp), ?_, ?_, ?_⟩ <;>
  · rintro rfl
    exact hc (by simp [doubles])

theorem eq_of_halves {d : Char} {u : CruleToken} (hc : (c, t) ∈ doubles) (hd : (d, u) ∈ doubles)
    (h : cruleGettoken (some c) (d :: s) = .ok st) : c = d := by
  simp only [doubles, mem_cons, Prod.mk.injEq, not_mem_nil, or_false] at hc hd
  rcases hc with ⟨rfl, rfl⟩ | ⟨rfl, rfl⟩ | ⟨rfl, rfl⟩ <;>
    rcases hd with ⟨rfl, rfl⟩ | ⟨rfl, rfl⟩ | ⟨rfl, rfl⟩ <;>
    first
    | rfl
    | (simp [cruleGettoken] at h)

theorem cruleGettoken_sound (h : cruleGettoken none s = .ok st) :
    (st.nextTok = .crEnd ∧ AtEnd true s) ∨
      (st.nextTok ≠ .crEnd ∧ st.nextTok ≠ .word ∧ Lex true s (.op st.nextTok) st.ruleptr) ∨
      (st.nextTok = .word ∧ ∃ g, Gap true g ∧ s = g ++ st.ruleptr) := by
  obtain ⟨b, s, rfl, hb, hs⟩ := exists_blanks s
  rw [cruleGettoken_blanks hb] at h
  rcases half_or_plain hs with hs | ⟨c, t, s, hc, rfl⟩
  · exact found_of_gap (.blanks hb) hs h
  -- Half an operator: the other half follows, or it is dropped.
  rw [cruleGettoken_half hc] at h
  obtain ⟨b', s, rfl, hb', hs'⟩ := exists_blanks s
  rw [cruleGettoken_blanks hb'] at h
  rcases half_or_plain hs' with hs' | ⟨d, u, s, hd, rfl⟩
  · rw [cruleGettoken_of_plain hs'] at h
    have := found_of_gap (.half rfl hb hc hb') hs' h
    simpa only [append_assoc, cons_append] using this
  · obtain rfl := eq_of_halves hc hd h
    obtain ⟨_, hok⟩ := cruleGettoken_double hc s
    rw [hok] at h
    cases h
    refine .inr (.inl ⟨?_, ?_, .double hb hb' (.inl rfl) hc⟩) <;>
    · rintro (rfl : t = _)
      simp [doubles] at hc

theorem cruleGettoken_single (hc : (c, t) ∈ singles) (r : List Char) :
    Plain (c :: r) ∧ ∃ h, cruleGettoken none (c :: r) = .ok ⟨t, r, h⟩ := by
  simp only [singles, mem_cons, Prod.mk.injEq, not_mem_nil, or_false] at hc
  rcases hc with ⟨rfl, rfl⟩ | ⟨rfl, rfl⟩ | ⟨rfl, rfl⟩ | ⟨rfl, rfl⟩ | ⟨rfl, rfl⟩ | ⟨rfl, rfl⟩ <;>
    exact ⟨by simp [Plain], by simp, rfl⟩

/-- Word characters are none of the characters that the scanner knows. -/
theorem cruleGettoken_word (hs : startsWord s = true) :
    Plain s ∧ cruleGettoken none s = .ok ⟨.word, s, fun _ => hs⟩ := by
  rcases s with _ | ⟨c, s⟩
  · cases hs
  have hne : ∀ d ∈ [' ', '\t', '&', '|', '=', '!', '(', ')', '<', '>', ',', ':'], c ≠ d := by
    have hother : ∀ d ∈ [' ', '\t', '&', '|', '=', '!', '(', ')', '<', '>', ',', ':'],
        (isWordChar d || d == '\'') = false := forall_mem_of_all (by decide)
    rintro d hd rfl
    rw [startsWord, hother c hd] at hs
    cases hs
  simp only [forall_mem_cons, not_mem_nil, false_imp_iff, implies_true, and_true] at hne
  obtain ⟨h1, h2, h3, h4, h5, h6, h7, h8, h9, h10, h11, h12⟩ := hne
  constructor
  · intro d hd
    obtain rfl : c = d := by simpa using hd
    exact ⟨by simp [h1, h2], h3, h4, h5⟩
  · simp [cruleGettoken, h1, h2, h3, h4, h5, h6, h7, h8, h9, h10, h11, h12, hs]

/-! ## The scanner finds exactly what is written -/

/-- The scanner finds a token other than a word exactly where it is written. -/
theorem lex_op_iff :
    Lex true s (.op t) r ↔ t ≠ .crEnd ∧ t ≠ .word ∧ ∃ h, cruleGettoken none s = .ok ⟨t, r, h⟩ := by
  constructor
  · intro h
    cases h with
    | single hg hc =>
      obtain ⟨hplain, h, hok⟩ := cruleGettoken_single hc r
      refine ⟨?_, ?_, h, by rw [cruleGettoken_gap hg hplain, hok]⟩ <;>
      · rintro rfl
        simp [singles] at hc
    | double hg hb _ hc =>
      obtain ⟨h, hok⟩ := cruleGettoken_double hc r
      refine ⟨?_, ?_, h, ?_⟩
      rotate_left 2
      · rw [cruleGettoken_blanks hg, cruleGettoken_half hc, cruleGettoken_blanks hb, hok]
      all_goals
        rintro rfl
        simp [doubles] at hc
  · rintro ⟨hend, hword, _, h⟩
    rcases cruleGettoken_sound h with ⟨ht, -⟩ | ⟨-, -, hl⟩ | ⟨ht, -⟩
    · exact absurd ht hend
    · exact hl
    · exact absurd ht hword

theorem gap_word_iff (hr : startsWord r = true) :
    (∃ g, Gap true g ∧ s = g ++ r) ↔ cruleGettoken none s = .ok ⟨.word, r, fun _ => hr⟩ := by
  obtain ⟨hplain, hok⟩ := cruleGettoken_word hr
  constructor
  · rintro ⟨g, hg, rfl⟩
    rw [cruleGettoken_gap hg hplain, hok]
  · intro h
    rcases cruleGettoken_sound h with ⟨ht, -⟩ | ⟨-, ht, -⟩ | ⟨-, hg⟩
    · cases ht
    · exact absurd rfl ht
    · exact hg

theorem WordAt.startsWord {lax : Bool} {s w r : List Char} (h : WordAt lax s w r) :
    startsWord s = true := by
  cases h with
  | plain hw hpos =>
    rcases w with _ | ⟨c, w⟩
    · exact absurd rfl hpos
    · simp [Crule.startsWord, hw c (by simp)]
  | quoted | cut => rfl

/-- The scanner sees a word and reads it exactly where it is written. -/
theorem lex_word_iff :
    Lex true s (.word w) r ↔ ∃ st, cruleGettoken none s = .ok st ∧ st.nextTok = .word ∧
      cruleGetword st.ruleptr = some (w, r) := by
  constructor
  · intro h
    cases h with
    | word hg hw =>
      exact ⟨_, (gap_word_iff hw.startsWord).mp ⟨_, hg, rfl⟩, rfl,
        (cruleGetword_eq_some hw.startsWord).mpr hw⟩
  · rintro ⟨⟨t, s', h'⟩, h, rfl, hw⟩
    obtain ⟨g, hg, rfl⟩ := (gap_word_iff (h' rfl)).mpr h
    exact .word hg ((cruleGetword_eq_some (h' rfl)).mp hw)

theorem atEnd_iff : AtEnd true s ↔ ∃ st, cruleGettoken none s = .ok st ∧ st.nextTok = .crEnd := by
  constructor
  · intro h
    cases h with
    | eot hg =>
      refine ⟨⟨.crEnd, [], by simp⟩, ?_, rfl⟩
      have := cruleGettoken_gap hg (s := []) (by simp [Plain])
      rwa [append_nil] at this
    | @colon g r hg =>
      refine ⟨⟨.crEnd, r, by simp⟩, ?_, rfl⟩
      rw [cruleGettoken_gap hg (by simp [Plain])]
      rfl
  · rintro ⟨st, h, ht⟩
    rcases cruleGettoken_sound h with ⟨-, hend⟩ | ⟨hne, -⟩ | ⟨hw, -⟩
    · exact hend
    · exact absurd ht hne
    · rw [ht] at hw
      cases hw

/-- The scanner sees a word that it cannot finish exactly at an open quote. -/
theorem openQuote_iff :
    OpenQuote s ↔ ∃ st, cruleGettoken none s = .ok st ∧ st.nextTok = .word ∧
      cruleGetword st.ruleptr = none := by
  simp only [cruleGetword_eq_none]
  constructor
  · rintro ⟨g, q, hg, rfl, hq, hlen⟩
    exact ⟨⟨.word, '\'' :: q, fun _ => rfl⟩, (gap_word_iff rfl).mp ⟨g, hg, rfl⟩, rfl, q, rfl, hq,
      hlen⟩
  · rintro ⟨⟨t, s', h'⟩, h, rfl, q, rfl, hq, hlen⟩
    obtain ⟨g, hg, rfl⟩ := (gap_word_iff (h' rfl)).mpr h
    exact ⟨g, q, hg, rfl, hq, hlen⟩

theorem endsArgument_iff :
    EndsArgument s ↔ ∃ st, cruleGettoken none s = .ok st ∧ st.nextTok ≠ .word := by
  unfold EndsArgument
  rw [atEnd_iff]
  constructor
  · rintro (⟨st, h, ht⟩ | ⟨t, r, hl⟩)
    · exact ⟨st, h, by simp [ht]⟩
    · obtain ⟨-, hword, _, h⟩ := lex_op_iff.mp hl
      exact ⟨_, h, hword⟩
  · rintro ⟨st, h, ht⟩
    rcases cruleGettoken_sound h with ⟨hend, -⟩ | ⟨-, -, hl⟩ | ⟨hw, -⟩
    · exact .inl ⟨st, h, hend⟩
    · exact .inr ⟨_, _, hl⟩
    · exact absurd hw ht

/-! ## The tokens of a text -/

theorem Lex.found (h : Lex true s l r) :
    ∃ st, cruleGettoken none s = .ok st ∧ st.nextTok ≠ .crEnd ∧ match l with
      | .op t => st.nextTok = t ∧ t ≠ .word ∧ st.ruleptr = r
      | .word w => st.nextTok = .word ∧ cruleGetword st.ruleptr = some (w, r) := by
  rcases l with t | w
  · obtain ⟨hend, hword, _, h⟩ := lex_op_iff.mp h
    exact ⟨_, h, hend, rfl, hword, rfl⟩
  · obtain ⟨st, h, hword, hw⟩ := lex_word_iff.mp h
    exact ⟨st, h, by simp [hword], hword, hw⟩

theorem Lex.unique {r' : List Char} {l' : Lexeme} (h : Lex true s l r)
    (h' : Lex true s l' r') : l = l' ∧ r = r' := by
  obtain ⟨st, h, -, hl⟩ := h.found
  obtain ⟨st', h', -, hl'⟩ := h'.found
  obtain rfl : st = st' := Except.ok.inj (h.symm.trans h')
  rcases l with t | w <;> rcases l' with t' | w' <;> grind

theorem not_lex_of_atEnd (hend : AtEnd true s) : ¬ Lex true s l r := by
  intro h
  obtain ⟨st, hst, ht⟩ := atEnd_iff.mp hend
  obtain ⟨st', hst', hne, -⟩ := h.found
  rw [hst] at hst'
  cases hst'
  exact hne ht

theorem Reads.unique {s : List Char} {ts ts' : List Lexeme} (h : Reads true s ts)
    (h' : Reads true s ts') : ts = ts' := by
  obtain ⟨r, hs, hend⟩ := h
  obtain ⟨r', hs', hend'⟩ := h'
  induction hs generalizing ts' with
  | nil =>
    cases hs' with
    | nil => rfl
    | cons hl => exact absurd hl (not_lex_of_atEnd hend)
  | cons hl _ ih =>
    cases hs' with
    | nil => exact absurd hl (not_lex_of_atEnd hend')
    | cons hl' hls' =>
      obtain ⟨rfl, rfl⟩ := hl.unique hl'
      rw [ih hend hls']

theorem Gap.lax (h : Gap false g) : Gap true g := by
  cases h with
  | blanks hg => exact .blanks hg
  | half hlax => cases hlax

theorem WordAt.lax (h : WordAt false s w r) : WordAt true s w r := by
  cases h with
  | plain hw hpos hlen hstop => exact .plain hw hpos hlen hstop
  | quoted hw hlen => exact .quoted hw hlen (.inl rfl)
  | cut hlax => cases hlax

theorem Lex.lax {s r : List Char} {l : Lexeme} (h : Lex false s l r) : Lex true s l r := by
  cases h with
  | single hg hc => exact .single hg.lax hc
  | double hg hb _ hc => exact .double hg hb (.inl rfl) hc
  | word hg hw => exact .word hg.lax hw.lax

variable {ts : List Lexeme}

/-- A text that starts with tokens of the documented form starts with these tokens. -/
theorem Scans.lax {s r : List Char} (h : Scans false s ts r) :
    Scans true s ts r := by
  induction h with
  | nil => exact .nil
  | cons hl _ ih => exact .cons hl.lax ih

/-- The scanner reads a text of the documented form as it is meant. -/
theorem Reads.lax {s : List Char} (h : Reads false s ts) : Reads true s ts := by
  obtain ⟨r, hs, hend⟩ := h
  refine ⟨r, hs.lax, ?_⟩
  cases hend with
  | eot hg => exact .eot hg.lax
  | colon hg => exact .colon hg.lax

theorem Scans.word_ne_nil (h : Scans false s ts r) : .word [] ∉ ts := by
  induction h with
  | nil => simp
  | cons hl _ ih =>
    intro hmem
    rcases mem_cons.mp hmem with rfl | hmem
    · cases hl with
      | word _ hw =>
        generalize hv : ([] : List Char) = v at hw
        cases hw with
        | plain _ hpos => exact hpos hv.symm
        | quoted _ _ hlax => simp [hv.symm] at hlax
        | cut hlax => cases hlax
    · exact ih hmem

end ObbyIRCd.Crule
