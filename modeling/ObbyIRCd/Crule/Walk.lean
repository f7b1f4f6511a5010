import Mathlib.Data.List.Nodup
import ObbyIRCd.Crule.Scanner

/-!
# Walks of the scanner

`cruleFunc_eq_some` says that the binary search of the function table finds every known name. `Steps`
is a walk of the scanner over tokens: the form in which the proofs about the parser see a text. By
`steps_iff` the walks from the beginning of a text are its tokens in the sense of `Scans`, and every
step shrinks `Scan.size`.
-/

namespace ObbyIRCd.Crule

/-! ## The table of functions -/

/-- The names of the table are in the order of `strcasecmp`. -/
theorem cruleFunclist_sorted : cruleFunclist.Pairwise fun f g =>
      compare (lower f.name.toList) (lower g.name.toList) = .lt := by
  have hchain : (cruleFunclist.map fun f => lower f.name.toList).IsChain
      (fun s t => compare s t = .lt) := by decide +kernel
  have htrans : Trans (fun s t : List Char => compare s t = .lt) (fun s t => compare s t = .lt)
      (fun s t => compare s t = .lt) := ⟨Std.TransCmp.lt_trans⟩
  exact List.pairwise_map.mp (List.isChain_iff_pairwise.mp hchain)

theorem cruleFunclist_unique {f g : CruleFunclistent} (hf : f ∈ cruleFunclist)
    (hg : g ∈ cruleFunclist) (h : lower f.name.toList = lower g.name.toList) : f = g := by
  have hnodup : (cruleFunclist.map fun f => lower f.name.toList).Nodup := by decide +kernel
  exact List.inj_on_of_nodup_map hnodup hf hg h

/-- `crule_parsefunction` finds the function that a name stands for. -/
theorem cruleFunc_eq_some {funcname : List Char} {func : CruleFunclistent} :
    cruleFunc funcname = some func ↔ Known funcname func := by
  unfold cruleFunc Known
  rw [bsearch_eq_some_iff]
  · unfold cruleFunclistCompare
    rw [Std.compare_eq_iff_eq]
  · intro i j hi hj hij
    have hlt := List.pairwise_iff_getElem.mp cruleFunclist_sorted i j hi hj hij
    constructor
    · intro h
      exact Std.TransCmp.lt_trans h hlt
    · intro h
      exact Std.TransCmp.gt_trans h (Std.OrientedCmp.gt_of_lt hlt)
  · intro f hf g hg hcf hcg
    unfold cruleFunclistCompare at hcf hcg
    rw [Std.compare_eq_iff_eq] at hcf hcg
    exact cruleFunclist_unique hf hg (hcf.symm.trans hcg)

/-! ## Walks of the scanner -/

variable {st : Scan}

variable {s : List Char}

theorem scanAt_eq_ok : scanAt s = .ok () st ↔ cruleGettoken none s = .ok st := by
  unfold scanAt
  rcases cruleGettoken none s with e | st' <;> simp

theorem scanAt_cases (s : List Char) :
    (∃ e, scanAt s = .fail e false) ∨ ∃ st, scanAt s = .ok () st := by
  unfold scanAt
  rcases cruleGettoken none s with e | st
  · exact .inl ⟨e, rfl⟩
  · exact .inr ⟨st, rfl⟩

/-- Reading a word: it runs off, meets an unknown token behind the word, or succeeds. -/
theorem takeWord_cases (st : Scan) : (cruleGetword st.ruleptr = none ∧ takeWord st = .fault) ∨
      (∃ e, takeWord st = .fail e false) ∨
      ∃ w r next, cruleGetword st.ruleptr = some (w, r) ∧ scanAt r = .ok () next ∧
        takeWord st = .ok w next := by
  unfold takeWord
  rcases cruleGetword st.ruleptr with _ | ⟨w, r⟩
  · exact .inl ⟨rfl, rfl⟩
  · rcases scanAt_cases r with ⟨e, he⟩ | ⟨next, hn⟩
    · exact .inr (.inl ⟨e, by simp [he, Parsed.bind]⟩)
    · exact .inr (.inr ⟨w, r, next, rfl, hn, by simp [hn, Parsed.bind]⟩)

theorem takeWord_eq_ok {st next : Scan} {w : List Char} : takeWord st = .ok w next ↔
    ∃ r, cruleGetword st.ruleptr = some (w, r) ∧ scanAt r = .ok () next := by
  rcases takeWord_cases st with ⟨hnone, h⟩ | ⟨e, h⟩ | ⟨w, r, next, hw, hn, h⟩ <;>
    grind [takeWord, Parsed.bind]

/-- Characters that are left, and the token that has been seen and is not among them. -/
def Scan.size (st : Scan) : ℕ :=
  st.ruleptr.length + if st.nextTok = .word ∨ st.nextTok = .crEnd then 0 else 1

theorem size_cruleGettoken {pending : Option Char}
    (h : cruleGettoken pending s = .ok st) : st.size ≤ s.length := by
  fun_induction cruleGettoken pending s <;> (try cases h) <;>
    simp_all [Scan.size] <;> omega

/-- A step of the scanner over a token. -/
inductive Step : Scan → Lexeme → Scan → Prop
  | op {st next : Scan} (hend : st.nextTok ≠ .crEnd) (hword : st.nextTok ≠ .word)
      (h : advance st = .ok () next) : Step st (.op st.nextTok) next
  | word {st next : Scan} {w : List Char} (hword : st.nextTok = .word)
      (h : takeWord st = .ok w next) : Step st (.word w) next

/-- A walk of the scanner over tokens. -/
inductive Steps : Scan → List Lexeme → Scan → Prop
  | nil {st : Scan} : Steps st [] st
  | cons {st mid next : Scan} {l : Lexeme} {ls : List Lexeme} (h : Step st l mid)
      (h' : Steps mid ls next) : Steps st (l :: ls) next

variable {next : Scan} {ts : List Lexeme}

theorem Step.size_lt {l : Lexeme} (h : Step st l next) : next.size < st.size := by
  cases h with
  | op hend hword h =>
    have := size_cruleGettoken (scanAt_eq_ok.mp h)
    simp only [Scan.size, hend, hword, or_self, if_false] at this ⊢
    omega
  | word hword h =>
    obtain ⟨r, hw, hn⟩ := takeWord_eq_ok.mp h
    have hlt := ((cruleGetword_eq_some (st.word_here hword)).mp hw).length_lt
    have := size_cruleGettoken (scanAt_eq_ok.mp hn)
    simp only [Scan.size, hword, true_or, if_true] at this ⊢
    omega

theorem Steps.size_le (h : Steps st ts next) : next.size ≤ st.size := by
  induction h with
  | nil => exact le_rfl
  | cons h _ ih => exact ih.trans h.size_lt.le

theorem Scan.size_lt_fuel (st : Scan) : st.size < st.fuel := by
  unfold Scan.size Scan.fuel
  split <;> omega

theorem Steps.append {mid : Scan} {us : List Lexeme} (h : Steps st ts mid)
    (h' : Steps mid us next) : Steps st (ts ++ us) next := by
  induction h with
  | nil => exact h'
  | cons h _ ih => exact .cons h (ih h')

theorem Steps.of_append {us : List Lexeme} (h : Steps st (ts ++ us) next) :
    ∃ mid, Steps st ts mid ∧ Steps mid us next := by
  induction ts generalizing st with
  | nil => exact ⟨st, .nil, h⟩
  | cons l ts ih =>
    cases h with
    | cons h h' =>
      obtain ⟨mid, h1, h2⟩ := ih h'
      exact ⟨mid, .cons h h1, h2⟩

theorem Steps.of_op {t : CruleToken} (h : Steps st (.op t :: ts) next) :
    st.nextTok = t ∧ ∃ mid, advance st = .ok () mid ∧ mid.size < st.size ∧ Steps mid ts next := by
  cases h with
  | cons h h' =>
    have hlt := h.size_lt
    cases h with
    | op _ _ h => exact ⟨rfl, _, h, hlt, h'⟩

theorem Steps.of_word {w : List Char} (h : Steps st (.word w :: ts) next) :
    st.nextTok = .word ∧
      ∃ mid, takeWord st = .ok w mid ∧ mid.size < st.size ∧ Steps mid ts next := by
  cases h with
  | cons h h' =>
    have hlt := h.size_lt
    cases h with
    | word hword h => exact ⟨hword, _, h, hlt, h'⟩

/-- A text that goes on with tokens up to a place where the scanner finds something can be
scanned. -/
theorem Scans.gettoken {r : List Char} (h : Scans true s ts r)
    (hr : cruleGettoken none r = .ok next) : ∃ st, cruleGettoken none s = .ok st := by
  cases h with
  | nil => exact ⟨next, hr⟩
  | cons hl =>
    obtain ⟨st, h, -⟩ := hl.found
    exact ⟨st, h⟩

/-- Steps of the parser are words of the text. -/
theorem steps_iff (hst : cruleGettoken none s = .ok st) :
    Steps st ts next ↔ ∃ r, Scans true s ts r ∧ cruleGettoken none r = .ok next := by
  induction ts generalizing s st with
  | nil =>
    constructor
    · rintro ⟨⟩
      exact ⟨s, .nil, hst⟩
    · rintro ⟨r, ⟨⟩, h⟩
      rw [hst] at h
      cases h
      exact .nil
  | cons l ts ih =>
    constructor
    · rintro (_ | ⟨h, h'⟩)
      cases h with
      | op hend hword h =>
        obtain ⟨r, hs, hr⟩ := (ih (scanAt_eq_ok.mp h)).mp h'
        exact ⟨r, .cons (lex_op_iff.mpr ⟨hend, hword, st.word_here, hst⟩) hs, hr⟩
      | word hword h =>
        obtain ⟨r, hw, hn⟩ := takeWord_eq_ok.mp h
        obtain ⟨r', hs, hr'⟩ := (ih (scanAt_eq_ok.mp hn)).mp h'
        exact ⟨r', .cons (lex_word_iff.mpr ⟨st, hst, hword, hw⟩) hs, hr'⟩
    · rintro ⟨r, hscans, hr⟩
      cases hscans with
      | cons hl hls =>
        obtain ⟨mid, hmid⟩ := hls.gettoken hr
        have hsteps := (ih hmid).mpr ⟨r, hls, hr⟩
        rcases l with t | w
        · obtain ⟨hend, hword, _, h⟩ := lex_op_iff.mp hl
          rw [hst] at h
          cases h
          exact .cons (.op hend hword (scanAt_eq_ok.mpr hmid)) hsteps
        · obtain ⟨st', h, hword, hw⟩ := lex_word_iff.mp hl
          rw [hst] at h
          cases h
          exact .cons (.word hword (takeWord_eq_ok.mpr ⟨_, hw, scanAt_eq_ok.mpr hmid⟩)) hsteps

end ObbyIRCd.Crule
