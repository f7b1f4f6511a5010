import ObbyIRCd.Crule.Walk

/-!
# The parser follows the lax grammar

Each parser function is described twice against the grammar of `Parses` and `Cut`.

Soundness is `Described`: what a function returns comes from a derivation over the tokens that it
walked over, a fault from a cut derivation, and no loop exhausts its bound. `Described.bind` composes
such descriptions along the code.

Completeness is `Parses.runs` and `Cut.runs`: where a derivation is written in the text, the function
returns its tree, or faults. `Follows` is what has to stand behind a derivation for the function to
stop there.
-/

namespace ObbyIRCd.Crule

open Parsed Chain

/-- The parser runs off at this position, in this way. -/
def Scan.Faults (st : Scan) : Fault → Prop
  | .quote => st.nextTok = .word ∧ cruleGetword st.ruleptr = none
  | .overrun => st.nextTok ≠ .word

/-- An outcome at `st` is described by what is accepted and by what is cut off. -/
def Described {α : Type} (st : Scan) (accepts : List Lexeme → α → Scan → Prop)
    (cut : Fault → List Lexeme → Prop) : Parsed α → Prop
  | .ok value next => ∃ ts, Steps st ts next ∧ accepts ts value next
  | .fail _ _ => True
  | .fault => ∃ e ts next, Steps st ts next ∧ cut e ts ∧ next.Faults e
  | .timeout => False

section

variable {α β : Type} {st : Scan} {p : Parsed α} {accepts : List Lexeme → α → Scan → Prop}
  {cut cut' : Fault → List Lexeme → Prop}

theorem Described.after {ts : List Lexeme} {next : Scan} (hs : Steps st ts next)
    (h : Described next (fun us => accepts (ts ++ us)) (fun e us => cut e (ts ++ us)) p) :
    Described st accepts cut p := by
  rcases p with ⟨value, next'⟩ | ⟨e, l⟩ | _ | _
  · obtain ⟨us, hs', ha⟩ := h
    exact ⟨ts ++ us, hs.append hs', ha⟩
  · trivial
  · obtain ⟨e, us, next', hs', hc, hf⟩ := h
    exact ⟨e, ts ++ us, next', hs.append hs', hc, hf⟩
  · exact h

/-- What follows a success is described from the next position, behind the tokens before it. -/
theorem Described.bind {accepts' : List Lexeme → β → Scan → Prop} {f : α → Scan → Parsed β}
    (h : Described st accepts cut p)
    (hf : ∀ ts value next, Steps st ts next → accepts ts value next →
      Described next (fun us => accepts' (ts ++ us)) (fun e us => cut' e (ts ++ us)) (f value next))
    (hc : ∀ e ts, cut e ts → cut' e ts) : Described st accepts' cut' (p.bind f) := by
  rcases p with ⟨value, next⟩ | ⟨e, l⟩ | _ | _
  · obtain ⟨ts, hs, ha⟩ := h
    exact (hf ts value next hs ha).after hs
  · trivial
  · obtain ⟨e, ts, next, hs, h, hf'⟩ := h
    exact ⟨e, ts, next, hs, hc _ _ h, hf'⟩
  · exact h

/-- `Parsed.link` concerns failures only. -/
theorem Described.link (h : Described st accepts cut p) : Described st accepts cut p.link := by
  rcases p with ⟨value, next⟩ | ⟨e, l⟩ | _ | _
  · exact h
  · trivial
  · exact h
  · exact h

theorem described_ok
    {value : α} (h : accepts [] value st) : Described st accepts cut (.ok value st) :=
  ⟨[], .nil, h⟩

theorem Described.mono {accepts' : List Lexeme → α → Scan → Prop} (h : Described st accepts cut p)
    (ha : ∀ ts value next, accepts ts value next → accepts' ts value next)
    (hc : ∀ e ts, cut e ts → cut' e ts) : Described st accepts' cut' p := by
  have hbind : p.bind .ok = p := by cases p <;> rfl
  rw [← hbind]
  refine h.bind (fun ts value next _ h => described_ok ?_) hc
  rw [List.append_nil]
  exact ha ts value next h

theorem advance_described (hend : st.nextTok ≠ .crEnd) (hword : st.nextTok ≠ .word) :
    Described st (fun ts _ next => ts = [.op st.nextTok] ∧ next.size < st.size)
      (fun _ _ => False) (advance st) := by
  rcases scanAt_cases st.ruleptr with ⟨e, he⟩ | ⟨next, hn⟩
  · unfold advance
    rw [he]
    trivial
  · have hstep : Step st (.op st.nextTok) next := .op hend hword hn
    unfold advance
    rw [hn]
    exact ⟨_, .cons hstep .nil, rfl, hstep.size_lt⟩

theorem described_advance {t : CruleToken} {f : Unit → Scan → Parsed α}
    (ht : st.nextTok = t) (hne : t ≠ .crEnd ∧ t ≠ .word)
    (hf : ∀ next, next.size < st.size →
      Described next (fun us => accepts (.op t :: us)) (fun e us => cut e (.op t :: us)) (f () next)) :
    Described st accepts cut ((advance st).bind f) := by
  subst ht
  refine (advance_described hne.1 hne.2).bind ?_ fun _ _ h => h.elim
  rintro _ _ next - ⟨rfl, hlt⟩
  exact hf next hlt

theorem takeWord_described (hword : st.nextTok = .word) :
    Described st (fun ts w next => ts = [.word w] ∧ next.size < st.size)
      (fun e ts => e = .quote ∧ ts = []) (takeWord st) := by
  rcases takeWord_cases st with ⟨hnone, h⟩ | ⟨e, h⟩ | ⟨w, r, next, -, -, h⟩
  · rw [h]
    exact ⟨.quote, [], st, .nil, ⟨rfl, rfl⟩, hword, hnone⟩
  · rw [h]
    trivial
  · have hstep : Step st (.word w) next := .word hword h
    rw [h]
    exact ⟨_, .cons hstep .nil, rfl, hstep.size_lt⟩

end

/-! ## Soundness -/

variable {fuel : ℕ} {currarg : List Char}

theorem parsearglistLoop_described {args : List (List Char)} {st : Scan} (hfuel : st.size < fuel) :
    Described st (fun ts args' next => Collects currarg args ts args' ∧ next.nextTok ≠ .comma)
      (fun e => CollectsCut e currarg args) (parsearglistLoop fuel currarg args st) := by
  induction fuel generalizing currarg args st with
  | zero => omega
  | succ fuel ih =>
    unfold parsearglistLoop
    by_cases hword : st.nextTok = .word
    · -- A word joins the current argument.
      rw [if_pos hword]
      apply (takeWord_described hword).bind
      · rintro _ w next - ⟨rfl, hlt⟩
        refine (ih (by omega)).mono ?_ ?_
        · rintro ts args' next' ⟨h, hcomma⟩
          exact ⟨.word h, hcomma⟩
        · exact fun e ts h => .word h
      · rintro e ts ⟨rfl, rfl⟩
        exact .quote
    · -- Anything else ends it.
      rw [if_neg hword]
      rcases hstore : storeArg currarg args with _ | args'
      · exact ⟨.overrun, [], st, .nil, .overrun hstore, hword⟩
      split_ifs with hcomma
      · exact described_ok ⟨.close hstore, hcomma⟩
      refine described_advance (not_not.mp hcomma) (by decide) fun next hlt =>
        (ih (by omega)).mono ?_ ?_
      · rintro ts args'' next' ⟨h, hcomma⟩
        exact ⟨.comma hstore h, hcomma⟩
      · exact fun e ts h => .comma hstore h

theorem comparisson_eq_some {t : CruleToken} {test : FuncTest} :
    t.comparisson = some test ↔ t = test.token := by
  cases t <;> cases test <;> simp [CruleToken.comparisson, FuncTest.token]

theorem FuncTest.token_ne (test : FuncTest) : test.token ≠ .crEnd ∧ test.token ≠ .word := by
  cases test <;> decide

section

variable (atoi : List Char → ℤ)

theorem parseComparisson_described (func : CruleFunclistent) (args : List (List Char)) (st : Scan) :
    Described st
      (fun ts node _ => ts = [] ∧ node = .func func.funcptr args none ∨
        ∃ test value, ts = [.op test.token, .word value] ∧
          node = .func func.funcptr args (some (test, atoi value)))
      (fun e ts => e = .quote ∧ ∃ test : FuncTest, ts = [.op test.token])
      (parseComparisson atoi func args st) := by
  unfold parseComparisson
  rcases htest : st.nextTok.comparisson with _ | test
  · exact described_ok (.inl ⟨rfl, rfl⟩)
  have htok := comparisson_eq_some.mp htest
  refine described_advance htok test.token_ne fun next _ => ?_
  split_ifs with hnext
  · trivial
  apply (takeWord_described (not_not.mp hnext)).bind
  · rintro _ value next' - ⟨rfl, -⟩
    exact described_ok (.inr ⟨test, value, rfl, rfl⟩)
  · rintro e ts ⟨rfl, rfl⟩
    exact ⟨rfl, test, rfl⟩

/-- From the argument list on, what is parsed completes a call of the function. -/
theorem parseArguments_described (func : CruleFunclistent) (st : Scan) :
    Described st
      (fun ts node _ => ∃ a : Atom, node = a.node ∧ ∀ f, Known f func →
        Function atoi (Collects [] []) (.word f :: .op .openparen :: ts) a)
      (fun e ts => ∀ f, Known f func → Cut atoi .primary e (.word f :: .op .openparen :: ts))
      (parseArguments atoi func st) := by
  apply (parsearglistLoop_described st.size_lt_fuel).bind
  · rintro ts args next - ⟨hargs, -⟩
    split_ifs with hclose hnum
    · trivial
    swap
    · trivial
    refine described_advance (not_not.mp hclose) (by decide) fun next' _ =>
      (parseComparisson_described atoi func args next').mono ?_ ?_
    · rintro us node _ (⟨rfl, rfl⟩ | ⟨test, value, rfl, rfl⟩)
      · refine ⟨⟨func.funcptr, args, none⟩, rfl, fun f hf => ?_⟩
        simpa using Function.call hf hargs hnum
      · refine ⟨⟨func.funcptr, args, some (test, atoi value)⟩, rfl, fun f hf => ?_⟩
        simpa using Function.compare test value hf hargs hnum
    · rintro e us ⟨rfl, test, rfl⟩ f hf
      simpa using Cut.value test hf hargs hnum
  · exact fun e ts h f hf => .args hf h

variable {st next : Scan} {root : Option CRuleNode} {ts : List Lexeme} {fuel : ℕ}
  {args : List (List Char)}

/-- `crule_parsefunction` parses calls. -/
theorem cruleParsefunction_described (hword : st.nextTok = .word) :
    Described st (fun ts node _ => Parses atoi .primary none ts node) (Cut atoi .primary)
      (cruleParsefunction atoi st) := by
  apply (takeWord_described hword).bind
  · rintro _ f next - ⟨rfl, -⟩
    split_ifs with hopen
    · trivial
    rcases hfunc : cruleFunc f with _ | func
    · trivial
    have hf := cruleFunc_eq_some.mp hfunc
    refine described_advance (not_not.mp hopen) (by decide) fun next' _ =>
      (parseArguments_described atoi func next').link.mono ?_ ?_
    · rintro ts _ _ ⟨a, rfl, ha⟩
      exact .function (ha f hf)
    · exact fun e ts h => h f hf
  · rintro e ts ⟨rfl, rfl⟩
    exact .name

variable {lvl : Level} {node : CRuleNode}

theorem Parses.ne_null (h : Parses atoi lvl root ts node) : node ≠ .null := by
  induction h with
  | function => simp [Atom.node]
  | not => simp
  | paren _ ih | chain _ _ _ ih | missing _ ih => exact ih
  | @operand c root _ _ _ ih =>
    rcases root with _ | _
    · exact ih
    · simp [patch]

theorem Chain.op_ne (c : Chain) : c.op ≠ .crEnd ∧ c.op ≠ .word := by
  cases c <;> decide

def ParsesAt (lvl : Level) (st : Scan) : Parsed CRuleNode → Prop :=
  Described st (fun ts node _ => Parses atoi lvl none ts node ∨ ts = [] ∧ node = .null) (Cut atoi lvl)

theorem Described.parsesAt {P : Prop} {p : Parsed CRuleNode}
    (h : Described st (fun ts node _ => Parses atoi lvl none ts node ∨ P ∧ ts = [] ∧ node = .null)
      (Cut atoi lvl) p) : ParsesAt atoi lvl st p :=
  h.mono (fun _ _ _ h => h.imp_right And.right) fun _ _ h => h

variable {c : Chain}

theorem parseChain_described {parseOperand : Scan → Parsed CRuleNode} {n : ℕ}
    (hop : ∀ st, st.size ≤ n → ParsesAt atoi c.operand st (parseOperand st))
    (hfuel : st.size < fuel) (hn : st.size ≤ n) :
    Described st
      (fun ts node _ => Parses atoi (.chain c) root ts node ∨ root = none ∧ ts = [] ∧ node = .null)
      (Cut atoi (.chain c)) (parseChain c parseOperand fuel root st) := by
  induction fuel generalizing root st with
  | zero => omega
  | succ fuel ih =>
    have hst := hop st hn
    unfold parseChain
    generalize parseOperand st = p at hst ⊢
    rcases p with ⟨operand, next⟩ | ⟨e, l⟩ | _ | _
    · obtain ⟨ts, hs, hoperand⟩ := hst
      have hle := hs.size_le
      dsimp only
      by_cases hnext : next.nextTok = c.op
      · -- The operator follows, and then the rest of the chain.
        rw [if_pos hnext]
        obtain ⟨hend, hword⟩ := c.op_ne
        refine .after hs ?_
        apply (advance_described (by rwa [hnext]) (by rwa [hnext])).link.bind
        · rintro _ _ next' - ⟨rfl, hlt⟩
          rw [hnext]
          refine (ih (by omega) (by omega)).mono ?_ ?_
          · rintro us node _ (h | ⟨h, -⟩)
            · rcases hoperand with hp | ⟨rfl, rfl⟩
              · exact .inl (.chain hp h)
              · exact .inl (.missing h)
            · cases h
          · intro e us h
            rcases hoperand with hp | ⟨rfl, rfl⟩
            · exact .chain hp h
            · exact .missing h
        · exact fun _ _ h => h.elim
      · -- The chain ends with this operand.
        rw [if_neg hnext]
        rcases hoperand with hp | ⟨rfl, rfl⟩
        · rw [if_neg fun h => hp.ne_null atoi h.2]
          exact ⟨ts, hs, .inl (.operand hp)⟩
        rcases root with _ | arg0
        · exact ⟨[], hs, .inr ⟨rfl, rfl, rfl⟩⟩
        · rw [if_pos ⟨nofun, rfl⟩]
          trivial
    · dsimp only
      split_ifs <;> trivial
    · obtain ⟨e, ts, next, hs, h, hf⟩ := hst
      exact ⟨e, ts, next, hs, .operand h, hf⟩
    · exact hst

/-- `crule_parseandexpr` and `crule_parseorexpr`, where primaries are parsed as described up to a
size. -/
theorem parseorexprOf_described {parseprimary : Scan → Parsed CRuleNode} {n : ℕ}
    (hprimary : ∀ st, st.size ≤ n → ParsesAt atoi .primary st (parseprimary st))
    (hn : st.size ≤ n) : ParsesAt atoi (.chain .orexpr) st (parseorexprOf parseprimary st) := by
  have hand : ∀ st, st.size ≤ n →
      ParsesAt atoi (.chain .andexpr) st (parseandexprOf parseprimary st) := fun st hn =>
    (parseChain_described (c := .andexpr) atoi hprimary st.size_lt_fuel hn).parsesAt
  exact (parseChain_described (c := .orexpr) atoi hand st.size_lt_fuel hn).parsesAt

/-- `crule_parseprimary` parses primaries, and nothing where there is none. -/
theorem cruleParseprimary_described {negated : Bool} {st : Scan} (hfuel : st.size < fuel) :
    Described st
      (fun ts node _ => Parses atoi .primary none ts node ∨
        negated = false ∧ ts = [] ∧ node = .null)
      (Cut atoi .primary) (cruleParseprimary atoi fuel negated st) := by
  induction fuel generalizing negated st with
  | zero => omega
  | succ fuel ih =>
    unfold cruleParseprimary
    split
    case h_1 hopen =>
      refine described_advance hopen (by decide) fun next hlt => ?_
      have hprimary : ∀ st', st'.size ≤ next.size →
          ParsesAt atoi .primary st' (cruleParseprimary atoi fuel false st') :=
        fun st' hle => (ih (by omega)).parsesAt
      apply (parseorexprOf_described atoi hprimary le_rfl).bind
      · rintro ts node next' - h
        split_ifs with hnull hclose
        · trivial
        · trivial
        rw [not_not] at hclose
        have hp : Parses atoi (.chain .orexpr) none ts node :=
          h.resolve_right fun h => hnull h.2
        apply (advance_described (by simp [hclose]) (by simp [hclose])).link.bind
        · rintro _ _ next'' - ⟨rfl, -⟩
          rw [hclose]
          exact described_ok (.inl (by simpa using hp.paren))
        · exact fun _ _ h => h.elim
      · exact fun e ts h => .paren h
    case h_2 hnot =>
      refine .link ?_
      refine described_advance hnot (by decide) fun next hlt => (@ih true next (by omega)).bind ?_ ?_
      · rintro ts arg0 next' - (h | ⟨h, -⟩)
        · exact described_ok (.inl (by simpa using h.not))
        · cases h
      · exact fun e ts h => .not h
    case h_3 hword =>
      exact (cruleParsefunction_described atoi hword).mono (fun _ _ _ => .inl) (fun _ _ h => h)
    case h_4 =>
      split_ifs with hneg
      · trivial
      · exact described_ok (.inr ⟨by simpa using hneg, rfl, rfl⟩)

/-! ## Completeness -/

theorem exists_succ {k n : ℕ} (h : k < n) : ∃ m, n = m + 1 := ⟨n - 1, by omega⟩

@[simp]
theorem Parsed.bind_ok {α β : Type} (value : α) (next : Scan) (f : α → Scan → Parsed β) :
    (ok value next).bind f = f value next := rfl

@[simp]
theorem Parsed.bind_fault {α β : Type} (f : α → Scan → Parsed β) :
    (fault : Parsed α).bind f = .fault := rfl

/-- `Parsed.link` keeps a success. -/
@[simp]
theorem Parsed.link_ok {α : Type} (value : α) (next : Scan) :
    (ok value next).link = .ok value next := rfl

/-- `Parsed.link` keeps a fault. -/
@[simp]
theorem Parsed.link_fault {α : Type} : (fault : Parsed α).link = .fault := rfl

theorem Scan.Faults.takeWord {st : Scan} (h : st.Faults .quote) : takeWord st = .fault := by
  unfold Crule.takeWord
  rw [h.2]

omit atoi in
/-- The loop of the arguments follows their grammar. -/
theorem Collects.runs {args' : List (List Char)}
    (h : Collects currarg args ts args') (hfuel : st.size < fuel)
    (hs : Steps st ts next) (hword : next.nextTok ≠ .word) (hcomma : next.nextTok ≠ .comma) :
    parsearglistLoop fuel currarg args st = .ok args' next := by
  induction h generalizing fuel st with obtain ⟨fuel, rfl⟩ := exists_succ hfuel
  | close hstore =>
    cases hs
    simp [parsearglistLoop, hword, hcomma, hstore]
  | word _ ih =>
    obtain ⟨hw, mid, htake, hlt, hs⟩ := hs.of_word
    rw [parsearglistLoop, if_pos hw, htake]
    exact ih (by omega) hs
  | comma hstore _ ih =>
    obtain ⟨hop, mid, hadv, hlt, hs⟩ := hs.of_op
    simp only [parsearglistLoop, hop, hstore, hadv, reduceCtorEq, if_false, ne_eq,
      not_true_eq_false, bind_ok]
    exact ih (by omega) hs

omit atoi in
theorem CollectsCut.runs {e : Fault} (h : CollectsCut e currarg args ts)
    (hfuel : st.size < fuel) (hs : Steps st ts next) (hf : next.Faults e) :
    parsearglistLoop fuel currarg args st = .fault := by
  induction h generalizing fuel st with obtain ⟨fuel, rfl⟩ := exists_succ hfuel
  | quote =>
    cases hs
    rw [parsearglistLoop, if_pos hf.1, hf.takeWord, bind_fault]
  | overrun hstore =>
    cases hs
    rw [parsearglistLoop, if_neg hf, hstore]
  | word _ ih =>
    obtain ⟨hw, mid, htake, hlt, hs⟩ := hs.of_word
    rw [parsearglistLoop, if_pos hw, htake]
    exact ih (by omega) hs hf
  | comma hstore _ ih =>
    obtain ⟨hop, mid, hadv, hlt, hs⟩ := hs.of_op
    simp only [parsearglistLoop, hop, hstore, hadv, reduceCtorEq, if_false, ne_eq,
      not_true_eq_false, bind_ok]
    exact ih (by omega) hs hf

variable {func : CruleFunclistent}

/-- `crule_parsefunction` at a known name and an opening parenthesis. -/
theorem cruleParsefunction_of_name {f : List Char} (hf : Known f func)
    (hs : Steps st (.word f :: .op .openparen :: ts) next) :
    ∃ mid, Steps mid ts next ∧
      cruleParsefunction atoi st = (parseArguments atoi func mid).link := by
  obtain ⟨-, mid, htake, -, hs⟩ := hs.of_word
  obtain ⟨hop, mid', hadv, -, hs⟩ := hs.of_op
  refine ⟨mid', hs, ?_⟩
  simp [cruleParsefunction, htake, hop, cruleFunc_eq_some.mpr hf, hadv]

/-- `crule_parsefunction` behind the arguments. -/
theorem parseArguments_of_args {us : List Lexeme} (hargs : Collects [] [] ts args)
    (hnum : func.Takes args.length) (hs : Steps st (ts ++ .op .closeparen :: us) next) :
    ∃ mid, Steps mid us next ∧
      parseArguments atoi func st = parseComparisson atoi func args mid := by
  obtain ⟨mid, hs, hs'⟩ := hs.of_append
  obtain ⟨hop, mid', hadv, -, hs'⟩ := hs'.of_op
  refine ⟨mid', hs', ?_⟩
  have hrun := hargs.runs st.size_lt_fuel hs (by simp [hop]) (by simp [hop])
  simp [parseArguments, cruleParsearglist, hrun, hop, hnum, hadv]

/-- A call that is written in the text is parsed, if no comparison follows it. -/
theorem Function.runs {a : Atom} (h : Function atoi (Collects [] []) ts a) (hs : Steps st ts next)
    (hnext : next.nextTok.comparisson = none) :
    cruleParsefunction atoi st = .ok a.node next := by
  cases h with
  | call hf hargs hnum =>
    obtain ⟨mid, hs, h⟩ := cruleParsefunction_of_name atoi hf hs
    obtain ⟨mid', hs, h'⟩ := parseArguments_of_args atoi hargs hnum hs
    cases hs
    simp [h, h', parseComparisson, hnext, Atom.node]
  | compare test value hf hargs hnum =>
    obtain ⟨mid, hs, h⟩ := cruleParsefunction_of_name atoi hf hs
    obtain ⟨mid', hs, h'⟩ := parseArguments_of_args atoi hargs hnum hs
    obtain ⟨hop, mid'', hadv, -, hs⟩ := hs.of_op
    obtain ⟨hw, _, htake, -, hs⟩ := hs.of_word
    cases hs
    simp [h, h', parseComparisson, comparisson_eq_some.mpr hop, hadv, hw, htake, Atom.node]

def parseOperand (fuel : ℕ) : Chain → Scan → Parsed CRuleNode
  | .andexpr => cruleParseprimary atoi fuel false
  | .orexpr => parseandexprOf (cruleParseprimary atoi fuel false)

def Runs (fuel : ℕ) (root : Option CRuleNode) (st : Scan) (outcome : Parsed CRuleNode) :
    Level → Prop
  | .primary => ∀ negated, cruleParseprimary atoi fuel negated st = outcome
  | .chain c => ∀ n, st.size < n → parseChain c (parseOperand atoi fuel c) n root st = outcome

/-- What stands behind an expression of a level and does not belong to it. -/
def Follows (t : CruleToken) : Level → Prop
  | .primary => t.comparisson = none
  | .chain .andexpr => t.comparisson = none ∧ t ≠ .and
  | .chain .orexpr => t.comparisson = none ∧ t ≠ .and ∧ t ≠ .or

theorem Chain.follows_op (c : Chain) : Follows c.op c.operand := by
  cases c <;> simp [op, operand, Follows, CruleToken.comparisson]

theorem Follows.operand {t : CruleToken} (h : Follows t (.chain c)) :
    Follows t c.operand ∧ t ≠ c.op := by
  cases c with
  | andexpr => exact h
  | orexpr => exact ⟨⟨h.1, h.2.1⟩, h.2.2⟩

variable {outcome : Parsed CRuleNode}

theorem Runs.parseOperand {st : Scan}
    (h : Runs atoi fuel none st outcome c.operand) : parseOperand atoi fuel c st = outcome := by
  cases c with
  | andexpr => exact h false
  | orexpr => exact h st.fuel st.size_lt_fuel

theorem parseOperand_of_op (hfuel : st.size < fuel)
    (h : st.nextTok = c.op) : parseOperand atoi fuel c st = .ok .null st := by
  obtain ⟨fuel, rfl⟩ := exists_succ hfuel
  cases c with
  | andexpr => simp [parseOperand, cruleParseprimary, h, op]
  | orexpr =>
    simp [parseOperand, parseandexprOf, Scan.fuel, parseChain, cruleParseprimary, h, op,
      patch]

theorem runs_of_op {operand : CRuleNode} {mid : Scan}
    (hop : parseOperand atoi fuel c st = .ok operand next) (hle : next.size ≤ st.size)
    (hnext : next.nextTok = c.op) (hadv : advance next = .ok () mid) (hlt : mid.size < next.size)
    (h : Runs atoi fuel (some (c.patch root operand)) mid outcome (.chain c)) :
    Runs atoi fuel root st outcome (.chain c) := by
  intro n hn
  obtain ⟨n, rfl⟩ := exists_succ hn
  rw [parseChain, hop]
  simp only [hnext, if_true, hadv, link_ok, bind_ok]
  exact h n (by omega)

variable {root : Option CRuleNode}

/-- The parser follows the grammar, by induction over the derivation. -/
theorem Parses.runs {ts : List Lexeme} (h : Parses atoi lvl root ts node) {st next : Scan}
    (hfuel : st.size < fuel) (hs : Steps st ts next) (hnext : Follows next.nextTok lvl) :
    Runs atoi fuel root st (.ok node next) lvl := by
  induction h generalizing fuel st next with obtain ⟨fuel, rfl⟩ := exists_succ hfuel
  | function h =>
    intro negated
    have hword : st.nextTok = .word := by
      cases h <;> exact hs.of_word.1
    simp only [cruleParseprimary, hword]
    exact h.runs atoi hs hnext
  | not _ ih =>
    intro negated
    obtain ⟨hop, mid, hadv, hlt, hs⟩ := hs.of_op
    have hrun := @ih fuel mid next (by omega) hs hnext true
    simp [cruleParseprimary, hop, hadv, hrun]
  | paren h ih =>
    intro negated
    obtain ⟨hop, mid, hadv, hlt, hs⟩ := hs.of_op
    obtain ⟨mid', hs, hs'⟩ := hs.of_append
    obtain ⟨hclose, mid'', hadv', -, hs'⟩ := hs'.of_op
    cases hs'
    have hfollow : Follows mid'.nextTok (.chain .orexpr) := by
      simp [hclose, Follows, CruleToken.comparisson]
    have hrun : parseorexprOf (cruleParseprimary atoi fuel false) mid = .ok _ mid' :=
      ih (by omega) hs hfollow mid.fuel mid.size_lt_fuel
    simp [cruleParseprimary, hop, parseParen, hadv, hrun, h.ne_null atoi, hclose, hadv']
  | @operand c root ts node h ih =>
    intro n hn
    obtain ⟨n, rfl⟩ := exists_succ hn
    obtain ⟨hfollow, hne⟩ := hnext.operand
    have hrun := (ih hfuel hs hfollow).parseOperand atoi
    rw [parseChain, hrun]
    simp [hne, h.ne_null atoi]
  | @chain c root ts us node node' h _ ih ih' =>
    obtain ⟨mid, hs, hs'⟩ := hs.of_append
    have hle := hs.size_le
    obtain ⟨hop, mid', hadv, hlt, hs'⟩ := hs'.of_op
    have hrun := (ih hfuel hs (by rw [hop]; exact c.follows_op)).parseOperand atoi
    exact runs_of_op atoi hrun hle hop hadv hlt (ih' (by omega) hs' hnext)
  | missing _ ih =>
    obtain ⟨hop, mid, hadv, hlt, hs⟩ := hs.of_op
    exact runs_of_op atoi (parseOperand_of_op atoi hfuel hop) le_rfl hop hadv hlt
      (ih (by omega) hs hnext)

/-- A rule that is cut short makes the parser fail. -/
theorem Cut.runs {e : Fault} {ts : List Lexeme} (h : Cut atoi lvl e ts) {st next : Scan}
    (hfuel : st.size < fuel) (hs : Steps st ts next)
    (hf : next.Faults e) : Runs atoi fuel root st .fault lvl := by
  induction h generalizing fuel root st with obtain ⟨fuel, rfl⟩ := exists_succ hfuel
  | name =>
    intro negated
    cases hs
    simp [cruleParseprimary, hf.1, cruleParsefunction, hf.takeWord]
  | args hk h =>
    intro negated
    have hword := hs.of_word.1
    obtain ⟨mid, hs, hrun⟩ := cruleParsefunction_of_name atoi hk hs
    have hargs := h.runs mid.size_lt_fuel hs hf
    simp [cruleParseprimary, hword, hrun, parseArguments, cruleParsearglist, hargs]
  | value test hk hargs hnum =>
    intro negated
    have hword := hs.of_word.1
    obtain ⟨mid, hs, h⟩ := cruleParsefunction_of_name atoi hk hs
    obtain ⟨mid', hs, h'⟩ := parseArguments_of_args atoi hargs hnum hs
    obtain ⟨hop, _, hadv, -, hs⟩ := hs.of_op
    cases hs
    simp [cruleParseprimary, hword, h, h', parseComparisson, comparisson_eq_some.mpr hop, hadv,
      hf.1, hf.takeWord]
  | not _ ih =>
    intro negated
    obtain ⟨hop, mid, hadv, hlt, hs⟩ := hs.of_op
    have hrun := @ih fuel none mid (by omega) hs hf true
    simp [cruleParseprimary, hop, hadv, hrun]
  | paren _ ih =>
    intro negated
    obtain ⟨hop, mid, hadv, hlt, hs⟩ := hs.of_op
    have hrun : parseorexprOf (cruleParseprimary atoi fuel false) mid = .fault :=
      ih (by omega) hs hf mid.fuel mid.size_lt_fuel
    simp [cruleParseprimary, hop, parseParen, hadv, hrun]
  | @operand e c ts _ ih =>
    intro n hn
    obtain ⟨n, rfl⟩ := exists_succ hn
    have hrun := (@ih (fuel + 1) none st hfuel hs hf).parseOperand atoi
    rw [parseChain, hrun]
  | @chain e c ts us node h _ ih =>
    obtain ⟨mid, hs, hs'⟩ := hs.of_append
    have hle := hs.size_le
    obtain ⟨hop, mid', hadv, hlt, hs'⟩ := hs'.of_op
    have hrun := (h.runs atoi hfuel hs (by rw [hop]; exact c.follows_op)).parseOperand atoi
    exact runs_of_op atoi hrun hle hop hadv hlt (ih (by omega) hs' hf)
  | missing _ ih =>
    obtain ⟨hop, mid, hadv, hlt, hs⟩ := hs.of_op
    exact runs_of_op atoi (parseOperand_of_op atoi hfuel hop) le_rfl hop hadv hlt
      (ih (by omega) hs hf)

/-! ## A whole rule -/

/-- What the parser makes of a rule comes from the grammar, and the bounds of the loops suffice. -/
theorem parseRule_sound (s : List Char) :
    match parseRule atoi s with
    | .ok node _ => ∃ ts, Reads true s ts ∧ Parses atoi (.chain .orexpr) none ts node
    | .fail _ _ => True
    | .fault => RunsOff atoi s
    | .timeout => False := by
  unfold parseRule
  rcases scanAt_cases s with ⟨e, he⟩ | ⟨st, hst⟩
  · rw [he]
    trivial
  have hd : ParsesAt atoi (.chain .orexpr) st (cruleParseorexpr atoi st) :=
    parseorexprOf_described atoi (fun st' hle =>
      (cruleParseprimary_described atoi (hle.trans_lt st.size_lt_fuel)).parsesAt) le_rfl
  rw [hst, bind_ok]
  generalize cruleParseorexpr atoi st = p at hd ⊢
  rcases p with ⟨node, next⟩ | ⟨e, l⟩ | _ | _
  · obtain ⟨ts, hs, hp⟩ := hd
    rw [bind_ok]
    split_ifs with hnull hend
    · trivial
    · trivial
    · obtain ⟨r, hscans, hr⟩ := (steps_iff (scanAt_eq_ok.mp hst)).mp hs
      exact ⟨ts, ⟨r, hscans, atEnd_iff.mpr ⟨_, hr, by simpa using hend⟩⟩,
        hp.resolve_right fun h => hnull h.2⟩
  · trivial
  · obtain ⟨e, ts, next, hs, hcut, hf⟩ := hd
    obtain ⟨r, hscans, hr⟩ := (steps_iff (scanAt_eq_ok.mp hst)).mp hs
    refine ⟨ts, r, hscans, ?_⟩
    cases e with
    | quote => exact .inl ⟨hcut, openQuote_iff.mpr ⟨next, hr, hf⟩⟩
    | overrun => exact .inr ⟨hcut, endsArgument_iff.mpr ⟨next, hr, hf⟩⟩
  · exact hd

theorem parseRule_ne_timeout (s : List Char) : parseRule atoi s ≠ .timeout := by
  intro h
  have hsound := parseRule_sound atoi s
  rwa [h] at hsound

/-- A rule is parsed exactly if its tokens are accepted, into the tree that belongs to them. -/
theorem parseRule_eq_ok {s : List Char} : (∃ next, parseRule atoi s = .ok node next) ↔
      ∃ ts, Reads true s ts ∧ Parses atoi (.chain .orexpr) none ts node := by
  constructor
  · rintro ⟨next, h⟩
    have hsound := parseRule_sound atoi s
    rwa [h] at hsound
  · rintro ⟨ts, ⟨r, hscans, hend⟩, hp⟩
    obtain ⟨next, hr, htok⟩ := atEnd_iff.mp hend
    obtain ⟨st, hst⟩ := hscans.gettoken hr
    have hs := (steps_iff hst).mpr ⟨r, hscans, hr⟩
    have hfollow : Follows next.nextTok (.chain .orexpr) := by
      simp [htok, Follows, CruleToken.comparisson]
    have hrun : cruleParseorexpr atoi st = .ok node next :=
      hp.runs atoi st.size_lt_fuel hs hfollow st.fuel st.size_lt_fuel
    exact ⟨next, by simp [parseRule, scanAt_eq_ok.mpr hst, hrun, hp.ne_null atoi, htok]⟩

/-- The parser leaves its bounds exactly on the texts that run off. -/
theorem parseRule_eq_fault {s : List Char} : parseRule atoi s = .fault ↔ RunsOff atoi s := by
  constructor
  · intro h
    have hsound := parseRule_sound atoi s
    rwa [h] at hsound
  · rintro ⟨ts, r, hscans, h⟩
    obtain ⟨e, next, hcut, hr, hf⟩ : ∃ e next, Cut atoi (.chain .orexpr) e ts ∧
        cruleGettoken none r = .ok next ∧ next.Faults e := by
      rcases h with ⟨hcut, hq⟩ | ⟨hcut, ha⟩
      · obtain ⟨next, hr, hf⟩ := openQuote_iff.mp hq
        exact ⟨.quote, next, hcut, hr, hf⟩
      · obtain ⟨next, hr, hf⟩ := endsArgument_iff.mp ha
        exact ⟨.overrun, next, hcut, hr, hf⟩
    obtain ⟨st, hst⟩ := hscans.gettoken hr
    have hs := (steps_iff hst).mpr ⟨r, hscans, hr⟩
    have hrun : cruleParseorexpr atoi st = .fault :=
      hcut.runs atoi st.size_lt_fuel hs hf st.fuel st.size_lt_fuel
    simp [parseRule, scanAt_eq_ok.mpr hst, hrun]

end

end ObbyIRCd.Crule
