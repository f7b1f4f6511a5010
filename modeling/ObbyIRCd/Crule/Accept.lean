import ObbyIRCd.Crule.Meaning

/-!
# Which rules are accepted, and what they mean

`cruleTest_iff` compares what `_crule_test` and `_crule_parse` accept with the documented grammar.
They agree exactly on the texts that are `Regular`: those that do not run off the text or an array,
and that, if the lax grammar accepts them, are written with whole operators, with an operand in front
of every operator, and with single words as arguments.

`cruleParse_meaning_iff` is about the tree of an accepted rule. It is complete and evaluates to the
rule's formula exactly if every operator has its left operand.

`cruleParsearglist_inBounds_iff` is about the array of the arguments: its bounds are kept exactly if the
text has no more arguments than it holds.
-/

namespace ObbyIRCd.Crule

open List

section

variable {atoi : List Char → ℤ}

/-! ## Arguments -/

theorem joinWord_nil (w : List Char) : joinWord [] w = w := by simp [joinWord]

theorem storeArg_nil (args : List (List Char)) : storeArg [] args = some args := by simp [storeArg]

theorem storeArg_eq_some {w : List Char} {args args' : List (List Char)} (hw : w ≠ []) :
    storeArg w args = some args' ↔ args.length < crMaxargs ∧ args' = args ++ [w] := by
  unfold storeArg
  rw [if_neg hw]
  split_ifs with h
  · simp [h, eq_comm]
  · simp [h]

variable {ts : List Lexeme}

theorem Arglist.collects {ws : List (List Char)} (h : Arglist ts ws)
    (hne : .word [] ∉ ts) (args : List (List Char)) (hlen : args.length + ws.length ≤ crMaxargs) :
    Collects [] args ts (args ++ ws) := by
  induction h generalizing args with
  | none => exact .close (by simp [storeArg_nil])
  | @one w =>
    have hw : w ≠ [] := by
      rintro rfl
      exact hne (by simp)
    refine .word (.close ?_)
    rw [joinWord_nil, storeArg_eq_some hw]
    rw [length_singleton] at hlen
    exact ⟨by omega, rfl⟩
  | @more w ts ws _ _ ih =>
    have hw : w ≠ [] := by
      rintro rfl
      exact hne (by simp)
    rw [length_cons] at hlen
    have hstore : storeArg w args = some (args ++ [w]) :=
      (storeArg_eq_some hw).mpr ⟨by omega, rfl⟩
    refine .word (.comma (by rw [joinWord_nil]; exact hstore) ?_)
    have hrest := ih (fun h => hne (by simp [h])) (args ++ [w]) (by simp; omega)
    simpa using hrest

theorem Collects.arglist {w : List Char} {args args' : List (List Char)} {ts : List Lexeme}
    (h : Collects w args ts args') (hw : w ≠ []) (hne : .word [] ∉ ts)
    (hchain : (.word w :: (ts ++ [.op .closeparen])).IsChain ArgumentBefore) :
    ∃ ws, Arglist (.word w :: ts) (w :: ws) ∧ args' = args ++ w :: ws := by
  match ts, h with
  | [], .close hstore =>
    obtain ⟨-, rfl⟩ := (storeArg_eq_some hw).mp hstore
    exact ⟨[], .one, rfl⟩
  | .word v :: ts, _ =>
    -- Two words in a row are out of place.
    have := (isChain_cons_cons.mp hchain).1.1 w v rfl
    exact absurd rfl this
  | .op .comma :: ts, .comma hstore h =>
    obtain ⟨-, rfl⟩ := (storeArg_eq_some hw).mp hstore
    have hchain' := (isChain_cons_cons.mp hchain).2
    match ts, h with
    | [], _ =>
      have := (isChain_cons_cons.mp hchain').1.2.2 rfl
      exact absurd rfl this
    | .op .comma :: ts, _ =>
      have := ((isChain_cons_cons.mp hchain').1.2.1 rfl).2
      exact absurd rfl this
    | .word v :: ts, .word h =>
      rw [joinWord_nil] at h
      have hv : v ≠ [] := by
        rintro rfl
        exact hne (by simp)
      obtain ⟨ws, hargs, rfl⟩ := h.arglist hv (fun hmem => hne (by simp [hmem]))
        (isChain_cons_cons.mp hchain').2
      exact ⟨v :: ws, .more (by simp) hargs, by simp⟩

theorem Collects.arglist_of_open {args : List (List Char)}
    (h : Collects [] [] ts args) (hne : .word [] ∉ ts)
    (hchain : (.op .openparen :: (ts ++ [.op .closeparen])).IsChain ArgumentBefore) :
    Arglist ts args := by
  match ts, h with
  | [], .close hstore =>
    cases hstore
    exact .none
  | .op .comma :: ts, _ =>
    have := ((isChain_cons_cons.mp hchain).1.2.1 rfl).1
    exact absurd rfl this
  | .word w :: ts, .word h =>
    have hw : w ≠ [] := by
      rintro rfl
      exact hne (by simp)
    obtain ⟨ws, hargs, rfl⟩ := h.arglist hw (fun hmem => hne (by simp [hmem]))
      (isChain_cons_cons.mp hchain).2
    exact hargs

variable {p : Lexeme}

theorem Arglist.isChain {ws : List (List Char)} (h : Arglist ts ws)
    (hp : p = .op .openparen ∨ p = .op .comma ∧ ws ≠ []) :
    (p :: (ts ++ [.op .closeparen])).IsChain ArgumentBefore := by
  have hword : ∀ w, ArgumentBefore p (.word w) := by
    intro w
    rcases hp with rfl | ⟨rfl, -⟩ <;> simp [ArgumentBefore]
  induction h generalizing p with
  | none =>
    obtain rfl := hp.resolve_right fun h => h.2 rfl
    simp [ArgumentBefore]
  | @one w =>
    rw [singleton_append, isChain_cons_cons]
    exact ⟨hword w, by simp [ArgumentBefore]⟩
  | @more w ts ws hws _ ih =>
    have htail := ih (.inr ⟨rfl, hws⟩) (by simp [ArgumentBefore])
    rw [cons_append, isChain_cons_cons, cons_append, isChain_cons_cons]
    exact ⟨hword w, by simp [ArgumentBefore], htail⟩

theorem Known.numargs_le {f : List Char} {func : CruleFunclistent} (h : Known f func) {n : ℕ}
    (hn : func.Takes n) : n ≤ crMaxargs := by
  have htable : ∀ g ∈ cruleFunclist, g.reqnumargs ≠ -1 ∧ g.reqnumargs ≤ crMaxargs := by decide
  obtain ⟨hany, hle⟩ := htable func h.1
  rcases hn with hn | hn
  · omega
  · exact absurd hn hany

theorem Function.collects {ts : List Lexeme} {a : Atom} (h : Function atoi Arglist ts a)
    (hne : .word [] ∉ ts) : Function atoi (Collects [] []) ts a := by
  cases h with
  | call hf hargs hnum =>
    refine .call hf ?_ hnum
    have hlen := hf.numargs_le hnum
    simpa using hargs.collects (fun h => hne (by simp [h])) [] (by simpa using hlen)
  | compare test value hf hargs hnum =>
    refine .compare test value hf ?_ hnum
    have hlen := hf.numargs_le hnum
    simpa using hargs.collects (fun h => hne (by simp [h])) [] (by simpa using hlen)

/-- A call with its arguments in their place is a documented call. -/
theorem Function.arglist {a : Atom} (h : Function atoi (Collects [] []) ts a)
    (hne : .word [] ∉ ts) (hchain : ts.IsChain ArgumentBefore) : Function atoi Arglist ts a := by
  cases h with
  | @call f func ts args hf hargs hnum =>
    have hopen := (isChain_cons_cons.mp hchain).2
    exact .call hf (hargs.arglist_of_open (fun h => hne (by simp [h])) hopen) hnum
  | @compare f func ts args test value hf hargs hnum =>
    have hopen := (isChain_cons_cons.mp hchain).2
    have hprefix : (.op .openparen :: (ts ++ [.op .closeparen])).IsChain ArgumentBefore := by
      apply hopen.infix
      exact ⟨[], [.op test.token, .word value], by simp⟩
    exact .compare test value hf (hargs.arglist_of_open (fun h => hne (by simp [h])) hprefix) hnum

theorem Function.isChain {ts : List Lexeme} {a : Atom} (h : Function atoi Arglist ts a)
    (hp : ∀ w, p ≠ .word w) : (p :: ts).IsChain ArgumentBefore := by
  cases h with
  | @call f func ts args _ hargs =>
    have hopen := hargs.isChain (.inl rfl)
    rw [isChain_cons_cons, isChain_cons_cons]
    exact ⟨by simp [ArgumentBefore, hp], by simp [ArgumentBefore], hopen⟩
  | @compare f func ts args test value _ hargs =>
    have hopen := hargs.isChain (.inl rfl)
    have hvalue : (.op .openparen :: (ts ++ [.op .closeparen, .op test.token, .word value])).IsChain
        ArgumentBefore := by
      have hsplit : Lexeme.op .openparen :: (ts ++ [.op .closeparen, .op test.token, .word value]) =
          (.op .openparen :: (ts ++ [.op .closeparen])) ++ [.op test.token, .word value] := by simp
      rw [hsplit, isChain_append]
      refine ⟨hopen, by simp [ArgumentBefore], ?_⟩
      cases test <;> simp [ArgumentBefore, FuncTest.token]
    rw [isChain_cons_cons, isChain_cons_cons]
    exact ⟨by simp [ArgumentBefore, hp], by simp [ArgumentBefore], hvalue⟩

/-! ## Derivations -/

variable {φ : Formula} {lvl : Level}

theorem Sentence.getLast {arglist : List Lexeme → List (List Char) → Prop}
    {ts : List Lexeme} (h : Sentence (Function atoi arglist) lvl ts φ) : EndsIn ts := by
  induction h with
  | function h => exact h.getLast
  | not _ ih => exact ih.append [_]
  | paren => exact ⟨.op .closeparen, by simp [getLast?_cons], .inl rfl⟩
  | operand _ ih => exact ih
  | chain _ _ _ ih => exact (ih.append [_]).append _

/-- A derivation may read its calls in another way, if they can be read so. -/
theorem Sentence.map {F G : List Lexeme → Atom → Prop} (h : Sentence F lvl ts φ)
    (hFG : ∀ us a, us <:+: ts → F us a → G us a) :
    Sentence G lvl ts φ := by
  induction h with
  | @function ts a h => exact .function (hFG ts a infix_rfl h)
  | not _ ih =>
    exact .not (ih fun us a hus => hFG us a (hus.trans (suffix_cons _ _).isInfix))
  | @paren ts _ _ ih =>
    refine .paren (ih fun us a hus => hFG us a (hus.trans ?_))
    exact ⟨[.op .openparen], [.op .closeparen], by simp⟩
  | operand _ ih => exact .operand (ih hFG)
  | @chain c ts us _ _ _ _ ih ih' =>
    refine .chain (ih fun vs a hvs => hFG vs a (hvs.trans ?_))
      (ih' fun vs a hvs => hFG vs a (hvs.trans ?_))
    · exact (prefix_append ts _).isInfix
    · exact ⟨ts ++ [.op c.op], [], by simp⟩

theorem EndsOperand.argumentBefore {l : Lexeme} (h : EndsOperand l) {t : CruleToken}
    (ht : t ≠ .comma) : ArgumentBefore l (.op t) := by
  rcases h with rfl | ⟨w, rfl⟩ <;> simp [ArgumentBefore, ht]

/-- The tokens of a documented expression are in their place. -/
theorem Sentence.isChain {ts : List Lexeme}
    (h : Sentence (Function atoi Arglist) lvl ts φ) (hp : ∀ w, p ≠ .word w) :
    (p :: ts).IsChain ArgumentBefore := by
  induction h generalizing p with
  | function h => exact h.isChain hp
  | not _ ih =>
    rw [isChain_cons_cons]
    exact ⟨by simp [ArgumentBefore], ih nofun⟩
  | paren h ih =>
    rw [isChain_cons_cons]
    refine ⟨by simp [ArgumentBefore], ?_⟩
    rw [isChain_append_iff (fun e he => he.argumentBefore (by decide)) h.getLast]
    exact ⟨ih nofun, by simp⟩
  | operand _ ih => exact ih hp
  | @chain c ts us _ _ h _ ih ih' =>
    rw [isChain_append_iff (fun e he => he.argumentBefore (by cases c <;> decide)) h.getLast]
    exact ⟨ih hp, ih' nofun⟩

/-- The tokens of an accepted rule derive from the documented grammar exactly if they are in their
place. -/
theorem Parses.documented_iff {node : CRuleNode}
    (h : Parses atoi (.chain .orexpr) none ts node) (hne : .word [] ∉ ts) :
    (∃ φ, Sentence (Function atoi Arglist) (.chain .orexpr) ts φ) ↔
      OperandsInPlace ts ∧ ArgumentsInPlace ts := by
  have hcomplete := h.complete_iff (p := .op .openparen) (.inr (.inl rfl))
  constructor
  · rintro ⟨φ, hφ⟩
    have hlax : Sentence (Function atoi (Collects [] [])) (.chain .orexpr) ts φ :=
      hφ.map fun us a hus ha => ha.collects fun hmem => hne (hus.mem hmem)
    obtain ⟨node', hp', hc'⟩ := hlax.parses none nofun
    have hplace := (hp'.complete_iff (p := .op .openparen) (.inr (.inl rfl))).mp (hc' nofun)
    exact ⟨hplace.2, (hφ.isChain (p := .op .not) nofun).tail⟩
  · rintro ⟨hoperands, harguments⟩
    obtain ⟨φ, hφ, -⟩ := h.sentence (hcomplete.mpr ⟨nofun, hoperands⟩)
    refine ⟨φ, hφ.map fun us a hus ha => ha.arglist (fun hmem => hne (hus.mem hmem)) ?_⟩
    exact harguments.infix hus

theorem Derives.parses {s : List Char} (h : Derives atoi s) :
    ∃ ts node, Reads false s ts ∧ Parses atoi (.chain .orexpr) none ts node ∧
      OperandsInPlace ts ∧ ArgumentsInPlace ts := by
  obtain ⟨ts, φ, hreads, hφ⟩ := h
  have hne := hreads.choose_spec.1.word_ne_nil
  have hlax : Sentence (Function atoi (Collects [] [])) (.chain .orexpr) ts φ :=
    hφ.map fun us a hus ha => ha.collects fun hmem => hne (hus.mem hmem)
  obtain ⟨node, hp, -⟩ := hlax.parses none nofun
  exact ⟨ts, node, hreads, hp, (hp.documented_iff hne).mp ⟨φ, hφ⟩⟩

/-! ## The results -/

/-- A text on which the parser keeps to the documented grammar. It does not run off. And if its
tokens, as the scanner makes them out, are accepted, then they are written in the documented form,
every operator has its left operand, and every argument is a word of its own. -/
def Regular (atoi : List Char → ℤ) (s : List Char) : Prop :=
  ¬ RunsOff atoi s ∧ ∀ ts node, Reads true s ts → Parses atoi (.chain .orexpr) none ts node →
    Reads false s ts ∧ OperandsInPlace ts ∧ ArgumentsInPlace ts

/-- `_crule_test` returns, and returns 0 exactly for the documented rules; and `_crule_parse`
returns a tree exactly for these. -/
def Faithful (atoi : List Char → ℤ) (s : List Char) : Prop :=
  (∃ v, cruleTest atoi s = some v ∧ (v = 0 ↔ Derives atoi s)) ∧
    ∃ node, cruleParse atoi s = some node ∧ (node ≠ .null ↔ Derives atoi s)

/-- A text that fails or faults in the parser is no documented rule. -/
theorem not_derives_of_not_ok {s : List Char} (h : ∀ node next, parseRule atoi s ≠ .ok node next) :
    ¬ Derives atoi s := by
  intro hd
  obtain ⟨ts, node, hreads, hp, -⟩ := hd.parses
  obtain ⟨next, hok⟩ := (parseRule_eq_ok atoi).mpr ⟨ts, hreads.lax, hp⟩
  exact h node next hok

/-- The parser accepts exactly the documented grammar on the regular texts, and on no others. -/
theorem cruleTest_iff (atoi : List Char → ℤ) (s : List Char) :
    Faithful atoi s ↔ Regular atoi s := by
  rcases hres : parseRule atoi s with ⟨node, next⟩ | ⟨e, l⟩ | _ | _
  · -- Accepted: the tokens have to be documented.
    obtain ⟨ts, hreads, hp⟩ := (parseRule_eq_ok atoi).mp ⟨next, hres⟩
    have hnull := hp.ne_null atoi
    have hruns : ¬ RunsOff atoi s := by
      rw [← parseRule_eq_fault, hres]
      nofun
    have hfaithful : Faithful atoi s ↔ Derives atoi s := by
      simp [Faithful, cruleTest, cruleParse, hres, hnull]
    rw [hfaithful]
    constructor
    · intro hd
      refine ⟨hruns, fun ts' node' hreads' _ => ?_⟩
      obtain ⟨ts'', _, hdoc, -, hplace⟩ := hd.parses
      obtain rfl := hreads'.unique hdoc.lax
      exact ⟨hdoc, hplace⟩
    · rintro ⟨-, hregular⟩
      obtain ⟨hdoc, hplace⟩ := hregular ts node hreads hp
      have hne := hdoc.choose_spec.1.word_ne_nil
      obtain ⟨φ, hφ⟩ := (hp.documented_iff hne).mpr hplace
      exact ⟨ts, φ, hdoc, hφ⟩
  · -- Rejected: neither documented nor accepted.
    have hd : ¬ Derives atoi s := not_derives_of_not_ok (by rw [hres]; nofun)
    constructor
    · intro _
      constructor
      · rw [← parseRule_eq_fault, hres]
        nofun
      · intro ts node hreads hp
        obtain ⟨next, hok⟩ := (parseRule_eq_ok atoi).mpr ⟨ts, hreads, hp⟩
        rw [hres] at hok
        cases hok
    · intro _
      exact ⟨⟨e.toNat + 1, by simp [cruleTest, hres], by simp [hd]⟩, .null,
        by simp [cruleParse, hres], by simp [hd]⟩
  · -- Out of bounds.
    constructor
    · rintro ⟨⟨v, hv, -⟩, -⟩
      simp [cruleTest, hres] at hv
    · rintro ⟨hruns, -⟩
      exact absurd ((parseRule_eq_fault atoi).mp hres) hruns
  · exact absurd hres (parseRule_ne_timeout atoi s)

end

/-- A rule that begins with an operator. -/
def missingOperand : List Char := "|| directop()".toList

theorem reads_missingOperand :
    Reads true missingOperand
      [.op .or, .word "directop".toList, .op .openparen, .op .closeparen] := by
  have hs : Steps ⟨.or, " directop()".toList, by simp⟩
      [.op .or, .word "directop".toList, .op .openparen, .op .closeparen] ⟨.crEnd, [], by simp⟩ :=
    .cons (.op (by simp) (by simp) rfl) (.cons (.word rfl rfl) (.cons (.op (by simp) (by simp) rfl)
      (.cons (.op (by simp) (by simp) rfl) .nil)))
  obtain ⟨r, hscans, hr⟩ := (steps_iff (s := missingOperand) rfl).mp hs
  exact ⟨r, hscans, atEnd_iff.mpr ⟨_, hr, rfl⟩⟩

/-- `|| directop()` is accepted, though it derives from no production. -/
theorem cruleTest_accepts_missingOperand :
    cruleTest (fun _ => 0) missingOperand = some 0 ∧ ¬ Derives (fun _ => 0) missingOperand := by
  refine ⟨rfl, fun hd => ?_⟩
  obtain ⟨ts, _, hdoc, -, hplace, -⟩ := hd.parses
  obtain rfl := hdoc.lax.unique reads_missingOperand
  exact absurd hplace (by decide)

-- The other departures: half operators, loose arguments, an open quote.
example : cruleTest (fun _ => 0) "&directop()|".toList = some 0 := rfl
example : cruleTest (fun _ => 0) "connected(,a b,)".toList = some 0 := rfl
example : cruleTest (fun _ => 0) "tag('a".toList = none := rfl

/-- What an accepted rule should mean: no operand is missing in the tree, and for all results of the
calls it evaluates to the truth of the rule's formula. -/
def Meaningful (atoi : List Char → ℤ) (s : List Char) (node : CRuleNode) : Prop :=
  node.Complete ∧ ∃ ts φ, Reads true s ts ∧
    Sentence (Function atoi (Collects [] [])) (.chain .orexpr) ts φ ∧
    ∀ call, ∃ v, cruleEval call node = some v ∧ (v ≠ 0 ↔ φ.Holds call)

/-- An accepted rule means its formula exactly if every operator has its left operand. -/
theorem cruleParse_meaning_iff {atoi : List Char → ℤ} {s : List Char} {node : CRuleNode}
    (h : cruleParse atoi s = some node) (hnode : node ≠ .null) :
    Meaningful atoi s node ↔ ∀ ts, Reads true s ts → OperandsInPlace ts := by
  obtain ⟨ts, hreads, hp⟩ : ∃ ts, Reads true s ts ∧ Parses atoi (.chain .orexpr) none ts node := by
    rw [← parseRule_eq_ok]
    unfold cruleParse at h
    rcases hres : parseRule atoi s with ⟨node', next⟩ | ⟨e, l⟩ | _ | _ <;> rw [hres] at h
    · cases h
      exact ⟨next, rfl⟩
    · cases h
      exact absurd rfl hnode
    · cases h
    · cases h
  have hcomplete := hp.complete_iff (p := .op .openparen) (.inr (.inl rfl))
  constructor
  · rintro ⟨hc, -⟩ ts' hreads'
    obtain rfl := hreads'.unique hreads
    exact (hcomplete.mp hc).2
  · intro hplace
    have hc := hcomplete.mpr ⟨nofun, hplace ts hreads⟩
    obtain ⟨φ, hφ, ht⟩ := hp.sentence hc
    refine ⟨hc, ts, φ, hreads, hφ, fun call => ?_⟩
    obtain ⟨v, hv, hiff⟩ := cruleEval_of_complete call hc
    exact ⟨v, hv, hiff.trans ((ht call).trans (Level.joins_none _ call _))⟩

/-- The rule `!directop() && is_tls()` is accepted, so that it means its formula exactly if its
operators have their operands. -/
theorem cruleParse_meaning_iff_example :
    cruleParse (fun _ => 0) "!directop() && is_tls()".toList =
        some (.andor false (.not (.func .directop [] none)) (.func .tls [] none)) ∧
      (Meaningful (fun _ => 0) "!directop() && is_tls()".toList
          (.andor false (.not (.func .directop [] none)) (.func .tls [] none)) ↔
        ∀ ts, Reads true "!directop() && is_tls()".toList ts → OperandsInPlace ts) :=
  ⟨rfl, cruleParse_meaning_iff rfl (by decide)⟩

/-- `|| directop()` is accepted with a tree that lacks an operand, and whose evaluation uses a null
pointer. -/
theorem cruleEval_missingOperand :
    cruleParse (fun _ => 0) missingOperand = some (.andor true .null (.func .directop [] none)) ∧
      ¬ Meaningful (fun _ => 0) missingOperand (.andor true .null (.func .directop [] none)) ∧
      cruleEval (fun _ _ => 1) (.andor true .null (.func .directop [] none)) = none :=
  ⟨rfl, fun h => h.1.1, rfl⟩

/-! ## How many arguments are stored

Arguments are stored as long as commas follow. What the function takes is compared with their number
only behind the closing parenthesis. -/

/-- `crule_parsearglist` leaves its bounds in this way. -/
def Scan.Leaves (st : Scan) (e : Fault) : Prop :=
  ∃ ts next, Steps st ts next ∧ CollectsCut e [] [] ts ∧ next.Faults e

/-- An empty argument is not stored. -/
def storedArg (currarg : List Char) : List (List Char) := if currarg = [] then [] else [currarg]

/-- The arguments that words and commas stand for, from `currarg` on. -/
def arguments (currarg : List Char) : List Lexeme → List (List Char)
  | [] => storedArg currarg
  | .word w :: ts => arguments (joinWord currarg w) ts
  | .op _ :: ts => storedArg currarg ++ arguments [] ts

/-- As far as words and commas go, the text has no more arguments than `arg` holds. -/
def Scan.ArgsFit (st : Scan) : Prop :=
  ∀ ts next, Steps st ts next → (∀ t, .op t ∈ ts → t = .comma) → next.nextTok ≠ .word →
    (arguments [] ts).length ≤ crMaxargs

section

variable {currarg : List Char} {args : List (List Char)} {ts : List Lexeme}
  (hle : args.length ≤ crMaxargs)
include hle

theorem storeArg_eq : storeArg currarg args = if (args ++ storedArg currarg).length ≤ crMaxargs
    then some (args ++ storedArg currarg) else none := by
  unfold storeArg storedArg
  by_cases h : currarg = []
  · simp [h, hle]
  · rw [if_neg h, if_neg h, length_append, length_singleton]
    simp only [Nat.add_one_le_iff]

/-- A write behind `arg` comes from more arguments than it holds. -/
theorem CollectsCut.length_arguments (h : CollectsCut .overrun currarg args ts) :
    (∀ t, .op t ∈ ts → t = .comma) ∧ crMaxargs < (args ++ arguments currarg ts).length := by
  generalize he : Fault.overrun = e at h
  induction h with
  | quote => cases he
  | overrun hstore => simpa [storeArg_eq hle, arguments] using hstore
  | word _ ih => simpa [arguments] using ih hle he
  | comma hstore _ ih =>
    rw [storeArg_eq hle, Option.ite_none_right_eq_some, Option.some.injEq] at hstore
    obtain ⟨hfits, rfl⟩ := hstore
    simpa [arguments] using ih hfits he

/-- The loop gets to a write behind `arg` where there are more arguments. -/
theorem exists_collectsCut {st next : Scan} (hs : Steps st ts next)
    (hops : ∀ t, .op t ∈ ts → t = .comma) (hword : next.nextTok ≠ .word)
    (hlt : crMaxargs < (args ++ arguments currarg ts).length) :
    ∃ us mid, Steps st us mid ∧ CollectsCut .overrun currarg args us ∧ mid.nextTok ≠ .word := by
  induction ts generalizing st currarg args with
  | nil =>
    cases hs
    refine ⟨[], _, .nil, .overrun ?_, hword⟩
    rw [storeArg_eq hle]
    exact if_neg (Nat.not_le.mpr hlt)
  | cons l ts ih =>
    have hops' := fun t ht => hops t (mem_cons_of_mem l ht)
    rcases l with t | w
    · obtain rfl := hops t mem_cons_self
      have hcomma := hs.of_op.1
      cases hs with | cons h hs
      have hstore := @storeArg_eq currarg args hle
      split_ifs at hstore with hfits
      · rw [arguments, ← append_assoc] at hlt
        obtain ⟨us, mid, hs, hcut, hmid⟩ := ih hfits hs hops' hlt
        exact ⟨_, mid, .cons h hs, .comma hstore hcut, hmid⟩
      · exact ⟨[], st, .nil, .overrun hstore, by simp [hcomma]⟩
    · cases hs with | cons h hs
      obtain ⟨us, mid, hs, hcut, hmid⟩ := ih hle hs hops' hlt
      exact ⟨_, mid, .cons h hs, .word hcut, hmid⟩

end

/-- The bounds of `arg` are kept exactly if the text has no more arguments than it holds. -/
theorem cruleParsearglist_inBounds_iff (st : Scan) :
    (cruleParsearglist st = .fault ↔ ∃ e, st.Leaves e) ∧ (¬ st.Leaves .overrun ↔ st.ArgsFit) := by
  have hsize := st.size_lt_fuel
  have hnone : ([] : List (List Char)).length ≤ crMaxargs := Nat.zero_le _
  constructor
  · constructor
    · intro h
      have hd := @parsearglistLoop_described st.fuel [] [] st hsize
      rwa [← cruleParsearglist, h] at hd
    · rintro ⟨e, ts, next, hs, hcut, hf⟩
      exact hcut.runs hsize hs hf
  · constructor
    · intro h ts next hs hops hword
      by_contra hlt
      exact h (exists_collectsCut hnone hs hops hword (Nat.not_le.mp hlt))
    · rintro hfit ⟨ts, next, hs, hcut, hf⟩
      obtain ⟨hops, hlt⟩ := hcut.length_arguments hnone
      exact absurd (hfit ts next hs hops hf) (Nat.not_le.mpr hlt)

/-- A sixth argument is written behind `arg`, though the function takes one. -/
theorem sixth_argument_written :
    parseRule (fun _ => 0) "tag(a,b,c,d,e,f)".toList = .fault ∧
      Scan.Leaves ⟨.word, "a,b,c,d,e,f)".toList, fun _ => rfl⟩ .overrun := by
  refine ⟨rfl, "a,b,c,d,e,f".toList.map fun c => if c = ',' then .op .comma else .word [c],
    ⟨.closeparen, [], by simp⟩, ?_, ?_, fun h => by cases h⟩
  · repeat first
      | refine .cons (.word rfl rfl) ?_
      | refine .cons (.op (by decide) (by decide) rfl) ?_
      | exact .nil
  · repeat first
      | refine .word ?_
      | refine .comma rfl ?_
      | exact .overrun rfl

end ObbyIRCd.Crule
