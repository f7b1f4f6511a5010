import ObbyIRCd.Crule.Parser

/-!
# What a tree means

The parser builds chains to the left and the grammar to the right; `Parses.sentence` relates the
two. If no operand of a tree is missing, its tokens derive from the documented expressions, and the
tree is true exactly when the formula is. `Parses.complete_iff` says when that is so: an operand is
missing exactly where an operator stands at the beginning, behind an opening parenthesis or behind
another operator. Then `cruleEval` meets no null pointer and computes the truth of the tree
(`cruleEval_of_complete`).
-/

namespace ObbyIRCd.Crule

open List CRuleNode Chain

def CRuleNode.Complete : CRuleNode → Prop
  | .null => False
  | .andor _ arg0 arg1 => arg0.Complete ∧ arg1.Complete
  | .not arg0 => arg0.Complete
  | .func _ _ _ => True

/-- The truth of a tree, given the results of the calls. -/
def CRuleNode.Holds (call : CruleFunc → List (List Char) → ℤ) : CRuleNode → Prop
  | .null => False
  | .andor true arg0 arg1 => arg0.Holds call ∨ arg1.Holds call
  | .andor false arg0 arg1 => arg0.Holds call ∧ arg1.Holds call
  | .not arg0 => ¬ arg0.Holds call
  | .func funcptr args test => Atom.Holds call ⟨funcptr, args, test⟩

theorem ofTruth_ne_zero (p : Prop) [Decidable p] : ofTruth p ≠ 0 ↔ p := by
  unfold ofTruth
  split <;> simp_all

/-- `_crule_eval` of a complete tree returns its truth. -/
theorem cruleEval_of_complete (call : CruleFunc → List (List Char) → ℤ) {node : CRuleNode}
    (h : node.Complete) : ∃ v, cruleEval call node = some v ∧ (v ≠ 0 ↔ node.Holds call) := by
  induction node with
  | null => exact h.elim
  | andor isOr arg0 arg1 ih0 ih1 =>
    obtain ⟨v0, h0, ht0⟩ := ih0 h.1
    obtain ⟨v1, h1, ht1⟩ := ih1 h.2
    simp only [cruleEval, h0, h1, Option.bind_some, Option.map_some]
    rcases isOr with _ | _
    · by_cases hv : v0 = 0
      · refine ⟨0, by simp [hv], ?_⟩
        simp [Holds, ← ht0, hv]
      · refine ⟨ofTruth (v1 ≠ 0), by simp [hv], ?_⟩
        rw [ofTruth_ne_zero]
        simp [Holds, ← ht0, ← ht1, hv]
    · by_cases hv : v0 = 0
      · refine ⟨ofTruth (v1 ≠ 0), by simp [hv], ?_⟩
        rw [ofTruth_ne_zero]
        simp [Holds, ← ht0, ← ht1, hv]
      · refine ⟨1, by simp [hv], ?_⟩
        simp [Holds, ← ht0, hv]
  | not arg0 ih =>
    obtain ⟨v, hv, ht⟩ := ih h
    refine ⟨ofTruth (v = 0), by simp [cruleEval, hv], ?_⟩
    rw [ofTruth_ne_zero]
    simp only [Holds, ← ht, not_not]
  | func funcptr args test =>
    rcases test with _ | ⟨test, value⟩
    · exact ⟨call funcptr args, rfl, .rfl⟩
    · exact ⟨_, rfl, ofTruth_ne_zero _⟩

section

variable {atoi : List Char → ℤ} {lvl : Level} {root : Option CRuleNode} {ts : List Lexeme}
  {node : CRuleNode}

/-! ## Missing operands -/

/-- The tree in front of a chain's operator is complete. -/
def RootComplete (root : Option CRuleNode) : Prop := ∀ node ∈ root, node.Complete

variable (c : Chain)

theorem Chain.complete_patch (root : Option CRuleNode) (operand : CRuleNode) :
    (c.patch root operand).Complete ↔ RootComplete root ∧ operand.Complete := by
  rcases root with _ | arg0 <;> simp [patch, RootComplete, Complete]

theorem Collects.mem {currarg : List Char} {args args' : List (List Char)}
    (h : Collects currarg args ts args') : ∀ l ∈ ts, l = .op .comma ∨ ∃ w, l = .word w := by
  induction h with
  | close => simp
  | word _ ih | comma _ _ ih => simpa using ih

theorem Function.not_mem {a : Atom} (h : Function atoi (Collects [] []) ts a) (c : Chain) :
    .op c.op ∉ ts := by
  have hargs : ∀ {us args}, Collects [] [] us args → .op c.op ∉ us := by
    intro us args hc hmem
    rcases hc.mem _ hmem with h | ⟨w, h⟩
    · cases c <;> cases h
    · cases h
  cases h with
  | call _ hc => cases c <;> simpa [op] using hargs hc
  | compare test _ _ hc => cases c <;> cases test <;> simpa [op, FuncTest.token] using hargs hc

variable {p : Lexeme}

theorem isChain_of_not_mem (hand : .op .and ∉ ts) (hor : .op .or ∉ ts) :
    (p :: ts).IsChain OperandBefore := by
  induction ts generalizing p with
  | nil => simp
  | cons l ts ih =>
    simp only [mem_cons, not_or] at hand hor
    refine isChain_cons_cons.mpr ⟨?_, ih hand.2 hor.2⟩
    rintro (h | h)
    · exact absurd h.symm hand.1
    · exact absurd h.symm hor.1

def EndsOperand (l : Lexeme) : Prop := l = .op .closeparen ∨ ∃ w, l = .word w

/-- An expression ends an operand. -/
def EndsIn (ts : List Lexeme) : Prop := ∃ l ∈ ts.getLast?, EndsOperand l

theorem EndsIn.append (h : EndsIn ts) (us : List Lexeme) : EndsIn (us ++ ts) := by
  obtain ⟨l, hl, he⟩ := h
  exact ⟨l, mem_getLast?_append_of_mem_getLast? hl, he⟩

/-- A call ends an operand, however its arguments are written. -/
theorem Function.getLast {arglist : List Lexeme → List (List Char) → Prop} {a : Atom}
    (h : Function atoi arglist ts a) : EndsIn ts := by
  cases h with
  | call => exact ⟨.op .closeparen, by simp [getLast?_cons], .inl rfl⟩
  | compare test value => exact ⟨.word value, by simp [getLast?_cons], .inr ⟨value, rfl⟩⟩

theorem Parses.getLast (h : Parses atoi lvl root ts node) : EndsIn ts := by
  induction h with
  | function h => exact h.getLast
  | not _ ih | missing _ ih => exact ih.append [_]
  | paren => exact ⟨.op .closeparen, by simp [getLast?_cons], .inl rfl⟩
  | operand _ ih => exact ih
  | chain _ _ _ ih => exact (ih.append [_]).append _

theorem EndsOperand.operandBefore {l : Lexeme} (h : EndsOperand l) (l' : Lexeme) :
    OperandBefore l l' := by
  intro _
  rcases h with rfl | ⟨w, rfl⟩ <;> simp

theorem isChain_append_iff {R : Lexeme → Lexeme → Prop} {l : Lexeme}
    (hR : ∀ e, EndsOperand e → R e l) (hts : EndsIn ts) (p : Lexeme) (us : List Lexeme) :
    (p :: (ts ++ l :: us)).IsChain R ↔ (p :: ts).IsChain R ∧ (l :: us).IsChain R := by
  obtain ⟨e, hlast, he⟩ : EndsIn (p :: ts) := hts.append [p]
  rw [← cons_append, isChain_append, Option.mem_def.mp hlast]
  simp [hR e he]

def BeginsOperand (p : Lexeme) : Prop := p = .op .openparen ∨ p = .op .and ∨ p = .op .or

theorem Chain.beginsOperand : BeginsOperand (.op c.op) := by
  cases c <;> simp [BeginsOperand, op]

theorem BeginsOperand.not_operandBefore (h : BeginsOperand p) (c : Chain) :
    ¬ OperandBefore p (.op c.op) := by
  intro hp
  have hop : (Lexeme.op c.op = .op .and ∨ Lexeme.op c.op = .op .or) := by
    cases c <;> simp [op]
  obtain ⟨h1, h2, h3⟩ := hp hop
  rcases h with h | h | h
  · exact h1 h
  · exact h2 h
  · exact h3 h

theorem Parses.complete_iff (h : Parses atoi lvl root ts node)
    (hp : lvl = .primary ∨ BeginsOperand p) :
    node.Complete ↔ RootComplete root ∧ (p :: ts).IsChain OperandBefore := by
  induction h generalizing p with
  | function h =>
    have hchain := isChain_of_not_mem (p := p) (h.not_mem .andexpr) (h.not_mem .orexpr)
    simp [Atom.node, Complete, RootComplete, hchain]
  | not _ ih =>
    have hnot : OperandBefore p (.op .not) := by simp [OperandBefore]
    rw [Complete, ih (p := .op .not) (.inl rfl)]
    simp [hnot]
  | @paren ts node h ih =>
    have hopen : OperandBefore p (.op .openparen) := by simp [OperandBefore]
    rw [isChain_cons_cons,
      isChain_append_iff (fun e he => he.operandBefore _) h.getLast, ih (.inr (.inl rfl))]
    simp [hopen]
  | @operand c root ts node _ ih =>
    have hp : BeginsOperand p := hp.resolve_left (by simp)
    rw [c.complete_patch, ih (.inr hp)]
    simp [RootComplete]
  | @chain c root ts us node node' h _ ih ih' =>
    have hp : BeginsOperand p := hp.resolve_left (by simp)
    rw [ih' (.inr c.beginsOperand), isChain_append_iff (fun e he => he.operandBefore _) h.getLast]
    simp only [RootComplete, Option.mem_some_iff, forall_eq', c.complete_patch, ih (.inr hp)]
    simp [and_assoc]
  | @missing c root us node' _ ih =>
    have hp : BeginsOperand p := hp.resolve_left (by simp)
    rw [ih (.inr c.beginsOperand), isChain_cons_cons]
    simp only [RootComplete, Option.mem_some_iff, forall_eq', c.complete_patch, Complete,
      and_false, false_and, hp.not_operandBefore c]

/-! ## Trees and formulas -/

def Chain.Joins : Chain → Prop → Prop → Prop
  | .andexpr, p, q => p ∧ q
  | .orexpr, p, q => p ∨ q

theorem Chain.joins_assoc (p q r : Prop) : c.Joins (c.Joins p q) r ↔ c.Joins p (c.Joins q r) := by
  cases c with
  | andexpr => exact and_assoc
  | orexpr => exact or_assoc

variable (call : CruleFunc → List (List Char) → ℤ)

theorem Chain.holds_andor (arg0 arg1 : CRuleNode) :
    (andor c.isOr arg0 arg1).Holds call ↔ c.Joins (arg0.Holds call) (arg1.Holds call) := by
  cases c <;> exact .rfl

theorem Chain.holds_formula (φ ψ : Formula) :
    (c.formula φ ψ).Holds call ↔ c.Joins (φ.Holds call) (ψ.Holds call) := by
  cases c <;> exact .rfl

/-- The truth of what stands behind `root`, together with it. -/
def Level.Joins (lvl : Level) (root : Option CRuleNode)
    (call : CruleFunc → List (List Char) → ℤ) (p : Prop) : Prop :=
  match lvl, root with
  | .chain c, some arg0 => c.Joins (arg0.Holds call) p
  | _, _ => p

theorem Chain.holds_patch (root : Option CRuleNode) (operand : CRuleNode) :
    (c.patch root operand).Holds call ↔ Level.Joins (.chain c) root call (operand.Holds call) := by
  rcases root with _ | arg0
  · exact .rfl
  · exact c.holds_andor call arg0 operand

/-- At a place without a chain's operator in front, an expression is its own truth. -/
@[simp]
theorem Level.joins_none (lvl : Level) (call : CruleFunc → List (List Char) → ℤ) (p : Prop) :
    lvl.Joins none call p ↔ p := by
  cases lvl <;> exact .rfl

/-- The tokens of a complete tree derive from the grammar, and the tree is true exactly when the
formula is. -/
theorem Parses.sentence (h : Parses atoi lvl root ts node) (hc : node.Complete) :
    ∃ φ, Sentence (Function atoi (Collects [] [])) lvl ts φ ∧
      ∀ call, node.Holds call ↔ lvl.Joins root call (φ.Holds call) := by
  induction h with
  | function h => exact ⟨_, .function h, fun _ => .rfl⟩
  | not _ ih =>
    obtain ⟨φ, hφ, ht⟩ := ih hc
    exact ⟨.not φ, .not hφ, fun call => not_congr (ht call)⟩
  | paren _ ih =>
    obtain ⟨φ, hφ, ht⟩ := ih hc
    exact ⟨φ, .paren hφ, ht⟩
  | @operand c root ts node _ ih =>
    obtain ⟨φ, hφ, ht⟩ := ih ((c.complete_patch root node).mp hc).2
    refine ⟨φ, .operand hφ, fun call => ?_⟩
    rw [c.holds_patch]
    rcases root with _ | arg0
    · simpa using ht call
    · have := (ht call).trans (Level.joins_none _ call _)
      rw [this]
  | @chain c root ts us node node' h h' ih ih' =>
    have hpatch := ((h'.complete_iff (.inr c.beginsOperand)).mp hc).1 _ rfl
    obtain ⟨φ, hφ, ht⟩ := ih ((c.complete_patch root node).mp hpatch).2
    obtain ⟨ψ, hψ, ht'⟩ := ih' hc
    refine ⟨c.formula φ ψ, .chain hφ hψ, fun call => ?_⟩
    -- The tree joins from the left, the formula from the right.
    rw [ht' call]
    simp only [Level.Joins]
    have hnode := (ht call).trans (Level.joins_none _ call _)
    rcases root with _ | arg0
    · rw [c.holds_formula]
      simp only [patch, hnode]
    · rw [c.holds_formula]
      simp only [patch, c.holds_andor, hnode, c.joins_assoc]
  | @missing c root us node' h' ih =>
    have hpatch := ((h'.complete_iff (.inr c.beginsOperand)).mp hc).1 _ rfl
    exact ((c.complete_patch root .null).mp hpatch).2.elim

theorem Sentence.parses {φ : Formula} (h : Sentence (Function atoi (Collects [] [])) lvl ts φ)
    (root : Option CRuleNode) (hroot : lvl = .primary → root = none) :
    ∃ node, Parses atoi lvl root ts node ∧ (RootComplete root → node.Complete) := by
  induction h generalizing root with
  | function h =>
    obtain rfl := hroot rfl
    exact ⟨_, .function h, fun _ => trivial⟩
  | not _ ih =>
    obtain rfl := hroot rfl
    obtain ⟨node, hp, hcomplete⟩ := ih none fun _ => rfl
    exact ⟨.not node, .not hp, hcomplete⟩
  | paren _ ih =>
    obtain rfl := hroot rfl
    obtain ⟨node, hp, hcomplete⟩ := ih none nofun
    exact ⟨node, .paren hp, hcomplete⟩
  | @operand c ts φ _ ih =>
    obtain ⟨node, hp, hcomplete⟩ := ih none fun _ => rfl
    refine ⟨c.patch root node, .operand hp, fun h => ?_⟩
    exact (c.complete_patch root node).mpr ⟨h, hcomplete (by simp [RootComplete])⟩
  | @chain c ts us φ ψ _ _ ih ih' =>
    obtain ⟨node, hp, hcomplete⟩ := ih none fun _ => rfl
    obtain ⟨node', hp', hcomplete'⟩ := ih' (some (c.patch root node)) nofun
    refine ⟨node', .chain hp hp', fun h => hcomplete' ?_⟩
    rintro _ ⟨⟩
    exact (c.complete_patch root node).mpr ⟨h, hcomplete (by simp [RootComplete])⟩

end

end ObbyIRCd.Crule
