import Mathlib.Data.List.Chain
import ObbyIRCd.Crule.Model

/-!
# The grammar of rules

The grammar that the head of `crule.c` documents, over the tokens of a text: `Lex` says how a token
is written, `Reads` how a text up to its end is written in tokens, and `Sentence` is the grammar,
together with the boolean formula that a rule stands for.

The parser is laxer than this. What it lets pass is stated beside the documented form: `Lex true`
adds stray halves of operators, `Collects` loose argument lists, and `Parses` operators without a
left operand. `Cut` says in front of what the parser leaves the bounds of the text or of an array.
-/

namespace ObbyIRCd.Crule

inductive Lexeme
  | op (t : CruleToken)
  | word (w : List Char)
deriving DecidableEq, Repr

/-! ## Tokens in a text

The flag `lax` of these relations is false for the documented form. -/

def Blanks (g : List Char) : Prop := ∀ c ∈ g, c = ' ' ∨ c = '\t'

def singles : List (Char × CruleToken) :=
  [('!', .not), ('(', .openparen), (')', .closeparen), ('<', .lessThan), ('>', .moreThan),
    (',', .comma)]

def doubles : List (Char × CruleToken) := [('&', .and), ('|', .or), ('=', .equal)]

/-- What may stand in front of a token: blanks, and, laxly, half an operator among them. -/
inductive Gap (lax : Bool) : List Char → Prop
  | blanks {g : List Char} (hg : Blanks g) : Gap lax g
  | half {b b' : List Char} {c : Char} {t : CruleToken} (hlax : lax = true) (hb : Blanks b)
      (hc : (c, t) ∈ doubles) (hb' : Blanks b') : Gap lax (b ++ c :: b')

/-- How a word is written, and what text remains behind it. Without quotes it is a run of word
characters, and a longer run is more than one word. Inside quotes everything may stand. Laxly a
quoted word may be empty, and it ends without a quote where it is too long. -/
inductive WordAt (lax : Bool) : List Char → List Char → List Char → Prop
  | plain {w r : List Char} (hw : ∀ c ∈ w, isWordChar c = true) (hpos : w ≠ [])
      (hlen : w.length < crMaxarglen)
      (hstop : w.length = crMaxarglen - 1 ∨ ∀ c ∈ r.head?, isWordChar c = false) :
      WordAt lax (w ++ r) w r
  | quoted {w r : List Char} (hw : ∀ c ∈ w, c ≠ '\'') (hlen : w.length < crMaxarglen)
      (hlax : lax = true ∨ w ≠ []) : WordAt lax ('\'' :: (w ++ '\'' :: r)) w r
  | cut {w r : List Char} (hlax : lax = true) (hw : ∀ c ∈ w, c ≠ '\'')
      (hlen : w.length = crMaxarglen - 1) (hr : ∀ c ∈ r.head?, c ≠ '\'') :
      WordAt lax ('\'' :: (w ++ r)) w r

/-- How a token is written, and what text remains behind it. Laxly blanks may part the halves of an
operator. -/
inductive Lex (lax : Bool) : List Char → Lexeme → List Char → Prop
  | single {g r : List Char} {c : Char} {t : CruleToken} (hg : Gap lax g) (hc : (c, t) ∈ singles) :
      Lex lax (g ++ c :: r) (.op t) r
  | double {g b r : List Char} {c : Char} {t : CruleToken} (hg : Blanks g) (hb : Blanks b)
      (hlax : lax = true ∨ b = []) (hc : (c, t) ∈ doubles) :
      Lex lax (g ++ c :: (b ++ c :: r)) (.op t) r
  | word {g s w r : List Char} (hg : Gap lax g) (hw : WordAt lax s w r) :
      Lex lax (g ++ s) (.word w) r

/-- A text starts with these tokens, and this remains. -/
inductive Scans (lax : Bool) : List Char → List Lexeme → List Char → Prop
  | nil {s : List Char} : Scans lax s [] s
  | cons {s r s' : List Char} {l : Lexeme} {ls : List Lexeme} (hl : Lex lax s l r)
      (hls : Scans lax r ls s') : Scans lax s (l :: ls) s'

/-- `END`: the end of the text, or a colon. -/
inductive AtEnd (lax : Bool) : List Char → Prop
  | eot {g : List Char} (hg : Gap lax g) : AtEnd lax g
  | colon {g r : List Char} (hg : Gap lax g) : AtEnd lax (g ++ ':' :: r)

/-- The tokens of a text up to its first `END`. -/
def Reads (lax : Bool) (s : List Char) (ts : List Lexeme) : Prop :=
  ∃ r, Scans lax s ts r ∧ AtEnd lax r

/-! ## The documented grammar -/

/-- The arguments between the parentheses of a function: none, or an `arglist` of words. -/
inductive Arglist : List Lexeme → List (List Char) → Prop
  | none : Arglist [] []
  | one {w : List Char} : Arglist [.word w] [w]
  | more {w : List Char} {ts : List Lexeme} {ws : List (List Char)} (hws : ws ≠ [])
      (h : Arglist ts ws) : Arglist (.word w :: .op .comma :: ts) (w :: ws)

/-- A function call: the function, its arguments, and the comparison applied to its result. -/
structure Atom where
  funcptr : CruleFunc
  args : List (List Char)
  test : Option (FuncTest × ℤ)
deriving DecidableEq, Repr

def FuncTest.token : FuncTest → CruleToken
  | .equal => .equal
  | .lessThan => .lessThan
  | .moreThan => .moreThan

/-- The function that a name stands for, letters in either case. -/
def Known (funcname : List Char) (func : CruleFunclistent) : Prop :=
  func ∈ cruleFunclist ∧ lower funcname = lower func.name.toList

/-- A call of a known function with the required number of arguments, with or without a comparison.
`arglist` says how arguments are written. -/
inductive Function (atoi : List Char → ℤ)
    (arglist : List Lexeme → List (List Char) → Prop) : List Lexeme → Atom → Prop
  | call {f : List Char} {func : CruleFunclistent} {ts : List Lexeme} {args : List (List Char)}
      (hf : Known f func) (hargs : arglist ts args) (hnum : func.Takes args.length) :
      Function atoi arglist (.word f :: .op .openparen :: (ts ++ [.op .closeparen]))
        ⟨func.funcptr, args, none⟩
  | compare {f : List Char} {func : CruleFunclistent} {ts : List Lexeme} {args : List (List Char)}
      (test : FuncTest) (value : List Char)
      (hf : Known f func) (hargs : arglist ts args) (hnum : func.Takes args.length) :
      Function atoi arglist
        (.word f :: .op .openparen :: (ts ++ [.op .closeparen, .op test.token, .word value]))
        ⟨func.funcptr, args, some (test, atoi value)⟩

/-- The boolean formula of a rule. -/
inductive Formula
  | atom (a : Atom)
  | not (φ : Formula)
  | and (φ ψ : Formula)
  | or (φ ψ : Formula)
deriving DecidableEq, Repr

/-- The result of a call is true if it is not zero, or passes its comparison. -/
def Atom.Holds (call : CruleFunc → List (List Char) → ℤ) (a : Atom) : Prop :=
  match a.test with
  | none => call a.funcptr a.args ≠ 0
  | some (test, value) => test.passes (call a.funcptr a.args) value

/-- The truth of a formula, given the results of the calls. -/
def Formula.Holds (call : CruleFunc → List (List Char) → ℤ) : Formula → Prop
  | .atom a => a.Holds call
  | .not φ => ¬ φ.Holds call
  | .and φ ψ => φ.Holds call ∧ ψ.Holds call
  | .or φ ψ => φ.Holds call ∨ ψ.Holds call

inductive Level
  | primary
  | chain (c : Chain)
deriving DecidableEq, Repr

def Chain.operand : Chain → Level
  | .andexpr => .primary
  | .orexpr => .chain .andexpr

def Chain.formula : Chain → Formula → Formula → Formula
  | .andexpr => .and
  | .orexpr => .or

/-- The documented grammar, `function` given. A chain is an operand, or an operand, the operator and
a chain. -/
inductive Sentence (function : List Lexeme → Atom → Prop) : Level → List Lexeme → Formula → Prop
  | function {ts : List Lexeme} {a : Atom} (h : function ts a) :
      Sentence function .primary ts (.atom a)
  | not {ts : List Lexeme} {φ : Formula} (h : Sentence function .primary ts φ) :
      Sentence function .primary (.op .not :: ts) (.not φ)
  | paren {ts : List Lexeme} {φ : Formula} (h : Sentence function (.chain .orexpr) ts φ) :
      Sentence function .primary (.op .openparen :: (ts ++ [.op .closeparen])) φ
  | operand {c : Chain} {ts : List Lexeme} {φ : Formula} (h : Sentence function c.operand ts φ) :
      Sentence function (.chain c) ts φ
  | chain {c : Chain} {ts us : List Lexeme} {φ ψ : Formula}
      (h : Sentence function c.operand ts φ) (h' : Sentence function (.chain c) us ψ) :
      Sentence function (.chain c) (ts ++ .op c.op :: us) (c.formula φ ψ)

/-- A text is a rule of the documented grammar: `orexpr END`. -/
def Derives (atoi : List Char → ℤ) (s : List Char) : Prop :=
  ∃ ts φ, Reads false s ts ∧ Sentence (Function atoi Arglist) (.chain .orexpr) ts φ

/-! ## What the parser follows -/

/-- How the loop of `crule_parsearglist` collects arguments, from `currarg` and the arguments before
it on: words in a row make one argument, and an empty one is left out. -/
inductive Collects : List Char → List (List Char) → List Lexeme → List (List Char) → Prop
  | close {currarg : List Char} {args args' : List (List Char)}
      (h : storeArg currarg args = some args') : Collects currarg args [] args'
  | word {currarg w : List Char} {args args' : List (List Char)} {ts : List Lexeme}
      (h : Collects (joinWord currarg w) args ts args') :
      Collects currarg args (.word w :: ts) args'
  | comma {currarg : List Char} {args args' args'' : List (List Char)} {ts : List Lexeme}
      (h : storeArg currarg args = some args') (h' : Collects [] args' ts args'') :
      Collects currarg args (.op .comma :: ts) args''

def Atom.node (a : Atom) : CRuleNode := .func a.funcptr a.args a.test

/-- What the parser accepts at a level, and the tree it makes. `root` is the `arg[0]` of the chain's
last operator, where there is one. -/
inductive Parses (atoi : List Char → ℤ) :
    Level → Option CRuleNode → List Lexeme → CRuleNode → Prop
  | function {ts : List Lexeme} {a : Atom} (h : Function atoi (Collects [] []) ts a) :
      Parses atoi .primary none ts a.node
  | not {ts : List Lexeme} {arg0 : CRuleNode} (h : Parses atoi .primary none ts arg0) :
      Parses atoi .primary none (.op .not :: ts) (.not arg0)
  | paren {ts : List Lexeme} {node : CRuleNode} (h : Parses atoi (.chain .orexpr) none ts node) :
      Parses atoi .primary none (.op .openparen :: (ts ++ [.op .closeparen])) node
  | operand {c : Chain} {root : Option CRuleNode} {ts : List Lexeme} {node : CRuleNode}
      (h : Parses atoi c.operand none ts node) :
      Parses atoi (.chain c) root ts (c.patch root node)
  | chain {c : Chain} {root : Option CRuleNode} {ts us : List Lexeme} {node node' : CRuleNode}
      (h : Parses atoi c.operand none ts node)
      (h' : Parses atoi (.chain c) (some (c.patch root node)) us node') :
      Parses atoi (.chain c) root (ts ++ .op c.op :: us) node'
  /-- The operator has no left operand. -/
  | missing {c : Chain} {root : Option CRuleNode} {us : List Lexeme} {node' : CRuleNode}
      (h' : Parses atoi (.chain c) (some (c.patch root .null)) us node') :
      Parses atoi (.chain c) root (.op c.op :: us) node'

/-- How the parser leaves its bounds: by a word whose quote is not closed, or by an argument more
than `arg` holds. -/
inductive Fault
  | quote
  | overrun
deriving DecidableEq, Repr

/-- The tokens of an argument list up to a fault. -/
inductive CollectsCut : Fault → List Char → List (List Char) → List Lexeme → Prop
  | quote {currarg : List Char} {args : List (List Char)} : CollectsCut .quote currarg args []
  | overrun {currarg : List Char} {args : List (List Char)} (h : storeArg currarg args = none) :
      CollectsCut .overrun currarg args []
  | word {e : Fault} {currarg w : List Char} {args : List (List Char)} {ts : List Lexeme}
      (h : CollectsCut e (joinWord currarg w) args ts) : CollectsCut e currarg args (.word w :: ts)
  | comma {e : Fault} {currarg : List Char} {args args' : List (List Char)} {ts : List Lexeme}
      (h : storeArg currarg args = some args') (h' : CollectsCut e [] args' ts) :
      CollectsCut e currarg args (.op .comma :: ts)

/-- The tokens that the parser reads at a level before a fault. -/
inductive Cut (atoi : List Char → ℤ) : Level → Fault → List Lexeme → Prop
  | name : Cut atoi .primary .quote []
  | args {e : Fault} {f : List Char} {func : CruleFunclistent} {ts : List Lexeme}
      (hf : Known f func) (h : CollectsCut e [] [] ts) :
      Cut atoi .primary e (.word f :: .op .openparen :: ts)
  | value {f : List Char} {func : CruleFunclistent} {ts : List Lexeme} {args : List (List Char)}
      (test : FuncTest) (hf : Known f func) (hargs : Collects [] [] ts args)
      (hnum : func.Takes args.length) :
      Cut atoi .primary .quote
        (.word f :: .op .openparen :: (ts ++ [.op .closeparen, .op test.token]))
  | not {e : Fault} {ts : List Lexeme} (h : Cut atoi .primary e ts) :
      Cut atoi .primary e (.op .not :: ts)
  | paren {e : Fault} {ts : List Lexeme} (h : Cut atoi (.chain .orexpr) e ts) :
      Cut atoi .primary e (.op .openparen :: ts)
  | operand {e : Fault} {c : Chain} {ts : List Lexeme} (h : Cut atoi c.operand e ts) :
      Cut atoi (.chain c) e ts
  | chain {e : Fault} {c : Chain} {ts us : List Lexeme} {node : CRuleNode}
      (h : Parses atoi c.operand none ts node) (h' : Cut atoi (.chain c) e us) :
      Cut atoi (.chain c) e (ts ++ .op c.op :: us)
  | missing {e : Fault} {c : Chain} {us : List Lexeme} (h' : Cut atoi (.chain c) e us) :
      Cut atoi (.chain c) e (.op c.op :: us)

/-- The text goes on with a quote that is not closed before the text ends, and too close to the end
for the length of a word to save it. -/
def OpenQuote (s : List Char) : Prop :=
  ∃ g q, Gap true g ∧ s = g ++ '\'' :: q ∧ (∀ c ∈ q, c ≠ '\'') ∧ q.length < crMaxarglen - 1

/-- The text goes on with something that ends an argument: another token than a word, or the end. -/
def EndsArgument (s : List Char) : Prop :=
  AtEnd true s ∨ ∃ t r, Lex true s (.op t) r

/-- The parser leaves the bounds of the text or of `arg` on this text. -/
def RunsOff (atoi : List Char → ℤ) (s : List Char) : Prop :=
  ∃ ts r, Scans true s ts r ∧ (Cut atoi (.chain .orexpr) .quote ts ∧ OpenQuote r ∨
    Cut atoi (.chain .orexpr) .overrun ts ∧ EndsArgument r)

/-! ## Tokens in their place -/

/-- An operator follows an operand: it is neither at the beginning, nor behind a parenthesis or
another operator. The beginning of a rule counts as an opening parenthesis. -/
def OperandBefore (a b : Lexeme) : Prop :=
  b = .op .and ∨ b = .op .or → a ≠ .op .openparen ∧ a ≠ .op .and ∧ a ≠ .op .or

instance (a b : Lexeme) : Decidable (OperandBefore a b) := by
  unfold OperandBefore; infer_instance

def OperandsInPlace (ts : List Lexeme) : Prop :=
  (.op .openparen :: ts).IsChain OperandBefore

instance (ts : List Lexeme) : Decidable (OperandsInPlace ts) :=
  inferInstanceAs (Decidable (List.IsChain _ _))

/-- Arguments are single words: no word follows another, and no comma stands beside a parenthesis or
another comma. -/
def ArgumentBefore (a b : Lexeme) : Prop :=
  (∀ v w, a = .word v → b ≠ .word w) ∧
    (b = .op .comma → a ≠ .op .openparen ∧ a ≠ .op .comma) ∧ (a = .op .comma → b ≠ .op .closeparen)

def ArgumentsInPlace (ts : List Lexeme) : Prop := ts.IsChain ArgumentBefore

end ObbyIRCd.Crule
