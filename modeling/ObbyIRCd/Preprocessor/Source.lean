import ObbyIRCd.Preprocessor.Model

/-!
# Nested configurations

A configuration file as its author sees it (`Source`): entries, sections, and `@if` blocks that
enclose some of them. The parser marks every entry with the conditions that enclose it
(`Source.annotate`), and a phase deletes the entries with a condition that is false in it
(`Entries.keep`), unless it stops at a variable without a value.

The parser is followed through the text of a source with anything after it: the conditions of the
levels outside stay on the list and are not touched (`parseTokens_tokens`).
-/

namespace ObbyIRCd.Preprocessor

open Entries

/-! ## Conditions -/

/-- What the server finds a condition to be, in a phase that decides it. A variable that is defined as
the empty text has that value. -/
def Condition.found (host : Host) (facts : Facts) (modules : List Module) : Condition → Bool
  | moduleLoaded name => isModuleLoaded modules name
  | moduleVersion name opt =>
    match findTestingModule modules name with
    | some ⟨_, some version⟩ => compareOpt host version opt
    | _ => false
  | moduleExists name => host.moduleExists name
  | minimumVersion name => host.strnatcasecmp host.versionOnly name != .lt
  | fileExists name => host.fileExists name
  | defined name => (facts.findConfigDefine name).isSome
  | environment name opt =>
    match host.getenv name with
    | some env => compareOpt host env opt
    | none => false
  | value name op opt =>
    match facts.findConfigDefine name with
    | some v => op.eval (host.strnatcasecmp (v.getD []) opt)
    | none => false

/-- What a phase takes a condition for: the first two take conditions on modules for true, unless the
module is on the blacklist. -/
def Condition.holdsIn (host : Host) (facts : Facts) : Phase → Condition → Bool
  | .initial, moduleLoaded _ => true
  | .secondary, moduleLoaded name => !isBlacklistedModule host facts name
  | .initial, moduleVersion _ _ => true
  | .secondary, moduleVersion _ _ => true
  | .module modules, c => c.found host facts modules
  | _, c => c.found host facts []

/-- A condition that can be evaluated: it does not compare a variable without a value. -/
def Condition.comparable (facts : Facts) : Condition → Bool
  | value name _ _ => facts.findConfigDefine name != some none
  | _ => true

/-- A condition as it is on a list: turned round by a `!` or an `@else`. -/
def ConditionalConfig.holdsIn (host : Host) (facts : Facts) (phase : Phase)
    (cc : ConditionalConfig) : Bool := cc.condition.holdsIn host facts phase != cc.negative

def evaluable (host : Host) (facts : Facts) (phase : Phase) : List ConditionalConfig → Bool
  | [] => true
  | cc :: ccs =>
    cc.condition.comparable facts &&
      (!cc.holdsIn host facts phase || evaluable host facts phase ccs)

def allHold (host : Host) (facts : Facts) (phase : Phase) (ccs : List ConditionalConfig) : Bool :=
  ccs.all (·.holdsIn host facts phase)

theorem resolveCondition_eq (host : Host) (facts : Facts) (phase : Phase) (c : Condition) :
    resolveCondition host facts phase c =
      if c.comparable facts then some (c.holdsIn host facts phase) else none := by
  cases c with
  | moduleVersion name opt =>
    cases phase with
    | initial | secondary => rfl
    | module modules =>
      simp only [resolveCondition, Condition.comparable, Condition.holdsIn, Condition.found, if_true]
      rcases findTestingModule modules name with _ | ⟨relpath, _ | version⟩ <;> rfl
  | environment name opt =>
    unfold resolveCondition
    cases phase <;> simp only [Condition.holdsIn, Condition.found] <;> cases host.getenv name <;> rfl
  | value name op opt =>
    have h : (Condition.value name op opt).holdsIn host facts phase =
        (Condition.value name op opt).found host facts [] := by cases phase <;> rfl
    simp only [h, resolveCondition, Condition.comparable, Condition.found]
    cases hfind : facts.findConfigDefine name with
    | none => rfl
    | some v => cases v <;> rfl
  | _ => cases phase <;> rfl

theorem resolveIf_eq (host : Host) (facts : Facts) (phase : Phase) (ccs : List ConditionalConfig) :
    resolveIf host facts phase ccs =
      if evaluable host facts phase ccs then some (allHold host facts phase ccs) else none := by
  induction ccs with
  | nil => rfl
  | cons cc ccs ih =>
    have hneg : (if cc.negative then !cc.condition.holdsIn host facts phase
        else cc.condition.holdsIn host facts phase) = cc.holdsIn host facts phase := by
      unfold ConditionalConfig.holdsIn
      cases cc.negative <;> cases cc.condition.holdsIn host facts phase <;> rfl
    unfold resolveIf
    rw [resolveCondition_eq]
    cases hcmp : cc.condition.comparable facts with
    | false => simp [evaluable, hcmp]
    | true =>
      simp only [if_true, hneg, evaluable, hcmp, Bool.true_and, allHold, List.all_cons]
      cases hcc : cc.holdsIn host facts phase with
      | false => rfl
      | true =>
        simp only [if_true, ih, Bool.not_true, Bool.false_or, Bool.true_and]
        rfl

/-! ## Entries -/

namespace Entries

/-- The entries whose conditions are taken for true, in sections that are kept. -/
def keep (p : List ConditionalConfig → Bool) : Entries → Entries
  | nil => nil
  | cons h cc items next => if p cc then cons h cc (items.keep p) (next.keep p) else next.keep p

/-- Every entry that is not in a deleted section is as required. -/
def visits (p q : List ConditionalConfig → Bool) : Entries → Bool
  | nil => true
  | cons _ cc items next => q cc && (!p cc || items.visits p q) && next.visits p q

theorem append_nil (es : Entries) : es.append nil = es := by
  induction es with
  | nil => rfl
  | cons h cc items next _ ih => rw [append, ih]

theorem append_assoc (a b c : Entries) : (a.append b).append c = a.append (b.append c) := by
  induction a with
  | nil => rfl
  | cons h cc items next _ ih => rw [append, append, append, ih]

theorem keep_append (p : List ConditionalConfig → Bool) (a b : Entries) :
    (a.append b).keep p = (a.keep p).append (b.keep p) := by
  induction a with
  | nil => rfl
  | cons h cc items next _ ih =>
    simp only [append, keep]
    split
    · rw [ih]
      rfl
    · exact ih

theorem keep_keep (p q : List ConditionalConfig → Bool) (es : Entries) :
    (es.keep p).keep q = es.keep fun cc => p cc && q cc := by
  induction es with
  | nil => rfl
  | cons h cc items next ihi ihn =>
    cases hp : p cc with
    | false => simp [keep, hp, ihn]
    | true => cases hq : q cc <;> simp [keep, hp, hq, ihi, ihn]

end Entries

/-- A phase keeps the entries that it takes for true, if it can evaluate all that it comes to. -/
theorem resolveConditionalsCe_eq (host : Host) (facts : Facts) (phase : Phase) (es : Entries) :
    resolveConditionalsCe host facts phase es =
      if es.visits (allHold host facts phase) (evaluable host facts phase) then
        some (es.keep (allHold host facts phase)) else none := by
  induction es with
  | nil => rfl
  | cons h cc items next ihi ihn =>
    unfold resolveConditionalsCe
    rw [resolveIf_eq, ihi, ihn]
    simp only [visits, keep]
    by_cases he : evaluable host facts phase cc = true
    · by_cases ha : allHold host facts phase cc = true
      · by_cases hi : items.visits (allHold host facts phase) (evaluable host facts phase) = true
        · by_cases hn : next.visits (allHold host facts phase) (evaluable host facts phase) = true <;>
            simp [he, ha, hi, hn]
        · simp [he, ha, hi]
      · simp [he, ha]
    · simp [he]

/-! ## Sources -/

/-- A configuration file with its blocks. -/
inductive Source where
  | nil
  | directive (head : Head) (next : Source)
  | block (head : Head) (items next : Source)
  /-- `@if` to `@endif`. -/
  | ifEndif (condition : Condition) (negative : Bool) (then_ next : Source)
  /-- `@if` to `@else` and to `@endif`. -/
  | ifElse (condition : Condition) (negative : Bool) (then_ else_ next : Source)
  /-- `@define`. -/
  | define (name value : List Char) (next : Source)
deriving DecidableEq

namespace Source

def tokens : Source → List Token
  | nil => []
  | directive h next => .begin h :: .semicolon :: next.tokens
  | block h items next => .begin h :: .openBrace :: (items.tokens ++ .closeBrace :: next.tokens)
  | ifEndif c neg a next => .ifLine c neg :: (a.tokens ++ .endifLine :: next.tokens)
  | ifElse c neg a b next =>
    .ifLine c neg :: (a.tokens ++ .elseLine :: (b.tokens ++ .endifLine :: next.tokens))
  | define name value next => .defineLine name value :: next.tokens

/-- The conditions inside of an `@if`, or with the other sign inside of its `@else`. -/
def push (level : ℕ) (c : Condition) (neg hadElse : Bool) (ccs : List ConditionalConfig) :
    List ConditionalConfig := ⟨c, neg, level + 1, hadElse⟩ :: ccs

def annotate (level : ℕ) (ccs : List ConditionalConfig) : Source → Entries
  | nil => .nil
  | directive h next => .cons h ccs.reverse .nil (next.annotate level ccs)
  | block h items next => .cons h ccs.reverse (items.annotate level ccs) (next.annotate level ccs)
  | ifEndif c neg a next =>
    (a.annotate (level + 1) (push level c neg false ccs)).append (next.annotate level ccs)
  | ifElse c neg a b next =>
    (a.annotate (level + 1) (push level c neg false ccs)).append
      ((b.annotate (level + 1) (push level c (!neg) true ccs)).append (next.annotate level ccs))
  | define _ _ next => next.annotate level ccs

/-- The definitions after a source: those inside of an `@if` that the first phase takes for false are
left out. -/
def factsAfter (host : Host) (level : ℕ) (ccs : List ConditionalConfig) (facts : Facts) :
    Source → Facts
  | nil => facts
  | directive _ next => next.factsAfter host level ccs facts
  | block _ items next => next.factsAfter host level ccs (items.factsAfter host level ccs facts)
  | ifEndif c neg a next =>
    next.factsAfter host level ccs (a.factsAfter host (level + 1) (push level c neg false ccs) facts)
  | ifElse c neg a b next =>
    next.factsAfter host level ccs (b.factsAfter host (level + 1) (push level c (!neg) true ccs)
      (a.factsAfter host (level + 1) (push level c neg false ccs) facts))
  | define name value next =>
    next.factsAfter host level ccs
      (if allHold host facts .initial ccs then facts.define name value else facts)

def directivesEvaluable (host : Host) (level : ℕ) (ccs : List ConditionalConfig) (facts : Facts) :
    Source → Bool
  | nil => true
  | directive _ next => next.directivesEvaluable host level ccs facts
  | block _ items next =>
    items.directivesEvaluable host level ccs facts &&
      next.directivesEvaluable host level ccs (items.factsAfter host level ccs facts)
  | ifEndif c neg a next =>
    let inner := push level c neg false ccs
    let facts' := a.factsAfter host (level + 1) inner facts
    evaluable host facts .initial ccs && a.directivesEvaluable host (level + 1) inner facts &&
      evaluable host facts' .initial inner && next.directivesEvaluable host level ccs facts'
  | ifElse c neg a b next =>
    let inner := push level c neg false ccs
    let inner' := push level c (!neg) true ccs
    let facts' := a.factsAfter host (level + 1) inner facts
    let facts'' := b.factsAfter host (level + 1) inner' facts'
    evaluable host facts .initial ccs && a.directivesEvaluable host (level + 1) inner facts &&
      evaluable host facts' .initial inner && b.directivesEvaluable host (level + 1) inner' facts' &&
      evaluable host facts'' .initial inner' && next.directivesEvaluable host level ccs facts''
  | define name value next =>
    evaluable host facts .initial ccs && next.directivesEvaluable host level ccs
      (if allHold host facts .initial ccs then facts.define name value else facts)

end Source

/-- A directive is executed if the conditions around it hold in the first phase. -/
theorem executes_eq (host : Host) (p : Parser) :
    executes host p = if evaluable host p.facts .initial p.ccList then
      .ok (allHold host p.facts .initial p.ccList) else .error .crash := by
  unfold executes
  rw [resolveIf_eq]
  by_cases hnil : p.ccList = []
  · rw [hnil]
    rfl
  · rw [if_neg hnil]
    cases evaluable host p.facts .initial p.ccList <;> rfl

theorem parseTokens_cons (host : Host) (p : Parser) (t : Token) (ts : List Token) :
    parseTokens host p (t :: ts) = (parseToken host p t).bind (parseTokens host · ts) := by
  rw [parseTokens]
  cases parseToken host p t <;> rfl

theorem parseTokens_append (host : Host) (p : Parser) (a b : List Token) :
    parseTokens host p (a ++ b) = (parseTokens host p a).bind (parseTokens host · b) := by
  induction a generalizing p with
  | nil => rfl
  | cons t a ih =>
    rw [List.cons_append, parseTokens_cons, parseTokens_cons]
    cases parseToken host p t with
    | error e => rfl
    | ok p => exact ih p

theorem bind_crash {α β : Type} (b : Bool) (x : α) (f : α → Except Failure β) :
    (if b then .ok x else .error .crash : Except Failure α).bind f =
      if b then f x else .error .crash := by
  cases b <;> rfl

theorem ite_ite_crash {α : Type} (a b : Bool) (x y : α) :
    (if a then if b then x else y else y) = if a && b then x else y := by
  cases a <;> rfl

section Directives

variable (host : Host) (level : ℕ) (ccs : List ConditionalConfig) (facts : Facts) (items : Entries)
  (sections : List ((Head × List ConditionalConfig) × Entries))

/-- An `@if` puts its condition on the list. -/
theorem parseToken_ifLine (c : Condition) (neg : Bool) :
    parseToken host ⟨level, ccs, facts, none, items, sections⟩ (.ifLine c neg) =
      if evaluable host facts .initial ccs then
        .ok ⟨level + 1, Source.push level c neg false ccs, facts, none, items, sections⟩
      else .error .crash := by
  simp only [parseToken, executes_eq]
  cases evaluable host facts .initial ccs <;> rfl

/-- An `@else` turns the condition of its `@if` round. -/
theorem parseToken_elseLine (c : Condition) (neg : Bool) :
    parseToken host ⟨level + 1, Source.push level c neg false ccs, facts, none, items, sections⟩
      .elseLine =
      if evaluable host facts .initial (Source.push level c neg false ccs) then
        .ok ⟨level + 1, Source.push level c (!neg) true ccs, facts, none, items, sections⟩
      else .error .crash := by
  have helse : elseLevel (level + 1) (Source.push level c neg false ccs) =
      some (Source.push level c (!neg) true ccs) := by
    simp [Source.push, elseLevel]
  simp only [parseToken, executes_eq]
  cases evaluable host facts .initial (Source.push level c neg false ccs) with
  | false => rfl
  | true => simp [parsePreprocessorItem, helse]

/-- An `@endif` takes the condition of its `@if` off, and no other. -/
theorem parseToken_endifLine (hccs : ∀ cc ∈ ccs, cc.priority ≤ level) (c : Condition)
    (neg hadElse : Bool) :
    parseToken host ⟨level + 1, Source.push level c neg hadElse ccs, facts, none, items, sections⟩
      .endifLine =
      if evaluable host facts .initial (Source.push level c neg hadElse ccs) then
        .ok ⟨level, ccs, facts, none, items, sections⟩
      else .error .crash := by
  have hfilter : (Source.push level c neg hadElse ccs).filter
      (fun cc => cc.priority < level + 1) = ccs := by
    rw [Source.push, List.filter_cons_of_neg (by simp), List.filter_eq_self]
    intro cc hcc
    simpa using Nat.lt_succ_of_le (hccs cc hcc)
  simp only [parseToken, executes_eq]
  cases evaluable host facts .initial (Source.push level c neg hadElse ccs) with
  | false => rfl
  | true =>
    simp only [parsePreprocessorItem, hfilter]
    rfl

/-- A `@define` is executed unless the first phase takes a condition around it for false. -/
theorem parseToken_defineLine (name value : List Char) :
    parseToken host ⟨level, ccs, facts, none, items, sections⟩ (.defineLine name value) =
      if evaluable host facts .initial ccs then
        .ok ⟨level, ccs, if allHold host facts .initial ccs then facts.define name value else facts,
          none, items, sections⟩
      else .error .crash := by
  simp only [parseToken, executes_eq]
  cases evaluable host facts .initial ccs with
  | false => rfl
  | true => cases allHold host facts .initial ccs <;> rfl

end Directives

/-- The parser goes through the text of a source: it adds the entries of the source, executes its
definitions and leaves the conditions around it as they were. -/
theorem parseTokens_tokens (host : Host) (src : Source) (level : ℕ) (ccs : List ConditionalConfig)
    (facts : Facts) (items : Entries) (sections : List ((Head × List ConditionalConfig) × Entries))
    (hccs : ∀ cc ∈ ccs, cc.priority ≤ level) :
    parseTokens host ⟨level, ccs, facts, none, items, sections⟩ src.tokens =
      if src.directivesEvaluable host level ccs facts then
        .ok ⟨level, ccs, src.factsAfter host level ccs facts, none,
          items.append (src.annotate level ccs), sections⟩
      else .error .crash := by
  -- The conditions of an `@if` inside have the level after, so those outside stay below it.
  have hpush : ∀ {level : ℕ} {ccs : List ConditionalConfig}, (∀ cc ∈ ccs, cc.priority ≤ level) →
      ∀ c neg e, ∀ cc ∈ Source.push level c neg e ccs, cc.priority ≤ level + 1 := by
    intro level ccs h c neg e cc hcc
    rcases List.mem_cons.1 hcc with rfl | hcc
    · exact Nat.le_refl _
    · exact Nat.le_succ_of_le (h cc hcc)
  induction src generalizing level ccs facts items sections with
  | nil =>
    simp only [Source.tokens, parseTokens, Source.directivesEvaluable, Source.factsAfter,
      Source.annotate, append_nil, if_true]
  | directive h next ih =>
    simp only [Source.tokens, parseTokens, parseToken, ih level ccs _ _ _ hccs,
      Source.directivesEvaluable, Source.factsAfter, Source.annotate, append_assoc]
    rfl
  | block h body next ihi ihn =>
    simp only [Source.tokens, parseTokens, parseToken, parseTokens_append, bind_crash,
      ite_ite_crash, ihi level ccs _ _ _ hccs, ihn level ccs _ _ _ hccs, Source.directivesEvaluable,
      Source.factsAfter, Source.annotate, append_assoc]
    rfl
  | ifEndif c neg a next iha ihn =>
    simp only [Source.tokens, parseTokens_cons, parseTokens_append, parseToken_ifLine,
      parseToken_endifLine host level ccs _ _ _ hccs, bind_crash, ite_ite_crash,
      iha _ _ _ _ _ (hpush hccs c neg false), ihn level ccs _ _ _ hccs, Source.directivesEvaluable,
      Source.factsAfter, Source.annotate, append_assoc, Bool.and_assoc]
  | ifElse c neg a b next iha ihb ihn =>
    simp only [Source.tokens, parseTokens_cons, parseTokens_append, parseToken_ifLine,
      parseToken_elseLine, parseToken_endifLine host level ccs _ _ _ hccs, bind_crash, ite_ite_crash,
      iha _ _ _ _ _ (hpush hccs c neg false), ihb _ _ _ _ _ (hpush hccs c (!neg) true),
      ihn level ccs _ _ _ hccs, Source.directivesEvaluable, Source.factsAfter, Source.annotate,
      append_assoc, Bool.and_assoc]
  | define name value next ih =>
    simp only [Source.tokens, parseTokens_cons, parseToken_defineLine, bind_crash, ite_ite_crash,
      ih level ccs _ _ _ hccs, Source.directivesEvaluable, Source.factsAfter, Source.annotate]
    rfl

end ObbyIRCd.Preprocessor
