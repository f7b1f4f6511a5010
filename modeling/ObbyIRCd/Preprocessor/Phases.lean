import ObbyIRCd.Preprocessor.Source

/-!
# Which entries are left

An entry should be in the final configuration if every `@if` around it is true, and every `@if` whose
`@else` it is in is false, with the modules that were loaded in the end. The last phase deletes the
other entries, but for `defined($X)`, which it never finds to be true (`found_eq_holds`); and it can
only delete what the first two phases have left. Those take conditions on modules for true before the
modules are known, and turn that round under a `!` or an `@else`: the entry is then deleted although
its condition may be true in the end. The same happens with a variable that is defined in a file that
is read later.

So the result is right exactly if each entry is found early and in the end to be what it is, and no
comparison comes to a variable without a value (`configTest_correct_iff`).
-/

namespace ObbyIRCd.Preprocessor

open List Entries Source Condition

/-! ## The configuration that is meant -/

/-- The variable that the text in `defined(...)` is about. -/
def variableOf (name : List Char) : List Char := if name.head? = some '$' then name.tail else name

/-- Whether a condition is true. -/
def Condition.holds (host : Host) (facts : Facts) (modules : List Module) : Condition → Bool
  | defined name => (facts.findConfigDefine (variableOf name)).isSome
  | c => c.found host facts modules

/-- The server finds a condition to be what it is, unless the name in `defined(...)` has its `$`. -/
theorem Condition.found_eq_holds (host : Host) (facts : Facts) (modules : List Module) (c : Condition)
    (hc : ∀ name, c = defined name → name.head? ≠ some '$') :
    c.found host facts modules = c.holds host facts modules := by
  cases c with
  | defined name =>
    show (facts.findConfigDefine name).isSome = (facts.findConfigDefine (variableOf name)).isSome
    rw [variableOf, if_neg (hc name rfl)]
  | _ => rfl

/-- The conditions of a list are true. -/
def allTrue (truth : Condition → Bool) (ccs : List ConditionalConfig) : Bool :=
  ccs.all fun cc => truth cc.condition != cc.negative

/-- The entries that are selected, each with the conditions around it. -/
def Source.selected (truth : Condition → Bool) (level : ℕ) (ccs : List ConditionalConfig) :
    Source → Entries
  | nil => .nil
  | directive h next => .cons h ccs.reverse .nil (next.selected truth level ccs)
  | block h items next =>
    .cons h ccs.reverse (items.selected truth level ccs) (next.selected truth level ccs)
  | ifEndif c neg a next =>
    (if truth c != neg then a.selected truth (level + 1) (push level c neg false ccs)
      else .nil).append (next.selected truth level ccs)
  | ifElse c neg a b next =>
    (if truth c != neg then a.selected truth (level + 1) (push level c neg false ccs)
      else b.selected truth (level + 1) (push level c (!neg) true ccs)).append
        (next.selected truth level ccs)
  | define _ _ next => next.selected truth level ccs

theorem allTrue_reverse (truth : Condition → Bool) (ccs : List ConditionalConfig) :
    allTrue truth ccs.reverse = allTrue truth ccs := all_reverse

theorem allTrue_push (truth : Condition → Bool) (level : ℕ) (c : Condition) (neg hadElse : Bool)
    (ccs : List ConditionalConfig) :
    allTrue truth (push level c neg hadElse ccs) = ((truth c != neg) && allTrue truth ccs) := rfl

/-- Keeping the entries whose conditions are true, of a source inside of some conditions: those that
the conditions in the source select, or none. -/
theorem keep_annotate (truth : Condition → Bool) (src : Source) (level : ℕ)
    (ccs : List ConditionalConfig) :
    (src.annotate level ccs).keep (allTrue truth) =
      if allTrue truth ccs then src.selected truth level ccs else .nil := by
  induction src generalizing level ccs with
  | nil => exact (ite_self _).symm
  | directive h next ih =>
    simp only [annotate, keep, allTrue_reverse, selected, ih]
    split_ifs <;> rfl
  | block h items next ihi ihn =>
    simp only [annotate, keep, allTrue_reverse, selected, ihi, ihn]
    split_ifs <;> rfl
  | ifEndif c neg a next iha ihn =>
    simp only [annotate, keep_append, iha, ihn, selected, allTrue_push]
    by_cases hccs : allTrue truth ccs = true
    · simp only [hccs, Bool.and_true, if_true]
    · simp [hccs, append]
  | ifElse c neg a b next iha ihb ihn =>
    simp only [annotate, keep_append, iha, ihb, ihn, selected, allTrue_push]
    by_cases hccs : allTrue truth ccs = true
    · simp only [hccs, Bool.and_true, if_true]
      cases truth c <;> cases neg <;> simp [append]
    · simp [hccs, append]
  | define name value next ih => exact ih level ccs

/-! ## Deleting the wrong entries -/

theorem keep_eq_cons {q : List ConditionalConfig → Bool} {es : Entries} {h : Head}
    {cc : List ConditionalConfig} {items next : Entries} (heq : es.keep q = .cons h cc items next) :
    q cc = true := by
  induction es with
  | nil => cases heq
  | cons h' cc' items' next' _ ihn =>
    rw [keep] at heq
    split_ifs at heq with hq
    · cases heq
      exact hq
    · exact ihn heq

/-- Two ways of deleting leave the same entries exactly if they agree on every entry that is not in a
deleted section. -/
theorem keep_eq_keep_iff (p q : List ConditionalConfig → Bool) (es : Entries) :
    es.keep p = es.keep q ↔ es.visits p (fun cc => p cc == q cc) = true := by
  induction es with
  | nil => exact ⟨fun _ => rfl, fun _ => rfl⟩
  | cons h cc items next ihi ihn =>
    rcases hp : p cc with - | - <;> rcases hq : q cc with - | -
    · simp [keep, visits, hp, hq, ihn]
    · -- the entry is missing on the left, where all entries have other conditions
      refine iff_of_false (fun heq => ?_) (by simp [visits, hp, hq])
      simp only [keep, hp, hq, Bool.false_eq_true, if_false, if_true] at heq
      exact absurd (keep_eq_cons heq) (by rw [hp]; decide)
    · refine iff_of_false (fun heq => ?_) (by simp [visits, hp, hq])
      simp only [keep, hp, hq, Bool.false_eq_true, if_false, if_true] at heq
      exact absurd (keep_eq_cons heq.symm) (by rw [hq]; decide)
    · simp [keep, visits, hp, hq, ihi, ihn]

/-! ## The first two phases -/

variable (host : Host) (facts : Facts)

/-- A condition that the first two phases take for true: not a condition on modules that is turned
round, nor one on a module of the blacklist; and any other condition if it is true when the file has
been read. -/
def ConditionalConfig.trueEarly (cc : ConditionalConfig) : Bool :=
  match cc.condition with
  | .moduleLoaded name => !cc.negative && !isBlacklistedModule host facts name
  | .moduleVersion _ _ => !cc.negative
  | c => c.found host facts [] != cc.negative

def allTrueEarly (ccs : List ConditionalConfig) : Bool :=
  ccs.all (·.trueEarly host facts)

variable (defines : List (List Char × Option (List Char)))

/-- What is true in both phases; the blacklist has more entries in the second. -/
theorem allTrueEarly_eq (bl bl' : List (List Char)) (ccs : List ConditionalConfig) :
    (allHold host ⟨defines, bl⟩ .initial ccs && allHold host ⟨defines, bl'⟩ .secondary ccs) =
      allTrueEarly host ⟨defines, bl'⟩ ccs := by
  have hone : ∀ cc : ConditionalConfig,
      (cc.holdsIn host ⟨defines, bl⟩ .initial && cc.holdsIn host ⟨defines, bl'⟩ .secondary) =
        cc.trueEarly host ⟨defines, bl'⟩ := by
    intro ⟨c, neg, prio, e⟩
    unfold ConditionalConfig.holdsIn ConditionalConfig.trueEarly
    cases c with
    | moduleLoaded name => cases neg <;> simp [holdsIn]
    | moduleVersion name opt => cases neg <;> rfl
    | _ => exact Bool.and_self _
  unfold allHold allTrueEarly
  induction ccs with
  | nil => rfl
  | cons cc ccs ih =>
    rw [all_cons, all_cons, all_cons, ← hone cc, ← ih]
    ac_rfl

variable {ccs : List ConditionalConfig}

theorem all_comparable {host : Host} {facts : Facts} {phase : Phase}
    (he : evaluable host facts phase ccs = true) (ha : allHold host facts phase ccs = true) :
    ∀ cc ∈ ccs, cc.condition.comparable facts = true := by
  induction ccs with
  | nil => exact fun cc hcc => by cases hcc
  | cons cc ccs ih =>
    simp only [evaluable, allHold, all_cons, Bool.and_eq_true, Bool.or_eq_true,
      Bool.not_eq_true'] at he ha
    intro cc' hcc'
    rcases mem_cons.1 hcc' with rfl | hcc'
    · exact he.1
    · refine ih (he.2.resolve_left ?_) ha.2 cc' hcc'
      rw [ha.1]
      exact Bool.noConfusion

theorem evaluable_of_comparable {facts : Facts} (phase : Phase)
    (h : ∀ cc ∈ ccs, cc.condition.comparable facts = true) :
    evaluable host facts phase ccs = true := by
  induction ccs with
  | nil => rfl
  | cons cc ccs ih =>
    simp only [evaluable, h cc mem_cons_self, ih fun cc hcc => h cc (mem_cons_of_mem _ hcc),
      Bool.or_true, Bool.and_self]

/-- The second phase evaluates what the first one has kept. -/
theorem visits_secondary (bl bl' : List (List Char)) (es : Entries)
    (h : es.visits (allHold host ⟨defines, bl⟩ .initial) (evaluable host ⟨defines, bl⟩ .initial)
      = true) :
    (es.keep (allHold host ⟨defines, bl⟩ .initial)).visits (allHold host ⟨defines, bl'⟩ .secondary)
      (evaluable host ⟨defines, bl'⟩ .secondary) = true := by
  induction es with
  | nil => rfl
  | cons hd cc items next ihi ihn =>
    simp only [visits, Bool.and_eq_true, Bool.or_eq_true, Bool.not_eq_true'] at h
    obtain ⟨⟨he, hitems⟩, hnext⟩ := h
    by_cases ha : allHold host ⟨defines, bl⟩ .initial cc = true
    · have hcmp : ∀ c ∈ cc, c.condition.comparable ⟨defines, bl'⟩ = true := by
        intro c hc
        exact all_comparable he ha c hc
      simp only [keep, ha, if_true, visits, ihn hnext,
        evaluable_of_comparable host .secondary hcmp, Bool.and_true,
        ihi (hitems.resolve_left (by rw [ha]; exact Bool.noConfusion)), Bool.or_true]
    · simp only [keep, ha]
      exact ihn hnext

theorem visits_keep (p q r : List ConditionalConfig → Bool) (es : Entries) :
    (es.keep p).visits q r = es.visits (fun cc => p cc && q cc) (fun cc => !p cc || r cc) := by
  induction es with
  | nil => rfl
  | cons h cc items next ihi ihn =>
    cases hp : p cc with
    | false => simp [keep, visits, hp, ihn]
    | true => simp [keep, visits, hp, ihi, ihn]

/-- The globals after a file: its definitions, and what it puts on the blacklist. -/
def afterFile (src : Source) : Facts :=
  let after := src.factsAfter host 0 [] facts
  { after with blacklist :=
      blacklistModules ((src.annotate 0 []).keep (allHold host after .initial)) ++ after.blacklist }

/-- At no directive of the file, and at no entry in the first phase, a comparison comes to a variable
without a value. -/
def readable (src : Source) : Bool :=
  let after := src.factsAfter host 0 [] facts
  src.directivesEvaluable host 0 [] facts &&
    (src.annotate 0 []).visits (allHold host after .initial) (evaluable host after .initial)

/-- A file is read to the entries whose conditions the first two phases take for true. -/
theorem configReadFile_eq (src : Source) : configReadFile host facts src.tokens =
      if readable host facts src then
        .ok ((src.annotate 0 []).keep (allTrueEarly host (afterFile host facts src)),
          afterFile host facts src)
      else .error .crash := by
  have hparse := parseTokens_tokens host src 0 [] facts .nil [] (by simp)
  unfold configReadFile configParse readable
  rw [hparse]
  by_cases hdir : src.directivesEvaluable host 0 [] facts = true
  swap
  · simp [hdir]
  simp only [hdir, if_true, Bool.true_and, Option.isSome_none, Bool.false_eq_true, ne_eq,
    not_true_eq_false, or_self, if_false, append, resolvePhase, resolveConditionalsCe_eq]
  by_cases hinit : (src.annotate 0 []).visits
      (allHold host (src.factsAfter host 0 [] facts) .initial)
      (evaluable host (src.factsAfter host 0 [] facts) .initial) = true
  swap
  · simp [hinit]
  have hsec := visits_secondary host _ (src.factsAfter host 0 [] facts).blacklist
    (afterFile host facts src).blacklist _ hinit
  simp only [hinit, if_true]
  unfold afterFile at hsec ⊢
  simp only [hsec, if_true, keep_keep, allTrueEarly_eq host _
    (src.factsAfter host 0 [] facts).blacklist]

/-! ## The whole configuration -/

def afterFiles (files : List Source) : Facts :=
  files.foldl (afterFile host) facts

/-- The configuration that is left is the one that the conditions select in the end. -/
def Correct (files : List Source) (modules : List Module) : Prop :=
  configTest host facts (files.map Source.tokens) modules =
    .ok (files.map (Source.selected (holds host (afterFiles host facts files) modules) 0 []))

/-- The conditions are taken for true early, and are found to be true in the end. -/
def kept (facts final : Facts) (modules : List Module) (ccs : List ConditionalConfig) : Bool :=
  allTrueEarly host facts ccs && allHold host final (.module modules) ccs

/-- What is required of a file: no comparison comes to a variable without a value, while the file is
read and when the modules are loaded; and the conditions around an entry are taken for true early and
found to be true in the end exactly if they are true in the end. -/
def FileOk (final : Facts) (modules : List Module) (src : Source) : Prop :=
  let after := afterFile host facts src
  readable host facts src = true ∧
    (src.annotate 0 []).visits (kept host after final modules)
      (fun cc => !allTrueEarly host after cc || evaluable host final (.module modules) cc) = true ∧
    (src.annotate 0 []).visits (kept host after final modules)
      (fun cc => kept host after final modules cc == allTrue (holds host final modules) cc) = true

def FilesOk (host : Host) (final : Facts) (modules : List Module) : Facts → List Source → Prop
  | _, [] => True
  | facts, src :: files =>
    FileOk host facts final modules src ∧ FilesOk host final modules (afterFile host facts src) files

/-- The last phase on what is left of a file. -/
theorem resolvePhase_eq_iff (final : Facts) (modules : List Module) (src : Source) :
    resolvePhase host final (.module modules)
        ((src.annotate 0 []).keep (allTrueEarly host (afterFile host facts src))) =
      .ok (src.selected (holds host final modules) 0 []) ↔
      (src.annotate 0 []).visits (kept host (afterFile host facts src) final modules)
          (fun cc => !allTrueEarly host (afterFile host facts src) cc ||
            evaluable host final (.module modules) cc) = true ∧
        (src.annotate 0 []).visits (kept host (afterFile host facts src) final modules)
          (fun cc => kept host (afterFile host facts src) final modules cc ==
            allTrue (holds host final modules) cc) = true := by
  have hselected : (src.annotate 0 []).keep (allTrue (holds host final modules)) =
      src.selected (holds host final modules) 0 [] :=
    keep_annotate (holds host final modules) src 0 []
  rw [← keep_eq_keep_iff, hselected]
  unfold kept
  rw [← visits_keep]
  unfold resolvePhase
  rw [resolveConditionalsCe_eq, keep_keep]
  by_cases hvisits : ((src.annotate 0 []).keep (allTrueEarly host (afterFile host facts src))).visits
      (allHold host final (.module modules)) (evaluable host final (.module modules)) = true
  · simp only [hvisits, if_true, Except.ok.injEq, true_and]
  · simp [hvisits]

theorem configReadFiles_cons_iff {src : Source} {files : List Source} {ess : List Entries}
    {facts' : Facts} : configReadFiles host facts ((src :: files).map tokens) = .ok (ess, facts') ↔
      readable host facts src = true ∧
        ∃ rest, configReadFiles host (afterFile host facts src) (files.map tokens) = .ok (rest, facts') ∧
          (src.annotate 0 []).keep (allTrueEarly host (afterFile host facts src)) :: rest = ess := by
  simp only [map_cons, configReadFiles, configReadFile_eq]
  by_cases hread : readable host facts src = true
  · simp only [hread, if_true]
    rcases configReadFiles host (afterFile host facts src) (files.map tokens) with e | ⟨rest, facts''⟩
    · simp [Except.map]
    · simp [Except.map, and_comm]
  · simp [hread]

theorem resolveConditionalsAll_cons_iff {phase : Phase} {es : Entries} {ess out : List Entries} :
    resolveConditionalsAll host facts phase (es :: ess) = .ok out ↔
      ∃ es' out', resolvePhase host facts phase es = .ok es' ∧
        resolveConditionalsAll host facts phase ess = .ok out' ∧ es' :: out' = out := by
  rw [resolveConditionalsAll]
  rcases resolvePhase host facts phase es with e | es'
  · simp
  · rcases resolveConditionalsAll host facts phase ess with e | out' <;> simp [Except.map]

/-- All files are read, and the last phase leaves what is meant, exactly if every file is as
required. -/
theorem filesOk_iff (final : Facts) (modules : List Module) (files : List Source) (facts : Facts) :
    (∃ ess, configReadFiles host facts (files.map tokens) = .ok (ess, afterFiles host facts files) ∧
      resolveConditionalsAll host final (.module modules) ess =
        .ok (files.map (selected (holds host final modules) 0 []))) ↔
      FilesOk host final modules facts files := by
  induction files generalizing facts with
  | nil => exact ⟨fun _ => trivial, fun _ => ⟨[], rfl, rfl⟩⟩
  | cons src files ih =>
    simp only [FilesOk, FileOk]
    rw [← ih, ← resolvePhase_eq_iff]
    simp only [configReadFiles_cons_iff]
    constructor
    · rintro ⟨_, ⟨hread, rest, hrest, rfl⟩, hout⟩
      obtain ⟨es, out', hes, hall, hsel⟩ := (resolveConditionalsAll_cons_iff host final).mp hout
      obtain ⟨rfl, rfl⟩ := cons.inj hsel
      exact ⟨⟨hread, hes⟩, rest, hrest, hall⟩
    · rintro ⟨⟨hread, hes⟩, ess, hess, hout⟩
      exact ⟨_, ⟨hread, ess, hess, rfl⟩,
        (resolveConditionalsAll_cons_iff host final).mpr ⟨_, _, hes, hout, rfl⟩⟩

theorem configReadFiles_facts (files : List Source) (facts : Facts) {ess : List Entries}
    {facts' : Facts} (h : configReadFiles host facts (files.map tokens) = .ok (ess, facts')) :
    facts' = afterFiles host facts files := by
  induction files generalizing facts ess with
  | nil => exact (Prod.mk.inj (Except.ok.inj h)).2.symm
  | cons src files ih =>
    obtain ⟨-, rest, hrest, -⟩ := (configReadFiles_cons_iff host facts).mp h
    exact ih (afterFile host facts src) hrest

/-- For every configuration with nested `@if` and `@else` over any conditions, and whatever modules
are loaded, the configuration that is left is the one that the conditions select, exactly if no
comparison comes to a variable without a value, and the conditions around every entry are taken for
true early and found to be true in the end just if they are. -/
theorem configTest_correct_iff (host : Host) (facts : Facts) (files : List Source)
    (modules : List Module) :
    Correct host facts files modules ↔
      FilesOk host (afterFiles host facts files) modules facts files := by
  rw [← filesOk_iff]
  unfold Correct configTest
  cases h : configReadFiles host facts (files.map tokens) with
  | error e => simp
  | ok r =>
    obtain ⟨ess, facts'⟩ := r
    obtain rfl := configReadFiles_facts host files facts h
    simp only [Except.ok.injEq, Prod.mk.injEq, and_true, exists_eq_left']

/-- A machine without anything that conditions ask for. -/
def bareHost : Host where
  strnatcasecmp _ _ := .eq
  versionOnly := []
  getenv _ := none
  moduleExists _ := false
  fileExists _ := false
  matchBlacklist _ _ := false

def elseOfModule : Source :=
  .ifElse (.moduleLoaded "x".toList) false (.directive ⟨"a".toList, none⟩ .nil)
    (.directive ⟨"b".toList, none⟩ .nil) .nil

/-- The module is not loaded, and neither of the two entries is left. -/
theorem elseOfModule_deleted :
    configTest bareHost ⟨[], []⟩ [elseOfModule.tokens] [] = .ok [.nil] ∧
      (elseOfModule.selected (holds bareHost ⟨[], []⟩ []) 0 []).heads = [⟨"b".toList, none⟩] ∧
      ¬ Correct bareHost ⟨[], []⟩ [elseOfModule] [] := by
  have hleft : configTest bareHost ⟨[], []⟩ [elseOfModule.tokens] [] = .ok [.nil] := by decide
  refine ⟨hleft, by decide, fun hcorrect => ?_⟩
  have hsame := hleft.symm.trans hcorrect
  exact absurd (Except.ok.inj hsame) (by decide)

-- `@define $X "1"`, `@if defined($X)`: the entry is deleted although the variable is defined.
example : configTest bareHost ⟨[], []⟩ [(Source.define "X".toList "1".toList
    (.ifEndif (.defined "$X".toList) false (.directive ⟨"a".toList, none⟩ .nil) .nil)).tokens] [] =
      .ok [.nil] := by
  decide

end ObbyIRCd.Preprocessor
