import Mathlib.Data.List.Basic
import Mathlib.Data.Nat.Notation
import ObbyIRCd.Lib.Bytes

/-!
# Conditional configuration: `src/conf_preprocessor.c` and its callers in `src/conf.c`

While a file is parsed, `@if` puts a condition on a list, `@else` turns the one of the current level
round and `@endif` takes it off; every entry that is begun gets a copy of the list. Entries are then
deleted in three phases: two right after the file was parsed, when modules are not loaded yet, and one
for all files when they are.

A text is given as its tokens: the heads and braces of entries, and the directives with their
conditions read. `$VAR` in names and values is replaced in `Replace`; `@error` and `@warning` are not
modelled. The first syntax error ends the parsing, as a file with an error is not used in any case.
A variable that is defined as the empty text has no value (`add_nvplist`), and comparing it reads
through a null pointer: that is `Failure.crash`.
-/

namespace ObbyIRCd.Preprocessor

/-- `CompareOp`. -/
inductive CompareOp where
  | eq
  | ne
  | gt
  | ge
  | lt
  | le
deriving DecidableEq

/-- The `switch` over the operator. -/
def CompareOp.eval : CompareOp → Ordering → Bool
  | eq, cmp => cmp == .eq
  | ne, cmp => cmp != .eq
  | gt, cmp => cmp == .gt
  | ge, cmp => cmp != .lt
  | lt, cmp => cmp == .lt
  | le, cmp => cmp != .gt

/-- A condition with its name and, for comparisons, the operator and the text. -/
inductive Condition where
  /-- `IF_MODULE_LOADED`. -/
  | moduleLoaded (name : List Char)
  /-- `IF_MODULE_VERSION`. -/
  | moduleVersion (name : List Char) (opt : Option (CompareOp × List Char))
  /-- `IF_MODULE_EXISTS`. -/
  | moduleExists (name : List Char)
  /-- `IF_MINIMUM_VERSION`. -/
  | minimumVersion (name : List Char)
  /-- `IF_FILE_EXISTS`. -/
  | fileExists (name : List Char)
  /-- `IF_DEFINED`, with the text between the parentheses: `parse_if_function` takes it for the name,
  with the `$` that `defined($XYZ)` has, where `@define` stores the name without. -/
  | defined (name : List Char)
  /-- `IF_ENVIRONMENT`. -/
  | environment (name : List Char) (opt : Option (CompareOp × List Char))
  /-- `IF_VALUE`. -/
  | value (name : List Char) (op : CompareOp) (opt : List Char)
deriving DecidableEq

/-- `ConditionalConfig`. -/
structure ConditionalConfig where
  condition : Condition
  negative : Bool
  priority : ℕ
  hadElse : Bool
deriving DecidableEq

/-- A loaded module: its `relpath` and the version in its header. -/
structure Module where
  relpath : List Char
  version : Option (List Char)
deriving DecidableEq

/-- `PreprocessorPhase`; in the last one the modules are known. -/
inductive Phase where
  | initial
  | secondary
  | module (modules : List Module)
deriving DecidableEq

/-- What stays the same while the configuration is read. -/
structure Host where
  /-- `strnatcasecmp`. -/
  strnatcasecmp : List Char → List Char → Ordering
  /-- `VERSIONONLY`. -/
  versionOnly : List Char
  /-- `getenv`. -/
  getenv : List Char → Option (List Char)
  /-- `file_exists` on the path of a module. -/
  moduleExists : List Char → Bool
  /-- `file_exists` on a path below the configuration directory. -/
  fileExists : List Char → Bool
  /-- Whether a mask of the blacklist matches a module's name or path. -/
  matchBlacklist : List Char → List Char → Bool

/-- The globals that conditions are about. -/
structure Facts where
  /-- `config_defines`, the newest first. -/
  defines : List (List Char × Option (List Char))
  /-- `conf_blacklist_module`. -/
  blacklist : List (List Char)
deriving DecidableEq

/-- `find_config_define`. -/
def Facts.findConfigDefine (facts : Facts) (name : List Char) : Option (Option (List Char)) :=
  (facts.defines.find? fun d => lower d.1 == lower name).map (·.2)

/-- `add_nvplist` at priority 0: before the others, and without a value if it is empty. -/
def Facts.define (facts : Facts) (name value : List Char) : Facts :=
  { facts with defines := (name, if value = [] then none else some value) :: facts.defines }

variable (host : Host)

/-- `is_blacklisted_module`. -/
def isBlacklistedModule (facts : Facts) (name : List Char) : Bool :=
  facts.blacklist.any fun mask => host.matchBlacklist mask name

/-- `is_module_loaded`. -/
def isModuleLoaded (modules : List Module) (name : List Char) : Bool :=
  modules.any fun m => lower m.relpath == lower name

/-- `find_testing_module`. -/
def findTestingModule (modules : List Module) (name : List Char) : Option Module :=
  modules.find? fun m => lower m.relpath == lower name

/-- A text that is compared if there is something to compare it with, and is there otherwise. -/
def compareOpt (v : List Char) : Option (CompareOp × List Char) → Bool
  | some (op, opt) => op.eval (host.strnatcasecmp v opt)
  | none => true

/-- The result of a condition before `negative`; `none` if a null pointer is read. -/
def resolveCondition (facts : Facts) (phase : Phase) : Condition → Option Bool
  | .moduleLoaded name =>
    match phase with
    | .initial => some true
    | .secondary => some !(isBlacklistedModule host facts name)
    | .module modules => some (isModuleLoaded modules name)
  | .moduleVersion name opt =>
    match phase with
    | .module modules =>
      match findTestingModule modules name with
      | some ⟨_, some version⟩ => some (compareOpt host version opt)
      | _ => some false
    | _ => some true
  | .moduleExists name => some (host.moduleExists name)
  | .minimumVersion name => some (host.strnatcasecmp host.versionOnly name != .lt)
  | .fileExists name => some (host.fileExists name)
  | .defined name => some (facts.findConfigDefine name).isSome
  | .environment name opt =>
    match host.getenv name with
    | some env => some (compareOpt host env opt)
    | none => some false
  | .value name op opt =>
    match facts.findConfigDefine name with
    | some (some v) => some (op.eval (host.strnatcasecmp v opt))
    | some none => none
    | none => some false

/-- `preprocessor_resolve_if`: whether all conditions of the list are true. -/
def resolveIf (host : Host) (facts : Facts) (phase : Phase) : List ConditionalConfig → Option Bool
  | [] => some true
  | cc :: ccs =>
    match resolveCondition host facts phase cc.condition with
    | none => none
    | some result =>
      if (if cc.negative then !result else result) then resolveIf host facts phase ccs
      else some false

/-! ## Entries -/

structure Head where
  name : List Char
  value : Option (List Char)
deriving DecidableEq

/-- A list of `ConfigEntry`, linked by `next`, each with its `items`. -/
inductive Entries where
  | nil
  | cons (head : Head) (conditionalConfig : List ConditionalConfig) (items next : Entries)
deriving DecidableEq

namespace Entries

def append : Entries → Entries → Entries
  | nil, es => es
  | cons h cc items next, es => cons h cc items (next.append es)

def heads : Entries → List Head
  | nil => []
  | cons h _ _ next => h :: next.heads

end Entries

/-- `preprocessor_resolve_conditionals_ce`: what is left of a list of entries. -/
def resolveConditionalsCe (host : Host) (facts : Facts) (phase : Phase) : Entries → Option Entries
  | .nil => some .nil
  | .cons h cc items next =>
    match resolveIf host facts phase cc with
    | none => none
    | some false => resolveConditionalsCe host facts phase next
    | some true =>
      match resolveConditionalsCe host facts phase items with
      | none => none
      | some items => (resolveConditionalsCe host facts phase next).map (.cons h cc items)

/-! ## Parsing -/

/-- The tokens of a configuration file. -/
inductive Token where
  /-- The name of an entry, with its value. -/
  | begin (head : Head)
  | semicolon
  | openBrace
  /-- `}`, with or without a semicolon. -/
  | closeBrace
  /-- `@if`, and whether there is a `!`. -/
  | ifLine (condition : Condition) (negative : Bool)
  | elseLine
  | endifLine
  /-- `@define`. -/
  | defineLine (name value : List Char)
deriving DecidableEq

/-- Why there is no configuration. -/
inductive Failure where
  | crash
  | error
deriving DecidableEq

/-- The local variables of `config_parse_with_offset`. -/
structure Parser where
  preprocessorLevel : ℕ
  /-- `cc_list`, the innermost first. -/
  ccList : List ConditionalConfig
  facts : Facts
  /-- `curce`: an entry that has not ended. -/
  curce : Option (Head × List ConditionalConfig)
  /-- The entries so far in the section that is open. -/
  items : Entries
  /-- The sections that are open, the innermost first, each with the entries before it. -/
  cursection : List ((Head × List ConditionalConfig) × Entries)
deriving DecidableEq

/-- `@else`: the condition of the level is turned round. A second one is an error. -/
def elseLevel (level : ℕ) : List ConditionalConfig → Option (List ConditionalConfig)
  | [] => some []
  | cc :: ccs =>
    if cc.priority = level then
      if cc.hadElse then none
      else some ({ cc with negative := !cc.negative, hadElse := true } :: ccs)
    else (elseLevel level ccs).map (cc :: ·)

/-- Whether a directive with a side effect is executed: not inside of a false `@if`. -/
def executes (p : Parser) : Except Failure Bool :=
  if p.ccList = [] then .ok true
  else
    match resolveIf host p.facts .initial p.ccList with
    | none => .error .crash
    | some b => .ok b

def parsePreprocessorItem (p : Parser) (executed : Bool) : Token → Except Failure Parser
  | .ifLine condition negative =>
    .ok { p with
      preprocessorLevel := p.preprocessorLevel + 1
      ccList := ⟨condition, negative, p.preprocessorLevel + 1, false⟩ :: p.ccList }
  | .elseLine =>
    if p.preprocessorLevel = 0 then .error .error
    else
      match elseLevel p.preprocessorLevel p.ccList with
      | none => .error .error
      | some ccs => .ok { p with ccList := ccs }
  | .endifLine =>
    if p.preprocessorLevel = 0 then .error .error
    else .ok { p with
      -- `preprocessor_cc_free_level`
      ccList := p.ccList.filter fun cc => cc.priority < p.preprocessorLevel
      preprocessorLevel := p.preprocessorLevel - 1 }
  | .defineLine name value =>
    .ok (if executed then { p with facts := p.facts.define name value } else p)
  | _ => .ok p

def parseToken (p : Parser) : Token → Except Failure Parser
  | .begin head =>
    match p.curce with
    | some _ => .error .error
    -- `preprocessor_cc_duplicate_list` turns the order round
    | none => .ok { p with curce := some (head, p.ccList.reverse) }
  | .semicolon =>
    match p.curce with
    | some (h, cc) => .ok { p with items := p.items.append (.cons h cc .nil .nil), curce := none }
    | none => .ok p
  | .openBrace =>
    match p.curce with
    | some ce => .ok { p with cursection := (ce, p.items) :: p.cursection, items := .nil, curce := none }
    | none => .error .error
  | .closeBrace =>
    match p.curce, p.cursection with
    | none, ((h, cc), before) :: cursection =>
      .ok { p with items := before.append (.cons h cc p.items .nil), cursection := cursection }
    | _, _ => .error .error
  | t =>
    match executes host p with
    | .error e => .error e
    | .ok executed => parsePreprocessorItem p executed t

def parseTokens (host : Host) : Parser → List Token → Except Failure Parser
  | p, [] => .ok p
  | p, t :: ts =>
    match parseToken host p t with
    | .error e => .error e
    | .ok p => parseTokens host p ts

/-- `config_parse`: the entries of a file, and the globals after it. -/
def configParse (facts : Facts) (file : List Token) : Except Failure (Entries × Facts) :=
  match parseTokens host ⟨0, [], facts, none, .nil, []⟩ file with
  | .error e => .error e
  | .ok p => if p.curce.isSome ∨ p.cursection ≠ [] then .error .error else .ok (p.items, p.facts)

/-! ## Reading the configuration -/

def blacklistModules (es : Entries) : List (List Char) :=
  es.heads.filterMap fun h => if h.name = "blacklist-module".toList then h.value else none

def resolvePhase (facts : Facts) (phase : Phase) (es : Entries) : Except Failure Entries :=
  match resolveConditionalsCe host facts phase es with
  | none => .error .crash
  | some es => .ok es

/-- `config_read_file` without its includes: parse, first phase, blacklist, second phase. -/
def configReadFile (facts : Facts) (file : List Token) : Except Failure (Entries × Facts) :=
  match configParse host facts file with
  | .error e => .error e
  | .ok (es, facts) =>
    match resolvePhase host facts .initial es with
    | .error e => .error e
    | .ok es =>
      let facts := { facts with blacklist := blacklistModules es ++ facts.blacklist }
      match resolvePhase host facts .secondary es with
      | .error e => .error e
      | .ok es => .ok (es, facts)

/-- All files in the order in which they are read: a file before its includes, which cannot be inside
of an `@if`. -/
def configReadFiles (host : Host) (facts : Facts) :
    List (List Token) → Except Failure (List Entries × Facts)
  | [] => .ok ([], facts)
  | file :: files =>
    match configReadFile host facts file with
    | .error e => .error e
    | .ok (es, facts) => (configReadFiles host facts files).map fun (ess, facts) => (es :: ess, facts)

/-- `preprocessor_resolve_conditionals_all`. -/
def resolveConditionalsAll (host : Host) (facts : Facts) (phase : Phase) :
    List Entries → Except Failure (List Entries)
  | [] => .ok []
  | es :: ess =>
    match resolvePhase host facts phase es with
    | .error e => .error e
    | .ok es => (resolveConditionalsAll host facts phase ess).map (es :: ·)

/-- The configuration that is left once these modules are loaded. -/
def configTest (facts : Facts) (files : List (List Token)) (modules : List Module) :
    Except Failure (List Entries) :=
  match configReadFiles host facts files with
  | .error e => .error e
  | .ok (ess, facts) => resolveConditionalsAll host facts (.module modules) ess

end ObbyIRCd.Preprocessor
