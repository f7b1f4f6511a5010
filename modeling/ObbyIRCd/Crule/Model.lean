import Mathlib.Data.Int.Notation
import ObbyIRCd.Lib.Bsearch
import ObbyIRCd.Lib.Bytes

/-!
# Rules of connection and spamfilter blocks

Model of `src/modules/crule.c`: the scanner (`cruleGettoken`, `cruleGetword`), the recursive descent
parser that turns the text of a rule into a tree (`cruleParseorexpr` and below), and the evaluation
of the tree (`cruleEval`).

A text is the list of its characters in front of the terminator, and a position in it is what
remains from there. A parser function receives a position and gives back a `Parsed`: a tree and the
next position, an error code, or `fault` where the code reads or writes out of bounds, which C
leaves undefined. `CRuleNode.null` is the null pointer, which the parser uses for "nothing parsed"
and which it can leave in the tree. The loops are bounded by `fuel`; `Parsed.timeout` is the outcome
of a bound that is too small.
-/

namespace ObbyIRCd.Crule

/-! ## Tokens and errors -/

/-- `crule_token`, without `CR_UNKNOWN`, which never leaves the scanner. -/
inductive CruleToken
  | crEnd | and | or | not | openparen | closeparen | comma | equal | lessThan | moreThan | word
deriving DecidableEq, Repr

/-- The comparisons that may follow a function call (`func_test_type`). -/
inductive FuncTest
  | equal | lessThan | moreThan
deriving DecidableEq, Repr

/-- `IsComparisson`. -/
def CruleToken.comparisson : CruleToken → Option FuncTest
  | .equal => some .equal
  | .lessThan => some .lessThan
  | .moreThan => some .moreThan
  | _ => none

/-- `crule_errcode`, without `CR_NOERR`. -/
inductive CruleErrcode
  | unexpcttok | unknwtok | expctand | expctor | expctprim | expctopen | expctclose | unknwfunc
  | argmismat | expctvalue
deriving DecidableEq, Repr

/-- The number of an error code; `CR_NOERR` is 0. -/
def CruleErrcode.toNat : CruleErrcode → ℕ
  | .unexpcttok => 1
  | .unknwtok => 2
  | .expctand => 3
  | .expctor => 4
  | .expctprim => 5
  | .expctopen => 6
  | .expctclose => 7
  | .unknwfunc => 8
  | .argmismat => 9
  | .expctvalue => 10

/-! ## The scanner -/

/-- `isalnum` and the other characters that a word may hold without quotes. -/
def isWordChar (c : Char) : Bool :=
  c.isAlphanum || c == '*' || c == '?' || c == '.' || c == '-' || c == '_'

def startsWord : List Char → Bool
  | [] => false
  | c :: _ => isWordChar c || c == '\''

/-- The scanner's position: the token it has seen (`*next_tokp`) and the text behind it (`*ruleptr`).
A word is seen before it is read, so that the text still starts with it. -/
structure Scan where
  nextTok : CruleToken
  ruleptr : List Char
  word_here : nextTok = .word → startsWord ruleptr = true
deriving DecidableEq

/-- `crule_gettoken`. `pending` is the first half of `&&`, `||` or `==`: blanks may stand behind it,
and any other token drops it. -/
def cruleGettoken (pending : Option Char) : List Char → Except CruleErrcode Scan
  | [] => .ok ⟨.crEnd, [], nofun⟩
  | c :: ruleptr =>
    if c = ' ' ∨ c = '\t' then cruleGettoken pending ruleptr
    else if c = '&' then
      if pending = none then cruleGettoken (some '&') ruleptr
      else if pending = some '&' then .ok ⟨.and, ruleptr, nofun⟩
      else .error .unknwtok
    else if c = '|' then
      if pending = none then cruleGettoken (some '|') ruleptr
      else if pending = some '|' then .ok ⟨.or, ruleptr, nofun⟩
      else .error .unknwtok
    else if c = '!' then .ok ⟨.not, ruleptr, nofun⟩
    else if c = '(' then .ok ⟨.openparen, ruleptr, nofun⟩
    else if c = ')' then .ok ⟨.closeparen, ruleptr, nofun⟩
    else if c = '<' then .ok ⟨.lessThan, ruleptr, nofun⟩
    else if c = '>' then .ok ⟨.moreThan, ruleptr, nofun⟩
    else if c = '=' then
      if pending = none then cruleGettoken (some '=') ruleptr
      else if pending = some '=' then .ok ⟨.equal, ruleptr, nofun⟩
      else .error .unknwtok
    else if c = ',' then .ok ⟨.comma, ruleptr, nofun⟩
    else if c = ':' then .ok ⟨.crEnd, ruleptr, nofun⟩
    else if h : startsWord (c :: ruleptr) then .ok ⟨.word, c :: ruleptr, fun _ => h⟩
    else .error .unknwtok

/-- `CR_MAXARGLEN`. -/
def crMaxarglen : ℕ := 160

/-- `CR_MAXARGS`. -/
def crMaxargs : ℕ := 5

/-- The loop of `crule_getword`, with room for `maxlen` characters. Inside quotes it takes every
character but the quote, the terminator of the text included: there it reads on behind the text
(`none`). -/
def getwordLoop (quoted : Bool) : ℕ → List Char → Option (List Char × List Char)
  | 0, ruleptr => some ([], ruleptr)
  | _ + 1, [] => if quoted then none else some ([], [])
  | maxlen + 1, c :: ruleptr =>
    if isWordChar c || (quoted && c != '\'') then
      (getwordLoop quoted maxlen ruleptr).map fun (word, rest) => (c :: word, rest)
    else some ([], c :: ruleptr)

def eatQuote : List Char → List Char
  | [] => []
  | c :: ruleptr => if c = '\'' then ruleptr else c :: ruleptr

/-- `crule_getword`, with the `maxlen` of all its callers: the word and the text behind it. -/
def cruleGetword : List Char → Option (List Char × List Char)
  | [] => getwordLoop false (crMaxarglen - 1) []
  | c :: ruleptr =>
    if c = '\'' then
      (getwordLoop true (crMaxarglen - 1) ruleptr).map fun (word, rest) => (word, eatQuote rest)
    else getwordLoop false (crMaxarglen - 1) (c :: ruleptr)

/-! ## Trees and functions -/

/-- The functions that a rule can call, by their `funcptr`. -/
inductive CruleFunc
  | away | bytesReceived | bytesSent | capSet | capVersion | channelCount | channelMemberCount
  | connected | connectionsFromIp | destination | digitPercentage | directcon | directop
  | hasChannelMode | hasSwhois | hasUserMode | idleTime | inChannel | inSecurityGroup
  | isIdentified | isLocal | isOper | isWebirc | isWebsocket | matchAccount | matchAsn
  | matchAsname | matchAway | matchCertfp | matchClass | matchCountry | matchIp | matchMask
  | matchOperclass | matchOperlogin | matchRealhost | matchRealname | matchServer | matchSni
  | matchTlsCipher | matchVhost | maxRepeatCount | messagesReceived | messagesSent
  | mixedUtf8Score | nonAsciiPercentage | onlineTime | reputation | serverFloodCount | serverPort
  | tag | textByteCount | textCharacterCount | tls | totalChannelFloodCount | unicodeBlockCount
  | unicodeCount | uppercasePercentage | via | wordCount
deriving DecidableEq, Repr

/-- `crule_funclistent`; `reqnumargs` is -1 for any number. -/
structure CruleFunclistent where
  name : String
  reqnumargs : ℤ
  funcptr : CruleFunc
deriving DecidableEq, Repr

/-- `crule_funclist`. -/
def cruleFunclist : List CruleFunclistent := [
  ⟨"bytes_received", 0, .bytesReceived⟩, ⟨"bytes_sent", 0, .bytesSent⟩, ⟨"cap_set", 1, .capSet⟩,
  ⟨"cap_version", 0, .capVersion⟩, ⟨"channel_count", 0, .channelCount⟩,
  ⟨"channel_member_count", 0, .channelMemberCount⟩, ⟨"connected", 1, .connected⟩,
  ⟨"connections_from_ip", 0, .connectionsFromIp⟩, ⟨"destination", 1, .destination⟩,
  ⟨"digit_percentage", 0, .digitPercentage⟩, ⟨"directcon", 1, .directcon⟩,
  ⟨"directop", 0, .directop⟩, ⟨"has_channel_mode", 1, .hasChannelMode⟩,
  ⟨"has_swhois", 0, .hasSwhois⟩, ⟨"has_user_mode", 1, .hasUserMode⟩, ⟨"idle_time", 0, .idleTime⟩,
  ⟨"in_channel", 1, .inChannel⟩, ⟨"in_security_group", 1, .inSecurityGroup⟩,
  ⟨"inchannel", 1, .inChannel⟩, ⟨"is_away", 0, .away⟩, ⟨"is_identified", 0, .isIdentified⟩,
  ⟨"is_local", 0, .isLocal⟩, ⟨"is_oper", 0, .isOper⟩, ⟨"is_tls", 0, .tls⟩,
  ⟨"is_webirc", 0, .isWebirc⟩, ⟨"is_websocket", 0, .isWebsocket⟩,
  ⟨"match_account", 1, .matchAccount⟩, ⟨"match_asn", 1, .matchAsn⟩,
  ⟨"match_asname", 1, .matchAsname⟩, ⟨"match_away", 1, .matchAway⟩,
  ⟨"match_certfp", 1, .matchCertfp⟩, ⟨"match_class", 1, .matchClass⟩,
  ⟨"match_country", 1, .matchCountry⟩, ⟨"match_ip", 1, .matchIp⟩, ⟨"match_mask", 1, .matchMask⟩,
  ⟨"match_operclass", 1, .matchOperclass⟩, ⟨"match_operlogin", 1, .matchOperlogin⟩,
  ⟨"match_realhost", 1, .matchRealhost⟩, ⟨"match_realname", 1, .matchRealname⟩,
  ⟨"match_server", 1, .matchServer⟩, ⟨"match_sni", 1, .matchSni⟩,
  ⟨"match_tls_cipher", 1, .matchTlsCipher⟩, ⟨"match_vhost", 1, .matchVhost⟩,
  ⟨"max_repeat_count", 0, .maxRepeatCount⟩, ⟨"messages_received", 0, .messagesReceived⟩,
  ⟨"messages_sent", 0, .messagesSent⟩, ⟨"mixed_utf8_score", 0, .mixedUtf8Score⟩,
  ⟨"non_ascii_percentage", 0, .nonAsciiPercentage⟩, ⟨"online_time", 0, .onlineTime⟩,
  ⟨"reputation", 0, .reputation⟩, ⟨"server_flood_count", 1, .serverFloodCount⟩,
  ⟨"server_port", 0, .serverPort⟩, ⟨"tag", 1, .tag⟩, ⟨"text_byte_count", 0, .textByteCount⟩,
  ⟨"text_character_count", 0, .textCharacterCount⟩,
  ⟨"total_channel_flood_count", 1, .totalChannelFloodCount⟩,
  ⟨"unicode_block_count", 0, .unicodeBlockCount⟩, ⟨"unicode_count", 1, .unicodeCount⟩,
  ⟨"uppercase_percentage", 0, .uppercasePercentage⟩, ⟨"via", 2, .via⟩,
  ⟨"word_count", 0, .wordCount⟩]

/-- `crule_funclist_compare`. -/
def cruleFunclistCompare (key : List Char) (entry : CruleFunclistent) : Ordering :=
  compare (lower key) (lower entry.name.toList)

/-- The entry of a function name. -/
def cruleFunc (funcname : List Char) : Option CruleFunclistent :=
  bsearch (cruleFunclistCompare funcname) cruleFunclist

/-- A pointer to a `CRuleNode`. `andor` and `not` are the nodes of `crule__andor` and `crule__not`;
`arg[2]` of the former says whether it is an or. -/
inductive CRuleNode
  | null
  | andor (isOr : Bool) (arg0 arg1 : CRuleNode)
  | not (arg0 : CRuleNode)
  | func (funcptr : CruleFunc) (args : List (List Char)) (test : Option (FuncTest × ℤ))
deriving DecidableEq, Repr

/-! ## The parser -/

/-- What a parser function does: it succeeds with a value and the next position; or returns an error
code, together with whether the pointer it was to fill is not null; or leaves the bounds of the text
or of an array; or exhausts `fuel`. -/
inductive Parsed (α : Type)
  | ok (value : α) (next : Scan)
  | fail (errcode : CruleErrcode) (linked : Bool)
  | fault
  | timeout
deriving DecidableEq

namespace Parsed

variable {α β : Type}

def bind : Parsed α → (α → Scan → Parsed β) → Parsed β
  | ok value next, f => f value next
  | fail errcode linked, _ => fail errcode linked
  | fault, _ => fault
  | timeout, _ => timeout

/-- An error behind the point where the pointer has been filled. -/
def link : Parsed α → Parsed α
  | fail errcode _ => fail errcode true
  | p => p

end Parsed

/-- Scan the token at a place of the text. -/
def scanAt (ruleptr : List Char) : Parsed Unit :=
  match cruleGettoken none ruleptr with
  | .ok next => .ok () next
  | .error errcode => .fail errcode false

/-- `crule_gettoken` for the token behind the current one. -/
def advance (st : Scan) : Parsed Unit := scanAt st.ruleptr

/-- `crule_getword` and the `crule_gettoken` that follows it everywhere. -/
def takeWord (st : Scan) : Parsed (List Char) :=
  match cruleGetword st.ruleptr with
  | none => .fault
  | some (word, ruleptr) => (scanAt ruleptr).bind fun _ next => .ok word next

/-- The rounds that suffice for every loop from a position: each consumes a token. -/
def Scan.fuel (st : Scan) : ℕ := st.ruleptr.length + 2

/-- Add a word to `currarg` in `crule_parsearglist`: behind a blank if there is room, and dropped if
there is none. -/
def joinWord (currarg word : List Char) : List Char :=
  if currarg ≠ [] then
    if currarg.length + word.length < crMaxarglen - 1 then currarg ++ ' ' :: word else currarg
  else word

/-- Append `currarg` to the arguments in `crule_parsearglist`, unless it is empty. The code does not
look at `CR_MAXARGS`: `none` is a write behind `arg`. -/
def storeArg (currarg : List Char) (args : List (List Char)) : Option (List (List Char)) :=
  if currarg = [] then some args
  else if args.length < crMaxargs then some (args ++ [currarg]) else none

/-- The loop of `crule_parsearglist`. -/
def parsearglistLoop : ℕ → List Char → List (List Char) → Scan → Parsed (List (List Char))
  | 0, _, _, _ => .timeout
  | fuel + 1, currarg, args, st =>
    if st.nextTok = .word then
      (takeWord st).bind fun word next => parsearglistLoop fuel (joinWord currarg word) args next
    else
      match storeArg currarg args with
      | none => .fault
      | some args =>
        if st.nextTok ≠ .comma then .ok args st
        else (advance st).bind fun _ next => parsearglistLoop fuel [] args next

/-- `crule_parsearglist`. -/
def cruleParsearglist (st : Scan) : Parsed (List (List Char)) :=
  parsearglistLoop st.fuel [] [] st

/-- `func->reqnumargs` allows this number of arguments. -/
def CruleFunclistent.Takes (func : CruleFunclistent) (numargs : ℕ) : Prop :=
  func.reqnumargs = numargs ∨ func.reqnumargs = -1

instance (func : CruleFunclistent) (numargs : ℕ) : Decidable (func.Takes numargs) :=
  inferInstanceAs (Decidable (_ ∨ _))

section

-- `atoi` of the C library.
variable (atoi : List Char → ℤ)

/-- The end of `crule_parsefunction`: a comparison may follow the closing parenthesis. -/
def parseComparisson (func : CruleFunclistent) (args : List (List Char)) (st : Scan) :
    Parsed CRuleNode :=
  match st.nextTok.comparisson with
  | none => .ok (.func func.funcptr args none) st
  | some test =>
    (advance st).bind fun _ next =>
      if next.nextTok ≠ .word then .fail .expctvalue true
      else (takeWord next).bind fun value next =>
        .ok (.func func.funcptr args (some (test, atoi value))) next

/-- The part of `crule_parsefunction` from the argument list on. -/
def parseArguments (func : CruleFunclistent) (st : Scan) : Parsed CRuleNode :=
  (cruleParsearglist st).bind fun args next =>
    if next.nextTok ≠ .closeparen then .fail .expctclose true
    else if ¬ func.Takes args.length then .fail .argmismat true
    else (advance next).bind fun _ next => parseComparisson atoi func args next

/-- `crule_parsefunction`. -/
def cruleParsefunction (st : Scan) : Parsed CRuleNode :=
  (takeWord st).bind fun funcname next =>
    if next.nextTok ≠ .openparen then .fail .expctopen false
    else
      match cruleFunc funcname with
      | none => .fail .unknwfunc false
      | some func => (advance next).bind fun _ next => (parseArguments atoi func next).link

/-- The two levels of the grammar that are chains of operands. -/
inductive Chain
  | andexpr | orexpr
deriving DecidableEq, Repr

def Chain.op : Chain → CruleToken
  | .andexpr => .and
  | .orexpr => .or

/-- What `arg[2]` of the operator's node says. -/
def Chain.isOr : Chain → Bool
  | .andexpr => false
  | .orexpr => true

/-- The error of an operator without a right operand. -/
def Chain.expct : Chain → CruleErrcode
  | .andexpr => .expctprim
  | .orexpr => .expctand

/-- Patch `arg[1]` of the chain's last operator, if there is one: `root` is its `arg[0]`. -/
def Chain.patch (c : Chain) (root : Option CRuleNode) (operand : CRuleNode) : CRuleNode :=
  match root with
  | none => operand
  | some arg0 => .andor c.isOr arg0 operand

/-- The loop that `crule_parseorexpr` and `crule_parseandexpr` have in common. `root` is `none` while
`*orrootp` is null, and else `arg[0]` of the node there, whose `arg[1]` is still to be patched. An
operator is taken without a look at the operand in front of it; only at the end of the chain a
missing operand is an error. -/
def parseChain (c : Chain) (parseOperand : Scan → Parsed CRuleNode) :
    ℕ → Option CRuleNode → Scan → Parsed CRuleNode
  | 0, _, _ => .timeout
  | fuel + 1, root, st =>
    match parseOperand st with
    | .ok operand next =>
      if next.nextTok = c.op then
        (advance next).link.bind fun _ next =>
          parseChain c parseOperand fuel (some (c.patch root operand)) next
      else if root ≠ none ∧ operand = .null then .fail c.expct true
      else .ok (c.patch root operand) next
    | .fail errcode linked =>
      if root = none then .fail errcode linked
      else if linked then .fail errcode true else .fail c.expct true
    | .fault => .fault
    | .timeout => .timeout

/-- `crule_parseandexpr`, given `crule_parseprimary`. -/
def parseandexprOf (parseprimary : Scan → Parsed CRuleNode) (st : Scan) : Parsed CRuleNode :=
  parseChain .andexpr parseprimary st.fuel none st

/-- `crule_parseorexpr`, given `crule_parseprimary`. -/
def parseorexprOf (parseprimary : Scan → Parsed CRuleNode) (st : Scan) : Parsed CRuleNode :=
  parseChain .orexpr (parseandexprOf parseprimary) st.fuel none st

/-- The case `CR_OPENPAREN` of `crule_parseprimary`. -/
def parseParen (parseorexpr : Scan → Parsed CRuleNode) (st : Scan) : Parsed CRuleNode :=
  (advance st).bind fun _ next => (parseorexpr next).bind fun node next =>
    if node = .null then .fail .expctand false
    else if next.nextTok ≠ .closeparen then .fail .expctclose true
    else (advance next).link.bind fun _ next => .ok node next

/-- `crule_parseprimary`. `negated` says that `!` has been read: `*primrootp` is not null any more,
and a primary has to follow. -/
def cruleParseprimary : ℕ → Bool → Scan → Parsed CRuleNode
  | 0, _, _ => .timeout
  | fuel + 1, negated, st =>
    match st.nextTok with
    | .openparen => parseParen (parseorexprOf (cruleParseprimary fuel false)) st
    | .not =>
      ((advance st).bind fun _ next => (cruleParseprimary fuel true next).bind fun arg0 next =>
        .ok (.not arg0) next).link
    | .word => cruleParsefunction atoi st
    | _ => if negated then .fail .expctprim true else .ok .null st

/-- `crule_parseorexpr`. -/
def cruleParseorexpr (st : Scan) : Parsed CRuleNode :=
  parseorexprOf (cruleParseprimary atoi st.fuel false) st

/-- The body of `_crule_parse` and `_crule_test`. -/
def parseRule (rule : List Char) : Parsed CRuleNode :=
  (scanAt rule).bind fun _ next => (cruleParseorexpr atoi next).bind fun ruleroot next =>
    if ruleroot = .null then .fail .expctor false
    else if next.nextTok ≠ .crEnd then .fail .unexpcttok true
    else .ok ruleroot next

/-- `_crule_parse`: the tree, or null; `none` if the behaviour is undefined. -/
def cruleParse (rule : List Char) : Option CRuleNode :=
  match parseRule atoi rule with
  | .ok ruleroot _ => some ruleroot
  | .fail _ _ => some .null
  | .fault | .timeout => none

/-- `_crule_test`: 0 if the rule parses, or the error code plus one; `none` if the behaviour is
undefined. -/
def cruleTest (rule : List Char) : Option ℕ :=
  match parseRule atoi rule with
  | .ok _ _ => some 0
  | .fail errcode _ => some (errcode.toNat + 1)
  | .fault | .timeout => none

end

/-! ## Evaluation -/

def ofTruth (p : Prop) [Decidable p] : ℤ := if p then 1 else 0

/-- The comparison of `_crule_eval`. -/
def FuncTest.passes : FuncTest → ℤ → ℤ → Prop
  | .equal, ret, value => ret = value
  | .lessThan, ret, value => ret < value
  | .moreThan, ret, value => ret > value

instance : (test : FuncTest) → (ret value : ℤ) → Decidable (test.passes ret value)
  | .equal, ret, value => inferInstanceAs (Decidable (ret = value))
  | .lessThan, ret, value => inferInstanceAs (Decidable (ret < value))
  | .moreThan, ret, value => inferInstanceAs (Decidable (ret > value))

/-- `_crule_eval`, with `crule__andor` and `crule__not`; `none` is the use of a null pointer. `call`
gives the results of the functions that the rule calls. -/
def cruleEval (call : CruleFunc → List (List Char) → ℤ) : CRuleNode → Option ℤ
  | .null => none
  | .func funcptr args none => some (call funcptr args)
  | .func funcptr args (some (test, value)) =>
    some (ofTruth (test.passes (call funcptr args) value))
  | .not arg0 => (cruleEval call arg0).map fun ret => ofTruth (ret = 0)
  | .andor isOr arg0 arg1 =>
    (cruleEval call arg0).bind fun result1 =>
      if isOr then
        if result1 ≠ 0 then some 1
        else (cruleEval call arg1).map fun ret => ofTruth (ret ≠ 0)
      else
        if result1 = 0 then some 0
        else (cruleEval call arg1).map fun ret => ofTruth (ret ≠ 0)

end ObbyIRCd.Crule
