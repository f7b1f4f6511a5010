import Mathlib.Data.Finset.Dedup
import Mathlib.Data.Finset.Empty
import Mathlib.Data.Char
import Mathlib.Data.List.Lex
import Mathlib.Order.Lattice
import ObbyIRCd.Conf.Timeval
import ObbyIRCd.Lib.Bytes
import ObbyIRCd.Lib.Keyed

/-!
# Server bans and their synchronisation

The entries of `tkl.c` (server bans, name bans, ban exceptions and spamfilters), how `tkl_sync` writes
them to a linked server, and what `cmd_tkl_add` does with such a line. A message is the list of its
parameters from `parv[1]` on, with the values of its `s2s-tkl/` tags; that a line is split into the
parameters it was written from is not modelled.

All entries are in one list. The source spreads them over hash buckets, and looks for an entry in the
bucket that it would be added to. Entries with a security group instead of a mask come from the
configuration file and are not global.
-/

namespace ObbyIRCd.Tkl

open Keyed

/-! ## Types -/

inductive ServerBanType
  | gline | kline | gzline | zline | shun
deriving DecidableEq, Repr

/-- The TKL types, where a `Bool` tells the global one from the local one. -/
inductive TklType
  | serverban (type : ServerBanType)
  | nameban (global : Bool)
  | spamfilter (global : Bool)
  | banexception (global : Bool)
deriving DecidableEq, Repr

/-- `tkl_types`: the letters of the types that can be added as a TKL. -/
def tklTypes : List (Char × TklType) :=
  [('G', .serverban .gline), ('k', .serverban .kline), ('Z', .serverban .gzline),
    ('z', .serverban .zline), ('F', .spamfilter true), ('Q', .nameban true),
    ('E', .banexception true), ('s', .serverban .shun), ('q', .nameban false),
    ('e', .banexception false), ('f', .spamfilter false)]

/-- `tkl_typetochar`. -/
def tklTypetochar : TklType → Char
  | .serverban .gline => 'G'
  | .serverban .kline => 'k'
  | .serverban .gzline => 'Z'
  | .serverban .zline => 'z'
  | .serverban .shun => 's'
  | .nameban true => 'Q'
  | .nameban false => 'q'
  | .spamfilter true => 'F'
  | .spamfilter false => 'f'
  | .banexception true => 'E'
  | .banexception false => 'e'

/-- `tkl_chartotype`. -/
def tklChartotype (c : Char) : Option TklType := (tklTypes.find? fun t => t.1 = c).map Prod.snd

/-- `TKL_GLOBAL`. -/
def TklType.isGlobal : TklType → Bool
  | .serverban .kline | .serverban .zline => false
  | .serverban _ => true
  | .nameban g | .spamfilter g | .banexception g => g

theorem tklChartotype_tklTypetochar (t : TklType) : tklChartotype (tklTypetochar t) = some t := by
  rcases t with (_ | _ | _ | _ | _) | (_ | _) | (_ | _) | (_ | _) <;> rfl

/-- What a spamfilter looks at: `spamfiltertargettable`. -/
inductive SpamfTarget
  | chanmsg | usermsg | usernotice | channotice | part | quit | dcc | user | away | topic | mtag | raw
deriving DecidableEq, Repr

def SpamfTarget.character : SpamfTarget → Char
  | .chanmsg => 'c'
  | .usermsg => 'p'
  | .usernotice => 'n'
  | .channotice => 'N'
  | .part => 'P'
  | .quit => 'q'
  | .dcc => 'd'
  | .user => 'u'
  | .away => 'a'
  | .topic => 't'
  | .mtag => 'T'
  | .raw => 'R'

/-- The rows of `spamfiltertargettable`, in its order. -/
def spamfilterTargetTable : List SpamfTarget :=
  [.chanmsg, .usermsg, .usernotice, .channotice, .part, .quit, .dcc, .user, .away, .topic, .mtag, .raw]

/-- `spamfilter_gettargets` without a client to complain to: unknown letters are skipped. -/
def spamfilterGettargets (s : List Char) : Finset SpamfTarget :=
  (spamfilterTargetTable.filter fun t => t.character ∈ s).toFinset

/-- `spamfilter_target_inttostring`. -/
def spamfilterTargetInttostring (target : Finset SpamfTarget) : List Char :=
  let buf := (spamfilterTargetTable.filter fun t => t ∈ target).map SpamfTarget.character
  if buf = [] then ['-'] else buf

/-- `BanActionValue`. -/
inductive BanAction
  | kill | softKill | tempshun | softTempshun | shun | softShun | kline | softKline | zline | gline
  | softGline | gzline | block | softBlock | dccblock | softDccblock | viruschan | softViruschan | warn
  | softWarn | set | report | stop
deriving DecidableEq, Repr

/-- `banacttable`: the letters of the actions. -/
def banactValtochar : BanAction → Char
  | .kill => 'K'
  | .softKill => 'i'
  | .tempshun => 'S'
  | .softTempshun => 'T'
  | .shun => 's'
  | .softShun => 'H'
  | .kline => 'k'
  | .softKline => 'I'
  | .zline => 'z'
  | .gline => 'g'
  | .softGline => 'G'
  | .gzline => 'Z'
  | .block => 'b'
  | .softBlock => 'B'
  | .dccblock => 'd'
  | .softDccblock => 'D'
  | .viruschan => 'v'
  | .softViruschan => 'V'
  | .warn => 'w'
  | .softWarn => 'W'
  | .set => '1'
  | .report => 'r'
  | .stop => '0'

/-- The rows of `banacttable`, in its order. -/
def banactTable : List BanAction :=
  [.kill, .softKill, .tempshun, .softTempshun, .shun, .softShun, .kline, .softKline, .zline, .gline,
    .softGline, .gzline, .block, .softBlock, .dccblock, .softDccblock, .viruschan, .softViruschan,
    .warn, .softWarn, .set, .report, .stop]

/-- `banact_chartoval`. -/
def banactChartoval (c : Char) : Option BanAction := banactTable.find? fun a => banactValtochar a = c

/-- `banact_config_only`. -/
def banactConfigOnly (a : BanAction) : Bool := a = .set || a = .report || a = .stop

theorem banactChartoval_banactValtochar (a : BanAction) :
    banactChartoval (banactValtochar a) = some a := by
  cases a <;> rfl

theorem spamfilterTargetTable_complete (t : SpamfTarget) : t ∈ spamfilterTargetTable := by
  cases t <;> decide

theorem character_injective : Function.Injective SpamfTarget.character := by
  intro t u h
  cases t <;> cases u <;> first | rfl | exact absurd h (by decide)

theorem spamfilterGettargets_inttostring {target : Finset SpamfTarget} (hne : target ≠ ∅) :
    spamfilterGettargets (spamfilterTargetInttostring target) = target := by
  obtain ⟨t, ht⟩ := Finset.nonempty_iff_ne_empty.mpr hne
  have hmem : ∀ u, u.character ∈ (spamfilterTargetTable.filter fun t => t ∈ target).map
      SpamfTarget.character ↔ u ∈ target := by
    intro u
    rw [List.mem_map_of_injective character_injective]
    simp [spamfilterTargetTable_complete]
  have hbuf := List.ne_nil_of_mem ((hmem t).mpr ht)
  unfold spamfilterGettargets spamfilterTargetInttostring
  ext u
  rw [if_neg hbuf]
  simp only [List.mem_toFinset, List.mem_filter, hmem, decide_eq_true_eq]
  exact and_iff_right (spamfilterTargetTable_complete u)

/-- `MatchType`. -/
inductive MatchType
  | simple | regex | none
deriving DecidableEq, Repr

/-- `unreal_match_method_strtoval`. -/
def unrealMatchMethodStrtoval (str : List Char) : Option MatchType :=
  if str = "regex".toList ∨ str = "pcre".toList then some .regex
  else if str = "simple".toList ∨ str = "glob".toList then some .simple
  else if str = "none".toList then some .none
  else Option.none

/-- `unreal_match_method_valtostr`. -/
def unrealMatchMethodValtostr : MatchType → List Char
  | .regex => "regex".toList
  | .simple => "simple".toList
  | .none => "none".toList

theorem unrealMatchMethodStrtoval_valtostr (m : MatchType) :
    unrealMatchMethodStrtoval (unrealMatchMethodValtostr m) = some m := by
  cases m <;> decide

/-! ## Entries -/

/-- `ptr` of a TKL entry, the part that differs from kind to kind. -/
inductive Ptr
  | serverban (type : ServerBanType) (soft : Bool) (usermask hostmask reason : List Char)
  | banexception (global soft : Bool) (usermask hostmask bantypes reason : List Char)
  | nameban (global hold : Bool) (name reason : List Char)
  | spamfilter (global : Bool) (target : Finset SpamfTarget) (action : BanAction)
      (matchType : MatchType) (matchString : List Char) (tklDuration : ℤ) (tklReason : List Char)
deriving DecidableEq

/-- `tkl->type`. -/
def Ptr.type : Ptr → TklType
  | .serverban type _ _ _ _ => .serverban type
  | .banexception global _ _ _ _ _ => .banexception global
  | .nameban global _ _ _ => .nameban global
  | .spamfilter global _ _ _ _ _ _ => .spamfilter global

structure Entry where
  ptr : Ptr
  setBy : List Char
  setAt : ℤ
  expireAt : ℤ
  id : List Char
  spamfilterId : List Char
deriving DecidableEq

/-- What an entry is looked up by. Masks and names are compared by `strcasecmp`, so that they are kept
in lower case here. -/
inductive Key
  | serverban (type : ServerBanType) (soft : Bool) (usermask hostmask : List Char)
  | banexception (global soft : Bool) (usermask hostmask : List Char)
  | nameban (global : Bool) (name : List Char)
  | spamfilter (global : Bool) (target : Finset SpamfTarget) (action : BanAction)
      (matchString : List Char)
deriving DecidableEq

def Key.isGlobal : Key → Bool
  | .serverban type _ _ _ => (TklType.serverban type).isGlobal
  | .banexception global _ _ _ | .nameban global _ | .spamfilter global _ _ _ => global

/-- The key of an entry. The `hold` of a name ban and the match type of a spamfilter are not part of
it. -/
def Ptr.key : Ptr → Key
  | .serverban type soft usermask hostmask _ =>
    .serverban type soft (lower usermask) (lower hostmask)
  | .banexception global soft usermask hostmask _ _ =>
    .banexception global soft (lower usermask) (lower hostmask)
  | .nameban global _ name _ => .nameban global (lower name)
  | .spamfilter global target action _ matchString _ _ => .spamfilter global target action matchString

variable (tkl : Entry)

abbrev Entry.key : Key := tkl.ptr.key

variable (tklines : List Entry)

/-- `find_tkl_serverban`. -/
def findTklServerban (type : ServerBanType) (usermask hostmask : List Char)
    (softban : Bool) : Option Entry :=
  find Entry.key tklines (.serverban type softban (lower usermask) (lower hostmask))

/-- `find_tkl_banexception`. -/
def findTklBanexception (global : Bool) (usermask hostmask : List Char)
    (softban : Bool) : Option Entry :=
  find Entry.key tklines (.banexception global softban (lower usermask) (lower hostmask))

/-- `find_tkl_nameban`, which does not look at `hold`. -/
def findTklNameban (global : Bool) (name : List Char) (_hold : Bool) : Option Entry :=
  find Entry.key tklines (.nameban global (lower name))

/-- `find_tkl_spamfilter`. -/
def findTklSpamfilter (global : Bool) (matchString : List Char)
    (action : BanAction) (target : Finset SpamfTarget) : Option Entry :=
  find Entry.key tklines (.spamfilter global target action matchString)

/-- The lookup that `cmd_tkl_add` makes before it adds an entry. -/
def findTkl : Ptr → Option Entry
  | .serverban type soft usermask hostmask _ => findTklServerban tklines type usermask hostmask soft
  | .banexception global soft usermask hostmask _ _ =>
    findTklBanexception tklines global usermask hostmask soft
  | .nameban global hold name _ => findTklNameban tklines global name hold
  | .spamfilter global target action _ matchString _ _ =>
    findTklSpamfilter tklines global matchString action target

theorem findTkl_eq_find (ptr : Ptr) :
    findTkl tklines ptr = find Entry.key tklines ptr.key := by
  cases ptr <;> rfl

/-! ## Messages -/

/-- A `TKL` message: the parameters from `parv[1]` on, and the tags. -/
structure Message where
  parv : List (List Char)
  /-- `s2s-tkl/id`. -/
  id : Option (List Char)
  /-- `s2s-tkl/spamfilter_id`. -/
  spamfilterId : Option (List Char)
deriving DecidableEq

/-- `tkl_s2s_get_id` and `tkl_s2s_get_spamfilter_id`: a blank id makes no tag. -/
def tklS2sGetId (id : List Char) : Option (List Char) := if id = [] then none else some id

/-- How a user mask is written: with a percent sign for a soft ban, and as an asterisk if it is
empty. -/
def usermaskText (soft : Bool) (usermask : List Char) : List Char :=
  (if soft then ['%'] else []) ++ (if usermask = [] then ['*'] else usermask)

/-- The parameters that `tkl_sync_send_entry` writes. -/
def tklSyncParv : List (List Char) :=
  let typ := [tklTypetochar tkl.ptr.type]
  match tkl.ptr with
  | .serverban _ soft usermask hostmask reason =>
    [['+'], typ, usermaskText soft usermask, hostmask, tkl.setBy, lld tkl.expireAt, lld tkl.setAt,
      reason]
  | .nameban _ hold name reason =>
    [['+'], typ, [if hold then 'H' else '*'], name, tkl.setBy, lld tkl.expireAt, lld tkl.setAt, reason]
  | .spamfilter _ target action matchType matchString tklDuration tklReason =>
    [['+'], typ, spamfilterTargetInttostring target, [banactValtochar action], tkl.setBy,
      lld tkl.expireAt, lld tkl.setAt, lld tklDuration, tklReason,
      unrealMatchMethodValtostr matchType, matchString]
  | .banexception _ soft usermask hostmask bantypes reason =>
    [['+'], typ, usermaskText soft usermask, hostmask, tkl.setBy, lld tkl.expireAt, lld tkl.setAt,
      bantypes, reason]

/-- `tkl_sync_send_entry` with `add`: a local entry is not sent. -/
def tklSyncSendEntry : Option Message :=
  if tkl.ptr.type.isGlobal then
    some ⟨tklSyncParv tkl, tklS2sGetId tkl.id, tklS2sGetId tkl.spamfilterId⟩
  else none

/-- `tkl_sync`. -/
def tklSync : List Message := tklines.filterMap tklSyncSendEntry

/-! ## Adding an entry -/

/-- Code that is only called here. -/
structure Env where
  /-- `short_date`: whether the C library can print the time. -/
  shortDate : ℤ → Bool
  /-- Whether `pcre2_compile` accepts a regular expression. -/
  pcre2Compile : List Char → Bool

/-- A server on which every date is printed and every expression compiles. -/
def plainEnv : Env := ⟨fun _ => true, fun _ => true⟩

/-- `TKLIDLEN`. -/
def tklIdLen : ℕ := 16

/-- `tkl_s2s_set_id` and `tkl_s2s_set_spamfilter_id` on an entry that has none: only an id that fits is
taken. -/
def tklS2sSetId : Option (List Char) → List Char
  | some value => if value.length < tklIdLen then value else []
  | none => []

/-- The user mask of a message without the percent sign of a soft ban, and whether it had one. -/
def stripSoft : List Char → Bool × List Char
  | '%' :: usermask => (true, usermask)
  | usermask => (false, usermask)

/-- The validation in `cmd_tkl_add` that depends on the type, given `parv[3]`, `parv[4]`, `parv[8]` and
the parameters after that. -/
def readPtr (type : TklType) (parv3 parv4 parv8 : List Char) (rest : List (List Char)) :
    Option Ptr :=
  match type with
  | .serverban type =>
    if '@' ∈ parv3 ∨ '@' ∈ parv4 then none
    else some (.serverban type (stripSoft parv3).1 (stripSoft parv3).2 parv4 parv8)
  | .banexception global =>
    match rest with
    | [] => none
    | reason :: _ =>
      if '@' ∈ parv3 ∨ '@' ∈ parv4 then none
      else some (.banexception global (stripSoft parv3).1 (stripSoft parv3).2 parv4 parv8 reason)
  | .nameban global => some (.nameban global (parv3.head? = some 'H') parv4 parv8)
  | .spamfilter global =>
    match rest with
    | tklReason :: parv10 :: matchString :: _ => do
      let matchMethod ← unrealMatchMethodStrtoval parv10
      let target := spamfilterGettargets parv3
      let action ← parv4.head?.bind banactChartoval
      if target = ∅ ∨ banactConfigOnly action then none
      else some (.spamfilter global target action matchMethod matchString
        (Conf.checkvalTime false [] parv8) tklReason)
    | _ => none

/-- The entry that a message describes, if `cmd_tkl_add` finds it valid. -/
def readTkl (env : Env) (msg : Message) : Option Entry :=
  match msg.parv with
  | _ :: parv2 :: parv3 :: parv4 :: parv5 :: parv6 :: parv7 :: parv8 :: rest => do
    let type ← parv2.head?.bind tklChartotype
    let expireAt := atol parv6
    let setAt := atol parv7
    if setAt < 0 ∨ env.shortDate setAt = false then none
    else if expireAt < 0 ∨ env.shortDate expireAt = false then none
    else
      let ptr ← readPtr type parv3 parv4 parv8 rest
      some ⟨ptr, parv5, setAt, expireAt, tklS2sSetId msg.id, tklS2sSetId msg.spamfilterId⟩
  | _ => none

/-- `unreal_create_match` for a spamfilter; other entries have nothing to compile. -/
def createsMatch (env : Env) : Ptr → Bool
  | .spamfilter _ _ _ .regex matchString _ _ => env.pcre2Compile matchString
  | _ => true

/-- Whether an existing entry takes the id of a message over: an assigned id beats a blank one, then the
older entry wins, then the smaller id. -/
def takesId (incoming : Entry) : Bool :=
  incoming.id ≠ [] && tkl.id ≠ incoming.id &&
    (tkl.id = [] || incoming.setAt < tkl.setAt ||
      (incoming.setAt = tkl.setAt && incoming.id < tkl.id))

/-- Whether the fields that all kinds share differ so that they are merged. -/
def takesTimes (incoming : Entry) : Bool :=
  incoming.setAt < tkl.setAt || incoming.expireAt ≠ tkl.expireAt || tkl.setBy ≠ incoming.setBy

/-- Of two expiry times the longer one, where 0 is never. -/
def mergeExpire (a b : ℤ) : ℤ := if a = 0 ∨ b = 0 then 0 else max a b

/-- What `cmd_tkl_add` makes of an entry that exists. -/
def mergeTkl (incoming : Entry) : Entry :=
  let withId := if takesId tkl incoming then
    { tkl with id := incoming.id, spamfilterId := incoming.spamfilterId } else tkl
  if takesTimes tkl incoming then
    { withId with
      setAt := min tkl.setAt incoming.setAt
      expireAt := mergeExpire tkl.expireAt incoming.expireAt
      setBy := if tkl.setBy < incoming.setBy then incoming.setBy else tkl.setBy }
  else withId

/-- What `cmd_tkl_add` leaves. -/
structure Result where
  tklines : List Entry
  broadcast : Option Entry

/-- `cmd_tkl_add` for a message of another server. -/
def cmdTklAdd (env : Env) (tklines : List Entry) (msg : Message) : Result :=
  match readTkl env msg with
  | none => ⟨tklines, none⟩
  | some incoming =>
    let sent (changed : Bool) (tkl : Entry) : Option Entry :=
      if changed && incoming.ptr.type.isGlobal then some tkl else none
    match findTkl tklines incoming.ptr with
    | some tkl =>
      ⟨modify Entry.key incoming.key (mergeTkl · incoming) tklines,
        sent (takesId tkl incoming || takesTimes tkl incoming) (mergeTkl tkl incoming)⟩
    | none =>
      if createsMatch env incoming.ptr then ⟨incoming :: tklines, sent true incoming⟩
      else ⟨tklines, none⟩

end ObbyIRCd.Tkl
