import Mathlib.Data.List.Sort
import Mathlib.Data.Set.List
import ObbyIRCd.Channeldb.Reload
import ObbyIRCd.Database.Migrate

/-!
# Channels of the migration tool

`channeldb.go` writes the channels of a bundle as a file of version 101, and `read_channeldb` reads it. A
channel is written as an entry that the server could have written (`Ir.Channel.raw`), so each channel is
restored on its own. The letters of the modes are written in the order of the bundle and the parameters in
the order of their keys, and the server gives each letter the next parameter. So a channel loads as it was
if the two orders are the same (`Settable`), and +P is always set.

The report, the dry run and the replacement of the file are not modelled.
-/

namespace ObbyIRCd.Channeldb

open List
open CStr (ofBuffer)

open Database Chanmode

variable {C : Crypto}

/-! ## The bundle -/

/-- `ir.ChannelModes`. The map of the parameters is a list of its keys with their values. -/
structure Ir.ChannelModes where
  set : List UInt8
  params : List (List UInt8 × List UInt8)
  nodup : (params.map Prod.fst).Nodup

/-- `ir.ChannelModeLock`. -/
structure Ir.ChannelModeLock where
  on : List UInt8
  off : List UInt8
  limit : ℤ
  key : List UInt8

/-- `ir.ACLEntry`. Times are in seconds, and the zero time is `none`. -/
structure Ir.ACLEntry where
  account : List UInt8
  mask : List UInt8
  modes : List UInt8
  setBy : List UInt8
  setAt : Option Int64

/-- `ir.Akick`. -/
structure Ir.Akick where
  account : List UInt8
  mask : List UInt8
  setBy : List UInt8
  setAt : Option Int64

/-- `ir.Channel`. -/
structure Ir.Channel where
  name : List UInt8
  registeredAt : Option Int64
  founder : List UInt8
  successor : List UInt8
  topic : List UInt8
  topicSetBy : List UInt8
  topicSetAt : Option Int64
  modes : Ir.ChannelModes
  modeLock : Ir.ChannelModeLock
  acl : List Ir.ACLEntry
  akicks : List Ir.Akick

/-! ## The writer -/

/-- `listEntry`. -/
structure ListEntry where
  banstr : List UInt8
  who : List UInt8
  when : Int64

variable (m : Ir.ChannelModes)

/-- `keys`, in their order. -/
def Ir.ChannelModes.keys : List (List UInt8) :=
  (m.params.map Prod.fst).insertionSort (· ≤ ·)

/-- `ch.Modes.Params[k]`. -/
def Ir.ChannelModes.param (k : List UInt8) : List UInt8 :=
  ((Keyed.find Prod.fst m.params k).map Prod.snd).getD []

/-- `buildModes`. -/
def Ir.ChannelModes.buildModes : List UInt8 × List UInt8 :=
  let modes := if m.set ≠ [] then letter '+' :: m.set else []
  let modes :=
    if letter 'P' ∈ modes then modes
    else (if modes = [] then [letter '+'] else modes) ++ [letter 'P']
  let params := m.keys.foldl
    (fun params k => (if params ≠ [] then params ++ [letter ' '] else params) ++ m.param k) []
  (modes, params)

/-- `buildModeLock`. -/
def Ir.ChannelModeLock.buildModeLock (l : Ir.ChannelModeLock) : List UInt8 :=
  if l.on = [] ∧ l.off = [] ∧ l.limit = 0 ∧ l.key = [] then []
  else
    (if l.on ≠ [] then letter '+' :: l.on else []) ++ if l.off ≠ [] then letter '-' :: l.off else []

def setter (setBy : List UInt8) : List UInt8 := if setBy = [] then ascii "imported" else setBy

/-- The loop of `buildAkickBans`. -/
def Ir.Akick.entry (k : Ir.Akick) : Option ListEntry :=
  if k.account ≠ [] then
    some ⟨ascii "~account:" ++ k.account, setter k.setBy, unixOrZeroSigned k.setAt⟩
  else if k.mask ≠ [] then some ⟨k.mask, setter k.setBy, unixOrZeroSigned k.setAt⟩
  else none

variable (ch : Ir.Channel)

/-- `buildAkickBans`. -/
def Ir.Channel.buildAkickBans : List ListEntry := ch.akicks.filterMap Ir.Akick.entry

/-- `aclHasFounder`. -/
def Ir.Channel.aclHasFounder : Bool :=
  ch.acl.any fun e => e.account = ch.founder && e.modes.contains (letter 'q')

/-- The loop of `buildAclExempts`. -/
def Ir.ACLEntry.entry (e : Ir.ACLEntry) : Option ListEntry :=
  if e.modes = [] then none
  else if e.account ≠ [] then
    some ⟨ascii "~automode:" ++ e.modes ++ ascii ":~account:" ++ e.account, setter e.setBy,
      unixOrZeroSigned e.setAt⟩
  else if e.mask ≠ [] then
    some ⟨ascii "~automode:" ++ e.modes ++ ascii ":" ++ e.mask, setter e.setBy,
      unixOrZeroSigned e.setAt⟩
  else none

def Ir.Channel.owner (account : List UInt8) : ListEntry :=
  ⟨ascii "~automode:q:~account:" ++ account, ascii "imported", unixOrZeroSigned ch.registeredAt⟩

/-- `buildAclExempts`. -/
def Ir.Channel.buildAclExempts : List ListEntry :=
  (if ch.founder ≠ [] ∧ ch.aclHasFounder = false then [ch.owner ch.founder] else []) ++
    (if ch.successor ≠ [] then [ch.owner ch.successor] else []) ++ ch.acl.filterMap Ir.ACLEntry.entry

/-- `writeListMode`. -/
def writeListMode (entries : List ListEntry) : List Field :=
  .uint32 (UInt32.ofNat entries.length) ::
    entries.flatMap fun e => [.str e.banstr, .str e.who, .uint64 e.when.toUInt64]

/-- `unixOrNow`, where `now` is `time.Now`. -/
def unixOrNow (now : Int64) (t : Option Int64) : Int64 := t.getD now

/-- `writeChannelEntry`. -/
def Ir.Channel.fields (now : Int64) (ch : Ir.Channel) : List Field :=
  .uint32 magicChannelStart ::
    ([.str ch.name, .uint64 (unixOrNow now ch.registeredAt).toUInt64, .str ch.topic,
      .str ch.topicSetBy, .uint64 (unixOrZeroSigned ch.topicSetAt).toUInt64,
      .str ch.modes.buildModes.1, .str ch.modes.buildModes.2, .str ch.modeLock.buildModeLock,
      .str ch.founder, .uint64 (unixOrZeroSigned ch.registeredAt).toUInt64] ++
    (writeListMode ch.buildAkickBans ++ (writeListMode ch.buildAclExempts ++
      (writeListMode [] ++ [.uint32 magicChannelEnd]))))

variable (channels : List (Int64 × Ir.Channel))

/-- What `WriteChannelDB` writes. Each channel comes with the time at which it is written. -/
def channeldbFields : List Field :=
  .uint32 channeldbVersion :: .uint64 (UInt64.ofNat channels.length) ::
    channels.flatMap fun ch => ch.2.fields ch.1

/-- `WriteChannelDB`. -/
def writeChannelDB : Option (List UInt8) :=
  writeFields (channeldbFields channels)

/-! ## The file -/

def ListEntry.raw (e : ListEntry) : RawBan :=
  ⟨ofBuffer e.banstr, ofBuffer e.who, e.when.toUInt64⟩

def Ir.Channel.entries : ListMode → List ListEntry
  | .ban => ch.buildAkickBans
  | .except => ch.buildAclExempts
  | .invex => []

def Ir.Channel.raw (now : Int64) (ch : Ir.Channel) : Raw where
  head :=
    { name := ofBuffer ch.name
      creationtime := (unixOrNow now ch.registeredAt).toUInt64
      topic := some (ofBuffer ch.topic)
      topicNick := some (ofBuffer ch.topicSetBy)
      topicTime := (unixOrZeroSigned ch.topicSetAt).toUInt64
      modes1 := ofBuffer ch.modes.buildModes.1
      modes2 := ofBuffer ch.modes.buildModes.2
      modeLock := some (ofBuffer ch.modeLock.buildModeLock)
      registeredBy := some (ofBuffer ch.founder)
      registeredAt := (unixOrZeroSigned ch.registeredAt).toUInt64 }
  lists l := (ch.entries l).map ListEntry.raw

theorem record_writeListMode (entries : List ListEntry) :
    (writeListMode entries).map Field.record = listRecords (entries.map ListEntry.raw) := by
  unfold writeListMode listRecords
  rw [map_cons, map_flatMap, flatMap_map, length_map]
  rfl

theorem record_fields (now : Int64) (ch : Ir.Channel) :
    (ch.fields now).map Field.record = (ch.raw now).records := by
  unfold Ir.Channel.fields
  rw [map_cons, map_append, map_append, map_append, record_writeListMode, record_writeListMode]
  rfl

theorem record_channeldbFields : (channeldbFields channels).map Field.record =
      channeldbRecords (channels.map fun ch => ch.2.raw ch.1) := by
  have hfields : (channels.flatMap fun ch => ch.2.fields ch.1).map Field.record =
      (channels.map fun ch => ch.2.raw ch.1).flatMap Raw.records := by
    rw [map_flatMap, flatMap_map]
    exact flatMap_congr fun ch _ => record_fields ch.1 ch.2
  unfold channeldbFields channeldbRecords
  rw [map_cons, map_cons, hfields, length_map]
  rfl

/-! ## Letters and parameters -/

/-- The characters of a string of the tool. -/
def letters (s : List UInt8) : List Char := s.map fun b => Char.ofNat b.toNat

variable {s : List UInt8}

theorem chars_ofBuffer (hs : NulFree s) : chars (ofBuffer s) = letters s := by
  unfold chars letters
  rw [bytes_ofBuffer hs]

theorem letter_mem_iff {c : Char} (hc : c.toNat < 256) : letter c ∈ s ↔ c ∈ letters s := by
  unfold letters
  rw [List.mem_map]
  constructor
  · exact fun h => ⟨_, h, ofNat_letter hc⟩
  · rintro ⟨b, hb, rfl⟩
    rwa [letter_ofNat]

def takesParam (c : Char) : Bool := allChannelmodes.any fun cm => cm.letter = c && cm.hasParam

theorem takesParam_letter : ∀ cm ∈ allChannelmodes, takesParam cm.letter = cm.hasParam := by decide

/-- The modes of a bundle that a server sets as they are. The letters are different ones, of loaded modes
of the channel, and those with a parameter stand in the order of the keys. Each parameter is as a server
prints it and not empty, and +H is within the limits that apply when the letter is reached. -/
structure Ir.ChannelModes.Settable (cfg : Config) (name : List Char) (m : Ir.ChannelModes) : Prop where
  permanent : cfg.loaded 'P' = true
  loaded : ∀ c ∈ letters m.set, ∃ cm ∈ cfg.channelmodes, cm.letter = c ∧ cm.isLocal = false ∧
    ∀ p r, cm.kind ≠ .member p r
  nodup : (letters m.set).Nodup
  secrecy : ¬('s' ∈ letters m.set ∧ 'p' ∈ letters m.set)
  order : m.keys = ((letters m.set).filter takesParam).map fun c => [letter c]
  params : ∀ pm : ParamMode, pm.letter ∈ letters m.set →
    ∃ v, letters (m.param [letter pm.letter]) = pm.getParam v ∧ pm.Valid cfg.toParamConfig name v ∧
      pm.getParam v ≠ []
  history : 'H' ∈ letters m.set → 'r' ∈ (letters m.set).takeWhile (· ≠ 'H') ∨
    ∀ v, HistoryChanMode.Valid v → letters (m.param [letter 'H']) = ParamMode.history.getParam v →
      HistoryChanMode.Within v cfg.unregistered

def Ir.ChannelModes.allLetters : List Char :=
  letters m.set ++ if 'P' ∈ letters m.set then [] else ['P']

theorem mem_allLetters {m : Ir.ChannelModes} {c : Char} :
    c ∈ m.allLetters ↔ c ∈ letters m.set ∨ c = 'P' := by
  unfold Ir.ChannelModes.allLetters
  split
  · rename_i hP
    rw [append_nil]
    exact ⟨.inl, fun h => h.elim id fun h => h ▸ hP⟩
  · rw [mem_append, mem_singleton]

theorem letters_buildModes : letters m.buildModes.1 = '+' :: m.allLetters := by
  have hmem : letter 'P' ∈ letter '+' :: m.set ↔ 'P' ∈ letters m.set := by
    rw [List.mem_cons, letter_mem_iff (by decide)]
    exact or_iff_right (by decide)
  unfold Ir.ChannelModes.buildModes Ir.ChannelModes.allLetters
  dsimp only
  by_cases hset : m.set = []
  · rw [hset]
    decide
  rw [if_pos hset]
  by_cases hP : 'P' ∈ letters m.set
  · rw [if_pos (hmem.mpr hP), if_pos hP, List.append_nil]
    rfl
  rw [if_neg (mt hmem.mp hP), if_neg hP]
  unfold letters
  rw [List.map_append]
  rfl

theorem letters_buildModes_params {m : Ir.ChannelModes} (hparams : ∀ k ∈ m.keys, m.param k ≠ []) :
    letters m.buildModes.2 = (unwords ' ' (m.keys.map fun k => letters (m.param k))).dropLast := by
  have hjoin : m.buildModes.2 = (unwords (letter ' ') (m.keys.map m.param)).dropLast := by
    have hne : ∀ w ∈ m.keys.map m.param, w ≠ [] := forall_mem_map.mpr hparams
    rw [← foldl_join (letter ' ') hne, foldl_map]
    rfl
  rw [hjoin]
  unfold letters unwords
  rw [map_dropLast, map_flatMap, flatMap_map, flatMap_map]
  simp only [map_append, map_singleton]
  rfl

/-- What comes before the first `y` comes before any `y`. -/
theorem mem_of_mem_takeWhile_ne {x y : Char} {l rest early late : List Char}
    (hsplit : l ++ rest = early ++ y :: late) (hearly : y ∉ early)
    (hx : x ∈ l.takeWhile (· ≠ y)) : x ∈ early := by
  have hne : ∀ c ∈ early, decide (c ≠ y) = true := fun c hc =>
    decide_eq_true fun h => hearly (h ▸ hc)
  have htake : (l ++ rest).takeWhile (· ≠ y) = early := by
    rw [hsplit, takeWhile_append_of_pos hne, takeWhile_cons_of_neg (by simp), append_nil]
  rw [← htake, takeWhile_append]
  split
  · exact mem_append_left _ ((takeWhile_sublist _).subset hx)
  · exact hx

theorem param_letter_ne (pm : ParamMode) : pm.letter ≠ 'P' := by cases pm <;> decide

/-! ## The modes that are set -/

structure Ir.ChannelModes.Describes (cfg : Config) (name : List Char) (m : Ir.ChannelModes)
    (their : Chanmode.Channel) : Prop where
  valid : their.Valid cfg
  name : their.name = name
  mode : ∀ c, their.mode c = decide (c ∈ m.allLetters)
  param : ∀ pm, their.getParameter pm =
    if pm.letter ∈ letters m.set then some (letters (m.param [letter pm.letter])) else none

namespace Ir.ChannelModes.Settable

variable {cfg : Config} {name : List Char} {m : Ir.ChannelModes} (hm : m.Settable cfg name)
include hm

theorem mem_channelmodes {c : Char} (hc : c ∈ m.allLetters) :
    ∃ cm ∈ cfg.channelmodes, cm.letter = c ∧ cm.isLocal = false ∧ ∀ p r, cm.kind ≠ .member p r := by
  rcases mem_allLetters.mp hc with hc | rfl
  · exact hm.loaded c hc
  · exact ⟨⟨'P', .simple, false⟩, Chanmode.mem_channelmodes.mpr ⟨by decide, hm.permanent⟩, rfl, rfl,
      fun p r h => by cases h⟩

theorem exists_describes : ∃ their, m.Describes cfg name their := by
  have hvalue : ∀ pm : ParamMode, ∃ o : Option pm.Value,
      (pm.letter ∈ letters m.set → ∃ v, o = some v ∧
        letters (m.param [letter pm.letter]) = pm.getParam v ∧ pm.Valid cfg.toParamConfig name v) ∧
      (pm.letter ∉ letters m.set → o = none) := by
    intro pm
    by_cases hin : pm.letter ∈ letters m.set
    · obtain ⟨v, htext, hvalid, -⟩ := hm.params pm hin
      exact ⟨some v, fun _ => ⟨v, rfl, htext, hvalid⟩, fun h => absurd hin h⟩
    · exact ⟨none, fun h => absurd h hin, fun _ => rfl⟩
  choose params hset hunset using hvalue
  have hletter : ∀ pm : ParamMode, pm.letter ∈ m.allLetters ↔ pm.letter ∈ letters m.set := fun pm => by
    rw [mem_allLetters, or_iff_left (param_letter_ne pm)]
  refine ⟨⟨name, 0, fun c => decide (c ∈ m.allLetters), params, fun _ => [], []⟩,
    ⟨fun pm h => ?_, fun pm _ h => ?_, fun c h => ?_⟩, rfl, fun c => rfl, fun pm => ?_⟩
  · obtain ⟨v, hv, -, hvalid⟩ := hset pm ((hletter pm).mp (of_decide_eq_true h))
    exact ⟨v, hv, hvalid⟩
  · exact hunset pm fun hin => of_decide_eq_false h ((hletter pm).mpr hin)
  · obtain ⟨cm, hcm, hletter, -, hkind⟩ := hm.mem_channelmodes (of_decide_eq_true h)
    exact ⟨cm, hcm, hletter, hkind⟩
  · show (params pm).map pm.getParam = _
    split
    · rename_i hin
      obtain ⟨v, hv, htext, -⟩ := hset pm hin
      rw [hv, htext]
      rfl
    · rename_i hin
      rw [hunset pm hin]
      rfl

/-- No parameter is empty. -/
theorem param_ne {k : List UInt8} (hk : k ∈ m.keys) : m.param k ≠ [] := by
  rw [hm.order] at hk
  obtain ⟨c, hc, rfl⟩ := mem_map.mp hk
  obtain ⟨hc, htakes⟩ := mem_filter.mp hc
  obtain ⟨cm, hcm, hparam⟩ := any_eq_true.mp htakes
  obtain ⟨hletter, hparam⟩ := Bool.and_eq_true_iff.mp hparam
  rcases hkind : cm.kind with - | pm | ⟨p, r⟩
  · simp [Cmode.hasParam, hkind] at hparam
  · obtain rfl : pm.letter = c := (letter_of_param hcm hkind).1.symm.trans (of_decide_eq_true hletter)
    obtain ⟨v, htext, -, hne⟩ := hm.params pm hc
    rintro hempty
    rw [hempty] at htext
    exact hne htext.symm
  · simp [Cmode.hasParam, hkind] at hparam

theorem nodup_allLetters : m.allLetters.Nodup := by
  unfold Ir.ChannelModes.allLetters
  split
  · rw [append_nil]
    exact hm.nodup
  · rename_i hP
    exact nodup_append.mpr ⟨hm.nodup, nodup_singleton _, fun c hc d hd =>
      mem_singleton.mp hd ▸ fun h => hP (h ▸ hc)⟩

variable {their : Chanmode.Channel} (htheir : m.Describes cfg name their)
include htheir

theorem exists_sent :
    ∃ l : List Cmode, l.map Cmode.letter = m.allLetters ∧ ∀ cm ∈ l, Sent cfg their cm := by
  have hrange : m.allLetters ∈ Set.range (map fun x : {cm // Sent cfg their cm} => x.1.letter) := by
    rw [Set.range_list_map]
    intro c hc
    obtain ⟨cm, hcm, rfl, hlocal, hkind⟩ := hm.mem_channelmodes hc
    have hmode : their.mode cm.letter = true := (htheir.mode _).trans (decide_eq_true hc)
    exact ⟨⟨cm, hcm, hlocal, hkind, hmode⟩, rfl⟩
  obtain ⟨l, hl⟩ := hrange
  refine ⟨l.map Subtype.val, ?_, fun cm hcm => ?_⟩
  · rw [map_map]
    exact hl
  · obtain ⟨x, -, rfl⟩ := mem_map.mp hcm
    exact x.2

variable {l : List Cmode} (hletters : l.map Cmode.letter = m.allLetters)
  (hl : ∀ cm ∈ l, Sent cfg their cm)
include hletters hl

theorem filterMap_paramText :
    l.filterMap their.paramText = m.keys.map fun k => letters (m.param k) := by
  have htext : ∀ cm ∈ l, their.paramText cm =
      if takesParam cm.letter then some (letters (m.param [letter cm.letter])) else none := by
    intro cm hcm
    have hsent := hl cm hcm
    have hmem := (Chanmode.mem_channelmodes.mp hsent.mem).1
    rw [takesParam_letter cm hmem]
    unfold Channel.paramText Cmode.hasParam
    rcases hkind : cm.kind with - | pm | ⟨p, r⟩
    · rfl
    · have hletter := (letter_of_param hmem hkind).1
      have hin : pm.letter ∈ letters m.set := by
        have hall : cm.letter ∈ m.allLetters := hletters ▸ mem_map_of_mem hcm
        rw [hletter] at hall
        exact (mem_allLetters.mp hall).resolve_right (param_letter_ne pm)
      simp [htheir.param, hin, hletter]
    · exact absurd hkind (hsent.notMember p r)
  let text (c : Char) : Option (List Char) :=
    if takesParam c then some (letters (m.param [letter c])) else none
  calc l.filterMap their.paramText
      = l.filterMap (text ∘ Cmode.letter) := filterMap_congr htext
    _ = m.allLetters.filterMap text := by rw [← filterMap_map, hletters]
    _ = (letters m.set).filterMap text := by
      unfold Ir.ChannelModes.allLetters
      split <;> simp [text, show takesParam 'P' = false from rfl]
    _ = ((letters m.set).filter takesParam).map fun c => letters (m.param [letter c]) := by
      rw [← filterMap_eq_map', filterMap_filter]
    _ = m.keys.map fun k => letters (m.param k) := by
      rw [hm.order, map_map]
      rfl

theorem setChannelMode_eq {env : Env} (henv : env.cfg = cfg) {base : Chanmode.Channel} (hbase : base.Valid cfg)
    (hname : base.name = name) (hnul : NulFree m.buildModes.1 ∧ NulFree m.buildModes.2) :
    setChannelMode env (chars (ofBuffer m.buildModes.1)) (chars (ofBuffer m.buildModes.2))
      base = l.foldl (Channel.receive cfg their) base := by
  subst henv
  have htexts := hm.filterMap_paramText htheir hletters hl
  have hnodup : (l.map Cmode.letter).Nodup := hletters ▸ hm.nodup_allLetters
  -- the parameters are few words, so they pass through the buffer
  obtain ⟨hwords, hsum, hcount⟩ := paramTexts_bounds htheir.valid l hl
  obtain ⟨l', hperm, hsub⟩ : Subperm l allChannelmodes := by
    refine subperm_of_subset hnodup.of_map fun cm hcm => ?_
    exact (Chanmode.mem_channelmodes.mp (hl cm hcm).mem).1
  have hlength : (unwords ' ' (l.filterMap their.paramText)).length ≤ 205 := by
    rw [← (hperm.map Cmode.maxLength).sum_eq] at hsum
    have hall : (allChannelmodes.map Cmode.maxLength).sum ≤ 205 := by decide
    exact hsum.trans (((hsub.map Cmode.maxLength).sum_le_sum fun _ _ => Nat.zero_le _).trans hall)
  have hfew : (l.filterMap their.paramText).length < maxmodeparams := by
    rw [hcount, ← hperm.countP_eq]
    exact (hsub.countP_le).trans_lt (by decide)
  have hfull : ∀ w ∈ l.filterMap their.paramText, decide (w ≠ []) = true := by
    rw [htexts]
    exact forall_mem_map.mpr fun k hk => decide_eq_true fun h => hm.param_ne hk (map_eq_nil_iff.mp h)
  have hparams : words ' ' [] ((chars (ofBuffer m.buildModes.2)).take 511) =
      l.filterMap their.paramText := by
    have hle := (dropLast_sublist (unwords ' ' (l.filterMap their.paramText))).length_le
    rw [chars_ofBuffer hnul.2, letters_buildModes_params fun k => hm.param_ne, ← htexts,
      take_of_length_le (by omega), words_dropLast_unwords, words_unwords hwords,
      filter_eq_self.mpr hfull]
  have hroom : ([] : List PVar).length + (l.filterMap their.paramText).length < maxmodeparams := by
    rwa [length_nil, Nat.zero_add]
  unfold setChannelMode setMode
  rw [hparams, chars_ofBuffer hnul.1, letters_buildModes, ← hletters]
  exact setModeLoop_sent env.me htheir.valid l hl hnodup hbase (htheir.name.trans hname.symm) hroom
    (forall_mem_nil _)

variable {base : Chanmode.Channel} (hmode : ∀ c, base.mode c = false)
include hmode

/-- The modes that are set are those of the migrated channel. -/
theorem foldl_mode (c : Char) :
    (l.foldl (Channel.receive cfg their) base).mode c = their.mode c := by
  have htheirMode : their.mode c = decide (c ∈ l.map Cmode.letter) := by
    rw [htheir.mode, hletters]
  by_cases hclear : (l.any fun cm => clears cm.letter c) = true
  · -- a letter that clears the mode is there, so that of the mode is not
    have hnotin : c ∉ l.map Cmode.letter := by
      obtain ⟨cm, hcm, hclears⟩ := any_eq_true.mp hclear
      have hin : cm.letter ∈ m.allLetters := hletters ▸ mem_map_of_mem hcm
      intro hc
      rw [hletters] at hc
      unfold clears at hclears
      simp only [Bool.or_eq_true, Bool.and_eq_true, decide_eq_true_eq] at hclears
      rcases hclears with ⟨hs, rfl⟩ | ⟨hp, rfl⟩
      · rw [hs] at hin
        exact hm.secrecy ⟨(mem_allLetters.mp hin).resolve_right (by decide),
          (mem_allLetters.mp hc).resolve_right (by decide)⟩
      · rw [hp] at hin
        exact hm.secrecy ⟨(mem_allLetters.mp hc).resolve_right (by decide),
          (mem_allLetters.mp hin).resolve_right (by decide)⟩
    rw [foldl_receive_mode_clear htheir.valid hl hnotin, hmode, Bool.false_and, htheirMode,
      decide_eq_false hnotin]
  · rw [foldl_receive_mode_set htheir.valid hl (Bool.not_eq_true _ ▸ hclear), hmode, Bool.false_or, htheirMode]

theorem foldl_params (pm : ParamMode) :
    (l.foldl (Channel.receive cfg their) base).params pm =
      if pm.letter ∈ letters m.set then their.params pm else base.params pm := by
  have hnodup : (l.map Cmode.letter).Nodup := hletters ▸ hm.nodup_allLetters
  have hiff : pm.letter ∈ l.map Cmode.letter ↔ pm.letter ∈ letters m.set := by
    rw [hletters, mem_allLetters, or_iff_left (param_letter_ne pm)]
  by_cases hin : pm.letter ∈ l.map Cmode.letter
  · rw [if_pos (hiff.mp hin)]
    have hset : their.mode pm.letter = true := by
      rw [htheir.mode, ← hletters, decide_eq_true_eq]
      exact hin
    obtain ⟨v, hv, hvalid⟩ := htheir.valid.set pm hset
    obtain ⟨cm, hcm, hletter⟩ := mem_map.mp hin
    obtain ⟨early, late, rfl⟩ := append_of_mem hcm
    rw [foldl_receive_params_at htheir.valid hl hnodup hletter, hmode, hv]
    refine congrArg some ?_
    by_cases hpm : pm = .history
    · subst hpm
      by_cases hr : 'r' ∈ early.map Cmode.letter
      · rw [decide_eq_true hr]
        exact ParamMode.received_registered _ hvalid
      -- registered does not come before, so the value is within the smaller limits
      rw [decide_eq_false hr]
      refine cap_eq_iff.mpr ?_
      have hH : ParamMode.history.letter ∈ letters m.set :=
        (mem_allLetters.mp (hletters ▸ hin)).resolve_right (by decide)
      have htext := htheir.param .history
      unfold Channel.getParameter at htext
      rw [if_pos hH, hv] at htext
      refine (hm.history hH).elim (fun hbefore => absurd ?_ hr) fun h =>
        h v hvalid.1 (Option.some.inj htext).symm
      rw [map_append, map_cons, hletter] at hletters hnodup
      exact mem_of_mem_takeWhile_ne hletters.symm
        (fun h => disjoint_of_nodup_append hnodup h mem_cons_self) hbefore
    · exact ParamMode.received_of_ne hpm _ _ v
  · rw [if_neg (mt hiff.mpr hin), foldl_receive_params_of_notMem htheir.valid hl hin]

end Ir.ChannelModes.Settable

/-! ## What a bundle stands for -/

def ListEntry.ban (e : ListEntry) : Ban := ⟨letters e.banstr, letters e.who, e.when.toInt⟩

def Ir.Channel.registration : Option ChannelRegistration :=
  if hempty : (ofBuffer ch.founder).bytes = [] then none
  else some ⟨ofBuffer ch.founder, hempty, unixOrZeroSigned ch.registeredAt⟩

/-- A channel that the tool writes so that it loads as it was. -/
structure Ir.Channel.Migratable (env : Env) (now : Int64) (ch : Ir.Channel) : Prop where
  texts : ∀ s, .str s ∈ ch.fields now → Database.Migratable s
  count : ∀ l, (ch.entries l).length < 2 ^ 32
  name_ne : ch.name ≠ []
  name_eq : namebuf (letters ch.name) = letters ch.name
  creationtime : 1000000 < (unixOrNow now ch.registeredAt).toInt ∨
    (unixOrNow now ch.registeredAt).toInt < 0 ∨
    (unixOrNow now ch.registeredAt).toInt = env.now.toInt
  modes : ch.modes.Settable env.cfg (letters ch.name)

/-- A channel of the bundle is loaded. A mode that is not in the bundle has no parameter, but for the
flood profile that a new channel has. The masks are as `clean_ban_mask` makes them, and of entries with
the same mask the first one counts. -/
structure Ir.Channel.Loaded (cfg : Config) (now : Int64) (ch : Ir.Channel) (r : Channeldb.Channel) :
    Prop where
  name : r.name = letters ch.name
  creationtime : r.creationtime = (unixOrNow now ch.registeredAt).toInt
  topic : r.topic = some (ofBuffer ch.topic)
  topicNick : r.topicNick = some (ofBuffer ch.topicSetBy)
  topicTime : r.topicTime = unixOrZeroSigned ch.topicSetAt
  mode : ∀ c, r.mode c = decide (c ∈ letters ch.modes.set ∨ c = 'P')
  params : ∀ pm, r.getParameter pm =
    if pm.letter ∈ letters ch.modes.set then some (letters (ch.modes.param [letter pm.letter]))
    else (cfg.initialParam pm).map pm.getParam
  modeLock : r.modeLock = some (ofBuffer
    ((if ch.modeLock.on ≠ [] then letter '+' :: ch.modeLock.on else []) ++
      if ch.modeLock.off ≠ [] then letter '-' :: ch.modeLock.off else []))
  registration : r.registration = ch.registration
  lists : ∀ l, r.lists l =
    (((ch.entries l).map ListEntry.ban).filterMap (cleaned cfg l)).foldl (Keyed.keep banKey) []

theorem buildModeLock_eq (l : Ir.ChannelModeLock) :
    l.buildModeLock = (if l.on ≠ [] then letter '+' :: l.on else []) ++
      if l.off ≠ [] then letter '-' :: l.off else [] := by
  unfold Ir.ChannelModeLock.buildModeLock
  split
  · rename_i h
    rw [if_neg (not_not.mpr h.1), if_neg (not_not.mpr h.2.1)]
    rfl
  · rfl

theorem text_letters (s : List UInt8) : text (letters s) = ofBuffer s := by
  unfold text letters
  rw [map_map]
  refine congrArg ofBuffer ?_
  calc s.map (letter ∘ fun b => Char.ofNat b.toNat)
      = s.map id := map_congr_left fun b _ => letter_ofNat b
    _ = s := map_id s

theorem isText_letters (hs : NulFree s) : IsText (letters s) := by
  intro c hc
  obtain ⟨b, hb, rfl⟩ := mem_map.mp hc
  rw [toNat_ofNat_byte]
  exact ⟨Nat.pos_of_ne_zero fun h => hs b hb (UInt8.toNat_inj.mp h), b.toNat_lt⟩

theorem inTime_toInt (t : Int64) : InTime t.toInt := ⟨t.le_toInt, t.toInt_lt⟩

theorem stamp_toInt (t : Int64) : stamp t.toInt = t.toUInt64 := by
  unfold stamp
  rw [Int64.ofInt_toInt]

theorem rawBan_ban (e : ListEntry) : rawBan e.ban = e.raw := by
  unfold rawBan ListEntry.ban ListEntry.raw
  rw [text_letters, text_letters, stamp_toInt]

/-! ## The reader -/

namespace Ir.Channel.Migratable

variable {env : Env} {now : Int64} {ch : Ir.Channel} (hch : ch.Migratable env now)
include hch

theorem nulFree {s : List UInt8} (hs : .str s ∈ ch.fields now) : NulFree s :=
  (hch.texts s hs).1

theorem chars_name : chars (ch.raw now).head.name = letters ch.name :=
  chars_ofBuffer (hch.nulFree (by simp [Ir.Channel.fields]))

theorem readable : (ch.raw now).Readable := by
  have hrecords : ∀ x ∈ (ch.raw now).records, x.Readable := by
    rw [← record_fields]
    refine readable_of_migratable fun f hf s hs => ?_
    subst hs
    exact hch.texts s hf
  refine Raw.readable_of_records hrecords (fun l => ?_) ?_
  · show ((ch.entries l).map ListEntry.raw).length < 2 ^ 32
    rw [length_map]
    exact hch.count l
  · rw [hch.chars_name]
    exact fun h => hch.name_ne (map_eq_nil_iff.mp h)

theorem banText (l : ListMode) :
    ∀ b ∈ (ch.entries l).map ListEntry.ban, BanText b := by
  intro b hb
  obtain ⟨e, he, rfl⟩ := mem_map.mp hb
  have hfields : ∀ f ∈ writeListMode (ch.entries l), f ∈ ch.fields now := by
    intro f hf
    unfold Ir.Channel.fields
    cases l <;> simp_all [Ir.Channel.entries]
  have hmem : ∀ f ∈ [Field.str e.banstr, .str e.who, .uint64 e.when.toUInt64], f ∈ ch.fields now :=
    fun f hf => hfields f (mem_cons_of_mem _ (mem_flatMap.mpr ⟨e, he, hf⟩))
  exact ⟨isText_letters (hch.nulFree (hmem _ (by simp))),
    isText_letters (hch.nulFree (hmem _ (by simp))), inTime_toInt e.when⟩

theorem loaded : ch.Loaded env.cfg now ((ch.raw now).channel env) := by
  have hfields := fields_channel env (ch.raw now)
  obtain ⟨their, htheir⟩ := hch.modes.exists_describes
  obtain ⟨l, hletters, hl⟩ := hch.modes.exists_sent htheir
  have hnul : NulFree ch.modes.buildModes.1 ∧ NulFree ch.modes.buildModes.2 :=
    ⟨hch.nulFree (by simp [Ir.Channel.fields]), hch.nulFree (by simp [Ir.Channel.fields])⟩
  have hname : namebuf (chars (ch.raw now).head.name) = letters ch.name := by
    rw [hch.chars_name, hch.name_eq]
  have hbase := base_valid env (ch.raw now)
  -- the mode text is read as a remote server's modes would be
  have hset := hch.modes.setChannelMode_eq htheir hletters hl rfl hbase hname hnul
  have hmode : ∀ c, ((ch.raw now).channel env).mode c = their.mode c := by
    intro c
    exact (congrArg (fun r : Chanmode.Channel => r.mode c) hset).trans
      (hch.modes.foldl_mode htheir hletters hl (fun _ => rfl) c)
  have hparams : ∀ pm, ((ch.raw now).channel env).params pm =
      if pm.letter ∈ letters ch.modes.set then their.params pm else env.cfg.initialParam pm := by
    intro pm
    exact (congrArg (fun r : Chanmode.Channel => r.params pm) hset).trans
      (hch.modes.foldl_params htheir hletters hl (fun _ => rfl) pm)
  refine ⟨hfields.name.trans hname, ?_, hfields.topic, hfields.topicNick,
    hfields.topicTime.trans (Int64.toInt64_toUInt64 _), fun c => ?_, fun pm => ?_, ?_, ?_, fun l => ?_⟩
  · rw [hfields.creationtime]
    show restoreTime env (unixOrNow now ch.registeredAt).toUInt64 = _
    rw [← stamp_toInt, restoreTime_stamp env (inTime_toInt _)]
    exact hch.creationtime
  · rw [hmode, htheir.mode]
    exact decide_eq_decide.mpr mem_allLetters
  · unfold Channel.getParameter
    rw [hparams]
    have hparam := htheir.param pm
    unfold Channel.getParameter at hparam
    split
    · rwa [if_pos ‹_›] at hparam
    · rfl
  · rw [← buildModeLock_eq]
    rfl
  · exact hfields.registration
  · have hcore : ∀ c ∈ chars (ch.raw now).head.modes1, coreMode c = none := by
      intro c hc
      rw [show (ch.raw now).head.modes1 = ofBuffer ch.modes.buildModes.1 from rfl,
        chars_ofBuffer hnul.1, letters_buildModes] at hc
      rcases mem_cons.mp hc with rfl | hc
      · rfl
      · obtain ⟨cm, hcm, rfl, -⟩ := hch.modes.mem_channelmodes hc
        exact (letter_of_mem (Chanmode.mem_channelmodes.mp hcm).1).1
    have hraw : (ch.raw now).lists l = ((ch.entries l).map ListEntry.ban).map rawBan := by
      rw [map_map]
      exact map_congr_left fun e _ => (rawBan_ban e).symm
    rw [hfields.lists hcore, hraw, foldl_addEntry env.cfg l (hch.banText l)]

end Ir.Channel.Migratable

/-- The whole file is accepted, and the channels of the bundle are loaded one by one. -/
theorem readChanneldb_writeChannelDB (env : Env) {secr : Option (Secret C)}
    (hsecr : ∀ s ∈ secr, validSecretPassword s.password = true)
    {channels : List (Int64 × Ir.Channel)} (hchannels : ∀ ch ∈ channels, ch.2.Migratable env ch.1)
    (hnames : (channels.map fun ch => lower (letters ch.2.name)).Nodup)
    (hcount : channels.length < 2 ^ 64) {file : List UInt8}
    (hwrite : writeChannelDB channels = some file) :
    (readChanneldb env secr file).2 = .complete ∧
      List.Forall₂ (fun ch r => ch.2.Loaded env.cfg ch.1 r) channels
        (readChanneldb env secr file).1.reverse := by
  have hnul : ∀ f ∈ channeldbFields channels, ∀ s, f = .str s → NulFree s := by
    rintro f hf s rfl
    unfold channeldbFields at hf
    simp only [mem_cons, reduceCtorEq, false_or] at hf
    obtain ⟨ch, hch, hf⟩ := mem_flatMap.mp hf
    exact (hchannels ch hch).nulFree hf
  have hfile := writeFields_eq hnul hwrite
  rw [record_channeldbFields] at hfile
  have hhead : file.head? ≠ some 85 := by
    rw [hfile]
    exact fun h => absurd (Option.some.inj h) (by decide)
  obtain ⟨c, hopen, hreading⟩ := unrealdbOpenReadAny_headerless hsecr hhead
  have hraws : ∀ r ∈ channels.map (fun ch => ch.2.raw ch.1), r.Readable :=
    forall_mem_map.mpr fun ch hch => (hchannels ch hch).readable
  have hkeys : ((channels.map fun ch => ch.2.raw ch.1).map Raw.key).Nodup := by
    have hkey : ∀ ch ∈ channels, (Raw.key ∘ fun ch : Int64 × Ir.Channel => ch.2.raw ch.1) ch =
        lower (letters ch.2.name) := by
      intro ch hch
      show lower (namebuf (chars (ch.2.raw ch.1).head.name)) = _
      rw [(hchannels ch hch).chars_name, (hchannels ch hch).name_eq]
    rw [map_map, map_congr_left hkey]
    exact hnames
  have hread := readChanneldb_of_reading env hraws (by rwa [length_map]) hopen (hfile ▸ hreading)
  rw [foldl_restoreRaw env (fun r h => (hraws r h).name) hkeys fun r _ => not_mem_nil,
    append_nil, map_map] at hread
  rw [hread]
  refine ⟨rfl, ?_⟩
  rw [reverse_reverse, forall₂_map_right_iff, forall₂_same]
  exact fun ch hch => (hchannels ch hch).loaded

def keyed (set : String) : Ir.Channel where
  name := ascii "#c"
  registeredAt := some 1700000000
  founder := ascii "ann"
  successor := []
  topic := ascii "News"
  topicSetBy := ascii "ann"
  topicSetAt := none
  modes := ⟨ascii set, [(ascii "l", ascii "50"), (ascii "k", ascii "key")], by decide +kernel⟩
  modeLock := ⟨ascii "n", [], 0, []⟩
  acl := []
  akicks := [⟨[], ascii "a!*@*", [], some 1700000001⟩]

theorem keyed_settable : (keyed "kl").modes.Settable plainEnv.cfg (letters (ascii "#c")) := by
  refine ⟨rfl, ?_, ?_, ?_, by decide +kernel, fun pm hpm => ?_, ?_⟩
  · exact forall_mem_cons.mpr ⟨⟨⟨'k', .param .key, false⟩, by decide, rfl, rfl,
      fun p r h => by cases h⟩, forall_mem_singleton.mpr ⟨⟨'l', .param .limit, false⟩, by decide,
        rfl, rfl, fun p r h => by cases h⟩⟩
  · decide
  · decide
  · cases pm with
    | key =>
      have hvalid : KeyValid "key".toList :=
        ⟨by decide, by decide, forall_mem_of_all (by decide)⟩
      exact ⟨"key".toList, by decide +kernel, hvalid, by decide⟩
    | limit =>
      have hvalid : LimitValid 50 := ⟨by decide, by decide⟩
      exact ⟨(50 : ℕ), by decide +kernel, hvalid, by decide⟩
    | link | history | flood | profile => exact absurd hpm (by decide)
  · exact fun h => absurd h (by decide)

theorem keyed_migratable : (keyed "kl").Migratable plainEnv 5 := by
  have htexts : ∀ f ∈ (keyed "kl").fields 5, (match f with
      | .str s => decide (0 ∉ s ∧ s.length ≤ 10000)
      | _ => true) = true := by
    decide +kernel
  refine ⟨fun s hs => ?_, fun l => ?_, by decide +kernel, by decide +kernel, .inl (by decide +kernel),
    keyed_settable⟩
  · obtain ⟨hzero, hlength⟩ := of_decide_eq_true (htexts _ hs)
    exact ⟨fun b hb h => hzero (h ▸ hb), hlength⟩
  · cases l <;> decide +kernel

/-- A key and a limit in the order of their letters are both loaded. -/
theorem readChanneldb_keyed :
    ∃ file, writeChannelDB [(5, keyed "kl")] = some file ∧
      List.Forall₂ (fun ch r => ch.2.Loaded plainEnv.cfg ch.1 r) [(5, keyed "kl")]
        (readChanneldb (C := nullCrypto) plainEnv none file).1.reverse := by
  obtain ⟨file, hwrite⟩ : ∃ file, writeChannelDB [(5, keyed "kl")] = some file :=
    Option.isSome_iff_exists.mp (by decide +kernel)
  have hsecr : ∀ s ∈ (none : Option (Secret nullCrypto)), validSecretPassword s.password = true :=
    fun _ h => absurd h (Option.not_mem_none _)
  exact ⟨file, hwrite, (readChanneldb_writeChannelDB plainEnv hsecr
    (forall_mem_singleton.mpr keyed_migratable) (nodup_singleton _) (by decide) hwrite).2⟩

/-- With the letters the other way round the limit becomes the key and there is no limit. And a channel
that was not permanent has become so. -/
theorem readChanneldb_limit_as_key :
    ∃ file, writeChannelDB [(5, keyed "lk")] = some file ∧
      ((readChanneldb (C := nullCrypto) plainEnv none file).1.map fun r =>
        (r.getParameter .key, r.getParameter .limit, r.mode 'P')) =
          [(some "50".toList, none, true)] := by
  refine ⟨_, rfl, ?_⟩
  decide +kernel

end ObbyIRCd.Channeldb
