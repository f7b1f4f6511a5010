import ObbyIRCd.Database.Table
import ObbyIRCd.Database.Text
import ObbyIRCd.Tkl.Model

/-!
# The database of TKL entries

`tkldb.c`: `write_tkldb` and `read_tkldb`. An entry is written as a letter for its type, the fields that
all entries have, and those of its kind, in which a soft ban, a hold, the targets and the action of a
spamfilter are texts or letters (`Raw`). The reader takes these apart again, drops an entry that has
expired or is there already, and stops at a letter that it does not know. A file of a version below 6260
has no ids and no hits.

As in the model of the entries, all of them are in one list. A `NULL` instead of a text is not told from
a read that fails; `write_tkldb` does not write any.
-/

namespace ObbyIRCd.Tkl

open Database

variable {C : Crypto}

/-! ## Entries -/

/-- `ptr` of a TKL entry. A spamfilter has counts of its own for exempt users. -/
inductive Body
  | serverban (type : ServerBanType) (soft : Bool) (usermask hostmask reason : CStr)
  | banexception (global soft : Bool) (usermask hostmask bantypes reason : CStr)
  | nameban (global hold : Bool) (name reason : CStr)
  | spamfilter (global : Bool) (target : Finset SpamfTarget) (action : BanAction)
      (matchType : MatchType) (matchString tklReason : CStr)
      (tklDuration hitsExcept lasthitExcept : Int64)
deriving DecidableEq

/-- The entry's kind and the fields of it, as `cmd_tkl_add` has them. -/
def Body.ptr : Body → Ptr
  | .serverban type soft usermask hostmask reason =>
    .serverban type soft (chars usermask) (chars hostmask) (chars reason)
  | .banexception global soft usermask hostmask bantypes reason =>
    .banexception global soft (chars usermask) (chars hostmask) (chars bantypes) (chars reason)
  | .nameban global hold name reason => .nameban global hold (chars name) (chars reason)
  | .spamfilter global target action matchType matchString tklReason tklDuration _ _ =>
    .spamfilter global target action matchType (chars matchString) tklDuration.toInt
      (chars tklReason)

/-- `TKL`. Both flags are those of entries that are not saved. -/
structure TKL where
  body : Body
  setBy : CStr
  setAt : Int64
  expireAt : Int64
  id : Buf 15
  spamfilterId : Buf 15
  hits : Int64
  lasthit : Int64
  /-- `TKL_FLAG_CONFIG`. -/
  config : Bool
  /-- `IsCentralSpamfilter`. -/
  central : Bool
deriving DecidableEq

def TKL.entry (t : TKL) : Entry where
  ptr := t.body.ptr
  setBy := chars t.setBy
  setAt := t.setAt.toInt
  expireAt := t.expireAt.toInt
  id := chars t.id.str
  spamfilterId := chars t.spamfilterId.str

abbrev TKL.key (t : TKL) : Key := t.entry.key

/-! ## Fields as they are written -/

/-- The fields of an entry of each kind, as they are written. -/
inductive RawBody
  | serverban (type : ServerBanType) (usermask hostmask reason : CStr)
  | banexception (global : Bool) (usermask hostmask bantypes reason : CStr)
  | nameban (global : Bool) (hold name reason : CStr)
  | spamfilter (global : Bool) (matchType matchString target : CStr) (action : UInt8)
      (tklReason : CStr) (tklDuration hitsExcept lasthitExcept : Int64)

def RawBody.type : RawBody → TklType
  | .serverban type _ _ _ => .serverban type
  | .banexception global _ _ _ _ => .banexception global
  | .nameban global _ _ _ => .nameban global
  | .spamfilter global _ _ _ _ _ _ _ _ => .spamfilter global

/-- The fields that all entries have, as they are written. -/
structure Common where
  setBy : CStr
  setAt : Int64
  expireAt : Int64
  id : CStr
  spamfilterId : CStr
  hits : Int64
  lasthit : Int64

/-- An entry as it is written. -/
structure Raw where
  common : Common
  body : RawBody

/-- `snprintf` of a percent sign and the mask, to a buffer of 256 bytes. -/
def softUsermask (usermask : CStr) : Buf 255 :=
  strlcpy 255 ⟨37 :: usermask.bytes, by
    intro b hb
    rcases List.mem_cons.mp hb with rfl | hb
    · decide
    · exact usermask.nul_free b hb⟩

/-- `write_tkline`, the part for each kind. -/
def Body.raw : Body → RawBody
  | .serverban type soft usermask hostmask reason =>
    .serverban type (if soft then (softUsermask usermask).str else usermask) hostmask reason
  | .banexception global soft usermask hostmask bantypes reason =>
    .banexception global (if soft then (softUsermask usermask).str else usermask) hostmask bantypes
      reason
  | .nameban global hold name reason =>
    .nameban global (text [if hold then 'H' else '*']) name reason
  | .spamfilter global target action matchType matchString tklReason tklDuration hitsExcept
      lasthitExcept =>
    .spamfilter global (text (unrealMatchMethodValtostr matchType)) matchString
      (text (spamfilterTargetInttostring target)) (letter (banactValtochar action)) tklReason
      tklDuration hitsExcept lasthitExcept

/-- `write_tkline`. -/
def TKL.raw (t : TKL) : Raw where
  common := ⟨t.setBy, t.setAt, t.expireAt, t.id.str, t.spamfilterId.str, t.hits, t.lasthit⟩
  body := t.body.raw

/-- `TKLDB_VERSION`. -/
def tkldbVersion : UInt32 := 6260

/-- `TKLDB_MAGIC`. -/
def tkldbMagic : UInt32 := 0x10101010

variable (version : UInt32)

def Common.records (h : Common) : List Record :=
  [.str (some h.setBy), .int64 h.setAt.toUInt64, .int64 h.expireAt.toUInt64] ++
    if 6260 ≤ version then
      [.str (some h.id), .str (some h.spamfilterId), .int64 h.hits.toUInt64,
        .int64 h.lasthit.toUInt64]
    else []

def RawBody.records : RawBody → List Record
  | .serverban _ usermask hostmask reason =>
    [.str (some usermask), .str (some hostmask), .str (some reason)]
  | .banexception _ usermask hostmask bantypes reason =>
    [.str (some usermask), .str (some hostmask), .str (some bantypes), .str (some reason)]
  | .nameban _ hold name reason => [.str (some hold), .str (some name), .str (some reason)]
  | .spamfilter _ matchType matchString target action tklReason tklDuration hitsExcept
      lasthitExcept =>
    [.str (some matchType), .str (some matchString), .str (some target), .char action,
      .str (some tklReason), .int64 tklDuration.toUInt64] ++
    if 6260 ≤ version then [.int64 hitsExcept.toUInt64, .int64 lasthitExcept.toUInt64] else []

def Raw.records (r : Raw) : List Record :=
  .char (letter (tklTypetochar r.body.type)) :: (r.common.records version ++ r.body.records version)

def tkldbRecords (raws : List Raw) : List Record :=
  .int32 tkldbMagic :: .int32 version :: .int64 (UInt64.ofNat raws.length) ::
    raws.flatMap (Raw.records version)

/-- Entries of the configuration and central spamfilters are not saved. -/
def TKL.saved (t : TKL) : Bool := !t.config && !t.central

/-- `write_tkldb`. -/
def writeTkldb (secr : Option (Secret C)) (now : UInt64) (random : Random) (free : ℕ)
    (tklines : List TKL) : Option (List UInt8) :=
  saveRecords secr now random free (tkldbRecords tkldbVersion ((tklines.filter TKL.saved).map TKL.raw))

/-! ## Reading -/

/-- How `read_tkldb` ends: behind the last entry, at a letter that it does not know, or at a read that
fails. -/
inductive Stop
  | complete
  | unknownType
  | failed
deriving DecidableEq, Repr

def Common.kinds : List Kind :=
  [.str, .int64, .int64] ++ if 6260 ≤ version then [.str, .str, .int64, .int64] else []

def Common.ofRecords : List Record → Option Common
  | [.str (some setBy), .int64 setAt, .int64 expireAt] =>
    some ⟨setBy, setAt.toInt64, expireAt.toInt64, CStr.empty, CStr.empty, 0, 0⟩
  | [.str (some setBy), .int64 setAt, .int64 expireAt, .str (some id), .str (some spamfilterId),
      .int64 hits, .int64 lasthit] =>
    some ⟨setBy, setAt.toInt64, expireAt.toInt64, id, spamfilterId, hits.toInt64, lasthit.toInt64⟩
  | _ => none

def RawBody.kinds : TklType → List Kind
  | .serverban _ => [.str, .str, .str]
  | .banexception _ => [.str, .str, .str, .str]
  | .nameban _ => [.str, .str, .str]
  | .spamfilter _ =>
    [.str, .str, .str, .char, .str, .int64] ++ if 6260 ≤ version then [.int64, .int64] else []

def RawBody.ofRecords : TklType → List Record → Option RawBody
  | .serverban type, [.str (some usermask), .str (some hostmask), .str (some reason)] =>
    some (.serverban type usermask hostmask reason)
  | .banexception global,
      [.str (some usermask), .str (some hostmask), .str (some bantypes), .str (some reason)] =>
    some (.banexception global usermask hostmask bantypes reason)
  | .nameban global, [.str (some hold), .str (some name), .str (some reason)] =>
    some (.nameban global hold name reason)
  | .spamfilter global, [.str (some matchType), .str (some matchString), .str (some target),
      .char action, .str (some tklReason), .int64 tklDuration] =>
    some (.spamfilter global matchType matchString target action tklReason tklDuration.toInt64 0 0)
  | .spamfilter global, [.str (some matchType), .str (some matchString), .str (some target),
      .char action, .str (some tklReason), .int64 tklDuration, .int64 hitsExcept,
      .int64 lasthitExcept] =>
    some (.spamfilter global matchType matchString target action tklReason tklDuration.toInt64
      hitsExcept.toInt64 lasthitExcept.toInt64)
  | _, _ => none

def readTkline (c : UnrealDB C) : Except Stop (Raw × UnrealDB C) :=
  match unrealdbReadChar c with
  | (none, _) => .error .failed
  | (some ch, c) =>
    match tklChartotype (Char.ofNat ch.toNat) with
    | none => .error .unknownType
    | some type =>
      match readAs Stop.failed Common.ofRecords (Common.kinds version) c with
      | .error e => .error e
      | .ok (common, c) =>
        match readAs Stop.failed (RawBody.ofRecords type) (RawBody.kinds version type) c with
        | .error e => .error e
        | .ok (body, c) => .ok (⟨common, body⟩, c)

/-- A user mask that starts with a percent sign. -/
def isSoft (usermask : CStr) : Bool := usermask.bytes.head? = some 37

/-- A user mask without the percent sign. -/
def dropSoft (usermask : CStr) : CStr :=
  if isSoft usermask then
    ⟨usermask.bytes.tail, fun b hb => usermask.nul_free b (List.mem_of_mem_tail hb)⟩
  else usermask

/-- What the reader makes of the fields of each kind. A spamfilter with a field that it does not know is
not added. -/
def RawBody.read (env : Env) : RawBody → Option Body
  | .serverban type usermask hostmask reason =>
    some (.serverban type (isSoft usermask) (dropSoft usermask) hostmask reason)
  | .banexception global usermask hostmask bantypes reason =>
    some (.banexception global (isSoft usermask) (dropSoft usermask) hostmask bantypes reason)
  | .nameban global hold name reason =>
    some (.nameban global (hold.bytes.head? = some (letter 'H')) name reason)
  | .spamfilter global matchType matchString target action tklReason tklDuration hitsExcept
      lasthitExcept => do
    let matchMethod ← unrealMatchMethodStrtoval (chars matchType)
    let target := spamfilterGettargets (chars target)
    let action ← banactChartoval (Char.ofNat action.toNat)
    let body := Body.spamfilter global target action matchMethod matchString tklReason tklDuration
      hitsExcept lasthitExcept
    if createsMatch env body.ptr = false ∨ target = ∅ ∨ banactConfigOnly action then none
    else some body

def Raw.tkl (env : Env) (r : Raw) : Option TKL :=
  (r.body.read env).map fun body =>
    { body := body
      setBy := r.common.setBy
      setAt := r.common.setAt
      expireAt := r.common.expireAt
      id := strlcpy 15 r.common.id
      spamfilterId := strlcpy 15 r.common.spamfilterId
      hits := r.common.hits
      lasthit := r.common.lasthit
      config := false
      central := false }

/-- The name that the entries of the configuration are set by. -/
def configName : CStr := ⟨ascii "-config-", by decide +kernel⟩

/-- Server bans and spamfilters that are set by `-config-` are not added. -/
def RawBody.skipsConfig : RawBody → Bool
  | .serverban _ _ _ _ | .spamfilter _ _ _ _ _ _ _ _ _ => true
  | _ => false

/-- `do_not_add`, apart from a field of a spamfilter that is not valid. -/
def doNotAdd (now : Int64) (tklines : List TKL) (r : Raw) (t : TKL) : Bool :=
  (r.common.expireAt ≠ 0 && r.common.expireAt ≤ now) ||
    (findTkl (tklines.map TKL.entry) t.body.ptr).isSome ||
    (r.body.skipsConfig && r.common.setBy = configName)

def addRead (env : Env) (now : Int64) (tklines : List TKL) (r : Raw) : List TKL :=
  match r.tkl env with
  | none => tklines
  | some t => if doNotAdd now tklines r t then tklines else t :: tklines

/-- The loop of `read_tkldb` over the entries. -/
def readTklines (env : Env) (now : Int64) (version : UInt32) (tklcount : UInt64) (c : UnrealDB C) :
    List TKL × Stop :=
  match readItems (readTkline version) (addRead env now) tklcount.toNat [] c with
  | (tklines, .ok _) => (tklines, .complete)
  | (tklines, .error stop) => (tklines, stop)

/-- `read_tkldb` on a server without entries. -/
def readTkldb (env : Env) (now : Int64) (secr : Option (Secret C)) (file : List UInt8) :
    List TKL × Stop :=
  match unrealdbOpenReadAny secr file with
  | .error _ => ([], .failed)
  | .ok c =>
    match unrealdbReadInt32 c with
    | (none, _) => ([], .failed)
    | (some magic, c) =>
      if magic ≠ tkldbMagic then ([], .failed)
      else
        match unrealdbReadInt32 c with
        | (none, _) => ([], .failed)
        | (some version, c) =>
          if version < 4999 then ([], .failed)
          else if tkldbVersion < version then ([], .failed)
          else
            match unrealdbReadInt64 c with
            | (none, _) => ([], .failed)
            | (some tklcount, c) => readTklines env now version tklcount c

end ObbyIRCd.Tkl
