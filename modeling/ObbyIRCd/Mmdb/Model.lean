import ObbyIRCd.Lib.Bytes

/-!
# The MaxMind database reader of `src/modules/mmdb.c`

A database file is a search tree, a separator of sixteen bytes, a data section, a marker and the
metadata. `mmdb_open` finds the marker, decodes the metadata map behind it and, in an IPv6 database,
walks the 96 zero bits that IPv4 addresses begin with. A lookup walks the tree along the bits of
the address; a record that is not a node is "no data" or an offset into the data section.

The file is the list of its bytes. Sums of offsets are far from `SIZE_MAX` and are not reduced; the
difference from which a data offset is made is, as it can wrap around.
-/

namespace ObbyIRCd.Mmdb

/-- The error codes of `MMDB_Status` that opening and looking up give. -/
inductive Status where
  | errOpen
  | errInvalidDb
  | errCorrupt
  | errIpv6InV4
  | errBadarg
deriving DecidableEq, Repr

/-- `METADATA_MARKER`. -/
def metadataMarker : List UInt8 := [0xAB, 0xCD, 0xEF] ++ ascii "MaxMind.com"

/-- `METADATA_MAX_SIZE`. -/
def metadataMaxSize : ℕ := 128 * 1024

/-- `DATA_SEPARATOR_SIZE`. -/
def dataSeparatorSize : ℕ := 16

/-- `MAX_DECODE_DEPTH`. -/
def maxDecodeDepth : ℕ := 64

/-- `DT_POINTER`. -/
def dtPointer : ℕ := 1
/-- `DT_STRING`. -/
def dtString : ℕ := 2
/-- `DT_UINT16`. -/
def dtUint16 : ℕ := 5
/-- `DT_UINT32`. -/
def dtUint32 : ℕ := 6
/-- `DT_MAP`. -/
def dtMap : ℕ := 7
/-- `DT_UINT64`. -/
def dtUint64 : ℕ := 9
/-- `DT_ARRAY`. -/
def dtArray : ℕ := 11
/-- `DT_BOOL`. -/
def dtBool : ℕ := 14

variable (buf : List UInt8)

/-- `buf[i]`, as the integer that it is promoted to. -/
def byte (i : ℕ) : ℕ := (buf.getD i 0).toNat

/-! ## The data section decoder -/

/-- `decode_size`: the size and the offset behind it. -/
def decodeSize (rawSize offset : ℕ) : Except Status (ℕ × ℕ) :=
  if rawSize < 29 then .ok (rawSize, offset)
  else if rawSize = 29 then
    if offset ≥ buf.length then .error .errCorrupt
    else .ok (29 + byte buf offset, offset + 1)
  else if rawSize = 30 then
    if offset + 2 > buf.length then .error .errCorrupt
    else .ok (285 + byte buf offset <<< 8 + byte buf (offset + 1), offset + 2)
  else
    if offset + 3 > buf.length then .error .errCorrupt
    else .ok (65821 + byte buf offset <<< 16 + byte buf (offset + 1) <<< 8 + byte buf (offset + 2),
      offset + 3)

/-- The rest of `decode_ctrl` once the type is known. -/
def decodeCtrlSize (type rawSize off : ℕ) : Except Status (ℕ × ℕ × ℕ) :=
  if type = dtPointer then .ok (dtPointer, rawSize, off)
  else (decodeSize buf rawSize off).map fun (size, off) => (type, size, off)

/-- `decode_ctrl`: the type, the size and the offset of the payload. -/
def decodeCtrl (offset : ℕ) : Except Status (ℕ × ℕ × ℕ) :=
  if offset ≥ buf.length then .error .errCorrupt
  else
    let type := byte buf offset >>> 5 &&& 0x7
    let rawSize := byte buf offset &&& 0x1F
    if type = 0 then
      if offset + 1 ≥ buf.length then .error .errCorrupt
      else decodeCtrlSize buf (byte buf (offset + 1) + 7) rawSize (offset + 2)
    else decodeCtrlSize buf type rawSize (offset + 1)

def shiftIn (start : ℕ) (bs : List UInt8) : ℕ := bs.foldl (fun acc b => acc <<< 8 ||| b.toNat) start

/-- The width of a pointer whose control byte has the given low bits. -/
def pointerSize (ctrlSize : ℕ) : ℕ := (ctrlSize >>> 3 &&& 0x3) + 1

/-- `decode_pointer`: where it points to. -/
def decodePointer (ctrlSize offset : ℕ) : Except Status ℕ :=
  let ptrSize := pointerSize ctrlSize
  if offset + ptrSize > buf.length then .error .errCorrupt
  else
    let start := if ptrSize = 4 then 0 else ctrlSize &&& 0x7
    let pointer := shiftIn start ((buf.drop offset).take ptrSize)
    .ok (match ptrSize with
      | 2 => pointer + 2048
      | 3 => pointer + 526336
      | _ => pointer)

/-- `decode_uint16`, `decode_uint32` and `decode_uint64`: an integer of at most so many bytes. -/
def decodeUint (width : ℕ) (buf : List UInt8) (size offset : ℕ) : Except Status ℕ :=
  if size > width ∨ offset + size > buf.length then .error .errCorrupt
  else .ok (shiftIn 0 ((buf.drop offset).take size))

/-- `decode_uint16`. -/
def decodeUint16 : List UInt8 → ℕ → ℕ → Except Status ℕ := decodeUint 2

/-- `decode_uint32`. -/
def decodeUint32 : List UInt8 → ℕ → ℕ → Except Status ℕ := decodeUint 4

/-- `decode_uint64`. -/
def decodeUint64 : List UInt8 → ℕ → ℕ → Except Status ℕ := decodeUint 8

def skipMany (skip : ℕ → Except Status ℕ) : ℕ → ℕ → Except Status ℕ
  | 0, off => .ok off
  | count + 1, off =>
    match skip off with
    | .error e => .error e
    | .ok off => skipMany skip count off

/-- `skip_value` with so many levels of nesting left: the offset behind the field. -/
def skipValueFrom (buf : List UInt8) : ℕ → ℕ → Except Status ℕ
  | 0, _ => .error .errCorrupt
  | levels + 1, offset =>
    match decodeCtrl buf offset with
    | .error e => .error e
    | .ok (type, size, off) =>
      if type = dtPointer then
        if off + pointerSize size > buf.length then .error .errCorrupt
        else .ok (off + pointerSize size)
      else if type = dtMap then skipMany (skipValueFrom buf levels) (size * 2) off
      else if type = dtArray then skipMany (skipValueFrom buf levels) size off
      else if type = dtBool then .ok off
      else if off + size > buf.length then .error .errCorrupt
      else .ok (off + size)

/-- `skip_value` at depth 0. -/
def skipValue (offset : ℕ) : Except Status ℕ :=
  skipValueFrom buf (maxDecodeDepth + 1) offset

/-- `resolve_entry`: the type, size and payload of a field, behind one pointer if it is one. -/
def resolveEntry (offset : ℕ) : Except Status (ℕ × ℕ × ℕ) :=
  match decodeCtrl buf offset with
  | .error e => .error e
  | .ok (type, size, off) =>
    if type = dtPointer then
      match decodePointer buf size off with
      | .error e => .error e
      | .ok pointer =>
        match decodeCtrl buf pointer with
        | .error e => .error e
        | .ok (type, size, off) =>
          if type = dtPointer then .error .errCorrupt else .ok (type, size, off)
    else .ok (type, size, off)

/-! ## Metadata -/

/-- `MMDB_Metadata`. -/
structure Metadata where
  nodeCount : ℕ
  recordSize : ℕ
  ipVersion : ℕ
  buildEpoch : ℕ
  databaseType : List UInt8
deriving DecidableEq, Repr

/-- The metadata after `memset`. -/
def Metadata.zero : Metadata := ⟨0, 0, 0, 0, []⟩

/-- `find_metadata` from the offset `p` down to the first one that is searched. -/
def findMetadataFrom (data : List UInt8) (first : ℕ) : ℕ → Option ℕ
  | 0 => if first ≤ 0 ∧ metadataMarker <+: data then some 0 else none
  | p + 1 =>
    if first ≤ p + 1 then
      if metadataMarker <+: data.drop (p + 1) then some (p + 1) else findMetadataFrom data first p
    else none

variable (data : List UInt8)

/-- `find_metadata`: the last marker among the last `METADATA_MAX_SIZE` bytes. -/
def findMetadata : Option ℕ :=
  if data.length < metadataMarker.length then none
  else findMetadataFrom data (data.length - min data.length metadataMaxSize)
    (data.length - metadataMarker.length)

/-- Errors while the metadata is decoded are all `MMDB_ERR_INVALID_DB`. -/
def orInvalidDb {α : Type} (r : Except Status α) : Except Status α :=
  match r with
  | .ok a => .ok a
  | .error _ => .error .errInvalidDb

/-- The branches of `parse_metadata` for the value of a key. -/
def parseField (md : Metadata) (key : List UInt8) (vtype vsize voff : ℕ) : Except Status Metadata :=
  if key = ascii "node_count" then
    if vtype ≠ dtUint32 ∧ vtype ≠ dtUint16 then .error .errInvalidDb
    else (orInvalidDb (decodeUint32 buf vsize voff)).map fun v => { md with nodeCount := v }
  else if key = ascii "record_size" then
    if vtype ≠ dtUint16 ∧ vtype ≠ dtUint32 then .error .errInvalidDb
    else (orInvalidDb (decodeUint16 buf vsize voff)).map fun v => { md with recordSize := v }
  else if key = ascii "ip_version" then
    if vtype ≠ dtUint16 ∧ vtype ≠ dtUint32 then .error .errInvalidDb
    else (orInvalidDb (decodeUint16 buf vsize voff)).map fun v => { md with ipVersion := v }
  else if key = ascii "build_epoch" then
    if vtype ≠ dtUint64 ∧ vtype ≠ dtUint32 then .error .errInvalidDb
    else (orInvalidDb (decodeUint64 buf vsize voff)).map fun v => { md with buildEpoch := v }
  else if key = ascii "database_type" then
    if vtype ≠ dtString then .error .errInvalidDb
    else if voff + min vsize 127 > buf.length then .error .errInvalidDb
    else .ok { md with databaseType := (buf.drop voff).take (min vsize 127) }
  else .ok md

/-- One round of the loop of `parse_metadata`: a key and its value. -/
def parseEntry (md : Metadata) (off : ℕ) : Except Status (Metadata × ℕ) :=
  match resolveEntry buf off with
  | .error _ => .error .errInvalidDb
  | .ok (ktype, ksize, koff) =>
    if ktype ≠ dtString then .error .errInvalidDb
    else if koff + ksize > buf.length then .error .errInvalidDb
    else
      match skipValue buf off with
      | .error _ => .error .errInvalidDb
      | .ok valOff =>
        match resolveEntry buf valOff with
        | .error _ => .error .errInvalidDb
        | .ok (vtype, vsize, voff) =>
          match parseField buf md ((buf.drop koff).take ksize) vtype vsize voff with
          | .error e => .error e
          | .ok md => (orInvalidDb (skipValue buf valOff)).map fun off => (md, off)

/-- The loop of `parse_metadata`. -/
def parseEntries (buf : List UInt8) : ℕ → Metadata → ℕ → Except Status Metadata
  | 0, md, _ => .ok md
  | count + 1, md, off =>
    match parseEntry buf md off with
    | .error e => .error e
    | .ok (md, off) => parseEntries buf count md off

/-- `parse_metadata`. -/
def parseMetadata : Except Status Metadata :=
  match decodeCtrl buf 0 with
  | .error _ => .error .errInvalidDb
  | .ok (type, mapSize, off) =>
    if type ≠ dtMap then .error .errInvalidDb
    else
      match parseEntries buf mapSize .zero off with
      | .error e => .error e
      | .ok md =>
        if md.nodeCount = 0 ∨ md.recordSize = 0 ∨ (md.ipVersion ≠ 4 ∧ md.ipVersion ≠ 6) then
          .error .errInvalidDb
        else if md.recordSize ≠ 24 ∧ md.recordSize ≠ 28 ∧ md.recordSize ≠ 32 then
          .error .errInvalidDb
        else .ok md

/-! ## The search tree -/

/-- `read_node`: the record of a node for a bit. -/
def readNode (node bit recordSize nodeOffsetMult : ℕ) : Except Status ℕ :=
  let offset := node * nodeOffsetMult
  match recordSize with
  | 24 =>
    let o := offset + bit * 3
    if o + 3 > buf.length then .error .errCorrupt
    else .ok (byte buf o <<< 16 ||| byte buf (o + 1) <<< 8 ||| byte buf (o + 2))
  | 28 =>
    if offset + 7 > buf.length then .error .errCorrupt
    else if bit = 0 then
      .ok ((byte buf (offset + 3) &&& 0xF0) <<< 20 ||| byte buf offset <<< 16 |||
        byte buf (offset + 1) <<< 8 ||| byte buf (offset + 2))
    else
      .ok ((byte buf (offset + 3) &&& 0x0F) <<< 24 ||| byte buf (offset + 4) <<< 16 |||
        byte buf (offset + 5) <<< 8 ||| byte buf (offset + 6))
  | 32 =>
    let o := offset + bit * 4
    if o + 4 > buf.length then .error .errCorrupt
    else .ok (byte buf o <<< 24 ||| byte buf (o + 1) <<< 16 ||| byte buf (o + 2) <<< 8 |||
      byte buf (o + 3))
  | _ => .error .errCorrupt

/-- `MMDB_DB`. -/
structure Db where
  data : List UInt8
  metadata : Metadata
  dataSectionOffset : ℕ
  dataSectionSize : ℕ
  ipv4StartNode : ℕ
  ipv4StartBitDepth : ℕ
deriving DecidableEq, Repr

/-- The loops of `traverse_tree` and `find_ipv4_start`: `rounds` more bits at most, from bit `i` on.
The result is the node and the number of bits that were read. -/
def followBits (data : List UInt8) (md : Metadata) (bit : ℕ → ℕ) : ℕ → ℕ → ℕ → Except Status (ℕ × ℕ)
  | 0, i, node => .ok (node, i)
  | rounds + 1, i, node =>
    if node < md.nodeCount then
      match readNode data node (bit i) md.recordSize (md.recordSize / 4) with
      | .error e => .error e
      | .ok node => followBits data md bit rounds (i + 1) node
    else .ok (node, i)

/-- The bit `i` of an address. -/
def ipBit (ip : List UInt8) (i : ℕ) : ℕ := byte ip (i >>> 3) >>> (7 - (i &&& 7)) &&& 1

/-- `traverse_tree`. -/
def traverseTree (db : Db) (ip : List UInt8) (startBit startNode : ℕ) : Except Status (ℕ × ℕ) :=
  followBits db.data db.metadata (ipBit ip) (128 - startBit) startBit startNode

/-- `find_ipv4_start`: the node and the depth. -/
def findIpv4Start (md : Metadata) : Except Status (ℕ × ℕ) :=
  followBits data md (fun _ => 0) 96 0 0

/-- `lookup_ip128`: the offset of the data, if there is data. -/
def lookupIp128 (db : Db) (ip : List UInt8) (isIpv4 : Bool) : Except Status (Option ℕ) :=
  let startBit := if isIpv4 then db.ipv4StartBitDepth else 0
  let startNode := if isIpv4 then db.ipv4StartNode else 0
  match traverseTree db ip startBit startNode with
  | .error e => .error e
  | .ok (node, _) =>
    if node = db.metadata.nodeCount then .ok none
    else if node > db.metadata.nodeCount then
      let dataOffset := (node - db.metadata.nodeCount + (2 ^ 64 - dataSeparatorSize)) % 2 ^ 64
      if dataOffset ≥ db.dataSectionSize then .error .errCorrupt else .ok (some dataOffset)
    else .error .errCorrupt

/-! ## Opening a file and looking up an address -/

/-- The end of `mmdb_open`, once the metadata is known and the marker was found. -/
def openSections (md : Metadata) (marker : ℕ) : Except Status Db :=
  if md.nodeCount > (2 ^ 64 - 1) / (md.recordSize / 4) then .error .errInvalidDb
  else
    let dataSectionOffset := md.recordSize / 4 * md.nodeCount + dataSeparatorSize
    if dataSectionOffset > marker then .error .errInvalidDb
    else if md.ipVersion = 6 then
      (findIpv4Start data md).map fun (node, depth) =>
        ⟨data, md, dataSectionOffset, marker - dataSectionOffset, node, depth⟩
    else .ok ⟨data, md, dataSectionOffset, marker - dataSectionOffset, 0, 96⟩

/-- `mmdb_open` on a file with the given bytes. -/
def mmdbOpen : Except Status Db :=
  if data = [] then .error .errOpen
  else
    match findMetadata data with
    | none => .error .errInvalidDb
    | some marker =>
      match parseMetadata (data.drop (marker + metadataMarker.length)) with
      | .error e => .error e
      | .ok md => openSections data md marker

/-- An address as a socket has it, in network byte order. -/
inductive Sockaddr where
  /-- `AF_INET`. -/
  | inet (addr : Vector UInt8 4)
  /-- `AF_INET6`. -/
  | inet6 (addr : Vector UInt8 16)
deriving DecidableEq

/-- `mmdb_lookup_sockaddr`. -/
def mmdbLookupSockaddr (db : Db) : Sockaddr → Except Status (Option ℕ)
  | .inet addr => lookupIp128 db (List.replicate 12 0 ++ addr.toList) true
  | .inet6 addr =>
    if db.metadata.ipVersion = 4 then .error .errIpv6InV4
    else lookupIp128 db addr.toList false

/-- `inet_pton`, for `AF_INET` and for `AF_INET6`. -/
structure InetPton where
  inet : CStr → Option (Vector UInt8 4)
  inet6 : CStr → Option (Vector UInt8 16)

/-- The address that a text stands for: IPv4 is tried first. -/
def InetPton.parse (pton : InetPton) (ipStr : CStr) : Option Sockaddr :=
  match pton.inet ipStr with
  | some addr => some (.inet addr)
  | none => (pton.inet6 ipStr).map .inet6

/-- `mmdb_lookup`. -/
def mmdbLookup (pton : InetPton) (db : Db) (ipStr : CStr) : Except Status (Option ℕ) :=
  match pton.inet ipStr with
  | some addr4 => lookupIp128 db (List.replicate 12 0 ++ addr4.toList) true
  | none =>
    match pton.inet6 ipStr with
    | some addr6 =>
      if db.metadata.ipVersion = 4 then .error .errIpv6InV4
      else lookupIp128 db addr6.toList false
    | none => .error .errBadarg

/-- Looking up a text is looking up the address that it stands for. -/
theorem mmdbLookup_eq_of_parse {pton : InetPton} {ipStr : CStr} {ip : Sockaddr}
    (h : pton.parse ipStr = some ip) (db : Db) :
    mmdbLookup pton db ipStr = mmdbLookupSockaddr db ip := by
  unfold InetPton.parse at h
  unfold mmdbLookup
  cases h4 : pton.inet ipStr with
  | some addr =>
    simp only [h4, Option.some.injEq] at h
    subst h
    rfl
  | none =>
    simp only [h4, Option.map_eq_some_iff] at h
    obtain ⟨addr, h6, rfl⟩ := h
    simp only [h6]
    rfl

end ObbyIRCd.Mmdb
