import ObbyIRCd.Mmdb.Model
import ObbyIRCd.Lib.PrefixTree

/-!
# The MaxMind database format

What a well-formed file is, in the terms of the format and not of the reader: how a control byte, a
pointer, an integer and a node are written, and what the parts of a file are. A field of the metadata
may be a pointer to where its value stands, and keys that the reader does not know may have any value.
-/

namespace ObbyIRCd.Mmdb

/-! ## Fields -/

variable (buf : List UInt8) (off : ℕ)

/-- The bytes stand in the buffer from the offset on. -/
def HasAt (bs : List UInt8) : Prop := bs <+: buf.drop off

instance (buf : List UInt8) (off : ℕ) (bs : List UInt8) : Decidable (HasAt buf off bs) :=
  inferInstanceAs (Decidable (bs <+: buf.drop off))

/-- A big-endian integer of `k` bytes. -/
def beBytes : ℕ → ℕ → List UInt8
  | 0, _ => []
  | k + 1, v => UInt8.ofNat (v / 256 ^ k) :: beBytes k v

/-- The low bits of a control byte for a size, and the bytes of the size that follow it. -/
def sizeField (size : ℕ) : ℕ × List UInt8 :=
  if size < 29 then (size, [])
  else if size < 285 then (29, beBytes 1 (size - 29))
  else if size < 65821 then (30, beBytes 2 (size - 285))
  else (31, beBytes 3 (size - 65821))

/-- The control byte of a field with what belongs to it: types above 7 are in a byte of their own. -/
def controlBytes (type size : ℕ) : List UInt8 :=
  if type ≤ 7 then UInt8.ofNat (type * 32 + (sizeField size).1) :: (sizeField size).2
  else UInt8.ofNat (sizeField size).1 :: UInt8.ofNat (type - 7) :: (sizeField size).2

/-- A type other than a pointer, and a size, that a control byte can be written for. -/
def Writable (type size : ℕ) : Prop := 2 ≤ type ∧ type ≤ 262 ∧ size < 65821 + 2 ^ 24

instance (type size : ℕ) : Decidable (Writable type size) :=
  inferInstanceAs (Decidable (2 ≤ type ∧ type ≤ 262 ∧ size < 65821 + 2 ^ 24))

/-- A field that is not a pointer begins at `off`; its payload is at `data`. -/
def ControlAt (type size data : ℕ) : Prop :=
  Writable type size ∧ HasAt buf off (controlBytes type size) ∧
    data = off + (controlBytes type size).length

def pointerTarget (low : ℕ) (payload : List UInt8) : ℕ :=
  match payload.length with
  | 1 => low * 256 + beNat payload
  | 2 => 2048 + (low * 65536 + beNat payload)
  | 3 => 526336 + (low * 16777216 + beNat payload)
  | _ => beNat payload

/-- A pointer to `target` stands at `off` and ends at `next`. -/
def PointerAt (target next : ℕ) : Prop :=
  ∃ low payload, low < 8 ∧ 1 ≤ payload.length ∧ payload.length ≤ 4 ∧
    HasAt buf off (UInt8.ofNat (32 + (payload.length - 1) * 8 + low) :: payload) ∧
    target = pointerTarget low payload ∧ next = off + 1 + payload.length

/-- The field at `off` has this type, size and payload: it stands there, or a pointer to it does. -/
def EntryAt (type size data : ℕ) : Prop :=
  ControlAt buf off type size data ∨
    ∃ target next, PointerAt buf off target next ∧ ControlAt buf target type size data

/-- `n` steps of a relation. -/
def Steps (R : ℕ → ℕ → Prop) : ℕ → ℕ → ℕ → Prop
  | 0, a, b => a = b
  | n + 1, a, b => ∃ c, R a c ∧ Steps R n c b

/-- The field at `off` ends at `next` and has at most so many levels of maps and arrays. -/
def Spans (buf : List UInt8) : ℕ → ℕ → ℕ → Prop
  | 0, _, _ => False
  | levels + 1, off, next =>
    (∃ target, PointerAt buf off target next) ∨
    ∃ type size data, ControlAt buf off type size data ∧
      if type = dtMap then Steps (Spans buf levels) (size * 2) data next
      else if type = dtArray then Steps (Spans buf levels) size data next
      else if type = dtBool then next = data
      else next = data + size ∧ data + size ≤ buf.length

/-- The field is an integer of one of the types and at most so many bytes. -/
def UintAt (types : List ℕ) (width off n : ℕ) : Prop :=
  ∃ type data bs, type ∈ types ∧ bs.length ≤ width ∧ EntryAt buf off type bs.length data ∧
    HasAt buf data bs ∧ n = beNat bs

def StringAt (s : List UInt8) : Prop :=
  ∃ data, EntryAt buf off dtString s.length data ∧ HasAt buf data s

/-! ## Metadata -/

/-- An entry of the metadata map. -/
inductive Field where
  | nodeCount (n : ℕ)
  | recordSize (n : ℕ)
  | ipVersion (n : ℕ)
  | buildEpoch (n : ℕ)
  | databaseType (s : List UInt8)
  /-- Any other key: `binary_format_major_version`, `languages`, `description`. -/
  | other (key : List UInt8)
deriving DecidableEq

def knownKeys : List (List UInt8) :=
  [ascii "node_count", ascii "record_size", ascii "ip_version", ascii "build_epoch",
    ascii "database_type"]

def Field.key : Field → List UInt8
  | nodeCount _ => ascii "node_count"
  | recordSize _ => ascii "record_size"
  | ipVersion _ => ascii "ip_version"
  | buildEpoch _ => ascii "build_epoch"
  | databaseType _ => ascii "database_type"
  | other key => key

/-- The value of an entry stands at `off`, in the type that the format gives the key. -/
def Field.ValueAt : Field → Prop
  | nodeCount n => UintAt buf [dtUint32, dtUint16] 4 off n
  | recordSize n => UintAt buf [dtUint16, dtUint32] 2 off n
  | ipVersion n => UintAt buf [dtUint16, dtUint32] 2 off n
  | buildEpoch n => UintAt buf [dtUint64, dtUint32] 8 off n
  | databaseType s => StringAt buf off s
  | other key => key ∉ knownKeys ∧ ∃ type size data, EntryAt buf off type size data

def EntriesAt (buf : List UInt8) : List Field → ℕ → Prop
  | [], _ => True
  | f :: fs, off => ∃ valOff next, StringAt buf off f.key ∧
      Spans buf (maxDecodeDepth + 1) off valOff ∧ f.ValueAt buf valOff ∧
      Spans buf (maxDecodeDepth + 1) valOff next ∧ EntriesAt buf fs next

def MetadataAt (fields : List Field) : Prop :=
  ∃ data, ControlAt buf 0 dtMap fields.length data ∧ EntriesAt buf fields data

/-! ## Files -/

/-- The sizes of a record that are in use. -/
inductive RecordSize where
  | bits24
  | bits28
  | bits32
deriving DecidableEq

namespace RecordSize

def bits : RecordSize → ℕ
  | bits24 => 24
  | bits28 => 28
  | bits32 => 32

/-- A node of two records. Of records of 28 bits, the highest four bits of both share a byte. -/
def nodeBytes : RecordSize → ℕ × ℕ → List UInt8
  | bits24, (left, right) => beBytes 3 left ++ beBytes 3 right
  | bits28, (left, right) =>
    beBytes 3 left ++ UInt8.ofNat (left / 2 ^ 24 * 16 + right / 2 ^ 24) :: beBytes 3 right
  | bits32, (left, right) => beBytes 4 left ++ beBytes 4 right

end RecordSize

/-- What addresses the tree is for. -/
inductive IpVersion where
  | ipv4
  | ipv6
deriving DecidableEq

namespace IpVersion

def number : IpVersion → ℕ
  | ipv4 => 4
  | ipv6 => 6

def width : IpVersion → ℕ
  | ipv4 => 32
  | ipv6 => 128

end IpVersion

def record (nodes : List (ℕ × ℕ)) (node : ℕ) (bit : Bool) : ℕ :=
  if bit then (nodes.getD node (0, 0)).2 else (nodes.getD node (0, 0)).1

/-- Records below the number of nodes are nodes; all others are leaves. -/
def isNode (nodes : List (ℕ × ℕ)) (r : ℕ) : Bool := r < nodes.length

/-- A well-formed database. -/
structure Database where
  recordSize : RecordSize
  ipVersion : IpVersion
  nodes : List (ℕ × ℕ)
  separator : Vector UInt8 16
  dataSection : List UInt8
  metadata : List UInt8
  fields : List Field
  nodes_ne : nodes ≠ []
  record_lt : ∀ node ∈ nodes, node.1 < 2 ^ recordSize.bits ∧ node.2 < 2 ^ recordSize.bits
  /-- A record that is not a node is the number of nodes, or the place of an entry in the data
  section: the number of nodes, 16 and the offset. -/
  leaf_ok : ∀ node ∈ nodes, ∀ r ∈ [node.1, node.2], r ≤ nodes.length ∨
    ∃ off < dataSection.length, r = nodes.length + 16 + off
  depth_ok : ∀ bits : List Bool, bits.length = ipVersion.width →
    isNode nodes (PrefixTree.walk (record nodes) (isNode nodes) 0 bits) = false
  /-- The metadata is a map that says what the tree is. -/
  metadata_ok : MetadataAt metadata fields
  nodeCount_ok : .nodeCount nodes.length ∈ fields ∧ ∀ n, .nodeCount n ∈ fields → n = nodes.length
  recordSize_ok : .recordSize recordSize.bits ∈ fields ∧
    ∀ n, .recordSize n ∈ fields → n = recordSize.bits
  ipVersion_ok : .ipVersion ipVersion.number ∈ fields ∧
    ∀ n, .ipVersion n ∈ fields → n = ipVersion.number
  marker_last : ∀ i, 0 < i → ¬ HasAt (metadataMarker ++ metadata) i metadataMarker
  metadata_le : (metadataMarker ++ metadata).length ≤ 128 * 1024

namespace Database

def tree (d : Database) : List UInt8 := d.nodes.flatMap d.recordSize.nodeBytes

def file (d : Database) : List UInt8 :=
  d.tree ++ (d.separator.toList ++ (d.dataSection ++ (metadataMarker ++ d.metadata)))

/-- The tree has a network with these leading bits, whose data is at the offset. -/
def Network (d : Database) (bits : List Bool) (off : ℕ) : Prop :=
  PrefixTree.Leads (record d.nodes) (isNode d.nodes) 0 bits (d.nodes.length + 16 + off)

end Database

def byteBits (b : UInt8) : List Bool :=
  [b.toNat.testBit 7, b.toNat.testBit 6, b.toNat.testBit 5, b.toNat.testBit 4, b.toNat.testBit 3,
    b.toNat.testBit 2, b.toNat.testBit 1, b.toNat.testBit 0]

/-- The bits of an address in network byte order. -/
def addrBits (addr : List UInt8) : List Bool := addr.flatMap byteBits

/-- The IPv6 address `::a.b.c.d`. -/
def ipv4Compatible (addr : Vector UInt8 4) : Vector UInt8 16 :=
  ((Vector.replicate 12 0 : Vector UInt8 12) ++ addr : Vector UInt8 (12 + 4))

/-- The bits by which the tree of a database is searched for an address: none for an IPv6 address in
an IPv4 tree, and those of `::a.b.c.d` for an IPv4 address in an IPv6 tree. -/
def IpVersion.searchBits : IpVersion → Sockaddr → Option (List Bool)
  | ipv4, .inet addr => some (addrBits addr.toList)
  | ipv4, .inet6 _ => none
  | ipv6, .inet addr => some (addrBits (List.replicate 12 0 ++ addr.toList))
  | ipv6, .inet6 addr => some (addrBits addr.toList)

end ObbyIRCd.Mmdb
