import ObbyIRCd.Mmdb.Metadata

/-!
# A lookup finds the network of an address

The file of a well-formed database is opened with the numbers that it was written with
(`Database.mmdbOpen_eq`), and reading a node gives the record that was written (`readNode_eq`). So the
loops over the bits of an address walk the tree (`followBits_eq`), and the walk ends in the leaf of
the network that contains the address. For an IPv4 address in an IPv6 tree the first 96 steps were
made when the file was opened; they may end early in a leaf, and then the lookup makes no step.
-/

namespace ObbyIRCd.Mmdb

/-! ## Opening -/

theorem findMetadataFrom_eq {data : List UInt8} {first p : ℕ} (hfirst : first ≤ p)
    (hp : HasAt data p metadataMarker) (start : ℕ) (hstart : p ≤ start)
    (hnone : ∀ i, p < i → ¬ HasAt data i metadataMarker) :
    findMetadataFrom data first start = some p := by
  induction start with
  | zero =>
    obtain rfl : p = 0 := by omega
    exact if_pos ⟨hfirst, hp⟩
  | succ start ih =>
    unfold findMetadataFrom
    rw [if_pos (by omega)]
    rcases Nat.lt_or_eq_of_le hstart with hlt | rfl
    · exact (if_neg (hnone _ hlt)).trans (ih (by omega))
    · exact if_pos hp

variable (d : Database)

theorem RecordSize.length_nodeBytes (rs : RecordSize) (node : ℕ × ℕ) :
    (rs.nodeBytes node).length = rs.bits / 4 := by
  cases rs <;> simp [nodeBytes, beBytes, bits]

theorem Database.length_tree : d.tree.length = d.recordSize.bits / 4 * d.nodes.length := by
  unfold Database.tree
  simp [RecordSize.length_nodeBytes, Nat.mul_comm]

def Database.marker : ℕ := d.recordSize.bits / 4 * d.nodes.length + 16 + d.dataSection.length

theorem Database.file_drop (i : ℕ) :
    d.file.drop (d.marker + i) = (metadataMarker ++ d.metadata).drop i := by
  have hsplit : d.file = (d.tree ++ d.separator.toList ++ d.dataSection) ++
      (metadataMarker ++ d.metadata) := by simp [Database.file]
  have hlen : (d.tree ++ d.separator.toList ++ d.dataSection).length = d.marker := by
    simp [Database.length_tree, Database.marker, Nat.add_assoc]
  rw [hsplit, ← hlen, List.drop_length_add_append]

theorem Database.length_file :
    d.file.length = d.marker + (metadataMarker ++ d.metadata).length := by
  simp [Database.file, Database.length_tree, Database.marker]
  omega

theorem Database.findMetadata_eq : findMetadata d.file = some d.marker := by
  have hlen := d.length_file
  have hle := d.metadata_le
  rw [List.length_append] at hlen hle
  unfold findMetadata metadataMaxSize
  rw [if_neg (by omega)]
  refine findMetadataFrom_eq (by omega) ?_ _ (by omega) fun i hi h => ?_
  · unfold HasAt
    rw [← Nat.add_zero d.marker, d.file_drop]
    exact List.prefix_append _ _
  · obtain ⟨j, rfl⟩ := Nat.exists_eq_add_of_lt hi
    refine d.marker_last (j + 1) (by omega) ?_
    unfold HasAt at h ⊢
    rwa [Nat.add_assoc, d.file_drop] at h

/-! ## Nodes -/

/-- In a sequence of parts of one length, each stands at its multiple of the length. -/
theorem hasAt_flatMap {α : Type*} {f : α → List UInt8} {w : ℕ} (hw : ∀ a, (f a).length = w)
    {xs : List α} {i : ℕ} {x : α} (hx : xs[i]? = some x) (rest : List UInt8) :
    HasAt (xs.flatMap f ++ rest) (i * w) (f x) := by
  unfold HasAt
  induction xs generalizing i with
  | nil => simp at hx
  | cons y ys ih =>
    rw [List.flatMap_cons, List.append_assoc]
    cases i with
    | zero =>
      obtain rfl : y = x := by simpa using hx
      rw [Nat.zero_mul]
      exact List.prefix_append _ _
    | succ i =>
      have hoff : (i + 1) * w = (f y).length + i * w := by rw [hw, Nat.succ_mul, Nat.add_comm]
      rw [hoff, List.drop_length_add_append]
      exact ih (by simpa using hx)

/-- Three bytes shifted together are the lowest 24 bits. -/
theorem or_three (v : ℕ) :
    (v / 65536 % 256) <<< 16 ||| (v / 256 % 256) <<< 8 ||| v % 256 = v % 16777216 := by
  have hlow : (v / 256 % 256) <<< 8 ||| v % 256 = v / 256 % 256 * 256 + v % 256 := by
    rw [← Nat.shiftLeft_add_eq_or_of_lt (Nat.mod_lt v (by decide)), Nat.shiftLeft_eq]
  have hlt : v / 256 % 256 * 256 + v % 256 < 2 ^ 16 := by omega
  rw [Nat.or_assoc, hlow, ← Nat.shiftLeft_add_eq_or_of_lt hlt]
  omega

theorem or_four (x v : ℕ) :
    x <<< 24 ||| (v / 65536 % 256) <<< 16 ||| (v / 256 % 256) <<< 8 ||| v % 256 =
      x * 16777216 + v % 16777216 := by
  have hlt : v % 16777216 < 2 ^ 24 := Nat.mod_lt v (by decide)
  rw [Nat.or_assoc, Nat.or_assoc, ← Nat.or_assoc (_ <<< 16), or_three,
    ← Nat.shiftLeft_add_eq_or_of_lt hlt, Nat.shiftLeft_eq]

theorem and_halves {x : ℕ} (hx : x < 256) : x &&& 0xF0 = (x / 16) <<< 4 ∧ x &&& 0x0F = x % 16 := by
  have hall : ∀ x : Fin 256, x.val &&& 0xF0 = (x.val / 16) <<< 4 ∧ x.val &&& 0x0F = x.val % 16 := by
    decide +kernel
  exact hall ⟨x, hx⟩

theorem readNode_eq (rs : RecordSize) {nodes : List (ℕ × ℕ)} {node : ℕ} (rest : List UInt8)
    (hnode : node < nodes.length)
    (hlt : ∀ node ∈ nodes, node.1 < 2 ^ rs.bits ∧ node.2 < 2 ^ rs.bits) (bit : Bool) :
    readNode (nodes.flatMap rs.nodeBytes ++ rest) node bit.toNat rs.bits (rs.bits / 4) =
      .ok (record nodes node bit) := by
  obtain ⟨⟨left, right⟩, hx⟩ : ∃ x, nodes[node]? = some x := ⟨_, List.getElem?_eq_getElem hnode⟩
  have hbytes := hasAt_flatMap rs.length_nodeBytes hx rest
  obtain ⟨hl, hr⟩ := hlt _ (List.mem_of_getElem? hx)
  have hrec : record nodes node bit = if bit then right else left := by
    unfold record
    rw [List.getD_eq_getElem?_getD, hx]
    rfl
  rw [hrec]
  generalize nodes.flatMap rs.nodeBytes ++ rest = buf at hbytes ⊢
  unfold readNode
  cases rs
  all_goals
    dsimp only [RecordSize.bits]
    simp only [RecordSize.nodeBytes, RecordSize.bits, beBytes, List.cons_append, List.nil_append,
      hasAt_cons, toNat_ofNat_mod, Nat.reducePow, Nat.div_one, Nat.add_assoc, Nat.reduceAdd,
      Nat.reduceDiv] at hbytes hl hr
  case bits24 =>
    obtain ⟨⟨-, h0⟩, ⟨-, h1⟩, ⟨-, h2⟩, ⟨-, h3⟩, ⟨-, h4⟩, ⟨hend, h5⟩, -⟩ := hbytes
    cases bit with
    | false =>
      simp only [Bool.toNat_false, Nat.reduceDiv, Nat.zero_mul, Nat.add_zero, Bool.false_eq_true, if_false]
      rw [if_neg (by omega), h0, h1, h2, or_three, Nat.mod_eq_of_lt hl]
    | true =>
      simp only [Bool.toNat_true, Nat.reduceDiv, Nat.one_mul, Nat.add_assoc, Nat.reduceAdd, if_true]
      rw [if_neg (by omega), h3, h4, h5, or_three, Nat.mod_eq_of_lt hr]
  case bits28 =>
    obtain ⟨⟨-, h0⟩, ⟨-, h1⟩, ⟨-, h2⟩, ⟨-, h3⟩, ⟨-, h4⟩, ⟨-, h5⟩, ⟨hend, h6⟩, -⟩ := hbytes
    -- The shared byte has the highest bits of both records.
    obtain ⟨hhigh, hlow⟩ := and_halves (x := byte buf (node * 7 + 3)) (by omega)
    simp only [Nat.reduceDiv]
    rw [if_neg (by omega)]
    cases bit with
    | false =>
      rw [if_pos Bool.toNat_false, hhigh, ← Nat.shiftLeft_add, h0, h1, h2, or_four]
      simp only [Bool.false_eq_true, if_false, Except.ok.injEq]
      omega
    | true =>
      rw [if_neg (by decide), h4, h5, h6, or_four]
      simp only [if_true, Except.ok.injEq]
      omega
  case bits32 =>
    obtain ⟨⟨-, h0⟩, ⟨-, h1⟩, ⟨-, h2⟩, ⟨-, h3⟩, ⟨-, h4⟩, ⟨-, h5⟩, ⟨-, h6⟩, ⟨hend, h7⟩, -⟩ := hbytes
    cases bit with
    | false =>
      simp only [Bool.toNat_false, Nat.reduceDiv, Nat.zero_mul, Nat.add_zero, Bool.false_eq_true, if_false]
      rw [if_neg (by omega), h1, h2, h3, or_four, Except.ok.injEq]
      omega
    | true =>
      simp only [Bool.toNat_true, Nat.reduceDiv, Nat.one_mul, Nat.add_assoc, Nat.reduceAdd, if_true]
      rw [if_neg (by omega), h5, h6, h7, or_four, Except.ok.injEq]
      omega

theorem EntriesAt.exists_valueAt {buf : List UInt8} {fields : List Field} {off : ℕ} {f : Field}
    (h : EntriesAt buf fields off) (hf : f ∈ fields) : ∃ off, f.ValueAt buf off := by
  induction fields generalizing off with
  | nil => cases hf
  | cons g fields ih =>
    obtain ⟨valOff, next, -, -, hval, -, h⟩ := h
    rcases List.mem_cons.1 hf with rfl | hf
    · exact ⟨valOff, hval⟩
    · exact ih h hf

theorem Database.length_nodes_lt : d.nodes.length < 2 ^ 32 := by
  obtain ⟨data, -, hentries⟩ := d.metadata_ok
  obtain ⟨off, type, data, bs, -, hwidth, -, -, hn⟩ := hentries.exists_valueAt d.nodeCount_ok.1
  calc d.nodes.length = beNat bs := hn
    _ < 256 ^ bs.length := beNat_lt bs
    _ ≤ 256 ^ 4 := Nat.pow_le_pow_right (by decide) hwidth
    _ = 2 ^ 32 := by decide

/-! ## Walking the tree -/

namespace Database

/-- The record that a walk from the root along these bits ends in. -/
def walk (bits : List Bool) : ℕ := PrefixTree.walk (record d.nodes) (isNode d.nodes) 0 bits

theorem readNode_eq {node : ℕ} (hnode : node < d.nodes.length) (bit : Bool) :
    readNode d.file node bit.toNat d.md.recordSize (d.md.recordSize / 4) =
      .ok (record d.nodes node bit) := by
  rw [d.md_eq.2.1]
  exact Mmdb.readNode_eq d.recordSize _ hnode d.record_lt bit

variable {node : ℕ}

theorem followBits_leaf (hleaf : isNode d.nodes node = false) (bit : ℕ → ℕ)
    (rounds i : ℕ) : followBits d.file d.md bit rounds i node = .ok (node, i) := by
  cases rounds with
  | zero => rfl
  | succ rounds =>
    unfold followBits
    rw [d.md_eq.1, if_neg (by simpa [isNode] using hleaf)]

/-- The loop over some bits walks along them. It has read all of them, unless it came to a leaf. -/
theorem followBits_eq (bit : ℕ → ℕ) (bits : List Bool) (i node : ℕ)
    (hbit : ∀ k (hk : k < bits.length), bit (i + k) = (bits.get ⟨k, hk⟩).toNat) :
    ∃ depth, followBits d.file d.md bit bits.length i node =
        .ok (PrefixTree.walk (record d.nodes) (isNode d.nodes) node bits, depth) ∧
      (isNode d.nodes (PrefixTree.walk (record d.nodes) (isNode d.nodes) node bits) = true →
        depth = i + bits.length) := by
  induction bits generalizing i node with
  | nil => exact ⟨i, rfl, fun _ => rfl⟩
  | cons b bits ih =>
    by_cases hnode : isNode d.nodes node = true
    · have hb : bit i = b.toNat := by simpa using hbit 0 (by simp)
      have hrest : ∀ k (hk : k < bits.length), bit (i + 1 + k) = (bits.get ⟨k, hk⟩).toNat := by
        intro k hk
        have h := hbit (k + 1) (by simpa using hk)
        rwa [show i + (k + 1) = i + 1 + k by omega] at h
      obtain ⟨depth, hfollow, hdepth⟩ := ih (i + 1) (record d.nodes node b) hrest
      have hlt : node < d.nodes.length := by simpa [isNode] using hnode
      refine ⟨depth, ?_, fun h => ?_⟩
      · simp only [List.length_cons, followBits, d.md_eq.1, hlt, hb, d.readNode_eq hlt,
          PrefixTree.walk, hnode, if_true]
        exact hfollow
      · simp only [PrefixTree.walk, hnode, if_true] at h
        rw [hdepth h, List.length_cons]
        omega
    · rw [Bool.not_eq_true] at hnode
      refine ⟨i, ?_, fun h => ?_⟩
      · simp only [PrefixTree.walk, hnode, Bool.false_eq_true, if_false]
        exact d.followBits_leaf hnode bit _ i
      · simp only [PrefixTree.walk, hnode, Bool.false_eq_true, if_false] at h

/-- What a record can be: a node, "no data", or the place of an entry of the data section. -/
def IsRecord (r : ℕ) : Prop :=
  r ≤ d.nodes.length ∨
    ∃ off, off < d.dataSection.length ∧ off < 2 ^ 32 ∧ r = d.nodes.length + 16 + off

theorem isRecord_record (hnode : node < d.nodes.length) (b : Bool) :
    d.IsRecord (record d.nodes node b) := by
  have hget : d.nodes.getD node (0, 0) = d.nodes.get ⟨node, hnode⟩ := by
    simp [List.getD_eq_getElem?_getD, hnode]
  have hbits : 2 ^ d.recordSize.bits ≤ 2 ^ 32 := by cases d.recordSize <;> decide
  obtain ⟨hl, hr⟩ := d.record_lt _ (List.get_mem d.nodes ⟨node, hnode⟩)
  have hmem : record d.nodes node b ∈
      [(d.nodes.get ⟨node, hnode⟩).1, (d.nodes.get ⟨node, hnode⟩).2] := by
    unfold record
    rw [hget]
    cases b <;> simp
  have hlt : record d.nodes node b < 2 ^ 32 := by
    simp only [List.mem_cons, List.not_mem_nil, or_false] at hmem
    omega
  refine (d.leaf_ok _ (List.get_mem _ _) _ hmem).imp_right ?_
  rintro ⟨off, hoff, h⟩
  exact ⟨off, hoff, by omega, h⟩

theorem isRecord_walk (bits : List Bool) (h : d.IsRecord node) :
    d.IsRecord (PrefixTree.walk (record d.nodes) (isNode d.nodes) node bits) := by
  induction bits generalizing node with
  | nil => exact h
  | cons b bits ih =>
    by_cases hnode : isNode d.nodes node = true
    · simp only [PrefixTree.walk, hnode, if_true]
      exact ih (d.isRecord_record (by simpa [isNode] using hnode) b)
    · simp only [PrefixTree.walk, hnode]
      exact h

end Database

variable (ip : List UInt8)

theorem ipBit_eq (k : ℕ) (hk : k < (addrBits ip).length) :
    ipBit ip k = ((addrBits ip).get ⟨k, hk⟩).toNat := by
  have h7 : ∀ n, n &&& 7 = n % 8 := fun n => Nat.and_two_pow_sub_one_eq_mod n 3
  have h1 : ∀ n, n &&& 1 = n % 2 := fun n => Nat.and_two_pow_sub_one_eq_mod n 1
  unfold ipBit
  rw [h7, h1, Nat.shiftRight_eq_div_pow k]
  induction ip generalizing k with
  | nil => simp [addrBits] at hk
  | cons b ip ih =>
    have hsplit : addrBits (b :: ip) = byteBits b ++ addrBits ip := rfl
    by_cases h8 : k < 8
    · -- A bit of the first byte.
      have h8' : k < (byteBits b).length := h8
      have hget : (addrBits (b :: ip)).get ⟨k, hk⟩ = (byteBits b).get ⟨k, h8'⟩ := by
        exact List.getElem_append_left h8'
      rw [Nat.shiftRight_eq_div_pow, ← Nat.toNat_testBit]
      have hcases : k = 0 ∨ k = 1 ∨ k = 2 ∨ k = 3 ∨ k = 4 ∨ k = 5 ∨ k = 6 ∨ k = 7 := by omega
      rcases hcases with rfl | rfl | rfl | rfl | rfl | rfl | rfl | rfl <;> rfl
    · -- A bit of a later byte, eight bits further.
      obtain ⟨k, rfl⟩ : ∃ j, k = j + 8 := ⟨k - 8, by omega⟩
      have hk' : k < (addrBits ip).length := by
        rw [hsplit, List.length_append] at hk
        have hlen : (byteBits b).length = 8 := rfl
        omega
      have hget : (addrBits (b :: ip)).get ⟨k + 8, hk⟩ = (addrBits ip).get ⟨k, hk'⟩ := by
        exact List.getElem_append_right' (byteBits b) hk' |>.symm
      have hdiv : (k + 8) / 2 ^ 3 = k / 2 ^ 3 + 1 := by omega
      have hmod : (k + 8) % 8 = k % 8 := by omega
      rw [hget, hdiv, hmod, ← ih k hk']
      rfl

theorem length_addrBits : (addrBits ip).length = 8 * ip.length := by
  unfold addrBits
  simp [byteBits, Nat.mul_comm]

theorem addrBits_zeros :
    addrBits (List.replicate 12 0 ++ ip) = List.replicate 96 false ++ addrBits ip := by
  exact List.flatMap_append

/-! ## Lookups -/

namespace Database

/-- What is known of an opened database. -/
structure Opened (db : Db) : Prop where
  data_eq : db.data = d.file
  metadata_eq : db.metadata = d.md
  dataSectionSize_eq : db.dataSectionSize = d.dataSection.length
  /-- In an IPv6 tree, the walk along 96 zero bits. -/
  ipv4_start : d.ipVersion = .ipv6 → db.ipv4StartNode = d.walk (List.replicate 96 false) ∧
    (isNode d.nodes db.ipv4StartNode = true → db.ipv4StartBitDepth = 96)
  /-- In an IPv4 tree, addresses begin at the root. -/
  ipv4_root : d.ipVersion = .ipv4 → db.ipv4StartNode = 0 ∧ db.ipv4StartBitDepth = 96

theorem mmdbOpen_eq : ∃ db, mmdbOpen d.file = .ok db ∧ d.Opened db := by
  obtain ⟨hcount, hsize, hversion⟩ := d.md_eq
  have hne : d.file ≠ [] := by
    intro h
    have hlen := d.length_file
    rw [h] at hlen
    simp [metadataMarker] at hlen
  have hmeta : d.file.drop (d.marker + metadataMarker.length) = d.metadata := by
    rw [d.file_drop, List.drop_left]
  have hopen : mmdbOpen d.file = openSections d.file d.md d.marker := by
    unfold mmdbOpen
    simp only [hne, d.findMetadata_eq, hmeta, d.parseMetadata_eq, if_false]
  rw [hopen]
  unfold openSections
  -- The sections have the sizes that they were written with.
  have hmult : d.recordSize.bits / 4 = 6 ∨ d.recordSize.bits / 4 = 7 ∨ d.recordSize.bits / 4 = 8 := by
    cases d.recordSize <;> decide
  have hdata : d.marker - (d.recordSize.bits / 4 * d.nodes.length + dataSeparatorSize) =
      d.dataSection.length := by
    unfold marker dataSeparatorSize
    omega
  have hle : ¬ d.recordSize.bits / 4 * d.nodes.length + dataSeparatorSize > d.marker := by
    unfold marker dataSeparatorSize
    omega
  have hfew : ¬ d.nodes.length > (2 ^ 64 - 1) / (d.recordSize.bits / 4) := by
    have hlt := d.length_nodes_lt
    rcases hmult with h | h | h <;> rw [h] <;> omega
  simp only [hcount, hsize, hversion, hle, hfew, hdata, if_false]
  cases hv : d.ipVersion with
  | ipv4 =>
    refine ⟨_, rfl, rfl, rfl, rfl, fun h => ?_, fun _ => ⟨rfl, rfl⟩⟩
    rw [hv] at h
    cases h
  | ipv6 =>
    obtain ⟨depth, hfollow, hdepth⟩ := d.followBits_eq (fun _ => 0)
      (List.replicate 96 false) 0 0 fun k hk => by rw [List.get_eq_getElem, List.getElem_replicate]; rfl
    rw [List.length_replicate] at hfollow hdepth
    have hstart : findIpv4Start d.file d.md = .ok (d.walk (List.replicate 96 false), depth) := hfollow
    simp only [IpVersion.number, hstart, Except.map, if_true]
    refine ⟨_, rfl, rfl, rfl, rfl, fun _ => ⟨rfl, fun h => ?_⟩, fun h => ?_⟩
    · rw [hdepth h]
    · rw [hv] at h
      cases h

variable {bits : List Bool}

variable {db : Db} {ip : Sockaddr}

/-- From the 96th bit on, an address `::a.b.c.d` is walked along the bits of `a.b.c.d`. -/
theorem follow_inet (addr : Vector UInt8 4) (node : ℕ) :
    ∃ depth, followBits d.file d.md (ipBit (List.replicate 12 0 ++ addr.toList)) 32 96 node =
      .ok (PrefixTree.walk (record d.nodes) (isNode d.nodes) node (addrBits addr.toList), depth) := by
  have hlen : (addrBits addr.toList).length = 32 := by rw [length_addrBits, Vector.length_toList]
  have hbits : addrBits (List.replicate 12 0 ++ addr.toList) =
      List.replicate 96 false ++ addrBits addr.toList := addrBits_zeros _
  obtain ⟨depth, h, -⟩ := d.followBits_eq (ipBit (List.replicate 12 0 ++ addr.toList))
    (addrBits addr.toList) 96 node fun k hk => by
      have hk' : 96 + k < (addrBits (List.replicate 12 0 ++ addr.toList)).length := by
        rw [hbits, List.length_append, List.length_replicate]
        omega
      rw [ipBit_eq _ _ hk']
      simp only [List.get_eq_getElem, hbits]
      rw [List.getElem_append_right (by simp)]
      simp
  rw [hlen] at h
  exact ⟨depth, h⟩

variable (hdb : d.Opened db)
include hdb

theorem traverse_eq :
    ∀ {ip : Sockaddr} {bits : List Bool}, d.ipVersion.searchBits ip = some bits →
      bits.length = d.ipVersion.width ∧ ∃ addr isIpv4 depth,
        mmdbLookupSockaddr db ip = lookupIp128 db addr isIpv4 ∧
        traverseTree db addr (if isIpv4 then db.ipv4StartBitDepth else 0)
          (if isIpv4 then db.ipv4StartNode else 0) = .ok (d.walk bits, depth) := by
  intro ip bits hbits
  unfold traverseTree
  rw [hdb.data_eq, hdb.metadata_eq]
  cases hv : d.ipVersion with
  | ipv4 =>
    rw [hv] at hbits
    obtain ⟨hnode, hdepth⟩ := hdb.ipv4_root hv
    cases ip with
    | inet addr =>
      obtain rfl : addrBits addr.toList = bits := Option.some.inj hbits
      obtain ⟨depth, h⟩ := d.follow_inet addr 0
      refine ⟨by rw [length_addrBits, Vector.length_toList]; rfl, _, true, depth, rfl, ?_⟩
      rw [hnode, hdepth]
      exact h
    | inet6 addr => cases hbits
  | ipv6 =>
    rw [hv] at hbits
    obtain ⟨hnode, hdepth⟩ := hdb.ipv4_start hv
    cases ip with
    | inet addr =>
      have hzeros := addrBits_zeros addr.toList
      obtain rfl : _ = bits := Option.some.inj hbits
      have hlen : (addrBits (List.replicate 12 0 ++ addr.toList)).length = 128 := by
        rw [length_addrBits, List.length_append, List.length_replicate, Vector.length_toList]
      have hsplit : d.walk (addrBits (List.replicate 12 0 ++ addr.toList)) =
          PrefixTree.walk (record d.nodes) (isNode d.nodes) db.ipv4StartNode
            (addrBits addr.toList) := by
        rw [hzeros, walk, PrefixTree.walk_append, hnode]
        rfl
      rw [hsplit]
      by_cases hinner : isNode d.nodes db.ipv4StartNode = true
      · obtain ⟨depth, h⟩ := d.follow_inet addr db.ipv4StartNode
        refine ⟨hlen, _, true, depth, rfl, ?_⟩
        rw [hdepth hinner]
        exact h
      · -- The zero bits end in a leaf: the lookup stays there.
        rw [Bool.not_eq_true] at hinner
        refine ⟨hlen, _, true, db.ipv4StartBitDepth, rfl, ?_⟩
        rw [if_pos rfl, if_pos rfl, d.followBits_leaf hinner,
          (PrefixTree.Leads.leaf hinner).walk_eq List.nil_prefix]
    | inet6 addr =>
      obtain rfl : addrBits addr.toList = bits := Option.some.inj hbits
      have hlen : (addrBits addr.toList).length = 128 := by
        rw [length_addrBits, Vector.length_toList]
      obtain ⟨depth, h, -⟩ := d.followBits_eq (ipBit addr.toList) (addrBits addr.toList) 0 0
        fun k hk => by rw [Nat.zero_add, ipBit_eq]
      rw [hlen] at h
      refine ⟨hlen, addr.toList, false, depth, ?_, h⟩
      unfold mmdbLookupSockaddr
      rw [hdb.metadata_eq, d.md_eq.2.2, hv]
      rfl

variable (hbits : d.ipVersion.searchBits ip = some bits)
include hbits

/-- The result of a lookup is what the leaf at the end of the walk says. -/
theorem lookup_eq :
    isNode d.nodes (d.walk bits) = false ∧
      ((mmdbLookupSockaddr db ip = .ok none ∧ d.walk bits = d.nodes.length) ∨
        ∃ off, mmdbLookupSockaddr db ip = .ok (some off) ∧
          d.walk bits = d.nodes.length + 16 + off) := by
  obtain ⟨hlen, addr, isIpv4, depth, hlookup, htree⟩ := d.traverse_eq hdb hbits
  have hleaf : isNode d.nodes (d.walk bits) = false := d.depth_ok bits hlen
  refine ⟨hleaf, ?_⟩
  rw [hlookup]
  have hge : d.nodes.length ≤ d.walk bits := by simpa [isNode] using hleaf
  unfold lookupIp128
  simp only [htree, hdb.metadata_eq, d.md_eq.1, hdb.dataSectionSize_eq]
  have hroot : d.IsRecord 0 := .inl (Nat.zero_le _)
  rcases d.isRecord_walk bits hroot with hle | ⟨off, hoff, hlt, hsome⟩
  · have hnone := Nat.le_antisymm hle hge
    exact .inl ⟨if_pos hnone, hnone⟩
  change d.walk bits = _ at hsome
  refine .inr ⟨off, ?_, hsome⟩
  have hoffset : (d.walk bits - d.nodes.length + (2 ^ 64 - dataSeparatorSize)) % 2 ^ 64 = off := by
    unfold dataSeparatorSize
    omega
  rw [if_neg (by omega), if_pos (by omega), hoffset, if_neg (by omega)]

/-- A lookup gives an entry exactly if the tree has a network with it that contains the address. -/
theorem lookup_some_iff (off : ℕ) :
    mmdbLookupSockaddr db ip = .ok (some off) ↔ ∃ p, p <+: bits ∧ d.Network p off := by
  obtain ⟨hleaf, hres⟩ := d.lookup_eq hdb hbits
  have hwalk : d.walk bits = d.nodes.length + 16 + off ↔ ∃ p, p <+: bits ∧ d.Network p off :=
    PrefixTree.walk_eq_iff hleaf
  rw [← hwalk]
  rcases hres with ⟨h, hnone⟩ | ⟨off', h, hsome⟩
  · simp only [h, Except.ok.injEq, reduceCtorEq, false_iff]
    omega
  · simp only [h, Except.ok.injEq, Option.some.injEq]
    omega

/-- A lookup gives no entry exactly if no network contains the address. -/
theorem lookup_none_iff :
    mmdbLookupSockaddr db ip = .ok none ↔ ∀ p off, p <+: bits → ¬ d.Network p off := by
  constructor
  · intro h p off hp hnet
    have hsome := (d.lookup_some_iff hdb hbits off).2 ⟨p, hp, hnet⟩
    rw [h] at hsome
    cases hsome
  · intro hnone
    rcases (d.lookup_eq hdb hbits).2 with ⟨h, -⟩ | ⟨off, h, -⟩
    · exact h
    · obtain ⟨p, hp, hnet⟩ := (d.lookup_some_iff hdb hbits off).1 h
      exact absurd hnet (hnone p off hp)

omit hbits

omit hdb

/-- Of the networks of a tree, at most one contains an address. -/
theorem network_unique {p p' : List Bool} {off off' : ℕ} (h : d.Network p off)
    (h' : d.Network p' off') (hp : p <+: bits) (hp' : p' <+: bits) : p = p' ∧ off = off' := by
  obtain ⟨hpath, hleaf⟩ := PrefixTree.Leads.unique h h' hp hp'
  exact ⟨hpath, by omega⟩

theorem lookup_congr (hdb : d.Opened db) {ip' : Sockaddr}
    (hbits : d.ipVersion.searchBits ip = some bits)
    (hbits' : d.ipVersion.searchBits ip' = some bits) :
    mmdbLookupSockaddr db ip = mmdbLookupSockaddr db ip' := by
  rcases (d.lookup_eq hdb hbits).2 with ⟨h, hw⟩ | ⟨off, h, hw⟩ <;>
    rcases (d.lookup_eq hdb hbits').2 with ⟨h', hw'⟩ | ⟨off', h', hw'⟩ <;> rw [h, h']
  · omega
  · omega
  · obtain rfl : off = off' := by omega
    rfl

end Database

/-- The bytes of `::a.b.c.d`. -/
theorem toList_ipv4Compatible (addr : Vector UInt8 4) :
    (ipv4Compatible addr).toList = List.replicate 12 0 ++ addr.toList := by
  have h : ((Vector.replicate 12 0 : Vector UInt8 12) ++ addr).toList =
      List.replicate 12 0 ++ addr.toList := by
    rw [Vector.toList_append, Vector.toList_replicate]
  exact h

/-- For every well-formed database, the file is opened, and the lookup of an address that the tree is
for gives the entry of the one network that contains it, or that there is none. An IPv6 address in an
IPv4 tree is refused. In an IPv6 tree, `a.b.c.d` gives the same as `::a.b.c.d`. -/
theorem mmdbLookup_network (d : Database) : ∃ db, mmdbOpen d.file = .ok db ∧
    (∀ (pton : InetPton) (ipStr : CStr) (ip : Sockaddr), pton.parse ipStr = some ip →
      (∀ bits, d.ipVersion.searchBits ip = some bits →
        (∀ off, mmdbLookup pton db ipStr = .ok (some off) ↔ ∃ p, p <+: bits ∧ d.Network p off) ∧
        (mmdbLookup pton db ipStr = .ok none ↔ ∀ p off, p <+: bits → ¬ d.Network p off) ∧
        ∀ p off p' off', d.Network p off → d.Network p' off' → p <+: bits → p' <+: bits →
          p = p' ∧ off = off') ∧
      (d.ipVersion.searchBits ip = none → mmdbLookup pton db ipStr = .error .errIpv6InV4)) ∧
    (d.ipVersion = .ipv6 → ∀ addr : Vector UInt8 4,
      mmdbLookupSockaddr db (.inet addr) =
        mmdbLookupSockaddr db (.inet6 (ipv4Compatible addr))) := by
  obtain ⟨db, hopen, hdb⟩ := d.mmdbOpen_eq
  refine ⟨db, hopen, fun pton ipStr ip hip => ?_, fun hv addr => ?_⟩
  · rw [mmdbLookup_eq_of_parse hip]
    refine ⟨fun bits hbits => ⟨fun off => d.lookup_some_iff hdb hbits off,
      d.lookup_none_iff hdb hbits, fun p off p' off' h h' => d.network_unique h h'⟩, fun hnone => ?_⟩
    -- Only an IPv6 address in an IPv4 tree has no bits.
    cases hv : d.ipVersion <;> cases ip <;> rw [hv] at hnone <;> try cases hnone
    have hversion : db.metadata.ipVersion = 4 := by rw [hdb.metadata_eq, d.md_eq.2.2, hv]; rfl
    exact if_pos hversion
  · have hbits : d.ipVersion.searchBits (.inet addr) =
        some (addrBits (List.replicate 12 0 ++ addr.toList)) := by
      rw [hv]
      rfl
    refine d.lookup_congr hdb hbits ?_
    rw [hv]
    change some (addrBits (ipv4Compatible addr).toList) = _
    rw [toList_ipv4Compatible]

/-- The metadata of an IPv4 tree with one node of 24-bit records. -/
def smallMetadata : List UInt8 :=
  [0xE3] ++ ([0x4A] ++ ascii "node_count" ++ [0xC1, 1]) ++
    ([0x4B] ++ ascii "record_size" ++ [0xA1, 24]) ++ ([0x4A] ++ ascii "ip_version" ++ [0xA1, 4])

theorem smallMetadata_last : ∀ i < (metadataMarker ++ smallMetadata).length, 0 < i →
    ¬ HasAt (metadataMarker ++ smallMetadata) i metadataMarker := by
  decide +kernel

/-- An IPv4 tree with data for `128.0.0.0/1`. -/
def smallDatabase : Database where
  recordSize := .bits24
  ipVersion := .ipv4
  nodes := [(1, 17)]
  separator := Vector.replicate 16 0
  dataSection := [0x41, 0x58]
  metadata := smallMetadata
  fields := [.nodeCount 1, .recordSize 24, .ipVersion 4]
  nodes_ne := by decide
  record_lt := by decide
  leaf_ok := by
    intro node hnode r hr
    obtain rfl : node = (1, 17) := by simpa using hnode
    obtain rfl | rfl : r = 1 ∨ r = 17 := by simpa using hr
    · exact .inl (by decide)
    · exact .inr ⟨0, by decide, rfl⟩
  depth_ok := by
    intro bits hbits
    cases bits with
    | nil => cases hbits
    | cons b bits => cases b <;> cases bits <;> rfl
  metadata_ok := by
    -- Each field stands where the one before ends.
    have hstring : ∀ off s, Writable dtString s.length ∧
        HasAt smallMetadata off (controlBytes dtString s.length) ∧
        HasAt smallMetadata (off + (controlBytes dtString s.length).length) s →
        StringAt smallMetadata off s := fun off s ⟨h₁, h₂, h₃⟩ => ⟨_, .inl ⟨h₁, h₂, rfl⟩, h₃⟩
    have huint : ∀ types width off type b, type ∈ types ∧ 1 ≤ width ∧ Writable type 1 ∧
        HasAt smallMetadata off (controlBytes type 1) ∧
        HasAt smallMetadata (off + (controlBytes type 1).length) [b] →
        UintAt smallMetadata types width off b.toNat :=
      fun types width off type b ⟨h₁, h₂, h₃, h₄, h₅⟩ =>
        ⟨type, _, [b], h₁, h₂, .inl ⟨h₃, h₄, rfl⟩, h₅, by simp [beNat]⟩
    have hspan : ∀ off type size, Writable type size ∧
        HasAt smallMetadata off (controlBytes type size) ∧
        (type ≠ dtMap ∧ type ≠ dtArray ∧ type ≠ dtBool) ∧
        off + (controlBytes type size).length + size ≤ smallMetadata.length →
        Spans smallMetadata (maxDecodeDepth + 1) off
          (off + (controlBytes type size).length + size) := by
      intro off type size ⟨h₁, h₂, ⟨hmap, harray, hbool⟩, hle⟩
      refine .inr ⟨type, size, _, ⟨h₁, h₂, rfl⟩, ?_⟩
      rw [if_neg hmap, if_neg harray, if_neg hbool]
      exact ⟨rfl, hle⟩
    refine ⟨1, ⟨by decide, by decide, by decide⟩, 12, 14, ?_, ?_, ?_, ?_, 26, 28, ?_, ?_, ?_, ?_,
      39, 41, ?_, ?_, ?_, ?_, trivial⟩
    · exact hstring 1 _ (by decide)
    · exact hspan 1 dtString 10 (by decide)
    · exact huint _ 4 12 dtUint32 1 (by decide)
    · exact hspan 12 dtUint32 1 (by decide)
    · exact hstring 14 _ (by decide)
    · exact hspan 14 dtString 11 (by decide)
    · exact huint _ 2 26 dtUint16 24 (by decide)
    · exact hspan 26 dtUint16 1 (by decide)
    · exact hstring 28 _ (by decide)
    · exact hspan 28 dtString 10 (by decide)
    · exact huint _ 2 39 dtUint16 4 (by decide)
    · exact hspan 39 dtUint16 1 (by decide)
  nodeCount_ok := ⟨by decide, fun n h => by simpa using h⟩
  recordSize_ok := ⟨by decide, fun n h => by simpa [RecordSize.bits] using h⟩
  ipVersion_ok := ⟨by decide, fun n h => by simpa [IpVersion.number] using h⟩
  marker_last := by
    intro i hi h
    have hlt : i < (metadataMarker ++ smallMetadata).length := by
      by_contra hge
      have hnil : (metadataMarker ++ smallMetadata).drop i = [] :=
        List.drop_eq_nil_of_le (Nat.le_of_not_lt hge)
      unfold HasAt at h
      rw [hnil] at h
      exact absurd h (by decide)
    exact smallMetadata_last i hlt hi h
  metadata_le := by decide

/-- `inet_pton` on two texts. -/
def twoTexts : InetPton where
  inet ipStr := if ipStr.bytes = ascii "200.0.0.1" then some #v[200, 0, 0, 1] else none
  inet6 ipStr :=
    if ipStr.bytes = ascii "::1" then some #v[0, 0, 0, 0, 0, 0, 0, 0, 0, 0, 0, 0, 0, 0, 0, 1]
    else none

/-- `mmdbLookup_network` at the small database: `200.0.0.1` is in its one network. -/
theorem mmdbLookup_small : ∃ db, mmdbOpen smallDatabase.file = .ok db ∧
    mmdbLookup twoTexts db ⟨ascii "200.0.0.1", forall_mem_of_all (by decide)⟩ = .ok (some 0) := by
  obtain ⟨db, hopen, hlookup, -⟩ := mmdbLookup_network smallDatabase
  refine ⟨db, hopen, ?_⟩
  have hparse : twoTexts.parse ⟨ascii "200.0.0.1", forall_mem_of_all (by decide)⟩ = some (.inet #v[200, 0, 0, 1]) := by
    decide
  have hnet : smallDatabase.Network [true] 0 := .step rfl (.leaf rfl)
  exact (((hlookup twoTexts _ _ hparse).1 _ rfl).1 0).2 ⟨[true], by decide, hnet⟩

/-- An IPv6 address is in no network of an IPv4 tree; the lookup does not find nothing, it is
refused. -/
theorem ipv6_in_ipv4_refused : ∃ db, mmdbOpen smallDatabase.file = .ok db ∧
    mmdbLookup twoTexts db ⟨ascii "::1", forall_mem_of_all (by decide)⟩ = .error .errIpv6InV4 := by
  refine ⟨⟨smallDatabase.file, ⟨1, 24, 4, 0, []⟩, 22, 2, 0, 96⟩, ?_, ?_⟩
  · decide +kernel
  · decide +kernel

end ObbyIRCd.Mmdb
