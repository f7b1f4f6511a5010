import Mathlib.Algebra.GroupWithZero.Nat
import ObbyIRCd.Buffers.Model
import ObbyIRCd.Lib.Framing

/-!
# What the buffer's operations do to its bytes

The bytes of a queue are those of its blocks, in order (`Dbuf.contents`), and a queue is well formed
when its `length` counts them and no block is empty (`Dbuf.WF`). `dbufPut_spec` says that a put
appends the packet, `dbufDelete_spec` that a delete drops bytes from the front, and
`dbufGetmsg_spec` what one call of the scanner returns and leaves, as a function of the bytes alone:
where the block boundaries lie makes no difference. All three keep the queue well formed.
-/

namespace ObbyIRCd.Buffers

open List Framing DbufBuf

/-- The bytes stored in a queue. -/
def Dbuf.contents (dyn : Dbuf) : List UInt8 := dyn.dbufList.flatMap DbufBuf.data

/-- The queue's `length` is the sum of the block sizes, and no block is empty. -/
structure Dbuf.WF (dyn : Dbuf) : Prop where
  /-- `length` counts the bytes of the blocks. -/
  length_eq : dyn.length = (dyn.dbufList.map DbufBuf.size).sum
  size_ne : ∀ block ∈ dyn.dbufList, block.size ≠ 0

theorem Dbuf.length_contents (dyn : Dbuf) : dyn.contents.length = (dyn.dbufList.map size).sum := by
  simp only [Dbuf.contents, length_flatMap]
  rfl

theorem dbufQueueInit_wf : dbufQueueInit.WF := ⟨rfl, by simp [dbufQueueInit]⟩

/-- What `append` puts into a block. -/
theorem DbufBuf.append_data (block : DbufBuf) (buf : List UInt8) (amount : ℕ)
    (h : amount ≤ dbufBlockSize - block.size) :
    (block.append buf amount h).data = block.data ++ buf.take amount := rfl

/-- The copy loop appends the packet to the bytes of the blocks. It keeps `length` in step, and
leaves no empty block: the blocks before the last are not empty, nor is the last one when nothing is
left to copy. -/
theorem dbufPutLoop_spec (length : ℕ) (front : List DbufBuf) (block : DbufBuf) (buf : List UInt8)
    (hlen : length = ((front ++ [block]).map size).sum)
    (hfront : ∀ b ∈ front, b.size ≠ 0) (hblock : buf = [] → block.size ≠ 0) :
    (dbufPutLoop length front block buf).WF ∧
      (dbufPutLoop length front block buf).contents = (front ++ [block]).flatMap data ++ buf := by
  rw [dbufPutLoop]
  split_ifs with hbuf hfull
  · -- Nothing left to copy.
    subst hbuf
    refine ⟨⟨hlen, ?_⟩, by simp [Dbuf.contents]⟩
    exact forall_mem_append.mpr ⟨hfront, forall_mem_singleton.mpr (hblock rfl)⟩
  · -- The last block is full: copy into a new one.
    have hpos := length_pos_iff.mpr hbuf
    have hfullsize : block.size ≠ 0 := by
      have := block.size_le
      simp only [dbufBlockSize] at *
      omega
    obtain ⟨hwf, hc⟩ := dbufPutLoop_spec (length + min dbufBlockSize buf.length) (front ++ [block])
      (empty.append buf (min dbufBlockSize buf.length) (Nat.min_le_left _ _))
      (buf.drop (min dbufBlockSize buf.length))
      (by
        rw [map_append, sum_append, ← hlen]
        simp [size, append, empty])
      (forall_mem_append.mpr ⟨hfront, forall_mem_singleton.mpr hfullsize⟩)
      (by
        simp only [size, append_data, empty, nil_append, length_take, dbufBlockSize]
        omega)
    refine ⟨hwf, ?_⟩
    rw [hc]
    simp [append, empty, take_append_drop]
  · -- Copy behind the bytes of the last block.
    have hpos := length_pos_iff.mpr hbuf
    obtain ⟨hwf, hc⟩ := dbufPutLoop_spec
      (length + min (dbufBlockSize - block.size) buf.length) front
      (block.append buf (min (dbufBlockSize - block.size) buf.length) (Nat.min_le_left _ _))
      (buf.drop (min (dbufBlockSize - block.size) buf.length))
      (by
        rw [hlen]
        simp [size, append, Nat.add_assoc])
      hfront
      (by
        simp only [size, append_data, length_append, length_take]
        omega)
    refine ⟨hwf, ?_⟩
    rw [hc]
    simp [append, take_append_drop]
termination_by buf.length
decreasing_by
  all_goals
    simp only [List.length_drop, dbufBlockSize] at *
    omega

variable {dyn : Dbuf}

/-- `dbuf_put` of a non-empty packet appends it to the bytes of the queue. -/
theorem dbufPut_spec (hwf : dyn.WF) {buf : List UInt8} (hbuf : buf ≠ []) :
    ∃ dyn', dbufPut dyn buf = some dyn' ∧ dyn'.WF ∧ dyn'.contents = dyn.contents ++ buf := by
  simp only [dbufPut, if_neg hbuf]
  rcases eq_nil_or_concat' dyn.dbufList with hnil | ⟨front, block, hlist⟩
  · rw [hnil]
    have hlen : dyn.length = 0 := by rw [hwf.length_eq, hnil]; rfl
    obtain ⟨h1, h2⟩ := dbufPutLoop_spec dyn.length [] empty buf
      (by simp [hlen, size, empty]) (by simp) (fun h => absurd h hbuf)
    exact ⟨_, rfl, h1, by rw [h2]; simp [Dbuf.contents, hnil, empty]⟩
  · rw [hlist, getLast?_concat, dropLast_concat]
    have hlen := hwf.length_eq
    rw [hlist] at hlen
    have hsize : ∀ b ∈ front, b.size ≠ 0 := fun b hb => hwf.size_ne b (by simp [hlist, hb])
    obtain ⟨h1, h2⟩ := dbufPutLoop_spec dyn.length front block buf hlen hsize
      (fun h => absurd h hbuf)
    exact ⟨_, rfl, h1, by rw [h2, Dbuf.contents, hlist]⟩

/-- The delete loop drops bytes from the front of the blocks, which hold enough of them. -/
theorem dbufDeleteLoop_spec (blocks : List DbufBuf) (dynLength length : ℕ)
    (hlen : dynLength = (blocks.map size).sum) (hsize : ∀ b ∈ blocks, b.size ≠ 0)
    (hle : length ≤ dynLength) :
    ∃ dyn', dbufDeleteLoop dynLength length blocks = some dyn' ∧ dyn'.WF ∧
      dyn'.contents = (blocks.flatMap data).drop length := by
  induction blocks generalizing dynLength length with
  | nil =>
    have h0 : length = 0 := by simp at hlen; omega
    refine ⟨⟨dynLength, []⟩, by simp [dbufDeleteLoop, h0], ⟨hlen, by simp⟩, ?_⟩
    simp [Dbuf.contents]
  | cons block rest ih =>
    have hlen' : dynLength = block.size + (rest.map size).sum := by simpa using hlen
    simp only [dbufDeleteLoop]
    split_ifs with h0 hlt
    · subst h0
      exact ⟨_, rfl, ⟨hlen, hsize⟩, by simp [Dbuf.contents]⟩
    · -- The block holds more than what is left to delete.
      have htrim : (block.trim length).size = block.size - length := by
        simp [size, trim]
      refine ⟨_, rfl, ⟨?_, ?_⟩, ?_⟩
      · simp only [map_cons, sum_cons, htrim]
        omega
      · refine forall_mem_cons.mpr ⟨?_, fun b hb => hsize b (mem_cons_of_mem _ hb)⟩
        rw [htrim]
        omega
      · simp only [Dbuf.contents, flatMap_cons, trim]
        rw [drop_append_of_le_length (Nat.le_of_lt hlt)]
    · -- The whole block goes.
      obtain ⟨dyn', h1, h2, h3⟩ := ih (dynLength - block.size) (length - block.size) (by omega)
        (fun b hb => hsize b (by simp [hb])) (by omega)
      refine ⟨dyn', h1, h2, ?_⟩
      have hcover := Nat.le_of_not_lt hlt
      rw [h3, flatMap_cons, drop_append, drop_eq_nil_of_le hcover]
      rfl

/-- `dbuf_delete` of no more bytes than the queue holds drops them from its front. -/
theorem dbufDelete_spec (hwf : dyn.WF) (length : ℕ) (hle : length ≤ dyn.contents.length) :
    ∃ dyn', dbufDelete dyn length = some dyn' ∧ dyn'.WF ∧
      dyn'.contents = dyn.contents.drop length := by
  have hle' : length ≤ dyn.length := by rw [hwf.length_eq, ← Dbuf.length_contents]; exact hle
  rw [dbufDelete, if_pos hle']
  exact dbufDeleteLoop_spec dyn.dbufList dyn.length length hwf.length_eq hwf.size_ne hle'

def isEol (c : UInt8) : Bool := c == cr || c == lf

/-- The blank that is dropped in front of a line. -/
def isBlank (c : UInt8) : Bool := c == space

/-- The empty characters of `dbuf_getmsg` outside of a line. -/
abbrev isEmptyChar (c : UInt8) : Bool := Framing.junk isEol isBlank c

/-- The scan of two pieces of a block, one behind the other. -/
theorem scanBlock_append (a b : List UInt8) (s : Scan) : scanBlock s (a ++ b) =
    match scanBlock s a with
    | (s', true) => (s', true)
    | (s', false) => scanBlock s' b := by
  induction a generalizing s with
  | nil => rfl
  | cons c a ih =>
    simp only [cons_append, scanBlock]
    cases scanByte s c with
    | none => rfl
    | some s' => exact ih s'

theorem scanList_eq (s : Scan) (blocks : List DbufBuf) :
    scanList s blocks = scanBlock s (blocks.flatMap data) := by
  induction blocks generalizing s with
  | nil => rfl
  | cons block rest ih =>
    rw [flatMap_cons, scanBlock_append, scanList]
    rcases scanBlock s block.data with ⟨s', _ | _⟩
    · exact ih s'
    · rfl

variable (c : List UInt8)

/-- Phases 0 and 2 count the empty characters around the line. -/
theorem scanBlock_empty {phase : Phase} (hphase : phase ≠ .line) (n k : ℕ) (buf : List UInt8) :
    scanBlock ⟨n, k, phase, buf⟩ c =
      scanBlock ⟨n, k + (c.takeWhile isEmptyChar).length, phase, buf⟩ (c.dropWhile isEmptyChar) := by
  induction c generalizing k with
  | nil => rfl
  | cons b c ih =>
    cases hb : isEmptyChar b with
    | false => simp [hb]
    | true =>
      have hb' : b = cr ∨ b = lf ∨ b = space := by
        simpa [isEmptyChar, junk, isEol, isBlank, or_assoc] using hb
      have hstep : scanByte ⟨n, k, phase, buf⟩ b = some ⟨n, k + 1, phase, buf⟩ := by
        simp [scanByte, hb', hphase]
      simp only [scanBlock, hstep, takeWhile_cons, dropWhile_cons, hb, if_true, length_cons]
      rw [ih, Nat.add_right_comm k 1, Nat.add_assoc]

/-- Phase 1 copies the line up to its terminator, as far as the buffer has room. -/
theorem scanBlock_line (n k : ℕ) (buf : List UInt8) :
    scanBlock ⟨n, k, .line, buf⟩ c =
      scanBlock
        ⟨n + (c.takeWhile (!isEol ·)).length, k, .line,
          buf ++ (c.takeWhile (!isEol ·)).take (readBufSize - 2 - n)⟩
        (c.dropWhile (!isEol ·)) := by
  induction c generalizing n buf with
  | nil => simp
  | cons b c ih =>
    cases hb : isEol b with
    | true => simp [hb]
    | false =>
      have hb' : ¬(b = cr ∨ b = lf) := by simpa [isEol] using hb
      have hstep : scanByte ⟨n, k, .line, buf⟩ b =
          some ⟨n + 1, k, .line, if n < readBufSize - 2 then buf ++ [b] else buf⟩ := by
        simp [scanByte, hb']
      simp only [scanBlock, hstep, takeWhile_cons, dropWhile_cons, hb, Bool.not_false,
        if_true, length_cons]
      rw [ih, Nat.add_right_comm n 1]
      congr 2
      split_ifs with hn
      · obtain ⟨m, hm⟩ : ∃ m, readBufSize - 2 - n = m + 1 := ⟨readBufSize - 2 - n - 1, by omega⟩
        rw [hm, show readBufSize - 2 - (n + 1) = m by omega]
        simp
      · rw [show readBufSize - 2 - n = 0 by omega, show readBufSize - 2 - (n + 1) = 0 by omega]
        simp

/-- Phase 2 stops at the next line, if any. -/
theorem scanBlock_after (n k : ℕ) (buf : List UInt8) :
    scanBlock ⟨n, k, .after, buf⟩ c =
      (⟨n, k + (c.takeWhile isEmptyChar).length, .after, buf⟩,
        decide (c.dropWhile isEmptyChar ≠ [])) := by
  rw [scanBlock_empty c (by decide)]
  rcases hc : c.dropWhile isEmptyChar with - | ⟨b, r⟩
  · simp [scanBlock]
  · have hb : ¬(b = cr ∨ b = lf ∨ b = space) := by
      simpa [isEmptyChar, junk, isEol, isBlank, and_assoc] using of_dropWhile_eq_cons hc
    simp [scanBlock, scanByte, hb]

/-- The scan of a queue's bytes `c`, behind the empty characters in front of the line: `l` is the
line and `c2` what starts with its terminator. An incomplete line leaves the scan in phase 0 or 1;
a complete one leaves it in phase 2. -/
theorem scanBlock_init :
    let k := (c.takeWhile isEmptyChar).length
    let c1 := c.dropWhile isEmptyChar
    let l := c1.takeWhile (!isEol ·)
    let c2 := c1.dropWhile (!isEol ·)
    (c2 = [] → ∃ s, scanBlock Scan.init c = (s, false) ∧ s.phase ≠ .after ∧ s.emptyBytes = k) ∧
      (c2 ≠ [] → scanBlock Scan.init c =
        (⟨l.length, k + (c2.takeWhile isEmptyChar).length, .after, l.take (readBufSize - 2)⟩,
          decide (c2.dropWhile isEmptyChar ≠ []))) := by
  intro k c1 l c2
  have h0 : scanBlock Scan.init c = scanBlock ⟨0, k, .before, []⟩ c1 := by
    rw [Scan.init, scanBlock_empty c (by decide), Nat.zero_add]
  rw [h0]
  rcases hc1 : c1 with _ | ⟨b, r⟩
  · have hc2 : c2 = [] := by simp [c2, hc1]
    exact ⟨fun _ => ⟨_, rfl, by simp, rfl⟩, fun h => absurd hc2 h⟩
  -- The first byte of the line takes the scan from phase 0 to phase 1.
  have hb := of_dropWhile_eq_cons hc1
  have hb' : ¬(b = cr ∨ b = lf ∨ b = space) := by
    simpa [isEmptyChar, junk, isEol, isBlank, and_assoc] using hb
  have hline : scanBlock ⟨0, k, .before, []⟩ (b :: r) = scanBlock ⟨0, k, .line, []⟩ (b :: r) := by
    simp only [scanBlock, scanByte]
    simp [hb', show ¬(b = cr ∨ b = lf) from fun h => hb' (by tauto)]
  rw [hline, scanBlock_line, ← hc1]
  simp only [Nat.zero_add, nil_append, Nat.sub_zero]
  change (c2 = [] → ∃ s, scanBlock ⟨l.length, k, .line, l.take (readBufSize - 2)⟩ c2 = (s, false) ∧
    s.phase ≠ .after ∧ s.emptyBytes = k) ∧ (c2 ≠ [] →
      scanBlock ⟨l.length, k, .line, l.take (readBufSize - 2)⟩ c2 = _)
  rcases hc2 : c2 with _ | ⟨e, c3⟩
  · exact ⟨fun _ => ⟨_, rfl, by simp, rfl⟩, fun h => absurd rfl h⟩
  -- The terminator takes it to phase 2.
  refine ⟨fun h => absurd h (by simp), fun _ => ?_⟩
  have he : isEol e = true := by simpa using of_dropWhile_eq_cons hc2
  have he' : e = cr ∨ e = lf := by simpa [isEol] using he
  have hje : isEmptyChar e = true := by simp [isEmptyChar, junk, he]
  have hstep : scanByte ⟨l.length, k, .line, l.take (readBufSize - 2)⟩ e =
      some ⟨l.length, k + 1, .after, l.take (readBufSize - 2)⟩ := by
    rcases he' with rfl | rfl <;> simp [scanByte]
  rw [scanBlock, hstep]
  simp only [scanBlock_after, takeWhile_cons, dropWhile_cons, hje, if_true, length_cons]
  rw [Nat.add_right_comm k 1, Nat.add_assoc]

/-- One call of `dbuf_getmsg` on the bytes `c` of a queue. Without a complete line it returns 0 and
drops the empty characters in front. Otherwise it returns the length of the line `l`, cut to the
buffer, and drops the line and the empty characters around it. -/
theorem dbufGetmsg_spec (hwf : dyn.WF) :
    let c1 := dyn.contents.dropWhile isEmptyChar
    let l := c1.takeWhile (!isEol ·)
    let c2 := c1.dropWhile (!isEol ·)
    ∃ dyn', dyn'.WF ∧
      (c2 = [] → dbufGetmsg dyn = some (0, [], dyn') ∧ dyn'.contents = c1) ∧
      (c2 ≠ [] →
        dbufGetmsg dyn = some ((l.take (readBufSize - 2)).length, l.take (readBufSize - 2), dyn') ∧
        dyn'.contents = c2.dropWhile isEmptyChar) := by
  intro c1 l c2
  obtain ⟨hinc, hcomp⟩ := scanBlock_init dyn.contents
  have hscan : scanList Scan.init dyn.dbufList = scanBlock Scan.init dyn.contents := scanList_eq _ _
  set k := (dyn.contents.takeWhile isEmptyChar).length with hk
  have hsplit : dyn.contents = dyn.contents.takeWhile isEmptyChar ++ c1 :=
    takeWhile_append_dropWhile.symm
  have hdropk : dyn.contents.drop k = c1 := drop_length_takeWhile _ _
  have hlenk : dyn.contents.length = k + c1.length := by
    conv_lhs => rw [hsplit, length_append]
  -- without an end of line, only the empty characters in front are deleted
  by_cases hc2 : c2 = []
  · obtain ⟨s, hs, hphase, hempty⟩ := hinc hc2
    obtain ⟨dyn', h1, h2, h3⟩ := dbufDelete_spec hwf k (by omega)
    refine ⟨dyn', h2, fun _ => ⟨?_, by rw [h3, hdropk]⟩, fun h => absurd hc2 h⟩
    simp [dbufGetmsg, hscan, hs, hphase, hempty, h1]
  · have hs := hcomp hc2
    change scanBlock Scan.init dyn.contents = (⟨l.length, k + (c2.takeWhile isEmptyChar).length,
      .after, l.take (readBufSize - 2)⟩, decide (c2.dropWhile isEmptyChar ≠ [])) at hs
    have hc1 : c1 = l ++ c2 := takeWhile_append_dropWhile.symm
    have hlen1 : c1.length = l.length + c2.length := by rw [hc1, length_append]
    have hlen2 : (c2.takeWhile isEmptyChar).length ≤ c2.length :=
      Sublist.length_le (takeWhile_sublist _)
    obtain ⟨dyn', h1, h2, h3⟩ := dbufDelete_spec hwf
      (l.length + (k + (c2.takeWhile isEmptyChar).length)) (by omega)
    have hrest : dyn'.contents = c2.dropWhile isEmptyChar := by
      rw [h3, show l.length + (k + (c2.takeWhile isEmptyChar).length) =
        k + (l.length + (c2.takeWhile isEmptyChar).length) by omega, ← drop_drop, hdropk, hc1,
        ← drop_drop, drop_left' rfl]
      exact drop_length_takeWhile _ _
    refine ⟨dyn', h2, fun h => absurd h hc2, fun _ => ⟨?_, hrest⟩⟩
    by_cases hmore : c2.dropWhile isEmptyChar = []
    · simp [dbufGetmsg, hscan, hs, hmore, h1]
      omega
    · simp [dbufGetmsg, hscan, hs, hmore, h1]
      omega

end ObbyIRCd.Buffers
