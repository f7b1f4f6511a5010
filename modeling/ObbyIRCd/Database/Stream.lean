import ObbyIRCd.Database.Open

/-!
# Reading and writing as operations on a plaintext

Both formats carry one stream of bytes. `Writing` says that an open file holds the plaintext `p`
behind its header, in whole blocks and a rest in the buffer, and `Reading` that the plaintext `q` is
still to come, from the buffer and from the blocks of the file. `unrealdbWrite_spec` and
`unrealdbRead_spec` say that writes append to `p` and reads take from `q`, whatever the alignment
with the blocks, and `unrealdbClose_spec` what the closed file holds.
-/

namespace ObbyIRCd.Database

open List

variable {C : Crypto}

/-- The blocks of a stream pushed from state `s`, one behind the other, and the state behind them. -/
def pushAll (C : Crypto) (s : C.State) : List (List UInt8) → C.State × List UInt8
  | [] => (s, [])
  | m :: ms => ((pushAll C (C.push s m .message).1 ms).1,
      (C.push s m .message).2 ++ (pushAll C (C.push s m .message).1 ms).2)

/-- A closed stream: the blocks, and the last one with its tag. -/
def cipherOf (C : Crypto) (s : C.State) (blocks : List (List UInt8)) (last : List UInt8) :
    List UInt8 :=
  (pushAll C s blocks).2 ++ (C.push (pushAll C s blocks).1 last .final).2

theorem pushAll_concat (s : C.State) (blocks : List (List UInt8)) (m : List UInt8) :
    pushAll C s (blocks ++ [m]) =
      ((C.push (pushAll C s blocks).1 m .message).1,
        (pushAll C s blocks).2 ++ (C.push (pushAll C s blocks).1 m .message).2) := by
  induction blocks generalizing s with
  | nil => simp [pushAll]
  | cons b bs ih => simp [pushAll, ih]

theorem cipherOf_cons (s : C.State) (m : List UInt8) (ms : List (List UInt8)) (last : List UInt8) :
    cipherOf C s (m :: ms) last =
      (C.push s m .message).2 ++ cipherOf C (C.push s m .message).1 ms last := by
  simp [cipherOf, pushAll]

/-- The file opened for writing holds the plaintext `p` behind the header `hdr`. `s` is the state
that a crypted stream starts from. -/
structure Writing (s : Option C.State) (hdr : List UInt8) (c : UnrealDB C) (p : List UInt8) :
    Prop where
  mode_eq : c.mode = .write
  error_eq : c.error = none
  plain : s = none → c.st = none ∧ c.fd.written = hdr ++ p
  /-- A crypted file holds its blocks, and the buffer what does not fill one. -/
  crypted : ∀ s₀, s = some s₀ → ∃ blocks : List (List UInt8),
    (∀ m ∈ blocks, m.length = cryptFileChunkSize) ∧ c.buf.length < cryptFileChunkSize ∧
      p = blocks.flatten ++ c.buf ∧ c.st = some (pushAll C s₀ blocks).1 ∧
      c.fd.written = hdr ++ (pushAll C s₀ blocks).2

/-- An `fwrite` that wrote everything. -/
theorem fwrite_of_eq {fd fd' : File} {bytes : List UInt8} {n : ℕ} (h : fd.fwrite bytes = (n, fd'))
    (hn : n = bytes.length) : fd'.written = fd.written ++ bytes := by
  simp only [File.fwrite, Prod.mk.injEq] at h
  rw [← h.2, h.1, hn, take_length]

variable {c : UnrealDB C} {c' : UnrealDB C}

theorem pushBlock_spec {st : C.State} {block : List UInt8} {tag : Tag}
    (h : c.pushBlock st block tag = (true, c')) :
    c'.fd.written = c.fd.written ++ (C.push st block tag).2 ∧ c'.st = some (C.push st block tag).1 ∧
      c'.mode = c.mode ∧ c'.error = c.error := by
  unfold UnrealDB.pushBlock at h
  dsimp only at h
  split_ifs at h with hn
  · simp at h
  · simp only [Prod.mk.injEq, true_and] at h
    rw [← h]
    exact ⟨fwrite_of_eq rfl (not_not.mp hn), rfl, rfl, rfl⟩

/-- The write loop of a crypted file keeps the plaintext, from the state behind `blocks` on. -/
theorem unrealdbWriteLoop_spec {s₀ : C.State} {hdr : List UInt8} (c : UnrealDB C) (st : C.State)
    (buf : List UInt8) (blocks : List (List UInt8)) (hmode : c.mode = .write)
    (herr : c.error = none) (hblocks : ∀ m ∈ blocks, m.length = cryptFileChunkSize)
    (hbuf : c.buf.length < cryptFileChunkSize) (hst : c.st = some st)
    (hst' : st = (pushAll C s₀ blocks).1) (hfile : c.fd.written = hdr ++ (pushAll C s₀ blocks).2)
    (h : unrealdbWriteLoop c st buf = (true, c')) :
    Writing (some s₀) hdr c' (blocks.flatten ++ c.buf ++ buf) := by
  rw [unrealdbWriteLoop] at h
  split_ifs at h with hfit
  · -- The data fits in the buffer.
    simp only [Prod.mk.injEq, true_and] at h
    subst h
    refine ⟨hmode, herr, by simp, fun s hs => ?_⟩
    obtain rfl : s₀ = s := by simpa using hs
    exact ⟨blocks, hblocks, by simpa using hfit, by simp, by rw [hst, hst'], hfile⟩
  · -- The buffer is filled up and flushed.
    dsimp only at h
    split at h
    · simp at h
    rename_i c1 hpush
    set m := c.buf ++ buf.take (cryptFileChunkSize - c.buf.length) with hm
    have hlen : m.length = cryptFileChunkSize := by
      rw [hm, length_append, length_take]
      omega
    obtain ⟨hw, hs, hmode', he⟩ := pushBlock_spec hpush
    have hblocks' : ∀ b ∈ blocks ++ [m], b.length = cryptFileChunkSize := by
      rw [forall_mem_append, forall_mem_singleton]
      exact ⟨hblocks, hlen⟩
    have hp : blocks.flatten ++ c.buf ++ buf =
        (blocks ++ [m]).flatten ++ [] ++ buf.drop (cryptFileChunkSize - c.buf.length) := by
      simp [hm]
    have hfile' : c1.fd.written = hdr ++ (pushAll C s₀ (blocks ++ [m])).2 := by
      rw [pushAll_concat, hw, hfile, hst', append_assoc]
    have hstate : (C.push st m .message).1 = (pushAll C s₀ (blocks ++ [m])).1 := by
      rw [pushAll_concat, hst']
    split_ifs at h with hrest
    · simp only [Prod.mk.injEq, true_and] at h
      subst h
      refine ⟨hmode'.trans hmode, he.trans herr, by simp, fun s hs' => ?_⟩
      obtain rfl : s₀ = s := by simpa using hs'
      exact ⟨_, hblocks', by simp [cryptFileChunkSize], by rw [hp, hrest]; simp,
        by rw [← hstate]; exact hs, hfile'⟩
    · rw [hp]
      exact unrealdbWriteLoop_spec { c1 with buf := [] } _
        (buf.drop (cryptFileChunkSize - c.buf.length)) _ (hmode'.trans hmode) (he.trans herr) hblocks'
        (by simp [cryptFileChunkSize]) hs hstate hfile' h
termination_by (buf.length, c.buf.length)
decreasing_by
  simp only [List.length_drop, List.length_nil, cryptFileChunkSize] at *
  omega

/-- What is written is appended to the plain text. -/
theorem unrealdbWrite_spec {s : Option C.State} {hdr p : List UInt8}
    (hw : Writing s hdr c p) {wbuf : List UInt8} (h : unrealdbWrite c wbuf = (true, c')) :
    Writing s hdr c' (p ++ wbuf) := by
  unfold unrealdbWrite at h
  rw [if_neg (by simp [hw.error_eq]), if_neg (by simp [hw.mode_eq])] at h
  rcases s with _ | s₀
  · obtain ⟨hst, hfile⟩ := hw.plain rfl
    simp only [hst] at h
    split_ifs at h with hn
    · simp at h
    simp only [Prod.mk.injEq, true_and] at h
    subst h
    have hwr : (c.fd.fwrite wbuf).2.written = c.fd.written ++ wbuf :=
      fwrite_of_eq rfl (not_not.mp hn)
    refine ⟨hw.mode_eq, hw.error_eq, fun _ => ⟨rfl, ?_⟩, by simp⟩
    rw [hwr, hfile, append_assoc]
  · obtain ⟨blocks, hblocks, hbuf, hp, hst, hfile⟩ := hw.crypted s₀ rfl
    simp only [hst] at h
    rw [hp]
    exact unrealdbWriteLoop_spec c _ wbuf blocks hw.mode_eq hw.error_eq hblocks hbuf hst rfl hfile h

def Holds (s : Option C.State) (body p : List UInt8) : Prop :=
  match s with
  | none => body = p
  | some s₀ => ∃ (blocks : List (List UInt8)) (last : List UInt8),
      (∀ m ∈ blocks, m.length = cryptFileChunkSize) ∧ last.length < cryptFileChunkSize ∧
        p = blocks.flatten ++ last ∧ body = cipherOf C s₀ blocks last

/-- A file that is closed without an error holds the plaintext written to it. -/
theorem unrealdbClose_spec {s : Option C.State} {hdr p file : List UInt8}
    (hw : Writing s hdr c p) (h : unrealdbClose c = some file) :
    ∃ body, file = hdr ++ body ∧ Holds s body p := by
  unfold unrealdbClose at h
  rcases s with _ | s₀
  · obtain ⟨hst, hfile⟩ := hw.plain rfl
    simp only [hst, Option.some.injEq] at h
    exact ⟨p, by rw [← h, hfile], rfl⟩
  · obtain ⟨blocks, hblocks, hbuf, hp, hst, hfile⟩ := hw.crypted s₀ rfl
    simp only [hst] at h
    split at h
    · simp at h
    rename_i c1 hpush
    obtain ⟨hwr, -, -, -⟩ := pushBlock_spec hpush
    simp only [Option.some.injEq] at h
    refine ⟨_, ?_, blocks, c.buf, hblocks, hbuf, hp, rfl⟩
    rw [← h, hwr, hfile, cipherOf, append_assoc]

/-- The blocks that a pulling state `st` still has to read, and their plaintext `q`. Behind the last
block there is nothing. -/
def Pulling (st : C.State) (fd : File) (q : List UInt8) : Prop :=
  (fd.eof = false ∧ ∃ s, C.Synced s st ∧ Holds (some s) fd.rest q) ∨ fd.rest = [] ∧ q = []

/-- The file opened for reading still has the plaintext `q`. -/
structure Reading (c : UnrealDB C) (q : List UInt8) : Prop where
  mode_eq : c.mode = .read
  error_eq : c.error = none
  plain : c.st = none → c.fd.rest = q
  /-- A crypted file has the start of it in the buffer and the rest in its blocks. -/
  crypted : ∀ st, c.st = some st → ∃ tail, q = c.buf ++ tail ∧ Pulling st c.fd tail

theorem Pulling.exists_of_ne_nil {st : C.State} {fd : File} {q : List UInt8} (h : Pulling st fd q)
    (hq : q ≠ []) : fd.eof = false ∧ ∃ s, C.Synced s st ∧ Holds (some s) fd.rest q := by
  rcases h with h | ⟨-, h⟩
  · exact h
  · exact absurd h hq

/-- The next block of a stream is read as a whole: it is full, or the last one. -/
theorem fread_block {fd : File} {s : C.State} {m rest : List UInt8} {tag : Tag}
    (hrest : fd.rest = (C.push s m tag).2 ++ rest)
    (hm : m.length = cryptFileChunkSize ∨ m.length < cryptFileChunkSize ∧ rest = []) :
    (fd.fread (cryptFileChunkSize + aBytes)).1 = (C.push s m tag).2 ∧
      (fd.fread (cryptFileChunkSize + aBytes)).2.rest = rest ∧ (C.push s m tag).2 ≠ [] := by
  have hlen := C.push_length s m tag
  have hne : (C.push s m tag).2 ≠ [] := length_pos_iff.mp (by rw [hlen, aBytes]; omega)
  simp only [File.fread, hrest]
  rcases hm with hm | ⟨hm, rfl⟩
  · rw [hm] at hlen
    exact ⟨take_left' hlen, drop_left' hlen, hne⟩
  · rw [append_nil]
    exact ⟨take_of_length_le (by omega), drop_eq_nil_of_le (by omega), hne⟩

/-- The read loop takes `len` bytes from the blocks, behind the bytes `acc` it already has. -/
theorem unrealdbReadLoop_spec (c : UnrealDB C) (st : C.State) (acc tail : List UInt8) (len : ℕ)
    (hmode : c.mode = .read) (herr : c.error = none) (hpull : Pulling st c.fd tail) (hlen : 0 < len)
    (hle : len ≤ tail.length) :
    ∃ c', unrealdbReadLoop c st acc len = (some (acc ++ tail.take len), c') ∧
      Reading c' (tail.drop len) := by
  have hne : tail ≠ [] := length_pos_iff.mp (by omega)
  obtain ⟨heof, s, hsync, blocks, last, hblocks, hlast, htail, hrest⟩ :=
    hpull.exists_of_ne_nil hne
  induction blocks generalizing c st s acc tail len with
  | nil =>
    -- Only the last block is left, and it has all that is wanted.
    have hrest' : c.fd.rest = (C.push s last .final).2 ++ [] := by
      rw [hrest]; simp [cipherOf, pushAll]
    obtain ⟨hread, hread2, hnil⟩ := fread_block hrest' (.inr ⟨hlast, rfl⟩)
    obtain ⟨st', hst', -⟩ := C.pull_push s st last .final hsync
    have htail' : tail = last := by simpa using htail
    rw [unrealdbReadLoop]
    simp only [hread, hnil, dif_neg, not_false_eq_true, hst']
    rw [if_neg (by rw [← htail']; omega), ← htail']
    refine ⟨_, rfl, hmode, herr, by simp, fun st'' _ => ⟨[], by simp, .inr ⟨hread2, rfl⟩⟩⟩
  | cons m ms ih =>
    -- A full block comes first.
    have hm : m.length = cryptFileChunkSize := hblocks m (by simp)
    have hms : ∀ b ∈ ms, b.length = cryptFileChunkSize := fun b hb => hblocks b (by simp [hb])
    rw [cipherOf_cons] at hrest
    obtain ⟨hread, hread2, hnil⟩ := fread_block hrest (.inl hm)
    have heof2 : (c.fd.fread (cryptFileChunkSize + aBytes)).2.eof = false := by
      have h1 : cryptFileChunkSize + aBytes ≤ c.fd.rest.length := by
        rw [hrest, length_append, C.push_length, hm]
        exact Nat.le_add_right _ _
      simp only [File.fread, heof, Bool.false_or, decide_eq_false_iff_not]
      omega
    obtain ⟨st', hst', hsync'⟩ := C.pull_push s st m .message hsync
    have htail' : tail = m ++ (ms.flatten ++ last) := by simpa using htail
    rw [unrealdbReadLoop]
    simp only [hread, hnil, dif_neg, not_false_eq_true, hst']
    have hpull' : Pulling st' (c.fd.fread (cryptFileChunkSize + aBytes)).2 (ms.flatten ++ last) :=
      .inl ⟨heof2, _, hsync', ms, last, hms, hlast, rfl, hread2⟩
    by_cases hmore : len > m.length
    · -- The request goes on behind this block.
      rw [if_pos hmore, heof2]
      have hle' : len - m.length ≤ (ms.flatten ++ last).length := by
        rw [htail', length_append] at hle
        omega
      have hne' : ms.flatten ++ last ≠ [] := length_pos_iff.mp (by omega)
      obtain ⟨c', h1, h2⟩ := ih
        { c with fd := (c.fd.fread (cryptFileChunkSize + aBytes)).2, st := some st' } st'
        (acc ++ m) (ms.flatten ++ last) (len - m.length) hmode herr hpull' (by omega) hle' hne'
        heof2 _ hsync' hms rfl hread2
      have htake : tail.take len = m ++ (ms.flatten ++ last).take (len - m.length) := by
        rw [htail', take_append, take_of_length_le (Nat.le_of_lt hmore)]
      refine ⟨c', ?_, ?_⟩
      · rw [if_neg (by simp), h1, htake, append_assoc]
      · rw [htail', drop_append, drop_eq_nil_of_le (by omega)]
        exact h2
    · -- The request ends in this block.
      have htake : tail.take len = m.take len := by
        rw [htail', take_append_of_le_length (by omega)]
      rw [if_neg hmore, htake]
      refine ⟨_, rfl, hmode, herr, by simp, fun st'' hst'' => ⟨ms.flatten ++ last, ?_, ?_⟩⟩
      · rw [htail', drop_append_of_le_length (by omega)]
      · obtain rfl : st' = st'' := by simpa using hst''
        exact hpull'

/-- A read takes its bytes from the front of the plain text. -/
theorem unrealdbRead_spec {q : List UInt8} (hr : Reading c q) {len : ℕ}
    (hlen : 0 < len) (hle : len ≤ q.length) :
    ∃ c', unrealdbRead c len = (some (q.take len), c') ∧ Reading c' (q.drop len) := by
  unfold unrealdbRead
  rw [if_neg (by simp [hr.error_eq]), if_neg (by simp [hr.mode_eq])]
  rcases hst : c.st with _ | st
  · have hrest := hr.plain hst
    have hlen' : ¬ (q.take len).length < len := by rw [length_take]; omega
    simp only [File.fread, hrest, hlen', if_false]
    exact ⟨_, rfl, hr.mode_eq, hr.error_eq, fun _ => rfl, by simp⟩
  · obtain ⟨tail, hq, hpull⟩ := hr.crypted st hst
    have hqlen : q.length = c.buf.length + tail.length := by rw [hq, length_append]
    simp only
    by_cases hbuf : c.buf ≠ [] ∧ len - min c.buf.length len = 0
    · -- The buffer has all of it.
      have hmin : min c.buf.length len = len := by omega
      have htake : q.take len = c.buf.take len := by
        rw [hq, take_append_of_le_length (by omega)]
      rw [if_pos hbuf, hmin, htake]
      refine ⟨_, rfl, hr.mode_eq, hr.error_eq, by simp, fun st' hst' => ⟨tail, ?_, ?_⟩⟩
      · rw [hq, drop_append_of_le_length (by omega)]
      · obtain rfl : st = st' := by simpa [hst] using hst'
        exact hpull
    · -- The buffer is used up, and the blocks have the rest.
      rw [if_neg hbuf]
      have hlt : c.buf.length < len := by
        by_contra hge
        have hmin : min c.buf.length len = len := by omega
        exact hbuf ⟨length_pos_iff.mp (by omega), by omega⟩
      have hmin : min c.buf.length len = c.buf.length := by omega
      rw [hmin, take_length, drop_length]
      obtain ⟨c', h1, h2⟩ := unrealdbReadLoop_spec { c with buf := [], st := some st } st c.buf tail
        (len - c.buf.length) hr.mode_eq hr.error_eq hpull (by omega) (by omega)
      refine ⟨c', ?_, ?_⟩
      · rw [h1, hq, take_append, take_of_length_le (Nat.le_of_lt hlt)]
      · rw [hq, drop_append, drop_eq_nil_of_le (by omega)]
        exact h2

theorem unrealdbRead_append {a q : List UInt8} (hr : Reading c (a ++ q))
    (ha : a ≠ []) : ∃ c', unrealdbRead c a.length = (some a, c') ∧ Reading c' q := by
  obtain ⟨c', h1, h2⟩ := unrealdbRead_spec hr (length_pos_iff.mpr ha) (by rw [length_append]; omega)
  rw [take_left' rfl] at h1
  rw [drop_left' rfl] at h2
  exact ⟨c', h1, h2⟩

end ObbyIRCd.Database
