import ObbyIRCd.Lib.Framing
import ObbyIRCd.Websocket.Deframe

/-!
# Frames to the client

`_websocket_create_packet_ex` of `websocket_common.c` puts each line of a buffer into a frame of its
own. The lengths are `int`, so a buffer has fewer than `2 ^ 31` bytes; what is in `sendbuf` and one
frame more are counted in an `int` too, so `sendbufsize` is smaller than `2 ^ 31` by at least a frame,
as the callers' buffers are. What comes out is decoded with `rfcFrame`, the frames being final ones.
-/

namespace ObbyIRCd.Websocket

open List

def isEol (b : UInt8) : Bool := b = 10 || b = 13

/-- Where the search for the end of a line goes on. -/
def inLine (b : UInt8) : Bool := b ≠ 0 && !isEol b

def lineOf (s : List UInt8) : List UInt8 := s.takeWhile inLine

/-- What follows the line and its end. -/
def restOf (s : List UInt8) : List UInt8 := (s.dropWhile inLine).dropWhile isEol

/-- What stands before a payload of `n` bytes. -/
def frameHeader (opcode : UInt8) (n : ℕ) : List UInt8 :=
  if n < 126 then [opcode ||| 0x80, UInt8.ofNat n]
  else if n < 65536 then [opcode ||| 0x80, 126, UInt8.ofNat (n >>> 8), UInt8.ofNat n]
  else
    [opcode ||| 0x80, 127, 0, 0, 0, 0, UInt8.ofNat (n >>> 24), UInt8.ofNat (n >>> 16),
      UInt8.ofNat (n >>> 8), UInt8.ofNat n]

def frameOf (opcode : UInt8) (line : List UInt8) : List UInt8 := frameHeader opcode line.length ++ line

theorem frameHeader_eq_cons (opcode : UInt8) (n : ℕ) :
    ∃ h, frameHeader opcode n = (opcode ||| 0x80) :: h := by
  unfold frameHeader
  split_ifs <;> exact ⟨_, rfl⟩

/-- The loop, with the frames that are in `sendbuf` already. At a NUL it stays where it is until the
buffer is full. -/
def createFrom (opcode : UInt8) (sendbufsize : ℕ) (s sendbuf : List UInt8) : Option (List UInt8) :=
  if sendbufsize < sendbuf.length + (frameOf opcode (lineOf s)).length then none
  else
    match restOf s with
    | [] => some (sendbuf ++ frameOf opcode (lineOf s))
    | b :: rest => createFrom opcode sendbufsize (b :: rest) (sendbuf ++ frameOf opcode (lineOf s))
termination_by sendbufsize - sendbuf.length
decreasing_by
  obtain ⟨h, hh⟩ := frameHeader_eq_cons opcode (lineOf s).length
  simp_all [frameOf]
  omega

/-- `_websocket_create_packet_ex`. -/
def websocketCreatePacketEx (opcode : UInt8) (buf : List UInt8) (sendbufsize : ℕ) :
    Option (List UInt8) :=
  if buf = [] then none else createFrom opcode sendbufsize buf []

/-! ## What the frames say -/

/-- The lines of a buffer that are not empty. -/
def linesOf (buf : List UInt8) : List (List UInt8) := (buf.splitOnP isEol).filter (· ≠ [])

/-- The final frames that a stream is made of: their opcodes and payloads. -/
def rfcFrames : (fuel : ℕ) → List UInt8 → Option (List (UInt8 × List UInt8))
  | _, [] => some []
  | 0, _ => none
  | fuel + 1, b :: s =>
    match rfcFrame (b :: s) with
    | some (opcode, payload, size) =>
      if b &&& 0x80 = 0 then none
      else (rfcFrames fuel ((b :: s).drop size)).map ((opcode, payload) :: ·)
    | none => none

variable {opcode : UInt8} {line s sendbuf : List UInt8} {sendbufsize : ℕ}

theorem opcode_final (opcode : UInt8) :
    (opcode ||| 0x80) &&& 0x7F = opcode &&& 0x7F ∧ (opcode ||| 0x80) &&& 0x80 ≠ 0 := by
  obtain ⟨n, hn, rfl⟩ : ∃ n < 256, UInt8.ofNat n = opcode :=
    ⟨opcode.toNat, opcode.toNat_lt, UInt8.ofNat_toNat⟩
  revert n
  decide +kernel

theorem rfcFrame_unmasked {b₀ b₁ : UInt8} (ext : List UInt8) (hext : extBytes b₁ = ext.length)
    (hmask : b₁ &&& 0x80 = 0) (hlen : payloadLength b₁ ext = line.length) :
    rfcFrame (b₀ :: b₁ :: (ext ++ line)) =
      some (b₀ &&& 0x7F, line, (b₀ :: b₁ :: (ext ++ line)).length) := by
  have happend := payloadLength_append hext.le line
  have hkey : keyBytes b₁ = 0 := by simp [keyBytes, hmask]
  have hrest : restBytes b₁ (ext ++ line) = ext.length + line.length := by
    rw [restBytes, happend, hlen, hext, hkey, Nat.add_zero]
  refine rfcFrame_eq_some.mpr ⟨_, _, _, rfl, ?_, ?_⟩
  · rw [hrest, length_append]
  · rw [hrest, payloadOf, happend, hlen, hext, hkey]
    simp [hmask]
    omega

theorem rfcFrame_frameOf (hlen : line.length < 2 ^ 31) :
    rfcFrame (frameOf opcode line) = some (opcode &&& 0x7F, line, (frameOf opcode line).length) := by
  have hshort : ∀ n < 126, extBytes (UInt8.ofNat n) = 0 ∧ UInt8.ofNat n &&& 0x80 = 0 ∧
      payloadLength (UInt8.ofNat n) [] = n := by
    decide +kernel
  rw [← (opcode_final opcode).1]
  unfold frameOf frameHeader
  split_ifs with h₁ h₂
  · obtain ⟨hext, hmask, hn⟩ := hshort _ h₁
    exact rfcFrame_unmasked [] hext hmask hn
  · refine rfcFrame_unmasked [_, _] rfl rfl ?_
    simp [payloadLength, extBytes, beNat, Nat.shiftRight_eq_div_pow]
    omega
  · refine rfcFrame_unmasked [_, _, _, _, _, _, _, _] rfl rfl ?_
    simp [payloadLength, extBytes, beNat, Nat.shiftRight_eq_div_pow]
    omega

theorem linesOf_eol {b : UInt8} (hb : isEol b = true) (s : List UInt8) :
    linesOf (b :: s) = linesOf s := by
  rw [linesOf, splitOnP_cons_eq_if_modifyHead, if_pos hb, filter_cons_of_neg (by simp), linesOf]

theorem linesOf_dropWhile (s : List UInt8) : linesOf (s.dropWhile isEol) = linesOf s := by
  induction s with
  | nil => rfl
  | cons b s ih =>
    by_cases hb : isEol b = true
    · rw [dropWhile_cons_of_pos hb, ih, linesOf_eol hb]
    · rw [dropWhile_cons_of_neg hb]

theorem linesOf_eq (hnul : 0 ∉ s) (hline : lineOf s ≠ []) :
    linesOf s = lineOf s :: linesOf (restOf s) := by
  have hall : ∀ b ∈ lineOf s, isEol b = false := fun b hb => by
    have hb : inLine b = true := mem_takeWhile_imp hb
    grind [inLine]
  have hrest : linesOf (restOf s) = linesOf (s.dropWhile inLine) := linesOf_dropWhile _
  rw [hrest]
  nth_rewrite 1 [← takeWhile_append_dropWhile (p := inLine) (l := s)]
  change linesOf (lineOf s ++ _) = _
  cases hrest : s.dropWhile inLine with
  | nil =>
    rw [append_nil, linesOf, splitOnP_eq_singleton hall, filter_cons_of_pos (by simpa using hline)]
    rfl
  | cons b rest =>
    have hb : isEol b = true := by
      have hnot := Framing.of_dropWhile_eq_cons hrest
      have hmem : b ∈ s := (dropWhile_sublist inLine).subset (hrest ▸ mem_cons_self)
      grind [inLine]
    rw [linesOf, splitOnP_append_cons_of_forall_mem hall b hb, linesOf_eol hb,
      filter_cons_of_pos (by simpa using hline), linesOf]

theorem createFrom_eq (hnul : 0 ∉ s) (hline : lineOf s ≠ []) :
    createFrom opcode sendbufsize s sendbuf =
      if sendbufsize < sendbuf.length + ((linesOf s).flatMap (frameOf opcode)).length then none
      else some (sendbuf ++ (linesOf s).flatMap (frameOf opcode)) := by
  fun_induction createFrom opcode sendbufsize s sendbuf with
  | case1 s sendbuf hfull =>
    rw [linesOf_eq hnul hline, flatMap_cons, length_append, if_pos (by omega)]
  | case2 s sendbuf hfits hrest =>
    have hnil : linesOf [] = [] := rfl
    rw [linesOf_eq hnul hline, hrest, hnil, flatMap_singleton, if_neg hfits]
  | case3 s sendbuf hfits b rest hrest ih =>
    have hsub : (b :: rest).Sublist s :=
      hrest ▸ (dropWhile_sublist isEol).trans (dropWhile_sublist inLine)
    have hb : lineOf (b :: rest) ≠ [] := by
      have hnot := Framing.of_dropWhile_eq_cons hrest
      have hne : b ≠ 0 := fun h => hnul (h ▸ hsub.subset mem_cons_self)
      simp [lineOf, inLine, hnot, hne]
    rw [ih (fun h => hnul (hsub.subset h)) hb, linesOf_eq hnul hline, hrest, flatMap_cons,
      length_append, length_append, append_assoc, Nat.add_assoc]

theorem rfcFrames_flatMap {lines : List (List UInt8)} (hlen : ∀ l ∈ lines, l.length < 2 ^ 31)
    {fuel : ℕ} (hfuel : lines.length ≤ fuel) :
    rfcFrames fuel (lines.flatMap (frameOf opcode)) =
      some (lines.map fun l => (opcode &&& 0x7F, l)) := by
  induction lines generalizing fuel with
  | nil => cases fuel <;> rfl
  | cons l lines ih =>
    obtain ⟨fuel, rfl⟩ : ∃ k, fuel = k + 1 := ⟨fuel - 1, by rw [length_cons] at hfuel; omega⟩
    obtain ⟨hl, hlines⟩ := forall_mem_cons.mp hlen
    obtain ⟨header, hheader⟩ := frameHeader_eq_cons opcode l.length
    have hcons : frameOf opcode l = (opcode ||| 0x80) :: (header ++ l) := by
      rw [frameOf, hheader, cons_append]
    have hframe := rfcFrame_append (@rfcFrame_frameOf opcode l hl) (lines.flatMap (frameOf opcode))
    rw [flatMap_cons, hcons, cons_append, rfcFrames, ← cons_append, ← hcons, hframe]
    simp only [if_neg (opcode_final opcode).2, drop_left, map_cons]
    rw [ih hlines (by simpa using hfuel), Option.map_some]

theorem length_le_of_mem_splitOnP {p : UInt8 → Bool} : ∀ l ∈ s.splitOnP p, l.length ≤ s.length := by
  induction s with
  | nil => simp
  | cons b s ih =>
    rw [splitOnP_cons_eq_if_modifyHead]
    cases hs : s.splitOnP p <;> grind [modifyHead_nil, modifyHead_cons]

theorem length_le_flatMap (lines : List (List UInt8)) :
    lines.length ≤ (lines.flatMap (frameOf opcode)).length := by
  induction lines with
  | nil => exact Nat.zero_le _
  | cons l lines ih =>
    obtain ⟨header, hheader⟩ := frameHeader_eq_cons opcode l.length
    rw [flatMap_cons, length_append, frameOf, hheader, cons_append, length_cons, length_cons]
    omega

/-- The frames are those of the lines that are not empty, and there is none only if they do not fit. -/
theorem websocketCreatePacketEx_spec {buf : List UInt8} (hnul : 0 ∉ buf) (hline : lineOf buf ≠ [])
    (hlen : buf.length < 2 ^ 31) :
    (websocketCreatePacketEx opcode buf sendbufsize = none ↔
        sendbufsize < ((linesOf buf).map fun l => (frameOf opcode l).length).sum) ∧
      ∀ out, websocketCreatePacketEx opcode buf sendbufsize = some out →
        rfcFrames out.length out = some ((linesOf buf).map fun l => (opcode &&& 0x7F, l)) := by
  have hne : buf ≠ [] := by
    rintro rfl
    exact hline rfl
  have hlines : ∀ l ∈ linesOf buf, l.length < 2 ^ 31 := fun l hl =>
    (length_le_of_mem_splitOnP l (mem_of_mem_filter hl)).trans_lt hlen
  rw [websocketCreatePacketEx, if_neg hne, createFrom_eq hnul hline, length_nil, Nat.zero_add,
    length_flatMap, nil_append]
  refine ⟨by simp, fun out hout => ?_⟩
  split_ifs at hout
  obtain rfl := Option.some.inj hout
  exact rfcFrames_flatMap hlines (length_le_flatMap _)

/-- Two lines and an empty one. -/
def hi : List UInt8 := [104, 105, 13, 10, 33, 10]

/-- The frames of the two lines have seven bytes. -/
theorem websocketCreatePacketEx_hi : websocketCreatePacketEx 1 hi 6 = none ∧
    ∃ out, websocketCreatePacketEx 1 hi 7 = some out ∧
      rfcFrames out.length out = some [(1, [104, 105]), (1, [33])] := by
  have hnul : 0 ∉ hi := by decide
  have hline : lineOf hi ≠ [] := by decide
  have hshort := @websocketCreatePacketEx_spec 1 6 hi hnul hline (by decide)
  have hfits := @websocketCreatePacketEx_spec 1 7 hi hnul hline (by decide)
  refine ⟨hshort.1.mpr (by decide), ?_⟩
  obtain ⟨out, hout⟩ := Option.ne_none_iff_exists'.mp (hfits.1.not.mpr (by decide))
  exact ⟨out, hout, hfits.2 out hout⟩

end ObbyIRCd.Websocket
