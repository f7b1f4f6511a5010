import ObbyIRCd.Lib.Bytes

/-!
# Texts as characters

A `char` is a character below 256. Characters of one byte are read back from the string that they are
written as.
-/

namespace ObbyIRCd.Database

/-- The letter of a `char`. -/
def letter (c : Char) : UInt8 := UInt8.ofNat c.toNat

def chars (s : CStr) : List Char := s.bytes.map fun b => Char.ofNat b.toNat

def text (l : List Char) : CStr := CStr.ofBuffer (l.map letter)

/-- Characters of one byte, none of which ends a string. -/
def IsText (l : List Char) : Prop := ∀ c ∈ l, 0 < c.toNat ∧ c.toNat < 256

theorem ofNat_letter {c : Char} (hc : c.toNat < 256) : Char.ofNat (letter c).toNat = c := by
  have hbyte : (letter c).toNat = c.toNat := by
    exact Nat.mod_eq_of_lt hc
  rw [hbyte, Char.ofNat_toNat]

theorem toNat_ofNat_byte (b : UInt8) : (Char.ofNat b.toNat).toNat = b.toNat := by
  have hvalid : b.toNat.isValidChar := .inl (by have := b.toNat_lt; omega)
  unfold Char.ofNat
  rw [dif_pos hvalid]
  exact UInt32.toNat_ofNatLT

theorem letter_ofNat (b : UInt8) : letter (Char.ofNat b.toNat) = b := by
  unfold letter
  rw [toNat_ofNat_byte, UInt8.ofNat_toNat]

theorem letter_ne_zero {c : Char} (hpos : 0 < c.toNat) (hc : c.toNat < 256) : letter c ≠ 0 := by
  intro h
  have hbyte : c.toNat % 256 = 0 := by
    exact congrArg UInt8.toNat h
  omega

theorem bytes_text {l : List Char} (hl : IsText l) : (text l).bytes = l.map letter := by
  refine List.takeWhile_eq_self_iff.mpr fun b hb => ?_
  obtain ⟨c, hc, rfl⟩ := List.mem_map.mp hb
  obtain ⟨hpos, hlt⟩ := hl c hc
  exact bne_iff_ne.mpr (letter_ne_zero hpos hlt)

theorem chars_text {l : List Char} (hl : IsText l) : chars (text l) = l := by
  unfold chars
  rw [bytes_text hl, List.map_map]
  calc l.map ((fun b : UInt8 => Char.ofNat b.toNat) ∘ letter)
      = l.map id := List.map_congr_left fun c hc => ofNat_letter (hl c hc).2
    _ = l := List.map_id l

theorem strlen_text_le (l : List Char) : (text l).strlen ≤ l.length := by
  have hle := CStr.strlen_ofBuffer_le (l.map letter)
  rwa [List.length_map] at hle

end ObbyIRCd.Database
