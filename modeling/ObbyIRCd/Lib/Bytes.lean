import Mathlib.Data.List.Induction
import Mathlib.Data.List.TakeWhile
import Mathlib.Algebra.Order.Ring.Nat

/-!
# Byte strings and texts

NUL-terminated strings as byte lists without a zero byte (`CStr`), little-endian integers of a fixed
width (`leBytes`, `leNat`), big-endian ones (`beNat`), and texts up to case (`lower`).
-/

namespace ObbyIRCd

theorem forall_mem_of_all {α : Type*} {p : α → Prop} [DecidablePred p] {l : List α}
    (h : l.all (fun a => decide (p a)) = true) : ∀ a ∈ l, p a := by
  simpa using h

/-- What `strcasecmp` and `mycmp` compare, and `lower` of SQLite. -/
def lower (s : List Char) : List Char := s.map Char.toLower

def ascii (s : String) : List UInt8 := s.toList.map fun c => UInt8.ofNat c.toNat

/-- A NUL-terminated string: its bytes up to the terminator, none of which is zero. -/
structure CStr where
  bytes : List UInt8
  nul_free : ∀ b ∈ bytes, b ≠ 0
deriving DecidableEq

namespace CStr

@[ext]
theorem ext_bytes {s t : CStr} (h : s.bytes = t.bytes) : s = t := by
  cases s; cases t; simp_all

/-- `strlen`. -/
def strlen (s : CStr) : ℕ := s.bytes.length

/-- The string that a buffer holds: what stands before its first zero byte. -/
def ofBuffer (buf : List UInt8) : CStr :=
  ⟨buf.takeWhile (· != 0), fun b hb => by simpa using List.mem_takeWhile_imp hb⟩

def empty : CStr := ⟨[], by simp⟩

/-- A buffer that holds a string and its terminator reads back as the string. -/
theorem ofBuffer_bytes (s : CStr) : ofBuffer s.bytes = s := by
  apply ext_bytes
  simp only [ofBuffer]
  rw [List.takeWhile_eq_self_iff]
  intro b hb
  simpa using s.nul_free b hb

theorem strlen_ofBuffer_le (buf : List UInt8) : (ofBuffer buf).strlen ≤ buf.length :=
  (List.takeWhile_sublist _).length_le

/-- `strcmp`: bytes as unsigned characters, and a string before its extensions. -/
def strcmp (s t : CStr) : Ordering := compare s.bytes t.bytes

/-- `strcmp` is a total preorder. -/
instance : Std.TransCmp strcmp := inferInstanceAs (Std.TransCmp (compareOn CStr.bytes))

/-- The other way round, `strcmp` is the opposite. -/
theorem strcmp_eq_swap (s t : CStr) : strcmp s t = (strcmp t s).swap := Std.OrientedCmp.eq_swap

/-- `strcmp` is 0 for the same string. -/
theorem strcmp_eq_eq {s t : CStr} : strcmp s t = .eq ↔ s = t := by
  unfold strcmp
  rw [Std.LawfulEqCmp.compare_eq_iff_eq]
  exact ⟨ext_bytes, congrArg bytes⟩

/-- What `strcasecmp` compares: the bytes, in lower case. -/
def fold (s : CStr) : List UInt8 := s.bytes.map fun b => if 65 ≤ b ∧ b ≤ 90 then b + 32 else b

end CStr

/-- What a `char[n + 1]` can hold. -/
structure Buf (n : ℕ) where
  str : CStr
  le : str.strlen ≤ n
deriving DecidableEq

/-- `strlcpy` to a `char[n + 1]`. -/
def strlcpy (n : ℕ) (s : CStr) : Buf n :=
  ⟨⟨s.bytes.take n, fun b hb => s.nul_free b (List.mem_of_mem_take hb)⟩, List.length_take_le _ _⟩

/-- A string from a buffer of the same size is copied whole. -/
theorem strlcpy_str {n : ℕ} (b : Buf n) : strlcpy n b.str = b := by
  have hbytes := List.take_of_length_le b.le
  rcases b with ⟨s, hle⟩
  unfold strlcpy
  simp only [hbytes]

/-- The `k` little-endian bytes of `n`. -/
def leBytes : ℕ → ℕ → List UInt8
  | 0, _ => []
  | k + 1, n => UInt8.ofNat n :: leBytes k (n / 256)

/-- The number that little-endian bytes stand for. -/
def leNat : List UInt8 → ℕ
  | [] => 0
  | b :: bs => b.toNat + 256 * leNat bs

/-- `leBytes k` makes `k` bytes. -/
@[simp]
theorem length_leBytes (k n : ℕ) : (leBytes k n).length = k := by
  induction k generalizing n with
  | zero => rfl
  | succ k ih => simp [leBytes, ih]

/-- Reading `k` little-endian bytes back gives the number modulo `256^k`. -/
theorem leNat_leBytes (k n : ℕ) : leNat (leBytes k n) = n % 256 ^ k := by
  induction k generalizing n with
  | zero => simp [leBytes, leNat, Nat.mod_one]
  | succ k ih =>
    have hb : (UInt8.ofNat n).toNat = n % 256 := by simp
    simp only [leBytes, leNat, ih, hb]
    rw [pow_succ, Nat.mul_comm (256 ^ k) 256, Nat.mod_mul]

/-- A number that fits in `k` bytes reads back unchanged. -/
theorem leNat_leBytes_of_lt {k n : ℕ} (h : n < 256 ^ k) : leNat (leBytes k n) = n := by
  rw [leNat_leBytes, Nat.mod_eq_of_lt h]

/-- The number that big-endian bytes stand for. -/
def beNat (bs : List UInt8) : ℕ := bs.foldl (fun acc b => acc * 256 + b.toNat) 0

/-- A big-endian integer fits in its bytes. -/
theorem beNat_lt (bs : List UInt8) : beNat bs < 256 ^ bs.length := by
  induction bs using List.reverseRecOn with
  | nil => decide
  | append_singleton bs b ih =>
    have hb : beNat (bs ++ [b]) = beNat bs * 256 + b.toNat := by simp [beNat]
    have := b.toNat_lt
    rw [List.length_append, List.length_singleton]
    omega

end ObbyIRCd
