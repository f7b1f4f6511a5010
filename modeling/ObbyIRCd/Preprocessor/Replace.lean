import ObbyIRCd.Preprocessor.Model

/-!
# `$VAR` in names and values

`preprocessor_replace_defines` copies a text to a buffer of 4096 bytes, with values in the place of
references. It counts the room that is left, from 4094 on: a character takes one, and a value one more
than its length, as if it kept a terminator of its own. A text with many references is cut off though
its expansion fits. A variable that is defined as the empty text has no value, and a reference to it
stays as it is.
-/

namespace ObbyIRCd.Preprocessor

open List

/-- What the loop comes to: a character, `$$`, or a reference. -/
inductive Piece
  | char (c : Char)
  | escape
  | var (name : List Char)

/-- `ValidVarCharacter`. -/
def validVarCharacter (x : Char) : Bool := x.isUpper || x.isDigit || x == '_'

/-- What a `$` with `i` behind it begins, and how much of `i` belongs to it. -/
def reference (i : List Char) : Piece × ℕ :=
  if i.head? == some '$' then (.escape, 1)
  else (.var (i.takeWhile validVarCharacter), (i.takeWhile validVarCharacter).length)

/-- `get_config_define`. -/
def Facts.getConfigDefine (facts : Facts) (name : List Char) : Option (List Char) :=
  (facts.findConfigDefine name).join

/-- What is put in the place of a piece. `varname` has 512 bytes. -/
def Piece.value (facts : Facts) : Piece → List Char
  | char c => [c]
  | escape => ['$']
  | var name => (facts.getConfigDefine (name.take 510)).getD ('$' :: name.take 510)

/-- The loop, with the room that is left and how much of `i` has been read as part of a reference. -/
def replaceLoop (facts : Facts) : (n skip : ℕ) → (i : List Char) → List Char
  | _, _, [] => []
  | n, skip + 1, _ :: i => replaceLoop facts n skip i
  | n, 0, c :: i =>
    if c ≠ '$' then c :: if n - 1 = 0 then [] else replaceLoop facts (n - 1) 0 i
    else
      let value := (reference i).1.value facts
      let limit := min (value.length + 1) n
      -- where `*varend == 0` nothing is left of `i`
      value.take (limit - 1) ++
        if n - limit = 0 then [] else replaceLoop facts (n - limit) (reference i).2 i

/-- `preprocessor_replace_defines`. -/
def preprocessorReplaceDefines (facts : Facts) (item : List Char) : List Char :=
  if item.contains '$' then replaceLoop facts 4094 0 item else item

/-! ## What a text stands for -/

def pieces : (skip : ℕ) → List Char → List Piece
  | _, [] => []
  | skip + 1, _ :: i => pieces skip i
  | 0, c :: i =>
    if c ≠ '$' then .char c :: pieces 0 i else (reference i).1 :: pieces (reference i).2 i

variable (ds : List (List Char × List Char))

/-- The globals after some definitions, the newest first. -/
def defined : Facts := ds.foldr (fun d facts => facts.define d.1 d.2) ⟨[], []⟩

def lookup (name : List Char) : Option (List Char) :=
  (ds.find? fun d => lower d.1 == lower name).map (·.2)

def Piece.text : Piece → List Char
  | char c => [c]
  | escape => ['$']
  | var name => (lookup ds name).getD ('$' :: name)

/-- A name has at most 500 characters. -/
def Piece.Short : Piece → Bool
  | var name => name.length ≤ 500
  | _ => true

/-- The expansion of a text. -/
def expand (item : List Char) : List Char := (pieces 0 item).flatMap (Piece.text ds)

/-- A text whose expansion fits the buffer is replaced by it. -/
def Exact (item : List Char) : Prop :=
  (expand ds item).length < 4096 → preprocessorReplaceDefines (defined ds) item = expand ds item

def room (facts : Facts) : List Piece → ℕ
  | [] => 0
  | .char _ :: ps => 1 + room facts ps
  | p :: ps => (p.value facts).length + 1 + room facts ps

/-- The pieces are charged more than there is room for. -/
abbrev Overfull (item : List Char) : Prop := 4094 < room (defined ds) (pieces 0 item)

/-- A variable is used that is defined as the empty text. -/
abbrev UsesEmpty (item : List Char) : Prop := ∃ p ∈ pieces 0 item, p.text ds = []

theorem getConfigDefine_defined (name : List Char) :
    (defined ds).getConfigDefine name = (lookup ds name).filter (· ≠ []) := by
  induction ds with
  | nil => rfl
  | cons d ds ih =>
    unfold Facts.getConfigDefine Facts.findConfigDefine lookup at ih ⊢
    by_cases hname : lower d.1 == lower name
    · by_cases hvalue : d.2 = [] <;> simp [defined, Facts.define, Option.filter, hname, hvalue]
    · simpa [defined, Facts.define, hname] using ih

theorem Piece.value_ne_nil (p : Piece) : p.value (defined ds) ≠ [] := by
  cases p with
  | var name =>
    rw [value, getConfigDefine_defined]
    rcases lookup ds (name.take 510) with - | v
    · simp
    · by_cases h : v = [] <;> simp [Option.filter, h]
  | _ => simp [value]

theorem Piece.value_eq {p : Piece} (h : p.text ds ≠ [])
    (hshort : p.Short) : p.value (defined ds) = p.text ds := by
  cases p with
  | var name =>
    have hshort : name.length ≤ 500 := of_decide_eq_true hshort
    rw [text] at h
    rw [value, text, getConfigDefine_defined, take_of_length_le (by omega)]
    rcases hv : lookup ds name with - | v
    · rfl
    · have h : v ≠ [] := by simpa [hv] using h
      simp [Option.filter, h]
  | _ => rfl

theorem room_eq_zero_iff (ps : List Piece) :
    ps.flatMap (Piece.value (defined ds)) = [] ↔ room (defined ds) ps = 0 := by
  rcases ps with - | ⟨p, ps⟩
  · simp [room]
  · cases p <;> simp [room, Piece.value_ne_nil]

/-- What is put and its `charge` are followed by what there is room for. -/
theorem append_rest_iff {v rest : List Char} {tail : ℕ → List Char} {charge r n : ℕ}
    (hcharge : charge ≤ n) (hr : rest = [] ↔ r = 0) (htail : ∀ m, 0 < m → (tail m = rest ↔ r ≤ m)) :
    v ++ (if n - charge = 0 then [] else tail (n - charge)) = v ++ rest ↔ charge + r ≤ n := by
  rw [append_cancel_left_eq]
  split_ifs with h
  · rw [eq_comm, hr]
    omega
  · rw [htail _ (by omega)]
    omega

/-- The output is cut exactly if there is no room for it. -/
theorem replaceLoop_eq_iff (i : List Char) (n skip : ℕ) (hn : 0 < n) :
    replaceLoop (defined ds) n skip i = (pieces skip i).flatMap (Piece.value (defined ds)) ↔
      room (defined ds) (pieces skip i) ≤ n := by
  induction i generalizing n skip with
  | nil => simp [replaceLoop, pieces, room]
  | cons c i ih =>
    rcases skip with - | skip
    swap
    · exact ih n skip hn
    unfold replaceLoop pieces
    by_cases hc : c ≠ '$'
    · rw [if_pos hc, if_pos hc]
      exact append_rest_iff (v := [c]) hn (room_eq_zero_iff ds _) fun m hm => ih m 0 hm
    have hroom : room (defined ds) ((reference i).1 :: pieces (reference i).2 i) =
        ((reference i).1.value (defined ds)).length + 1 + room (defined ds) (pieces (reference i).2 i) := by
      unfold reference
      split <;> rfl
    rw [if_neg hc, if_neg hc, hroom, flatMap_cons]
    generalize (reference i).1.value (defined ds) = value
    dsimp only
    by_cases hfits : value.length + 1 ≤ n
    · rw [Nat.min_eq_left hfits, Nat.add_sub_cancel, take_length]
      exact append_rest_iff hfits (room_eq_zero_iff ds _) fun m hm => ih m _ hm
    · -- the value is cut off
      rw [Nat.min_eq_right (by omega), if_pos (Nat.sub_self n)]
      refine iff_of_false (fun heq => ?_) (by omega)
      have hlen := congrArg length heq
      simp only [length_append, length_take, length_nil] at hlen
      omega

/-- What is put in the place of pieces is longer if one of them is empty. -/
theorem length_flatMap_text (ps : List Piece) (hshort : ∀ p ∈ ps, p.Short) :
    (ps.flatMap (Piece.text ds)).length + ps.countP (fun p => p.text ds = []) ≤
      (ps.flatMap (Piece.value (defined ds))).length := by
  induction ps with
  | nil => simp
  | cons p ps ih =>
    obtain ⟨hp, hps⟩ := forall_mem_cons.mp hshort
    have ih := ih hps
    rw [flatMap_cons, flatMap_cons, length_append, length_append, countP_cons]
    split_ifs with h
    · have hpos := length_pos_iff.mpr (p.value_ne_nil ds)
      rw [of_decide_eq_true h, length_nil]
      omega
    · rw [Piece.value_eq ds (by simpa using h) hp]
      omega

theorem expand_plain {item : List Char} (h : '$' ∉ item) : expand ds item = item := by
  unfold expand
  induction item with
  | nil => rfl
  | cons c item ih =>
    obtain ⟨hc, hitem⟩ := not_or.mp (mem_cons.not.mp h)
    simpa [pieces, Ne.symm hc, Piece.text] using ih hitem

/-- Texts with names of at most 500 characters are expanded exactly if there is room for their pieces
as they are charged, and none is empty. If both fail, what is put can happen to be right. -/
theorem exact_iff {item : List Char} (hshort : ∀ p ∈ pieces 0 item, p.Short)
    (hone : UsesEmpty ds item → Overfull ds item → 4096 ≤ (expand ds item).length) :
    Exact ds item ↔ '$' ∉ item ∨ 4096 ≤ (expand ds item).length ∨
      ¬UsesEmpty ds item ∧ ¬Overfull ds item := by
  unfold Exact preprocessorReplaceDefines
  by_cases hlong : 4096 ≤ (expand ds item).length
  · exact iff_of_true (fun h => absurd h (Nat.not_lt.mpr hlong)) (.inr (.inl hlong))
  by_cases hdollar : '$' ∈ item
  · have hloop := (replaceLoop_eq_iff ds item 4094 0 (by decide)).trans Nat.not_lt.symm
    simp only [contains_iff_mem.mpr hdollar, Nat.not_le.mp hlong, hdollar, hlong, if_true, true_imp_iff,
      not_true, false_or]
    by_cases hempty : UsesEmpty ds item
    · have hlen := length_flatMap_text ds _ hshort
      have hcount : 0 < (pieces 0 item).countP fun p => p.text ds = [] := by
        simpa [countP_pos_iff, UsesEmpty] using hempty
      rw [hloop.mpr fun h => hlong (hone hempty h)]
      refine iff_of_false (fun heq => ?_) fun h => h.1 hempty
      rw [heq, expand] at hlen
      omega
    · have hexpand : expand ds item = (pieces 0 item).flatMap (Piece.value (defined ds)) :=
        flatMap_congr fun p hp => (Piece.value_eq ds (fun h => hempty ⟨p, hp, h⟩) (hshort p hp)).symm
      rw [hexpand, hloop]
      exact (and_iff_right hempty).symm
  · simp [hdollar, expand_plain ds hdollar]

def exampleDefines : List (List Char × List Char) := [("A".toList, "1".toList), ("B".toList, [])]

/-- A variable, an escaped `$`, and a variable that is not defined. -/
theorem exact_reference : preprocessorReplaceDefines (defined exampleDefines) "$A-$$A$C".toList =
    "1-$A$C".toList :=
  (exact_iff _ (by decide) fun h => absurd h (by decide)).mpr
    (.inr (.inr ⟨fun h => absurd h (by decide), by decide⟩)) (by decide)

/-- 2048 escapes are 2047 characters, and an empty variable stays. -/
theorem not_exact_escapes : ¬Exact [] (replicate 4096 '$') ∧ ¬Exact exampleDefines "$B".toList := by
  unfold Exact
  constructor <;> decide +kernel

end ObbyIRCd.Preprocessor
