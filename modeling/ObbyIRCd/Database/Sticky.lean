import ObbyIRCd.Database.NullCipher

/-!
# Reads after a failed read

A read that fails records an error, and the error blocks what follows. `unrealdb_read_str` alone
refuses a length above 10000 without recording one: the next call then takes the bytes of the string
for its own.
-/

namespace ObbyIRCd.Database

variable {C : Crypto}

/-- A sequence of calls that goes on after a failure: what they return, and the handle. -/
def readAll (c : UnrealDB C) : List Kind → List (Option Record) × UnrealDB C
  | [] => ([], c)
  | k :: ks =>
    let (r, c') := readRecord c k
    let (rs, c'') := readAll c' ks
    (r :: rs, c'')

/-- After a call that fails every call fails. -/
def Sticky (c : UnrealDB C) : Prop :=
  ∀ ks, (readAll c ks).1.Pairwise fun r r' => r = none → r' = none

/-- Not one more byte can be read. -/
def Dry (c : UnrealDB C) : Prop := (unrealdbRead c 1).1 = none

/-- A string comes next whose length is refused, and there is a byte behind the length. -/
def Overlong (c : UnrealDB C) : Prop :=
  ∃ len c', unrealdbReadInt16 c = (some len, c') ∧ 10000 < len ∧ len ≠ 0xffff ∧ ¬Dry c'

variable {c : UnrealDB C} {len : ℕ}

theorem unrealdbReadLoop_error {st : C.State} {acc : List UInt8} :
    (unrealdbReadLoop c st acc len).1 = none → (unrealdbReadLoop c st acc len).2.error.isSome := by
  fun_induction unrealdbReadLoop c st acc len <;> simp_all [UnrealDB.setError]

theorem unrealdbRead_error :
    (unrealdbRead c len).1 = none → (unrealdbRead c len).2.error.isSome := by
  fun_cases unrealdbRead c len <;> simp_all [UnrealDB.setError, unrealdbReadLoop_error]

/-- A loop that cannot fill one byte cannot fill more. -/
theorem unrealdbReadLoop_none {st : C.State} {acc acc' : List UInt8} (hlen : 0 < len) :
    (unrealdbReadLoop c st acc 1).1 = none → (unrealdbReadLoop c st acc' len).1 = none := by
  generalize hone : 1 = one
  fun_induction unrealdbReadLoop c st acc one generalizing acc' <;> intro h
  case case5 => cases h
  all_goals rw [unrealdbReadLoop]
  case case1 hin => rw [dif_pos hin]
  case case2 hin hpull => rw [dif_neg hin, hpull]
  -- a block without bytes leaves both where they were
  case case3 hin _ out _ hpull hout heof =>
    rw [dif_neg hin, hpull]
    exact congrArg Prod.fst ((if_pos (by omega)).trans (if_pos heof))
  case case4 hin _ out _ hpull hout heof ih =>
    have hzero : out.length = 0 := by omega
    rw [dif_neg hin, hpull]
    exact (congrArg Prod.fst ((if_pos (by omega)).trans (if_neg heof))).trans
      (hzero ▸ ih (by omega) h)

theorem Dry.unrealdbRead (h : Dry c) (hlen : 0 < len) :
    (unrealdbRead c len).1 = none := by
  unfold Dry Database.unrealdbRead at *
  split_ifs with herror hmode
  · rfl
  · rfl
  rw [if_neg herror, if_neg hmode] at h
  rcases hst : c.st with - | st <;> simp only [hst] at h ⊢
  · split_ifs at h with hshort
    have hrest : c.fd.rest = [] := by simpa [File.fread] using hshort
    simp [File.fread, hrest, hlen]
  · split_ifs at h with hfull
    have hbuf : c.buf = [] := by
      by_contra hne
      have := List.length_pos_iff.mpr hne
      exact hfull ⟨hne, by omega⟩
    simp only [hbuf] at h ⊢
    exact unrealdbReadLoop_none hlen h

theorem dry_of_none {c' : UnrealDB C} (h : unrealdbRead c len = (none, c')) : Dry c' := by
  have herror := unrealdbRead_error (by rw [h])
  rw [h] at herror
  simp [Dry, unrealdbRead, herror]

theorem Dry.readRecord (h : Dry c) (k : Kind) :
    (readRecord c k).1 = none ∧ Dry (readRecord c k).2 := by
  have hread : ∀ len, 0 < len → ∃ c', Database.unrealdbRead c len = (none, c') ∧ Dry c' :=
    fun len hlen => ⟨_, Prod.ext (h.unrealdbRead hlen) rfl,
      dry_of_none (Prod.ext (h.unrealdbRead hlen) rfl)⟩
  obtain ⟨c₁, h₁, hdry₁⟩ := hread 1 (by decide)
  obtain ⟨c₂, h₂, hdry₂⟩ := hread 2 (by decide)
  obtain ⟨c₄, h₄, hdry₄⟩ := hread 4 (by decide)
  obtain ⟨c₈, h₈, hdry₈⟩ := hread 8 (by decide)
  cases k <;> simp [Database.readRecord, unrealdbReadInt64, unrealdbReadInt32, unrealdbReadInt16,
    unrealdbReadChar, unrealdbReadStr, *]

/-- A failure leaves nothing to read, unless it was a length that was refused. -/
theorem readRecord_dry {k : Kind} (h : (readRecord c k).1 = none) (hlong : ¬Overlong c) :
    Dry (readRecord c k).2 := by
  cases k <;> grind [readRecord, unrealdbReadInt64, unrealdbReadInt32, unrealdbReadInt16,
    unrealdbReadChar, unrealdbReadStr, dry_of_none, Overlong]

theorem readAll_append (c : UnrealDB C) (ks ks' : List Kind) :
    (readAll c (ks ++ ks')).1 = (readAll c ks).1 ++ (readAll (readAll c ks).2 ks').1 := by
  induction ks generalizing c with
  | nil => rfl
  | cons k ks ih => exact congrArg ((readRecord c k).1 :: ·) (ih _)

theorem Dry.readAll (h : Dry c) (ks : List Kind) : ∀ r ∈ (readAll c ks).1, r = none := by
  induction ks generalizing c with
  | nil => exact List.forall_mem_nil _
  | cons k ks ih => exact List.forall_mem_cons.mpr ⟨(h.readRecord k).1, ih (h.readRecord k).2⟩

/-- Errors last exactly for the files in which no refused string has a byte behind its length. -/
theorem sticky_iff (c : UnrealDB C) : Sticky c ↔ ∀ ks, ¬Overlong (readAll c ks).2 := by
  refine ⟨?_, fun h ks => ?_⟩
  · rintro h ks ⟨len, c', hlen, hlong, hnull, hbyte⟩
    have hafter := (List.pairwise_append.mp (readAll_append c ks [.str, .char] ▸ h _)).2.1
    have hstr : unrealdbReadStr (readAll c ks).2 = (none, c') := by grind [unrealdbReadStr]
    have hchar : (unrealdbReadChar c').1 = none := by simpa [readAll, readRecord, hstr] using hafter
    exact hbyte (by grind [unrealdbReadChar, Dry])
  · induction ks generalizing c with
    | nil => exact .nil
    | cons k ks ih =>
      refine .cons (fun r hr hnone => ?_) (ih _ fun ks => h (k :: ks))
      exact (readRecord_dry hnone (h [])).readAll ks r hr

/-- The length 10001 is refused, and the byte behind it is read as a character. -/
theorem not_sticky_overlong :
    ¬Sticky (⟨⟨[], 0, [0x11, 0x27, 65], false⟩, .read, none, 0, [], none⟩ : UnrealDB nullCrypto) :=
  fun h => absurd (h [.str, .char]) (by decide)

end ObbyIRCd.Database
