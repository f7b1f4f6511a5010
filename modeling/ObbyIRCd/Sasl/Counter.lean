import Mathlib.Data.List.MinMax
import ObbyIRCd.Sasl.Exchange

/-!
# The signature counters of WebAuthn credentials

An assertion records its counter, and a later one has to carry a larger counter. The recorded counter
is the largest seen (`recorded_assert`). An assertion without a counter is let through also for a
credential that has one: a clone that sends zero is not detected.
-/

namespace ObbyIRCd.Sasl

/-- An assertion, with the account that the exchange has named, goes to `webauthn_verify_assertion`. -/
def Store.assert (db : Store) (a : Option ℕ × Assertion) : Store × Option ℕ :=
  webauthnVerifyAssertion db a.1 a.2.credentialId a.2.userHandle a.2.signCount a.2.signed

/-- The recorded counter of the credential in row `id`, if the assertion is for it and is signed. -/
def Store.presented (db : Store) (id : ℕ) (a : Option ℕ × Assertion) : Option ℕ :=
  match db.webauthnRow a.1 a.2.credentialId a.2.userHandle with
  | some ⟨rowId, _, _, .webauthn c⟩ =>
    if rowId = id ∧ a.2.signed c.x c.y then some c.counter else none
  | _ => none

/-- The counter that row `id` records. -/
def Store.Records (db : Store) (id k : ℕ) : Prop :=
  ∀ r ∈ db.rows, r.id = id → ∀ c, r.secret = .webauthn c → c.counter = k

/-- Along a sequence of assertions, the recorded counter is the largest of those in `seen`, which are
the first recorded one and those of the assertions that were accepted, and once it is not zero an
assertion that is accepted has a larger counter than all of them. -/
def Detects (id : ℕ) (db : Store) (seen : List ℕ) : List (Option ℕ × Assertion) → Prop
  | [] => db.Records id (seen.foldr max 0)
  | a :: as =>
    db.Records id (seen.foldr max 0) ∧
      match db.presented id a, (db.assert a).2 with
      | some k, some _ => (k ≠ 0 → ∀ m ∈ seen, m < a.2.signCount) ∧
          Detects id (db.assert a).1 (a.2.signCount :: seen) as
      | _, _ => Detects id (db.assert a).1 seen as

/-- No signed assertion for the credential comes without a counter once one has been recorded. -/
def Counted (id : ℕ) (db : Store) : List (Option ℕ × Assertion) → Prop
  | [] => True
  | a :: as => (∀ k, db.presented id a = some k → k ≠ 0 → a.2.signCount ≠ 0) ∧
      Counted id (db.assert a).1 as

variable {db : Store} {id k : ℕ} {a : Option ℕ × Assertion}

/-- Setting the counter of a row changes what that row records, and no other one. -/
theorem Store.Records.setCounter (h : db.Records id k) (rowId n : ℕ) :
    (db.setCounter rowId n).Records id (if rowId = id then n else k) := by
  intro r' hr' hid c hc
  obtain ⟨⟨rid, accountId, name, secret⟩, hr, rfl⟩ := List.mem_map.mp hr'
  by_cases hrow : rid = rowId
  · rw [if_pos hrow] at hid hc
    cases secret with
    | webauthn old =>
      obtain rfl : rid = id := hid
      obtain rfl := Secret.webauthn.inj hc
      exact (if_pos hrow.symm).symm
    | _ => cases hc
  · rw [if_neg hrow] at hid hc
    obtain rfl : rid = id := hid
    rw [if_neg (Ne.symm hrow)]
    exact h _ hr rfl c hc

/-- An assertion for another row, or one that is not signed, leaves the counter as it is. -/
theorem Store.Records.assert_of_none (h : db.Records id k) (hnone : db.presented id a = none) :
    (db.assert a).1.Records id k := by
  unfold Store.presented at hnone
  unfold Store.assert webauthnVerifyAssertion
  rcases hrow : db.webauthnRow a.1 a.2.credentialId a.2.userHandle with - | ⟨rowId, _, _, secret⟩
  · exact h
  cases secret with
  | webauthn c =>
    simp only [hrow] at hnone
    dsimp only
    split_ifs with hsigned hreplay hcount
    · exact h
    · exact h
    · have hother : rowId ≠ id := by
        rintro rfl
        rw [if_pos ⟨rfl, Bool.eq_true_of_not_eq_false hsigned⟩] at hnone
        cases hnone
      have hset := h.setCounter rowId a.2.signCount
      rwa [if_neg hother] at hset
    · exact h
  | _ => exact h

/-- What a signed assertion does to the counter of its credential. -/
theorem Store.Records.assert_of_some (h : db.Records id k) {k' : ℕ}
    (hsome : db.presented id a = some k') : k' = k ∧
      if 0 < k ∧ a.2.signCount ≠ 0 ∧ a.2.signCount ≤ k then db.assert a = (db, none)
      else (db.assert a).2.isSome ∧ (db.assert a).1.Records id (max k a.2.signCount) := by
  unfold Store.presented at hsome
  unfold Store.assert webauthnVerifyAssertion
  rcases hrow : db.webauthnRow a.1 a.2.credentialId a.2.userHandle with - | ⟨rowId, _, _, secret⟩
  · simp [hrow] at hsome
  have hmem := List.mem_of_find?_eq_some hrow
  cases secret with
  | webauthn c =>
    simp only [hrow] at hsome
    split_ifs at hsome with hpresented
    obtain ⟨rfl, hsigned⟩ := hpresented
    obtain rfl := Option.some.inj hsome
    obtain rfl : c.counter = k := h _ hmem rfl c rfl
    refine ⟨rfl, ?_⟩
    simp only [hsigned, Bool.true_eq_false, if_false]
    split_ifs with hreplay hpos
    · rfl
    · have hset := h.setCounter rowId a.2.signCount
      rw [if_pos rfl] at hset
      rw [show max c.counter a.2.signCount = a.2.signCount by omega]
      exact ⟨rfl, hset⟩
    · rw [show max c.counter a.2.signCount = c.counter by omega]
      exact ⟨rfl, h⟩
  | _ => simp [hrow] at hsome

/-- By induction on the assertions: `seen` has the recorded counter as its largest. -/
theorem detects_iff_of_records {seen : List ℕ} (hseen : seen ≠ [])
    (h : db.Records id (seen.foldr max 0)) (as : List (Option ℕ × Assertion)) :
    Detects id db seen as ↔ Counted id db as := by
  induction as generalizing db seen with
  | nil => exact iff_of_true h trivial
  | cons a as ih =>
    unfold Detects Counted
    rcases hp : db.presented id a with - | k
    · simp [h, ih hseen (h.assert_of_none hp)]
    obtain ⟨rfl, hk⟩ := h.assert_of_some hp
    split_ifs at hk with hreplay
    · simp [hk, h, ih hseen h, hreplay]
    obtain ⟨acct, hacct⟩ := Option.isSome_iff_exists.mp hk.1
    have hnext := ih (List.cons_ne_nil a.2.signCount seen) (max_comm _ a.2.signCount ▸ hk.2)
    have hlarger : (seen.foldr max 0 ≠ 0 → ∀ m ∈ seen, m < a.2.signCount) ↔
        (seen.foldr max 0 ≠ 0 → a.2.signCount ≠ 0) := by
      refine imp_congr_right fun hpos => ⟨fun hlt => ?_, fun hne m hm => ?_⟩
      · obtain ⟨m, hm⟩ := List.exists_mem_of_ne_nil seen hseen
        have := hlt m hm
        omega
      · have := List.le_max_of_le' 0 hm le_rfl
        omega
    simp [h, hacct, hnext, hlarger]

/-- Clones are detected exactly where no signed assertion comes without a counter after one has been
recorded. -/
theorem detects_iff (h : db.Records id k) (as : List (Option ℕ × Assertion)) :
    Detects id db [k] as ↔ Counted id db as :=
  detects_iff_of_records (List.cons_ne_nil k []) (by simpa using h) as

/-- A credential that has recorded the counter 5. -/
def countedStore : Store where
  accounts := [{ id := 1, name := "carol".toList }]
  rows := [⟨1, 1, "key".toList, .webauthn ⟨"c".toList, [], [], [], 5⟩⟩]
  nextId := 2
  ids_nodup := by decide
  names_nodup := by decide

/-- A signed assertion for it. -/
def countedAssertion (signCount : ℕ) : Option ℕ × Assertion :=
  (none, ⟨"c".toList, [], signCount, fun _ _ => true⟩)

/-- An assertion that counts six after five. -/
theorem detects_iff_six : Detects 1 countedStore [5] [countedAssertion 6] ↔
    Counted 1 countedStore [countedAssertion 6] :=
  detects_iff (by simp [Store.Records, countedStore]) _

/-- A clone that sends no counter is accepted. -/
theorem clone_undetected : ¬Detects 1 countedStore [5] [countedAssertion 0] := by
  rintro ⟨-, hlarger, -⟩
  exact absurd (hlarger (by decide) 5 (by decide)) (by decide)

end ObbyIRCd.Sasl
