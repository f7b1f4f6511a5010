import ObbyIRCd.Chanmode.Invariant

/-!
# Ban lists of several servers

The entries that other servers send go through `add_listmode_ex`, which keeps the older of two
entries with one mask. In whatever order they arrive, each mask ends up with its oldest entry
(`addBans_perm`), unless `set::maxbans` is 0, with which an empty list takes no entry. The function
looks for the mask as it is given and stores it cut to `MAXBANLEN`, so that a longer one would be
stored twice; its callers cut the masks before.
-/

namespace ObbyIRCd.Chanmode

open List Keyed

/-- What `identical_ban` compares. -/
def Ban.key (b : Ban) : List Char := lower b.banstr

/-- A call of `add_listmode_ex` by another server, for which `MAXBANS` matters only if the list is
empty. -/
def addBan (maxbans : ℕ) (list : List Ban) (c : Ban) : List Ban :=
  (addListmodeEx (list.isEmpty && maxbans < 1) c.banstr c.who c.when list).1

/-- An entry as it is stored. -/
structure Ban.Fits (b : Ban) : Prop where
  banstr : b.banstr.length ≤ modebuflen
  who : b.who.length ≤ 106
  pos : 0 < b.when

/-- No mask is listed twice, and all entries have times. -/
structure Listed (list : List Ban) : Prop where
  nodup : (list.map Ban.key).Nodup
  pos : ∀ b ∈ list, 0 < b.when

/-- The oldest entry with its mask among a list and the calls. A call that is as old as the entry of the
list is not taken. -/
def Oldest (list calls : List Ban) (b : Ban) : Prop :=
  (b ∈ list ∨ b ∈ calls ∧ ∀ a ∈ list, a.key = b.key → b.when < a.when) ∧
    ∀ c ∈ calls, c.key = b.key → b.when ≤ c.when

variable {list calls : List Ban} {b c : Ban}

theorem modify_eq_map {k : List Char} (h : (list.map Ban.key).Nodup) :
    modify Ban.key k (fun _ => c) list = list.map fun b => if b.key = k then c else b := by
  induction list with
  | nil => rfl
  | cons a list ih =>
    obtain ⟨hnotMem, hnodup⟩ := nodup_cons.mp h
    rw [Keyed.modify, map_cons]
    split_ifs with ha
    · have hid : list.map (fun b => if b.key = k then c else b) = list :=
        (map_congr_left fun b hb => if_neg fun hk => hnotMem (by
          rw [ha, ← hk]
          exact mem_map_of_mem hb)).trans (map_id list)
      rw [hid]
    · rw [ih hnodup]

variable {maxbans : ℕ} (hmax : 1 ≤ maxbans) (h : Listed list)
include hmax h

/-- A call adds an entry, or replaces a later one with its mask. -/
theorem Listed.addBan_eq (hc : c.Fits) :
    addBan maxbans list c = c :: list ∧ c.key ∉ list.map Ban.key ∨
      ∃ a ∈ list, a.key = c.key ∧ addBan maxbans list c =
        if a.when ≤ c.when then list else list.map fun b => if b.key = c.key then c else b := by
  have hban : (⟨c.banstr.take modebuflen, c.who.take 106, c.when⟩ : Ban) = c := by
    rw [take_of_length_le hc.banstr, take_of_length_le hc.who]
  have hfull : (list.isEmpty && decide (maxbans < 1)) = false := by simp [Nat.not_lt.mpr hmax]
  unfold addBan addListmodeEx
  rw [hban, hfull]
  rcases hfind : find (fun b : Ban => lower b.banstr) list (lower c.banstr) with - | a
  · exact .inl ⟨rfl, (find_eq_none_iff Ban.key).mp hfind⟩
  have ha := mem_of_find Ban.key hfind
  refine .inr ⟨a, ha, key_of_find Ban.key hfind, ?_⟩
  by_cases hle : a.when ≤ c.when
  · rw [if_pos hle]
    exact congrArg Prod.fst (if_pos ⟨h.pos a ha, hle⟩)
  · rw [if_neg hle, ← modify_eq_map h.nodup]
    exact congrArg Prod.fst (if_neg fun hold => hle hold.2)

/-- What a list holds after a call. -/
theorem Listed.mem_addBan (hc : c.Fits) :
    b ∈ addBan maxbans list c ↔ (b ∈ list ∧ (b.key = c.key → b.when ≤ c.when)) ∨
      (b = c ∧ ∀ a ∈ list, a.key = c.key → c.when < a.when) := by
  have hunique : ∀ a ∈ list, ∀ a' ∈ list, a.key = a'.key → a = a' := fun a ha a' ha' =>
    inj_on_of_nodup_map h.nodup ha ha'
  rcases h.addBan_eq hmax hc with ⟨heq, hnotMem⟩ | ⟨a, ha, hkey, heq⟩
  · grind
  · grind

/-- A call leaves no mask twice. -/
theorem Listed.addBan (hc : c.Fits) : Listed (addBan maxbans list c) := by
  constructor
  · rcases h.addBan_eq hmax hc with ⟨heq, hnotMem⟩ | ⟨a, ha, hkey, heq⟩
    · rw [heq]
      exact nodup_cons.mpr ⟨hnotMem, h.nodup⟩
    · rw [heq]
      split_ifs
      · exact h.nodup
      · have hkeys : Ban.key ∘ (fun b => if b.key = c.key then c else b) = Ban.key := by
          funext b
          simp only [Function.comp]
          split_ifs with hb
          · exact hb.symm
          · rfl
        rw [map_map, hkeys]
        exact h.nodup
  · intro b hb
    rcases (h.mem_addBan hmax hc).mp hb with ⟨hb, -⟩ | ⟨rfl, -⟩
    · exact h.pos b hb
    · exact hc.pos

/-- By induction on the calls: each one passes on the oldest entries so far. -/
theorem Listed.mem_addBans (hcalls : ∀ c ∈ calls, c.Fits)
    (htimes : calls.Pairwise fun c c' => c.key = c'.key → c.when ≠ c'.when) :
    b ∈ calls.foldl (Chanmode.addBan maxbans) list ↔ Oldest list calls b := by
  induction calls generalizing list with
  | nil => simp [Oldest]
  | cons c calls ih =>
    obtain ⟨hc, hcalls⟩ := forall_mem_cons.mp hcalls
    obtain ⟨hne, htimes⟩ := pairwise_cons.mp htimes
    rw [foldl_cons, ih (h.addBan hmax hc) hcalls htimes]
    unfold Oldest
    simp only [h.mem_addBan hmax hc]
    grind

theorem Listed.addBans (hcalls : ∀ c ∈ calls, c.Fits) :
    Listed (calls.foldl (Chanmode.addBan maxbans) list) :=
  foldlRecOn calls (Chanmode.addBan maxbans) h fun _ hlist c hc => hlist.addBan hmax (hcalls c hc)

omit hmax h

/-- In every order of the calls the list ends up with the oldest entry of each mask, and neither calls
nor deletions leave a mask twice. -/
theorem addBans_perm {calls' : List Ban} (hmax : 1 ≤ maxbans) (h : Listed list) (hcalls : ∀ c ∈ calls, c.Fits)
    (htimes : calls.Pairwise fun c c' => c.key = c'.key → c.when ≠ c'.when)
    (hperm : calls'.Perm calls) :
    (∀ b, b ∈ calls'.foldl (addBan maxbans) list ↔ Oldest list calls b) ∧
      Listed (calls'.foldl (addBan maxbans) list) ∧
      ∀ banid rest, delListmode banid (calls'.foldl (addBan maxbans) list) = some rest →
        Listed rest := by
  have hcalls' : ∀ c ∈ calls', c.Fits := fun c hc => hcalls c (hperm.mem_iff.mp hc)
  have htimes' := htimes.perm hperm.symm fun hne hkey => (hne hkey.symm).symm
  have hlisted := h.addBans hmax hcalls'
  refine ⟨fun b => ?_, hlisted, fun banid rest hdel => ?_⟩
  · rw [h.mem_addBans hmax hcalls' htimes']
    simp only [Oldest, hperm.mem_iff]
  · have hsub := mem_delListmode hdel
    exact ⟨hlisted.nodup.sublist (hsub.map _), fun b hb => hlisted.pos b (hsub.subset hb)⟩

/-- A mask that two servers have set. -/
def exampleBans : List Ban :=
  [⟨"*!*@Bad".toList, "a".toList, 7⟩, ⟨"*!*@bad".toList, "b".toList, 5⟩]

/-- The same bans in the other order. -/
theorem addBans_perm_example : Listed (exampleBans.reverse.foldl (addBan 60) []) :=
  (addBans_perm (by decide) (show Listed [] from ⟨nodup_nil, by simp⟩) (by
    simp only [exampleBans, forall_mem_cons]
    exact ⟨⟨by decide, by decide, by decide⟩, ⟨by decide, by decide, by decide⟩, by simp⟩)
    (by decide) (reverse_perm _)).2.1

/-- With `set::maxbans` 0 no entry arrives, and a mask of 201 characters is not found again. -/
theorem addBan_lost_or_twice :
    (exampleBans.foldl (addBan 0) [] = [] ∧ ∃ b, Oldest [] exampleBans b) ∧
      ¬Listed ([⟨replicate 201 'a', [], 2⟩, ⟨replicate 201 'a', [], 1⟩].foldl (addBan 60) []) := by
  refine ⟨⟨by decide, ⟨"*!*@bad".toList, "b".toList, 5⟩, ?_⟩, ?_⟩
  · simp [Oldest, exampleBans]
  · exact fun h => absurd h.nodup (by decide +kernel)

end ObbyIRCd.Chanmode
