import Mathlib.Data.List.Find
import Mathlib.Data.List.Nodup
import Mathlib.Data.List.Perm.Basic

/-!
# Tables of entries with a key

A list of entries that are looked up by a key, where an arriving entry is merged into the one that has
its key, or put in front of the list if there is none and it is accepted. `find_foldl_absorb` says what
a list of arrivals with different keys leaves at each key, and `find_foldl_absorb_of_key` what arrivals
that all have one key leave there.
-/

namespace ObbyIRCd.Keyed

open List

variable {α κ : Type*} [DecidableEq κ] (key : α → κ)

/-- The first entry with key `k`. -/
def find (t : List α) (k : κ) : Option α := t.find? fun e => key e = k

/-- `f` applied to the first entry with key `k`. -/
def modify (k : κ) (f : α → α) : List α → List α
  | [] => []
  | e :: t => if key e = k then f e :: t else e :: modify k f t

/-- The arrival of `e`. -/
def absorb (merge : α → α → α) (accept : α → Bool) (t : List α) (e : α) : List α :=
  match find key t (key e) with
  | some _ => modify key (key e) (merge · e) t
  | none => if accept e then e :: t else t

/-- What two tables hold together at one key. -/
def combine (merge : α → α → α) : Option α → Option α → Option α
  | some a, some b => some (merge a b)
  | some a, none => some a
  | none, b => b

theorem combine_comm_iff (f : α → α → α) (a b : Option α) :
    combine f a b = combine f b a ↔ ∀ x ∈ a, ∀ y ∈ b, f x y = f y x := by
  cases a <;> cases b <;> simp [combine]

@[simp]
theorem find_nil (k : κ) : find key [] k = none := rfl

theorem find_cons (e : α) (t : List α) (k : κ) :
    find key (e :: t) k = if key e = k then some e else find key t k := by
  unfold find
  by_cases h : key e = k <;> simp [h]

theorem find_append (t u : List α) (k : κ) :
    find key (t ++ u) k = (find key t k).or (find key u k) :=
  find?_append

variable {t : List α} {k : κ} {f : α → α} {e : α}

theorem key_of_find (h : find key t k = some e) : key e = k := by
  have hkey := find?_some h
  simpa using hkey

theorem mem_of_find {t : List α} {k : κ} (h : find key t k = some e) : e ∈ t :=
  mem_of_find?_eq_some h

theorem find_eq_none_iff : find key t k = none ↔ k ∉ t.map key := by
  simp [find]

theorem find_of_mem (hnodup : (t.map key).Nodup) (he : e ∈ t) :
    find key t (key e) = some e := by
  obtain ⟨front, rest, rfl⟩ := append_of_mem he
  refine find?_eq_some_iff_append.mpr ⟨by simp, front, rest, rfl, fun a ha => ?_⟩
  rw [map_append, nodup_append] at hnodup
  simpa using hnodup.2.2 (key a) (mem_map_of_mem ha) (key e) (by simp)

theorem find_eq_some_iff (hnodup : (t.map key).Nodup) :
    find key t k = some e ↔ e ∈ t ∧ key e = k := by
  constructor
  · exact fun h => ⟨mem_of_find key h, key_of_find key h⟩
  · rintro ⟨he, rfl⟩
    exact find_of_mem key hnodup he

theorem find_map (hf : ∀ e ∈ t, key (f e) = key e) (k : κ) :
    find key (t.map f) k = (find key t k).map f := by
  unfold find
  rw [find?_map, find?_congr fun e he => by rw [Function.comp_apply, hf e he]]

theorem find_filter (p : κ → Bool) (hk : p k = true) (t : List α) :
    find key (t.filter fun e => p (key e)) k = find key t k := by
  unfold find
  rw [find?_filter]
  refine find?_congr fun e _ => ?_
  by_cases he : key e = k <;> simp [he, hk]

theorem find_filter_of_nodup (p : α → Bool) (hnodup : (t.map key).Nodup) (k : κ) :
    find key (t.filter p) k = (find key t k).filter p := by
  refine Option.ext fun e => ?_
  rw [Option.filter_eq_some_iff, find_eq_some_iff key hnodup, and_right_comm, ← mem_filter,
    find_eq_some_iff key (hnodup.sublist (filter_sublist.map key))]

theorem find_eraseP_of_ne {k' : κ} (hk : k' ≠ k) (t : List α) :
    find key (t.eraseP fun e => key e = k) k' = find key t k' := by
  induction t with
  | nil => rfl
  | cons e t ih =>
    by_cases he : key e = k
    · have hne : key e ≠ k' := fun h => hk (h.symm.trans he)
      rw [eraseP_cons_of_pos (by simpa using he), find_cons, if_neg hne]
    · rw [eraseP_cons_of_neg (by simpa using he), find_cons, find_cons, ih]

theorem mem_modify (h : e ∈ modify key k f t) : e ∈ t ∨ ∃ a ∈ t, e = f a := by
  induction t with
  | nil => exact absurd h not_mem_nil
  | cons a t ih =>
    unfold modify at h
    split_ifs at h
    · rcases mem_cons.mp h with rfl | h
      · exact .inr ⟨a, mem_cons_self, rfl⟩
      · exact .inl (mem_cons_of_mem a h)
    · rcases mem_cons.mp h with rfl | h
      · exact .inl mem_cons_self
      · rcases ih h with h | ⟨b, hb, rfl⟩
        · exact .inl (mem_cons_of_mem a h)
        · exact .inr ⟨b, mem_cons_of_mem a hb, rfl⟩

theorem map_modify {β : Type*} (field : α → β) (hf : ∀ e, field (f e) = field e) (t : List α) :
    (modify key k f t).map field = t.map field := by
  induction t with
  | nil => rfl
  | cons e t ih =>
    unfold modify
    split_ifs with h
    · rw [map_cons, map_cons, hf]
    · rw [map_cons, map_cons, ih]

variable (hf : ∀ e, key (f e) = key e)
include hf

theorem map_key_modify (t : List α) :
    (modify key k f t).map key = t.map key :=
  map_modify key key hf t

theorem modify_modify {g : α → α} (t : List α) :
    modify key k g (modify key k f t) = modify key k (fun e => g (f e)) t := by
  induction t with
  | nil => rfl
  | cons e t ih =>
    by_cases h : key e = k
    · simp [modify, h, hf]
    · simp [modify, h, ih]

theorem find_modify (t : List α) (k' : κ) :
    find key (modify key k f t) k' =
      if k' = k then (find key t k).map f else find key t k' := by
  induction t with
  | nil => simp [modify]
  | cons e t ih =>
    unfold modify
    by_cases hk : key e = k
    · by_cases hk' : k' = k
      · subst hk'
        simp [find_cons, hf, hk]
      · simp [find_cons, hf, hk, hk', Ne.symm hk']
    · rw [if_neg hk, find_cons, find_cons, find_cons, ih, if_neg hk]
      by_cases hk' : k' = k
      · subst hk'
        rw [if_neg hk, if_pos rfl, if_pos rfl]
      · rw [if_neg hk', if_neg hk']

omit hf

section Absorb

variable {merge : α → α → α} {accept : α → Bool} (hkey : ∀ a b, key (merge a b) = key a)

include hkey

theorem find_absorb_of_ne (t : List α) {k : κ} (hk : key e ≠ k) :
    find key (absorb key merge accept t e) k = find key t k := by
  unfold absorb
  split
  · rw [find_modify key (fun a => hkey a e), if_neg (Ne.symm hk)]
  · split_ifs
    · rw [find_cons, if_neg hk]
    · rfl

/-- An arrival at a key that is taken is merged into the entry there. -/
theorem find_absorb_of_find (t : List α) {e a : α} (ha : find key t (key e) = some a) :
    find key (absorb key merge accept t e) (key e) = some (merge a e) := by
  unfold absorb
  rw [ha]
  rw [find_modify key (fun a => hkey a e), if_pos rfl, ha, Option.map_some]

theorem find_absorb_self (t : List α) (he : accept e = true) :
    find key (absorb key merge accept t e) (key e) = combine merge (find key t (key e)) (some e) := by
  rcases hf : find key t (key e) with - | a
  · unfold absorb
    rw [hf]
    rw [if_pos he, find_cons, if_pos rfl]
    rfl
  · exact find_absorb_of_find key hkey t hf

theorem nodup_absorb {t : List α} (hnodup : (t.map key).Nodup) (e : α) :
    ((absorb key merge accept t e).map key).Nodup := by
  unfold absorb
  split
  · rw [map_key_modify key (fun a => hkey a e)]
    exact hnodup
  rename_i hnone
  split_ifs
  · exact nodup_cons.mpr ⟨(find_eq_none_iff key).mp hnone, hnodup⟩
  · exact hnodup

theorem find_foldl_absorb_of_notMem (es : List α) {k : κ} (hk : k ∉ es.map key) (t : List α) :
    find key (es.foldl (absorb key merge accept) t) k = find key t k := by
  induction es generalizing t with
  | nil => rfl
  | cons e es ih =>
    rw [map_cons, mem_cons, not_or] at hk
    rw [foldl_cons, ih hk.2, find_absorb_of_ne key hkey t (Ne.symm hk.1)]

/-- Accepted arrivals with different keys leave at each key what the two tables hold together. -/
theorem find_foldl_absorb (es : List α) (hnodup : (es.map key).Nodup)
    (haccept : ∀ e ∈ es, accept e = true) (t : List α) (k : κ) :
    find key (es.foldl (absorb key merge accept) t) k =
      combine merge (find key t k) (find key es k) := by
  induction es generalizing t with
  | nil =>
    rw [foldl_nil]
    rcases find key t k with - | a <;> rfl
  | cons e es ih =>
    rw [map_cons, nodup_cons] at hnodup
    rw [foldl_cons, ih hnodup.2 (fun a ha => haccept a (mem_cons_of_mem e ha)), find_cons]
    by_cases hk : key e = k
    · -- the key of `e` does not come again
      subst hk
      rw [if_pos rfl, (find_eq_none_iff key).mpr hnodup.1,
        find_absorb_self key hkey t (haccept e mem_cons_self)]
      rcases find key t (key e) with - | a <;> rfl
    · rw [if_neg hk, find_absorb_of_ne key hkey t hk]

/-- Arrivals at one key that is taken are merged into the entry there, one after the other. -/
theorem find_foldl_absorb_of_key (es : List α) {k : κ} (hes : ∀ e ∈ es, key e = k) {t : List α}
    {a : α} (ha : find key t k = some a) :
    find key (es.foldl (absorb key merge accept) t) k = some (es.foldl merge a) := by
  induction es generalizing t a with
  | nil => exact ha
  | cons e es ih =>
    have he := hes e mem_cons_self
    subst he
    exact ih (fun b hb => hes b (mem_cons_of_mem e hb)) (find_absorb_of_find key hkey t ha)

end Absorb

section Keep

/-- The arrival of an entry that is only kept if its key is free. -/
def keep (t : List α) (e : α) : List α := if (find key t (key e)).isSome then t else e :: t

variable {t : List α}

theorem keep_of_notMem (h : key e ∉ t.map key) : keep key t e = e :: t := by
  unfold keep
  rw [(find_eq_none_iff key).mpr h]
  rfl

theorem keep_sublist (t : List α) (e : α) : (keep key t e).Sublist (e :: t) := by
  unfold keep
  split_ifs
  · exact sublist_cons_self e t
  · exact .refl _

theorem nodup_keep (hnodup : (t.map key).Nodup) (e : α) : ((keep key t e).map key).Nodup := by
  unfold keep
  split_ifs with hfound
  · exact hnodup
  · have hnone : find key t (key e) = none := by simpa using hfound
    exact nodup_cons.mpr ⟨(find_eq_none_iff key).mp hnone, hnodup⟩

/-- Arrivals are kept in the order in which they came, or not at all. -/
theorem foldl_keep_sublist (es t : List α) : (es.foldl (keep key) t).Sublist (es.reverse ++ t) := by
  induction es generalizing t with
  | nil => exact .refl _
  | cons e es ih =>
    rw [reverse_cons, append_assoc]
    exact (ih (keep key t e)).trans (.append_left (keep_sublist key t e) _)

theorem nodup_foldl_keep (es : List α) (hnodup : (t.map key).Nodup) :
    ((es.foldl (keep key) t).map key).Nodup := by
  induction es generalizing t with
  | nil => exact hnodup
  | cons e es ih => exact ih (nodup_keep key hnodup e)

theorem mem_keep {a : α} : e ∈ keep key t a ↔ e ∈ t ∨ e = a ∧ key e ∉ t.map key := by
  unfold keep
  rw [← find_eq_none_iff]
  cases h : find key t (key a) <;> grind

theorem mem_map_key_keep {a : α} : k ∈ (keep key t a).map key ↔ k ∈ t.map key ∨ k = key a := by
  unfold keep
  split_ifs with hfound
  · rw [← Option.ne_none_iff_isSome, Ne, find_eq_none_iff, not_not] at hfound
    grind
  · simp [or_comm]

theorem mem_foldl_keep {es : List α} :
    e ∈ es.foldl (keep key) t ↔
      e ∈ t ∨ ∃ l₁ l₂, es = l₁ ++ e :: l₂ ∧ key e ∉ l₁.map key ∧ key e ∉ t.map key := by
  induction es generalizing t with
  | nil => simp
  | cons a es ih =>
    rw [foldl_cons, ih, mem_keep, mem_map_key_keep, not_or]
    constructor
    · rintro ((he | ⟨rfl, hfree⟩) | ⟨l₁, l₂, rfl, hl₁, ht, hne⟩)
      · exact .inl he
      · exact .inr ⟨[], es, rfl, not_mem_nil, hfree⟩
      · refine .inr ⟨a :: l₁, l₂, rfl, ?_, ht⟩
        rw [map_cons, mem_cons, not_or]
        exact ⟨hne, hl₁⟩
    · rintro (he | ⟨l₁, l₂, hsplit, hl₁, ht⟩)
      · exact .inl (.inl he)
      -- Either `e` is the first arrival, or it comes behind it.
      rcases l₁ with - | ⟨b, l₁⟩
      · obtain ⟨rfl, rfl⟩ := hsplit
        exact .inl (.inr ⟨rfl, ht⟩)
      · obtain ⟨rfl, rfl⟩ := hsplit
        rw [map_cons, mem_cons, not_or] at hl₁
        exact .inr ⟨l₁, l₂, rfl, hl₁.2, ht, hl₁.1⟩

/-- What is kept of the arrivals that some of the items make. -/
theorem mem_foldl_keep_filterMap {β : Type*} {f : β → Option α} {bs : List β} :
    e ∈ (bs.filterMap f).foldl (keep key) [] ↔
      ∃ before b after, bs = before ++ b :: after ∧ f b = some e ∧
        ∀ b' ∈ before, ∀ e', f b' = some e' → key e' ≠ key e := by
  rw [mem_foldl_keep, or_iff_right not_mem_nil]
  constructor
  · rintro ⟨l₁, l₂, hsplit, hfirst, -⟩
    obtain ⟨bs₁, bs₂, rfl, rfl, hrest⟩ := filterMap_eq_append_iff.mp hsplit
    obtain ⟨skipped, b, after, rfl, hskipped, hb, rfl⟩ := filterMap_eq_cons_iff.mp hrest
    refine ⟨bs₁ ++ skipped, b, after, by rw [append_assoc], hb, fun b' hb' e' he' heq => ?_⟩
    rcases mem_append.mp hb' with hb' | hb'
    · exact hfirst (mem_map.mpr ⟨e', mem_filterMap.mpr ⟨b', hb', he'⟩, heq⟩)
    · rw [hskipped b' hb'] at he'
      cases he'
  · rintro ⟨before, b, after, rfl, hb, hfirst⟩
    refine ⟨before.filterMap f, after.filterMap f, ?_, ?_, not_mem_nil⟩
    · rw [filterMap_append, filterMap_cons_some hb]
    · intro hmem
      obtain ⟨e', he', heq⟩ := mem_map.mp hmem
      obtain ⟨b', hb', he'⟩ := mem_filterMap.mp he'
      exact hfirst b' hb' e' he' heq

/-- Arrivals with different keys that are all free are all kept. -/
theorem foldl_keep_of_nodup {es : List α} (hnodup : ((es.reverse ++ t).map key).Nodup) :
    es.foldl (keep key) t = es.reverse ++ t := by
  induction es generalizing t with
  | nil => rfl
  | cons e es ih =>
    rw [reverse_cons, append_assoc, singleton_append] at hnodup ⊢
    have hfree : key e ∉ t.map key := by
      rw [map_append] at hnodup
      exact (nodup_cons.mp hnodup.of_append_right).1
    rw [foldl_cons, keep_of_notMem key hfree, ih hnodup]

end Keep

end ObbyIRCd.Keyed
