import Mathlib.Data.List.Sort
import Mathlib.Order.Lattice

/-!
# Paging by a key

A collection is read in pages of at most `n` entries, in the order of a key. The next page starts
behind the key of the last entry read, so the entries that share this key and are not on the page are
never read. `Pages` is every way to read a collection like that, with entries of the same key in any
order. Such a reading is complete exactly if each page ends where the key changes
(`pages_perm_iff`), which depends on the keys alone (`AlignedAt`).
-/

namespace ObbyIRCd.Paging

open List

variable {α κ : Type*}

/-- Cuts behind the first `o` keys, and behind each further `n`, fall between different keys. -/
def AlignedAt (o n : ℕ) (keys : List κ) : Prop :=
  ∀ k < keys.length, o + k * n < keys.length → keys[o + k * n - 1]? ≠ keys[o + k * n]?

instance [DecidableEq κ] (o n : ℕ) (keys : List κ) : Decidable (AlignedAt o n keys) :=
  inferInstanceAs (Decidable (∀ k < keys.length, _ → _))

theorem alignedAt_map {ι : Type*} {f : κ → ι} (hf : f.Injective) (o n : ℕ) (keys : List κ) :
    AlignedAt o n (keys.map f) ↔ AlignedAt o n keys := by
  unfold AlignedAt
  simp [(Option.map_injective hf).eq_iff]

variable {n : ℕ} {keys : List κ} {front rest : List α} {last : α}

theorem alignedAt_iff {o : ℕ} (ho : 0 < o) (hn : 0 < n) (keys : List κ) :
    AlignedAt o n keys ↔
      (o < keys.length → keys[o - 1]? ≠ keys[o]?) ∧ AlignedAt n n (keys.drop o) := by
  have hshift (k : ℕ) : o + (k + 1) * n = o + (n + k * n) := by rw [Nat.succ_mul, Nat.add_comm n]
  have hshift' (k : ℕ) : o + (k + 1) * n - 1 = o + (n + k * n - 1) := by
    rw [hshift]
    omega
  constructor
  · intro h
    refine ⟨fun hlt => by simpa using h 0 (by omega) (by simpa using hlt), fun k hk hlt => ?_⟩
    rw [length_drop] at hk hlt
    have hcut := h (k + 1) (by omega) (by rw [hshift]; omega)
    rw [hshift', hshift] at hcut
    simpa [getElem?_drop] using hcut
  · rintro ⟨hfirst, hrest⟩ k hk hlt
    cases k with
    | zero => simpa using hfirst (by simpa using hlt)
    | succ k =>
      rw [hshift] at hlt
      have hle := Nat.le_mul_of_pos_right k hn
      have hcut := hrest k (by rw [length_drop]; omega) (by rw [length_drop]; omega)
      rw [hshift', hshift]
      simpa [getElem?_drop] using hcut

/-- A cut at the end of the list or behind it is no cut. -/
theorem alignedAt_of_length_le {o : ℕ} (h : keys.length ≤ o) :
    AlignedAt o n keys := fun k _ hlt => by omega

/-- The first cut of a list of entries, behind the entry `last`. -/
theorem alignedAt_keys_iff {key : α → κ} (hn : 0 < n) :
    AlignedAt (front.length + 1) n ((front ++ last :: rest).map key) ↔
      (∀ next ∈ rest.head?, key last ≠ key next) ∧ AlignedAt n n (rest.map key) := by
  rw [alignedAt_iff (Nat.succ_pos _) hn]
  refine and_congr ?_ ?_
  · cases rest with
    | nil | cons next rest => simp
  · have hdrop : ((front ++ last :: rest).map key).drop (front.length + 1) = rest.map key := by
      rw [← map_drop, append_cons, drop_left' (by simp)]
    rw [hdrop]

variable [LinearOrder κ] (key : α → κ)

def Sorted (l : List α) : Prop := l.Pairwise fun a b => key a ≤ key b

def beyond (k : κ) (l : List α) : List α := l.filter fun a => k < key a

/-- What is read from a collection, page by page. Each page has entries as long as there are any. -/
inductive Pages (n : ℕ) : List α → List α → Prop
  | done : Pages n [] []
  | more {l sorted front received : List α} {last : α} (hperm : sorted.Perm l)
      (hsorted : Sorted key sorted) (hpage : sorted.take n = front ++ [last])
      (hrest : Pages n (beyond key (key last) l) received) : Pages n l (front ++ last :: received)

variable {key}

theorem exists_sorted (key : α → κ) (l : List α) :
    ∃ sorted : List α, sorted.Perm l ∧ Sorted key sorted :=
  ⟨l.insertionSort (Order.Preimage key (· ≤ ·)), perm_insertionSort _ _, pairwise_insertionSort _ _⟩

theorem beyond_beyond {k k' : κ} (h : k ≤ k') (l : List α) :
    beyond key k' (beyond key k l) = beyond key k' l := by
  unfold beyond
  rw [filter_filter]
  refine filter_congr fun a _ => ?_
  simpa using fun hlt => h.trans_lt hlt

/-- A sorted list's entries behind an entry of it are further on. -/
theorem beyond_append (hs : Sorted key (front ++ last :: rest)) :
    beyond key (key last) (front ++ last :: rest) = beyond key (key last) rest := by
  have hfront : ∀ a ∈ front, ¬ key last < key a := fun a ha =>
    not_lt.mpr ((pairwise_append.mp hs).2.2 a ha last mem_cons_self)
  unfold beyond
  rw [filter_append, filter_cons_of_neg (by simp),
    filter_eq_nil_iff.mpr (by simpa using hfront), nil_append]

variable {l sorted received : List α}

theorem beyond_eq_self_iff (hs : Sorted key (front ++ last :: rest)) :
    beyond key (key last) rest = rest ↔ ∀ next ∈ rest.head?, key last ≠ key next := by
  have hlast := (pairwise_cons.mp (pairwise_append.mp hs).2.1)
  unfold beyond
  rw [filter_eq_self]
  constructor
  · intro hall next hnext
    exact (of_decide_eq_true (hall next (mem_of_mem_head? hnext))).ne
  · -- Between the last entry and any other there is the next one.
    intro hne a ha
    cases rest with
    | nil => simp at ha
    | cons next rest =>
      have hlt := lt_of_le_of_ne (hlast.1 next mem_cons_self) (hne next rfl)
      have hle : key next ≤ key a := by
        rcases mem_cons.mp ha with rfl | ha
        · exact le_rfl
        · exact (pairwise_cons.mp hlast.2).1 a ha
      exact decide_eq_true (hlt.trans_le hle)

section

variable (hperm : sorted.Perm l) (hsorted : Sorted key sorted) (hpage : sorted = front ++ last :: rest)
include hperm hsorted hpage

/-- What is behind the last key of a page is among the entries that follow in order. -/
theorem beyond_perm :
    (beyond key (key last) rest).Perm (beyond key (key last) l) := by
  subst hpage
  rw [← beyond_append hsorted]
  exact hperm.filter _

/-- One page: a reading is complete if and only if the page ends where the key changes and what is
behind its last key is read completely. -/
theorem page_perm_iff (hreceived : received.Subperm (beyond key (key last) l)) :
    (front ++ last :: received).Perm l ↔
      (∀ next ∈ rest.head?, key last ≠ key next) ∧ received.Perm (beyond key (key last) l) := by
  have hbeyond := beyond_perm hperm hsorted hpage
  subst hpage
  have hcancel : (front ++ last :: received).Perm l ↔ received.Perm rest := by
    rw [← hperm.congr_right, perm_append_left_iff, perm_cons]
  rw [hcancel, ← hbeyond.congr_right, ← beyond_eq_self_iff hsorted]
  have hsub := hreceived.trans hbeyond.symm.subperm
  have hfilter : (beyond key (key last) rest).length ≤ rest.length := length_filter_le _ _
  constructor
  · intro hrest
    have hlen : (beyond key (key last) rest).length = rest.length :=
      le_antisymm hfilter (hrest.length_eq ▸ hsub.length_le)
    have hself : beyond key (key last) rest = rest :=
      filter_sublist.eq_of_length hlen
    exact ⟨hself, by rwa [hself]⟩
  · rintro ⟨hself, hrest⟩
    rwa [hself] at hrest

/-- A page of any length and pages of `n` entries behind it: if what is behind the page is read
completely exactly if its pages end where the key changes, so it is for the whole. -/
theorem append_perm_iff (hn : 0 < n) (hreceived : received.Subperm (beyond key (key last) l))
    (hrest : ∀ keys : List κ, keys.Perm ((beyond key (key last) l).map key) →
      keys.Pairwise (· ≤ ·) → (received.Perm (beyond key (key last) l) ↔ AlignedAt n n keys)) :
    (front ++ last :: received).Perm l ↔ AlignedAt (front.length + 1) n (sorted.map key) := by
  have hbeyond := beyond_perm hperm hsorted hpage
  rw [page_perm_iff hperm hsorted hpage hreceived, hpage, alignedAt_keys_iff hn]
  refine and_congr_right fun hchange => ?_
  have hsorted' : Sorted key (front ++ last :: rest) := hpage ▸ hsorted
  rw [(beyond_eq_self_iff hsorted').mpr hchange] at hbeyond
  have hle := (pairwise_cons.mp (pairwise_append.mp hsorted').2.1).2
  exact hrest _ (hbeyond.map key) (pairwise_map.mpr hle)

end

theorem keys_eq (hperm : sorted.Perm l) (hsorted : Sorted key sorted)
    (hkeys : keys.Perm (l.map key)) (hle : keys.Pairwise (· ≤ ·)) :
    keys = sorted.map key := by
  have hmap := pairwise_map.mpr hsorted
  exact Perm.eq_of_pairwise' hle hmap (hkeys.trans (hperm.map key).symm)

/-- A page is the first part of the collection in order. -/
theorem eq_append_of_take
    (hpage : sorted.take n = front ++ [last]) : sorted = front ++ last :: sorted.drop n := by
  rw [append_cons, ← hpage, take_append_drop]

/-- What is read is in the order of the keys, and nothing is read twice. -/
theorem pages_spec (h : Pages key n l received) : Sorted key received ∧ received.Subperm l := by
  induction h with
  | done => exact ⟨Pairwise.nil, Subperm.refl _⟩
  | @more l sorted front received last hperm hsorted hpage hrest ih =>
    have hsplit := eq_append_of_take hpage
    obtain ⟨ihsorted, ihsub⟩ := ih
    have hbeyond : ∀ a ∈ received, key last < key a := fun a ha => by
      simpa using (mem_filter.mp (ihsub.subset ha)).2
    constructor
    · -- All of the page is up to its last key, all of the rest is behind it.
      have hfront : Sorted key (front ++ [last]) := hpage ▸ hsorted.sublist (take_sublist _ _)
      have hle : ∀ a ∈ front, key a ≤ key last := fun a ha =>
        (pairwise_append.mp hfront).2.2 a ha last (mem_singleton_self _)
      refine pairwise_append.mpr ⟨(pairwise_append.mp hfront).1,
        pairwise_cons.mpr ⟨fun a ha => (hbeyond a ha).le, ihsorted⟩, fun a ha b hb => ?_⟩
      rcases mem_cons.mp hb with rfl | hb
      · exact hle a ha
      · exact (hle a ha).trans (hbeyond b hb).le
    · have hrest : received.Subperm (sorted.drop n) := by
        have hbeyond' := beyond_perm hperm hsorted hsplit
        exact ihsub.trans (hbeyond'.symm.subperm.trans filter_sublist.subperm)
      refine Subperm.trans ?_ hperm.subperm
      rw [hsplit]
      exact (subperm_append_left _).mpr ((subperm_cons _).mpr hrest)

/-- A collection is read completely, exactly if every page ends where the key changes. -/
theorem pages_perm_iff (hn : 0 < n) (h : Pages key n l received)
    (hkeys : keys.Perm (l.map key)) (hle : keys.Pairwise (· ≤ ·)) :
    received.Perm l ↔ AlignedAt n n keys := by
  induction h generalizing keys with
  | done =>
    obtain rfl : keys = [] := by simpa using hkeys
    exact iff_of_true (Perm.refl _) fun k hk => absurd hk (Nat.not_lt_zero k)
  | @more l sorted front received last hperm hsorted hpage hrest ih =>
    have hcut : AlignedAt n n keys ↔ AlignedAt (front.length + 1) n (sorted.map key) := by
      rw [keys_eq hperm hsorted hkeys hle]
      have hlen : min n sorted.length = front.length + 1 := by
        rw [← length_take, hpage, length_append, length_singleton]
      rcases le_total n sorted.length with hn' | hn'
      · rw [← hlen, min_eq_left hn']
      -- The last page: there is nothing behind it.
      rw [min_eq_right hn'] at hlen
      exact iff_of_true (alignedAt_of_length_le (by simpa using hn'))
        (alignedAt_of_length_le (by simp [hlen]))
    rw [hcut]
    exact append_perm_iff hperm hsorted (eq_append_of_take hpage) hn (pages_spec hrest).2
      fun keys => ih

theorem cons_pages_perm_iff (hn : 0 < n) {first : α} (hmem : first ∈ l)
    (hmin : ∀ a ∈ l, key first ≤ key a) (h : Pages key n (beyond key (key first) l) received)
    (hkeys : keys.Perm (l.map key)) (hle : keys.Pairwise (· ≤ ·)) :
    (first :: received).Perm l ↔ AlignedAt 1 n keys := by
  classical
  -- The collection in order, with this entry in front.
  obtain ⟨sorted, hperm, hsorted⟩ := exists_sorted key (l.erase first)
  have hperm' := (hperm.cons first).trans (perm_cons_erase hmem).symm
  have hsorted' : Sorted key (first :: sorted) :=
    pairwise_cons.mpr ⟨fun a ha => hmin a (mem_of_mem_erase (hperm.subset ha)), hsorted⟩
  rw [keys_eq hperm' hsorted' hkeys hle]
  exact append_perm_iff hperm' hsorted' (nil_append _).symm hn (pages_spec h).2
    fun keys hkeys hle => pages_perm_iff hn h hkeys hle

end ObbyIRCd.Paging
