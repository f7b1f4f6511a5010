import ObbyIRCd.Metadata.Model

/-!
# The metadata that is stored for accounts

`store_metadata_for_user` of `metadata-db.c` copies the metadata of a client that is logged in to the
list that is written to disk. First each key of the client is updated or put at the end, then, with
`remove`, the keys that the client does not have any more are taken out. Account names and keys are
compared with case here.
-/

namespace ObbyIRCd.Metadata

open List

/-- `struct metadata_storage`. -/
structure Stored where
  account : List Char
  name : List Char
  value : List Char
  lastSeen : ℤ
deriving DecidableEq, Repr

/-- One round of the first loop of `store_metadata_for_user`. -/
def storeEntry (now : ℤ) (account : List Char) (storage : List Stored) (e : Entry) : List Stored :=
  if storage.any fun sm => sm.account = account ∧ sm.name = e.name then
    storage.map fun sm =>
      if sm.account = account ∧ sm.name = e.name then { sm with value := e.value, lastSeen := now }
      else sm
  else storage ++ [⟨account, e.name, e.value, now⟩]

/-- `store_metadata_for_user`. -/
def storeMetadataForUser (now : ℤ) (account : List Char) (metadata : List Entry) (remove : Bool)
    (storage : List Stored) : List Stored :=
  let storage := metadata.foldl (storeEntry now account) storage
  if remove then
    storage.filter fun sm => sm.account ≠ account ∨ metadata.any fun e => e.name = sm.name
  else storage

/-- The account and the key of an entry. -/
def Stored.key (sm : Stored) : List Char × List Char := (sm.account, sm.name)

variable {now : ℤ} {account : List Char} {storage : List Stored} {e : Entry} {sm : Stored}

/-- An update leaves the accounts and keys as they are. -/
theorem map_key_update (storage : List Stored) :
    (storage.map fun sm => if sm.account = account ∧ sm.name = e.name then
      { sm with value := e.value, lastSeen := now } else sm).map Stored.key =
      storage.map Stored.key := by
  rw [map_map]
  refine map_congr_left fun sm _ => ?_
  simp only [Function.comp]
  split_ifs <;> rfl

/-- No account has a key twice after a round. -/
theorem nodup_storeEntry (hnodup : (storage.map Stored.key).Nodup) :
    ((storeEntry now account storage e).map Stored.key).Nodup := by
  unfold storeEntry
  split_ifs with hany
  · rw [map_key_update]
    exact hnodup
  · simp only [any_eq_true, decide_eq_true_eq, not_exists, not_and] at hany
    rw [map_append, nodup_append]
    refine ⟨hnodup, nodup_singleton _, ?_⟩
    intro a ha b hb heq
    obtain ⟨old, hold, rfl⟩ := mem_map.mp ha
    obtain rfl := mem_singleton.mp hb
    obtain ⟨haccount, hname⟩ := Prod.mk.inj heq
    exact hany old hold haccount hname

/-- A round stores the entry, and keeps what has another account or key. -/
theorem mem_storeEntry :
    sm ∈ storeEntry now account storage e ↔
      sm = ⟨account, e.name, e.value, now⟩ ∨ sm ∈ storage ∧ sm.key ≠ (account, e.name) := by
  unfold storeEntry
  split_ifs with hany
  · simp only [any_eq_true, decide_eq_true_eq] at hany
    obtain ⟨old, hold, haccount, hname⟩ := hany
    rw [mem_map]
    constructor
    · rintro ⟨x, hx, rfl⟩
      split_ifs with hkey
      · obtain ⟨rfl, hname⟩ := hkey
        exact .inl (by rw [← hname])
      · exact .inr ⟨hx, fun heq => hkey (Prod.mk.inj heq)⟩
    · rintro (rfl | ⟨hsm, hne⟩)
      · exact ⟨old, hold, by rw [if_pos ⟨haccount, hname⟩, haccount, hname]⟩
      · exact ⟨sm, hsm, if_neg fun hkey => hne (Prod.ext hkey.1 hkey.2)⟩
  · simp only [any_eq_true, decide_eq_true_eq, not_exists, not_and] at hany
    have hother : sm ∈ storage → sm.key ≠ (account, e.name) := fun hsm heq =>
      hany sm hsm (Prod.mk.inj heq).1 (Prod.mk.inj heq).2
    rw [mem_append, mem_singleton]
    tauto

variable {metadata : List Entry}

/-- No account has a key twice after the first loop. -/
theorem nodup_foldl_storeEntry (hnodup : (storage.map Stored.key).Nodup) :
    ((metadata.foldl (storeEntry now account) storage).map Stored.key).Nodup := by
  induction metadata generalizing storage with
  | nil => exact hnodup
  | cons e metadata ih => exact ih (nodup_storeEntry hnodup)

/-- The first loop stores every entry of the client, and keeps what has another account or key. -/
theorem mem_foldl_storeEntry (hkeys : (metadata.map Entry.name).Nodup) :
    sm ∈ metadata.foldl (storeEntry now account) storage ↔
      (∃ e ∈ metadata, sm = ⟨account, e.name, e.value, now⟩) ∨
        sm ∈ storage ∧ ∀ e ∈ metadata, sm.key ≠ (account, e.name) := by
  induction metadata generalizing storage with
  | nil => simp
  | cons e metadata ih =>
    obtain ⟨hnotMem, hkeys⟩ := nodup_cons.mp hkeys
    have hlater : sm = ⟨account, e.name, e.value, now⟩ →
        ∀ e' ∈ metadata, sm.key ≠ (account, e'.name) := by
      rintro rfl e' he' heq
      have hname : e.name = e'.name := (Prod.mk.inj heq).2
      exact hnotMem (hname ▸ mem_map_of_mem he')
    rw [foldl_cons, ih hkeys, mem_storeEntry, forall_mem_cons]
    simp only [mem_cons, exists_eq_or_imp]
    constructor
    · rintro (hnew | ⟨heq | ⟨hold, hne⟩, hrest⟩)
      · exact .inl (.inr hnew)
      · exact .inl (.inl heq)
      · exact .inr ⟨hold, hne, hrest⟩
    · rintro ((heq | hnew) | ⟨hold, hne, hrest⟩)
      · exact .inr ⟨.inl heq, hlater heq⟩
      · exact .inl hnew
      · exact .inr ⟨.inr ⟨hold, hne⟩, hrest⟩

/-- The stored entries of the account become those of the client, each once, and those of other
accounts stay. -/
theorem storeMetadataForUser_spec (hnodup : (storage.map Stored.key).Nodup)
    (hkeys : (metadata.map Entry.name).Nodup) :
    (∀ name value, (∃ t, ⟨account, name, value, t⟩ ∈
        storeMetadataForUser now account metadata true storage) ↔ ⟨name, value⟩ ∈ metadata) ∧
      ((storeMetadataForUser now account metadata true storage).map Stored.key).Nodup ∧
      ∀ sm, sm.account ≠ account →
        (sm ∈ storeMetadataForUser now account metadata true storage ↔ sm ∈ storage) := by
  have hmem : ∀ sm, sm ∈ storeMetadataForUser now account metadata true storage ↔
      (∃ e ∈ metadata, sm = ⟨account, e.name, e.value, now⟩) ∨
        sm ∈ storage ∧ sm.account ≠ account := by
    intro sm
    rw [storeMetadataForUser, if_pos rfl, mem_filter, mem_foldl_storeEntry hkeys]
    simp only [decide_eq_true_eq, any_eq_true]
    constructor
    · rintro ⟨hnew | ⟨hold, hkey⟩, hkept⟩
      · exact .inl hnew
      · refine .inr ⟨hold, fun haccount => ?_⟩
        obtain ⟨e, he, hname⟩ := hkept.resolve_left (not_not.mpr haccount)
        exact hkey e he (Prod.ext haccount hname.symm)
    · rintro (⟨e, he, rfl⟩ | ⟨hold, hne⟩)
      · exact ⟨.inl ⟨e, he, rfl⟩, .inr ⟨e, he, rfl⟩⟩
      · exact ⟨.inr ⟨hold, fun e _ heq => hne (Prod.mk.inj heq).1⟩, .inl hne⟩
  refine ⟨fun name value => ?_, ?_, fun sm hsm => ?_⟩
  · simp only [hmem]
    constructor
    · rintro ⟨t, ⟨e, he, heq⟩ | ⟨-, hne⟩⟩
      · obtain ⟨-, rfl, rfl, -⟩ := Stored.mk.inj heq
        exact he
      · exact absurd rfl hne
    · exact fun hmem => ⟨now, .inl ⟨_, hmem, rfl⟩⟩
  · exact (nodup_foldl_storeEntry hnodup).sublist (filter_sublist.map _)
  · rw [hmem]
    constructor
    · rintro (⟨e, -, rfl⟩ | ⟨hold, -⟩)
      · exact absurd rfl hsm
      · exact hold
    · exact fun hold => .inr ⟨hold, hsm⟩

/-- What is stored after the client of account `a` has changed the key `k`, added `n` and removed
`r`. -/
def storedExample : List Stored :=
  storeMetadataForUser 9 ['a'] [⟨['k'], ['w']⟩, ⟨['n'], ['x']⟩] true
    [⟨['a'], ['k'], ['v'], 5⟩, ⟨['b'], ['k'], ['v'], 5⟩, ⟨['a'], ['r'], ['v'], 5⟩]

/-- A key that is changed, one that is added, one that is removed, and one of another account. -/
theorem storeMetadataForUser_spec_example :
    (∃ t, ⟨['a'], ['k'], ['w'], t⟩ ∈ storedExample) ∧ (∃ t, ⟨['a'], ['n'], ['x'], t⟩ ∈ storedExample) ∧
      (¬∃ t, ⟨['a'], ['r'], ['v'], t⟩ ∈ storedExample) ∧ ⟨['b'], ['k'], ['v'], 5⟩ ∈ storedExample := by
  obtain ⟨hvalues, -, hothers⟩ := @storeMetadataForUser_spec 9 ['a']
    [⟨['a'], ['k'], ['v'], 5⟩, ⟨['b'], ['k'], ['v'], 5⟩, ⟨['a'], ['r'], ['v'], 5⟩]
    [⟨['k'], ['w']⟩, ⟨['n'], ['x']⟩] (by decide) (by decide)
  exact ⟨(hvalues _ _).mpr (by decide), (hvalues _ _).mpr (by decide),
    fun h => absurd ((hvalues _ _).mp h) (by decide), (hothers _ (by decide)).mpr (by decide)⟩

end ObbyIRCd.Metadata
