import ObbyIRCd.Metadata.Model

/-!
# Notifications about metadata

What one subscriber is told about users that share a channel with it and about channels that it is on,
for keys that it is subscribed to. While its sendQ is long, a change of a user's metadata is queued by
its key, and `metadata_send_pending` sends the value that the key has then. If it has none any more,
nothing is sent (`deletion_lost`): the queue is good for values only (`last_of_deletions_sent`).
Changes of a channel's metadata are never queued.
-/

namespace ObbyIRCd.Metadata

open List

/-- `METADATA id key * :value` to the subscriber; a deletion has an empty value. -/
structure Note where
  id : List Char
  key : List Char
  value : List Char
deriving DecidableEq, Repr

/-- The metadata of users, by their ids, and channels, the queue `us` of the subscriber, what it was
sent, the last one first, and which keys were changed. -/
structure Watch where
  metadata : List Char → List Entry
  us : List (List Char × List Char)
  got : List Note
  changes : List (List Char × List Char)

/-- `metadata_notify_or_queue`. -/
def metadataNotifyOrQueue (sendable : Bool) (w : Watch) (id key value : List Char) : Watch :=
  if sendable then { w with got := ⟨id, key, value⟩ :: w.got }
  else { w with us := w.us ++ [(id, key)] }

/-- `user_metadata_changed` and `channel_metadata_changed`. -/
def metadataChanged (sendable : Bool) (w : Watch) (id key value : List Char) : Watch :=
  if id.head? = some '#' then { w with got := ⟨id, key, value⟩ :: w.got }
  else metadataNotifyOrQueue sendable w id key value

/-- One round of `metadata_send_pending`. -/
def sendPending (w : Watch) (id key : List Char) : Watch :=
  match getKeyValue (w.metadata id) key with
  | some value => { w with got := ⟨id, key, value⟩ :: w.got }
  | none => w

/-- A change by somebody else, or `metadata_send_pending`, in which the subscriber can receive for
`rounds` rounds. -/
inductive WatchOp
  | set (limit : ℕ) (sendable : Bool) (id key value : List Char)
  | flush (rounds : ℕ)

/-- An empty value unsets a key. -/
def textValue (text : List Char) : Option (List Char) := if text = [] then none else some text

/-- `metadata_set_user` and `metadata_set_channel` tell about changes only. -/
def Watch.step (w : Watch) : WatchOp → Watch
  | .set limit sendable id key value =>
    let metadata := metadataSet limit key (textValue value) (w.metadata id)
    if metadata = w.metadata id then w
    else
      metadataChanged sendable { w with
          metadata := Function.update w.metadata id metadata
          changes := (id, lower key) :: w.changes } id key value
  | .flush rounds =>
    { (w.us.take rounds).foldl (fun w u => sendPending w u.1 u.2) w with us := w.us.drop rounds }

def Watch.run (w : Watch) (ops : List WatchOp) : Watch := ops.foldl Watch.step w

/-- The last value that the subscriber got for a key. -/
def lastValue (got : List Note) (id key : List Char) : Option (List Char) :=
  (got.find? fun n => n.id = id ∧ lower n.key = lower key).map Note.value

/-- Keys of users are deleted only while the subscriber can receive. -/
def WatchOp.DeletionSent : WatchOp → Prop
  | .set _ sendable id _ value => value = [] → sendable = true ∨ id.head? = some '#'
  | .flush _ => True

/-- What is queued for a key does not matter, or will send its value. -/
def Watch.Synced (w : Watch) (id key : List Char) : Prop :=
  (id, lower key) ∈ w.changes →
    lastValue w.got id key = some ((getKeyValue (w.metadata id) key).getD []) ∨
      (getKeyValue (w.metadata id) key).isSome ∧ ∃ u ∈ w.us, u.1 = id ∧ lower u.2 = lower key

variable {limit : ℕ} {key key' id : List Char} {value : Option (List Char)} {metadata : List Entry}
  {w : Watch} {id' text : List Char} {sendable : Bool}

theorem key_ite (e : Entry) (value : List Char) :
    (if e.key = lower key then { e with value := value } else e : Entry).key = e.key := by
  split <;> rfl

/-- Setting or unsetting a key leaves no key twice. -/
theorem nodup_metadataSet (hnodup : (metadata.map Entry.key).Nodup) :
    ((metadataSet limit key value metadata).map Entry.key).Nodup := by
  unfold metadataSet
  split
  · exact hnodup.sublist (eraseP_sublist.map _)
  · split_ifs with hany
    · rw [map_map]
      exact (map_congr_left fun e _ => key_ite e _) ▸ hnodup
    · rw [map_append, nodup_append]
      refine ⟨hnodup, nodup_singleton _, ?_⟩
      intro a ha b hb heq
      obtain ⟨e, he, rfl⟩ := mem_map.mp ha
      obtain rfl := mem_singleton.mp hb
      exact hany (any_eq_true.mpr ⟨e, he, decide_eq_true heq⟩)
    · exact hnodup

/-- The other keys keep their values. -/
theorem getKeyValue_metadataSet_of_ne (hne : lower key' ≠ lower key) :
    getKeyValue (metadataSet limit key value metadata) key' = getKeyValue metadata key' := by
  unfold getKeyValue metadataSet
  split
  · rw [Keyed.find_eraseP_of_ne Entry.key hne]
  · rename_i value
    split_ifs
    · rw [Keyed.find_map Entry.key fun e _ => key_ite e value, Option.map_map]
      cases hfind : Keyed.find Entry.key metadata (lower key') with
      | none => rfl
      | some e =>
        have hkey : e.key = lower key' := Keyed.key_of_find Entry.key hfind
        rw [Option.map_some, Function.comp_apply, if_neg (by rw [hkey]; exact hne), Option.map_some]
    · have hnone : Keyed.find Entry.key [⟨key, value⟩] (lower key') = none := by
        rw [Keyed.find_cons]
        exact if_neg (Ne.symm hne)
      rw [Keyed.find_append, hnone, Option.or_none]
    · rfl

/-- The entry of a key that is unset is the only one. -/
theorem notMem_eraseP (hnodup : (metadata.map Entry.key).Nodup) :
    lower key ∉ (metadata.eraseP fun e => e.key = lower key).map Entry.key := by
  induction metadata with
  | nil => exact not_mem_nil
  | cons e metadata ih =>
    obtain ⟨hnotMem, hnodup⟩ := nodup_cons.mp hnodup
    by_cases hkey : e.key = lower key
    · rw [eraseP_cons_of_pos (by simpa using hkey), ← hkey]
      exact hnotMem
    · rw [eraseP_cons_of_neg (by simpa using hkey), map_cons, mem_cons, not_or]
      exact ⟨Ne.symm hkey, ih hnodup⟩

/-- A change that is not refused gives the key its value. -/
theorem getKeyValue_metadataSet (hnodup : (metadata.map Entry.key).Nodup)
    (hne : metadataSet limit key value metadata ≠ metadata) :
    getKeyValue (metadataSet limit key value metadata) key = value := by
  unfold getKeyValue metadataSet at *
  split at hne
  · rw [Option.map_eq_none_iff, Keyed.find_eq_none_iff]
    exact notMem_eraseP hnodup
  · rename_i value
    have hmem : (metadata.any fun e => decide (e.key = lower key)) = true ↔
        lower key ∈ metadata.map Entry.key := by
      simp
    split_ifs at hne ⊢ with hany hlimit
    · rw [Keyed.find_map Entry.key fun e _ => key_ite e value, Option.map_map]
      cases hfind : Keyed.find Entry.key metadata (lower key) with
      | none => exact absurd (hmem.mp hany) ((Keyed.find_eq_none_iff Entry.key).mp hfind)
      | some e =>
        have hkey : e.key = lower key := Keyed.key_of_find Entry.key hfind
        rw [Option.map_some, Function.comp_apply, if_pos hkey]
    · have hnone : Keyed.find Entry.key metadata (lower key) = none :=
        (Keyed.find_eq_none_iff Entry.key).mpr (hmem.not.mp hany)
      rw [Keyed.find_append, hnone, Option.none_or, Keyed.find_cons]
      exact congrArg _ (if_pos rfl)
    · exact absurd rfl hne

/-- A notification is the last one for its own key only. -/
theorem lastValue_cons (n : Note) (got : List Note) (id key : List Char) :
    lastValue (n :: got) id key =
      if n.id = id ∧ lower n.key = lower key then some n.value else lastValue got id key := by
  unfold lastValue
  by_cases h : n.id = id ∧ lower n.key = lower key
  · rw [find?_cons_of_pos (by simpa using h), if_pos h, Option.map_some]
  · rw [find?_cons_of_neg (by simpa using h), if_neg h]

/-- A round of `metadata_send_pending` sends the value of its key, if there is one. -/
theorem sendPending_eq (w : Watch) (u : List Char × List Char) (id key : List Char) :
    (sendPending w u.1 u.2).metadata = w.metadata ∧ (sendPending w u.1 u.2).changes = w.changes ∧
      lastValue (sendPending w u.1 u.2).got id key =
        if (u.1 = id ∧ lower u.2 = lower key) ∧ (getKeyValue (w.metadata id) key).isSome then
          getKeyValue (w.metadata id) key
        else lastValue w.got id key := by
  have hsame : u.1 = id ∧ lower u.2 = lower key →
      getKeyValue (w.metadata id) key = getKeyValue (w.metadata u.1) u.2 := by
    rintro ⟨rfl, hkey⟩
    unfold getKeyValue
    rw [hkey]
  unfold sendPending
  rcases hvalue : getKeyValue (w.metadata u.1) u.2 with - | value
  · refine ⟨rfl, rfl, (if_neg ?_).symm⟩
    rintro ⟨hu, hsome⟩
    rw [hsame hu, hvalue] at hsome
    exact Bool.false_ne_true hsome
  · refine ⟨rfl, rfl, ?_⟩
    rw [lastValue_cons]
    by_cases hu : u.1 = id ∧ lower u.2 = lower key
    · have hget := (hsame hu).trans hvalue
      rw [if_pos hu, if_pos ⟨hu, by rw [hget]; rfl⟩, hget]
    · rw [if_neg hu, if_neg fun h => hu h.1]

/-- `metadata_send_pending` sends the values of the keys in the queue. -/
theorem foldl_sendPending (us : List (List Char × List Char)) (w : Watch) (id key : List Char) :
    (us.foldl (fun w u => sendPending w u.1 u.2) w).metadata = w.metadata ∧
      (us.foldl (fun w u => sendPending w u.1 u.2) w).changes = w.changes ∧
      lastValue (us.foldl (fun w u => sendPending w u.1 u.2) w).got id key =
        if (∃ u ∈ us, u.1 = id ∧ lower u.2 = lower key) ∧ (getKeyValue (w.metadata id) key).isSome
        then getKeyValue (w.metadata id) key else lastValue w.got id key := by
  induction us generalizing w with
  | nil => simp
  | cons u us ih =>
    obtain ⟨hmetadata, hchanges, hlast⟩ := sendPending_eq w u id key
    rw [foldl_cons, (ih _).1, (ih _).2.1, (ih _).2.2, hmetadata, hchanges, hlast]
    refine ⟨rfl, rfl, ?_⟩
    simp only [mem_cons, exists_eq_or_imp]
    by_cases hus : ∃ u ∈ us, u.1 = id ∧ lower u.2 = lower key
    · by_cases hsome : (getKeyValue (w.metadata id) key).isSome = true <;> simp [hus, hsome]
    · by_cases hu : u.1 = id ∧ lower u.2 = lower key <;> simp [hus, hu]

/-- Sending from the queue keeps the subscriber in step. -/
theorem synced_flush (hsynced : w.Synced id key) (rounds : ℕ) :
    (w.step (.flush rounds)).Synced id key := by
  obtain ⟨hmetadata, hchanges, hlast⟩ := foldl_sendPending (w.us.take rounds) w id key
  have hgetD : (getKeyValue (w.metadata id) key).isSome →
      getKeyValue (w.metadata id) key = some ((getKeyValue (w.metadata id) key).getD []) := by
    cases getKeyValue (w.metadata id) key <;> simp
  have hus := take_append_drop rounds w.us
  simp only [Watch.Synced, Watch.step, hchanges, hmetadata, hlast]
  intro hmem
  obtain hlast | ⟨hsome, u, hu, hid⟩ := hsynced hmem
  · left
    split_ifs with h
    · exact hgetD h.2
    · exact hlast
  · rw [← hus, mem_append] at hu
    obtain hu | hu := hu
    · left
      rw [if_pos ⟨⟨u, hu, hid⟩, hsome⟩]
      exact hgetD hsome
    · exact .inr ⟨hsome, u, hu, hid⟩

/-- A change is sent, or queued if it is one of a user and the subscriber cannot receive. -/
theorem metadataChanged_eq (w : Watch) (id key value : List Char) :
    metadataChanged sendable w id key value = { w with got := ⟨id, key, value⟩ :: w.got } ∨
      (sendable = false ∧ id.head? ≠ some '#') ∧
        metadataChanged sendable w id key value = { w with us := w.us ++ [(id, key)] } := by
  unfold metadataChanged metadataNotifyOrQueue
  split_ifs with hid hsendable
  · exact .inl rfl
  · exact .inl rfl
  · exact .inr ⟨⟨Bool.eq_false_iff.mpr hsendable, hid⟩, rfl⟩

/-- After a change, the changed key has its value and every other one keeps its own. -/
theorem getKeyValue_update (hnodup : ((w.metadata id').map Entry.key).Nodup)
    (hne : metadataSet limit key' value (w.metadata id') ≠ w.metadata id') :
    getKeyValue (Function.update w.metadata id' (metadataSet limit key' value (w.metadata id')) id)
      key = if id = id' ∧ lower key = lower key' then value else getKeyValue (w.metadata id) key := by
  by_cases hid : id = id'
  · subst hid
    rw [Function.update_self]
    by_cases hkey : lower key = lower key'
    · have hset := getKeyValue_metadataSet hnodup hne
      unfold getKeyValue at hset ⊢
      rw [if_pos ⟨rfl, hkey⟩, hkey, hset]
    · rw [if_neg fun h => hkey h.2, getKeyValue_metadataSet_of_ne hkey]
  · rw [Function.update_of_ne hid, if_neg fun h => hid h.1]

/-- A change keeps the subscriber in step, unless it is a deletion that is queued. -/
theorem synced_set (hnodup : ((w.metadata id').map Entry.key).Nodup) (hsynced : w.Synced id key)
    (hsent : (WatchOp.set limit sendable id' key' text).DeletionSent) :
    (w.step (.set limit sendable id' key' text)).Synced id key := by
  have htext : (textValue text).getD [] = text := by
    unfold textValue
    split_ifs with h
    · exact h.symm
    · rfl
  have hold : (id, lower key) ∈ (id', lower key') :: w.changes →
      ¬(id = id' ∧ lower key = lower key') → (id, lower key) ∈ w.changes := fun hmem hkey =>
    (mem_cons.mp hmem).resolve_left fun h => hkey (Prod.mk.inj h)
  unfold Watch.step
  dsimp only
  split_ifs with hsame
  · exact hsynced
  · have hcurrent := @getKeyValue_update limit key key' id _ w id' hnodup hsame
    generalize Function.update w.metadata id' _ = metadata at hcurrent
    unfold Watch.Synced at hsynced
    obtain heq | ⟨⟨hsendable, hid⟩, heq⟩ := metadataChanged_eq _ id' key' text
    · rw [heq]
      intro hmem
      rw [lastValue_cons, hcurrent]
      by_cases hkey : id = id' ∧ lower key = lower key'
      · left
        rw [if_pos ⟨hkey.1.symm, hkey.2.symm⟩, if_pos hkey, htext]
      · rw [if_neg fun h => hkey ⟨h.1.symm, h.2.symm⟩, if_neg hkey]
        exact hsynced (hold hmem hkey)
    · have hne : text ≠ [] := fun h => by
        obtain h | h := hsent h
        · simp [hsendable] at h
        · exact hid h
      have hsome : (textValue text).isSome = true := by
        unfold textValue
        rw [if_neg hne]
        rfl
      rw [heq]
      intro hmem
      dsimp only at hmem
      rw [hcurrent]
      split_ifs with hkey
      · exact .inr ⟨hsome, (id', key'), by simp, hkey.1.symm, hkey.2.symm⟩
      · obtain hlast | ⟨hvalue, u, hu, heq⟩ := hsynced (hold hmem hkey)
        · exact .inl hlast
        · exact .inr ⟨hvalue, u, mem_append_left _ hu, heq⟩

/-- No step leaves a key twice. -/
theorem nodup_step (hnodup : ∀ id, ((w.metadata id).map Entry.key).Nodup) (op : WatchOp) :
    ∀ id, (((w.step op).metadata id).map Entry.key).Nodup := by
  intro id
  cases op with
  | set limit sendable id' key' text =>
    unfold Watch.step
    dsimp only
    split_ifs
    · exact hnodup id
    · obtain heq | ⟨-, heq⟩ := metadataChanged_eq _ id' key' text
      all_goals
        rw [heq]
        dsimp only
        rw [Function.update_apply]
        split_ifs
        · exact nodup_metadataSet (hnodup id')
        · exact hnodup id
  | flush rounds =>
    rw [Watch.step, (foldl_sendPending _ w id id).1]
    exact hnodup id

/-- The subscriber stays in step along a run in which no deletion is queued. -/
theorem synced_run (ops : List WatchOp) (hops : ∀ op ∈ ops, op.DeletionSent)
    (hnodup : ∀ id, ((w.metadata id).map Entry.key).Nodup) (hsynced : w.Synced id key) :
    (w.run ops).Synced id key := by
  induction ops generalizing w with
  | nil => exact hsynced
  | cons op ops ih =>
    obtain ⟨hop, hops⟩ := forall_mem_cons.mp hops
    refine ih hops (nodup_step hnodup op) ?_
    cases op with
    | set limit sendable id' key' text => exact synced_set (hnodup id') hsynced hop
    | flush rounds => exact synced_flush hsynced rounds

/-- Once the queue is empty, the subscriber knows the value of every key that was changed. -/
theorem last_of_deletions_sent (metadata : List Char → List Entry)
    (hnodup : ∀ id, ((metadata id).map Entry.key).Nodup) (ops : List WatchOp)
    (hops : ∀ op ∈ ops, op.DeletionSent)
    (hus : (Watch.run ⟨metadata, [], [], []⟩ ops).us = []) (id key : List Char)
    (hchanged : (id, lower key) ∈ (Watch.run ⟨metadata, [], [], []⟩ ops).changes) :
    lastValue (Watch.run ⟨metadata, [], [], []⟩ ops).got id key = some ((getKeyValue
      ((Watch.run ⟨metadata, [], [], []⟩ ops).metadata id) key).getD []) := by
  have hsynced : (Watch.run ⟨metadata, [], [], []⟩ ops).Synced id key :=
    synced_run ops hops hnodup fun h => absurd h not_mem_nil
  obtain hlast | ⟨-, u, hu, -⟩ := hsynced hchanged
  · exact hlast
  · rw [hus] at hu
    exact absurd hu not_mem_nil

/-- A key is set while the subscriber cannot receive, and flushed. -/
def queued : List WatchOp := [.set 9 false ['u'] ['k'] ['v'], .flush 1]

/-- The value that was queued reaches the subscriber. -/
theorem last_of_deletions_sent_queued :
    lastValue (Watch.run ⟨fun _ => [], [], [], []⟩ queued).got ['u'] ['k'] = some ['v'] :=
  last_of_deletions_sent (fun _ => []) (fun _ => nodup_nil) queued
    (by simp [queued, WatchOp.DeletionSent]) (by decide) ['u'] ['k'] (by decide)

/-- A key is set, and deleted while the subscriber cannot receive. -/
def deletedLater : List WatchOp :=
  [.set 9 true ['u'] ['k'] ['v'], .set 9 false ['u'] ['k'] [], .flush 1]

/-- The subscriber is left with the old value. -/
theorem deletion_lost : (Watch.run ⟨fun _ => [], [], [], []⟩ deletedLater).us = [] ∧
      getKeyValue ((Watch.run ⟨fun _ => [], [], [], []⟩ deletedLater).metadata ['u']) ['k'] = none ∧
      lastValue (Watch.run ⟨fun _ => [], [], [], []⟩ deletedLater).got ['u'] ['k'] = some ['v'] := by
  decide

end ObbyIRCd.Metadata
