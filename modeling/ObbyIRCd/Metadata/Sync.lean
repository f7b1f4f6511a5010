import ObbyIRCd.Metadata.Model

/-!
# Metadata after a link

When two servers link, each sends all its metadata and applies what the other sends. What happens at
one channel or user is a fold of `metadataSet` over the entries of the other server
(`find_receive_sync`). That fold replaces the values of the keys that both
have, and adds the other keys as long as there is room (`foldl_set`): for a key that both have, the two
servers exchange their values. So they agree exactly where the values are the same already and all new
keys have room (`Mergeable`).
-/

namespace ObbyIRCd.Metadata

open List Keyed Target


/-! ## One target -/

variable (limit : ℕ)

def setEntry (metadata : List Entry) (e : Entry) : List Entry :=
  metadataSet limit e.name (some e.value) metadata

def overwrite (their : List Entry) (e : Entry) : Entry :=
  match Keyed.find Entry.key their e.key with
  | some e' => { e with value := e'.value }
  | none => e

variable (our : List Entry)

def newEntries (their : List Entry) : List Entry :=
  their.filter fun e => e.key ∉ our.map Entry.key

/-- The value of one entry for another with its key. -/
def assign (e e' : Entry) : Entry := if e'.key = e.key then { e' with value := e.value } else e'

theorem key_overwrite (their : List Entry) (e : Entry) : (overwrite their e).key = e.key := by
  unfold overwrite
  split <;> rfl

theorem setEntry_eq (metadata : List Entry) (e : Entry) : setEntry limit metadata e =
      if e.key ∈ metadata.map Entry.key then metadata.map (assign e)
      else if metadata.length < limit then metadata ++ [e] else metadata := by
  have hany : (metadata.any fun e' => decide (e'.key = lower e.name)) = true ↔
      e.key ∈ metadata.map Entry.key := by
    rw [any_eq_true, mem_map]
    simp only [decide_eq_true_eq]
    rfl
  unfold setEntry metadataSet
  simp only [hany]
  rfl

theorem overwrite_cons_of_ne {e e' : Entry} (hne : e'.key ≠ e.key) (their : List Entry) :
    overwrite (e :: their) e' = overwrite their e' := by
  unfold overwrite
  rw [find_cons, if_neg fun h => hne h.symm]

theorem overwrite_set {e : Entry} {their : List Entry} (hnotin : e.key ∉ their.map Entry.key)
    (e' : Entry) : overwrite their (assign e e') = overwrite (e :: their) e' := by
  unfold assign
  by_cases hkey : e'.key = e.key
  · have hfind := (find_eq_none_iff _).mpr hnotin
    have hset : ({ e' with value := e.value } : Entry).key = e.key := hkey
    rw [if_pos hkey]
    unfold overwrite
    rw [hset, hfind, find_cons, if_pos hkey.symm]
  · rw [if_neg hkey, overwrite_cons_of_ne hkey]

/-- A list of entries overwrites, and is added as far as there is room. -/
theorem foldl_set (their : List Entry) (hnodup : (their.map Entry.key).Nodup) :
    their.foldl (setEntry limit) our =
      our.map (overwrite their) ++ (newEntries our their).take (limit - our.length) := by
  -- by induction on their entries; the first one is set, added, or refused
  induction their generalizing our with
  | nil =>
    have hself : overwrite [] = id := rfl
    have hnew : newEntries our [] = [] := rfl
    rw [foldl_nil, hself, map_id, hnew, take_nil, append_nil]
  | cons e their ih =>
    obtain ⟨hnotin, hnodup'⟩ := nodup_cons.mp hnodup
    rw [foldl_cons, ih _ hnodup', setEntry_eq]
    by_cases hmem : e.key ∈ our.map Entry.key
    · have hkeys : (our.map (assign e)).map Entry.key = our.map Entry.key := by
        rw [map_map]
        refine map_congr_left fun e' _ => ?_
        show (assign e e').key = e'.key
        unfold assign
        split <;> rfl
      have hnew : newEntries our (e :: their) = newEntries our their :=
        filter_cons_of_neg (by simpa using hmem)
      have hnew' : newEntries (our.map (assign e)) their = newEntries our their := by
        unfold newEntries
        rw [hkeys]
      rw [if_pos hmem, hnew, hnew', length_map, map_map]
      congr 1
      exact map_congr_left fun e' _ => overwrite_set hnotin e'
    · have hour : our.map (overwrite (e :: their)) = our.map (overwrite their) := by
        refine map_congr_left fun e' he' => overwrite_cons_of_ne (fun h => hmem ?_) their
        exact h ▸ mem_map_of_mem he'
      have hnew : newEntries our (e :: their) = e :: newEntries our their :=
        filter_cons_of_pos (by simpa using hmem)
      rw [if_neg hmem, hour, hnew]
      by_cases hroom : our.length < limit
      · -- the entry is added, and no later one has its key
        have hself : overwrite their e = e := by
          unfold overwrite
          rw [(find_eq_none_iff _).mpr hnotin]
        have hnew' : newEntries (our ++ [e]) their = newEntries our their := by
          refine filter_congr fun e' he' => ?_
          have hne : e'.key ≠ e.key := fun h => hnotin (h ▸ mem_map_of_mem he')
          simp [hne]
        rw [if_pos hroom, hnew', map_append, map_singleton, hself, append_assoc,
          length_append, length_singleton, show limit - our.length =
            (limit - (our.length + 1)) + 1 by omega, take_succ_cons, singleton_append]
      · rw [if_neg hroom, show limit - our.length = 0 by omega, take_zero, take_zero]

/-- Both servers can have the metadata of the other one: no key has two values, and there is room for
the keys that are new. -/
def MergeableAt (their : List Entry) : Prop :=
  (∀ x ∈ our, ∀ y ∈ their, x.key = y.key → x.value = y.value) ∧
  (newEntries our their).length ≤ limit - our.length ∧
  (newEntries their our).length ≤ limit - their.length

/-- The metadata of a target when the entries of the other server are set. -/
def exchanged (their : List Entry) : List Entry :=
  their.foldl (setEntry limit) our

section Exchange

theorem getKeyValue_eq_none_iff {metadata : List Entry} {key : List Char} :
    getKeyValue metadata key = none ↔ lower key ∉ metadata.map Entry.key :=
  Option.map_eq_none_iff.trans (find_eq_none_iff _)

theorem getKeyValue_of_mem {metadata : List Entry} (hnodup : (metadata.map Entry.key).Nodup)
    {x : Entry} (hx : x ∈ metadata) : getKeyValue metadata x.name = some x.value :=
  congrArg (Option.map Entry.value) (find_of_mem Entry.key hnodup hx)

theorem getKeyValue_newEntries {our their : List Entry} {key : List Char}
    (hnone : getKeyValue our key = none) :
    getKeyValue (newEntries our their) key = getKeyValue their key :=
  congrArg (Option.map Entry.value) (find_filter Entry.key (fun k => k ∉ our.map Entry.key)
    (by simpa using getKeyValue_eq_none_iff.mp hnone) their)

variable {limit : ℕ} {our their : List Entry} (hour : (our.map Entry.key).Nodup)
  (htheir : (their.map Entry.key).Nodup)

include htheir

theorem getKeyValue_exchanged (key : List Char) :
    getKeyValue (exchanged limit our their) key =
      match getKeyValue our key with
      | some v => some ((getKeyValue their key).getD v)
      | none => getKeyValue ((newEntries our their).take (limit - our.length)) key := by
  unfold exchanged getKeyValue
  rw [foldl_set limit our their htheir, find_append,
    find_map Entry.key fun e _ => key_overwrite their e]
  rcases hfind : find Entry.key our (lower key) with - | x
  · rfl
  have hkey := key_of_find Entry.key hfind
  show some (overwrite their x).value = some _
  unfold overwrite
  rw [hkey]
  rcases find Entry.key their (lower key) with - | y <;> rfl

theorem exists_getKeyValue_eq_none (hroom : ¬(newEntries our their).length ≤ limit - our.length) :
    ∃ e ∈ their, getKeyValue our e.name = none ∧
      getKeyValue ((newEntries our their).take (limit - our.length)) e.name = none := by
  obtain ⟨e, rest, hdrop⟩ := exists_cons_of_ne_nil
    (drop_eq_nil_iff.not.mpr hroom : (newEntries our their).drop (limit - our.length) ≠ [])
  have hmem : e ∈ newEntries our their :=
    mem_of_mem_drop (hdrop ▸ mem_cons_self)
  -- the keys of the entries that were added are other ones
  have hnodup : ((newEntries our their).map Entry.key).Nodup :=
    htheir.sublist (filter_sublist.map Entry.key)
  rw [← take_append_drop (limit - our.length) (newEntries our their), map_append, hdrop] at hnodup
  exact ⟨e, mem_of_mem_filter hmem,
    getKeyValue_eq_none_iff.mpr (by simpa [Entry.key] using of_mem_filter hmem),
    getKeyValue_eq_none_iff.mpr fun h => disjoint_of_nodup_append hnodup h mem_cons_self⟩

include hour

/-- If a key of the other server has no room here, the servers disagree on it. -/
theorem room_of_agree (hagree : ∀ key, getKeyValue (exchanged limit our their) key =
      getKeyValue (exchanged limit their our) key) :
    (newEntries our their).length ≤ limit - our.length := by
  by_contra hroom
  obtain ⟨e, he, hour', hnone⟩ := exists_getKeyValue_eq_none htheir hroom
  have h := hagree e.name
  rw [getKeyValue_exchanged htheir, getKeyValue_exchanged hour, getKeyValue_of_mem htheir he, hour',
    hnone] at h
  exact Option.some_ne_none _ h.symm

/-- Two lists agree after an exchange exactly if they are mergeable. -/
theorem exchanged_agree_iff : (∀ key, getKeyValue (exchanged limit our their) key =
      getKeyValue (exchanged limit their our) key) ↔ MergeableAt limit our their := by
  constructor
  · intro hagree
    refine ⟨fun x hx y hy hkey => ?_, room_of_agree hour htheir hagree,
      room_of_agree htheir hour fun key => (hagree key).symm⟩
    -- each side has the value of the other one
    have hy' : getKeyValue their x.name = some y.value := by
      rw [← getKeyValue_of_mem htheir hy]
      unfold getKeyValue
      rw [show lower x.name = lower y.name from hkey]
    have h := hagree x.name
    rw [getKeyValue_exchanged htheir, getKeyValue_exchanged hour, getKeyValue_of_mem hour hx,
      hy'] at h
    exact (Option.some.inj h).symm
  · rintro ⟨hvalues, hroom, hroom'⟩ key
    rw [getKeyValue_exchanged htheir, getKeyValue_exchanged hour, take_of_length_le hroom,
      take_of_length_le hroom']
    rcases hx : getKeyValue our key with - | v <;> rcases hy : getKeyValue their key with - | w <;>
      dsimp only [Option.getD]
    · rw [getKeyValue_newEntries hx, getKeyValue_newEntries hy, hx, hy]
    · rw [getKeyValue_newEntries hx, hy]
    · rw [getKeyValue_newEntries hy, hx]
    · obtain ⟨x, hfx, rfl⟩ := Option.map_eq_some_iff.mp hx
      obtain ⟨y, hfy, rfl⟩ := Option.map_eq_some_iff.mp hy
      rw [hvalues x (mem_of_find Entry.key hfx) y (mem_of_find Entry.key hfy)
        ((key_of_find Entry.key hfx).trans (key_of_find Entry.key hfy).symm)]

end Exchange

/-! ## What a server does with the messages -/

/-- Metadata that a server can have: each key is valid and stands once, and no value is empty. -/
structure Target.Valid (t : Target) : Prop where
  nodup : (t.metadata.map Entry.key).Nodup
  key : ∀ e ∈ t.metadata, metadataKeyValid e.name = true
  value : ∀ e ∈ t.metadata, e.value ≠ []

/-- The users and channels of a server. Only channels with a `#` can have metadata. -/
structure Server.Valid (srv : Server) : Prop where
  users : ∀ t ∈ srv.users, t.Valid
  channels : ∀ t ∈ srv.channels, t.Valid
  users_nodup : (srv.users.map Target.key).Nodup
  channels_nodup : (srv.channels.map Target.key).Nodup
  users_name : ∀ t ∈ srv.users, t.name ≠ [] ∧ t.name ≠ ['*'] ∧ '#' ∉ t.name
  channels_name : ∀ t ∈ srv.channels, t.metadata ≠ [] → t.name.head? = some '#'

def Message.newValue (msg : Message) : Option (List Char) :=
  if msg.value = [] then none else some msg.value

def Message.accepted (msg : Message) : Prop :=
  msg.target ≠ [] ∧ msg.target ≠ ['*'] ∧ metadataKeyValid msg.key = true

/-- A message about the channel with key `k`. -/
def Message.toChannel (k : List Char) (msg : Message) : Prop :=
  msg.accepted ∧ '#' ∈ msg.target ∧ lower (msg.target.dropWhile (· ≠ '#')) = k

/-- A message about the user with key `k`. -/
def Message.toUser (k : List Char) (msg : Message) : Prop :=
  msg.accepted ∧ '#' ∉ msg.target ∧ lower msg.target = k

instance (msg : Message) : Decidable msg.accepted := by
  unfold Message.accepted
  infer_instance

instance (k : List Char) : DecidablePred (Message.toChannel k) := fun msg => by
  unfold Message.toChannel
  infer_instance

instance (k : List Char) : DecidablePred (Message.toUser k) := fun msg => by
  unfold Message.toUser
  infer_instance

def Target.apply (about : Message → Prop) [DecidablePred about] (t : Target)
    (msg : Message) : Target :=
  if about msg then t.set limit msg.key msg.newValue else t

theorem key_set (key : List Char) (value : Option (List Char)) (t : Target) :
    (t.set limit key value).key = t.key := rfl

theorem find_modify_set {targets : List Target} {limit : ℕ} {key k' : List Char}
    {value : Option (List Char)} (k : List Char) :
    find Target.key (modify Target.key k' (Target.set limit key value) targets) k =
      (find Target.key targets k).map fun t =>
        if k' = k then t.set limit key value else t := by
  rw [find_modify Target.key (key_set _ _ _)]
  by_cases hk : k = k'
  · simp only [hk, if_true]
  · simp only [hk, Ne.symm hk, if_false, Option.map_id']

variable (cfg : Settings)

theorem find_step (srv : Server) (msg : Message) (k : List Char) :
    find Target.key (cmdMetadataRemote cfg srv msg).channels k =
        (find Target.key srv.channels k).map
          (Target.apply cfg.maxChannelMetadata (Message.toChannel k) · msg) ∧
      find Target.key (cmdMetadataRemote cfg srv msg).users k =
        (find Target.key srv.users k).map
          (Target.apply cfg.maxUserMetadata (Message.toUser k) · msg) := by
  have hrejected : (msg.target = [] ∨ msg.target = ['*'] ∨ metadataKeyValid msg.key = false) ↔
      ¬msg.accepted := by
    unfold Message.accepted
    rw [← Bool.not_eq_true]
    tauto
  unfold cmdMetadataRemote Target.apply Message.toChannel Message.toUser
  by_cases haccepted : msg.accepted
  · by_cases hchan : '#' ∈ msg.target
    · simp only [hrejected, haccepted, hchan, not_true, if_true, if_false, true_and, false_and,
        and_false, Option.map_id', and_true]
      exact find_modify_set k
    · simp only [hrejected, haccepted, hchan, not_true, not_false_iff, if_false, true_and, false_and,
        and_false, Option.map_id']
      exact find_modify_set k
  · simp only [hrejected, haccepted, not_false_iff, if_true, if_false, false_and, Option.map_id',
      and_self]

theorem find_receive (srv : Server) (msgs : List Message) (k : List Char) :
    find key (receive cfg srv msgs).channels k =
        (find key srv.channels k).map
          (msgs.foldl (apply cfg.maxChannelMetadata (Message.toChannel k))) ∧
      find key (receive cfg srv msgs).users k =
        (find key srv.users k).map (msgs.foldl (apply cfg.maxUserMetadata (Message.toUser k))) := by
  unfold receive
  induction msgs generalizing srv with
  | nil => exact ⟨Option.map_id'.symm, Option.map_id'.symm⟩
  | cons msg msgs ih =>
    obtain ⟨hchannels, husers⟩ := find_step cfg srv msg k
    rw [foldl_cons, (ih _).1, (ih _).2, hchannels, husers, Option.map_map, Option.map_map]
    exact ⟨rfl, rfl⟩

/-- The target of a server when the metadata of the other server has arrived. -/
def Target.merge (theirs : Option Target) (t : Target) : Target :=
  match theirs with
  | some c => { t with metadata := exchanged limit t.metadata c.metadata }
  | none => t

section Burst

variable {limit : ℕ} {about : Message → Prop} [DecidablePred about]

theorem foldl_apply_of_not {msgs : List Message} (hnot : ∀ msg ∈ msgs, ¬about msg) (t : Target) :
    msgs.foldl (apply limit about) t = t :=
  foldlRecOn (motive := (· = t)) msgs _ rfl fun _ ht msg hm => (if_neg (hnot msg hm)).trans ht

theorem foldl_apply_entries {entries : List Entry} (hvalue : ∀ e ∈ entries, e.value ≠ [])
    (name : List Char) (habout : ∀ e ∈ entries, about ⟨name, e.name, e.value⟩) (t : Target) :
    (entries.map fun e => (⟨name, e.name, e.value⟩ : Message)).foldl (Target.apply limit about) t =
      { t with metadata := exchanged limit t.metadata entries } := by
  induction entries generalizing t with
  | nil => rfl
  | cons e entries ih =>
    have hself : e ∈ e :: entries := mem_cons_self
    have hstep : t.apply limit about ⟨name, e.name, e.value⟩ =
        { t with metadata := setEntry limit t.metadata e } := by
      unfold Target.apply Target.set Message.newValue
      rw [if_pos (habout e hself), if_neg (hvalue e hself)]
      rfl
    rw [map_cons, foldl_cons, hstep,
      ih (fun e' he' => hvalue e' (mem_cons_of_mem e he'))
        (fun e' he' => habout e' (mem_cons_of_mem e he'))]
    rfl

theorem foldl_apply_targets {k : List Char} {targets : List Target}
    (hnodup : (targets.map key).Nodup) (hvalid : ∀ c ∈ targets, c.Valid)
    (habout : ∀ c ∈ targets, ∀ msg ∈ c.messages, about msg ↔ c.key = k) (t : Target) :
    (targets.flatMap messages).foldl (apply limit about) t = merge limit (find key targets k) t := by
  induction targets generalizing t with
  | nil => rfl
  | cons c targets ih =>
    obtain ⟨hnotin, hnodup'⟩ := nodup_cons.mp hnodup
    have hself : c ∈ c :: targets := mem_cons_self
    have hrest := ih hnodup' (fun c' hc' => hvalid c' (mem_cons_of_mem c hc'))
      fun c' hc' => habout c' (mem_cons_of_mem c hc')
    rw [flatMap_cons, foldl_append, hrest, find_cons]
    by_cases hk : c.key = k
    · have hnone : find key targets k = none :=
        (find_eq_none_iff _).mpr (hk ▸ hnotin)
      have hc : c.messages.foldl (apply limit about) t = merge limit (some c) t :=
        foldl_apply_entries (hvalid c hself).value c.name
          (fun e he => (habout c hself _ (mem_map_of_mem he)).mpr hk) t
      rw [if_pos hk, hnone, hc]
      rfl
    · have hc : c.messages.foldl (apply limit about) t = t :=
        foldl_apply_of_not (fun msg hmsg h => hk ((habout c hself msg hmsg).mp h)) t
      rw [if_neg hk, hc]

end Burst

variable {msg : Message} {srv : Server}

theorem Server.Valid.toUser (hvalid : srv.Valid) {t : Target} (ht : t ∈ srv.users)
    (hmsg : msg ∈ t.messages) : msg.toUser t.key := by
  obtain ⟨hne, hstar, hhash⟩ := hvalid.users_name t ht
  obtain ⟨e, he, rfl⟩ := mem_map.mp hmsg
  exact ⟨⟨hne, hstar, (hvalid.users t ht).key e he⟩, hhash, rfl⟩

theorem Server.Valid.toChannel (hvalid : srv.Valid) {t : Target} (ht : t ∈ srv.channels)
    (hmsg : msg ∈ t.messages) : msg.toChannel t.key := by
  obtain ⟨e, he, rfl⟩ := mem_map.mp hmsg
  obtain ⟨rest, hname⟩ := head?_eq_some_iff.mp (hvalid.channels_name t ht (ne_nil_of_mem he))
  have haccepted : t.name ≠ [] ∧ t.name ≠ ['*'] := by simp [hname]
  refine ⟨⟨haccepted.1, haccepted.2, (hvalid.channels t ht).key e he⟩, ?_, ?_⟩
  · exact hname ▸ mem_cons_self
  · show lower (t.name.dropWhile (· ≠ '#')) = lower t.name
    rw [hname, dropWhile_cons_of_neg (by simp)]

theorem find_receive_sync (our : Server) {their : Server} (hvalid : their.Valid) (k : List Char) :
    find key (receive cfg our (metadataServerSync their)).channels k =
        (find key our.channels k).map (merge cfg.maxChannelMetadata (find key their.channels k)) ∧
      find key (receive cfg our (metadataServerSync their)).users k =
        (find key our.users k).map (merge cfg.maxUserMetadata (find key their.users k)) := by
  have husers : ∀ msg ∈ their.users.flatMap messages, ¬msg.toChannel k := by
    rw [forall_mem_flatMap]
    exact fun _ hc _ hmsg h => (hvalid.toUser hc hmsg).2.1 h.2.1
  have hchannels : ∀ msg ∈ their.channels.flatMap messages, ¬msg.toUser k := by
    rw [forall_mem_flatMap]
    exact fun _ hc _ hmsg h => h.2.1 (hvalid.toChannel hc hmsg).2.1
  obtain ⟨hchannel, huser⟩ := find_receive cfg our (metadataServerSync their) k
  rw [hchannel, huser]
  unfold metadataServerSync
  refine ⟨congrArg (Option.map · _) (funext fun t => ?_), congrArg (Option.map · _) (funext fun t => ?_)⟩
  · rw [foldl_append, foldl_apply_of_not husers]
    exact foldl_apply_targets hvalid.channels_nodup hvalid.channels (fun _ hc _ hmsg =>
      have h := hvalid.toChannel hc hmsg
      ⟨fun h' => h.2.2.symm.trans h'.2.2, fun hk => hk ▸ h⟩) t
  · rw [foldl_append, foldl_apply_of_not hchannels]
    exact foldl_apply_targets hvalid.users_nodup hvalid.users (fun _ hc _ hmsg =>
      have h := hvalid.toUser hc hmsg
      ⟨fun h' => h.2.2.symm.trans h'.2.2, fun hk => hk ▸ h⟩) t

/-! ## The link -/

def SameValues (a b : List Target) : Prop :=
  ∀ name x y, Keyed.find Target.key a (lower name) = some x →
    Keyed.find Target.key b (lower name) = some y →
    ∀ key, getKeyValue x.metadata key = getKeyValue y.metadata key

def MergeableTargets (a b : List Target) : Prop :=
  ∀ name x y, Keyed.find Target.key a (lower name) = some x →
    Keyed.find Target.key b (lower name) = some y → MergeableAt limit x.metadata y.metadata

/-- Two servers have the same metadata for the channels and users that both know. -/
def Agree (a b : Server) : Prop :=
  SameValues a.channels b.channels ∧ SameValues a.users b.users

/-- No channel or user that both know has a key with two values, or more keys than the limit. -/
def Mergeable (cfg : Settings) (a b : Server) : Prop :=
  MergeableTargets cfg.maxChannelMetadata a.channels b.channels ∧
  MergeableTargets cfg.maxUserMetadata a.users b.users

theorem sameValues_iff {limit : ℕ} {a b a' b' : List Target} (ha : ∀ t ∈ a, t.Valid)
    (hb : ∀ t ∈ b, t.Valid)
    (ha' : ∀ k, find key a' k = (find key a k).map (merge limit (find key b k)))
    (hb' : ∀ k, find key b' k = (find key b k).map (merge limit (find key a k))) :
    SameValues a' b' ↔ MergeableTargets limit a b := by
  have hpair : ∀ {k x y}, find key a k = some x → find key b k = some y →
      ((∀ key, getKeyValue (exchanged limit x.metadata y.metadata) key =
        getKeyValue (exchanged limit y.metadata x.metadata) key) ↔
          MergeableAt limit x.metadata y.metadata) := fun hx hy =>
    exchanged_agree_iff (ha _ (mem_of_find _ hx)).nodup (hb _ (mem_of_find _ hy)).nodup
  constructor
  · intro h name x y hx hy
    refine (hpair hx hy).mp (h name (merge limit (some y) x) (merge limit (some x) y) ?_ ?_)
    · rw [ha', hx, hy, Option.map_some]
    · rw [hb', hx, hy, Option.map_some]
  · intro h name x' y' hx' hy'
    rw [ha'] at hx'
    rw [hb'] at hy'
    obtain ⟨x, hx, rfl⟩ := Option.map_eq_some_iff.mp hx'
    obtain ⟨y, hy, rfl⟩ := Option.map_eq_some_iff.mp hy'
    rw [hx, hy]
    exact (hpair hx hy).mpr (h name x y hx hy)

def defaultSettings : Settings := ⟨10, 10⟩

/-- A server with the channel `#home` and one key. -/
def homeServer (key value : String) : Server :=
  ⟨[], [⟨"#home".toList, [⟨key.toList, value.toList⟩]⟩]⟩

theorem homeServer_valid {key value : String} (hkey : metadataKeyValid key.toList = true)
    (hvalue : value.toList ≠ []) : (homeServer key value).Valid := by
  have htarget : (⟨"#home".toList, [⟨key.toList, value.toList⟩]⟩ : Target).Valid :=
    ⟨nodup_singleton _, forall_mem_singleton.mpr hkey, forall_mem_singleton.mpr hvalue⟩
  exact ⟨nofun, forall_mem_singleton.mpr htarget, nodup_nil, nodup_singleton _, nofun,
    forall_mem_singleton.mpr fun _ => rfl⟩

/-- After a link, two servers have the same metadata exactly if they had no key with two values and no
key that the other one has no room for. -/
theorem metadataSync_agree_iff (cfg : Settings) (a b : Server) (ha : a.Valid) (hb : b.Valid) :
    Agree (receive cfg a (metadataServerSync b)) (receive cfg b (metadataServerSync a)) ↔
      Mergeable cfg a b := by
  unfold Agree Mergeable
  have hfind := fun k => find_receive_sync cfg a hb k
  have hfind' := fun k => find_receive_sync cfg b ha k
  rw [sameValues_iff ha.channels hb.channels (fun k => (hfind k).1) fun k => (hfind' k).1,
    sameValues_iff ha.users hb.users (fun k => (hfind k).2) fun k => (hfind' k).2]

/-- Different keys are merged. -/
theorem sync_agree_home :
    Agree
      (receive defaultSettings (homeServer "color" "red") (metadataServerSync (homeServer "url" "a")))
      (receive defaultSettings (homeServer "url" "a")
        (metadataServerSync (homeServer "color" "red"))) := by
  have hmergeable : Mergeable defaultSettings (homeServer "color" "red") (homeServer "url" "a") := by
    refine ⟨fun name x y hx hy => ?_, fun name x y hx => absurd hx (by simp [homeServer])⟩
    obtain rfl := mem_singleton.mp (mem_of_find key hx)
    obtain rfl := mem_singleton.mp (mem_of_find key hy)
    unfold MergeableAt
    decide
  exact (metadataSync_agree_iff defaultSettings _ _ (homeServer_valid rfl (by decide))
    (homeServer_valid rfl (by decide))).mpr hmergeable

/-- Two values of one key are exchanged. -/
theorem color_exchanged :
    receive defaultSettings (homeServer "color" "red")
        (metadataServerSync (homeServer "color" "blue")) = homeServer "color" "blue" ∧
    receive defaultSettings (homeServer "color" "blue")
        (metadataServerSync (homeServer "color" "red")) = homeServer "color" "red" ∧
    getKeyValue [⟨"color".toList, "blue".toList⟩] "color".toList ≠
      getKeyValue [⟨"color".toList, "red".toList⟩] "color".toList := by
  decide +kernel

end ObbyIRCd.Metadata
