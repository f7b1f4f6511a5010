import Mathlib.Order.Bounds.Lattice
import ObbyIRCd.Tkl.Merge

/-!
# Two servers exchange their bans

`Server` is a table of entries as `cmd_tkl_add` leaves them: no key twice, and every entry `Storable`.
The proof that two servers agree after `tkl_sync` has two parts besides the merge. A storable entry is
read back from its own line, except that an empty user mask comes back as an asterisk (`readTkl_send`).
And a message is an arrival at the table in the sense of `Keyed.absorb` (`tklines_cmdTklAdd`), so that
`Keyed.find_foldl_absorb` tells what a whole burst leaves at each key.

An empty user mask is where the two sides part: the receiver files the entry under another key.
-/

namespace ObbyIRCd.Tkl

open List Keyed Entry Stamp

variable {env : Env}

/-! ## The table of a server -/

/-- An arrival that `cmd_tkl_add` stores if its key is free. -/
def accepts (env : Env) (tkl : Entry) : Bool := createsMatch env tkl.ptr

def globals (tklines : List Entry) : List Entry := tklines.filter fun tkl => tkl.key.isGlobal

variable {msg : Message} {tklines : List Entry}

/-- `cmd_tkl_add` on a valid message is an arrival at the table. -/
theorem tklines_cmdTklAdd {incoming : Entry} (h : readTkl env msg = some incoming)
    (tklines : List Entry) :
    (cmdTklAdd env tklines msg).tklines =
      Keyed.absorb key mergeTkl (accepts env) tklines incoming := by
  unfold cmdTklAdd absorb accepts
  rw [h]
  simp only [findTkl_eq_find]
  rcases find key tklines incoming.key with - | tkl
  · split_ifs <;> rfl
  · rfl

theorem tklines_cmdTklAdd_of_none (h : readTkl env msg = none)
    (tklines : List Entry) : (cmdTklAdd env tklines msg).tklines = tklines := by
  unfold cmdTklAdd
  rw [h]

/-- Whatever message comes, the table holds storable entries only. -/
theorem cmdTklAdd_storable (h : ∀ tkl ∈ tklines, tkl.Storable env)
    (msg : Message) : ∀ tkl ∈ (cmdTklAdd env tklines msg).tklines, tkl.Storable env := by
  intro tkl hmem
  rcases hread : readTkl env msg with - | incoming
  · rw [tklines_cmdTklAdd_of_none hread] at hmem
    exact h tkl hmem
  rw [tklines_cmdTklAdd hread] at hmem
  unfold absorb at hmem
  split at hmem
  · rcases mem_modify key hmem with hmem | ⟨old, hold, rfl⟩
    · exact h tkl hmem
    · obtain ⟨hset, hexpire, hid, -⟩ := readTkl_valid hread
      exact mergeTkl_storable (h old hold) hset hexpire hid
  · split_ifs at hmem with hmatch
    · rcases mem_cons.mp hmem with rfl | hmem
      · exact readTkl_storable hread hmatch
      · exact h tkl hmem
    · exact h tkl hmem

theorem cmdTklAdd_nodup (h : (tklines.map key).Nodup) (msg : Message) :
    ((cmdTklAdd env tklines msg).tklines.map key).Nodup := by
  rcases hread : readTkl env msg with - | incoming
  · rw [tklines_cmdTklAdd_of_none hread]
    exact h
  · rw [tklines_cmdTklAdd hread]
    exact nodup_absorb key key_mergeTkl h incoming

structure Server (env : Env) where
  tklines : List Entry
  nodup : (tklines.map Entry.key).Nodup
  storable : ∀ tkl ∈ tklines, tkl.Storable env

def Server.find (s : Server env) (k : Key) : Option Entry := Keyed.find Entry.key s.tklines k

def Server.add (s : Server env) (msg : Message) : Server env where
  tklines := (cmdTklAdd env s.tklines msg).tklines
  nodup := cmdTklAdd_nodup s.nodup msg
  storable := cmdTklAdd_storable s.storable msg

def Server.addAll (s : Server env) (msgs : List Message) : Server env := msgs.foldl Server.add s

/-- A burst is the arrivals of the entries that its valid messages describe. -/
theorem tklines_addAll (s : Server env) (msgs : List Message) : (s.addAll msgs).tklines =
      (msgs.filterMap (readTkl env)).foldl (Keyed.absorb key mergeTkl (accepts env)) s.tklines := by
  induction msgs generalizing s with
  | nil => rfl
  | cons msg msgs ih =>
    show ((s.add msg).addAll msgs).tklines = _
    rw [ih]
    rcases hread : readTkl env msg with - | incoming
    · have hadd : (s.add msg).tklines = s.tklines := tklines_cmdTklAdd_of_none hread s.tklines
      rw [filterMap_cons_none hread, hadd]
    have hadd : (s.add msg).tklines = absorb key mergeTkl (accepts env) s.tklines incoming :=
      tklines_cmdTklAdd hread s.tklines
    rw [filterMap_cons_some hread, foldl_cons, hadd]

/-! ## The line of an entry -/

/-- What a receiver reads in place of a user mask. -/
def usermaskArrives (usermask : List Char) : List Char := if usermask = [] then ['*'] else usermask

/-- What a receiver reads from the line of an entry. -/
def Ptr.arrives : Ptr → Ptr
  | .serverban type soft usermask hostmask reason =>
    .serverban type soft (usermaskArrives usermask) hostmask reason
  | .banexception global soft usermask hostmask bantypes reason =>
    .banexception global soft (usermaskArrives usermask) hostmask bantypes reason
  | .nameban global hold name reason => .nameban global hold name reason
  | .spamfilter global target action matchType matchString tklDuration tklReason =>
    .spamfilter global target action matchType matchString
      (Conf.checkvalTime false [] (lld tklDuration)) tklReason

/-- What a receiver reads from the message of an entry. -/
def Entry.arrives (tkl : Entry) : Entry :=
  { tkl with
    ptr := tkl.ptr.arrives
    spamfilterId := tklS2sSetId (tklS2sGetId tkl.spamfilterId) }

variable {usermask : List Char}

theorem stripSoft_usermaskText {soft : Bool} (h : soft = false → usermask.head? ≠ some '%') :
    stripSoft (usermaskText soft usermask) = (soft, usermaskArrives usermask) := by
  cases soft
  · show stripSoft (usermaskArrives usermask) = _
    unfold stripSoft
    split
    · rename_i rest heq
      unfold usermaskArrives at heq
      split_ifs at heq
      · exact absurd (cons.inj heq).1 (by decide)
      · exact absurd (congrArg head? heq) (h rfl)
    · rfl
  · rfl

theorem not_mem_usermaskText {soft : Bool} (h : '@' ∉ usermask) :
    '@' ∉ usermaskText soft usermask := by
  unfold usermaskText
  cases soft <;> split_ifs <;> simp [h]

theorem tklS2sSetId_getId {id : List Char} (h : id.length < tklIdLen) :
    tklS2sSetId (tklS2sGetId id) = id := by
  unfold tklS2sGetId
  split_ifs with hid
  · exact hid.symm
  · exact if_pos h

/-- A message with valid times and a valid part of its kind is read as written. -/
theorem readTkl_parv {type : TklType} {parv3 parv4 parv5 parv8 : List Char} {rest : List (List Char)}
    {ptr : Ptr} {expireAt setAt : ℤ} {id spamfilterId : Option (List Char)}
    (hset : ValidTime env setAt) (hexpire : ValidTime env expireAt)
    (hptr : readPtr type parv3 parv4 parv8 rest = some ptr) :
    readTkl env ⟨['+'] :: [tklTypetochar type] :: parv3 :: parv4 :: parv5 :: lld expireAt ::
        lld setAt :: parv8 :: rest, id, spamfilterId⟩ =
      some ⟨ptr, parv5, setAt, expireAt, tklS2sSetId id, tklS2sSetId spamfilterId⟩ := by
  have hs : ¬(setAt < 0 ∨ env.shortDate setAt = false) := by simp [hset.date, hset.nonneg]
  have he : ¬(expireAt < 0 ∨ env.shortDate expireAt = false) := by
    simp [hexpire.date, hexpire.nonneg]
  simp only [readTkl, head?_cons, Option.bind_some, tklChartotype_tklTypetochar,
    Option.bind_eq_bind, atol_lld hset.nonneg hset.lt, atol_lld hexpire.nonneg hexpire.lt, if_neg hs,
    if_neg he, hptr]

variable {tkl : Entry}

/-- The part of a storable entry that belongs to its kind passes the checks again. -/
theorem readPtr_send (h : tkl.ptr.Storable env) :
    ∃ parv3 parv4 parv8 rest,
      tklSyncParv tkl = ['+'] :: [tklTypetochar tkl.ptr.type] :: parv3 :: parv4 :: tkl.setBy ::
        lld tkl.expireAt :: lld tkl.setAt :: parv8 :: rest ∧
      readPtr tkl.ptr.type parv3 parv4 parv8 rest = some tkl.ptr.arrives := by
  obtain ⟨ptr, setBy, setAt, expireAt, id, spamfilterId⟩ := tkl
  cases ptr with
  | serverban type soft usermask hostmask reason
  | banexception global soft usermask hostmask bantypes reason =>
    obtain ⟨huser, hhost, hsoft⟩ := h
    refine ⟨_, _, _, _, rfl, ?_⟩
    simp only [readPtr, Ptr.type, if_neg (not_or.mpr ⟨not_mem_usermaskText huser, hhost⟩),
      stripSoft_usermaskText hsoft]
    rfl
  | nameban global hold name reason =>
    refine ⟨_, _, _, _, rfl, ?_⟩
    cases hold <;> rfl
  | spamfilter global target action matchType matchString tklDuration tklReason =>
    obtain ⟨htarget, haction, -⟩ := h
    refine ⟨_, _, _, _, rfl, ?_⟩
    have hvalid : ¬(target = ∅ ∨ banactConfigOnly action = true) := by simp [htarget, haction]
    simp only [readPtr, head?_cons, Option.bind_some, Option.bind_eq_bind, Ptr.type,
      unrealMatchMethodStrtoval_valtostr, banactChartoval_banactValtochar,
      spamfilterGettargets_inttostring htarget, if_neg hvalid]
    rfl

/-- A storable entry is read back from its own line, up to `Entry.arrives`. -/
theorem readTkl_send (h : tkl.Storable env)
    (hsend : tklSyncSendEntry tkl = some msg) : readTkl env msg = some tkl.arrives := by
  unfold tklSyncSendEntry at hsend
  split_ifs at hsend
  obtain rfl := Option.some.inj hsend
  obtain ⟨parv3, parv4, parv8, rest, hparv, hptr⟩ := readPtr_send h.ptr
  rw [hparv, readTkl_parv h.setAt h.expireAt hptr, tklS2sSetId_getId h.id]
  rfl

theorem isGlobal_key (tkl : Entry) : tkl.key.isGlobal = tkl.ptr.type.isGlobal := by
  obtain ⟨ptr, setBy, setAt, expireAt, id, spamfilterId⟩ := tkl
  cases ptr <;> rfl

theorem accepts_arrives (h : tkl.Storable env) : accepts env tkl.arrives = true := by
  obtain ⟨ptr, setBy, setAt, expireAt, id, spamfilterId⟩ := tkl
  cases ptr with
  | spamfilter global target action matchType matchString tklDuration tklReason =>
    cases matchType
    · rfl
    · exact h.ptr.2.2
    · rfl
  | _ => rfl

/-- What a linked server reads from the burst of a table. -/
theorem readTkl_tklSync (h : ∀ tkl ∈ tklines, tkl.Storable env) :
    (tklSync tklines).filterMap (readTkl env) =
      (globals tklines).map arrives := by
  unfold tklSync globals
  induction tklines with
  | nil => rfl
  | cons tkl tklines ih =>
    have ih := ih fun t ht => h t (mem_cons_of_mem tkl ht)
    by_cases hglobal : tkl.key.isGlobal
    · have hsend : ∃ msg, tklSyncSendEntry tkl = some msg := by
        simp [tklSyncSendEntry, ← isGlobal_key, hglobal]
      obtain ⟨msg, hmsg⟩ := hsend
      rw [filterMap_cons_some hmsg,
        filter_cons_of_pos (p := fun tkl : Entry => tkl.key.isGlobal) hglobal, map_cons,
        filterMap_cons_some (readTkl_send (h tkl mem_cons_self) hmsg), ih]
    · have hnone : tklSyncSendEntry tkl = none := by
        simp [tklSyncSendEntry, ← isGlobal_key, hglobal]
      rw [filterMap_cons_none hnone,
        filter_cons_of_neg (p := fun tkl : Entry => tkl.key.isGlobal) hglobal, ih]

/-! ## Entries without a user mask -/

def Key.NamesUser : Key → Prop
  | .serverban _ _ usermask _ | .banexception _ _ usermask _ => usermask ≠ []
  | .nameban _ _ | .spamfilter _ _ _ _ => True

/-- No global entry has an empty user mask. -/
def Server.NamesUsers (s : Server env) : Prop :=
  ∀ tkl ∈ s.tklines, tkl.key.isGlobal = true → tkl.key.NamesUser

theorem lower_ne_nil {s : List Char} : lower s ≠ [] ↔ s ≠ [] := by simp [lower]

theorem usermaskArrives_ne_nil (usermask : List Char) : usermaskArrives usermask ≠ [] := by
  unfold usermaskArrives
  split_ifs with h
  · simp
  · exact h

theorem key_arrives (h : tkl.key.NamesUser) : tkl.arrives.key = tkl.key := by
  obtain ⟨ptr, setBy, setAt, expireAt, id, spamfilterId⟩ := tkl
  cases ptr with
  | serverban _ _ usermask | banexception _ _ usermask =>
    have hmask : usermaskArrives usermask = usermask := if_neg (lower_ne_nil.mp h)
    simp only [arrives, Ptr.arrives, hmask]
  | _ => rfl

theorem namesUser_arrives (tkl : Entry) : tkl.arrives.key.NamesUser := by
  obtain ⟨ptr, setBy, setAt, expireAt, id, spamfilterId⟩ := tkl
  cases ptr with
  | serverban type soft usermask hostmask reason
  | banexception global soft usermask hostmask bantypes reason =>
    exact lower_ne_nil.mpr (usermaskArrives_ne_nil usermask)
  | nameban _ _ _ _ | spamfilter _ _ _ _ _ _ _ => trivial

/-! ## The exchange -/

/-- The server `s` after it has processed what `t` sends it with `tkl_sync`. -/
def Server.sync (s t : Server env) : Server env := s.addAll (tklSync t.tklines)

theorem find_sync (s t : Server env) (k : Key) : (s.sync t).find k =
      Keyed.find key (((globals t.tklines).map arrives).foldl
        (Keyed.absorb key mergeTkl (accepts env)) s.tklines) k := by
  unfold Server.find Server.sync
  rw [tklines_addAll, readTkl_tklSync t.storable]

variable {t : Server env} {k : Key}

/-- A burst leaves at each global key the merge of what the two servers held there. -/
theorem find_sync_of_namesUsers (s : Server env) (ht : t.NamesUsers) (hk : k.isGlobal = true) :
    (s.sync t).find k = Keyed.combine mergeTkl (s.find k) ((t.find k).map arrives) := by
  have hkey : ∀ tkl ∈ globals t.tklines, tkl.arrives.key = tkl.key := fun tkl htkl =>
    key_arrives (ht tkl (mem_filter.mp htkl).1 (mem_filter.mp htkl).2)
  have hnodup : (((globals t.tklines).map arrives).map key).Nodup := by
    rw [map_map, show (globals t.tklines).map (key ∘ arrives) = (globals t.tklines).map key from
      map_congr_left hkey]
    exact t.nodup.sublist (filter_sublist.map key)
  have haccepts : ∀ tkl ∈ (globals t.tklines).map arrives, accepts env tkl = true := by
    intro tkl htkl
    obtain ⟨tkl, hmem, rfl⟩ := mem_map.mp htkl
    exact accepts_arrives (t.storable tkl (mem_filter.mp hmem).1)
  rw [find_sync, find_foldl_absorb key key_mergeTkl _ hnodup haccepts, find_map key hkey, globals,
    find_filter key Key.isGlobal hk]
  rfl

/-- What two servers `s` and `t` should hold after an exchange that leaves them as `s'` and `t'`: no
key twice, at each global key the older `set_at`, the longer `expire_at` and the greater `set_by` of
what they held there, and the same id. -/
structure Agree (s t s' t' : Server env) : Prop where
  nodup : (s'.tklines.map Entry.key).Nodup ∧ (t'.tklines.map Entry.key).Nodup
  stamps : ∀ k : Key, k.isGlobal = true → ∀ r ∈ [s', t'],
    (r.find k).map Entry.stamp =
      Keyed.combine join ((s.find k).map Entry.stamp) ((t.find k).map Entry.stamp)
  ids : ∀ k : Key, k.isGlobal = true → (s'.find k).map Entry.id = (t'.find k).map Entry.id

theorem stamp_combine (a b : Option Entry) :
    (Keyed.combine mergeTkl a (b.map arrives)).map stamp =
      Keyed.combine join (a.map stamp) (b.map stamp) := by
  rcases a with - | a <;> rcases b with - | b
  · rfl
  · rfl
  · rfl
  · exact congrArg some (stamp_mergeTkl a b.arrives)

theorem id_combine_comm (a b : Option Entry) :
    (Keyed.combine mergeTkl a (b.map Entry.arrives)).map Entry.id =
      (Keyed.combine mergeTkl b (a.map Entry.arrives)).map Entry.id := by
  rcases a with - | a <;> rcases b with - | b
  · rfl
  · rfl
  · rfl
  · -- the rule for the id reads nothing that the line changes
    have harrives : ∀ a b : Entry, (mergeTkl a b.arrives).id = (mergeTkl a b).id := by
      intro a b
      rw [id_mergeTkl, id_mergeTkl]
      rfl
    refine congrArg some ?_
    rw [harrives, harrives, id_mergeTkl_comm]

variable {s : Server env}

/-- Two servers without empty user masks agree after an exchange. -/
theorem agree_of_namesUsers (hs : s.NamesUsers) (ht : t.NamesUsers) :
    Agree s t (s.sync t) (t.sync s) := by
  refine ⟨⟨(s.sync t).nodup, (t.sync s).nodup⟩, ?_, ?_⟩
  · intro k hk r hr
    rcases mem_pair.mp hr with rfl | rfl
    · rw [find_sync_of_namesUsers s ht hk, stamp_combine]
    · rw [find_sync_of_namesUsers t hs hk, stamp_combine,
        (combine_comm_iff _ _ _).mpr fun a _ b _ => join_comm a b]
  · intro k hk
    rw [find_sync_of_namesUsers s ht hk, find_sync_of_namesUsers t hs hk, id_combine_comm]

/-- An entry without a user mask does not reach a server that has none under its key. -/
theorem find_sync_of_not_namesUser (s t : Server env) (hk : ¬k.NamesUser) :
    (s.sync t).find k = s.find k := by
  rw [find_sync]
  refine find_foldl_absorb_of_notMem key key_mergeTkl _ ?_ _
  intro hmem
  obtain ⟨e, he, rfl⟩ := mem_map.mp hmem
  obtain ⟨tkl, -, rfl⟩ := mem_map.mp he
  exact hk (namesUser_arrives tkl)

theorem combine_eq_none {α : Type*} {f : α → α → α} {a b : Option α}
    (h : Keyed.combine f a b = none) : a = none ∧ b = none := by
  rcases a with - | a <;> rcases b with - | b
  · exact ⟨rfl, rfl⟩
  any_goals simp [combine] at h

/-- If the servers agree and one of them has no entry under a key without user mask, then the other
has none either. -/
theorem find_eq_none_of_agree (h : Agree s t (s.sync t) (t.sync s))
    (hglobal : k.isGlobal = true) (hk : ¬k.NamesUser) (hnone : s.find k = none ∨ t.find k = none) :
    s.find k = none ∧ t.find k = none := by
  have hmap : ∀ r : Server env, r ∈ [s.sync t, t.sync s] → r.find k = none →
      s.find k = none ∧ t.find k = none := by
    intro r hr hr0
    have hstamp := h.stamps k hglobal r hr
    rw [hr0] at hstamp
    obtain ⟨hs, ht⟩ := combine_eq_none hstamp.symm
    exact ⟨Option.map_eq_none_iff.mp hs, Option.map_eq_none_iff.mp ht⟩
  rcases hnone with hnone | hnone
  · exact hmap (s.sync t) (by simp) ((find_sync_of_not_namesUser s t hk).trans hnone)
  · exact hmap (t.sync s) (by simp) ((find_sync_of_not_namesUser t s hk).trans hnone)

theorem Server.NamesUsers.find_eq_none (hs : s.NamesUsers)
    (hglobal : k.isGlobal = true) (hk : ¬k.NamesUser) : s.find k = none := by
  rcases hf : s.find k with - | tkl
  · rfl
  · have hkey := key_of_find key hf
    subst hkey
    exact absurd (hs tkl (mem_of_find key hf) hglobal) hk

theorem namesUsers_of_find
    (h : ∀ k : Key, k.isGlobal = true → ¬k.NamesUser → s.find k = none) : s.NamesUsers := by
  intro tkl htkl hglobal
  by_contra hk
  have hnone := h tkl.key hglobal hk
  unfold Server.find at hnone
  rw [find_of_mem key s.nodup htkl] at hnone
  simp at hnone

/-! ## The order of messages -/

theorem stamp_addAll (s : Server env) (hfind : s.find k = some tkl) {msgs : List Message}
    (hmsgs : ∀ msg ∈ msgs, ∀ incoming, readTkl env msg = some incoming → incoming.key = k) :
    ((s.addAll msgs).find k).map stamp =
      some (((msgs.filterMap (readTkl env)).map stamp).foldl join tkl.stamp) := by
  have hkeys : ∀ e ∈ msgs.filterMap (readTkl env), e.key = k := by
    intro e he
    obtain ⟨msg, hmsg, hread⟩ := mem_filterMap.mp he
    exact hmsgs msg hmsg e hread
  unfold Server.find at hfind ⊢
  rw [tklines_addAll, find_foldl_absorb_of_key key key_mergeTkl _ hkeys hfind]
  refine congrArg some ?_
  generalize msgs.filterMap (readTkl env) = es
  clear hfind hkeys
  induction es generalizing tkl with
  | nil => rfl
  | cons e es ih => rw [foldl_cons, map_cons, foldl_cons, ih, stamp_mergeTkl]

theorem join_right_comm : RightCommutative join :=
  ⟨fun a b c => by rw [join_assoc, join_comm b c, ← join_assoc]⟩

/-- What `set_at`, `expire_at` and `set_by` of an entry become does not depend on the order in which
messages for its key come. -/
theorem stamp_addAll_perm (s : Server env) (hfind : s.find k = some tkl)
    {msgs msgs' : List Message} (hperm : msgs.Perm msgs')
    (hmsgs : ∀ msg ∈ msgs, ∀ incoming, readTkl env msg = some incoming → incoming.key = k) :
    ((s.addAll msgs).find k).map stamp = ((s.addAll msgs').find k).map stamp := by
  have hmsgs' : ∀ msg ∈ msgs', ∀ incoming, readTkl env msg = some incoming → incoming.key = k :=
    fun msg hmsg => hmsgs msg (hperm.mem_iff.mpr hmsg)
  rw [stamp_addAll s hfind hmsgs, stamp_addAll s hfind hmsgs']
  have := join_right_comm
  rw [((hperm.filterMap (readTkl env)).map stamp).foldl_eq]

/-! ## The result -/

/-- Two servers of which at least one has no global entry with an empty user mask agree after the
exchange if and only if the other has none either; and the messages for the key of an entry may come
in any order. -/
theorem sync_agree_iff (s t : Server env) (hone : s.NamesUsers ∨ t.NamesUsers) :
    (Agree s t (s.sync t) (t.sync s) ↔ s.NamesUsers ∧ t.NamesUsers) ∧
    ∀ (r : Server env) (k : Key) (tkl : Entry), r.find k = some tkl →
      ∀ msgs msgs' : List Message, msgs.Perm msgs' →
        (∀ msg ∈ msgs, ∀ incoming, readTkl env msg = some incoming → incoming.key = k) →
        ((r.addAll msgs).find k).map Entry.stamp = ((r.addAll msgs').find k).map Entry.stamp := by
  refine ⟨⟨fun h => ?_, fun h => agree_of_namesUsers h.1 h.2⟩,
    fun r k tkl hfind msgs msgs' hperm hmsgs => stamp_addAll_perm r hfind hperm hmsgs⟩
  have hnone : ∀ k : Key, k.isGlobal = true → ¬k.NamesUser → s.find k = none ∧ t.find k = none := by
    intro k hglobal hk
    refine find_eq_none_of_agree h hglobal hk ?_
    rcases hone with hs | ht
    · exact .inl (hs.find_eq_none hglobal hk)
    · exact .inr (ht.find_eq_none hglobal hk)
  exact ⟨namesUsers_of_find fun k hg hk => (hnone k hg hk).1,
    namesUsers_of_find fun k hg hk => (hnone k hg hk).2⟩

def noBans : Server plainEnv := ⟨[], List.nodup_nil, fun _ h => absurd h List.not_mem_nil⟩

/-- The message of a G-Line on an IP address. -/
def glineMessage (usermask : List Char) : Message :=
  ⟨[['+'], ['G'], usermask, "192.0.2.1".toList, "oper".toList, ['0'], ['1'], "reason".toList], none,
    none⟩

/-- A server that knows of a G-Line on all users of an address, and one without entries. -/
theorem sync_agree_iff_gline :
    Agree (noBans.add (glineMessage ['*'])) noBans ((noBans.add (glineMessage ['*'])).sync noBans)
      (noBans.sync (noBans.add (glineMessage ['*']))) := by
  have hnone : noBans.NamesUsers := forall_mem_nil _
  refine (sync_agree_iff _ _ (.inr hnone)).1.mpr ⟨?_, hnone⟩
  intro tkl htkl hglobal
  obtain rfl : tkl = _ := mem_singleton.mp htkl
  exact cons_ne_nil _ _

/-- After `GLINE %@192.0.2.1` the entry has an empty user mask. A server that links then files it under
`*`, and the two have no key in common. -/
theorem sync_percent_disagree :
    ¬Agree (noBans.add (glineMessage ['%'])) noBans ((noBans.add (glineMessage ['%'])).sync noBans)
      (noBans.sync (noBans.add (glineMessage ['%']))) := by
  intro h
  have hstamp := h.stamps (.serverban .gline true [] "192.0.2.1".toList) rfl _
    (mem_cons_of_mem _ mem_cons_self)
  exact absurd hstamp (by decide)

/-! ## Many servers -/

instance : SemilatticeSup Stamp :=
  @SemilatticeSup.mk' _ ⟨join⟩ join_comm join_assoc fun ⟨_, _, _⟩ => by
    show join _ _ = _
    simp [join, mergeExpire, eq_comm]

def stampAt (k : Key) (s : Server env) : WithBot Stamp := (s.find k).map stamp

/-- How bursts have made a table out of those of servers. -/
inductive History (env : Env)
  | server (s : Server env) (hs : s.NamesUsers)
  | sync (h h' : History env)

namespace History

def table : History env → Server env
  | server s _ => s
  | sync h h' => h.table.sync h'.table

/-- The servers whose entries have reached the table. -/
def servers : History env → Set (Server env)
  | server s _ => {s}
  | sync h h' => h.servers ∪ h'.servers

theorem namesUsers (h : History env) : h.table.NamesUsers := by
  induction h with
  | server _ hs => exact hs
  | sync h h' ih =>
    refine namesUsers_of_find fun k hglobal hk => ?_
    rw [table, find_sync_of_not_namesUser _ _ hk]
    exact ih.find_eq_none hglobal hk

theorem isLUB_stampAt (h : History env) (hk : k.isGlobal) :
    IsLUB (Set.image (stampAt k) h.servers) (stampAt k h.table) := by
  induction h with
  | server =>
    rw [servers, Set.image_singleton]
    exact isLUB_singleton
  | sync h h' ih ih' =>
    have hsync : stampAt k (h.sync h').table = stampAt k h.table ⊔ stampAt k h'.table := by
      unfold stampAt
      rw [table, find_sync_of_namesUsers _ h'.namesUsers hk, stamp_combine]
      cases h.table.find k <;> cases h'.table.find k <;> rfl
    rw [servers, Set.image_union, hsync]
    exact ih.union ih'

/-- Tables that the entries of the same servers have reached agree on the times and the setter of every
global entry, whatever the links, the order and the number of the bursts. -/
theorem table_agree {h h' : History env} (hservers : h.servers = h'.servers)
    (hk : k.isGlobal) : stampAt k h.table = stampAt k h'.table :=
  (h.isLUB_stampAt hk).unique (hservers ▸ h'.isLUB_stampAt hk)

/-- A server with one G-Line on all users of an address, set at time 1 or 2. -/
def glineHistory (later : Bool) : History plainEnv :=
  server (noBans.add ⟨[['+'], ['G'], ['*'], "192.0.2.1".toList, "oper".toList, ['0'],
    [if later then '2' else '1'], "reason".toList], none, none⟩) fun tkl htkl _ => by
    cases later
    all_goals
      obtain rfl : tkl = _ := mem_singleton.mp htkl
      exact cons_ne_nil _ _

/-- Two servers have set the same G-Line at different times, and each is sent the other's. -/
theorem table_agree_gline : ∃ (h h' : History plainEnv) (k : Key),
    stampAt k h.table ≠ stampAt k h'.table ∧
      stampAt k (h.sync h').table = stampAt k (h'.sync h).table := by
  refine ⟨glineHistory false, glineHistory true, .serverban .gline false ['*'] "192.0.2.1".toList, ?_,
    table_agree (Set.union_comm _ _) rfl⟩
  intro hstamp
  exact absurd (Option.some.inj hstamp) (by decide)

end History

end ObbyIRCd.Tkl
