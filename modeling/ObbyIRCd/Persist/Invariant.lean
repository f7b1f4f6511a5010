import ObbyIRCd.Persist.Model

/-!
# The bookkeeping of sessions

`Bookkept` is what the entries promise between events. It follows from `Inv`, which says for each entry
what its canonical, its sessions and its ghost are (`EntryOk`), and for each client what its restore
pointer is (`ClientOk`). The lemmas here are about the changes that the hooks are made of: of an entry,
of a client that no entry refers to, and the creation and removal of both.
-/

namespace ObbyIRCd.Persist

open List Function Option Keyed

/-! ## Looking up -/

section Lookup

variable (s : State)

theorem entry_modify {f : Entry → Entry} (hf : ∀ e, (f e).id = e.id) (id id' : ℕ) :
    (s.modify id f).entry id' = if id' = id then (s.entry id).map f else s.entry id' :=
  find_modify Entry.id hf s.entries id'

theorem entry_freeEntry (id id' : ℕ) :
    (s.freeEntry id).entry id' = if id' = id then none else s.entry id' := by
  unfold State.freeEntry State.entry
  split
  · rename_i h
    subst h
    rw [find_eq_none_iff]
    intro hmem
    obtain ⟨e, he, hid⟩ := mem_map.mp hmem
    exact absurd hid (by simpa using (mem_filter.mp he).2)
  · rename_i h
    exact find_filter Entry.id (fun k => decide (k ≠ id)) (decide_eq_true h) s.entries

theorem clients_modifyClient (c : ℕ) (f : Client → Client) (d : ℕ) :
    (s.modifyClient c f).clients d = if d = c then (s.clients c).map f else s.clients d := by
  exact update_apply s.clients c _ d

theorem clients_modifyClient_self {s : State} {c : ℕ} {cl : Client} (hcl : s.clients c = some cl)
    (f : Client → Client) : (s.modifyClient c f).clients c = some (f cl) := by
  rw [clients_modifyClient, if_pos rfl, hcl]
  rfl

theorem clients_removeClient (c d : ℕ) :
    (s.removeClient c).clients d = if d = c then none else s.clients d := by
  exact update_apply s.clients c _ d

variable {s}

theorem entry_modify_self {f : Entry → Entry} (hf : ∀ e, (f e).id = e.id) {id : ℕ} {e : Entry}
    (he : s.entry id = some e) : (s.modify id f).entry id = some (f e) := by
  rw [entry_modify s hf, if_pos rfl, he]
  rfl

theorem id_of_entry {id : ℕ} {e : Entry} (h : s.entry id = some e) : e.id = id :=
  key_of_find Entry.id h

end Lookup

/-! ## The invariant -/

def Named (account : List Char) : Prop := account ≠ [] ∧ isLoggedIn account = true

structure EntryOk (clients : ℕ → Option Client) (nextClient : ℕ) (e : Entry) : Prop where
  name : e.account ≠ []
  count : e.numSessions = e.sessions.length
  limit : e.numSessions ≤ maxSessions
  nodup : e.sessions.Nodup
  attended : e.sessions ≠ [] → e.canonical ≠ none
  canonical : ∀ k, e.canonical = some k → ∃ cl, clients k = some cl ∧ cl.registered = true ∧
    cl.ghost = false ∧ cl.session = false ∧ lower cl.account = lower e.account ∧ Named cl.account
  sessions : ∀ x ∈ e.sessions, ∃ cl, clients x = some cl ∧ cl.registered = true ∧
    cl.ghost = false ∧ cl.session = true ∧ cl.restore = some e.id
  ghost : ∀ g, e.ghost = some g → g < nextClient ∧ ∀ cl, clients g = some cl → cl.ghost = true

structure ClientOk (entry : ℕ → Option Entry) (cl : Client) : Prop where
  name : cl.account ≠ []
  restore : ∀ id, cl.restore = some id → cl.ghost = false ∧ Named cl.account ∧
    ∃ e, entry id = some e ∧ lower cl.account = lower e.account

/-- What holds between events. -/
structure Inv (s : State) : Prop where
  ids : (s.entries.map Entry.id).Nodup
  freshEntry : ∀ e ∈ s.entries, e.id < s.nextEntry
  freshClient : ∀ c, s.nextClient ≤ c → s.clients c = none
  keys : ∀ id id' e e', s.entry id = some e → s.entry id' = some e' →
    lower e.account = lower e'.account → id = id'
  entries : ∀ id e, s.entry id = some e → EntryOk s.clients s.nextClient e
  clients : ∀ c cl, s.clients c = some cl → ClientOk s.entry cl

structure Bookkept (s : State) : Prop where
  count : ∀ e ∈ s.entries, e.numSessions = e.sessions.length ∧ e.numSessions ≤ maxSessions
  canonical : ∀ e ∈ s.entries, e.sessions ≠ [] → ∃ k cl, e.canonical = some k ∧
    s.clients k = some cl ∧ cl.registered = true ∧ cl.ghost = false ∧
    lower cl.account = lower e.account
  restore : ∀ c cl id, s.clients c = some cl → cl.restore = some id → ∃ e ∈ s.entries, e.id = id

variable {s : State} {e : Entry} {clients : ℕ → Option Client}

theorem entry_of_mem (hids : (s.entries.map Entry.id).Nodup)
    (he : e ∈ s.entries) : s.entry e.id = some e :=
  find_of_mem Entry.id hids he

variable {id : ℕ}

theorem mem_of_entry (h : s.entry id = some e) : e ∈ s.entries :=
  mem_of_find Entry.id h

theorem Inv.bookkept (h : Inv s) : Bookkept s where
  count e he :=
    have hok := h.entries e.id e (entry_of_mem h.ids he)
    ⟨hok.count, hok.limit⟩
  canonical e he hne := by
    have hok := h.entries e.id e (entry_of_mem h.ids he)
    obtain ⟨k, hk⟩ := ne_none_iff_exists'.mp (hok.attended hne)
    obtain ⟨cl, hcl, hreg, hghost, -, hacc, -⟩ := hok.canonical k hk
    exact ⟨k, cl, hk, hcl, hreg, hghost, hacc⟩
  restore c cl id hcl hid := by
    obtain ⟨-, -, e, he, -⟩ := (h.clients c cl hcl).restore id hid
    exact ⟨e, mem_of_entry he, id_of_entry he⟩

/-! ## Changes of an entry -/

/-- A change that keeps pointer and account, and after which the entry is right. -/
theorem Inv.modify {s : State} (h : Inv s) {f : Entry → Entry}
    (hid : ∀ e, (f e).id = e.id) (hacc : ∀ e, (f e).account = e.account)
    (hok : ∀ e, s.entry id = some e → EntryOk s.clients s.nextClient (f e)) : Inv (s.modify id f)
    := by
  have hentry : ∀ id' e', (s.modify id f).entry id' = some e' →
      ∃ e, s.entry id' = some e ∧ e'.account = e.account ∧ (e' = e ∨ id' = id ∧ e' = f e) := by
    intro id' e' he'
    rw [entry_modify s hid] at he'
    split at he'
    · rename_i hid'
      subst hid'
      obtain ⟨e, he, rfl⟩ := map_eq_some_iff.mp he'
      exact ⟨e, he, hacc e, .inr ⟨rfl, rfl⟩⟩
    · exact ⟨e', he', rfl, .inl rfl⟩
  refine ⟨?_, ?_, h.freshClient, ?_, ?_, ?_⟩
  · show ((Keyed.modify Entry.id id f s.entries).map Entry.id).Nodup
    rw [Keyed.map_key_modify Entry.id hid]
    exact h.ids
  · intro e he
    rcases Keyed.mem_modify Entry.id he with he | ⟨a, ha, rfl⟩
    · exact h.freshEntry e he
    · exact (hid a).symm ▸ h.freshEntry a ha
  · intro id₁ id₂ e₁ e₂ h₁ h₂ heq
    obtain ⟨a₁, ha₁, hacc₁, -⟩ := hentry id₁ e₁ h₁
    obtain ⟨a₂, ha₂, hacc₂, -⟩ := hentry id₂ e₂ h₂
    exact h.keys id₁ id₂ a₁ a₂ ha₁ ha₂ (by rw [← hacc₁, ← hacc₂]; exact heq)
  · intro id' e' he'
    obtain ⟨e, he, -, rfl | ⟨rfl, rfl⟩⟩ := hentry id' e' he'
    · exact h.entries id' e' he
    · exact hok e he
  · intro c cl hcl
    refine ⟨(h.clients c cl hcl).name, fun id' hr => ?_⟩
    obtain ⟨hghost, hnamed, e, he, heq⟩ := (h.clients c cl hcl).restore id' hr
    refine ⟨hghost, hnamed, ?_⟩
    rw [entry_modify s hid]
    split
    · rename_i hid'
      subst hid'
      exact ⟨f e, by rw [he]; rfl, by rw [hacc]; exact heq⟩
    · exact ⟨e, he, heq⟩

variable {n : ℕ}

section

variable (h : EntryOk clients n e)

include h

theorem EntryOk.no_ghost : EntryOk clients n { e with ghost := none } :=
  { h with ghost := by simp }

theorem EntryOk.no_canonical (hs : e.sessions = []) :
    EntryOk clients n { e with canonical := none } :=
  { h with attended := fun hne => absurd hs hne, canonical := by simp }

theorem EntryOk.save (t : ℤ) (m : ℕ) (p : Pref) :
    EntryOk clients n { e with disconnectTime := t, numChannels := m, preference := p } :=
  { h with }

theorem EntryOk.removeSession (c : ℕ) : EntryOk clients n (e.removeSession c) := by
  unfold Entry.removeSession
  split
  · rename_i hmem
    have hlen := length_erase_of_mem hmem
    have hpos := length_pos_of_mem hmem
    have hcount := h.count
    have hlimit := h.limit
    refine { h with
      count := ?_, limit := ?_, nodup := h.nodup.erase c
      attended := fun _ => h.attended (ne_nil_of_mem hmem)
      sessions := fun x hx => h.sessions x (mem_of_mem_erase hx) }
    · show e.numSessions - 1 = ((e.sessions.erase c).length : ℤ)
      omega
    · show e.numSessions - 1 ≤ maxSessions
      omega
  · exact h

end

/-! ## Changes of clients -/

def Unreferenced (s : State) (c : ℕ) : Prop :=
  ∀ id e, s.entry id = some e → e.canonical ≠ some c ∧ c ∉ e.sessions

theorem Inv.unreferenced_of (h : Inv s) {c : ℕ}
    (hno : ∀ cl, s.clients c = some cl → ¬(cl.registered = true ∧ cl.ghost = false)) :
    Unreferenced s c := by
  refine fun id e he => ⟨fun hc => ?_, fun hmem => ?_⟩
  · obtain ⟨cl, hcl, hreg, hghost, -⟩ := (h.entries id e he).canonical c hc
    exact hno cl hcl ⟨hreg, hghost⟩
  · obtain ⟨cl, hcl, hreg, hghost, -⟩ := (h.entries id e he).sessions c hmem
    exact hno cl hcl ⟨hreg, hghost⟩

theorem EntryOk.congr {clients' : ℕ → Option Client} {n' : ℕ} (h : EntryOk clients n e)
    (hn : n ≤ n') (hcanonical : ∀ k, e.canonical = some k → clients' k = clients k)
    (hsessions : ∀ x ∈ e.sessions, clients' x = clients x)
    (hghost : ∀ g cl, e.ghost = some g → clients' g = some cl → cl.ghost = true) :
    EntryOk clients' n' e where
  name := h.name
  count := h.count
  limit := h.limit
  nodup := h.nodup
  attended := h.attended
  canonical k hk := by
    rw [hcanonical k hk]
    exact h.canonical k hk
  sessions x hx := by
    rw [hsessions x hx]
    exact h.sessions x hx
  ghost g hg := ⟨Nat.lt_of_lt_of_le (h.ghost g hg).1 hn, fun cl hcl => hghost g cl hg hcl⟩

/-- A client that no entry refers to is replaced or removed. -/
theorem Inv.setClient {s : State} (h : Inv s) {c : ℕ} (hc : Unreferenced s c) (o : Option Client)
    (ho : ∀ cl, o = some cl → ClientOk s.entry cl ∧
      ∃ cl₀, s.clients c = some cl₀ ∧ cl.ghost = cl₀.ghost) :
    Inv { s with clients := update s.clients c o } := by
  have hsome : ∀ d cl, update s.clients c o d = some cl → ClientOk s.entry cl ∧
      ∃ cl₀, s.clients d = some cl₀ ∧ cl.ghost = cl₀.ghost := by
    intro d cl hd
    rw [update_apply] at hd
    split at hd
    · rename_i hdc
      exact hdc ▸ ho cl hd
    · exact ⟨h.clients d cl hd, cl, hd, rfl⟩
  refine ⟨h.ids, h.freshEntry, fun d hd => ?_, h.keys, fun id e he => ?_,
    fun d cl hd => (hsome d cl hd).1⟩
  · rcases hu : update s.clients c o d with - | cl
    · exact hu
    · obtain ⟨-, cl₀, hcl₀, -⟩ := hsome d cl hu
      exact absurd (hcl₀.symm.trans (h.freshClient d hd)) (by simp)
  · obtain ⟨hcan, hsess⟩ := hc id e he
    refine (h.entries id e he).congr (Nat.le_refl _) (fun k hk => update_of_ne ?_ _ _)
      (fun x hx => update_of_ne ?_ _ _) fun g cl hg hcl => ?_
    · rintro rfl
      exact hcan hk
    · rintro rfl
      exact hsess hx
    · obtain ⟨-, cl₀, hcl₀, hghost⟩ := hsome g cl hcl
      rw [hghost]
      exact ((h.entries id e he).ghost g hg).2 cl₀ hcl₀

theorem Inv.modifyClient {s : State} (h : Inv s) {c : ℕ} {f : Client → Client}
    (hc : Unreferenced s c) (hghost : ∀ cl, s.clients c = some cl → (f cl).ghost = cl.ghost)
    (hok : ∀ cl, s.clients c = some cl → ClientOk s.entry (f cl)) : Inv (s.modifyClient c f) := by
  refine h.setClient hc _ fun cl hcl => ?_
  obtain ⟨cl₀, hcl₀, rfl⟩ := map_eq_some_iff.mp hcl
  exact ⟨hok cl₀ hcl₀, cl₀, hcl₀, hghost cl₀ hcl₀⟩

theorem Inv.removeClient {s : State} (h : Inv s) {c : ℕ} (hc : Unreferenced s c) :
    Inv (s.removeClient c) :=
  h.setClient hc none (by simp)

theorem Inv.addClient (h : Inv s) (cl : Client) (hok : ClientOk s.entry cl) : Inv { s with
      clients := Function.update s.clients s.nextClient (some cl)
      nextClient := s.nextClient + 1 } := by
  have hnone := h.freshClient s.nextClient (Nat.le_refl _)
  have hne : ∀ d cl', s.clients d = some cl' → d ≠ s.nextClient := by
    rintro d cl' hd rfl
    exact absurd (hnone.symm.trans hd) (by simp)
  refine ⟨h.ids, h.freshEntry, ?_, h.keys, ?_, ?_⟩
  · intro d (hd : s.nextClient + 1 ≤ d)
    show update s.clients s.nextClient (some cl) d = none
    rw [update_of_ne (by omega)]
    exact h.freshClient d (by omega)
  · intro id e he
    have hentry := h.entries id e he
    refine hentry.congr (Nat.le_succ _) ?_ ?_ ?_
    · intro k hk
      obtain ⟨cl', hcl', -⟩ := hentry.canonical k hk
      exact update_of_ne (hne k cl' hcl') _ _
    · intro x hx
      obtain ⟨cl', hcl', -⟩ := hentry.sessions x hx
      exact update_of_ne (hne x cl' hcl') _ _
    · intro g cl' hg (hcl' : update s.clients s.nextClient (some cl) g = some cl')
      obtain ⟨hlt, hghost⟩ := hentry.ghost g hg
      rw [update_of_ne (Nat.ne_of_lt hlt)] at hcl'
      exact hghost cl' hcl'
  · intro d cl' (hd : update s.clients s.nextClient (some cl) d = some cl')
    by_cases hdn : d = s.nextClient
    · subst hdn
      rw [update_self] at hd
      obtain rfl := some.inj hd
      exact hok
    · rw [update_of_ne hdn] at hd
      exact h.clients d cl' hd

/-! ## New and freed entries -/

theorem Inv.freeEntry {s : State} (h : Inv s)
    (hid : ∀ c cl, s.clients c = some cl → cl.restore ≠ some id) : Inv (s.freeEntry id) := by
  have hentry : ∀ id' e, (s.freeEntry id).entry id' = some e → s.entry id' = some e := by
    intro id' e he
    rw [entry_freeEntry] at he
    split at he
    · simp at he
    · exact he
  refine ⟨?_, fun e he => h.freshEntry e (mem_filter.mp he).1, h.freshClient, ?_,
    fun id' e he => h.entries id' e (hentry id' e he), fun c cl hcl => ?_⟩
  · exact h.ids.sublist (filter_sublist.map Entry.id)
  · exact fun id₁ id₂ e₁ e₂ h₁ h₂ => h.keys id₁ id₂ e₁ e₂ (hentry _ _ h₁) (hentry _ _ h₂)
  · refine ⟨(h.clients c cl hcl).name, fun id' hr => ?_⟩
    obtain ⟨hghost, hnamed, e, he, heq⟩ := (h.clients c cl hcl).restore id' hr
    refine ⟨hghost, hnamed, e, ?_, heq⟩
    rw [entry_freeEntry, if_neg]
    · exact he
    · rintro rfl
      exact hid c cl hcl hr

variable {account : List Char}

theorem findEntry_eq (h : Named account) (s : State) :
    s.findEntry account = Keyed.find (fun e => lower e.account) s.entries (lower account) := by
  refine if_neg ?_
  rintro (rfl | rfl)
  · exact h.1 rfl
  · exact absurd h.2 (by decide)

theorem entry_of_findEntry (hids : (s.entries.map Entry.id).Nodup)
    (h : s.findEntry account = some e) :
    s.entry e.id = some e ∧ lower e.account = lower account := by
  unfold State.findEntry at h
  split at h
  · simp at h
  · exact ⟨entry_of_mem hids (mem_of_find (fun e : Entry => lower e.account) h),
      key_of_find (fun e : Entry => lower e.account) h⟩

theorem Inv.findEntry_of_entry (h : Inv s) (hnamed : Named account) (he : s.entry id = some e)
    (heq : lower account = lower e.account) :
    s.findEntry account = some e := by
  rcases hf : s.findEntry account with - | e'
  · rw [findEntry_eq hnamed, find_eq_none_iff] at hf
    exact absurd (heq ▸ mem_map_of_mem (mem_of_entry he)) hf
  obtain ⟨he', heq'⟩ := entry_of_findEntry h.ids hf
  have hid := h.keys _ _ _ _ he' he (heq'.trans heq)
  rw [hid, he] at he'
  exact he'.symm

theorem Inv.addEntry (h : Inv s) (hid : e.id = s.nextEntry)
    (hkey : ∀ e' ∈ s.entries, lower e'.account ≠ lower e.account)
    (hok : EntryOk s.clients s.nextClient e) :
    Inv { s with entries := e :: s.entries, nextEntry := s.nextEntry + 1 } := by
  have hentry : ∀ id e', find Entry.id (e :: s.entries) id = some e' →
      id = s.nextEntry ∧ e' = e ∨ s.entry id = some e' := by
    intro id e' he'
    rw [find_cons] at he'
    split at he'
    · rename_i heq
      exact .inl ⟨heq.symm.trans hid, (some.inj he').symm⟩
    · exact .inr he'
  refine ⟨?_, ?_, h.freshClient, ?_, ?_, ?_⟩
  · refine nodup_cons.mpr ⟨fun hmem => ?_, h.ids⟩
    obtain ⟨e', he', heq⟩ := mem_map.mp hmem
    have hlt := h.freshEntry e' he'
    omega
  · intro e' he'
    show e'.id < s.nextEntry + 1
    rcases mem_cons.mp he' with rfl | he'
    · omega
    · have hlt := h.freshEntry e' he'
      omega
  · intro id₁ id₂ e₁ e₂ h₁ h₂ heq
    rcases hentry id₁ e₁ h₁ with ⟨rfl, rfl⟩ | hold₁ <;>
      rcases hentry id₂ e₂ h₂ with ⟨rfl, rfl⟩ | hold₂
    · rfl
    · exact absurd heq.symm (hkey e₂ (mem_of_entry hold₂))
    · exact absurd heq (hkey e₁ (mem_of_entry hold₁))
    · exact h.keys id₁ id₂ e₁ e₂ hold₁ hold₂ heq
  · intro id e' he'
    rcases hentry id e' he' with ⟨-, rfl⟩ | he'
    · exact hok
    · exact h.entries id e' he'
  · intro c cl hcl
    refine ⟨(h.clients c cl hcl).name, fun id hr => ?_⟩
    obtain ⟨hghost, hnamed, e', he', heq⟩ := (h.clients c cl hcl).restore id hr
    refine ⟨hghost, hnamed, e', ?_, heq⟩
    show find Entry.id (e :: s.entries) id = some e'
    have hlt := h.freshEntry e' (mem_of_entry he')
    rw [id_of_entry he'] at hlt
    rw [find_cons, if_neg (by omega)]
    exact he'

/-- The entry of an account exists after `get_or_create_entry`. -/
theorem Inv.getOrCreateEntry {s : State} (h : Inv s) (now : ℤ) {account : List Char}
    (hnamed : Named account) : Inv (s.getOrCreateEntry now account).1 ∧
      (s.getOrCreateEntry now account).1.entry (s.getOrCreateEntry now account).2.id =
        some (s.getOrCreateEntry now account).2 ∧
      lower (s.getOrCreateEntry now account).2.account = lower account ∧
      (s.getOrCreateEntry now account).1.clients = s.clients := by
  rcases hf : s.findEntry account with - | e
  · have hnew : s.getOrCreateEntry now account = ({ s with
          entries := ⟨s.nextEntry, account, now, 0, none, none, [], 0, .default⟩ :: s.entries
          nextEntry := s.nextEntry + 1 },
          ⟨s.nextEntry, account, now, 0, none, none, [], 0, .default⟩) := by
      unfold State.getOrCreateEntry
      rw [hf]
    rw [hnew]
    refine ⟨h.addEntry rfl ?_ ?_, by simp [State.entry, find_cons], rfl, rfl⟩
    · rw [findEntry_eq hnamed, find_eq_none_iff] at hf
      exact fun e' he' heq => hf (heq ▸ mem_map_of_mem he')
    · exact ⟨hnamed.1, rfl, by simp [maxSessions], nodup_nil, by simp, by simp, by simp, by simp⟩
  · have hold : s.getOrCreateEntry now account = (s, e) := by
      unfold State.getOrCreateEntry
      rw [hf]
    rw [hold]
    obtain ⟨he, heq⟩ := entry_of_findEntry h.ids hf
    exact ⟨h, he, heq, rfl⟩

end ObbyIRCd.Persist
