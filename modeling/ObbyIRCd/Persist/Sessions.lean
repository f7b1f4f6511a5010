import ObbyIRCd.Persist.Quit

/-!
# Runs of the persistence module

Every event keeps the invariant if it complies: a connection does not log in again once it belongs to
an entry or waits for one; a session is attached only while there is room for it; a canonical with
sessions leaves only with persistence on; and an entry is freed only when no client waits for it. The
first is needed because the login of a canonical turns it into a session of itself, the second because
the limit is checked at the login and the session is attached after the MOTD.
-/

namespace ObbyIRCd.Persist

open List Option State

variable {cfg : Config} {s : State}

/-! ## Logins -/

variable {c : ℕ} {cl : Client}

theorem Inv.unreferenced_of_not_registered (h : Inv s)
    (hcl : s.clients c = some cl) (hreg : cl.registered = false) : Unreferenced s c := by
  refine h.unreferenced_of fun cl' hcl' hlive => ?_
  obtain rfl := mem_unique hcl hcl'
  simp [hreg] at hlive

theorem Inv.exitClient (h : Inv s) {c : ℕ} (hon : LeavesOn cfg s c) (now : ℤ) (n : ℕ) :
    Inv (s.exitClient cfg now n c) := by
  unfold State.exitClient
  split
  · rename_i cl hcl
    split
    · obtain ⟨hinv, hun⟩ := h.persistLocalQuit hcl hon now n
      exact hinv.removeClient hun
    · rename_i hreg
      exact h.removeClient (h.unreferenced_of_not_registered hcl (Bool.eq_false_iff.mpr hreg))
  · exact h

theorem leavesOn_of_unreferenced (h : Unreferenced s c) : LeavesOn cfg s c :=
  fun id e he hc => absurd hc (h id e he).1

variable {e : Entry}

theorem Inv.sessions_eq_nil (h : Inv s) {id : ℕ} (he : s.entry id = some e)
    (hdead : e.canonical.any s.isLive = false) : e.sessions = [] := by
  have hok := h.entries id e he
  by_contra hne
  obtain ⟨k, hk⟩ := ne_none_iff_exists'.mp (hok.attended hne)
  obtain ⟨cl, hcl, hreg, hghost, -⟩ := hok.canonical k hk
  rw [hk] at hdead
  simp [isLive, hcl, hreg, hghost] at hdead

theorem Inv.awaits (h : Inv s) (hun : Unreferenced s c) {f : Client → Client} {id : ℕ}
    (he : s.entry id = some e)
    (hf : ∀ cl, s.clients c = some cl → (f cl).ghost = cl.ghost ∧ (f cl).ghost = false ∧
      Named (f cl).account ∧ (f cl).restore = some id ∧ lower (f cl).account = lower e.account) :
    Inv (s.modifyClient c f) := by
  refine h.modifyClient hun (fun cl hcl => (hf cl hcl).1) fun cl hcl => ?_
  obtain ⟨-, hghost, hnamed, hrestore, heq⟩ := hf cl hcl
  refine ⟨hnamed.1, fun id' hid' => ?_⟩
  obtain rfl := mem_unique hrestore hid'
  exact ⟨hghost, hnamed, e, he, heq⟩

section

variable (h : Inv s) (hun : Unreferenced s c) (hcl : s.clients c = some cl)
  (hghost : cl.ghost = false)
include h hun hcl hghost

theorem Inv.setupSession (hreg : cl.registered = true) (hsession : cl.session = true)
    (he : s.entry e.id = some e)
    (hrestore : cl.restore = some e.id) (hroom : e.numSessions < maxSessions) :
    Inv (s.setupSession c e) := by
  unfold State.setupSession
  split
  · rename_i k hk
    split
    · refine h.modify (fun _ => rfl) (fun _ => rfl) fun e' he' => ?_
      obtain rfl := mem_unique he he'
      have hok := h.entries e.id e he
      have hcount := hok.count
      refine { hok with
        count := ?_, limit := ?_, nodup := nodup_cons.mpr ⟨(hun e.id e he).2, hok.nodup⟩
        attended := fun _ => by simp [hk]
        sessions := forall_mem_cons.mpr
          ⟨⟨cl, hcl, hreg, hghost, hsession, hrestore⟩, hok.sessions⟩ }
      · show e.numSessions + 1 = ((c :: e.sessions).length : ℤ)
        rw [length_cons]
        omega
      · show e.numSessions + 1 ≤ maxSessions
        omega
    · exact h
  · exact h

variable (hsession : cl.session = false)
include hsession

theorem Inv.becomes (hreg : cl.registered = true) (hnamed : Named cl.account) {id : ℕ}
    (he : s.entry id = some e) (heq : lower cl.account = lower e.account) :
    Inv ((s.modifyClient c fun cl => { cl with restore := none }).modify id fun e =>
      { e with canonical := some c }) := by
  have hinv : Inv (s.modifyClient c fun cl => { cl with restore := none }) := by
    refine h.modifyClient hun (fun _ _ => rfl) fun cl' hcl' => ?_
    obtain rfl := mem_unique hcl hcl'
    exact ⟨hnamed.1, by simp⟩
  refine hinv.modify (fun _ => rfl) (fun _ => rfl) fun e' he' => ?_
  obtain rfl := mem_unique he he'
  have hok := hinv.entries id e he
  refine { hok with attended := by simp, canonical := fun k hk => ?_ }
  obtain rfl := some.inj hk
  exact ⟨{ cl with restore := none }, clients_modifyClient_self hcl _, hreg, hghost, hsession, heq,
    hnamed⟩

/-- The part of `persist_account_login` after the ghost has been reclaimed, for a first login. -/
theorem Inv.loginEntry (hnamed : Named cl.account) {e' : Entry} (he : s.entry e.id = some e')
    (hcan : e'.canonical = e.canonical) (heq : lower cl.account = lower e'.account) (now : ℤ) (n : ℕ) :
    Inv (s.loginEntry cfg now n c cl.registered e) := by
  have hsome : ∀ cl', s.clients c = some cl' → cl' = cl :=
    fun cl' hcl' => mem_unique hcl' hcl
  unfold State.loginEntry
  split
  · split
    · exact h.exitClient (leavesOn_of_unreferenced hun) now n
    · refine h.awaits hun he fun cl' hcl' => ?_
      rw [hsome cl' hcl']
      exact ⟨rfl, hghost, hnamed, rfl, heq⟩
  · rename_i hdead
    have hs : e'.sessions = [] := by
      refine h.sessions_eq_nil he ?_
      rw [hcan]
      exact Bool.eq_false_iff.mpr hdead
    have he₁ := entry_noCanonical he
    have h₁ := h.noCanonical he hs
    have hun₁ := h₁.unreferenced_of_entry hcl hsession he₁ heq (by simp)
    split
    · exact h₁
    split
    · rename_i hreg
      exact h₁.becomes hun₁ hcl hghost hsession hreg hnamed he₁ heq
    · refine h₁.awaits hun₁ he₁ fun cl' hcl' => ?_
      rw [hsome cl' hcl']
      exact ⟨rfl, hghost, hnamed, rfl, heq⟩

/-- `persist_account_login` for a first login. -/
theorem Inv.persistAccountLogin (now : ℤ) (n g : ℕ) : Inv (s.persistAccountLogin cfg now n g c cl) := by
  unfold State.persistAccountLogin
  split
  · exact h
  rename_i hin
  have hnamed : Named cl.account := ⟨(h.clients c cl hcl).name, Bool.not_eq_false _ ▸ hin⟩
  split
  · exact h
  rename_i e hf
  obtain ⟨he, heq⟩ := entry_of_findEntry h.ids hf
  split
  · have h₁ := h.destroyGhost he rfl
    have he₁ : (s.destroyGhost e).entry e.id = some { e with ghost := none } := by
      rw [entry_destroyGhost he rfl, if_pos rfl]
    have hcl₁ := h.clients_destroyGhost he rfl hcl hghost
    have h₂ : Inv ((s.destroyGhost e).modify e.id fun e =>
        { e with numChannels := min g maxChannels }) :=
      h₁.modify (fun _ => rfl) (fun _ => rfl) fun a ha =>
        (h₁.entries e.id a ha).save a.disconnectTime _ a.preference
    have he₂ := entry_modify_self (f := fun e => { e with numChannels := min g maxChannels })
      (fun _ => rfl) he₁
    have hun₂ := h₂.unreferenced_of_entry hcl₁ hsession he₂ heq.symm (hun e.id e he).1
    exact h₂.loginEntry hun₂ hcl₁ hghost hsession hnamed he₂ rfl heq.symm now n
  · exact h.loginEntry hun hcl hghost hsession hnamed he rfl heq.symm now n

end

/-- A connection that neither belongs to an entry nor waits for one. -/
structure Detached (s : State) (c : ℕ) (cl : Client) : Prop where
  ghost : cl.ghost = false
  session : cl.session = false
  restore : cl.restore = none
  canonical : ∀ e ∈ s.entries, e.canonical ≠ some c

theorem Inv.login (h : Inv s) (hcl : s.clients c = some cl)
    (hdet : Detached s c cl) (name : AccountName) (now : ℤ) (n g : ℕ) :
    Inv ((s.modifyClient c fun _ => { cl with account := name.text }).persistAccountLogin cfg now n g c
      { cl with account := name.text }) := by
  have hun : Unreferenced s c := by
    refine fun id e he => ⟨hdet.canonical e (mem_of_entry he), fun hmem => ?_⟩
    obtain ⟨cl', hcl', -, -, hsession, -⟩ := (h.entries id e he).sessions c hmem
    obtain rfl := mem_unique hcl hcl'
    simp [hdet.session] at hsession
  have h₁ : Inv (s.modifyClient c fun _ => { cl with account := name.text }) := by
    refine h.modifyClient hun (fun cl' hcl' => ?_) fun cl' hcl' => ?_
    · rw [mem_unique hcl' hcl]
    · exact ⟨name.ne_nil, by simp [hdet.restore]⟩
  have hcl₁ := clients_modifyClient_self hcl fun _ => { cl with account := name.text }
  exact h₁.persistAccountLogin hun hcl₁ hdet.ghost hdet.session now n g

/-! ## Welcomes -/

def HasRoom (s : State) (c : ℕ) : Prop :=
  ∀ cl, s.clients c = some cl → cl.registered = false → cl.session = true →
    ∀ id e, cl.restore = some id → s.entry id = some e → e.numSessions < maxSessions

theorem Inv.welcome (h : Inv s) (hcl : s.clients c = some cl)
    (hreg : cl.registered = false) (hroom : HasRoom s c) :
    Inv ((s.modifyClient c fun cl => { cl with registered := true }).persistWelcome c cl) := by
  have hun := h.unreferenced_of_not_registered hcl hreg
  have h₁ : Inv (s.modifyClient c fun cl => { cl with registered := true }) :=
    h.modifyClient hun (fun _ _ => rfl) fun cl' hcl' =>
      have hok := h.clients c cl' hcl'
      ⟨hok.name, hok.restore⟩
  have hcl₁ := clients_modifyClient_self hcl fun cl => { cl with registered := true }
  unfold persistWelcome
  split
  · exact h₁
  rename_i e hbind
  obtain ⟨id, hrestore, he⟩ := bind_eq_some_iff.mp hbind
  obtain rfl := id_of_entry he
  obtain ⟨hghost, hnamed, e', he', heq⟩ := (h.clients c cl hcl).restore e.id hrestore
  obtain rfl := mem_unique he he'
  split
  · rename_i hsession
    exact h₁.setupSession hun hcl₁ hghost rfl hsession he hrestore
      (hroom cl hcl hreg hsession e.id e hrestore he)
  · rename_i hsession
    exact h₁.becomes hun hcl₁ hghost (Bool.eq_false_iff.mpr hsession) rfl hnamed he heq

/-! ## Entries are freed -/

def Unawaited (s : State) (id : ℕ) : Prop := ∀ c cl, s.clients c = some cl → cl.restore ≠ some id

theorem Inv.dispose (h : Inv s) (he : s.entry e.id = some e) (hun : Unawaited s e.id) :
    Inv ((s.destroyGhost e).freeEntry e.id) :=
  (h.destroyGhost he rfl).freeEntry fun c cl hcl => hun c cl (some_of_clients_destroyGhost hcl)

theorem Inv.cleanEntry_cases (h : Inv s) (now : ℤ) (he : s.entry e.id = some e) :
    s.cleanEntry cfg now e = s ∨ s.cleanEntry cfg now e = (s.destroyGhost e).freeEntry e.id ∧
      e.canonical = none ∧ now - e.disconnectTime > cfg.timeout := by
  unfold cleanEntry
  split
  · exact .inl rfl
  rename_i hdead
  split
  · rename_i hexpired
    refine .inr ⟨rfl, ?_, hexpired⟩
    by_contra hne
    obtain ⟨k, hk⟩ := ne_none_iff_exists'.mp hne
    obtain ⟨cl, hcl, -⟩ := (h.entries e.id e he).canonical k hk
    exact hdead (by simp [hk, hcl])
  · exact .inl rfl

/-- The cleanup, entry by entry. -/
theorem Inv.foldl_cleanEntry (now : ℤ) (es : List Entry) (h : Inv s) (hids : (es.map Entry.id).Nodup)
    (hes : ∀ e ∈ es, s.entry e.id = some e)
    (hun : ∀ e ∈ es, e.canonical = none → now - e.disconnectTime > cfg.timeout → Unawaited s e.id) :
    Inv (es.foldl (cleanEntry cfg now) s) := by
  induction es generalizing s with
  | nil => exact h
  | cons e es ih =>
    have he := hes e mem_cons_self
    rw [map_cons, nodup_cons] at hids
    rw [foldl_cons]
    rcases h.cleanEntry_cases now he with heq | ⟨heq, hcan, hexpired⟩
    · rw [heq]
      exact ih h hids.2 (fun a ha => hes a (mem_cons_of_mem e ha))
        fun a ha => hun a (mem_cons_of_mem e ha)
    · rw [heq]
      refine ih (h.dispose he (hun e mem_cons_self hcan hexpired)) hids.2 (fun a ha => ?_)
        fun a ha hnone hexp c cl hcl => ?_
      · have hne : a.id ≠ e.id := fun heq => hids.1 (heq ▸ mem_map_of_mem ha)
        rw [entry_freeEntry, if_neg hne, entry_destroyGhost he rfl, if_neg hne]
        exact hes a (mem_cons_of_mem e ha)
      · exact hun a (mem_cons_of_mem e ha) hnone hexp c cl (some_of_clients_destroyGhost hcl)

/-! ## Events -/

def Complies (cfg : Config) (s : State) : Event → Prop
  | .connect => True
  | .login _ c _ _ _ => ∀ cl, s.clients c = some cl → Detached s c cl
  | .welcome c => HasRoom s c
  | .quit _ c _ => LeavesOn cfg s c
  | .set _ _ _ => True
  | .erase account => ∀ e, s.findEntry account = some e → Unawaited s e.id
  | .cleanup now => ∀ e ∈ s.entries, e.canonical = none → now - e.disconnectTime > cfg.timeout →
      Unawaited s e.id

theorem Inv.set (h : Inv s) (hcl : s.clients c = some cl)
    (hin : isLoggedIn cl.account = true) (now : ℤ) (preference : Pref) :
    let p := s.getOrCreateEntry now cl.account
    let s' := p.1.modify p.2.id fun e => { e with preference := preference }
    Inv s' ∧ Inv (s'.destroyGhost p.2) := by
  obtain ⟨h₁, he, -, -⟩ := h.getOrCreateEntry now ⟨(h.clients c cl hcl).name, hin⟩
  intro p s'
  have h₂ : Inv s' := h₁.modify (fun _ => rfl) (fun _ => rfl) fun e' he' =>
    (h₁.entries _ e' he').save e'.disconnectTime e'.numChannels preference
  exact ⟨h₂, h₂.destroyGhost
    (entry_modify_self (f := fun e => { e with preference := preference }) (fun _ => rfl) he) rfl⟩

/-- Each event that complies keeps the invariant. -/
theorem Inv.step (h : Inv s) {ev : Event} (hev : Complies cfg s ev) : Inv (s.step cfg ev) := by
  cases ev with
  | connect => exact h.addClient _ ⟨by simp, by simp⟩
  | login now c name channels ghostChannels =>
    unfold State.step
    dsimp only
    split
    · exact h
    · rename_i cl hcl
      exact h.login hcl (hev cl hcl) name now channels ghostChannels
  | welcome c =>
    unfold State.step
    dsimp only
    split
    · exact h
    rename_i cl hcl
    split
    · exact h
    · rename_i hreg
      exact h.welcome hcl (Bool.eq_false_iff.mpr hreg) hev
  | quit now c channels => exact h.exitClient hev now channels
  | set now c preference =>
    unfold State.step
    dsimp only
    split
    · exact h
    rename_i cl hcl
    split
    · exact h
    rename_i hin
    have hin' : isLoggedIn cl.account = true := Bool.not_eq_false _ ▸ (not_or.mp hin).2
    split
    · exact (h.set hcl hin' now preference).2
    · exact (h.set hcl hin' now preference).1
  | erase account =>
    unfold State.step
    dsimp only
    split
    · exact h
    · rename_i e hf
      exact h.dispose (entry_of_findEntry h.ids hf).1 (hev e hf)
  | cleanup now =>
    exact h.foldl_cleanEntry now s.entries h.ids (fun e he => entry_of_mem h.ids he) hev

/-! ## Runs -/

theorem Inv.loadRow (h : Inv s) (now : ℤ) (row : Row) : Inv (s.loadRow cfg now row) := by
  obtain ⟨h₁, -⟩ := h.getOrCreateEntry now (⟨row.account.ne_nil, row.loggedIn⟩ : Named row.account.text)
  set s₁ := (s.getOrCreateEntry now row.account.text).1
  set e := (s.getOrCreateEntry now row.account.text).2
  have h₂ : Inv (s₁.modify e.id fun e =>
      { e with
        disconnectTime := row.disconnectTime, preference := row.preference
        numChannels := min row.numChannels maxChannels }) :=
    h₁.modify (fun _ => rfl) (fun _ => rfl) fun e' he' =>
      (h₁.entries e.id e' he').save _ _ _
  unfold State.loadRow
  dsimp only
  split
  · exact h₂.createGhost e.id
  · exact h₂

theorem inv_persistLoadDb (cfg : Config) (now : ℤ) (rows : List Row) :
    Inv (persistLoadDb cfg now rows) := by
  have hempty : Inv ⟨fun _ => none, [], 0, 0⟩ :=
    ⟨nodup_nil, by simp, fun _ _ => rfl, by simp [entry, Keyed.find],
      by simp [entry, Keyed.find], by simp⟩
  exact rows.foldlRecOn _ hempty fun _ h row _ => h.loadRow now row

/-- Every state of a run satisfies `P`. -/
def Always (cfg : Config) (P : State → Prop) : State → List Event → Prop
  | s, [] => P s
  | s, ev :: evs => P s ∧ Always cfg P (s.step cfg ev) evs

def AllComply (cfg : Config) : State → List Event → Prop
  | _, [] => True
  | s, ev :: evs => Complies cfg s ev ∧ AllComply cfg (s.step cfg ev) evs

theorem Inv.always (h : Inv s) (evs : List Event) (hevs : AllComply cfg s evs) :
    Always cfg Bookkept s evs := by
  induction evs generalizing s with
  | nil => exact h.bookkept
  | cons ev evs ih => exact ⟨h.bookkept, ih (h.step hevs.1) hevs.2⟩

/-- In a run whose events comply, the bookkeeping of the sessions is right in every state. -/
theorem always_bookkept (cfg : Config) (start : ℤ) (rows : List Row) (evs : List Event)
    (hevs : AllComply cfg (.persistLoadDb cfg start rows) evs) :
    Always cfg Bookkept (.persistLoadDb cfg start rows) evs :=
  (inv_persistLoadDb cfg start rows).always evs hevs

/-- An account with a ghost in one channel. -/
def alice : Row := ⟨⟨['a'], by decide⟩, rfl, 0, .on, 1⟩

/-- Two connections log in to the account: one reclaims the ghost, the other attaches to it. -/
def attach : List Event :=
  [.connect, .login 20 1 alice.account 0 1, .welcome 1, .connect, .login 30 2 alice.account 0 0,
    .welcome 2]

/-- The canonical hands over to the session. -/
theorem always_bookkept_handOver :
    AllComply ⟨false, 3600⟩ (.persistLoadDb ⟨false, 3600⟩ 10 [alice])
      (attach ++ [.quit 40 1 1]) ∧
    Always ⟨false, 3600⟩ Bookkept (.persistLoadDb ⟨false, 3600⟩ 10 [alice])
      (attach ++ [.quit 40 1 1]) := by
  have hevs : AllComply ⟨false, 3600⟩ (persistLoadDb ⟨false, 3600⟩ 10 [alice])
      (attach ++ [.quit 40 1 1]) := by
    refine ⟨trivial, ?_, ?_, trivial, ?_, ?_, ?_, trivial⟩
    · intro cl hcl
      obtain rfl := some.inj hcl
      exact ⟨rfl, rfl, rfl, by decide⟩
    · intro cl hcl _ hsession
      obtain rfl := some.inj hcl
      exact absurd hsession (by decide)
    · intro cl hcl
      obtain rfl := some.inj hcl
      exact ⟨rfl, rfl, rfl, by decide⟩
    · intro cl hcl _ _ id e hid he
      obtain rfl := some.inj hcl
      obtain rfl := some.inj hid
      obtain rfl := some.inj he
      decide
    · intro id e he _ _
      obtain rfl := mem_singleton.mp (mem_of_entry he)
      decide
  exact ⟨hevs, always_bookkept _ _ _ _ hevs⟩

/-- The canonical leaves after `PERSISTENCE SET OFF`: the session stays without a canonical. -/
theorem session_without_canonical :
    ¬Always ⟨false, 3600⟩ Bookkept (.persistLoadDb ⟨false, 3600⟩ 10 [alice])
      (attach ++ [.set 40 1 .off, .quit 50 1 1]) := by
  rintro ⟨-, -, -, -, -, -, -, -, h⟩
  obtain ⟨k, cl, hk, -⟩ := h.canonical _ (mem_singleton_self _) (by decide)
  exact absurd hk.symm (some_ne_none k)

end ObbyIRCd.Persist
