import ObbyIRCd.Persist.Invariant

/-!
# A client leaves

`persist_local_quit` keeps the invariant, and no entry refers to the client when it returns, so that
the client can be freed. A session only leaves the list. A canonical without sessions leaves a ghost
(`Inv.leave`), one with sessions hands over to the first of them (`Inv.handOver`), in both cases only
with persistence on: without it the entry loses its canonical and keeps its sessions.
-/

namespace ObbyIRCd.Persist

open Function Option Entry State

variable {cfg : Config} {s : State}

/-! ## Ghosts -/

theorem Inv.unreferenced_of_ghost (h : Inv s) {g : ℕ}
    (hg : ∀ cl, s.clients g = some cl → cl.ghost = true) : Unreferenced s g := by
  refine h.unreferenced_of fun cl hcl hlive => ?_
  simp [hg cl hcl] at hlive

variable {e : Entry} {c : ℕ} {cl : Client}

section

variable {e' : Entry} (he : s.entry e.id = some e') (hg : e'.ghost = e.ghost)
include he hg

theorem Inv.destroyGhost (h : Inv s) : Inv (s.destroyGhost e) := by
  unfold State.destroyGhost
  split
  · rename_i g hg'
    have hghost := ((h.entries e.id e' he).ghost g (hg.trans hg')).2
    have hinv : Inv (s.modify e.id fun e => { e with ghost := none }) :=
      h.modify (fun _ => rfl) (fun _ => rfl) fun e' he' => (h.entries e.id e' he').no_ghost
    exact hinv.removeClient (hinv.unreferenced_of_ghost hghost)
  · exact h

/-- What `destroy_ghost` does to the entries. -/
theorem entry_destroyGhost (id : ℕ) : (s.destroyGhost e).entry id =
      if id = e.id then some { e' with ghost := none } else s.entry id := by
  unfold destroyGhost
  split
  · refine (entry_modify s (f := fun e => { e with ghost := none }) (fun _ => rfl) e.id id).trans ?_
    rw [he]
    rfl
  · rename_i hnone
    split
    · rename_i hid
      rw [hid, he, ← hnone, ← hg]
    · rfl

/-- What `destroy_ghost` does to the clients that are not ghosts. -/
theorem Inv.clients_destroyGhost (h : Inv s) (hcl : s.clients c = some cl)
    (hghost : cl.ghost = false) : (s.destroyGhost e).clients c = some cl := by
  unfold State.destroyGhost
  split
  · rename_i g hg'
    rw [clients_removeClient, if_neg]
    · exact hcl
    · rintro rfl
      exact absurd (((h.entries e.id e' he).ghost c (hg.trans hg')).2 cl hcl) (by simp [hghost])
  · exact hcl

end

theorem some_of_clients_destroyGhost
    (h : (s.destroyGhost e).clients c = some cl) : s.clients c = some cl := by
  unfold destroyGhost at h
  split at h
  · rw [clients_removeClient] at h
    split at h
    · simp at h
    · exact h
  · exact h

theorem Inv.createGhost (h : Inv s) (id : ℕ) : Inv (s.createGhost id) := by
  unfold State.createGhost
  split
  · rename_i e he
    split
    · exact h
    have hadd := h.addClient ⟨e.account, true, true, false, none⟩
      ⟨(h.entries id e he).name, by simp⟩
    refine Inv.modify hadd (f := fun e => { e with ghost := some s.nextClient }) (fun _ => rfl)
      (fun _ => rfl) fun e' he' => ?_
    have hok := hadd.entries id e' he'
    refine { hok with ghost := fun g hg => ?_ }
    obtain rfl := some.inj hg
    refine ⟨Nat.lt_succ_self _, fun cl hcl => ?_⟩
    change update s.clients s.nextClient _ s.nextClient = some cl at hcl
    rw [update_self] at hcl
    rw [← some.inj hcl]
  · exact h

/-! ## Quits -/

variable {id : ℕ}

/-- The client of an entry that is not its session and that is logged in under its name is the one
that `find_entry` finds it for. -/
theorem Inv.findEntry_of_canonical (h : Inv s) (he : s.entry id = some e)
    (hc : e.canonical = some c) (hcl : s.clients c = some cl) :
    s.findEntry cl.account = some e ∧ cl.session = false ∧ Named cl.account := by
  obtain ⟨cl', hcl', -, -, hsession, heq, hnamed⟩ := (h.entries id e he).canonical c hc
  obtain rfl := mem_unique hcl hcl'
  exact ⟨h.findEntry_of_entry hnamed he heq, hsession, hnamed⟩

theorem Inv.unreferenced (h : Inv s) (hcl : s.clients c = some cl)
    (hcan : cl.session = false → Named cl.account → ∀ e, s.findEntry cl.account = some e →
      e.canonical ≠ some c)
    (hsess : cl.session = true → ∀ id e, cl.restore = some id → s.entry id = some e →
      c ∉ e.sessions) : Unreferenced s c := by
  intro id e he
  constructor
  · intro hc
    obtain ⟨hfind, hsession, hnamed⟩ := h.findEntry_of_canonical he hc hcl
    exact hcan hsession hnamed e hfind hc
  · intro hmem
    obtain ⟨cl', hcl', -, -, hsession, hrestore⟩ := (h.entries id e he).sessions c hmem
    obtain rfl := mem_unique hcl hcl'
    rw [id_of_entry he] at hrestore
    exact hsess hsession id e hrestore he hmem

def Entry.detached (rest : List ℕ) (e : Entry) : Entry :=
  { e with sessions := rest, numSessions := e.numSessions - 1 }

def Entry.handedOver (x : ℕ) (now : ℤ) (n : ℕ) (e : Entry) : Entry :=
  { e with canonical := some x, disconnectTime := now, numChannels := n }

def Client.released (cl : Client) : Client := { cl with session := false, restore := none }

theorem Inv.promote (h : Inv s) (he : s.entry e.id = some e) {x : ℕ} {rest : List ℕ}
    (hs : e.sessions = x :: rest) (now : ℤ) (n : ℕ) :
    Inv (((s.modify e.id (detached rest)).modifyClient x Client.released).modify e.id
      (handedOver x now n)) := by
  have hok := h.entries e.id e he
  have hcount := hok.count
  have hlimit := hok.limit
  have hnodup := hok.nodup
  rw [hs] at hcount hnodup
  rw [List.length_cons] at hcount
  obtain ⟨clx, hclx, hreg, hghost, hsession, hrestore⟩ := hok.sessions x (by rw [hs]; simp)
  obtain ⟨-, hnamed, e', he', heq⟩ := (h.clients x clx hclx).restore e.id hrestore
  obtain rfl := Option.mem_unique he he'
  -- the session leaves the list
  have hdetached : (s.modify e.id (detached rest)).entry e.id = some (e.detached rest) :=
    entry_modify_self (f := detached rest) (fun _ => rfl) he
  have h₁ : Inv (s.modify e.id (detached rest)) := by
    refine h.modify (fun _ => rfl) (fun _ => rfl) fun e' he' => ?_
    obtain rfl := Option.mem_unique he he'
    refine { hok with
      count := ?_, limit := ?_, nodup := hnodup.of_cons
      attended := fun _ => hok.attended (by simp [hs])
      sessions := fun y hy => hok.sessions y (by rw [hs]; exact List.mem_cons_of_mem x hy) }
    · show e.numSessions - 1 = (rest.length : ℤ)
      omega
    · show e.numSessions - 1 ≤ maxSessions
      omega
  -- then no entry refers to it
  have hx : Unreferenced (s.modify e.id (detached rest)) x := by
    refine h₁.unreferenced hclx (fun hno => absurd hno (by simp [hsession])) fun _ id e' hr he' => ?_
    obtain rfl := Option.mem_unique hrestore hr
    obtain rfl := Option.mem_unique hdetached he'
    exact (List.nodup_cons.mp hnodup).1
  have h₂ : Inv ((s.modify e.id (detached rest)).modifyClient x Client.released) :=
    h₁.modifyClient hx (fun _ _ => rfl) fun cl hcl =>
      ⟨(h₁.clients x cl hcl).name, by simp [Client.released]⟩
  -- and it becomes the canonical
  refine h₂.modify (fun _ => rfl) (fun _ => rfl) fun e' he' => ?_
  have hok' := h₂.entries e.id e' he'
  obtain rfl := Option.mem_unique hdetached he'
  refine { hok' with attended := by simp [handedOver], canonical := fun k hk => ?_ }
  obtain rfl := Option.some.inj hk
  exact ⟨clx.released, clients_modifyClient_self hclx _, hreg, hghost, rfl, heq, hnamed⟩

/-- The state in which `persist_local_quit` hands over or leaves a ghost. -/
def State.left (s : State) (e : Entry) (now : ℤ) (n : ℕ) : State :=
  ((s.modify e.id fun e => { e with canonical := none }).destroyGhost e).modify e.id fun e =>
    { e with disconnectTime := now, numChannels := n }

/-- The end of `persist_local_quit` for a canonical with sessions, as a handover. -/
theorem promoteSession_eq {x : ℕ} {rest : List ℕ} (hs : e.sessions = x :: rest) (now : ℤ) (n : ℕ) :
    (s.left e now n).promoteSession e =
      (((s.destroyGhost e).modify e.id (detached rest)).modifyClient x Client.released).modify
        e.id (handedOver x now n) := by
  have hid : ∀ e, (detached rest e).id = e.id := fun _ => rfl
  unfold promoteSession left destroyGhost
  rw [hs]
  cases e.ghost <;>
    simp only [State.modify, State.modifyClient, State.removeClient, Keyed.modify_modify, hid,
      implies_true] <;> rfl

theorem Inv.unreferenced_of_entry (h : Inv s) (hcl : s.clients c = some cl)
    (hsession : cl.session = false) (he : s.entry id = some e)
    (heq : lower cl.account = lower e.account) (hne : e.canonical ≠ some c) : Unreferenced s c := by
  refine h.unreferenced hcl (fun _ hnamed e' hf => ?_) fun hno => absurd hno (by simp [hsession])
  obtain rfl := some.inj ((h.findEntry_of_entry hnamed he heq).symm.trans hf)
  exact hne

theorem Inv.clients_createGhost (h : Inv s) (id : ℕ)
    (hcl : s.clients c = some cl) : (s.createGhost id).clients c = some cl := by
  unfold State.createGhost
  split
  · split
    · exact hcl
    show update s.clients s.nextClient _ c = some cl
    rw [update_of_ne]
    · exact hcl
    · rintro rfl
      exact absurd (hcl.symm.trans (h.freshClient _ (Nat.le_refl _))) (by simp)
  · exact hcl

theorem entry_createGhost (he : s.entry id = some e) :
    ∃ e', (s.createGhost id).entry id = some e' ∧ e'.account = e.account ∧
      e'.canonical = e.canonical := by
  unfold createGhost
  rw [he]
  dsimp only
  split
  · exact ⟨e, he, rfl, rfl⟩
  · exact ⟨{ e with ghost := some s.nextClient },
      entry_modify_self (f := fun e => { e with ghost := some s.nextClient }) (fun _ => rfl) he, rfl, rfl⟩

theorem entry_noCanonical {e' : Entry} (he : s.entry id = some e') :
    (s.modify id fun e => { e with canonical := none }).entry id =
      some { e' with canonical := none } :=
  entry_modify_self (f := fun e => { e with canonical := none }) (fun _ => rfl) he

theorem Inv.noCanonical (h : Inv s) {e' : Entry} (he : s.entry id = some e')
    (hs : e'.sessions = []) : Inv (s.modify id fun e => { e with canonical := none }) :=
  h.modify (fun _ => rfl) (fun _ => rfl) fun a ha => by
    obtain rfl := mem_unique he ha
    exact (h.entries id e' he).no_canonical hs

section

variable (h : Inv s) (hcl : s.clients c = some cl) (hghost : cl.ghost = false)
  (hsession : cl.session = false) (he : s.entry e.id = some e)
  (heq : lower cl.account = lower e.account)
include h hcl hghost hsession he heq

theorem Inv.leave (hs : e.sessions = []) (now : ℤ) (n : ℕ) :
    Inv ((s.left e now n).createGhost e.id) ∧
      Unreferenced ((s.left e now n).createGhost e.id) c := by
  have he₁ := entry_noCanonical he
  have h₁ := h.noCanonical he hs
  set s₁ := s.modify e.id fun e => { e with canonical := none }
  set s₂ := s₁.destroyGhost e
  have he₂ : s₂.entry e.id = some { e with canonical := none, ghost := none } := by
    rw [entry_destroyGhost he₁ rfl, if_pos rfl]
  have h₂ := h₁.destroyGhost he₁ rfl
  have hcl₂ := h₁.clients_destroyGhost he₁ rfl hcl hghost
  set s₃ := s₂.modify e.id fun e => { e with disconnectTime := now, numChannels := n }
  have h₃ : Inv s₃ := h₂.modify (fun _ => rfl) (fun _ => rfl) fun e' he' =>
    (h₂.entries e.id e' he').save now n e'.preference
  have he₃ := entry_modify_self (f := fun e => { e with disconnectTime := now, numChannels := n })
    (fun _ => rfl) he₂
  obtain ⟨e₄, he₄, hacc₄, hcan₄⟩ := entry_createGhost he₃
  refine ⟨h₃.createGhost e.id, ?_⟩
  refine (h₃.createGhost e.id).unreferenced_of_entry (h₃.clients_createGhost e.id hcl₂) hsession he₄
    (by rw [hacc₄]; exact heq) (by rw [hcan₄]; simp)

theorem Inv.handOver (hs : e.sessions ≠ []) (now : ℤ) (n : ℕ) :
    Inv ((s.left e now n).promoteSession e) ∧
      Unreferenced ((s.left e now n).promoteSession e) c := by
  obtain ⟨x, rest, hs⟩ := List.exists_cons_of_ne_nil hs
  rw [promoteSession_eq hs]
  have he₁ : (s.destroyGhost e).entry e.id = some { e with ghost := none } := by
    rw [entry_destroyGhost he rfl, if_pos rfl]
  have h₁ := h.destroyGhost he rfl
  have hcl₁ := h.clients_destroyGhost he rfl hcl hghost
  have h₂ := h₁.promote (e := { e with ghost := none }) he₁ hs now n
  obtain ⟨clx, hclx, -, -, hsessionx, -⟩ := (h.entries e.id e he).sessions x (by rw [hs]; simp)
  have hne : x ≠ c := by
    rintro rfl
    obtain rfl := mem_unique hcl hclx
    simp [hsession] at hsessionx
  have hcl₂ : (((s.destroyGhost e).modify e.id (detached rest)).modifyClient x
      Client.released).clients c = some cl := by
    rw [clients_modifyClient, if_neg hne.symm]
    exact hcl₁
  have he₂ := entry_modify_self (f := handedOver x now n) (fun _ => rfl)
    (entry_modify_self (f := detached rest) (fun _ => rfl) he₁)
  exact ⟨h₂, h₂.unreferenced_of_entry hcl₂ hsession he₂ heq fun hx => hne (some.inj hx)⟩

theorem Inv.quit_on (now : ℤ) (n : ℕ) :
    let s' := s.left e now n
    Inv (if 0 < e.numSessions then s'.promoteSession e else s'.createGhost e.id) ∧
      Unreferenced (if 0 < e.numSessions then s'.promoteSession e else s'.createGhost e.id) c := by
  have hcount := (h.entries e.id e he).count
  intro s'
  split
  · refine h.handOver hcl hghost hsession he heq (fun hs => ?_) now n
    rw [hs] at hcount
    simp only [List.length_nil] at hcount
    omega
  · refine h.leave hcl hghost hsession he heq (List.length_eq_zero_iff.mp ?_) now n
    omega

end

def LeavesOn (cfg : Config) (s : State) (c : ℕ) : Prop :=
  ∀ id e, s.entry id = some e → e.canonical = some c → e.sessions ≠ [] →
    persistenceEffective cfg (some e) = true

theorem id_removeSession (c : ℕ) (e : Entry) : (e.removeSession c).id = e.id := by
  unfold removeSession
  split <;> rfl

theorem account_removeSession (c : ℕ) (e : Entry) : (e.removeSession c).account = e.account := by
  unfold removeSession
  split <;> rfl

theorem EntryOk.notMem_removeSession {clients : ℕ → Option Client} {n : ℕ}
    (h : EntryOk clients n e) (c : ℕ) : c ∉ (e.removeSession c).sessions := by
  unfold Entry.removeSession
  split
  · exact h.nodup.not_mem_erase
  · assumption

theorem Inv.quit_session (h : Inv s) (hcl : s.clients c = some cl)
    (hsession : cl.session = true) (hid : cl.restore = some id) :
    Inv (s.modify id (removeSession c)) ∧ Unreferenced (s.modify id (removeSession c)) c := by
  have hinv : Inv (s.modify id (removeSession c)) :=
    h.modify (id_removeSession c) (account_removeSession c) fun e he =>
      (h.entries id e he).removeSession c
  refine ⟨hinv, hinv.unreferenced hcl (fun hf => absurd hsession (by simp [hf]))
    fun _ id' e' hr he' => ?_⟩
  obtain rfl := mem_unique hid hr
  rw [entry_modify s (id_removeSession c), if_pos rfl] at he'
  obtain ⟨e, he, rfl⟩ := map_eq_some_iff.mp he'
  exact (h.entries id e he).notMem_removeSession c

theorem Inv.quit_off (h : Inv s) (hcl : s.clients c = some cl) (hsession : cl.session = false)
    (hon : LeavesOn cfg s c) (hf : s.findEntry cl.account = some e)
    (hoff : persistenceEffective cfg (some e) = false) (hc : e.canonical = some c) :
    Inv (s.modify e.id fun e => { e with canonical := none }) ∧
      Unreferenced (s.modify e.id fun e => { e with canonical := none }) c := by
  obtain ⟨he, heq⟩ := entry_of_findEntry h.ids hf
  have hs : e.sessions = [] := by
    by_contra hne
    exact absurd (hon e.id e he hc hne) (by simp [hoff])
  have hinv := h.noCanonical he hs
  exact ⟨hinv, hinv.unreferenced_of_entry hcl hsession (entry_noCanonical he) heq.symm (by simp)⟩

theorem Inv.persistLocalQuit (h : Inv s) {c : ℕ} {cl : Client} (hcl : s.clients c = some cl)
    (hon : LeavesOn cfg s c) (now : ℤ) (n : ℕ) :
    Inv (s.persistLocalQuit cfg now n c cl) ∧
      Unreferenced (s.persistLocalQuit cfg now n c cl) c := by
  unfold State.persistLocalQuit
  split
  · rename_i hghost
    refine ⟨h, h.unreferenced_of_ghost fun cl' hcl' => ?_⟩
    obtain rfl := mem_unique hcl hcl'
    exact hghost
  · rename_i hghost
    rw [Bool.not_eq_true] at hghost
    split
    · rename_i hsession
      split
      · rename_i id hid
        exact h.quit_session hcl hsession hid
      · rename_i hnone
        exact ⟨h, h.unreferenced hcl (fun hf => absurd hsession (by simp [hf]))
          fun _ id e hr => absurd (hnone.symm.trans hr) (by simp)⟩
    · rename_i hsession
      rw [Bool.not_eq_true] at hsession
      have hno : cl.session = true → ∀ id e, cl.restore = some id → s.entry id = some e →
        c ∉ e.sessions := fun ht => absurd ht (by simp [hsession])
      split
      · rename_i hout
        exact ⟨h, h.unreferenced hcl (fun _ hnamed => absurd hnamed.2 (by simp [hout])) hno⟩
      rename_i hin
      split
      · rename_i hoff
        split
        · rename_i e hf
          rw [hf] at hoff
          split
          · rename_i hc
            exact h.quit_off hcl hsession hon hf hoff hc
          rename_i hc
          refine ⟨h, h.unreferenced hcl (fun _ _ e' hf' => ?_) hno⟩
          obtain rfl := mem_unique hf hf'
          exact hc
        · rename_i hf
          exact ⟨h, h.unreferenced hcl (fun _ _ e' hf' => absurd (hf.symm.trans hf') (by simp)) hno⟩
      · have hnamed : Named cl.account :=
          ⟨(h.clients c cl hcl).name, Bool.not_eq_false _ ▸ hin⟩
        obtain ⟨h₁, he, heq, hclients⟩ := h.getOrCreateEntry now hnamed
        have hcl₁ : (s.getOrCreateEntry now cl.account).1.clients c = some cl := by rw [hclients, hcl]
        dsimp only
        split
        · rename_i hother
          exact ⟨h₁, h₁.unreferenced_of_entry hcl₁ hsession he heq.symm hother.2⟩
        · exact h₁.quit_on hcl₁ hghost hsession he heq.symm now (min n maxChannels)

end ObbyIRCd.Persist
