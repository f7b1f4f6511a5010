import ObbyIRCd.Members.Links

/-!
# Runs of joins and parts

The last two steps of the argument: `sub1_from_channel` makes the count of users right and destroys
an empty channel unless the hooks keep it, and so every event keeps the invariant
(`step_consistent`). `run_consistent` is the result for runs. It carries along what the hooks last
answered about each channel: a channel without members is there exactly if they kept it.
-/

namespace ObbyIRCd.Members

open List Option Server

variable {env : Env} {s : Server} {ch c : Address} {channel : Channel}

/-- `kept a` is what the hooks last answered about the channel at `a`: a channel without members is
there only if they kept it, and a channel that is gone is none that they kept. -/
def KeptAt (s : Server) (kept : Address → Option Bool) (a : Address) : Prop :=
  (∀ channel, s.channel a = some channel → channel.members = [] → kept a = some true) ∧
    (s.channel a = none → kept a ≠ some true)

def recorded (kept : Address → Option Bool) : Option (Address × Bool) → Address → Option Bool
  | none => kept
  | some (ch, answer) => Function.update kept ch (some answer)

/-- The states that a run reaches, with the last answer of the hooks about each channel. -/
inductive Reaches (env : Env) (s₀ : Server) : Server → (Address → Option Bool) → Prop
  | start : Reaches env s₀ s₀ fun _ => none
  | step {s s' : Server} {kept : Address → Option Bool} {e : Event}
      {asked : Option (Address × Bool)} : Reaches env s₀ s kept → s.Admits e →
      s.step env e = some (s', asked) → Reaches env s₀ s' (recorded kept asked)

def blank (isUser myConnect : Address → Bool) : Server where
  member _ := none
  membership _ := none
  localMember _ := none
  channel _ := none
  client a := ⟨if isUser a then some ⟨[], 0⟩ else none, myConnect a⟩
  channels := []
  channelTable _ := []
  channelCount := 0
  next := 0

theorem consistent_blank (isUser myConnect : Address → Bool) :
    Consistent env (blank isUser myConnect) := by
  have huser : ∀ {a u}, ((blank isUser myConnect).client a).user = some u → u = ⟨[], 0⟩ := by
    intro a u ha
    simp only [blank] at ha
    split_ifs at ha
    exact (some.inj ha).symm
  constructor
  case membership => intro a u mb ha hmb; rw [huser ha] at hmb; cases hmb
  case memberships_nodup => intro a u ha; rw [huser ha]; exact nodup_nil
  case joined => intro a u ha; rw [huser ha]; rfl
  case fresh => exact fun _ => ⟨rfl, rfl, rfl, rfl⟩
  all_goals simp [blank]

/-- What `sub1_from_channel` does to a channel that counts one user too many, or to an empty one. -/
theorem sub1_spec {surplus : Address → ℤ} (h : ConsistentBut env s surplus)
    (hch : s.channel ch = some channel)
    (hcount : channel.users = channel.members.length + 1 ∨
      (channel.users = 0 ∧ channel.members = []))
    (hothers : ∀ a ≠ ch, surplus a = 0) (keep : Bool) :
    ∃ s' answer, s.sub1FromChannel env ch keep = some (s', answer) ∧ Consistent env s' ∧
      (∀ a ≠ ch, s'.channel a = s.channel a) ∧
      ∀ kept, KeptAt s' (recorded kept (answer.map (ch, ·))) ch := by
  by_cases hempty : channel.members = []
  · have husers : ¬ channel.users - 1 > 0 := by
      rcases hcount with hone | ⟨hzero, -⟩
      · rw [hempty, length_nil] at hone
        omega
      · omega
    cases keep with
    | true =>
      refine ⟨_, some true, ?_, h.setUsers hch 0 (by simp [hempty]) hothers,
        fun a ha => by simp [ha], fun kept => ?_⟩
      · simp only [sub1FromChannel, hch, bind_eq_bind, bind_some, if_neg husers, if_true]
      · simp [KeptAt, recorded]
    | false =>
      refine ⟨_, some false, ?_, h.destroy hch hempty hothers, fun a ha => by simp [ha],
        fun kept => ?_⟩
      · simp only [sub1FromChannel, hch, bind_eq_bind, bind_some, if_neg husers,
          Bool.false_eq_true, if_false]
      · simp [KeptAt, recorded]
  · have hone : channel.users = channel.members.length + 1 :=
      hcount.resolve_right fun h0 => hempty h0.2
    have hpos := length_pos_iff.mpr hempty
    have husers : channel.users - 1 > 0 := by omega
    refine ⟨_, none, ?_, h.setUsers hch (channel.users - 1) (by omega) hothers,
      fun a ha => by simp [ha], fun kept => ?_⟩
    · simp only [sub1FromChannel, hch, bind_eq_bind, bind_some, if_pos husers]
    · simp [KeptAt, hempty]

/-- `make_channel` finds a channel that exists, or makes one without members. -/
theorem makeChannel_spec (h : Consistent env s) {name : List Char} (hname : name ≠ []) :
    ∃ s' ch channel, s.makeChannel env name = some (s', ch) ∧ Consistent env s' ∧
      s'.channel ch = some channel ∧ s'.client = s.client ∧
      (∀ kept, (∀ a, KeptAt s kept a) → ∀ a ≠ ch, KeptAt s' kept a) ∧
      (s' = s ∨ channel.members = []) := by
  unfold makeChannel
  rw [if_neg hname]
  rcases hfind : s.findChannel env (nameBuf name) with - | ch
  · refine ⟨_, s.next, ⟨nameBuf name, 0, [], []⟩, rfl, h.newChannel _ rfl, ?_, rfl, ?_, .inr rfl⟩
    · simp [newChannel]
    · intro kept hkept a ha
      have := hkept a
      simpa [KeptAt, newChannel, ha] using this
  · obtain ⟨channel, hch, -⟩ := h.table_iff.mp (mem_of_find?_eq_some hfind)
    exact ⟨s, ch, channel, rfl, h, hch, rfl, fun kept hkept a _ => hkept a, .inl rfl⟩

/-- A user that `find_membership_link` finds on a channel is one of its members. -/
theorem members_ne_nil_of_isMember (h : Consistent env s) (hch : s.channel ch = some channel)
    {user : User} (huser : (s.client c).user = some user) (hin : s.isMember user ch = true) :
    channel.members ≠ [] := by
  obtain ⟨mb, hmb, hof⟩ := any_eq_true.mp hin
  obtain ⟨ch', modes, m, lm, C, hB, -, hC, hm⟩ := h.membership huser hmb
  rw [hB] at hof
  obtain rfl : ch' = ch := by simpa using hof
  obtain rfl : channel = C := mem_unique hch hC
  exact ne_nil_of_mem hm

/-- Every event succeeds, keeps the invariant, and leaves no empty channel that no hook has kept. -/
theorem step_consistent (h : Consistent env s) {kept : Address → Option Bool}
    (hkept : ∀ a, KeptAt s kept a) {e : Event} (hadm : s.Admits e) :
    ∃ s' asked, s.step env e = some (s', asked) ∧ Consistent env s' ∧
      ∀ a, KeptAt s' (recorded kept asked) a := by
  cases e with
  | join c name modes allowed keep =>
    by_cases hname : name = []
    · exact ⟨s, none, by simp [step, makeChannel, hname], h, hkept⟩
    obtain ⟨s', ch, channel, hmake, h', hch, hclient, hothers, hnew⟩ := makeChannel_spec h hname
    obtain ⟨user, huser⟩ := ne_none_iff_exists'.mp hadm
    rw [← hclient] at huser
    by_cases hin : s'.isMember user ch = true
    · refine ⟨s', none, by simp [step, hmake, huser, hin], h', ?_⟩
      rcases hnew with rfl | hempty
      · exact hkept
      · exact absurd hempty (members_ne_nil_of_isMember h' hch huser hin)
    · cases allowed with
      | true =>
        refine ⟨added env s' ch c channel user modes, none, ?_, h'.add hch huser modes, ?_⟩
        · simp [step, hmake, huser, hin, addUserToChannel_eq hch huser]
        · intro a
          by_cases ha : a = ch
          · subst ha
            simp [KeptAt, added_channel_self, addedChannel]
          · have := hothers kept hkept a ha
            simpa [KeptAt, added, ha, recorded] using this
      -- a channel that was made for a user who may not join is taken away again
      | false =>
        by_cases hzero : channel.users = 0
        · have hempty : channel.members = [] := by
            have := h'.users hch
            exact length_eq_zero_iff.mp (by omega)
          obtain ⟨s'', answer, hsub, h'', hrest, hat⟩ :=
            sub1_spec h' hch (.inr ⟨hzero, hempty⟩) (fun _ _ => rfl) keep
          refine ⟨s'', answer.map (ch, ·), ?_, h'', fun a => ?_⟩
          · simp [step, hmake, huser, hin, hch, hzero, hsub]
          · by_cases ha : a = ch
            · subst ha
              exact hat kept
            · have := hothers kept hkept a ha
              cases answer <;> simpa [KeptAt, hrest a ha, recorded, ha] using this
        · refine ⟨s', none, by simp [step, hmake, huser, hch, hzero], h', fun a => ?_⟩
          by_cases ha : a = ch
          · subst ha
            have := h'.users hch
            have hne : channel.members ≠ [] := by
              intro hempty
              rw [hempty, length_nil] at this
              exact hzero (by omega)
            simp [KeptAt, hch, hne]
          · exact hothers kept hkept a ha
  | part c mb keep =>
    obtain ⟨user, huser, hmb⟩ := hadm
    obtain ⟨ch, modes, m, lm, channel, hB, hM, hch, hm⟩ := h.membership huser hmb
    have hun := ConsistentBut.unlink h hB hM hch hm huser hmb
    have hch' : (unlinked s ch c m mb lm channel user).channel ch =
        some (unlinkedChannel channel m lm) := by simp [unlinked]
    have hcount : (unlinkedChannel channel m lm).users =
        (unlinkedChannel channel m lm).members.length + 1 := by
      have := hun.users hch'
      simpa using this
    obtain ⟨s', answer, hsub, h', hrest, hat⟩ :=
      sub1_spec hun hch' (.inl hcount) (fun a ha => Function.update_of_ne ha _ _) keep
    refine ⟨s', answer.map (ch, ·), ?_, h', fun a => ?_⟩
    · simp [step, hB, removeUserFromChannelWithmb, unlinkMembership_eq hB hM hch huser, hsub]
    · by_cases ha : a = ch
      · subst ha
        exact hat kept
      have hsame : s'.channel a = s.channel a := by
        rw [hrest a ha]
        simp [unlinked, ha]
      have := hkept a
      cases answer <;> simpa [KeptAt, hsame, recorded, ha] using this

/-- In every state of every run from a server without channels, the membership structures are
consistent, every event that can happen succeeds, and a channel without members is there exactly if a
hook kept it. -/
theorem run_consistent (env : Env) (isUser myConnect : Address → Bool) {s : Server}
    {kept : Address → Option Bool} (hrun : Reaches env (blank isUser myConnect) s kept) :
    Consistent env s ∧
      (∀ e, s.Admits e → s.step env e ≠ none) ∧
      (∀ ch channel, s.channel ch = some channel → channel.members = [] → kept ch = some true) ∧
      ∀ ch, s.channel ch = none → kept ch ≠ some true := by
  have hall : Consistent env s ∧ ∀ a, KeptAt s kept a := by
    induction hrun with
    | start =>
      refine ⟨consistent_blank isUser myConnect, fun a => ⟨?_, by simp⟩⟩
      intro channel hch
      cases hch
    | step _ hadm hstep ih =>
      obtain ⟨s'', asked', hstep', h', hkept'⟩ := step_consistent ih.1 ih.2 hadm
      rw [hstep] at hstep'
      obtain ⟨rfl, rfl⟩ := Prod.mk.inj (some.inj hstep')
      exact ⟨h', hkept'⟩
  refine ⟨hall.1, fun e hadm => ?_, fun ch => (hall.2 ch).1, fun ch => (hall.2 ch).2⟩
  obtain ⟨s', asked, hstep, -⟩ := step_consistent hall.1 hall.2 hadm
  rw [hstep]
  exact some_ne_none _

/-- A server without member modes and with one bucket. -/
def plainEnv : Env where
  rank _ := none
  hashChannelName _ := 0
  sameName a b := a == b

/-- Two users join a channel, and one of them joins and parts another one, which goes. -/
theorem run_consistent_join_part :
    ∃ s kept, Reaches plainEnv (blank (fun _ => true) fun _ => true) s kept ∧
      s.channelCount = 1 ∧ (s.channel 0).map Channel.users = some 2 ∧ kept 7 = some false ∧
      Consistent plainEnv s := by
  have hone := @Reaches.step plainEnv _ _ _ _ (.join 0 ['#', 'a'] [] true false) _
    (@Reaches.start plainEnv (blank (fun _ => true) fun _ => true)) (some_ne_none _) rfl
  have htwo := @Reaches.step plainEnv _ _ _ _ (.join 1 ['#', 'a'] [] true false) _ hone
    (some_ne_none _) rfl
  have hother := @Reaches.step plainEnv _ _ _ _ (.join 0 ['#', 'b'] [] true false) _ htwo
    (some_ne_none _) rfl
  have hrun := @Reaches.step plainEnv _ _ _ _ (.part 0 10 false) _ hother
    ⟨_, rfl, mem_cons_self⟩ rfl
  exact ⟨_, _, hrun, rfl, rfl, rfl, (run_consistent plainEnv _ _ hrun).1⟩

end ObbyIRCd.Members
