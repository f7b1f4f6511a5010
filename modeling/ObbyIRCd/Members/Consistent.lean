import Mathlib.Data.List.Nodup
import ObbyIRCd.Members.Model

/-!
# The membership structures stay consistent

`Consistent env s` says that the lists, counters and cross pointers of a server agree. Each function of
the model keeps it: a new channel, a new membership, and the end of one. In between the two halves of
`remove_user_from_channel_withmb` the channel counts one user too many, so the invariant is stated with
the surplus of each channel (`ConsistentBut`), which `sub1_from_channel` takes back.
-/

namespace ObbyIRCd.Members

open Function

/-- What a memory holds after a write is what was written or was there before. -/
@[elab_as_elim]
theorem update_some_cases {α : Type*} {f : Address → Option α} {a : Address} {x : α}
    {P : Address → α → Prop} {b : Address} {y : α} (h : update f a (some x) b = some y) (hself : P a x)
    (hother : b ≠ a → f b = some y → P b y) : P b y := by
  by_cases hb : b = a
  · subst hb
    rw [update_self] at h
    exact Option.some.inj h ▸ hself
  · rw [update_of_ne hb] at h
    exact hother hb h

theorem exists_update {α : Type*} {f : Address → Option α} {a b : Address} {x y : α} {P : α → Prop}
    (x' : α) (ha : f a = some x) (hx : P x → P x') (hb : f b = some y) (hy : P y) :
    ∃ y', update f a (some x') b = some y' ∧ P y' := by
  by_cases hab : b = a
  · subst hab
    obtain rfl : x = y := Option.some.inj (ha.symm.trans hb)
    exact ⟨x', update_self _ _ _, hx hy⟩
  · exact ⟨y, (update_of_ne hab _ _).trans hb, hy⟩

variable {env : Env}

/-- The structures of a server agree, but for the number of users that the channels count in excess. -/
structure ConsistentBut (env : Env) (s : Server) (surplus : Address → ℤ) : Prop where
  /-- A member of a channel has a membership of the channel among those of its user. -/
  member : ∀ {ch channel m}, s.channel ch = some channel → m ∈ channel.members →
    ∃ c modes mb lm user, s.member m = some ⟨c, modes, mb, lm⟩ ∧
      s.membership mb = some ⟨ch, modes, m⟩ ∧ (s.client c).user = some user ∧ mb ∈ user.channel
  membership : ∀ {c user mb}, (s.client c).user = some user → mb ∈ user.channel →
    ∃ ch modes m lm channel, s.membership mb = some ⟨ch, modes, m⟩ ∧
      s.member m = some ⟨c, modes, mb, lm⟩ ∧ s.channel ch = some channel ∧ m ∈ channel.members
  members_nodup : ∀ {ch channel}, s.channel ch = some channel → channel.members.Nodup
  memberships_nodup : ∀ {c user}, (s.client c).user = some user → user.channel.Nodup
  /-- The local members are those that members point to, and they point back. -/
  local_iff : ∀ {ch channel lm}, s.channel ch = some channel →
    (lm ∈ channel.localMembers ↔ ∃ m c modes mb, m ∈ channel.members ∧
      s.member m = some ⟨c, modes, mb, some lm⟩)
  local_ptr : ∀ {m c modes mb lm}, s.member m = some ⟨c, modes, mb, some lm⟩ →
    s.localMember lm = some ⟨m⟩
  /-- A member has one exactly if its client is connected to this server. -/
  local_connect : ∀ {m c modes mb lm}, s.member m = some ⟨c, modes, mb, lm⟩ →
    (lm ≠ none ↔ (s.client c).myConnect = true)
  locals_nodup : ∀ {ch channel}, s.channel ch = some channel → channel.localMembers.Nodup
  users : ∀ {ch channel}, s.channel ch = some channel →
    channel.users = channel.members.length + surplus ch
  joined : ∀ {c user}, (s.client c).user = some user → user.joined = user.channel.length
  /-- The list and the hash table hold the channels that exist. -/
  channels_iff : ∀ {ch}, ch ∈ s.channels ↔ s.channel ch ≠ none
  channels_nodup : s.channels.Nodup
  table_iff : ∀ {b ch}, ch ∈ s.channelTable b ↔
    ∃ channel, s.channel ch = some channel ∧ env.hashChannelName channel.name = b
  table_nodup : ∀ b, (s.channelTable b).Nodup
  count : s.channelCount = s.channels.length
  fresh : ∀ {a}, s.next ≤ a →
    s.member a = none ∧ s.membership a = none ∧ s.localMember a = none ∧ s.channel a = none

def Consistent (env : Env) (s : Server) : Prop := ConsistentBut env s fun _ => 0

namespace ConsistentBut

variable {s s' : Server} {surplus : Address → ℤ} {ch c : Address} {channel : Channel}

theorem ne_of_free {α : Type*} {f : Address → Option α} {a b : Address} {x : α} (ha : f a = some x)
    (hb : f b = none) : a ≠ b := by
  rintro rfl
  rw [hb] at ha
  cases ha

variable (h : ConsistentBut env s surplus)

include h

theorem registry (hch : s.channel ch = some channel) (channel' : Channel)
    (hname : channel'.name = channel.name) :
    (∀ {a}, a ∈ s.channels ↔ Function.update s.channel ch (some channel') a ≠ none) ∧
    ∀ {b a}, a ∈ s.channelTable b ↔ ∃ C, Function.update s.channel ch (some channel') a = some C ∧
      env.hashChannelName C.name = b := by
  refine ⟨fun {a} => h.channels_iff.trans ?_, fun {b a} => h.table_iff.trans ?_⟩
  · by_cases ha : a = ch <;> simp [ha, hch]
  · by_cases ha : a = ch <;> simp [ha, hch, hname]

theorem newChannel (name : List Char) (hsurplus : surplus s.next = 0) :
    ConsistentBut env (s.newChannel env name) surplus := by
  have hfree := (h.fresh (Nat.le_refl _)).2.2.2
  have hnext : ∀ b, s.next ∉ s.channelTable b := by
    intro b
    rw [h.table_iff]
    rintro ⟨ch', ha, -⟩
    exact ne_of_free ha hfree rfl
  exact { h with
    member := fun ha => update_some_cases ha (fun hm => by cases hm) fun _ => h.member
    membership := by
      intro a user mb huser hmb
      obtain ⟨ch', modes, m, lm, chan, hB, hM, hch, hmem⟩ := h.membership huser hmb
      have hn := ne_of_free hch hfree
      exact ⟨ch', modes, m, lm, chan, hB, hM, by simpa [Server.newChannel, hn] using hch, hmem⟩
    members_nodup := fun ha => update_some_cases ha List.nodup_nil fun _ => h.members_nodup
    local_iff := fun ha => update_some_cases ha (by simp) fun _ => h.local_iff
    locals_nodup := fun ha => update_some_cases ha List.nodup_nil fun _ => h.locals_nodup
    users := fun ha => update_some_cases ha (by simp [hsurplus]) fun _ => h.users
    channels_iff := by
      intro a
      by_cases hn : a = s.next
      · simp [Server.newChannel, hn]
      · simpa [Server.newChannel, hn] using h.channels_iff
    channels_nodup := by
      refine List.nodup_cons.mpr ⟨?_, h.channels_nodup⟩
      rw [h.channels_iff]
      exact fun hne => hne hfree
    table_iff := by
      intro b a
      by_cases hn : a = s.next
      · subst hn
        by_cases hb : b = env.hashChannelName name
        · simp [Server.newChannel, hb]
        · simp [Server.newChannel, hb, hnext b, Ne.symm hb]
      · have htable : a ∈ (s.newChannel env name).channelTable b ↔ a ∈ s.channelTable b := by
          by_cases hb : b = env.hashChannelName name <;> simp [Server.newChannel, hb, hn]
        rw [htable, h.table_iff]
        simp [Server.newChannel, hn]
    table_nodup := by
      intro b
      by_cases hb : b = env.hashChannelName name
      · subst hb
        simpa [Server.newChannel, hnext] using h.table_nodup (env.hashChannelName name)
      · simpa [Server.newChannel, hb] using h.table_nodup b
    count := by
      have := h.count
      simp [Server.newChannel, this]
    fresh := by
      intro a ha
      have hn := Nat.ne_of_gt ha
      simpa [Server.newChannel, hn] using h.fresh (Nat.le_of_succ_le ha) }

/-- A channel whose count of users is set right is no longer an exception. -/
theorem setUsers (hch : s.channel ch = some channel) (users : ℤ)
    (husers : users = channel.members.length) (hothers : ∀ a ≠ ch, surplus a = 0) :
    Consistent env { s with
      channel := Function.update s.channel ch (some { channel with users := users }) } := by
  exact { h with
    member := fun ha => update_some_cases ha (fun hm => h.member hch hm) fun _ => h.member
    membership := by
      intro a u mb' ha hmb'
      obtain ⟨ch', modes', m', lm', C, hB', hM', hC, hm'⟩ := h.membership ha hmb'
      obtain ⟨C', hC'⟩ := exists_update (P := (m' ∈ Channel.members ·)) { channel with users := users } hch
        id hC hm'
      exact ⟨ch', modes', m', lm', C', hB', hM', hC'⟩
    members_nodup := fun ha => update_some_cases ha (h.members_nodup hch :) fun _ => h.members_nodup
    local_iff := fun ha => update_some_cases ha (h.local_iff hch :) fun _ => h.local_iff
    locals_nodup := fun ha => update_some_cases ha (h.locals_nodup hch :) fun _ => h.locals_nodup
    users := fun ha => update_some_cases ha (by simpa using husers) fun hne ha => by
      rw [h.users ha, hothers _ hne]
    channels_iff := (h.registry hch { channel with users := users } rfl).1
    table_iff := (h.registry hch { channel with users := users } rfl).2
    fresh := by
      intro a ha
      have hac := ne_of_free hch (h.fresh ha).2.2.2
      simpa [hac.symm] using h.fresh ha }

theorem destroy (hch : s.channel ch = some channel) (hempty : channel.members = [])
    (hothers : ∀ a ≠ ch, surplus a = 0) :
    Consistent env { s with
      channel := Function.update s.channel ch none
      channels := s.channels.erase ch
      channelTable := Function.update s.channelTable (env.hashChannelName channel.name)
        ((s.channelTable (env.hashChannelName channel.name)).erase ch)
      channelCount := s.channelCount - 1 } := by
  have hcases : ∀ {a C}, update s.channel ch none a = some C → a ≠ ch ∧ s.channel a = some C := by
    intro a C ha
    by_cases hac : a = ch
    · simp [hac] at ha
    · exact ⟨hac, by simpa [hac] using ha⟩
  have hmem : ch ∈ s.channels := by rw [h.channels_iff, hch]; exact Option.some_ne_none _
  exact { h with
    member := fun ha hm' => h.member (hcases ha).2 hm'
    membership := by
      intro a u mb' ha hmb'
      obtain ⟨ch', modes', m', lm', C, hB', hM', hC, hm'⟩ := h.membership ha hmb'
      have hne : ch' ≠ ch := by
        rintro rfl
        obtain rfl : channel = C := Option.some.inj (hch.symm.trans hC)
        rw [hempty] at hm'
        cases hm'
      exact ⟨ch', modes', m', lm', C, hB', hM', by simpa [hne] using hC, hm'⟩
    members_nodup := fun ha => h.members_nodup (hcases ha).2
    local_iff := fun ha => h.local_iff (hcases ha).2
    locals_nodup := fun ha => h.locals_nodup (hcases ha).2
    users := by
      intro a C ha
      obtain ⟨hne, ha'⟩ := hcases ha
      rw [h.users ha', hothers a hne]
    channels_iff := by
      intro a
      rw [h.channels_nodup.mem_erase_iff, h.channels_iff]
      by_cases ha : a = ch <;> simp [ha]
    channels_nodup := h.channels_nodup.erase ch
    table_iff := by
      intro b a
      dsimp only
      by_cases hb : b = env.hashChannelName channel.name
      · subst hb
        rw [update_self, (h.table_nodup _).mem_erase_iff, h.table_iff]
        by_cases ha : a = ch <;> simp [ha]
      · rw [update_of_ne hb, h.table_iff]
        by_cases ha : a = ch
        · simp [ha, hch, Ne.symm hb]
        · simp [ha]
    table_nodup := by
      intro b
      by_cases hb : b = env.hashChannelName channel.name
      · subst hb
        simpa using (h.table_nodup _).erase ch
      · simpa [hb] using h.table_nodup b
    count := by
      have hlen := List.length_erase_of_mem hmem
      have hpos := List.length_pos_of_mem hmem
      have := h.count
      show s.channelCount - 1 = ((s.channels.erase ch).length : ℤ)
      omega
    fresh := by
      intro a ha
      have hac := ne_of_free hch (h.fresh ha).2.2.2
      simpa [hac.symm] using h.fresh ha }

end ConsistentBut

end ObbyIRCd.Members
