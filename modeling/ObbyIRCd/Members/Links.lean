import ObbyIRCd.Members.Consistent

/-!
# A membership begins and ends

The effect of `add_user_to_channel` and of the first half of `remove_user_from_channel_withmb` on the
invariant. Both touch the lists and structures of one channel and one user; the work is to see that
nothing else points to what is added or taken out.
-/

namespace ObbyIRCd.Members

open List Option Function

variable {env : Env}

/-! ## Users -/

section
variable {s : Server} {a c : Address} {u user user' : User}

theorem user_update : (update s.client c { s.client c with user := some user' } a).user =
    update (fun a => (s.client a).user) c (some user') a := by
  by_cases ha : a = c <;> simp [ha]

@[elab_as_elim]
theorem update_user_cases {P : Address → User → Prop}
    (h : (update s.client c { s.client c with user := some user' } a).user = some u)
    (hself : P c user') (hother : a ≠ c → (s.client a).user = some u → P a u) : P a u :=
  update_some_cases (user_update.symm.trans h) hself hother

theorem exists_update_user {P : User → Prop} (user' : User) (huser : (s.client c).user = some user)
    (hP : P user → P user') (ha : (s.client a).user = some u) (hu : P u) :
    ∃ u', (update s.client c { s.client c with user := some user' } a).user = some u' ∧ P u' := by
  rw [user_update]
  exact exists_update user' huser hP ha hu

end

/-! ## A new membership -/

def addedChannel (s : Server) (c : Address) (channel : Channel) : Channel :=
  { channel with
    members := s.next :: channel.members
    users := channel.users + 1
    localMembers := if (s.client c).myConnect then (s.next + 1) :: channel.localMembers
      else channel.localMembers }

def addedMember (env : Env) (s : Server) (c : Address) (modes : List Char) : Member :=
  ⟨c, modes.foldl (addLetterToMstring env) [], s.next + 2,
    if (s.client c).myConnect then some (s.next + 1) else none⟩

def added (env : Env) (s : Server) (ch c : Address) (channel : Channel) (user : User)
    (modes : List Char) : Server :=
  { s with
    member := update s.member s.next (some (addedMember env s c modes))
    membership := update s.membership (s.next + 2)
      (some ⟨ch, modes.foldl (addLetterToMstring env) [], s.next⟩)
    localMember := if (s.client c).myConnect then
      update s.localMember (s.next + 1) (some ⟨s.next⟩) else s.localMember
    channel := update s.channel ch (some (addedChannel s c channel))
    client := update s.client c { s.client c with
      user := some ⟨(s.next + 2) :: user.channel, user.joined + 1⟩ }
    next := s.next + 3 }

section
variable {s : Server} {ch c : Address} {channel : Channel} {user : User} {modes : List Char}

theorem addUserToChannel_eq (hch : s.channel ch = some channel)
    (huser : (s.client c).user = some user) :
    s.addUserToChannel env ch c modes = some (added env s ch c channel user modes) := by
  simp [Server.addUserToChannel, huser, hch, added, addedChannel, addedMember]

theorem added_channel_self : (added env s ch c channel user modes).channel ch =
    some (addedChannel s c channel) := by simp [added]

theorem added_member_self : (added env s ch c channel user modes).member s.next =
    some (addedMember env s c modes) := by simp [added]

theorem added_membership_self : (added env s ch c channel user modes).membership (s.next + 2) =
    some ⟨ch, modes.foldl (addLetterToMstring env) [], s.next⟩ := by simp [added]

theorem added_user_self : ((added env s ch c channel user modes).client c).user =
    some ⟨(s.next + 2) :: user.channel, user.joined + 1⟩ := by simp [added]

variable {a : Address}

theorem added_member_cases {M : Member}
    (h : (added env s ch c channel user modes).member a = some M) :
    (a = s.next ∧ M = addedMember env s c modes) ∨ (a ≠ s.next ∧ s.member a = some M) :=
  update_some_cases h (.inl ⟨rfl, rfl⟩) fun hne h => .inr ⟨hne, h⟩

theorem added_myConnect (a : Address) :
    ((added env s ch c channel user modes).client a).myConnect = (s.client a).myConnect := by
  by_cases ha : a = c <;> simp [added, ha]

end

namespace ConsistentBut

variable {s : Server} {surplus : Address → ℤ} {ch c : Address} {channel : Channel} {user : User}
  {modes : List Char}

variable {a : Address}

variable (h : ConsistentBut env s surplus)
include h

theorem added_member_of {M : Member}
    (ha : s.member a = some M) : (added env s ch c channel user modes).member a = some M := by
  have hne := ne_of_free ha (h.fresh (Nat.le_refl _)).1
  simpa [added, hne] using ha

theorem added_membership_of {B : Membership} (ha : s.membership a = some B) :
    (added env s ch c channel user modes).membership a = some B := by
  have hne := ne_of_free ha (h.fresh (Nat.le_add_right s.next 2)).2.1
  simpa [added, hne] using ha

theorem added_localMember_of {L : LocalMember} (ha : s.localMember a = some L) :
    (added env s ch c channel user modes).localMember a = some L := by
  have hne := ne_of_free ha (h.fresh (Nat.le_add_right s.next 1)).2.2.1
  by_cases hloc : (s.client c).myConnect = true <;> simpa [added, hloc, hne] using ha

omit h

theorem added_mem_cases (hch : s.channel ch = some channel) {m : Address} {C : Channel}
    (ha : (added env s ch c channel user modes).channel a = some C) :
    m ∈ C.members → (a = ch ∧ m = s.next) ∨ ∃ C', s.channel a = some C' ∧ m ∈ C'.members :=
  update_some_cases ha (fun hm => (mem_cons.mp hm).imp (⟨rfl, ·⟩) (⟨channel, hch, ·⟩))
    fun _ ha' hm => .inr ⟨C, ha', hm⟩

theorem added_mem_user_cases (huser : (s.client c).user = some user) {mb : Address} {u : User}
    (ha : ((added env s ch c channel user modes).client a).user = some u) :
    mb ∈ u.channel → (a = c ∧ mb = s.next + 2) ∨ ∃ u', (s.client a).user = some u' ∧ mb ∈ u'.channel :=
  update_user_cases ha (fun hmb => (mem_cons.mp hmb).imp (⟨rfl, ·⟩) (⟨user, huser, ·⟩))
    fun _ ha' hmb => .inr ⟨u, ha', hmb⟩

/-- A user that is added to a channel gets a member and a membership that point to each other. -/
theorem add (h : ConsistentBut env s surplus) (hch : s.channel ch = some channel)
    (huser : (s.client c).user = some user) (modes : List Char) :
    ConsistentBut env (added env s ch c channel user modes) surplus := by
  have hmember : ∀ {a C}, s.channel a = some C → s.next ∉ C.members := by
    intro a C ha hm
    obtain ⟨c', modes', mb, lm, u, hM, -⟩ := h.member ha hm
    exact ne_of_free hM (h.fresh (Nat.le_refl _)).1 rfl
  have hmembership : ∀ {a u}, (s.client a).user = some u → s.next + 2 ∉ u.channel := by
    intro a u ha hmb
    obtain ⟨ch', modes', m, lm, C, hB, -⟩ := h.membership ha hmb
    exact ne_of_free hB (h.fresh (Nat.le_add_right s.next 2)).2.1 rfl
  have hlocal : ∀ {a C}, s.channel a = some C → s.next + 1 ∉ C.localMembers := by
    intro a C ha hlm
    obtain ⟨m, c', modes', mb, -, hM⟩ := (h.local_iff ha).mp hlm
    exact ne_of_free (h.local_ptr hM) (h.fresh (Nat.le_add_right s.next 1)).2.2.1 rfl
  exact { h with
    member := by
      intro a C m ha hm
      rcases added_mem_cases hch ha hm with ⟨rfl, rfl⟩ | ⟨C', ha', hm'⟩
      · exact ⟨c, _, s.next + 2, _, _, added_member_self, added_membership_self, added_user_self,
          mem_cons_self⟩
      · obtain ⟨c', modes', mb, lm, u, hM, hB, hu, hmb⟩ := h.member ha' hm'
        obtain ⟨u', hu'⟩ := exists_update_user (P := (mb ∈ User.channel ·)) ⟨_ :: user.channel, _⟩ huser
          (mem_cons_of_mem _) hu hmb
        exact ⟨c', modes', mb, lm, u', h.added_member_of hM, h.added_membership_of hB, hu'⟩
    membership := by
      intro a u mb ha hmb
      rcases added_mem_user_cases huser ha hmb with ⟨rfl, rfl⟩ | ⟨u', ha', hmb'⟩
      · exact ⟨ch, _, s.next, _, _, added_membership_self, added_member_self, added_channel_self,
          mem_cons_self⟩
      · obtain ⟨ch', modes', m, lm, C, hB, hM, hC, hm⟩ := h.membership ha' hmb'
        obtain ⟨C', hC'⟩ := exists_update (P := (m ∈ Channel.members ·)) (addedChannel s c channel) hch
          (mem_cons_of_mem _) hC hm
        exact ⟨ch', modes', m, lm, C', h.added_membership_of hB, h.added_member_of hM, hC'⟩
    members_nodup := fun ha => update_some_cases ha
      (nodup_cons.mpr ⟨hmember hch, h.members_nodup hch⟩) fun _ => h.members_nodup
    memberships_nodup := fun ha => update_user_cases ha
      (nodup_cons.mpr ⟨hmembership huser, h.memberships_nodup huser⟩) fun _ => h.memberships_nodup
    local_iff := by
      intro a C lm ha
      refine update_some_cases ha ?_ fun hne ha' => ?_
      · -- the new member comes first in both lists, if it is local
        have hnew : (∃ m c' modes' mb, m ∈ (addedChannel s c channel).members ∧
            (added env s ch c channel user modes).member m = some ⟨c', modes', mb, some lm⟩) ↔
            ((s.client c).myConnect = true ∧ lm = s.next + 1) ∨ lm ∈ channel.localMembers := by
          constructor
          · rintro ⟨m, c', modes', mb, hm, hM⟩
            rcases added_member_cases hM with ⟨rfl, hM'⟩ | ⟨hne, hM'⟩
            · left
              have hlm : (if (s.client c).myConnect then some (s.next + 1) else none) = some lm :=
                (congrArg Member.localMember hM').symm
              split_ifs at hlm with hloc
              exact ⟨hloc, (some.inj hlm).symm⟩
            · right
              rcases mem_cons.mp hm with rfl | hm'
              · exact absurd rfl hne
              · exact (h.local_iff hch).mpr ⟨m, c', modes', mb, hm', hM'⟩
          · rintro (⟨hloc, rfl⟩ | hlm)
            · refine ⟨s.next, c, modes.foldl (addLetterToMstring env) [], s.next + 2,
                mem_cons_self, ?_⟩
              rw [added_member_self, addedMember, if_pos hloc]
            · obtain ⟨m, c', modes', mb, hm, hM⟩ := (h.local_iff hch).mp hlm
              exact ⟨m, c', modes', mb, mem_cons_of_mem _ hm, h.added_member_of hM⟩
        rw [hnew]
        by_cases hloc : (s.client c).myConnect = true <;> simp [addedChannel, hloc]
      · rw [h.local_iff ha']
        refine ⟨fun ⟨m, c', modes', mb, hm, hM⟩ => ⟨m, c', modes', mb, hm, h.added_member_of hM⟩, ?_⟩
        rintro ⟨m, c', modes', mb, hm, hM⟩
        rcases added_member_cases hM with ⟨rfl, -⟩ | ⟨-, hM'⟩
        · exact absurd hm (hmember ha')
        · exact ⟨m, c', modes', mb, hm, hM'⟩
    local_ptr := by
      intro m c' modes' mb lm hM
      rcases added_member_cases hM with ⟨rfl, hM'⟩ | ⟨-, hM'⟩
      · have hlm : (if (s.client c).myConnect then some (s.next + 1) else none) = some lm :=
          (congrArg Member.localMember hM').symm
        split_ifs at hlm with hloc
        obtain rfl := some.inj hlm
        simp [added, hloc]
      · exact h.added_localMember_of (h.local_ptr hM')
    local_connect := by
      intro m c' modes' mb lm hM
      rw [added_myConnect]
      rcases added_member_cases hM with ⟨rfl, hM'⟩ | ⟨-, hM'⟩
      · obtain ⟨rfl, -, -, rfl⟩ := Member.mk.inj hM'
        by_cases hloc : (s.client c').myConnect = true <;> simp [hloc]
      · exact h.local_connect hM'
    locals_nodup := fun ha => update_some_cases ha (by
      by_cases hloc : (s.client c).myConnect = true
      · simpa [addedChannel, hloc, hlocal hch] using h.locals_nodup hch
      · simpa [addedChannel, hloc] using h.locals_nodup hch) fun _ => h.locals_nodup
    users := fun ha => update_some_cases ha (by
      have := h.users hch
      simp only [addedChannel, length_cons]
      omega) fun _ => h.users
    joined := fun ha => update_user_cases ha (by simp [h.joined huser]) fun _ => h.joined
    channels_iff := (h.registry hch (addedChannel s c channel) rfl).1
    table_iff := (h.registry hch (addedChannel s c channel) rfl).2
    fresh := by
      intro a ha
      have hlt : s.next + 2 < a := ha
      have hle := Nat.le_trans (Nat.le_add_right _ 3) ha
      have h0 := Nat.ne_of_gt (Nat.lt_of_le_of_lt (Nat.le_add_right _ 2) hlt)
      have h1 := Nat.ne_of_gt (Nat.lt_of_succ_lt hlt)
      have h2 := Nat.ne_of_gt hlt
      obtain ⟨hM, hB, hL, hC⟩ := h.fresh hle
      have hac := (ne_of_free hch hC).symm
      refine ⟨by simpa [added, h0] using hM, by simpa [added, h2] using hB, ?_,
        by simpa [added, hac] using hC⟩
      by_cases hloc : (s.client c).myConnect = true <;> simpa [added, hloc, h1] using hL }

end ConsistentBut

/-! ## The end of a membership -/

/-- The channel after a member has been taken out of its lists. -/
def unlinkedChannel (channel : Channel) (m : Address) (lm : Option Address) : Channel :=
  { channel with
    members := channel.members.erase m
    localMembers := match lm with
      | some lm => channel.localMembers.erase lm
      | none => channel.localMembers }

/-- The server after the member `m` and the membership `mb` have been taken out. -/
def unlinked (s : Server) (ch c m mb : Address) (lm : Option Address) (channel : Channel)
    (user : User) : Server :=
  { s with
    member := update s.member m none
    membership := update s.membership mb none
    localMember := match lm with
      | some lm => update s.localMember lm none
      | none => s.localMember
    channel := update s.channel ch (some (unlinkedChannel channel m lm))
    client := update s.client c { s.client c with
      user := some ⟨user.channel.erase mb, user.joined - 1⟩ } }

section
variable {s : Server} {ch c m mb : Address} {lm : Option Address} {channel : Channel} {user : User}
  {modes : List Char}

theorem unlinkMembership_eq (hB : s.membership mb = some ⟨ch, modes, m⟩)
    (hM : s.member m = some ⟨c, modes, mb, lm⟩) (hch : s.channel ch = some channel)
    (huser : (s.client c).user = some user) :
    s.unlinkMembership c ch mb = some (unlinked s ch c m mb lm channel user) := by
  cases lm <;> simp [Server.unlinkMembership, hB, hM, hch, huser, unlinked, unlinkedChannel]

variable {a : Address}

theorem unlinked_member_iff {M : Member} :
    (unlinked s ch c m mb lm channel user).member a = some M ↔ a ≠ m ∧ s.member a = some M := by
  by_cases ha : a = m <;> simp [unlinked, ha]

theorem unlinked_membership_iff {B : Membership} :
    (unlinked s ch c m mb lm channel user).membership a = some B ↔
      a ≠ mb ∧ s.membership a = some B := by
  by_cases ha : a = mb <;> simp [unlinked, ha]

theorem unlinked_myConnect (a : Address) :
    ((unlinked s ch c m mb lm channel user).client a).myConnect = (s.client a).myConnect := by
  by_cases ha : a = c <;> simp [unlinked, ha]

end

namespace ConsistentBut

variable {s : Server} {ch c m mb : Address} {lm : Option Address} {channel : Channel} {user : User}
  {modes : List Char}

/-- A member that is taken out leaves one user too many in the count. -/
theorem unlink (h : Consistent env s) (hB : s.membership mb = some ⟨ch, modes, m⟩)
    (hM : s.member m = some ⟨c, modes, mb, lm⟩) (hch : s.channel ch = some channel)
    (hm : m ∈ channel.members) (huser : (s.client c).user = some user) (hmb : mb ∈ user.channel) :
    ConsistentBut env (unlinked s ch c m mb lm channel user) (update (fun _ => 0) ch 1) := by
  -- a member is the one that is taken out exactly if its membership is
  have hpair : ∀ {m' mb' c' ch' modes' lm'}, s.member m' = some ⟨c', modes', mb', lm'⟩ →
      s.membership mb' = some ⟨ch', modes', m'⟩ → (m' = m ↔ mb' = mb) := by
    intro m' mb' c' ch' modes' lm' hM' hB'
    constructor
    · rintro rfl
      rw [hM] at hM'
      exact (congrArg Member.related (some.inj hM')).symm
    · rintro rfl
      rw [hB] at hB'
      exact (congrArg Membership.related (some.inj hB')).symm
  have helsewhere : ∀ {a C}, a ≠ ch → s.channel a = some C → m ∉ C.members := by
    intro a C hne ha hm'
    obtain ⟨c', modes', mb', lm', u, hM', hB', -⟩ := h.member ha hm'
    obtain rfl : mb' = mb := (hpair hM' hB').mp rfl
    rw [hB] at hB'
    exact hne (congrArg Membership.channel (some.inj hB')).symm
  -- and exactly if its local member is
  have hlocal : ∀ {m' c' modes' mb' l}, s.member m' = some ⟨c', modes', mb', some l⟩ →
      (m' = m ↔ lm = some l) := by
    intro m' c' modes' mb' l hM'
    constructor
    · rintro rfl
      rw [hM] at hM'
      exact congrArg Member.localMember (some.inj hM')
    · rintro rfl
      have hptr := h.local_ptr hM
      rw [h.local_ptr hM'] at hptr
      exact congrArg LocalMember.ptr (some.inj hptr)
  exact { h with
    member := by
      intro a C m' ha hm'
      obtain ⟨C', hne, ha', hm''⟩ : ∃ C', m' ≠ m ∧ s.channel a = some C' ∧ m' ∈ C'.members := by
        revert hm'
        refine update_some_cases ha (fun hm' => ?_) fun hne ha' hm' => ⟨C, ?_, ha', hm'⟩
        · obtain ⟨hne, hm''⟩ := (h.members_nodup hch).mem_erase_iff.mp hm'
          exact ⟨channel, hne, hch, hm''⟩
        · rintro rfl
          exact helsewhere hne ha' hm'
      obtain ⟨c', modes', mb', lm', u, hM', hB', hu, hmb'⟩ := h.member ha' hm''
      have hne' : mb' ≠ mb := fun heq => hne ((hpair hM' hB').mpr heq)
      obtain ⟨u', hu'⟩ := exists_update_user (P := (mb' ∈ User.channel ·)) ⟨user.channel.erase mb, _⟩
        huser (mem_erase_of_ne hne').mpr hu hmb'
      exact ⟨c', modes', mb', lm', u', unlinked_member_iff.mpr ⟨hne, hM'⟩,
        unlinked_membership_iff.mpr ⟨hne', hB'⟩, hu'⟩
    membership := by
      intro a u mb' ha hmb'
      obtain ⟨u', hne, ha', hmb''⟩ : ∃ u', mb' ≠ mb ∧ (s.client a).user = some u' ∧
          mb' ∈ u'.channel := by
        revert hmb'
        refine update_user_cases ha (fun hmb' => ?_) fun hne ha' hmb' => ⟨u, ?_, ha', hmb'⟩
        · obtain ⟨hne, hmb''⟩ := (h.memberships_nodup huser).mem_erase_iff.mp hmb'
          exact ⟨user, hne, huser, hmb''⟩
        · rintro rfl
          obtain ⟨ch', modes', m', lm', C, hB', hM', -⟩ := h.membership ha' hmb'
          obtain rfl : m' = m := (hpair hM' hB').mpr rfl
          rw [hM] at hM'
          exact hne (congrArg Member.client (some.inj hM')).symm
      obtain ⟨ch', modes', m', lm', C, hB', hM', hC, hm'⟩ := h.membership ha' hmb''
      have hne' : m' ≠ m := fun heq => hne ((hpair hM' hB').mp heq)
      obtain ⟨C', hC'⟩ := exists_update (P := (m' ∈ Channel.members ·)) (unlinkedChannel channel m lm) hch
        (mem_erase_of_ne hne').mpr hC hm'
      exact ⟨ch', modes', m', lm', C', unlinked_membership_iff.mpr ⟨hne, hB'⟩,
        unlinked_member_iff.mpr ⟨hne', hM'⟩, hC'⟩
    members_nodup := fun ha => update_some_cases ha ((h.members_nodup hch).erase m)
      fun _ => h.members_nodup
    memberships_nodup := fun ha => update_user_cases ha ((h.memberships_nodup huser).erase mb)
      fun _ => h.memberships_nodup
    local_iff := by
      intro a C l ha
      refine update_some_cases ha ?_ fun hne ha' => ?_
      · have hlist : l ∈ (unlinkedChannel channel m lm).localMembers ↔
            lm ≠ some l ∧ l ∈ channel.localMembers := by
          cases lm with
          | none => simp [unlinkedChannel]
          | some l' =>
            have := (h.locals_nodup hch).mem_erase_iff (a := l) (b := l')
            simpa [unlinkedChannel, eq_comm] using this
        rw [hlist, h.local_iff hch]
        constructor
        · rintro ⟨hlm, m', c', modes', mb', hm', hM'⟩
          have hne : m' ≠ m := fun heq => hlm ((hlocal hM').mp heq)
          exact ⟨m', c', modes', mb', (mem_erase_of_ne hne).mpr hm',
            unlinked_member_iff.mpr ⟨hne, hM'⟩⟩
        · rintro ⟨m', c', modes', mb', hm', hM'⟩
          obtain ⟨hne, hM''⟩ := unlinked_member_iff.mp hM'
          exact ⟨fun hlm => hne ((hlocal hM'').mpr hlm), m', c', modes', mb',
            mem_of_mem_erase hm', hM''⟩
      · rw [h.local_iff ha']
        constructor
        · rintro ⟨m', c', modes', mb', hm', hM'⟩
          have hne' : m' ≠ m := by rintro rfl; exact helsewhere hne ha' hm'
          exact ⟨m', c', modes', mb', hm', unlinked_member_iff.mpr ⟨hne', hM'⟩⟩
        · rintro ⟨m', c', modes', mb', hm', hM'⟩
          exact ⟨m', c', modes', mb', hm', (unlinked_member_iff.mp hM').2⟩
    local_ptr := by
      intro m' c' modes' mb' l hM'
      obtain ⟨hne, hM''⟩ := unlinked_member_iff.mp hM'
      have hlm : lm ≠ some l := fun heq => hne ((hlocal hM'').mpr heq)
      cases lm with
      | none => exact h.local_ptr hM''
      | some l' =>
        have hl : l ≠ l' := fun heq => hlm (by rw [heq])
        simpa [unlinked, hl] using h.local_ptr hM''
    local_connect := by
      intro m' c' modes' mb' l hM'
      rw [unlinked_myConnect]
      exact h.local_connect (unlinked_member_iff.mp hM').2
    locals_nodup := fun ha => update_some_cases ha (by
      cases lm with
      | none => exact (h.locals_nodup hch :)
      | some l => exact (h.locals_nodup hch).erase l) fun _ => h.locals_nodup
    users := fun ha => update_some_cases ha (by
      have hlen := length_erase_of_mem hm
      have hpos := length_pos_of_mem hm
      have := h.users hch
      simp only [unlinkedChannel, update_self]
      omega) fun hne ha' => by
      rw [update_of_ne hne]
      exact h.users ha'
    joined := fun ha => update_user_cases ha (by
      have hlen := length_erase_of_mem hmb
      have hpos := length_pos_of_mem hmb
      have := h.joined huser
      simp only
      omega) fun _ => h.joined
    channels_iff := (h.registry hch (unlinkedChannel channel m lm) rfl).1
    table_iff := (h.registry hch (unlinkedChannel channel m lm) rfl).2
    fresh := by
      intro a ha
      obtain ⟨hM', hB', hL, hC⟩ := h.fresh ha
      have hac := (ne_of_free hch hC).symm
      refine ⟨?_, ?_, ?_, by simpa [unlinked, hac] using hC⟩
      · by_cases ham : a = m <;> simp [unlinked, ham, hM']
      · by_cases ham : a = mb <;> simp [unlinked, ham, hB']
      · cases lm with
        | none => exact hL
        | some l => by_cases hal : a = l <;> simp [unlinked, hal, hL] }

end ConsistentBut

end ObbyIRCd.Members
