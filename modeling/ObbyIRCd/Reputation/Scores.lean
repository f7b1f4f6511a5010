import ObbyIRCd.Reputation.Model

/-!
# Connected users earn reputation

The event `add_scores` walks over the clients and gives the address of each user a point, or two if the
user is logged in. Users can share an address, so an entry's `marker` records what the address has got
in this run: `marker` for one point, `marker + 1` for two. The entry after some of the users therefore
depends on no more than whether one of them was logged in (`earned`). Left out are the copy of the score
at the client and the cache of known users, which the event writes and does not read.
-/

namespace ObbyIRCd.Reputation

variable {Ip : Type*}

/-- `struct ReputationEntry` without its address. -/
structure ReputationEntry where
  score : ℕ
  lastSeen : ℤ
  marker : ℕ
deriving DecidableEq

/-- What the event reads of a client. -/
structure Client (Ip : Type*) where
  isUser : Bool
  ip : Option Ip
  highestChannelMemberCount : ℤ
  loggedIn : Bool

/-- The table and the static `marker`. An entry starts with the marker 0 and gets others here only. -/
structure Scores (Ip : Type*) where
  marker : ℕ
  table : Ip → Option ReputationEntry
  earlier : ∀ ip e, table ip = some e → e.marker ≤ marker + 1

/-- The entry of an address, which is made if there is none. -/
def entry (t : Ip → Option ReputationEntry) (ip : Ip) : ReputationEntry := (t ip).getD ⟨0, 0, 0⟩

/-- The checks of a client: the address whose entry is bumped. -/
def Client.scored (requireMinimum : ℤ) (c : Client Ip) : Option Ip :=
  if !c.isUser then none
  else if requireMinimum > 0 ∧ c.highestChannelMemberCount < requireMinimum then none
  else c.ip

namespace ReputationEntry

variable (marker : ℕ) (now : ℤ) (loggedIn : Bool) (e : ReputationEntry)

/-- What one user does to the entry of its address. -/
def bump : ReputationEntry :=
  if e.marker ≠ marker ∧ e.marker ≠ marker + 1 then
    if e.score < scoreCap then
      if loggedIn ∧ e.score + 1 < scoreCap then ⟨e.score + 2, now, marker + 1⟩
      else ⟨e.score + 1, now, marker⟩
    else ⟨e.score, now, marker⟩
  else if e.marker = marker ∧ loggedIn ∧ e.score < scoreCap then ⟨e.score + 1, now, marker + 1⟩
  else ⟨e.score, now, e.marker⟩

/-- The entry after users of its address have been visited, `loggedIn` if one of them is. -/
def earned : ReputationEntry where
  score := max e.score (min scoreCap (e.score + if loggedIn then 2 else 1))
  lastSeen := now
  marker := if loggedIn ∧ e.score + 1 < scoreCap then marker + 1 else marker

variable {marker e}

theorem bump_eq_earned (h : e.marker < marker) :
    e.bump marker now loggedIn = e.earned marker now loggedIn := by
  have hne : e.marker ≠ marker ∧ e.marker ≠ marker + 1 := by omega
  unfold bump earned
  rw [if_pos hne]
  by_cases hcap : e.score < scoreCap
  · by_cases htwo : e.score + 1 < scoreCap <;> cases loggedIn <;> simp [hcap, htwo] <;> omega
  · have htwo : ¬ e.score + 1 < scoreCap := by omega
    simp [hcap, htwo]
    omega

/-- A later user of the same address adds what the address has not got yet. -/
theorem bump_earned (before : Bool) : (e.earned marker now before).bump marker now loggedIn =
    e.earned marker now (before || loggedIn) := by
  by_cases htwo : e.score + 1 < scoreCap
  · have hcap := Nat.lt_of_succ_lt htwo
    cases before <;> cases loggedIn <;> simp [bump, earned, htwo, hcap]
    omega
  · cases before <;> cases loggedIn <;> simp [bump, earned, htwo] <;> omega

end ReputationEntry

theorem Scores.marker_lt (s : Scores Ip) (ip : Ip) : (entry s.table ip).marker < s.marker + 2 := by
  unfold entry
  rcases he : s.table ip with - | e
  · exact Nat.succ_pos _
  · exact Nat.lt_succ_of_le (s.earlier ip e he)

variable [DecidableEq Ip] (requireMinimum now : ℤ)

def addScore (marker : ℕ) (t : Ip → Option ReputationEntry) (c : Client Ip) :
    Ip → Option ReputationEntry :=
  match c.scored requireMinimum with
  | none => t
  | some ip => Function.update t ip (some ((entry t ip).bump marker now c.loggedIn))

variable (clients : List (Client Ip))

/-- The users of an address that count. -/
def eligible (ip : Ip) : List (Client Ip) :=
  clients.filter fun c => c.scored requireMinimum = some ip

theorem foldl_addScore {t : Ip → Option ReputationEntry} {marker : ℕ} {ip : Ip}
    (h : (entry t ip).marker < marker) :
    clients.foldl (addScore requireMinimum now marker) t ip =
      if eligible requireMinimum clients ip = [] then t ip
      else some ((entry t ip).earned marker now
        ((eligible requireMinimum clients ip).any (·.loggedIn))) := by
  -- over the clients in the order in which they are visited
  induction clients using List.reverseRecOn with
  | nil => rfl
  | append_singleton l c ih =>
    have happend : eligible requireMinimum (l ++ [c]) ip = eligible requireMinimum l ip ++
        if c.scored requireMinimum = some ip then [c] else [] := by
      simp [eligible, List.filter_append, List.filter_singleton]
    rw [List.foldl_concat, addScore, happend]
    rcases hc : c.scored requireMinimum with - | a
    · simpa using ih
    · by_cases ha : a = ip
      · subst ha
        by_cases hl : eligible requireMinimum l a = []
        · rw [if_pos hl] at ih
          have he : entry (l.foldl (addScore requireMinimum now marker) t) a = entry t a := by
            rw [entry, ih, entry]
          simp [he, hl, ReputationEntry.bump_eq_earned _ _ h]
        · rw [if_neg hl] at ih
          simp [entry, ih, ReputationEntry.bump_earned]
      · simpa [ha, Function.update_of_ne (Ne.symm ha)] using ih

variable (s : Scores Ip)

theorem addScores_earlier (ip : Ip) (e : ReputationEntry)
    (he : clients.foldl (addScore requireMinimum now (s.marker + 2)) s.table ip = some e) :
    e.marker ≤ s.marker + 2 + 1 := by
  rw [foldl_addScore _ _ _ (s.marker_lt ip)] at he
  split_ifs at he
  · have := s.earlier ip e he
    omega
  · obtain rfl := Option.some.inj he
    simp only [ReputationEntry.earned]
    split_ifs <;> omega

/-- The event `add_scores`. -/
def addScores : Scores Ip where
  marker := s.marker + 2
  table := clients.foldl (addScore requireMinimum now (s.marker + 2)) s.table
  earlier := addScores_earlier requireMinimum now clients s

/-- A run of the event raises the score of each address that has eligible users, by two points if one
of them is logged in and by one otherwise, up to the cap. It changes no other entry, and the order of
the clients does not matter. -/
theorem addScores_spec :
    (∀ ip, (addScores requireMinimum now clients s).table ip =
      if eligible requireMinimum clients ip = [] then s.table ip
      else some ((entry s.table ip).earned (s.marker + 2) now
        ((eligible requireMinimum clients ip).any (·.loggedIn)))) ∧
    ∀ clients', clients.Perm clients' →
      (addScores requireMinimum now clients' s).table =
        (addScores requireMinimum now clients s).table := by
  have htable := fun clients ip => foldl_addScore requireMinimum now clients (s.marker_lt ip)
  refine ⟨htable clients, fun clients' hperm => funext fun ip => ?_⟩
  have hp : (eligible requireMinimum clients ip).Perm (eligible requireMinimum clients' ip) :=
    hperm.filter _
  simp only [addScores, htable, hp.any_eq, ← List.length_eq_zero_iff, hp.length_eq]

/-- Two users of one address, in either order. -/
theorem addScores_swap : ∃ s : Scores ℕ,
    (addScores 0 7 [⟨true, some 1, 0, true⟩, ⟨true, some 1, 0, false⟩] s).table =
      (addScores 0 7 [⟨true, some 1, 0, false⟩, ⟨true, some 1, 0, true⟩] s).table :=
  ⟨⟨0, fun _ => none, by simp⟩, (addScores_spec 0 7 _ _).2 _ (.swap _ _ _)⟩

end ObbyIRCd.Reputation
