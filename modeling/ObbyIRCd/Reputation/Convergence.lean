import Mathlib.Tactic.Ring
import ObbyIRCd.Reputation.Model

/-!
# The scores of a network converge

A server sends its score for an address, and everything that this sets off is delivered in some order.

A message only ever moves away from the server it names as its source, since a server passes it on to
every link but the one it came over (`Sound.message`). A message that allows answers is the one that
the first server sent, and may set off one message without answers at each server; so the messages
have weights that decrease, and the exchange ends (`weight_lt`).

For the scores, `Covered k x` says that the server `x` has a score of at least `k` or that a message
with such a score is on its way to `x`. No delivery undoes it (`Covered.step`). Behind a message that
allows answers all servers are covered at its score (`Sound.behind`), and when it comes to a server
with the largest score, that server answers or the message has nearly that score, and all are covered.
-/

namespace ObbyIRCd.Reputation

open List Network SimpleGraph
open Fintype (card)

variable {V Ip : Type*}

/-! ## One message -/

variable {k : ℕ}

/-- The text that a server sends is read back by the next one. -/
theorem parseScore_scoreText (allowReply : Bool) (hk : k ≤ scoreCap) :
    parseScore (scoreText allowReply k false) = ⟨k, allowReply, false⟩ := by
  have hlt : k < 2 ^ 31 := by unfold scoreCap at hk; omega
  have hclamp : clampScore k = k := by
    unfold clampScore
    omega
  cases allowReply with
  | true =>
    have htext : scoreText true k false = decimal k := by simp [scoreText]
    rw [htext]
    unfold parseScore
    split
    · rename_i rest heq
      have hstar : '*' ∈ decimal k := by rw [heq]; exact mem_cons_self
      exact absurd (isDigit_of_mem_decimal hstar) (by decide)
    · rw [atoi_decimal hlt, hclamp]
  | false =>
    have htext : scoreText false k false = '*' :: decimal k := by simp [scoreText]
    have hlast : (decimal k).getLast? ≠ some '*' := by
      intro h
      exact absurd (isDigit_of_mem_decimal (mem_of_getLast? h)) (by decide)
    calc parseScore (scoreText false k false)
        = ⟨clampScore (atoi (decimal k)), false, (decimal k).getLast? == some '*'⟩ := by
          rw [htext]; rfl
      _ = ⟨k, false, false⟩ := by rw [atoi_decimal hlt, hclamp, beq_false_of_ne hlast]

/-- The message of `client` about `ip` that is not forced. -/
def announce (client : V) (ip : Ip) (allowReply : Bool) (k : ℕ) : Message V Ip :=
  ⟨client, ip, scoreText allowReply k false⟩

def Message.value (m : Message V Ip) : ℕ := (parseScore m.score).score

def Message.allowReply (m : Message V Ip) : Bool := (parseScore m.score).allowReply

theorem announce_value {c : V} {ip : Ip} {r : Bool} (hk : k ≤ scoreCap) :
    (announce c ip r k).value = k := by
  simp [announce, Message.value, parseScore_scoreText r hk]

theorem announce_allowReply {c : V} {ip : Ip} {r : Bool} (hk : k ≤ scoreCap) :
    (announce c ip r k).allowReply = r := by
  simp [announce, Message.allowReply, parseScore_scoreText r hk]

/-- A server with score `e` answers a message with score `k`. -/
def Answers (allowReply : Bool) (k e : ℕ) : Prop := allowReply = true ∧ k + updateScoreMargin < e

instance (r : Bool) (k e : ℕ) : Decidable (Answers r k e) := by unfold Answers; infer_instance

def passedOn (allowReply : Bool) (k e : ℕ) : ℕ := if Answers allowReply k e then e else k

theorem le_passedOn (r : Bool) (k e : ℕ) : k ≤ passedOn r k e := by
  unfold passedOn
  split_ifs with h
  · have := h.2
    omega
  · exact le_rfl

theorem passedOn_le (r : Bool) (k e : ℕ) : passedOn r k e ≤ max e k := by
  unfold passedOn
  split_ifs <;> omega

/-! ## A state of the exchange -/

section
variable (G : SimpleGraph V)

/-- The server `x` has a score of at least `k`, or a message with such a score is on its way to it. -/
def Covered (ip : Ip) (net : Network V (Table Ip) (Message V Ip)) (k : ℕ) (x : V) : Prop :=
  k ≤ lookupScore (net.node x) ip ∨ ∃ a b, ∃ m ∈ net.link a b, k ≤ m.value ∧ G.dist b x < G.dist a x

/-- The invariant of an exchange about `ip` in which no score exceeds `bound`. -/
structure Sound (ip : Ip) (bound : ℕ) (net : Network V (Table Ip) (Message V Ip)) : Prop where
  /-- A message is not forced, goes over a link of the network and leads away from its source. -/
  message : ∀ a b, ∀ m ∈ net.link a b, ∃ r k, m = announce m.client ip r k ∧ k ≤ bound ∧
    G.Adj a b ∧ G.dist m.client b = G.dist m.client a + 1
  score : ∀ v, lookupScore (net.node v) ip ≤ bound
  /-- Behind a message that allows answers every server is covered at its score. -/
  behind : ∀ a b, ∀ m ∈ net.link a b, m.allowReply = true →
    ∀ x, ¬ G.dist b x < G.dist a x → Covered G ip net m.value x

end

variable {ip : Ip}

theorem Covered.mono {G : SimpleGraph V} {net : Network V (Table Ip) (Message V Ip)}
    {j : ℕ} {x : V} (hc : Covered G ip net k x) (hjk : j ≤ k) : Covered G ip net j x := by
  rcases hc with hscore | ⟨a, b, m', hm', hk, hside⟩
  · exact .inl (hjk.trans hscore)
  · exact .inr ⟨a, b, m', hm', hjk.trans hk, hside⟩

/-- The weight of a message: a message that allows answers weighs more than all the messages that it
can set off, and the weight of either kind drops with each link. -/
noncomputable def weight [Fintype V] (G : SimpleGraph V) (_ b : V) (m : Message V Ip) : ℕ :=
  (card V + 1) ^
    ((if m.allowReply then 2 * card V + 1 else card V) - G.dist m.client b)

theorem weight_announce [Fintype V] {G : SimpleGraph V} (a b c : V) (r : Bool) (hk : k ≤ scoreCap) :
    weight G a b (announce c ip r k) =
      (card V + 1) ^
        ((if r then 2 * card V + 1 else card V) - G.dist c b) := by
  unfold weight
  rw [announce_allowReply hk]
  rfl

/-! ## One delivery -/

variable [DecidableEq Ip]

/-- A message that is not forced raises the score to its own if that is higher, is answered by a
server that knows a clearly higher score, and is passed on. -/
theorem reputationServerCmd_announce (me c : V) (ip : Ip) (r : Bool) (hk : k ≤ scoreCap)
    (t : Table Ip) :
    lookupScore (reputationServerCmd me (announce c ip r k) t).table ip = max (lookupScore t ip) k ∧
      (reputationServerCmd me (announce c ip r k) t).reply =
        (if Answers r k (lookupScore t ip) then some (announce me ip false (lookupScore t ip))
          else none) ∧
      (reputationServerCmd me (announce c ip r k) t).propagate =
        some (announce c ip r (passedOn r k (lookupScore t ip))) := by
  have htext : scoreText r k false ≠ [] := by
    have := decimal_ne_nil k
    cases r <;> simp [scoreText, this]
  unfold reputationServerCmd
  rw [if_neg (show (announce c ip r k).score ≠ [] from htext)]
  simp only [announce, parseScore_scoreText r hk]
  rcases he : t ip with - | e
  · -- no entry: one is made unless the score is 0
    have hno : ¬ Answers r k 0 := by rintro ⟨-, h⟩; omega
    by_cases hpos : 0 < k
    · simp [lookupScore, he, hno, passedOn, hpos]
    · obtain rfl : k = 0 := by omega
      simp [lookupScore, he, hno, passedOn]
  · have hlookup : lookupScore t ip = e := by simp [lookupScore, he]
    have hiff : (r && decide (e > k ∧ e - k > updateScoreMargin)) = true ↔ Answers r k e := by
      simp only [Bool.and_eq_true, decide_eq_true_eq]
      exact and_congr_right fun _ => by omega
    by_cases hans : Answers r k e
    · have hlt : k < e := by have := hans.2; omega
      simp only [hiff.mpr hans, hlookup, passedOn, if_pos hans, if_true, Bool.false_eq_true,
        if_false, gt_iff_lt, lt_irrefl, and_self, and_true]
      simp [lookupScore, hlt.le]
    · have hfalse : (r && decide (e > k ∧ e - k > updateScoreMargin)) = false :=
        Bool.eq_false_iff.mpr fun h => hans (hiff.mp h)
      simp only [hfalse, hlookup, passedOn, if_neg hans, Bool.false_eq_true, if_false,
        and_self, and_true]
      by_cases hgt : k > e
      · simp [lookupScore, hgt, hgt.le]
      · have hle : k ≤ e := by omega
        simp [lookupScore, hgt, hle]

variable [DecidableEq V] (G : SimpleGraph V) [DecidableRel G.Adj]

/-- What a server sends on a message: an answer over the link it came from, the message over every
other link. -/
theorem receive_out {v u c : V} {r : Bool} (hk : k ≤ scoreCap) (t : Table Ip)
    (w : V) : (receive G v u (announce c ip r k) t).2 w =
      if G.Adj v w then
        if w = u then
          if Answers r k (lookupScore t ip) then [announce v ip false (lookupScore t ip)] else []
        else [announce c ip r (passedOn r k (lookupScore t ip))]
      else [] := by
  obtain ⟨-, hreply, hprop⟩ := reputationServerCmd_announce v c ip r hk t
  unfold receive
  dsimp only
  rw [hreply, hprop]
  by_cases hans : Answers r k (lookupScore t ip) <;> simp [hans]

theorem mem_receive_out {v u w c : V} {r : Bool} (hk : k ≤ scoreCap)
    {t : Table Ip} {m : Message V Ip} :
    m ∈ (receive G v u (announce c ip r k) t).2 w ↔ G.Adj v w ∧
      ((w = u ∧ Answers r k (lookupScore t ip) ∧ m = announce v ip false (lookupScore t ip)) ∨
        (w ≠ u ∧ m = announce c ip r (passedOn r k (lookupScore t ip)))) := by
  rw [receive_out G hk]
  split_ifs <;> simp_all

/-- The network after the first message from `u` to `v` has been handled. -/
def handled (net : Network V (Table Ip) (Message V Ip)) (u v : V) (m : Message V Ip)
    (rest : List (Message V Ip)) : Network V (Table Ip) (Message V Ip) :=
  net.deliver u v rest (receive G v u m (net.node v)).1 (receive G v u m (net.node v)).2

variable {G} {ip : Ip} {bound : ℕ} {net : Network V (Table Ip) (Message V Ip)} {u v : V}
  {m : Message V Ip} {rest : List (Message V Ip)}

/-- The score of the server that handles a message becomes the larger of the two. -/
theorem lookupScore_handled {c : V} {r : Bool} (hk : k ≤ scoreCap) :
    lookupScore ((handled G net u v (announce c ip r k) rest).node v) ip =
      max (lookupScore (net.node v) ip) k := by
  have hnode : (handled G net u v (announce c ip r k) rest).node v =
      (receive G v u (announce c ip r k) (net.node v)).1 := by simp [handled]
  rw [hnode]
  exact (reputationServerCmd_announce v c ip r hk (net.node v)).1

section

variable (h : Sound G ip bound net) (hcap : bound ≤ scoreCap)
include h hcap

section

variable (hlink : net.link u v = m :: rest)
include hlink

theorem Sound.lookupScore_le (x : V) :
    lookupScore (net.node x) ip ≤ lookupScore ((handled G net u v m rest).node x) ip := by
  obtain ⟨r, k, hm, hk, -, -⟩ := h.message u v m (by rw [hlink]; exact mem_cons_self)
  by_cases hx : x = v
  · subst hx
    rw [hm, lookupScore_handled (hk.trans hcap)]
    exact le_max_left _ _
  · rw [handled, deliver_node_of_ne hx]

/-- A message on its way to `x` stays under way, or is handled: by `x`, or on the way, and then it is
passed on toward `x`. -/
theorem Sound.toward (hG : G.Connected) {a b x : V} {m' : Message V Ip} (hm' : m' ∈ net.link a b)
    (hside : G.dist b x < G.dist a x) :
    (∃ a b, ∃ m'' ∈ (handled G net u v m rest).link a b, m'.value ≤ m''.value ∧
      m''.allowReply = m'.allowReply ∧ G.dist b x < G.dist a x) ∨ x = v ∧ m' = m := by
  by_cases hab : a = u ∧ b = v
  · obtain ⟨rfl, rfl⟩ := hab
    rw [hlink] at hm'
    rcases mem_cons.mp hm' with rfl | hrest
    · by_cases hx : x = b
      · exact .inr ⟨hx, rfl⟩
      -- the next server on the way to `x` is not the one that the message came from
      left
      obtain ⟨r, k, hm, hk, -, -⟩ := h.message a b m' (by rw [hlink]; exact mem_cons_self)
      have hkcap := hk.trans hcap
      obtain ⟨w, hadj, hcloser⟩ := exists_closer hG (Ne.symm hx)
      have hwa : w ≠ a := by rintro rfl; omega
      set e := lookupScore (net.node b) ip
      have hpass := (passedOn_le r k e).trans (max_le ((h.score b).trans hcap) hkcap)
      refine ⟨b, w, announce m'.client ip r (passedOn r k e), ?_, ?_, ?_, hcloser⟩
      · rw [hm]
        exact mem_link_deliver_of_out ((mem_receive_out G hkcap).mpr ⟨hadj, .inr ⟨hwa, rfl⟩⟩)
      · rw [hm, announce_value hkcap, announce_value hpass]
        exact le_passedOn r k e
      · rw [hm, announce_allowReply hkcap, announce_allowReply hpass]
    · exact .inl ⟨a, b, m', mem_link_deliver_of_rest hrest, le_rfl, rfl, hside⟩
  · exact .inl ⟨a, b, m', mem_link_deliver hm' hab, le_rfl, rfl, hside⟩

/-- A server that is covered stays covered: it keeps its score, or the message comes to it. -/
theorem Covered.step (hG : G.Connected) {j : ℕ} {x : V} (hc : Covered G ip net j x) :
    Covered G ip (handled G net u v m rest) j x := by
  rcases hc with hscore | ⟨a, b, m', hm', hj, hside⟩
  · exact .inl (hscore.trans (h.lookupScore_le hcap hlink x))
  rcases h.toward hcap hlink hG hm' hside with ⟨a', b', m'', hm'', hle, -, hside'⟩ | ⟨rfl, rfl⟩
  · exact .inr ⟨a', b', m'', hm'', hj.trans hle, hside'⟩
  obtain ⟨r, k, hm, hk, -, -⟩ := h.message a b m' hm'
  have hkcap := hk.trans hcap
  rw [hm, announce_value hkcap] at hj
  left
  rw [hm, lookupScore_handled hkcap]
  exact hj.trans (le_max_right _ _)

end

/-- When a message that allows answers is handled, every server is covered at the score that is passed
on: beyond the other links by what is passed on, beyond the link it came over by the answer or, without
one, as before. -/
theorem Sound.covered_handled (hG : G.Connected) {c : V} (hk : k ≤ bound)
    (hlink : net.link u v = announce c ip true k :: rest) (x : V) :
    Covered G ip (handled G net u v (announce c ip true k) rest)
      (passedOn true k (lookupScore (net.node v) ip)) x := by
  set e := lookupScore (net.node v) ip with he
  have hkcap := hk.trans hcap
  have hecap := (h.score v).trans hcap
  have hpass := (passedOn_le true k e).trans (max_le hecap hkcap)
  by_cases hx : x = v
  · left
    subst hx
    rw [lookupScore_handled hkcap]
    exact passedOn_le true k e
  · obtain ⟨w, hadj, hcloser⟩ := exists_closer hG (Ne.symm hx)
    by_cases hwu : w = u
    · by_cases hans : Answers true k e
      · right
        refine ⟨v, w, announce v ip false e, ?_, ?_, hcloser⟩
        · exact mem_link_deliver_of_out ((mem_receive_out G hkcap).mpr ⟨hadj, .inl ⟨hwu, hans, rfl⟩⟩)
        · rw [announce_value hecap, passedOn, if_pos hans]
      · have hbehind := h.behind u v _ (by rw [hlink]; exact mem_cons_self)
          (announce_allowReply hkcap) x (by rw [← hwu]; omega)
        rw [announce_value hkcap] at hbehind
        rw [passedOn, if_neg hans]
        exact hbehind.step h hcap hlink hG
    · right
      refine ⟨v, w, announce c ip true (passedOn true k e), ?_, ?_, hcloser⟩
      · exact mem_link_deliver_of_out ((mem_receive_out G hkcap).mpr ⟨hadj, .inr ⟨hwu, rfl⟩⟩)
      · rw [announce_value hpass]

variable (hlink : net.link u v = m :: rest)
include hlink

/-- A message that is handled keeps the invariant. -/
theorem Sound.step (hG : G.IsTree) : Sound G ip bound (handled G net u v m rest) := by
  obtain ⟨r, k, hm, hk, hadj, haway⟩ := h.message u v m (by rw [hlink]; exact mem_cons_self)
  have hkcap := hk.trans hcap
  generalize m.client = c at hm haway
  subst hm
  set e := lookupScore (net.node v) ip with he
  have hpass := (passedOn_le r k e).trans (max_le (h.score v) hk)
  refine ⟨?_, ?_, ?_⟩
  · intro a b m' hm'
    rcases mem_link_deliver_cases hlink hm' with hold | ⟨rfl, hnew⟩
    · exact h.message a b m' hold
    obtain ⟨hab, ⟨rfl, -, rfl⟩ | ⟨hbu, rfl⟩⟩ := (mem_receive_out G hkcap).mp hnew
    · refine ⟨false, e, rfl, h.score a, hab, ?_⟩
      show G.dist a b = G.dist a a + 1
      rw [dist_self, dist_eq_one_iff_adj.mpr hab]
    · exact ⟨r, _, rfl, hpass, hab, farther_of_adj hG hadj hab.symm haway hbu⟩
  · intro x
    by_cases hx : x = v
    · subst hx
      rw [lookupScore_handled hkcap]
      exact max_le (h.score x) hk
    · rw [handled, deliver_node_of_ne hx]
      exact h.score x
  · intro a b m' hm' hreply x hside
    rcases mem_link_deliver_cases hlink hm' with hold | ⟨rfl, hnew⟩
    · exact (h.behind a b m' hold hreply x hside).step h hcap hlink hG.connected
    obtain ⟨-, ⟨-, -, rfl⟩ | ⟨-, rfl⟩⟩ := (mem_receive_out G hkcap).mp hnew
    · cases hreply
    rw [announce_allowReply (hpass.trans hcap)] at hreply
    subst hreply
    rw [announce_value (hpass.trans hcap)]
    exact h.covered_handled hcap hG.connected hk hlink x

/-- A message that allows answers is on its way to `w`, or all are covered nearly at the score `k`. -/
def Informs (G : SimpleGraph V) (ip : Ip) (w : V) (k : ℕ)
    (net : Network V (Table Ip) (Message V Ip)) : Prop :=
  (∃ a b, ∃ m ∈ net.link a b, m.allowReply = true ∧ G.dist b w < G.dist a w) ∨
    ∀ x, Covered G ip net (k - updateScoreMargin) x

/-- The message comes to `w` or is passed on toward it. -/
theorem Informs.step (hG : G.Connected) {w : V} {j : ℕ} (hj : j ≤ lookupScore (net.node w) ip)
    (hi : Informs G ip w j net) : Informs G ip w j (handled G net u v m rest) := by
  rcases hi with ⟨a, b, m', hm', hreply, hside⟩ | hall
  · rcases h.toward hcap hlink hG hm' hside with ⟨a', b', m'', hm'', -, heq, hside'⟩ | ⟨rfl, rfl⟩
    · exact .inl ⟨a', b', m'', hm'', heq.trans hreply, hside'⟩
    -- it has arrived: `w` answers, or the score is nearly its own
    right
    intro x
    obtain ⟨r, k, hm, hk, -, -⟩ := h.message a b m' hm'
    obtain rfl : r = true := by rwa [hm, announce_allowReply (hk.trans hcap)] at hreply
    rw [hm] at hlink ⊢
    refine (h.covered_handled hcap hG hk hlink x).mono ?_
    unfold passedOn
    split_ifs with hans
    · omega
    · have : ¬ k + updateScoreMargin < lookupScore (net.node w) ip := fun hlt => hans ⟨rfl, hlt⟩
      omega
  · exact .inr fun x => (hall x).step h hcap hlink hG

/-! ## The end of the exchange -/

section Weight

variable [Fintype V]

/-- A message weighs more than what is sent when it is handled. -/
theorem Sound.weight_lt (hG : G.IsTree) :
    ∑ w, queueWeight (weight G) v w ((receive G v u m (net.node v)).2 w) < weight G u v m := by
  obtain ⟨r, k, hm, hk, hadj, haway⟩ := h.message u v m (by rw [hlink]; exact mem_cons_self)
  have hkcap := hk.trans hcap
  generalize m.client = c at hm haway
  subst hm
  set e := lookupScore (net.node v) ip with he
  have hecap := (h.score v).trans hcap
  have hpass := (passedOn_le r k e).trans (max_le hecap hkcap)
  set n := card V with hn
  have hdist := dist_lt_card hG.connected c v
  -- the weight of the answer, and of each message that is passed on
  let answer : ℕ := if r then (n + 1) ^ (n - 1) else 0
  let passed : ℕ := (n + 1) ^ ((if r then 2 * n + 1 else n) - (G.dist c v + 1))
  have hone : ∀ w, queueWeight (weight G) v w
      ((receive G v u (announce c ip r k) (net.node v)).2 w) ≤
        (if w = u then answer else 0) + passed := by
    intro w
    rw [receive_out G hkcap]
    split_ifs with hvw hwu hans
    · have hweight : weight G v w (announce v ip false e) = (n + 1) ^ (n - 1) := by
        rw [weight_announce _ _ _ _ hecap, dist_eq_one_iff_adj.mpr hvw]
        simp [hn]
      simp [queueWeight, ← he, hweight, answer, hans.1]
    · simp [queueWeight]
    · have hfar := farther_of_adj hG hadj hvw.symm haway hwu
      simp [queueWeight, ← he, weight_announce _ _ _ _ hpass, hfar, passed, hn]
    any_goals simp [queueWeight]
  have hsum : ∑ w, queueWeight (weight G) v w
      ((receive G v u (announce c ip r k) (net.node v)).2 w) ≤ answer + n * passed := by
    calc ∑ w, queueWeight (weight G) v w
          ((receive G v u (announce c ip r k) (net.node v)).2 w)
        ≤ ∑ w, ((if w = u then answer else 0) + passed) := Finset.sum_le_sum fun w _ => hone w
      _ = answer + n * passed := by
          rw [Finset.sum_add_distrib]
          simp [hn]
  have hweight : weight G u v (announce c ip r k) = passed + n * passed := by
    have hexp : (if r then 2 * n + 1 else n) - G.dist c v =
        (if r then 2 * n + 1 else n) - (G.dist c v + 1) + 1 := by
      split_ifs <;> omega
    calc weight G u v (announce c ip r k)
        = (n + 1) ^ ((if r then 2 * n + 1 else n) - G.dist c v) := weight_announce u v c r hkcap
      _ = passed + n * passed := by rw [hexp]; ring
  have hanswer : answer < passed := by
    cases r with
    | true =>
      show (n + 1) ^ (n - 1) < (n + 1) ^ (2 * n + 1 - (G.dist c v + 1))
      exact Nat.pow_lt_pow_right (by omega) (by omega)
    | false =>
      exact Nat.pow_pos (by omega)
  omega

end Weight

end

variable {tables : V → Table Ip}

omit [DecidableEq Ip] in
theorem mem_link_start {me : V} {a b : V} :
    m ∈ (reputationPreLconnect G me ip tables).link a b ↔
      (a = me ∧ G.Adj a b) ∧ m = announce me ip true (lookupScore (tables me) ip) := by
  simp only [reputationPreLconnect]
  split_ifs with h
  · rw [mem_singleton]
    exact (and_iff_right h).symm
  · simp [h]

omit [DecidableEq Ip] in
/-- The invariant holds when the first server has sent its score. -/
theorem Sound.start (hG : G.Connected) (me : V) (hcap : bound ≤ scoreCap)
    (hbound : ∀ v, lookupScore (tables v) ip ≤ bound) :
    Sound G ip bound (reputationPreLconnect G me ip tables) := by
  have hmecap := (hbound me).trans hcap
  refine ⟨?_, hbound, ?_⟩
  · intro a b m hm
    obtain ⟨⟨rfl, hadj⟩, rfl⟩ := mem_link_start.mp hm
    refine ⟨true, _, rfl, hbound a, hadj, ?_⟩
    show G.dist a b = G.dist a a + 1
    rw [dist_self, dist_eq_one_iff_adj.mpr hadj]
  · intro a b m hm _ x _
    obtain ⟨⟨rfl, -⟩, rfl⟩ := mem_link_start.mp hm
    rw [announce_value hmecap]
    by_cases hx : x = a
    · subst hx
      exact .inl le_rfl
    · obtain ⟨w, hadj, hcloser⟩ := exists_closer hG (Ne.symm hx)
      exact .inr ⟨a, w, _, mem_link_start.mpr ⟨⟨rfl, hadj⟩, rfl⟩,
        (announce_value hmecap).ge, hcloser⟩

omit [DecidableEq Ip] in
theorem Informs.start (hG : G.Connected) (me w : V)
    (hcap : ∀ v, lookupScore (tables v) ip ≤ scoreCap) :
    Informs G ip w (lookupScore (tables w) ip) (reputationPreLconnect G me ip tables) := by
  by_cases hw : w = me
  · -- the first server has the largest score, and all others are told
    right
    subst hw
    intro x
    by_cases hx : x = w
    · subst hx
      exact .inl (Nat.sub_le _ _)
    obtain ⟨y, hadj, hcloser⟩ := exists_closer hG (Ne.symm hx)
    refine .inr ⟨w, y, _, mem_link_start.mpr ⟨⟨rfl, hadj⟩, rfl⟩, ?_, hcloser⟩
    rw [announce_value (hcap w)]
    exact Nat.sub_le _ _
  · left
    obtain ⟨y, hadj, hcloser⟩ := exists_closer hG (Ne.symm hw)
    exact ⟨me, y, _, mem_link_start.mpr ⟨⟨rfl, hadj⟩, rfl⟩, announce_allowReply (hcap me),
      hcloser⟩

/-- One server sends its score for an address over a tree of servers, and everything that this sets off
is delivered in some order. There is a bound on the number of messages; no score ever decreases; and in
the end every score is at most the largest one `w` that there was, and within the margin of it. -/
theorem exchange_converges [Fintype V] (hG : G.IsTree) (me : V) (ip : Ip) (tables : V → Table Ip)
    (hcap : ∀ v, lookupScore (tables v) ip ≤ scoreCap) :
    (∃ N : ℕ, ∀ (run : ℕ → Network V (Table Ip) (Message V Ip)) (k : ℕ),
      run 0 = reputationPreLconnect G me ip tables →
      (∀ i < k, Network.Step (receive G) (run i) (run (i + 1))) → k ≤ N) ∧
    ∀ net, Network.Reaches (receive G) (reputationPreLconnect G me ip tables) net →
      (∀ v, lookupScore (tables v) ip ≤ lookupScore (net.node v) ip) ∧
      (Network.Final (receive G) net →
        ∀ w, (∀ x, lookupScore (tables x) ip ≤ lookupScore (tables w) ip) →
          ∀ v, lookupScore (net.node v) ip ≤ lookupScore (tables w) ip ∧
            lookupScore (tables w) ip ≤ lookupScore (net.node v) ip + updateScoreMargin) := by
  have hstep : ∀ {bound : ℕ}, bound ≤ scoreCap → ∀ net net', Sound G ip bound net →
      Step (receive G) net net' → Sound G ip bound net' := by
    intro bound hbound net net' h hs
    cases hs with
    | deliver u v m rest hlink => exact h.step hbound hlink hG
  refine ⟨⟨totalWeight (weight G) (reputationPreLconnect G me ip tables),
    fun run k h₀ hrun => ?_⟩, fun net hrun => ?_⟩
  · rw [← h₀]
    refine run_length_le (weight G) (hstep le_rfl) ?_ run k ?_ hrun
    · intro net h u v m rest hlink
      exact h.weight_lt le_rfl hlink hG
    · rw [h₀]
      exact Sound.start hG.connected me le_rfl hcap
  · -- the scores so far, and what a server `w` brings about
    have hall : ∀ w bound, bound ≤ scoreCap → (∀ v, lookupScore (tables v) ip ≤ bound) →
        Sound G ip bound net ∧ (∀ v, lookupScore (tables v) ip ≤ lookupScore (net.node v) ip) ∧
          Informs G ip w (lookupScore (tables w) ip) net := by
      intro w bound hbound hle
      refine invariant (I := fun net => Sound G ip bound net ∧
        (∀ v, lookupScore (tables v) ip ≤ lookupScore (net.node v) ip) ∧
          Informs G ip w (lookupScore (tables w) ip) net) hrun
        ⟨Sound.start hG.connected me hbound hle, fun v => le_rfl,
          Informs.start hG.connected me w hcap⟩ ?_
      rintro net net' ⟨hsound, hgrow, hinf⟩ hs
      refine ⟨hstep hbound _ _ hsound hs, ?_⟩
      cases hs with
      | deliver u v m rest hlink =>
        exact ⟨fun x => (hgrow x).trans (hsound.lookupScore_le hbound hlink x),
          hinf.step hsound hbound hlink hG.connected (hgrow w)⟩
    refine ⟨(hall me scoreCap le_rfl hcap).2.1, fun hfinal w hmax v => ?_⟩
    obtain ⟨hsound, -, hinf⟩ := hall w (lookupScore (tables w) ip) (hcap w) hmax
    have hempty := final_iff.mp hfinal
    refine ⟨hsound.score v, ?_⟩
    rcases hinf with ⟨a, b, m, hm, -⟩ | hcovered
    · rw [hempty a b] at hm
      cases hm
    rcases hcovered v with hscore | ⟨a, b, m, hm, -⟩
    · omega
    · rw [hempty a b] at hm
      cases hm

/-- Two linked servers, the second of which has the higher score. -/
theorem exchange_converges_pair : (⊤ : SimpleGraph (Fin 2)).IsTree ∧
    ∀ net, Network.Reaches (receive (⊤ : SimpleGraph (Fin 2)))
      (reputationPreLconnect ⊤ 0 () fun v _ => if v = 0 then none else some 7) net →
      Network.Final (receive (⊤ : SimpleGraph (Fin 2))) net → 7 ≤ lookupScore (net.node 0) () + 1 := by
  have htree : (⊤ : SimpleGraph (Fin 2)).IsTree :=
    ⟨connected_top, IsAcyclic.of_card_le_two (by simp)⟩
  refine ⟨htree, fun net hrun hfinal => ?_⟩
  exact (((exchange_converges htree 0 () (fun v _ => if v = 0 then none else some 7)
    (by decide)).2 net hrun).2 hfinal 1 (by decide) 0).2

end ObbyIRCd.Reputation
