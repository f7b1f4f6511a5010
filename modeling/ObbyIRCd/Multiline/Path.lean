import ObbyIRCd.Multiline.Limits
import ObbyIRCd.Multiline.Relay

/-!
# Batches over several servers

A server sends a batch once over each link that leads to a recipient (`sentTo_flatMap`), so along a
path every server collects the batch that the one before it has delivered, with its lines cut at 510
bytes. Clients do not see that: what they get of a line is cut at 510 bytes as well, with the sender, the
command and the target in front of the text (`sentLine_cut`). The `msgid` is among the tags of the first
line, from which each server takes it again.
-/

namespace ObbyIRCd.Multiline

open List

/-! ## Links -/

def sentTo (dir : ℕ) (out : List (ℕ × Wire)) : List Wire :=
  (out.filter fun p => p.1 = dir).map Prod.snd

theorem sentTo_append (dir : ℕ) (out out' : List (ℕ × Wire)) :
    sentTo dir (out ++ out') = sentTo dir out ++ sentTo dir out' := by
  unfold sentTo
  rw [filter_append, map_append]

theorem sentTo_self (dir : ℕ) (ws : List Wire) : sentTo dir (ws.map fun w => (dir, w)) = ws := by
  unfold sentTo
  rw [filter_map, map_map, filter_eq_self.mpr (by simp)]
  exact map_id ws

theorem sentTo_of_ne {dir : ℕ} {out : List (ℕ × Wire)} (h : ∀ p ∈ out, p.1 ≠ dir) :
    sentTo dir out = [] := by
  unfold sentTo
  rw [filter_eq_nil_iff.mpr (by simpa using h), map_nil]

theorem sentTo_flatMap {dir : ℕ} {dirs : List ℕ} (hnodup : dirs.Nodup) (hdir : dir ∈ dirs)
    (ws : List Wire) : sentTo dir (dirs.flatMap fun e => ws.map fun w => (e, w)) = ws := by
  have hother : ∀ ds : List ℕ, dir ∉ ds →
      ∀ p ∈ ds.flatMap fun e => ws.map fun w => (e, w), p.1 ≠ dir := by
    rintro ds hnot p hp rfl
    obtain ⟨e, he, hp⟩ := mem_flatMap.mp hp
    obtain ⟨w, -, rfl⟩ := mem_map.mp hp
    exact hnot he
  obtain ⟨ds, ds', rfl⟩ := append_of_mem hdir
  have hnot := (nodup_cons.mp (perm_middle.nodup_iff.mp hnodup)).1
  rw [mem_append, not_or] at hnot
  rw [flatMap_append, flatMap_cons, sentTo_append, sentTo_append, sentTo_self,
    sentTo_of_ne (hother ds hnot.1), sentTo_of_ne (hother ds' hnot.2), nil_append,
    append_nil]

theorem nodup_addDirection (skip : Option ℕ) {sent : List ℕ} (h : sent.Nodup) (d : ℕ) :
    (addDirection skip sent d).Nodup := by
  unfold addDirection
  split
  · exact h
  next hnot =>
  rw [not_or] at hnot
  exact nodup_append.mpr ⟨h, by simp, fun a ha b hb hab =>
    hnot.2 (mem_singleton.mp hb ▸ hab ▸ ha)⟩

theorem nodup_foldl_addDirection (skip : Option ℕ) (ds : List ℕ) {sent : List ℕ} (h : sent.Nodup) :
    (ds.foldl (addDirection skip) sent).Nodup :=
  foldlRecOn ds _ h fun _ hsent d _ => nodup_addDirection skip hsent d

theorem nodup_directions (env : Env) (filter : Option (List Char)) (skip : Option ℕ)
    (ch : Channel) : (ch.directions env filter skip).Nodup := by
  unfold Channel.directions
  split
  · exact nodup_foldl_addDirection skip _ (nodup_foldl_addDirection skip _ nodup_nil)
  · exact nodup_foldl_addDirection skip _ nodup_nil

/-! ## Tags -/

/-- The tags of a message: its `msgid`, and others. -/
def Tagged (m : MessageTag) (mtags : List MessageTag) : Prop :=
  m.name = msgidName ∧ ∃ others, mtags = m :: others ∧
    ∀ o ∈ others, o.name ≠ batchName ∧ o.name ≠ concatName ∧ o.name ≠ msgidName

variable {m : MessageTag} {mtags : List MessageTag}

theorem Tagged.plain (h : Tagged m mtags) : Plain mtags := by
  obtain ⟨hm, others, rfl, hothers⟩ := h
  refine forall_mem_cons.mpr ⟨?_, fun o ho => ⟨(hothers o ho).1, (hothers o ho).2.1⟩⟩
  rw [hm]
  decide

theorem Tagged.findMtag_eq (h : Tagged m mtags) : findMtag mtags msgidName = some m := by
  obtain ⟨hm, others, rfl, -⟩ := h
  exact find?_cons_of_pos (by simpa using hm)

/-- A server that receives a line puts its tags in the other order. -/
theorem Tagged.findMtag_reverse (h : Tagged m mtags) :
    findMtag mtags.reverse msgidName = some m := by
  obtain ⟨hm, others, rfl, hothers⟩ := h
  have hnone : others.reverse.find? (fun o => decide (o.name = msgidName)) = none := by
    refine find?_eq_none.mpr fun o ho => ?_
    simpa using (hothers o (mem_reverse.mp ho)).2.2
  unfold findMtag
  rw [reverse_cons, find?_append, hnone, Option.none_or]
  exact find?_cons_of_pos (by simpa using hm)

theorem tagged_newMessage (env : Env) (fresh : Fresh) (mtags : List MessageTag) :
    Tagged ((findMtag mtags msgidName).getD ⟨msgidName, some fresh.msgid⟩)
      (newMessage env fresh mtags) := by
  refine ⟨?_, env.otherTags mtags, rfl, env.otherTags_name mtags⟩
  cases hfind : findMtag mtags msgidName with
  | none => rfl
  | some m => simpa using find?_some hfind

/-- The `msgid` is kept. -/
theorem Tagged.newMessage {m : MessageTag} {mtags : List MessageTag} (h : Tagged m mtags)
    (env : Env)
    (fresh : Fresh) : Tagged m (newMessage env fresh mtags.reverse) := by
  have hnew := tagged_newMessage env fresh mtags.reverse
  rwa [h.findMtag_reverse, Option.getD_some] at hnew

/-! ## Paths -/

/-- A server on a path: the link over which the batch arrives, the one that leads to the next server,
and the batches that are open. -/
structure Hop where
  env : Env
  fresh : Fresh
  src : ℕ
  next : ℕ
  batches : List S2SMultilineBatch

def Hop.run (h : Hop) (ws : List Wire) : Node :=
  receiveAll h.env h.fresh h.src ⟨h.batches, [], []⟩ ws

/-- What happens at the servers of a path. -/
def relay : List Hop → List Wire → List (List Event)
  | [], _ => []
  | h :: hs, ws => (h.run ws).events :: relay hs (sentTo h.next (h.run ws).out)

/-- A path along which a batch to a channel goes: each server knows the channel and has recipients
behind the next link, and earlier batches of the sender are closed. -/
def ChannelRoute (sender target : List Char) : List Char → List Hop → Prop
  | _, [] => True
  | ref, h :: hs =>
    NotOpen sender ref h.batches ∧
    (∃ ch, multilineFindChannel h.env target = some ch ∧
      (hs ≠ [] → h.next ∈ ch.directions h.env
        ((memberMode h.env target).map h.env.equalOrGreater) (some h.src))) ∧
    ChannelRoute sender target h.fresh.ref hs

def UserRoute (sender id name : List Char) : List Char → List Hop → Prop
  | _, [] => True
  | ref, h :: hs =>
    NotOpen sender ref h.batches ∧
    (∃ u, h.env.findClient id = some u ∧ u.id = id ∧ u.name = name ∧
      u.direction = if hs = [] then none else some h.next) ∧
    UserRoute sender id name h.fresh.ref hs

/-- Two deliveries of which clients see the same batch: the sender, the target, the command, the lines as
they are sent, and the `msgid`. -/
structure Same (d d' : Delivery) : Prop where
  sender : d'.sender = d.sender
  target : d'.target = d.target
  sendtype : d'.sendtype = d.sendtype
  lines : ∀ mask, d'.sent mask = d.sent mask
  msgid : findMtag d'.mtags msgidName = findMtag d.mtags msgidName

theorem Same.trans {d₁ d₂ d₃ : Delivery} (h : Same d₁ d₂) (h' : Same d₂ d₃) : Same d₁ d₃ where
  sender := h'.sender.trans h.sender
  target := h'.target.trans h.target
  sendtype := h'.sendtype.trans h.sendtype
  lines mask := (h'.lines mask).trans (h.lines mask)
  msgid := h'.msgid.trans h.msgid

/-- A batch that a server can have delivered. -/
structure Deliverable (m : MessageTag) (d : Delivery) : Prop where
  tagged : Tagged m d.mtags
  ne_nil : d.lines ≠ []
  length_le : d.lines.length ≤ 200

/-- The batch as the next server delivers it. -/
def Hop.deliver (h : Hop) (d : Delivery) : Delivery :=
  { d with
    lines := d.lines.map MLine.cut
    mtags := newMessage h.env h.fresh d.mtags.reverse }

theorem Deliverable.deliver {m : MessageTag} {d : Delivery} (hd : Deliverable m d) (h : Hop) :
    Deliverable m (h.deliver d) where
  tagged := hd.tagged.newMessage h.env h.fresh
  ne_nil := by
    show d.lines.map MLine.cut ≠ []
    rw [Ne, map_eq_nil_iff]
    exact hd.ne_nil
  length_le := by
    show (d.lines.map MLine.cut).length ≤ 200
    rw [length_map]
    exact hd.length_le

/-- A client gets the same of a line that was cut at a server before. -/
theorem sentLine_cut (mask : List Char) (d : Delivery) (l : MLine) :
    d.sentLine mask l.cut = d.sentLine mask l := by
  unfold Delivery.sentLine MLine.cut
  rw [take_append, take_take, Nat.min_eq_left (Nat.sub_le _ _), ← take_append]

variable {d : Delivery} {ref : List Char}

section

variable (hd : Deliverable m d)
include hd

theorem same_deliver (h : Hop) : Same d (h.deliver d) where
  sender := rfl
  target := rfl
  sendtype := rfl
  lines mask := by
    show (d.lines.map MLine.cut).map (d.sentLine mask) = d.lines.map (d.sentLine mask)
    rw [map_map]
    exact map_congr_left fun l _ => sentLine_cut mask d l
  msgid := by rw [(hd.deliver h).tagged.findMtag_eq, hd.tagged.findMtag_eq]

variable (h : Hop) (env₀ : Env) (href : ref.length ≤ 22) (hnot : NotOpen d.sender ref h.batches)
include href hnot

/-- A server delivers the batch to its members and sends it on. -/
theorem run_channel (htarget : d.target.length ≤ 510) {ch : Channel}
    (hch : multilineFindChannel h.env d.target = some ch) :
    h.run (multilineSendS2s env₀ d d.target ref) =
      ⟨h.batches, [.delivered (h.deliver d)],
        (ch.directions h.env ((memberMode h.env d.target).map h.env.equalOrGreater)
          (some h.src)).flatMap fun dir =>
            (multilineSendS2s h.env (h.deliver d) d.target h.fresh.ref).map fun w => (dir, w)⟩ := by
  have hhash : '#' ∈ d.target := by
    unfold multilineFindChannel at hch
    by_contra hnot
    rw [if_neg hnot] at hch
    simp at hch
  obtain ⟨bytes, hrun⟩ := @receiveAll_batch h.env h.fresh h.src d.target ref ⟨h.batches, [], []⟩ d
    hnot hd.ne_nil hd.length_le hd.tagged.plain htarget href env₀
  have hne : d.lines.map MLine.cut ≠ [] := (hd.deliver h).ne_nil
  unfold Hop.run
  rw [hrun]
  unfold deliverS2s collected
  simp only [hhash, decide_true, if_true, hch, if_neg hne, nil_append]
  rfl

/-- A server delivers the batch to its user, or sends it on. -/
theorem run_user {u : User} (hu : h.env.findClient u.id = some u) (hname : u.name = d.target) :
    h.run (multilineSendS2s env₀ d u.id ref) =
      match u.direction with
      | none => ⟨h.batches, [.delivered (h.deliver d)], []⟩
      | some dir => ⟨h.batches, [],
          (multilineSendS2s h.env (h.deliver d) u.id h.fresh.ref).map fun w => (dir, w)⟩ := by
  have hid := u.id_le
  obtain ⟨bytes, hrun⟩ := @receiveAll_batch h.env h.fresh h.src u.id ref ⟨h.batches, [], []⟩ d
    hnot hd.ne_nil hd.length_le hd.tagged.plain (by omega) href env₀
  have hne : d.lines.map MLine.cut ≠ [] := (hd.deliver h).ne_nil
  unfold Hop.run
  rw [hrun]
  unfold deliverS2s collected
  simp only [u.hash_not_mem, decide_false, Bool.false_eq_true, if_false, hu, if_neg hne, nil_append]
  rw [hname]
  rfl

end

/-- Along a path to a channel every server delivers the batch once. -/
theorem relay_channel (path : List Hop) (hd : Deliverable m d) (env₀ : Env) (href : ref.length ≤ 22)
    (htarget : d.target.length ≤ 510) (hroute : ChannelRoute d.sender d.target ref path) :
    ∃ ds : List Delivery, relay path (multilineSendS2s env₀ d d.target ref) =
      ds.map (fun d' => [.delivered d']) ∧ ∀ d' ∈ ds, Same d d' := by
  induction path generalizing d env₀ ref with
  | nil => exact ⟨[], rfl, forall_mem_nil _⟩
  | cons h hs ih =>
    obtain ⟨hnot, ⟨ch, hch, hnext⟩, hrest⟩ := hroute
    have hrun := run_channel hd h env₀ href hnot htarget hch
    have hfirst := same_deliver hd h
    unfold relay
    rw [hrun]
    by_cases hlast : hs = []
    · subst hlast
      exact ⟨[h.deliver d], rfl, fun d' hd' => mem_singleton.mp hd' ▸ hfirst⟩
    rw [sentTo_flatMap (nodup_directions _ _ _ ch) (hnext hlast)]
    obtain ⟨ds, hds, hsame⟩ := ih (hd.deliver h) h.env h.fresh.ref_le htarget hrest
    refine ⟨h.deliver d :: ds, ?_, ?_⟩
    · rw [map_cons, ← hds]
      rfl
    · intro d' hd'
      rcases mem_cons.mp hd' with rfl | hd'
      · exact hfirst
      · exact (same_deliver hd h).trans (hsame d' hd')

/-- Along the path to a user only the last server delivers the batch, and once. -/
theorem relay_user {id : List Char} (path : List Hop) (hne : path ≠ []) (hd : Deliverable m d)
    (env₀ : Env) (href : ref.length ≤ 22) (hroute : UserRoute d.sender id d.target ref path) :
    ∃ d', relay path (multilineSendS2s env₀ d id ref) =
      List.replicate (path.length - 1) [] ++ [[.delivered d']] ∧ Same d d' := by
  induction path generalizing d env₀ ref with
  | nil => exact absurd rfl hne
  | cons h hs ih =>
    obtain ⟨hnot, ⟨u, hu, rfl, hname, hdir⟩, hrest⟩ := hroute
    have hrun := run_user hd h env₀ href hnot hu hname
    unfold relay
    rw [hrun, hdir]
    by_cases hlast : hs = []
    · subst hlast
      exact ⟨h.deliver d, rfl, same_deliver hd h⟩
    rw [if_neg hlast]
    obtain ⟨d', hd', hsame⟩ := ih hlast (hd.deliver h) h.env h.fresh.ref_le hrest
    refine ⟨d', ?_, (same_deliver hd h).trans hsame⟩
    obtain ⟨h', hs, rfl⟩ := exists_cons_of_ne_nil hlast
    rw [sentTo_self, hd']
    rfl

/-! ## Batches of local clients -/

/-- The batches that a local client can have open; a parameter from a client has at most 510 bytes. -/
inductive Collected (env : Env) (loc : Local) : MultilineBatch → Prop
  | opened {ref target : List Char} {mtags : List MessageTag} {b : MultilineBatch}
      (htarget : target.length ≤ 510) (hb : batchOpen env loc ref target mtags = some b) :
      Collected env loc b
  | line {b b' : MultilineBatch} (hb : Collected env loc b) {sendtype : SendType}
      {target text : List Char} {concat : Bool}
      (hb' : overrideMsg env loc b sendtype target text concat = some b') : Collected env loc b'

theorem length_checkLines {check : List Char → Option (List Char)} {lines lines' : List MLine}
    (h : checkLines check lines = some lines') : lines'.length = lines.length := by
  induction lines generalizing lines' with
  | nil =>
    obtain rfl := Option.some.inj h
    rfl
  | cons l lines ih =>
    unfold checkLines at h
    by_cases hblank : l.text = []
    · rw [if_pos hblank, Option.map_eq_some_iff] at h
      obtain ⟨rest, hrest, rfl⟩ := h
      rw [length_cons, ih hrest, length_cons]
    · rw [if_neg hblank] at h
      split at h
      · next hrest =>
        obtain rfl := Option.some.inj h
        rw [length_cons, ih hrest, length_cons]
      · simp at h

section Deliver

variable {env : Env} {loc : Local} {fresh : Fresh} {b : MultilineBatch} {d : Delivery}
  {out : List (ℕ × Wire)} {path : List Hop} {first : ℕ} (hb : Collected env loc b)
include hb

theorem Collected.within : b.Within env loc := by
  induction hb with
  | opened _ hb => exact within_batchOpen hb
  | line _ hb' ih => exact within_overrideMsg hb' ih

theorem Collected.bounds : b.target.length ≤ 510 ∧ b.lines.length ≤ 200 := by
  have hlines : b.lines.length ≤ 200 := by
    have hmax : maxLines env loc b.target ≤ 200 := by
      have := loc.limits.lines_le
      unfold maxLines
      split <;> omega
    rw [← hb.within.count]
    exact hb.within.count_le.trans hmax
  refine ⟨?_, hlines⟩
  clear hlines
  induction hb with
  | opened htarget hb =>
    unfold batchOpen at hb
    dsimp only at hb
    split_ifs at hb
    · split at hb
      · next p ch _ _ =>
        obtain rfl := Option.some.inj hb
        have := ch.name_le
        rw [length_cons]
        omega
      · simp at hb
    · obtain rfl := Option.some.inj hb
      exact htarget
  | line _ hb' ih =>
    rw [(overrideMsg_eq hb').2.1]
    exact ih

/-- What a server knows about a batch that it has delivered. -/
theorem deliverable_of_checkLines (hcomplete : b.complete = true)
    {check : List Char → Option (List Char)} {lines : List MLine}
    (hcheck : checkLines check b.lines = some lines) (target : List Char) (sendtype : SendType) :
    Deliverable ((findMtag b.clientMtags msgidName).getD ⟨msgidName, some fresh.msgid⟩)
      ⟨loc.id, target, sendtype, lines, newMessage env fresh b.clientMtags⟩ := by
  have hlen := length_checkLines hcheck
  refine ⟨tagged_newMessage env fresh _, ?_, hlen.trans_le hb.bounds.2⟩
  have hne : b.lines ≠ [] := by
    rintro hnil
    simp [MultilineBatch.complete, multilineBatchHasContent, hnil] at hcomplete
  intro hnil
  change lines = [] at hnil
  rw [hnil] at hlen
  exact hne (length_eq_zero_iff.mp hlen.symm)

variable (hsent : multilineDeliver env loc fresh b = some (d, out))
include hsent

theorem deliver_channel {ch : Channel} (hch : multilineFindChannel env b.target = some ch)
    (hfirst : first ∈ ch.directions env (b.memberMode.map env.equalOrGreater) none)
    (hroute : ChannelRoute loc.id b.target fresh.ref path) :
    ∃ ds : List Delivery, relay path (sentTo first out) = ds.map (fun d' => [.delivered d']) ∧
      ∀ d' ∈ ds, Same d d' := by
  unfold multilineDeliver at hsent
  rw [hch] at hsent
  dsimp only at hsent
  split_ifs at hsent with hcomplete
  unfold multilineDeliverChannel at hsent
  split at hsent
  · simp at hsent
  next lines hcheck =>
  dsimp only at hsent
  split_ifs at hsent
  obtain ⟨rfl, rfl⟩ := Prod.mk.inj (Option.some.inj hsent)
  have hdeliver := @deliverable_of_checkLines env loc fresh b hb hcomplete _ lines hcheck b.target
    (b.sendtype.getD .privmsg)
  rw [sentTo_flatMap (nodup_directions _ _ _ ch) hfirst]
  exact relay_channel path hdeliver env fresh.ref_le hb.bounds.1 hroute

theorem deliver_user (hpath : path ≠ []) (hch : multilineFindChannel env b.target = none) {u : User}
    (hu : loc.findNick b.target = some u) (hfirst : u.direction = some first)
    (hroute : UserRoute loc.id u.id u.name fresh.ref path) :
    ∃ d', relay path (sentTo first out) =
      List.replicate (path.length - 1) [] ++ [[.delivered d']] ∧ Same d d' := by
  unfold multilineDeliver at hsent
  rw [hch, hu] at hsent
  dsimp only at hsent
  split_ifs at hsent with hcomplete
  unfold multilineDeliverUser at hsent
  split at hsent
  · simp at hsent
  next lines hcheck =>
  dsimp only at hsent
  split_ifs at hsent
  rw [hfirst] at hsent
  obtain ⟨rfl, rfl⟩ := Prod.mk.inj (Option.some.inj hsent)
  have hdeliver := @deliverable_of_checkLines env loc fresh b hb hcomplete _ lines hcheck u.name
    (b.sendtype.getD .privmsg)
  rw [sentTo_self]
  exact relay_user path hpath hdeliver env fresh.ref_le hroute

end Deliver

/-- The servers of a path, and the link that leads to the first one. -/
def Route (env : Env) (loc : Local) (fresh : Fresh) (b : MultilineBatch) (first : ℕ)
    (path : List Hop) : Prop :=
  match multilineFindChannel env b.target with
  | some ch =>
    first ∈ ch.directions env (b.memberMode.map env.equalOrGreater) none ∧
      ChannelRoute loc.id b.target fresh.ref path
  | none =>
    ∃ u, loc.findNick b.target = some u ∧ u.direction = some first ∧
      UserRoute loc.id u.id u.name fresh.ref path

/-- Every server of a path delivers a batch to a channel as the first server did, and a batch to a user
is delivered so by the server of that user. -/
def Survives (env : Env) (b : MultilineBatch) (d : Delivery) (events : List (List Event)) : Prop :=
  match multilineFindChannel env b.target with
  | some _ => ∃ ds : List Delivery, events = ds.map (fun d' => [.delivered d']) ∧ ∀ d' ∈ ds, Same d d'
  | none => ∃ d', events = List.replicate (events.length - 1) [] ++ [[.delivered d']] ∧ Same d d'

theorem length_relay (path : List Hop) (ws : List Wire) : (relay path ws).length = path.length := by
  induction path generalizing ws with
  | nil => rfl
  | cons h hs ih =>
    unfold relay
    rw [length_cons, ih, length_cons]

/-- A batch that a local client has collected and that its server has delivered survives every path: the
servers behind it deliver, once, what its own clients were sent. -/
theorem survives_relay {env : Env} {loc : Local} {fresh : Fresh} {b : MultilineBatch} {d : Delivery}
    {out : List (ℕ × Wire)} {path : List Hop} {first : ℕ} (hb : Collected env loc b)
    (hd : multilineDeliver env loc fresh b = some (d, out)) (hpath : path ≠ [])
    (hroute : Route env loc fresh b first path) :
    Survives env b d (relay path (sentTo first out)) := by
  unfold Route at hroute
  unfold Survives
  cases hch : multilineFindChannel env b.target with
  | some ch =>
    rw [hch] at hroute
    exact deliver_channel hb hd hch hroute.1 hroute.2
  | none =>
    rw [hch] at hroute
    obtain ⟨u, hu, hfirst, hroute⟩ := hroute
    rw [length_relay]
    exact deliver_user hb hd hpath hch hu hfirst hroute

/-! ## A channel on three servers -/

def lounge : Channel := ⟨['#', 'l'], by decide, [⟨some 1, []⟩], false⟩

def loungeEnv : Env where
  findChannel name := if name = lounge.name then some lounge else none
  findClient _ := none
  servers := []
  lowestRankingPrefix _ := none
  prefixToMode c := c
  equalOrGreater c := [c]
  firstOnly _ := false
  otherTags _ := []
  otherTags_name _ _ hm := absurd hm List.not_mem_nil

/-- A client whose lines a module writes in capitals. -/
def shouting : Local where
  id := ['0', '0', '1', 'A']
  hasMultiline := true
  limits := ⟨16, 4096, by decide, by decide⟩
  floodprotMaxLines _ := 15
  findNick _ := none
  canSendToChannel _ _ text := some (text.map Char.toUpper)
  canSendToUser _ _ text := some text
  admits _ := true

def loungeFresh : Fresh := ⟨['m'], ['r'], by decide⟩

def loungeHop : Hop := ⟨loungeEnv, loungeFresh, 0, 1, []⟩

def loungeBatch (lines : List MLine) (bytes : ℕ) : MultilineBatch :=
  ⟨['1'], lounge.name, none, [], if lines = [] then none else some .privmsg, lines, lines.length,
    bytes, none⟩

theorem collected_loungeBatch : Collected loungeEnv shouting (loungeBatch [] 0) := by
  have hopen : batchOpen loungeEnv shouting ['1'] lounge.name [] = some (loungeBatch [] 0) := rfl
  exact .opened (by decide) hopen

theorem route_lounge (lines : List MLine) (bytes : ℕ) :
    Route loungeEnv shouting loungeFresh (loungeBatch lines bytes) 1 [loungeHop, loungeHop] := by
  have hfind : multilineFindChannel loungeEnv lounge.name = some lounge := rfl
  have hnot : NotOpen shouting.id loungeFresh.ref loungeHop.batches :=
    forall_mem_nil _
  have hfirst : 1 ∈ lounge.directions loungeEnv none none := by decide
  have hnext : loungeHop.next ∈ lounge.directions loungeEnv none (some 0) := by decide
  exact ⟨hfirst, hnot, ⟨lounge, hfind, fun _ => hnext⟩, hnot, ⟨lounge, hfind, fun _ => hnext⟩,
    trivial⟩

/-- A word, a blank line and a line that is joined to it. -/
def greeting : MultilineBatch :=
  loungeBatch [⟨['a', 'b'], false⟩, ⟨[], false⟩, ⟨['c'], true⟩] 4

theorem collected_greeting : Collected loungeEnv shouting greeting := by
  have h₁ : overrideMsg loungeEnv shouting (loungeBatch [] 0) .privmsg lounge.name ['a', 'b'] false =
      some (loungeBatch [⟨['a', 'b'], false⟩] 2) := rfl
  have h₂ : overrideMsg loungeEnv shouting (loungeBatch [⟨['a', 'b'], false⟩] 2) .privmsg lounge.name
      [] false = some (loungeBatch [⟨['a', 'b'], false⟩, ⟨[], false⟩] 3) := rfl
  have h₃ : overrideMsg loungeEnv shouting (loungeBatch [⟨['a', 'b'], false⟩, ⟨[], false⟩] 3) .privmsg
      lounge.name ['c'] true = some greeting := rfl
  exact ((collected_loungeBatch.line h₁).line h₂).line h₃

/-- Three lines over two servers. -/
theorem survives_relay_greeting : ∃ d out, multilineDeliver loungeEnv shouting loungeFresh greeting =
      some (d, out) ∧ d.lines = [⟨['A', 'B'], false⟩, ⟨[], false⟩, ⟨['C'], true⟩] ∧
      Survives loungeEnv greeting d (relay [loungeHop, loungeHop] (sentTo 1 out)) :=
  ⟨_, _, rfl, rfl, survives_relay collected_greeting rfl (cons_ne_nil _ _) (route_lounge _ _)⟩

end ObbyIRCd.Multiline
