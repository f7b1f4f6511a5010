import ObbyIRCd.Multiline.Model

/-!
# A batch at the next server

A server that receives the commands for a batch collects the lines that were sent, each cut at 510
bytes, and delivers them with the tags of the first line (`receiveAll_batch`). The limits on lines and
bytes are never reached: a batch has at most 200 lines, and 200 cut lines have less than 131072 bytes.
-/

namespace ObbyIRCd.Multiline

open List

/-- A line as it comes out of `parse2`. -/
def MLine.cut (l : MLine) : MLine := { l with text := l.text.take 510 }

theorem para_of_le (n : ℕ) {p : List Char} (hp : p.length ≤ 510) : para n p = p := by
  unfold para
  split
  · exact take_of_length_le hp
  · rfl

theorem para_text {n : ℕ} {text : List Char} (hn : text.length ≤ n) :
    para n text = text.take 510 := by
  unfold para
  split
  · rfl
  · rw [take_of_length_le (by omega)]

def Plain (mtags : List MessageTag) : Prop :=
  ∀ m ∈ mtags, m.name ≠ batchName ∧ m.name ≠ concatName

theorem findMtag_batch (ref : List Char) (mtags : List MessageTag) (l : MLine) :
    findMtag (lineTags ref mtags l) batchName = some ⟨batchName, some ref⟩ := by
  unfold findMtag lineTags
  cases l.concat <;> rfl

variable {mtags : List MessageTag}

theorem findMtag_concat (ref : List Char) (hplain : Plain mtags)
    (l : MLine) : (findMtag (lineTags ref mtags l) concatName).isSome = l.concat := by
  have hnone : mtags.find? (fun m => decide (m.name = concatName)) = none :=
    find?_eq_none.mpr fun m hm => by simpa using (hplain m hm).2
  unfold findMtag lineTags
  cases l.concat
  · have hbatch : batchName ≠ concatName := by decide
    rw [if_neg Bool.false_ne_true, nil_append, find?_cons_of_neg (by simpa using hbatch), hnone]
    rfl
  · rfl

theorem filter_lineTags (ref : List Char) (hplain : Plain mtags) (l : MLine) :
    ((lineTags ref mtags l).filter fun m => m.name ≠ batchName ∧ m.name ≠ concatName) = mtags := by
  have hself : (mtags.filter fun m => m.name ≠ batchName ∧ m.name ≠ concatName) = mtags :=
    filter_eq_self.mpr fun m hm => by simpa using hplain m hm
  unfold lineTags
  cases l.concat
  · rw [if_neg Bool.false_ne_true, nil_append, filter_cons_of_neg (by simp), hself]
  · rw [if_pos rfl, singleton_append, filter_cons_of_neg (by simp),
      filter_cons_of_neg (by simp), hself]

section Hop

variable {env : Env} {fresh : Fresh} {src : ℕ} {sender target ref : List Char} {st : SendType}
  {mtags : List MessageTag}

/-- The batch when `done` has arrived. -/
def collected (src : ℕ) (sender target ref : List Char) (st : SendType) (mtags : List MessageTag)
    (done : List MLine) (bytes : ℕ) : S2SMultilineBatch where
  sender := sender
  direction := src
  batchId := ref
  target := target
  isChannel := '#' ∈ target
  sendtype := if done = [] then none else some st
  firstMtags := if done = [] then [] else mtags
  lines := done
  receivedBytes := bytes

theorem isFor_collected (done : List MLine) (bytes : ℕ) :
    (collected src sender target ref st mtags done bytes).isFor sender ref = true := by
  simp [S2SMultilineBatch.isFor, collected]

def NotOpen (sender ref : List Char) (batches : List S2SMultilineBatch) : Prop :=
  ∀ b ∈ batches, b.isFor sender ref = false

variable (n : Node)

/-- The server while a batch is open. -/
def Node.holding (b : S2SMultilineBatch) : Node := { n with batches := b :: n.batches }

section Held

variable {n} {b : S2SMultilineBatch} (hb : b.isFor sender ref = true)
include hb

theorem find_holding : (n.holding b).find sender ref = some b := find?_cons_of_pos hb

theorem free_holding : (n.holding b).free sender ref = n := by
  unfold Node.free Node.holding
  rw [eraseP_cons_of_pos hb]

theorem update_holding (hnot : NotOpen sender ref n.batches)
    (f : S2SMultilineBatch → S2SMultilineBatch) :
    (n.holding b).update sender ref f = n.holding (f b) := by
  have hself : (n.batches.map fun b => if b.isFor sender ref then f b else b) = n.batches := by
    conv_rhs => rw [← map_id n.batches]
    refine map_congr_left fun b hb => ?_
    rw [hnot b hb]
    rfl
  unfold Node.update Node.holding
  simp only [map_cons, hb, if_true, hself]

end Held

variable (hnot : NotOpen sender ref n.batches)
include hnot

theorem receive_line {done : List MLine} (hdone : done.length < 200) {bytes : ℕ}
    (hbytes : bytes ≤ 511 * done.length) {tags : List MessageTag} (hplain : Plain tags)
    (htags : done = [] → mtags = tags.reverse) (l : MLine) :
    ∃ bytes', bytes' ≤ 511 * (done.length + 1) ∧
      receive env fresh src
        (n.holding (collected src sender target ref st mtags done bytes))
        (.line (lineTags ref tags l) sender st target l.text) =
      n.holding (collected src sender target ref st mtags (done ++ [l.cut]) bytes') := by
  have hlen : (l.text.take 510).length ≤ 510 := length_take_le _ _
  have hadd : multilineCalcAddBytes (l.text.take 510).length done.length l.concat ≤ 511 := by
    unfold multilineCalcAddBytes
    split <;> omega
  have hpara : para (Wire.line (lineTags ref tags l) sender st target l.text).bytes l.text =
      l.text.take 510 := by
    apply para_text
    show l.text.length ≤ st.cmd.length + 1 + target.length + 2 + l.text.length
    omega
  have hne : done ++ [l.cut] ≠ [] := by simp
  refine ⟨bytes + multilineCalcAddBytes (l.text.take 510).length done.length l.concat, by omega, ?_⟩
  unfold receive
  dsimp only
  rw [findMtag_batch, Option.bind_some, Option.bind_some, find_holding (isFor_collected done bytes)]
  rw [hpara]
  unfold handleMsg
  rw [findMtag_concat ref hplain, filter_lineTags ref hplain]
  -- none of the checks of `handleMsg` applies to a line that was sent on
  have htype : ¬((if done = [] then none else some st : Option SendType).isSome = true ∧
      (if done = [] then none else some st) ≠ some st) := by
    split <;> simp
  have hlimit : ¬(200 ≤ done.length ∨
      131072 < bytes + multilineCalcAddBytes (l.text.take 510).length done.length l.concat) := by
    omega
  have hfirst : (if done.length = 0 ∧ (if done = [] then [] else mtags) = [] then tags.reverse
      else if done = [] then [] else mtags) = mtags := by
    rcases done with - | ⟨l', done⟩
    · exact (htags rfl).symm
    · rw [if_neg fun h => absurd h.1 (by simp), if_neg (cons_ne_nil _ _)]
  unfold collected
  dsimp only
  rw [if_neg htype, if_neg hlimit, hfirst]
  rw [update_holding (by simp [S2SMultilineBatch.isFor]) hnot, if_neg hne, if_neg hne]
  rfl

theorem receiveAll_lines {tags : List MessageTag}
    (hplain : Plain tags) (lines : List MLine) {done : List MLine} (hne : done ≠ [])
    (hdone : done.length + lines.length ≤ 200) {bytes : ℕ} (hbytes : bytes ≤ 511 * done.length) :
    ∃ bytes', receiveAll env fresh src
        (n.holding (collected src sender target ref st mtags done bytes))
        (lines.map fun l => .line (lineTags ref tags l) sender st target l.text) =
      n.holding (collected src sender target ref st mtags (done ++ lines.map MLine.cut) bytes') := by
  induction lines generalizing done bytes with
  | nil =>
    refine ⟨bytes, ?_⟩
    simp only [map_nil, append_nil]
    rfl
  | cons l lines ih =>
    rw [length_cons] at hdone
    obtain ⟨bytes₁, hbytes₁, hstep⟩ := receive_line n hnot (by omega : done.length < 200) hbytes
      hplain (fun h => absurd h hne) l
    have hlen : (done ++ [l.cut]).length = done.length + 1 := by simp
    obtain ⟨bytes₂, hrest⟩ := @ih (done ++ [l.cut]) (by simp) (by omega) bytes₁ (by rwa [hlen])
    refine ⟨bytes₂, ?_⟩
    rw [append_assoc, singleton_append] at hrest
    unfold receiveAll at hrest ⊢
    rw [map_cons, foldl_cons, hstep, hrest, map_cons]

omit hnot

theorem deliverS2s_holding (b b' : S2SMultilineBatch) (st : SendType) :
    deliverS2s env fresh (n.holding b') b st = (deliverS2s env fresh n b st).holding b' := by
  unfold deliverS2s
  split
  · split <;> rfl
  · split
    · rfl
    · split <;> rfl

theorem receive_open (hnot : NotOpen sender ref n.batches) (htarget : target.length ≤ 510)
    (href : ref.length ≤ 22) :
    receive env fresh src n (.batchOpen sender target ref) =
      n.holding (collected src sender target ref st mtags [] 0) := by
  have hnone : n.find sender ref = none :=
    find?_eq_none.mpr fun b hb => by rw [hnot b hb]; exact Bool.false_ne_true
  unfold receive handleBatchOpen
  dsimp only
  rw [para_of_le _ htarget, para_of_le _ (by omega), hnone, take_of_length_le href]
  rfl

theorem receive_close (href : ref.length ≤ 22) {done : List MLine} (hne : done ≠ []) (bytes : ℕ) :
    receive env fresh src
        (n.holding (collected src sender target ref st mtags done bytes))
        (.batchClose sender target ref) =
      deliverS2s env fresh n (collected src sender target ref st mtags done bytes) st := by
  have htype : (collected src sender target ref st mtags done bytes).sendtype.getD .privmsg = st := by
    unfold collected
    rw [if_neg hne, Option.getD_some]
  have hlines : (collected src sender target ref st mtags done bytes).lines ≠ [] := hne
  unfold receive
  dsimp only
  rw [para_of_le _ (by omega), find_holding (isFor_collected done bytes)]
  dsimp only
  unfold handleBatchClose
  rw [if_neg hlines, htype, deliverS2s_holding]
  exact free_holding (isFor_collected done bytes)

/-- The commands for a batch arrive: the server delivers its lines, cut, with the tags of the first
one. -/
theorem receiveAll_batch {d : Delivery} (hnot : NotOpen d.sender ref n.batches)
    (hne : d.lines ≠ []) (hlines : d.lines.length ≤ 200) (hplain : Plain d.mtags)
    (htarget : target.length ≤ 510) (href : ref.length ≤ 22) (env₀ : Env) :
    ∃ bytes, receiveAll env fresh src n (multilineSendS2s env₀ d target ref) =
      deliverS2s env fresh n
        (collected src d.sender target ref d.sendtype d.mtags.reverse (d.lines.map MLine.cut) bytes)
        d.sendtype := by
  obtain ⟨l, ls, hcons⟩ := exists_cons_of_ne_nil hne
  rw [hcons] at hlines
  obtain ⟨bytes₁, hbytes₁, hfirst⟩ := @receive_line env fresh src d.sender target ref d.sendtype
    d.mtags.reverse n hnot [] (by simp) 0 (Nat.zero_le _) d.mtags hplain (fun _ => rfl) l
  -- The tags of the other lines.
  have hplain' : Plain (d.mtags.filter fun m => !env₀.firstOnly m.name) :=
    fun m hm => hplain m (mem_filter.mp hm).1
  obtain ⟨bytes₂, hrest⟩ := @receiveAll_lines env fresh src d.sender target ref d.sendtype
    d.mtags.reverse n hnot _ hplain' ls [l.cut] (by simp) (by simpa [Nat.add_comm] using hlines)
    bytes₁ hbytes₁
  refine ⟨bytes₂, ?_⟩
  have hwire : wireLines env₀ d target ref =
      .line (lineTags ref d.mtags l) d.sender d.sendtype target l.text ::
        ls.map fun l => .line (lineTags ref (d.mtags.filter fun m => !env₀.firstOnly m.name) l)
          d.sender d.sendtype target l.text := by
    unfold wireLines
    rw [hcons]
  have hopen := @receive_open env fresh src d.sender target ref d.sendtype d.mtags.reverse n hnot
    htarget href
  unfold receiveAll at hrest
  unfold receiveAll multilineSendS2s
  rw [hwire, foldl_cons, hopen, cons_append, foldl_cons, hfirst, nil_append,
    foldl_append, hrest, foldl_cons, receive_close n href (by simp), hcons]
  rfl

end Hop

end ObbyIRCd.Multiline
