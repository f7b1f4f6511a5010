import ObbyIRCd.Multiline.Model

/-!
# The limits of multiline batches

The lines and the bytes of a batch are counted as its lines arrive (`Within`), and a line that is too
much marks the batch as failed: what follows is swallowed, and `BATCH -ref` only removes the batch
(`limits_run`). The text whose length is counted is built by another function, `multiline_concat_text`.
-/

namespace ObbyIRCd.Multiline

open List

/-! ## The text of a batch -/

/-- The size that `multiline_concat_text` computes for its buffer. `first` says whether the next line
is the first one. -/
def concatBufsize : Bool → List MLine → ℕ
  | _, [] => 1
  | first, l :: ls =>
    (if !first && !l.concat then 1 else 0) + l.text.length + concatBufsize false ls

/-- The second loop of `multiline_concat_text`, which stops where the buffer ends. -/
def concatFrom (bufsize : ℕ) : Bool → List Char → List MLine → List Char
  | _, buf, [] => buf
  | first, buf, l :: ls =>
    let newline := !first && !l.concat
    if newline ∧ bufsize ≤ buf.length + 1 then buf
    else
      let buf := if newline then buf ++ ['\n'] else buf
      if bufsize ≤ buf.length + l.text.length then buf
      else concatFrom bufsize false (buf ++ l.text) ls

variable (lines : List MLine)

/-- `multiline_concat_text`. -/
def multilineConcatText : List Char :=
  concatFrom (concatBufsize true lines) true [] lines

theorem concatBufsize_pos (first : Bool) (lines : List MLine) : 0 < concatBufsize first lines := by
  fun_induction concatBufsize first lines <;> omega

theorem length_concatFrom {bufsize : ℕ} (lines : List MLine) (first : Bool) (buf : List Char)
    (hsize : buf.length + concatBufsize first lines = bufsize) :
    (concatFrom bufsize first buf lines).length + 1 = bufsize := by
  induction lines generalizing first buf with
  | nil => exact hsize
  | cons l ls ih =>
    have hpos := concatBufsize_pos false ls
    rw [concatBufsize] at hsize
    unfold concatFrom
    cases hnewline : !first && !l.concat with
    | false =>
      rw [hnewline] at hsize
      simp only [Bool.false_eq_true, false_and, if_false] at hsize ⊢
      rw [if_neg (by omega)]
      exact ih _ _ (by rw [length_append]; omega)
    | true =>
      rw [hnewline] at hsize
      simp only [if_true, true_and] at hsize ⊢
      rw [if_neg (by omega), if_neg (by rw [length_append, length_singleton]; omega)]
      exact ih _ _ (by rw [length_append, length_append, length_singleton]; omega)

theorem length_multilineConcatText :
    (multilineConcatText lines).length + 1 = concatBufsize true lines :=
  length_concatFrom lines true [] (Nat.zero_add _)

theorem concatBufsize_append (first : Bool) (l : MLine) :
    concatBufsize first (lines ++ [l]) = concatBufsize first lines + (l.text.length +
      if (first = false ∨ 0 < lines.length) ∧ l.concat = false then 1 else 0) := by
  induction lines generalizing first with
  | nil => cases first <;> cases hconcat : l.concat <;> simp [concatBufsize, hconcat] <;> omega
  | cons l' ls ih =>
    rw [cons_append, concatBufsize, ih, concatBufsize]
    simp only [true_or, true_and, length_cons, Nat.zero_lt_succ, or_true]
    omega

/-- A line adds to the text what `multiline_calc_add_bytes` says. -/
theorem length_multilineConcatText_append (text : List Char) (concat : Bool) :
    (multilineConcatText (lines ++ [⟨text, concat⟩])).length =
      (multilineConcatText lines).length + multilineCalcAddBytes text.length lines.length concat := by
  have happend := concatBufsize_append lines true ⟨text, concat⟩
  rw [← length_multilineConcatText, ← length_multilineConcatText] at happend
  simp only [Bool.true_eq_false, false_or] at happend
  rw [multilineCalcAddBytes]
  omega

/-! ## The lines of a batch -/

/-- The counters of an open batch. -/
structure MultilineBatch.Within (env : Env) (loc : Local) (b : MultilineBatch) : Prop where
  count : b.lineCount = b.lines.length
  count_le : b.lineCount ≤ maxLines env loc b.target
  bytes : b.receivedBytes = (multilineConcatText b.lines).length
  bytes_le : b.receivedBytes ≤ loc.limits.maxBytes

/-- A batch with these lines is too long for the client or for the target. -/
def Exceeds (env : Env) (loc : Local) (target : List Char) (lines : List MLine) : Prop :=
  maxLines env loc target < lines.length ∨ loc.limits.maxBytes < (multilineConcatText lines).length

variable {env : Env} {loc : Local} {b b' : MultilineBatch} {ref target text : List Char}
  {mtags : List MessageTag} {sendtype : SendType} {concat : Bool}

theorem within_batchOpen (hb : batchOpen env loc ref target mtags = some b) : b.Within env loc := by
  have hempty : b.lines = [] ∧ b.lineCount = 0 ∧ b.receivedBytes = 0 := by
    unfold batchOpen at hb
    grind
  obtain ⟨hlines, hcount, hbytes⟩ := hempty
  have htext : (multilineConcatText []).length = 0 := rfl
  constructor <;> simp [hlines, hcount, hbytes, htext]

section

variable (hb : overrideMsg env loc b sendtype target text concat = some b')

include hb

theorem overrideMsg_eq :
    b'.batchId = b.batchId ∧ b'.target = b.target ∧
      ((b'.failMessage.isSome = true ∧ b'.lines = b.lines ∧ b'.lineCount = b.lineCount ∧
          b'.receivedBytes = b.receivedBytes) ∨
        b'.lines = b.lines ++ [⟨text, concat⟩] ∧ b'.lineCount = b.lineCount + 1 ∧
          b'.receivedBytes =
            b.receivedBytes + multilineCalcAddBytes text.length b.lineCount concat ∧
          b.lineCount < maxLines env loc b.target ∧ b'.receivedBytes ≤ loc.limits.maxBytes) := by
  unfold overrideMsg at hb
  dsimp only at hb
  split_ifs at hb <;> cases hb <;> simp_all [MultilineBatch.fail]

theorem within_overrideMsg (hwithin : b.Within env loc) : b'.Within env loc := by
  obtain ⟨hcount, hcountLe, hbytes, hbytesLe⟩ := hwithin
  obtain ⟨-, htarget, ⟨-, hlines', hcount', hbytes'⟩ | ⟨hlines', hcount', hbytes', hlt, hle⟩⟩ :=
    overrideMsg_eq hb
  · exact ⟨by rw [hcount', hlines', hcount], by rwa [hcount', htarget],
      by rw [hbytes', hlines', hbytes], by rwa [hbytes']⟩
  · constructor
    · rw [hcount', hlines', hcount, length_append, length_singleton]
    · rw [hcount', htarget]
      exact hlt
    · rw [hbytes', hlines', length_multilineConcatText_append, hbytes, hcount]
    · exact hle

theorem failed_of_exceeds (hwithin : b.Within env loc)
    (hexceeds : Exceeds env loc b.target (b.lines ++ [⟨text, concat⟩])) :
    b'.batchId = b.batchId ∧ b'.failMessage.isSome = true := by
  obtain ⟨hid, -, ⟨hfailed, -⟩ | ⟨-, -, hbytes', hlt, hle⟩⟩ := overrideMsg_eq hb
  · exact ⟨hid, hfailed⟩
  · obtain hlines | hbytes := hexceeds
    · rw [length_append, length_singleton, ← hwithin.count] at hlines
      omega
    · rw [length_multilineConcatText_append, ← hwithin.bytes, ← hwithin.count] at hbytes
      omega

end

/-! ## The commands of a client -/

/-- `BATCH +ref draft/multiline target`, `BATCH -ref`, and `PRIVMSG` or `NOTICE`. -/
inductive Cmd
  | batchOpen (mtags : List MessageTag) (ref target : List Char)
  | batchClose (fresh : Fresh) (ref : List Char)
  | msg (mtags : List MessageTag) (sendtype : SendType) (target text : List Char)

/-- The open batch of a client, and the batches that were delivered for it. -/
structure Session where
  batch : Option MultilineBatch
  delivered : List (Delivery × List (ℕ × Wire))

/-- The value of the `batch` tag. -/
def batchRef (mtags : List MessageTag) : Option (List Char) :=
  (findMtag mtags batchName).bind MessageTag.value

/-- `multiline_override_batch` and `multiline_override_msg` for a local client. What is not about its
open batch goes to the next handler. -/
def step (env : Env) (loc : Local) (s : Session) : Cmd → Session
  | .batchOpen mtags ref target =>
    match s.batch with
    | some _ => s
    | none => { s with batch := batchOpen env loc ref target mtags }
  | .batchClose fresh ref =>
    match s.batch with
    | some b =>
      if b.batchId = ref then ⟨none, s.delivered ++ (multilineDeliver env loc fresh b).toList⟩ else s
    | none => s
  | .msg mtags sendtype target text =>
    match s.batch with
    | some b =>
      if batchRef mtags = some b.batchId then
        { s with
          batch := overrideMsg env loc b sendtype target text (findMtag mtags concatName).isSome }
      else s
    | none => s

def run (env : Env) (loc : Local) (s : Session) (cmds : List Cmd) : Session :=
  cmds.foldl (step env loc) s

def Cmd.closes (ref : List Char) : Cmd → Prop
  | .batchClose _ ref' => ref' = ref
  | _ => False

variable {s : Session} {c : Cmd} {cmds : List Cmd}

theorem within_step (hwithin : ∀ b ∈ s.batch, b.Within env loc) :
    ∀ b ∈ (step env loc s c).batch, b.Within env loc := by
  intro b hb
  unfold step at hb
  split at hb <;> split at hb
  · exact hwithin b hb
  · exact within_batchOpen hb
  · split_ifs at hb
    · simp at hb
    · exact hwithin b hb
  · exact hwithin b hb
  · next b₀ hb₀ =>
    split_ifs at hb
    · exact within_overrideMsg hb (hwithin b₀ hb₀)
    · exact hwithin b hb
  · exact hwithin b hb

theorem within_run (hwithin : ∀ b ∈ s.batch, b.Within env loc) :
    ∀ b ∈ (run env loc s cmds).batch, b.Within env loc := by
  induction cmds generalizing s with
  | nil => exact hwithin
  | cons c cmds ih => exact ih (within_step hwithin)

variable {delivered : List (Delivery × List (ℕ × Wire))}

theorem step_failed (hfailed : b.failMessage.isSome = true) (hc : ¬c.closes b.batchId) :
    step env loc ⟨some b, delivered⟩ c = ⟨some b, delivered⟩ := by
  cases c with
  | batchOpen mtags ref target => rfl
  | batchClose fresh ref => exact if_neg fun heq => hc heq.symm
  | msg mtags sendtype target text =>
    simp only [step, overrideMsg, if_pos hfailed, ite_self]

/-- A batch that has failed stays as it is until it is closed. -/
theorem run_failed (hfailed : b.failMessage.isSome = true) (hcmds : ∀ c ∈ cmds, ¬c.closes b.batchId) :
    run env loc ⟨some b, delivered⟩ cmds = ⟨some b, delivered⟩ := by
  induction cmds with
  | nil => rfl
  | cons c cmds ih =>
    obtain ⟨hc, hcmds⟩ := forall_mem_cons.mp hcmds
    rw [run, foldl_cons, step_failed hfailed hc]
    exact ih hcmds

theorem close_failed (fresh : Fresh) (hfailed : b.failMessage.isSome = true) :
    step env loc ⟨some b, delivered⟩ (.batchClose fresh b.batchId) = ⟨none, delivered⟩ := by
  have hcomplete : b.complete = false := by
    rw [MultilineBatch.complete, Option.isNone_eq_false_iff.mpr hfailed]
    rfl
  simp [step, multilineDeliver, hcomplete]

/-- The counters of an open batch are right and within the limits. After a line that is too much the
batch is removed, at once or by the command that ends it, and nothing of it is delivered. -/
theorem limits_run (cmds : List Cmd) (b : MultilineBatch)
    (hb : (run env loc ⟨none, []⟩ cmds).batch = some b) :
    b.Within env loc ∧
      ∀ mtags sendtype target text, batchRef mtags = some b.batchId →
        Exceeds env loc b.target (b.lines ++ [⟨text, (findMtag mtags concatName).isSome⟩]) →
        step env loc (run env loc ⟨none, []⟩ cmds) (.msg mtags sendtype target text) =
            ⟨none, (run env loc ⟨none, []⟩ cmds).delivered⟩ ∨
          ∀ more fresh, (∀ c ∈ more, ¬c.closes b.batchId) →
            run env loc (run env loc ⟨none, []⟩ cmds)
                (.msg mtags sendtype target text :: more ++ [.batchClose fresh b.batchId]) =
              ⟨none, (run env loc ⟨none, []⟩ cmds).delivered⟩ := by
  have hwithin : b.Within env loc := within_run (by simp) b hb
  refine ⟨hwithin, fun mtags sendtype target text href hexceeds => ?_⟩
  generalize run env loc ⟨none, []⟩ cmds = s at hb
  have hstep : step env loc s (.msg mtags sendtype target text) = { s with
      batch := overrideMsg env loc b sendtype target text (findMtag mtags concatName).isSome } := by
    simp only [step, hb, href, if_true]
  cases hmsg : overrideMsg env loc b sendtype target text (findMtag mtags concatName).isSome with
  | none => exact .inl (hstep.trans (by rw [hmsg]))
  | some b' =>
    right
    intro more fresh hmore
    obtain ⟨hid, hfailed⟩ := failed_of_exceeds hmsg hwithin hexceeds
    rw [run, cons_append, foldl_cons, foldl_append, hstep, hmsg]
    have hrun : more.foldl (step env loc) ⟨some b', s.delivered⟩ = ⟨some b', s.delivered⟩ :=
      run_failed hfailed (by rwa [hid])
    rw [hrun, foldl_cons, foldl_nil, ← hid, close_failed fresh hfailed]

/-- A server without channels. -/
def queryEnv : Env where
  findChannel _ := none
  findClient _ := none
  servers := []
  lowestRankingPrefix _ := none
  prefixToMode := id
  equalOrGreater _ := []
  firstOnly _ := false
  otherTags _ := []
  otherTags_name := by simp

/-- A client that may send one line. -/
def writer : Local where
  id := ['a']
  hasMultiline := true
  limits := ⟨1, 8, by decide, by decide⟩
  floodprotMaxLines _ := 0
  findNick _ := none
  canSendToChannel _ _ text := some text
  canSendToUser _ _ text := some text
  admits _ := true

def oneLine : List Cmd :=
  [.batchOpen [] ['1'] ['b'], .msg [⟨batchName, some ['1']⟩] .privmsg ['b'] ['h', 'i']]

/-- A batch of one line that cannot take another. -/
theorem limits_run_oneLine : ∃ b, (run queryEnv writer ⟨none, []⟩ oneLine).batch = some b ∧
    b.Within queryEnv writer ∧ Exceeds queryEnv writer b.target (b.lines ++ [⟨['!'], true⟩]) :=
  ⟨_, rfl, (limits_run oneLine _ rfl).1, .inl (by decide)⟩

end ObbyIRCd.Multiline
