import ObbyIRCd.Authtoken.Tokens

/-!
# A token sent in pieces

A batch is open from `BATCH +ref` to `BATCH -ref`, whatever else happens in between, unless its client
quits. A step adds a piece to its entry if it is a piece of this batch, and leaves the entry alone
otherwise (`findPending_step`), so at the end the entry has the pieces that were sent
(`findPending_run`). Closing the batch then gives the answer of one message with the whole token
(`piecesAgree`).
-/

namespace ObbyIRCd.Authtoken

open PendingValidate Keyed

variable {cfg : Cfg}

/-- A step that ends the batch `ref` of a client: it closes the batch, or the client quits. -/
def Op.Ends (client : ℕ) (ref : List Char) : Op → Prop
  | .batch c parv => c.id = client ∧ arg parv 1 = some ('-' :: ref)
  | .quit c => c = client
  | _ => False

/-- The piece that a step adds to the batch `ref` of a client. -/
def Op.piece (client : ℕ) (ref : List Char) : Op → Option (List Char)
  | .token c batchTag parv _ =>
    if c.id = client ∧ c.hasBatch ∧ batchTag = some ref ∧
        (arg parv 1).map lower = some "validate".toList then arg parv 2
    else none
  | _ => none

/-- The pieces that steps add to the batch `ref` of a client. -/
def pieces (client : ℕ) (ref : List Char) (ops : List (ℤ × Op)) : List (List Char) :=
  ops.filterMap fun o => o.2.piece client ref

def PendingValidate.after (p : PendingValidate) : Option (List Char) → PendingValidate
  | none => p
  | some piece => p.add piece

theorem PendingValidate.key_add (p : PendingValidate) (piece : List Char) :
    (p.add piece).key = p.key := by
  unfold add
  split_ifs <;> rfl

theorem findPending_addPiece (pending : List PendingValidate) (client client' : ℕ)
    (ref ref' piece : List Char) :
    findPending (addPiece pending client' ref' piece) client ref =
      if (client, ref) = (client', ref') then
        (findPending pending client' ref').map (add · piece)
      else findPending pending client ref :=
  find_modify key (fun p => p.key_add piece) pending (client, ref)

variable (now : ℤ) (s : State)

/-- Validating a token leaves the pending entries alone. -/
theorem consume_pending (service url token : List Char) (refused : Reply)
    (accepted : AuthToken → Reply) :
    (consume now s service url token refused accepted).1.pending = s.pending := by
  unfold consume
  split
  · rfl
  · split_ifs <;> rfl

/-- So does `do_validate`. -/
theorem doValidate_pending (client : Client) (service url token : List Char) :
    (doValidate cfg now s client service url token).1.pending = s.pending := by
  unfold doValidate
  split
  · rfl
  · split_ifs <;> first | rfl | exact consume_pending _ _ _ _ _ _ _

/-- So does `rpc_authtoken_validate`. -/
theorem rpcAuthtokenValidate_pending (service url token : List Char) :
    (rpcAuthtokenValidate cfg now s service url token).1.pending = s.pending := by
  unfold rpcAuthtokenValidate
  split
  · rfl
  · split_ifs <;> first | rfl | exact consume_pending _ _ _ _ _ _ _

/-- So does `TOKEN GENERATE`. -/
theorem cmdTokenGenerate_pending (client : Client) (parv : List (List Char)) (tokstr : List Char) :
    (cmdTokenGenerate cfg now s client parv tokstr).1.pending = s.pending := by
  unfold cmdTokenGenerate
  split_ifs
  any_goals rfl
  split
  · rfl
  · split
    · rfl
    · split_ifs <;> rfl

variable {parv : List (List Char)}

/-- `TOKEN VALIDATE` is `cmd_token_validate`. -/
theorem cmdToken_of_validate (c : Client) (batchTag : Option (List Char)) (tokstr : List Char)
    (h : (arg parv 1).map lower = some "validate".toList) :
    cmdToken cfg now s c batchTag parv tokstr = cmdTokenValidate cfg now s c batchTag parv := by
  obtain ⟨sub, hsub, hlower⟩ := Option.map_eq_some_iff.mp h
  unfold cmdToken
  rw [hsub]
  dsimp only
  rw [hlower, if_neg (by decide), if_neg (by decide), if_pos rfl]

/-- The other subcommands leave the pending entries alone. -/
theorem cmdToken_pending (c : Client) (batchTag : Option (List Char)) (tokstr : List Char)
    (h : (arg parv 1).map lower ≠ some "validate".toList) :
    (cmdToken cfg now s c batchTag parv tokstr).1.pending = s.pending := by
  unfold cmdToken
  split
  · rfl
  rename_i sub hsub
  rw [hsub] at h
  split_ifs with _ _ hval
  · rfl
  · exact cmdTokenGenerate_pending _ _ _ _ _
  · exact absurd (congrArg some hval) h
  · rfl

section

variable {s : State} {client : ℕ} {ref : List Char} {p : PendingValidate}
  (hp : findPending s.pending client ref = some p)

include hp

/-- `TOKEN VALIDATE` adds a piece of the batch, and leaves the entry alone otherwise. -/
theorem findPending_validate (href : ref ≠ []) (now : ℤ) (c : Client)
    (batchTag : Option (List Char)) (parv : List (List Char)) :
    findPending (cmdTokenValidate cfg now s c batchTag parv).1.pending client ref =
      some (p.after (if c.id = client ∧ c.hasBatch ∧ batchTag = some ref then arg parv 2
        else none)) := by
  unfold cmdTokenValidate
  by_cases hbatch : c.hasBatch
  · rw [if_neg (by simp [hbatch])]
    rcases hown : ownBatch s.pending c.id batchTag with _ | ref'
    · -- The tag does not name this batch, which is open.
      have hother : ¬ (c.id = client ∧ c.hasBatch ∧ batchTag = some ref) := by
        rintro ⟨rfl, -, rfl⟩
        simp [ownBatch, href, hp] at hown
      rw [if_neg hother]
      dsimp only
      split
      · split
        · exact hp
        · rw [doValidate_pending]
          exact hp
      · exact hp
    · have htag := (Option.filter_eq_some_iff.mp hown).1
      by_cases hsame : c.id = client ∧ ref' = ref
      · obtain ⟨rfl, rfl⟩ := hsame
        rw [if_pos ⟨rfl, hbatch, htag⟩]
        dsimp only
        split
        · rename_i hnone
          rw [hnone]
          exact hp
        · rename_i piece hpiece
          rw [hpiece, findPending_addPiece, if_pos rfl, hp]
          rfl
      · have hother : ¬ (c.id = client ∧ c.hasBatch ∧ batchTag = some ref) := by
          rintro ⟨rfl, -, heq⟩
          exact hsame ⟨rfl, Option.mem_unique htag heq⟩
        rw [if_neg hother]
        dsimp only
        split
        · exact hp
        · rw [findPending_addPiece, if_neg fun heq => ?_]
          · exact hp
          · exact hsame ⟨(Prod.mk.inj heq).1.symm, (Prod.mk.inj heq).2.symm⟩
  · simp [hbatch, hp, after]

/-- Opening a batch leaves the entry alone: a batch with its reference is not opened again. -/
theorem findPending_openBatch (c : Client) (ref' : List Char) (parv : List (List Char)) :
    findPending (openBatch s c ref' parv).1.pending client ref = some p := by
  unfold openBatch
  split
  · exact hp
  split_ifs with _ _ _ _ hopen
  any_goals exact hp
  · split
    · exact hp
    · exact hp
  · split
    · have hne : (c.id, ref') ≠ (client, ref) := by
        intro heq
        obtain ⟨rfl, rfl⟩ := Prod.mk.inj heq
        exact hopen (by rw [hp]; rfl)
      exact (find_cons _ _ _ _).trans ((if_neg hne).trans hp)
    · exact hp

theorem findPending_closeBatch (now : ℤ) (c : Client) {ref' : List Char}
    (hne : (c.id, ref') ≠ (client, ref)) :
    findPending (closeBatch cfg now s c ref').1.pending client ref = some p := by
  have hunlink := (find_eraseP_of_ne key hne.symm s.pending).trans hp
  unfold closeBatch
  split
  · exact hp
  split_ifs
  · exact hunlink
  · dsimp only
    rw [doValidate_pending]
    exact hunlink

/-- `BATCH` leaves the entry alone, unless it closes the batch. -/
theorem findPending_batch (now : ℤ) (c : Client) (parv : List (List Char))
    (hend : ¬ (c.id = client ∧ arg parv 1 = some ('-' :: ref))) :
    findPending (authtokenOverrideBatch cfg now s c parv).1.pending client ref = some p := by
  unfold authtokenOverrideBatch
  split_ifs
  · exact hp
  split
  · exact findPending_openBatch hp c _ parv
  · rename_i ref' harg
    refine findPending_closeBatch hp now c fun heq => hend ?_
    obtain ⟨rfl, rfl⟩ := Prod.mk.inj heq
    exact ⟨rfl, harg⟩
  · exact hp

theorem findPending_step (href : ref ≠ []) (now : ℤ) {op : Op} (hend : ¬ op.Ends client ref) :
    findPending (step cfg s now op).1.pending client ref =
      some (p.after (op.piece client ref)) := by
  cases op with
  | token c batchTag parv tokstr =>
    dsimp only [step, Op.piece]
    by_cases hval : (arg parv 1).map lower = some "validate".toList
    · rw [cmdToken_of_validate now s c batchTag tokstr hval, findPending_validate hp href]
      simp only [hval, and_true]
    · rw [cmdToken_pending now s c batchTag tokstr hval, if_neg fun h => hval h.2.2.2]
      exact hp
  | batch c parv => exact findPending_batch hp now c parv hend
  | rpc service url token =>
    rw [step, rpcAuthtokenValidate_pending]
    exact hp
  | quit c =>
    have hne : c ≠ client := hend
    exact (find_filter key (fun k => decide (k.1 ≠ c))
      (by simpa using hne.symm) s.pending).trans hp
  | cleanup => exact hp

/-- After steps that do not end the batch, its entry has the pieces that were sent. -/
theorem findPending_run (href : ref ≠ []) (ops : List (ℤ × Op))
    (hend : ∀ o ∈ ops, ¬ o.2.Ends client ref) :
    findPending (run cfg s ops).1.pending client ref =
      some ((pieces client ref ops).foldl add p) := by
  induction ops generalizing s p with
  | nil => exact hp
  | cons o ops ih =>
    have hstep := @findPending_step cfg s client ref p hp href o.1 o.2 (hend o List.mem_cons_self)
    have hrest := ih hstep fun o' ho' => hend o' (List.mem_cons_of_mem _ ho')
    rw [run, hrest]
    unfold pieces
    rw [List.filterMap_cons]
    rcases o.2.piece client ref with _ | piece <;> rfl

end

theorem foldl_add (texts : List (List Char)) (p : PendingValidate) (hp : p.overflowed = false)
    (hlen : p.totalLen + texts.flatten.length < maxPendingToken) :
    texts.foldl add p =
      { p with pieces := p.pieces ++ texts, totalLen := p.totalLen + texts.flatten.length } := by
  induction texts generalizing p with
  | nil => simp
  | cons piece texts ih =>
    rw [List.flatten_cons, List.length_append] at hlen ⊢
    have hadd : p.add piece =
        { p with pieces := p.pieces ++ [piece], totalLen := p.totalLen + piece.length } := by
      unfold add
      rw [if_neg]
      simp only [hp, Bool.false_or, decide_eq_true_eq, Nat.not_le, ge_iff_le]
      omega
    have hrest : (p.add piece).totalLen + texts.flatten.length < maxPendingToken := by
      rw [hadd]
      dsimp only
      omega
    rw [List.foldl_cons, ih (p.add piece) (by rw [hadd]; exact hp) hrest, hadd]
    simp [Nat.add_assoc]

theorem arg_eq {i : ℕ} {text : List Char} (h : parv[i - 1]? = some text)
    (htext : text ≠ []) : arg parv i = some text := by
  unfold arg
  rw [h, Option.filter_some, if_pos (by simpa using htext)]

def openMessage (ref service url : List Char) : List (List Char) :=
  ['+' :: ref, "draft/authtoken".toList, service, url]

def closeMessage (ref : List Char) : List (List Char) := ['-' :: ref]

def validateMessage (service url token : List Char) : List (List Char) :=
  ["VALIDATE".toList, service, url, token]

/-- What a client needs to send a token in pieces. -/
structure Client.Able (c : Client) : Prop where
  isUser : c.isUser = true
  hasBatch : c.hasBatch = true
  hasAuthtoken : c.hasAuthtoken = true

variable {c : Client} {service url : List Char}

/-- Validating a token in one message is `do_validate`. -/
theorem step_validateMessage (now : ℤ) (hc : c.hasBatch = true) {token : List Char}
    (hservice : service ≠ []) (hurl : url ≠ []) (htoken : token ≠ []) (tokstr : List Char) :
    step cfg s now (.token c none (validateMessage service url token) tokstr) =
      ((doValidate cfg now s c service url token).1,
        .validation service url token (doValidate cfg now s c service url token).2) := by
  have hval : (arg (validateMessage service url token) 1).map lower = some "validate".toList := by
    rfl
  have h2 : arg (validateMessage service url token) 2 = some service := arg_eq rfl hservice
  have h3 : arg (validateMessage service url token) 3 = some url := arg_eq rfl hurl
  have h4 : arg (validateMessage service url token) 4 = some token := arg_eq rfl htoken
  dsimp only [step]
  rw [cmdToken_of_validate now s c none tokstr hval]
  simp [cmdTokenValidate, hc, ownBatch, h2, h3, h4]

theorem findPending_openMessage {s : State} (hc : c.Able) (now : ℤ) {ref : List Char}
    (href : validBatchReferenceTag ref = true) (hservice : service ≠ []) (hurl : url ≠ [])
    (hfree : findPending s.pending c.id ref = none) :
    findPending (step cfg s now (.batch c (openMessage ref service url))).1.pending c.id ref =
      some ⟨c.id, ref, service, url, [], 0, false⟩ := by
  have harg : arg (openMessage ref service url) 1 = some ('+' :: ref) := rfl
  have hopen : openBatch s c ref (openMessage ref service url) =
      ({ s with pending := ⟨c.id, ref, service, url, [], 0, false⟩ :: s.pending }, .silent) := by
    have h2 : arg (openMessage ref service url) 2 = some "draft/authtoken".toList := rfl
    have h3 : arg (openMessage ref service url) 3 = some service := arg_eq rfl hservice
    have h4 : arg (openMessage ref service url) 4 = some url := arg_eq rfl hurl
    simp [openBatch, h2, h3, h4, href, hc.hasAuthtoken, hc.hasBatch, hfree]
  simp only [step, authtokenOverrideBatch, hc.isUser, harg, Bool.not_true, Bool.false_eq_true,
    if_false, hopen]
  exact (find_cons _ _ _ _).trans (if_pos rfl)

/-- A token sent in pieces gets the same answer as in one message. -/
def PiecesAgree (cfg : Cfg) : Prop :=
  ∀ (s : State) (c c' : Client) (start now : ℤ) (ref service url tokstr : List Char)
    (ops : List (ℤ × Op)), c.Able → c'.Able → c'.id = c.id → validBatchReferenceTag ref = true →
    service ≠ [] → url ≠ [] → findPending s.pending c.id ref = none →
    (∀ o ∈ ops, ¬ o.2.Ends c.id ref) → (pieces c.id ref ops).flatten ≠ [] →
    (pieces c.id ref ops).flatten.length < maxPendingToken →
    let s₁ := (step cfg s start (.batch c (openMessage ref service url))).1
    let s₂ := (run cfg s₁ ops).1
    let inPieces := step cfg s₂ now (.batch c' (closeMessage ref))
    let atOnce := step cfg s₂ now (.token c' none
      (validateMessage service url (pieces c.id ref ops).flatten) tokstr)
    inPieces.2 = atOnce.2 ∧ inPieces.1.tokens = atOnce.1.tokens

/-- Whatever happens while the batch is open, the answer is that of one message with the whole token
at the time when the batch is closed. The list of tokens is the same as well. -/
theorem piecesAgree (cfg : Cfg) : PiecesAgree cfg := by
  intro s c c' start now ref service url tokstr ops hc hc' hid href hservice hurl hfree hend
    hnonempty hlen s₁ s₂ inPieces atOnce
  have hne : ref ≠ [] := by
    rintro rfl
    cases href
  have hopen : findPending s₁.pending c.id ref = some ⟨c.id, ref, service, url, [], 0, false⟩ :=
    findPending_openMessage hc start href hservice hurl hfree
  have hpending : findPending s₂.pending c'.id ref = some ⟨c.id, ref, service, url,
      pieces c.id ref ops, (pieces c.id ref ops).flatten.length, false⟩ := by
    rw [hid, findPending_run hopen hne ops hend, foldl_add _ _ rfl (by simpa using hlen)]
    simp
  have harg : arg (closeMessage ref) 1 = some ('-' :: ref) := rfl
  have hlength : ¬ (pieces c.id ref ops).flatten.length = 0 := by
    rwa [List.length_eq_zero_iff]
  have hclose : inPieces = ({ (doValidate cfg now s₂ c' service url
        (pieces c.id ref ops).flatten).1 with
        pending := unlinkPending (doValidate cfg now s₂ c' service url
          (pieces c.id ref ops).flatten).1.pending c'.id ref },
      .validation service url (pieces c.id ref ops).flatten
        (doValidate cfg now s₂ c' service url (pieces c.id ref ops).flatten).2) := by
    simp only [inPieces, step, authtokenOverrideBatch, hc'.isUser, harg, Bool.not_true,
      Bool.false_eq_true, if_false, closeBatch, hpending, Bool.false_or, decide_eq_true_eq, hlength]
  have hone : atOnce = _ := step_validateMessage s₂ now hc'.hasBatch hservice hurl hnonempty tokstr
  rw [hclose, hone]
  exact ⟨rfl, rfl⟩

/-- In every run in which all tokens that are issued are different, every event that accepts a token
uses it as issued, and a token sent in pieces gets the same answer as in one message. -/
theorem tokens_sound (cfg : Cfg) (ops : List (ℤ × Op))
    (hnew : ((run cfg ⟨[], []⟩ ops).2.filterMap fun e => e.outcome.issued).Nodup) :
    Sound cfg (run cfg ⟨[], []⟩ ops).2 ∧ PiecesAgree cfg :=
  ⟨run_sound cfg ops hnew, piecesAgree cfg⟩

/-- A service that needs an account. -/
def exampleCfg : Cfg :=
  ⟨900, [⟨"FILEHOST".toList, "https://upload.example.com".toList, none, true, []⟩]⟩

def exampleClient (id : ℕ) (hasAuthtoken : Bool) : Client :=
  ⟨id, true, hasAuthtoken, true, some "ann".toList, "ann".toList,
    [⟨"#irc".toList, "o".toList⟩], fun _ => true⟩

def exampleGenerate : ℤ × Op :=
  (1000, .token (exampleClient 1 true) none ["GENERATE".toList, "FILEHOST".toList]
    "0123456789abcdef".toList)

def exampleValidate (c : Client) : ℤ × Op :=
  (now, .token c none (validateMessage "filehost".toList "https://upload.example.com".toList
    "0123456789abcdef".toList) [])

def examplePieces (c : Client) : List (ℤ × Op) :=
  [(now, .batch c (openMessage "r".toList "filehost".toList "https://upload.example.com".toList)),
    (now, .token c (some "r".toList) ["VALIDATE".toList, "01234567".toList] []),
    (now, .token c (some "r".toList) ["VALIDATE".toList, "89abcdef".toList] []),
    (now, .batch c (closeMessage "r".toList))]

/-- The first of two presentations is accepted, the second is not. -/
theorem tokens_sound_twice :
    let events := (run exampleCfg ⟨[], []⟩ [exampleGenerate,
      exampleValidate 1001 (exampleClient 2 true), exampleValidate 1002 (exampleClient 2 true)]).2
    Sound exampleCfg events ∧ events.map (fun e => e.outcome.accepted) =
      [none, some "0123456789abcdef".toList, none] :=
  ⟨(tokens_sound _ _ (by decide +kernel)).1, by decide +kernel⟩

/-- A token is accepted at its time of expiry, 900 seconds after it was issued. And a client without
the capability `draft/authtoken`, which one message does not need, cannot present it in pieces. -/
theorem accepted_at_expiry_and_not_in_pieces : ((run exampleCfg ⟨[], []⟩ [exampleGenerate,
      exampleValidate 1900 (exampleClient 2 true)]).2.map fun e => e.outcome.accepted) =
        [none, some "0123456789abcdef".toList] ∧
    ((run exampleCfg ⟨[], []⟩ [exampleGenerate,
      exampleValidate 1001 (exampleClient 2 false)]).2.map fun e => e.outcome.accepted) =
        [none, some "0123456789abcdef".toList] ∧
    ((run exampleCfg ⟨[], []⟩ (exampleGenerate ::
      examplePieces 1001 (exampleClient 2 false))).2.map fun e => e.outcome.accepted) =
        [none, none, none, none, none] := by
  decide +kernel

end ObbyIRCd.Authtoken
