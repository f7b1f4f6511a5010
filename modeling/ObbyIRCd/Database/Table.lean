import ObbyIRCd.Database.Plain

/-!
# Tables in a file

What the modules that keep a table in a file have in common: they write all records or give up, open a
file without the secret if it is not crypted, and read items one after the other until a read fails.
An item that was written is read back if its strings are readable (`readAs_spec`), and so are many
(`readItems_spec`).
-/

namespace ObbyIRCd.Database

variable {C : Crypto}

/-! ## Whole files -/

/-- A file is written with `W_SAFE` around each call, and closed. -/
def saveRecords (secr : Option (Secret C)) (now : UInt64) (random : Random) (free : ℕ)
    (rs : List Record) : Option (List UInt8) :=
  match unrealdbOpenWrite secr now random free with
  | .error _ => none
  | .ok (c, _) => (writeRecords c rs).bind unrealdbClose

def unrealdbOpenReadAny (secr : Option (Secret C)) (file : List UInt8) :
    Except DbError (UnrealDB C) :=
  match unrealdbOpenRead secr file with
  | .ok c => .ok c
  | .error e => if e.code = .notCrypted then unrealdbOpenRead none file else .error e

variable {rs : List Record}

theorem unrealdbOpenReadAny_saveRecords {secr secr₂ : Option (Secret C)}
    (hpass : secr₂.map Secret.password = secr.map Secret.password) {now : UInt64} {random : Random}
    {free : ℕ} {file : List UInt8}
    (hsave : saveRecords secr now random free rs = some file) (hrs : ∀ r ∈ rs, r.Readable) :
    ∃ c, unrealdbOpenReadAny secr₂ file = .ok c ∧ Reading c (rs.flatMap encode) := by
  unfold saveRecords at hsave
  split at hsave
  · cases hsave
  rename_i c secr' hopen
  obtain ⟨c', hwrite, hclose⟩ := Option.bind_eq_some_iff.mp hsave
  obtain ⟨s, hdr, p₀, hw, hback⟩ := unrealdbOpen_spec hpass hopen
  obtain ⟨body, rfl, hbody⟩ := unrealdbClose_spec (writeRecords_spec hw hrs hwrite) hclose
  obtain ⟨c₁, hopen', hr⟩ := hback body _ hbody
  refine ⟨c₁, ?_, hr⟩
  unfold unrealdbOpenReadAny
  rw [hopen']

/-- On a disk with enough space a plain file is saved. -/
theorem saveRecords_plain (C : Crypto) (now : UInt64) (random : Random) {free : ℕ}
    (hrs : ∀ r ∈ rs, r.Readable) (hfree : plainSize rs ≤ free) :
    saveRecords (C := C) none now random free rs = some (plainBytes now rs) := by
  obtain ⟨c, c', hopen, hwrite, hclose⟩ := exists_writeRecords_plain C now random hrs hfree
  simp [saveRecords, hopen, hwrite, Option.bind_some, hclose]

/-! ## Items -/

variable {α σ ε : Type*}

/-- The calls `ks`, with `R_SAFE` around each, and what is made of the records. -/
def readAs (failed : ε) (decode : List Record → Option α) (ks : List Kind) (c : UnrealDB C) :
    Except ε (α × UnrealDB C) :=
  match readRecords c ks with
  | none => .error failed
  | some (rs, c') =>
    match decode rs with
    | none => .error failed
    | some a => .ok (a, c')

variable {decode : List Record → Option α} {c : UnrealDB C}

/-- Records that were written are read and decoded. -/
theorem readAs_spec (failed : ε) {a : α} (hdecode : decode rs = some a) (hrs : ∀ r ∈ rs, r.Readable)
    {q : List UInt8} (hr : Reading c (rs.flatMap encode ++ q)) :
    ∃ c', readAs failed decode (rs.map Record.kind) c = .ok (a, c') ∧ Reading c' q := by
  obtain ⟨c', hread, hr'⟩ := readRecords_spec hrs hr
  refine ⟨c', ?_, hr'⟩
  simp [readAs, hread, hdecode]

theorem readAs_readable {failed : ε} {ks : List Kind}
    {c' : UnrealDB C} {a : α} (h : readAs failed decode ks c = .ok (a, c')) :
    ∃ rs, decode rs = some a ∧ ∀ r ∈ rs, r.Readable := by
  unfold readAs at h
  split at h
  · cases h
  rename_i rs c₁ hread
  split at h
  · cases h
  rename_i a' hdecode
  obtain ⟨rfl, -⟩ := Prod.mk.inj (Except.ok.inj h)
  exact ⟨rs, hdecode, readRecords_readable hread⟩

/-- A loop that reads `n` items, each of which is added to what is there. An item that cannot be read
ends it. -/
def readItems (read : UnrealDB C → Except ε (α × UnrealDB C)) (add : σ → α → σ) :
    ℕ → σ → UnrealDB C → σ × Except ε (UnrealDB C)
  | 0, s, c => (s, .ok c)
  | n + 1, s, c =>
    match read c with
    | .error e => (s, .error e)
    | .ok (a, c') => readItems read add n (add s a) c'

variable {read : UnrealDB C → Except ε (α × UnrealDB C)}

/-- A loop over items reads them all if it reads each. -/
theorem readItems_spec (add : σ → α → σ) {enc : α → List UInt8} {items : List α}
    (hread : ∀ a ∈ items, ∀ (c : UnrealDB C) (q : List UInt8), Reading c (enc a ++ q) →
      ∃ c', read c = .ok (a, c') ∧ Reading c' q)
    (s : σ) {q : List UInt8} (hr : Reading c (items.flatMap enc ++ q)) :
    ∃ c', readItems read add items.length s c = (items.foldl add s, .ok c') ∧ Reading c' q := by
  induction items generalizing s c with
  | nil => exact ⟨c, rfl, hr⟩
  | cons a items ih =>
    rw [List.flatMap_cons, List.append_assoc] at hr
    obtain ⟨c₁, h1, hr⟩ := hread a List.mem_cons_self c _ hr
    obtain ⟨c₂, h2, hr⟩ := ih (fun b hb => hread b (List.mem_cons_of_mem a hb)) (add s a) hr
    refine ⟨c₂, ?_, hr⟩
    rw [List.length_cons, readItems, h1]
    exact h2

theorem readItems_invariant {add : σ → α → σ}
    {P : σ → Prop} (hadd : ∀ s a c c', read c = .ok (a, c') → P s → P (add s a)) (n : ℕ) {s : σ}
    (hs : P s) (c : UnrealDB C) : P (readItems read add n s c).1 := by
  induction n generalizing s c with
  | zero => exact hs
  | succ n ih =>
    unfold readItems
    split
    · exact hs
    · rename_i a c' hread
      exact ih (hadd s a c c' hread hs) c'

end ObbyIRCd.Database
