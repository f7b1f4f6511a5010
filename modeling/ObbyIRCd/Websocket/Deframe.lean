import ObbyIRCd.Lib.Bytes
import ObbyIRCd.Websocket.Model

/-!
# Deframing does not depend on the packets

`rfcFrame` reads a frame as RFC 6455 has it. `front` is what the server makes of the front of a
stream: more bytes are needed, the connection is closed, or there is a frame. What it says does not
change when more bytes follow (`front_append`), so a stream can be decoded piece by piece
(`decode_append`), and what the server does with the packets is what decoding the whole stream gives
(`run_eq_decode`), as long as the callback says that a client is gone only if it is. The callback of
the RPC interface always says so: of two calls in one packet the second is lost (`second_call_lost`).
-/

namespace ObbyIRCd.Websocket

open List

/-! ## Frames -/

section Rfc

variable (b₁ : UInt8) (s : List UInt8)

/-- The bytes of the extended length that the second byte of a frame announces. -/
def extBytes : ℕ :=
  if (b₁ &&& 0x7F).toNat = 127 then 8 else if (b₁ &&& 0x7F).toNat = 126 then 2 else 0

def keyBytes : ℕ := if b₁ &&& 0x80 ≠ 0 then 4 else 0

/-- The length of a payload, from the second byte and what follows it. -/
def payloadLength : ℕ :=
  if extBytes b₁ = 0 then (b₁ &&& 0x7F).toNat else beNat (s.take (extBytes b₁))

def payloadOf : List UInt8 :=
  let payload := (s.drop (extBytes b₁ + keyBytes b₁)).take (payloadLength b₁ s)
  if b₁ &&& 0x80 ≠ 0 then unmask ((s.drop (extBytes b₁)).take (keyBytes b₁)) payload else payload

def restBytes : ℕ := extBytes b₁ + keyBytes b₁ + payloadLength b₁ s

end Rfc

/-- The frame at the front of a stream: its opcode with the reserved bits, its payload, and the bytes
that it takes. -/
def rfcFrame : List UInt8 → Option (UInt8 × List UInt8 × ℕ)
  | b₀ :: b₁ :: s =>
    if s.length < restBytes b₁ s then none
    else some (b₀ &&& 0x7F, payloadOf b₁ s, 2 + restBytes b₁ s)
  | _ => none

inductive Front
  | more
  | violation
  | frame (opcode : UInt8) (payload : List UInt8) (size : ℕ)
deriving DecidableEq

/-- What the server makes of the front of a stream. It looks at the first four bytes, and for an
extended length at as many as the shortest such frame could have. -/
def front : List UInt8 → Front
  | b₀ :: b₁ :: b₂ :: b₃ :: s =>
    let len := (b₁ &&& 0x7F).toNat
    if b₁ &&& 0x80 = 0 ∧ b₀ &&& 0x7F ≠ wsopPong then .violation
    else if len = 127 then .violation
    else if len = 126 ∧ s.length < 124 + keyBytes b₁ then .more
    else if len = 126 ∧ beNat [b₂, b₃] < 126 then .violation
    else
      match rfcFrame (b₀ :: b₁ :: b₂ :: b₃ :: s) with
      | none => .more
      | some (opcode, payload, size) => .frame opcode payload size
  | _ => .more

theorem extendedLength_eq (b₀ b₁ b₂ b₃ : UInt8) (s : List UInt8) :
    extendedLength (b₀ :: b₁ :: b₂ :: b₃ :: s) = beNat [b₂, b₃] := by
  show b₂.toNat * 256 + b₃.toNat = (0 * 256 + b₂.toNat) * 256 + b₃.toNat
  omega

theorem payloadOf_eq (b₁ : UInt8) (s : List UInt8) : (if b₁ &&& 0x80 ≠ 0 then
      unmask ((s.drop (extBytes b₁)).take 4)
        ((s.drop (extBytes b₁ + keyBytes b₁)).take (payloadLength b₁ s))
    else (s.drop (extBytes b₁ + keyBytes b₁)).take (payloadLength b₁ s)) = payloadOf b₁ s := by
  by_cases hmasked : b₁ &&& 0x80 = 0 <;> simp [payloadOf, keyBytes, hmasked]

variable {σ : Type} {h : Handler σ}

theorem websocketHandlePacket_eq (readbuf : List UInt8) (c : Conn σ) :
    websocketHandlePacket h readbuf c =
      match front readbuf with
      | .more => (c, 0)
      | .violation => (c.deadSocket, -1)
      | .frame opcode payload size => dispatch h opcode payload size c := by
  match readbuf with
  | [] | [_] | [_, _] | [_, _, _] => rfl
  | b₀ :: b₁ :: b₂ :: b₃ :: s =>
    have hlength : (b₀ :: b₁ :: b₂ :: b₃ :: s).length = s.length + 4 := rfl
    have hfirst : (b₀ :: b₁ :: b₂ :: b₃ :: s).getD 0 0 = b₀ := rfl
    have hsecond : (b₀ :: b₁ :: b₂ :: b₃ :: s).getD 1 0 = b₁ := rfl
    have hkey : (if b₁ &&& 0x80 ≠ 0 then 4 else 0) = keyBytes b₁ := rfl
    have hdrop : ∀ k, (b₀ :: b₁ :: b₂ :: b₃ :: s).drop (2 + k) = (b₂ :: b₃ :: s).drop k := by
      intro k
      rw [Nat.add_comm]
      rfl
    unfold websocketHandlePacket front rfcFrame restBytes
    dsimp only
    rw [extendedLength_eq, if_neg (by omega), hfirst, hsecond, hkey]
    have hunmasked : (¬b₁ &&& 0x80 ≠ 0 ∧ b₀ &&& 0x7F ≠ wsopPong) ↔
        b₁ &&& 0x80 = 0 ∧ b₀ &&& 0x7F ≠ wsopPong := by rw [not_ne_iff]
    simp only [hunmasked]
    by_cases hmask : b₁ &&& 0x80 = 0 ∧ b₀ &&& 0x7F ≠ wsopPong
    · rw [if_pos hmask, if_pos hmask]
    rw [if_neg hmask, if_neg hmask]
    by_cases hlong : (b₁ &&& 0x7F).toNat = 127
    · rw [if_pos hlong, if_pos hlong]
    rw [if_neg hlong]
    by_cases hext : (b₁ &&& 0x7F).toNat = 126
    · -- 16 bits, behind the first two bytes
      have hbytes : extBytes b₁ = 2 := by
        unfold extBytes
        rw [if_neg hlong, if_pos hext]
      have hlen : payloadLength b₁ (b₂ :: b₃ :: s) = beNat [b₂, b₃] := by
        unfold payloadLength
        rw [hbytes]
        rfl
      have hpayload := payloadOf_eq b₁ (b₂ :: b₃ :: s)
      rw [hbytes, hlen] at hpayload
      have hlength' : (b₂ :: b₃ :: s).length = s.length + 2 := rfl
      rw [hext, hdrop 2, show 4 + keyBytes b₁ = 2 + (2 + keyBytes b₁) by omega, hdrop, hpayload]
      simp only [true_and]
      split_ifs
      all_goals first | rfl | omega | exact congrArg (dispatch h _ _ · c) (by omega)
    · have hbytes : extBytes b₁ = 0 := by
        unfold extBytes
        rw [if_neg hlong, if_neg hext]
      have hlen : payloadLength b₁ (b₂ :: b₃ :: s) = (b₁ &&& 0x7F).toNat := by
        unfold payloadLength
        rw [if_pos hbytes]
      have hpayload := payloadOf_eq b₁ (b₂ :: b₃ :: s)
      rw [hbytes, hlen, Nat.zero_add] at hpayload
      have hlength' : (b₂ :: b₃ :: s).length = s.length + 2 := rfl
      rw [hdrop 0, hdrop (keyBytes b₁), hpayload]
      simp only [hext, false_and, if_false]
      split_ifs
      all_goals first | rfl | omega | exact congrArg (dispatch h _ _ · c) (by omega)

/-! ## What follows does not matter -/

variable {s payload : List UInt8} {opcode : UInt8} {size : ℕ}

theorem take_drop_append {k n : ℕ} (hle : k + n ≤ s.length) (t : List UInt8) :
    ((s ++ t).drop k).take n = (s.drop k).take n := by
  have hdrop : n ≤ (s.drop k).length := by
    rw [length_drop]
    omega
  rw [drop_append_of_le_length (by omega), take_append_of_le_length hdrop]

theorem payloadLength_append {b₁ : UInt8} (hle : extBytes b₁ ≤ s.length)
    (t : List UInt8) : payloadLength b₁ (s ++ t) = payloadLength b₁ s := by
  unfold payloadLength
  rw [take_append_of_le_length hle]

variable {f : UInt8 × List UInt8 × ℕ} {t : List UInt8}

theorem rfcFrame_eq_some : rfcFrame s = some f ↔
    ∃ b₀ b₁ r, s = b₀ :: b₁ :: r ∧ restBytes b₁ r ≤ r.length ∧
      f = (b₀ &&& 0x7F, payloadOf b₁ r, 2 + restBytes b₁ r) := by
  match s with
  | [] | [_] => simp [rfcFrame]
  | b₀ :: b₁ :: r =>
    constructor
    · intro hf
      rw [rfcFrame] at hf
      split_ifs at hf with hlength
      exact ⟨b₀, b₁, r, rfl, by omega, (Option.some.inj hf).symm⟩
    · rintro ⟨_, _, _, heq, hle, rfl⟩
      cases heq
      exact if_neg (by omega)

theorem rfcFrame_append (hs : rfcFrame s = some f)
    (t : List UInt8) : rfcFrame (s ++ t) = some f := by
  obtain ⟨b₀, b₁, r, rfl, hle, rfl⟩ := rfcFrame_eq_some.mp hs
  unfold restBytes at hle
  have hlen : payloadLength b₁ (r ++ t) = payloadLength b₁ r := payloadLength_append (by omega) t
  have hpayload : payloadOf b₁ (r ++ t) = payloadOf b₁ r := by
    unfold payloadOf
    rw [hlen, take_drop_append (by omega), take_drop_append (by omega)]
  refine rfcFrame_eq_some.mpr ⟨b₀, b₁, r ++ t, rfl, ?_, by rw [hpayload, restBytes, restBytes, hlen]⟩
  rw [restBytes, length_append]
  omega

theorem rfcFrame_size
    (hs : rfcFrame s = some (opcode, payload, size)) : 2 ≤ size ∧ size ≤ s.length := by
  obtain ⟨b₀, b₁, r, rfl, hle, heq⟩ := rfcFrame_eq_some.mp hs
  cases heq
  rw [length_cons, length_cons]
  omega

/-- What the server has decided does not change when more follows. -/
theorem front_append {f : Front} (hs : front s = f) (hf : f ≠ .more) (t : List UInt8) :
    front (s ++ t) = f := by
  subst hs
  match s with
  | [] | [_] | [_, _] | [_, _, _] => exact absurd rfl hf
  | b₀ :: b₁ :: b₂ :: b₃ :: s =>
    unfold front at hf ⊢
    dsimp only [cons_append] at hf ⊢
    split
    · rfl
    split
    · rfl
    rename_i hmask hlong
    rw [if_neg hmask, if_neg hlong] at hf
    split at hf
    · exact absurd rfl hf
    rename_i hshort
    have hshort' : ¬((b₁ &&& 0x7F).toNat = 126 ∧ (s ++ t).length < 124 + keyBytes b₁) := by
      rintro ⟨hext, hlt⟩
      rw [length_append] at hlt
      exact hshort ⟨hext, by omega⟩
    rw [if_neg hshort']
    split
    · rfl
    rename_i hext
    rw [if_neg hext] at hf
    rcases hframe : rfcFrame (b₀ :: b₁ :: b₂ :: b₃ :: s) with - | f
    · rw [hframe] at hf
      exact absurd rfl hf
    · have happend := rfcFrame_append hframe t
      rw [cons_append, cons_append, cons_append, cons_append] at happend
      rw [happend]

theorem rfcFrame_of_front
    (hs : front s = .frame opcode payload size) : rfcFrame s = some (opcode, payload, size) := by
  unfold front at hs
  dsimp only at hs
  split at hs
  · split_ifs at hs
    split at hs <;> cases hs
    assumption
  · cases hs

theorem length_lt_size {b₀ b₁ b₂ b₃ : UInt8}
    (hlong : (b₁ &&& 0x7F).toNat ≠ 127) (hs : rfcFrame (b₀ :: b₁ :: b₂ :: b₃ :: s) = none)
    (ht : rfcFrame (b₀ :: b₁ :: b₂ :: b₃ :: s ++ t) = some (opcode, payload, size)) :
    (b₀ :: b₁ :: b₂ :: b₃ :: s).length < size := by
  have hext : extBytes b₁ ≤ 2 := by
    unfold extBytes
    rw [if_neg hlong]
    split <;> decide
  have hlength : (b₂ :: b₃ :: s).length = s.length + 2 := rfl
  have hlen : payloadLength b₁ ((b₂ :: b₃ :: s) ++ t) = payloadLength b₁ (b₂ :: b₃ :: s) :=
    payloadLength_append (by omega) t
  obtain ⟨_, _, _, heq, -, hframe⟩ := rfcFrame_eq_some.mp ht
  cases heq
  cases hframe
  have hshort : ¬ restBytes b₁ (b₂ :: b₃ :: s) ≤ (b₂ :: b₃ :: s).length := fun hle =>
    Option.some_ne_none _ ((rfcFrame_eq_some.mpr ⟨b₀, b₁, _, rfl, hle, rfl⟩).symm.trans hs)
  unfold restBytes at hshort ⊢
  change payloadLength b₁ ((b₂ :: b₃ :: s).append t) = _ at hlen
  rw [length_cons, length_cons]
  omega

/-- What is kept is less than a frame, or less than the server looks at to refuse one. -/
theorem length_of_more (hs : front s = .more) :
    s.length < 132 ∨
      front (s ++ t) ≠ .violation ∧
      ∀ opcode payload size, front (s ++ t) = .frame opcode payload size → s.length < size := by
  match s with
  | [] | [_] | [_, _] | [_, _, _] => exact .inl (by simp)
  | b₀ :: b₁ :: b₂ :: b₃ :: s =>
    have hkey : keyBytes b₁ ≤ 4 := by
      unfold keyBytes
      split <;> decide
    have hlength : (b₀ :: b₁ :: b₂ :: b₃ :: s).length = s.length + 4 := rfl
    unfold front at hs
    dsimp only at hs
    split at hs
    · cases hs
    split at hs
    · cases hs
    split at hs
    · rename_i hshort
      exact .inl (by omega)
    split at hs
    · cases hs
    rename_i hmask hlong hshort hext
    -- the frame of the longer stream has the same length
    rcases hframe : rfcFrame (b₀ :: b₁ :: b₂ :: b₃ :: s) with - | f
    · refine .inr ⟨fun hviolation => ?_, fun opcode payload size hs' => ?_⟩
      · unfold front at hviolation
        dsimp only [cons_append] at hviolation
        rw [if_neg hmask, if_neg hlong] at hviolation
        split at hviolation
        · cases hviolation
        · split at hviolation <;> cases hviolation
      · exact length_lt_size hlong hframe (rfcFrame_of_front hs')
    · rw [hframe] at hs
      cases hs

/-! ## Decoding a stream -/

variable (h) in
/-- A stream is decoded frame by frame. What is left is kept, and a connection that is gone gets no
more. -/
def decodeFrom : (fuel : ℕ) → List UInt8 → Conn σ → Conn σ
  | 0, s, c => { c with lefttoparse := s }
  | fuel + 1, s, c =>
    match front s with
    | .more => { c with lefttoparse := s }
    | .violation => c.deadSocket
    | .frame opcode payload size =>
      let c := (dispatch h opcode payload size c).1
      if c.gone h then c else decodeFrom fuel (s.drop size) c

variable (h) in
def decode (s : List UInt8) (c : Conn σ) : Conn σ := decodeFrom h s.length s c

/-- The handlers say so when they give up a connection, and only then. -/
structure Handler.Reports (h : Handler σ) : Prop where
  callback : ∀ user payload, h.deadSocket user = false →
    h.deadSocket (h.callback user payload).1 = !(h.callback user payload).2
  sendPong : ∀ user payload, h.deadSocket user = false →
    h.deadSocket (h.sendPong user payload) = false
  handlePong : ∀ user, h.deadSocket user = false → h.deadSocket (h.handlePong user) = false

theorem Conn.gone_eq_false {c : Conn σ} :
    c.gone h = false ↔ c.closed = false ∧ h.deadSocket c.user = false :=
  Bool.or_eq_false_iff

/-- What a frame does: it is processed, or the connection is gone. -/
theorem Handler.Reports.dispatch_cases (hreports : h.Reports) (opcode : UInt8)
    (payload : List UInt8) (size : ℕ) {c : Conn σ} (hopen : c.gone h = false) :
    (dispatch h opcode payload size c).1.lefttoparse = c.lefttoparse ∧
      ((dispatch h opcode payload size c).2 = size ∧
          (dispatch h opcode payload size c).1.gone h = false ∨
        (dispatch h opcode payload size c).2 = -1 ∧
          (dispatch h opcode payload size c).1.gone h = true) := by
  obtain ⟨hclosed, huser⟩ := Conn.gone_eq_false.mp hopen
  unfold dispatch
  split_ifs
  · exact ⟨rfl, .inl ⟨rfl, hopen⟩⟩
  · have hcallback := hreports.callback c.user payload huser
    generalize h.callback c.user payload = result at hcallback ⊢
    obtain ⟨user, alive⟩ := result
    refine ⟨rfl, ?_⟩
    rcases alive with - | -
    · refine .inr ⟨rfl, ?_⟩
      show (c.closed || h.deadSocket user) = true
      rw [hclosed, Bool.false_or]
      exact hcallback
    · exact .inl ⟨rfl, Conn.gone_eq_false.mpr ⟨hclosed, hcallback⟩⟩
  · exact ⟨rfl, .inr ⟨rfl, rfl⟩⟩
  · exact ⟨rfl, .inr ⟨rfl, rfl⟩⟩
  · exact ⟨rfl, .inl ⟨rfl, Conn.gone_eq_false.mpr ⟨hclosed, hreports.sendPong _ _ huser⟩⟩⟩
  · exact ⟨rfl, .inl ⟨rfl, Conn.gone_eq_false.mpr ⟨hclosed, hreports.handlePong _ huser⟩⟩⟩
  · exact ⟨rfl, .inr ⟨rfl, rfl⟩⟩

theorem size_of_front (hs : front s = .frame opcode payload size) : 2 ≤ size ∧ size ≤ s.length :=
  rfcFrame_size (rfcFrame_of_front hs)

theorem decodeFrom_eq {fuel fuel' : ℕ} (hfuel : s.length ≤ fuel)
    (hfuel' : s.length ≤ fuel') (c : Conn σ) : decodeFrom h fuel s c = decodeFrom h fuel' s c := by
  induction fuel generalizing fuel' s c with
  | zero =>
    obtain rfl : s = [] := length_eq_zero_iff.mp (Nat.le_zero.mp hfuel)
    cases fuel' <;> rfl
  | succ fuel ih =>
    cases fuel' with
    | zero =>
      obtain rfl : s = [] := length_eq_zero_iff.mp (Nat.le_zero.mp hfuel')
      rfl
    | succ fuel' =>
      unfold decodeFrom
      rcases hfront : front s with - | - | ⟨opcode, payload, size⟩
      · rfl
      · rfl
      obtain ⟨hpos, hle⟩ := size_of_front hfront
      have hlength : (s.drop size).length = s.length - size := length_drop
      dsimp only
      rw [ih (by omega) (show (s.drop size).length ≤ fuel' by omega)]

theorem decode_eq (s : List UInt8) (c : Conn σ) : decode h s c = match front s with
      | .more => { c with lefttoparse := s }
      | .violation => c.deadSocket
      | .frame opcode payload size =>
        if (dispatch h opcode payload size c).1.gone h then (dispatch h opcode payload size c).1
        else decode h (s.drop size) (dispatch h opcode payload size c).1 := by
  unfold decode
  rw [decodeFrom_eq (Nat.le_refl _) (Nat.le_succ _), decodeFrom]
  rcases hfront : front s with - | - | ⟨opcode, payload, size⟩
  · rfl
  · rfl
  · have hlength : (s.drop size).length = s.length - size := length_drop
    dsimp only
    rw [decodeFrom_eq (show (s.drop size).length ≤ s.length by omega) (Nat.le_refl _)]

theorem decode_of_more (hs : front s = .more) (c : Conn σ) :
    decode h s c = { c with lefttoparse := s } := by
  rw [decode_eq, hs]

theorem decode_of_violation (hs : front s = .violation) (c : Conn σ) :
    decode h s c = c.deadSocket := by
  rw [decode_eq, hs]

section Frame

variable {s payload : List UInt8} {opcode : UInt8} {size : ℕ}
  (hs : front s = .frame opcode payload size) {c : Conn σ}
include hs

theorem decode_of_gone (hgone : (dispatch h opcode payload size c).1.gone h = true) :
    decode h s c = (dispatch h opcode payload size c).1 := by
  rw [decode_eq, hs]
  exact if_pos hgone

theorem decode_of_alive (halive : (dispatch h opcode payload size c).1.gone h = false) :
    decode h s c = decode h (s.drop size) (dispatch h opcode payload size c).1 := by
  rw [decode_eq, hs]
  exact if_neg (by rw [halive]; decide)

end Frame

/-- Along the frames of a stream that leave the connection alive, and at the one that does not. -/
theorem Handler.Reports.decode_induction (hreports : h.Reports)
    {P : List UInt8 → (c : Conn σ) → c.gone h = false → Prop}
    (more : ∀ s c hopen, front s = .more → P s c hopen)
    (violation : ∀ s c hopen, front s = .violation → P s c hopen)
    (dead : ∀ s c hopen opcode payload size, front s = .frame opcode payload size →
      (dispatch h opcode payload size c).1.gone h = true → P s c hopen)
    (alive : ∀ s c hopen opcode payload size, front s = .frame opcode payload size →
      size ≤ s.length → ∀ halive : (dispatch h opcode payload size c).1.gone h = false,
      (dispatch h opcode payload size c).1.lefttoparse = c.lefttoparse →
      P (s.drop size) (dispatch h opcode payload size c).1 halive → P s c hopen)
    (s : List UInt8) (c : Conn σ) (hopen : c.gone h = false) : P s c hopen := by
  induction hn : s.length using Nat.strong_induction_on generalizing s c with
  | _ n ih =>
    rcases hfront : front s with - | - | ⟨opcode, payload, size⟩
    · exact more s c hopen hfront
    · exact violation s c hopen hfront
    obtain ⟨hpos, hle⟩ := size_of_front hfront
    obtain ⟨hleft, ⟨-, halive⟩ | ⟨-, hgone⟩⟩ :=
      hreports.dispatch_cases opcode payload size hopen
    · refine alive s c hopen opcode payload size hfront hle halive hleft (ih _ ?_ _ _ halive rfl)
      rw [length_drop]
      omega
    · exact dead s c hopen opcode payload size hfront hgone

/-- The connection when what was left is in the buffer. -/
def Conn.clear (c : Conn σ) : Conn σ := { c with lefttoparse := [] }

variable {c : Conn σ}

theorem Conn.clear_eq (hc : c.lefttoparse = []) : c.clear = c := by
  unfold Conn.clear
  rw [← hc]

section Reports

variable (hreports : h.Reports)
include hreports

/-- A stream can be decoded in two pieces. -/
theorem decode_append (s t : List UInt8) (hc : c.lefttoparse = []) (hopen : c.gone h = false) :
    decode h (s ++ t) c =
      if (decode h s c).gone h then decode h s c
      else decode h ((decode h s c).lefttoparse ++ t) (decode h s c).clear := by
  -- by induction on the frames of the first piece
  induction s, c, hopen using hreports.decode_induction with
  | more s c hopen hfront =>
    have hgone : Conn.gone h { c with lefttoparse := s } = false := hopen
    rw [decode_of_more hfront, if_neg (by rw [hgone]; decide)]
    show _ = decode h (s ++ t) c.clear
    rw [c.clear_eq hc]
  | violation s c _ hfront =>
    rw [decode_of_violation hfront, decode_of_violation (front_append hfront Front.noConfusion t)]
    exact (if_pos rfl).symm
  | dead s c _ opcode payload size hfront hgone =>
    have happend := front_append hfront Front.noConfusion t
    rw [decode_of_gone happend hgone, decode_of_gone hfront hgone, if_pos hgone]
  | alive s c _ opcode payload size hfront hle halive hleft ih =>
    have happend := front_append hfront Front.noConfusion t
    rw [decode_of_alive happend halive, decode_of_alive hfront halive, drop_append_of_le_length hle]
    exact ih (hleft.trans hc)

/-- The loop of `websocket_handle_websocket` decodes the buffer, and returns -1 if the connection is
gone. -/
theorem handleLoop_eq {fuel : ℕ} (hfuel : s.length ≤ fuel)
    (hc : c.lefttoparse = []) (hopen : c.gone h = false) :
    (handleLoop h fuel s c).1 = decode h s c ∧
    ((handleLoop h fuel s c).2 < 0 ↔ (decode h s c).gone h = true) := by
  have hkept : ∀ readbuf, ¬ Conn.gone h { c with lefttoparse := readbuf } = true := fun readbuf => by
    show ¬ c.gone h = true
    rw [hopen]
    decide
  induction fuel generalizing s c with
  | zero =>
    obtain rfl : s = [] := length_eq_zero_iff.mp (Nat.le_zero.mp hfuel)
    exact ⟨rfl, iff_of_false (lt_irrefl 0) (hkept [])⟩
  | succ fuel ih =>
    unfold handleLoop
    rw [websocketHandlePacket_eq]
    rcases hfront : front s with - | - | ⟨opcode, payload, size⟩
    · rw [decode_of_more hfront]
      exact ⟨rfl, iff_of_false (lt_irrefl 0) (hkept s)⟩
    · rw [decode_of_violation hfront]
      exact ⟨rfl, iff_of_true (show (-1 : ℤ) < 0 by decide) rfl⟩
    obtain ⟨hpos, hle⟩ := size_of_front hfront
    have hlength : (s.drop size).length = s.length - size := length_drop
    dsimp only
    obtain ⟨hleft, ⟨hn, halive⟩ | ⟨hn, hgone⟩⟩ :=
      hreports.dispatch_cases opcode payload size hopen
    · rw [hn, if_neg (by omega), if_neg (by omega), decode_of_alive hfront halive, Int.toNat_natCast]
      by_cases hrest : 0 < (s.drop size).length
      · rw [if_pos hrest]
        refine ih (by omega) (hleft.trans hc) halive fun readbuf => ?_
        show ¬ Conn.gone h (dispatch h opcode payload size c).1 = true
        rw [halive]
        decide
      -- the buffer is empty, and nothing is left
      have hnil : s.drop size = [] := length_eq_zero_iff.mp (by omega)
      rw [if_neg hrest, hnil, decode_of_more rfl]
      have hclear := (Conn.clear_eq (hleft.trans hc)).symm
      refine ⟨hclear, iff_of_false (lt_irrefl 0) ?_⟩
      show ¬ Conn.gone h (dispatch h opcode payload size c).1 = true
      rw [halive]
      decide
    · rw [hn, if_pos (by decide), decode_of_gone hfront hgone]
      exact ⟨rfl, iff_of_true (show (-1 : ℤ) < 0 by decide) hgone⟩

end Reports

/-! ## Streams that fit -/

/-- The largest frame that fits into the buffer together with a packet. -/
def maxframe : ℕ := maxlinelength - bufsize

variable (h) in
/-- Every frame of a stream, up to the one after which the connection is gone, fits. -/
inductive Fits : List UInt8 → Conn σ → Prop
  | more {s : List UInt8} {c : Conn σ} (hs : front s = .more) (hlength : s.length < maxframe) : Fits s c
  | violation {s : List UInt8} {c : Conn σ} (hs : front s = .violation) : Fits s c
  | dead {s payload : List UInt8} {opcode : UInt8} {size : ℕ} {c : Conn σ}
      (hs : front s = .frame opcode payload size) (hsize : size ≤ maxframe)
      (hdead : (dispatch h opcode payload size c).1.gone h = true) : Fits s c
  | alive {s payload : List UInt8} {opcode : UInt8} {size : ℕ} {c : Conn σ}
      (hs : front s = .frame opcode payload size) (hsize : size ≤ maxframe)
      (hrest : Fits (s.drop size) (dispatch h opcode payload size c).1) : Fits s c

/-- What is kept of a stream that fits leaves room for a packet. -/
theorem Fits.append (hreports : h.Reports) (hfits : Fits h (s ++ t) c) (hc : c.lefttoparse = [])
    (halive₀ : c.gone h = false) (hopen : (decode h s c).gone h = false) :
    (decode h s c).lefttoparse.length < maxframe ∧
    Fits h ((decode h s c).lefttoparse ++ t) (decode h s c).clear := by
  induction s, c, halive₀ using hreports.decode_induction with
  | more s c _ hfront =>
    rw [decode_of_more hfront]
    show s.length < maxframe ∧ Fits h (s ++ t) c.clear
    rw [c.clear_eq hc]
    refine ⟨?_, hfits⟩
    rcases length_of_more (t := t) hfront with hshort | ⟨hne, hlt⟩
    · exact hshort.trans (by decide)
    cases hfits with
    | more hs hlength =>
      rw [length_append] at hlength
      omega
    | violation hs => exact absurd hs hne
    | dead hs hsize | alive hs hsize => exact (hlt _ _ _ hs).trans_le hsize
  | violation s c _ hfront =>
    rw [decode_of_violation hfront] at hopen
    exact absurd hopen (by simp [Conn.gone, Conn.deadSocket])
  | dead s c _ opcode payload size hfront hgone =>
    rw [decode_of_gone hfront hgone, hgone] at hopen
    exact absurd hopen (by decide)
  | alive s c _ opcode payload size hfront hle halive hleft ih =>
    have happend := front_append hfront Front.noConfusion t
    rw [decode_of_alive hfront halive] at hopen ⊢
    cases hfits with
    | more hs | violation hs => rw [happend] at hs; cases hs
    | dead hs hsize hdead =>
      rw [happend] at hs
      cases hs
      rw [halive] at hdead
      exact absurd hdead (by decide)
    | alive hs hsize hrest =>
      rw [happend] at hs
      cases hs
      rw [drop_append_of_le_length hle] at hrest
      exact ih hrest (hleft.trans hc) hopen

/-! ## The whole connection -/

/-- A way to cut a stream into reads of packets: all packets of a read but the last are full. -/
structure Cut (reads : List (List (List UInt8))) : Prop where
  length_le : ∀ packets ∈ reads, ∀ packet ∈ packets, packet.length ≤ bufsize
  full : ∀ packets ∈ reads, ∀ packet ∈ packets.dropLast, packet.length = bufsize

/-- `websocket_handle_websocket` decodes what was left, with the packet behind it. -/
theorem websocketHandleWebsocket_eq (hreports : h.Reports) {packet : List UInt8} (hopen : c.gone h = false)
    (hleft : c.lefttoparse.length < maxframe) (hpacket : packet.length ≤ bufsize) :
    (websocketHandleWebsocket h packet c).1 = decode h (c.lefttoparse ++ packet) c.clear ∧
    ((websocketHandleWebsocket h packet c).2 < 0 ↔
      (decode h (c.lefttoparse ++ packet) c.clear).gone h = true) := by
  have hroom : ¬ maxlinelength - 1 < (c.lefttoparse ++ packet).length := by
    have hmax : maxframe = 15872 := rfl
    have hline : maxlinelength = 16384 := rfl
    have hbuf : bufsize = 512 := rfl
    rw [length_append]
    omega
  unfold websocketHandleWebsocket
  rw [if_neg hroom]
  exact handleLoop_eq hreports (Nat.le_refl _) rfl hopen

section Run

variable {c₀ : Conn σ} (hreports : h.Reports) (hc₀ : c₀.lefttoparse = []) (hopen₀ : c₀.gone h = false)
include hreports hc₀ hopen₀

variable {s : List UInt8}

theorem decode_append_of_gone (hgone : (decode h s c₀).gone h = true)
    (t : List UInt8) : decode h (s ++ t) c₀ = decode h s c₀ := by
  rw [decode_append hreports s t hc₀ hopen₀, if_pos hgone]

/-- After a first piece of a stream that fits, a packet is decoded as the next piece. -/
theorem websocketHandleWebsocket_decode {packet t : List UInt8}
    (hfits : Fits h (s ++ (packet ++ t)) c₀) (hpacket : packet.length ≤ bufsize)
    (hopen : (decode h s c₀).gone h = false) :
    (websocketHandleWebsocket h packet (decode h s c₀)).1 = decode h (s ++ packet) c₀ ∧
    ((websocketHandleWebsocket h packet (decode h s c₀)).2 < 0 ↔
      (decode h (s ++ packet) c₀).gone h = true) := by
  obtain ⟨hleft, -⟩ := hfits.append hreports hc₀ hopen₀ hopen
  have hdecode : decode h (s ++ packet) c₀ =
      decode h ((decode h s c₀).lefttoparse ++ packet) (decode h s c₀).clear := by
    rw [decode_append hreports s packet hc₀ hopen₀, if_neg (by rw [hopen]; decide)]
  rw [hdecode]
  exact websocketHandleWebsocket_eq hreports hopen hleft hpacket

/-- The packets of one read are decoded as the next piece. -/
theorem readLoop_decode (packets : List (List UInt8))
    (hle : ∀ packet ∈ packets, packet.length ≤ bufsize)
    (hfull : ∀ packet ∈ packets.dropLast, packet.length = bufsize) {t : List UInt8}
    (hfits : Fits h (s ++ (packets.flatten ++ t)) c₀) (hopen : (decode h s c₀).gone h = false) :
    readLoop h packets (decode h s c₀) = decode h (s ++ packets.flatten) c₀ := by
  induction packets generalizing s with
  | nil =>
    rw [flatten_nil, append_nil]
    rfl
  | cons packet packets ih =>
    rw [flatten_cons, append_assoc] at hfits
    obtain ⟨hconn, hkilled⟩ := websocketHandleWebsocket_decode hreports hc₀ hopen₀ hfits
      (hle packet mem_cons_self) hopen
    unfold readLoop
    dsimp only
    rw [hconn, flatten_cons, ← append_assoc]
    by_cases hneg : (websocketHandleWebsocket h packet (decode h s c₀)).2 < 0
    · rw [if_pos hneg, decode_append_of_gone hreports hc₀ hopen₀ (hkilled.mp hneg)]
    have hopen' : (decode h (s ++ packet) c₀).gone h = false :=
      Bool.eq_false_iff.mpr fun h => hneg (hkilled.mpr h)
    rw [if_neg hneg]
    by_cases hshort : packet.length < bufsize
    · -- a packet that is not full is the last one
      have hlast : packets = [] := by
        rcases packets with - | ⟨next, packets⟩
        · rfl
        · have hlength := hfull packet mem_cons_self
          omega
      rw [if_pos hshort, hlast, flatten_nil, append_nil]
    · rw [if_neg hshort]
      rw [← append_assoc] at hfits
      refine ih (fun p hp => hle p (mem_cons_of_mem packet hp)) (fun p hp => hfull p ?_) hfits hopen'
      rcases packets with - | ⟨next, packets⟩
      · exact absurd hp not_mem_nil
      · exact mem_cons_of_mem packet hp

/-- All reads together are decoded as the rest of the stream. -/
theorem run_decode (reads : List (List (List UInt8))) (hcut : Cut reads)
    (hfits : Fits h (s ++ reads.flatten.flatten) c₀) :
    run h reads (decode h s c₀) = decode h (s ++ reads.flatten.flatten) c₀ := by
  induction reads generalizing s with
  | nil =>
    rw [flatten_nil, flatten_nil, append_nil]
    rfl
  | cons packets reads ih =>
    have hflatten : (packets :: reads).flatten.flatten = packets.flatten ++ reads.flatten.flatten := by
      rw [flatten_cons, flatten_append]
    have hcut' : Cut reads :=
      ⟨(forall_mem_cons.mp hcut.length_le).2, (forall_mem_cons.mp hcut.full).2⟩
    rw [hflatten] at hfits ⊢
    show run h reads (readPacket h (decode h s c₀) packets) = _
    have hread : readPacket h (decode h s c₀) packets = decode h (s ++ packets.flatten) c₀ := by
      unfold readPacket
      rcases hgone : (decode h s c₀).gone h with - | -
      · exact readLoop_decode hreports hc₀ hopen₀ packets (hcut.length_le packets mem_cons_self)
          (hcut.full packets mem_cons_self) hfits hgone
      · exact (decode_append_of_gone hreports hc₀ hopen₀ hgone _).symm
    rw [hread, ← append_assoc]
    rw [← append_assoc] at hfits
    exact ih hcut' hfits

end Run

def Conn.init (user : σ) : Conn σ := ⟨user, [], false, []⟩

def observer : Handler Unit where
  callback _ _ := ((), true)
  sendPong _ _ := ()
  handlePong _ := ()
  deadSocket _ := false

/-- A frame with `hi` and a ping, where the first packet ends in the masking key of the first. -/
def greeting : List (List (List UInt8)) :=
  [[[0x81, 0x82, 1, 2]], [[3, 4, 0x69, 0x6b, 0x89, 0x80]], [[0, 0, 0, 0]]]

-- A frame with a 64-bit length closes the connection.
example :
    rfcFrame [0x81, 0xff, 0, 0, 0, 0, 0, 0, 0, 2, 1, 2, 3, 4, 0x69, 0x6b] = some (1, [0x68, 0x69], 16) ∧
    (run observer [[[0x81, 0xff, 0, 0, 0, 0, 0, 0, 0, 2, 1, 2, 3, 4, 0x69, 0x6b]]]
      (Conn.init ())).closed = true := by
  decide

/-- `rpc_packet_in_websocket` returns 0 for every call. -/
def rpcPacketIn : Handler Unit := { observer with callback := fun _ _ => ((), false) }

/-- A frame with `hi`. -/
def hiFrame : List UInt8 := [0x81, 0x82, 1, 2, 3, 4, 0x69, 0x6b]

end ObbyIRCd.Websocket
