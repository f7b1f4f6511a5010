import ObbyIRCd.Buffers.Spec

/-!
# Line framing does not depend on packet boundaries

A run of a connection's queue is any interleaving of `dbuf_put` and `dbuf_getmsg` calls. The lines
it yields, once the queue is drained, are those of the whole byte stream (`Framing.lines`), however
the stream was cut into packets and whenever the scanner was called.

The invariant (`Run.Inv`) relates the lines obtained so far and the bytes still queued to the stream
put so far, for every continuation `x` of the stream: the lines of `stream ++ x` are those obtained
and those of `contents ++ x`. A put moves the packet from `x` to both sides. A call of the scanner
keeps the invariant by `junk_append` and `lines_line`.
-/

namespace ObbyIRCd.Buffers

open List Framing

open Framing (lines tail)

/-- The lines that a byte stream frames: at most `READBUFSIZE - 2` bytes of each. -/
def streamLines (stream : List UInt8) : List (List UInt8) :=
  lines isEol isBlank (readBufSize - 2) stream

def streamTail (stream : List UInt8) : List UInt8 := tail isEol isBlank stream

/-- A call on the queue. -/
inductive Op
  | put (packet : List UInt8)
  | getmsg
deriving DecidableEq, Repr

/-- The lines obtained so far and the queue. -/
structure Run where
  /-- The lines that `dbuf_getmsg` returned, in order. -/
  obtained : List (List UInt8)
  dyn : Dbuf

def Run.init : Run := ⟨[], dbufQueueInit⟩

/-- One call. A return value of 0 is no line. -/
def Run.step (r : Run) : Op → Option Run
  | .put packet => (dbufPut r.dyn packet).map fun dyn => { r with dyn }
  | .getmsg =>
    (dbufGetmsg r.dyn).map fun (ret, buf, dyn) =>
      ⟨if ret = 0 then r.obtained else r.obtained ++ [buf], dyn⟩

/-- The calls of `ops`, in order. -/
def Run.steps (r : Run) : List Op → Option Run
  | [] => some r
  | op :: ops => (r.step op).bind fun r' => r'.steps ops

/-- Call `dbuf_getmsg` until it returns 0, at most `fuel` times; `none` if it has not by then. -/
def Run.drain : ℕ → Run → Option Run
  | 0, _ => none
  | fuel + 1, r =>
    match dbufGetmsg r.dyn with
    | none => none
    | some (0, _, dyn) => some { r with dyn }
    | some (_ + 1, buf, dyn) => Run.drain fuel ⟨r.obtained ++ [buf], dyn⟩

/-- The bytes that the puts of `ops` queue. -/
def stream (ops : List Op) : List UInt8 :=
  ops.flatMap fun op => match op with
    | .put packet => packet
    | .getmsg => []

/-- The invariant of a run that has put `s`. -/
structure Run.Inv (r : Run) (s : List UInt8) : Prop where
  /-- The queue is well formed. -/
  wf : r.dyn.WF
  lines_eq : ∀ x, streamLines (s ++ x) = r.obtained ++ streamLines (r.dyn.contents ++ x)
  tail_eq : ∀ x, streamTail (s ++ x) = streamTail (r.dyn.contents ++ x)

theorem Run.Inv.init : Run.init.Inv [] :=
  ⟨dbufQueueInit_wf, fun _ => rfl, fun _ => rfl⟩

variable {s : List UInt8} {r : Run}

theorem Run.Inv.put (h : r.Inv s) {packet : List UInt8}
    (hp : packet ≠ []) : ∃ r', r.step (.put packet) = some r' ∧ r'.Inv (s ++ packet) := by
  obtain ⟨dyn', h1, h2, h3⟩ := dbufPut_spec h.wf hp
  refine ⟨⟨r.obtained, dyn'⟩, by simp [Run.step, h1], h2, fun x => ?_, fun x => ?_⟩
  · rw [append_assoc, h.lines_eq, h3, append_assoc]
  · rw [append_assoc, h.tail_eq, h3, append_assoc]

/-- The bytes in front of a queue's first line are empty characters. -/
theorem contents_eq_junk_append (c : List UInt8) :
    ∃ j, c = j ++ c.dropWhile isEmptyChar ∧ ∀ b ∈ j, Framing.junk isEol isBlank b = true :=
  ⟨c.takeWhile isEmptyChar, takeWhile_append_dropWhile.symm, fun _ hb =>
    mem_takeWhile_imp hb⟩

/-- What one call of the scanner returns and leaves, for the lines and the tail of the stream: it
returns 0 and no line is complete, or it returns the first line and the queue gets shorter. -/
theorem dbufGetmsg_framing {dyn : Dbuf} (hwf : dyn.WF) :
    ∃ dyn', dyn'.WF ∧ (∀ x, streamTail (dyn.contents ++ x) = streamTail (dyn'.contents ++ x)) ∧
      ((dbufGetmsg dyn = some (0, [], dyn') ∧
          (∀ x, streamLines (dyn.contents ++ x) = streamLines (dyn'.contents ++ x)) ∧
          streamLines dyn'.contents = [] ∧ streamTail dyn'.contents = dyn'.contents) ∨
        ∃ n line, dbufGetmsg dyn = some (n + 1, line, dyn') ∧
          dyn'.contents.length < dyn.contents.length ∧
          ∀ x, streamLines (dyn.contents ++ x) = line :: streamLines (dyn'.contents ++ x)) := by
  obtain ⟨dyn', hwf', hinc, hcomp⟩ := dbufGetmsg_spec hwf
  refine ⟨dyn', hwf', ?_⟩
  obtain ⟨j, hj, hjunk⟩ := contents_eq_junk_append dyn.contents
  have hdrop := @junk_append _ isEol isBlank (readBufSize - 2) j hjunk
  set c1 := dyn.contents.dropWhile isEmptyChar with hc1
  set l := c1.takeWhile (!isEol ·) with hl
  have hleol : ∀ b ∈ l, isEol b = false := fun b hb => by simpa using mem_takeWhile_imp hb
  have hsplit : c1 = l ++ c1.dropWhile (!isEol ·) := takeWhile_append_dropWhile.symm
  -- A line does not start with a blank: blanks are dropped with the other empty characters.
  have hfirst : ∀ {b r}, c1 = b :: r → isEol b = false ∧ isBlank b = false := by
    intro b r hc
    have hb : isEmptyChar b = false := of_dropWhile_eq_cons (hc1.symm.trans hc)
    simpa only [isEmptyChar, junk, Bool.or_eq_false_iff] using hb
  by_cases hc2 : c1.dropWhile (!isEol ·) = []
  · obtain ⟨h1, h2⟩ := hinc hc2
    have hno : ∀ b ∈ c1, isEol b = false := by
      rw [hsplit, hc2, append_nil]; exact hleol
    refine ⟨fun x => ?_, .inl ⟨h1, fun x => ?_, ?_, ?_⟩⟩
    · rw [h2, hj, append_assoc]; exact (hdrop _).2
    · rw [h2, hj, append_assoc]; exact (hdrop _).1
    · rw [h2]; exact lines_of_forall hno
    · rw [h2]
      refine (tail_of_forall hno).trans ?_
      rcases hc : c1 with _ | ⟨b, r⟩
      · rfl
      · simp [(hfirst hc).2]
  · obtain ⟨h1, h2⟩ := hcomp hc2
    obtain ⟨e, c3, hec3⟩ := exists_cons_of_ne_nil hc2
    have he : isEol e = true := by simpa using of_dropWhile_eq_cons hec3
    obtain ⟨j', hj', hjunk'⟩ := contents_eq_junk_append (e :: c3)
    -- The line is not empty: its first byte is no empty character.
    obtain ⟨hl0, hlblank⟩ : l ≠ [] ∧ l.dropWhile isBlank = l := by
      rcases hc : c1 with _ | ⟨b, r⟩
      · simp [hc] at hc2
      · obtain ⟨hb, hb'⟩ := hfirst hc
        simp [hl, hc, hb, hb']
    have hdyn : dyn.contents = j ++ (l ++ e :: c3) := by rw [hj, hsplit, hec3]
    have hdyn' : e :: c3 = j' ++ dyn'.contents := by rw [h2, hec3]; exact hj'
    have hc3 : ∀ x, streamLines (c3 ++ x) = streamLines (dyn'.contents ++ x) ∧
        streamTail (c3 ++ x) = streamTail (dyn'.contents ++ x) := by
      intro x
      have he' : junk isEol isBlank e = true := by simp [junk, he]
      have hline := @cons_junk _ isEol isBlank (readBufSize - 2) e he' (c3 ++ x)
      have h := @junk_append _ isEol isBlank (readBufSize - 2) j' hjunk' (dyn'.contents ++ x)
      rw [← append_assoc, ← hdyn'] at h
      exact ⟨hline.1.symm.trans h.1, hline.2.symm.trans h.2⟩
    refine ⟨fun x => ?_, .inr ?_⟩
    · rw [← (hc3 x).2, hdyn, append_assoc, append_assoc]
      exact (hdrop _).2.trans (tail_piece hleol he)
    · obtain ⟨n, hn⟩ : ∃ n, (l.take (readBufSize - 2)).length = n + 1 := by
        have := length_pos_iff.mpr hl0
        refine ⟨(l.take (readBufSize - 2)).length - 1, ?_⟩
        simp only [length_take, readBufSize]
        omega
      refine ⟨n, l.take (readBufSize - 2), by rw [h1, hn], ?_, fun x => ?_⟩
      · have h3 := congrArg length hdyn
        have h4 := congrArg length hdyn'
        have h5 := length_pos_iff.mpr hl0
        simp only [length_append, length_cons] at h3 h4
        omega
      · rw [← (hc3 x).1, hdyn, append_assoc, append_assoc]
        exact (hdrop _).1.trans (lines_line hleol he hlblank hl0)

theorem Run.Inv.scan (h : r.Inv s) (more : List (List UInt8)) {dyn' : Dbuf} (hwf : dyn'.WF)
    (htail : ∀ x, streamTail (r.dyn.contents ++ x) = streamTail (dyn'.contents ++ x))
    (hlines : ∀ x, streamLines (r.dyn.contents ++ x) = more ++ streamLines (dyn'.contents ++ x)) :
    (⟨r.obtained ++ more, dyn'⟩ : Run).Inv s :=
  ⟨hwf, fun x => by rw [h.lines_eq, hlines, append_assoc], fun x => by rw [h.tail_eq, htail]⟩

theorem Run.Inv.getmsg (h : r.Inv s) :
    ∃ r', r.step .getmsg = some r' ∧ r'.Inv s := by
  obtain ⟨dyn', hwf, htail, ⟨h1, h2, -, -⟩ | ⟨n, line, h1, -, h2⟩⟩ := dbufGetmsg_framing h.wf
  · exact ⟨_, by simp [Run.step, h1], h.scan [] hwf htail h2⟩
  · exact ⟨_, by simp [Run.step, h1], h.scan [line] hwf htail h2⟩

/-- The invariant holds after every run whose packets are not empty. -/
theorem Run.Inv.steps {ops : List Op} (hops : ∀ p, Op.put p ∈ ops → p ≠ []) (h : r.Inv s) :
    ∃ r', r.steps ops = some r' ∧ r'.Inv (s ++ stream ops) := by
  induction ops generalizing r s with
  | nil => exact ⟨r, rfl, by simpa [stream] using h⟩
  | cons op ops ih =>
    obtain ⟨r1, h1, hi1⟩ : ∃ r1, r.step op = some r1 ∧ r1.Inv (s ++ stream [op]) := by
      cases op with
      | put packet => simpa [stream] using h.put (hops packet (by simp))
      | getmsg => simpa [stream] using h.getmsg
    obtain ⟨r2, h2, hi2⟩ := ih (fun p hp => hops p (by simp [hp])) hi1
    refine ⟨r2, by simp [Run.steps, h1, h2], ?_⟩
    simpa [stream, append_assoc] using hi2

/-- Draining terminates: more calls than there are bytes queued are enough. It yields the lines that
are left and keeps the tail. -/
theorem Run.drain_spec (fuel : ℕ) (h : r.Inv s) (hfuel : r.dyn.contents.length < fuel) :
    ∃ r', r.drain fuel = some r' ∧ r'.Inv s ∧ r'.obtained = streamLines s ∧
      r'.dyn.contents = streamTail s := by
  induction fuel generalizing r with
  | zero => omega
  | succ fuel ih =>
    obtain ⟨dyn', hwf, htail, ⟨h1, h2, h3, h4⟩ | ⟨n, line, h1, hlt, h2⟩⟩ := dbufGetmsg_framing h.wf
    · have hinv := h.scan [] hwf htail h2
      refine ⟨_, by simp [Run.drain, h1], hinv, ?_, ?_⟩
      · simpa [h3] using (hinv.lines_eq []).symm
      · simpa [h4] using (hinv.tail_eq []).symm
    · obtain ⟨r', hr', hrest⟩ := ih (h.scan [line] hwf htail h2) (by simp only; omega)
      exact ⟨r', by simp [Run.drain, h1, hr'], hrest⟩

/-- Line framing is independent of packet boundaries. Take any interleaving of puts of non-empty
packets and scanner calls, from an initialised queue. No `assert` fails, after every call the queue
is well formed, and draining the queue ends with exactly the lines of the whole stream and with its
unterminated tail queued. -/
theorem framing_independent_of_packets (ops : List Op) (hops : ∀ p, Op.put p ∈ ops → p ≠ []) :
    (∀ pre, pre <+: ops → ∃ r, Run.init.steps pre = some r ∧ r.dyn.WF) ∧
      ∃ r, Run.init.steps ops = some r ∧ ∃ n, ∀ fuel, n ≤ fuel →
        ∃ r', r.drain fuel = some r' ∧ r'.dyn.WF ∧ r'.obtained = streamLines (stream ops) ∧
          r'.dyn.contents = streamTail (stream ops) := by
  refine ⟨fun pre hpre => ?_, ?_⟩
  · obtain ⟨r, h1, h2⟩ := Run.Inv.steps (fun p hp => hops p (hpre.subset hp)) Run.Inv.init
    exact ⟨r, h1, h2.wf⟩
  · obtain ⟨r, h1, h2⟩ := Run.Inv.steps hops Run.Inv.init
    refine ⟨r, h1, r.dyn.contents.length + 1, fun fuel hfuel => ?_⟩
    obtain ⟨r', h3, h4, h5⟩ := Run.drain_spec fuel h2 hfuel
    exact ⟨r', h3, h4.wf, h5⟩

/-- A line and its terminator cut over two packets, with a scan in between, and an unterminated tail
behind a second line: `"ab"`, then `"\r\n  c\n d"`. -/
theorem framing_of_two_packets :
    ∃ r, Run.init.steps [.put [97, 98], .getmsg, .put [13, 10, 32, 32, 99, 10, 32, 100]] = some r ∧
      ∃ n, ∀ fuel, n ≤ fuel → ∃ r', r.drain fuel = some r' ∧
        r'.obtained = [[97, 98], [99]] ∧ r'.dyn.contents = [100] := by
  obtain ⟨-, r, h1, n, h2⟩ := framing_independent_of_packets
    [.put [97, 98], .getmsg, .put [13, 10, 32, 32, 99, 10, 32, 100]] (by simp)
  refine ⟨r, h1, n, fun fuel hfuel => ?_⟩
  obtain ⟨r', h3, -, h5, h6⟩ := h2 fuel hfuel
  exact ⟨r', h3, h5.trans (by decide +kernel), h6.trans (by decide +kernel)⟩

end ObbyIRCd.Buffers
