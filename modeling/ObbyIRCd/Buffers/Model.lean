import Mathlib.Data.List.Basic

/-!
# The dynamic buffer of `src/dbuf.c`

A `dbuf` queues the bytes of a connection in a list of fixed-size blocks. `dbufPut` appends a packet
to the last block and to new ones behind it, `dbufDelete` removes bytes from the front, and
`dbufGetmsg` scans the blocks for one line, copies it out, and deletes what it consumed.

A block is the `size` bytes of its `data` that are in use, with the bound that the allocation gives.
The counters are natural numbers: a queue is far smaller than `2^31` bytes, as the callers close a
connection whose queue passes its class's `recvq`. `none` stands for a failed `assert`, and for the
step of `dbuf_delete` past the end of the block list that the `assert` is there to prevent.
-/

namespace ObbyIRCd.Buffers

/-- `DBUF_BLOCK_SIZE`. -/
def dbufBlockSize : ℕ := 4072 + 4096

/-- `READBUFSIZE`, the size of the buffer that `dbuf_getmsg` copies a line to. -/
def readBufSize : ℕ := 16384

/-- A block, `struct dbufbuf`: the first `size` bytes of its `data`. -/
structure DbufBuf where
  data : List UInt8
  size_le : data.length ≤ dbufBlockSize

/-- The `size` field of a block. -/
def DbufBuf.size (block : DbufBuf) : ℕ := block.data.length

/-- A block as `dbuf_alloc` returns it. -/
def DbufBuf.empty : DbufBuf := ⟨[], Nat.zero_le _⟩

/-- Copy the first `amount` bytes of `buf` behind the bytes in use; `amount` fits. -/
def DbufBuf.append (block : DbufBuf) (buf : List UInt8) (amount : ℕ)
    (h : amount ≤ dbufBlockSize - block.size) : DbufBuf :=
  ⟨block.data ++ buf.take amount, by
    have h1 := block.size_le
    have h2 : (buf.take amount).length ≤ amount := List.length_take_le _ _
    rw [List.length_append]
    simp only [DbufBuf.size] at h
    omega⟩

/-- Move the bytes from `length` on to the start of the block. -/
def DbufBuf.trim (block : DbufBuf) (length : ℕ) : DbufBuf :=
  ⟨block.data.drop length, by
    have := block.size_le
    rw [List.length_drop]
    omega⟩

/-- The queue, `struct dbuf`: the number of bytes stored and the blocks, first to last. -/
structure Dbuf where
  /-- The `length` field. -/
  length : ℕ
  /-- The blocks of `dbuf_list`. -/
  dbufList : List DbufBuf

/-- `dbuf_queue_init`. -/
def dbufQueueInit : Dbuf := ⟨0, []⟩

/-- The copy loop of `dbuf_put`, with the last block `block` apart from the blocks `front` before
it. A full block makes room by a new one. -/
def dbufPutLoop (length : ℕ) (front : List DbufBuf) (block : DbufBuf) (buf : List UInt8) : Dbuf :=
  if buf = [] then ⟨length, front ++ [block]⟩
  else if dbufBlockSize - block.size = 0 then
    let amount := min dbufBlockSize buf.length
    dbufPutLoop (length + amount) (front ++ [block])
      (DbufBuf.empty.append buf amount (Nat.min_le_left _ _)) (buf.drop amount)
  else
    let amount := min (dbufBlockSize - block.size) buf.length
    dbufPutLoop (length + amount) front (block.append buf amount (Nat.min_le_left _ _))
      (buf.drop amount)
termination_by buf.length
decreasing_by
  all_goals
    rename_i hbuf _
    have := List.length_pos_iff.mpr hbuf
    simp only [List.length_drop, dbufBlockSize] at *
    omega

/-- `dbuf_put`: append the packet `buf`, which the `assert` wants non-empty. -/
def dbufPut (dyn : Dbuf) (buf : List UInt8) : Option Dbuf :=
  if buf = [] then none
  else
    match dyn.dbufList.getLast? with
    | none => some (dbufPutLoop dyn.length [] DbufBuf.empty buf)
    | some block => some (dbufPutLoop dyn.length dyn.dbufList.dropLast block buf)

/-- The loop of `dbuf_delete`: free whole blocks while they are covered, then trim the next. -/
def dbufDeleteLoop (dynLength length : ℕ) : List DbufBuf → Option Dbuf
  | [] => if length = 0 then some ⟨dynLength, []⟩ else none
  | block :: rest =>
    if length = 0 then some ⟨dynLength, block :: rest⟩
    else if length < block.size then some ⟨dynLength - length, block.trim length :: rest⟩
    else dbufDeleteLoop (dynLength - block.size) (length - block.size) rest

/-- `dbuf_delete`: remove `length` bytes from the front. -/
def dbufDelete (dyn : Dbuf) (length : ℕ) : Option Dbuf :=
  if length ≤ dyn.length then dbufDeleteLoop dyn.length length dyn.dbufList else none

/-- `'\r'`. -/
def cr : UInt8 := 13
/-- `'\n'`. -/
def lf : UInt8 := 10
/-- `' '`. -/
def space : UInt8 := 32

/-- The phases of the scan of `dbuf_getmsg`: empty characters before the line, the line, and empty
characters after it. -/
inductive Phase
  | before
  | line
  | after
deriving DecidableEq, Repr

/-- The locals of `dbuf_getmsg`: the counters, the phase, and the bytes copied to `buf`. -/
structure Scan where
  /-- `line_bytes`: the bytes of the line, also those that are not copied. -/
  lineBytes : ℕ
  /-- `empty_bytes`: the empty characters before and after the line. -/
  emptyBytes : ℕ
  /-- `phase`. -/
  phase : Phase
  /-- `buf`, up to `p`. -/
  buf : List UInt8
deriving DecidableEq, Repr

def Scan.init : Scan := ⟨0, 0, .before, []⟩

/-- One byte of the scan. `none` is the `return` in phase 2, at the first byte of the next line. -/
def scanByte (s : Scan) (c : UInt8) : Option Scan :=
  if c = cr ∨ c = lf ∨ (c = space ∧ s.phase ≠ .line) then
    some { s with
      emptyBytes := s.emptyBytes + 1
      phase := if s.phase = .line then .after else s.phase }
  else
    match s.phase with
    | .after => none
    | _ => some { s with
        phase := .line
        lineBytes := s.lineBytes + 1
        buf := if s.lineBytes < readBufSize - 2 then s.buf ++ [c] else s.buf }

/-- The inner loop, over the bytes of one block. The flag says that the scan returned early. -/
def scanBlock (s : Scan) : List UInt8 → Scan × Bool
  | [] => (s, false)
  | c :: rest =>
    match scanByte s c with
    | none => (s, true)
    | some s' => scanBlock s' rest

def scanList (s : Scan) : List DbufBuf → Scan × Bool
  | [] => (s, false)
  | block :: rest =>
    match scanBlock s block.data with
    | (s', true) => (s', true)
    | (s', false) => scanList s' rest

/-- `dbuf_getmsg`: the return value, the line copied to `buf`, and the queue behind it. -/
def dbufGetmsg (dyn : Dbuf) : Option (ℕ × List UInt8 × Dbuf) :=
  match scanList Scan.init dyn.dbufList with
  | (s, true) =>
    (dbufDelete dyn (s.lineBytes + s.emptyBytes)).map fun dyn' =>
      (min s.lineBytes (readBufSize - 2), s.buf, dyn')
  | (s, false) =>
    -- A line that has not reached phase 2 is incomplete and stays in the queue.
    let lineBytes := if s.phase ≠ .after then 0 else s.lineBytes
    let buf := if s.phase ≠ .after then [] else s.buf
    (dbufDelete dyn (lineBytes + s.emptyBytes)).map fun dyn' =>
      (min lineBytes (readBufSize - 2), buf, dyn')

end ObbyIRCd.Buffers
