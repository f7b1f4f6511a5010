import Mathlib.Data.Int.Notation
import Mathlib.Data.List.Basic
import Mathlib.Data.Nat.Notation

/-!
# Reading from a WebSocket

`read_packet` in `socket.c` reads up to `BUFSIZE` bytes at a time and goes on while it gets that many.
For a client that has done the handshake each piece goes to `websocket_handle_websocket`, which puts
it behind what was left of the last one and takes frames off the front. What happens with a payload is
up to the handler of the listener (`Handler.callback`); it and the sending of a pong may also mark the
socket dead. When the callback says that the client is gone, the rest of the packet is dropped.
-/

namespace ObbyIRCd.Websocket

/-- `BUFSIZE`. -/
def bufsize : ℕ := 512

/-- `MAXLINELENGTH`. -/
def maxlinelength : ℕ := 16384

/-- `WSOP_CONTINUATION` and the other opcodes. -/
def wsopContinuation : UInt8 := 0x00
def wsopText : UInt8 := 0x01
def wsopBinary : UInt8 := 0x02
def wsopClose : UInt8 := 0x08
def wsopPing : UInt8 := 0x09
def wsopPong : UInt8 := 0x0a

/-- What the rest of the server does with a client, over its state `σ`. -/
structure Handler (σ : Type) where
  /-- The callback for a payload. It is false, for 0, if the client is meant to be gone. -/
  callback : σ → List UInt8 → σ × Bool
  /-- `websocket_send_pong` and the fake lag for a ping. -/
  sendPong : σ → List UInt8 → σ
  /-- `websocket_handle_packet_pong`. -/
  handlePong : σ → σ
  /-- `IsDeadSocket`, if it was set by one of these. The callback may well be false without it. -/
  deadSocket : σ → Bool

/-- What a client gets to see or hands on. -/
inductive Event
  | payload (data : List UInt8)
  | pong (data : List UInt8)
deriving DecidableEq, Repr

structure Conn (σ : Type) where
  user : σ
  /-- `lefttoparse`. -/
  lefttoparse : List UInt8
  /-- `dead_socket` was called for a frame. -/
  closed : Bool
  out : List Event

variable {σ : Type} (h : Handler σ)

/-- `dead_socket`. -/
def Conn.deadSocket (c : Conn σ) : Conn σ := { c with closed := true }

def unmask (maskkey payload : List UInt8) : List UInt8 :=
  payload.mapIdx fun n v => v ^^^ maskkey.getD (n % 4) 0

/-- The `switch` over the opcode, for a frame of `size` bytes. -/
def dispatch (opcode : UInt8) (payload : List UInt8) (size : ℕ) (c : Conn σ) : Conn σ × ℤ :=
  if opcode = wsopContinuation ∨ opcode = wsopText ∨ opcode = wsopBinary then
    if payload = [] then (c, size)
    else
      let (user, alive) := h.callback c.user payload
      let c := { c with user := user, out := c.out ++ [.payload payload] }
      (c, if alive then size else -1)
  else if opcode = wsopClose then (c.deadSocket, -1)
  else if opcode = wsopPing then
    if 500 < payload.length then (c.deadSocket, -1)
    else ({ c with user := h.sendPong c.user payload, out := c.out ++ [.pong payload] }, size)
  else if opcode = wsopPong then ({ c with user := h.handlePong c.user }, size)
  else (c.deadSocket, -1)

def extendedLength (readbuf : List UInt8) : ℕ :=
  (readbuf.getD 2 0).toNat * 256 + (readbuf.getD 3 0).toNat

/-- `websocket_handle_packet`: the bytes that were processed, 0 for a short read, or -1. -/
def websocketHandlePacket (readbuf : List UInt8) (c : Conn σ) : Conn σ × ℤ :=
  if readbuf.length < 4 then (c, 0)
  else
    let opcode := readbuf.getD 0 0 &&& 0x7F
    let masked := readbuf.getD 1 0 &&& 0x80 ≠ 0
    let len := (readbuf.getD 1 0 &&& 0x7F).toNat
    if ¬masked ∧ opcode ≠ wsopPong then (c.deadSocket, -1)
    else
      let maskkeylen := if masked then 4 else 0
      if len = 127 then (c.deadSocket, -1)
      else if readbuf.length < len + 2 + maskkeylen then (c, 0)
      else if len = 126 then
        let len := extendedLength readbuf
        if len < 126 then (c.deadSocket, -1)
        else if readbuf.length < len + 4 + maskkeylen then (c, 0)
        else
          let payload := (readbuf.drop (4 + maskkeylen)).take len
          let payload := if masked then unmask ((readbuf.drop 4).take 4) payload else payload
          dispatch h opcode payload (len + 4 + maskkeylen) c
      else
        let payload := (readbuf.drop (2 + maskkeylen)).take len
        let payload := if masked then unmask ((readbuf.drop 2).take 4) payload else payload
        dispatch h opcode payload (len + 2 + maskkeylen) c

/-- The `do` loop of `websocket_handle_websocket`. Every frame has at least one byte, so `fuel` is
the number of bytes. -/
def handleLoop : (fuel : ℕ) → List UInt8 → Conn σ → Conn σ × ℤ
  | 0, readbuf, c => ({ c with lefttoparse := readbuf }, 0)
  | fuel + 1, readbuf, c =>
    let (c, n) := websocketHandlePacket h readbuf c
    if n < 0 then (c, -1)
    else if n = 0 then ({ c with lefttoparse := readbuf }, 0)
    else
      let readbuf := readbuf.drop n.toNat
      if 0 < readbuf.length then handleLoop fuel readbuf c else (c, 0)

/-- `websocket_handle_websocket`. -/
def websocketHandleWebsocket (readbuf2 : List UInt8) (c : Conn σ) : Conn σ × ℤ :=
  let readbuf := c.lefttoparse ++ readbuf2
  if maxlinelength - 1 < readbuf.length then (c.deadSocket, 0)
  else handleLoop h readbuf.length readbuf { c with lefttoparse := [] }

/-- The connection gets no more: `read_packet` does not read from dead sockets. -/
def Conn.gone (c : Conn σ) : Bool := c.closed || h.deadSocket c.user

/-- The loop of `read_packet` over what `recv` returns. -/
def readLoop : List (List UInt8) → Conn σ → Conn σ
  | [], c => c
  | packet :: packets, c =>
    let (c, processdata) := websocketHandleWebsocket h packet c
    if processdata < 0 then c
    else if packet.length < bufsize then c
    else readLoop packets c

/-- `read_packet`. -/
def readPacket (c : Conn σ) (packets : List (List UInt8)) : Conn σ :=
  if c.gone h then c else readLoop h packets c

def run (reads : List (List (List UInt8))) (c : Conn σ) : Conn σ := reads.foldl (readPacket h) c

end ObbyIRCd.Websocket
