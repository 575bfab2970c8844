import ShortMessage.Lib.Buffer

/-!
# The packet queue

`fifo_queue.cpp`: packets are laid one behind the other into a buffer of fixed size, each behind the
two bytes of its length. A packet that does not fit before the end of the buffer is laid at its
start; the tail it leaves is marked with `END_FLAG` when there is room for the mark.
-/

namespace ShortMessage

open CMemory

def maxPackSize : ℕ := 65535

def endFlag : BitVec 16 := 0x0000

def packLenSize : ℕ := 2

/-- The positions are offsets from `buffer_`. -/
structure FifoQueue where
  bufSize : ℕ
  buffer : Bytes
  readPos : ℕ
  writePos : ℕ
  readBytes : ℕ
  writeBytes : ℕ

namespace FifoQueue

/-- The memory of the new buffer is not initialised. -/
def init (bufSize : ℕ) (buffer : Bytes) : FifoQueue := ⟨bufSize, buffer, 0, 0, 0, 0⟩

/-- Write at `write_pos_`. -/
def put (q : FifoQueue) (bs : List Byte) : Except Fault FifoQueue := do
  let buffer ← store q.bufSize q.buffer q.writePos bs
  return { q with buffer := buffer }

/-- The capacity test. -/
def Overflows (q : FifoQueue) (len : ℕ) : Prop :=
  q.readBytes + q.bufSize < q.writeBytes + 2 * len + 2 * (packLenSize - 1)

instance (q : FifoQueue) (len : ℕ) : Decidable (q.Overflows len) :=
  inferInstanceAs (Decidable (_ < _))

def pushPacket (q : FifoQueue) (packet : List Byte) : Except Fault (FifoQueue × Bool) := do
  let len := packet.length
  if ¬ len < maxPackSize then throw .assertion
  if q.Overflows len then return (q, false)
  let q ←
    if q.bufSize < q.writePos + packLenSize then pure { q with writePos := 0 }
    else if q.bufSize < q.writePos + len + 2 then do
      let q ← q.put (le16 endFlag)
      pure { q with writePos := 0 }
    else pure q
  let q ← q.put (le16 (.ofNat 16 len))
  let q := { q with writePos := q.writePos + packLenSize }
  let q ← q.put packet
  let q := { q with writePos := q.writePos + len }
  return ({ q with writeBytes := q.writeBytes + (len + packLenSize) }, true)

/-- What `PopPacket` and `PeekNextPackLen` both begin with: `read_pos_` is moved to the next packet
and its length is read. -/
def seek (q : FifoQueue) : Except Fault (FifoQueue × ℕ) := do
  let q := if q.bufSize < q.readPos + packLenSize then { q with readPos := 0 } else q
  let len ← load16 q.bufSize q.buffer q.readPos
  if len = endFlag then
    let q := { q with readPos := 0 }
    let len ← load16 q.bufSize q.buffer q.readPos
    return (q, len.toNat)
  else return (q, len.toNat)

/-- On an empty queue the caller waits. -/
def popPacket (q : FifoQueue) : Except Fault (FifoQueue × List Byte) :=
  if q.writeBytes ≤ q.readBytes then .error .blocked
  else do
    let (q, len) ← q.seek
    let q := { q with readPos := q.readPos + packLenSize }
    let packet ← load q.bufSize q.buffer q.readPos len
    let q := { q with readPos := q.readPos + len }
    return ({ q with readBytes := q.readBytes + (len + packLenSize) }, packet)

def peekNextPackLen (q : FifoQueue) : Except Fault (FifoQueue × ℕ) :=
  if q.writeBytes ≤ q.readBytes then .ok (q, 0) else q.seek

/-! ## Calls -/

inductive Call
  | push (packet : List Byte)
  | pop
  | peek
deriving DecidableEq, Repr

inductive Reply
  | pushed (accepted : Bool)
  | popped (packet : List Byte)
  | peeked (len : ℕ)
deriving DecidableEq, Repr

def step (q : FifoQueue) : Call → Except Fault (FifoQueue × Reply)
  | .push packet => do
    let (q, accepted) ← q.pushPacket packet
    return (q, .pushed accepted)
  | .pop => do
    let (q, packet) ← q.popPacket
    return (q, .popped packet)
  | .peek => do
    let (q, len) ← q.peekNextPackLen
    return (q, .peeked len)

end FifoQueue

/-! ## The in-place receive path -/

/-- A queue with the `recv_pos` its producer keeps: where the next packet is received, behind the
two bytes of its length. -/
structure Receiver where
  queue : FifoQueue
  recvPos : ℕ
  behind : packLenSize ≤ recvPos

namespace Receiver

def init (bufSize : ℕ) (buffer : Bytes) : Receiver :=
  ⟨.init bufSize buffer, packLenSize, le_rfl⟩

/-- Write into the buffer at a position. -/
def put (r : Receiver) (pos : ℕ) (bs : List Byte) : Except Fault Receiver := do
  let buffer ← store r.queue.bufSize r.queue.buffer pos bs
  return { r with queue := { r.queue with buffer := buffer } }

/-- The length is stored before the capacity test. The next packet is taken to be as long as this
one: when it would not fit before the end of the buffer, it is received at its start. -/
def update (r : Receiver) (len : ℕ) : Except Fault (Receiver × Bool) := do
  if ¬ len < maxPackSize then throw .assertion
  let r ← r.put (r.recvPos - packLenSize) (le16 (.ofNat 16 len))
  if r.queue.Overflows len then return (r, false)
  let recvPos := r.recvPos + (len + packLenSize)
  let r ←
    if r.queue.bufSize < recvPos then pure { r with recvPos := packLenSize, behind := le_rfl }
    else if r.queue.bufSize < recvPos + len then do
      let r ← r.put (recvPos - packLenSize) (le16 endFlag)
      pure { r with recvPos := packLenSize, behind := le_rfl }
    else pure { r with recvPos := recvPos, behind := Nat.le_add_left_of_le (Nat.le_add_left _ _) }
  return ({ r with queue := { r.queue with
    writeBytes := r.queue.writeBytes + (len + packLenSize) } }, true)

/-- A packet is received at `recv_pos`, when the capacity test will pass, and `Update` is called. -/
def produce (r : Receiver) (packet : List Byte) : Except Fault (Receiver × Bool) := do
  let r ← if r.queue.Overflows packet.length then pure r else r.put r.recvPos packet
  r.update packet.length

inductive Call
  | update (len : ℕ)
  | produce (packet : List Byte)
  | pop
  | peek
deriving DecidableEq, Repr

def step (r : Receiver) : Call → Except Fault (Receiver × FifoQueue.Reply)
  | .update len => do
    let (r, accepted) ← r.update len
    return (r, .pushed accepted)
  | .produce packet => do
    let (r, accepted) ← r.produce packet
    return (r, .pushed accepted)
  | .pop => do
    let (q, packet) ← r.queue.popPacket
    return ({ r with queue := q }, .popped packet)
  | .peek => do
    let (q, len) ← r.queue.peekNextPackLen
    return ({ r with queue := q }, .peeked len)

end Receiver

/-- The call of the in-place path that stands for a call of the copying one. -/
def FifoQueue.Call.inPlace : FifoQueue.Call → Receiver.Call
  | .push packet => .produce packet
  | .pop => .pop
  | .peek => .peek

end ShortMessage
