import ShortMessage.FifoQueue
import ShortMessage.Lib.Mutex

/-!
# The packet queue under its lock

Producers and consumers call `PushPacket` and `PopPacket` on threads of their own. Each call takes
`mutex_lock_` and executes its statements one at a time; a consumer that finds the queue empty waits
on `condition_`, and a producer that has laid a packet notifies one of those that wait.
`PeekNextPackLen` takes no lock and is not among the calls.
-/

namespace ShortMessage

open CMemory

namespace FifoQueue

inductive Locked
  | push (packet : List Byte)
  | pop
deriving DecidableEq, Repr

def Locked.call : Locked → Call
  | push packet => .push packet
  | pop => .pop

/-- The condition of the loop of `PopPacket`, negated. -/
def guard : Locked → FifoQueue → Bool
  | .push _, _ => true
  | .pop, q => q.readBytes < q.writeBytes

/-- The assertion, which the source makes before it takes the lock, reads nothing that is shared. -/
def pushBody (packet : List Byte) : Body FifoQueue Fault Bool := do
  let len := packet.length
  .write fun q => if len < maxPackSize then .ok q else .error .assertion
  if ← .read fun q => .ok (decide (q.Overflows len)) then return false
  if ← .read fun q => .ok (decide (q.bufSize < q.writePos + packLenSize)) then
    .write fun q => .ok { q with writePos := 0 }
  else if ← .read fun q => .ok (decide (q.bufSize < q.writePos + len + 2)) then
    .write (·.put (le16 endFlag))
    .write fun q => .ok { q with writePos := 0 }
  .write (·.put (le16 (.ofNat 16 len)))
  .write fun q => .ok { q with writePos := q.writePos + packLenSize }
  .write (·.put packet)
  .write fun q => .ok { q with writePos := q.writePos + len }
  .write fun q => .ok { q with writeBytes := q.writeBytes + (len + packLenSize) }
  .notifyOne
  return true

def popBody : Body FifoQueue Fault (List Byte) := do
  if ← .read fun q => .ok (decide (q.bufSize < q.readPos + packLenSize)) then
    .write fun q => .ok { q with readPos := 0 }
  let mut len ← .read fun q => load16 q.bufSize q.buffer q.readPos
  if len = endFlag then
    .write fun q => .ok { q with readPos := 0 }
    len ← .read fun q => load16 q.bufSize q.buffer q.readPos
  .write fun q => .ok { q with readPos := q.readPos + packLenSize }
  let packet ← .read fun q => load q.bufSize q.buffer q.readPos len.toNat
  .write fun q => .ok { q with readPos := q.readPos + len.toNat }
  .write fun q => .ok { q with readBytes := q.readBytes + (len.toNat + packLenSize) }
  return packet

def body : Locked → Body FifoQueue Fault Reply
  | .push packet => return .pushed (← pushBody packet)
  | .pop => return .popped (← popBody)

/-- The calls that have returned, in the order they gave the lock back. -/
def calls (h : List (Mutex.Move Locked × Option (Locked × Reply))) : List (Call × Reply) :=
  (Mutex.returned h).map fun e => (e.1.call, e.2)

end FifoQueue

end ShortMessage
