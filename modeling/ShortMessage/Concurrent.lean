import ShortMessage.Server

/-!
# Receipts on several threads

The server's thread pool runs any number of `ProcessReceipt` handlers at once. Each has a pooled
connection of its own, on which its three statements are executed one after the other; between two
of them the other handlers may execute theirs.
-/

namespace ShortMessage

open CMemory

/-- What a handler does next, and what its locals `msg` and `recv_time` hold after its `SELECT`. -/
inductive Stage
  | select
  | delete (msg : MessageItem) (recvTime : ℤ)
  | insert (msg : MessageItem) (recvTime : ℤ)
  | done
deriving DecidableEq, Repr

/-- A run of `ProcessReceipt` for frame `frameId` that `fromId` sent to `toId`. -/
structure Handler where
  fromId : BitVec 32
  toId : BitVec 32
  frameId : BitVec 16
  stage : Stage
deriving DecidableEq, Repr

def Handler.key (hd : Handler) : ℤ × ℤ × ℤ := bound hd.fromId hd.toId hd.frameId

structure Threads where
  db : Db
  handlers : List Handler

namespace Threads

/-- The statement of one handler, which throws if `fail`, and what it does until its next one. -/
def execute (w : World) (fail : Bool) (db : Db) (hd : Handler) : Except Fault (Db × Stage) :=
  match hd.stage with
  | .select =>
    let (res, msg, recvTime) := getOfflineMessage w fail db hd.fromId hd.toId hd.frameId
      w.leftover w.leftoverTime
    if res && msg.type = 0x60 then .ok (db, .delete msg recvTime) else .ok (db, .done)
  | .delete msg recvTime =>
    .ok ((deleteOfflineMessage fail db hd.fromId hd.toId hd.frameId).1, .insert msg recvTime)
  | .insert msg recvTime => .ok ((insertStoreMessageItem w fail db msg recvTime).1, .done)
  | .done => .error .blocked

def step (s : Threads) (l : ℕ × World) : Except Fault (Threads × Unit) :=
  match s.handlers[l.1]? with
  | none => .error .blocked
  | some hd => do
    let (db, stage) ← execute l.2 (l.2.fails 0) s.db hd
    return (⟨db, s.handlers.set l.1 { hd with stage := stage }⟩, ())

end Threads

/-- The store gained at most one row for each row the cache lost. -/
def ArchivedAtMostOnce (db db' : Db) : Prop :=
  (db'.messageStore.length : ℤ) - db.messageStore.length ≤
    db.messageCache.length - db'.messageCache.length

end ShortMessage
