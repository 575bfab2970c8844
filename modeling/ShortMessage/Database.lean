import Mathlib.Data.Fintype.Fin
import Mathlib.Logic.Function.Basic
import ShortMessage.Protocol

/-!
# The tables and their statements

`database.cpp`: each function executes one statement, but for `getAllOfflineMessage`, which executes
one `SELECT` and one `UPDATE` for each row of its result. A statement is atomic and auto-committed:
it takes effect, or it throws and leaves the tables as they were. An integer column stores the
bound signed value.
-/

namespace ShortMessage

open CMemory

/-! ## The tables -/

/-- A row of `message_cache`. `origin` is a ghost column that tells equal rows apart: the number of
the request the message came in with. No statement reads it. -/
structure CacheRow where
  fromUser : ℤ
  toUser : ℤ
  frameId : ℤ
  type : ℤ
  text : List Byte
  recvTime : ℤ
  retryNum : ℤ
  retryTime : ℤ
  origin : ℕ
deriving DecidableEq, Repr

/-- A row of `message_store`, with the ghost column of the message it was stored for. -/
structure StoreRow where
  fromUser : ℤ
  toUser : ℤ
  text : List Byte
  recvTime : ℤ
  sendTime : ℤ
  frameId : ℤ
  type : ℤ
  origin : Option ℕ
deriving DecidableEq, Repr

/-- A row of `sate_cover`: column `SNR_i` is `snr` at `i - 1`. -/
structure SateRow where
  userId : ℤ
  snr : Fin 10 → ℚ

structure Db where
  messageCache : List CacheRow
  messageStore : List StoreRow
  sateCover : List SateRow
  userInfo : List ℤ

def CacheRow.key (r : CacheRow) : ℤ × ℤ × ℤ := (r.fromUser, r.toUser, r.frameId)

/-- The values bound for a sender, an addressee and a frame. -/
def bound (fromId toId : BitVec 32) (frameId : BitVec 16) : ℤ × ℤ × ℤ :=
  (fromId.toInt, toId.toInt, frameId.toNat)

/-- What `ResultSet_getInt` and `ResultSet_getString` assign to an item from a row. -/
def CacheRow.item (r : CacheRow) : MessageItem where
  toId := .ofInt 32 r.toUser
  fromId := .ofInt 32 r.fromUser
  frameId := .ofInt 16 r.frameId
  type := .ofInt 8 r.type
  retain := 0
  content := r.text
  origin := some r.origin

/-! ## What a step meets outside the program -/

/-- The clock, the statements that throw, the answers of the connection pool, what uninitialised
variables hold and the order a `SELECT` returns its rows in, during one step. -/
structure World where
  now : ℤ
  fails : ℕ → Bool
  pool : ℕ → Bool
  attempts : ℕ
  leftover : MessageItem
  leftoverTime : ℤ
  order : List CacheRow → List CacheRow
  order_perm : ∀ rows, (order rows).Perm rows
  leftover_fresh : leftover.content = [] ∧ leftover.origin = none

namespace World

def Succeeds (w : World) : Prop := ∀ k, w.fails k = false

/-- Every statement takes effect and a connection is free. -/
def calm (now : ℤ) : World where
  now := now
  fails := fun _ => false
  pool := fun _ => true
  attempts := 1
  leftover := ⟨0, 0, 0, 0, 0, [], none⟩
  leftoverTime := 0
  order := id
  order_perm := fun _ => .refl _
  leftover_fresh := ⟨rfl, rfl⟩

def failing (now : ℤ) (k : ℕ) : World := { calm now with fails := (· = k) }

end World

/-! ## The connection pool -/

/-- The loop of `GetConnection` over its first `fuel` attempts: `true` for a connection, `false`
for `NULL`. The counter is not counted down. -/
def getConnectionLoop (pool : ℕ → Bool) : ℕ → ℕ → ℤ → Except Fault Bool
  | 0, _, _ => .error .blocked
  | fuel + 1, i, count =>
    if 0 < count then
      if pool i then .ok true else getConnectionLoop pool fuel (i + 1) count
    else .ok false

def getConnection (w : World) : Except Fault Bool := getConnectionLoop w.pool w.attempts 0 3

/-! ## Coverage -/

/-- The loop over the satellites of a report: the last SNR given for each beam. -/
def tempSnr : List SateParam → (Fin 10 → ℚ) → Except Fault (Fin 10 → ℚ)
  | [], snr => .ok snr
  | p :: ps, snr =>
    if h : 1 ≤ p.beamId ∧ p.beamId ≤ 10 then
      tempSnr ps (Function.update snr ⟨(p.beamId - 1).toNat, by omega⟩ p.snr)
    else .error .assertion

/-- The row's user is named by the decimal digits of the unsigned id. -/
def updateSateCover (pf : Platform) (fail : Bool) (db : Db) (userId : BitVec 32)
    (sateCover : Satellite) : Except Fault (Db × Bool) := do
  let snr ← tempSnr (sateCover.satesParam.take sateCover.satCoverNum.toNat) fun _ => -1
  if fail then return (db, false)
  return ({ db with
    sateCover := db.sateCover.map fun r =>
      if r.userId = (userId.toNat : ℤ) then { r with snr := fun i => pf.column (snr i) }
      else r }, true)

/-- The satellites of a row: beam `i` with a positive SNR belongs to satellite `(i + 1) / 2`. -/
def coverOf (pf : Platform) (snr : Fin 10 → ℚ) : List SateParam :=
  (List.finRange 10).filterMap fun i =>
    if 0 < snr i then some (.make pf ((i + 2 : ℕ) / 2 : ℕ) (i + 1 : ℕ) (snr i)) else none

def getSateCover (pf : Platform) (fail : Bool) (db : Db) (userId : BitVec 32) : List SateParam :=
  if fail then []
  else match db.sateCover.find? (·.userId = userId.toInt) with
    | some r => coverOf pf r.snr
    | none => []

def isExistUser (fail : Bool) (db : Db) (userId : BitVec 32) : Bool :=
  if fail then false else db.userInfo.any (· = userId.toInt)

def getOfflineMessageNum (fail : Bool) (db : Db) (userId : BitVec 32) : ℤ :=
  if fail then 0 else (db.messageCache.filter (·.toUser = userId.toInt)).length

/-! ## Messages -/

/-- What the inserts take from a request: its ids and its frame in host order, its type and its
text. -/
structure Head where
  toId : BitVec 32
  fromId : BitVec 32
  frameId : BitVec 16
  type : Byte
  text : List Byte
deriving DecidableEq, Repr

def readHead (head : Ptr) : Except Fault Head := do
  let toId := ntohl (← ControlHead.toId head)
  let fromId := ntohl (← ControlHead.fromId head)
  let frameId := ntohs (← ControlHead.frameId head)
  let type ← ControlHead.type head
  let text ← cstr (ControlHead.content head)
  return ⟨toId, fromId, frameId, type, text⟩

def Head.storeRow (h : Head) (n : ℕ) (now : ℤ) : StoreRow where
  fromUser := h.fromId.toInt
  toUser := h.toId.toInt
  text := h.text
  recvTime := now
  sendTime := now
  frameId := h.frameId.toNat
  type := h.type.toNat
  origin := some n

/-- `InsertStoreMessage(Connection_T, ControlHead*)`, for request number `n`. -/
def insertStoreMessage (w : World) (fail : Bool) (n : ℕ) (db : Db) (head : Ptr) :
    Except Fault (Db × Bool) := do
  let h ← readHead head
  if fail then return (db, false)
  return ({ db with messageStore := db.messageStore ++ [h.storeRow n w.now] }, true)

/-- The row `InsertStoreMessage(Connection_T, const MessageItem&, const time_t&)` inserts: the
statement's first column is `from_user`, its first parameter the item's `to_id`. -/
def MessageItem.storeRow (msg : MessageItem) (recvTime now : ℤ) : StoreRow where
  fromUser := msg.toId.toInt
  toUser := msg.fromId.toInt
  type := msg.type.toNat
  text := msg.content.takeWhile (· ≠ 0#8)
  recvTime := recvTime
  sendTime := now
  frameId := msg.frameId.toNat
  origin := msg.origin

def insertStoreMessageItem (w : World) (fail : Bool) (db : Db) (msg : MessageItem)
    (recvTime : ℤ) : Db × Bool :=
  if fail then (db, false)
  else ({ db with messageStore := db.messageStore ++ [msg.storeRow recvTime w.now] }, true)

/-- `retry_num` is not among the columns: it takes its default. -/
def Head.cacheRow (h : Head) (n : ℕ) (now : ℤ) : CacheRow where
  fromUser := h.fromId.toInt
  toUser := h.toId.toInt
  type := h.type.toNat
  text := h.text
  recvTime := now
  frameId := h.frameId.toNat
  retryNum := 0
  retryTime := now + 10
  origin := n

def insertOfflineMessage (w : World) (fail : Bool) (n : ℕ) (db : Db) (head : Ptr) :
    Except Fault (Db × Bool) := do
  let h ← readHead head
  if fail then return (db, false)
  return ({ db with messageCache := db.messageCache ++ [h.cacheRow n w.now] }, true)

def deleteOfflineMessage (fail : Bool) (db : Db) (fromId toId : BitVec 32)
    (frameId : BitVec 16) : Db × Bool :=
  if fail then (db, false)
  else ({ db with
    messageCache := db.messageCache.filter (·.key ≠ bound fromId toId frameId) }, true)

/-- When no row matches, `msg` and `recvTime` keep what they held. -/
def getOfflineMessage (w : World) (fail : Bool) (db : Db) (fromId toId : BitVec 32)
    (frameId : BitVec 16) (msg : MessageItem) (recvTime : ℤ) : Bool × MessageItem × ℤ :=
  if fail then (false, msg, recvTime)
  else match w.order (db.messageCache.filter (·.key = bound fromId toId frameId)) with
    | [] => (true, msg, recvTime)
    | r :: _ => (true, r.item, r.recvTime)

/-- The columns the `UPDATE` of a retry sets, in a row it matches. -/
def CacheRow.retry (r : CacheRow) (key : ℤ × ℤ × ℤ) (retryNum retryTime : ℤ) : CacheRow :=
  if r.key = key then { r with retryNum := retryNum, retryTime := retryTime } else r

/-- The loop over the rows selected, statement `k` being its next `UPDATE`. A row is pushed before
its `UPDATE`, and an exception ends the loop. -/
def retryLoop (w : World) (retryInterval : ℤ) :
    ℕ → List CacheRow → List CacheRow → List CacheRow × List MessageItem
  | _, [], cache => (cache, [])
  | k, r :: rows, cache =>
    let message := r.item
    let retryNum := r.retryNum + 1
    if w.fails k then (cache, [message])
    else
      let rest := retryLoop w retryInterval (k + 1) rows (cache.map (·.retry
        (bound message.fromId message.toId message.frameId) retryNum
        (w.now + retryNum * retryInterval)))
      (rest.1, message :: rest.2)

/-- The rows a pass at time `now` selects. -/
def CacheRow.Due (maxRetryNum now : ℤ) (r : CacheRow) : Prop :=
  r.retryNum < maxRetryNum ∧ r.retryTime ≤ now

instance (maxRetryNum now : ℤ) : DecidablePred (CacheRow.Due maxRetryNum now) := fun _ =>
  inferInstanceAs (Decidable (_ ∧ _))

/-- The rows of the pass's `SELECT`, in the order it returns them. -/
def selectDue (w : World) (maxRetryNum : ℤ) (db : Db) : List CacheRow :=
  w.order (db.messageCache.filter (·.Due maxRetryNum w.now))

def getAllOfflineMessage (w : World) (maxRetryNum retryInterval : ℤ) (db : Db) :
    Db × List MessageItem :=
  if w.fails 0 then (db, [])
  else
    let r := retryLoop w retryInterval 1 (selectDue w maxRetryNum db) db.messageCache
    ({ db with messageCache := r.1 }, r.2)

end ShortMessage
