import ShortMessage.Server

/-!
# What becomes of a message

A message is the request it came in with, named by its place in the history. It is cached, handed
out by passes, cleared by its addressee's receipt and archived; the properties of a run are stated
over its history and the tables it ends with.
-/

namespace ShortMessage

open CMemory

/-! ## Requests -/

/-- A request as its handler sees it. -/
abbrev headOf (bytes : List Byte) : Ptr := bytes ++ [0#8]

def Label.Takes (l : Label) (m : Head) : Prop :=
  ∃ bytes, l.input = .request bytes ∧ readHead (headOf bytes) = .ok m

/-- The request is the receipt of user `toId` for the frame that `fromId` sent. -/
structure IsReceipt (bytes : List Byte) (fromId toId : BitVec 32) (frameId : BitVec 16) : Prop where
  type : ControlHead.type (headOf bytes) = .ok SignalType.receipte.code
  receiptType : UserAckResponse.receiptType (ControlHead.content (headOf bytes)) = .ok 0x60
  fromId : ControlHead.toId (headOf bytes) = .ok (htonl fromId)
  toId : ControlHead.fromId (headOf bytes) = .ok (htonl toId)
  frameId : UserAckResponse.frameId (ControlHead.content (headOf bytes)) = .ok (htons frameId)

def Label.Acknowledges (l : Label) (fromId toId : BitVec 32) (frameId : BitVec 16) : Prop :=
  ∃ bytes, l.input = .request bytes ∧ IsReceipt bytes fromId toId frameId

/-! ## Tables -/

/-- The cached rows a receipt for this frame is about. -/
def Db.cached (db : Db) (fromId toId : BitVec 32) (frameId : BitVec 16) : List CacheRow :=
  db.messageCache.filter (·.key = bound fromId toId frameId)

def Db.UniqueKeys (db : Db) : Prop := (db.messageCache.map (·.key)).Nodup

/-- A place in the cache or in the store. -/
abbrev Place := ℕ ⊕ ℕ

def Db.textAt (db : Db) : Place → Option (List Byte)
  | .inl i => db.messageCache[i]?.map (·.text)
  | .inr i => db.messageStore[i]?.map (·.text)

/-- The rows differ in nothing but what a pass updates. -/
def CacheRow.SameMessage (r r' : CacheRow) : Prop :=
  ∃ retryNum retryTime, r' = { r with retryNum := retryNum, retryTime := retryTime }

/-- A receipt takes from the cache all the rows it is about, and no other step takes any. -/
structure ClearsExactly (s : Server) (l : Label) (s' : Server) : Prop where
  receipt : ∀ fromId toId frameId, l.Acknowledges fromId toId frameId →
    s'.db.messageCache = s.db.messageCache.filter (·.key ≠ bound fromId toId frameId)
  other : (∀ fromId toId frameId, ¬ l.Acknowledges fromId toId frameId) →
    ∃ f added, (∀ r, CacheRow.SameMessage r (f r)) ∧
      s'.db.messageCache = s.db.messageCache.map f ++ added

/-! ## Histories -/

/-- The step took in the complete message `m` and sent its sender the receipt for it. -/
structure Acks (e : Label × Out) (m : Head) : Prop where
  takes : e.1.Takes m
  type : m.type = SignalType.completeMessage.code
  sent : ∃ sent ∈ e.2.sent,
    responseEncode (messageReceipt m.fromId (htons m.frameId)) = .ok sent.buf

def Acked (h : History) (n : ℕ) (m : Head) : Prop := ∃ e, h[n]? = some e ∧ Acks e m

/-- Every acknowledged message has a row of its own, with its text. -/
def NoneLost (h : History) (db : Db) : Prop :=
  ∃ place : ℕ → Place, Set.InjOn place {n | ∃ m, Acked h n m} ∧
    ∀ n m, Acked h n m → db.textAt (place n) = some m.text

/-- The row has the sender, the addressee, the frame, the type and the text of the message. -/
structure StoreRow.Records (r : StoreRow) (m : Head) : Prop where
  fromUser : r.fromUser = m.fromId.toInt
  toUser : r.toUser = m.toId.toInt
  frameId : r.frameId = m.frameId.toNat
  type : r.type = m.type.toNat
  text : r.text = m.text

/-- Every archived row that stems from a request records the message of that request. -/
def Faithful (h : History) (db : Db) : Prop :=
  ∀ r ∈ db.messageStore, ∀ n, r.origin = some n → ∃ e m, h[n]? = some e ∧ e.1.Takes m ∧
    (m.type = SignalType.simpleMessage.code ∨ m.type = SignalType.completeMessage.code) ∧
      r.Records m

/-- When passes handed out the message of step `n`. -/
def handTimes (h : History) (n : ℕ) : List ℤ :=
  h.flatMap fun e => (e.2.handed.filter (·.origin = some n)).map fun _ => e.1.world.now

/-- The calls of `SendMessage` that passes made for the message of step `n`. -/
def resends (h : History) (n : ℕ) : List Sent :=
  h.flatMap fun e => (e.2.resent.filter (·.1.origin = some n)).map (·.2)

def CachedAt (h : History) (n : ℕ) (t : ℤ) : Prop :=
  ∃ e m, h[n]? = some e ∧ e.1.Takes m ∧ m.type = SignalType.completeMessage.code ∧
    e.1.world.now = t

/-! ## One message and its receipt -/

/-- User 1 sends "b" to user 2 as frame 3. -/
def hello : List Byte := [0, 0, 0, 1, 0, 0, 0, 2, 0, 3, 0x60, 0, 0x62]

def helloHead : Head := ⟨2, 1, 3, 0x60, [0x62]⟩

/-- User 2 has received frame 3 of user 1. -/
def helloReceipt : List Byte := [0, 0, 0, 2, 0, 0, 0, 1, 0, 4, 0x80, 0, 0, 3, 0x60]

def coverOne : List SateRow := [⟨1, fun i => if i = 0 then 1 else -1⟩]

def coverTwo : List SateRow := [⟨2, fun i => if i = 0 then 1 else -1⟩]

/-- The server once it has taken in `hello`. -/
def helloCached : Server := ⟨⟨[helloHead.cacheRow 0 0], [], coverOne, []⟩, 0, 1⟩

end ShortMessage
