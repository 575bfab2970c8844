import ShortMessage.Server
import ShortMessage.Lib.Interleaving

/-!
# The server on its threads

Every request is handled on a thread of the pool and a round of the daemon's loop on its own. What
threads share are the tables, the connections of the pool and the network; a statement is atomic,
and between two statements of one thread the others may execute theirs. The handlers and the pass of
`Server.lean` are written here as programs of operations, in the order of the source.
-/

namespace ShortMessage

open CMemory

/-! ## What threads share -/

/-- A call of `SendMessage`, with the message a pass makes it for. -/
structure Transmission where
  message : Option MessageItem
  sent : Sent
deriving DecidableEq, Repr

structure Shared where
  db : Db
  checkedOut : ℕ
  network : List Transmission

inductive Operation
  | getConnection
  | close
  | updateSateCover (userId : BitVec 32) (sateCover : Satellite)
  | getSateCover (userId : BitVec 32)
  | isExistUser (userId : BitVec 32)
  | getOfflineMessageNum (userId : BitVec 32)
  | insertStoreMessage (n : ℕ) (head : Ptr)
  | insertOfflineMessage (n : ℕ) (head : Ptr)
  | getOfflineMessage (fromId toId : BitVec 32) (frameId : BitVec 16)
  | deleteOfflineMessage (fromId toId : BitVec 32) (frameId : BitVec 16)
  | insertStoreMessageItem (msg : MessageItem) (recvTime : ℤ)
  | time
  | selectDue (now : ℤ)
  | updateRetry (message : MessageItem) (retryNum retryTime : ℤ)
  | sendMessage (message : Option MessageItem) (sent : Sent)
  | fault (f : Fault)

namespace Operation

abbrev Result : Operation → Type
  | getConnection => Bool
  | close => Unit
  | updateSateCover _ _ => Bool
  | getSateCover _ => List SateParam
  | isExistUser _ => Bool
  | getOfflineMessageNum _ => ℤ
  | insertStoreMessage _ _ => Bool
  | insertOfflineMessage _ _ => Bool
  | getOfflineMessage _ _ _ => Bool × MessageItem × ℤ
  | deleteOfflineMessage _ _ _ => Bool
  | insertStoreMessageItem _ _ => Bool
  | time => ℤ
  | selectDue _ => List CacheRow
  | updateRetry _ _ _ => Bool
  | sendMessage _ _ => Unit
  | fault _ => Empty

/-- The operations executed on a connection. -/
def IsStatement : Operation → Prop
  | getConnection | close | time | sendMessage _ _ | fault _ => False
  | _ => True

instance : DecidablePred IsStatement := fun c => by
  cases c <;> unfold IsStatement <;> infer_instance

end Operation

def Shared.setDb (s : Shared) (db : Db) : Shared := { s with db := db }

/-- One operation in the world `w`, where a statement throws if `w.fails 0`. The pool has no
connection to give when `maxSize` are out. -/
def handle (cfg : Config) (maxSize : ℕ) (w : World) (s : Shared) :
    (c : Operation) → Except Fault (Shared × c.Result)
  | .getConnection =>
    if s.checkedOut < maxSize then do
      let res ← getConnection w
      return (if res then { s with checkedOut := s.checkedOut + 1 } else s, res)
    else .error .blocked
  | .close => .ok ({ s with checkedOut := s.checkedOut - 1 }, ())
  | .updateSateCover userId sateCover => do
    let (db, res) ← updateSateCover cfg.platform (w.fails 0) s.db userId sateCover
    return (s.setDb db, res)
  | .getSateCover userId => .ok (s, getSateCover cfg.platform (w.fails 0) s.db userId)
  | .isExistUser userId => .ok (s, isExistUser (w.fails 0) s.db userId)
  | .getOfflineMessageNum userId => .ok (s, getOfflineMessageNum (w.fails 0) s.db userId)
  | .insertStoreMessage n head => do
    let (db, res) ← insertStoreMessage w (w.fails 0) n s.db head
    return (s.setDb db, res)
  | .insertOfflineMessage n head => do
    let (db, res) ← insertOfflineMessage w (w.fails 0) n s.db head
    return (s.setDb db, res)
  | .getOfflineMessage fromId toId frameId =>
    .ok (s, getOfflineMessage w (w.fails 0) s.db fromId toId frameId w.leftover w.leftoverTime)
  | .deleteOfflineMessage fromId toId frameId =>
    let (db, res) := deleteOfflineMessage (w.fails 0) s.db fromId toId frameId
    .ok (s.setDb db, res)
  | .insertStoreMessageItem msg recvTime =>
    let (db, res) := insertStoreMessageItem w (w.fails 0) s.db msg recvTime
    .ok (s.setDb db, res)
  | .time => .ok (s, w.now)
  | .selectDue now =>
    .ok (s, if w.fails 0 then [] else selectDue { w with now := now } cfg.maxRetryCount s.db)
  | .updateRetry message retryNum retryTime =>
    if w.fails 0 then .ok (s, false)
    else .ok (s.setDb { s.db with
      messageCache := s.db.messageCache.map fun r =>
        r.retry (bound message.fromId message.toId message.frameId) retryNum retryTime }, true)
  | .sendMessage message sent => .ok ({ s with network := s.network ++ [⟨message, sent⟩] }, ())
  | .fault f => .error f

/-- The world after one statement has been executed. -/
def World.next (w : World) : World := { w with fails := fun k => w.fails (k + 1) }

def Operation.after (c : Operation) (w : World) : World := if c.IsStatement then w.next else w

/-! ## The handlers -/

abbrev Handling := Program Operation Operation.Result

namespace Handling

abbrev execute (c : Operation) : Handling c.Result := .op c

def orFault {α : Type} : Except Fault α → Handling α
  | .ok a => .ret a
  | .error f => .call (.fault f) nofun

def login (userId : BitVec 32) (sate : Satellite) (response : Response) : Handling Response := do
  if ← execute (.isExistUser userId) then
    if ← execute (.updateSateCover userId sate) then
      let num ← execute (.getOfflineMessageNum userId)
      return { response with receiptType := 0x00, receiptIndicate := receiptIndicate num }
    else return { response with receiptType := 0x01, receiptIndicate := 0x00 }
  else return { response with receiptType := 0x01, receiptIndicate := 0x00 }

def processLogin (cfg : Config) (head : Ptr) : Handling Unit := do
  let userId := ntohl (← orFault (ControlHead.fromId head))
  match ← orFault (readSatellite cfg.platform head) with
  | none => return ()
  | some sate =>
    let response ← orFault (answer head 0x01)
    if ← execute .getConnection then
      let response ← login userId sate response
      execute .close
      let str ← orFault (responseEncode response)
      execute (.sendMessage none ⟨userId, str, sate.satesParam, 10⟩)
    else return ()

def processLogout (head : Ptr) : Handling Unit := do
  let userId := ntohl (← orFault (ControlHead.fromId head))
  let response ← orFault (answer head 0x02)
  if ← execute .getConnection then
    let sates ← execute (.getSateCover userId)
    let _ ← execute (.updateSateCover userId ⟨0, 0, []⟩)
    execute .close
    let str ← orFault (responseEncode response)
    execute (.sendMessage none ⟨userId, str, sates, 10⟩)
  else return ()

def processMobileRequest (cfg : Config) (head : Ptr) : Handling Unit := do
  let userId := ntohl (← orFault (ControlHead.fromId head))
  match ← orFault (readSatellite cfg.platform head) with
  | none => return ()
  | some sate =>
    let response ← orFault (answer head 0x03)
    if ← execute .getConnection then
      let _ ← execute (.updateSateCover userId sate)
      execute .close
      let str ← orFault (responseEncode response)
      execute (.sendMessage none ⟨userId, str, sate.satesParam, 10⟩)
    else return ()

/-- The send that is made when the coverage read is not empty. -/
def sendTo (message : Option MessageItem) (userId : BitVec 32) (sates : List SateParam) (level : ℤ)
    (str : Except Fault (List Byte)) : Handling Unit :=
  if sates.isEmpty then return () else do
    let buf ← orFault str
    execute (.sendMessage message ⟨userId, buf, sates, level⟩)

/-- `n` is the number of the request. -/
def processSimpleMessage (n : ℕ) (head : Ptr) : Handling Unit := do
  let toId := ntohl (← orFault (ControlHead.toId head))
  let _fromId := ntohl (← orFault (ControlHead.fromId head))
  if ← execute .getConnection then
    if ← execute (.insertStoreMessage n head) then
      let sates ← execute (.getSateCover toId)
      execute .close
      sendTo none toId sates 5 (messageEncode head)
    else execute .close
  else return ()

/-- The connection is not closed when the insert fails. -/
def processCompleteMessage (n : ℕ) (head : Ptr) : Handling Unit := do
  let toId := ntohl (← orFault (ControlHead.toId head))
  let fromId := ntohl (← orFault (ControlHead.fromId head))
  if ← execute .getConnection then
    if ← execute (.insertOfflineMessage n head) then
      let satesToUser ← execute (.getSateCover toId)
      let satesFromUser ← execute (.getSateCover fromId)
      execute .close
      let response := messageReceipt fromId (← orFault (ControlHead.frameId head))
      sendTo none fromId satesFromUser 10 (responseEncode response)
      sendTo none toId satesToUser 5 (messageEncode head)
    else return ()
  else return ()

def processReceipt (head : Ptr) : Handling Unit := do
  let toId := ntohl (← orFault (ControlHead.fromId head))
  let fromId := ntohl (← orFault (ControlHead.toId head))
  let userAckResponse := ControlHead.content head
  if (← orFault (UserAckResponse.receiptType userAckResponse)) ≠ 0x60 then return ()
  let frameId := ntohs (← orFault (UserAckResponse.frameId userAckResponse))
  if ← execute .getConnection then
    let (res, msg, recvTime) ← execute (.getOfflineMessage fromId toId frameId)
    if res && msg.type = 0x60 then
      let _ ← execute (.deleteOfflineMessage fromId toId frameId)
      let _ ← execute (.insertStoreMessageItem msg recvTime)
    execute .close
  else orFault (.error .nullPointer)

def accessToLogic (cfg : Config) (n : ℕ) (request : List Byte) : Handling Unit :=
  if request.isEmpty then return () else do
    let head : Ptr := request ++ [0#8]
    match SignalType.ofByte (← orFault (ControlHead.type head)) with
    | some .login => processLogin cfg head
    | some .logout => processLogout head
    | some .mobileManagerRequest => processMobileRequest cfg head
    | some .simpleMessage => processSimpleMessage n head
    | some .forwardNoackMessage => return ()
    | some .backwardNoackMessage => return ()
    | some .completeMessage => processCompleteMessage n head
    | some .inquireMessageRequest => return ()
    | some .receipte => processReceipt head
    | none => return ()

/-! ## Retransmission -/

/-- The loop of `GetAllOfflineMessage` over the rows selected at time `now`. -/
def retryLoop (retryInterval now : ℤ) : List CacheRow → Handling (List MessageItem)
  | [] => return []
  | r :: rows => do
    let message := r.item
    let retryNum := r.retryNum + 1
    if ← execute (.updateRetry message retryNum (now + retryNum * retryInterval)) then
      let messages ← retryLoop retryInterval now rows
      return message :: messages
    else return [message]

def getAllOfflineMessage (retryInterval : ℤ) : Handling (List MessageItem) := do
  let now ← execute .time
  let rows ← execute (.selectDue now)
  retryLoop retryInterval now rows

def resendLoop : List MessageItem → Handling Unit
  | [] => return ()
  | message :: messages => do
    let userId := message.toId
    let sates ← execute (.getSateCover userId)
    sendTo (some message) userId sates 5 (messageEncodeItem message)
    resendLoop messages

def qosPass (cfg : Config) : Handling (List MessageItem) := do
  if ← execute .getConnection then
    let messages ← getAllOfflineMessage cfg.msgInterval
    resendLoop messages
    execute .close
    return messages
  else orFault (.error .nullPointer)

end Handling

/-! ## Threads -/

/-- The program of thread `n`; a pass returns the messages it was handed out. -/
def handling (cfg : Config) (n : ℕ) : Input → Handling (List MessageItem)
  | .request bytes => do
    Handling.accessToLogic cfg n bytes
    return []
  | .pass => Handling.qosPass cfg

abbrev ServerThreads := Interleaving Shared Input Operation Operation.Result (List MessageItem)

abbrev ServerMove := Interleaving.Move Input World

abbrev ServerHistory := Interleaving.History Input World Operation Operation.Result

namespace ServerThreads

def start (sateCover : List SateRow) (userInfo : List ℤ) : ServerThreads :=
  ⟨⟨⟨[], [], sateCover, userInfo⟩, 0, []⟩, []⟩

abbrev step (cfg : Config) (maxSize : ℕ) : ServerThreads → ServerMove →
    Except (Option Fault)
      (ServerThreads × Option (Interleaving.Event Operation Operation.Result)) :=
  Interleaving.step (handle cfg maxSize) (handling cfg)

/-- The daemon makes its rounds one after the other. -/
def OneDaemon (p : ServerThreads) (l : ServerMove) : Prop :=
  l = .spawn .pass → ∀ th ∈ p.threads, th.job = .pass → ∃ handed, th.rest = .ret handed

end ServerThreads

end ShortMessage
