import ShortMessage.Coder
import ShortMessage.Database
import ShortMessage.SendHelper
import ShortMessage.Lib.Run

/-!
# The server

The request handlers of `mobile_manager.cpp` and `message_manager.cpp`, the dispatch of
`AccessToLogic` and one pass of the retransmission daemon, as steps on the tables and the number of
connections taken from the pool. The statements of a handler are numbered in the order it executes
them, for `World.fails`.
-/

namespace ShortMessage

open CMemory

structure Config where
  platform : Platform
  maxRetryCount : ℤ
  msgInterval : ℤ
  scheduleAddress : Addresses

/-- Numbers are kept exactly, and beams 1 and 2 have an address. -/
def exactConfig : Config where
  platform := ⟨fun _ => 0, id, fun _ => 0, id⟩
  maxRetryCount := 3
  msgInterval := 10
  scheduleAddress := fun beamId =>
    if beamId = 1 ∨ beamId = 2 then some ⟨"162.105.85.188", 11000 + beamId⟩ else none

/-- `served` is a ghost: how many requests and passes came before. -/
structure Server where
  db : Db
  checkedOut : ℕ
  served : ℕ

/-- What a step does besides: the calls of `SendMessage` its handler makes, the messages
`GetAllOfflineMessage` hands out and those of them `QosSendDaemon` then sends. -/
structure Out where
  sent : List Sent
  handed : List MessageItem
  resent : List (MessageItem × Sent)
deriving DecidableEq, Repr

def Out.ofSent (sent : List Sent) : Out := ⟨sent, [], []⟩

/-- Every handler takes one connection, and all but one path give it back. -/
def Server.close (s : Server) : Server := { s with checkedOut := s.checkedOut - 1 }

def Server.checkOut (s : Server) : Server := { s with checkedOut := s.checkedOut + 1 }

/-! ## Mobile management -/

/-- The loop over the satellites of a report, from its pointer on. -/
def readSates (pf : Platform) : ℕ → Ptr → Except Fault (List SateParam)
  | 0, _ => .ok []
  | n + 1, pos => do
    let sateId ← read8 pos 0
    let beamId ← read8 pos 1
    let snr ← read32 pos 2
    let rest ← readSates pf n (pos.drop 6)
    return ⟨sateId.toNat, beamId.toNat, pf.float snr⟩ :: rest

/-- The report of a request, `none` when its count is zero. -/
def readSatellite (pf : Platform) (head : Ptr) : Except Fault (Option Satellite) := do
  let pos := MobileRequest.content (ControlHead.content head)
  let grandCover ← read8 pos 0
  let satCoverNum ← read8 pos 1
  if satCoverNum = 0 then return none
  let satesParam ← readSates pf satCoverNum.toNat (pos.drop 2)
  return some ⟨grandCover, satCoverNum, satesParam⟩

/-- The answer to a request, with the handler's own receipt. -/
def answer (head : Ptr) (receiptType : Byte) : Except Fault Response := do
  let toId ← ControlHead.fromId head
  let fromId ← ControlHead.toId head
  let frameId ← ControlHead.frameId head
  let retain ← ControlHead.retain head
  return ⟨toId, fromId, frameId, 0x80, retain, receiptType, 0x00⟩

def receiptIndicate (num : ℤ) : Byte := if 0 ≤ num ∧ num < 255 then .ofInt 8 num else 0xFF

/-- The tables after a login, and its answer. -/
def login (pf : Platform) (w : World) (db : Db) (userId : BitVec 32) (sate : Satellite)
    (response : Response) : Except Fault (Db × Response) := do
  if isExistUser (w.fails 0) db userId then
    let (db, res) ← updateSateCover pf (w.fails 1) db userId sate
    if res then
      return (db, { response with
        receiptType := 0x00
        receiptIndicate := receiptIndicate (getOfflineMessageNum (w.fails 2) db userId) })
    else return (db, { response with receiptType := 0x01, receiptIndicate := 0x00 })
  else return (db, { response with receiptType := 0x01, receiptIndicate := 0x00 })

def processLogin (cfg : Config) (w : World) (s : Server) (head : Ptr) :
    Except Fault (Server × List Sent) := do
  let userId := ntohl (← ControlHead.fromId head)
  match ← readSatellite cfg.platform head with
  | none => return (s, [])
  | some sate =>
    let response ← answer head 0x01
    if ← getConnection w then
      let s := s.checkOut
      let (db, response) ← login cfg.platform w s.db userId sate response
      let s := { s with db := db }.close
      let str ← responseEncode response
      return (s, [⟨userId, str, sate.satesParam, 10⟩])
    else return (s, [])

def processLogout (cfg : Config) (w : World) (s : Server) (head : Ptr) :
    Except Fault (Server × List Sent) := do
  let userId := ntohl (← ControlHead.fromId head)
  let response ← answer head 0x02
  if ← getConnection w then
    let s := s.checkOut
    let sates := getSateCover cfg.platform (w.fails 0) s.db userId
    let (db, _) ← updateSateCover cfg.platform (w.fails 1) s.db userId ⟨0, 0, []⟩
    let s := { s with db := db }.close
    let str ← responseEncode response
    return (s, [⟨userId, str, sates, 10⟩])
  else return (s, [])

def processMobileRequest (cfg : Config) (w : World) (s : Server) (head : Ptr) :
    Except Fault (Server × List Sent) := do
  let userId := ntohl (← ControlHead.fromId head)
  match ← readSatellite cfg.platform head with
  | none => return (s, [])
  | some sate =>
    let response ← answer head 0x03
    if ← getConnection w then
      let s := s.checkOut
      let (db, _) ← updateSateCover cfg.platform (w.fails 0) s.db userId sate
      let s := { s with db := db }.close
      let str ← responseEncode response
      return (s, [⟨userId, str, sate.satesParam, 10⟩])
    else return (s, [])

/-! ## Messages -/

/-- A send that is made only when the coverage read is not empty. -/
def sendTo (userId : BitVec 32) (sates : List SateParam) (level : ℤ)
    (str : Except Fault (List Byte)) : Except Fault (List Sent) :=
  if sates.isEmpty then .ok [] else do
    let buf ← str
    return [⟨userId, buf, sates, level⟩]

def processSimpleMessage (cfg : Config) (w : World) (s : Server) (head : Ptr) :
    Except Fault (Server × List Sent) := do
  let toId := ntohl (← ControlHead.toId head)
  let _fromId := ntohl (← ControlHead.fromId head)
  if ← getConnection w then
    let s := s.checkOut
    let (db, res) ← insertStoreMessage w (w.fails 0) s.served s.db head
    let s := { s with db := db }
    if res then
      let sates := getSateCover cfg.platform (w.fails 1) s.db toId
      let sent ← sendTo toId sates 5 (messageEncode head)
      return (s.close, sent)
    else return (s.close, [])
  else return (s, [])

/-- The receipt a sender gets for a message that was cached. -/
def messageReceipt (fromId : BitVec 32) (frameId : BitVec 16) : Response where
  toId := htonl fromId
  fromId := 0
  frameId := frameId
  type := 0x80
  retain := 0
  receiptType := 0x50
  receiptIndicate := 0

/-- On a failed insert the connection is cleared, not closed. -/
def processCompleteMessage (cfg : Config) (w : World) (s : Server) (head : Ptr) :
    Except Fault (Server × List Sent) := do
  let toId := ntohl (← ControlHead.toId head)
  let fromId := ntohl (← ControlHead.fromId head)
  if ← getConnection w then
    let s := s.checkOut
    let (db, res) ← insertOfflineMessage w (w.fails 0) s.served s.db head
    let s := { s with db := db }
    if res then
      let satesToUser := getSateCover cfg.platform (w.fails 1) s.db toId
      let satesFromUser := getSateCover cfg.platform (w.fails 2) s.db fromId
      let response := messageReceipt fromId (← ControlHead.frameId head)
      let receipt ← sendTo fromId satesFromUser 10 (responseEncode response)
      let message ← sendTo toId satesToUser 5 (messageEncode head)
      return (s.close, receipt ++ message)
    else return (s, [])
  else return (s, [])

/-- The tables after a receipt for a frame `fromId` sent to `toId`. `DeleteOfflineMessage` and
`InsertStoreMessage` are called one after the other and what they return is dropped. -/
def receipt (w : World) (db : Db) (fromId toId : BitVec 32) (frameId : BitVec 16) : Db :=
  let (res, msg, recvTime) :=
    getOfflineMessage w (w.fails 0) db fromId toId frameId w.leftover w.leftoverTime
  if res && msg.type = 0x60 then
    let (db, _) := deleteOfflineMessage (w.fails 1) db fromId toId frameId
    (insertStoreMessageItem w (w.fails 2) db msg recvTime).1
  else db

def processReceipt (w : World) (s : Server) (head : Ptr) : Except Fault (Server × List Sent) := do
  let toId := ntohl (← ControlHead.fromId head)
  let fromId := ntohl (← ControlHead.toId head)
  let userAckResponse := ControlHead.content head
  if (← UserAckResponse.receiptType userAckResponse) ≠ 0x60 then return (s, [])
  let frameId := ntohs (← UserAckResponse.frameId userAckResponse)
  if ← getConnection w then
    let s := s.checkOut
    return ({ s with db := receipt w s.db fromId toId frameId }.close, [])
  else .error .nullPointer

/-! ## Dispatch -/

/-- The request's bytes are read through `c_str`, which ends them with a NUL. -/
def accessToLogic (cfg : Config) (w : World) (s : Server) (request : List Byte) :
    Except Fault (Server × List Sent) := do
  if request.isEmpty then return (s, [])
  let head : Ptr := request ++ [0#8]
  match SignalType.ofByte (← ControlHead.type head) with
  | some .login => processLogin cfg w s head
  | some .logout => processLogout cfg w s head
  | some .mobileManagerRequest => processMobileRequest cfg w s head
  | some .simpleMessage => processSimpleMessage cfg w s head
  | some .forwardNoackMessage => return (s, [])
  | some .backwardNoackMessage => return (s, [])
  | some .completeMessage => processCompleteMessage cfg w s head
  | some .inquireMessageRequest => return (s, [])
  | some .receipte => processReceipt w s head
  | none => return (s, [])

/-! ## Retransmission -/

/-- The loop over the messages handed out, statement `k` reading the next addressee's coverage. -/
def resendLoop (cfg : Config) (w : World) (db : Db) :
    ℕ → List MessageItem → Except Fault (List (MessageItem × Sent))
  | _, [] => .ok []
  | k, message :: messages => do
    let userId := message.toId
    let sent ← sendTo userId (getSateCover cfg.platform (w.fails k) db userId) 5
      (messageEncodeItem message)
    let rest ← resendLoop cfg w db (k + 1) messages
    return sent.map (message, ·) ++ rest

/-- One round of the loop in `QosSendDaemon::Start`. -/
def qosPass (cfg : Config) (w : World) (s : Server) : Except Fault (Server × Out) := do
  if ← getConnection w then
    let s := s.checkOut
    let (db, messages) := getAllOfflineMessage w cfg.maxRetryCount cfg.msgInterval s.db
    let resent ← resendLoop cfg w db (1 + messages.length) messages
    return ({ s with db := db }.close, ⟨[], messages, resent⟩)
  else .error .nullPointer

/-! ## Steps -/

inductive Input
  | request (bytes : List Byte)
  | pass
deriving DecidableEq, Repr

structure Label where
  input : Input
  world : World

/-- A request is served or a pass is made, from beginning to end. -/
def serve (cfg : Config) (s : Server) (l : Label) : Except Fault (Server × Out) :=
  match l.input with
  | .request bytes => do
    let (s, sent) ← accessToLogic cfg l.world s bytes
    return (s, Out.ofSent sent)
  | .pass => qosPass cfg l.world s

def step (cfg : Config) (s : Server) (l : Label) : Except Fault (Server × Out) := do
  let (s', out) ← serve cfg s l
  return ({ s' with served := s.served + 1 }, out)

abbrev History := List (Label × Out)

def Server.start (sateCover : List SateRow) (userInfo : List ℤ) : Server :=
  ⟨⟨[], [], sateCover, userInfo⟩, 0, 0⟩

end ShortMessage
