import ShortMessage.Server
import ShortMessage.Lib.Thrift

/-!
# The calls between access and logic

`im_types.cpp` and `LogicInterface.cpp`, generated from `im.thrfit`: how an `AccessMessage` and the
arguments and results of `AccessToLogic` and `LogicToAccess` are read and written, the client's two
calls, and the server's dispatch. The protocol is a parameter. A handler returns, or throws a
`std::exception`, whose `what` goes back to the client.

What is written nests no deeper than an `AccessMessage` in its arguments, so that only readers count
their depth.
-/

namespace ShortMessage

open CMemory Thrift

/-! ## `AccessMessage` -/

namespace AccessMessage

def zero : AccessMessage := ⟨0, 0, 0, 0, []⟩

def readField (p : TProtocol) (depth : ℕ) (m : AccessMessage) (ftype : TType) (fid : BitVec 16) :
    Reader Byte AccessMessage :=
  match fid.toNat with
  | 1 => fieldCase (p.skip depth) .i32 (do return { m with uid := ← p.readI32 }) ftype m
  | 2 => fieldCase (p.skip depth) .i32 (do return { m with sateId := (← p.readI32).toInt }) ftype m
  | 3 => fieldCase (p.skip depth) .i32 (do return { m with beamId := (← p.readI32).toInt }) ftype m
  | 4 => fieldCase (p.skip depth) .i32 (do return { m with level := (← p.readI32).toInt }) ftype m
  | 5 => fieldCase (p.skip depth) .string (do return { m with content := ← p.readString }) ftype m
  | _ => do
    p.skip depth ftype
    return m

/-- What is read goes into `m`, whose other members keep their values. -/
def read (p : TProtocol) (depth : ℕ) (m : AccessMessage) : Reader Byte AccessMessage :=
  p.readStruct (readField p (depth + 1)) depth m

def write (p : TProtocol) (m : AccessMessage) : List Byte :=
  p.writeStructBegin (ascii "AccessMessage") ++
  (p.writeFieldBegin (ascii "uid") .i32 1 ++ p.writeI32 m.uid ++ p.writeFieldEnd) ++
  (p.writeFieldBegin (ascii "sate_id") .i32 2 ++ p.writeI32 (.ofInt 32 m.sateId) ++
    p.writeFieldEnd) ++
  (p.writeFieldBegin (ascii "beam_id") .i32 3 ++ p.writeI32 (.ofInt 32 m.beamId) ++
    p.writeFieldEnd) ++
  (p.writeFieldBegin (ascii "level") .i32 4 ++ p.writeI32 (.ofInt 32 m.level) ++
    p.writeFieldEnd) ++
  (p.writeFieldBegin (ascii "content") .string 5 ++ p.writeString m.content ++ p.writeFieldEnd) ++
  p.writeFieldStop ++ p.writeStructEnd

end AccessMessage

/-! ## Arguments and results -/

/-- The reader of a result, which has no fields. -/
def readVoid (p : TProtocol) (depth : ℕ) : Reader Byte Unit :=
  p.readStruct (fun _ ftype _ => p.skip (depth + 1) ftype) depth ()

def writeVoid (p : TProtocol) (name : String) : List Byte :=
  p.writeStructBegin (ascii name) ++ p.writeFieldStop ++ p.writeStructEnd

namespace AccessToLogic

/-- The member of `LogicInterface_AccessToLogic_args` is its `request`. -/
def readArgsField (p : TProtocol) (depth : ℕ) (request : List Byte) (ftype : TType)
    (fid : BitVec 16) : Reader Byte (List Byte) :=
  match fid.toNat with
  | 1 => fieldCase (p.skip depth) .string p.readString ftype request
  | _ => do
    p.skip depth ftype
    return request

def readArgs (p : TProtocol) (depth : ℕ) : Reader Byte (List Byte) :=
  p.readStruct (readArgsField p (depth + 1)) depth []

def writePargs (p : TProtocol) (request : List Byte) : List Byte :=
  p.writeStructBegin (ascii "LogicInterface_AccessToLogic_pargs") ++
  (p.writeFieldBegin (ascii "request") .string 1 ++ p.writeString request ++ p.writeFieldEnd) ++
  p.writeFieldStop ++ p.writeStructEnd

def writeResult (p : TProtocol) : List Byte := writeVoid p "LogicInterface_AccessToLogic_result"

def readPresult (p : TProtocol) (depth : ℕ) : Reader Byte Unit := readVoid p depth

end AccessToLogic

namespace LogicToAccess

/-- The member of `LogicInterface_LogicToAccess_args` is its `response`. A second structure is read
into the same object. -/
def readArgsField (p : TProtocol) (depth : ℕ) (response : AccessMessage) (ftype : TType)
    (fid : BitVec 16) : Reader Byte AccessMessage :=
  match fid.toNat with
  | 1 => fieldCase (p.skip depth) .struct (AccessMessage.read p depth response) ftype response
  | _ => do
    p.skip depth ftype
    return response

def readArgs (p : TProtocol) (depth : ℕ) : Reader Byte AccessMessage :=
  p.readStruct (readArgsField p (depth + 1)) depth .zero

def writePargs (p : TProtocol) (response : AccessMessage) : List Byte :=
  p.writeStructBegin (ascii "LogicInterface_LogicToAccess_pargs") ++
  (p.writeFieldBegin (ascii "response") .struct 1 ++ response.write p ++ p.writeFieldEnd) ++
  p.writeFieldStop ++ p.writeStructEnd

def writeResult (p : TProtocol) : List Byte := writeVoid p "LogicInterface_LogicToAccess_result"

def readPresult (p : TProtocol) (depth : ℕ) : Reader Byte Unit := readVoid p depth

end LogicToAccess

/-! ## The client -/

/-- `send_…`, whose sequence number is always zero. -/
def send (p : TProtocol) (name : String) (pargs : List Byte) : List Byte :=
  p.writeMessageBegin (ascii name) .call 0 ++ pargs ++ p.writeMessageEnd

/-- `recv_…`. Nothing is thrown for a message of another type or another name: what it carries is
skipped, and the result is read after it. -/
def recv (p : TProtocol) (name : String) (readPresult : Reader Byte Unit) :
    Reader Byte (Except TApplicationException Unit) := do
  let (fname, mtype, _rseqid) ← p.readMessageBegin
  if mtype = .exception then
    let x ← p.readException 0
    p.readMessageEnd
    return .error x
  if mtype ≠ .reply then
    p.skip 0 .struct
    p.readMessageEnd
  if fname ≠ ascii name then
    p.skip 0 .struct
    p.readMessageEnd
  readPresult
  p.readMessageEnd
  return .ok ()

/-- A call of the interface. -/
inductive Call
  | accessToLogic (request : List Byte)
  | logicToAccess (response : AccessMessage)
deriving DecidableEq, Repr

namespace Call

def send (p : TProtocol) : Call → List Byte
  | .accessToLogic request =>
    ShortMessage.send p "AccessToLogic" (AccessToLogic.writePargs p request)
  | .logicToAccess response =>
    ShortMessage.send p "LogicToAccess" (LogicToAccess.writePargs p response)

def recv (p : TProtocol) : Call → Reader Byte (Except TApplicationException Unit)
  | .accessToLogic _ => ShortMessage.recv p "AccessToLogic" (AccessToLogic.readPresult p 0)
  | .logicToAccess _ => ShortMessage.recv p "LogicToAccess" (LogicToAccess.readPresult p 0)

end Call

/-! ## The server -/

/-- `LogicInterfaceIf`, over the state its methods work on: a call returns or throws. -/
structure Iface (σ : Type) where
  accessToLogic : List Byte → σ → Except (List Byte) Unit × σ
  logicToAccess : AccessMessage → σ → Except (List Byte) Unit × σ

section Server

variable {σ : Type}

/-- The call made on the handler itself. -/
def Iface.call (iface : Iface σ) : Call → StateM σ (Except (List Byte) Unit)
  | .accessToLogic request => iface.accessToLogic request
  | .logicToAccess response => iface.logicToAccess response

/-- What a `process_…` writes once the handler returned or threw. -/
def reply (p : TProtocol) (name : String) (seqid : BitVec 32) (result : List Byte) :
    Except (List Byte) Unit → List Byte
  | .error what =>
    p.writeMessageBegin (ascii name) .exception seqid ++ p.writeException (.unknown what) ++
      p.writeMessageEnd
  | .ok () => p.writeMessageBegin (ascii name) .reply seqid ++ result ++ p.writeMessageEnd

/-- A `process_…`: the handler's state and what is written. -/
def processCall {α : Type} (p : TProtocol) (name : String) (readArgs : Reader Byte α)
    (method : α → σ → Except (List Byte) Unit × σ) (result : List Byte) (s : σ)
    (seqid : BitVec 32) : Reader Byte (σ × List Byte) := do
  let args ← readArgs
  p.readMessageEnd
  let (outcome, s) := method args s
  return (s, reply p name seqid result outcome)

def processAccessToLogic (p : TProtocol) (iface : Iface σ) : σ → BitVec 32 →
    Reader Byte (σ × List Byte) :=
  processCall p "AccessToLogic" (AccessToLogic.readArgs p 0) iface.accessToLogic
    (AccessToLogic.writeResult p)

def processLogicToAccess (p : TProtocol) (iface : Iface σ) : σ → BitVec 32 →
    Reader Byte (σ × List Byte) :=
  processCall p "LogicToAccess" (LogicToAccess.readArgs p 0) iface.logicToAccess
    (LogicToAccess.writeResult p)

def invalidMethod (fname : List Byte) : TApplicationException :=
  .unknownMethod (ascii "Invalid method name: \x27" ++ fname ++ ascii "\x27")

def dispatchCall (p : TProtocol) (iface : Iface σ) (s : σ) (fname : List Byte)
    (seqid : BitVec 32) : Reader Byte (σ × List Byte) :=
  if fname = ascii "AccessToLogic" then processAccessToLogic p iface s seqid
  else if fname = ascii "LogicToAccess" then processLogicToAccess p iface s seqid
  else do
    p.skip 0 .struct
    p.readMessageEnd
    return (s, p.writeMessageBegin fname .exception seqid ++ p.writeException (invalidMethod fname)
      ++ p.writeMessageEnd)

/-- What the library does around `dispatchCall`: it reads the header and refuses all but calls. -/
def process (p : TProtocol) (iface : Iface σ) (s : σ) : Reader Byte (σ × List Byte) := do
  let (fname, mtype, seqid) ← p.readMessageBegin
  if mtype = .call ∨ mtype = .oneway then dispatchCall p iface s fname seqid
  else failure

/-- The next `n` messages of a connection, and the replies in their order. -/
def serveConn (p : TProtocol) (iface : Iface σ) : ℕ → σ → Reader Byte (σ × List Byte)
  | 0, s => return (s, [])
  | n + 1, s => do
    let (s, out) ← process p iface s
    let (s, outs) ← serveConn p iface n s
    return (s, out ++ outs)

/-! ## Clients and a server -/

/-- The server's state, and what is under way on each client's connection. -/
structure Net (ι σ : Type) where
  server : σ
  toServer : ι → List Byte
  toClient : ι → List Byte

/-- Nothing is under way. -/
def Net.quiet {ι : Type} (s : σ) : Net ι σ := ⟨s, fun _ => [], fun _ => []⟩

/-- A call that client `i` makes, with the server at the other end of its connection. -/
def Call.remote {ι : Type} [DecidableEq ι] (p : TProtocol) (iface : Iface σ) (i : ι) (c : Call) :
    StateT (Net ι σ) Option (Except TApplicationException Unit) := fun net => do
  let ((server, out), toServer) ← (process p iface net.server).run (net.toServer i ++ c.send p)
  let (outcome, toClient) ← (c.recv p).run (net.toClient i ++ out)
  return (outcome, ⟨server, Function.update net.toServer i toServer,
    Function.update net.toClient i toClient⟩)

/-! ## The two ends -/

/-- `LogicInterfaceHandler`: the server is one step further for each request, in the world it is
given; after a fault nothing is executed. `LogicToAccess` is empty. -/
def logicInterfaceHandler (cfg : Config) (worlds : ℕ → World) :
    Iface (Except Fault (Server × History)) where
  accessToLogic request s := (.ok (), do
    let (s, h) ← s
    let l : Label := ⟨.request request, worlds h.length⟩
    let (s, out) ← step cfg s l
    return (s, h ++ [(l, out)]))
  logicToAccess _ s := (.ok (), s)

/-- `SendMessage` to its end: the call is made on a new connection to the access node at the address
chosen, if it can be reached, and any exception makes it return false. -/
def sendMessageRemote (p : TProtocol) (access : Address → Option (Iface σ)) (s : σ)
    (fresh : Address) (addresses : Addresses) (m : Sent) : Addresses × Bool × σ :=
  match sendMessageOver fresh addresses m.userId m.buf m.sates m.level with
  | (addresses, none) => (addresses, false, s)
  | (addresses, some (send, address)) =>
    match access address with
    | none => (addresses, false, s)
    | some iface =>
      match (Call.logicToAccess send).remote p iface () (.quiet s) with
      | none => (addresses, false, s)
      | some (.error _, net) => (addresses, false, net.server)
      | some (.ok (), net) => (addresses, true, net.server)

end Server

end ShortMessage
