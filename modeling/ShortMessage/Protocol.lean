import Mathlib.Algebra.Group.Int.Defs
import Mathlib.Data.Rat.Defs
import ShortMessage.Lib.CMemory

/-!
# The wire protocol

The packed structures of `protocol.h`, laid over the bytes of a request: a field is read at its
offset, in the byte order of a little-endian host. `float` values are read as the rationals they
denote; how four bytes denote one, and the conversions that are not determined here, are a
`Platform`.
-/

namespace ShortMessage

open CMemory

inductive SignalType
  | login
  | logout
  | mobileManagerRequest
  | simpleMessage
  | forwardNoackMessage
  | backwardNoackMessage
  | completeMessage
  | inquireMessageRequest
  | receipte
deriving DecidableEq, Repr

namespace SignalType

def all : List SignalType :=
  [login, logout, mobileManagerRequest, simpleMessage, forwardNoackMessage, backwardNoackMessage,
    completeMessage, inquireMessageRequest, receipte]

def code : SignalType → Byte
  | login => 0x00#8
  | logout => 0x02#8
  | mobileManagerRequest => 0x03#8
  | simpleMessage => 0x40#8
  | forwardNoackMessage => 0x50#8
  | backwardNoackMessage => 0x51#8
  | completeMessage => 0x60#8
  | inquireMessageRequest => 0x70#8
  | receipte => 0x80#8

/-- The enumerator a `switch` on the byte selects, `none` for its `default`. -/
def ofByte (b : Byte) : Option SignalType := all.find? (·.code = b)

theorem ofByte_code (t : SignalType) : ofByte t.code = some t := by
  cases t <;> rfl

theorem code_of_ofByte {b : Byte} {t : SignalType} (h : ofByte b = some t) : t.code = b := by
  simpa using List.find?_some h

end SignalType

/-! ## Byte order -/

/-- `htonl` and `ntohl` of a little-endian host. -/
def htonl (x : BitVec 32) : BitVec 32 := swap32 x

def ntohl (x : BitVec 32) : BitVec 32 := swap32 x

def htons (x : BitVec 16) : BitVec 16 := swap16 x

def ntohs (x : BitVec 16) : BitVec 16 := swap16 x

@[simp] theorem ntohl_htonl (x : BitVec 32) : ntohl (htonl x) = x := swap32_swap32 x

@[simp] theorem ntohs_htons (x : BitVec 16) : ntohs (htons x) = x := swap16_swap16 x

@[simp] theorem htonl_ntohl (x : BitVec 32) : htonl (ntohl x) = x := swap32_swap32 x

@[simp] theorem htons_ntohs (x : BitVec 16) : htons (ntohs x) = x := swap16_swap16 x

theorem htonl_inj {x y : BitVec 32} : htonl x = htonl y ↔ x = y :=
  ⟨fun h => by simpa using congrArg ntohl h, fun h => h ▸ rfl⟩

theorem htons_inj {x y : BitVec 16} : htons x = htons y ↔ x = y :=
  ⟨fun h => by simpa using congrArg ntohs h, fun h => h ▸ rfl⟩

/-! ## Overlays -/

namespace ControlHead

def fromId (head : Ptr) : Except Fault (BitVec 32) := read32 head 0

def toId (head : Ptr) : Except Fault (BitVec 32) := read32 head 4

def frameId (head : Ptr) : Except Fault (BitVec 16) := read16 head 8

def type (head : Ptr) : Except Fault Byte := read8 head 10

def retain (head : Ptr) : Except Fault Byte := read8 head 11

def content (head : Ptr) : Ptr := head.drop 12

end ControlHead

namespace MobileRequest

/-- Past the timestamp, the position, the longitude, the latitude and the height. -/
def content (request : Ptr) : Ptr := request.drop 17

end MobileRequest

namespace UserAckResponse

def frameId (ack : Ptr) : Except Fault (BitVec 16) := read16 ack 0

def receiptType (ack : Ptr) : Except Fault Byte := read8 ack 2

end UserAckResponse

/-! ## Structures -/

/-- What the code relies on and does not determine. -/
structure Platform where
  /-- The number four bytes denote as a `float`. -/
  float : BitVec 32 → ℚ
  /-- A number rounded to `float`. -/
  toFloat : ℚ → ℚ
  /-- What a conversion to `int32_t` makes of a number outside its range. -/
  overflow : ℚ → ℤ
  /-- What an SNR column holds once it was set to the text of a number. -/
  column : ℚ → ℚ

namespace Platform

/-- A `float` passed as an `int32_t`: its fraction is dropped. -/
def toInt32 (pf : Platform) (x : ℚ) : ℤ :=
  let whole := x.num.tdiv x.den
  if -2 ^ 31 ≤ whole ∧ whole < 2 ^ 31 then whole else pf.overflow x

end Platform

structure SateParam where
  sateId : ℤ
  beamId : ℤ
  snr : ℚ
deriving DecidableEq, Repr

/-- The constructor with arguments, whose third parameter is an `int32_t`. -/
def SateParam.make (pf : Platform) (sateId beamId : ℤ) (snr : ℚ) : SateParam :=
  ⟨sateId, beamId, pf.toFloat (pf.toInt32 snr)⟩

structure Satellite where
  grandCover : Byte
  satCoverNum : Byte
  satesParam : List SateParam

structure Response where
  toId : BitVec 32
  fromId : BitVec 32
  frameId : BitVec 16
  type : Byte
  retain : Byte
  receiptType : Byte
  receiptIndicate : Byte
deriving DecidableEq, Repr

namespace Response

/-- The size of the packed structure. -/
def packedSize : ℕ := 4 + 4 + 2 + 1 + 1 + 1 + 1

/-- The fields of the packed structure laid over the bytes at a pointer. -/
def overlay (p : Ptr) : Except Fault Response := do
  let toId ← read32 p 0
  let fromId ← read32 p 4
  let frameId ← read16 p 8
  let type ← read8 p 10
  let retain ← read8 p 11
  let receiptType ← read8 p 12
  let receiptIndicate ← read8 p 13
  return ⟨toId, fromId, frameId, type, retain, receiptType, receiptIndicate⟩

end Response

structure MessageReceiptItem where
  userId : BitVec 32
  frameId : BitVec 16
  receiptType : Byte
  receiptIndicate : Byte
deriving DecidableEq, Repr

structure MessageResponse where
  toId : BitVec 64
  fromId : BitVec 64
  frameId : BitVec 16
  type : Byte
  retain : Byte
  messageReceiptItem : MessageReceiptItem
deriving DecidableEq, Repr

namespace MessageResponse

def packedSize : ℕ := 8 + 8 + 2 + 1 + 1 + (4 + 2 + 1 + 1)

def overlay (p : Ptr) : Except Fault MessageResponse := do
  let toId ← read64 p 0
  let fromId ← read64 p 8
  let frameId ← read16 p 16
  let type ← read8 p 18
  let retain ← read8 p 19
  let userId ← read32 p 20
  let itemFrameId ← read16 p 24
  let receiptType ← read8 p 26
  let receiptIndicate ← read8 p 27
  return ⟨toId, fromId, frameId, type, retain,
    ⟨userId, itemFrameId, receiptType, receiptIndicate⟩⟩

end MessageResponse

/-- A message read back from a table. `origin` is a ghost: the number of the request the message
came in with, `none` while the item is uninitialised. No statement and no branch reads it. -/
structure MessageItem where
  toId : BitVec 32
  fromId : BitVec 32
  frameId : BitVec 16
  type : Byte
  retain : Byte
  content : List Byte
  origin : Option ℕ
deriving DecidableEq, Repr

end ShortMessage
