import ShortMessage.Protocol

/-!
# Sending over a beam

`send_helper.cpp`: among the satellites given, the first one whose SNR exceeds those before it and
whose beam has a configured address is chosen, and the message goes to that address.
-/

namespace ShortMessage

open CMemory

structure Address where
  ip : String
  port : ℤ
deriving DecidableEq, Repr

/-- `schedule_address_`, by beam id. -/
abbrev Addresses := ℤ → Option Address

structure AccessMessage where
  uid : BitVec 32
  sateId : ℤ
  beamId : ℤ
  level : ℤ
  content : List Byte
deriving DecidableEq, Repr

/-- The running variables `cur_snr`, `cur_sate_id` and `cur_beam_id`. -/
structure Cur where
  snr : ℚ
  sateId : ℤ
  beamId : ℤ
deriving DecidableEq, Repr

def Cur.start : Cur := ⟨-1, -1, -1⟩

def Cur.next (addresses : Addresses) (cur : Cur) (sate : SateParam) : Cur :=
  if cur.snr < sate.snr ∧ (addresses sate.beamId).isSome then
    ⟨sate.snr, sate.sateId, sate.beamId⟩
  else cur

def choose (addresses : Addresses) (sates : List SateParam) : Cur :=
  sates.foldl (Cur.next addresses) .start

/-- What is sent and where to, `none` when `SendMessage` returns before contacting anyone. -/
def sendMessage (addresses : Addresses) (userId : BitVec 32) (buf : List Byte)
    (sates : List SateParam) (level : ℤ) : Option (AccessMessage × Option Address) :=
  let cur := choose addresses sates
  if cur.sateId = -1 then none
  else some (⟨userId, cur.sateId, cur.beamId, level, buf⟩, addresses cur.beamId)

/-- `schedule_address_[beam_id]`: a beam that is not in the map is added with a new `Address`, whose
port is not set. -/
def Addresses.bracket (addresses : Addresses) (fresh : Address) (beamId : ℤ) :
    Addresses × Address :=
  match addresses beamId with
  | some address => (addresses, address)
  | none => (fun id => if id = beamId then some fresh else addresses id, fresh)

/-- `SendMessage` with the map it leaves: what it hands to the socket, `none` when it returns before
contacting anyone. The map is looked into twice. -/
def sendMessageOver (fresh : Address) (addresses : Addresses) (userId : BitVec 32)
    (buf : List Byte) (sates : List SateParam) (level : ℤ) :
    Addresses × Option (AccessMessage × Address) :=
  let cur := choose addresses sates
  if cur.sateId = -1 then (addresses, none)
  else
    let (addresses, withIp) := addresses.bracket fresh cur.beamId
    let (addresses, withPort) := addresses.bracket fresh cur.beamId
    (addresses, some (⟨userId, cur.sateId, cur.beamId, level, buf⟩, ⟨withIp.ip, withPort.port⟩))

/-- A call of `SendMessage`. -/
structure Sent where
  userId : BitVec 32
  buf : List Byte
  sates : List SateParam
  level : ℤ
deriving DecidableEq, Repr

end ShortMessage
