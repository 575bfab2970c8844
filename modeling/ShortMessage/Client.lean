import ShortMessage.Coder

/-!
# A text message, and the client that sends it

`test/LogicClient` builds a request from its own fields: the addressee first, then the sender, both
in network order.
-/

namespace ShortMessage

open CMemory

/-- A message in host order, with a text that fits the encoders' buffer. -/
structure Message where
  toId : BitVec 32
  fromId : BitVec 32
  frameId : BitVec 16
  type : Byte
  retain : Byte
  content : List Byte
  noNul : 0#8 ∉ content
  short : content.length ≤ 1011

namespace Message

/-- What the request builder of the client's `main` sends. -/
def request (m : Message) : Except Fault (List Byte) := do
  let pos : Cursor bufSize := .start
  let pos ← pos.put (le32 (htonl m.toId))
  let pos ← pos.put (le32 (htonl m.fromId))
  let pos ← pos.put (le16 (htons m.frameId))
  let pos ← pos.put [m.type]
  let pos ← pos.put [m.retain]
  let pos ← pos.put (m.content ++ [0#8])
  pos.take pos.out.length

def item (m : Message) : MessageItem :=
  ⟨m.toId, m.fromId, m.frameId, m.type, m.retain, m.content, none⟩

/-- The overlay of `ControlHead`, as the handlers read it, gives the fields of the message. -/
structure Overlays (head : Ptr) (m : Message) : Prop where
  toId : (ControlHead.toId head).map ntohl = .ok m.toId
  fromId : (ControlHead.fromId head).map ntohl = .ok m.fromId
  frameId : (ControlHead.frameId head).map ntohs = .ok m.frameId
  type : ControlHead.type head = .ok m.type
  retain : ControlHead.retain head = .ok m.retain
  content : cstr (ControlHead.content head) = .ok m.content

/-- A string that decodes, through its `c_str`, to the message it was built from. -/
def RoundTrips (m : Message) (str : Except Fault (List Byte)) : Prop :=
  ∃ buf, str = .ok buf ∧ Overlays (buf ++ [0#8]) m

/-- One wire format: the client's request, and what either encoder makes of the message, overlaid
with `ControlHead`, give back its fields. -/
structure OneWireFormat (m : Message) : Prop where
  request : m.RoundTrips m.request
  head : ∀ head, Overlays head m → m.RoundTrips (messageEncode head)
  item : m.RoundTrips (messageEncodeItem m.item)

end Message

end ShortMessage
