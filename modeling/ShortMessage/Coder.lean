import ShortMessage.Protocol

/-!
# The encoders

`coder.cpp`: a message or a response is written field by field into a zeroed buffer of 1024 bytes,
and the bytes up to the cursor are returned.
-/

namespace ShortMessage

open CMemory

def bufSize : ℕ := 1024

/-- The returned string is one byte longer than what was written. -/
def responseEncode (response : Response) : Except Fault (List Byte) := do
  let pos : Cursor bufSize := .start
  let pos ← pos.put (le32 response.toId)
  let pos ← pos.put (le32 response.fromId)
  let pos ← pos.put (le16 response.frameId)
  let pos ← pos.put [response.type]
  let pos ← pos.put [response.retain]
  let pos ← pos.put [response.receiptType]
  let pos ← pos.put [response.receiptIndicate]
  pos.take (pos.out.length + 1)

/-- `ResponseEncode(const MessageResponse&)`: each 64-bit id is written as 32 bits. -/
def messageResponseEncode (response : MessageResponse) : Except Fault (List Byte) := do
  let pos : Cursor bufSize := .start
  let pos ← pos.put (le32 (response.toId.setWidth 32))
  let pos ← pos.put (le32 (response.fromId.setWidth 32))
  let pos ← pos.put (le16 response.frameId)
  let pos ← pos.put [response.type]
  let pos ← pos.put [response.retain]
  let pos ← pos.put (le32 response.messageReceiptItem.userId)
  let pos ← pos.put (le16 response.messageReceiptItem.frameId)
  let pos ← pos.put [response.messageReceiptItem.receiptType]
  let pos ← pos.put [response.messageReceiptItem.receiptIndicate]
  pos.take (pos.out.length + 1)

/-- `MessageEncode(const ControlHead*)`: the fields are copied as they lie in the request. -/
def messageEncode (head : Ptr) : Except Fault (List Byte) := do
  let pos : Cursor bufSize := .start
  let pos ← pos.put (le32 (← ControlHead.toId head))
  let pos ← pos.put (le32 (← ControlHead.fromId head))
  let pos ← pos.put (le16 (← ControlHead.frameId head))
  let pos ← pos.put [← ControlHead.type head]
  let pos ← pos.put [← ControlHead.retain head]
  let pos ← pos.put ((← cstr (ControlHead.content head)) ++ [0#8])
  pos.take pos.out.length

/-- `MessageEncode(const MessageItem&)`: the fields are in host order. `strcpy` stops at the first
NUL of the content, the cursor moves by its whole size. -/
def messageEncodeItem (message : MessageItem) : Except Fault (List Byte) := do
  let pos : Cursor bufSize := .start
  let pos ← pos.put (le32 (htonl message.toId))
  let pos ← pos.put (le32 (htonl message.fromId))
  let pos ← pos.put (le16 (htons message.frameId))
  let pos ← pos.put [message.type]
  let pos ← pos.put [message.retain]
  let strPos := pos.out.length
  let pos ← pos.put (message.content.takeWhile (· ≠ 0#8) ++ [0#8])
  pos.take (strPos + message.content.length + 1)

end ShortMessage
