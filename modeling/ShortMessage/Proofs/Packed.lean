import ShortMessage.Coder

/-!
# The encoded responses

A `Response` is laid out as it is declared, and one byte follows it. A `MessageResponse` is not: its
ids are cut to 32 bits, and what is returned is shorter than the structure that is laid over it.
-/

namespace ShortMessage

open CMemory

/-- The string an encoder returns has the size of the packed structure, which laid over its `c_str`
gives back what was encoded. -/
def PackedImage {α : Type} (size : ℕ) (overlay : Ptr → Except Fault α)
    (encode : α → Except Fault (List Byte)) (x : α) : Prop :=
  ∃ str, encode x = .ok str ∧ str.length = size ∧ overlay (str ++ [0#8]) = .ok x

/-! ## Response -/

def Response.image (r : Response) : List Byte :=
  le32 r.toId ++ (le32 r.fromId ++ (le16 r.frameId ++
    [r.type, r.retain, r.receiptType, r.receiptIndicate]))

theorem length_response_image (r : Response) : r.image.length = 14 := rfl

theorem responseEncode_eq (r : Response) : responseEncode r = .ok (r.image ++ [0#8]) := by
  have hlt : r.image.length < bufSize := by
    rw [length_response_image]
    decide
  unfold responseEncode
  simp only [Cursor.put_put]
  exact Cursor.put_take_succ hlt

/-- The structure laid over its image reads every field. -/
theorem overlay_image (r : Response) (bs : List Byte) :
    Response.overlay (r.image ++ bs) = .ok r := by
  have hto : read32 (r.image ++ bs) 0 = .ok r.toId := by
    simp only [Response.image, List.append_assoc]
    exact read32_at [] _ _
  have hfrom : read32 (r.image ++ bs) 4 = .ok r.fromId := by
    simp only [Response.image, List.append_assoc]
    exact read32_at (le32 r.toId) _ _
  have hframe : read16 (r.image ++ bs) 8 = .ok r.frameId := by
    simp only [Response.image, List.append_assoc]
    exact read16_at (le32 r.toId ++ le32 r.fromId) _ _
  rw [Response.overlay, hto, ok_bind, hfrom, ok_bind, hframe]
  rfl

/-- Every field comes back, from a string that is one byte too long. -/
theorem responseEncode_overlay (r : Response) : ∃ str, responseEncode r = .ok str ∧
    str.length = Response.packedSize + 1 ∧ Response.overlay (str ++ [0#8]) = .ok r := by
  refine ⟨_, responseEncode_eq r, rfl, ?_⟩
  rw [List.append_assoc]
  exact overlay_image r _

/-! ## Message response -/

def MessageResponse.image (r : MessageResponse) : List Byte :=
  le32 (r.toId.setWidth 32) ++ (le32 (r.fromId.setWidth 32) ++ (le16 r.frameId ++
    ([r.type, r.retain] ++ (le32 r.messageReceiptItem.userId ++
      (le16 r.messageReceiptItem.frameId ++
        [r.messageReceiptItem.receiptType, r.messageReceiptItem.receiptIndicate])))))

theorem length_messageResponse_image (r : MessageResponse) : r.image.length = 20 := rfl

theorem messageResponseEncode_eq (r : MessageResponse) :
    messageResponseEncode r = .ok (r.image ++ [0#8]) := by
  have hlt : r.image.length < bufSize := by
    rw [length_messageResponse_image]
    decide
  unfold messageResponseEncode
  simp only [Cursor.put_put]
  exact Cursor.put_take_succ hlt

/-- The last field of the structure lies behind the string. -/
theorem overlay_short {p : Ptr} (h : p.length ≤ 27) : ∀ r, MessageResponse.overlay p ≠ .ok r := by
  intro r hr
  simp only [MessageResponse.overlay, bind_eq_ok] at hr
  obtain ⟨_, -, _, -, _, -, _, -, _, -, _, -, _, -, _, -, _, hlast, -⟩ := hr
  have hin := inBounds_read8.1 (show InBounds (read8 p 27) by rw [hlast]; exact inBounds_ok _)
  omega

/-- The upper halves of the ids are not in the string. -/
theorem messageResponseEncode_truncates (r : MessageResponse) :
    messageResponseEncode r = messageResponseEncode
      { r with
        toId := (r.toId.setWidth 32).setWidth 64
        fromId := (r.fromId.setWidth 32).setWidth 64 } := by
  rw [messageResponseEncode_eq, messageResponseEncode_eq, MessageResponse.image,
    MessageResponse.image]
  simp

/-! ## Neither is the packed image -/

abbrev Response.Packed (r : Response) : Prop :=
  PackedImage Response.packedSize Response.overlay responseEncode r

abbrev MessageResponse.Packed (r : MessageResponse) : Prop :=
  PackedImage MessageResponse.packedSize MessageResponse.overlay messageResponseEncode r

/-- No response and no message response is encoded to its packed image. -/
theorem never_packed (r : Response) (m : MessageResponse) : ¬ r.Packed ∧ ¬ m.Packed := by
  constructor
  · rintro ⟨str, hstr, hlen, -⟩
    obtain ⟨str', hstr', hlen', -⟩ := responseEncode_overlay r
    rw [hstr, Except.ok.injEq] at hstr'
    subst hstr'
    omega
  · rintro ⟨str, hstr, -, hoverlay⟩
    rw [messageResponseEncode_eq, Except.ok.injEq] at hstr
    subst hstr
    refine overlay_short ?_ m hoverlay
    simp [length_messageResponse_image]

/-- The receipt for message 3 of user 2 to user 1. -/
theorem receipt_not_packed :
    ¬ ((∀ r : Response, r.Packed) ∧ ∀ r : MessageResponse, r.Packed) := by
  rintro ⟨hall, -⟩
  obtain ⟨str, hstr, hlen, -⟩ := hall ⟨1, 2, 3, 0x80, 0, 0x50, 0⟩
  rw [responseEncode_eq, Except.ok.injEq] at hstr
  subst hstr
  revert hlen
  decide

end ShortMessage
