import ShortMessage.Client

/-!
# The wire format

The client and both encoders lay a message out the same way (`image`): the addressee's id comes
first. `ControlHead` declares the sender's id first, so its overlay reads the two ids exchanged
(`overlays_image`), and the format is one only for messages to oneself.
-/

namespace ShortMessage

open CMemory

/-- A field as the handlers read it, and as it lies in memory. -/
theorem map_eq_ok {α : Type} {f : α → α} (hf : ∀ x, f (f x) = x) {x : Except Fault α} {a : α} :
    x.map f = .ok a ↔ x = .ok (f a) := by
  rcases x with e | b
  · simp [Except.map]
  · simp only [Except.map, Except.ok.injEq]
    exact ⟨fun h => h ▸ (hf b).symm, fun h => h ▸ hf a⟩

section Encode

variable (a b : BitVec 32) (c : BitVec 16) (t r : Byte)

/-- The twelve bytes in front of a text. -/
def header : List Byte := le32 a ++ (le32 b ++ (le16 c ++ [t, r]))

theorem length_header : (header a b c t r).length = 12 := rfl

theorem length_header_le : (header a b c t r).length ≤ bufSize := by
  rw [length_header, bufSize]
  decide

/-- The five writes before the text always fit. -/
theorem put_header {β : Type} (f : Cursor bufSize → Except Fault β) :
    (do
      let pos : Cursor bufSize := .start
      let pos ← pos.put (le32 a)
      let pos ← pos.put (le32 b)
      let pos ← pos.put (le16 c)
      let pos ← pos.put [t]
      let pos ← pos.put [r]
      f pos) = f ⟨header a b c t r, length_header_le a b c t r⟩ := rfl

/-- The text is written whole, with its NUL, when it fits. -/
theorem put_text {s : List Byte} (hs : s.length ≤ 1011) {pos : Cursor bufSize}
    (hpos : pos.out = header a b c t r) {k : Cursor bufSize → ℕ}
    (hk : ∀ pos' : Cursor bufSize, pos'.out.length = 13 + s.length → k pos' = 13 + s.length) :
    (pos.put (s ++ [0#8]) >>= fun pos => pos.take (k pos))
      = .ok (header a b c t r ++ (s ++ [0#8])) := by
  have hlen : (header a b c t r ++ (s ++ [0#8])).length = 13 + s.length := by
    simp only [List.length_append, length_header, List.length_singleton]
    omega
  have hfit : (pos.out ++ (s ++ [0#8])).length ≤ bufSize := by
    rw [hpos, hlen, bufSize]
    omega
  have hout : (⟨_, hfit⟩ : Cursor bufSize).out.length = 13 + s.length := by
    rw [← hlen, ← hpos]
  rw [Cursor.put_ok pos hfit, ok_bind, hk _ hout, Cursor.take_ok _ hout.ge,
    List.take_of_length_le hout.le]
  simp only [hpos]

end Encode

namespace Message

variable (m : Message)

def image : List Byte :=
  header (htonl m.toId) (htonl m.fromId) (htons m.frameId) m.type m.retain ++ (m.content ++ [0#8])

theorem request_eq : m.request = .ok m.image := by
  unfold request
  rw [put_header]
  exact put_text _ _ _ _ _ m.short rfl fun _ h => h

theorem takeWhile_content : m.content.takeWhile (· ≠ 0#8) = m.content := by
  rw [List.takeWhile_eq_self_iff]
  intro b hb
  exact decide_eq_true fun h => m.noNul (h ▸ hb)

theorem messageEncodeItem_eq : messageEncodeItem m.item = .ok m.image := by
  unfold messageEncodeItem
  simp only [item, takeWhile_content]
  rw [put_header]
  exact put_text _ _ _ _ _ m.short rfl fun _ _ => by simp only [length_header]; omega

theorem messageEncode_eq {head : Ptr} (h : Overlays head m) :
    messageEncode head = .ok m.image := by
  unfold messageEncode
  simp only [(map_eq_ok ntohl_htonl).1 h.toId, (map_eq_ok ntohl_htonl).1 h.fromId,
    (map_eq_ok ntohs_htons).1 h.frameId, h.type, h.retain, h.content, ok_bind]
  rw [put_header]
  exact put_text _ _ _ _ _ m.short rfl fun _ h => h

/-- The overlay of a message's bytes reads its addressee as the sender, its sender as the
addressee, and the other fields as they are. -/
theorem overlays_image {m' : Message} (r : List Byte) :
    Overlays (m.image ++ r) m' ↔ m'.fromId = m.toId ∧ m'.toId = m.fromId ∧
      m'.frameId = m.frameId ∧ m'.type = m.type ∧ m'.retain = m.retain ∧
      m'.content = m.content := by
  have hfrom : ControlHead.fromId (m.image ++ r) = .ok (htonl m.toId) := by
    simp only [image, header, List.append_assoc]
    exact read32_at [] _ _
  have hto : ControlHead.toId (m.image ++ r) = .ok (htonl m.fromId) := by
    simp only [image, header, List.append_assoc]
    exact read32_at (le32 (htonl m.toId)) _ _
  have hframe : ControlHead.frameId (m.image ++ r) = .ok (htons m.frameId) := by
    simp only [image, header, List.append_assoc]
    exact read16_at (le32 (htonl m.toId) ++ le32 (htonl m.fromId)) _ _
  have htype : ControlHead.type (m.image ++ r) = .ok m.type := rfl
  have hretain : ControlHead.retain (m.image ++ r) = .ok m.retain := rfl
  have hcontent : cstr (ControlHead.content (m.image ++ r)) = .ok m.content := by
    rw [ControlHead.content, image, List.append_assoc, List.drop_left' (length_header ..),
      List.append_assoc]
    exact cstr_of_noNul m.noNul r
  constructor
  · rintro ⟨h1, h2, h3, h4, h5, h6⟩
    rw [hto] at h1
    rw [hfrom] at h2
    rw [hframe] at h3
    rw [htype] at h4
    rw [hretain] at h5
    rw [hcontent] at h6
    simp only [Except.map, ntohl_htonl, ntohs_htons, Except.ok.injEq] at h1 h2 h3 h4 h5 h6
    exact ⟨h2.symm, h1.symm, h3.symm, h4.symm, h5.symm, h6.symm⟩
  · rintro ⟨h1, h2, h3, h4, h5, h6⟩
    refine ⟨?_, ?_, ?_, ?_, ?_, ?_⟩
    · rw [hto, h2, Except.map, ntohl_htonl]
    · rw [hfrom, h1, Except.map, ntohl_htonl]
    · rw [hframe, h3, Except.map, ntohs_htons]
    · rw [htype, h4]
    · rw [hretain, h5]
    · rw [hcontent, h6]

theorem roundTrips_image : m.RoundTrips (.ok m.image) ↔ m.toId = m.fromId := by
  constructor
  · rintro ⟨buf, hbuf, h⟩
    cases hbuf
    exact ((m.overlays_image _).1 h).2.1
  · intro h
    exact ⟨_, rfl, (m.overlays_image _).2 ⟨h.symm, h, rfl, rfl, rfl, rfl⟩⟩

/-- Requests, encoders and the overlay share one format exactly for a message to oneself. -/
theorem oneWireFormat_iff : m.OneWireFormat ↔ m.toId = m.fromId := by
  constructor
  · intro h
    have := h.request
    rwa [request_eq, roundTrips_image] at this
  · intro h
    refine ⟨?_, fun head hh => ?_, ?_⟩
    · rwa [request_eq, roundTrips_image]
    · rwa [messageEncode_eq m hh, roundTrips_image]
    · rwa [messageEncodeItem_eq, roundTrips_image]

end Message

/-- The message of the client's `main`: user 1 writes to user 2. -/
def clientMessage : Message where
  toId := 2
  fromId := 1
  frameId := 3
  type := 0x60
  retain := 0x00
  content := [0x62#8, 0x62#8, 0x62#8, 0x62#8, 0x62#8, 0x62#8]
  noNul := by decide
  short := by decide

/-- The server takes the client's own request for a message from user 2 to user 1. -/
theorem clientMessage_exchanged : ¬ clientMessage.OneWireFormat := by
  intro h
  obtain ⟨buf, hbuf, ho⟩ := h.request
  have hreq : clientMessage.request = .ok clientMessage.image := by rfl
  rw [hreq, Except.ok.injEq] at hbuf
  subst hbuf
  have hto := ho.toId
  revert hto
  decide

end ShortMessage
