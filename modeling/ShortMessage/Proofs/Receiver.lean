import ShortMessage.Proofs.Fifo

/-!
# One call of `Update`

`Update` stores the length where `recv_pos` has left room for it, and only then asks whether the
packet is taken (`update_eq`). It turns to the start of the buffer when a packet of the same length
would not fit behind this one.
-/

namespace ShortMessage

open CMemory Bytes FifoQueue

namespace Receiver

variable {r r' : Receiver} {len : ℕ} {accepted : Bool}

/-- Where the next packet's length is stored. -/
def slot (r : Receiver) : ℕ := r.recvPos - packLenSize

theorem slot_add (r : Receiver) : r.slot + 2 = r.recvPos :=
  Nat.sub_add_cancel r.behind

/-- The length stored. -/
def stored (r : Receiver) (len : ℕ) : Receiver :=
  { r with queue := { r.queue with
    buffer := r.queue.buffer.write r.slot (le16 (.ofNat 16 len)) } }

/-- A packet received at `recv_pos`. -/
def received (r : Receiver) (packet : List Byte) : Receiver :=
  { r with queue := { r.queue with buffer := r.queue.buffer.write r.recvPos packet } }

/-- Where the next packet is received, behind a packet that was taken. -/
def turn (r : Receiver) (len : ℕ) : Receiver :=
  if r.queue.bufSize < r.recvPos + (len + packLenSize) then
    { r with recvPos := packLenSize, behind := le_rfl }
  else if r.queue.bufSize < r.recvPos + (len + packLenSize) + len then
    { queue := { r.queue with
        buffer := r.queue.buffer.write (r.recvPos + (len + packLenSize) - packLenSize)
          (le16 endFlag) }
      recvPos := packLenSize
      behind := le_rfl }
  else
    { r with
      recvPos := r.recvPos + (len + packLenSize)
      behind := Nat.le_add_left_of_le (Nat.le_add_left _ _) }

/-- The queue once a packet was taken. -/
def took (r : Receiver) (len : ℕ) : Receiver :=
  { r with queue := { r.queue with writeBytes := r.queue.writeBytes + (len + packLenSize) } }

@[simp] theorem turn_bufSize (r : Receiver) (len : ℕ) :
    (r.turn len).queue.bufSize = r.queue.bufSize := by
  unfold turn
  split_ifs <;> rfl

@[simp] theorem turn_readPos (r : Receiver) (len : ℕ) :
    (r.turn len).queue.readPos = r.queue.readPos := by
  unfold turn
  split_ifs <;> rfl

@[simp] theorem turn_readBytes (r : Receiver) (len : ℕ) :
    (r.turn len).queue.readBytes = r.queue.readBytes := by
  unfold turn
  split_ifs <;> rfl

@[simp] theorem turn_writeBytes (r : Receiver) (len : ℕ) :
    (r.turn len).queue.writeBytes = r.queue.writeBytes := by
  unfold turn
  split_ifs <;> rfl

theorem put_ok {pos : ℕ} {bs : List Byte} (h : pos + bs.length ≤ r.queue.bufSize) :
    r.put pos bs = .ok { r with queue := { r.queue with
      buffer := r.queue.buffer.write pos bs } } := by
  rw [put, store_ok _ h]
  rfl

theorem put_received {packet : List Byte} :
    r.put r.recvPos packet = .ok r' ↔
      r.recvPos + packet.length ≤ r.queue.bufSize ∧ r' = r.received packet := by
  rw [put, store]
  split_ifs with h
  · refine ⟨fun hr => ⟨h, ?_⟩, fun hr => by rw [hr.2]; rfl⟩
    cases hr
    rfl
  · refine iff_of_false (fun hr => ?_) fun hr => h hr.1
    cases hr

theorem update_eq (hlen : len < maxPackSize) (hin : r.recvPos ≤ r.queue.bufSize) :
    r.update len = .ok (if r.queue.Overflows len then (r.stored len, false)
      else (((r.stored len).turn len).took len, true)) := by
  have hslot := r.slot_add
  have hput : r.put (r.recvPos - packLenSize) (le16 (.ofNat 16 len)) = .ok (r.stored len) :=
    put_ok (by rw [length_le16]; change r.slot + 2 ≤ _; omega)
  unfold update
  rw [if_neg (not_not.2 hlen), hput]
  by_cases hov : r.queue.Overflows len
  · have hov' : (r.stored len).queue.Overflows len := hov
    rw [if_pos hov]
    simp only [ok_bind, if_pos hov']
    rfl
  · have hov' : ¬ (r.stored len).queue.Overflows len := hov
    rw [if_neg hov]
    simp only [ok_bind, if_neg hov']
    unfold turn
    split_ifs with h1 h2
    · rfl
    · rw [put_ok (by rw [length_le16]; unfold packLenSize at h1 ⊢; omega)]
      rfl
    · rfl

/-- A packet that will be taken is received first. -/
theorem produce_eq {packet : List Byte} (hlen : packet.length < maxPackSize)
    (hov : ¬ r.queue.Overflows packet.length)
    (hfit : r.recvPos + packet.length ≤ r.queue.bufSize) :
    r.produce packet = .ok
      ((((r.received packet).stored packet.length).turn packet.length).took packet.length,
        true) := by
  have hput : r.put r.recvPos packet = .ok (r.received packet) := put_received.2 ⟨hfit, rfl⟩
  have hin : (r.received packet).recvPos ≤ (r.received packet).queue.bufSize :=
    Nat.le_of_add_right_le hfit
  have hupdate := update_eq hlen hin
  rw [if_neg (show ¬ (r.received packet).queue.Overflows packet.length from hov)] at hupdate
  rw [produce, if_neg hov, hput]
  exact hupdate

theorem produce_of_overflows {packet : List Byte} (hov : r.queue.Overflows packet.length) :
    r.produce packet = r.update packet.length := by
  rw [produce, if_pos hov, pure_bind]

/-- What a call that returned has done. -/
theorem update_returns (h : r.update len = .ok (r', accepted)) :
    len < maxPackSize ∧ r.recvPos ≤ r.queue.bufSize ∧
      (r.queue.Overflows len ∧ accepted = false ∧ r' = r.stored len ∨
        ¬ r.queue.Overflows len ∧ accepted = true ∧
          r' = ((r.stored len).turn len).took len) := by
  have hlen : len < maxPackSize := by
    by_contra hlen
    rw [update, if_pos hlen] at h
    cases h
  have hin : r.recvPos ≤ r.queue.bufSize := by
    by_contra hin
    have hslot := r.slot_add
    have hput : r.put (r.recvPos - packLenSize) (le16 (.ofNat 16 len)) = .error .writePast := by
      rw [put, store, if_neg (by rw [length_le16]; change ¬ r.slot + 2 ≤ _; omega)]
      rfl
    rw [update, if_neg (not_not.2 hlen), hput] at h
    cases h
  rw [update_eq hlen hin, Except.ok.injEq] at h
  refine ⟨hlen, hin, ?_⟩
  split_ifs at h with hov
  · cases h
    exact .inl ⟨hov, rfl, rfl⟩
  · cases h
    exact .inr ⟨hov, rfl, rfl⟩

end Receiver

end ShortMessage
