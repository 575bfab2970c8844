import ShortMessage.Lib.SlotRing
import ShortMessage.Proofs.Receiver

/-!
# Packets of one length, received in place and copied

With packets of one length the buffer is a ring of slots, as many as fit before its end. Both
writers fill it in the same order, though one turns to the start as it leaves the last slot and the
other as it needs the next one; the capacity test leaves a slot free for every packet it lets pass.
So either queue answers as a queue of packets does (`Queue.step`).
-/

namespace ShortMessage

open CMemory Bytes SlotRing FifoQueue

variable {N L first : ℕ} {q : FifoQueue} {r : Receiver} {p : List Byte} {ps : List (List Byte)}

/-! ## What either queue is -/

namespace Queue

/-- A queue of packets of length `L` that takes one as long as the capacity of `N` bytes allows. -/
def step (N L : ℕ) (ps : List (List Byte)) : Call → List (List Byte) × Reply
  | .push packet =>
    if N < ps.length * (L + packLenSize) + 2 * L + 2 * (packLenSize - 1) then (ps, .pushed false)
    else (ps ++ [packet], .pushed true)
  | .pop => (ps.tail, .popped (ps.headD []))
  | .peek => (ps, .peeked (ps.headD []).length)

/-- Packets of the length are pushed, and a packet is popped when there is one. -/
def Admits (L : ℕ) (ps : List (List Byte)) : Call → Prop
  | .push packet => packet.length = L
  | .pop => ps ≠ []
  | .peek => True

/-- What was there and what is taken is what is returned and what is left. -/
theorem step_accounts {c : Call} (hc : Admits L ps c) :
    ps ++ acceptedBy (c, (step N L ps c).2) =
      returnedBy (c, (step N L ps c).2) ++ (step N L ps c).1 := by
  cases c with
  | push packet =>
    unfold step
    split_ifs
    · exact List.append_nil ps
    · rfl
  | pop =>
    rcases ps with _ | ⟨p, ps⟩
    · exact absurd rfl hc
    · exact List.append_nil _
  | peek => exact List.append_nil ps

end Queue

/-! ## Slots -/

def slotSize (L : ℕ) : ℕ := L + packLenSize

def slots (N L : ℕ) : ℕ := N / slotSize L

/-- Where the slots end. -/
def slotsEnd (N L : ℕ) : ℕ := slots N L * slotSize L

theorem slotSize_eq (L : ℕ) : slotSize L = L + 2 := rfl

theorem slotsEnd_le (N L : ℕ) : slotsEnd N L ≤ N := Nat.div_mul_le_self _ _

theorem slot_lt_iff (N L x : ℕ) : x < slots N L ↔ x * slotSize L + slotSize L ≤ N := by
  rw [← Nat.succ_mul, ← Nat.le_div_iff_mul_le (by rw [slotSize_eq]; omega)]
  rfl

/-- A slot is before the end of the slots, a free one is there as soon as the capacity allows. -/
theorem slot_le_slotsEnd {x : ℕ} (h : x < slots N L) :
    x * slotSize L + slotSize L ≤ slotsEnd N L := slot_le h _

theorem lt_slotsEnd_add (N L : ℕ) : N < slotsEnd N L + slotSize L := by
  by_contra hle
  exact Nat.lt_irrefl _ ((slot_lt_iff N L (slots N L)).2 (not_lt.1 hle))

/-- What waits to be read lies in the slots, from the one where the reader is on. Where it goes on
in the first slot, the reader can tell that it has to turn. -/
structure Ring (N L first : ℕ) (q : FifoQueue) (ps : List (List Byte)) : Prop where
  size : q.bufSize = N
  first_le : first ≤ slots N L
  readPos : q.readPos = first * slotSize L
  few : ps.length ≤ slots N L
  laid : Laid q.buffer (slotSize L) (slots N L) first (ps.map frame)
  bytes : q.writeBytes = q.readBytes + ps.length * slotSize L
  mark : slots N L < first + ps.length → GivenUp N q.buffer (slotsEnd N L)

theorem Ring.nonempty_iff (h : Ring N L first q ps) : q.readBytes < q.writeBytes ↔ ps ≠ [] := by
  rw [h.bytes]
  rcases ps with _ | ⟨p, ps⟩
  · simp
  · have := slotSize_eq L
    simp only [List.length_cons, Nat.succ_mul, ne_eq, reduceCtorEq, not_false_eq_true, iff_true]
    omega

/-- A packet that passes the capacity test finds a slot free. -/
theorem Ring.room (h : Ring N L first q ps) (hov : ¬ q.Overflows L) : ps.length < slots N L := by
  rw [slot_lt_iff, slotSize_eq]
  have hb := h.bytes
  have hN := h.size
  rw [Overflows, packLenSize, hb, slotSize_eq] at hov
  omega

theorem Ring.next_lt (h : Ring N L first q ps) (hroom : ps.length < slots N L) :
    wrap (slots N L) (first + ps.length) < slots N L := by
  have := h.first_le
  exact wrap_lt (by omega) (by omega)

theorem Ring.overflows_iff (h : Ring N L first q ps) :
    q.Overflows L ↔ N < ps.length * (L + packLenSize) + 2 * L + 2 * (packLenSize - 1) := by
  rw [Overflows, h.bytes, h.size, slotSize]
  omega

theorem Ring.step_full (h : Ring N L first q ps) (hov : q.Overflows L) :
    Queue.step N L ps (.push p) = (ps, .pushed false) :=
  if_pos (h.overflows_iff.1 hov)

theorem Ring.step_room (h : Ring N L first q ps) (hov : ¬ q.Overflows L) :
    Queue.step N L ps (.push p) = (ps ++ [p], .pushed true) :=
  if_neg (h.overflows_iff.not.1 hov)

/-! ## The reader -/

theorem Ring.head (h : Ring N L first q (p :: ps)) :
    p.length = L ∧ q.buffer.At (wrap (slots N L) first * slotSize L) (frame p) := by
  obtain ⟨hlen, hat⟩ := h.laid.head
  rw [length_frame, slotSize_eq, Nat.add_right_cancel_iff] at hlen
  exact ⟨hlen, hat⟩

/-- The reader's slot once it was moved to the packet. -/
def turned (N L first : ℕ) : ℕ := if first < slots N L then first else 0

/-- A reader at the end of the slots may as well be at their start. -/
theorem Ring.atStart (h : Ring N L (slots N L) q ps) : Ring N L 0 { q with readPos := 0 } ps where
  size := h.size
  first_le := Nat.zero_le _
  readPos := (Nat.zero_mul _).symm
  few := h.few
  laid := h.laid.turn (by simpa using h.few)
  bytes := h.bytes
  mark := fun hlt => absurd h.few (by omega)

/-- The reader is moved to the packet it finds next, from the end of the slots to their start. -/
theorem Ring.seek (h : Ring N L first q (p :: ps)) (hp : Sized p) :
    ∃ q', q.seek = .ok (q', p.length) ∧ q'.buffer = q.buffer ∧ q'.writePos = q.writePos ∧
      turned N L first < slots N L ∧ Ring N L (turned N L first) q' (p :: ps) := by
  obtain ⟨hlen, hat⟩ := h.head
  have hsize := h.size
  have hsz := slotSize_eq L
  have hfew : ps.length + 1 ≤ slots N L := h.few
  have hend := slotsEnd_le N L
  have hword (x : ℕ) (hx : x < slots N L) (hatx : q.buffer.At (x * slotSize L) (frame p)) :
      load16 q.bufSize q.buffer (x * slotSize L) = .ok (.ofNat 16 p.length) := by
    have := slot_le_slotsEnd hx
    exact load16_ok (at_append.1 hatx).1 (by omega)
  by_cases hfirst : first < slots N L
  · rw [wrap_of_lt hfirst] at hat
    rw [turned, if_pos hfirst]
    have hle := slot_le_slotsEnd hfirst
    have hpos := h.readPos
    refine ⟨q, ?_, rfl, rfl, hfirst, h⟩
    unfold FifoQueue.seek
    simp only []
    rw [if_neg (by simp only [packLenSize]; omega), hpos, hword first hfirst hat, ok_bind,
      if_neg hp.ne_endFlag, hp.toNat_length]
    rfl
  · obtain rfl : first = slots N L := by
      have := h.first_le
      omega
    rw [turned, if_neg hfirst]
    rw [wrap_self] at hat
    have hpos : q.readPos = slotsEnd N L := h.readPos
    have hfirstSlot := hword 0 (by omega) hat
    rw [Nat.zero_mul] at hfirstSlot
    refine ⟨{ q with readPos := 0 }, ?_, rfl, rfl, by omega, h.atStart⟩
    obtain ⟨-, hmark⟩ := h.mark (by simp)
    unfold FifoQueue.seek
    simp only []
    split_ifs with hshort
    · simp only [hfirstSlot, ok_bind, if_neg hp.ne_endFlag, hp.toNat_length]
      rfl
    · simp only [packLenSize] at hshort
      rw [hpos, load16_ok (hmark.resolve_left (by omega)) (by omega), ok_bind, if_pos rfl,
        hfirstSlot, ok_bind, hp.toNat_length]
      rfl

theorem Ring.popPacket (h : Ring N L first q (p :: ps)) (hp : Sized p) :
    ∃ q', q.popPacket = .ok (q', p) ∧ q'.buffer = q.buffer ∧ q'.writePos = q.writePos ∧
      turned N L first < slots N L ∧ Ring N L (turned N L first + 1) q' ps := by
  obtain ⟨q₁, hseek, hbuffer, hwrite, hlt, h₁⟩ := h.seek hp
  obtain ⟨hlen, hat⟩ := h₁.head
  have hsz := slotSize_eq L
  have hpos := h₁.readPos
  have hN := h₁.size
  have hle := slot_le_slotsEnd hlt
  have hend := slotsEnd_le N L
  have hbytes := h₁.bytes
  have hfew := h₁.few
  rw [wrap_of_lt hlt] at hat
  rw [List.length_cons, Nat.succ_mul] at hbytes
  rw [List.length_cons] at hfew
  have hload : load q₁.bufSize q₁.buffer (q₁.readPos + packLenSize) p.length = .ok p := by
    rw [hpos]
    exact load_ok (at_append.1 hat).2 (by simp only [packLenSize]; omega)
  refine ⟨q₁.pass p, ?_, hbuffer, hwrite, hlt, ?_⟩
  · have hne := h.nonempty_iff.2 (by simp)
    unfold FifoQueue.popPacket
    rw [if_neg (by omega), hseek, ok_bind]
    simp only [hload, ok_bind]
    rfl
  · refine ⟨hN, hlt, ?_, by omega, h₁.laid.tail, ?_, fun hm => h₁.mark ?_⟩
    · rw [Nat.succ_mul]
      simp only [FifoQueue.pass, packLenSize]
      omega
    · simp only [FifoQueue.pass, packLenSize]
      omega
    · rw [List.length_cons]
      omega

theorem Ring.peekNextPackLen_nil (h : Ring N L first q []) : q.peekNextPackLen = .ok (q, 0) := by
  have hempty : q.writeBytes ≤ q.readBytes := by
    have := h.nonempty_iff.not
    simpa using this
  exact if_pos hempty

theorem Ring.peekNextPackLen (h : Ring N L first q (p :: ps)) (hp : Sized p) :
    ∃ q', q.peekNextPackLen = .ok (q', p.length) ∧ q'.buffer = q.buffer ∧
      q'.writePos = q.writePos ∧ turned N L first < slots N L ∧
        Ring N L (turned N L first) q' (p :: ps) := by
  obtain ⟨q', hseek, h'⟩ := h.seek hp
  have hne := h.nonempty_iff.2 (by simp)
  refine ⟨q', ?_, h'⟩
  rw [FifoQueue.peekNextPackLen, if_neg (by omega), hseek]

section Fixed

variable (hL : 1 ≤ L) (hL' : L < maxPackSize)

include hL hL'

theorem Ring.sized (h : Ring N L first q ps) (hp : p ∈ ps) : Sized p := by
  obtain ⟨t, ht⟩ := List.getElem?_of_mem hp
  have hframe : (ps.map frame)[t]? = some (frame p) := by rw [List.getElem?_map, ht]; rfl
  have hlen := (h.laid t _ hframe).1
  rw [length_frame, slotSize_eq] at hlen
  exact ⟨by omega, by omega⟩

theorem Ring.drains : ∀ {ps : List (List Byte)} {first : ℕ} {q : FifoQueue},
    Ring N L first q ps → q.Drains ps
  | [], _, _, h => by
    have := h.bytes
    simp only [List.length_nil, Nat.zero_mul] at this
    exact this.symm
  | p :: ps, _, _, h => by
    have hp := h.sized hL hL' List.mem_cons_self
    obtain ⟨_, hpeek, -⟩ := h.peekNextPackLen hp
    obtain ⟨_, hpop, -, -, -, hrest⟩ := h.popPacket hp
    exact ⟨⟨_, hpeek⟩, _, hpop, hrest.drains⟩

end Fixed

/-! ## The copying writer -/

/-- A writer that turns when it needs the next slot. -/
structure Pushes (N L first : ℕ) (q : FifoQueue) (ps : List (List Byte)) : Prop
    extends Ring N L first q ps where
  writePos : q.writePos = (if first + ps.length ≤ slots N L then first + ps.length
    else first + ps.length - slots N L) * slotSize L

/-- Before a packet is laid the writer is at the next slot, and what is behind the last slot is
given up when it has turned. -/
theorem Pushes.turn (h : Pushes N L first q ps) (hroom : ps.length < slots N L) :
    (q.turn L).writePos = wrap (slots N L) (first + ps.length) * slotSize L ∧
      (∀ j < slotsEnd N L, (q.turn L).buffer j = q.buffer j) ∧
      (slots N L ≤ first + ps.length → GivenUp N (q.turn L).buffer (slotsEnd N L)) := by
  have hN := h.size
  have hfirst := h.first_le
  have hwrite := h.writePos
  have hsz := slotSize_eq L
  have hend := slotsEnd_le N L
  have hshort := lt_slotsEnd_add N L
  have hfits (x : ℕ) (hx : x < slots N L) (hpos : q.writePos = x * slotSize L) :
      q.turn L = q := by
    have := slot_le_slotsEnd hx
    exact turn_of_fits (by omega)
  rcases Nat.lt_trichotomy (first + ps.length) (slots N L) with hlt | heq | hgt
  · rw [if_pos hlt.le] at hwrite
    rw [hfits _ hlt hwrite, wrap_of_lt hlt]
    exact ⟨hwrite, fun _ _ => rfl, fun hge => absurd hge (by omega)⟩
  · rw [if_pos heq.le, heq] at hwrite
    have hpos : q.writePos = slotsEnd N L := hwrite
    have hzero : wrap (slots N L) (first + ps.length) = 0 := by
      unfold wrap
      split_ifs <;> omega
    rw [hzero, Nat.zero_mul]
    unfold FifoQueue.turn
    split_ifs with h1 h2
    · exact ⟨rfl, fun _ _ => rfl, fun _ => ⟨hend, .inl (hpos ▸ hN ▸ h1)⟩⟩
    · refine ⟨rfl, fun j hj => write_of_outside _ (.inl (by omega)), fun _ => ⟨hend, .inr ?_⟩⟩
      simp only [hpos]
      exact at_write _ _ _
    · omega
  · rw [if_neg (by omega)] at hwrite
    have hlt : first + ps.length - slots N L < slots N L := by omega
    rw [hfits _ hlt hwrite, wrap_of_ge hgt.le (by omega)]
    exact ⟨hwrite, fun _ _ => rfl, fun _ => h.mark hgt⟩

/-- What is behind the slots is given up as long as only slots are written. -/
theorem FifoQueue.GivenUp.congr {buffer buffer' : Bytes} {e : ℕ} (h : GivenUp N buffer e)
    (heq : ∀ j, e ≤ j → buffer' j = buffer j) : GivenUp N buffer' e :=
  ⟨h.1, h.2.imp_right fun hat => hat.congr fun j hj _ => heq j hj⟩

theorem lay_of_outside {j : ℕ} (h : j < q.writePos ∨ q.writePos + (p.length + 2) ≤ j) :
    (q.lay p).buffer j = q.buffer j := by
  simp only [lay]
  rw [write_of_outside _ (by simp only [packLenSize]; omega),
    write_of_outside _ (by rw [length_le16]; omega)]

/-- The ring with a packet laid into the next slot, and what is behind the slots as the writer left
it. -/
theorem Ring.concat {q' : FifoQueue} (h : Ring N L first q ps) (hroom : ps.length < slots N L)
    (hp : p.length = L) (hsize : q'.bufSize = N) (hpos : q'.readPos = q.readPos)
    (hread : q'.readBytes = q.readBytes) (hwrite : q'.writeBytes = q.writeBytes + slotSize L)
    (hat : q'.buffer.At (wrap (slots N L) (first + ps.length) * slotSize L) (frame p))
    (hout : ∀ j < slotsEnd N L, j < wrap (slots N L) (first + ps.length) * slotSize L ∨
      wrap (slots N L) (first + ps.length) * slotSize L + slotSize L ≤ j →
        q'.buffer j = q.buffer j)
    (hmark : slots N L ≤ first + ps.length → GivenUp N q'.buffer (slotsEnd N L)) :
    Ring N L first q' (ps ++ [p]) := by
  have hframe : (frame p).length = slotSize L := by rw [length_frame, hp, slotSize_eq]
  refine ⟨hsize, h.first_le, hpos.trans h.readPos, ?_, ?_, ?_, fun hm => ?_⟩
  · rwa [List.length_append]
  · rw [List.map_append]
    exact h.laid.concat h.first_le (by rwa [List.length_map]) hframe
      (by rwa [List.length_map]) (by rw [List.length_map]; exact hout)
  · rw [hwrite, hread, h.bytes, List.length_append, List.length_singleton, Nat.succ_mul,
      Nat.add_assoc]
  · rw [List.length_append, List.length_singleton] at hm
    exact hmark (by omega)

theorem Pushes.pushPacket (h : Pushes N L first q ps) (hp : Sized p) (hlen : p.length = L)
    (hov : ¬ q.Overflows L) :
    ∃ q', q.pushPacket p = .ok (q', true) ∧ Pushes N L first q' (ps ++ [p]) := by
  subst hlen
  have hroom := h.toRing.room hov
  obtain ⟨hpos, hsame, hmark⟩ := h.turn hroom
  have hfirst := h.first_le
  have hsz := slotSize_eq p.length
  have hend := slotsEnd_le N p.length
  have hle := slot_le_slotsEnd (h.toRing.next_lt hroom)
  have hN := h.size
  refine ⟨_, pushPacket_eq hp hov (by omega), h.toRing.concat hroom rfl ?_ ?_ ?_ ?_ ?_ ?_ ?_, ?_⟩
  · exact (turn_bufSize _ _).trans hN
  · exact turn_readPos _ _
  · exact turn_readBytes _ _
  · simp only [lay, turn_writeBytes, slotSize]
  · rw [← hpos]
    exact at_lay _ _
  · intro j hj hout
    rw [lay_of_outside (by omega), hsame j hj]
  · intro hm
    exact (hmark hm).congr fun j hj => lay_of_outside (by omega)
  · simp only [lay, packLenSize, hpos, List.length_append, List.length_singleton]
    have hnext : (if first + (ps.length + 1) ≤ slots N p.length then first + (ps.length + 1)
        else first + (ps.length + 1) - slots N p.length) =
          wrap (slots N p.length) (first + ps.length) + 1 := by
      unfold wrap
      split_ifs <;> omega
    rw [hnext, Nat.succ_mul]
    omega

/-- The reader does not change which slot comes next. -/
theorem Pushes.turned {q' : FifoQueue} {ps' : List (List Byte)} {first' : ℕ}
    (h : Pushes N L first q ps) (h' : Ring N L first' q' ps') (hwrite : q'.writePos = q.writePos)
    (hne : ps ≠ [])
    (hfirst : first' + ps'.length = turned N L first + ps.length) :
    Pushes N L first' q' ps' := by
  refine ⟨h', ?_⟩
  have hle := h.first_le
  have hfew := h.few
  have hpos : 0 < ps.length := List.length_pos_of_ne_nil hne
  rw [hwrite, h.writePos, hfirst]
  congr 1
  unfold ShortMessage.turned
  split_ifs <;> omega

/-- The copying queue answers as a queue of packets. -/
theorem Pushes.step (hL : 1 ≤ L) (hL' : L < maxPackSize) (h : Pushes N L first q ps) {c : Call}
    (hc : Queue.Admits L ps c) : ∃ first' q',
      q.step c = .ok (q', (Queue.step N L ps c).2) ∧
        Pushes N L first' q' (Queue.step N L ps c).1 := by
  cases c with
  | push packet =>
    obtain rfl : packet.length = L := hc
    have hp : Sized packet := ⟨hL, hL'⟩
    by_cases hov : q.Overflows packet.length
    · rw [h.toRing.step_full hov]
      refine ⟨first, q, ?_, h⟩
      rw [FifoQueue.step, pushPacket_overflows hL' hov]
      rfl
    · rw [h.toRing.step_room hov]
      obtain ⟨q', hpush, h'⟩ := h.pushPacket hp rfl hov
      refine ⟨first, q', ?_, h'⟩
      rw [FifoQueue.step, hpush]
      rfl
  | pop =>
    rcases ps with _ | ⟨p, ps⟩
    · exact absurd rfl hc
    · obtain ⟨q', hpop, -, hwrite, -, h'⟩ :=
        h.toRing.popPacket (h.toRing.sized hL hL' List.mem_cons_self)
      refine ⟨_, q', ?_, h.turned h' hwrite (by simp) (by
        simp only [Queue.step, List.tail_cons, List.length_cons]
        omega)⟩
      rw [FifoQueue.step, hpop]
      rfl
  | peek =>
    rcases ps with _ | ⟨p, ps⟩
    · refine ⟨first, q, ?_, h⟩
      rw [FifoQueue.step, h.toRing.peekNextPackLen_nil]
      rfl
    · obtain ⟨q', hpeek, -, hwrite, -, h'⟩ :=
        h.toRing.peekNextPackLen (h.toRing.sized hL hL' List.mem_cons_self)
      refine ⟨_, q', ?_, h.turned h' hwrite (by simp) rfl⟩
      rw [FifoQueue.step, hpeek]
      rfl

/-! ## The in-place writer -/

/-- A writer that turns as it leaves the last slot. -/
structure Receives (N L first : ℕ) (r : Receiver) (ps : List (List Byte)) : Prop
    extends Ring N L first r.queue ps where
  recvPos : r.recvPos = wrap (slots N L) (first + ps.length) * slotSize L + packLenSize
  inside : r.recvPos ≤ N
  turnedMark : 0 < slots N L → slots N L ≤ first + ps.length →
    GivenUp N r.queue.buffer (slotsEnd N L)

theorem Receives.slot (h : Receives N L first r ps) :
    r.slot = wrap (slots N L) (first + ps.length) * slotSize L := by
  rw [Receiver.slot, h.recvPos, Nat.add_sub_cancel]

/-- What a rejected `Update` writes over the length of a packet is that length already. -/
theorem Receives.stored_full (h : Receives N L first r ps) (hfull : ps.length = slots N L)
    (hne : ps ≠ []) : r.stored L = r := by
  rcases ps with _ | ⟨p, ps⟩
  · exact absurd rfl hne
  · obtain ⟨hlen, hat⟩ := h.toRing.head
    have hfirst := h.first_le
    have hslot : r.slot = wrap (slots N L) first * slotSize L := by
      rw [h.slot, hfull]
      congr 1
      unfold wrap
      rw [List.length_cons] at hfull
      split_ifs <;> omega
    rw [frame, at_append, hlen] at hat
    rw [Receiver.stored, hslot, hat.1.write_self]

/-- A rejected `Update` leaves the ring: the length goes into a free slot, or over the same. -/
theorem Receives.stored (h : Receives N L first r ps) : Receives N L first (r.stored L) ps := by
  by_cases hfree : ps.length < slots N L
  · have hsz := slotSize_eq L
    have hfirst := h.first_le
    have hle := slot_le_slotsEnd (h.toRing.next_lt hfree)
    have hslot := h.slot
    have hkeep (j : ℕ) (hj : j < r.slot ∨ r.slot + slotSize L ≤ j) :
        (r.stored L).queue.buffer j = r.queue.buffer j :=
      write_of_outside _ (by rw [length_le16]; omega)
    refine ⟨⟨h.size, hfirst, h.readPos, h.few, ?_, h.bytes, fun hm => ?_⟩, h.recvPos, h.inside,
      fun h0 hm => ?_⟩
    · refine h.laid.free hfirst (by rwa [List.length_map]) fun j _ hj => hkeep j ?_
      rwa [List.length_map, ← hslot] at hj
    · exact (h.mark hm).congr fun j hj => hkeep j (by omega)
    · exact (h.turnedMark h0 hm).congr fun j hj => hkeep j (by omega)
  · by_cases hne : ps = []
    · subst hne
      have hfirst := h.first_le
      rw [List.length_nil] at hfree
      exact ⟨⟨h.size, hfirst, h.readPos, h.few, laid_nil _ _ _ _, h.bytes, fun hm => by
        rw [List.length_nil] at hm
        omega⟩, h.recvPos, h.inside, fun h0 => absurd h0 hfree⟩
    · rw [h.stored_full (le_antisymm h.few (not_lt.1 hfree)) hne]
      exact h

/-- From slot `x` the writer turns when `x` is the last one, and marks what is behind it. -/
theorem Receiver.turn_slot {x : ℕ} (hN : r.queue.bufSize = N) (hx : x < slots N L)
    (hpos : r.recvPos = x * slotSize L + packLenSize) :
    (r.turn L).recvPos = (if x + 1 < slots N L then x + 1 else 0) * slotSize L + packLenSize ∧
      (r.turn L).recvPos ≤ N ∧
      (∀ j < slotsEnd N L, (r.turn L).queue.buffer j = r.queue.buffer j) ∧
      (x + 1 < slots N L → (r.turn L).queue.buffer = r.queue.buffer) ∧
      (slots N L ≤ x + 1 → GivenUp N (r.turn L).queue.buffer (slotsEnd N L)) := by
  have hsz := slotSize_eq L
  have hend := slotsEnd_le N L
  have hlast : (x + 1) * slotSize L = x * slotSize L + slotSize L := Nat.succ_mul _ _
  have hle := slot_le_slotsEnd hx
  by_cases hnext : x + 1 < slots N L
  · have hfits := slot_le_slotsEnd hnext
    rw [if_pos hnext]
    unfold Receiver.turn packLenSize
    unfold packLenSize at hpos
    rw [if_neg (by omega), if_neg (by omega)]
    refine ⟨?_, ?_, fun _ _ => rfl, fun _ => rfl, fun hge => absurd hge (by omega)⟩
    · simp only []
      omega
    · simp only []
      omega
  · have hshort := lt_slotsEnd_add N L
    have hlastEnd : x * slotSize L + slotSize L = slotsEnd N L := by
      rw [← hlast, slotsEnd]
      congr 1
      omega
    rw [if_neg hnext]
    unfold Receiver.turn
    split_ifs with h1 h2
    · refine ⟨by simp, ?_, fun _ _ => rfl, fun h => absurd h hnext, fun _ => ⟨hend, .inl ?_⟩⟩
      · simp only [packLenSize]
        omega
      · simp only [packLenSize] at h1 hpos
        omega
    · have hmark : r.recvPos + (L + packLenSize) - packLenSize = slotsEnd N L := by
        rw [hpos, ← hlastEnd, slotSize]
        omega
      refine ⟨by simp, ?_, fun j hj => ?_, fun h => absurd h hnext, fun _ => ⟨hend, .inr ?_⟩⟩
      · simp only [packLenSize]
        omega
      · exact write_of_outside _ (.inl (by omega))
      · simp only [hmark]
        exact at_write _ _ _
    · simp only [packLenSize] at h2 hpos
      omega

/-- A packet received and its length stored are the packet's frame, and nothing else was written. -/
theorem Receiver.at_received (r : Receiver) (p : List Byte) :
    ((r.received p).stored p.length).queue.buffer.At r.slot (frame p) ∧
      ∀ j, j < r.slot ∨ r.slot + slotSize p.length ≤ j →
        ((r.received p).stored p.length).queue.buffer j = r.queue.buffer j := by
  have hslot := r.slot_add
  have hsz := slotSize_eq p.length
  constructor
  · rw [frame, at_append, length_le16, hslot]
    exact ⟨at_write _ _ _, (at_write _ _ _).write (.inr (by
      rw [length_le16]
      exact hslot.le))⟩
  · intro j hj
    simp only [Receiver.stored, Receiver.received]
    rw [write_of_outside _ (by rw [length_le16]; change j < r.slot ∨ r.slot + 2 ≤ j; omega),
      write_of_outside _ (by omega)]

/-- Once the packet is behind the last slot, or was before, what is behind the slots is given up. -/
theorem Receives.givenUp (h : Receives N p.length first r ps) (hroom : ps.length < slots N p.length)
    (hm : slots N p.length ≤ first + (ps.length + 1)) :
    GivenUp N (((r.received p).stored p.length).turn p.length).queue.buffer
      (slotsEnd N p.length) := by
  have hnext := h.toRing.next_lt hroom
  have hle := slot_le_slotsEnd hnext
  have hslot := h.slot
  obtain ⟨-, hkeep⟩ := r.at_received p
  obtain ⟨-, -, -, hstay, hgiven⟩ := Receiver.turn_slot
    (r := (r.received p).stored p.length) h.size hnext h.recvPos
  by_cases hlast : wrap (slots N p.length) (first + ps.length) + 1 < slots N p.length
  · rw [hstay hlast]
    refine (h.turnedMark (by omega) ?_).congr fun j hj => hkeep j (by omega)
    unfold wrap at hlast
    split_ifs at hlast <;> omega
  · exact hgiven (by omega)

theorem Receives.produce (h : Receives N L first r ps) (hL' : L < maxPackSize)
    (hlen : p.length = L) (hov : ¬ r.queue.Overflows L) :
    ∃ r', r.produce p = .ok (r', true) ∧ Receives N L first r' (ps ++ [p]) := by
  subst hlen
  have hroom := h.toRing.room hov
  have hfirst := h.first_le
  have hsz := slotSize_eq p.length
  have hend := slotsEnd_le N p.length
  have hslot := h.slot
  have hadd := r.slot_add
  have hnext := h.toRing.next_lt hroom
  have hle := slot_le_slotsEnd hnext
  have hfit : r.recvPos + p.length ≤ r.queue.bufSize := by
    rw [h.size]
    omega
  obtain ⟨hat, hkeep⟩ := r.at_received p
  obtain ⟨hpos, hinside, hsame, -, -⟩ := Receiver.turn_slot
    (r := (r.received p).stored p.length) h.size hnext h.recvPos
  rw [← wrap_add_one (by omega)] at hpos
  refine ⟨_, Receiver.produce_eq hL' hov hfit,
    h.toRing.concat hroom rfl ?_ ?_ ?_ ?_ ?_ ?_ ?_, ?_, hinside, fun _ hm => ?_⟩
  · exact (Receiver.turn_bufSize _ _).trans h.size
  · exact Receiver.turn_readPos _ _
  · exact Receiver.turn_readBytes _ _
  · simp only [Receiver.took, Receiver.turn_writeBytes, slotSize]
    rfl
  · rw [← hslot]
    exact hat.congr fun j _ hj => hsame j (by rw [length_frame] at hj; omega)
  · intro j hj hout
    exact (hsame j hj).trans (hkeep j (by omega))
  · intro hm
    exact h.givenUp hroom (by omega)
  · rw [List.length_append, List.length_singleton]
    exact hpos
  · rw [List.length_append, List.length_singleton] at hm
    exact h.givenUp hroom hm

/-- The reader does not change which slot comes next. -/
theorem Receives.turned {q' : FifoQueue} {ps' : List (List Byte)} {first' : ℕ}
    (h : Receives N L first r ps) (h' : Ring N L first' q' ps')
    (hbuffer : q'.buffer = r.queue.buffer) (hne : ps ≠ [])
    (hfirst : first' + ps'.length = turned N L first + ps.length) :
    Receives N L first' { r with queue := q' } ps' := by
  have hle := h.first_le
  have hfew := h.few
  have hpos : 0 < ps.length := List.length_pos_of_ne_nil hne
  refine ⟨h', ?_, h.inside, fun h0 hm => ?_⟩
  · simp only [h.recvPos, hfirst]
    congr 2
    unfold ShortMessage.turned wrap
    split_ifs <;> omega
  · simp only [hbuffer]
    refine h.turnedMark h0 ?_
    rw [hfirst] at hm
    unfold ShortMessage.turned at hm
    split_ifs at hm <;> omega

/-- The queue received into in place answers as a queue of packets. -/
theorem Receives.step (hL : 1 ≤ L) (hL' : L < maxPackSize) (h : Receives N L first r ps) {c : Call}
    (hc : Queue.Admits L ps c) : ∃ first' r',
      r.step c.inPlace = .ok (r', (Queue.step N L ps c).2) ∧
        Receives N L first' r' (Queue.step N L ps c).1 := by
  cases c with
  | push packet =>
    obtain rfl : packet.length = L := hc
    by_cases hov : r.queue.Overflows packet.length
    · rw [h.toRing.step_full hov]
      refine ⟨first, r.stored packet.length, ?_, h.stored⟩
      have hupdate := Receiver.update_eq (r := r) hL' (by rw [h.size]; exact h.inside)
      rw [if_pos hov] at hupdate
      rw [FifoQueue.Call.inPlace, Receiver.step, Receiver.produce_of_overflows hov, hupdate]
      rfl
    · rw [h.toRing.step_room hov]
      obtain ⟨r', hproduce, h'⟩ := h.produce hL' rfl hov
      refine ⟨first, r', ?_, h'⟩
      rw [FifoQueue.Call.inPlace, Receiver.step, hproduce]
      rfl
  | pop =>
    rcases ps with _ | ⟨p, ps⟩
    · exact absurd rfl hc
    · obtain ⟨q', hpop, hbuffer, -, -, h'⟩ :=
        h.toRing.popPacket (h.toRing.sized hL hL' List.mem_cons_self)
      refine ⟨_, _, ?_, h.turned h' hbuffer (by simp) (by
        simp only [Queue.step, List.tail_cons, List.length_cons]
        omega)⟩
      rw [FifoQueue.Call.inPlace, Receiver.step, hpop]
      rfl
  | peek =>
    rcases ps with _ | ⟨p, ps⟩
    · refine ⟨first, r, ?_, h⟩
      rw [FifoQueue.Call.inPlace, Receiver.step, h.toRing.peekNextPackLen_nil]
      rfl
    · obtain ⟨q', hpeek, hbuffer, -, -, h'⟩ :=
        h.toRing.peekNextPackLen (h.toRing.sized hL hL' List.mem_cons_self)
      refine ⟨_, _, ?_, h.turned h' hbuffer (by simp) rfl⟩
      rw [FifoQueue.Call.inPlace, Receiver.step, hpeek]
      rfl

/-! ## Runs -/

/-- Packets of length `L` are produced, and a queue that is not empty is popped. -/
def FifoQueue.Fixed (L : ℕ) (q : FifoQueue) : Call → Prop
  | .push packet => packet.length = L
  | .pop => q.readBytes < q.writeBytes
  | .peek => True

instance (L : ℕ) (q : FifoQueue) : DecidablePred (q.Fixed L)
  | .push packet => inferInstanceAs (Decidable (packet.length = L))
  | .pop => inferInstanceAs (Decidable (q.readBytes < q.writeBytes))
  | .peek => inferInstanceAs (Decidable True)

theorem Ring.fixed_iff (h : Ring N L first q ps) (c : Call) :
    q.Fixed L c ↔ Queue.Admits L ps c := by
  cases c with
  | push packet => exact Iff.rfl
  | pop => exact h.nonempty_iff
  | peek => exact Iff.rfl

theorem ring_init (N L : ℕ) (buffer : Bytes) : Ring N L 0 (FifoQueue.init N buffer) [] where
  size := rfl
  first_le := Nat.zero_le _
  readPos := (Nat.zero_mul _).symm
  few := Nat.zero_le _
  laid := laid_nil _ _ _ _
  bytes := by simp [FifoQueue.init]
  mark := fun hm => by simp at hm

theorem pushes_init (N L : ℕ) (buffer : Bytes) : Pushes N L 0 (FifoQueue.init N buffer) [] :=
  ⟨ring_init N L buffer, by simp [FifoQueue.init]⟩

theorem receives_init (hN : 2 ≤ N) (L : ℕ) (buffer : Bytes) :
    Receives N L 0 (Receiver.init N buffer) [] :=
  ⟨ring_init N L buffer, by simp [Receiver.init, wrap], hN, fun h0 hm => by
    rw [List.length_nil] at hm
    omega⟩

variable {h : History} {buffer : Bytes}

/-- The calls of a run in place make a run of the copying path with the same answers, and the same
packets wait in either queue. -/
theorem inPlace_run (hN : 2 ≤ N) (hL : 1 ≤ L) (hL' : L < maxPackSize) (buffer' : Bytes)
    (hr : Run.Reaches (fun r c => r.step c.inPlace) (fun r => r.queue.Fixed L)
      (Receiver.init N buffer) h r) :
    ∃ q ps first first', Run.Reaches FifoQueue.step (Fixed L) (FifoQueue.init N buffer') h q ∧
      accepted h = returned h ++ ps ∧ Receives N L first r ps ∧ Pushes N L first' q ps := by
  refine hr.invariant (I := fun h r => ∃ q ps first first',
    Run.Reaches FifoQueue.step (Fixed L) (FifoQueue.init N buffer') h q ∧
      accepted h = returned h ++ ps ∧ Receives N L first r ps ∧ Pushes N L first' q ps)
    ⟨_, [], 0, 0, .start, rfl, receives_init hN L buffer, pushes_init N L buffer'⟩ ?_
  rintro h r c r' out ⟨q, ps, first, first', hq, hps, hreceives, hpushes⟩ hc hs
  have hadmits := (hreceives.toRing.fixed_iff c).1 hc
  obtain ⟨_, r₁, hs₁, hreceives'⟩ := hreceives.step hL hL' hadmits
  obtain ⟨_, q₁, hq₁, hpushes'⟩ := hpushes.step hL hL' hadmits
  rw [hs, Except.ok.injEq, Prod.mk.injEq] at hs₁
  obtain ⟨rfl, rfl⟩ := hs₁
  refine ⟨q₁, _, _, _, hq.next ((hpushes.toRing.fixed_iff c).2 hadmits) hq₁, ?_, hreceives',
    hpushes'⟩
  rw [accepted, returned, List.flatMap_append, List.flatMap_append, List.flatMap_singleton,
    List.flatMap_singleton, ← accepted, ← returned, hps, List.append_assoc,
    Queue.step_accounts hadmits, List.append_assoc]

/-- Received in place, packets of one length are accepted and rejected as on the copying path, come
out as they were received, in order, and every call returns. -/
theorem inPlace_agrees (hN : 2 ≤ N) (hL : 1 ≤ L) (hL' : L < maxPackSize) (buffer' : Bytes)
    (hr : Run.Reaches (fun r c => r.step c.inPlace) (fun r => r.queue.Fixed L)
      (Receiver.init N buffer) h r) :
    (∃ q, Run.Reaches FifoQueue.step (Fixed L) (FifoQueue.init N buffer') h q) ∧
      returned h <+: accepted h ∧
      (∃ ps, accepted h = returned h ++ ps ∧ r.queue.Drains ps) ∧
      ∀ c, r.queue.Fixed L c → ∃ out, r.step c.inPlace = .ok out := by
  obtain ⟨q, ps, _, _, hq, hps, hreceives, -⟩ := inPlace_run hN hL hL' buffer' hr
  refine ⟨⟨q, hq⟩, ⟨ps, hps.symm⟩, ⟨ps, hps, hreceives.toRing.drains hL hL'⟩, fun c hc => ?_⟩
  obtain ⟨_, _, hs, -⟩ := hreceives.step hL hL' ((hreceives.toRing.fixed_iff c).1 hc)
  exact ⟨_, hs⟩

/-- In a buffer of eight bytes the third packet of one byte does not fit beside the second. -/
theorem inPlace_agrees_third : ∃ q, Run.Reaches FifoQueue.step (Fixed 1)
    (FifoQueue.init 8 fun _ => 255)
      [(.push [7], .pushed true), (.push [8], .pushed true), (.push [9], .pushed false),
        (.pop, .popped [7]), (.push [9], .pushed true), (.pop, .popped [8])] q := by
  obtain ⟨r, hr⟩ : ∃ r, Run.Reaches (fun r c => r.step c.inPlace) (fun r => r.queue.Fixed 1)
      (Receiver.init 8 fun _ => 0)
        [(.push [7], .pushed true), (.push [8], .pushed true), (.push [9], .pushed false),
          (.pop, .popped [7]), (.push [9], .pushed true), (.pop, .popped [8])] r :=
    ⟨_, .next (.next (.next (.next (.next (.next .start (by decide) rfl) (by decide) rfl)
      (by decide) rfl) (by decide) rfl) (by decide) rfl) (by decide) rfl⟩
  exact (inPlace_agrees (by decide) (by decide) (by decide) (fun _ => 255) hr).1

end ShortMessage
