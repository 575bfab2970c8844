import ShortMessage.FifoQueue
import ShortMessage.Lib.Run

/-!
# Which packets come out of the queue

The packets still to be read lie in one piece from `read_pos_` on, or in two with the tail between
them given up. `PushPacket` lays a packet behind them when it finds room (`Room`), which its
capacity test does not ask for; then what is pushed comes out as it went in.
-/

namespace ShortMessage

open CMemory Bytes

namespace FifoQueue

variable {q q' : FifoQueue} {p packet : List Byte} {ps : List (List Byte)}

/-! ## Frames -/

def frame (packet : List Byte) : List Byte := le16 (.ofNat 16 packet.length) ++ packet

def frames (packets : List (List Byte)) : List Byte := packets.flatMap frame

/-- The lengths that can be told from `END_FLAG`. -/
def Sized (packet : List Byte) : Prop := 1 ≤ packet.length ∧ packet.length < maxPackSize

@[simp] theorem length_frame (packet : List Byte) : (frame packet).length = packet.length + 2 := by
  rw [frame, List.length_append, length_le16, Nat.add_comm]

@[simp] theorem frames_nil : frames [] = [] := rfl

@[simp] theorem frames_cons : frames (p :: ps) = frame p ++ frames ps := rfl

@[simp] theorem frames_append (ps qs : List (List Byte)) :
    frames (ps ++ qs) = frames ps ++ frames qs := List.flatMap_append

theorem Sized.toNat_length (h : Sized packet) :
    (BitVec.ofNat 16 packet.length).toNat = packet.length := by
  have := h.2
  unfold maxPackSize at this
  rw [BitVec.toNat_ofNat, Nat.mod_eq_of_lt (by omega)]

theorem Sized.ne_endFlag (h : Sized packet) : BitVec.ofNat 16 packet.length ≠ endFlag := by
  intro he
  have := h.toNat_length
  rw [he] at this
  have h0 : packet.length = 0 := this.symm
  have := h.1
  omega

/-! ## What waits in the buffer -/

/-- Nothing is to be read from position `e` to the end of the buffer, and a reader can tell. -/
def GivenUp (bufSize : ℕ) (buffer : Bytes) (e : ℕ) : Prop :=
  e ≤ bufSize ∧ (bufSize < e + 2 ∨ buffer.At e (le16 endFlag))

/-- What may not be written over begins here. -/
def readLimit (q : FifoQueue) : ℕ :=
  if q.bufSize < q.readPos + packLenSize then q.bufSize else q.readPos

theorem readLimit_cases (q : FifoQueue) :
    q.readLimit = q.readPos ∧ q.readPos + 2 ≤ q.bufSize ∨
      q.readLimit = q.bufSize ∧ q.bufSize < q.readPos + 2 := by
  unfold readLimit packLenSize
  split_ifs with h
  · exact .inr ⟨rfl, h⟩
  · exact .inl ⟨rfl, by omega⟩

/-- The packets of `front` lie before the end of the buffer, the tail behind them given up. -/
def Front (q : FifoQueue) (buffer : Bytes) (front : List (List Byte)) : Prop :=
  buffer.At q.readPos (frames front) ∧
    GivenUp q.bufSize buffer (q.readPos + (frames front).length)

/-- How the packets to be read lie in the buffer. -/
inductive Holds (q : FifoQueue) : List (List Byte) → Prop
  | straight {ps : List (List Byte)} : q.buffer.At q.readPos (frames ps) →
      q.writePos = q.readPos + (frames ps).length → q.writePos ≤ q.bufSize → Holds q ps
  | wrapped {front back : List (List Byte)} :
      q.Front q.buffer front → back ≠ [] → q.buffer.At 0 (frames back) →
      q.writePos = (frames back).length → q.writePos ≤ q.readLimit → Holds q (front ++ back)

/-- The packets to be read, in the order they were accepted. -/
structure Pending (q : FifoQueue) (ps : List (List Byte)) : Prop where
  sized : ∀ p ∈ ps, Sized p
  holds : q.Holds ps
  bytes : q.writeBytes = q.readBytes + (frames ps).length

theorem Pending.nonempty (h : q.Pending (p :: ps)) : q.readBytes < q.writeBytes := by
  have := h.bytes
  simp only [frames_cons, List.length_append, length_frame] at this
  omega

theorem Pending.eq_nil (h : q.Pending ps) (he : q.writeBytes ≤ q.readBytes) : ps = [] := by
  rcases ps with _ | ⟨p, ps⟩
  · rfl
  · have := h.nonempty
    omega

theorem pending_init (bufSize : ℕ) (buffer : Bytes) : (init bufSize buffer).Pending [] :=
  ⟨by simp, .straight (at_nil _ _) rfl (Nat.zero_le _), rfl⟩

/-! ## Reading -/

def pass (q : FifoQueue) (packet : List Byte) : FifoQueue :=
  { q with
    readPos := q.readPos + packLenSize + packet.length
    readBytes := q.readBytes + (packet.length + packLenSize) }

structure Ready (q : FifoQueue) (p : List Byte) (ps : List (List Byte)) : Prop where
  pending : q.Pending (p :: ps)
  head : q.buffer.At q.readPos (frame p)
  fits : q.readPos + (p.length + 2) ≤ q.bufSize
  rest : (q.pass p).Pending ps

theorem readLimit_pass_le (q : FifoQueue) (p : List Byte) (hr : q.readPos ≤ q.bufSize) :
    q.readLimit ≤ (q.pass p).readLimit := by
  have hpos : (q.pass p).readPos = q.readPos + 2 + p.length := rfl
  have hsize : (q.pass p).bufSize = q.bufSize := rfl
  have h1 := q.readLimit_cases
  have h2 := (q.pass p).readLimit_cases
  omega

theorem ready_straight (hs : ∀ r ∈ p :: ps, Sized r)
    (hat : q.buffer.At q.readPos (frames (p :: ps)))
    (hw : q.writePos = q.readPos + (frames (p :: ps)).length) (hN : q.writePos ≤ q.bufSize)
    (hb : q.writeBytes = q.readBytes + (frames (p :: ps)).length) : q.Ready p ps := by
  have hpending : q.Pending (p :: ps) := ⟨hs, .straight hat hw hN, hb⟩
  rw [frames_cons, at_append, length_frame] at hat
  simp only [frames_cons, List.length_append, length_frame] at hw hb
  refine ⟨hpending, hat.1, by omega, fun r hr => hs r (by simp [hr]), ?_, ?_⟩
  · refine .straight ?_ ?_ hN
    · rw [show (q.pass p).readPos = q.readPos + (p.length + 2) by
        simp only [pass, packLenSize]
        omega]
      exact hat.2
    · simp only [pass, packLenSize]
      omega
  · simp only [pass, packLenSize]
    omega

theorem ready_front {front back : List (List Byte)} (hs : ∀ r ∈ p :: (front ++ back), Sized r)
    (hf : q.Front q.buffer (p :: front)) (hne : back ≠ []) (hat : q.buffer.At 0 (frames back))
    (hw : q.writePos = (frames back).length) (hl : q.writePos ≤ q.readLimit)
    (hb : q.writeBytes = q.readBytes + (frames (p :: (front ++ back))).length) :
    q.Ready p (front ++ back) := by
  have hpending : q.Pending (p :: (front ++ back)) := ⟨hs, .wrapped hf hne hat hw hl, hb⟩
  obtain ⟨hfat, hgiven⟩ := hf
  rw [frames_cons, at_append, length_frame] at hfat
  rw [frames_cons, List.length_append, length_frame, ← Nat.add_assoc] at hgiven
  have hpos : (q.pass p).readPos = q.readPos + (p.length + 2) := by
    simp only [pass, packLenSize]
    omega
  have hle := hgiven.1
  refine ⟨hpending, hfat.1, by omega, fun r hr => hs r (by simp [hr]), ?_, ?_⟩
  · refine .wrapped ⟨?_, ?_⟩ hne hat hw (hl.trans (readLimit_pass_le q p (by omega)))
    · rw [hpos]
      exact hfat.2
    · rw [hpos]
      exact hgiven
  · simp only [frames_cons, frames_append, List.length_append, length_frame] at hb
    simp only [pass, packLenSize, frames_append, List.length_append]
    omega

theorem Ready.sized (h : q.Ready p ps) : Sized p := h.pending.sized p (by simp)

theorem Ready.load16 (h : q.Ready p ps) :
    load16 q.bufSize q.buffer q.readPos = .ok (.ofNat 16 p.length) := by
  have := h.fits
  exact load16_ok (at_append.1 h.head).1 (by omega)

/-- The reader is moved to the next packet and finds its length. -/
theorem seek_ready (h : q.Pending (p :: ps)) :
    ∃ q', q.seek = .ok (q', p.length) ∧ q'.Ready p ps := by
  obtain ⟨hs, hh, hb⟩ := h
  have hstay (hr : q.Ready p ps) : ∃ q', q.seek = .ok (q', p.length) ∧ q'.Ready p ps := by
    have := hr.fits
    refine ⟨q, ?_, hr⟩
    unfold seek
    simp only []
    rw [if_neg (by simp only [packLenSize]; omega), hr.load16, ok_bind, if_neg hr.sized.ne_endFlag,
      hr.sized.toNat_length]
    rfl
  generalize hps : p :: ps = packets at hs hh hb
  cases hh with
  | straight hat hw hN =>
    subst hps
    exact hstay (ready_straight hs hat hw hN hb)
  | @wrapped front back hf hne hat hw hl =>
    rcases front with _ | ⟨r, front⟩
    · -- nothing is left before the end of the buffer: the reader goes on at its start
      rw [List.nil_append] at hps hs hb
      subst hps
      have hN : q.writePos ≤ q.bufSize := by
        have hend := hf.2.1
        simp only [frames_nil, List.length_nil] at hend
        have := q.readLimit_cases
        omega
      have hr : Ready { q with readPos := 0 } p ps :=
        ready_straight hs hat (by simpa using hw) hN hb
      refine ⟨{ q with readPos := 0 }, ?_, hr⟩
      unfold seek
      simp only []
      split_ifs with hend
      · simp only [hr.load16, ok_bind, if_neg hr.sized.ne_endFlag, hr.sized.toNat_length]
        rfl
      · simp only [packLenSize] at hend
        have hmark : q.buffer.At q.readPos (le16 endFlag) := by
          rcases hf.2.2 with hlt | hmark
          · simp only [frames_nil, List.length_nil] at hlt
            omega
          · exact hmark
        rw [load16_ok hmark (by omega), ok_bind, if_pos rfl, hr.load16, ok_bind,
          hr.sized.toNat_length]
        rfl
    · rw [List.cons_append, List.cons_eq_cons] at hps
      obtain ⟨rfl, rfl⟩ := hps
      exact hstay (ready_front hs hf hne hat hw hl hb)

theorem Ready.load (h : q.Ready p ps) :
    load q.bufSize q.buffer (q.readPos + packLenSize) p.length = .ok p := by
  have := h.fits
  exact load_ok (at_append.1 h.head).2 (by simp only [packLenSize]; omega)

theorem popPacket_pending (h : q.Pending (p :: ps)) :
    ∃ q', q.popPacket = .ok (q', p) ∧ q'.Pending ps := by
  obtain ⟨q', hseek, hr⟩ := seek_ready h
  have := h.nonempty
  refine ⟨q'.pass p, ?_, hr.rest⟩
  unfold popPacket
  rw [if_neg (by omega), hseek, ok_bind]
  simp only [hr.load, ok_bind]
  rfl

theorem peekNextPackLen_pending (h : q.Pending (p :: ps)) :
    ∃ q', q.peekNextPackLen = .ok (q', p.length) ∧ q'.Pending (p :: ps) := by
  obtain ⟨q', hseek, hr⟩ := seek_ready h
  have := h.nonempty
  refine ⟨q', ?_, hr.pending⟩
  rw [peekNextPackLen, if_neg (by omega), hseek]

/-! ## Writing -/

/-- Enough free bytes in one piece, where the packet is laid: before what waits to be read, or
before the end of the buffer when that comes first. -/
def Room (q : FifoQueue) (len : ℕ) : Prop :=
  if q.readBytes < q.writeBytes ∧ q.writePos ≤ q.readLimit then q.writePos + len + 2 ≤ q.readLimit
  else q.writePos + len + 2 ≤ q.bufSize ∨ len + 2 ≤ q.readLimit

instance (q : FifoQueue) (len : ℕ) : Decidable (q.Room len) :=
  by unfold Room; infer_instance

/-- The queue with a packet laid at `write_pos_`. -/
def lay (q : FifoQueue) (packet : List Byte) : FifoQueue :=
  { q with
    buffer := (q.buffer.write q.writePos (le16 (.ofNat 16 packet.length))).write
      (q.writePos + packLenSize) packet
    writePos := q.writePos + packLenSize + packet.length
    writeBytes := q.writeBytes + (packet.length + packLenSize) }

/-- Where a packet of this length is laid. -/
def turn (q : FifoQueue) (len : ℕ) : FifoQueue :=
  if q.bufSize < q.writePos + packLenSize then { q with writePos := 0 }
  else if q.bufSize < q.writePos + len + 2 then
    { q with buffer := q.buffer.write q.writePos (le16 endFlag), writePos := 0 }
  else q

theorem put_ok {bs : List Byte} (h : q.writePos + bs.length ≤ q.bufSize) :
    q.put bs = .ok { q with buffer := q.buffer.write q.writePos bs } := by
  rw [put, store_ok _ h]
  rfl

/-- The statements that lay a packet at `write_pos_`. -/
theorem lay_eq (h : q.writePos + (packet.length + 2) ≤ q.bufSize) :
    (do
      let q ← q.put (le16 (.ofNat 16 packet.length))
      let q : FifoQueue := { q with writePos := q.writePos + packLenSize }
      let q ← q.put packet
      let q : FifoQueue := { q with writePos := q.writePos + packet.length }
      return ({ q with writeBytes := q.writeBytes + (packet.length + packLenSize) }, true)) =
        (.ok (q.lay packet, true) : Except Fault (FifoQueue × Bool)) := by
  rw [put_ok (by rw [length_le16]; omega), ok_bind]
  simp only []
  rw [put_ok (by simp only [packLenSize]; omega), ok_bind]
  rfl

theorem pushPacket_eq (hp : Sized packet) (hov : ¬ q.Overflows packet.length)
    (hfit : (q.turn packet.length).writePos + (packet.length + 2) ≤ q.bufSize) :
    q.pushPacket packet = .ok ((q.turn packet.length).lay packet, true) := by
  unfold pushPacket
  simp only []
  rw [if_neg (not_not.2 hp.2), if_neg hov]
  unfold turn at hfit ⊢
  split_ifs at hfit ⊢ with h1 h2
  · exact lay_eq hfit
  · simp only [packLenSize] at h1
    rw [put_ok (by rw [length_le16]; omega)]
    exact lay_eq hfit
  · exact lay_eq hfit

theorem pushPacket_overflows (hp : packet.length < maxPackSize) (hov : q.Overflows packet.length) :
    q.pushPacket packet = .ok (q, false) := by
  unfold pushPacket
  simp only []
  rw [if_neg (not_not.2 hp), if_pos hov]
  rfl

theorem at_lay (q : FifoQueue) (packet : List Byte) :
    (q.lay packet).buffer.At q.writePos (frame packet) := by
  rw [frame, at_append]
  exact ⟨(at_write _ _ _).write (.inl le_rfl), at_write _ _ _⟩

/-- What ends before the packet laid or begins behind it is kept. -/
theorem at_lay_of_disjoint {i : ℕ} {bs : List Byte} (h : q.buffer.At i bs)
    (hd : i + bs.length ≤ q.writePos ∨ q.writePos + (packet.length + 2) ≤ i) :
    (q.lay packet).buffer.At i bs := by
  refine (h.write ?_).write ?_
  · rw [length_le16]
    omega
  · simp only [packLenSize]
    omega

/-- What lies before the end of the buffer is kept by a packet laid before `readLimit`. -/
theorem Front.lay {front : List (List Byte)}
    (hf : q.Front q.buffer front) (hl : q.writePos + (packet.length + 2) ≤ q.readLimit) :
    q.Front (q.lay packet).buffer front := by
  obtain ⟨hat, hle, hmark⟩ := hf
  rcases q.readLimit_cases with ⟨hlim, -⟩ | ⟨hlim, hend⟩
  · refine ⟨at_lay_of_disjoint hat (.inr (by omega)), hle, hmark.imp_right fun hm => ?_⟩
    exact at_lay_of_disjoint hm (.inr (by omega))
  · -- the reader has less than a length's bytes before it: nothing lies there
    rcases front with _ | ⟨p, front⟩
    · exact ⟨at_nil _ _, hle, .inl hend⟩
    · simp only [frames_cons, List.length_append, length_frame] at hle
      omega

theorem two_le_frames (hne : ps ≠ []) : 2 ≤ (frames ps).length := by
  rcases ps with _ | ⟨p, ps⟩
  · exact absurd rfl hne
  · simp only [frames_cons, List.length_append, length_frame]
    omega

@[simp] theorem turn_bufSize (q : FifoQueue) (len : ℕ) : (q.turn len).bufSize = q.bufSize := by
  unfold turn
  split_ifs <;> rfl

@[simp] theorem turn_readPos (q : FifoQueue) (len : ℕ) : (q.turn len).readPos = q.readPos := by
  unfold turn
  split_ifs <;> rfl

@[simp] theorem turn_readBytes (q : FifoQueue) (len : ℕ) :
    (q.turn len).readBytes = q.readBytes := by
  unfold turn
  split_ifs <;> rfl

@[simp] theorem turn_writeBytes (q : FifoQueue) (len : ℕ) :
    (q.turn len).writeBytes = q.writeBytes := by
  unfold turn
  split_ifs <;> rfl

@[simp] theorem turn_readLimit (q : FifoQueue) (len : ℕ) :
    (q.turn len).readLimit = q.readLimit := by
  simp [readLimit]

theorem turn_of_fits {len : ℕ} (h : q.writePos + (len + 2) ≤ q.bufSize) : q.turn len = q := by
  rw [turn, if_neg (by simp only [packLenSize]; omega), if_neg (by omega)]

/-- A writer that turns to the start gives up the tail behind what it has laid. -/
theorem turn_front {len : ℕ} (hat : q.buffer.At q.readPos (frames ps))
    (hw : q.writePos = q.readPos + (frames ps).length) (hN : q.writePos ≤ q.bufSize)
    (hfit : ¬ q.writePos + (len + 2) ≤ q.bufSize) :
    (q.turn len).writePos = 0 ∧ (q.turn len).Front (q.turn len).buffer ps := by
  unfold turn
  split_ifs with h1 h2
  · exact ⟨rfl, hat, hw ▸ hN, .inl (hw ▸ h1)⟩
  · refine ⟨rfl, hat.write (.inl hw.ge), hw ▸ hN, .inr ?_⟩
    rw [← hw]
    exact at_write _ _ _
  · omega

theorem pushPacket_straight (hp : Sized packet) (hov : ¬ q.Overflows packet.length)
    (hs : ∀ p ∈ ps ++ [packet], Sized p) (hat : q.buffer.At q.readPos (frames ps))
    (hw : q.writePos = q.readPos + (frames ps).length) (hN : q.writePos ≤ q.bufSize)
    (hb : q.writeBytes = q.readBytes + (frames ps).length) (hroom : q.Room packet.length) :
    ∃ q', q.pushPacket packet = .ok (q', true) ∧ q'.Pending (ps ++ [packet]) := by
  have hlim := q.readLimit_cases
  have hbytes : ((q.turn packet.length).lay packet).writeBytes =
      q.readBytes + (frames (ps ++ [packet])).length := by
    simp only [lay, packLenSize, turn_writeBytes, frames_append, frames_cons, frames_nil,
      List.length_append, length_frame, List.length_nil]
    omega
  by_cases hfit : q.writePos + (packet.length + 2) ≤ q.bufSize
  · have hturn := turn_of_fits hfit
    refine ⟨_, pushPacket_eq hp hov (by rw [hturn]; exact hfit), hs, ?_, by
      rw [hbytes, hturn]; rfl⟩
    rw [hturn]
    refine .straight ?_ ?_ ?_
    · rw [frames_append, at_append]
      refine ⟨at_lay_of_disjoint hat (.inl hw.ge), ?_⟩
      change (q.lay packet).buffer.At (q.readPos + (frames ps).length) (frame packet ++ [])
      rw [List.append_nil, ← hw]
      exact at_lay q packet
    · simp only [lay, packLenSize, frames_append, frames_cons, frames_nil, List.length_append,
        length_frame, List.length_nil]
      omega
    · simp only [lay, packLenSize]
      omega
  · obtain ⟨h0, hfront⟩ := turn_front hat hw hN hfit
    have hroom' : packet.length + 2 ≤ q.readLimit := by
      unfold Room at hroom
      split_ifs at hroom with hc
      · omega
      · omega
    refine ⟨_, pushPacket_eq hp hov (by rw [h0]; omega), hs, ?_, by
      rw [hbytes]; simp [lay]⟩
    refine .wrapped (hfront.lay ?_) (by simp) ?_ ?_ ?_
    · rw [h0, turn_readLimit]
      omega
    · have := at_lay (q.turn packet.length) packet
      rw [h0] at this
      simpa using this
    · simp only [lay, h0, packLenSize, frames_cons, frames_nil, List.length_append, length_frame,
        List.length_nil]
      omega
    · have hlim' : ((q.turn packet.length).lay packet).readLimit = q.readLimit :=
        turn_readLimit q _
      rw [hlim']
      simp only [lay, h0, packLenSize]
      omega

theorem pushPacket_wrapped {front back : List (List Byte)} (hp : Sized packet)
    (hov : ¬ q.Overflows packet.length) (hs : ∀ p ∈ front ++ (back ++ [packet]), Sized p)
    (hf : q.Front q.buffer front) (hne : back ≠ []) (hat : q.buffer.At 0 (frames back))
    (hw : q.writePos = (frames back).length) (hl : q.writePos ≤ q.readLimit)
    (hb : q.writeBytes = q.readBytes + (frames (front ++ back)).length)
    (hroom : q.Room packet.length) :
    ∃ q', q.pushPacket packet = .ok (q', true) ∧ q'.Pending (front ++ (back ++ [packet])) := by
  have hlim := q.readLimit_cases
  have hback := two_le_frames hne
  rw [frames_append, List.length_append] at hb
  rw [Room, if_pos ⟨by omega, hl⟩] at hroom
  have hturn : q.turn packet.length = q := turn_of_fits (by omega)
  refine ⟨q.lay packet, ?_, hs, ?_, ?_⟩
  · have := pushPacket_eq hp hov (by rw [hturn]; omega)
    rwa [hturn] at this
  · refine .wrapped (hf.lay (by omega)) (by simp) ?_ ?_ ?_
    · rw [frames_append, at_append]
      refine ⟨at_lay_of_disjoint hat (.inl (by omega)), ?_⟩
      rw [Nat.zero_add, ← hw, frames_cons, frames_nil, List.append_nil]
      exact at_lay q packet
    · simp only [lay, packLenSize, frames_append, frames_cons, frames_nil, List.length_append,
        length_frame, List.length_nil]
      omega
    · change q.writePos + packLenSize + packet.length ≤ q.readLimit
      simp only [packLenSize]
      omega
  · simp only [lay, packLenSize, frames_append, frames_cons, frames_nil, List.length_append,
      length_frame, List.length_nil]
    omega

theorem pushPacket_pending (h : q.Pending ps) (hp : Sized packet)
    (hov : ¬ q.Overflows packet.length) (hroom : q.Room packet.length) :
    ∃ q', q.pushPacket packet = .ok (q', true) ∧ q'.Pending (ps ++ [packet]) := by
  obtain ⟨hs, hh, hb⟩ := h
  have hs' : ∀ p ∈ ps ++ [packet], Sized p := by
    intro p hmem
    rcases List.mem_append.1 hmem with hmem | hmem
    · exact hs p hmem
    · rwa [List.mem_singleton.1 hmem]
  cases hh with
  | straight hat hw hN => exact pushPacket_straight hp hov hs' hat hw hN hb hroom
  | wrapped hf hne hat hw hl =>
    rw [List.append_assoc] at hs' ⊢
    exact pushPacket_wrapped hp hov hs' hf hne hat hw hl hb hroom

/-! ## Runs -/

/-- What a caller keeps to: `END_FLAG` is no length, and a reader of an empty queue waits. -/
def Legal (q : FifoQueue) : Call → Prop
  | .push packet => Sized packet
  | .pop => q.readBytes < q.writeBytes
  | .peek => True

instance (q : FifoQueue) : DecidablePred q.Legal
  | .push packet => inferInstanceAs (Decidable (1 ≤ packet.length ∧ packet.length < maxPackSize))
  | .pop => inferInstanceAs (Decidable (q.readBytes < q.writeBytes))
  | .peek => inferInstanceAs (Decidable True)

/-- A packet that passes the capacity test finds room. -/
def Clear (q : FifoQueue) : Call → Prop
  | .push packet => ¬ q.Overflows packet.length → q.Room packet.length
  | .pop | .peek => True

instance (q : FifoQueue) : DecidablePred q.Clear
  | .push packet => inferInstanceAs (Decidable (¬ q.Overflows packet.length → q.Room packet.length))
  | .pop | .peek => inferInstanceAs (Decidable True)

abbrev History := List (Call × Reply)

def acceptedBy : Call × Reply → List (List Byte)
  | (.push packet, .pushed true) => [packet]
  | _ => []

def returnedBy : Call × Reply → List (List Byte)
  | (_, .popped packet) => [packet]
  | _ => []

def accepted (h : History) : List (List Byte) := h.flatMap acceptedBy

def returned (h : History) : List (List Byte) := h.flatMap returnedBy

/-- Pops return these packets and then find the queue empty; before each, `PeekNextPackLen` tells
the length of what it returns. -/
def Drains : FifoQueue → List (List Byte) → Prop
  | q, [] => q.readBytes = q.writeBytes
  | q, p :: ps => (∃ q', q.peekNextPackLen = .ok (q', p.length)) ∧
      ∃ q', q.popPacket = .ok (q', p) ∧ q'.Drains ps

/-- What was accepted comes out once, as it went in and in order. -/
structure Intact (h : History) (q : FifoQueue) : Prop where
  inOrder : returned h <+: accepted h
  drains : ∃ ps, accepted h = returned h ++ ps ∧ q.Drains ps
  peeks : ∀ h₁ n h₂, h = h₁ ++ (.peek, .peeked n) :: h₂ →
    ∀ p, (accepted h₁)[(returned h₁).length]? = some p → n = p.length

theorem Pending.drains : ∀ {ps : List (List Byte)} {q : FifoQueue}, q.Pending ps → q.Drains ps
  | [], _, h => h.bytes.symm
  | _ :: _, _, h => by
    obtain ⟨_, hpeek, -⟩ := peekNextPackLen_pending h
    obtain ⟨_, hpop, hrest⟩ := popPacket_pending h
    exact ⟨⟨_, hpeek⟩, _, hpop, hrest.drains⟩

/-- A call returns, and what waited before it and what it accepts is what it returns and what waits
after it. -/
theorem step_pending (h : q.Pending ps) {c : Call} (hl : q.Legal c) (hc : q.Clear c) :
    ∃ q' r ps', q.step c = .ok (q', r) ∧ q'.Pending ps' ∧
      ps ++ acceptedBy (c, r) = returnedBy (c, r) ++ ps' := by
  cases c with
  | push packet =>
    by_cases hov : q.Overflows packet.length
    · refine ⟨q, .pushed false, ps, ?_, h, List.append_nil ps⟩
      rw [step, pushPacket_overflows hl.2 hov]
      rfl
    · obtain ⟨q', hpush, hq'⟩ := pushPacket_pending h hl hov (hc hov)
      refine ⟨q', .pushed true, _, ?_, hq', rfl⟩
      rw [step, hpush]
      rfl
  | pop =>
    rcases ps with _ | ⟨p, ps⟩
    · have := h.bytes
      have hl : q.readBytes < q.writeBytes := hl
      simp only [frames_nil, List.length_nil] at this
      omega
    · obtain ⟨q', hpop, hq'⟩ := popPacket_pending h
      refine ⟨q', .popped p, ps, ?_, hq', List.append_nil _⟩
      rw [step, hpop]
      rfl
  | peek =>
    rcases ps with _ | ⟨p, ps⟩
    · refine ⟨q, .peeked 0, [], ?_, h, rfl⟩
      rw [step, peekNextPackLen, if_pos (show q.writeBytes ≤ q.readBytes from h.bytes.le)]
      rfl
    · obtain ⟨q', hpeek, hq'⟩ := peekNextPackLen_pending h
      refine ⟨q', .peeked p.length, _, ?_, hq', List.append_nil _⟩
      rw [step, hpeek]
      rfl

variable {N : ℕ} {buffer : Bytes} {h : History}

/-- What was accepted and not returned waits in the queue. -/
theorem pending_of_reaches
    (hr : Run.Reaches step (fun q c => q.Legal c ∧ q.Clear c) (init N buffer) h q) :
    ∃ ps, accepted h = returned h ++ ps ∧ q.Pending ps := by
  refine Run.Reaches.invariant (I := fun h q => ∃ ps, accepted h = returned h ++ ps ∧ q.Pending ps)
    ⟨[], rfl, pending_init N buffer⟩ ?_ hr
  rintro h q c q' r ⟨ps, hps, hq⟩ ⟨hl, hc⟩ hs
  obtain ⟨q'', r', ps', hs', hq', heq⟩ := step_pending hq hl hc
  rw [hs, Except.ok.injEq, Prod.mk.injEq] at hs'
  obtain ⟨rfl, rfl⟩ := hs'
  refine ⟨ps', ?_, hq'⟩
  rw [accepted, returned, List.flatMap_append, List.flatMap_append, List.flatMap_singleton,
    List.flatMap_singleton, ← accepted, ← returned, hps, List.append_assoc, heq,
    List.append_assoc]

/-- In a run whose accepted packets find room, every call returns and every packet comes out as it
went in. -/
theorem reaches_intact
    (hr : Run.Reaches step (fun q c => q.Legal c ∧ q.Clear c) (init N buffer) h q) :
    Intact h q ∧ ∀ c, q.Legal c → q.Clear c → ∃ r, q.step c = .ok r := by
  obtain ⟨ps, hps, hq⟩ := pending_of_reaches hr
  refine ⟨⟨⟨ps, hps.symm⟩, ⟨ps, hps, hq.drains⟩, ?_⟩, fun c hl hc => ?_⟩
  · rintro h₁ n h₂ rfl p hp
    obtain ⟨q₁, hr₁, hr₂⟩ := hr.split
    obtain ⟨ps₁, hps₁, hq₁⟩ := pending_of_reaches hr₁
    obtain ⟨q₂, -, hpeek, -⟩ := hr₂.head
    rw [hps₁, List.getElem?_append_right le_rfl, Nat.sub_self] at hp
    rcases ps₁ with _ | ⟨r, ps₁⟩
    · cases hp
    · cases hp
      obtain ⟨q₃, hlen, -⟩ := peekNextPackLen_pending hq₁
      rw [step, hlen] at hpeek
      cases hpeek
      rfl
  · obtain ⟨q', r, -, hs, -⟩ := step_pending hq hl hc
    exact ⟨_, hs⟩

/-! ## A packet laid over a mark -/

theorem reaches_intact_once : ∃ q, Intact [(.push [1], .pushed true), (.pop, .popped [1])] q ∧
    ∀ c, q.Legal c → q.Clear c → ∃ r, q.step c = .ok r := by
  have hr : ∃ q, Run.Reaches step (fun q c => q.Legal c ∧ q.Clear c) (init 4 fun _ => 0)
      [(.push [1], .pushed true), (.pop, .popped [1])] q :=
    ⟨_, .next (.next .start ⟨by decide, by decide⟩ rfl) ⟨by decide, trivial⟩ rfl⟩
  obtain ⟨q, hr⟩ := hr
  exact ⟨q, reaches_intact hr⟩

/-- In a buffer of six bytes the second packet is laid over the mark that leads to it. -/
theorem overlaid_not_intact : ¬ ∀ N buffer h q,
    Run.Reaches step Legal (init N buffer) h q → Intact h q := by
  intro hall
  have hr : ∃ q, Run.Reaches step Legal (init 6 fun _ => 0)
      [(.push [1], .pushed true), (.pop, .popped [1]), (.push [1, 1], .pushed true),
        (.pop, .popped [0])] q :=
    ⟨_, .next (.next (.next (.next .start (by decide) rfl) (by decide) rfl) (by decide) rfl)
      (by decide) rfl⟩
  obtain ⟨q, hr⟩ := hr
  have := (hall _ _ _ _ hr).inOrder
  revert this
  decide

end FifoQueue

end ShortMessage
