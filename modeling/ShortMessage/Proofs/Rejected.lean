import ShortMessage.Proofs.Receiver

/-!
# What a rejected packet leaves behind

A rejected `Update` has stored its length in the buffer. Pops look at the bytes of the lengths and
packets still to be read (`Unread`), and at no others (`pops_upon`): when the two bytes stored are
not among these, or were there already, the call leaves no trace, and a run may be cleared of it.
-/

namespace ShortMessage

open CMemory Bytes

namespace FifoQueue

variable {q q' : FifoQueue} {b : Bytes} {p : List Byte} {i n : ℕ}

/-- What the next `n` calls of `PopPacket` return. -/
def pops : ℕ → FifoQueue → Except Fault (List (List Byte))
  | 0, _ => .ok []
  | n + 1, q => do
    let (q, packet) ← q.popPacket
    let packets ← pops n q
    return packet :: packets

/-- Where a pop looks for a length first. -/
def seekPos (q : FifoQueue) : ℕ := if q.bufSize < q.readPos + packLenSize then 0 else q.readPos

/-- A pop reads this byte: of the length it finds first, of the length at the start of the buffer
when that is `END_FLAG`, or of the packet. -/
inductive PopReads (q : FifoQueue) : ℕ → Prop
  | length {i : ℕ} : q.seekPos ≤ i → i < q.seekPos + 2 → PopReads q i
  | wrapped {i : ℕ} : load16 q.bufSize q.buffer q.seekPos = .ok endFlag → i < 2 → PopReads q i
  | packet {q' : FifoQueue} {len i : ℕ} : q.seek = .ok (q', len) → q'.readPos + packLenSize ≤ i →
      i < q'.readPos + packLenSize + len → PopReads q i

/-- One of the pops still to come reads this byte. -/
inductive Unread : FifoQueue → ℕ → Prop
  | next {q : FifoQueue} {i : ℕ} : q.readBytes < q.writeBytes → q.PopReads i → Unread q i
  | later {q q' : FifoQueue} {p : List Byte} {i : ℕ} :
      q.popPacket = .ok (q', p) → Unread q' i → Unread q i

/-- The queue upon another buffer. -/
def upon (q : FifoQueue) (b : Bytes) : FifoQueue := { q with buffer := b }

theorem load16_congr {cap : ℕ} {buf : Bytes} (h0 : b i = buf i) (h1 : b (i + 1) = buf (i + 1)) :
    load16 cap b i = load16 cap buf i := by
  rw [load16, load16, h0, h1]

theorem load_congr {cap : ℕ} {buf : Bytes} (h : ∀ j, i ≤ j → j < i + n → b j = buf j) :
    load cap b i n = load cap buf i n := by
  have hread : b.read i n = buf.read i n := by
    refine List.ext_getElem (by simp only [length_read]) fun k h1 h2 => ?_
    rw [length_read] at h1
    rw [getElem_read, getElem_read, h _ (by omega) (by omega)]
  rw [load, load, hread]

theorem seek_eq (q : FifoQueue) : q.seek = (do
    let len ← load16 q.bufSize q.buffer q.seekPos
    if len = endFlag then do
      let len ← load16 q.bufSize q.buffer 0
      return ({ q with readPos := 0 }, len.toNat)
    else return ({ q with readPos := q.seekPos }, len.toNat)) := by
  unfold seek seekPos
  split_ifs <;> rfl

theorem seek_upon (h : ∀ i, q.PopReads i → b i = q.buffer i) :
    (q.upon b).seek = q.seek.map fun r => (r.1.upon b, r.2) := by
  have hfirst : load16 q.bufSize b q.seekPos = load16 q.bufSize q.buffer q.seekPos :=
    load16_congr (h _ (.length le_rfl (by omega))) (h _ (.length (by omega) (by omega)))
  have hpos : (q.upon b).seekPos = q.seekPos := rfl
  rw [seek_eq, seek_eq, hpos]
  change (load16 q.bufSize b q.seekPos >>= _) = _
  rw [hfirst]
  rcases hlen : load16 q.bufSize q.buffer q.seekPos with e | len
  · rfl
  · simp only [ok_bind]
    split_ifs with hflag
    · subst hflag
      have hstart : load16 q.bufSize b 0 = load16 q.bufSize q.buffer 0 :=
        load16_congr (h _ (.wrapped hlen (by omega))) (h _ (.wrapped hlen (by omega)))
      change (load16 q.bufSize b 0 >>= _) = _
      rw [hstart]
      rcases load16 q.bufSize q.buffer 0 with e | len <;> rfl
    · rfl

theorem seek_keeps {len : ℕ} (h : q.seek = .ok (q', len)) :
    q'.buffer = q.buffer ∧ q'.bufSize = q.bufSize ∧ q'.writeBytes = q.writeBytes ∧
      q'.readBytes = q.readBytes := by
  rw [seek_eq] at h
  obtain ⟨x, -, h⟩ := bind_eq_ok.1 h
  split_ifs at h
  · obtain ⟨y, -, h⟩ := bind_eq_ok.1 h
    cases h
    exact ⟨rfl, rfl, rfl, rfl⟩
  · cases h
    exact ⟨rfl, rfl, rfl, rfl⟩

theorem popPacket_upon (hb : ∀ i, q.Unread i → b i = q.buffer i) :
    (q.upon b).popPacket = q.popPacket.map fun r => (r.1.upon b, r.2) := by
  unfold popPacket
  change (if q.writeBytes ≤ q.readBytes then _ else _) = _
  split_ifs with hempty
  · rfl
  · have h : ∀ i, q.PopReads i → b i = q.buffer i := fun i hi => hb i (.next (not_le.1 hempty) hi)
    rw [seek_upon h]
    rcases hseek : q.seek with e | ⟨q', len⟩
    · rfl
    · have hbuffer := (seek_keeps hseek).1
      have hload : load q'.bufSize b (q'.readPos + packLenSize) len =
          load q'.bufSize q'.buffer (q'.readPos + packLenSize) len :=
        load_congr fun j hj hj' => by rw [h j (.packet hseek hj hj'), hbuffer]
      change (load q'.bufSize b (q'.readPos + packLenSize) len >>= _) = Except.map _
        (load q'.bufSize q'.buffer (q'.readPos + packLenSize) len >>= _)
      rw [hload]
      rcases load q'.bufSize q'.buffer (q'.readPos + packLenSize) len with e | packet <;> rfl

theorem popPacket_keeps (h : q.popPacket = .ok (q', p)) :
    q.readBytes < q.writeBytes ∧ q'.buffer = q.buffer := by
  unfold popPacket at h
  split_ifs at h with hempty
  obtain ⟨⟨q₁, len⟩, hseek, h⟩ := bind_eq_ok.1 h
  obtain ⟨packet, -, h⟩ := bind_eq_ok.1 h
  cases h
  exact ⟨not_le.1 hempty, (seek_keeps hseek).1⟩

theorem unread_of_pop (hb : ∀ i, q.Unread i → b i = q.buffer i) (h : q.popPacket = .ok (q', p)) :
    ∀ i, q'.Unread i → b i = q'.buffer i := by
  intro i hi
  rw [(popPacket_keeps h).2]
  exact hb i (.later h hi)

/-- Only the bytes still to be read decide what is read. -/
theorem pops_upon (hb : ∀ i, q.Unread i → b i = q.buffer i) (n : ℕ) :
    (q.upon b).pops n = q.pops n := by
  induction n generalizing q with
  | zero => rfl
  | succ n ih =>
    unfold pops
    rw [popPacket_upon hb]
    rcases hpop : q.popPacket with e | ⟨q', p⟩
    · rfl
    · change (do let packets ← (q'.upon b).pops n; _) = _
      rw [ih (unread_of_pop hb hpop)]
      rfl

/-- And which bytes these are. -/
theorem unread_upon (hb : ∀ i, q.Unread i → b i = q.buffer i) {i : ℕ}
    (h : (q.upon b).Unread i) : q.Unread i := by
  generalize hq : q.upon b = q₁ at h
  induction h generalizing q with
  | next hne hreads =>
    subst hq
    have hne' : q.readBytes < q.writeBytes := hne
    have hreads' : ∀ i, q.PopReads i → b i = q.buffer i := fun i hi => hb i (.next hne' hi)
    refine .next hne' ?_
    cases hreads with
    | length h1 h2 => exact .length h1 h2
    | wrapped hmark hi =>
      refine .wrapped ?_ hi
      rw [← hmark]
      exact (load16_congr (hreads' _ (.length le_rfl (by omega)))
        (hreads' _ (.length (by omega) (by omega)))).symm
    | packet hseek h1 h2 =>
      rw [seek_upon hreads'] at hseek
      rcases hseek' : q.seek with e | ⟨q', len⟩
      · rw [hseek'] at hseek
        cases hseek
      · rw [hseek'] at hseek
        cases hseek
        exact .packet hseek' h1 h2
  | later hpop _ ih =>
    subst hq
    rw [popPacket_upon hb] at hpop
    rcases hpop' : q.popPacket with e | ⟨q', p⟩
    · rw [hpop'] at hpop
      cases hpop
    · rw [hpop'] at hpop
      cases hpop
      exact .later hpop' (ih (unread_of_pop hb hpop') rfl)

end FifoQueue

namespace Receiver

open FifoQueue

variable {r r' : Receiver} {len N : ℕ} {b buffer : Bytes} {accepted : Bool}

/-! ## Calls that leave no trace -/

/-- What a producer and a consumer keep to: `END_FLAG` is no length, and an empty queue is not
popped. -/
def Legal (r : Receiver) : Call → Prop
  | .update len => 1 ≤ len ∧ len < maxPackSize
  | .produce packet => Sized packet
  | .pop => r.queue.readBytes < r.queue.writeBytes
  | .peek => False

/-- Each byte of the length that is stored is not still to be read, or it is there already. -/
def SparesSlot (r : Receiver) (len : ℕ) : Prop :=
  ∀ i, r.queue.Unread i → (r.stored len).queue.buffer i = r.queue.buffer i

theorem sparesSlot_of_at (h : r.queue.buffer.At r.slot (le16 (.ofNat 16 len))) :
    r.SparesSlot len :=
  fun i _ => congrFun h.write_self i

/-- A rejected call spares what waits to be read. -/
def Spares (r : Receiver) : Call → Prop
  | .update len => r.queue.Overflows len → r.SparesSlot len
  | .produce packet => r.queue.Overflows packet.length → r.SparesSlot packet.length
  | .pop | .peek => True

/-- The producer stands where it stood, the counters are the same, and so is what pops return. -/
structure LooksLike (r' r : Receiver) : Prop where
  recvPos : r'.recvPos = r.recvPos
  readBytes : r'.queue.readBytes = r.queue.readBytes
  writeBytes : r'.queue.writeBytes = r.queue.writeBytes
  pops : ∀ n, r'.queue.pops n = r.queue.pops n

theorem looksLike_stored (h : r.SparesSlot len) : (r.stored len).LooksLike r :=
  ⟨rfl, rfl, rfl, pops_upon h⟩

/-! ## Runs without the rejected calls -/

abbrev History := List (Call × Reply)

/-- The calls that were not rejected. -/
def kept (h : History) : History := h.filter fun e => e.2 ≠ .pushed false

def upon (r : Receiver) (b : Bytes) : Receiver := { r with queue := r.queue.upon b }

/-- A buffer that differs from the receiver's at most where the next length is stored, and in
nothing that is still to be read. -/
structure Shadows (b : Bytes) (r : Receiver) : Prop where
  outside : ∀ i, i < r.slot ∨ r.slot + 2 ≤ i → b i = r.queue.buffer i
  unread : ∀ i, r.queue.Unread i → b i = r.queue.buffer i

theorem shadows_self (r : Receiver) : Shadows r.queue.buffer r := ⟨fun _ _ => rfl, fun _ _ => rfl⟩

theorem Shadows.looksLike (h : Shadows b r) : (r.upon b).LooksLike r :=
  ⟨rfl, rfl, rfl, pops_upon h.unread⟩

/-- A rejected call is not seen over the other buffer. -/
theorem Shadows.rejected (h : Shadows b r) (hs : r.SparesSlot len) : Shadows b (r.stored len) := by
  refine ⟨fun i hi => ?_, fun i hi => ?_⟩
  · rw [h.outside i hi]
    exact (write_of_outside _ (by rwa [length_le16])).symm
  · have hunread : r.queue.Unread i := unread_upon hs hi
    rw [h.unread i hunread]
    exact (hs i hunread).symm

/-- An accepted one stores its length over all the difference there may be. -/
theorem stored_upon (h : ∀ i, i < r.slot ∨ r.slot + 2 ≤ i → b i = r.queue.buffer i) (len : ℕ) :
    (r.upon b).stored len = r.stored len := by
  have hbuffer : b.write r.slot (le16 (.ofNat 16 len)) =
      r.queue.buffer.write r.slot (le16 (.ofNat 16 len)) :=
    write_congr fun j hj => h j (by rwa [length_le16] at hj)
  change ({ r with queue := r.queue.upon (b.write r.slot (le16 (.ofNat 16 len))) } : Receiver) = _
  rw [hbuffer]
  rfl

theorem step_update (h : Shadows b r) (hs : r.Spares (.update len))
    (hstep : r.update len = .ok (r', accepted)) : ∃ b', Shadows b' r' ∧
      (accepted = false ∧ r.upon b = r'.upon b' ∨
        accepted = true ∧ (r.upon b).update len = .ok (r'.upon b', true)) := by
  obtain ⟨hlen, hin, ⟨hov, rfl, rfl⟩ | ⟨hov, rfl, rfl⟩⟩ := update_returns hstep
  · exact ⟨b, h.rejected (hs hov), .inl ⟨rfl, rfl⟩⟩
  · refine ⟨_, shadows_self _, .inr ⟨rfl, ?_⟩⟩
    have hupdate := update_eq (r := r.upon b) hlen hin
    rwa [if_neg (show ¬ (r.upon b).queue.Overflows len from hov), stored_upon h.outside] at hupdate

theorem step_produce (h : Shadows b r) {packet : List Byte} (hs : r.Spares (.produce packet))
    (hstep : r.produce packet = .ok (r', accepted)) : ∃ b', Shadows b' r' ∧
      (accepted = false ∧ r.upon b = r'.upon b' ∨
        accepted = true ∧ (r.upon b).produce packet = .ok (r'.upon b', true)) := by
  by_cases hov : r.queue.Overflows packet.length
  · rw [produce_of_overflows hov] at hstep
    rw [produce_of_overflows (show (r.upon b).queue.Overflows packet.length from hov)]
    exact step_update h hs hstep
  · have hov' : ¬ (r.upon b).queue.Overflows packet.length := hov
    rw [produce, if_neg hov] at hstep
    obtain ⟨_, hput, hstep⟩ := bind_eq_ok.1 hstep
    obtain ⟨hfit, rfl⟩ := put_received.1 hput
    obtain ⟨hlen, -, ⟨hov₁, -, -⟩ | ⟨-, rfl, rfl⟩⟩ := update_returns hstep
    · exact absurd hov₁ hov
    · refine ⟨_, shadows_self _, .inr ⟨rfl, ?_⟩⟩
      have houtside : ∀ i, i < r.slot ∨ r.slot + 2 ≤ i →
          b.write r.recvPos packet i = (r.received packet).queue.buffer i := by
        intro i hi
        simp only [received, Bytes.write]
        split_ifs
        · rfl
        · exact h.outside i hi
      have hstored : ((r.upon b).received packet).stored packet.length =
          (r.received packet).stored packet.length :=
        stored_upon (r := r.received packet) houtside packet.length
      have hproduce := produce_eq (r := r.upon b) hlen hov' hfit
      rwa [hstored] at hproduce

/-- A step is made over the other buffer too, unless it is a rejected call, which changes nothing
there. -/
theorem Shadows.step (h : Shadows b r) {c : Call} {o : Reply} (hl : r.Legal c) (hs : r.Spares c)
    (hstep : r.step c = .ok (r', o)) : ∃ b', Shadows b' r' ∧
      (o = .pushed false ∧ r.upon b = r'.upon b' ∨
        o ≠ .pushed false ∧ (r.upon b).step c = .ok (r'.upon b', o)) := by
  cases c with
  | update len =>
    obtain ⟨⟨_, accepted⟩, hupdate, hstep⟩ := bind_eq_ok.1 hstep
    cases hstep
    obtain ⟨b', hb', ⟨rfl, hover⟩ | ⟨rfl, hupdate'⟩⟩ := step_update h hs hupdate
    · exact ⟨b', hb', .inl ⟨rfl, hover⟩⟩
    · refine ⟨b', hb', .inr ⟨by simp, ?_⟩⟩
      rw [Receiver.step, hupdate']
      rfl
  | produce packet =>
    obtain ⟨⟨_, accepted⟩, hproduce, hstep⟩ := bind_eq_ok.1 hstep
    cases hstep
    obtain ⟨b', hb', ⟨rfl, hover⟩ | ⟨rfl, hproduce'⟩⟩ := step_produce h hs hproduce
    · exact ⟨b', hb', .inl ⟨rfl, hover⟩⟩
    · refine ⟨b', hb', .inr ⟨by simp, ?_⟩⟩
      rw [Receiver.step, hproduce']
      rfl
  | pop =>
    obtain ⟨⟨q', packet⟩, hpop, hstep⟩ := bind_eq_ok.1 hstep
    cases hstep
    refine ⟨b, ⟨fun i hi => ?_, unread_of_pop h.unread hpop⟩, .inr ⟨by simp, ?_⟩⟩
    · exact (h.outside i hi).trans (congrFun (popPacket_keeps hpop).2 i).symm
    · have hover : (r.upon b).queue.popPacket = _ := popPacket_upon h.unread
      rw [hpop] at hover
      rw [Receiver.step, hover]
      rfl
  | peek => exact absurd hl id

theorem legal_upon (b : Bytes) (r : Receiver) (c : Call) : (r.upon b).Legal c ↔ r.Legal c := by
  cases c <;> exact Iff.rfl

/-- In a run whose rejected calls spare what waits to be read, a rejected call leaves the queue as
it was; and the run without its rejected calls is a run to a queue that looks like its last. -/
theorem reaches_asItWas {h : History}
    (hr : Run.Reaches step (fun r c => r.Legal c ∧ r.Spares c) (init N buffer) h r) :
    (∀ len r', r.Legal (.update len) → r.Spares (.update len) →
      r.update len = .ok (r', false) → r'.LooksLike r) ∧
      ∃ r₁, Run.Reaches step Legal (init N buffer) (kept h) r₁ ∧ r₁.LooksLike r := by
  constructor
  · intro len r' _ hs hupdate
    obtain ⟨-, -, ⟨hov, -, rfl⟩ | ⟨-, hacc, -⟩⟩ := update_returns hupdate
    · exact looksLike_stored (hs hov)
    · cases hacc
  · obtain ⟨b, hb, hr'⟩ : ∃ b, Shadows b r ∧
        Run.Reaches step Legal (init N buffer) (kept h) (r.upon b) := by
      refine hr.invariant (I := fun h r => ∃ b, Shadows b r ∧
        Run.Reaches step Legal (init N buffer) (kept h) (r.upon b)) ⟨_, shadows_self _, .start⟩ ?_
      rintro h r c r' o ⟨b, hb, hr'⟩ ⟨hl, hs⟩ hstep
      obtain ⟨b', hb', ⟨rfl, hover⟩ | ⟨hne, hstep'⟩⟩ := hb.step hl hs hstep
      · refine ⟨b', hb', ?_⟩
        rw [kept, List.filter_append, List.filter_cons_of_neg (by simp), List.filter_nil,
          List.append_nil, ← hover]
        exact hr'
      · refine ⟨b', hb', ?_⟩
        rw [kept, List.filter_append, List.filter_cons_of_pos (by simpa using hne)]
        exact hr'.next ((legal_upon b r c).2 hl) hstep'
    exact ⟨_, hr', hb.looksLike⟩

/-- The second call stores the length that is there. -/
theorem reaches_asItWas_again : ∃ r r₁, Run.Reaches step Legal (init 4 fun _ => 0)
    [(.update 1, .pushed true)] r₁ ∧ r₁.LooksLike r ∧
      ∀ len r', r.Legal (.update len) → r.Spares (.update len) →
        r.update len = .ok (r', false) → r'.LooksLike r := by
  have hlegal : ∀ r : Receiver, r.Legal (.update 1) := fun _ => ⟨by decide, by decide⟩
  obtain ⟨r, r', hr, hat, hupdate⟩ : ∃ r r' : Receiver,
      Run.Reaches step (fun r c => r.Legal c ∧ r.Spares c) (init 4 fun _ => 0)
        [(.update 1, .pushed true)] r ∧ r.queue.buffer.At r.slot (le16 (.ofNat 16 1)) ∧
          r.step (.update 1) = .ok (r', .pushed false) := by
    refine ⟨(((init 4 fun _ => 0).stored 1).turn 1).took 1, _, .next .start ⟨hlegal _, ?_⟩ rfl,
      rfl, rfl⟩
    exact fun hov => absurd hov (by decide)
  have hr := hr.next ⟨hlegal r, fun _ => sparesSlot_of_at hat⟩ hupdate
  obtain ⟨hcalls, r₁, hr₁, hlike⟩ := reaches_asItWas hr
  exact ⟨r', r₁, hr₁, hlike, hcalls⟩

/-- In a buffer of four bytes the length of a rejected packet is stored over that of the packet that
waits, which then comes out with a byte more. -/
theorem rejected_overwrites : ¬ ∀ N buffer h r, Run.Reaches step Legal (init N buffer) h r →
    ∀ len r', r.Legal (.update len) → r.update len = .ok (r', false) → r'.LooksLike r := by
  intro hall
  obtain ⟨r, r', hr, hupdate, hpops, hpops'⟩ : ∃ r r' : Receiver,
      Run.Reaches step Legal (init 4 fun _ => 0) [(.update 1, .pushed true)] r ∧
        r.update 2 = .ok (r', false) ∧ r.queue.pops 1 = .ok [[0]] ∧
          r'.queue.pops 1 = .ok [[0, 0]] :=
    ⟨_, _, .next .start ⟨by decide, by decide⟩ rfl, rfl, rfl, rfl⟩
  have hlike := (hall _ _ _ _ hr 2 r' ⟨by decide, by decide⟩ hupdate).pops 1
  rw [hpops, hpops'] at hlike
  cases hlike

end Receiver

end ShortMessage
