import ShortMessage.Proofs.Fifo

/-!
# What the queue accesses

`PopPacket` trusts the length it finds. Zero-length packets are admitted, and `END_FLAG` is their
length; a packet may also be laid over a length that waits to be read. When every packet accepted
has a byte and finds room (`Spared`), all accesses stay in the buffer and the counters tell no more
bytes than it has.
-/

namespace ShortMessage

open CMemory Bytes

namespace FifoQueue

variable {q q' : FifoQueue} {ps : List (List Byte)} {c : Call}

/-- What the assertion and the wait of `PopPacket` ask of a call. -/
def Admits (q : FifoQueue) : Call → Prop
  | .push packet => packet.length < maxPackSize
  | .pop => q.readBytes < q.writeBytes
  | .peek => True

instance (q : FifoQueue) : DecidablePred q.Admits
  | .push packet => inferInstanceAs (Decidable (packet.length < maxPackSize))
  | .pop => inferInstanceAs (Decidable (q.readBytes < q.writeBytes))
  | .peek => inferInstanceAs (Decidable True)

/-- A packet that passes the capacity test has a byte and finds room. -/
def Spared (q : FifoQueue) : Call → Prop
  | .push packet => ¬ q.Overflows packet.length → 1 ≤ packet.length ∧ q.Room packet.length
  | .pop | .peek => True

instance (q : FifoQueue) : DecidablePred q.Spared
  | .push packet =>
    inferInstanceAs (Decidable (¬ q.Overflows packet.length →
      1 ≤ packet.length ∧ q.Room packet.length))
  | .pop | .peek => inferInstanceAs (Decidable True)

/-- A call is turned away by the capacity test, or it is one that keeps what waits. -/
theorem admits_cases (ha : q.Admits c) (hs : q.Spared c) :
    q.step c = .ok (q, .pushed false) ∨ q.Legal c ∧ q.Clear c := by
  cases c with
  | push packet =>
    by_cases hov : q.Overflows packet.length
    · left
      rw [step, pushPacket_overflows ha hov]
      rfl
    · obtain ⟨hone, hroom⟩ := hs hov
      exact .inr ⟨⟨hone, ha⟩, fun _ => hroom⟩
  | pop => exact .inr ⟨ha, trivial⟩
  | peek => exact .inr ⟨trivial, trivial⟩

theorem step_admitted (h : q.Pending ps) (ha : q.Admits c) (hs : q.Spared c) :
    ∃ q' r ps', q.step c = .ok (q', r) ∧ q'.Pending ps' := by
  rcases admits_cases ha hs with hov | ⟨hl, hc⟩
  · exact ⟨q, _, ps, hov, h⟩
  · obtain ⟨q', r, ps', hstep, hq', -⟩ := step_pending h hl hc
    exact ⟨q', r, ps', hstep, hq'⟩

/-- What waits fits the buffer. -/
theorem Pending.bytes_le (h : q.Pending ps) : q.writeBytes ≤ q.readBytes + q.bufSize := by
  obtain ⟨-, hh, hb⟩ := h
  cases hh with
  | straight hat hw hN => omega
  | @wrapped front back hf hne hat hw hl =>
    have hend := hf.2.1
    have hlim := q.readLimit_cases
    rw [frames_append, List.length_append] at hb
    -- a reader at the end of the buffer has nothing to read there
    by_cases hfront : front = []
    · subst hfront
      simp only [frames_nil, List.length_nil] at hb hend
      omega
    · have := two_le_frames hfront
      omega

/-- The counters tell no more than the buffer holds. -/
def Accounts (q : FifoQueue) : Prop :=
  q.readBytes ≤ q.writeBytes ∧ q.writeBytes ≤ q.readBytes + q.bufSize

instance : DecidablePred Accounts := fun _ => inferInstanceAs (Decidable (_ ∧ _))

variable {N : ℕ} {buffer : Bytes} {h : History}

/-- In a run whose accepted packets have a byte and find room, the accounts are kept and every
further such call stays in the buffer. -/
theorem reaches_inside (hr : Run.Reaches step (fun q c => q.Admits c ∧ q.Spared c)
    (init N buffer) h q) :
    q.Accounts ∧ ∀ c, q.Admits c → q.Spared c → ∃ r, q.step c = .ok r := by
  have hpending : ∃ ps, q.Pending ps := by
    refine Run.Reaches.invariant (I := fun _ q => ∃ ps, q.Pending ps) ⟨[], pending_init N buffer⟩
      ?_ hr
    rintro h q c q' r ⟨ps, hq⟩ ⟨ha, hs⟩ hstep
    obtain ⟨q'', r', ps', hstep', hq'⟩ := step_admitted hq ha hs
    rw [hstep, Except.ok.injEq, Prod.mk.injEq] at hstep'
    exact ⟨ps', hstep'.1 ▸ hq'⟩
  obtain ⟨ps, hq⟩ := hpending
  refine ⟨⟨?_, hq.bytes_le⟩, fun c ha hs => ?_⟩
  · have := hq.bytes
    omega
  · obtain ⟨q', r, -, hstep, -⟩ := step_admitted hq ha hs
    exact ⟨_, hstep⟩

theorem reaches_inside_once : ∃ q : FifoQueue, q.writeBytes = 3 ∧ q.Accounts ∧
    ∀ c, q.Admits c → q.Spared c → ∃ r, q.step c = .ok r := by
  have hr : ∃ q, Run.Reaches step (fun q c => q.Admits c ∧ q.Spared c) (init 4 fun _ => 0)
      [(.push [1], .pushed true)] q ∧ q.writeBytes = 3 :=
    ⟨_, .next .start ⟨by decide, by decide⟩ rfl, rfl⟩
  obtain ⟨q, hr, hbytes⟩ := hr
  exact ⟨q, hbytes, reaches_inside hr⟩

/-- In a buffer of six bytes the second packet's last byte is laid over the mark that leads to it:
the reader takes it for a length of 255. -/
theorem overlaid_not_inside : ¬ ∀ N buffer h q, Run.Reaches step Admits (init N buffer) h q →
    q.Accounts ∧ ∀ c, q.Admits c → ∃ r, q.step c = .ok r := by
  intro hall
  obtain ⟨q, hr, hadmits, hfault⟩ : ∃ q, Run.Reaches step Admits (init 6 fun _ => 0)
      [(.push [1], .pushed true), (.pop, .popped [1]), (.push [1, 0xFF], .pushed true)] q ∧
        q.Admits .pop ∧ q.step .pop = .error .readPast :=
    ⟨_, .next (.next (.next .start (by decide) rfl) (by decide) rfl) (by decide) rfl,
      by decide, rfl⟩
  obtain ⟨r, hstep⟩ := (hall _ _ _ _ hr).2 .pop hadmits
  rw [hfault] at hstep
  cases hstep

end FifoQueue

end ShortMessage
