import ShortMessage.LockedQueue
import ShortMessage.Proofs.Fifo

/-!
# The packet queue is atomic and wakes its consumers

Each call that takes the lock does what it does by itself, so the calls that have returned are a run
of the queue (`reaches_calls`). A producer notifies once for each packet it lays: no consumer sleeps
while more packets wait than consumers are awake, and when the threads come to a stop with a
consumer asleep every packet that was accepted has been returned (`reaches_woken`).
-/

namespace ShortMessage

open CMemory

namespace FifoQueue

variable {q q' : FifoQueue} {N : ℕ} {buffer : Bytes} {ps ps' : List (List Byte)}

/-! ## The bodies -/

theorem map_eq_bind {α β : Type} (x : Except Fault α) (f : α → β) :
    x.map f = x >>= fun a => .ok (f a) := by
  cases x <;> rfl

theorem pushBody_exec (packet : List Byte) (q : FifoQueue) : (pushBody packet).exec q =
    (q.pushPacket packet).map fun r => (r.1, r.2, r.2.toNat) := by
  rw [map_eq_bind]
  by_cases hlen : packet.length < maxPackSize
  · by_cases hov : q.Overflows packet.length
    · simp [pushBody, pushPacket, hlen, hov]
    by_cases hwrap : q.bufSize < q.writePos + packLenSize
    · simp [pushBody, pushPacket, hlen, hov, hwrap, -bind_pure_comp]
    by_cases hmark : q.bufSize < q.writePos + packet.length + 2
    · simp [pushBody, pushPacket, hlen, hov, hwrap, hmark, -bind_pure_comp]
    · simp [pushBody, pushPacket, hlen, hov, hwrap, hmark, -bind_pure_comp]
  · simp [pushBody, pushPacket, hlen]
    rfl

theorem popBody_exec (hq : q.readBytes < q.writeBytes) : popBody.exec q =
    q.popPacket.map fun r => (r.1, r.2, 0) := by
  rw [map_eq_bind]
  by_cases hwrap : q.bufSize < q.readPos + packLenSize
  · simp only [popBody, popPacket, seek, hwrap, Nat.not_le.2 hq, Body.exec_read_bind, ok_bind,
      decide_true, if_true, if_false, Body.exec_write_bind, bind_assoc]
    refine bind_congr fun len => ?_
    by_cases hlen : len = endFlag <;> simp [hlen, -bind_pure_comp]
  · simp only [popBody, popPacket, seek, hwrap, Nat.not_le.2 hq, Body.exec_read_bind, ok_bind,
      decide_false, Bool.false_eq_true, if_false, bind_assoc]
    refine bind_congr fun len => ?_
    by_cases hlen : len = endFlag <;> simp [hlen, -bind_pure_comp]

/-- The notifications of a call. -/
def notified : Call × Reply → ℕ
  | (.push _, .pushed accepted) => accepted.toNat
  | _ => 0

theorem body_exec {c : Locked} (hg : guard c q = true) :
    (body c).exec q = (q.step c.call).map fun r => (r.1, r.2, notified (c.call, r.2)) := by
  cases c with
  | push packet =>
    rw [body, Body.exec_bind, pushBody_exec, Locked.call, step, map_eq_bind, map_eq_bind]
    rcases q.pushPacket packet with e | ⟨q', accepted⟩
    · rfl
    · show Except.ok (q', Reply.pushed accepted, 0 + accepted.toNat) = _
      rw [Nat.zero_add]
      rfl
  | pop =>
    rw [body, Body.exec_bind, popBody_exec (of_decide_eq_true hg), Locked.call, step, map_eq_bind,
      map_eq_bind]
    rcases q.popPacket with e | ⟨q', packet⟩ <;> rfl

theorem body_exec_eq_ok {c : Locked} {r : Reply} {k : ℕ} (hg : guard c q = true) :
    (body c).exec q = .ok (q', r, k) ↔
      q.step c.call = .ok (q', r) ∧ k = notified (c.call, r) := by
  rw [body_exec hg]
  rcases q.step c.call with e | ⟨q₁, r₁⟩
  · exact ⟨nofun, fun h => by cases h.1⟩
  · constructor
    · intro h
      cases h
      exact ⟨rfl, rfl⟩
    · rintro ⟨h, rfl⟩
      cases h
      rfl

theorem alone_eq_ok {c : Locked} {r : Reply} (h : Mutex.alone guard body q c = .ok (q', r)) :
    q.step c.call = .ok (q', r) := by
  unfold Mutex.alone at h
  split_ifs at h with hg
  split at h
  next hexec =>
    cases h
    exact ((body_exec_eq_ok hg).1 hexec).1
  next => cases h

/-! ## Packets that wait -/

theorem Pending.unique : ∀ {ps ps' : List (List Byte)} {q : FifoQueue}, q.Pending ps →
    q.Pending ps' → ps = ps'
  | [], _, q, h, h' => by
    have hbytes := h.bytes
    exact (h'.eq_nil (by simpa [frames] using hbytes.le)).symm
  | p :: ps, [], q, h, h' => by
    have hbytes := h'.bytes
    cases h.eq_nil (by simpa [frames] using hbytes.le)
  | p :: ps, p' :: ps', q, h, h' => by
    obtain ⟨q₁, hpop, hps⟩ := popPacket_pending h
    obtain ⟨q₂, hpop', hps'⟩ := popPacket_pending h'
    rw [hpop, Except.ok.injEq, Prod.mk.injEq] at hpop'
    obtain ⟨rfl, rfl⟩ := hpop'
    rw [hps.unique hps']

/-- Where a body is entered, its packet is sized and finds room. -/
def Fit (q : FifoQueue) (c : Locked) : Prop := q.Legal c.call ∧ q.Clear c.call

/-- The calls that take a packet. -/
def takes : Locked → Bool
  | .push _ => false
  | .pop => true

theorem guard_eq_false {c : Locked} (h : guard c q = false) :
    c = .pop ∧ q.writeBytes ≤ q.readBytes := by
  cases c with
  | push => cases h
  | pop => exact ⟨rfl, by simpa [guard] using h⟩

theorem length_acceptedBy (c : Locked) (r : Reply) :
    (acceptedBy (c.call, r)).length = notified (c.call, r) := by
  rcases c with packet | _ <;> rcases r with (_ | _) | _ | _ <;> rfl

theorem length_returnedBy {c : Locked} {r : Reply} (h : q.step c.call = .ok (q', r)) :
    (returnedBy (c.call, r)).length = (takes c).toNat := by
  cases c with
  | push =>
    obtain ⟨⟨_, _⟩, -, h⟩ := bind_eq_ok.1 h
    cases h
    rfl
  | pop =>
    obtain ⟨⟨_, _⟩, -, h⟩ := bind_eq_ok.1 h
    cases h
    rfl

theorem tokens : Mutex.Tokens guard body Fit takes fun q n => ∃ ps, q.Pending ps ∧ ps.length = n where
  of_guard c q hg := by rw [(guard_eq_false hg).1]; rfl
  empty := by
    rintro c q _ hg ⟨ps, hps, rfl⟩
    rw [hps.eq_nil (guard_eq_false hg).2]
    rfl
  exec := by
    rintro c q q' r k _ ⟨hl, hc⟩ hg hexec ⟨ps, hps, rfl⟩
    obtain ⟨hstep, rfl⟩ := (body_exec_eq_ok hg).1 hexec
    obtain ⟨q₁, r₁, ps₁, hstep₁, hps₁, heq⟩ := step_pending hps hl hc
    rw [hstep, Except.ok.injEq, Prod.mk.injEq] at hstep₁
    obtain ⟨rfl, rfl⟩ := hstep₁
    have hlen := congrArg List.length heq
    rw [List.length_append, List.length_append, length_acceptedBy, length_returnedBy hstep] at hlen
    exact ⟨_, ⟨ps₁, hps₁, rfl⟩, by omega⟩

/-! ## Runs -/

section Runs

variable {h : List (Mutex.Move Locked × Option (Locked × Reply))}
  {p : Mutex.Threads Locked FifoQueue Fault Reply}

/-- Calls made one after the other are a run of the queue. -/
theorem reaches_alone {Q : FifoQueue → Locked → Prop} {Q' : FifoQueue → Call → Prop}
    (hQ : ∀ q c, Q q c → Q' q c.call)
    (hr : Run.Reaches (Mutex.alone guard body) Q (init N buffer) (Mutex.returned h) q) :
    Run.Reaches step Q' (init N buffer) (calls h) q :=
  hr.map Locked.call (fun _ _ _ _ h => alone_eq_ok h) hQ

/-- However the statements of producers and consumers interleave, one thread is inside at most, and
the calls that have returned, in the order they gave the lock back, are a run of the queue. -/
theorem reaches_calls {P : Mutex.Threads Locked FifoQueue Fault Reply → Mutex.Move Locked → Prop}
    (hr : Run.Reaches (Mutex.step guard body) P ⟨init N buffer, none, []⟩ h p) :
    (∃ q, Run.Reaches step (fun _ _ => True) (init N buffer) (calls h) q ∧
      (p.holder = none → p.shared = q)) ∧
      ∀ (t t' : ℕ) ph ph', p.phases[t]? = some ph → p.phases[t']? = some ph' →
        ph.holds = true → ph'.holds = true → t = t' := by
  obtain ⟨⟨q, hq, hfree⟩, hexclusive⟩ :=
    Mutex.reaches_linear (hr.mono (Q := Mutex.AtTest guard fun _ _ => True)
      fun _ _ _ _ _ _ _ _ => trivial)
  exact ⟨⟨q, reaches_alone (fun _ _ _ => trivial) hq, hfree⟩, hexclusive⟩

/-- The packets accepted are those returned, in their order, and those that wait; consumers awake
are enough for these while any consumer sleeps; and when the threads have come to a stop, a consumer
that has not returned sleeps on an empty queue. -/
structure Woken (h : List (Mutex.Move Locked × Option (Locked × Reply)))
    (p : Mutex.Threads Locked FifoQueue Fault Reply) : Prop where
  enough : ∃ ps, accepted (calls h) = returned (calls h) ++ ps ∧
    (0 < p.phases.countP Mutex.Phase.isWaiting →
      ps.length ≤ p.phases.countP (Mutex.Phase.isAwake takes))
  stopped : Mutex.Quiet guard body p → ∀ (t : ℕ) ph, p.phases[t]? = some ph →
    (∃ c r, ph = .left c r) ∨ ph = .waiting .pop ∧ accepted (calls h) = returned (calls h)

abbrev ReachesFit (N : ℕ) (buffer : Bytes) := Run.Reaches (Mutex.step guard body)
  (Mutex.AtTest guard Fit) ⟨init N buffer, none, []⟩

/-- No notification is lost, and none is missing. -/
theorem reaches_woken (hr : ReachesFit N buffer h p) : Woken h p := by
  obtain ⟨q, j, hk, ha⟩ := Mutex.reaches_awake tokens ⟨0, [], pending_init N buffer, rfl⟩ hr
  obtain ⟨ps, hps, hq⟩ := pending_of_reaches (reaches_alone (fun _ _ h => h) hk.run)
  refine ⟨⟨ps, hps, fun hpos => ?_⟩, fun hquiet t ph ht => ?_⟩
  · obtain ⟨_, ⟨ps', hq', rfl⟩, henough⟩ := ha.enough
    have := henough hpos
    rw [hq.unique hq']
    omega
  · obtain ⟨-, hphases⟩ := hk.quiet hquiet fun c hc hg => by
      obtain ⟨q', r, -, hstep, -⟩ := step_pending hq hc.1 hc.2
      exact ⟨_, (body_exec_eq_ok hg).2 ⟨hstep, rfl⟩⟩
    rcases hphases t ph ht with hleft | ⟨c, rfl⟩
    · exact .inl hleft
    · obtain ⟨ps', hq', hnil⟩ := ha.quiet hphases ht
      have hsleeper := ha.sleepers t c ht
      rw [List.length_eq_zero_iff.1 hnil] at hq'
      rw [hq.unique hq', List.append_nil] at hps
      cases c with
      | push => cases hsleeper
      | pop => exact .inr ⟨rfl, hps⟩

/-! ## A producer wakes a consumer -/

/-- A move that is no test. -/
theorem ReachesFit.free {p' : Mutex.Threads Locked FifoQueue Fault Reply}
    {o : Option (Locked × Reply)} (hr : ReachesFit N buffer h p) (l : Mutex.Move Locked)
    (hl : ∀ t, l ≠ .test t) (hs : Mutex.step guard body p l = .ok (p', o)) :
    ReachesFit N buffer (h ++ [(l, o)]) p' :=
  hr.next (fun t _ heq => absurd heq (hl t)) hs

/-- The consumer finds the queue empty; the producer lays a packet and notifies it. -/
theorem woken_once : ∃ h p, ReachesFit 4 (fun _ => 0) h p ∧
    calls h = [(.push [1], .pushed true)] := by
  have hcall : ReachesFit 4 (fun _ => 0) _ _ := ReachesFit.free .start (.call .pop) nofun rfl
  have hasleep : ReachesFit 4 (fun _ => 0) _ _ := (hcall.free (.enter 0) nofun rfl).next (l := .test 0)
    (by rintro t c ⟨⟩ ⟨⟩ hg; exact absurd hg Bool.false_ne_true) rfl
  have hinside : ReachesFit 4 (fun _ => 0) _ _ :=
    ((hasleep.free (.call (.push [1])) nofun rfl).free (.enter 1) nofun rfl).next (l := .test 1)
      (by rintro t c ⟨⟩ ⟨⟩ -; exact ⟨by decide, by decide⟩) rfl
  have htested := (((hinside.free (.exec 1 0) nofun rfl).free (.exec 1 0) nofun rfl).free
    (.exec 1 0) nofun rfl).free (.exec 1 0) nofun rfl
  have hlaid := ((((htested.free (.exec 1 0) nofun rfl).free (.exec 1 0) nofun rfl).free
    (.exec 1 0) nofun rfl).free (.exec 1 0) nofun rfl).free (.exec 1 0) nofun rfl
  exact ⟨_, _, ((hlaid.free (.exec 1 0) nofun rfl).free (.leave 1) nofun rfl), rfl⟩

theorem reaches_woken_once : ∃ h p, Woken h p ∧ calls h = [(.push [1], .pushed true)] := by
  obtain ⟨h, p, hr, hcalls⟩ := woken_once
  exact ⟨h, p, reaches_woken hr, hcalls⟩

theorem reaches_calls_once : ∃ q, Run.Reaches step (fun _ _ => True) (init 4 fun _ => 0)
    [(.push [1], .pushed true)] q := by
  obtain ⟨h, p, hr, hcalls⟩ := woken_once
  obtain ⟨⟨q, hq, -⟩, -⟩ := reaches_calls hr
  exact ⟨q, hcalls ▸ hq⟩

end Runs

end FifoQueue

end ShortMessage
