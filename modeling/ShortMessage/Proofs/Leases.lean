import ShortMessage.Proofs.Operations

/-!
# Connections in use

What each thread has of the pool is told by the operations it has executed (`Lease.next`), in any
interleaving with the others: it executes its statements on a connection it has taken and not given
back, and the connections out are those of the threads that hold one and those lost by a failed
`INSERT` into `message_cache` (`reaches_accounted`).
-/

namespace ShortMessage

open CMemory Interleaving

/-- What a thread has of the pool: nothing, a connection, or one it will not give back. -/
inductive Lease
  | idle
  | holding
  | leaked
deriving DecidableEq, Repr

namespace Lease

def next (q : Lease) : (c : Operation) → c.Result → Lease
  | .getConnection, true => .holding
  | .close, _ => .idle
  | .insertOfflineMessage _ _, false => .leaked
  | _, _ => q

/-- A connection is taken by a thread that has none, used and closed by one that holds it. -/
structure Permits (q : Lease) (c : Operation) : Prop where
  getConnection : c = .getConnection → q = .idle
  statement : c.IsStatement ∨ c = .close → q = .holding

end Lease

def leases : Monitor Operation Operation.Result where
  State := Lease
  pre := Lease.Permits
  next := Lease.next

/-- What the threads have after a run. -/
def leasesAfter (h : ServerHistory) : List Lease := states leases (fun _ _ => .idle) h

/-- The `INSERT` into `message_cache` threw. -/
def FailedInsert (e : ServerMove × Option (Event Operation Operation.Result)) : Bool :=
  match e.2 with
  | some ⟨.insertOfflineMessage _ _, false⟩ => true
  | _ => false

/-! ## The programs -/

section Programs

theorem permits_statement {c : Operation} (hc : c.IsStatement) : leases.pre .holding c := by
  refine ⟨?_, fun _ => rfl⟩
  rintro rfl
  exact hc.elim

theorem permits_getConnection : leases.pre .idle .getConnection :=
  ⟨fun _ => rfl, by simp [Operation.IsStatement]⟩

theorem permits_close : leases.pre .holding .close := ⟨nofun, fun _ => rfl⟩

theorem permits_fault (q : Lease) (f : Fault) : leases.pre q (.fault f) :=
  ⟨nofun, by simp [Operation.IsStatement]⟩

theorem permits_sendMessage (q : Lease) (message : Option MessageItem) (sent : Sent) :
    leases.pre q (.sendMessage message sent) := ⟨nofun, by simp [Operation.IsStatement]⟩

theorem permits_time (q : Lease) : leases.pre q .time := ⟨nofun, by simp [Operation.IsStatement]⟩

variable {cfg : Config} {head : Ptr} {n : ℕ}

abbrev NotHolding {α : Type} (_ : α) (q : Lease) : Prop := q ≠ .holding

abbrev Holding {α : Type} (_ : α) (q : Lease) : Prop := q = .holding

theorem login_leases (userId : BitVec 32) (sate : Satellite) (response : Response) :
    (Handling.login userId sate response).Obeys leases Holding .holding := by
  refine ⟨permits_statement trivial, fun res => ?_⟩
  cases res
  · exact rfl
  · refine ⟨permits_statement trivial, fun res => ?_⟩
    cases res
    · exact rfl
    · exact ⟨permits_statement trivial, fun _ => rfl⟩

theorem processLogin_leases :
    (Handling.processLogin cfg head).Obeys leases NotHolding .idle := by
  refine Handling.obeys_orFault (permits_fault _) fun _ _ => ?_
  refine Handling.obeys_orFault (permits_fault _) fun sate _ => ?_
  rcases sate with _ | sate
  · exact nofun
  refine Handling.obeys_orFault (permits_fault _) fun _ _ => ⟨permits_getConnection, fun res => ?_⟩
  cases res
  · exact nofun
  · refine (login_leases _ _ _).bind fun _ q hq => ?_
    subst hq
    refine ⟨permits_close, fun _ => Handling.obeys_orFault (permits_fault _) fun _ _ => ?_⟩
    exact ⟨permits_sendMessage _ _ _, fun _ => nofun⟩

theorem processLogout_leases :
    (Handling.processLogout head).Obeys leases NotHolding .idle := by
  refine Handling.obeys_orFault (permits_fault _) fun _ _ => ?_
  refine Handling.obeys_orFault (permits_fault _) fun _ _ => ⟨permits_getConnection, fun res => ?_⟩
  cases res
  · exact nofun
  · refine ⟨permits_statement trivial, fun sates => ⟨permits_statement trivial, fun _ => ?_⟩⟩
    refine ⟨permits_close, fun _ => Handling.obeys_orFault (permits_fault _) fun _ _ => ?_⟩
    exact ⟨permits_sendMessage _ _ _, fun _ => nofun⟩

theorem processMobileRequest_leases :
    (Handling.processMobileRequest cfg head).Obeys leases NotHolding .idle := by
  refine Handling.obeys_orFault (permits_fault _) fun _ _ => ?_
  refine Handling.obeys_orFault (permits_fault _) fun sate _ => ?_
  rcases sate with _ | sate
  · exact nofun
  refine Handling.obeys_orFault (permits_fault _) fun _ _ => ⟨permits_getConnection, fun res => ?_⟩
  cases res
  · exact nofun
  · refine ⟨permits_statement trivial, fun _ => ⟨permits_close, fun _ => ?_⟩⟩
    refine Handling.obeys_orFault (permits_fault _) fun _ _ => ?_
    exact ⟨permits_sendMessage _ _ _, fun _ => nofun⟩

/-- A send does not change what the thread has. -/
theorem sendTo_leases {q : Lease} (message : Option MessageItem) (userId : BitVec 32)
    (sates : List SateParam) (level : ℤ) (str : Except Fault (List Byte)) :
    (Handling.sendTo message userId sates level str).Obeys leases (fun _ q' => q' = q) q := by
  unfold Handling.sendTo
  split_ifs
  · exact rfl
  · refine Handling.obeys_orFault (permits_fault _) fun _ _ => ?_
    exact ⟨permits_sendMessage _ _ _, fun _ => rfl⟩

theorem processSimpleMessage_leases :
    (Handling.processSimpleMessage n head).Obeys leases NotHolding .idle := by
  refine Handling.obeys_orFault (permits_fault _) fun _ _ => ?_
  refine Handling.obeys_orFault (permits_fault _) fun _ _ => ⟨permits_getConnection, fun res => ?_⟩
  cases res
  · exact nofun
  refine ⟨permits_statement trivial, fun res => ?_⟩
  cases res
  · exact ⟨permits_close, fun _ => nofun⟩
  · refine ⟨permits_statement trivial, fun sates => ⟨permits_close, fun _ => ?_⟩⟩
    refine (sendTo_leases _ _ _ _ _).mono fun _ q hq => ?_
    subst hq
    exact nofun

/-- The one handler that can end with its connection out. -/
theorem processCompleteMessage_leases :
    (Handling.processCompleteMessage n head).Obeys leases NotHolding .idle := by
  refine Handling.obeys_orFault (permits_fault _) fun _ _ => ?_
  refine Handling.obeys_orFault (permits_fault _) fun _ _ => ⟨permits_getConnection, fun res => ?_⟩
  cases res
  · exact nofun
  refine ⟨permits_statement trivial, fun res => ?_⟩
  cases res
  · exact nofun
  · refine ⟨permits_statement trivial, fun _ => ⟨permits_statement trivial, fun _ => ?_⟩⟩
    refine ⟨permits_close, fun _ => Handling.obeys_orFault (permits_fault _) fun _ _ => ?_⟩
    refine (sendTo_leases _ _ _ _ _).bind fun _ q hq => ?_
    refine (sendTo_leases _ _ _ _ _).mono fun _ q' hq' => ?_
    subst hq hq'
    exact nofun

theorem processReceipt_leases :
    (Handling.processReceipt head).Obeys leases NotHolding .idle := by
  refine Handling.obeys_orFault (permits_fault _) fun _ _ => ?_
  refine Handling.obeys_orFault (permits_fault _) fun _ _ => ?_
  refine Handling.obeys_orFault (permits_fault _) fun _ _ => ?_
  split_ifs
  · exact nofun
  refine Handling.obeys_orFault (permits_fault _) fun _ _ => ⟨permits_getConnection, fun res => ?_⟩
  cases res
  · exact ⟨permits_fault _ _, nofun⟩
  · refine Program.obeys_op_bind.2 ⟨permits_statement trivial, fun ⟨res, msg, recvTime⟩ => ?_⟩
    dsimp only
    split_ifs
    · refine ⟨permits_statement trivial, fun _ => ⟨permits_statement trivial, fun _ => ?_⟩⟩
      exact ⟨permits_close, fun _ => nofun⟩
    · exact ⟨permits_close, fun _ => nofun⟩

theorem accessToLogic_leases (bytes : List Byte) :
    (Handling.accessToLogic cfg n bytes).Obeys leases NotHolding .idle := by
  unfold Handling.accessToLogic
  split_ifs
  · exact nofun
  refine Handling.obeys_orFault (permits_fault _) fun b _ => ?_
  rcases SignalType.ofByte b with _ | t
  · exact nofun
  · cases t with
    | login => exact processLogin_leases
    | logout => exact processLogout_leases
    | mobileManagerRequest => exact processMobileRequest_leases
    | simpleMessage => exact processSimpleMessage_leases
    | completeMessage => exact processCompleteMessage_leases
    | receipte => exact processReceipt_leases
    | forwardNoackMessage | backwardNoackMessage | inquireMessageRequest => exact nofun

theorem retryLoop_leases (interval now : ℤ) : ∀ rows : List CacheRow,
    (Handling.retryLoop interval now rows).Obeys leases Holding .holding
  | [] => rfl
  | r :: rows => by
    refine ⟨permits_statement trivial, fun res => ?_⟩
    cases res
    · exact rfl
    · exact (retryLoop_leases interval now rows).bind fun _ _ hq => hq

theorem getAllOfflineMessage_leases (interval : ℤ) :
    (Handling.getAllOfflineMessage interval).Obeys leases Holding .holding :=
  ⟨permits_time _, fun _ => ⟨permits_statement trivial, retryLoop_leases _ _⟩⟩

theorem resendLoop_leases : ∀ messages : List MessageItem,
    (Handling.resendLoop messages).Obeys leases Holding .holding
  | [] => rfl
  | message :: messages => by
    refine ⟨permits_statement trivial, fun sates => (sendTo_leases _ _ _ _ _).bind ?_⟩
    rintro _ q rfl
    exact resendLoop_leases messages

theorem qosPass_leases : (Handling.qosPass cfg).Obeys leases NotHolding .idle := by
  refine Program.obeys_op_bind.2 ⟨permits_getConnection, fun res => ?_⟩
  cases res
  · exact ⟨permits_fault _ _, nofun⟩
  · refine (getAllOfflineMessage_leases _).bind ?_
    rintro messages q rfl
    refine (resendLoop_leases messages).bind ?_
    rintro _ q rfl
    exact ⟨permits_close, fun _ => nofun⟩

theorem handling_leases : ∀ input : Input,
    (handling cfg n input).Obeys leases NotHolding .idle
  | .request bytes => (accessToLogic_leases bytes).bind fun _ _ hq => hq
  | .pass => qosPass_leases

end Programs

/-! ## Runs -/

section Runs

variable {cfg : Config} {maxSize : ℕ} {w : World} {s s' : Shared}

def Lease.isOut (q : Lease) : Bool := q ≠ .idle

/-- A thread's operation takes as many connections as it makes the thread have. -/
theorem outAfter_add {q : Lease} {c : Operation} {b : c.Result} (hq : q.Permits c)
    {k : ℕ} (hk : q.isOut → 0 < k) :
    outAfter c b k + q.isOut.toNat = k + (q.next c b).isOut.toNat := by
  cases c with
  | getConnection =>
    rw [hq.getConnection rfl]
    cases b <;> rfl
  | close =>
    rw [hq.statement (.inr rfl)] at hk ⊢
    have hpos : 0 < k := hk rfl
    exact Nat.sub_add_cancel hpos
  | insertOfflineMessage =>
    rw [hq.statement (.inl trivial)]
    cases b <;> rfl
  | _ => rfl

/-- The `INSERT`s into `message_cache` that threw are the connections lost. -/
theorem next_leaked {q : Lease} {c : Operation} {b : c.Result} (hq : q.Permits c) {t : ℕ}
    {w : World} :
    (decide (q.next c b = .leaked)).toNat = (decide (q = .leaked)).toNat +
      (FailedInsert (.run t w, some ⟨c, b⟩)).toNat := by
  cases c with
  | insertOfflineMessage =>
    rw [hq.statement (.inl trivial)]
    cases b <;> rfl
  | close =>
    rw [hq.statement (.inr rfl)]
    rfl
  | getConnection =>
    rw [hq.getConnection rfl]
    cases b <;> rfl
  | _ => rfl

/-- The connections out are those the threads have, and no more than the pool has. -/
structure Leased (maxSize : ℕ) (h : ServerHistory) (qs : List Lease) (s : Shared) : Prop where
  out : s.checkedOut = qs.countP (·.isOut)
  lost : qs.countP (· = .leaked) = h.countP FailedInsert
  bounded : s.checkedOut ≤ maxSize

theorem Leased.spawn {h : ServerHistory} {qs : List Lease} (hk : Leased maxSize h qs s)
    (job : Input) : Leased maxSize (h ++ [(.spawn job, none)]) (qs ++ [.idle]) s := by
  refine ⟨?_, ?_, hk.bounded⟩
  · rw [List.countP_append, hk.out]
    rfl
  · rw [List.countP_append, List.countP_append, hk.lost]
    rfl

theorem Leased.run {h : ServerHistory} {qs : List Lease} {t : ℕ} {q : Lease} {c : Operation}
    {b : c.Result} (hk : Leased maxSize h qs s) (hq : qs[t]? = some q) (hpre : q.Permits c)
    (hc : handle cfg maxSize w s c = .ok (s', b)) :
    Leased maxSize (h ++ [(.run t w, some ⟨c, b⟩)]) (qs.set t (q.next c b)) s' := by
  have hmem : q ∈ qs := List.mem_of_getElem? hq
  refine ⟨?_, ?_, ?_⟩
  · have hpos : q.isOut → 0 < s.checkedOut := fun hout => by
      rw [hk.out]
      exact List.countP_pos_iff.2 ⟨q, hmem, hout⟩
    have hcount := countP_set_add (·.isOut) (q.next c b) hq
    have hadd := outAfter_add (b := b) hpre hpos
    rw [handle_checkedOut hc]
    rw [← hk.out] at hcount
    omega
  · have hcount := countP_set_add (· = .leaked) (q.next c b) hq
    have hnext := next_leaked (b := b) hpre (t := t) (w := w)
    rw [List.countP_append, List.countP_singleton, ← hk.lost]
    have hnat (x : Bool) : (if x = true then 1 else 0) = x.toNat := by cases x <;> rfl
    rw [hnat]
    omega
  · rw [handle_checkedOut hc]
    have hle := hk.bounded
    cases c with
    | getConnection =>
      obtain ⟨hlt, rfl⟩ := handle_getConnection hc
      exact hlt
    | close => exact (Nat.sub_le _ _).trans hle
    | _ => exact hle

variable {P : ServerThreads → ServerMove → Prop} {sateCover : List SateRow} {userInfo : List ℤ}
  {h : ServerHistory} {p : ServerThreads}

theorem reaches_leased (hr : Run.Reaches (ServerThreads.step cfg maxSize) P
    (ServerThreads.start sateCover userInfo) h p) :
    Leased maxSize h (leasesAfter h) p.shared ∧
      Obeyed leases (fun _ => NotHolding) p.threads (leasesAfter h) := by
  refine reaches_obeyed (fun _ input => handling_leases input) ⟨rfl, rfl, Nat.zero_le _⟩ ?_ ?_ hr
  · exact fun h qs p job hk _ _ _ => hk.spawn job
  · intro h qs p t w c s b q hk hq hpre _ hc
    exact hk.run hq hpre hc

theorem countP_isOut (qs : List Lease) :
    qs.countP (·.isOut) = qs.countP (· = .holding) + qs.countP (· = .leaked) := by
  induction qs with
  | nil => rfl
  | cons q qs ih =>
    rw [List.countP_cons, List.countP_cons, List.countP_cons, ih]
    cases q <;> simp [Lease.isOut] <;> omega

/-- The connections out are held, or were lost with an `INSERT` that threw. -/
theorem Leased.out_eq {h : ServerHistory} {qs : List Lease} (hk : Leased maxSize h qs s) :
    s.checkedOut = qs.countP (· = .holding) + h.countP FailedInsert := by
  rw [hk.out, countP_isOut, hk.lost]

/-- What becomes of the connections of the pool in a run. -/
structure Accounted (maxSize : ℕ) (h : ServerHistory) (p : ServerThreads) : Prop where
  out : p.shared.checkedOut = (leasesAfter h).countP (· = .holding) + h.countP FailedInsert
  bounded : p.shared.checkedOut ≤ maxSize
  executed : ∀ h₁ (t : ℕ) w c b h₂, h = h₁ ++ (.run t w, some ⟨c, b⟩) :: h₂ →
    c.IsStatement ∨ c = .close → (leasesAfter h₁)[t]? = some .holding
  ended : ∀ (t : ℕ) job handed, p.threads[t]? = some ⟨job, .ret handed⟩ →
    (leasesAfter h)[t]? = some .idle ∨ (leasesAfter h)[t]? = some .leaked

/-- In every interleaving a statement is executed on a connection that its thread has taken and not
given back, and the connections out are those of threads in the middle of their work and one for
each failed `INSERT` of a complete message. -/
theorem reaches_accounted (hr : Run.Reaches (ServerThreads.step cfg maxSize) P
    (ServerThreads.start sateCover userInfo) h p) : Accounted maxSize h p := by
  obtain ⟨hk, hobeyed⟩ := reaches_leased hr
  refine ⟨hk.out_eq, hk.bounded, ?_, ?_⟩
  · intro h₁ t w c b h₂ hh hc
    obtain ⟨q, hq, hpre⟩ := reaches_permitted (fun _ input => handling_leases input) hr hh
    rw [← hpre.statement hc]
    exact hq
  · intro t job handed ht
    obtain ⟨q, hq, hne⟩ : ∃ q : Lease, (leasesAfter h)[t]? = some q ∧ q ≠ .holding :=
      hobeyed.get ht
    rw [hq]
    cases q with
    | idle => exact .inl rfl
    | holding => exact absurd rfl hne
    | leaked => exact .inr rfl

end Runs

end ShortMessage
