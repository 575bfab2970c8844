import ShortMessage.Delivery
import ShortMessage.Proofs.Effects
import ShortMessage.Proofs.Operations

/-!
# What a thread is about

Beyond its connection a thread has a state of its own: whether its message has been cached, what
coverage it has read, and, for a pass, the rows it has yet to put off and the messages it has yet to
send (`Errand`). Each program caches, deletes, retries and sends only what this state permits
(`handling_errands`), whatever the other threads do in between.
-/

namespace ShortMessage

open CMemory Interleaving

/-- `live` is a pass that has not closed its connection, `todo` the rows it selected and has not
put off, `toSend` the messages it was handed out and has not sent. -/
structure Errand where
  number : ℕ
  job : Input
  inserted : Bool
  live : Bool
  todo : List CacheRow
  toSend : List MessageItem
  covers : List (BitVec 32 × List SateParam)

def Input.IsComplete (input : Input) : Prop :=
  ∃ bytes, input = .request bytes ∧
    ControlHead.type (headOf bytes) = .ok SignalType.completeMessage.code

/-- The send is over the satellites that the request itself reports. -/
def Input.Reports (pf : Platform) (input : Input) (sent : Sent) : Prop :=
  ∃ bytes sate fromId, input = .request bytes ∧
    ControlHead.fromId (headOf bytes) = .ok fromId ∧ sent.userId = ntohl fromId ∧
      readSatellite pf (headOf bytes) = .ok (some sate) ∧ sent.sates = sate.satesParam

/-- The request tells where the user is: a login or a mobility request with its report, a logout
with none. -/
def Input.Locates (pf : Platform) (input : Input) (userId : BitVec 32) (sate : Satellite) : Prop :=
  ∃ bytes fromId t, input = .request bytes ∧ ControlHead.fromId (headOf bytes) = .ok fromId ∧
    userId = ntohl fromId ∧ ControlHead.type (headOf bytes) = .ok (SignalType.code t) ∧
      (t ∈ [SignalType.login, .mobileManagerRequest] ∧
          readSatellite pf (headOf bytes) = .ok (some sate) ∨
        t = .logout ∧ sate = ⟨0, 0, []⟩)

namespace Errand

def start (number : ℕ) (job : Input) : Errand :=
  ⟨number, job, false, decide (job = .pass), [], [], []⟩

def next (q : Errand) : (c : Operation) → c.Result → Errand
  | .insertOfflineMessage _ _, true => { q with inserted := true }
  | .getSateCover userId, sates => { q with covers := q.covers ++ [(userId, sates)] }
  | .selectDue _, rows => { q with todo := rows }
  | .updateRetry message _ _, res =>
    { q with todo := if res then q.todo.tail else [], toSend := q.toSend ++ [message] }
  | .sendMessage (some message) _, _ => { q with toSend := q.toSend.erase message }
  | .close, _ => { q with live := false, todo := [] }
  | _, _ => q

/-- A complete message is cached once, under its thread's number, and its handler sends nothing
before; only a receipt deletes, and coverage is only set to what its user reports; a pass puts off
the rows it selected, in their order, and sends the messages of those. What is sent goes over
coverage that was read or reported. -/
def Permits (pf : Platform) (q : Errand) : Operation → Prop
  | .updateSateCover userId sate => q.job.Locates pf userId sate
  | .insertOfflineMessage n head => q.inserted = false ∧ n = q.number ∧ q.job.IsComplete ∧
      ∃ bytes, q.job = .request bytes ∧ head = headOf bytes
  | .deleteOfflineMessage fromId toId frameId =>
    ∃ bytes, q.job = .request bytes ∧ IsReceipt bytes fromId toId frameId
  | .selectDue _ => q.live = true
  | .updateRetry message retryNum _ =>
    ∃ r rows, q.todo = r :: rows ∧ message = r.item ∧ retryNum = r.retryNum + 1
  | .sendMessage none sent => (q.job.IsComplete → q.inserted = true) ∧
      ((sent.userId, sent.sates) ∈ q.covers ∨ q.job.Reports pf sent)
  | .sendMessage (some message) sent => message ∈ q.toSend ∧ sent.userId = message.toId ∧
      messageEncodeItem message = .ok sent.buf ∧ (sent.userId, sent.sates) ∈ q.covers
  | _ => True

/-- A pass that has ended is not live. -/
def Ended (job : Input) (q : Errand) : Prop := job = .pass → q.live = false

end Errand

def errands (pf : Platform) : Monitor Operation Operation.Result where
  State := Errand
  pre := Errand.Permits pf
  next := Errand.next

section Programs

variable {cfg : Config} {pf : Platform} {n : ℕ} {bytes : List Byte} {q : Errand} {α : Type}

abbrev AnyEnd {α : Type} (_ : α) (_ : Errand) : Prop := True

theorem isComplete_iff : (Input.request bytes).IsComplete ↔
    ControlHead.type (headOf bytes) = .ok SignalType.completeMessage.code :=
  ⟨fun ⟨_, heq, h⟩ => by cases heq; exact h, fun h => ⟨bytes, rfl, h⟩⟩

theorem not_isComplete {t : SignalType} (hty : ControlHead.type (headOf bytes) = .ok t.code)
    (ht : t ≠ .completeMessage) : ¬ (Input.request bytes).IsComplete :=
  fun h => ht (type_code_inj hty (isComplete_iff.1 h))

theorem login_errands {userId : BitVec 32} {sate : Satellite} (response : Response)
    (hlocates : q.job.Locates pf userId sate) :
    (Handling.login userId sate response).Obeys (errands pf) (fun _ q' => q' = q) q := by
  refine ⟨trivial, fun res => ?_⟩
  cases res
  · exact rfl
  · refine ⟨hlocates, fun res => ?_⟩
    cases res
    · exact rfl
    · exact ⟨trivial, fun _ => rfl⟩

theorem processLogin_errands
    (hty : ControlHead.type (headOf bytes) = .ok SignalType.login.code) :
    (Handling.processLogin cfg (headOf bytes)).Obeys (errands cfg.platform) AnyEnd
      (.start n (.request bytes)) := by
  refine Handling.obeys_orFault (fun _ => trivial) fun fromId hf => ?_
  refine Handling.obeys_orFault (fun _ => trivial) fun sate hsate => ?_
  rcases sate with _ | sate
  · exact trivial
  refine Handling.obeys_orFault (fun _ => trivial) fun _ _ => ⟨trivial, fun res => ?_⟩
  cases res
  · exact trivial
  · refine (login_errands _ ⟨bytes, fromId, .login, rfl, hf, rfl, hty, .inl ⟨by simp, hsate⟩⟩).bind ?_
    rintro _ q rfl
    refine ⟨trivial, fun _ => Handling.obeys_orFault (fun _ => trivial) fun _ _ => ?_⟩
    refine ⟨⟨fun hc => absurd hc (not_isComplete hty nofun), .inr ?_⟩, fun _ => trivial⟩
    exact ⟨bytes, sate, fromId, rfl, hf, rfl, hsate, rfl⟩

theorem processMobileRequest_errands
    (hty : ControlHead.type (headOf bytes) = .ok SignalType.mobileManagerRequest.code) :
    (Handling.processMobileRequest cfg (headOf bytes)).Obeys (errands cfg.platform) AnyEnd
      (.start n (.request bytes)) := by
  refine Handling.obeys_orFault (fun _ => trivial) fun fromId hf => ?_
  refine Handling.obeys_orFault (fun _ => trivial) fun sate hsate => ?_
  rcases sate with _ | sate
  · exact trivial
  refine Handling.obeys_orFault (fun _ => trivial) fun _ _ => ⟨trivial, fun res => ?_⟩
  cases res
  · exact trivial
  · have hlocates : (Input.request bytes).Locates cfg.platform (ntohl fromId) sate :=
      ⟨bytes, fromId, _, rfl, hf, rfl, hty, .inl ⟨by simp, hsate⟩⟩
    refine ⟨hlocates, fun _ => ⟨trivial, fun _ => ?_⟩⟩
    refine Handling.obeys_orFault (fun _ => trivial) fun _ _ => ?_
    refine ⟨⟨fun hc => absurd hc (not_isComplete hty nofun), .inr ?_⟩, fun _ => trivial⟩
    exact ⟨bytes, sate, fromId, rfl, hf, rfl, hsate, rfl⟩

theorem processLogout_errands
    (hty : ControlHead.type (headOf bytes) = .ok SignalType.logout.code) :
    (Handling.processLogout (headOf bytes)).Obeys (errands pf) AnyEnd
      (.start n (.request bytes)) := by
  refine Handling.obeys_orFault (fun _ => trivial) fun fromId hf => ?_
  refine Handling.obeys_orFault (fun _ => trivial) fun _ _ => ⟨trivial, fun res => ?_⟩
  cases res
  · exact trivial
  · have hlocates : (Input.request bytes).Locates pf (ntohl fromId) ⟨0, 0, []⟩ :=
      ⟨bytes, fromId, _, rfl, hf, rfl, hty, .inr ⟨rfl, rfl⟩⟩
    refine ⟨trivial, fun sates => ⟨hlocates, fun _ => ⟨trivial, fun _ => ?_⟩⟩⟩
    refine Handling.obeys_orFault (fun _ => trivial) fun _ _ => ?_
    refine ⟨⟨fun hc => absurd hc (not_isComplete hty nofun), .inl ?_⟩, fun _ => trivial⟩
    exact List.mem_singleton_self _

/-- A reply goes over coverage that was read, and leaves the thread's state as it is. -/
theorem sendTo_errands {userId : BitVec 32} {sates : List SateParam} {level : ℤ}
    {str : Except Fault (List Byte)} (hc : q.job.IsComplete → q.inserted = true)
    (hcover : (userId, sates) ∈ q.covers) :
    (Handling.sendTo none userId sates level str).Obeys (errands pf) (fun _ q' => q' = q) q := by
  unfold Handling.sendTo
  split_ifs
  · exact rfl
  · refine Handling.obeys_orFault (fun _ => trivial) fun _ _ => ?_
    exact ⟨⟨hc, .inl hcover⟩, fun _ => rfl⟩

theorem processSimpleMessage_errands
    (hty : ControlHead.type (headOf bytes) = .ok SignalType.simpleMessage.code) :
    (Handling.processSimpleMessage n (headOf bytes)).Obeys (errands pf) AnyEnd
      (.start n (.request bytes)) := by
  refine Handling.obeys_orFault (fun _ => trivial) fun toId _ => ?_
  refine Handling.obeys_orFault (fun _ => trivial) fun _ _ => ⟨trivial, fun res => ?_⟩
  cases res
  · exact trivial
  refine ⟨trivial, fun res => ?_⟩
  cases res
  · exact ⟨trivial, fun _ => trivial⟩
  · refine ⟨trivial, fun sates => ⟨trivial, fun _ => ?_⟩⟩
    refine (sendTo_errands (fun hc => absurd hc (not_isComplete hty nofun)) ?_).mono
      fun _ _ _ => trivial
    exact List.mem_singleton_self _

theorem processCompleteMessage_errands
    (hty : ControlHead.type (headOf bytes) = .ok SignalType.completeMessage.code) :
    (Handling.processCompleteMessage n (headOf bytes)).Obeys (errands pf) AnyEnd
      (.start n (.request bytes)) := by
  refine Handling.obeys_orFault (fun _ => trivial) fun toId _ => ?_
  refine Handling.obeys_orFault (fun _ => trivial) fun fromId _ => ⟨trivial, fun res => ?_⟩
  cases res
  · exact trivial
  refine ⟨⟨rfl, rfl, isComplete_iff.2 hty, bytes, rfl, rfl⟩, fun res => ?_⟩
  cases res
  · exact trivial
  · refine ⟨trivial, fun toSates => ⟨trivial, fun fromSates => ⟨trivial, fun _ => ?_⟩⟩⟩
    refine Handling.obeys_orFault (fun _ => trivial) fun _ _ => ?_
    have hfrom := List.mem_append_right [(ntohl toId, toSates)]
      (List.mem_singleton_self (ntohl fromId, fromSates))
    have hto := List.mem_append_left [(ntohl fromId, fromSates)]
      (List.mem_singleton_self (ntohl toId, toSates))
    refine (sendTo_errands (fun _ => rfl) hfrom).bind ?_
    rintro _ q rfl
    exact (sendTo_errands (fun _ => rfl) hto).mono fun _ _ _ => trivial

theorem processReceipt_errands
    (hty : ControlHead.type (headOf bytes) = .ok SignalType.receipte.code) :
    (Handling.processReceipt (headOf bytes)).Obeys (errands pf) AnyEnd
      (.start n (.request bytes)) := by
  refine Handling.obeys_orFault (fun _ => trivial) fun toId hto => ?_
  refine Handling.obeys_orFault (fun _ => trivial) fun fromId hfrom => ?_
  refine Handling.obeys_orFault (fun _ => trivial) fun receiptType hreceipt => ?_
  split_ifs with hne
  · exact trivial
  refine Handling.obeys_orFault (fun _ => trivial) fun frameId hframe => ⟨trivial, fun res => ?_⟩
  cases res
  · exact ⟨trivial, nofun⟩
  have hreceipt : IsReceipt bytes (ntohl fromId) (ntohl toId) (ntohs frameId) :=
    ⟨hty, by rw [hreceipt, not_not.1 hne], by rw [hfrom, htonl_ntohl], by rw [hto, htonl_ntohl],
      by rw [hframe, htons_ntohs]⟩
  refine Program.obeys_op_bind.2 ⟨trivial, fun r => ?_⟩
  obtain ⟨res, msg, recvTime⟩ := r
  dsimp only
  split_ifs
  · exact ⟨⟨bytes, rfl, hreceipt⟩, fun _ => ⟨trivial, fun _ => ⟨trivial, fun _ => trivial⟩⟩⟩
  · exact ⟨trivial, fun _ => trivial⟩

theorem accessToLogic_errands (bytes : List Byte) :
    (Handling.accessToLogic cfg n bytes).Obeys (errands cfg.platform) AnyEnd
      (.start n (.request bytes)) := by
  unfold Handling.accessToLogic
  split_ifs
  · exact trivial
  refine Handling.obeys_orFault (fun _ => trivial) fun b hb => ?_
  rcases ht : SignalType.ofByte b with _ | t
  · exact trivial
  · have hty := (type_eq_code_iff (show ControlHead.type (headOf bytes) = _ from hb) t).2 ht
    cases t with
    | login => exact processLogin_errands hty
    | logout => exact processLogout_errands hty
    | mobileManagerRequest => exact processMobileRequest_errands hty
    | simpleMessage => exact processSimpleMessage_errands hty
    | completeMessage => exact processCompleteMessage_errands hty
    | receipte => exact processReceipt_errands hty
    | forwardNoackMessage | backwardNoackMessage | inquireMessageRequest => exact trivial

/-- The rows selected are put off one after the other, and their messages become the ones to
send. An exception drops the rows that are left. -/
theorem retryLoop_errands (interval now : ℤ) : ∀ (rows : List CacheRow) (q : Errand),
    q.todo = rows → (Handling.retryLoop interval now rows).Obeys (errands pf)
      (fun messages q' => q' = { q with todo := [], toSend := q.toSend ++ messages }) q
  | [], q, hq => by
    have heq : q = { q with todo := [], toSend := q.toSend ++ [] } := by
      rw [List.append_nil, ← hq]
    exact heq
  | r :: rows, q, hq => by
    refine Program.obeys_op_bind.2 ⟨⟨r, rows, hq, rfl, rfl⟩, fun res => ?_⟩
    cases res
    · exact rfl
    · refine (retryLoop_errands interval now rows _ (congrArg List.tail hq)).bind ?_
      rintro messages _ rfl
      show _ = _
      simp [errands, Errand.next]

/-- Each message is sent at most once, and those without coverage are left. -/
theorem resendLoop_errands : ∀ (messages : List MessageItem) (q : Errand),
    messages.Subperm q.toSend → (Handling.resendLoop messages).Obeys (errands pf)
      (fun _ q' => q'.todo = q.todo ∧ q'.live = q.live) q
  | [], q, _ => ⟨rfl, rfl⟩
  | message :: messages, q, hsub => by
    refine Program.obeys_op_bind.2 ⟨trivial, fun sates => ?_⟩
    unfold Handling.sendTo
    split_ifs
    · exact resendLoop_errands messages (q.next (.getSateCover message.toId) sates)
        (List.subperm_cons_self.trans hsub)
    · rw [Program.bind_assoc]
      refine Handling.obeys_orFault (fun _ => trivial) fun buf hbuf => ?_
      have hmem : message ∈ q.toSend := hsub.subset List.mem_cons_self
      have hcover := List.mem_append_right q.covers (List.mem_singleton_self (message.toId, sates))
      have hsub' := hsub.erase message
      rw [List.erase_cons_head] at hsub'
      exact Program.obeys_op_bind.2 ⟨⟨hmem, rfl, hbuf, hcover⟩, fun _ => resendLoop_errands messages
        ((q.next (.getSateCover message.toId) sates).next
          (.sendMessage (some message) ⟨message.toId, buf, sates, 5⟩) ()) hsub'⟩

theorem getAllOfflineMessage_errands (interval : ℤ) (hlive : q.live = true) :
    (Handling.getAllOfflineMessage interval).Obeys (errands pf)
      (fun messages q' => messages.Subperm q'.toSend) q := by
  refine Program.obeys_op_bind.2 ⟨trivial, fun now => ?_⟩
  refine Program.obeys_op_bind.2 ⟨hlive, fun rows => ?_⟩
  refine (retryLoop_errands interval now rows _ rfl).mono ?_
  rintro messages _ rfl
  exact (List.sublist_append_right _ _).subperm

theorem qosPass_errands : (Handling.qosPass cfg).Obeys (errands pf)
    (fun _ q => q.live = false) (.start n .pass) := by
  refine Program.obeys_op_bind.2 ⟨trivial, fun res => ?_⟩
  cases res
  · exact ⟨trivial, nofun⟩
  · refine (getAllOfflineMessage_errands cfg.msgInterval ?_).bind fun messages q hsub => ?_
    · rfl
    · refine (resendLoop_errands messages q hsub).bind fun _ q _ => ?_
      exact ⟨trivial, fun _ => rfl⟩

theorem handling_errands : ∀ job : Input, (handling cfg n job).Obeys (errands cfg.platform)
    (fun _ => Errand.Ended job) (.start n job)
  | .request bytes => by
    refine (accessToLogic_errands bytes).bind fun _ q _ => ?_
    exact nofun
  | .pass => qosPass_errands.mono fun _ _ hq _ => hq

end Programs

/-! ## Runs -/

section Runs

variable {cfg : Config} {maxSize : ℕ} {w : World} {s s' : Shared} {h : ServerHistory}
  {qs : List Errand} {t : ℕ} {q : Errand} {c : Operation} {b : c.Result}

abbrev HasInserted (qs : List Errand) (t : ℕ) : Prop := ∃ q, qs[t]? = some q ∧ q.inserted = true

/-- Each cached row is of the one thread that inserted it. -/
structure Cached (h : ServerHistory) (qs : List Errand) (s : Shared) : Prop where
  started : qs.map (·.job) = jobs h
  number : ∀ (t : ℕ) q, qs[t]? = some q → q.number = t
  clean : ∀ r ∈ s.db.messageCache, r.Clean
  origins : (s.db.messageCache.map (·.origin)).Nodup
  born : ∀ r ∈ s.db.messageCache, HasInserted qs r.origin

theorem Cached.job (hk : Cached h qs s) (hq : qs[t]? = some q) : (jobs h)[t]? = some q.job := by
  rw [← hk.started, List.getElem?_map, hq, Option.map_some]

theorem Errand.next_fixed (q : Errand) (c : Operation) (b : c.Result) :
    (q.next c b).number = q.number ∧ (q.next c b).job = q.job ∧
      (q.inserted = true → (q.next c b).inserted = true) := by
  cases c with
  | insertOfflineMessage => cases b <;> exact ⟨rfl, rfl, fun h => by first | exact h | rfl⟩
  | sendMessage message => cases message <;> exact ⟨rfl, rfl, id⟩
  | _ => exact ⟨rfl, rfl, id⟩

@[simp] theorem CacheRow.origin_retry (r : CacheRow) (key : ℤ × ℤ × ℤ) (retryNum retryTime : ℤ) :
    (r.retry key retryNum retryTime).origin = r.origin := by
  unfold CacheRow.retry
  split_ifs <;> rfl

@[simp] theorem CacheRow.key_retry (r : CacheRow) (key : ℤ × ℤ × ℤ) (retryNum retryTime : ℤ) :
    (r.retry key retryNum retryTime).key = r.key := by
  unfold CacheRow.retry
  split_ifs <;> rfl

/-- A thread that has inserted has so after its next operation. -/
theorem HasInserted.set {t' : ℕ} (hq : qs[t]? = some q) (h : HasInserted qs t') :
    HasInserted (qs.set t (q.next c b)) t' := by
  obtain ⟨q', hq', hins⟩ := h
  obtain ⟨hlt, -⟩ := List.getElem?_eq_some_iff.1 hq
  by_cases heq : t' = t
  · subst heq
    rw [hq, Option.some.injEq] at hq'
    subst hq'
    exact ⟨_, List.getElem?_set_self hlt, (q.next_fixed c b).2.2 hins⟩
  · exact ⟨q', by rwa [List.getElem?_set_ne (Ne.symm heq)], hins⟩

theorem HasInserted.spawn {t' : ℕ} (h : HasInserted qs t') (q : Errand) :
    HasInserted (qs ++ [q]) t' := by
  obtain ⟨q', hq', hins⟩ := h
  exact ⟨q', Run.getElem?_concat.2 (.inl hq'), hins⟩

theorem Cached.spawn (hk : Cached h qs s) (job : Input) :
    Cached (h ++ [(.spawn job, none)]) (qs ++ [.start qs.length job]) s := by
  refine ⟨?_, fun t q hq => ?_, hk.clean, hk.origins, fun r hr => (hk.born r hr).spawn _⟩
  · rw [jobs_spawn, ← hk.started, List.map_append]
    rfl
  · rcases Run.getElem?_concat.1 hq with hq | ⟨rfl, rfl⟩
    · exact hk.number t q hq
    · rfl

theorem Cached.run (hk : Cached h qs s) (hq : qs[t]? = some q) (hpre : q.Permits cfg.platform c)
    (hc : handle cfg maxSize w s c = .ok (s', b)) :
    Cached (h ++ [(.run t w, some ⟨c, b⟩)]) (qs.set t (q.next c b)) s' := by
  obtain ⟨hnumber, hjob, -⟩ := q.next_fixed c b
  have hstarted : (qs.set t (q.next c b)).map (·.job) =
      jobs (h ++ [(.run t w, some ⟨c, b⟩)]) := by
    rw [jobs_run, ← hk.started, List.map_set, hjob]
    exact set_of_getElem? (by rw [List.getElem?_map, hq, Option.map_some])
  have hnumbers : ∀ (t' : ℕ) q', (qs.set t (q.next c b))[t']? = some q' → q'.number = t' := by
    intro t' q' hq'
    rcases getElem?_set_cases hq hq' with ⟨rfl, rfl⟩ | ⟨-, hq'⟩
    · rw [hnumber, hk.number _ q hq]
    · exact hk.number t' q' hq'
  have hborn {r : CacheRow} (hr : r ∈ s.db.messageCache) :=
    HasInserted.set (c := c) (b := b) hq (hk.born r hr)
  have hstep := handle_cacheStep hc
  generalize hcache : s'.db.messageCache = cache at hstep
  cases hstep with
  | @inserted n head m hm =>
    obtain ⟨hfresh, rfl, hcomplete, bytes, hbytes, rfl⟩ := hpre
    have hnew : ∀ r ∈ s.db.messageCache, r.origin ≠ q.number := by
      intro r hr heq
      obtain ⟨q', hq', hins⟩ := hk.born r hr
      rw [heq, hk.number t q hq, hq, Option.some.injEq] at hq'
      rw [hq', hins] at hfresh
      cases hfresh
    rw [hbytes, isComplete_iff, readHead_type hm, Except.ok.injEq] at hcomplete
    refine ⟨hstarted, hnumbers, ?_, ?_, ?_⟩ <;> rw [hcache]
    · exact List.forall_mem_append.2 ⟨hk.clean, List.forall_mem_singleton.2
        (cacheRow_clean hm hcomplete _ _)⟩
    · rw [List.map_append, List.map_singleton]
      refine List.nodup_append.2 ⟨hk.origins, List.nodup_singleton _, ?_⟩
      rintro _ ho _ ho' rfl
      obtain ⟨r, hr, hro⟩ := List.mem_map.1 ho
      exact hnew r hr (hro.trans (List.mem_singleton.1 ho'))
    · refine List.forall_mem_append.2 ⟨fun r hr => hborn hr, List.forall_mem_singleton.2 ?_⟩
      obtain ⟨hlt, -⟩ := List.getElem?_eq_some_iff.1 hq
      exact ⟨_, by rw [show (m.cacheRow q.number w.now).origin = t from hk.number t q hq,
        List.getElem?_set_self hlt], rfl⟩
  | deleted =>
    refine ⟨hstarted, hnumbers, ?_, ?_, ?_⟩ <;> rw [hcache]
    · exact fun r hr => hk.clean r (List.mem_of_mem_filter hr)
    · exact hk.origins.sublist (List.filter_sublist.map _)
    · exact fun r hr => hborn (List.mem_of_mem_filter hr)
  | retried =>
    refine ⟨hstarted, hnumbers, ?_, ?_, ?_⟩ <;> rw [hcache]
    · exact List.forall_mem_map.2 fun r hr => (r.retry_same _ _ _).clean (hk.clean r hr)
    · simpa [Function.comp_def] using hk.origins
    · refine List.forall_mem_map.2 fun r hr => ?_
      rw [CacheRow.origin_retry]
      exact hborn hr
  | kept =>
    refine ⟨hstarted, hnumbers, ?_, ?_, ?_⟩ <;> rw [hcache]
    · exact hk.clean
    · exact hk.origins
    · exact fun r hr => hborn hr

end Runs

end ShortMessage
