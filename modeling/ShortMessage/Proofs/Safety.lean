import ShortMessage.Proofs.Emission
import ShortMessage.Proofs.Leases
import ShortMessage.Proofs.Location

/-!
# Threads that stay in bounds, and how they come to a stop

When every request is well formed, no thread of any interleaving can access memory outside an
object, fail an assertion or use a `NULL` connection: an operation that cannot be executed is a
`GetConnection` that waits (`reaches_safe`). So the threads come to a stop only when all of them
have finished, or when every connection of the pool was lost to a failed `INSERT`
(`stuck_iff`).
-/

namespace ShortMessage

open CMemory Interleaving

/-! ## Well-formed requests -/

/-- The request's handler stays in bounds, whatever the tables hold. -/
def WellFormedRequest (request : List Byte) : Prop :=
  request = [] ∨ 10 ≤ request.length ∧
    let head := headOf request
    match SignalType.ofByte (request.getD 10 0) with
    | some .login | some .mobileManagerRequest => ReportFits head ∧ BeamsFit head
    | some .logout => 12 ≤ head.length
    | some .simpleMessage | some .completeMessage => TextFits head ∧ (textOf head).length ≤ 1011
    | some .receipte => 15 ≤ head.length
    | _ => True

/-- Only well-formed requests are received. -/
def WellFormedOnly (_ : ServerThreads) (l : ServerMove) : Prop :=
  ∀ bytes, l = .spawn (.request bytes) → WellFormedRequest bytes

/-! ## What a thread may execute -/

/-- The operation's accesses stay in bounds. -/
def Operation.Safe : Operation → Prop
  | .fault _ => False
  | .insertStoreMessage _ head => ∃ m, readHead head = .ok m
  | .insertOfflineMessage _ head => ∃ m, readHead head = .ok m ∧ m.text.length ≤ 1011
  | .updateSateCover _ sate => ∃ snr, tempSnr (sate.satesParam.take sate.satCoverNum.toNat)
      (fun _ => -1) = .ok snr
  | _ => True

/-- What no operation returns as long as the cached texts fit the encoder's buffer. -/
def Surprising : (c : Operation) → c.Result → Prop
  | .getConnection, false => True
  | .selectDue _, rows => ∃ r ∈ rows, 1011 < r.text.length
  | _, _ => False

/-- A thread is excused once it has been surprised. -/
def safety : Monitor Operation Operation.Result where
  State := Prop
  pre excused c := excused ∨ c.Safe
  next excused c b := excused ∨ Surprising c b

/-- The program executes nothing but safe operations, unless it is surprised. -/
def Safely {α : Type} (p : Handling α) : Prop := ∀ q, p.Obeys safety (fun _ _ => True) q

section Programs

variable {α β : Type}

theorem obeys_excused {q : Prop} (hq : q) (p : Handling α) :
    p.Obeys safety (fun _ _ => True) q := by
  induction p generalizing q with
  | ret a => trivial
  | call c next ih => exact ⟨.inl hq, fun b => ih b (.inl hq)⟩

namespace Safely

theorem ret (a : α) : Safely (.ret a) := fun _ => trivial

theorem execute {c : Operation} {k : c.Result → Handling α} (hc : c.Safe)
    (h : ∀ b, Safely (k b)) : Safely (Handling.execute c >>= k) :=
  fun _ => ⟨.inr hc, fun b => h b _⟩

theorem orFault {x : Except Fault α} {k : α → Handling β} (hx : ∃ a, x = .ok a)
    (h : ∀ a, x = .ok a → Safely (k a)) : Safely (Handling.orFault x >>= k) := by
  obtain ⟨a, rfl⟩ := hx
  exact h a rfl

theorem bind {p : Handling α} {k : α → Handling β} (hp : Safely p) (h : ∀ a, Safely (k a)) :
    Safely (p >>= k) :=
  fun q => (hp q).bind fun a q _ => h a q

/-- A thread that was refused a connection is excused. -/
theorem getConnection {p p' : Handling α} (h : Safely p) :
    Safely (do if ← Handling.execute .getConnection then p else p') := by
  refine fun q => ⟨.inr trivial, fun res => ?_⟩
  cases res
  · exact obeys_excused (.inr trivial) p'
  · exact h _

theorem send (message : Option MessageItem) (sent : Sent) :
    Safely (Handling.execute (.sendMessage message sent)) :=
  fun _ => ⟨.inr trivial, fun _ => trivial⟩

theorem close : Safely (Handling.execute .close) := fun _ => ⟨.inr trivial, fun _ => trivial⟩

theorem sendTo (message : Option MessageItem) (userId : BitVec 32) (sates : List SateParam)
    (level : ℤ) {str : Except Fault (List Byte)} (hstr : ∃ buf, str = .ok buf) :
    Safely (Handling.sendTo message userId sates level str) := by
  unfold Handling.sendTo
  split_ifs
  · exact .ret ()
  · exact .orFault hstr fun _ _ => .send _ _

end Safely

variable {cfg : Config} {head : Ptr} {n : ℕ}

theorem safe_updateSateCover {userId : BitVec 32} {sate : Satellite}
    (h : ∀ p ∈ sate.satesParam.take sate.satCoverNum.toNat, 1 ≤ p.beamId ∧ p.beamId ≤ 10) :
    (Operation.updateSateCover userId sate).Safe := ⟨_, (tempSnr_eq_ok _ _ _).2 ⟨h, rfl⟩⟩

/-- A report that was read names beams there are columns for. -/
theorem safe_report {userId : BitVec 32} {sate : Satellite} (hbeams : BeamsFit head)
    (h : readSatellite cfg.platform head = .ok (some sate)) :
    (Operation.updateSateCover userId sate).Safe := by
  obtain ⟨htake, hfit⟩ := readSatellite_beams h
  refine safe_updateSateCover ?_
  rw [htake]
  exact hfit.2 hbeams

theorem readSatellite_ok (h : ReportFits head) :
    ∃ sate, readSatellite cfg.platform head = .ok sate := by
  rcases readSatellite_cases cfg.platform h with ⟨-, hnone⟩ | ⟨sate, hsome⟩
  · exact ⟨_, hnone⟩
  · exact ⟨_, hsome⟩

theorem login_safely {userId : BitVec 32} {sate : Satellite} {response : Response}
    (h : (Operation.updateSateCover userId sate).Safe) :
    Safely (Handling.login userId sate response) := by
  refine .execute trivial fun res => ?_
  split_ifs
  · refine .execute h fun res => ?_
    split_ifs
    · exact .execute trivial fun _ => .ret _
    · exact .ret _
  · exact .ret _

theorem processLogin_safely (hfits : ReportFits head) (hbeams : BeamsFit head) :
    Safely (Handling.processLogin cfg head) := by
  obtain ⟨fromId, -, -, hf, -⟩ := head_reads (show 11 ≤ head.length by have := hfits.1; omega)
  refine .orFault ⟨_, hf⟩ fun fromId _ => .orFault (readSatellite_ok hfits) fun sate hsate => ?_
  rcases sate with _ | sate
  · exact .ret ()
  refine .orFault (answer_ok (by have := hfits.1; omega) _) fun response _ => .getConnection ?_
  refine .bind (login_safely (safe_report hbeams hsate)) fun response => ?_
  exact .execute trivial fun _ => .orFault (responseEncode_ok _) fun _ _ => .send _ _

theorem processMobileRequest_safely (hfits : ReportFits head) (hbeams : BeamsFit head) :
    Safely (Handling.processMobileRequest cfg head) := by
  obtain ⟨fromId, -, -, hf, -⟩ := head_reads (show 11 ≤ head.length by have := hfits.1; omega)
  refine .orFault ⟨_, hf⟩ fun fromId _ => .orFault (readSatellite_ok hfits) fun sate hsate => ?_
  rcases sate with _ | sate
  · exact .ret ()
  refine .orFault (answer_ok (by have := hfits.1; omega) _) fun response _ => .getConnection ?_
  refine .execute (safe_report hbeams hsate) fun _ => .execute trivial fun _ => ?_
  exact .orFault (responseEncode_ok _) fun _ _ => .send _ _

theorem processLogout_safely (h : 12 ≤ head.length) : Safely (Handling.processLogout head) := by
  obtain ⟨fromId, -, -, hf, -⟩ := head_reads (show 11 ≤ head.length by omega)
  refine .orFault ⟨_, hf⟩ fun fromId _ => .orFault (answer_ok h _) fun response _ => ?_
  refine .getConnection (.execute trivial fun sates => ?_)
  refine .execute (safe_updateSateCover (by simp)) fun _ => .execute trivial fun _ => ?_
  exact .orFault (responseEncode_ok _) fun _ _ => .send _ _

theorem messageEncode_ok (htext : TextFits head) (hlen : (textOf head).length ≤ 1011) :
    ∃ buf, messageEncode head = .ok buf :=
  ((confined_messageEncode head).failsIn fun _ h => h).returns
    ((inBounds_messageEncode htext).2 hlen)

/-- The text that is stored is the one that is encoded. -/
theorem readHead_text {m : Head} (htext : TextFits head) (hm : readHead head = .ok m) :
    m.text = textOf head := by
  obtain ⟨-, -, -, -, hcstr⟩ := readHead_eq_ok.1 hm
  rw [cstr_content htext, Except.ok.injEq] at hcstr
  exact hcstr.symm

theorem processSimpleMessage_safely (htext : TextFits head)
    (hlen : (textOf head).length ≤ 1011) : Safely (Handling.processSimpleMessage n head) := by
  have h13 := length_of_textFits htext
  obtain ⟨fromId, toId, -, hf, ht, -⟩ := head_reads (show 11 ≤ head.length by omega)
  refine .orFault ⟨_, ht⟩ fun _ _ => .orFault ⟨_, hf⟩ fun _ _ => .getConnection ?_
  refine .execute (readHead_ok htext) fun res => ?_
  split_ifs
  · exact .execute trivial fun sates => .execute trivial fun _ =>
      .sendTo _ _ _ _ (messageEncode_ok htext hlen)
  · exact .close

theorem processCompleteMessage_safely (htext : TextFits head)
    (hlen : (textOf head).length ≤ 1011) : Safely (Handling.processCompleteMessage n head) := by
  have h13 := length_of_textFits htext
  obtain ⟨fromId, toId, frameId, hf, ht, hc, -⟩ := head_reads (show 11 ≤ head.length by omega)
  obtain ⟨m, hm⟩ := readHead_ok htext
  refine .orFault ⟨_, ht⟩ fun _ _ => .orFault ⟨_, hf⟩ fun _ _ => .getConnection ?_
  refine .execute ⟨m, hm, by rwa [readHead_text htext hm]⟩ fun res => ?_
  split_ifs
  · refine .execute trivial fun _ => .execute trivial fun _ => .execute trivial fun _ => ?_
    refine .orFault ⟨_, hc⟩ fun _ _ => .bind (.sendTo _ _ _ _ (responseEncode_ok _)) fun _ => ?_
    exact .sendTo _ _ _ _ (messageEncode_ok htext hlen)
  · exact .ret ()

theorem processReceipt_safely (h : 15 ≤ head.length) : Safely (Handling.processReceipt head) := by
  obtain ⟨fromId, toId, -, hf, ht, -⟩ := head_reads (show 11 ≤ head.length by omega)
  have hcontent : 3 ≤ (ControlHead.content head).length := by
    rw [ControlHead.content, List.length_drop]
    omega
  refine .orFault ⟨_, hf⟩ fun _ _ => .orFault ⟨_, ht⟩ fun _ _ => ?_
  refine .orFault ⟨_, read8_ok (by omega)⟩ fun receiptType _ => ?_
  split_ifs
  · exact .ret ()
  refine .orFault ⟨_, read16_ok (by omega)⟩ fun frameId _ => .getConnection ?_
  refine .execute trivial fun r => ?_
  obtain ⟨res, msg, recvTime⟩ := r
  dsimp only
  split_ifs
  · exact .execute trivial fun _ => .execute trivial fun _ => .close
  · exact .close

theorem accessToLogic_safely {bytes : List Byte} (h : WellFormedRequest bytes) :
    Safely (Handling.accessToLogic cfg n bytes) := by
  unfold Handling.accessToLogic
  rcases h with rfl | ⟨h10, h⟩
  · exact .ret ()
  have hlen : 11 ≤ (headOf bytes).length := by
    rw [List.length_append, List.length_singleton]
    omega
  obtain ⟨-, -, -, -, -, -, hty⟩ := head_reads hlen
  have htype : (headOf bytes).getD 10 0 = bytes.getD 10 0 := by
    rcases h10.lt_or_eq with hlt | heq
    · rw [List.getD_append _ _ _ _ hlt]
    · simp [heq]
  split_ifs
  · exact .ret ()
  refine .orFault ⟨_, hty⟩ fun b hb => ?_
  rw [show ControlHead.type _ = _ from hty, Except.ok.injEq, htype] at hb
  subst hb
  dsimp only at h ⊢
  generalize SignalType.ofByte (bytes.getD 10 0) = o at h ⊢
  rcases o with _ | t
  · exact .ret ()
  · cases t with
    | login => exact processLogin_safely h.1 h.2
    | logout => exact processLogout_safely h
    | mobileManagerRequest => exact processMobileRequest_safely h.1 h.2
    | simpleMessage => exact processSimpleMessage_safely h.1 h.2
    | completeMessage => exact processCompleteMessage_safely h.1 h.2
    | receipte => exact processReceipt_safely h
    | forwardNoackMessage | backwardNoackMessage | inquireMessageRequest => exact .ret ()

theorem resendLoop_safely : ∀ {messages : List MessageItem},
    (∀ message ∈ messages, message.content.length ≤ 1011) → Safely (Handling.resendLoop messages)
  | [], _ => .ret ()
  | message :: messages, h => by
    obtain ⟨hm, hms⟩ := List.forall_mem_cons.1 h
    exact .execute trivial fun sates =>
      .bind (.sendTo _ _ _ _ (messageEncodeItem_ok hm)) fun _ => resendLoop_safely hms

/-- What is handed out are the items of rows that were selected. -/
theorem retryLoop_obeys (interval now : ℤ) {q : Prop} : ∀ {rows : List CacheRow},
    (∀ r ∈ rows, r.text.length ≤ 1011) →
      (Handling.retryLoop interval now rows).Obeys safety
        (fun messages _ => ∀ message ∈ messages, message.content.length ≤ 1011) q
  | [], _ => by simp [Handling.retryLoop, Program.Obeys]
  | r :: rows, h => by
    obtain ⟨hr, hrows⟩ := List.forall_mem_cons.1 h
    refine Program.obeys_op_bind.2 ⟨.inr trivial, fun res => ?_⟩
    split_ifs
    · refine (retryLoop_obeys interval now hrows).bind fun messages _ hms => ?_
      exact List.forall_mem_cons.2 ⟨hr, hms⟩
    · exact List.forall_mem_singleton.2 hr

theorem qosPass_safely : Safely (Handling.qosPass cfg) := by
  refine .getConnection fun q => ?_
  unfold Handling.getAllOfflineMessage
  rw [Program.bind_assoc]
  refine Program.obeys_op_bind.2 ⟨.inr trivial, fun now => ?_⟩
  rw [Program.bind_assoc]
  refine Program.obeys_op_bind.2 ⟨.inr trivial, fun rows => ?_⟩
  by_cases hrows : ∀ r ∈ rows, r.text.length ≤ 1011
  · refine (retryLoop_obeys _ _ hrows).bind fun messages q hms => ?_
    exact Safely.bind (resendLoop_safely hms)
      (fun _ => .execute (c := .close) trivial fun _ => .ret _) q
  · refine obeys_excused (.inr ?_) _
    simpa [Surprising] using hrows

theorem handling_obeys : ∀ input : Input, (handling cfg n input).Obeys safety
    (fun _ _ => True) (∃ bytes, input = .request bytes ∧ ¬ WellFormedRequest bytes)
  | .request bytes => by
    by_cases h : WellFormedRequest bytes
    · exact Safely.bind (accessToLogic_safely h) (fun _ => .ret _) _
    · exact obeys_excused ⟨bytes, rfl, h⟩ _
  | .pass => qosPass_safely _

end Programs

/-! ## Runs -/

section Runs

variable {cfg : Config} {maxSize : ℕ} {w : World} {s s' : Shared}

/-- The cached texts fit the encoder's buffer, and no thread has been surprised. -/
structure Unsurprised (excused : List Prop) (s : Shared) : Prop where
  texts : ∀ r ∈ s.db.messageCache, r.text.length ≤ 1011
  threads : ∀ q ∈ excused, ¬ q

theorem Unsurprised.spawn {qs : List Prop} {q : Prop} (hk : Unsurprised qs s) (hq : ¬ q) :
    Unsurprised (qs ++ [q]) s :=
  ⟨hk.texts, List.forall_mem_append.2 ⟨hk.threads, List.forall_mem_singleton.2 hq⟩⟩

theorem Unsurprised.run {qs : List Prop} {t : ℕ} {q : Prop} {c : Operation} {b : c.Result}
    (hk : Unsurprised qs s) (hq : qs[t]? = some q) (hpre : q ∨ c.Safe)
    (hc : handle cfg maxSize w s c = .ok (s', b)) :
    Unsurprised (qs.set t (q ∨ Surprising c b)) s' := by
  have hnq : ¬ q := hk.threads q (List.mem_of_getElem? hq)
  refine ⟨?_, fun q' hq' => ?_⟩
  · have hstep := handle_cacheStep hc
    generalize s'.db.messageCache = cache at hstep
    cases hstep with
    | inserted hm =>
      obtain ⟨m', hm', hlen⟩ := hpre.resolve_left hnq
      rw [hm, Except.ok.injEq] at hm'
      subst hm'
      exact List.forall_mem_append.2 ⟨hk.texts, List.forall_mem_singleton.2 hlen⟩
    | deleted => exact fun r hr => hk.texts r (List.mem_of_mem_filter hr)
    | retried =>
      intro r' hr'
      obtain ⟨r, hr, rfl⟩ := List.mem_map.1 hr'
      rw [show (r.retry _ _ _).text = r.text by unfold CacheRow.retry; split_ifs <;> rfl]
      exact hk.texts r hr
    | kept => exact hk.texts
  · rcases List.mem_or_eq_of_mem_set hq' with hq' | rfl
    · exact hk.threads q' hq'
    · rintro (h | h)
      · exact hnq h
      · cases c with
        | getConnection =>
          obtain ⟨-, rfl⟩ := handle_getConnection hc
          exact h
        | selectDue now =>
          obtain ⟨r, hr, hlong⟩ := h
          obtain ⟨-, rfl | hperm⟩ := handle_selectDue hc
          · cases hr
          · have := hk.texts r (List.mem_of_mem_filter (hperm.mem_iff.1 hr))
            omega
        | _ => exact h

variable {sateCover : List SateRow} {userInfo : List ℤ} {h : ServerHistory} {p : ServerThreads}

theorem reaches_unsurprised (hr : Run.Reaches (ServerThreads.step cfg maxSize) WellFormedOnly
    (ServerThreads.start sateCover userInfo) h p) :
    ∃ qs, Unsurprised qs p.shared ∧ Obeyed safety (fun _ _ _ => True) p.threads qs := by
  have hstart : Unsurprised [] (ServerThreads.start sateCover userInfo).shared := ⟨nofun, nofun⟩
  refine ⟨_, reaches_obeyed (I := fun _ qs s => Unsurprised qs s)
    (fun n input => handling_obeys input) hstart ?_ ?_ hr⟩
  · exact fun h qs p input hk _ _ hP => hk.spawn fun ⟨bytes, hbytes, hbad⟩ =>
      hbad (hP bytes (by rw [hbytes]))
  · exact fun h qs p t w c s b q hk hq hpre _ hc => hk.run hq hpre hc

/-- The operation a thread of a reached state is about to execute is safe. -/
theorem reaches_next_safe (hr : Run.Reaches (ServerThreads.step cfg maxSize) WellFormedOnly
    (ServerThreads.start sateCover userInfo) h p) {t : ℕ} {job : Input} {c : Operation}
    {next : c.Result → Handling (List MessageItem)}
    (ht : p.threads[t]? = some ⟨job, .call c next⟩) : c.Safe := by
  obtain ⟨qs, hk, hobeyed⟩ := reaches_unsurprised hr
  obtain ⟨q, hq, hpre, -⟩ := hobeyed.get ht
  exact Or.resolve_left hpre (hk.threads q (List.mem_of_getElem? hq))

/-- A safe operation is executed, or is a `GetConnection` that waits. -/
theorem handle_safe {c : Operation} (hc : c.Safe) (w : World) (s : Shared) :
    (∃ r, handle cfg maxSize w s c = .ok r) ∨
      c = .getConnection ∧ handle cfg maxSize w s c = .error .blocked := by
  cases c with
  | getConnection =>
    simp only [handle]
    split_ifs
    · rcases getConnection_cases w with hconn | hconn
      · rw [hconn]
        exact .inl ⟨_, rfl⟩
      · rw [hconn]
        exact .inr ⟨trivial, rfl⟩
    · exact .inr ⟨trivial, rfl⟩
  | updateSateCover userId sate =>
    obtain ⟨snr, hsnr⟩ := hc
    refine .inl ?_
    simp only [handle, updateSateCover, hsnr, ok_bind]
    split_ifs <;> exact ⟨_, rfl⟩
  | insertStoreMessage n head =>
    obtain ⟨m, hm⟩ := hc
    refine .inl ?_
    simp only [handle, insertStoreMessage, hm, ok_bind]
    split_ifs <;> exact ⟨_, rfl⟩
  | insertOfflineMessage n head =>
    obtain ⟨m, hm, -⟩ := hc
    refine .inl ?_
    simp only [handle, insertOfflineMessage, hm, ok_bind]
    split_ifs <;> exact ⟨_, rfl⟩
  | updateRetry =>
    simp only [handle]
    split_ifs <;> exact .inl ⟨_, rfl⟩
  | fault => exact hc.elim
  | _ => exact .inl ⟨_, rfl⟩

/-- The thread has come to its end. -/
def Finished (th : Thread Input Operation Operation.Result (List MessageItem)) : Prop :=
  ∃ handed, th.rest = .ret handed

/-- The thread waits for a connection. -/
def Waiting (th : Thread Input Operation Operation.Result (List MessageItem)) : Prop :=
  ∃ next, th.rest = .call .getConnection next

/-- No thread can execute an operation, whatever the world. -/
def Stuck (cfg : Config) (maxSize : ℕ) (p : ServerThreads) : Prop :=
  ∀ t w r, ServerThreads.step cfg maxSize p (.run t w) ≠ .ok r

section Stuck

variable (hr : Run.Reaches (ServerThreads.step cfg maxSize) WellFormedOnly
    (ServerThreads.start sateCover userInfo) h p)

include hr

/-- What a stuck thread would execute is a `GetConnection` that the whole pool is out for. -/
theorem stuck_waiting (hstuck : Stuck cfg maxSize p) {th : Thread Input Operation Operation.Result
    (List MessageItem)} (hth : th ∈ p.threads) :
    Finished th ∨ Waiting th ∧ maxSize ≤ p.shared.checkedOut := by
  obtain ⟨t, hlt, hget⟩ := List.getElem_of_mem hth
  have ht : p.threads[t]? = some th := by rw [List.getElem?_eq_getElem hlt, hget]
  rcases th with ⟨job, handed | ⟨c, next⟩⟩
  · exact .inl ⟨handed, rfl⟩
  · refine .inr ?_
    rcases @handle_safe cfg maxSize _ (reaches_next_safe hr ht) (.calm 0) p.shared
      with ⟨r, hok⟩ | ⟨rfl, herr⟩
    · exact absurd (step_run ht hok) (hstuck t (.calm 0) _)
    · refine ⟨⟨next, rfl⟩, ?_⟩
      by_contra hlt
      simp only [handle] at herr
      rw [if_pos (by omega)] at herr
      cases herr

/-- A thread that has finished or waits for a connection holds none. -/
theorem holding_of_busy (hbusy : ∀ th ∈ p.threads, Finished th ∨ Waiting th) :
    (leasesAfter h).countP (· = .holding) = 0 := by
  obtain ⟨-, hobeyed⟩ := reaches_leased hr
  rw [List.countP_eq_zero]
  intro q hq
  obtain ⟨t, ht⟩ := List.getElem?_of_mem hq
  obtain ⟨⟨job, rest⟩, hth, hpost⟩ := hobeyed.thread ht
  rcases hbusy _ (List.mem_of_getElem? hth) with ⟨handed, rfl⟩ | ⟨next, rfl⟩
  · have hne : q ≠ .holding := hpost
    simpa using hne
  · obtain rfl : q = .idle := hpost.1.getConnection rfl
    simp

/-- The threads come to a stop when all have finished, and otherwise exactly when as many `INSERT`s
of complete messages have failed as the pool has connections. -/
theorem stuck_iff : Stuck cfg maxSize p ↔ (∀ th ∈ p.threads, Finished th) ∨
    h.countP FailedInsert = maxSize ∧ ∀ th ∈ p.threads, Finished th ∨ Waiting th := by
  obtain ⟨hk, -⟩ := reaches_leased hr
  have hbounded := hk.bounded
  constructor
  · intro hstuck
    by_cases hall : ∀ th ∈ p.threads, Finished th
    · exact .inl hall
    · have hbusy : ∀ th ∈ p.threads, Finished th ∨ Waiting th := fun th hth =>
        (stuck_waiting hr hstuck hth).imp_right And.left
      push Not at hall
      obtain ⟨th, hth, hnot⟩ := hall
      obtain ⟨-, hfull⟩ := (stuck_waiting hr hstuck hth).resolve_left hnot
      have hout := hk.out_eq
      rw [holding_of_busy hr hbusy] at hout
      exact .inr ⟨by omega, hbusy⟩
  · rintro hcase t w r hs
    have hfull (hbusy : h.countP FailedInsert = maxSize) : ¬ p.shared.checkedOut < maxSize := by
      have hout := hk.out_eq
      omega
    rcases step_cases hs with ⟨_, hl, -⟩ | ⟨_, _, job, c, next, s, b, hl, ht, hc, -⟩
    · cases hl
    · cases hl
      have hmem := List.mem_of_getElem? ht
      rcases hcase with hall | ⟨hcount, hbusy⟩
      · obtain ⟨_, heq⟩ := hall _ hmem
        cases heq
      · rcases hbusy _ hmem with ⟨_, heq⟩ | ⟨_, heq⟩
        · cases heq
        · cases heq
          exact hfull hcount (handle_getConnection hc).1

end Stuck

end Runs

/-! ## A pool of one connection -/

theorem hello_wellFormedRequest : WellFormedRequest hello :=
  .inr ⟨by decide, by unfold TextFits; decide, by decide⟩

theorem wellFormedOnly_hello (p : ServerThreads) : WellFormedOnly p (.spawn (.request hello)) := by
  rintro _ ⟨⟩
  exact hello_wellFormedRequest

theorem wellFormedOnly_pass (p : ServerThreads) : WellFormedOnly p (.spawn .pass) := by
  rintro _ ⟨⟩

theorem wellFormedOnly_run (p : ServerThreads) (t : ℕ) (w : World) :
    WellFormedOnly p (.run t w) := by
  rintro _ ⟨⟩

/-- The `INSERT` of `hello` throws, and the daemon waits for the connection lost with it. -/
theorem hello_lost : ∃ h p, Run.Reaches (ServerThreads.step exactConfig 1) WellFormedOnly
    (ServerThreads.start coverOne []) h p ∧ h.countP FailedInsert = 1 ∧
      ∀ th ∈ p.threads, Finished th ∨ Waiting th := by
  refine ⟨_, _, .next (.next (.next (.next .start
    (wellFormedOnly_hello _) (step_spawn (Input.request hello)))
    (wellFormedOnly_run _ _ _) (step_run (t := 0) (i := .calm 0) rfl rfl))
    (wellFormedOnly_run _ _ _) (step_run (t := 0) (i := .failing 0 0) rfl rfl))
    (wellFormedOnly_pass _) (step_spawn Input.pass), ?_, fun th hth => ?_⟩
  · rfl
  rcases List.mem_append.1 hth with hth | hth
  · rw [List.mem_singleton.1 hth]
    exact .inl ⟨_, rfl⟩
  · rw [List.mem_singleton.1 hth]
    exact .inr ⟨_, rfl⟩

theorem stuck_iff_hello : ∃ h p, Run.Reaches (ServerThreads.step exactConfig 1) WellFormedOnly
    (ServerThreads.start coverOne []) h p ∧ Stuck exactConfig 1 p := by
  obtain ⟨h, p, hr, hcount, hbusy⟩ := hello_lost
  exact ⟨h, p, hr, (stuck_iff hr).2 (.inr ⟨hcount, hbusy⟩)⟩

theorem reaches_accounted_hello : ∃ h p, h.countP FailedInsert = 1 ∧ Accounted 1 h p := by
  obtain ⟨h, p, hr, hcount, -⟩ := hello_lost
  exact ⟨h, p, hcount, reaches_accounted hr⟩

end ShortMessage
