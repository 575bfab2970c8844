import ShortMessage.Interleaved
import ShortMessage.Proofs.Effects

/-!
# A thread that runs alone

A request that is handled with no other thread in between does what `serve` does, statement for
statement (`handling_alone`), as long as a connection is left for it. The programs of
`Interleaved.lean` are compared with the handlers of `Server.lean` one operation at a time, by the
rules of `Serves`. So the runs of `step` are runs of the threads, one request after the other
(`reaches_serial`).
-/

namespace ShortMessage

open CMemory

section Alone

variable {cfg : Config} {maxSize : ℕ} {w : World} {s : Shared} {α β : Type}

/-- What a thread returns and leaves when no other one is run from its start to its end. -/
def Handling.alone (cfg : Config) (maxSize : ℕ) (p : Handling α) (w : World) (s : Shared) :
    Except Fault (α × Shared) :=
  (Program.alone (handle cfg maxSize) Operation.after p w s).map fun r => (r.1, r.2.2)

namespace Handling

@[simp] theorem alone_ret (a : α) : alone cfg maxSize (.ret a) w s = .ok (a, s) := rfl

theorem alone_call (c : Operation) (k : c.Result → Handling α) :
    alone cfg maxSize (.call c k) w s =
      handle cfg maxSize w s c >>= fun r => alone cfg maxSize (k r.2) (c.after w) r.1 := by
  unfold alone
  rcases h : handle cfg maxSize w s c with f | ⟨s', b⟩
  · rw [Program.alone_call_error h]
    rfl
  · rw [Program.alone_call h]
    rfl

@[simp] theorem alone_orFault (x : Except Fault α) (k : α → Handling β) :
    alone cfg maxSize (orFault x >>= k) w s = x >>= fun a => alone cfg maxSize (k a) w s := by
  cases x <;> rfl

theorem alone_getConnection (hfree : s.checkedOut < maxSize) (k : Bool → Handling α) :
    alone cfg maxSize (.call .getConnection k) w s =
      getConnection w >>= fun res => alone cfg maxSize (k res) w
        (if res then { s with checkedOut := s.checkedOut + 1 } else s) := by
  rw [alone_call, handle, if_pos hfree]
  rcases getConnection w with f | res <;> rfl

theorem alone_eq_ok {p : Handling α} {r : α × Shared} (h : alone cfg maxSize p w s = .ok r) :
    ∃ w', Program.alone (handle cfg maxSize) Operation.after p w s = .ok (r.1, w', r.2) := by
  unfold alone at h
  rcases hp : Program.alone (handle cfg maxSize) Operation.after p w s with f | ⟨a, w', s'⟩
  · rw [hp] at h
    cases h
  · rw [hp] at h
    cases h
    exact ⟨w', rfl⟩

theorem alone_bind_ret (p : Handling α) (b : β) :
    alone cfg maxSize (p >>= fun _ => .ret b) w s =
      (alone cfg maxSize p w s).map fun r => (b, r.2) := by
  unfold alone
  rw [Program.alone_bind]
  rcases Program.alone (handle cfg maxSize) Operation.after p w s with f | r <;> rfl

theorem alone_sendTo (message : Option MessageItem) (userId : BitVec 32) (sates : List SateParam)
    (level : ℤ) (str : Except Fault (List Byte)) (k : Handling α) :
    alone cfg maxSize (sendTo message userId sates level str >>= fun _ => k) w s =
      ShortMessage.sendTo userId sates level str >>= fun sent => alone cfg maxSize k w
        { s with network := s.network ++ sent.map (⟨message, ·⟩) } := by
  unfold sendTo ShortMessage.sendTo
  split_ifs
  · simp
  · rw [Program.bind_assoc]
    cases str <;> rfl

end Handling

/-- A handler run alone does what the handler of `Server.lean` does. -/
def Serves (cfg : Config) (maxSize : ℕ) (w : World) (s : Server) (p : Handling Unit)
    (x : Except Fault (Server × List Sent)) : Prop :=
  ∀ network, p.alone cfg maxSize w ⟨s.db, s.checkedOut, network⟩ = x.map fun r =>
    ((), ⟨r.1.db, r.1.checkedOut, network ++ r.2.map (⟨none, ·⟩)⟩)

theorem map_bind_except {γ : Type} (x : Except Fault α) (f : α → Except Fault β) (g : β → γ) :
    (x >>= f).map g = x >>= fun a => (f a).map g := by cases x <;> rfl

theorem bind_congr_except {x : Except Fault α} {f g : α → Except Fault β}
    (h : ∀ a, f a = g a) : x >>= f = x >>= g := congrArg _ (funext h)

theorem serves_nothing (server : Server) :
    Serves cfg maxSize w server (.ret ()) (.ok (server, [])) := by
  intro network
  simp [Except.map]

theorem Serves.orFault {server : Server} {x : Except Fault α} {k : α → Handling Unit}
    {f : α → Except Fault (Server × List Sent)}
    (h : ∀ a, Serves cfg maxSize w server (k a) (f a)) :
    Serves cfg maxSize w server (Handling.orFault x >>= k) (x >>= f) := by
  intro network
  rw [Handling.alone_orFault, map_bind_except]
  exact bind_congr_except fun a => h a network

theorem Serves.getConnection {server : Server} (hfree : server.checkedOut < maxSize)
    {p q : Handling Unit} {x y : Except Fault (Server × List Sent)}
    (h : Serves cfg maxSize w server.checkOut p x) (hnone : Serves cfg maxSize w server q y) :
    Serves cfg maxSize w server
      (do if ← Handling.execute .getConnection then p else q)
      (do if ← ShortMessage.getConnection w then x else y) := by
  intro network
  rw [Program.op_bind, Handling.alone_getConnection hfree, map_bind_except]
  refine bind_congr_except fun res => ?_
  cases res
  · exact hnone network
  · exact h network

theorem Serves.close {server : Server} {k : Unit → Handling Unit}
    {x : Except Fault (Server × List Sent)} (h : Serves cfg maxSize w server.close (k ()) x) :
    Serves cfg maxSize w server (Handling.execute .close >>= k) x := h

/-- An operation that may change the tables, or not return. -/
theorem Serves.update {server : Server} {c : Operation} {x : Except Fault (Db × c.Result)}
    (hc : ∀ network, handle cfg maxSize w ⟨server.db, server.checkedOut, network⟩ c =
      x >>= fun r => .ok (⟨r.1, server.checkedOut, network⟩, r.2))
    {k : c.Result → Handling Unit} {f : Db × c.Result → Except Fault (Server × List Sent)}
    (h : ∀ r, Serves cfg maxSize (c.after w) { server with db := r.1 } (k r.2) (f r)) :
    Serves cfg maxSize w server (Handling.execute c >>= k) (x >>= f) := by
  intro network
  rw [Program.op_bind, Handling.alone_call, hc, map_bind_except]
  rcases x with _ | r
  · rfl
  · exact h r network

theorem serves_send (server : Server) (sent : Sent) :
    Serves cfg maxSize w server (Handling.execute (.sendMessage none sent))
      (.ok (server, [sent])) := fun _ => rfl

/-- An operation that returns leaves what `server'` has. -/
theorem Serves.execute {server : Server} (server' : Server) {c : Operation} (b : c.Result)
    (hc : ∀ network, handle cfg maxSize w ⟨server.db, server.checkedOut, network⟩ c =
      .ok (⟨server'.db, server'.checkedOut, network⟩, b))
    {k : c.Result → Handling Unit} {x : Except Fault (Server × List Sent)}
    (h : Serves cfg maxSize (c.after w) server' (k b) x) :
    Serves cfg maxSize w server (Handling.execute c >>= k) x := by
  intro network
  rw [Program.op_bind, Handling.alone_call, hc]
  exact h network

theorem Serves.getSateCover {server : Server} {userId : BitVec 32}
    {k : List SateParam → Handling Unit} {x : Except Fault (Server × List Sent)}
    (h : Serves cfg maxSize w.next server
      (k (ShortMessage.getSateCover cfg.platform (w.fails 0) server.db userId)) x) :
    Serves cfg maxSize w server (Handling.execute (.getSateCover userId) >>= k) x :=
  .execute server _ (fun _ => rfl) h

/-- The receipt of a login, whatever is done with it. -/
theorem Serves.login {server : Server} {userId : BitVec 32} {sate : Satellite}
    {response : Response} {k : Response → Handling Unit}
    {f : Db × Response → Except Fault (Server × List Sent)}
    (h : ∀ w' r, Serves cfg maxSize w' { server with db := r.1 } (k r.2) (f r)) :
    Serves cfg maxSize w server (Handling.login userId sate response >>= k)
      (ShortMessage.login cfg.platform w server.db userId sate response >>= f) := by
  unfold Handling.login ShortMessage.login
  rw [Program.bind_assoc]
  refine .execute server (isExistUser (w.fails 0) server.db userId) (fun _ => rfl) ?_
  split_ifs
  · rw [Program.bind_assoc]
    have hassoc (g : Db × Bool → Except Fault (Db × Response)) (x : Except Fault (Db × Bool)) :
        x >>= g >>= f = x >>= fun a => g a >>= f := by cases x <;> rfl
    rw [hassoc]
    refine .update (fun _ => rfl) fun r => ?_
    rcases r with ⟨db, _ | _⟩
    · exact h _ (db, _)
    · exact .execute { server with db := db } (getOfflineMessageNum (w.fails 2) db userId)
        (fun _ => rfl) (h _ (db, _))
  · exact h _ (server.db, _)

/-- A send that is made when there is coverage, before what is sent by `p`. -/
theorem Serves.sendTo {server : Server} {userId : BitVec 32} {sates : List SateParam} {level : ℤ}
    {str : Except Fault (List Byte)} {p : Handling Unit} {x : Except Fault (List Sent)}
    (h : Serves cfg maxSize w server p (x >>= fun sent => .ok (server, sent))) :
    Serves cfg maxSize w server (Handling.sendTo none userId sates level str >>= fun _ => p)
      (ShortMessage.sendTo userId sates level str >>= fun sent =>
        x >>= fun sent' => .ok (server, sent ++ sent')) := by
  intro network
  rw [Handling.alone_sendTo, map_bind_except]
  refine bind_congr_except fun sent => ?_
  rw [h]
  cases x
  · rfl
  · simp [Except.map]

theorem serves_sendTo (server : Server) (userId : BitVec 32) (sates : List SateParam) (level : ℤ)
    (str : Except Fault (List Byte)) :
    Serves cfg maxSize w server (Handling.sendTo none userId sates level str)
      (sendTo userId sates level str >>= fun sent => .ok (server, sent)) := by
  intro network
  unfold Handling.sendTo sendTo
  split_ifs
  · simp [Except.map]
  · cases str <;> rfl

end Alone

section Handlers

variable {cfg : Config} {maxSize : ℕ} {w : World} {server : Server} {head : Ptr}

theorem processMobileRequest_serves (hfree : server.checkedOut < maxSize) :
    Serves cfg maxSize w server (Handling.processMobileRequest cfg head)
      (processMobileRequest cfg w server head) := by
  refine .orFault fun fromId => .orFault fun sate => ?_
  rcases sate with _ | sate
  · exact serves_nothing server
  · refine .orFault fun response => .getConnection hfree ?_ (serves_nothing server)
    exact .update (fun _ => rfl) fun _ => .close (.orFault fun str => serves_send _ _)

theorem processLogout_serves (hfree : server.checkedOut < maxSize) :
    Serves cfg maxSize w server (Handling.processLogout head)
      (processLogout cfg w server head) := by
  refine .orFault fun fromId => .orFault fun response => .getConnection hfree ?_
    (serves_nothing server)
  exact .getSateCover (.update (fun _ => rfl) fun _ => .close (.orFault fun str => serves_send _ _))

theorem processLogin_serves (hfree : server.checkedOut < maxSize) :
    Serves cfg maxSize w server (Handling.processLogin cfg head)
      (processLogin cfg w server head) := by
  refine .orFault fun fromId => .orFault fun sate => ?_
  rcases sate with _ | sate
  · exact serves_nothing server
  · refine .orFault fun response => .getConnection hfree (.login fun _ r => ?_)
      (serves_nothing server)
    exact .close (.orFault fun str => serves_send _ _)

theorem processSimpleMessage_serves (hfree : server.checkedOut < maxSize) :
    Serves cfg maxSize w server (Handling.processSimpleMessage server.served head)
      (processSimpleMessage cfg w server head) := by
  refine .orFault fun toId => .orFault fun fromId => .getConnection hfree ?_
    (serves_nothing server)
  refine .update (fun _ => rfl) fun ⟨db, res⟩ => ?_
  cases res
  · exact .close (serves_nothing _)
  · exact .getSateCover (.close (serves_sendTo _ _ _ _ _))

theorem processCompleteMessage_serves (hfree : server.checkedOut < maxSize) :
    Serves cfg maxSize w server (Handling.processCompleteMessage server.served head)
      (processCompleteMessage cfg w server head) := by
  refine .orFault fun toId => .orFault fun fromId => .getConnection hfree ?_
    (serves_nothing server)
  refine .update (fun _ => rfl) fun ⟨db, res⟩ => ?_
  cases res
  · exact serves_nothing _
  · refine .getSateCover (.getSateCover (.close (.orFault fun frameId => ?_)))
    exact .sendTo (serves_sendTo _ _ _ _ _)

theorem processReceipt_serves (hfree : server.checkedOut < maxSize) :
    Serves cfg maxSize w server (Handling.processReceipt head) (processReceipt w server head) := by
  refine .orFault fun toId => .orFault fun fromId => .orFault fun receiptType => ?_
  split_ifs
  · exact serves_nothing server
  · refine .orFault fun frameId => ?_
    refine .getConnection hfree ?_ fun _ => rfl
    refine .execute server.checkOut
      (getOfflineMessage w (w.fails 0) server.checkOut.db _ _ _ _ _) (fun _ => rfl) ?_
    unfold receipt
    show Serves _ _ _ _ _ (.ok _)
    dsimp only
    split_ifs
    · let db := (deleteOfflineMessage (w.fails 1) server.checkOut.db (ntohl fromId) (ntohl toId)
        (ntohs frameId))
      refine .execute { server.checkOut with db := db.1 } db.2 (fun _ => rfl) ?_
      exact .execute _ (insertStoreMessageItem w (w.fails 2) db.1 _ _).2 (fun _ => rfl)
        (.close (serves_nothing _))
    · exact .close (serves_nothing _)

theorem accessToLogic_serves (hfree : server.checkedOut < maxSize) (bytes : List Byte) :
    Serves cfg maxSize w server (Handling.accessToLogic cfg server.served bytes)
      (accessToLogic cfg w server bytes) := by
  unfold Handling.accessToLogic accessToLogic
  split_ifs
  · exact serves_nothing server
  · refine .orFault fun b => ?_
    rcases SignalType.ofByte b with _ | t
    · exact serves_nothing server
    · cases t with
      | login => exact processLogin_serves hfree
      | logout => exact processLogout_serves hfree
      | mobileManagerRequest => exact processMobileRequest_serves hfree
      | simpleMessage => exact processSimpleMessage_serves hfree
      | completeMessage => exact processCompleteMessage_serves hfree
      | receipte => exact processReceipt_serves hfree
      | forwardNoackMessage | backwardNoackMessage | inquireMessageRequest =>
        exact serves_nothing server

end Handlers

/-! ## Passes -/

/-- What a step hands to `SendMessage`. -/
def Out.transmissions (out : Out) : List Transmission :=
  out.sent.map (⟨none, ·⟩) ++ out.resent.map fun e => ⟨some e.1, e.2⟩

section Pass

variable {cfg : Config} {maxSize : ℕ} {w : World} {α : Type}

/-- The world once `k` statements have been executed. -/
def World.drop (w : World) (k : ℕ) : World := { w with fails := fun i => w.fails (k + i) }

theorem World.drop_zero (w : World) : w.drop 0 = w := by simp [World.drop]

theorem World.next_drop (w : World) (k : ℕ) : (w.drop k).next = w.drop (k + 1) := by
  simp only [World.drop, World.next, Nat.add_assoc, Nat.add_comm 1]

theorem alone_retryLoop (interval : ℤ) (cont : List MessageItem → Handling α) :
    ∀ (rows : List CacheRow) (k : ℕ) (s : Shared),
    (Handling.retryLoop interval w.now rows >>= cont).alone cfg maxSize (w.drop k) s =
      (cont (retryLoop w interval k rows s.db.messageCache).2).alone cfg maxSize
        (w.drop (k + (retryLoop w interval k rows s.db.messageCache).2.length))
        (s.setDb { s.db with
          messageCache := (retryLoop w interval k rows s.db.messageCache).1 })
  | [], k, s => rfl
  | r :: rows, k, s => by
    unfold Handling.retryLoop
    rw [Program.bind_assoc, Program.op_bind, Handling.alone_call]
    unfold retryLoop
    dsimp only [handle]
    have hfail : (w.drop k).fails 0 = w.fails k := rfl
    have hafter : (Operation.updateRetry r.item (r.retryNum + 1)
      (w.now + (r.retryNum + 1) * interval)).after (w.drop k) = w.drop (k + 1) := w.next_drop k
    rw [hfail, hafter]
    split_ifs
    · rfl
    · rw [ok_bind]
      dsimp only
      rw [if_pos rfl, Program.bind_assoc, alone_retryLoop interval _ rows (k + 1)]
      simp only [Program.pure_eq, Program.ret_bind, List.length_cons, Nat.add_assoc, Nat.add_comm 1]
      rfl

theorem alone_resendLoop (cont : Handling α) :
    ∀ (messages : List MessageItem) (k : ℕ) (s : Shared),
    (Handling.resendLoop messages >>= fun _ => cont).alone cfg maxSize (w.drop k) s =
      resendLoop cfg w s.db k messages >>= fun resent =>
        cont.alone cfg maxSize (w.drop (k + messages.length))
          { s with network := s.network ++ resent.map fun e => ⟨some e.1, e.2⟩ }
  | [], k, s => by
    unfold Handling.resendLoop resendLoop
    simp
  | message :: messages, k, s => by
    unfold Handling.resendLoop resendLoop
    dsimp only
    rw [Program.bind_assoc, Program.op_bind, Handling.alone_call]
    have hafter : (Operation.getSateCover message.toId).after (w.drop k) = w.drop (k + 1) :=
      w.next_drop k
    dsimp only [handle]
    rw [ok_bind, hafter, Program.bind_assoc, Handling.alone_sendTo]
    simp only [alone_resendLoop cont messages (k + 1)]
    have hfail : (w.drop k).fails 0 = w.fails k := rfl
    rw [hfail]
    rcases sendTo message.toId (getSateCover cfg.platform (w.fails k) s.db message.toId) 5
      (messageEncodeItem message) with f | sent
    · rfl
    · rcases resendLoop cfg w s.db (k + 1) messages with f | rest
      · rfl
      · simp only [ok_bind, List.length_cons, Nat.add_assoc, Nat.add_comm 1, pure, Except.pure,
          List.map_append, List.map_map, List.append_assoc]
        rfl

theorem alone_getAllOfflineMessage (interval : ℤ) (cont : List MessageItem → Handling α)
    (s : Shared) :
    (Handling.getAllOfflineMessage interval >>= cont).alone cfg maxSize w s =
      (cont (getAllOfflineMessage w cfg.maxRetryCount interval s.db).2).alone cfg maxSize
        (w.drop (1 + (getAllOfflineMessage w cfg.maxRetryCount interval s.db).2.length))
        (s.setDb (getAllOfflineMessage w cfg.maxRetryCount interval s.db).1) := by
  have hafter (now : ℤ) : (Operation.selectDue now).after (Operation.time.after w) = w.drop 1 := by
    rw [← Nat.zero_add 1, ← World.next_drop, World.drop_zero]
    rfl
  have hfail : (Operation.time.after w).fails 0 = w.fails 0 := rfl
  unfold Handling.getAllOfflineMessage getAllOfflineMessage
  rw [Program.bind_assoc, Program.op_bind, Handling.alone_call]
  dsimp only [handle]
  rw [ok_bind, Program.bind_assoc, Program.op_bind, Handling.alone_call]
  dsimp only [handle]
  rw [ok_bind, hafter, alone_retryLoop, hfail]
  split_ifs <;> rfl

theorem qosPass_alone {server : Server} (hfree : server.checkedOut < maxSize)
    (network : List Transmission) :
    (Handling.qosPass cfg).alone cfg maxSize w ⟨server.db, server.checkedOut, network⟩ =
      (qosPass cfg w server).map fun r => (r.2.handed, ⟨r.1.db, r.1.checkedOut,
        network ++ r.2.transmissions⟩) := by
  unfold Handling.qosPass qosPass
  rw [Program.op_bind, Handling.alone_getConnection hfree, map_bind_except]
  refine bind_congr_except fun res => ?_
  cases res
  · rfl
  · rw [if_pos rfl, if_pos rfl, alone_getAllOfflineMessage, alone_resendLoop]
    let r := getAllOfflineMessage w cfg.maxRetryCount cfg.msgInterval server.db
    show resendLoop cfg w r.1 (1 + r.2.length) r.2 >>= _ =
      (resendLoop cfg w r.1 (1 + r.2.length) r.2 >>= _).map _
    rcases resendLoop cfg w r.1 (1 + r.2.length) r.2 with _ | _ <;> rfl

end Pass

/-! ## Runs -/

section Runs

variable {cfg : Config} {maxSize : ℕ}

/-- A thread that runs alone does what `serve` does. -/
theorem handling_alone {s : Server} (hfree : s.checkedOut < maxSize) (l : Label)
    (network : List Transmission) :
    (handling cfg s.served l.input).alone cfg maxSize l.world ⟨s.db, s.checkedOut, network⟩ =
      (serve cfg s l).map fun r => (r.2.handed, ⟨r.1.db, r.1.checkedOut,
        network ++ r.2.transmissions⟩) := by
  rcases l with ⟨bytes | _, w⟩
  · refine (Handling.alone_bind_ret _ _).trans ?_
    rw [accessToLogic_serves hfree bytes network]
    rcases h : accessToLogic cfg w s bytes with f | r
    · simp [serve, h, Except.map]
    · simp [serve, h, Except.map, Out.transmissions, Out.ofSent, pure, Except.pure]
  · exact qosPass_alone hfree network

/-- A run that serves one request after the other is a run of the threads, as long as a connection
is left at each step. Every thread has come to its end. -/
theorem reaches_serial {sateCover : List SateRow} {userInfo : List ℤ} {h : History} {s : Server}
    (hr : Run.Reaches (step cfg) (fun s _ => s.checkedOut < maxSize)
      (Server.start sateCover userInfo) h s) :
    ∃ hist, Run.Reaches (ServerThreads.step cfg maxSize) ServerThreads.OneDaemon
      (ServerThreads.start sateCover userInfo) hist
      ⟨⟨s.db, s.checkedOut, h.flatMap fun e => e.2.transmissions⟩,
        h.map fun e => ⟨e.1.input, .ret e.2.handed⟩⟩ := by
  induction hr with
  | start => exact ⟨[], .start⟩
  | @next h s l s' out hr hfree hs ih =>
    obtain ⟨hist, hthreads⟩ := ih
    have hserved : s.served = h.length := (reaches_sound hr).served
    obtain ⟨⟨s₁, out₁⟩, hserve, hs⟩ := bind_eq_ok.1 hs
    cases hs
    have halone := @handling_alone cfg _ _ hfree l (h.flatMap fun e => e.2.transmissions)
    rw [hserve] at halone
    obtain ⟨w', halone⟩ := Handling.alone_eq_ok halone
    have hdone (p : ServerThreads) (hp : p.threads = h.map fun e => ⟨e.1.input, .ret e.2.handed⟩) :
        p.OneDaemon (.spawn l.input) := by
      intro _ th hth _
      rw [hp] at hth
      obtain ⟨e, -, rfl⟩ := List.mem_map.1 hth
      exact ⟨_, rfl⟩
    have hspawn := hthreads.next (hdone _ rfl) (Interleaving.step_spawn l.input)
    rw [List.length_map, ← hserved] at hspawn
    obtain ⟨more, hr'⟩ := Interleaving.reaches_alone halone (fun _ _ _ => nofun) hspawn
      List.getElem?_concat_length
    refine ⟨hist ++ [(.spawn l.input, none)] ++ more, ?_⟩
    simpa using hr'

theorem reaches_serial_hello : ∃ hist network, Run.Reaches (ServerThreads.step exactConfig 1)
    ServerThreads.OneDaemon (ServerThreads.start coverOne []) hist
      ⟨⟨helloCached.db, 0, network⟩, [⟨.request hello, .ret []⟩]⟩ := by
  obtain ⟨sent, hstep, -⟩ := hello_acks
  obtain ⟨hist, hr⟩ := reaches_serial (.next .start Nat.zero_lt_one hstep)
  exact ⟨hist, _, hr⟩

end Runs

end ShortMessage
