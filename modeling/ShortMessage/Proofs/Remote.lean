import ShortMessage.Proofs.Rpc
import ShortMessage.Proofs.Selection

/-!
# A remote call is the call

What the client sends is a call the server knows, with the client's arguments, and what the server
answers is what the client expects: so a stub returns or throws as the handler at the other end
did. A connection of `AccessToLogic` calls is a run of the server, and `SendMessage` hands its
message to the access node's handler.
-/

namespace ShortMessage

open CMemory Thrift Reader

variable {p : TProtocol} {σ : Type}

theorem writeResult_eq (p : TProtocol) (m : TMessage) :
    ∃ name, writeResult p m = p.write (.struct name []) := by
  unfold writeResult
  split_ifs
  · exact ⟨_, writeVoid_eq p _⟩
  · exact ⟨_, writeVoid_eq p _⟩

theorem reads_recv_answer (hp : p.Lawful) {name : String} {m : TMessage}
    (hname : m.name = ascii name) (hlen : m.name.length < 2 ^ 31) (hlimit : 0 < p.recursionLimit)
    {outcome : Except TApplicationException Unit}
    (hx : ∀ x, outcome = .error x → x.message.length < 2 ^ 31) :
    Reads (recv p name (readVoid p 0)) (writeAnswer p m outcome) outcome := by
  rcases outcome with x | _
  · exact reads_recv_exception hp name _ m.seqid hlen (hx x rfl) hlimit
  · obtain ⟨rname, hresult⟩ := writeResult_eq p m
    have hbody := takes_result hp [(rname, [])] rfl (List.forall_mem_singleton.2 ⟨trivial, hlimit⟩)
    unfold recv
    rw [writeAnswer, hresult, List.append_assoc]
    refine (hp.message m.name .reply m.seqid hlen).bind ?_
    simp only [reduceCtorEq, ↓reduceIte, hname, ne_eq, not_true_eq_false]
    rw [carried, List.flatMap_singleton] at hbody
    exact hbody

namespace Call

/-- The message that the client sends. -/
def toMessage : Call → TMessage
  | .accessToLogic request =>
    ⟨ascii "AccessToLogic", .call, 0, ascii "LogicInterface_AccessToLogic_pargs",
      [(⟨ascii "request", 1⟩, .string request)]⟩
  | .logicToAccess response =>
    ⟨ascii "LogicToAccess", .call, 0, ascii "LogicInterface_LogicToAccess_pargs",
      [(⟨ascii "response", 1⟩, .struct (ascii "AccessMessage") response.toFields)]⟩

/-- The arguments fit in the words they are sent in. -/
def Fits : Call → Prop
  | .accessToLogic request => request.length < 2 ^ 31
  | .logicToAccess response => response.InRange

theorem send_eq (p : TProtocol) (c : Call) : c.send p = p.writeMessage c.toMessage := by
  rcases c with request | response
  · rw [send, ShortMessage.send, AccessToLogic.writePargs_eq, List.append_assoc]
    rfl
  · rw [send, ShortMessage.send, LogicToAccess.writePargs_eq, List.append_assoc]
    rfl

theorem asked_toMessage {c : Call} (hc : c.Fits) : asked c.toMessage = some c := by
  rcases c with request | response
  · exact if_pos rfl
  · have hresponse : LogicToAccess.response (toMessage (.logicToAccess response)).fields =
        response := AccessMessage.ofFields_toFields hc .zero
    have hname : (toMessage (.logicToAccess response)).name ≠ ascii "AccessToLogic" :=
      accessToLogic_ne_logicToAccess
    have hname' : (toMessage (.logicToAccess response)).name = ascii "LogicToAccess" := rfl
    rw [asked, if_neg hname, if_pos hname', hresponse]

theorem length_name_toMessage (c : Call) : c.toMessage.name.length < 2 ^ 31 := by
  rcases c with request | response
  · exact (by decide : (ascii "AccessToLogic").length < 2 ^ 31)
  · exact (by decide : (ascii "LogicToAccess").length < 2 ^ 31)

theorem isCall_toMessage {c : Call} (hc : c.Fits) (hlimit : 2 < p.recursionLimit) :
    IsCall p c.toMessage := by
  rcases c with request | response
  · exact ⟨.inl rfl, length_name_toMessage _, ⟨hc, trivial⟩, Nat.lt_of_succ_lt hlimit⟩
  · exact ⟨.inl rfl, length_name_toMessage _, ⟨AccessMessage.wfFields_toFields hc, trivial⟩, hlimit⟩

theorem reads_recv (hp : p.Lawful) (c : Call) (hlimit : 0 < p.recursionLimit)
    (outcome : Except TApplicationException Unit)
    (hx : ∀ x, outcome = .error x → x.message.length < 2 ^ 31) :
    Reads (c.recv p) (writeAnswer p c.toMessage outcome) outcome := by
  rcases c with request | response
  · exact reads_recv_answer hp rfl (length_name_toMessage (.accessToLogic request)) hlimit hx
  · exact reads_recv_answer hp rfl (length_name_toMessage (.logicToAccess response)) hlimit hx

variable {ι : Type} [DecidableEq ι]

/-- A remote call is the call: the handler gets what the client was given, and the client returns
or throws as the handler did. -/
theorem run_remote (hp : p.Lawful) (hlimit : 2 < p.recursionLimit) (iface : Iface σ) (i : ι)
    {c : Call} (hc : c.Fits) (s : σ) (hwhat : ∀ what, ((iface.call c).run s).1 = .error what →
      what.length < 2 ^ 31) :
    (c.remote p iface i).run (.quiet s) = some (((iface.call c).run s).1.mapError .unknown,
      .quiet ((iface.call c).run s).2) := by
  have hserver := reads_process hp iface (isCall_toMessage hc hlimit) s []
  have hclient := fun hx => reads_recv hp c (Nat.zero_lt_of_lt hlimit)
    (((iface.call c).run s).1.mapError TApplicationException.unknown) hx []
  have hx : ∀ x, ((iface.call c).run s).1.mapError TApplicationException.unknown = .error x →
      x.message.length < 2 ^ 31 := by
    rcases houtcome : ((iface.call c).run s).1 with what | _
    · rintro x ⟨rfl⟩
      exact hwhat what houtcome
    · rintro x ⟨⟩
  have hquiet : Function.update (fun _ : ι => ([] : List Byte)) i [] = fun _ => [] :=
    Function.update_eq_self i _
  rw [run_answerTo iface (asked_toMessage hc), List.append_nil] at hserver
  rw [List.append_nil] at hclient
  show ((process p iface s).run (c.send p) >>= fun r => (c.recv p).run r.1.2 >>= fun o =>
    some (o.1, Net.mk r.1.1 (Function.update _ i r.2) (Function.update _ i o.2))) = _
  rw [send_eq, hserver]
  show ((c.recv p).run _ >>= _) = _
  rw [hclient hx]
  show some (_, Net.mk _ (Function.update (fun _ => []) i []) (Function.update (fun _ => []) i [])) = _
  rw [hquiet]
  rfl

/-- Any calls of any clients, in any order. -/
theorem run_remotes {α : Type} (hp : p.Lawful) (hlimit : 2 < p.recursionLimit) (iface : Iface σ)
    (hwhat : ∀ c s what, ((iface.call c).run s).1 = .error what → what.length < 2 ^ 31)
    (client : α → ι) (call : α → Call) (as : List α) (has : ∀ a ∈ as, (call a).Fits) (s : σ) :
    (as.mapM fun a => (call a).remote p iface (client a)).run (Net.quiet s) =
      some (((as.mapM fun a => iface.call (call a)).run s).1.map
          (Except.mapError TApplicationException.unknown),
        Net.quiet ((as.mapM fun a => iface.call (call a)).run s).2) := by
  induction as generalizing s with
  | nil => rfl
  | cons a as ih =>
    obtain ⟨ha, has⟩ := List.forall_mem_cons.1 has
    rw [List.mapM_cons, StateT.run_bind, run_remote hp hlimit iface _ ha s (hwhat (call a) s),
      Option.bind_eq_bind, Option.bind_some, StateT.run_bind, ih has, List.mapM_cons]
    rfl

end Call

/-! ## The logic server -/

section Logic

variable {cfg : Config} {worlds : ℕ → World} {s₀ s : Server} {h : History} {ι : Type}

/-- The steps that requests make, each in the next world. -/
def labels (worlds : ℕ → World) (requests : List (ι × List Byte)) : List Label :=
  requests.mapIdx fun i request => ⟨.request request.2, worlds i⟩

/-- The server after the requests, and what was observed of it. -/
def served (cfg : Config) (worlds : ℕ → World) (s₀ : Server) (requests : List (ι × List Byte)) :
    Except Fault (Server × History) :=
  ((requests.mapM fun r => (logicInterfaceHandler cfg worlds).call (.accessToLogic r.2)).run
    (.ok (s₀, []))).2

theorem served_concat (requests : List (ι × List Byte)) (request : ι × List Byte) :
    served cfg worlds s₀ (requests ++ [request]) = (do
      let (s, h) ← served cfg worlds s₀ requests
      let l : Label := ⟨.request request.2, worlds h.length⟩
      let (s, out) ← step cfg s l
      return (s, h ++ [(l, out)])) := by
  rw [served, List.mapM_append]
  rfl

theorem labels_concat (requests : List (ι × List Byte)) (request : ι × List Byte) :
    labels worlds (requests ++ [request]) =
      labels worlds requests ++ [⟨.request request.2, worlds requests.length⟩] :=
  List.mapIdx_concat

theorem length_history {requests : List (ι × List Byte)}
    (hl : h.map (·.1) = labels worlds requests) : h.length = requests.length := by
  rw [← List.length_map (·.1), hl, labels, List.length_mapIdx]

/-- The handler takes the steps of a run, and any run of these steps. -/
theorem served_eq_ok_iff (requests : List (ι × List Byte)) :
    served cfg worlds s₀ requests = .ok (s, h) ↔
      Run.Reaches (step cfg) (fun _ _ => True) s₀ h s ∧ h.map (·.1) = labels worlds requests := by
  induction requests using List.reverseRecOn generalizing s h with
  | nil =>
    refine ⟨fun hs => ?_, ?_⟩
    · cases hs
      exact ⟨.start, rfl⟩
    · rintro ⟨hr, hl⟩
      obtain rfl := List.map_eq_nil_iff.1 hl
      rw [hr.eq_of_nil]
      rfl
  | append_singleton requests request ih =>
    rw [served_concat, labels_concat, bind_eq_ok]
    refine ⟨?_, ?_⟩
    · rintro ⟨⟨s₁, h₁⟩, hs, hnext⟩
      obtain ⟨hr, hl⟩ := ih.1 hs
      obtain ⟨⟨s', out⟩, hstep, hret⟩ := bind_eq_ok.1 hnext
      cases hret
      refine ⟨hr.next trivial hstep, ?_⟩
      rw [List.map_append, hl, length_history hl]
      rfl
    · rintro ⟨hr, hl⟩
      obtain ⟨h₁, h₂, rfl, hl₁, hl₂⟩ := List.map_eq_append_iff.1 hl
      obtain ⟨⟨l, out⟩, rfl, rfl⟩ := List.map_eq_singleton_iff.1 hl₂
      obtain ⟨s₁, hr₁, hr₂⟩ := hr.split
      obtain ⟨s', -, hstep, hnil⟩ := hr₂.head
      rw [← length_history hl₁] at hstep ⊢
      refine ⟨(s₁, h₁), ih.2 ⟨hr₁, hl₁⟩, bind_eq_ok.2 ⟨(s', out), hstep, ?_⟩⟩
      rw [hnil.eq_of_nil]
      rfl

theorem call_logicInterfaceHandler (c : Call) (s : Except Fault (Server × History)) :
    (((logicInterfaceHandler cfg worlds).call c).run s).1 = .ok () := by
  rcases c with request | response
  · rfl
  · rfl

theorem outcomes_logicInterfaceHandler {α : Type} (cs : List α) (f : α → Call)
    (s : Except Fault (Server × History)) :
    ((cs.mapM fun c => (logicInterfaceHandler cfg worlds).call (f c)).run s).1 =
      cs.map fun _ => .ok () := by
  induction cs generalizing s with
  | nil => rfl
  | cons c cs ih =>
    rw [List.mapM_cons, List.map_cons, ← ih (((logicInterfaceHandler cfg worlds).call (f c)).run s).2]
    exact congrArg (· :: _) (call_logicInterfaceHandler (f c) s)

/-- A message that is not stored, from one access node, and nothing at all from another. -/
def twoRequests : List (Bool × List Byte) :=
  [(true, [0#8, 0#8, 0#8, 1#8, 0#8, 0#8, 0#8, 2#8, 0#8, 7#8, 0x50#8, 0#8]), (false, [])]

end Logic

/-! ## The access nodes -/

section Access

open FirstMax

variable {fresh : Address} {addresses : Addresses} {m : Sent}

/-- `SendMessage` with the access node's handler called in place of the remote call. -/
def sendMessageDirect (access : Address → Option (Iface σ)) (s : σ) (fresh : Address)
    (addresses : Addresses) (m : Sent) : Addresses × Bool × σ :=
  match sendMessageOver fresh addresses m.userId m.buf m.sates m.level with
  | (addresses, none) => (addresses, false, s)
  | (addresses, some (send, address)) =>
    match access address with
    | none => (addresses, false, s)
    | some iface => (addresses, (iface.logicToAccess send s).1.isOk, (iface.logicToAccess send s).2)

/-- The message that is sent names a satellite and a beam of the list. -/
theorem sendMessageOver_inRange (hsates : ∀ e ∈ m.sates, AccessMessage.IsInt32 e.sateId ∧
      AccessMessage.IsInt32 e.beamId) (hlevel : AccessMessage.IsInt32 m.level)
    (hbuf : m.buf.length < 2 ^ 31) {addresses' : Addresses} {send : AccessMessage}
    {address : Address} (hsend : sendMessageOver fresh addresses m.userId m.buf m.sates m.level =
      (addresses', some (send, address))) : send.InRange := by
  rcases hbest : (candidates (Configured addresses) SateParam.snr (-1) m.sates).argmax
    SateParam.snr with _ | e
  · rw [sendMessageOver_none hbest] at hsend
    cases hsend
  · obtain ⟨hmem, hcand⟩ := List.mem_filter.1 (List.argmax_mem hbest)
    by_cases hid : e.sateId = -1
    · simp only [sendMessageOver, choose_eq, hbest, Cur.ofBest, hid, ↓reduceIte] at hsend
      cases hsend
    · obtain ⟨a, ha⟩ := Option.isSome_iff_exists.1 (of_decide_eq_true hcand).2
      rw [sendMessageOver_some hid ha hbest] at hsend
      cases hsend
      exact ⟨(hsates e hmem).1, (hsates e hmem).2, hlevel, hbuf⟩

/-- It counts the messages, and takes none. -/
def refuser : Iface ℕ where
  accessToLogic _ n := (.ok (), n)
  logicToAccess _ n := (.error [1#8], n + 1)

end Access

end ShortMessage
