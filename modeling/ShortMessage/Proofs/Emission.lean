import ShortMessage.Proofs.Bounds
import ShortMessage.Proofs.Retry

/-!
# What a sent buffer says

Every buffer handed to `SendMessage` begins with the id it is sent to and has the frame of the
request answered or relayed, or of the cached row, at byte 8, both in network order (`Enveloped`).
A request that stays in bounds and is given a connection is served, so that no send is missed.
-/

namespace ShortMessage

open CMemory

variable {cfg : Config} {w : World} {s s' : Server} {l : Label} {out : Out} {head : Ptr} {db : Db}

/-! ## Envelopes -/

/-- The bytes of a word, the most significant one first. -/
def be16 (x : BitVec 16) : List Byte := [x.extractLsb' 8 8, x.extractLsb' 0 8]

def be32 (x : BitVec 32) : List Byte :=
  [x.extractLsb' 24 8, x.extractLsb' 16 8, x.extractLsb' 8 8, x.extractLsb' 0 8]

theorem le16_htons (x : BitVec 16) : le16 (htons x) = be16 x := by
  obtain ⟨h0, h1⟩ := cat16_bytes (x.extractLsb' 0 8) (x.extractLsb' 8 8)
  rw [le16, htons, swap16, h0, h1, be16]

theorem le32_htonl (x : BitVec 32) : le32 (htonl x) = be32 x := by
  obtain ⟨h0, h1, h2, h3⟩ := cat32_bytes (x.extractLsb' 0 8) (x.extractLsb' 8 8)
    (x.extractLsb' 16 8) (x.extractLsb' 24 8)
  rw [le32, htonl, swap32, h0, h1, h2, h3, be32]

/-- The buffer is addressed to `toId` and is about frame `frameId`. -/
structure Envelope (buf : List Byte) (toId : BitVec 32) (frameId : BitVec 16) : Prop where
  toId : buf.take 4 = be32 toId
  frameId : (buf.drop 8).take 2 = be16 frameId

theorem envelope_header {buf : List Byte} (toId b : BitVec 32) (frameId : BitVec 16) (t r : Byte)
    (h : header (htonl toId) b (htons frameId) t r <+: buf) : Envelope buf toId frameId := by
  obtain ⟨rest, rfl⟩ := h
  constructor
  · rw [← le32_htonl]
    rfl
  · rw [← le16_htons]
    rfl

theorem responseEncode_envelope {response : Response} {buf : List Byte} {toId : BitVec 32}
    {frameId : BitVec 16} (h : responseEncode response = .ok buf)
    (ht : response.toId = htonl toId) (hc : response.frameId = htons frameId) :
    Envelope buf toId frameId := by
  cases h
  rw [ht, hc]
  exact envelope_header toId response.fromId frameId response.type response.retain ⟨_, rfl⟩

theorem messageEncode_returns {buf : List Byte} (h : messageEncode head = .ok buf) :
    ∃ toId fromId frameId t r text, ControlHead.toId head = .ok toId ∧
      ControlHead.frameId head = .ok frameId ∧ buf = header toId fromId frameId t r ++ text := by
  unfold messageEncode at h
  obtain ⟨toId, ht, h⟩ := bind_eq_ok.1 h
  obtain ⟨pos₁, h₁, h⟩ := bind_eq_ok.1 h
  obtain ⟨fromId, -, h⟩ := bind_eq_ok.1 h
  obtain ⟨pos₂, h₂, h⟩ := bind_eq_ok.1 h
  obtain ⟨frameId, hc, h⟩ := bind_eq_ok.1 h
  obtain ⟨pos₃, h₃, h⟩ := bind_eq_ok.1 h
  obtain ⟨t, -, h⟩ := bind_eq_ok.1 h
  obtain ⟨pos₄, h₄, h⟩ := bind_eq_ok.1 h
  obtain ⟨r, -, h⟩ := bind_eq_ok.1 h
  obtain ⟨pos₅, h₅, h⟩ := bind_eq_ok.1 h
  obtain ⟨text, -, h⟩ := bind_eq_ok.1 h
  obtain ⟨pos₆, h₆, h⟩ := bind_eq_ok.1 h
  refine ⟨toId, fromId, frameId, t, r, text ++ [0#8], ht, hc, ?_⟩
  have hout := Cursor.take_eq_ok h
  rw [List.take_left] at hout
  rw [hout, Cursor.put_eq_ok h₆, Cursor.put_eq_ok h₅, Cursor.put_eq_ok h₄, Cursor.put_eq_ok h₃,
    Cursor.put_eq_ok h₂, Cursor.put_eq_ok h₁]
  simp [header, Cursor.start]

theorem messageEncode_envelope {buf : List Byte} {toId : BitVec 32} {frameId : BitVec 16}
    (h : messageEncode head = .ok buf) (ht : ControlHead.toId head = .ok (htonl toId))
    (hc : ControlHead.frameId head = .ok (htons frameId)) : Envelope buf toId frameId := by
  obtain ⟨_, _, _, _, _, text, ht', hc', rfl⟩ := messageEncode_returns h
  rw [ht, Except.ok.injEq] at ht'
  rw [hc, Except.ok.injEq] at hc'
  subst ht' hc'
  exact envelope_header _ _ _ _ _ (List.prefix_append _ _)

theorem messageEncodeItem_envelope {message : MessageItem} {buf : List Byte}
    (h : messageEncodeItem message = .ok buf) : Envelope buf message.toId message.frameId := by
  unfold messageEncodeItem at h
  rw [put_header] at h
  obtain ⟨pos, hpos, h⟩ := bind_eq_ok.1 h
  refine envelope_header _ (htonl message.fromId) _ message.type message.retain ?_
  rw [Cursor.take_eq_ok h, Cursor.put_eq_ok hpos, List.prefix_take_iff, List.append_assoc]
  refine ⟨List.prefix_append _ _, ?_⟩
  simp only [length_header]
  omega

/-! ## Steps -/

/-- What a step sends is addressed to whom it is sent to, and is about the frame of the request, or
of a cached row. -/
structure Enveloped (s : Server) (l : Label) (out : Out) : Prop where
  sent : ∀ m ∈ out.sent, ∃ bytes frameId, l.input = .request bytes ∧
    ControlHead.frameId (headOf bytes) = .ok (htons frameId) ∧ Envelope m.buf m.userId frameId
  resent : ∀ e ∈ out.resent, ∃ r ∈ s.db.messageCache, e.1 = r.item ∧
    Envelope e.2.buf e.2.userId (.ofInt 16 r.frameId)

theorem answer_returns {receiptType : Byte} {response : Response}
    (h : answer head receiptType = .ok response) : ControlHead.fromId head = .ok response.toId ∧
      ControlHead.frameId head = .ok response.frameId := by
  unfold answer at h
  obtain ⟨fromId, hf, h⟩ := bind_eq_ok.1 h
  obtain ⟨toId, -, h⟩ := bind_eq_ok.1 h
  obtain ⟨frameId, hc, h⟩ := bind_eq_ok.1 h
  obtain ⟨retain, -, h⟩ := bind_eq_ok.1 h
  cases h
  exact ⟨hf, hc⟩

/-- An answer to a request goes to its sender. -/
theorem answer_envelope {receiptType : Byte} {response response' : Response} {fromId : BitVec 32}
    {buf : List Byte} (hf : ControlHead.fromId head = .ok fromId)
    (hans : answer head receiptType = .ok response) (hbuf : responseEncode response' = .ok buf)
    (hto : response'.toId = response.toId) (hframe : response'.frameId = response.frameId) :
    ∃ frameId, ControlHead.frameId head = .ok (htons frameId) ∧
      Envelope buf (ntohl fromId) frameId := by
  obtain ⟨hf', hc⟩ := answer_returns hans
  rw [hf, Except.ok.injEq] at hf'
  refine ⟨ntohs response.frameId, by rw [hc, htons_ntohs], responseEncode_envelope hbuf ?_ ?_⟩
  · rw [hto, htonl_ntohl, hf']
  · rw [hframe, htons_ntohs]

/-- A message handler sends the receipt to the sender and the message to the addressee. -/
theorem sendTo_envelope {str : Except Fault (List Byte)} {sates : List SateParam} {level : ℤ}
    {userId : BitVec 32} {frameId : BitVec 16} {sent : List Sent}
    (h : sendTo userId sates level str = .ok sent)
    (hstr : ∀ buf, str = .ok buf → Envelope buf userId frameId) :
    ∀ m ∈ sent, Envelope m.buf m.userId frameId := by
  intro m hm
  obtain ⟨rfl, -, -, -, hbuf⟩ := sendTo_returns h m hm
  exact hstr m.buf hbuf

theorem accessToLogic_enveloped {bytes : List Byte} {r : Server × List Sent}
    (h : accessToLogic cfg w s bytes = .ok r) : ∀ m ∈ r.2, ∃ frameId,
      ControlHead.frameId (headOf bytes) = .ok (htons frameId) ∧
        Envelope m.buf m.userId frameId := by
  intro m hm
  cases accessToLogic_dispatched h with
  | unhandled _ hr =>
    subst hr
    cases hm
  | login _ h =>
    obtain ⟨fromId, hf, ⟨-, rfl⟩ | ⟨sate, response, db, response', str, -, hans, hlogin, hstr,
      rfl⟩⟩ := processLogin_returns h
    · cases hm
    · rw [List.mem_singleton.1 hm]
      rcases login_returns hlogin with ⟨-, -, -, _, rfl⟩ | ⟨-, -, rfl⟩
      · exact answer_envelope hf hans hstr rfl rfl
      · exact answer_envelope hf hans hstr rfl rfl
  | logout _ h =>
    obtain ⟨fromId, response, _, _, str, hf, hans, -, hstr, rfl⟩ := processLogout_returns h
    rw [List.mem_singleton.1 hm]
    exact answer_envelope hf hans hstr rfl rfl
  | mobileRequest _ h =>
    obtain ⟨fromId, hf, ⟨-, rfl⟩ | ⟨sate, response, _, _, str, -, hans, -, hstr, rfl⟩⟩ :=
      processMobileRequest_returns h
    · cases hm
    · rw [List.mem_singleton.1 hm]
      exact answer_envelope hf hans hstr rfl rfl
  | simpleMessage _ h =>
    obtain ⟨msg, hmsg, ⟨-, rfl⟩ | ⟨-, sent, hsent, rfl⟩⟩ := processSimpleMessage_returns h
    · cases hm
    · obtain ⟨ht, -, hc, -⟩ := readHead_eq_ok.1 hmsg
      exact ⟨_, hc, sendTo_envelope hsent (fun buf hbuf => messageEncode_envelope hbuf ht hc) m hm⟩
  | completeMessage _ h =>
    obtain ⟨msg, hmsg, ⟨-, rfl⟩ | ⟨-, receipt, message, hreceipt, hmessage, rfl⟩⟩ :=
      processCompleteMessage_returns h
    · cases hm
    · obtain ⟨ht, -, hc, -⟩ := readHead_eq_ok.1 hmsg
      refine ⟨_, hc, ?_⟩
      rcases List.mem_append.1 hm with hm | hm
      · exact sendTo_envelope hreceipt (fun buf hbuf => responseEncode_envelope hbuf rfl rfl) m hm
      · exact sendTo_envelope hmessage (fun buf hbuf => messageEncode_envelope hbuf ht hc) m hm
  | receipte _ h =>
    obtain ⟨_, _, _, -, -, -, ⟨-, rfl⟩ | ⟨-, _, -, -, rfl⟩⟩ := processReceipt_returns h
    · cases hm
    · cases hm

theorem enveloped_of_step (h : step cfg s l = .ok (s', out)) : Enveloped s l out := by
  obtain ⟨s₁, rfl, ⟨bytes, sent, hl, hlogic, rfl⟩ | ⟨hl, hpass⟩⟩ := step_returns h
  · refine ⟨fun m hm => ?_, nofun⟩
    obtain ⟨frameId, hframe⟩ := accessToLogic_enveloped hlogic m hm
    exact ⟨bytes, frameId, hl, hframe⟩
  · obtain ⟨db, messages, resent, -, hget, hresend, hr⟩ := qosPass_returns hpass
    cases hr
    refine ⟨nofun, fun e he => ?_⟩
    obtain ⟨hmem, hid, -, hbuf⟩ := resendLoop_returns _ _ hresend e he
    obtain ⟨r, hr, hitem⟩ := getAllOfflineMessage_items hget e.1 hmem
    refine ⟨r, hr, hitem.symm, ?_⟩
    have henvelope := messageEncodeItem_envelope hbuf
    rw [hid]
    rwa [← hitem] at henvelope ⊢

/-! ## Requests that are served -/

section Served

variable {pf : Platform}

theorem confined_readSates (pf : Platform) : ∀ (n : ℕ) (pos : Ptr), Confined (readSates pf n pos)
  | 0, _ => confined_ok _
  | n + 1, _ =>
    confined_bind (confined_read8 _ _) fun _ => confined_bind (confined_read8 _ _) fun _ =>
      confined_bind (confined_read32 _ _) fun _ =>
        confined_bind (confined_readSates pf n _) fun _ => confined_ok _

theorem confined_readSatellite (pf : Platform) (head : Ptr) : Confined (readSatellite pf head) := by
  refine confined_bind (confined_read8 _ _) fun _ => confined_bind (confined_read8 _ _) fun _ => ?_
  split_ifs
  · exact confined_ok _
  · exact confined_bind (confined_readSates _ _ _) fun _ => confined_ok _

theorem confined_tempSnr : ∀ (ps : List SateParam) (snr : Fin 10 → ℚ), Confined (tempSnr ps snr)
  | [], _ => confined_ok _
  | p :: ps, snr => by
    unfold tempSnr
    split_ifs
    · exact confined_tempSnr ps _
    · rintro _ ⟨⟩
      trivial

theorem confined_updateSateCover (fail : Bool) (db : Db) (userId : BitVec 32) (sate : Satellite) :
    Confined (updateSateCover pf fail db userId sate) := by
  refine confined_bind (confined_tempSnr _ _) fun snr => ?_
  split_ifs <;> exact confined_ok _

theorem confined_login (db : Db) (userId : BitVec 32) (sate : Satellite) (response : Response) :
    Confined (login pf w db userId sate response) := by
  unfold login
  split_ifs
  · refine confined_bind (confined_updateSateCover _ _ _ _) fun r => ?_
    simp only []
    split_ifs <;> exact confined_ok _
  · exact confined_ok _

theorem confined_answer (head : Ptr) (receiptType : Byte) : Confined (answer head receiptType) :=
  confined_bind (confined_read32 _ _) fun _ => confined_bind (confined_read32 _ _) fun _ =>
    confined_bind (confined_read16 _ _) fun _ => confined_bind (confined_read8 _ _) fun _ =>
      confined_ok _

theorem confined_responseEncode (response : Response) : Confined (responseEncode response) := by
  obtain ⟨buf, hbuf⟩ := responseEncode_ok response
  rw [hbuf]
  exact confined_ok _

theorem confined_readHead (head : Ptr) : Confined (readHead head) :=
  confined_bind (confined_read32 _ _) fun _ => confined_bind (confined_read32 _ _) fun _ =>
    confined_bind (confined_read16 _ _) fun _ => confined_bind (confined_read8 _ _) fun _ =>
      confined_bind (confined_cstr _) fun _ => confined_ok _

theorem confined_insertStoreMessage (fail : Bool) (n : ℕ) (head : Ptr) :
    Confined (insertStoreMessage w fail n db head) := by
  refine confined_bind (confined_readHead _) fun _ => ?_
  split_ifs <;> exact confined_ok _

theorem confined_insertOfflineMessage (fail : Bool) (n : ℕ) (head : Ptr) :
    Confined (insertOfflineMessage w fail n db head) := by
  refine confined_bind (confined_readHead _) fun _ => ?_
  split_ifs <;> exact confined_ok _

theorem confined_messageEncode (head : Ptr) : Confined (messageEncode head) :=
  confined_bind (confined_read32 _ _) fun _ => confined_bind (Cursor.confined_put _ _) fun _ =>
    confined_bind (confined_read32 _ _) fun _ => confined_bind (Cursor.confined_put _ _) fun _ =>
      confined_bind (confined_read16 _ _) fun _ => confined_bind (Cursor.confined_put _ _) fun _ =>
        confined_bind (confined_read8 _ _) fun _ => confined_bind (Cursor.confined_put _ _) fun _ =>
          confined_bind (confined_read8 _ _) fun _ => confined_bind (Cursor.confined_put _ _)
            fun _ => confined_bind (confined_cstr _) fun _ =>
              confined_bind (Cursor.confined_put _ _) fun _ => Cursor.confined_take _ _

theorem confined_sendTo {userId : BitVec 32} {sates : List SateParam} {level : ℤ}
    {str : Except Fault (List Byte)} (h : Confined str) :
    Confined (sendTo userId sates level str) := by
  unfold sendTo
  split_ifs
  · exact confined_ok _
  · exact confined_bind h fun _ => confined_ok _

theorem confined_messageEncodeItem (message : MessageItem) :
    Confined (messageEncodeItem message) := by
  unfold messageEncodeItem
  rw [put_header]
  exact confined_bind (Cursor.confined_put _ _) fun _ => Cursor.confined_take _ _

theorem confined_resendLoop : ∀ (k : ℕ) (messages : List MessageItem),
    Confined (resendLoop cfg w db k messages)
  | _, [] => confined_ok _
  | k, _ :: messages =>
    confined_bind (confined_sendTo (confined_messageEncodeItem _)) fun _ =>
      confined_bind (confined_resendLoop (k + 1) messages) fun _ => confined_ok _

/-! ## What a handler may fail of -/

/-- An access may fail, and so may the request for a connection, unless one is given. -/
structure Admits (S : Fault → Prop) (w : World) : Prop where
  access : ∀ f : Fault, f.OutOfBounds → S f
  connection : getConnection w = .ok true ∨ S .blocked

variable {S : Fault → Prop} (hw : Admits S w)

include hw

theorem failsIn_connected {α : Type} {x y : Except Fault α} (hx : Confined x) :
    FailsIn S (do if ← getConnection w then x else y) := by
  rcases getConnection_cases w with h | h
  · rw [h]
    exact hx.failsIn hw.access
  · rw [h]
    rintro _ ⟨⟩
    exact hw.connection.resolve_left (by simp [h])

/-- A report is read and its answer begun before the connection is asked for. -/
theorem failsIn_report {α : Type} {a : α} {f : BitVec 32 → Satellite → Response → Except Fault α}
    (receiptType : Byte) (hf : ∀ fromId sate response, Confined (f fromId sate response)) :
    FailsIn S (do
      let fromId ← ControlHead.fromId head
      match ← readSatellite cfg.platform head with
      | none => return a
      | some sate =>
        let response ← answer head receiptType
        if ← getConnection w then f fromId sate response else return a) := by
  refine failsIn_bind ((confined_read32 _ _).failsIn hw.access) fun _ =>
    failsIn_bind ((confined_readSatellite _ _).failsIn hw.access) fun o => ?_
  rcases o with _ | sate
  · exact failsIn_ok _
  · exact failsIn_bind ((confined_answer _ _).failsIn hw.access) fun _ =>
      failsIn_connected hw (hf _ _ _)

theorem failsIn_processLogin : FailsIn S (processLogin cfg w s head) :=
  failsIn_report hw 0x01 fun _ _ _ => confined_bind (confined_login _ _ _ _) fun _ =>
    confined_bind (confined_responseEncode _) fun _ => confined_ok _

theorem failsIn_processLogout : FailsIn S (processLogout cfg w s head) := by
  refine failsIn_bind ((confined_read32 _ _).failsIn hw.access) fun _ =>
    failsIn_bind ((confined_answer _ _).failsIn hw.access) fun _ => failsIn_connected hw ?_
  exact confined_bind (confined_updateSateCover _ _ _ _) fun _ =>
    confined_bind (confined_responseEncode _) fun _ => confined_ok _

theorem failsIn_processMobileRequest : FailsIn S (processMobileRequest cfg w s head) :=
  failsIn_report hw 0x03 fun _ _ _ => confined_bind (confined_updateSateCover _ _ _ _) fun _ =>
    confined_bind (confined_responseEncode _) fun _ => confined_ok _

theorem failsIn_processSimpleMessage : FailsIn S (processSimpleMessage cfg w s head) := by
  refine failsIn_bind ((confined_read32 _ _).failsIn hw.access) fun _ =>
    failsIn_bind ((confined_read32 _ _).failsIn hw.access) fun _ =>
      failsIn_connected hw (confined_bind (confined_insertStoreMessage _ _ _) fun r => ?_)
  simp only []
  split_ifs
  · exact confined_bind (confined_sendTo (confined_messageEncode _)) fun _ => confined_ok _
  · exact confined_ok _

theorem failsIn_processCompleteMessage : FailsIn S (processCompleteMessage cfg w s head) := by
  refine failsIn_bind ((confined_read32 _ _).failsIn hw.access) fun _ =>
    failsIn_bind ((confined_read32 _ _).failsIn hw.access) fun _ =>
      failsIn_connected hw (confined_bind (confined_insertOfflineMessage _ _ _) fun r => ?_)
  simp only []
  split_ifs
  · exact confined_bind (confined_read16 _ _) fun _ =>
      confined_bind (confined_sendTo (confined_responseEncode _)) fun _ =>
        confined_bind (confined_sendTo (confined_messageEncode _)) fun _ => confined_ok _
  · exact confined_ok _

theorem failsIn_processReceipt : FailsIn S (processReceipt w s head) := by
  refine failsIn_bind ((confined_read32 _ _).failsIn hw.access) fun _ =>
    failsIn_bind ((confined_read32 _ _).failsIn hw.access) fun _ =>
      failsIn_bind ((confined_read8 _ _).failsIn hw.access) fun _ => ?_
  split_ifs
  · exact failsIn_ok _
  · exact failsIn_bind ((confined_read16 _ _).failsIn hw.access) fun _ =>
      failsIn_connected hw (confined_ok _)

theorem failsIn_accessToLogic (bytes : List Byte) : FailsIn S (accessToLogic cfg w s bytes) := by
  unfold accessToLogic
  split_ifs
  · exact failsIn_ok _
  · refine failsIn_bind ((confined_read8 _ _).failsIn hw.access) fun b => ?_
    rcases SignalType.ofByte b with _ | t
    · exact failsIn_ok _
    · cases t with
      | login => exact failsIn_processLogin hw
      | logout => exact failsIn_processLogout hw
      | mobileManagerRequest => exact failsIn_processMobileRequest hw
      | simpleMessage => exact failsIn_processSimpleMessage hw
      | completeMessage => exact failsIn_processCompleteMessage hw
      | receipte => exact failsIn_processReceipt hw
      | forwardNoackMessage | backwardNoackMessage | inquireMessageRequest => exact failsIn_ok _

theorem failsIn_qosPass : FailsIn S (qosPass cfg w s) := by
  refine failsIn_connected hw ?_
  exact confined_bind (confined_resendLoop _ _) fun _ => confined_ok _

theorem failsIn_step (input : Input) : FailsIn S (step cfg s ⟨input, w⟩) := by
  refine failsIn_bind ?_ fun _ => failsIn_ok _
  cases input with
  | request bytes => exact failsIn_bind (failsIn_accessToLogic hw bytes) fun _ => failsIn_ok _
  | pass => exact failsIn_qosPass hw

omit hw

/-- A request that fits and is given a connection is served. -/
theorem accessToLogic_served {bytes : List Byte} (hfit : bytes ≠ [] → Fits cfg w s bytes)
    (hconn : getConnection w = .ok true) : ∃ r, accessToLogic cfg w s bytes = .ok r := by
  have hw : Admits Fault.OutOfBounds w := ⟨fun _ h => h, .inl hconn⟩
  unfold accessToLogic
  by_cases hne : bytes = []
  · exact ⟨_, if_pos (by simpa using hne)⟩
  obtain ⟨h10, hfit⟩ := hfit hne
  have h : 11 ≤ (headOf bytes).length := by
    rw [List.length_append, List.length_singleton]
    omega
  obtain ⟨-, -, -, -, -, -, hty⟩ := head_reads h
  have htype : (headOf bytes).getD 10 0 = bytes.getD 10 0 := by
    rcases h10.lt_or_eq with hlt | heq
    · rw [List.getD_append _ _ _ _ hlt]
    · simp [heq]
  rw [if_neg (by simpa using hne)]
  simp only [hty, htype, ok_bind]
  generalize SignalType.ofByte (bytes.getD 10 0) = o at hfit ⊢
  rcases o with _ | t
  · exact ⟨_, rfl⟩
  · cases t with
    | login => exact (failsIn_processLogin hw).returns ((inBounds_processLogin h).2 hfit)
    | logout => exact (failsIn_processLogout hw).returns ((inBounds_processLogout h).2 hfit)
    | mobileManagerRequest =>
      exact (failsIn_processMobileRequest hw).returns ((inBounds_processMobileRequest h).2 hfit)
    | simpleMessage =>
      exact (failsIn_processSimpleMessage hw).returns ((inBounds_processSimpleMessage h).2 hfit)
    | completeMessage =>
      exact (failsIn_processCompleteMessage hw).returns
        ((inBounds_processCompleteMessage h).2 hfit)
    | receipte => exact (failsIn_processReceipt hw).returns ((inBounds_processReceipt h).2 hfit)
    | forwardNoackMessage | backwardNoackMessage | inquireMessageRequest => exact ⟨_, rfl⟩

end Served

/-! ## Passes that are made -/

theorem messageEncodeItem_ok {message : MessageItem} (h : message.content.length ≤ 1011) :
    ∃ buf, messageEncodeItem message = .ok buf := by
  have hlen : (message.content.takeWhile (· ≠ 0#8)).length ≤ message.content.length :=
    (List.takeWhile_sublist _).length_le
  unfold messageEncodeItem
  rw [put_header, Cursor.put_ok _ (by
    simp only [List.length_append, length_header, List.length_singleton, bufSize]
    omega), ok_bind, Cursor.take, if_pos (by
    simp only [length_header, bufSize]
    omega)]
  exact ⟨_, rfl⟩

theorem resendLoop_ok : ∀ (k : ℕ) (messages : List MessageItem),
    (∀ message ∈ messages, message.content.length ≤ 1011) →
      ∃ resent, resendLoop cfg w db k messages = .ok resent
  | _, [], _ => ⟨_, rfl⟩
  | k, message :: messages, h => by
    obtain ⟨hm, hms⟩ := List.forall_mem_cons.1 h
    obtain ⟨buf, hbuf⟩ := messageEncodeItem_ok hm
    obtain ⟨rest, hrest⟩ := resendLoop_ok (k + 1) messages hms
    obtain ⟨sent, hsent⟩ : ∃ sent, sendTo message.toId
        (getSateCover cfg.platform (w.fails k) db message.toId) 5 (.ok buf) = .ok sent := by
      unfold sendTo
      split_ifs <;> exact ⟨_, rfl⟩
    unfold resendLoop
    simp only []
    rw [hbuf, hsent, hrest]
    exact ⟨_, rfl⟩

theorem qosPass_served (hcache : ∀ r ∈ s.db.messageCache, r.text.length ≤ 1011)
    (hconn : getConnection w = .ok true) : ∃ r, qosPass cfg w s = .ok r := by
  rcases hget : getAllOfflineMessage w cfg.maxRetryCount cfg.msgInterval s.checkOut.db with
    ⟨db, messages⟩
  have hitems : ∀ message ∈ messages, message.content.length ≤ 1011 := by
    intro message hm
    obtain ⟨r, hr, rfl⟩ := getAllOfflineMessage_items hget message hm
    exact hcache r hr
  obtain ⟨resent, hresent⟩ : ∃ resent,
      resendLoop cfg w db (1 + messages.length) messages = .ok resent := resendLoop_ok _ _ hitems
  unfold qosPass
  rw [hconn, ok_bind, if_pos rfl]
  simp only [hget, hresent, ok_bind]
  exact ⟨_, rfl⟩

/-- The request fits, or it is empty, and the texts in the cache fit the encoder's buffer. -/
structure WellFormed (cfg : Config) (s : Server) (l : Label) : Prop where
  fits : ∀ bytes, l.input = .request bytes → bytes ≠ [] → Fits cfg l.world s bytes
  short : ∀ r ∈ s.db.messageCache, r.text.length ≤ 1011

/-- Every send of a step is enveloped, and a well-formed step that is given a connection makes all
its sends. -/
theorem step_enveloped (cfg : Config) (s : Server) (l : Label) :
    (∀ s' out, step cfg s l = .ok (s', out) → Enveloped s l out) ∧
      (WellFormed cfg s l → getConnection l.world = .ok true →
        ∃ s' out, step cfg s l = .ok (s', out)) := by
  constructor
  · exact fun s' out h => enveloped_of_step h
  · intro hwf hconn
    suffices ∃ r, serve cfg s l = .ok r by
      obtain ⟨r, hr⟩ := this
      unfold step
      rw [hr]
      exact ⟨_, _, rfl⟩
    unfold serve
    rcases l with ⟨bytes | _, w⟩
    · obtain ⟨r, hr⟩ := accessToLogic_served (hwf.fits bytes rfl) hconn
      simp only [hr, ok_bind]
      exact ⟨_, rfl⟩
    · exact qosPass_served hwf.short hconn

theorem hello_wellFormed : WellFormed exactConfig (Server.start coverOne [])
    ⟨.request hello, .calm 0⟩ := by
  refine ⟨fun bytes hl _ => ?_, nofun⟩
  cases hl
  have htext : 0#8 ∈ (headOf hello).drop 12 := by decide
  exact ⟨by decide, fun _ => ⟨htext, fun _ => by decide⟩⟩

theorem step_enveloped_hello : ∃ s' out,
    step exactConfig (Server.start coverOne []) ⟨.request hello, .calm 0⟩ = .ok (s', out) ∧
      Enveloped (Server.start coverOne []) ⟨.request hello, .calm 0⟩ out := by
  obtain ⟨henveloped, hserved⟩ :=
    step_enveloped exactConfig (Server.start coverOne []) ⟨.request hello, .calm 0⟩
  obtain ⟨s', out, h⟩ := hserved hello_wellFormed rfl
  exact ⟨s', out, h, henveloped s' out h⟩

end ShortMessage
