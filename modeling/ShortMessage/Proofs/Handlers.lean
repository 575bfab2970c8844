import Mathlib.Data.List.GetD
import ShortMessage.Server

/-!
# What the handlers do

`GetConnection` returns a connection or does not return (`getConnection_cases`). From there on a
message handler is one expression over what it reads of its request (`processSimpleMessage_eq`,
`processCompleteMessage_eq`). What a handler that returned has read, stored and sent is said once
for each of them (`processLogin_returns` and its siblings), and once for a step (`step_returns`).
-/

namespace ShortMessage

open CMemory

section Reads

variable {head : Ptr}

theorem head_reads (h : 11 ≤ head.length) : ∃ fromId toId frameId,
    ControlHead.fromId head = .ok fromId ∧ ControlHead.toId head = .ok toId ∧
      ControlHead.frameId head = .ok frameId ∧ ControlHead.type head = .ok (head.getD 10 0) := by
  refine ⟨_, _, _, read32_ok (by omega), read32_ok (by omega), read16_ok (by omega), ?_⟩
  rw [ControlHead.type, read8_ok (by omega), List.getD_eq_getElem _ _ (by omega)]

/-- What the inserts take from a request is what the handlers read of it. -/
theorem readHead_eq_ok {m : Head} : readHead head = .ok m ↔
    ControlHead.toId head = .ok (htonl m.toId) ∧ ControlHead.fromId head = .ok (htonl m.fromId) ∧
      ControlHead.frameId head = .ok (htons m.frameId) ∧ ControlHead.type head = .ok m.type ∧
        cstr (ControlHead.content head) = .ok m.text := by
  simp only [readHead, bind_eq_ok]
  constructor
  · rintro ⟨toId, ht, fromId, hf, frameId, hc, type, hty, text, htext, hm⟩
    cases hm
    exact ⟨by rw [ht, htonl_ntohl], by rw [hf, htonl_ntohl], by rw [hc, htons_ntohs], hty, htext⟩
  · rintro ⟨ht, hf, hc, hty, htext⟩
    refine ⟨_, ht, _, hf, _, hc, _, hty, _, htext, ?_⟩
    rw [ntohl_htonl, ntohl_htonl, ntohs_htons]
    rfl

theorem readHead_type {m : Head} (h : readHead head = .ok m) :
    ControlHead.type head = .ok m.type := (readHead_eq_ok.1 h).2.2.2.1

theorem answer_ok (h : 12 ≤ head.length) (receiptType : Byte) :
    ∃ response, answer head receiptType = .ok response := by
  obtain ⟨fromId, toId, frameId, hf, ht, hc, -⟩ := head_reads (show 11 ≤ head.length by omega)
  refine ⟨⟨fromId, toId, frameId, 0x80, head[11], receiptType, 0x00⟩, ?_⟩
  rw [answer, hf, ok_bind, ht, ok_bind, hc, ok_bind, ControlHead.retain, read8_ok (by omega)]
  rfl

theorem responseEncode_ok (response : Response) : ∃ buf, responseEncode response = .ok buf :=
  ⟨_, rfl⟩

end Reads

/-! ## Connections -/

section Connection

theorem getConnectionLoop_cases (pool : ℕ → Bool) : ∀ fuel i,
    getConnectionLoop pool fuel i 3 = .ok true ∨ getConnectionLoop pool fuel i 3 = .error .blocked
  | 0, _ => .inr rfl
  | fuel + 1, i => by
    unfold getConnectionLoop
    rw [if_pos (by decide)]
    split_ifs
    · exact .inl rfl
    · exact getConnectionLoop_cases pool fuel (i + 1)

/-- `GetConnection` returns a connection or does not return. -/
theorem getConnection_cases (w : World) :
    getConnection w = .ok true ∨ getConnection w = .error .blocked :=
  getConnectionLoop_cases w.pool w.attempts 0

/-- What a handler does with its connection is all that can go out of bounds from there on. -/
theorem inBounds_connected {α : Type} {w : World} {x y : Except Fault α} :
    InBounds (do if ← getConnection w then x else y) ↔
      (getConnection w = .ok true → InBounds x) := by
  rcases getConnection_cases w with h | h <;> rw [h]
  · simp
  · simp [Fault.OutOfBounds]

theorem connected_eq_ok {α : Type} {w : World} {x y : Except Fault α} {a : α} :
    (do if ← getConnection w then x else y) = .ok a ↔ getConnection w = .ok true ∧ x = .ok a := by
  rcases getConnection_cases w with h | h <;> rw [h]
  · simp
  · simp

end Connection

/-! ## Mobile management -/

section Mobile

variable {cfg : Config} {w : World} {s : Server} {head : Ptr} {r : Server × List Sent}

/-- An update takes effect or throws, and a login is acknowledged when it takes effect. -/
theorem login_returns {pf : Platform} {db db' : Db} {userId : BitVec 32} {sate : Satellite}
    {response response' : Response}
    (h : login pf w db userId sate response = .ok (db', response')) :
    (isExistUser (w.fails 0) db userId = true ∧ w.fails 1 = false ∧
      updateSateCover pf false db userId sate = .ok (db', true) ∧ ∃ receiptIndicate,
        response' = { response with receiptType := 0x00, receiptIndicate := receiptIndicate }) ∨
    ((isExistUser (w.fails 0) db userId = true → w.fails 1 = true) ∧ db' = db ∧
      response' = { response with receiptType := 0x01, receiptIndicate := 0x00 }) := by
  unfold login at h
  split_ifs at h with hexists
  · obtain ⟨⟨db', res⟩, hupdate, h⟩ := bind_eq_ok.1 h
    obtain ⟨snr, hsnr, heq⟩ := bind_eq_ok.1 hupdate
    cases hfail : w.fails 1
    · rw [hfail] at heq hupdate
      cases heq
      cases h
      exact .inl ⟨hexists, rfl, hupdate, _, rfl⟩
    · rw [hfail, if_pos rfl] at heq
      cases heq
      cases h
      exact .inr ⟨fun _ => rfl, rfl, rfl⟩
  · cases h
    exact .inr ⟨fun h => absurd h hexists, rfl, rfl⟩

theorem processLogin_returns (h : processLogin cfg w s head = .ok r) :
    ∃ fromId, ControlHead.fromId head = .ok fromId ∧
      (readSatellite cfg.platform head = .ok none ∧ r = (s, []) ∨
        ∃ sate response db response' str, readSatellite cfg.platform head = .ok (some sate) ∧
          answer head 0x01 = .ok response ∧
          login cfg.platform w s.db (ntohl fromId) sate response = .ok (db, response') ∧
          responseEncode response' = .ok str ∧
          r = ({ s with db := db }, [⟨ntohl fromId, str, sate.satesParam, 10⟩])) := by
  unfold processLogin at h
  obtain ⟨fromId, hf, h⟩ := bind_eq_ok.1 h
  obtain ⟨_ | sate, hsate, h⟩ := bind_eq_ok.1 h
  · cases h
    exact ⟨fromId, hf, .inl ⟨hsate, rfl⟩⟩
  · obtain ⟨response, hans, h⟩ := bind_eq_ok.1 h
    obtain ⟨-, h⟩ := connected_eq_ok.1 h
    obtain ⟨⟨db, response'⟩, hlogin, h⟩ := bind_eq_ok.1 h
    obtain ⟨str, hstr, h⟩ := bind_eq_ok.1 h
    cases h
    exact ⟨fromId, hf, .inr ⟨sate, response, db, response', str, hsate, hans, hlogin, hstr, rfl⟩⟩

theorem processMobileRequest_returns (h : processMobileRequest cfg w s head = .ok r) :
    ∃ fromId, ControlHead.fromId head = .ok fromId ∧
      (readSatellite cfg.platform head = .ok none ∧ r = (s, []) ∨
        ∃ sate response db res str, readSatellite cfg.platform head = .ok (some sate) ∧
          answer head 0x03 = .ok response ∧
          updateSateCover cfg.platform (w.fails 0) s.db (ntohl fromId) sate = .ok (db, res) ∧
          responseEncode response = .ok str ∧
          r = ({ s with db := db }, [⟨ntohl fromId, str, sate.satesParam, 10⟩])) := by
  unfold processMobileRequest at h
  obtain ⟨fromId, hf, h⟩ := bind_eq_ok.1 h
  obtain ⟨_ | sate, hsate, h⟩ := bind_eq_ok.1 h
  · cases h
    exact ⟨fromId, hf, .inl ⟨hsate, rfl⟩⟩
  · obtain ⟨response, hans, h⟩ := bind_eq_ok.1 h
    obtain ⟨-, h⟩ := connected_eq_ok.1 h
    obtain ⟨⟨db, res⟩, hupdate, h⟩ := bind_eq_ok.1 h
    obtain ⟨str, hstr, h⟩ := bind_eq_ok.1 h
    cases h
    exact ⟨fromId, hf, .inr ⟨sate, response, db, res, str, hsate, hans, hupdate, hstr, rfl⟩⟩

/-- A logout is answered over the coverage it then empties. -/
theorem processLogout_returns (h : processLogout cfg w s head = .ok r) :
    ∃ fromId response db res str, ControlHead.fromId head = .ok fromId ∧
      answer head 0x02 = .ok response ∧
      updateSateCover cfg.platform (w.fails 1) s.db (ntohl fromId) ⟨0, 0, []⟩ = .ok (db, res) ∧
      responseEncode response = .ok str ∧
      r = ({ s with db := db }, [⟨ntohl fromId, str,
        getSateCover cfg.platform (w.fails 0) s.db (ntohl fromId), 10⟩]) := by
  unfold processLogout at h
  obtain ⟨fromId, hf, h⟩ := bind_eq_ok.1 h
  obtain ⟨response, hans, h⟩ := bind_eq_ok.1 h
  obtain ⟨-, h⟩ := connected_eq_ok.1 h
  obtain ⟨⟨db, res⟩, hupdate, h⟩ := bind_eq_ok.1 h
  obtain ⟨str, hstr, h⟩ := bind_eq_ok.1 h
  cases h
  exact ⟨fromId, response, db, res, str, hf, hans, hupdate, hstr, rfl⟩

end Mobile

/-! ## Messages -/

section Messages

variable {cfg : Config} {w : World} {s : Server} {head : Ptr} {m : Head}

/-- A send that is made is made over satellites that were read. -/
theorem sendTo_returns {userId : BitVec 32} {sates : List SateParam} {level : ℤ}
    {str : Except Fault (List Byte)} {sent : List Sent}
    (h : sendTo userId sates level str = .ok sent) :
    ∀ m ∈ sent, m.userId = userId ∧ m.sates = sates ∧ m.level = level ∧ sates ≠ [] ∧
      str = .ok m.buf := by
  intro m hm
  unfold sendTo at h
  split_ifs at h with he
  · cases h
    cases hm
  · obtain ⟨buf, hbuf, h⟩ := bind_eq_ok.1 h
    cases h
    rw [List.mem_singleton] at hm
    subst hm
    exact ⟨rfl, rfl, rfl, fun hnil => he (List.isEmpty_iff.2 hnil), hbuf⟩

/-- A message that was stored goes to its addressee when there is coverage. -/
theorem processSimpleMessage_eq (hconn : getConnection w = .ok true) (hm : readHead head = .ok m) :
    processSimpleMessage cfg w s head =
      if w.fails 0 then .ok (s, [])
      else do
        let sent ← sendTo m.toId (getSateCover cfg.platform (w.fails 1) s.db m.toId) 5
          (messageEncode head)
        return ({ s with db := { s.db with
          messageStore := s.db.messageStore ++ [m.storeRow s.served w.now] } }, sent) := by
  obtain ⟨ht, hf, -⟩ := readHead_eq_ok.1 hm
  unfold processSimpleMessage insertStoreMessage
  rw [ht, ok_bind, hf, ok_bind, hconn, ok_bind, if_pos rfl]
  simp only [hm, ok_bind, ntohl_htonl]
  cases hfail : w.fails 0 <;> rfl

/-- The connection is not closed when the insert fails; the receipt goes out before the message. -/
theorem processCompleteMessage_eq (hconn : getConnection w = .ok true)
    (hm : readHead head = .ok m) :
    processCompleteMessage cfg w s head =
      if w.fails 0 then .ok (s.checkOut, [])
      else do
        let receipt ← sendTo m.fromId (getSateCover cfg.platform (w.fails 2) s.db m.fromId) 10
          (responseEncode (messageReceipt m.fromId (htons m.frameId)))
        let message ← sendTo m.toId (getSateCover cfg.platform (w.fails 1) s.db m.toId) 5
          (messageEncode head)
        return ({ s with db := { s.db with
          messageCache := s.db.messageCache ++ [m.cacheRow s.served w.now] } },
            receipt ++ message) := by
  obtain ⟨ht, hf, hc, -⟩ := readHead_eq_ok.1 hm
  unfold processCompleteMessage insertOfflineMessage
  rw [ht, ok_bind, hf, ok_bind, hconn, ok_bind, if_pos rfl]
  simp only [hm, hc, ok_bind, ntohl_htonl]
  cases hfail : w.fails 0 <;> rfl

/-- What a message handler that returned has read and done. -/
theorem processSimpleMessage_returns {r : Server × List Sent}
    (h : processSimpleMessage cfg w s head = .ok r) :
    ∃ m, readHead head = .ok m ∧
      (w.fails 0 = true ∧ r = (s, []) ∨ w.fails 0 = false ∧ ∃ sent,
        sendTo m.toId (getSateCover cfg.platform (w.fails 1) s.db m.toId) 5 (messageEncode head) =
          .ok sent ∧
        r = ({ s with db := { s.db with
          messageStore := s.db.messageStore ++ [m.storeRow s.served w.now] } }, sent)) := by
  have heq := h
  unfold processSimpleMessage at h
  obtain ⟨toId, -, h⟩ := bind_eq_ok.1 h
  obtain ⟨fromId, -, h⟩ := bind_eq_ok.1 h
  obtain ⟨hconn, h⟩ := connected_eq_ok.1 h
  obtain ⟨_, hinsert, -⟩ := bind_eq_ok.1 h
  obtain ⟨m, hm, -⟩ := bind_eq_ok.1 hinsert
  refine ⟨m, hm, ?_⟩
  rw [processSimpleMessage_eq hconn hm] at heq
  split_ifs at heq with hfail
  · cases heq
    exact .inl ⟨hfail, rfl⟩
  · obtain ⟨sent, hsent, heq⟩ := bind_eq_ok.1 heq
    cases heq
    exact .inr ⟨Bool.eq_false_iff.2 hfail, sent, hsent, rfl⟩

theorem processCompleteMessage_returns {r : Server × List Sent}
    (h : processCompleteMessage cfg w s head = .ok r) :
    ∃ m, readHead head = .ok m ∧
      (w.fails 0 = true ∧ r = (s.checkOut, []) ∨ w.fails 0 = false ∧ ∃ receipt message,
        sendTo m.fromId (getSateCover cfg.platform (w.fails 2) s.db m.fromId) 10
          (responseEncode (messageReceipt m.fromId (htons m.frameId))) = .ok receipt ∧
        sendTo m.toId (getSateCover cfg.platform (w.fails 1) s.db m.toId) 5 (messageEncode head) =
          .ok message ∧
        r = ({ s with db := { s.db with
          messageCache := s.db.messageCache ++ [m.cacheRow s.served w.now] } },
            receipt ++ message)) := by
  have heq := h
  unfold processCompleteMessage at h
  obtain ⟨toId, -, h⟩ := bind_eq_ok.1 h
  obtain ⟨fromId, -, h⟩ := bind_eq_ok.1 h
  obtain ⟨hconn, h⟩ := connected_eq_ok.1 h
  obtain ⟨_, hinsert, -⟩ := bind_eq_ok.1 h
  obtain ⟨m, hm, -⟩ := bind_eq_ok.1 hinsert
  refine ⟨m, hm, ?_⟩
  rw [processCompleteMessage_eq hconn hm] at heq
  split_ifs at heq with hfail
  · cases heq
    exact .inl ⟨hfail, rfl⟩
  · obtain ⟨receipt, hreceipt, heq⟩ := bind_eq_ok.1 heq
    obtain ⟨message, hmessage, heq⟩ := bind_eq_ok.1 heq
    cases heq
    exact .inr ⟨Bool.eq_false_iff.2 hfail, receipt, message, hreceipt, hmessage, rfl⟩

/-- A receipt of another kind is dropped before a connection is asked for. -/
theorem processReceipt_returns {r : Server × List Sent} (h : processReceipt w s head = .ok r) :
    ∃ fromId toId receiptType, ControlHead.toId head = .ok (htonl fromId) ∧
      ControlHead.fromId head = .ok (htonl toId) ∧
      UserAckResponse.receiptType (ControlHead.content head) = .ok receiptType ∧
      (receiptType ≠ 0x60 ∧ r = (s, []) ∨ receiptType = 0x60 ∧ ∃ frameId,
        UserAckResponse.frameId (ControlHead.content head) = .ok (htons frameId) ∧
          getConnection w = .ok true ∧
          r = ({ s with db := receipt w s.db fromId toId frameId }, [])) := by
  unfold processReceipt at h
  obtain ⟨toId, hf, h⟩ := bind_eq_ok.1 h
  obtain ⟨fromId, ht, h⟩ := bind_eq_ok.1 h
  obtain ⟨receiptType, hr, h⟩ := bind_eq_ok.1 h
  refine ⟨ntohl fromId, ntohl toId, receiptType, by rw [ht, htonl_ntohl], by rw [hf, htonl_ntohl],
    hr, ?_⟩
  split_ifs at h with hne
  · cases h
    exact .inl ⟨hne, rfl⟩
  · obtain ⟨frameId, hc, h⟩ := bind_eq_ok.1 h
    obtain ⟨hconn, h⟩ := connected_eq_ok.1 h
    cases h
    exact .inr ⟨not_not.1 hne, ntohs frameId, by rw [hc, htons_ntohs], hconn, rfl⟩

end Messages

/-! ## Retransmission -/

/-- What the daemon sends, it sends to the addressee of a message it was handed. -/
theorem resendLoop_returns {cfg : Config} {w : World} {db : Db} : ∀ (k : ℕ)
    (messages : List MessageItem) {resent : List (MessageItem × Sent)},
    resendLoop cfg w db k messages = .ok resent → ∀ e ∈ resent, e.1 ∈ messages ∧
      e.2.userId = e.1.toId ∧ e.2.level = 5 ∧ messageEncodeItem e.1 = .ok e.2.buf
  | _, [], resent, h, e, he => by
    cases h
    cases he
  | k, message :: messages, resent, h, e, he => by
    unfold resendLoop at h
    obtain ⟨sent, hsent, h⟩ := bind_eq_ok.1 h
    obtain ⟨rest, hrest, h⟩ := bind_eq_ok.1 h
    cases h
    rcases List.mem_append.1 he with he | he
    · obtain ⟨m, hm, rfl⟩ := List.mem_map.1 he
      obtain ⟨hid, -, hlevel, -, hbuf⟩ := sendTo_returns hsent m hm
      exact ⟨List.mem_cons_self, hid, hlevel, hbuf⟩
    · obtain ⟨hmem, hrest⟩ := resendLoop_returns (k + 1) messages hrest e he
      exact ⟨List.mem_cons_of_mem _ hmem, hrest⟩

theorem qosPass_returns {cfg : Config} {w : World} {s : Server} {r : Server × Out}
    (h : qosPass cfg w s = .ok r) :
    ∃ db messages resent, getConnection w = .ok true ∧
      getAllOfflineMessage w cfg.maxRetryCount cfg.msgInterval s.db = (db, messages) ∧
      resendLoop cfg w db (1 + messages.length) messages = .ok resent ∧
      r = ({ s with db := db }, ⟨[], messages, resent⟩) := by
  unfold qosPass at h
  obtain ⟨hconn, h⟩ := connected_eq_ok.1 h
  obtain ⟨resent, hresend, h⟩ := bind_eq_ok.1 h
  cases h
  exact ⟨_, _, resent, hconn, rfl, hresend, rfl⟩

/-! ## Steps -/

/-- A step is a request served or a pass made, and is counted. -/
theorem step_returns {cfg : Config} {s s' : Server} {l : Label} {out : Out}
    (h : step cfg s l = .ok (s', out)) : ∃ s₁, s' = { s₁ with served := s.served + 1 } ∧
      ((∃ bytes sent, l.input = .request bytes ∧
          accessToLogic cfg l.world s bytes = .ok (s₁, sent) ∧ out = .ofSent sent) ∨
        l.input = .pass ∧ qosPass cfg l.world s = .ok (s₁, out)) := by
  obtain ⟨⟨s₁, out₁⟩, hserve, h⟩ := bind_eq_ok.1 h
  cases h
  refine ⟨s₁, rfl, ?_⟩
  unfold serve at hserve
  rcases l with ⟨bytes | _, w⟩
  · obtain ⟨⟨s₂, sent⟩, hlogic, hserve⟩ := bind_eq_ok.1 hserve
    cases hserve
    exact .inl ⟨bytes, sent, rfl, hlogic, rfl⟩
  · exact .inr ⟨rfl, hserve⟩

end ShortMessage
