import ShortMessage.Delivery
import ShortMessage.Proofs.Handlers

/-!
# What a step does to the message tables

A step leaves both tables alone, or it appends one row to one of them, or it is a receipt or a pass
(`step_effect`). What a receipt does depends on the rows it finds (`receipt_failed`, `receipt_none`,
`receipt_some`).
-/

namespace ShortMessage

open CMemory

variable {cfg : Config} {w : World} {s s' : Server} {head : Ptr} {db : Db} {m m' : Head}

/-! ## Requests -/

theorem Label.Takes.readHead {l : Label} {bytes : List Byte} (h : l.Takes m)
    (hl : l.input = .request bytes) : readHead (headOf bytes) = .ok m := by
  obtain ⟨bytes', hl', hm⟩ := h
  rw [hl, Input.request.injEq] at hl'
  rwa [← hl'] at hm

theorem Label.Acknowledges.isReceipt {l : Label} {bytes : List Byte} {fromId toId : BitVec 32}
    {frameId : BitVec 16} (h : l.Acknowledges fromId toId frameId)
    (hl : l.input = .request bytes) : IsReceipt bytes fromId toId frameId := by
  obtain ⟨bytes', hl', hr⟩ := h
  rw [hl, Input.request.injEq] at hl'
  rwa [← hl'] at hr

theorem Label.Takes.eq {l : Label} (h : l.Takes m) (h' : l.Takes m') : m = m' := by
  obtain ⟨bytes, hl, hm⟩ := h
  have hm' := h'.readHead hl
  rwa [hm, Except.ok.injEq] at hm'

theorem Label.Acknowledges.eq {l : Label} {fromId toId fromId' toId' : BitVec 32}
    {frameId frameId' : BitVec 16} (h : l.Acknowledges fromId toId frameId)
    (h' : l.Acknowledges fromId' toId' frameId') :
    fromId = fromId' ∧ toId = toId' ∧ frameId = frameId' := by
  obtain ⟨bytes, hl, hr⟩ := h
  have hr' := h'.isReceipt hl
  have h1 := hr.fromId.symm.trans hr'.fromId
  have h2 := hr.toId.symm.trans hr'.toId
  have h3 := hr.frameId.symm.trans hr'.frameId
  rw [Except.ok.injEq] at h1 h2 h3
  exact ⟨htonl_inj.1 h1, htonl_inj.1 h2, htons_inj.1 h3⟩

/-- A receipt is no text message. -/
theorem Label.Acknowledges.type_eq {l : Label} {fromId toId : BitVec 32} {frameId : BitVec 16}
    (h : l.Acknowledges fromId toId frameId) (ht : l.Takes m) :
    m.type = SignalType.receipte.code := by
  obtain ⟨bytes, hl, hr⟩ := h
  have := readHead_type (ht.readHead hl)
  rwa [hr.type, Except.ok.injEq, eq_comm] at this

/-! ## Receipts -/

section Receipts

variable {fromId toId : BitVec 32} {frameId : BitVec 16}

theorem receipt_failed (h : w.fails 0 = true) : receipt w db fromId toId frameId = db := by
  simp [receipt, getOfflineMessage, h]

/-- A `DELETE` for which there is no row takes none. -/
theorem filter_of_cached_none (h : db.cached fromId toId frameId = []) :
    db.messageCache.filter (·.key ≠ bound fromId toId frameId) = db.messageCache := by
  rw [List.filter_eq_self]
  intro r hr
  simpa using List.filter_eq_nil_iff.1 h r hr

theorem deleteOfflineMessage_of_none (fail : Bool) (h : db.cached fromId toId frameId = []) :
    (deleteOfflineMessage fail db fromId toId frameId).1 = db := by
  unfold deleteOfflineMessage
  split_ifs
  · rfl
  · simp only [filter_of_cached_none h]

theorem receipt_sublist :
    (receipt w db fromId toId frameId).messageCache.Sublist db.messageCache := by
  have hdelete (fail : Bool) :
      (deleteOfflineMessage fail db fromId toId frameId).1.messageCache.Sublist
        db.messageCache := by
    unfold deleteOfflineMessage
    split_ifs
    · exact .refl _
    · exact List.filter_sublist
  unfold receipt
  rcases getOfflineMessage w (w.fails 0) db fromId toId frameId w.leftover w.leftoverTime with
    ⟨res, msg, recvTime⟩
  simp only [insertStoreMessageItem]
  split_ifs
  · exact hdelete _
  · exact hdelete _
  · exact .refl _

theorem order_cached_of_none (w : World) (h : db.cached fromId toId frameId = []) :
    w.order (db.cached fromId toId frameId) = [] := by
  have := w.order_perm (db.cached fromId toId frameId)
  rw [h] at this ⊢
  exact this.eq_nil

/-- Without a row for it, a receipt at most archives what an uninitialised item holds. -/
theorem receipt_none (h : db.cached fromId toId frameId = []) :
    ∃ rows, receipt w db fromId toId frameId =
      { db with messageStore := db.messageStore ++ rows } ∧ ∀ r ∈ rows, r.origin = none := by
  have hself : ∃ rows, db = { db with messageStore := db.messageStore ++ rows } ∧
      ∀ r ∈ rows, StoreRow.origin r = none := ⟨[], by simp, by simp⟩
  have hempty := order_cached_of_none w h
  cases h0 : w.fails 0
  · unfold receipt getOfflineMessage
    unfold Db.cached at hempty
    simp only [h0, hempty, Bool.false_eq_true, ↓reduceIte, Bool.true_and]
    split_ifs
    · simp only [deleteOfflineMessage_of_none (w.fails 1) h, insertStoreMessageItem]
      split_ifs
      · exact hself
      · exact ⟨_, rfl, by simp [MessageItem.storeRow, w.leftover_fresh.2]⟩
    · exact hself
  · rw [receipt_failed h0]
    exact hself

/-- A receipt finds no row, or the first one of those there are in the order it gets them. -/
theorem found_cases (w : World) (db : Db) (fromId toId : BitVec 32) (frameId : BitVec 16) :
    db.cached fromId toId frameId = [] ∨ ∃ r rows,
      w.order (db.cached fromId toId frameId) = r :: rows ∧
        (r :: rows).Perm (db.cached fromId toId frameId) := by
  have hperm := w.order_perm (db.cached fromId toId frameId)
  rcases ho : w.order (db.cached fromId toId frameId) with _ | ⟨r, rows⟩
  · rw [ho] at hperm
    exact .inl hperm.symm.eq_nil
  · rw [ho] at hperm
    exact .inr ⟨r, rows, rfl, hperm⟩

theorem mem_cached {r : CacheRow} : r ∈ db.cached fromId toId frameId ↔
    r ∈ db.messageCache ∧ r.key = bound fromId toId frameId := by
  simp [Db.cached]

/-- With rows for it, a receipt clears them all and archives the first. -/
theorem receipt_some {r : CacheRow} {rows : List CacheRow} (h0 : w.fails 0 = false)
    (h : w.order (db.cached fromId toId frameId) = r :: rows) (htype : r.type = 0x60) :
    receipt w db fromId toId frameId = { db with
      messageCache := if w.fails 1 then db.messageCache
        else db.messageCache.filter (·.key ≠ bound fromId toId frameId)
      messageStore := if w.fails 2 then db.messageStore
        else db.messageStore ++ [r.item.storeRow r.recvTime w.now] } := by
  have hitem : r.item.type = 0x60 := by
    simp only [CacheRow.item, htype]
    rfl
  unfold receipt getOfflineMessage
  unfold Db.cached at h
  simp only [h0, h, hitem, Bool.false_eq_true, ↓reduceIte, Bool.true_and, decide_true,
    deleteOfflineMessage, insertStoreMessageItem]
  split_ifs <;> rfl

end Receipts

/-! ## Rows -/

/-- What the insert of a complete message gives a row, and no statement takes away. -/
structure CacheRow.Clean (r : CacheRow) : Prop where
  type : r.type = 0x60
  noNul : 0#8 ∉ r.text
  key : bound r.item.fromId r.item.toId r.item.frameId = r.key

theorem cacheRow_clean (hm : readHead head = .ok m)
    (htype : m.type = SignalType.completeMessage.code) (n : ℕ) (now : ℤ) :
    (m.cacheRow n now).Clean := by
  refine ⟨?_, noNul_of_cstr (readHead_eq_ok.1 hm).2.2.2.2, ?_⟩
  · simp only [Head.cacheRow, htype]
    rfl
  · simp [bound, CacheRow.item, CacheRow.key, Head.cacheRow]

theorem CacheRow.SameMessage.refl (r : CacheRow) : r.SameMessage r :=
  ⟨r.retryNum, r.retryTime, rfl⟩

theorem CacheRow.SameMessage.trans {r₁ r₂ r₃ : CacheRow} (h₁ : r₁.SameMessage r₂)
    (h₂ : r₂.SameMessage r₃) : r₁.SameMessage r₃ := by
  obtain ⟨_, _, rfl⟩ := h₁
  obtain ⟨_, _, rfl⟩ := h₂
  exact ⟨_, _, rfl⟩

theorem CacheRow.SameMessage.clean {r r' : CacheRow} (h : r.SameMessage r') (hr : r.Clean) :
    r'.Clean := by
  obtain ⟨_, _, rfl⟩ := h
  exact ⟨hr.type, hr.noNul, hr.key⟩

theorem CacheRow.retry_same (r : CacheRow) (key : ℤ × ℤ × ℤ) (retryNum retryTime : ℤ) :
    r.SameMessage (r.retry key retryNum retryTime) := by
  unfold CacheRow.retry
  split_ifs
  · exact ⟨_, _, rfl⟩
  · exact .refl r

theorem retryLoop_cache (w : World) (interval : ℤ) : ∀ (k : ℕ) (rows cache : List CacheRow),
    ∃ f : CacheRow → CacheRow, (∀ r, CacheRow.SameMessage r (f r)) ∧
      (retryLoop w interval k rows cache).1 = cache.map f
  | _, [], cache => ⟨id, .refl, by simp [retryLoop]⟩
  | k, r :: rows, cache => by
    unfold retryLoop
    simp only []
    split_ifs
    · exact ⟨id, .refl, by simp⟩
    · obtain ⟨f, hf, heq⟩ := retryLoop_cache w interval (k + 1) rows (cache.map (·.retry
        (bound r.item.fromId r.item.toId r.item.frameId) (r.retryNum + 1)
        (w.now + (r.retryNum + 1) * interval)))
      exact ⟨_, fun r' => (r'.retry_same _ _ _).trans (hf _), heq.trans (List.map_map ..)⟩

theorem getAllOfflineMessage_cache {maxRetryNum interval : ℤ} {db' : Db}
    {messages : List MessageItem}
    (h : getAllOfflineMessage w maxRetryNum interval db = (db', messages)) :
    ∃ f : CacheRow → CacheRow, (∀ r, CacheRow.SameMessage r (f r)) ∧
      db' = { db with messageCache := db.messageCache.map f } := by
  unfold getAllOfflineMessage at h
  split_ifs at h
  · cases h
    exact ⟨id, .refl, by simp⟩
  · obtain ⟨f, hf, heq⟩ := retryLoop_cache w interval 1 (selectDue w maxRetryNum db) db.messageCache
    simp only [heq] at h
    cases h
    exact ⟨f, hf, rfl⟩

/-! ## Mobile management -/

def SameMessages (db db' : Db) : Prop :=
  db'.messageCache = db.messageCache ∧ db'.messageStore = db.messageStore

theorem updateSateCover_same {pf : Platform} {fail : Bool} {userId : BitVec 32} {sate : Satellite}
    {r : Db × Bool} (h : updateSateCover pf fail db userId sate = .ok r) :
    SameMessages db r.1 := by
  obtain ⟨snr, -, h⟩ := bind_eq_ok.1 h
  split_ifs at h <;> cases h <;> exact ⟨rfl, rfl⟩

theorem login_same {pf : Platform} {db' : Db} {userId : BitVec 32} {sate : Satellite}
    {response response' : Response}
    (h : login pf w db userId sate response = .ok (db', response')) : SameMessages db db' := by
  rcases login_returns h with ⟨-, -, hupdate, -⟩ | ⟨-, rfl, -⟩
  · exact updateSateCover_same hupdate
  · exact ⟨rfl, rfl⟩

theorem processLogin_same {r : Server × List Sent} (h : processLogin cfg w s head = .ok r) :
    SameMessages s.db r.1.db := by
  obtain ⟨fromId, -, ⟨-, rfl⟩ | ⟨_, _, _, _, _, -, -, hlogin, -, rfl⟩⟩ := processLogin_returns h
  · exact ⟨rfl, rfl⟩
  · exact login_same hlogin

theorem processMobileRequest_same {r : Server × List Sent}
    (h : processMobileRequest cfg w s head = .ok r) : SameMessages s.db r.1.db := by
  obtain ⟨fromId, -, ⟨-, rfl⟩ | ⟨_, _, _, _, _, -, -, hupdate, -, rfl⟩⟩ :=
    processMobileRequest_returns h
  · exact ⟨rfl, rfl⟩
  · exact updateSateCover_same hupdate

theorem processLogout_same {r : Server × List Sent} (h : processLogout cfg w s head = .ok r) :
    SameMessages s.db r.1.db := by
  obtain ⟨_, _, _, _, _, -, -, hupdate, -, rfl⟩ := processLogout_returns h
  exact updateSateCover_same hupdate

/-! ## Dispatch -/

theorem type_eq_code_iff {b : Byte} (hty : ControlHead.type head = .ok b) (t : SignalType) :
    ControlHead.type head = .ok t.code ↔ SignalType.ofByte b = some t := by
  rw [hty, Except.ok.injEq]
  constructor
  · rintro rfl
    exact t.ofByte_code
  · intro h
    exact (SignalType.code_of_ofByte h).symm

theorem ne_nil_of_type {bytes : List Byte} {t : SignalType}
    (hty : ControlHead.type (headOf bytes) = .ok t.code) : bytes ≠ [] := by
  rintro rfl
  cases hty

theorem accessToLogic_completeMessage {bytes : List Byte}
    (hty : ControlHead.type (headOf bytes) = .ok SignalType.completeMessage.code) :
    accessToLogic cfg w s bytes = processCompleteMessage cfg w s (headOf bytes) := by
  unfold accessToLogic
  rw [if_neg (by simpa using ne_nil_of_type hty)]
  simp only [hty, ok_bind, SignalType.ofByte_code]

theorem accessToLogic_receipte {bytes : List Byte}
    (hty : ControlHead.type (headOf bytes) = .ok SignalType.receipte.code) :
    accessToLogic cfg w s bytes = processReceipt w s (headOf bytes) := by
  unfold accessToLogic
  rw [if_neg (by simpa using ne_nil_of_type hty)]
  simp only [hty, ok_bind, SignalType.ofByte_code]

/-- A request is of one type. -/
theorem type_code_inj {t t' : SignalType} (h : ControlHead.type head = .ok t.code)
    (h' : ControlHead.type head = .ok t'.code) : t = t' := by
  rw [type_eq_code_iff h', t'.ofByte_code, Option.some.injEq] at h
  exact h.symm

/-- The types of request there is a handler for. -/
def SignalType.handled : List SignalType :=
  [login, logout, mobileManagerRequest, simpleMessage, completeMessage, receipte]

/-- Which handler served a request that was served. -/
inductive Dispatched (cfg : Config) (w : World) (s : Server) (bytes : List Byte)
    (r : Server × List Sent) : Prop
  | unhandled : (∀ t ∈ SignalType.handled, ControlHead.type (headOf bytes) ≠ .ok t.code) →
      r = (s, []) → Dispatched cfg w s bytes r
  | login : ControlHead.type (headOf bytes) = .ok SignalType.login.code →
      processLogin cfg w s (headOf bytes) = .ok r → Dispatched cfg w s bytes r
  | logout : ControlHead.type (headOf bytes) = .ok SignalType.logout.code →
      processLogout cfg w s (headOf bytes) = .ok r → Dispatched cfg w s bytes r
  | mobileRequest :
      ControlHead.type (headOf bytes) = .ok SignalType.mobileManagerRequest.code →
      processMobileRequest cfg w s (headOf bytes) = .ok r → Dispatched cfg w s bytes r
  | simpleMessage : ControlHead.type (headOf bytes) = .ok SignalType.simpleMessage.code →
      processSimpleMessage cfg w s (headOf bytes) = .ok r → Dispatched cfg w s bytes r
  | completeMessage : ControlHead.type (headOf bytes) = .ok SignalType.completeMessage.code →
      processCompleteMessage cfg w s (headOf bytes) = .ok r → Dispatched cfg w s bytes r
  | receipte : ControlHead.type (headOf bytes) = .ok SignalType.receipte.code →
      processReceipt w s (headOf bytes) = .ok r → Dispatched cfg w s bytes r

theorem accessToLogic_dispatched {bytes : List Byte} {r : Server × List Sent}
    (h : accessToLogic cfg w s bytes = .ok r) : Dispatched cfg w s bytes r := by
  unfold accessToLogic at h
  split_ifs at h with hempty
  · cases h
    rw [List.isEmpty_iff] at hempty
    subst hempty
    exact .unhandled (fun t _ hty => by cases hty) rfl
  · obtain ⟨b, hty, h⟩ := bind_eq_ok.1 h
    rcases hb : SignalType.ofByte b with _ | t
    · rw [hb] at h
      cases h
      refine .unhandled (fun t _ ht => ?_) rfl
      rw [type_eq_code_iff hty, hb] at ht
      cases ht
    · rw [hb] at h
      have hcode := (type_eq_code_iff hty t).2 hb
      cases t with
      | login => exact .login hcode h
      | logout => exact .logout hcode h
      | mobileManagerRequest => exact .mobileRequest hcode h
      | simpleMessage => exact .simpleMessage hcode h
      | completeMessage => exact .completeMessage hcode h
      | receipte => exact .receipte hcode h
      | forwardNoackMessage | backwardNoackMessage | inquireMessageRequest =>
        cases h
        refine .unhandled (fun t ht hty' => ?_) rfl
        rw [type_eq_code_iff hty, hb] at hty'
        cases hty'
        exact absurd ht (by decide)

/-! ## Steps -/

/-- What a step did, by the tables it leaves. -/
inductive Effect (cfg : Config) (s : Server) (l : Label) : Db → Out → Prop
  | quiet {bytes : List Byte} {db : Db} {sent : List Sent} : l.input = .request bytes →
      SameMessages s.db db →
      (ControlHead.type (headOf bytes) = .ok SignalType.completeMessage.code → sent = []) →
      (∀ fromId toId frameId, ¬ l.Acknowledges fromId toId frameId) →
      Effect cfg s l db (.ofSent sent)
  | stored {m : Head} {sent : List Sent} : l.Takes m → m.type = SignalType.simpleMessage.code →
      Effect cfg s l
        { s.db with messageStore := s.db.messageStore ++ [m.storeRow s.served l.world.now] }
        (.ofSent sent)
  | cached {m : Head} {sent : List Sent} : l.Takes m → m.type = SignalType.completeMessage.code →
      Effect cfg s l
        { s.db with messageCache := s.db.messageCache ++ [m.cacheRow s.served l.world.now] }
        (.ofSent sent)
  | cleared {fromId toId : BitVec 32} {frameId : BitVec 16} :
      l.Acknowledges fromId toId frameId →
      Effect cfg s l (receipt l.world s.db fromId toId frameId) (.ofSent [])
  | passed {db : Db} {messages : List MessageItem} {resent : List (MessageItem × Sent)} :
      l.input = .pass →
      getAllOfflineMessage l.world cfg.maxRetryCount cfg.msgInterval s.db = (db, messages) →
      resendLoop cfg l.world db (1 + messages.length) messages = .ok resent →
      Effect cfg s l db ⟨[], messages, resent⟩

section Requests

variable {bytes : List Byte} {l : Label}

theorem quiet_of_type {t : SignalType} {sent : List Sent} (hl : l.input = .request bytes)
    (hty : ControlHead.type (headOf bytes) = .ok t.code)
    (hc : t ≠ .completeMessage) (hr : t ≠ .receipte) (hsame : SameMessages s.db db) :
    Effect cfg s l db (.ofSent sent) := by
  refine .quiet hl hsame (fun h => ?_) fun fromId toId frameId hack => ?_
  · exact absurd (type_code_inj hty h) hc
  · exact hr (type_code_inj hty (hack.isReceipt hl).type)

theorem simple_effect {sent : List Sent} (hl : l.input = .request bytes)
    (hty : ControlHead.type (headOf bytes) = .ok SignalType.simpleMessage.code)
    (h : processSimpleMessage cfg l.world s (headOf bytes) = .ok (s', sent)) :
    Effect cfg s l s'.db (.ofSent sent) := by
  obtain ⟨m, hm, ⟨-, heq⟩ | ⟨-, _, -, heq⟩⟩ := processSimpleMessage_returns h
  · cases heq
    exact quiet_of_type hl hty nofun nofun ⟨rfl, rfl⟩
  · cases heq
    have htype := readHead_type hm
    rw [hty, Except.ok.injEq, eq_comm] at htype
    exact .stored ⟨bytes, hl, hm⟩ htype

theorem complete_effect {sent : List Sent} (hl : l.input = .request bytes)
    (hty : ControlHead.type (headOf bytes) = .ok SignalType.completeMessage.code)
    (h : processCompleteMessage cfg l.world s (headOf bytes) = .ok (s', sent)) :
    Effect cfg s l s'.db (.ofSent sent) := by
  obtain ⟨m, hm, ⟨-, heq⟩ | ⟨-, _, _, -, -, heq⟩⟩ := processCompleteMessage_returns h
  · cases heq
    refine .quiet hl ⟨rfl, rfl⟩ (fun _ => rfl) fun fromId toId frameId hack => ?_
    have := (hack.isReceipt hl).type
    rw [hty, Except.ok.injEq] at this
    exact absurd this (by decide)
  · cases heq
    have htype := readHead_type hm
    rw [hty, Except.ok.injEq, eq_comm] at htype
    exact .cached ⟨bytes, hl, hm⟩ htype

/-- A receipt of another kind, or for another frame, is not one for a message. -/
theorem receipte_effect {sent : List Sent} (hl : l.input = .request bytes)
    (hty : ControlHead.type (headOf bytes) = .ok SignalType.receipte.code)
    (h : processReceipt l.world s (headOf bytes) = .ok (s', sent)) :
    Effect cfg s l s'.db (.ofSent sent) := by
  obtain ⟨_, _, _, ht, hf, hr, ⟨hne, heq⟩ | ⟨rfl, frameId, hc, -, heq⟩⟩ := processReceipt_returns h
  · cases heq
    refine .quiet hl ⟨rfl, rfl⟩ (fun _ => rfl) fun fromId toId frameId hack => ?_
    have := (hack.isReceipt hl).receiptType
    rw [hr, Except.ok.injEq] at this
    exact hne this
  · cases heq
    exact .cleared ⟨bytes, hl, hty, hr, ht, hf, hc⟩

theorem accessToLogic_effect {sent : List Sent} (hl : l.input = .request bytes)
    (h : accessToLogic cfg l.world s bytes = .ok (s', sent)) :
    Effect cfg s l s'.db (.ofSent sent) := by
  cases accessToLogic_dispatched h with
  | unhandled hty hr =>
    cases hr
    refine .quiet hl ⟨rfl, rfl⟩ (fun _ => rfl) fun fromId toId frameId hack => ?_
    exact hty .receipte (by decide) (hack.isReceipt hl).type
  | login hty h => exact quiet_of_type hl hty nofun nofun (processLogin_same h)
  | logout hty h => exact quiet_of_type hl hty nofun nofun (processLogout_same h)
  | mobileRequest hty h =>
    exact quiet_of_type hl hty nofun nofun (processMobileRequest_same h)
  | simpleMessage hty h => exact simple_effect hl hty h
  | completeMessage hty h => exact complete_effect hl hty h
  | receipte hty h => exact receipte_effect hl hty h

end Requests

theorem qosPass_effect {l : Label} {out : Out} (hl : l.input = .pass)
    (h : qosPass cfg l.world s = .ok (s', out)) : Effect cfg s l s'.db out := by
  obtain ⟨_, _, _, -, hget, hresend, hr⟩ := qosPass_returns h
  cases hr
  exact .passed hl hget hresend

theorem step_effect {l : Label} {out : Out} (h : step cfg s l = .ok (s', out)) :
    s'.served = s.served + 1 ∧ Effect cfg s l s'.db out := by
  obtain ⟨s₁, rfl, ⟨bytes, sent, hl, hlogic, rfl⟩ | ⟨hl, hpass⟩⟩ := step_returns h
  · have heffect := accessToLogic_effect hl hlogic
    exact ⟨rfl, heffect⟩
  · have heffect := qosPass_effect hl hpass
    exact ⟨rfl, heffect⟩

theorem Effect.clean (he : Effect cfg s l db out) (hclean : ∀ r ∈ s.db.messageCache, r.Clean) :
    ∀ r ∈ db.messageCache, r.Clean := by
  cases he with
  | quiet _ hsame =>
    rw [hsame.1]
    exact hclean
  | stored => exact hclean
  | @cached m _ htakes htype =>
    obtain ⟨bytes, -, hm⟩ := htakes
    intro r hr
    rcases List.mem_append.1 hr with hr | hr
    · exact hclean r hr
    · rw [List.mem_singleton.1 hr]
      exact cacheRow_clean hm htype _ _
  | cleared =>
    intro r hr
    exact hclean r (receipt_sublist.subset hr)
  | passed _ hget =>
    obtain ⟨f, hf, rfl⟩ := getAllOfflineMessage_cache hget
    intro r hr
    obtain ⟨r', hr', rfl⟩ := List.mem_map.1 hr
    exact (hf r').clean (hclean r' hr')

/-- What every run keeps: its steps are counted, and the cached rows are clean. -/
structure Sound (h : History) (s : Server) : Prop where
  served : s.served = h.length
  clean : ∀ r ∈ s.db.messageCache, r.Clean

theorem sound_start (sateCover : List SateRow) (userInfo : List ℤ) :
    Sound [] (Server.start sateCover userInfo) :=
  ⟨rfl, by simp [Server.start]⟩

theorem Sound.next {h : History} {l : Label} {out : Out} (hk : Sound h s)
    (hs : step cfg s l = .ok (s', out)) : Sound (h ++ [(l, out)]) s' := by
  obtain ⟨hserved, he⟩ := step_effect hs
  refine ⟨?_, he.clean hk.clean⟩
  rw [hserved, hk.served, List.length_append, List.length_singleton]

theorem reaches_sound {P : Server → Label → Prop} {sateCover : List SateRow} {userInfo : List ℤ}
    {h : History} (hr : Run.Reaches (step cfg) P (Server.start sateCover userInfo) h s) :
    Sound h s :=
  hr.invariant (sound_start sateCover userInfo) fun _ _ _ _ _ hk _ hs => hk.next hs

/-! ## One message and its receipt -/

theorem hello_acks : ∃ sent, step exactConfig (Server.start coverOne [])
    ⟨.request hello, .calm 0⟩ = .ok (helloCached, .ofSent sent) ∧
      Acks (⟨.request hello, .calm 0⟩, .ofSent sent) helloHead :=
  ⟨_, rfl, ⟨hello, rfl, rfl⟩, rfl, _, List.mem_cons_self, rfl⟩

theorem hello_cleared : step exactConfig helloCached ⟨.request helloReceipt, .calm 1⟩ =
    .ok (⟨⟨[], [(helloHead.cacheRow 0 0).item.storeRow 0 1], coverOne, []⟩, 0, 2⟩, .ofSent []) :=
  rfl

theorem helloReceipt_acknowledges (w : World) :
    Label.Acknowledges ⟨.request helloReceipt, w⟩ 1 2 3 :=
  ⟨_, rfl, rfl, rfl, rfl, rfl, rfl⟩

theorem hello_acknowledges {w : World} {fromId toId : BitVec 32} {frameId : BitVec 16} :
    ¬ Label.Acknowledges ⟨.request hello, w⟩ fromId toId frameId := by
  rintro ⟨bytes, hl, hack⟩
  cases hl
  have := hack.type
  revert this
  decide

end ShortMessage
