import ShortMessage.Proofs.Effects

/-!
# Receipts for nothing

`GetOfflineMessage` returns `true` also when it finds no row, and leaves the item as it was: a
receipt that matches nothing is acted on when the uninitialised item happens to have the type of a
complete message (`foundType`). A second receipt is such a one.
-/

namespace ShortMessage

open CMemory

variable {w : World} {s s' : Server} {db : Db} {head : Ptr} {fromId toId : BitVec 32}
  {frameId : BitVec 16} {receiptType : Byte}

/-- A receipt as its handler reads it. -/
structure ReceiptOf (head : Ptr) (fromId toId : BitVec 32) (frameId : BitVec 16)
    (receiptType : Byte) : Prop where
  fromId : ControlHead.toId head = .ok (htonl fromId)
  toId : ControlHead.fromId head = .ok (htonl toId)
  receiptType : UserAckResponse.receiptType (ControlHead.content head) = .ok receiptType
  frameId : UserAckResponse.frameId (ControlHead.content head) = .ok (htons frameId)

/-- The type of the item once a row was looked for: the row's, or what the item held. -/
def foundType (w : World) (db : Db) (fromId toId : BitVec 32) (frameId : BitVec 16) : Byte :=
  ((w.order (db.cached fromId toId frameId)).head?.map (·.item.type)).getD w.leftover.type

/-- A receipt that is not acted on leaves the tables, and one that is acted on clears the rows it is
about and archives a row. -/
theorem receipt_cases (w : World) (db : Db) (fromId toId : BitVec 32) (frameId : BitVec 16) :
    (w.fails 0 = true ∨ foundType w db fromId toId frameId ≠ 0x60) ∧
        receipt w db fromId toId frameId = db ∨
      (w.fails 0 = false ∧ foundType w db fromId toId frameId = 0x60) ∧
        ∃ row, receipt w db fromId toId frameId = { db with
          messageCache := if w.fails 1 then db.messageCache
            else db.messageCache.filter (·.key ≠ bound fromId toId frameId)
          messageStore := if w.fails 2 then db.messageStore else db.messageStore ++ [row] } := by
  cases h0 : w.fails 0
  · have hfound : ∃ msg recvTime, getOfflineMessage w (w.fails 0) db fromId toId frameId w.leftover
        w.leftoverTime = (true, msg, recvTime) ∧
          msg.type = foundType w db fromId toId frameId := by
      unfold getOfflineMessage foundType Db.cached
      rw [h0, if_neg Bool.false_ne_true]
      split
      · next hnil => exact ⟨_, _, rfl, by rw [hnil]; rfl⟩
      · next r rows hcons => exact ⟨_, _, rfl, by rw [hcons]; rfl⟩
    obtain ⟨msg, recvTime, hget, htype⟩ := hfound
    by_cases h60 : foundType w db fromId toId frameId = 0x60
    · refine .inr ⟨⟨rfl, h60⟩, msg.storeRow recvTime w.now, ?_⟩
      simp only [receipt, hget, htype, h60, deleteOfflineMessage, insertStoreMessageItem,
        Bool.true_and, decide_true, ↓reduceIte]
      split_ifs <;> rfl
    · refine .inl ⟨.inr h60, ?_⟩
      simp only [receipt, hget, htype, h60, Bool.true_and, decide_false, Bool.false_eq_true,
        ↓reduceIte]
  · exact .inl ⟨.inl rfl, receipt_failed h0⟩

theorem foundType_of_none (w : World) (h : db.cached fromId toId frameId = []) :
    foundType w db fromId toId frameId = w.leftover.type := by
  rw [foundType, order_cached_of_none w h]
  rfl

/-- A receipt for no row changes the tables exactly when it is acted on and the `INSERT` takes
effect. -/
theorem receipt_same_iff (h : db.cached fromId toId frameId = []) :
    SameMessages db (receipt w db fromId toId frameId) ↔
      w.fails 0 = true ∨ w.leftover.type ≠ 0x60 ∨ w.fails 2 = true := by
  have htype := foundType_of_none w h
  rcases receipt_cases w db fromId toId frameId with ⟨hnot, heq⟩ | ⟨⟨h0, h60⟩, row, heq⟩
  · rw [heq]
    rw [htype] at hnot
    exact iff_of_true ⟨rfl, rfl⟩ (hnot.imp_right .inl)
  · rw [heq, SameMessages, filter_of_cached_none h]
    rw [htype] at h60
    cases w.fails 2
    · simp [h0, h60]
    · simp

/-- When all statements succeed, a receipt changes the tables exactly when it is acted on. -/
theorem receipt_succeeds_same_iff (hw : w.Succeeds) :
    SameMessages db (receipt w db fromId toId frameId) ↔
      foundType w db fromId toId frameId ≠ 0x60 := by
  rcases receipt_cases w db fromId toId frameId with ⟨hnot, heq⟩ | ⟨⟨h0, h60⟩, row, heq⟩
  · rw [heq]
    refine iff_of_true ⟨rfl, rfl⟩ (hnot.resolve_left ?_)
    rw [hw 0]
    exact Bool.false_ne_true
  · refine iff_of_false (fun hsame => List.cons_ne_nil row [] ?_) (not_not.2 h60)
    have hstore := hsame.2
    rwa [heq, hw 2, if_neg Bool.false_ne_true, List.append_right_eq_self] at hstore

theorem cached_of_receipt (hw : w.Succeeds) (h60 : foundType w db fromId toId frameId = 0x60) :
    (receipt w db fromId toId frameId).cached fromId toId frameId = [] := by
  rcases receipt_cases w db fromId toId frameId with ⟨hnot, -⟩ | ⟨-, row, heq⟩
  · rw [hw 0] at hnot
    exact absurd h60 (hnot.resolve_left Bool.false_ne_true)
  · rw [heq, Db.cached, hw 1, if_neg Bool.false_ne_true, List.filter_filter,
      List.filter_eq_nil_iff]
    intro r _
    simp

theorem processReceipt_db {sent : List Sent}
    (hhead : ReceiptOf head fromId toId frameId receiptType)
    (h : processReceipt w s head = .ok (s', sent)) :
    s'.db = if receiptType = 0x60 then receipt w s.db fromId toId frameId else s.db := by
  obtain ⟨fromId', toId', t, hf, ht, hty, hcases⟩ := processReceipt_returns h
  rw [hhead.receiptType, Except.ok.injEq] at hty
  subst hty
  rcases hcases with ⟨hne, heq⟩ | ⟨h60, frameId', hc, -, heq⟩
  · cases heq
    rw [if_neg hne]
  · rw [hhead.fromId, Except.ok.injEq, htonl_inj] at hf
    rw [hhead.toId, Except.ok.injEq, htonl_inj] at ht
    rw [hhead.frameId, Except.ok.injEq, htons_inj] at hc
    subst hf ht hc
    cases heq
    rw [if_pos h60]

/-- A receipt for no row leaves the tables exactly when it is not acted on or not archived, and a
second receipt exactly when what it finds is not of a complete message. -/
theorem processReceipt_settled_iff (hhead : ReceiptOf head fromId toId frameId receiptType) :
    (∀ w s s' sent, processReceipt w s head = .ok (s', sent) →
      s.db.cached fromId toId frameId = [] → (SameMessages s.db s'.db ↔
        receiptType ≠ 0x60 ∨ w.fails 0 = true ∨ w.leftover.type ≠ 0x60 ∨ w.fails 2 = true)) ∧
    ∀ w₁ w₂ s s₁ s₂ sent₁ sent₂, w₁.Succeeds → w₂.Succeeds →
      processReceipt w₁ s head = .ok (s₁, sent₁) → processReceipt w₂ s₁ head = .ok (s₂, sent₂) →
        (SameMessages s₁.db s₂.db ↔ receiptType ≠ 0x60 ∨
          (if foundType w₁ s.db fromId toId frameId = 0x60 then w₂.leftover.type
            else foundType w₂ s.db fromId toId frameId) ≠ 0x60) := by
  by_cases h60 : receiptType = 0x60
  · constructor
    · intro w s s' sent h hnone
      rw [processReceipt_db hhead h, if_pos h60, receipt_same_iff hnone,
        or_iff_right (not_not.2 h60)]
    · intro w₁ w₂ s s₁ s₂ sent₁ sent₂ hw₁ hw₂ h₁ h₂
      rw [processReceipt_db hhead h₂, if_pos h60, receipt_succeeds_same_iff hw₂,
        processReceipt_db hhead h₁, if_pos h60, or_iff_right (not_not.2 h60)]
      split_ifs with hfound
      · rw [foundType_of_none w₂ (cached_of_receipt hw₁ hfound)]
      · rcases receipt_cases w₁ s.db fromId toId frameId with ⟨-, heq⟩ | ⟨⟨-, hfound'⟩, -⟩
        · rw [heq]
        · exact absurd hfound' hfound
  · have hsame {w s s' sent} (h : processReceipt w s head = .ok (s', sent)) :
        SameMessages s.db s'.db := by
      rw [processReceipt_db hhead h, if_neg h60]
      exact ⟨rfl, rfl⟩
    exact ⟨fun _ _ _ _ h _ => iff_of_true (hsame h) (.inl h60),
      fun _ _ _ _ _ _ _ _ _ _ h => iff_of_true (hsame h) (.inl h60)⟩

theorem helloReceipt_receiptOf : ReceiptOf (headOf helloReceipt) 1 2 3 0x60 :=
  ⟨rfl, rfl, rfl, rfl⟩

theorem processReceipt_settled_iff_hello : ∃ s',
    processReceipt (.calm 1) (Server.start [] []) (headOf helloReceipt) = .ok (s', []) ∧
      (SameMessages (Server.start [] []).db s'.db ↔ (0x60 : Byte) ≠ 0x60 ∨
        (World.calm 1).fails 0 = true ∨ (World.calm 1).leftover.type ≠ 0x60 ∨
          (World.calm 1).fails 2 = true) :=
  ⟨_, rfl, (processReceipt_settled_iff helloReceipt_receiptOf).1 _ _ _ _ rfl rfl⟩

/-- The item happens to hold the type of a complete message. -/
def leftoverComplete : World :=
  { World.calm 1 with
    leftover := ⟨0, 0, 0, 0x60, 0, [], none⟩
    leftover_fresh := ⟨rfl, rfl⟩ }

/-- There is no row for the receipt, and a row is archived. -/
theorem leftoverComplete_archived : ¬ ∀ w s s' head fromId toId frameId receiptType sent,
    ReceiptOf head fromId toId frameId receiptType →
      processReceipt w s head = .ok (s', sent) → s.db.cached fromId toId frameId = [] →
        SameMessages s.db s'.db := by
  intro hall
  obtain ⟨s', h, hstore⟩ : ∃ s', processReceipt leftoverComplete (Server.start [] [])
      (headOf helloReceipt) = .ok (s', []) ∧ s'.db.messageStore.length = 1 := ⟨_, rfl, rfl⟩
  have hsame := hall _ _ _ _ _ _ _ _ _ helloReceipt_receiptOf h rfl
  rw [hsame.2] at hstore
  cases hstore

end ShortMessage
