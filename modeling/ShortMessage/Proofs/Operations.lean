import ShortMessage.Interleaved
import ShortMessage.Proofs.Handlers

/-!
# What one operation does

Each operation touches one part of what the threads share: the connections out (`outAfter`), the
rows of `message_cache` (`CacheStep`), those of `sate_cover` (`CoverStep`) or the network. What a
run keeps is read off these.
-/

namespace ShortMessage

open CMemory Interleaving

namespace Handling

variable {m : Monitor Operation Operation.Result} {α β : Type} {q : m.State}
  {post : β → m.State → Prop}

theorem obeys_orFault {x : Except Fault α} {k : α → Handling β} (hf : ∀ f, m.pre q (.fault f))
    (h : ∀ a, x = .ok a → (k a).Obeys m post q) : (orFault x >>= k).Obeys m post q := by
  rcases x with f | a
  · exact ⟨hf f, nofun⟩
  · exact h a rfl

end Handling

variable {cfg : Config} {maxSize : ℕ} {w : World} {s s' : Shared} {c : Operation} {b : c.Result}

/-! ## Connections -/

/-- The connections out after an operation. -/
def outAfter : (c : Operation) → c.Result → ℕ → ℕ
  | .getConnection, true, k => k + 1
  | .close, _, k => k - 1
  | _, _, k => k

theorem handle_checkedOut (h : handle cfg maxSize w s c = .ok (s', b)) :
    s'.checkedOut = outAfter c b s.checkedOut := by
  cases c with
  | getConnection =>
    simp only [handle] at h
    split_ifs at h
    obtain ⟨res, -, h⟩ := bind_eq_ok.1 h
    cases h
    cases b <;> rfl
  | updateSateCover | insertStoreMessage | insertOfflineMessage =>
    obtain ⟨_, -, h⟩ := bind_eq_ok.1 h
    cases h
    rfl
  | updateRetry =>
    simp only [handle] at h
    split_ifs at h <;> cases h <;> rfl
  | fault => cases h
  | _ =>
    cases h
    rfl

theorem handle_getConnection {res : Bool}
    (h : handle cfg maxSize w s .getConnection = .ok (s', res)) :
    s.checkedOut < maxSize ∧ res = true := by
  simp only [handle] at h
  split_ifs at h with hlt
  rcases getConnection_cases w with hconn | hconn
  · rw [hconn] at h
    cases h
    exact ⟨hlt, rfl⟩
  · rw [hconn] at h
    cases h

/-! ## The cache -/

/-- What an operation that was executed makes of the rows of `message_cache`. -/
inductive CacheStep (w : World) (cache : List CacheRow) :
    Event Operation Operation.Result → List CacheRow → Prop
  | inserted {n : ℕ} {head : Ptr} {m : Head} : readHead head = .ok m →
      CacheStep w cache ⟨.insertOfflineMessage n head, true⟩ (cache ++ [m.cacheRow n w.now])
  | deleted {fromId toId : BitVec 32} {frameId : BitVec 16} :
      CacheStep w cache ⟨.deleteOfflineMessage fromId toId frameId, true⟩
        (cache.filter (·.key ≠ bound fromId toId frameId))
  | retried {message : MessageItem} {retryNum retryTime : ℤ} :
      CacheStep w cache ⟨.updateRetry message retryNum retryTime, true⟩
        (cache.map (·.retry (bound message.fromId message.toId message.frameId) retryNum retryTime))
  | kept {e : Event Operation Operation.Result} :
      (∀ n head, e ≠ ⟨.insertOfflineMessage n head, true⟩) →
      (∀ fromId toId frameId, e ≠ ⟨.deleteOfflineMessage fromId toId frameId, true⟩) →
      (∀ message retryNum retryTime, e ≠ ⟨.updateRetry message retryNum retryTime, true⟩) →
      CacheStep w cache e cache

theorem handle_cacheStep (h : handle cfg maxSize w s c = .ok (s', b)) :
    CacheStep w s.db.messageCache ⟨c, b⟩ s'.db.messageCache := by
  cases c with
  | getConnection =>
    obtain ⟨hlt, rfl⟩ := handle_getConnection h
    simp only [handle] at h
    rw [if_pos hlt] at h
    obtain ⟨res, -, h⟩ := bind_eq_ok.1 h
    cases h
    exact .kept nofun nofun nofun
  | updateSateCover userId sateCover =>
    obtain ⟨⟨db, res⟩, hupdate, h⟩ := bind_eq_ok.1 h
    cases h
    obtain ⟨snr, -, hupdate⟩ := bind_eq_ok.1 hupdate
    split_ifs at hupdate <;> cases hupdate <;> exact .kept nofun nofun nofun
  | insertStoreMessage n head =>
    obtain ⟨⟨db, res⟩, hinsert, h⟩ := bind_eq_ok.1 h
    cases h
    obtain ⟨m, -, hinsert⟩ := bind_eq_ok.1 hinsert
    split_ifs at hinsert <;> cases hinsert <;> exact .kept nofun nofun nofun
  | insertOfflineMessage n head =>
    obtain ⟨⟨db, res⟩, hinsert, h⟩ := bind_eq_ok.1 h
    cases h
    obtain ⟨m, hm, hinsert⟩ := bind_eq_ok.1 hinsert
    split_ifs at hinsert
    · cases hinsert
      exact .kept (fun _ _ h => by cases h) nofun nofun
    · cases hinsert
      exact .inserted hm
  | deleteOfflineMessage fromId toId frameId =>
    simp only [handle, deleteOfflineMessage] at h
    split_ifs at h
    · cases h
      exact .kept nofun (fun _ _ _ h => by cases h) nofun
    · cases h
      exact .deleted
  | insertStoreMessageItem msg recvTime =>
    simp only [handle, insertStoreMessageItem] at h
    split_ifs at h <;> cases h <;> exact .kept nofun nofun nofun
  | updateRetry message retryNum retryTime =>
    simp only [handle] at h
    split_ifs at h
    · cases h
      exact .kept nofun nofun (fun _ _ _ h => by cases h)
    · cases h
      exact .retried
  | fault => cases h
  | _ =>
    cases h
    exact .kept nofun nofun nofun

theorem handle_selectDue {now : ℤ} {rows : List CacheRow}
    (h : handle cfg maxSize w s (.selectDue now) = .ok (s', rows)) :
    s' = s ∧ (rows = [] ∨ rows.Perm (s.db.messageCache.filter (·.Due cfg.maxRetryCount now))) := by
  simp only [handle] at h
  cases h
  refine ⟨rfl, ?_⟩
  split_ifs
  · exact .inl rfl
  · exact .inr (w.order_perm _)

end ShortMessage
