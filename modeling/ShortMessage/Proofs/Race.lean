import ShortMessage.Concurrent
import ShortMessage.Proofs.Effects

/-!
# Two receipts for one row

The `SELECT` of a receipt and its `DELETE` are two statements, and the handler never asks how many
rows it deleted. As long as no handler selects a row that another one is about to delete (`Alone`),
each row inserted into the store was deleted from the cache by its own handler.
-/

namespace ShortMessage

open CMemory

variable {s s' : Threads} {l : ℕ × World} {hd : Handler} {db : Db} {w : World} {i : ℕ}
  {h : List ((ℕ × World) × Unit)}

/-- A handler that is not interrupted does what `receipt` does. -/
theorem receipt_eq_execute (fromId toId : BitVec 32) (frameId : BitVec 16) :
    (∃ msg recvTime db₁,
      Threads.execute w (w.fails 0) db ⟨fromId, toId, frameId, .select⟩ =
        .ok (db, .delete msg recvTime) ∧
      Threads.execute w (w.fails 1) db ⟨fromId, toId, frameId, .delete msg recvTime⟩ =
        .ok (db₁, .insert msg recvTime) ∧
      Threads.execute w (w.fails 2) db₁ ⟨fromId, toId, frameId, .insert msg recvTime⟩ =
        .ok (receipt w db fromId toId frameId, .done)) ∨
    (Threads.execute w (w.fails 0) db ⟨fromId, toId, frameId, .select⟩ = .ok (db, .done) ∧
      receipt w db fromId toId frameId = db) := by
  unfold Threads.execute receipt
  rcases getOfflineMessage w (w.fails 0) db fromId toId frameId w.leftover w.leftoverTime with
    ⟨res, msg, recvTime⟩
  simp only []
  split_ifs with hmsg
  · exact .inl ⟨msg, recvTime, _, rfl, rfl, rfl⟩
  · exact .inr ⟨rfl, rfl⟩

/-! ## What a step does -/

def Handler.Deleting (hd : Handler) : Prop := ∃ msg recvTime, hd.stage = .delete msg recvTime

def Stage.isInsert : Stage → Bool
  | .insert _ _ => true
  | _ => false

namespace Threads

def advance (s : Threads) (i : ℕ) (hd : Handler) (db : Db) (stage : Stage) : Threads :=
  ⟨db, s.handlers.set i { hd with stage := stage }⟩

theorem step_eq_ok (hs : step s l = .ok (s', ())) : ∃ hd db stage,
    s.handlers[l.1]? = some hd ∧ execute l.2 (l.2.fails 0) s.db hd = .ok (db, stage) ∧
      s' = s.advance l.1 hd db stage := by
  unfold step at hs
  rcases hhd : s.handlers[l.1]? with _ | hd
  · simp [hhd] at hs
  · simp only [hhd] at hs
    obtain ⟨⟨db, stage⟩, hex, hs⟩ := bind_eq_ok.1 hs
    cases hs
    exact ⟨hd, db, stage, rfl, hex, rfl⟩

/-- What each statement of a handler does to the tables, and the stage it leads to. -/
theorem execute_cases {stage : Stage} {fail : Bool} {db' : Db}
    (hex : execute w fail db hd = .ok (db', stage)) :
    (hd.stage = .select ∧ db' = db ∧
      (stage = .done ∨ ∃ msg recvTime, stage = .delete msg recvTime)) ∨
    (∃ msg recvTime, hd.stage = .delete msg recvTime ∧ stage = .insert msg recvTime ∧
      db' = (deleteOfflineMessage fail db hd.fromId hd.toId hd.frameId).1) ∨
    (∃ msg recvTime, hd.stage = .insert msg recvTime ∧ stage = .done ∧
      db' = (insertStoreMessageItem w fail db msg recvTime).1) := by
  rcases hst : hd.stage with _ | ⟨msg, recvTime⟩ | ⟨msg, recvTime⟩ | _ <;>
    simp only [execute, hst] at hex
  · refine .inl ⟨rfl, ?_⟩
    split_ifs at hex <;> cases hex
    · exact ⟨rfl, .inr ⟨_, _, rfl⟩⟩
    · exact ⟨rfl, .inl rfl⟩
  · cases hex
    exact .inr (.inl ⟨msg, recvTime, rfl, rfl, rfl⟩)
  · cases hex
    exact .inr (.inr ⟨msg, recvTime, rfl, rfl, rfl⟩)
  · cases hex

/-- A `SELECT` after which a handler deletes found a row or left an item taken for a message. -/
theorem select_cases {fail : Bool} {db' : Db} {msg : MessageItem} {recvTime : ℤ}
    (hsel : hd.stage = .select)
    (hex : execute w fail db hd = .ok (db', .delete msg recvTime)) : fail = false ∧
      (db.cached hd.fromId hd.toId hd.frameId = [] → w.leftover.type = 0x60) := by
  unfold execute getOfflineMessage at hex
  simp only [hsel] at hex
  cases fail
  · refine ⟨rfl, fun hnone => ?_⟩
    have hempty := order_cached_of_none w hnone
    unfold Db.cached at hempty
    simp only [hempty, Bool.false_eq_true, if_false, Bool.true_and, decide_eq_true_eq] at hex
    split_ifs at hex with htype
    · exact htype
    · cases hex
  · simp at hex

theorem getElem?_advance {j : ℕ} {hd' : Handler} {stage : Stage} (hi : s.handlers[i]? = some hd)
    (hj : (s.advance i hd db stage).handlers[j]? = some hd') :
    (j = i ∧ hd' = { hd with stage := stage }) ∨ (j ≠ i ∧ s.handlers[j]? = some hd') := by
  obtain ⟨hlt, -⟩ := List.getElem?_eq_some_iff.1 hi
  simp only [advance, List.getElem?_set, hlt, if_true] at hj
  split_ifs at hj with hij
  · exact .inl ⟨hij.symm, (Option.some.inj hj).symm⟩
  · exact .inr ⟨Ne.symm hij, hj⟩

/-- The rows of which a handler has deleted the cached one and not inserted the archived one. -/
def between (s : Threads) : ℕ := s.handlers.countP (·.stage.isInsert)

theorem between_advance (db : Db) (stage : Stage) (hi : s.handlers[i]? = some hd) :
    (s.advance i hd db stage).between + (if hd.stage.isInsert then 1 else 0) =
      s.between + if stage.isInsert then 1 else 0 := by
  obtain ⟨hlt, rfl⟩ := List.getElem?_eq_some_iff.1 hi
  have hpos : s.handlers[i].stage.isInsert → 0 < s.between := fun h =>
    List.countP_pos_iff.2 ⟨_, List.getElem_mem hlt, h⟩
  unfold between at hpos ⊢
  rw [advance, List.countP_set hlt]
  dsimp only
  by_cases hins : s.handlers[i].stage.isInsert = true
  · have := hpos hins
    rw [if_pos hins]
    omega
  · rw [if_neg hins]
    omega

end Threads

/-! ## Handlers apart -/

/-- A `SELECT` finds no row that another handler is about to delete, one that finds no row leaves an
item that is not taken for a message, and a `DELETE` takes effect. -/
structure Alone (s : Threads) (l : ℕ × World) : Prop where
  found : ∀ hd ∈ s.handlers[l.1]?, hd.stage = .select → l.2.fails 0 = false →
    s.db.cached hd.fromId hd.toId hd.frameId ≠ [] →
      ∀ hd' ∈ s.handlers, hd'.Deleting → hd'.key ≠ hd.key
  none : ∀ hd ∈ s.handlers[l.1]?, hd.stage = .select → l.2.fails 0 = false →
    s.db.cached hd.fromId hd.toId hd.frameId = [] → l.2.leftover.type ≠ 0x60
  delete : ∀ hd ∈ s.handlers[l.1]?, hd.Deleting → l.2.fails 0 = false

/-- Each handler about to delete has a cached row of its own, and the rows handlers have deleted
and not inserted make up for those the store will gain. -/
structure Apart (db : Db) (s : Threads) : Prop where
  found : ∀ (i : ℕ) (hd : Handler), s.handlers[i]? = some hd → hd.Deleting →
    ∃ r ∈ s.db.messageCache, r.key = hd.key
  apart : ∀ (i j : ℕ) (hd hd' : Handler), s.handlers[i]? = some hd → s.handlers[j]? = some hd' →
    hd.Deleting → hd'.Deleting → hd.key = hd'.key → i = j
  count : s.db.messageStore.length + s.between + s.db.messageCache.length ≤
    db.messageStore.length + db.messageCache.length

/-- A step that leaves the cache alone and takes no handler to its `DELETE` keeps them apart. -/
theorem Apart.of_idle {db₀ : Db} {stage : Stage} (ha : Apart db₀ s)
    (hi : s.handlers[i]? = some hd) (hcache : db.messageCache = s.db.messageCache)
    (hstage : ∀ msg recvTime, stage ≠ .delete msg recvTime)
    (hcount : db.messageStore.length + (s.advance i hd db stage).between ≤
      s.db.messageStore.length + s.between) :
    Apart db₀ (s.advance i hd db stage) := by
  have hold : ∀ (j : ℕ) (hd' : Handler), (s.advance i hd db stage).handlers[j]? = some hd' →
      hd'.Deleting → s.handlers[j]? = some hd' := by
    intro j hd' hj hdel
    rcases Threads.getElem?_advance hi hj with ⟨-, rfl⟩ | ⟨-, hj⟩
    · obtain ⟨msg, recvTime, hdel⟩ := hdel
      exact absurd hdel (hstage msg recvTime)
    · exact hj
  refine ⟨fun j hd' hj hdel => ?_, fun j k hd₁ hd₂ hj hk h₁ h₂ => ?_, ?_⟩
  · show ∃ r ∈ db.messageCache, r.key = hd'.key
    rw [hcache]
    exact ha.found j hd' (hold j hd' hj hdel) hdel
  · exact ha.apart j k hd₁ hd₂ (hold j hd₁ hj h₁) (hold k hd₂ hk h₂) h₁ h₂
  · have := ha.count
    show db.messageStore.length + _ + db.messageCache.length ≤ _
    rw [hcache]
    omega

theorem Apart.select {db₀ : Db} {stage : Stage} (ha : Apart db₀ s)
    (hi : s.handlers[i]? = some hd) (hsel : hd.stage = .select)
    (hins : stage.isInsert = false)
    (hfound : ∃ r ∈ s.db.messageCache, r.key = hd.key)
    (hother : ∀ hd' ∈ s.handlers, hd'.Deleting → hd'.key ≠ hd.key) :
    Apart db₀ (s.advance i hd s.db stage) := by
  refine ⟨fun j hd' hj hdel => ?_, fun j k hd₁ hd₂ hj hk h₁ h₂ hkey => ?_, ?_⟩
  · rcases Threads.getElem?_advance hi hj with ⟨-, rfl⟩ | ⟨-, hj⟩
    · exact hfound
    · exact ha.found j hd' hj hdel
  · rcases Threads.getElem?_advance hi hj with ⟨hji, rfl⟩ | ⟨-, hj'⟩ <;>
      rcases Threads.getElem?_advance hi hk with ⟨hki, rfl⟩ | ⟨-, hk'⟩
    · rw [hji, hki]
    · exact absurd hkey.symm (hother hd₂ (List.mem_of_getElem? hk') h₂)
    · exact absurd hkey (hother hd₁ (List.mem_of_getElem? hj') h₁)
    · exact ha.apart j k hd₁ hd₂ hj' hk' h₁ h₂ hkey
  · have hb := Threads.between_advance s.db stage hi
    rw [hsel, hins] at hb
    have hb' : (s.advance i hd s.db stage).between = s.between := hb
    rw [hb']
    exact ha.count

/-- A `DELETE` that takes effect removes the handler's row and no row of another handler. -/
theorem Apart.delete {db₀ : Db} {msg : MessageItem} {recvTime : ℤ} (ha : Apart db₀ s)
    (hi : s.handlers[i]? = some hd) (hdel : hd.stage = .delete msg recvTime) :
    Apart db₀ (s.advance i hd (deleteOfflineMessage false s.db hd.fromId hd.toId hd.frameId).1
      (.insert msg recvTime)) := by
  have hdeleting : hd.Deleting := ⟨msg, recvTime, hdel⟩
  have hold : ∀ (j : ℕ) (hd' : Handler), (s.advance i hd
      (deleteOfflineMessage false s.db hd.fromId hd.toId hd.frameId).1
      (.insert msg recvTime)).handlers[j]? = some hd' → hd'.Deleting →
      j ≠ i ∧ s.handlers[j]? = some hd' := by
    rintro j hd' hj ⟨msg', recvTime', hdel'⟩
    rcases Threads.getElem?_advance hi hj with ⟨-, rfl⟩ | hj
    · cases hdel'
    · exact hj
  refine ⟨fun j hd' hj hdel' => ?_, fun j k hd₁ hd₂ hj hk h₁ h₂ => ?_, ?_⟩
  · obtain ⟨hne, hj⟩ := hold j hd' hj hdel'
    obtain ⟨r, hr, hkey⟩ := ha.found j hd' hj hdel'
    refine ⟨r, List.mem_filter.2 ⟨hr, ?_⟩, hkey⟩
    have hother : hd'.key ≠ hd.key := fun h => hne (ha.apart j i hd' hd hj hi hdel' hdeleting h)
    simpa [hkey] using (show hd'.key ≠ bound hd.fromId hd.toId hd.frameId from hother)
  · exact ha.apart j k hd₁ hd₂ (hold j hd₁ hj h₁).2 (hold k hd₂ hk h₂).2 h₁ h₂
  · obtain ⟨r, hr, hkey⟩ := ha.found i hd hi hdeleting
    have hlt : (s.db.messageCache.filter (·.key ≠ hd.key)).length < s.db.messageCache.length := by
      rw [List.length_filter_lt_length_iff_exists]
      exact ⟨r, hr, by simpa using hkey⟩
    have hb := Threads.between_advance
      (deleteOfflineMessage false s.db hd.fromId hd.toId hd.frameId).1 (.insert msg recvTime) hi
    rw [hdel] at hb
    simp only [Stage.isInsert, Bool.false_eq_true, if_false, if_true, add_zero] at hb
    have := ha.count
    show s.db.messageStore.length + _ + (s.db.messageCache.filter (·.key ≠ hd.key)).length ≤ _
    omega

theorem Apart.step {db₀ : Db} (ha : Apart db₀ s) (hl : Alone s l)
    (hs : Threads.step s l = .ok (s', ())) : Apart db₀ s' := by
  obtain ⟨hd, db, stage, hi, hex, rfl⟩ := Threads.step_eq_ok hs
  have hb := Threads.between_advance db stage hi
  rcases Threads.execute_cases hex with ⟨hst, rfl, rfl | ⟨msg, recvTime, rfl⟩⟩ |
    ⟨msg, recvTime, hst, rfl, rfl⟩ | ⟨msg, recvTime, hst, rfl, rfl⟩
  · rw [hst] at hb
    exact ha.of_idle hi rfl (fun _ _ => nofun) (by simpa [Stage.isInsert] using hb.le)
  · obtain ⟨hfail, hnone⟩ := Threads.select_cases hst hex
    have hcached : s.db.cached hd.fromId hd.toId hd.frameId ≠ [] := fun h =>
      hl.none hd hi hst hfail h (hnone h)
    obtain ⟨r, hr⟩ := List.exists_mem_of_ne_nil _ hcached
    exact ha.select hi hst rfl ⟨r, mem_cached.1 hr⟩ (hl.found hd hi hst hfail hcached)
  · rw [hl.delete hd hi ⟨msg, recvTime, hst⟩]
    exact ha.delete hi hst
  · rw [hst] at hb
    refine ha.of_idle hi ?_ (fun _ _ => nofun) ?_
    · unfold insertStoreMessageItem
      split_ifs <;> rfl
    · have hgain : (insertStoreMessageItem l.2 (l.2.fails 0) s.db msg
          recvTime).1.messageStore.length ≤ s.db.messageStore.length + 1 := by
        unfold insertStoreMessageItem
        split_ifs <;> simp
      simp only [Stage.isInsert, Bool.false_eq_true, if_false, if_true, add_zero] at hb
      omega

/-- Whatever the interleaving, as long as nobody selects a row that somebody else is about to
delete, the store gains at most one row for each row the cache loses. -/
theorem reaches_archivedAtMostOnce {handlers : List Handler}
    (hstart : ∀ hd ∈ handlers, hd.stage = .select)
    (hr : Run.Reaches Threads.step Alone ⟨db, handlers⟩ h s) : ArchivedAtMostOnce db s.db := by
  have hnone : ∀ hd ∈ handlers, ¬ hd.Deleting := by
    rintro hd hmem ⟨msg, recvTime, hdel⟩
    rw [hstart hd hmem] at hdel
    cases hdel
  have hbetween : Threads.between ⟨db, handlers⟩ = 0 :=
    List.countP_eq_zero.2 fun hd hmem => by simp [hstart hd hmem, Stage.isInsert]
  have ha : Apart db s := by
    refine hr.invariant (I := fun _ s => Apart db s) ⟨fun i hd hi hdel => ?_,
      fun i j hd hd' hi hj hdel => ?_, ?_⟩ fun h s l s' o ha hP hs => ha.step hP hs
    · exact absurd hdel (hnone hd (List.mem_of_getElem? hi))
    · exact absurd hdel (hnone hd (List.mem_of_getElem? hi))
    · rw [hbetween]
      rfl
  have := ha.count
  unfold ArchivedAtMostOnce
  omega

/-! ## One row -/

def helloItem : MessageItem := (helloHead.cacheRow 0 0).item

/-- Handlers of user 2's receipt for `hello`, in these stages. -/
def helloThreads (cache : List CacheRow) (store : List StoreRow) (stages : List Stage) : Threads :=
  ⟨⟨cache, store, coverOne, []⟩, stages.map fun stage => ⟨1, 2, 3, stage⟩⟩

theorem reaches_archivedAtMostOnce_hello :
    ArchivedAtMostOnce helloCached.db (helloThreads [] [helloItem.storeRow 0 1] [.done]).db := by
  have hsole : ∀ {cache store stage} {hd : Handler},
      (helloThreads cache store [stage]).handlers[0]? = some hd → hd = ⟨1, 2, 3, stage⟩ :=
    fun h => (Option.some.inj h).symm
  have hselect : Alone (helloThreads [helloHead.cacheRow 0 0] [] [.select]) (0, .calm 1) := by
    refine ⟨fun _ _ _ _ _ hd' hmem ⟨_, _, hdel⟩ => ?_, fun _ _ _ _ _ => by decide,
      fun _ _ _ => rfl⟩
    rw [List.mem_singleton.1 hmem] at hdel
    cases hdel
  have hnext : ∀ cache store stage, stage ≠ .select →
      Alone (helloThreads cache store [stage]) (0, .calm 1) := by
    refine fun cache store stage hne => ⟨fun hd hi hsel => ?_, fun hd hi hsel => ?_,
      fun _ _ _ => rfl⟩
    · rw [hsole hi] at hsel
      exact absurd hsel hne
    · rw [hsole hi] at hsel
      exact absurd hsel hne
  have h₁ : Threads.step (helloThreads [helloHead.cacheRow 0 0] [] [.select]) (0, .calm 1) =
    .ok (helloThreads [helloHead.cacheRow 0 0] [] [.delete helloItem 0], ()) := rfl
  have h₂ : Threads.step (helloThreads [helloHead.cacheRow 0 0] [] [.delete helloItem 0])
    (0, .calm 1) = .ok (helloThreads [] [] [.insert helloItem 0], ()) := rfl
  have h₃ : Threads.step (helloThreads [] [] [.insert helloItem 0]) (0, .calm 1) =
    .ok (helloThreads [] [helloItem.storeRow 0 1] [.done], ()) := rfl
  exact reaches_archivedAtMostOnce (by simp)
    (((Run.Reaches.start.next hselect h₁).next (hnext _ _ _ nofun) h₂).next (hnext _ _ _ nofun) h₃)

/-- Both handlers select the row before either deletes it. -/
theorem helloTwice_archivedTwice : ¬ ∀ (db : Db) (handlers : List Handler)
    (h : List ((ℕ × World) × Unit)) (s : Threads), db.UniqueKeys →
      (∀ hd ∈ handlers, hd.stage = .select) →
      Run.Reaches Threads.step (fun _ l => l.2.Succeeds) ⟨db, handlers⟩ h s →
      ArchivedAtMostOnce db s.db := by
  intro hall
  have hw : (World.calm 1).Succeeds := fun _ => rfl
  have h₁ : Threads.step (helloThreads [helloHead.cacheRow 0 0] [] [.select, .select])
    (0, .calm 1) =
      .ok (helloThreads [helloHead.cacheRow 0 0] [] [.delete helloItem 0, .select], ()) := rfl
  have h₂ : Threads.step (helloThreads [helloHead.cacheRow 0 0] [] [.delete helloItem 0, .select])
    (1, .calm 1) = .ok (helloThreads [helloHead.cacheRow 0 0] []
      [.delete helloItem 0, .delete helloItem 0], ()) := rfl
  have h₃ : Threads.step (helloThreads [helloHead.cacheRow 0 0] []
      [.delete helloItem 0, .delete helloItem 0]) (0, .calm 1) =
    .ok (helloThreads [] [] [.insert helloItem 0, .delete helloItem 0], ()) := rfl
  have h₄ : Threads.step (helloThreads [] [] [.insert helloItem 0, .delete helloItem 0])
    (1, .calm 1) = .ok (helloThreads [] [] [.insert helloItem 0, .insert helloItem 0], ()) := rfl
  have h₅ : Threads.step (helloThreads [] [] [.insert helloItem 0, .insert helloItem 0])
    (0, .calm 1) =
      .ok (helloThreads [] [helloItem.storeRow 0 1] [.done, .insert helloItem 0], ()) := rfl
  have h₆ : Threads.step (helloThreads [] [helloItem.storeRow 0 1] [.done, .insert helloItem 0])
    (1, .calm 1) = .ok (helloThreads [] [helloItem.storeRow 0 1, helloItem.storeRow 0 1]
      [.done, .done], ()) := rfl
  have hle := hall ⟨[helloHead.cacheRow 0 0], [], coverOne, []⟩ _ _ _
    (List.nodup_singleton _) (by simp)
    ((((((Run.Reaches.start.next hw h₁).next hw h₂).next hw h₃).next hw h₄).next hw h₅).next hw h₆)
  simp [ArchivedAtMostOnce, helloThreads] at hle

end ShortMessage
