import ShortMessage.Proofs.Retry

/-!
# Which retries are counted

A pass hands a message out before the `UPDATE` that counts the retry, and an exception ends it
between the two. The messages handed out are those counted when no `UPDATE` throws, or none is made.
-/

namespace ShortMessage

open CMemory

variable {w : World} {db : Db} {maxRetryNum interval : ℤ}

/-- The rows whose counter a call put up by one. -/
def counted (before after : List CacheRow) : List CacheRow :=
  ((before.zip after).filter fun p => p.2.retryNum = p.1.retryNum + 1).map (·.1)

/-- The messages handed out are those of the rows whose retry is counted. -/
def Consistent (w : World) (maxRetryNum interval : ℤ) (db : Db) : Prop :=
  let (db', messages) := getAllOfflineMessage w maxRetryNum interval db
  messages.Perm ((counted db.messageCache db'.messageCache).map (·.item))

/-- The key of every row is one that `InsertOfflineMessage` binds. -/
def Db.BoundKeys (db : Db) : Prop :=
  ∀ r ∈ db.messageCache, ∃ fromId toId frameId, r.key = bound fromId toId frameId

theorem named_of_bound {r : CacheRow} {fromId toId : BitVec 32} {frameId : BitVec 16}
    (h : r.key = bound fromId toId frameId) : r.Named := by
  simp only [CacheRow.key, bound, Prod.mk.injEq] at h
  obtain ⟨hfrom, hto, hframe⟩ := h
  simp [CacheRow.Named, CacheRow.item, bound, CacheRow.key, hfrom, hto, hframe]

theorem counted_map (cache : List CacheRow) (f : CacheRow → CacheRow) :
    counted cache (cache.map f) = cache.filter fun r => (f r).retryNum = r.retryNum + 1 := by
  induction cache with
  | nil => rfl
  | cons r cache ih =>
    unfold counted at ih ⊢
    by_cases h : (f r).retryNum = r.retryNum + 1
    · simp [h, ih]
    · simp [h, ih]

theorem counted_self (cache : List CacheRow) : counted cache cache = [] := by
  have hmap := counted_map cache id
  rw [List.map_id] at hmap
  rw [hmap, List.filter_eq_nil_iff]
  simp

theorem consistent_of_throw (h0 : w.fails 0 = true) : Consistent w maxRetryNum interval db := by
  unfold Consistent getAllOfflineMessage
  rw [if_pos h0]
  simp only [counted_self]
  exact .refl _

/-- The rows put off among those of the table are the rows counted. -/
theorem counted_perm (interval now : ℤ) (hkeys : db.UniqueKeys) {rows : List CacheRow}
    (hnd : rows.Nodup) (hsub : ∀ r ∈ rows, r ∈ db.messageCache) :
    (counted db.messageCache (db.messageCache.map fun r =>
      if r ∈ rows then r.retried interval now r else r)).Perm rows := by
  rw [counted_map]
  refine (List.perm_ext_iff_of_nodup (hkeys.of_map.filter _) hnd).2 fun r => ?_
  simp only [List.mem_filter, decide_eq_true_eq]
  constructor
  · rintro ⟨-, hnum⟩
    split_ifs at hnum with hr
    · exact hr
    · omega
  · intro hr
    rw [if_pos hr]
    exact ⟨hsub r hr, rfl⟩

/-- The first of `n` calls that fails, or all of them. -/
theorem exists_stop (fails : ℕ → Bool) : ∀ n, ∃ j ≤ n, (∀ i < j, fails i = false) ∧
    (j < n → fails j = true)
  | 0 => ⟨0, le_rfl, by simp, by simp⟩
  | n + 1 => by
    obtain ⟨j, hj, hok, hfail⟩ := exists_stop fails n
    rcases hj.lt_or_eq with hlt | rfl
    · exact ⟨j, by omega, hok, fun _ => hfail hlt⟩
    · cases hn : fails j
      · refine ⟨j + 1, le_rfl, fun i hi => ?_, by simp⟩
        rcases (Nat.lt_succ_iff.1 hi).lt_or_eq with hlt | rfl
        · exact hok i hlt
        · exact hn
      · exact ⟨j, by omega, hok, fun _ => hn⟩

/-- What is handed out is what is counted exactly when the `SELECT` throws or no `UPDATE` does. -/
theorem getAllOfflineMessage_consistent_iff (hkeys : db.UniqueKeys) (hbound : db.BoundKeys) :
    Consistent w maxRetryNum interval db ↔ w.fails 0 = true ∨
      ∀ k < (selectDue w maxRetryNum db).length, w.fails (1 + k) = false := by
  have hnamed : ∀ r ∈ db.messageCache, r.Named := fun r hr => by
    obtain ⟨_, _, _, hkey⟩ := hbound r hr
    exact named_of_bound hkey
  cases h0 : w.fails 0
  · obtain ⟨j, hj, hok, hfail⟩ := exists_stop (fun k => w.fails (1 + k))
      (selectDue w maxRetryNum db).length
    have hperm := counted_perm interval w.now hkeys
      (((selectDue_nodup hkeys).of_map (f := CacheRow.key)).sublist
        (List.take_sublist j (selectDue w maxRetryNum db)))
      fun r hr => (mem_selectDue.1 (List.mem_of_mem_take hr)).1
    unfold Consistent
    rw [getAllOfflineMessage_upTo _ _ h0 hkeys hnamed hok hfail]
    simp only [Bool.false_eq_true, false_or]
    constructor
    · intro h k hk
      have hlen := (h.trans (hperm.map _)).length_eq
      simp only [List.length_map, List.length_take] at hlen
      exact hok k (by omega)
    · intro hall
      have hlast : j = (selectDue w maxRetryNum db).length := by
        by_contra hne
        have := hfail (by omega)
        rw [hall j (by omega)] at this
        cases this
      rw [hlast, List.take_of_length_le (Nat.le_succ _)]
      rw [hlast, List.take_length] at hperm
      rw [List.take_length]
      exact (hperm.map _).symm
  · exact iff_of_true (consistent_of_throw h0) (.inl rfl)

theorem helloCached_keys : helloCached.db.UniqueKeys ∧ helloCached.db.BoundKeys := by
  refine ⟨List.nodup_singleton _, fun r hr => ?_⟩
  rw [List.mem_singleton.1 hr]
  exact ⟨1, 2, 3, rfl⟩

theorem getAllOfflineMessage_consistent_iff_hello :
    Consistent (.calm 10) 3 10 helloCached.db ↔ (World.calm 10).fails 0 = true ∨
      ∀ k < (selectDue (.calm 10) 3 helloCached.db).length, (World.calm 10).fails (1 + k) = false :=
  getAllOfflineMessage_consistent_iff helloCached_keys.1 helloCached_keys.2

/-- The `UPDATE` of the one row that is due throws: its message is handed out and not counted. -/
theorem helloCached_not_consistent : ¬ ∀ w maxRetryNum interval db, db.UniqueKeys →
    db.BoundKeys → Consistent w maxRetryNum interval db := by
  intro hall
  have hperm : [(helloHead.cacheRow 0 0).item].Perm [] :=
    hall (.failing 10 1) 3 10 helloCached.db helloCached_keys.1 helloCached_keys.2
  cases hperm.eq_nil

end ShortMessage
