import Mathlib.Data.List.Count
import ShortMessage.Proofs.Kept

/-!
# Retransmissions among the threads

While the cached messages have distinct keys and the daemon makes its rounds one after the other, no
interleaving of a pass with the requests has a message handed out more often than `maxRetryCount`
and once for each of its retries that failed, and what is sent again was handed out before
(`reaches_handedOut`). A row a pass has selected may meanwhile be deleted and its key be taken by
another message: the retry then counts for that one, which was not handed out yet.
-/

namespace ShortMessage

open CMemory Interleaving

/-- A pass hands out the message of thread `n`, right before its retry. -/
def HandsOut (n : ℕ) (e : ServerMove × Option (Event Operation Operation.Result)) : Bool :=
  match e.2 with
  | some ⟨.updateRetry message _ _, _⟩ => message.origin = some n
  | _ => false

/-- The `UPDATE` of the retry threw. -/
def FailedRetry (n : ℕ) (e : ServerMove × Option (Event Operation Operation.Result)) : Bool :=
  match e.2 with
  | some ⟨.updateRetry message _ _, false⟩ => message.origin = some n
  | _ => false

def Resends (n : ℕ) (e : ServerMove × Option (Event Operation Operation.Result)) : Bool :=
  match e.2 with
  | some ⟨.sendMessage (some message) _, _⟩ => message.origin = some n
  | _ => false

variable {cfg : Config} {maxSize : ℕ} {w : World} {s s' : Shared} {h h' : ServerHistory}
  {qs qs' : List Errand} {t n : ℕ} {q : Errand} {c : Operation} {b : c.Result}
  {e : ServerMove × Option (Event Operation Operation.Result)} {limit : ℤ}
  {rows : List CacheRow} {cache cache' : List CacheRow} {r r' : CacheRow}

/-! ## Rows selected -/

/-- A row counts at least the times its message was handed out and its retry did not fail. -/
def Counts (h : ServerHistory) (r : CacheRow) : Prop :=
  (h.countP (HandsOut r.origin) : ℤ) ≤ r.retryNum + h.countP (FailedRetry r.origin)

/-- What holds of the rows a pass has selected and not put off, whatever became of the cache. -/
structure Selected (limit : ℤ) (h : ServerHistory) (qs : List Errand) (cache rows : List CacheRow) :
    Prop where
  keys : (rows.map (·.key)).Nodup
  origins : (rows.map (·.origin)).Nodup
  clean : ∀ r ∈ rows, r.Clean
  born : ∀ r ∈ rows, HasInserted qs r.origin
  due : ∀ r ∈ rows, r.retryNum < limit
  counts : ∀ r ∈ rows, Counts h r
  same : ∀ r ∈ rows, ∀ r' ∈ cache, r'.origin = r.origin → r'.key = r.key
  other : ∀ r ∈ rows, ∀ r' ∈ cache, r'.key = r.key →
    r'.origin = r.origin ∨ h.countP (HandsOut r'.origin) = 0

theorem Selected.nil : Selected limit h qs cache [] :=
  ⟨List.nodup_nil, List.nodup_nil, nofun, nofun, nofun, nofun, nofun, nofun⟩

/-- Nothing is handed out, and the rows of the cache are the old ones and new ones of threads that
had not inserted. -/
theorem Selected.mono (hk : Selected limit h qs cache rows)
    (hout : ∀ n, h'.countP (HandsOut n) = h.countP (HandsOut n))
    (hfailed : ∀ n, h'.countP (FailedRetry n) = h.countP (FailedRetry n))
    (hqs : ∀ n, HasInserted qs n → HasInserted qs' n)
    (hcache : ∀ r' ∈ cache', (∃ r ∈ cache, r.origin = r'.origin ∧ r.key = r'.key) ∨
      h.countP (HandsOut r'.origin) = 0 ∧ ¬ HasInserted qs r'.origin) :
    Selected limit h' qs' cache' rows := by
  refine ⟨hk.keys, hk.origins, hk.clean, fun r hr => hqs _ (hk.born r hr), hk.due,
    fun r hr => ?_, fun r hr r' hr' ho => ?_, fun r hr r' hr' hkey => ?_⟩
  · rw [Counts, hout, hfailed]
    exact hk.counts r hr
  · rcases hcache r' hr' with ⟨r₀, hr₀, ho₀, hkey₀⟩ | ⟨-, hfresh⟩
    · rw [← hkey₀, hk.same r hr r₀ hr₀ (ho₀.trans ho)]
    · exact absurd (ho ▸ hk.born r hr) hfresh
  · rw [hout]
    rcases hcache r' hr' with ⟨r₀, hr₀, ho₀, hkey₀⟩ | ⟨hzero, -⟩
    · rw [← ho₀]
      exact hk.other r hr r₀ hr₀ (hkey₀.trans hkey)
    · exact .inr hzero

/-- The rows a `SELECT` returns. -/
theorem Selected.select {s : Shared} (hk : Cached h qs s) (hunique : s.db.UniqueKeys)
    (hcounts : ∀ r ∈ s.db.messageCache, Counts h r) {now : ℤ}
    (hrows : rows.Perm (s.db.messageCache.filter (·.Due limit now))) :
    Selected limit h qs s.db.messageCache rows := by
  have hmem {r : CacheRow} (hr : r ∈ rows) : r ∈ s.db.messageCache ∧ r.Due limit now := by
    have := List.mem_filter.1 (hrows.mem_iff.1 hr)
    exact ⟨this.1, by simpa using this.2⟩
  refine ⟨?_, ?_, fun r hr => hk.clean r (hmem hr).1, fun r hr => hk.born r (hmem hr).1,
    fun r hr => (hmem hr).2.1, fun r hr => hcounts r (hmem hr).1, ?_, ?_⟩
  · exact (hrows.map _).nodup_iff.2 (hunique.sublist (List.filter_sublist.map _))
  · exact (hrows.map _).nodup_iff.2 (hk.origins.sublist (List.filter_sublist.map _))
  · intro r hr r' hr' ho
    rw [List.inj_on_of_nodup_map hk.origins hr' (hmem hr).1 ho]
  · intro r hr r' hr' hkey
    exact .inl (by rw [List.inj_on_of_nodup_map hunique hr' (hmem hr).1 hkey])

/-! ## One retry -/

theorem countP_failedRetry_le (h : ServerHistory) (n : ℕ) :
    h.countP (FailedRetry n) ≤ h.countP (HandsOut n) := by
  refine List.countP_mono_left fun e _ he => ?_
  unfold FailedRetry at he
  split at he
  next heq => simpa only [HandsOut, heq] using he
  next => cases he

section Retry

variable {retryTime : ℤ} {res : Bool}

/-- The retry of row `r`. -/
abbrev retryOf (t : ℕ) (w : World) (r : CacheRow) (retryTime : ℤ) (res : Bool) :
    ServerMove × Option (Event Operation Operation.Result) :=
  (.run t w, some ⟨.updateRetry r.item (r.retryNum + 1) retryTime, res⟩)

theorem countP_handsOut_retry (n : ℕ) : (h ++ [retryOf t w r retryTime res]).countP (HandsOut n) =
    h.countP (HandsOut n) + if r.origin = n then 1 else 0 := by
  rw [List.countP_append, List.countP_singleton]
  simp [HandsOut, CacheRow.item]

theorem countP_failedRetry_retry (n : ℕ) :
    (h ++ [retryOf t w r retryTime res]).countP (FailedRetry n) =
      h.countP (FailedRetry n) + if r.origin = n ∧ res = false then 1 else 0 := by
  rw [List.countP_append, List.countP_singleton]
  cases res <;> simp [FailedRetry, CacheRow.item]

theorem Counts.retry_of_ne (hr' : Counts h r') (hne : r.origin ≠ r'.origin) :
    Counts (h ++ [retryOf t w r retryTime res]) r' := by
  rw [Counts, countP_handsOut_retry, countP_failedRetry_retry, if_neg hne,
    if_neg fun hn => hne hn.1]
  exact hr'

/-- After the `UPDATE` the rows with the key count what they have to. -/
theorem Selected.counts_retry (hk : Selected limit h qs cache (r :: rows)) (hr' : r' ∈ cache)
    (hcounts : Counts h r') : Counts (h ++ [retryOf t w r retryTime true])
      (r'.retry (bound r.item.fromId r.item.toId r.item.frameId) (r.retryNum + 1) retryTime) := by
  have hclean := (hk.clean r List.mem_cons_self).key
  have hr := hk.counts r List.mem_cons_self
  have hle := countP_failedRetry_le h r.origin
  rw [hclean]
  unfold Counts at hr
  by_cases hkey : r'.key = r.key
  · rw [Counts, CacheRow.origin_retry, CacheRow.retry, if_pos hkey, countP_handsOut_retry,
      countP_failedRetry_retry]
    rcases hk.other r List.mem_cons_self r' hr' hkey with ho | hzero
    · simp only [ho, if_true, Bool.true_eq_false, and_false, if_false]
      push_cast
      omega
    · rw [hzero]
      split_ifs <;> push_cast <;> omega
  · rw [CacheRow.retry, if_neg hkey]
    exact hcounts.retry_of_ne fun ho => hkey (hk.same r List.mem_cons_self r' hr' ho.symm)

/-- The rows that are left after a retry. -/
theorem Selected.retry (hk : Selected limit h qs cache (r :: rows))
    (hqs : ∀ n, HasInserted qs n → HasInserted qs' n) (key : ℤ × ℤ × ℤ) (retryNum : ℤ) :
    Selected limit (h ++ [retryOf t w r retryTime true]) qs'
      (cache.map (·.retry key retryNum retryTime)) rows := by
  obtain ⟨hkey, hkeys⟩ := List.nodup_cons.1 hk.keys
  obtain ⟨horigin, horigins⟩ := List.nodup_cons.1 hk.origins
  have hne {r₂ : CacheRow} (hr₂ : r₂ ∈ rows) : r.origin ≠ r₂.origin :=
    fun heq => horigin (List.mem_map.2 ⟨r₂, hr₂, heq.symm⟩)
  refine ⟨hkeys, horigins, fun r₂ hr₂ => hk.clean r₂ (List.mem_cons_of_mem _ hr₂),
    fun r₂ hr₂ => hqs _ (hk.born r₂ (List.mem_cons_of_mem _ hr₂)),
    fun r₂ hr₂ => hk.due r₂ (List.mem_cons_of_mem _ hr₂),
    fun r₂ hr₂ => (hk.counts r₂ (List.mem_cons_of_mem _ hr₂)).retry_of_ne (hne hr₂), ?_, ?_⟩
  · rintro r₂ hr₂ _ hr' ho
    obtain ⟨x, hx, rfl⟩ := List.mem_map.1 hr'
    rw [CacheRow.origin_retry] at ho
    rw [CacheRow.key_retry, hk.same r₂ (List.mem_cons_of_mem _ hr₂) x hx ho]
  · rintro r₂ hr₂ _ hr' hkey₂
    obtain ⟨x, hx, rfl⟩ := List.mem_map.1 hr'
    rw [CacheRow.key_retry] at hkey₂
    rw [CacheRow.origin_retry, countP_handsOut_retry, if_neg, Nat.add_zero]
    · exact hk.other r₂ (List.mem_cons_of_mem _ hr₂) x hx hkey₂
    · intro ho
      rw [hk.same r List.mem_cons_self x hx ho.symm] at hkey₂
      exact hkey (List.mem_map.2 ⟨r₂, hr₂, hkey₂.symm⟩)

end Retry

/-! ## The one pass -/

/-- One pass is live at most, and only a live one has rows to put off. -/
structure OneLive (qs : List Errand) : Prop where
  pass : ∀ (t : ℕ) q, qs[t]? = some q → q.live = true → q.job = .pass
  single : ∀ (t t' : ℕ) q q', qs[t]? = some q → qs[t']? = some q' → q.live = true →
    q'.live = true → t = t'
  idle : ∀ (t : ℕ) q, qs[t]? = some q → q.live = false → q.todo = []

theorem Errand.next_live (hpre : q.Permits cfg.platform c) (hidle : q.live = false → q.todo = []) :
    ((q.next c b).live = true → q.live = true) ∧
      ((q.next c b).live = false → (q.next c b).todo = []) := by
  cases c with
  | insertOfflineMessage => cases b <;> exact ⟨id, hidle⟩
  | sendMessage message => cases message <;> exact ⟨id, hidle⟩
  | close => exact ⟨nofun, fun _ => rfl⟩
  | selectDue =>
    have hlive : q.live = true := hpre
    exact ⟨id, fun hn => by cases hlive.symm.trans hn⟩
  | updateRetry =>
    obtain ⟨r, rows, htodo, -⟩ := hpre
    refine ⟨id, fun hn => ?_⟩
    rw [hidle hn] at htodo
    cases htodo
  | _ => exact ⟨id, hidle⟩

theorem OneLive.spawn (hk : OneLive qs) (t : ℕ) {job : Input}
    (hjob : job = .pass → ∀ (t : ℕ) q, qs[t]? = some q → q.live = false) :
    OneLive (qs ++ [.start t job]) := by
  have hnew {t' : ℕ} {q : Errand} (hq : qs[t']? = some q) (hlive : q.live = true)
      (hs : (Errand.start t job).live = true) : False := by
    rw [hjob (of_decide_eq_true hs) t' q hq] at hlive
    cases hlive
  refine ⟨fun t q hq hlive => ?_, fun t t' q q' hq hq' hlive hlive' => ?_, fun t q hq hlive => ?_⟩
  · rcases Run.getElem?_concat.1 hq with hq | ⟨-, rfl⟩
    · exact hk.pass t q hq hlive
    · exact of_decide_eq_true hlive
  · rcases Run.getElem?_concat.1 hq with hq | ⟨rfl, rfl⟩ <;>
      rcases Run.getElem?_concat.1 hq' with hq' | ⟨rfl, rfl⟩
    · exact hk.single t t' q q' hq hq' hlive hlive'
    · exact (hnew hq hlive hlive').elim
    · exact (hnew hq' hlive' hlive).elim
    · rfl
  · rcases Run.getElem?_concat.1 hq with hq | ⟨-, rfl⟩
    · exact hk.idle t q hq hlive
    · rfl

theorem OneLive.run (hk : OneLive qs) (hq : qs[t]? = some q) (hpre : q.Permits cfg.platform c) :
    OneLive (qs.set t (q.next c b)) := by
  obtain ⟨hlive, hidle⟩ := Errand.next_live (b := b) hpre (hk.idle t q hq)
  -- a live thread was live before
  have hold {t' : ℕ} {q' : Errand} (hq' : (qs.set t (q.next c b))[t']? = some q')
      (hl : q'.live = true) : ∃ q₀, qs[t']? = some q₀ ∧ q₀.live = true ∧ q'.job = q₀.job := by
    rcases getElem?_set_cases hq hq' with ⟨rfl, rfl⟩ | ⟨-, hq'⟩
    · exact ⟨q, hq, hlive hl, (q.next_fixed c b).2.1⟩
    · exact ⟨q', hq', hl, rfl⟩
  refine ⟨fun t' q' hq' hl => ?_, fun t₁ t₂ q₁ q₂ hq₁ hq₂ hl₁ hl₂ => ?_, fun t' q' hq' hl => ?_⟩
  · obtain ⟨q₀, hq₀, hl₀, hjob⟩ := hold hq' hl
    rw [hjob, hk.pass t' q₀ hq₀ hl₀]
  · obtain ⟨q₁', hq₁', hl₁', -⟩ := hold hq₁ hl₁
    obtain ⟨q₂', hq₂', hl₂', -⟩ := hold hq₂ hl₂
    exact hk.single t₁ t₂ q₁' q₂' hq₁' hq₂' hl₁' hl₂'
  · rcases getElem?_set_cases hq hq' with ⟨rfl, rfl⟩ | ⟨-, hq'⟩
    · exact hidle hl
    · exact hk.idle t' q' hq' hl

/-! ## Runs -/

/-- How often the message of thread `n` was handed out to the pass and has not been sent. -/
def Errand.owes (n : ℕ) (q : Errand) : ℕ := q.toSend.countP (·.origin = some n)

def owed (qs : List Errand) (n : ℕ) : ℕ := (qs.flatMap (·.toSend)).countP (·.origin = some n)

structure Rationed (limit : ℤ) (h : ServerHistory) (qs : List Errand) (s : Shared) : Prop
    extends Cached h qs s, OneLive qs where
  fresh : ∀ n, ¬ HasInserted qs n → h.countP (HandsOut n) = 0
  counts : ∀ r ∈ s.db.messageCache, Counts h r
  selected : ∀ (t : ℕ) q, qs[t]? = some q → Selected limit h qs s.db.messageCache q.todo
  sent : ∀ n, h.countP (Resends n) + owed qs n = h.countP (HandsOut n)
  bounded : ∀ n, (h.countP (HandsOut n) : ℤ) ≤ max limit 0 + h.countP (FailedRetry n)

theorem owed_set (hq : qs[t]? = some q) (q' : Errand) (n : ℕ) :
    owed (qs.set t q') n + q.owes n = owed qs n + q'.owes n := by
  unfold owed Errand.owes
  exact countP_flatMap_set _ Errand.toSend q' hq

theorem countP_spawn (p : ServerMove × Option (Event Operation Operation.Result) → Bool)
    (job : Input) (hp : p (.spawn job, none) = false) :
    List.countP p (h ++ [(.spawn job, none)]) = h.countP p := by
  rw [List.countP_append, List.countP_singleton, hp]
  rfl

theorem Rationed.spawn (hk : Rationed limit h qs s) {job : Input}
    (hjob : job = .pass → ∀ (t : ℕ) q, qs[t]? = some q → q.live = false) :
    Rationed limit (h ++ [(.spawn job, none)]) (qs ++ [.start qs.length job]) s := by
  have hout (n : ℕ) := countP_spawn (h := h) (HandsOut n) job rfl
  have hfailed (n : ℕ) := countP_spawn (h := h) (FailedRetry n) job rfl
  refine ⟨hk.toCached.spawn job, hk.toOneLive.spawn _ hjob, fun n hn => ?_, fun r hr => ?_,
    fun t q hq => ?_, fun n => ?_, fun n => ?_⟩
  · rw [hout]
    exact hk.fresh n fun hins => hn (hins.spawn _)
  · rw [Counts, hout, hfailed]
    exact hk.counts r hr
  · rcases Run.getElem?_concat.1 hq with hq | ⟨-, rfl⟩
    · exact (hk.selected t q hq).mono hout hfailed (fun n hn => hn.spawn _)
        fun r hr => .inl ⟨r, hr, rfl, rfl⟩
    · exact .nil
  · rw [hout, countP_spawn (Resends n) job rfl, ← hk.sent n]
    simp [owed, Errand.start]
  · rw [hout, hfailed]
    exact hk.bounded n

/-- A pass hands out the first of the rows it has left, and puts it off. -/
theorem Rationed.retry (hk : Rationed cfg.maxRetryCount h qs s) (hq : qs[t]? = some q)
    {message : MessageItem} {retryNum retryTime : ℤ} {res : Bool}
    (hpre : q.Permits cfg.platform (.updateRetry message retryNum retryTime))
    (hc : handle cfg maxSize w s (.updateRetry message retryNum retryTime) = .ok (s', res)) :
    Rationed cfg.maxRetryCount (h ++ [(.run t w, some ⟨.updateRetry message retryNum retryTime, res⟩)])
      (qs.set t (q.next (.updateRetry message retryNum retryTime) res)) s' := by
  have hcached := hk.toCached.run hq hpre hc
  have hlive := hk.toOneLive.run (b := res) hq hpre
  obtain ⟨r, rows, htodo, rfl, rfl⟩ := hpre
  have hsel := hk.selected t q hq
  rw [htodo] at hsel
  have hr := hsel.counts r List.mem_cons_self
  have hdue := hsel.due r List.mem_cons_self
  have hins (n : ℕ) (hn : HasInserted qs n) :
      HasInserted (qs.set t (q.next (.updateRetry r.item (r.retryNum + 1) retryTime) res)) n :=
    HasInserted.set hq hn
  have hother {t' : ℕ} {q' : Errand} (hne : t' ≠ t) (hq' : qs[t']? = some q') : q'.todo = [] := by
    have hl : q.live = true := by
      by_contra hn
      rw [hk.idle t q hq (by simpa using hn)] at htodo
      cases htodo
    refine hk.idle t' q' hq' ?_
    by_contra hn
    exact hne (hk.single t' t q' q hq' hq (by simpa using hn) hl)
  have hstep := handle_cacheStep hc
  generalize hcache : s'.db.messageCache = cache at hstep
  refine ⟨hcached, hlive, fun n hn => ?_, ?_, fun t' q' hq' => ?_, fun n => ?_, fun n => ?_⟩
  · have hfresh := hk.fresh n fun h => hn (hins n h)
    have hne : r.origin ≠ n := by
      rintro rfl
      exact hn (hins _ (hsel.born r List.mem_cons_self))
    rw [countP_handsOut_retry, if_neg hne, hfresh]
  · rw [hcache]
    cases hstep with
    | retried => exact List.forall_mem_map.2 fun r' hr' => hsel.counts_retry hr' (hk.counts r' hr')
    | kept _ _ hne =>
      -- the `UPDATE` threw
      intro r' hr'
      have hcounts := hk.counts r' hr'
      cases res
      · unfold Counts at hcounts ⊢
        rw [countP_handsOut_retry, countP_failedRetry_retry]
        simp only [and_true]
        push_cast
        omega
      · exact absurd rfl (hne _ _ _)
  · rcases getElem?_set_cases hq hq' with ⟨rfl, rfl⟩ | ⟨hne, hq'⟩
    · cases res
      · exact .nil
      · rw [hcache]
        cases hstep with
        | retried =>
          have htail : Selected cfg.maxRetryCount (h ++ [retryOf t' w r retryTime true]) _ _ rows :=
            hsel.retry hins (bound r.item.fromId r.item.toId r.item.frameId) (r.retryNum + 1)
          simpa only [Errand.next, htodo, if_true, List.tail_cons] using htail
        | kept _ _ hne => exact absurd rfl (hne _ _ _)
    · rw [hother hne hq']
      exact .nil
  · have hsum := owed_set hq (q.next (.updateRetry r.item (r.retryNum + 1) retryTime) res) n
    have hresends : (h ++ [retryOf t w r retryTime res]).countP (Resends n) =
        h.countP (Resends n) := by
      rw [List.countP_append, List.countP_singleton]
      rfl
    have hnew : (q.next (.updateRetry r.item (r.retryNum + 1) retryTime) res).owes n =
        q.owes n + if r.origin = n then 1 else 0 := by
      simp [Errand.next, Errand.owes, CacheRow.item, List.countP_cons]
    have hold := hk.sent n
    rw [hresends, countP_handsOut_retry]
    omega
  · have hn := hk.bounded n
    rw [countP_handsOut_retry, countP_failedRetry_retry]
    unfold Counts at hr
    by_cases ho : r.origin = n
    · subst ho
      simp only [if_true, true_and]
      split_ifs <;> push_cast <;> omega
    · simpa [ho] using hn

/-- The rows after an operation that is no retry are old ones, and one of a thread that had not
inserted. -/
theorem Cached.rows_of_ne (hk : Cached h qs s) (hq : qs[t]? = some q)
    (hpre : q.Permits cfg.platform c) (hc : handle cfg maxSize w s c = .ok (s', b))
    (hne : ∀ message retryNum retryTime, c ≠ .updateRetry message retryNum retryTime) :
    ∀ r ∈ s'.db.messageCache, r ∈ s.db.messageCache ∨
      r.retryNum = 0 ∧ ¬ HasInserted qs r.origin := by
  have hstep := handle_cacheStep hc
  generalize s'.db.messageCache = cache at hstep
  cases hstep with
  | inserted =>
    obtain ⟨hfresh, rfl, -⟩ := hpre
    refine List.forall_mem_append.2 ⟨fun r hr => .inl hr, List.forall_mem_singleton.2 (.inr ?_)⟩
    refine ⟨rfl, ?_⟩
    rintro ⟨q', hq', hins⟩
    rw [show (Head.cacheRow _ q.number w.now).origin = t from hk.number t q hq, hq,
      Option.some.injEq] at hq'
    rw [hq', hins] at hfresh
    cases hfresh
  | deleted => exact fun r hr => .inl (List.mem_of_mem_filter hr)
  | retried => exact absurd rfl (hne _ _ _)
  | kept => exact fun r hr => .inl hr

theorem Errand.owes_next (hpre : q.Permits cfg.platform c)
    (hne : ∀ message retryNum retryTime, c ≠ .updateRetry message retryNum retryTime) (n : ℕ) :
    (q.next c b).owes n + (Resends n (.run t w, some ⟨c, b⟩)).toNat = q.owes n := by
  cases c with
  | insertOfflineMessage => cases b <;> rfl
  | updateRetry => exact absurd rfl (hne _ _ _)
  | sendMessage message =>
    rcases message with _ | message
    · rfl
    · obtain ⟨hmem, -⟩ := hpre
      simp only [Errand.next, Errand.owes, Resends, List.countP_erase, hmem, true_and]
      by_cases ho : message.origin = some n
      · have hpos : 0 < q.toSend.countP (·.origin = some n) :=
          List.countP_pos_iff.2 ⟨message, hmem, by simpa using ho⟩
        simp only [ho, decide_true, if_true, Bool.toNat_true]
        omega
      · simp [ho]
  | _ => rfl

/-- Any operation but a retry. -/
theorem Rationed.other (hk : Rationed cfg.maxRetryCount h qs s) (hq : qs[t]? = some q)
    (hunique : s.db.UniqueKeys) (hpre : q.Permits cfg.platform c)
    (hc : handle cfg maxSize w s c = .ok (s', b))
    (hne : ∀ message retryNum retryTime, c ≠ .updateRetry message retryNum retryTime) :
    Rationed cfg.maxRetryCount (h ++ [(.run t w, some ⟨c, b⟩)]) (qs.set t (q.next c b)) s' := by
  have hout (n : ℕ) : List.countP (HandsOut n) (h ++ [(.run t w, some ⟨c, b⟩)]) =
      h.countP (HandsOut n) := by
    rw [List.countP_append, List.countP_singleton, if_neg, Nat.add_zero]
    cases c <;> first | exact Bool.false_ne_true | exact absurd rfl (hne _ _ _)
  have hfailed (n : ℕ) : List.countP (FailedRetry n) (h ++ [(.run t w, some ⟨c, b⟩)]) =
      h.countP (FailedRetry n) := by
    rw [List.countP_append, List.countP_singleton, if_neg, Nat.add_zero]
    cases c <;> first | exact Bool.false_ne_true | exact absurd rfl (hne _ _ _)
  have hins (n : ℕ) (hn : HasInserted qs n) : HasInserted (qs.set t (q.next c b)) n :=
    HasInserted.set hq hn
  have hrows := hk.toCached.rows_of_ne hq hpre hc hne
  have hmono {rows : List CacheRow} (hsel : Selected cfg.maxRetryCount h qs s.db.messageCache rows) :
      Selected cfg.maxRetryCount (h ++ [(.run t w, some ⟨c, b⟩)]) (qs.set t (q.next c b))
        s'.db.messageCache rows := by
    refine hsel.mono hout hfailed hins fun r hr => ?_
    rcases hrows r hr with hr | ⟨-, hfresh⟩
    · exact .inl ⟨r, hr, rfl, rfl⟩
    · exact .inr ⟨hk.fresh _ hfresh, hfresh⟩
  refine ⟨hk.toCached.run hq hpre hc, hk.toOneLive.run hq hpre, fun n hn => ?_, fun r hr => ?_,
    fun t' q' hq' => ?_, fun n => ?_, fun n => ?_⟩
  · rw [hout]
    exact hk.fresh n fun h => hn (hins n h)
  · rw [Counts, hout, hfailed]
    rcases hrows r hr with hr | ⟨hzero, hfresh⟩
    · exact hk.counts r hr
    · rw [hk.fresh _ hfresh, hzero]
      omega
  · rcases getElem?_set_cases hq hq' with ⟨rfl, rfl⟩ | ⟨-, hq'⟩
    · cases c with
      | selectDue now =>
        obtain ⟨-, rfl | hperm⟩ := handle_selectDue hc
        · exact .nil
        · exact hmono (.select hk.toCached hunique hk.counts hperm)
      | close => exact .nil
      | updateRetry => exact absurd rfl (hne _ _ _)
      | insertOfflineMessage => cases b <;> exact hmono (hk.selected _ q hq)
      | sendMessage message => cases message <;> exact hmono (hk.selected _ q hq)
      | _ => exact hmono (hk.selected _ q hq)
    · exact hmono (hk.selected t' q' hq')
  · have hset := owed_set hq (q.next c b) n
    have hnext := Errand.owes_next (b := b) (t := t) (w := w) hpre hne n
    have hsent := hk.sent n
    have hcount : List.countP (Resends n) (h ++ [(.run t w, some ⟨c, b⟩)]) =
        h.countP (Resends n) + (Resends n (.run t w, some ⟨c, b⟩)).toNat := by
      rw [List.countP_append, List.countP_singleton]
      cases Resends n (.run t w, some ⟨c, b⟩) <;> rfl
    rw [hout, hcount]
    omega
  · rw [hout, hfailed]
    exact hk.bounded n

theorem Rationed.run (hk : Rationed cfg.maxRetryCount h qs s) (hq : qs[t]? = some q)
    (hunique : s.db.UniqueKeys) (hpre : q.Permits cfg.platform c)
    (hc : handle cfg maxSize w s c = .ok (s', b)) :
    Rationed cfg.maxRetryCount (h ++ [(.run t w, some ⟨c, b⟩)]) (qs.set t (q.next c b)) s' := by
  by_cases hretry : ∃ message retryNum retryTime, c = .updateRetry message retryNum retryTime
  · obtain ⟨message, retryNum, retryTime, rfl⟩ := hretry
    exact hk.retry hq hpre hc
  · exact hk.other hq hunique hpre hc fun _ _ _ heq => hretry ⟨_, _, _, heq⟩

section Reached

variable {sateCover : List SateRow} {userInfo : List ℤ} {p : ServerThreads}

/-- The daemon makes its rounds one after the other, and the cached messages have distinct keys. -/
def ServerThreads.Regular (p : ServerThreads) (l : ServerMove) : Prop :=
  p.OneDaemon l ∧ p.shared.db.UniqueKeys

theorem reaches_rationed (hr : Run.Reaches (ServerThreads.step cfg maxSize) ServerThreads.Regular
    (ServerThreads.start sateCover userInfo) h p) :
    Rationed cfg.maxRetryCount h (errandsAfter cfg h) p.shared := by
  refine (reaches_obeyed (I := Rationed cfg.maxRetryCount) (fun _ job => handling_errands job)
    ?_ ?_ ?_ hr).1
  · exact ⟨⟨rfl, nofun, nofun, List.nodup_nil, nofun⟩, ⟨nofun, nofun, nofun⟩, fun _ _ => rfl,
      nofun, nofun, fun _ => rfl, fun _ => by simp⟩
  · intro h qs p job hk hobeyed hjobs hP
    refine hk.spawn ?_
    rintro rfl t q hq
    -- the pass of an earlier round has ended
    obtain ⟨th, hth, hrest⟩ := hobeyed.thread hq
    have hjob := hk.job hq
    rw [← hjobs, List.getElem?_map, hth, Option.map_some, Option.some.injEq] at hjob
    by_contra hlive
    have hpass : th.job = .pass := hjob.trans (hk.pass t q hq (by simpa using hlive))
    obtain ⟨handed, hret⟩ := hP.1 rfl th (List.mem_of_getElem? hth) hpass
    rw [hret] at hrest
    exact hlive (hrest hpass)
  · intro h qs p t w c s b q hk hq hpre hP hc
    exact hk.run hq hP.2 hpre hc

/-- However the requests interleave with its pass, the daemon hands out a message no more often than
the limit and once for each retry that failed, and sends only what it handed out. -/
theorem reaches_handedOut (hr : Run.Reaches (ServerThreads.step cfg maxSize) ServerThreads.Regular
    (ServerThreads.start sateCover userInfo) h p) (n : ℕ) :
    h.countP (Resends n) ≤ h.countP (HandsOut n) ∧
      (h.countP (HandsOut n) : ℤ) ≤ max cfg.maxRetryCount 0 + h.countP (FailedRetry n) := by
  have hk := reaches_rationed hr
  have hsent := hk.sent n
  exact ⟨by omega, hk.bounded n⟩

end Reached

/-! ## A pass in the middle of a request -/

theorem uniqueKeys_of_length {db : Db} (hdb : db.messageCache.length ≤ 1) : db.UniqueKeys := by
  rcases db with ⟨_ | ⟨r, _ | ⟨r', cache⟩⟩, _, _, _⟩
  · exact List.nodup_nil
  · exact List.nodup_singleton _
  · simp at hdb

theorem regular_run {p : ServerThreads} (hdb : p.shared.db.messageCache.length ≤ 1) :
    p.Regular (.run t w) :=
  ⟨nofun, uniqueKeys_of_length hdb⟩

theorem regular_spawn {p : ServerThreads} {job : Input} (hth : ∀ th ∈ p.threads, th.job ≠ .pass)
    (hdb : p.shared.db.messageCache.length ≤ 1) : p.Regular (.spawn job) :=
  ⟨fun _ th hmem hjob => absurd hjob (hth th hmem), uniqueKeys_of_length hdb⟩

/-- `hello` is handed out while its handler still has its connection. -/
theorem hello_handedOut : ∃ h p, Run.Reaches (ServerThreads.step exactConfig 2)
    ServerThreads.Regular (ServerThreads.start [] []) h p ∧ h.countP (HandsOut 0) = 1 := by
  refine ⟨_, _, .next (.next (.next (.next (.next (.next (.next (.next .start
    (regular_spawn nofun (Nat.zero_le _)) (step_spawn (Input.request hello)))
    (regular_run (Nat.zero_le _)) (step_run (t := 0) (i := .calm 0) (b := true) rfl rfl))
    (regular_run (Nat.zero_le _)) (step_run (t := 0) (i := .calm 0) (b := true) rfl rfl))
    (regular_spawn ?_ le_rfl) (step_spawn Input.pass))
    (regular_run le_rfl) (step_run (t := 1) (i := .calm 10) (b := true) rfl rfl))
    (regular_run le_rfl) (step_run (t := 1) (i := .calm 10) (c := .time) rfl rfl))
    (regular_run le_rfl) (step_run (t := 1) (i := .calm 10) (c := .selectDue 10)
      (b := [helloHead.cacheRow 0 0]) rfl rfl))
    (regular_run le_rfl) (step_run (t := 1) (i := .calm 10) (b := true) rfl rfl), ?_⟩
  · intro th hth
    rw [List.mem_singleton.1 hth]
    exact nofun
  · rfl

theorem reaches_handedOut_hello : ∃ h : ServerHistory, h.countP (HandsOut 0) = 1 ∧
    (h.countP (HandsOut 0) : ℤ) ≤ max exactConfig.maxRetryCount 0 + h.countP (FailedRetry 0) := by
  obtain ⟨h, p, hr, hcount⟩ := hello_handedOut
  exact ⟨h, hcount, (reaches_handedOut hr 0).2⟩

end ShortMessage
