import ShortMessage.Lib.Backoff
import ShortMessage.Lib.Keyed
import ShortMessage.Proofs.Effects

/-!
# How often a message is handed out, and when

With one row for each key, a pass hands out the rows that are due and puts each off by itself
(`getAllOfflineMessage_eq`), so the counter and the time in a row tell the passes that handed it
out (`OnSchedule`). The daemon then looks for coverage and skips a message that has none: its
retry is spent (`reaches_resends`).
-/

namespace ShortMessage

open CMemory Backoff

variable {cfg : Config} {w : World} {s s' : Server} {l : Label} {out : Out} {db : Db} {h : History}
  {n : ℕ} {m : Head}

/-! ## One pass -/

section Pass

variable {maxRetryNum interval : ℤ}

/-- What a pass at time `now` makes of the row `x` that it selected as `r`. -/
def CacheRow.retried (interval now : ℤ) (r x : CacheRow) : CacheRow :=
  { x with retryNum := r.retryNum + 1, retryTime := now + (r.retryNum + 1) * interval }

/-- The update a row names by its item is the one by its key. -/
def CacheRow.Named (r : CacheRow) : Prop :=
  bound r.item.fromId r.item.toId r.item.frameId = r.key

/-- The loop whose first `j` updates take effect, and whose next one throws if there is one. -/
theorem retryLoop_eq : ∀ (j k : ℕ) (rows cache : List CacheRow), (∀ r ∈ rows, r.Named) →
    (∀ i < j, w.fails (k + i) = false) → (j < rows.length → w.fails (k + j) = true) →
      retryLoop w interval k rows cache =
        ((rows.take j).foldl (fun l r => Keyed.update CacheRow.key (r.retried interval w.now) r l)
          cache, (rows.take (j + 1)).map (·.item))
  | _, _, [], _, _, _, _ => by simp [retryLoop]
  | 0, k, r :: rows, cache, _, _, hfail => by
    have hk : w.fails k = true := hfail (by simp)
    unfold retryLoop
    simp [hk]
  | j + 1, k, r :: rows, cache, hnamed, hok, hfail => by
    obtain ⟨hr, hrows⟩ := List.forall_mem_cons.1 hnamed
    have hk : w.fails k = false := hok 0 (by omega)
    have hshift (i : ℕ) : k + 1 + i = k + (i + 1) := by omega
    unfold retryLoop
    simp only [hk, Bool.false_eq_true, ↓reduceIte]
    rw [retryLoop_eq j (k + 1) rows _ hrows]
    · unfold CacheRow.Named at hr
      simp only [hr, List.take_succ_cons, List.foldl_cons, List.map_cons]
      rfl
    · intro i hi
      rw [hshift]
      exact hok (i + 1) (by omega)
    · intro hj
      rw [hshift]
      exact hfail (by simpa using hj)

theorem mem_selectDue {r : CacheRow} : r ∈ selectDue w maxRetryNum db ↔
    r ∈ db.messageCache ∧ r.Due maxRetryNum w.now := by
  rw [selectDue, (w.order_perm _).mem_iff, List.mem_filter, decide_eq_true_eq]

def CacheRow.passed (maxRetryNum interval now : ℤ) (r : CacheRow) : CacheRow :=
  if r.Due maxRetryNum now then r.retried interval now r else r

theorem selectDue_nodup (hkeys : db.UniqueKeys) :
    ((selectDue w maxRetryNum db).map (·.key)).Nodup := by
  unfold selectDue
  rw [((w.order_perm _).map (·.key)).nodup_iff]
  exact hkeys.sublist (List.filter_sublist.map _)

/-- A pass hands out one more of the rows due than it puts off, unless all its updates take
effect. -/
theorem getAllOfflineMessage_upTo (maxRetryNum interval : ℤ) (h0 : w.fails 0 = false)
    (hkeys : db.UniqueKeys) (hnamed : ∀ r ∈ db.messageCache, r.Named) {j : ℕ}
    (hok : ∀ i < j, w.fails (1 + i) = false)
    (hfail : j < (selectDue w maxRetryNum db).length → w.fails (1 + j) = true) :
    getAllOfflineMessage w maxRetryNum interval db =
      ({ db with messageCache := db.messageCache.map fun r =>
          if r ∈ (selectDue w maxRetryNum db).take j then r.retried interval w.now r else r },
        ((selectDue w maxRetryNum db).take (j + 1)).map (·.item)) := by
  have hsub : ∀ r ∈ selectDue w maxRetryNum db, r ∈ db.messageCache := fun r hr =>
    (mem_selectDue.1 hr).1
  unfold getAllOfflineMessage
  rw [h0, if_neg Bool.false_ne_true, retryLoop_eq j 1 _ _ (fun r hr => hnamed r (hsub r hr)) hok
    hfail, Keyed.foldl_update_self (CacheRow.retried interval w.now) (fun _ _ => rfl) hkeys
      ((selectDue_nodup hkeys).sublist ((List.take_sublist _ _).map _))
      fun r hr => hsub r (List.mem_of_mem_take hr)]

/-- A pass hands out the rows that are due, and puts off each of them. -/
theorem getAllOfflineMessage_eq (maxRetryNum interval : ℤ) (hw : w.Succeeds) (hkeys : db.UniqueKeys)
    (hclean : ∀ r ∈ db.messageCache, r.Clean) :
    getAllOfflineMessage w maxRetryNum interval db =
      ({ db with messageCache := db.messageCache.map (·.passed maxRetryNum interval w.now) },
        (selectDue w maxRetryNum db).map (·.item)) := by
  rw [getAllOfflineMessage_upTo _ _ (hw 0) hkeys (fun r hr => (hclean r hr).key)
    (fun i _ => hw (1 + i)) (fun hlt => absurd hlt (lt_irrefl _)), List.take_length,
    List.take_of_length_le (Nat.le_succ _)]
  congr 2
  refine List.map_congr_left fun r hr => ?_
  unfold CacheRow.passed
  refine if_congr ?_ rfl rfl
  rw [mem_selectDue, and_iff_right hr]

theorem handed_filter (horigins : (db.messageCache.map (·.origin)).Nodup) {r : CacheRow}
    (hr : r ∈ db.messageCache) :
    ((selectDue w maxRetryNum db).map (·.item)).filter (·.origin = some r.origin) =
      if r.Due maxRetryNum w.now then [r.item] else [] := by
  have hperm : ((selectDue w maxRetryNum db).filter (·.origin = r.origin)).Perm
      ([r].filter (·.Due maxRetryNum w.now)) := by
    have := (w.order_perm (db.messageCache.filter (·.Due maxRetryNum w.now))).filter
      (·.origin = r.origin)
    rw [List.filter_comm, Keyed.filter_eq_singleton horigins hr] at this
    exact this
  rw [List.filter_map]
  have hcomp : ((fun message : MessageItem => decide (message.origin = some r.origin)) ∘
      fun r => r.item) = fun x : CacheRow => decide (x.origin = r.origin) := by
    funext x
    simp [CacheRow.item]
  rw [hcomp]
  split_ifs with hdue
  · rw [List.filter_cons_of_pos (by simpa using hdue)] at hperm
    rw [List.perm_singleton.1 hperm]
    rfl
  · rw [List.filter_cons_of_neg (by simpa using hdue)] at hperm
    rw [hperm.eq_nil]
    rfl

/-- Only cached rows are handed out. -/
theorem retryLoop_items : ∀ (k : ℕ) (rows cache : List CacheRow),
    ∀ message ∈ (retryLoop w interval k rows cache).2, ∃ r ∈ rows, r.item = message
  | _, [], _, message, hm => by simp [retryLoop] at hm
  | k, r :: rows, cache, message, hm => by
    unfold retryLoop at hm
    simp only [] at hm
    split_ifs at hm
    · rw [List.mem_singleton.1 hm]
      exact ⟨r, List.mem_cons_self, rfl⟩
    · rcases List.mem_cons.1 hm with rfl | hm
      · exact ⟨r, List.mem_cons_self, rfl⟩
      · obtain ⟨r', hr', heq⟩ := retryLoop_items (k + 1) rows _ message hm
        exact ⟨r', List.mem_cons_of_mem r hr', heq⟩

theorem getAllOfflineMessage_items {db' : Db} {messages : List MessageItem}
    (h : getAllOfflineMessage w maxRetryNum interval db = (db', messages)) :
    ∀ message ∈ messages, ∃ r ∈ db.messageCache, r.item = message := by
  intro message hm
  unfold getAllOfflineMessage at h
  split_ifs at h
  · cases h
    cases hm
  · cases h
    obtain ⟨r, hr, heq⟩ := retryLoop_items _ _ _ _ hm
    exact ⟨r, (mem_selectDue.1 hr).1, heq⟩

end Pass

/-! ## One step -/

theorem Effect.handed (he : Effect cfg s l db out) {message : MessageItem}
    (hm : message ∈ out.handed) : ∃ r ∈ s.db.messageCache, r.item = message := by
  cases he with
  | quiet => simp [Out.ofSent] at hm
  | stored => simp [Out.ofSent] at hm
  | cached => simp [Out.ofSent] at hm
  | cleared => simp [Out.ofSent] at hm
  | passed _ hget => exact getAllOfflineMessage_items hget message hm

theorem handTimes_concat (h : History) (e : Label × Out) (n : ℕ) : handTimes (h ++ [e]) n =
    handTimes h n ++ (e.2.handed.filter (·.origin = some n)).map fun _ => e.1.world.now := by
  simp [handTimes]

theorem Effect.handTimes_of_none (he : Effect cfg s l db out)
    (hn : ∀ r ∈ s.db.messageCache, r.origin ≠ n) :
    handTimes (h ++ [(l, out)]) n = handTimes h n := by
  have hnone : out.handed.filter (·.origin = some n) = [] := by
    rw [List.filter_eq_nil_iff]
    intro message hm hmn
    obtain ⟨r, hr, rfl⟩ := he.handed hm
    exact hn r hr (by simpa [CacheRow.item] using hmn)
  rw [handTimes_concat, hnone, List.map_nil, List.append_nil]

/-- What a step adds to the cache is the message it takes in. -/
theorem Effect.origins (he : Effect cfg s l db out) :
    ∀ r ∈ db.messageCache, r.origin = s.served ∨
      ∃ r' ∈ s.db.messageCache, r'.origin = r.origin := by
  intro r hr
  cases he with
  | quiet _ hsame => exact .inr ⟨r, hsame.1 ▸ hr, rfl⟩
  | stored => exact .inr ⟨r, hr, rfl⟩
  | cached =>
    rcases List.mem_append.1 hr with hr | hr
    · exact .inr ⟨r, hr, rfl⟩
    · rw [List.mem_singleton.1 hr]
      exact .inl rfl
  | cleared => exact .inr ⟨r, receipt_sublist.subset hr, rfl⟩
  | passed _ hget =>
    obtain ⟨f, hf, rfl⟩ := getAllOfflineMessage_cache hget
    obtain ⟨r', hr', rfl⟩ := List.mem_map.1 hr
    obtain ⟨_, _, heq⟩ := hf r'
    exact .inr ⟨r', hr', by rw [heq]⟩

theorem cachedAt_concat {e : Label × Out} {t : ℤ} : CachedAt (h ++ [e]) n t ↔ CachedAt h n t ∨
    n = h.length ∧ e.1.world.now = t ∧
      ∃ m, e.1.Takes m ∧ m.type = SignalType.completeMessage.code := by
  simp only [CachedAt, Run.getElem?_concat]
  constructor
  · rintro ⟨e', m, he | ⟨hn, rfl⟩, htakes, htype, ht⟩
    · exact .inl ⟨e', m, he, htakes, htype, ht⟩
    · exact .inr ⟨hn, ht, m, htakes, htype⟩
  · rintro (⟨e', m, he, htakes, htype, ht⟩ | ⟨hn, ht, m, htakes, htype⟩)
    · exact ⟨e', m, .inl he, htakes, htype, ht⟩
    · exact ⟨e, m, .inr ⟨hn, rfl⟩, htakes, htype, ht⟩

theorem CachedAt.eq {t t' : ℤ} (hc : CachedAt h n t) (hc' : CachedAt h n t') : t = t' := by
  obtain ⟨e, m, he, -, -, rfl⟩ := hc
  obtain ⟨e', m', he', -, -, rfl⟩ := hc'
  rw [he, Option.some.injEq] at he'
  rw [he']

theorem CachedAt.lt {t : ℤ} (hc : CachedAt h n t) : n < h.length := by
  obtain ⟨e, m, he, -⟩ := hc
  exact (List.getElem?_eq_some_iff.1 he).1

/-! ## Runs -/

/-- The counter and the time of a row tell when its message was handed out. -/
def OnTime (cfg : Config) (h : History) (r : CacheRow) : Prop :=
  ∃ t, CachedAt h r.origin t ∧ r.retryNum = (handTimes h r.origin).length ∧
    r.retryTime = nextTime t 10 cfg.msgInterval (handTimes h r.origin)

structure OnSchedule (cfg : Config) (h : History) (s : Server) : Prop extends Sound h s where
  origins : (s.db.messageCache.map (·.origin)).Nodup
  born : ∀ r ∈ s.db.messageCache, r.origin < h.length
  unborn : ∀ n, h.length ≤ n → handTimes h n = []
  onTime : ∀ r ∈ s.db.messageCache, OnTime cfg h r
  backsOff : ∀ n t, CachedAt h n t →
    BacksOff cfg.maxRetryCount t 10 cfg.msgInterval (handTimes h n)

theorem onSchedule_start (cfg : Config) (sateCover : List SateRow) (userInfo : List ℤ) :
    OnSchedule cfg [] (Server.start sateCover userInfo) :=
  ⟨sound_start sateCover userInfo, by simp [Server.start], by simp [Server.start], fun _ _ => rfl,
    by simp [Server.start], fun n t hc => absurd hc.lt (by simp)⟩

/-- A step that hands nothing out keeps the schedule of the rows it leaves. -/
theorem OnSchedule.still (hk : OnSchedule cfg h s) (hout : out.handed = [])
    (hsound : Sound (h ++ [(l, out)]) s')
    (horigins : (s'.db.messageCache.map (·.origin)).Nodup)
    (hrows : ∀ r ∈ s'.db.messageCache, r ∈ s.db.messageCache ∨ ∃ m, l.Takes m ∧
      m.type = SignalType.completeMessage.code ∧ r = m.cacheRow s.served l.world.now) :
    OnSchedule cfg (h ++ [(l, out)]) s' := by
  have hlen : (h ++ [(l, out)]).length = h.length + 1 := by simp
  have hsame : ∀ n, handTimes (h ++ [(l, out)]) n = handTimes h n := by
    intro n
    simp [handTimes_concat, hout]
  refine ⟨hsound, horigins, ?_, ?_, ?_, ?_⟩
  · intro r hr
    rw [hlen]
    rcases hrows r hr with hr | ⟨m, -, -, rfl⟩
    · have := hk.born r hr
      omega
    · have : (m.cacheRow s.served l.world.now).origin = h.length := hk.served
      omega
  · intro n hn
    rw [hsame, hk.unborn n (by omega)]
  · intro r hr
    rcases hrows r hr with hr | ⟨m, htakes, htype, rfl⟩
    · obtain ⟨t, hc, hnum, htime⟩ := hk.onTime r hr
      exact ⟨t, cachedAt_concat.2 (.inl hc), by rw [hsame, hnum], by rw [hsame, htime]⟩
    · have hnone : handTimes (h ++ [(l, out)]) s.served = [] := by
        rw [hsame, hk.unborn _ hk.served.ge]
      have horigin : (m.cacheRow s.served l.world.now).origin = s.served := rfl
      refine ⟨l.world.now, cachedAt_concat.2 (.inr ⟨hk.served, rfl, m, htakes, htype⟩), ?_, ?_⟩
      · rw [horigin, hnone]
        rfl
      · rw [horigin, hnone]
        rfl
  · intro n t hc
    rw [hsame]
    rcases cachedAt_concat.1 hc with hc | ⟨rfl, -⟩
    · exact hk.backsOff n t hc
    · rw [hk.unborn _ le_rfl]
      exact backsOff_nil

@[simp] theorem CacheRow.origin_passed (maxRetryNum interval now : ℤ) (r : CacheRow) :
    (r.passed maxRetryNum interval now).origin = r.origin := by
  unfold CacheRow.passed
  split_ifs <;> rfl

theorem OnSchedule.handTimes_pass (hk : OnSchedule cfg h s) (hw : l.world.Succeeds)
    (hkeys : s.db.UniqueKeys)
    (hget : getAllOfflineMessage l.world cfg.maxRetryCount cfg.msgInterval s.db = (db, out.handed))
    {r : CacheRow} (hr : r ∈ s.db.messageCache) :
    handTimes (h ++ [(l, out)]) r.origin = handTimes h r.origin ++
      if r.Due cfg.maxRetryCount l.world.now then [l.world.now] else [] := by
  rw [getAllOfflineMessage_eq _ _ hw hkeys hk.clean, Prod.mk.injEq] at hget
  rw [handTimes_concat]
  simp only [← hget.2, handed_filter hk.origins hr]
  split_ifs <;> rfl

/-- A row that was handed out is put off, and its counter is one more. -/
theorem OnTime.pass {r : CacheRow} {e : Label × Out} {now : ℤ} (hr : OnTime cfg h r)
    (htimes : handTimes (h ++ [e]) r.origin = handTimes h r.origin ++
      if r.Due cfg.maxRetryCount now then [now] else []) :
    OnTime cfg (h ++ [e]) (r.passed cfg.maxRetryCount cfg.msgInterval now) := by
  obtain ⟨t, hc, hnum, htime⟩ := hr
  refine ⟨t, by simpa using cachedAt_concat.2 (.inl hc), ?_, ?_⟩
  · rw [CacheRow.origin_passed, htimes]
    unfold CacheRow.passed
    split_ifs with hdue
    · simp [CacheRow.retried, hnum]
    · simpa using hnum
  · rw [CacheRow.origin_passed, htimes]
    unfold CacheRow.passed
    split_ifs with hdue
    · simp [CacheRow.retried, hnum]
    · simpa using htime

/-- A row is due when its message may be handed out again. -/
theorem OnTime.backsOff {r : CacheRow} {t now : ℤ} (hr : OnTime cfg h r)
    (hc : CachedAt h r.origin t)
    (hb : BacksOff cfg.maxRetryCount t 10 cfg.msgInterval (handTimes h r.origin)) :
    BacksOff cfg.maxRetryCount t 10 cfg.msgInterval (handTimes h r.origin ++
      if r.Due cfg.maxRetryCount now then [now] else []) := by
  obtain ⟨t', hc', hnum, htime⟩ := hr
  rw [hc'.eq hc] at htime
  split_ifs with hdue
  · refine hb.concat ?_ ?_
    · rw [← hnum]
      exact hdue.1
    · rw [← htime]
      exact hdue.2
  · rwa [List.append_nil]

theorem OnSchedule.pass (hk : OnSchedule cfg h s) (hw : l.world.Succeeds)
    (hkeys : s.db.UniqueKeys) (hl : l.input = .pass) (hsound : Sound (h ++ [(l, out)]) s')
    (he : Effect cfg s l s'.db out) (hget : getAllOfflineMessage l.world cfg.maxRetryCount
      cfg.msgInterval s.db = (s'.db, out.handed)) :
    OnSchedule cfg (h ++ [(l, out)]) s' := by
  have hlen : (h ++ [(l, out)]).length = h.length + 1 := by simp
  have htimes {r : CacheRow} (hr : r ∈ s.db.messageCache) := hk.handTimes_pass hw hkeys hget hr
  have hcache : s'.db.messageCache =
      s.db.messageCache.map (·.passed cfg.maxRetryCount cfg.msgInterval l.world.now) := by
    have := getAllOfflineMessage_eq cfg.maxRetryCount cfg.msgInterval hw hkeys hk.clean
    rw [hget, Prod.mk.injEq] at this
    rw [this.1]
  refine ⟨hsound, ?_, ?_, ?_, ?_, ?_⟩
  · rw [hcache, List.map_map]
    have hsame := List.map_congr_left (l := s.db.messageCache) fun r _ =>
      CacheRow.origin_passed cfg.maxRetryCount cfg.msgInterval l.world.now r
    exact hsame ▸ hk.origins
  · intro r hr
    rw [hcache] at hr
    obtain ⟨r₀, hr₀, rfl⟩ := List.mem_map.1 hr
    have := hk.born r₀ hr₀
    rw [CacheRow.origin_passed, hlen]
    omega
  · intro n hn
    rw [hlen] at hn
    rw [he.handTimes_of_none, hk.unborn n (by omega)]
    intro r hr
    have := hk.born r hr
    omega
  · intro r hr
    rw [hcache] at hr
    obtain ⟨r₀, hr₀, rfl⟩ := List.mem_map.1 hr
    exact (hk.onTime r₀ hr₀).pass (htimes hr₀)
  · intro n t hc
    rcases cachedAt_concat.1 hc with hc | ⟨-, -, m, ⟨bytes, hl', -⟩, -⟩
    · by_cases hn : ∃ r ∈ s.db.messageCache, r.origin = n
      · obtain ⟨r, hr, rfl⟩ := hn
        rw [htimes hr]
        exact (hk.onTime r hr).backsOff hc (hk.backsOff _ t hc)
      · rw [he.handTimes_of_none fun r hr hrn => hn ⟨r, hr, hrn⟩]
        exact hk.backsOff n t hc
    · rw [hl] at hl'
      cases hl'

theorem OnSchedule.next (hk : OnSchedule cfg h s) (hw : l.world.Succeeds)
    (hkeys : s.db.UniqueKeys) (hs : step cfg s l = .ok (s', out)) :
    OnSchedule cfg (h ++ [(l, out)]) s' := by
  have hsound := hk.toSound.next hs
  have he := (step_effect hs).2
  have heffect := he
  generalize hdb : s'.db = db at he
  cases he with
  | quiet _ hsame =>
    rw [← hdb] at hsame
    exact hk.still rfl hsound (hsame.1 ▸ hk.origins) fun r hr => .inl (hsame.1 ▸ hr)
  | stored => exact hk.still rfl hsound (by rw [hdb]; exact hk.origins) fun r hr => .inl (by
      rwa [hdb] at hr)
  | @cached m _ htakes htype =>
    refine hk.still rfl hsound ?_ fun r hr => ?_
    · rw [hdb]
      simp only [List.map_append, List.map_singleton]
      refine List.nodup_append.2 ⟨hk.origins, List.nodup_singleton _, ?_⟩
      intro o ho o' ho' heq
      obtain ⟨r, hr, rfl⟩ := List.mem_map.1 ho
      rw [List.mem_singleton.1 ho'] at heq
      have := hk.born r hr
      have : r.origin = s.served := heq
      have := hk.served
      omega
    · rw [hdb] at hr
      rcases List.mem_append.1 hr with hr | hr
      · exact .inl hr
      · exact .inr ⟨m, htakes, htype, List.mem_singleton.1 hr⟩
  | cleared =>
    refine hk.still rfl hsound ?_ fun r hr => .inl ?_
    · rw [hdb]
      exact hk.origins.sublist (receipt_sublist.map _)
    · rw [hdb] at hr
      exact receipt_sublist.subset hr
  | passed hl hget => exact hk.pass hw hkeys hl hsound heffect (hdb ▸ hget)

/-- What the steps of a run are assumed to meet: the statements succeed, and the cache has one row
for each key. -/
def Regular (s : Server) (l : Label) : Prop := l.world.Succeeds ∧ s.db.UniqueKeys

section Runs

variable {sateCover : List SateRow} {userInfo : List ℤ}

theorem reaches_onSchedule
    (hr : Run.Reaches (step cfg) Regular (Server.start sateCover userInfo) h s) :
    OnSchedule cfg h s :=
  Run.Reaches.invariant (I := OnSchedule cfg) (onSchedule_start cfg sateCover userInfo)
    (fun _ _ _ _ _ hk hP hs => hk.next hP.1 hP.2 hs) hr

theorem handTimes_of_gone {P : Server → Label → Prop} {s₁ : Server} (hn : n < s₁.served)
    (hgone : ∀ r ∈ s₁.db.messageCache, r.origin ≠ n) (hr : Run.Reaches (step cfg) P s₁ h s) :
    handTimes h n = [] := by
  have hinv : n < s.served ∧ (∀ r ∈ s.db.messageCache, r.origin ≠ n) ∧ handTimes h n = [] := by
    refine Run.Reaches.invariant (I := fun h s => n < s.served ∧
      (∀ r ∈ s.db.messageCache, r.origin ≠ n) ∧ handTimes h n = []) ⟨hn, hgone, rfl⟩ ?_ hr
    rintro h s l s' out ⟨hn, hgone, hnone⟩ - hs
    obtain ⟨hserved, he⟩ := step_effect hs
    refine ⟨by omega, fun r hr hrn => ?_, by rw [he.handTimes_of_none hgone, hnone]⟩
    rcases he.origins r hr with ho | ⟨r', hr', ho⟩
    · omega
    · exact hgone r' hr' (ho.trans hrn)
  exact hinv.2.2

theorem handTimes_append (h₁ h₂ : History) (n : ℕ) :
    handTimes (h₁ ++ h₂) n = handTimes h₁ n ++ handTimes h₂ n := by
  simp [handTimes]

/-- A cached message is handed out at most `max_retry_count` times, not before ten seconds have
passed, at growing distances, and not after its row is gone. -/
theorem reaches_backsOff {t : ℤ}
    (hr : Run.Reaches (step cfg) Regular (Server.start sateCover userInfo) h s)
    (hc : CachedAt h n t) :
    BacksOff cfg.maxRetryCount t 10 cfg.msgInterval (handTimes h n) ∧
      ∀ h₁ h₂ s₁, h = h₁ ++ h₂ →
        Run.Reaches (step cfg) Regular (Server.start sateCover userInfo) h₁ s₁ → n < h₁.length →
          (∀ r ∈ s₁.db.messageCache, r.origin ≠ n) → handTimes h n = handTimes h₁ n := by
  refine ⟨(reaches_onSchedule hr).backsOff n t hc, ?_⟩
  rintro h₁ h₂ s₁ rfl hr₁ hn hgone
  obtain ⟨s₁', hr₁', hr₂⟩ := hr.split
  rw [← hr₁.unique hr₁'] at hr₂
  have hserved := (reaches_onSchedule hr₁).served
  rw [handTimes_append, handTimes_of_gone (by omega) hgone hr₂, List.append_nil]

/-! ## Coverage -/

/-- Every row a pass is about to hand out is for a user with coverage. -/
def Covered (cfg : Config) (s : Server) (l : Label) : Prop :=
  l.input = .pass → ∀ r ∈ s.db.messageCache, r.Due cfg.maxRetryCount l.world.now →
    getSateCover cfg.platform false s.db r.item.toId ≠ []

theorem resendLoop_items (hw : w.Succeeds) : ∀ (k : ℕ) (messages : List MessageItem)
    {resent : List (MessageItem × Sent)},
    (∀ message ∈ messages, getSateCover cfg.platform false db message.toId ≠ []) →
      resendLoop cfg w db k messages = .ok resent → resent.map (·.1) = messages
  | _, [], _, _, h => by
    cases h
    rfl
  | k, message :: messages, resent, hcover, h => by
    obtain ⟨hfirst, hrest⟩ := List.forall_mem_cons.1 hcover
    unfold resendLoop at h
    simp only [hw k, sendTo, List.isEmpty_iff, hfirst, ↓reduceIte] at h
    obtain ⟨sent, hsent, h⟩ := bind_eq_ok.1 h
    obtain ⟨buf, -, hsent⟩ := bind_eq_ok.1 hsent
    obtain ⟨rest, hrest', h⟩ := bind_eq_ok.1 h
    cases hsent
    cases h
    rw [List.map_append, resendLoop_items hw (k + 1) messages hrest hrest']
    rfl

/-- With coverage, what is handed out is sent. -/
theorem Effect.resent (he : Effect cfg s l db out) (hw : l.world.Succeeds)
    (hkeys : s.db.UniqueKeys) (hclean : ∀ r ∈ s.db.messageCache, r.Clean)
    (hcover : Covered cfg s l) : out.resent.map (·.1) = out.handed := by
  cases he with
  | quiet => rfl
  | stored => rfl
  | cached => rfl
  | cleared => rfl
  | passed hl hget hresend =>
    rw [getAllOfflineMessage_eq _ _ hw hkeys hclean, Prod.mk.injEq] at hget
    obtain ⟨rfl, rfl⟩ := hget
    refine resendLoop_items hw _ _ ?_ hresend
    intro message hm
    obtain ⟨r, hr, rfl⟩ := List.mem_map.1 hm
    obtain ⟨hr, hdue⟩ := mem_selectDue.1 hr
    exact hcover hl r hr hdue

theorem resends_concat (h : History) (e : Label × Out) (n : ℕ) : resends (h ++ [e]) n =
    resends h n ++ (e.2.resent.filter (·.1.origin = some n)).map (·.2) := by
  simp [resends]

theorem reaches_length_resends
    (hr : Run.Reaches (step cfg) (fun s l => Regular s l ∧ Covered cfg s l)
      (Server.start sateCover userInfo) h s) :
    OnSchedule cfg h s ∧ ∀ n, (resends h n).length = (handTimes h n).length := by
  refine Run.Reaches.invariant (I := fun h s => OnSchedule cfg h s ∧
    ∀ n, (resends h n).length = (handTimes h n).length)
      ⟨onSchedule_start cfg sateCover userInfo, fun _ => rfl⟩ ?_ hr
  rintro h s l s' out ⟨hk, hlen⟩ ⟨⟨hw, hkeys⟩, hcover⟩ hs
  refine ⟨hk.next hw hkeys hs, fun n => ?_⟩
  have hsent := (step_effect hs).2.resent hw hkeys hk.clean hcover
  have hnew : (out.resent.filter (·.1.origin = some n)).length =
      (out.handed.filter (·.origin = some n)).length := by
    rw [← hsent, List.filter_map, List.length_map]
    rfl
  simp only [resends_concat, handTimes_concat, List.length_append, List.length_map, hlen n, hnew]

/-- In a run whose passes find coverage for what they hand out, a row whose retries are used up was
sent as often. -/
theorem reaches_resends
    (hr : Run.Reaches (step cfg) (fun s l => Regular s l ∧ Covered cfg s l)
      (Server.start sateCover userInfo) h s) :
    ∀ r ∈ s.db.messageCache, r.retryNum = cfg.maxRetryCount →
      ((resends h r.origin).length : ℤ) = cfg.maxRetryCount := by
  obtain ⟨hk, hlen⟩ := reaches_length_resends hr
  intro r hr hnum
  obtain ⟨t, -, hretry, -⟩ := hk.onTime r hr
  rw [hlen, ← hretry, hnum]

end Runs

/-! ## One message and its passes -/

/-- The server once `hello` was handed out `k` times and is due at `time`. -/
def helloRetried (sateCover : List SateRow) (k time : ℤ) (n : ℕ) : Server :=
  ⟨⟨[{ helloHead.cacheRow 0 0 with retryNum := k, retryTime := time }], [], sateCover, []⟩, 0, n⟩

theorem helloRetried_regular (sateCover : List SateRow) (k time : ℤ) (n : ℕ) (input : Input)
    (now : ℤ) : Regular (helloRetried sateCover k time n) ⟨input, .calm now⟩ :=
  ⟨fun _ => rfl, List.nodup_singleton _⟩

/-- What one pass hands out of it. -/
def helloHanded (resent : List (MessageItem × Sent)) : Out :=
  ⟨[], [(helloHead.cacheRow 0 0).item], resent⟩

/-- Without coverage for user 2, three passes hand the message out and send nothing. -/
theorem hello_spent : ∃ sent, Acks (⟨.request hello, .calm 0⟩, .ofSent sent) helloHead ∧
    Run.Reaches (step exactConfig) Regular (Server.start coverOne [])
      [(⟨.request hello, .calm 0⟩, .ofSent sent), (⟨.pass, .calm 10⟩, helloHanded []),
        (⟨.pass, .calm 20⟩, helloHanded []), (⟨.pass, .calm 40⟩, helloHanded [])]
      (helloRetried coverOne 3 70 4) := by
  obtain ⟨sent, hstep, hack⟩ := hello_acks
  have h0 : Run.Reaches (step exactConfig) Regular (Server.start coverOne [])
      [(⟨.request hello, .calm 0⟩, .ofSent sent)] (helloRetried coverOne 0 10 1) :=
    .next .start ⟨fun _ => rfl, List.nodup_nil⟩ hstep
  have h1 : step exactConfig (helloRetried coverOne 0 10 1) ⟨.pass, .calm 10⟩ =
      .ok (helloRetried coverOne 1 20 2, helloHanded []) := rfl
  have h2 : step exactConfig (helloRetried coverOne 1 20 2) ⟨.pass, .calm 20⟩ =
      .ok (helloRetried coverOne 2 40 3, helloHanded []) := rfl
  have h3 : step exactConfig (helloRetried coverOne 2 40 3) ⟨.pass, .calm 40⟩ =
      .ok (helloRetried coverOne 3 70 4, helloHanded []) := rfl
  exact ⟨sent, hack, ((h0.next (helloRetried_regular _ _ _ _ _ _) h1).next
    (helloRetried_regular _ _ _ _ _ _) h2).next (helloRetried_regular _ _ _ _ _ _) h3⟩

theorem reaches_backsOff_hello : ∃ h, handTimes h 0 = [10, 20, 40] ∧
    BacksOff exactConfig.maxRetryCount 0 10 exactConfig.msgInterval (handTimes h 0) := by
  obtain ⟨sent, hack, hr⟩ := hello_spent
  exact ⟨_, rfl, (reaches_backsOff hr ⟨_, helloHead, rfl, hack.takes, hack.type, rfl⟩).1⟩

/-- The retries of `hello` are used up, and it was not sent once. -/
theorem hello_not_resent : ¬ ∀ cfg sateCover userInfo h s,
    Run.Reaches (step cfg) Regular (Server.start sateCover userInfo) h s →
      ∀ r ∈ s.db.messageCache, r.retryNum = cfg.maxRetryCount →
        ((resends h r.origin).length : ℤ) = cfg.maxRetryCount := by
  intro hall
  obtain ⟨sent, hack, hr⟩ := hello_spent
  have hlen := hall _ _ _ _ _ hr _ List.mem_cons_self rfl
  have hnone : ((0 : ℕ) : ℤ) = 3 := hlen
  omega

theorem helloRetried_covered (k time : ℤ) (n : ℕ) (input : Input) (now : ℤ) :
    Covered exactConfig (helloRetried coverTwo k time n) ⟨input, .calm now⟩ := by
  intro _ r hr _
  rw [List.mem_singleton.1 hr]
  change getSateCover exactConfig.platform false (helloRetried coverTwo 0 0 0).db 2 ≠ []
  decide +kernel

theorem reaches_resends_hello : ∃ h, (resends h 0).length = 3 ∧
    ∀ r ∈ (helloRetried coverTwo 3 70 4).db.messageCache,
      r.retryNum = exactConfig.maxRetryCount →
        ((resends h r.origin).length : ℤ) = exactConfig.maxRetryCount := by
  obtain ⟨sent, hstep⟩ : ∃ sent, step exactConfig (Server.start coverTwo [])
      ⟨.request hello, .calm 0⟩ = .ok (helloRetried coverTwo 0 10 1, .ofSent sent) := ⟨_, rfl⟩
  obtain ⟨s1, h1⟩ : ∃ sent, step exactConfig (helloRetried coverTwo 0 10 1) ⟨.pass, .calm 10⟩ =
      .ok (helloRetried coverTwo 1 20 2, helloHanded [((helloHead.cacheRow 0 0).item, sent)]) :=
    ⟨_, rfl⟩
  obtain ⟨s2, h2⟩ : ∃ sent, step exactConfig (helloRetried coverTwo 1 20 2) ⟨.pass, .calm 20⟩ =
      .ok (helloRetried coverTwo 2 40 3, helloHanded [((helloHead.cacheRow 0 0).item, sent)]) :=
    ⟨_, rfl⟩
  obtain ⟨s3, h3⟩ : ∃ sent, step exactConfig (helloRetried coverTwo 2 40 3) ⟨.pass, .calm 40⟩ =
      .ok (helloRetried coverTwo 3 70 4, helloHanded [((helloHead.cacheRow 0 0).item, sent)]) :=
    ⟨_, rfl⟩
  have hP (k time now : ℤ) (n : ℕ) : Regular (helloRetried coverTwo k time n) ⟨.pass, .calm now⟩ ∧
      Covered exactConfig (helloRetried coverTwo k time n) ⟨.pass, .calm now⟩ :=
    ⟨helloRetried_regular _ _ _ _ _ _, helloRetried_covered _ _ _ _ _⟩
  have hr : Run.Reaches (step exactConfig) (fun s l => Regular s l ∧ Covered exactConfig s l)
      (Server.start coverTwo []) _ (helloRetried coverTwo 0 10 1) :=
    .next .start ⟨⟨fun _ => rfl, List.nodup_nil⟩, nofun⟩ hstep
  exact ⟨_, rfl, reaches_resends (((hr.next (hP _ _ _ _) h1).next (hP _ _ _ _) h2).next
    (hP _ _ _ _) h3)⟩

end ShortMessage
