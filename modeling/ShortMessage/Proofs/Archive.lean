import ShortMessage.Proofs.Effects

/-!
# Where an acknowledged message is found

A message keeps a row until a receipt clears the cache: the receipt archives one row of those it
deletes, if its insert succeeds. A run in which each receipt archives what it deletes loses no
acknowledged message (`reaches_noneLost`).
-/

namespace ShortMessage

open CMemory

variable {cfg : Config} {s s' : Server} {l : Label} {out : Out} {db db' : Db} {h : History} {n : ℕ}
  {m m' : Head}

theorem acked_concat {e : Label × Out} :
    Acked (h ++ [e]) n m ↔ Acked h n m ∨ n = h.length ∧ Acks e m := by
  simp only [Acked, Run.getElem?_concat]
  constructor
  · rintro ⟨e', he | ⟨hn, rfl⟩, ha⟩
    · exact .inl ⟨e', he, ha⟩
    · exact .inr ⟨hn, ha⟩
  · rintro (⟨e', he, ha⟩ | ⟨hn, ha⟩)
    · exact ⟨e', .inl he, ha⟩
    · exact ⟨e, .inr ⟨hn, rfl⟩, ha⟩

theorem Acked.lt (ha : Acked h n m) : n < h.length := by
  obtain ⟨e, he, -⟩ := ha
  exact (List.getElem?_eq_some_iff.1 he).1

/-! ## Rows of messages -/

/-- The message of step `n` has a row with this text. -/
def HasRow (db : Db) (n : ℕ) (text : List Byte) : Prop :=
  (∃ r ∈ db.messageCache, r.origin = n ∧ r.text = text) ∨
    ∃ r ∈ db.messageStore, r.origin = some n ∧ r.text = text

/-- Every row that a receipt deletes is archived, or none is deleted. -/
def Archives (s : Server) (l : Label) : Prop :=
  ∀ fromId toId frameId, l.Acknowledges fromId toId frameId →
    l.world.fails 0 = true ∨ l.world.fails 1 = true ∨ s.db.cached fromId toId frameId = [] ∨
      ((s.db.cached fromId toId frameId).length = 1 ∧ l.world.fails 2 = false)

theorem HasRow.mono {text : List Byte} (h : HasRow db n text)
    (hc : ∀ r ∈ db.messageCache, ∃ r' ∈ db'.messageCache, r.SameMessage r')
    (hs : ∀ r ∈ db.messageStore, r ∈ db'.messageStore) : HasRow db' n text := by
  rcases h with ⟨r, hr, rfl, rfl⟩ | ⟨r, hr, ho, ht⟩
  · obtain ⟨r', hr', _, _, rfl⟩ := hc r hr
    exact .inl ⟨_, hr', rfl, rfl⟩
  · exact .inr ⟨r, hs r hr, ho, ht⟩

theorem storeRow_text {r : CacheRow} (hr : r.Clean) (recvTime now : ℤ) :
    (r.item.storeRow recvTime now).text = r.text := by
  change r.text.takeWhile (· ≠ 0#8) = r.text
  rw [List.takeWhile_eq_self_iff]
  intro b hb
  have hne : b ≠ 0#8 := by
    rintro rfl
    exact hr.noNul hb
  simpa using hne

theorem eq_of_cached_one {fromId toId : BitVec 32} {frameId : BitVec 16} {r r' : CacheRow}
    {rows : List CacheRow} (hone : (db.cached fromId toId frameId).length = 1)
    (hperm : (r :: rows).Perm (db.cached fromId toId frameId))
    (hr' : r' ∈ db.cached fromId toId frameId) : r' = r := by
  have hrows : rows = [] := by
    have := hperm.length_eq
    rw [hone] at this
    simpa using this
  rw [hrows] at hperm
  simpa using hperm.symm.subset hr'

theorem hasRow_receipt {w : World} {fromId toId : BitVec 32} {frameId : BitVec 16}
    {text : List Byte} (hclean : ∀ r ∈ db.messageCache, r.Clean)
    (ha : w.fails 0 = true ∨ w.fails 1 = true ∨ db.cached fromId toId frameId = [] ∨
      ((db.cached fromId toId frameId).length = 1 ∧ w.fails 2 = false))
    (h : HasRow db n text) : HasRow (receipt w db fromId toId frameId) n text := by
  cases h0 : w.fails 0
  · rcases found_cases w db fromId toId frameId with hnone | ⟨r, rows, ho, hperm⟩
    · obtain ⟨rows, heq, -⟩ := receipt_none (w := w) hnone
      rw [heq]
      exact h.mono (fun r hr => ⟨r, hr, .refl r⟩) fun r hr => by simp [hr]
    · have hmem : r ∈ db.messageCache := (mem_cached.1 (hperm.subset List.mem_cons_self)).1
      rw [receipt_some h0 ho (hclean r hmem).type]
      rcases h with ⟨r', hr', horigin, htext⟩ | ⟨r', hr', horigin, htext⟩
      · by_cases hkept : w.fails 1 = true ∨ r'.key ≠ bound fromId toId frameId
        · refine .inl ⟨r', ?_, horigin, htext⟩
          simp only []
          split_ifs with h1
          · exact hr'
          · simpa [hr'] using hkept.resolve_left h1
        · -- the row is deleted: it is the one the receipt archives
          simp only [not_or, not_not] at hkept
          obtain ⟨h1, hkey⟩ := hkept
          have hr'mem : r' ∈ db.cached fromId toId frameId := mem_cached.2 ⟨hr', hkey⟩
          rcases ha with ha | ha | ha | ⟨hone, h2⟩
          · simp [h0] at ha
          · exact absurd ha h1
          · simp [ha] at hr'mem
          · obtain rfl := eq_of_cached_one hone hperm hr'mem
            refine .inr ⟨r'.item.storeRow r'.recvTime w.now, ?_, ?_, ?_⟩
            · simp [h2]
            · exact congrArg some horigin
            · rw [storeRow_text (hclean r' hr'), htext]
      · refine .inr ⟨r', ?_, horigin, htext⟩
        simp only []
        split_ifs <;> simp [hr']
  · rw [receipt_failed h0]
    exact h

/-! ## Runs -/

structure KeepsRows (h : History) (s : Server) : Prop extends Sound h s where
  hasRow : ∀ n m, Acked h n m → HasRow s.db n m.text

theorem keepsRows_start (sateCover : List SateRow) (userInfo : List ℤ) :
    KeepsRows [] (Server.start sateCover userInfo) :=
  ⟨sound_start sateCover userInfo, fun n m ha => absurd ha.lt (by simp)⟩

/-- Only the step that caches a message acknowledges it. -/
theorem Effect.acks (he : Effect cfg s l db out) (ha : Acks (l, out) m) :
    db = { s.db with messageCache := s.db.messageCache ++ [m.cacheRow s.served l.world.now] } := by
  obtain ⟨htakes, htype, sent, hsent, -⟩ := ha
  cases he with
  | quiet hl _ hnone =>
    have := readHead_type (htakes.readHead hl)
    rw [htype] at this
    simp [Out.ofSent, hnone this] at hsent
  | stored htakes' htype' =>
    rw [htakes.eq htakes', htype'] at htype
    exact absurd htype (by decide)
  | cached htakes' => rw [htakes.eq htakes']
  | cleared => simp [Out.ofSent] at hsent
  | passed => simp at hsent

theorem KeepsRows.next (hk : KeepsRows h s) (ha : Archives s l)
    (hs : step cfg s l = .ok (s', out)) : KeepsRows (h ++ [(l, out)]) s' := by
  have he := (step_effect hs).2
  refine ⟨hk.toSound.next hs, fun n m hm => ?_⟩
  rcases acked_concat.1 hm with hold | ⟨rfl, hnew⟩
  · have hrow := hk.hasRow n m hold
    generalize hdb : s'.db = db at he
    cases he with
    | quiet _ hsame =>
      exact hrow.mono (fun r hr => ⟨r, hsame.1 ▸ hr, .refl r⟩) fun r hr => hsame.2 ▸ hr
    | stored => exact hrow.mono (fun r hr => ⟨r, hr, .refl r⟩) fun r hr => by simp [hr]
    | cached => exact hrow.mono (fun r hr => ⟨r, by simp [hr], .refl r⟩) fun r hr => hr
    | cleared hack => exact hasRow_receipt hk.clean (ha _ _ _ hack) hrow
    | passed _ hget =>
      obtain ⟨f, hf, rfl⟩ := getAllOfflineMessage_cache hget
      exact hrow.mono (fun r hr => ⟨f r, List.mem_map_of_mem hr, hf r⟩) fun r hr => hr
  · rw [he.acks hnew]
    exact .inl ⟨m.cacheRow s.served l.world.now, by simp, hk.served, rfl⟩

/-- A message's rows are told apart by the message they are for. -/
def originAt (db : Db) : Place → Option ℕ
  | .inl i => db.messageCache[i]?.map (·.origin)
  | .inr i => db.messageStore[i]?.bind (·.origin)

theorem HasRow.place {text : List Byte} (hrow : HasRow db n text) :
    ∃ p, originAt db p = some n ∧ db.textAt p = some text := by
  rcases hrow with ⟨r, hr, rfl, rfl⟩ | ⟨r, hr, ho, rfl⟩
  · obtain ⟨i, hi⟩ := List.mem_iff_getElem?.1 hr
    exact ⟨.inl i, by simp [originAt, hi], by simp [Db.textAt, hi]⟩
  · obtain ⟨i, hi⟩ := List.mem_iff_getElem?.1 hr
    exact ⟨.inr i, by simp [originAt, hi, ho], by simp [Db.textAt, hi]⟩

theorem KeepsRows.noneLost (hk : KeepsRows h s) : NoneLost h s.db := by
  have hplace : ∀ n, ∃ p, ∀ m, Acked h n m →
      originAt s.db p = some n ∧ s.db.textAt p = some m.text := by
    intro n
    by_cases hn : ∃ m, Acked h n m
    · obtain ⟨m, hm⟩ := hn
      obtain ⟨p, hp⟩ := (hk.hasRow n m hm).place
      refine ⟨p, fun m' hm' => ?_⟩
      obtain ⟨e, he, ha⟩ := hm
      obtain ⟨e', he', ha'⟩ := hm'
      rw [he, Option.some.injEq] at he'
      subst he'
      rwa [ha'.takes.eq ha.takes]
    · exact ⟨.inl 0, fun m hm => absurd ⟨m, hm⟩ hn⟩
  choose place hp using hplace
  refine ⟨place, ?_, fun n m hm => (hp n m hm).2⟩
  rintro n ⟨m, hm⟩ n' ⟨m', hm'⟩ heq
  have h1 := (hp n m hm).1
  have h2 := (hp n' m' hm').1
  rw [heq, h2, Option.some.injEq] at h1
  exact h1.symm

/-- In a run whose receipts archive what they delete, no acknowledged message is lost. -/
theorem reaches_noneLost {sateCover : List SateRow} {userInfo : List ℤ}
    (hr : Run.Reaches (step cfg) Archives (Server.start sateCover userInfo) h s) :
    NoneLost h s.db := by
  have hk : KeepsRows h s := hr.invariant (keepsRows_start sateCover userInfo)
    fun h s l s' o hk ha hs => hk.next ha hs
  exact hk.noneLost

theorem reaches_noneLost_hello : ∃ h, Acked h 0 helloHead ∧
    NoneLost h ⟨[], [(helloHead.cacheRow 0 0).item.storeRow 0 1], coverOne, []⟩ := by
  obtain ⟨sent, hstep, hack⟩ := hello_acks
  refine ⟨[(⟨.request hello, .calm 0⟩, .ofSent sent),
    (⟨.request helloReceipt, .calm 1⟩, .ofSent [])], ⟨_, rfl, hack⟩, ?_⟩
  refine reaches_noneLost (.next (.next .start ?_ hstep) ?_ hello_cleared)
  · intro fromId toId frameId h
    exact absurd h hello_acknowledges
  · intro fromId toId frameId h
    obtain ⟨rfl, rfl, rfl⟩ := h.eq (helloReceipt_acknowledges _)
    exact .inr (.inr (.inr (by decide)))

/-- The receipt's `DELETE` takes effect and its `INSERT` throws. -/
theorem failedInsert_loses : ¬ ∀ cfg sateCover userInfo h s,
    Run.Reaches (step cfg) (fun _ _ => True) (Server.start sateCover userInfo) h s →
      NoneLost h s.db := by
  intro hall
  obtain ⟨sent, hstep, hack⟩ := hello_acks
  have hlost : step exactConfig helloCached ⟨.request helloReceipt, .failing 1 2⟩ =
      .ok (⟨⟨[], [], coverOne, []⟩, 0, 2⟩, .ofSent []) := rfl
  obtain ⟨place, -, hplace⟩ := hall _ _ _ _ _
    (.next (.next .start trivial hstep) trivial hlost)
  have htext := hplace 0 helloHead ⟨_, rfl, hack⟩
  rcases hp : place 0 with i | i <;> rw [hp] at htext
  · simp [Db.textAt] at htext
  · simp [Db.textAt] at htext

/-! ## What the archive says -/

/-- A receipt that finds a row comes from the sender of the message. -/
def ToSelf (s : Server) (l : Label) : Prop :=
  ∀ fromId toId frameId, l.Acknowledges fromId toId frameId →
    s.db.cached fromId toId frameId = [] ∨ fromId = toId

structure CacheRow.Keeps (r : CacheRow) (m : Head) : Prop where
  fromUser : r.fromUser = m.fromId.toInt
  toUser : r.toUser = m.toId.toInt
  frameId : r.frameId = m.frameId.toNat
  type : r.type = m.type.toNat
  text : r.text = m.text

theorem Head.cacheRow_keeps (m : Head) (n : ℕ) (now : ℤ) : (m.cacheRow n now).Keeps m :=
  ⟨rfl, rfl, rfl, rfl, rfl⟩

theorem Head.storeRow_records (m : Head) (n : ℕ) (now : ℤ) : (m.storeRow n now).Records m :=
  ⟨rfl, rfl, rfl, rfl, rfl⟩

/-- The archived row swaps the sender and the addressee. -/
theorem records_of_self {r : CacheRow} (hr : r.Clean) (hk : r.Keeps m)
    (hself : m.fromId = m.toId) (recvTime now : ℤ) :
    (r.item.storeRow recvTime now).Records m := by
  refine ⟨?_, ?_, ?_, ?_, ?_⟩
  · simp [MessageItem.storeRow, CacheRow.item, hk.toUser, hself]
  · simp [MessageItem.storeRow, CacheRow.item, hk.fromUser, hself]
  · simp [MessageItem.storeRow, CacheRow.item, hk.frameId]
  · simp [MessageItem.storeRow, CacheRow.item, hk.type]
  · rw [storeRow_text hr, hk.text]

/-- The row is that of the complete message it came in with. -/
def CacheRow.KeptIn (h : History) (r : CacheRow) : Prop :=
  ∃ e m, h[r.origin]? = some e ∧ e.1.Takes m ∧ m.type = SignalType.completeMessage.code ∧ r.Keeps m

/-- The cached rows have the fields of their messages, and so has the archive. -/
structure KeepsFields (h : History) (s : Server) : Prop extends Sound h s where
  keeps : ∀ r ∈ s.db.messageCache, r.KeptIn h
  faithful : Faithful h s.db

theorem CacheRow.KeptIn.concat {e : Label × Out} {r r' : CacheRow} (hr : r.KeptIn h)
    (hsame : r.SameMessage r') : r'.KeptIn (h ++ [e]) := by
  obtain ⟨e', m, he, htakes, htype, hfields⟩ := hr
  obtain ⟨_, _, rfl⟩ := hsame
  exact ⟨e', m, Run.getElem?_concat.2 (.inl he), htakes, htype,
    hfields.fromUser, hfields.toUser, hfields.frameId, hfields.type, hfields.text⟩

theorem faithful_receipt {w : World} {fromId toId : BitVec 32} {frameId : BitVec 16}
    (hk : KeepsFields h s) (hself : s.db.cached fromId toId frameId = [] ∨ fromId = toId) :
    Faithful h (receipt w s.db fromId toId frameId) := by
  cases h0 : w.fails 0
  · rcases found_cases w s.db fromId toId frameId with hnone | ⟨r, rows, ho, hperm⟩
    · obtain ⟨rows, heq, hrows⟩ := receipt_none (w := w) hnone
      rw [heq]
      intro r hr n hn
      rcases List.mem_append.1 hr with hr | hr
      · exact hk.faithful r hr n hn
      · rw [hrows r hr] at hn
        cases hn
    · have hmem := hperm.subset List.mem_cons_self
      obtain ⟨hcache, hkey⟩ := mem_cached.1 hmem
      rw [receipt_some h0 ho (hk.clean r hcache).type]
      intro r' hr' n hn
      simp only [] at hr'
      split_ifs at hr'
      · exact hk.faithful r' hr' n hn
      · rcases List.mem_append.1 hr' with hr' | hr'
        · exact hk.faithful r' hr' n hn
        · rw [List.mem_singleton.1 hr'] at hn ⊢
          obtain ⟨e, m, he, htakes, htype, hfields⟩ := hk.keeps r hcache
          have hn : some r.origin = some n := hn
          rw [Option.some.injEq] at hn
          subst hn
          refine ⟨e, m, he, htakes, .inr htype, records_of_self (hk.clean r hcache) hfields ?_ _ _⟩
          have hids : fromId = toId := by
            rcases hself with hself | hself
            · rw [hself] at hmem
              cases hmem
            · exact hself
          rw [CacheRow.key, bound, hids, Prod.mk.injEq, Prod.mk.injEq, hfields.fromUser,
            hfields.toUser] at hkey
          exact BitVec.toInt_inj.1 (hkey.1.trans hkey.2.1.symm)
  · rw [receipt_failed h0]
    exact hk.faithful

theorem Faithful.concat {e : Label × Out} (hf : Faithful h db) : Faithful (h ++ [e]) db := by
  intro r hr n hn
  obtain ⟨e', m, he, hm⟩ := hf r hr n hn
  exact ⟨e', m, Run.getElem?_concat.2 (.inl he), hm⟩

theorem Effect.keptIn (he : Effect cfg s l db out) (hserved : s.served = h.length)
    (hk : ∀ r ∈ s.db.messageCache, r.KeptIn h) :
    ∀ r ∈ db.messageCache, r.KeptIn (h ++ [(l, out)]) := by
  intro r hr
  cases he with
  | quiet _ hsame => exact (hk r (hsame.1 ▸ hr)).concat (.refl r)
  | stored => exact (hk r hr).concat (.refl r)
  | @cached m _ htakes htype =>
    rcases List.mem_append.1 hr with hr | hr
    · exact (hk r hr).concat (.refl r)
    · rw [List.mem_singleton.1 hr]
      exact ⟨_, m, Run.getElem?_concat.2 (.inr ⟨hserved, rfl⟩), htakes, htype, m.cacheRow_keeps _ _⟩
  | cleared => exact (hk r (receipt_sublist.subset hr)).concat (.refl r)
  | passed _ hget =>
    obtain ⟨f, hf, rfl⟩ := getAllOfflineMessage_cache hget
    obtain ⟨r', hr', rfl⟩ := List.mem_map.1 hr
    exact (hk r' hr').concat (hf r')

theorem Effect.faithful (he : Effect cfg s l db out) (hk : KeepsFields h s) (ha : ToSelf s l) :
    Faithful (h ++ [(l, out)]) db := by
  cases he with
  | quiet _ hsame =>
    intro r hr
    rw [hsame.2] at hr
    exact hk.faithful.concat r hr
  | @stored m _ htakes htype =>
    intro r hr n hn
    rcases List.mem_append.1 hr with hr | hr
    · exact hk.faithful.concat r hr n hn
    · rw [List.mem_singleton.1 hr] at hn ⊢
      cases hn
      exact ⟨_, m, Run.getElem?_concat.2 (.inr ⟨hk.served, rfl⟩), htakes, .inl htype,
        m.storeRow_records _ _⟩
  | cached => exact hk.faithful.concat
  | cleared hack => exact (faithful_receipt hk (ha _ _ _ hack)).concat
  | passed _ hget =>
    obtain ⟨f, -, rfl⟩ := getAllOfflineMessage_cache hget
    exact hk.faithful.concat

theorem KeepsFields.next (hk : KeepsFields h s) (ha : ToSelf s l)
    (hs : step cfg s l = .ok (s', out)) : KeepsFields (h ++ [(l, out)]) s' := by
  have he := (step_effect hs).2
  exact ⟨hk.toSound.next hs, he.keptIn hk.served hk.keeps, he.faithful hk ha⟩

/-- In a run whose cleared messages were sent by their addressees, the archive is faithful. -/
theorem reaches_faithful {sateCover : List SateRow} {userInfo : List ℤ}
    (hr : Run.Reaches (step cfg) ToSelf (Server.start sateCover userInfo) h s) :
    Faithful h s.db := by
  have hstart : KeepsFields [] (Server.start sateCover userInfo) :=
    ⟨sound_start sateCover userInfo, by simp [Server.start], by simp [Faithful, Server.start]⟩
  have hk : KeepsFields h s := hr.invariant hstart fun h s l s' o hk ha hs => hk.next ha hs
  exact hk.faithful

/-- User 1 sends itself "b" as frame 3. -/
def helloSelf : List Byte := [0, 0, 0, 1, 0, 0, 0, 1, 0, 3, 0x60, 0, 0x62]

def helloSelfReceipt : List Byte := [0, 0, 0, 1, 0, 0, 0, 1, 0, 4, 0x80, 0, 0, 3, 0x60]

theorem reaches_faithful_helloSelf :
    ∃ h r, r.origin = some 0 ∧ Faithful h ⟨[], [r], coverOne, []⟩ := by
  obtain ⟨out, hstep⟩ : ∃ out, step exactConfig (Server.start coverOne [])
      ⟨.request helloSelf, .calm 0⟩ =
        .ok (⟨⟨[(⟨1, 1, 3, 0x60, [0x62]⟩ : Head).cacheRow 0 0], [], coverOne, []⟩, 0, 1⟩, out) :=
    ⟨_, rfl⟩
  have hclear : step exactConfig
      ⟨⟨[(⟨1, 1, 3, 0x60, [0x62]⟩ : Head).cacheRow 0 0], [], coverOne, []⟩, 0, 1⟩
        ⟨.request helloSelfReceipt, .calm 1⟩ =
          .ok (⟨⟨[], [((⟨1, 1, 3, 0x60, [0x62]⟩ : Head).cacheRow 0 0).item.storeRow 0 1],
            coverOne, []⟩, 0, 2⟩, .ofSent []) := rfl
  refine ⟨[(⟨.request helloSelf, .calm 0⟩, out),
    (⟨.request helloSelfReceipt, .calm 1⟩, .ofSent [])], _, rfl,
      reaches_faithful (.next (.next .start ?_ hstep) ?_ hclear)⟩
  · rintro fromId toId frameId -
    exact .inl rfl
  · intro fromId toId frameId h
    have hself : Label.Acknowledges ⟨.request helloSelfReceipt, .calm 1⟩ 1 1 3 :=
      ⟨_, rfl, rfl, rfl, rfl, rfl, rfl⟩
    obtain ⟨rfl, rfl, -⟩ := h.eq hself
    exact .inr rfl

/-- The archived row of user 1's message to user 2 says that user 2 sent it. -/
theorem hello_not_faithful : ¬ ∀ cfg sateCover userInfo h s,
    Run.Reaches (step cfg) (fun _ l => l.world.Succeeds) (Server.start sateCover userInfo) h s →
      Faithful h s.db := by
  intro hall
  obtain ⟨sent, hstep, hack⟩ := hello_acks
  obtain ⟨e, m, he, htakes, -, hrecords⟩ := hall _ _ _ _ _
    (.next (.next .start (fun _ => rfl) hstep) (fun _ => rfl) hello_cleared) _
      List.mem_cons_self 0 rfl
  cases he
  have hm : m = helloHead := htakes.eq hack.takes
  have hfrom := hrecords.fromUser
  rw [hm] at hfrom
  revert hfrom
  decide

end ShortMessage
