import ShortMessage.Proofs.Errands
import ShortMessage.Lib.Keyed

/-!
# Cached messages among the threads

In every interleaving, with any statement failing, a complete message whose handler has sent
anything is in `message_cache`, in a row of its own, until a receipt of its addressee for its frame
is carried out, and is not from then on (`reaches_kept`).
-/

namespace ShortMessage

open CMemory Interleaving

/-- Thread `t` has inserted the message at `head`. -/
def InsertedIn (h : ServerHistory) (t : ℕ) (head : Ptr) : Prop :=
  ∃ w, (.run t w, some ⟨.insertOfflineMessage t head, true⟩) ∈ h

/-- Once the message was inserted, a thread handling its addressee's receipt has deleted it. -/
def DeletedIn (h : ServerHistory) (t : ℕ) (head : Ptr) (m : Head) : Prop :=
  ∃ h₁ t' w h₂ bytes,
    h = h₁ ++ (.run t' w, some ⟨.deleteOfflineMessage m.fromId m.toId m.frameId, true⟩) :: h₂ ∧
      InsertedIn h₁ t head ∧ (jobs h₁)[t']? = some (.request bytes) ∧
        IsReceipt bytes m.fromId m.toId m.frameId

/-- The message is in a row of its own, or it was deleted and is in none. -/
def Kept (h : ServerHistory) (cache : List CacheRow) (t : ℕ) (head : Ptr) : Prop :=
  ∃ m, readHead head = .ok m ∧
    (¬ DeletedIn h t head m ∧ (∃ r ∈ cache, ∃ now, (m.cacheRow t now).SameMessage r) ∨
      DeletedIn h t head m ∧ ∀ r ∈ cache, r.origin ≠ t)

variable {cfg : Config} {maxSize : ℕ} {w : World} {s s' : Shared} {h : ServerHistory}
  {qs : List Errand} {t : ℕ} {q : Errand} {c : Operation} {b : c.Result} {head : Ptr} {m : Head}

section Longer

variable {cache cache' : List CacheRow} {e : ServerMove × Option (Event Operation Operation.Result)}

theorem InsertedIn.append (hi : InsertedIn h t head) (h₂ : ServerHistory) :
    InsertedIn (h ++ h₂) t head := by
  obtain ⟨w, hw⟩ := hi
  exact ⟨w, List.mem_append_left _ hw⟩

theorem insertedIn_concat : InsertedIn (h ++ [e]) t head ↔
    InsertedIn h t head ∨ ∃ w, e = (.run t w, some ⟨.insertOfflineMessage t head, true⟩) := by
  simp only [InsertedIn, List.mem_append, List.mem_singleton, exists_or]
  exact or_congr_right (exists_congr fun w => eq_comm)

theorem deletedIn_concat : DeletedIn (h ++ [e]) t head m ↔ DeletedIn h t head m ∨
    ∃ t' w bytes, e = (.run t' w, some ⟨.deleteOfflineMessage m.fromId m.toId m.frameId, true⟩) ∧
      InsertedIn h t head ∧ (jobs h)[t']? = some (.request bytes) ∧
        IsReceipt bytes m.fromId m.toId m.frameId := by
  constructor
  · rintro ⟨h₁, t', w, h₂, bytes, heq, hi, hjob, hreceipt⟩
    rcases List.eq_nil_or_concat h₂ with rfl | ⟨h₂, e', rfl⟩
    · obtain ⟨rfl, he⟩ := List.append_inj' heq rfl
      exact .inr ⟨t', w, bytes, List.singleton_inj.1 he, hi, hjob, hreceipt⟩
    · rw [List.concat_eq_append, ← List.cons_append, ← List.append_assoc] at heq
      obtain ⟨rfl, -⟩ := List.append_inj' heq rfl
      exact .inl ⟨h₁, t', w, h₂, bytes, rfl, hi, hjob, hreceipt⟩
  · rintro (⟨h₁, t', w, h₂, bytes, rfl, hrest⟩ | ⟨t', w, bytes, rfl, hrest⟩)
    · exact ⟨h₁, t', w, h₂ ++ [e], bytes, by simp, hrest⟩
    · exact ⟨h, t', w, [], bytes, rfl, hrest⟩

/-- A step that deletes nothing, and leaves each row in place but for its retry. -/
theorem Kept.concat (hk : Kept h cache t head)
    (he : ∀ m, DeletedIn (h ++ [e]) t head m ↔ DeletedIn h t head m)
    (hrows : ∀ r ∈ cache, ∃ r' ∈ cache', r.SameMessage r')
    (hold : ∀ r' ∈ cache', r'.origin = t → ∃ r ∈ cache, r.origin = t) :
    Kept (h ++ [e]) cache' t head := by
  obtain ⟨m, hm, ⟨hd, r, hr, now, hsame⟩ | ⟨hd, hnone⟩⟩ := hk
  · obtain ⟨r', hr', hsame'⟩ := hrows r hr
    exact ⟨m, hm, .inl ⟨mt (he m).1 hd, r', hr', now, hsame.trans hsame'⟩⟩
  · refine ⟨m, hm, .inr ⟨(he m).2 hd, fun r' hr' ho => ?_⟩⟩
    obtain ⟨r, hr, ho⟩ := hold r' hr' ho
    exact hnone r hr ho

end Longer

theorem bound_inj {fromId toId fromId' toId' : BitVec 32} {frameId frameId' : BitVec 16}
    (h : bound fromId toId frameId = bound fromId' toId' frameId') :
    fromId = fromId' ∧ toId = toId' ∧ frameId = frameId' := by
  simp only [bound, Prod.mk.injEq] at h
  exact ⟨BitVec.toInt_inj.1 h.1, BitVec.toInt_inj.1 h.2.1, BitVec.toNat_inj.1 (by omega)⟩

/-- Every message inserted is kept. -/
structure Keeps (h : ServerHistory) (qs : List Errand) (s : Shared) : Prop
    extends Cached h qs s where
  inserted : ∀ (t : ℕ) q, qs[t]? = some q → q.inserted = true →
    ∃ bytes, q.job = .request bytes ∧ InsertedIn h t (headOf bytes)
  kept : ∀ t head, InsertedIn h t head →
    HasInserted qs t ∧ Kept h s.db.messageCache t head

theorem Keeps.spawn (hk : Keeps h qs s) (job : Input) :
    Keeps (h ++ [(.spawn job, none)]) (qs ++ [.start qs.length job]) s := by
  refine ⟨hk.toCached.spawn job, fun t q hq hins => ?_, fun t head hi => ?_⟩
  · rcases Run.getElem?_concat.1 hq with hq | ⟨-, rfl⟩
    · obtain ⟨bytes, hbytes, hi⟩ := hk.inserted t q hq hins
      exact ⟨bytes, hbytes, hi.append _⟩
    · cases hins
  · rcases insertedIn_concat.1 hi with hi | ⟨_, he⟩
    · obtain ⟨hins, hkept⟩ := hk.kept t head hi
      refine ⟨hins.spawn _, hkept.concat (fun m => ?_)
        (fun r hr => ⟨r, hr, .refl r⟩) fun r hr ho => ⟨r, hr, ho⟩⟩
      rw [deletedIn_concat, or_iff_left]
      rintro ⟨_, _, _, he, -⟩
      cases he
    · cases he

theorem Keeps.inserted_run (hk : Keeps h qs s) (hq : qs[t]? = some q)
    (hpre : q.Permits cfg.platform c) {t' : ℕ} {q' : Errand}
    (hq' : (qs.set t (q.next c b))[t']? = some q') (hins : q'.inserted = true) :
    ∃ bytes, q'.job = .request bytes ∧
      InsertedIn (h ++ [(.run t w, some ⟨c, b⟩)]) t' (headOf bytes) := by
  rcases getElem?_set_cases hq hq' with ⟨rfl, rfl⟩ | ⟨-, hq'⟩
  · rw [(q.next_fixed c b).2.1]
    by_cases hold : q.inserted = true
    · obtain ⟨bytes, hbytes, hi⟩ := hk.inserted _ q hq hold
      exact ⟨bytes, hbytes, hi.append _⟩
    · obtain ⟨n, head, rfl, hb⟩ : ∃ n head, c = .insertOfflineMessage n head ∧ HEq b true := by
        cases c with
        | insertOfflineMessage n head =>
          cases b
          · exact absurd hins hold
          · exact ⟨n, head, rfl, .rfl⟩
        | sendMessage message => cases message <;> exact absurd hins hold
        | _ => exact absurd hins hold
      cases hb
      obtain ⟨-, rfl, -, bytes, hbytes, rfl⟩ := hpre
      rw [hk.number _ q hq]
      exact ⟨bytes, hbytes, insertedIn_concat.2 (.inr ⟨w, rfl⟩)⟩
  · obtain ⟨bytes, hbytes, hi⟩ := hk.inserted t' q' hq' hins
    exact ⟨bytes, hbytes, hi.append _⟩

/-- A deletion takes a message from the cache just when it is for the message's own frame. -/
theorem Kept.delete {cache : List CacheRow} {fromId toId : BitVec 32} {frameId : BitVec 16}
    {bytes : List Byte} {t' : ℕ} (hk : Kept h cache t head) (hi : InsertedIn h t head)
    (horigins : (cache.map (·.origin)).Nodup) (hjob : (jobs h)[t']? = some (.request bytes))
    (hreceipt : IsReceipt bytes fromId toId frameId) :
    Kept (h ++ [(.run t' w, some ⟨.deleteOfflineMessage fromId toId frameId, true⟩)])
      (cache.filter (·.key ≠ bound fromId toId frameId)) t head := by
  obtain ⟨m, hm, ⟨hd, r, hr, now, hsame⟩ | ⟨hd, hnone⟩⟩ := hk
  · have hkey : r.key = bound m.fromId m.toId m.frameId := by
      obtain ⟨_, _, rfl⟩ := hsame
      rfl
    have horigin : r.origin = t := by
      obtain ⟨_, _, rfl⟩ := hsame
      rfl
    refine ⟨m, hm, ?_⟩
    by_cases heq : r.key = bound fromId toId frameId
    · obtain ⟨rfl, rfl, rfl⟩ := bound_inj (hkey.symm.trans heq)
      refine .inr ⟨deletedIn_concat.2 (.inr ⟨t', w, bytes, rfl, hi, hjob, hreceipt⟩), ?_⟩
      rintro r' hr' ho
      obtain ⟨hr', hne⟩ := List.mem_filter.1 hr'
      rw [List.inj_on_of_nodup_map horigins hr' hr (ho.trans horigin.symm)] at hne
      exact of_decide_eq_true hne heq
    · refine .inl ⟨?_, r, List.mem_filter.2 ⟨hr, by simpa using heq⟩, now, hsame⟩
      rw [deletedIn_concat, not_or]
      refine ⟨hd, ?_⟩
      rintro ⟨_, _, _, he, -⟩
      cases he
      exact heq hkey
  · exact ⟨m, hm, .inr ⟨deletedIn_concat.2 (.inl hd), fun r hr => hnone r (List.mem_of_mem_filter hr)⟩⟩

theorem Keeps.run (hk : Keeps h qs s) (hq : qs[t]? = some q) (hpre : q.Permits cfg.platform c)
    (hc : handle cfg maxSize w s c = .ok (s', b)) :
    Keeps (h ++ [(.run t w, some ⟨c, b⟩)]) (qs.set t (q.next c b)) s' := by
  refine ⟨hk.toCached.run hq hpre hc, fun t' q' hq' hins => hk.inserted_run hq hpre hq' hins,
    fun t' head hins => ?_⟩
  have hstep := handle_cacheStep hc
  rcases insertedIn_concat.1 hins with hi | ⟨w', he⟩
  · obtain ⟨hq', hkept⟩ := hk.kept t' head hi
    refine ⟨HasInserted.set hq hq', ?_⟩
    by_cases hdel : ∃ fromId toId frameId,
        (⟨c, b⟩ : Event Operation Operation.Result) =
          ⟨.deleteOfflineMessage fromId toId frameId, true⟩
    · obtain ⟨fromId, toId, frameId, he⟩ := hdel
      cases he
      obtain ⟨bytes, hbytes, hreceipt⟩ := hpre
      generalize s'.db.messageCache = cache at hstep
      cases hstep with
      | deleted => exact hkept.delete hi hk.origins (hbytes ▸ hk.job hq) hreceipt
      | kept _ hne => exact absurd rfl (hne _ _ _)
    · have hsame : ∀ m, DeletedIn (h ++ [(.run t w, some ⟨c, b⟩)]) t' head m ↔
          DeletedIn h t' head m := by
        intro m
        rw [deletedIn_concat, or_iff_left]
        rintro ⟨_, _, _, he, -⟩
        cases he
        exact hdel ⟨_, _, _, rfl⟩
      generalize s'.db.messageCache = cache at hstep
      cases hstep with
      | @inserted n head' m hm =>
        refine hkept.concat hsame (fun r hr => ⟨r, List.mem_append_left _ hr, .refl r⟩) ?_
        intro r hr ho
        rcases List.mem_append.1 hr with hr | hr
        · exact ⟨r, hr, ho⟩
        · -- a thread that has inserted does not insert again
          rw [List.mem_singleton] at hr
          subst hr
          obtain ⟨hfresh, rfl, -⟩ := hpre
          obtain ⟨q', hq', hins⟩ := hq'
          rw [← ho, show (m.cacheRow q.number w.now).origin = t from hk.number t q hq, hq,
            Option.some.injEq] at hq'
          rw [hq', hins] at hfresh
          cases hfresh
      | deleted => exact absurd ⟨_, _, _, rfl⟩ hdel
      | retried =>
        refine hkept.concat hsame (fun r hr => ⟨_, List.mem_map_of_mem hr, r.retry_same _ _ _⟩) ?_
        rintro _ hr' ho
        obtain ⟨r, hr, rfl⟩ := List.mem_map.1 hr'
        exact ⟨r, hr, by rwa [CacheRow.origin_retry] at ho⟩
      | kept =>
        exact hkept.concat hsame (fun r hr => ⟨r, hr, .refl r⟩) fun r hr ho => ⟨r, hr, ho⟩
  · cases he
    refine ⟨⟨_, List.getElem?_set_self (List.getElem?_eq_some_iff.1 hq).1, rfl⟩, ?_⟩
    obtain ⟨hfresh, -⟩ := hpre
    generalize s'.db.messageCache = cache at hstep
    cases hstep with
    | @inserted _ _ m hm =>
      refine ⟨m, hm, .inl ⟨?_, _, List.mem_append_right _ (List.mem_singleton_self _), w.now,
        .refl _⟩⟩
      rw [deletedIn_concat, not_or]
      refine ⟨?_, fun ⟨_, _, _, he, _⟩ => by cases he⟩
      rintro ⟨h₁, _, _, _, _, rfl, hi, -⟩
      obtain ⟨⟨q', hq', hins⟩, -⟩ := hk.kept t head (hi.append _)
      rw [hq, Option.some.injEq] at hq'
      rw [hq', hins] at hfresh
      cases hfresh
    | kept hne => exact absurd rfl (hne _ _)

section Reached

variable {P : ServerThreads → ServerMove → Prop} {sateCover : List SateRow} {userInfo : List ℤ}
  {p : ServerThreads}

/-- What the threads are about after a run. -/
def errandsAfter (cfg : Config) (h : ServerHistory) : List Errand :=
  states (errands cfg.platform) Errand.start h

theorem reaches_keeps (hr : Run.Reaches (ServerThreads.step cfg maxSize) P
    (ServerThreads.start sateCover userInfo) h p) : Keeps h (errandsAfter cfg h) p.shared := by
  refine (reaches_obeyed (I := Keeps) (fun _ job => handling_errands job) ?_ ?_ ?_ hr).1
  · exact ⟨⟨rfl, nofun, nofun, List.nodup_nil, nofun⟩, nofun, nofun⟩
  · exact fun h qs p job hk _ _ _ => hk.spawn job
  · intro h qs p t w c s b q hk hq hpre _ hc
    exact hk.run hq hpre hc

/-- Every operation of a run was one that its thread's errand permitted. -/
theorem reaches_errand (hr : Run.Reaches (ServerThreads.step cfg maxSize) P
    (ServerThreads.start sateCover userInfo) h p) {h₁ h₂ : ServerHistory}
    (hh : h = h₁ ++ (.run t w, some ⟨c, b⟩) :: h₂) :
    ∃ q, (errandsAfter cfg h₁)[t]? = some q ∧ q.Permits cfg.platform c :=
  reaches_permitted (fun _ job => handling_errands job) hr hh

/-- Once its handler has sent the receipt or forwarded it, a complete message has one row, of its
own, until its addressee's receipt is carried out. -/
theorem reaches_kept (hr : Run.Reaches (ServerThreads.step cfg maxSize) P
    (ServerThreads.start sateCover userInfo) h p) {bytes : List Byte} {sent : Sent}
    (hsent : (.run t w, some ⟨.sendMessage none sent, ()⟩) ∈ h)
    (hjob : (jobs h)[t]? = some (.request bytes))
    (htype : ControlHead.type (headOf bytes) = .ok SignalType.completeMessage.code) :
    ∃ m, readHead (headOf bytes) = .ok m ∧
      (¬ DeletedIn h t (headOf bytes) m ∧
          (∃ r now, p.shared.db.messageCache.filter (·.origin = t) = [r] ∧
            (m.cacheRow t now).SameMessage r) ∨
        DeletedIn h t (headOf bytes) m ∧ p.shared.db.messageCache.filter (·.origin = t) = []) := by
  have hk := reaches_keeps hr
  obtain ⟨h₁, h₂, hh⟩ := List.append_of_mem hsent
  have hi : InsertedIn h t (headOf bytes) := by
    obtain ⟨q, hq, hpre⟩ := reaches_errand hr hh
    obtain ⟨p₁, hr₁, -⟩ := (hh ▸ hr).split
    have hk₁ := reaches_keeps hr₁
    have hqjob := jobs_getElem? (hk₁.job hq) ((.run t w, some ⟨.sendMessage none sent, ()⟩) :: h₂)
    rw [← hh, hjob, Option.some.injEq] at hqjob
    have hins : q.inserted = true := hpre.1 (hqjob ▸ isComplete_iff.2 htype)
    obtain ⟨_, hbytes, hi⟩ := hk₁.inserted t q hq hins
    rw [← hqjob] at hbytes
    cases hbytes
    rw [hh]
    exact hi.append _
  obtain ⟨-, m, hm, ⟨hd, r, hr, now, hsame⟩ | ⟨hd, hnone⟩⟩ := hk.kept t _ hi
  · have horigin : r.origin = t := by
      obtain ⟨_, _, rfl⟩ := hsame
      rfl
    refine ⟨m, hm, .inl ⟨hd, r, now, ?_, hsame⟩⟩
    have := Keyed.filter_eq_singleton hk.origins hr
    rwa [horigin] at this
  · exact ⟨m, hm, .inr ⟨hd, List.filter_eq_nil_iff.2 fun r hr => by simpa using hnone r hr⟩⟩

end Reached

/-- The thread that handles `hello` has sent user 1 the receipt. -/
theorem hello_sent : ∃ h p sent, Run.Reaches (ServerThreads.step exactConfig 1) (fun _ _ => True)
    (ServerThreads.start coverOne []) h p ∧ jobs h = [.request hello] ∧
      (.run 0 (.calm 0), some ⟨.sendMessage none sent, ()⟩) ∈ h :=
  ⟨_, _, _, .next (.next (.next (.next (.next (.next (.next .start
    trivial (step_spawn (Input.request hello)))
    trivial (step_run (t := 0) (i := .calm 0) (b := true) rfl rfl))
    trivial (step_run (t := 0) (i := .calm 0) (b := true) rfl rfl))
    trivial (step_run (t := 0) (i := .calm 0) (b := []) rfl rfl))
    trivial (step_run (t := 0) (i := .calm 0) (b := [.make exactConfig.platform 1 1 1]) rfl rfl))
    trivial (step_run (t := 0) (i := .calm 0) (c := .close) (b := ()) rfl rfl))
    trivial (step_run (t := 0) (i := .calm 0) (c := .sendMessage none _) (b := ()) rfl rfl), rfl,
    List.mem_append_right _ (List.mem_singleton_self _)⟩

theorem reaches_kept_hello : ∃ h m, readHead (headOf hello) = .ok m ∧
    (DeletedIn h 0 (headOf hello) m ∨ ∃ r now, (m.cacheRow 0 now).SameMessage r) := by
  obtain ⟨h, p, sent, hr, hjobs, hsent⟩ := hello_sent
  obtain ⟨m, hm, ⟨-, r, now, -, hsame⟩ | ⟨hd, -⟩⟩ :=
    reaches_kept hr hsent (by rw [hjobs]; rfl) rfl
  · exact ⟨h, m, hm, .inr ⟨r, now, hsame⟩⟩
  · exact ⟨h, m, hm, .inl hd⟩

end ShortMessage
