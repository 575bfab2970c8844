import ShortMessage.Proofs.Effects

/-!
# What a receipt clears

All cached rows are of complete messages (`reaches_sound`), so a receipt that finds a row clears
all those it is about; no other step takes a row from the cache.
-/

namespace ShortMessage

open CMemory

variable {cfg : Config} {w : World} {s s' : Server} {l : Label} {out : Out} {db : Db}
  {fromId toId : BitVec 32} {frameId : BitVec 16}

theorem receipt_cache (hw : w.Succeeds) (hclean : ∀ r ∈ db.messageCache, r.Clean) :
    (receipt w db fromId toId frameId).messageCache =
      db.messageCache.filter (·.key ≠ bound fromId toId frameId) := by
  rcases found_cases w db fromId toId frameId with hnone | ⟨r, rows, ho, hperm⟩
  · obtain ⟨rows, heq, -⟩ := receipt_none (w := w) hnone
    rw [heq]
    exact (filter_of_cached_none hnone).symm
  · have hmem := (mem_cached.1 (hperm.subset List.mem_cons_self)).1
    rw [receipt_some (hw 0) ho (hclean r hmem).type]
    simp [hw 1]

theorem Effect.clearsExactly (he : Effect cfg s l s'.db out) (hw : l.world.Succeeds)
    (hclean : ∀ r ∈ s.db.messageCache, r.Clean) : ClearsExactly s l s' := by
  have hkept (added : List CacheRow) (h : s'.db.messageCache = s.db.messageCache ++ added) :
      ∃ f added, (∀ r, CacheRow.SameMessage r (f r)) ∧
        s'.db.messageCache = s.db.messageCache.map f ++ added :=
    ⟨id, added, .refl, by rw [h, List.map_id]⟩
  generalize hdb : s'.db = db at he hkept ⊢
  cases he with
  | quiet _ hsame _ hnot =>
    refine ⟨fun _ _ _ hack => absurd hack (hnot _ _ _), fun _ => hdb ▸ hkept [] ?_⟩
    rw [hsame.1, List.append_nil]
  | stored htakes htype =>
    refine ⟨fun _ _ _ hack => ?_, fun _ => hdb ▸ hkept [] (List.append_nil _).symm⟩
    rw [hack.type_eq htakes] at htype
    exact absurd htype (by decide)
  | cached htakes htype =>
    refine ⟨fun _ _ _ hack => ?_, fun _ => hdb ▸ hkept _ rfl⟩
    rw [hack.type_eq htakes] at htype
    exact absurd htype (by decide)
  | cleared hack =>
    refine ⟨fun _ _ _ hack' => ?_, fun hnot => absurd hack (hnot _ _ _)⟩
    obtain ⟨rfl, rfl, rfl⟩ := hack.eq hack'
    rw [hdb, receipt_cache hw hclean]
  | passed hl hget =>
    obtain ⟨f, hf, rfl⟩ := getAllOfflineMessage_cache hget
    refine ⟨?_, fun _ => ⟨f, [], hf, ?_⟩⟩
    · rintro _ _ _ ⟨bytes, hl', -⟩
      rw [hl] at hl'
      cases hl'
    · rw [hdb, List.append_nil]

/-- A receipt that is given a connection is served. -/
theorem step_acknowledges (hack : l.Acknowledges fromId toId frameId)
    (hconn : getConnection l.world = .ok true) : ∃ s' out, step cfg s l = .ok (s', out) := by
  obtain ⟨input, w⟩ := l
  obtain ⟨bytes, hl, hr⟩ := hack
  cases hl
  have hserved : ∃ s', processReceipt w s (headOf bytes) = .ok (s', []) := by
    unfold processReceipt
    simp only [hr.toId, hr.fromId, hr.receiptType, hr.frameId, ok_bind, ne_eq, not_true_eq_false,
      ↓reduceIte]
    exact ⟨_, connected_eq_ok.2 ⟨hconn, rfl⟩⟩
  obtain ⟨s', hs'⟩ := hserved
  have hlogic : accessToLogic cfg w s bytes = .ok (s', []) :=
    (accessToLogic_receipte hr.type).trans hs'
  refine ⟨{ s' with served := s.served + 1 }, .ofSent [], ?_⟩
  unfold step serve
  simp only [hlogic, ok_bind]
  rfl

/-- From any state of a run, a step whose statements succeed clears exactly what it acknowledges,
and a receipt that is given a connection is served. -/
theorem reaches_clearsExactly {P : Server → Label → Prop} {sateCover : List SateRow}
    {userInfo : List ℤ} {h : History}
    (hr : Run.Reaches (step cfg) P (Server.start sateCover userInfo) h s)
    (hw : l.world.Succeeds) :
    (∀ s' out, step cfg s l = .ok (s', out) → ClearsExactly s l s') ∧
      ∀ fromId toId frameId, l.Acknowledges fromId toId frameId →
        getConnection l.world = .ok true → ∃ s' out, step cfg s l = .ok (s', out) := by
  refine ⟨fun s' out hs => ?_, fun _ _ _ hack hconn => step_acknowledges hack hconn⟩
  exact (step_effect hs).2.clearsExactly hw (reaches_sound hr).clean

theorem reaches_clearsExactly_hello :
    (∀ s' out, step exactConfig helloCached ⟨.request helloReceipt, .calm 1⟩ = .ok (s', out) →
      ClearsExactly helloCached ⟨.request helloReceipt, .calm 1⟩ s') ∧
    ∀ fromId toId frameId,
      Label.Acknowledges ⟨.request helloReceipt, .calm 1⟩ fromId toId frameId →
        getConnection (.calm 1) = .ok true →
          ∃ s' out,
            step exactConfig helloCached ⟨.request helloReceipt, .calm 1⟩ = .ok (s', out) := by
  obtain ⟨sent, hstep, -⟩ := hello_acks
  have hr : Run.Reaches (step exactConfig) (fun _ l => l.world.Succeeds)
      (Server.start coverOne []) _ helloCached := .next .start (fun _ => rfl) hstep
  exact reaches_clearsExactly hr fun _ => rfl

end ShortMessage
