import Mathlib.Algebra.Order.Ring.Rat
import ShortMessage.Lib.FirstMax
import ShortMessage.Proofs.Handlers

/-!
# Which beam carries a message

`SendMessage` scans the list for a first maximum (`choose_eq`). The list `GetSateCover` returns
keeps each beam's SNR as the `int32_t` it was passed as (`kept`), so the maximum is one of the kept
values: the beam chosen is a best stored one exactly when the stored order survives there
(`SurvivesAt`).
-/

namespace ShortMessage

open CMemory FirstMax

/-- The scan's running variables once they were set from an entry. -/
def Cur.ofBest : Option SateParam → Cur
  | none => .start
  | some sate => ⟨sate.snr, sate.sateId, sate.beamId⟩

def Configured (addresses : Addresses) (sate : SateParam) : Prop :=
  (addresses sate.beamId).isSome = true

instance (addresses : Addresses) : DecidablePred (Configured addresses) := fun _ =>
  inferInstanceAs (Decidable (_ = _))

theorem choose_eq (addresses : Addresses) (sates : List SateParam) :
    choose addresses sates =
      .ofBest ((candidates (Configured addresses) SateParam.snr (-1) sates).argmax
        SateParam.snr) := by
  rw [← foldl_scanStep, choose]
  have hstep : ∀ best (sate : SateParam), Cur.next addresses (.ofBest best) sate =
      .ofBest (scanStep (Configured addresses) SateParam.snr (-1) best sate) := by
    intro best sate
    have hsnr : (Cur.ofBest best).snr = best.elim (-1) SateParam.snr := by
      rcases best <;> rfl
    unfold Cur.next scanStep Configured
    rw [hsnr]
    by_cases h : best.elim (-1) SateParam.snr < sate.snr ∧ (addresses sate.beamId).isSome = true
    · rw [if_pos h, if_pos h, Cur.ofBest]
    · rw [if_neg h, if_neg h]
  change List.foldl (Cur.next addresses) (Cur.ofBest none) sates = _
  exact List.foldl_hom Cur.ofBest hstep

section Beams

variable (cfg : Config) (snr : Fin 10 → ℚ)

/-- Beam `i + 1` has an address and a positive stored SNR. -/
def Usable (i : Fin 10) : Prop :=
  (cfg.scheduleAddress (i + 1 : ℕ)).isSome = true ∧ 0 < snr i

instance : DecidablePred (Usable cfg snr) := fun _ => inferInstanceAs (Decidable (_ ∧ _))

/-- The SNR of a beam as its `SateParam` keeps it. -/
def kept (i : Fin 10) : ℚ := cfg.platform.toFloat (cfg.platform.toInt32 (snr i))

/-- Beam `i + 1` is usable, no usable beam has a greater stored SNR, and its kept SNR is above the
scan's floor and those of the usable beams before it, and no less than those of the usable beams
after it. -/
def SurvivesAt (i : Fin 10) : Prop :=
  Usable cfg snr i ∧ (∀ j, Usable cfg snr j → snr j ≤ snr i) ∧ -1 < kept cfg snr i ∧
    ∀ j, Usable cfg snr j →
      (j < i → kept cfg snr j < kept cfg snr i) ∧ (i < j → kept cfg snr j ≤ kept cfg snr i)

instance : DecidablePred (SurvivesAt cfg snr) := fun _ => inferInstanceAs (Decidable (_ ∧ _))

def entry (i : Fin 10) : SateParam :=
  .make cfg.platform ((i + 2 : ℕ) / 2 : ℕ) (i + 1 : ℕ) (snr i)

def scanned : List (Fin 10) :=
  (List.finRange 10).filter fun i => Usable cfg snr i ∧ -1 < kept cfg snr i

theorem coverOf_eq : coverOf cfg.platform snr =
    ((List.finRange 10).filter fun i => 0 < snr i).map (entry cfg snr) := by
  rw [coverOf, ← List.filterMap_eq_map, List.filterMap_filter]
  exact List.filterMap_congr fun i _ => by simp [entry]

theorem candidates_coverOf :
    candidates (Configured cfg.scheduleAddress) SateParam.snr (-1) (coverOf cfg.platform snr) =
      (scanned cfg snr).map (entry cfg snr) := by
  rw [coverOf_eq, candidates, List.filter_map, List.filter_filter, scanned]
  congr 1
  refine List.filter_congr fun i _ => ?_
  simp only [entry, SateParam.make, Configured, Usable, kept, Function.comp_apply]
  grind

theorem argmax_map {α γ β : Type*} [LinearOrder β] (e : α → γ) (f : γ → β) (l : List α) :
    (l.map e).argmax f = (l.argmax (f ∘ e)).map e := by
  induction l using List.reverseRecOn with
  | nil => rfl
  | append_singleton l a ih =>
    rw [List.map_append, List.map_cons, List.map_nil, List.argmax_concat, List.argmax_concat, ih]
    rcases l.argmax (f ∘ e) with _ | c
    · rfl
    · simp only [Option.map_some, Function.comp_apply]
      split_ifs <;> rfl

/-- The beam whose entry the scan of a row ends with. -/
def chosen : Option (Fin 10) := (scanned cfg snr).argmax (kept cfg snr)

theorem choose_coverOf :
    choose cfg.scheduleAddress (coverOf cfg.platform snr) =
      .ofBest ((chosen cfg snr).map (entry cfg snr)) := by
  rw [choose_eq, candidates_coverOf, argmax_map]
  rfl

theorem chosen_eq_some {i : Fin 10} : chosen cfg snr = some i ↔
    (Usable cfg snr i ∧ -1 < kept cfg snr i) ∧
      ∀ j, Usable cfg snr j → -1 < kept cfg snr j →
        (j < i → kept cfg snr j < kept cfg snr i) ∧ kept cfg snr j ≤ kept cfg snr i := by
  have hsort : (scanned cfg snr).Pairwise (· < ·) :=
    (List.pairwise_lt_finRange 10).filter _
  have hmem : ∀ j, j ∈ scanned cfg snr ↔ Usable cfg snr j ∧ -1 < kept cfg snr j := by
    intro j
    simp only [scanned, List.mem_filter, List.mem_finRange, true_and, decide_eq_true_eq]
  rw [chosen, argmax_eq_some_iff_of_sorted _ hsort, hmem]
  constructor
  · rintro ⟨hi, hlt, hle⟩
    exact ⟨hi, fun j hj hk => ⟨hlt j ((hmem j).2 ⟨hj, hk⟩), hle j ((hmem j).2 ⟨hj, hk⟩)⟩⟩
  · rintro ⟨hi, h⟩
    refine ⟨hi, fun j hj => ?_, fun j hj => ?_⟩
    · obtain ⟨hj, hk⟩ := (hmem j).1 hj
      exact (h j hj hk).1
    · obtain ⟨hj, hk⟩ := (hmem j).1 hj
      exact (h j hj hk).2

/-- Beam `i + 1` is usable, and its kept SNR is above the scan's floor and those of the usable beams
before it, and no less than those of the usable beams after it. -/
def BestKept (i : Fin 10) : Prop :=
  Usable cfg snr i ∧ -1 < kept cfg snr i ∧ ∀ j, Usable cfg snr j →
    (j < i → kept cfg snr j < kept cfg snr i) ∧ (i < j → kept cfg snr j ≤ kept cfg snr i)

instance : DecidablePred (BestKept cfg snr) := fun _ => inferInstanceAs (Decidable (_ ∧ _))

theorem chosen_iff_bestKept {i : Fin 10} : chosen cfg snr = some i ↔ BestKept cfg snr i := by
  rw [chosen_eq_some]
  constructor
  · rintro ⟨⟨hu, hk⟩, hrest⟩
    refine ⟨hu, hk, fun j hj => ?_⟩
    by_cases hkj : -1 < kept cfg snr j
    · exact ⟨(hrest j hj hkj).1, fun _ => (hrest j hj hkj).2⟩
    · have hlt : kept cfg snr j < kept cfg snr i := (not_lt.1 hkj).trans_lt hk
      exact ⟨fun _ => hlt, fun _ => hlt.le⟩
  · rintro ⟨hu, hk, hrest⟩
    refine ⟨⟨hu, hk⟩, fun j hj _ => ⟨(hrest j hj).1, ?_⟩⟩
    rcases lt_trichotomy j i with hji | rfl | hij
    · exact ((hrest j hj).1 hji).le
    · exact le_rfl
    · exact (hrest j hj).2 hij

theorem survivesAt_iff {i : Fin 10} : SurvivesAt cfg snr i ↔
    chosen cfg snr = some i ∧ ∀ j, Usable cfg snr j → snr j ≤ snr i := by
  rw [chosen_iff_bestKept, SurvivesAt, BestKept]
  tauto

/-- What the beam chosen for a message should be: one of the greatest stored SNR among the usable
beams, and some beam as soon as there is a usable one. -/
def BestBeam : Option ℤ → Prop
  | none => ∀ i, ¬ Usable cfg snr i
  | some beamId => ∃ i : Fin 10, beamId = (i.val + 1 : ℕ) ∧ Usable cfg snr i ∧
      ∀ j, Usable cfg snr j → snr j ≤ snr i

end Beams

theorem getSateCover_eq {pf : Platform} {db : Db} {userId : BitVec 32} {r : SateRow}
    (hr : db.sateCover.find? (·.userId = userId.toInt) = some r) :
    getSateCover pf false db userId = coverOf pf r.snr := by
  simp only [getSateCover, Bool.false_eq_true, ↓reduceIte, hr]

/-- The beam a message to a user goes over: the coverage is read, and `SendMessage` is called when
it is not empty. -/
def routedBeam (cfg : Config) (db : Db) (userId : BitVec 32) (buf : List Byte) (level : ℤ) :
    Option ℤ :=
  let sates := getSateCover cfg.platform false db userId
  if sates.isEmpty then none
  else (sendMessage cfg.scheduleAddress userId buf sates level).map (·.1.beamId)

/-- The calls of `SendMessage` of the message handlers and of the daemon are routed so. -/
theorem routedBeam_of_sendTo {cfg : Config} {db : Db} {userId : BitVec 32} {level : ℤ}
    {str : Except Fault (List Byte)} {sent : List Sent}
    (h : sendTo userId (getSateCover cfg.platform false db userId) level str = .ok sent) :
    ∀ m ∈ sent, (sendMessage cfg.scheduleAddress m.userId m.buf m.sates m.level).map (·.1.beamId) =
      routedBeam cfg db userId m.buf level := by
  intro m hm
  obtain ⟨hid, hsates, hlevel, hne, -⟩ := sendTo_returns h m hm
  simp only [routedBeam, hid, hsates, hlevel, List.isEmpty_eq_false_iff.2 hne, Bool.false_eq_true,
    ↓reduceIte]

theorem routedBeam_eq {cfg : Config} {db : Db} {userId : BitVec 32} {r : SateRow}
    (hr : db.sateCover.find? (·.userId = userId.toInt) = some r) (buf : List Byte) (level : ℤ) :
    routedBeam cfg db userId buf level =
      (chosen cfg r.snr).map fun i : Fin 10 => ((i.val + 1 : ℕ) : ℤ) := by
  have hcover : getSateCover cfg.platform false db userId = coverOf cfg.platform r.snr :=
    getSateCover_eq hr
  have hsend : (sendMessage cfg.scheduleAddress userId buf (coverOf cfg.platform r.snr) level).map
      (·.1.beamId) = (chosen cfg r.snr).map fun i : Fin 10 => ((i.val + 1 : ℕ) : ℤ) := by
    unfold sendMessage
    rw [choose_coverOf]
    rcases chosen cfg r.snr with _ | i
    · rfl
    · have hid : (Cur.ofBest ((some i).map (entry cfg r.snr))).sateId ≠ -1 := by
        change (((i.val + 2) / 2 : ℕ) : ℤ) ≠ -1
        omega
      simp only []
      rw [if_neg hid]
      rfl
  unfold routedBeam
  rw [hcover]
  simp only []
  split_ifs with he
  · rw [← hsend, List.isEmpty_iff.1 he]
    rfl
  · exact hsend

/-- User 7 is covered by beam 1 with SNR 4.1 and by beam 2 with SNR 4.9. -/
def closeBeams : SateRow :=
  ⟨7, fun i => if i.val = 0 then 41 / 10 else if i.val = 1 then 49 / 10 else -1⟩

end ShortMessage
