import ShortMessage.Proofs.Location

/-!
# The route of an answer and of what follows it

A login or a mobility request is answered over the entries of its report, what follows over the
entries read back. The report is scanned as it came, with its own satellite ids; the table has the
last entry for each beam, of which only the positive ones are read back, two beams to a satellite.
-/

namespace ShortMessage

open CMemory FirstMax

variable {cfg : Config} {db db' : Db} {head : Ptr} {userId : BitVec 32} {sate : Satellite}
  {r : SateRow} {m m' : Sent} {snr : Fin 10 → ℚ} {entries : List SateParam}

/-- The decision of `SendMessage`: not to send, or the satellite and the beam it sets. -/
def Sent.decision (addresses : Addresses) (m : Sent) : Option (ℤ × ℤ) :=
  (sendMessage addresses m.userId m.buf m.sates m.level).map fun p => (p.1.sateId, p.1.beamId)

theorem decision_eq {addresses : Addresses} (h : ∀ e ∈ m.sates, e.sateId ≠ -1) :
    m.decision addresses =
      ((candidates (Configured addresses) SateParam.snr (-1) m.sates).argmax SateParam.snr).map
        fun e => (e.sateId, e.beamId) := by
  unfold Sent.decision sendMessage
  rw [choose_eq]
  rcases hbest : (candidates (Configured addresses) SateParam.snr (-1) m.sates).argmax
    SateParam.snr with _ | e
  · rfl
  · have hmem : e ∈ m.sates := List.mem_of_mem_filter (List.argmax_mem hbest)
    simp only [Cur.ofBest, h e hmem, ↓reduceIte, Option.map_some]

/-- The satellites of a report have the ids of its bytes. -/
theorem readSates_sateId {pf : Platform} : ∀ (n : ℕ) (pos : Ptr) {sates : List SateParam},
    readSates pf n pos = .ok sates → ∀ e ∈ sates, 0 ≤ e.sateId
  | 0, _, sates, h => by
    cases h
    simp
  | n + 1, pos, sates, h => by
    simp only [readSates, bind_eq_ok] at h
    obtain ⟨sateId, -, beamId, -, snr, -, rest, hrest, h⟩ := h
    cases h
    rw [List.forall_mem_cons]
    exact ⟨Int.natCast_nonneg _, readSates_sateId n _ hrest⟩

theorem readSatellite_sateId {pf : Platform} (h : readSatellite pf head = .ok (some sate)) :
    ∀ e ∈ sate.satesParam, 0 ≤ e.sateId := by
  unfold readSatellite at h
  obtain ⟨_, -, h⟩ := bind_eq_ok.1 h
  obtain ⟨_, -, h⟩ := bind_eq_ok.1 h
  split_ifs at h
  · cases h
  · obtain ⟨sates, hsates, h⟩ := bind_eq_ok.1 h
    cases h
    exact readSates_sateId _ _ hsates

/-- The SNRs of the row read after an update, which is the row updated when the keys agree. -/
def rowAfter (pf : Platform) (userId : BitVec 32) (entries : List SateParam) (r : SateRow) :
    Fin 10 → ℚ :=
  if userId.toInt = userId.toNat then storedSnr pf entries else r.snr

theorem getSateCover_after {pf : Platform}
    (hrow : db.sateCover.find? (·.userId = userId.toInt) = some r)
    (hsate : readSatellite pf head = .ok (some sate))
    (hupdate : updateSateCover pf false db userId sate = .ok (db', true)) :
    getSateCover pf false db' userId = coverOf pf (rowAfter pf userId sate.satesParam r) := by
  obtain rfl := updateSateCover_took (readSatellite_beams hsate).1 hupdate
  have hfind := find?_setCover pf userId sate.satesParam db.sateCover userId.toInt
  rw [hrow, Option.map_some] at hfind
  rw [getSateCover_eq hfind, rowAfter]
  split_ifs <;> rfl

/-- Neither list has a satellite to send over; or the first best entry of the report names the
satellite its beam is taken to belong to, and its beam is the first best one as read back. -/
def SameRoute (cfg : Config) (snr : Fin 10 → ℚ) (entries : List SateParam) : Prop :=
  ((∀ e ∈ entries, Configured cfg.scheduleAddress e → e.snr ≤ -1) ∧
    ∀ i, Usable cfg snr i → kept cfg snr i ≤ -1) ∨
  ∃ e i, IsFirstMax (Configured cfg.scheduleAddress) SateParam.snr (-1) entries e ∧
    e.beamId = (i.val + 1 : ℕ) ∧ e.sateId = (e.beamId + 1) / 2 ∧ BestKept cfg snr i

theorem chosen_eq_none : chosen cfg snr = none ↔ ∀ i, Usable cfg snr i → kept cfg snr i ≤ -1 := by
  rw [chosen, List.argmax_eq_none, scanned, List.filter_eq_nil_iff]
  simp

/-- The decision over the entries read back from a row. -/
theorem decision_coverOf (hm : m.sates = coverOf cfg.platform snr) :
    m.decision cfg.scheduleAddress =
      (chosen cfg snr).map fun i => ((((i.val + 2) / 2 : ℕ) : ℤ), ((i.val + 1 : ℕ) : ℤ)) := by
  have hid : ∀ e ∈ m.sates, e.sateId ≠ -1 := by
    rw [hm, coverOf_eq, List.forall_mem_map]
    intro i _ hi
    have hnat : (((i.val + 2) / 2 : ℕ) : ℤ) = -1 := hi
    omega
  rw [decision_eq hid, hm, candidates_coverOf, argmax_map, Option.map_map]
  rfl

/-- The answer and what follows take the same route exactly when the report's best entry is on the
layout of the table and its beam is best there, or neither has a route. -/
theorem decision_eq_iff (hrow : db.sateCover.find? (·.userId = userId.toInt) = some r)
    (hsate : readSatellite cfg.platform head = .ok (some sate))
    (hupdate : updateSateCover cfg.platform false db userId sate = .ok (db', true))
    (hm : m.sates = sate.satesParam) (hm' : m'.sates = getSateCover cfg.platform false db' userId) :
    m.decision cfg.scheduleAddress = m'.decision cfg.scheduleAddress ↔
      SameRoute cfg (rowAfter cfg.platform userId sate.satesParam r) sate.satesParam := by
  have hid : ∀ e ∈ m.sates, e.sateId ≠ -1 := by
    rw [hm]
    intro e he hneg
    have := readSatellite_sateId hsate e he
    omega
  have hanswer : m.decision cfg.scheduleAddress = _ := decision_eq hid
  have hlater := decision_coverOf (hm'.trans (getSateCover_after hrow hsate hupdate))
  rw [hanswer, hlater, hm, SameRoute, ← argmax_candidates_eq_none_iff, ← chosen_eq_none]
  simp only [← argmax_candidates_eq_some_iff, ← chosen_iff_bestKept]
  rcases (candidates (Configured cfg.scheduleAddress) SateParam.snr (-1) sate.satesParam).argmax
    SateParam.snr with _ | e
  · rcases chosen cfg (rowAfter cfg.platform userId sate.satesParam r) with _ | i
    · simp
    · simp
  · rcases chosen cfg (rowAfter cfg.platform userId sate.satesParam r) with _ | i
    · simp
    · simp only [Option.map_some, Option.some.injEq, Prod.mk.injEq, reduceCtorEq, false_and,
        false_or]
      constructor
      · rintro ⟨hsate, hbeam⟩
        exact ⟨e, i, rfl, hbeam, by omega, rfl⟩
      · rintro ⟨_, _, rfl, hbeam, hlayout, rfl⟩
        exact ⟨by omega, hbeam⟩

theorem decision_eq_iff_loginOne : ∃ db',
    updateSateCover floatConfig.platform false userOneAway.db 1 ⟨0, 1, [⟨1, 1, 1⟩]⟩ =
        .ok (db', true) ∧
      ((Sent.mk 1 [] [⟨1, 1, 1⟩] 5).decision floatConfig.scheduleAddress =
          (Sent.mk 1 [] (getSateCover floatConfig.platform false db' 1) 5).decision
            floatConfig.scheduleAddress ↔
        SameRoute floatConfig (rowAfter floatConfig.platform 1 [⟨1, 1, 1⟩] ⟨1, fun _ => -1⟩)
          [⟨1, 1, 1⟩]) := by
  have hrow : userOneAway.db.sateCover.find? (·.userId = (1 : BitVec 32).toInt) =
      some ⟨1, fun _ => -1⟩ := rfl
  exact ⟨_, rfl, decision_eq_iff hrow loginOne_report rfl rfl rfl⟩

/-- User 1 logs in and reports satellite 6, beam 1 with SNR 1. -/
def loginSix : List Byte :=
  [0, 0, 0, 1, 0, 0, 0, 0, 0, 1, 0x00, 0] ++ List.replicate 17 0 ++ [0, 1] ++
    [6, 1, 0, 0, 0x80, 0x3f]

theorem loginSix_report : readSatellite floatConfig.platform (headOf loginSix) =
    .ok (some ⟨0, 1, [⟨6, 1, 1⟩]⟩) := by
  rw [← ieeeFloat_one]
  rfl

/-- The answer goes over satellite 6, what follows over satellite 1. -/
theorem loginSix_differs : ¬ ∀ (cfg : Config) (db db' : Db) (head : Ptr) (userId : BitVec 32)
    (sate : Satellite) (r : SateRow) (m m' : Sent),
    (∀ e ∈ sate.satesParam, 1 ≤ e.beamId ∧ e.beamId ≤ 10) →
      db.sateCover.find? (·.userId = userId.toInt) = some r →
      readSatellite cfg.platform head = .ok (some sate) →
      updateSateCover cfg.platform false db userId sate = .ok (db', true) →
      m.sates = sate.satesParam → m'.sates = getSateCover cfg.platform false db' userId →
      m.decision cfg.scheduleAddress = m'.decision cfg.scheduleAddress := by
  intro hall
  obtain ⟨db', hupdate⟩ : ∃ db', updateSateCover floatConfig.platform false userOneAway.db 1
      ⟨0, 1, [⟨6, 1, 1⟩]⟩ = .ok (db', true) := ⟨_, rfl⟩
  have := hall floatConfig userOneAway.db db' (headOf loginSix) 1 _ _
    ⟨1, [], [⟨6, 1, 1⟩], 5⟩ ⟨1, [], getSateCover floatConfig.platform false db' 1, 5⟩ (by simp)
    rfl loginSix_report hupdate rfl rfl
  have hanswer : (Sent.mk 1 [] [⟨6, 1, 1⟩] 5).decision floatConfig.scheduleAddress =
      some (6, 1) := by decide +kernel
  cases hupdate
  rw [hanswer] at this
  revert this
  decide +kernel

end ShortMessage
