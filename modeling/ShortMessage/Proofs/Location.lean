import ShortMessage.Location
import ShortMessage.Proofs.Bounds
import ShortMessage.Proofs.Effects
import ShortMessage.Proofs.Routing

/-!
# The coverage stored

`UpdateSateCover` folds a report into the last entry for each beam (`tempSnr_eq_ok`), and
`GetSateCover` reads back the beams of positive SNR (`coverOf_storedSnr`). A step sets the rows of
the user it locates and no others (`step_located`), so in a run the rows are a register of the
last location event of each user.
-/

namespace ShortMessage

open CMemory LastWrite

variable {cfg : Config} {w : World} {s s' : Server} {l : Label} {out : Out} {db db' : Db}
  {head : Ptr} {userId : BitVec 32} {sate : Satellite} {entries : List SateParam}

/-! ## One report -/

theorem lastSnr_cons (p : SateParam) (ps : List SateParam) (b : ℤ) :
    lastSnr (p :: ps) b = (lastSnr ps b).or (if p.beamId = b then some p.snr else none) :=
  last_cons ..

theorem tempSnr_eq_ok : ∀ (ps : List SateParam) (snr snr' : Fin 10 → ℚ),
    tempSnr ps snr = .ok snr' ↔ (∀ p ∈ ps, 1 ≤ p.beamId ∧ p.beamId ≤ 10) ∧
      snr' = fun i : Fin 10 => (lastSnr ps (i.val + 1 : ℕ)).getD (snr i)
  | [], snr, snr' => by
    rw [tempSnr, Except.ok.injEq, eq_comm]
    simp [lastSnr]
  | p :: ps, snr, snr' => by
    rw [tempSnr, List.forall_mem_cons]
    split_ifs with h
    · rw [tempSnr_eq_ok ps, and_iff_right h]
      refine and_congr_right fun _ => Eq.congr_right (funext fun i => ?_)
      have hi : p.beamId = (i.val + 1 : ℕ) ↔ i = ⟨(p.beamId - 1).toNat, by omega⟩ := by
        simp only [Fin.ext_iff]
        omega
      rw [lastSnr_cons]
      rcases lastSnr ps (i.val + 1 : ℕ) with _ | v
      · rw [Option.none_or, Option.getD_none, Function.update_apply]
        by_cases hb : p.beamId = (i.val + 1 : ℕ)
        · rw [if_pos hb, if_pos (hi.1 hb), Option.getD_some]
        · rw [if_neg hb, if_neg (mt hi.2 hb), Option.getD_none]
      · rfl
    · simp [h]

/-- The rows of a user after an update. -/
def setCover (pf : Platform) (userId : BitVec 32) (entries : List SateParam)
    (rows : List SateRow) : List SateRow :=
  rows.map fun r =>
    if r.userId = (userId.toNat : ℤ) then { r with snr := storedSnr pf entries } else r

theorem updateSateCover_eq_ok {pf : Platform} {fail : Bool} {r : Db × Bool}
    (htake : sate.satesParam.take sate.satCoverNum.toNat = sate.satesParam) :
    updateSateCover pf fail db userId sate = .ok r ↔
      (∀ p ∈ sate.satesParam, 1 ≤ p.beamId ∧ p.beamId ≤ 10) ∧
        r = if fail then (db, false)
          else
            ({ db with sateCover := setCover pf userId sate.satesParam db.sateCover }, true) := by
  unfold updateSateCover
  rw [htake, bind_eq_ok]
  constructor
  · rintro ⟨snr, hsnr, h⟩
    obtain ⟨hbeams, rfl⟩ := (tempSnr_eq_ok _ _ _).1 hsnr
    refine ⟨hbeams, ?_⟩
    split_ifs at h ⊢
    · cases h
      rfl
    · cases h
      rfl
  · rintro ⟨hbeams, rfl⟩
    refine ⟨_, (tempSnr_eq_ok _ _ _).2 ⟨hbeams, rfl⟩, ?_⟩
    split_ifs <;> rfl

theorem updateSateCover_took {pf : Platform} {res : Bool}
    (htake : sate.satesParam.take sate.satCoverNum.toNat = sate.satesParam)
    (h : updateSateCover pf false db userId sate = .ok (db', res)) :
    db' = { db with sateCover := setCover pf userId sate.satesParam db.sateCover } := by
  obtain ⟨-, heq⟩ := (updateSateCover_eq_ok htake).1 h
  rw [if_neg Bool.false_ne_true, Prod.mk.injEq] at heq
  exact heq.1

/-- A row that is found is found again, with the SNRs of the report when it is the user's. -/
theorem find?_setCover (pf : Platform) (v : BitVec 32) (entries : List SateParam)
    (rows : List SateRow) (key : ℤ) :
    (setCover pf v entries rows).find? (·.userId = key) =
      (rows.find? (·.userId = key)).map fun r =>
        if key = (v.toNat : ℤ) then { r with snr := storedSnr pf entries } else r := by
  rw [setCover, List.find?_map]
  have hid : ((fun r : SateRow => decide (r.userId = key)) ∘ fun r =>
      if r.userId = (v.toNat : ℤ) then { r with snr := storedSnr pf entries } else r) =
        fun r => decide (r.userId = key) := by
    funext r
    rw [Function.comp_apply]
    split_ifs <;> rfl
  rw [hid]
  refine Option.map_congr fun r hr => ?_
  have := List.find?_some hr
  simp only [decide_eq_true_eq] at this
  rw [this]

/-! ## What is read back -/

theorem covers_iff (hpf : cfg.platform.KeepsSign) (entries : List SateParam) (i : Fin 10) :
    0 < storedSnr cfg.platform entries i ↔ Covers entries (i + 1 : ℕ) := by
  rw [storedSnr, hpf, Covers]
  rcases lastSnr entries (i + 1 : ℕ) with _ | v
  · simp
  · rfl

/-- The satellites of a stored report are the beams it covers, in ascending order. -/
theorem coverOf_storedSnr (hpf : cfg.platform.KeepsSign) (entries : List SateParam) :
    (coverOf cfg.platform (storedSnr cfg.platform entries)).map (fun p => (p.sateId, p.beamId)) =
      coveredPairs entries := by
  have hbeams : ((List.range' 1 10).map fun b : ℕ => (b : ℤ)) =
      (List.finRange 10).map fun i => ((i.val + 1 : ℕ) : ℤ) := by rfl
  rw [coverOf_eq, coveredPairs, coveredBeams, hbeams, List.filter_map, List.map_map, List.map_map]
  have hcovers : ((List.finRange 10).filter fun i => 0 < storedSnr cfg.platform entries i) =
      (List.finRange 10).filter ((fun b => decide (Covers entries b)) ∘
        fun i => ((i.val + 1 : ℕ) : ℤ)) := by
    refine List.filter_congr fun i _ => ?_
    simp only [Function.comp_apply, covers_iff hpf]
  rw [hcovers]
  refine List.map_congr_left fun i _ => ?_
  simp only [Function.comp_apply, entry, SateParam.make, Prod.mk.injEq, and_true]
  omega

/-! ## One step -/

def SamePlaces (db db' : Db) : Prop := db'.sateCover = db.sateCover ∧ db'.userInfo = db.userInfo

theorem processSimpleMessage_places {r : Server × List Sent}
    (h : processSimpleMessage cfg w s head = .ok r) : SamePlaces s.db r.1.db := by
  obtain ⟨m, -, ⟨-, rfl⟩ | ⟨-, _, -, rfl⟩⟩ := processSimpleMessage_returns h <;> exact ⟨rfl, rfl⟩

theorem processCompleteMessage_places {r : Server × List Sent}
    (h : processCompleteMessage cfg w s head = .ok r) : SamePlaces s.db r.1.db := by
  obtain ⟨m, -, ⟨-, rfl⟩ | ⟨-, _, _, -, -, rfl⟩⟩ := processCompleteMessage_returns h <;>
    exact ⟨rfl, rfl⟩

theorem receipt_places (fromId toId : BitVec 32) (frameId : BitVec 16) :
    SamePlaces db (receipt w db fromId toId frameId) := by
  unfold receipt
  rcases getOfflineMessage w (w.fails 0) db fromId toId frameId w.leftover w.leftoverTime with
    ⟨res, msg, recvTime⟩
  simp only [insertStoreMessageItem, deleteOfflineMessage]
  split_ifs <;> exact ⟨rfl, rfl⟩

/-- The rows after a location event. -/
def afterEvent (pf : Platform) (rows : List SateRow) :
    Option (BitVec 32 × List SateParam) → List SateRow
  | some (v, entries) => setCover pf v entries rows
  | none => rows

section Events

variable {r : Server × List Sent}

/-- The users stay, and the rows are those after the event. -/
def Locates (pf : Platform) (db db' : Db) (event : Option (BitVec 32 × List SateParam)) : Prop :=
  db'.userInfo = db.userInfo ∧ db'.sateCover = afterEvent pf db.sateCover event

theorem SamePlaces.locates {pf : Platform} {event : Option (BitVec 32 × List SateParam)}
    (h : SamePlaces db db') (hnone : event = none) : Locates pf db db' event := by
  subst hnone
  exact ⟨h.2, h.1⟩

theorem login_locates (hw : w.Succeeds)
    (hty : ControlHead.type head = .ok SignalType.login.code)
    (h : processLogin cfg w s head = .ok r) :
    Locates cfg.platform s.db r.1.db (located cfg.platform s.db.userInfo head) := by
  obtain ⟨fromId, hf,
    ⟨hnone, rfl⟩ | ⟨sate, response, db, response', _, hsate, -, hlogin, -, rfl⟩⟩ :=
    processLogin_returns h
  · refine SamePlaces.locates ⟨rfl, rfl⟩ ?_
    simp [located, hty, hf, hnone, SignalType.ofByte_code]
  · have hexists : isExistUser (w.fails 0) s.db (ntohl fromId) = true ↔
        (ntohl fromId).toInt ∈ s.db.userInfo := by
      simp [isExistUser, hw 0]
    have hevent : located cfg.platform s.db.userInfo head =
        if (ntohl fromId).toInt ∈ s.db.userInfo then some (ntohl fromId, sate.satesParam)
        else none := by
      simp only [located, hty, hf, hsate, SignalType.ofByte_code]
    rw [hevent]
    rcases login_returns hlogin with ⟨hex, -, hupdate, -⟩ | ⟨hno, rfl, -⟩
    · rw [if_pos (hexists.1 hex)]
      obtain rfl := updateSateCover_took (readSatellite_beams hsate).1 hupdate
      exact ⟨rfl, rfl⟩
    · have hex : ¬ (ntohl fromId).toInt ∈ s.db.userInfo := by
        intro hex
        have := hno (hexists.2 hex)
        rw [hw 1] at this
        cases this
      rw [if_neg hex]
      exact ⟨rfl, rfl⟩

theorem mobileRequest_locates (hw : w.Succeeds)
    (hty : ControlHead.type head = .ok SignalType.mobileManagerRequest.code)
    (h : processMobileRequest cfg w s head = .ok r) :
    Locates cfg.platform s.db r.1.db (located cfg.platform s.db.userInfo head) := by
  obtain ⟨fromId, hf, ⟨hnone, rfl⟩ | ⟨sate, _, db, _, _, hsate, -, hupdate, -, rfl⟩⟩ :=
    processMobileRequest_returns h
  · refine SamePlaces.locates ⟨rfl, rfl⟩ ?_
    simp [located, hty, hf, hnone, SignalType.ofByte_code]
  · rw [hw 0] at hupdate
    obtain rfl := updateSateCover_took (readSatellite_beams hsate).1 hupdate
    simp [located, hty, hf, hsate, SignalType.ofByte_code, Locates, afterEvent]

theorem logout_locates (hw : w.Succeeds)
    (hty : ControlHead.type head = .ok SignalType.logout.code)
    (h : processLogout cfg w s head = .ok r) :
    Locates cfg.platform s.db r.1.db (located cfg.platform s.db.userInfo head) := by
  obtain ⟨fromId, _, db, _, _, hf, -, hupdate, -, rfl⟩ := processLogout_returns h
  rw [hw 1] at hupdate
  obtain rfl := updateSateCover_took rfl hupdate
  simp [located, hty, hf, SignalType.ofByte_code, Locates, afterEvent]

/-- No other request is a location event. -/
theorem located_eq_none {pf : Platform} {userInfo : List ℤ} (h : ∀ t ∈ [SignalType.login,
    .logout, .mobileManagerRequest], ControlHead.type head ≠ .ok t.code) :
    located pf userInfo head = none := by
  unfold located
  split
  · next b fromId hty _ =>
    simp only []
    split
    · next hb => exact absurd ((type_eq_code_iff hty _).2 hb) (h .login (by decide))
    · next hb => exact absurd ((type_eq_code_iff hty _).2 hb) (h .mobileManagerRequest (by decide))
    · next hb => exact absurd ((type_eq_code_iff hty _).2 hb) (h .logout (by decide))
    · rfl
  · rfl

theorem accessToLogic_located {bytes : List Byte} (hw : w.Succeeds)
    (h : accessToLogic cfg w s bytes = .ok r) :
    Locates cfg.platform s.db r.1.db (located cfg.platform s.db.userInfo (headOf bytes)) := by
  have hnone {t : SignalType} (hty : ControlHead.type (headOf bytes) = .ok t.code)
      (ht : t ∉ [SignalType.login, .logout, .mobileManagerRequest]) :
      located cfg.platform s.db.userInfo (headOf bytes) = none := by
    refine located_eq_none fun t' ht' hty' => ht ?_
    rwa [type_code_inj hty hty']
  cases accessToLogic_dispatched h with
  | unhandled hty hr =>
    subst hr
    exact SamePlaces.locates ⟨rfl, rfl⟩ (located_eq_none fun t ht => hty t (by
      revert ht
      cases t <;> decide))
  | login hty h => exact login_locates hw hty h
  | logout hty h => exact logout_locates hw hty h
  | mobileRequest hty h => exact mobileRequest_locates hw hty h
  | simpleMessage hty h => exact (processSimpleMessage_places h).locates (hnone hty (by decide))
  | completeMessage hty h => exact (processCompleteMessage_places h).locates (hnone hty (by decide))
  | receipte hty h =>
    refine SamePlaces.locates ?_ (hnone hty (by decide))
    obtain ⟨_, _, _, -, -, -, ⟨-, rfl⟩ | ⟨-, frameId, -, -, rfl⟩⟩ := processReceipt_returns h
    · exact ⟨rfl, rfl⟩
    · exact receipt_places _ _ _

theorem step_located (hw : l.world.Succeeds) (h : step cfg s l = .ok (s', out)) :
    Locates cfg.platform s.db s'.db (l.located cfg.platform s.db.userInfo) := by
  unfold Label.located
  obtain ⟨s₁, rfl, ⟨bytes, sent, hl, hlogic, rfl⟩ | ⟨hl, hpass⟩⟩ := step_returns h
  · rw [hl]
    exact accessToLogic_located hw hlogic
  · rw [hl]
    obtain ⟨db, messages, resent, -, hget, -, hr⟩ := qosPass_returns hpass
    cases hr
    obtain ⟨f, -, rfl⟩ := getAllOfflineMessage_cache hget
    exact SamePlaces.locates ⟨rfl, rfl⟩ rfl

end Events

/-! ## Runs -/

def pairs (sates : List SateParam) : List (ℤ × ℤ) := sates.map fun p => (p.sateId, p.beamId)

theorem toInt_of_small (hu : userId.toNat < 2 ^ 31) : userId.toInt = userId.toNat :=
  BitVec.toInt_eq_toNat_of_lt (by omega)

/-- A user has a row. -/
def Placed (db : Db) (userId : BitVec 32) : Prop :=
  ∃ r, db.sateCover.find? (·.userId = userId.toInt) = some r

theorem Locates.getSateCover_other {pf : Platform} {event : Option (BitVec 32 × List SateParam)}
    (h : Locates pf db db' event) (hu : userId.toNat < 2 ^ 31)
    (hother : ∀ entries, event ≠ some (userId, entries)) :
    db'.sateCover.find? (·.userId = userId.toInt) =
      db.sateCover.find? (·.userId = userId.toInt) := by
  rw [h.2]
  rcases event with _ | ⟨v, entries⟩
  · rfl
  · have hne : userId.toInt ≠ (v.toNat : ℤ) := by
      rw [toInt_of_small hu]
      intro heq
      have : userId = v := BitVec.eq_of_toNat_eq (by omega)
      exact hother entries (by rw [this])
    rw [afterEvent, find?_setCover]
    simp only [if_neg hne, Option.map_id']

theorem Locates.read (hpf : cfg.platform.KeepsSign)
    {event : Option (BitVec 32 × List SateParam)} (h : Locates cfg.platform db db' event)
    (hu : userId.toNat < 2 ^ 31) (hp : Placed db userId) :
    Placed db' userId ∧ pairs (getSateCover cfg.platform false db' userId) =
      ((last event.toList userId).map coveredPairs).getD
        (pairs (getSateCover cfg.platform false db userId)) := by
  obtain ⟨r, hr⟩ := hp
  by_cases hmine : ∃ entries, event = some (userId, entries)
  · obtain ⟨entries, rfl⟩ := hmine
    have hr' : db'.sateCover.find? (·.userId = userId.toInt) =
        some { r with snr := storedSnr cfg.platform entries } := by
      rw [h.2, afterEvent, find?_setCover, hr, Option.map_some, if_pos (toInt_of_small hu)]
    refine ⟨⟨_, hr'⟩, ?_⟩
    rw [getSateCover_eq hr', Option.toList_some, last_singleton, if_pos rfl]
    exact coverOf_storedSnr hpf entries
  · have hother : ∀ entries, event ≠ some (userId, entries) := fun entries he =>
      hmine ⟨entries, he⟩
    have hr' := (h.getSateCover_other hu hother).trans hr
    refine ⟨⟨r, hr'⟩, ?_⟩
    rw [getSateCover_eq hr', getSateCover_eq hr, last_eq_none]
    · rfl
    · rintro ⟨v, entries⟩ hv rfl
      rw [Option.mem_toList] at hv
      exact hother entries hv

theorem coverOf_of_empty {snr : Fin 10 → ℚ} (h : ∀ i, ¬ 0 < snr i) :
    coverOf cfg.platform snr = [] := by
  rw [coverOf_eq, List.filter_eq_nil_iff.2 fun i _ => by simpa using h i, List.map_nil]

/-- In a run whose statements succeed a user's coverage is that of the user's latest location event,
and a step that locates another user leaves it alone. -/
theorem reaches_register {s₀ : Server} {h : History} {u : BitVec 32} {r : SateRow}
    (hpf : cfg.platform.KeepsSign) (hu : u.toNat < 2 ^ 31)
    (hrow : s₀.db.sateCover.find? (·.userId = u.toInt) = some r) (hempty : ∀ i, ¬ 0 < r.snr i)
    (hr : Run.Reaches (step cfg) (fun _ l => l.world.Succeeds) s₀ h s) :
    (getSateCover cfg.platform false s.db u).map (fun p => (p.sateId, p.beamId)) =
        coveredPairs (locationOf cfg.platform s₀.db.userInfo h u) ∧
      ∀ l s' out, l.world.Succeeds → step cfg s l = .ok (s', out) →
        (∀ entries, l.located cfg.platform s₀.db.userInfo ≠ some (u, entries)) →
          getSateCover cfg.platform false s'.db u = getSateCover cfg.platform false s.db u := by
  obtain ⟨⟨husers, -⟩, hread⟩ := reaches_read
    (I := fun s : Server => s.db.userInfo = s₀.db.userInfo ∧ Placed s.db u)
    (fun s => pairs (getSateCover cfg.platform false s.db u))
    (fun l => (l.located cfg.platform s₀.db.userInfo).toList) ⟨rfl, r, hrow⟩
    (fun s l s' o hI hw hs => by
      have hloc := step_located hw hs
      rw [hI.1] at hloc
      obtain ⟨hplaced, hread⟩ := hloc.read hpf hu hI.2
      exact ⟨⟨hloc.1.trans hI.1, hplaced⟩, hread⟩) hr
  refine ⟨hread.trans ?_, fun l s' out hw hs hother => ?_⟩
  · rw [getSateCover_eq hrow, coverOf_of_empty hempty]
    exact Option.getD_map coveredPairs [] _
  · have hloc := step_located hw hs
    rw [husers] at hloc
    unfold getSateCover
    rw [hloc.getSateCover_other hu hother]

theorem floatConfig_keepsSign : floatConfig.platform.KeepsSign := fun _ => Iff.rfl

/-- User 1 has a row without coverage. -/
def userOneAway : Server := ⟨⟨[], [], [⟨1, fun _ => -1⟩], [1]⟩, 0, 0⟩

theorem loginOne_located : located floatConfig.platform [1] (headOf loginOne) =
    some (1, [⟨1, 1, 1⟩]) := by
  have hty : ControlHead.type (headOf loginOne) = .ok SignalType.login.code := rfl
  have hf : ControlHead.fromId (headOf loginOne) = .ok (htonl 1) := rfl
  simp [located, hty, hf, loginOne_report, SignalType.ofByte_code]

theorem reaches_register_loginOne : ∃ s,
    (getSateCover floatConfig.platform false s.db 1).map (fun p => (p.sateId, p.beamId)) =
        coveredPairs [⟨1, 1, 1⟩] ∧
      ∀ l s' out, l.world.Succeeds → step floatConfig s l = .ok (s', out) →
        (∀ entries, l.located floatConfig.platform [1] ≠ some (1, entries)) →
          getSateCover floatConfig.platform false s'.db 1 =
            getSateCover floatConfig.platform false s.db 1 := by
  obtain ⟨s, out, hs⟩ : ∃ s out, step floatConfig userOneAway
      ⟨.request loginOne, .calm 0⟩ = .ok (s, out) := ⟨_, _, rfl⟩
  have hr : Run.Reaches (step floatConfig) (fun _ l => l.world.Succeeds) userOneAway
      [(⟨.request loginOne, .calm 0⟩, out)] s := .next .start (fun _ => rfl) hs
  have hlocation : locationOf floatConfig.platform [1] [(⟨.request loginOne, .calm 0⟩, out)] 1 =
      [⟨1, 1, 1⟩] := by
    simp [locationOf, Label.located, loginOne_located, last_singleton]
  have hrow : userOneAway.db.sateCover.find? (·.userId = (1 : BitVec 32).toInt) =
      some ⟨1, fun _ => -1⟩ := rfl
  have hempty : ∀ i : Fin 10, ¬ (0 : ℚ) < -1 := fun _ => neg_one_lt_zero.not_gt
  have := reaches_register floatConfig_keepsSign (by decide) hrow hempty hr
  rw [show userOneAway.db.userInfo = [1] from rfl, hlocation] at this
  exact ⟨s, this⟩

end ShortMessage
