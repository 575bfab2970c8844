import ShortMessage.Proofs.Location

/-!
# Whom a login is about

The statements of a login name its user by two keys, which are one for ids below `2 ^ 31` only
(`sameUser_iff`). The answer is positive as soon as no statement throws, and an `UPDATE` that finds
no row throws nothing (`processLogin_truthful_iff`).
-/

namespace ShortMessage

open CMemory LastWrite

/-! ## Keys -/

section Keys

variable {pf : Platform} {userId : BitVec 32} {key : ℤ}

theorem LooksUpKey.eq (h : LooksUpKey userId key) : key = userId.toInt := by
  have := h ⟨[], [], [], [userId.toInt]⟩
  simpa [isExistUser] using this

theorem UpdatesKey.eq (h : UpdatesKey pf userId key) : key = (userId.toNat : ℤ) := by
  obtain ⟨snr, hsnr⟩ := h ⟨[], [], [⟨userId.toNat, fun _ => pf.column (-1) + 1⟩], []⟩
    ⟨0, 0, []⟩ _ ((updateSateCover_eq_ok rfl).2 ⟨by simp, rfl⟩)
  by_contra hne
  simp only [setCover, List.map_cons, List.map_nil, if_true, if_neg (Ne.symm hne), List.cons.injEq,
    SateRow.mk.injEq, true_and, and_true] at hsnr
  have h0 : pf.column (-1) = pf.column (-1) + 1 := congrFun hsnr 0
  simp at h0

theorem toInt_eq_toNat_iff : userId.toInt = userId.toNat ↔ userId.toNat < 2 ^ 31 := by
  refine ⟨fun h => ?_, toInt_of_small⟩
  rw [BitVec.toInt_eq_toNat_cond] at h
  split_ifs at h <;> omega

/-- The statements for a user agree on one key exactly when its id is below `2 ^ 31`. -/
theorem sameUser_iff : SameUser pf userId ↔ userId.toNat < 2 ^ 31 := by
  constructor
  · rintro ⟨key, hupdate, -, hlook⟩
    exact toInt_eq_toNat_iff.1 (hlook.eq.symm.trans hupdate.eq)
  · intro hu
    refine ⟨userId.toNat, fun db sate db' h => ?_, fun db => ?_, fun db => ?_⟩
    · obtain ⟨snr, -, h⟩ := bind_eq_ok.1 h
      cases h
      exact ⟨_, rfl⟩
    · rw [← toInt_of_small hu]
      unfold getSateCover
      rw [if_neg Bool.false_ne_true]
      split
      · next r hr => rw [hr, Option.map_some, Option.getD_some]
      · next hr => rw [hr, Option.map_none, Option.getD_none]
    · rw [← toInt_of_small hu]
      simp only [isExistUser, Bool.false_eq_true, ↓reduceIte]
      rw [Bool.eq_iff_iff]
      simp

/-- The first id of the other half is updated as `2 ^ 31` and looked up as `-2 ^ 31`. -/
theorem userHalf_not_sameUser : ¬ ∀ pf userId, SameUser pf userId := by
  intro hall
  obtain ⟨key, hupdate, -, hlook⟩ := hall floatConfig.platform 0x80000000
  have := hlook.eq.symm.trans hupdate.eq
  revert this
  decide

end Keys

/-! ## The answer to a login -/

section Answer

variable {cfg : Config} {w : World} {s s' : Server} {head : Ptr} {sent : List Sent}
  {userId : BitVec 32}

/-- A positive answer means that the user exists and is covered by the beams of the report. -/
def Truthful (cfg : Config) (s' : Server) (head : Ptr) (userId : BitVec 32) (sent : List Sent) :
    Prop :=
  ∀ m ∈ sent, m.buf[12]? = some 0x00 → userId.toInt ∈ s'.db.userInfo ∧
    ∃ sate, readSatellite cfg.platform head = .ok (some sate) ∧
      (getSateCover cfg.platform false s'.db userId).map (·.beamId) = coveredBeams sate.satesParam

/-- The login is acknowledged: the user exists and neither of the first two statements throws. -/
def Acknowledged (w : World) (s : Server) (userId : BitVec 32) : Prop :=
  isExistUser (w.fails 0) s.db userId = true ∧ w.fails 1 = false

/-- The user has a row, or there is nothing to store in it. -/
def Storable (cfg : Config) (s : Server) (head : Ptr) (userId : BitVec 32) : Prop :=
  (∃ r ∈ s.db.sateCover, r.userId = userId.toNat) ∨
    ∀ sate, readSatellite cfg.platform head = .ok (some sate) → coveredBeams sate.satesParam = []

theorem responseEncode_receiptType {response : Response} {buf : List Byte}
    (h : responseEncode response = .ok buf) : buf[12]? = some response.receiptType := by
  cases h
  rfl

theorem coveredPairs_beams (entries : List SateParam) :
    (coveredPairs entries).map (·.2) = coveredBeams entries := by
  simp [coveredPairs, Function.comp_def]

/-- What is read back after a report was stored. -/
theorem getSateCover_setCover {db : Db} (hpf : cfg.platform.KeepsSign) (hu : userId.toNat < 2 ^ 31)
    (entries : List SateParam) :
    (getSateCover cfg.platform false
      { db with sateCover := setCover cfg.platform userId entries db.sateCover } userId).map
        (·.beamId) =
      if ∃ r ∈ db.sateCover, r.userId = userId.toNat then coveredBeams entries else [] := by
  have hfind := find?_setCover cfg.platform userId entries db.sateCover userId.toInt
  rw [toInt_of_small hu] at hfind
  split_ifs with hrow
  · obtain ⟨r, hr⟩ : ∃ r, db.sateCover.find? (·.userId = (userId.toNat : ℤ)) = some r := by
      rw [← Option.isSome_iff_exists, List.find?_isSome]
      simpa using hrow
    rw [hr, Option.map_some, if_pos rfl, ← toInt_of_small hu] at hfind
    rw [getSateCover_eq hfind, ← coveredPairs_beams, ← coverOf_storedSnr hpf, List.map_map]
    rfl
  · have hnone : db.sateCover.find? (·.userId = (userId.toNat : ℤ)) = none := by
      rw [List.find?_eq_none]
      intro r hr hid
      exact hrow ⟨r, hr, by simpa using hid⟩
    rw [hnone, Option.map_none, ← toInt_of_small hu] at hfind
    simp only [getSateCover, Bool.false_eq_true, ↓reduceIte, hfind, List.map_nil]

/-- A login is answered truthfully exactly when it is not acknowledged or can be stored. -/
theorem processLogin_truthful_iff (hpf : cfg.platform.KeepsSign) (hu : userId.toNat < 2 ^ 31)
    (hfrom : ControlHead.fromId head = .ok (htonl userId))
    (h : processLogin cfg w s head = .ok (s', sent)) :
    Truthful cfg s' head userId sent ↔
      (Acknowledged w s userId → Storable cfg s head userId) := by
  obtain ⟨fromId, hf, ⟨hnone, heq⟩ | ⟨sate, response, db, response', str, hsate, -, hlogin, hstr,
    heq⟩⟩ := processLogin_returns h
  · cases heq
    refine iff_of_true (by simp [Truthful]) fun _ => .inr fun sate hsate => ?_
    rw [hnone] at hsate
    cases hsate
  · cases heq
    have hid : ntohl fromId = userId := by
      rw [hf, Except.ok.injEq] at hfrom
      rw [hfrom, ntohl_htonl]
    rw [hid] at hlogin ⊢
    have hbuf := responseEncode_receiptType hstr
    simp only [Truthful, List.mem_singleton, forall_eq, hbuf, Option.some.injEq, hsate,
      Except.ok.injEq, exists_eq_left']
    rcases login_returns hlogin with ⟨hexists, hfail, hupdate, _, rfl⟩ | ⟨hno, rfl, rfl⟩
    · -- acknowledged: the report is read back when there is a row for it
      obtain rfl := updateSateCover_took (readSatellite_beams hsate).1 hupdate
      have hmem : userId.toInt ∈ s.db.userInfo := by
        unfold isExistUser at hexists
        split_ifs at hexists
        simpa using hexists
      rw [getSateCover_setCover hpf hu, forall_prop_of_true rfl, and_iff_right hmem,
        forall_prop_of_true ⟨hexists, hfail⟩, Storable]
      simp only [hsate, Except.ok.injEq, Option.some.injEq, forall_eq']
      split_ifs with hrow
      · exact iff_of_true rfl (.inl hrow)
      · rw [or_iff_right hrow, eq_comm]
    · refine iff_of_true (fun h => by cases h) fun ⟨hexists, hfail⟩ => ?_
      rw [hno hexists] at hfail
      cases hfail

theorem processLogin_truthful_iff_loginOne : ∃ s' sent,
    processLogin floatConfig (.calm 0) userOneAway (headOf loginOne) = .ok (s', sent) ∧
      (Truthful floatConfig s' (headOf loginOne) 1 sent ↔
        (Acknowledged (.calm 0) userOneAway 1 →
          Storable floatConfig userOneAway (headOf loginOne) 1)) :=
  ⟨_, _, rfl, processLogin_truthful_iff floatConfig_keepsSign (by decide) rfl rfl⟩

/-- User 1 exists and has no row: the login is acknowledged and leaves the user uncovered. -/
theorem loginOne_not_truthful : ¬ ∀ cfg w s head userId s' sent, cfg.platform.KeepsSign →
    userId.toNat < 2 ^ 31 → ControlHead.fromId head = .ok (htonl userId) →
      processLogin cfg w s head = .ok (s', sent) → Truthful cfg s' head userId sent := by
  intro hall
  obtain ⟨s', sent, h⟩ : ∃ s' sent, processLogin floatConfig (.calm 0)
      ⟨⟨[], [], [], [1]⟩, 0, 0⟩ (headOf loginOne) = .ok (s', sent) := ⟨_, _, rfl⟩
  have := hall _ _ _ _ 1 _ _ floatConfig_keepsSign (by decide) rfl h
  cases h
  obtain ⟨-, sate, hsate, hbeams⟩ := this _ (List.mem_singleton.2 rfl) rfl
  rw [loginOne_report] at hsate
  cases hsate
  revert hbeams
  decide +kernel

end Answer

end ShortMessage
