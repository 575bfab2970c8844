import ShortMessage.Delivery
import ShortMessage.Lib.LastWrite

/-!
# Where a user is

What the rows of `sate_cover` stand for: a user's coverage is what the last location event of that
user reported. A login or a mobility request sets it to the entries of its report, of which the last
one for a beam counts, and a logout to none.
-/

namespace ShortMessage

open CMemory LastWrite

/-! ## Reports -/

/-- The SNR the last entry for beam `b` gives. -/
def lastSnr (entries : List SateParam) (b : ℤ) : Option ℚ :=
  last (entries.map fun p => (p.beamId, p.snr)) b

/-- The last entry for beam `b` has a positive SNR. -/
def Covers (entries : List SateParam) (b : ℤ) : Prop := 0 < (lastSnr entries b).getD 0

instance (entries : List SateParam) : DecidablePred (Covers entries) := fun _ =>
  inferInstanceAs (Decidable (_ < _))

def coveredBeams (entries : List SateParam) : List ℤ :=
  ((List.range' 1 10).map fun b : ℕ => (b : ℤ)).filter (Covers entries)

/-- The covered beams, each behind the satellite it is taken to belong to. -/
def coveredPairs (entries : List SateParam) : List (ℤ × ℤ) :=
  (coveredBeams entries).map fun b => ((b + 1) / 2, b)

/-- A beam's column after an `UPDATE`: `-1` is written for a beam without an entry. -/
def storedSnr (pf : Platform) (entries : List SateParam) (i : Fin 10) : ℚ :=
  pf.column ((lastSnr entries (i + 1 : ℕ)).getD (-1))

/-- A column keeps whether the number written to it is positive. -/
def Platform.KeepsSign (pf : Platform) : Prop := ∀ x, 0 < pf.column x ↔ 0 < x

/-! ## Events -/

/-- The location event a request is, given the users there are: the user, and the entries reported.
A report with a count of zero is none, and neither is the login of a user that does not exist. -/
def located (pf : Platform) (userInfo : List ℤ) (head : Ptr) :
    Option (BitVec 32 × List SateParam) :=
  match ControlHead.type head, ControlHead.fromId head with
  | .ok type, .ok fromId =>
    let userId := ntohl fromId
    let reported := match readSatellite pf head with
      | .ok (some sate) => some (userId, sate.satesParam)
      | _ => none
    match SignalType.ofByte type with
    | some .login => if userId.toInt ∈ userInfo then reported else none
    | some .mobileManagerRequest => reported
    | some .logout => some (userId, [])
    | _ => none
  | _, _ => none

/-- The location event of a step. -/
def Label.located (pf : Platform) (userInfo : List ℤ) (l : Label) :
    Option (BitVec 32 × List SateParam) :=
  match l.input with
  | .request bytes => ShortMessage.located pf userInfo (headOf bytes)
  | .pass => none

/-- The entries of the latest location event of a user, none when there was no event. -/
def locationOf (pf : Platform) (userInfo : List ℤ) (h : History) (userId : BitVec 32) :
    List SateParam :=
  (last (h.flatMap fun e => (e.1.located pf userInfo).toList) userId).getD []

/-! ## Keys -/

/-- The statement of `UpdateSateCover` for a user updates the rows with this key. -/
def UpdatesKey (pf : Platform) (userId : BitVec 32) (key : ℤ) : Prop :=
  ∀ db sate db', updateSateCover pf false db userId sate = .ok (db', true) →
    ∃ snr, db'.sateCover = db.sateCover.map fun r =>
      if r.userId = key then { r with snr := snr } else r

/-- The statement of `GetSateCover` for a user reads the first row with this key. -/
def ReadsKey (pf : Platform) (userId : BitVec 32) (key : ℤ) : Prop :=
  ∀ db, getSateCover pf false db userId =
    ((db.sateCover.find? (·.userId = key)).map fun r => coverOf pf r.snr).getD []

/-- The statement of `IsExistUser` for a user looks for this key. -/
def LooksUpKey (userId : BitVec 32) (key : ℤ) : Prop :=
  ∀ db, isExistUser false db userId = decide (key ∈ db.userInfo)

/-- All statements for a user address the same one, whatever the tables hold. -/
def SameUser (pf : Platform) (userId : BitVec 32) : Prop :=
  ∃ key, UpdatesKey pf userId key ∧ ReadsKey pf userId key ∧ LooksUpKey userId key

/-! ## A decoded report -/

/-- The number four bytes denote as an IEEE 754 `float`, infinities and NaNs aside. -/
def ieeeFloat (x : BitVec 32) : ℚ :=
  let e := (x.extractLsb' 23 8).toNat
  let m : ℚ := (x.extractLsb' 0 23).toNat
  let v := if e = 0 then m / 2 ^ 149 else (2 ^ 23 + m) * 2 ^ e / 2 ^ 150
  if x.msb then -v else v

/-- Reports are decoded, and all numbers kept exactly. -/
def floatConfig : Config :=
  { exactConfig with platform := { exactConfig.platform with float := ieeeFloat } }

/-- User 1 logs in and reports satellite 1, beam 1 with SNR 1. -/
def loginOne : List Byte :=
  [0, 0, 0, 1, 0, 0, 0, 0, 0, 1, 0x00, 0] ++ List.replicate 17 0 ++ [0, 1] ++
    [1, 1, 0, 0, 0x80, 0x3f]

theorem ieeeFloat_one : ieeeFloat 0x3F800000 = 1 := by decide +kernel

theorem loginOne_report : readSatellite floatConfig.platform (headOf loginOne) =
    .ok (some ⟨0, 1, [⟨1, 1, 1⟩]⟩) := by
  rw [← ieeeFloat_one]
  rfl

end ShortMessage
