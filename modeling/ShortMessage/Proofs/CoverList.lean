import ShortMessage.Proofs.Handlers

/-!
# The cover list of a mobile request

Both handlers read the list from the same place, behind the head and the fixed fields, by the same
loop: six bytes an entry, as many entries as the count says. What lies behind the list is not read.
-/

namespace ShortMessage

open CMemory

/-- An entry as it is sent: the bytes of the satellite and the beam, and the four of the SNR. -/
structure CoverEntry where
  sateId : Byte
  beamId : Byte
  snr : BitVec 32

namespace CoverEntry

def bytes (e : CoverEntry) : List Byte := [e.sateId, e.beamId] ++ le32 e.snr

def sateParam (pf : Platform) (e : CoverEntry) : SateParam :=
  ⟨e.sateId.toNat, e.beamId.toNat, pf.float e.snr⟩

end CoverEntry

/-- A mobile request with its cover list, and what follows it. -/
def coverRequest (head fields : List Byte) (grandCover : Byte) (entries : List CoverEntry)
    (trailing : List Byte) : List Byte :=
  head ++ (fields ++ (grandCover :: .ofNat 8 entries.length ::
    (entries.flatMap CoverEntry.bytes ++ trailing)))

variable {head fields trailing : List Byte} {grandCover : Byte}
  {entries : List CoverEntry}

/-- The pointer moves from entry to entry. -/
theorem readSates_entries (pf : Platform) (entries : List CoverEntry) (trailing : List Byte) :
    readSates pf entries.length (entries.flatMap CoverEntry.bytes ++ trailing) =
      .ok (entries.map (CoverEntry.sateParam pf)) := by
  induction entries with
  | nil => rfl
  | cons e entries ih =>
    have hpos : (e :: entries).flatMap CoverEntry.bytes ++ trailing =
        [e.sateId, e.beamId] ++ (le32 e.snr ++ (entries.flatMap CoverEntry.bytes ++ trailing)) := by
      simp [CoverEntry.bytes]
    rw [hpos]
    have hsate : read8 ([e.sateId, e.beamId] ++
        (le32 e.snr ++ (entries.flatMap CoverEntry.bytes ++ trailing))) 0 = .ok e.sateId := rfl
    have hbeam : read8 ([e.sateId, e.beamId] ++
        (le32 e.snr ++ (entries.flatMap CoverEntry.bytes ++ trailing))) 1 = .ok e.beamId := rfl
    have hsnr := read32_at [e.sateId, e.beamId] (entries.flatMap CoverEntry.bytes ++ trailing) e.snr
    have hdrop : ([e.sateId, e.beamId] ++
        (le32 e.snr ++ (entries.flatMap CoverEntry.bytes ++ trailing))).drop 6 =
          entries.flatMap CoverEntry.bytes ++ trailing := rfl
    rw [List.length_cons, readSates, hsate, ok_bind, hbeam, ok_bind]
    simp only [List.length_cons, List.length_nil, Nat.zero_add] at hsnr
    rw [hsnr, ok_bind, hdrop, ih]
    rfl

theorem readSatellite_coverRequest (pf : Platform) (hhead : head.length = 12)
    (hfields : fields.length = 17) (hne : entries ≠ []) (hlen : entries.length ≤ 255) :
    readSatellite pf (coverRequest head fields grandCover entries trailing) =
      .ok (some ⟨grandCover, .ofNat 8 entries.length, entries.map (CoverEntry.sateParam pf)⟩) := by
  have hpos : MobileRequest.content (ControlHead.content
      (coverRequest head fields grandCover entries trailing)) =
        grandCover :: .ofNat 8 entries.length ::
          (entries.flatMap CoverEntry.bytes ++ trailing) := by
    rw [coverRequest, ControlHead.content, MobileRequest.content, List.drop_left' hhead,
      List.drop_left' hfields]
  have hnat : (BitVec.ofNat 8 entries.length).toNat = entries.length := by
    rw [BitVec.toNat_ofNat, Nat.mod_eq_of_lt (by omega)]
  have hcount : BitVec.ofNat 8 entries.length ≠ 0 := by
    intro h0
    rw [h0] at hnat
    exact hne (List.length_eq_zero_iff.1 hnat.symm)
  unfold readSatellite
  simp only [hpos]
  rw [read8_ok (by simp), ok_bind, read8_ok (by simp), ok_bind]
  simp only [List.getElem_cons_succ, List.getElem_cons_zero, List.drop_succ_cons, List.drop_zero]
  rw [if_neg hcount, hnat, readSates_entries]
  rfl

/-! ## The handlers -/

theorem fromId_coverRequest (hhead : head.length = 12) :
    ControlHead.fromId (coverRequest head fields grandCover entries trailing) =
      ControlHead.fromId head :=
  read32_append (by omega)

theorem answer_coverRequest (hhead : head.length = 12) (receiptType : Byte) :
    answer (coverRequest head fields grandCover entries trailing) receiptType =
      answer head receiptType := by
  simp only [answer, ControlHead.fromId, ControlHead.toId, ControlHead.frameId, ControlHead.retain,
    coverRequest]
  rw [read32_append (by omega), read32_append (by omega), read16_append (by omega),
    read8_append (by omega)]

/-- A cover list of 1 to 255 entries is decoded to those entries in their order, and each handler
stores and answers over the entries decoded. What follows the list is read by neither. -/
theorem coverRequest_decoded (hhead : head.length = 12) (hfields : fields.length = 17)
    (hne : 1 ≤ entries.length) (hlen : entries.length ≤ 255) (cfg : Config) (w : World)
    (s : Server) :
    let request := coverRequest head fields grandCover entries trailing
    let sates := entries.map (CoverEntry.sateParam cfg.platform)
    let report : Satellite := ⟨grandCover, .ofNat 8 entries.length, sates⟩
    readSatellite cfg.platform request = .ok (some report) ∧
      processLogin cfg w s request = (do
        let userId := ntohl (← ControlHead.fromId head)
        let response ← answer head 0x01
        if ← getConnection w then
          let (db, response) ← login cfg.platform w s.db userId report response
          let str ← responseEncode response
          return ({ s with db := db }, [⟨userId, str, sates, 10⟩])
        else return (s, [])) ∧
      processMobileRequest cfg w s request = (do
        let userId := ntohl (← ControlHead.fromId head)
        let response ← answer head 0x03
        if ← getConnection w then
          let (db, _) ← updateSateCover cfg.platform (w.fails 0) s.db userId report
          let str ← responseEncode response
          return ({ s with db := db }, [⟨userId, str, sates, 10⟩])
        else return (s, [])) := by
  have hsate : readSatellite cfg.platform (coverRequest head fields grandCover entries trailing) =
      .ok (some ⟨grandCover, .ofNat 8 entries.length,
        entries.map (CoverEntry.sateParam cfg.platform)⟩) :=
    readSatellite_coverRequest cfg.platform hhead hfields (List.ne_nil_of_length_pos hne) hlen
  refine ⟨hsate, ?_, ?_⟩
  · unfold processLogin
    rw [hsate, fromId_coverRequest hhead, answer_coverRequest hhead]
    rfl
  · unfold processMobileRequest
    rw [hsate, fromId_coverRequest hhead, answer_coverRequest hhead]
    rfl

theorem coverRequest_decoded_two :
    readSatellite exactConfig.platform (coverRequest (List.replicate 12 0) (List.replicate 17 0) 1
        [⟨6, 1, 0x3F800000⟩, ⟨1, 2, 0x40000000⟩] [9]) =
      .ok (some ⟨1, 2, [⟨6, 1, exactConfig.platform.float 0x3F800000⟩,
        ⟨1, 2, exactConfig.platform.float 0x40000000⟩]⟩) :=
  (coverRequest_decoded rfl rfl (by decide) (by decide) exactConfig (.calm 0) (.start [] [])).1

end ShortMessage
