import Mathlib.Data.List.GetD
import ShortMessage.Proofs.Handlers
import ShortMessage.Proofs.Wire

/-!
# What a request can make the server access

Each handler is taken apart into its reads, its writes and the assertion of `UpdateSateCover`:
`ReportFits`, `BeamsFit`, `MessageFits` say when they stay in bounds, and `Fits` puts them together
for every type of request.
-/

namespace ShortMessage

open CMemory

/-! ## Reports -/

section Reports

variable {pf : Platform} {head : Ptr}

theorem inBounds_readSates (pf : Platform) : ∀ (n : ℕ) (pos : Ptr),
    InBounds (readSates pf n pos) ↔ 6 * n ≤ pos.length
  | 0, pos => by simp [readSates]
  | n + 1, pos => by
    simp only [readSates, inBounds_bind, inBounds_read8, inBounds_read32, inBounds_pure,
      inBounds_readSates pf n, List.length_drop, implies_true, and_true]
    constructor
    · rintro ⟨h0, h1⟩
      obtain ⟨h1, h2⟩ := h1 _ (read8_ok h0)
      obtain ⟨h2, h3⟩ := h2 _ (read8_ok h1)
      have := h3 _ (read32_ok h2)
      omega
    · intro h
      exact ⟨by omega, fun _ _ => ⟨by omega, fun _ _ => ⟨by omega, fun _ _ => by omega⟩⟩⟩

/-- The satellites read are those of the count, with the beam bytes the request has. -/
theorem readSates_beams : ∀ (n : ℕ) (pos : Ptr) {sates : List SateParam},
    readSates pf n pos = .ok sates → sates.length = n ∧
      ((∀ sate ∈ sates, 1 ≤ sate.beamId ∧ sate.beamId ≤ 10) ↔
        ∀ i < n, 1 ≤ (pos.getD (6 * i + 1) 0).toNat ∧ (pos.getD (6 * i + 1) 0).toNat ≤ 10)
  | 0, pos, sates, h => by
    cases h
    simp
  | n + 1, pos, sates, h => by
    have hlen := (inBounds_readSates pf (n + 1) pos).1 (by rw [h]; exact inBounds_ok _)
    simp only [readSates, bind_eq_ok] at h
    obtain ⟨sateId, hsate, beamId, hbeam, snr, -, rest, hrest, h⟩ := h
    cases h
    obtain ⟨ih1, ih2⟩ := readSates_beams n (pos.drop 6) hrest
    rw [read8_ok (by omega), Except.ok.injEq] at hbeam
    have hshift : ∀ i, (pos.drop 6).getD (6 * i + 1) 0 = pos.getD (6 * (i + 1) + 1) 0 := by
      intro i
      rw [List.getD_eq_getElem?_getD, List.getD_eq_getElem?_getD, List.getElem?_drop]
      congr 2
      omega
    refine ⟨by simp [ih1], ?_⟩
    rw [List.forall_mem_cons, ih2]
    simp only [hshift]
    have hfirst : beamId = pos.getD 1 0 := by
      rw [List.getD_eq_getElem _ _ (by omega), hbeam]
    constructor
    · rintro ⟨hb, hrest⟩ i hi
      rcases i with _ | i
      · simp only [Nat.mul_zero, Nat.zero_add, ← hfirst]
        omega
      · exact hrest i (by omega)
    · intro hall
      refine ⟨?_, fun i hi => hall (i + 1) (by omega)⟩
      have := hall 0 (by omega)
      simp only [Nat.mul_zero, Nat.zero_add, ← hfirst] at this
      omega

def coverNum (head : Ptr) : ℕ := (head.getD 30 0).toNat

/-- The report ends with its last satellite, or after the count when that is zero. -/
def ReportFits (head : Ptr) : Prop :=
  31 ≤ head.length ∧ 31 + 6 * coverNum head ≤ head.length

/-- Every satellite of the report names a beam there is a column for. -/
def BeamsFit (head : Ptr) : Prop :=
  ∀ i < coverNum head, 1 ≤ (head.getD (6 * i + 32) 0).toNat ∧ (head.getD (6 * i + 32) 0).toNat ≤ 10

theorem content_eq : MobileRequest.content (ControlHead.content head) = head.drop 29 := by
  rw [MobileRequest.content, ControlHead.content, List.drop_drop]

theorem inBounds_readSatellite : InBounds (readSatellite pf head) ↔ ReportFits head := by
  unfold readSatellite
  simp only [content_eq, inBounds_bind, inBounds_read8, List.length_drop, List.drop_drop]
  constructor
  · rintro ⟨h0, h1⟩
    obtain ⟨h1, h2⟩ := h1 _ (read8_ok (by simpa using h0))
    have h2 := h2 _ (read8_ok (by simpa using h1))
    refine ⟨by omega, ?_⟩
    have h1' : 1 < (head.drop 29).length := by
      rw [List.length_drop]
      omega
    have hnum : (head.drop 29)[1] = head.getD 30 0 := by
      rw [List.getD_eq_getElem _ _ (by omega), List.getElem_drop]
    rw [hnum] at h2
    split_ifs at h2 with hz
    · rw [coverNum, hz]
      simp only [BitVec.ofNat_eq_ofNat, BitVec.toNat_ofNat, Nat.zero_mod, Nat.mul_zero]
      omega
    · have := (inBounds_readSates pf _ _).1 (inBounds_bind.1 h2).1
      rw [List.length_drop] at this
      unfold coverNum
      omega
  · rintro ⟨h31, hnum⟩
    refine ⟨by omega, fun _ _ => ⟨by omega, fun num hn => ?_⟩⟩
    rw [read8_ok (by rw [List.length_drop]; omega), Except.ok.injEq, List.getElem_drop] at hn
    have hnum' : coverNum head = num.toNat := by
      rw [coverNum, List.getD_eq_getElem _ _ (by omega), hn]
    split_ifs
    · exact inBounds_pure _
    · rw [inBounds_bind, inBounds_readSates, List.length_drop]
      exact ⟨by omega, fun _ _ => inBounds_pure _⟩

theorem readSatellite_beams {sate : Satellite} (h : readSatellite pf head = .ok (some sate)) :
    sate.satesParam.take sate.satCoverNum.toNat = sate.satesParam ∧
      ((∀ p ∈ sate.satesParam, 1 ≤ p.beamId ∧ p.beamId ≤ 10) ↔ BeamsFit head) := by
  obtain ⟨h31, -⟩ := inBounds_readSatellite.1 (by rw [h]; exact inBounds_ok _)
  unfold readSatellite at h
  simp only [content_eq, List.drop_drop] at h
  rw [read8_ok (by rw [List.length_drop]; omega), ok_bind,
    read8_ok (by rw [List.length_drop]; omega), ok_bind, List.getElem_drop] at h
  have hnum : coverNum head = head[30].toNat := by
    rw [coverNum, List.getD_eq_getElem]
  split_ifs at h with hz
  · cases h
  · obtain ⟨sates, hs, h⟩ := bind_eq_ok.1 h
    cases h
    obtain ⟨hlen, hbeams⟩ := readSates_beams _ _ hs
    refine ⟨List.take_of_length_le hlen.le, hbeams.trans ?_⟩
    rw [BeamsFit, hnum]
    refine forall₂_congr fun i _ => ?_
    have : (head.drop 31).getD (6 * i + 1) 0 = head.getD (6 * i + 32) 0 := by
      rw [List.getD_eq_getElem?_getD, List.getD_eq_getElem?_getD, List.getElem?_drop]
      congr 2
      omega
    rw [this]

theorem readSates_ok (pf : Platform) : ∀ (n : ℕ) (pos : Ptr), 6 * n ≤ pos.length →
    ∃ sates, readSates pf n pos = .ok sates
  | 0, _, _ => ⟨[], rfl⟩
  | n + 1, pos, h => by
    obtain ⟨rest, hrest⟩ := readSates_ok pf n (pos.drop 6) (by
      rw [List.length_drop]
      omega)
    rw [readSates, read8_ok (by omega), ok_bind, read8_ok (by omega), ok_bind,
      read32_ok (by omega), ok_bind, hrest]
    exact ⟨_, rfl⟩

/-- A report that fits is read; it has no satellites when the count is zero. -/
theorem readSatellite_cases (pf : Platform) (h : ReportFits head) :
    (coverNum head = 0 ∧ readSatellite pf head = .ok none) ∨
      ∃ sate, readSatellite pf head = .ok (some sate) := by
  obtain ⟨h31, hlen⟩ := h
  have hnum : coverNum head = head[30].toNat := by
    rw [coverNum, List.getD_eq_getElem]
  unfold readSatellite
  simp only [content_eq, List.drop_drop]
  rw [read8_ok (by rw [List.length_drop]; omega), ok_bind,
    read8_ok (by rw [List.length_drop]; omega), ok_bind, List.getElem_drop]
  split_ifs with hz
  · left
    rw [hnum, hz]
    exact ⟨rfl, rfl⟩
  · right
    obtain ⟨sates, hs⟩ := readSates_ok pf head[30].toNat (head.drop 31) (by
      rw [List.length_drop]
      omega)
    refine ⟨⟨head[29], head[30], sates⟩, ?_⟩
    rw [hs, ok_bind, List.getElem_drop]
    rfl

end Reports

/-! ## The assertion -/

theorem inBounds_tempSnr : ∀ (sates : List SateParam) (snr : Fin 10 → ℚ),
    InBounds (tempSnr sates snr) ↔ ∀ p ∈ sates, 1 ≤ p.beamId ∧ p.beamId ≤ 10
  | [], snr => by simp [tempSnr]
  | p :: sates, snr => by
    rw [List.forall_mem_cons, tempSnr]
    split_ifs with h
    · rw [inBounds_tempSnr sates]
      exact ⟨fun hs => ⟨h, hs⟩, fun hs => hs.2⟩
    · exact iff_of_false (fun hb => hb _ rfl trivial) fun hs => h hs.1

theorem inBounds_updateSateCover {pf : Platform} {fail : Bool} {db : Db} {userId : BitVec 32}
    {sate : Satellite} : InBounds (updateSateCover pf fail db userId sate) ↔
      ∀ p ∈ sate.satesParam.take sate.satCoverNum.toNat, 1 ≤ p.beamId ∧ p.beamId ≤ 10 := by
  rw [updateSateCover, inBounds_bind, inBounds_tempSnr, and_iff_left]
  intro snr _
  split_ifs <;> exact inBounds_pure _

/-! ## Mobile management -/

section Mobile

variable {cfg : Config} {w : World} {s : Server} {head : Ptr}

theorem inBounds_login {pf : Platform} {db : Db} {userId : BitVec 32} {sate : Satellite}
    {response : Response} : InBounds (login pf w db userId sate response) ↔
      (isExistUser (w.fails 0) db userId = true →
        InBounds (updateSateCover pf (w.fails 1) db userId sate)) := by
  unfold login
  split_ifs with h
  · rw [inBounds_bind, and_iff_left]
    · simp [h]
    · intro r _
      simp only []
      split_ifs <;> exact inBounds_pure _
  · simp [h]

theorem inBounds_answer (h : 11 ≤ head.length) (receiptType : Byte) :
    InBounds (answer head receiptType) ↔ 12 ≤ head.length := by
  obtain ⟨fromId, toId, frameId, hf, ht, hc, -⟩ := head_reads h
  simp only [answer, hf, ht, hc, ok_bind, inBounds_bind, inBounds_pure, implies_true, and_true]
  exact inBounds_read8

theorem inBounds_processLogin (h : 11 ≤ head.length) :
    InBounds (processLogin cfg w s head) ↔ ReportFits head ∧ (getConnection w = .ok true →
      ∀ fromId, ControlHead.fromId head = .ok fromId →
        isExistUser (w.fails 0) s.db (ntohl fromId) = true → BeamsFit head) := by
  obtain ⟨fromId, -, -, hf, -⟩ := head_reads h
  unfold processLogin
  rw [hf, ok_bind, inBounds_bind, inBounds_readSatellite]
  refine and_congr_right fun hfit => ?_
  rcases readSatellite_cases cfg.platform hfit with ⟨hz, hr⟩ | ⟨sate, hr⟩
  · refine iff_of_true ?_ fun _ _ _ _ i hi => ?_
    · intro a ha
      rw [hr] at ha
      cases ha
      exact inBounds_pure _
    · omega
  · obtain ⟨htake, hbeams⟩ := readSatellite_beams hr
    obtain ⟨response, hans⟩ := answer_ok (show 12 ≤ head.length by have := hfit.1; omega) 0x01
    simp only [hr, Except.ok.injEq, forall_eq']
    rw [hans, ok_bind, inBounds_connected]
    refine imp_congr_right fun _ => ?_
    rw [inBounds_bind, inBounds_login, inBounds_updateSateCover, htake, hbeams, and_iff_left]
    · rfl
    · intro r _
      obtain ⟨buf, hbuf⟩ := responseEncode_ok r.2
      simp only [hbuf, ok_bind, inBounds_pure]

theorem inBounds_processMobileRequest (h : 11 ≤ head.length) :
    InBounds (processMobileRequest cfg w s head) ↔
      ReportFits head ∧ (getConnection w = .ok true → BeamsFit head) := by
  obtain ⟨fromId, -, -, hf, -⟩ := head_reads h
  unfold processMobileRequest
  rw [hf, ok_bind, inBounds_bind, inBounds_readSatellite]
  refine and_congr_right fun hfit => ?_
  rcases readSatellite_cases cfg.platform hfit with ⟨hz, hr⟩ | ⟨sate, hr⟩
  · refine iff_of_true ?_ fun _ i hi => ?_
    · intro a ha
      rw [hr] at ha
      cases ha
      exact inBounds_pure _
    · omega
  · obtain ⟨htake, hbeams⟩ := readSatellite_beams hr
    obtain ⟨response, hans⟩ := answer_ok (show 12 ≤ head.length by have := hfit.1; omega) 0x03
    obtain ⟨buf, hbuf⟩ := responseEncode_ok response
    simp only [hr, Except.ok.injEq, forall_eq']
    rw [hans, ok_bind, inBounds_connected]
    refine imp_congr_right fun _ => ?_
    rw [inBounds_bind, inBounds_updateSateCover, htake, hbeams, and_iff_left]
    intro r _
    simp only [hbuf, ok_bind, inBounds_pure]

theorem inBounds_processLogout (h : 11 ≤ head.length) :
    InBounds (processLogout cfg w s head) ↔ 12 ≤ head.length := by
  obtain ⟨fromId, -, -, hf, -⟩ := head_reads h
  unfold processLogout
  rw [hf, ok_bind, inBounds_bind, inBounds_answer h, and_iff_left_iff_imp]
  intro h12 response _
  obtain ⟨buf, hbuf⟩ := responseEncode_ok response
  rw [inBounds_connected]
  intro _
  rw [inBounds_bind, inBounds_updateSateCover]
  refine ⟨by simp, fun r _ => ?_⟩
  simp only [hbuf, ok_bind, inBounds_pure]

end Mobile

/-! ## Messages -/

section Messages

variable {cfg : Config} {w : World} {s : Server} {head : Ptr}

def TextFits (head : Ptr) : Prop := 0#8 ∈ head.drop 12

def textOf (head : Ptr) : List Byte := (head.drop 12).takeWhile (· ≠ 0#8)

theorem cstr_content (h : TextFits head) : cstr (ControlHead.content head) = .ok (textOf head) :=
  if_pos h

theorem length_of_textFits (h : TextFits head) : 13 ≤ head.length := by
  have := List.length_pos_of_mem h
  rw [List.length_drop] at this
  omega

theorem inBounds_readHead (h : 11 ≤ head.length) : InBounds (readHead head) ↔ TextFits head := by
  obtain ⟨fromId, toId, frameId, hf, ht, hc, hty⟩ := head_reads h
  unfold readHead
  rw [ht, ok_bind, hf, ok_bind, hc, ok_bind, hty, ok_bind, inBounds_bind, inBounds_cstr,
    and_iff_left fun _ _ => inBounds_pure _]
  rfl

theorem readHead_ok (h : TextFits head) : ∃ m, readHead head = .ok m := by
  have hlen := length_of_textFits h
  obtain ⟨fromId, toId, frameId, hf, ht, hc, hty⟩ := head_reads (show 11 ≤ head.length by omega)
  refine ⟨⟨ntohl toId, ntohl fromId, ntohs frameId, head.getD 10 0, textOf head⟩, ?_⟩
  rw [readHead, ht, ok_bind, hf, ok_bind, hc, ok_bind, hty, ok_bind, cstr_content h]
  rfl

theorem inBounds_messageEncode (h : TextFits head) :
    InBounds (messageEncode head) ↔ (textOf head).length ≤ 1011 := by
  have hlen := length_of_textFits h
  obtain ⟨fromId, toId, frameId, hf, ht, hc, hty⟩ := head_reads (show 11 ≤ head.length by omega)
  have hr : ControlHead.retain head = .ok head[11] := read8_ok (by omega)
  unfold messageEncode
  simp only [hf, ht, hc, hty, hr, cstr_content h, ok_bind]
  rw [put_header, inBounds_bind, Cursor.inBounds_put]
  simp only [length_header, List.length_append, List.length_singleton, bufSize]
  constructor
  · rintro ⟨hle, -⟩
    omega
  · intro hle
    refine ⟨by omega, fun pos _ => ?_⟩
    rw [Cursor.take_ok _ le_rfl]
    exact inBounds_ok _

theorem inBounds_sendTo {userId : BitVec 32} {sates : List SateParam} {level : ℤ}
    {str : Except Fault (List Byte)} :
    InBounds (sendTo userId sates level str) ↔ (sates ≠ [] → InBounds str) := by
  unfold sendTo
  rcases sates with _ | ⟨sate, sates⟩
  · simp
  · rw [List.isEmpty_cons, if_neg Bool.false_ne_true, inBounds_bind,
      and_iff_left fun _ _ => inBounds_pure _]
    simp

/-- A message whose insert succeeds is relayed to an addressee that has coverage. -/
def Relayed (cfg : Config) (w : World) (s : Server) (head : Ptr) : Prop :=
  w.fails 0 = false ∧ ∃ toId, ControlHead.toId head = .ok toId ∧
    getSateCover cfg.platform (w.fails 1) s.db (ntohl toId) ≠ []

/-- The text of a message ends within the request, and a text that is relayed fits the encoder's
buffer. -/
def MessageFits (cfg : Config) (w : World) (s : Server) (head : Ptr) : Prop :=
  TextFits head ∧ (Relayed cfg w s head → (textOf head).length ≤ 1011)

theorem inBounds_relay {m : Head} (h : TextFits head) (hm : readHead head = .ok m)
    (hfail : w.fails 0 = false) :
    InBounds (sendTo m.toId (getSateCover cfg.platform (w.fails 1) s.db m.toId) 5
      (messageEncode head)) ↔ (Relayed cfg w s head → (textOf head).length ≤ 1011) := by
  obtain ⟨ht, -⟩ := readHead_eq_ok.1 hm
  rw [inBounds_sendTo, inBounds_messageEncode h, Relayed, ht]
  simp [hfail]

/-- The insert reads the text to its end. -/
theorem textFits_of_insert {insert : Except Fault (Db × Bool)}
    {rest : Db × Bool → Except Fault (Server × List Sent)} (h : 11 ≤ head.length)
    (hinsert : InBounds insert → InBounds (readHead head)) (hb : InBounds (insert >>= rest)) :
    TextFits head :=
  (inBounds_readHead h).1 (hinsert (inBounds_bind.1 hb).1)

theorem inBounds_processSimpleMessage (h : 11 ≤ head.length) :
    InBounds (processSimpleMessage cfg w s head) ↔
      (getConnection w = .ok true → MessageFits cfg w s head) := by
  obtain ⟨fromId, toId, -, hf, ht, -⟩ := head_reads h
  by_cases htext : TextFits head
  · obtain ⟨m, hm⟩ := readHead_ok htext
    rcases getConnection_cases w with hconn | hconn
    · rw [processSimpleMessage_eq hconn hm, forall_prop_of_true hconn, MessageFits,
        and_iff_right htext]
      cases hfail : w.fails 0
      · rw [if_neg Bool.false_ne_true, inBounds_bind, inBounds_relay htext hm hfail,
          and_iff_left fun _ _ => inBounds_pure _]
      · simp [Relayed, hfail]
    · unfold processSimpleMessage
      simp [ht, hf, hconn, Fault.OutOfBounds]
  · unfold processSimpleMessage
    rw [ht, ok_bind, hf, ok_bind, inBounds_connected]
    refine imp_congr_right fun _ => iff_of_false (fun hb => htext ?_) fun hb => htext hb.1
    exact textFits_of_insert h (fun hi => (inBounds_bind.1 hi).1) hb

theorem inBounds_processCompleteMessage (h : 11 ≤ head.length) :
    InBounds (processCompleteMessage cfg w s head) ↔
      (getConnection w = .ok true → MessageFits cfg w s head) := by
  obtain ⟨fromId, toId, -, hf, ht, -⟩ := head_reads h
  by_cases htext : TextFits head
  · obtain ⟨m, hm⟩ := readHead_ok htext
    rcases getConnection_cases w with hconn | hconn
    · rw [processCompleteMessage_eq hconn hm, forall_prop_of_true hconn, MessageFits,
        and_iff_right htext]
      cases hfail : w.fails 0
      · have hreceipt (sates : List SateParam) : ∃ sent, sendTo m.fromId sates 10
            (responseEncode (messageReceipt m.fromId (htons m.frameId))) = .ok sent := by
          unfold sendTo
          split_ifs <;> exact ⟨_, rfl⟩
        obtain ⟨sent, hsent⟩ := hreceipt (getSateCover cfg.platform (w.fails 2) s.db m.fromId)
        rw [if_neg Bool.false_ne_true, hsent, ok_bind, inBounds_bind,
          inBounds_relay htext hm hfail, and_iff_left fun _ _ => inBounds_pure _]
      · simp [Relayed, hfail]
    · unfold processCompleteMessage
      simp [ht, hf, hconn, Fault.OutOfBounds]
  · unfold processCompleteMessage
    rw [ht, ok_bind, hf, ok_bind, inBounds_connected]
    refine imp_congr_right fun _ => iff_of_false (fun hb => htext ?_) fun hb => htext hb.1
    exact textFits_of_insert h (fun hi => (inBounds_bind.1 hi).1) hb

/-- A receipt is read up to its type, and up to its frame, which comes before it. -/
theorem inBounds_processReceipt (h : 11 ≤ head.length) :
    InBounds (processReceipt w s head) ↔ 15 ≤ head.length := by
  obtain ⟨fromId, toId, -, hf, ht, -⟩ := head_reads h
  unfold processReceipt
  rw [hf, ok_bind, ht, ok_bind, inBounds_bind, UserAckResponse.receiptType, inBounds_read8,
    ControlHead.content, List.length_drop]
  constructor
  · rintro ⟨h15, -⟩
    omega
  · intro h15
    refine ⟨by omega, fun receiptType _ => ?_⟩
    split_ifs
    · exact inBounds_pure _
    · rw [inBounds_bind, UserAckResponse.frameId, inBounds_read16, List.length_drop]
      refine ⟨by omega, fun frameId _ => inBounds_connected.2 fun _ => inBounds_pure _⟩

end Messages

/-! ## Dispatch -/

section Dispatch

variable {cfg : Config} {w : World} {s : Server} {request : List Byte}

/-- What a request must be, by the type it is dispatched on, for its handler to stay in bounds. -/
def HandlerFits (cfg : Config) (w : World) (s : Server) (head : Ptr) : Option SignalType → Prop
  | some .login => ReportFits head ∧ (getConnection w = .ok true →
      ∀ fromId, ControlHead.fromId head = .ok fromId →
        isExistUser (w.fails 0) s.db (ntohl fromId) = true → BeamsFit head)
  | some .logout => 12 ≤ head.length
  | some .mobileManagerRequest => ReportFits head ∧ (getConnection w = .ok true → BeamsFit head)
  | some .simpleMessage | some .completeMessage =>
      getConnection w = .ok true → MessageFits cfg w s head
  | some .receipte => 15 ≤ head.length
  | _ => True

/-- The type of the request lies within it, and its handler's accesses do. -/
def Fits (cfg : Config) (w : World) (s : Server) (request : List Byte) : Prop :=
  10 ≤ request.length ∧
    HandlerFits cfg w s (request ++ [0#8]) (SignalType.ofByte (request.getD 10 0))

/-- Serving a request stays within its buffers and assertions exactly when the request fits. -/
theorem inBounds_accessToLogic (hne : request ≠ []) :
    InBounds (accessToLogic cfg w s request) ↔ Fits cfg w s request := by
  unfold accessToLogic Fits
  rw [if_neg (by simpa using hne)]
  by_cases h10 : 10 ≤ request.length
  · have h : 11 ≤ (request ++ [0#8]).length := by
      rw [List.length_append, List.length_singleton]
      omega
    obtain ⟨-, -, -, -, -, -, hty⟩ := head_reads h
    have htype : (request ++ [0#8]).getD 10 0 = request.getD 10 0 := by
      rcases h10.lt_or_eq with hlt | heq
      · rw [List.getD_append _ _ _ _ hlt]
      · simp [heq]
    simp only [hty, htype, ok_bind]
    rw [and_iff_right h10]
    rcases SignalType.ofByte (request.getD 10 0) with _ | type
    · exact iff_of_true (inBounds_pure _) trivial
    · cases type with
      | login => exact inBounds_processLogin h
      | logout => exact inBounds_processLogout h
      | mobileManagerRequest => exact inBounds_processMobileRequest h
      | simpleMessage => exact inBounds_processSimpleMessage h
      | completeMessage => exact inBounds_processCompleteMessage h
      | receipte => exact inBounds_processReceipt h
      | forwardNoackMessage => exact iff_of_true (inBounds_pure _) trivial
      | backwardNoackMessage => exact iff_of_true (inBounds_pure _) trivial
      | inquireMessageRequest => exact iff_of_true (inBounds_pure _) trivial
  · refine iff_of_false (fun hb => h10 ?_) fun hf => h10 hf.1
    have := inBounds_read8.1 (inBounds_bind.1 hb).1
    rw [List.length_append, List.length_singleton] at this
    omega

end Dispatch

/-! ## A beam without a column -/

/-- User 1 reports satellite 6, beam 11. -/
def beamEleven : List Byte :=
  [0, 0, 0, 1, 0, 0, 0, 0, 0, 1, 0x00, 0] ++ List.replicate 17 0 ++ [0, 1] ++ [6, 11, 0, 0, 0, 0]

def userOne : Server := ⟨⟨[], [], [⟨1, fun _ => -1⟩], [1]⟩, 0, 0⟩

theorem inBounds_accessToLogic_beamEleven :
    InBounds (accessToLogic exactConfig (.calm 0) userOne beamEleven) ↔
      Fits exactConfig (.calm 0) userOne beamEleven :=
  inBounds_accessToLogic (by decide)

/-- The login of a user who names beam 11 ends in the assertion of `UpdateSateCover`. -/
theorem beamEleven_not_inBounds :
    ¬ InBounds (accessToLogic exactConfig (.calm 0) userOne beamEleven) := by
  have hfault : accessToLogic exactConfig (.calm 0) userOne beamEleven = .error .assertion := by
    rfl
  rw [hfault]
  exact fun hb => hb _ rfl trivial

end ShortMessage
