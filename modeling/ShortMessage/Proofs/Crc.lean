import ShortMessage.Crc
import ShortMessage.Lib.Remainder

/-!
# The table, the bits and what the checksum tells apart

An entry of the table is what eight zero bits make of the register that begins with its index; the
rest of the register moves up beside it. So a step of the table is eight steps of the register, and
what holds of the register holds of the checksum.
-/

namespace ShortMessage

open CMemory ShiftRegister Polynomial

def crcPoly : BitVec 16 := 0x8005

noncomputable def crcGenerator : (ZMod 2)[X] := X ^ 16 + X ^ 15 + X ^ 2 + 1

/-- The bits of a buffer in the order the register takes them. -/
def crcBits (buffer : List Byte) : List Bool := buffer.flatMap wordBits

/-- The register over the bits of a buffer, one by one. -/
def bitwise (crc : BitVec 16) (buffer : List Byte) : BitVec 16 :=
  register crcPoly crc (crcBits buffer)

/-! ## One byte -/

theorem toList_crc16Table : crc16Table.toList = (List.finRange 256).map fun i =>
    register crcPoly ((BitVec.ofFin i : Byte).setWidth 16 <<< 8) (List.replicate 8 false) := by
  decide +kernel

theorem crc16Table_get (i : Fin 256) :
    crc16Table.get i =
      register crcPoly ((BitVec.ofFin i : Byte).setWidth 16 <<< 8) (List.replicate 8 false) := by
  have hi : i.val < crc16Table.toList.length := by
    rw [Vector.length_toList]
    exact i.isLt
  have hget : crc16Table.get i = crc16Table.toList[i.val] := by
    rw [Vector.getElem_toList]
    rfl
  rw [hget, List.getElem_of_eq toList_crc16Table hi, List.getElem_map, List.getElem_finRange]
  rfl

/-- The byte that leaves the register meets the byte that comes in; the other one moves up. -/
theorem xor_data (crc : BitVec 16) (data : Byte) :
    crc ^^^ (data.setWidth 16 <<< 8) =
      (((crc >>> 8).setWidth 8 ^^^ data).setWidth 16 <<< 8) ^^^ (crc.setWidth 8).setWidth 16 := by
  ext i hi
  by_cases h8 : i < 8
  · simp [h8, BitVec.getLsbD_eq_getElem hi]
  · have h : 8 + (i - 8) = i := by omega
    have hlt : i - 8 < 8 := by omega
    simp [h8, h, hlt, BitVec.getLsbD_eq_getElem hi]

/-- A step of the table is eight steps of the register. -/
theorem crc16Byte_eq (crc : BitVec 16) (data : Byte) :
    crc16Byte crc data = register crcPoly crc (wordBits data) := by
  have hlow : ∀ i < 8, ((crc.setWidth 8).setWidth 16).getMsbD i = false := by
    intro i hi
    rw [BitVec.getMsbD_setWidth, decide_eq_false (by omega), Bool.false_and]
  have hup : (crc.setWidth 8).setWidth 16 <<< 8 = crc <<< 8 := by
    ext i hi
    by_cases h8 : i < 8
    · simp [h8]
    · have hlt : i - 8 < 8 := by omega
      simp [h8, hlt, BitVec.getLsbD_eq_getElem (show i - 8 < 16 by omega)]
  rw [crc16Byte, crc16Table_get, register_top crcPoly crc (by simp), top_wordBits (by omega),
    xor_data, length_wordBits, register_xor_zeros, register_zeros_of_small _ hlow, hup,
    BitVec.xor_comm]

theorem foldl_crc16Byte (crc : BitVec 16) (buffer : List Byte) :
    buffer.foldl crc16Byte crc = bitwise crc buffer := by
  induction buffer generalizing crc with
  | nil => rfl
  | cons data buffer ih =>
    rw [List.foldl_cons, ih, crc16Byte_eq, bitwise, bitwise, crcBits, crcBits, List.flatMap_cons,
      register_append]

theorem bitwise_append (crc : BitVec 16) (a b : List Byte) :
    bitwise crc (a ++ b) = bitwise (bitwise crc a) b := by
  rw [bitwise, crcBits, List.flatMap_append, register_append]
  rfl

theorem swap16_injective {x y : BitVec 16} (h : swap16 x = swap16 y) : x = y := by
  rw [← swap16_swap16 x, h, swap16_swap16]

/-- The table-driven checksum is the bit-serial one. -/
theorem crc16_eq_swap16_bitwise (crc : BitVec 16) (buffer : List Byte) :
    crc16 crc buffer = swap16 (register crcPoly crc (crcBits buffer)) := by
  rw [crc16, foldl_crc16Byte]
  rfl

/-! ## What is told apart -/

theorem length_crcBits (buffer : List Byte) : (crcBits buffer).length = 8 * buffer.length := by
  induction buffer with
  | nil => rfl
  | cons data buffer ih =>
    rw [crcBits, List.flatMap_cons, List.length_append, length_wordBits, ← crcBits, ih,
      List.length_cons]
    omega

theorem crcBits_injective {a b : List Byte} (h : crcBits a = crcBits b) : a = b := by
  have hlen : a.length = b.length := by
    have hbits := congrArg List.length h
    rw [length_crcBits, length_crcBits] at hbits
    omega
  induction hlen using sameLength_induction with
  | nil => rfl
  | cons x y a b _ ih =>
    rw [crcBits, crcBits, List.flatMap_cons, List.flatMap_cons] at h
    obtain ⟨hw, ht⟩ := List.append_inj h (by simp)
    rw [wordBits_injective hw, ih ht]

/-- An error of an odd number of bits is detected, and so is one within sixteen consecutive bits. -/
theorem crc16_detects (crc : BitVec 16) {a b : List Byte} (hlen : a.length = b.length) (hne : a ≠ b)
    (herr : Odd ((diff (crcBits a) (crcBits b)).count true) ∨ Burst 16 (crcBits a) (crcBits b)) :
    crc16 crc a ≠ crc16 crc b := by
  have hlen' : (crcBits a).length = (crcBits b).length := by
    rw [length_crcBits, length_crcBits, hlen]
  rw [crc16, crc16, foldl_crc16Byte, foldl_crc16Byte]
  intro h
  rcases herr with hodd | hburst
  · exact register_odd (by decide) crc hlen' hodd (swap16_injective h)
  · exact register_burst (by decide) crc hlen' hburst (fun he => hne (crcBits_injective he))
      (swap16_injective h)

theorem crc16_detects_one : crc16 0 [1] ≠ crc16 0 [0] ∧ crc16 0 [3, 128] ≠ crc16 0 [0, 0] := by
  refine ⟨crc16_detects 0 rfl (by decide) (.inl (by decide)),
    crc16_detects 0 rfl (by decide) (.inr ⟨0, fun i hi => ⟨by omega, ?_⟩⟩)⟩
  by_contra hge
  rw [List.getElem?_eq_none (by rw [length_crcBits]; simp; omega),
    List.getElem?_eq_none (by rw [length_crcBits]; simp; omega)] at hi
  exact hi rfl

/-! ## Going on from an earlier value -/

theorem divisor_crcPoly : divisor crcPoly = crcGenerator := by
  have hbits : wordBits crcPoly = [true, false, false, false, false, false, false, false, false,
      false, false, false, false, true, false, true] := by decide
  rw [divisor, hbits, crcGenerator]
  simp
  ring

theorem swap16_eq_self_iff (x : BitVec 16) : swap16 x = x ↔ ∃ m : Byte, x = m ++ m := by
  refine ⟨fun h => ⟨x.extractLsb' 0 8, ?_⟩, ?_⟩
  · have hlow := (cat16_bytes (x.extractLsb' 0 8) (x.extractLsb' 8 8)).1
    rw [← swap16, h] at hlow
    conv_lhs => rw [← word16_bytes x, ← hlow]
  · rintro ⟨m, rfl⟩
    rw [swap16, (cat16_bytes m m).1, (cat16_bytes m m).2]

/-- `htons` has the last word at each call: the checksum goes on from an earlier value when that is
the same in both byte orders. -/
theorem crc16_append_iff (crc : BitVec 16) (a b : List Byte) :
    crc16 (crc16 crc a) b = crc16 crc (a ++ b) ↔
      ∃ m : Byte, crcGenerator ∣ polynomial (wordBits (m ++ m)) +
        (X ^ (8 * a.length) * polynomial (wordBits crc) + X ^ 16 * polynomial (crcBits a)) := by
  have hstart : crc16 (crc16 crc a) b = crc16 crc (a ++ b) ↔
      swap16 (bitwise crc a) = bitwise crc a := by
    simp only [crc16, foldl_crc16Byte, bitwise_append]
    exact ⟨fun h => register_injective (by decide) _ (swap16_injective h), fun h => by rw [h]⟩
  rw [hstart, swap16_eq_self_iff]
  refine exists_congr fun m => ?_
  rw [bitwise, register_eq_iff_dvd, length_crcBits, divisor_crcPoly]

theorem crc16_append_ne : ¬ ∀ (crc : BitVec 16) (a b : List Byte),
    crc16 (crc16 crc a) b = crc16 crc (a ++ b) := by
  intro h
  have := h 0 [1] []
  revert this
  decide

end ShortMessage
