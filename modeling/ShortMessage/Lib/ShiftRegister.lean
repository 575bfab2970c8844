import Mathlib.Data.List.GetD
import Mathlib.Data.List.OfFn
import Mathlib.Tactic.Common

/-!
# A shift register fed one bit at a time

`shift poly crc b` moves the register up by one place and adds `poly` when the bit that leaves it
differs from the bit that comes in. The register is linear in its start and its input together, so
two runs are told apart by the run of their difference.
-/

namespace ShiftRegister

variable {n : ℕ}

/-- The bits of a word, the most significant first. -/
def wordBits (x : BitVec n) : List Bool := List.ofFn fun i : Fin n => x.getMsbD i

def shift (poly crc : BitVec n) (b : Bool) : BitVec n :=
  (crc <<< 1) ^^^ (if crc.msb ^^ b then poly else 0#n)

def register (poly crc : BitVec n) (bits : List Bool) : BitVec n := bits.foldl (shift poly) crc

/-- The bits in which two strings differ. -/
abbrev diff (as bs : List Bool) : List Bool := List.zipWith xor as bs

/-- The strings differ only within some window of `w` consecutive bits. -/
def Burst (w : ℕ) (as bs : List Bool) : Prop := ∃ k, ∀ i, as[i]? ≠ bs[i]? → k ≤ i ∧ i < k + w

variable {poly : BitVec n}

@[simp] theorem register_nil (poly crc : BitVec n) : register poly crc [] = crc := rfl

@[simp] theorem register_cons (poly crc : BitVec n) (b : Bool) (bits : List Bool) :
    register poly crc (b :: bits) = register poly (shift poly crc b) bits := rfl

@[simp] theorem register_append (poly crc : BitVec n) (as bs : List Bool) :
    register poly crc (as ++ bs) = register poly (register poly crc as) bs := List.foldl_append

@[simp] theorem length_wordBits (x : BitVec n) : (wordBits x).length = n := by simp [wordBits]

/-- Two strings of one length are taken apart together. -/
@[elab_as_elim]
theorem sameLength_induction {α β : Type*}
    {motive : ∀ (as : List α) (bs : List β), as.length = bs.length → Prop} (nil : motive [] [] rfl)
    (cons : ∀ a b as bs (h : as.length = bs.length), motive as bs h →
      motive (a :: as) (b :: bs) (congrArg (· + 1) h))
    {as : List α} {bs : List β} (h : as.length = bs.length) : motive as bs h := by
  induction as generalizing bs with
  | nil =>
    obtain rfl := List.eq_nil_of_length_eq_zero h.symm
    exact nil
  | cons a as ih =>
    rcases bs with _ | ⟨b, bs⟩
    · simp at h
    · exact cons a b as bs _ (ih (Nat.succ.inj h))

/-! ## Linearity -/

theorem shift_xor (poly x y : BitVec n) (a b : Bool) :
    shift poly (x ^^^ y) (a ^^ b) = shift poly x a ^^^ shift poly y b := by
  have hadd (c d : Bool) : (if c ^^ d then poly else 0#n) =
      (if c then poly else 0#n) ^^^ (if d then poly else 0#n) := by
    cases c <;> cases d <;> simp
  have hbit : ((x ^^^ y).msb ^^ (a ^^ b)) = ((x.msb ^^ a) ^^ (y.msb ^^ b)) := by
    rw [BitVec.msb_xor]
    cases x.msb <;> cases y.msb <;> cases a <;> cases b <;> rfl
  rw [shift, hbit, hadd, BitVec.shiftLeft_xor_distrib, shift, shift]
  ac_rfl

/-- The run of the difference is the difference of the runs. -/
theorem register_xor (poly x y : BitVec n) {as bs : List Bool} (hlen : as.length = bs.length) :
    register poly (x ^^^ y) (diff as bs) = register poly x as ^^^ register poly y bs := by
  induction hlen using sameLength_induction generalizing x y with
  | nil => rfl
  | cons a b as bs _ ih =>
    rw [diff, List.zipWith_cons_cons, register_cons, shift_xor, ih]
    rfl

theorem diff_self (bits : List Bool) : diff bits bits = List.replicate bits.length false := by
  induction bits with
  | nil => rfl
  | cons b bits ih =>
    rw [diff, List.zipWith_cons_cons, ← diff, ih, Bool.xor_self]
    rfl

theorem register_xor_zeros (x y : BitVec n) (k : ℕ) :
    register poly (x ^^^ y) (List.replicate k false) =
      register poly x (List.replicate k false) ^^^ register poly y (List.replicate k false) := by
  rw [← register_xor _ _ _ rfl, diff_self, List.length_replicate]

/-- Two runs end alike exactly when the run of their difference ends in zero. -/
theorem register_eq_iff (crc : BitVec n) {as bs : List Bool} (hlen : as.length = bs.length) :
    register poly crc as = register poly crc bs ↔ register poly 0#n (diff as bs) = 0#n := by
  have hxor := register_xor poly crc crc hlen
  rw [BitVec.xor_self] at hxor
  rw [hxor, BitVec.xor_eq_zero_iff]

/-! ## No difference is lost -/

/-- A register whose polynomial has its last bit never loses what it holds. -/
theorem shift_eq_zero (hpoly : poly.getLsbD 0 = true) {crc : BitVec n}
    (h : shift poly crc false = 0#n) : crc = 0#n := by
  have hn : 0 < n := by
    by_contra h0
    obtain rfl : n = 0 := by omega
    simp at hpoly
  have hmsb : crc.msb = false := by
    have h0 : (shift poly crc false).getLsbD 0 = false := by rw [h, BitVec.getLsbD_zero]
    cases hm : crc.msb
    · rfl
    · simp [shift, hm, hpoly] at h0
  simp only [shift, hmsb, Bool.xor_false, Bool.false_eq_true, if_false, BitVec.xor_zero] at h
  refine BitVec.eq_of_getMsbD_eq fun i hi => ?_
  rcases i with _ | i
  · rw [← BitVec.msb_eq_getMsbD_zero, hmsb, BitVec.getMsbD_zero]
  · rw [← BitVec.getMsbD_shiftLeft, h, BitVec.getMsbD_zero, BitVec.getMsbD_zero]

theorem register_zeros_eq_zero (hpoly : poly.getLsbD 0 = true) {crc : BitVec n} {k : ℕ}
    (h : register poly crc (List.replicate k false) = 0#n) : crc = 0#n := by
  induction k generalizing crc with
  | zero => exact h
  | succ k ih =>
    rw [List.replicate_succ, register_cons] at h
    exact shift_eq_zero hpoly (ih h)

/-- The register's start is told by where a string takes it. -/
theorem register_injective (hpoly : poly.getLsbD 0 = true) (bits : List Bool) {x y : BitVec n}
    (h : register poly x bits = register poly y bits) : x = y := by
  rw [← BitVec.xor_eq_zero_iff] at h ⊢
  rw [← register_xor _ _ _ rfl, diff_self] at h
  exact register_zeros_eq_zero hpoly h

/-! ## Loading -/

/-- The word that begins with these bits. -/
def top (bits : List Bool) : BitVec n :=
  (BitVec.ofBoolListBE bits).setWidth n <<< (n - bits.length)

theorem getMsbD_top {bits : List Bool} (hlen : bits.length ≤ n) (i : ℕ) :
    (top bits : BitVec n).getMsbD i = bits.getD i false := by
  rw [top, BitVec.getMsbD_shiftLeft, BitVec.getMsbD_setWidth, BitVec.getMsbD_ofBoolListBE,
    decide_eq_true (by omega), Bool.true_and, show i + (n - bits.length) + bits.length - n = i by
      omega]

theorem getD_wordBits (x : BitVec n) (i : ℕ) : (wordBits x).getD i false = x.getMsbD i := by
  rw [wordBits, List.getD_eq_getElem?_getD, List.getElem?_ofFn]
  split_ifs with h
  · rfl
  · simp [BitVec.getMsbD, h]

theorem top_wordBits {m : ℕ} (hmn : m ≤ n) (x : BitVec m) :
    (top (wordBits x) : BitVec n) = x.setWidth n <<< (n - m) := by
  refine BitVec.eq_of_getMsbD_eq fun i _ => ?_
  rw [getMsbD_top (by simpa using hmn), getD_wordBits, BitVec.getMsbD_shiftLeft,
    BitVec.getMsbD_setWidth, decide_eq_true (by omega), Bool.true_and,
    show i + (n - m) + m - n = i by omega]

/-- Bits that come in one at a time may as well be added to the register at once. -/
theorem register_top (poly crc : BitVec n) {bits : List Bool} (hlen : bits.length ≤ n) :
    register poly crc bits =
      register poly (crc ^^^ top bits) (List.replicate bits.length false) := by
  induction bits generalizing crc with
  | nil => simp [top]
  | cons b bits ih =>
    have hle : bits.length ≤ n := Nat.le_of_succ_le hlen
    have hmsb : (top (b :: bits) : BitVec n).msb = b := by
      rw [BitVec.msb_eq_getMsbD_zero, getMsbD_top hlen]
      rfl
    have hshift : (top (b :: bits) : BitVec n) <<< 1 = top bits := by
      refine BitVec.eq_of_getMsbD_eq fun i _ => ?_
      rw [BitVec.getMsbD_shiftLeft, getMsbD_top hlen, getMsbD_top hle, List.getD_cons_succ]
    have hstep : shift poly (crc ^^^ top (b :: bits)) false = shift poly crc b ^^^ top bits := by
      rw [shift, BitVec.msb_xor, hmsb, Bool.xor_false, BitVec.shiftLeft_xor_distrib, hshift, shift]
      ac_rfl
    rw [register_cons, ih _ hle, List.length_cons, List.replicate_succ, register_cons, hstep]

/-- What does not reach the top of the register only moves up. -/
theorem register_zeros_of_small (poly : BitVec n) {crc : BitVec n} {k : ℕ}
    (h : ∀ i < k, crc.getMsbD i = false) :
    register poly crc (List.replicate k false) = crc <<< k := by
  induction k generalizing crc with
  | zero => simp
  | succ k ih =>
    have hmsb : crc.msb = false := by
      rw [BitVec.msb_eq_getMsbD_zero]
      exact h 0 (by omega)
    have hstep : shift poly crc false = crc <<< 1 := by simp [shift, hmsb]
    rw [List.replicate_succ, register_cons, hstep, ih, ← BitVec.shiftLeft_add, Nat.add_comm]
    intro i hi
    rw [BitVec.getMsbD_shiftLeft]
    exact h (i + 1) (by omega)

/-- Two strings of one length that differ in their last bits only, at most as many as the register
has, take it to different words. -/
theorem register_tail (hpoly : poly.getLsbD 0 = true) (crc : BitVec n) {as bs : List Bool}
    (hlen : as.length = bs.length) (hle : as.length ≤ n) (hne : as ≠ bs) :
    register poly crc as ≠ register poly crc bs := by
  intro h
  have hdiff : (diff as bs).length = as.length := by simp [← hlen]
  rw [register_eq_iff _ hlen, register_top _ _ (by omega), BitVec.zero_xor] at h
  have htop : (top (diff as bs) : BitVec n) = 0#n := register_zeros_eq_zero hpoly h
  refine hne (List.ext_getElem hlen fun i ha hb => ?_)
  have hi : (top (diff as bs) : BitVec n).getMsbD i = false := by rw [htop, BitVec.getMsbD_zero]
  rw [getMsbD_top (by omega), List.getD_eq_getElem _ _ (by omega), List.getElem_zipWith] at hi
  simpa using hi

/-- A difference within as many bits as the register has is not lost. -/
theorem register_burst (hpoly : poly.getLsbD 0 = true) (crc : BitVec n) {as bs : List Bool}
    (hlen : as.length = bs.length) (hb : Burst n as bs) (hne : as ≠ bs) :
    register poly crc as ≠ register poly crc bs := by
  obtain ⟨k, hk⟩ := hb
  have hp : as.take k = bs.take k := by
    refine List.ext_getElem? fun i => ?_
    rw [List.getElem?_take, List.getElem?_take]
    split_ifs with hi
    · by_contra hd
      have := hk i hd
      omega
    · rfl
  have hs : (as.drop k).drop n = (bs.drop k).drop n := by
    refine List.ext_getElem? fun i => ?_
    rw [List.getElem?_drop, List.getElem?_drop, List.getElem?_drop, List.getElem?_drop]
    by_contra hd
    have := hk _ hd
    omega
  intro h
  rw [← List.take_append_drop k as, ← List.take_append_drop k bs,
    ← List.take_append_drop n (as.drop k), ← List.take_append_drop n (bs.drop k), hp, hs,
    register_append, register_append, register_append, register_append] at h
  refine register_tail hpoly _ (by simp [hlen]) (by simp) ?_ (register_injective hpoly _ h)
  intro hm
  apply hne
  rw [← List.take_append_drop k as, ← List.take_append_drop k bs,
    ← List.take_append_drop n (as.drop k), ← List.take_append_drop n (bs.drop k), hp, hs, hm]

/-! ## The bits of a word -/

theorem wordBits_xor (x y : BitVec n) : wordBits (x ^^^ y) = diff (wordBits x) (wordBits y) := by
  refine List.ext_getElem (by simp) fun i h1 h2 => ?_
  simp [wordBits]

theorem wordBits_injective {x y : BitVec n} (h : wordBits x = wordBits y) : x = y := by
  refine BitVec.eq_of_getMsbD_eq fun i hi => ?_
  exact congrFun (List.ofFn_injective h) ⟨i, hi⟩

theorem wordBits_shiftLeft (crc : BitVec (n + 1)) :
    ∃ bits, wordBits crc = crc.msb :: bits ∧ wordBits (crc <<< 1) = bits ++ [false] := by
  refine ⟨List.ofFn fun i : Fin n => crc.getMsbD (i + 1), ?_, ?_⟩
  · rw [wordBits, List.ofFn_succ, BitVec.msb_eq_getMsbD_zero]
    rfl
  · rw [wordBits, List.ofFn_succ', List.concat_eq_append]
    simp

end ShiftRegister
