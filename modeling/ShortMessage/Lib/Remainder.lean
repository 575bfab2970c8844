import Mathlib.Algebra.CharP.Two
import Mathlib.Algebra.Field.ZMod
import Mathlib.Algebra.Polynomial.Degree.Domain
import Mathlib.Algebra.Polynomial.Monic
import Mathlib.Algebra.Ring.Parity
import Mathlib.Tactic.LinearCombination
import ShortMessage.Lib.ShiftRegister

/-!
# What a shift register leaves is a remainder

Bits are the coefficients of a polynomial over `ZMod 2`, the one of highest degree first. A register
of `n` bits holds the remainder of its start followed by its input, modulo `X ^ n` plus the
polynomial it adds. At `X = 1` that counts bits modulo two.
-/

namespace ShiftRegister

open Polynomial

variable {n : ℕ} {as bs bits : List Bool}

noncomputable def polynomial : List Bool → (ZMod 2)[X]
  | [] => 0
  | b :: bits => (if b then X ^ bits.length else 0) + polynomial bits

noncomputable def divisor (poly : BitVec n) : (ZMod 2)[X] := X ^ n + polynomial (wordBits poly)

@[simp] theorem polynomial_nil : polynomial [] = 0 := rfl

@[simp] theorem polynomial_cons (b : Bool) (bits : List Bool) :
    polynomial (b :: bits) = (if b then X ^ bits.length else 0) + polynomial bits := rfl

theorem polynomial_append (as bs : List Bool) :
    polynomial (as ++ bs) = X ^ bs.length * polynomial as + polynomial bs := by
  induction as with
  | nil => simp
  | cons a as ih =>
    rw [List.cons_append, polynomial_cons, ih, polynomial_cons, List.length_append]
    split_ifs <;> ring

theorem polynomial_diff (hlen : as.length = bs.length) :
    polynomial (diff as bs) = polynomial as + polynomial bs := by
  induction hlen using sameLength_induction with
  | nil => simp
  | cons a b as bs hlen ih =>
    have hdiff : (diff as bs).length = as.length := by simp [← hlen]
    have htwo : (X ^ as.length + X ^ as.length : (ZMod 2)[X]) = 0 := CharTwo.add_self_eq_zero _
    rw [diff, List.zipWith_cons_cons, polynomial_cons, ← diff, ih, hdiff, polynomial_cons,
      polynomial_cons, ← hlen]
    cases a <;> cases b <;> simp
    · ring
    · ring
    · linear_combination -htwo

theorem degree_polynomial_lt (bits : List Bool) : (polynomial bits).degree < bits.length := by
  induction bits with
  | nil => simp
  | cons b bits ih =>
    have hlt : (bits.length : WithBot ℕ) < (b :: bits).length :=
      WithBot.coe_lt_coe.2 (Nat.lt_succ_self _)
    refine (degree_add_le _ _).trans_lt (max_lt ?_ (ih.trans hlt))
    split_ifs
    · rwa [degree_X_pow]
    · rw [degree_zero]
      exact WithBot.bot_lt_coe _

theorem polynomial_injective (hlen : as.length = bs.length) (h : polynomial as = polynomial bs) :
    as = bs := by
  induction hlen using sameLength_induction with
  | nil => rfl
  | cons a b as bs hlen ih =>
    rw [polynomial_cons, polynomial_cons, ← hlen] at h
    have hcoeff := congrArg (fun p => coeff p as.length) h
    have ha := coeff_eq_zero_of_degree_lt (degree_polynomial_lt as)
    have hb := coeff_eq_zero_of_degree_lt (degree_polynomial_lt bs)
    rw [← hlen] at hb
    simp only [coeff_add, ha, hb, add_zero] at hcoeff
    have hab : a = b := by
      cases a <;> cases b <;> simp at hcoeff ⊢
    subst hab
    rw [ih (add_left_cancel h)]

theorem polynomial_wordBits_zero : polynomial (wordBits 0#n) = 0 := by
  rw [← BitVec.xor_self (x := 0#n), wordBits_xor, polynomial_diff rfl, CharTwo.add_self_eq_zero]

/-! ## Division -/

theorem monic_divisor (poly : BitVec n) : (divisor poly).Monic := by
  have h := degree_polynomial_lt (wordBits poly)
  rw [length_wordBits] at h
  exact monic_X_pow_add h

theorem degree_divisor (poly : BitVec n) : (divisor poly).degree = n := by
  have h := degree_polynomial_lt (wordBits poly)
  rw [length_wordBits] at h
  rw [divisor, degree_add_eq_left_of_degree_lt, degree_X_pow]
  rwa [degree_X_pow]

/-- A remainder is one register only. -/
theorem eq_of_divisor_dvd (poly : BitVec n) {x y : BitVec n}
    (h : divisor poly ∣ polynomial (wordBits x) + polynomial (wordBits y)) : x = y := by
  rw [← polynomial_diff (by simp), ← wordBits_xor] at h
  have hdeg := degree_polynomial_lt (wordBits (x ^^^ y))
  rw [length_wordBits, ← degree_divisor poly] at hdeg
  have h0 : polynomial (wordBits (x ^^^ y)) = 0 := by
    by_contra hne
    exact (monic_divisor poly).not_dvd_of_degree_lt hne hdeg h
  rw [wordBits_xor, polynomial_diff (by simp), CharTwo.add_eq_zero] at h0
  exact wordBits_injective (polynomial_injective (by simp) h0)

theorem polynomial_shiftLeft (crc : BitVec n) :
    polynomial (wordBits (crc <<< 1)) =
      X * polynomial (wordBits crc) + (if crc.msb then X ^ n else 0) := by
  rcases n with _ | n
  · simp [wordBits, BitVec.of_length_zero (x := crc)]
  · obtain ⟨bits, h1, h2⟩ := wordBits_shiftLeft crc
    have hlen : bits.length = n := by simpa [h1] using length_wordBits crc
    have htwo : (X ^ (n + 1) + X ^ (n + 1) : (ZMod 2)[X]) = 0 := CharTwo.add_self_eq_zero _
    rw [h1, h2, polynomial_append, polynomial_cons crc.msb, hlen]
    cases crc.msb
    · simp
    · simp only [List.length_singleton, polynomial_cons, polynomial_nil, if_true,
        Bool.false_eq_true, if_false]
      linear_combination -htwo

theorem divisor_dvd_shift (poly crc : BitVec n) (b : Bool) :
    divisor poly ∣ polynomial (wordBits (shift poly crc b)) +
      (X * polynomial (wordBits crc) + (if b then X ^ n else 0)) := by
  have htwo : (X ^ n + X ^ n : (ZMod 2)[X]) = 0 := CharTwo.add_self_eq_zero _
  have hcrc : X * polynomial (wordBits crc) + X * polynomial (wordBits crc) = 0 :=
    CharTwo.add_self_eq_zero _
  have hsum : polynomial (wordBits (shift poly crc b)) +
      (X * polynomial (wordBits crc) + (if b then X ^ n else 0)) =
      if crc.msb ^^ b then divisor poly else 0 := by
    rw [shift, wordBits_xor, polynomial_diff (by simp), polynomial_shiftLeft, divisor]
    cases crc.msb <;> cases b <;> simp [polynomial_wordBits_zero]
    · linear_combination hcrc
    · linear_combination hcrc
    · linear_combination hcrc
    · linear_combination hcrc + htwo
  rw [hsum]
  split_ifs
  · exact dvd_rfl
  · exact dvd_zero _

/-- The register holds what its start and its input, moved up by the register's width, leave. -/
theorem divisor_dvd_register (poly crc : BitVec n) (bits : List Bool) :
    divisor poly ∣ polynomial (wordBits (register poly crc bits)) +
      (X ^ bits.length * polynomial (wordBits crc) + X ^ n * polynomial bits) := by
  induction bits generalizing crc with
  | nil => simp [CharTwo.add_self_eq_zero]
  | cons b bits ih =>
    have htwo : X ^ bits.length * polynomial (wordBits (shift poly crc b)) +
        X ^ bits.length * polynomial (wordBits (shift poly crc b)) = 0 :=
      CharTwo.add_self_eq_zero _
    have h := dvd_add (ih (shift poly crc b))
      (dvd_mul_of_dvd_right (divisor_dvd_shift poly crc b) (X ^ bits.length))
    convert h using 1
    rw [register_cons, List.length_cons, polynomial_cons]
    split_ifs
    · linear_combination -htwo
    · linear_combination -htwo

/-- Two words and a string: the register that starts with one ends with the other exactly when the
divisor divides their sum. -/
theorem register_eq_iff_dvd (poly crc x : BitVec n) (bits : List Bool) :
    register poly crc bits = x ↔ divisor poly ∣ polynomial (wordBits x) +
      (X ^ bits.length * polynomial (wordBits crc) + X ^ n * polynomial bits) := by
  have h := divisor_dvd_register poly crc bits
  refine ⟨fun he => he ▸ h, fun hx => eq_of_divisor_dvd poly ?_⟩
  have htwo : (X ^ bits.length * polynomial (wordBits crc) + X ^ n * polynomial bits) +
      (X ^ bits.length * polynomial (wordBits crc) + X ^ n * polynomial bits) = 0 :=
    CharTwo.add_self_eq_zero _
  convert dvd_add h hx using 1
  linear_combination -htwo

/-! ## Parity -/

theorem eval_one_polynomial (bits : List Bool) : (polynomial bits).eval 1 = bits.count true := by
  induction bits with
  | nil => simp
  | cons b bits ih =>
    cases b
    · simpa using ih
    · simp [ih, add_comm]

/-- A register that adds an odd number of bits does not lose a difference in an odd number of
bits. -/
theorem register_odd {poly : BitVec n} (hpoly : Odd ((wordBits poly).count true)) (crc : BitVec n)
    (hlen : as.length = bs.length) (hodd : Odd ((diff as bs).count true)) :
    register poly crc as ≠ register poly crc bs := by
  intro h
  rw [register_eq_iff _ hlen, register_eq_iff_dvd] at h
  have h1 := eval_dvd (x := 1) h
  rw [polynomial_wordBits_zero, divisor] at h1
  simp only [eval_add, eval_mul, eval_pow, eval_X, one_pow, one_mul, zero_add, mul_zero,
    eval_one_polynomial, ZMod.natCast_eq_one_iff_odd.2 hpoly, ZMod.natCast_eq_one_iff_odd.2 hodd,
    CharTwo.add_self_eq_zero, zero_dvd_iff] at h1
  exact one_ne_zero h1

end ShiftRegister
