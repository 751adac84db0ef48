import Mathlib.Algebra.CharP.Two
import Mathlib.Algebra.Field.ZMod
import Mathlib.Algebra.Polynomial.OfFn
import Mathlib.RingTheory.AdjoinRoot

/-!
# Reflected CRCs as remainders

A reflected register shifts towards its lowest bit, which stands for the highest coefficient of a
polynomial over the field of two elements. A step then multiplies by `X` modulo the generator, and
the register after a message is the remainder of the message behind the first register.
-/

namespace Lib.CrcPoly

open Polynomial

variable {w : Nat}

/-! ## Registers -/

/-- The polynomial of a register, whose lowest bit is the highest coefficient. -/
noncomputable def register (c : BitVec w) : (ZMod 2)[X] :=
  Polynomial.ofFn w fun i => if c.getLsbD (w - 1 - i) then 1 else 0

theorem coeff_register (c : BitVec w) (k : Nat) :
    (register c).coeff k = if k < w ∧ c.getLsbD (w - 1 - k) = true then 1 else 0 := by
  unfold register
  by_cases hk : k < w
  · rw [Polynomial.ofFn_coeff_eq_val_of_lt _ hk]
    simp only [hk, true_and]
  · rw [Polynomial.ofFn_coeff_eq_zero_of_ge _ (Nat.not_lt.1 hk)]
    simp only [hk, false_and, if_false]

theorem degree_register_lt (c : BitVec w) : (register c).degree < w := Polynomial.ofFn_degree_lt _

theorem register_injective : Function.Injective (register (w := w)) := by
  intro c c' heq
  apply BitVec.eq_of_getLsbD_eq
  intro i hi
  have hcoeff := congrArg (fun p => p.coeff (w - 1 - i)) heq
  simp only [coeff_register] at hcoeff
  rw [show w - 1 - (w - 1 - i) = i by omega] at hcoeff
  have hin : w - 1 - i < w := by omega
  cases hc : c.getLsbD i <;> cases hc' : c'.getLsbD i <;> simp [hin, hc, hc'] at hcoeff ⊢

theorem register_zero : register (0 : BitVec w) = 0 := by
  ext k
  rw [coeff_register]
  simp

theorem register_xor (c c' : BitVec w) : register (c ^^^ c') = register c + register c' := by
  ext k
  rw [coeff_add, coeff_register, coeff_register, coeff_register, BitVec.getLsbD_xor]
  by_cases hk : k < w
  · have htwo : (0 : ZMod 2) = 1 + 1 := by decide
    cases c.getLsbD (w - 1 - k) <;> cases c'.getLsbD (w - 1 - k) <;> simp [hk]
    exact htwo
  · simp [hk]

/-- A shorter register sits at the high coefficients of a longer one. -/
theorem register_setWidth {n : Nat} (b : BitVec n) (h : n ≤ w) :
    register (b.setWidth w) = X ^ (w - n) * register b := by
  ext k
  rw [coeff_X_pow_mul', coeff_register, coeff_register, BitVec.getLsbD_setWidth]
  by_cases hk : w - n ≤ k
  · by_cases hw : k < w
    · rw [if_pos hk, show n - 1 - (k - (w - n)) = w - 1 - k by omega]
      have hin : k - (w - n) < n := by omega
      have hlow : w - 1 - k < w := by omega
      simp only [hw, hin, hlow, decide_true, Bool.true_and]
    · have hout : ¬ k - (w - n) < n := by omega
      simp [hk, hw, hout]
  · have hhigh : b.getLsbD (w - 1 - k) = false := BitVec.getLsbD_of_ge _ _ (by omega)
    simp [hk, hhigh]

/-! ## A step -/

/-- The highest coefficient leaves the register. -/
theorem X_mul_register (c : BitVec w) (hw : 0 < w) :
    X * register c = register (c >>> 1) + if c.getLsbD 0 then X ^ w else 0 := by
  ext k
  rw [coeff_add, coeff_register, BitVec.getLsbD_ushiftRight]
  have hlead : (if c.getLsbD 0 = true then X ^ w else 0 : (ZMod 2)[X]).coeff k =
      if k = w ∧ c.getLsbD 0 = true then 1 else 0 := by
    cases c.getLsbD 0 <;> simp [coeff_X_pow]
  rw [hlead]
  cases k with
  | zero =>
    have hout : c.getLsbD (1 + (w - 1 - 0)) = false := BitVec.getLsbD_of_ge _ _ (by omega)
    rw [mul_coeff_zero, coeff_X_zero, zero_mul, hout]
    simp [show ¬ 0 = w by omega]
  | succ k =>
    rw [coeff_X_mul, coeff_register]
    rcases Nat.lt_trichotomy (k + 1) w with hk | hk | hk
    · rw [show 1 + (w - 1 - (k + 1)) = w - 1 - k by omega]
      simp [hk, show k < w by omega, show ¬ k + 1 = w by omega]
    · rw [show w - 1 - k = 0 by omega]
      simp [← hk]
    · simp [show ¬ k < w by omega, show ¬ k + 1 < w by omega, show ¬ k + 1 = w by omega]

/-- A turn of the register with the feedback `taps`. -/
def bitStep (taps c : BitVec w) : BitVec w := (c >>> 1) ^^^ if c.getLsbD 0 then taps else 0

noncomputable def generator (taps : BitVec w) : (ZMod 2)[X] := X ^ w + register taps

theorem generator_monic (taps : BitVec w) : (generator taps).Monic :=
  monic_X_pow_add (degree_register_lt taps)

theorem degree_generator (taps : BitVec w) : (generator taps).degree = w := by
  unfold generator
  rw [degree_add_eq_left_of_degree_lt, degree_X_pow]
  rw [degree_X_pow]
  exact degree_register_lt taps

theorem register_bitStep (taps c : BitVec w) (hw : 0 < w) : register (bitStep taps c) =
    X * register c + if c.getLsbD 0 then generator taps else 0 := by
  unfold bitStep generator
  rw [register_xor, X_mul_register c hw]
  cases c.getLsbD 0 with
  | false =>
    simp only [Bool.false_eq_true, if_false]
    rw [register_zero, add_zero, add_zero]
  | true =>
    simp only [if_true]
    have htwice : (X : (ZMod 2)[X]) ^ w + X ^ w = 0 := CharTwo.add_self_eq_zero _
    rw [add_assoc, ← add_assoc (X ^ w), htwice, zero_add]

/-! ## A message -/

/-- Modulo the generator. -/
noncomputable abbrev residue (taps : BitVec w) : (ZMod 2)[X] →+* AdjoinRoot (generator taps) :=
  AdjoinRoot.mk (generator taps)

variable {taps : BitVec w}

theorem residue_iterate (c : BitVec w) (hw : 0 < w) (n : Nat) :
    residue taps (register ((bitStep taps)^[n] c)) = residue taps (X ^ n * register c) := by
  have hstep : ∀ c : BitVec w,
      residue taps (register (bitStep taps c)) = residue taps (X * register c) := by
    intro c
    rw [register_bitStep taps c hw, map_add]
    cases c.getLsbD 0 with
    | false => simp
    | true => rw [if_pos rfl, AdjoinRoot.mk_self, add_zero]
  induction n with
  | zero => simp
  | succ n ih =>
    rw [Function.iterate_succ_apply', hstep, map_mul, ih, ← map_mul, ← mul_assoc, pow_succ']

/-- A turn with a byte, which enters at the lowest bits. -/
def byteStep (taps c : BitVec w) (b : BitVec 8) : BitVec w :=
  (bitStep taps)^[8] (c ^^^ b.setWidth w)

/-- The polynomial of a message; the first bit is the highest coefficient. -/
noncomputable def message (d : List (BitVec 8)) : (ZMod 2)[X] :=
  d.foldl (fun p b => X ^ 8 * p + register b) 0

theorem residue_foldl (c : BitVec w) (hw : 8 ≤ w) (d : List (BitVec 8)) :
    residue taps (register (d.foldl (byteStep taps) c)) =
      residue taps (X ^ (8 * d.length) * register c + X ^ w * message d) := by
  induction d using List.reverseRecOn with
  | nil => simp [message]
  | append_singleton d b ih =>
    have hmessage : message (d ++ [b]) = X ^ 8 * message d + register b := by
      simp [message, List.foldl_append]
    have hwidth : (X : (ZMod 2)[X]) ^ w = X ^ 8 * X ^ (w - 8) := by
      rw [← pow_add]
      congr 1
      omega
    rw [List.foldl_append, hmessage, List.length_append]
    simp only [List.foldl_cons, List.foldl_nil, List.length_cons, List.length_nil]
    unfold byteStep at ih ⊢
    rw [residue_iterate _ (by omega), register_xor, register_setWidth b hw, map_mul, map_add, ih,
      ← map_add, ← map_mul, hwidth]
    congr 1
    ring

/-- The register after a message is a remainder. -/
theorem register_foldl (c : BitVec w) (hw : 8 ≤ w) (d : List (BitVec 8)) :
    register (d.foldl (byteStep taps) c) =
      (X ^ (8 * d.length) * register c + X ^ w * message d) %ₘ generator taps := by
  have hself : register (d.foldl (byteStep taps) c) %ₘ generator taps =
      register (d.foldl (byteStep taps) c) := by
    apply (modByMonic_eq_self_iff (generator_monic taps)).2
    rw [degree_generator]
    exact degree_register_lt _
  rw [← hself]
  apply modByMonic_eq_of_dvd_sub (generator_monic taps)
  rw [← AdjoinRoot.mk_eq_mk]
  exact residue_foldl c hw d

end Lib.CrcPoly
