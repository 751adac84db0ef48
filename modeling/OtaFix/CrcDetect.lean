import OtaFix.Crc
import OtaFix.Lib.Checksum

/-!
# What the checksums detect

The CRC-32 tells apart two streams that differ within four consecutive bytes, the
CRC-16 two that differ in one byte. Both steps are injective in the register; four
bytes fill the 32-bit register, and one byte goes into the 16-bit one unmixed.
-/

namespace OtaFix

open Lib

/-! ## CRC-32 -/

def crc32Poly : BitVec 32 := 0xEDB88320#32

/-- The register moves down, and takes the polynomial in for a bit that falls out. -/
theorem getLsbD_crc32Bit (x : BitVec 32) (i : Nat) :
    (crc32Bit x).getLsbD i = (x.getLsbD (i + 1) ^^ (x.getLsbD 0 && crc32Poly.getLsbD i)) := by
  unfold crc32Bit
  rw [BitVec.and_one_eq_setWidth_ofBool_getLsbD, BitVec.getLsbD_xor, BitVec.getLsbD_ushiftRight,
    Nat.add_comm 1 i]
  cases x.getLsbD 0 with
  | false =>
    have hmask : 0xEDB88320#32 &&& (0#32 - (BitVec.ofBool false).setWidth 32) = 0#32 := by decide
    rw [hmask, BitVec.getLsbD_zero, Bool.false_and]
  | true =>
    have hmask : 0xEDB88320#32 &&& (0#32 - (BitVec.ofBool true).setWidth 32) = crc32Poly := by
      decide
    rw [hmask, Bool.true_and]

theorem crc32Bit_eq (c : BitVec 32) :
    crc32Bit c = if c.getLsbD 0 then 0xEDB88320 ^^^ (c >>> 1) else c >>> 1 := by
  unfold crc32Bit
  rw [BitVec.and_one_eq_setWidth_ofBool_getLsbD]
  cases c.getLsbD 0 with
  | false =>
    have hmask : 0xEDB88320#32 &&& (0#32 - (BitVec.ofBool false).setWidth 32) = 0#32 := by decide
    rw [hmask, BitVec.xor_zero]
    rfl
  | true =>
    have hmask : 0xEDB88320#32 &&& (0#32 - (BitVec.ofBool true).setWidth 32) = 0xEDB88320#32 := by
      decide
    rw [hmask, BitVec.xor_comm]
    rfl

theorem crc32Bit_xorHom : XorHom crc32Bit := by
  intro x y
  apply BitVec.eq_of_getLsbD_eq
  intro i _
  rw [BitVec.getLsbD_xor, getLsbD_crc32Bit, getLsbD_crc32Bit, getLsbD_crc32Bit,
    BitVec.getLsbD_xor, BitVec.getLsbD_xor, Bool.and_xor_distrib_right, Bool.xor_assoc,
    Bool.xor_assoc, Bool.xor_left_comm (y.getLsbD (i + 1))]

theorem crc32Bit_injective : Function.Injective crc32Bit := by
  apply crc32Bit_xorHom.injective
  intro x hx
  have hbit : ∀ i, (x.getLsbD (i + 1) ^^ (x.getLsbD 0 && crc32Poly.getLsbD i)) = false := by
    intro i
    rw [← getLsbD_crc32Bit, hx]
    exact BitVec.getLsbD_zero
  -- the polynomial has the top bit, where the register is empty
  have hlow : x.getLsbD 0 = false := by
    have htop := hbit 31
    rwa [BitVec.getLsbD_of_ge x 32 (Nat.le_refl _), show crc32Poly.getLsbD 31 = true by decide,
      Bool.and_true, Bool.false_xor] at htop
  apply BitVec.eq_of_getLsbD_eq
  intro i _
  cases i with
  | zero => exact hlow
  | succ i =>
    have hnext := hbit i
    rw [hlow, Bool.false_and, Bool.xor_false] at hnext
    exact hnext.trans BitVec.getLsbD_zero.symm

/-- What lies above the bits that fall out only moves down. -/
theorem crc32Bit_iterate_shiftLeft {x : BitVec 32} {n : Nat}
    (hhigh : ∀ i, 32 ≤ i + n → x.getLsbD i = false) : crc32Bit^[n] (x <<< n) = x := by
  induction n with
  | zero => exact BitVec.shiftLeft_zero x
  | succ n ih =>
    have hstep : crc32Bit (x <<< (n + 1)) = x <<< n := by
      apply BitVec.eq_of_getLsbD_eq
      intro i hi
      rw [getLsbD_crc32Bit]
      simp only [BitVec.getLsbD_shiftLeft]
      by_cases hlt : i < n
      · simp [hlt]
      · by_cases htop : i + 1 < 32
        · simp [hlt, hi, htop, show i + 1 - (n + 1) = i - n by omega]
        · simp [hlt, hi, htop, hhigh (i - n) (by omega)]
    rw [Function.iterate_succ_apply, hstep]
    exact ih fun i hi => hhigh i (by omega)

/-- Up to four bytes, the first in the low bits. -/
def packed : List Byte → BitVec 32
  | [] => 0
  | b :: d => b.setWidth 32 ^^^ (packed d <<< 8)

theorem getLsbD_packed {d : List Byte} {i : Nat} (hi : 8 * d.length ≤ i) :
    (packed d).getLsbD i = false := by
  induction d generalizing i with
  | nil => exact BitVec.getLsbD_zero
  | cons b d ih =>
    rw [List.length_cons] at hi
    simp only [packed, BitVec.getLsbD_xor, BitVec.getLsbD_setWidth, BitVec.getLsbD_shiftLeft]
    rw [BitVec.getLsbD_of_ge b i (by omega), ih (by omega)]
    simp

/-- A few bytes at once. -/
theorem foldl_crc32Byte {d : List Byte} (hd : d.length ≤ 4) (s : BitVec 32) :
    d.foldl crc32Byte s = crc32Bit^[8 * d.length] (s ^^^ packed d) := by
  induction d generalizing s with
  | nil => exact BitVec.xor_zero.symm
  | cons b d ih =>
    rw [List.length_cons] at hd ⊢
    have hmoves : crc32Bit^[8] (packed d <<< 8) = packed d :=
      crc32Bit_iterate_shiftLeft fun i hi => getLsbD_packed (by omega)
    rw [List.foldl_cons, ih (by omega), Nat.mul_succ, Function.iterate_add_apply, packed,
      ← BitVec.xor_assoc, crc32Bit_xorHom.iterate 8, hmoves]
    rfl

theorem packed_injective {d d' : List Byte} (hd : d.length ≤ 4) (hlen : d.length = d'.length)
    (heq : packed d = packed d') : d = d' := by
  induction d generalizing d' with
  | nil => exact (List.length_eq_zero_iff.mp hlen.symm).symm
  | cons b d ih =>
    cases d' with
    | nil => cases hlen
    | cons b' d' =>
      rw [List.length_cons, List.length_cons] at hlen
      rw [List.length_cons] at hd
      have hbit : ∀ i, i < 32 → (b.getLsbD i ^^ (!decide (i < 8) && (packed d).getLsbD (i - 8))) =
          (b'.getLsbD i ^^ (!decide (i < 8) && (packed d').getLsbD (i - 8))) := by
        intro i hi
        have h := congrArg (fun x : BitVec 32 => x.getLsbD i) heq
        simp only [packed, BitVec.getLsbD_xor, BitVec.getLsbD_setWidth, BitVec.getLsbD_shiftLeft,
          hi, decide_true, Bool.true_and] at h
        exact h
      have hb : b = b' := by
        apply BitVec.eq_of_getLsbD_eq
        intro i hi
        simpa [hi] using hbit i (by omega)
      have hrest : packed d = packed d' := by
        apply BitVec.eq_of_getLsbD_eq
        intro i hi
        by_cases hlow : 8 * d.length ≤ i
        · rw [getLsbD_packed hlow, getLsbD_packed (by omega)]
        · have h := hbit (i + 8) (by omega)
          rw [BitVec.getLsbD_of_ge b (i + 8) (by omega),
            BitVec.getLsbD_of_ge b' (i + 8) (by omega), decide_eq_false (by omega)] at h
          simpa using h
      rw [hb, ih (by omega) (by omega) hrest]

theorem crc32Byte_injective (b : Byte) : Function.Injective (crc32Byte · b) := by
  intro s s' heq
  exact (BitVec.xor_left_inj _).mp (crc32Bit_injective.iterate 8 heq)

theorem crc32Byte_blockInjective : BlockInjective crc32Byte 4 := by
  intro s d d' hd hd' heq
  rw [foldl_crc32Byte (Nat.le_of_eq hd), foldl_crc32Byte (Nat.le_of_eq hd'), hd, hd'] at heq
  apply packed_injective (Nat.le_of_eq hd) (hd.trans hd'.symm)
  exact (BitVec.xor_right_inj _).mp (crc32Bit_injective.iterate _ heq)

/-- A change within four consecutive bytes changes the CRC-32. -/
theorem otafixCrc32Update_ne {d d' : List Byte} (crc : BitVec 32) (h : DiffersWithin 4 d d') :
    otafixCrc32Update crc d ≠ otafixCrc32Update crc d' := by
  intro heq
  exact h.foldl_ne crc32Byte_injective crc32Byte_blockInjective _ (BitVec.not_inj.mp heq)

/-! ## CRC-16 -/

theorem getLsbD_low (x : BitVec 16) (i : Nat) :
    (x &&& 0xFF).getLsbD i = (decide (i < 8) && x.getLsbD i) := by
  have hmask : (0xFF : BitVec 16) = (BitVec.allOnes 8).setWidth 16 := by decide
  rw [BitVec.getLsbD_and, hmask, BitVec.getLsbD_setWidth, BitVec.getLsbD_allOnes, Bool.and_comm]
  by_cases hi : i < 8
  · simp [hi, show i < 16 by omega]
  · simp [hi]

/-- The three places where `crc16_compute` mixes the register. -/
def crc16Low (x : BitVec 16) : BitVec 16 := (x &&& 0xFF) >>> 4

def crc16High (x : BitVec 16) : BitVec 16 := (x <<< 8) <<< 4

def crc16Mid (x : BitVec 16) : BitVec 16 := ((x &&& 0xFF) <<< 4) <<< 1

def xorWith (g : BitVec 16 → BitVec 16) (x : BitVec 16) : BitVec 16 := x ^^^ g x

theorem getLsbD_crc16Low (x : BitVec 16) (i : Nat) :
    (crc16Low x).getLsbD i = (decide (i < 4) && x.getLsbD (i + 4)) := by
  unfold crc16Low
  rw [BitVec.getLsbD_ushiftRight, getLsbD_low, Nat.add_comm 4 i]
  by_cases hi : i < 4
  · simp [hi, show i + 4 < 8 by omega]
  · simp [hi, show ¬ i + 4 < 8 by omega]

theorem getLsbD_crc16High (x : BitVec 16) (i : Nat) :
    (crc16High x).getLsbD i = (decide (12 ≤ i ∧ i < 16) && x.getLsbD (i - 12)) := by
  unfold crc16High
  simp only [BitVec.getLsbD_shiftLeft]
  by_cases hi : 12 ≤ i ∧ i < 16
  · simp [hi, show ¬ i < 4 by omega, show ¬ i - 4 < 8 by omega, show i - 4 < 16 by omega,
      show i - 4 - 8 = i - 12 by omega]
  · simp [hi]
    omega

theorem getLsbD_crc16Mid (x : BitVec 16) (i : Nat) :
    (crc16Mid x).getLsbD i = (decide (5 ≤ i ∧ i < 13) && x.getLsbD (i - 5)) := by
  unfold crc16Mid
  simp only [BitVec.getLsbD_shiftLeft, getLsbD_low]
  by_cases hi : 5 ≤ i ∧ i < 13
  · simp [hi, show ¬ i < 1 by omega, show ¬ i - 1 < 4 by omega, show i - 1 < 16 by omega,
      show i < 16 by omega, show i - 1 - 4 = i - 5 by omega, show i - 5 < 8 by omega]
  · simp [hi]
    omega

theorem xorHom_of_getLsbD {g : BitVec 16 → BitVec 16} {place : Nat → Bool} {source : Nat → Nat}
    (hg : ∀ x i, (g x).getLsbD i = (place i && x.getLsbD (source i))) : XorHom g := by
  intro x y
  apply BitVec.eq_of_getLsbD_eq
  intro i _
  rw [BitVec.getLsbD_xor, hg, hg, hg, BitVec.getLsbD_xor, Bool.and_xor_distrib_left]

theorem xorWith_injective {g : BitVec 16 → BitVec 16} (hg : XorHom g) {n : Nat}
    (hnil : ∀ x, g^[n] x = 0) : Function.Injective (xorWith g) := hg.xor_injective hnil

theorem crc16Low_injective : Function.Injective (xorWith crc16Low) := by
  refine xorWith_injective (n := 2) (xorHom_of_getLsbD getLsbD_crc16Low) fun x => ?_
  apply BitVec.eq_of_getLsbD_eq
  intro i _
  change (crc16Low (crc16Low x)).getLsbD i = (0#16).getLsbD i
  rw [getLsbD_crc16Low, getLsbD_crc16Low, decide_eq_false (show ¬ i + 4 < 4 by omega),
    Bool.false_and, Bool.and_false, BitVec.getLsbD_zero]

theorem crc16High_injective : Function.Injective (xorWith crc16High) := by
  refine xorWith_injective (n := 2) (xorHom_of_getLsbD getLsbD_crc16High) fun x => ?_
  apply BitVec.eq_of_getLsbD_eq
  intro i _
  change (crc16High (crc16High x)).getLsbD i = (0#16).getLsbD i
  rw [getLsbD_crc16High, getLsbD_crc16High]
  simp
  omega

theorem crc16Mid_injective : Function.Injective (xorWith crc16Mid) := by
  refine xorWith_injective (n := 3) (xorHom_of_getLsbD getLsbD_crc16Mid) fun x => ?_
  apply BitVec.eq_of_getLsbD_eq
  intro i _
  change (crc16Mid (crc16Mid (crc16Mid x))).getLsbD i = (0#16).getLsbD i
  rw [getLsbD_crc16Mid, getLsbD_crc16Mid, getLsbD_crc16Mid]
  simp
  omega

theorem swap_injective :
    Function.Injective fun x : BitVec 16 => (x >>> 8) ||| (x <<< 8) := by
  intro x y heq
  apply BitVec.eq_of_getLsbD_eq
  intro i hi
  by_cases hlow : i < 8
  · have hbit := congrArg (fun z : BitVec 16 => z.getLsbD (i + 8)) heq
    simp only [BitVec.getLsbD_or, BitVec.getLsbD_ushiftRight, BitVec.getLsbD_shiftLeft,
      BitVec.getLsbD_of_ge _ (8 + (i + 8)) (show 16 ≤ 8 + (i + 8) by omega)] at hbit
    simpa [show i + 8 < 16 by omega, show ¬ i + 8 < 8 by omega] using hbit
  · have hbit := congrArg (fun z : BitVec 16 => z.getLsbD (i - 8)) heq
    simp only [BitVec.getLsbD_or, BitVec.getLsbD_ushiftRight, BitVec.getLsbD_shiftLeft,
      show 8 + (i - 8) = i by omega, decide_eq_true (show i - 8 < 8 by omega)] at hbit
    simpa using hbit

/-- One byte goes in unmixed, and the rest of the step is injective. -/
theorem crc16Byte_injective :
    (∀ b, Function.Injective (crc16Byte · b)) ∧ ∀ s, Function.Injective (crc16Byte s) := by
  have hmix : Function.Injective (xorWith crc16Mid ∘ xorWith crc16High ∘ xorWith crc16Low) :=
    crc16Mid_injective.comp (crc16High_injective.comp crc16Low_injective)
  refine ⟨fun b s s' heq => ?_, fun s b b' heq => ?_⟩
  · exact swap_injective ((BitVec.xor_left_inj _).mp (hmix heq))
  · have hwide := (BitVec.xor_right_inj _).mp (hmix heq)
    have hnat := congrArg BitVec.toNat hwide
    rw [BitVec.toNat_setWidth_of_le (by decide), BitVec.toNat_setWidth_of_le (by decide)] at hnat
    exact BitVec.eq_of_toNat_eq hnat

/-- A change of one byte changes the CRC-16. -/
theorem crc16_ne {d d' : List Byte} (h : DiffersWithin 1 d d') : crc16 d ≠ crc16 d' :=
  h.foldl_ne crc16Byte_injective.1 (blockInjective_one crc16Byte_injective.2) _

end OtaFix
