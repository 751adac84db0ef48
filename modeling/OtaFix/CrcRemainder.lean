import OtaFix.CrcDetect
import OtaFix.Image
import OtaFix.Lib.CrcPoly

/-!
# The CRC-32 as a polynomial remainder

`otafix_crc32_update` against the polynomial it is named after, and `bootloader_image_crc32`
against the CRC-32 of the image with zeros in its field.
-/

namespace OtaFix

open Lib CrcPoly Polynomial

/-! ## The polynomial -/

theorem crc32Bit_bitStep (c : BitVec 32) : crc32Bit c = bitStep 0xEDB88320 c := by
  rw [crc32Bit_eq]
  unfold bitStep
  cases c.getLsbD 0 with
  | false => exact (BitVec.xor_zero).symm
  | true => exact BitVec.xor_comm _ _

theorem crc32Byte_byteStep : crc32Byte = byteStep (0xEDB88320 : BitVec 32) := by
  funext c b
  unfold crc32Byte byteStep
  congr 1
  funext c
  exact crc32Bit_bitStep c

/-- The generator of IEEE 802.3. -/
noncomputable def ieeePolynomial : (ZMod 2)[X] :=
  X ^ 32 + X ^ 26 + X ^ 23 + X ^ 22 + X ^ 16 + X ^ 12 + X ^ 11 + X ^ 10 + X ^ 8 + X ^ 7 + X ^ 5 +
    X ^ 4 + X ^ 2 + X + 1

/-- 32 ones, which go in front of the message and onto the remainder. -/
noncomputable def ones : (ZMod 2)[X] := ∑ i ∈ Finset.range 32, X ^ i

/-- The reflected CRC-32 of a message: bit `i` of the CRC is the coefficient of `X ^ (31 - i)`. -/
noncomputable def ieeeRemainder (data : List Byte) : (ZMod 2)[X] :=
  (X ^ (8 * data.length) * ones + X ^ 32 * message data) %ₘ ieeePolynomial + ones

theorem generator_ieee : generator (0xEDB88320 : BitVec 32) = ieeePolynomial := by
  ext k
  unfold generator ieeePolynomial
  simp only [coeff_add, coeff_register, coeff_X_pow, coeff_X, coeff_one]
  by_cases hk : k < 33
  · have hsmall : ∀ k < 33, ((if k = 32 then 1 else 0) +
        if k < 32 ∧ (0xEDB88320 : BitVec 32).getLsbD (32 - 1 - k) = true then 1 else 0 : ZMod 2) =
        (if k = 32 then 1 else 0) + (if k = 26 then 1 else 0) + (if k = 23 then 1 else 0) +
        (if k = 22 then 1 else 0) + (if k = 16 then 1 else 0) + (if k = 12 then 1 else 0) +
        (if k = 11 then 1 else 0) + (if k = 10 then 1 else 0) + (if k = 8 then 1 else 0) +
        (if k = 7 then 1 else 0) + (if k = 5 then 1 else 0) + (if k = 4 then 1 else 0) +
        (if k = 2 then 1 else 0) + (if 1 = k then 1 else 0) + if k = 0 then 1 else 0 := by
      decide
    exact hsmall k hk
  · have hout : ∀ n < 33, k ≠ n := by omega
    rw [if_neg (hout 32 (by omega)), if_neg (by omega), if_neg (hout 26 (by omega)),
      if_neg (hout 23 (by omega)), if_neg (hout 22 (by omega)), if_neg (hout 16 (by omega)),
      if_neg (hout 12 (by omega)), if_neg (hout 11 (by omega)), if_neg (hout 10 (by omega)),
      if_neg (hout 8 (by omega)), if_neg (hout 7 (by omega)), if_neg (hout 5 (by omega)),
      if_neg (hout 4 (by omega)), if_neg (hout 2 (by omega)), if_neg (by omega),
      if_neg (hout 0 (by omega))]
    simp

theorem register_ones : register (BitVec.allOnes 32) = ones := by
  ext k
  unfold ones
  rw [coeff_register, finsetSum_coeff]
  simp only [coeff_X_pow, Finset.sum_ite_eq, Finset.mem_range, BitVec.getLsbD_allOnes]
  by_cases hk : k < 32
  · have hlow : 32 - 1 - k < 32 := by omega
    simp [hk, hlow]
  · simp [hk]

theorem register_not (c : BitVec 32) : register (~~~c) = register c + ones := by
  rw [← register_ones, ← register_xor]
  congr 1
  rw [BitVec.xor_comm, BitVec.allOnes_xor]

theorem register_crc32 (data : List Byte) : register (crc32 data) = ieeeRemainder data := by
  have hseed : ~~~(0 : BitVec 32) = BitVec.allOnes 32 := BitVec.not_zero
  unfold crc32 otafixCrc32Update ieeeRemainder
  rw [register_not, crc32Byte_byteStep, register_foldl _ (by decide), generator_ieee, hseed,
    register_ones]

/-! ## The field of an image's CRC -/

/-- The image with zeros in the field at the offset. The end of the field is a `size_t`: a field
that wraps has no bytes. -/
def maskField (image : List Byte) (crcOffset : Nat) : List Byte :=
  image.mapIdx fun i b => if crcOffset ≤ i ∧ i < add32 crcOffset 4 then 0 else b

theorem maskField_out {image : List Byte} {crcOffset : Nat}
    (h : image.length ≤ crcOffset ∨ 2 ^ 32 - 1 - 4 < crcOffset) :
    maskField image crcOffset = image := by
  have hwrap : 2 ^ 32 - 1 - 4 < crcOffset → add32 crcOffset 4 ≤ crcOffset := by
    intro hout
    unfold add32
    omega
  apply List.ext_getElem?
  intro i
  unfold maskField
  rw [List.getElem?_mapIdx]
  by_cases hi : i < image.length
  · rw [List.getElem?_eq_getElem hi, Option.map_some, if_neg]
    rintro ⟨hfirst, hlast⟩
    rcases h with hlen | hout
    · omega
    · have := hwrap hout
      omega
  · rw [List.getElem?_eq_none (by omega)]
    rfl

theorem maskField_in {image : List Byte} {crcOffset : Nat} (hlen : crcOffset < image.length)
    (hout : crcOffset ≤ 2 ^ 32 - 1 - 4) : maskField image crcOffset =
      image.take crcOffset ++ (List.replicate (min (image.length - crcOffset) 4) 0 ++
        image.drop (crcOffset + min (image.length - crcOffset) 4)) := by
  have hend : add32 crcOffset 4 = crcOffset + 4 := add32_eq (by omega)
  have htake : (image.take crcOffset).length = crcOffset := by
    rw [List.length_take]
    omega
  apply List.ext_getElem?
  intro i
  unfold maskField
  rw [List.getElem?_mapIdx, hend]
  by_cases hbefore : i < crcOffset
  · rw [List.getElem?_append_left (by omega), List.getElem?_take_of_lt hbefore,
      List.getElem?_eq_getElem (by omega), Option.map_some, if_neg (by omega)]
  · rw [List.getElem?_append_right (by omega), htake]
    by_cases hfield : i - crcOffset < min (image.length - crcOffset) 4
    · rw [List.getElem?_append_left (by simpa using hfield), List.getElem?_replicate,
        if_pos hfield, List.getElem?_eq_getElem (by omega), Option.map_some, if_pos (by omega)]
    · rw [List.getElem?_append_right (by rw [List.length_replicate]; omega),
        List.length_replicate, List.getElem?_drop, show crcOffset + min (image.length - crcOffset) 4 +
          (i - crcOffset - min (image.length - crcOffset) 4) = i by omega]
      by_cases hi : i < image.length
      · rw [List.getElem?_eq_getElem hi, Option.map_some, if_neg (by omega)]
      · rw [List.getElem?_eq_none (by omega)]
        rfl

theorem bootloaderImageCrc32_mask (image : List Byte) (crcOffset : Nat) :
    bootloaderImageCrc32 image crcOffset = crc32 (maskField image crcOffset) := by
  unfold bootloaderImageCrc32
  by_cases hout : image.length ≤ crcOffset ∨ 2 ^ 32 - 1 - 4 < crcOffset
  · rw [if_pos hout, maskField_out hout]
  · rw [if_neg hout]
    rw [not_or, Nat.not_le, Nat.not_lt] at hout
    rw [maskField_in hout.1 hout.2]
    unfold crc32
    rw [otafixCrc32Update_append, otafixCrc32Update_append]

/-- The CRC-32 of a stream in parts is that of the stream, which is the remainder of the IEEE
polynomial; an image's is that of the image with its field masked. -/
theorem crc32_composes_and_masks :
    (∀ a b, otafixCrc32Update (otafixCrc32Update 0 a) b = otafixCrc32Update 0 (a ++ b)) ∧
    (∀ data crc, crc = otafixCrc32Update 0 data ↔ register crc = ieeeRemainder data) ∧
    ∀ image crcOffset, bootloaderImageCrc32 image crcOffset =
      otafixCrc32Update 0 (maskField image crcOffset) := by
  refine ⟨fun a b => (otafixCrc32Update_append 0 a b).symm, fun data crc => ?_,
    bootloaderImageCrc32_mask⟩
  constructor
  · rintro rfl
    exact register_crc32 data
  · intro h
    apply register_injective
    rw [h]
    exact (register_crc32 data).symm

end OtaFix
