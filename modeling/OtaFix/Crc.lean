import OtaFix.Word
import Mathlib.Logic.Function.Iterate

/-!
# The two checksums

`otafixCrc32Update` is the reflected IEEE CRC-32 of `crc32.h`, seeded with the
previous finalised value; `crc16Compute` is the CRC-16 of the SDK's `crc16.c`.
Both are byte folds, so a stream may be fed in any split.
-/

namespace OtaFix

/-! ## CRC-32 -/

def crc32Bit (crc : BitVec 32) : BitVec 32 :=
  (crc >>> 1) ^^^ (0xEDB88320#32 &&& (0#32 - (crc &&& 1#32)))

def crc32Byte (crc : BitVec 32) (b : Byte) : BitVec 32 :=
  crc32Bit^[8] (crc ^^^ b.setWidth 32)

def otafixCrc32Update (crc : BitVec 32) (data : List Byte) : BitVec 32 :=
  ~~~(data.foldl crc32Byte (~~~crc))

/-- The CRC-32 of a whole stream. -/
def crc32 (data : List Byte) : BitVec 32 := otafixCrc32Update 0 data

example : crc32 [0x31, 0x32, 0x33, 0x34, 0x35, 0x36, 0x37, 0x38, 0x39] = 0xCBF43926#32 := by
  decide +kernel

@[simp] theorem crc32_nil : crc32 [] = 0 := by decide

theorem otafixCrc32Update_append (crc : BitVec 32) (a b : List Byte) :
    otafixCrc32Update crc (a ++ b) = otafixCrc32Update (otafixCrc32Update crc a) b := by
  simp only [otafixCrc32Update, List.foldl_append, BitVec.not_not]

theorem crc32_append (a b : List Byte) :
    crc32 (a ++ b) = otafixCrc32Update (crc32 a) b := otafixCrc32Update_append 0 a b

/-! ## CRC-16 -/

def crc16Byte (crc : BitVec 16) (b : Byte) : BitVec 16 :=
  let crc := (crc >>> 8) ||| (crc <<< 8)
  let crc := crc ^^^ b.setWidth 16
  let crc := crc ^^^ ((crc &&& 0xFF) >>> 4)
  let crc := crc ^^^ ((crc <<< 8) <<< 4)
  crc ^^^ (((crc &&& 0xFF) <<< 4) <<< 1)

/-- `crc16_compute`; the previous value, when there is one, is the seed. -/
def crc16Compute (data : List Byte) (pCrc : Option (BitVec 16)) : BitVec 16 :=
  data.foldl crc16Byte (pCrc.getD 0xFFFF)

/-- The CRC-16 of a whole stream. -/
def crc16 (data : List Byte) : BitVec 16 := crc16Compute data none

example : crc16 [0x31, 0x32, 0x33, 0x34, 0x35, 0x36, 0x37, 0x38, 0x39] = 0x29B1#16 := by
  decide +kernel

theorem crc16_append (a b : List Byte) : crc16 (a ++ b) = crc16Compute b (some (crc16 a)) := by
  simp [crc16, crc16Compute]

end OtaFix
