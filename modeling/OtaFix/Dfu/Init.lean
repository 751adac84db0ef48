import OtaFix.Image

/-!
# The init packet

`dfu_init.c`: the init packet is checked before the data of an image is taken,
and the extended part of it (a CRC-16, or the signed length and SHA-256 of a
signed build) against the image afterwards. The digest and the signature check
are the build's own: `digest message` and `verify digest signature`.
-/

namespace OtaFix

open Lib

/-- The build: the board, and for a signed build the digest and the signature check. -/
structure DfuConfig where
  board : Board
  signedFw : Bool
  /-- `tc_sha256` of tinycrypt; `verify` is its check of a signature. -/
  digest : List Byte → List Byte
  verify : List Byte → List Byte → Bool

def adafruitDeviceType : BitVec 16 := 0x0052

def adafruitDevRev : BitVec 16 := 52840

def dfuSoftdeviceAny : BitVec 16 := 0xFFFE

/-- `DFU_INIT_PACKET_EXT_LENGTH_MAX` or `_MIN`. -/
def DfuConfig.extendedLength (cfg : DfuConfig) : Nat := if cfg.signedFw then 104 else 2

/-- The extended part of the packet, when the lengths fit. -/
def initExtended (cfg : DfuConfig) (data : List Byte) : Option (List Byte) :=
  let softdeviceLength := (halfAt data 8).toNat * 2
  let extended := data.drop (10 + softdeviceLength)
  if data.length < 12 then none
  else if (halfAt data 8).toNat = 0 ∨ data.length - 10 < softdeviceLength then none
  else if extended.length < cfg.extendedLength ∨ cfg.extendedLength + 3 < extended.length then none
  else some extended

/-- Some SoftDevice of the packet's list is installed, or any will do. -/
def initSoftdeviceOk (m : Mem) (data : List Byte) : Bool :=
  (List.range (halfAt data 8).toNat).any fun i =>
    halfAt data (10 + i * 2) = dfuSoftdeviceAny || halfAt data (10 + i * 2) = readHalf m sdFwidAddr

/-- The signed part of a packet names ECDSA, verifies and gives the size of START. -/
def initSignatureOk (cfg : DfuConfig) (data extended : List Byte) (imageSize : Nat) : Bool :=
  let message := data.take (data.length - extended.length + 40)
  wordAt extended 0 = 2 && cfg.verify (cfg.digest message) ((extended.drop 40).take 64) &&
    wordAt extended 4 = imageSize

/-- `dfu_init_prevalidate`: the answer and the extended packet it leaves. -/
def dfuInitPrevalidate (cfg : DfuConfig) (m : Mem) (data : List Byte) (imageType imageSize : Nat)
    (old : List Byte) : NrfError × List Byte :=
  match initExtended cfg data with
  | none => (.invalidLength, old)
  | some extended =>
    if halfAt data 0 ≠ adafruitDeviceType then (.forbidden, extended)
    else if (imageType.testBit 0 || imageType.testBit 1) ∧ halfAt data 2 ≠ adafruitDevRev then
      (.forbidden, extended)
    else if !initSoftdeviceOk m data then (.invalidData, extended)
    else if cfg.signedFw ∧ !initSignatureOk cfg data extended imageSize then
      (.invalidData, extended)
    else (.success, extended)

/-- `dfu_init_postvalidate`: the CRC of an image that matches the extended packet. -/
def dfuInitPostvalidate (cfg : DfuConfig) (image extended : List Byte) : Option (BitVec 16) :=
  if cfg.signedFw then
    if image.length = wordAt extended 4 ∧ cfg.digest image = (extended.drop 8).take 32 then
      some (crc16 image)
    else none
  else if crc16 image = halfAt extended 0 then some (crc16 image) else none

end OtaFix
