import OtaFix.Sha256
import OtaFix.Settings

/-!
# Image policy

What the bootloader asks of an image before it commits one:
`dfuImagePolicyValidate` (`dfu_image_policy.c`) with the manifest scan of
`bootloader_image.c`, and `otaDeltaLiveAppFitsBelow`, which bounds the live
application by its hash-bound `EndF` trailer.
-/

namespace OtaFix

open Lib

/-! ## Words of an image in memory -/

/-- The 32-bit word at offset `o` of a byte list. -/
def wordAt (d : List Byte) (o : Nat) : Nat :=
  get32 (d.getD o 0) (d.getD (o + 1) 0) (d.getD (o + 2) 0) (d.getD (o + 3) 0)

def halfAt (d : List Byte) (o : Nat) : BitVec 16 := d.getD (o + 1) 0 ++ d.getD o 0

theorem wordAt_take {l : List Byte} {n o : Nat} (h : o + 4 ≤ n) : wordAt (l.take n) o = wordAt l o := by
  unfold wordAt
  simp only [List.getD_eq_getElem?_getD]
  rw [List.getElem?_take_of_lt (by omega), List.getElem?_take_of_lt (by omega),
    List.getElem?_take_of_lt (by omega), List.getElem?_take_of_lt (by omega)]

theorem halfAt_take {l : List Byte} {n o : Nat} (h : o + 2 ≤ n) :
    halfAt (l.take n) o = halfAt l o := by
  unfold halfAt
  simp only [List.getD_eq_getElem?_getD]
  rw [List.getElem?_take_of_lt (by omega), List.getElem?_take_of_lt (by omega)]

theorem wordAt_slice {m : Mem} {a n o : Nat} (h : o + 4 ≤ n) :
    wordAt (slice m a n) o = readWord m (a + o) := by
  unfold wordAt readWord
  rw [slice_getD_add (by omega), slice_getD_add (by omega), slice_getD_add (by omega),
    slice_getD_add (by omega)]
  rfl

theorem readHalf_slice {m : Mem} {a n o : Nat} (h : o + 2 ≤ n) :
    halfAt (slice m a n) o = readHalf m (a + o) := by
  unfold halfAt readHalf
  rw [slice_getD_add (by omega), slice_getD_add (by omega)]
  rfl

/-- What a build fixes: the board id, the device name, the SoftDevice family and
whether it is a recovery bridge. -/
structure Board where
  boardId : Nat
  deviceName : List Byte
  deviceName_length : deviceName.length = 16
  softdeviceFamily : Nat
  recoveryAllowAllBoards : Bool

/-! ## `bootloader_image.c` -/

/-- The image's CRC-32 with its four CRC bytes read as zero. -/
def bootloaderImageCrc32 (image : List Byte) (crcOffset : Nat) : BitVec 32 :=
  if image.length ≤ crcOffset ∨ 2 ^ 32 - 1 - 4 < crcOffset then crc32 image
  else
    let masked := min (image.length - crcOffset) 4
    let crc := otafixCrc32Update 0 (image.take crcOffset)
    let crc := otafixCrc32Update crc (List.replicate masked 0)
    otafixCrc32Update crc (image.drop (crcOffset + masked))

def bootloaderImageVectorsValid (image : List Byte) (codeStart codeSize : Nat) : Bool :=
  if image.length < 8 ∨ codeSize < 8 ∨ 2 ^ 32 - 1 - codeSize < codeStart then false
  else
    let sp := wordAt image 0
    let reset := wordAt image 4
    let resetAddr := reset - reset % 2
    sp % 8 = 0 && ramStart ≤ sp && sp ≤ 0x20040000 && reset % 2 = 1 && codeStart ≤ resetAddr &&
      resetAddr < codeStart + codeSize

def manifestSize : Nat := 44

def envelopeSize : Nat := 76

def manifestMagic : List Byte := [0x42, 0x4C, 0x4D, 0x46, 0x43, 0x52, 0x43, 0x31]

/-- In a bridge the identity is opaque, but not blank. -/
def recoveryIdentityValid (manifest : List Byte) : Bool :=
  let first := manifest.getD 24 0
  wordAt manifest 20 ≠ 0 && wordAt manifest 20 ≠ 0xFFFFFFFF && 0x21 ≤ first.toNat &&
    first.toNat ≤ 0x7E && manifest.getD 39 0 = 0

/-- A manifest of this image, at `offset`. -/
def manifestMatches (board : Board) (allowOtherBoards : Bool) (image : List Byte)
    (imageStart offset : Nat) : Bool :=
  let manifest := (image.drop offset).take manifestSize
  manifest.take 8 = manifestMagic && halfAt manifest 8 = 1 && halfAt manifest 10 = 44 &&
    wordAt manifest 12 = imageStart && wordAt manifest 16 = image.length &&
    (if board.recoveryAllowAllBoards && allowOtherBoards then recoveryIdentityValid manifest
      else wordAt manifest 20 = board.boardId && (manifest.drop 24).take 16 = board.deviceName) &&
    bootloaderImageCrc32 image (offset + 40) = BitVec.ofNat 32 (wordAt manifest 40)

/-- The one aligned manifest of the image, if there is exactly one. -/
def bootloaderManifestFind (board : Board) (allowOtherBoards : Bool) (image : List Byte)
    (imageStart : Nat) : Option Nat :=
  if image.length < manifestSize ∨ 2 ^ 32 - 1 - imageStart < image.length then none
  else if !bootloaderImageVectorsValid image imageStart image.length then none
  else
    let offsets := ((List.range (image.length / 4 + 1)).map (4 * ·)).filter fun o =>
      o + manifestSize ≤ image.length && manifestMatches board allowOtherBoards image imageStart o
    match offsets with
    | [o] => some o
    | _ => none

/-- `bootloader_image_info_t`. -/
structure ImageInfo where
  bootVersion : Nat
  softdeviceFamily : Nat
  softdeviceFwid : Nat
  appBase : Nat
  layoutAbi : Nat
  deriving DecidableEq, Repr

inductive ImageFormat where
  | invalid
  | legacy
  | v2 (info : ImageInfo)
  deriving DecidableEq, Repr

/-- `bootloader_update_extension_t` of a final BLMF+BLM2 envelope. -/
def bootloaderExtensionValidate (e : List Byte) : Option ImageInfo :=
  let version := wordAt e 12
  let info : ImageInfo :=
    ⟨version, (halfAt e 16).toNat, (halfAt e 18).toNat, wordAt e 20, (halfAt e 24).toNat⟩
  if wordAt e 0 = 0x324D4C42 && wordAt e 4 = 0x54464F53 && halfAt e 8 = 2 && halfAt e 10 = 32 &&
      version ≠ 0xFFFFFFFF && version % 256 ≠ 0 && info.softdeviceFamily ≠ 0 &&
      info.softdeviceFwid ≠ 0 && info.appBase ≠ 0 && info.layoutAbi ≠ 0 && halfAt e 26 = 0 &&
      wordAt e 28 = 0 then some info
  else none

def bootloaderImageClassify (board : Board) (allowOtherBoards : Bool) (image : List Byte)
    (imageStart : Nat) : ImageFormat :=
  match bootloaderManifestFind board allowOtherBoards image imageStart with
  | none => .invalid
  | some o =>
    if image.length < envelopeSize ∨ o ≠ image.length - envelopeSize then .legacy
    else
      match bootloaderExtensionValidate ((image.drop (o + manifestSize)).take 32) with
      | none => .invalid
      | some info => .v2 info

/-! ## `dfu_image_policy.c` -/

def dfuUpdateSd : Nat := 1

def dfuUpdateBl : Nat := 2

def dfuUpdateApp : Nat := 4

/-- `dfu_start_packet_t`. -/
structure StartPacket where
  dfuUpdateMode : Nat
  sdImageSize : Nat := 0
  blImageSize : Nat := 0
  appImageSize : Nat := 0
  deriving DecidableEq, Repr

inductive NrfError where
  | success
  | invalidData
  | notSupported
  | dataSize
  | invalidLength
  | invalidState
  | noMem
  | internal
  | forbidden
  | other
  deriving DecidableEq, Repr

/-- The component bits a START packet really carries. -/
def StartPacket.populatedMode (p : StartPacket) : Nat :=
  (if p.sdImageSize ≠ 0 then dfuUpdateSd else 0) + (if p.blImageSize ≠ 0 then dfuUpdateBl else 0) +
    (if p.appImageSize ≠ 0 then dfuUpdateApp else 0)

/-- The declared size of an admissible START packet. -/
def dfuStartPacketValidate (p : StartPacket) : Except NrfError Nat :=
  if p.populatedMode = 0 ∨ dfuUpdateApp < p.populatedMode ∨ p.dfuUpdateMode ≠ p.populatedMode ∨
      p.sdImageSize % 4 ≠ 0 ∨ p.blImageSize % 4 ≠ 0 ∨ p.appImageSize % 4 ≠ 0 then
    .error .notSupported
  else if dfuBlImageMaxSize < p.blImageSize ∨ 2 ^ 32 ≤ p.sdImageSize + p.blImageSize ∨
      2 ^ 32 ≤ p.sdImageSize + p.blImageSize + p.appImageSize then .error .dataSize
  else .ok (p.sdImageSize + p.blImageSize + p.appImageSize)

def sdFwidAddr : Nat := 0x300C

def runtimeSoftdeviceFwid (m : Mem) : Nat :=
  if isSdExisted m then (readHalf m sdFwidAddr).toNat else 0

/-- `softdevice_image_info_t`. -/
structure SdInfo where
  fwid : Nat
  appBase : Nat
  deriving DecidableEq, Repr

def softdeviceInfo (board : Board) (image : List Byte) : Option SdInfo :=
  if image.length < 0x2018 + 20 ∨ (image.getD 0x2000 0).toNat ≤ 0x10 ∨
      wordAt image 0x2004 ≠ sdMagicNumber then none
  else
    let info : SdInfo := ⟨(halfAt image 0x200C).toNat, wordAt image 0x2008⟩
    if wordAt image 0x2010 ≠ board.softdeviceFamily ∨ info.fwid = 0 ∨ info.fwid = 0xFFFF ∨
        info.appBase ≤ mbrSize ∨ bootloaderRegionStart ≤ info.appBase ∨
        info.appBase % codePageSize ≠ 0 ∨ info.appBase - mbrSize < image.length then none
    else if bootloaderImageVectorsValid image mbrSize image.length then some info else none

/-- A bootloader image for this board, alone or with the SoftDevice `incomingSd`. -/
def bootloaderInfo (board : Board) (m : Mem) (image : List Byte) (incomingSd : Option SdInfo) :
    Bool :=
  if board.recoveryAllowAllBoards then
    image.length ≤ dfuBlImageMaxSize &&
      bootloaderImageVectorsValid image bootloaderRegionStart image.length
  else if image.length ≠ dfuBlImageMaxSize then false
  else
    match bootloaderImageClassify board board.recoveryAllowAllBoards image bootloaderRegionStart with
    | .invalid => false
    | .v2 candidate =>
      let fwid := (incomingSd.map SdInfo.fwid).getD (runtimeSoftdeviceFwid m)
      let appBase := (incomingSd.map SdInfo.appBase).getD (dfuBank0RegionStart m)
      candidate.softdeviceFamily = board.softdeviceFamily && candidate.softdeviceFwid = fwid &&
        candidate.appBase = appBase && candidate.layoutAbi = 1
    | .legacy =>
      match incomingSd with
      | none => true
      | some sd => sd.fwid = runtimeSoftdeviceFwid m && sd.appBase = dfuBank0RegionStart m

/-- The bytes have the role and the split that START declared. -/
def dfuImagePolicyValidate (board : Board) (m : Mem) (image : List Byte) (p : StartPacket) :
    NrfError :=
  match dfuStartPacketValidate p with
  | .error _ => .invalidData
  | .ok declared =>
    if image.length ≠ declared then .invalidData
    else if p.dfuUpdateMode = dfuUpdateApp then
      if bootloaderImageVectorsValid image (dfuBank0RegionStart m) image.length then .success
      else .invalidData
    else
      let sdRole := p.sdImageSize ≠ 0
      let sd := softdeviceInfo board (image.take p.sdImageSize)
      if sdRole ∧ sd = none then .invalidData
      else if p.dfuUpdateMode = dfuUpdateSd ∧ sd ≠ some ⟨runtimeSoftdeviceFwid m,
          dfuBank0RegionStart m⟩ then .invalidData
      else if p.blImageSize ≠ 0 ∧ !bootloaderInfo board m
          ((image.drop p.sdImageSize).take p.blImageSize) (if sdRole then sd else none) then
        .invalidData
      else .success

/-! ## The live application -/

def endf : List Byte := [0x45, 0x6E, 0x64, 0x46]

def endfLen : Nat := 56

/-- The lowest self-describing `EndF` marker below `appLimit`. -/
def findBodyLen (m : Mem) (appLimit : Nat) : Option Nat :=
  let base := dfuBank0RegionStart m
  if appLimit ≤ base then none
  else (List.range (appLimit - base + 1 - endfLen)).find? fun off =>
    slice m (base + off) 4 = endf && readWord m (base + off + 4) = off

/-- A higher limit does not change what was found. -/
theorem findBodyLen_mono {m : Mem} {limit limit' off : Nat} (hle : limit' ≤ limit)
    (h : findBodyLen m limit' = some off) : findBodyLen m limit = some off := by
  unfold findBodyLen at h ⊢
  simp only at h ⊢
  by_cases hlow : limit' ≤ dfuBank0RegionStart m
  · rw [if_pos hlow] at h
    cases h
  rw [if_neg hlow, List.find?_range_eq_some] at h
  rw [if_neg (by omega), List.find?_range_eq_some]
  obtain ⟨hp, hmem, hfirst⟩ := h
  rw [List.mem_range] at hmem ⊢
  exact ⟨hp, by omega, hfirst⟩

def otaDeltaLiveAppFitsBelow (m : Mem) (limit : Nat) : Bool :=
  let base := dfuBank0RegionStart m
  match findBodyLen m limit with
  | none => false
  | some bodyLen =>
    if limit ≤ add32 base endfLen ∨ bodyLen = 0 ∨ limit - base - endfLen < bodyLen then false
    else if (sha256 (slice m base bodyLen)).take 8 ≠ slice m (base + bodyLen + 8) 8 then false
    else
      -- a CRC-bound record may cover bytes beyond the trailer
      let s := readSettings m
      let crcBound := s.integrityValid && s.bank0 = bankValidApp && s.bank0Size ≠ 0
      !crcBound || (bodyLen + endfLen ≤ s.bank0Size && s.bank0Size ≤ limit - base)

/-- Without a valid record only the application itself is asked. -/
theorem otaDeltaLiveAppFitsBelow_unrecorded {m : Mem} {limit base off : Nat}
    (hbase : dfuBank0RegionStart m = base) (hfound : findBodyLen m limit = some off)
    (hroom : ¬ (limit ≤ add32 base endfLen ∨ off = 0 ∨ limit - base - endfLen < off))
    (hhash : (sha256 (slice m base off)).take 8 = slice m (base + off + 8) 8)
    (hrecord : (readSettings m).bank0 ≠ bankValidApp) :
    otaDeltaLiveAppFitsBelow m limit = true := by
  unfold otaDeltaLiveAppFitsBelow
  rw [hfound, hbase]
  simp only
  rw [if_neg hroom, if_neg (not_not.mpr hhash)]
  simp [hrecord]

end OtaFix
