import OtaFix.Mota.Cache

/-!
# Applying an update

`apply_bootloader_update` with the identity and capability checks of a bootloader
image, `apply_full_external`, and `ota_delta_check_and_apply`, which the bootloader
calls once at every boot.
-/

namespace OtaFix.Mota

open Lib

/-! ## The identity of a bootloader image -/

/-- The bytes of an ASCII text. -/
def ascii (s : String) : List Byte := s.toList.map fun c => BitVec.ofNat 8 c.toNat

/-- `BOOT_ID_DIGIT`: a hexadecimal digit of the board id. -/
def bootIdDigit (boardId shift : Nat) : Byte :=
  let nibble := boardId / 2 ^ shift % 16
  BitVec.ofNat 8 (if nibble < 10 then 0x30 + nibble else 0x41 + nibble - 10)

/-- The 32 identity bytes of a board outside the XIAO profile. -/
def bootUpdateIdentity (cfg : Profile) : List Byte :=
  ascii "NRF_BL_" ++ [28, 24, 20, 16, 12, 8, 4, 0].map (bootIdDigit cfg.board.boardId) ++
    ascii "_" ++ cfg.deviceName ++ List.replicate (16 - cfg.deviceName.length) 0

/-- `boot_update_expected_identity`: the target id and the hardware id. -/
def bootUpdateExpectedIdentity (cfg : Profile) : Option (Nat × List Byte) :=
  let boardId := cfg.board.boardId
  if cfg.qspiXiaoIdentity then
    let hwId := if boardId % 2 ^ 16 = 0x44 then ascii "XIAO_BL_28860044"
      else ascii "XIAO_BL_28860045"
    some (boardId, hwId ++ List.replicate 16 0)
  else if boardId = 0 ∨ boardId = 2 ^ 32 - 1 ∨ cfg.deviceName.length = 0 ∨
      15 < cfg.deviceName.length then none
  else if cfg.deviceName.any fun ch => ch.toNat < 0x21 || 0x7E < ch.toNat then none
  else
    let targetId := wordAt (sha256 (bootUpdateIdentity cfg)) 0
    if targetId = 0 ∨ targetId = 2 ^ 32 - 1 then none
    else some (targetId, bootUpdateIdentity cfg)

/-- `BOOT_UPDATE_BLOCK_COUNT`. -/
def bootUpdateBlockCount : Nat := 40

/-- `BOOT_UPDATE_PACKAGE_SIZE`. -/
def bootUpdatePackageSize : Nat :=
  motaHeaderLen + bootUpdateBlockCount * 4 + motaBlSize + motaTrailer.length

def bootUpdatePolicyValid (cfg : Profile) (m : MotaMin) : Bool :=
  match bootUpdateExpectedIdentity cfg with
  | none => false
  | some (targetId, hwId) =>
    m.formatVer = 3 && m.flags = mflagFull + mflagSigned + mflagBootloader && m.hashAlgo = 0x12 &&
      m.isFull && m.codecId = codecFull && m.targetId = targetId && m.fwVersion ≠ 0 &&
      m.hwId = hwId && m.baseHash = List.replicate 8 0 && m.blockSizeLog2 = 10 &&
      m.blockCount = bootUpdateBlockCount && m.imageSize = motaBlSize &&
      m.payloadSize = motaBlSize

def bootVectorsValid (cfg : Profile) (vectors : List Byte) : Bool :=
  bootloaderImageVectorsValid vectors motaBlStart motaBlSize &&
    (!cfg.ramArena || wordAt vectors 0 ≤ hybridArenaStart)

/-! ## Capability markers -/

def storageSd : Nat := 0x01

def storageBootUpdate : Nat := 0x08

/-- `MOTA_BL_STORAGE_KNOWN`. -/
def storageKnown : Nat := 0x1F

/-- `MOTA_BOOT_UPDATE_STORAGE_FLAGS`. -/
def bootUpdateStorageFlags (cfg : Profile) : Nat :=
  if cfg.rakSdStore then 0x0A
  else if cfg.sdBootloaderUpdate then 0x09
  else if cfg.qspiBootloaderUpdate then (if cfg.rakAutoStore then 0x16 else 0x0E)
  else 0x0A

/-- `g_mota_ram_info`. -/
def motaRamInfo : List Byte := ascii "MOTARAMA" ++ put16 1 ++ put16 72 ++ put32 hybridArenaSize

/-- `g_mota_ram_capabilities.app`. -/
def motaAppStorage (cfg : Profile) : List Byte :=
  ascii "MOTASTOR" ++ put16 1 ++ put16 16 ++ [if cfg.sdDualStore then 0x02 else 0x14, 0, 0, 0]

/-- Markers found so far: boot update, SD, RAM. -/
structure Caps where
  boot : Nat := 0
  sd : Nat := 0
  ram : Nat := 0
  deriving DecidableEq, Repr

/-- The SD marker at a candidate; `none` for a second or a foreign one. -/
def capsSd (c : List Byte) (n : Caps) : Option Caps :=
  let abi := (halfAt c 8).toNat
  let flags := (c.getD 12 0).toNat
  if (c.drop 4).take 4 = ascii "SDRA" ∧ 1 ≤ abi ∧ abi ≠ 0xFFFF ∧ halfAt c 10 = 72 ∧
      flags = storageSd ∧ c.getD 14 0 = 0 ∧ c.getD 15 0 = 0 then
    if 0 < n.sd ∨ abi ≠ 1 ∨ (c.getD 13 0).toNat ≠ stageSd then none
    else some { n with sd := n.sd + 1 }
  else some n

def capsRam (cfg : Profile) (c : List Byte) (n : Caps) : Option Caps :=
  if c.take 16 = motaRamInfo then
    if 0 < n.ram ∨ ((cfg.rakAutoStore ∨ cfg.sdDualStore) ∧
        (c.drop 16).take 16 ≠ motaAppStorage cfg) then none
    else some { n with ram := n.ram + 1 }
  else some n

def capsBoot (cfg : Profile) (c : List Byte) (n : Caps) : Option Caps :=
  let applyAbi := (halfAt c 8).toNat
  let codecMask := (halfAt c 10).toNat
  let storage := (c.getD 12 0).toNat
  if c.take 8 = ascii "MOTABLDR" ∧ 3 ≤ applyAbi ∧ applyAbi ≠ 0xFFFF ∧ codecMask &&& 5 = 5 ∧
      storage &&& storageBootUpdate ≠ 0 ∧ storage ≤ storageKnown ∧
      (c.drop 13).take 3 = [0, 0, 0] then
    if 0 < n.boot ∨ storage ≠ bootUpdateStorageFlags cfg then none
    else some { n with boot := n.boot + 1 }
  else some n

/-- One aligned candidate of the scan. -/
def capsStep (cfg : Profile) (image : List Byte) (n : Caps) (k : Nat) : Option Caps :=
  let c := image.drop (4 * k)
  if cfg.rakSdStore ∧ c.take 4 ≠ ascii "MOTA" then some n
  else do
    let n ← if cfg.rakSdStore then capsSd c n else some n
    let n ← if cfg.ramArena then capsRam cfg c n else some n
    capsBoot cfg c n

/-- `boot_image_caps_valid`: exactly one marker of each kind the build has. -/
def bootImageCapsValid (cfg : Profile) (image : List Byte) : Bool :=
  match (List.range (motaBlSize / 4 - 3)).foldlM (capsStep cfg image) {} with
  | none => false
  | some n => n.boot = 1 && (!cfg.rakSdStore || n.sd = 1) && (!cfg.ramArena || n.ram = 1)

/-- What `boot_image_metadata_valid_at` asks of the image it reads. -/
def bootImageMetadataValid (cfg : Profile) (mem : Mem) (image : List Byte) (m : MotaMin) : Bool :=
  match bootloaderImageClassify cfg.board false image motaBlStart,
    bootloaderExtensionValidate cfg.extension with
  | .v2 candidate, some installed =>
    bootImageCapsValid cfg image && candidate.softdeviceFamily = installed.softdeviceFamily &&
      candidate.softdeviceFwid = installed.softdeviceFwid &&
      candidate.appBase = installed.appBase && candidate.layoutAbi = installed.layoutAbi &&
      candidate.softdeviceFamily = cfg.board.softdeviceFamily &&
      candidate.softdeviceFwid = (readHalf mem sdFwidAddr).toNat &&
      candidate.appBase = dfuBank0RegionStart mem && candidate.layoutAbi = 1 &&
      candidate.bootVersion = m.fwVersion
  | _, _ => false

/-- `boot_image_metadata_valid_at`, on the flash it reads. -/
def bootImageMetadataValidAt (cfg : Profile) (mem : Mem) (address : Nat) (m : MotaMin) : Bool :=
  bootImageMetadataValid cfg mem (slice mem address motaBlSize) m

/-! ## Bootloader update -/

/-- `MOTASDBL`. -/
def sdBootTokenMagic : List Byte := ascii "MOTASDBL"

/-- `mota_sd_boot_token_valid`. -/
def motaSdBootTokenValid (token : List Byte) (total : Nat) (imageHash : List Byte) : Bool :=
  let crc := otafixCrc32Update 0 (token.take 56)
  token.take 8 = sdBootTokenMagic && wordAt token 8 = 1 && wordAt token 12 = 64 &&
    wordAt token 16 = total && BitVec.ofNat 32 (wordAt token 20) = ~~~(BitVec.ofNat 32 total) &&
    (token.drop 24).take 32 = imageHash && crc = BitVec.ofNat 32 (wordAt token 56) &&
    BitVec.ofNat 32 (wordAt token 60) = ~~~crc

/-- `sd_boot_authorization_valid`, on the flash it reads. -/
def sdBootAuthorizationValid (mem : Mem) (m : MotaMin) : Bool :=
  m.total = bootUpdatePackageSize &&
    motaSdBootTokenValid (slice mem motaBlScratchStart 64) m.total m.imageHash

/-- `BOOT_UPDATE_RAW_START`. -/
def bootUpdateRawStart (cfg : Profile) (g : Statics) : Nat :=
  if cfg.sdDualStore || (cfg.rakSdStore && cfg.sdBootloaderUpdate) then
    if g.sdSource then motaBlScratchStart else internalBlSlotStart
  else if cfg.internalBootloaderUpdate then internalBlSlotStart
  else motaBlScratchStart

/-- `GPREGRET2_BL_GATE` and the other results of a bootloader update. -/
def blGate : Nat := 0xC1

def blContainer : Nat := 0xC2

def blPolicy : Nat := 0xC3

def blIntegrity : Nat := 0xC4

def blManifest : Nat := 0xC5

def blApproval : Nat := 0xC6

def blCopy : Nat := 0xC7

def blMbrHandoff : Nat := 0xC8

def blMbrReturned : Nat := 0xC9

def bootUpdateReject (cfg : Profile) (m : MotaMin) (result : Nat) : MotaM Bool := do
  gpregret2Set result
  if m.approved then
    let ok ← clearApproval cfg m
    if !ok then gpregret2Set blApproval
  finishApply cfg false

def scanBootloaderMota (cfg : Profile) (source : Nat) : MotaM (Option (Nat × MotaMin)) := do
  let g ← getStatics
  if cfg.sdBootloaderUpdate && g.sdSource then scanMota cfg cfg.appApplyEnd
  else if cfg.qspiBootloaderUpdate then
    if source ≠ stageQspi then return none
    else
      modifyStatics fun g => { g with qspiSource := true }
      scanMota cfg cfg.appApplyEnd
  else if cfg.internalBootloaderUpdate then
    if source ≠ stageExpanded then return none
    else
      let r ← scanMota cfg internalBlSlotEnd
      return r.filter fun p => p.1 = internalBlSlotStart
  else return none

def stagedVectorsValid (cfg : Profile) (payloadAddr : Nat) : MotaM Bool := do
  let r ← stagedRead cfg payloadAddr 8
  match r with
  | none => return false
  | some vectors => return bootVectorsValid cfg vectors

/-- From the accepted package on: the copy, the checks of the copy, the MBR command. -/
def installBootloader (cfg : Profile) (m : MotaMin) (rawStart : Nat) : MotaM Bool := do
  let cleared ← clearApproval cfg m
  if !cleared then failApply cfg blApproval
  else
    let copied ← copyStagedFullImage cfg m rawStart
    if copied ≠ 0 then failApply cfg blCopy
    else
      let hashed ← fullImageHashValid cfg m rawStart false
      if !hashed then failApply cfg blCopy
      else
        let mem ← flash
        if !bootImageMetadataValidAt cfg mem rawStart m then failApply cfg blManifest
        else
          if cfg.sdBootloaderUpdate then
            let g ← getStatics
            if g.sdSource then
              otaSdDeinit
              if cfg.rakSdStore then modifyStatics fun g => { g with sdActive := false }
          else if cfg.qspiBootloaderUpdate then
            otaQspiDeinit
            modifyStatics fun g => { g with qspiSource := false }
          gpregret2Set blMbrHandoff
          let copies ← mbrCopy rawStart
          if copies then return true
          else
            gpregret2Set blMbrReturned
            return false

/-- The checks of an approved package, up to the clearing of its approval. -/
def checkBootloader (cfg : Profile) (m : MotaMin) : MotaM Bool := do
  let g ← getStatics
  let authorized ← (if cfg.sdBootloaderUpdate && g.sdSource then sdAuthorizedContainerValid cfg
    else pure true)
  if !authorized then bootUpdateReject cfg m blApproval
  else if !bootUpdatePolicyValid cfg m then bootUpdateReject cfg m blPolicy
  else
    let vectors ← stagedVectorsValid cfg m.payloadAddr
    let hashed ← (if vectors then fullImageHashValid cfg m m.payloadAddr true else pure false)
    if !hashed then bootUpdateReject cfg m blIntegrity
    else
      let g ← getStatics
      let rawStart := bootUpdateRawStart cfg g
      let mem ← flash
      if !otaDeltaLiveAppFitsBelow mem rawStart then bootUpdateReject cfg m blPolicy
      else
        let sdRaw := (cfg.sdDualStore || (cfg.rakSdStore && cfg.sdBootloaderUpdate)) && g.sdSource
        if cfg.internalBootloaderUpdate && !sdRaw &&
            !bootImageMetadataValidAt cfg mem m.payloadAddr m then
          bootUpdateReject cfg m blManifest
        else if cfg.sdBootloaderUpdate && g.sdSource && !sdBootAuthorizationValid mem m then
          bootUpdateReject cfg m blApproval
        else installBootloader cfg m rawStart

/-- The search for a package, after its authorization. -/
def scanBootloader (cfg : Profile) (source : Nat) : MotaM Bool := do
  let r ← scanBootloaderMota cfg source
  match r with
  | none => failApply cfg blContainer
  | some (_, m) => if !m.approved then failApply cfg blContainer else checkBootloader cfg m

def applyBootloaderUpdate (cfg : Profile) : MotaM Bool := do
  let source ← gpregret2Get
  gpregretSet 0
  gpregret2Set blGate
  if cfg.sdBootloaderUpdate && cfg.sdOptional then
    modifyStatics fun g => { g with sdSource := source = stageSd }
  let g ← getStatics
  if cfg.sdBootloaderUpdate && g.sdSource then
    let authorized ← sdAuthTake sdAuthPurposeBootloader 3
    if source ≠ stageSd then failApply cfg blContainer
    else if !authorized then failApply cfg blApproval
    else scanBootloader cfg source
  else scanBootloader cfg source

/-! ## Application update -/

/-- `finish_app_update`: only an image that hashes as its manifest says is recorded. -/
def finishAppUpdate (cfg : Profile) (m : MotaMin) : MotaM Bool := do
  let base ← appBase
  let hashed ← fullImageHashValid cfg m base false
  if !hashed then
    gpregret2Set 0xB7
    return false
  else
    let mem ← flash
    let imageCrc := crc16 (slice mem (dfuBank0RegionStart mem) m.imageSize)
    settingsCommit (otahSettings bankValidApp imageCrc m.imageSize)
    gpregret2Set 0xB8
    return true

/-- Make every later reset enter DFU, before the first write to the application. -/
def invalidateApp : MotaM Unit := do
  mark .commit
  settingsCommit (otahSettings bankInvalidApp 0 0)

def applyFullExternal (cfg : Profile) (m : MotaMin) : MotaM Bool := do
  let base ← appBase
  if !m.isFull ∨ m.codecId ≠ codecFull ∨ m.imageSize = 0 ∨ m.payloadSize ≠ m.imageSize ∨
      sub32 cfg.appApplyEnd base < m.imageSize then
    gpregret2Set 0xB3
    return false
  else
    let hashed ← fullImageHashValid cfg m m.payloadAddr true
    if !hashed then
      gpregret2Set 0xBA
      return false
    else
      let cleared ← clearApproval cfg m
      if !cleared then
        gpregret2Set 0xBC
        return false
      else
        invalidateApp
        modifyStatics fun g => { g with cachePage := 0, cacheDirty := false }
        let base ← appBase
        let result ← copyStagedFullImage cfg m base
        if result ≠ 0 then
          gpregret2Set result
          return false
        else finishAppUpdate cfg m

/-- The `reject` label: this container is not applicable. -/
def rejectApply (cfg : Profile) (m : MotaMin) (code : Nat) : MotaM Bool := do
  gpregret2Set code
  let cleared ← clearApproval cfg m
  if !cleared then gpregret2Set 0xBC
  finishApply cfg false

/-- `workspace_span`: what lies below the container, or below the application limit for
an external one. -/
def workspaceSpan (cfg : Profile) (g : Statics) (appLimit motaAddr base : Nat) : Nat :=
  if cfg.sdCard || cfg.qspiFlash then
    sub32 (if cfg.externalStagedSource g then appLimit else motaAddr) base
  else if cfg.internalBootloaderUpdate then sub32 (min motaAddr appLimit) base
  else sub32 motaAddr base

/-- `c.ws_hi`. -/
def workspaceHi (cfg : Profile) (appLimit motaAddr base span : Nat) : Nat :=
  if cfg.sdCard || cfg.qspiFlash then add32 base span
  else if cfg.internalBootloaderUpdate then min motaAddr appLimit
  else motaAddr

/-- The decoder and the checks behind it. -/
def decodeApp (cfg : Profile) (decoder : Nat → Decoder) (m : MotaMin) (wsLo wsHi : Nat) :
    MotaM Bool := do
  let c : ApplyCtx := ⟨m.payloadAddr, m.payloadSize, wsLo, wsHi⟩
  mark (.decode wsLo wsHi)
  let (r, patchPos) ← runDecoder cfg c (decoder m.payloadSize) 0
  if r < 0 then failApply cfg (0x90 ||| ((-r).toNat % 16))
  else
    let flushed ← cacheFlush
    if !flushed then failApply cfg 0xBF
    else if patchPos ≠ c.patchLen then failApply cfg 0x99
    else if r.toNat % 2 ^ 32 ≠ m.imageSize then failApply cfg 0xB6
    else
      let result ← finishAppUpdate cfg m
      finishApply cfg result

/-- The in-place path, from the base check on. -/
def applyInPlace (cfg : Profile) (decoder : Nat → Decoder) (m : MotaMin) (motaAddr appLimit : Nat) :
    MotaM Bool := do
  let base ← appBase
  if m.isFull ∨ m.codecId ≠ codecInplace ∨ m.imageSize = 0 ∨ sub32 appLimit base < m.imageSize then
    rejectApply cfg m 0xB3
  else
    let mem ← flash
    match findBodyLen mem appLimit with
    | none => rejectApply cfg m 0xB4
    | some bodyLen =>
      let hash ← sha256ReadRegion cfg base bodyLen false none
      if (hash.getD []).take 8 ≠ m.baseHash then rejectApply cfg m 0xB5
      else
        let g ← getStatics
        let span := workspaceSpan cfg g appLimit motaAddr base
        let geometry ← dtGeometryOk cfg m bodyLen span
        if !geometry then rejectApply cfg m 0xB9
        else
          let cleared ← clearApproval cfg m
          if !cleared then failApply cfg 0xBC
          else
            invalidateApp
            let base ← appBase
            decodeApp cfg decoder m base (workspaceHi cfg appLimit motaAddr base span)

/-- An approved container of an application. -/
def applyContainer (cfg : Profile) (decoder : Nat → Decoder) (m : MotaMin)
    (motaAddr appLimit : Nat) : MotaM Bool := do
  if m.formatVer ≠ 2 ∨ m.flags / 4 ≠ 0 then rejectApply cfg m 0xB3
  else
    let g ← getStatics
    let authorized ← (if cfg.sdSelected g then sdAuthorizedContainerValid cfg else pure true)
    if !authorized then rejectApply cfg m 0xBD
    else
      let g ← getStatics
      if cfg.externalStagedSource g && m.isFull then
        let result ← applyFullExternal cfg m
        finishApply cfg result
      else applyInPlace cfg decoder m motaAddr appLimit

/-- Whether the handoff selects the NOR. -/
def qspiHandoff (cfg : Profile) (stageHandoff : Nat) : Bool :=
  stageHandoff = stageQspi || (cfg.rakAutoRak4631 && stageHandoff = stageRak15001) ||
    (cfg.rakAutoStore && stageHandoff = stageHeaderW25)

/-- The staging window of the handoff. -/
def stageCeilingOf (cfg : Profile) (stageHandoff : Nat) : Nat :=
  let ceiling := if stageHandoff = stageExpanded ∨ (cfg.ramArena ∧ stageHandoff = stageHybrid) then
      stageCeilingExpanded else stageCeilingLegacy
  if cfg.qspiBootloaderUpdate then min ceiling cfg.appApplyEnd else ceiling

/-- `app_limit`. -/
def appLimitOf (cfg : Profile) (g : Statics) (stageCeiling : Nat) : Nat :=
  if cfg.rakSdStore then if cfg.externalStagedSource g then cfg.appApplyEnd else stageCeiling
  else if cfg.sdCard then cfg.appApplyEnd
  else if cfg.qspiFlash then if g.qspiSource then cfg.appApplyEnd else stageCeiling
  else if cfg.internalBootloaderUpdate then cfg.appApplyEnd
  else stageCeiling

/-- The authorization of the selected source, then its container. -/
def applyApp (cfg : Profile) (decoder : Nat → Decoder) (stageCeiling : Nat) : MotaM Bool := do
  let g ← getStatics
  let appLimit := appLimitOf cfg g stageCeiling
  let taken ← (if cfg.sdSelected g then sdAuthTake sdAuthPurposeApp 2 else pure true)
  if !taken then failApply cfg 0xBD
  else
    let hashed ← (if cfg.hybridSelected g then hybridAuthorizedContainerValid cfg else pure true)
    if !hashed then failApply cfg 0xBA
    else
      let r ← scanMota cfg stageCeiling
      match r with
      | none => failApply cfg 0xB2
      | some (motaAddr, m) =>
        if !m.approved then failApply cfg 0xB2
        else applyContainer cfg decoder m motaAddr appLimit

/-- Select the source by the handoff. -/
def selectSource (cfg : Profile) (stageHandoff : Nat) : MotaM Bool := do
  if cfg.sdOptional then
    modifyStatics fun g => { g with sdSource := stageHandoff = stageSd }
  let taken ← (if cfg.ramArena && stageHandoff = stageHybrid then hybridHandoffTake
    else pure true)
  if !taken then return false
  else
    if cfg.qspiFlash then
      modifyStatics fun g => { g with qspiSource := qspiHandoff cfg stageHandoff }
      if cfg.rakAutoStore && qspiHandoff cfg stageHandoff then otaQspiSetRakSource stageHandoff
    return true

def otaDeltaCheckAndApply (cfg : Profile) (decoder : Nat → Decoder) : MotaM Bool := do
  if cfg.rakSdStore then
    modifyStatics fun g => { g with
      sdSource := false, sdActive := false, sdAuthLoaded := false, qspiSource := false
      qspiTotalSize := 0, hybrid := { g.hybrid with containerTotal := 0 } }
  let trigger ← gpregretGet
  if cfg.bootloaderUpdateEnabled && trigger = bootloaderApply then applyBootloaderUpdate cfg
  else if trigger ≠ otaApply then finishApply cfg false
  else
    let stageHandoff ← gpregret2Get
    gpregretSet 0
    gpregret2Set 0xB1
    let selected ← selectSource cfg stageHandoff
    if !selected then failApply cfg 0xBE
    else applyApp cfg decoder (stageCeilingOf cfg stageHandoff)

end OtaFix.Mota
