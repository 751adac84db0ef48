import OtaFix.Mota.Device

/-!
# Staged containers

The retained records that select a source, reads of the selected source, and the
parser of a `.mota` container: `ota_sd_auth.h`, `ota_hybrid_handoff.h`, and
`staged_read`, `sha256_read_region`, `parse_mota_at`, `scan_mota` and the
detools header check of `ota_delta.c`.
-/

namespace OtaFix.Mota

open Lib Prog

/-! ## Retained records -/

/-- The CRC and its complement close either record. -/
def recordSealed (r : List Byte) : Bool :=
  let crc := otafixCrc32Update 0 (r.take 64)
  crc = BitVec.ofNat 32 (wordAt r 64) && BitVec.ofNat 32 (wordAt r 68) = ~~~crc

/-- `MOTASDA2`. -/
def sdAuthMagic : List Byte := [0x4D, 0x4F, 0x54, 0x41, 0x53, 0x44, 0x41, 0x32]

def sdAuthPurposeApp : Byte := 1

def sdAuthPurposeBootloader : Byte := 2

/-- `mota_sd_auth_valid`. -/
def motaSdAuthValid (r : List Byte) (purpose formatVer : Byte) : Bool :=
  let firstSector := wordAt r 16
  let sectorCount := wordAt r 20
  let containerTotal := wordAt r 24
  let cardSectorCount := wordAt r 28
  r.take 8 = sdAuthMagic && halfAt r 8 = 2 && halfAt r 10 = 72 && r.getD 12 0 = purpose &&
    r.getD 13 0 = formatVer && halfAt r 14 = 0 && firstSector ≠ 0 && sectorCount ≠ 0 &&
    containerTotal ≠ 0 && cardSectorCount ≠ 0 && firstSector < cardSectorCount &&
    sectorCount ≤ cardSectorCount - firstSector &&
    sectorCount = (containerTotal - 1) / 512 + 1 && recordSealed r

def sdAuthOf (r : List Byte) : SdAuth := ⟨wordAt r 16, wordAt r 24, (r.drop 32).take 32⟩

/-- `MOTAHYB1`. -/
def hybridMagic : List Byte := [0x4D, 0x4F, 0x54, 0x41, 0x48, 0x59, 0x42, 0x31]

/-- `mota_hybrid_handoff_valid`. -/
def motaHybridHandoffValid (r : List Byte) : Bool :=
  let containerTotal := wordAt r 16
  let flashLen := wordAt r 24
  let ramLen := wordAt r 28
  r.take 8 = hybridMagic && halfAt r 8 = 1 && halfAt r 10 = 72 && r.getD 12 0 = 1 &&
    r.getD 13 0 = 2 && halfAt r 14 = 0 && flashLen ≠ 0 && ramLen ≠ 0 &&
    ramLen ≤ hybridArenaSize && flashLen ≤ 2 ^ 32 - 1 - ramLen &&
    containerTotal = flashLen + ramLen && recordSealed r

def hybridOf (r : List Byte) : Hybrid :=
  ⟨wordAt r 16, wordAt r 20, wordAt r 24, (r.drop 32).take 32⟩

/-- `MOTA_MIN_LEN`. -/
def motaMinLen : Nat := 8 + 197 + 5

/-- The smallest page-aligned flash prefix that leaves at most one arena in RAM. -/
def hybridRequiredFlashLen (containerTotal : Nat) : Nat :=
  if hybridArenaSize + codePageSize < containerTotal then
    let n := containerTotal - hybridArenaSize + codePageSize - 1
    n - n % codePageSize
  else codePageSize

/-- The checks of `hybrid_handoff_take`, under the application base `base`. -/
def hybridHandoffValid (resetreas base : Nat) (r : List Byte) : Bool :=
  let h := hybridOf r
  resetreas = resetreasSoftware && motaHybridHandoffValid r && h.flashStart % codePageSize = 0 &&
    h.flashLen % codePageSize = 0 && base ≤ h.flashStart &&
    h.flashStart ≤ 2 ^ 32 - 1 - h.flashLen &&
    h.flashStart + h.flashLen = stageCeilingExpanded && motaMinLen ≤ h.containerTotal &&
    h.flashStart ≤ 2 ^ 32 - 1 - h.containerTotal &&
    h.flashLen = hybridRequiredFlashLen h.containerTotal

def modifyStatics (f : Statics → Statics) : MotaM Unit := do
  let g ← getStatics
  setStatics (f g)

/-- `APP_BASE`. -/
def appBase : MotaM Nat := do
  let m ← flash
  return dfuBank0RegionStart m

/-- `hybrid_handoff_take`: the record is consumed before it is checked. -/
def hybridHandoffTake : MotaM Bool := do
  let r ← retainedHandoffTake
  let reason ← resetreasGet
  let base ← appBase
  if hybridHandoffValid reason base r then
    modifyStatics fun g => { g with hybrid := hybridOf r }
    return true
  else
    modifyStatics fun g => { g with hybrid := { hybridOf r with containerTotal := 0 } }
    return false

/-- `sd_auth_take`. -/
def sdAuthTake (purpose formatVer : Byte) : MotaM Bool := do
  let r ← retainedHandoffTake
  let loaded := motaSdAuthValid r purpose formatVer
  modifyStatics fun g => { g with sdAuth := sdAuthOf r, sdAuthLoaded := loaded }
  return loaded

/-! ## Reads of the selected source -/

/-- `hybrid_staged_read`: a flash prefix, then the RAM arena. -/
def hybridStagedRead (h : Hybrid) (address len : Nat) : MotaM (Option (List Byte)) := do
  if h.containerTotal = 0 ∨ address < h.flashStart then return none
  else
    let offset := address - h.flashStart
    if h.containerTotal < offset ∨ h.containerTotal - offset < len then return none
    else if offset < h.flashLen then
      let chunk := min (h.flashLen - offset) len
      let d ← stagedFlashRead address chunk
      if len - chunk = 0 then return some d
      else
        let rest ← hybridRamRead (offset + chunk - h.flashLen) (len - chunk)
        return rest.map (d ++ ·)
    else if len = 0 then return some []
    else hybridRamRead (offset - h.flashLen) len

/-- `staged_read`: only the selected source is read. -/
def stagedRead (cfg : Profile) (a len : Nat) : MotaM (Option (List Byte)) := do
  let g ← getStatics
  if cfg.sdSelected g then
    if g.sdAuth.containerTotal < a ∨ g.sdAuth.containerTotal - a < len then return none
    else otaSdReadBytes g.sdAuth.firstSector a len
  else if cfg.hybridSelected g then hybridStagedRead g.hybrid a len
  else if cfg.qspiSelected g then
    if g.qspiTotalSize < a ∨ g.qspiTotalSize - a < len then return none
    else otaQspiRead a len
  else
    let d ← stagedFlashRead a len
    return some d

/-- `fl_read`. -/
def flRead (a n : Nat) : MotaM (List Byte) := do
  let m ← flash
  return slice m a n

/-- One chunk of a hashed region: staged, or of the live flash. -/
def readRegion (cfg : Profile) (staged : Bool) (a n : Nat) : MotaM (Option (List Byte)) :=
  if staged then stagedRead cfg a n
  else do
    let d ← flRead a n
    return some d

/-- Zero the bytes of `d`, read at `addr`, that lie in the four approval bytes. -/
def normalizeApproval (approvalAt : Option Nat) (addr : Nat) (d : List Byte) : List Byte :=
  match approvalAt with
  | none => d
  | some at' => d.zipIdx.map fun (b, i) => if at' ≤ addr + i ∧ addr + i < at' + 4 then 0 else b

/-- The loop of `sha256_read_region`, in chunks of 256 bytes. -/
def shaChunks (cfg : Profile) (staged : Bool) (approvalAt : Option Nat) :
    Nat → Nat → Nat → Sha256.Ctx → MotaM (Option Sha256.Ctx)
  | 0, _, _, c => return some c
  | fuel + 1, addr, len, c => do
    if len = 0 then return some c
    else
      let n := min len 256
      let r ← readRegion cfg staged addr n
      match r with
      | none => return none
      | some d =>
        shaChunks cfg staged approvalAt fuel (addr + n) (len - n)
          (Sha256.update c (normalizeApproval approvalAt addr d))

def sha256ReadRegion (cfg : Profile) (addr len : Nat) (staged : Bool) (approvalAt : Option Nat) :
    MotaM (Option (List Byte)) := do
  let r ← shaChunks cfg staged approvalAt (len / 256 + 1) addr len Sha256.init
  return r.map Sha256.final

def regionHashValid (cfg : Profile) (addr len : Nat) (expected : List Byte) (staged : Bool)
    (approvalAt : Option Nat) : MotaM Bool := do
  let digest ← sha256ReadRegion cfg addr len staged approvalAt
  return digest = some expected

def fullImageHashValid (cfg : Profile) (m : MotaMin) (addr : Nat) (staged : Bool) : MotaM Bool :=
  regionHashValid cfg addr m.imageSize m.imageHash staged none

/-- Offset of the approval bytes in a container. -/
def approvalOffset : Nat := 201

def sdAuthorizedContainerValid (cfg : Profile) : MotaM Bool := do
  let g ← getStatics
  regionHashValid cfg 0 g.sdAuth.containerTotal g.sdAuth.containerSha256 true (some approvalOffset)

def hybridAuthorizedContainerValid (cfg : Profile) : MotaM Bool := do
  let g ← getStatics
  let h := g.hybrid
  if h.containerTotal < motaMinLen then return false
  else
    regionHashValid cfg h.flashStart h.containerTotal h.containerSha256 true
      (some (h.flashStart + approvalOffset))

/-! ## The container -/

/-- `mOTA`. -/
def motaMagic : List Byte := [0x6D, 0x4F, 0x54, 0x41]

/-- `vk496`. -/
def motaTrailer : List Byte := [0x76, 0x6B, 0x34, 0x39, 0x36]

/-- `APRV`. -/
def motaAprv : List Byte := [0x41, 0x50, 0x52, 0x56]

/-- Size of `mota_fixed_header_t`. -/
def motaHeaderLen : Nat := 8 + 197

def mflagFull : Nat := 1

def mflagSigned : Nat := 2

def mflagBootloader : Nat := 4

def codecFull : Nat := 0

def codecInplace : Nat := 2

/-- The manifest of a container at `addr`, and its checks: the payload must end exactly
at the trailer. -/
def motaManifest (cfg : Profile) (addr total : Nat) (header : List Byte) : Option MotaMin :=
  let formatVer := (header.getD 8 0).toNat
  let flags := (header.getD 9 0).toNat
  let payloadSize := wordAt header 23
  let blockSizeLog2 := (header.getD 27 0).toNat
  if formatVer ≠ 2 ∧ ¬ (cfg.bootloaderUpdateEnabled ∧ formatVer = 3) then none
  else if blockSizeLog2 = 0 ∨ 24 < blockSizeLog2 ∨ payloadSize = 0 then none
  else
    let blockCount := payloadSize / 2 ^ blockSizeLog2 +
      (if payloadSize % 2 ^ blockSizeLog2 ≠ 0 then 1 else 0)
    if blockCount = 0 ∨ 0xFFFF < blockCount then none
    else
      let payloadOffset := motaHeaderLen + blockCount * 4
      let payloadEnd := total - motaTrailer.length
      if payloadEnd < payloadOffset ∨ payloadSize ≠ payloadEnd - payloadOffset then none
      else some {
        isFull := flags &&& mflagFull ≠ 0
        approved := (header.drop approvalOffset).take 4 = motaAprv
        formatVer := formatVer
        flags := flags
        hashAlgo := (header.getD 10 0).toNat
        blockSizeLog2 := blockSizeLog2
        total := total
        imageSize := wordAt header 19
        payloadSize := payloadSize
        payloadAddr := addr + payloadOffset
        approvalAddr := addr + approvalOffset
        targetId := wordAt header 11
        fwVersion := wordAt header 15
        blockCount := blockCount
        imageHash := (header.drop 32).take 32
        codecId := (header.getD 64 0).toNat
        hwId := (header.drop 65).take 32
        baseHash := (header.drop 97).take 8 }

def parseMotaAt (cfg : Profile) (addr limit : Nat) : MotaM (Option MotaMin) := do
  if limit < addr then return none
  else if limit - addr < motaHeaderLen + motaTrailer.length then return none
  else
    let r ← stagedRead cfg addr motaHeaderLen
    match r with
    | none => return none
    | some header =>
      let total := wordAt header 4
      if header.take 4 ≠ motaMagic then return none
      else if total < motaHeaderLen + motaTrailer.length ∨ limit - addr < total then return none
      else
        let t ← stagedRead cfg (addr + total - motaTrailer.length) motaTrailer.length
        if t = some motaTrailer then return motaManifest cfg addr total header else return none

/-- The page walk of `scan_mota`, from page `k - 1` down to the application base. -/
def scanPages (cfg : Profile) (base ceiling : Nat) : Nat → MotaM (Option (Nat × MotaMin))
  | 0 => return none
  | k + 1 => do
    if (k + 1) * codePageSize ≤ base then return none
    else
      let a := k * codePageSize
      let m4 ← stagedFlashRead a 4
      let r ← (if m4 = motaMagic then parseMotaAt cfg a ceiling else pure none)
      match r with
      | none => scanPages cfg base ceiling k
      | some m =>
        let start := ceiling - m.total
        if start - start % codePageSize = a then return some (a, m)
        else scanPages cfg base ceiling k

/-- `scan_mota` on the SD card; the address 1 stands for an external container. -/
def scanSd (cfg : Profile) : MotaM (Option (Nat × MotaMin)) := do
  let g ← getStatics
  if !g.sdAuthLoaded then return none
  else
    if cfg.rakSdStore then modifyStatics fun g => { g with sdActive := true }
    let ready ← otaSdInit
    if !ready then return none
    else
      let r ← parseMotaAt cfg 0 g.sdAuth.containerTotal
      match r with
      | none => return none
      | some m => return if m.total = g.sdAuth.containerTotal then some (1, m) else none

def scanHybrid (cfg : Profile) (h : Hybrid) : MotaM (Option (Nat × MotaMin)) := do
  let r ← parseMotaAt cfg h.flashStart (h.flashStart + h.containerTotal)
  match r with
  | none => return none
  | some m =>
    return if m.total = h.containerTotal ∧ m.approvalAddr ≤ h.flashStart + h.flashLen - 4 then
      some (h.flashStart, m) else none

def scanQspi (cfg : Profile) : MotaM (Option (Nat × MotaMin)) := do
  let ready ← otaQspiInit
  if !ready then return none
  else
    let capacity ← otaQspiCapacity
    if capacity < motaMinLen then return none
    else
      modifyStatics fun g => { g with qspiTotalSize := capacity }
      let r ← parseMotaAt cfg 0 capacity
      match r with
      | none => return none
      | some m =>
        modifyStatics fun g => { g with qspiTotalSize := m.total }
        return some (1, m)

def scanFlash (cfg : Profile) (stageCeiling : Nat) : MotaM (Option (Nat × MotaMin)) := do
  if stageCeiling ≠ stageCeilingLegacy ∧ stageCeiling ≠ stageCeilingExpanded ∧
      ¬ (cfg.qspiBootloaderUpdate ∧ stageCeiling = motaBlScratchStart) then return none
  else
    let base ← appBase
    scanPages cfg base stageCeiling ((stageCeiling - motaMinLen) / codePageSize + 1)

/-- The search of `scan_mota` in the selected source. -/
def scanSource (cfg : Profile) (stageCeiling : Nat) : MotaM (Option (Nat × MotaMin)) := do
  let g ← getStatics
  if cfg.sdSelected g then scanSd cfg
  else if cfg.sdCard && !cfg.sdOptional then return none
  else if cfg.hybridSelected g then scanHybrid cfg g.hybrid
  else if cfg.qspiSelected g then scanQspi cfg
  else scanFlash cfg stageCeiling

def scanMota (cfg : Profile) (stageCeiling : Nat) : MotaM (Option (Nat × MotaMin)) := do
  let r ← scanSource cfg stageCeiling
  match r with
  | none => return none
  | some (a, m) =>
    mark (.parsed a m)
    return some (a, m)

/-! ## The detools header -/

/-- The continuation bytes of a size; at most five carry bits below 32. -/
def dtHeaderLoop (cfg : Profile) (addr len : Nat) :
    Nat → Nat → Nat → Nat → Byte → MotaM (Option (Nat × Nat))
  | 0, _, _, _, _ => return none
  | fuel + 1, pos, v, shift, b => do
    if b.toNat < 0x80 then return if v ≤ 0x7FFFFFFF then some (v, pos) else none
    else if len ≤ pos then return none
    else
      let r ← stagedRead cfg (addr + pos) 1
      match r with
      | none => return none
      | some d =>
        let b := d.getD 0 0
        let bits := b.toNat % 0x80
        if 32 ≤ shift ∨ (2 ^ 32 - 1) / 2 ^ shift < bits then return none
        else dtHeaderLoop cfg addr len fuel (pos + 1) (v ||| bits <<< shift) (shift + 7) b

/-- `dt_header_u32`: the value at `pos` and the position behind it. -/
def dtHeaderU32 (cfg : Profile) (addr len pos : Nat) : MotaM (Option (Nat × Nat)) := do
  if len ≤ pos then return none
  else
    let r ← stagedRead cfg (addr + pos) 1
    match r with
    | none => return none
    | some d =>
      let b := d.getD 0 0
      dtHeaderLoop cfg addr len 7 (pos + 1) (b.toNat % 0x40) 6 b

/-- The `n` sizes from `pos` on. -/
def dtHeaderSizes (cfg : Profile) (addr len : Nat) : Nat → Nat → MotaM (Option (List Nat))
  | 0, _ => return some []
  | n + 1, pos => do
    let r ← dtHeaderU32 cfg addr len pos
    match r with
    | none => return none
    | some (v, pos) =>
      let rest ← dtHeaderSizes cfg addr len n pos
      return rest.map (v :: ·)

def dtGeometryValuesOk (m : MotaMin) (bodyLen wsSpan : Nat) (fixed : Byte) (sizes : List Nat) :
    Bool :=
  let memory := sizes.getD 0 0
  let segment := sizes.getD 1 0
  let shift := sizes.getD 2 0
  let src := sizes.getD 3 0
  let dst := sizes.getD 4 0
  fixed.toNat / 16 % 8 = 1 && fixed.toNat % 16 = 2 && memory ≠ 0 && memory ≤ wsSpan &&
    segment = codePageSize && shift ≤ memory && shift % segment = 0 && src ≤ memory - shift &&
    dst ≤ memory && bodyLen ≤ 2 ^ 32 - 1 - endfLen && src = bodyLen + endfLen &&
    dst = m.imageSize && dst ≤ wsSpan

def dtGeometryOk (cfg : Profile) (m : MotaMin) (bodyLen wsSpan : Nat) : MotaM Bool := do
  if m.payloadSize < 2 then return false
  else
    let r ← stagedRead cfg m.payloadAddr 1
    match r with
    | none => return false
    | some d =>
      let sizes ← dtHeaderSizes cfg m.payloadAddr m.payloadSize 5 1
      match sizes with
      | none => return false
      | some sizes => return dtGeometryValuesOk m bodyLen wsSpan (d.getD 0 0) sizes

end OtaFix.Mota
