import OtaFix.FlashNrf5x
import OtaFix.Image
import OtaFix.Uf2.Transfer

/-!
# Writing a UF2 sector

`write_block` (`ghostfat.c`) takes one 512-byte sector. An application block
first clears the settings word, then erases its page, then programs its 256
bytes, one flash action a call, each but the last answered `busy`; a bootloader
block is staged through the page cache. The last block of a transfer validates
it. `none` is an access outside a mask.
-/

namespace OtaFix.Uf2

open Lib

/-! ## Sectors -/

structure Sector where
  bytes : List Byte
  length_eq : bytes.length = 512

/-- `UF2_Block`. -/
structure Block where
  targetAddr : Nat
  blockNo : Nat
  numBlocks : Nat
  familyId : Nat
  data : List Byte
  deriving DecidableEq, Repr

/-- The payload of a block. -/
def Block.payload (b : Block) : List Byte := b.data.take blockSize

def Sector.block (s : Sector) : Block where
  targetAddr := wordAt s.bytes 12
  blockNo := wordAt s.bytes 20
  numBlocks := wordAt s.bytes 24
  familyId := wordAt s.bytes 28
  data := (s.bytes.drop 32).take 476

def isUf2Block (s : Sector) : Bool :=
  wordAt s.bytes 0 = 0x0A324655 && wordAt s.bytes 4 = 0x9E5D5157 &&
    wordAt s.bytes 508 = 0x0AB16F30 && (wordAt s.bytes 8).testBit 13 &&
    !(wordAt s.bytes 8).testBit 0 && wordAt s.bytes 16 = blockSize &&
    wordAt s.bytes 12 % blockSize = 0

theorem payload_length (s : Sector) : s.block.payload.length = blockSize := by
  simp [Sector.block, Block.payload, s.length_eq, blockSize]

/-- The build: chip, board, the extent of `CURRENT.UF2` and whether a bootloader
UF2 must spare a live application. -/
structure Config where
  chip : Chip
  board : Board
  currentFirstLba : Nat
  currentSectors : Nat
  guardLiveApp : Bool

def familyAppId : Nat := 0xADA52840

def familyBootId : Nat := 0xd663823c

def Config.kindOf (cfg : Config) (familyId : Nat) : Option UpdateKind :=
  if familyId = cfg.board.boardId ∨ familyId = familyAppId then some .application
  else if familyId = familyBootId then some .bootloader
  else none

/-- `uf2_current_lba_is_synthetic`. -/
def Config.lbaIsSynthetic (cfg : Config) (lba : Nat) : Bool :=
  cfg.currentFirstLba ≤ lba && lba - cfg.currentFirstLba < cfg.currentSectors

/-- The return value: -1, 0 and 512. -/
inductive WriteResult where
  | notUf2
  | busy
  | done
  deriving DecidableEq, Repr

/-- The driver state a call leaves, the flash operations it issued, and whether
it committed its block. -/
structure Outcome where
  result : WriteResult
  ws : WriteState
  cache : FlashCache
  ops : List FlashOp := []
  committed : Bool := false

/-! ## One block -/

/-- The kind-specific part: `none` goes on to the commit, a result ends the call. -/
structure Staged where
  stop : Option WriteResult
  ws : WriteState
  cache : FlashCache
  ops : List FlashOp := []

/-- `prepare_app_block` and the program that follows it. -/
def programAppBlock (b : Block) (ws : WriteState) (c : FlashCache) : Option Staged := do
  let (action, ws) ← appFlashNextAction ws ((b.targetAddr - userFlashStart) / codePageSize)
  match action with
  | .invalidateSettings => some ⟨some .busy, ws, flashNrf5xDiscard c, invalidateAppSettings⟩
  | .erasePage => some ⟨some .busy, ws, c, flashNrf5xErase b.targetAddr codePageSize⟩
  | .programBlock => some ⟨none, ws, c, flashNrf5xWriteErased b.targetAddr b.payload⟩

/-- What an application block does by the kind of its target. -/
def classifiedBlock (b : Block) (ws : WriteState) (c : FlashCache) (m : Mem) : Option Staged :=
  match targetClassify b.targetAddr (dfuBank0RegionStart m) with
  | .program => programAppBlock b ws c
  | .requireMatch =>
    -- the SoftDevice may be copied back, never migrated
    if slice m b.targetAddr blockSize ≠ b.payload then
      some ⟨some .notUf2, { ws with aborted := true }, c, []⟩
    else some ⟨none, ws, c, []⟩
  | .skip => some ⟨none, ws, c, []⟩
  | .abort => some ⟨some .notUf2, { ws with aborted := true }, c, []⟩

def applicationBlock (b : Block) (ws : WriteState) (c : FlashCache) (m : Mem) : Option Staged := do
  let (r, ws) ← if b.targetAddr < userFlashEnd then targetPrepare ws b.targetAddr flashSize
    else some (.accept, ws)
  if r = .aborted then some ⟨some .notUf2, ws, c, []⟩ else classifiedBlock b ws c m

/-- `erase_bootloader_staging`: a page a call; `none` when all are erased. -/
def eraseBootloaderStaging (cfg : Config) (ws : WriteState) (m : Mem) :
    Option (WriteState × List FlashOp) :=
  if ws.bootloaderStagingErased then none
  else if cfg.guardLiveApp && ws.bootloaderEraseOffset == 0 && bootloaderAppIsValid cfg.chip m &&
      !otaDeltaLiveAppFitsBelow m bootloaderAddrNewReceived then
    some ({ ws with aborted := true }, [])
  else
    let next := ws.bootloaderEraseOffset + codePageSize
    some ({ ws with
        bootloaderEraseOffset := next, bootloaderStagingErased := dfuBlImageMaxSize ≤ next },
      flashNrf5xErase (bootloaderAddrNewReceived + ws.bootloaderEraseOffset) codePageSize)

def bootloaderBlock (cfg : Config) (b : Block) (ws : WriteState) (c : FlashCache) (m : Mem) :
    Staged :=
  if b.targetAddr = 0x10001000 then
    if wordAt b.data 0x14 ≠ bootloaderRegionStart ∨
        wordAt b.data 0x18 ≠ bootloaderMbrParamsPageAddress then
      ⟨some .notUf2, { ws with aborted := true }, c, []⟩
    else ⟨none, { ws with hasUicr := true }, c, []⟩
  else if bootloaderRegionStart ≤ b.targetAddr ∧ b.targetAddr < bootloaderMbrParamsPageAddress then
    match eraseBootloaderStaging cfg ws m with
    | some (ws, ops) => ⟨some .busy, ws, c, ops⟩
    | none =>
      let r := flashNrf5xWrite c m
        (bootloaderAddrNewReceived + (b.targetAddr - bootloaderRegionStart)) b.payload false
      ⟨none, ws, r.1, r.2⟩
  else if b.targetAddr < userFlashStart then ⟨none, ws, c, []⟩
  else ⟨some .notUf2, { ws with aborted := true }, c, []⟩

/-! ## The end of a transfer -/

/-- The START tuple a staged bootloader is checked against. -/
def bootloaderStartPacket : StartPacket where
  dfuUpdateMode := dfuUpdateBl
  blImageSize := dfuBlImageMaxSize

/-- The staged bootloader meets the image policy. -/
def stagedBootloaderOk (cfg : Config) (m : Mem) : Bool :=
  dfuImagePolicyValidate cfg.board m (slice m bootloaderAddrNewReceived dfuBlImageMaxSize)
    bootloaderStartPacket = .success

def finalizeBootloader (cfg : Config) (ws : WriteState) (c : FlashCache) (m : Mem) :
    WriteState × FlashCache × List FlashOp :=
  let f := flashNrf5xFlush c m false
  (if !ws.hasUicr || !ws.bootloaderStagingErased || !stagedBootloaderOk cfg (replay f.2 m) then
    { ws with aborted := true } else ws, f.1, f.2)

def finalizeApplication (cfg : Config) (ws : WriteState) (appStart : Nat) (m : Mem) : WriteState :=
  let sp := if appStart < userFlashEnd then readWord m appStart else 0
  let reset := if appStart < userFlashEnd then readWord m (appStart + 4) else 0
  if !ws.appSettingsInvalidated then { ws with aborted := true }
  else
    match applicationFinalize ws.targetMask appStart ws.appMaximumWrittenEnd sp reset
        cfg.chip.ramEnd with
    | none => { ws with aborted := true }
    | some size => { ws with appSize := size, appStart := appStart, appValidated := true }

/-- The end of the highest application target so far. -/
def maximumWrittenEnd (ws : WriteState) (b : Block) (appStart : Nat) : Nat :=
  if appStart ≤ b.targetAddr ∧ ws.appMaximumWrittenEnd < b.targetAddr + blockSize then
    b.targetAddr + blockSize
  else ws.appMaximumWrittenEnd

/-- Commit an accepted block and, with the last one, validate the transfer. `appStart` is
the boundary read at the start of the call. -/
def commitBlock (cfg : Config) (b : Block) (kind : UpdateKind) (appStart : Nat) (st : Staged)
    (m : Mem) : Option Outcome := do
  let ws ← if kind = .application then
      (targetCommit st.ws b.targetAddr).map fun ws =>
        { ws with appMaximumWrittenEnd := maximumWrittenEnd ws b appStart }
    else some st.ws
  let ws ← transferCommit ws b.blockNo
  if ws.numBlocks ≤ ws.numWritten then
    if ws.updateKind = .bootloader then
      let f := finalizeBootloader cfg ws st.cache m
      some ⟨.done, f.1, f.2.1, st.ops ++ f.2.2, true⟩
    else
      some ⟨.done, finalizeApplication cfg ws appStart m, flashNrf5xDiscard st.cache, st.ops, true⟩
  else some ⟨.done, ws, st.cache, st.ops, true⟩

/-- A repeated block number is accepted only when its bytes are already in place. -/
def duplicateBlock (b : Block) (kind : UpdateKind) (ws : WriteState) (c : FlashCache) (m : Mem) :
    Outcome :=
  let target := targetClassify b.targetAddr (dfuBank0RegionStart m)
  if kind = .application ∧ (target = .requireMatch ∨ target = .program) ∧
      slice m b.targetAddr blockSize ≠ b.payload then
    ⟨.notUf2, { ws with aborted := true }, c, [], false⟩
  else ⟨.done, ws, c, [], false⟩

def transferBlock (cfg : Config) (b : Block) (kind : UpdateKind) (ws : WriteState)
    (c : FlashCache) (m : Mem) : Option Outcome := do
  let (r, ws) ← transferPrepare ws b.numBlocks b.blockNo kind
  match r with
  | .aborted => some ⟨.notUf2, ws, c, [], false⟩
  | .duplicate => some (duplicateBlock b kind ws c m)
  | .accept =>
    let st ← if kind = .application then applicationBlock b ws c m
      else some (bootloaderBlock cfg b ws c m)
    match st.stop with
    | some r => some ⟨r, st.ws, st.cache, st.ops, false⟩
    | none => commitBlock cfg b kind (dfuBank0RegionStart m) st (replay st.ops m)

def writeBlock (cfg : Config) (lba : Nat) (s : Sector) (ws : WriteState) (c : FlashCache)
    (m : Mem) : Option Outcome :=
  if ws.aborted then some ⟨.notUf2, ws, c, [], false⟩
  else if cfg.lbaIsSynthetic lba then some ⟨.done, ws, c, [], false⟩
  else if !isUf2Block s then some ⟨.notUf2, ws, c, [], false⟩
  else
    match cfg.kindOf s.block.familyId with
    | none => some ⟨.notUf2, ws, c, [], false⟩
    | some kind => transferBlock cfg s.block kind ws c m

end OtaFix.Uf2
