import OtaFix.Layout
import OtaFix.Lib.BitMask

/-!
# UF2 transfer state

`WriteState` (`uf2.h`) and the helpers of `uf2_transfer_state.h` and
`uf2_app_flash.h` that keep its three bit masks: the block numbers written, the
256-byte targets committed, and the application pages erased. A mask access
outside its array is `none`.
-/

namespace OtaFix.Uf2

open Lib Lib.BitMask

def blockSize : Nat := 256

def flashSize : Nat := 0x100000

def maxBlocks : Nat := flashSize / blockSize + 100

def flashBlockCount : Nat := flashSize / blockSize

def appPageCount : Nat := (userFlashEnd - userFlashStart) / codePageSize

inductive UpdateKind where
  | none
  | application
  | bootloader
  deriving DecidableEq, Repr

structure WriteState where
  numBlocks : Nat := 0
  numWritten : Nat := 0
  bootloaderEraseOffset : Nat := 0
  appMaximumWrittenEnd : Nat := 0
  appStart : Nat := 0
  appSize : Nat := 0
  updateKind : UpdateKind := .none
  aborted : Bool := false
  hasUicr : Bool := false
  bootloaderStagingErased : Bool := false
  appSettingsInvalidated : Bool := false
  appValidated : Bool := false
  writtenMask : List Byte := List.replicate (maxBlocks / 8 + 1) 0
  targetMask : List Byte := List.replicate ((flashBlockCount + 7) / 8) 0
  appErasedMask : List Byte := List.replicate ((appPageCount + 7) / 8) 0
  deriving DecidableEq, Repr

inductive TransferResult where
  | accept
  | duplicate
  | aborted
  deriving DecidableEq, Repr

inductive TargetKind where
  | skip
  | requireMatch
  | program
  | abort
  deriving DecidableEq, Repr

/-- `uf2_application_target_classify` with the user flash bounds. -/
def targetClassify (targetAddr appStart : Nat) : TargetKind :=
  if targetAddr < userFlashStart then .skip
  else if targetAddr < appStart then .requireMatch
  else if targetAddr < userFlashEnd then .program
  else .abort

/-- `uf2_transfer_prepare`: latch the geometry and the kind, then look the block up. -/
def transferPrepare (s : WriteState) (numBlocks blockNo : Nat) (kind : UpdateKind) :
    Option (TransferResult × WriteState) :=
  if s.aborted then some (.aborted, s)
  else if numBlocks = 0 ∨ maxBlocks < numBlocks ∨ numBlocks ≤ blockNo then
    some (.aborted, { s with aborted := true })
  else if s.numBlocks ≠ 0 ∧ s.numBlocks ≠ numBlocks then
    some (.aborted, { s with aborted := true })
  else
    let s := { s with numBlocks := numBlocks }
    if s.updateKind ≠ .none ∧ s.updateKind ≠ kind then
      some (.aborted, { s with aborted := true })
    else
      let s := { s with updateKind := kind }
      (testBit? s.writtenMask blockNo).map fun b => (if b then .duplicate else .accept, s)

/-- `uf2_transfer_commit`. -/
def transferCommit (s : WriteState) (blockNo : Nat) : Option WriteState := do
  let b ← testBit? s.writtenMask blockNo
  if b then some s
  else
    let mask ← setBit? s.writtenMask blockNo
    some { s with writtenMask := mask, numWritten := add32 s.numWritten 1 }

/-- `uf2_transfer_target_prepare`: an aligned, uncommitted target below the limit. -/
def targetPrepare (s : WriteState) (targetAddr targetLimit : Nat) :
    Option (TransferResult × WriteState) :=
  if s.aborted ∨ targetAddr % blockSize ≠ 0 ∨ targetLimit ≤ targetAddr then
    some (.aborted, { s with aborted := true })
  else
    let block := targetAddr / blockSize
    if s.targetMask.length ≤ block / 8 then some (.aborted, { s with aborted := true })
    else
      (testBit? s.targetMask block).map fun b =>
        if b then (.aborted, { s with aborted := true }) else (.accept, s)

/-- `uf2_transfer_target_commit`. -/
def targetCommit (s : WriteState) (targetAddr : Nat) : Option WriteState :=
  (setBit? s.targetMask (targetAddr / blockSize)).map fun mask => { s with targetMask := mask }

/-- `uf2_transfer_target_range_written`: every target of the range is committed. -/
def targetRangeWritten (mask : List Byte) (start stop : Nat) : Bool :=
  if stop ≤ start ∨ start % blockSize ≠ 0 ∨ stop % blockSize ≠ 0 then false
  else
    (List.range ((stop - start) / blockSize)).all fun i =>
      let block := (start + i * blockSize) / blockSize
      block / 8 < mask.length && bit mask block

/-- `uf2_application_finalize`: the size of a gap-free image with good vectors. -/
def applicationFinalize (mask : List Byte) (appStart maximumWrittenEnd initialSp resetVector
    ramEnd : Nat) : Option Nat :=
  if appStart < blockSize ∨ userFlashEnd < maximumWrittenEnd ∨ maximumWrittenEnd ≤ appStart ∨
      !targetRangeWritten mask appStart maximumWrittenEnd then none
  else
    let resetAddress := resetVector - resetVector % 2
    let size := maximumWrittenEnd - appStart
    if size < 8 ∨ initialSp < ramStart ∨ ramEnd < initialSp ∨ initialSp % 8 ≠ 0 ∨
        resetVector % 2 = 0 ∨ resetAddress < appStart ∨ maximumWrittenEnd ≤ resetAddress then none
    else some size

inductive AppFlashAction where
  | invalidateSettings
  | erasePage
  | programBlock
  deriving DecidableEq, Repr

/-- `uf2_app_flash_next_action`. -/
def appFlashNextAction (s : WriteState) (page : Nat) : Option (AppFlashAction × WriteState) :=
  if !s.appSettingsInvalidated then
    some (.invalidateSettings, { s with appSettingsInvalidated := true })
  else do
    let b ← testBit? s.appErasedMask page
    if !b then
      let mask ← setBit? s.appErasedMask page
      some (.erasePage, { s with appErasedMask := mask })
    else some (.programBlock, s)

end OtaFix.Uf2
