import OtaFix.FlashNrf5x

/-!
# Shared flash

`Nvm` is the flash all transports share, with the page cache in front of it and
a log of everything done to it: a reset at any point leaves the flash of a
prefix of the log. `bootloaderDfuUpdateProcess` is the one place that commits a
settings record, here on the path without a SoftDevice.
-/

namespace OtaFix

open Lib

inductive Transport where
  | uf2
  | serial
  deriving DecidableEq, Repr

/-- One entry of the log: a flash operation, or where a transport has got to. -/
inductive Act where
  | op (o : FlashOp)
  /-- The transport accepted the image it received. -/
  | validated (t : Transport) (start : Nat) (image : List Byte)
  /-- The transport starts to commit its image. -/
  | completing (t : Transport)
  /-- The transport has committed a record that marks the application valid. -/
  | committed (t : Transport)
  /-- `SD_MBR_COMMAND_COPY_BL`. -/
  | copyBl
  deriving DecidableEq, Repr

/-- The page cache, the flash contents and the log. -/
structure Nvm where
  cache : FlashCache := {}
  mem : Mem
  log : List Act := []

namespace Nvm

/-- Issue flash operations. -/
def run (n : Nvm) (ops : List FlashOp) : Nvm :=
  { n with mem := replay ops n.mem, log := n.log ++ ops.map .op }

def note (n : Nvm) (a : Act) : Nvm := { n with log := n.log ++ [a] }

@[simp] theorem run_mem (n : Nvm) (ops : List FlashOp) : (n.run ops).mem = replay ops n.mem := rfl

@[simp] theorem run_cache (n : Nvm) (ops : List FlashOp) : (n.run ops).cache = n.cache := rfl

@[simp] theorem note_mem (n : Nvm) (a : Act) : (n.note a).mem = n.mem := rfl

@[simp] theorem note_cache (n : Nvm) (a : Act) : (n.note a).cache = n.cache := rfl

/-- Replace the settings record. -/
def saveSettings (n : Nvm) (t : Transport) (s : Settings) : Nvm :=
  let n := n.run (bootloaderSettingsSave s)
  if s.bank0 = bankValidApp then n.note (.committed t) else n

end Nvm

/-! ## Update status -/

/-- `dfu_update_status_t`, by status code. -/
inductive UpdateStatus where
  | appComplete (appCrc : BitVec 16) (appSize : Nat)
  | sdComplete (appCrc : BitVec 16) (sdSize blSize appSize sdImageStart : Nat)
  | bootComplete (sdSize blSize appSize : Nat)
  | sdSwapped
  | bank0Erased
  | timeout
  | reset
  deriving DecidableEq, Repr

/-- The record an update status asks for, given the one in flash. -/
def updateSettings (current : Settings) : UpdateStatus → Option Settings
  | .appComplete crc size =>
    some { bank0 := bankValidApp, bank0Crc := crc, bank1 := bankInvalidApp, bank0Size := size }
  | .sdComplete crc sd bl app start =>
    some { bank0 := bankValidSd, bank0Crc := crc, bank1 := bankInvalidApp
           bank0Size := add32 (add32 sd bl) app
           sdImageSize := sd, blImageSize := bl, appImageSize := app, sdImageStart := start }
  | .bootComplete sd bl app =>
    -- the application's own record survives a bootloader update
    let s : Settings := if current.integrityValid then
        { bank0 := current.bank0, bank0Crc := current.bank0Crc, bank0Size := current.bank0Size }
      else { bank0 := bankInvalidApp }
    some { s with
      bank1 := bankValidBoot, sdImageSize := sd, blImageSize := bl, appImageSize := app }
  | .sdSwapped =>
    let s : Settings := if current.bank0 = bankValidSd then { bank0 := bankInvalidApp }
      -- where the SoftDevice was not updated, bank 0 keeps its record
      else if current.integrityValid then
        { bank0 := current.bank0, bank0Crc := current.bank0Crc, bank0Size := current.bank0Size }
      else { bank0 := bankInvalidApp }
    some { s with bank1 := bankInvalidApp }
  | .bank0Erased =>
    some { bank0 := bankInvalidApp
           bank1 := if current.integrityValid then current.bank1 else bankInvalidApp }
  | .timeout => none
  | .reset => none

/-- `bootloader_dfu_update_process` without a SoftDevice. -/
def bootloaderDfuUpdateProcess (n : Nvm) (t : Transport) (st : UpdateStatus) : Nvm :=
  match updateSettings (readSettings n.mem) st with
  | some s => n.saveSettings t s
  | none => n

end OtaFix
