import OtaFix.Lib.Prog
import OtaFix.Image
import OtaFix.SettingsCut

/-!
# The device under an mOTA update

What `ota_delta.c` runs on: its build profile, its static variables, and the
operations it performs on flash, the retained registers, the retained record and
the staging media. `handler` gives the operations their meaning. A flash
operation may fail in any way a page can: the fault is the environment's choice,
as are the answers of the media.
-/

namespace OtaFix.Mota

open Lib

/-! ## Layout -/

def motaExtrafsStart : Nat := 0xD4000

def motaAppEnd : Nat := 0xED000

def motaBlStart : Nat := 0xF4000

def motaBlSize : Nat := 0xA000

def internalBlSlotStart : Nat := 0xE2000

def internalBlSlotEnd : Nat := motaAppEnd

def motaBlScratchStart : Nat := 0xE0000

def stageCeilingLegacy : Nat := motaExtrafsStart

def stageCeilingExpanded : Nat := motaAppEnd

/-- `GPREGRET_OTA_APPLY`. -/
def otaApply : Nat := 0x6A

/-- `GPREGRET_BOOTLOADER_APPLY`. -/
def bootloaderApply : Nat := 0x6B

def stageExpanded : Nat := 0xED

def stageQspi : Nat := 0x51

def stageRak15001 : Nat := 0x52

def stageHeaderW25 : Nat := 0x54

def stageSd : Nat := 0x53

def stageHybrid : Nat := 0xA6

/-- `RESETREAS` after a software reset. -/
def resetreasSoftware : Nat := 4

def hybridArenaStart : Nat := 0x20030000

def hybridArenaSize : Nat := 0x10000

/-- Length of either retained record. -/
def retainedLen : Nat := 72

/-! ## Build profile -/

/-- The switches of a build. -/
structure Profile where
  sdCard : Bool := false
  sdDualStore : Bool := false
  rakSdStore : Bool := false
  sdBootloaderUpdate : Bool := false
  qspiFlash : Bool := false
  rakAutoStore : Bool := false
  rakAutoRak4631 : Bool := false
  qspiBootloaderUpdate : Bool := false
  qspiXiaoIdentity : Bool := false
  internalBootloaderUpdate : Bool := false
  /-- `MOTA_RAM_ARENA_SIZE > 0`. -/
  ramArena : Bool := false
  board : Board
  /-- `DEVICE_NAME`, without its terminator. -/
  deviceName : List Byte
  /-- `bootloaderUpdateManifest.extension` of the running bootloader. -/
  extension : List Byte

namespace Profile

/-- `MOTA_BOOTLOADER_UPDATE_ENABLED`. -/
def bootloaderUpdateEnabled (cfg : Profile) : Bool :=
  cfg.sdBootloaderUpdate || cfg.qspiBootloaderUpdate || cfg.internalBootloaderUpdate

/-- `APP_APPLY_END`. -/
def appApplyEnd (cfg : Profile) : Nat :=
  if cfg.bootloaderUpdateEnabled && cfg.qspiXiaoIdentity then motaBlScratchStart else motaAppEnd

/-- The SD card is a source beside others, chosen by the handoff. -/
def sdOptional (cfg : Profile) : Bool := cfg.sdDualStore || cfg.rakSdStore

/-- No `#error` of `ota_delta.c` and `ota_rak_sd_info.h` stops the build. -/
def builds (cfg : Profile) : Bool :=
  (!cfg.ramArena || ((cfg.internalBootloaderUpdate || cfg.rakAutoStore) &&
    !(cfg.sdCard && !cfg.sdOptional) && !(cfg.qspiFlash && !cfg.rakAutoStore))) &&
  (!cfg.qspiXiaoIdentity || cfg.qspiBootloaderUpdate) &&
  !(cfg.sdBootloaderUpdate && cfg.qspiBootloaderUpdate) &&
  !(cfg.sdBootloaderUpdate && cfg.internalBootloaderUpdate && !cfg.sdOptional) &&
  !(cfg.qspiBootloaderUpdate && cfg.internalBootloaderUpdate) &&
  (!cfg.sdDualStore || (cfg.sdCard && cfg.sdBootloaderUpdate && cfg.internalBootloaderUpdate &&
    !cfg.qspiFlash)) &&
  (!cfg.sdBootloaderUpdate || cfg.sdCard) &&
  (!cfg.qspiBootloaderUpdate || cfg.qspiFlash) &&
  (!cfg.internalBootloaderUpdate || cfg.sdBootloaderUpdate ||
    (!(cfg.qspiFlash && !cfg.rakAutoStore) && !(cfg.sdCard && !cfg.rakSdStore))) &&
  (!cfg.rakSdStore || (cfg.rakAutoStore && cfg.rakAutoRak4631 && cfg.qspiFlash && cfg.sdCard &&
    cfg.internalBootloaderUpdate && !cfg.sdBootloaderUpdate && cfg.ramArena && !cfg.sdDualStore))

end Profile

/-! ## Static variables -/

/-- `struct mota_min`: what the parser takes from a container's manifest. -/
structure MotaMin where
  isFull : Bool
  approved : Bool
  formatVer : Nat
  flags : Nat
  hashAlgo : Nat
  blockSizeLog2 : Nat
  total : Nat
  imageSize : Nat
  payloadSize : Nat
  payloadAddr : Nat
  approvalAddr : Nat
  targetId : Nat
  fwVersion : Nat
  blockCount : Nat
  imageHash : List Byte
  codecId : Nat
  hwId : List Byte
  baseHash : List Byte
  deriving DecidableEq, Repr

/-- The fields of `mota_hybrid_handoff_t` that are read after its check. -/
structure Hybrid where
  containerTotal : Nat := 0
  flashStart : Nat := 0
  flashLen : Nat := 0
  containerSha256 : List Byte := []
  deriving DecidableEq, Repr

/-- The fields of `mota_sd_auth_t` that are read after its check. -/
structure SdAuth where
  firstSector : Nat := 0
  containerTotal : Nat := 0
  containerSha256 : List Byte := []
  deriving DecidableEq, Repr

structure Statics where
  hybrid : Hybrid := {}
  sdAuth : SdAuth := {}
  sdAuthLoaded : Bool := false
  sdSource : Bool := false
  sdActive : Bool := false
  qspiSource : Bool := false
  qspiTotalSize : Nat := 0
  cache : List Byte := List.replicate codePageSize 0
  /-- The page in the cache; zero for none. -/
  cachePage : Nat := 0
  cacheDirty : Bool := false
  deriving DecidableEq, Repr

namespace Profile

variable (cfg : Profile) (g : Statics)

def sdSelected : Bool := cfg.sdCard && g.sdSource

def hybridSelected : Bool := cfg.ramArena && g.hybrid.containerTotal ≠ 0

def qspiSelected : Bool := cfg.qspiFlash && g.qspiSource

def externalStagedSource : Bool := cfg.sdSelected g || cfg.qspiSelected g

/-- The variables at boot; where SD is the only source, `g_sd_source` is the constant 1. -/
def boot : Statics := { sdSource := cfg.sdCard && !cfg.sdOptional }

end Profile

/-! ## Operations -/

/-- Points of a run that the statements name; they change nothing. -/
inductive Mark where
  /-- `scan_mota` returns a container. -/
  | parsed (addr : Nat) (m : MotaMin)
  /-- The commit point of an update. -/
  | commit
  /-- A page fails all of its verified attempts. -/
  | pageFailed
  /-- The decoder starts on the workspace `[lo, hi)`. -/
  | decode (lo hi : Nat)
  deriving DecidableEq, Repr

inductive Op where
  | get
  | set (g : Statics)
  | gpregret
  | gpregret2
  | setGpregret (v : Nat)
  | setGpregret2 (v : Nat)
  | resetreas
  /-- `retained_handoff_take`: read the record and zero it. -/
  | takeRetained
  /-- The live flash, as any read of it sees it. -/
  | view
  /-- A read of internal flash as the staged source. -/
  | stagedFlash (a n : Nat)
  /-- A read of the RAM arena as the staged source. -/
  | stagedRam (offset n : Nat)
  | sdInit
  | sdRead (firstSector offset n : Nat)
  /-- Releases the pins; nothing goes to the card. -/
  | sdDeinit
  | qspiSetRakSource (handoff : Nat)
  | qspiInit
  | qspiCapacity
  | qspiRead (offset n : Nat)
  | qspiWrite (offset : Nat) (d : List Byte)
  | qspiDeinit
  /-- `nrfx_nvmc_page_erase`. -/
  | erase (page : Nat)
  /-- `nrfx_nvmc_words_write`. -/
  | words (a : Nat) (d : List Byte)
  | settingsCommit (s : Settings)
  | mbrCopy (source : Nat)
  | mark (e : Mark)

def Res : Op → Type
  | .get => Statics
  | .gpregret | .gpregret2 | .resetreas | .qspiCapacity => Nat
  | .takeRetained | .stagedFlash _ _ => List Byte
  | .view => Mem
  | .stagedRam _ _ | .sdRead _ _ _ | .qspiRead _ _ => Option (List Byte)
  | .sdInit | .qspiInit | .qspiWrite _ _ | .mbrCopy _ => Bool
  | _ => Unit

abbrev MotaM (α : Type) := Prog Res α

section Calls

open Prog

abbrev getStatics : MotaM Statics := perform Op.get

abbrev setStatics (g : Statics) : MotaM Unit := perform (Op.set g)

abbrev gpregretGet : MotaM Nat := perform Op.gpregret

abbrev gpregret2Get : MotaM Nat := perform Op.gpregret2

abbrev gpregretSet (v : Nat) : MotaM Unit := perform (Op.setGpregret v)

abbrev gpregret2Set (v : Nat) : MotaM Unit := perform (Op.setGpregret2 v)

abbrev resetreasGet : MotaM Nat := perform Op.resetreas

abbrev retainedHandoffTake : MotaM (List Byte) := perform Op.takeRetained

abbrev flash : MotaM Mem := perform Op.view

abbrev stagedFlashRead (a n : Nat) : MotaM (List Byte) := perform (Op.stagedFlash a n)

abbrev hybridRamRead (offset n : Nat) : MotaM (Option (List Byte)) :=
  perform (Op.stagedRam offset n)

abbrev otaSdInit : MotaM Bool := perform Op.sdInit

abbrev otaSdReadBytes (firstSector offset n : Nat) : MotaM (Option (List Byte)) :=
  perform (Op.sdRead firstSector offset n)

abbrev otaSdDeinit : MotaM Unit := perform Op.sdDeinit

abbrev otaQspiSetRakSource (handoff : Nat) : MotaM Unit := perform (Op.qspiSetRakSource handoff)

abbrev otaQspiInit : MotaM Bool := perform Op.qspiInit

abbrev otaQspiCapacity : MotaM Nat := perform Op.qspiCapacity

abbrev otaQspiRead (offset n : Nat) : MotaM (Option (List Byte)) := perform (Op.qspiRead offset n)

abbrev otaQspiWrite (offset : Nat) (d : List Byte) : MotaM Bool := perform (Op.qspiWrite offset d)

abbrev otaQspiDeinit : MotaM Unit := perform Op.qspiDeinit

abbrev flErase (page : Nat) : MotaM Unit := perform (Op.erase page)

abbrev flWriteWords (a : Nat) (d : List Byte) : MotaM Unit := perform (Op.words a d)

abbrev settingsCommit (r : Settings) : MotaM Unit := perform (Op.settingsCommit r)

abbrev mbrCopy (source : Nat) : MotaM Bool := perform (Op.mbrCopy source)

abbrev mark (e : Mark) : MotaM Unit := perform (Op.mark e)

end Calls

/-- How an erase or a write of a page ends. -/
inductive Fault where
  | ok
  /-- The page does not change. -/
  | skip
  /-- Other bits are cleared than those asked for. -/
  | garble (d : List Byte)
  deriving DecidableEq, Repr

/-- What the device does not decide: the media and the faults, which may answer
differently at every operation, and the retained RAM. -/
structure Env where
  resetreas : Nat := resetreasSoftware
  arena : Nat → Byte := fun _ => 0
  sdInit : Nat → Bool := fun _ => true
  sdOk : Nat → Bool := fun _ => true
  /-- The byte of the card at an address, as read by one operation. -/
  sdByte : Nat → Nat → Byte := fun _ _ => 0
  qspiInit : Nat → Bool := fun _ => true
  qspiCapacity : Nat := 0
  qspiOk : Nat → Bool := fun _ => true
  qspiByte : Nat → Byte := fun _ => 0
  /-- Whether the four bytes are programmed, and what `ota_qspi_write` reports. -/
  qspiWrite : Nat → Bool × Bool := fun _ => (true, true)
  fault : Nat → Fault := fun _ => .ok
  /-- The MBR copies the image, and so does not return. -/
  mbrCopies : Bool := true

structure Device where
  mem : Mem
  gpregret : Nat
  gpregret2 : Nat
  retained : List Byte
  statics : Statics
  /-- The programmed writes to the NOR. -/
  nor : List (Nat × List Byte) := []
  /-- The flash operations so far. -/
  ops : List FlashOp := []
  marks : List Mark := []
  /-- Sources of the MBR copies so far. -/
  mbr : List Nat := []
  tick : Nat := 0

/-- The NOR under its writes, which clear bits. -/
def norByte (env : Env) (nor : List (Nat × List Byte)) (x : Nat) : Byte :=
  nor.foldl (fun b w => if w.1 ≤ x ∧ x < w.1 + w.2.length then b &&& w.2.getD (x - w.1) 0 else b)
    (env.qspiByte x)

/-- The flash operations of an erase, under its fault. -/
def eraseOps (f : Fault) (page : Nat) : List FlashOp :=
  match f with
  | .ok => [.erase page codePageSize]
  | .skip => []
  | .garble d => [.erase page codePageSize, .program page (d.take codePageSize)]

/-- The flash operations of a write of words, under its fault. -/
def wordsOps (f : Fault) (a : Nat) (d : List Byte) : List FlashOp :=
  match f with
  | .ok => wordsWrite a d
  | .skip => []
  | .garble d' => wordsWrite a (d'.take d.length)

/-- The flash operations of an operation. -/
def nvOps (env : Env) (o : Op) (s : Device) : List FlashOp :=
  match o with
  | .erase page => eraseOps (env.fault s.tick) page
  | .words a d => wordsOps (env.fault s.tick) a d
  | .settingsCommit r => otahSettingsCommit r
  | _ => []

/-- The state after an operation, its flash operations included. -/
def after (env : Env) (o : Op) (s : Device) : Device :=
  let s := { s with
    mem := replay (nvOps env o s) s.mem, ops := s.ops ++ nvOps env o s, tick := s.tick + 1 }
  match o with
  | .set g => { s with statics := g }
  | .setGpregret v => { s with gpregret := v }
  | .setGpregret2 v => { s with gpregret2 := v }
  | .takeRetained => { s with retained := List.replicate retainedLen 0 }
  | .qspiWrite a d =>
    { s with nor := if (env.qspiWrite (s.tick - 1)).1 then s.nor ++ [(a, d)] else s.nor }
  | .mbrCopy source => { s with mbr := s.mbr ++ [source] }
  | .mark e => { s with marks := s.marks ++ [e] }
  | _ => s

/-- The answer to an operation. -/
def answer (env : Env) (o : Op) (s : Device) : Res o :=
  match o with
  | .get => s.statics
  | .gpregret => s.gpregret
  | .gpregret2 => s.gpregret2
  | .resetreas => env.resetreas
  | .takeRetained => s.retained
  | .view => s.mem
  | .stagedFlash a n => slice s.mem a n
  | .stagedRam offset n =>
    if hybridArenaSize < offset ∨ hybridArenaSize - offset < n then none
    else some (slice env.arena offset n)
  | .sdInit => env.sdInit s.tick
  | .sdRead firstSector offset n =>
    if env.sdOk s.tick then some (slice (env.sdByte s.tick) (firstSector * 512 + offset) n) else none
  | .qspiInit => env.qspiInit s.tick
  | .qspiCapacity => env.qspiCapacity
  | .qspiRead offset n =>
    if env.qspiOk s.tick then some (slice (norByte env s.nor) offset n) else none
  | .qspiWrite _ _ => (env.qspiWrite s.tick).2
  | .mbrCopy _ => env.mbrCopies
  | .set _ | .setGpregret _ | .setGpregret2 _ | .sdDeinit | .qspiSetRakSource _ | .qspiDeinit
  | .erase _ | .words _ _ | .settingsCommit _ | .mark _ => ()

def handler (env : Env) : Handler Res Device := fun o s => (answer env o s, after env o s)

end OtaFix.Mota
