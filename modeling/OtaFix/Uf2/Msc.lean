import OtaFix.Nvm
import OtaFix.Uf2.WriteBlock

/-!
# The mass-storage session

`msc_uf2.c`: the callbacks around `write_block`. A validated application is not
committed with its last sector but after an idle second, an eject or an unmount.
-/

namespace OtaFix.Uf2

open Lib

/-! ## Session state -/

/-- The build: the UF2 configuration, whether an eject leaves the bootloader, and
the idle interval in timer ticks. -/
structure MscConfig where
  uf2 : Config
  exitOnEject : Bool
  completionIdleTicks : Nat
  timerMinTimeoutTicks : Nat

structure Msc where
  ws : WriteState := {}
  appCompletionPending : Bool := false
  appCompletionAfterEject : Bool := false
  appMscCommandActive : Bool := false
  exitAfterEject : Bool := false
  /-- The blocks the session has committed; nothing reads them. -/
  accepted : List Block := []
  /-- A mask was accessed out of bounds; nothing is said of what follows. -/
  fault : Bool := false
  deriving DecidableEq, Repr

/-- The CRC of the application, a page at a time: the loop of `complete_app_update`. -/
def appCrcLoop (m : Mem) (start size : Nat) : Nat → Nat → BitVec 16 → BitVec 16
  | 0, _, crc => crc
  | fuel + 1, offset, crc =>
    if size ≤ offset then crc
    else
      let chunk := min (size - offset) codePageSize
      appCrcLoop m start size fuel (offset + chunk)
        (crc16Compute (slice m (start + offset) chunk) (if offset = 0 then none else some crc))

/-- The status of the application in flash. -/
def appUpdateStatus (ws : WriteState) (m : Mem) : UpdateStatus :=
  .appComplete (appCrcLoop m ws.appStart ws.appSize ws.appSize 0 0) ws.appSize

def completeAppUpdate (s : Msc) (n : Nvm) : Msc × Nvm :=
  if !s.ws.appValidated || s.ws.appSize = 0 then
    ({ s with ws := { s.ws with aborted := true } }, n)
  else
    (s, bootloaderDfuUpdateProcess (n.note (.completing .uf2)) .uf2 (appUpdateStatus s.ws n.mem))

def takePendingAppCompletion (s : Msc) : Bool × Msc :=
  (s.appCompletionPending && !s.ws.aborted,
    { s with appCompletionPending := false, appCompletionAfterEject := false })

/-- Complete the update if one is pending and not aborted. -/
def completePending (s : Msc) (n : Nvm) : Msc × Nvm :=
  if (takePendingAppCompletion s).1 then completeAppUpdate (takePendingAppCompletion s).2 n
  else ((takePendingAppCompletion s).2, n)

/-- `app_completion_timer_handler`, with the idle ticks the timer computes. -/
def appCompletionTimerHandler (cfg : MscConfig) (idleTicks : Nat) (s : Msc) (n : Nvm) :
    Msc × Nvm :=
  if !s.appCompletionPending then (s, n)
  else if s.appMscCommandActive then (s, n)
  else if idleTicks + cfg.timerMinTimeoutTicks < cfg.completionIdleTicks then (s, n)
  else completePending s n

/-- `uf2_write_session_reset`: only bootloader UF2 owns the page cache. -/
def uf2WriteSessionReset (s : Msc) (n : Nvm) : Msc × Nvm :=
  ({ ws := {}, fault := s.fault },
    if s.ws.updateKind = .bootloader then { n with cache := flashNrf5xDiscard n.cache } else n)

def uf2WriteSessionClose (s : Msc) (n : Nvm) : Msc × Nvm :=
  let r := completePending s n
  uf2WriteSessionReset r.1 r.2

def finishMscCommand (s : Msc) : Msc :=
  { s with
    appMscCommandActive := false
    appCompletionAfterEject := false
    exitAfterEject := false }

/-! ## WRITE10 -/

/-- The log of one sector: its operations, and the verdict if the call reached one. -/
def Outcome.store (ws : WriteState) (out : Outcome) (n : Nvm) : Nvm :=
  let n := { n.run out.ops with cache := out.cache }
  if !ws.appValidated && out.ws.appValidated then
    n.note (.validated .uf2 out.ws.appStart (slice n.mem out.ws.appStart out.ws.appSize))
  else n

/-- `tud_msc_write10_cb`: the sectors of the buffer, up to a busy or aborting one. -/
def tudMscWrite10 (cfg : MscConfig) (lba : Nat) : List Sector → Msc → Nvm → Msc × Nvm
  | [], s, n => (s, n)
  | sector :: sectors, s, n =>
    match writeBlock cfg.uf2 lba sector s.ws n.cache n.mem with
    | none => ({ s with fault := true }, n)
    | some out =>
      let n' := out.store s.ws n
      let s' := { s with
        ws := out.ws
        accepted := if out.committed then s.accepted ++ [sector.block] else s.accepted }
      if out.ws.aborted || out.result = .busy then (s', n')
      else tudMscWrite10 cfg (lba + 1) sectors s' n'

def tudMscWrite10Complete (s : Msc) (n : Nvm) : Msc × Nvm :=
  if s.ws.aborted then
    ({ s with appCompletionPending := false, appCompletionAfterEject := false }, n)
  else if s.ws.numBlocks ≠ 0 ∧ s.ws.numBlocks ≤ s.ws.numWritten then
    if s.ws.updateKind = .bootloader then
      -- an unchanged bootloader is not copied
      if slice n.mem bootloaderAddrNewReceived dfuBlImageMaxSize ≠
          slice n.mem bootloaderRegionStart dfuBlImageMaxSize then (s, n.note .copyBl)
      else (s, n)
    else ({ s with appCompletionPending := true }, n)
  else (s, n)

/-! ## SCSI commands -/

def scsiCmdStartStopUnit : Nat := 0x1B

def tudMscScsiComplete (cfg : MscConfig) (cmd : Nat) (s : Msc) (n : Nvm) : Msc × Nvm :=
  if cmd = 0x35 then (s, n)
  else
    let r := if s.appCompletionAfterEject && cmd = scsiCmdStartStopUnit then completePending s n
      else (s, n)
    if cfg.exitOnEject && r.1.exitAfterEject && cmd = scsiCmdStartStopUnit then
      uf2WriteSessionReset r.1 r.2
    else r

def tudMscStartStop (cfg : MscConfig) (start loadEject : Bool) (s : Msc) (n : Nvm) : Msc × Nvm :=
  if loadEject && !start then
    if s.appCompletionPending then ({ s with appCompletionAfterEject := true }, n)
    else if cfg.exitOnEject then ({ s with exitAfterEject := true }, n)
    else uf2WriteSessionReset s n
  else (s, n)

/-! ## Events -/

inductive MscEvent where
  | write10 (lba offset : Nat) (sectors : List Sector)
  | write10Complete
  | scsiComplete (cmd : Nat)
  | startStop (start loadEject : Bool)
  | commandBegin
  | commandComplete
  | busReset
  | timer (idleTicks : Nat)
  /-- `tud_mount_cb`. -/
  | mount
  /-- `tud_umount_cb`. -/
  | umount

def mscHandle (cfg : MscConfig) (e : MscEvent) (s : Msc) (n : Nvm) : Msc × Nvm :=
  match e with
  | .write10 lba offset sectors =>
    if offset ≠ 0 then (s, n) else tudMscWrite10 cfg lba sectors s n
  | .write10Complete => tudMscWrite10Complete s n
  | .scsiComplete cmd => tudMscScsiComplete cfg cmd s n
  | .startStop start loadEject => tudMscStartStop cfg start loadEject s n
  | .commandBegin => ({ s with appMscCommandActive := true }, n)
  | .commandComplete => (finishMscCommand s, n)
  | .busReset => (finishMscCommand s, n)
  | .timer idleTicks => appCompletionTimerHandler cfg idleTicks s n
  | .mount => uf2WriteSessionReset s n
  | .umount => uf2WriteSessionClose s n

/-- One event, unless the device has faulted. -/
def mscStep (cfg : MscConfig) (s : Msc × Nvm) (e : MscEvent) : Msc × Nvm :=
  if s.1.fault then s else mscHandle cfg e s.1 s.2

end OtaFix.Uf2
