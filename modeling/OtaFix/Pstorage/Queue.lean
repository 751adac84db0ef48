import OtaFix.Layout
import OtaFix.Lib.Ring
import OtaFix.Word

/-!
# Queued flash access

`pstorage_raw.c`. Stores and clears wait in a ring of commands while the SoftDevice works on
the one at its head. A store into a page of the DFU image that is not erased yet starts a lazy
erase and waits in a second ring, and so does every store behind it. `sd_flash_write` and
`sd_flash_page_erase` answer from a stream; a callback of an owner may change the DFU layer's
page map and make further calls, which is a list of actions.

The functions that advance the queue call each other with no bound of their own; `fuel` bounds
their depth, and `none` is a depth that did not suffice.
-/

namespace OtaFix.Pstorage

open Lib

/-! ## Requests -/

/-- An error code of `nrf_error.h`. -/
abbrev Code := Nat

def nrfSuccess : Code := 0

def nrfErrorNoMem : Code := 4

def nrfErrorTimeout : Code := 13

def nrfErrorForbidden : Code := 15

def nrfErrorInvalidAddr : Code := 16

def nrfErrorBusy : Code := 17

def pstorageNumOfPages : Nat := 4

def pstorageCmdQueueSize : Nat := 18

def socMaxWriteSize : Nat := 4096

def pendingPacketSize : Nat := 256

def pendingPacketCount : Nat := 8

inductive OpCode where
  | invalid
  | store
  | clear
  deriving DecidableEq, Repr

/-- `pstorage_handle_t`. -/
structure Handle where
  moduleId : Nat
  blockId : Nat
  deriving DecidableEq, Repr

/-- A call of an owner. `data` is what the RAM at `src` holds, for as long as the request lives. -/
inductive Call where
  | store (dest : Handle) (src : Nat) (data : List Byte) (offset : Nat)
  | clear (dest : Handle) (size : Nat)
  deriving DecidableEq, Repr

/-- What a callback reports, its result apart. -/
structure Notice where
  handle : Handle
  opCode : OpCode
  data : Nat
  size : Nat
  deriving DecidableEq, Repr

def Call.notice : Call → Notice
  | .store dest src data _ => ⟨dest, .store, src, data.length⟩
  | .clear dest size => ⟨dest, .clear, 0, size⟩

/-! ## State -/

/-- The `CMD_FLAG_*` of a command. -/
inductive Flag where
  | none
  | lazyErase
  | pendingStore
  deriving DecidableEq, Repr

/-- `p_data_addr`: memory of the owner, or a slot of the pending ring. -/
inductive Source where
  | ram (address : Nat) (data : List Byte)
  | slot (i : Nat)
  deriving DecidableEq, Repr

def Source.address : Source → Nat
  | .ram address _ => address
  | .slot _ => 0

/-- `cmd_queue_element_t`. -/
structure Cmd where
  opCode : OpCode
  flag : Flag
  size : Nat
  offset : Nat
  storageAddr : Handle
  dataAddr : Source
  deriving DecidableEq, Repr

/-- `cmd_queue_element_init`. -/
def Cmd.init : Cmd := ⟨.invalid, .none, 0, 0, ⟨pstorageNumOfPages, 0⟩, .ram 0 []⟩

/-- `pending_packet_t`. -/
structure Pending where
  handle : Handle
  offset : Nat
  size : Nat
  dataOrig : Nat
  data : List Byte
  deriving DecidableEq, Repr

def Pending.empty : Pending := ⟨⟨0, 0⟩, 0, 0, 0, []⟩

inductive FlashAccess where
  | idle
  | inFlight
  | waitBusy
  deriving DecidableEq, Repr

inductive FlashOp where
  | write (address : Nat) (data : List Byte)
  | erase (page : Nat)
  deriving DecidableEq, Repr

/-- The globals that the DFU layer owns. -/
structure DfuPages where
  /-- `dfu_page_erased`; `none` is the null pointer. -/
  erased : Option (Nat → Bool) := none
  imagePageCount : Nat := 0
  baseAddress : Nat := 0

/-- A call of the SoftDevice, for the command at the head of the queue, and the page map at its
time. -/
structure Issue where
  op : FlashOp
  flag : Flag
  answer : Code
  pages : DfuPages

/-- The statics, and what happened so far: the calls and their answers, the calls of the
SoftDevice, and the callbacks. -/
structure State where
  queue : Ring Cmd 18
  flashAccess : FlashAccess := .idle
  roundVal : Nat := 0
  pending : Ring Pending 8
  lazyEraseActive : Bool := false
  lazyErasePage : Nat := 0
  processingPending : Bool := false
  dfu : DfuPages := {}
  answers : List (Call × Code) := []
  issued : List Issue := []
  notified : List (Notice × Code) := []

def pstorageInit : State where
  queue := .empty (Nat.succ_pos 17) fun _ => .init
  pending := .empty (Nat.succ_pos 7) fun _ => .empty

/-- What an owner does in a callback or between two events: a call, or a change of the page map. -/
inductive Act where
  | call (c : Call)
  | dfu (change : DfuPages → DfuPages)

/-- The modules that registered after `pstorage_init`, the answers of the SoftDevice, and what
each callback does. -/
structure Env where
  modules : Nat
  sd : Nat → Code
  callback : Nat → List Act

/-! ## The queue -/

variable (env : Env)

def sdFlash (op : FlashOp) (flag : Flag) (s : State) : Code × State :=
  let answer := env.sd s.issued.length
  (answer, { s with issued := s.issued ++ [⟨op, flag, answer, s.dfu⟩] })

/-- The bytes that a command stores. -/
def sourceBytes (s : State) : Source → List Byte
  | .ram _ data => data
  | .slot i => (s.pending.slots i).data

def cmdProcess (s : State) : Code × State :=
  if s.queue.count = 0 then (nrfSuccess, s)
  else
    let cmd := s.queue.front
    let s := { s with flashAccess := .inFlight }
    let (retval, s) : Code × State :=
      match cmd.opCode with
      | .store =>
        let offset := s.roundVal * socMaxWriteSize % 2 ^ 32
        let size := sub32 cmd.size offset
        let address := add32 cmd.storageAddr.blockId (add32 cmd.offset offset)
        let words := (if size < socMaxWriteSize then size else socMaxWriteSize) / 4
        sdFlash env (.write address (((sourceBytes s cmd.dataAddr).drop offset).take (4 * words)))
          cmd.flag s
      | .clear =>
        sdFlash env (.erase (add32 (cmd.storageAddr.blockId / codePageSize) s.roundVal)) cmd.flag s
      | .invalid => (nrfErrorForbidden, s)
    let flashAccess :=
      if retval = nrfErrorBusy then .waitBusy
      else if retval ≠ nrfSuccess then .idle
      else s.flashAccess
    (retval, { s with flashAccess := flashAccess })

def State.pushCmd (s : State) (cmd : Cmd) : State := { s with queue := s.queue.push cmd }

/-- Give up the command behind all others. -/
def State.dropCmd (s : State) : State :=
  { s with queue := s.queue.dropBack .init, roundVal := 0 }

def State.popCmd (s : State) : State :=
  { s with queue := (s.queue.setFront .init).pop, roundVal := 0 }

def cmdQueueEnqueue (cmd : Cmd) (s : State) : Code × State :=
  if s.queue.count ≠ pstorageCmdQueueSize then
    -- `queue_was_empty`
    if s.queue.count = 0 ∧ s.flashAccess = .idle then
      let (retval, s) := cmdProcess env (s.pushCmd cmd)
      if retval = nrfErrorBusy then (nrfSuccess, s)
      else if retval ≠ nrfSuccess then (retval, s.dropCmd)
      else (retval, s)
    else (nrfSuccess, s.pushCmd cmd)
  else (nrfErrorNoMem, s)

def cmdQueueHeadPop (s : State) : Cmd × State :=
  (s.queue.front, s.popCmd)

def State.pushPending (s : State) (p : Pending) : State :=
  { s with pending := s.pending.push p }

def pendingPacketAdd (dest : Handle) (src : Nat) (data : List Byte) (offset : Nat) (s : State) :
    Bool × State :=
  if pendingPacketCount ≤ s.pending.count ∨ pendingPacketSize < data.length then (false, s)
  else (true, s.pushPending ⟨dest, offset, data.length, src, data⟩)

def pendingPacketPeek (s : State) : Option Pending :=
  if s.pending.count = 0 then none else some s.pending.front

def State.popPending (s : State) : State := { s with pending := s.pending.pop }

def pendingPacketPop (s : State) : State := if 0 < s.pending.count then s.popPending else s

/-- The page that a store needs erased first. -/
def pageToErase (pages : DfuPages) (blockId size offset : Nat) : Option Nat :=
  let targetAddr := add32 blockId offset
  match pages.erased with
  | none => none
  | some erased =>
    if targetAddr < pages.baseAddress then none
    else
      let pageIndex := sub32 targetAddr pages.baseAddress / codePageSize
      let endAddr := sub32 (add32 targetAddr size) 1
      let endPageIndex := sub32 endAddr pages.baseAddress / codePageSize
      let startNeedsErase := pageIndex < pages.imagePageCount && !erased pageIndex
      let endNeedsErase := endPageIndex ≠ pageIndex && endPageIndex < pages.imagePageCount &&
        !erased endPageIndex
      if startNeedsErase then some pageIndex
      else if endNeedsErase then some endPageIndex
      else none

def lazyEraseCheckAndTrigger (handle : Handle) (size offset : Nat) (s : State) :
    Code × State :=
  match pageToErase s.dfu handle.blockId size offset with
  | none => (nrfSuccess, s)
  | some erasePage =>
    let s := { s with lazyEraseActive := true, lazyErasePage := erasePage }
    let eraseHandle : Handle :=
      ⟨handle.moduleId, add32 s.dfu.baseAddress (erasePage * codePageSize % 2 ^ 32)⟩
    let (ret, s) := cmdQueueEnqueue env
      ⟨.clear, .lazyErase, codePageSize, 0, eraseHandle, .ram 0 []⟩ s
    if ret ≠ nrfSuccess then (ret, { s with lazyEraseActive := false }) else (nrfSuccess, s)

/-! ## Calls -/

def pstorageStore (dest : Handle) (src : Nat) (data : List Byte) (offset : Nat) (s : State) :
    Code × State :=
  if src % 4 ≠ 0 ∨ add32 dest.blockId offset % 4 ≠ 0 then (nrfErrorInvalidAddr, s)
  -- behind a buffered packet every store is buffered
  else if s.lazyEraseActive ∨ s.processingPending ∨ 0 < s.pending.count then
    let (added, s) := pendingPacketAdd dest src data offset s
    (if added then nrfSuccess else nrfErrorNoMem, s)
  else
    let (ret, s) := lazyEraseCheckAndTrigger env dest data.length offset s
    if ret ≠ nrfSuccess then (ret, s)
    else if s.lazyEraseActive then
      let (added, s) := pendingPacketAdd dest src data offset s
      (if added then nrfSuccess else nrfErrorNoMem, s)
    else
      cmdQueueEnqueue env ⟨.store, .none, data.length, offset, dest, .ram src data⟩ s

def pstorageClear (dest : Handle) (size : Nat) (s : State) : Code × State :=
  if s.lazyEraseActive ∨ s.processingPending ∨ 0 < s.pending.count then (nrfErrorNoMem, s)
  else cmdQueueEnqueue env ⟨.clear, .none, size, 0, dest, .ram 0 []⟩ s

def callOf (c : Call) (s : State) : Code × State :=
  match c with
  | .store dest src data offset => pstorageStore env dest src data offset s
  | .clear dest size => pstorageClear env dest size s

def act (s : State) : Act → State
  | .call c =>
    let (answer, s) := callOf env c s
    { s with answers := s.answers ++ [(c, answer)] }
  | .dfu change => { s with dfu := change s.dfu }

/-! ## Callbacks -/

/-- A module with a callback. -/
def Notice.hasCallback (modules : Nat) (n : Notice) : Bool :=
  n.handle.moduleId < pstorageNumOfPages && n.handle.moduleId < modules

/-- `app_notify` and `app_notify_buffered`. -/
def appNotify (result : Code) (n : Notice) (s : State) : State :=
  if n.hasCallback env.modules then
    (env.callback s.notified.length).foldl (act env)
      { s with notified := s.notified ++ [(n, result)] }
  else s

def Cmd.notice (cmd : Cmd) : Notice := ⟨cmd.storageAddr, cmd.opCode, cmd.dataAddr.address, cmd.size⟩

def Pending.notice (p : Pending) : Notice := ⟨p.handle, .store, p.dataOrig, p.size⟩

def abortLoop (result : Code) : Nat → State → State
  | 0, s => s
  | packetsToAbort + 1, s =>
    match pendingPacketPeek s with
    | none => s
    | some p => abortLoop result packetsToAbort (appNotify env result p.notice (pendingPacketPop s))

def pendingPacketsAbort (result : Code) (s : State) : State :=
  abortLoop env result s.pending.count
    { s with lazyEraseActive := false, lazyErasePage := 0, processingPending := false }

def cmdQueueFailHead (result : Code) (s : State) : State :=
  let (failedCmd, s) := cmdQueueHeadPop s
  if failedCmd.flag ≠ .none then pendingPacketsAbort env result s
  else appNotify env result failedCmd.notice s

/-! ## Advancing the queue -/

/-- `process_pending_packets`; `dequeue` is `cmd_queue_dequeue`. -/
def processPendingPackets (dequeue : State → Option State) (s : State) : Option State :=
  if s.processingPending ∨ s.lazyEraseActive ∨ 0 < s.queue.count then some s
  else
    match pendingPacketPeek s with
    | none => some s
    | some p =>
      let (ret, s) := lazyEraseCheckAndTrigger env p.handle p.size p.offset s
      if ret ≠ nrfSuccess then dequeue (pendingPacketsAbort env ret s)
      else if s.lazyEraseActive then some s
      else
        let s := { s with processingPending := true }
        let (ret, s) := cmdQueueEnqueue env
          ⟨.store, .pendingStore, p.size, p.offset, p.handle, .slot s.pending.head⟩ s
        if ret ≠ nrfSuccess then dequeue (pendingPacketsAbort env ret s) else some s

def cmdQueueDequeue : Nat → State → Option State
  | 0, _ => none
  | fuel + 1, s =>
    if 0 < s.queue.count ∧ s.flashAccess = .idle then
      let (retval, s) := cmdProcess env s
      if retval = nrfSuccess ∨ retval = nrfErrorBusy then some s
      else cmdQueueDequeue fuel (cmdQueueFailHead env retval s)
    else if s.queue.count = 0 ∧ 0 < s.pending.count ∧ !s.processingPending ∧ !s.lazyEraseActive then
      processPendingPackets env (cmdQueueDequeue fuel) s
    else some s

inductive SysEvt where
  | flashSuccess
  | flashError
  | other
  deriving DecidableEq, Repr

def DfuPages.mark (pages : DfuPages) (page : Nat) : DfuPages :=
  { pages with erased := pages.erased.map fun erased i =>
      if i = page ∧ i < pages.imagePageCount then true else erased i }

/-- The lazy erase is complete. -/
def State.pageErased (s : State) : State :=
  { s with dfu := s.dfu.mark s.lazyErasePage, lazyEraseActive := false }

/-- The head of the queue is complete. -/
def commandFinished (fuel : Nat) (s : State) : Option State :=
  let (completedCmd, s) := cmdQueueHeadPop s
  match completedCmd.flag with
  | .lazyErase =>
    processPendingPackets env (cmdQueueDequeue env fuel) s.pageErased
  | .pendingStore =>
    match pendingPacketPeek s with
    | some p => some (appNotify env nrfSuccess p.notice
        { pendingPacketPop s with processingPending := false })
    | none => some { s with processingPending := false }
  | .none => some (appNotify env nrfSuccess completedCmd.notice s)

/-- One more round of the head is complete. -/
def State.nextRound (s : State) : State := { s with roundVal := s.roundVal + 1 }

/-- `command_finished`, and what follows from it. -/
def roundDone (fuel : Nat) (s : State) : Option State :=
  if s.queue.front.size ≤ s.roundVal * socMaxWriteSize % 2 ^ 32 then commandFinished env fuel s
  else some s

/-- The next queued command, or the next buffered packet. -/
def processNext (fuel : Nat) (s : State) : Option State :=
  if 0 < s.queue.count then cmdQueueDequeue env fuel s
  else if 0 < s.pending.count ∧ !s.processingPending ∧ !s.lazyEraseActive then
    processPendingPackets env (cmdQueueDequeue env fuel) s
  else some s

def State.released (s : State) : State := { s with flashAccess := .idle }

def pstorageSysEventHandler (fuel : Nat) (sysEvt : SysEvt) (s : State) : Option State :=
  match sysEvt, s.flashAccess with
  | .other, _ => some s
  -- the event belongs to the request that was in the way
  | _, .waitBusy => cmdQueueDequeue env fuel s.released
  | _, .idle => some s
  | .flashSuccess, .inFlight =>
    (roundDone env fuel s.released.nextRound).bind (processNext env fuel)
  | .flashError, .inFlight =>
    cmdQueueDequeue env fuel (cmdQueueFailHead env nrfErrorTimeout s.released)

/-! ## Events -/

inductive Event where
  | sys (e : SysEvt) (fuel : Nat)
  | act (a : Act)

/-- `none` is a depth that did not suffice. -/
def handleEvent (s : State) : Event → Option State
  | .sys e fuel => pstorageSysEventHandler env fuel e s
  | .act a => some (act env s a)

end OtaFix.Pstorage
