import OtaFix.Lib.Ring
import OtaFix.Lib.Run
import OtaFix.SecureDfu.Effect

/-!
# Secure DFU over BLE

The statics of `secure_dfu_ble.c` and the part of the SoftDevice they talk to.
`sd_ble_gatts_hvx` answers from a stream, one answer a call; a notification it
accepts stays with the SoftDevice until a `HVN_TX_COMPLETE` event reports it,
in order and on the same connection. Timer comparisons and the results of the
calls that end in `APP_ERROR_CHECK` are inputs of the event; a failed check is
a system reset, after which nothing more happens (`halted`).
-/

namespace OtaFix.SecureDfu

open Lib

/-! ## Events and answers -/

inductive HvxResult where
  | success
  | resources
  | busy
  | invalidState
  | sysAttrMissing
  | invalidConnHandle
  | timeout
  | other
  deriving DecidableEq, Repr

/-- The answers of `sd_ble_gatts_hvx` and the length of its transmit queue, a
`uint8_t` of the connection configuration. -/
structure SoftDevice where
  hvx : Nat → HvxResult
  hvnTxQueueSize : Nat
  hvnTxQueueSize_lt : hvnTxQueueSize < 2 ^ 8

inductive Handle where
  | cccd
  | control
  | packet
  | other
  deriving DecidableEq, Repr

inductive WriteOp where
  | writeReq
  | writeCmd
  | other
  deriving DecidableEq, Repr

/-- `ble_gatts_evt_write_t`. -/
structure GattWrite where
  handle : Handle
  op : WriteOp := .writeReq
  offset : Nat := 0
  data : List Byte
  deriving DecidableEq, Repr

inductive BleEvent where
  | connected
  | disconnected
  | txComplete (count : Nat) (closeOk activateOk : Bool)
  | write (w : GattWrite) (h : Hooks) (disconnectOk : Bool)
  /-- `secure_dfu_ble_poll`; `due`: 100 ms have passed since the last attempt. -/
  | poll (due : Bool)

/-! ## State -/

/-- A queued response: its bytes, the activation flag, and the write it answers. -/
structure Receipt where
  bytes : List Byte
  final : Bool
  conn : Nat
  handle : Handle
  request : List Byte
  after : Session

structure Ble where
  session : Session
  queue : Ring Receipt 8
  finalResponseSent : Bool := false
  notificationsEnabled : Bool := false
  connectionBlocked : Bool := true
  txPending : Nat := 0
  /-- `conn_handle != BLE_CONN_HANDLE_INVALID` -/
  linked : Bool := false
  halted : Bool := false
  /-- Connections so far. -/
  conn : Nat := 0
  hvxCalls : Nat := 0
  /-- What the SoftDevice accepted on this connection, and how many of them it
  has reported complete. -/
  accepted : List Receipt := []
  reported : Nat := 0
  /-- The receipts were cleared while the SoftDevice still held some of them. -/
  stale : Bool := false

/-- What an event does outside the module; `session`: a write was handed to it. -/
inductive Out where
  | session
  | hook (c : Call)
  | activate
  deriving DecidableEq

def noReceipt : Receipt := ⟨[], false, 0, .other, [], secureDfuInit⟩

def secureDfuBleInit : Ble where
  session := secureDfuInit
  queue := .empty (by decide) fun _ => noReceipt

/-! ## Notifications -/

def clearReceipts (b : Ble) : Ble :=
  { b with
    queue := b.queue.clear, finalResponseSent := false, notificationsEnabled := false,
    txPending := 0 }

/-- The answer to the next notification. A full transmit queue accepts nothing. -/
def SoftDevice.answer (sd : SoftDevice) (b : Ble) : HvxResult :=
  if sd.hvx b.hvxCalls = .success ∧ sd.hvnTxQueueSize ≤ b.accepted.length - b.reported then
    .resources
  else sd.hvx b.hvxCalls

/-- The condition of the send loop. -/
def canSend (b : Ble) : Bool :=
  !b.connectionBlocked && b.queue.count != 0 && b.notificationsEnabled && b.linked

/-- The head of the queue went out. -/
def sent (b : Ble) : Ble :=
  { b with
    hvxCalls := b.hvxCalls + 1
    accepted := b.accepted ++ [b.queue.front]
    txPending := (b.txPending + 1) % 2 ^ 16
    finalResponseSent := b.queue.front.final || b.finalResponseSent
    queue := b.queue.pop }

/-- The link is gone: the receipts are dropped, the session stays. -/
def lostLink (b : Ble) : Ble :=
  { clearReceipts b with
    hvxCalls := b.hvxCalls + 1
    stale := b.stale || b.reported < b.accepted.length }

/-- The send loop. A turn that goes on takes one receipt off the queue, so its
count is fuel enough. -/
def flushLoop (sd : SoftDevice) : Nat → Ble → Ble
  | 0, b => b
  | fuel + 1, b =>
    if canSend b then
      match sd.answer b with
      | .resources | .busy | .invalidState | .sysAttrMissing =>
        { b with hvxCalls := b.hvxCalls + 1 }
      | .invalidConnHandle | .timeout => lostLink b
      | .other => { b with hvxCalls := b.hvxCalls + 1, halted := true }
      | .success => flushLoop sd fuel (sent b)
    else b

def flushNotifications (sd : SoftDevice) (b : Ble) : Ble := flushLoop sd b.queue.count b

/-! ## Events -/

def onConnected (b : Ble) : Ble :=
  { clearReceipts b with
    linked := true, connectionBlocked := false, session := { b.session with prnCount := 0 }
    conn := b.conn + 1, accepted := [], reported := 0, stale := false }

def onDisconnected (b : Ble) : Ble :=
  { clearReceipts b with
    linked := false, connectionBlocked := true, accepted := [], reported := 0, stale := false }

/-- The answer of the session to a control or packet write. -/
def sessionAnswer (cfg : Platform) (h : Hooks) (w : GattWrite) (b : Ble) :
    Session × List Byte × List Call :=
  if w.handle = .control then secureDfuControl cfg h b.session w.data
  else secureDfuPacket b.session w.data

/-- The receipt of a write; `final` marks a successful EXECUTE of the last object. -/
def receiptOf (w : GattWrite) (conn : Nat) (r : Session × List Byte × List Call) : Receipt where
  bytes := r.2.1
  final := w.handle = .control && w.data = [4] && r.1.selected = some .data && r.1.completed &&
    r.2.1.length = 3 && r.2.1[2]? = some 1
  conn := conn
  handle := w.handle
  request := w.data
  after := r.1

/-- Hand a write to the session and queue its response, if it has one. -/
def consume (cfg : Platform) (h : Hooks) (w : GattWrite) (b : Ble) : Ble :=
  let r := sessionAnswer cfg h w b
  { b with
    session := r.1
    queue := if r.2.1 = [] then b.queue else b.queue.push (receiptOf w b.conn r) }

/-- The report of `count` transmitted notifications, as the module counts them. -/
def reportTx (b : Ble) (count : Nat) : Ble :=
  { b with
    reported := b.reported + count
    txPending := if count ≤ b.txPending then b.txPending - count else b.txPending }

/-- The final receipt is out: close the transport and activate. Else send on. -/
def afterReport (b : Ble) (closeOk activateOk : Bool) : Ble × List Out × Bool :=
  if b.finalResponseSent = true ∧ b.queue.count = 0 ∧ b.txPending = 0 then
    if closeOk then
      ({ b with finalResponseSent := false, halted := !activateOk }, [.activate], false)
    else ({ b with finalResponseSent := false, halted := true }, [], false)
  else (b, [], true)

def onTxComplete (b : Ble) (count : Nat) (closeOk activateOk : Bool) : Ble × List Out × Bool :=
  if b.connectionBlocked then ({ b with reported := b.reported + count }, [], false)
  else afterReport (reportTx b count) closeOk activateOk

def onWrite (cfg : Platform) (b : Ble) (w : GattWrite) (h : Hooks) (disconnectOk : Bool) :
    Ble × List Out × Bool :=
  if b.connectionBlocked || !b.linked then (b, [], false)
  else if w.handle = .cccd then
    ({ b with notificationsEnabled := w.offset = 0 && w.data = [1, 0] }, [], true)
  else if !b.notificationsEnabled then (b, [], false)
  else if w.handle ≠ .control ∧ w.handle ≠ .packet then (b, [], false)
  else if w.offset ≠ 0 ∨ w.op = .other then (b, [], false)
  else if b.queue.count = 8 then
    -- quarantine the link until DISCONNECTED
    ({ b with connectionBlocked := true, halted := !disconnectOk }, [], false)
  else (consume cfg h w b, .session :: (sessionAnswer cfg h w b).2.2.map .hook, true)

/-- An event up to its `flush_notifications`: the state, what was done outside,
and whether the flush follows. -/
def handleEvent (cfg : Platform) (b : Ble) : BleEvent → Ble × List Out × Bool
  | .connected => (onConnected b, [], false)
  | .disconnected => (onDisconnected b, [], false)
  | .txComplete count closeOk activateOk => onTxComplete b count closeOk activateOk
  | .write w h disconnectOk => onWrite cfg b w h disconnectOk
  | .poll due => (b, [], canSend b && due)

def bleStep (cfg : Platform) (sd : SoftDevice) (b : Ble) (e : BleEvent) : Ble × List Out :=
  if b.halted then (b, [])
  else
    let r := handleEvent cfg b e
    (if r.2.2 then flushNotifications sd r.1 else r.1, r.2.1)

end OtaFix.SecureDfu
