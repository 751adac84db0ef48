import OtaFix.Hci.MemPool
import OtaFix.Hci.Packet
import OtaFix.Hci.SlipLink

/-!
# The HCI transport

`hci_transport.c`, between SLIP and the application: stop-and-wait with sequence numbers modulo
eight and five retransmissions. `slip_event_handle` is the layer above the SLIP receiver; what is
written to SLIP stands on a line of whole frames. The application extracts a packet in its
`HCI_TRANSPORT_RX_RDY` handler, as `rpc_transport_event_handler` does, and consumes it later.
-/

namespace OtaFix.Hci

open Lib

def ackBufSize : Nat := 5

def maxRetryCount : Nat := 5

inductive TxState where
  | idle
  | pending
  | active
  deriving DecidableEq, Repr

/-- A buffer that SLIP stores into: one of the pool, or `m_rx_ack_buffer`. -/
inductive RxBuf where
  | pool (slot : Nat)
  | ack
  deriving DecidableEq, Repr

/-! ## The line -/

/-- A packet that SLIP transmits, and whose buffer it is in. -/
inductive Outgoing where
  | ack (packet : List Byte)
  | data (packet : List Byte)
  deriving DecidableEq, Repr

def Outgoing.bytes : Outgoing → List Byte
  | .ack packet => packet
  | .data packet => packet

/-- The packet in transmission, and those before it that have not arrived. -/
structure Line where
  sending : Option Outgoing := none
  sent : List (List Byte) := []
  deriving DecidableEq, Repr

/-- `hci_slip_write`; SLIP refuses the packet while it transmits another one. -/
def Line.write (l : Line) (o : Outgoing) : Line :=
  match l.sending with
  | none => { l with sending := some o }
  | some _ => l

def Line.frames (l : Line) : List (List Byte) := l.sent ++ (l.sending.map Outgoing.bytes).toList

/-- `ack_transmit`. The packet is built in a buffer that SLIP may still be reading: then the first
`left` bytes of the line's packet are from before. -/
def ackTransmit (left : Nat) (expected : Seq) (l : Line) : Line :=
  match l.sending with
  | none => { l with sending := some (.ack (ackPacket expected)) }
  | some (.ack packet) =>
    { l with sending := some (.ack (packet.take left ++ (ackPacket expected).drop left)) }
  | some (.data _) => l

/-! ## Statics -/

/-- The transmitting half. `results` are the calls of the TX-done handler, `written` the payloads
that `hci_transport_pkt_write` accepted. -/
structure TxSide where
  state : TxState := .idle
  number : Seq := 1
  buffer : List Byte := []
  retryCounter : Nat := 0
  result : Bool := false
  results : List Bool := []
  written : List (List Byte) := []
  deriving DecidableEq, Repr

/-- The receiving half. `used` is `mp_slip_used_rx_buffer`, `memory` what the pool's buffers hold;
`got` are the payloads that the application extracted, `out` those that it has not consumed. -/
structure RxSide where
  expected : Seq := 1
  used : Option Nat := none
  decodeReady : Bool := false
  pool : MemPool := {}
  memory : Nat → List Byte := fun _ => []
  got : List (List Byte) := []
  out : List (Nat × List Byte) := []

structure Transport where
  tx : TxSide := {}
  rx : RxSide := {}
  line : Line := {}

/-! ## Transmission -/

/-- The entry of `TX_STATE_IDLE`. -/
def TxSide.idle (t : TxSide) (result : Bool) : TxSide :=
  { t with state := .idle, result := result, results := t.results ++ [result] }

def TxSide.active (t : TxSide) : TxSide := { t with state := .active, retryCounter := 0 }

def TxSide.pending (t : TxSide) : TxSide := { t with state := .pending }

def TxSide.load (t : TxSide) (packet payload : List Byte) : TxSide :=
  { t with buffer := packet, written := t.written ++ [payload] }

def TxSide.retry (t : TxSide) : TxSide := { t with retryCounter := t.retryCounter + 1 }

/-- `TX_EVENT_VALID_RX_ACK`, after the result code was set. -/
def TxSide.acked (t : TxSide) : TxSide :=
  match t.state with
  | .active => { t with number := t.number + 1 }.idle true
  | .idle => { t with result := true }
  | .pending => { t with result := true }

/-- `hci_transport_pkt_write` and `pkt_write_handle`. -/
def hciTransportPktWrite (payload : List Byte) (h : Transport) : Bool × Transport :=
  match h.tx.state with
  | .idle =>
    let tx := h.tx.load (dataPacket h.rx.expected h.tx.number payload) payload
    if h.line.sending = none then
      (true, { h with tx := tx.active, line := h.line.write (.data tx.buffer) })
    else (true, { h with tx := tx.pending })
  | .pending => (false, h)
  | .active => (false, h)

/-- `hci_transport_timeout_handle`. -/
def hciTransportTimeoutHandle (h : Transport) : Transport :=
  match h.tx.state with
  | .active =>
    if h.tx.retryCounter ≠ maxRetryCount then
      { h with tx := h.tx.retry, line := h.line.write (.data h.tx.buffer) }
    else { h with tx := h.tx.idle false }
  | .idle => h
  | .pending => h

/-- `HCI_SLIP_TX_DONE`. In `TX_STATE_PENDING` each packet that SLIP finishes within
`hci_slip_write` is written once more: `copies` of them. -/
def slipTxDone (copies : Nat) (h : Transport) : Transport :=
  match h.line.sending with
  | none => h
  | some o =>
    match h.tx.state with
    | .pending =>
      { h with
        tx := h.tx.active
        line := { sending := some (.data h.tx.buffer),
                  sent := h.line.sent ++ [o.bytes] ++ List.replicate copies h.tx.buffer } }
    | .idle => { h with line := { sending := none, sent := h.line.sent ++ [o.bytes] } }
    | .active => { h with line := { sending := none, sent := h.line.sent ++ [o.bytes] } }

/-! ## Reception -/

/-- `mp_slip_used_rx_buffer`, registered once more. -/
def registerUsed (rx : RxSide) : SlipRx RxBuf :=
  hciSlipRxBufferRegister (rx.used.map .pool) rxBufSize

/-- The buffer that was produced, or else the one for acknowledgements. -/
def registerProduced (rx : RxSide) : SlipRx RxBuf :=
  match rx.used with
  | some slot => hciSlipRxBufferRegister (some (.pool slot)) rxBufSize
  | none => hciSlipRxBufferRegister (some .ack) ackBufSize

def RxSide.produce (rx : RxSide) : RxSide :=
  { rx with pool := rx.pool.rxProduce.2, used := rx.pool.rxProduce.1 }

/-- A packet of the expected number. -/
def RxSide.accept (rx : RxSide) (p : List Byte) : RxSide :=
  { rx with expected := rx.expected + 1, decodeReady := true,
            pool := rx.pool.rxDataSizeSet p.length }

/-- What SLIP has stored. -/
def RxSide.store (rx : RxSide) (buffer : Option RxBuf) (p : List Byte) : RxSide :=
  match buffer with
  | some (.pool slot) => { rx with memory := Function.update rx.memory slot p }
  | some .ack => rx
  | none => rx

def RxSide.handOver (rx : RxSide) (slot : Nat) (payload : List Byte) : RxSide :=
  { rx with decodeReady := false, pool := rx.pool.rxExtract.2, got := rx.got ++ [payload],
            out := rx.out ++ [(slot, payload)] }

/-- `hci_transport_rx_pkt_extract`. -/
def RxSide.extract (rx : RxSide) : RxSide :=
  if rx.decodeReady then
    match rx.pool.rxExtract.1 with
    | some (slot, length) => rx.handOver slot (payloadOf ((rx.memory slot).take length))
    | none => { rx with decodeReady := false, pool := rx.pool.rxExtract.2 }
  else rx

/-- `hci_transport_rx_pkt_consume`. -/
def RxSide.consume (rx : RxSide) (slot : Nat) : RxSide :=
  { rx with pool := (rx.pool.rxConsume slot).2, out := rx.out.eraseP (·.1 = slot) }

def rxVendorSpecificPktTypeHandle (left : Nat) (p : List Byte) (h : Transport) :
    Transport × SlipRx RxBuf :=
  if isRxPktValid p then
    if h.rx.expected = packetSeqNmbrExtract p then
      let rx := (h.rx.accept p).produce
      ({ h with rx := rx.extract, line := ackTransmit left rx.expected h.line },
        registerProduced rx)
    else ({ h with line := ackTransmit left h.rx.expected h.line }, registerUsed h.rx)
  else (h, registerUsed h.rx)

/-- The packet is dropped. -/
def rxPktDrop (h : Transport) : Transport × SlipRx RxBuf :=
  match h.rx.used with
  | some _ => (h, registerUsed h.rx)
  | none => ({ h with rx := h.rx.produce }, registerProduced h.rx.produce)

/-- `slip_event_handle`, but for `HCI_SLIP_TX_DONE`. -/
def slipEventHandle (left : Nat) : Upper Transport RxBuf
  | .rxRdy buffer p, s =>
    let h := { s.1 with rx := s.1.rx.store buffer p }
    match packetTypeDecode p with
    | none => rxPktDrop h
    | some type =>
      if type = pktTypeVendorSpecific then rxVendorSpecificPktTypeHandle left p h
      else if type = pktTypeAck then
        if rxAckPktTypeHandle h.tx.number p then rxPktDrop { h with tx := h.tx.acked }
        else rxPktDrop h
      else rxPktDrop h
  | .rxOverflow _ _, s => (s.1, hciSlipRxBufferRegister (some .ack) ackBufSize)

/-! ## An endpoint -/

abbrev Endpoint := Transport × SlipRx RxBuf

/-- `hci_transport_open`. -/
def hciTransportOpen : Endpoint :=
  let rx : RxSide := RxSide.produce {}
  ({ rx := rx }, hciSlipRxBufferRegister (rx.used.map .pool) rxBufSize)

/-- SLIP decodes a whole packet: it fits the registered buffer, or it overflows. -/
def arrive (left : Nat) (p : List Byte) (s : Endpoint) : Endpoint :=
  if p = [] then s
  else if s.2.buffer ≠ none ∧ p.length < s.2.size then
    slipEventHandle left (.rxRdy s.2.buffer p) (s.1, s.2.taken)
  else slipEventHandle left (.rxOverflow s.2.buffer s.2.size) s

inductive HostEvent where
  | write (payload : List Byte)
  | txDone (copies : Nat)
  | timeout
  | consume (slot : Nat)
  | arrive (p : List Byte) (left : Nat)
  deriving DecidableEq, Repr

def hostStep (s : Endpoint) : HostEvent → Endpoint
  | .write payload => ((hciTransportPktWrite payload s.1).2, s.2)
  | .txDone copies => (slipTxDone copies s.1, s.2)
  | .timeout => (hciTransportTimeoutHandle s.1, s.2)
  | .consume slot => ({ s.1 with rx := s.1.rx.consume slot }, s.2)
  | .arrive p left => arrive left p s

end OtaFix.Hci
