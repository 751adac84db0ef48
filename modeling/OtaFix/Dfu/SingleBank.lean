import OtaFix.Dfu.Init
import OtaFix.Nvm

/-!
# The DFU state machine

`dfu_single_bank.c`: START, INIT, DATA, VALIDATE and ACTIVATE of one image in
bank 0. The checks and the state are those of every transport; `serialStart` and
`serialData` are the paths that write flash directly, through the page cache.
-/

namespace OtaFix

open Lib

inductive DfuState where
  | idle
  | preparing
  | rdy
  | rxInitPkt
  | rxDataPkt
  | validate
  | wait4Activate
  deriving DecidableEq, Repr

/-- The variables of `dfu_single_bank.c`; `blockId` is the bank 0 address read by
`dfu_init`. -/
structure Dfu where
  state : DfuState := .idle
  blockId : Nat
  imageSize : Nat := 0
  startPacket : StartPacket := ⟨0, 0, 0, 0⟩
  initPacket : List Byte := []
  extendedPacket : List Byte := []
  imageCrc : BitVec 16 := 0
  dataReceived : Nat := 0
  timedOut : Bool := false
  deriving DecidableEq, Repr

/-- Payload of a packet: whole words. -/
structure WordData where
  bytes : List Byte
  words : bytes.length % 4 = 0

def dfuImageMaxSizeFull (m : Mem) : Nat :=
  sub32 (sub32 bootloaderRegionStart (dfuBank0RegionStart m)) dfuAppDataReserved

/-! ## START -/

/-- The checks of `dfu_start_pkt_handle`, up to the preparation of the bank. -/
def dfuStartAdmit (p : StartPacket) (m : Mem) (d : Dfu) : NrfError × Dfu :=
  if d.state ≠ .idle then (.invalidState, d)
  else
    let d := { d with startPacket := p }
    match dfuStartPacketValidate p with
    | .error e => (e, d)
    | .ok size =>
      let d := { d with imageSize := size }
      if dfuImageMaxSizeFull m < size then (.dataSize, d)
      else if d.timedOut then (.invalidState, d)
      else (.success, d)

/-- `dfu_prepare_func_app_erase` on the direct path, with its completion: erase the
bank, then replace the settings record. -/
def serialPrepare (cfg : DfuConfig) (d : Dfu) (n : Nvm) : Dfu × Nvm :=
  let n := n.run (flashNrf5xErase (dfuBank0RegionStart n.mem) d.imageSize)
  let n := bootloaderDfuUpdateProcess n .serial .bank0Erased
  ({ d with state := if cfg.signedFw then .rxDataPkt else .rdy }, n)

def serialStart (cfg : DfuConfig) (p : StartPacket) (d : Dfu) (n : Nvm) : Dfu × Nvm :=
  let (r, d) := dfuStartAdmit p n.mem d
  if r ≠ .success then (d, n)
  else if cfg.signedFw then ({ d with state := .rdy }, n)
  else serialPrepare cfg d n

/-! ## INIT -/

/-- `dfu_init_pkt_handle`. -/
def dfuInitPktHandle (data : WordData) (d : Dfu) : NrfError × Dfu :=
  if d.state ≠ .rdy ∧ d.state ≠ .rxInitPkt then (.invalidState, d)
  else
    let d := { d with state := .rxInitPkt }
    if 0 < d.dataReceived then (.invalidState, d)
    else if d.timedOut then (.invalidState, d)
    else if 128 < data.bytes.length then (.invalidLength, d)
    else if 128 - data.bytes.length < d.initPacket.length then (.invalidLength, d)
    else (.success, { d with initPacket := d.initPacket ++ data.bytes })

/-- The check of `dfu_init_pkt_complete`: whether the packet is accepted. -/
def dfuInitAdmit (cfg : DfuConfig) (m : Mem) (d : Dfu) : NrfError × Dfu :=
  if 0 < d.dataReceived then (.invalidState, d)
  else if d.state ≠ .rxInitPkt then (.invalidState, d)
  else
    let r := dfuInitPrevalidate cfg m d.initPacket d.startPacket.dfuUpdateMode d.imageSize
      d.extendedPacket
    if r.1 = .success then (.success, { d with extendedPacket := r.2 })
    else (r.1, { d with extendedPacket := r.2, initPacket := [] })

/-- `dfu_init_pkt_handle` and `dfu_init_pkt_complete`, as the serial transport calls them. -/
def serialInit (cfg : DfuConfig) (data : WordData) (d : Dfu) (n : Nvm) : Dfu × Nvm :=
  let (r, d) := dfuInitPktHandle data d
  if r ≠ .success then (d, n)
  else
    let (r, d) := dfuInitAdmit cfg n.mem d
    if r ≠ .success then (d, n)
    else if cfg.signedFw then serialPrepare cfg d n
    else ({ d with state := .rxDataPkt }, n)

/-! ## DATA -/

/-- The checks of `dfu_data_pkt_handle`. -/
def dfuDataAdmit (data : WordData) (d : Dfu) : NrfError × Dfu :=
  if d.state ≠ .rxDataPkt then (.invalidState, d)
  else if d.imageSize < d.dataReceived ∨
      (d.imageSize - d.dataReceived) / 4 < data.bytes.length / 4 then
    (.dataSize, { d with dataReceived := 0xFFFFFFFF })
  else if d.timedOut then (.invalidState, d)
  else (.success, d)

/-- Count the bytes of an accepted packet; the answer says whether the image is complete. -/
def dfuDataCount (data : WordData) (d : Dfu) : NrfError × Dfu :=
  let d := { d with dataReceived := add32 d.dataReceived data.bytes.length }
  (if d.dataReceived ≠ d.imageSize then .invalidLength else .success, d)

def serialData (data : WordData) (d : Dfu) (n : Nvm) : Dfu × Nvm :=
  let (r, d) := dfuDataAdmit data d
  if r ≠ .success then (d, n)
  else
    let w := flashNrf5xWrite n.cache n.mem (dfuBank0RegionStart n.mem + d.dataReceived) data.bytes
      false
    let n := { n.run w.2 with cache := w.1 }
    let (r, d) := dfuDataCount data d
    if r ≠ .success then (d, n)
    else
      let f := flashNrf5xFlush n.cache n.mem false
      (d, { n.run f.2 with cache := f.1 })

/-! ## VALIDATE and ACTIVATE -/

/-- `dfu_image_validate`. -/
def dfuImageValidate (cfg : DfuConfig) (m : Mem) (d : Dfu) : NrfError × Dfu :=
  if d.state ≠ .rxDataPkt then (.invalidState, d)
  else if d.dataReceived ≠ d.imageSize then (.invalidState, d)
  else
    let d := { d with state := .validate }
    let image := slice m d.blockId d.imageSize
    if d.timedOut then (.invalidState, d)
    else
      match dfuInitPostvalidate cfg image d.extendedPacket with
      | none => (.invalidData, d)
      | some crc =>
        let d := { d with imageCrc := crc }
        let r := dfuImagePolicyValidate cfg.board m image d.startPacket
        if r ≠ .success then (r, d) else (.success, { d with state := .wait4Activate })

/-- The update status `m_functions.activate` reports. -/
def dfuActivateStatus (m : Mem) (d : Dfu) : UpdateStatus :=
  let p := d.startPacket
  if p.dfuUpdateMode.testBit 0 then
    .sdComplete d.imageCrc p.sdImageSize p.blImageSize p.appImageSize (dfuBank0RegionStart m)
  else if p.dfuUpdateMode.testBit 1 then .bootComplete p.sdImageSize p.blImageSize p.appImageSize
  else .appComplete d.imageCrc p.appImageSize

/-- `dfu_image_validate` and `dfu_image_activate`, as the serial transport calls them. -/
def serialStop (cfg : DfuConfig) (d : Dfu) (n : Nvm) : Dfu × Nvm :=
  let (r, d) := dfuImageValidate cfg n.mem d
  if r ≠ .success then (d, n)
  else
    let n := n.note (.validated .serial d.blockId (slice n.mem d.blockId d.imageSize))
    (d, bootloaderDfuUpdateProcess n .serial (dfuActivateStatus n.mem d))

/-! ## The serial transport -/

/-- The packets `process_dfu_packet` takes from its queue. -/
inductive SerialPacket where
  | start (p : StartPacket)
  | init (data : WordData)
  | data (data : WordData)
  | stop

def processDfuPacket (cfg : DfuConfig) (p : SerialPacket) (d : Dfu) (n : Nvm) : Dfu × Nvm :=
  match p with
  | .start p => serialStart cfg p d n
  | .init data => serialInit cfg data d n
  | .data data => serialData data d n
  | .stop => serialStop cfg d n

end OtaFix
