import Mathlib.Algebra.BigOperators.Ring.List
import Mathlib.Algebra.Ring.Nat
import OtaFix.Lib.Run
import OtaFix.Image

/-!
# Firmware data over BLE

`dfu_transport_ble.c`: reassembly of the ATT writes of a firmware stream into the
whole words `dfu_data_pkt_handle` takes. Small or odd fragments go through the
accumulator, which keeps a suffix of at most three bytes back; a lost link drops
that suffix. `BleLink` adds the peer, which sends the stream from its own position
and resumes at the count reported after a reconnection.
-/

namespace OtaFix

open Lib

def accumulateThreshold : Nat := 64

/-- Size of `m_accum_buf`. -/
def accumulateTargetSize : Nat := 240

/-- What the RX pool and the DFU core answer to one fragment. -/
structure CoreAnswer where
  produce : NrfError := .success
  /-- Result of `hci_mem_pool_rx_data_size_set` and `hci_mem_pool_rx_extract`. -/
  extract : NrfError := .success
  /-- Result of `dfu_data_pkt_handle`; `invalidLength` asks for more data. -/
  handle : NrfError
  consume : NrfError := .success
  deriving DecidableEq, Repr

/-- The pool takes the fragment and the core accepts it. -/
def CoreAnswer.Accepts (a : CoreAnswer) : Prop :=
  a.produce = .success ∧ a.extract = .success ∧ (a.handle = .success ∨ a.handle = .invalidLength)

/-- What the peer is told. -/
inductive BleOut where
  /-- `dfu_error_notify`. -/
  | error (e : NrfError)
  /-- `ble_dfu_pkts_rcpt_notify`. -/
  | receipt (bytes : Nat)
  /-- `ble_dfu_bytes_rcvd_report`. -/
  | bytesRcvd (bytes : Nat)
  deriving DecidableEq, Repr

/-- The variables of the firmware-data phase. `handed` lists the fragments given to
`dfu_data_pkt_handle`, `calls` counts the fragments offered to the pool, `sent` what the
peer was told. -/
structure BleTransport where
  accumBuf : List Byte := List.replicate accumulateTargetSize 0
  accumLen : Nat := 0
  accumActive : Bool := false
  reportedImageSize : Nat := 0
  numOfFirmwareBytesRcvd : Nat := 0
  pktNotifTarget : Nat := 0
  pktNotifTargetCnt : Nat := 0
  pktRcptNotifEnabled : Bool := false
  /-- `mp_final_packet`: the index of the fragment that completed the image. -/
  finalPacket : Option Nat := none
  handed : List (List Byte) := []
  calls : Nat := 0
  sent : List BleOut := []
  deriving DecidableEq, Repr

namespace BleTransport

def say (t : BleTransport) (o : BleOut) : BleTransport := { t with sent := t.sent ++ [o] }

/-- The byte count of both reports. -/
def received (t : BleTransport) : Nat := add32 t.numOfFirmwareBytesRcvd t.accumLen

end BleTransport

/-! ## The functions of the source -/

/-- Pass one word-aligned fragment to the DFU core. -/
def alignedDataProcess (core : Nat → CoreAnswer) (data : List Byte) (t : BleTransport) :
    Bool × BleTransport :=
  if data.length = 0 ∨ data.length % 4 ≠ 0 then (false, t.say (.error .invalidLength))
  else
    let a := core t.calls
    let t := { t with calls := t.calls + 1 }
    if a.produce ≠ .success then (false, t.say (.error a.produce))
    else if a.extract ≠ .success then (false, t.say (.error a.extract))
    else
      let t := { t with handed := t.handed ++ [data] }
      if a.handle = .success ∨ a.handle = .invalidLength then
        (true, { t with
          numOfFirmwareBytesRcvd := add32 t.numOfFirmwareBytesRcvd data.length
          finalPacket := if a.handle = .success then some t.calls else t.finalPacket })
      else
        let t := if a.consume ≠ .success then t.say (.error a.consume) else t
        (false, t.say (.error a.handle))

/-- Flush only complete words, retaining a zero-to-three-byte suffix. -/
def accumFlush (core : Nat → CoreAnswer) (t : BleTransport) : Bool × BleTransport :=
  let length := t.accumLen - t.accumLen % 4
  if length = 0 then (true, t)
  else
    match alignedDataProcess core (t.accumBuf.take length) t with
    | (false, t) => (false, { t with accumLen := 0 })
    | (true, t) =>
      let rest := t.accumLen - length
      (true, { t with
        accumLen := rest
        accumBuf := memcpy t.accumBuf 0 ((t.accumBuf.drop length).take rest) })

/-- Free bytes of the accumulator, a `uint16_t`. -/
def accumAvailable (t : BleTransport) : Nat :=
  (accumulateTargetSize + 2 ^ 16 - t.accumLen) % 2 ^ 16

/-- The loop of `accum_append`; every round takes a byte, so the length of the data is
enough fuel. -/
def accumAppendLoop (core : Nat → CoreAnswer) : Nat → List Byte → BleTransport →
    Bool × BleTransport
  | 0, data, t => (data.isEmpty, t)
  | fuel + 1, data, t =>
    if data.length = 0 then (true, t)
    else
      let copyLen := min data.length (accumAvailable t)
      let t := { t with
        accumBuf := memcpy t.accumBuf t.accumLen (data.take copyLen)
        accumLen := (t.accumLen + copyLen) % 2 ^ 16 }
      if t.accumLen = accumulateTargetSize then
        match accumFlush core t with
        | (false, t) => (false, t)
        | (true, t) => accumAppendLoop core fuel (data.drop copyLen) t
      else accumAppendLoop core fuel (data.drop copyLen) t

def accumAppend (core : Nat → CoreAnswer) (data : List Byte) (t : BleTransport) :
    Bool × BleTransport :=
  accumAppendLoop core data.length data t

/-- The size check of `app_data_process`. -/
def dataFits (t : BleTransport) (pktLen : Nat) : Bool :=
  pktLen ≠ 0 ∧ t.received ≤ t.reportedImageSize ∧ pktLen ≤ t.reportedImageSize - t.received

/-- The accumulator is chosen by the first packet and stays on from an odd one on. -/
def accumDecide (pktLen : Nat) (t : BleTransport) : BleTransport :=
  let t := if t.numOfFirmwareBytesRcvd = 0 ∧ t.accumLen = 0 then
      { t with accumActive := pktLen ≤ accumulateThreshold ∨ pktLen % 4 ≠ 0 }
    else t
  if pktLen % 4 ≠ 0 then { t with accumActive := true } else t

/-- One packet less until the next receipt notification, a `uint16_t`. -/
def notifCount (t : BleTransport) : BleTransport :=
  { t with pktNotifTargetCnt := (t.pktNotifTargetCnt + 2 ^ 16 - 1) % 2 ^ 16 }

/-- Send a receipt notification and start the next count. -/
def notifSend (t : BleTransport) (bytes : Nat) : BleTransport :=
  { t.say (.receipt bytes) with pktNotifTargetCnt := t.pktNotifTarget }

/-- The accumulating branch of `app_data_process`. -/
def accumProcess (core : Nat → CoreAnswer) (data : List Byte) (t : BleTransport) : BleTransport :=
  match accumAppend core data t with
  | (false, t) => t
  | (true, t) =>
    if t.received = t.reportedImageSize then
      match accumFlush core t with
      | (false, t) => t
      | (true, t) => if t.accumLen ≠ 0 then t.say (.error .invalidLength) else t
    else if t.pktRcptNotifEnabled then
      let t := notifCount t
      if t.pktNotifTargetCnt = 0 then
        match accumFlush core t with
        | (false, t) => t
        | (true, t) => notifSend t t.received
      else t
    else t

/-- The branch that hands the write over as it is. -/
def directProcess (core : Nat → CoreAnswer) (data : List Byte) (t : BleTransport) : BleTransport :=
  match alignedDataProcess core data t with
  | (false, t) => t
  | (true, t) =>
    if t.numOfFirmwareBytesRcvd < t.reportedImageSize ∧ t.pktRcptNotifEnabled then
      let t := notifCount t
      if t.pktNotifTargetCnt = 0 then notifSend t t.numOfFirmwareBytesRcvd else t
    else t

def appDataProcess (core : Nat → CoreAnswer) (data : List Byte) (t : BleTransport) :
    BleTransport :=
  if !dataFits t data.length then t.say (.error .dataSize)
  else
    let t := accumDecide data.length t
    if t.accumActive then accumProcess core data t else directProcess core data t

/-- The firmware-data part of `BLE_GAP_EVT_DISCONNECTED`. -/
def bleDisconnected (t : BleTransport) : BleTransport :=
  { t with accumLen := 0, accumActive := false, finalPacket := none }

/-- `BLE_DFU_PKT_RCPT_NOTIF_ENABLED`, or `…_DISABLED` for no packets. -/
def pktRcptNotif (numOfPkts : Nat) (t : BleTransport) : BleTransport :=
  if numOfPkts = 0 then { t with pktRcptNotifEnabled := false, pktNotifTarget := 0 }
  else { t with
    pktRcptNotifEnabled := true, pktNotifTarget := numOfPkts, pktNotifTargetCnt := numOfPkts }

/-- `BLE_DFU_BYTES_RECEIVED_SEND`. -/
def bytesReceivedSend (t : BleTransport) : BleTransport := t.say (.bytesRcvd t.received)

/-! ## The link

The peer holds the firmware stream `fw`. -/

/-- The transport with its peer: `pos` is the peer's place in the stream, `base` the bytes
committed before this link and `accepted` those accepted on it. -/
structure BleLink where
  t : BleTransport
  pos : Nat := 0
  base : Nat := 0
  accepted : Nat := 0
  deriving DecidableEq, Repr

inductive BleEvent where
  /-- A write of the next `len` bytes of the stream, as far as it has them. -/
  | write (len : BitVec 16)
  | notif (numOfPkts : BitVec 16)
  | bytesReceivedSend
  /-- The link is lost; the peer reconnects and resumes at the reported count. -/
  | disconnect
  deriving DecidableEq, Repr

def bleStep (core : Nat → CoreAnswer) (fw : List Byte) (s : BleLink) : BleEvent → BleLink
  | .write len =>
    let data := (fw.drop s.pos).take len.toNat
    let t := appDataProcess core data s.t
    if dataFits s.t data.length then
      { s with t := t, pos := s.pos + data.length, accepted := s.accepted + data.length }
    else { s with t := t }
  | .notif n => { s with t := pktRcptNotif n.toNat s.t }
  | .bytesReceivedSend => { s with t := bytesReceivedSend s.t }
  | .disconnect =>
    let t := bytesReceivedSend (bleDisconnected s.t)
    ⟨t, t.received, s.t.handed.flatten.length, 0⟩

/-! ## The accumulator keeps the stream -/

namespace BleTransport

/-- The stream so far: what was handed over, then what is held back. -/
def stream (t : BleTransport) : List Byte := t.handed.flatten ++ t.accumBuf.take t.accumLen

structure Valid (t : BleTransport) : Prop where
  buf : t.accumBuf.length = accumulateTargetSize
  len : t.accumLen ≤ accumulateTargetSize
  count : t.numOfFirmwareBytesRcvd = t.handed.flatten.length
  words : ∀ f ∈ t.handed, f ≠ [] ∧ f.length % 4 = 0

/-- What no branch of the data phase changes. -/
structure Frame (t t' : BleTransport) : Prop where
  size : t'.reportedImageSize = t.reportedImageSize
  active : t'.accumActive = t.accumActive

/-- `t'` took `data` into the stream. -/
structure Took (data : List Byte) (t t' : BleTransport) : Prop extends Frame t t' where
  valid : t'.Valid
  stream : t'.stream = t.stream ++ data

variable {core : Nat → CoreAnswer} {t t' : BleTransport} {data : List Byte}

theorem Valid.stream_length (h : t.Valid) :
    t.stream.length = t.numOfFirmwareBytesRcvd + t.accumLen := by
  have hb := h.buf
  have hl := h.len
  simp only [BleTransport.stream, List.length_append, List.length_take, ← h.count]
  omega

theorem Valid.count_mod (h : t.Valid) : t.numOfFirmwareBytesRcvd % 4 = 0 := by
  rw [h.count, List.length_flatten]
  apply Nat.mod_eq_zero_of_dvd
  apply List.dvd_sum
  intro n hn
  obtain ⟨f, hf, rfl⟩ := List.mem_map.mp hn
  exact Nat.dvd_of_mod_eq_zero (h.words f hf).2

/-- Every fragment of whole words is handed over. -/
theorem alignedDataProcess_accepted (hcore : ∀ k, (core k).Accepts) (hne : data ≠ [])
    (hmod : data.length % 4 = 0) :
    ∃ final, alignedDataProcess core data t = (true, { t with
      calls := t.calls + 1
      handed := t.handed ++ [data]
      numOfFirmwareBytesRcvd := add32 t.numOfFirmwareBytesRcvd data.length
      finalPacket := final }) := by
  obtain ⟨hp, he, hh⟩ := hcore t.calls
  have hlen : ¬ (data.length = 0 ∨ data.length % 4 ≠ 0) := by
    rintro (h | h)
    · exact hne (List.length_eq_zero_iff.mp h)
    · exact h hmod
  refine ⟨if (core t.calls).handle = .success then some (t.calls + 1) else t.finalPacket, ?_⟩
  unfold alignedDataProcess
  rw [if_neg hlen]
  simp only [hp, he, ne_eq, not_true_eq_false, if_false, if_pos hh]

theorem words_snoc (h : t.Valid) (hne : data ≠ []) (hmod : data.length % 4 = 0) :
    ∀ f ∈ t.handed ++ [data], f ≠ [] ∧ f.length % 4 = 0 := by
  intro f hf
  rcases List.mem_append.mp hf with hf | hf
  · exact h.words f hf
  · obtain rfl := List.mem_singleton.mp hf
    exact ⟨hne, hmod⟩

/-- A flush hands over the whole words and keeps the suffix. -/
theorem accumFlush_spec (hcore : ∀ k, (core k).Accepts) (h : t.Valid)
    (hlt : t.numOfFirmwareBytesRcvd + t.accumLen < 2 ^ 32) :
    ∃ t', accumFlush core t = (true, t') ∧ Took [] t t' ∧ t'.accumLen = t.accumLen % 4 ∧
      t'.pktRcptNotifEnabled = t.pktRcptNotifEnabled := by
  have hbuf := h.buf
  have hlen := h.len
  unfold accumFlush
  by_cases h0 : t.accumLen - t.accumLen % 4 = 0
  · simp only [h0, if_true]
    exact ⟨t, rfl, ⟨⟨rfl, rfl⟩, h, (List.append_nil _).symm⟩, by omega, rfl⟩
  simp only [h0, if_false]
  set words := t.accumBuf.take (t.accumLen - t.accumLen % 4) with hwords
  have hwl : words.length = t.accumLen - t.accumLen % 4 := by
    rw [hwords, List.length_take]
    omega
  have hne : words ≠ [] := fun hn => h0 (by rw [← hwl, hn]; rfl)
  have hmod : words.length % 4 = 0 := by omega
  obtain ⟨final, hrun⟩ := alignedDataProcess_accepted (t := t) hcore hne hmod
  rw [hrun]
  refine ⟨_, rfl, ⟨⟨rfl, rfl⟩, ⟨?_, ?_, ?_, words_snoc h hne hmod⟩, ?_⟩, ?_, rfl⟩
  · show (memcpy t.accumBuf 0 _).length = accumulateTargetSize
    rw [memcpy_length, hbuf]
    simp only [List.length_take, List.length_drop]
    omega
  · show t.accumLen - (t.accumLen - t.accumLen % 4) ≤ accumulateTargetSize
    omega
  · show add32 t.numOfFirmwareBytesRcvd words.length = (t.handed ++ [words]).flatten.length
    rw [add32_eq (by omega)]
    simp [h.count]
  · -- the suffix moved to the front is the one that followed the words
    have hrest : ((t.accumBuf.drop (t.accumLen - t.accumLen % 4)).take
        (t.accumLen - (t.accumLen - t.accumLen % 4))).length = t.accumLen % 4 := by
      simp only [List.length_take, List.length_drop]
      omega
    show (t.handed ++ [words]).flatten ++ (memcpy t.accumBuf 0 _).take
      (t.accumLen - (t.accumLen - t.accumLen % 4)) = t.stream ++ []
    rw [show t.accumLen - (t.accumLen - t.accumLen % 4) = t.accumLen % 4 by omega] at hrest ⊢
    have hmem := @memcpy_take t.accumBuf
      ((t.accumBuf.drop (t.accumLen - t.accumLen % 4)).take (t.accumLen % 4)) 0 (by omega)
    rw [hrest, Nat.zero_add] at hmem
    rw [hmem, BleTransport.stream, hwords]
    simp only [List.flatten_append, List.flatten_cons, List.flatten_nil, List.append_nil,
      List.take_zero, List.nil_append, List.append_assoc]
    congr 1
    rw [← List.take_add]
    congr 1
    omega
  · show t.accumLen - (t.accumLen - t.accumLen % 4) = t.accumLen % 4
    omega

theorem Took.trans {data' : List Byte} {t'' : BleTransport} (h : Took data t t')
    (h' : Took data' t' t'') : Took (data ++ data') t t'' where
  size := h'.size.trans h.size
  active := h'.active.trans h.active
  valid := h'.valid
  stream := by rw [h'.stream, h.stream, List.append_assoc]

/-- A copy into the free part of the buffer. -/
theorem took_copy (h : t.Valid) (hlen : t.accumLen + data.length ≤ accumulateTargetSize) :
    Took data t { t with
      accumBuf := memcpy t.accumBuf t.accumLen data
      accumLen := (t.accumLen + data.length) % 2 ^ 16 } := by
  have hbuf := h.buf
  have ht : accumulateTargetSize = 240 := rfl
  have hmod : (t.accumLen + data.length) % 2 ^ 16 = t.accumLen + data.length :=
    Nat.mod_eq_of_lt (by omega)
  refine ⟨⟨rfl, rfl⟩, ⟨?_, ?_, h.count, h.words⟩, ?_⟩
  · show (memcpy t.accumBuf t.accumLen data).length = accumulateTargetSize
    rw [memcpy_length (by omega), hbuf]
  · show (t.accumLen + data.length) % 2 ^ 16 ≤ accumulateTargetSize
    omega
  · show t.handed.flatten ++ (memcpy t.accumBuf t.accumLen data).take
      ((t.accumLen + data.length) % 2 ^ 16) = t.stream ++ data
    rw [hmod, memcpy_take (by omega), BleTransport.stream, List.append_assoc]

/-- The loop takes all of the data and leaves room in the buffer. -/
theorem accumAppendLoop_spec (hcore : ∀ k, (core k).Accepts) (fuel : Nat) (data : List Byte)
    (t : BleTransport) (h : t.Valid) (hroom : t.accumLen < accumulateTargetSize)
    (hfuel : data.length ≤ fuel)
    (hlt : t.numOfFirmwareBytesRcvd + t.accumLen + data.length < 2 ^ 32) :
    ∃ t', accumAppendLoop core fuel data t = (true, t') ∧ Took data t t' ∧
      t'.accumLen < accumulateTargetSize := by
  have htarget : accumulateTargetSize = 240 := rfl
  induction fuel generalizing data t with
  | zero =>
    obtain rfl : data = [] := List.length_eq_zero_iff.mp (by omega)
    exact ⟨t, rfl, ⟨⟨rfl, rfl⟩, h, (List.append_nil _).symm⟩, hroom⟩
  | succ fuel ih =>
    unfold accumAppendLoop
    by_cases h0 : data.length = 0
    · obtain rfl : data = [] := List.length_eq_zero_iff.mp h0
      exact ⟨t, by simp, ⟨⟨rfl, rfl⟩, h, (List.append_nil _).symm⟩, hroom⟩
    rw [if_neg h0]
    have havail : accumAvailable t = accumulateTargetSize - t.accumLen := by
      unfold accumAvailable
      omega
    set n := min data.length (accumAvailable t) with hn
    have hpos : 0 < n := by omega
    have hnl : (data.take n).length = n := by
      rw [List.length_take]
      omega
    have hcopy : Took (data.take n) t _ := took_copy h (by omega)
    rw [hnl] at hcopy
    set t1 : BleTransport := { t with
      accumBuf := memcpy t.accumBuf t.accumLen (data.take n)
      accumLen := (t.accumLen + n) % 2 ^ 16 } with ht1
    have hlen1 : t1.accumLen = t.accumLen + n := Nat.mod_eq_of_lt (by omega)
    have hnum1 : t1.numOfFirmwareBytesRcvd = t.numOfFirmwareBytesRcvd := rfl
    have hdrop : (data.drop n).length = data.length - n := List.length_drop
    by_cases hfull : t1.accumLen = accumulateTargetSize
    · obtain ⟨t2, hrun, htook, hlen2, -⟩ := accumFlush_spec hcore hcopy.valid (by omega)
      have hsum : t2.numOfFirmwareBytesRcvd + t2.accumLen =
          t1.numOfFirmwareBytesRcvd + t1.accumLen := by
        rw [← htook.valid.stream_length, htook.stream, List.append_nil,
          hcopy.valid.stream_length]
      obtain ⟨t', hrun', htook', hroom'⟩ := ih (data.drop n) t2 htook.valid (by omega) (by omega)
        (by omega)
      refine ⟨t', ?_, ?_, hroom'⟩
      · show (if t1.accumLen = accumulateTargetSize then _ else _) = _
        rw [if_pos hfull, hrun]
        exact hrun'
      · have := (hcopy.trans htook).trans htook'
        rwa [List.append_nil, List.take_append_drop] at this
    · obtain ⟨t', hrun', htook', hroom'⟩ := ih (data.drop n) t1 hcopy.valid
        (by have := hcopy.valid.len; omega) (by omega) (by omega)
      refine ⟨t', ?_, ?_, hroom'⟩
      · show (if t1.accumLen = accumulateTargetSize then _ else _) = _
        rw [if_neg hfull]
        exact hrun'
      · have := hcopy.trans htook'
        rwa [List.take_append_drop] at this

/-- A whole write was taken. -/
structure Wrote (data : List Byte) (t t' : BleTransport) : Prop where
  valid : t'.Valid
  size : t'.reportedImageSize = t.reportedImageSize
  room : t'.accumLen < accumulateTargetSize
  idle : t'.accumActive = false → t'.accumLen = 0
  stream : t'.stream = t.stream ++ data
  done : t'.stream.length = t.reportedImageSize → t'.accumLen = 0

/-- The stream and its accumulator are the same. -/
structure Same (t t' : BleTransport) : Prop where
  buf : t'.accumBuf = t.accumBuf
  len : t'.accumLen = t.accumLen
  active : t'.accumActive = t.accumActive
  size : t'.reportedImageSize = t.reportedImageSize
  count : t'.numOfFirmwareBytesRcvd = t.numOfFirmwareBytesRcvd
  handed : t'.handed = t.handed

theorem notifCount_same (t : BleTransport) : Same t (notifCount t) := by
  constructor <;> simp only [notifCount]

theorem notifSend_same (t : BleTransport) (bytes : Nat) : Same t (notifSend t bytes) :=
  ⟨rfl, rfl, rfl, rfl, rfl, rfl⟩

theorem say_same (t : BleTransport) (o : BleOut) : Same t (t.say o) :=
  ⟨rfl, rfl, rfl, rfl, rfl, rfl⟩

theorem pktRcptNotif_same (n : Nat) (t : BleTransport) : Same t (pktRcptNotif n t) := by
  unfold pktRcptNotif
  split_ifs <;> exact ⟨rfl, rfl, rfl, rfl, rfl, rfl⟩

theorem Same.stream (h : Same t t') : t'.stream = t.stream := by
  unfold BleTransport.stream
  rw [h.buf, h.len, h.handed]

theorem Same.valid (h : Same t t') (hv : t.Valid) : t'.Valid where
  buf := by rw [h.buf, hv.buf]
  len := by rw [h.len]; exact hv.len
  count := by rw [h.count, h.handed, hv.count]
  words := by rw [h.handed]; exact hv.words

theorem Same.took (h : Same t t') (hv : t.Valid) : Took [] t t' :=
  ⟨⟨h.size, h.active⟩, h.valid hv, by rw [h.stream, List.append_nil]⟩

theorem Wrote.same {t'' : BleTransport} (h : Wrote data t t') (hs : Same t' t'') :
    Wrote data t t'' where
  valid := hs.valid h.valid
  size := by rw [hs.size, h.size]
  room := by rw [hs.len]; exact h.room
  idle := by rw [hs.active, hs.len]; exact h.idle
  stream := by rw [hs.stream, h.stream]
  done := by rw [hs.stream, hs.len]; exact h.done

theorem accumProcess_spec (hcore : ∀ k, (core k).Accepts) (h : t.Valid)
    (hroom : t.accumLen < accumulateTargetSize) (hact : t.accumActive = true)
    (hmod : t.reportedImageSize % 4 = 0) (hlt : t.reportedImageSize < 2 ^ 32)
    (hfit : t.numOfFirmwareBytesRcvd + t.accumLen + data.length ≤ t.reportedImageSize) :
    Wrote data t (accumProcess core data t) := by
  obtain ⟨t1, hrun, htook, hroom1⟩ := accumAppendLoop_spec hcore data.length data t h hroom le_rfl
    (by omega)
  have hsum : t1.numOfFirmwareBytesRcvd + t1.accumLen =
      t.numOfFirmwareBytesRcvd + t.accumLen + data.length := by
    rw [← htook.valid.stream_length, htook.stream, List.length_append, h.stream_length]
  have hact1 : t1.accumActive = true := htook.active.trans hact
  have hrecv : t1.received = t1.numOfFirmwareBytesRcvd + t1.accumLen := add32_eq (by omega)
  have htarget : accumulateTargetSize = 240 := rfl
  unfold accumProcess accumAppend
  rw [hrun]
  -- a flush of the appended state, whose count of packets may have changed
  have hflush : ∀ t2 : BleTransport, Took [] t1 t2 → ∃ t3, accumFlush core t2 = (true, t3) ∧
      Wrote data t t3 ∧ t3.accumLen < 4 := by
    intro t2 h2
    have hsum2 : t2.numOfFirmwareBytesRcvd + t2.accumLen =
        t1.numOfFirmwareBytesRcvd + t1.accumLen := by
      rw [← h2.valid.stream_length, h2.stream, List.append_nil, htook.valid.stream_length]
    obtain ⟨t3, hrun3, h3, hlen3, -⟩ := accumFlush_spec hcore h2.valid (by omega)
    have hall := (htook.trans h2).trans h3
    rw [List.append_nil, List.append_nil] at hall
    refine ⟨t3, hrun3, ⟨hall.valid, hall.size, by omega, ?_, hall.stream, ?_⟩, by omega⟩
    · intro hf
      rw [hall.active, hact] at hf
      cases hf
    · intro hd
      rw [hall.valid.stream_length] at hd
      have := hall.valid.count_mod
      omega
  by_cases hend : t1.received = t1.reportedImageSize
  · obtain ⟨t3, hrun3, hw3, hlt3⟩ := hflush t1 ⟨⟨rfl, rfl⟩, htook.valid, (List.append_nil _).symm⟩
    simp only [hend, if_true, hrun3]
    split_ifs
    · exact hw3.same (say_same _ _)
    · exact hw3
  have hw1 : Wrote data t t1 := by
    refine ⟨htook.valid, htook.size, hroom1, ?_, htook.stream, ?_⟩
    · intro hf
      rw [hact1] at hf
      cases hf
    · intro hd
      rw [htook.valid.stream_length] at hd
      have hsz := htook.size
      omega
  simp only [hend, if_false]
  by_cases hn : t1.pktRcptNotifEnabled = true
  · simp only [hn, if_true]
    by_cases hc : (notifCount t1).pktNotifTargetCnt = 0
    · obtain ⟨t3, hrun3, hw3, -⟩ := hflush _ ((notifCount_same t1).took htook.valid)
      simp only [hc, if_true, hrun3]
      exact hw3.same (notifSend_same _ _)
    · simp only [hc, if_false]
      exact hw1.same (notifCount_same t1)
  · simp only [hn, Bool.false_eq_true, if_false]
    exact hw1

theorem directProcess_spec (hcore : ∀ k, (core k).Accepts) (h : t.Valid) (hlen : t.accumLen = 0)
    (hne : data ≠ []) (hmod : data.length % 4 = 0)
    (hlt : t.numOfFirmwareBytesRcvd + data.length < 2 ^ 32) :
    Wrote data t (directProcess core data t) := by
  obtain ⟨final, hrun⟩ := alignedDataProcess_accepted (t := t) hcore hne hmod
  unfold directProcess
  rw [hrun]
  set t1 : BleTransport := { t with
    calls := t.calls + 1
    handed := t.handed ++ [data]
    numOfFirmwareBytesRcvd := add32 t.numOfFirmwareBytesRcvd data.length
    finalPacket := final } with ht1
  have hw1 : Wrote data t t1 := by
    refine ⟨⟨h.buf, h.len, ?_, words_snoc h hne hmod⟩, rfl, ?_, fun _ => hlen, ?_, fun _ => hlen⟩
    · show add32 t.numOfFirmwareBytesRcvd data.length = (t.handed ++ [data]).flatten.length
      rw [add32_eq hlt]
      simp [h.count]
    · show t.accumLen < accumulateTargetSize
      rw [hlen]
      decide
    · show (t.handed ++ [data]).flatten ++ t.accumBuf.take t.accumLen = t.stream ++ data
      unfold BleTransport.stream
      rw [hlen]
      simp
  simp only
  split_ifs
  · exact (hw1.same (notifCount_same _)).same (notifSend_same _ _)
  · exact hw1.same (notifCount_same _)
  · exact hw1

/-- Without the accumulator the write is of whole words and nothing is held back. -/
theorem accumDecide_eq (pktLen : Nat) (hidle : t.accumActive = false → t.accumLen = 0) :
    ∃ b, accumDecide pktLen t = { t with accumActive := b } ∧
      (b = false → pktLen % 4 = 0 ∧ t.accumLen = 0) := by
  unfold accumDecide
  by_cases hodd : pktLen % 4 = 0
  · by_cases hfirst : t.numOfFirmwareBytesRcvd = 0 ∧ t.accumLen = 0
    · rw [if_pos hfirst]
      simp only [hodd, ne_eq, not_true_eq_false, if_false, or_false]
      exact ⟨_, rfl, fun _ => ⟨trivial, hfirst.2⟩⟩
    · rw [if_neg hfirst]
      simp only [hodd, ne_eq, not_true_eq_false, if_false]
      exact ⟨t.accumActive, rfl, fun hb => ⟨trivial, hidle hb⟩⟩
  · refine ⟨true, ?_, fun hb => by cases hb⟩
    simp only [hodd, ne_eq, not_false_eq_true, if_true]
    split_ifs <;> rfl

theorem dataFits_le (hlt : t.numOfFirmwareBytesRcvd + t.accumLen < 2 ^ 32)
    (hfit : dataFits t data.length = true) :
    data ≠ [] ∧ t.numOfFirmwareBytesRcvd + t.accumLen + data.length ≤ t.reportedImageSize := by
  unfold dataFits at hfit
  obtain ⟨hne, hle, hlen⟩ := of_decide_eq_true hfit
  rw [BleTransport.received, add32_eq hlt] at hle hlen
  refine ⟨fun hn => hne (by rw [hn]; rfl), ?_⟩
  omega

theorem appDataProcess_spec (hcore : ∀ k, (core k).Accepts) (h : t.Valid)
    (hroom : t.accumLen < accumulateTargetSize)
    (hidle : t.accumActive = false → t.accumLen = 0) (hmod : t.reportedImageSize % 4 = 0)
    (hlt : t.reportedImageSize < 2 ^ 32)
    (hsum : t.numOfFirmwareBytesRcvd + t.accumLen ≤ t.reportedImageSize)
    (hfit : dataFits t data.length = true) : Wrote data t (appDataProcess core data t) := by
  obtain ⟨hne, hle⟩ := dataFits_le (by omega) hfit
  obtain ⟨b, hb, hoff⟩ := accumDecide_eq data.length hidle
  unfold appDataProcess
  rw [hfit, hb]
  have hv : ({ t with accumActive := b } : BleTransport).Valid := ⟨h.buf, h.len, h.count, h.words⟩
  cases b with
  | true =>
    have hw := accumProcess_spec hcore hv hroom rfl hmod hlt hle
    exact ⟨hw.valid, hw.size, hw.room, hw.idle, hw.stream, hw.done⟩
  | false =>
    obtain ⟨hwords, hlen⟩ := hoff rfl
    have hw := directProcess_spec hcore hv hlen hne hwords
      (by show t.numOfFirmwareBytesRcvd + data.length < 2 ^ 32; omega)
    exact ⟨hw.valid, hw.size, hw.room, hw.idle, hw.stream, hw.done⟩

end BleTransport

/-! ## Every sequence of writes -/

open BleTransport

variable {core : Nat → CoreAnswer} {fw : List Byte} {size : Nat} {s : BleLink}

structure StreamInv (fw : List Byte) (size : Nat) (s : BleLink) : Prop where
  valid : s.t.Valid
  room : s.t.accumLen < accumulateTargetSize
  imageSize : s.t.reportedImageSize = size
  /-- Without the accumulator nothing is held back. -/
  idle : s.t.accumActive = false → s.t.accumLen = 0
  stream : s.t.stream = fw.take s.pos
  pos_fw : s.pos ≤ fw.length
  pos_size : s.pos ≤ size
  pos_link : s.pos = s.base + s.accepted
  done : s.pos = size → s.t.accumLen = 0

theorem StreamInv.count (h : StreamInv fw size s) :
    s.t.numOfFirmwareBytesRcvd + s.t.accumLen = s.pos := by
  rw [← h.valid.stream_length, h.stream, List.length_take]
  exact Nat.min_eq_left h.pos_fw

theorem streamInv_init (fw : List Byte) (size : Nat) :
    StreamInv fw size ⟨{ reportedImageSize := size }, 0, 0, 0⟩ where
  valid := ⟨by simp, by simp, rfl, by simp⟩
  room := (by decide : 0 < accumulateTargetSize)
  imageSize := rfl
  idle _ := rfl
  stream := by simp [BleTransport.stream]
  pos_fw := Nat.zero_le _
  pos_size := Nat.zero_le _
  pos_link := rfl
  done _ := rfl

theorem StreamInv.same (h : StreamInv fw size s) {t : BleTransport} (hs : Same s.t t) :
    StreamInv fw size { s with t := t } where
  valid := hs.valid h.valid
  room := by show t.accumLen < _; rw [hs.len]; exact h.room
  imageSize := by show t.reportedImageSize = _; rw [hs.size, h.imageSize]
  idle := by show t.accumActive = _ → t.accumLen = 0; rw [hs.active, hs.len]; exact h.idle
  stream := by show t.stream = _; rw [hs.stream, h.stream]
  pos_fw := h.pos_fw
  pos_size := h.pos_size
  pos_link := h.pos_link
  done := by show _ → t.accumLen = 0; rw [hs.len]; exact h.done

theorem StreamInv.write (hcore : ∀ k, (core k).Accepts) (hmod : size % 4 = 0) (hlt : size < 2 ^ 32)
    (h : StreamInv fw size s) (len : BitVec 16) : StreamInv fw size (bleStep core fw s (.write len)) := by
  simp only [bleStep]
  set data := (fw.drop s.pos).take len.toNat with hdata
  have hcount := h.count
  have hpos := h.pos_size
  have hdl : data.length ≤ fw.length - s.pos := by
    rw [hdata, List.length_take, List.length_drop]
    omega
  by_cases hfit : dataFits s.t data.length = true
  · have hsz := h.imageSize
    have hw := appDataProcess_spec hcore h.valid h.room h.idle (by omega) (by omega) (by omega) hfit
    have hle := (dataFits_le (by omega) hfit).2
    have hstream : (appDataProcess core data s.t).stream = fw.take (s.pos + data.length) := by
      rw [hw.stream, h.stream, List.take_add]
      congr 1
      rw [hdata, List.length_take]
      exact List.take_eq_take_min
    simp only [hfit, if_true]
    refine ⟨hw.valid, hw.room, hw.size.trans hsz, hw.idle, hstream, ?_, ?_, ?_, ?_⟩
    · show s.pos + data.length ≤ fw.length
      have := h.pos_fw
      omega
    · show s.pos + data.length ≤ size
      omega
    · show s.pos + data.length = s.base + (s.accepted + data.length)
      rw [h.pos_link]
      omega
    · intro hd
      apply hw.done
      rw [hstream, List.length_take, hsz, ← show s.pos + data.length = size from hd]
      have := h.pos_fw
      omega
  · simp only [hfit, Bool.false_eq_true, if_false]
    unfold appDataProcess
    simp only [hfit, Bool.not_false, if_true]
    exact h.same (say_same _ _)

/-- Nothing held back survives the link. -/
theorem bleDisconnected_received {t : BleTransport} (h : t.numOfFirmwareBytesRcvd < 2 ^ 32) :
    (bleDisconnected t).received = t.numOfFirmwareBytesRcvd := Nat.mod_eq_of_lt h

theorem StreamInv.disconnect (hlt : size < 2 ^ 32) (h : StreamInv fw size s) :
    StreamInv fw size (bleStep core fw s .disconnect) := by
  have hcount := h.count
  have hpos := h.pos_size
  have hlt32 : s.t.numOfFirmwareBytesRcvd < 2 ^ 32 := by omega
  have hrecv : (bytesReceivedSend (bleDisconnected s.t)).received = s.t.numOfFirmwareBytesRcvd :=
    bleDisconnected_received hlt32
  have hpre : s.t.handed.flatten = fw.take s.t.numOfFirmwareBytesRcvd := by
    have := congrArg (List.take s.t.numOfFirmwareBytesRcvd) h.stream
    rw [BleTransport.stream, h.valid.count, List.take_left, List.take_take] at this
    rw [this, h.valid.count, Nat.min_eq_left]
    rw [← h.valid.count]
    omega
  simp only [bleStep]
  refine ⟨⟨h.valid.buf, Nat.zero_le _, h.valid.count, h.valid.words⟩,
    (by decide : 0 < accumulateTargetSize), h.imageSize, fun _ => rfl, ?_, ?_, ?_, ?_, fun _ => rfl⟩
  · show s.t.handed.flatten ++ s.t.accumBuf.take 0 = fw.take _
    rw [hrecv, List.take_zero, List.append_nil, hpre]
  · show (bytesReceivedSend (bleDisconnected s.t)).received ≤ fw.length
    have := h.pos_fw
    omega
  · show (bytesReceivedSend (bleDisconnected s.t)).received ≤ size
    omega
  · show (bytesReceivedSend (bleDisconnected s.t)).received = s.t.handed.flatten.length + 0
    rw [hrecv, h.valid.count, Nat.add_zero]

theorem StreamInv.step (hcore : ∀ k, (core k).Accepts) (hmod : size % 4 = 0) (hlt : size < 2 ^ 32)
    (h : StreamInv fw size s) (e : BleEvent) : StreamInv fw size (bleStep core fw s e) := by
  cases e with
  | write len => exact h.write hcore hmod hlt len
  | notif n => exact h.same (pktRcptNotif_same _ _)
  | bytesReceivedSend => exact h.same (say_same _ _)
  | disconnect => exact h.disconnect hlt

/-- The declared size of an admissible START packet is a number of whole words. -/
theorem dfuStartPacketValidate_words {p : StartPacket} (h : dfuStartPacketValidate p = .ok size) :
    size % 4 = 0 ∧ size < 2 ^ 32 := by
  unfold dfuStartPacketValidate at h
  split at h
  · cases h
  rename_i hmode
  split at h
  · cases h
  rename_i hsum
  obtain rfl := Except.ok.inj h
  simp only [not_or, ne_eq, not_not] at hmode hsum
  omega

/-- Over every sequence of writes, receipt requests and lost links: the fragments handed
to the core are whole words whose concatenation is a prefix of the firmware stream; the
counters add up to the stream bytes accepted on this link and those committed before it;
the accumulator stays within its buffer; the count reported after a lost link is the
committed prefix; and at the declared size every byte has been handed over. -/
theorem ble_reassembly (core : Nat → CoreAnswer) (hcore : ∀ k, (core k).Accepts)
    (p : StartPacket) (size : Nat) (hp : dfuStartPacketValidate p = .ok size) (fw : List Byte)
    (es : List BleEvent) :
    let s := es.foldl (bleStep core fw) ⟨{ reportedImageSize := size }, 0, 0, 0⟩
    s.t.handed.flatten <+: fw ∧ (∀ f ∈ s.t.handed, f ≠ [] ∧ f.length % 4 = 0) ∧
    s.t.handed.flatten ++ s.t.accumBuf.take s.t.accumLen = fw.take (s.base + s.accepted) ∧
    s.t.numOfFirmwareBytesRcvd + s.t.accumLen = s.base + s.accepted ∧
    s.t.accumLen ≤ accumulateTargetSize ∧ s.t.accumBuf.length = accumulateTargetSize ∧
    (bleDisconnected s.t).received = s.t.handed.flatten.length ∧
    s.t.handed.flatten.length % 4 = 0 ∧
    (s.base + s.accepted = size → s.t.handed.flatten = fw.take size ∧
      s.t.handed.flatten.length = size) := by
  obtain ⟨hmod, hlt⟩ := dfuStartPacketValidate_words hp
  intro s
  have hI : StreamInv fw size s :=
    (Reach.of_foldl (bleStep core fw) ⟨{ reportedImageSize := size }, 0, 0, 0⟩ es).invariant
      (streamInv_init fw size) fun s e h _ => StreamInv.step hcore hmod hlt h e
  have hcount := hI.count
  have hpos := hI.pos_size
  have hlink := hI.pos_link
  have hstream := hI.stream
  rw [hlink] at hstream
  refine ⟨?_, hI.valid.words, hstream, by omega, hI.valid.len, hI.valid.buf, ?_, ?_, fun hd => ?_⟩
  · have hpre := List.prefix_append s.t.handed.flatten (s.t.accumBuf.take s.t.accumLen)
    rw [show _ ++ _ = fw.take (s.base + s.accepted) from hstream] at hpre
    exact hpre.trans (List.take_prefix _ _)
  · rw [← hI.valid.count]
    exact bleDisconnected_received (by omega)
  · rw [← hI.valid.count]
    exact hI.valid.count_mod
  · have h0 := hI.done (by omega)
    rw [BleTransport.stream, h0, List.take_zero, List.append_nil, hd] at hstream
    refine ⟨hstream, ?_⟩
    rw [← hI.valid.count]
    omega

/-- Twelve bytes in odd pieces over two links: the suffix lost with the first is sent again. -/
theorem ble_reassembly_twoLinks :
    let fw := (List.range 12).map (BitVec.ofNat 8)
    let s := [BleEvent.notif 1, .write 7, .disconnect, .write 5, .write 3].foldl
      (bleStep (fun _ => ⟨.success, .success, .invalidLength, .success⟩) fw)
      ⟨{ reportedImageSize := 12 }, 0, 0, 0⟩
    s.t.handed = [fw.take 4, (fw.drop 4).take 4, fw.drop 8] ∧ s.base = 4 ∧
      s.t.handed.flatten = fw.take 12 := by
  intro fw s
  have h := ble_reassembly (fun _ => ⟨.success, .success, .invalidLength, .success⟩)
    (fun _ => ⟨rfl, rfl, Or.inr rfl⟩) ⟨dfuUpdateApp, 0, 0, 12⟩ 12 (by decide) fw
    [.notif 1, .write 7, .disconnect, .write 5, .write 3]
  exact ⟨by decide +kernel, by decide +kernel, (h.2.2.2.2.2.2.2.2 (by decide +kernel)).1⟩

end OtaFix
