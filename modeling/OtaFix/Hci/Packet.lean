import OtaFix.Crc
import Mathlib.Data.List.GetD

/-!
# Packets of the HCI transport

The packet formats of `hci_transport.c`. A vendor specific packet is a header of four bytes, a
payload and a CRC; an acknowledgement is a header alone. Sequence and acknowledge numbers count
modulo eight.

`is_rx_pkt_valid` accepts exactly what `pkt_write_handle` builds of a payload of 4 to 4095 bytes,
and the packet determines the two numbers and the payload (`rx_pkt_valid_iff`).
-/

namespace OtaFix.Hci

def pktHdrSize : Nat := 4

def pktCrcSize : Nat := 2

def pktTypeVendorSpecific : Byte := 14

def pktTypeAck : Byte := 0

def dataIntegrityMask : Byte := 0x40

def reliablePktMask : Byte := 0x80

/-- The low three bits of the sequence number counters. -/
abbrev Seq := BitVec 3

def uint16Decode (b0 b1 : Byte) : BitVec 16 := b1 ++ b0

def uint16Encode (x : BitVec 16) : List Byte := [x.setWidth 8, (x >>> 8).setWidth 8]

/-! ## Transmission -/

def headerChecksumCalculate (b0 b1 b2 : Byte) : Byte := ~~~(b0 + b1 + b2) + 1

def txPacketByteZeroConstruct (expected transmit : Seq) : Byte :=
  dataIntegrityMask ||| reliablePktMask ||| (expected.setWidth 8 <<< 3) ||| transmit.setWidth 8

/-- The type and the length of a payload of `n` bytes, in 16 bits. -/
def typeAndLength (n : Nat) : BitVec 16 := (BitVec.ofNat 16 n <<< 4) ||| 14

/-- The header and the payload, without the CRC. -/
def uncheckedPacket (expected transmit : Seq) (payload : List Byte) : List Byte :=
  let b0 := txPacketByteZeroConstruct expected transmit
  let b1 := (typeAndLength payload.length).setWidth 8
  let b2 := (typeAndLength payload.length >>> 8).setWidth 8
  b0 :: b1 :: b2 :: headerChecksumCalculate b0 b1 b2 :: payload

/-- The packet of `pkt_write_handle`. -/
def dataPacket (expected transmit : Seq) (payload : List Byte) : List Byte :=
  uncheckedPacket expected transmit payload ++
    uint16Encode (crc16 (uncheckedPacket expected transmit payload))

/-- The packet of `ack_transmit`. -/
def ackPacket (expected : Seq) : List Byte :=
  let b0 := expected.setWidth 8 <<< 3
  [b0, 0, 0, headerChecksumCalculate b0 0 0]

/-! ## Reception -/

/-- `packet_type_decode`; `none` is `INVALID_PKT_TYPE`. -/
def packetTypeDecode (p : List Byte) : Option Byte :=
  if pktHdrSize ≤ p.length then some (p.getD 1 0 &&& 0x0F) else none

def packetSeqNmbrExtract (p : List Byte) : Seq := (p.getD 0 0).setWidth 3

def headerSum (p : List Byte) : Byte := p.getD 0 0 + p.getD 1 0 + p.getD 2 0 + p.getD 3 0

def isRxPktValid (p : List Byte) : Bool :=
  if p.length < pktHdrSize + pktCrcSize then false
  else if p.getD 0 0 &&& dataIntegrityMask = 0 then false
  else if p.getD 0 0 &&& reliablePktMask = 0 then false
  else if p.getD 1 0 &&& 0x0F ≠ pktTypeVendorSpecific then false
  else if headerSum p ≠ 0 then false
  else
    let payloadLength := (uint16Decode (p.getD 1 0) (p.getD 2 0) >>> 4).toNat
    if payloadLength < 4 ∨ payloadLength ≠ p.length - pktHdrSize - pktCrcSize then false
    else decide (crc16 (p.take (p.length - pktCrcSize)) =
      uint16Decode (p.getD (p.length - 2) 0) (p.getD (p.length - 1) 0))

/-- `rx_ack_pkt_type_handle`, when the number `transmit` waits for its acknowledgement. -/
def rxAckPktTypeHandle (transmit : Seq) (p : List Byte) : Bool :=
  if headerSum p ≠ 0 then false
  else decide ((p.getD 0 0 >>> 3).setWidth 3 = transmit + 1)

/-- What `hci_transport_rx_pkt_extract` returns of a packet. -/
def payloadOf (p : List Byte) : List Byte := (p.drop pktHdrSize).take (p.length - 6)

/-! ## The format -/

theorem headerSum_cons (b0 b1 b2 b3 : Byte) (l : List Byte) :
    headerSum (b0 :: b1 :: b2 :: b3 :: l) = b0 + b1 + b2 + b3 := rfl

theorem headerChecksum_iff {b0 b1 b2 b3 : Byte} :
    b0 + b1 + b2 + b3 = 0 ↔ b3 = headerChecksumCalculate b0 b1 b2 := by
  unfold headerChecksumCalculate
  constructor <;> intro h <;> bv_omega

theorem getLsbD_uint16Decode (b0 b1 : Byte) (i : Nat) :
    (uint16Decode b0 b1).getLsbD i = if i < 8 then b0.getLsbD i else b1.getLsbD (i - 8) := by
  rw [uint16Decode, BitVec.getLsbD_append]

theorem uint16Decode_encode (x : BitVec 16) :
    uint16Decode (x.setWidth 8) ((x >>> 8).setWidth 8) = x := by
  refine BitVec.eq_of_getLsbD_eq fun i hi => ?_
  rw [getLsbD_uint16Decode]
  split
  · rename_i h
    rw [BitVec.getLsbD_setWidth, decide_eq_true h, Bool.true_and]
  · rw [BitVec.getLsbD_setWidth, BitVec.getLsbD_ushiftRight,
      decide_eq_true (show i - 8 < 8 by omega), Bool.true_and, show 8 + (i - 8) = i by omega]

theorem uint16Encode_decode (b0 b1 : Byte) : uint16Encode (uint16Decode b0 b1) = [b0, b1] := by
  have h0 : (uint16Decode b0 b1).setWidth 8 = b0 := by
    refine BitVec.eq_of_getLsbD_eq fun i hi => ?_
    rw [BitVec.getLsbD_setWidth, getLsbD_uint16Decode, if_pos hi, decide_eq_true hi,
      Bool.true_and]
  have h1 : (uint16Decode b0 b1 >>> 8).setWidth 8 = b1 := by
    refine BitVec.eq_of_getLsbD_eq fun i hi => ?_
    rw [BitVec.getLsbD_setWidth, BitVec.getLsbD_ushiftRight, getLsbD_uint16Decode,
      if_neg (by omega), decide_eq_true hi, Bool.true_and, Nat.add_sub_cancel_left]
  rw [uint16Encode, h0, h1]

theorem typeAndLength_length (n : Nat) : (typeAndLength n >>> 4).toNat = n % 4096 := by
  rw [typeAndLength, BitVec.toNat_ushiftRight, BitVec.toNat_or, BitVec.toNat_shiftLeft,
    BitVec.toNat_ofNat, Nat.shiftRight_or_distrib]
  have h14 : (14 : BitVec 16).toNat >>> 4 = 0 := rfl
  rw [h14, Nat.or_zero, Nat.shiftLeft_eq, Nat.shiftRight_eq_div_pow]
  omega

/-- The type is in the low four bits. -/
theorem nibble_type : (∀ i < 4, (0x0F : Byte).getLsbD i = true ∧
      (14 : BitVec 16).getLsbD i = pktTypeVendorSpecific.getLsbD i) ∧
    (∀ i < 8, 4 ≤ i → (0x0F : Byte).getLsbD i = false ∧
      pktTypeVendorSpecific.getLsbD i = false) ∧
    ∀ i < 16, 4 ≤ i → (14 : BitVec 16).getLsbD i = false := by
  decide

theorem typeAndLength_type (n : Nat) :
    (typeAndLength n).setWidth 8 &&& 0x0F = pktTypeVendorSpecific := by
  refine BitVec.eq_of_getLsbD_eq fun i hi => ?_
  rw [BitVec.getLsbD_and, BitVec.getLsbD_setWidth, typeAndLength, BitVec.getLsbD_or,
    BitVec.getLsbD_shiftLeft, decide_eq_true hi, Bool.true_and]
  by_cases h : i < 4
  · rw [decide_eq_true h, (nibble_type.1 i h).1, (nibble_type.1 i h).2, Bool.and_true,
      Bool.not_true, Bool.and_false, Bool.false_and, Bool.false_or]
  · obtain ⟨h15, h14⟩ := nibble_type.2.1 i hi (Nat.not_lt.mp h)
    rw [h14, h15, Bool.and_false]

/-- A type and length field is determined by the length. -/
theorem typeAndLength_of_type {w : BitVec 16}
    (h : w.setWidth 8 &&& 0x0F = pktTypeVendorSpecific) : typeAndLength (w >>> 4).toNat = w := by
  refine BitVec.eq_of_getLsbD_eq fun i hi => ?_
  rw [typeAndLength, BitVec.ofNat_toNat, BitVec.setWidth_eq, BitVec.getLsbD_or,
    BitVec.getLsbD_shiftLeft, BitVec.getLsbD_ushiftRight, decide_eq_true hi, Bool.true_and]
  by_cases h4 : i < 4
  · have hbit := congrArg (fun x : Byte => x.getLsbD i) h
    rw [BitVec.getLsbD_and, BitVec.getLsbD_setWidth, (nibble_type.1 i h4).1, Bool.and_true,
      decide_eq_true (show i < 8 by omega), Bool.true_and] at hbit
    rw [decide_eq_true h4, (nibble_type.1 i h4).2, ← hbit, Bool.not_true, Bool.false_and,
      Bool.false_or]
  · rw [decide_eq_false h4, nibble_type.2.2 i hi (Nat.not_lt.mp h4),
      show 4 + (i - 4) = i by omega, Bool.or_false, Bool.not_false, Bool.true_and]

theorem byteZero_masks (expected transmit : Seq) :
    txPacketByteZeroConstruct expected transmit &&& dataIntegrityMask ≠ 0 ∧
    txPacketByteZeroConstruct expected transmit &&& reliablePktMask ≠ 0 ∧
    (txPacketByteZeroConstruct expected transmit).setWidth 3 = transmit ∧
    (txPacketByteZeroConstruct expected transmit >>> 3).setWidth 3 = expected := by
  revert expected transmit
  decide

theorem byteZero_of_masks {b : Byte} (h1 : b &&& dataIntegrityMask ≠ 0)
    (h2 : b &&& reliablePktMask ≠ 0) :
    b = txPacketByteZeroConstruct ((b >>> 3).setWidth 3) (b.setWidth 3) := by
  revert b
  decide

/-! ## Building and validating -/

theorem dataPacket_length (expected transmit : Seq) (payload : List Byte) :
    (dataPacket expected transmit payload).length = payload.length + 6 := by
  rw [dataPacket, List.length_append]
  rfl

theorem payloadOf_split (b0 b1 b2 b3 c0 c1 : Byte) (payload : List Byte) :
    payloadOf (b0 :: b1 :: b2 :: b3 :: (payload ++ [c0, c1])) = payload := by
  have hlen : (b0 :: b1 :: b2 :: b3 :: (payload ++ [c0, c1])).length - 6 = payload.length := by
    simp
  rw [payloadOf, hlen]
  exact List.take_left

theorem payloadOf_dataPacket (expected transmit : Seq) (payload : List Byte) :
    payloadOf (dataPacket expected transmit payload) = payload :=
  payloadOf_split _ _ _ _ _ _ payload

/-- A list with a header and a CRC around a payload. -/
theorem packet_split {p : List Byte} (h : 6 ≤ p.length) : ∃ b0 b1 b2 b3 payload c0 c1,
    p = b0 :: b1 :: b2 :: b3 :: (payload ++ [c0, c1]) := by
  obtain _ | ⟨b0, _ | ⟨b1, _ | ⟨b2, _ | ⟨b3, l⟩⟩⟩⟩ := p
  iterate 4 simp at h
  obtain ⟨l, c1, rfl⟩ := List.eq_nil_or_concat l |>.resolve_left (by rintro rfl; simp at h)
  obtain ⟨l, c0, rfl⟩ := List.eq_nil_or_concat l |>.resolve_left (by rintro rfl; simp at h)
  exact ⟨b0, b1, b2, b3, l, c0, c1, by simp⟩

theorem reject_iff {P : Prop} [Decidable P] {b : Bool} :
    (if P then false else b) = true ↔ ¬ P ∧ b = true := by
  by_cases h : P
  · rw [if_pos h]
    exact ⟨fun h => (by cases h), fun h' => absurd h h'.1⟩
  · rw [if_neg h]
    exact ⟨fun hb => ⟨h, hb⟩, And.right⟩

/-- The checks of `is_rx_pkt_valid`, on the parts of the packet. -/
theorem valid_split {b0 b1 b2 b3 c0 c1 : Byte} {payload : List Byte} :
    isRxPktValid (b0 :: b1 :: b2 :: b3 :: (payload ++ [c0, c1])) = true ↔
      (b0 &&& dataIntegrityMask ≠ 0 ∧ b0 &&& reliablePktMask ≠ 0) ∧
      b1 &&& 0x0F = pktTypeVendorSpecific ∧ b3 = headerChecksumCalculate b0 b1 b2 ∧
      4 ≤ payload.length ∧ (uint16Decode b1 b2 >>> 4).toNat = payload.length ∧
      uint16Encode (crc16 (b0 :: b1 :: b2 :: b3 :: payload)) = [c0, c1] := by
  have hcrc : crc16 (b0 :: b1 :: b2 :: b3 :: payload) = uint16Decode c0 c1 ↔
      uint16Encode (crc16 (b0 :: b1 :: b2 :: b3 :: payload)) = [c0, c1] := by
    constructor
    · intro h
      rw [h, uint16Encode_decode]
    · intro h
      obtain ⟨h0, h1⟩ := List.cons.inj h
      rw [← h0, ← (List.cons.inj h1).1, uint16Decode_encode]
  have hn : (uint16Decode b1 b2 >>> 4).toNat < 4 ∨ (uint16Decode b1 b2 >>> 4).toNat ≠
      payload.length ↔ ¬ (4 ≤ payload.length ∧ (uint16Decode b1 b2 >>> 4).toNat =
        payload.length) := by
    omega
  have hfits : ¬ payload.length + 6 < pktHdrSize + pktCrcSize :=
    Nat.not_lt.mpr (Nat.le_add_left _ _)
  have hrest : payload.length + 6 - pktHdrSize - pktCrcSize = payload.length := by
    simp only [pktHdrSize, pktCrcSize]
    omega
  have hsum := headerSum_cons b0 b1 b2 b3 (payload ++ [c0, c1])
  generalize hp : b0 :: b1 :: b2 :: b3 :: (payload ++ [c0, c1]) = p at hsum ⊢
  have hlen : p.length = payload.length + 6 := by simp [← hp]
  have h0 : p.getD 0 0 = b0 := by rw [← hp]; rfl
  have h1 : p.getD 1 0 = b1 := by rw [← hp]; rfl
  have h2 : p.getD 2 0 = b2 := by rw [← hp]; rfl
  have hc0 : p.getD (payload.length + 4) 0 = c0 := by simp [← hp]
  have hc1 : p.getD (payload.length + 5) 0 = c1 := by simp [← hp]
  have htake : p.take (payload.length + 4) = b0 :: b1 :: b2 :: b3 :: payload := by simp [← hp]
  rw [← hcrc, ← headerChecksum_iff, ← hsum, isRxPktValid, hlen, if_neg hfits, hrest]
  dsimp only
  rw [reject_iff, reject_iff, reject_iff, reject_iff, reject_iff, decide_eq_true_iff, h0, h1, h2,
    hn, not_not, not_not, not_not, show payload.length + 6 - pktCrcSize = payload.length + 4 from rfl,
    htake, Nat.add_sub_cancel (payload.length + 4) 2, Nat.add_sub_cancel (payload.length + 5) 1,
    hc0, hc1]
  exact ⟨fun ⟨hd, hr, ht, hs, ⟨h4, hl⟩, hx⟩ => ⟨⟨hd, hr⟩, ht, hs, h4, hl, hx⟩,
    fun ⟨⟨hd, hr⟩, ht, hs, h4, hl, hx⟩ => ⟨hd, hr, ht, hs, ⟨h4, hl⟩, hx⟩⟩

/-- The receiver accepts what the transmitter builds of a payload of 4 to 4095 bytes, and nothing
else; the packet gives back what it was built of. -/
theorem rx_pkt_valid_iff (p : List Byte) : isRxPktValid p = true ↔
    ∃ expected transmit payload, p = dataPacket expected transmit payload ∧
      4 ≤ payload.length ∧ payload.length < 4096 ∧ payload = payloadOf p ∧
      transmit = packetSeqNmbrExtract p ∧ expected = (p.getD 0 0 >>> 3).setWidth 3 := by
  constructor
  · intro h
    have hlen : 6 ≤ p.length := by
      by_contra hlen
      rw [isRxPktValid, reject_iff] at h
      exact h.1 (Nat.not_le.mp hlen)
    obtain ⟨b0, b1, b2, b3, payload, c0, c1, rfl⟩ := packet_split hlen
    obtain ⟨⟨hd, hr⟩, htype, hsum, h4, hn, hcrc⟩ := valid_split.mp h
    obtain ⟨h1, h2⟩ := List.cons.inj (uint16Encode_decode b1 b2)
    obtain ⟨h2, -⟩ := List.cons.inj h2
    have hfield : typeAndLength payload.length = uint16Decode b1 b2 := by
      rw [← hn]
      exact typeAndLength_of_type (h1.symm ▸ htype)
    have hhead : uncheckedPacket ((b0 >>> 3).setWidth 3) (b0.setWidth 3) payload =
        b0 :: b1 :: b2 :: b3 :: payload := by
      rw [uncheckedPacket, ← byteZero_of_masks hd hr, hfield, h1, h2, ← hsum]
    refine ⟨(b0 >>> 3).setWidth 3, b0.setWidth 3, payload, ?_, h4, ?_,
      (payloadOf_split ..).symm, rfl, rfl⟩
    · rw [dataPacket, hhead, hcrc]
      rfl
    · have := (uint16Decode b1 b2).isLt
      rw [← hn, BitVec.toNat_ushiftRight, Nat.shiftRight_eq_div_pow]
      omega
  · rintro ⟨expected, transmit, payload, rfl, h4, hmax, -⟩
    obtain ⟨hd, hr, -⟩ := byteZero_masks expected transmit
    refine valid_split.mpr ⟨⟨hd, hr⟩, typeAndLength_type _, rfl, h4, ?_, rfl⟩
    rw [uint16Decode_encode, typeAndLength_length, Nat.mod_eq_of_lt hmax]

end OtaFix.Hci
