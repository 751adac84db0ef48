import OtaFix.Dfu.Init
import OtaFix.Pointer

/-!
# The init packet over memory

`dfu_init_prevalidate` as it reads its buffer, a byte at a time, and writes the static
extended packet. It returns what the list function of `Dfu/Init.lean` does on the bytes
of the buffer, loads no byte outside of it, and accepts exactly the packets of
`InitAccepted`.
-/

namespace OtaFix

open Lib Prog

/-- `m_extended_packet` and `m_extended_packet_length`. -/
structure ExtendedPacket where
  packet : List Byte
  length : Nat

/-- The end of a signed build's check. -/
def initSignatureAt (cfg : DfuConfig) (data len imageSize : Nat) (ext : ExtendedPacket) :
    Prog LoadRes (NrfError × ExtendedPacket) :=
  if wordAt ext.packet 0 ≠ 2 then pure (.invalidData, ext)
  else do
    let message ← loadSlice data (len - ext.length + 40)
    if cfg.verify (cfg.digest message) ((ext.packet.drop 40).take 64) = false ∨
        wordAt ext.packet 4 ≠ imageSize then
      pure (.invalidData, ext)
    else pure (.success, ext)

/-- An image with a SoftDevice or a bootloader in it is for another device revision. -/
def otherRevisionAt (data imageType : Nat) : Prog LoadRes Bool :=
  if imageType.testBit 0 || imageType.testBit 1 then do
    let deviceRev ← uint16DecodeAt (data + 2)
    pure (decide (deviceRev ≠ adafruitDevRev))
  else pure false

/-- `dfu_init_prevalidate`; `fwid` is the installed SoftDevice's. -/
def dfuInitPrevalidateAt (cfg : DfuConfig) (fwid : BitVec 16) (data len imageType imageSize : Nat)
    (ext : ExtendedPacket) : Prog LoadRes (NrfError × ExtendedPacket) :=
  if data = 0 then pure (.other, ext)
  else if len < 12 then pure (.invalidLength, ext)
  else do
    let softdeviceCount ← uint16DecodeAt (data + 8)
    let softdeviceLength := softdeviceCount.toNat * 2
    if softdeviceCount.toNat = 0 ∨ len - 10 < softdeviceLength then pure (.invalidLength, ext)
    else
      let extendedOffset := 10 + softdeviceLength
      let extendedLength := len - extendedOffset
      if extendedLength < cfg.extendedLength ∨ cfg.extendedLength + 3 < extendedLength then
        pure (.invalidLength, ext)
      else do
        let bytes ← loadSlice (data + extendedOffset) cfg.extendedLength
        let ext : ExtendedPacket := ⟨memcpy ext.packet 0 bytes, extendedLength % 2 ^ 8⟩
        let deviceType ← uint16DecodeAt data
        if deviceType ≠ adafruitDeviceType then pure (.forbidden, ext)
        else do
          if ← otherRevisionAt data imageType then pure (.forbidden, ext)
          else do
            let found ← anyLoop (fun i => do
              let required ← uint16DecodeAt (data + 10 + i * 2)
              pure (required = dfuSoftdeviceAny || required = fwid)) softdeviceCount.toNat 0
            if !found then pure (.invalidData, ext)
            else if cfg.signedFw then initSignatureAt cfg data len imageSize ext
            else pure (.success, ext)

/-! ## Refinement -/

section Refinement

variable {f : Mem} {data len : Nat} {cfg : DfuConfig}

/-- What the static variables hold behind the call. -/
def extendedAfter (cfg : DfuConfig) (buffer : List Byte) (ext : ExtendedPacket) : ExtendedPacket :=
  match initExtended cfg buffer with
  | none => ext
  | some extended => ⟨memcpy ext.packet 0 (extended.take cfg.extendedLength), extended.length⟩

/-- The signature check reads the signed message in the buffer. -/
theorem loads_initSignature (cfg : DfuConfig) (imageSize : Nat) {buffer extended : List Byte}
    (hbuffer : slice f data len = buffer) (hle : 104 ≤ extended.length)
    (hlen : extended.length ≤ len) :
    Loads f (InBuffer data len)
      (initSignatureAt cfg data len imageSize ⟨extended.take 104, extended.length⟩)
      (if initSignatureOk cfg buffer extended imageSize then .success else .invalidData,
        ⟨extended.take 104, extended.length⟩) := by
  have hmessage : slice f data (len - extended.length + 40) =
      buffer.take (buffer.length - extended.length + 40) := by
    rw [← hbuffer, slice_length, slice_take (by omega)]
  have hsignature : ((extended.take 104).drop 40).take 64 = (extended.drop 40).take 64 := by
    rw [List.drop_take, List.take_take]
    rfl
  unfold initSignatureAt initSignatureOk
  simp only [wordAt_take (show 0 + 4 ≤ 104 by omega), wordAt_take (show 4 + 4 ≤ 104 by omega),
    hsignature]
  by_cases hid : wordAt extended 0 = 2
  · rw [if_neg (not_not.mpr hid)]
    apply Loads.bind (loads_slice fun x h1 h2 => by unfold InBuffer; omega)
    rw [hmessage]
    by_cases hsigned : cfg.verify
        (cfg.digest (buffer.take (buffer.length - extended.length + 40))) ((extended.drop 40).take 64) =
          false ∨ wordAt extended 4 ≠ imageSize
    · rw [if_pos hsigned, if_neg]
      · exact .ret _
      · rcases hsigned with h | h
        · simp [h]
        · simp [h]
    · rw [if_neg hsigned, if_pos]
      · exact .ret _
      · simp only [not_or, Bool.not_eq_false, ne_eq, not_not] at hsigned
        simp [hid, hsigned.1, hsigned.2]
  · rw [if_pos hid, if_neg (by simp [hid])]
    exact .ret _

theorem loads_otherRevision {imageType : Nat} {buffer : List Byte}
    (hbuffer : slice f data len = buffer) (h : 4 ≤ len) :
    Loads f (InBuffer data len) (otherRevisionAt data imageType)
      (decide ((imageType.testBit 0 || imageType.testBit 1) = true ∧
        halfAt buffer 2 ≠ adafruitDevRev)) := by
  unfold otherRevisionAt
  by_cases hmode : (imageType.testBit 0 || imageType.testBit 1) = true
  · rw [if_pos hmode, ← hbuffer]
    apply Loads.bind (loads_uint16 (by omega))
    simp only [hmode, true_and]
    exact .ret _
  · rw [if_neg hmode, decide_eq_false (fun hc => hmode hc.1)]
    exact .ret _

/-- The loop over the list of SoftDevices. -/
theorem loads_softdevices {m : Mem} {n : Nat} (h : 10 + n * 2 ≤ len) :
    Loads f (InBuffer data len) (anyLoop (fun i => do
      let required ← uint16DecodeAt (data + 10 + i * 2)
      pure (required = dfuSoftdeviceAny || required = readHalf m sdFwidAddr)) n 0)
      ((List.range n).any fun i => halfAt (slice f data len) (10 + i * 2) = dfuSoftdeviceAny ||
        halfAt (slice f data len) (10 + i * 2) = readHalf m sdFwidAddr) := by
  rw [List.range_eq_range']
  apply loads_anyLoop
  intro i _ hi
  rw [Nat.add_assoc]
  apply Loads.bind (loads_uint16 (by omega))
  exact .ret _

/-- The call loads only from its buffer, answers as the list function does, and leaves the first
bytes of the extension in the static packet. -/
theorem loads_dfuInitPrevalidate {m : Mem} {imageType imageSize : Nat} {ext : ExtendedPacket}
    (old : List Byte) (hdata : data ≠ 0) (hext : ext.packet.length = 104) :
    Loads f (InBuffer data len)
      (dfuInitPrevalidateAt cfg (readHalf m sdFwidAddr) data len imageType imageSize ext)
      ((dfuInitPrevalidate cfg m (slice f data len) imageType imageSize old).1,
        extendedAfter cfg (slice f data len) ext) := by
  generalize hbuffer : slice f data len = buffer
  have hlen : buffer.length = len := by rw [← hbuffer, slice_length]
  unfold dfuInitPrevalidateAt
  rw [if_neg hdata]
  unfold dfuInitPrevalidate extendedAfter
  by_cases hshort : len < 12
  · have hnone : initExtended cfg buffer = none := by
      unfold initExtended
      simp only
      rw [if_pos (by omega)]
    rw [if_pos hshort, hnone]
    exact .ret _
  rw [if_neg hshort]
  apply Loads.bind (loads_uint16 (by omega : 8 + 2 ≤ len))
  rw [hbuffer]
  simp only
  by_cases hlist : (halfAt buffer 8).toNat = 0 ∨ len - 10 < (halfAt buffer 8).toNat * 2
  · have hnone : initExtended cfg buffer = none := by
      unfold initExtended
      simp only
      rw [if_neg (by omega), if_pos (by omega)]
    rw [if_pos hlist, hnone]
    exact .ret _
  rw [if_neg hlist]
  by_cases hbad : len - (10 + (halfAt buffer 8).toNat * 2) < cfg.extendedLength ∨
      cfg.extendedLength + 3 < len - (10 + (halfAt buffer 8).toNat * 2)
  · have hnone : initExtended cfg buffer = none := by
      unfold initExtended
      simp only [List.length_drop]
      rw [if_neg (by omega), if_neg (by omega), if_pos (by rw [hlen]; exact hbad)]
    rw [if_pos hbad, hnone]
    exact .ret _
  rw [if_neg hbad]
  have hsome : initExtended cfg buffer = some (buffer.drop (10 + (halfAt buffer 8).toNat * 2)) := by
    unfold initExtended
    simp only [List.length_drop]
    rw [if_neg (by omega), if_neg (by omega), if_neg (by rw [hlen]; exact hbad)]
  rw [hsome]
  have hrest : (buffer.drop (10 + (halfAt buffer 8).toNat * 2)).length =
      len - (10 + (halfAt buffer 8).toNat * 2) := by rw [List.length_drop, hlen]
  have hmax : cfg.extendedLength ≤ 104 := by
    unfold DfuConfig.extendedLength
    split <;> omega
  have hbytes : slice f (data + (10 + (halfAt buffer 8).toNat * 2)) cfg.extendedLength =
      (buffer.drop (10 + (halfAt buffer 8).toNat * 2)).take cfg.extendedLength := by
    rw [← hbuffer, slice_drop (by rw [hbuffer]; omega), slice_take (by rw [hbuffer]; omega)]
  apply Loads.bind (loads_slice fun x h1 h2 => by unfold InBuffer; omega)
  rw [hbytes, Nat.mod_eq_of_lt (by omega), ← hrest]
  have hfits : 10 + (halfAt buffer 8).toNat * 2 ≤ len := by omega
  generalize buffer.drop (10 + (halfAt buffer 8).toNat * 2) = extended at hrest hbytes
  apply Loads.bind (loads_uint16 (by omega : 0 + 2 ≤ len))
  rw [hbuffer]
  simp only
  by_cases htype : halfAt buffer 0 ≠ adafruitDeviceType
  · rw [if_pos htype, if_pos htype]
    exact .ret _
  rw [if_neg htype, if_neg htype]
  apply Loads.bind (loads_otherRevision hbuffer (by omega))
  by_cases hrev : (imageType.testBit 0 || imageType.testBit 1) = true ∧
      halfAt buffer 2 ≠ adafruitDevRev
  · rw [if_pos (decide_eq_true hrev), if_pos hrev]
    exact .ret _
  rw [if_neg (by rw [decide_eq_true_eq]; exact hrev), if_neg hrev]
  apply Loads.bind (loads_softdevices (by omega))
  rw [hbuffer]
  have hlist : ((List.range (halfAt buffer 8).toNat).any fun i =>
      halfAt buffer (10 + i * 2) = dfuSoftdeviceAny ||
        halfAt buffer (10 + i * 2) = readHalf m sdFwidAddr) = initSoftdeviceOk m buffer := rfl
  rw [hlist]
  by_cases hfound : (!initSoftdeviceOk m buffer) = true
  · rw [if_pos hfound, if_pos hfound]
    exact .ret _
  rw [if_neg hfound, if_neg hfound]
  by_cases hsigned : cfg.signedFw = true
  · have hwhole : cfg.extendedLength = 104 := if_pos hsigned
    rw [if_pos hsigned, hwhole, memcpy_whole (by rw [List.length_take]; omega)]
    have hsignature := loads_initSignature cfg imageSize hbuffer
      (by omega : 104 ≤ extended.length) (by omega)
    by_cases hok : initSignatureOk cfg buffer extended imageSize = true
    · rw [if_pos hok] at hsignature
      rw [if_neg (by simp [hok])]
      exact hsignature
    · rw [if_neg hok] at hsignature
      rw [if_pos ⟨hsigned, by simpa using hok⟩]
      exact hsignature
  · rw [if_neg hsigned, if_neg (fun hc => hsigned hc.1)]
    exact .ret _

end Refinement

/-! ## The packets accepted -/

/-- The bytes behind the SoftDevice list. -/
def initExtension (buffer : List Byte) : List Byte :=
  buffer.drop (10 + (halfAt buffer 8).toNat * 2)

structure InitAccepted (cfg : DfuConfig) (fwid : BitVec 16) (buffer : List Byte)
    (imageType imageSize : Nat) : Prop where
  listed : 0 < (halfAt buffer 8).toNat
  fits : 10 + (halfAt buffer 8).toNat * 2 ≤ buffer.length
  extension : cfg.extendedLength ≤ (initExtension buffer).length ∧
    (initExtension buffer).length ≤ cfg.extendedLength + 3
  deviceType : halfAt buffer 0 = adafruitDeviceType
  deviceRev : (imageType.testBit 0 || imageType.testBit 1) = true → halfAt buffer 2 = adafruitDevRev
  softdevice : ∃ i < (halfAt buffer 8).toNat, halfAt buffer (10 + i * 2) = dfuSoftdeviceAny ∨
    halfAt buffer (10 + i * 2) = fwid
  signed : cfg.signedFw = true → wordAt (initExtension buffer) 0 = 2 ∧
    cfg.verify (cfg.digest (buffer.take (10 + (halfAt buffer 8).toNat * 2) ++
      (initExtension buffer).take 40)) (((initExtension buffer).drop 40).take 64) = true ∧
    wordAt (initExtension buffer) 4 = imageSize

theorem initExtended_eq (cfg : DfuConfig) (buffer extended : List Byte) :
    initExtended cfg buffer = some extended ↔ 0 < (halfAt buffer 8).toNat ∧
      10 + (halfAt buffer 8).toNat * 2 ≤ buffer.length ∧
      (cfg.extendedLength ≤ (initExtension buffer).length ∧
        (initExtension buffer).length ≤ cfg.extendedLength + 3) ∧
      extended = initExtension buffer := by
  have htwo : 2 ≤ cfg.extendedLength := by
    unfold DfuConfig.extendedLength
    split <;> omega
  have hlen : (initExtension buffer).length =
      buffer.length - (10 + (halfAt buffer 8).toNat * 2) := List.length_drop
  unfold initExtended
  simp only
  rw [show buffer.drop (10 + (halfAt buffer 8).toNat * 2) = initExtension buffer from rfl]
  by_cases hok : 0 < (halfAt buffer 8).toNat ∧ 10 + (halfAt buffer 8).toNat * 2 ≤ buffer.length ∧
      cfg.extendedLength ≤ (initExtension buffer).length ∧
      (initExtension buffer).length ≤ cfg.extendedLength + 3
  · rw [if_neg (by omega), if_neg (by omega), if_neg (by omega), Option.some.injEq]
    constructor
    · intro h
      exact ⟨hok.1, hok.2.1, hok.2.2, h.symm⟩
    · intro h
      exact h.2.2.2.symm
  · constructor
    · intro h
      split_ifs at h with h1 h2 h3
      omega
    · intro h
      exact absurd ⟨h.1, h.2.1, h.2.2.1⟩ hok

/-- The signed message is the header, the list and the first forty bytes behind it. -/
theorem initSignatureOk_iff {cfg : DfuConfig} {buffer : List Byte} {imageSize : Nat}
    (hfits : 10 + (halfAt buffer 8).toNat * 2 ≤ buffer.length) :
    initSignatureOk cfg buffer (initExtension buffer) imageSize = true ↔
      wordAt (initExtension buffer) 0 = 2 ∧
      cfg.verify (cfg.digest (buffer.take (10 + (halfAt buffer 8).toNat * 2) ++
        (initExtension buffer).take 40)) (((initExtension buffer).drop 40).take 64) = true ∧
      wordAt (initExtension buffer) 4 = imageSize := by
  have hmessage : buffer.take (buffer.length - (initExtension buffer).length + 40) =
      buffer.take (10 + (halfAt buffer 8).toNat * 2) ++ (initExtension buffer).take 40 := by
    have hlen : (initExtension buffer).length =
        buffer.length - (10 + (halfAt buffer 8).toNat * 2) := List.length_drop
    rw [hlen, show buffer.length - (buffer.length - (10 + (halfAt buffer 8).toNat * 2)) + 40 =
      10 + (halfAt buffer 8).toNat * 2 + 40 by omega, List.take_add]
    rfl
  unfold initSignatureOk
  simp only
  rw [hmessage]
  simp only [Bool.and_eq_true, decide_eq_true_eq, and_assoc]

theorem initSoftdeviceOk_iff {m : Mem} {buffer : List Byte} : initSoftdeviceOk m buffer = true ↔
    ∃ i < (halfAt buffer 8).toNat, halfAt buffer (10 + i * 2) = dfuSoftdeviceAny ∨
      halfAt buffer (10 + i * 2) = readHalf m sdFwidAddr := by
  unfold initSoftdeviceOk
  simp only [List.any_eq_true, List.mem_range, Bool.or_eq_true, decide_eq_true_eq]

theorem dfuInitPrevalidate_iff {cfg : DfuConfig} {m : Mem} {buffer old : List Byte}
    {imageType imageSize : Nat} :
    (dfuInitPrevalidate cfg m buffer imageType imageSize old).1 = .success ↔
      InitAccepted cfg (readHalf m sdFwidAddr) buffer imageType imageSize := by
  unfold dfuInitPrevalidate
  constructor
  · intro h
    cases hext : initExtended cfg buffer with
    | none =>
      rw [hext] at h
      cases h
    | some extended =>
      rw [hext] at h
      obtain ⟨hlisted, hfits, hextension, rfl⟩ := (initExtended_eq cfg buffer extended).mp hext
      simp only at h
      split_ifs at h with htype hrev hlist hsigned
      simp only [not_and, not_not, Bool.not_eq_true'] at htype hrev hlist hsigned
      refine ⟨hlisted, hfits, hextension, htype, hrev, ?_, fun hs => ?_⟩
      · rw [← initSoftdeviceOk_iff]
        simpa using hlist
      · rw [← initSignatureOk_iff hfits]
        simpa using hsigned hs
  · intro h
    have hext := (initExtended_eq cfg buffer _).mpr ⟨h.listed, h.fits, h.extension, rfl⟩
    have hlist : initSoftdeviceOk m buffer = true := initSoftdeviceOk_iff.mpr h.softdevice
    rw [hext]
    simp only
    rw [if_neg (not_not.mpr h.deviceType), if_neg (fun hc => hc.2 (h.deviceRev hc.1)),
      if_neg (by simp [hlist]), if_neg]
    rintro ⟨hs, hbad⟩
    rw [(initSignatureOk_iff h.fits).mpr (h.signed hs)] at hbad
    cases hbad

/-- The check stays in its buffer, accepts exactly the packets of `InitAccepted`, and what the
image is compared with afterwards is the CRC behind the list. -/
theorem dfu_init_prevalidate_exact (cfg : DfuConfig) (f m : Mem) {data : Nat} (hdata : data ≠ 0)
    (len imageType imageSize : Nat) {ext : ExtendedPacket} (hext : ext.packet.length = 104) :
    ∃ r, Loads f (InBuffer data len)
        (dfuInitPrevalidateAt cfg (readHalf m sdFwidAddr) data len imageType imageSize ext) r ∧
      (r.1 = .success ↔
        InitAccepted cfg (readHalf m sdFwidAddr) (slice f data len) imageType imageSize) ∧
      (r.1 = .success → cfg.signedFw = false →
        halfAt r.2.packet 0 = halfAt (initExtension (slice f data len)) 0 ∧
        ∀ image, dfuInitPostvalidate cfg image r.2.packet =
          if crc16 image = halfAt (initExtension (slice f data len)) 0 then some (crc16 image)
          else none) := by
  refine ⟨_, loads_dfuInitPrevalidate [] hdata hext, dfuInitPrevalidate_iff, fun hok hunsigned => ?_⟩
  have h := dfuInitPrevalidate_iff.mp hok
  generalize slice f data len = buffer at h
  have hpacket : halfAt (extendedAfter cfg buffer ext).packet 0 = halfAt (initExtension buffer) 0 := by
    have htwo : cfg.extendedLength = 2 := if_neg (by rw [hunsigned]; exact Bool.false_ne_true)
    have hlong := h.extension.1
    unfold extendedAfter
    rw [(initExtended_eq cfg buffer _).mpr ⟨h.listed, h.fits, h.extension, rfl⟩, htwo] at *
    match initExtension buffer, hlong with
    | b0 :: b1 :: rest, _ => rfl
  refine ⟨hpacket, fun image => ?_⟩
  unfold dfuInitPostvalidate
  rw [if_neg (by rw [hunsigned]; exact Bool.false_ne_true), hpacket]

/-- An unsigned build. -/
def unsignedBuild : DfuConfig where
  board :=
    { boardId := 1, deviceName := List.replicate 16 0, deviceName_length := rfl,
      softdeviceFamily := 0, recoveryAllowAllBoards := false }
  signedFw := false
  digest := sha256
  verify := fun _ _ => false

/-- An init packet for any SoftDevice, in RAM. -/
def anySoftdeviceInit : Mem := fun a =>
  [0x52, 0x00, 0xFF, 0xFF, 0x01, 0x00, 0x00, 0x00, 0x01, 0x00, 0xFE, 0xFF, 0x34, 0x12].getD
    (a - 0x20001000) 0

theorem dfu_init_prevalidate_exact_any :
    ∃ r, Loads anySoftdeviceInit (InBuffer 0x20001000 14)
        (dfuInitPrevalidateAt unsignedBuild (readHalf (fun _ => 0xFF) sdFwidAddr) 0x20001000 14 4 1024
          ⟨List.replicate 104 0, 0⟩) r ∧
      (r.1 = .success ↔ InitAccepted unsignedBuild (readHalf (fun _ => 0xFF) sdFwidAddr)
        (slice anySoftdeviceInit 0x20001000 14) 4 1024) ∧
      (r.1 = .success → unsignedBuild.signedFw = false →
        halfAt r.2.packet 0 = halfAt (initExtension (slice anySoftdeviceInit 0x20001000 14)) 0 ∧
        ∀ image, dfuInitPostvalidate unsignedBuild image r.2.packet =
          if crc16 image = halfAt (initExtension (slice anySoftdeviceInit 0x20001000 14)) 0 then
            some (crc16 image)
          else none) :=
  dfu_init_prevalidate_exact unsignedBuild anySoftdeviceInit (fun _ => 0xFF) (by omega) 14 4 1024
    List.length_replicate

end OtaFix
