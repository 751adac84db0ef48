import OtaFix.Policy
import OtaFix.Dfu.InitPointer

/-!
# The image policy over memory

`dfu_image_policy_validate` as it reads the received image: the vectors, the information
structure of a SoftDevice, the manifest scan and the CRC of a bootloader. Each function
loads only inside the part it is given and returns what the function of the same name in
`Image.lean` does; an accepted image is split and bounded as its START packet says.
-/

namespace OtaFix

open Lib Prog

/-! ## `bootloader_image.c` -/

/-- `otafix_crc32_update` over `n` bytes in memory. -/
def otafixCrc32UpdateAt (crc : BitVec 32) (a n : Nat) : Prog LoadRes (BitVec 32) := do
  let data ← loadSlice a n
  pure (otafixCrc32Update crc data)

/-- `bootloader_image_crc32`. -/
def bootloaderImageCrc32At (image imageSize crcOffset : Nat) : Prog LoadRes (BitVec 32) :=
  if imageSize ≤ crcOffset ∨ 2 ^ 32 - 1 - 4 < crcOffset then otafixCrc32UpdateAt 0 image imageSize
  else
    let tail := imageSize - crcOffset
    let masked := min tail 4
    do
      let crc ← otafixCrc32UpdateAt 0 image crcOffset
      let crc := otafixCrc32Update crc (List.replicate masked 0)
      otafixCrc32UpdateAt crc (image + crcOffset + masked) (tail - masked)

/-- `bootloader_image_vectors_valid`. -/
def bootloaderImageVectorsValidAt (image imageSize codeStart codeSize : Nat) : Prog LoadRes Bool :=
  if imageSize < 8 ∨ codeSize < 8 ∨ 2 ^ 32 - 1 - codeSize < codeStart then pure false
  else do
    let sp ← readLe32At image
    let reset ← readLe32At (image + 4)
    let resetAddr := reset - reset % 2
    pure (sp % 8 = 0 && ramStart ≤ sp && sp ≤ 0x20040000 && reset % 2 = 1 && codeStart ≤ resetAddr &&
      resetAddr < codeStart + codeSize)

/-- One turn of the manifest scan: the checks of a candidate, in their order. -/
def manifestMatchesAt (board : Board) (allowOtherBoards : Bool)
    (image imageSize imageStart offset : Nat) : Prog LoadRes Bool := do
  let magic ← loadSlice (image + offset) 8
  if magic ≠ manifestMagic then pure false
  else do
    let manifest ← loadSlice (image + offset) manifestSize
    if halfAt manifest 8 ≠ 1 ∨ halfAt manifest 10 ≠ 44 ∨ wordAt manifest 12 ≠ imageStart ∨
        wordAt manifest 16 ≠ imageSize then
      pure false
    else if (if board.recoveryAllowAllBoards && allowOtherBoards then recoveryIdentityValid manifest
        else wordAt manifest 20 = board.boardId && (manifest.drop 24).take 16 = board.deviceName) =
          false then
      pure false
    else do
      let crc ← bootloaderImageCrc32At image imageSize (offset + 40)
      pure (crc = BitVec.ofNat 32 (wordAt manifest 40))

/-- The scan, up to a second match; a turn for each word is enough. -/
def manifestScanAt (board : Board) (allowOtherBoards : Bool) (image imageSize imageStart : Nat) :
    Nat → Nat → Option Nat → Prog LoadRes (Option Nat)
  | 0, _, valid => pure valid
  | turns + 1, offset, valid =>
    if add32 offset manifestSize ≤ imageSize then do
      if ← manifestMatchesAt board allowOtherBoards image imageSize imageStart offset then
        match valid with
        | some _ => pure none
        | none =>
          manifestScanAt board allowOtherBoards image imageSize imageStart turns (add32 offset 4)
            (some offset)
      else
        manifestScanAt board allowOtherBoards image imageSize imageStart turns (add32 offset 4) valid
    else pure valid

/-- `bootloader_manifest_find`. -/
def bootloaderManifestFindAt (board : Board) (allowOtherBoards : Bool)
    (image imageSize imageStart : Nat) : Prog LoadRes (Option Nat) :=
  if imageSize < manifestSize ∨ 2 ^ 32 - 1 - imageStart < imageSize then pure none
  else do
    let vectors ← bootloaderImageVectorsValidAt image imageSize imageStart imageSize
    if !vectors then pure none
    else manifestScanAt board allowOtherBoards image imageSize imageStart (imageSize / 4 + 1) 0 none

/-- `bootloader_image_classify_impl`. -/
def bootloaderImageClassifyAt (board : Board) (allowOtherBoards : Bool)
    (image imageSize imageStart : Nat) : Prog LoadRes ImageFormat := do
  match ← bootloaderManifestFindAt board allowOtherBoards image imageSize imageStart with
  | none => pure .invalid
  | some offset =>
    if imageSize < envelopeSize ∨ offset ≠ imageSize - envelopeSize then pure .legacy
    else do
      let extension ← loadSlice (image + offset + manifestSize) 32
      match bootloaderExtensionValidate extension with
      | none => pure .invalid
      | some info => pure (.v2 info)

/-! ## `dfu_image_policy.c` -/

/-- `softdevice_info`. -/
def softdeviceInfoAt (board : Board) (image imageSize : Nat) : Prog LoadRes (Option SdInfo) :=
  if imageSize < 0x2018 + 20 then pure none
  else do
    let structSize ← perform (image + 0x2000)
    if structSize.toNat ≤ 0x10 then pure none
    else do
      let magic ← readLe32At (image + 0x2004)
      if magic ≠ sdMagicNumber then pure none
      else do
        let family ← readLe32At (image + 0x2010)
        let fwid ← uint16DecodeAt (image + 0x200C)
        let appBase ← readLe32At (image + 0x2008)
        if family ≠ board.softdeviceFamily ∨ fwid.toNat = 0 ∨ fwid.toNat = 0xFFFF ∨
            appBase ≤ mbrSize ∨ bootloaderRegionStart ≤ appBase ∨ appBase % codePageSize ≠ 0 ∨
            appBase - mbrSize < imageSize then
          pure none
        else do
          let vectors ← bootloaderImageVectorsValidAt image imageSize mbrSize imageSize
          pure (if vectors then some ⟨fwid.toNat, appBase⟩ else none)

/-- `bootloader_info`; `m` is the flash of the runtime. -/
def bootloaderInfoAt (board : Board) (m : Mem) (image imageSize : Nat) (incomingSd : Option SdInfo) :
    Prog LoadRes Bool :=
  if board.recoveryAllowAllBoards then
    if imageSize ≤ dfuBlImageMaxSize then
      bootloaderImageVectorsValidAt image imageSize bootloaderRegionStart imageSize
    else pure false
  else if imageSize ≠ dfuBlImageMaxSize then pure false
  else do
    match ← bootloaderImageClassifyAt board board.recoveryAllowAllBoards image imageSize
        bootloaderRegionStart with
    | .invalid => pure false
    | .v2 candidate =>
      let fwid := (incomingSd.map SdInfo.fwid).getD (runtimeSoftdeviceFwid m)
      let appBase := (incomingSd.map SdInfo.appBase).getD (dfuBank0RegionStart m)
      pure (candidate.softdeviceFamily = board.softdeviceFamily && candidate.softdeviceFwid = fwid &&
        candidate.appBase = appBase && candidate.layoutAbi = 1)
    | .legacy =>
      pure (match incomingSd with
        | none => true
        | some sd => sd.fwid = runtimeSoftdeviceFwid m && sd.appBase = dfuBank0RegionStart m)

/-- The bootloader part, behind the SoftDevice part. -/
def bootloaderPartAt (board : Board) (m : Mem) (image : Nat) (p : StartPacket)
    (incomingSd : Option SdInfo) : Prog LoadRes NrfError :=
  if p.dfuUpdateMode.testBit 1 then do
    let ok ← bootloaderInfoAt board m (image + p.sdImageSize) p.blImageSize incomingSd
    pure (if ok then .success else .invalidData)
  else pure .success

/-- `dfu_image_policy_validate`. -/
def dfuImagePolicyValidateAt (board : Board) (m : Mem) (image imageLen : Nat) (p : StartPacket) :
    Prog LoadRes NrfError :=
  if image = 0 then pure .other
  else
    match dfuStartPacketValidate p with
    | .error _ => pure .invalidData
    | .ok declaredSize =>
      if imageLen ≠ declaredSize then pure .invalidData
      else if p.dfuUpdateMode = dfuUpdateApp then do
        let vectors ← bootloaderImageVectorsValidAt image imageLen (dfuBank0RegionStart m) imageLen
        pure (if vectors then .success else .invalidData)
      else if p.dfuUpdateMode.testBit 0 then do
        match ← softdeviceInfoAt board image p.sdImageSize with
        | none => pure .invalidData
        | some incomingSd =>
          if p.dfuUpdateMode = dfuUpdateSd ∧ (incomingSd.fwid ≠ runtimeSoftdeviceFwid m ∨
              incomingSd.appBase ≠ dfuBank0RegionStart m) then
            pure .invalidData
          else bootloaderPartAt board m image p (some incomingSd)
      else bootloaderPartAt board m image p none

/-! ## Refinement -/

section Refinement

variable {f m : Mem} {data len : Nat} {board : Board} {other : Bool} {start : Nat}

theorem loads_crc32Update (f : Mem) (data : Nat) (crc : BitVec 32) {o n : Nat} (h : o + n ≤ len) :
    Loads f (InBuffer data len) (otafixCrc32UpdateAt crc (data + o) n)
      (otafixCrc32Update crc (((slice f data len).drop o).take n)) := by
  unfold otafixCrc32UpdateAt
  apply Loads.bind (loads_part h)
  exact .ret _

theorem loads_bootloaderImageCrc32 {crcOffset : Nat} :
    Loads f (InBuffer data len) (bootloaderImageCrc32At data len crcOffset)
      (bootloaderImageCrc32 (slice f data len) crcOffset) := by
  have hlen : (slice f data len).length = len := slice_length _ _ _
  have hall : (slice f data len).drop 0 = slice f data len := rfl
  unfold bootloaderImageCrc32At bootloaderImageCrc32
  rw [hlen]
  by_cases hout : len ≤ crcOffset ∨ 2 ^ 32 - 1 - 4 < crcOffset
  · rw [if_pos hout, if_pos hout]
    have hwhole := loads_crc32Update f data 0 (by omega : 0 + len ≤ len)
    rw [hall, List.take_of_length_le (Nat.le_of_eq hlen)] at hwhole
    exact hwhole
  · rw [if_neg hout, if_neg hout]
    simp only
    have hhead := loads_crc32Update f data 0 (by omega : 0 + crcOffset ≤ len)
    rw [hall] at hhead
    apply Loads.bind hhead
    have hrest : ((slice f data len).drop (crcOffset + min (len - crcOffset) 4)).take
        (len - crcOffset - min (len - crcOffset) 4) =
          (slice f data len).drop (crcOffset + min (len - crcOffset) 4) := by
      apply List.take_of_length_le
      rw [List.length_drop, hlen]
      omega
    have htail := loads_crc32Update f data
      (otafixCrc32Update (otafixCrc32Update 0 ((slice f data len).take crcOffset))
        (List.replicate (min (len - crcOffset) 4) 0))
      (by omega : crcOffset + min (len - crcOffset) 4 +
        (len - crcOffset - min (len - crcOffset) 4) ≤ len)
    rw [← Nat.add_assoc, hrest] at htail
    exact htail

theorem loads_vectors {codeStart codeSize : Nat} :
    Loads f (InBuffer data len) (bootloaderImageVectorsValidAt data len codeStart codeSize)
      (bootloaderImageVectorsValid (slice f data len) codeStart codeSize) := by
  have hlen : (slice f data len).length = len := slice_length _ _ _
  unfold bootloaderImageVectorsValidAt bootloaderImageVectorsValid
  rw [hlen]
  apply Loads.ite (fun _ => .ret _)
  intro hok
  apply Loads.bind (loads_word (by omega : 0 + 4 ≤ len))
  apply Loads.bind (loads_word (by omega : 4 + 4 ≤ len))
  exact .ret _

theorem loads_manifestMatches {offset : Nat} (h : offset + manifestSize ≤ len) :
    Loads f (InBuffer data len) (manifestMatchesAt board other data len start offset)
      (manifestMatches board other (slice f data len) start offset) := by
  have hsize : manifestSize = 44 := rfl
  have hlen : (slice f data len).length = len := slice_length _ _ _
  have hmagic : (((slice f data len).drop offset).take manifestSize).take 8 =
      ((slice f data len).drop offset).take 8 := by
    rw [List.take_take]
    rfl
  unfold manifestMatchesAt manifestMatches
  apply Loads.bind (loads_part (by omega : offset + 8 ≤ len))
  simp only [hmagic, hlen]
  by_cases hm : ((slice f data len).drop offset).take 8 = manifestMagic
  · rw [if_neg (not_not.mpr hm)]
    apply Loads.bind (loads_part h)
    generalize ((slice f data len).drop offset).take manifestSize = manifest
    by_cases hfields : halfAt manifest 8 ≠ 1 ∨ halfAt manifest 10 ≠ 44 ∨
        wordAt manifest 12 ≠ start ∨ wordAt manifest 16 ≠ len
    · rw [if_pos hfields]
      have hfalse : ∀ b c : Bool, (decide (((slice f data len).drop offset).take 8 = manifestMagic) &&
          decide (halfAt manifest 8 = 1) && decide (halfAt manifest 10 = 44) &&
          decide (wordAt manifest 12 = start) && decide (wordAt manifest 16 = len) && b && c) =
            false := by
        intro b c
        rcases hfields with h | h | h | h
        all_goals simp only [decide_eq_false h, Bool.and_false, Bool.false_and]
      rw [hfalse]
      exact .ret _
    · rw [if_neg hfields]
      simp only [not_or, not_not, ne_eq] at hfields
      obtain ⟨h1, h2, h3, h4⟩ := hfields
      simp only [hm, h1, h2, h3, h4, decide_true, Bool.true_and]
      generalize (if (board.recoveryAllowAllBoards && other) = true then
        recoveryIdentityValid manifest
        else decide (wordAt manifest 20 = board.boardId) &&
          decide ((manifest.drop 24).take 16 = board.deviceName)) = identity
      cases identity with
      | false => exact .ret _
      | true =>
        apply Loads.bind loads_bootloaderImageCrc32
        exact .ret _
  · rw [if_pos hm, decide_eq_false hm]
    simp only [Bool.false_and]
    exact .ret _

/-- The element of a list of one. -/
def theOne : List Nat → Option Nat
  | [o] => some o
  | _ => none

theorem theOne_toList (valid : Option Nat) : theOne (valid.toList ++ []) = valid := by
  cases valid <;> rfl

theorem loads_manifestScan {turns i : Nat} {valid : Option Nat} (hlen : len < 2 ^ 31)
    (hi : i + turns = len / 4 + 1) :
    Loads f (InBuffer data len) (manifestScanAt board other data len start turns (4 * i) valid)
      (theOne (valid.toList ++ ((List.range' i turns).map (4 * ·)).filter fun o =>
        o + manifestSize ≤ len && manifestMatches board other (slice f data len) start o)) := by
  have hsize : manifestSize = 44 := rfl
  induction turns generalizing i valid with
  | zero =>
    rw [List.range'_zero, List.map_nil, List.filter_nil, theOne_toList]
    exact .ret _
  | succ turns ih =>
    have hnowrap : add32 (4 * i) manifestSize = 4 * i + manifestSize := by
      apply add32_eq
      omega
    have hnext : add32 (4 * i) 4 = 4 * (i + 1) := add32_eq (by omega)
    unfold manifestScanAt
    rw [hnowrap, hnext]
    by_cases hin : 4 * i + manifestSize ≤ len
    · rw [if_pos hin, List.range'_succ, List.map_cons]
      apply Loads.bind (loads_manifestMatches hin)
      cases hmatch : manifestMatches board other (slice f data len) start (4 * i) with
      | false =>
        rw [List.filter_cons_of_neg (by simp [hmatch])]
        exact ih (by omega)
      | true =>
        rw [List.filter_cons_of_pos (by simp [hin, hmatch])]
        cases valid with
        | none => exact ih (by omega)
        | some o => exact .ret _
    · -- no later offset leaves room for a manifest
      have hnone : ((List.range' i (turns + 1)).map (4 * ·)).filter (fun o =>
          o + manifestSize ≤ len && manifestMatches board other (slice f data len) start o) = [] := by
        rw [List.filter_eq_nil_iff]
        intro o ho
        obtain ⟨j, hj, rfl⟩ := List.mem_map.mp ho
        rw [List.mem_range'_1] at hj
        simp only [Bool.and_eq_true, decide_eq_true_eq, not_and]
        omega
      rw [if_neg hin, hnone, theOne_toList]
      exact .ret _

theorem loads_manifestFind (hlen : len < 2 ^ 31) :
    Loads f (InBuffer data len) (bootloaderManifestFindAt board other data len start)
      (bootloaderManifestFind board other (slice f data len) start) := by
  have hsize : (slice f data len).length = len := slice_length _ _ _
  unfold bootloaderManifestFindAt bootloaderManifestFind
  rw [hsize]
  apply Loads.ite (fun _ => .ret _)
  intro _
  apply Loads.bind loads_vectors
  apply Loads.ite (fun _ => .ret _)
  intro _
  rw [List.range_eq_range']
  exact loads_manifestScan hlen (Nat.zero_add _)

theorem loads_classify (hlen : len < 2 ^ 31) :
    Loads f (InBuffer data len) (bootloaderImageClassifyAt board other data len start)
      (bootloaderImageClassify board other (slice f data len) start) := by
  have hsize : (slice f data len).length = len := slice_length _ _ _
  unfold bootloaderImageClassifyAt bootloaderImageClassify
  apply Loads.bind (loads_manifestFind hlen)
  rw [hsize]
  cases hfind : bootloaderManifestFind board other (slice f data len) start with
  | none => exact .ret _
  | some o =>
    simp only
    apply Loads.ite (fun _ => .ret _)
    intro hcanonical
    have hroom : o + manifestSize + 32 ≤ len := by
      have he : envelopeSize = 76 := rfl
      have hm : manifestSize = 44 := rfl
      omega
    rw [Nat.add_assoc]
    apply Loads.bind (loads_part hroom)
    cases bootloaderExtensionValidate (((slice f data len).drop (o + manifestSize)).take 32) with
    | none => exact .ret _
    | some info => exact .ret _

theorem loads_softdeviceInfo :
    Loads f (InBuffer data len) (softdeviceInfoAt board data len)
      (softdeviceInfo board (slice f data len)) := by
  have hsize : (slice f data len).length = len := slice_length _ _ _
  have hstruct : ∀ h : 0x2000 < len, (slice f data len).getD 0x2000 0 = f (data + 0x2000) :=
    fun h => slice_getD_add h
  unfold softdeviceInfoAt softdeviceInfo
  rw [hsize]
  by_cases hshort : len < 0x2018 + 20
  · rw [if_pos hshort, if_pos (.inl hshort)]
    exact .ret _
  rw [if_neg hshort, hstruct (by omega)]
  apply Loads.load (by unfold InBuffer; omega)
  by_cases hsmall : (f (data + 0x2000)).toNat ≤ 0x10
  · rw [if_pos hsmall, if_pos (.inr (.inl hsmall))]
    exact .ret _
  rw [if_neg hsmall]
  apply Loads.bind (loads_word (by omega))
  by_cases hmagic : wordAt (slice f data len) 0x2004 ≠ sdMagicNumber
  · rw [if_pos hmagic, if_pos (.inr (.inr hmagic))]
    exact .ret _
  rw [if_neg hmagic, if_neg (by
    rintro (h | h | h)
    · exact hshort h
    · exact hsmall h
    · exact hmagic h)]
  apply Loads.bind (loads_word (by omega))
  apply Loads.bind (loads_uint16 (by omega))
  apply Loads.bind (loads_word (by omega))
  apply Loads.ite (fun _ => .ret _)
  intro _
  apply Loads.bind loads_vectors
  exact .ret _

theorem loads_bootloaderInfo {incoming : Option SdInfo} :
    Loads f (InBuffer data len) (bootloaderInfoAt board m data len incoming)
      (bootloaderInfo board m (slice f data len) incoming) := by
  have hsize : (slice f data len).length = len := slice_length _ _ _
  unfold bootloaderInfoAt bootloaderInfo
  rw [hsize]
  by_cases hbridge : board.recoveryAllowAllBoards = true
  · rw [if_pos hbridge, if_pos hbridge]
    by_cases hfits : len ≤ dfuBlImageMaxSize
    · rw [if_pos hfits, decide_eq_true hfits, Bool.true_and]
      exact loads_vectors
    · rw [if_neg hfits, decide_eq_false hfits, Bool.false_and]
      exact .ret _
  rw [if_neg hbridge, if_neg hbridge]
  apply Loads.ite (fun _ => .ret _)
  intro hwhole
  have hlen : len < 2 ^ 31 := by
    rw [not_not.mp hwhole]
    decide
  apply Loads.bind (loads_classify hlen)
  generalize bootloaderImageClassify board board.recoveryAllowAllBoards (slice f data len)
    bootloaderRegionStart = format
  cases format with
  | invalid => exact .ret _
  | legacy => exact .ret _
  | v2 info => exact .ret _

/-- The mode names the populated parts. -/
theorem populatedMode_bits (p : StartPacket) :
    (p.populatedMode.testBit 0 = true ↔ p.sdImageSize ≠ 0) ∧
      (p.populatedMode.testBit 1 = true ↔ p.blImageSize ≠ 0) := by
  unfold StartPacket.populatedMode
  by_cases hsd : p.sdImageSize = 0 <;> by_cases hbl : p.blImageSize = 0 <;>
    by_cases happ : p.appImageSize = 0 <;> simp [hsd, hbl, happ, dfuUpdateSd, dfuUpdateBl, dfuUpdateApp]
      <;> decide

theorem loads_bootloaderPart (board : Board) (f m : Mem) (data : Nat) {p : StartPacket}
    (incoming : Option SdInfo) (hmode : p.dfuUpdateMode = p.populatedMode)
    (hroom : p.sdImageSize + p.blImageSize ≤ len) :
    Loads f (InBuffer data len) (bootloaderPartAt board m data p incoming)
      (if p.blImageSize ≠ 0 ∧ (!bootloaderInfo board m
          (((slice f data len).drop p.sdImageSize).take p.blImageSize) incoming) = true then
        .invalidData
      else .success) := by
  have hbit : p.dfuUpdateMode.testBit 1 = true ↔ p.blImageSize ≠ 0 := by
    rw [hmode]
    exact (populatedMode_bits p).2
  unfold bootloaderPartAt
  by_cases hbl : p.blImageSize ≠ 0
  · rw [if_pos (hbit.mpr hbl), slice_drop (by omega), slice_take (by omega)]
    have hinfo : Loads f (InBuffer data len)
        (bootloaderInfoAt board m (data + p.sdImageSize) p.blImageSize incoming)
        (bootloaderInfo board m (slice f (data + p.sdImageSize) p.blImageSize) incoming) :=
      Loads.mono loads_bootloaderInfo fun a ha => InBuffer.part hroom ha
    apply Loads.bind hinfo
    cases bootloaderInfo board m (slice f (data + p.sdImageSize) p.blImageSize) incoming with
    | false =>
      have hif : (if p.blImageSize ≠ 0 ∧ (!false) = true then NrfError.invalidData else .success) =
          .invalidData := if_pos ⟨hbl, rfl⟩
      rw [hif]
      exact .ret _
    | true =>
      have hif : (if p.blImageSize ≠ 0 ∧ (!true) = true then NrfError.invalidData else .success) =
          .success := if_neg fun hc => Bool.false_ne_true hc.2
      rw [hif]
      exact .ret _
  · rw [if_neg (fun hc => hbl (hbit.mp hc)), if_neg (fun hc => hbl hc.1)]
    exact .ret _

/-- An admissible START packet names its parts, in words, and their sum does not wrap. -/
theorem dfuStartPacketValidate_ok {p : StartPacket} {size : Nat}
    (h : dfuStartPacketValidate p = .ok size) : p.dfuUpdateMode = p.populatedMode ∧
      (p.sdImageSize % 4 = 0 ∧ p.blImageSize % 4 = 0 ∧ p.appImageSize % 4 = 0) ∧
      p.blImageSize ≤ dfuBlImageMaxSize ∧ size < 2 ^ 32 := by
  unfold dfuStartPacketValidate at h
  split at h
  · cases h
  rename_i hmode
  split at h
  · cases h
  rename_i hsize
  obtain rfl := Except.ok.inj h
  simp only [not_or, ne_eq, not_not, Nat.not_lt, Nat.not_le] at hmode hsize
  exact ⟨hmode.2.2.1, hmode.2.2.2, hsize.1, hsize.2.2⟩

theorem some_sdInfo_ne (sd : SdInfo) (fwid appBase : Nat) :
    some sd ≠ some ⟨fwid, appBase⟩ ↔ sd.fwid ≠ fwid ∨ sd.appBase ≠ appBase := by
  obtain ⟨a, b⟩ := sd
  rw [ne_eq, Option.some.injEq, SdInfo.mk.injEq, not_and_or]

theorem loads_dfuImagePolicyValidate (hdata : data ≠ 0) (p : StartPacket) :
    Loads f (InBuffer data len) (dfuImagePolicyValidateAt board m data len p)
      (dfuImagePolicyValidate board m (slice f data len) p) := by
  have hsize : (slice f data len).length = len := slice_length _ _ _
  unfold dfuImagePolicyValidateAt dfuImagePolicyValidate
  rw [if_neg hdata, hsize]
  cases hstart : dfuStartPacketValidate p with
  | error e => exact .ret _
  | ok declared =>
    simp only
    obtain ⟨hsum, -⟩ := dfuStartPacketValidate_parts hstart
    obtain ⟨hmode, -⟩ := dfuStartPacketValidate_ok hstart
    apply Loads.ite (fun _ => .ret _)
    intro hlen
    by_cases happ : p.dfuUpdateMode = dfuUpdateApp
    · rw [if_pos happ, if_pos happ]
      apply Loads.bind loads_vectors
      exact .ret _
    rw [if_neg happ, if_neg happ]
    have hbit : p.dfuUpdateMode.testBit 0 = true ↔ p.sdImageSize ≠ 0 := by
      rw [hmode]
      exact (populatedMode_bits p).1
    have hroom : p.sdImageSize + p.blImageSize ≤ len := by omega
    by_cases hsd : p.sdImageSize ≠ 0
    · have hinfo : Loads f (InBuffer data len) (softdeviceInfoAt board data p.sdImageSize)
          (softdeviceInfo board ((slice f data len).take p.sdImageSize)) := by
        rw [slice_take (by omega)]
        exact Loads.mono loads_softdeviceInfo fun a ha => ⟨ha.1, by have := ha.2; omega⟩
      rw [if_pos (hbit.mpr hsd)]
      apply Loads.bind hinfo
      cases softdeviceInfo board ((slice f data len).take p.sdImageSize) with
      | none =>
        rw [if_pos ⟨hsd, rfl⟩]
        exact .ret _
      | some sd =>
        have hpart := loads_bootloaderPart board f m data (some sd) hmode hroom
        rw [if_neg (show ¬ (p.sdImageSize ≠ 0 ∧ some sd = none) from fun hc => nomatch hc.2),
          if_pos hsd]
        apply Loads.ite_iff _ (fun _ => .ret _) (fun _ => hpart)
        exact and_congr_right fun _ => (some_sdInfo_ne sd _ _).symm
    · have hother : ¬ p.dfuUpdateMode = dfuUpdateSd := fun hc => hsd (hbit.mp (by rw [hc]; rfl))
      have hpart := loads_bootloaderPart board f m data none hmode hroom
      rw [if_neg (fun hc => hsd (hbit.mp hc)), if_neg (fun hc => hsd hc.1),
        if_neg (fun hc => hother hc.1), if_neg hsd]
      exact hpart

end Refinement

/-! ## What is accepted -/

/-- A stack pointer in RAM and a Thumb reset vector from `lo` to below `hi`. -/
structure VectorsIn (image : List Byte) (lo hi : Nat) : Prop where
  stack_aligned : wordAt image 0 % 8 = 0
  stack : ramStart ≤ wordAt image 0 ∧ wordAt image 0 ≤ 0x20040000
  thumb : wordAt image 4 % 2 = 1
  reset : lo ≤ wordAt image 4 - 1 ∧ wordAt image 4 - 1 < hi

/-- The tuple fits the image, and every part of the image its own destination. -/
structure PolicyAccepted (board : Board) (m : Mem) (image : List Byte) (p : StartPacket) : Prop where
  mode : p.dfuUpdateMode = p.populatedMode
  words : p.sdImageSize % 4 = 0 ∧ p.blImageSize % 4 = 0 ∧ p.appImageSize % 4 = 0
  sum : p.sdImageSize + p.blImageSize + p.appImageSize = image.length ∧ image.length < 2 ^ 32
  alone : p.appImageSize ≠ 0 → p.sdImageSize = 0 ∧ p.blImageSize = 0
  bl_max : p.blImageSize ≤ dfuBlImageMaxSize
  softdevice : p.sdImageSize ≠ 0 →
    mbrSize + p.sdImageSize ≤ wordAt image 0x2008 ∧ wordAt image 0x2008 % codePageSize = 0 ∧
    wordAt image 0x2008 < bootloaderRegionStart ∧
    VectorsIn (image.take p.sdImageSize) mbrSize (mbrSize + p.sdImageSize)
  bootloader : p.blImageSize ≠ 0 → VectorsIn ((image.drop p.sdImageSize).take p.blImageSize)
    bootloaderRegionStart (bootloaderRegionStart + p.blImageSize)
  application : p.appImageSize ≠ 0 →
    VectorsIn image (dfuBank0RegionStart m) (dfuBank0RegionStart m + p.appImageSize)

section Accepted

variable {m : Mem} {board : Board} {image : List Byte} {p : StartPacket}

theorem vectors_of_valid {start size : Nat} (h : bootloaderImageVectorsValid image start size = true) :
    VectorsIn image start (start + size) := by
  unfold bootloaderImageVectorsValid at h
  split at h
  · cases h
  simp only [Bool.and_eq_true, decide_eq_true_eq] at h
  obtain ⟨⟨⟨⟨⟨h1, h2⟩, h3⟩, h4⟩, h5⟩, h6⟩ := h
  rw [h4] at h5 h6
  exact ⟨h1, ⟨h2, h3⟩, h4, h5, h6⟩

theorem classify_vectors {other : Bool} {start : Nat}
    (h : bootloaderImageClassify board other image start ≠ .invalid) :
    bootloaderImageVectorsValid image start image.length = true := by
  unfold bootloaderImageClassify bootloaderManifestFind at h
  by_contra hbad
  by_cases hshort : image.length < manifestSize ∨ 2 ^ 32 - 1 - start < image.length
  · rw [if_pos hshort] at h
    exact h rfl
  · rw [if_neg hshort, if_pos (by simpa using hbad)] at h
    exact h rfl

theorem bootloaderInfo_vectors {incoming : Option SdInfo}
    (h : bootloaderInfo board m image incoming = true) :
    bootloaderImageVectorsValid image bootloaderRegionStart image.length = true := by
  unfold bootloaderInfo at h
  by_cases hbridge : board.recoveryAllowAllBoards = true
  · rw [if_pos hbridge, Bool.and_eq_true] at h
    exact h.2
  rw [if_neg hbridge] at h
  by_cases hlen : image.length ≠ dfuBlImageMaxSize
  · rw [if_pos hlen] at h
    cases h
  rw [if_neg hlen] at h
  apply classify_vectors
  intro hinvalid
  rw [hinvalid] at h
  cases h

theorem softdeviceInfo_bounds {info : SdInfo} (h : softdeviceInfo board image = some info) :
    info.appBase < bootloaderRegionStart ∧
      bootloaderImageVectorsValid image mbrSize image.length = true := by
  unfold softdeviceInfo at h
  split at h
  · cases h
  simp only at h
  split at h
  · cases h
  rename_i hinfo
  split at h
  · rename_i hvectors
    obtain rfl := Option.some.inj h
    simp only [not_or, not_not, Nat.not_lt, Nat.not_le] at hinfo
    exact ⟨hinfo.2.2.2.2.1, hvectors⟩
  · cases h

theorem dfuImagePolicyValidate_application
    (h : dfuImagePolicyValidate board m image p = .success) (happ : p.dfuUpdateMode = dfuUpdateApp) :
    bootloaderImageVectorsValid image (dfuBank0RegionStart m) image.length = true := by
  unfold dfuImagePolicyValidate at h
  split at h
  · cases h
  split at h
  · cases h
  by_contra hbad
  rw [if_neg hbad] at h
  cases h

theorem dfuImagePolicyValidate_accepted
    (h : dfuImagePolicyValidate board m image p = .success) : PolicyAccepted board m image p := by
  obtain ⟨hsum, hparts⟩ := dfuImagePolicyValidate_success h
  obtain ⟨size, hstart⟩ : ∃ size, dfuStartPacketValidate p = .ok size := by
    unfold dfuImagePolicyValidate at h
    cases hstart : dfuStartPacketValidate p with
    | error e =>
      rw [hstart] at h
      cases h
    | ok size => exact ⟨size, rfl⟩
  obtain ⟨hmode, hwords, hmax, hsize⟩ := dfuStartPacketValidate_ok hstart
  obtain ⟨hdeclared, halone⟩ := dfuStartPacketValidate_parts hstart
  refine ⟨hmode, hwords, ⟨hsum.symm, by omega⟩, ?_, hmax, fun hsd => ?_, fun hbl => ?_, fun happ => ?_⟩
  · intro happ
    rcases halone with h | h
    · exact h.2
    · exact absurd h.2.1 happ
  · rcases hparts with h | ⟨incoming, hincoming, -, -⟩
    · exact absurd h.1 hsd
    rcases hincoming with h | ⟨-, sd, -, hinfo⟩
    · exact absurd h.1 hsd
    have himage := softdeviceInfo_some hinfo
    obtain ⟨hbelow, hvectors⟩ := softdeviceInfo_bounds hinfo
    have hlen : (image.take p.sdImageSize).length = p.sdImageSize := by
      rw [List.length_take]
      omega
    have hlong := himage.length
    have hfits := himage.fits
    have hbase : wordAt image 0x2008 = sd.appBase := by
      rw [← wordAt_take (by omega : 0x2008 + 4 ≤ p.sdImageSize)]
      exact himage.appBase
    have hin := vectors_of_valid hvectors
    rw [hlen] at hin hfits hlong
    rw [hbase]
    exact ⟨by omega, himage.aligned, hbelow, hin⟩
  · rcases hparts with h | ⟨incoming, -, -, hinfo⟩
    · exact absurd h.2 hbl
    have hin := vectors_of_valid (bootloaderInfo_vectors (hinfo hbl))
    have hlen : ((image.drop p.sdImageSize).take p.blImageSize).length = p.blImageSize := by
      rw [List.length_take, List.length_drop]
      omega
    rwa [hlen] at hin
  · rcases halone with h' | h'
    · have hin := vectors_of_valid (dfuImagePolicyValidate_application h h'.1)
      rwa [show image.length = p.appImageSize by omega] at hin
    · exact absurd h'.2.1 happ

end Accepted

/-- The policy loads only from the image it is given, and what it accepts is split and bounded as
START declares. -/
theorem dfu_image_policy_safe (board : Board) (f m : Mem) {image : Nat} (himage : image ≠ 0)
    (imageLen : Nat) (p : StartPacket) :
    ∃ r, Loads f (InBuffer image imageLen) (dfuImagePolicyValidateAt board m image imageLen p) r ∧
      (r = .success → PolicyAccepted board m (slice f image imageLen) p) :=
  ⟨_, loads_dfuImagePolicyValidate himage p, dfuImagePolicyValidate_accepted⟩

/-- A SoftDevice at `a`: its vectors, and its information structure in erased flash. -/
def sdImage (a appBase : Nat) (fwid : BitVec 16) : Mem := fun x =>
  if x < a + 0x2000 then (put32 0x20001000 ++ put32 0x1009).getD (x - a) 0xFF
  else ([0x14, 0, 0, 0] ++ put32 sdMagicNumber ++ put32 appBase ++ put16 fwid ++ put16 0xFFFF ++
    put32 140).getD (x - (a + 0x2000)) 0xFF

/-- Its bytes are the same wherever it lies. -/
theorem slice_sdImage (a appBase : Nat) (fwid : BitVec 16) (n : Nat) :
    slice (sdImage a appBase fwid) a n = slice (sdImage 0 appBase fwid) 0 n := by
  refine List.map_congr_left fun i _ => ?_
  simp only [sdImage, Nat.zero_add, Nat.sub_zero, Nat.add_sub_cancel_left, Nat.add_lt_add_iff_left,
    Nat.add_sub_add_left]

theorem softdeviceInfo_sdImage {board : Board} (h : board.softdeviceFamily = 140) (a : Nat) :
    softdeviceInfo board (slice (sdImage a 0x27000 0xB7) a 0x202C) = some ⟨0xB7, 0x27000⟩ := by
  rw [slice_sdImage]
  unfold softdeviceInfo bootloaderImageVectorsValid
  simp only
  rw [slice_length, slice_getD_add (by omega), wordAt_slice (by omega), wordAt_slice (by omega),
    wordAt_slice (by omega), wordAt_slice (by omega), wordAt_slice (by omega),
    readHalf_slice (by omega), h]
  decide

/-- The installed SoftDevice ends at `0x26000`. -/
def softdeviceFlash : Mem := sdImage 0x1000 0x26000 0xB6

/-- The next one is received, and the vectors of a bootloader behind it. -/
def nextAndBootloader : Mem := fun x =>
  if x < 0x2802C then sdImage 0x26000 0x27000 0xB7 x
  else (put32 0x20001000 ++ put32 0xF4009).getD (x - 0x2802C) 0xFF

/-- The build of a recovery bridge, which takes any bootloader. -/
def bridgeBoard : Board :=
  { unsignedBuild.board with softdeviceFamily := 140, recoveryAllowAllBoards := true }

theorem nextAndBootloader_valid : dfuImagePolicyValidate bridgeBoard softdeviceFlash
    (slice nextAndBootloader 0x26000 0x2038) ⟨3, 0x202C, 12, 0⟩ = .success := by
  have hstart : dfuStartPacketValidate ⟨3, 0x202C, 12, 0⟩ = .ok 0x2038 := by decide
  have hsd : slice nextAndBootloader 0x26000 0x202C =
      slice (sdImage 0x26000 0x27000 0xB7) 0x26000 0x202C := slice_congr fun x _ hx => if_pos hx
  unfold dfuImagePolicyValidate
  rw [hstart]
  simp only
  rw [if_neg (by rw [slice_length]; decide), if_neg (by decide), slice_take (by decide),
    slice_drop (by omega), slice_take (by omega), hsd, softdeviceInfo_sdImage rfl,
    if_neg (by decide), if_neg (by decide), if_neg (by decide)]

/-- Both parts of that image are split as declared. -/
theorem dfu_image_policy_safe_bridge :
    Loads nextAndBootloader (InBuffer 0x26000 0x2038) (dfuImagePolicyValidateAt bridgeBoard
        softdeviceFlash 0x26000 0x2038 ⟨3, 0x202C, 12, 0⟩) .success ∧
      PolicyAccepted bridgeBoard softdeviceFlash (slice nextAndBootloader 0x26000 0x2038)
        ⟨3, 0x202C, 12, 0⟩ := by
  have hdata : 0x26000 ≠ 0 := by omega
  obtain ⟨r, hloads, haccepted⟩ := dfu_image_policy_safe bridgeBoard nextAndBootloader
    softdeviceFlash hdata 0x2038 ⟨3, 0x202C, 12, 0⟩
  obtain rfl : r = .success := by
    rw [← hloads.result, (loads_dfuImagePolicyValidate hdata _).result]
    exact nextAndBootloader_valid
  exact ⟨hloads, haccepted rfl⟩

end OtaFix
