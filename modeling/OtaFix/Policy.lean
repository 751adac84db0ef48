import OtaFix.Image

/-!
# What the policy admits

An image that `dfu_image_policy_validate` accepts has the parts its START packet names. A
SoftDevice in it is one of the build's family; a bootloader in it was built for the SoftDevice it
will meet, or is of the old format and meets the SoftDevice that is there.
-/

namespace OtaFix

open Lib

variable {board : Board} {m : Mem}

/-- What is known of an admissible SoftDevice. -/
structure SdImage (board : Board) (image : List Byte) (info : SdInfo) : Prop where
  length : 0x202C ≤ image.length
  struct : 0x10 < (image.getD 0x2000 0).toNat
  magic : wordAt image 0x2004 = sdMagicNumber
  family : wordAt image 0x2010 = board.softdeviceFamily
  fwid : (halfAt image 0x200C).toNat = info.fwid
  appBase : wordAt image 0x2008 = info.appBase
  aligned : info.appBase % codePageSize = 0
  fits : image.length ≤ info.appBase - mbrSize

theorem softdeviceInfo_some {image : List Byte} {info : SdInfo}
    (h : softdeviceInfo board image = some info) : SdImage board image info := by
  unfold softdeviceInfo at h
  split at h
  · cases h
  rename_i hstruct
  simp only at h
  split at h
  · cases h
  rename_i hinfo
  split at h
  · obtain rfl := Option.some.inj h
    simp only [not_or, not_not, Nat.not_lt, Nat.not_le] at hstruct hinfo
    exact ⟨by omega, hstruct.2.1, hstruct.2.2, hinfo.1, rfl, rfl, hinfo.2.2.2.2.2.1,
      hinfo.2.2.2.2.2.2⟩
  · cases h

/-- The SoftDevice a bootloader has to fit: the one that comes along, or the installed. -/
def expectedSd (m : Mem) (incoming : Option SdInfo) : SdInfo :=
  incoming.getD ⟨runtimeSoftdeviceFwid m, dfuBank0RegionStart m⟩

theorem getD_fwid (incoming : Option SdInfo) (fwid appBase : Nat) :
    (incoming.map SdInfo.fwid).getD fwid = (incoming.getD ⟨fwid, appBase⟩).fwid := by
  cases incoming <;> rfl

theorem getD_appBase (incoming : Option SdInfo) (fwid appBase : Nat) :
    (incoming.map SdInfo.appBase).getD appBase = (incoming.getD ⟨fwid, appBase⟩).appBase := by
  cases incoming <;> rfl

/-- An admissible bootloader fits the SoftDevice it will meet, or is of the old format
and meets the one that is there. -/
theorem bootloaderInfo_true {image : List Byte} {incoming : Option SdInfo}
    (hbuild : board.recoveryAllowAllBoards = false)
    (h : bootloaderInfo board m image incoming = true) :
    image.length = dfuBlImageMaxSize ∧
      ((∃ c, bootloaderImageClassify board false image bootloaderRegionStart = .v2 c ∧
        c.softdeviceFamily = board.softdeviceFamily ∧
        c.softdeviceFwid = (expectedSd m incoming).fwid ∧
        c.appBase = (expectedSd m incoming).appBase ∧ c.layoutAbi = 1) ∨
      (bootloaderImageClassify board false image bootloaderRegionStart = .legacy ∧
        expectedSd m incoming = expectedSd m none)) := by
  unfold bootloaderInfo at h
  rw [hbuild, if_neg (by decide)] at h
  split at h
  · cases h
  rename_i hlen
  refine ⟨not_not.mp hlen, ?_⟩
  split at h
  · cases h
  · rename_i c hformat
    simp only [Bool.and_eq_true, decide_eq_true_eq] at h
    obtain ⟨⟨⟨hfamily, hfwid⟩, hbase⟩, hlayout⟩ := h
    refine .inl ⟨c, hformat, hfamily, hfwid.trans ?_, hbase.trans ?_, hlayout⟩
    · rw [expectedSd, getD_fwid]
    · rw [expectedSd, getD_appBase]
  · rename_i hformat
    refine .inr ⟨hformat, ?_⟩
    cases incoming with
    | none => rfl
    | some sd =>
      simp only [Bool.and_eq_true, decide_eq_true_eq] at h
      obtain ⟨fwid, appBase⟩ := sd
      simp only [expectedSd, Option.getD, SdInfo.mk.injEq]
      exact h

/-- A START packet is an application alone, or a SoftDevice, a bootloader or both. -/
theorem dfuStartPacketValidate_parts {p : StartPacket} {size : Nat}
    (h : dfuStartPacketValidate p = .ok size) :
    p.sdImageSize + p.blImageSize + p.appImageSize = size ∧
      ((p.dfuUpdateMode = dfuUpdateApp ∧ p.sdImageSize = 0 ∧ p.blImageSize = 0) ∨
        (p.dfuUpdateMode ≠ dfuUpdateApp ∧ p.appImageSize = 0 ∧
          (p.blImageSize = 0 → p.dfuUpdateMode = dfuUpdateSd ∧ p.sdImageSize ≠ 0))) := by
  unfold dfuStartPacketValidate at h
  split at h
  · cases h
  rename_i hmode
  split at h
  · cases h
  obtain rfl := Except.ok.inj h
  refine ⟨rfl, ?_⟩
  simp only [not_or, Nat.not_lt, not_not] at hmode
  obtain ⟨h0, h4, heq, -⟩ := hmode
  rw [heq]
  unfold StartPacket.populatedMode at h0 h4 ⊢
  rw [show dfuUpdateApp = 4 from rfl, show dfuUpdateSd = 1 from rfl,
    show dfuUpdateBl = 2 from rfl] at *
  split_ifs at h0 h4 ⊢
  all_goals omega

/-- The parts an admissible image has. -/
theorem dfuImagePolicyValidate_success {image : List Byte} {p : StartPacket}
    (h : dfuImagePolicyValidate board m image p = .success) :
    image.length = p.sdImageSize + p.blImageSize + p.appImageSize ∧
      ((p.sdImageSize = 0 ∧ p.blImageSize = 0) ∨
        ∃ incoming, (p.sdImageSize = 0 ∧ incoming = none ∨
            p.sdImageSize ≠ 0 ∧ ∃ sd, incoming = some sd ∧
              softdeviceInfo board (image.take p.sdImageSize) = some sd) ∧
          (p.blImageSize = 0 → incoming = some (expectedSd m none)) ∧
          (p.blImageSize ≠ 0 → bootloaderInfo board m
            ((image.drop p.sdImageSize).take p.blImageSize) incoming = true)) := by
  unfold dfuImagePolicyValidate at h
  split at h
  · cases h
  rename_i size hsize
  obtain ⟨hsum, hparts⟩ := dfuStartPacketValidate_parts hsize
  split at h
  · cases h
  rename_i hlen
  refine ⟨by rw [not_not.mp hlen, hsum], ?_⟩
  rcases hparts with ⟨-, hsd, hbl⟩ | ⟨hmode, -, honly⟩
  · exact .inl ⟨hsd, hbl⟩
  rw [if_neg hmode] at h
  simp only at h
  by_cases hnone : p.sdImageSize ≠ 0 ∧ softdeviceInfo board (image.take p.sdImageSize) = none
  · rw [if_pos hnone] at h
    cases h
  rw [if_neg hnone] at h
  by_cases hsame : p.dfuUpdateMode = dfuUpdateSd ∧ softdeviceInfo board (image.take p.sdImageSize) ≠
      some ⟨runtimeSoftdeviceFwid m, dfuBank0RegionStart m⟩
  · rw [if_pos hsame] at h
    cases h
  rw [if_neg hsame] at h
  have hinfo : ¬ (p.blImageSize ≠ 0 ∧ (!bootloaderInfo board m
      ((image.drop p.sdImageSize).take p.blImageSize)
      (if p.sdImageSize ≠ 0 then softdeviceInfo board (image.take p.sdImageSize) else none)) =
        true) := by
    intro hinfo
    rw [if_pos hinfo] at h
    cases h
  refine .inr ⟨if p.sdImageSize ≠ 0 then softdeviceInfo board (image.take p.sdImageSize) else none,
    ?_, fun hbl => ?_, fun hbl => ?_⟩
  · by_cases hsd : p.sdImageSize = 0
    · exact .inl ⟨hsd, if_neg (not_not.mpr hsd)⟩
    · rw [if_pos hsd]
      obtain ⟨sd, hsome⟩ := Option.ne_none_iff_exists'.mp fun hn => hnone ⟨hsd, hn⟩
      exact .inr ⟨hsd, sd, hsome, hsome⟩
  · obtain ⟨hmode, hsd⟩ := honly hbl
    rw [if_pos hsd]
    exact not_not.mp fun hne => hsame ⟨hmode, hne⟩
  · by_contra hfalse
    refine hinfo ⟨hbl, ?_⟩
    rw [Bool.eq_false_iff.mpr hfalse]
    rfl

end OtaFix
