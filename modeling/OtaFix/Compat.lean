import OtaFix.Lib.Run
import OtaFix.Mota.Apply
import OtaFix.PatchManifest
import OtaFix.Policy

/-!
# Bootloader and SoftDevice

A bootloader of the second format says which SoftDevice it was built for. Each
update compares what it brings with something else: the SoftDevice that comes
along, the one in flash, or the manifest of the running bootloader. Over every
sequence of accepted updates the installed bootloader and the installed
SoftDevice fit each other.
-/

namespace OtaFix

open Lib Mota

/-! ## The SoftDevice in flash -/

/-- `SD_ID_GET(MBR_SIZE)`. -/
def softdeviceFamily (m : Mem) : Nat :=
  if 0x10 < (m 0x3000).toNat then readWord m 0x3010 else 0

/-- What was built for the SoftDevice and the layout of `m`. -/
structure BuiltFor (info : ImageInfo) (m : Mem) : Prop where
  family : info.softdeviceFamily = softdeviceFamily m
  fwid : info.softdeviceFwid = runtimeSoftdeviceFwid m
  appBase : info.appBase = dfuBank0RegionStart m
  layout : info.layoutAbi = 1

/-- The format of the installed bootloader. -/
def installedBootloader (board : Board) (m : Mem) : ImageFormat :=
  bootloaderImageClassify board false (slice m bootloaderRegionStart dfuBlImageMaxSize)
    bootloaderRegionStart

/-! ## Updates -/

/-- An update, and how it was admitted: by the policy of Legacy DFU and UF2, or by the
metadata of the bootloader image in a container. -/
inductive Update where
  | policy (p : StartPacket) (image : List Byte)
  | mota (cfg : Profile) (address : Nat) (container : MotaMin)

def Update.softdevice : Update → List Byte
  | .policy p image => image.take p.sdImageSize
  | .mota _ _ _ => []

def Update.bootloader (m : Mem) : Update → List Byte
  | .policy p image => (image.drop p.sdImageSize).take p.blImageSize
  | .mota _ address _ => slice m address motaBlSize

def Update.Accepted (board : Board) (m : Mem) : Update → Prop
  | .policy p image => dfuImagePolicyValidate board m image p = .success
  | .mota cfg address container =>
    cfg.board = board ∧ bootImageMetadataValidAt cfg m address container = true

/-- The parts an update brings are in place; the others are as they were. -/
structure Installs (m m' : Mem) (sd bl : List Byte) : Prop where
  sd_new : sd ≠ [] → slice m' mbrSize sd.length = sd
  sd_old : sd = [] → ∀ x, mbrSize ≤ x → x < dfuBank0RegionStart m → m' x = m x
  bl_new : bl ≠ [] → slice m' bootloaderRegionStart bl.length = bl
  bl_old : bl = [] → ∀ x, bootloaderRegionStart ≤ x → x < bootloaderMbrParamsPageAddress →
    m' x = m x

/-- From `m`, an accepted update completed. -/
def Completed (board : Board) (m : Mem) (e : Update × Mem) : Prop :=
  e.1.Accepted board m ∧ Installs m e.2 e.1.softdevice (e.1.bootloader m)

/-! ## The policy of a container -/

variable {board : Board} {m m' : Mem}

theorem bootImageMetadataValid_true {cfg : Profile} {image : List Byte} {container : MotaMin}
    (h : bootImageMetadataValid cfg m image container = true) :
    ∃ c, bootloaderImageClassify cfg.board false image motaBlStart = .v2 c ∧
      c.softdeviceFamily = cfg.board.softdeviceFamily ∧
      c.softdeviceFwid = (readHalf m sdFwidAddr).toNat ∧
      c.appBase = dfuBank0RegionStart m ∧ c.layoutAbi = 1 := by
  unfold bootImageMetadataValid at h
  split at h
  · rename_i c installed hformat _
    simp only [Bool.and_eq_true, decide_eq_true_eq] at h
    exact ⟨c, hformat, h.1.1.1.1.2, h.1.1.1.2, h.1.1.2, h.1.2⟩
  · cases h

/-! ## One update -/

/-- The SoftDevice is a whole one of the build's family, and a bootloader of the second
format was built for it. -/
structure Compatible (board : Board) (m : Mem) : Prop where
  sd : SdInstalled m (dfuBank0RegionStart m)
  family : softdeviceFamily m = board.softdeviceFamily
  built : ∀ info, installedBootloader board m = .v2 info → BuiltFor info m

/-- The SoftDevice in `m'` is `sd`. -/
structure SdIs (board : Board) (m' : Mem) (sd : SdInfo) : Prop where
  installed : SdInstalled m' (dfuBank0RegionStart m')
  family : softdeviceFamily m' = board.softdeviceFamily
  same : expectedSd m' none = sd

theorem SdInstalled.fwid {base : Nat} (h : SdInstalled m base) :
    runtimeSoftdeviceFwid m = (readHalf m sdFwidAddr).toNat := by
  unfold runtimeSoftdeviceFwid
  rw [if_pos]
  unfold isSdExisted
  rw [h.magic]
  exact decide_eq_true rfl

/-- The SoftDevice stays where nothing below the application changes. -/
theorem Compatible.sd_stays (h : Compatible board m)
    (hsame : ∀ x, mbrSize ≤ x → x < dfuBank0RegionStart m → m' x = m x) :
    SdIs board m' (expectedSd m none) := by
  have hmbr : mbrSize = 0x1000 := rfl
  have hbelow := h.sd.info_below
  have hagree : ∀ x, 0x3000 ≤ x → x < 0x4000 → m' x = m x := fun x h1 h2 =>
    hsame x (by omega) (by omega)
  have hstart : dfuBank0RegionStart m' = dfuBank0RegionStart m :=
    regionStart_congr fun x h1 h2 => hagree x (by unfold sdMagicAddr at h1; omega)
      (by unfold sdSizeAddr at h2; omega)
  have hmagic : readWord m' sdMagicAddr = readWord m sdMagicAddr :=
    readWord_congr fun x h1 h2 => by
      unfold sdMagicAddr at h1 h2
      exact hagree x (by omega) (by omega)
  have hsize : readWord m' sdSizeAddr = readWord m sdSizeAddr :=
    readWord_congr fun x h1 h2 => by
      unfold sdSizeAddr at h1 h2
      exact hagree x (by omega) (by omega)
  have hinstalled : SdInstalled m' (dfuBank0RegionStart m') := by
    rw [hstart]
    exact ⟨hmagic.trans h.sd.magic, hsize.trans h.sd.size, h.sd.aligned, h.sd.info_below⟩
  refine ⟨hinstalled, ?_, ?_⟩
  · rw [← h.family]
    unfold softdeviceFamily
    rw [hagree 0x3000 (by omega) (by omega),
      readWord_congr fun x h1 h2 => hagree x (by omega) (by omega)]
  · have hhalf : readHalf m' sdFwidAddr = readHalf m sdFwidAddr :=
      readHalf_congr fun x h1 h2 => by
        unfold sdFwidAddr at h1 h2
        exact hagree x (by omega) (by omega)
    have hfwid : runtimeSoftdeviceFwid m' = runtimeSoftdeviceFwid m := by
      rw [hinstalled.fwid, h.sd.fwid, hhalf]
    unfold expectedSd
    rw [hfwid, hstart]

/-- An admissible SoftDevice, once in place, is the installed one. -/
theorem SdImage.installed {image : List Byte} {info : SdInfo} (h : SdImage board image info)
    (hplace : slice m' mbrSize image.length = image) : SdIs board m' info := by
  have hmbr : mbrSize = 0x1000 := rfl
  have hlen := h.length
  have hword : ∀ o, o + 4 ≤ 0x202C → readWord m' (mbrSize + o) = wordAt image o := by
    intro o ho
    rw [← wordAt_slice (Nat.le_trans ho hlen), hplace]
  have hmagic : readWord m' sdMagicAddr = sdMagicNumber :=
    (hword 0x2004 (by omega)).trans h.magic
  have hsize : readWord m' sdSizeAddr = info.appBase :=
    (hword 0x2008 (by omega)).trans h.appBase
  have hpage : codePageSize = 0x1000 := rfl
  have hinstalled : SdInstalled m' info.appBase := by
    refine ⟨hmagic, hsize, h.aligned, ?_⟩
    have hfits := h.fits
    have haligned := h.aligned
    rw [hpage] at haligned
    omega
  have hstart := hinstalled.regionStart
  refine ⟨hstart.symm ▸ hinstalled, ?_, ?_⟩
  · have hbyte : m' 0x3000 = image.getD 0x2000 0 := by
      rw [← hplace, slice_getD_add (by omega)]
      rfl
    have hstruct := h.struct
    unfold softdeviceFamily
    rw [hbyte, if_pos hstruct]
    exact (hword 0x2010 (by omega)).trans h.family
  · have hfwid : runtimeSoftdeviceFwid m' = info.fwid := by
      rw [hinstalled.fwid, ← h.fwid]
      congr 1
      rw [← hplace, readHalf_slice (by omega)]
      rfl
    unfold expectedSd
    rw [hfwid, hstart]
    rfl

theorem SdIs.fwid {sd : SdInfo} (h : SdIs board m' sd) : runtimeSoftdeviceFwid m' = sd.fwid := by
  rw [← h.same]
  rfl

theorem SdIs.appBase {sd : SdInfo} (h : SdIs board m' sd) : dfuBank0RegionStart m' = sd.appBase := by
  rw [← h.same]
  rfl

/-- The bootloader that meets the SoftDevice `sd`, which may be a new one. -/
inductive BlIs (board : Board) (m m' : Mem) (bl : List Byte) (sd : SdInfo) : Prop where
  | stays (hbl : installedBootloader board m' = installedBootloader board m)
      (hsd : sd = expectedSd m none)
  | legacy (hbl : installedBootloader board m' = .legacy) (hsd : sd = expectedSd m none)
  | built (c : ImageInfo) (hbl : installedBootloader board m' = .v2 c) (hnew : bl ≠ [])
      (hfamily : c.softdeviceFamily = board.softdeviceFamily) (hfwid : c.softdeviceFwid = sd.fwid)
      (hbase : c.appBase = sd.appBase) (hlayout : c.layoutAbi = 1)

/-- The bootloader region holds a new image. -/
theorem installedBootloader_new {bl : List Byte} (hlen : bl.length = dfuBlImageMaxSize)
    (hplace : slice m' bootloaderRegionStart bl.length = bl) :
    installedBootloader board m' =
      bootloaderImageClassify board false bl bootloaderRegionStart := by
  unfold installedBootloader
  rw [← hlen, hplace]

theorem installedBootloader_old
    (hsame : ∀ x, bootloaderRegionStart ≤ x → x < bootloaderMbrParamsPageAddress → m' x = m x) :
    installedBootloader board m' = installedBootloader board m := by
  unfold installedBootloader
  rw [slice_congr]
  intro x h1 h2
  refine hsame x h1 ?_
  have hend : bootloaderRegionStart + dfuBlImageMaxSize = bootloaderMbrParamsPageAddress := rfl
  omega

/-- Both meet: what was built for the SoftDevice, or for the same one before. -/
theorem BlIs.compatible {bl : List Byte} {sd : SdInfo} (hbl : BlIs board m m' bl sd)
    (hsd : SdIs board m' sd) (h : Compatible board m) :
    Compatible board m' ∧ (expectedSd m' none ≠ expectedSd m none →
      ∃ info, bl ≠ [] ∧ installedBootloader board m' = .v2 info ∧ BuiltFor info m') := by
  have hsame : sd = expectedSd m none → ¬ expectedSd m' none ≠ expectedSd m none :=
    fun heq hne => hne (hsd.same.trans heq)
  cases hbl with
  | stays hbl heq =>
    refine ⟨⟨hsd.installed, hsd.family, fun info hinfo => ?_⟩, fun hne => (hsame heq hne).elim⟩
    have hold := h.built info (hbl ▸ hinfo)
    subst heq
    refine ⟨?_, hold.fwid.trans hsd.fwid.symm, hold.appBase.trans hsd.appBase.symm, hold.layout⟩
    rw [hold.family, h.family, hsd.family]
  | legacy hbl heq =>
    refine ⟨⟨hsd.installed, hsd.family, fun info hinfo => ?_⟩, fun hne => (hsame heq hne).elim⟩
    rw [hbl] at hinfo
    cases hinfo
  | built c hbl hnew hfamily hfwid hbase hlayout =>
    have hbuilt : BuiltFor c m' :=
      ⟨hfamily.trans hsd.family.symm, hfwid.trans hsd.fwid.symm, hbase.trans hsd.appBase.symm,
        hlayout⟩
    refine ⟨⟨hsd.installed, hsd.family, fun info hinfo => ?_⟩, fun _ => ⟨c, hnew, hbl, hbuilt⟩⟩
    rw [hbl] at hinfo
    cases hinfo
    exact hbuilt

/-- What the bootloader part of an admissible image meets. -/
theorem bootloaderInfo_blIs {bl : List Byte} {incoming : Option SdInfo}
    (hbuild : board.recoveryAllowAllBoards = false)
    (hinfo : bootloaderInfo board m bl incoming = true)
    (hplace : slice m' bootloaderRegionStart bl.length = bl) :
    BlIs board m m' bl (expectedSd m incoming) := by
  obtain ⟨hlen, hformat⟩ := bootloaderInfo_true hbuild hinfo
  have hbl : installedBootloader board m' = _ := installedBootloader_new hlen hplace
  have hne : bl ≠ [] := by
    rintro rfl
    cases hlen
  rcases hformat with ⟨c, hc, hfamily, hfwid, hbase, hlayout⟩ | ⟨hlegacy, hsame⟩
  · exact .built c (hbl.trans hc) hne hfamily hfwid hbase hlayout
  · exact .legacy (hbl.trans hlegacy) hsame

theorem completed_policy (hbuild : board.recoveryAllowAllBoards = false) (h : Compatible board m)
    {p : StartPacket} {image : List Byte} (hok : dfuImagePolicyValidate board m image p = .success)
    (hinst : Installs m m' (image.take p.sdImageSize)
      ((image.drop p.sdImageSize).take p.blImageSize)) :
    ∃ sd, SdIs board m' sd ∧
      BlIs board m m' ((image.drop p.sdImageSize).take p.blImageSize) sd := by
  obtain ⟨hlen, hparts⟩ := dfuImagePolicyValidate_success hok
  rcases hparts with ⟨hsd, hbl⟩ | ⟨incoming, hsd, honly, hinfo⟩
  · rw [hsd, hbl] at hinst
    exact ⟨_, h.sd_stays (hinst.sd_old List.take_zero),
      .stays (installedBootloader_old (hinst.bl_old List.take_zero)) rfl⟩
  have hsdIs : SdIs board m' (expectedSd m incoming) := by
    rcases hsd with ⟨hzero, rfl⟩ | ⟨hne, sd, rfl, hsome⟩
    · rw [hzero] at hinst
      exact h.sd_stays (hinst.sd_old List.take_zero)
    · have himage := softdeviceInfo_some hsome
      have hlong := himage.length
      refine himage.installed (hinst.sd_new fun hnil => ?_)
      rw [hnil] at hlong
      simp at hlong
  refine ⟨_, hsdIs, ?_⟩
  by_cases hzero : p.blImageSize = 0
  · rw [honly hzero, hzero]
    rw [hzero] at hinst
    exact .stays (installedBootloader_old (hinst.bl_old List.take_zero)) rfl
  · have hne : (image.drop p.sdImageSize).take p.blImageSize ≠ [] := by
      rw [Ne, List.take_eq_nil_iff, List.drop_eq_nil_iff]
      omega
    exact bootloaderInfo_blIs hbuild (hinfo hzero) (hinst.bl_new hne)

theorem completed_mota (h : Compatible board m) {cfg : Profile} {image : List Byte}
    {container : MotaMin} (hboard : cfg.board = board) (hlen : image.length = dfuBlImageMaxSize)
    (hok : bootImageMetadataValid cfg m image container = true)
    (hinst : Installs m m' [] image) :
    ∃ sd, SdIs board m' sd ∧ BlIs board m m' image sd := by
  obtain ⟨c, hc, hfamily, hfwid, hbase, hlayout⟩ := bootImageMetadataValid_true hok
  rw [hboard] at hc hfamily
  have hne : image ≠ [] := by
    rintro rfl
    cases hlen
  refine ⟨_, h.sd_stays (hinst.sd_old rfl), .built c ?_ hne hfamily ?_ hbase hlayout⟩
  · rw [installedBootloader_new hlen (hinst.bl_new hne)]
    exact hc
  · rw [hfwid, ← h.sd.fwid]
    rfl

/-- One accepted update, completed. -/
theorem Compatible.completed (h : Compatible board m)
    (hbuild : board.recoveryAllowAllBoards = false) {u : Update}
    (hdone : Completed board m (u, m')) :
    Compatible board m' ∧ (expectedSd m' none ≠ expectedSd m none →
      ∃ info, u.bootloader m ≠ [] ∧ installedBootloader board m' = .v2 info ∧
        BuiltFor info m') := by
  obtain ⟨hok, hinst⟩ := hdone
  cases u with
  | policy p image =>
    obtain ⟨sd, hsd, hbl⟩ := completed_policy hbuild h hok hinst
    exact hbl.compatible hsd h
  | mota cfg address container =>
    obtain ⟨sd, hsd, hbl⟩ := completed_mota h hok.1 (slice_length _ _ _) hok.2 hinst
    exact hbl.compatible hsd h

/-! ## Every sequence of updates -/

/-- Whatever updates are accepted and completed, a bootloader of the second format fits the
SoftDevice it runs on, and the SoftDevice changes only with a bootloader built for the new one. -/
theorem softdevice_bootloader_compatible {m₀ : Mem} {info₀ : ImageInfo} {es : List (Update × Mem)}
    (hbuild : board.recoveryAllowAllBoards = false)
    (hsd : SdInstalled m₀ (dfuBank0RegionStart m₀))
    (hfamily : info₀.softdeviceFamily = board.softdeviceFamily)
    (hv2 : installedBootloader board m₀ = .v2 info₀) (hbuilt : BuiltFor info₀ m₀)
    (hrun : Reach (fun _ e => e.2) (Completed board) m₀ es m) :
    (∀ info, installedBootloader board m = .v2 info → BuiltFor info m) ∧
      ∀ u m', Completed board m (u, m') →
        (runtimeSoftdeviceFwid m' ≠ runtimeSoftdeviceFwid m ∨
          dfuBank0RegionStart m' ≠ dfuBank0RegionStart m) →
        ∃ info, u.bootloader m ≠ [] ∧ installedBootloader board m' = .v2 info ∧
          BuiltFor info m' := by
  have hstart : Compatible board m₀ := by
    refine ⟨hsd, by rw [← hbuilt.family, hfamily], fun info hinfo => ?_⟩
    rw [hv2] at hinfo
    cases hinfo
    exact hbuilt
  have hinv : Compatible board m :=
    hrun.invariant hstart fun _ _ h hdone => (h.completed hbuild hdone).1
  refine ⟨hinv.built, fun u m' hdone hchange => (hinv.completed hbuild hdone).2 fun hsame => ?_⟩
  have hparts := SdInfo.mk.inj hsame
  rcases hchange with hchange | hchange
  · exact hchange hparts.1
  · exact hchange hparts.2

/-! ## A device with both -/

open PatchManifest

/-- The next release, for the next SoftDevice. -/
def nextExtension : Extension := ⟨0x10A, 140, 0xB7, 0x27000, 1⟩

/-- A bootloader that can be updated from internal flash says so. -/
def capsMarker : List Byte := ascii "MOTABLDR" ++ put16 3 ++ put16 5 ++ [0x0A, 0, 0, 0]

/-- One of the two releases. -/
abbrev Release (e : Extension) : Prop := e = sampleExtension ∨ e = nextExtension

variable {e : Extension}

/-- A linked release: its vectors and the marker, erased flash, and an envelope without its
CRC. -/
def linkedFlash (e : Extension) : Mem := fun x =>
  if x < 0xF4000 then 0xFF
  else if x < 0xF4018 then
    (put32 0x20001000 ++ put32 0xF4019 ++ capsMarker).getD (x - 0xF4000) 0xFF
  else if x < 0xFDFB4 then 0xFF
  else (envelopeOf 0xF4000 dfuBlImageMaxSize 0x239A00B3 marks e).getD (x - 0xFDFB4) 0xFF

def linkedHex (e : Extension) : IntelHex :=
  hexOf 0xF4000 (slice (linkedFlash e) 0xF4000 dfuBlImageMaxSize)

def linkedManifest (e : Extension) : Manifest :=
  ⟨0xFDFB4, 0xF4000, dfuBlImageMaxSize, marks.take 4, e⟩

theorem linkedHex_slice {a n : Nat} (hlow : 0xF4000 ≤ a) (hhigh : a + n ≤ 0xFE000) :
    slice (linkedHex e).byte a n = slice (linkedFlash e) a n := by
  have hsize : dfuBlImageMaxSize = 0xA000 := rfl
  apply slice_congr
  intro x h1 h2
  change (if x < 0xF4000 then 0xFF
    else (slice (linkedFlash e) 0xF4000 dfuBlImageMaxSize).getD (x - 0xF4000) 0xFF) =
      linkedFlash e x
  rw [if_neg (by omega), List.getD_eq_getElem?_getD,
    slice_getElem? (show x - 0xF4000 < dfuBlImageMaxSize by omega),
    Option.getD_some, Nat.add_sub_cancel' (by omega)]

theorem linkedHex_found (he : Release e) : Found (linkedHex e) (linkedManifest e) := by
  have hfields : slice (linkedHex e).byte (linkedManifest e).address PatchManifest.headerSize =
      slice (linkedFlash e) 0xFDFB4 PatchManifest.headerSize :=
    linkedHex_slice (a := 0xFDFB4) (by decide) (by decide)
  have hmagic : slice (linkedHex e).byte (linkedManifest e).address 8 =
      slice (linkedFlash e) 0xFDFB4 8 := linkedHex_slice (a := 0xFDFB4) (by omega) (by omega)
  have hext : slice (linkedHex e).byte ((linkedManifest e).address + PatchManifest.headerSize)
      extSize = slice (linkedFlash e) (0xFDFB4 + PatchManifest.headerSize) extSize :=
    linkedHex_slice (a := 0xFDFB4 + PatchManifest.headerSize) (by decide) (by decide)
  have hwords : 0xFDFB4 % 4 = 0 ∧ 0 < dfuBlImageMaxSize ∧ dfuBlImageMaxSize % 4 = 0 := by decide
  have hend : 0xFDFB4 + (PatchManifest.headerSize + extSize) = 0xF4000 + dfuBlImageMaxSize := by
    decide
  refine ⟨hwords.1, ?_, ?_, ?_, ?_, ?_, hwords.2.1, hwords.2.2, hend, ?_, ?_, ?_⟩
  · rw [hmagic]
    rcases he with rfl | rfl <;> decide
  · rw [hfields]
    rcases he with rfl | rfl <;> decide
  · rw [hfields]
    rcases he with rfl | rfl <;> decide
  · rw [hfields]
    rcases he with rfl | rfl <;> decide
  · rw [hfields]
    rcases he with rfl | rfl <;> decide
  · rw [hfields]
    rcases he with rfl | rfl <;> decide
  · rw [hfields]
    rcases he with rfl | rfl <;> decide
  · rw [hext]
    rcases he with rfl | rfl <;> decide

/-- The magic numbers begin nowhere else. -/
theorem linkedFlash_magic (he : Release e) {a : Nat} (hlow : 0xF4000 ≤ a)
    (h : linkedFlash e a = 0x42 ∧ linkedFlash e (a + 3) = 0x46) : a = 0xFDFB4 := by
  obtain ⟨hfirst, hlast⟩ := h
  by_cases hvectors : a < 0xF4018
  · have hbyte : ∀ i < 24, linkedFlash e (0xF4000 + i) = 0x42 →
        linkedFlash e (0xF4000 + i + 3) ≠ 0x46 := by rcases he with rfl | rfl <;> decide
    refine absurd hlast ?_
    have := hbyte (a - 0xF4000) (by omega)
    rw [Nat.add_sub_cancel' hlow] at this
    exact this hfirst
  by_cases hbetween : a < 0xFDFB4
  · unfold linkedFlash at hfirst
    rw [if_neg (by omega), if_neg hvectors, if_pos hbetween] at hfirst
    exact absurd hfirst (by decide)
  by_cases hin : a - 0xFDFB4 < 76
  · have hbyte : ∀ i < 76, linkedFlash e (0xFDFB4 + i) = 0x42 →
        linkedFlash e (0xFDFB4 + i + 3) = 0x46 → i = 0 := by rcases he with rfl | rfl <;> decide
    have hzero := hbyte _ hin
    rw [Nat.add_sub_cancel' (by omega)] at hzero
    have := hzero hfirst hlast
    omega
  · unfold linkedFlash at hfirst
    rw [if_neg (by omega), if_neg hvectors, if_neg hbetween, List.getD_eq_getElem?_getD,
      List.getElem?_eq_none (by exact Nat.le_of_not_lt hin)] at hfirst
    exact absurd hfirst (by decide)

theorem linkedHex_classify (he : Release e) :
    bootloaderImageClassify (hexBoard 0x239A00B3) false (patched (linkedHex e) (linkedManifest e))
      bootloaderRegionStart = .v2 (infoOf e) := by
  have hbytes : imageBytes (linkedHex e) (linkedManifest e) =
      slice (linkedFlash e) 0xF4000 dfuBlImageMaxSize := by
    simp only [imageBytes, linkedManifest]
    exact linkedHex_slice (by decide) (by decide)
  have hroom : envelopeSize ≤ dfuBlImageMaxSize := by decide
  refine classify_patched (m := linkedManifest e) (linkedHex_found he) hroom ?_ ?_ ?_
  · unfold VectorsValid bootloaderImageVectorsValid
    rw [hbytes, slice_length, wordAt_slice (by decide), wordAt_slice (by decide)]
    rcases he with rfl | rfl <;> decide
  · intro a _ hlow hhigh hread
    have hsize : dfuBlImageMaxSize = 0xA000 := rfl
    simp only [linkedManifest] at hlow hhigh
    apply linkedFlash_magic he hlow
    have hslice : slice (linkedFlash e) a 8 = manifestMagic := by
      rw [← hread]
      exact (linkedHex_slice hlow (by omega)).symm
    have hbyte : ∀ i < 8, linkedFlash e (a + i) = manifestMagic.getD i 0 := fun i hi => by
      rw [← hslice, slice_getD_add hi]
    exact ⟨hbyte 0 (by omega), hbyte 3 (by omega)⟩
  · have hfields : readBytes (linkedHex e) (linkedManifest e).address PatchManifest.headerSize =
        slice (linkedFlash e) 0xFDFB4 PatchManifest.headerSize :=
      linkedHex_slice (a := 0xFDFB4) (by decide) (by decide)
    have hname : readBytes (linkedHex e) ((linkedManifest e).address + 24) 16 =
        slice (linkedFlash e) (0xFDFB4 + 24) 16 :=
      linkedHex_slice (a := 0xFDFB4 + 24) (by omega) (by omega)
    constructor
    · rw [hfields]
      rcases he with rfl | rfl <;> decide
    · rw [hname]
      rcases he with rfl | rfl <;> decide

/-- A device with a release and its SoftDevice. -/
def releasedDevice (e : Extension) : Mem := fun x =>
  if x < 0xF4000 then sdImage 0x1000 e.appBase (BitVec.ofNat 16 e.sdFwid) x
  else (patched (linkedHex e) (linkedManifest e)).getD (x - 0xF4000) 0

theorem released_low {x : Nat} (h : x < 0xF4000) :
    releasedDevice e x = sdImage 0x1000 e.appBase (BitVec.ofNat 16 e.sdFwid) x := if_pos h

theorem released_word {a : Nat} (h : a + 4 ≤ 0xF4000) : readWord (releasedDevice e) a =
    readWord (sdImage 0x1000 e.appBase (BitVec.ofNat 16 e.sdFwid)) a :=
  readWord_congr fun _ _ _ => released_low (by omega)

theorem released_sd (he : Release e) : SdInstalled (releasedDevice e) e.appBase := by
  refine ⟨?_, ?_, ?_, ?_⟩
  · rw [released_word (by decide)]
    rcases he with rfl | rfl <;> decide
  · rw [released_word (by decide)]
    rcases he with rfl | rfl <;> decide
  · rcases he with rfl | rfl <;> decide
  · rcases he with rfl | rfl <;> decide

theorem released_built (he : Release e) : BuiltFor (infoOf e) (releasedDevice e) := by
  have hfamily : softdeviceFamily (releasedDevice e) = 140 := by
    unfold softdeviceFamily
    rw [released_low (by omega), released_word (by omega)]
    rcases he with rfl | rfl <;> decide
  have hhalf : readHalf (releasedDevice e) sdFwidAddr =
      readHalf (sdImage 0x1000 e.appBase (BitVec.ofNat 16 e.sdFwid)) sdFwidAddr :=
    readHalf_congr fun x _ hx => released_low (by unfold sdFwidAddr at hx; omega)
  have hfwid : runtimeSoftdeviceFwid (releasedDevice e) = e.sdFwid := by
    rw [(released_sd he).fwid, hhalf]
    rcases he with rfl | rfl <;> decide
  refine ⟨?_, hfwid.symm, (released_sd he).regionStart.symm, ?_⟩
  · rw [hfamily]
    rcases he with rfl | rfl <;> rfl
  · rcases he with rfl | rfl <;> rfl

/-- The bytes of a linked release, and its CRC. -/
def releaseImage (e : Extension) : List Byte := patched (linkedHex e) (linkedManifest e)

theorem releaseImage_length (e : Extension) : (releaseImage e).length = dfuBlImageMaxSize := by
  have hroom : envelopeSize ≤ dfuBlImageMaxSize := by decide
  exact patched_length (m := linkedManifest e) (linkedHex e) hroom

/-- Outside the field of the CRC it is what was linked. -/
theorem releaseImage_window {o k : Nat} (hk : o + k ≤ dfuBlImageMaxSize)
    (h : o + k ≤ dfuBlImageMaxSize - 36 ∨ dfuBlImageMaxSize - 32 ≤ o) :
    ((releaseImage e).drop o).take k = slice (linkedFlash e) (0xF4000 + o) k := by
  have hsize : dfuBlImageMaxSize = 0xA000 := rfl
  have hroom : envelopeSize ≤ dfuBlImageMaxSize := by decide
  have hwindow := window_patched (m := linkedManifest e) (linkedHex e) hroom hk h
  have hbytes : slice (linkedHex e).byte (0xF4000 + o) k = slice (linkedFlash e) (0xF4000 + o) k :=
    linkedHex_slice (Nat.le_add_right _ _) (by omega)
  exact hwindow.trans hbytes

theorem released_slice (e : Extension) :
    slice (releasedDevice e) bootloaderRegionStart dfuBlImageMaxSize = releaseImage e := by
  have hstart : bootloaderRegionStart = 0xF4000 := rfl
  refine slice_eq_of_getD (releaseImage_length e) fun i _ => ?_
  unfold releasedDevice
  rw [if_neg (by omega), hstart, Nat.add_sub_cancel_left]
  rfl

theorem released_bootloader (he : Release e) :
    installedBootloader (hexBoard 0x239A00B3) (releasedDevice e) = .v2 (infoOf e) := by
  unfold installedBootloader
  rw [released_slice]
  exact linkedHex_classify he

/-- The next SoftDevice, and the release for it. -/
def nextImage : List Byte :=
  slice (sdImage 0x1000 0x27000 0xB7) 0x1000 0x202C ++ releaseImage nextExtension

def nextPacket : StartPacket := ⟨3, 0x202C, dfuBlImageMaxSize, 0⟩

theorem nextImage_softdevice :
    nextImage.take nextPacket.sdImageSize = slice (sdImage 0x1000 0x27000 0xB7) 0x1000 0x202C :=
  List.take_left' (slice_length _ _ _)

theorem nextImage_bootloader :
    (nextImage.drop nextPacket.sdImageSize).take nextPacket.blImageSize =
      releaseImage nextExtension := by
  have hdrop : nextImage.drop nextPacket.sdImageSize = releaseImage nextExtension :=
    List.drop_left' (slice_length _ _ _)
  rw [hdrop]
  exact List.take_of_length_le (Nat.le_of_eq (releaseImage_length _))

/-- The update of both is accepted on the device of the first release. -/
theorem nextImage_valid : dfuImagePolicyValidate (hexBoard 0x239A00B3)
    (releasedDevice sampleExtension) nextImage nextPacket = .success := by
  have hstart : dfuStartPacketValidate nextPacket = .ok 0xC02C := by decide
  have hlength : nextImage.length = 0xC02C := by
    rw [nextImage, List.length_append, slice_length, releaseImage_length]
    decide
  have hbl : bootloaderInfo (hexBoard 0x239A00B3) (releasedDevice sampleExtension)
      (releaseImage nextExtension) (some ⟨0xB7, 0x27000⟩) = true := by
    have hformat : bootloaderImageClassify (hexBoard 0x239A00B3)
        (hexBoard 0x239A00B3).recoveryAllowAllBoards (releaseImage nextExtension)
        bootloaderRegionStart = .v2 (infoOf nextExtension) := linkedHex_classify (.inr rfl)
    unfold bootloaderInfo
    rw [if_neg (by decide), if_neg (not_not.mpr (releaseImage_length _)), hformat]
    rfl
  unfold dfuImagePolicyValidate
  rw [hstart]
  simp only
  rw [if_neg (not_not.mpr hlength), if_neg (by decide), nextImage_softdevice,
    nextImage_bootloader, softdeviceInfo_sdImage rfl, if_neg (by decide), if_neg (by decide)]
  refine if_neg ?_
  rw [if_pos (by decide), hbl]
  decide

theorem next_completed : Completed (hexBoard 0x239A00B3) (releasedDevice sampleExtension)
    (.policy nextPacket nextImage, releasedDevice nextExtension) := by
  refine ⟨nextImage_valid, ?_⟩
  change Installs _ _ (nextImage.take _) ((nextImage.drop _).take _)
  rw [nextImage_softdevice, nextImage_bootloader]
  have hnil : ∀ {d : List Byte}, d.length ≠ 0 → d ≠ [] := fun h hd => h (by rw [hd]; rfl)
  refine ⟨fun _ => ?_, fun h => absurd h (hnil ?_), fun _ => ?_, fun h => absurd h (hnil ?_)⟩
  · rw [slice_length]
    exact slice_congr fun x _ hx => released_low (by unfold mbrSize at hx; omega)
  · rw [slice_length]
    decide
  · rw [releaseImage_length]
    exact released_slice nextExtension
  · rw [releaseImage_length]
    decide

/-- The next SoftDevice comes with the release that was built for it. -/
theorem softdevice_bootloader_compatible_next :
    BuiltFor (infoOf nextExtension) (releasedDevice nextExtension) ∧
      ∃ info, Update.bootloader (releasedDevice sampleExtension) (.policy nextPacket nextImage) ≠ [] ∧
        installedBootloader (hexBoard 0x239A00B3) (releasedDevice nextExtension) = .v2 info ∧
        BuiltFor info (releasedDevice nextExtension) := by
  have hsd := released_sd (e := sampleExtension) (.inl rfl)
  rw [← hsd.regionStart] at hsd
  have hmoved : dfuBank0RegionStart (releasedDevice nextExtension) ≠
      dfuBank0RegionStart (releasedDevice sampleExtension) := by
    rw [(released_sd (.inr rfl)).regionStart, (released_sd (.inl rfl)).regionStart]
    decide
  have hrun : Reach (fun _ e => e.2) (Completed (hexBoard 0x239A00B3))
      (releasedDevice sampleExtension)
      ([] ++ [(.policy nextPacket nextImage, releasedDevice nextExtension)])
      (releasedDevice nextExtension) := .snoc _ .init next_completed
  have hbefore := softdevice_bootloader_compatible rfl hsd rfl (released_bootloader (.inl rfl))
    (released_built (.inl rfl)) .init
  have hafter := softdevice_bootloader_compatible rfl hsd rfl (released_bootloader (.inl rfl))
    (released_built (.inl rfl)) hrun
  exact ⟨hafter.1 _ (released_bootloader (.inr rfl)), hbefore.2 _ _ next_completed (.inr hmoved)⟩

end OtaFix
