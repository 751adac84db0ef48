import OtaFix.Word
import OtaFix.Lib.NorFlash

/-!
# Flash layout of the nRF52840

The addresses of `dfu_types.h` and `uf2cfg.h`, and the boundary between the
SoftDevice and the application, which the bootloader reads from flash: the end
of the installed SoftDevice, or the end of the MBR where there is none.
-/

namespace OtaFix

open Lib

def codePageSize : Nat := 0x1000

/-- The MBR ends and user flash starts here. -/
def mbrSize : Nat := 0x1000

def bootloaderRegionStart : Nat := 0xF4000

def bootloaderMbrParamsPageAddress : Nat := 0xFE000

def bootloaderSettingsAddress : Nat := 0xFF000

def dfuAppDataReserved : Nat := 10 * codePageSize

def userFlashStart : Nat := mbrSize

def userFlashEnd : Nat := bootloaderRegionStart - dfuAppDataReserved

def dfuBlImageMaxSize : Nat := bootloaderMbrParamsPageAddress - bootloaderRegionStart

/-- The staging area of a new bootloader. -/
def bootloaderAddrNewReceived : Nat := userFlashEnd - dfuBlImageMaxSize

def ramStart : Nat := 0x20000000

/-- What differs between chips and boards: the RAM size register, in KiB. -/
structure Chip where
  ficrRam : Nat

def Chip.ramEnd (chip : Chip) : Nat := add32 ramStart (chip.ficrRam * 2 ^ 10 % 2 ^ 32)

/-! ## Reads -/

def readWord (m : Mem) (a : Nat) : Nat := get32 (m a) (m (a + 1)) (m (a + 2)) (m (a + 3))

def readHalf (m : Mem) (a : Nat) : BitVec 16 := m (a + 1) ++ m a

/-- The two little-endian bytes of a half word. -/
def put16 (h : BitVec 16) : List Byte := [h.extractLsb' 0 8, h.extractLsb' 8 8]

theorem get32_lt (b0 b1 b2 b3 : Byte) : get32 b0 b1 b2 b3 < 2 ^ 32 := by
  have h0 := b0.isLt
  have h1 := b1.isLt
  have h2 := b2.isLt
  have h3 := b3.isLt
  unfold get32
  omega

theorem readWord_lt (m : Mem) (a : Nat) : readWord m a < 2 ^ 32 := get32_lt _ _ _ _

theorem readWord_congr {m m' : Mem} {a : Nat} (h : ∀ x, a ≤ x → x < a + 4 → m x = m' x) :
    readWord m a = readWord m' a := by
  unfold readWord
  rw [h a (by omega) (by omega), h (a + 1) (by omega) (by omega), h (a + 2) (by omega) (by omega),
    h (a + 3) (by omega) (by omega)]

theorem readHalf_congr {m m' : Mem} {a : Nat} (h : ∀ x, a ≤ x → x < a + 2 → m x = m' x) :
    readHalf m a = readHalf m' a := by
  unfold readHalf
  rw [h a (by omega) (by omega), h (a + 1) (by omega) (by omega)]

/-! ## The application boundary -/

def sdMagicAddr : Nat := 0x3004

def sdSizeAddr : Nat := 0x3008

def sdMagicNumber : Nat := 0x51B1E5DB

def isSdExisted (m : Mem) : Bool := readWord m sdMagicAddr = sdMagicNumber

/-- `DFU_BANK_0_REGION_START`, the start of the application. -/
def dfuBank0RegionStart (m : Mem) : Nat :=
  if isSdExisted m then readWord m sdSizeAddr else mbrSize

/-- A SoftDevice is installed up to `base`: its information structure, which it
contains, gives its page-aligned end. -/
structure SdInstalled (m : Mem) (base : Nat) : Prop where
  magic : readWord m sdMagicAddr = sdMagicNumber
  size : readWord m sdSizeAddr = base
  aligned : base % codePageSize = 0
  info_below : 0x4000 ≤ base

theorem SdInstalled.regionStart {m : Mem} {base : Nat} (h : SdInstalled m base) :
    dfuBank0RegionStart m = base := by
  simp [dfuBank0RegionStart, isSdExisted, h.magic, h.size]

/-- The SoftDevice stays installed while the bytes below its end stay. -/
theorem SdInstalled.congr {m m' : Mem} {base : Nat} (h : SdInstalled m base)
    (heq : ∀ x, x < base → m' x = m x) : SdInstalled m' base where
  magic := by
    refine (readWord_congr fun x _ hx => heq x ?_).trans h.magic
    have := h.info_below
    unfold sdMagicAddr at hx
    omega
  size := by
    refine (readWord_congr fun x _ hx => heq x ?_).trans h.size
    have := h.info_below
    unfold sdSizeAddr at hx
    omega
  aligned := h.aligned
  info_below := h.info_below

/-- The boundary is a page of user flash; that of a SoftDevice lies above the
SoftDevice's own information structure. -/
def boundaryOk (m : Mem) : Bool :=
  !isSdExisted m || (readWord m sdSizeAddr % codePageSize = 0 && 0x4000 ≤ readWord m sdSizeAddr &&
    readWord m sdSizeAddr ≤ userFlashEnd)

variable {m : Mem}

theorem boundaryOk_le (h : boundaryOk m = true) : dfuBank0RegionStart m ≤ userFlashEnd := by
  have he : userFlashEnd = 0xEA000 := rfl
  have hm : mbrSize = 0x1000 := rfl
  unfold boundaryOk at h
  unfold dfuBank0RegionStart
  cases hsd : isSdExisted m <;> simp [hsd] at h ⊢ <;> omega

theorem boundaryOk_aligned (h : boundaryOk m = true) : dfuBank0RegionStart m % codePageSize = 0 := by
  unfold boundaryOk at h
  unfold dfuBank0RegionStart
  cases hsd : isSdExisted m <;> simp [hsd] at h ⊢
  · rfl
  · exact h.1.1

theorem boundaryOk_start (h : boundaryOk m = true) : userFlashStart ≤ dfuBank0RegionStart m := by
  have hs : userFlashStart = 0x1000 := rfl
  unfold boundaryOk at h
  unfold dfuBank0RegionStart
  cases hsd : isSdExisted m <;> simp [hsd] at h ⊢
  · exact Nat.le_refl _
  · omega

/-- The boundary is read from the page of the SoftDevice's information structure. -/
theorem boundary_congr {m' : Mem} (h : ∀ x, x < 0x4000 → m' x = m x) :
    isSdExisted m' = isSdExisted m ∧ dfuBank0RegionStart m' = dfuBank0RegionStart m ∧
      boundaryOk m' = boundaryOk m := by
  have hmagic : readWord m' sdMagicAddr = readWord m sdMagicAddr :=
    readWord_congr fun x _ hx => h x (by unfold sdMagicAddr at hx; omega)
  have hsize : readWord m' sdSizeAddr = readWord m sdSizeAddr :=
    readWord_congr fun x _ hx => h x (by unfold sdSizeAddr at hx; omega)
  simp [dfuBank0RegionStart, boundaryOk, isSdExisted, hmagic, hsize]

/-- The two words the boundary is read from. -/
theorem regionStart_congr {m' : Mem} (h : ∀ x, sdMagicAddr ≤ x → x < sdSizeAddr + 4 → m' x = m x) :
    dfuBank0RegionStart m' = dfuBank0RegionStart m := by
  have hmagic : readWord m' sdMagicAddr = readWord m sdMagicAddr :=
    readWord_congr fun x h1 h2 => h x h1 (by unfold sdMagicAddr sdSizeAddr at *; omega)
  have hsize : readWord m' sdSizeAddr = readWord m sdSizeAddr :=
    readWord_congr fun x h1 h2 => h x (by unfold sdMagicAddr sdSizeAddr at *; omega) h2
  simp [dfuBank0RegionStart, isSdExisted, hmagic, hsize]

/-- With a SoftDevice, the boundary lies in the bytes below it. -/
theorem SdInstalled.of_boundaryOk (h : boundaryOk m = true) (hsd : isSdExisted m = true) :
    SdInstalled m (dfuBank0RegionStart m) := by
  simp only [boundaryOk, hsd, Bool.not_true, Bool.false_or, Bool.and_eq_true,
    decide_eq_true_eq] at h
  refine ⟨by simpa [isSdExisted] using hsd, ?_, ?_, ?_⟩ <;>
    simp only [dfuBank0RegionStart, hsd, if_true]
  · exact h.1.1
  · exact h.1.2

end OtaFix
