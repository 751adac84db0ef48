import OtaFix.Crc
import OtaFix.Layout

/-!
# Bootloader settings and the boot decision

`bootloader_settings_t` is a 32-byte record at the start of the settings page,
sealed by a CRC-16 and its complement. `bootloaderAppIsValid` decides from the
vector table and the record whether the application boots: a sealed (or
legacy) `BANK_VALID_APP` record must match the image, and an erased record
accepts on the vectors alone.
-/

namespace OtaFix

open Lib

def bankValidApp : BitVec 16 := 0x01

def bankValidSd : BitVec 16 := 0xA5

def bankValidBoot : BitVec 16 := 0xAA

def bankInvalidApp : BitVec 16 := 0xFF

def settingsFormatVersion : BitVec 16 := 1

/-- `bootloader_settings_t`. -/
@[ext] structure Settings where
  bank0 : BitVec 16 := 0
  bank0Crc : BitVec 16 := 0
  bank1 : BitVec 16 := 0
  formatVersion : BitVec 16 := 0
  bank0Size : Nat := 0
  sdImageSize : Nat := 0
  blImageSize : Nat := 0
  appImageSize : Nat := 0
  sdImageStart : Nat := 0
  recordCrc : BitVec 16 := 0
  recordCrcInv : BitVec 16 := 0
  deriving DecidableEq, Repr

namespace Settings

/-- The fields in front of `record_crc`. -/
def body (s : Settings) : List Byte :=
  put16 s.bank0 ++ put16 s.bank0Crc ++ put16 s.bank1 ++ put16 s.formatVersion ++
    put32 s.bank0Size ++ put32 s.sdImageSize ++ put32 s.blImageSize ++ put32 s.appImageSize ++
    put32 s.sdImageStart

def bytes (s : Settings) : List Byte := s.body ++ put16 s.recordCrc ++ put16 s.recordCrcInv

/-- `bootloader_settings_seal`. -/
def sealed (s : Settings) : Settings :=
  let s := { s with formatVersion := settingsFormatVersion }
  { s with recordCrc := crc16 s.body, recordCrcInv := ~~~(crc16 s.body) }

def isLegacy (s : Settings) : Bool := s.recordCrc = 0xFFFF && s.recordCrcInv = 0xFFFF

/-- `bootloader_settings_integrity_valid`. -/
def integrityValid (s : Settings) : Bool :=
  s.isLegacy || (s.formatVersion = settingsFormatVersion && s.recordCrcInv = ~~~s.recordCrc &&
    crc16 s.body = s.recordCrc)

end Settings

/-- `bootloader_util_settings_get`: the record in flash. -/
def readSettings (m : Mem) : Settings where
  bank0 := readHalf m bootloaderSettingsAddress
  bank0Crc := readHalf m (bootloaderSettingsAddress + 2)
  bank1 := readHalf m (bootloaderSettingsAddress + 4)
  formatVersion := readHalf m (bootloaderSettingsAddress + 6)
  bank0Size := readWord m (bootloaderSettingsAddress + 8)
  sdImageSize := readWord m (bootloaderSettingsAddress + 12)
  blImageSize := readWord m (bootloaderSettingsAddress + 16)
  appImageSize := readWord m (bootloaderSettingsAddress + 20)
  sdImageStart := readWord m (bootloaderSettingsAddress + 24)
  recordCrc := readHalf m (bootloaderSettingsAddress + 28)
  recordCrcInv := readHalf m (bootloaderSettingsAddress + 30)

/-! ## The boot decision -/

def emptyFlash : Nat := 0xFFFFFFFF

/-- The vector table of an application at `appAddr`: initial stack pointer in RAM,
reset vector in Thumb state between the application and the bootloader. -/
def vectorValid (chip : Chip) (m : Mem) (appAddr : Nat) : Bool :=
  let sp := readWord m appAddr
  let reset := readWord m (appAddr + 4)
  let resetCode := reset - reset % 2
  sp ≠ emptyFlash && reset ≠ emptyFlash && ramStart ≤ sp && sp ≤ chip.ramEnd && sp % 8 = 0 &&
    reset % 2 = 1 && appAddr ≤ resetCode && resetCode < bootloaderRegionStart

/-- The image a `BANK_VALID_APP` record describes is in flash. -/
def recordMatches (m : Mem) (appAddr : Nat) (s : Settings) : Bool :=
  let reset := readWord m (appAddr + 4)
  let resetCode := reset - reset % 2
  let legacyWithoutCrc := s.isLegacy && s.bank0Crc = 0 && s.bank0Size = 0
  if !legacyWithoutCrc && (s.bank0Size = 0 || sub32 bootloaderRegionStart appAddr < s.bank0Size ||
      add32 appAddr s.bank0Size ≤ resetCode) then false
  else (if legacyWithoutCrc then 0 else crc16 (slice m appAddr s.bank0Size)) = s.bank0Crc

def bootloaderAppIsValid (chip : Chip) (m : Mem) : Bool :=
  let appAddr := dfuBank0RegionStart m
  let s := readSettings m
  if !vectorValid chip m appAddr then false
  else if s.bank0 = bankValidApp then
    if !s.integrityValid then false else recordMatches m appAddr s
  else s.bank0 = 0xFFFF

/-! ## Saving -/

/-- `bootloader_settings_save` without a SoftDevice: erase the page, program the
geometry and its seal, and the two marker words last. -/
def bootloaderSettingsSave (s : Settings) : List FlashOp :=
  .erase bootloaderSettingsAddress codePageSize ::
    (wordsWrite (bootloaderSettingsAddress + 8) (s.sealed.bytes.drop 8) ++
      wordsWrite bootloaderSettingsAddress (s.sealed.bytes.take 8))

/-- `flash_nrf5x_invalidate_app_settings`: `bank_0` and `bank_0_crc` become zero. -/
def invalidateAppSettings : List FlashOp := [.program bootloaderSettingsAddress [0, 0, 0, 0]]

/-- A save stays on the settings page. -/
theorem bootloaderSettingsSave_spares (s : Settings) {x : Nat} (hx : x < bootloaderSettingsAddress) :
    Spares (bootloaderSettingsSave s) x := by
  intro op hop
  left
  rcases List.mem_cons.mp hop with rfl | hop
  · exact hx
  rcases List.mem_append.mp hop with hop | hop
  · have := mem_wordsWrite hop
    omega
  · have := mem_wordsWrite hop
    omega

/-! ## The record in flash -/

theorem half_append (h : BitVec 16) : h.extractLsb' 8 8 ++ h.extractLsb' 0 8 = h := by
  refine BitVec.eq_of_getLsbD_eq fun i hi => ?_
  erw [BitVec.getLsbD_append]
  by_cases h8 : i < 8
  · simp [h8]
  · rw [if_neg h8, BitVec.getLsbD_extractLsb', show 8 + (i - 8) = i by omega]
    simp [show i - 8 < 8 by omega]

namespace Settings

/-- The sizes are 32-bit values. -/
structure Fits (s : Settings) : Prop where
  bank0Size : s.bank0Size < 2 ^ 32
  sdImageSize : s.sdImageSize < 2 ^ 32
  blImageSize : s.blImageSize < 2 ^ 32
  appImageSize : s.appImageSize < 2 ^ 32
  sdImageStart : s.sdImageStart < 2 ^ 32

theorem Fits.sealed {s : Settings} (h : s.Fits) : s.sealed.Fits := ⟨h.1, h.2, h.3, h.4, h.5⟩

@[simp] theorem bytes_length (s : Settings) : s.bytes.length = 32 := rfl

theorem bytes_eq (s : Settings) : s.bytes =
    [s.bank0.extractLsb' 0 8, s.bank0.extractLsb' 8 8,
      s.bank0Crc.extractLsb' 0 8, s.bank0Crc.extractLsb' 8 8,
      s.bank1.extractLsb' 0 8, s.bank1.extractLsb' 8 8,
      s.formatVersion.extractLsb' 0 8, s.formatVersion.extractLsb' 8 8,
      .ofNat 8 s.bank0Size, .ofNat 8 (s.bank0Size / 2 ^ 8), .ofNat 8 (s.bank0Size / 2 ^ 16),
      .ofNat 8 (s.bank0Size / 2 ^ 24),
      .ofNat 8 s.sdImageSize, .ofNat 8 (s.sdImageSize / 2 ^ 8), .ofNat 8 (s.sdImageSize / 2 ^ 16),
      .ofNat 8 (s.sdImageSize / 2 ^ 24),
      .ofNat 8 s.blImageSize, .ofNat 8 (s.blImageSize / 2 ^ 8), .ofNat 8 (s.blImageSize / 2 ^ 16),
      .ofNat 8 (s.blImageSize / 2 ^ 24),
      .ofNat 8 s.appImageSize, .ofNat 8 (s.appImageSize / 2 ^ 8), .ofNat 8 (s.appImageSize / 2 ^ 16),
      .ofNat 8 (s.appImageSize / 2 ^ 24),
      .ofNat 8 s.sdImageStart, .ofNat 8 (s.sdImageStart / 2 ^ 8), .ofNat 8 (s.sdImageStart / 2 ^ 16),
      .ofNat 8 (s.sdImageStart / 2 ^ 24),
      s.recordCrc.extractLsb' 0 8, s.recordCrc.extractLsb' 8 8,
      s.recordCrcInv.extractLsb' 0 8, s.recordCrcInv.extractLsb' 8 8] := rfl

theorem sealed_recordCrc (s : Settings) : s.sealed.recordCrc = crc16 s.sealed.body := rfl

theorem sealed_recordCrcInv (s : Settings) : s.sealed.recordCrcInv = ~~~s.sealed.recordCrc := rfl

theorem sealed_formatVersion (s : Settings) : s.sealed.formatVersion = settingsFormatVersion := rfl

theorem sealed_integrityValid (s : Settings) : s.sealed.integrityValid = true := by
  simp only [integrityValid, sealed_recordCrcInv, sealed_formatVersion, ← sealed_recordCrc,
    decide_true, Bool.and_self, Bool.or_true]

/-- A seal never looks like the erased words of a legacy record. -/
theorem sealed_not_legacy (s : Settings) {t : Settings} (h1 : t.recordCrc = s.sealed.recordCrc)
    (h2 : t.recordCrcInv = s.sealed.recordCrcInv) : t.isLegacy = false := by
  by_contra hl
  simp only [isLegacy, Bool.not_eq_false, Bool.and_eq_true, decide_eq_true_eq, h1, h2,
    sealed_recordCrcInv] at hl
  rw [hl.1] at hl
  exact absurd hl.2 (by decide)

end Settings

/-- A page that holds the bytes of a record holds the record. -/
theorem readSettings_eq {m : Mem} {s : Settings} (hs : s.Fits)
    (h : ∀ i, i < 32 → m (bootloaderSettingsAddress + i) = s.bytes.getD i 0) :
    readSettings m = s := by
  have half : ∀ k v, k + 1 < 32 → s.bytes.getD k 0 = v.extractLsb' 0 8 →
      s.bytes.getD (k + 1) 0 = v.extractLsb' 8 8 →
      readHalf m (bootloaderSettingsAddress + k) = v := by
    intro k v hk h0 h1
    unfold readHalf
    rw [Nat.add_assoc, h (k + 1) hk, h k (by omega), h0, h1]
    exact half_append v
  have word : ∀ k n, k + 3 < 32 → n < 2 ^ 32 → s.bytes.getD k 0 = BitVec.ofNat 8 n →
      s.bytes.getD (k + 1) 0 = BitVec.ofNat 8 (n / 2 ^ 8) →
      s.bytes.getD (k + 2) 0 = BitVec.ofNat 8 (n / 2 ^ 16) →
      s.bytes.getD (k + 3) 0 = BitVec.ofNat 8 (n / 2 ^ 24) →
      readWord m (bootloaderSettingsAddress + k) = n := by
    intro k n hk hn h0 h1 h2 h3
    unfold readWord
    simp only [Nat.add_assoc]
    rw [h k (by omega), h (k + 1) (by omega), h (k + 2) (by omega), h (k + 3) hk, h0, h1, h2, h3]
    exact get32_put32 hn
  rw [Settings.bytes_eq] at half word
  refine Settings.ext ?_ ?_ ?_ ?_ ?_ ?_ ?_ ?_ ?_ ?_ ?_
  · exact half 0 s.bank0 (by omega) rfl rfl
  · exact half 2 s.bank0Crc (by omega) rfl rfl
  · exact half 4 s.bank1 (by omega) rfl rfl
  · exact half 6 s.formatVersion (by omega) rfl rfl
  · exact word 8 s.bank0Size (by omega) hs.bank0Size rfl rfl rfl rfl
  · exact word 12 s.sdImageSize (by omega) hs.sdImageSize rfl rfl rfl rfl
  · exact word 16 s.blImageSize (by omega) hs.blImageSize rfl rfl rfl rfl
  · exact word 20 s.appImageSize (by omega) hs.appImageSize rfl rfl rfl rfl
  · exact word 24 s.sdImageStart (by omega) hs.sdImageStart rfl rfl rfl rfl
  · exact half 28 s.recordCrc (by omega) rfl rfl
  · exact half 30 s.recordCrcInv (by omega) rfl rfl

/-! ## Cuts of a save -/

section Cut

variable {s : Settings} {m : Mem}

/-- The geometry words. -/
def geometryOps (s : Settings) : List FlashOp :=
  wordsWrite (bootloaderSettingsAddress + 8) (s.sealed.bytes.drop 8)

/-- The marker words. -/
def markerOps (s : Settings) : List FlashOp :=
  wordsWrite bootloaderSettingsAddress (s.sealed.bytes.take 8)

theorem geometryOps_length : (geometryOps s).length = 6 := by
  rw [geometryOps, wordsWrite_length, List.length_drop, Settings.bytes_length]

theorem markerOps_length : (markerOps s).length = 2 := by
  rw [markerOps, wordsWrite_length, List.length_take, Settings.bytes_length]
  rfl

/-- Cut inside the geometry, the marker words are still erased. -/
theorem replay_geometryOps_low {x : Nat} (j : Nat) (h1 : bootloaderSettingsAddress ≤ x)
    (h2 : x < bootloaderSettingsAddress + 8) :
    replay ((geometryOps s).take j)
      ((FlashOp.erase bootloaderSettingsAddress codePageSize).apply m) x = 0xFF := by
  have hx : x < bootloaderSettingsAddress + codePageSize := by
    have hp : codePageSize = 0x1000 := rfl
    omega
  unfold geometryOps
  rw [replay_spares ((wordsWrite_spares (.inl h2)).take j)]
  exact FlashOp.apply_erase h1 hx

theorem replay_geometryOps_high {i : Nat} (h1 : 8 ≤ i) (h2 : i < 32) :
    replay (geometryOps s) ((FlashOp.erase bootloaderSettingsAddress codePageSize).apply m)
      (bootloaderSettingsAddress + i) = s.sealed.bytes.getD i 0 := by
  have hlen : (s.sealed.bytes.drop 8).length = 24 := by simp
  rw [geometryOps, replay_wordsWrite_erased (by rw [hlen]) (by omega) (by rw [hlen]; omega)
    (FlashOp.apply_erase (by omega) (by have hp : codePageSize = 0x1000 := rfl; omega))]
  rw [List.getD_eq_getElem?_getD, List.getElem?_drop, List.getD_eq_getElem?_getD,
    show 8 + (bootloaderSettingsAddress + i - (bootloaderSettingsAddress + 8)) = i by omega]

/-- The completed save holds the sealed record. -/
theorem replay_bootloaderSettingsSave (hs : s.Fits) :
    readSettings (replay (bootloaderSettingsSave s) m) = s.sealed := by
  have hlen : (s.sealed.bytes.take 8).length = 8 := by simp
  refine readSettings_eq hs.sealed fun i hi => ?_
  rw [bootloaderSettingsSave, replay_cons, replay_append]
  by_cases h8 : i < 8
  · rw [replay_wordsWrite_erased (by rw [hlen]) (by omega) (by rw [hlen]; omega)]
    · rw [List.getD_eq_getElem?_getD, List.getElem?_take, if_pos (by omega),
        List.getD_eq_getElem?_getD, Nat.add_sub_cancel_left]
    · have := replay_geometryOps_low (s := s) (m := m) 6
        (x := bootloaderSettingsAddress + i) (by omega) (by omega)
      rwa [List.take_of_length_le (Nat.le_of_eq geometryOps_length)] at this
  · rw [replay_spares (wordsWrite_spares (.inr (by rw [hlen]; omega)))]
    exact replay_geometryOps_high (by omega) hi

/-- With its second marker word still erased, a record is not sealed. -/
theorem integrityValid_unmarked
    (hlow : ∀ i, 4 ≤ i → i < 8 → m (bootloaderSettingsAddress + i) = 0xFF)
    (hhigh : ∀ i, 8 ≤ i → i < 32 → m (bootloaderSettingsAddress + i) = s.sealed.bytes.getD i 0) :
    (readSettings m).integrityValid = false := by
  have hver : (readSettings m).formatVersion = 0xFFFF := by
    simp only [readSettings, readHalf, Nat.add_assoc]
    rw [hlow 6 (by omega) (by omega), hlow (6 + 1) (by omega) (by omega)]
    decide
  have hcrc : (readSettings m).recordCrc = s.sealed.recordCrc := by
    simp only [readSettings, readHalf, Nat.add_assoc]
    rw [hhigh 28 (by omega) (by omega), hhigh (28 + 1) (by omega) (by omega), Settings.bytes_eq]
    exact half_append _
  have hinv : (readSettings m).recordCrcInv = s.sealed.recordCrcInv := by
    simp only [readSettings, readHalf, Nat.add_assoc]
    rw [hhigh 30 (by omega) (by omega), hhigh (30 + 1) (by omega) (by omega), Settings.bytes_eq]
    exact half_append _
  simp only [Settings.integrityValid, Settings.sealed_not_legacy s hcrc hinv, hver, Bool.false_or]
  rfl

/-- With one marker word programmed, a save is not sealed. -/
theorem bootloaderSettingsSave_half (s : Settings) (m : Mem) :
    (readSettings (replay (geometryOps s ++ (markerOps s).take 1)
      ((FlashOp.erase bootloaderSettingsAddress codePageSize).apply m))).integrityValid = false := by
  rw [replay_append]
  -- past the first marker word the page is as the geometry left it
  have hbyte : ∀ i, 4 ≤ i → replay ((markerOps s).take 1) (replay (geometryOps s)
        ((FlashOp.erase bootloaderSettingsAddress codePageSize).apply m))
        (bootloaderSettingsAddress + i) =
      replay (geometryOps s) ((FlashOp.erase bootloaderSettingsAddress codePageSize).apply m)
        (bootloaderSettingsAddress + i) := by
    intro i hi
    exact replay_spares (show Spares ((markerOps s).take 1) (bootloaderSettingsAddress + i) from
      wordsWrite_take_spares (by omega)) _
  have hlow := fun i (h4 : 4 ≤ i) (h8 : i < 8) => (hbyte i h4).trans
    ((congrArg (replay · _ _) (List.take_of_length_le (Nat.le_of_eq geometryOps_length)).symm).trans
      (replay_geometryOps_low (s := s) (m := m) 6 (by omega) (by omega)))
  have hhigh := fun i (h8 : 8 ≤ i) (h32 : i < 32) =>
    (hbyte i (by omega)).trans (replay_geometryOps_high (s := s) (m := m) h8 h32)
  exact integrityValid_unmarked hlow hhigh

/-- A save by its stages: inside the geometry, between the markers, complete. -/
theorem bootloaderSettingsSave_take (s : Settings) (m : Mem) (j : Nat) :
    replay ((bootloaderSettingsSave s).take (j + 1)) m =
      replay (if j ≤ 6 then (geometryOps s).take j
        else if j = 7 then geometryOps s ++ (markerOps s).take 1 else geometryOps s ++ markerOps s)
        ((FlashOp.erase bootloaderSettingsAddress codePageSize).apply m) := by
  rw [show bootloaderSettingsSave s = .erase bootloaderSettingsAddress codePageSize ::
      (geometryOps s ++ markerOps s) from rfl, List.take_succ_cons, replay_cons]
  split_ifs with h6 h7
  · rw [List.take_append_of_le_length (by rw [geometryOps_length]; exact h6)]
  · rw [h7, List.take_append, geometryOps_length,
      List.take_of_length_le (by rw [geometryOps_length]; omega)]
  · rw [List.take_of_length_le
      (by rw [List.length_append, geometryOps_length, markerOps_length]; omega)]

/-- Every power cut of a save leaves the old page, an erased marker, a record
whose seal does not hold, or the new record. -/
theorem bootloaderSettingsSave_cut (hs : s.Fits) (m : Mem) (k : Nat) :
    let m' := replay ((bootloaderSettingsSave s).take k) m
    k = 0 ∨ (readSettings m').bank0 = 0xFFFF ∨ (readSettings m').integrityValid = false ∨
      readSettings m' = s.sealed := by
  rcases Nat.eq_zero_or_pos k with rfl | hk
  · exact .inl rfl
  obtain ⟨j, rfl⟩ : ∃ j, k = j + 1 := ⟨k - 1, by omega⟩
  intro m'
  refine .inr ?_
  have hm' := bootloaderSettingsSave_take s m j
  change m' = _ at hm'
  split_ifs at hm' with h6 h7
  · left
    have h0 : m' bootloaderSettingsAddress = 0xFF := by
      rw [hm']; exact replay_geometryOps_low j (by omega) (by omega)
    have h1 : m' (bootloaderSettingsAddress + 1) = 0xFF := by
      rw [hm']; exact replay_geometryOps_low j (by omega) (by omega)
    simp only [readSettings, readHalf, h0, h1]
    decide
  · right; left
    rw [hm']
    exact bootloaderSettingsSave_half s m
  · right; right
    rw [hm']
    exact replay_bootloaderSettingsSave hs

end Cut

end OtaFix
