import OtaFix.Dfu.SdSwap
import OtaFix.Dfu.SingleBank
import OtaFix.SettingsCut

/-!
# A SoftDevice update after the reset

The received SoftDevice waits in bank 0, with the record of `dfu_activate_sd`, until the boot after
the reset copies it into place: `bootloader_dfu_sd_update_continue` and
`bootloader_dfu_sd_update_finalize`, as `main` calls them.

The record counts only while the information structure of the SoftDevice gives the start of the
image as the start of bank 0. The copy replaces this structure. So a boot takes up a copy that was
cut only if the structure is still the old one, or already one of the same size; where it is not,
no application is started. And a bootloader that came with a SoftDevice of another size is not
handed to the boot record (`sd_update_survives`).
-/

namespace OtaFix

open Lib

/-! ## The update -/

/-- `bootloader_settings_get`. -/
def bootloaderSettingsGet (m : Mem) : Settings :=
  if bootloaderUpdateSettingsValid m (readSettings m) then readSettings m
  else { bank0 := bankInvalidApp, bank1 := bankInvalidApp }

/-- A page of the first round and one of the second are cleared, by a copy onto itself. -/
def clearRounds (mbr : Mbr) (b : Nat) (m : Mem) : Traced :=
  andThen .success m
    (dfuCopySd mbr (softdeviceRegionStart + b) (softdeviceRegionStart + b) 4 m)
    (dfuCopySd mbr softdeviceRegionStart softdeviceRegionStart 4)

def dfuSdImageSwap (mbr : Mbr) (m : Mem) : Option Traced :=
  let s := bootloaderSettingsGet m
  if s.sdImageSize = 0 then some (.success, [])
  else if s.sdImageStart < add32 softdeviceRegionStart s.sdImageSize then
    let b := sdBlockSize s.sdImageStart
    if readWord m sdSizeAddr < s.sdImageSize then
      let clear := clearRounds mbr b m
      if clear.1 ≠ .success then some clear
      else (threeRounds mbr s.sdImageStart s.sdImageSize b (replay clear.2 m)).map fun r =>
        (r.1, clear.2 ++ r.2)
    else threeRounds mbr s.sdImageStart s.sdImageSize b m
  else some (dfuCopySd mbr s.sdImageStart softdeviceRegionStart s.sdImageSize m)

def dfuSdImageValidate (mbr : Mbr) (m : Mem) : Option Traced :=
  let s := bootloaderSettingsGet m
  if s.sdImageSize = 0 then some (.success, [])
  else if s.sdImageStart < add32 softdeviceRegionStart s.sdImageSize then
    if readWord m sdSizeAddr < s.sdImageSize then some (.other, [])
    else threeRounds mbr s.sdImageStart s.sdImageSize (sdBlockSize s.sdImageStart) m
  else some (dfuCompareBlock mbr m softdeviceRegionStart s.sdImageStart s.sdImageSize, [])

def dfuBank1RegionStart (m : Mem) : Nat :=
  let full := dfuImageMaxSizeFull m
  add32 (dfuBank0RegionStart m) ((full - full % (2 * codePageSize)) / 2)

/-- Where the bootloader of an update is: behind the SoftDevice, or alone in a bank. -/
def blImageStart (s : Settings) (bank : Nat) : Nat :=
  if s.sdImageSize = 0 then bank else add32 s.sdImageStart s.sdImageSize

/-- `dfu_bl_image_swap`: the source and the words of `SD_MBR_COMMAND_COPY_BL`, which does not
return. -/
def dfuBlImageSwap (m : Mem) : Option (Nat × Nat) :=
  let s := bootloaderSettingsGet m
  if s.blImageSize ≠ 0 then some (blImageStart s (dfuBank0RegionStart m), s.blImageSize / 4)
  else none

def dfuBlImageValidate (mbr : Mbr) (m : Mem) : NrfError :=
  let s := bootloaderSettingsGet m
  if s.blImageSize ≠ 0 then
    if dfuCompareBlock mbr m bootloaderRegionStart (blImageStart s (dfuBank0RegionStart m))
        s.blImageSize = .success then .success
    else dfuCompareBlock mbr m bootloaderRegionStart (blImageStart s (dfuBank1RegionStart m))
      s.blImageSize
  else .success

inductive UpdateEnd where
  | done
  | copyBl (src words : Nat)
  | failed (code : NrfError)
  deriving DecidableEq, Repr

/-- The end of an update behind the second validation. -/
def blUpdateEnd (m : Mem) : UpdateEnd :=
  match dfuBlImageSwap m with
  | some c => .copyBl c.1 c.2
  | none => .done

/-- `APP_ERROR_CHECK`, and what follows. -/
def checked (e : NrfError) (next : UpdateEnd) : UpdateEnd :=
  if e ≠ .success then .failed e else next

def bootloaderDfuSdUpdateContinue (mbr : Mbr) (m : Mem) : Option (UpdateEnd × List FlashOp) :=
  (dfuSdImageValidate mbr m).bind fun v =>
    let m₁ := replay v.2 m
    if v.1 = .success ∧ dfuBlImageValidate mbr m₁ = .success then some (.done, v.2)
    else (dfuSdImageSwap mbr m₁).bind fun w =>
      let m₂ := replay w.2 m₁
      if w.1 ≠ .success then some (.failed w.1, v.2 ++ w.2)
      else (dfuSdImageValidate mbr m₂).map fun x =>
        (checked x.1 (blUpdateEnd (replay x.2 m₂)), v.2 ++ w.2 ++ x.2)

/-- `bootloader_dfu_sd_update_finalize`. -/
def sdUpdateFinalize (m : Mem) : List FlashOp :=
  match updateSettings (readSettings m) .sdSwapped with
  | some s => bootloaderSettingsSave s
  | none => []

/-- The operations of a boot with the update pending. -/
def withFinalize (m : Mem) (r : UpdateEnd × List FlashOp) : List FlashOp :=
  match r.1 with
  | .done => r.2 ++ sdUpdateFinalize (replay r.2 m)
  | .copyBl _ _ => r.2
  | .failed _ => r.2

/-- The update in `main`: no end where `bootloader_dfu_sd_in_progress` denies one. -/
def bootSdUpdate (mbr : Mbr) (m : Mem) : Option (Option UpdateEnd × List FlashOp) :=
  if bootloaderUpdateSettingsValid m (readSettings m) then
    (bootloaderDfuSdUpdateContinue mbr m).map fun r => (some r.1, withFinalize m r)
  else some (none, [])

/-- A boot that loses power behind `k` operations. -/
def cutBoot (mbr : Mbr) (m : Mem) (k : Nat) : Mem :=
  cutAt m k (bootSdUpdate mbr m)

/-! ## The record -/

variable {m m' m₀ : Mem} {mbr : Mbr} {start size bl : Nat}

/-- A SoftDevice of `size` bytes waits in bank 0, apart from its place, with a bootloader of `bl`
bytes behind it. -/
structure SdPending (m : Mem) (start size bl : Nat) : Prop where
  valid : bootloaderUpdateSettingsValid m (readSettings m) = true
  bank0 : (readSettings m).bank0 = bankValidSd
  sdImageStart : (readSettings m).sdImageStart = start
  sdImageSize : (readSettings m).sdImageSize = size
  blImageSize : (readSettings m).blImageSize = bl
  aligned : start % codePageSize = 0
  apart : softdeviceRegionStart + size ≤ start
  low : start ≤ bootloaderRegionStart
  words : size % 4 = 0

theorem updateSettingsValid_sd {s : Settings} (hbank : s.bank0 = bankValidSd)
    (h : bootloaderUpdateSettingsValid m s = true) : s.sdImageSize ≠ 0 ∧
      s.sdImageStart = dfuBank0RegionStart m ∧
      s.sdImageSize + s.blImageSize ≤ sub32 bootloaderRegionStart s.sdImageStart := by
  unfold bootloaderUpdateSettingsValid at h
  split at h
  · cases h
  · split at h
    · cases h
    · rename_i hnone
      simp only [not_or, ne_eq, not_not] at hnone
      simp only [Bool.and_eq_true, decide_eq_true_eq] at h
      exact ⟨hnone.1, hnone.2.2.2.2.1, h.2⟩

/-- Of the flash, the check of a record reads where bank 0 starts. -/
theorem updateSettingsValid_congr {s : Settings}
    (h : dfuBank0RegionStart m' = dfuBank0RegionStart m) :
    bootloaderUpdateSettingsValid m' s = bootloaderUpdateSettingsValid m s := by
  unfold bootloaderUpdateSettingsValid
  rw [h]

namespace SdPending

theorem regionStart (h : SdPending m₀ start size bl) : dfuBank0RegionStart m₀ = start := by
  rw [← h.sdImageStart]
  exact (updateSettingsValid_sd h.bank0 h.valid).2.1.symm

theorem size_ne (h : SdPending m₀ start size bl) : size ≠ 0 := by
  rw [← h.sdImageSize]
  exact (updateSettingsValid_sd h.bank0 h.valid).1

theorem below (h : SdPending m₀ start size bl) : start + size + bl ≤ bootloaderRegionStart := by
  have hfit := (updateSettingsValid_sd h.bank0 h.valid).2.2
  have hlow := h.low
  rw [h.sdImageSize, h.blImageSize, h.sdImageStart, sub32_eq (by decide) hlow] at hfit
  omega

theorem low_settings (h : SdPending m₀ start size bl) : start ≤ bootloaderSettingsAddress :=
  Nat.le_trans h.low (by decide)

theorem pageUp_le (h : SdPending m₀ start size bl) :
    pageUp (softdeviceRegionStart + size) ≤ start :=
  OtaFix.pageUp_le h.aligned h.apart

/-! ## While the copy goes on -/

section Copying

variable (h : SdPending m₀ start size bl) (hw : Within softdeviceRegionStart start m₀ m)
include h hw

theorem settings_eq : readSettings m = readSettings m₀ :=
  readSettings_congr fun x hx => hw x (.inr (Nat.le_trans h.low_settings hx))

/-- The record counts while bank 0 starts where the image is. -/
theorem valid_iff : bootloaderUpdateSettingsValid m (readSettings m) = true ↔
    dfuBank0RegionStart m = start := by
  rw [h.settings_eq hw]
  constructor
  · intro hv
    rw [← (updateSettingsValid_sd h.bank0 hv).2.1, h.sdImageStart]
  · intro hreg
    rw [updateSettingsValid_congr (hreg.trans h.regionStart.symm)]
    exact h.valid

theorem get_eq (hreg : dfuBank0RegionStart m = start) :
    bootloaderSettingsGet m = readSettings m₀ := by
  rw [bootloaderSettingsGet, if_pos ((h.valid_iff hw).mpr hreg), h.settings_eq hw]

theorem get_invalid (hreg : dfuBank0RegionStart m ≠ start) :
    bootloaderSettingsGet m = { bank0 := bankInvalidApp, bank1 := bankInvalidApp } := by
  rw [bootloaderSettingsGet, if_neg (fun hv => hreg ((h.valid_iff hw).mp hv))]

theorem sdImageSwap_eq (hreg : dfuBank0RegionStart m = start) :
    dfuSdImageSwap mbr m = some (dfuCopySd mbr start softdeviceRegionStart size m) := by
  have hsum : add32 softdeviceRegionStart size = softdeviceRegionStart + size :=
    add32_eq (Nat.lt_of_le_of_lt h.apart (Nat.lt_of_le_of_lt h.low (by decide)))
  have hapart := h.apart
  simp only [dfuSdImageSwap, h.get_eq hw hreg, h.sdImageSize, h.sdImageStart, hsum]
  rw [if_neg h.size_ne, if_neg (by omega)]

theorem sdImageValidate_eq (hreg : dfuBank0RegionStart m = start) :
    dfuSdImageValidate mbr m =
      some (dfuCompareBlock mbr m softdeviceRegionStart start size, []) := by
  have hsum : add32 softdeviceRegionStart size = softdeviceRegionStart + size :=
    add32_eq (Nat.lt_of_le_of_lt h.apart (Nat.lt_of_le_of_lt h.low (by decide)))
  have hapart := h.apart
  simp only [dfuSdImageValidate, h.get_eq hw hreg, h.sdImageSize, h.sdImageStart, hsum]
  rw [if_neg h.size_ne, if_neg (by omega)]

/-- Where the record no longer counts, nothing is compared. -/
theorem sdImageValidate_skips (hreg : dfuBank0RegionStart m ≠ start) :
    dfuSdImageValidate mbr m = some (.success, []) := by
  simp only [dfuSdImageValidate, h.get_invalid hw hreg]
  rfl

theorem compare_iff (hmbr : mbr.Sound) : dfuCompareBlock mbr m softdeviceRegionStart start size = .success ↔
    InPlace m₀ start 0 size m := by
  rw [compare_success hmbr h.words]
  constructor
  · intro heq x _ hx
    rw [heq x hx]
    exact hw _ (.inr (Nat.le_add_right _ _))
  · intro hin x hx
    rw [hin x (Nat.zero_le _) hx]
    exact (hw _ (.inr (Nat.le_add_right _ _))).symm

/-- The second validation never fails behind a copy. -/
theorem sdImageValidate_placed (hmbr : mbr.Sound) (hin : InPlace m₀ start 0 size m) :
    dfuSdImageValidate mbr m = some (.success, []) := by
  by_cases hreg : dfuBank0RegionStart m = start
  · rw [h.sdImageValidate_eq hw hreg, (h.compare_iff hw hmbr).mpr hin]
  · exact h.sdImageValidate_skips hw hreg

end Copying

end SdPending

/-! ## A boot -/

/-- What an update keeps: until the image is in place nothing else changes, and the record is only
taken back behind that. -/
inductive UpdateInv (m₀ : Mem) (start size : Nat) (m : Mem) : Prop where
  | copying : Within softdeviceRegionStart start m₀ m → UpdateInv m₀ start size m
  | closing : (∀ x, start ≤ x → x < bootloaderSettingsAddress → m x = m₀ x) →
      InPlace m₀ start 0 size m → bootloaderUpdateSettingsValid m (readSettings m) = false →
      UpdateInv m₀ start size m

/-- How an update ends that began in `m` and left `m'`. -/
inductive EndOk (mbr : Mbr) (m₀ m m' : Mem) (start size bl : Nat) : UpdateEnd → Prop where
  | done : InPlace m₀ start 0 size m' →
      bootloaderUpdateSettingsValid m' (readSettings m') = false →
      (bl = 0 ∨ dfuBlImageValidate mbr m = .success ∨ dfuBank0RegionStart m' ≠ start) →
      EndOk mbr m₀ m m' start size bl .done
  | copyBl : InPlace m₀ start 0 size m' → dfuBank0RegionStart m' = start →
      EndOk mbr m₀ m m' start size bl (.copyBl (start + size) (bl / 4))
  /-- Only with the error that the boot record gave the copy. -/
  | failed : (dfuCopySd mbr start softdeviceRegionStart size m).1 ≠ .success →
      EndOk mbr m₀ m m' start size bl
        (.failed (dfuCopySd mbr start softdeviceRegionStart size m).1)

namespace SdPending

/-- The end of an update behind the copy. -/
theorem blUpdateEnd_eq (h : SdPending m₀ start size bl)
    (hw : Within softdeviceRegionStart start m₀ m) :
    blUpdateEnd m = if dfuBank0RegionStart m = start ∧ bl ≠ 0 then .copyBl (start + size) (bl / 4)
      else .done := by
  have hbelow := h.below
  have hend : bootloaderRegionStart < 2 ^ 32 := by decide
  have hsum : add32 start size = start + size := add32_eq (by omega)
  by_cases hreg : dfuBank0RegionStart m = start
  · simp only [blUpdateEnd, dfuBlImageSwap, blImageStart, h.get_eq hw hreg, h.blImageSize,
      h.sdImageSize, h.sdImageStart, hsum, if_neg h.size_ne, hreg, true_and]
    split_ifs <;> rfl
  · rw [if_neg fun hboth => hreg hboth.1]
    simp only [blUpdateEnd, dfuBlImageSwap, h.get_invalid hw hreg]
    rfl

theorem finalize_eq (h : SdPending m₀ start size bl)
    (hw : Within softdeviceRegionStart start m₀ m) : sdUpdateFinalize m =
      bootloaderSettingsSave { bank0 := bankInvalidApp, bank1 := bankInvalidApp } := by
  simp only [sdUpdateFinalize, updateSettings, h.settings_eq hw, if_pos h.bank0]

theorem finalize_below (h : SdPending m₀ start size bl)
    (hw : Within softdeviceRegionStart start m₀ m) (k : Nat) {x : Nat}
    (hx : x < bootloaderSettingsAddress) : replay ((sdUpdateFinalize m).take k) m x = m x := by
  rw [h.finalize_eq hw]
  exact replay_spares (fun op hop =>
    bootloaderSettingsSave_spares _ hx op (List.mem_of_mem_take hop)) m

theorem finalize_placed (h : SdPending m₀ start size bl)
    (hw : Within softdeviceRegionStart start m₀ m) (hin : InPlace m₀ start 0 size m) :
    AtCuts (InPlace m₀ start 0 size) (sdUpdateFinalize m) m := by
  intro k x h0 hx
  have hlow := h.low_settings
  have hapart := h.apart
  rw [h.finalize_below hw k (by omega)]
  exact hin x h0 hx

theorem swapped_invalid :
    bootloaderUpdateSettingsValid m
      ({ bank0 := bankInvalidApp, bank1 := bankInvalidApp } : Settings).sealed = false := by
  simp [bootloaderUpdateSettingsValid, Settings.sealed, bankInvalidApp, bankValidSd, bankValidBoot]

/-- Behind the last write the update is over. -/
theorem finalize_invalid (h : SdPending m₀ start size bl)
    (hw : Within softdeviceRegionStart start m₀ m) :
    bootloaderUpdateSettingsValid (replay (sdUpdateFinalize m) m)
      (readSettings (replay (sdUpdateFinalize m) m)) = false := by
  have hpos : 0 < 2 ^ 32 := Nat.two_pow_pos 32
  rw [h.finalize_eq hw, replay_bootloaderSettingsSave ⟨hpos, hpos, hpos, hpos, hpos⟩]
  exact swapped_invalid

theorem finalize_region (h : SdPending m₀ start size bl)
    (hw : Within softdeviceRegionStart start m₀ m) :
    dfuBank0RegionStart (replay (sdUpdateFinalize m) m) = dfuBank0RegionStart m := by
  refine (boundary_congr fun x hx => ?_).2.1
  have hbelow := h.finalize_below hw (sdUpdateFinalize m).length
    (Nat.lt_of_lt_of_le hx (by decide : 0x4000 ≤ bootloaderSettingsAddress))
  rwa [List.take_length] at hbelow

/-- Up to its last write the record is the old one, or nobody acts on it. -/
theorem finalize_cuts (h : SdPending m₀ start size bl)
    (hw : Within softdeviceRegionStart start m₀ m) (hin : InPlace m₀ start 0 size m) :
    AtCuts (UpdateInv m₀ start size) (sdUpdateFinalize m) m := by
  intro k
  have hbelow : ∀ {x}, x < bootloaderSettingsAddress →
      replay ((sdUpdateFinalize m).take k) m x = m x := h.finalize_below hw k
  have hplaced : InPlace m₀ start 0 size (replay ((sdUpdateFinalize m).take k) m) :=
    h.finalize_placed hw hin k
  have hrecord : SettingsWriter.record m (.update .sdSwapped) =
      some { bank0 := bankInvalidApp, bank1 := bankInvalidApp } := by
    simp only [SettingsWriter.record, updateSettings, h.settings_eq hw, if_pos h.bank0]
  have hcut := settings_cut_ok (w := .update .sdSwapped) trivial hrecord k
  rw [SettingsWriter.ops, ← h.finalize_eq hw] at hcut
  cases hv : bootloaderUpdateSettingsValid (replay ((sdUpdateFinalize m).take k) m)
      (readSettings (replay ((sdUpdateFinalize m).take k) m)) with
  | false =>
    refine .closing (fun x hlo hhi => ?_) hplaced hv
    rw [hbelow hhi]
    exact hw x (.inr hlo)
  | true =>
    obtain hsame | ⟨-, hread⟩ := hcut.update hv
    · rw [hsame]
      exact .copying hw
    · rw [hread, swapped_invalid] at hv
      cases hv

/-- The copy itself, into its own pages. -/
theorem copy_ran (h : SdPending m₀ start size bl) (hmbr : mbr.Sound)
    (hw : Within softdeviceRegionStart start m₀ m) :
    Ran .success (fun m e => (dfuCopySd mbr start softdeviceRegionStart size m).1 = e) m
      (dfuCopySd mbr start softdeviceRegionStart size m)
      (Within softdeviceRegionStart start m₀) (fun m' =>
        Within softdeviceRegionStart start m₀ m' ∧ InPlace m₀ start 0 size m') := by
  have hkeep : ∀ m', Within (pageOf softdeviceRegionStart) (pageUp (softdeviceRegionStart + size))
      m m' → Within softdeviceRegionStart start m₀ m' := by
    intro m' hw' x hx
    have hpage : pageOf softdeviceRegionStart = softdeviceRegionStart := pageOf_eq rfl
    have hup := h.pageUp_le
    rw [hw' x (by omega)]
    exact hw x hx
  refine (copySd_ran hmbr h.words (.inr h.pageUp_le) rfl).mono hkeep fun m' hm' => ?_
  refine ⟨hkeep m' hm'.1, fun x h0 hx => ?_⟩
  rw [hm'.2 x hx]
  exact hw _ (.inr (Nat.le_add_right _ _))

/-- The ends of a boot that takes up the copy. -/
theorem continue_cases (h : SdPending m₀ start size bl) (hmbr : mbr.Sound)
    (hw : Within softdeviceRegionStart start m₀ m) (hreg : dfuBank0RegionStart m = start) :
    (InPlace m₀ start 0 size m ∧ dfuBlImageValidate mbr m = .success ∧
      bootloaderDfuSdUpdateContinue mbr m = some (.done, [])) ∨
    bootloaderDfuSdUpdateContinue mbr m =
      some (checked (dfuCopySd mbr start softdeviceRegionStart size m).1
        (blUpdateEnd (replay (dfuCopySd mbr start softdeviceRegionStart size m).2 m)),
        (dfuCopySd mbr start softdeviceRegionStart size m).2) := by
  have hcopy := h.copy_ran hmbr hw
  by_cases hdone : dfuCompareBlock mbr m softdeviceRegionStart start size = .success ∧
      dfuBlImageValidate mbr m = .success
  · refine .inl ⟨(h.compare_iff hw hmbr).mp hdone.1, hdone.2, ?_⟩
    rw [bootloaderDfuSdUpdateContinue, h.sdImageValidate_eq hw hreg, Option.bind_some]
    exact if_pos hdone
  · refine .inr ?_
    generalize hwr : dfuCopySd mbr start softdeviceRegionStart size m = w at hcopy ⊢
    rw [bootloaderDfuSdUpdateContinue, h.sdImageValidate_eq hw hreg, Option.bind_some]
    refine (if_neg hdone).trans ?_
    rw [replay_nil, h.sdImageSwap_eq hw hreg, hwr, Option.bind_some]
    by_cases hs : w.1 = .success
    · obtain ⟨hw', hin⟩ := hcopy.success hs
      simp only [List.nil_append, h.sdImageValidate_placed hw' hmbr hin, hs, ne_eq,
        not_true_eq_false, if_false, Option.map_some, replay_nil, List.append_nil, checked]
    · simp only [List.nil_append, ne_eq, hs, not_false_eq_true, if_true, checked]

theorem checked_success (next : UpdateEnd) : checked .success next = next := rfl

/-- A boot that takes up the copy. -/
theorem boot_ok (h : SdPending m₀ start size bl) (hmbr : mbr.Sound)
    (hw : Within softdeviceRegionStart start m₀ m) (hreg : dfuBank0RegionStart m = start) :
    ∃ e ops, bootSdUpdate mbr m = some (some e, ops) ∧
      AtCuts (UpdateInv m₀ start size) ops m ∧
      EndOk mbr m₀ m (replay ops m) start size bl e := by
  have hboot : ∀ r, bootloaderDfuSdUpdateContinue mbr m = some r →
      bootSdUpdate mbr m = some (some r.1, withFinalize m r) := by
    intro r hr
    rw [bootSdUpdate, if_pos ((h.valid_iff hw).mpr hreg), hr, Option.map_some]
  obtain ⟨hin, hbl, hr⟩ | hr := h.continue_cases hmbr hw hreg
  · refine ⟨_, _, hboot _ hr, h.finalize_cuts hw hin, ?_⟩
    exact .done (h.finalize_placed hw hin).whole (h.finalize_invalid hw) (.inr (.inl hbl))
  have hran := h.copy_ran hmbr hw
  have hcuts : AtCuts (UpdateInv m₀ start size)
      (dfuCopySd mbr start softdeviceRegionStart size m).2 m := hran.cuts.mono fun _ => .copying
  refine ⟨_, _, hboot _ hr, ?_⟩
  by_cases hs : (dfuCopySd mbr start softdeviceRegionStart size m).1 = .success
  · obtain ⟨hw', hin⟩ := hran.success hs
    rw [hs, checked_success, h.blUpdateEnd_eq hw']
    split_ifs with hbl
    · exact ⟨hcuts, .copyBl hin hbl.1⟩
    · refine ⟨hcuts.append (h.finalize_cuts hw' hin), ?_⟩
      rw [withFinalize, replay_append]
      refine .done (h.finalize_placed hw' hin).whole (h.finalize_invalid hw') ?_
      by_cases h0 : bl = 0
      · exact .inl h0
      · refine .inr (.inr fun hreg' => hbl ⟨?_, h0⟩)
        exact (h.finalize_region hw').symm.trans hreg'
  · have hend : ∀ next, checked (dfuCopySd mbr start softdeviceRegionStart size m).1 next =
        .failed (dfuCopySd mbr start softdeviceRegionStart size m).1 := fun _ => if_pos hs
    rw [hend]
    exact ⟨hcuts, .failed hs⟩

end SdPending

/-! ## Power cuts -/

theorem cutBoot_inv (h : SdPending m₀ start size bl) (hmbr : mbr.Sound)
    (hinv : UpdateInv m₀ start size m) (k : Nat) :
    UpdateInv m₀ start size (cutBoot mbr m k) := by
  have hidle : bootloaderUpdateSettingsValid m (readSettings m) = false →
      cutBoot mbr m k = m := by
    intro hv
    rw [cutBoot, bootSdUpdate, if_neg (by rw [hv]; exact Bool.false_ne_true), cutAt_some,
      List.take_nil, replay_nil]
  cases hinv with
  | closing hsrc hin hv =>
    rw [hidle hv]
    exact .closing hsrc hin hv
  | copying hw =>
    cases hv : bootloaderUpdateSettingsValid m (readSettings m) with
    | false =>
      rw [hidle hv]
      exact .copying hw
    | true =>
      obtain ⟨e, ops, hr, hcuts, -⟩ := h.boot_ok hmbr hw ((h.valid_iff hw).mp hv)
      rw [cutBoot, hr, cutAt_some]
      exact hcuts k

/-- The old application does not outlive the start of an update: with the update pending, or its
image only half in place, no application is valid. -/
structure UpdateHeld (mbr : Mbr) (m₀ m : Mem) (start size bl : Nat) : Prop where
  source : ∀ x, start ≤ x → x < bootloaderSettingsAddress → m x = m₀ x
  app : ∀ chip, bootloaderAppIsValid chip m = true → InPlace m₀ start 0 size m
  given_up : bootloaderUpdateSettingsValid m (readSettings m) = false →
    InPlace m₀ start 0 size m ∨ dfuBank0RegionStart m ≠ start
  taken_up : bootloaderUpdateSettingsValid m (readSettings m) = true →
    ∃ e ops, bootSdUpdate mbr m = some (some e, ops) ∧
      EndOk mbr m₀ m (replay ops m) start size bl e

theorem UpdateInv.held (h : SdPending m₀ start size bl) (hmbr : mbr.Sound)
    (hinv : UpdateInv m₀ start size m) : UpdateHeld mbr m₀ m start size bl := by
  cases hinv with
  | closing hsrc hin hv =>
    refine ⟨hsrc, fun _ _ => hin, fun _ => .inl hin, fun hv' => ?_⟩
    rw [hv] at hv'
    cases hv'
  | copying hw =>
    refine ⟨fun x hx _ => hw x (.inr hx), fun chip happ => ?_, fun hv => .inr fun hreg => ?_,
      fun hv => ?_⟩
    · have hbank : (readSettings m).bank0 = bankValidSd := by
        rw [h.settings_eq hw]
        exact h.bank0
      simp [bootloaderAppIsValid, hbank, bankValidSd, bankValidApp] at happ
    · rw [(h.valid_iff hw).mpr hreg] at hv
      cases hv
    · obtain ⟨e, ops, hr, -, hend⟩ := h.boot_ok hmbr hw ((h.valid_iff hw).mp hv)
      exact ⟨e, ops, hr, hend⟩

/-- Boots lose power any number of times, in the copy or in the last write of the record: the
received image stays, no application is valid before the new SoftDevice is in place, and a boot
that takes the update up ends with it in place, or with the error that the boot record gave its
copy. -/
theorem sd_update_survives (hmbr : mbr.Sound) (h : SdPending m₀ start size bl) (ks : List Nat) :
    UpdateHeld mbr m₀ (ks.foldl (cutBoot mbr) m₀) start size bl := by
  have hstart : UpdateInv m₀ start size m₀ := .copying fun _ _ => rfl
  have hinv : UpdateInv m₀ start size (ks.foldl (cutBoot mbr) m₀) :=
    List.foldlRecOn ks _ hstart fun _ hm k _ => cutBoot_inv h hmbr hm k
  exact hinv.held h hmbr

/-- A SoftDevice of three pages, and a bootloader of one. -/
def waitingRecord : Settings where
  bank0 := bankValidSd
  bank1 := bankInvalidApp
  bank0Size := 0x4000
  sdImageSize := 0x3000
  blImageSize := 0x1000
  sdImageStart := 0x5000

def waitingFlash : Mem := fun a =>
  if 0x3004 ≤ a ∧ a < 0x300C then (put32 sdMagicNumber ++ put32 0x5000).getD (a - 0x3004) 0
  else if bootloaderSettingsAddress ≤ a then
    waitingRecord.sealed.bytes.getD (a - bootloaderSettingsAddress) 0
  else 0xFF

theorem waitingFlash_settings : readSettings waitingFlash = waitingRecord.sealed := by
  have hfits : waitingRecord.Fits := ⟨by decide, by decide, by decide, by decide, by decide⟩
  refine readSettings_eq hfits.sealed fun i _ => ?_
  have hsettings : bootloaderSettingsAddress = 0xFF000 := rfl
  rw [waitingFlash, if_neg (by omega), if_pos (Nat.le_add_right _ _), Nat.add_sub_cancel_left]

theorem waitingFlash_pending : SdPending waitingFlash 0x5000 0x3000 0x1000 := by
  have hreg : dfuBank0RegionStart waitingFlash = 0x5000 := by decide
  refine ⟨?_, ?_, ?_, ?_, ?_, by decide, by decide, by decide, by decide⟩ <;>
    rw [waitingFlash_settings]
  · rw [bootloaderUpdateSettingsValid, Settings.sealed_integrityValid, hreg]
    decide
  all_goals rfl

theorem sd_update_survives_waiting : UpdateHeld plainMbr waitingFlash
    ([0, 1, 400].foldl (cutBoot plainMbr) waitingFlash) 0x5000 0x3000 0x1000 :=
  sd_update_survives plainMbr_sound waitingFlash_pending [0, 1, 400]

end OtaFix
