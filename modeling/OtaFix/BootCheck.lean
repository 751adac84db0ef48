import OtaFix.Dfu.SingleBank
import OtaFix.SettingsCut
import OtaFix.Uf2.Staging

/-!
# What is committed boots

UF2 and DFU each validate an application by checks of their own, and
`bootloader_app_is_valid` checks it again at the next boot. The three agree on
an image that lies at the boundary the boot check reads from flash. An image
that writes a SoftDevice information header moves that boundary: the boot check
then reads its vectors elsewhere.
-/

namespace OtaFix

open Lib Uf2

/-! ## The record of an application -/

/-- The record in `m'` is `s`, stored completely over the flash `m`. -/
structure Stored (m m' : Mem) (s : Settings) : Prop where
  record : readSettings m' = s.sealed
  below : ∀ x, x < bootloaderSettingsAddress → m' x = m x

theorem bootloaderDfuUpdateProcess_stored {n : Nvm} {t : Transport} {st : UpdateStatus}
    {s : Settings} (h : updateSettings (readSettings n.mem) st = some s) (hs : s.Fits) :
    Stored n.mem (bootloaderDfuUpdateProcess n t st).mem s := by
  have hmem : (bootloaderDfuUpdateProcess n t st).mem = replay (bootloaderSettingsSave s) n.mem := by
    unfold bootloaderDfuUpdateProcess
    rw [h]
    simp only [Nvm.saveSettings]
    split <;> rfl
  rw [hmem]
  exact ⟨replay_bootloaderSettingsSave hs,
    fun x hx => replay_spares (bootloaderSettingsSave_spares s hx) n.mem⟩

/-- The boot check of a record for `size` bytes with this CRC, stored over `m`. -/
def bootAccepts (chip : Chip) (m : Mem) (size : Nat) (crc : BitVec 16) : Bool :=
  let start := dfuBank0RegionStart m
  vectorValid chip m start && size ≠ 0 && size ≤ sub32 bootloaderRegionStart start &&
    readWord m (start + 4) - readWord m (start + 4) % 2 < add32 start size &&
    crc16 (slice m start size) = crc

variable {chip : Chip} {m m₀ m' : Mem} {s : Settings} {start size : Nat} {crc : BitVec 16}

theorem Stored.regionStart (h : Stored m m' s) : dfuBank0RegionStart m' = dfuBank0RegionStart m := by
  have hs : bootloaderSettingsAddress = 0xFF000 := rfl
  have hword : ∀ a, a < 0x4000 → readWord m' a = readWord m a := by
    intro a ha
    refine readWord_congr fun x _ hx => h.below x ?_
    omega
  unfold dfuBank0RegionStart isSdExisted
  rw [hword sdMagicAddr (by decide), hword sdSizeAddr (by decide)]

/-- Vectors that pass the check lie below the bootloader. -/
theorem vectorValid_lt (h : vectorValid chip m start = true) : start < bootloaderRegionStart := by
  simp only [vectorValid, Bool.and_eq_true, decide_eq_true_eq] at h
  omega

theorem Stored.vectors (h : Stored m m' s) (hlt : start < bootloaderRegionStart) :
    readWord m' start = readWord m start ∧ readWord m' (start + 4) = readWord m (start + 4) := by
  have hs : bootloaderSettingsAddress = 0xFF000 := rfl
  have hr : bootloaderRegionStart = 0xF4000 := rfl
  constructor <;> refine readWord_congr fun x _ hx => h.below x ?_ <;> omega

theorem Stored.vectorValid (h : Stored m m' s) (start : Nat) :
    vectorValid chip m' start = vectorValid chip m start := by
  by_cases hlt : start < bootloaderRegionStart
  · obtain ⟨h1, h2⟩ := h.vectors hlt
    unfold OtaFix.vectorValid
    rw [h1, h2]
  · cases hv : OtaFix.vectorValid chip m start with
    | true => exact absurd (vectorValid_lt hv) hlt
    | false =>
      cases hv' : OtaFix.vectorValid chip m' start with
      | true => exact absurd (vectorValid_lt hv') hlt
      | false => rfl

/-- The boot check of a stored application record. -/
theorem bootloaderAppIsValid_stored (h : Stored m m' s) (hbank : s.bank0 = bankValidApp) :
    bootloaderAppIsValid chip m' = bootAccepts chip m s.bank0Size s.bank0Crc := by
  have hlegacy : s.sealed.isLegacy = false := Settings.sealed_not_legacy s rfl rfl
  have hint : s.sealed.integrityValid = true := s.sealed_integrityValid
  have hb : s.sealed.bank0 = bankValidApp := hbank
  have hr : bootloaderRegionStart = 0xF4000 := rfl
  have hset : bootloaderSettingsAddress = 0xFF000 := rfl
  unfold bootloaderAppIsValid bootAccepts
  simp only
  rw [h.regionStart, h.record, h.vectorValid, hb]
  cases hv : vectorValid chip m (dfuBank0RegionStart m) with
  | false => rfl
  | true =>
    have hlt := vectorValid_lt hv
    generalize dfuBank0RegionStart m = start at hlt
    simp only [hint, Bool.not_true, Bool.false_eq_true, if_false, if_true, Bool.true_and]
    unfold recordMatches
    simp only [hlegacy, Bool.false_and, Bool.not_false, Bool.true_and, (h.vectors hlt).2,
      Bool.false_eq_true, if_false]
    rw [show s.sealed.bank0Size = s.bank0Size from rfl, show s.sealed.bank0Crc = s.bank0Crc from rfl]
    have hsub : sub32 bootloaderRegionStart start = bootloaderRegionStart - start := by
      unfold sub32
      omega
    by_cases hsz : s.bank0Size = 0
    · simp [hsz]
    by_cases hmax : bootloaderRegionStart - start < s.bank0Size
    · simp [hsub, hmax]
    have hslice : slice m' start s.bank0Size = slice m start s.bank0Size :=
      slice_congr fun x h1 h2 => h.below x (by omega)
    rw [hslice]
    generalize readWord m (start + 4) - readWord m (start + 4) % 2 = resetCode
    by_cases hreset : add32 start s.bank0Size ≤ resetCode
    · simp [hreset]
    · simp [hsz, hsub, hmax, hreset, Nat.le_of_not_lt hmax, Nat.lt_of_not_le hreset]

/-- An application record asks for no SoftDevice or bootloader swap. -/
theorem bootloaderUpdateSettingsValid_app (h : Stored m m' s) (hbank : s.bank0 = bankValidApp)
    (hbank1 : s.bank1 = bankInvalidApp) :
    bootloaderUpdateSettingsValid m' (readSettings m') = false := by
  have h0 : s.sealed.bank0 = bankValidApp := hbank
  have h1 : s.sealed.bank1 = bankInvalidApp := hbank1
  unfold bootloaderUpdateSettingsValid
  rw [h.record, h0, h1]
  simp [bankValidApp, bankValidSd, bankInvalidApp, bankValidBoot]

/-! ## The validators -/

/-- What every validator asks of an application at `start`. -/
structure Runnable (chip : Chip) (m : Mem) (start size : Nat) : Prop where
  size_pos : 0 < size
  end_le : start + size ≤ bootloaderRegionStart
  sp_ram : ramStart ≤ readWord m start ∧ readWord m start ≤ chip.ramEnd
  sp_aligned : readWord m start % 8 = 0
  reset_thumb : readWord m (start + 4) % 2 = 1
  reset_inside : start ≤ readWord m (start + 4) - 1 ∧ readWord m (start + 4) - 1 < start + size

theorem Runnable.accepted (h : Runnable chip m (dfuBank0RegionStart m) size) :
    bootAccepts chip m size (crc16 (slice m (dfuBank0RegionStart m) size)) = true := by
  obtain ⟨h1, h2, ⟨h3, h4⟩, h5, h6, h7, h8⟩ := h
  have hr : bootloaderRegionStart = 0xF4000 := rfl
  have he : emptyFlash = 0xFFFFFFFF := rfl
  unfold bootAccepts vectorValid
  simp only [Bool.and_eq_true, decide_eq_true_eq]
  generalize dfuBank0RegionStart m = start at h2 h3 h4 h5 h6 h7 h8
  have hsub : sub32 bootloaderRegionStart start = bootloaderRegionStart - start := by
    unfold sub32
    omega
  have hadd : add32 start size = start + size := add32_eq (by omega)
  rw [hsub, hadd]
  refine ⟨⟨⟨⟨⟨⟨⟨⟨⟨⟨⟨?_, ?_⟩, h3⟩, h4⟩, h5⟩, h6⟩, ?_⟩, ?_⟩, ?_⟩, ?_⟩, ?_⟩, trivial⟩ <;> omega

/-- The final check of a UF2 transfer. -/
theorem applicationFinalize_runnable {mask : List Byte} {stop : Nat}
    (h : applicationFinalize mask start stop (vectorWord m start 0) (vectorWord m start 4)
      chip.ramEnd = some size) : Runnable chip m start size := by
  unfold applicationFinalize at h
  split at h
  · cases h
  rename_i hrange
  simp only at h
  split at h
  · cases h
  rename_i hvec
  simp only [not_or] at hrange hvec
  obtain ⟨-, hend, hstart, -⟩ := hrange
  obtain ⟨h8, hsp1, hsp2, hsp3, hr1, hr2, hr3⟩ := hvec
  obtain rfl := Option.some.inj h
  have he : userFlashEnd = 0xEA000 := rfl
  have hr : bootloaderRegionStart = 0xF4000 := rfl
  have hlt : start < userFlashEnd := by omega
  simp only [vectorWord, hlt, if_true, Nat.add_zero] at hsp1 hsp2 hsp3 hr1 hr2 hr3
  exact ⟨by omega, by omega, ⟨by omega, by omega⟩, by omega, by omega, by omega, by omega⟩

/-- The image policy on an application at the boundary. -/
theorem bootloaderImageVectorsValid_runnable (hram : chip.ficrRam = 256)
    (hend : start + size ≤ bootloaderRegionStart)
    (h : bootloaderImageVectorsValid (slice m start size) start size = true) :
    Runnable chip m start size := by
  have hramEnd : chip.ramEnd = 0x20040000 := by
    simp [Chip.ramEnd, hram, add32, ramStart]
  unfold bootloaderImageVectorsValid at h
  rw [slice_length] at h
  split at h
  · cases h
  rename_i hlen
  rw [wordAt_slice (by omega), wordAt_slice (by omega), Nat.add_zero] at h
  simp only [Bool.and_eq_true, decide_eq_true_eq] at h
  obtain ⟨⟨⟨⟨⟨h1, h2⟩, h3⟩, h4⟩, h5⟩, h6⟩ := h
  exact ⟨by omega, hend, ⟨h2, by rw [hramEnd]; exact h3⟩, h1, h4, by omega, by omega⟩

/-! ## Validated images -/

/-- The `SECURE_DFU_TEST` branch of `dfu_image_validate`: the digest of the signed command
takes the place of the init packet. -/
def dfuSecureImageValidate (board : Board) (digest : List Byte) (m : Mem) (d : Dfu) :
    NrfError × Dfu :=
  if d.state ≠ .rxDataPkt then (.invalidState, d)
  else if d.dataReceived ≠ d.imageSize then (.invalidState, d)
  else
    let d := { d with state := .validate }
    let image := slice m d.blockId d.imageSize
    if d.timedOut then (.invalidState, d)
    else
      let d := { d with imageCrc := crc16 image }
      if sha256 image ≠ digest then (.invalidData, d)
      else
        let r := dfuImagePolicyValidate board m image d.startPacket
        if r ≠ .success then (r, d) else (.success, { d with state := .wait4Activate })

/-- An application image that a transport has validated at `start`: the flash `m₀` of its
START packet, or of the sector that completed it, the flash `m` it was validated in, and
the status it commits. -/
inductive Validated (chip : Chip) : Mem → Mem → Nat → UpdateStatus → Prop where
  | uf2 {cfg : Config} {lba : Nat} {sec : Sector} {ws : WriteState} {c : FlashCache} {m₀ : Mem}
      {out : Outcome} (hchip : cfg.chip = chip) (hd : Dims ws)
      (hout : writeBlock cfg lba sec ws c m₀ = some out) (hnew : ws.appValidated = false)
      (hval : out.ws.appValidated = true) :
      Validated chip m₀ (replay out.ops m₀) out.ws.appStart
        (appUpdateStatus out.ws (replay out.ops m₀))
  | dfu {cfg : DfuConfig} {p : StartPacket} {m₀ m : Mem} {d₀ d₁ d d' : Dfu}
      (hstart : dfuStartAdmit p m₀ d₀ = (.success, d₁)) (hp : d.startPacket = p)
      (hsize : d.imageSize = d₁.imageSize) (happ : p.dfuUpdateMode = dfuUpdateApp)
      (hval : dfuImageValidate cfg m d = (.success, d')) :
      Validated chip m₀ m d.blockId (dfuActivateStatus m d')
  | secureDfu {board : Board} {digest : List Byte} {p : StartPacket} {m₀ m : Mem}
      {d₀ d₁ d d' : Dfu} (hstart : dfuStartAdmit p m₀ d₀ = (.success, d₁))
      (hp : d.startPacket = p) (hsize : d.imageSize = d₁.imageSize)
      (happ : p.dfuUpdateMode = dfuUpdateApp)
      (hval : dfuSecureImageValidate board digest m d = (.success, d')) :
      Validated chip m₀ m d.blockId (dfuActivateStatus m d')

/-- The boundary is `start` throughout, and inside user flash. -/
structure Unmoved (m₀ m : Mem) (start : Nat) : Prop where
  before : dfuBank0RegionStart m₀ = start
  after : dfuBank0RegionStart m = start
  user : start ≤ userFlashEnd

theorem dfuStartAdmit_size {p : StartPacket} {d₀ d₁ : Dfu}
    (h : dfuStartAdmit p m₀ d₀ = (.success, d₁)) :
    dfuStartPacketValidate p = .ok d₁.imageSize ∧ d₁.imageSize ≤ dfuImageMaxSizeFull m₀ := by
  unfold dfuStartAdmit at h
  split at h
  · cases h
  simp only at h
  split at h
  · rename_i e he
    obtain ⟨rfl, -⟩ := Prod.mk.inj h
    unfold dfuStartPacketValidate at he
    split_ifs at he <;> cases he
  · rename_i size hsize
    split_ifs at h with hmax htimeout
    · cases h
    · cases h
    · obtain ⟨-, rfl⟩ := Prod.mk.inj h
      exact ⟨hsize, Nat.le_of_not_lt hmax⟩

/-- An application packet is all application. -/
theorem dfuStartPacketValidate_app {p : StartPacket} (h : dfuStartPacketValidate p = .ok size)
    (happ : p.dfuUpdateMode = dfuUpdateApp) : p.appImageSize = size ∧ size < 2 ^ 32 := by
  unfold dfuStartPacketValidate at h
  split_ifs at h with h1 h2
  have hok := Except.ok.inj h
  simp only [not_or, not_not] at h1
  have hmode := h1.2.2.1
  rw [happ] at hmode
  unfold StartPacket.populatedMode at hmode
  have hsd : dfuUpdateSd = 1 := rfl
  have hbl : dfuUpdateBl = 2 := rfl
  have happ' : dfuUpdateApp = 4 := rfl
  rw [hsd, hbl, happ'] at hmode
  split_ifs at hmode <;> omega

/-- What DFU leaves when it has validated an application. -/
structure PolicyMet (board : Board) (m : Mem) (d d' : Dfu) : Prop where
  packet : d'.startPacket = d.startPacket
  crc : d'.imageCrc = crc16 (slice m d.blockId d.imageSize)
  policy : dfuImagePolicyValidate board m (slice m d.blockId d.imageSize) d.startPacket = .success

theorem dfuImageValidate_met {cfg : DfuConfig} {d d' : Dfu}
    (h : dfuImageValidate cfg m d = (.success, d')) : PolicyMet cfg.board m d d' := by
  unfold dfuImageValidate at h
  split at h
  · cases h
  split at h
  · cases h
  simp only at h
  split at h
  · cases h
  split at h
  · cases h
  rename_i crc hcrc
  have hcrc' : crc = crc16 (slice m d.blockId d.imageSize) := by
    unfold dfuInitPostvalidate at hcrc
    split_ifs at hcrc <;> exact (Option.some.inj hcrc).symm
  split_ifs at h with hpol
  · exact absurd (Prod.mk.inj h).1 hpol
  · obtain ⟨-, rfl⟩ := Prod.mk.inj h
    exact ⟨rfl, hcrc', not_not.mp hpol⟩

theorem dfuSecureImageValidate_met {board : Board} {digest : List Byte} {d d' : Dfu}
    (h : dfuSecureImageValidate board digest m d = (.success, d')) : PolicyMet board m d d' := by
  unfold dfuSecureImageValidate at h
  simp only at h
  split_ifs at h with _ _ _ _ hpol
  · cases h
  · cases h
  · cases h
  · cases h
  · exact absurd (Prod.mk.inj h).1 hpol
  · obtain ⟨-, rfl⟩ := Prod.mk.inj h
    exact ⟨rfl, rfl, not_not.mp hpol⟩

/-- An application of DFU that START admitted and the policy accepted. -/
theorem PolicyMet.runnable {board : Board} {p : StartPacket} {d₀ d₁ d d' : Dfu}
    (hmet : PolicyMet board m d d') (hram : chip.ficrRam = 256)
    (hstart : dfuStartAdmit p m₀ d₀ = (.success, d₁)) (hp : d.startPacket = p)
    (hsize : d.imageSize = d₁.imageSize) (happ : p.dfuUpdateMode = dfuUpdateApp)
    (hun : Unmoved m₀ m d.blockId) : Runnable chip m d.blockId d.imageSize := by
  obtain ⟨hvalid, hmax⟩ := dfuStartAdmit_size hstart
  obtain ⟨hbefore, hafter, huser⟩ := hun
  have hpolicy := hmet.policy
  rw [hp] at hpolicy
  unfold dfuImagePolicyValidate at hpolicy
  rw [hvalid, slice_length, hafter, if_pos happ] at hpolicy
  simp only at hpolicy
  rw [if_neg (by rw [hsize]; exact fun h => h rfl)] at hpolicy
  split at hpolicy
  · rename_i hvec
    refine bootloaderImageVectorsValid_runnable hram ?_ hvec
    have hr : bootloaderRegionStart = 0xF4000 := rfl
    have he : userFlashEnd = 0xEA000 := rfl
    have hres : dfuAppDataReserved = 0xA000 := rfl
    unfold dfuImageMaxSizeFull sub32 at hmax
    rw [hbefore] at hmax
    omega
  · cases hpolicy

/-- The status that commits an application: its size, and the CRC of the flash it lies in. -/
theorem Validated.status {st : UpdateStatus} (h : Validated chip m₀ m start st) :
    ∃ size, size < 2 ^ 32 ∧ st = .appComplete (crc16 (slice m start size)) size ∧
      (chip.ficrRam = 256 → Unmoved m₀ m start → Runnable chip m start size) := by
  have hdfu : ∀ {board : Board} {p : StartPacket} {d₀ d₁ d d' : Dfu}, PolicyMet board m d d' →
      dfuStartAdmit p m₀ d₀ = (.success, d₁) → d.startPacket = p → d.imageSize = d₁.imageSize →
      p.dfuUpdateMode = dfuUpdateApp →
      ∃ size, size < 2 ^ 32 ∧
        dfuActivateStatus m d' = .appComplete (crc16 (slice m d.blockId size)) size ∧
        (chip.ficrRam = 256 → Unmoved m₀ m d.blockId → Runnable chip m d.blockId size) := by
    intro board p d₀ d₁ d d' hmet hstart hp hsize happ
    obtain ⟨happsize, hlt⟩ := dfuStartPacketValidate_app (dfuStartAdmit_size hstart).1 happ
    refine ⟨d.imageSize, by rw [hsize]; exact hlt, ?_,
      fun hram hun => hmet.runnable hram hstart hp hsize happ hun⟩
    unfold dfuActivateStatus
    simp only [hmet.packet, hp, happ, hmet.crc, happsize, hsize]
    rfl
  cases h with
  | @uf2 cfg lba sec ws c m₀ out hchip hd hout hnew hval =>
    obtain ⟨hstart, stop, hfin⟩ := writeBlock_validates hd hout hnew hval
    rw [hchip] at hfin
    have hrun := applicationFinalize_runnable hfin
    rw [hstart]
    have hend := hrun.end_le
    have hr : bootloaderRegionStart = 0xF4000 := rfl
    refine ⟨out.ws.appSize, by omega, ?_, fun _ _ => hrun⟩
    unfold appUpdateStatus
    rw [hstart, appCrcLoop_eq (Nat.zero_le _) (Nat.sub_le _ _) hrun.size_pos
      (fun h => absurd h (Nat.lt_irrefl 0))]
  | dfu hstart hp hsize happ hval =>
    exact hdfu (dfuImageValidate_met hval) hstart hp hsize happ
  | secureDfu hstart hp hsize happ hval =>
    exact hdfu (dfuSecureImageValidate_met hval) hstart hp hsize happ

/-- A validated application boots from its stored record if the image has not moved the
boundary. Where it has, the boot check reads whatever lies at the new one. -/
theorem commit_boots {st : UpdateStatus} (hram : chip.ficrRam = 256)
    (hval : Validated chip m₀ m start st) (hun : Unmoved m₀ m start)
    (hrec : updateSettings (readSettings m) st = some s) (hst : Stored m m' s) :
    bootloaderAppIsValid chip m' = true ∧
      bootloaderUpdateSettingsValid m' (readSettings m') = false := by
  obtain ⟨size, -, rfl, hrun⟩ := hval.status
  obtain rfl := Option.some.inj hrec
  refine ⟨?_, bootloaderUpdateSettingsValid_app hst rfl rfl⟩
  rw [bootloaderAppIsValid_stored hst rfl]
  have hrun' := hrun hram hun
  obtain rfl := hun.after
  exact hrun'.accepted

/-! ## Two images -/

/-- The record of a complete application fits its words. -/
theorem updateSettings_app (m : Mem) (crc : BitVec 16) (hsize : size < 2 ^ 32) :
    ∃ s, updateSettings (readSettings m) (.appComplete crc size) = some s ∧ s.Fits ∧
      s.bank0 = bankValidApp := by
  have hpos : 0 < 2 ^ 32 := Nat.two_pow_pos 32
  exact ⟨_, rfl, ⟨hsize, hpos, hpos, hpos, hpos⟩, rfl⟩

/-- The session before the last sector of the one-block image. -/
def copiedSession : AppSession :=
  ((offered imageSector).take 2).foldl (appStep sampleConfig) (appInit {} sdFlash)

theorem dims_of_lengths {ws : WriteState} (h : (ws.writtenMask.length, ws.targetMask.length,
    ws.appErasedMask.length) = (525, 512, 30)) : Dims ws := by
  obtain ⟨h1, h2⟩ := Prod.mk.inj h
  obtain ⟨h2, h3⟩ := Prod.mk.inj h2
  exact ⟨h1, h2, h3⟩

/-- The one-block image behind the SoftDevice boots. -/
theorem commit_boots_copied : ∃ m m', Validated ⟨256⟩ copiedSession.flash m 0x26000
      (.appComplete (crc16 (slice m 0x26000 256)) 256) ∧ Unmoved copiedSession.flash m 0x26000 ∧
    bootloaderAppIsValid ⟨256⟩ m' = true := by
  have hrun : (writeBlock sampleConfig 100 imageSector copiedSession.ws copiedSession.cache
      copiedSession.flash).map (fun out => (out.ws.appValidated, out.ws.appStart, out.ws.appSize,
        dfuBank0RegionStart (replay out.ops copiedSession.flash))) =
          some (true, 0x26000, 256, 0x26000) := by
    decide +kernel
  obtain ⟨out, hout, hfields⟩ := Option.map_eq_some_iff.mp hrun
  simp only [Prod.mk.injEq] at hfields
  obtain ⟨hval, hstart, hsize, hbase⟩ := hfields
  have hv : Validated ⟨256⟩ _ _ _ _ := .uf2 rfl (dims_of_lengths (by decide +kernel)) hout
    (by decide +kernel) hval
  have hun : Unmoved copiedSession.flash (replay out.ops copiedSession.flash) 0x26000 :=
    ⟨by decide +kernel, hbase, by decide⟩
  rw [hstart] at hv
  obtain ⟨size, hlt, hst, -⟩ := hv.status
  have hsz : size = 256 := by
    have hinj := UpdateStatus.appComplete.inj hst
    rw [hsize] at hinj
    exact hinj.2.symm
  subst hsz
  rw [hst] at hv
  obtain ⟨s, hs, hfits, -⟩ := updateSettings_app (replay out.ops copiedSession.flash)
    (crc16 (slice (replay out.ops copiedSession.flash) 0x26000 256)) hlt
  have hstored := bootloaderDfuUpdateProcess_stored
    (n := ⟨{}, replay out.ops copiedSession.flash, []⟩) (t := .uf2) hs hfits
  exact ⟨_, _, hv, hun, (commit_boots rfl hv hun hs hstored).1⟩

/-- Block `k` of an image of 33 blocks without a SoftDevice: the vectors first, and last a
block with a SoftDevice information header. -/
def headerBlock (k : Nat) : Sector :=
  appSector (0x1000 + k * 256) k 33
    (if k = 0 then put32 0x20001000 ++ put32 0x1009
      else if k = 32 then put32 0 ++ put32 sdMagicNumber ++ put32 0x26000
      else List.replicate 256 0xFF)

/-- The first call clears the settings word; a page is erased before its first block. -/
def headerImageRun : List SectorWrite :=
  ⟨100, headerBlock 0⟩ :: ((List.range 32).flatMap fun k =>
    if k % 16 = 0 then [⟨100, headerBlock k⟩, ⟨100, headerBlock k⟩] else [⟨100, headerBlock k⟩]) ++
  [⟨100, headerBlock 32⟩]

def headerSession : AppSession := headerImageRun.foldl (appStep sampleConfig) (appInit {} bareFlash)

/-- The last block moves the boundary to erased flash: the committed image does not boot. -/
theorem commit_boots_header :
    ¬ ∀ (chip : Chip) (m₀ m : Mem) (start : Nat) (st : UpdateStatus) (s : Settings) (m' : Mem),
      chip.ficrRam = 256 → Validated chip m₀ m start st →
      updateSettings (readSettings m) st = some s → Stored m m' s →
      bootloaderAppIsValid chip m' = true ∧
        bootloaderUpdateSettingsValid m' (readSettings m') = false := by
  intro hall
  have hrun : (headerSession.ws.writtenMask.length, headerSession.ws.targetMask.length,
      headerSession.ws.appErasedMask.length) = (525, 512, 30) ∧
      headerSession.ws.appValidated = false ∧
      (writeBlock sampleConfig 100 (headerBlock 32) headerSession.ws headerSession.cache
        headerSession.flash).map (fun out => (out.ws.appValidated, out.ws.appSize,
          dfuBank0RegionStart (replay out.ops headerSession.flash),
          readWord (replay out.ops headerSession.flash) 0x26000)) =
            some (true, 0x2100, 0x26000, emptyFlash) := by
    decide +kernel
  obtain ⟨hlen, hnew, hrun⟩ := hrun
  obtain ⟨out, hout, hfields⟩ := Option.map_eq_some_iff.mp hrun
  simp only [Prod.mk.injEq] at hfields
  obtain ⟨hval, hsize, hbase, hsp⟩ := hfields
  have hv : Validated ⟨256⟩ _ _ _ _ := .uf2 rfl (dims_of_lengths hlen) hout hnew hval
  obtain ⟨size, hlt, hst, -⟩ := hv.status
  rw [hst] at hv
  obtain ⟨s, hs, hfits, hbank⟩ := updateSettings_app (replay out.ops headerSession.flash)
    (crc16 (slice (replay out.ops headerSession.flash) out.ws.appStart size)) hlt
  have hstored := bootloaderDfuUpdateProcess_stored
    (n := ⟨{}, replay out.ops headerSession.flash, []⟩) (t := .uf2) hs hfits
  have hboots := (hall _ _ _ _ _ _ _ rfl hv hs hstored).1
  rw [bootloaderAppIsValid_stored hstored hbank] at hboots
  simp [bootAccepts, vectorValid, hbase, hsp] at hboots

end OtaFix
