import OtaFix.Mota.Caps
import OtaFix.Mota.CopyImage
import OtaFix.Mota.Scan
import OtaFix.Mota.Working
import OtaFix.Compat

/-!
# Bootloader updates that go through

A package in the internal slot that passes every check is installed: on working flash its
payload is copied to the start of the slot, and the MBR is told to copy it from there
(`otaDeltaCheckAndApply_installs`).
-/

namespace OtaFix.Mota

open Lib Prog

variable {env : Env} {cfg : Profile} {s s' s0 : Device} {m : MotaMin} {f : Mem} {lo hi : Nat}

/-! ## The hash of a staged image -/

theorem shaChunks_flash (h : Internal cfg s.statics) (fuel addr len : Nat) (c : Sha256.Ctx)
    (hfuel : len ≤ 256 * fuel) :
    (shaChunks cfg true none fuel addr len c).Sat (handler env) (Reads cfg)
      (fun r s' => r = some (Sha256.update c (slice s.mem addr len)) ∧ Still s s') s := by
  induction fuel generalizing addr len c s with
  | zero =>
    obtain rfl : len = 0 := by omega
    exact ⟨rfl, .refl s⟩
  | succ fuel ih =>
    unfold shaChunks
    by_cases h0 : len = 0
    · rw [if_pos h0, h0]
      exact ⟨rfl, .refl s⟩
    rw [if_neg h0]
    simp only
    refine (stagedRead_flash h addr (min len 256)).bind fun r s1 h1 => ?_
    obtain ⟨rfl, hstill⟩ := h1
    refine (ih (h.still hstill) _ _ _ (by omega)).post fun r s' h' => ⟨?_, hstill.trans h'.2⟩
    rw [h'.1, hstill.mem, normalizeApproval, ← Sha256.update_append, ← slice_add,
      Nat.add_sub_cancel' (Nat.min_le_left _ _)]

theorem fullImageHashValid_flash (h : Internal cfg s.statics) (m : MotaMin) (addr : Nat) :
    (fullImageHashValid cfg m addr true).Sat (handler env) (Reads cfg)
      (fun r s' => r = decide (sha256 (slice s.mem addr m.imageSize) = m.imageHash) ∧ Still s s')
      s := by
  refine Sat.bind ((shaChunks_flash h _ addr m.imageSize Sha256.init (by omega)).bind
    (R := fun r s' => r = some (sha256 (slice s.mem addr m.imageSize)) ∧ Still s s')
    fun r s1 h1 => ?_) fun r s2 h2 => ?_
  · obtain ⟨rfl, hstill⟩ := h1
    exact ⟨rfl, hstill⟩
  · obtain ⟨rfl, hstill⟩ := h2
    exact ⟨by simp, hstill⟩

/-! ## The copy -/

/-- Four zeros over the approval bytes. -/
def withoutMark (m : MotaMin) (f : Mem) : Mem := overlay f m.approvalAddr [0, 0, 0, 0]

/-- The approval is cleared in flash. -/
theorem clearApproval_flash (h : Internal cfg s.statics) (hfault : ∀ n, env.fault n = .ok)
    (hws : Pages lo hi) (hlow : lo ≤ m.approvalAddr) (hhigh : m.approvalAddr + 4 ≤ hi)
    (hempty : CacheEmpty s.statics) (hm : .pageFailed ∉ s.marks) :
    (clearApproval cfg m).Sat (handler env) (fun _ _ => True) (fun r s' => r = true ∧
      Touched lo hi s s' ∧ s'.marks = s.marks ∧ s'.mem = withoutMark m s.mem) s := by
  have hget : Still s (after env .get s) := still_after (show Reads cfg .get s from trivial)
  have hhigh : m.approvalAddr + [0#8, 0#8, 0#8, 0#8].length ≤ hi := hhigh
  refine sat_get.mpr ⟨trivial, ?_⟩
  rw [if_neg (by rw [h.sd]; decide), if_neg (by rw [h.qspi]; decide)]
  refine (cwrite_shows hfault hws hm hlow hhigh ((hempty.keeps hget.cache).shows hget)).bind
    fun r s1 h1 => ?_
  obtain ⟨rfl, hshow⟩ := h1
  exact cacheFlush_shows hfault hm hshow

/-- On working flash the copy of an image that fills its pages ends in place. -/
theorem copyStagedFullImage_flash {destination : Nat} (h : OnFlash cfg s m destination)
    (hfault : ∀ n, env.fault n = .ok) (hdest : destination % codePageSize = 0)
    (hround : pageRoundUp m.imageSize = m.imageSize) (hlen : s.statics.cache.length = codePageSize)
    (hm : .pageFailed ∉ s.marks) :
    (copyStagedFullImage cfg m destination).Sat (handler env) (fun _ _ => True) (fun r s' =>
      r = 0 ∧ slice s'.mem destination m.imageSize = slice s.mem m.payloadAddr m.imageSize ∧
      ∀ x, x < destination ∨ destination + m.imageSize ≤ x → s'.mem x = s.mem x) s := by
  have hworks : (copyStagedFullImage cfg m destination).Sat (handler env) _ _ s :=
    (works_copyPages hfault (m.imageSize / codePageSize + 1) 0 s hlen).keep
      (I := fun s => Mark.pageFailed ∉ s.marks) hm fun _ _ ho h => marks_without_failed ho h
  refine (hworks.and sat_run).mono (fun _ _ _ => trivial) fun r s' h' => ?_
  obtain ⟨⟨-, hnone⟩, hrun⟩ := h'
  obtain ⟨hr, hcopied, hout⟩ := (copy_staged_full_image_copies hdest (.inl h) hm hrun).1 hnone
  have hsource : sourceByte env cfg s = s.mem := by
    funext x
    simp [sourceByte, h.sd, h.hybrid, h.qspi]
  rw [hround] at hcopied hout
  refine ⟨hr, ?_, hout⟩
  refine List.map_congr_left fun i hi => ?_
  rw [hcopied i (List.mem_range.mp hi), hsource, imageByte, if_pos (List.mem_range.mp hi)]

/-! ## The installation -/

/-- An approved package in the slot that passes every check, and no container above it. -/
structure InSlot (cfg : Profile) (f : Mem) (m : MotaMin) : Prop where
  hit : Hit cfg f internalBlSlotEnd internalBlSlotStart m
  top : ∀ j m', internalBlSlotStart < j * codePageSize → j * codePageSize < internalBlSlotEnd →
    ¬ Hit cfg f internalBlSlotEnd (j * codePageSize) m'
  approved : m.approved = true
  policy : bootUpdatePolicyValid cfg m = true
  vectors : bootVectorsValid cfg (slice f m.payloadAddr 8) = true
  hash : sha256 (slice f m.payloadAddr motaBlSize) = m.imageHash
  fits : otaDeltaLiveAppFitsBelow f internalBlSlotStart = true
  metadata : bootImageMetadataValidAt cfg f m.payloadAddr m = true

/-- The slot holds the image of the package in `f`, and the MBR was told to copy it. -/
structure HandedOver (f : Mem) (m : MotaMin) (s : Device) : Prop where
  image : slice s.mem internalBlSlotStart motaBlSize = slice f m.payloadAddr motaBlSize
  mbr : internalBlSlotStart ∈ s.mbr

theorem InSlot.layout (h : InSlot cfg f m) : m.approvalAddr = internalBlSlotStart + approvalOffset ∧
    internalBlSlotStart + motaHeaderLen ≤ m.payloadAddr := by
  obtain ⟨c, -, -, -, rfl⟩ := containerAt_eq_some.mp h.hit.1
  exact ⟨rfl, Nat.add_le_add_left (Nat.le_add_right _ _) _⟩

/-- What the metadata of an image is compared with lies in the SoftDevice. -/
theorem bootImageMetadataValid_congr {f' : Mem} (hsame : ∀ x, x < internalBlSlotStart → f' x = f x)
    (image : List Byte) :
    bootImageMetadataValid cfg f' image m = bootImageMetadataValid cfg f image m := by
  have hslot : internalBlSlotStart = 0xE2000 := rfl
  have hstart : dfuBank0RegionStart f' = dfuBank0RegionStart f :=
    regionStart_congr fun x _ h2 => hsame x (by unfold sdSizeAddr at h2; omega)
  have hhalf : readHalf f' sdFwidAddr = readHalf f sdFwidAddr :=
    readHalf_congr fun x _ h2 => hsame x (by unfold sdFwidAddr at h2; omega)
  unfold bootImageMetadataValid
  rw [hstart, hhalf]

theorem slice_withoutMark {a n : Nat} (h : m.approvalAddr + 4 ≤ a) :
    slice (withoutMark m f) a n = slice f a n :=
  slice_congr fun _ hx _ => overlay_outside (.inr (Nat.le_trans h hx))

theorem installBootloader_flash (hslot : InSlot cfg s.mem m) (h : Internal cfg s.statics)
    (hsd : cfg.sdBootloaderUpdate = false) (hqspi : cfg.qspiBootloaderUpdate = false)
    (hfault : ∀ n, env.fault n = .ok) (hempty : CacheEmpty s.statics)
    (hm : .pageFailed ∉ s.marks) :
    (installBootloader cfg m internalBlSlotStart).Sat (handler env) (fun _ _ => True)
      (fun r s' => r = env.mbrCopies ∧ HandedOver s.mem m s') s := by
  have hsize := bootUpdatePolicyValid_size hslot.policy
  have hstart : internalBlSlotStart = 0xE2000 := rfl
  have hbl : motaBlSize = 0xA000 := rfl
  have hoffset : approvalOffset = 201 := rfl
  have hheader : motaHeaderLen = 205 := rfl
  obtain ⟨happroval, hpayload⟩ := hslot.layout
  have hpages : Pages internalBlSlotStart (internalBlSlotStart + motaBlSize) :=
    ⟨by decide, by decide, by decide, by decide⟩
  refine (clearApproval_flash h hfault hpages (by omega) (by omega) hempty hm).bind
    fun r s1 h1 => ?_
  obtain ⟨rfl, ht, hmarks, hmem⟩ := h1
  have hsource := ht.source
  have hon : OnFlash cfg s1 m internalBlSlotStart :=
    ⟨(hsource.sdSelected cfg).trans h.sd, (hsource.hybridSelected cfg).trans h.hybrid,
      (hsource.qspiSelected cfg).trans h.qspi, by omega⟩
  have hlen : s1.statics.cache.length = codePageSize :=
    (ht.cache (hempty.cacheIn internalBlSlotStart (internalBlSlotStart + motaBlSize))).length
  have hround : pageRoundUp m.imageSize = m.imageSize := by
    rw [hsize]
    decide
  rw [if_neg (by decide)]
  refine (copyStagedFullImage_flash hon hfault (by decide) hround hlen (hmarks ▸ hm)).bind
    fun r s2 h2 => ?_
  obtain ⟨rfl, himage, hout⟩ := h2
  rw [hsize] at himage hout
  rw [hmem, slice_withoutMark (by omega)] at himage
  rw [if_neg (by decide)]
  refine ((fullImageHashValid_live m internalBlSlotStart).mono (fun _ _ _ => trivial)
    fun _ _ h => h).bind fun r s3 h3 => ?_
  obtain ⟨rfl, hstill⟩ := h3
  rw [hsize, himage, hslot.hash, decide_eq_true rfl, if_neg (by decide)]
  refine sat_flash.mpr ⟨trivial, ?_⟩
  have hmeta : bootImageMetadataValidAt cfg s3.mem internalBlSlotStart m = true := by
    unfold bootImageMetadataValidAt
    rw [hstill.mem, himage, bootImageMetadataValid_congr fun x hx => ?_]
    · exact hslot.metadata
    · rw [hout x (.inl hx), hmem]
      exact overlay_outside (.inl (by omega))
  rw [hmeta, if_neg (by decide), hsd, hqspi]
  simp only [Bool.false_eq_true, if_false]
  refine sat_op.mpr ⟨trivial, sat_op.mpr ⟨trivial, ?_⟩⟩
  have hheld : HandedOver s.mem m (after env (.mbrCopy internalBlSlotStart)
      (after env (.setGpregret2 blMbrHandoff) (after env .view s3))) :=
    ⟨by rw [← himage, ← hstill.mem]; rfl, List.mem_append_right _ (List.mem_singleton_self _)⟩
  change Sat _ _ _ (if env.mbrCopies = true then _ else _) _
  by_cases hcopies : env.mbrCopies = true
  · rw [if_pos hcopies]
    exact ⟨hcopies.symm, hheld⟩
  · rw [if_neg hcopies]
    refine sat_op.mpr ⟨trivial, ?_, hheld.image, hheld.mbr⟩
    rw [Bool.not_eq_true] at hcopies
    exact hcopies.symm

/-- Every check passes, those of the staged image included. -/
theorem checkBootloader_flash (hb : cfg.builds = true) (hi : cfg.internalBootloaderUpdate = true)
    (hsd : cfg.sdBootloaderUpdate = false) (hqspi : cfg.qspiBootloaderUpdate = false)
    (hslot : InSlot cfg s.mem m) (h : Internal cfg s.statics) (hfault : ∀ n, env.fault n = .ok)
    (hempty : CacheEmpty s.statics) (hm : .pageFailed ∉ s.marks) :
    (checkBootloader cfg m).Sat (handler env) (fun _ _ => True)
      (fun r s' => r = env.mbrCopies ∧ HandedOver s.mem m s') s := by
  have hsize := bootUpdatePolicyValid_size hslot.policy
  have hget : Still s (after env .get s) := still_after (show Reads cfg .get s from trivial)
  refine sat_get.mpr ⟨trivial, ?_⟩
  rw [hsd, Bool.false_and, if_neg (by decide)]
  change Sat _ _ _ (if (!bootUpdatePolicyValid cfg m) = true then _ else _) _
  rw [hslot.policy, if_neg (by decide)]
  refine Sat.bind (Q := fun r s' => r = true ∧ Still s s') ?_ fun r s1 h1 => ?_
  · refine ((stagedRead_flash (h.still hget) m.payloadAddr 8).mono (fun _ _ _ => trivial)
      fun _ _ h => h).bind fun r s1 h1 => ?_
    obtain ⟨rfl, hstill⟩ := h1
    refine ⟨?_, hget.trans hstill⟩
    rw [hget.mem]
    exact hslot.vectors
  obtain ⟨rfl, h1⟩ := h1
  rw [if_pos rfl]
  refine ((fullImageHashValid_flash (h.still h1) m m.payloadAddr).mono (fun _ _ _ => trivial)
    fun _ _ h => h).bind fun r s2 h2 => ?_
  obtain ⟨rfl, hstill⟩ := h2
  have h2 := h1.trans hstill
  rw [h1.mem, hsize, hslot.hash, decide_eq_true rfl, if_neg (by decide)]
  have hget2 : Still s (after env .get s2) :=
    h2.trans (still_after (show Reads cfg .get s2 from trivial))
  have h3 : Still s (after env .view (after env .get s2)) :=
    hget2.trans (still_after (show Reads cfg .view _ from trivial))
  refine sat_get.mpr ⟨trivial, sat_flash.mpr ⟨trivial, ?_⟩⟩
  rw [bootUpdateRawStart_internal hb hi (by rw [hsd, Bool.false_and]), hget2.mem, hslot.fits,
    hslot.metadata]
  simp only [Bool.not_true, Bool.false_eq_true, if_false, Bool.and_false, Bool.false_and]
  rw [← h3.mem] at hslot ⊢
  exact installBootloader_flash hslot (h.still h3) hsd hqspi hfault (hempty.keeps h3.cache)
    (h3.marks ▸ hm)

/-- The walk from the end of the slot returns the package. -/
theorem InSlot.scanned (h : InSlot cfg f m) (hbase : dfuBank0RegionStart f ≤ internalBlSlotStart)
    {r : Option (Nat × MotaMin)}
    (hsome : ∀ a m', r = some (a, m') → Hit cfg f internalBlSlotEnd a m' ∧ ∀ j m'',
      j < (internalBlSlotEnd - motaMinLen) / codePageSize + 1 → a < j * codePageSize →
        ¬ Hit cfg f internalBlSlotEnd (j * codePageSize) m'')
    (hnone : r = none → ∀ j m', j < (internalBlSlotEnd - motaMinLen) / codePageSize + 1 →
      dfuBank0RegionStart f < (j + 1) * codePageSize →
        ¬ Hit cfg f internalBlSlotEnd (j * codePageSize) m') :
    r = some (internalBlSlotStart, m) := by
  have hpage : internalBlSlotStart = 0xE2 * codePageSize := by decide
  have hp : codePageSize = 0x1000 := rfl
  have hend : internalBlSlotEnd = 0xED000 := rfl
  have hhit := h.hit
  cases r with
  | none =>
    rw [hpage] at hhit
    exact absurd hhit (hnone rfl 0xE2 m (by decide) (by omega))
  | some x =>
    obtain ⟨a, m'⟩ := x
    obtain ⟨hfound, hhigher⟩ := hsome a m' rfl
    have haligned : a % codePageSize = 0 := hfound.2 ▸ stageStart_aligned _ _
    rcases Nat.lt_trichotomy a internalBlSlotStart with hlt | rfl | hgt
    · rw [hpage] at hhit hlt
      exact absurd hhit (hhigher 0xE2 m (by decide) hlt)
    · rw [Option.some.inj (hfound.1.symm.trans hhit.1)]
    · obtain ⟨c, hc, hroom, -, -⟩ := containerAt_eq_some.mp hfound.1
      obtain ⟨j, rfl⟩ : ∃ j, a = j * codePageSize := ⟨a / codePageSize,
        (Nat.div_mul_cancel (Nat.dvd_of_mod_eq_zero haligned)).symm⟩
      have hlen := hc.length
      have hheader : motaHeaderLen = 205 := rfl
      exact absurd hfound (h.top j m' hgt (by omega))

theorem scanBootloader_flash (hb : cfg.builds = true) (hi : cfg.internalBootloaderUpdate = true)
    (hsd : cfg.sdBootloaderUpdate = false) (hqspi : cfg.qspiBootloaderUpdate = false)
    (hslot : InSlot cfg s.mem m) (hbase : dfuBank0RegionStart s.mem ≤ internalBlSlotStart)
    (h : Internal cfg s.statics) (hfault : ∀ n, env.fault n = .ok)
    (hempty : CacheEmpty s.statics) (hm : .pageFailed ∉ s.marks) :
    (scanBootloader cfg stageExpanded).Sat (handler env) (fun _ _ => True)
      (fun r s' => r = env.mbrCopies ∧ HandedOver s.mem m s') s := by
  have hget : Still s (after env .get s) := still_after (show Reads cfg .get s from trivial)
  refine Sat.bind (Q := fun r s' => r = some (internalBlSlotStart, m) ∧ s'.mem = s.mem ∧
    Internal cfg s'.statics ∧ CacheEmpty s'.statics ∧ .pageFailed ∉ s'.marks) ?_ fun r s1 h1 => ?_
  · refine sat_get.mpr ⟨trivial, ?_⟩
    rw [hsd, hqspi, hi, Bool.false_and, if_neg (by decide), if_neg (by decide), if_pos rfl,
      if_neg (by decide)]
    have hscan : (scanMota cfg internalBlSlotEnd).Sat (handler env)
        (CommonOp env cfg (fun _ => True) (after env .get s)) _ (after env .get s) :=
      scanMota_spec internalBlSlotEnd (.refl _) rfl rfl
    refine ((hscan.and (scanMota_highest (h.still hget) (.inr (.inl rfl)) env)).mono
      (fun _ _ _ => trivial) fun _ _ h => h).bind fun r s1 h1 => ?_
    obtain ⟨hscanned, hsome, hnone⟩ := h1
    rw [hget.mem] at hsome hnone
    obtain rfl := hslot.scanned hbase hsome hnone
    have hsource := hscanned.session.source
    refine ⟨?_, hscanned.mem.trans hget.mem, ?_, ?_, ?_⟩
    · rfl
    · exact ⟨(hsource.sdSelected cfg).trans h.sd, (hsource.hybridSelected cfg).trans h.hybrid,
        (hsource.qspiSelected cfg).trans h.qspi, h.built⟩
    · exact (hempty.keeps hget.cache).keeps hscanned.cache
    · rw [hscanned.marks]
      intro hmark
      rcases List.mem_append.mp hmark with hmark | hmark
      · exact hm (hget.marks ▸ hmark)
      · simp at hmark
  obtain ⟨rfl, hmem, hint, hempty1, hm1⟩ := h1
  simp only
  rw [hslot.approved, if_neg (by decide)]
  rw [← hmem] at hslot ⊢
  exact checkBootloader_flash hb hi hsd hqspi hslot hint hfault hempty1 hm1

/-! ## Whole runs -/

/-- A device booted to install a package from the slot, in a build that takes bootloader
updates from internal flash only. -/
structure SlotBoot (cfg : Profile) (s0 : Device) : Prop extends Booted cfg s0 where
  internal : cfg.internalBootloaderUpdate = true
  sd : cfg.sdBootloaderUpdate = false
  rak : cfg.rakSdStore = false
  trigger : s0.gpregret = bootloaderApply
  handoff : s0.gpregret2 = stageExpanded

theorem SlotBoot.qspi (h : SlotBoot cfg s0) : cfg.qspiBootloaderUpdate = false := by
  have hb := h.builds
  simp only [Profile.builds, Bool.and_eq_true, Bool.not_eq_true', Bool.and_eq_false_iff] at hb
  exact hb.1.1.1.1.1.2.resolve_right (by rw [h.internal]; decide)

/-- A fresh boot has selected nothing but internal flash. -/
theorem SlotBoot.start (h : SlotBoot cfg s0) : Internal cfg cfg.boot where
  sd := by
    have := builds_internalBoot h.builds h.internal
    simp only [Profile.sdSelected, Profile.boot, this, Bool.and_false]
  hybrid := by simp [Profile.hybridSelected, Profile.boot]
  qspi := by simp [Profile.qspiSelected, Profile.boot]
  built := builds_internalBoot h.builds h.internal

theorem applyBootloaderUpdate_flash (h : SlotBoot cfg s0) (hslot : InSlot cfg s0.mem m)
    (hfault : ∀ n, env.fault n = .ok) (hs : Preluded s0 s) (hg : s.statics = cfg.boot)
    (h2 : s.gpregret2 = stageExpanded) :
    (applyBootloaderUpdate cfg).Sat (handler env) (fun _ _ => True)
      (fun r s' => r = env.mbrCopies ∧ HandedOver s0.mem m s') s := by
  have hp1 : Preluded s0 (after env .gpregret2 s) := hs.trans (preluded_after env trivial)
  have hp2 : Preluded s0 (after env (.setGpregret 0) (after env .gpregret2 s)) :=
    hp1.trans (preluded_after env (o := .setGpregret 0) rfl)
  have hp3 : Preluded s0 (after env (.setGpregret2 blGate) (after env (.setGpregret 0)
      (after env .gpregret2 s))) := hp2.trans (preluded_after env trivial)
  have hp4 := hp3.trans (preluded_after env (show Preludes .get from trivial))
  have hbase := h.base.le
  have hscratch : motaBlScratchStart ≤ internalBlSlotStart := by decide
  unfold applyBootloaderUpdate
  simp only
  rw [h.sd]
  simp only [Bool.false_and, Bool.false_eq_true, if_false]
  refine sat_op.mpr ⟨trivial, sat_op.mpr ⟨trivial, sat_op.mpr ⟨trivial, sat_get.mpr ⟨trivial, ?_⟩⟩⟩⟩
  rw [show answer env Op.gpregret2 s = stageExpanded from h2]
  generalize hlast : after env .get (after env (.setGpregret2 blGate) (after env (.setGpregret 0)
    (after env .gpregret2 s))) = t at hp4 ⊢
  have hboot : t.statics = cfg.boot := by
    rw [← hlast]
    exact hg
  rw [← hp4.mem] at hslot hbase ⊢
  refine scanBootloader_flash h.builds h.internal h.sd h.qspi hslot (Nat.le_trans hbase hscratch)
    (hboot ▸ h.start) hfault (hboot ▸ ?_) ?_
  · exact ⟨List.length_replicate, rfl⟩
  · rw [hp4.marks, h.marks]
    simp

/-- On working flash a package that passes every check is installed: its payload is copied to
the start of the slot, and the MBR is told to copy it from there. -/
theorem otaDeltaCheckAndApply_installs (h : SlotBoot cfg s0) (hslot : InSlot cfg s0.mem m)
    (hfault : ∀ n, env.fault n = .ok) (decoder : Nat → Decoder) :
    ((otaDeltaCheckAndApply cfg decoder).run (handler env) s0).1 = env.mbrCopies ∧
      HandedOver s0.mem m ((otaDeltaCheckAndApply cfg decoder).run (handler env) s0).2 := by
  have hsat : (otaDeltaCheckAndApply cfg decoder).Sat (handler env) (fun _ _ => True)
      (fun r s' => r = env.mbrCopies ∧ HandedOver s0.mem m s') s0 := by
    unfold otaDeltaCheckAndApply
    simp only
    rw [if_neg (by rw [h.rak]; decide)]
    refine sat_op.mpr ⟨trivial, ?_⟩
    change Sat _ _ _ (if (cfg.bootloaderUpdateEnabled &&
      decide (s0.gpregret = bootloaderApply)) = true then _ else _) _
    rw [if_pos (by simp [Profile.bootloaderUpdateEnabled, h.internal, h.trigger])]
    exact applyBootloaderUpdate_flash h hslot hfault
      (preluded_after env (show Preludes .gpregret from trivial)) h.statics h.handoff
  exact hsat.result

/-! ## The package of a release -/

open PatchManifest

/-- A build that takes bootloader updates from internal flash. -/
def slotProfile : Profile where
  internalBootloaderUpdate := true
  board := hexBoard 0x239A00B3
  deviceName := ascii "BOARD"
  extension := extensionBytes sampleExtension

/-- The header up to the hash of the image, and from there to the hashes of the blocks. -/
def packageHead : List Byte :=
  motaMagic ++ put32 bootUpdatePackageSize ++ [3, 7, 0x12] ++ put32 0x849549E6 ++ put32 0x109 ++
    put32 motaBlSize ++ put32 motaBlSize ++ [10] ++ List.replicate 4 0

def packageRest : List Byte :=
  [0] ++ bootUpdateIdentity slotProfile ++ List.replicate 8 0 ++ List.replicate 96 0 ++ motaAprv

/-- The package of the release for `slotProfile`, approved. -/
def packageByte (x : Nat) : Byte :=
  if x < 32 then packageHead.getD x 0
  else if x < 64 then (sha256 (releaseImage sampleExtension)).getD (x - 32) 0
  else if x < motaHeaderLen then packageRest.getD (x - 64) 0
  else if x < 365 then 0
  else if x < 365 + motaBlSize then (releaseImage sampleExtension).getD (x - 365) 0
  else motaTrailer.getD (x - (365 + motaBlSize)) 0xFF

/-- An application with its trailer. -/
def slotApp : List Byte := put32 0x20001000 ++ put32 0x26009 ++ endf ++ put32 8 ++
  [0xBD, 0xDF, 0xDF, 0x46, 0x79, 0xFB, 0xB0, 0xCD]

/-- A device with the release and an application; the package of the release is in the slot. -/
def slotFlash : Mem := fun x =>
  if x < 0x26000 then sdImage 0x1000 0x26000 0xB6 x
  else if x < internalBlSlotStart then slotApp.getD (x - 0x26000) 0xFF
  else if x < internalBlSlotEnd then packageByte (x - internalBlSlotStart)
  else if x < motaBlStart then 0xFF
  else if x < 0xFE000 then (releaseImage sampleExtension).getD (x - motaBlStart) 0
  else 0xFF

def slotDevice : Device where
  mem := slotFlash
  gpregret := bootloaderApply
  gpregret2 := stageExpanded
  retained := []
  statics := slotProfile.boot

/-- What is read from it in the slot. -/
def slotManifest : MotaMin where
  isFull := true
  approved := true
  formatVer := 3
  flags := 7
  hashAlgo := 0x12
  blockSizeLog2 := 10
  total := bootUpdatePackageSize
  imageSize := motaBlSize
  payloadSize := motaBlSize
  payloadAddr := 0xE216D
  approvalAddr := internalBlSlotStart + approvalOffset
  targetId := 0x849549E6
  fwVersion := 0x109
  blockCount := bootUpdateBlockCount
  imageHash := sha256 (releaseImage sampleExtension)
  codecId := codecFull
  hwId := bootUpdateIdentity slotProfile
  baseHash := List.replicate 8 0

theorem slot_package {x : Nat} (h : x < 0xB000) :
    slotFlash (internalBlSlotStart + x) = packageByte x := by
  have hstart : internalBlSlotStart = 0xE2000 := rfl
  have hend : internalBlSlotEnd = 0xED000 := rfl
  unfold slotFlash
  rw [if_neg (by omega), if_neg (by omega), if_pos (by omega), Nat.add_sub_cancel_left]

/-- The payload is the image of the release. -/
theorem slot_image {i : Nat} (h : i < motaBlSize) :
    slotFlash (0xE216D + i) = (releaseImage sampleExtension).getD i 0 := by
  have hsize : motaBlSize = 0xA000 := rfl
  have hheader : motaHeaderLen = 205 := rfl
  have hplace : 0xE216D + i = internalBlSlotStart + (365 + i) := by
    rw [← Nat.add_assoc]
    rfl
  rw [hplace, slot_package (by omega)]
  unfold packageByte
  rw [if_neg (by omega), if_neg (by omega), if_neg (by omega), if_neg (by omega), if_pos (by omega),
    Nat.add_sub_cancel_left]

theorem slot_payload : slice slotFlash 0xE216D motaBlSize = releaseImage sampleExtension :=
  slice_eq_of_getD (releaseImage_length _) fun _ hi => slot_image hi

theorem slot_header :
    ((slice slotFlash internalBlSlotStart motaHeaderLen).drop 32).take 32 =
      sha256 (releaseImage sampleExtension) := by
  rw [slice_inner (by decide)]
  refine slice_eq_of_getD (sha256_length _) fun i hi => ?_
  rw [Nat.add_assoc, slot_package (by omega)]
  unfold packageByte
  rw [if_neg (by omega), if_pos (by omega), Nat.add_sub_cancel_left]

theorem slot_container : containerAt slotProfile slotFlash internalBlSlotStart internalBlSlotEnd =
    some slotManifest := by
  have hhead : headerOf (slice slotFlash internalBlSlotStart bootUpdatePackageSize) =
      slice slotFlash internalBlSlotStart motaHeaderLen := headerOf_slice (by decide)
  have hpayload : wordAt (slice slotFlash internalBlSlotStart motaHeaderLen) 23 = motaBlSize := by
    decide
  have hlog : (slice slotFlash internalBlSlotStart motaHeaderLen).getD 27 0 = 10 := by decide
  have hblocks : blockCountOf (slice slotFlash internalBlSlotStart bootUpdatePackageSize) =
      bootUpdateBlockCount := by
    unfold blockCountOf
    rw [hhead, hpayload, hlog]
    decide
  rw [containerAt_eq_some]
  refine ⟨slice slotFlash internalBlSlotStart bootUpdatePackageSize, ?_, ?_, ?_, ?_⟩
  · constructor
    · rw [slice_take (by decide)]
      decide
    · rw [hhead, slice_length]
      decide
    · rw [hhead]
      exact .inr ⟨by decide, by decide⟩
    · rw [hhead, hlog]
      decide
    · rw [hhead, hpayload]
      decide
    · rw [hblocks]
      decide
    · rw [hhead, hblocks, hpayload, slice_length]
      rfl
    · rw [slice_length, slice_last (by decide)]
      decide
  · rw [slice_length]
    decide
  · rw [slice_length]
  · unfold fieldsOf slotManifest
    rw [hhead, hblocks, hpayload, hlog, slice_length, slot_header]
    congr 1

/-- What lies in the payload outside the field of the CRC was linked. -/
theorem slot_linked {o k : Nat} (hk : o + k ≤ motaBlSize)
    (h : o + k ≤ motaBlSize - 36 ∨ motaBlSize - 32 ≤ o) :
    slice slotFlash (0xE216D + o) k = slice (linkedFlash sampleExtension) (0xF4000 + o) k := by
  rw [← releaseImage_window hk h, ← slot_payload, slice_inner hk]

/-- No page above the start of the slot begins with the magic number. -/
theorem slot_top (j : Nat) (hlow : internalBlSlotStart < j * codePageSize)
    (hhigh : j * codePageSize < internalBlSlotEnd) :
    slice slotFlash (j * codePageSize) 4 ≠ motaMagic := by
  have hp : codePageSize = 0x1000 := rfl
  have hstart : internalBlSlotStart = 0xE2000 := rfl
  have hend : internalBlSlotEnd = 0xED000 := rfl
  have hsize : motaBlSize = 0xA000 := rfl
  rw [hp] at hlow hhigh ⊢
  obtain ⟨o, ho⟩ : ∃ o, j * 0x1000 = 0xE216D + o := ⟨j * 0x1000 - 0xE216D, by omega⟩
  have herased : ∀ x, 0xF4000 + o ≤ x → x < 0xF4000 + o + 4 →
      linkedFlash sampleExtension x = 0xFF := by
    intro x h1 h2
    unfold linkedFlash
    rw [if_neg (by omega), if_neg (by omega), if_pos (by omega)]
  rw [ho, slot_linked (by omega) (by omega), slice_const herased]
  decide

theorem slot_fits : otaDeltaLiveAppFitsBelow slotFlash internalBlSlotStart = true := by
  have hbase : dfuBank0RegionStart slotFlash = 0x26000 := by decide
  have hfound : findBodyLen slotFlash 0x26080 = some 8 := by decide
  refine otaDeltaLiveAppFitsBelow_unrecorded hbase (findBodyLen_mono (by decide) hfound) ?_ ?_ ?_
  · decide
  · decide +kernel
  · decide

/-- The marker of the release begins behind its vectors, and nothing else begins like it. -/
theorem release_marker {x : Nat} (haligned : x % 4 = 0) (hroom : x + 16 ≤ motaBlSize)
    (h : BootMarker (releaseImage sampleExtension) x) : x = 8 := by
  have hsize : motaBlSize = 0xA000 := rfl
  have htext := h.1
  have hword : ∀ o, o + 4 ≤ 8 → x + o + 4 ≤ motaBlSize - 36 ∨ motaBlSize - 32 ≤ x + o →
      slice (linkedFlash sampleExtension) (0xF4000 + (x + o)) 4 =
        ((ascii "MOTABLDR").drop o).take 4 := by
    intro o ho hout
    rw [← releaseImage_window (by change _ ≤ motaBlSize; omega) hout, ← htext, List.drop_take,
      List.take_take, List.drop_drop, Nat.min_eq_left (by omega)]
  by_cases hcrc : x = motaBlSize - 36
  · -- behind the CRC stands the magic number of the extension
    have hnext := hword 4 (by omega) (.inr (by omega))
    rw [hcrc] at hnext
    exact absurd hnext (by decide)
  have hfirst := hword 0 (by omega) (by omega)
  rw [Nat.add_zero] at hfirst
  by_cases hlow : x < 24
  · have hvectors : ∀ k < 6, slice (linkedFlash sampleExtension) (0xF4000 + 4 * k) 4 =
        ((ascii "MOTABLDR").drop 0).take 4 → k = 2 := by decide
    obtain ⟨k, rfl⟩ : ∃ k, x = 4 * k := ⟨x / 4, by omega⟩
    rw [hvectors k (by omega) hfirst]
  by_cases herased : x < 0x9FB4
  · have hbytes : ∀ y, 0xF4000 + x ≤ y → y < 0xF4000 + x + 4 →
        linkedFlash sampleExtension y = 0xFF := by
      intro y h1 h2
      unfold linkedFlash
      rw [if_neg (by omega), if_neg (by omega), if_pos (by omega)]
    rw [slice_const hbytes] at hfirst
    exact absurd hfirst (by decide)
  · have henvelope : ∀ k < 19, slice (linkedFlash sampleExtension) (0xF4000 + (0x9FB4 + 4 * k)) 4 ≠
        ((ascii "MOTABLDR").drop 0).take 4 := by decide
    obtain ⟨k, rfl⟩ : ∃ k, x = 0x9FB4 + 4 * k := ⟨(x - 0x9FB4) / 4, by omega⟩
    exact absurd hfirst (henvelope k (by omega))

/-- The release carries its marker once, behind its vectors. -/
theorem slot_caps : bootImageCapsValid slotProfile (releaseImage sampleExtension) = true := by
  have hlength : (releaseImage sampleExtension).length = motaBlSize := releaseImage_length _
  have hwindow : ((releaseImage sampleExtension).drop 8).take 32 =
      slice (linkedFlash sampleExtension) 0xF4008 32 :=
    releaseImage_window (by decide) (by decide)
  rw [bootImageCapsValid_iff hlength]
  refine ⟨⟨8, ⟨by decide, by rw [hlength]; decide⟩, fun x hx => ⟨fun h => ?_, ?_⟩, ?_⟩, ?_, ?_⟩
  · exact release_marker hx.1 (hlength ▸ hx.2) h
  · rintro rfl
    rw [windowed_bootMarker, hwindow]
    decide
  · rw [windowed_bootOwn, hwindow]
    decide
  · exact fun h => absurd h (by decide)
  · exact fun h => absurd h (by decide)

/-- The metadata of a release that fits its manifest, the running bootloader and the device. -/
theorem bootImageMetadataValidAt_of {mem : Mem} {address : Nat} {image : List Byte}
    {info installed : ImageInfo} (himage : slice mem address motaBlSize = image)
    (hformat : bootloaderImageClassify cfg.board false image motaBlStart = .v2 info)
    (hext : bootloaderExtensionValidate cfg.extension = some installed)
    (hcaps : bootImageCapsValid cfg image = true)
    (hinstalled : info.softdeviceFamily = installed.softdeviceFamily ∧
      info.softdeviceFwid = installed.softdeviceFwid ∧ info.appBase = installed.appBase ∧
      info.layoutAbi = installed.layoutAbi)
    (hdevice : info.softdeviceFamily = cfg.board.softdeviceFamily ∧
      info.softdeviceFwid = (readHalf mem sdFwidAddr).toNat ∧
      info.appBase = dfuBank0RegionStart mem ∧ info.layoutAbi = 1)
    (hversion : info.bootVersion = m.fwVersion) :
    bootImageMetadataValidAt cfg mem address m = true := by
  rw [bootImageMetadataValidAt, himage]
  unfold bootImageMetadataValid
  rw [hformat, hext]
  simp only [Bool.and_eq_true, decide_eq_true_eq]
  obtain ⟨h1, h2, h3, h4⟩ := hinstalled
  obtain ⟨h5, h6, h7, h8⟩ := hdevice
  exact ⟨⟨⟨⟨⟨⟨⟨⟨⟨hcaps, h1⟩, h2⟩, h3⟩, h4⟩, h5⟩, h6⟩, h7⟩, h8⟩, hversion⟩

theorem slot_metadata :
    bootImageMetadataValidAt slotProfile slotFlash slotManifest.payloadAddr slotManifest = true := by
  have hbase : dfuBank0RegionStart slotFlash = 0x26000 := by decide
  have hfwid : (readHalf slotFlash sdFwidAddr).toNat = 0xB6 := by decide
  refine bootImageMetadataValidAt_of slot_payload (linkedHex_classify (.inl rfl))
    (show bootloaderExtensionValidate slotProfile.extension = some (infoOf sampleExtension) by decide)
    slot_caps ⟨rfl, rfl, rfl, rfl⟩ ⟨rfl, ?_, ?_, rfl⟩ rfl
  · rw [hfwid]
    rfl
  · rw [hbase]
    rfl

theorem slot_inSlot : InSlot slotProfile slotFlash slotManifest where
  hit := ⟨slot_container, by decide⟩
  top j m' hlow hhigh h := slot_top j hlow hhigh (containerAt_magic h.1)
  approved := rfl
  policy := by decide +kernel
  vectors := by
    have hvectors := slot_linked (o := 0) (k := 8) (by decide) (by decide)
    rw [show slotManifest.payloadAddr = 0xE216D + 0 from rfl, hvectors]
    decide
  hash := by
    rw [show slotManifest.payloadAddr = 0xE216D from rfl, slot_payload]
    rfl
  fits := slot_fits
  metadata := slot_metadata

theorem slotDevice_boots : SlotBoot slotProfile slotDevice where
  builds := rfl
  base := by
    have hbase : dfuBank0RegionStart slotFlash = 0x26000 := by decide
    change BaseOk (dfuBank0RegionStart slotFlash)
    rw [hbase]
    exact ⟨by decide, by decide, by decide⟩
  statics := rfl
  ops := rfl
  marks := rfl
  mbr := rfl
  nor := rfl
  internal := rfl
  sd := rfl
  rak := rfl
  trigger := rfl
  handoff := rfl

/-! ## The run of the package -/

variable {o : Op}

theorem after_mbr (h : ∀ source, o ≠ .mbrCopy source) : (after env o s).mbr = s.mbr := by
  cases o with
  | mbrCopy source => exact absurd rfl (h source)
  | settingsCommit r => rw [after_settingsCommit]
  | _ => rfl

/-- On working flash a byte stays or is erased, unless something is programmed. -/
theorem after_byte (hfault : ∀ n, env.fault n = .ok) {x : Nat}
    (hw : ¬ ((∃ page d, o = .words page d) ∨ ∃ r, o = .settingsCommit r)) :
    (after env o s).mem x = s.mem x ∨ (after env o s).mem x = 0xFF := by
  cases o with
  | words page d => exact absurd (.inl ⟨page, d, rfl⟩) hw
  | settingsCommit r => exact absurd (.inr ⟨r, rfl⟩) hw
  | erase page =>
    rw [after_mem]
    simp only [nvOps, hfault, eraseOps]
    by_cases hx : page ≤ x ∧ x < page + codePageSize
    · exact .inr (FlashOp.apply_erase hx.1 hx.2)
    · have hout : x < (FlashOp.erase page codePageSize).start ∨
          (FlashOp.erase page codePageSize).stop ≤ x := by
        change x < page ∨ page + codePageSize ≤ x
        omega
      exact .inl (FlashOp.apply_outside hout)
  | _ => exact .inl rfl

def slotDecoder (_ : Nat) : Decoder := .done 0

/-- The operations of the installation of the package in the slot. -/
def slotTrace : List (Op × Device) :=
  (otaDeltaCheckAndApply slotProfile slotDecoder).trace (handler {}) slotDevice

theorem slotTrace_installs : HandedOver slotFlash slotManifest
    ((otaDeltaCheckAndApply slotProfile slotDecoder).run (handler {}) slotDevice).2 :=
  (otaDeltaCheckAndApply_installs slotDevice_boots slot_inSlot (fun _ => rfl) slotDecoder).2

/-- The second byte of the image. -/
theorem HandedOver.second (h : HandedOver slotFlash slotManifest s) : s.mem 0xE2001 = 0x10 := by
  have hpayload : slotManifest.payloadAddr = 0xE216D + 0 := rfl
  have himage := congrArg (fun l => l.take 8) h.image
  rw [slice_take (by decide), slice_take (by decide), hpayload,
    slot_linked (by decide) (by decide)] at himage
  have hbyte := congrArg (fun l => l.getD 1 0) himage
  rw [slice_getD_add (by omega), slice_getD_add (by omega)] at hbyte
  exact hbyte.trans (by decide)

theorem slotTrace_copies : ∃ x ∈ slotTrace, ∃ source, x.1 = .mbrCopy source := by
  refine exists_trace (I := fun s : Device => s.mbr = [])
    (P := fun o : Op => ∃ source, o = .mbrCopy source) rfl (fun o s ho hs => ?_) fun hnone => ?_
  · exact (after_mbr fun source heq => ho ⟨source, heq⟩).trans hs
  · have hmem := slotTrace_installs.mbr
    rw [hnone] at hmem
    cases hmem

/-- The second byte of the slot is programmed: it is neither that of the package nor erased. -/
theorem slotTrace_writes : ∃ x ∈ slotTrace,
    (∃ page d, x.1 = .words page d) ∨ ∃ r, x.1 = .settingsCommit r := by
  have hstart : slotFlash 0xE2001 = 0x4F := by decide
  refine exists_trace (I := fun s : Device => s.mem 0xE2001 = 0x4F ∨ s.mem 0xE2001 = 0xFF)
    (P := fun o : Op => (∃ page d, o = .words page d) ∨ ∃ r, o = .settingsCommit r) (.inl hstart)
    (fun o s ho hs => ?_) fun hnone => ?_
  · have hstep : (after {} o s).mem 0xE2001 = s.mem 0xE2001 ∨ (after {} o s).mem 0xE2001 = 0xFF :=
      after_byte (fun _ => rfl) ho
    rcases hstep with h | h
    · rcases hs with hs | hs
      · exact .inl (h.trans hs)
      · exact .inr (h.trans hs)
    · exact .inr h
  · rw [slotTrace_installs.second] at hnone
    exact absurd hnone (by decide)

end OtaFix.Mota
