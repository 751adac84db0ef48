import OtaFix.Mota.Select

/-!
# Runs of a bootloader update

`BootOp` says everything a bootloader update does behind the selection of its
source: it reads, it clears the approval of the package, it rewrites pages of the
raw area below the bootloader, and it hands that area to the MBR. The handoff is
made only over an image that was hashed and classified where it lies.
-/

namespace OtaFix.Mota

open Lib Prog

variable {env : Env} {cfg : Profile} {α : Type} {s s' s0 s1 : Device} {a raw : Nat} {m : MotaMin}

/-! ## Build profiles -/

theorem builds_sdBoot (hb : cfg.builds = true) (h : cfg.sdBootloaderUpdate = true) :
    cfg.sdCard = true := by
  simp only [Profile.builds, Bool.and_eq_true, Bool.or_eq_true, Bool.not_eq_true'] at hb
  obtain ⟨⟨⟨⟨-, hsd⟩, -⟩, -⟩, -⟩ := hb
  exact hsd.resolve_left (by simp [h])

theorem builds_qspiBoot (hb : cfg.builds = true) (h : cfg.qspiBootloaderUpdate = true) :
    cfg.qspiFlash = true := by
  simp only [Profile.builds, Bool.and_eq_true, Bool.or_eq_true, Bool.not_eq_true'] at hb
  obtain ⟨⟨⟨-, hq⟩, -⟩, -⟩ := hb
  exact hq.resolve_left (by simp [h])

/-- Beside packages in internal flash, the SD card is never the only source. -/
theorem builds_internalBoot (hb : cfg.builds = true) (h : cfg.internalBootloaderUpdate = true) :
    (cfg.sdCard && !cfg.sdOptional) = false := by
  simp only [Profile.builds, Profile.sdOptional, Bool.and_eq_true, Bool.or_eq_true,
    Bool.not_eq_true', Bool.and_eq_false_iff, Bool.not_eq_false'] at hb ⊢
  obtain ⟨⟨⟨⟨⟨⟨⟨-, hboth⟩, -⟩, -⟩, -⟩, -⟩, hint⟩, -⟩ := hb
  simp only [h, Bool.true_eq_false, false_or, or_false] at hboth hint
  rcases hint with hsd | ⟨-, hcard⟩
  · right
    simpa [hsd] using hboth
  · rcases hcard with hcard | hrak
    · exact .inl hcard
    · exact .inr (.inr hrak)

theorem builds_dualStore (hb : cfg.builds = true) (h : cfg.sdDualStore = true) :
    cfg.sdBootloaderUpdate = true := by
  simp only [Profile.builds, Bool.and_eq_true, Bool.or_eq_true, Bool.not_eq_true'] at hb
  obtain ⟨⟨⟨⟨⟨-, hdual⟩, -⟩, -⟩, -⟩, -⟩ := hb
  exact (hdual.resolve_left (by simp [h])).1.1.2

/-- Where the card is not the source, a package in internal flash is its own raw area. -/
theorem bootUpdateRawStart_internal (hb : cfg.builds = true)
    (hi : cfg.internalBootloaderUpdate = true) {g : Statics}
    (hno : (cfg.sdBootloaderUpdate && g.sdSource) = false) :
    bootUpdateRawStart cfg g = internalBlSlotStart := by
  unfold bootUpdateRawStart
  split_ifs with hstore hsrc
  · have hsd : cfg.sdBootloaderUpdate = true := by
      rcases Bool.or_eq_true_iff.mp hstore with hdual | hrak
      · exact builds_dualStore hb hdual
      · exact (Bool.and_eq_true_iff.mp hrak).2
    rw [hsd, hsrc] at hno
    cases hno
  · rfl
  · rfl

/-! ## The copy -/

theorem mark_mem {e : Mark} {o : Op} (h : e ∈ s.marks) : e ∈ (after env o s).marks := by
  cases o with
  | mark e' => exact List.mem_append_left _ h
  | settingsCommit r =>
    rw [settingsCommit_marks]
    exact h
  | _ => exact h

/-- Before its first page write, the copy has changed nothing. -/
theorem copyPages_first {destination fuel off : Nat} (hoff : off < m.imageSize) :
    (copyPages cfg m destination (fuel + 1) off).Sat (handler env) (fun _ _ => True)
      (fun r s' => .commit ∈ s'.marks ∨ (r ≠ 0 ∧ s'.mem = s.mem ∧ s'.marks = s.marks)) s := by
  unfold copyPages
  rw [if_neg (by omega)]
  simp only
  set n := min (m.imageSize - off) codePageSize
  refine sat_get.mpr ⟨trivial, sat_op.mpr ⟨trivial, ?_⟩⟩
  refine Sat.bind (Q := fun _ s' => s'.mem = s.mem ∧ s'.marks = s.marks) ?_ fun r s2 h2 => ?_
  · exact (stagedRead_spec _ n).mono (fun _ _ _ => trivial) fun _ _ h => ⟨h.2.mem, h.2.marks⟩
  cases r with
  | none => exact .inr ⟨by decide, h2⟩
  | some d =>
    refine sat_get.mpr ⟨trivial, sat_op.mpr ⟨trivial, sat_op.mpr ⟨trivial, ?_⟩⟩⟩
    refine (sat_true.keep (I := fun s => Mark.commit ∈ s.marks) ?_ fun _ _ _ h => mark_mem h).mono
      (fun _ _ _ => trivial) fun _ _ h => .inl h.2
    exact List.mem_append_right _ (List.mem_singleton_self _)

/-! ## Operations -/

/-- A package in internal flash lies in its slot. -/
def Slot (cfg : Profile) (s1 : Device) (a : Nat) : Prop :=
  FlashStaged cfg s1.statics →
    a = internalBlSlotStart ∧ bootUpdateRawStart cfg s1.statics = internalBlSlotStart

/-- The package `m` at `a` has passed every check before the copy. -/
structure Accepted (env : Env) (cfg : Profile) (s1 : Device) (a : Nat) (m : MotaMin) (raw : Nat) :
    Prop where
  slot : Slot cfg s1 a
  chosen : Chosen env cfg s1 a m
  bound : Bound env cfg s1
  start : raw = bootUpdateRawStart cfg s1.statics
  policy : bootUpdatePolicyValid cfg m = true
  fits : otaDeltaLiveAppFitsBelow s1.mem raw = true
  token : cfg.sdSelected s1.statics = true → sdBootAuthorizationValid s1.mem m = true

/-- The raw area holds the image that the manifest `m` describes. -/
structure Ready (cfg : Profile) (m : MotaMin) (raw : Nat) (mem : Mem) : Prop where
  hash : sha256 (slice mem raw motaBlSize) = m.imageHash
  metadata : bootImageMetadataValidAt cfg mem raw m = true

/-- An operation of the end of an update: the variables, the result code, the pins. -/
def Winds : Op → Prop
  | .get | .set _ | .setGpregret2 _ | .sdDeinit | .qspiDeinit => True
  | _ => False

inductive BootOp (env : Env) (cfg : Profile) (s1 : Device) : Op → Device → Prop where
  | common {o : Op} {s : Device} (h : CommonOp env cfg (Slot cfg s1) s1 o s) : BootOp env cfg s1 o s
  | copies {o : Op} {s : Device} (a : Nat) (m : MotaMin) (raw : Nat)
      (h : Accepted env cfg s1 a m raw) (hs : Session s1 s) (hp : .parsed a m ∈ s.marks)
      (ho : Writes cfg raw (raw + motaBlSize) o s) : BootOp env cfg s1 o s
  | winds {o : Op} {s : Device} (hg : s.gpregret = s1.gpregret) (hr : s.retained = s1.retained)
      (ho : Winds o) : BootOp env cfg s1 o s
  | hands {s : Device} (a : Nat) (m : MotaMin) (raw : Nat) (h : Accepted env cfg s1 a m raw)
      (hg : s.gpregret = s1.gpregret) (hr : s.retained = s1.retained) (hp : .parsed a m ∈ s.marks)
      (ready : Ready cfg m raw s.mem) : BootOp env cfg s1 (.mbrCopy raw) s

/-- How a bootloader update ends. -/
structure BootEnd (cfg : Profile) (s1 : Device) (r : Bool) (s : Device) : Prop where
  gpregret : s.gpregret = s1.gpregret
  retained : s.retained = s1.retained
  rejected : r = false → .commit ∈ s.marks ∨ Rejected cfg s1 s

theorem BootEnd.of_rejected {r : Bool} (h : Rejected cfg s1 s) : BootEnd cfg s1 r s :=
  ⟨h.session.gpregret, h.session.retained, fun _ => .inr h⟩

/-- Only the raw area has been written behind the clearing of the approval. -/
structure Copying (env : Env) (cfg : Profile) (s1 : Device) (a : Nat) (m : MotaMin) (raw : Nat)
    (s : Device) : Prop where
  accepted : Accepted env cfg s1 a m raw
  session : Session s1 s
  parsed : .parsed a m ∈ s.marks
  commit : .commit ∈ s.marks

theorem Copying.quiet (h : Copying env cfg s1 a m raw s) (hq : Quiet s s') :
    Copying env cfg s1 a m raw s' :=
  ⟨h.accepted, h.session.quiet hq, hq.marks ▸ h.parsed, hq.marks ▸ h.commit⟩

theorem sat_boot {p : MotaM α} {Q : α → Device → Prop}
    (h : p.Sat (handler env) (CommonOp env cfg (Slot cfg s1) s1) Q s) :
    p.Sat (handler env) (BootOp env cfg s1) Q s := h.mono (fun _ _ h => .common h) fun _ _ h => h

theorem Copying.failApply (h : Copying env cfg s1 a m raw s) (code : Nat) :
    (failApply cfg code).Sat (handler env) (BootOp env cfg s1) (BootEnd cfg s1) s :=
  (sat_boot (failApply_common h.session code)).post fun _ _ h' =>
    have hc := h.quiet h'.2
    ⟨hc.session.gpregret, hc.session.retained, fun _ => .inl hc.commit⟩

theorem Rejected.failApply (h : Rejected cfg s1 s) (code : Nat) :
    (failApply cfg code).Sat (handler env) (BootOp env cfg s1) (BootEnd cfg s1) s :=
  (sat_boot (failApply_common h.session code)).post fun _ _ h' => .of_rejected (h.quiet h'.2)

/-- The policy fixes the size of the image. -/
theorem bootUpdatePolicyValid_size (h : bootUpdatePolicyValid cfg m = true) :
    m.imageSize = motaBlSize := by
  unfold bootUpdatePolicyValid at h
  split at h
  · cases h
  · simp only [Bool.and_eq_true, decide_eq_true_eq] at h
    exact h.1.2

theorem bootUpdateRawStart_cases (cfg : Profile) (g : Statics) :
    bootUpdateRawStart cfg g = motaBlScratchStart ∨ bootUpdateRawStart cfg g = internalBlSlotStart := by
  unfold bootUpdateRawStart
  split_ifs <;> simp

theorem rawPages (h : Accepted env cfg s1 a m raw) : Pages raw (raw + motaBlSize) := by
  rcases bootUpdateRawStart_cases cfg s1.statics with hr | hr
  · rw [h.start, hr]
    exact ⟨by decide, by decide, by decide, by decide⟩
  · rw [h.start, hr]
    exact ⟨by decide, by decide, by decide, by decide⟩

/-! ## From the accepted package on -/

/-- An operation at the end of the update. -/
theorem Winds.keeps {o : Op} (h : Winds o) (env : Env) (s : Device) :
    (after env o s).gpregret = s.gpregret ∧
    (after env o s).retained = s.retained ∧ (after env o s).mem = s.mem ∧
    (after env o s).marks = s.marks := by
  cases o with
  | get | set | setGpregret2 | sdDeinit | qspiDeinit => exact ⟨rfl, rfl, rfl, rfl⟩
  | _ => exact h.elim

/-- The last part of an installation: what the MBR is handed was checked in place. -/
structure Handing (env : Env) (cfg : Profile) (s1 : Device) (a : Nat) (m : MotaMin) (raw : Nat)
    (s : Device) : Prop where
  accepted : Accepted env cfg s1 a m raw
  gpregret : s.gpregret = s1.gpregret
  retained : s.retained = s1.retained
  parsed : .parsed a m ∈ s.marks
  commit : .commit ∈ s.marks
  ready : Ready cfg m raw s.mem

theorem Handing.winds (h : Handing env cfg s1 a m raw s) (env' : Env) {o : Op} (ho : Winds o) :
    Handing env cfg s1 a m raw (after env' o s) := by
  obtain ⟨hg, hr, hm, hk⟩ := ho.keeps env' s
  exact ⟨h.accepted, hg.trans h.gpregret, hr.trans h.retained, hk ▸ h.parsed, hk ▸ h.commit,
    hm ▸ h.ready⟩

theorem Handing.op (h : Handing env cfg s1 a m raw s) {o : Op} (ho : Winds o) :
    BootOp env cfg s1 o s := .winds h.gpregret h.retained ho

/-- The MBR command, and its return where it does not copy. -/
theorem Handing.mbr (h : Handing env cfg s1 a m raw s) :
    (do
      gpregret2Set blMbrHandoff
      let copies ← mbrCopy raw
      if copies then return true
      else
        gpregret2Set blMbrReturned
        return false : MotaM Bool).Sat (handler env) (BootOp env cfg s1) (BootEnd cfg s1) s := by
  have h1 := h.winds env (o := .setGpregret2 blMbrHandoff) trivial
  refine sat_op.mpr ⟨h.op trivial, sat_op.mpr ⟨?_, ?_⟩⟩
  · exact .hands a m raw h1.accepted h1.gpregret h1.retained h1.parsed h1.ready
  · change Sat _ _ _ (if env.mbrCopies = true then _ else _) _
    split_ifs
    · exact ⟨h1.gpregret, h1.retained, nofun⟩
    · refine sat_op.mpr ⟨.winds h1.gpregret h1.retained trivial, ?_⟩
      exact ⟨h1.gpregret, h1.retained, fun _ => .inl h1.commit⟩

/-- The release of the source, then the MBR command. -/
theorem Handing.release (h : Handing env cfg s1 a m raw s) :
    (do
      if cfg.sdBootloaderUpdate then
        let g ← getStatics
        if g.sdSource then
          otaSdDeinit
          if cfg.rakSdStore then modifyStatics fun g => { g with sdActive := false }
      else if cfg.qspiBootloaderUpdate then
        otaQspiDeinit
        modifyStatics fun g => { g with qspiSource := false }
      gpregret2Set blMbrHandoff
      let copies ← mbrCopy raw
      if copies then return true
      else
        gpregret2Set blMbrReturned
        return false : MotaM Bool).Sat (handler env) (BootOp env cfg s1) (BootEnd cfg s1) s := by
  have hmodify : ∀ s, Handing env cfg s1 a m raw s → ∀ (f : Statics → Statics) (k : MotaM Bool),
      (∀ s', Handing env cfg s1 a m raw s' →
        k.Sat (handler env) (BootOp env cfg s1) (BootEnd cfg s1) s') →
      (modifyStatics f >>= fun _ => k).Sat (handler env) (BootOp env cfg s1) (BootEnd cfg s1) s := by
    intro s h f k hk
    have h1 := h.winds env (o := .get) trivial
    refine sat_get.mpr ⟨h.op trivial, sat_op.mpr ⟨h1.op trivial, hk _ (h1.winds env trivial)⟩⟩
  simp only
  by_cases hsd : cfg.sdBootloaderUpdate = true
  · rw [if_pos hsd]
    have h1 := h.winds env (o := .get) trivial
    refine sat_get.mpr ⟨h.op trivial, ?_⟩
    by_cases hsrc : s.statics.sdSource = true
    · rw [if_pos hsrc]
      have h2 := h1.winds env (o := .sdDeinit) trivial
      refine sat_op.mpr ⟨h1.op trivial, ?_⟩
      by_cases hrak : cfg.rakSdStore = true
      · rw [if_pos hrak]
        exact hmodify _ h2 _ _ fun s' h' => h'.mbr
      · rw [if_neg hrak]
        exact h2.mbr
    · rw [if_neg hsrc]
      exact h1.mbr
  · rw [if_neg hsd]
    by_cases hq : cfg.qspiBootloaderUpdate = true
    · rw [if_pos hq]
      refine sat_op.mpr ⟨h.op trivial, ?_⟩
      exact hmodify _ (h.winds env (o := .qspiDeinit) trivial) _ _ fun s' h' => h'.mbr
    · rw [if_neg hq]
      exact h.mbr

/-- Page writes in the raw area. -/
theorem Accepted.sat_writes {p : MotaM α} {Q : α → Device → Prop}
    (h : Accepted env cfg s1 a m raw) (hs : Session s1 s) (hm : .parsed a m ∈ s.marks)
    (hp : p.Sat (handler env) (Writes cfg raw (raw + motaBlSize)) Q s) :
    p.Sat (handler env) (BootOp env cfg s1) (fun x s' => Q x s' ∧ Touched raw (raw + motaBlSize) s s')
      s :=
  (hp.keep (Touched.refl s) fun _ _ ho ht => ht.trans (touched_after ho)).mono
    (fun _ _ h' => .copies a m raw h (hs.touched h'.2) (h'.2.marks_subset hm) h'.1) fun _ _ h => h

theorem installBootloader_spec (h : Found env cfg (Slot cfg s1) s1 a m s)
    (hacc : Accepted env cfg s1 a m raw) :
    (installBootloader cfg m raw).Sat (handler env) (BootOp env cfg s1) (BootEnd cfg s1) s := by
  have hsize := bootUpdatePolicyValid_size hacc.policy
  have hpages := rawPages hacc
  refine (sat_boot h.clearApproval).bind fun r s2 h2 => ?_
  have hrej := h.cleared h2
  cases r with
  | false => exact hrej.failApply _
  | true =>
    have hparsed2 := h2.marks _ h.parsed
    have hcopy := hacc.sat_writes hrej.session hparsed2 (copyPages_spec hpages (Nat.le_refl _)
      hpages.low (Nat.add_le_add_left (Nat.le_of_eq hsize) raw) (m.imageSize / codePageSize + 1)
      (Nat.zero_mod _) s2)
    have hpos : 0 < m.imageSize := by
      rw [hsize]
      decide
    refine ((hcopy.and (copyPages_first hpos)).mono (fun _ _ h => h.1) fun _ _ h => h).bind
      fun r s3 h3 => ?_
    obtain ⟨⟨-, ht⟩, hfirst⟩ := h3
    have hses3 := hrej.session.touched ht
    have hcopying : .commit ∈ s3.marks → Copying env cfg s1 a m raw s3 := fun hc =>
      ⟨hacc, hses3, ht.marks_subset hparsed2, hc⟩
    by_cases hr : r ≠ 0
    · rw [if_pos hr]
      rcases hfirst with hc | ⟨-, hmem, hmarks⟩
      · exact (hcopying hc).failApply _
      · refine Rejected.failApply ⟨hses3, ?_, fun hx => hmem.trans (hrej.external hx),
          ht.nor ▸ hrej.nor⟩ _
        rw [hmem, hmarks]
        exact hrej.kept
    rw [if_neg hr]
    have h3 := hcopying (hfirst.resolve_right fun h => hr h.1)
    refine (sat_boot (sat_reads h3.session (fullImageHashValid_live m raw))).bind fun r s4 h4 => ?_
    obtain ⟨⟨hhash, -⟩, hq4⟩ := h4
    have h4 := h3.quiet hq4
    cases r with
    | false => exact h4.failApply _
    | true =>
      have hview : Reads cfg .view s4 := trivial
      have hq5 : Quiet s4 (after env .view s4) := (still_after hview).quiet
      have h5 := h4.quiet hq5
      -- decided before the program is in sight, whose evaluation would read the whole image
      obtain ⟨valid, hvalid⟩ : ∃ valid, bootImageMetadataValidAt cfg s4.mem raw m = valid := ⟨_, rfl⟩
      refine sat_op.mpr ⟨.common (.closes h4.session hview.closes), ?_⟩
      rw [show (answer env Op.view s4 : Mem) = s4.mem from rfl, hvalid]
      cases valid with
      | false => exact h5.failApply _
      | true =>
        refine Handing.release ⟨hacc, h5.session.gpregret, h5.session.retained, h5.parsed,
          h5.commit, ?_, ?_⟩
        · rw [hq5.mem, hq4.mem, ← hsize]
          exact of_decide_eq_true hhash.symm
        · rw [hq5.mem]
          exact hvalid

/-! ## The checks of a package -/

theorem Found.bootUpdateReject (h : Found env cfg (Slot cfg s1) s1 a m s) (code : Nat) :
    (bootUpdateReject cfg m code).Sat (handler env) (BootOp env cfg s1) (BootEnd cfg s1) s :=
  (sat_boot (bootUpdateReject_spec h code)).post fun _ _ h' => .of_rejected h'.2

theorem bootUpdateRawStart_keeps {g g' : Statics} (h : KeepsSource g g') :
    bootUpdateRawStart cfg g' = bootUpdateRawStart cfg g := by
  simp only [bootUpdateRawStart, h.sdSource]

theorem checkBootloader_spec (h : Found env cfg (Slot cfg s1) s1 a m s)
    (hsel : cfg.sdSelected s1.statics = (cfg.sdBootloaderUpdate && s1.statics.sdSource)) :
    (checkBootloader cfg m).Sat (handler env) (BootOp env cfg s1) (BootEnd cfg s1) s := by
  have hsource : ∀ s', Session s1 s' →
      (cfg.sdBootloaderUpdate && s'.statics.sdSource) = cfg.sdSelected s1.statics := by
    intro s' h'
    rw [hsel, h'.source.sdSource]
  have hread : Reads cfg .get s := trivial
  have hf1 : Found env cfg (Slot cfg s1) s1 a m (after env .get s) := h.quiet (still_after hread).quiet
  refine sat_get.mpr ⟨.common (.closes h.session hread.closes), ?_⟩
  rw [hsource s h.session]
  refine Sat.bind (Q := fun r s' => Found env cfg (Slot cfg s1) s1 a m s' ∧
    (r = true → Bound env cfg s1)) ?_ fun r s2 h2 => ?_
  · split_ifs with hsd
    · refine (sat_boot (sat_reads hf1.session sdAuthorizedContainerValid_spec)).post fun r s' h' =>
        ⟨hf1.quiet h'.2, fun hr _ hstab => ?_⟩
      have hk := hf1.session.source
      rw [← hk.sdAuth, ← hf1.sourceByte]
      exact h'.1.1 hr hstab
    · exact ⟨hf1, fun _ hsel => absurd hsel hsd⟩
  obtain ⟨hf2, hbound⟩ := h2
  cases r with
  | false => exact hf2.bootUpdateReject _
  | true =>
    by_cases hpolicy : bootUpdatePolicyValid cfg m = true
    · simp only [Bool.not_true, Bool.false_eq_true, if_false]
      rw [if_neg (by simp [hpolicy])]
      refine (sat_boot (sat_reads hf2.session (onlyReads_stagedVectorsValid _ _))).bind
        fun vectors s3 h3 => ?_
      have hf3 := hf2.quiet h3.2
      refine Sat.bind (Q := fun _ s' => Found env cfg (Slot cfg s1) s1 a m s') ?_ fun r s4 hf4 => ?_
      · split_ifs
        · exact (sat_boot (sat_reads hf3.session (fullImageHashValid_staged m _))).post
            fun _ _ h' => hf3.quiet h'.2
        · exact hf3
      cases r with
      | false => exact hf4.bootUpdateReject _
      | true =>
        have hread4 : Reads cfg .get s4 := trivial
        have hf5 : Found env cfg (Slot cfg s1) s1 a m (after env .get s4) :=
          hf4.quiet (still_after hread4).quiet
        have hread5 : Reads cfg .view (after env .get s4) := trivial
        have hf6 : Found env cfg (Slot cfg s1) s1 a m (after env .view (after env .get s4)) :=
          hf5.quiet (still_after hread5).quiet
        refine sat_get.mpr ⟨.common (.closes hf4.session hread4.closes), ?_⟩
        refine sat_flash.mpr ⟨.common (.closes hf5.session hread5.closes), ?_⟩
        rw [hf5.mem, bootUpdateRawStart_keeps hf4.session.source, hsource s4 hf4.session]
        by_cases hfits : otaDeltaLiveAppFitsBelow s1.mem (bootUpdateRawStart cfg s1.statics) = true
        · rw [if_neg (by simp [hfits])]
          split_ifs with hmeta htoken
          · exact hf6.bootUpdateReject _
          · exact hf6.bootUpdateReject _
          · refine installBootloader_spec hf6 ⟨h.slot, h.chosen, hbound rfl, rfl, hpolicy, hfits, ?_⟩
            intro hsd
            simpa [hsd] using htoken
        · rw [if_pos (by simpa using hfits)]
          exact hf6.bootUpdateReject _
    · simp only [Bool.not_true, Bool.false_eq_true, if_false]
      rw [if_pos (by simpa using hpolicy)]
      exact hf2.bootUpdateReject _

/-! ## The search -/

/-- An operation of a bootloader update whose handoff selects `b`. -/
abbrev BootRunOp (env : Env) (cfg : Profile) (s0 : Device) (b : Backend) : Op → Device → Prop :=
  RunOp env cfg s0 b sdAuthPurposeBootloader 3 (BootOp env cfg)

abbrev BootRunEnd (env : Env) (cfg : Profile) (s0 : Device) (b : Backend) : Bool → Device → Prop :=
  RunEnd env cfg s0 b sdAuthPurposeBootloader 3 (BootEnd cfg)

/-- The backend the handoff value of a bootloader update selects. -/
def bootBackend (cfg : Profile) (source : Nat) : Backend :=
  if cfg.sdBootloaderUpdate && (!cfg.sdOptional || source = stageSd) then .sd
  else if cfg.qspiBootloaderUpdate then .qspi
  else .internal

/-- What follows the search for a package. -/
def afterScan (cfg : Profile) (r : Option (Nat × MotaMin)) : MotaM Bool :=
  match r with
  | none => failApply cfg blContainer
  | some (_, m) => if !m.approved then failApply cfg blContainer else checkBootloader cfg m

variable {b : Backend}

/-- The search in the selected source, and what follows it. -/
theorem afterScan_spec (ceiling : Nat) (hsel : Selected env cfg s0 b sdAuthPurposeBootloader 3 s1)
    (hm0 : s0.marks = []) (hbase : BaseOk (dfuBank0RegionStart s0.mem)) (hb : b ≠ .hybrid)
    (hsd : cfg.sdSelected s1.statics = (cfg.sdBootloaderUpdate && s1.statics.sdSource))
    (f : Option (Nat × MotaMin) → Option (Nat × MotaMin))
    (hf : ∀ r a m, f r = some (a, m) → r = some (a, m) ∧ Slot cfg s1 a) :
    (do
      let r ← scanMota cfg ceiling
      afterScan cfg (f r) : MotaM Bool).Sat (handler env) (BootRunOp env cfg s0 b)
      (BootRunEnd env cfg s0 b) s1 := by
  suffices hrest : Sat (handler env) (BootOp env cfg s1) (BootEnd cfg s1) _ s1 from
    hrest.mono (fun _ _ ho => .later s1 hsel ho) fun _ _ he => .ended s1 hsel he
  refine (sat_boot (scanMota_spec ceiling (Session.refl s1) rfl rfl)).bind fun r s2 h2 => ?_
  have hrej : Rejected cfg s1 s2 := rejected_of_same h2.session h2.mem h2.nor
  have hmarks := h2.marks
  rw [hsel.marks, hm0, List.nil_append] at hmarks
  cases hr : f r with
  | none => exact hrej.failApply _
  | some p =>
    obtain ⟨a, m⟩ := p
    obtain ⟨rfl, hslot⟩ := hf r a m hr
    unfold afterScan
    by_cases happ : m.approved = true
    · simp only
      rw [if_neg (by simp [happ])]
      refine checkBootloader_spec (a := a) ⟨h2.session, hslot, ?_, ?_, h2.mem, h2.nor,
        hsel.empty.keeps h2.cache, ?_, ?_⟩ hsd
      · exact hsel.chosen hbase (h2.located a m rfl) happ fun h => absurd h hb
      · rw [hmarks]
        exact List.mem_singleton_self _
      · rw [hsel.mem]
        exact hbase.pos
      · intro lo hi hd
        rw [hmarks] at hd
        cases List.mem_singleton.mp hd
    · simp only
      rw [if_pos (by simpa using happ)]
      exact hrej.failApply _

/-- Without a record, a source other than the card is selected by its variables. -/
theorem At.selected {g : Statics} {rec : List Byte} {purpose formatVer : Byte} (h : At s0 g rec s)
    (hb : b = .internal ∨ b = .qspi) (hempty : CacheEmpty g) (hsd : cfg.sdSelected g = false)
    (hhy : cfg.hybridSelected g = false) (hq : cfg.qspiSelected g = decide (b = .qspi)) :
    Selected env cfg s0 b purpose formatVer s where
  toPreluded := h.toPreluded
  gpregret := h.gpregret
  empty := h.statics ▸ hempty
  sd := by
    rw [h.statics, hsd]
    rcases hb with rfl | rfl <;> rfl
  hybrid := by
    rw [h.statics, hhy]
    rcases hb with rfl | rfl <;> rfl
  qspi _ := by rw [h.statics, hq]
  wiped h' := by rcases hb with rfl | rfl <;> simp at h'
  hybridRecord h' := by rcases hb with rfl | rfl <;> cases h'
  sdRecord h' := by rcases hb with rfl | rfl <;> cases h'

/-- The variables of a bootloader update. -/
def bootStatics (cfg : Profile) (source : Nat) : Statics :=
  { cfg.boot with
    sdSource := if cfg.sdBootloaderUpdate && cfg.sdOptional then source = stageSd
      else cfg.boot.sdSource }

theorem bootStatics_empty (cfg : Profile) (source : Nat) : CacheEmpty (bootStatics cfg source) :=
  ⟨List.length_replicate, rfl⟩

theorem bootStatics_hybrid (cfg : Profile) (source : Nat) :
    cfg.hybridSelected (bootStatics cfg source) = false := by
  simp [Profile.hybridSelected, bootStatics, Profile.boot]

theorem bootStatics_qspi (cfg : Profile) (source : Nat) :
    cfg.qspiSelected (bootStatics cfg source) = false := by
  simp [Profile.qspiSelected, bootStatics, Profile.boot]

/-- The card is the source just where the handoff selects it. -/
theorem bootStatics_sd (hb : cfg.builds = true) (source : Nat) :
    (cfg.sdBootloaderUpdate && (bootStatics cfg source).sdSource) =
      (cfg.sdBootloaderUpdate && (!cfg.sdOptional || source = stageSd)) := by
  unfold bootStatics Profile.boot
  cases hsd : cfg.sdBootloaderUpdate with
  | false => rfl
  | true =>
    have hcard := builds_sdBoot hb hsd
    cases ho : cfg.sdOptional <;> simp [hcard]

/-- Beside packages in internal flash, the card is no source of its own. -/
theorem bootStatics_internal (hb : cfg.builds = true) (hi : cfg.internalBootloaderUpdate = true)
    (source : Nat) : cfg.sdSelected (bootStatics cfg source) =
      (cfg.sdBootloaderUpdate && (bootStatics cfg source).sdSource) := by
  have honly := builds_internalBoot hb hi
  cases hsd : cfg.sdBootloaderUpdate with
  | true => simp [Profile.sdSelected, builds_sdBoot hb hsd]
  | false =>
    rw [Bool.false_and, ← honly]
    simp [Profile.sdSelected, bootStatics, Profile.boot, hsd]

/-- Without a record the card is not read. -/
theorem scanMota_unloaded (ceiling : Nat) (hsd : cfg.sdSelected s.statics = true)
    (hl : s.statics.sdAuthLoaded = false) :
    (scanMota cfg ceiling).Sat (handler env) (fun o _ => Preludes o) (fun r _ => r = none) s := by
  unfold scanMota scanSource scanSd
  rw [Prog.bind_assoc]
  refine sat_get.mpr ⟨trivial, ?_⟩
  rw [if_pos hsd, Prog.bind_assoc]
  refine sat_get.mpr ⟨trivial, ?_⟩
  rw [if_pos (by simp [show (after env .get s).statics.sdAuthLoaded = false from hl])]
  rfl

section Search

variable {source : Nat} (hm0 : s0.marks = []) (hbase : BaseOk (dfuBank0RegionStart s0.mem))
include hm0 hbase

theorem scanBootloader_sd (hsdb : cfg.sdBootloaderUpdate = true)
    (hsel : Selected env cfg s0 .sd sdAuthPurposeBootloader 3 s)
    (hsrc : s.statics.sdSource = true) :
    (scanBootloader cfg source).Sat (handler env) (BootRunOp env cfg s0 .sd)
      (BootRunEnd env cfg s0 .sd) s := by
  have hread : Reads cfg .get s := trivial
  have hsel1 : Selected env cfg s0 .sd sdAuthPurposeBootloader 3 (after env .get s) :=
    ⟨hsel.toPreluded.trans (preluded_after env trivial), hsel.gpregret, hsel.empty, hsel.sd, hsel.hybrid,
      hsel.qspi, hsel.wiped, hsel.hybridRecord, hsel.sdRecord⟩
  unfold scanBootloader scanBootloaderMota
  rw [Prog.bind_assoc]
  refine sat_get.mpr ⟨.prelude trivial hsel.toPreluded, ?_⟩
  rw [if_pos (by simp [hsdb, hsrc])]
  refine afterScan_spec _ hsel1 hm0 hbase nofun ?_ id fun r a m hr => ⟨hr, fun hst => ?_⟩
  · rw [hsel1.sd, show (after env .get s).statics.sdSource = true from hsrc, hsdb]
    rfl
  · rw [hsel1.flashStaged] at hst
    simp at hst

theorem scanBootloader_qspi (hb : cfg.builds = true) (hq : cfg.qspiBootloaderUpdate = true)
    (hno : (cfg.sdBootloaderUpdate && (bootStatics cfg source).sdSource) = false)
    (h : At s0 (bootStatics cfg source) s0.retained s) :
    (scanBootloader cfg source).Sat (handler env) (BootRunOp env cfg s0 .qspi)
      (BootRunEnd env cfg s0 .qspi) s := by
  have h1 : At s0 (bootStatics cfg source) s0.retained (after env .get s) :=
    h.step env .get trivial h.gpregret h.statics h.retained
  unfold scanBootloader scanBootloaderMota
  rw [Prog.bind_assoc]
  refine sat_get.mpr ⟨.prelude trivial h.toPreluded, ?_⟩
  rw [h.statics, if_neg (by simp [hno]), if_pos hq]
  by_cases hsrc : source = stageQspi
  · rw [if_neg (not_not_intro hsrc)]
    have h2 : At s0 (bootStatics cfg source) s0.retained (after env .get (after env .get s)) :=
      h1.step env .get trivial h1.gpregret h1.statics h1.retained
    set g : Statics := { bootStatics cfg source with qspiSource := true } with hg
    have h3 : At s0 g s0.retained (after env (.set { s.statics with qspiSource := true })
        (after env .get (after env .get s))) :=
      h2.step env (.set { s.statics with qspiSource := true }) trivial h2.gpregret
        (by rw [hg, ← h.statics]; rfl) h2.retained
    rw [Prog.bind_assoc]
    unfold modifyStatics
    rw [Prog.bind_assoc]
    refine sat_get.mpr ⟨.prelude trivial h1.toPreluded, sat_op.mpr ⟨.prelude trivial h2.toPreluded, ?_⟩⟩
    by_cases hsd : cfg.sdSelected g = true
    · -- a card that is the only source has no record here
      have hnone : (scanMota cfg cfg.appApplyEnd).Sat (handler env) (fun o _ => Preludes o)
          (fun r _ => r = none) _ := scanMota_unloaded _ (h3.statics ▸ hsd) (by rw [h3.statics]; rfl)
      refine (sat_prelude h3.toPreluded h3.gpregret hnone).bind fun r s4 h4 => ?_
      obtain ⟨rfl, hpre, hzero⟩ := h4
      exact failApply_refused hpre hzero _
    · rw [Bool.not_eq_true] at hsd
      have hsel : Selected env cfg s0 .qspi sdAuthPurposeBootloader 3 _ :=
        h3.selected (.inr rfl) ⟨(bootStatics_empty cfg source).length, rfl⟩ hsd
          (bootStatics_hybrid cfg source) (by simp [Profile.qspiSelected, hg, builds_qspiBoot hb hq])
      refine afterScan_spec _ hsel hm0 hbase (fun h => by cases h) ?_ id fun r a m hr => ⟨hr, fun hst => ?_⟩
      · rw [hsel.sd, h3.statics]
        exact hno.symm
      · rw [hsel.flashStaged] at hst
        simp at hst
  · rw [if_pos hsrc]
    exact failApply_refused h1.toPreluded h1.gpregret _

theorem scanBootloader_internal (hb : cfg.builds = true) (hq : cfg.qspiBootloaderUpdate = false)
    (hno : (cfg.sdBootloaderUpdate && (bootStatics cfg source).sdSource) = false)
    (h : At s0 (bootStatics cfg source) s0.retained s) :
    (scanBootloader cfg source).Sat (handler env) (BootRunOp env cfg s0 .internal)
      (BootRunEnd env cfg s0 .internal) s := by
  have h1 : At s0 (bootStatics cfg source) s0.retained (after env .get s) :=
    h.step env .get trivial h.gpregret h.statics h.retained
  unfold scanBootloader scanBootloaderMota
  rw [Prog.bind_assoc]
  refine sat_get.mpr ⟨.prelude trivial h.toPreluded, ?_⟩
  rw [h.statics, if_neg (by simp [hno]), if_neg (by simp [hq])]
  by_cases hi : cfg.internalBootloaderUpdate = true
  · rw [if_pos hi]
    by_cases hsrc : source = stageExpanded
    · rw [if_neg (not_not_intro hsrc), Prog.bind_assoc]
      have hsd := (bootStatics_internal hb hi source).trans hno
      have hsel : Selected env cfg s0 .internal sdAuthPurposeBootloader 3 (after env .get s) :=
        h1.selected (.inl rfl) (bootStatics_empty cfg source) hsd (bootStatics_hybrid cfg source)
          (bootStatics_qspi cfg source)
      refine afterScan_spec _ hsel hm0 hbase nofun ?_
        (fun r => r.filter fun p => p.1 = internalBlSlotStart) fun r a m hr => ?_
      · rw [hsel.sd, h1.statics]
        exact hno.symm
      · obtain ⟨hr, hslot⟩ := Option.filter_eq_some_iff.mp hr
        refine ⟨hr, fun _ => ⟨of_decide_eq_true hslot, ?_⟩⟩
        rw [h1.statics]
        exact bootUpdateRawStart_internal hb hi hno
    · rw [if_pos hsrc]
      exact failApply_refused h1.toPreluded h1.gpregret _
  · rw [if_neg hi]
    exact failApply_refused h1.toPreluded h1.gpregret _

theorem applyBootloaderUpdate_spec (hb : cfg.builds = true) (hs : Preluded s0 s)
    (hg : s.statics = cfg.boot) (hr : s.retained = s0.retained) (hsource : s.gpregret2 = source) :
    (applyBootloaderUpdate cfg).Sat (handler env) (BootRunOp env cfg s0 (bootBackend cfg source))
      (BootRunEnd env cfg s0 (bootBackend cfg source)) s := by
  have hp1 : Preluded s0 (after env .gpregret2 s) := hs.trans (preluded_after env trivial)
  have hp2 : Preluded s0 (after env (.setGpregret 0) (after env .gpregret2 s)) :=
    hp1.trans (preluded_after env (o := .setGpregret 0) rfl)
  have hat : At s0 cfg.boot s0.retained (after env (.setGpregret2 blGate)
      (after env (.setGpregret 0) (after env .gpregret2 s))) :=
    ⟨hp2.trans (preluded_after env trivial), rfl, hg, hr⟩
  have hrest : ∀ s1, At s0 (bootStatics cfg source) s0.retained s1 → (do
      let g ← getStatics
      if cfg.sdBootloaderUpdate && g.sdSource then
        let authorized ← sdAuthTake sdAuthPurposeBootloader 3
        if source ≠ stageSd then failApply cfg blContainer
        else if !authorized then failApply cfg blApproval
        else scanBootloader cfg source
      else scanBootloader cfg source : MotaM Bool).Sat (handler env)
      (BootRunOp env cfg s0 (bootBackend cfg source))
      (BootRunEnd env cfg s0 (bootBackend cfg source)) s1 := by
    intro s1 h1
    have h2 : At s0 (bootStatics cfg source) s0.retained (after env .get s1) :=
      h1.step env .get trivial h1.gpregret h1.statics h1.retained
    refine sat_get.mpr ⟨.prelude trivial h1.toPreluded, ?_⟩
    rw [h1.statics]
    have hback : bootBackend cfg source =
        if cfg.sdBootloaderUpdate && (bootStatics cfg source).sdSource then .sd
        else if cfg.qspiBootloaderUpdate then .qspi else .internal := by
      rw [bootStatics_sd hb]
      rfl
    rw [hback]
    by_cases hsd : (cfg.sdBootloaderUpdate && (bootStatics cfg source).sdSource) = true
    · rw [if_pos hsd, if_pos hsd]
      obtain ⟨hsdb, hsrc⟩ := Bool.and_eq_true_iff.mp hsd
      refine (sat_prelude h2.toPreluded h2.gpregret (sdAuthTake_spec h2 _ _)).bind fun r s3 h3 => ?_
      obtain ⟨⟨hr, h3⟩, hpre, hzero⟩ := h3
      by_cases hstage : source = stageSd
      · rw [if_neg (not_not_intro hstage)]
        cases r with
        | false => exact failApply_refused hpre hzero _
        | true =>
          refine scanBootloader_sd hm0 hbase hsdb (h3.selectedSd (bootStatics_empty cfg source) ?_
            (bootStatics_hybrid cfg source) hr.symm) ?_
          · simp [Profile.sdSelected, builds_sdBoot hb hsdb, hsrc]
          · rw [h3.statics]
            exact hsrc
      · rw [if_pos hstage]
        exact failApply_refused hpre hzero _
    · rw [if_neg hsd, if_neg hsd]
      rw [Bool.not_eq_true] at hsd
      by_cases hq : cfg.qspiBootloaderUpdate = true
      · rw [if_pos hq]
        exact scanBootloader_qspi hm0 hbase hb hq hsd h2
      · rw [if_neg hq]
        exact scanBootloader_internal hm0 hbase hb (by simpa using hq) hsd h2
  unfold applyBootloaderUpdate
  refine sat_op.mpr ⟨.prelude trivial hs, sat_op.mpr ⟨.prelude rfl hp1, sat_op.mpr
    ⟨.prelude trivial hp2, ?_⟩⟩⟩
  rw [show answer env Op.gpregret2 s = source from hsource]
  simp only
  by_cases ho : (cfg.sdBootloaderUpdate && cfg.sdOptional) = true
  · rw [if_pos ho]
    have hget := hat.step env .get trivial hat.gpregret hat.statics hat.retained
    refine sat_get.mpr ⟨.prelude trivial hat.toPreluded, sat_op.mpr
      ⟨.prelude trivial hget.toPreluded, hrest _ ?_⟩⟩
    refine hget.step env (.set _) trivial hget.gpregret ?_ hget.retained
    change { s.statics with sdSource := decide (source = stageSd) } = _
    rw [hg, bootStatics, if_pos ho]
  · rw [if_neg ho]
    refine hrest _ ?_
    simpa [bootStatics, ho] using hat

end Search

end OtaFix.Mota
