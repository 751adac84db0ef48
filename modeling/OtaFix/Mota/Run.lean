import OtaFix.Mota.BootRun

/-!
# Runs of `ota_delta_check_and_apply`

The whole function, from a reset on: `MotaOp` says what each of its operations may
be and in which state it is performed, `MotaEnd` how it returns. The properties of
an update below and in the modules after this one are read off these two.
-/

namespace OtaFix.Mota

open Lib Prog

variable {env : Env} {cfg : Profile} {s s' s0 : Device} {decoder : Nat → Decoder}

/-- The device as a reset leaves it to the bootloader: the variables are fresh, and the
SoftDevice ends at a page below the staging areas. -/
structure Booted (cfg : Profile) (s0 : Device) : Prop where
  builds : cfg.builds = true
  base : BaseOk (dfuBank0RegionStart s0.mem)
  statics : s0.statics = cfg.boot
  ops : s0.ops = []
  marks : s0.marks = []
  mbr : s0.mbr = []
  nor : s0.nor = []

/-- The trigger of an application update, or of a bootloader update where the build
has one. -/
def Recognised (cfg : Profile) (trigger : Nat) : Prop :=
  trigger = otaApply ∨ (cfg.bootloaderUpdateEnabled = true ∧ trigger = bootloaderApply)

inductive MotaOp (env : Env) (cfg : Profile) (s0 : Device) : Op → Device → Prop where
  | prelude {o : Op} {s : Device} (ho : Preludes o) (hs : Preluded s0 s) : MotaOp env cfg s0 o s
  | app {o : Op} {s : Device} (ht : s0.gpregret = otaApply)
      (h : AppRunOp env cfg s0 (appBackend cfg s0.gpregret2) o s) : MotaOp env cfg s0 o s
  | boot {o : Op} {s : Device} (he : cfg.bootloaderUpdateEnabled = true)
      (ht : s0.gpregret = bootloaderApply)
      (h : BootRunOp env cfg s0 (bootBackend cfg s0.gpregret2) o s) : MotaOp env cfg s0 o s

inductive MotaEnd (env : Env) (cfg : Profile) (s0 : Device) : Bool → Device → Prop where
  | idle {s : Device} (ht : ¬ Recognised cfg s0.gpregret) (h : Preluded s0 s)
      (hg : s.gpregret = s0.gpregret) : MotaEnd env cfg s0 false s
  | app {r : Bool} {s : Device} (ht : s0.gpregret = otaApply)
      (h : AppRunEnd env cfg s0 (appBackend cfg s0.gpregret2) r s) : MotaEnd env cfg s0 r s
  | boot {r : Bool} {s : Device} (he : cfg.bootloaderUpdateEnabled = true)
      (ht : s0.gpregret = bootloaderApply)
      (h : BootRunEnd env cfg s0 (bootBackend cfg s0.gpregret2) r s) : MotaEnd env cfg s0 r s

theorem appBackend_hybrid {stageHandoff : Nat} (h : appBackend cfg stageHandoff = .hybrid) :
    cfg.ramArena = true ∧ stageHandoff = stageHybrid := by
  unfold appBackend at h
  split_ifs at h with h1 h2
  exact ⟨(Bool.and_eq_true_iff.mp h2).1, of_decide_eq_true (Bool.and_eq_true_iff.mp h2).2⟩

/-- An application update, from its recognised trigger on. -/
theorem applyAppTrigger_spec (h : Booted cfg s0) (hs : Preluded s0 s)
    (hg : s.statics = cfg.boot) (hr : s.retained = s0.retained) (h2 : s.gpregret2 = s0.gpregret2) :
    (do
      let stageHandoff ← gpregret2Get
      gpregretSet 0
      gpregret2Set 0xB1
      let selected ← selectSource cfg stageHandoff
      if !selected then failApply cfg 0xBE
      else applyApp cfg decoder (stageCeilingOf cfg stageHandoff) : MotaM Bool).Sat (handler env)
      (AppRunOp env cfg s0 (appBackend cfg s0.gpregret2))
      (AppRunEnd env cfg s0 (appBackend cfg s0.gpregret2)) s := by
  have hp1 : Preluded s0 (after env .gpregret2 s) := hs.trans (preluded_after env trivial)
  have hp2 : Preluded s0 (after env (.setGpregret 0) (after env .gpregret2 s)) :=
    hp1.trans (preluded_after env (o := .setGpregret 0) rfl)
  have hat : At s0 cfg.boot s0.retained (after env (.setGpregret2 0xB1)
      (after env (.setGpregret 0) (after env .gpregret2 s))) :=
    ⟨hp2.trans (preluded_after env trivial), rfl, hg, hr⟩
  refine sat_op.mpr ⟨.prelude trivial hs, sat_op.mpr ⟨.prelude rfl hp1, sat_op.mpr
    ⟨.prelude trivial hp2, ?_⟩⟩⟩
  rw [show answer env Op.gpregret2 s = s0.gpregret2 from h2]
  refine (sat_prelude hat.toPreluded hat.gpregret (selectSource_spec h.builds s0.gpregret2 hat)).bind
    fun r s3 h3 => ?_
  obtain ⟨⟨-, hpicked⟩, hpre, hzero⟩ := h3
  cases r with
  | false => exact failApply_refused hpre hzero _
  | true =>
    refine applyApp_spec (hpicked rfl) h.marks h.base (stageCeilingOf_ok cfg _) (fun hb => ?_) decoder
    obtain ⟨ha, heq⟩ := appBackend_hybrid hb
    rw [heq]
    exact stageCeilingOf_hybrid ha

/-- Without a trigger the function goes straight to its end. -/
theorem finishApply_idle (hs : Preluded s0 s) (hg : s.gpregret = s0.gpregret) :
    (finishApply cfg false).Sat (handler env) (fun o t => Preludes o ∧ Preluded s0 t)
      (fun r s' => r = false ∧ Preluded s0 s' ∧ s'.gpregret = s0.gpregret) s :=
  ((finishApply_spec false).keep (I := fun s => Preluded s0 s ∧ s.gpregret = s0.gpregret) ⟨hs, hg⟩
    fun _ _ ho h => ⟨h.1.trans (preluded_after env ho.2), (quiet_after env ho.1).gpregret.trans h.2⟩).mono
    (fun _ _ h => ⟨h.1.2, h.2.1⟩) fun _ _ h => h

theorem otaDeltaCheckAndApply_idle (ht : ¬ Recognised cfg s0.gpregret) (decoder : Nat → Decoder) :
    (otaDeltaCheckAndApply cfg decoder).Sat (handler env) (fun o t => Preludes o ∧ Preluded s0 t)
      (fun r s' => r = false ∧ Preluded s0 s' ∧ s'.gpregret = s0.gpregret) s0 := by
  have hrest : ∀ s, Preluded s0 s → s.gpregret = s0.gpregret → (do
      let trigger ← gpregretGet
      if cfg.bootloaderUpdateEnabled && trigger = bootloaderApply then applyBootloaderUpdate cfg
      else if trigger ≠ otaApply then finishApply cfg false
      else
        let stageHandoff ← gpregret2Get
        gpregretSet 0
        gpregret2Set 0xB1
        let selected ← selectSource cfg stageHandoff
        if !selected then failApply cfg 0xBE
        else applyApp cfg decoder (stageCeilingOf cfg stageHandoff) : MotaM Bool).Sat (handler env)
      (fun o t => Preludes o ∧ Preluded s0 t)
      (fun r s' => r = false ∧ Preluded s0 s' ∧ s'.gpregret = s0.gpregret) s := by
    intro s hs hg
    refine sat_op.mpr ⟨⟨trivial, hs⟩, ?_⟩
    rw [show answer env Op.gpregret s = s0.gpregret from hg]
    split_ifs with hboot happ
    · refine absurd (.inr ?_) ht
      simpa using hboot
    · exact finishApply_idle (hs.trans (preluded_after env trivial)) hg
    · exact absurd (.inl (not_not.mp happ)) ht
  unfold otaDeltaCheckAndApply
  simp only
  by_cases hrak : cfg.rakSdStore = true
  · rw [if_pos hrak]
    have hp1 : Preluded s0 (after env .get s0) := preluded_after env trivial
    exact sat_get.mpr ⟨⟨trivial, .refl s0⟩, sat_op.mpr ⟨⟨trivial, hp1⟩,
      hrest _ (hp1.trans (preluded_after env trivial)) rfl⟩⟩
  · rw [if_neg hrak]
    exact hrest s0 (.refl s0) rfl

/-- What the function resets is fresh at boot. -/
theorem boot_reset (h : cfg.rakSdStore = true) : ({ cfg.boot with
    sdSource := false, sdActive := false, sdAuthLoaded := false, qspiSource := false
    qspiTotalSize := 0, hybrid := { cfg.boot.hybrid with containerTotal := 0 } } : Statics) =
      cfg.boot := by
  simp [Profile.boot, Profile.sdOptional, h]

theorem otaDeltaCheckAndApply_spec (h : Booted cfg s0) (decoder : Nat → Decoder) :
    (otaDeltaCheckAndApply cfg decoder).Sat (handler env) (MotaOp env cfg s0) (MotaEnd env cfg s0)
      s0 := by
  by_cases hrec : Recognised cfg s0.gpregret
  case neg =>
    refine (otaDeltaCheckAndApply_idle hrec decoder).mono (fun _ _ h => .prelude h.1 h.2) ?_
    rintro r s' ⟨rfl, hp, hg⟩
    exact .idle hrec hp hg
  have hrest : ∀ s, Preluded s0 s → s.statics = cfg.boot → s.retained = s0.retained →
      s.gpregret = s0.gpregret → s.gpregret2 = s0.gpregret2 → (do
      let trigger ← gpregretGet
      if cfg.bootloaderUpdateEnabled && trigger = bootloaderApply then applyBootloaderUpdate cfg
      else if trigger ≠ otaApply then finishApply cfg false
      else
        let stageHandoff ← gpregret2Get
        gpregretSet 0
        gpregret2Set 0xB1
        let selected ← selectSource cfg stageHandoff
        if !selected then failApply cfg 0xBE
        else applyApp cfg decoder (stageCeilingOf cfg stageHandoff) : MotaM Bool).Sat (handler env)
      (MotaOp env cfg s0) (MotaEnd env cfg s0) s := by
    intro s hs hg hr ht h2
    have hp : Preluded s0 (after env .gpregret s) := hs.trans (preluded_after env trivial)
    refine sat_op.mpr ⟨.prelude trivial hs, ?_⟩
    rw [show answer env Op.gpregret s = s0.gpregret from ht]
    split_ifs with hboot happ
    · obtain ⟨he, hb⟩ := Bool.and_eq_true_iff.mp hboot
      exact (applyBootloaderUpdate_spec h.marks h.base h.builds hp hg hr h2).mono
        (fun _ _ ho => .boot he (of_decide_eq_true hb) ho) fun _ _ he' =>
          .boot he (of_decide_eq_true hb) he'
    · rcases hrec with hn | ⟨hn1, hn2⟩
      · exact absurd hn happ
      · exact absurd (by simp [hn1, hn2]) hboot
    · rw [not_not] at happ
      exact (applyAppTrigger_spec h hp hg hr h2).mono (fun _ _ ho => .app happ ho)
        fun _ _ he => .app happ he
  unfold otaDeltaCheckAndApply
  simp only
  by_cases hrak : cfg.rakSdStore = true
  · rw [if_pos hrak]
    have hp1 : Preluded s0 (after env .get s0) := preluded_after env trivial
    refine sat_get.mpr ⟨.prelude trivial (.refl s0), sat_op.mpr ⟨.prelude trivial hp1, ?_⟩⟩
    refine hrest _ (hp1.trans (preluded_after env trivial)) ?_ rfl rfl rfl
    rw [← boot_reset hrak, ← h.statics]
    rfl
  · rw [if_neg hrak]
    exact hrest s0 (.refl s0) h.statics rfl rfl rfl

/-! ## A device -/

/-- A build with a NOR beside internal flash. -/
def sampleProfile : Profile where
  qspiFlash := true
  qspiBootloaderUpdate := true
  qspiXiaoIdentity := true
  board :=
    { boardId := 0x239A0029
      deviceName := List.replicate 16 0x41
      deviceName_length := by simp
      softdeviceFamily := 0x8C
      recoveryAllowAllBoards := false }
  deviceName := ascii "SAMPLE"
  extension := []

/-- An application of two vectors and its `EndF` marker. -/
def sampleApp : List Byte := put32 0x20001000 ++ put32 0xDF009 ++ endf ++ put32 8

/-- The first bytes of the hash of its body. -/
def sampleBaseHash : List Byte := [0x53, 0x38, 0xB5, 0x0D, 0xEA, 0xA5, 0xF3, 0x8C]

/-- The application behind a SoftDevice; the settings page is erased. -/
def sampleFlash : Mem := fun x =>
  if 0x3004 ≤ x ∧ x < 0x300C then (put32 sdMagicNumber ++ put32 0xDF000).getD (x - 0x3004) 0
  else if 0xDF000 ≤ x ∧ x < 0xDF010 then sampleApp.getD (x - 0xDF000) 0
  else 0xFF

def sampleDevice (cfg : Profile) (trigger handoff : Nat) (retained : List Byte) : Device where
  mem := sampleFlash
  gpregret := trigger
  gpregret2 := handoff
  retained := retained
  statics := cfg.boot

theorem sampleDevice_booted {cfg : Profile} (h : cfg.builds = true) (trigger handoff : Nat)
    (retained : List Byte) : Booted cfg (sampleDevice cfg trigger handoff retained) :=
  have hbase : BaseOk (dfuBank0RegionStart sampleFlash) := ⟨by decide, by decide, by decide⟩
  ⟨h, hbase, rfl, rfl, rfl, rfl, rfl⟩

/-- An approved in-place container: a patch that makes an image of `size` bytes out of the
application whose hash starts with `baseHash`. -/
def appContainer (size : Nat) (patch imageHash baseHash : List Byte) : List Byte :=
  motaMagic ++ put32 (214 + patch.length) ++ [2, 0, 0x12] ++ put32 0 ++ put32 1 ++ put32 size ++
    put32 patch.length ++ [10] ++ List.replicate 4 0 ++ imageHash ++ [2] ++ List.replicate 32 0 ++
    baseHash ++ List.replicate 96 0 ++ motaAprv ++ put32 0 ++ patch ++ motaTrailer

/-- What is read from it at the start of a NOR. -/
def appManifest (size : Nat) (patch imageHash baseHash : List Byte) : MotaMin where
  isFull := false
  approved := true
  formatVer := 2
  flags := 0
  hashAlgo := 0x12
  blockSizeLog2 := 10
  total := 214 + patch.length
  imageSize := size
  payloadSize := patch.length
  payloadAddr := 209
  approvalAddr := approvalOffset
  targetId := 0
  fwVersion := 1
  blockCount := 1
  imageHash := imageHash
  codecId := codecInplace
  hwId := List.replicate 32 0
  baseHash := baseHash

/-- The header of a detools patch that makes 16 bytes. -/
def sampleHeader : List Byte := [0x12, 0x80, 0x40, 0x80, 0x40, 0x00, 0x80, 0x01, 0x10]

/-- A container whose payload is no more than that header. -/
def sampleContainer (baseHash : List Byte) : List Byte :=
  appContainer 16 sampleHeader (List.replicate 32 0) baseHash

/-- The NOR holds a container. -/
def norOf (container : List Byte) : Env :=
  { qspiCapacity := 0x1000, qspiByte := fun x => container.getD x 0xFF }

def sampleNor (baseHash : List Byte) : Env := norOf (sampleContainer baseHash)

end OtaFix.Mota
