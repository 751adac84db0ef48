import OtaFix.Mota.AppRun

/-!
# Selecting the source

From the boot of the device to the state behind which the source of an update is
fixed: the trigger is consumed, the handoff value has selected one of the staging
backends, and the retained record of a removable or hybrid source is wiped.
-/

namespace OtaFix.Mota

open Lib Prog

variable {env : Env} {cfg : Profile} {α : Type} {s s' s0 s1 : Device}

/-! ## Before any access -/

/-- The staging backends. -/
inductive Backend where
  | internal
  | hybrid
  | sd
  | qspi
  deriving DecidableEq, Repr

/-- The backend the handoff value of an application update selects. -/
def appBackend (cfg : Profile) (stageHandoff : Nat) : Backend :=
  if cfg.sdCard && (!cfg.sdOptional || stageHandoff = stageSd) then .sd
  else if cfg.ramArena && stageHandoff = stageHybrid then .hybrid
  else if cfg.qspiFlash && qspiHandoff cfg stageHandoff then .qspi
  else .internal

/-- The retained record, once it is consumed. -/
def wipedRecord : List Byte := List.replicate retainedLen 0

/-- The prelude has left these variables and this record. -/
structure At (s0 : Device) (g : Statics) (retained : List Byte) (s : Device) : Prop extends
    Preluded s0 s where
  gpregret : s.gpregret = 0
  statics : s.statics = g
  retained : s.retained = retained

section Prelude

variable {g : Statics} {rec : List Byte} {Q : α → Device → Prop}

theorem At.step (h : At s0 g rec s) (env : Env) (o : Op) (ho : Preludes o)
    (hg : (after env o s).gpregret = 0) {g' : Statics} (hs : (after env o s).statics = g')
    {rec' : List Byte} (hr : (after env o s).retained = rec') : At s0 g' rec' (after env o s) :=
  ⟨h.toPreluded.trans (preluded_after env ho), hg, hs, hr⟩

/-- A change of the variables. -/
theorem At.modify (h : At s0 g rec s) {f : Statics → Statics} {k : MotaM α}
    (hk : ∀ s', At s0 (f g) rec s' → k.Sat (handler env) (fun o _ => Preludes o) Q s') :
    (modifyStatics f >>= fun _ => k).Sat (handler env) (fun o _ => Preludes o) Q s := by
  have h1 : At s0 g rec (after env .get s) :=
    h.step env .get trivial h.gpregret h.statics h.retained
  refine sat_get.mpr ⟨trivial, sat_op.mpr ⟨trivial, hk _ ?_⟩⟩
  exact h1.step env (.set (f s.statics)) trivial h.gpregret (by rw [← h.statics]; rfl) h.retained

/-- The hybrid record is wiped, valid or not. -/
theorem hybridHandoffTake_spec (h : At s0 g s0.retained s) :
    hybridHandoffTake.Sat (handler env) (fun o _ => Preludes o)
      (fun r s' => (∃ g', At s0 g' wipedRecord s') ∧ (r = true →
        At s0 { g with hybrid := hybridOf s0.retained } wipedRecord s' ∧
        hybridHandoffValid env.resetreas (dfuBank0RegionStart s0.mem) s0.retained = true)) s := by
  have h1 : At s0 g wipedRecord (after env .takeRetained s) :=
    h.step env .takeRetained trivial h.gpregret h.statics rfl
  have h2 : At s0 g wipedRecord (after env .resetreas (after env .takeRetained s)) :=
    h1.step env .resetreas trivial h1.gpregret h1.statics h1.retained
  have h3 : At s0 g wipedRecord (after env .view (after env .resetreas (after env .takeRetained s))) :=
    h2.step env .view trivial h2.gpregret h2.statics h2.retained
  refine sat_op.mpr ⟨trivial, sat_op.mpr ⟨trivial, sat_op.mpr ⟨trivial, ?_⟩⟩⟩
  change Sat _ _ _ (if hybridHandoffValid env.resetreas (dfuBank0RegionStart s.mem) s.retained = true
    then _ else _) _
  rw [h.mem, h.retained]
  change Sat _ _ _ (if _ then modifyStatics (fun g => { g with hybrid := hybridOf s.retained }) >>= _
    else modifyStatics (fun g => { g with hybrid := { hybridOf s.retained with containerTotal := 0 } })
      >>= _) _
  rw [h.retained]
  split_ifs with hv
  · exact h3.modify fun s' h' => ⟨⟨_, h'⟩, fun _ => ⟨h', hv⟩⟩
  · exact h3.modify fun s' h' => ⟨⟨_, h'⟩, nofun⟩

/-- The SD record is wiped, valid or not. -/
theorem sdAuthTake_spec (h : At s0 g s0.retained s) (purpose formatVer : Byte) :
    (sdAuthTake purpose formatVer).Sat (handler env) (fun o _ => Preludes o)
      (fun r s' => r = motaSdAuthValid s0.retained purpose formatVer ∧
        At s0 { g with sdAuth := sdAuthOf s0.retained, sdAuthLoaded := r } wipedRecord s') s := by
  have h1 : At s0 g wipedRecord (after env .takeRetained s) :=
    h.step env .takeRetained trivial h.gpregret h.statics rfl
  refine sat_op.mpr ⟨trivial, ?_⟩
  change Sat _ _ _ (modifyStatics (fun g => { g with
    sdAuth := sdAuthOf s.retained, sdAuthLoaded := motaSdAuthValid s.retained purpose formatVer }) >>=
      fun _ => ret (motaSdAuthValid s.retained purpose formatVer)) _
  rw [h.retained]
  exact h1.modify fun s' h' => ⟨rfl, h'⟩

end Prelude

/-! ## The selected source -/

/-- The source of an update is the backend `b`, and nothing has been read of it. -/
structure Picked (env : Env) (cfg : Profile) (s0 : Device) (b : Backend) (s : Device) : Prop extends
    Preluded s0 s where
  gpregret : s.gpregret = 0
  empty : CacheEmpty s.statics
  sd : cfg.sdSelected s.statics = decide (b = .sd)
  hybrid : cfg.hybridSelected s.statics = decide (b = .hybrid)
  qspi : b ≠ .sd → cfg.qspiSelected s.statics = decide (b = .qspi)
  retained : b = .sd → s.retained = s0.retained
  wiped : b = .hybrid → s.retained = wipedRecord
  record : b = .hybrid → s.statics.hybrid = hybridOf s0.retained ∧
    hybridHandoffValid env.resetreas (dfuBank0RegionStart s0.mem) s0.retained = true

/-- The variables behind the selection. -/
def selectedStatics (cfg : Profile) (stageHandoff : Nat) (hybrid : Hybrid) : Statics :=
  { cfg.boot with
    sdSource := if cfg.sdOptional then stageHandoff = stageSd else cfg.boot.sdSource
    hybrid := hybrid
    qspiSource := cfg.qspiFlash && qspiHandoff cfg stageHandoff }

theorem selectedStatics_sd (cfg : Profile) (stageHandoff : Nat) (hybrid : Hybrid) :
    cfg.sdSelected (selectedStatics cfg stageHandoff hybrid) =
      (cfg.sdCard && (!cfg.sdOptional || stageHandoff = stageSd)) := by
  unfold Profile.sdSelected selectedStatics Profile.boot
  cases cfg.sdOptional <;> cases cfg.sdCard <;> simp

theorem selectedStatics_qspi (cfg : Profile) (stageHandoff : Nat) (hybrid : Hybrid) :
    cfg.qspiSelected (selectedStatics cfg stageHandoff hybrid) =
      (cfg.qspiFlash && qspiHandoff cfg stageHandoff) := by
  unfold Profile.qspiSelected selectedStatics
  cases cfg.qspiFlash <;> simp

theorem qspiHandoff_hybrid (cfg : Profile) : qspiHandoff cfg stageHybrid = false := by
  simp [qspiHandoff, stageHybrid, stageQspi, stageRak15001, stageHeaderW25]

/-- A valid handoff names a container. -/
theorem hybridHandoffValid_total {resetreas base : Nat} {r : List Byte}
    (h : hybridHandoffValid resetreas base r = true) : motaMinLen ≤ (hybridOf r).containerTotal := by
  simp only [hybridHandoffValid, Bool.and_eq_true, decide_eq_true_eq] at h
  exact h.1.1.2

/-- With the arena, the SD card is never the only source. -/
theorem builds_arena (hb : cfg.builds = true) (ha : cfg.ramArena = true) :
    (cfg.sdCard && !cfg.sdOptional) = false := by
  simp only [Profile.builds, Bool.and_eq_true, Bool.or_eq_true, Bool.not_eq_true'] at hb
  obtain ⟨⟨⟨⟨⟨⟨⟨⟨⟨h, -⟩, -⟩, -⟩, -⟩, -⟩, -⟩, -⟩, -⟩, -⟩ := hb
  rcases h with h | ⟨⟨-, h⟩, -⟩
  · rw [ha] at h
    cases h
  · exact h

theorem picked_hybrid (hb : cfg.builds = true) (ha : cfg.ramArena = true)
    (h : At s0 (selectedStatics cfg stageHybrid (hybridOf s0.retained)) wipedRecord s)
    (hv : hybridHandoffValid env.resetreas (dfuBank0RegionStart s0.mem) s0.retained = true) :
    Picked env cfg s0 (appBackend cfg stageHybrid) s := by
  have hsd : (cfg.sdCard && (!cfg.sdOptional || decide (stageHybrid = stageSd))) = false := by
    have := builds_arena hb ha
    simpa [stageHybrid, stageSd] using this
  have hback : appBackend cfg stageHybrid = .hybrid := by
    unfold appBackend
    rw [hsd]
    simp [ha]
  have htotal := hybridHandoffValid_total hv
  have hmin : motaMinLen = 210 := rfl
  rw [hback]
  refine ⟨h.toPreluded, h.gpregret, ?_, ?_, ?_, fun _ => ?_, nofun, fun _ => h.retained, fun _ => ?_⟩
  · rw [h.statics]
    exact ⟨List.length_replicate, rfl⟩
  · rw [h.statics, selectedStatics_sd, hsd]
    rfl
  · rw [h.statics]
    simp only [Profile.hybridSelected, selectedStatics, ha, Bool.true_and]
    exact decide_eq_true (by omega)
  · rw [h.statics, selectedStatics_qspi, qspiHandoff_hybrid, Bool.and_false]
    rfl
  · rw [h.statics]
    exact ⟨rfl, hv⟩

theorem picked_other {stageHandoff : Nat} (hh : (cfg.ramArena && stageHandoff = stageHybrid) = false)
    (h : At s0 (selectedStatics cfg stageHandoff {}) s0.retained s) :
    Picked env cfg s0 (appBackend cfg stageHandoff) s := by
  have hback : appBackend cfg stageHandoff =
      if cfg.sdCard && (!cfg.sdOptional || stageHandoff = stageSd) then .sd
      else if cfg.qspiFlash && qspiHandoff cfg stageHandoff then .qspi else .internal := by
    unfold appBackend
    rw [hh]
    rfl
  have hne : appBackend cfg stageHandoff ≠ .hybrid := by
    rw [hback]
    split_ifs <;> exact nofun
  refine ⟨h.toPreluded, h.gpregret, ?_, ?_, ?_, fun hsd => ?_, fun _ => h.retained,
    fun hb => absurd hb hne, fun hb => absurd hb hne⟩
  · rw [h.statics]
    exact ⟨List.length_replicate, rfl⟩
  · rw [h.statics, selectedStatics_sd, hback]
    split_ifs with h1
    · rw [h1]
      rfl
    · simpa using h1
    · simpa using h1
  · rw [h.statics]
    simp [Profile.hybridSelected, selectedStatics, hne]
  · rw [h.statics, selectedStatics_qspi]
    rw [hback] at hsd ⊢
    split_ifs at hsd ⊢ with h1 h2
    · exact absurd rfl hsd
    · rw [h2]
      rfl
    · simpa using h2

/-- The last step of the selection: the NOR. -/
theorem selectNor_spec {g : Statics} {rec : List Byte} (stageHandoff : Nat) (h : At s0 g rec s) :
    (do
      if cfg.qspiFlash then
        modifyStatics fun g => { g with qspiSource := qspiHandoff cfg stageHandoff }
        if cfg.rakAutoStore && qspiHandoff cfg stageHandoff then otaQspiSetRakSource stageHandoff
      return true : MotaM Bool).Sat (handler env) (fun o _ => Preludes o)
      (fun r s' => r = true ∧ At s0 { g with
        qspiSource := if cfg.qspiFlash then qspiHandoff cfg stageHandoff else g.qspiSource } rec s')
      s := by
  simp only
  by_cases hq : cfg.qspiFlash = true
  · rw [if_pos hq, if_pos hq]
    refine h.modify fun s1 h1 => ?_
    split_ifs
    · refine sat_op.mpr ⟨trivial, rfl, ?_⟩
      exact h1.step env (.qspiSetRakSource stageHandoff) trivial h1.gpregret h1.statics h1.retained
    · exact ⟨rfl, h1⟩
  · rw [if_neg hq, if_neg hq]
    exact ⟨rfl, h⟩

theorem selectSource_spec (hb : cfg.builds = true) (stageHandoff : Nat)
    (h : At s0 cfg.boot s0.retained s) :
    (selectSource cfg stageHandoff).Sat (handler env) (fun o _ => Preludes o)
      (fun r s' => (∃ g rec, At s0 g rec s') ∧
        (r = true → Picked env cfg s0 (appBackend cfg stageHandoff) s')) s := by
  have hrest : ∀ s1, At s0 { cfg.boot with sdSource :=
      if cfg.sdOptional then stageHandoff = stageSd else cfg.boot.sdSource } s0.retained s1 → (do
      let taken ← (if cfg.ramArena && stageHandoff = stageHybrid then hybridHandoffTake
        else pure true)
      if !taken then return false
      else
        if cfg.qspiFlash then
          modifyStatics fun g => { g with qspiSource := qspiHandoff cfg stageHandoff }
          if cfg.rakAutoStore && qspiHandoff cfg stageHandoff then otaQspiSetRakSource stageHandoff
        return true : MotaM Bool).Sat (handler env) (fun o _ => Preludes o)
      (fun r s' => (∃ g rec, At s0 g rec s') ∧
        (r = true → Picked env cfg s0 (appBackend cfg stageHandoff) s')) s1 := by
    intro s1 h1
    by_cases hh : (cfg.ramArena && decide (stageHandoff = stageHybrid)) = true
    · obtain ⟨ha, hs⟩ := Bool.and_eq_true_iff.mp hh
      obtain rfl := of_decide_eq_true hs
      rw [if_pos hh]
      refine Sat.bindVerified (hybridHandoffTake_spec h1) (fun s2 h2 => ?_) fun s2 h2 => ?_
      · obtain ⟨g, hg⟩ := h2.1
        exact ⟨⟨g, _, hg⟩, nofun⟩
      · obtain ⟨hat, hv⟩ := h2.2 rfl
        refine (selectNor_spec stageHybrid hat).post fun r s' h' => ⟨⟨_, _, h'.2⟩, fun _ => ?_⟩
        refine picked_hybrid hb ha ?_ hv
        have h3 := h'.2
        cases hq : cfg.qspiFlash <;> simpa [selectedStatics, hq, Profile.boot] using h3
    · rw [if_neg hh]
      refine (selectNor_spec stageHandoff h1).post fun r s' h' => ⟨⟨_, _, h'.2⟩, fun _ => ?_⟩
      refine picked_other (by simpa using hh) ?_
      have h3 := h'.2
      cases hq : cfg.qspiFlash <;> simpa [selectedStatics, hq, Profile.boot] using h3
  unfold selectSource
  simp only
  by_cases ho : cfg.sdOptional = true
  · rw [if_pos ho]
    refine h.modify fun s1 h1 => hrest s1 ?_
    simpa [ho] using h1
  · rw [if_neg ho]
    refine hrest s ?_
    simpa [ho] using h

/-! ## The authorized source -/

/-- The source of an update is the backend `b`; the record that authorizes it is valid
for this purpose and format, and it is consumed. -/
structure Selected (env : Env) (cfg : Profile) (s0 : Device) (b : Backend) (purpose formatVer : Byte)
    (s1 : Device) : Prop extends Preluded s0 s1 where
  gpregret : s1.gpregret = 0
  empty : CacheEmpty s1.statics
  sd : cfg.sdSelected s1.statics = decide (b = .sd)
  hybrid : cfg.hybridSelected s1.statics = decide (b = .hybrid)
  qspi : b ≠ .sd → cfg.qspiSelected s1.statics = decide (b = .qspi)
  wiped : b = .sd ∨ b = .hybrid → s1.retained = wipedRecord
  hybridRecord : b = .hybrid → s1.statics.hybrid = hybridOf s0.retained ∧
    hybridHandoffValid env.resetreas (dfuBank0RegionStart s0.mem) s0.retained = true
  sdRecord : b = .sd → s1.statics.sdAuth = sdAuthOf s0.retained ∧
    motaSdAuthValid s0.retained purpose formatVer = true

section Selected

variable {b : Backend} {purpose formatVer : Byte}

theorem Picked.selected (h : Picked env cfg s0 b s) (hb : b ≠ .sd) :
    Selected env cfg s0 b purpose formatVer s :=
  ⟨h.toPreluded, h.gpregret, h.empty, h.sd, h.hybrid, h.qspi, fun h' => h.wiped (h'.resolve_left hb),
    h.record, fun h' => absurd h' hb⟩

/-- The card is selected, and its record is valid. -/
theorem At.selectedSd {g : Statics} {r : Bool} (h : At s0 { g with
      sdAuth := sdAuthOf s0.retained, sdAuthLoaded := r } wipedRecord s)
    (hempty : CacheEmpty g) (hsd : cfg.sdSelected g = true) (hhy : cfg.hybridSelected g = false)
    (hv : motaSdAuthValid s0.retained purpose formatVer = true) :
    Selected env cfg s0 .sd purpose formatVer s where
  toPreluded := h.toPreluded
  gpregret := h.gpregret
  empty := by
    rw [h.statics]
    exact ⟨hempty.length, hempty.page⟩
  -- compare fields: the whole records would be compared through the new one
  sd := by
    refine Eq.trans ?_ hsd
    simp only [Profile.sdSelected, h.statics]
  hybrid := by
    refine Eq.trans ?_ hhy
    simp only [Profile.hybridSelected, h.statics]
  qspi hn := absurd rfl hn
  wiped _ := h.retained
  hybridRecord h' := by cases h'
  sdRecord _ := ⟨by rw [h.statics], hv⟩

theorem Selected.flashStaged (h : Selected env cfg s0 b purpose formatVer s1) :
    FlashStaged cfg s1.statics ↔ b = .internal ∨ b = .hybrid := by
  unfold FlashStaged
  rw [h.sd]
  cases b with
  | sd => simp
  | internal | hybrid | qspi =>
    rw [h.qspi nofun]
    simp

/-- The flash prefix of a hybrid container is at least a page. -/
theorem hybridRequiredFlashLen_page (total : Nat) : codePageSize ≤ hybridRequiredFlashLen total := by
  have hp : codePageSize = 0x1000 := rfl
  unfold hybridRequiredFlashLen
  split_ifs
  · simp only [hp]
    omega
  · exact Nat.le_refl _

/-- Where the flash prefix of a hybrid container lies. -/
theorem hybridHandoffValid_window {resetreas base : Nat} {r : List Byte}
    (h : hybridHandoffValid resetreas base r = true) : (hybridOf r).flashStart % codePageSize = 0 ∧
      base ≤ (hybridOf r).flashStart ∧ (hybridOf r).flashStart + codePageSize ≤ stageCeilingExpanded ∧
      (hybridOf r).flashStart ≤ 2 ^ 32 - 1 - (hybridOf r).containerTotal := by
  simp only [hybridHandoffValid, Bool.and_eq_true, decide_eq_true_eq] at h
  obtain ⟨⟨⟨⟨⟨⟨⟨⟨-, hal⟩, -⟩, hbase⟩, -⟩, hend⟩, -⟩, hwrap⟩, hlen⟩ := h
  have := hybridRequiredFlashLen_page (hybridOf r).containerTotal
  exact ⟨hal, hbase, by omega, hwrap⟩

/-- A container found in the selected source is one this update may choose. -/
theorem Selected.chosen {a ceiling : Nat} {m : MotaMin}
    (h : Selected env cfg s0 b purpose formatVer s1) (hbase : BaseOk (dfuBank0RegionStart s0.mem))
    (hl : Located env cfg s1.statics (sourceByte env cfg s1) (dfuBank0RegionStart s1.mem) ceiling a m)
    (ha : m.approved = true)
    (hhash : b = .hybrid → env.Stable → sha256 (hashed
      (some (s1.statics.hybrid.flashStart + approvalOffset)) (sourceByte env cfg s1)
      s1.statics.hybrid.flashStart s1.statics.hybrid.containerTotal) =
        s1.statics.hybrid.containerSha256) : Chosen env cfg s1 a m := by
  have hp : codePageSize = 0x1000 := rfl
  have he : stageCeilingExpanded = 0xED000 := rfl
  have hmin : motaMinLen = 210 := rfl
  have hsd := h.sd
  have hhy := h.hybrid
  cases b with
  | sd =>
    obtain ⟨rfl, hload, htotal, hparsed⟩ := hl.sd hsd
    have h1 := hparsed.payload
    have h2 := hparsed.total_lt
    refine ⟨ha, hparsed.imageSize_lt, by omega, fun hst => ?_, fun hn => ?_,
      fun _ => ⟨rfl, hload, htotal, htotal ▸ hparsed.staged⟩, fun hn => ?_⟩
    · rw [FlashStaged, hsd] at hst
      cases hst.1
    all_goals
      rw [hsd] at hn
      cases hn
  | hybrid =>
    obtain ⟨ha', htotal, hparsed⟩ := hl.hybrid hsd hhy
    obtain ⟨hrec, hv⟩ := h.hybridRecord rfl
    obtain ⟨hal, hle, hpage, hwrap⟩ := hybridHandoffValid_window hv
    rw [← hrec, ← ha'] at hal hle hpage hwrap
    have h1 := hparsed.payload
    have h2 := hparsed.total_lt
    refine ⟨ha, hparsed.imageSize_lt, by omega, fun _ => ?_, fun _ hq => ?_, fun hs => ?_,
      fun _ _ => ⟨ha', htotal, htotal ▸ hparsed.staged, fun hstab => ?_⟩⟩
    · exact ⟨hal, by rw [h.mem]; exact hle, hpage, hparsed.approvalAddr⟩
    · rw [h.qspi (by decide)] at hq
      cases hq
    · rw [hsd] at hs
      cases hs
    · rw [ha', htotal]
      exact hhash rfl hstab
  | qspi =>
    have hq := h.qspi (by decide)
    obtain ⟨rfl, capacity, hparsed⟩ := hl.qspi hsd hhy hq
    have h1 := hparsed.payload
    have h2 := hparsed.total_lt
    refine ⟨ha, hparsed.imageSize_lt, by omega, fun hst => ?_, fun _ _ => ?_, fun hs => ?_,
      fun _ hs => ?_⟩
    · rw [FlashStaged, hq] at hst
      cases hst.2
    · rw [hparsed.approvalAddr, Nat.zero_add]
    · rw [hsd] at hs
      cases hs
    · rw [hhy] at hs
      cases hs
  | internal =>
    have hq := h.qspi (by decide)
    obtain ⟨hin, hceil⟩ := hl.internal hsd hhy hq
    have h1 := hin.payload
    have h2 := hin.total_min
    have h3 := hin.total_max
    have hal := hin.aligned
    have hle := hin.base_le
    have hbal := hbase.aligned
    rw [h.mem] at hle
    rw [hp] at hal hbal
    refine ⟨ha, hin.imageSize_lt, by omega, fun _ => ⟨hin.aligned, ?_, ?_, hin.approvalAddr⟩,
      fun _ hs => ?_, fun hs => ?_, fun _ hs => ?_⟩
    · rw [h.mem]
      omega
    · omega
    · rw [hq] at hs
      cases hs
    · rw [hsd] at hs
      cases hs
    · rw [hhy] at hs
      cases hs

/-- A page boundary up to which containers are staged. -/
structure CeilingOk (ceiling : Nat) : Prop where
  aligned : ceiling % codePageSize = 0
  high : ceiling ≤ stageCeilingExpanded

theorem appApplyEnd_ok (cfg : Profile) : CeilingOk cfg.appApplyEnd := by
  rcases appApplyEnd_cases cfg with h | h
  · rw [h]
    exact ⟨rfl, by decide⟩
  · rw [h]
    exact ⟨rfl, by decide⟩

theorem stageCeilingOf_ok (cfg : Profile) (stageHandoff : Nat) :
    CeilingOk (stageCeilingOf cfg stageHandoff) := by
  have hend := appApplyEnd_ok cfg
  have hmin : ∀ c, CeilingOk c → CeilingOk (min c cfg.appApplyEnd) := by
    intro c hc
    rcases Nat.le_total c cfg.appApplyEnd with h | h
    · rwa [Nat.min_eq_left h]
    · rwa [Nat.min_eq_right h]
  have hlegacy : CeilingOk stageCeilingLegacy := ⟨rfl, by decide⟩
  have hexpanded : CeilingOk stageCeilingExpanded := ⟨rfl, by decide⟩
  unfold stageCeilingOf
  simp only
  split_ifs
  · exact hmin _ hexpanded
  · exact hmin _ hlegacy
  · exact hexpanded
  · exact hlegacy

/-- A hybrid container may extend over the expanded window. -/
theorem stageCeilingOf_hybrid (ha : cfg.ramArena = true) :
    motaBlScratchStart ≤ stageCeilingOf cfg stageHybrid := by
  have h1 : motaBlScratchStart = 0xE0000 := rfl
  have h2 : motaAppEnd = 0xED000 := rfl
  have h3 : stageCeilingExpanded = 0xED000 := rfl
  have hend := appApplyEnd_cases cfg
  unfold stageCeilingOf
  simp only [ha, true_and, or_true, if_true]
  split_ifs <;> omega

/-- Where a container was found, the application region is not empty. -/
theorem Selected.limitOk {a ceiling : Nat} {m : MotaMin} {g : Statics}
    (h : Selected env cfg s0 b purpose formatVer s1) (hbase : BaseOk (dfuBank0RegionStart s1.mem))
    (hc : CeilingOk ceiling) (hh : b = .hybrid → motaBlScratchStart ≤ ceiling)
    (hl : Located env cfg s1.statics (sourceByte env cfg s1) (dfuBank0RegionStart s1.mem) ceiling a m)
    (hsd : g.sdSource = s1.statics.sdSource) (hqspi : g.qspiSource = s1.statics.qspiSource) :
    LimitOk (dfuBank0RegionStart s1.mem) (appLimitOf cfg g ceiling) := by
  have h1 : motaBlScratchStart = 0xE0000 := rfl
  have h2 : motaAppEnd = 0xED000 := rfl
  have hp : codePageSize = 0x1000 := rfl
  have hmin : motaMinLen = 210 := rfl
  have hle := hbase.le
  have hend := appApplyEnd_cases cfg
  have happ : LimitOk (dfuBank0RegionStart s1.mem) cfg.appApplyEnd :=
    ⟨by omega, (appApplyEnd_ok cfg).high, (appApplyEnd_ok cfg).aligned⟩
  have hceil : FlashStaged cfg s1.statics → LimitOk (dfuBank0RegionStart s1.mem) ceiling := by
    intro hst
    refine ⟨?_, hc.high, hc.aligned⟩
    rcases h.flashStaged.mp hst with rfl | rfl
    · have hin := (hl.internal h.sd h.hybrid (h.qspi nofun)).1
      have h3 := hin.total_min
      have h4 := hin.total_max
      have h5 := hin.aligned
      have h6 := hin.base_le
      have h7 := hbase.aligned
      rw [hp] at h5 h7
      omega
    · have := hh rfl
      omega
  unfold appLimitOf
  split_ifs with hrak hext hcard hq hsrc
  · exact happ
  · rw [Bool.not_eq_true] at hext
    refine hceil (flashStaged_of ?_)
    rw [← hext]
    simp [Profile.externalStagedSource, Profile.sdSelected, Profile.qspiSelected, hsd, hqspi]
  · exact happ
  · exact happ
  · refine hceil ⟨?_, ?_⟩
    · simp [Profile.sdSelected, hcard]
    · simp [Profile.qspiSelected, ← hqspi, hsrc]
  · exact happ
  · refine hceil ⟨?_, ?_⟩
    · simp [Profile.sdSelected, hcard]
    · simp [Profile.qspiSelected, hq]

end Selected

/-! ## Runs -/

/-- An operation of an update: of its prelude, or `Later` than a state `s1` in which the
source is selected. -/
inductive RunOp (env : Env) (cfg : Profile) (s0 : Device) (b : Backend) (purpose formatVer : Byte)
    (Later : Device → Op → Device → Prop) : Op → Device → Prop where
  | prelude {o : Op} {s : Device} (ho : Preludes o) (hs : Preluded s0 s) :
      RunOp env cfg s0 b purpose formatVer Later o s
  | later {o : Op} {s : Device} (s1 : Device) (h1 : Selected env cfg s0 b purpose formatVer s1)
      (ho : Later s1 o s) : RunOp env cfg s0 b purpose formatVer Later o s

/-- How an update ends, from the state behind its trigger. -/
inductive RunEnd (env : Env) (cfg : Profile) (s0 : Device) (b : Backend) (purpose formatVer : Byte)
    (Ended : Device → Bool → Device → Prop) : Bool → Device → Prop where
  /-- No source was selected. -/
  | refused {s : Device} (h : Preluded s0 s) (hg : s.gpregret = 0) :
      RunEnd env cfg s0 b purpose formatVer Ended false s
  | ended {r : Bool} {s : Device} (s1 : Device) (h1 : Selected env cfg s0 b purpose formatVer s1)
      (h : Ended s1 r s) : RunEnd env cfg s0 b purpose formatVer Ended r s

/-- An operation of an application update whose handoff selects `b`. -/
abbrev AppRunOp (env : Env) (cfg : Profile) (s0 : Device) (b : Backend) : Op → Device → Prop :=
  RunOp env cfg s0 b sdAuthPurposeApp 2 (AppOp env cfg)

abbrev AppRunEnd (env : Env) (cfg : Profile) (s0 : Device) (b : Backend) : Bool → Device → Prop :=
  RunEnd env cfg s0 b sdAuthPurposeApp 2 (AppEnd env cfg)

section Runs

variable {b : Backend} {purpose formatVer : Byte} {Later : Device → Op → Device → Prop}
  {Ended : Device → Bool → Device → Prop}

theorem Preludes.gpregret {o : Op} (h : Preludes o) (hs : s.gpregret = 0) :
    (after env o s).gpregret = 0 := by
  cases o with
  | setGpregret v => exact h
  | get | set | gpregret | gpregret2 | setGpregret2 | takeRetained | resetreas | view
  | qspiSetRakSource | sdDeinit | qspiDeinit => exact hs
  | _ => exact h.elim

/-- A program of the prelude, behind the consumed trigger. -/
theorem sat_prelude {p : MotaM α} {Q : α → Device → Prop} (hs : Preluded s0 s)
    (hg : s.gpregret = 0) (h : p.Sat (handler env) (fun o _ => Preludes o) Q s) :
    p.Sat (handler env) (RunOp env cfg s0 b purpose formatVer Later)
      (fun x s' => Q x s' ∧ Preluded s0 s' ∧ s'.gpregret = 0) s :=
  (h.keep (I := fun s => Preluded s0 s ∧ s.gpregret = 0) ⟨hs, hg⟩ fun _ _ ho h =>
    ⟨h.1.trans (preluded_after env ho), ho.gpregret h.2⟩).mono
    (fun _ _ h => .prelude h.1 h.2.1) fun _ _ h => h

theorem failApply_refused (hs : Preluded s0 s) (hg : s.gpregret = 0) (result : Nat) :
    (failApply cfg result).Sat (handler env) (RunOp env cfg s0 b purpose formatVer Later)
      (RunEnd env cfg s0 b purpose formatVer Ended) s := by
  have hfail : (failApply cfg result).Sat (handler env) (fun o _ => Preludes o) (fun r _ => r = false) s :=
    (failApply_spec result).mono (fun _ _ h => h.2) fun _ _ h => h
  refine (sat_prelude hs hg hfail).post fun r s' h => ?_
  rw [h.1]
  exact .refused h.2.1 h.2.2

end Runs

/-! ## Application updates -/

/-- The record of an SD card authorizes the card; other sources need none here. -/
theorem takeAuth_spec {b : Backend} (h : Picked env cfg s0 b s) :
    (if cfg.sdSelected s.statics then sdAuthTake sdAuthPurposeApp 2 else pure true : MotaM Bool).Sat
      (handler env) (fun o _ => Preludes o)
      (fun r s1 => s1.statics.sdSource = s.statics.sdSource ∧
        s1.statics.qspiSource = s.statics.qspiSource ∧
        (r = true → Selected env cfg s0 b sdAuthPurposeApp 2 s1)) s := by
  by_cases hsd : cfg.sdSelected s.statics = true
  · rw [if_pos hsd]
    obtain rfl : b = .sd := of_decide_eq_true (h.sd.symm.trans hsd)
    have hat : At s0 s.statics s0.retained s := ⟨h.toPreluded, h.gpregret, rfl, h.retained rfl⟩
    refine (sdAuthTake_spec hat _ _).post fun r s1 h1 => ?_
    obtain ⟨hr, h1⟩ := h1
    refine ⟨by rw [h1.statics], by rw [h1.statics], fun htrue => ?_⟩
    exact h1.selectedSd h.empty hsd h.hybrid (hr.symm.trans htrue)
  · rw [if_neg hsd]
    refine ⟨rfl, rfl, fun _ => h.selected ?_⟩
    rintro rfl
    exact hsd h.sd

theorem applyApp_spec {b : Backend} {ceiling : Nat} (h : Picked env cfg s0 b s)
    (hm0 : s0.marks = []) (hbase : BaseOk (dfuBank0RegionStart s0.mem)) (hc : CeilingOk ceiling)
    (hh : b = .hybrid → motaBlScratchStart ≤ ceiling) (decoder : Nat → Decoder) :
    (applyApp cfg decoder ceiling).Sat (handler env) (AppRunOp env cfg s0 b)
      (AppRunEnd env cfg s0 b) s := by
  have hget : Preluded s0 (after env .get s) := h.toPreluded.trans (preluded_after env trivial)
  have hpick : Picked env cfg s0 b (after env .get s) :=
    ⟨hget, h.gpregret, h.empty, h.sd, h.hybrid, h.qspi, h.retained, h.wiped, h.record⟩
  refine sat_get.mpr ⟨.prelude trivial h.toPreluded, ?_⟩
  refine (sat_prelude hget hpick.gpregret (takeAuth_spec hpick)).bind fun r s1 h1 => ?_
  obtain ⟨⟨hsd, hqspi, hsel⟩, hpre, hg⟩ := h1
  cases r with
  | false => exact failApply_refused hpre hg _
  | true =>
    have hsel := hsel rfl
    have hbase1 : BaseOk (dfuBank0RegionStart s1.mem) := hpre.mem.symm ▸ hbase
    -- from here on the run is that of one source
    suffices hrest : Sat (handler env) (AppOp env cfg s1) (AppEnd env cfg s1) _ s1 from
      hrest.mono (fun _ _ ho => .later s1 hsel ho) fun _ _ he => .ended s1 hsel he
    have hfail : ∀ s', Session s1 s' → s'.mem = s1.mem → s'.nor = s1.nor → ∀ code,
        (failApply cfg code).Sat (handler env) (AppOp env cfg s1) (AppEnd env cfg s1) s' := by
      intro s' hs' hm hn code
      have hrej : Rejected cfg s1 s' := rejected_of_same hs' hm hn
      refine (sat_app (failApply_common hs' code)).post fun r s'' h'' => ?_
      rw [h''.1]
      exact .of_rejected (hrej.quiet h''.2)
    refine Sat.bind (Q := fun r s2 => Quiet s1 s2 ∧ (r = true → b = .hybrid → env.Stable →
      sha256 (hashed (some (s1.statics.hybrid.flashStart + approvalOffset)) (sourceByte env cfg s1)
        s1.statics.hybrid.flashStart s1.statics.hybrid.containerTotal) =
          s1.statics.hybrid.containerSha256)) ?_ fun r s2 h2 => ?_
    · split_ifs with hhy
      · exact (sat_app (sat_reads (Session.refl s1) hybridAuthorizedContainerValid_spec)).post
          fun r s2 h2 => ⟨h2.2, fun hr _ => h2.1.1 hr⟩
      · refine ⟨.refl s1, fun _ hb => ?_⟩
        rw [h.hybrid] at hhy
        exact absurd (decide_eq_true hb) hhy
    obtain ⟨hq2, hhash⟩ := h2
    have hses2 := (Session.refl s1).quiet hq2
    cases r with
    | false => exact hfail s2 hses2 hq2.mem hq2.nor _
    | true =>
      refine (sat_app (scanMota_spec ceiling hses2 hq2.mem hq2.nor)).bind fun r s3 h3 => ?_
      have hses3 : Session s1 s3 := ⟨hq2.source.trans h3.session.source,
        h3.session.gpregret.trans hq2.gpregret, h3.session.retained.trans hq2.retained⟩
      have hmem3 := h3.mem.trans hq2.mem
      have hnor3 := h3.nor.trans hq2.nor
      cases r with
      | none => exact hfail s3 hses3 hmem3 hnor3 _
      | some p =>
        obtain ⟨a, m⟩ := p
        simp only
        by_cases happ : m.approved = true
        · rw [if_neg (by simp [happ])]
          have hloc : Located env cfg s1.statics (sourceByte env cfg s1)
              (dfuBank0RegionStart s1.mem) ceiling a m := by
            rw [← hq2.source.sourceByte hq2.mem hq2.nor, ← hq2.mem]
            exact (h3.located a m rfl).keeps hq2.source.symm
          have hmarks : s3.marks = [.parsed a m] := by
            rw [h3.marks, hq2.marks, hpre.marks, hm0]
            rfl
          refine applyContainer_spec (a := a) ⟨hses3, trivial, ?_, ?_, hmem3, hnor3, ?_, hbase1.pos, ?_⟩
            hbase1 (hsel.limitOk hbase1 hc hh hloc hsd.symm hqspi.symm) decoder
          · exact hsel.chosen hbase hloc happ (hhash rfl)
          · rw [hmarks]
            exact List.mem_singleton_self _
          · exact (hsel.empty.keeps hq2.cache).keeps h3.cache
          · intro lo hi hd
            rw [hmarks] at hd
            cases List.mem_singleton.mp hd
        · rw [if_pos (by simp [happ])]
          exact hfail s3 hses3 hmem3 hnor3 _

end OtaFix.Mota
