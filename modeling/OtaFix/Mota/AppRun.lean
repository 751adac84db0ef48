import OtaFix.Mota.Steps

/-!
# Runs of an application update

`AppOp` says everything an application update does, with what holds when it does
it: the record is made invalid over an unchanged application, application pages
change only under the invalid record, and the valid record is written only over an
image that hashes as its manifest says.
-/

namespace OtaFix.Mota

open Lib Prog

variable {env : Env} {cfg : Profile} {α : Type} {s s' s1 : Device} {a lo hi : Nat} {m : MotaMin}

/-! ## States behind the commit point -/

/-- The container on the card is the one its record authorizes. -/
def Bound (env : Env) (cfg : Profile) (s1 : Device) : Prop :=
  cfg.sdSelected s1.statics = true → env.Stable →
    sha256 (hashed (some approvalOffset) (sourceByte env cfg s1) 0
      s1.statics.sdAuth.containerTotal) = s1.statics.sdAuth.containerSha256

/-- The approval is cleared; the application and its record are as they were. -/
structure Committing (env : Env) (cfg : Profile) (s1 : Device) (a : Nat) (m : MotaMin)
    (s : Device) : Prop where
  session : Session s1 s
  chosen : Chosen env cfg s1 a m
  bound : Bound env cfg s1
  parsed : .parsed a m ∈ s.marks
  mem_out : ∀ x, x < a ∨ a + codePageSize ≤ x → s.mem x = s1.mem x
  external : ¬ FlashStaged cfg s1.statics → s.mem = s1.mem
  base : dfuBank0RegionStart s.mem = dfuBank0RegionStart s1.mem
  size : dfuBank0RegionStart s1.mem + m.imageSize ≤ stageCeilingExpanded
  empty : CacheEmpty s.statics
  undecoded : ∀ lo hi, .decode lo hi ∉ s.marks

def invalidRecord : Settings := otahSettings bankInvalidApp 0 0

/-- The record of the image in `mem` that the manifest `m` describes. -/
def validRecord (mem : Mem) (m : MotaMin) : Settings :=
  otahSettings bankValidApp (crc16 (slice mem (dfuBank0RegionStart mem) m.imageSize)) m.imageSize

/-- The image in `mem` is the one of the manifest `m`. -/
def ImageHeld (mem : Mem) (m : MotaMin) : Prop :=
  sha256 (slice mem (dfuBank0RegionStart mem) m.imageSize) = m.imageHash

/-- The settings record says that there is no application. -/
structure Invalidated (env : Env) (cfg : Profile) (s1 : Device) (a : Nat) (m : MotaMin)
    (s : Device) : Prop where
  session : Session s1 s
  chosen : Chosen env cfg s1 a m
  bound : Bound env cfg s1
  parsed : .parsed a m ∈ s.marks
  commit : .commit ∈ s.marks
  size : dfuBank0RegionStart s1.mem + m.imageSize ≤ stageCeilingExpanded
  record : readSettings s.mem = invalidRecord.sealed

/-- The pages an update writes: from the application's start to the container in flash,
or to the end of the application region. -/
structure Workspace (cfg : Profile) (s1 : Device) (a lo hi : Nat) : Prop where
  pages : Pages lo hi
  low : lo = dfuBank0RegionStart s1.mem
  le : lo ≤ hi
  high : hi ≤ stageCeilingExpanded
  below : FlashStaged cfg s1.statics → hi ≤ a

/-- The container of an application may lie anywhere in its source. -/
def Anywhere : Nat → Prop := fun _ => True

inductive AppOp (env : Env) (cfg : Profile) (s1 : Device) : Op → Device → Prop where
  | common {o : Op} {s : Device} (h : CommonOp env cfg Anywhere s1 o s) : AppOp env cfg s1 o s
  | invalidates {o : Op} {s : Device} (a : Nat) (m : MotaMin) (h : Committing env cfg s1 a m s)
      (ho : o = .mark .commit ∨ o = .settingsCommit invalidRecord) : AppOp env cfg s1 o s
  | writes {o : Op} {s : Device} (a : Nat) (m : MotaMin) (h : Invalidated env cfg s1 a m s)
      (lo hi : Nat) (hws : Workspace cfg s1 a lo hi)
      (hd : ∀ lo' hi', .decode lo' hi' ∈ s.marks → lo' = lo ∧ hi' = hi)
      (ho : Writes cfg lo hi o s ∨ o = .mark (.decode lo hi)) : AppOp env cfg s1 o s
  | records {s : Device} (a : Nat) (m : MotaMin) (h : Invalidated env cfg s1 a m s)
      (hash : ImageHeld s.mem m) : AppOp env cfg s1 (.settingsCommit (validRecord s.mem m)) s

/-- How an application update ends. -/
structure AppEnd (env : Env) (cfg : Profile) (s1 : Device) (r : Bool) (s : Device) : Prop where
  session : Session s1 s
  rejected : r = false → .commit ∈ s.marks ∨ Rejected cfg s1 s
  /-- A reported success: the image is there, and the record is its own. -/
  recorded : r = true → dfuBank0RegionStart s.mem = dfuBank0RegionStart s1.mem →
    ∃ a m, .parsed a m ∈ s.marks ∧ ImageHeld s.mem m ∧
      readSettings s.mem = (validRecord s.mem m).sealed

theorem AppEnd.of_rejected (h : Rejected cfg s1 s) : AppEnd env cfg s1 false s :=
  ⟨h.session, fun _ => .inr h, nofun⟩

theorem Invalidated.failed (h : Invalidated env cfg s1 a m s) : AppEnd env cfg s1 false s :=
  ⟨h.session, fun _ => .inl h.commit, nofun⟩

theorem AppEnd.quiet {r : Bool} (h : AppEnd env cfg s1 r s) (hq : Quiet s s') :
    AppEnd env cfg s1 r s' where
  session := h.session.quiet hq
  rejected hr := (h.rejected hr).imp (fun hc => hq.marks ▸ hc) fun hj => hj.quiet hq
  recorded hr hb := by
    rw [hq.mem] at hb ⊢
    rw [hq.marks]
    exact h.recorded hr hb

theorem Invalidated.quiet (h : Invalidated env cfg s1 a m s) (hq : Quiet s s') :
    Invalidated env cfg s1 a m s' where
  session := h.session.quiet hq
  chosen := h.chosen
  bound := h.bound
  parsed := hq.marks ▸ h.parsed
  commit := hq.marks ▸ h.commit
  size := h.size
  record := hq.mem ▸ h.record

theorem Invalidated.touched (h : Invalidated env cfg s1 a m s) (hws : Workspace cfg s1 a lo hi)
    (ht : Touched lo hi s s') : Invalidated env cfg s1 a m s' where
  session := h.session.touched ht
  chosen := h.chosen
  bound := h.bound
  parsed := ht.marks_subset h.parsed
  commit := ht.marks_subset h.commit
  size := h.size
  record := by
    refine (readSettings_congr fun x hx => ht.mem x ?_).trans h.record
    have := hws.high
    have he : stageCeilingExpanded = 0xED000 := rfl
    have hs : bootloaderSettingsAddress = 0xFF000 := rfl
    omega

/-- Page writes in the workspace, under the invalid record. -/
theorem Invalidated.sat_writes {p : MotaM α} {Q : α → Device → Prop}
    (h : Invalidated env cfg s1 a m s) (hws : Workspace cfg s1 a lo hi)
    (hd : ∀ lo' hi', .decode lo' hi' ∈ s.marks → lo' = lo ∧ hi' = hi)
    (hp : p.Sat (handler env) (Writes cfg lo hi) Q s) :
    p.Sat (handler env) (AppOp env cfg s1) (fun x s' => Q x s' ∧ Touched lo hi s s') s := by
  refine (hp.keep (Touched.refl s) fun _ _ ho ht => ht.trans (touched_after ho)).mono
    (fun o t h' => ?_) fun _ _ h => h
  obtain ⟨ho, ht⟩ := h'
  refine .writes a m (h.touched hws ht) lo hi hws (fun lo' hi' hm => ?_) (.inl ho)
  have h1 : Mark.decode lo' hi' ≠ .pageFailed := nofun
  exact hd lo' hi' ((ht.mem_marks h1 nofun).mp hm)

theorem Invalidated.sat_modifyCache {f : Statics → Statics} {k : MotaM α} {Q : α → Device → Prop}
    (h : Invalidated env cfg s1 a m s) (hws : Workspace cfg s1 a lo hi)
    (hd : ∀ lo' hi', .decode lo' hi' ∈ s.marks → lo' = lo ∧ hi' = hi)
    (hs : KeepsSource s.statics (f s.statics))
    (hc : CacheIn lo hi s.statics → CacheIn lo hi (f s.statics))
    (hk : ∀ s', Touched lo hi s s' → s'.statics = f s.statics → s'.mem = s.mem →
      k.Sat (handler env) (AppOp env cfg s1) Q s') :
    (modifyStatics f >>= fun _ => k).Sat (handler env) (AppOp env cfg s1) Q s := by
  have hread : Reads cfg .get s := trivial
  have hget : Touched lo hi s (after env .get s) := (still_after hread).touched
  have hset : Writes cfg lo hi (.set (f s.statics)) (after env .get s) := ⟨hs, hc⟩
  refine sat_get.mpr ⟨.common (.closes h.session hread.closes), sat_op.mpr ⟨?_, ?_⟩⟩
  · exact .writes a m (h.touched hws hget) lo hi hws hd (.inl hset)
  · exact hk _ (hget.trans (touched_after hset)) rfl rfl

theorem sat_app {p : MotaM α} {Q : α → Device → Prop}
    (h : p.Sat (handler env) (CommonOp env cfg Anywhere s1) Q s) :
    p.Sat (handler env) (AppOp env cfg s1) Q s := h.mono (fun _ _ h => .common h) fun _ _ h => h

/-! ## The commit -/

-- stated once: unfolding `after` in a proof would compare the whole device
theorem after_settingsCommit (r : Settings) : after env (.settingsCommit r) s =
    { s with mem := replay (otahSettingsCommit r) s.mem, ops := s.ops ++ otahSettingsCommit r
             tick := s.tick + 1 } := rfl

theorem nvOps_settingsCommit (r : Settings) : nvOps env (.settingsCommit r) s = otahSettingsCommit r :=
  rfl

theorem after_ops (env : Env) (o : Op) (s : Device) :
    (after env o s).ops = s.ops ++ nvOps env o s := by
  cases o with
  | settingsCommit r => rw [after_settingsCommit, nvOps_settingsCommit]
  | _ => rfl

theorem after_mem (env : Env) (o : Op) (s : Device) :
    (after env o s).mem = replay (nvOps env o s) s.mem := by
  cases o with
  | settingsCommit r => rw [after_settingsCommit, nvOps_settingsCommit]
  | _ => rfl

theorem settingsCommit_marks (r : Settings) : (after env (.settingsCommit r) s).marks = s.marks := by
  rw [after_settingsCommit]

theorem settingsCommit_statics (r : Settings) :
    (after env (.settingsCommit r) s).statics = s.statics := by
  rw [after_settingsCommit]

theorem Session.settingsCommit (h : Session s1 s) (r : Settings) :
    Session s1 (after env (.settingsCommit r) s) := by
  rw [after_settingsCommit]
  constructor <;> dsimp only
  · exact h.source
  · exact h.gpregret
  · exact h.retained

/-- The record of the commit replaces the settings page only. -/
theorem settingsCommit_mem (r : Settings) {x : Nat} (hx : x < bootloaderSettingsAddress) :
    (after env (.settingsCommit r) s).mem x = s.mem x := by
  rw [after_settingsCommit]
  dsimp only
  exact replay_spares (otahSettingsCommit_spares r hx) s.mem

theorem settingsCommit_base (r : Settings) :
    dfuBank0RegionStart (after env (.settingsCommit r) s).mem = dfuBank0RegionStart s.mem := by
  have h1 : sdSizeAddr = 0x3008 := rfl
  have h2 : bootloaderSettingsAddress = 0xFF000 := rfl
  exact regionStart_congr fun x _ hx => settingsCommit_mem r (by omega)

theorem settingsCommit_record {r : Settings} (hr : r.Fits) :
    readSettings (after env (.settingsCommit r) s).mem = r.sealed := by
  rw [after_settingsCommit]
  dsimp only
  exact replay_otahSettingsCommit r s.mem hr

theorem otahSettings_fits (bank0 crc : BitVec 16) {size : Nat} (h : size < 2 ^ 32) :
    (otahSettings bank0 crc size).Fits :=
  ⟨h, Nat.two_pow_pos 32, Nat.two_pow_pos 32, Nat.two_pow_pos 32, Nat.two_pow_pos 32⟩

/-- The invalid record is in place, and the application still is what it was. -/
structure Opened (env : Env) (cfg : Profile) (s1 : Device) (a : Nat) (m : MotaMin) (s : Device) :
    Prop extends Invalidated env cfg s1 a m s where
  base : dfuBank0RegionStart s.mem = dfuBank0RegionStart s1.mem
  empty : CacheEmpty s.statics
  undecoded : ∀ lo hi, .decode lo hi ∉ s.marks

theorem Committing.marked (env' : Env) (h : Committing env cfg s1 a m s) :
    Committing env cfg s1 a m (after env' (.mark .commit) s) where
  session := ⟨h.session.source, h.session.gpregret, h.session.retained⟩
  chosen := h.chosen
  bound := h.bound
  parsed := List.mem_append_left _ h.parsed
  mem_out := h.mem_out
  external := h.external
  base := h.base
  size := h.size
  empty := h.empty
  undecoded lo hi hm := by
    rcases List.mem_append.mp hm with hm | hm
    · exact h.undecoded lo hi hm
    · cases List.mem_singleton.mp hm

theorem Committing.invalidated (h : Committing env cfg s1 a m s) (hc : .commit ∈ s.marks) :
    Opened env cfg s1 a m (after env (.settingsCommit invalidRecord) s) where
  session := h.session.settingsCommit _
  chosen := h.chosen
  bound := h.bound
  parsed := (settingsCommit_marks _).symm ▸ h.parsed
  commit := (settingsCommit_marks _).symm ▸ hc
  size := h.size
  record := settingsCommit_record (otahSettings_fits _ _ (Nat.two_pow_pos 32))
  base := (settingsCommit_base _).trans h.base
  empty := (settingsCommit_statics _).symm ▸ h.empty
  undecoded := (settingsCommit_marks _).symm ▸ h.undecoded

theorem invalidateApp_spec (h : Committing env cfg s1 a m s) :
    invalidateApp.Sat (handler env) (AppOp env cfg s1) (fun _ s' => Opened env cfg s1 a m s') s := by
  refine sat_op.mpr ⟨.invalidates a m h (.inl rfl), ?_⟩
  refine sat_perform.mpr ⟨.invalidates a m (h.marked env) (.inr rfl), ?_⟩
  exact (h.marked env).invalidated (List.mem_append_right _ (List.mem_singleton_self _))

/-- A record on the settings page leaves the image below it alone. -/
theorem slice_settingsCommit (r : Settings) {b n : Nat} (h : b + n ≤ bootloaderSettingsAddress) :
    slice (after env (.settingsCommit r) s).mem b n = slice s.mem b n :=
  slice_congr fun _ _ hx => settingsCommit_mem r (by omega)

theorem validRecord_settingsCommit (r : Settings)
    (h : dfuBank0RegionStart s.mem + m.imageSize ≤ bootloaderSettingsAddress) :
    validRecord (after env (.settingsCommit r) s).mem m = validRecord s.mem m := by
  unfold validRecord
  rw [settingsCommit_base, slice_settingsCommit r h]

theorem ImageHeld.settingsCommit (r : Settings) (hi : ImageHeld s.mem m)
    (h : dfuBank0RegionStart s.mem + m.imageSize ≤ bootloaderSettingsAddress) :
    ImageHeld (after env (.settingsCommit r) s).mem m := by
  unfold ImageHeld
  rw [settingsCommit_base, slice_settingsCommit r h]
  exact hi

/-- The valid record, over an image that hashes as its manifest says. -/
theorem Invalidated.records (h : Invalidated env cfg s1 a m s) (hash : ImageHeld s.mem m) :
    AppEnd env cfg s1 true (after env (.settingsCommit (validRecord s.mem m)) s) := by
  refine ⟨h.session.settingsCommit _, nofun, fun _ hb => ?_⟩
  rw [settingsCommit_base] at hb
  have he : stageCeilingExpanded = 0xED000 := rfl
  have hs : bootloaderSettingsAddress = 0xFF000 := rfl
  have hsize := h.size
  have hbelow : dfuBank0RegionStart s.mem + m.imageSize ≤ bootloaderSettingsAddress := by omega
  refine ⟨a, m, (settingsCommit_marks _).symm ▸ h.parsed, hash.settingsCommit _ hbelow, ?_⟩
  rw [validRecord_settingsCommit _ hbelow]
  exact settingsCommit_record (otahSettings_fits _ _ h.chosen.imageSize_lt)

theorem finishAppUpdate_spec (h : Invalidated env cfg s1 a m s) :
    (finishAppUpdate cfg m).Sat (handler env) (AppOp env cfg s1) (AppEnd env cfg s1) s := by
  have hview : Reads cfg .view s := trivial
  have hq1 : Quiet s (after env .view s) := (still_after hview).quiet
  refine sat_op.mpr ⟨.common (.closes h.session hview.closes), ?_⟩
  refine (sat_app (sat_reads (h.quiet hq1).session
    (fullImageHashValid_live m (dfuBank0RegionStart s.mem)))).bind fun r s2 h2 => ?_
  obtain ⟨⟨hr, -⟩, hq2⟩ := h2
  have hinv := (h.quiet hq1).quiet hq2
  have hmem : s2.mem = s.mem := hq2.mem.trans hq1.mem
  cases r with
  | false =>
    have hc : Closes cfg (.setGpregret2 0xB7) s2 := trivial
    exact sat_op.mpr ⟨.common (.closes hinv.session hc), (hinv.quiet (quiet_after env hc)).failed⟩
  | true =>
    have hhash : ImageHeld s2.mem m := by
      unfold ImageHeld
      rw [hmem]
      exact of_decide_eq_true hr.symm
    have hview2 : Reads cfg .view s2 := trivial
    have hq3 : Quiet s2 (after env .view s2) := (still_after hview2).quiet
    have hinv2 := hinv.quiet hq3
    refine sat_flash.mpr ⟨.common (.closes hinv.session hview2.closes), ?_⟩
    change Sat _ _ _ (perform (Op.settingsCommit (validRecord s2.mem m)) >>= _) _
    refine sat_op.mpr ⟨.records a m hinv2 hhash, ?_⟩
    have hend : AppEnd env cfg s1 true (after env (.settingsCommit (validRecord s2.mem m))
      (after env .view s2)) := hinv2.records hhash
    have hc : Closes cfg (.setGpregret2 0xB8) (after env (.settingsCommit (validRecord s2.mem m))
      (after env .view s2)) := trivial
    exact sat_op.mpr ⟨.common (.closes hend.session hc), hend.quiet (quiet_after env hc)⟩

/-! ## The two paths -/

/-- The boundary to the SoftDevice: a page of the application region. -/
structure BaseOk (base : Nat) : Prop where
  pos : 0 < base
  aligned : base % codePageSize = 0
  le : base ≤ motaBlScratchStart

theorem appApplyEnd_cases (cfg : Profile) :
    cfg.appApplyEnd = motaBlScratchStart ∨ cfg.appApplyEnd = motaAppEnd := by
  unfold Profile.appApplyEnd
  split_ifs
  · exact .inl rfl
  · exact .inr rfl

/-- A cleared approval moves no boundary. -/
theorem Cleared.base {r : Bool} (h : Cleared cfg a m s r s') (hr : r = true)
    (hw : FlashStaged cfg s.statics → ∃ base, InWindow base a m) :
    dfuBank0RegionStart s'.mem = dfuBank0RegionStart s.mem := by
  have h1 : sdMagicAddr = 0x3004 := rfl
  have h2 : sdSizeAddr = 0x3008 := rfl
  have hp : codePageSize = 0x1000 := rfl
  have ho : approvalOffset = 201 := rfl
  refine regionStart_congr fun x hlo hhi => ?_
  rcases h.kept (.inl hr) with heq | ⟨hst, heq⟩
  · rw [heq]
  · obtain ⟨base, hwin⟩ := hw hst
    have hal := hwin.aligned
    have happ := hwin.approvalAddr
    rw [hp] at hal
    rw [heq, zeroed, if_neg (by omega)]

theorem Found.committing (h : Found env cfg Anywhere s1 a m s) (hb : Bound env cfg s1)
    (hc : Cleared cfg a m s true s')
    (hsize : dfuBank0RegionStart s1.mem + m.imageSize ≤ stageCeilingExpanded) :
    Committing env cfg s1 a m s' where
  session := (h.cleared hc).session
  chosen := h.chosen
  bound := hb
  parsed := hc.marks _ h.parsed
  mem_out x hx := by rw [hc.mem_out x hx, h.mem]
  external hx := by
    rw [hc.external, h.mem]
    exact fun hst => hx ⟨(h.session.source.sdSelected cfg).symm.trans hst.1,
      (h.session.source.qspiSelected cfg).symm.trans hst.2⟩
  base := by
    rw [hc.base rfl, h.mem]
    exact fun hst => ⟨_, h.chosen.window ⟨(h.session.source.sdSelected cfg).symm.trans hst.1,
      (h.session.source.qspiSelected cfg).symm.trans hst.2⟩⟩
  size := hsize
  empty := ⟨hc.length, hc.cachePage rfl⟩
  undecoded lo hi := hc.marks_eq rfl ▸ h.undecoded lo hi

/-- A rejected container leaves the device as it was; only a code reports it. -/
theorem Found.report (h : Found env cfg Anywhere s1 a m s) (code : Nat) :
    (do
      gpregret2Set code
      return false : MotaM Bool).Sat (handler env) (AppOp env cfg s1) (AppEnd env cfg s1) s := by
  have hc : Closes cfg (.setGpregret2 code) s := trivial
  exact sat_op.mpr ⟨.common (.closes h.session hc), .of_rejected (h.rejected.quiet (quiet_after env hc))⟩

theorem applyFullExternal_spec (h : Found env cfg Anywhere s1 a m s) (hb : Bound env cfg s1)
    (hbase : BaseOk (dfuBank0RegionStart s1.mem)) (hx : ¬ FlashStaged cfg s1.statics) :
    (applyFullExternal cfg m).Sat (handler env) (AppOp env cfg s1) (AppEnd env cfg s1) s := by
  have hend := appApplyEnd_cases cfg
  have h1 : motaBlScratchStart = 0xE0000 := rfl
  have h2 : motaAppEnd = 0xED000 := rfl
  have h3 : stageCeilingExpanded = 0xED000 := rfl
  have hp : codePageSize = 0x1000 := rfl
  have hle := hbase.le
  have hview : Reads cfg .view s := trivial
  have hq1 : Quiet s (after env .view s) := (still_after hview).quiet
  have hf1 := h.quiet hq1
  unfold applyFullExternal
  refine sat_op.mpr ⟨.common (.closes h.session hview.closes), ?_⟩
  change Sat _ _ _ (if !m.isFull ∨ m.codecId ≠ codecFull ∨ m.imageSize = 0 ∨
    m.payloadSize ≠ m.imageSize ∨ sub32 cfg.appApplyEnd (dfuBank0RegionStart s.mem) < m.imageSize
    then _ else _) _
  split_ifs with hbad
  · exact hf1.report 0xB3
  have hsize : dfuBank0RegionStart s1.mem + m.imageSize ≤ cfg.appApplyEnd := by
    rw [h.mem, sub32_eq (by omega) (by omega)] at hbad
    omega
  refine (sat_app (sat_reads hf1.session (fullImageHashValid_staged m m.payloadAddr))).bind
    fun r s2 h2 => ?_
  have hf2 := hf1.quiet h2.2
  cases r with
  | false => exact hf2.report 0xBA
  | true =>
    refine (sat_app hf2.clearApproval).bind fun r s3 h3 => ?_
    have hrej := hf2.cleared h3
    cases r with
    | false =>
      have hc : Closes cfg (.setGpregret2 0xBC) s3 := trivial
      exact sat_op.mpr ⟨.common (.closes hrej.session hc),
        .of_rejected (hrej.quiet (quiet_after env hc))⟩
    | true =>
      have hws : Workspace cfg s1 a (dfuBank0RegionStart s1.mem) cfg.appApplyEnd :=
        ⟨⟨hbase.pos, hbase.aligned, by rcases hend with h | h <;> rw [h] <;> rfl, by omega⟩, rfl,
          by omega, by omega, fun hst => absurd hst hx⟩
      refine (invalidateApp_spec (hf2.committing hb h3 (by omega))).bind fun _ s4 h4 => ?_
      have hd4 : ∀ s', Touched (dfuBank0RegionStart s1.mem) cfg.appApplyEnd s4 s' →
          ∀ lo' hi', .decode lo' hi' ∈ s'.marks →
            lo' = dfuBank0RegionStart s1.mem ∧ hi' = cfg.appApplyEnd := by
        intro s' ht lo' hi' hm
        have hne : Mark.decode lo' hi' ≠ .pageFailed := nofun
        exact absurd ((ht.mem_marks hne nofun).mp hm) (h4.undecoded lo' hi')
      refine h4.sat_modifyCache hws (hd4 s4 (.refl s4)) ⟨rfl, rfl, rfl, rfl, rfl⟩
        (fun hc => ⟨hc.length, fun h => absurd rfl h⟩) fun s5 h5 _ hm5 => ?_
      have hi5 := h4.toInvalidated.touched hws h5
      have hview5 : Reads cfg .view s5 := trivial
      have hq6 : Quiet s5 (after env .view s5) := (still_after hview5).quiet
      have ht6 : Touched (dfuBank0RegionStart s1.mem) cfg.appApplyEnd s4 (after env .view s5) :=
        h5.trans (still_after hview5).touched
      have hbase5 : dfuBank0RegionStart s5.mem = dfuBank0RegionStart s1.mem := by
        rw [hm5]
        exact h4.base
      refine sat_op.mpr ⟨.common (.closes hi5.session hview5.closes), ?_⟩
      change Sat _ _ _ (copyStagedFullImage cfg m (dfuBank0RegionStart s5.mem) >>= _) _
      rw [hbase5]
      refine ((hi5.quiet hq6).sat_writes hws (hd4 _ ht6) (copyPages_spec hws.pages (Nat.le_refl _)
        hbase.aligned hsize _ (Nat.zero_mod _) _)).bind fun r s7 h7 => ?_
      have hi7 := (hi5.quiet hq6).touched hws h7.2
      split_ifs
      · have hc : Closes cfg (.setGpregret2 r) s7 := trivial
        exact sat_op.mpr ⟨.common (.closes hi7.session hc), (hi7.quiet (quiet_after env hc)).failed⟩
      · exact finishAppUpdate_spec hi7

theorem Invalidated.failApply (h : Invalidated env cfg s1 a m s) (code : Nat) :
    (failApply cfg code).Sat (handler env) (AppOp env cfg s1) (AppEnd env cfg s1) s :=
  (sat_app (failApply_common h.session code)).post fun r s' h' => by
    rw [h'.1]
    exact (h.quiet h'.2).failed

theorem AppEnd.finishApply {r : Bool} (h : AppEnd env cfg s1 r s) :
    (finishApply cfg r).Sat (handler env) (AppOp env cfg s1) (AppEnd env cfg s1) s :=
  (sat_app (sat_common h.session (finishApply_closes r))).post fun r' s' h' => by
    rw [h'.1]
    exact h.quiet h'.2

theorem decodeApp_spec (h : Opened env cfg s1 a m s) (hws : Workspace cfg s1 a lo hi)
    (decoder : Nat → Decoder) :
    (decodeApp cfg decoder m lo hi).Sat (handler env) (AppOp env cfg s1) (AppEnd env cfg s1) s := by
  have hnone : ∀ lo' hi', .decode lo' hi' ∈ s.marks → lo' = lo ∧ hi' = hi :=
    fun lo' hi' hm => absurd hm (h.undecoded lo' hi')
  refine sat_op.mpr ⟨.writes a m h.toInvalidated lo hi hws hnone (.inr rfl), ?_⟩
  -- the decoder is at work: its workspace is the one marked
  have hi1 : Invalidated env cfg s1 a m (after env (.mark (.decode lo hi)) s) :=
    ⟨⟨h.session.source, h.session.gpregret, h.session.retained⟩, h.chosen, h.bound,
      List.mem_append_left _ h.parsed, List.mem_append_left _ h.commit, h.size, h.record⟩
  have hd1 : ∀ lo' hi', .decode lo' hi' ∈ (after env (.mark (.decode lo hi)) s).marks →
      lo' = lo ∧ hi' = hi := by
    intro lo' hi' hm
    rcases List.mem_append.mp hm with hm | hm
    · exact hnone lo' hi' hm
    · cases List.mem_singleton.mp hm
      exact ⟨rfl, rfl⟩
  have hin : CacheIn lo hi (after env (.mark (.decode lo hi)) s).statics := h.empty.cacheIn lo hi
  refine (hi1.sat_writes hws hd1 (runDecoder_spec (c := ⟨m.payloadAddr, m.payloadSize, lo, hi⟩)
    hws.pages hws.le (decoder m.payloadSize) 0 hin)).bind fun r s2 h2 => ?_
  obtain ⟨r, patchPos⟩ := r
  have hi2 := hi1.touched hws h2.2
  have hd2 : ∀ lo' hi', .decode lo' hi' ∈ s2.marks → lo' = lo ∧ hi' = hi := by
    intro lo' hi' hm
    have hne : Mark.decode lo' hi' ≠ .pageFailed := nofun
    exact hd1 lo' hi' ((h2.2.mem_marks hne nofun).mp hm)
  simp only
  by_cases hneg : r < 0
  · rw [if_pos hneg]
    exact hi2.failApply _
  rw [if_neg hneg]
  refine (hi2.sat_writes hws hd2 (cacheFlush_spec (h2.2.cache hin))).bind fun flushed s3 h3 => ?_
  have hi3 := hi2.touched hws h3.2
  split_ifs
  · exact hi3.failApply _
  · exact hi3.failApply _
  · exact hi3.failApply _
  · exact (finishAppUpdate_spec hi3).bind fun _ _ h4 => h4.finishApply

/-- The end of the application region is a page boundary behind the application's start. -/
structure LimitOk (base appLimit : Nat) : Prop where
  le : base ≤ appLimit
  high : appLimit ≤ stageCeilingExpanded
  aligned : appLimit % codePageSize = 0

theorem not_flashStaged {g : Statics} (h : cfg.externalStagedSource g = true) :
    ¬ FlashStaged cfg g := by
  rintro ⟨h1, h2⟩
  simp [Profile.externalStagedSource, h1, h2] at h

theorem flashStaged_of {g : Statics} (h : cfg.externalStagedSource g = false) :
    FlashStaged cfg g := by
  simpa [Profile.externalStagedSource, FlashStaged] using h

/-- Both ends of the workspace are page boundaries, in every storage profile. -/
theorem workspace_ok (hbase : BaseOk (dfuBank0RegionStart s1.mem))
    (hw : FlashStaged cfg s1.statics → InWindow (dfuBank0RegionStart s1.mem) a m) {appLimit : Nat}
    (hl : LimitOk (dfuBank0RegionStart s1.mem) appLimit) {g : Statics}
    (hg : KeepsSource s1.statics g) :
    Workspace cfg s1 a (dfuBank0RegionStart s1.mem)
      (workspaceHi cfg appLimit a (dfuBank0RegionStart s1.mem)
        (workspaceSpan cfg g appLimit a (dfuBank0RegionStart s1.mem))) := by
  have he : stageCeilingExpanded = 0xED000 := rfl
  have hle := hl.le
  have hhigh := hl.high
  have hal := hl.aligned
  have hpages : ∀ hi, hi % codePageSize = 0 → hi ≤ stageCeilingExpanded →
      Pages (dfuBank0RegionStart s1.mem) hi :=
    fun hi h1 h2 => ⟨hbase.pos, hbase.aligned, h1, by omega⟩
  unfold workspaceHi workspaceSpan
  split_ifs with hcfg hext hint
  · rw [sub32_eq (by omega) hle, add32_eq (by omega), Nat.add_sub_cancel' hle]
    refine ⟨hpages _ hal hhigh, rfl, hle, hhigh, fun hst => ?_⟩
    rw [hg.external] at hext
    exact absurd hst (not_flashStaged hext)
  · rw [Bool.not_eq_true, hg.external] at hext
    obtain ⟨hal', hle', hhigh', -⟩ := hw (flashStaged_of hext)
    rw [sub32_eq (by omega) hle', add32_eq (by omega), Nat.add_sub_cancel' hle']
    exact ⟨hpages _ hal' (by omega), rfl, hle', by omega, fun _ => Nat.le_refl _⟩
  all_goals
    have hst : FlashStaged cfg s1.statics := by
      simp only [Bool.not_eq_true, Bool.or_eq_false_iff] at hcfg
      simp [FlashStaged, Profile.sdSelected, Profile.qspiSelected, hcfg]
    obtain ⟨hal', hle', hhigh', -⟩ := hw hst
  · refine ⟨hpages _ ?_ (by omega), rfl, by omega, by omega, fun _ => Nat.min_le_left _ _⟩
    rcases Nat.le_total a appLimit with h | h
    · rwa [Nat.min_eq_left h]
    · rwa [Nat.min_eq_right h]
  · exact ⟨hpages _ hal' (by omega), rfl, hle', by omega, fun _ => Nat.le_refl _⟩

theorem Found.rejectApply (h : Found env cfg Anywhere s1 a m s) (code : Nat) :
    (rejectApply cfg m code).Sat (handler env) (AppOp env cfg s1) (AppEnd env cfg s1) s :=
  (sat_app (rejectApply_spec h code)).post fun r s' h' => by
    rw [h'.1]
    exact .of_rejected h'.2

theorem applyInPlace_spec (h : Found env cfg Anywhere s1 a m s) (hb : Bound env cfg s1)
    (hbase : BaseOk (dfuBank0RegionStart s1.mem)) {appLimit : Nat}
    (hl : LimitOk (dfuBank0RegionStart s1.mem) appLimit) (decoder : Nat → Decoder) :
    (applyInPlace cfg decoder m a appLimit).Sat (handler env) (AppOp env cfg s1)
      (AppEnd env cfg s1) s := by
  have he : stageCeilingExpanded = 0xED000 := rfl
  have hle := hl.le
  have hhigh := hl.high
  have hview : Reads cfg .view s := trivial
  have hq1 : Quiet s (after env .view s) := (still_after hview).quiet
  have hf1 := h.quiet hq1
  unfold applyInPlace
  refine sat_op.mpr ⟨.common (.closes h.session hview.closes), ?_⟩
  change Sat _ _ _ (if m.isFull ∨ m.codecId ≠ codecInplace ∨ m.imageSize = 0 ∨
    sub32 appLimit (dfuBank0RegionStart s.mem) < m.imageSize then _ else _) _
  rw [h.mem]
  by_cases hbad : m.isFull ∨ m.codecId ≠ codecInplace ∨ m.imageSize = 0 ∨
    sub32 appLimit (dfuBank0RegionStart s1.mem) < m.imageSize
  · rw [if_pos hbad]
    exact hf1.rejectApply 0xB3
  rw [if_neg hbad]
  have hsize : dfuBank0RegionStart s1.mem + m.imageSize ≤ stageCeilingExpanded := by
    rw [sub32_eq (by omega) hle] at hbad
    omega
  have hview2 : Reads cfg .view (after env .view s) := trivial
  have hf2 : Found env cfg Anywhere s1 a m (after env .view (after env .view s)) :=
    hf1.quiet (still_after hview2).quiet
  refine sat_flash.mpr ⟨.common (.closes hf1.session hview2.closes), ?_⟩
  cases hbody : findBodyLen (after env .view s).mem appLimit with
  | none => exact hf2.rejectApply 0xB4
  | some bodyLen =>
    refine (sat_app (sat_reads hf2.session (sha256ReadRegion_spec _ _ _ _))).bind fun r s3 h3 => ?_
    have hf3 := hf2.quiet h3.2
    split_ifs
    · exact hf3.rejectApply 0xB5
    have hread3 : Reads cfg .get s3 := trivial
    have hf4 : Found env cfg Anywhere s1 a m (after env .get s3) := hf3.quiet (still_after hread3).quiet
    refine sat_get.mpr ⟨.common (.closes hf3.session hread3.closes), ?_⟩
    refine (sat_app (sat_reads hf4.session (onlyReads_dtGeometryOk m bodyLen _ _))).bind
      fun r s5 h5 => ?_
    have hf5 := hf4.quiet h5.2
    cases r with
    | false => exact hf5.rejectApply 0xB9
    | true =>
      refine (sat_app hf5.clearApproval).bind fun r s6 h6 => ?_
      have hrej := hf5.cleared h6
      cases r with
      | false =>
        refine (sat_app (failApply_common hrej.session 0xBC)).post fun r s' h' => ?_
        rw [h'.1]
        exact .of_rejected (hrej.quiet h'.2)
      | true =>
        refine (invalidateApp_spec (hf5.committing hb h6 hsize)).bind fun _ s7 h7 => ?_
        have hview7 : Reads cfg .view s7 := trivial
        have hq8 : Quiet s7 (after env .view s7) := (still_after hview7).quiet
        have h8 : Opened env cfg s1 a m (after env .view s7) :=
          ⟨h7.toInvalidated.quiet hq8, hq8.mem ▸ h7.base, h7.empty.keeps hq8.cache,
            hq8.marks ▸ h7.undecoded⟩
        refine sat_op.mpr ⟨.common (.closes h7.session hview7.closes), ?_⟩
        change Sat _ _ _ (decodeApp cfg decoder m (dfuBank0RegionStart s7.mem)
          (workspaceHi cfg appLimit a (dfuBank0RegionStart s7.mem) _)) _
        rw [h7.base, show (answer env Op.view s : Mem) = s1.mem from h.mem]
        exact decodeApp_spec h8 (workspace_ok hbase h.chosen.window hl hf3.session.source) decoder

theorem applyContainer_spec (h : Found env cfg Anywhere s1 a m s)
    (hbase : BaseOk (dfuBank0RegionStart s1.mem)) {appLimit : Nat}
    (hl : LimitOk (dfuBank0RegionStart s1.mem) appLimit) (decoder : Nat → Decoder) :
    (applyContainer cfg decoder m a appLimit).Sat (handler env) (AppOp env cfg s1)
      (AppEnd env cfg s1) s := by
  unfold applyContainer
  by_cases hbad : m.formatVer ≠ 2 ∨ m.flags / 4 ≠ 0
  · rw [if_pos hbad]
    exact h.rejectApply 0xB3
  rw [if_neg hbad]
  have hread : Reads cfg .get s := trivial
  have hf1 : Found env cfg Anywhere s1 a m (after env .get s) := h.quiet (still_after hread).quiet
  refine sat_get.mpr ⟨.common (.closes h.session hread.closes), ?_⟩
  -- past this check the card holds the authorized container
  refine Sat.bind (Q := fun r s' => Found env cfg Anywhere s1 a m s' ∧ (r = true → Bound env cfg s1)) ?_
    fun r s2 h2 => ?_
  · split_ifs with hsd
    · refine (sat_app (sat_reads hf1.session sdAuthorizedContainerValid_spec)).post fun r s' h' =>
        ⟨hf1.quiet h'.2, fun hr _ hstab => ?_⟩
      have hk := hf1.session.source
      rw [← hk.sdAuth, ← hf1.sourceByte]
      exact h'.1.1 hr hstab
    · refine ⟨hf1, fun _ hsel => ?_⟩
      rw [h.session.source.sdSelected] at hsd
      exact absurd hsel hsd
  obtain ⟨hf2, hb⟩ := h2
  cases r with
  | false => exact hf2.rejectApply 0xBD
  | true =>
    have hread2 : Reads cfg .get s2 := trivial
    have hf3 : Found env cfg Anywhere s1 a m (after env .get s2) := hf2.quiet (still_after hread2).quiet
    refine sat_get.mpr ⟨.common (.closes hf2.session hread2.closes), ?_⟩
    split_ifs with hx
    · rw [Bool.and_eq_true, hf2.session.source.external] at hx
      exact (applyFullExternal_spec hf3 (hb rfl) hbase (not_flashStaged hx.1)).bind
        fun _ _ h4 => h4.finishApply
    · exact applyInPlace_spec hf3 (hb rfl) hbase hl decoder

end OtaFix.Mota
