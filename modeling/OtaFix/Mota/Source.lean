import OtaFix.Mota.Contained

/-!
# The source of an update

An update reads no staging backend but the selected one, so that two devices which
differ elsewhere run alike (`mota_no_fallback`); and from a card or a hybrid source it
changes the flash only for the container that the consumed record authorizes
(`mota_source_bound`).
-/

namespace OtaFix.Mota

open Lib Prog

variable {env env' : Env} {cfg : Profile} {s s' s0 s1 : Device} {o : Op} {b : Backend}

/-! ## Backends -/

/-- If `o` reads or writes a staging backend, it is `b`. -/
def Reaches (b : Backend) : Op → Prop
  | .stagedFlash _ _ => b = .internal ∨ b = .hybrid
  | .stagedRam _ _ => b = .hybrid
  | .sdInit | .sdRead _ _ _ => b = .sd
  | .qspiInit | .qspiCapacity | .qspiRead _ _ | .qspiWrite _ _ => b = .qspi
  | _ => True

/-- The variables select `b`. -/
structure Selects (cfg : Profile) (g : Statics) (b : Backend) : Prop where
  sd : cfg.sdSelected g = decide (b = .sd)
  hybrid : cfg.hybridSelected g = decide (b = .hybrid)
  qspi : b ≠ .sd → cfg.qspiSelected g = decide (b = .qspi)

theorem Selected.selects {purpose formatVer : Byte} (h : Selected env cfg s0 b purpose formatVer s1)
    (hs : Session s1 s) : Selects cfg s.statics b where
  sd := (hs.source.sdSelected cfg).trans h.sd
  hybrid := (hs.source.hybridSelected cfg).trans h.hybrid
  qspi hb := (hs.source.qspiSelected cfg).trans (h.qspi hb)

theorem SourceRead.reaches {g : Statics} (h : SourceRead cfg g o) (hg : Selects cfg g b) :
    Reaches b o := by
  have hsd := hg.sd
  have hhy := hg.hybrid
  have hq := hg.qspi
  cases o with
  | stagedFlash | stagedRam | sdInit | sdRead | qspiInit | qspiCapacity | qspiRead =>
    cases b <;> simp_all [SourceRead, Reaches]
  | _ => exact h.elim

theorem Reads.reaches (h : Reads cfg o s) (hg : Selects cfg s.statics b) : Reaches b o := by
  cases o with
  | stagedFlash | stagedRam | sdInit | sdRead | qspiInit | qspiCapacity | qspiRead | qspiWrite =>
    exact SourceRead.reaches (by exact h) hg
  | _ => trivial

theorem Closes.reaches (h : Closes cfg o s) (hg : Selects cfg s.statics b) : Reaches b o := by
  cases o with
  | stagedFlash | stagedRam | sdInit | sdRead | qspiInit | qspiCapacity | qspiRead | qspiWrite =>
    exact Reads.reaches (by exact h) hg
  | _ => trivial

theorem Writes.reaches {lo hi : Nat} (h : Writes cfg lo hi o s) (hg : Selects cfg s.statics b) :
    Reaches b o := by
  cases o with
  | stagedFlash | stagedRam | sdInit | sdRead | qspiInit | qspiCapacity | qspiRead | qspiWrite =>
    exact Reads.reaches (by exact h) hg
  | _ => trivial

theorem Preludes.reaches (h : Preludes o) : Reaches b o := by
  cases o with
  | stagedFlash | stagedRam | sdInit | sdRead | qspiInit | qspiCapacity | qspiRead | qspiWrite =>
    exact h.elim
  | _ => trivial

theorem CommonOp.reaches {P : Nat → Prop} {purpose formatVer : Byte}
    (h1 : Selected env cfg s0 b purpose formatVer s1) (h : CommonOp env cfg P s1 o s) :
    Reaches b o := by
  cases h with
  | closes h ho => exact ho.reaches (h1.selects h)
  | parsed => trivial
  | clears h a m hP hc hp hd hmem ho =>
    have hg := h1.selects h
    rcases ho with ho | ⟨-, ho⟩ | ⟨hsd, hq, rfl⟩
    · exact ho.reaches hg
    · exact ho.reaches hg
    · rw [hg.sd] at hsd
      rw [hg.qspi (of_decide_eq_false hsd)] at hq
      have hb : b = .qspi := of_decide_eq_true hq
      exact hb

theorem MotaOp.reaches (h : MotaOp env cfg s0 o s) : Reaches (selectedBackend cfg s0) o := by
  cases h with
  | prelude ho => exact ho.reaches
  | app ht h =>
    rw [selectedBackend, if_pos ht]
    cases h with
    | prelude ho => exact ho.reaches
    | later s1 h1 ho =>
      cases ho with
      | common h => exact CommonOp.reaches h1 h
      | invalidates a m h ho => rcases ho with rfl | rfl <;> trivial
      | writes a m h lo hi hws hd ho =>
        rcases ho with ho | rfl
        · exact ho.reaches (h1.selects h.session)
        · trivial
      | records => trivial
  | boot he ht h =>
    rw [selectedBackend, if_neg (by rw [ht]; decide)]
    cases h with
    | prelude ho => exact ho.reaches
    | later s1 h1 ho =>
      cases ho with
      | common h => exact CommonOp.reaches h1 h
      | copies a m raw h hs hp ho => exact ho.reaches (h1.selects hs)
      | winds hg hr ho =>
        cases o with
        | stagedFlash | stagedRam | sdInit | sdRead | qspiInit | qspiCapacity | qspiRead | qspiWrite =>
          exact ho.elim
        | _ => trivial
      | hands => trivial

/-! ## No fallback -/

/-- Two environments agree on the device itself and on the backend `b`. -/
structure AgreeOn (b : Backend) (env env' : Env) : Prop where
  resetreas : env.resetreas = env'.resetreas
  fault : env.fault = env'.fault
  mbrCopies : env.mbrCopies = env'.mbrCopies
  arena : b = .hybrid → env.arena = env'.arena
  sd : b = .sd → env.sdInit = env'.sdInit ∧ env.sdOk = env'.sdOk ∧ env.sdByte = env'.sdByte
  qspi : b = .qspi → env.qspiInit = env'.qspiInit ∧ env.qspiCapacity = env'.qspiCapacity ∧
    env.qspiOk = env'.qspiOk ∧ env.qspiByte = env'.qspiByte ∧ env.qspiWrite = env'.qspiWrite

/-- What reaches no other backend runs alike. -/
theorem AgreeOn.handler_eq (h : AgreeOn b env env') (ho : Reaches b o) (s : Device) :
    handler env o s = handler env' o s := by
  have hnor : b = .qspi → norByte env s.nor = norByte env' s.nor := by
    intro hb
    funext x
    rw [norByte, norByte, (h.qspi hb).2.2.2.1]
  cases o with
  | resetreas => simp only [handler, answer, after, nvOps, h.resetreas]
  | mbrCopy => simp only [handler, answer, after, nvOps, h.mbrCopies]
  | erase | words => simp only [handler, answer, after, nvOps, h.fault]
  | stagedRam => simp only [handler, answer, after, nvOps, h.arena ho]
  | sdInit => simp only [handler, answer, after, nvOps, (h.sd ho).1]
  | sdRead => simp only [handler, answer, after, nvOps, (h.sd ho).2.1, (h.sd ho).2.2]
  | qspiInit => simp only [handler, answer, after, nvOps, (h.qspi ho).1]
  | qspiCapacity => simp only [handler, answer, after, nvOps, (h.qspi ho).2.1]
  | qspiRead => simp only [handler, answer, after, nvOps, (h.qspi ho).2.2.1, hnor ho]
  | qspiWrite => simp only [handler, answer, after, nvOps, (h.qspi ho).2.2.2.2]
  | settingsCommit r =>
    rw [handler, handler, after_settingsCommit, after_settingsCommit]
    rfl
  | _ => rfl

/-- An erase or a write of the flash. -/
def Programs : Op → Prop
  | .erase _ | .words _ _ | .settingsCommit _ => True
  | _ => False

/-- The purpose and the format that a record must name. -/
def purposeOf (s0 : Device) : Byte :=
  if s0.gpregret = otaApply then sdAuthPurposeApp else sdAuthPurposeBootloader

def formatOf (s0 : Device) : Byte := if s0.gpregret = otaApply then 2 else 3

/-- The container for which the flash is changed in the state `s`. -/
structure Authorizes (env : Env) (cfg : Profile) (s0 s1 : Device) (a : Nat) (m : MotaMin)
    (s : Device) : Prop where
  selected : Selected env cfg s0 (selectedBackend cfg s0) (purposeOf s0) (formatOf s0) s1
  chosen : Chosen env cfg s1 a m
  bound : Bound env cfg s1
  token : s0.gpregret = bootloaderApply → cfg.sdSelected s1.statics = true →
    sdBootAuthorizationValid s1.mem m = true
  parsed : .parsed a m ∈ s.marks

theorem Closes.not_programs (h : Closes cfg o s) : ¬ Programs o := by
  cases o with
  | erase | words | settingsCommit => exact h.elim
  | _ => exact id

theorem Preludes.not_programs (h : Preludes o) : ¬ Programs o := by
  cases o with
  | erase | words | settingsCommit => exact h.elim
  | _ => exact id

/-- The approval of a container on a card or a NOR is not in the flash. -/
theorem Clears.flashStaged {a : Nat} {m : MotaMin} (h : Clears cfg a m o s) (hp : Programs o) :
    FlashStaged cfg s.statics := by
  rcases h with h | ⟨hst, -⟩ | ⟨-, -, rfl⟩
  · exact absurd hp h.closes.not_programs
  · exact hst
  · exact hp.elim

theorem MotaOp.programs (h : MotaOp env cfg s0 o s) (hp : Programs o) :
    ∃ s1 a m, Authorizes env cfg s0 s1 a m s := by
  have hnone : ∀ {s1 : Device}, FlashStaged cfg s1.statics → Bound env cfg s1 ∧
      (cfg.sdSelected s1.statics = true → False) := by
    intro s1 hst
    refine ⟨fun hsd => ?_, fun hsd => ?_⟩ <;> rw [hst.1] at hsd <;> cases hsd
  cases h with
  | prelude ho => exact absurd hp ho.not_programs
  | app ht h =>
    have hb : selectedBackend cfg s0 = appBackend cfg s0.gpregret2 := if_pos ht
    have hpurpose : purposeOf s0 = sdAuthPurposeApp := if_pos ht
    have hformat : formatOf s0 = 2 := if_pos ht
    have hboot : s0.gpregret ≠ bootloaderApply := by rw [ht]; decide
    cases h with
    | prelude ho => exact absurd hp ho.not_programs
    | later s1 h1 ho =>
      rw [← hb, ← hpurpose, ← hformat] at h1
      cases ho with
      | common h =>
        cases h with
        | closes h ho => exact absurd hp ho.not_programs
        | parsed => exact hp.elim
        | clears h a m hP hc hparsed hd hmem ho =>
          exact ⟨s1, a, m, h1, hc, (hnone ((ho.flashStaged hp).keeps h.source.symm)).1,
            fun hn => absurd hn hboot, hparsed⟩
      | invalidates a m h => exact ⟨s1, a, m, h1, h.chosen, h.bound, fun hn => absurd hn hboot, h.parsed⟩
      | writes a m h => exact ⟨s1, a, m, h1, h.chosen, h.bound, fun hn => absurd hn hboot, h.parsed⟩
      | records a m h => exact ⟨s1, a, m, h1, h.chosen, h.bound, fun hn => absurd hn hboot, h.parsed⟩
  | boot he ht h =>
    have hne : s0.gpregret ≠ otaApply := by rw [ht]; decide
    have hb : selectedBackend cfg s0 = bootBackend cfg s0.gpregret2 := if_neg hne
    have hpurpose : purposeOf s0 = sdAuthPurposeBootloader := if_neg hne
    have hformat : formatOf s0 = 3 := if_neg hne
    cases h with
    | prelude ho => exact absurd hp ho.not_programs
    | later s1 h1 ho =>
      rw [← hb, ← hpurpose, ← hformat] at h1
      cases ho with
      | common h =>
        cases h with
        | closes h ho => exact absurd hp ho.not_programs
        | parsed => exact hp.elim
        | clears h a m hP hc hparsed hd hmem ho =>
          have hst := hnone ((ho.flashStaged hp).keeps h.source.symm)
          exact ⟨s1, a, m, h1, hc, hst.1, fun _ hsd => (hst.2 hsd).elim, hparsed⟩
      | copies a m raw h hs hparsed => exact ⟨s1, a, m, h1, h.chosen, h.bound, fun _ => h.token, hparsed⟩
      | winds hg hr ho =>
        cases o with
        | erase | words | settingsCommit => exact ho.elim
        | _ => exact hp.elim
      | hands => exact hp.elim

theorem CommonOp.located {P : Nat → Prop} {a : Nat} {m : MotaMin}
    (h : CommonOp env cfg P s1 (.mark (.parsed a m)) s) :
    ∃ ceiling, Located env cfg s1.statics (sourceByte env cfg s1) (dfuBank0RegionStart s1.mem) ceiling
      a m := by
  cases h with
  | closes h ho => exact ho.elim
  | parsed h _ _ ceiling hl => exact ⟨ceiling, hl⟩
  | clears h a m hP hc hp hd hmem ho =>
    rcases ho with ho | ⟨-, ho⟩ | ⟨-, -, ho⟩
    · exact ho.elim
    · exact ho.elim
    · cases ho

/-- A container that is found lies in the selected source. -/
theorem MotaOp.located {a : Nat} {m : MotaMin} (h : MotaOp env cfg s0 (.mark (.parsed a m)) s) :
    ∃ (s1 : Device) (ceiling : Nat), Selects cfg s1.statics (selectedBackend cfg s0) ∧
      Located env cfg s1.statics (sourceByte env cfg s1) (dfuBank0RegionStart s1.mem) ceiling a m := by
  cases h with
  | prelude ho => exact ho.elim
  | app ht h =>
    rw [selectedBackend, if_pos ht]
    cases h with
    | prelude ho => exact ho.elim
    | later s1 h1 ho =>
      cases ho with
      | common h =>
        obtain ⟨ceiling, hl⟩ := h.located
        exact ⟨s1, ceiling, h1.selects (.refl s1), hl⟩
      | invalidates a m h ho => rcases ho with ho | ho <;> cases ho
      | writes a m h lo hi hws hd ho =>
        rcases ho with ho | ho
        · exact ho.elim
        · cases ho
  | boot he ht h =>
    rw [selectedBackend, if_neg (by rw [ht]; decide)]
    cases h with
    | prelude ho => exact ho.elim
    | later s1 h1 ho =>
      cases ho with
      | common h =>
        obtain ⟨ceiling, hl⟩ := h.located
        exact ⟨s1, ceiling, h1.selects (.refl s1), hl⟩
      | copies a m raw h hs hp ho => exact ho.elim
      | winds hg hr ho => exact ho.elim

/-- The address 1 stands for a container outside of internal flash. -/
theorem Located.external {g : Statics} {f : Mem} {base ceiling a : Nat} {m : MotaMin}
    (h : Located env cfg g f base ceiling a m) (hg : Selects cfg g b) (hb : b = .sd ∨ b = .qspi) :
    a = 1 := by
  rcases hb with rfl | rfl
  · exact (h.sd hg.sd).1
  · exact (h.qspi hg.sd hg.hybrid (hg.qspi nofun)).1

theorem parsed_external (hb : selectedBackend cfg s0 = .sd ∨ selectedBackend cfg s0 = .qspi)
    (h : MotaOp env cfg s0 o s) (hs : ∀ a m, .parsed a m ∈ s.marks → a = 1) :
    ∀ a m, .parsed a m ∈ (after env o s).marks → a = 1 := by
  intro a m hp
  cases o with
  | mark e =>
    rcases List.mem_append.mp hp with hp | hp
    · exact hs a m hp
    · obtain rfl := List.mem_singleton.mp hp
      obtain ⟨s1, ceiling, hg, hl⟩ := h.located
      exact hl.external hg hb
  | settingsCommit r =>
    rw [settingsCommit_marks] at hp
    exact hs a m hp
  | _ => exact hs a m hp

/-- An update from a card or a NOR that is refused leaves the flash alone. -/
theorem MotaEnd.external {r : Bool} (h : MotaEnd env cfg s0 r s) (hr : r = false)
    (hc : .commit ∉ s.marks)
    (hb : selectedBackend cfg s0 = .sd ∨ selectedBackend cfg s0 = .qspi) : s.mem = s0.mem := by
  have hexternal : ∀ {purpose formatVer : Byte} {s1 : Device},
      Selected env cfg s0 (selectedBackend cfg s0) purpose formatVer s1 → Rejected cfg s1 s →
        s.mem = s0.mem := by
    intro purpose formatVer s1 h1 hrej
    refine (hrej.external fun hst => ?_).trans h1.mem
    rw [h1.flashStaged] at hst
    rcases hb with hb | hb <;> simp [hb] at hst
  cases h with
  | idle ht h => exact h.mem
  | app ht h =>
    cases h with
    | refused h => exact h.mem
    | ended s1 h1 h =>
      rw [← show selectedBackend cfg s0 = _ from if_pos ht] at h1
      exact hexternal h1 ((h.rejected hr).resolve_left hc)
  | boot he ht h =>
    cases h with
    | refused h => exact h.mem
    | ended s1 h1 h =>
      rw [← show selectedBackend cfg s0 = _ from if_neg (by rw [ht]; decide)] at h1
      exact hexternal h1 ((h.rejected hr).resolve_left hc)

/-- Environments that agree on the device and on the selected backend make the same run.
With a card or a NOR selected, no byte of internal flash is read as a staged container:
every container found lies on the selected medium, the flash is written only with such a
container found, and a refusal leaves the flash as it was. -/
theorem mota_no_fallback (h : Booted cfg s0) (env : Env) (decoder : Nat → Decoder) :
    (∀ env', AgreeOn (selectedBackend cfg s0) env env' →
      (otaDeltaCheckAndApply cfg decoder).run (handler env) s0 =
        (otaDeltaCheckAndApply cfg decoder).run (handler env') s0) ∧
    (selectedBackend cfg s0 = .sd ∨ selectedBackend cfg s0 = .qspi →
      (∀ x ∈ (otaDeltaCheckAndApply cfg decoder).trace (handler env) s0,
        (∀ a n, x.1 ≠ .stagedFlash a n) ∧ (∀ a m, .parsed a m ∈ x.2.marks → a = 1) ∧
        (Programs x.1 → ∃ a m, .parsed a m ∈ x.2.marks)) ∧
      (((otaDeltaCheckAndApply cfg decoder).run (handler env) s0).1 = false →
        .commit ∉ ((otaDeltaCheckAndApply cfg decoder).run (handler env) s0).2.marks →
        ((otaDeltaCheckAndApply cfg decoder).run (handler env) s0).2.mem = s0.mem)) := by
  have hspec : Sat (handler env) _ _ _ s0 := otaDeltaCheckAndApply_spec h decoder
  refine ⟨fun env' hagree => ?_, fun hb => ⟨fun x hx => ?_, fun hr hc => ?_⟩⟩
  · exact (hspec.mono (fun o s ho => hagree.handler_eq ho.reaches s) fun _ _ h => h).run_congr
  · have hkeep := hspec.keep (I := fun s => ∀ a m, Mark.parsed a m ∈ s.marks → a = 1)
      (by rw [h.marks]; exact nofun) fun _ _ ho hs => parsed_external hb ho hs
    obtain ⟨hop, hmarks⟩ := hkeep.trace x hx
    refine ⟨fun a n heq => ?_, hmarks, fun hp => ?_⟩
    · have hreach := hop.reaches
      rw [heq] at hreach
      rcases hb with hb | hb <;> rw [hb] at hreach <;> rcases hreach with hreach | hreach <;> cases hreach
    · obtain ⟨s1, a, m, hauth⟩ := hop.programs hp
      exact ⟨a, m, hauth.parsed⟩
  · exact hspec.result.external hr hc hb

/-- A device of the build with every backend: an approved container for the application is
staged in internal flash, and the NOR is selected. -/
def refusedDevice : Device :=
  { sampleDevice rakProfile otaApply stageQspi [] with
    mem := fun x => if 0xEC000 ≤ x ∧ x < 0xED000 then
      (sampleContainer sampleBaseHash).getD (x - 0xEC000) 0xFF else sampleFlash x }

theorem refusedDevice_booted : Booted rakProfile refusedDevice :=
  have hbase : BaseOk (dfuBank0RegionStart refusedDevice.mem) := ⟨by decide, by decide, by decide⟩
  ⟨rfl, hbase, rfl, rfl, rfl, rfl, rfl⟩

/-- The NOR does not answer, and neither the staged container nor the arena or the card is
taken in its place. -/
theorem mota_no_fallback_refused :
    let p := otaDeltaCheckAndApply rakProfile fun _ => .done 0
    let env : Env := { qspiInit := fun _ => false }
    (containerAt rakProfile refusedDevice.mem 0xEC000 motaAppEnd).map MotaMin.approved = some true ∧
      selectedBackend rakProfile refusedDevice = .qspi ∧
      (p.run (handler env) refusedDevice).1 = false ∧
      (p.run (handler env) refusedDevice).2.mem = refusedDevice.mem ∧
      (∀ x ∈ p.trace (handler env) refusedDevice, ∀ a n, x.1 ≠ .stagedFlash a n) ∧
      p.run (handler env) refusedDevice = p.run (handler { env with
        arena := fun _ => 0x6D, sdByte := fun _ _ => 0x6D, sdOk := fun _ => false }) refusedDevice := by
  intro p env
  have hended : (p.run (handler env) refusedDevice).1 = false ∧
      Mark.commit ∉ (p.run (handler env) refusedDevice).2.marks := by decide +kernel
  have hqspi : selectedBackend rakProfile refusedDevice = .qspi := by decide
  obtain ⟨hsame, hexternal⟩ := mota_no_fallback refusedDevice_booted env fun _ => .done 0
  obtain ⟨hops, hmem⟩ := hexternal (.inr hqspi)
  refine ⟨by decide, hqspi, hended.1, hmem hended.1 hended.2, fun x hx => (hops x hx).1,
    hsame _ ?_⟩
  rw [hqspi]
  exact ⟨rfl, rfl, rfl, (fun h => by cases h), (fun h => by cases h),
    fun _ => ⟨rfl, rfl, rfl, rfl, rfl⟩⟩

/-! ## The authorized container -/

/-- The card behind the first sector of the record. -/
def cardByte (env : Env) (s0 : Device) (x : Nat) : Byte :=
  env.sdByte 0 ((sdAuthOf s0.retained).firstSector * 512 + x)

/-- The flash prefix and the arena that the record describes. -/
def hybridByte (env : Env) (s0 : Device) (x : Nat) : Byte :=
  let h := hybridOf s0.retained
  if x < h.flashStart + h.flashLen then s0.mem x else env.arena (x - (h.flashStart + h.flashLen))

/-- The record is valid for this update, and `m`, found at `a`, is the container that it names:
what `parse_mota_at` reads at its location, of its length, and with its digest over the bytes
there, the approval taken as zero. -/
structure BoundTo (env : Env) (cfg : Profile) (s0 : Device) (a : Nat) (m : MotaMin) : Prop where
  sd : selectedBackend cfg s0 = .sd → a = 1 ∧
    motaSdAuthValid s0.retained (purposeOf s0) (formatOf s0) = true ∧
    m.total = (sdAuthOf s0.retained).containerTotal ∧
    containerAt cfg (cardByte env s0) 0 m.total = some m ∧
    sha256 (hashed (some approvalOffset) (cardByte env s0) 0 m.total) =
      (sdAuthOf s0.retained).containerSha256
  token : selectedBackend cfg s0 = .sd → s0.gpregret = bootloaderApply →
    sdBootAuthorizationValid s0.mem m = true
  hybrid : selectedBackend cfg s0 = .hybrid → a = (hybridOf s0.retained).flashStart ∧
    hybridHandoffValid env.resetreas (dfuBank0RegionStart s0.mem) s0.retained = true ∧
    m.total = (hybridOf s0.retained).containerTotal ∧
    containerAt cfg (hybridByte env s0) a (a + m.total) = some m ∧
    sha256 (hashed (some (a + approvalOffset)) (hybridByte env s0) a m.total) =
      (hybridOf s0.retained).containerSha256

theorem Authorizes.boundTo {a : Nat} {m : MotaMin} (h : Authorizes env cfg s0 s1 a m s)
    (hstable : env.Stable) : BoundTo env cfg s0 a m where
  sd hb := by
    obtain ⟨hauth, hvalid⟩ := h.selected.sdRecord hb
    have hsd : cfg.sdSelected s1.statics = true := by rw [h.selected.sd, hb]; rfl
    obtain ⟨ha, -, htotal, hparse⟩ := h.chosen.sd hsd
    have hbytes : sourceByte env cfg s1 = cardByte env s0 := by
      funext x
      simp only [sourceByte, hsd, if_true, hauth, cardByte]
    have hhash := h.bound hsd hstable
    have hparse := hparse hstable
    rw [hauth] at htotal hhash
    rw [hbytes] at hparse hhash
    rw [← htotal] at hhash
    exact ⟨ha, hvalid, htotal, hparse, hhash⟩
  token hb ht := by
    rw [← h.selected.mem]
    exact h.token ht (by rw [h.selected.sd, hb]; rfl)
  hybrid hb := by
    obtain ⟨hrec, hvalid⟩ := h.selected.hybridRecord hb
    have hsd : cfg.sdSelected s1.statics = false := by rw [h.selected.sd, hb]; rfl
    have hhy : cfg.hybridSelected s1.statics = true := by rw [h.selected.hybrid, hb]; rfl
    obtain ⟨ha, htotal, hparse, hhash⟩ := h.chosen.hybrid hsd hhy
    have hbytes : sourceByte env cfg s1 = hybridByte env s0 := by
      funext x
      rw [sourceByte_hybrid rfl hsd hhy, hrec, h.selected.mem]
      rfl
    have hparse := hparse hstable
    have hhash := hhash hstable
    rw [hrec] at ha htotal hhash
    rw [hbytes] at hparse hhash
    exact ⟨ha, hvalid, htotal, hparse, hhash⟩

/-- From a card or a hybrid source that is stable during the call, the flash is erased or
written only for the container at the place that the record names; otherwise it stays as it
was. -/
theorem mota_source_bound (h : Booted cfg s0) (env : Env) (hstable : env.Stable)
    (decoder : Nat → Decoder) :
    (∀ x ∈ (otaDeltaCheckAndApply cfg decoder).trace (handler env) s0, Programs x.1 →
      ∃ a m, .parsed a m ∈ x.2.marks ∧ BoundTo env cfg s0 a m) ∧
    (((otaDeltaCheckAndApply cfg decoder).run (handler env) s0).2.mem = s0.mem ∨ ∃ a m,
      .parsed a m ∈ ((otaDeltaCheckAndApply cfg decoder).run (handler env) s0).2.marks ∧
        BoundTo env cfg s0 a m) := by
  have hspec : Sat (handler env) _ _ _ s0 := otaDeltaCheckAndApply_spec h decoder
  have hprogram : ∀ o s, MotaOp env cfg s0 o s → Programs o →
      ∃ a m, .parsed a m ∈ s.marks ∧ BoundTo env cfg s0 a m := by
    intro o s ho hp
    obtain ⟨s1, a, m, hauth⟩ := ho.programs hp
    exact ⟨a, m, hauth.parsed, hauth.boundTo hstable⟩
  refine ⟨fun x hx hp => hprogram _ _ (hspec.trace x hx) hp, ?_⟩
  refine hspec.inv (I := fun s => s.mem = s0.mem ∨ ∃ a m, Mark.parsed a m ∈ s.marks ∧
    BoundTo env cfg s0 a m) (.inl rfl) fun o s ho hs => ?_
  have hmarks : (∃ a m, Mark.parsed a m ∈ s.marks ∧ BoundTo env cfg s0 a m) →
      ∃ a m, Mark.parsed a m ∈ (after env o s).marks ∧ BoundTo env cfg s0 a m :=
    fun ⟨a, m, hp, hb⟩ => ⟨a, m, mark_mem hp, hb⟩
  by_cases hp : Programs o
  · exact .inr (hmarks (hprogram o s ho hp))
  · refine hs.imp (fun hm => ?_) hmarks
    have hnone : nvOps env o s = [] := by
      cases o with
      | erase | words | settingsCommit => exact absurd trivial hp
      | _ => rfl
    change (after env o s).mem = s0.mem
    rw [after_mem, hnone]
    exact hm

/-- A build whose only source is an SD card. -/
def sampleSdProfile : Profile :=
  { sampleProfile with
    qspiFlash := false, qspiBootloaderUpdate := false, qspiXiaoIdentity := false, sdCard := true }

/-- The container for the sample application. -/
def sdContainer : List Byte := sampleContainer sampleBaseHash

/-- Its digest, the approval taken as zero. -/
def sdDigest : List Byte :=
  [0x48, 0xEB, 0x46, 0x4E, 0x25, 0x0B, 0x56, 0x10, 0xDF, 0x29, 0xFB, 0xA8, 0x2D, 0x46, 0x1A, 0x0E,
    0x31, 0x36, 0xCA, 0x70, 0x2F, 0x01, 0xE2, 0x21, 0x34, 0xFA, 0x0D, 0xAA, 0x84, 0xE8, 0x71, 0xDF]

/-- The record that authorizes it, at the second sector of the card. -/
def sdRecord : List Byte :=
  let body := sdAuthMagic ++ put16 2 ++ put16 72 ++ [1, 2, 0, 0] ++ put32 1 ++ put32 1 ++ put32 223 ++
    put32 64 ++ sdDigest
  let crc := otafixCrc32Update 0 body
  body ++ put32 crc.toNat ++ put32 (~~~crc).toNat

def sampleCard : Env := { sdByte := fun _ x => sdContainer.getD (x - 512) 0xFF }

def sdTrace : List (Op × Device) :=
  (otaDeltaCheckAndApply sampleSdProfile fun _ => .done 0).trace (handler sampleCard)
    (sampleDevice sampleSdProfile otaApply stageSd sdRecord)

/-- The authorized container is applied: the settings record is replaced. -/
theorem mota_source_sdRun : ∃ x ∈ sdTrace, Programs x.1 ∧ ∃ a m, .parsed a m ∈ x.2.marks ∧
    BoundTo sampleCard sampleSdProfile (sampleDevice sampleSdProfile otaApply stageSd sdRecord) a m := by
  have hany : sdTrace.any (fun x => match x.1 with
      | .settingsCommit _ => true
      | _ => false) = true := by decide +kernel
  obtain ⟨⟨o, s⟩, hx, ho⟩ := List.any_eq_true.mp hany
  cases o with
  | settingsCommit r =>
    exact ⟨_, hx, trivial, (mota_source_bound (sampleDevice_booted rfl _ _ _) sampleCard
      (fun _ _ => rfl) _).1 _ hx trivial⟩
  | _ => cases ho

end OtaFix.Mota
