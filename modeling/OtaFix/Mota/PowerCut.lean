import OtaFix.Mota.Source
import OtaFix.Mota.Working
import OtaFix.Sha256Eval

/-!
# Power loss during an application update

Every prefix of the flash operations of a run is a state in which power may be lost.
The boot check accepts the application there only while the installed image is intact,
or once the flash holds the image of the manifest (`mota_powerCut_safe`). Between the
two the settings record says that there is no application. All this holds while the words
that the boundary is read from name one boundary: an image that writes a SoftDevice header
over them is checked and recorded elsewhere (`mota_powerCut_headerRun`).
-/

namespace OtaFix.Mota

open Lib Prog

variable {env : Env} {cfg : Profile} {s s' s0 s1 : Device} {o : Op} {chip : Chip} {size : Nat}

/-! ## Cuts -/

/-- The boot check accepts `mem` only with the installed image intact, or with the image of
a container that was found. -/
def SafeCut (chip : Chip) (s0 : Device) (size : Nat) (marks : List Mark) (mem : Mem) : Prop :=
  bootloaderAppIsValid chip mem = true →
    (∀ x, dfuBank0RegionStart s0.mem ≤ x → x < dfuBank0RegionStart s0.mem + size →
      mem x = s0.mem x) ∨
    ∃ a m, .parsed a m ∈ marks ∧ ImageHeld mem m

theorem SafeCut.mono {marks marks' : List Mark} {mem : Mem} (h : SafeCut chip s0 size marks mem)
    (hm : ∀ e ∈ marks, e ∈ marks') : SafeCut chip s0 size marks' mem := fun hv =>
  (h hv).imp id fun ⟨a, m, hp, hi⟩ => ⟨a, m, hm _ hp, hi⟩

theorem invalidRecord_not_valid {mem : Mem} (h : readSettings mem = invalidRecord.sealed) :
    bootloaderAppIsValid chip mem = false := by
  have hbank : (readSettings mem).bank0 = bankInvalidApp := by rw [h]; rfl
  simp [bootloaderAppIsValid, hbank, bankInvalidApp, bankValidApp]

/-- The container in flash lies apart from the installed image, and no state of the run has
words at `0x3004` and `0x3008` that name another boundary. With a SoftDevice that ends above
these words no update writes there. -/
structure Premise (cfg : Profile) (s0 : Device) (size : Nat) (s : Device) : Prop where
  apart : selectedBackend cfg s0 = .internal ∨ selectedBackend cfg s0 = .hybrid →
    ∀ a m, .parsed a m ∈ s.marks → ∀ x, a ≤ x → x < a + m.total →
      ¬ (dfuBank0RegionStart s0.mem ≤ x ∧ x < dfuBank0RegionStart s0.mem + size)
  base : sdSizeAddr + 4 ≤ dfuBank0RegionStart s0.mem ∨ ∀ k,
    dfuBank0RegionStart (replay (s.ops.take k) s0.mem) = dfuBank0RegionStart s0.mem

theorem Premise.before (h : Premise cfg s0 size (after env o s)) : Premise cfg s0 size s where
  apart hb a m hp := h.apart hb a m (mark_mem hp)
  base := h.base.imp id fun hk k => by
    have := hk (min k s.ops.length)
    rw [after_ops, List.take_append_of_le_length (Nat.min_le_right _ _)] at this
    rcases Nat.le_total k s.ops.length with hl | hl
    · rwa [Nat.min_eq_left hl] at this
    · rwa [Nat.min_eq_right hl, List.take_length, ← List.take_of_length_le hl] at this

theorem marks_after {e : Mark} (h : e ∈ (after env o s).marks) : e ∈ s.marks ∨ o = .mark e := by
  cases o with
  | settingsCommit r => exact .inl (settingsCommit_marks r ▸ h)
  | mark e' =>
    rcases List.mem_append.mp h with h | h
    · exact .inl h
    · exact .inr (by rw [List.mem_singleton.mp h])
  | _ => exact .inl h

/-- Every cut so far is safe, and nothing below the application has changed. -/
structure CutInv (chip : Chip) (s0 : Device) (size : Nat) (s : Device) : Prop where
  mem : s.mem = replay s.ops s0.mem
  low : ∀ x, x < dfuBank0RegionStart s0.mem → s.mem x = s0.mem x
  total : ∀ a m, .parsed a m ∈ s.marks → 0 < m.total
  safe : ∀ k, SafeCut chip s0 size s.marks (replay (s.ops.take k) s0.mem)

/-- Every cut within an operation is a cut of the run. -/
theorem CutInv.step (h : CutInv chip s0 size s) (env : Env)
    (hlow : ∀ x, x < dfuBank0RegionStart s0.mem → (after env o s).mem x = s.mem x)
    (htotal : ∀ a m, o = .mark (.parsed a m) → 0 < m.total)
    (hsafe : ∀ j, SafeCut chip s0 size (after env o s).marks
      (replay ((nvOps env o s).take j) s.mem)) :
    CutInv chip s0 size (after env o s) where
  mem := by rw [after_mem, after_ops, replay_append, ← h.mem]
  low x hx := (hlow x hx).trans (h.low x hx)
  total a m hm := (marks_after hm).elim (h.total a m) (htotal a m)
  safe k := by
    rw [after_ops]
    rcases Nat.le_total k s.ops.length with hk | hk
    · rw [List.take_append_of_le_length hk]
      exact (h.safe k).mono fun e he => mark_mem he
    · rw [List.take_append, List.take_of_length_le hk, replay_append, ← h.mem]
      exact hsafe _

theorem CutInv.current (h : CutInv chip s0 size s) : SafeCut chip s0 size s.marks s.mem := by
  have := h.safe s.ops.length
  rwa [List.take_length, ← h.mem] at this

/-- An operation without flash operations. -/
theorem CutInv.quiet (h : CutInv chip s0 size s) (env : Env) (hn : nvOps env o s = [])
    (htotal : ∀ a m, o = .mark (.parsed a m) → 0 < m.total) :
    CutInv chip s0 size (after env o s) := by
  refine h.step env (fun x _ => ?_) htotal fun j => ?_
  · rw [after_mem, hn]
    rfl
  · rw [hn, List.take_nil]
    exact h.current.mono fun e he => mark_mem he

theorem nvOps_of_not_programs (h : ¬ Programs o) (env : Env) (s : Device) : nvOps env o s = [] := by
  cases o with
  | erase | words | settingsCommit => exact absurd trivial h
  | _ => rfl

/-! ## The operations of an update -/

theorem Located.total_pos {g : Statics} {f : Mem} {base ceiling a : Nat} {m : MotaMin}
    (h : Located env cfg g f base ceiling a m) : 0 < m.total := by
  have hmin : ∀ {addr limit : Nat}, Parsed env cfg f addr limit m → 0 < m.total := fun hp =>
    Nat.lt_of_lt_of_le (by decide : 0 < motaMinLen) hp.total_min
  cases h1 : cfg.sdSelected g with
  | true => exact hmin (h.sd h1).2.2.2
  | false =>
    cases h2 : cfg.hybridSelected g with
    | true => exact hmin (h.hybrid h1 h2).2.2
    | false =>
      cases h3 : cfg.qspiSelected g with
      | true =>
        obtain ⟨-, capacity, hp⟩ := h.qspi h1 h2 h3
        exact hmin hp
      | false => exact hmin (h.internal h1 h2 h3).1.toParsed

/-- A container in flash lies wholly above the installed image. -/
theorem Premise.above {b : Backend} {purpose formatVer : Byte} {a : Nat} {m : MotaMin}
    (h : Premise cfg s0 size s) (hs : CutInv chip s0 size s)
    (h1 : Selected env cfg s0 b purpose formatVer s1) (hb : selectedBackend cfg s0 = b)
    (hc : Chosen env cfg s1 a m) (hp : .parsed a m ∈ s.marks)
    (hf : FlashStaged cfg s1.statics) : dfuBank0RegionStart s0.mem + size ≤ a := by
  have hbase : dfuBank0RegionStart s0.mem ≤ a := h1.mem ▸ (hc.window hf).base_le
  have hback : selectedBackend cfg s0 = .internal ∨ selectedBackend cfg s0 = .hybrid := by
    obtain ⟨hsd, hq⟩ := hf
    rw [h1.sd] at hsd
    rw [h1.qspi (of_decide_eq_false hsd)] at hq
    rw [hb]
    cases b with
    | internal => exact .inl rfl
    | hybrid => exact .inr rfl
    | sd => cases hsd
    | qspi => cases hq
  have htotal := hs.total a m hp
  have hnot := h.apart hback a m hp a (Nat.le_refl a) (by omega)
  omega

/-- Cuts within page operations beside the installed image. -/
theorem CutInv.pages {lo hi : Nat} (h : CutInv chip s0 size s) (env : Env)
    (ho : PageOp lo hi o) (hlo : dfuBank0RegionStart s0.mem ≤ lo)
    (htotal : ∀ a m, o = .mark (.parsed a m) → 0 < m.total)
    (hsafe : ∀ mem, (∀ x, x < lo ∨ hi ≤ x → mem x = s.mem x) →
      SafeCut chip s0 size s.marks mem) : CutInv chip s0 size (after env o s) := by
  have hspares : ∀ x, x < lo ∨ hi ≤ x → Spares (nvOps env o s) x := by
    intro x hx op hop
    have := nvOps_inside ho op hop
    omega
  refine h.step env (fun x hx => ?_) htotal fun j => ?_
  · rw [after_mem]
    exact replay_spares (hspares x (.inl (Nat.lt_of_lt_of_le hx hlo))) s.mem
  · refine (hsafe _ fun x hx => ?_).mono fun e he => mark_mem he
    exact replay_spares ((hspares x hx).take j) s.mem

/-- Cuts within a settings commit. -/
theorem CutInv.commits {r : Settings} (h : CutInv chip s0 size s) (env : Env)
    (hbase : dfuBank0RegionStart s0.mem ≤ bootloaderSettingsAddress)
    (hsafe : ∀ mem, (∀ x, x < bootloaderSettingsAddress → mem x = s.mem x) →
      SafeCut chip s0 size s.marks mem) :
    CutInv chip s0 size (after env (.settingsCommit r) s) := by
  refine h.step env (fun x hx => settingsCommit_mem r (by omega)) nofun fun j => ?_
  rw [settingsCommit_marks, nvOps_settingsCommit]
  exact hsafe _ fun x hx => replay_spares ((otahSettingsCommit_spares r hx).take j) s.mem

/-- The boundary at a state of the run. -/
theorem Premise.base_eq (h : Premise cfg s0 size s) (hs : CutInv chip s0 size s)
    : dfuBank0RegionStart s.mem = dfuBank0RegionStart s0.mem := by
  rcases h.base with hsd | hk
  · exact regionStart_congr fun x _ hx => hs.low x (by omega)
  · have := hk s.ops.length
    rwa [List.take_length, ← hs.mem] at this

theorem CutInv.appOp {b : Backend} {purpose formatVer : Byte} (h : CutInv chip s0 size s)
    (hprem : Premise cfg s0 size s)
    (h1 : Selected env cfg s0 b purpose formatVer s1) (hb : selectedBackend cfg s0 = b)
    (hend : dfuBank0RegionStart s0.mem + size ≤ bootloaderRegionStart)
    (ho : AppOp env cfg s1 o s) : CutInv chip s0 size (after env o s) := by
  have hset : bootloaderSettingsAddress = 0xFF000 := rfl
  have hreg : bootloaderRegionStart = 0xF4000 := rfl
  have hexp : stageCeilingExpanded = 0xED000 := rfl
  have hbase1 : dfuBank0RegionStart s1.mem = dfuBank0RegionStart s0.mem := by rw [h1.mem]
  cases ho with
  | common ho =>
    cases ho with
    | closes hs ho =>
      refine h.quiet env (nvOps_of_not_programs ho.not_programs _ _) ?_
      rintro a m rfl
      exact ho.elim
    | parsed hs a m ceiling hl =>
      refine h.quiet env rfl fun a' m' heq => ?_
      cases heq
      exact hl.total_pos
    | clears hs a m hP hc hp hd hmem ho =>
      have htotal : ∀ a' m', o = .mark (.parsed a' m') → 0 < m'.total := by
        rintro a' m' rfl
        rcases ho with ho | ⟨-, ho⟩ | ⟨-, -, ho⟩
        · exact ho.elim
        · exact ho.elim
        · cases ho
      by_cases hprog : Programs o
      · have hf : FlashStaged cfg s1.statics := (ho.flashStaged hprog).keeps hs.source.symm
        have habove := hprem.above h h1 hb hc hp hf
        have hpage : PageOp a (a + codePageSize) o := by
          rcases ho with ho | ⟨-, ho⟩ | ⟨-, -, rfl⟩
          · exact absurd hprog ho.closes.not_programs
          · exact ho.pageOp
          · exact hprog.elim
        refine h.pages env hpage (by omega) htotal fun mem hm => fun _ => .inl fun x hx1 hx2 => ?_
        rw [hm x (by omega), hmem x (by omega), h1.mem]
      · exact h.quiet env (nvOps_of_not_programs hprog _ _) htotal
  | invalidates a m hc ho =>
    rcases ho with rfl | rfl
    · exact h.quiet env rfl nofun
    · refine h.commits env (by omega) fun mem hm => fun _ => .inl fun x hx1 hx2 => ?_
      rw [hm x (by omega), ← h1.mem]
      by_cases hf : FlashStaged cfg s1.statics
      · have habove := hprem.above h h1 hb hc.chosen hc.parsed hf
        exact hc.mem_out x (by omega)
      · rw [hc.external hf]
  | writes a m hi' lo hi hws hd ho =>
    have hrec := hi'.record
    rcases ho with ho | rfl
    · have hlow := hws.low
      have hhigh := hws.high
      refine h.pages env ho.pageOp (by omega) ?_ fun mem hm => fun hv => ?_
      · rintro a' m' rfl
        exact ho.elim
      · have hsame : readSettings mem = invalidRecord.sealed :=
          (readSettings_congr fun x hx => hm x (by omega)).trans hrec
        rw [invalidRecord_not_valid hsame] at hv
        cases hv
    · exact h.quiet env rfl nofun
  | records a m hi' hash =>
    have hsame := hprem.base_eq h
    have hsize := hi'.size
    refine h.commits env (by omega) fun mem hm => fun _ => .inr ⟨a, m, hi'.parsed, ?_⟩
    have hb' : dfuBank0RegionStart mem = dfuBank0RegionStart s.mem :=
      regionStart_congr fun x _ hx => hm x (by
        have : sdSizeAddr = 0x3008 := rfl
        omega)
    unfold ImageHeld
    rw [hb', slice_congr fun x _ hx => hm x (by omega)]
    exact hash

theorem CutInv.motaOp (h : CutInv chip s0 size s) (hprem : Premise cfg s0 size s)
    (ht : s0.gpregret = otaApply)
    (hend : dfuBank0RegionStart s0.mem + size ≤ bootloaderRegionStart)
    (ho : MotaOp env cfg s0 o s) : CutInv chip s0 size (after env o s) := by
  have hprelude : Preludes o → CutInv chip s0 size (after env o s) := by
    intro ho
    refine h.quiet env (nvOps_of_not_programs ho.not_programs _ _) ?_
    rintro a m rfl
    exact ho.elim
  cases ho with
  | prelude ho => exact hprelude ho
  | app _ ho =>
    cases ho with
    | prelude ho => exact hprelude ho
    | later s1 h1 ho => exact h.appOp hprem h1 (if_pos ht) hend ho
  | boot _ hboot =>
    rw [ht] at hboot
    cases hboot

/-- An application update that reports success has recorded its image. -/
theorem MotaEnd.recorded {r : Bool} (h : MotaEnd env cfg s0 r s) (ht : s0.gpregret = otaApply)
    (hr : r = true) (hb : dfuBank0RegionStart s.mem = dfuBank0RegionStart s0.mem) :
    ∃ a m, .parsed a m ∈ s.marks ∧ ImageHeld s.mem m ∧
      readSettings s.mem = (validRecord s.mem m).sealed := by
  cases h with
  | idle => cases hr
  | app _ h =>
    cases h with
    | refused => cases hr
    | ended s1 h1 h => exact h.recorded hr (by rw [hb, h1.mem])
  | boot _ hboot =>
    rw [ht] at hboot
    cases hboot

/-- At whatever point of an application update power is lost, the boot check accepts the
flash only with the installed image intact or the image of the manifest in place; an
update that reports success has the image in place and a sealed record of its own. -/
theorem mota_powerCut_safe (h : Booted cfg s0) (ht : s0.gpregret = otaApply) (chip : Chip)
    (hend : dfuBank0RegionStart s0.mem + size ≤ bootloaderRegionStart)
    (env : Env) (decoder : Nat → Decoder)
    (hp : Premise cfg s0 size ((otaDeltaCheckAndApply cfg decoder).run (handler env) s0).2) :
    (∀ k, SafeCut chip s0 size ((otaDeltaCheckAndApply cfg decoder).run (handler env) s0).2.marks
      (replay (((otaDeltaCheckAndApply cfg decoder).run (handler env) s0).2.ops.take k) s0.mem)) ∧
    (((otaDeltaCheckAndApply cfg decoder).run (handler env) s0).1 = true → ∃ a m,
      .parsed a m ∈ ((otaDeltaCheckAndApply cfg decoder).run (handler env) s0).2.marks ∧
      ImageHeld ((otaDeltaCheckAndApply cfg decoder).run (handler env) s0).2.mem m ∧
      readSettings ((otaDeltaCheckAndApply cfg decoder).run (handler env) s0).2.mem =
        (validRecord ((otaDeltaCheckAndApply cfg decoder).run (handler env) s0).2.mem m).sealed) := by
  have hspec : Sat (handler env) _ _ _ s0 := otaDeltaCheckAndApply_spec h decoder
  have hinit : CutInv chip s0 size s0 := by
    refine ⟨by rw [h.ops]; rfl, fun _ _ => rfl, fun a m hm => ?_, fun k hk => .inl fun x _ _ => ?_⟩
    · rw [h.marks] at hm
      cases hm
    · rw [h.ops, List.take_nil]
      rfl
  have hinv := hspec.inv (I := fun s => Premise cfg s0 size s → CutInv chip s0 size s)
    (fun _ => hinit) fun o s ho hs hprem =>
      (hs hprem.before).motaOp hprem.before ht hend ho
  have hres := hspec.result
  generalize (otaDeltaCheckAndApply cfg decoder).run (handler env) s0 = out at *
  have hcut := hinv hp
  refine ⟨hcut.safe, fun hr => ?_⟩
  exact hres.recorded ht hr (hp.base_eq hcut)

/-! ## An update that goes through -/

/-- The sample device; its NOR holds a container for a new initial stack pointer. -/
def norDevice : Device := sampleDevice sampleProfile otaApply stageQspi []

/-- Its application is the two vectors and the marker. -/
theorem norDevice_premise : Premise sampleProfile norDevice 16 s where
  apart hb := by
    have : selectedBackend sampleProfile norDevice = .qspi := by decide
    rw [this] at hb
    rcases hb with hb | hb <;> cases hb
  base := .inl (by decide)

/-- The hash of the new application. -/
def newHash : List Byte :=
  [0xEC, 0x22, 0x47, 0x6C, 0xC6, 0xB5, 0xDC, 0x4B, 0x81, 0x88, 0x7E, 0x1F, 0xFF, 0x37, 0x6B, 0xE4,
    0x27, 0xF2, 0x97, 0x19, 0x69, 0x63, 0x06, 0x60, 0xD4, 0xB9, 0xD5, 0xE5, 0x48, 0x16, 0x10, 0x43]

def newNor : Env := norOf (appContainer 16 sampleHeader newHash sampleBaseHash)

def newManifest : MotaMin := appManifest 16 sampleHeader newHash sampleBaseHash

def newWrites : List (Nat × List Byte) := [(0, put32 0x20000800)]

def norRun : Bool × Device :=
  (otaDeltaCheckAndApply sampleProfile fun n => rewriteDecoder n newWrites 16).run (handler newNor)
    norDevice

/-- An update that reports success has changed the application, and is safe at each of its
cuts. -/
theorem mota_powerCut_norRun :
    bootloaderAppIsValid { ficrRam := 256 } norDevice.mem = true ∧ norRun.1 = true ∧
    norRun.2.mem 0xDF001 ≠ norDevice.mem 0xDF001 ∧
    (∀ k, SafeCut { ficrRam := 256 } norDevice 16 norRun.2.marks
      (replay (norRun.2.ops.take k) norDevice.mem)) ∧
    ∃ a m, .parsed a m ∈ norRun.2.marks ∧ ImageHeld norRun.2.mem m ∧
      readSettings norRun.2.mem = (validRecord norRun.2.mem m).sealed := by
  obtain ⟨out, hout⟩ : ∃ out, out = (toDecoder sampleProfile).run (handler newNor) norDevice :=
    ⟨_, rfl⟩
  have hpath : out.1 = some (newManifest, 0xDF000, 0xE0000) ∧
      out.2.ops = otahSettingsCommit invalidRecord ∧ .pageFailed ∉ out.2.marks ∧
      (out.2.statics.cache.length = codePageSize ∧ out.2.statics.cachePage = 0) ∧
      ((dtPr sampleProfile ⟨newManifest.payloadAddr, newManifest.payloadSize, 0xDF000, 0xE0000⟩ 0
        newManifest.payloadSize).run (handler newNor)
        (after newNor (.mark (.decode 0xDF000 0xE0000)) out.2)).1.isSome = true := by
    rw [hout]
    decide +kernel
  obtain ⟨hfound, hops, hmarks, hcache, hpatch⟩ := hpath
  have hlog : out.2.mem = replay out.2.ops norDevice.mem := by
    rw [hout]
    exact run_logged _ rfl
  have hmem : out.2.mem = replay (otahSettingsCommit invalidRecord) sampleFlash := by
    rw [hlog, hops]
    rfl
  have hhash : ImageHeld (rewritten 0xDF000 newWrites out.2.mem) newManifest := by
    rw [hmem]
    unfold ImageHeld
    decide +kernel
  have hrun : (toDecoder sampleProfile).run (handler newNor) norDevice =
      (some (newManifest, 0xDF000, 0xE0000), out.2) := by rw [← hout, ← hfound]
  obtain ⟨hr, hinst⟩ := otaDeltaCheckAndApply_rewrites (fun n => rewriteDecoder n newWrites 16)
    rfl hrun rfl (fun _ => rfl) ⟨by decide, by decide, by decide, by decide⟩ (by decide) (by decide)
    ⟨hcache.1, hcache.2⟩ hmarks (by decide) hpatch hhash
  have hboot : Booted sampleProfile norDevice := sampleDevice_booted rfl _ _ _
  have hend : dfuBank0RegionStart norDevice.mem + 16 ≤ bootloaderRegionStart := by decide
  have hsafe := mota_powerCut_safe hboot rfl { ficrRam := 256 } hend newNor
    (fun n => rewriteDecoder n newWrites 16) norDevice_premise
  have hbyte : rewritten 0xDF000 newWrites out.2.mem 0xDF001 ≠ norDevice.mem 0xDF001 := by
    rw [hmem]
    decide +kernel
  have hfinal : norRun = (otaDeltaCheckAndApply sampleProfile fun n =>
      rewriteDecoder n newWrites 16).run (handler newNor) norDevice := rfl
  rw [← hfinal] at hr hinst hsafe
  have hvalid : bootloaderAppIsValid { ficrRam := 256 } norDevice.mem = true := by decide +kernel
  have hchanged : norRun.2.mem 0xDF001 ≠ norDevice.mem 0xDF001 := by
    rw [hinst.mem, replay_spares (otahSettingsCommit_spares _ (by decide))]
    exact hbyte
  obtain ⟨hcuts, hdone⟩ := hsafe
  exact ⟨hvalid, hr, hchanged, hcuts, hdone hr⟩

/-! ## An image that moves the boundary -/

/-- No SoftDevice: the application lies behind the MBR. Elsewhere are the vectors of another. -/
def bareFlash : Mem := fun x =>
  if 0x1000 ≤ x ∧ x < 0x1010 then
    (put32 0x20001000 ++ put32 0x1009 ++ endf ++ put32 8).getD (x - 0x1000) 0
  else if 0xF3F00 ≤ x ∧ x < 0xF3F08 then (put32 0x20001000 ++ put32 0xF3F09).getD (x - 0xF3F00) 0
  else 0xFF

def bareDevice : Device := { norDevice with mem := bareFlash }

/-- A patch that makes `0xB120` bytes. -/
def movedHeader : List Byte :=
  [0x12, 0x80, 0x80, 0x06, 0x80, 0x40, 0x80, 0x40, 0x80, 0x01, 0xA0, 0xC4, 0x05]

/-- The hash of `[0xF3F00, 0xFF020)` with the invalid record at its end. -/
def movedHash : List Byte :=
  [0x5A, 0xF5, 0x42, 0x62, 0x1C, 0x3D, 0xAF, 0x75, 0xDC, 0x23, 0xEA, 0x28, 0xF8, 0x4D, 0x2B, 0xC7,
    0x29, 0xE1, 0x27, 0x69, 0x2E, 0xDA, 0x43, 0xAE, 0x77, 0x30, 0x6A, 0xE7, 0x54, 0xB9, 0x76, 0x09]

/-- The first bytes of the hash of the application. -/
def bareBaseHash : List Byte := [0x88, 0xC0, 0xC3, 0x5C, 0x9A, 0xF8, 0xEA, 0x40]

def movedManifest : MotaMin := appManifest 0xB120 movedHeader movedHash bareBaseHash

def movedNor : Env := norOf (appContainer 0xB120 movedHeader movedHash bareBaseHash)

/-- The vectors of the application are cleared, and a SoftDevice header comes to `0x3004`. -/
def movedWrites : List (Nat × List Byte) :=
  [(0, List.replicate 8 0), (0x2004, put32 sdMagicNumber ++ put32 0xF3F00)]

def movedRun : Bool × Device :=
  (otaDeltaCheckAndApply sampleProfile fun n => rewriteDecoder n movedWrites 0xB120).run
    (handler movedNor) bareDevice

/-- The flash in which the image is checked. -/
def movedFlash : Mem :=
  rewritten 0x1000 movedWrites (replay (otahSettingsCommit invalidRecord) bareFlash)

theorem movedFlash_fill {x : Nat} (hlo : 0xF3F08 ≤ x) (hhi : x < 0xFF000) :
    movedFlash x = 0xFF := by
  have hbare : bareFlash x = 0xFF := by
    unfold bareFlash
    rw [if_neg (by omega), if_neg (by omega)]
  have hbelow : x < bootloaderSettingsAddress := hhi
  have hlen : (put32 sdMagicNumber ++ put32 0xF3F00).length = 8 := rfl
  simp only [movedFlash, movedWrites, rewritten, List.foldl_cons, List.foldl_nil, overlay]
  rw [if_neg (by omega), if_neg (by rw [List.length_replicate]; omega),
    replay_spares (otahSettingsCommit_spares _ hbelow), hbare]

/-- The state of the hash behind the blocks below the settings page. -/
def movedState : Sha256.Hash where
  a := 0x12D21F2C
  b := 0x0E128317
  c := 0x85D46076
  d := 0x6043C789
  e := 0xAE395CCA
  f := 0x8CD7215C
  g := 0x2BB8A539
  h := 0xA8B187EF

def movedVectors : List Byte := put32 0x20001000 ++ put32 0xF3F09

theorem moved_compress : Sha256.compress Sha256.init.state
    (movedVectors ++ List.replicate 0xB0F8 0xFF) = movedState := by
  have hfill : List.replicate 0xB0F8 0xFF =
      List.replicate 56 0xFF ++ List.replicate (707 * 64) (0xFF : Byte) := by
    rw [List.replicate_append_replicate]
  rw [hfill, ← List.append_assoc, Sha256.compress_append (k := 1) _ (by decide),
    Sha256.compress_fill]
  decide +kernel

theorem moved_sha256 {mem : Mem} {record : List Byte} (hv : slice mem 0xF3F00 8 = movedVectors)
    (hfill : ∀ x, 0xF3F08 ≤ x → x < 0xFF000 → mem x = 0xFF) (hr : slice mem 0xFF000 32 = record) :
    sha256 (slice mem 0xF3F00 0xB120) =
      Sha256.digest (Sha256.transform movedState (Sha256.lastBlock record 0xB120)) := by
  have hlen : record.length = 32 := by rw [← hr, slice_length]
  have hfirst : (movedVectors ++ List.replicate 0xB0F8 0xFF).length = 64 * 708 := by
    rw [List.length_append, List.length_replicate]
    decide
  have hslice : slice mem 0xF3F00 0xB120 = movedVectors ++ List.replicate 0xB0F8 0xFF ++ record := by
    rw [show 0xB120 = 8 + 0xB0F8 + 32 from rfl, slice_add, slice_add, hv, hr, slice_const hfill]
  rw [hslice, Sha256.sha256_tail hfirst (by omega), moved_compress, hfirst, hlen]

theorem movedFlash_held : ImageHeld movedFlash movedManifest := by
  have hbase : dfuBank0RegionStart movedFlash = 0xF3F00 := by decide +kernel
  unfold ImageHeld
  rw [hbase]
  change sha256 (slice movedFlash 0xF3F00 0xB120) = movedHash
  rw [moved_sha256 (by decide +kernel) (fun _ => movedFlash_fill) rfl]
  decide +kernel

/-- The flash behind the erase of the settings page: the boot check goes by the moved vectors,
and the hash is another. -/
def movedCut : Mem := (FlashOp.erase bootloaderSettingsAddress codePageSize).apply movedFlash

theorem movedCut_not_held : ¬ ImageHeld movedCut movedManifest := by
  have hbase : dfuBank0RegionStart movedCut = 0xF3F00 := by decide +kernel
  have hfill : ∀ x, 0xF3F08 ≤ x → x < 0xFF000 → movedCut x = 0xFF := by
    intro x hlo hhi
    have hset : bootloaderSettingsAddress = 0xFF000 := rfl
    unfold movedCut
    rw [FlashOp.apply_outside (by simp only [FlashOp.start, FlashOp.stop]; omega)]
    exact movedFlash_fill hlo hhi
  unfold ImageHeld
  rw [hbase]
  change sha256 (slice movedCut 0xF3F00 0xB120) ≠ movedHash
  have hrecord : slice movedCut 0xFF000 32 = List.replicate 32 0xFF := by decide +kernel
  rw [moved_sha256 (by decide +kernel) hfill hrecord]
  decide +kernel

/-- The update reports success, and power lost behind the erase of its last settings commit
leaves flash that boots at the moved vectors, although the installed image is gone and no image
of a manifest is in place. -/
theorem mota_powerCut_headerRun :
    Booted sampleProfile bareDevice ∧ bareDevice.gpregret = otaApply ∧
    selectedBackend sampleProfile bareDevice = .qspi ∧
    bootloaderAppIsValid { ficrRam := 256 } bareDevice.mem = true ∧ movedRun.1 = true ∧
    ∃ k, ¬ SafeCut { ficrRam := 256 } bareDevice 16 movedRun.2.marks
      (replay (movedRun.2.ops.take k) bareDevice.mem) := by
  obtain ⟨out, hout⟩ : ∃ out, out = (toDecoder sampleProfile).run (handler movedNor) bareDevice :=
    ⟨_, rfl⟩
  have hpath : out.1 = some (movedManifest, 0x1000, 0xE0000) ∧
      out.2.ops = otahSettingsCommit invalidRecord ∧
      out.2.marks = [.parsed 1 movedManifest, .commit] ∧
      (out.2.statics.cache.length = codePageSize ∧ out.2.statics.cachePage = 0) ∧
      ((dtPr sampleProfile ⟨movedManifest.payloadAddr, movedManifest.payloadSize, 0x1000, 0xE0000⟩ 0
        movedManifest.payloadSize).run (handler movedNor)
        (after movedNor (.mark (.decode 0x1000 0xE0000)) out.2)).1.isSome = true := by
    rw [hout]
    decide +kernel
  obtain ⟨hfound, hops, hmarks, hcache, hpatch⟩ := hpath
  have hlog : out.2.mem = replay out.2.ops bareDevice.mem := by
    rw [hout]
    exact run_logged _ rfl
  have hflash : rewritten 0x1000 movedWrites out.2.mem = movedFlash := by
    rw [hlog, hops]
    rfl
  have hrun : (toDecoder sampleProfile).run (handler movedNor) bareDevice =
      (some (movedManifest, 0x1000, 0xE0000), out.2) := by rw [← hout, ← hfound]
  obtain ⟨hr, hinst⟩ := otaDeltaCheckAndApply_rewrites
    (fun n => rewriteDecoder n movedWrites 0xB120) rfl hrun rfl (fun _ => rfl)
    ⟨by decide, by decide, by decide, by decide⟩ (by decide) (by decide) ⟨hcache.1, hcache.2⟩
    (by rw [hmarks]; decide +kernel) (by decide) hpatch (hflash ▸ movedFlash_held)
  have hfinal : movedRun = (otaDeltaCheckAndApply sampleProfile fun n =>
      rewriteDecoder n movedWrites 0xB120).run (handler movedNor) bareDevice := rfl
  rw [← hfinal] at hr hinst
  obtain ⟨k, hk⟩ := hinst.cut hlog
  rw [hflash] at hk
  have hbooted : Booted sampleProfile bareDevice :=
    ⟨rfl, ⟨by decide, by decide, by decide⟩, rfl, rfl, rfl, rfl, rfl⟩
  have hvalid : bootloaderAppIsValid { ficrRam := 256 } bareDevice.mem = true := by decide +kernel
  refine ⟨hbooted, rfl, by decide, hvalid, hr, k, fun hsafe => ?_⟩
  rw [hk] at hsafe
  rcases hsafe (show bootloaderAppIsValid { ficrRam := 256 } movedCut = true by decide +kernel) with
    hintact | ⟨a, m, hparsed, hheld⟩
  · have hbyte : movedCut 0x1001 ≠ bareDevice.mem 0x1001 := by decide +kernel
    exact hbyte (hintact 0x1001 (by decide) (by decide))
  · rw [hinst.marks, hmarks] at hparsed
    have hm : m = movedManifest := by
      simp only [List.cons_append, List.nil_append, List.mem_cons, List.not_mem_nil, or_false]
        at hparsed
      rcases hparsed with h | h | h <;> cases h
      rfl
    exact movedCut_not_held (hm ▸ hheld)

end OtaFix.Mota
