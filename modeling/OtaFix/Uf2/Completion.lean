import OtaFix.Uf2.BootEffect
import OtaFix.Uf2.Msc

/-!
# When an application update completes

The mass-storage session (`Msc`) under its clock: `Timed` adds the time of the last
activity, which the idle timer compares with the counter. Its last fields record what
happened; nothing reads them. Whatever the order of the callbacks, an update completes
at most once for each time one becomes pending, only when it is validated and not
aborted, and not before the bus has been idle or its eject has ended.
-/

namespace OtaFix.Uf2

open Lib

/-! ## The clocked session -/

/-- What calls `complete_app_update`. -/
inductive Trigger where
  | idle
  | eject
  | close
  deriving DecidableEq, Repr

/-- The call of `complete_app_update` an event makes, if it makes one. -/
def completionTrigger (cfg : MscConfig) (s : Msc) : MscEvent → Option Trigger
  | .timer idleTicks =>
    if s.appCompletionPending && !s.appMscCommandActive &&
        !decide (idleTicks + cfg.timerMinTimeoutTicks < cfg.completionIdleTicks) &&
        (takePendingAppCompletion s).1 then some .idle
    else none
  | .scsiComplete cmd =>
    if cmd ≠ 0x35 ∧ s.appCompletionAfterEject ∧ cmd = scsiCmdStartStopUnit ∧
        (takePendingAppCompletion s).1 then some .eject
    else none
  | .umount => if (takePendingAppCompletion s).1 then some .close else none
  | _ => none

/-- The event runs `uf2_write_session_reset`. -/
def resetsSession (cfg : MscConfig) (s : Msc) : MscEvent → Bool
  | .mount | .umount => true
  | .startStop start loadEject =>
    loadEject && !start && !s.appCompletionPending && !cfg.exitOnEject
  | .scsiComplete cmd => cfg.exitOnEject && s.exitAfterEject && cmd = scsiCmdStartStopUnit
  | _ => false

/-- The command in progress ends: with its status, a reset of the transport or one of the
session. -/
def endsCommand (cfg : MscConfig) (s : Msc) : MscEvent → Bool
  | .commandComplete | .busReset => true
  | e => resetsSession cfg s e

/-- The event takes the time in `_app_completion_last_activity`. -/
def marksActivity (s : Msc) : MscEvent → Bool
  | .write10Complete =>
    !s.ws.aborted && s.ws.numBlocks ≠ 0 && s.ws.numBlocks ≤ s.ws.numWritten &&
      s.ws.updateKind ≠ .bootloader
  | .commandBegin | .commandComplete | .busReset => s.appCompletionPending
  | .timer _ => s.appCompletionPending && s.appMscCommandActive
  | _ => false

/-- `app_timer_cnt_diff_compute`, for a counter of `wrap` values. -/
def cntDiffCompute (wrap ticksTo ticksFrom : Nat) : Nat := (ticksTo + wrap - ticksFrom) % wrap

structure Timed where
  msc : Msc := {}
  nvm : Nvm
  /-- The ticks since the start. -/
  clock : Nat := 0
  /-- `_app_completion_last_activity`, a value of the counter. -/
  lastActivity : Nat := 0
  /-- The time of the last activity. -/
  activityAt : Nat := 0
  /-- A command has begun and not ended. -/
  commandOpen : Bool := false
  /-- The number of command ends, and the time of the last one. -/
  ends : Nat := 0
  lastEnd : Nat := 0
  /-- The command that last asked for an eject. -/
  grant : Option Nat := none
  /-- How often an update became pending, and how often one was completed. -/
  rises : Nat := 0
  completions : Nat := 0

/-- A callback, and the ticks since the one before it. -/
structure Callback where
  elapsed : Nat
  event : MscEvent

/-- The event, with the idle ticks that the timer's handler computes. -/
def Timed.event (wrap : Nat) (t : Timed) (cb : Callback) : MscEvent :=
  match cb.event with
  | .timer _ => .timer (cntDiffCompute wrap ((t.clock + cb.elapsed) % wrap) t.lastActivity)
  | e => e

def Timed.trigger (cfg : MscConfig) (wrap : Nat) (t : Timed) (cb : Callback) : Option Trigger :=
  completionTrigger cfg t.msc (t.event wrap cb)

def timedStep (cfg : MscConfig) (wrap : Nat) (t : Timed) (cb : Callback) : Timed :=
  if t.msc.fault then t
  else
    let now := t.clock + cb.elapsed
    let e := t.event wrap cb
    let r := mscHandle cfg e t.msc t.nvm
    let marks := marksActivity t.msc e
    let ended := endsCommand cfg t.msc e
    { msc := r.1
      nvm := r.2
      clock := now
      lastActivity := if marks then now % wrap else t.lastActivity
      activityAt := if marks then now else t.activityAt
      commandOpen := match e with
        | .commandBegin => true
        | _ => t.commandOpen && !ended
      ends := if ended then t.ends + 1 else t.ends
      lastEnd := if ended then now else t.lastEnd
      grant := match e with
        | .startStop start loadEject => if loadEject && !start then some t.ends else t.grant
        | _ => t.grant
      rises := if !t.msc.appCompletionPending && r.1.appCompletionPending then t.rises + 1
        else t.rises
      completions := if (completionTrigger cfg t.msc e).isSome then t.completions + 1
        else t.completions }

def timedRun (cfg : MscConfig) (wrap : Nat) (t : Timed) (cbs : List Callback) : Timed :=
  cbs.foldl (timedStep cfg wrap) t

/-! ## The session -/

variable {cfg : MscConfig} {ucfg : Config} {b : Block} {ws ws' : WriteState} {c : FlashCache}
  {m : Mem} {s : Msc} {n : Nvm}

/-- A complete application session has its verdict. -/
structure Judged (ws : WriteState) : Prop where
  unstarted : ws.numBlocks = 0 → ws.numWritten = 0
  verdict : ws.numBlocks ≠ 0 → ws.numBlocks ≤ ws.numWritten → ws.updateKind ≠ .bootloader →
    ws.appValidated = true ∨ ws.aborted = true

/-- A step of the session that commits no block. -/
structure Holds (ws ws' : WriteState) : Prop where
  numBlocks : ws'.numBlocks = ws.numBlocks
  numWritten : ws'.numWritten = ws.numWritten
  updateKind : ws'.updateKind = ws.updateKind
  validated : ws'.appValidated = ws.appValidated
  aborted : ws.aborted = true → ws'.aborted = true

theorem Holds.refl (ws : WriteState) : Holds ws ws := ⟨rfl, rfl, rfl, rfl, id⟩

theorem Holds.abort (ws : WriteState) : Holds ws { ws with aborted := true } :=
  ⟨rfl, rfl, rfl, rfl, fun _ => rfl⟩

theorem Holds.trans {ws'' : WriteState} (h : Holds ws ws') (h' : Holds ws' ws'') : Holds ws ws'' :=
  ⟨h'.numBlocks.trans h.numBlocks, h'.numWritten.trans h.numWritten, h'.updateKind.trans h.updateKind,
    h'.validated.trans h.validated, fun ha => h'.aborted (h.aborted ha)⟩

theorem Judged.holds (h : Judged ws) (hk : Holds ws ws') : Judged ws' where
  unstarted h0 := by
    rw [hk.numWritten]
    exact h.unstarted (hk.numBlocks ▸ h0)
  verdict hn hw hkind := by
    rw [hk.numBlocks] at hn hw
    rw [hk.numWritten] at hw
    rw [hk.updateKind] at hkind
    rw [hk.validated]
    exact (h.verdict hn hw hkind).imp_right hk.aborted

theorem programAppBlock_holds {st : Staged} (h : programAppBlock b ws c = some st) :
    Holds ws st.ws := by
  unfold programAppBlock appFlashNextAction at h
  simp only [Option.bind_eq_bind, Option.bind_eq_some_iff] at h
  obtain ⟨⟨action, ws1⟩, hact, h⟩ := h
  have hws : Holds ws ws1 := by
    split_ifs at hact
    · obtain ⟨-, rfl⟩ := Prod.mk.inj (Option.some.inj hact)
      exact ⟨rfl, rfl, rfl, rfl, id⟩
    · obtain ⟨bit, -, hact⟩ := Option.bind_eq_some_iff.mp hact
      split_ifs at hact
      · obtain ⟨mask, -, hact⟩ := Option.bind_eq_some_iff.mp hact
        obtain ⟨-, rfl⟩ := Prod.mk.inj (Option.some.inj hact)
        exact ⟨rfl, rfl, rfl, rfl, id⟩
      · obtain ⟨-, rfl⟩ := Prod.mk.inj (Option.some.inj hact)
        exact .refl _
  cases action <;> obtain rfl := Option.some.inj h <;> exact hws

theorem classifiedBlock_holds {st : Staged} (h : classifiedBlock b ws c m = some st) :
    Holds ws st.ws := by
  unfold classifiedBlock at h
  split at h
  · exact programAppBlock_holds h
  · split_ifs at h <;> obtain rfl := Option.some.inj h
    · exact .abort _
    · exact .refl _
  · obtain rfl := Option.some.inj h
    exact .refl _
  · obtain rfl := Option.some.inj h
    exact .abort _

theorem targetPrepare_holds {a limit : Nat} {r : TransferResult × WriteState}
    (h : targetPrepare ws a limit = some r) : Holds ws r.2 := by
  unfold targetPrepare at h
  split_ifs at h
  · obtain rfl := Option.some.inj h
    exact .abort _
  · simp only at h
    split_ifs at h
    · obtain rfl := Option.some.inj h
      exact .abort _
    · obtain ⟨bit, -, rfl⟩ := Option.map_eq_some_iff.mp h
      split_ifs
      · exact .abort _
      · exact .refl _

theorem applicationBlock_holds {st : Staged} (h : applicationBlock b ws c m = some st) :
    Holds ws st.ws := by
  have hafter : ∀ r : TransferResult × WriteState,
      (if r.1 = .aborted then some ⟨some .notUf2, r.2, c, []⟩
        else classifiedBlock b r.2 c m) = some st → Holds r.2 st.ws := by
    intro r h
    split_ifs at h
    · obtain rfl := Option.some.inj h
      exact .refl _
    · exact classifiedBlock_holds h
  unfold applicationBlock at h
  split at h <;> obtain ⟨r, hr, h⟩ := Option.bind_eq_some_iff.mp h
  · exact (targetPrepare_holds hr).trans (hafter r h)
  · obtain rfl := Option.some.inj hr
    exact hafter (.accept, ws) h

theorem bootloaderBlock_holds (cfg : Config) (b : Block) (ws : WriteState) (c : FlashCache) (m : Mem) :
    Holds ws (bootloaderBlock cfg b ws c m).ws := by
  unfold bootloaderBlock eraseBootloaderStaging
  split_ifs
  all_goals first | exact .refl _ | exact .abort _ | exact ⟨rfl, rfl, rfl, rfl, id⟩

/-- What a sector does to a session's verdict. -/
structure Judges (ws ws' : WriteState) : Prop where
  judged : Judged ws → Judged ws'
  validated : ws.appValidated = true → ws'.appValidated = true

theorem Holds.judges (h : Holds ws ws') : Judges ws ws' :=
  ⟨fun hj => hj.holds h, fun hv => h.validated ▸ hv⟩

theorem Judges.trans {ws'' : WriteState} (h : Judges ws ws') (h' : Judges ws' ws'') : Judges ws ws'' :=
  ⟨fun hj => h'.judged (h.judged hj), fun hv => h'.validated (h.validated hv)⟩

/-- The geometry that is latched is that of the session, or its first. -/
theorem transferPrepare_judges {numBlocks blockNo : Nat} {kind : UpdateKind}
    {r : TransferResult × WriteState} (h : transferPrepare ws numBlocks blockNo kind = some r) :
    Judges ws r.2 ∧ (r.1 ≠ .aborted → r.2.numBlocks ≠ 0) := by
  unfold transferPrepare at h
  split_ifs at h with hab hgeo hnum
  · obtain rfl := Option.some.inj h
    exact ⟨(Holds.refl _).judges, fun h => absurd rfl h⟩
  · obtain rfl := Option.some.inj h
    exact ⟨(Holds.abort _).judges, fun h => absurd rfl h⟩
  · obtain rfl := Option.some.inj h
    exact ⟨(Holds.abort _).judges, fun h => absurd rfl h⟩
  simp only at h
  split_ifs at h with hkind
  · obtain rfl := Option.some.inj h
    refine ⟨⟨fun hj => ⟨fun h0 => ?_, fun _ _ _ => .inr rfl⟩, id⟩, fun h => absurd rfl h⟩
    exact absurd h0 (by simp only; omega)
  · obtain ⟨bit, -, rfl⟩ := Option.map_eq_some_iff.mp h
    refine ⟨⟨fun hj => ⟨fun h0 => absurd h0 (by simp only; omega), fun _ hw hk => ?_⟩, id⟩, fun _ => ?_⟩
    · simp only at hw hk ⊢
      have hsame : ws.numBlocks = numBlocks := by
        by_contra hne
        have := hj.unstarted (by omega)
        omega
      refine hj.verdict (by omega) (by omega) fun hboot => ?_
      rw [hboot] at hkind
      simp only [ne_eq, reduceCtorEq, not_false_eq_true, true_and, not_not] at hkind
      exact hk hkind.symm
    · simp only
      omega

theorem transferCommit_keeps {blockNo : Nat} (h : transferCommit ws blockNo = some ws') :
    ws'.numBlocks = ws.numBlocks ∧ ws'.appValidated = ws.appValidated := by
  unfold transferCommit at h
  obtain ⟨bit, -, h⟩ := Option.bind_eq_some_iff.mp h
  split_ifs at h
  · obtain rfl := Option.some.inj h
    exact ⟨rfl, rfl⟩
  · obtain ⟨mask, -, h⟩ := Option.bind_eq_some_iff.mp h
    obtain rfl := Option.some.inj h
    exact ⟨rfl, rfl⟩

theorem finalizeApplication_judges (ucfg : Config) (ws : WriteState) (appStart : Nat) (m : Mem) :
    (finalizeApplication ucfg ws appStart m).numBlocks = ws.numBlocks ∧
      ((finalizeApplication ucfg ws appStart m).appValidated = true ∨
        (finalizeApplication ucfg ws appStart m).aborted = true) ∧
      (ws.appValidated = true → (finalizeApplication ucfg ws appStart m).appValidated = true) := by
  unfold finalizeApplication
  simp only
  by_cases hinv : (!ws.appSettingsInvalidated) = true
  · rw [if_pos hinv]
    exact ⟨rfl, .inr rfl, id⟩
  · rw [if_neg hinv]
    generalize applicationFinalize _ _ _ _ _ _ = r
    cases r with
    | none => exact ⟨rfl, .inr rfl, id⟩
    | some size => exact ⟨rfl, .inl rfl, fun _ => rfl⟩

/-- The last block brings the verdict. -/
theorem commitBlock_judges {kind : UpdateKind} {appStart : Nat} {st : Staged} {out : Outcome}
    (hb : st.ws.numBlocks ≠ 0) (h : commitBlock ucfg b kind appStart st m = some out) :
    Judges st.ws out.ws := by
  -- the block is counted, in a session of the same geometry
  have hcounted : ∀ ws1 : WriteState, ws1.numBlocks = st.ws.numBlocks →
      ws1.appValidated = st.ws.appValidated →
      (transferCommit ws1 b.blockNo >>= fun ws =>
        if ws.numBlocks ≤ ws.numWritten then
          if ws.updateKind = .bootloader then
            let f := finalizeBootloader ucfg ws st.cache m
            some ⟨.done, f.1, f.2.1, st.ops ++ f.2.2, true⟩
          else
            some ⟨.done, finalizeApplication ucfg ws appStart m, flashNrf5xDiscard st.cache, st.ops, true⟩
        else some ⟨.done, ws, st.cache, st.ops, true⟩) = some out → Judges st.ws out.ws := by
    intro ws1 hn hv h
    obtain ⟨ws2, hcommit, h⟩ := Option.bind_eq_some_iff.mp h
    obtain ⟨hn2, hv2⟩ := transferCommit_keeps hcommit
    rw [hn] at hn2
    rw [hv] at hv2
    split_ifs at h with hfull hboot
    · obtain rfl := Option.some.inj h
      simp only
      rcases finalizeBootloader_cases ucfg ws2 st.cache m with heq | ⟨heq, -⟩
      · rw [heq]
        exact ⟨fun _ => ⟨fun h0 => absurd (hn2.symm.trans h0) hb, fun _ _ _ => .inr rfl⟩,
          fun h => hv2.trans h⟩
      · rw [heq]
        exact ⟨fun _ => ⟨fun h0 => absurd (hn2.symm.trans h0) hb, fun _ _ hk => absurd hboot hk⟩,
          fun h => hv2.trans h⟩
    · obtain rfl := Option.some.inj h
      obtain ⟨hnum, hverdict, hval⟩ := finalizeApplication_judges ucfg ws2 appStart m
      exact ⟨fun _ => ⟨fun h0 => absurd (hn2.symm.trans (hnum.symm.trans h0)) hb, fun _ _ _ => hverdict⟩,
        fun h => hval (hv2.trans h)⟩
    · obtain rfl := Option.some.inj h
      exact ⟨fun _ => ⟨fun h0 => absurd (hn2.symm.trans h0) hb, fun _ hw => absurd hw hfull⟩,
        fun h => hv2.trans h⟩
  unfold commitBlock at h
  split_ifs at h
  · obtain ⟨ws1, hws1, h⟩ := Option.bind_eq_some_iff.mp h
    have hkeeps : ws1.numBlocks = st.ws.numBlocks ∧ ws1.appValidated = st.ws.appValidated := by
      obtain ⟨ws0, htarget, rfl⟩ := Option.map_eq_some_iff.mp hws1
      obtain ⟨mask, -, rfl⟩ := Option.map_eq_some_iff.mp htarget
      exact ⟨rfl, rfl⟩
    exact hcounted ws1 hkeeps.1 hkeeps.2 h
  · obtain ⟨ws1, hws1, h⟩ := Option.bind_eq_some_iff.mp h
    obtain rfl := Option.some.inj hws1
    exact hcounted st.ws rfl rfl h

theorem transferBlock_judges {kind : UpdateKind} {out : Outcome}
    (h : transferBlock ucfg b kind ws c m = some out) : Judges ws out.ws := by
  unfold transferBlock at h
  obtain ⟨⟨r, ws1⟩, hprep, h⟩ := Option.bind_eq_some_iff.mp h
  obtain ⟨hjudges, hpos⟩ := transferPrepare_judges hprep
  refine hjudges.trans ?_
  cases r with
  | aborted =>
    obtain rfl := Option.some.inj h
    exact (Holds.refl _).judges
  | duplicate =>
    obtain rfl := Option.some.inj h
    unfold duplicateBlock
    simp only
    split_ifs
    · exact (Holds.abort _).judges
    · exact (Holds.refl _).judges
  | accept =>
    have hfinish : ∀ st : Staged, Holds ws1 st.ws →
        commitBlock ucfg b kind (dfuBank0RegionStart m) st (replay st.ops m) = some out →
        Judges ws1 out.ws := fun st hst h =>
      hst.judges.trans (commitBlock_judges (by rw [hst.numBlocks]; exact hpos fun h => by cases h) h)
    simp only at h
    split_ifs at h
    · obtain ⟨st, hst, h⟩ := Option.bind_eq_some_iff.mp h
      have hholds := applicationBlock_holds hst
      split at h
      · obtain rfl := Option.some.inj h
        exact hholds.judges
      · exact hfinish st hholds h
    · obtain ⟨st, hst, h⟩ := Option.bind_eq_some_iff.mp h
      obtain rfl := Option.some.inj hst
      have hholds := bootloaderBlock_holds ucfg b ws1 c m
      split at h
      · obtain rfl := Option.some.inj h
        exact hholds.judges
      · exact hfinish _ hholds h

theorem writeBlock_judges {lba : Nat} {sec : Sector} {out : Outcome}
    (h : writeBlock ucfg lba sec ws c m = some out) : Judges ws out.ws := by
  unfold writeBlock at h
  split_ifs at h
  · obtain rfl := Option.some.inj h
    exact (Holds.refl _).judges
  · obtain rfl := Option.some.inj h
    exact (Holds.refl _).judges
  · obtain rfl := Option.some.inj h
    exact (Holds.refl _).judges
  · split at h
    · obtain rfl := Option.some.inj h
      exact (Holds.refl _).judges
    · exact transferBlock_judges h

/-- A step that leaves the flags of the completion alone. -/
structure KeepsFlags (s s' : Msc) : Prop where
  pending : s'.appCompletionPending = s.appCompletionPending
  afterEject : s'.appCompletionAfterEject = s.appCompletionAfterEject
  active : s'.appMscCommandActive = s.appMscCommandActive
  exitAfterEject : s'.exitAfterEject = s.exitAfterEject

theorem tudMscWrite10_keeps (cfg : MscConfig) (lba : Nat) (sectors : List Sector) (s : Msc) (n : Nvm) :
    Judges s.ws (tudMscWrite10 cfg lba sectors s n).1.ws ∧
      KeepsFlags s (tudMscWrite10 cfg lba sectors s n).1 := by
  induction sectors generalizing lba s n with
  | nil => exact ⟨(Holds.refl _).judges, rfl, rfl, rfl, rfl⟩
  | cons sector sectors ih =>
    unfold tudMscWrite10
    cases hout : writeBlock cfg.uf2 lba sector s.ws n.cache n.mem with
    | none => exact ⟨(Holds.refl _).judges, rfl, rfl, rfl, rfl⟩
    | some out =>
      have hjudges := writeBlock_judges hout
      simp only
      generalize (if out.committed = true then s.accepted ++ [sector.block] else s.accepted) = accepted
      by_cases hstop : (out.ws.aborted || decide (out.result = .busy)) = true
      · rw [if_pos hstop]
        exact ⟨hjudges, rfl, rfl, rfl, rfl⟩
      · rw [if_neg hstop]
        obtain ⟨hrest, hflags⟩ := ih (lba + 1) { s with ws := out.ws, accepted := accepted }
          (out.store s.ws n)
        exact ⟨hjudges.trans hrest, hflags.pending, hflags.afterEject, hflags.active,
          hflags.exitAfterEject⟩

/-- A completion takes the pending update, and with it the eject. -/
theorem completePending_keeps (s : Msc) (n : Nvm) :
    Holds s.ws (completePending s n).1.ws ∧ (completePending s n).1.appCompletionPending = false ∧
      (completePending s n).1.appCompletionAfterEject = false ∧
      (completePending s n).1.appMscCommandActive = s.appMscCommandActive ∧
      (completePending s n).1.exitAfterEject = s.exitAfterEject := by
  unfold completePending completeAppUpdate takePendingAppCompletion
  simp only
  split_ifs
  · exact ⟨.abort _, rfl, rfl, rfl, rfl⟩
  · exact ⟨.refl _, rfl, rfl, rfl, rfl⟩
  · exact ⟨.refl _, rfl, rfl, rfl, rfl⟩

theorem judged_fresh : Judged {} := ⟨fun _ => rfl, fun h => absurd rfl h⟩

/-! ## The protocol -/

/-- What holds between callbacks. -/
structure Protocol (wrap : Nat) (t : Timed) : Prop where
  judged : Judged t.msc.ws
  validated : t.msc.appCompletionPending = true → t.msc.ws.appValidated = true
  open_eq : t.commandOpen = t.msc.appMscCommandActive
  activity : t.lastActivity = t.activityAt % wrap
  activity_le : t.activityAt ≤ t.clock
  ended_le : t.lastEnd ≤ t.clock
  ended : t.msc.appCompletionPending = true → t.lastEnd ≤ t.activityAt
  granted : t.msc.appCompletionAfterEject = true ∨ t.msc.exitAfterEject = true →
    t.grant = some t.ends

variable {wrap : Nat} {t : Timed}

theorem protocol_init (wrap : Nat) (n : Nvm) : Protocol wrap { nvm := n } where
  judged := judged_fresh
  validated := nofun
  open_eq := rfl
  activity := (Nat.zero_mod wrap).symm
  activity_le := Nat.le_refl 0
  ended_le := Nat.le_refl 0
  ended := fun _ => Nat.le_refl 0
  granted := fun h => by rcases h with h | h <;> cases h

/-- What a handler has to show. An update that is pending has just been marked, or was
pending before and no command has ended since. -/
structure Handled (cfg : MscConfig) (t : Timed) (e : MscEvent) (s' : Msc) : Prop where
  judged : Judged s'.ws
  validated : s'.appCompletionPending = true → s'.ws.appValidated = true
  active : s'.appMscCommandActive = match e with
    | .commandBegin => true
    | _ => t.msc.appMscCommandActive && !endsCommand cfg t.msc e
  pending : s'.appCompletionPending = true → marksActivity t.msc e = true ∨
    (endsCommand cfg t.msc e = false ∧ t.msc.appCompletionPending = true)
  granted : s'.appCompletionAfterEject = true ∨ s'.exitAfterEject = true →
    endsCommand cfg t.msc e = false ∧ ((∃ start loadEject, e = .startStop start loadEject ∧
      (loadEject && !start) = true) ∨
      (t.msc.appCompletionAfterEject = true ∨ t.msc.exitAfterEject = true))

theorem Protocol.step_of {cb : Callback} (h : Protocol wrap t) (hf : t.msc.fault = false)
    (hh : Handled cfg t (t.event wrap cb) (mscHandle cfg (t.event wrap cb) t.msc t.nvm).1) :
    Protocol wrap (timedStep cfg wrap t cb) := by
  unfold timedStep
  rw [if_neg (by rw [hf]; exact Bool.false_ne_true)]
  simp only
  generalize t.event wrap cb = e at hh ⊢
  generalize mscHandle cfg e t.msc t.nvm = r at hh ⊢
  have hact := h.activity_le
  have hend := h.ended_le
  constructor
  case judged => exact hh.judged
  case validated => exact hh.validated
  case open_eq =>
    simp only
    rw [hh.active, h.open_eq]
  case activity =>
    simp only
    split_ifs
    · rfl
    · exact h.activity
  case activity_le =>
    simp only
    split_ifs <;> omega
  case ended_le =>
    simp only
    split_ifs <;> omega
  case ended =>
    intro hp
    simp only at hp ⊢
    rcases hh.pending hp with hm | ⟨he, hp'⟩
    · rw [if_pos hm]
      split_ifs <;> omega
    · have := h.ended hp'
      rw [he, if_neg Bool.false_ne_true]
      split_ifs <;> omega
  case granted =>
    intro hg
    simp only at hg ⊢
    obtain ⟨he, hgrant⟩ := hh.granted hg
    rw [he, if_neg Bool.false_ne_true]
    rcases hgrant with ⟨start, loadEject, rfl, hej⟩ | hold
    · simp only
      rw [if_pos hej]
    · have hold := h.granted hold
      cases e with
      | startStop start loadEject =>
        simp only
        split_ifs
        · rfl
        · exact hold
      | _ => exact hold

/-- An event that ends no command and takes no time keeps what it does not clear. -/
theorem Handled.quiet {e : MscEvent} {s' : Msc} (h : Protocol wrap t) (hbegin : e ≠ .commandBegin)
    (he : endsCommand cfg t.msc e = false) (hj : Judges t.msc.ws s'.ws)
    (hp : s'.appCompletionPending = true → t.msc.appCompletionPending = true)
    (ha : s'.appMscCommandActive = t.msc.appMscCommandActive)
    (hg : s'.appCompletionAfterEject = true ∨ s'.exitAfterEject = true →
      t.msc.appCompletionAfterEject = true ∨ t.msc.exitAfterEject = true) : Handled cfg t e s' where
  judged := hj.judged h.judged
  validated hs := hj.validated (h.validated (hp hs))
  active := by
    rw [ha, he]
    cases e with
    | commandBegin => exact absurd rfl hbegin
    | _ => simp
  pending hs := .inr ⟨he, hp hs⟩
  granted hs := ⟨he, .inr (hg hs)⟩

/-- A reset of the session ends the command and clears the flags. -/
theorem Handled.reset {e : MscEvent} {s' : Msc} (hbegin : e ≠ .commandBegin)
    (he : endsCommand cfg t.msc e = true) (hs : s' = { ws := {}, fault := s'.fault }) :
    Handled cfg t e s' := by
  rw [hs]
  refine ⟨judged_fresh, nofun, ?_, nofun, fun h => by rcases h with h | h <;> cases h⟩
  rw [he]
  cases e with
  | commandBegin => exact absurd rfl hbegin
  | _ => simp

/-- The end of a command keeps a pending update and marks the time. -/
theorem Handled.finish {e : MscEvent} (h : Protocol wrap t)
    (he : e = .commandComplete ∨ e = .busReset) : Handled cfg t e (finishMscCommand t.msc) := by
  rcases he with rfl | rfl
  all_goals
    refine ⟨h.judged, h.validated, ?_, fun hp => .inl hp, fun hg => by rcases hg with hg | hg <;> cases hg⟩
    simp [finishMscCommand, endsCommand]

theorem Handled.write10Complete (h : Protocol wrap t) :
    Handled cfg t .write10Complete (tudMscWrite10Complete t.msc t.nvm).1 := by
  have he : endsCommand cfg t.msc .write10Complete = false := rfl
  unfold tudMscWrite10Complete
  split_ifs with hab hfull hboot hcopy
  · exact .quiet h nofun he (Holds.refl _).judges nofun rfl fun hg => by
      rcases hg with hg | hg
      · cases hg
      · exact .inr hg
  · exact .quiet h nofun he (Holds.refl _).judges id rfl id
  · exact .quiet h nofun he (Holds.refl _).judges id rfl id
  · -- the update becomes pending
    have hna : t.msc.ws.aborted = false := by simpa using hab
    have hval : t.msc.ws.appValidated = true := by
      rcases h.judged.verdict hfull.1 hfull.2 hboot with hv | hv
      · exact hv
      · exact absurd hv hab
    refine ⟨h.judged, fun _ => hval, ?_, fun _ => .inl ?_, fun hg => ⟨he, .inr hg⟩⟩
    · simp [he]
    · simp [marksActivity, hna, hfull.1, hfull.2, hboot]
  · exact .quiet h nofun he (Holds.refl _).judges id rfl id

theorem Handled.timer (h : Protocol wrap t) (idleTicks : Nat) :
    Handled cfg t (.timer idleTicks) (appCompletionTimerHandler cfg idleTicks t.msc t.nvm).1 := by
  have he : endsCommand cfg t.msc (.timer idleTicks) = false := rfl
  obtain ⟨hws, hp, hae, ha, hx⟩ := completePending_keeps t.msc t.nvm
  unfold appCompletionTimerHandler
  split_ifs
  · exact .quiet h nofun he (Holds.refl _).judges id rfl id
  · exact .quiet h nofun he (Holds.refl _).judges id rfl id
  · exact .quiet h nofun he (Holds.refl _).judges id rfl id
  · refine .quiet h nofun he hws.judges (fun hs => ?_) ha fun hg => ?_
    · rw [hp] at hs
      cases hs
    · rw [hae, hx] at hg
      exact .inr (hg.resolve_left Bool.false_ne_true)

theorem Handled.scsiComplete (h : Protocol wrap t) (cmd : Nat) :
    Handled cfg t (.scsiComplete cmd) (tudMscScsiComplete cfg cmd t.msc t.nvm).1 := by
  obtain ⟨hws, hp, hae, ha, hx⟩ := completePending_keeps t.msc t.nvm
  have hends : endsCommand cfg t.msc (.scsiComplete cmd) =
    (cfg.exitOnEject && t.msc.exitAfterEject && decide (cmd = scsiCmdStartStopUnit)) := rfl
  unfold tudMscScsiComplete
  by_cases hsync : cmd = 0x35
  · rw [if_pos hsync]
    refine .quiet h nofun ?_ (Holds.refl _).judges id rfl id
    rw [hends, hsync]
    simp [scsiCmdStartStopUnit]
  rw [if_neg hsync]
  simp only
  -- whether it completes or not, the exit is as it was
  have hr : ∀ r : Msc × Nvm, r.1.exitAfterEject = t.msc.exitAfterEject →
      Judges t.msc.ws r.1.ws → (r.1.appCompletionPending = true → t.msc.appCompletionPending = true) →
      r.1.appMscCommandActive = t.msc.appMscCommandActive →
      (r.1.appCompletionAfterEject = true → t.msc.appCompletionAfterEject = true) →
      Handled cfg t (.scsiComplete cmd)
        (if (cfg.exitOnEject && r.1.exitAfterEject && decide (cmd = scsiCmdStartStopUnit)) = true then
          uf2WriteSessionReset r.1 r.2 else r).1 := by
    intro r hx hj hp ha hae
    rw [hx]
    by_cases hreset : (cfg.exitOnEject && t.msc.exitAfterEject &&
        decide (cmd = scsiCmdStartStopUnit)) = true
    · rw [if_pos hreset]
      exact .reset nofun (hends.trans hreset) rfl
    · rw [if_neg hreset]
      refine .quiet h nofun (hends.trans (by simpa using hreset)) hj hp ha fun hg => ?_
      rw [hx] at hg
      exact hg.imp_left hae
  by_cases heject : (t.msc.appCompletionAfterEject && decide (cmd = scsiCmdStartStopUnit)) = true
  · rw [if_pos heject]
    refine hr (completePending t.msc t.nvm) hx hws.judges (fun hs => ?_) ha fun hs => ?_
    · rw [hp] at hs
      cases hs
    · rw [hae] at hs
      cases hs
  · rw [if_neg heject]
    exact hr (t.msc, t.nvm) rfl (Holds.refl _).judges id rfl id

theorem Handled.startStop (h : Protocol wrap t) (start loadEject : Bool) :
    Handled cfg t (.startStop start loadEject) (tudMscStartStop cfg start loadEject t.msc t.nvm).1 := by
  have hends : endsCommand cfg t.msc (.startStop start loadEject) =
    (loadEject && !start && !t.msc.appCompletionPending && !cfg.exitOnEject) := rfl
  unfold tudMscStartStop
  split_ifs with hej hp hx
  · have he : endsCommand cfg t.msc (.startStop start loadEject) = false := by
      rw [hends, hp]
      simp
    refine ⟨h.judged, h.validated, ?_, fun hs => .inr ⟨he, hs⟩, fun _ => ⟨he, .inl ⟨_, _, rfl, hej⟩⟩⟩
    rw [he]
    simp
  · have he : endsCommand cfg t.msc (.startStop start loadEject) = false := by
      rw [hends, hx]
      simp
    refine ⟨h.judged, h.validated, ?_, fun hs => .inr ⟨he, hs⟩, fun _ => ⟨he, .inl ⟨_, _, rfl, hej⟩⟩⟩
    rw [he]
    simp
  · refine .reset nofun ?_ rfl
    rw [hends, hej, Bool.eq_false_iff.mpr hp, Bool.eq_false_iff.mpr hx]
    rfl
  · refine .quiet h nofun ?_ (Holds.refl _).judges id rfl id
    rw [hends, Bool.eq_false_iff.mpr hej]
    rfl

theorem Protocol.step (h : Protocol wrap t) (cb : Callback) :
    Protocol wrap (timedStep cfg wrap t cb) := by
  cases hf : t.msc.fault with
  | true =>
    unfold timedStep
    rw [if_pos hf]
    exact h
  | false =>
    refine h.step_of hf ?_
    generalize t.event wrap cb = e
    cases e with
    | write10 lba offset sectors =>
      have he : endsCommand cfg t.msc (.write10 lba offset sectors) = false := rfl
      unfold mscHandle
      simp only
      split_ifs
      · exact .quiet h nofun he (Holds.refl _).judges id rfl id
      · obtain ⟨hj, hflags⟩ := tudMscWrite10_keeps cfg lba sectors t.msc t.nvm
        refine .quiet h nofun he hj (fun hs => hflags.pending ▸ hs) hflags.active fun hg => ?_
        rw [hflags.afterEject, hflags.exitAfterEject] at hg
        exact hg
    | write10Complete => exact .write10Complete h
    | scsiComplete cmd => exact .scsiComplete h cmd
    | startStop start loadEject => exact .startStop h start loadEject
    | commandBegin =>
      have he : endsCommand cfg t.msc .commandBegin = false := rfl
      exact ⟨h.judged, h.validated, rfl, fun hs => .inr ⟨he, hs⟩, fun hg => ⟨he, .inr hg⟩⟩
    | commandComplete => exact .finish h (.inl rfl)
    | busReset => exact .finish h (.inr rfl)
    | timer idleTicks => exact .timer h idleTicks
    | mount => exact .reset nofun rfl rfl
    | umount => exact .reset nofun rfl rfl

theorem Protocol.run (h : Protocol wrap t) (cbs : List Callback) :
    Protocol wrap (timedRun cfg wrap t cbs) := by
  induction cbs generalizing t with
  | nil => exact h
  | cons cb cbs ih => exact ih (h.step cb)

/-! ## The calls of `complete_app_update` -/

/-- A trigger is a pending update that is not aborted. -/
theorem completionTrigger_takes {e : MscEvent} {tr : Trigger}
    (h : completionTrigger cfg s e = some tr) : (takePendingAppCompletion s).1 = true := by
  cases e with
  | timer idleTicks =>
    simp only [completionTrigger] at h
    split_ifs at h with hc
    simp only [Bool.and_eq_true] at hc
    exact hc.2
  | scsiComplete cmd =>
    simp only [completionTrigger] at h
    split_ifs at h with hc
    exact hc.2.2.2
  | umount =>
    simp only [completionTrigger] at h
    split_ifs at h with hc
    exact hc
  | _ => cases h

theorem takePending_iff : (takePendingAppCompletion s).1 = true ↔
    s.appCompletionPending = true ∧ s.ws.aborted = false := by
  simp [takePendingAppCompletion]

/-- One call of `complete_app_update`, on the update that `take_pending_app_completion` takes. A
reset of the session may follow it. -/
def CompletesOnce (s : Msc) (n : Nvm) (r : Msc × Nvm) : Prop :=
  r = completeAppUpdate (takePendingAppCompletion s).2 n ∨
    r = uf2WriteSessionReset (completeAppUpdate (takePendingAppCompletion s).2 n).1
      (completeAppUpdate (takePendingAppCompletion s).2 n).2

/-- With a trigger, the handler calls `complete_app_update` once. -/
theorem mscHandle_trigger {e : MscEvent} {tr : Trigger} (h : completionTrigger cfg s e = some tr) :
    CompletesOnce s n (mscHandle cfg e s n) := by
  have htake := completionTrigger_takes h
  have hcomplete : completePending s n = completeAppUpdate (takePendingAppCompletion s).2 n := by
    unfold completePending
    rw [if_pos htake]
  cases e with
  | timer idleTicks =>
    simp only [completionTrigger] at h
    split_ifs at h with hc
    simp only [Bool.and_eq_true, Bool.not_eq_true', decide_eq_false_iff_not] at hc
    obtain ⟨⟨⟨hp, ha⟩, hidle⟩, -⟩ := hc
    left
    simp only [mscHandle, appCompletionTimerHandler, hp, ha]
    rw [if_neg (by simp), if_neg (by simp), if_neg hidle, hcomplete]
  | scsiComplete cmd =>
    simp only [completionTrigger] at h
    split_ifs at h with hc
    obtain ⟨hsync, heject, hcmd, -⟩ := hc
    have hej : (s.appCompletionAfterEject && decide (cmd = scsiCmdStartStopUnit)) = true := by
      rw [heject, decide_eq_true hcmd]
      rfl
    simp only [mscHandle, tudMscScsiComplete]
    rw [if_neg hsync, if_pos hej, hcomplete]
    split_ifs
    · exact .inr rfl
    · exact .inl rfl
  | umount =>
    right
    simp only [mscHandle, uf2WriteSessionClose, hcomplete]
  | _ => cases h

theorem completeAppUpdate_pending (s : Msc) (n : Nvm) :
    (completeAppUpdate s n).1.appCompletionPending = s.appCompletionPending := by
  unfold completeAppUpdate
  split_ifs <;> rfl

/-- A completion uses up the update. -/
theorem mscHandle_trigger_pending {e : MscEvent} {tr : Trigger}
    (h : completionTrigger cfg s e = some tr) :
    (mscHandle cfg e s n).1.appCompletionPending = false := by
  rcases mscHandle_trigger (n := n) h with heq | heq <;> rw [heq]
  · rw [completeAppUpdate_pending]
    rfl
  · rfl

/-- The log goes on without a commit. -/
def NoCommit (n n' : Nvm) : Prop := ∃ acts, n'.log = n.log ++ acts ∧ .completing .uf2 ∉ acts

theorem NoCommit.of_eq {n' : Nvm} (h : n'.log = n.log) : NoCommit n n' :=
  ⟨[], by rw [h, List.append_nil], List.not_mem_nil⟩

theorem NoCommit.trans {n' n'' : Nvm} (h : NoCommit n n') (h' : NoCommit n' n'') : NoCommit n n'' := by
  obtain ⟨acts, hlog, hacts⟩ := h
  obtain ⟨acts', hlog', hacts'⟩ := h'
  refine ⟨acts ++ acts', by rw [hlog', hlog, List.append_assoc], fun hmem => ?_⟩
  exact (List.mem_append.mp hmem).elim hacts hacts'

theorem uf2WriteSessionReset_log (s : Msc) (n : Nvm) : (uf2WriteSessionReset s n).2.log = n.log := by
  unfold uf2WriteSessionReset
  simp only
  split_ifs <;> rfl

theorem store_noCommit (ws : WriteState) (out : Outcome) (n : Nvm) : NoCommit n (out.store ws n) := by
  have hops : Act.completing .uf2 ∉ out.ops.map .op := by
    intro h
    obtain ⟨op, -, hop⟩ := List.mem_map.mp h
    cases hop
  unfold Outcome.store
  simp only
  split_ifs
  · refine ⟨out.ops.map .op ++ [.validated .uf2 out.ws.appStart
      (slice (n.run out.ops).mem out.ws.appStart out.ws.appSize)], ?_, fun h => ?_⟩
    · exact List.append_assoc n.log _ _
    · rcases List.mem_append.mp h with h | h
      · exact hops h
      · cases List.mem_singleton.mp h
  · exact ⟨_, rfl, hops⟩

theorem tudMscWrite10_noCommit (cfg : MscConfig) (lba : Nat) (sectors : List Sector) (s : Msc) (n : Nvm) :
    NoCommit n (tudMscWrite10 cfg lba sectors s n).2 := by
  induction sectors generalizing lba s n with
  | nil => exact .of_eq rfl
  | cons sector sectors ih =>
    unfold tudMscWrite10
    cases writeBlock cfg.uf2 lba sector s.ws n.cache n.mem with
    | none => exact .of_eq rfl
    | some out =>
      simp only
      by_cases hstop : (out.ws.aborted || decide (out.result = .busy)) = true
      · rw [if_pos hstop]
        exact store_noCommit _ _ _
      · rw [if_neg hstop]
        exact (store_noCommit _ _ _).trans (ih _ _ _)

/-- Without a trigger, nothing is committed. -/
theorem mscHandle_noCommit {e : MscEvent} (h : completionTrigger cfg s e = none) :
    NoCommit n (mscHandle cfg e s n).2 := by
  have hpass : (takePendingAppCompletion s).1 ≠ true → (completePending s n).2 = n := by
    intro htake
    unfold completePending
    rw [if_neg htake]
  cases e with
  | write10 lba offset sectors =>
    simp only [mscHandle]
    split_ifs
    · exact .of_eq rfl
    · exact tudMscWrite10_noCommit _ _ _ _ _
  | write10Complete =>
    simp only [mscHandle, tudMscWrite10Complete]
    split_ifs
    · exact .of_eq rfl
    · exact ⟨[.copyBl], rfl, by simp⟩
    · exact .of_eq rfl
    · exact .of_eq rfl
    · exact .of_eq rfl
  | scsiComplete cmd =>
    simp only [mscHandle, tudMscScsiComplete]
    by_cases hsync : cmd = 0x35
    · rw [if_pos hsync]
      exact .of_eq rfl
    rw [if_neg hsync]
    have hr : (if (s.appCompletionAfterEject && decide (cmd = scsiCmdStartStopUnit)) = true then
        completePending s n else (s, n)).2 = n := by
      split_ifs with heject
      · refine hpass fun htake => ?_
        simp only [Bool.and_eq_true, decide_eq_true_eq] at heject
        simp only [completionTrigger] at h
        rw [if_pos ⟨hsync, heject.1, heject.2, htake⟩] at h
        cases h
      · rfl
    generalize (if (s.appCompletionAfterEject && decide (cmd = scsiCmdStartStopUnit)) = true then
      completePending s n else (s, n)) = r at hr
    split_ifs
    · exact .of_eq (by rw [uf2WriteSessionReset_log, hr])
    · exact .of_eq (by rw [hr])
  | startStop start loadEject =>
    simp only [mscHandle, tudMscStartStop]
    split_ifs
    · exact .of_eq rfl
    · exact .of_eq rfl
    · exact .of_eq (uf2WriteSessionReset_log _ _)
    · exact .of_eq rfl
  | commandBegin => exact .of_eq rfl
  | commandComplete => exact .of_eq rfl
  | busReset => exact .of_eq rfl
  | timer idleTicks =>
    simp only [mscHandle, appCompletionTimerHandler]
    split_ifs with hp ha hidle
    · exact .of_eq rfl
    · exact .of_eq rfl
    · exact .of_eq rfl
    · refine .of_eq (congrArg Nvm.log (hpass fun htake => ?_))
      simp only [completionTrigger] at h
      rw [if_pos] at h
      · cases h
      · simp only [Bool.and_eq_true, Bool.not_eq_true', decide_eq_false_iff_not]
        exact ⟨⟨⟨by simpa using hp, by simpa using ha⟩, hidle⟩, htake⟩
  | mount => exact .of_eq (uf2WriteSessionReset_log _ _)
  | umount =>
    simp only [mscHandle, uf2WriteSessionClose]
    refine .of_eq ?_
    rw [uf2WriteSessionReset_log, hpass fun htake => ?_]
    simp only [completionTrigger] at h
    rw [if_pos htake] at h
    cases h

/-- How many UF2 images the log starts to commit. -/
def commits (n : Nvm) : Nat := n.log.count (.completing .uf2)

theorem NoCommit.commits {n' : Nvm} (h : NoCommit n n') : commits n' = commits n := by
  obtain ⟨acts, hlog, hacts⟩ := h
  unfold Uf2.commits
  rw [hlog, List.count_append, List.count_eq_zero_of_not_mem hacts, Nat.add_zero]

theorem bootloaderDfuUpdateProcess_noCommit (n : Nvm) (st : UpdateStatus) :
    NoCommit n (bootloaderDfuUpdateProcess n .uf2 st) := by
  have hops : ∀ ops : List FlashOp, Act.completing .uf2 ∉ ops.map .op := by
    intro ops h
    obtain ⟨op, -, hop⟩ := List.mem_map.mp h
    cases hop
  unfold bootloaderDfuUpdateProcess
  cases updateSettings (readSettings n.mem) st with
  | none => exact .of_eq rfl
  | some s =>
    simp only [Nvm.saveSettings]
    split_ifs
    · refine ⟨_, List.append_assoc n.log _ _, fun h => ?_⟩
      rcases List.mem_append.mp h with h | h
      · exact hops _ h
      · cases List.mem_singleton.mp h
    · exact ⟨_, rfl, hops _⟩

theorem CompletesOnce.commits {r : Msc × Nvm} (h : CompletesOnce s n r) :
    commits r.2 ≤ commits n + 1 := by
  have hcall : Uf2.commits (completeAppUpdate (takePendingAppCompletion s).2 n).2 ≤
      Uf2.commits n + 1 := by
    unfold completeAppUpdate
    split_ifs
    · exact Nat.le_succ _
    · rw [(bootloaderDfuUpdateProcess_noCommit _ _).commits]
      simp [Uf2.commits, Nvm.note, List.count_append]
  rcases h with rfl | rfl
  · exact hcall
  · rw [(NoCommit.of_eq (uf2WriteSessionReset_log _ _)).commits]
    exact hcall

/-- Every image that is committed is one of the completions counted. -/
theorem timedStep_commits (cfg : MscConfig) (wrap : Nat) (t : Timed) (cb : Callback) :
    commits (timedStep cfg wrap t cb).nvm + t.completions ≤
      commits t.nvm + (timedStep cfg wrap t cb).completions := by
  unfold timedStep
  split_ifs with hf
  · exact Nat.le_refl _
  · simp only
    cases htr : completionTrigger cfg t.msc (t.event wrap cb) with
    | none =>
      have := (mscHandle_noCommit (n := t.nvm) htr).commits
      simp only [Option.isSome_none, Bool.false_eq_true, if_false]
      omega
    | some tr =>
      have := (mscHandle_trigger (n := t.nvm) htr).commits
      simp only [Option.isSome_some, if_true]
      omega

theorem timedRun_commits (cfg : MscConfig) (wrap : Nat) (t : Timed) (cbs : List Callback) :
    commits (timedRun cfg wrap t cbs).nvm + t.completions ≤
      commits t.nvm + (timedRun cfg wrap t cbs).completions := by
  induction cbs generalizing t with
  | nil => exact Nat.le_refl _
  | cons cb cbs ih =>
    have hstep := timedStep_commits cfg wrap t cb
    have hrest := ih (timedStep cfg wrap t cb)
    change commits (timedRun cfg wrap (timedStep cfg wrap t cb) cbs).nvm + t.completions ≤
      commits t.nvm + (timedRun cfg wrap (timedStep cfg wrap t cb) cbs).completions
    omega

/-- The tally of a step. -/
theorem timedStep_tally (cfg : MscConfig) (wrap : Nat) (t : Timed) (cb : Callback) :
    (timedStep cfg wrap t cb).completions + t.rises +
        (if (timedStep cfg wrap t cb).msc.appCompletionPending then 1 else 0) ≤
      t.completions + (timedStep cfg wrap t cb).rises +
        if t.msc.appCompletionPending then 1 else 0 := by
  cases hf : t.msc.fault with
  | true =>
    unfold timedStep
    rw [if_pos hf]
  | false =>
    unfold timedStep
    rw [if_neg (by rw [hf]; exact Bool.false_ne_true)]
    simp only
    generalize t.event wrap cb = e
    cases htr : completionTrigger cfg t.msc e with
    | none =>
      cases t.msc.appCompletionPending <;>
        cases (mscHandle cfg e t.msc t.nvm).1.appCompletionPending
      all_goals
        simp only [Option.isSome_none, Bool.not_true, Bool.not_false, Bool.and_false,
          Bool.and_true, Bool.false_eq_true, if_true, if_false]
        omega
    | some tr =>
      have hold := (takePending_iff.mp (completionTrigger_takes htr)).1
      have hnew := mscHandle_trigger_pending (n := t.nvm) htr
      simp [hold, hnew]
      omega

theorem timedRun_tally (cfg : MscConfig) (wrap : Nat) (t : Timed) (cbs : List Callback) :
    (timedRun cfg wrap t cbs).completions + t.rises +
        (if (timedRun cfg wrap t cbs).msc.appCompletionPending then 1 else 0) ≤
      t.completions + (timedRun cfg wrap t cbs).rises +
        if t.msc.appCompletionPending then 1 else 0 := by
  induction cbs generalizing t with
  | nil => exact Nat.le_refl _
  | cons cb cbs ih =>
    have hstep := timedStep_tally cfg wrap t cb
    have hrest := ih (timedStep cfg wrap t cb)
    change (timedRun cfg wrap (timedStep cfg wrap t cb) cbs).completions + t.rises +
      (if (timedRun cfg wrap (timedStep cfg wrap t cb) cbs).msc.appCompletionPending then 1 else 0) ≤
      t.completions + (timedRun cfg wrap (timedStep cfg wrap t cb) cbs).rises + _
    omega

/-- The counter's difference is no more than the time that has passed. -/
theorem cntDiffCompute_le {wrap now start : Nat} (h : start ≤ now) :
    cntDiffCompute wrap (now % wrap) (start % wrap) ≤ now - start := by
  unfold cntDiffCompute
  rcases Nat.eq_zero_or_pos wrap with rfl | hpos
  · simp
  have hlt := Nat.mod_lt start hpos
  have hdiff : (now % wrap + wrap - start % wrap) % wrap = (now - start) % wrap := by
    have h1 := Nat.div_add_mod now wrap
    have h2 := Nat.div_add_mod start wrap
    have hle : start / wrap ≤ now / wrap := Nat.div_le_div_right h
    obtain ⟨k, hk⟩ := Nat.exists_eq_add_of_le hle
    have hsum : now - start + wrap = now % wrap + wrap - start % wrap + wrap * k := by
      rw [hk, Nat.mul_add] at h1
      omega
    rw [← Nat.add_mod_right (now - start), hsum, Nat.add_mul_mod_self_left]
  rw [hdiff]
  exact Nat.mod_le _ _

/-- Whatever the order of the callbacks, and however much time passes between them: every
completion is one call of `complete_app_update`, on an update that became pending since the last
one, validated and not aborted, and nothing else commits one; the idle timer completes none while
a command is open, nor before the idle interval, less the timer's least timeout, has passed since
the last command ended; an eject is used by the completion of the command that asked for it, and
its permission ends with that command. -/
theorem msc_completion_protocol (cfg : MscConfig) (wrap : Nat) (n : Nvm) (cbs cbs' : List Callback)
    (cb : Callback) :
    let t := timedRun cfg wrap { nvm := n } cbs
    let t' := timedRun cfg wrap t cbs'
    t'.completions + t.rises ≤ t.completions + t'.rises +
        (if t.msc.appCompletionPending then 1 else 0) ∧
      commits t'.nvm + t.completions ≤ commits t.nvm + t'.completions ∧
      (t.trigger cfg wrap cb ≠ none → t.msc.fault = false → CompletesOnce t.msc t.nvm
        ((timedStep cfg wrap t cb).msc, (timedStep cfg wrap t cb).nvm)) ∧
      (t.trigger cfg wrap cb ≠ none → t.msc.appCompletionPending = true ∧
        t.msc.ws.appValidated = true ∧ t.msc.ws.aborted = false) ∧
      (t.trigger cfg wrap cb = none → NoCommit t.nvm (timedStep cfg wrap t cb).nvm) ∧
      (t.trigger cfg wrap cb = some .idle → t.commandOpen = false ∧
        cfg.completionIdleTicks ≤ t.clock + cb.elapsed - t.lastEnd + cfg.timerMinTimeoutTicks) ∧
      (t.trigger cfg wrap cb = some .eject →
        cb.event = .scsiComplete scsiCmdStartStopUnit ∧ t.grant = some t.ends) ∧
      (t.msc.appCompletionAfterEject = true ∨ t.msc.exitAfterEject = true →
        t.grant = some t.ends) := by
  intro t t'
  have h : Protocol wrap t := (protocol_init wrap n).run cbs
  refine ⟨?_, timedRun_commits cfg wrap t cbs', fun htr hf => ?_, fun htr => ?_, fun htr => ?_,
    fun htr => ?_, fun htr => ?_, h.granted⟩
  · exact Nat.le_trans (Nat.le_add_right _ _) (timedRun_tally cfg wrap t cbs')
  · obtain ⟨tr, htr⟩ := Option.ne_none_iff_exists'.mp htr
    unfold timedStep
    rw [if_neg (by rw [hf]; exact Bool.false_ne_true)]
    exact mscHandle_trigger htr
  · obtain ⟨tr, htr⟩ := Option.ne_none_iff_exists'.mp htr
    obtain ⟨hp, hab⟩ := takePending_iff.mp (completionTrigger_takes htr)
    exact ⟨hp, h.validated hp, hab⟩
  · unfold timedStep
    split_ifs
    · exact .of_eq rfl
    · exact mscHandle_noCommit htr
  · obtain ⟨idleTicks, hevent⟩ : ∃ k, cb.event = .timer k := by
      unfold Timed.trigger Timed.event at htr
      generalize cb.event = e at htr ⊢
      cases e with
      | timer k => exact ⟨k, rfl⟩
      | _ =>
        simp only [completionTrigger] at htr
        first | cases htr | (split_ifs at htr; cases htr)
    have hidle : t.event wrap cb =
        .timer (cntDiffCompute wrap ((t.clock + cb.elapsed) % wrap) t.lastActivity) := by
      unfold Timed.event
      rw [hevent]
    unfold Timed.trigger at htr
    rw [hidle] at htr
    simp only [completionTrigger] at htr
    split_ifs at htr with hc
    simp only [Bool.and_eq_true, Bool.not_eq_true', decide_eq_false_iff_not] at hc
    obtain ⟨⟨⟨hp, ha⟩, hidle⟩, -⟩ := hc
    have hact := h.activity_le
    have hended := h.ended hp
    have hle : cntDiffCompute wrap ((t.clock + cb.elapsed) % wrap) (t.activityAt % wrap) ≤
        t.clock + cb.elapsed - t.activityAt := cntDiffCompute_le (by omega)
    rw [h.activity] at hidle
    refine ⟨h.open_eq.trans ha, by omega⟩
  · obtain ⟨cmd, hevent⟩ : ∃ cmd, cb.event = .scsiComplete cmd := by
      unfold Timed.trigger Timed.event at htr
      generalize cb.event = e at htr ⊢
      cases e with
      | scsiComplete cmd => exact ⟨cmd, rfl⟩
      | _ =>
        simp only [completionTrigger] at htr
        first | cases htr | (split_ifs at htr; cases htr)
    have he : t.event wrap cb = .scsiComplete cmd := by
      unfold Timed.event
      rw [hevent]
    unfold Timed.trigger at htr
    rw [he] at htr
    simp only [completionTrigger] at htr
    split_ifs at htr with hc
    obtain ⟨-, heject, hcmd, -⟩ := hc
    exact ⟨hcmd ▸ hevent, h.granted (.inl heject)⟩

end OtaFix.Uf2
