import OtaFix.Mota.Shift

/-!
# Updates that go through

On working flash a decoder leaves in its workspace exactly what it writes there, and an
image that hashes as its manifest says is recorded (`decodeApp_rewrites`). `toDecoder` is
the path of an in-place update up to its decoder.
-/

namespace OtaFix.Mota

open Lib Prog

variable {env : Env} {cfg : Profile} {s s' t : Device} {lo hi : Nat} {m : MotaMin} {f : Mem}
  {c : ApplyCtx} {ws : List (Nat × List Byte)}

/-! ## Writes that succeed -/

/-- On working flash a verified operation succeeds. -/
theorem sat_working {p : MotaM Bool} {ok : Op → Device → Prop} {Q : Bool → Device → Prop}
    (hp : p.Sat (handler env) ok (fun r s' => Verified lo hi s r s' ∧ Q r s') s) (hw : Works env p)
    (hlen : s.statics.cache.length = codePageSize) (hm : .pageFailed ∉ s.marks) :
    p.Sat (handler env) (fun _ _ => True)
      (fun r s' => r = true ∧ Verified lo hi s true s' ∧ Q true s') s := by
  have hkeep := (hw s hlen).keep (I := fun s => Mark.pageFailed ∉ s.marks) hm
    fun _ _ ho h => marks_without_failed ho h
  refine (hp.and hkeep).mono (fun _ _ _ => trivial) fun r s' h => ?_
  obtain ⟨⟨hv, hq⟩, -, hnone⟩ := h
  cases r with
  | false => exact absurd (hv.failed rfl) hnone
  | true => exact ⟨rfl, hv, hq⟩

/-- The workspace shows `f` since `t`, and no page has failed. -/
structure Shows (lo hi : Nat) (t : Device) (f : Mem) (s : Device) : Prop where
  touched : Touched lo hi t s
  marks : s.marks = t.marks
  cache : CacheIn lo hi s.statics
  clean : Clean s
  view : cacheView s = f

/-- A decoder that makes the writes and answers `r`. -/
def rewrites (r : Int) : List (Nat × List Byte) → Decoder
  | [] => .done r
  | w :: ws => .memWrite w.1 w.2 fun _ => rewrites r ws

/-- It takes `n` bytes of the patch first. -/
def rewriteDecoder (n : Nat) (ws : List (Nat × List Byte)) (r : Int) : Decoder :=
  .patchRead n fun _ => rewrites r ws

/-- The flash with the writes at their places behind `lo`. -/
def rewritten (lo : Nat) (ws : List (Nat × List Byte)) (f : Mem) : Mem :=
  ws.foldl (fun f w => overlay f (lo + w.1) w.2) f

/-- A write at `a` shows there. -/
theorem cwrite_shows (hfault : ∀ n, env.fault n = .ok) (hws : Pages lo hi)
    (hm : .pageFailed ∉ t.marks) {a : Nat} {src : List Byte} (hlow : lo ≤ a)
    (hin : a + src.length ≤ hi) (h : Shows lo hi t f s) :
    (cwrite a src).Sat (handler env) (fun _ _ => True)
      (fun r s' => r = true ∧ Shows lo hi t (overlay f a src) s') s := by
  have hspec : (cwrite a src).Sat (handler env) (Writes sampleProfile lo hi) _ s :=
    cwriteLoop_spec hws _ (Nat.le_refl _) hlow hin h.cache
  refine (sat_working hspec (works_cwriteLoop hfault _ _ _) h.cache.length (h.marks ▸ hm)).post
    fun r s' h' => ?_
  obtain ⟨hr, hv, hshow⟩ := h'
  obtain ⟨hclean, hview⟩ := hshow rfl h.clean
  exact ⟨hr, h.touched.trans hv.touched, (hv.marks rfl).trans h.marks, hv.touched.cache h.cache,
    hclean, by rw [hview, h.view]⟩

/-- Nothing is cached yet, so that the workspace shows what is in flash. -/
theorem CacheEmpty.shows (h : CacheEmpty s.statics) (hstill : Still t s) :
    Shows lo hi t t.mem s := by
  refine ⟨hstill.touched, hstill.marks, h.cacheIn lo hi, fun hp => absurd h.page hp, ?_⟩
  funext x
  simp [cacheView, h.page, hstill.mem]

section Rewrites

variable (hfault : ∀ n, env.fault n = .ok) (hws : Pages c.wsLo c.wsHi) (hle : c.wsLo ≤ c.wsHi)
  (hm : .pageFailed ∉ t.marks)
include hfault hws hle hm

theorem dtMw_shows {dst : Nat} {src : List Byte} (hin : dst + src.length ≤ c.wsHi - c.wsLo)
    (h : Shows c.wsLo c.wsHi t f s) : (dtMw c dst src).Sat (handler env) (fun _ _ => True)
      (fun _ s' => Shows c.wsLo c.wsHi t (overlay f (c.wsLo + dst) src) s') s := by
  unfold dtMw
  rw [dtWsAddr_in hws.lt hle hin]
  exact (cwrite_shows hfault hws hm (Nat.le_add_right _ _) (by omega) h).post fun _ _ h' => h'.2

theorem runRewrites_shows (hin : ∀ w ∈ ws, w.1 + w.2.length ≤ c.wsHi - c.wsLo) (r : Int)
    (pos : Nat) (h : Shows c.wsLo c.wsHi t f s) :
    (runDecoder cfg c (rewrites r ws) pos).Sat (handler env) (fun _ _ => True)
      (fun x s' => x = (r, pos) ∧ Shows c.wsLo c.wsHi t (rewritten c.wsLo ws f) s') s := by
  induction ws generalizing s f with
  | nil => exact ⟨rfl, h⟩
  | cons w ws ih =>
    rw [List.forall_mem_cons] at hin
    exact (dtMw_shows hfault hws hle hm hin.1 h).bind fun _ _ h' => ih hin.2 h'

end Rewrites

/-- Where no page has failed, a flush leaves in flash what the workspace shows. -/
theorem cacheFlush_shows (hfault : ∀ n, env.fault n = .ok) (hm : .pageFailed ∉ t.marks)
    (h : Shows lo hi t f s) : cacheFlush.Sat (handler env) (fun _ _ => True)
      (fun r s' => r = true ∧ Touched lo hi t s' ∧ s'.marks = t.marks ∧ s'.mem = f) s := by
  have hspec : cacheFlush.Sat (handler env) (Writes sampleProfile lo hi) _ s := cacheFlush_spec h.cache
  refine (sat_working hspec (works_cacheFlush hfault) h.cache.length (h.marks ▸ hm)).post
    fun r s' h' => ?_
  obtain ⟨hr, hv, hshow⟩ := h'
  obtain ⟨-, hmem⟩ := hshow rfl
  exact ⟨hr, h.touched.trans hv.touched, (hv.marks rfl).trans h.marks, by rw [hmem h.clean, h.view]⟩

/-! ## The record -/

/-- An image that hashes as its manifest says is recorded, and nothing else happens. -/
structure Recorded (m : MotaMin) (s : Device) (r : Bool) (s' : Device) : Prop where
  done : r = true
  ops : s'.ops = s.ops ++ otahSettingsCommit (validRecord s.mem m)
  mem : s'.mem = replay (otahSettingsCommit (validRecord s.mem m)) s.mem
  marks : s'.marks = s.marks

theorem finishAppUpdate_records (hhash : ImageHeld s.mem m) :
    (finishAppUpdate cfg m).Sat (handler env) (fun _ _ => True) (Recorded m s) s := by
  have hview : Still s (after env .view s) := still_after (show Reads cfg .view s from trivial)
  refine sat_op.mpr ⟨trivial, ((fullImageHashValid_live (s := after env .view s) m
    (dfuBank0RegionStart s.mem)).mono (fun _ _ _ => trivial) fun _ _ h => h).bind fun r s1 h => ?_⟩
  obtain ⟨hr, hstill⟩ := h
  have h1 := hview.trans hstill
  rw [hview.mem] at hr
  rw [ImageHeld] at hhash
  rw [hhash, decide_eq_true rfl] at hr
  subst hr
  refine sat_flash.mpr ⟨trivial, ?_⟩
  have h2 : Still s (after env .view s1) := h1.trans
    (still_after (show Reads cfg .view s1 from trivial))
  change Sat _ _ _ (perform (Op.settingsCommit (validRecord s1.mem m)) >>= _) _
  rw [h1.mem]
  refine sat_op.mpr ⟨trivial, sat_op.mpr ⟨trivial, ?_⟩⟩
  have hq := quiet_after env (show Closes cfg (.setGpregret2 0xB8)
    (after env (.settingsCommit (validRecord s.mem m)) (after env .view s1)) from trivial)
  refine Recorded.mk rfl ?_ ?_ ?_
  · rw [hq.ops, after_ops, nvOps_settingsCommit, h2.ops]
  · rw [hq.mem, after_mem, nvOps_settingsCommit, h2.mem]
  · rw [hq.marks, settingsCommit_marks, h2.marks]

/-! ## The decoder's run -/

/-- The flash of `s` is that of `t` under the operations logged since. -/
def Logged (t s : Device) : Prop := ∃ l, s.ops = t.ops ++ l ∧ s.mem = replay l t.mem

theorem Logged.refl (t : Device) : Logged t t := ⟨[], (List.append_nil _).symm, rfl⟩

theorem Logged.step {o : Op} (h : Logged t s) : Logged t (after env o s) := by
  obtain ⟨l, hops, hmem⟩ := h
  refine ⟨l ++ nvOps env o s, ?_, ?_⟩
  · rw [after_ops, hops, List.append_assoc]
  · rw [after_mem, hmem, replay_append]

/-- Any run is logged. -/
theorem sat_logged {α : Type} {p : MotaM α} {Q : α → Device → Prop}
    (hp : p.Sat (handler env) (fun _ _ => True) Q s) (h : Logged t s) :
    p.Sat (handler env) (fun _ _ => True) (fun a s' => Q a s' ∧ Logged t s') s :=
  (hp.keep h fun _ _ _ => Logged.step).mono (fun _ _ _ => trivial) fun _ _ h => h

/-- The flash held `f`, and then took the record of the image that `m` describes there. -/
structure Installed (m : MotaMin) (f : Mem) (lo hi : Nat) (t s : Device) : Prop where
  marks : s.marks = t.marks ++ [.decode lo hi]
  ops : ∃ l, s.ops = t.ops ++ (l ++ otahSettingsCommit (validRecord f m)) ∧ replay l t.mem = f
  mem : s.mem = replay (otahSettingsCommit (validRecord f m)) f

theorem Recorded.installed {r : Bool} (h : Recorded m s r s') (hlog : Logged t s)
    (hmarks : s.marks = t.marks ++ [.decode lo hi]) : Installed m s.mem lo hi t s' := by
  obtain ⟨l, hops, hmem⟩ := hlog
  refine ⟨h.marks.trans hmarks, ⟨l, ?_, hmem.symm⟩, h.mem⟩
  rw [h.ops, hops, List.append_assoc]

/-- A decoder that takes its patch, rewrites its workspace to the image of the manifest and
answers with its size: the image is in place, and its record behind it. -/
theorem decodeApp_rewrites {decoder : Nat → Decoder}
    (hdec : decoder m.payloadSize = rewriteDecoder m.payloadSize ws m.imageSize)
    (hfault : ∀ n, env.fault n = .ok) (hws : Pages lo hi) (hle : lo ≤ hi)
    (hin : ∀ w ∈ ws, w.1 + w.2.length ≤ hi - lo) (hempty : CacheEmpty t.statics)
    (hm : .pageFailed ∉ t.marks) (hsize : m.imageSize < 2 ^ 32)
    (hpatch : ((dtPr cfg ⟨m.payloadAddr, m.payloadSize, lo, hi⟩ 0 m.payloadSize).run (handler env)
      (after env (.mark (.decode lo hi)) t)).1.isSome = true)
    (hhash : ImageHeld (rewritten lo ws t.mem) m) :
    (decodeApp cfg decoder m lo hi).Sat (handler env) (fun _ _ => True)
      (fun r s' => r = true ∧ Installed m (rewritten lo ws t.mem) lo hi t s') t := by
  refine sat_op.mpr ⟨trivial, ?_⟩
  simp only
  rw [hdec]
  have hlog : Logged t (after env (.mark (.decode lo hi)) t) := (Logged.refl t).step
  have hfail : .pageFailed ∉ (after env (.mark (.decode lo hi)) t).marks :=
    marks_without_failed (fun h => by cases h) hm
  have hmarks : (after env (.mark (.decode lo hi)) t).marks = t.marks ++ [.decode lo hi] := rfl
  have hmem : (after env (.mark (.decode lo hi)) t).mem = t.mem := rfl
  have hempty1 : CacheEmpty (after env (.mark (.decode lo hi)) t).statics := hempty
  generalize after env (.mark (.decode lo hi)) t = tm at hpatch hlog hfail hmarks hmem hempty1 ⊢
  have hread : (dtPr cfg ⟨m.payloadAddr, m.payloadSize, lo, hi⟩ 0 m.payloadSize).Sat (handler env)
      (Reads cfg) (fun _ s' => Still tm s') tm := by
    unfold dtPr
    split_ifs
    · exact .refl tm
    · exact (stagedRead_spec _ _).post fun _ _ h => h.2
  have hrun : (runDecoder cfg ⟨m.payloadAddr, m.payloadSize, lo, hi⟩
      (rewriteDecoder m.payloadSize ws m.imageSize) 0).Sat (handler env) (fun _ _ => True)
      (fun x s' => x = ((m.imageSize : Int), m.payloadSize) ∧
        Shows lo hi tm (rewritten lo ws t.mem) s') tm := by
    refine ((hread.and sat_run).mono (fun _ _ _ => trivial) fun _ _ h => h).bind fun r s1 h1 => ?_
    obtain ⟨hstill, hr⟩ := h1
    rw [hr] at hpatch
    simp only at hpatch
    rw [hpatch, if_pos rfl, Nat.zero_add, ← hmem]
    exact runRewrites_shows (c := ⟨m.payloadAddr, m.payloadSize, lo, hi⟩) hfault hws hle hfail hin
      _ _ ((hempty1.keeps hstill.cache).shows hstill)
  refine (sat_logged hrun hlog).bind fun x s2 h2 => ?_
  obtain ⟨⟨rfl, hshow⟩, hlog2⟩ := h2
  simp only
  rw [if_neg (by omega)]
  refine (sat_logged (cacheFlush_shows hfault hfail hshow) hlog2).bind fun flushed s3 h3 => ?_
  obtain ⟨⟨rfl, -, hmarks3, hmem3⟩, hlog3⟩ := h3
  rw [if_neg (by decide), if_neg (by simp), Int.toNat_natCast, Nat.mod_eq_of_lt hsize,
    if_neg (by simp)]
  rw [← hmem3] at hhash ⊢
  refine (finishAppUpdate_records hhash).bind fun r s4 h4 => ?_
  have hinst := h4.installed hlog3 (hmarks3.trans hmarks)
  obtain rfl := h4.done
  refine (sat_quiet (finishApply_closes true)).mono (fun _ _ _ => trivial) fun r s5 h5 => ⟨h5.1, ?_⟩
  exact ⟨h5.2.marks.trans hinst.marks, h5.2.ops ▸ hinst.ops, h5.2.mem.trans hinst.mem⟩

/-! ## The path to the decoder -/

/-- `apply_in_place` up to its decoder, for an application shorter than a flash page. -/
def inPlaceToDecoder (cfg : Profile) (m : MotaMin) (motaAddr appLimit : Nat) :
    MotaM (Option (MotaMin × Nat × Nat)) := do
  let base ← appBase
  if m.isFull ∨ m.codecId ≠ codecInplace ∨ m.imageSize = 0 ∨ sub32 appLimit base < m.imageSize then
    return none
  else
    let mem ← flash
    match findBodyLen mem (min appLimit (dfuBank0RegionStart mem + 0x100)) with
    | none => return none
    | some bodyLen =>
      let hash ← sha256ReadRegion cfg base bodyLen false none
      if (hash.getD []).take 8 ≠ m.baseHash then return none
      else
        let g ← getStatics
        let span := workspaceSpan cfg g appLimit motaAddr base
        let geometry ← dtGeometryOk cfg m bodyLen span
        if !geometry then return none
        else
          let cleared ← clearApproval cfg m
          if !cleared then return none
          else
            invalidateApp
            let base ← appBase
            return some (m, base, workspaceHi cfg appLimit motaAddr base span)

def containerToDecoder (cfg : Profile) (m : MotaMin) (motaAddr appLimit : Nat) :
    MotaM (Option (MotaMin × Nat × Nat)) := do
  if m.formatVer ≠ 2 ∨ m.flags / 4 ≠ 0 then return none
  else
    let g ← getStatics
    let authorized ← (if cfg.sdSelected g then sdAuthorizedContainerValid cfg else pure true)
    if !authorized then return none
    else
      let g ← getStatics
      if cfg.externalStagedSource g && m.isFull then return none
      else inPlaceToDecoder cfg m motaAddr appLimit

def appToDecoder (cfg : Profile) (stageCeiling : Nat) : MotaM (Option (MotaMin × Nat × Nat)) := do
  let g ← getStatics
  let appLimit := appLimitOf cfg g stageCeiling
  let taken ← (if cfg.sdSelected g then sdAuthTake sdAuthPurposeApp 2 else pure true)
  if !taken then return none
  else
    let hashed ← (if cfg.hybridSelected g then hybridAuthorizedContainerValid cfg else pure true)
    if !hashed then return none
    else
      let r ← scanMota cfg stageCeiling
      match r with
      | none => return none
      | some (motaAddr, m) =>
        if !m.approved then return none else containerToDecoder cfg m motaAddr appLimit

/-- The path of an update to its decoder, with the container and the workspace; `none` where
it ends before. -/
def toDecoder (cfg : Profile) : MotaM (Option (MotaMin × Nat × Nat)) := do
  let trigger ← gpregretGet
  if cfg.bootloaderUpdateEnabled && trigger = bootloaderApply then return none
  else if trigger ≠ otaApply then return none
  else
    let stageHandoff ← gpregret2Get
    gpregretSet 0
    gpregret2Set 0xB1
    let selected ← selectSource cfg stageHandoff
    if !selected then return none else appToDecoder cfg (stageCeilingOf cfg stageHandoff)

section Path

variable (decoder : Nat → Decoder)

abbrev LeadsToDecoder (env : Env) (cfg : Profile) (decoder : Nat → Decoder)
    (q : MotaM (Option (MotaMin × Nat × Nat))) (p : MotaM Bool) : Prop :=
  LeadsTo (handler env) q p fun x => decodeApp cfg decoder x.1 x.2.1 x.2.2

theorem inPlaceToDecoder_leads (motaAddr appLimit : Nat) : LeadsToDecoder env cfg decoder
    (inPlaceToDecoder cfg m motaAddr appLimit) (applyInPlace cfg decoder m motaAddr appLimit) := by
  refine .bind fun base => .stay (.bind fun mem => ?_)
  cases hfind : findBodyLen mem (min appLimit (dfuBank0RegionStart mem + 0x100)) with
  | none => exact .ended
  | some bodyLen =>
    rw [findBodyLen_mono (Nat.min_le_left _ _) hfind]
    exact .bind fun hash => .stay (.bind fun g => .bind fun geometry => .stay (.bind fun cleared =>
      .stay (.bind fun _ => .bind fun base => .here rfl)))

theorem containerToDecoder_leads (motaAddr appLimit : Nat) : LeadsToDecoder env cfg decoder
    (containerToDecoder cfg m motaAddr appLimit) (applyContainer cfg decoder m motaAddr appLimit) :=
  .stay (.bind fun _ => .bind fun _ => .stay (.bind fun _ => .stay
    (inPlaceToDecoder_leads decoder motaAddr appLimit)))

theorem appToDecoder_leads (stageCeiling : Nat) : LeadsToDecoder env cfg decoder
    (appToDecoder cfg stageCeiling) (applyApp cfg decoder stageCeiling) := by
  refine .bind fun g => .bind fun taken => .stay (.bind fun hashed => .stay (.bind fun r => ?_))
  cases r with
  | none => exact .ended
  | some p => exact .stay (containerToDecoder_leads decoder p.1 _)

theorem toDecoder_leads (hrak : cfg.rakSdStore = false) :
    LeadsToDecoder env cfg decoder (toDecoder cfg) (otaDeltaCheckAndApply cfg decoder) := by
  unfold otaDeltaCheckAndApply
  simp only
  rw [if_neg (by rw [hrak]; decide)]
  exact .bind fun trigger => .stay (.stay (.bind fun stageHandoff => .bind fun _ => .bind fun _ =>
    .bind fun selected => .stay (appToDecoder_leads decoder _)))

end Path

/-! ## Whole runs -/

variable {s0 : Device}

/-- The flash behind a run is the one before it under the operations it logged. -/
theorem run_logged {α : Type} (p : MotaM α) (h : s0.ops = []) :
    (p.run (handler env) s0).2.mem = replay (p.run (handler env) s0).2.ops s0.mem := by
  obtain ⟨-, l, hops, hmem⟩ := (sat_logged (p := p) sat_true (Logged.refl s0)).result
  rw [hmem, hops, h, List.nil_append]

/-- A run that reaches such a decoder installs what it writes. -/
theorem otaDeltaCheckAndApply_rewrites (decoder : Nat → Decoder) (hrak : cfg.rakSdStore = false)
    (hpath : (toDecoder cfg).run (handler env) s0 = (some (m, lo, hi), t))
    (hdec : decoder m.payloadSize = rewriteDecoder m.payloadSize ws m.imageSize)
    (hfault : ∀ n, env.fault n = .ok) (hws : Pages lo hi) (hle : lo ≤ hi)
    (hin : ∀ w ∈ ws, w.1 + w.2.length ≤ hi - lo) (hempty : CacheEmpty t.statics)
    (hm : .pageFailed ∉ t.marks) (hsize : m.imageSize < 2 ^ 32)
    (hpatch : ((dtPr cfg ⟨m.payloadAddr, m.payloadSize, lo, hi⟩ 0 m.payloadSize).run (handler env)
      (after env (.mark (.decode lo hi)) t)).1.isSome = true)
    (hhash : ImageHeld (rewritten lo ws t.mem) m) :
    ((otaDeltaCheckAndApply cfg decoder).run (handler env) s0).1 = true ∧
      Installed m (rewritten lo ws t.mem) lo hi t
        ((otaDeltaCheckAndApply cfg decoder).run (handler env) s0).2 := by
  rw [toDecoder_leads decoder hrak _ _ _ hpath]
  exact (decodeApp_rewrites hdec hfault hws hle hin hempty hm hsize hpatch hhash).result

/-- Power may be lost just behind the erase of the last settings commit. -/
theorem Installed.cut (h : Installed m f lo hi t s) (ht : t.mem = replay t.ops s0.mem) :
    ∃ k, replay (s.ops.take k) s0.mem =
      (FlashOp.erase bootloaderSettingsAddress codePageSize).apply f := by
  obtain ⟨l, hops, hmem⟩ := h.ops
  refine ⟨(t.ops ++ l).length + 1, ?_⟩
  rw [hops, ← List.append_assoc, List.take_length_add_append, replay_append, replay_append, ← ht,
    hmem]
  rfl

end OtaFix.Mota
