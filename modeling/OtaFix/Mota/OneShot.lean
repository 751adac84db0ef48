import OtaFix.Mota.Run

/-!
# One-shot authorization, and rejection

The trigger and the retained record are gone before the first access to a staged
source, to the flash or to the MBR, so that no reset repeats an update
(`mota_authorization_oneShot`). An update that is refused before its commit point
leaves at most the approval of its container cleared (`mota_rejected_unchanged`).
-/

namespace OtaFix.Mota

open Lib Prog

variable {env : Env} {cfg : Profile} {s s' s0 s1 : Device} {o : Op}

/-- An operation on a staged source, on the media, on the flash or on the MBR. -/
def Accesses : Op → Prop
  | .stagedFlash _ _ | .stagedRam _ _ | .sdInit | .sdRead _ _ _ | .qspiInit | .qspiCapacity
  | .qspiRead _ _ | .qspiWrite _ _ | .erase _ | .words _ _ | .settingsCommit _ | .mbrCopy _ => True
  | _ => False

instance : DecidablePred Accesses := fun o =>
  match o with
  | .stagedFlash _ _ | .stagedRam _ _ | .sdInit | .sdRead _ _ _ | .qspiInit | .qspiCapacity
  | .qspiRead _ _ | .qspiWrite _ _ | .erase _ | .words _ _ | .settingsCommit _ | .mbrCopy _ =>
    isTrue trivial
  | .get | .set _ | .gpregret | .gpregret2 | .setGpregret _ | .setGpregret2 _ | .resetreas
  | .takeRetained | .view | .sdDeinit | .qspiSetRakSource _ | .qspiDeinit | .mark _ => isFalse id

/-- The backend that trigger and handoff value select. -/
def selectedBackend (cfg : Profile) (s0 : Device) : Backend :=
  if s0.gpregret = otaApply then appBackend cfg s0.gpregret2 else bootBackend cfg s0.gpregret2

/-! ## Registers -/

theorem Preludes.not_accesses (h : Preludes o) : ¬ Accesses o := by
  cases o with
  | stagedFlash | stagedRam | sdInit | sdRead | qspiInit | qspiCapacity | qspiRead | qspiWrite
  | erase | words | settingsCommit | mbrCopy => exact h.elim
  | _ => exact id

theorem CommonOp.session {P : Nat → Prop} (h : CommonOp env cfg P s1 o s) : Session s1 s := by
  cases h with
  | closes h | parsed h | clears h => exact h

theorem AppOp.session (h : AppOp env cfg s1 o s) : Session s1 s := by
  cases h with
  | common h => exact h.session
  | invalidates a m h | writes a m h | records a m h => exact h.session

theorem BootOp.registers (h : BootOp env cfg s1 o s) :
    s.gpregret = s1.gpregret ∧ s.retained = s1.retained := by
  cases h with
  | common h => exact ⟨h.session.gpregret, h.session.retained⟩
  | copies a m raw h hs => exact ⟨hs.gpregret, hs.retained⟩
  | winds hg hr | hands a m raw h hg hr => exact ⟨hg, hr⟩

/-- Every access is made with the trigger consumed, and the record of its source. -/
theorem MotaOp.consumed (h : MotaOp env cfg s0 o s) (ha : Accesses o) : s.gpregret = 0 ∧
    (selectedBackend cfg s0 = .sd ∨ selectedBackend cfg s0 = .hybrid → s.retained = wipedRecord) := by
  cases h with
  | prelude ho => exact absurd ha ho.not_accesses
  | app ht h =>
    cases h with
    | prelude ho => exact absurd ha ho.not_accesses
    | later s1 h1 ho =>
      rw [selectedBackend, if_pos ht]
      exact ⟨ho.session.gpregret.trans h1.gpregret, fun hb => ho.session.retained.trans (h1.wiped hb)⟩
  | boot he ht h =>
    cases h with
    | prelude ho => exact absurd ha ho.not_accesses
    | later s1 h1 ho =>
      rw [selectedBackend, if_neg (by rw [ht]; decide)]
      exact ⟨ho.registers.1.trans h1.gpregret, fun hb => ho.registers.2.trans (h1.wiped hb)⟩

/-- The trigger is only ever cleared. -/
theorem MotaOp.setGpregret {v : Nat} (h : MotaOp env cfg s0 (.setGpregret v) s) : v = 0 := by
  have hcommon : ∀ {P : Nat → Prop} {s1 : Device}, ¬ CommonOp env cfg P s1 (.setGpregret v) s := by
    intro P s1 h
    cases h with
    | closes h ho => exact ho
    | clears h a m hP hc hp hd hmem ho =>
      rcases ho with ho | ⟨-, ho⟩ | ⟨-, -, ho⟩
      · exact ho
      · exact ho
      · cases ho
  cases h with
  | prelude ho => exact ho
  | app ht h =>
    cases h with
    | prelude ho => exact ho
    | later s1 h1 ho =>
      cases ho with
      | common h => exact absurd h hcommon
      | invalidates a m h ho => rcases ho with ho | ho <;> cases ho
      | writes a m h lo hi hws hd ho =>
        rcases ho with ho | ho
        · exact ho.elim
        · cases ho
  | boot he ht h =>
    cases h with
    | prelude ho => exact ho
    | later s1 h1 ho =>
      cases ho with
      | common h => exact absurd h hcommon
      | copies a m raw h hs hp ho => exact ho.elim
      | winds hg hr ho => exact ho.elim

theorem MotaOp.gpregret (h : MotaOp env cfg s0 o s) (hs : s.gpregret = 0) :
    (after env o s).gpregret = 0 := by
  cases o with
  | setGpregret v => exact h.setGpregret
  | settingsCommit r =>
    rw [after_settingsCommit]
    exact hs
  | _ => exact hs

theorem not_recognised_zero (cfg : Profile) : ¬ Recognised cfg 0 := by
  rintro (h | ⟨-, h⟩) <;> cases h

/-- Without a trigger nothing is accessed. -/
theorem idle_accesses_nothing (decoder : Nat → Decoder) (ht : ¬ Recognised cfg s0.gpregret) :
    ∀ x ∈ (otaDeltaCheckAndApply cfg decoder).trace (handler env) s0, ¬ Accesses x.1 :=
  fun x hx => ((otaDeltaCheckAndApply_idle ht decoder).trace x hx).1.not_accesses

/-- No run leaves a trigger behind that a further run would recognise. -/
theorem MotaEnd.not_recognised {r : Bool} (h : MotaEnd env cfg s0 r s) :
    ¬ Recognised cfg s.gpregret := by
  have hzero : s.gpregret = 0 → ¬ Recognised cfg s.gpregret := fun h => h ▸ not_recognised_zero cfg
  cases h with
  | idle ht h hg => exact hg ▸ ht
  | app ht h =>
    cases h with
    | refused h hg => exact hzero hg
    | ended s1 h1 h => exact hzero (h.session.gpregret.trans h1.gpregret)
  | boot he ht h =>
    cases h with
    | refused h hg => exact hzero hg
    | ended s1 h1 h => exact hzero (h.gpregret.trans h1.gpregret)

/-- The clearing of the trigger, and for a card or a hybrid source of its record, precedes
every access. So, whatever is lost behind the first access, and behind every complete run,
an invocation without a new trigger accesses nothing. -/
theorem mota_authorization_oneShot (h : Booted cfg s0) (env : Env) (decoder : Nat → Decoder) :
    (∀ x ∈ (otaDeltaCheckAndApply cfg decoder).trace (handler env) s0, Accesses x.1 →
      x.2.gpregret = 0 ∧ (selectedBackend cfg s0 = .sd ∨ selectedBackend cfg s0 = .hybrid →
        x.2.retained = wipedRecord)) ∧
    (∀ pre x post, (otaDeltaCheckAndApply cfg decoder).trace (handler env) s0 = pre ++ x :: post →
      Accesses x.1 →
      ∀ cut ∈ post.map Prod.snd ++ [((otaDeltaCheckAndApply cfg decoder).run (handler env) s0).2],
      ∀ next env', next.gpregret = cut.gpregret →
      ∀ y ∈ (otaDeltaCheckAndApply cfg decoder).trace (handler env') next, ¬ Accesses y.1) ∧
    (∀ next env', next.gpregret =
        ((otaDeltaCheckAndApply cfg decoder).run (handler env) s0).2.gpregret →
      ∀ y ∈ (otaDeltaCheckAndApply cfg decoder).trace (handler env') next, ¬ Accesses y.1) := by
  have hspec : Sat (handler env) _ _ _ s0 := otaDeltaCheckAndApply_spec h decoder
  refine ⟨fun x hx ha => (hspec.trace x hx).consumed ha, ?_, fun next env' hn => ?_⟩
  · intro pre x post ht ha cut hcut next env' hn
    obtain ⟨hop, q, rfl, hq, hrun⟩ := hspec.suffix ht
    have h0 : (handler env x.1 x.2).2.gpregret = 0 := hop.gpregret (hop.consumed ha).1
    have hkeep := hq.keep (I := fun s => s.gpregret = 0) h0 fun _ _ ho hs => ho.gpregret hs
    refine idle_accesses_nothing decoder ?_
    have hzero : cut.gpregret = 0 := by
      rcases List.mem_append.mp hcut with hc | hc
      · obtain ⟨y, hy, rfl⟩ := List.mem_map.mp hc
        exact (hkeep.trace y hy).2
      · rw [List.mem_singleton.mp hc, ← hrun]
        exact hkeep.result.2
    rw [hn, hzero]
    exact not_recognised_zero cfg
  · refine idle_accesses_nothing decoder ?_
    rw [hn]
    exact hspec.result.not_recognised

/-- A container on the NOR: its run reads the NOR and leaves no trigger. -/
theorem mota_authorization_norRun :
    (∃ x ∈ (otaDeltaCheckAndApply sampleProfile fun _ => .done 0).trace
        (handler (sampleNor sampleBaseHash))
        (sampleDevice sampleProfile otaApply stageQspi []), Accesses x.1) ∧
    ∀ x ∈ (otaDeltaCheckAndApply sampleProfile fun _ => .done 0).trace
        (handler (sampleNor sampleBaseHash))
        (sampleDevice sampleProfile otaApply stageQspi []), Accesses x.1 → x.2.gpregret = 0 := by
  refine ⟨?_, fun x hx ha => ((mota_authorization_oneShot (sampleDevice_booted rfl _ _ _) _ _).1 x hx
    ha).1⟩
  have hany : ((otaDeltaCheckAndApply sampleProfile fun _ => .done 0).trace
      (handler (sampleNor sampleBaseHash))
      (sampleDevice sampleProfile otaApply stageQspi [])).any (fun x => decide (Accesses x.1)) =
        true := by decide +kernel
  obtain ⟨x, hx, ha⟩ := List.any_eq_true.mp hany
  exact ⟨x, hx, of_decide_eq_true ha⟩

/-! ## Rejection -/

theorem after_retained (o : Op) (hs : s.retained = wipedRecord) :
    (after env o s).retained = wipedRecord := by
  cases o with
  | takeRetained => rfl
  | settingsCommit r =>
    rw [after_settingsCommit]
    exact hs
  | _ => exact hs

/-- A record that was read is gone. -/
theorem retained_wiped {α : Type} {p : MotaM α}
    (h : ∃ x ∈ p.trace (handler env) s, x.1 = .takeRetained) :
    (p.run (handler env) s).2.retained = wipedRecord := by
  obtain ⟨⟨o, t⟩, hx, rfl⟩ := h
  obtain ⟨pre, post, ht⟩ := List.append_of_mem hx
  obtain ⟨-, q, -, hq, hrun⟩ := (sat_true (s := s)).suffix ht
  have hkeep := hq.keep (I := fun s => s.retained = wipedRecord) rfl fun o _ _ hs => after_retained o hs
  rw [← hrun]
  exact hkeep.result.2

/-- What a refused update leaves of flash, NOR and trigger. -/
structure Refused (env : Env) (cfg : Profile) (s0 s : Device) : Prop where
  mem : .pageFailed ∉ s.marks → s.mem = s0.mem ∨ ∃ a m, .parsed a m ∈ s.marks ∧
    InWindow (dfuBank0RegionStart s0.mem) a m ∧ s.mem = zeroed m.approvalAddr s0.mem
  nor : norByte env s.nor = env.qspiByte ∨ norByte env s.nor = zeroed approvalOffset env.qspiByte
  gpregret : Recognised cfg s0.gpregret → s.gpregret = 0

theorem Preluded.refused (h : Preluded s0 s) (hn : s0.nor = [])
    (hg : Recognised cfg s0.gpregret → s.gpregret = 0) : Refused env cfg s0 s := by
  refine ⟨fun _ => .inl h.mem, .inl ?_, hg⟩
  rw [h.nor, hn]
  rfl

/-- The NOR with the approval of its container cleared. -/
theorem norByte_approval (env : Env) :
    norByte env [(approvalOffset, [0, 0, 0, 0])] = zeroed approvalOffset env.qspiByte := by
  have ho : approvalOffset = 201 := rfl
  funext x
  simp only [norByte, zeroed, List.foldl_cons, List.foldl_nil, List.length_cons, List.length_nil]
  split_ifs with hx
  · have : x - approvalOffset = 0 ∨ x - approvalOffset = 1 ∨ x - approvalOffset = 2 ∨
        x - approvalOffset = 3 := by omega
    rcases this with h | h | h | h <;> rw [h] <;> exact BitVec.and_zero
  · rfl

theorem Rejected.refused {b : Backend} {purpose formatVer : Byte} (h : Rejected cfg s1 s)
    (h1 : Selected env cfg s0 b purpose formatVer s1) (hn : s0.nor = []) :
    Refused env cfg s0 s where
  mem hf := by
    rw [← h1.mem]
    exact (h.kept hf).imp id fun ⟨a, m, hp, _, hw, hz⟩ => ⟨a, m, hp, hw, hz⟩
  nor := by
    rcases h.nor with heq | ⟨-, -, heq⟩
    · left
      rw [heq, h1.nor, hn]
      rfl
    · right
      rw [heq, h1.nor, hn, List.nil_append]
      exact norByte_approval env
  gpregret _ := h.session.gpregret.trans h1.gpregret

theorem MotaEnd.refused (h : MotaEnd env cfg s0 false s) (hn : s0.nor = []) (hc : .commit ∉ s.marks) :
    Refused env cfg s0 s := by
  cases h with
  | idle ht h hg => exact h.refused hn fun hr => absurd hr ht
  | app ht h =>
    cases h with
    | refused h hg => exact h.refused hn fun _ => hg
    | ended s1 h1 h => exact ((h.rejected rfl).resolve_left hc).refused h1 hn
  | boot he ht h =>
    cases h with
    | refused h hg => exact h.refused hn fun _ => hg
    | ended s1 h1 h => exact ((h.rejected rfl).resolve_left hc).refused h1 hn

/-- A run that returns false before its commit point, where no page fails all of its
attempts, leaves the flash and the NOR as they were up to the four approval bytes of the
container it found. The trigger is consumed, and so is the record if it was read. -/
theorem mota_rejected_unchanged (h : Booted cfg s0) (env : Env) (decoder : Nat → Decoder)
    (hr : ((otaDeltaCheckAndApply cfg decoder).run (handler env) s0).1 = false)
    (hc : .commit ∉ ((otaDeltaCheckAndApply cfg decoder).run (handler env) s0).2.marks)
    (hf : .pageFailed ∉ ((otaDeltaCheckAndApply cfg decoder).run (handler env) s0).2.marks) :
    let s := ((otaDeltaCheckAndApply cfg decoder).run (handler env) s0).2
    (s.mem = s0.mem ∨ ∃ a m, .parsed a m ∈ s.marks ∧ InWindow (dfuBank0RegionStart s0.mem) a m ∧
      s.mem = zeroed m.approvalAddr s0.mem) ∧
    (norByte env s.nor = env.qspiByte ∨ norByte env s.nor = zeroed approvalOffset env.qspiByte) ∧
    (Recognised cfg s0.gpregret → s.gpregret = 0) ∧
    ((∃ x ∈ (otaDeltaCheckAndApply cfg decoder).trace (handler env) s0, x.1 = .takeRetained) →
      s.retained = wipedRecord) := by
  have hspec : Sat (handler env) _ _ _ s0 := otaDeltaCheckAndApply_spec h decoder
  have hend := hspec.result
  rw [hr] at hend
  have hrefused := hend.refused h.nor hc
  exact ⟨hrefused.mem hf, hrefused.nor, hrefused.gpregret, retained_wiped⟩

/-- A run on a container for another application. -/
def staleRun : Bool × Device :=
  (otaDeltaCheckAndApply sampleProfile fun _ => .done 0).run (handler (sampleNor (List.replicate 8 0)))
    (sampleDevice sampleProfile otaApply stageQspi [])

/-- It is refused, and its approval is gone. -/
theorem mota_rejected_staleRun : staleRun.1 = false ∧ staleRun.2.mem = sampleFlash ∧
    norByte (sampleNor (List.replicate 8 0)) staleRun.2.nor =
      zeroed approvalOffset (sampleNor (List.replicate 8 0)).qspiByte ∧ staleRun.2.gpregret = 0 := by
  have hb : Booted sampleProfile (sampleDevice sampleProfile otaApply stageQspi []) :=
    sampleDevice_booted rfl _ _ _
  have hrun : staleRun.1 = false ∧ .commit ∉ staleRun.2.marks ∧ .pageFailed ∉ staleRun.2.marks ∧
      norByte (sampleNor (List.replicate 8 0)) staleRun.2.nor 201 = 0 ∧ (staleRun.2.marks.all fun e =>
        match e with
        | .parsed a _ => a == 1
        | _ => true) = true := by decide +kernel
  obtain ⟨hfalse, hcommit, hfailed, h201, hone⟩ := hrun
  unfold staleRun at *
  obtain ⟨hmem, hnor, hzero, -⟩ := mota_rejected_unchanged hb (sampleNor (List.replicate 8 0))
    (fun _ => .done 0) hfalse hcommit hfailed
  refine ⟨hfalse, hmem.resolve_right fun ⟨a, m, hp, hw, _⟩ => ?_,
    hnor.resolve_left fun heq => ?_, hzero (.inl rfl)⟩
  · have ha : a = 1 := by simpa using List.all_eq_true.mp hone _ hp
    have hal := hw.aligned
    rw [ha] at hal
    cases hal
  · have h0 : (sampleNor (List.replicate 8 0)).qspiByte 201 = 0 := (congrFun heq 201).symm.trans h201
    exact absurd h0 (by decide)

end OtaFix.Mota
