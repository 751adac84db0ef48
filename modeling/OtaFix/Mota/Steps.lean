import OtaFix.Mota.Writes

/-!
# Operations of an update

What either kind of update does around its commit point. Behind `s1`, the state
in which the source is selected and its record consumed, every operation but the
writes of a commit is one of `CommonOp`: a read of that source, a result code, the
release of a peripheral, or the clearing of the approval of the container found.
-/

namespace OtaFix.Mota

open Lib Prog

variable {env : Env} {cfg : Profile} {α : Type} {s s' s'' s0 s1 : Device} {a : Nat} {m : MotaMin}
  {P : Nat → Prop}

/-! ## Reads, result codes and releases -/

/-- An operation that changes at most the result code. -/
def Closes (cfg : Profile) (o : Op) (s : Device) : Prop :=
  match o with
  | .setGpregret2 _ | .sdDeinit | .qspiDeinit => True
  | o => Reads cfg o s

theorem Reads.closes {o : Op} (h : Reads cfg o s) : Closes cfg o s := by
  cases o with
  | setGpregret2 | sdDeinit | qspiDeinit => trivial
  | _ => exact h

/-- At most the result code has changed. -/
structure Quiet (s s' : Device) : Prop where
  mem : s'.mem = s.mem
  ops : s'.ops = s.ops
  gpregret : s'.gpregret = s.gpregret
  retained : s'.retained = s.retained
  nor : s'.nor = s.nor
  marks : s'.marks = s.marks
  mbr : s'.mbr = s.mbr
  source : KeepsSource s.statics s'.statics
  cache : KeepsCache s.statics s'.statics

theorem Still.quiet (h : Still s s') : Quiet s s' :=
  ⟨h.mem, h.ops, h.gpregret, h.retained, h.nor, h.marks, h.mbr, h.source, h.cache⟩

theorem Quiet.refl (s : Device) : Quiet s s := (Still.refl s).quiet

theorem Quiet.trans (h : Quiet s s') (h' : Quiet s' s'') : Quiet s s'' where
  mem := h'.mem.trans h.mem
  ops := h'.ops.trans h.ops
  gpregret := h'.gpregret.trans h.gpregret
  retained := h'.retained.trans h.retained
  nor := h'.nor.trans h.nor
  marks := h'.marks.trans h.marks
  mbr := h'.mbr.trans h.mbr
  source := h.source.trans h'.source
  cache := ⟨h'.cache.1.trans h.cache.1, h'.cache.2.trans h.cache.2, h'.cache.3.trans h.cache.3⟩

theorem quiet_after (env : Env) {o : Op} (h : Closes cfg o s) : Quiet s (after env o s) := by
  cases o with
  | setGpregret2 | sdDeinit | qspiDeinit =>
    exact ⟨rfl, by simp [after, nvOps], rfl, rfl, rfl, rfl, rfl, .refl _, .refl _⟩
  | _ => exact Still.quiet (still_after (show Reads cfg _ s by exact h))

/-- A closing program leaves the state quiet, at every operation and at its end. -/
theorem sat_quiet {p : MotaM α} {Q : α → Device → Prop}
    (h : p.Sat (handler env) (Closes cfg) Q s) :
    p.Sat (handler env) (fun o t => Closes cfg o t ∧ Quiet s t) (fun x s' => Q x s' ∧ Quiet s s') s :=
  h.keep (.refl s) fun _ _ ho hs => hs.trans (quiet_after env ho)

/-- An operation on the registers, the retained record and the variables; of the
registers, `GPREGRET` is only cleared. -/
def Preludes : Op → Prop
  | .get | .set _ | .gpregret | .gpregret2 | .setGpregret2 _ | .takeRetained | .resetreas | .view
  | .qspiSetRakSource _ | .sdDeinit | .qspiDeinit => True
  | .setGpregret v => v = 0
  | _ => False

/-- Flash and media are as they were, and no point of the run has been marked. -/
structure Preluded (s0 s : Device) : Prop where
  mem : s.mem = s0.mem
  ops : s.ops = s0.ops
  nor : s.nor = s0.nor
  marks : s.marks = s0.marks
  mbr : s.mbr = s0.mbr

theorem Preluded.refl (s : Device) : Preluded s s := ⟨rfl, rfl, rfl, rfl, rfl⟩

theorem Preluded.trans (h : Preluded s0 s) (h' : Preluded s s') : Preluded s0 s' :=
  ⟨h'.mem.trans h.mem, h'.ops.trans h.ops, h'.nor.trans h.nor, h'.marks.trans h.marks,
    h'.mbr.trans h.mbr⟩

theorem preluded_after (env : Env) {o : Op} (h : Preludes o) : Preluded s (after env o s) := by
  cases o with
  | get | set | gpregret | gpregret2 | setGpregret | setGpregret2 | takeRetained | resetreas | view
  | qspiSetRakSource | sdDeinit | qspiDeinit =>
    exact ⟨rfl, by simp [after, nvOps], rfl, rfl, rfl⟩
  | _ => exact h.elim

/-- The end of every run: no more than its closing operations. -/
theorem finishApply_spec (result : Bool) :
    (finishApply cfg result).Sat (handler env) (fun o s => Closes cfg o s ∧ Preludes o)
      (fun r _ => r = result) s := by
  have hlast : ∀ g s1, (do
      if cfg.qspiSelected g then otaQspiDeinit
      return result : MotaM Bool).Sat (handler env) (fun o s => Closes cfg o s ∧ Preludes o)
      (fun r _ => r = result) s1 := by
    intro g s1
    by_cases hq : cfg.qspiSelected g = true
    · rw [if_pos hq]
      exact sat_op.mpr ⟨⟨trivial, trivial⟩, rfl⟩
    · rw [if_neg hq]
      rfl
  refine sat_get.mpr ⟨⟨trivial, trivial⟩, ?_⟩
  simp only
  by_cases hsd : (cfg.sdCard && (if cfg.rakSdStore = true then s.statics.sdActive
      else s.statics.sdSource)) = true
  · rw [if_pos hsd]
    refine sat_op.mpr ⟨⟨trivial, trivial⟩, ?_⟩
    by_cases hrak : cfg.rakSdStore = true
    · rw [if_pos hrak]
      refine sat_get.mpr ⟨⟨trivial, trivial⟩, sat_op.mpr ⟨⟨?_, trivial⟩, hlast _ _⟩⟩
      exact ⟨⟨rfl, rfl, rfl, rfl, rfl⟩, rfl, rfl, rfl⟩
    · rw [if_neg hrak]
      exact hlast _ _
  · rw [if_neg hsd]
    exact hlast _ _

theorem failApply_spec (result : Nat) :
    (failApply cfg result).Sat (handler env) (fun o s => Closes cfg o s ∧ Preludes o)
      (fun r _ => r = false) s :=
  sat_op.mpr ⟨⟨trivial, trivial⟩, finishApply_spec false⟩

theorem finishApply_closes (result : Bool) :
    (finishApply cfg result).Sat (handler env) (Closes cfg) (fun r _ => r = result) s :=
  (finishApply_spec result).mono (fun _ _ h => h.1) fun _ _ h => h

theorem failApply_closes (result : Nat) :
    (failApply cfg result).Sat (handler env) (Closes cfg) (fun r _ => r = false) s :=
  (failApply_spec result).mono (fun _ _ h => h.1) fun _ _ h => h

/-! ## The container of an update -/

/-- Later than `s1` in one update: the selection stands, and nothing consumed is back. -/
structure Session (s1 s : Device) : Prop where
  source : KeepsSource s1.statics s.statics
  gpregret : s.gpregret = s1.gpregret
  retained : s.retained = s1.retained

theorem Session.refl (s : Device) : Session s s := ⟨.refl _, rfl, rfl⟩

theorem Session.quiet (h : Session s1 s) (hq : Quiet s s') : Session s1 s' :=
  ⟨h.source.trans hq.source, hq.gpregret.trans h.gpregret, hq.retained.trans h.retained⟩

theorem Session.touched {lo hi : Nat} (h : Session s1 s) (ht : Touched lo hi s s') : Session s1 s' :=
  ⟨h.source.trans ht.source, ht.gpregret.trans h.gpregret, ht.retained.trans h.retained⟩

/-- A container in internal flash, or the flash prefix of a hybrid one. -/
structure InWindow (base a : Nat) (m : MotaMin) : Prop where
  aligned : a % codePageSize = 0
  base_le : base ≤ a
  page_le : a + codePageSize ≤ stageCeilingExpanded
  approvalAddr : m.approvalAddr = a + approvalOffset

/-- The container is staged in internal flash, wholly or in part. -/
def FlashStaged (cfg : Profile) (g : Statics) : Prop :=
  cfg.sdSelected g = false ∧ cfg.qspiSelected g = false

theorem FlashStaged.keeps {g g' : Statics} (h : FlashStaged cfg g) (hk : KeepsSource g g') :
    FlashStaged cfg g' := ⟨(hk.sdSelected cfg).trans h.1, (hk.qspiSelected cfg).trans h.2⟩

/-- The container `m` at `a` is the one this update found, and its approval is set. -/
structure Chosen (env : Env) (cfg : Profile) (s1 : Device) (a : Nat) (m : MotaMin) : Prop where
  approved : m.approved = true
  imageSize_lt : m.imageSize < 2 ^ 32
  /-- The payload ends below the wrap of addresses. -/
  payload : m.payloadAddr + m.payloadSize < 2 ^ 32
  window : FlashStaged cfg s1.statics → InWindow (dfuBank0RegionStart s1.mem) a m
  nor : cfg.sdSelected s1.statics = false → cfg.qspiSelected s1.statics = true →
    m.approvalAddr = approvalOffset
  sd : cfg.sdSelected s1.statics = true →
    a = 1 ∧ s1.statics.sdAuthLoaded = true ∧ m.total = s1.statics.sdAuth.containerTotal ∧
    (env.Stable → containerAt cfg (sourceByte env cfg s1) 0 m.total = some m)
  hybrid : cfg.sdSelected s1.statics = false → cfg.hybridSelected s1.statics = true →
    a = s1.statics.hybrid.flashStart ∧ m.total = s1.statics.hybrid.containerTotal ∧
    (env.Stable → containerAt cfg (sourceByte env cfg s1) a (a + m.total) = some m) ∧
    (env.Stable → sha256 (hashed (some (a + approvalOffset)) (sourceByte env cfg s1) a m.total) =
      s1.statics.hybrid.containerSha256)

/-- An operation that clears the approval of the container. -/
def Clears (cfg : Profile) (a : Nat) (m : MotaMin) (o : Op) (s : Device) : Prop :=
  Reads cfg o s ∨ (FlashStaged cfg s.statics ∧ Writes cfg a (a + codePageSize) o s) ∨
    (cfg.sdSelected s.statics = false ∧ cfg.qspiSelected s.statics = true ∧
      o = .qspiWrite m.approvalAddr [0, 0, 0, 0])

/-- `P` restricts where a container may lie. -/
inductive CommonOp (env : Env) (cfg : Profile) (P : Nat → Prop) (s1 : Device) :
    Op → Device → Prop where
  | closes {o : Op} {s : Device} (h : Session s1 s) (ho : Closes cfg o s) : CommonOp env cfg P s1 o s
  /-- `scan_mota` has found a container. -/
  | parsed {s : Device} (h : Session s1 s) (a : Nat) (m : MotaMin) (ceiling : Nat)
      (hl : Located env cfg s1.statics (sourceByte env cfg s1) (dfuBank0RegionStart s1.mem) ceiling
        a m) : CommonOp env cfg P s1 (.mark (.parsed a m)) s
  | clears {o : Op} {s : Device} (h : Session s1 s) (a : Nat) (m : MotaMin)
      (hP : P a) (hc : Chosen env cfg s1 a m) (hp : .parsed a m ∈ s.marks)
      (hd : ∀ lo hi, .decode lo hi ∉ s.marks)
      (hmem : ∀ x, x < a ∨ a + codePageSize ≤ x → s.mem x = s1.mem x) (ho : Clears cfg a m o s) :
      CommonOp env cfg P s1 o s

theorem sat_common {p : MotaM α} {Q : α → Device → Prop} (hs : Session s1 s)
    (h : p.Sat (handler env) (Closes cfg) Q s) :
    p.Sat (handler env) (CommonOp env cfg P s1) (fun x s' => Q x s' ∧ Quiet s s') s :=
  (sat_quiet h).mono (fun _ _ h => .closes (hs.quiet h.2) h.1) fun _ _ h => h

theorem sat_reads {p : MotaM α} {Q : α → Device → Prop} (hs : Session s1 s)
    (h : p.Sat (handler env) (Reads cfg) Q s) :
    p.Sat (handler env) (CommonOp env cfg P s1) (fun x s' => Q x s' ∧ Quiet s s') s :=
  sat_common hs (h.mono (fun _ _ h => h.closes) fun _ _ h => h)

/-- The flash with the four approval bytes at `at'` cleared. -/
def zeroed (at' : Nat) (mem : Mem) : Mem := fun x => if at' ≤ x ∧ x < at' + 4 then 0 else mem x

/-- The outcome of clearing the approval. -/
structure Cleared (cfg : Profile) (a : Nat) (m : MotaMin) (s : Device) (r : Bool) (s' : Device) :
    Prop where
  session : Session s s'
  mem_out : ∀ x, x < a ∨ a + codePageSize ≤ x → s'.mem x = s.mem x
  /-- Where no page fails, at most the four bytes change. -/
  kept : r = true ∨ .pageFailed ∉ s'.marks → s'.mem = s.mem ∨
    (FlashStaged cfg s.statics ∧ s'.mem = zeroed m.approvalAddr s.mem)
  nor : s'.nor = s.nor ∨ (cfg.sdSelected s.statics = false ∧ cfg.qspiSelected s.statics = true ∧
    s'.nor = s.nor ++ [(m.approvalAddr, [0, 0, 0, 0])])
  external : ¬ FlashStaged cfg s.statics → s'.mem = s.mem
  marks : ∀ e ∈ s.marks, e ∈ s'.marks
  marks_eq : r = true → s'.marks = s.marks
  length : s'.statics.cache.length = codePageSize
  cachePage : r = true → s'.statics.cachePage = 0

/-- The cache is empty, as it is until the approval is cleared. -/
structure CacheEmpty (g : Statics) : Prop where
  length : g.cache.length = codePageSize
  page : g.cachePage = 0

theorem CacheEmpty.keeps {g g' : Statics} (h : CacheEmpty g) (hk : KeepsCache g g') : CacheEmpty g' :=
  ⟨hk.cache ▸ h.length, hk.cachePage.trans h.page⟩

theorem CacheEmpty.cacheIn {g : Statics} (h : CacheEmpty g) (lo hi : Nat) : CacheIn lo hi g :=
  ⟨h.length, fun hp => absurd h.page hp⟩

/-- The approval in flash: its page is rewritten with the four bytes cleared. -/
theorem clearFlash_spec {base : Nat} (hw : InWindow base a m) (hpos : 0 < a) (hempty : CacheEmpty s.statics)
    (hst : FlashStaged cfg s.statics) :
    (do
      let ok ← cwrite m.approvalAddr [0, 0, 0, 0]
      if !ok then return false else cacheFlush : MotaM Bool).Sat (handler env)
      (Writes cfg a (a + codePageSize)) (Cleared cfg a m s) s := by
  have hp : codePageSize = 0x1000 := rfl
  have he : stageCeilingExpanded = 0xED000 := rfl
  have ho : approvalOffset = 201 := rfl
  have hal := hw.aligned
  have hle := hw.page_le
  have happ := hw.approvalAddr
  have hws : Pages a (a + codePageSize) :=
    ⟨hpos, hal, by rw [Nat.add_mod_right]; exact hal, by omega⟩
  have hin : CacheIn a (a + codePageSize) s.statics := hempty.cacheIn _ _
  have hclean : Clean s := fun h => absurd hempty.page h
  have hview : cacheView s = s.mem := by
    funext x
    simp [cacheView, hempty.page]
  have hfail : ∀ s', Verified a (a + codePageSize) s false s' → Cleared cfg a m s false s' := by
    intro s' h
    refine ⟨(Session.refl s).touched h.touched, h.touched.mem, fun hk => ?_, .inl h.touched.nor,
      fun hn => absurd hst hn, fun e he => h.touched.marks_subset he, (fun h => by cases h),
      (h.touched.cache hin).length, (fun h => by cases h)⟩
    exact (hk.resolve_left (fun h => by cases h) (h.failed rfl)).elim
  refine Sat.bindVerified (cwriteLoop_spec hws _ (Nat.le_refl _) (by omega)
    (by simp only [List.length_cons, List.length_nil]; omega) hin) (fun s1 h1 => hfail s1 h1.1)
    fun s1 h1 => ?_
  obtain ⟨hclean1, hview1⟩ := h1.2 rfl hclean
  refine (cacheFlush_spec (h1.1.touched.cache hin)).post fun r s2 h2 => ?_
  have h12 := h1.1.trans h2.1
  cases r with
  | false => exact hfail s2 h12
  | true =>
    obtain ⟨hpage, hmem⟩ := h2.2 rfl
    refine ⟨(Session.refl s).touched h12.touched, h12.touched.mem, fun _ => .inr ⟨hst, ?_⟩,
      .inl h12.touched.nor, fun hn => absurd hst hn, fun e he => h12.touched.marks_subset he,
      h12.marks, (h12.touched.cache hin).length, fun _ => hpage⟩
    rw [hmem hclean1, hview1, hview]
    funext x
    unfold overlay zeroed
    split_ifs with hx hx' hx'
    · have : x - m.approvalAddr = 0 ∨ x - m.approvalAddr = 1 ∨ x - m.approvalAddr = 2 ∨
          x - m.approvalAddr = 3 := by omega
      rcases this with h | h | h | h <;> rw [h] <;> rfl
    · exact absurd hx hx'
    · exact absurd hx' hx
    · rfl

/-- An external approval leaves the flash alone. -/
theorem Cleared.external_of (hempty : CacheEmpty s.statics) (hmem : s'.mem = s.mem)
    (hst : s'.statics = s.statics) (hg : s'.gpregret = s.gpregret) (hr : s'.retained = s.retained) (hm : s'.marks = s.marks)
    (hn : s'.nor = s.nor ∨ (cfg.sdSelected s.statics = false ∧ cfg.qspiSelected s.statics = true ∧
      s'.nor = s.nor ++ [(m.approvalAddr, [0, 0, 0, 0])])) (r : Bool) : Cleared cfg a m s r s' where
  session := ⟨hst ▸ .refl _, hg, hr⟩
  mem_out x _ := by rw [hmem]
  kept _ := .inl hmem
  nor := hn
  external _ := hmem
  marks e he := hm ▸ he
  marks_eq _ := hm
  length := hst ▸ hempty.length
  cachePage _ := hst ▸ hempty.page

theorem Cleared.quiet_left {r : Bool} (hq : Quiet s s') (h : Cleared cfg a m s' r s'') :
    Cleared cfg a m s r s'' where
  session := ⟨hq.source.trans h.session.source, h.session.gpregret.trans hq.gpregret,
    h.session.retained.trans hq.retained⟩
  mem_out x hx := (h.mem_out x hx).trans (by rw [hq.mem])
  kept hk := by
    rcases h.kept hk with heq | ⟨hst, hz⟩
    · exact .inl (heq.trans hq.mem)
    · exact .inr ⟨hst.keeps hq.source.symm, hq.mem ▸ hz⟩
  nor := by
    rcases h.nor with heq | ⟨h1, h2, h3⟩
    · exact .inl (heq.trans hq.nor)
    · exact .inr ⟨(hq.source.sdSelected cfg).symm.trans h1,
        (hq.source.qspiSelected cfg).symm.trans h2, by rw [h3, hq.nor]⟩
  external hx := (h.external fun hst => hx ⟨(hq.source.sdSelected cfg).symm.trans hst.1,
    (hq.source.qspiSelected cfg).symm.trans hst.2⟩).trans hq.mem
  marks e he := h.marks e (hq.marks ▸ he)
  marks_eq hr := (h.marks_eq hr).trans hq.marks
  length := h.length
  cachePage := h.cachePage

theorem clearApproval_spec (hs : Session s1 s) (hP : P a) (hc : Chosen env cfg s1 a m)
    (hp : .parsed a m ∈ s.marks) (hd : ∀ lo hi, .decode lo hi ∉ s.marks) (hmem : s.mem = s1.mem)
    (hempty : CacheEmpty s.statics) (hbase : 0 < dfuBank0RegionStart s1.mem) :
    (clearApproval cfg m).Sat (handler env) (CommonOp env cfg P s1) (Cleared cfg a m s) s := by
  have hread : Reads cfg .get s := trivial
  have hget : Quiet s (after env .get s) := (still_after hread).quiet
  have hs' : Session s1 (after env .get s) := hs.quiet hget
  refine sat_get.mpr ⟨.closes hs hread.closes, ?_⟩
  split_ifs with hsd hq
  · show Cleared cfg a m s true (after env .get s)
    refine .external_of hempty ?_ ?_ ?_ ?_ ?_ ?_ true
    any_goals rfl
    exact .inl rfl
  · rw [Bool.not_eq_true] at hsd
    have ho : Clears cfg a m (.qspiWrite m.approvalAddr [0, 0, 0, 0]) (after env .get s) :=
      .inr (.inr ⟨hsd, hq, rfl⟩)
    refine sat_perform.mpr ⟨.clears hs' a m hP hc hp hd (fun x _ => by rw [hget.mem, hmem]) ho, ?_⟩
    refine .external_of hempty ?_ ?_ ?_ ?_ ?_ ?_ _
    any_goals rfl
    by_cases hw : (env.qspiWrite (after env .get s).tick).1 = true
    · exact .inr ⟨hsd, hq, if_pos hw⟩
    · exact .inl (if_neg hw)
  · rw [Bool.not_eq_true] at hsd hq
    have hst : FlashStaged cfg (after env .get s).statics := ⟨hsd, hq⟩
    have hwin := hc.window (hst.keeps hs'.source.symm)
    have hpos : 0 < a := Nat.lt_of_lt_of_le hbase hwin.base_le
    have hclear : Sat (handler env) _ _ _ _ :=
      clearFlash_spec (s := after env .get s) hwin hpos hempty hst
    refine ((hclear.keep (Touched.refl _) fun o t ho ht => ht.trans (touched_after ho)).mono
      (fun o t h => ?_) fun r s' h => h.1.quiet_left hget)
    obtain ⟨hw, ht⟩ := h
    refine .clears (hs'.touched ht) a m hP hc (ht.marks_subset hp) (fun lo hi hm => ?_)
      (fun x hx => ?_) (.inr (.inl ⟨hst.keeps ht.source, hw⟩))
    · have hne : Mark.decode lo hi ≠ .pageFailed := nofun
      exact hd lo hi ((ht.mem_marks hne nofun).mp hm)
    · rw [ht.mem x hx, hget.mem, hmem]

/-! ## Search and rejection -/

/-- What `scan_mota` leaves: a container is marked, nothing else has changed. -/
structure Scanned (env : Env) (cfg : Profile) (ceiling : Nat) (s : Device) (r : Option (Nat × MotaMin))
    (s' : Device) : Prop where
  session : Session s s'
  mem : s'.mem = s.mem
  nor : s'.nor = s.nor
  cache : KeepsCache s.statics s'.statics
  marks : s'.marks = s.marks ++ (r.map fun p => Mark.parsed p.1 p.2).toList
  located : ∀ a m, r = some (a, m) →
    Located env cfg s.statics (sourceByte env cfg s) (dfuBank0RegionStart s.mem) ceiling a m

theorem scanMota_spec (ceiling : Nat) (hs : Session s1 s) (hm : s.mem = s1.mem)
    (hn : s.nor = s1.nor) : (scanMota cfg ceiling).Sat (handler env) (CommonOp env cfg P s1)
      (Scanned env cfg ceiling s) s := by
  refine (sat_reads hs (scanSource_spec ceiling)).bind fun r s' h => ?_
  obtain ⟨⟨hl, -⟩, hq⟩ := h
  cases r with
  | none =>
    exact ⟨(Session.refl s).quiet hq, hq.mem, hq.nor, hq.cache, by simp [hq.marks], nofun⟩
  | some p =>
    have hmark : Session s (after env (.mark (.parsed p.1 p.2)) s') :=
      ⟨hq.source, hq.gpregret, hq.retained⟩
    have hloc : Located env cfg s1.statics (sourceByte env cfg s1) (dfuBank0RegionStart s1.mem)
        ceiling p.1 p.2 := by
      rw [← hs.source.sourceByte hm hn, ← hm]
      exact (hl p.1 p.2 rfl).keeps hs.source.symm
    refine sat_op.mpr ⟨.parsed (hs.quiet hq) p.1 p.2 ceiling hloc, hmark, hq.mem, hq.nor, hq.cache, ?_, hl⟩
    change s'.marks ++ _ = _
    rw [hq.marks]
    rfl

/-- A rejection: where no page fails, at most the approval has been cleared. -/
structure Rejected (cfg : Profile) (s1 s : Device) : Prop where
  session : Session s1 s
  kept : .pageFailed ∉ s.marks → s.mem = s1.mem ∨ ∃ a m, .parsed a m ∈ s.marks ∧
    FlashStaged cfg s1.statics ∧ InWindow (dfuBank0RegionStart s1.mem) a m ∧
    s.mem = zeroed m.approvalAddr s1.mem
  external : ¬ FlashStaged cfg s1.statics → s.mem = s1.mem
  nor : s.nor = s1.nor ∨ (cfg.sdSelected s1.statics = false ∧
    cfg.qspiSelected s1.statics = true ∧ s.nor = s1.nor ++ [(approvalOffset, [0, 0, 0, 0])])

theorem Rejected.quiet (h : Rejected cfg s1 s) (hq : Quiet s s') : Rejected cfg s1 s' where
  session := h.session.quiet hq
  kept hf := by
    rw [hq.mem, hq.marks]
    exact h.kept (hq.marks ▸ hf)
  external hx := hq.mem.trans (h.external hx)
  nor := hq.nor ▸ h.nor

/-- Before the approval is touched, nothing has changed. -/
theorem rejected_of_same (hs : Session s1 s) (hm : s.mem = s1.mem) (hn : s.nor = s1.nor) :
    Rejected cfg s1 s := ⟨hs, fun _ => .inl hm, fun _ => hm, .inl hn⟩

theorem Cleared.rejected {r : Bool} (h : Cleared cfg a m s r s') (hs : Session s1 s)
    (hc : Chosen env cfg s1 a m) (hp : .parsed a m ∈ s.marks) (hm : s.mem = s1.mem)
    (hn : s.nor = s1.nor) : Rejected cfg s1 s' where
  session := ⟨hs.source.trans h.session.source, h.session.gpregret.trans hs.gpregret,
    h.session.retained.trans hs.retained⟩
  kept hf := by
    rcases h.kept (.inr hf) with heq | ⟨hst, hz⟩
    · exact .inl (heq.trans hm)
    · have hst1 := hst.keeps hs.source.symm
      exact .inr ⟨a, m, h.marks _ hp, hst1, hc.window hst1, hm ▸ hz⟩
  external hx := (h.external fun hst => hx (hst.keeps hs.source.symm)).trans hm
  nor := by
    rcases h.nor with heq | ⟨h1, h2, h3⟩
    · exact .inl (heq.trans hn)
    · have h1' := (hs.source.sdSelected cfg).symm.trans h1
      have h2' := (hs.source.qspiSelected cfg).symm.trans h2
      exact .inr ⟨h1', h2', by rw [h3, hn, hc.nor h1' h2']⟩

theorem failApply_common (hs : Session s1 s) (result : Nat) :
    (failApply cfg result).Sat (handler env) (CommonOp env cfg P s1)
      (fun r s' => r = false ∧ Quiet s s') s := sat_common hs (failApply_closes result)

/-- The state of an update that has found its container and changed nothing. -/
structure Found (env : Env) (cfg : Profile) (P : Nat → Prop) (s1 : Device) (a : Nat) (m : MotaMin)
    (s : Device) : Prop where
  session : Session s1 s
  slot : P a
  chosen : Chosen env cfg s1 a m
  parsed : .parsed a m ∈ s.marks
  mem : s.mem = s1.mem
  nor : s.nor = s1.nor
  empty : CacheEmpty s.statics
  base_pos : 0 < dfuBank0RegionStart s1.mem
  undecoded : ∀ lo hi, .decode lo hi ∉ s.marks

theorem Found.quiet (h : Found env cfg P s1 a m s) (hq : Quiet s s') : Found env cfg P s1 a m s' where
  session := h.session.quiet hq
  slot := h.slot
  chosen := h.chosen
  parsed := hq.marks ▸ h.parsed
  mem := hq.mem.trans h.mem
  nor := hq.nor.trans h.nor
  empty := h.empty.keeps hq.cache
  base_pos := h.base_pos
  undecoded lo hi := hq.marks ▸ h.undecoded lo hi

theorem Found.sourceByte (h : Found env cfg P s1 a m s) :
    sourceByte env cfg s = sourceByte env cfg s1 :=
  h.session.source.sourceByte h.mem h.nor

theorem Found.clearApproval (h : Found env cfg P s1 a m s) :
    (clearApproval cfg m).Sat (handler env) (CommonOp env cfg P s1) (Cleared cfg a m s) s :=
  clearApproval_spec h.session h.slot h.chosen h.parsed h.undecoded h.mem h.empty h.base_pos

theorem Found.rejected (h : Found env cfg P s1 a m s) : Rejected cfg s1 s :=
  rejected_of_same h.session h.mem h.nor

theorem Found.cleared {r : Bool} (h : Found env cfg P s1 a m s) (hc : Cleared cfg a m s r s') :
    Rejected cfg s1 s' := hc.rejected h.session h.chosen h.parsed h.mem h.nor

/-- The end of a rejection, behind the clearing of the approval. -/
theorem Rejected.close (h : Rejected cfg s1 s) (cleared : Bool) (code : Nat) :
    (do
      if !cleared then gpregret2Set code
      finishApply cfg false : MotaM Bool).Sat (handler env) (CommonOp env cfg P s1)
      (fun r s' => r = false ∧ Rejected cfg s1 s') s := by
  have hfinish : ∀ s, Rejected cfg s1 s → (finishApply cfg false).Sat (handler env)
      (CommonOp env cfg P s1) (fun r s' => r = false ∧ Rejected cfg s1 s') s := fun s h =>
    (sat_common h.session (finishApply_closes false)).post fun r s' h' => ⟨h'.1, h.quiet h'.2⟩
  cases cleared with
  | true => exact hfinish s h
  | false =>
    have hc : Closes cfg (.setGpregret2 code) s := trivial
    exact sat_op.mpr ⟨.closes h.session hc, hfinish _ (h.quiet (quiet_after env hc))⟩

theorem rejectApply_spec (h : Found env cfg P s1 a m s) (code : Nat) :
    (rejectApply cfg m code).Sat (handler env) (CommonOp env cfg P s1)
      (fun r s' => r = false ∧ Rejected cfg s1 s') s := by
  have hc : Closes cfg (.setGpregret2 code) s := trivial
  have hfound := h.quiet (quiet_after env hc)
  refine sat_op.mpr ⟨.closes h.session hc, ?_⟩
  exact hfound.clearApproval.bind fun r s2 h2 => (hfound.cleared h2).close r 0xBC

theorem bootUpdateReject_spec (h : Found env cfg P s1 a m s) (code : Nat) :
    (bootUpdateReject cfg m code).Sat (handler env) (CommonOp env cfg P s1)
      (fun r s' => r = false ∧ Rejected cfg s1 s') s := by
  have hc : Closes cfg (.setGpregret2 code) s := trivial
  have hfound := h.quiet (quiet_after env hc)
  refine sat_op.mpr ⟨.closes h.session hc, ?_⟩
  simp only
  rw [if_pos h.chosen.approved]
  exact hfound.clearApproval.bind fun r s2 h2 => (hfound.cleared h2).close r blApproval

end OtaFix.Mota
