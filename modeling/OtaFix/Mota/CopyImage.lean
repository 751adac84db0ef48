import OtaFix.Mota.Hybrid
import OtaFix.Mota.PageCache

/-!
# The copy of a full image

`copy_staged_full_image` reads each page of the payload before it rewrites the page of
the destination. With the payload in the same flash, at or above the destination, what
is still to be read lies at or above the page that is rewritten, and the copy is a
move towards lower addresses; with the payload on another medium nothing overlaps.
However pages fail in between, the destination ends as the payload, padded with
`0xFF`.
-/

namespace OtaFix.Mota

open Lib Prog

variable {env : Env} {cfg : Profile} {s s' s0 : Device} {f : Mem} {m : MotaMin}
  {destination off : Nat}

/-- The image sizes rounded up to a page. -/
def pageRoundUp (n : Nat) : Nat := (n + codePageSize - 1) / codePageSize * codePageSize

/-- The byte at `i` of the copy: the payload, then padding. -/
def imageByte (f : Mem) (m : MotaMin) (i : Nat) : Byte :=
  if i < m.imageSize then f (m.payloadAddr + i) else 0xFF

/-- The copy up to `off`, begun in `s0`. -/
structure Copied (s0 : Device) (f : Mem) (m : MotaMin) (destination off : Nat) (s : Device) :
    Prop where
  statics : s.statics = { s0.statics with cache := s.statics.cache }
  nor : s.nor = s0.nor
  outside : ∀ x, x < destination ∨ destination + off ≤ x → s.mem x = s0.mem x
  copied : ∀ i, i < off → s.mem (destination + i) = imageByte f m i

/-- In every state of the copy the payload reads as `f`. -/
def Supplies (env : Env) (cfg : Profile) (s0 : Device) (f : Mem) (m : MotaMin)
    (destination : Nat) : Prop :=
  ∀ off n s, Copied s0 f m destination off s → off + n ≤ m.imageSize →
    (stagedRead cfg (m.payloadAddr + off) n).Sat (handler env) (Reads cfg)
      (fun r _ => r = some (slice f (m.payloadAddr + off) n)) s

/-! ## Sources -/

/-- The variables that select the source, and those that bound it. -/
theorem Copied.selected (h : Copied s0 f m destination off s) (cfg : Profile) :
    cfg.sdSelected s.statics = cfg.sdSelected s0.statics ∧
    cfg.hybridSelected s.statics = cfg.hybridSelected s0.statics ∧
    cfg.qspiSelected s.statics = cfg.qspiSelected s0.statics ∧
    s.statics.sdAuth = s0.statics.sdAuth ∧
    s.statics.qspiTotalSize = s0.statics.qspiTotalSize ∧
    s.statics.hybrid = s0.statics.hybrid := by
  rw [h.statics]
  exact ⟨rfl, rfl, rfl, rfl, rfl, rfl⟩

/-- The payload is in internal flash, at or above the destination. -/
structure OnFlash (cfg : Profile) (s0 : Device) (m : MotaMin) (destination : Nat) : Prop where
  sd : cfg.sdSelected s0.statics = false
  hybrid : cfg.hybridSelected s0.statics = false
  qspi : cfg.qspiSelected s0.statics = false
  above : destination ≤ m.payloadAddr

theorem supplies_flash (h : OnFlash cfg s0 m destination) :
    Supplies env cfg s0 s0.mem m destination := by
  intro off n s hc hn
  obtain ⟨hsd, hh, hq, -⟩ := hc.selected cfg
  rw [h.sd] at hsd
  rw [h.hybrid] at hh
  rw [h.qspi] at hq
  refine sat_get.mpr ⟨trivial, ?_⟩
  rw [if_neg (by rw [hsd]; exact Bool.false_ne_true), if_neg (by rw [hh]; exact Bool.false_ne_true),
    if_neg (by rw [hq]; exact Bool.false_ne_true)]
  refine sat_op.mpr ⟨⟨hsd, .inr hq⟩, ?_⟩
  -- the pages rewritten so far lie below what is read
  have hbytes : slice s.mem (m.payloadAddr + off) n = slice s0.mem (m.payloadAddr + off) n :=
    slice_congr fun x hx _ => hc.outside x (by have := h.above; omega)
  exact congrArg some hbytes

/-- The payload is on a card that answers, in the authorized container. -/
structure OnCard (env : Env) (cfg : Profile) (s0 : Device) (m : MotaMin) : Prop where
  sd : cfg.sdSelected s0.statics = true
  stable : env.Stable
  ok : ∀ t, env.sdOk t = true
  inside : m.payloadAddr + m.imageSize ≤ s0.statics.sdAuth.containerTotal

theorem supplies_sd (h : OnCard env cfg s0 m) :
    Supplies env cfg s0 (sourceByte env cfg s0) m destination := by
  intro off n s hc hn
  obtain ⟨hsd, -, -, hauth, -, -⟩ := hc.selected cfg
  rw [h.sd] at hsd
  have hin := h.inside
  refine sat_get.mpr ⟨trivial, ?_⟩
  rw [if_pos hsd, hauth, if_neg (by omega)]
  refine sat_perform.mpr ⟨hsd, ?_⟩
  change (if env.sdOk _ then some (slice (env.sdByte _) _ n) else none) = _
  rw [if_pos (h.ok _)]
  refine congrArg some (List.map_congr_left fun i _ => ?_)
  simp only [sourceByte, h.sd, if_true]
  rw [h.stable, Nat.add_assoc]

/-- The payload is in a NOR that answers, in the container found there. -/
structure OnNor (env : Env) (cfg : Profile) (s0 : Device) (m : MotaMin) : Prop where
  sd : cfg.sdSelected s0.statics = false
  hybrid : cfg.hybridSelected s0.statics = false
  qspi : cfg.qspiSelected s0.statics = true
  ok : ∀ t, env.qspiOk t = true
  inside : m.payloadAddr + m.imageSize ≤ s0.statics.qspiTotalSize

theorem supplies_nor (h : OnNor env cfg s0 m) :
    Supplies env cfg s0 (sourceByte env cfg s0) m destination := by
  intro off n s hc hn
  obtain ⟨hsd, hh, hq, -, htotal, -⟩ := hc.selected cfg
  rw [h.sd] at hsd
  rw [h.hybrid] at hh
  rw [h.qspi] at hq
  have hin := h.inside
  refine sat_get.mpr ⟨trivial, ?_⟩
  rw [if_neg (by rw [hsd]; exact Bool.false_ne_true), if_neg (by rw [hh]; exact Bool.false_ne_true),
    if_pos hq, htotal, if_neg (by omega)]
  refine sat_perform.mpr ⟨⟨hsd, hh, hq⟩, ?_⟩
  change (if env.qspiOk _ then some (slice (norByte env s.nor) _ n) else none) = _
  rw [if_pos (h.ok _), hc.nor]
  refine congrArg some (List.map_congr_left fun i _ => ?_)
  simp [sourceByte, h.sd, h.hybrid, h.qspi]

/-- The payload is in a container with a RAM suffix, its flash prefix at or above the
destination. -/
structure OnHybrid (cfg : Profile) (s0 : Device) (m : MotaMin) (destination ramLen : Nat) :
    Prop where
  sd : cfg.sdSelected s0.statics = false
  hybrid : cfg.hybridSelected s0.statics = true
  handoff : Handoff s0.statics.hybrid ramLen
  above : destination ≤ m.payloadAddr
  start : s0.statics.hybrid.flashStart ≤ m.payloadAddr
  inside : m.payloadAddr + m.imageSize ≤
    s0.statics.hybrid.flashStart + s0.statics.hybrid.containerTotal

theorem supplies_hybrid {ramLen : Nat} (h : OnHybrid cfg s0 m destination ramLen) :
    Supplies env cfg s0 (sourceByte env cfg s0) m destination := by
  intro off n s hc hn
  obtain ⟨hsd, hh, -, -, -, hrec⟩ := hc.selected cfg
  rw [h.sd] at hsd
  rw [h.hybrid] at hh
  have hin := h.inside
  have hstart := h.start
  have hread : ((stagedRead cfg (m.payloadAddr + off) n).run (handler env) s).1 =
      some (slice (sourceByte env cfg s0) (m.payloadAddr + off) n) := by
    change (run _ (if cfg.sdSelected s.statics = true then _ else if
      cfg.hybridSelected s.statics = true then hybridStagedRead s.statics.hybrid _ _
        else _) (after env .get s)).1 = _
    rw [if_neg (by rw [hsd]; exact Bool.false_ne_true), if_pos hh, hrec,
      hybridStagedRead_run h.handoff, if_pos (by omega)]
    refine congrArg some (slice_congr fun x hx _ => ?_)
    have hmem : s.mem x = s0.mem x := hc.outside x (by have := h.above; omega)
    simp only [containerByte, sourceByte, h.sd, h.hybrid, if_true, Bool.false_eq_true, if_false]
    rw [← hmem]
    rfl
  refine ((stagedRead_spec (m.payloadAddr + off) n).and sat_run).mono (fun _ _ h => h.1) ?_
  rintro r s' ⟨-, hrun⟩
  rw [hrun] at hread
  exact hread

/-! ## The loop -/

/-- One page: the payload's bytes and the padding of the last page. -/
theorem Copied.step {d : List Byte} {n : Nat} (h : Copied s0 f m destination off s)
    (hn : n = min (m.imageSize - off) codePageSize)
    (hd : d = slice f (m.payloadAddr + off) n ++ List.replicate (codePageSize - n) 0xFF)
    (hst : s'.statics = { s.statics with cache := s'.statics.cache }) (hnor : s'.nor = s.nor)
    (hout : ∀ x, x < destination + off ∨ destination + off + codePageSize ≤ x → s'.mem x = s.mem x)
    (hpage : slice s'.mem (destination + off) codePageSize = d) :
    Copied s0 f m destination (off + codePageSize) s' where
  statics := by rw [hst, h.statics]
  nor := hnor.trans h.nor
  outside x hx := by
    rw [hout x (by omega)]
    exact h.outside x (by omega)
  copied i hi := by
    by_cases hlow : i < off
    · rw [hout _ (by omega)]
      exact h.copied i hlow
    · have hbyte : (slice s'.mem (destination + off) codePageSize).getD (i - off) 0 =
          s'.mem (destination + i) := by
        rw [slice_getD_add (by omega), show destination + off + (i - off) = destination + i by omega]
      rw [← hbyte, hpage, hd]
      unfold imageByte
      by_cases himg : i < m.imageSize
      · rw [if_pos himg, List.getD_append _ _ _ _ (by rw [slice_length]; omega),
          slice_getD_add (by omega), show m.payloadAddr + off + (i - off) = m.payloadAddr + i by omega]
      · rw [if_neg himg, List.getD_append_right _ _ _ _ (by rw [slice_length]; omega), slice_length,
          List.getD_replicate _ (by omega)]

/-- A change of the cache's bytes. -/
theorem sat_setCache {α : Type} {c : List Byte} {k : MotaM α} {Q : α → Device → Prop}
    (hk : ∀ s', s'.statics = { s.statics with cache := c } → s'.mem = s.mem → s'.nor = s.nor →
      s'.marks = s.marks → k.Sat (handler env) (fun _ _ => True) Q s') :
    (modifyStatics (fun g => { g with cache := c }) >>= fun _ => k).Sat (handler env)
      (fun _ _ => True) Q s :=
  ⟨trivial, trivial, hk _ rfl rfl rfl rfl⟩

/-- The end of a copy: done and without a failed page, or ended by one. -/
def CopyEnds (s0 : Device) (f : Mem) (m : MotaMin) (destination : Nat) (s : Device) (r : Nat)
    (s' : Device) : Prop :=
  (r = 0xBF ∧ .pageFailed ∈ s'.marks) ∨
    (r = 0 ∧ (.pageFailed ∈ s'.marks → .pageFailed ∈ s.marks) ∧
      Copied s0 f m destination (pageRoundUp m.imageSize) s')

theorem Copied.ends (h : Copied s0 f m destination off s) (hoff : off % codePageSize = 0)
    (hmax : off < m.imageSize + codePageSize) (hle : m.imageSize ≤ off) :
    CopyEnds s0 f m destination s 0 s := by
  have hp : codePageSize = 0x1000 := rfl
  have hround : pageRoundUp m.imageSize = off := by
    unfold pageRoundUp
    rw [hp] at hoff hmax ⊢
    omega
  exact .inr ⟨rfl, id, hround ▸ h⟩

theorem hybridStagedRead_statics (h : Hybrid) (a n : Nat) (s : Device) :
    (hybridStagedRead h a n).Sat (handler env) (fun _ _ => True)
      (fun _ s' => s'.statics = s.statics) s := by
  unfold hybridStagedRead
  simp only
  split_ifs
  · rfl
  · rfl
  · exact ⟨trivial, rfl⟩
  · exact ⟨trivial, trivial, rfl⟩
  · rfl
  · exact ⟨trivial, rfl⟩

theorem stagedRead_statics (a n : Nat) (s : Device) :
    (stagedRead cfg a n).Sat (handler env) (fun _ _ => True)
      (fun _ s' => s'.statics = s.statics) s := by
  refine sat_get.mpr ⟨trivial, ?_⟩
  split_ifs
  · rfl
  · exact ⟨trivial, rfl⟩
  · exact (hybridStagedRead_statics s.statics.hybrid a n (after env .get s)).post fun _ _ h => h
  · rfl
  · exact ⟨trivial, rfl⟩
  · exact ⟨trivial, rfl⟩

theorem copyPages_copied (hdest : destination % codePageSize = 0)
    (hsupply : Supplies env cfg s0 f m destination) (fuel : Nat) {off : Nat}
    (hoff : off % codePageSize = 0) (hmax : off < m.imageSize + codePageSize)
    (hfuel : m.imageSize ≤ off + fuel * codePageSize) {s : Device}
    (h : Copied s0 f m destination off s) :
    (copyPages cfg m destination fuel off).Sat (handler env) (fun _ _ => True)
      (CopyEnds s0 f m destination s) s := by
  have hp : codePageSize = 0x1000 := rfl
  induction fuel generalizing off s with
  | zero => exact h.ends hoff hmax (by omega)
  | succ fuel ih =>
    unfold copyPages
    by_cases hle : m.imageSize ≤ off
    · rw [if_pos hle]
      exact h.ends hoff hmax hle
    rw [if_neg hle]
    simp only
    set n := min (m.imageSize - off) codePageSize with hn
    refine sat_setCache fun s1 hst1 hm1 hnor1 hmk1 => ?_
    have h1 : Copied s0 f m destination off s1 :=
      ⟨by rw [hst1, h.statics], hnor1.trans h.nor, fun x hx => by rw [hm1]; exact h.outside x hx,
        fun i hi => by rw [hm1]; exact h.copied i hi⟩
    have hread := ((stagedRead_spec (m.payloadAddr + off) n).and
      (hsupply off n s1 h1 (by omega))).and (stagedRead_statics (m.payloadAddr + off) n s1)
    refine (hread.mono (fun _ _ _ => trivial) fun _ _ h => h).bind fun r s2 h2 => ?_
    obtain ⟨⟨⟨-, hstill⟩, rfl⟩, hst2⟩ := h2
    simp only
    set page := slice f (m.payloadAddr + off) n ++ List.replicate (codePageSize - n) 0xFF with hd
    have hlen : page.length = codePageSize := by
      rw [hd, List.length_append, slice_length, List.length_replicate]
      omega
    refine sat_setCache fun s3 hst3 hm3 hnor3 hmk3 => ?_
    refine sat_op.mpr ⟨trivial, ?_⟩
    have haligned : (destination + off) % codePageSize = 0 := by
      rw [hp] at hdest hoff ⊢
      omega
    have hpage : (flashPageWriteVerified (destination + off) page).Sat (handler env) _
        (Rewrote (destination + off) page _) (after env (.mark .commit) s3) :=
      pageAttempts_spec haligned (fun _ h => Option.some.inj h ▸ hlen) flashPageAttempts _
    refine Sat.bindVerified (hpage.mono (fun _ _ _ => trivial) fun _ _ h => h)
      (fun s5 h5 => .inl ⟨rfl, h5.failed rfl⟩) fun s5 h5 => ?_
    have hst5 : s5.statics = s3.statics := h5.statics
    have hmem5 : ∀ x, x < destination + off ∨ destination + off + codePageSize ≤ x →
        s5.mem x = s.mem x := by
      intro x hx
      rw [h5.touched.mem x hx]
      change s3.mem x = s.mem x
      rw [hm3, hstill.mem, hm1]
    have hnor5 : s5.nor = s.nor := by
      rw [h5.touched.nor]
      change s3.nor = s.nor
      rw [hnor3, hstill.nor, hnor1]
    have hnext : Copied s0 f m destination (off + codePageSize) s5 :=
      h.step hn hd (by rw [hst5, hst3, hst2, hst1]) hnor5 hmem5 (h5.written rfl)
    have hmarks : .pageFailed ∈ s5.marks → .pageFailed ∈ s.marks := by
      intro hm
      rw [h5.marks rfl] at hm
      change _ ∈ s3.marks ++ [.commit] at hm
      rw [hmk3, hstill.marks, hmk1] at hm
      simpa using hm
    refine (ih (by rw [Nat.add_mod_right]; exact hoff) (by omega) (by rw [Nat.succ_mul] at hfuel; omega)
      hnext).post fun r s' h' => ?_
    rcases h' with hbad | ⟨hr, hm, hc⟩
    · exact .inl hbad
    · exact .inr ⟨hr, fun hf => hmarks (hm hf), hc⟩

/-- The payload lies in internal flash at or above the destination, or on another medium. -/
def PayloadAt (env : Env) (cfg : Profile) (s0 : Device) (m : MotaMin) (destination : Nat) : Prop :=
  OnFlash cfg s0 m destination ∨ (∃ ramLen, OnHybrid cfg s0 m destination ramLen) ∨
    OnCard env cfg s0 m ∨ OnNor env cfg s0 m

theorem PayloadAt.supplies (h : PayloadAt env cfg s0 m destination) :
    Supplies env cfg s0 (sourceByte env cfg s0) m destination := by
  rcases h with h | ⟨ramLen, h⟩ | h | h
  · have hbytes : sourceByte env cfg s0 = s0.mem := by
      funext x
      simp [sourceByte, h.sd, h.hybrid, h.qspi]
    rw [hbytes]
    exact supplies_flash h
  · exact supplies_hybrid h
  · exact supplies_sd h
  · exact supplies_nor h

/-- The copy of a full image. Where no page fails all of its attempts it ends with zero and
the destination holds the payload as it was at the start, padded to a page, whatever the
attempts left there in between; a page that does fail ends it. -/
theorem copy_staged_full_image_copies {env : Env} {cfg : Profile} {s s' : Device} {m : MotaMin}
    {destination r : Nat} (hdest : destination % codePageSize = 0)
    (hpayload : PayloadAt env cfg s m destination) (hmarks : .pageFailed ∉ s.marks)
    (hrun : (copyStagedFullImage cfg m destination).run (handler env) s = (r, s')) :
    (.pageFailed ∉ s'.marks → r = 0 ∧
      (∀ i, i < pageRoundUp m.imageSize →
        s'.mem (destination + i) = imageByte (sourceByte env cfg s) m i) ∧
      ∀ x, x < destination ∨ destination + pageRoundUp m.imageSize ≤ x → s'.mem x = s.mem x) ∧
    (.pageFailed ∈ s'.marks → r = 0xBF) := by
  have hp : codePageSize = 0x1000 := rfl
  have hstart : Copied s (sourceByte env cfg s) m destination 0 s :=
    ⟨rfl, rfl, fun _ _ => rfl, nofun⟩
  have hends := (copyPages_copied hdest hpayload.supplies (m.imageSize / codePageSize + 1)
    (Nat.zero_mod _) (by omega) (by rw [hp]; omega) hstart).result
  change CopyEnds _ _ _ _ _ (run _ (copyStagedFullImage cfg m destination) s).1
    (run _ (copyStagedFullImage cfg m destination) s).2 at hends
  rw [hrun] at hends
  rcases hends with ⟨hr, hbad⟩ | ⟨hr, hno, hcopied⟩
  · exact ⟨fun h => absurd hbad h, fun _ => hr⟩
  · exact ⟨fun _ => ⟨hr, hcopied.copied, hcopied.outside⟩, fun h => absurd (hno h) hmarks⟩

/-! ## Working flash -/

theorem works_stagedRead {β : Type} {k : Option (List Byte) → MotaM β} (a n : Nat)
    (hk : ∀ r, (∀ d, r = some d → d.length = n) → Works env (k r)) :
    Works env (stagedRead cfg a n >>= k) := by
  intro s hs
  have hread : (stagedRead cfg a n).Sat (handler env) _ _ s :=
    (stagedRead_spec a n).and (stagedRead_statics a n s)
  refine Sat.bind (hread.mono (fun o t h => ?_) fun _ _ h => h) fun r s' h => ?_
  · rintro rfl
    exact h.1
  · exact hk r (fun d hd => (h.1.1 d hd).1) s' (by rw [h.2]; exact hs)

theorem works_copyPages (hfault : ∀ n, env.fault n = .ok) (fuel off : Nat) :
    Works env (copyPages cfg m destination fuel off) := by
  induction fuel generalizing off with
  | zero => exact works_ret _
  | succ fuel ih =>
    unfold copyPages
    split_ifs
    · exact works_ret _
    refine (works_modify fun _ _ => List.length_replicate).bind fun _ => ?_
    refine works_stagedRead _ _ fun r hr => ?_
    cases r with
    | none => exact works_ret _
    | some d =>
      have hlen : (d ++ List.replicate (codePageSize - min (m.imageSize - off) codePageSize)
          0xFF).length = codePageSize := by
        rw [List.length_append, hr d rfl, List.length_replicate]
        omega
      refine (works_modify fun _ _ => hlen).bind fun _ s hs => sat_op.mpr ⟨(fun h => by cases h), ?_⟩
      exact Works.bindOk (works_pageAttempts hfault (fun _ h => Option.some.inj h ▸ hlen) 2)
        (works_ret _) (ih _) _ hs

/-- An image of 64 bytes, 16 bytes above its place. -/
def copyMota : MotaMin := { shiftMota with payloadAddr := 0x1010 }

/-- The copy overlaps its source, and pads the page. -/
theorem copy_staged_full_image_overlap :
    ((copyStagedFullImage sampleProfile copyMota 0x1000).run (handler {}) shiftDevice).1 = 0 ∧
    ((copyStagedFullImage sampleProfile copyMota 0x1000).run (handler {}) shiftDevice).2.mem
      0x103F = 0 ∧
    ((copyStagedFullImage sampleProfile copyMota 0x1000).run (handler {}) shiftDevice).2.mem
      0x1040 = 0xFF := by
  have hpayload : PayloadAt {} sampleProfile shiftDevice copyMota 0x1000 :=
    .inl ⟨by decide, by decide, by decide, by decide⟩
  have hworks : Works {} (copyStagedFullImage sampleProfile copyMota 0x1000) :=
    works_copyPages (fun _ => rfl) _ _
  have hnone : .pageFailed ∉ ((copyStagedFullImage sampleProfile copyMota 0x1000).run
      (handler {}) shiftDevice).2.marks :=
    (hworks _ shiftDevice_empty.length).inv (I := fun s => .pageFailed ∉ s.marks)
      shiftDevice_marks fun _ _ ho h => marks_without_failed ho h
  generalize hrun : (copyStagedFullImage sampleProfile copyMota 0x1000).run (handler {})
    shiftDevice = q at hnone ⊢
  obtain ⟨r, s'⟩ := q
  obtain ⟨hr, hcopied, -⟩ :=
    (copy_staged_full_image_copies (by decide) hpayload shiftDevice_marks hrun).1 hnone
  have hround : pageRoundUp copyMota.imageSize = 0x1000 := by decide
  rw [hround] at hcopied
  refine ⟨hr, ?_, ?_⟩
  · exact (hcopied 0x3F (by decide)).trans (by decide)
  · exact (hcopied 0x40 (by decide)).trans (by decide)

end OtaFix.Mota
