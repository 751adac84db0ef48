import OtaFix.Mota.Apply

/-!
# Reading the selected source

`Reads cfg o s`: the operation `o` reads, and of the staging media only the one that
is selected in `s`. A program of such operations changes nothing but its own
bookkeeping (`Still`). The read functions of the update are such programs; what
they return is stated where a later check depends on it.
-/

namespace OtaFix.Mota

open Lib Prog

variable {env : Env} {cfg : Profile} {α : Type} {s s' : Device} {ok : Op → Device → Prop}

/-! ## Operations -/

/-- The state behind an operation that changes nothing. -/
def Device.next (s : Device) : Device := { s with tick := s.tick + 1 }

@[simp] theorem next_statics : s.next.statics = s.statics := rfl

@[simp] theorem next_mem : s.next.mem = s.mem := rfl

/-- Two sets of variables select the same source, under the same authorization. -/
structure KeepsSource (g g' : Statics) : Prop where
  sdSource : g'.sdSource = g.sdSource
  qspiSource : g'.qspiSource = g.qspiSource
  hybrid : g'.hybrid = g.hybrid
  sdAuth : g'.sdAuth = g.sdAuth
  sdAuthLoaded : g'.sdAuthLoaded = g.sdAuthLoaded

theorem KeepsSource.refl (g : Statics) : KeepsSource g g := ⟨rfl, rfl, rfl, rfl, rfl⟩

theorem KeepsSource.trans {g g' g'' : Statics} (h : KeepsSource g g') (h' : KeepsSource g' g'') :
    KeepsSource g g'' :=
  ⟨h'.1.trans h.1, h'.2.trans h.2, h'.3.trans h.3, h'.4.trans h.4, h'.5.trans h.5⟩

theorem KeepsSource.symm {g g' : Statics} (h : KeepsSource g g') : KeepsSource g' g :=
  ⟨h.1.symm, h.2.symm, h.3.symm, h.4.symm, h.5.symm⟩

structure KeepsCache (g g' : Statics) : Prop where
  cache : g'.cache = g.cache
  cachePage : g'.cachePage = g.cachePage
  cacheDirty : g'.cacheDirty = g.cacheDirty

theorem KeepsCache.refl (g : Statics) : KeepsCache g g := ⟨rfl, rfl, rfl⟩

namespace KeepsSource

variable {g g' : Statics} (h : KeepsSource g g')
include h

theorem sdSelected (cfg : Profile) : cfg.sdSelected g' = cfg.sdSelected g := by
  simp [Profile.sdSelected, h.sdSource]

theorem qspiSelected (cfg : Profile) : cfg.qspiSelected g' = cfg.qspiSelected g := by
  simp [Profile.qspiSelected, h.qspiSource]

theorem hybridSelected (cfg : Profile) : cfg.hybridSelected g' = cfg.hybridSelected g := by
  simp [Profile.hybridSelected, h.hybrid]

theorem external (cfg : Profile) : cfg.externalStagedSource g' = cfg.externalStagedSource g := by
  simp [Profile.externalStagedSource, h.sdSelected, h.qspiSelected]

end KeepsSource

/-- A read of the source selected by `g`. -/
def SourceRead (cfg : Profile) (g : Statics) : Op → Prop
  | .stagedFlash _ _ => cfg.sdSelected g = false ∧
      (cfg.hybridSelected g = true ∨ cfg.qspiSelected g = false)
  | .stagedRam _ _ => cfg.sdSelected g = false ∧ cfg.hybridSelected g = true
  | .sdInit | .sdRead _ _ _ => cfg.sdSelected g = true
  | .qspiInit | .qspiCapacity | .qspiRead _ _ =>
    cfg.sdSelected g = false ∧ cfg.hybridSelected g = false ∧ cfg.qspiSelected g = true
  | _ => False

/-- A read, or a change of the variables that selects no other source. -/
def Reads (cfg : Profile) (o : Op) (s : Device) : Prop :=
  match o with
  | .get | .view | .gpregret | .gpregret2 | .resetreas => True
  | .set g => KeepsSource s.statics g ∧ KeepsCache s.statics g
  | o => SourceRead cfg s.statics o

/-- Nothing has changed but the bookkeeping of the reads. -/
structure Still (s s' : Device) : Prop where
  mem : s'.mem = s.mem
  ops : s'.ops = s.ops
  gpregret : s'.gpregret = s.gpregret
  gpregret2 : s'.gpregret2 = s.gpregret2
  retained : s'.retained = s.retained
  nor : s'.nor = s.nor
  marks : s'.marks = s.marks
  mbr : s'.mbr = s.mbr
  source : KeepsSource s.statics s'.statics
  cache : KeepsCache s.statics s'.statics

theorem Still.refl (s : Device) : Still s s :=
  ⟨rfl, rfl, rfl, rfl, rfl, rfl, rfl, rfl, .refl _, .refl _⟩

theorem Still.trans {s'' : Device} (h : Still s s') (h' : Still s' s'') : Still s s'' where
  mem := h'.mem.trans h.mem
  ops := h'.ops.trans h.ops
  gpregret := h'.gpregret.trans h.gpregret
  gpregret2 := h'.gpregret2.trans h.gpregret2
  retained := h'.retained.trans h.retained
  nor := h'.nor.trans h.nor
  marks := h'.marks.trans h.marks
  mbr := h'.mbr.trans h.mbr
  source := h.source.trans h'.source
  cache := ⟨h'.cache.1.trans h.cache.1, h'.cache.2.trans h.cache.2, h'.cache.3.trans h.cache.3⟩

theorem still_after {o : Op} (h : Reads cfg o s) : Still s (after env o s) := by
  cases o with
  | set g =>
    obtain ⟨hs, hc⟩ := h
    exact ⟨rfl, by simp [after, nvOps], rfl, rfl, rfl, rfl, rfl, rfl, hs, hc⟩
  | get | view | gpregret | gpregret2 | resetreas | stagedFlash | stagedRam | sdInit | sdRead
  | qspiInit | qspiCapacity | qspiRead =>
    exact ⟨rfl, by simp [after, nvOps], rfl, rfl, rfl, rfl, rfl, rfl, .refl _, .refl _⟩
  | setGpregret | setGpregret2 | takeRetained | sdDeinit | qspiSetRakSource | qspiWrite
  | qspiDeinit | erase | words | settingsCommit | mbrCopy | mark => exact h.elim

/-- A program of reads leaves the state still. -/
theorem sat_still {p : MotaM α} {Q : α → Device → Prop} (h : p.Sat (handler env) (Reads cfg) Q s) :
    p.Sat (handler env) (Reads cfg) (fun a s' => Q a s' ∧ Still s s') s :=
  (h.keep (I := Still s) (.refl s) fun _ _ ho hs => hs.trans (still_after ho)).mono
    (fun _ _ h => h.1) fun _ _ h => h

/-! ## Contents of the selected source -/

/-- The card answers alike at every read. -/
def Env.Stable (env : Env) : Prop := ∀ t x, env.sdByte t x = env.sdByte 0 x

/-- The byte at `x` of the selected source. -/
def sourceByte (env : Env) (cfg : Profile) (s : Device) (x : Nat) : Byte :=
  let g := s.statics
  if cfg.sdSelected g then env.sdByte 0 (g.sdAuth.firstSector * 512 + x)
  else if cfg.hybridSelected g then
    if x < g.hybrid.flashStart + g.hybrid.flashLen then s.mem x
    else env.arena (x - (g.hybrid.flashStart + g.hybrid.flashLen))
  else if cfg.qspiSelected g then norByte env s.nor x
  else s.mem x

theorem KeepsSource.sourceByte (h : KeepsSource s.statics s'.statics) (hm : s'.mem = s.mem)
    (hn : s'.nor = s.nor) : sourceByte env cfg s' = sourceByte env cfg s := by
  funext x
  simp only [Mota.sourceByte, h.sdSelected, h.hybridSelected, h.qspiSelected, h.sdAuth, h.hybrid,
    hm, hn]

theorem sourceByte_still (h : Still s s') : sourceByte env cfg s' = sourceByte env cfg s :=
  h.source.sourceByte h.mem h.nor

/-- `r` holds the `n` bytes of the source at `a`, if it holds any. -/
def Holds (env : Env) (cfg : Profile) (s : Device) (a n : Nat) (r : Option (List Byte)) : Prop :=
  ∀ d, r = some d → d.length = n ∧ (env.Stable → d = slice (sourceByte env cfg s) a n)

theorem holds_none (a n : Nat) : Holds env cfg s a n none := fun _ h => by cases h

theorem Holds.still {a n : Nat} {r : Option (List Byte)} (h : Holds env cfg s' a n r)
    (hs : Still s s') : Holds env cfg s a n r := by
  intro d hd
  obtain ⟨hlen, hbytes⟩ := h d hd
  refine ⟨hlen, fun hst => ?_⟩
  rw [← sourceByte_still hs]
  exact hbytes hst

/-- An operation, then the rest of the program. -/
theorem sat_op {β : Type} {o : Op} {f : Res o → MotaM β} {Q : β → Device → Prop} :
    (perform o >>= f).Sat (handler env) ok Q s ↔
      ok o s ∧ (f (answer env o s)).Sat (handler env) ok Q (after env o s) := Iff.rfl

theorem sat_perform {o : Op} {Q : Res o → Device → Prop} :
    (perform o : MotaM (Res o)).Sat (handler env) ok Q s ↔
      ok o s ∧ Q (answer env o s) (after env o s) := Iff.rfl

theorem sat_get {β : Type} {f : Statics → MotaM β} {Q : β → Device → Prop} :
    (getStatics >>= f).Sat (handler env) ok Q s ↔
      ok .get s ∧ (f s.statics).Sat (handler env) ok Q (after env .get s) := Iff.rfl

theorem sat_flash {β : Type} {f : Mem → MotaM β} {Q : β → Device → Prop} :
    (flash >>= f).Sat (handler env) ok Q s ↔
      ok .view s ∧ (f s.mem).Sat (handler env) ok Q (after env .view s) := Iff.rfl

section Staged

variable {g : Statics}

theorem sourceByte_hybrid (hg : s.statics = g) (hsd : cfg.sdSelected g = false)
    (hh : cfg.hybridSelected g = true) (x : Nat) : sourceByte env cfg s x =
      if x < g.hybrid.flashStart + g.hybrid.flashLen then s.mem x
      else env.arena (x - (g.hybrid.flashStart + g.hybrid.flashLen)) := by
  simp [sourceByte, hg, hsd, hh]

/-- A read of the arena is a read of the source behind its flash prefix. -/
theorem holds_stagedRam (env : Env) (hg : s.statics = g) (hsd : cfg.sdSelected g = false)
    (hh : cfg.hybridSelected g = true) (offset n : Nat) :
    Holds env cfg s (g.hybrid.flashStart + g.hybrid.flashLen + offset) n
      (answer env (.stagedRam offset n) s) := by
  intro d hd
  change (if _ then none else some (slice env.arena offset n)) = some d at hd
  split at hd
  · cases hd
  obtain rfl := Option.some.inj hd
  refine ⟨slice_length _ _ _, fun _ => List.map_congr_left fun i _ => ?_⟩
  rw [sourceByte_hybrid hg hsd hh, if_neg (by omega)]
  congr 1
  omega

theorem hybridStagedRead_spec (env : Env) (a n : Nat) (hsd : cfg.sdSelected s.statics = false)
    (hh : cfg.hybridSelected s.statics = true) :
    (hybridStagedRead s.statics.hybrid a n).Sat (handler env) (Reads cfg)
      (fun r _ => Holds env cfg s a n r) s := by
  unfold hybridStagedRead
  set h := s.statics.hybrid with hdef
  by_cases h0 : h.containerTotal = 0 ∨ a < h.flashStart
  · simp only [h0, if_true]
    exact holds_none a n
  rw [if_neg h0]
  rw [not_or] at h0
  simp only
  by_cases hlen : h.containerTotal < a - h.flashStart ∨ h.containerTotal - (a - h.flashStart) < n
  · rw [if_pos hlen]
    exact holds_none a n
  rw [if_neg hlen]
  by_cases hoff : a - h.flashStart < h.flashLen
  · -- a flash prefix, and the rest from the arena
    rw [if_pos hoff]
    set chunk := min (h.flashLen - (a - h.flashStart)) n with hc
    have hr : Reads cfg (.stagedFlash a chunk) s := ⟨hsd, .inl hh⟩
    have hst : Still s (after env (.stagedFlash a chunk) s) := still_after hr
    have hpre : slice s.mem a chunk = slice (sourceByte env cfg s) a chunk := by
      refine List.map_congr_left fun i hi => ?_
      rw [List.mem_range] at hi
      rw [sourceByte_hybrid rfl hsd hh, ← hdef, if_pos (by omega)]
    refine sat_op.mpr ⟨hr, ?_⟩
    change Sat _ _ _ (if n - chunk = 0 then ret (some (slice s.mem a chunk)) else _) _
    by_cases hz : n - chunk = 0
    · rw [if_pos hz, hpre, show chunk = n by omega]
      intro d hd
      obtain rfl := Option.some.inj hd
      exact ⟨slice_length _ _ _, fun _ => rfl⟩
    · rw [if_neg hz]
      have hr1 : Reads cfg (.stagedRam (a - h.flashStart + chunk - h.flashLen) (n - chunk))
          (after env (.stagedFlash a chunk) s) :=
        ⟨(hst.source.sdSelected cfg).trans hsd, (hst.source.hybridSelected cfg).trans hh⟩
      refine sat_op.mpr ⟨hr1, ?_⟩
      have hram := (holds_stagedRam env rfl hr1.1 hr1.2
        (a - h.flashStart + chunk - h.flashLen) (n - chunk)).still hst
      intro d hd
      obtain ⟨rest, hrest, rfl⟩ := Option.map_eq_some_iff.mp hd
      obtain ⟨hl, hb⟩ := hram rest hrest
      change (slice s.mem a chunk ++ rest).length = n ∧ (_ → slice s.mem a chunk ++ rest = _)
      rw [hpre]
      refine ⟨by rw [List.length_append, slice_length, hl]; omega, fun hs => ?_⟩
      rw [hb hs, hst.source.hybrid, ← hdef, show h.flashStart + h.flashLen +
        (a - h.flashStart + chunk - h.flashLen) = a + chunk by omega, ← slice_add]
      congr 1
      omega
  · rw [if_neg hoff]
    by_cases hz : n = 0
    · rw [if_pos hz, hz]
      intro d hd
      obtain rfl := Option.some.inj hd
      exact ⟨rfl, fun _ => rfl⟩
    · rw [if_neg hz]
      refine sat_perform.mpr ⟨⟨hsd, hh⟩, ?_⟩
      have hram := holds_stagedRam env rfl hsd hh (a - h.flashStart - h.flashLen) n
      rwa [← hdef, show h.flashStart + h.flashLen + (a - h.flashStart - h.flashLen) = a by omega]
        at hram

theorem stagedRead_spec (a n : Nat) : (stagedRead cfg a n).Sat (handler env) (Reads cfg)
    (fun r s' => Holds env cfg s a n r ∧ Still s s') s := by
  refine sat_still ?_
  refine sat_get.mpr ⟨trivial, ?_⟩
  have hst : Still s (after env .get s) := still_after (show Reads cfg .get s from trivial)
  split_ifs with hsd hb hh hq hb
  · exact holds_none a n
  · refine sat_perform.mpr ⟨hsd, ?_⟩
    intro d hd
    change (if env.sdOk _ then some (slice (env.sdByte _) _ n) else none) = some d at hd
    split at hd
    · obtain rfl := Option.some.inj hd
      refine ⟨slice_length _ _ _, fun hs => List.map_congr_left fun i _ => ?_⟩
      simp only [sourceByte, hsd, if_true]
      rw [hs, Nat.add_assoc]
    · cases hd
  · rw [Bool.not_eq_true] at hsd
    have hread := hybridStagedRead_spec (s := after env .get s) env a n hsd hh
    exact hread.post fun r s' hr => hr.still hst
  · exact holds_none a n
  · rw [Bool.not_eq_true] at hsd hh
    refine sat_perform.mpr ⟨⟨hsd, hh, hq⟩, ?_⟩
    intro d hd
    change (if env.qspiOk _ then some (slice (norByte env _) a n) else none) = some d at hd
    split at hd
    · obtain rfl := Option.some.inj hd
      refine ⟨slice_length _ _ _, fun _ => List.map_congr_left fun i _ => ?_⟩
      simp [sourceByte, hsd, hh, hq, hst.nor]
    · cases hd
  · rw [Bool.not_eq_true] at hsd hh hq
    refine sat_op.mpr ⟨⟨hsd, .inr hq⟩, ?_⟩
    intro d hd
    obtain rfl := Option.some.inj hd
    refine ⟨slice_length _ _ _, fun _ => List.map_congr_left fun i _ => ?_⟩
    simp [sourceByte, hsd, hh, hq, hst.mem]

end Staged

/-! ## Hashes -/

/-- A read of one chunk; of the live flash it is exact. -/
theorem readRegion_spec (staged : Bool) (a n : Nat) :
    (readRegion cfg staged a n).Sat (handler env) (Reads cfg)
      (fun r s' => (staged = true → Holds env cfg s a n r) ∧
        (staged = false → r = some (slice s.mem a n)) ∧ Still s s') s := by
  cases staged with
  | true => exact (stagedRead_spec a n).post fun r s' h => ⟨fun _ => h.1, nofun, h.2⟩
  | false =>
    refine sat_flash.mpr ⟨trivial, ?_⟩
    exact ⟨nofun, fun _ => rfl, still_after (show Reads cfg .view s from trivial)⟩

/-- The bytes hashed for the region `[a, a + n)` of the contents `f`. -/
def hashed (approvalAt : Option Nat) (f : Mem) (a n : Nat) : List Byte :=
  normalizeApproval approvalAt a (slice f a n)

theorem normalizeApproval_append (approvalAt : Option Nat) (a : Nat) (d d' : List Byte) :
    normalizeApproval approvalAt a (d ++ d') =
      normalizeApproval approvalAt a d ++ normalizeApproval approvalAt (a + d.length) d' := by
  cases approvalAt with
  | none => rfl
  | some at' =>
    simp only [normalizeApproval, List.zipIdx_append, List.map_append, Nat.zero_add]
    congr 1
    rw [List.zipIdx_eq_map_add, List.map_map]
    refine List.map_congr_left fun p _ => ?_
    simp only [Function.comp_apply, Nat.add_assoc, Nat.add_comm d.length p.2]

theorem hashed_add (approvalAt : Option Nat) (f : Mem) (a n k : Nat) :
    hashed approvalAt f a (n + k) = hashed approvalAt f a n ++ hashed approvalAt f (a + n) k := by
  unfold hashed
  rw [slice_add, normalizeApproval_append, slice_length]

/-- The hash over chunks is the hash of the region. -/
theorem shaChunks_spec (staged : Bool) (approvalAt : Option Nat) (fuel addr len : Nat)
    (c : Sha256.Ctx) (hfuel : len ≤ 256 * fuel) (s : Device) :
    (shaChunks cfg staged approvalAt fuel addr len c).Sat (handler env) (Reads cfg)
      (fun r s' => (∀ c', r = some c' → staged = true → env.Stable →
          c' = Sha256.update c (hashed approvalAt (sourceByte env cfg s) addr len)) ∧
        (staged = false → r = some (Sha256.update c (hashed approvalAt s.mem addr len))) ∧
        Still s s') s := by
  induction fuel generalizing addr len c s with
  | zero =>
    obtain rfl : len = 0 := by omega
    refine ⟨fun c' hc' _ _ => ?_, fun _ => ?_, .refl s⟩
    · obtain rfl := Option.some.inj hc'
      cases approvalAt <;> rfl
    · cases approvalAt <;> rfl
  | succ fuel ih =>
    unfold shaChunks
    by_cases h0 : len = 0
    · rw [if_pos h0, h0]
      refine ⟨fun c' hc' _ _ => ?_, fun _ => ?_, .refl s⟩
      · obtain rfl := Option.some.inj hc'
        cases approvalAt <;> rfl
      · cases approvalAt <;> rfl
    rw [if_neg h0]
    simp only
    set n := min len 256 with hn
    have hsplit : ∀ f : Mem, hashed approvalAt f addr len =
        hashed approvalAt f addr n ++ hashed approvalAt f (addr + n) (len - n) := by
      intro f
      rw [← hashed_add]
      congr 1
      omega
    refine (readRegion_spec staged addr n).bind fun r s1 h => ?_
    obtain ⟨hst, hlive, hstill⟩ := h
    cases r with
    | none =>
      refine ⟨nofun, fun hs => ?_, hstill⟩
      cases hlive hs
    | some d =>
      refine (ih (addr + n) (len - n) _ (by omega) s1).post fun r' s' h' => ?_
      obtain ⟨h1, h2, h3⟩ := h'
      refine ⟨fun c' hc' hs hstab => ?_, fun hs => ?_, hstill.trans h3⟩
      · rw [h1 c' hc' hs hstab, (hst hs d rfl).2 hstab, sourceByte_still hstill, hsplit,
          Sha256.update_append]
        rfl
      · rw [h2 hs, Option.some.inj (hlive hs), hstill.mem, hsplit, Sha256.update_append]
        rfl

theorem sha256ReadRegion_spec (addr len : Nat) (staged : Bool) (approvalAt : Option Nat) :
    (sha256ReadRegion cfg addr len staged approvalAt).Sat (handler env) (Reads cfg)
      (fun r s' => (∀ d, r = some d → staged = true → env.Stable →
          d = sha256 (hashed approvalAt (sourceByte env cfg s) addr len)) ∧
        (staged = false → r = some (sha256 (hashed approvalAt s.mem addr len))) ∧
        Still s s') s := by
  refine (shaChunks_spec staged approvalAt (len / 256 + 1) addr len Sha256.init (by omega) s).bind
    fun r s' h => ?_
  obtain ⟨h1, h2, h3⟩ := h
  refine ⟨fun d hd hs hstab => ?_, fun hs => ?_, h3⟩
  · obtain ⟨c, hc, rfl⟩ := Option.map_eq_some_iff.mp hd
    rw [h1 c hc hs hstab]
    rfl
  · rw [h2 hs]
    rfl

theorem regionHashValid_spec (addr len : Nat) (expected : List Byte) (staged : Bool)
    (approvalAt : Option Nat) :
    (regionHashValid cfg addr len expected staged approvalAt).Sat (handler env) (Reads cfg)
      (fun r s' => (r = true → staged = true → env.Stable →
          sha256 (hashed approvalAt (sourceByte env cfg s) addr len) = expected) ∧
        (staged = false → r = decide (sha256 (hashed approvalAt s.mem addr len) = expected)) ∧
        Still s s') s := by
  refine (sha256ReadRegion_spec addr len staged approvalAt).bind fun r s' h => ?_
  obtain ⟨h1, h2, h3⟩ := h
  refine ⟨fun hr hs hstab => ?_, fun hs => ?_, h3⟩
  · exact (h1 expected (of_decide_eq_true hr) hs hstab).symm
  · rw [h2 hs]
    simp

/-- The hash of the live image. -/
theorem fullImageHashValid_live (m : MotaMin) (addr : Nat) :
    (fullImageHashValid cfg m addr false).Sat (handler env) (Reads cfg)
      (fun r s' => r = decide (sha256 (slice s.mem addr m.imageSize) = m.imageHash) ∧ Still s s')
      s :=
  (regionHashValid_spec addr m.imageSize m.imageHash false none).post
    fun _ _ h => ⟨h.2.1 rfl, h.2.2⟩

theorem fullImageHashValid_staged (m : MotaMin) (addr : Nat) :
    (fullImageHashValid cfg m addr true).Sat (handler env) (Reads cfg) (fun _ s' => Still s s') s :=
  (regionHashValid_spec addr m.imageSize m.imageHash true none).post fun _ _ h => h.2.2

theorem sdAuthorizedContainerValid_spec :
    (sdAuthorizedContainerValid cfg).Sat (handler env) (Reads cfg)
      (fun r s' => (r = true → env.Stable →
        sha256 (hashed (some approvalOffset) (sourceByte env cfg s) 0
          s.statics.sdAuth.containerTotal) = s.statics.sdAuth.containerSha256) ∧ Still s s') s := by
  refine sat_get.mpr ⟨trivial, ?_⟩
  have hst : Still s (after env .get s) := still_after (show Reads cfg .get s from trivial)
  refine (regionHashValid_spec _ _ _ true _).post fun r s' h => ⟨fun hr hstab => ?_, hst.trans h.2.2⟩
  rw [← h.1 hr rfl hstab, sourceByte_still hst]

theorem hybridAuthorizedContainerValid_spec :
    (hybridAuthorizedContainerValid cfg).Sat (handler env) (Reads cfg)
      (fun r s' => (r = true → env.Stable →
        sha256 (hashed (some (s.statics.hybrid.flashStart + approvalOffset))
          (sourceByte env cfg s) s.statics.hybrid.flashStart s.statics.hybrid.containerTotal) =
            s.statics.hybrid.containerSha256) ∧ Still s s') s := by
  refine sat_get.mpr ⟨trivial, ?_⟩
  have hst : Still s (after env .get s) := still_after (show Reads cfg .get s from trivial)
  simp only
  split_ifs
  · exact ⟨nofun, hst⟩
  · refine (regionHashValid_spec _ _ _ true _).post fun r s' h =>
      ⟨fun hr hstab => ?_, hst.trans h.2.2⟩
    rw [← h.1 hr rfl hstab, sourceByte_still hst]

/-! ## Containers -/

/-- `parse_mota_at` as a function of the bytes of the source. -/
def containerAt (cfg : Profile) (mem : Mem) (a limit : Nat) : Option MotaMin :=
  let header := slice mem a motaHeaderLen
  let total := wordAt header 4
  if limit < a ∨ limit - a < motaHeaderLen + motaTrailer.length then none
  else if header.take 4 ≠ motaMagic then none
  else if total < motaHeaderLen + motaTrailer.length ∨ limit - a < total then none
  else if slice mem (a + total - motaTrailer.length) motaTrailer.length = motaTrailer then
    motaManifest cfg a total header
  else none

/-- What the parser vouches for, of a container at `addr` below `limit` of the bytes `f`. -/
structure Parsed (env : Env) (cfg : Profile) (f : Mem) (addr limit : Nat) (m : MotaMin) : Prop where
  approvalAddr : m.approvalAddr = addr + approvalOffset
  total_min : motaMinLen ≤ m.total
  total_max : addr + m.total ≤ limit
  total_lt : m.total < 2 ^ 32
  imageSize_lt : m.imageSize < 2 ^ 32
  /-- The payload lies in the container. -/
  payload : m.payloadAddr + m.payloadSize ≤ addr + m.total
  staged : env.Stable → containerAt cfg f addr limit = some m

theorem motaManifest_fields {addr total : Nat} {header : List Byte} {m : MotaMin}
    (h : motaManifest cfg addr total header = some m) :
    m.approvalAddr = addr + approvalOffset ∧ m.total = total ∧ m.imageSize = wordAt header 19 ∧
      m.payloadAddr + m.payloadSize ≤ addr + total := by
  unfold motaManifest at h
  simp only at h
  rw [Option.ite_none_left_eq_some] at h
  obtain ⟨-, h⟩ := h
  rw [Option.ite_none_left_eq_some] at h
  obtain ⟨-, h⟩ := h
  rw [Option.ite_none_left_eq_some] at h
  obtain ⟨-, h⟩ := h
  rw [Option.ite_none_left_eq_some, Option.some_inj] at h
  obtain ⟨hend, rfl⟩ := h
  refine ⟨rfl, rfl, rfl, ?_⟩
  simp only
  rw [not_or, not_not] at hend
  omega

theorem motaManifest_parsed {addr total limit : Nat} {header : List Byte} {m : MotaMin} {f : Mem}
    (h : motaManifest cfg addr total header = some m) (hmin : motaMinLen ≤ total)
    (hmax : addr + total ≤ limit) (hlt : total < 2 ^ 32)
    (hstaged : env.Stable → containerAt cfg f addr limit = some m) :
    Parsed env cfg f addr limit m := by
  obtain ⟨happroval, rfl, himage, hpayload⟩ := motaManifest_fields h
  exact ⟨happroval, hmin, hmax, hlt, himage ▸ get32_lt _ _ _ _, hpayload, hstaged⟩

theorem parseMotaAt_spec (addr limit : Nat) :
    (parseMotaAt cfg addr limit).Sat (handler env) (Reads cfg)
      (fun r s' => (∀ m, r = some m → Parsed env cfg (sourceByte env cfg s) addr limit m) ∧
        Still s s') s := by
  unfold parseMotaAt
  have hnone : ∀ m, (none : Option MotaMin) = some m →
      Parsed env cfg (sourceByte env cfg s) addr limit m := nofun
  split_ifs with hlimit havail
  · exact ⟨hnone, .refl s⟩
  · exact ⟨hnone, .refl s⟩
  refine (stagedRead_spec addr motaHeaderLen).bind fun r s1 h => ?_
  obtain ⟨hheader, hst⟩ := h
  cases r with
  | none => exact ⟨hnone, hst⟩
  | some header =>
    simp only
    split_ifs with hmagic htotal
    · exact ⟨hnone, hst⟩
    · exact ⟨hnone, hst⟩
    refine (stagedRead_spec _ _).bind fun t s2 h => ?_
    split_ifs with htrailer
    · refine ⟨fun m hm => motaManifest_parsed hm ?_ ?_ (get32_lt _ _ _ _) fun hstab => ?_,
        hst.trans h.2⟩
      · rw [not_or] at htotal
        exact Nat.le_of_not_lt htotal.1
      · rw [not_or] at htotal
        omega
      · have hbytes := (Holds.still h.1 hst _ htrailer).2 hstab
        obtain rfl := (hheader header rfl).2 hstab
        rw [containerAt, if_neg (not_or.mpr ⟨hlimit, havail⟩), if_neg hmagic, if_neg htotal,
          if_pos hbytes.symm, hm]
    · exact ⟨hnone, hst.trans h.2⟩

/-- A container in the internal staging window. -/
structure InFlash (env : Env) (cfg : Profile) (f : Mem) (base ceiling a : Nat) (m : MotaMin) : Prop
    extends Parsed env cfg f a ceiling m where
  aligned : a % codePageSize = 0
  base_le : base < a + codePageSize

theorem scanPages_spec (base ceiling k : Nat) (s : Device) (hsd : cfg.sdSelected s.statics = false)
    (hq : cfg.qspiSelected s.statics = false) :
    (scanPages cfg base ceiling k).Sat (handler env) (Reads cfg)
      (fun r s' => (∀ a m, r = some (a, m) →
        InFlash env cfg (sourceByte env cfg s) base ceiling a m) ∧ Still s s') s := by
  induction k generalizing s with
  | zero => exact ⟨nofun, .refl s⟩
  | succ k ih =>
    unfold scanPages
    split_ifs with hbase
    · exact ⟨nofun, .refl s⟩
    have hr : Reads cfg (.stagedFlash (k * codePageSize) 4) s := ⟨hsd, .inr hq⟩
    refine sat_op.mpr ⟨hr, ?_⟩
    have hst : Still s (after env (.stagedFlash (k * codePageSize) 4) s) := still_after hr
    refine Sat.bind (Q := fun r s' =>
      (∀ m, r = some m → Parsed env cfg (sourceByte env cfg s) (k * codePageSize) ceiling m) ∧
        Still s s') ?_ fun r s1 h => ?_
    · split_ifs
      · exact (parseMotaAt_spec _ _).post fun r s' h => ⟨sourceByte_still hst ▸ h.1, hst.trans h.2⟩
      · exact ⟨nofun, hst⟩
    have hnext := ih s1 ((h.2.source.sdSelected cfg).trans hsd)
      ((h.2.source.qspiSelected cfg).trans hq)
    rw [sourceByte_still h.2] at hnext
    cases r with
    | none => exact hnext.post fun r s' h' => ⟨h'.1, h.2.trans h'.2⟩
    | some m =>
      simp only
      split_ifs with hal
      · refine ⟨fun a m' heq => ?_, h.2⟩
        obtain ⟨rfl, rfl⟩ := Prod.mk.inj (Option.some.inj heq)
        refine ⟨h.1 m rfl, Nat.mul_mod_left _ _, ?_⟩
        rw [Nat.add_mul, Nat.one_mul] at hbase
        omega
      · exact hnext.post fun r s' h' => ⟨h'.1, h.2.trans h'.2⟩

/-- Where the container found in the selected source lies; the source holds the bytes `f`. -/
structure Located (env : Env) (cfg : Profile) (g : Statics) (f : Mem) (base ceiling a : Nat)
    (m : MotaMin) : Prop where
  sd : cfg.sdSelected g = true → a = 1 ∧ g.sdAuthLoaded = true ∧
    m.total = g.sdAuth.containerTotal ∧ Parsed env cfg f 0 g.sdAuth.containerTotal m
  hybrid : cfg.sdSelected g = false → cfg.hybridSelected g = true → a = g.hybrid.flashStart ∧
    m.total = g.hybrid.containerTotal ∧ Parsed env cfg f a (a + g.hybrid.containerTotal) m
  qspi : cfg.sdSelected g = false → cfg.hybridSelected g = false → cfg.qspiSelected g = true →
    a = 1 ∧ ∃ capacity, Parsed env cfg f 0 capacity m
  internal : cfg.sdSelected g = false → cfg.hybridSelected g = false →
    cfg.qspiSelected g = false → InFlash env cfg f base ceiling a m ∧ ceiling ≤ stageCeilingExpanded

theorem Located.keeps {g g' : Statics} {f : Mem} {base ceiling a : Nat} {m : MotaMin}
    (h : Located env cfg g f base ceiling a m) (hg : KeepsSource g g') :
    Located env cfg g' f base ceiling a m where
  sd h1 := by
    rw [hg.sdAuthLoaded, hg.sdAuth]
    exact h.sd (hg.sdSelected cfg ▸ h1)
  hybrid h1 h2 := by
    rw [hg.hybrid]
    exact h.hybrid (hg.sdSelected cfg ▸ h1) (hg.hybridSelected cfg ▸ h2)
  qspi h1 h2 h3 := h.qspi (hg.sdSelected cfg ▸ h1) (hg.hybridSelected cfg ▸ h2)
    (hg.qspiSelected cfg ▸ h3)
  internal h1 h2 h3 := h.internal (hg.sdSelected cfg ▸ h1) (hg.hybridSelected cfg ▸ h2)
    (hg.qspiSelected cfg ▸ h3)

/-- A change of variables that selects no other source is a read of its own. -/
theorem sat_modify {β : Type} {f : Statics → Statics} {k : MotaM β} {Q : β → Device → Prop}
    (hs : KeepsSource s.statics (f s.statics)) (hc : KeepsCache s.statics (f s.statics))
    (hk : ∀ s', Still s s' → s'.statics = f s.statics → k.Sat (handler env) (Reads cfg) Q s') :
    (modifyStatics f >>= fun _ => k).Sat (handler env) (Reads cfg) Q s := by
  have hget : Still s (after env .get s) := still_after (show Reads cfg .get s from trivial)
  have hset : Reads cfg (.set (f s.statics)) (after env .get s) := ⟨hs, hc⟩
  exact sat_get.mpr ⟨trivial, sat_op.mpr ⟨hset, hk _ (hget.trans (still_after hset)) rfl⟩⟩

/-- `scanSd` behind the check of its authorization. -/
def scanCard (cfg : Profile) (total : Nat) : MotaM (Option (Nat × MotaMin)) := do
  let ready ← otaSdInit
  if !ready then return none
  else
    let r ← parseMotaAt cfg 0 total
    match r with
    | none => return none
    | some m => return if m.total = total then some (1, m) else none

theorem scanSd_spec (base ceiling : Nat) (hsd : cfg.sdSelected s.statics = true) :
    (scanSd cfg).Sat (handler env) (Reads cfg)
      (fun r s' => (∀ a m, r = some (a, m) →
        Located env cfg s.statics (sourceByte env cfg s) base ceiling a m) ∧ Still s s')
      s := by
  have hrest : ∀ s1, Still s s1 → s.statics.sdAuthLoaded = true →
      (scanCard cfg s.statics.sdAuth.containerTotal).Sat (handler env) (Reads cfg)
      (fun r s' => (∀ a m, r = some (a, m) →
        Located env cfg s.statics (sourceByte env cfg s) base ceiling a m) ∧ Still s s')
      s1 := by
    intro s1 h1 hloaded
    have hr : Reads cfg .sdInit s1 := (h1.source.sdSelected cfg).trans hsd
    refine sat_op.mpr ⟨hr, ?_⟩
    have h2 : Still s (after env .sdInit s1) := h1.trans (still_after hr)
    split_ifs
    · exact ⟨nofun, h2⟩
    refine (parseMotaAt_spec _ _).bind fun r s3 h3 => ?_
    cases r with
    | none => exact ⟨nofun, h2.trans h3.2⟩
    | some m =>
      refine ⟨fun a m' heq => ?_, h2.trans h3.2⟩
      simp only [Option.ite_none_right_eq_some, Option.some.injEq, Prod.mk.injEq] at heq
      obtain ⟨htotal, rfl, rfl⟩ := heq
      have hparsed := h3.1 m rfl
      rw [sourceByte_still h2] at hparsed
      refine ⟨fun _ => ⟨rfl, hloaded, htotal, hparsed⟩, fun h => ?_, fun h => ?_, fun h => ?_⟩
      all_goals
        rw [hsd] at h
        cases h
  have hget : Still s (after env .get s) := still_after (show Reads cfg .get s from trivial)
  refine sat_get.mpr ⟨trivial, ?_⟩
  by_cases hloaded : s.statics.sdAuthLoaded = true
  · rw [if_neg (by simp [hloaded])]
    by_cases hrak : cfg.rakSdStore = true
    · rw [if_pos hrak]
      refine sat_modify ⟨rfl, rfl, rfl, rfl, rfl⟩ ⟨rfl, rfl, rfl⟩ fun s1 h1 _ => ?_
      exact hrest s1 (hget.trans h1) hloaded
    · rw [if_neg hrak]
      exact hrest _ hget hloaded
  · rw [if_pos (by simp [hloaded])]
    exact ⟨nofun, hget⟩

theorem scanHybrid_spec (base ceiling : Nat) (hsd : cfg.sdSelected s.statics = false)
    (hh : cfg.hybridSelected s.statics = true) :
    (scanHybrid cfg s.statics.hybrid).Sat (handler env) (Reads cfg)
      (fun r s' => (∀ a m, r = some (a, m) →
        Located env cfg s.statics (sourceByte env cfg s) base ceiling a m) ∧ Still s s')
      s := by
  refine (parseMotaAt_spec _ _).bind fun r s1 h1 => ?_
  cases r with
  | none => exact ⟨nofun, h1.2⟩
  | some m =>
    refine ⟨fun a m' heq => ?_, h1.2⟩
    simp only [Option.ite_none_right_eq_some, Option.some.injEq, Prod.mk.injEq] at heq
    obtain ⟨⟨htotal, happroval⟩, rfl, rfl⟩ := heq
    refine ⟨fun h => ?_, fun _ _ => ⟨rfl, htotal, h1.1 m rfl⟩, fun _ h => ?_, fun _ h => ?_⟩
    · rw [hsd] at h
      cases h
    all_goals
      rw [hh] at h
      cases h

theorem scanQspi_spec (base ceiling : Nat) (hsd : cfg.sdSelected s.statics = false)
    (hh : cfg.hybridSelected s.statics = false) (hq : cfg.qspiSelected s.statics = true) :
    (scanQspi cfg).Sat (handler env) (Reads cfg)
      (fun r s' => (∀ a m, r = some (a, m) →
        Located env cfg s.statics (sourceByte env cfg s) base ceiling a m) ∧ Still s s')
      s := by
  have hr : Reads cfg .qspiInit s := ⟨hsd, hh, hq⟩
  have h1 : Still s (after env .qspiInit s) := still_after hr
  refine sat_op.mpr ⟨hr, ?_⟩
  split_ifs
  · exact ⟨nofun, h1⟩
  have hr' : Reads cfg .qspiCapacity (after env .qspiInit s) := ⟨hsd, hh, hq⟩
  have h2 : Still s (after env .qspiCapacity (after env .qspiInit s)) :=
    h1.trans (still_after hr')
  refine sat_op.mpr ⟨hr', ?_⟩
  split_ifs
  · exact ⟨nofun, h2⟩
  refine sat_modify ⟨rfl, rfl, rfl, rfl, rfl⟩ ⟨rfl, rfl, rfl⟩ fun s3 h3 _ => ?_
  refine (parseMotaAt_spec _ _).bind fun r s4 h4 => ?_
  have hst := (h2.trans h3).trans h4.2
  cases r with
  | none => exact ⟨nofun, hst⟩
  | some m =>
    refine sat_modify ⟨rfl, rfl, rfl, rfl, rfl⟩ ⟨rfl, rfl, rfl⟩ fun s5 h5 _ => ?_
    refine ⟨fun a m' heq => ?_, hst.trans h5⟩
    obtain ⟨rfl, rfl⟩ := Prod.mk.inj (Option.some.inj heq)
    have hparsed := h4.1 m rfl
    rw [sourceByte_still (h2.trans h3)] at hparsed
    refine ⟨fun h => ?_, fun _ h => ?_, fun _ _ _ => ⟨rfl, _, hparsed⟩, fun _ _ h => ?_⟩
    · rw [hsd] at h
      cases h
    · rw [hh] at h
      cases h
    · rw [hq] at h
      cases h

theorem scanFlash_spec (ceiling : Nat) (hsd : cfg.sdSelected s.statics = false)
    (hh : cfg.hybridSelected s.statics = false) (hq : cfg.qspiSelected s.statics = false) :
    (scanFlash cfg ceiling).Sat (handler env) (Reads cfg)
      (fun r s' => (∀ a m, r = some (a, m) →
        Located env cfg s.statics (sourceByte env cfg s) (dfuBank0RegionStart s.mem)
          ceiling a m) ∧ Still s s') s := by
  unfold scanFlash
  have hl : stageCeilingLegacy = 0xD4000 := rfl
  have he : stageCeilingExpanded = 0xED000 := rfl
  have hx : motaBlScratchStart = 0xE0000 := rfl
  split_ifs with hc
  · exact ⟨nofun, .refl s⟩
  have hread : Reads cfg .view s := trivial
  have h1 : Still s (after env .view s) := still_after hread
  refine sat_op.mpr ⟨hread, ?_⟩
  refine (scanPages_spec _ _ _ (after env .view s) hsd hq).post fun r s' h =>
    ⟨fun a m heq => ?_, h1.trans h.2⟩
  refine ⟨fun h => ?_, fun _ h => ?_, fun _ _ h => ?_, fun _ _ _ => ⟨h.1 a m heq, by omega⟩⟩
  · rw [hsd] at h
    cases h
  · rw [hh] at h
    cases h
  · rw [hq] at h
    cases h

theorem scanSource_spec (ceiling : Nat) :
    (scanSource cfg ceiling).Sat (handler env) (Reads cfg)
      (fun r s' => (∀ a m, r = some (a, m) →
        Located env cfg s.statics (sourceByte env cfg s) (dfuBank0RegionStart s.mem)
          ceiling a m) ∧ Still s s') s := by
  have hread : Reads cfg .get s := trivial
  have h1 : Still s (after env .get s) := still_after hread
  refine sat_op.mpr ⟨hread, ?_⟩
  change Sat _ _ _ (if cfg.sdSelected s.statics = true then _ else _) _
  split_ifs with hsd honly hh hq
  · exact (scanSd_spec (s := after env .get s) _ _ hsd).post fun r s' h => ⟨h.1, h1.trans h.2⟩
  · exact ⟨nofun, h1⟩
  all_goals rw [Bool.not_eq_true] at hsd
  · exact (scanHybrid_spec (s := after env .get s) _ _ hsd hh).post
      fun r s' h => ⟨h.1, h1.trans h.2⟩
  all_goals rw [Bool.not_eq_true] at hh
  · exact (scanQspi_spec (s := after env .get s) _ _ hsd hh hq).post
      fun r s' h => ⟨h.1, h1.trans h.2⟩
  · rw [Bool.not_eq_true] at hq
    exact (scanFlash_spec (s := after env .get s) _ hsd hh hq).post
      fun r s' h => ⟨h.1, h1.trans h.2⟩

/-! ## The detools header -/

/-- A program of reads whose answer no later proof depends on. -/
abbrev OnlyReads (env : Env) (cfg : Profile) (p : MotaM α) : Prop :=
  ∀ s, p.Sat (handler env) (Reads cfg) (fun _ s' => Still s s') s

theorem OnlyReads.ret (x : α) : OnlyReads env cfg (.ret x) := fun s => Still.refl s

theorem OnlyReads.bind {β : Type} {p : MotaM α} {f : α → MotaM β} (hp : OnlyReads env cfg p)
    (hf : ∀ x, OnlyReads env cfg (f x)) : OnlyReads env cfg (p >>= f) := fun s =>
  (hp s).bind fun x s1 h1 => (hf x s1).post fun _ _ h2 => h1.trans h2

theorem onlyReads_stagedRead (a n : Nat) : OnlyReads env cfg (stagedRead cfg a n) := fun _ =>
  (stagedRead_spec a n).post fun _ _ h => h.2

theorem onlyReads_dtHeaderLoop (addr len fuel pos v shift : Nat) (b : Byte) :
    OnlyReads env cfg (dtHeaderLoop cfg addr len fuel pos v shift b) := by
  induction fuel generalizing pos v shift b with
  | zero => exact .ret _
  | succ fuel ih =>
    unfold dtHeaderLoop
    split_ifs
    · exact .ret _
    · exact .ret _
    · exact .ret _
    refine (onlyReads_stagedRead _ _).bind fun r => ?_
    cases r with
    | none => exact .ret _
    | some d =>
      simp only
      split_ifs
      · exact .ret _
      · exact ih _ _ _ _

theorem onlyReads_dtHeaderU32 (addr len pos : Nat) :
    OnlyReads env cfg (dtHeaderU32 cfg addr len pos) := by
  unfold dtHeaderU32
  split_ifs
  · exact .ret _
  refine (onlyReads_stagedRead _ _).bind fun r => ?_
  cases r with
  | none => exact .ret _
  | some d => exact onlyReads_dtHeaderLoop _ _ _ _ _ _ _

theorem onlyReads_dtHeaderSizes (addr len n pos : Nat) :
    OnlyReads env cfg (dtHeaderSizes cfg addr len n pos) := by
  induction n generalizing pos with
  | zero => exact .ret _
  | succ n ih =>
    refine (onlyReads_dtHeaderU32 _ _ _).bind fun r => ?_
    cases r with
    | none => exact .ret _
    | some p => exact (ih p.2).bind fun _ => .ret _

theorem onlyReads_dtGeometryOk (m : MotaMin) (bodyLen wsSpan : Nat) :
    OnlyReads env cfg (dtGeometryOk cfg m bodyLen wsSpan) := by
  unfold dtGeometryOk
  split_ifs
  · exact .ret _
  refine (onlyReads_stagedRead _ _).bind fun r => ?_
  cases r with
  | none => exact .ret _
  | some d =>
    refine (onlyReads_dtHeaderSizes _ _ _ _).bind fun sizes => ?_
    cases sizes with
    | none => exact .ret _
    | some sizes => exact .ret _

theorem onlyReads_stagedVectorsValid (payloadAddr : Nat) :
    OnlyReads env cfg (stagedVectorsValid cfg payloadAddr) := by
  refine (onlyReads_stagedRead _ _).bind fun r => ?_
  cases r with
  | none => exact .ret _
  | some vectors => exact .ret _

end OtaFix.Mota
