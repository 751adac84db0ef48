import OtaFix.Mota.Reads

/-!
# Page writes

`Writes cfg lo hi o s`: the operation `o` reads, or erases or writes a page of
`[lo, hi)`, or marks such a write. The verified page rewrite, the page cache and the decoder are programs
of such operations, however a page operation fails. Where a cached write reports
success, `cacheView`, the flash under the cached page, holds what was written.
-/

namespace OtaFix.Mota

open Lib Prog

variable {env : Env} {cfg : Profile} {s s' s'' : Device} {lo hi page : Nat}

/-! ## Operations -/

/-- A page of `[lo, hi)`. -/
structure PageIn (lo hi page : Nat) : Prop where
  low : lo ≤ page
  high : page + codePageSize ≤ hi
  aligned : page % codePageSize = 0

/-- The cache holds no page, or one of `[lo, hi)`. -/
structure CacheIn (lo hi : Nat) (g : Statics) : Prop where
  length : g.cache.length = codePageSize
  page : g.cachePage ≠ 0 → PageIn lo hi g.cachePage

theorem CacheIn.keeps {g g' : Statics} (h : CacheIn lo hi g) (hk : KeepsCache g g') :
    CacheIn lo hi g' where
  length := hk.cache ▸ h.length
  page hp := by
    rw [hk.cachePage] at hp ⊢
    exact h.page hp

/-- An operation of the verified rewrite of `page`. -/
def Rewrites (page : Nat) : Op → Prop
  | .erase p => p = page
  | .words a d => a = page ∧ d.length = codePageSize
  | .view | .mark .pageFailed => True
  | _ => False

def Writes (cfg : Profile) (lo hi : Nat) (o : Op) (s : Device) : Prop :=
  match o with
  | .erase p => PageIn lo hi p
  | .words a d => PageIn lo hi a ∧ d.length = codePageSize
  | .mark .pageFailed | .mark .commit => True
  | .set g => KeepsSource s.statics g ∧ (CacheIn lo hi s.statics → CacheIn lo hi g)
  | o => Reads cfg o s

theorem Reads.writes {o : Op} (h : Reads cfg o s) : Writes cfg lo hi o s := by
  cases o with
  | set g => exact ⟨h.1, fun hc => hc.keeps h.2⟩
  | erase | words | mark => exact h.elim
  | _ => exact h

theorem Rewrites.writes {o : Op} (h : Rewrites page o) (hp : PageIn lo hi page) :
    Writes cfg lo hi o s := by
  cases o with
  | erase p =>
    obtain rfl : p = page := h
    exact hp
  | words a d =>
    obtain ⟨rfl, hd⟩ := h
    exact ⟨hp, hd⟩
  | view => trivial
  | mark e =>
    cases e with
    | pageFailed => trivial
    | _ => exact h.elim
  | _ => exact h.elim

/-- What `o` erases or writes are pages of `[lo, hi)`. -/
def PageOp (lo hi : Nat) : Op → Prop
  | .erase p => PageIn lo hi p
  | .words a d => PageIn lo hi a ∧ d.length = codePageSize
  | .settingsCommit _ => False
  | _ => True

theorem Writes.pageOp {o : Op} (h : Writes cfg lo hi o s) : PageOp lo hi o := by
  cases o with
  | erase | words | settingsCommit => exact h
  | _ => trivial

theorem Rewrites.pageOp {o : Op} (h : Rewrites page o) (hp : page % codePageSize = 0) :
    PageOp page (page + codePageSize) o := by
  have hin : PageIn page (page + codePageSize) page := ⟨Nat.le_refl _, Nat.le_refl _, hp⟩
  cases o with
  | erase p =>
    obtain rfl : p = page := h
    exact hin
  | words a d =>
    obtain ⟨rfl, hd⟩ := h
    exact ⟨hin, hd⟩
  | settingsCommit => exact h.elim
  | _ => trivial

/-- The flash operations of a page operation stay on its page, whatever its fault. -/
theorem nvOps_inside {o : Op} (h : PageOp lo hi o) :
    ∀ op ∈ nvOps env o s, lo ≤ op.start ∧ op.stop ≤ hi := by
  intro op hop
  cases o with
  | erase p =>
    have hlow := h.low
    have hhigh := h.high
    simp only [nvOps, eraseOps] at hop
    split at hop
    · obtain rfl := List.mem_singleton.mp hop
      exact ⟨hlow, hhigh⟩
    · cases hop
    · rcases List.mem_cons.mp hop with rfl | hop
      · exact ⟨hlow, hhigh⟩
      · obtain rfl := List.mem_singleton.mp hop
        simp only [FlashOp.start, FlashOp.stop, List.length_take]
        omega
  | words a d =>
    obtain ⟨⟨hlow, hhigh, -⟩, hd⟩ := h
    simp only [nvOps, wordsOps] at hop
    split at hop
    · have := mem_wordsWrite hop
      omega
    · cases hop
    · have := mem_wordsWrite hop
      rw [List.length_take] at this
      omega
  | settingsCommit r => exact h.elim
  | _ => cases hop

theorem replay_outside {ops : List FlashOp} (h : ∀ op ∈ ops, lo ≤ op.start ∧ op.stop ≤ hi) {x : Nat}
    (hx : x < lo ∨ hi ≤ x) (m : Mem) : replay ops m x = m x := by
  refine replay_spares (fun op hop => ?_) m
  have := h op hop
  omega

/-- At most the flash in `[lo, hi)` has changed, and the cache within it. -/
structure Touched (lo hi : Nat) (s s' : Device) : Prop where
  mem : ∀ x, x < lo ∨ hi ≤ x → s'.mem x = s.mem x
  gpregret : s'.gpregret = s.gpregret
  gpregret2 : s'.gpregret2 = s.gpregret2
  retained : s'.retained = s.retained
  nor : s'.nor = s.nor
  mbr : s'.mbr = s.mbr
  source : KeepsSource s.statics s'.statics
  cache : CacheIn lo hi s.statics → CacheIn lo hi s'.statics
  marks : ∃ l, s'.marks = s.marks ++ l ∧ ∀ e ∈ l, e = .pageFailed ∨ e = .commit

theorem Still.touched (h : Still s s') : Touched lo hi s s' where
  mem x _ := by rw [h.mem]
  gpregret := h.gpregret
  gpregret2 := h.gpregret2
  retained := h.retained
  nor := h.nor
  mbr := h.mbr
  source := h.source
  cache hc := hc.keeps h.cache
  marks := ⟨[], by simp [h.marks]⟩

theorem Touched.refl (s : Device) : Touched lo hi s s := (Still.refl s).touched

theorem Touched.trans (h : Touched lo hi s s') (h' : Touched lo hi s' s'') :
    Touched lo hi s s'' where
  mem x hx := (h'.mem x hx).trans (h.mem x hx)
  gpregret := h'.gpregret.trans h.gpregret
  gpregret2 := h'.gpregret2.trans h.gpregret2
  retained := h'.retained.trans h.retained
  nor := h'.nor.trans h.nor
  mbr := h'.mbr.trans h.mbr
  source := h.source.trans h'.source
  cache hc := h'.cache (h.cache hc)
  marks := by
    obtain ⟨l, hl, he⟩ := h.marks
    obtain ⟨l', hl', he'⟩ := h'.marks
    refine ⟨l ++ l', by rw [hl', hl, List.append_assoc], fun e h => ?_⟩
    rcases List.mem_append.mp h with h | h
    · exact he e h
    · exact he' e h

theorem Touched.mem_marks (h : Touched lo hi s s') {e : Mark} (hp : e ≠ .pageFailed)
    (hc : e ≠ .commit) : e ∈ s'.marks ↔ e ∈ s.marks := by
  obtain ⟨l, hl, he⟩ := h.marks
  rw [hl, List.mem_append]
  refine ⟨fun h => h.resolve_right fun hr => ?_, .inl⟩
  rcases he e hr with h | h
  · exact hp h
  · exact hc h

theorem Touched.marks_subset (h : Touched lo hi s s') {e : Mark} (he : e ∈ s.marks) :
    e ∈ s'.marks := by
  obtain ⟨l, hl, -⟩ := h.marks
  rw [hl]
  exact List.mem_append_left _ he

theorem touched_after {o : Op} (h : Writes cfg lo hi o s) : Touched lo hi s (after env o s) := by
  have hmem : ∀ x, x < lo ∨ hi ≤ x → replay (nvOps env o s) s.mem x = s.mem x :=
    fun x hx => replay_outside (nvOps_inside h.pageOp) hx s.mem
  cases o with
  | set g => exact ⟨hmem, rfl, rfl, rfl, rfl, rfl, h.1, h.2, [], by simp [after]⟩
  | erase | words => exact ⟨hmem, rfl, rfl, rfl, rfl, rfl, .refl _, id, [], by simp [after]⟩
  | mark e =>
    cases e with
    | pageFailed =>
      exact ⟨hmem, rfl, rfl, rfl, rfl, rfl, .refl _, id, [.pageFailed], rfl, by simp⟩
    | commit => exact ⟨hmem, rfl, rfl, rfl, rfl, rfl, .refl _, id, [.commit], rfl, by simp⟩
    | _ => exact h.elim
  | get | gpregret | gpregret2 | resetreas | view | stagedFlash | stagedRam | sdInit | sdRead
  | qspiInit | qspiCapacity | qspiRead => exact Still.touched (still_after (show Reads cfg _ s by exact h))
  | setGpregret | setGpregret2 | takeRetained | sdDeinit | qspiSetRakSource | qspiWrite
  | qspiDeinit | settingsCommit | mbrCopy => exact h.elim

/-! ## Verified page rewrites -/

theorem Rewrites.touched {o : Op} (h : Rewrites page o) (hp : page % codePageSize = 0) :
    Touched page (page + codePageSize) s (after env o s) := by
  have hmem : ∀ x, x < page ∨ page + codePageSize ≤ x → replay (nvOps env o s) s.mem x = s.mem x :=
    fun x hx => replay_outside (nvOps_inside (h.pageOp hp)) hx s.mem
  cases o with
  | erase | words | view =>
    exact ⟨hmem, rfl, rfl, rfl, rfl, rfl, .refl _, id, [], by simp [after]⟩
  | mark e =>
    cases e with
    | pageFailed =>
      exact ⟨hmem, rfl, rfl, rfl, rfl, rfl, .refl _, id, [.pageFailed], rfl, by simp⟩
    | _ => exact h.elim
  | _ => exact h.elim

/-- The page has been rewritten, or `r` reports that it could not be. -/
structure Rewrote (page : Nat) (d : List Byte) (s : Device) (r : Bool) (s' : Device) : Prop where
  touched : Touched page (page + codePageSize) s s'
  statics : s'.statics = s.statics
  written : r = true → slice s'.mem page codePageSize = d
  marks : r = true → s'.marks = s.marks
  failed : r = false → .pageFailed ∈ s'.marks

theorem Rewrote.trans {d : List Byte} {r : Bool} (h : Rewrote page d s' r s'')
    (ht : Touched page (page + codePageSize) s s') (hs : s'.statics = s.statics)
    (hm : s'.marks = s.marks) : Rewrote page d s r s'' where
  touched := ht.trans h.touched
  statics := h.statics.trans hs
  written := h.written
  marks hr := (h.marks hr).trans hm
  failed := h.failed

/-- The readback behind an attempt. -/
theorem sat_readback {ok : Op → Device → Prop} {Q : Bool → Device → Prop} {d : List Byte}
    {next : MotaM Bool} (hview : ok .view s)
    (hyes : slice s.mem page codePageSize = d → Q true (after env .view s))
    (hno : slice s.mem page codePageSize ≠ d → next.Sat (handler env) ok Q (after env .view s)) :
    (do
      let m ← flash
      if slice m page codePageSize = d then return true else next : MotaM Bool).Sat
      (handler env) ok Q s := by
  -- the split comes first: afterwards the goal would be unfolded through the page
  by_cases heq : slice s.mem page codePageSize = d
  · refine sat_flash.mpr ⟨hview, ?_⟩
    rw [if_pos heq]
    exact hyes heq
  · refine sat_flash.mpr ⟨hview, ?_⟩
    rw [if_neg heq]
    exact hno heq

theorem pageAttempts_spec (hp : page % codePageSize = 0) {words : Option (List Byte)}
    (hd : ∀ d, words = some d → d.length = codePageSize) (n : Nat) (s : Device) :
    (pageAttempts page words n).Sat (handler env) (fun o _ => Rewrites page o)
      (Rewrote page (words.getD (List.replicate codePageSize 0xFF)) s) s := by
  induction n generalizing s with
  | zero =>
    have hmark : Rewrites page (.mark .pageFailed) := trivial
    refine sat_op.mpr ⟨hmark, hmark.touched hp, rfl, nofun, nofun, fun _ => ?_⟩
    exact List.mem_append_right _ (List.mem_singleton_self _)
  | succ n ih =>
    have hview : Rewrites page .view := trivial
    have herase : Rewrites page (.erase page) := rfl
    unfold pageAttempts
    refine sat_op.mpr ⟨herase, ?_⟩
    cases words with
    | none =>
      have h2 : Touched page (page + codePageSize) s
          (after env .view (after env (.erase page) s)) :=
        (herase.touched hp).trans (hview.touched hp)
      exact sat_readback hview (fun h => ⟨h2, rfl, fun _ => h, fun _ => rfl, nofun⟩)
        fun _ => (ih _).post fun r s' h => h.trans h2 rfl rfl
    | some d =>
      have hwords : Rewrites page (.words page d) := ⟨rfl, hd d rfl⟩
      have h3 : Touched page (page + codePageSize) s
          (after env .view (after env (.words page d) (after env (.erase page) s))) :=
        ((herase.touched hp).trans (hwords.touched hp)).trans (hview.touched hp)
      refine sat_op.mpr ⟨hwords, ?_⟩
      exact sat_readback hview (fun h => ⟨h3, rfl, fun _ => h, fun _ => rfl, nofun⟩)
        fun _ => (ih _).post fun r s' h => h.trans h3 rfl rfl

theorem Rewrote.touched_in {d : List Byte} {r : Bool} (h : Rewrote page d s r s')
    (hp : PageIn lo hi page) : Touched lo hi s s' where
  mem x hx := h.touched.mem x (by have := hp.low; have := hp.high; omega)
  gpregret := h.touched.gpregret
  gpregret2 := h.touched.gpregret2
  retained := h.touched.retained
  nor := h.touched.nor
  mbr := h.touched.mbr
  source := h.touched.source
  cache hc := h.statics ▸ hc
  marks := h.touched.marks

theorem flashPageWriteVerified_spec (hp : PageIn lo hi page) {d : List Byte}
    (hd : d.length = codePageSize) :
    (flashPageWriteVerified page d).Sat (handler env) (Writes cfg lo hi) (Rewrote page d s) s :=
  (pageAttempts_spec hp.aligned (fun _ h => Option.some.inj h ▸ hd) _ s).mono
    (fun _ _ h => h.writes hp) fun _ _ h => h

theorem flashPageEraseVerified_spec (hp : PageIn lo hi page) :
    (flashPageEraseVerified page).Sat (handler env) (Writes cfg lo hi)
      (Rewrote page (List.replicate codePageSize 0xFF) s) s :=
  (pageAttempts_spec hp.aligned (fun _ h => by cases h) _ s).mono (fun _ _ h => h.writes hp)
    fun _ _ h => h

/-! ## The cache -/

/-- The flash under the cached page. -/
def cacheView (s : Device) (x : Nat) : Byte :=
  if s.statics.cachePage ≠ 0 ∧ s.statics.cachePage ≤ x ∧
      x < s.statics.cachePage + codePageSize then
    s.statics.cache.getD (x - s.statics.cachePage) 0
  else s.mem x

/-- A page that is not dirty is as in flash. -/
def Clean (s : Device) : Prop :=
  s.statics.cachePage ≠ 0 → s.statics.cacheDirty = false →
    s.statics.cache = slice s.mem s.statics.cachePage codePageSize

/-- A run of page writes without a failed page, or with one that `r` reports. -/
structure Verified (lo hi : Nat) (s : Device) (r : Bool) (s' : Device) : Prop where
  touched : Touched lo hi s s'
  marks : r = true → s'.marks = s.marks
  failed : r = false → .pageFailed ∈ s'.marks

theorem Rewrote.verified {d : List Byte} {r : Bool} (h : Rewrote page d s r s')
    (hp : PageIn lo hi page) : Verified lo hi s r s' := ⟨h.touched_in hp, h.marks, h.failed⟩

theorem Verified.trans {r : Bool} (h : Verified lo hi s true s') (h' : Verified lo hi s' r s'') :
    Verified lo hi s r s'' where
  touched := h.touched.trans h'.touched
  marks hr := (h'.marks hr).trans (h.marks rfl)
  failed := h'.failed

theorem Still.verified (h : Still s s') : Verified lo hi s true s' := ⟨h.touched, fun _ => h.marks, nofun⟩

/-- A change of the cache's variables. -/
theorem sat_modifyCache {α : Type} {f : Statics → Statics} {k : MotaM α} {Q : α → Device → Prop}
    (hs : KeepsSource s.statics (f s.statics))
    (hc : CacheIn lo hi s.statics → CacheIn lo hi (f s.statics))
    (hk : ∀ s', Verified lo hi s true s' → s'.statics = f s.statics → s'.mem = s.mem →
      k.Sat (handler env) (Writes cfg lo hi) Q s') :
    (modifyStatics f >>= fun _ => k).Sat (handler env) (Writes cfg lo hi) Q s := by
  refine sat_get.mpr ⟨trivial, sat_op.mpr ⟨⟨hs, hc⟩, hk _ ⟨?_, fun _ => rfl, nofun⟩ rfl rfl⟩⟩
  exact ⟨fun _ _ => rfl, rfl, rfl, rfl, rfl, rfl, hs, hc, [], by simp [after]⟩

/-- A page operation, then the rest if it succeeds. -/
theorem Sat.bindVerified {α : Type} {ok : Op → Device → Prop} {p : MotaM Bool}
    {f : Bool → MotaM α} {P : Bool → Device → Prop} {R : α → Device → Prop}
    (hp : p.Sat (handler env) ok P s) (hfail : ∀ s', P false s' → (f false).Sat (handler env) ok R s')
    (hok : ∀ s', P true s' → (f true).Sat (handler env) ok R s') :
    (p >>= f).Sat (handler env) ok R s := by
  refine hp.bind fun r s' h => ?_
  cases r with
  | false => exact hfail s' h
  | true => exact hok s' h

theorem cacheFlush_spec (hin : CacheIn lo hi s.statics) :
    cacheFlush.Sat (handler env) (Writes cfg lo hi)
      (fun r s' => Verified lo hi s r s' ∧
        (r = true → s'.statics.cachePage = 0 ∧ (Clean s → s'.mem = cacheView s))) s := by
  have hget : Still s (after env .get s) := still_after (show Reads cfg .get s from trivial)
  refine sat_get.mpr ⟨trivial, ?_⟩
  by_cases h0 : s.statics.cachePage = 0
  · rw [if_pos h0]
    refine ⟨hget.verified, fun _ => ⟨h0, fun _ => ?_⟩⟩
    funext x
    simp [cacheView, h0, hget.mem]
  rw [if_neg h0]
  have hpage : PageIn lo hi s.statics.cachePage := hin.page h0
  -- written back or clean, the page in flash is the cached one
  refine Sat.bindVerified (P := fun r s' => Verified lo hi s r s' ∧
    (r = true → Clean s → slice s'.mem s.statics.cachePage codePageSize = s.statics.cache ∧
      ∀ x, x < s.statics.cachePage ∨ s.statics.cachePage + codePageSize ≤ x → s'.mem x = s.mem x))
    ?_ (fun s1 h1 => ⟨h1.1, nofun⟩) fun s1 h1 => ?_
  · split_ifs with hdirty
    · refine (flashPageWriteVerified_spec hpage hin.length).post fun r s' h => ?_
      refine ⟨hget.verified.trans (h.verified hpage), fun hr _ => ⟨h.written hr, fun x hx => ?_⟩⟩
      rw [h.touched.mem x hx, hget.mem]
    · refine ⟨hget.verified, fun _ hclean => ⟨?_, fun x _ => by rw [hget.mem]⟩⟩
      rw [hclean h0 (by simpa using hdirty), hget.mem]
  · refine sat_modifyCache ⟨rfl, rfl, rfl, rfl, rfl⟩ (fun hc => ⟨hc.length, fun h => absurd rfl h⟩)
      fun s2 h2 hg hm => ⟨h1.1.trans h2, fun _ => ⟨by rw [hg], fun hclean => ?_⟩⟩
    obtain ⟨hslice, hout⟩ := h1.2 rfl hclean
    funext x
    rw [hm]
    unfold cacheView
    split_ifs with hx
    · rw [← hslice, slice_getD hx.2.1 hx.2.2]
    · exact hout x (by omega)

theorem sat_flRead {α : Type} {ok : Op → Device → Prop} {a n : Nat} {f : List Byte → MotaM α}
    {Q : α → Device → Prop} :
    (flRead a n >>= f).Sat (handler env) ok Q s ↔
      ok .view s ∧ (f (slice s.mem a n)).Sat (handler env) ok Q (after env .view s) := Iff.rfl

theorem cacheUse_spec (hp : PageIn lo hi page) (hin : CacheIn lo hi s.statics) :
    (cacheUse page).Sat (handler env) (Writes cfg lo hi)
      (fun r s' => Verified lo hi s r s' ∧ (r = true → s'.statics.cachePage = page ∧
        (Clean s → Clean s' ∧ cacheView s' = cacheView s))) s := by
  have hget : Still s (after env .get s) := still_after (show Reads cfg .get s from trivial)
  refine sat_get.mpr ⟨trivial, ?_⟩
  by_cases heq : s.statics.cachePage = page
  · rw [if_pos heq]
    exact ⟨hget.verified, fun _ => ⟨heq, fun hclean => ⟨hclean, rfl⟩⟩⟩
  rw [if_neg heq]
  refine Sat.bindVerified (cacheFlush_spec (s := after env .get s) hin)
    (fun s1 h1 => ⟨hget.verified.trans h1.1, nofun⟩) fun s1 h1 => ?_
  obtain ⟨-, hmem⟩ := h1.2 rfl
  refine sat_flRead.mpr ⟨trivial, ?_⟩
  have hview : Still s1 (after env .view s1) := still_after (show Reads cfg .view s1 from trivial)
  refine sat_modifyCache ⟨rfl, rfl, rfl, rfl, rfl⟩ ?_ fun s3 h3 hg3 hm3 => ?_
  · refine fun _ => ⟨?_, fun _ => hp⟩
    dsimp only
    exact slice_length _ _ _
  have hcache : s3.statics.cache = slice s1.mem page codePageSize := by rw [hg3]
  have hpage : s3.statics.cachePage = page := by rw [hg3]
  have hmem3 : s3.mem = s1.mem := hm3
  refine ⟨((hget.verified.trans h1.1).trans hview.verified).trans h3, fun _ =>
    ⟨hpage, fun hclean => ⟨fun _ _ => by rw [hcache, hpage, hmem3], ?_⟩⟩⟩
  -- a page just read shows the flash
  have hs : cacheView s = s1.mem := (hmem hclean).symm
  rw [hs]
  funext x
  unfold cacheView
  rw [hcache, hpage, hmem3]
  split_ifs with hx
  · exact slice_getD hx.2.1 hx.2.2
  · rfl

/-- The range `[lo, hi)` of a workspace: whole pages, none of them page zero. -/
structure Pages (lo hi : Nat) : Prop where
  pos : 0 < lo
  low : lo % codePageSize = 0
  high : hi % codePageSize = 0
  lt : hi < 2 ^ 32

theorem Pages.pageIn {addr : Nat} (h : Pages lo hi) (h1 : lo ≤ addr) (h2 : addr < hi) :
    PageIn lo hi (addr - addr % codePageSize) := by
  have hlow := h.low
  have hhigh := h.high
  unfold codePageSize at *
  exact ⟨by omega, by unfold codePageSize; omega, by unfold codePageSize; omega⟩

/-- The bytes of a write, in the view. -/
def overlay (f : Nat → Byte) (addr : Nat) (src : List Byte) (x : Nat) : Byte :=
  if addr ≤ x ∧ x < addr + src.length then src.getD (x - addr) 0 else f x

theorem overlay_nil (f : Nat → Byte) (addr : Nat) : overlay f addr [] = f := by
  funext x
  unfold overlay
  rw [if_neg (by rw [List.length_nil]; omega)]

/-- A copy into bytes read at `a` is a read under the copied bytes. -/
theorem memcpy_slice {f : Mem} {a n off : Nat} {src : List Byte} (h : off + src.length ≤ n) :
    memcpy (slice f a n) off src = slice (overlay f (a + off) src) a n := by
  have hfit : off + src.length ≤ (slice f a n).length := by rwa [slice_length]
  have hlen : (memcpy (slice f a n) off src).length = n := by rw [memcpy_length hfit, slice_length]
  refine List.ext_getElem? fun i => ?_
  by_cases hi : i < n
  · have hget := memcpy_getD (i := i) hfit
    rw [List.getD_eq_getElem?_getD, List.getElem?_eq_getElem (by omega), Option.getD_some] at hget
    rw [slice_getElem? hi, List.getElem?_eq_getElem (by omega), hget]
    unfold overlay
    congr 1
    by_cases hin : off ≤ i ∧ i < off + src.length
    · rw [if_pos hin, if_pos (by omega), show a + i - (a + off) = i - off by omega]
    · rw [if_neg hin, if_neg (by omega), slice_getD_add hi]
  · rw [List.getElem?_eq_none (by omega), List.getElem?_eq_none (by rw [slice_length]; omega)]

theorem overlay_take_drop (f : Nat → Byte) (addr n : Nat) (src : List Byte) (hn : n ≤ src.length) :
    overlay (overlay f addr (src.take n)) (addr + n) (src.drop n) = overlay f addr src := by
  funext x
  unfold overlay
  rw [List.length_take, List.length_drop, Nat.min_eq_left hn]
  by_cases h1 : addr + n ≤ x ∧ x < addr + n + (src.length - n)
  · rw [if_pos h1, if_pos (by omega), List.getD_eq_getElem?_getD, List.getElem?_drop,
      show n + (x - (addr + n)) = x - addr by omega, List.getD_eq_getElem?_getD]
  · rw [if_neg h1]
    by_cases h2 : addr ≤ x ∧ x < addr + n
    · rw [if_pos h2, if_pos (by omega), List.getD_eq_getElem?_getD,
        List.getElem?_take_of_lt (by omega), List.getD_eq_getElem?_getD]
    · rw [if_neg h2, if_neg (by omega)]

/-- A write into the page of the cache. -/
theorem cacheView_memcpy {g : Statics} {off : Nat} {src : List Byte} (hpage : s.statics.cachePage = page)
    (h0 : page ≠ 0) (hlen : s.statics.cache.length = codePageSize)
    (hoff : off + src.length ≤ codePageSize) (hm : s'.mem = s.mem) (hg : s'.statics = g)
    (hgp : g.cachePage = page) (hgc : g.cache = memcpy s.statics.cache off src) :
    cacheView s' = overlay (cacheView s) (page + off) src := by
  funext x
  simp only [cacheView, overlay]
  rw [hg, hgp, hgc, hm, hpage]
  by_cases hx : page ≤ x ∧ x < page + codePageSize
  · rw [if_pos ⟨h0, hx⟩, memcpy_getD (by omega)]
    by_cases hin : off ≤ x - page ∧ x - page < off + src.length
    · rw [if_pos hin, if_pos ⟨by omega, by omega⟩, Nat.sub_sub]
    · rw [if_neg hin, if_neg (by omega), if_pos ⟨h0, hx⟩]
  · rw [if_neg (fun h => hx h.2), if_neg (by omega), if_neg (fun h => hx h.2)]

theorem cwriteLoop_spec (hws : Pages lo hi) (fuel : Nat) {addr : Nat} {src : List Byte}
    (hfuel : src.length ≤ fuel) (ha : lo ≤ addr) (hb : addr + src.length ≤ hi) {s : Device}
    (hin : CacheIn lo hi s.statics) :
    (cwriteLoop fuel addr src).Sat (handler env) (Writes cfg lo hi)
      (fun r s' => Verified lo hi s r s' ∧ (r = true → Clean s →
        Clean s' ∧ cacheView s' = overlay (cacheView s) addr src)) s := by
  induction fuel generalizing addr src s with
  | zero =>
    obtain rfl : src = [] := List.length_eq_zero_iff.mp (by omega)
    exact ⟨(Still.refl s).verified, fun _ hclean => ⟨hclean, (overlay_nil _ _).symm⟩⟩
  | succ fuel ih =>
    unfold cwriteLoop
    by_cases h0 : src.length = 0
    · rw [if_pos h0]
      obtain rfl : src = [] := List.length_eq_zero_iff.mp h0
      exact ⟨(Still.refl s).verified, fun _ hclean => ⟨hclean, (overlay_nil _ _).symm⟩⟩
    rw [if_neg h0]
    simp only
    have hpage := hws.pageIn ha (by omega)
    have hlt := hws.lt
    have hmod : addr % codePageSize < codePageSize := Nat.mod_lt _ (by decide)
    have hle : addr % codePageSize ≤ addr := Nat.mod_le _ _
    set off := addr % codePageSize with hoff
    set chunk := min (codePageSize - off) src.length with hchunk
    refine Sat.bindVerified (cacheUse_spec hpage hin) (fun s1 h1 => ⟨h1.1, nofun⟩) fun s1 h1 => ?_
    obtain ⟨hp1, hview1⟩ := h1.2 rfl
    have hin1 : CacheIn lo hi s1.statics := h1.1.touched.cache hin
    have hlen : (src.take chunk).length = chunk := by rw [List.length_take]; omega
    refine sat_modifyCache ⟨rfl, rfl, rfl, rfl, rfl⟩ ?_ fun s2 h2 hg2 hm2 => ?_
    · refine fun hc => ⟨?_, hc.page⟩
      rw [memcpy_length (by rw [hlen, hc.length]; omega)]
      exact hc.length
    rw [add32_eq (by omega)]
    have hdrop : (src.drop chunk).length = src.length - chunk := List.length_drop
    refine (ih (by omega) (by omega) (by omega) (h2.touched.cache hin1)).post fun r s' h => ?_
    refine ⟨(h1.1.trans h2).trans h.1, fun hr hclean => ?_⟩
    have hclean2 : Clean s2 := by
      intro _ hd
      rw [hg2] at hd
      cases hd
    obtain ⟨hc', hv'⟩ := h.2 hr hclean2
    refine ⟨hc', ?_⟩
    have hview2 : cacheView s2 = overlay (cacheView s1) (addr - off + off) (src.take chunk) :=
      cacheView_memcpy hp1 (by have := hws.pos; have := hpage.low; omega) hin1.length
        (by rw [hlen]; omega) hm2 hg2 hp1 rfl
    rw [hv', hview2, (hview1 hclean).2, Nat.sub_add_cancel hle]
    exact overlay_take_drop _ _ _ _ (by omega)

theorem cerasePage_spec (hp : PageIn lo hi page) :
    (cerasePage page).Sat (handler env) (Writes cfg lo hi) (fun _ s' => Touched lo hi s s') s := by
  have hget : Still s (after env .get s) := still_after (show Reads cfg .get s from trivial)
  refine sat_get.mpr ⟨trivial, ?_⟩
  split_ifs
  · refine sat_modifyCache ⟨rfl, rfl, rfl, rfl, rfl⟩ ?_ fun s2 h2 _ _ => hget.touched.trans h2.touched
    refine fun hc => ⟨?_, hc.page⟩
    dsimp only
    exact List.length_replicate
  · exact (flashPageEraseVerified_spec hp).post fun r s' h => hget.touched.trans (h.touched_in hp)

theorem ceraseLoop_spec (hws : Pages lo hi) (fuel : Nat) {addr n : Nat} (ha : lo ≤ addr)
    (hb : addr + n ≤ hi) (s : Device) :
    (ceraseLoop fuel addr n).Sat (handler env) (Writes cfg lo hi)
      (fun _ s' => Touched lo hi s s') s := by
  induction fuel generalizing addr n s with
  | zero => exact .refl s
  | succ fuel ih =>
    unfold ceraseLoop
    by_cases h0 : n = 0
    · rw [if_pos h0]
      exact .refl s
    rw [if_neg h0]
    simp only
    have hlt := hws.lt
    refine Sat.bindVerified (cerasePage_spec (hws.pageIn ha (by omega))) (fun _ h1 => h1)
      fun s1 h1 => ?_
    rw [add32_eq (by omega)]
    exact (ih (by omega) (by omega) s1).post fun _ _ h => h1.trans h

/-! ## The decoder -/

/-- The addresses of the workspace do not wrap. -/
theorem dtWsAddr_eq {c : ApplyCtx} {off n addr : Nat} (hle : c.wsLo ≤ c.wsHi)
    (hlt : c.wsHi < 2 ^ 32) (h : dtWsAddr c off n = some addr) :
    addr = c.wsLo + off ∧ addr + n ≤ c.wsHi := by
  unfold dtWsAddr at h
  simp only at h
  rw [sub32_eq hlt hle] at h
  split_ifs at h with h1 h2
  rw [add32_eq (by omega)] at h
  obtain rfl := Option.some.inj h
  omega

theorem cread_spec (addr n : Nat) :
    (cread addr n).Sat (handler env) (Reads cfg) (fun _ s' => Still s s') s := by
  have h1 : Still s (after env .view s) := still_after (show Reads cfg .view s from trivial)
  have h2 : Still s (after env .get (after env .view s)) :=
    h1.trans (still_after (show Reads cfg .get _ from trivial))
  refine sat_flRead.mpr ⟨trivial, sat_get.mpr ⟨trivial, ?_⟩⟩
  simp only
  split_ifs
  · exact h2
  · exact h2
  · exact h2

theorem dtMr_spec {c : ApplyCtx} (src n : Nat) :
    (dtMr c src n).Sat (handler env) (Writes cfg lo hi) (fun _ s' => Touched lo hi s s') s := by
  unfold dtMr
  split
  · exact .refl s
  · exact ((cread_spec _ n).mono (fun _ _ h => h.writes) fun _ _ h => h).bind
      fun _ _ h => h.touched

section Decoder

variable {c : ApplyCtx} (hws : Pages c.wsLo c.wsHi) (hle : c.wsLo ≤ c.wsHi)
include hws hle

theorem dtMw_spec (dst : Nat) (src : List Byte) (hin : CacheIn c.wsLo c.wsHi s.statics) :
    (dtMw c dst src).Sat (handler env) (Writes cfg c.wsLo c.wsHi)
      (fun _ s' => Touched c.wsLo c.wsHi s s') s := by
  unfold dtMw
  split
  · exact .refl s
  · next addr heq =>
    obtain ⟨haddr, hmax⟩ := dtWsAddr_eq hle hws.lt heq
    exact (cwriteLoop_spec hws _ (Nat.le_refl _) (by omega) hmax hin).post
      fun _ _ h => h.1.touched

theorem dtMe_spec (addr0 n : Nat) : (dtMe c addr0 n).Sat (handler env) (Writes cfg c.wsLo c.wsHi)
    (fun _ s' => Touched c.wsLo c.wsHi s s') s := by
  unfold dtMe
  split
  · exact .refl s
  · next addr heq =>
    obtain ⟨haddr, hmax⟩ := dtWsAddr_eq hle hws.lt heq
    exact ceraseLoop_spec hws _ (by omega) hmax s

/-- Whatever a decoder asks for, its writes stay in the workspace. -/
theorem runDecoder_spec (dec : Decoder) (pos : Nat) {s : Device}
    (hin : CacheIn c.wsLo c.wsHi s.statics) :
    (runDecoder cfg c dec pos).Sat (handler env) (Writes cfg c.wsLo c.wsHi)
      (fun _ s' => Touched c.wsLo c.wsHi s s') s := by
  induction dec generalizing pos s with
  | done r => exact .refl s
  | memRead src n k ih =>
    exact (dtMr_spec src n).bind fun r s1 h1 =>
      (ih r pos (h1.cache hin)).post fun _ _ h => h1.trans h
  | memWrite dst src k ih =>
    exact (dtMw_spec hws hle dst src hin).bind fun r s1 h1 =>
      (ih r pos (h1.cache hin)).post fun _ _ h => h1.trans h
  | memErase addr n k ih =>
    exact (dtMe_spec hws hle addr n).bind fun r s1 h1 =>
      (ih r pos (h1.cache hin)).post fun _ _ h => h1.trans h
  | patchRead n k ih =>
    have hpr : (dtPr cfg c pos n).Sat (handler env) (Writes cfg c.wsLo c.wsHi)
        (fun _ s' => Touched c.wsLo c.wsHi s s') s := by
      unfold dtPr
      split_ifs
      · exact .refl s
      · exact (stagedRead_spec _ _).mono (fun _ _ h => h.writes) fun _ _ h => h.2.touched
    exact hpr.bind fun r s1 h1 => (ih r _ (h1.cache hin)).post fun _ _ h => h1.trans h

end Decoder

/-! ## The copy of a full image -/

theorem copyPages_spec (hws : Pages lo hi) {m : MotaMin} {destination : Nat} (hlo : lo ≤ destination)
    (hd : destination % codePageSize = 0) (hmax : destination + m.imageSize ≤ hi) (fuel : Nat)
    {off : Nat} (hoff : off % codePageSize = 0) (s : Device) :
    (copyPages cfg m destination fuel off).Sat (handler env) (Writes cfg lo hi)
      (fun _ s' => Touched lo hi s s') s := by
  induction fuel generalizing off s with
  | zero => exact .refl s
  | succ fuel ih =>
    unfold copyPages
    by_cases hend : m.imageSize ≤ off
    · rw [if_pos hend]
      exact .refl s
    rw [if_neg hend]
    simp only
    have hpage : PageIn lo hi (destination + off) := by
      have := hws.pageIn (show lo ≤ destination + off by omega) (by omega)
      unfold codePageSize at *
      rwa [show (destination + off) % 0x1000 = 0 by omega, Nat.sub_zero] at this
    set n := min (m.imageSize - off) codePageSize with hn
    refine sat_modifyCache ⟨rfl, rfl, rfl, rfl, rfl⟩ ?_ fun s1 h1 _ _ => ?_
    · refine fun hc => ⟨?_, hc.page⟩
      dsimp only
      exact List.length_replicate
    refine ((stagedRead_spec _ n).mono (fun _ _ h => h.writes) fun _ _ h => h).bind
      fun r s2 h2 => ?_
    have h12 : Touched lo hi s s2 := h1.touched.trans h2.2.touched
    cases r with
    | none => exact h12
    | some d =>
      obtain ⟨hlen, -⟩ := h2.1 d rfl
      have hfull : (d ++ List.replicate (codePageSize - n) 0xFF).length = codePageSize := by
        rw [List.length_append, List.length_replicate, hlen]
        omega
      refine sat_modifyCache ⟨rfl, rfl, rfl, rfl, rfl⟩ (fun hc => ⟨hfull, hc.page⟩)
        fun s3 h3 _ _ => ?_
      have hcommit : Writes cfg lo hi (.mark .commit) s3 := trivial
      refine sat_op.mpr ⟨hcommit, ?_⟩
      have h34 : Touched lo hi s (after env (.mark .commit) s3) :=
        (h12.trans h3.touched).trans (touched_after hcommit)
      refine Sat.bindVerified (flashPageWriteVerified_spec hpage hfull)
        (fun s5 h5 => h34.trans (h5.touched_in hpage)) fun s5 h5 => ?_
      have hnext : (off + codePageSize) % codePageSize = 0 := by
        rw [Nat.add_mod_right]
        exact hoff
      exact (ih hnext s5).post fun _ _ h => (h34.trans (h5.touched_in hpage)).trans h

end OtaFix.Mota
