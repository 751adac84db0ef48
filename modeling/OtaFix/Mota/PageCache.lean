import Mathlib.Data.List.GetD
import OtaFix.Mota.Shift

/-!
# The page cache refines plain memory

A sequence of `cread`, `cwrite` and `cerase` on a flash `[0, hi)`, none of them in page
zero, against the same sequence on a byte array. While no page fails, every read
answers from the array, and `cache_flush` makes the flash the array. A page that
fails all of its attempts ends the operation with a failure: the array's bytes stand
under a prefix of that operation everywhere outside the page (`Confined`).
-/

namespace OtaFix.Mota

open Lib Prog

variable {env : Env} {cfg : Profile} {s s' s'' : Device} {lo hi page : Nat}

/-! ## Operations -/

inductive CacheOp where
  | write (addr : Nat) (src : List Byte)
  | erase (addr n : Nat)
  | read (addr n : Nat)
  deriving DecidableEq, Repr

namespace CacheOp

/-- The operation on the device: its bytes if it succeeds, and those of a read. -/
def run : CacheOp → MotaM (Option (List Byte))
  | write addr src => do
    let ok ← cwrite addr src
    return if ok then some [] else none
  | erase addr n => do
    let ok ← cerase addr n
    return if ok then some [] else none
  | read addr n => do
    let d ← cread addr n
    return some d

/-- Erase the whole pages that `[addr, addr + n)` touches. -/
def erasePages (f : Mem) (addr n : Nat) (x : Nat) : Byte :=
  if 0 < n ∧ addr / codePageSize ≤ x / codePageSize ∧
      x / codePageSize ≤ (addr + n - 1) / codePageSize then 0xFF
  else f x

/-- The operation on a byte array. -/
def apply : CacheOp → Mem → Mem
  | write addr src, f => overlay f addr src
  | erase addr n, f => erasePages f addr n
  | read _ _, f => f

/-- What a byte array answers. -/
def plain : CacheOp → Mem → List Byte
  | read addr n, f => slice f addr n
  | _, _ => []

/-- The first `k` bytes of the operation. -/
def upTo (k : Nat) : CacheOp → CacheOp
  | write addr src => write addr (src.take k)
  | erase addr n => erase addr (min k n)
  | read addr n => read addr n

/-- The operation lies in a flash `[0, hi)`, above page zero. -/
def Inside (hi : Nat) : CacheOp → Prop
  | write addr src => codePageSize ≤ addr ∧ addr + src.length ≤ hi
  | erase addr n => codePageSize ≤ addr ∧ addr + n ≤ hi
  | read addr n => codePageSize ≤ addr ∧ addr + n ≤ hi

end CacheOp

/-- A sequence of operations, up to the first one that fails: the answers, and whether all
of them succeeded. -/
def runCacheOps : List CacheOp → MotaM (List (List Byte) × Bool)
  | [] => return ([], true)
  | op :: ops => do
    let r ← op.run
    match r with
    | none => return ([], false)
    | some d =>
      let (ds, ok) ← runCacheOps ops
      return (d :: ds, ok)

/-- The sequence on a byte array: its answers and the array behind it. -/
def plainCacheOps : List CacheOp → Mem → List (List Byte) × Mem
  | [], f => ([], f)
  | op :: ops, f =>
    let (ds, f') := plainCacheOps ops (op.apply f)
    (op.plain f :: ds, f')

/-! ## A failed page -/

/-- `p` is the page that failed: outside it the device shows `view`, and so does the flash,
or it is as before under the cached page. -/
structure Confined (lo hi : Nat) (s : Device) (p : Nat) (view : Mem) (s' : Device) : Prop where
  page : PageIn lo hi p
  shows : ∀ x, x < p ∨ p + codePageSize ≤ x → cacheView s' x = view x
  flash : ∀ x, x < p ∨ p + codePageSize ≤ x → s'.mem x = view x ∨
    (s'.statics.cachePage ≤ x ∧ x < s'.statics.cachePage + codePageSize ∧ s'.mem x = s.mem x)

/-- A flush that fails has changed the cached page only, and that in flash only. -/
theorem cacheFlush_failed (hin : CacheIn lo hi s.statics) :
    cacheFlush.Sat (handler env) (fun _ _ => True) (fun r s' => r = false →
      s.statics.cachePage ≠ 0 ∧ s'.statics = s.statics ∧
      ∀ x, x < s.statics.cachePage ∨ s.statics.cachePage + codePageSize ≤ x →
        s'.mem x = s.mem x) s := by
  refine sat_get.mpr ⟨trivial, ?_⟩
  by_cases h0 : s.statics.cachePage = 0
  · rw [if_pos h0]
    exact nofun
  rw [if_neg h0]
  have hpage := hin.page h0
  refine Sat.bindVerified (P := fun r s' => r = false → s'.statics = s.statics ∧
    ∀ x, x < s.statics.cachePage ∨ s.statics.cachePage + codePageSize ≤ x → s'.mem x = s.mem x)
    ?_ (fun s1 h1 _ => ⟨h0, h1 rfl⟩) fun s1 _ => ⟨trivial, trivial, nofun⟩
  split_ifs
  · have hsat : (flashPageWriteVerified s.statics.cachePage s.statics.cache).Sat (handler env) _ _ _ :=
      pageAttempts_spec hpage.aligned (fun _ h => Option.some.inj h ▸ hin.length) flashPageAttempts
        (after env .get s)
    refine hsat.mono (fun _ _ _ => trivial) fun r s' h _ => ⟨h.statics, fun x hx => ?_⟩
    exact h.touched.mem x hx
  · exact nofun

theorem cacheUse_failed (hin : CacheIn lo hi s.statics) :
    (cacheUse page).Sat (handler env) (fun _ _ => True) (fun r s' => r = false →
      s.statics.cachePage ≠ 0 ∧ s'.statics = s.statics ∧
      ∀ x, x < s.statics.cachePage ∨ s.statics.cachePage + codePageSize ≤ x →
        s'.mem x = s.mem x) s := by
  refine sat_get.mpr ⟨trivial, ?_⟩
  by_cases heq : s.statics.cachePage = page
  · rw [if_pos heq]
    exact nofun
  rw [if_neg heq]
  refine Sat.bindVerified (cacheFlush_failed (s := after env .get s) hin)
    (fun s1 h1 _ => h1 rfl) fun s1 _ => ⟨trivial, trivial, trivial, nofun⟩

/-- Behind such a failure the view is what it was. -/
theorem cacheView_failed (hst : s'.statics = s.statics) (hmem : ∀ x, x < s.statics.cachePage ∨
    s.statics.cachePage + codePageSize ≤ x → s'.mem x = s.mem x) (h0 : s.statics.cachePage ≠ 0) :
    cacheView s' = cacheView s := by
  funext x
  unfold cacheView
  rw [hst]
  by_cases hx : s.statics.cachePage ≤ x ∧ x < s.statics.cachePage + codePageSize
  · rw [if_pos ⟨h0, hx⟩, if_pos ⟨h0, hx⟩]
  · rw [if_neg fun h => hx h.2, if_neg fun h => hx h.2, hmem x (by omega)]

/-! ## Writes -/

/-- A write that fails has taken place up to some byte; the page that failed is cached. -/
theorem cwriteLoop_failed (hws : Pages lo hi) (fuel : Nat) {addr : Nat} {src : List Byte}
    (hfuel : src.length ≤ fuel) (ha : lo ≤ addr) (hb : addr + src.length ≤ hi) {s : Device}
    (hin : CacheIn lo hi s.statics) (hclean : Clean s) :
    (cwriteLoop fuel addr src).Sat (handler env) (Writes cfg lo hi) (fun r s' => r = false →
      s'.statics.cachePage ≠ 0 ∧ ∃ k, cacheView s' = overlay (cacheView s) addr (src.take k)) s := by
  induction fuel generalizing addr src s with
  | zero => exact nofun
  | succ fuel ih =>
    unfold cwriteLoop
    by_cases h0 : src.length = 0
    · rw [if_pos h0]
      exact nofun
    rw [if_neg h0]
    simp only
    have hpage := hws.pageIn ha (by omega)
    have hlt := hws.lt
    have hmod : addr % codePageSize < codePageSize := Nat.mod_lt _ (by decide)
    have hle : addr % codePageSize ≤ addr := Nat.mod_le _ _
    set off := addr % codePageSize with hoff
    set chunk := min (codePageSize - off) src.length with hchunk
    refine Sat.bindVerified (((cacheUse_spec hpage hin).and (cacheUse_failed hin)).mono
      (fun _ _ h => h.1) fun _ _ h => h) (fun s1 h1 _ => ?_) fun s1 h1 => ?_
    · obtain ⟨hne, hst, hmem⟩ := h1.2 rfl
      refine ⟨by rw [hst]; exact hne, 0, ?_⟩
      rw [List.take_zero, overlay_nil, cacheView_failed hst hmem hne]
    obtain ⟨hp1, hview1⟩ := h1.1.2 rfl
    have hin1 : CacheIn lo hi s1.statics := h1.1.1.touched.cache hin
    have hlen : (src.take chunk).length = chunk := by rw [List.length_take]; omega
    refine sat_modifyCache ⟨rfl, rfl, rfl, rfl, rfl⟩ ?_ fun s2 h2 hg2 hm2 => ?_
    · refine fun hc => ⟨?_, hc.page⟩
      rw [memcpy_length (by rw [hlen, hc.length]; omega)]
      exact hc.length
    rw [add32_eq (by omega)]
    have hdrop : (src.drop chunk).length = src.length - chunk := List.length_drop
    have hclean2 : Clean s2 := by
      intro _ hd
      rw [hg2] at hd
      cases hd
    have hview2 : cacheView s2 = overlay (cacheView s1) (addr - off + off) (src.take chunk) :=
      cacheView_memcpy hp1 (by have := hws.pos; have := hpage.low; omega) hin1.length
        (by rw [hlen]; omega) hm2 hg2 hp1 rfl
    refine (ih (by omega) (by omega) (by omega) (h2.touched.cache hin1) hclean2).post
      fun r s' h hr => ?_
    obtain ⟨hne, k, hk⟩ := h hr
    refine ⟨hne, chunk + k, ?_⟩
    rw [hk, hview2, (hview1 hclean).2, Nat.sub_add_cancel hle,
      ← overlay_take_drop (cacheView s) addr chunk (src.take (chunk + k))
        (by rw [List.length_take]; omega), List.take_take, List.drop_take,
      Nat.min_eq_left (by omega), Nat.add_sub_cancel_left]

/-! ## Erases -/

open CacheOp (erasePages)

theorem erasePages_zero (f : Mem) (addr : Nat) : erasePages f addr 0 = f := by
  funext x
  unfold erasePages
  rw [if_neg (by omega)]

theorem erasePages_add (f : Mem) (addr a b : Nat) :
    erasePages (erasePages f addr a) (addr + a) b = erasePages f addr (a + b) := by
  funext x
  unfold erasePages codePageSize
  split_ifs
  all_goals first | rfl | omega

/-- A part of a page erases all of it. -/
theorem overlay_erased {f : Mem} {addr step : Nat} (h0 : 0 < step)
    (hstep : step ≤ codePageSize - addr % codePageSize) :
    overlay f (addr - addr % codePageSize) (List.replicate codePageSize 0xFF) =
      erasePages f addr step := by
  have hp : codePageSize = 0x1000 := rfl
  funext x
  unfold overlay erasePages
  rw [List.length_replicate]
  rw [hp] at hstep ⊢
  by_cases hx : addr - addr % 0x1000 ≤ x ∧ x < addr - addr % 0x1000 + 0x1000
  · rw [if_pos hx, if_pos (by omega), List.getD_replicate _ (by omega)]
  · rw [if_neg hx, if_neg (by omega)]

/-- The cached page stays where it is, and so does the flash under it. -/
structure KeepsCached (s s' : Device) : Prop where
  page : s'.statics.cachePage = s.statics.cachePage
  mem : ∀ x, s.statics.cachePage ≤ x → x < s.statics.cachePage + codePageSize →
    s'.mem x = s.mem x

theorem KeepsCached.trans (h : KeepsCached s s') (h' : KeepsCached s' s'') : KeepsCached s s'' where
  page := h'.page.trans h.page
  mem x h1 h2 := (h'.mem x (by rwa [h.page]) (by rwa [h.page])).trans (h.mem x h1 h2)

/-- One page of an erase; if it fails, nothing outside the page has changed. -/
theorem cerasePage_kept (hp : PageIn lo hi page) (hin : CacheIn lo hi s.statics) :
    (cerasePage page).Sat (handler env) (fun _ _ => True) (fun r s' =>
      (s.statics.cachePage ≠ 0 → KeepsCached s s') ∧
      s'.statics.cachePage = s.statics.cachePage ∧
      (r = false → ∀ x, x < page ∨ page + codePageSize ≤ x → cacheView s' x = cacheView s x)) s := by
  refine sat_get.mpr ⟨trivial, ?_⟩
  by_cases heq : s.statics.cachePage = page
  · rw [if_pos heq]
    exact ⟨trivial, trivial, fun _ => ⟨rfl, fun _ _ _ => rfl⟩, rfl, nofun⟩
  rw [if_neg heq]
  have hsat : (pageAttempts page none flashPageAttempts).Sat (handler env) _ _ _ :=
    pageAttempts_spec hp.aligned (fun _ h => by cases h) flashPageAttempts (after env .get s)
  refine hsat.mono (fun _ _ _ => trivial) fun r s' h => ?_
  have hst : s'.statics = s.statics := h.statics
  have hmem : ∀ x, x < page ∨ page + codePageSize ≤ x → s'.mem x = s.mem x := h.touched.mem
  refine ⟨fun hne => ⟨by rw [hst], fun x h1 h2 => hmem x ?_⟩, by rw [hst], fun _ x hx => ?_⟩
  · have halign := (hin.page hne).aligned
    have halign' := hp.aligned
    unfold codePageSize at *
    omega
  · unfold cacheView
    rw [hst, hmem x hx]

/-- What an erase of `[addr, addr + n)` leaves behind. -/
structure Erased (lo hi addr n : Nat) (s : Device) (r : Bool) (s' : Device) : Prop where
  verified : Verified lo hi s r s'
  cached : s.statics.cachePage ≠ 0 → KeepsCached s s'
  page : s'.statics.cachePage = s.statics.cachePage
  done : r = true → Clean s' ∧ cacheView s' = erasePages (cacheView s) addr n
  failed : r = false → ∃ p k, k ≤ n ∧ PageIn lo hi p ∧
    ∀ x, x < p ∨ p + codePageSize ≤ x → cacheView s' x = erasePages (cacheView s) addr k x

theorem Erased.none (addr : Nat) (hclean : Clean s) : Erased lo hi addr 0 s true s where
  verified := (Still.refl s).verified
  cached _ := ⟨rfl, fun _ _ _ => rfl⟩
  page := rfl
  done _ := ⟨hclean, (erasePages_zero _ _).symm⟩
  failed := nofun

/-- One page is erased, then the rest. -/
theorem Erased.cons {addr step n : Nat} {r : Bool} (hver : Verified lo hi s true s')
    (hcached : s.statics.cachePage ≠ 0 → KeepsCached s s')
    (hpage : s'.statics.cachePage = s.statics.cachePage)
    (hview : cacheView s' = erasePages (cacheView s) addr step)
    (h : Erased lo hi (addr + step) n s' r s'') : Erased lo hi addr (step + n) s r s'' where
  verified := hver.trans h.verified
  cached hne := (hcached hne).trans (h.cached (by rwa [hpage]))
  page := h.page.trans hpage
  done hr := by
    obtain ⟨hclean, hdone⟩ := h.done hr
    refine ⟨hclean, ?_⟩
    rw [hdone, hview, erasePages_add]
  failed hr := by
    obtain ⟨p, k, hk, hp, hout⟩ := h.failed hr
    refine ⟨p, step + k, by omega, hp, fun x hx => ?_⟩
    rw [hout x hx, hview, erasePages_add]

theorem ceraseLoop_erased (hws : Pages lo hi) (fuel : Nat) {addr n : Nat} (hfuel : n ≤ fuel)
    (ha : lo ≤ addr) (hb : addr + n ≤ hi) {s : Device} (hin : CacheIn lo hi s.statics)
    (hclean : Clean s) :
    (ceraseLoop fuel addr n).Sat (handler env) (Writes cfg lo hi) (Erased lo hi addr n s) s := by
  induction fuel generalizing addr n s with
  | zero =>
    obtain rfl : n = 0 := by omega
    exact .none addr hclean
  | succ fuel ih =>
    unfold ceraseLoop
    by_cases h0 : n = 0
    · rw [if_pos h0]
      subst h0
      exact .none addr hclean
    rw [if_neg h0]
    simp only
    have hlt := hws.lt
    have hpage := hws.pageIn ha (by omega)
    have hmod : addr % codePageSize < codePageSize := Nat.mod_lt _ (by decide)
    set step := min (codePageSize - addr % codePageSize) n with hstep
    have hne : addr - addr % codePageSize ≠ 0 := by
      have := hws.pos
      have := hpage.low
      omega
    refine Sat.bindVerified (((cerasePage_view hpage hne hin hclean).and
      (cerasePage_kept hpage hin)).mono (fun _ _ h => h.1) fun _ _ h => h)
      (fun s1 h1 => ?_) fun s1 h1 => ?_
    · obtain ⟨⟨hver, -⟩, hcached, hsame, hout⟩ := h1
      refine ⟨hver, hcached, hsame, (fun h => by cases h), fun _ => ⟨_, 0, Nat.zero_le _, hpage, ?_⟩⟩
      rw [erasePages_zero]
      exact hout rfl
    · obtain ⟨⟨hver, hdone⟩, hcached, hsame, -⟩ := h1
      obtain ⟨hclean1, hview1⟩ := hdone rfl
      have herased : overlay (cacheView s) (addr - addr % codePageSize)
          (List.replicate codePageSize 0xFF) = erasePages (cacheView s) addr step :=
        overlay_erased (by omega) (by omega)
      rw [herased] at hview1
      rw [add32_eq (by omega)]
      have hrest : (ceraseLoop fuel (addr + step) (n - step)).Sat (handler env) (Writes cfg lo hi) _ s1 :=
        ih (by omega) (by omega) (by omega) (hver.touched.cache hin) hclean1
      refine hrest.post fun r s' h => ?_
      have hcons := Erased.cons hver hcached hsame hview1 h
      rwa [show step + (n - step) = n by omega] at hcons

/-! ## One operation -/

/-- What an operation leaves behind, on the device and on the array. -/
structure Outcome (hi : Nat) (op : CacheOp) (s : Device) (r : Option (List Byte)) (s' : Device) :
    Prop where
  verified : Verified codePageSize hi s r.isSome s'
  done : ∀ d, r = some d →
    d = op.plain (cacheView s) ∧ Clean s' ∧ cacheView s' = op.apply (cacheView s)
  failed : r = none → ∃ p k, Confined codePageSize hi s p ((op.upTo k).apply (cacheView s)) s'

/-- Outside the cached page the view is the flash. -/
theorem cacheView_outside {x : Nat} (h : s.statics.cachePage = 0 ∨ x < s.statics.cachePage ∨
    s.statics.cachePage + codePageSize ≤ x) : cacheView s x = s.mem x := by
  unfold cacheView
  rw [if_neg (by omega)]

theorem pages_flash (hhi : hi % codePageSize = 0) (hlt : hi < 2 ^ 32) : Pages codePageSize hi :=
  ⟨by decide, by decide, hhi, hlt⟩

section Ops

variable (hhi : hi % codePageSize = 0) (hlt : hi < 2 ^ 32)
include hhi hlt

theorem CacheOp.run_outcome {op : CacheOp} (hop : op.Inside hi)
    (hin : CacheIn codePageSize hi s.statics) (hclean : Clean s) :
    op.run.Sat (handler env) (Writes cfg codePageSize hi) (Outcome hi op s) s := by
  have hws := pages_flash hhi hlt
  cases op with
  | write addr src =>
    have hfailed : (cwrite addr src).Sat (handler env) (Writes cfg codePageSize hi) _ s :=
      cwriteLoop_failed hws _ (Nat.le_refl _) hop.1 hop.2 hin hclean
    refine Sat.bindVerified (((cwriteLoop_spec hws _ (Nat.le_refl _) hop.1 hop.2 hin).and
      hfailed).mono (fun _ _ h => h.1) fun _ _ h => h) (fun s1 h1 => ?_) fun s1 h1 => ?_
    · obtain ⟨⟨hver, -⟩, hfail⟩ := h1
      obtain ⟨hne, k, hview⟩ := hfail rfl
      refine ⟨hver, nofun, fun _ => ⟨s1.statics.cachePage, k, ?_, fun x _ => ?_, fun x hx => .inl ?_⟩⟩
      · exact (hver.touched.cache hin).page hne
      · rw [hview]
        rfl
      · rw [← cacheView_outside (.inr hx), hview]
        rfl
    · obtain ⟨⟨hver, hdone⟩, -⟩ := h1
      obtain ⟨hclean1, hview⟩ := hdone rfl hclean
      refine ⟨hver, fun d hd => ⟨?_, hclean1, hview⟩, nofun⟩
      exact (Option.some.inj hd).symm
  | erase addr n =>
    refine Sat.bindVerified (ceraseLoop_erased hws _ (Nat.le_refl _) hop.1 hop.2 hin hclean)
      (fun s1 h1 => ?_) fun s1 h1 => ?_
    · obtain ⟨p, k, hk, hp, hout⟩ := h1.failed rfl
      have hupTo : (CacheOp.erase addr n).upTo k = .erase addr k := by
        rw [CacheOp.upTo, Nat.min_eq_left hk]
      refine ⟨h1.verified, nofun, fun _ => ⟨p, k, ?_⟩⟩
      rw [hupTo]
      refine ⟨hp, hout, fun x hx => ?_⟩
      by_cases hc : s1.statics.cachePage = 0 ∨ x < s1.statics.cachePage ∨
          s1.statics.cachePage + codePageSize ≤ x
      · left
        rw [← cacheView_outside hc]
        exact hout x hx
      · right
        have hcached := h1.cached (by rw [← h1.page]; omega)
        exact ⟨by omega, by omega, hcached.mem x (by rw [← h1.page]; omega) (by rw [← h1.page]; omega)⟩
    · obtain ⟨hclean1, hview⟩ := h1.done rfl
      refine ⟨h1.verified, fun d hd => ⟨?_, hclean1, hview⟩, nofun⟩
      exact (Option.some.inj hd).symm
  | read addr n =>
    have hend := hop.2
    refine ((cread_view hin hclean hlt (by omega)).mono (fun _ _ h => h.writes) fun _ _ h => h).bind
      fun d s1 h1 => ?_
    refine ⟨h1.2.verified, fun d' hd => ?_, nofun⟩
    obtain rfl := Option.some.inj hd
    have hview : cacheView s1 = cacheView s := by
      funext x
      simp only [cacheView, h1.2.cache.cache, h1.2.cache.cachePage, h1.2.mem]
    refine ⟨h1.1, ?_, hview⟩
    intro hne hd
    rw [h1.2.cache.cachePage] at hne
    rw [h1.2.cache.cacheDirty] at hd
    rw [h1.2.cache.cache, h1.2.cache.cachePage, h1.2.mem]
    exact hclean hne hd

end Ops

/-! ## Sequences -/

theorem runCacheOps_none {op : CacheOp} {ops : List CacheOp}
    (h : op.run.run (handler env) s = (none, s')) :
    (runCacheOps (op :: ops)).run (handler env) s = (([], false), s') := by
  rw [runCacheOps, run_bind, h]
  rfl

theorem runCacheOps_some {op : CacheOp} {ops : List CacheOp} {d : List Byte}
    (h : op.run.run (handler env) s = (some d, s')) :
    (runCacheOps (op :: ops)).run (handler env) s =
      ((d :: ((runCacheOps ops).run (handler env) s').1.1,
        ((runCacheOps ops).run (handler env) s').1.2),
        ((runCacheOps ops).run (handler env) s').2) := by
  rw [runCacheOps, run_bind, h]
  simp only
  rw [run_bind]
  rfl

/-- What a sequence leaves behind, on the device and on the array. -/
structure Sequence (env : Env) (hi : Nat) (ops : List CacheOp) (s : Device)
    (r : (List (List Byte) × Bool) × Device) : Prop where
  verified : Verified codePageSize hi s r.1.2 r.2
  done : r.1.2 = true → r.1.1 = (plainCacheOps ops (cacheView s)).1 ∧ Clean r.2 ∧
    cacheView r.2 = (plainCacheOps ops (cacheView s)).2
  /-- The operation `op` has failed, and those before it have not. -/
  failed : r.1.2 = false → ∃ pre op rest t p k, ops = pre ++ op :: rest ∧
    (runCacheOps pre).run (handler env) s = ((r.1.1, true), t) ∧
    r.1.1 = (plainCacheOps pre (cacheView s)).1 ∧
    Confined codePageSize hi t p ((op.upTo k).apply (plainCacheOps pre (cacheView s)).2) r.2

theorem runCacheOps_sequence (cfg : Profile) (hhi : hi % codePageSize = 0) (hlt : hi < 2 ^ 32)
    {ops : List CacheOp} (hops : ∀ op ∈ ops, op.Inside hi)
    (hin : CacheIn codePageSize hi s.statics) (hclean : Clean s) :
    Sequence env hi ops s ((runCacheOps ops).run (handler env) s) := by
  induction ops generalizing s with
  | nil => exact ⟨(Still.refl s).verified, fun _ => ⟨rfl, hclean, rfl⟩, nofun⟩
  | cons op ops ih =>
    rw [List.forall_mem_cons] at hops
    have hsat : op.run.Sat (handler env) (Writes cfg codePageSize hi) (Outcome hi op s) s :=
      op.run_outcome hhi hlt hops.1 hin hclean
    have hop := hsat.result
    generalize hrun : op.run.run (handler env) s = q at hop
    obtain ⟨r, s1⟩ := q
    cases r with
    | none =>
      rw [runCacheOps_none hrun]
      obtain ⟨p, k, hconf⟩ := hop.failed rfl
      exact ⟨hop.verified, nofun, fun _ => ⟨[], op, ops, s, p, k, rfl, rfl, rfl, hconf⟩⟩
    | some d =>
      rw [runCacheOps_some hrun]
      obtain ⟨hd, hclean1, hview1⟩ := hop.done d rfl
      have hseq := ih hops.2 (hop.verified.touched.cache hin) hclean1
      generalize (runCacheOps ops).run (handler env) s1 = q at hseq
      obtain ⟨⟨ds, ok⟩, s2⟩ := q
      refine ⟨hop.verified.trans hseq.verified, fun hok => ?_, fun hok => ?_⟩
      · obtain ⟨hds, hclean2, hview2⟩ := hseq.done hok
        rw [hview1] at hds hview2
        refine ⟨?_, hclean2, hview2⟩
        change d :: ds = op.plain (cacheView s) :: _
        rw [hd]
        exact congrArg (_ :: ·) hds
      · obtain ⟨pre, op', rest, t, p, k, rfl, hpre, hds, hconf⟩ := hseq.failed hok
        rw [hview1] at hds hconf
        refine ⟨op :: pre, op', rest, t, p, k, rfl, ?_, ?_, hconf⟩
        · rw [runCacheOps_some hrun, hpre]
        · change d :: ds = op.plain (cacheView s) :: _
          rw [hd]
          exact congrArg (_ :: ·) hds

/-- The cache refines plain memory. Without a failed page the reads of a sequence answer from
the array, and the flush makes the flash the array. A failed page fails its operation, and
outside that page the bytes are the array's under a part of the operation. -/
theorem page_cache_refines {env : Env} {hi : Nat} {s s1 s2 : Device} {ops : List CacheOp}
    {r : List (List Byte) × Bool} {flushed : Bool} (hhi : hi % codePageSize = 0)
    (hlt : hi < 2 ^ 32) (hpage : s.statics.cachePage = 0)
    (hlen : s.statics.cache.length = codePageSize) (hmarks : .pageFailed ∉ s.marks)
    (hops : ∀ op ∈ ops, op.Inside hi) (hrun : (runCacheOps ops).run (handler env) s = (r, s1))
    (hflush : cacheFlush.run (handler env) s1 = (flushed, s2)) :
    (.pageFailed ∉ s1.marks → r.2 = true ∧ r.1 = (plainCacheOps ops s.mem).1) ∧
    (.pageFailed ∉ s2.marks → flushed = true ∧ s2.mem = (plainCacheOps ops s.mem).2) ∧
    (.pageFailed ∈ s1.marks → r.2 = false ∧ ∃ pre op rest t p k, ops = pre ++ op :: rest ∧
      (runCacheOps pre).run (handler env) s = ((r.1, true), t) ∧
      r.1 = (plainCacheOps pre s.mem).1 ∧
      Confined codePageSize hi t p ((op.upTo k).apply (plainCacheOps pre s.mem).2) s1) ∧
    (.pageFailed ∉ s1.marks → .pageFailed ∈ s2.marks → flushed = false ∧ ∃ p,
      Confined codePageSize hi s1 p (plainCacheOps ops s.mem).2 s2) := by
  have hin : CacheIn codePageSize hi s.statics := ⟨hlen, fun h => absurd hpage h⟩
  have hclean : Clean s := fun h => absurd hpage h
  have hview : cacheView s = s.mem := by
    funext x
    exact cacheView_outside (.inl hpage)
  have hseq : Sequence env hi ops s (r, s1) :=
    hrun ▸ runCacheOps_sequence sampleProfile hhi hlt hops hin hclean
  have hin1 := hseq.verified.touched.cache hin
  have hsat : cacheFlush.Sat (handler env) (Writes sampleProfile codePageSize hi) _ s1 :=
    cacheFlush_spec hin1
  have hflushed := hsat.result
  have hsat' : cacheFlush.Sat (handler env) _ _ s1 := cacheFlush_failed hin1
  have hkept := hsat'.result
  rw [hflush] at hflushed hkept
  have hok : .pageFailed ∉ s1.marks → r.2 = true := fun h => by
    by_contra hne
    exact h (hseq.verified.failed (by simpa using hne))
  refine ⟨fun h => ⟨hok h, ?_⟩, fun h => ?_, fun h => ?_, fun h h2 => ?_⟩
  · exact hview ▸ (hseq.done (hok h)).1
  · have h1 : .pageFailed ∉ s1.marks := fun hm => h (hflushed.1.touched.marks_subset hm)
    have hf : flushed = true := by
      by_contra hne
      exact h (hflushed.1.failed (by simpa using hne))
    obtain ⟨-, hclean1, hview1⟩ := hseq.done (hok h1)
    refine ⟨hf, ?_⟩
    rw [(hflushed.2 hf).2 hclean1, hview1, hview]
  · have hno : r.2 = false := by
      by_contra hne
      rw [hseq.verified.marks (by simpa using hne)] at h
      exact hmarks h
    have hfailed := hseq.failed hno
    rw [hview] at hfailed
    exact ⟨hno, hfailed⟩
  · obtain ⟨-, -, hview1⟩ := hseq.done (hok h)
    rw [hview] at hview1
    have hf : flushed = false := by
      by_contra hne
      rw [hflushed.1.marks (by simpa using hne)] at h2
      exact h h2
    obtain ⟨hne, hst, hmem⟩ := hkept hf
    refine ⟨hf, s1.statics.cachePage, hin1.page hne, fun x _ => ?_, fun x hx => .inl ?_⟩
    · rw [cacheView_failed hst hmem hne, hview1]
    · rw [hmem x hx, ← cacheView_outside (.inr hx), hview1]

/-- Two bytes written in page two and read back with their neighbours. -/
theorem page_cache_sample : ((runCacheOps [.write 0x2000 [1, 2], .read 0x1FFF 4]).run (handler {})
    (sampleDevice sampleProfile 0 0 [])).1 = ([[], [0xFF, 1, 2, 0xFF]], true) := by
  have hin : ∀ op ∈ [CacheOp.write 0x2000 [1, 2], .read 0x1FFF 4], op.Inside 0x100000 := by
    intro op hop
    simp only [List.mem_cons, List.not_mem_nil, or_false] at hop
    rcases hop with rfl | rfl <;> exact ⟨by decide, by decide⟩
  have hlen : (sampleDevice sampleProfile 0 0 []).statics.cache.length = codePageSize :=
    List.length_replicate
  generalize hs : sampleDevice sampleProfile 0 0 [] = s at hlen
  have hpage : s.statics.cachePage = 0 := by rw [← hs]; rfl
  have hmarks : .pageFailed ∉ s.marks := by rw [← hs]; exact nofun
  have hmem : s.mem = sampleFlash := by rw [← hs]; rfl
  have hnone : .pageFailed ∉ ((runCacheOps [.write 0x2000 [1, 2], .read 0x1FFF 4]).run
      (handler {}) s).2.marks := by
    rw [← hs]
    decide +kernel
  generalize hrun : (runCacheOps [.write 0x2000 [1, 2], .read 0x1FFF 4]).run (handler {}) s = q
    at hnone ⊢
  obtain ⟨r, s1⟩ := q
  generalize hflush : cacheFlush.run (handler {}) s1 = q
  obtain ⟨flushed, s2⟩ := q
  obtain ⟨hok, hds⟩ := (page_cache_refines (by decide) (by decide) hpage hlen hmarks hin hrun
    hflush).1 hnone
  refine Prod.ext ?_ hok
  change r.1 = _
  rw [hds, hmem]
  decide +kernel

end OtaFix.Mota
