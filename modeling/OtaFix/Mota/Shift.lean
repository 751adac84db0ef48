import OtaFix.Mota.Detools

/-!
# The shift of the old image

Before it decodes, detools moves the old image up in the workspace, page by page from its
last one on: a page is erased and then copied to, through the page cache. A shift of at
least a page keeps the page that is still to be read out of the one that is erased; a
shift of zero erases what it is about to copy (`mota_shift_iff`).
-/

namespace OtaFix.Mota

open Lib Prog

variable {env : Env} {cfg : Profile} {s s' s'' : Device} {lo hi page : Nat}

/-! ## The shift -/

def detoolsIoFailed : Int := 10

/-- The copy of one segment, in pieces of 128 bytes, from `offset` on. -/
def shiftCopy (c : ApplyCtx) (readAddress writeAddress segmentSize : Nat) : Nat → Nat → MotaM Int
  | 0, _ => return 0
  | fuel + 1, offset => do
    if segmentSize ≤ offset then return 0
    else
      let size := min 128 (segmentSize - offset)
      let r ← dtMr c (add32 readAddress offset) size
      match r with
      | none => return -detoolsIoFailed
      | some buf =>
        let ok ← dtMw c (add32 writeAddress offset) buf
        if !ok then return -detoolsIoFailed
        else shiftCopy c readAddress writeAddress segmentSize fuel (offset + size)

/-- The segments that are still to be moved, the last one first. -/
def shiftSegments (c : ApplyCtx) (segmentSize : Nat) : Nat → Nat → Nat → MotaM Int
  | 0, _, _ => return 0
  | n + 1, readAddress, writeAddress => do
    let ok ← dtMe c writeAddress segmentSize
    if !ok then return -detoolsIoFailed
    else
      let res ← shiftCopy c readAddress writeAddress segmentSize segmentSize 0
      if res ≠ 0 then return res
      else shiftSegments c segmentSize n (sub32 readAddress segmentSize) (sub32 writeAddress segmentSize)

/-- `in_place_shift_memory`. -/
def inPlaceShiftMemory (c : ApplyCtx) (memorySize segmentSize shiftSize fromSize : Nat) : MotaM Int :=
  let numberOfSegments :=
    (min fromSize (sub32 memorySize shiftSize) + segmentSize - 1) / segmentSize
  let readAddress := sub32 numberOfSegments 1 * segmentSize % 2 ^ 32
  shiftSegments c segmentSize numberOfSegments readAddress (add32 readAddress shiftSize)

/-! ## The callbacks, in the view of the cache -/

/-- A read through the cache. -/
theorem cread_view (hin : CacheIn lo hi s.statics) (hclean : Clean s) (hhi : hi < 2 ^ 32)
    {addr n : Nat} (hn : addr + n < 2 ^ 32) :
    (cread addr n).Sat (handler env) (Reads cfg)
      (fun r s' => r = slice (cacheView s) addr n ∧ Still s s') s := by
  have h1 : Still s (after env .view s) := still_after (show Reads cfg .view s from trivial)
  have h2 : Still s (after env .get (after env .view s)) :=
    h1.trans (still_after (show Reads cfg .get _ from trivial))
  refine sat_flRead.mpr ⟨trivial, sat_get.mpr ⟨trivial, ?_⟩⟩
  rw [show (after env .view s).statics = s.statics from rfl]
  simp only
  -- where the cache is not laid over the flash, it shows the flash
  have hflash : (∀ x, addr ≤ x → x < addr + n → cacheView s x = s.mem x) →
      slice s.mem addr n = slice (cacheView s) addr n := fun h =>
    slice_congr fun x hx1 hx2 => (h x hx1 hx2).symm
  by_cases hd : s.statics.cachePage ≠ 0 ∧ s.statics.cacheDirty = true
  swap
  · rw [if_neg hd]
    refine ⟨hflash fun x _ _ => ?_, h2⟩
    unfold cacheView
    split_ifs with hx
    · have hdirty : s.statics.cacheDirty = false := by
        cases hb : s.statics.cacheDirty with
        | false => rfl
        | true => exact absurd ⟨hx.1, hb⟩ hd
      rw [hclean hx.1 hdirty, slice_getD hx.2.1 hx.2.2]
    · rfl
  rw [if_pos hd]
  have hpage := (hin.page hd.1).high
  rw [add32_eq hn, add32_eq (by omega)]
  by_cases hover : max addr s.statics.cachePage < min (addr + n) (s.statics.cachePage + codePageSize)
  swap
  · rw [if_neg hover]
    refine ⟨hflash fun x hx1 hx2 => ?_, h2⟩
    unfold cacheView
    rw [if_neg (by omega)]
  rw [if_pos hover]
  refine ⟨?_, h2⟩
  set os := max addr s.statics.cachePage with hos
  set oe := min (addr + n) (s.statics.cachePage + codePageSize) with hoe
  have hlen : ((s.statics.cache.drop (os - s.statics.cachePage)).take (oe - os)).length = oe - os := by
    rw [List.length_take, List.length_drop, hin.length]
    omega
  have hfit : os - addr + ((s.statics.cache.drop (os - s.statics.cachePage)).take (oe - os)).length ≤
      (slice s.mem addr n).length := by
    rw [hlen, slice_length]
    omega
  refine List.ext_getElem? fun i => ?_
  by_cases hi' : i < n
  swap
  · rw [List.getElem?_eq_none (by rw [memcpy_length hfit, slice_length]; omega),
      List.getElem?_eq_none (by rw [slice_length]; omega)]
  rw [slice_getElem? hi']
  have hget := memcpy_getD (i := i) hfit
  rw [List.getD_eq_getElem?_getD,
    List.getElem?_eq_getElem (by rw [memcpy_length hfit, slice_length]; exact hi'),
    Option.getD_some] at hget
  rw [List.getElem?_eq_getElem (by rw [memcpy_length hfit, slice_length]; exact hi'), hget, hlen]
  congr 1
  unfold cacheView
  by_cases hin' : os - addr ≤ i ∧ i < os - addr + (oe - os)
  · rw [if_pos hin', if_pos ⟨hd.1, by omega, by omega⟩, List.getD_eq_getElem?_getD,
      List.getElem?_take_of_lt (by omega), List.getElem?_drop, ← List.getD_eq_getElem?_getD,
      show os - s.statics.cachePage + (i - (os - addr)) = addr + i - s.statics.cachePage by omega]
  · rw [if_neg hin', if_neg (by omega), List.getD_eq_getElem?_getD, slice_getElem? hi']
    rfl

/-- The page of zeros is erased in the view, or a page has failed. -/
theorem cerasePage_view (hp : PageIn lo hi page) (h0 : page ≠ 0) (hin : CacheIn lo hi s.statics)
    (hclean : Clean s) :
    (cerasePage page).Sat (handler env) (Writes cfg lo hi) (fun r s' => Verified lo hi s r s' ∧
      (r = true → Clean s' ∧
        cacheView s' = overlay (cacheView s) page (List.replicate codePageSize 0xFF))) s := by
  have hget : Still s (after env .get s) := still_after (show Reads cfg .get s from trivial)
  have hal := hp.aligned
  refine sat_get.mpr ⟨trivial, ?_⟩
  by_cases heq : s.statics.cachePage = page
  · rw [if_pos heq]
    refine sat_modifyCache ⟨rfl, rfl, rfl, rfl, rfl⟩ ?_ fun s2 h2 hg2 hm2 => ?_
    · refine fun hc => ⟨?_, hc.page⟩
      dsimp only
      exact List.length_replicate
    refine ⟨hget.verified.trans h2, fun _ => ⟨fun _ hd => ?_, ?_⟩⟩
    · rw [hg2] at hd
      cases hd
    · have hpage : s2.statics.cachePage = page := by rw [hg2]; exact heq
      have hcache : s2.statics.cache = List.replicate codePageSize 0xFF := by rw [hg2]
      have hmem : s2.mem = s.mem := hm2
      funext x
      simp only [cacheView, overlay, List.length_replicate]
      rw [hpage, hcache, hmem, heq]
      by_cases hx : page ≤ x ∧ x < page + codePageSize
      · rw [if_pos ⟨h0, hx⟩, if_pos hx]
      · rw [if_neg fun h => hx h.2, if_neg hx, if_neg fun h => hx h.2]
  · rw [if_neg heq]
    refine (flashPageEraseVerified_spec hp).post fun r s' h => ⟨hget.verified.trans (h.verified hp),
      fun hr => ?_⟩
    have hst : s'.statics = s.statics := h.statics
    have hwritten : slice s'.mem page codePageSize = List.replicate codePageSize 0xFF := h.written hr
    have hout : ∀ x, x < page ∨ page + codePageSize ≤ x → s'.mem x = s.mem x := h.touched.mem
    have herased : ∀ x, page ≤ x → x < page + codePageSize → s'.mem x = 0xFF := by
      intro x hx1 hx2
      have hbyte : (slice s'.mem page codePageSize).getD (x - page) 0 = s'.mem x := slice_getD hx1 hx2
      rw [← hbyte, hwritten, List.getD_eq_getElem?_getD, List.getElem?_replicate, if_pos (by omega)]
      rfl
    -- another page is in the cache, so the two do not meet
    have hapart : s.statics.cachePage ≠ 0 → s.statics.cachePage + codePageSize ≤ page ∨
        page + codePageSize ≤ s.statics.cachePage := by
      intro hne
      have := (hin.page hne).aligned
      unfold codePageSize at *
      omega
    refine ⟨fun hne hd => ?_, ?_⟩
    · rw [hst] at hne hd ⊢
      rw [hclean hne hd]
      refine slice_congr fun x hx1 hx2 => (hout x ?_).symm
      have := hapart hne
      omega
    · funext x
      simp only [cacheView, overlay, List.length_replicate]
      rw [hst]
      by_cases hx : page ≤ x ∧ x < page + codePageSize
      · rw [if_pos hx, if_neg, herased x hx.1 hx.2, List.getD_eq_getElem?_getD, List.getElem?_replicate,
          if_pos (by omega)]
        · rfl
        · rintro ⟨hne, h1, h2⟩
          have := hapart hne
          omega
      · rw [if_neg hx, hout x (by omega)]

/-! ## One segment -/

section Segments

variable {c : ApplyCtx} (hws : Pages c.wsLo c.wsHi) (hle : c.wsLo ≤ c.wsHi)

/-- A range of the workspace, as `dt_ws_addr` checks it. -/
theorem dtWsAddr_in (hlt : c.wsHi < 2 ^ 32) (hle : c.wsLo ≤ c.wsHi) {off n : Nat}
    (h : off + n ≤ c.wsHi - c.wsLo) : dtWsAddr c off n = some (c.wsLo + off) := by
  unfold dtWsAddr
  simp only
  rw [sub32_eq hlt hle, if_neg (by omega), if_neg (by omega), add32_eq (by omega)]

/-- The state of the shift: its view, or a page has failed. -/
structure Shifted (c : ApplyCtx) (s : Device) (view : Nat → Byte) (res : Int) (s' : Device) : Prop where
  verified : Verified c.wsLo c.wsHi s (res = 0) s'
  view : res = 0 → Clean s' ∧ cacheView s' = view

/-- A page that failed is an I/O error. -/
theorem Shifted.failed {view : Nat → Byte} (h : Verified c.wsLo c.wsHi s false s') :
    Shifted c s view (-detoolsIoFailed) s' :=
  ⟨h, fun h0 => by cases h0⟩

theorem Shifted.trans {view : Nat → Byte} {res : Int} (h : Verified c.wsLo c.wsHi s true s')
    (h' : Shifted c s' view res s'') : Shifted c s view res s'' :=
  ⟨h.trans h'.verified, h'.view⟩

/-- Two writes side by side are one. -/
theorem overlay_append (f : Nat → Byte) (addr : Nat) (d d' : List Byte) :
    overlay (overlay f addr d) (addr + d.length) d' = overlay f addr (d ++ d') := by
  have h := overlay_take_drop f addr d.length (d ++ d') (by simp)
  rwa [List.take_left, List.drop_left] at h

theorem overlay_outside {f : Nat → Byte} {addr x : Nat} {d : List Byte}
    (h : x < addr ∨ addr + d.length ≤ x) : overlay f addr d x = f x := by
  unfold overlay
  rw [if_neg (by omega)]

include hws hle in
/-- The rest of a copy. What is still to be read is not among what was written: it lies
below it, or is written where it lies. -/
theorem shiftCopy_spec {view : Nat → Byte} {readAddress writeAddress : Nat}
    (hread : readAddress + codePageSize ≤ c.wsHi - c.wsLo)
    (hwrite : writeAddress + codePageSize ≤ c.wsHi - c.wsLo)
    (hapart : readAddress + codePageSize ≤ writeAddress ∨ readAddress = writeAddress)
    (fuel offset : Nat) (hfuel : codePageSize ≤ offset + fuel) (hoff : offset ≤ codePageSize) {s : Device}
    (hin : CacheIn c.wsLo c.wsHi s.statics) (hclean : Clean s)
    (hview : cacheView s = overlay view (c.wsLo + writeAddress)
      (slice view (c.wsLo + readAddress) offset)) :
    (shiftCopy c readAddress writeAddress codePageSize fuel offset).Sat (handler env)
      (Writes cfg c.wsLo c.wsHi)
      (Shifted c s (overlay view (c.wsLo + writeAddress)
        (slice view (c.wsLo + readAddress) codePageSize))) s := by
  have hlt := hws.lt
  have hp : codePageSize = 0x1000 := rfl
  induction fuel generalizing offset s with
  | zero =>
    obtain rfl : offset = codePageSize := by omega
    exact ⟨(Still.refl s).verified, fun _ => ⟨hclean, hview⟩⟩
  | succ fuel ih =>
    unfold shiftCopy
    by_cases hend : codePageSize ≤ offset
    · rw [if_pos hend]
      obtain rfl : offset = codePageSize := by omega
      exact ⟨(Still.refl s).verified, fun _ => ⟨hclean, hview⟩⟩
    rw [if_neg hend]
    set size := min 128 (codePageSize - offset) with hsize
    rw [add32_eq (by omega), add32_eq (by omega)]
    have hmr : (dtMr c (readAddress + offset) size).Sat (handler env) (Writes cfg c.wsLo c.wsHi)
        (fun r s' => r = some (slice (cacheView s) (c.wsLo + (readAddress + offset)) size) ∧
          Still s s') s := by
      unfold dtMr
      rw [dtWsAddr_in hlt hle (by omega)]
      refine ((cread_view hin hclean hlt (by omega)).mono (fun _ _ h => h.writes) fun _ _ h => h).bind
        fun r s' h => ⟨by rw [h.1], h.2⟩
    refine hmr.bind fun r s1 h1 => ?_
    obtain ⟨rfl, h1⟩ := h1
    -- the bytes read are those of the old view
    have hbytes : slice (cacheView s) (c.wsLo + (readAddress + offset)) size =
        slice view (c.wsLo + readAddress + offset) size := by
      rw [hview, Nat.add_assoc]
      refine slice_congr fun x hx1 hx2 => overlay_outside ?_
      rw [slice_length]
      omega
    rw [hbytes]
    simp only
    have hin1 : CacheIn c.wsLo c.wsHi s1.statics := hin.keeps h1.cache
    have hclean1 : Clean s1 := by
      intro hne hd
      rw [h1.cache.cachePage] at hne ⊢
      rw [h1.cache.cacheDirty] at hd
      rw [h1.cache.cache, h1.mem]
      exact hclean hne hd
    have hview1 : cacheView s1 = cacheView s := by
      funext x
      simp only [cacheView, h1.cache.cachePage, h1.cache.cache, h1.mem]
    have hlen : (slice view (c.wsLo + readAddress + offset) size).length = size := slice_length _ _ _
    have hmw : (dtMw c (writeAddress + offset) (slice view (c.wsLo + readAddress + offset) size)).Sat
        (handler env) (Writes cfg c.wsLo c.wsHi)
        (fun r s' => Verified c.wsLo c.wsHi s1 r s' ∧ (r = true → Clean s' ∧ cacheView s' =
          overlay (cacheView s1) (c.wsLo + (writeAddress + offset))
            (slice view (c.wsLo + readAddress + offset) size))) s1 := by
      unfold dtMw
      rw [hlen, dtWsAddr_in hlt hle (by omega)]
      refine (cwriteLoop_spec hws _ (Nat.le_refl _) (by omega) (by rw [hlen]; omega) hin1).post
        fun r s' h => ⟨h.1, fun hr => h.2 hr hclean1⟩
    refine Sat.bindVerified hmw (fun s2 h2 => ?_) fun s2 h2 => ?_
    · exact .failed (h1.verified.trans h2.1)
    · obtain ⟨hclean2, hview2⟩ := h2.2 rfl
      have hnext : cacheView s2 = overlay view (c.wsLo + writeAddress)
          (slice view (c.wsLo + readAddress) (offset + size)) := by
        have hoverlay := overlay_append view (c.wsLo + writeAddress)
          (slice view (c.wsLo + readAddress) offset) (slice view (c.wsLo + readAddress + offset) size)
        rw [slice_length] at hoverlay
        rw [hview2, hview1, hview, ← Nat.add_assoc, hoverlay, slice_add]
      refine (ih (offset + size) (by omega) (by omega) (h2.1.touched.cache hin1) hclean2 hnext).post
        fun res s3 h3 => h3.trans (h1.verified.trans h2.1)

include hws hle in
/-- The erase of a page of the workspace. -/
theorem dtMe_view {addr : Nat} (ha : addr % codePageSize = 0)
    (hmax : addr + codePageSize ≤ c.wsHi - c.wsLo) (hin : CacheIn c.wsLo c.wsHi s.statics)
    (hclean : Clean s) :
    (dtMe c addr codePageSize).Sat (handler env) (Writes cfg c.wsLo c.wsHi)
      (fun r s' => Verified c.wsLo c.wsHi s r s' ∧ (r = true → Clean s' ∧ cacheView s' =
        overlay (cacheView s) (c.wsLo + addr) (List.replicate codePageSize 0xFF))) s := by
  have hlt := hws.lt
  have hp : codePageSize = 0x1000 := rfl
  have hlow := hws.low
  have hal : (c.wsLo + addr) % codePageSize = 0 := by
    rw [hp] at ha hlow ⊢
    omega
  have hpage : PageIn c.wsLo c.wsHi (c.wsLo + addr) := ⟨by omega, by omega, hal⟩
  unfold dtMe
  rw [dtWsAddr_in hlt hle (by omega)]
  change (ceraseLoop (0xFFF + 1) (c.wsLo + addr) codePageSize).Sat _ _ _ s
  rw [ceraseLoop, if_neg (by decide)]
  simp only
  rw [hal, Nat.sub_zero, Nat.sub_zero, Nat.min_self, Nat.sub_self]
  refine Sat.bindVerified (cerasePage_view hpage (by have := hws.pos; omega) hin hclean)
    (fun s1 h1 => ⟨h1.1, nofun⟩) fun s1 h1 => ?_
  rw [if_neg (by decide)]
  change (ceraseLoop (0xFFE + 1) _ 0).Sat _ _ _ s1
  rw [ceraseLoop, if_pos rfl]
  exact h1

/-- What a view becomes: `len` bytes from `lo` on, moved up by `shift`. A shift of zero
leaves them erased. -/
def shiftedView (f : Nat → Byte) (lo shift len x : Nat) : Byte :=
  if lo + shift ≤ x ∧ x < lo + shift + len then if shift = 0 then 0xFF else f (x - shift) else f x

theorem overlay_inside {f : Nat → Byte} {addr x : Nat} {d : List Byte}
    (h1 : addr ≤ x) (h2 : x < addr + d.length) : overlay f addr d x = d.getD (x - addr) 0 := by
  unfold overlay
  rw [if_pos ⟨h1, h2⟩]

/-- One segment more: it is moved first, and what is below it is not touched by that. -/
theorem shiftedView_segment {f : Nat → Byte} {lo shift n : Nat}
    (hshift : shift = 0 ∨ codePageSize ≤ shift) :
    shiftedView (overlay (overlay f (lo + (n * codePageSize + shift)) (List.replicate codePageSize 0xFF))
      (lo + (n * codePageSize + shift))
      (slice (overlay f (lo + (n * codePageSize + shift)) (List.replicate codePageSize 0xFF))
        (lo + n * codePageSize) codePageSize)) lo shift (n * codePageSize) =
    shiftedView f lo shift ((n + 1) * codePageSize) := by
  have hp : codePageSize = 0x1000 := rfl
  have hrep : (List.replicate codePageSize (0xFF : Byte)).length = codePageSize := List.length_replicate
  have hsucc : (n + 1) * codePageSize = n * codePageSize + codePageSize := Nat.succ_mul _ _
  generalize n * codePageSize = len at *
  -- outside its segment the copy changes nothing
  have hout : ∀ x, x < lo + (len + shift) ∨ lo + (len + shift) + codePageSize ≤ x →
      overlay (overlay f (lo + (len + shift)) (List.replicate codePageSize 0xFF)) (lo + (len + shift))
        (slice (overlay f (lo + (len + shift)) (List.replicate codePageSize 0xFF)) (lo + len)
          codePageSize) x = f x := by
    intro x hx
    rw [overlay_outside (by rw [slice_length]; exact hx), overlay_outside (by rw [hrep]; exact hx)]
  have hin : ∀ x, lo + (len + shift) ≤ x → x < lo + (len + shift) + codePageSize →
      overlay (overlay f (lo + (len + shift)) (List.replicate codePageSize 0xFF)) (lo + (len + shift))
        (slice (overlay f (lo + (len + shift)) (List.replicate codePageSize 0xFF)) (lo + len)
          codePageSize) x = if shift = 0 then 0xFF else f (x - shift) := by
    intro x h1 h2
    rw [overlay_inside h1 (by rw [slice_length]; exact h2), show x - (lo + (len + shift)) =
      x - shift - (lo + len) by omega, slice_getD (by omega) (by omega)]
    rcases hshift with h0 | hge
    · rw [if_pos h0, overlay_inside (by omega) (by rw [hrep]; omega), List.getD_eq_getElem?_getD,
        List.getElem?_replicate, if_pos (by omega)]
      rfl
    · rw [if_neg (by omega), overlay_outside (by rw [hrep]; omega)]
  funext x
  unfold shiftedView
  rw [hsucc]
  by_cases hx : lo + shift ≤ x ∧ x < lo + shift + len
  · have hx' : lo + shift ≤ x ∧ x < lo + shift + (len + codePageSize) := by omega
    rw [if_pos hx, if_pos hx']
    by_cases h0 : shift = 0
    · rw [if_pos h0, if_pos h0]
    · rw [if_neg h0, if_neg h0]
      exact hout (x - shift) (by omega)
  · rw [if_neg hx]
    by_cases hseg : lo + (len + shift) ≤ x ∧ x < lo + (len + shift) + codePageSize
    · have hx' : lo + shift ≤ x ∧ x < lo + shift + (len + codePageSize) := by omega
      rw [hin x hseg.1 hseg.2, if_pos hx']
    · have hx' : ¬ (lo + shift ≤ x ∧ x < lo + shift + (len + codePageSize)) := by omega
      rw [hout x (by omega), if_neg hx']

include hws hle in
theorem shiftSegments_spec {shift : Nat} (hshift : shift = 0 ∨ codePageSize ≤ shift)
    (hal : shift % codePageSize = 0) (n : Nat)
    (hmax : n * codePageSize + shift ≤ c.wsHi - c.wsLo) {s : Device}
    (hin : CacheIn c.wsLo c.wsHi s.statics) (hclean : Clean s) {readAddress writeAddress : Nat}
    (hread : n ≠ 0 → readAddress = (n - 1) * codePageSize)
    (hwrite : n ≠ 0 → writeAddress = (n - 1) * codePageSize + shift) :
    (shiftSegments c codePageSize n readAddress writeAddress).Sat (handler env)
      (Writes cfg c.wsLo c.wsHi)
      (Shifted c s (shiftedView (cacheView s) c.wsLo shift (n * codePageSize))) s := by
  have hlt := hws.lt
  have hp : codePageSize = 0x1000 := rfl
  induction n generalizing s readAddress writeAddress with
  | zero =>
    refine ⟨(Still.refl s).verified, fun _ => ⟨hclean, ?_⟩⟩
    funext x
    unfold shiftedView
    rw [if_neg (by omega)]
  | succ n ih =>
    obtain rfl : readAddress = n * codePageSize := hread (Nat.succ_ne_zero n)
    obtain rfl : writeAddress = n * codePageSize + shift := hwrite (Nat.succ_ne_zero n)
    have hsucc : (n + 1) * codePageSize = n * codePageSize + codePageSize := Nat.succ_mul _ _
    rw [hsucc] at hmax
    have hwal : (n * codePageSize + shift) % codePageSize = 0 := by
      rw [Nat.add_mod, Nat.mul_mod_left, hal]
      rfl
    unfold shiftSegments
    refine Sat.bindVerified (dtMe_view hws hle hwal (by omega) hin hclean)
      (fun s1 h1 => .failed h1.1) fun s1 h1 => ?_
    obtain ⟨hclean1, hview1⟩ := h1.2 rfl
    have hin1 := h1.1.touched.cache hin
    have hcopy : (shiftCopy c (n * codePageSize) (n * codePageSize + shift) codePageSize codePageSize
        0).Sat (handler env) (Writes cfg c.wsLo c.wsHi)
        (Shifted c s1 (overlay (cacheView s1) (c.wsLo + (n * codePageSize + shift))
          (slice (cacheView s1) (c.wsLo + n * codePageSize) codePageSize))) s1 := by
      refine shiftCopy_spec hws hle (by omega) (by omega) (by omega) codePageSize 0 (by omega)
        (by omega) hin1 hclean1 ?_
      rw [show slice (cacheView s1) _ 0 = [] from rfl, overlay_nil]
    refine hcopy.bind fun res s2 h2 => ?_
    by_cases h0 : res = 0
    swap
    · change Sat _ _ _ (if res ≠ 0 then _ else _) _
      rw [if_pos h0]
      exact (Shifted.mk h2.verified fun h => absurd h h0).trans h1.1
    subst h0
    change Sat _ _ _ (if (0 : Int) ≠ 0 then _ else _) _
    rw [if_neg (by decide)]
    obtain ⟨hclean2, hview2⟩ := h2.view rfl
    have h12 : Verified c.wsLo c.wsHi s true s2 := h1.1.trans (by simpa using h2.verified)
    refine (ih (by omega) (h12.touched.cache hin) hclean2 (fun hn => ?_) fun hn => ?_).post
      fun res s3 h3 => ?_
    · obtain ⟨k, rfl⟩ := Nat.exists_eq_succ_of_ne_zero hn
      rw [sub32_eq (by omega) (by rw [Nat.succ_mul]; omega), Nat.succ_mul]
      simp
    · obtain ⟨k, rfl⟩ := Nat.exists_eq_succ_of_ne_zero hn
      rw [sub32_eq (by omega) (by rw [Nat.succ_mul]; omega), Nat.succ_mul]
      simp only [Nat.succ_eq_add_one, Nat.add_sub_cancel]
      omega
    · have hv := h3.trans h12
      rw [hview2, hview1, shiftedView_segment hshift] at hv
      exact hv

end Segments

/-! ## Working flash -/

section Working

variable {α β : Type}

/-- From a whole page in the cache, `p` marks no failed page. -/
def Works (env : Env) (p : MotaM α) : Prop :=
  ∀ s, s.statics.cache.length = codePageSize → p.Sat (handler env)
    (fun o _ => o ≠ .mark .pageFailed) (fun _ s' => s'.statics.cache.length = codePageSize) s

theorem works_ret (a : α) : Works env (.ret a) := fun _ h => h

theorem Works.bind {p : MotaM α} {f : α → MotaM β} (hp : Works env p) (hf : ∀ a, Works env (f a)) :
    Works env (p >>= f) := fun s h => (hp s h).bind fun a s' h' => hf a s' h'

theorem works_get {f : Statics → MotaM β}
    (hf : ∀ g, g.cache.length = codePageSize → Works env (f g)) : Works env (getStatics >>= f) :=
  fun s h => sat_get.mpr ⟨nofun, hf s.statics h _ h⟩

theorem works_modify {f : Statics → Statics}
    (hf : ∀ g, g.cache.length = codePageSize → (f g).cache.length = codePageSize) :
    Works env (modifyStatics f) :=
  works_get fun g h _ _ => ⟨nofun, hf g h⟩

/-- A page that is read is a whole one. -/
theorem works_flRead {f : List Byte → MotaM β} {a n : Nat}
    (hf : ∀ d, d.length = n → Works env (f d)) : Works env (flRead a n >>= f) :=
  fun _ h => sat_flRead.mpr ⟨nofun, hf _ (slice_length _ _ _) _ h⟩

/-- A page operation, then the rest. -/
theorem Works.bindOk {p : MotaM Bool} {q r : MotaM β} (hp : Works env p) (hq : Works env q)
    (hr : Works env r) : Works env (p >>= fun ok => if !ok then q else r) := by
  refine hp.bind fun ok => ?_
  cases ok with
  | false => exact hq
  | true => exact hr

/-- What one attempt asks: the erase, the words if there are any, the page read back. -/
def attemptLength (words : Option (List Byte)) : Nat := if words.isSome then 3 else 2

/-- Attempt `k` of those that start at tick `t` meets no fault. -/
structure Faultless (env : Env) (words : Option (List Byte)) (t k : Nat) : Prop where
  erase : env.fault (t + k * attemptLength words) = .ok
  words : words.isSome → env.fault (t + k * attemptLength words + 1) = .ok

theorem Faultless.next {words : Option (List Byte)} {t k : Nat}
    (h : Faultless env words t (k + 1)) : Faultless env words (t + attemptLength words) k := by
  have htick : t + attemptLength words + k * attemptLength words =
      t + (k + 1) * attemptLength words := by rw [Nat.succ_mul]; omega
  exact ⟨htick ▸ h.erase, fun hw => htick ▸ h.words hw⟩

theorem after_erase_byte {page x : Nat} (hok : env.fault s.tick = .ok) (h1 : page ≤ x)
    (h2 : x < page + codePageSize) : (after env (.erase page) s).mem x = 0xFF := by
  simp only [after, nvOps, hok, eraseOps]
  exact FlashOp.apply_erase h1 h2

theorem slice_erase {page : Nat} (hok : env.fault s.tick = .ok) :
    slice (after env (.erase page) s).mem page codePageSize =
      List.replicate codePageSize 0xFF := by
  refine List.ext_getElem? fun i => ?_
  by_cases hi : i < codePageSize
  · rw [slice_getElem? hi, after_erase_byte hok (by omega) (by omega), List.getElem?_replicate,
      if_pos hi]
  · rw [List.getElem?_eq_none (by rw [slice_length]; omega),
      List.getElem?_eq_none (by rw [List.length_replicate]; omega)]

theorem slice_rewrite {page : Nat} {d : List Byte} (hd : d.length = codePageSize)
    (herase : env.fault s.tick = .ok) (hwords : env.fault (s.tick + 1) = .ok) :
    slice (after env (.words page d) (after env (.erase page) s)).mem page codePageSize = d := by
  have hp : codePageSize = 0x1000 := rfl
  refine List.ext_getElem? fun i => ?_
  by_cases hi : i < codePageSize
  · have hbyte : (after env (.words page d) (after env (.erase page) s)).mem (page + i) =
        d.getD (page + i - page) 0 := by
      change replay (wordsOps (env.fault (s.tick + 1)) page d) _ (page + i) = _
      rw [hwords]
      exact replay_wordsWrite_erased (by omega) (by omega) (by omega)
        (after_erase_byte herase (by omega) (by omega))
    rw [slice_getElem? hi, hbyte, Nat.add_sub_cancel_left, List.getD_eq_getElem?_getD,
      List.getElem?_eq_getElem (by omega)]
    rfl
  · rw [List.getElem?_eq_none (by rw [slice_length]; omega), List.getElem?_eq_none (by omega)]

/-- One attempt without a fault is enough, whatever the others meet. -/
theorem pageAttempts_faultless {words : Option (List Byte)}
    (hd : ∀ d, words = some d → d.length = codePageSize) {k n : Nat} (hk : k < n)
    (hok : Faultless env words s.tick k) :
    (pageAttempts page words n).Sat (handler env) (fun o _ => o ≠ .mark .pageFailed)
      (fun r s' => r = true ∧ s'.statics = s.statics) s := by
  induction n generalizing s k with
  | zero => exact absurd hk (Nat.not_lt_zero k)
  | succ n ih =>
    unfold pageAttempts
    refine sat_op.mpr ⟨(fun h => by cases h), ?_⟩
    cases words with
    | none =>
      refine sat_readback (fun h => by cases h) (fun _ => ⟨rfl, rfl⟩) fun hne => ?_
      cases k with
      | zero => exact absurd (slice_erase (by simpa using hok.erase)) hne
      | succ k =>
        exact ih (s := after env .view (after env (.erase page) s)) (Nat.lt_of_succ_lt_succ hk)
          hok.next
    | some d =>
      refine sat_op.mpr ⟨(fun h => by cases h), ?_⟩
      refine sat_readback (fun h => by cases h) (fun _ => ⟨rfl, rfl⟩) fun hne => ?_
      cases k with
      | zero =>
        have hwords := hok.words rfl
        rw [Nat.zero_mul, Nat.add_zero] at hwords
        exact absurd (slice_rewrite (hd d rfl) (by simpa using hok.erase) hwords) hne
      | succ k =>
        exact ih (s := after env .view (after env (.words page d) (after env (.erase page) s)))
          (Nat.lt_of_succ_lt_succ hk) hok.next

/-- On flash without faults the first attempt at a page holds. -/
theorem works_pageAttempts (hfault : ∀ n, env.fault n = .ok) {words : Option (List Byte)}
    (hd : ∀ d, words = some d → d.length = codePageSize) (n : Nat) :
    Works env (pageAttempts page words (n + 1)) := fun _ h =>
  (pageAttempts_faultless hd n.succ_pos ⟨hfault _, fun _ => hfault _⟩).post
    fun _ _ hs => hs.2 ▸ h

variable (hfault : ∀ n, env.fault n = .ok)
include hfault

theorem works_cacheFlush : Works env cacheFlush := by
  refine works_get fun g hg => ?_
  have hend : Works env (modifyStatics (fun g => { g with cachePage := 0, cacheDirty := false }) >>=
      fun _ => pure true) := by
    refine Works.bind (works_modify ?_) fun _ => works_ret _
    exact fun _ h => h
  by_cases h0 : g.cachePage = 0
  · rw [if_pos h0]
    exact works_ret _
  rw [if_neg h0]
  refine Works.bindOk ?_ (works_ret _) hend
  split_ifs with hdirty
  · exact works_pageAttempts hfault (fun d hd => Option.some.inj hd ▸ hg) 2
  · exact works_ret _

theorem works_cacheUse (page : Nat) : Works env (cacheUse page) := by
  refine works_get fun g hg => ?_
  by_cases h0 : g.cachePage = page
  · rw [if_pos h0]
    exact works_ret _
  rw [if_neg h0]
  refine (works_cacheFlush hfault).bindOk (works_ret _) (works_flRead fun d hd => ?_)
  exact (works_modify fun _ _ => hd).bind fun _ => works_ret _

theorem works_cwriteLoop (fuel addr : Nat) (src : List Byte) :
    Works env (cwriteLoop fuel addr src) := by
  induction fuel generalizing addr src with
  | zero => exact works_ret _
  | succ fuel ih =>
    unfold cwriteLoop
    by_cases h0 : src.length = 0
    · rw [if_pos h0]
      exact works_ret _
    rw [if_neg h0]
    refine (works_cacheUse hfault _).bindOk (works_ret _) ((works_modify fun g hg => ?_).bind
      fun _ => ih _ _)
    have hmod : addr % codePageSize < codePageSize := Nat.mod_lt _ (by decide)
    dsimp only
    rw [memcpy_length, hg]
    rw [List.length_take, hg]
    omega

theorem works_cerasePage (page : Nat) : Works env (cerasePage page) := by
  refine works_get fun g hg => ?_
  by_cases h0 : g.cachePage = page
  · rw [if_pos h0]
    exact (works_modify fun _ _ => List.length_replicate).bind fun _ => works_ret _
  · rw [if_neg h0]
    exact works_pageAttempts hfault (fun d (hd : none = some d) => nomatch hd) 2

theorem works_ceraseLoop (fuel addr n : Nat) : Works env (ceraseLoop fuel addr n) := by
  induction fuel generalizing addr n with
  | zero => exact works_ret _
  | succ fuel ih =>
    unfold ceraseLoop
    by_cases h0 : n = 0
    · rw [if_pos h0]
      exact works_ret _
    · rw [if_neg h0]
      exact (works_cerasePage hfault _).bindOk (works_ret _) (ih _ _)

omit hfault in
theorem works_cread (addr n : Nat) : Works env (cread addr n) := by
  refine works_flRead fun d _ => works_get fun g _ => ?_
  dsimp only
  split_ifs <;> exact works_ret _

theorem works_shiftCopy (c : ApplyCtx) (readAddress writeAddress segmentSize fuel offset : Nat) :
    Works env (shiftCopy c readAddress writeAddress segmentSize fuel offset) := by
  induction fuel generalizing offset with
  | zero => exact works_ret _
  | succ fuel ih =>
    unfold shiftCopy
    by_cases hend : segmentSize ≤ offset
    · rw [if_pos hend]
      exact works_ret _
    rw [if_neg hend]
    refine Works.bind ?_ fun r => ?_
    · unfold dtMr
      split
      · exact works_ret _
      · exact (works_cread _ _).bind fun _ => works_ret _
    cases r with
    | none => exact works_ret _
    | some buf =>
      refine Works.bindOk ?_ (works_ret _) (ih _)
      unfold dtMw
      split
      · exact works_ret _
      · exact works_cwriteLoop hfault _ _ _

theorem works_shiftSegments (c : ApplyCtx) (segmentSize n readAddress writeAddress : Nat) :
    Works env (shiftSegments c segmentSize n readAddress writeAddress) := by
  induction n generalizing readAddress writeAddress with
  | zero => exact works_ret _
  | succ n ih =>
    unfold shiftSegments
    refine Works.bindOk ?_ (works_ret _) ((works_shiftCopy hfault _ _ _ _ _ _).bind fun res => ?_)
    · unfold dtMe
      split
      · exact works_ret _
      · exact works_ceraseLoop hfault _ _ _
    · split_ifs
      · exact works_ret _
      · exact ih _ _

end Working

/-! ## An accepted header -/

section Accepted

variable {c : ApplyCtx} {m : MotaMin} {bodyLen : Nat} {fixed : Byte} {sizes : List Nat}

/-- What the header's sizes satisfy. -/
structure Geometry (span memory segment shift size : Nat) : Prop where
  memory_le : memory ≤ span
  segment_eq : segment = codePageSize
  aligned : shift % codePageSize = 0
  size_le : size + shift ≤ memory
  pos : 0 < size

theorem geometry_of_ok {span : Nat}
    (hok : dtGeometryValuesOk m bodyLen span fixed sizes = true) :
    Geometry span (sizes.getD 0 0) (sizes.getD 1 0) (sizes.getD 2 0) (sizes.getD 3 0) := by
  have he : endfLen = 56 := rfl
  simp only [dtGeometryValuesOk, Bool.and_eq_true, decide_eq_true_eq] at hok
  obtain ⟨⟨⟨⟨⟨⟨⟨⟨⟨⟨⟨⟨-, -⟩, -⟩, hspan⟩, hsegment⟩, hle⟩, hshift⟩, hsize⟩, -⟩, -⟩, hpos⟩, -⟩, -⟩ := hok
  rw [hsegment] at hshift
  exact ⟨hspan, hsegment, hshift, by omega, by omega⟩

/-- The shift of an accepted header, as its segments. -/
theorem inPlaceShiftMemory_eq {memory segment shift size : Nat} (hws : Pages c.wsLo c.wsHi)
    (hg : Geometry (c.wsHi - c.wsLo) memory segment shift size) :
    ∃ n, size ≤ n * codePageSize ∧ n * codePageSize + shift ≤ c.wsHi - c.wsLo ∧
      inPlaceShiftMemory c memory segment shift size =
        shiftSegments c codePageSize n ((n - 1) * codePageSize) ((n - 1) * codePageSize + shift) := by
  have hp : codePageSize = 0x1000 := rfl
  have hlow := hws.low
  have hhigh := hws.high
  have hlt := hws.lt
  obtain ⟨hspan, rfl, hshift, hsize, hpos⟩ := hg
  have hn : 0 < (size + codePageSize - 1) / codePageSize := by
    rw [hp]
    omega
  have hmax : (size + codePageSize - 1) / codePageSize * codePageSize + shift ≤ c.wsHi - c.wsLo := by
    rw [hp] at hlow hhigh hshift ⊢
    omega
  refine ⟨(size + codePageSize - 1) / codePageSize, by rw [hp]; omega, hmax, ?_⟩
  unfold inPlaceShiftMemory
  rw [sub32_eq (by omega) (by omega), Nat.min_eq_left (by omega)]
  simp only
  have hread : ((size + codePageSize - 1) / codePageSize - 1) * codePageSize + shift < 2 ^ 32 := by
    rw [Nat.sub_mul]
    omega
  rw [sub32_eq (by rw [hp] at hmax ⊢; omega) hn, Nat.mod_eq_of_lt (Nat.lt_of_le_of_lt
    (Nat.le_add_right _ shift) hread), add32_eq hread]

/-- The range read back is the old one, where it was moved or erased bytes were. -/
theorem shiftedView_slice {f : Nat → Byte} {lo shift len size : Nat} (hlen : size ≤ len) :
    slice (shiftedView f lo shift len) (lo + shift) size = slice f lo size ↔
      0 < shift ∨ ∀ x, lo ≤ x → x < lo + size → f x = 0xFF := by
  have hget : ∀ i, i < size → (shiftedView f lo shift len (lo + shift + i)) =
      if shift = 0 then 0xFF else f (lo + i) := by
    intro i hi
    unfold shiftedView
    rw [if_pos (by omega), show lo + shift + i - shift = lo + i by omega]
  constructor
  · intro h
    by_contra! hne
    obtain ⟨hshift, x, h1, h2, hx⟩ := hne
    have hbyte : (slice (shiftedView f lo shift len) (lo + shift) size)[x - lo]? =
        (slice f lo size)[x - lo]? := by rw [h]
    rw [slice_getElem? (by omega), slice_getElem? (by omega), hget _ (by omega), if_pos (by omega),
      show lo + (x - lo) = x by omega] at hbyte
    exact hx (Option.some.inj hbyte).symm
  · intro h
    refine List.ext_getElem? fun i => ?_
    by_cases hi : i < size
    swap
    · rw [List.getElem?_eq_none (by rw [slice_length]; omega),
        List.getElem?_eq_none (by rw [slice_length]; omega)]
    rw [slice_getElem? hi, slice_getElem? hi, hget i hi]
    split_ifs with h0
    · rcases h with h | h
      · omega
      · rw [h _ (by omega) (by omega)]
    · rfl

/-- Marks other than a failed page do not add one. -/
theorem marks_without_failed {o : Op} (ho : o ≠ .mark .pageFailed) (hs : .pageFailed ∉ s.marks) :
    .pageFailed ∉ (after env o s).marks := by
  cases o with
  | mark e =>
    intro h
    rcases List.mem_append.mp h with h | h
    · exact hs h
    · exact ho (by rw [List.mem_singleton.mp h])
  | settingsCommit r =>
    rw [after_settingsCommit]
    exact hs
  | _ => exact hs

/-- The run of an accepted header's shift, with working flash. -/
theorem inPlaceShiftMemory_run {memory segment shift size : Nat} (hws : Pages c.wsLo c.wsHi)
    (hle : c.wsLo ≤ c.wsHi) (hg : Geometry (c.wsHi - c.wsLo) memory segment shift size)
    (hempty : CacheEmpty s.statics) (hmarks : .pageFailed ∉ s.marks)
    (hfault : ∀ n, env.fault n = .ok) :
    let run := inPlaceShiftMemory c memory segment shift size
    let after := run.run (handler env) s
    after.1 = 0 ∧ (∀ x ∈ run.trace (handler env) s, PageOp c.wsLo c.wsHi x.1) ∧
      ∃ len, size ≤ len ∧ ((dtMr c shift size).run (handler env) after.2).1 =
        some (slice (shiftedView s.mem c.wsLo shift len) (c.wsLo + shift) size) := by
  have hp : codePageSize = 0x1000 := rfl
  have hlt := hws.lt
  obtain ⟨n, hn, hmax, heq⟩ := inPlaceShiftMemory_eq hws hg
  have hsize := hg.size_le
  have hmem := hg.memory_le
  have hview : cacheView s = s.mem := by
    funext x
    unfold cacheView
    rw [if_neg fun h => h.1 hempty.page]
  have hshift : shift = 0 ∨ codePageSize ≤ shift := by
    have hal := hg.aligned
    rw [hp] at hal ⊢
    omega
  have hspec : (inPlaceShiftMemory c memory segment shift size).Sat (handler env)
      (Writes sampleProfile c.wsLo c.wsHi)
      (Shifted c s (shiftedView (cacheView s) c.wsLo shift (n * codePageSize))) s := by
    rw [heq]
    exact shiftSegments_spec hws hle hshift hg.aligned n hmax (hempty.cacheIn _ _)
      (fun h => absurd hempty.page h) (fun _ => rfl) fun _ => rfl
  have hworks : Works env (inPlaceShiftMemory c memory segment shift size) := by
    rw [heq]
    exact works_shiftSegments hfault _ _ _ _ _
  intro run after
  have hafter : Shifted c s (shiftedView (cacheView s) c.wsLo shift (n * codePageSize)) after.1
    after.2 := hspec.result
  have hzero : after.1 = 0 := by
    by_contra hne
    have hnone : .pageFailed ∉ after.2.marks :=
      (hworks s hempty.length).inv (I := fun s => .pageFailed ∉ s.marks) hmarks
        fun o s ho hs => marks_without_failed ho hs
    exact hnone (hafter.verified.failed (by simpa using hne))
  refine ⟨hzero, fun x hx => (hspec.trace x hx).pageOp, n * codePageSize, hn, ?_⟩
  obtain ⟨hclean, hafterView⟩ := hafter.view hzero
  rw [← hview, ← hafterView]
  have hin := hafter.verified.touched.cache (hempty.cacheIn c.wsLo c.wsHi)
  have hsat : (dtMr c shift size).Sat (handler env) (Reads sampleProfile)
      (fun r _ => r = some (slice (cacheView after.2) (c.wsLo + shift) size)) after.2 := by
    unfold dtMr
    rw [dtWsAddr_in hlt hle (by omega)]
    exact (cread_view hin hclean hlt (by omega)).bind fun r s' h => congrArg some h.1
  exact hsat.result

/-- The shift of an accepted header, with working flash, erases and writes pages of the
workspace only and ends well; what is then read at the shift is the old image unless the
shift is zero. -/
theorem mota_shift_iff (hws : Pages c.wsLo c.wsHi) (hle : c.wsLo ≤ c.wsHi)
    (hok : dtGeometryValuesOk m bodyLen (c.wsHi - c.wsLo) fixed sizes = true)
    (hempty : CacheEmpty s.statics) (hmarks : .pageFailed ∉ s.marks)
    (hfault : ∀ n, env.fault n = .ok) :
    let run := inPlaceShiftMemory c (sizes.getD 0 0) (sizes.getD 1 0) (sizes.getD 2 0)
      (sizes.getD 3 0)
    let after := run.run (handler env) s
    (after.1 = 0 ∧ (∀ x ∈ run.trace (handler env) s, PageOp c.wsLo c.wsHi x.1) ∧
      ((dtMr c (sizes.getD 2 0) (sizes.getD 3 0)).run (handler env) after.2).1 =
        some (slice s.mem c.wsLo (sizes.getD 3 0))) ↔
      0 < sizes.getD 2 0 ∨
        ∀ x, c.wsLo ≤ x → x < c.wsLo + sizes.getD 3 0 → s.mem x = 0xFF := by
  intro run after
  obtain ⟨hzero, htrace, len, hlen, hread⟩ :=
    inPlaceShiftMemory_run hws hle (geometry_of_ok hok) hempty hmarks hfault
  rw [hread, Option.some_inj, shiftedView_slice hlen]
  exact ⟨fun h => h.2.2, fun h => ⟨hzero, htrace, h⟩⟩

/-- A workspace of two pages. -/
def shiftCtx : ApplyCtx := ⟨0, 0, 0x26000, 0x28000⟩

/-- Memory, segment, shift, old and new size of a header. -/
def shiftSizes (shift : Nat) : List Nat := [0x2000, 0x1000, shift, 64, 64]

/-- A device with an empty cache, all of whose bytes are zero. -/
def shiftDevice : Device := ⟨fun _ => 0, 0, 0, [], {}, [], [], [], [], 0⟩

theorem shiftCtx_pages : Pages shiftCtx.wsLo shiftCtx.wsHi :=
  ⟨by decide, by decide, by decide, by decide⟩

theorem shiftDevice_empty : CacheEmpty shiftDevice.statics := ⟨List.length_replicate, rfl⟩

theorem shiftDevice_marks : .pageFailed ∉ shiftDevice.marks := List.not_mem_nil

/-- An in-place container with an image of 64 bytes. -/
def shiftMota : MotaMin where
  isFull := false
  approved := true
  formatVer := 2
  flags := 0
  hashAlgo := 0x12
  blockSizeLog2 := 10
  total := 223
  imageSize := 64
  payloadSize := 9
  payloadAddr := 209
  approvalAddr := 201
  targetId := 0
  fwVersion := 1
  blockCount := 1
  imageHash := List.replicate 32 0
  codecId := 2
  hwId := List.replicate 32 0
  baseHash := List.replicate 8 0

def ShiftAccepted (shift : Nat) : Prop :=
  dtGeometryValuesOk shiftMota 8 (shiftCtx.wsHi - shiftCtx.wsLo) 0x12 (shiftSizes shift) = true

theorem shiftAccepted_page : ShiftAccepted 0x1000 := by
  unfold ShiftAccepted
  decide

theorem shiftAccepted_zero : ShiftAccepted 0 := by
  unfold ShiftAccepted
  decide

theorem mota_shift_page :
    let run := inPlaceShiftMemory shiftCtx 0x2000 0x1000 0x1000 64
    let after := run.run (handler {}) shiftDevice
    after.1 = 0 ∧ (∀ x ∈ run.trace (handler {}) shiftDevice, PageOp 0x26000 0x28000 x.1) ∧
      ((dtMr shiftCtx 0x1000 64).run (handler {}) after.2).1 =
        some (slice shiftDevice.mem 0x26000 64) := by
  have h := mota_shift_iff shiftCtx_pages (by decide) shiftAccepted_page shiftDevice_empty
    shiftDevice_marks fun n => show (({} : Env).fault n) = .ok from rfl
  exact h.mpr (.inl (by decide))

/-- A header with a shift of zero is accepted, and the old image is lost. -/
theorem mota_shift_erases :
    ShiftAccepted 0 ∧
      (let after := (inPlaceShiftMemory shiftCtx 0x2000 0x1000 0 64).run (handler {}) shiftDevice
      after.1 = 0 ∧ ((dtMr shiftCtx 0 64).run (handler {}) after.2).1 ≠
        some (slice shiftDevice.mem 0x26000 64)) := by
  have hrun := inPlaceShiftMemory_run shiftCtx_pages (by decide) (geometry_of_ok shiftAccepted_zero)
    shiftDevice_empty shiftDevice_marks fun n => show (({} : Env).fault n) = .ok from rfl
  refine ⟨shiftAccepted_zero, hrun.1, fun h => ?_⟩
  obtain ⟨len, hlen, hread⟩ := hrun.2.2
  rcases (shiftedView_slice hlen).mp (Option.some.inj (hread.symm.trans h)) with h0 | herased
  · exact absurd h0 (by decide)
  · have hbyte := herased 0x26000 (by decide) (by decide)
    exact absurd hbyte (by decide)

end Accepted

end OtaFix.Mota
