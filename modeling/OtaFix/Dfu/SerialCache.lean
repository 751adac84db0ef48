import Mathlib.Data.List.GetD
import OtaFix.FlashNrf5x
import OtaFix.Layout

/-!
# A serial transfer over a used cache

`dfu_prepare_func_app_erase` erases the image region and leaves the page cache as it
is, so a page that an unfinished bootloader UF2 has cached is still there when the
first DATA packet comes. What then reaches flash is exact: an old page is programmed
over the erased flash, or stays under the image's first page. The transfer is right
if and only if the old page clears none of the bits that it wants set (`Harmless`).
-/

namespace OtaFix

open Lib

/-! ## The transfer -/

/-- The calls of `flash_nrf5x_write` for the DATA packets. -/
def serialWrites : List (List Byte) → FlashCache → Mem → Nat → FlashCache × Mem
  | [], c, m, _ => (c, m)
  | piece :: pieces, c, m, dst =>
    let r := flashNrf5xWrite c m dst piece false
    serialWrites pieces r.1 (replay r.2 m) (dst + piece.length)

/-- The flash behind the erase, the writes and the flush of an image at `dst`. -/
def serialTransfer (c : FlashCache) (m : Mem) (dst : Nat) (pieces : List (List Byte)) : Mem :=
  let r := serialWrites pieces c (replay (flashNrf5xErase dst pieces.flatten.length) m) dst
  replay (flashNrf5xFlush r.1 r.2 false).2 r.2

/-- The image, an erased rest of its last page, and nothing else changed. -/
def wanted (m : Mem) (dst : Nat) (data : List Byte) (x : Nat) : Byte :=
  if dst ≤ x ∧ x < dst + data.length then data.getD (x - dst) 0
  else if dst ≤ x ∧ x < dst + pageCount data.length * codePageSize then 0xFF
  else m x

/-- The cached page clears no wanted bit, but for the bytes of the first page that the image
replaces. -/
def Harmless (c : FlashCache) (m : Mem) (dst : Nat) (data : List Byte) : Prop :=
  ∀ p, c.addr = some p → ∀ x, p ≤ x → x < p + codePageSize → ¬ (p = dst ∧ x < dst + data.length) →
    wanted m dst data x &&& c.buf.getD (x - p) 0 = wanted m dst data x

/-! ## What a flush makes of flash -/

/-- A page and its bytes, or nothing. -/
structure CacheShape (c : FlashCache) : Prop where
  aligned : ∀ p, c.addr = some p → p % codePageSize = 0
  length : ∀ p, c.addr = some p → c.buf.length = codePageSize

/-- The byte at `x` once the cache is flushed. -/
def flushed (c : FlashCache) (m : Mem) (x : Nat) : Byte :=
  match c.addr with
  | none => m x
  | some p => if p ≤ x ∧ x < p + codePageSize then m x &&& c.buf.getD (x - p) 0 else m x

variable {c c' c'' : FlashCache} {m m' m'' : Mem} {dst : Nat}

theorem flushed_none (h : c.addr = none) (x : Nat) : flushed c m x = m x := by
  simp [flushed, h]

theorem flushed_some {p : Nat} (h : c.addr = some p) (x : Nat) : flushed c m x =
    if p ≤ x ∧ x < p + codePageSize then m x &&& c.buf.getD (x - p) 0 else m x := by
  simp [flushed, h]

theorem replay_flush_flushed (h : CacheShape c) (x : Nat) :
    replay (flashNrf5xFlush c m false).2 m x = flushed c m x := by
  unfold flashNrf5xFlush
  cases hp : c.addr with
  | none =>
    rw [flushed_none hp]
    rfl
  | some p =>
    have hlen := h.length p hp
    rw [flushed_some hp]
    simp only [Bool.false_eq_true, if_false, List.nil_append]
    by_cases hsame : c.buf = slice m p codePageSize
    · rw [if_pos hsame, replay_nil]
      by_cases hx : p ≤ x ∧ x < p + codePageSize
      · rw [if_pos hx, hsame, slice_getD hx.1 hx.2, BitVec.and_self]
      · rw [if_neg hx]
    · rw [if_neg hsame, replay_wordsWrite (by rw [hlen]; rfl)]
      by_cases hx : p ≤ x ∧ x < p + codePageSize
      · rw [if_pos hx, FlashOp.apply_program hx.1 (by rw [hlen]; exact hx.2)]
      · rw [if_neg hx]
        apply FlashOp.apply_outside
        simp only [FlashOp.start, FlashOp.stop, hlen]
        omega

/-- What flash holds under `x` when a run of writes from `dst` on comes to it. -/
def under (c : FlashCache) (m : Mem) (dst x : Nat) : Byte :=
  if c.addr = some (pageOf dst) ∧ pageOf x = pageOf dst then m x else flushed c m x

/-- What a run of writes makes of the flushed flash, and of what it meets behind its end. -/
structure Merged (c : FlashCache) (m : Mem) (dst : Nat) (src : List Byte) (c' : FlashCache)
    (m' : Mem) : Prop where
  shape : CacheShape c'
  flushed_eq : ∀ x, flushed c' m' x = if dst ≤ x ∧ x < dst + src.length then
    under c m dst x &&& src.getD (x - dst) 0 else flushed c m x
  under_eq : ∀ x, dst + src.length ≤ x → under c' m' (dst + src.length) x = under c m dst x

theorem Merged.nil (h : CacheShape c) (m : Mem) (dst : Nat) : Merged c m dst [] c m where
  shape := h
  flushed_eq := fun x => (if_neg (by rw [List.length_nil]; omega)).symm
  under_eq := fun _ _ => rfl

theorem Merged.append {a b : List Byte} (h : Merged c m dst a c' m')
    (h' : Merged c' m' (dst + a.length) b c'' m'') : Merged c m dst (a ++ b) c'' m'' := by
  refine ⟨h'.shape, fun x => ?_, fun x hx => ?_⟩
  · rw [h'.flushed_eq, List.length_append]
    by_cases hb : dst + a.length ≤ x ∧ x < dst + a.length + b.length
    · rw [if_pos hb, if_pos (by omega), h.under_eq x hb.1, List.getD_append_right _ _ _ _ (by omega),
        Nat.sub_add_eq]
    · rw [if_neg hb, h.flushed_eq]
      by_cases ha : dst ≤ x ∧ x < dst + a.length
      · rw [if_pos ha, if_pos (by omega), List.getD_append _ _ _ _ (by omega)]
      · rw [if_neg ha, if_neg (by omega)]
  · rw [List.length_append, ← Nat.add_assoc] at hx ⊢
    rw [h'.under_eq x hx, h.under_eq x (by omega)]

/-! ## One page -/

theorem pageOf_mono {a b : Nat} (h : a ≤ b) : pageOf a ≤ pageOf b :=
  Nat.mul_le_mul_right _ (Nat.div_le_div_right h)

theorem pageOf_eq_iff {x : Nat} : pageOf x = pageOf dst ↔
    pageOf dst ≤ x ∧ x < pageOf dst + codePageSize := by
  have hp : codePageSize = 0x1000 := rfl
  unfold pageOf
  rw [hp]
  omega

/-- With the page of `dst` in the cache: flash as it was under that page, and the same flash once
flushed. -/
theorem loadPage_merged (h : CacheShape c) (m : Mem) (dst : Nat) :
    CacheShape (loadPage c m dst false).1 ∧
      (loadPage c m dst false).1.addr = some (pageOf dst) ∧
      (∀ x, pageOf x = pageOf dst → replay (loadPage c m dst false).2 m x = under c m dst x) ∧
      ∀ x, flushed (loadPage c m dst false).1 (replay (loadPage c m dst false).2 m) x =
        flushed c m x := by
  unfold loadPage
  by_cases hp : c.addr = some (pageOf dst)
  · rw [if_pos hp]
    exact ⟨h, hp, fun x hx => (if_pos ⟨hp, hx⟩).symm, fun x => rfl⟩
  rw [if_neg hp]
  simp only
  have hflush := fun x => replay_flush_flushed (m := m) h x
  have hlen : (slice (replay (flashNrf5xFlush c m false).2 m) (pageOf dst) codePageSize).length =
      codePageSize := slice_length _ _ _
  have hget : ∀ x, pageOf dst ≤ x → x < pageOf dst + codePageSize →
      (slice (replay (flashNrf5xFlush c m false).2 m) (pageOf dst) codePageSize).getD
        (x - pageOf dst) 0 = flushed c m x := fun x h1 h2 => by
    rw [slice_getD h1 h2, hflush]
  generalize slice (replay (flashNrf5xFlush c m false).2 m) (pageOf dst) codePageSize = buf
    at hlen hget
  refine ⟨⟨?_, fun _ _ => hlen⟩, trivial, fun x _ => ?_, fun x => ?_⟩
  · rintro p ⟨⟩
    exact pageOf_mod dst
  · rw [hflush]
    exact (if_neg fun hc => hp hc.1).symm
  · rw [flushed_some rfl, hflush]
    by_cases hx : pageOf dst ≤ x ∧ x < pageOf dst + codePageSize
    · rw [if_pos hx, hget x hx.1 hx.2, BitVec.and_self]
    · rw [if_neg hx]

theorem writePage_merged {src : List Byte} (h : CacheShape c) (hpos : 0 < src.length)
    (hin : dst % codePageSize + src.length ≤ codePageSize) :
    Merged c m dst src (writePage c m dst src false).1
      (replay (writePage c m dst src false).2 m) := by
  obtain ⟨hshape, haddr, hunder, hflushed⟩ := loadPage_merged h m dst
  have hdst : dst = pageOf dst + dst % codePageSize := (Nat.div_add_mod' dst codePageSize).symm
  have hp : codePageSize = 0x1000 := rfl
  unfold writePage
  simp only
  generalize loadPage c m dst false = r at hshape haddr hunder hflushed
  obtain ⟨⟨addr, buf⟩, ops⟩ := r
  obtain rfl : addr = some (pageOf dst) := haddr
  have hlen : buf.length = codePageSize := hshape.length _ rfl
  have hroom : dst % codePageSize + src.length ≤ buf.length := by rw [hlen]; exact hin
  have hpages : ∀ x, (flushed ⟨some (pageOf dst), memcpy buf (dst % codePageSize) src⟩
      (replay ops m) x) = if dst ≤ x ∧ x < dst + src.length then
        under c m dst x &&& src.getD (x - dst) 0 else flushed c m x := by
    intro x
    have hold := hflushed x
    rw [flushed_some rfl] at hold ⊢
    by_cases hx : pageOf dst ≤ x ∧ x < pageOf dst + codePageSize
    · rw [if_pos hx] at hold ⊢
      rw [memcpy_getD hroom]
      by_cases hs : dst ≤ x ∧ x < dst + src.length
      · rw [if_pos hs, if_pos (by omega), hunder x (pageOf_eq_iff.mpr hx),
          show x - pageOf dst - dst % codePageSize = x - dst by omega]
      · rw [if_neg hs, if_neg (by omega)]
        exact hold
    · rw [if_neg hx] at hold ⊢
      rw [if_neg (by omega), hold]
  refine ⟨⟨?_, fun _ _ => (memcpy_length hroom).trans hlen⟩, hpages, fun x hx => ?_⟩
  · rintro p ⟨⟩
    exact pageOf_mod dst
  · by_cases hsame : pageOf (dst + src.length) = pageOf dst
    · unfold under
      rw [hsame]
      by_cases hpage : pageOf x = pageOf dst
      · rw [if_pos ⟨rfl, hpage⟩]
        exact hunder x hpage
      · rw [if_neg fun hc => hpage hc.2, if_neg fun hc => hpage hc.2, hpages x, if_neg (by omega)]
    · -- the next byte is on a later page
      have hnext : pageOf x ≠ pageOf dst := by
        have h1 := pageOf_mono hx
        have h2 := pageOf_mono (Nat.le_add_right dst src.length)
        omega
      unfold under
      rw [if_neg fun hc => hsame (Option.some.inj hc.1).symm, if_neg fun hc => hnext hc.2, hpages x,
        if_neg (by omega)]

/-! ## The whole transfer -/

theorem writeLoop_merged {fuel : Nat} {src : List Byte} (h : CacheShape c)
    (hfuel : src.length ≤ fuel) : Merged c m dst src (writeLoop false fuel c m dst src).1
      (replay (writeLoop false fuel c m dst src).2 m) := by
  induction fuel generalizing c m dst src with
  | zero =>
    obtain rfl : src = [] := List.length_eq_zero_iff.mp (by omega)
    exact .nil h m dst
  | succ fuel ih =>
    unfold writeLoop
    by_cases hnil : src = []
    · subst hnil
      exact .nil h m dst
    rw [if_neg hnil]
    simp only
    have hpos : 0 < src.length := List.length_pos_iff.mpr hnil
    have hmod : dst % codePageSize < codePageSize := Nat.mod_lt _ (by decide)
    generalize hn : min (codePageSize - dst % codePageSize) src.length = n
    have htake : (src.take n).length = n := by
      rw [List.length_take]
      omega
    have hfirst : Merged c m dst (src.take n) (writePage c m dst (src.take n) false).1
        (replay (writePage c m dst (src.take n) false).2 m) :=
      writePage_merged h (by omega) (by omega)
    generalize writePage c m dst (src.take n) false = r at hfirst
    have hrest : Merged r.1 (replay r.2 m) (dst + n) (src.drop n)
        (writeLoop false fuel r.1 (replay r.2 m) (dst + n) (src.drop n)).1
        (replay (writeLoop false fuel r.1 (replay r.2 m) (dst + n) (src.drop n)).2
          (replay r.2 m)) := by
      apply ih hfirst.shape
      rw [List.length_drop]
      omega
    rw [replay_append]
    have hboth := hfirst.append (by rw [htake]; exact hrest)
    rwa [List.take_append_drop] at hboth

theorem serialWrites_merged {pieces : List (List Byte)} (h : CacheShape c) :
    Merged c m dst pieces.flatten (serialWrites pieces c m dst).1
      (serialWrites pieces c m dst).2 := by
  induction pieces generalizing c m dst with
  | nil => exact .nil h m dst
  | cons piece pieces ih =>
    have hfirst : Merged c m dst piece (flashNrf5xWrite c m dst piece false).1
        (replay (flashNrf5xWrite c m dst piece false).2 m) := writeLoop_merged h (Nat.le_refl _)
    exact hfirst.append (ih hfirst.shape)

/-- What the transfer leaves in flash. -/
theorem serialTransfer_eq (h : CacheShape c) (m : Mem) (hdst : dst % codePageSize = 0)
    (pieces : List (List Byte)) (x : Nat) :
    (c.addr = none → serialTransfer c m dst pieces x = wanted m dst pieces.flatten x) ∧
      ∀ p, c.addr = some p → serialTransfer c m dst pieces x =
        if (p ≤ x ∧ x < p + codePageSize) ∧ ¬ (p = dst ∧ x < dst + pieces.flatten.length) then
          wanted m dst pieces.flatten x &&& c.buf.getD (x - p) 0
        else wanted m dst pieces.flatten x := by
  have hpage : pageOf dst = dst := Nat.div_mul_cancel (Nat.dvd_of_mod_eq_zero hdst)
  have hcount : pieces.flatten.length ≤ pageCount pieces.flatten.length * codePageSize := by
    have hp : codePageSize = 0x1000 := rfl
    unfold pageCount
    rw [hp]
    omega
  have herased : ∀ y, replay (flashNrf5xErase dst pieces.flatten.length) m y =
      if dst ≤ y ∧ y < dst + pageCount pieces.flatten.length * codePageSize then 0xFF else m y := by
    intro y
    unfold flashNrf5xErase
    rw [replay_erases, hpage]
  unfold serialTransfer
  generalize replay (flashNrf5xErase dst pieces.flatten.length) m = e at herased
  have hmerged : Merged c e dst pieces.flatten (serialWrites pieces c e dst).1
      (serialWrites pieces c e dst).2 := serialWrites_merged h
  rw [replay_flush_flushed hmerged.shape, hmerged.flushed_eq]
  generalize pieces.flatten = data at *
  have hwanted : ∀ b : Byte, (dst ≤ x ∧ x < dst + data.length → b = data.getD (x - dst) 0) →
      (¬ (dst ≤ x ∧ x < dst + data.length) → b = e x) → b = wanted m dst data x := by
    intro b hin hout
    unfold wanted
    by_cases hx : dst ≤ x ∧ x < dst + data.length
    · rw [if_pos hx, hin hx]
    · rw [if_neg hx, hout hx, herased]
  have hblank : dst ≤ x ∧ x < dst + data.length → e x = 0xFF := fun hx => by
    rw [herased, if_pos (by omega)]
  have hones : ∀ b : Byte, (0xFF : Byte) &&& b = b := fun b => BitVec.allOnes_and
  refine ⟨fun hnone => hwanted _ (fun hx => ?_) (fun hx => ?_), fun p hp => ?_⟩
  · unfold under
    rw [if_pos hx, flushed_none hnone, hblank hx, ite_self, hones]
  · rw [if_neg hx, flushed_none hnone]
  · by_cases hx : dst ≤ x ∧ x < dst + data.length
    · have hdata : wanted m dst data x = data.getD (x - dst) 0 := if_pos hx
      rw [if_pos hx, hdata]
      unfold under
      rw [hp, hpage, flushed_some hp, hblank hx]
      by_cases hfirst : p = dst
      · have hkeep : (if (p ≤ x ∧ x < p + codePageSize) ∧ ¬ (p = dst ∧ x < dst + data.length) then
            data.getD (x - dst) 0 &&& c.buf.getD (x - p) 0 else data.getD (x - dst) 0) =
              data.getD (x - dst) 0 := if_neg fun hc => hc.2 ⟨hfirst, hx.2⟩
        rw [hkeep]
        by_cases hon : pageOf x = dst
        · rw [if_pos ⟨congrArg some hfirst, hon⟩, hones]
        · rw [← hpage, pageOf_eq_iff, hpage] at hon
          rw [if_neg (fun hc => hon (by rw [← hpage, ← pageOf_eq_iff, hpage]; exact hc.2)),
            if_neg (by rw [hfirst]; exact hon), hones]
      · rw [if_neg (fun hc => hfirst (Option.some.inj hc.1))]
        by_cases hold : p ≤ x ∧ x < p + codePageSize
        · rw [if_pos hold, if_pos ⟨hold, fun hc => hfirst hc.1⟩, hones, BitVec.and_comm]
        · rw [if_neg hold, if_neg (fun hc => hold hc.1), hones]
    · have hkept : wanted m dst data x = e x := (hwanted _ (fun hin => absurd hin hx) fun _ => rfl).symm
      rw [if_neg hx, flushed_some hp, hkept]
      by_cases hold : p ≤ x ∧ x < p + codePageSize
      · rw [if_pos hold, if_pos ⟨hold, by omega⟩]
      · rw [if_neg hold, if_neg (fun hc => hold hc.1)]

/-- The transfer programs exactly its image if and only if the page in the cache is harmless. -/
theorem serial_transfer_exact (h : CacheShape c) (m : Mem) (hdst : dst % codePageSize = 0)
    (pieces : List (List Byte)) :
    (∀ x, serialTransfer c m dst pieces x = wanted m dst pieces.flatten x) ↔
      Harmless c m dst pieces.flatten := by
  constructor
  · intro hexact p hp x h1 h2 hnot
    have hx := (serialTransfer_eq h m hdst pieces x).2 p hp
    rw [hexact x, if_pos ⟨⟨h1, h2⟩, hnot⟩] at hx
    exact hx.symm
  · intro hharmless x
    obtain ⟨hnone, hsome⟩ := serialTransfer_eq h m hdst pieces x
    cases hp : c.addr with
    | none => exact hnone hp
    | some p =>
      rw [hsome p hp]
      by_cases hold : (p ≤ x ∧ x < p + codePageSize) ∧
          ¬ (p = dst ∧ x < dst + pieces.flatten.length)
      · rw [if_pos hold]
        exact hharmless p hp x hold.1.1 hold.1.2 hold.2
      · rw [if_neg hold]

/-! ## A page left behind -/

def erasedFlash : Mem := fun _ => 0xFF

/-- The first block of a bootloader UF2, in the page cache. -/
def stagedBlock : FlashCache where
  addr := some bootloaderAddrNewReceived
  buf := memcpy (slice erasedFlash bootloaderAddrNewReceived codePageSize) 0 (List.replicate 256 0)

/-- It is what the staging of that block leaves. -/
theorem flashNrf5xWrite_stagedBlock :
    flashNrf5xWrite {} erasedFlash bootloaderAddrNewReceived (List.replicate 256 0) false =
      (stagedBlock, []) := by
  have hn : min (codePageSize - bootloaderAddrNewReceived % codePageSize)
      (List.replicate 256 (0 : Byte)).length = 256 := by
    rw [List.length_replicate]
    rfl
  have hpage : pageOf bootloaderAddrNewReceived = bootloaderAddrNewReceived := rfl
  unfold flashNrf5xWrite
  rw [List.length_replicate]
  unfold writeLoop
  rw [if_neg (by decide)]
  simp only [hn]
  rw [List.drop_replicate, List.take_replicate, Nat.sub_self, Nat.min_self, List.replicate_zero]
  unfold writeLoop
  rw [if_pos rfl]
  unfold writePage loadPage
  have hoffset : bootloaderAddrNewReceived % codePageSize = 0 := rfl
  rw [if_neg (fun h => by cases h), hpage, hoffset]
  simp only [flashNrf5xFlush, replay_nil, List.append_nil, stagedBlock]

theorem stagedBlock_room : 0 + (List.replicate 256 (0 : Byte)).length ≤
    (slice erasedFlash bootloaderAddrNewReceived codePageSize).length := by
  rw [slice_length, List.length_replicate]
  decide

theorem stagedBlock_shape : CacheShape stagedBlock where
  aligned := by
    rintro p ⟨⟩
    rfl
  length := fun _ _ => (memcpy_length stagedBlock_room).trans (slice_length _ _ _)

/-- A serial image of one word changes the staging page. -/
theorem serial_transfer_stale :
    serialTransfer stagedBlock erasedFlash 0x26000 [[0x00, 0x50, 0x01, 0x20]]
      bootloaderAddrNewReceived = 0 ∧
    wanted erasedFlash 0x26000 [0x00, 0x50, 0x01, 0x20] bootloaderAddrNewReceived = 0xFF := by
  have hwanted : wanted erasedFlash 0x26000 [0x00, 0x50, 0x01, 0x20] bootloaderAddrNewReceived =
      0xFF := by decide
  have hx := (serialTransfer_eq stagedBlock_shape erasedFlash (by decide : 0x26000 % codePageSize = 0)
    [[0x00, 0x50, 0x01, 0x20]] bootloaderAddrNewReceived).2 bootloaderAddrNewReceived rfl
  refine ⟨?_, hwanted⟩
  rw [hx, if_pos ⟨⟨Nat.le_refl _, by decide⟩, by decide⟩]
  unfold stagedBlock
  simp only
  rw [memcpy_getD stagedBlock_room, if_pos (by rw [List.length_replicate]; decide)]
  exact BitVec.and_zero

/-- The first page of the application, left behind by a transfer of four other bytes. -/
def restartedPage : FlashCache where
  addr := some 0x26000
  buf := List.replicate 4 0 ++ List.replicate 4092 0xFF

theorem restartedPage_shape : CacheShape restartedPage where
  aligned := by
    rintro p ⟨⟩
    rfl
  length := by
    intro p _
    change (List.replicate 4 (0 : Byte) ++ List.replicate 4092 0xFF).length = codePageSize
    rw [List.length_append, List.length_replicate, List.length_replicate]
    rfl

theorem restartedPage_harmless :
    Harmless restartedPage erasedFlash 0x26000 [0x00, 0x50, 0x01, 0x20] := by
  rintro p ⟨⟩ x hlow hhigh hout
  have hend : codePageSize = 0x1000 := rfl
  have hlen : ([0x00, 0x50, 0x01, 0x20] : List Byte).length = 4 := rfl
  have hbehind : 4 ≤ x - 0x26000 := by omega
  have hbyte : restartedPage.buf.getD (x - 0x26000) 0 = 0xFF := by
    change (List.replicate 4 (0 : Byte) ++ List.replicate 4092 0xFF).getD (x - 0x26000) 0 = 0xFF
    rw [List.getD_append_right _ _ _ _ (by rw [List.length_replicate]; exact hbehind),
      List.length_replicate, List.getD_replicate _ (by omega)]
  rw [hbyte]
  exact BitVec.and_allOnes

/-- A transfer that starts again over the page it left behind programs its image. -/
theorem serial_transfer_exact_restarted : restartedPage.addr = some 0x26000 ∧ ∀ x,
    serialTransfer restartedPage erasedFlash 0x26000 [[0x00, 0x50], [], [0x01, 0x20]] x =
      wanted erasedFlash 0x26000 [0x00, 0x50, 0x01, 0x20] x :=
  ⟨rfl, (serial_transfer_exact restartedPage_shape erasedFlash (by decide)
    [[0x00, 0x50], [], [0x01, 0x20]]).mpr restartedPage_harmless⟩

end OtaFix
