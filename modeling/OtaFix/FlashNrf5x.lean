import OtaFix.Settings

/-!
# The direct flash driver

`flash_nrf5x.c`: page erases, word programs, and the one-page RAM cache that the
serial transport and bootloader UF2 write through. Each function returns the
flash operations it issues, in order.
-/

namespace OtaFix

open Lib

/-- The page cache: the page it holds and its bytes. -/
structure FlashCache where
  addr : Option Nat := none
  buf : List Byte := []
  deriving DecidableEq, Repr

def flashNrf5xDiscard (c : FlashCache) : FlashCache := { c with addr := none }

/-- The page that holds an address. -/
def pageOf (a : Nat) : Nat := a / codePageSize * codePageSize

/-- `NRFX_CEIL_DIV(len, CODE_PAGE_SIZE)`. -/
def pageCount (len : Nat) : Nat := (len + codePageSize - 1) / codePageSize

def flashNrf5xErase (dst len : Nat) : List FlashOp :=
  (List.range (pageCount len)).map fun i => .erase (pageOf dst + i * codePageSize) codePageSize

/-- Write the cached page back, unless flash already holds it. -/
def flashNrf5xFlush (c : FlashCache) (m : Mem) (needErase : Bool) : FlashCache × List FlashOp :=
  match c.addr with
  | none => (c, [])
  | some a =>
    (flashNrf5xDiscard c,
      if c.buf = slice m a codePageSize then []
      else (if needErase then [.erase a codePageSize] else []) ++ wordsWrite a c.buf)

/-- Cache the page of `dst`; another cached page is written back first. -/
def loadPage (c : FlashCache) (m : Mem) (dst : Nat) (needErase : Bool) :
    FlashCache × List FlashOp :=
  if c.addr = some (pageOf dst) then (c, [])
  else
    let f := flashNrf5xFlush c m needErase
    (⟨some (pageOf dst), slice (replay f.2 m) (pageOf dst) codePageSize⟩, f.2)

/-- One turn of `flash_nrf5x_write`: the part of `src` that falls in one page. -/
def writePage (c : FlashCache) (m : Mem) (dst : Nat) (src : List Byte) (needErase : Bool) :
    FlashCache × List FlashOp :=
  let r := loadPage c m dst needErase
  ({ r.1 with buf := memcpy r.1.buf (dst % codePageSize) src }, r.2)

/-- The loop of `flash_nrf5x_write`, over the pages that `src` spans. -/
def writeLoop (needErase : Bool) : Nat → FlashCache → Mem → Nat → List Byte →
    FlashCache × List FlashOp
  | 0, c, _, _, _ => (c, [])
  | fuel + 1, c, m, dst, src =>
    if src = [] then (c, [])
    else
      let n := min (codePageSize - dst % codePageSize) src.length
      let r := writePage c m dst (src.take n) needErase
      let r' := writeLoop needErase fuel r.1 (replay r.2 m) (dst + n) (src.drop n)
      (r'.1, r.2 ++ r'.2)

/-- `flash_nrf5x_write`. Every turn copies a byte, so the length is fuel enough. -/
def flashNrf5xWrite (c : FlashCache) (m : Mem) (dst : Nat) (src : List Byte) (needErase : Bool) :
    FlashCache × List FlashOp := writeLoop needErase src.length c m dst src

def flashNrf5xWriteErased (dst : Nat) (src : List Byte) : List FlashOp := wordsWrite dst src

/-! ## Erasing -/

theorem replay_erases (a k x : Nat) (m : Mem) :
    replay ((List.range k).map fun i => .erase (a + i * codePageSize) codePageSize) m x =
      if a ≤ x ∧ x < a + k * codePageSize then 0xFF else m x := by
  induction k with
  | zero => rw [if_neg (by omega)]; rfl
  | succ k ih =>
    rw [List.range_succ, List.map_append, replay_append]
    simp only [List.map_cons, List.map_nil, replay_cons, replay_nil, FlashOp.apply, ih,
      Nat.succ_mul]
    by_cases hk : a + k * codePageSize ≤ x ∧ x < a + k * codePageSize + codePageSize
    · rw [if_pos hk, if_pos (by omega)]
    · rw [if_neg hk]
      by_cases hx : a ≤ x ∧ x < a + k * codePageSize
      · rw [if_pos hx, if_pos (by omega)]
      · rw [if_neg hx, if_neg (by omega)]

/-- From a page boundary on, the whole length is erased. -/
theorem replay_flashNrf5xErase {dst len x : Nat} {m : Mem} (hdst : dst % codePageSize = 0)
    (h1 : dst ≤ x) (h2 : x < dst + len) : replay (flashNrf5xErase dst len) m x = 0xFF := by
  unfold flashNrf5xErase
  rw [replay_erases, if_pos]
  unfold pageOf pageCount
  rw [show codePageSize = 0x1000 from rfl] at *
  omega

/-! ## The cache as a view of flash -/

/-- The byte at `x` as the cache's owner sees it. -/
def view (c : FlashCache) (m : Mem) (x : Nat) : Byte :=
  match c.addr with
  | none => m x
  | some p => if p ≤ x ∧ x < p + codePageSize then c.buf.getD (x - p) 0 else m x

/-- The cached page can be programmed over what flash holds. -/
structure CacheOk (c : FlashCache) (m : Mem) : Prop where
  aligned : ∀ p, c.addr = some p → p % codePageSize = 0
  length : ∀ p, c.addr = some p → c.buf.length = codePageSize
  programmable : ∀ p, c.addr = some p → ∀ x, p ≤ x → x < p + codePageSize →
    m x &&& c.buf.getD (x - p) 0 = c.buf.getD (x - p) 0

variable {c : FlashCache} {m : Mem}

theorem CacheOk.none (h : c.addr = none) : CacheOk c m where
  aligned := fun p hp => by rw [h] at hp; cases hp
  length := fun p hp => by rw [h] at hp; cases hp
  programmable := fun p hp => by rw [h] at hp; cases hp

theorem view_none (h : c.addr = none) (x : Nat) : view c m x = m x := by
  simp [view, h]

theorem view_some {p : Nat} (h : c.addr = some p) (x : Nat) :
    view c m x = if p ≤ x ∧ x < p + codePageSize then c.buf.getD (x - p) 0 else m x := by
  simp [view, h]

/-- A flush makes flash what its owner saw. -/
theorem replay_flush (h : CacheOk c m) (x : Nat) :
    replay (flashNrf5xFlush c m false).2 m x = view c m x := by
  unfold flashNrf5xFlush
  cases hp : c.addr with
  | none => rw [view_none hp]; rfl
  | some p =>
    rw [view_some hp]
    have hlen := h.length p hp
    simp only [Bool.false_eq_true, if_false, List.nil_append]
    by_cases hsame : c.buf = slice m p codePageSize
    · rw [if_pos hsame, replay_nil]
      split
      · rename_i hx
        rw [hsame, slice_getD hx.1 hx.2]
      · rfl
    · rw [if_neg hsame, replay_wordsWrite (by rw [hlen]; rfl)]
      split
      · rename_i hx
        rw [FlashOp.apply_program hx.1 (by rw [hlen]; exact hx.2)]
        exact h.programmable p hp x hx.1 hx.2
      · rename_i hx
        refine FlashOp.apply_outside ?_
        simp only [FlashOp.start, FlashOp.stop, hlen]
        omega

theorem flush_addr (c : FlashCache) (m : Mem) (b : Bool) :
    (flashNrf5xFlush c m b).1.addr = none := by
  unfold flashNrf5xFlush
  cases hp : c.addr with
  | none => exact hp
  | some p => rfl

theorem pageOf_mod (a : Nat) : pageOf a % codePageSize = 0 := Nat.mul_mod_left _ _

theorem pageOf_le (a : Nat) : pageOf a ≤ a ∧ a < pageOf a + codePageSize := by
  have hp : codePageSize = 0x1000 := rfl
  unfold pageOf
  rw [hp]
  omega

theorem memcpy_getD {dst src : List Byte} {off i : Nat} (h : off + src.length ≤ dst.length) :
    (memcpy dst off src).getD i 0 =
      if off ≤ i ∧ i < off + src.length then src.getD (i - off) 0 else dst.getD i 0 := by
  simp only [memcpy, List.getD_eq_getElem?_getD]
  by_cases h1 : i < off
  · rw [if_neg (by omega), List.append_assoc, List.getElem?_append_left (by simp; omega),
      List.getElem?_take, if_pos h1]
  · by_cases h2 : i < off + src.length
    · rw [if_pos ⟨by omega, h2⟩, List.getElem?_append_left (by simp; omega),
        List.getElem?_append_right (by simp; omega), List.length_take, Nat.min_eq_left (by omega)]
    · rw [if_neg (by omega), List.getElem?_append_right (by simp; omega), List.length_append,
        List.length_take, Nat.min_eq_left (by omega), List.getElem?_drop,
        show off + src.length + (i - (off + src.length)) = i by omega]

/-- What a write to the cache must keep: the view is overwritten, and a byte outside
the range is as it was or as it was seen. -/
structure Wrote (c : FlashCache) (m : Mem) (dst : Nat) (src : List Byte) (c' : FlashCache)
    (m' : Mem) : Prop where
  ok : CacheOk c' m'
  view_eq : ∀ x, view c' m' x =
    if dst ≤ x ∧ x < dst + src.length then src.getD (x - dst) 0 else view c m x
  mem_eq : ∀ x, x < dst ∨ dst + src.length ≤ x → m' x = m x ∨ m' x = view c m x

/-- The cache with the page of `dst` in it. -/
structure Loaded (c : FlashCache) (m : Mem) (dst : Nat) (c' : FlashCache) (m' : Mem) : Prop where
  addr : c'.addr = some (pageOf dst)
  ok : CacheOk c' m'
  view_eq : ∀ x, view c' m' x = view c m x
  mem_eq : ∀ x, m' x = m x ∨ m' x = view c m x
  page_eq : ∀ x, pageOf dst ≤ x → x < pageOf dst + codePageSize → m' x = m x

/-- A page freshly read from flash. -/
theorem CacheOk.fresh (m : Mem) (dst : Nat) :
    CacheOk ⟨some (pageOf dst), slice m (pageOf dst) codePageSize⟩ m ∧
      ∀ x, view ⟨some (pageOf dst), slice m (pageOf dst) codePageSize⟩ m x = m x := by
  have hlen : (slice m (pageOf dst) codePageSize).length = codePageSize := slice_length _ _ _
  have hbuf := fun x h1 h2 => slice_getD (m := m) (a := pageOf dst) (n := codePageSize) (x := x) h1 h2
  generalize slice m (pageOf dst) codePageSize = buf at hlen hbuf
  refine ⟨⟨?_, ?_, ?_⟩, ?_⟩
  · rintro p ⟨⟩
    exact pageOf_mod dst
  · rintro p -
    exact hlen
  · rintro p ⟨⟩ x h1 h2
    simp only [hbuf x h1 h2, BitVec.and_self]
  · intro x
    rw [view_some rfl]
    split
    · rename_i hx
      exact hbuf x hx.1 hx.2
    · rfl

theorem loadPage_loaded (h : CacheOk c m) (dst : Nat) :
    Loaded c m dst (loadPage c m dst false).1 (replay (loadPage c m dst false).2 m) := by
  unfold loadPage
  by_cases hp : c.addr = some (pageOf dst)
  · rw [if_pos hp]
    exact ⟨hp, h, fun _ => rfl, fun _ => .inl rfl, fun _ _ _ => rfl⟩
  rw [if_neg hp]
  have hflush := replay_flush h
  obtain ⟨hok, hview⟩ := CacheOk.fresh (replay (flashNrf5xFlush c m false).2 m) dst
  refine ⟨rfl, hok, fun x => (hview x).trans (hflush x), fun x => .inr (hflush x), ?_⟩
  -- the page written back is another one
  intro x h1 h2
  refine (hflush x).trans ?_
  cases hc : c.addr with
  | none => exact view_none hc x
  | some q =>
    rw [view_some hc, if_neg]
    rintro ⟨h3, h4⟩
    have h5 := h.aligned q hc
    have h6 := pageOf_mod dst
    rw [hc] at hp
    refine hp (congrArg some ?_)
    rw [show codePageSize = 0x1000 from rfl] at *
    omega

theorem writePage_wrote (h : CacheOk c m) {dst : Nat} {src : List Byte}
    (hin : dst % codePageSize + src.length ≤ codePageSize)
    (hblank : ∀ x, dst ≤ x → x < dst + src.length → m x = 0xFF) :
    Wrote c m dst src (writePage c m dst src false).1
      (replay (writePage c m dst src false).2 m) := by
  have hload := loadPage_loaded h dst
  unfold writePage
  simp only
  generalize loadPage c m dst false = r at hload
  obtain ⟨⟨addr, buf⟩, ops⟩ := r
  obtain rfl : addr = some (pageOf dst) := hload.addr
  have hlen : buf.length = codePageSize := hload.ok.length _ rfl
  have hdst : dst = pageOf dst + dst % codePageSize := (Nat.div_add_mod' dst codePageSize).symm
  -- the new bytes of the buffer
  have hget : ∀ x, pageOf dst ≤ x → (memcpy buf (dst % codePageSize) src).getD (x - pageOf dst) 0 =
      if dst ≤ x ∧ x < dst + src.length then src.getD (x - dst) 0
      else buf.getD (x - pageOf dst) 0 := by
    intro x hx
    rw [memcpy_getD (by rw [hlen]; exact hin)]
    by_cases hx' : dst ≤ x ∧ x < dst + src.length
    · rw [if_pos hx', if_pos (by omega), show x - pageOf dst - dst % codePageSize = x - dst by omega]
    · rw [if_neg hx', if_neg (by omega)]
  refine ⟨⟨?_, ?_, ?_⟩, ?_, fun x _ => hload.mem_eq x⟩
  · rintro p ⟨⟩
    exact pageOf_mod dst
  · rintro p -
    exact (memcpy_length (by rw [hlen]; exact hin)).trans hlen
  · rintro p ⟨⟩ x h1 h2
    simp only [hget x h1]
    split
    · rename_i hx
      rw [hload.page_eq x h1 h2, hblank x hx.1 hx.2]
      exact BitVec.allOnes_and
    · exact hload.ok.programmable _ rfl x h1 h2
  · intro x
    have hv := hload.view_eq x
    rw [view_some rfl] at hv ⊢
    by_cases hx : pageOf dst ≤ x ∧ x < pageOf dst + codePageSize
    · rw [if_pos hx] at hv ⊢
      rw [hget x hx.1, hv]
    · rw [if_neg hx] at hv ⊢
      rw [hv, if_neg (by omega)]

/-- Two writes in a row are one. -/
theorem Wrote.append {c' c'' : FlashCache} {m' m'' : Mem} {dst : Nat} {a b : List Byte}
    (h1 : Wrote c m dst a c' m') (h2 : Wrote c' m' (dst + a.length) b c'' m'') :
    Wrote c m dst (a ++ b) c'' m'' := by
  refine ⟨h2.ok, fun x => ?_, fun x hx => ?_⟩
  · simp only [h2.view_eq, h1.view_eq, List.getD_eq_getElem?_getD, List.length_append]
    by_cases ha : x < dst + a.length
    · rw [if_neg (by omega)]
      by_cases hd : dst ≤ x
      · rw [if_pos ⟨hd, ha⟩, if_pos ⟨hd, by omega⟩, List.getElem?_append_left (by omega)]
      · rw [if_neg (by omega), if_neg (by omega)]
    · by_cases hb : x < dst + a.length + b.length
      · rw [if_pos ⟨by omega, hb⟩, if_pos ⟨by omega, by omega⟩,
          List.getElem?_append_right (by omega), Nat.sub_add_eq]
      · rw [if_neg (by omega), if_neg (by omega), if_neg (by omega)]
  · rw [List.length_append] at hx
    have hout := h1.view_eq x
    rw [if_neg (by omega)] at hout
    rcases h2.mem_eq x (by omega) with h | h
    · rw [h]
      exact h1.mem_eq x (by omega)
    · exact .inr (h.trans hout)

theorem Wrote.nil (h : CacheOk c m) (dst : Nat) : Wrote c m dst [] c m where
  ok := h
  view_eq := fun x => (if_neg (by rw [List.length_nil]; omega)).symm
  mem_eq := fun _ _ => .inl rfl

/-- Bytes ahead that are blank, in flash and as seen, can be written. -/
theorem writeLoop_wrote {fuel dst : Nat} {src : List Byte} (h : CacheOk c m)
    (hfuel : src.length ≤ fuel)
    (hblank : ∀ x, dst ≤ x → x < dst + src.length → m x = 0xFF ∧ view c m x = 0xFF) :
    Wrote c m dst src (writeLoop false fuel c m dst src).1
      (replay (writeLoop false fuel c m dst src).2 m) := by
  induction fuel generalizing c m dst src with
  | zero =>
    obtain rfl : src = [] := List.length_eq_zero_iff.mp (by omega)
    exact .nil h dst
  | succ fuel ih =>
    unfold writeLoop
    by_cases hnil : src = []
    · subst hnil
      exact .nil h dst
    rw [if_neg hnil]
    simp only
    have hpos : 0 < src.length := List.length_pos_iff.mpr hnil
    have hmod : dst % codePageSize < codePageSize := Nat.mod_lt _ (by decide)
    generalize hn : min (codePageSize - dst % codePageSize) src.length = n
    have hn1 : 0 < n := by rw [← hn]; exact Nat.lt_min.mpr ⟨by omega, hpos⟩
    have hn2 : n ≤ src.length := by rw [← hn]; exact Nat.min_le_right _ _
    have hn3 : n ≤ codePageSize - dst % codePageSize := by rw [← hn]; exact Nat.min_le_left _ _
    have htake : (src.take n).length = n := by rw [List.length_take, Nat.min_eq_left hn2]
    have hfirst : Wrote c m dst (src.take n) (writePage c m dst (src.take n) false).1
        (replay (writePage c m dst (src.take n) false).2 m) :=
      writePage_wrote h (by rw [htake]; omega)
        fun x h1 h2 => (hblank x h1 (by rw [htake] at h2; omega)).1
    generalize writePage c m dst (src.take n) false = r at hfirst
    have hahead : ∀ x, dst + n ≤ x → x < dst + n + (src.drop n).length →
        replay r.2 m x = 0xFF ∧ view r.1 (replay r.2 m) x = 0xFF := by
      intro x h1 h2
      rw [List.length_drop] at h2
      obtain ⟨hm, hv⟩ := hblank x (by omega) (by omega)
      refine ⟨?_, ?_⟩
      · rcases hfirst.mem_eq x (.inr (by rw [htake]; omega)) with h | h
        · rw [h, hm]
        · rw [h, hv]
      · rw [hfirst.view_eq, if_neg (by rw [htake]; omega), hv]
    have hrest := ih hfirst.ok (by simp; omega) hahead
    rw [replay_append]
    have happ := hfirst.append (by rw [htake]; exact hrest)
    rwa [List.take_append_drop] at happ

/-- `flash_nrf5x_write` into blank bytes. -/
theorem flashNrf5xWrite_wrote {dst : Nat} {src : List Byte} (h : CacheOk c m)
    (hblank : ∀ x, dst ≤ x → x < dst + src.length → m x = 0xFF ∧ view c m x = 0xFF) :
    Wrote c m dst src (flashNrf5xWrite c m dst src false).1
      (replay (flashNrf5xWrite c m dst src false).2 m) :=
  writeLoop_wrote h (Nat.le_refl _) hblank

end OtaFix
