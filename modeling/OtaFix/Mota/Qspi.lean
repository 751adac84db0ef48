import Mathlib.Data.List.GetD
import OtaFix.Lib.NorFlash
import OtaFix.Lib.Prog
import OtaFix.Word

/-!
# The external flash

`ota_qspi.c` on its word-aligned DMA transfers. A read goes through the bounce
buffer, window by window; a write programs the window around the approval word and
reads it back. The chip answers each transfer as it likes: a read may not become
ready, and a program may stop anywhere on its way.
-/

namespace OtaFix.Mota.Qspi

open Lib Prog

/-! ## Windows -/

/-- `OTA_QSPI_DMA_ALIGNMENT`. -/
def dmaAlignment : Nat := 4

/-- `sizeof(g_bounce)`. -/
def bounceSize : Nat := 256

/-- `QSPI_APPROVAL_LEN`. -/
def approvalLen : Nat := 4

/-- `ota_qspi_dma_window_t`. -/
structure DmaWindow where
  offset : Nat
  length : Nat
  prefixLen : Nat
  copyLength : Nat
  deriving DecidableEq, Repr

/-- `x & ~(OTA_QSPI_DMA_ALIGNMENT - 1)`. -/
def alignDown (x : Nat) : Nat := x / dmaAlignment * dmaAlignment

/-- `ota_qspi_dma_window`. -/
def otaQspiDmaWindow (offset requestedLength capacity bounce : Nat) : Option DmaWindow :=
  if requestedLength = 0 ∨ bounce < dmaAlignment ∨ bounce % dmaAlignment ≠ 0 ∨
      capacity % dmaAlignment ≠ 0 ∨ offset > capacity ∨ requestedLength > capacity - offset then
    none
  else
    let alignedOffset := alignDown offset
    let prefixLen := offset - alignedOffset
    let available := bounce - prefixLen
    let copyLength := if requestedLength < available then requestedLength else available
    let covered := prefixLen + copyLength
    let dmaLength := alignDown ((covered + dmaAlignment - 1) % 2 ^ 32)
    if alignedOffset > capacity ∨ dmaLength > capacity - alignedOffset then none
    else some ⟨alignedOffset, dmaLength, prefixLen, copyLength⟩

/-- `ota_qspi_nor_overlay`. -/
def otaQspiNorOverlay (windowData : List Byte) (windowLength prefixLen : Nat) (src : List Byte)
    (srcLength : Nat) : Option (List Byte) :=
  if prefixLen > windowLength ∨ srcLength > windowLength - prefixLen then none
  else if ∀ i < srcLength, src.getD i 0 ||| windowData.getD (prefixLen + i) 0 =
      windowData.getD (prefixLen + i) 0 then
    some ((List.range srcLength).foldl (fun d i => d.set (prefixLen + i) (src.getD i 0)) windowData)
  else none

/-! ## The chip -/

inductive Op where
  | readDma (offset length : Nat)
  | writeDma (offset : Nat) (data : List Byte)
  deriving DecidableEq, Repr

/-- `none` and `false` stand for a wait that ran out. -/
abbrev Res : Op → Type
  | .readDma _ _ => Option (List Byte)
  | .writeDma _ _ => Bool

/-- What the chip does at a transfer: whether it becomes ready, and the bits that a program which
does not has left. -/
structure Answer where
  ready : Bool
  left : Nat → Byte

structure Chip where
  flash : Mem
  answers : Nat → Answer
  log : List Op := []

namespace Chip

def answer (s : Chip) : Answer := s.answers s.log.length

/-- The state behind a transfer. -/
def after (s : Chip) (o : Op) (flash : Mem) : Chip := { s with flash := flash, log := s.log ++ [o] }

@[simp] theorem after_flash (s : Chip) (o : Op) (m : Mem) : (s.after o m).flash = m := rfl

@[simp] theorem after_log (s : Chip) (o : Op) (m : Mem) : (s.after o m).log = s.log ++ [o] := rfl

@[simp] theorem after_answers (s : Chip) (o : Op) (m : Mem) :
    (s.after o m).answers = s.answers := rfl

end Chip

/-- A program that stops on its way has cleared only some of the bits. -/
def programPartly (a : Nat) (d : List Byte) (left : Nat → Byte) (m : Mem) : Mem :=
  fun x => if a ≤ x ∧ x < a + d.length then m x &&& (d.getD (x - a) 0 ||| left x) else m x

def handler : Handler Res Chip
  | .readDma a n, s =>
    (if s.answer.ready then some (slice s.flash a n) else none, s.after (.readDma a n) s.flash)
  | .writeDma a d, s =>
    (s.answer.ready, s.after (.writeDma a d)
      (if s.answer.ready then (FlashOp.program a d).apply s.flash
        else programPartly a d s.answer.left s.flash))

/-! ## Transfers -/

/-- `read_aligned`; both buffers it is called with are word aligned. -/
def readAligned (capacity offset len : Nat) : Prog Res (Option (List Byte)) :=
  if offset % dmaAlignment ≠ 0 ∨ len % dmaAlignment ≠ 0 ∨ len = 0 ∨ offset > capacity ∨
      len > capacity - offset then
    pure none
  else perform (Op.readDma offset len)

/-- `write_aligned`. -/
def writeAligned (capacity offset : Nat) (src : List Byte) : Prog Res Bool :=
  if offset % dmaAlignment ≠ 0 ∨ src.length % dmaAlignment ≠ 0 ∨ src.length = 0 ∨
      src.length > 256 - offset % 256 ∨ offset > capacity ∨ src.length > capacity - offset then
    pure false
  else perform (Op.writeDma offset src)

/-- A transfer fills the front of a buffer. -/
def fill (buffer data : List Byte) : List Byte := data ++ buffer.drop data.length

/-- The loop of `ota_qspi_read`: its answer and the bytes it stored, unless the fuel runs out. -/
def readLoop (capacity : Nat) : Nat → List Byte → Nat → Nat → List Byte →
    Prog Res (Option (Bool × List Byte))
  | 0, _, _, _, _ => pure none
  | fuel + 1, bounce, offset, len, out =>
    if len = 0 then pure (some (true, out))
    else
      match otaQspiDmaWindow offset len capacity bounceSize with
      | none => pure (some (false, out))
      | some w => do
        match ← readAligned capacity w.offset w.length with
        | none => pure (some (false, out))
        | some data =>
          let bounce := fill bounce data
          readLoop capacity fuel bounce ((offset + w.copyLength) % 2 ^ 32) (len - w.copyLength)
            (out ++ (bounce.drop w.prefixLen).take w.copyLength)

/-- `ota_qspi_read`; `dst` tells whether the pointer is there. Every turn copies a byte, so the
length is fuel enough. -/
def otaQspiRead (capacity : Nat) (bounce : List Byte) (offset : Nat) (dst : Bool) (len : Nat) :
    Prog Res (Option (Bool × List Byte)) :=
  if capacity = 0 ∨ dst = false ∨ offset > capacity ∨ len > capacity - offset then
    pure (some (false, []))
  else readLoop capacity (len + 1) bounce offset len []

/-- `ota_qspi_write`. -/
def otaQspiWrite (capacity : Nat) (bounce : List Byte) (offset : Nat) (src : Option (List Byte))
    (len : Nat) : Prog Res Bool :=
  match src with
  | none => pure false
  | some src =>
    if capacity = 0 ∨ len ≠ approvalLen ∨ offset % 256 + len > 256 ∨ offset > capacity ∨
        len > capacity - offset then
      pure false
    else
      match otaQspiDmaWindow offset len capacity bounceSize with
      | none => pure false
      | some w =>
        if w.copyLength ≠ len then pure false
        else do
          match ← readAligned capacity w.offset w.length with
          | none => pure false
          | some data =>
            match otaQspiNorOverlay (fill bounce data) w.length w.prefixLen src len with
            | none => pure false
            | some bounce =>
              if w.length > 2 * dmaAlignment then pure false
              else
                let expected := bounce.take w.length
                if ← writeAligned capacity w.offset expected then
                  match ← readAligned capacity w.offset w.length with
                  | none => pure false
                  | some verify => pure (verify == expected)
                else pure false

/-! ## What a window covers -/

/-- The window is one transfer around the first bytes of a range, as many as the bounce buffer
takes. -/
structure Covers (w : DmaWindow) (offset len capacity bounce : Nat) : Prop where
  aligned : w.offset % dmaAlignment = 0
  whole : w.length % dmaAlignment = 0
  start : w.offset + w.prefixLen = offset
  short : w.prefixLen < dmaAlignment
  copied : w.copyLength = min len (bounce - w.prefixLen)
  covered : w.prefixLen + w.copyLength ≤ w.length
  tight : w.length < w.prefixLen + w.copyLength + dmaAlignment
  buffered : w.length ≤ bounce
  inside : w.offset + w.length ≤ capacity

variable {w : DmaWindow} {offset len capacity bounce : Nat}

theorem Covers.pos (h : Covers w offset len capacity bounce) (hlen : 0 < len)
    (hbounce : dmaAlignment ≤ bounce) : 0 < w.copyLength := by
  have hshort := h.short
  rw [h.copied]
  omega

theorem window_of_range (hlen : 0 < len) (hin : offset + len ≤ capacity)
    (hcap : capacity % dmaAlignment = 0) (hb4 : bounce % dmaAlignment = 0)
    (hb : dmaAlignment ≤ bounce) (hb32 : bounce < 2 ^ 32) :
    ∃ w, otaQspiDmaWindow offset len capacity bounce = some w ∧
      Covers w offset len capacity bounce := by
  have h4 : dmaAlignment = 4 := rfl
  unfold otaQspiDmaWindow
  rw [if_neg (by omega)]
  unfold alignDown
  simp only [h4] at hcap hb4 hb ⊢
  have hcopy : (if len < bounce - (offset - offset / 4 * 4) then len
      else bounce - (offset - offset / 4 * 4)) = min len (bounce - (offset - offset / 4 * 4)) := by
    split <;> omega
  have hnowrap : (offset - offset / 4 * 4 + min len (bounce - (offset - offset / 4 * 4)) + 4 - 1) %
      2 ^ 32 = offset - offset / 4 * 4 + min len (bounce - (offset - offset / 4 * 4)) + 3 := by
    apply Nat.mod_eq_of_lt
    omega
  rw [hcopy, hnowrap, if_neg (by omega)]
  refine ⟨_, rfl, ?_⟩
  constructor <;> simp only [h4] <;> omega

/-! ## Reading -/

/-- A read that `read_aligned` lets through: aligned, inside the chip, no longer than `room`. -/
def ReadAllowed (capacity room : Nat) : Op → Chip → Prop
  | .readDma a n, _ => a % dmaAlignment = 0 ∧ n % dmaAlignment = 0 ∧ 0 < n ∧ n ≤ room ∧
      a + n ≤ capacity
  | .writeDma _ _, _ => False

theorem readAligned_of_covers (h : Covers w offset len capacity bounce) (hpos : 0 < w.copyLength) :
    readAligned capacity w.offset w.length = perform (Op.readDma w.offset w.length) := by
  have hcovered := h.covered
  have hinside := h.inside
  have haligned := h.aligned
  have hwhole := h.whole
  unfold readAligned
  apply if_neg
  omega

theorem Covers.readAllowed (h : Covers w offset len capacity bounce) (hpos : 0 < w.copyLength)
    (s : Chip) : ReadAllowed capacity bounce (.readDma w.offset w.length) s := by
  have hcovered := h.covered
  exact ⟨h.aligned, h.whole, by omega, h.buffered, h.inside⟩

/-- What a window brings: the copied bytes are those of the range. -/
theorem Covers.copied_bytes (h : Covers w offset len capacity bounce) {buffer : List Byte} (m : Mem) :
    ((fill buffer (slice m w.offset w.length)).drop w.prefixLen).take w.copyLength =
      slice m offset w.copyLength := by
  have hcovered := h.covered
  have hlen : (slice m w.offset w.length).length = w.length := slice_length _ _ _
  unfold fill
  rw [List.drop_append_of_le_length (by omega), slice_drop (by omega), h.start,
    List.take_append_of_le_length (by rw [slice_length]; omega), slice_take (by omega)]

/-- What a read leaves: the chip's bytes as they are, and a first part of the range stored, which
is all of it if the answer is true. -/
structure ReadDone (s : Chip) (offset len : Nat) (r : Option (Bool × List Byte)) (t : Chip) :
    Prop where
  flash : t.flash = s.flash
  answers : t.answers = s.answers
  stored : ∃ ok n, r = some (ok, slice s.flash offset n) ∧ n ≤ len ∧
    (ok = true ↔ n = len) ∧ (ok = false → ∃ i, (s.answers i).ready = false)

theorem readLoop_sat {fuel done : Nat} {buffer : List Byte} {s : Chip} (hfuel : len < fuel)
    (hin : offset + done + len ≤ capacity) (hcap : capacity % dmaAlignment = 0)
    (hcap32 : capacity < 2 ^ 32) :
    (readLoop capacity fuel buffer (offset + done) len (slice s.flash offset done)).Sat handler
      (ReadAllowed capacity bounceSize) (ReadDone s offset (done + len)) s := by
  induction fuel generalizing done len buffer s with
  | zero => exact absurd hfuel (Nat.not_lt_zero len)
  | succ fuel ih =>
    unfold readLoop
    by_cases hlen : len = 0
    · subst hlen
      rw [if_pos rfl]
      exact ⟨rfl, rfl, true, done, rfl, Nat.le_refl _, by simp, by simp⟩
    obtain ⟨w, hw, hcovers⟩ := window_of_range (Nat.pos_of_ne_zero hlen) hin hcap
      (by decide : bounceSize % dmaAlignment = 0) (by decide) (by decide)
    have hpos := hcovers.pos (by omega) (by decide)
    have hle : w.copyLength ≤ len := by
      rw [hcovers.copied]
      exact Nat.min_le_left _ _
    rw [if_neg hlen, hw]
    simp only [readAligned_of_covers hcovers hpos, perform_bind, sat_call]
    refine ⟨hcovers.readAllowed hpos s, ?_⟩
    simp only [handler]
    by_cases hready : s.answer.ready = true
    · rw [if_pos hready]
      simp only [hcovers.copied_bytes]
      rw [Nat.mod_eq_of_lt (by omega), ← slice_add, Nat.add_assoc]
      refine Sat.post (ih (s := s.after (.readDma w.offset w.length) s.flash) (by omega)
        (by omega)) ?_
      intro r t hr
      obtain ⟨hflash, hanswers, hstored⟩ := hr
      rw [show done + w.copyLength + (len - w.copyLength) = done + len by omega] at hstored
      exact ⟨hflash, hanswers, hstored⟩
    · rw [if_neg hready]
      refine ⟨rfl, rfl, false, done, rfl, by omega, by simp; omega, fun _ => ⟨s.log.length, ?_⟩⟩
      exact Bool.eq_false_iff.mpr hready

/-- What `ota_qspi_read` leaves: it has ended, with the whole range stored or with a reason not to,
and never a byte that is not the range's. -/
structure ReadExact (s : Chip) (capacity offset : Nat) (dst : Bool) (len : Nat)
    (r : Option (Bool × List Byte)) (t : Chip) : Prop where
  flash : t.flash = s.flash
  stored : ∃ ok n, r = some (ok, slice s.flash offset n) ∧ n ≤ len ∧
    (ok = true → n = len ∧ offset + len ≤ capacity) ∧
    (ok = false → capacity = 0 ∨ dst = false ∨ capacity < offset + len ∨
      ∃ i, (s.answers i).ready = false)

theorem otaQspiRead_sat (buffer : List Byte) (dst : Bool) (s : Chip)
    (hcap : capacity % dmaAlignment = 0) (hcap32 : capacity < 2 ^ 32) :
    (otaQspiRead capacity buffer offset dst len).Sat handler (ReadAllowed capacity bounceSize)
      (ReadExact s capacity offset dst len) s := by
  unfold otaQspiRead
  by_cases hbad : capacity = 0 ∨ dst = false ∨ offset > capacity ∨ len > capacity - offset
  · rw [if_pos hbad]
    refine ⟨rfl, false, 0, rfl, Nat.zero_le _, nofun, fun _ => ?_⟩
    rcases hbad with h | h | h | h
    · exact .inl h
    · exact .inr (.inl h)
    · exact .inr (.inr (.inl (by omega)))
    · exact .inr (.inr (.inl (by omega)))
  · rw [if_neg hbad]
    have hin : offset + 0 + len ≤ capacity := by omega
    apply Sat.post (readLoop_sat (s := s) (Nat.lt_succ_self len) hin hcap hcap32)
    intro r t ht
    obtain ⟨ok, n, hr, hn, hok, hfail⟩ := ht.stored
    rw [Nat.zero_add] at hn hok
    exact ⟨ht.flash, ok, n, hr, hn, fun h => ⟨hok.mp h, by omega⟩,
      fun h => .inr (.inr (.inr (hfail h)))⟩

/-! ## Writing -/

/-- A transfer of a write: a read as `ReadAllowed`, or a program of aligned words inside one page
that sets no bit. -/
def WriteAllowed (capacity : Nat) : Op → Chip → Prop
  | .readDma a n, s => ReadAllowed capacity bounceSize (.readDma a n) s
  | .writeDma a d, s => a % dmaAlignment = 0 ∧ d.length % dmaAlignment = 0 ∧ 0 < d.length ∧
      a % 256 + d.length ≤ 256 ∧ a + d.length ≤ capacity ∧
      ∀ i < d.length, s.flash (a + i) &&& d.getD i 0 = d.getD i 0

theorem and_eq_of_or_eq {x y : Byte} (h : x ||| y = y) : y &&& x = x := by
  rw [← h]
  ext i hi
  simp only [BitVec.getElem_and, BitVec.getElem_or]
  cases x[i] <;> simp

theorem and_or_self (x y : Byte) : x &&& (x ||| y) = x := by
  ext i hi
  simp only [BitVec.getElem_and, BitVec.getElem_or]
  cases x[i] <;> simp

/-- The bytes of the range are replaced. -/
theorem foldl_set_getD {d : List Byte} (src : List Byte) {p n : Nat} (hn : p + n ≤ d.length) :
    ((List.range n).foldl (fun d i => d.set (p + i) (src.getD i 0)) d).length = d.length ∧
      ∀ j, ((List.range n).foldl (fun d i => d.set (p + i) (src.getD i 0)) d).getD j 0 =
        if p ≤ j ∧ j < p + n then src.getD (j - p) 0 else d.getD j 0 := by
  induction n with
  | zero =>
    refine ⟨rfl, fun j => ?_⟩
    rw [if_neg (by omega)]
    rfl
  | succ n ih =>
    obtain ⟨hlen, hget⟩ := ih (by omega)
    simp only [List.range_succ, List.foldl_append, List.foldl_cons, List.foldl_nil]
    refine ⟨by rw [List.length_set, hlen], fun j => ?_⟩
    by_cases hj : j = p + n
    · subst hj
      rw [if_pos (by omega), List.getD_eq_getElem?_getD, List.getElem?_set_self (by omega),
        Nat.add_sub_cancel_left]
      rfl
    · rw [List.getD_eq_getElem?_getD, List.getElem?_set_ne (Ne.symm hj),
        ← List.getD_eq_getElem?_getD, hget]
      by_cases hin : p ≤ j ∧ j < p + n
      · rw [if_pos hin, if_pos (by omega)]
      · rw [if_neg hin, if_neg (by omega)]

/-- The source sets no bit of the flash. -/
def ClearsOnly (m : Mem) (offset : Nat) (src : List Byte) (len : Nat) : Prop :=
  ∀ i < len, src.getD i 0 ||| m (offset + i) = m (offset + i)

/-- The bytes a window is programmed with. -/
def overlaid (m : Mem) (offset len : Nat) (src : List Byte) (x : Nat) : Byte :=
  if offset ≤ x ∧ x < offset + len then src.getD (x - offset) 0 else m x

/-- The overlay is made where the source sets no bit, and only there. -/
theorem norOverlay_window (m : Mem) (buffer src : List Byte)
    (h : Covers w offset len capacity bounce) (hcopy : w.copyLength = len) :
    (ClearsOnly m offset src len → ∃ d,
      otaQspiNorOverlay (fill buffer (slice m w.offset w.length)) w.length w.prefixLen src len =
        some d ∧ d.take w.length = slice (overlaid m offset len src) w.offset w.length) ∧
    (¬ ClearsOnly m offset src len →
      otaQspiNorOverlay (fill buffer (slice m w.offset w.length)) w.length w.prefixLen src len =
        none) := by
  have hcovered := h.covered
  have hstart := h.start
  have hget : ∀ j, j < w.length →
      (fill buffer (slice m w.offset w.length)).getD j 0 = m (w.offset + j) := by
    intro j hj
    unfold fill
    rw [List.getD_append _ _ _ _ (by rw [slice_length]; exact hj)]
    exact slice_getD_add hj
  have hroom : w.length ≤ (fill buffer (slice m w.offset w.length)).length := by
    unfold fill
    rw [List.length_append, slice_length]
    omega
  have hiff : (∀ i < len, src.getD i 0 |||
      (fill buffer (slice m w.offset w.length)).getD (w.prefixLen + i) 0 =
        (fill buffer (slice m w.offset w.length)).getD (w.prefixLen + i) 0) ↔
      ClearsOnly m offset src len := by
    apply forall₂_congr
    intro i hi
    rw [hget _ (by omega), ← Nat.add_assoc, hstart]
  generalize fill buffer (slice m w.offset w.length) = d at hget hroom hiff
  unfold otaQspiNorOverlay
  rw [if_neg (by omega)]
  refine ⟨fun hclear => ?_, fun hclear => if_neg (fun hall => hclear (hiff.mp hall))⟩
  obtain ⟨hlen, hset⟩ := foldl_set_getD src (by omega : w.prefixLen + len ≤ d.length)
  refine ⟨_, if_pos (hiff.mpr hclear), ?_⟩
  refine List.ext_getElem (by rw [List.length_take, hlen, slice_length]; omega) fun j h1 h2 => ?_
  rw [slice_length] at h2
  rw [List.getElem_take, ← List.getD_eq_getElem _ 0, hset, ← List.getD_eq_getElem _ 0,
    slice_getD_add h2]
  unfold overlaid
  by_cases hin : w.prefixLen ≤ j ∧ j < w.prefixLen + len
  · rw [if_pos hin, if_pos (by omega), show w.offset + j - offset = j - w.prefixLen by omega]
  · rw [if_neg hin, if_neg (by omega), hget j h2]

/-- Programming the window leaves the source in the range and everything else as it is. -/
theorem program_overlaid {m : Mem} {src : List Byte} (h : Covers w offset len capacity bounce)
    (hcopy : w.copyLength = len) (hclear : ClearsOnly m offset src len) :
    (FlashOp.program w.offset (slice (overlaid m offset len src) w.offset w.length)).apply m =
      overlaid m offset len src := by
  have hcovered := h.covered
  have hstart := h.start
  funext x
  unfold FlashOp.apply
  simp only [slice_length]
  by_cases hx : w.offset ≤ x ∧ x < w.offset + w.length
  · rw [if_pos hx, slice_getD hx.1 hx.2]
    unfold overlaid
    by_cases hin : offset ≤ x ∧ x < offset + len
    · have hbit := hclear (x - offset) (by omega)
      rw [Nat.add_sub_cancel' hin.1] at hbit
      rw [if_pos hin]
      exact and_eq_of_or_eq hbit
    · rw [if_neg hin, BitVec.and_self]
  · rw [if_neg hx]
    unfold overlaid
    rw [if_neg (by omega)]

/-- A program that stops on its way changes nothing outside the range. -/
theorem programPartly_frame {m : Mem} {src : List Byte} {left : Nat → Byte} {x : Nat}
    (hx : x < offset ∨ offset + len ≤ x) :
    programPartly w.offset (slice (overlaid m offset len src) w.offset w.length) left m x = m x := by
  unfold programPartly
  simp only [slice_length]
  by_cases hin : w.offset ≤ x ∧ x < w.offset + w.length
  · rw [if_pos hin, slice_getD hin.1 hin.2]
    unfold overlaid
    rw [if_neg (by omega), and_or_self]
  · rw [if_neg hin]

def Op.isWrite : Op → Bool
  | .readDma _ _ => false
  | .writeDma _ _ => true

/-- What a write leaves: no byte outside the range changed, at most one program, and behind a
success the source in the range. -/
structure WriteDone (s : Chip) (capacity offset : Nat) (src : Option (List Byte)) (len : Nat)
    (r : Bool) (t : Chip) : Prop where
  frame : ∀ x, x < offset ∨ offset + len ≤ x → t.flash x = s.flash x
  once : ∃ ops, t.log = s.log ++ ops ∧ ops.countP Op.isWrite ≤ 1
  success : r = true → len = approvalLen ∧ offset % 256 + len ≤ 256 ∧ offset + len ≤ capacity ∧
    src = some (slice t.flash offset len) ∧
    ∃ a d, t.log = s.log ++ [.readDma a d.length, .writeDma a d, .readDma a d.length]
  failure : r = false → src = none ∨ len ≠ approvalLen ∨ 256 < offset % 256 + len ∨
    capacity < offset + len ∨ (∃ d, src = some d ∧ ¬ ClearsOnly s.flash offset d len) ∨
    ∃ i, (s.answers i).ready = false

/-- Every return before the program. -/
theorem WriteDone.unchanged {s t : Chip} {src : Option (List Byte)} {ops : List Op}
    (hflash : t.flash = s.flash) (hlog : t.log = s.log ++ ops) (hops : ops.countP Op.isWrite = 0)
    (hwhy : src = none ∨ len ≠ approvalLen ∨ 256 < offset % 256 + len ∨
      capacity < offset + len ∨ (∃ d, src = some d ∧ ¬ ClearsOnly s.flash offset d len) ∨
      ∃ i, (s.answers i).ready = false) :
    WriteDone s capacity offset src len false t :=
  ⟨fun x _ => by rw [hflash], ⟨ops, hlog, by omega⟩, nofun, fun _ => hwhy⟩

theorem notReady {s : Chip} (h : ¬ s.answer.ready = true) : ∃ i, (s.answers i).ready = false :=
  ⟨_, Bool.eq_false_iff.mpr h⟩

/-- The window of a word inside one page is inside that page. -/
theorem Covers.one_page (h : Covers w offset len capacity bounce) (hcopy : w.copyLength = len)
    (hpage : offset % 256 + len ≤ 256) : w.offset % 256 + w.length ≤ 256 := by
  have h4 : dmaAlignment = 4 := rfl
  have haligned := h.aligned
  have hwhole := h.whole
  have hstart := h.start
  have hshort := h.short
  have htight := h.tight
  rw [h4] at haligned hwhole hshort htight
  omega

theorem writeAligned_of_covers {d : List Byte} (h : Covers w offset len capacity bounce)
    (hcopy : w.copyLength = len) (hpage : offset % 256 + len ≤ 256) (hpos : 0 < len)
    (hd : d.length = w.length) :
    writeAligned capacity w.offset d = perform (Op.writeDma w.offset d) := by
  have hcovered := h.covered
  have hinside := h.inside
  have haligned := h.aligned
  have hwhole := h.whole
  have hone := h.one_page hcopy hpage
  unfold writeAligned
  rw [hd]
  apply if_neg
  omega

/-- The program and the read back behind it. -/
theorem program_readBack_sat {s s' : Chip} {src : List Byte}
    (h : Covers w offset len capacity bounceSize) (hcopy : w.copyLength = len)
    (hlen : len = approvalLen) (hsrc : src.length = len) (hpage : offset % 256 + len ≤ 256)
    (hin : offset + len ≤ capacity) (hclear : ClearsOnly s.flash offset src len)
    (hflash : s'.flash = s.flash) (hanswers : s'.answers = s.answers)
    (hlog : s'.log = s.log ++ [.readDma w.offset w.length]) :
    (do
      if ← writeAligned capacity w.offset
          (slice (overlaid s.flash offset len src) w.offset w.length) then
        match ← readAligned capacity w.offset w.length with
        | none => pure false
        | some verify =>
          pure (verify == slice (overlaid s.flash offset len src) w.offset w.length)
      else pure false : Prog Res Bool).Sat handler (WriteAllowed capacity)
        (WriteDone s capacity offset (some src) len) s' := by
  have hfour : len = 4 := hlen
  have hpos : 0 < w.copyLength := by omega
  have hdlen : (slice (overlaid s.flash offset len src) w.offset w.length).length = w.length :=
    slice_length _ _ _
  have hrange : slice (overlaid s.flash offset len src) offset len = src := by
    refine List.ext_getElem (by rw [slice_length, hsrc]) fun i h1 h2 => ?_
    rw [slice_length] at h1
    rw [← List.getD_eq_getElem _ 0, slice_getD_add h1, ← List.getD_eq_getElem _ 0]
    unfold overlaid
    rw [if_pos (by omega), Nat.add_sub_cancel_left]
  have hallowed : WriteAllowed capacity
      (.writeDma w.offset (slice (overlaid s.flash offset len src) w.offset w.length)) s' := by
    have hcovered := h.covered
    have hstart := h.start
    refine ⟨h.aligned, ?_, ?_, ?_, ?_, ?_⟩
    · rw [hdlen]
      exact h.whole
    · omega
    · rw [hdlen]
      exact h.one_page hcopy hpage
    · rw [hdlen]
      exact h.inside
    · intro i hi
      rw [hdlen] at hi
      have hbyte := congrFun (program_overlaid h hcopy hclear) (w.offset + i)
      rw [FlashOp.apply_program (by omega) (by rw [hdlen]; omega), Nat.add_sub_cancel_left,
        slice_getD_add hi] at hbyte
      rw [hflash, slice_getD_add hi]
      exact hbyte
  rw [writeAligned_of_covers h hcopy hpage (by omega) hdlen]
  simp only [readAligned_of_covers h hpos, perform_bind, sat_call]
  refine ⟨hallowed, ?_⟩
  generalize hd : slice (overlaid s.flash offset len src) w.offset w.length = d at *
  have hwrites : ∀ r : List Op, r.countP Op.isWrite = 0 → ([Op.readDma w.offset w.length,
      Op.writeDma w.offset d] ++ r).countP Op.isWrite ≤ 1 := by
    intro r hr
    rw [List.countP_append, hr]
    exact Nat.le_refl 1
  by_cases hwritten : s'.answer.ready = true
  · have hans : (handler (.writeDma w.offset d) s').1 = true := hwritten
    have hstate : (handler (.writeDma w.offset d) s').2 =
        s'.after (.writeDma w.offset d) (overlaid s.flash offset len src) := by
      rw [← program_overlaid h hcopy hclear, hd, ← hflash]
      exact congrArg (s'.after _) (if_pos hwritten)
    rw [if_pos hans, hstate]
    refine ⟨h.readAllowed hpos s', ?_⟩
    simp only [handler]
    by_cases hback : (s'.after (.writeDma w.offset d) (overlaid s.flash offset len src)).answer.ready
        = true
    · rw [if_pos hback]
      simp only [Chip.after_flash, hd, beq_self_eq_true]
      refine ⟨fun x hx => if_neg (by omega), ?_, fun _ => ⟨hlen, hpage, hin,
        congrArg some hrange.symm, w.offset, d, ?_⟩, (fun h => by cases h)⟩
      · exact ⟨_, by simp only [Chip.after_log, hlog, List.append_assoc]; rfl, hwrites _ rfl⟩
      · simp only [Chip.after_log, hlog, List.append_assoc, hdlen]
        rfl
    · rw [if_neg hback]
      refine ⟨fun x hx => if_neg (by omega), ?_, (fun h => by cases h),
        fun _ => .inr (.inr (.inr (.inr (.inr ?_))))⟩
      · exact ⟨_, by simp only [Chip.after_log, hlog, List.append_assoc]; rfl, hwrites _ rfl⟩
      · have hsome := notReady hback
        rwa [Chip.after_answers, hanswers] at hsome
  · have hans : ¬ (handler (.writeDma w.offset d) s').1 = true := hwritten
    have hstate : (handler (.writeDma w.offset d) s').2 = s'.after (.writeDma w.offset d)
        (programPartly w.offset d s'.answer.left s'.flash) :=
      congrArg (s'.after _) (if_neg hwritten)
    rw [if_neg hans, hstate]
    refine ⟨fun x hx => ?_, ?_, (fun h => by cases h), fun _ => .inr (.inr (.inr (.inr (.inr ?_))))⟩
    · rw [Chip.after_flash, ← hd, hflash, programPartly_frame hx]
    · exact ⟨_, by simp only [Chip.after_log, hlog, List.append_assoc]; rfl, hwrites _ rfl⟩
    · rw [← hanswers]
      exact notReady hwritten

theorem otaQspiWrite_sat {buffer : List Byte} {src : Option (List Byte)} (s : Chip)
    (hsrc : ∀ d, src = some d → d.length = len) (hcap : capacity % dmaAlignment = 0) :
    (otaQspiWrite capacity buffer offset src len).Sat handler (WriteAllowed capacity)
      (WriteDone s capacity offset src len) s := by
  unfold otaQspiWrite
  cases src with
  | none => exact WriteDone.unchanged rfl (List.append_nil _).symm rfl (.inl rfl)
  | some src =>
    simp only
    have hlen := hsrc src rfl
    by_cases hbad : capacity = 0 ∨ len ≠ approvalLen ∨ offset % 256 + len > 256 ∨
        offset > capacity ∨ len > capacity - offset
    · rw [if_pos hbad]
      refine WriteDone.unchanged rfl (List.append_nil _).symm rfl (.inr ?_)
      have h4 : approvalLen = 4 := rfl
      omega
    rw [if_neg hbad]
    have hfour : len = 4 := by
      have h4 : approvalLen = 4 := rfl
      omega
    obtain ⟨w, hw, hcovers⟩ := window_of_range (by omega : 0 < len)
      (by omega : offset + len ≤ capacity) hcap (by decide : bounceSize % dmaAlignment = 0)
      (by decide) (by decide)
    have hcopy : w.copyLength = len := by
      have hshort := hcovers.short
      have h4 : dmaAlignment = 4 := rfl
      have hb : bounceSize = 256 := rfl
      rw [hcovers.copied]
      omega
    have hpos : 0 < w.copyLength := by omega
    have hwide : ¬ w.length > 2 * dmaAlignment := by
      have h4 : dmaAlignment = 4 := rfl
      have hshort := hcovers.short
      have htight := hcovers.tight
      have hwhole := hcovers.whole
      rw [h4] at hshort htight hwhole ⊢
      omega
    rw [hw]
    simp only [hcopy, ne_eq, not_true_eq_false, if_false, readAligned_of_covers hcovers hpos,
      perform_bind, sat_call]
    refine ⟨hcovers.readAllowed hpos s, ?_⟩
    simp only [handler]
    by_cases hready : s.answer.ready = true
    · rw [if_pos hready]
      simp only
      obtain ⟨hmade, hrefused⟩ := norOverlay_window s.flash buffer src hcovers hcopy
      by_cases hclear : ClearsOnly s.flash offset src len
      · obtain ⟨d, hd, htake⟩ := hmade hclear
        rw [hd]
        simp only [if_neg hwide, htake]
        have hrest := program_readBack_sat hcovers hcopy hfour hlen (by omega) (by omega) hclear
          (rfl : (s.after (.readDma w.offset w.length) s.flash).flash = s.flash) rfl rfl
        simp only [readAligned_of_covers hcovers hpos, perform_bind] at hrest
        exact hrest
      · rw [hrefused hclear]
        exact WriteDone.unchanged rfl rfl rfl
          (.inr (.inr (.inr (.inr (.inl ⟨src, rfl, hclear⟩)))))
    · rw [if_neg hready]
      exact WriteDone.unchanged rfl rfl rfl (.inr (.inr (.inr (.inr (.inr (notReady hready))))))

/-- Every read ends, in allowed transfers, with exactly the range or with false, and every write
replaces exactly the word it is for, or says false. -/
theorem ota_qspi_exact {capacity : Nat} (hcap : capacity % dmaAlignment = 0)
    (hcap32 : capacity < 2 ^ 32) (offset len : Nat) (buffer : List Byte) (dst : Bool)
    (src : Option (List Byte)) (hsrc : ∀ d, src = some d → d.length = len) (s : Chip) :
    (otaQspiRead capacity buffer offset dst len).Sat handler (ReadAllowed capacity bounceSize)
      (ReadExact s capacity offset dst len) s ∧
    (otaQspiWrite capacity buffer offset src len).Sat handler (WriteAllowed capacity)
      (WriteDone s capacity offset src len) s :=
  ⟨otaQspiRead_sat buffer dst s hcap hcap32, otaQspiWrite_sat s hsrc hcap⟩

/-- An erased chip that answers every transfer. -/
def blankChip : Chip where
  flash := fun _ => 0xFF
  answers := fun _ => ⟨true, fun _ => 0⟩

theorem ota_qspi_exact_approval :
    (otaQspiRead 0x200000 [] 0x1FFFFA true 6).Sat handler (ReadAllowed 0x200000 bounceSize)
      (ReadExact blankChip 0x200000 0x1FFFFA true 6) blankChip ∧
    (otaQspiWrite 0x200000 [] 0x1FFFFA (some [0, 0, 0, 0]) 4).Sat handler (WriteAllowed 0x200000)
      (WriteDone blankChip 0x200000 0x1FFFFA (some [0, 0, 0, 0]) 4) blankChip :=
  have hread := (ota_qspi_exact (by decide) (by decide) 0x1FFFFA 6 [] true none nofun blankChip).1
  have hwrite := (ota_qspi_exact (by decide) (by decide) 0x1FFFFA 4 [] true (some [0, 0, 0, 0])
    (by rintro d ⟨rfl⟩; rfl) blankChip).2
  ⟨hread, hwrite⟩

end OtaFix.Mota.Qspi
