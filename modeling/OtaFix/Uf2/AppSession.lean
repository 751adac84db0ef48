import OtaFix.Lib.Run
import OtaFix.Uf2.AppOrder

/-!
# An application session

A run of `write_block` calls on one `WriteState`, with the flash operations they
issue and the blocks they commit. Committed targets hold their payload, erased
ones are blank, and a validated image is the payloads of its targets, as long as
every call finds a boundary of user flash.
-/

namespace OtaFix.Uf2

open Lib Lib.BitMask

variable {cfg : Config} {b : Block} {ws ws' : WriteState} {m : Mem} {ops : List FlashOp}
  {committed : Bool}

/-! ## Contents -/

/-- The bytes of the settings word. -/
def InSettingsWord (x : Nat) : Prop :=
  bootloaderSettingsAddress ≤ x ∧ x < bootloaderSettingsAddress + 4

/-- A call leaves the bytes below the boundary and outside user flash alone, the
settings word apart. -/
theorem AppEffect.frame (h : AppEffect cfg b ws m ws' ops committed) (hb : boundaryOk m = true)
    (hlen : b.payload.length = blockSize) {x : Nat}
    (hx : x < dfuBank0RegionStart m ∨ userFlashEnd ≤ x) (hset : ¬InSettingsWord x) :
    replay ops m x = m x := by
  refine replay_spares ?_ m
  have hbase : ∀ op ∈ ops, dfuBank0RegionStart m ≤ op.start := fun op hop => h.ops_base hb hop
  rcases h.ops_user hlen with ⟨rfl, -⟩ | hin
  · intro op hop
    rw [invalidateAppSettings, List.mem_singleton] at hop
    subst hop
    simp only [FlashOp.start, FlashOp.stop, List.length_cons, List.length_nil]
    unfold InSettingsWord at hset
    omega
  · intro op hop
    have h1 := hbase op hop
    have h2 := (hin op hop).stop_le
    omega

/-- An installed SoftDevice stays where it is. -/
theorem AppEffect.sdInstalled (h : AppEffect cfg b ws m ws' ops committed)
    (hb : boundaryOk m = true) (hlen : b.payload.length = blockSize) (hsd : isSdExisted m = true) :
    SdInstalled (replay ops m) (dfuBank0RegionStart m) := by
  refine (SdInstalled.of_boundaryOk hb hsd).congr fun x hx => h.frame hb hlen (.inl hx) ?_
  have hle := boundaryOk_le hb
  have he : userFlashEnd = 0xEA000 := rfl
  have hs : bootloaderSettingsAddress = 0xFF000 := rfl
  unfold InSettingsWord
  omega

/-- `b` holds its payload for good: its page was erased for it, or it belongs to the
SoftDevice. -/
def Frozen (ws : WriteState) (m : Mem) (b : Block) : Prop :=
  bit ws.appErasedMask b.page = true ∨
    (isSdExisted m = true ∧ boundaryOk m = true ∧ b.targetAddr < dfuBank0RegionStart m)

structure Contents (ws : WriteState) (m : Mem) (accepted : List Block) : Prop where
  marked : ∀ b ∈ accepted, b.targetAddr < userFlashEnd ∧ b.targetAddr % blockSize = 0 ∧
    bit ws.targetMask (b.targetAddr / blockSize) = true
  accounted : ∀ t, bit ws.targetMask t = true → ∃ b ∈ accepted, b.targetAddr = t * blockSize
  distinct : accepted.Pairwise fun b b' => b.targetAddr ≠ b'.targetAddr
  held : ∀ b ∈ accepted, userFlashStart ≤ b.targetAddr →
    slice m b.targetAddr blockSize = b.payload
  blank : ∀ x, InUser x → bit ws.appErasedMask (appPage x) = true →
    bit ws.targetMask (x / blockSize) = false → m x = 0xFF
  frozen : ∀ b ∈ accepted, userFlashStart ≤ b.targetAddr → Frozen ws m b

theorem contents_fresh (m : Mem) : Contents {} m [] where
  marked := fun b hb => by cases hb
  accounted := fun t ht => by
    have hbit := bit_replicate ((flashBlockCount + 7) / 8) t
    rw [show bit (List.replicate _ 0#8) t = true from ht] at hbit
    cases hbit
  distinct := .nil
  held := fun b hb => by cases hb
  blank := fun x _ hx => by
    have hbit := bit_replicate ((appPageCount + 7) / 8) (appPage x)
    rw [show bit (List.replicate _ 0#8) (appPage x) = true from hx] at hbit
    cases hbit
  frozen := fun b hb => by cases hb

variable {accepted : List Block}

/-- The committed block a marked byte belongs to. -/
theorem Contents.owner (hC : Contents ws m accepted) {x : Nat} (hx : InUser x)
    (hbit : bit ws.targetMask (x / blockSize) = true) :
    ∃ o ∈ accepted, userFlashStart ≤ o.targetAddr ∧ o.targetAddr ≤ x ∧
      x < o.targetAddr + blockSize ∧ o.page = appPage x := by
  obtain ⟨o, ho, heq⟩ := hC.accounted _ hbit
  have h1 := hx.1
  have hs : userFlashStart = 0x1000 := rfl
  rw [show blockSize = 256 from rfl] at heq
  refine ⟨o, ho, by omega, by omega, ?_, ?_⟩
  · rw [show blockSize = 256 from rfl]
    omega
  · unfold Block.page appPage
    rw [show codePageSize = 0x1000 from rfl]
    omega

/-- No call changes a byte of a committed target. -/
theorem Contents.keeps (hC : Contents ws m accepted)
    (he : AppEffect cfg b ws m ws' ops committed) (hlen : b.payload.length = blockSize) {x : Nat}
    (hx : InUser x) (hbit : bit ws.targetMask (x / blockSize) = true) : replay ops m x = m x := by
  cases he with
  | idle => rfl
  | invalidate =>
    refine replay_spares (fun op hop => ?_) m
    have h2 := hx.2
    have he : userFlashEnd = 0xEA000 := rfl
    have hs : bootloaderSettingsAddress = 0xFF000 := rfl
    rw [List.mem_singleton.mp hop]
    simp only [FlashOp.start]
    omega
  | erase hf hp hs hfree hset =>
    rw [flashNrf5xErase_page]
    refine replay_spares (fun op hop => ?_) m
    rw [List.mem_singleton.mp hop]
    by_contra hin
    have hat : (FlashOp.erase (pageOf b.targetAddr) codePageSize).erasesAt x = true := by
      simp only [FlashOp.erasesAt, Bool.and_eq_true, decide_eq_true_eq]
      simp only [FlashOp.start, FlashOp.stop] at hin
      omega
    obtain ⟨o, ho, hou, hox, -, hpage⟩ := hC.owner hx hbit
    rw [erasesAt_page hx hp, beq_iff_eq] at hat
    -- the page of a committed block is erased already, or lies below the boundary
    rcases hC.frozen o ho hou with hfr | ⟨-, hbd, hlt⟩
    · rw [hpage, ← hat, hfree] at hfr
      cases hfr
    · have h1 := boundaryOk_aligned hbd
      have h2 := hp.app_le
      have h3 := hp.user_le
      have hus : userFlashStart = 0x1000 := rfl
      unfold Block.page at hat hpage
      unfold appPage at hat hpage
      rw [show codePageSize = 0x1000 from rfl] at h1 hat hpage
      omega
  | commit hf hfree htm hwm hops =>
    rcases hops with ⟨hp, -, -, rfl⟩ | ⟨-, rfl⟩ | ⟨-, -, -, rfl⟩
    · obtain ⟨hal, hfree⟩ := hfree hp.lt_end
      refine replay_spares (wordsWrite_spares ?_) m
      by_contra hin
      have hslot : b.targetAddr / blockSize = x / blockSize := by
        rw [hlen] at hin
        refine (slot_iff hal).mp ?_
        omega
      rw [hslot, hbit] at hfree
      cases hfree
    · rfl
    · rfl

theorem Contents.held_step (hC : Contents ws m accepted)
    (he : AppEffect cfg b ws m ws' ops committed) (hlen : b.payload.length = blockSize) {o : Block}
    (ho : o ∈ accepted) (hu : userFlashStart ≤ o.targetAddr) :
    slice (replay ops m) o.targetAddr blockSize = o.payload := by
  obtain ⟨hlt, hal, hbit⟩ := hC.marked o ho
  refine (slice_congr fun x h1 h2 => ?_).trans (hC.held o ho hu)
  have he' : userFlashEnd = 0xEA000 := rfl
  have hslot := (slot_iff hal).mp ⟨h1, h2⟩
  rw [show blockSize = 256 from rfl] at h2 hal
  exact hC.keeps he hlen ⟨by omega, by omega⟩ (hslot ▸ hbit)

theorem Frozen.step (he : AppEffect cfg b ws m ws' ops committed) (hb : boundaryOk m = true)
    (hlen : b.payload.length = blockSize) {o : Block} (h : Frozen ws m o)
    (hmono : bit ws.appErasedMask o.page = true → bit ws'.appErasedMask o.page = true) :
    Frozen ws' (replay ops m) o := by
  rcases h with h | ⟨hsd, -, hlt⟩
  · exact .inl (hmono h)
  · have hin := he.sdInstalled hb hlen hsd
    refine .inr ⟨by simpa [isSdExisted] using hin.magic, ?_, hin.regionStart ▸ hlt⟩
    have hle := boundaryOk_le hb
    simp [boundaryOk, hin.size, hin.aligned, hin.info_below, hle]

/-- What a committed block leaves in flash. -/
theorem Contents.stored (hC : Contents ws m accepted) (hlen : b.payload.length = blockSize)
    (hfree : b.targetAddr < userFlashEnd →
      b.targetAddr % blockSize = 0 ∧ bit ws.targetMask (b.targetAddr / blockSize) = false)
    (hops : Stores ws b m ops) (hu : userFlashStart ≤ b.targetAddr) :
    slice (replay ops m) b.targetAddr blockSize = b.payload := by
  rcases hops with ⟨hp, -, hbit, rfl⟩ | ⟨hlt, -⟩ | ⟨-, -, hm, rfl⟩
  · obtain ⟨hal, hnew⟩ := hfree hp.lt_end
    rw [← hlen]
    refine slice_wordsWrite_erased (by rw [hlen]; rfl) fun x h1 h2 => ?_
    have hslot : b.targetAddr / blockSize = x / blockSize := by
      rw [hlen] at h2
      exact (slot_iff hal).mp ⟨h1, h2⟩
    have hlt := hp.lt_end
    have he : userFlashEnd = 0xEA000 := rfl
    have hpage : appPage x = b.page := by
      have hs : userFlashStart = 0x1000 := rfl
      rw [show blockSize = 256 from rfl] at hal hslot
      unfold appPage Block.page
      rw [show codePageSize = 0x1000 from rfl]
      omega
    refine hC.blank x ⟨by omega, ?_⟩ (hpage ▸ hbit) (hslot ▸ hnew)
    rw [show blockSize = 256 from rfl] at hal hslot
    omega
  · exact absurd hu (Nat.not_le_of_lt hlt)
  · exact hm

theorem Contents.commit {tm : List Byte} (hC : Contents ws m accepted)
    (he : AppEffect cfg b ws m ws' ops true) (hb : boundaryOk m = true)
    (hlen : b.payload.length = blockSize)
    (hfree : b.targetAddr < userFlashEnd →
      b.targetAddr % blockSize = 0 ∧ bit ws.targetMask (b.targetAddr / blockSize) = false)
    (htm : setBit? ws.targetMask (b.targetAddr / blockSize) = some tm) (hops : Stores ws b m ops)
    (ht : ws'.targetMask = tm) (hem : ws'.appErasedMask = ws.appErasedMask) :
    Contents ws' (replay ops m) (accepted ++ [b]) := by
  have hlt := hops.target_lt (boundaryOk_le hb)
  obtain ⟨hal, hnew⟩ := hfree hlt
  have hbit : ∀ t, bit ws'.targetMask t = (bit ws.targetMask t || b.targetAddr / blockSize == t) :=
    fun t => ht ▸ bit_setBit? htm
  refine ⟨?_, ?_, ?_, ?_, ?_, ?_⟩
  · intro o ho
    rcases List.mem_append.mp ho with ho | ho
    · obtain ⟨h1, h2, h3⟩ := hC.marked o ho
      exact ⟨h1, h2, by rw [hbit, h3]; rfl⟩
    · obtain rfl := List.mem_singleton.mp ho
      exact ⟨hlt, hal, by simp [hbit]⟩
  · intro t ht
    rw [hbit, Bool.or_eq_true, beq_iff_eq] at ht
    rcases ht with ht | rfl
    · obtain ⟨o, ho, h⟩ := hC.accounted t ht
      exact ⟨o, List.mem_append_left _ ho, h⟩
    · refine ⟨b, by simp, ?_⟩
      rw [Nat.div_mul_cancel (Nat.dvd_of_mod_eq_zero hal)]
  · rw [List.pairwise_append]
    refine ⟨hC.distinct, List.pairwise_singleton _ _, fun o ho b' hb' heq => ?_⟩
    obtain rfl := List.mem_singleton.mp hb'
    have hmark := (hC.marked o ho).2.2
    rw [heq, hnew] at hmark
    cases hmark
  · intro o ho hu
    rcases List.mem_append.mp ho with ho | ho
    · exact hC.held_step he hlen ho hu
    · obtain rfl := List.mem_singleton.mp ho
      exact hC.stored hlen hfree hops hu
  · intro x hx hpage hx'
    rw [hbit, Bool.or_eq_false_iff, beq_eq_false_iff_ne] at hx'
    rw [hem] at hpage
    refine (replay_spares ?_ m).trans (hC.blank x hx hpage hx'.1)
    rcases hops with ⟨-, -, -, rfl⟩ | ⟨-, rfl⟩ | ⟨-, -, -, rfl⟩
    · refine wordsWrite_spares ?_
      by_contra hin
      refine hx'.2 ((slot_iff hal).mp ?_)
      rw [hlen] at hin
      omega
    · exact fun op hop => by cases hop
    · exact fun op hop => by cases hop
  · intro o ho hu
    rcases List.mem_append.mp ho with ho | ho
    · exact (hC.frozen o ho hu).step he hb hlen (hem ▸ id)
    · obtain rfl := List.mem_singleton.mp ho
      rcases hops with ⟨-, -, hbit, -⟩ | ⟨hlt, -⟩ | ⟨-, hlt, -, rfl⟩
      · exact .inl (hem ▸ hbit)
      · exact absurd hu (Nat.not_le_of_lt hlt)
      · -- below the boundary there is only a SoftDevice
        cases hsd : isSdExisted m with
        | true => exact .inr ⟨hsd, hb, hlt⟩
        | false =>
          simp only [dfuBank0RegionStart, hsd] at hlt
          exact absurd hu (Nat.not_le_of_lt hlt)

/-- A page erase blanks its page and spares the committed targets. -/
theorem Contents.erase {mask : List Byte} (hC : Contents ws m accepted)
    (he : AppEffect cfg b ws m ws' (flashNrf5xErase b.targetAddr codePageSize) false)
    (hb : boundaryOk m = true) (hlen : b.payload.length = blockSize) (hp : Programs b m)
    (hset : setBit? ws.appErasedMask b.page = some mask) (ht : ws'.targetMask = ws.targetMask)
    (hem : ws'.appErasedMask = mask) :
    Contents ws' (replay (flashNrf5xErase b.targetAddr codePageSize) m) accepted := by
  have hbit : ∀ p, bit ws'.appErasedMask p = (bit ws.appErasedMask p || b.page == p) :=
    fun p => hem ▸ bit_setBit? hset
  refine ⟨ht ▸ hC.marked, ht ▸ hC.accounted, hC.distinct,
    fun o ho hu => hC.held_step he hlen ho hu, ?_, ?_⟩
  · intro x hx hpage hx'
    rw [flashNrf5xErase_page, replay_cons, replay_nil]
    have hat := erasesAt_page hx hp
    by_cases hin : (FlashOp.erase (pageOf b.targetAddr) codePageSize).erasesAt x = true
    · simp only [FlashOp.erasesAt, Bool.and_eq_true, decide_eq_true_eq] at hin
      exact FlashOp.apply_erase hin.1 hin.2
    · rw [Bool.not_eq_true] at hin
      rw [hbit, ← hat, hin, Bool.or_false] at hpage
      simp only [FlashOp.erasesAt, Bool.and_eq_false_iff, decide_eq_false_iff_not] at hin
      rw [FlashOp.apply_outside]
      · exact hC.blank x hx hpage (ht ▸ hx')
      · simp only [FlashOp.start, FlashOp.stop]
        omega
  · intro o ho hu
    refine (hC.frozen o ho hu).step he hb hlen fun h => ?_
    rw [hbit, h]
    rfl

theorem Contents.effect (hC : Contents ws m accepted)
    (he : AppEffect cfg b ws m ws' ops committed) (hb : boundaryOk m = true)
    (hlen : b.payload.length = blockSize) :
    Contents ws' (replay ops m) (if committed then accepted ++ [b] else accepted) := by
  have he' := he
  cases he with
  | idle => exact ⟨hC.marked, hC.accounted, hC.distinct, hC.held, hC.blank, hC.frozen⟩
  | invalidate hf hs =>
    refine ⟨hC.marked, hC.accounted, hC.distinct, fun o ho hu => hC.held_step he' hlen ho hu, ?_,
      fun o ho hu => (hC.frozen o ho hu).step he' hb hlen id⟩
    intro x hx hpage hx'
    refine (replay_spares (fun op hop => ?_) m).trans (hC.blank x hx hpage hx')
    have h2 := hx.2
    have he : userFlashEnd = 0xEA000 := rfl
    have hs : bootloaderSettingsAddress = 0xFF000 := rfl
    rw [List.mem_singleton.mp hop]
    simp only [FlashOp.start]
    omega
  | erase hf hp hs hbit hset => exact hC.erase he' hb hlen hp hset rfl rfl
  | commit hf hfree htm hwm hops =>
    obtain ⟨ab, size, start, v, heq⟩ := finishState_eq cfg
      (commitState ws b (dfuBank0RegionStart m) _ _) (dfuBank0RegionStart m) (replay ops m)
    refine hC.commit he' hb hlen hfree htm hops ?_ ?_ <;> rw [heq] <;> rfl

/-! ## Validation -/

/-- The image at `[start, start + size)`: gap-free, each target as accepted, and
with a stack pointer in RAM and a reset vector inside the range. -/
structure ImageOk (cfg : Config) (start size : Nat) (m : Mem) (accepted : List Block) : Prop where
  user_le : userFlashStart ≤ start
  start_aligned : start % blockSize = 0
  size_aligned : size % blockSize = 0
  size_pos : 0 < size
  end_le : start + size ≤ userFlashEnd
  gapFree : ∀ a, a % blockSize = 0 → start ≤ a → a < start + size →
    ∃ b ∈ accepted, b.targetAddr = a ∧ slice m a blockSize = b.payload
  sp_ram : ramStart ≤ readWord m start ∧ readWord m start ≤ cfg.chip.ramEnd
  sp_aligned : readWord m start % 8 = 0
  reset_thumb : readWord m (start + 4) % 2 = 1
  reset_inside : start ≤ readWord m (start + 4) - 1 ∧ readWord m (start + 4) - 1 < start + size

theorem targetRangeWritten_bit {mask : List Byte} {start stop a : Nat}
    (h : targetRangeWritten mask start stop = true) (hal : a % blockSize = 0) (h1 : start ≤ a)
    (h2 : a < stop) : bit mask (a / blockSize) = true := by
  unfold targetRangeWritten at h
  split at h
  · cases h
  rename_i hbad
  have hsa : start % blockSize = 0 := by by_contra h; exact hbad (.inr (.inl h))
  have hpa : stop % blockSize = 0 := by by_contra h; exact hbad (.inr (.inr h))
  rw [List.all_eq_true] at h
  rw [show blockSize = 256 from rfl] at *
  have hi := h ((a - start) / 256) (List.mem_range.mpr (by omega))
  obtain ⟨-, hbit⟩ := Bool.and_eq_true_iff.mp hi
  rwa [show start + (a - start) / 256 * 256 = a by omega] at hbit

theorem targetRangeWritten_aligned {mask : List Byte} {start stop : Nat}
    (h : targetRangeWritten mask start stop = true) :
    start % blockSize = 0 ∧ stop % blockSize = 0 := by
  unfold targetRangeWritten at h
  split at h
  · cases h
  · rename_i hbad
    refine ⟨?_, ?_⟩ <;> by_contra hne
    · exact hbad (.inr (.inl hne))
    · exact hbad (.inr (.inr hne))

/-- A transfer that passes the final check is an image. -/
theorem Contents.finalized (hC : Contents ws m accepted) {start stop size : Nat}
    (hu : userFlashStart ≤ start)
    (h : applicationFinalize ws.targetMask start stop (vectorWord m start 0)
      (vectorWord m start 4) cfg.chip.ramEnd = some size) : ImageOk cfg start size m accepted := by
  unfold applicationFinalize at h
  split at h
  · cases h
  rename_i hrange
  simp only at h
  split at h
  · cases h
  rename_i hvec
  simp only [not_or, Bool.not_eq_true, Bool.not_eq_false'] at hrange hvec
  obtain ⟨-, hend, hstart, hwritten⟩ := hrange
  obtain ⟨h8, hsp1, hsp2, hsp3, hr1, hr2, hr3⟩ := hvec
  obtain rfl := Option.some.inj h
  obtain ⟨hsa, hea⟩ := targetRangeWritten_aligned hwritten
  have hlt : start < userFlashEnd := by omega
  simp only [vectorWord, hlt, if_true, Nat.add_zero] at hsp1 hsp2 hsp3 hr1 hr2 hr3
  refine ⟨hu, hsa, ?_, by omega, by omega, ?_, ⟨by omega, by omega⟩, by omega, by omega, ?_⟩
  · rw [show blockSize = 256 from rfl] at *
    omega
  · intro a hal h1 h2
    have hbit := targetRangeWritten_bit hwritten hal h1 (by omega)
    obtain ⟨o, ho, heq⟩ := hC.accounted _ hbit
    rw [Nat.div_mul_cancel (Nat.dvd_of_mod_eq_zero hal)] at heq
    refine ⟨o, ho, heq, ?_⟩
    rw [← heq]
    exact hC.held o ho (by omega)
  · omega

theorem ImageOk.step {start size : Nat} (h : ImageOk cfg start size m accepted)
    (hC : Contents ws m accepted) (he : AppEffect cfg b ws m ws' ops committed)
    (hlen : b.payload.length = blockSize) :
    ImageOk cfg start size (replay ops m) (if committed then accepted ++ [b] else accepted) := by
  -- the vectors are inside the first target
  have hword : ∀ off, off + 4 ≤ 8 →
      readWord (replay ops m) (start + off) = readWord m (start + off) := by
    intro off hoff
    have hsize := h.size_pos
    obtain ⟨o, ho, hat, -⟩ := h.gapFree start h.start_aligned (Nat.le_refl _) (by omega)
    have hbit := (hC.marked o ho).2.2
    have hal := h.start_aligned
    have h1 := h.user_le
    have h2 := h.end_le
    have h3 := h.size_aligned
    refine readWord_congr fun x hx1 hx2 => hC.keeps he hlen ⟨by omega, ?_⟩ ?_
    · rw [show blockSize = 256 from rfl] at h3
      omega
    · have hslot : start / blockSize = x / blockSize := by
        refine (slot_iff hal).mp ⟨by omega, ?_⟩
        rw [show blockSize = 256 from rfl]
        omega
      rw [← hslot, ← hat]
      exact hbit
  have hsp := hword 0 (by omega)
  have hreset := hword 4 (by omega)
  rw [Nat.add_zero] at hsp
  refine ⟨h.user_le, h.start_aligned, h.size_aligned, h.size_pos, h.end_le, ?_, ?_, ?_, ?_, ?_⟩
  · intro a hal h1 h2
    obtain ⟨o, ho, hat, -⟩ := h.gapFree a hal h1 h2
    refine ⟨o, ?_, hat, ?_⟩
    · split
      · exact List.mem_append_left _ ho
      · exact ho
    · have hu := h.user_le
      rw [← hat]
      exact hC.held_step he hlen ho (by omega)
  · rw [hsp]; exact h.sp_ram
  · rw [hsp]; exact h.sp_aligned
  · rw [hreset]; exact h.reset_thumb
  · rw [hreset]; exact h.reset_inside

/-- Only user flash matters to an image. -/
theorem ImageOk.congr {start size : Nat} {m' : Mem}
    (h : ImageOk cfg start size m accepted) (heq : ∀ x, x < userFlashEnd → m' x = m x) :
    ImageOk cfg start size m' accepted := by
  have hend := h.end_le
  have hpos := h.size_pos
  have hal := h.size_aligned
  rw [show blockSize = 256 from rfl] at hal
  have hword : ∀ off, off ≤ 4 → readWord m' (start + off) = readWord m (start + off) := by
    intro off hoff
    exact readWord_congr fun x _ hx => heq x (by omega)
  have hsp := hword 0 (by omega)
  have hreset := hword 4 (by omega)
  rw [Nat.add_zero] at hsp
  refine ⟨h.user_le, h.start_aligned, h.size_aligned, h.size_pos, h.end_le, ?_, ?_, ?_, ?_, ?_⟩
  · intro a ha h1 h2
    obtain ⟨b, hb, hat, hslice⟩ := h.gapFree a ha h1 h2
    refine ⟨b, hb, hat, (slice_congr fun x _ hx => heq x ?_).trans hslice⟩
    have hst := h.start_aligned
    rw [show blockSize = 256 from rfl] at ha hx hst
    omega
  · rw [hsp]; exact h.sp_ram
  · rw [hsp]; exact h.sp_aligned
  · rw [hreset]; exact h.reset_thumb
  · rw [hreset]; exact h.reset_inside

theorem Contents.congr {m' : Mem}
    (h : Contents ws m accepted) (heq : ∀ x, x < userFlashEnd → m' x = m x) :
    Contents ws m' accepted where
  marked := h.marked
  accounted := h.accounted
  distinct := h.distinct
  held := by
    intro b hb hu
    refine (slice_congr fun x _ hx => heq x ?_).trans (h.held b hb hu)
    obtain ⟨hlt, hal, -⟩ := h.marked b hb
    have he : userFlashEnd = 0xEA000 := rfl
    rw [show blockSize = 256 from rfl] at hx hal
    omega
  blank := fun x hx h1 h2 => (heq x hx.2).trans (h.blank x hx h1 h2)
  frozen := by
    intro b hb hu
    have he : userFlashEnd = 0xEA000 := rfl
    obtain ⟨h1, h2, h3⟩ := boundary_congr fun x hx => heq x (by omega)
    unfold Frozen
    rw [h1, h2, h3]
    exact h.frozen b hb hu

/-! ## Runs -/

structure AppSession where
  ws : WriteState
  cache : FlashCache
  flash : Mem
  /-- The flash operations so far. -/
  trace : List FlashOp := []
  /-- The blocks committed so far. -/
  accepted : List Block := []
  /-- A mask was accessed out of bounds. -/
  fault : Bool := false

structure SectorWrite where
  lba : Nat
  sector : Sector

def appStep (cfg : Config) (s : AppSession) (e : SectorWrite) : AppSession :=
  match writeBlock cfg e.lba e.sector s.ws s.cache s.flash with
  | none => { s with fault := true }
  | some out =>
    { s with
      ws := out.ws
      cache := out.cache
      flash := replay out.ops s.flash
      trace := s.trace ++ out.ops
      accepted := if out.committed then s.accepted ++ [e.sector.block] else s.accepted }

/-- A fresh `WriteState`, over any cache and flash. -/
def appInit (c : FlashCache) (m : Mem) : AppSession := ⟨{}, c, m, [], [], false⟩

/-- The session is not a bootloader's, before or after the call. -/
def kindOk (cfg : Config) (s : AppSession) (e : SectorWrite) : Prop :=
  (appStep cfg s e).ws.updateKind ≠ .bootloader

/-- The call finds a boundary of user flash. -/
def boundedOk (cfg : Config) (s : AppSession) (e : SectorWrite) : Prop :=
  kindOk cfg s e ∧ boundaryOk s.flash = true

/-- The invariant of a session that started on `m₀`. -/
structure AppInv (cfg : Config) (m₀ : Mem) (s : AppSession) : Prop where
  inBounds : s.fault = false
  counters : Counters s.ws
  order : TraceInv s.ws s.trace
  contents : Contents s.ws s.flash s.accepted
  replayed : s.flash = replay s.trace m₀
  outside : ∀ x, x < dfuBank0RegionStart m₀ ∨ userFlashEnd ≤ x → ¬InSettingsWord x →
    s.flash x = m₀ x
  boundary : isSdExisted m₀ = true →
    isSdExisted s.flash = true ∧ dfuBank0RegionStart s.flash = dfuBank0RegionStart m₀
  validated : s.ws.appValidated = true →
    ImageOk cfg s.ws.appStart s.ws.appSize s.flash s.accepted

variable {s : AppSession} {m₀ : Mem} {e : SectorWrite} {es : List SectorWrite} {c : FlashCache}

theorem appInv_init (cfg : Config) (c : FlashCache) (m₀ : Mem) : AppInv cfg m₀ (appInit c m₀) where
  inBounds := rfl
  counters := counters_fresh
  order := traceInv_fresh
  contents := contents_fresh m₀
  replayed := rfl
  outside := fun _ _ _ => rfl
  boundary := fun h => ⟨h, rfl⟩
  validated := fun h => by cases h

/-- The boundary of the session never comes down. -/
theorem AppInv.base_le (hI : AppInv cfg m₀ s) (hb : boundaryOk s.flash = true) :
    dfuBank0RegionStart m₀ ≤ dfuBank0RegionStart s.flash := by
  cases hsd : isSdExisted m₀ with
  | true => exact Nat.le_of_eq (hI.boundary hsd).2.symm
  | false =>
    have h : dfuBank0RegionStart m₀ = userFlashStart := by
      simp [dfuBank0RegionStart, hsd, userFlashStart]
    rw [h]
    exact boundaryOk_start hb

theorem AppInv.effect {ws' : WriteState} {c' : FlashCache} (hI : AppInv cfg m₀ s)
    (he : AppEffect cfg b s.ws s.flash ws' ops committed) (hb : boundaryOk s.flash = true)
    (hlen : b.payload.length = blockSize) :
    AppInv cfg m₀ ⟨ws', c', replay ops s.flash, s.trace ++ ops,
      if committed then s.accepted ++ [b] else s.accepted, s.fault⟩ where
  inBounds := hI.inBounds
  counters := hI.counters.effect he
  order := hI.order.effect he hlen
  contents := hI.contents.effect he hb hlen
  replayed := by rw [replay_append, ← hI.replayed]
  outside := by
    intro x hx hset
    refine (he.frame hb hlen ?_ hset).trans (hI.outside x hx hset)
    have := hI.base_le hb
    omega
  boundary := by
    intro hsd
    obtain ⟨hsd', hbase⟩ := hI.boundary hsd
    have hin := he.sdInstalled hb hlen hsd'
    exact ⟨by simpa [isSdExisted] using hin.magic, hin.regionStart.trans hbase⟩
  validated := by
    intro hv
    rcases he.verdict with ⟨h1, h2, h3⟩ | ⟨-, -, -, -, stop, hfin, hstart⟩
    · simp only [h1] at hv
      simp only [h2, h3]
      exact (hI.validated hv).step hI.contents he hlen
    · simp only [hstart]
      exact (hI.contents.effect he hb hlen).finalized (boundaryOk_start hb) hfin

theorem AppInv.step (hI : AppInv cfg m₀ s) (hok : boundedOk cfg s e) :
    AppInv cfg m₀ (appStep cfg s e) := by
  obtain ⟨hk, hb⟩ := hok
  unfold kindOk at hk
  unfold appStep at hk ⊢
  rcases writeBlock_effect cfg e.lba e.sector s.cache s.flash hI.counters.toDims with
      ⟨out, hout, ⟨-, -, hboot⟩ | he⟩ | ⟨-, hlt⟩
  · rw [hout] at hk
    exact absurd hboot hk
  · rw [hout]
    exact hI.effect he hb (payload_length e.sector)
  · have := boundaryOk_le hb
    omega

/-- After an abort, calls return at once. -/
theorem foldl_aborted (h : s.ws.aborted = true) (es : List SectorWrite) :
    (es.foldl (appStep cfg) s).ws = s.ws ∧ (es.foldl (appStep cfg) s).flash = s.flash := by
  induction es generalizing s with
  | nil => exact ⟨rfl, rfl⟩
  | cons e es ih =>
    have hstep : (appStep cfg s e).ws = s.ws ∧ (appStep cfg s e).flash = s.flash := by
      simp [appStep, writeBlock, h]
    obtain ⟨h1, h2⟩ := ih (s := appStep cfg s e) (by rw [hstep.1]; exact h)
    rw [List.foldl_cons]
    exact ⟨h1.trans hstep.1, h2.trans hstep.2⟩

/-- What the session guarantees, with `ok` the events to come. -/
structure SessionOk (cfg : Config) (ok : AppSession → SectorWrite → Prop) (m₀ : Mem)
    (s : AppSession) : Prop where
  numWritten_eq : s.ws.numWritten = popcount s.ws.writtenMask
  numWritten_le : s.ws.numWritten ≤ s.ws.numBlocks
  inBounds : s.fault = false
  replayed : s.flash = replay s.trace m₀
  settings_first : s.trace = [] ∨ ∃ rest, s.trace = invalidateAppSettings ++ rest ∧
    ∀ op ∈ rest, userFlashStart ≤ op.start ∧ op.stop ≤ userFlashEnd
  erased_once : ∀ x, InUser x → s.trace.countP (FlashOp.erasesAt x) ≤ 1
  erased_first : ErasedFirst InUser s.trace
  programmed_once : ∀ x, InUser x → s.trace.countP (FlashOp.programsAt x) ≤ 1
  outside : ∀ x, x < dfuBank0RegionStart m₀ ∨ userFlashEnd ≤ x → ¬InSettingsWord x →
    s.flash x = m₀ x
  below_boundary : ∀ e, ok s e → ∀ x, x < dfuBank0RegionStart s.flash →
    (appStep cfg s e).flash x = s.flash x
  aborted_final : s.ws.aborted = true → ∀ es : List SectorWrite,
    (es.foldl (appStep cfg) s).ws = s.ws ∧ (es.foldl (appStep cfg) s).flash = s.flash
  one_payload : s.accepted.Pairwise fun b b' => b.targetAddr ≠ b'.targetAddr
  validated : s.ws.appValidated = true →
    ImageOk cfg s.ws.appStart s.ws.appSize s.flash s.accepted

/-- Nothing below the current boundary is changed. -/
theorem AppInv.below_boundary (hI : AppInv cfg m₀ s) (hok : boundedOk cfg s e) {x : Nat}
    (hx : x < dfuBank0RegionStart s.flash) : (appStep cfg s e).flash x = s.flash x := by
  obtain ⟨hk, hb⟩ := hok
  have hle := boundaryOk_le hb
  unfold kindOk at hk
  unfold appStep at hk ⊢
  rcases writeBlock_effect cfg e.lba e.sector s.cache s.flash hI.counters.toDims with
    ⟨out, hout, ⟨-, -, hboot⟩ | he⟩ | ⟨-, hlt⟩
  · rw [hout] at hk
    exact absurd hboot hk
  · rw [hout]
    refine he.frame hb (payload_length e.sector) (.inl hx) fun h => ?_
    have h1 := h.1
    have hs : bootloaderSettingsAddress = 0xFF000 := rfl
    have hend : userFlashEnd = 0xEA000 := rfl
    omega
  · omega

/-- Every application session keeps its guarantees as long as each call finds a
boundary of user flash. -/
theorem uf2_appSession_ok (hrun : Reach (appStep cfg) (boundedOk cfg) (appInit c m₀) es s) :
    SessionOk cfg (boundedOk cfg) m₀ s := by
  have hI : AppInv cfg m₀ s := hrun.invariant (appInv_init cfg c m₀) fun s e hI hok => hI.step hok
  refine ⟨hI.counters.count, hI.counters.numWritten_le, hI.inBounds, hI.replayed, ?_, ?_,
    hI.order.erasedFirst, ?_, hI.outside, fun e hok x hx => hI.below_boundary hok hx,
    foldl_aborted, hI.contents.distinct, hI.validated⟩
  · cases hs : s.ws.appSettingsInvalidated with
    | false => exact .inl (hI.order.quiet hs)
    | true => exact .inr (hI.order.cleared hs)
  · intro x hx
    rw [hI.order.erased x hx]
    exact Bool.toNat_le _
  · intro x hx
    exact (hI.order.programmed x hx).trans (Bool.toNat_le _)

/-! ## Two runs -/

theorem sampleName_length : (List.replicate 16 0x41 : List Byte).length = 16 :=
  List.length_replicate

def sampleConfig : Config where
  chip := ⟨256⟩
  board :=
    { boardId := 0x239A0029
      deviceName := List.replicate 16 0x41
      deviceName_length := sampleName_length
      softdeviceFamily := 0x8C
      recoveryAllowAllBoards := false }
  currentFirstLba := 0
  currentSectors := 0
  guardLiveApp := false

theorem sector_length (target blockNo numBlocks family : Nat) (payload : List Byte) :
    (put32 0x0A324655 ++ put32 0x9E5D5157 ++ put32 0x2000 ++ put32 target ++ put32 256 ++
      put32 blockNo ++ put32 numBlocks ++ put32 family ++
      (payload ++ List.replicate 476 0).take 476 ++ put32 0x0AB16F30).length = 512 := by
  have hp : ∀ n, (put32 n).length = 4 := fun _ => rfl
  simp only [List.length_append, List.length_take, List.length_replicate, hp]
  omega

/-- A sector with one block of the application family. -/
def appSector (target blockNo numBlocks : Nat) (payload : List Byte) : Sector where
  bytes := put32 0x0A324655 ++ put32 0x9E5D5157 ++ put32 0x2000 ++ put32 target ++ put32 256 ++
    put32 blockNo ++ put32 numBlocks ++ put32 familyAppId ++
    (payload ++ List.replicate 476 0).take 476 ++ put32 0x0AB16F30
  length_eq := by exact sector_length target blockNo numBlocks familyAppId payload

/-- The same sector, offered until it is taken. -/
def offered (s : Sector) : List SectorWrite := [⟨100, s⟩, ⟨100, s⟩, ⟨100, s⟩]

/-- Flash with a SoftDevice that ends at `0x26000`. -/
def sdFlash : Mem := fun a =>
  if 0x3004 ≤ a ∧ a < 0x300C then (put32 sdMagicNumber ++ put32 0x26000).getD (a - 0x3004) 0
  else 0xFF

/-- An image of one block behind the SoftDevice. -/
def imageSector : Sector := appSector 0x26000 0 1 (put32 0x20001000 ++ put32 0x26009)

def boundedOkb (cfg : Config) (s : AppSession) (e : SectorWrite) : Bool :=
  (appStep cfg s e).ws.updateKind != .bootloader && boundaryOk s.flash

/-- The one-block image is validated, and with it what the session guarantees. -/
theorem uf2_appSession_oneBlock :
    let s := (offered imageSector).foldl (appStep sampleConfig) (appInit {} sdFlash)
    s.ws.appValidated = true ∧ SessionOk sampleConfig (boundedOk sampleConfig) sdFlash s := by
  refine ⟨by decide +kernel, uf2_appSession_ok (Reach.of_allowed (boundedOkb sampleConfig) ?_ ?_)⟩
  · intro s e h
    rw [boundedOkb, Bool.and_eq_true, bne_iff_ne] at h
    exact h
  · decide +kernel

/-- Flash without a SoftDevice; RAM reads as zero. -/
def bareFlash : Mem := fun a => if a < 0x100000 then 0xFF else 0

/-- A block that leaves a SoftDevice header with an end beyond flash. -/
def headerSector : Sector :=
  appSector 0x3000 0 2 (put32 0 ++ put32 sdMagicNumber ++ put32 0xFFFFF000)

/-- A block whose target is RAM. -/
def ramSector : Sector := appSector 0x20010000 1 2 []

def headerRun : List SectorWrite := offered headerSector ++ [⟨101, ramSector⟩]

/-- Without a SoftDevice the host writes the word the boundary is read from: the
commit of a target above user flash then misses the bounds of the target mask. -/
theorem uf2_appSession_headerRun :
    ¬ ∀ (cfg : Config) (c : FlashCache) (m₀ : Mem) (es : List SectorWrite) (s : AppSession),
      Reach (appStep cfg) (kindOk cfg) (appInit c m₀) es s → SessionOk cfg (kindOk cfg) m₀ s := by
  intro hall
  have hrun : Reach (appStep sampleConfig) (kindOk sampleConfig) (appInit {} bareFlash) headerRun
      (headerRun.foldl (appStep sampleConfig) (appInit {} bareFlash)) :=
    Reach.of_allowed (fun s e => (appStep sampleConfig s e).ws.updateKind != .bootloader)
      (fun s e h => bne_iff_ne.mp h) (by decide +kernel)
  exact absurd (hall _ _ _ _ _ hrun).inBounds (by decide +kernel)

end OtaFix.Uf2
