import OtaFix.Uf2.AppEffect

/-!
# Counters and order

What a call of `write_block` keeps in an application session: the written mask
counts the blocks, the settings word is cleared before anything else, a page is
erased once and before its bytes are programmed, and a byte is programmed once.
-/

namespace OtaFix.Uf2

open Lib Lib.BitMask

variable {cfg : Config} {b : Block} {ws ws' : WriteState} {m : Mem} {ops : List FlashOp}
  {committed : Bool}

/-! ## Operations -/

/-- An operation inside user flash. -/
structure UserOp (op : FlashOp) : Prop where
  user_le : userFlashStart ≤ op.start
  stop_le : op.stop ≤ userFlashEnd

theorem flashNrf5xErase_page (a : Nat) :
    flashNrf5xErase a codePageSize = [.erase (pageOf a) codePageSize] := by
  have : pageCount codePageSize = 1 := rfl
  simp [flashNrf5xErase, this]

theorem UserOp.erase (hp : Programs b m) : UserOp (.erase (pageOf b.targetAddr) codePageSize) := by
  have h1 := hp.user_le
  have h2 := hp.lt_end
  have he : userFlashEnd = 0xEA000 := rfl
  have hs : userFlashStart = 0x1000 := rfl
  refine ⟨?_, ?_⟩ <;> simp only [FlashOp.start, FlashOp.stop, pageOf] <;>
    rw [show codePageSize = 0x1000 from rfl] <;> omega

theorem UserOp.program (hp : Programs b m) (hlen : b.payload.length = blockSize)
    (hal : b.targetAddr % blockSize = 0) {op : FlashOp}
    (h : op ∈ wordsWrite b.targetAddr b.payload) : UserOp op := by
  have h1 := mem_wordsWrite h
  have h2 := hp.user_le
  have h3 := hp.lt_end
  have he : userFlashEnd = 0xEA000 := rfl
  rw [hlen] at h1
  rw [show blockSize = 256 from rfl] at h1 hal
  exact ⟨by omega, by omega⟩

/-- Every operation of a call clears the settings word or stays in user flash. -/
theorem AppEffect.ops_user (h : AppEffect cfg b ws m ws' ops committed)
    (hlen : b.payload.length = blockSize) :
    (ops = invalidateAppSettings ∧ ws.appSettingsInvalidated = false ∧
        ws'.appSettingsInvalidated = true) ∨ ∀ op ∈ ops, UserOp op := by
  cases h with
  | idle => exact .inr fun op h => by cases h
  | invalidate hf hs => exact .inl ⟨rfl, hs, rfl⟩
  | erase hf hp hs hbit hset =>
    right
    rw [flashNrf5xErase_page]
    intro op hop
    rw [List.mem_singleton.mp hop]
    exact .erase hp
  | commit hf hfree htm hwm hops =>
    right
    rcases hops with ⟨hp, -, -, rfl⟩ | ⟨-, rfl⟩ | ⟨-, -, -, rfl⟩
    · intro op hop
      exact .program hp hlen (hfree hp.lt_end).1 hop
    · exact fun op h => by cases h
    · exact fun op h => by cases h

/-- From a page boundary on, no operation of a call reaches below it. -/
theorem AppEffect.ops_base (h : AppEffect cfg b ws m ws' ops committed)
    (hb : boundaryOk m = true) {op : FlashOp} (hop : op ∈ ops) :
    dfuBank0RegionStart m ≤ op.start := by
  cases h with
  | idle => cases hop
  | invalidate =>
    have hle := boundaryOk_le hb
    have he : userFlashEnd = 0xEA000 := rfl
    have hs : bootloaderSettingsAddress = 0xFF000 := rfl
    rw [List.mem_singleton.mp hop]
    simp only [FlashOp.start]
    omega
  | erase hf hp hs hbit hset =>
    have h1 := boundaryOk_aligned hb
    have h2 := hp.app_le
    rw [flashNrf5xErase_page, List.mem_singleton] at hop
    rw [hop]
    simp only [FlashOp.start, pageOf]
    rw [show codePageSize = 0x1000 from rfl] at *
    omega
  | commit hf hfree htm hwm hops =>
    rcases hops with ⟨hp, -, -, rfl⟩ | ⟨-, rfl⟩ | ⟨-, -, -, rfl⟩
    · exact hp.app_le.trans (mem_wordsWrite hop).1
    · cases hop
    · cases hop

/-- The vector words `write_block` hands to the final check. -/
def vectorWord (m : Mem) (appStart off : Nat) : Nat :=
  if appStart < userFlashEnd then readWord m (appStart + off) else 0

/-- The end of a transfer rejects it or records the range that passed the check. -/
theorem finishState_cases (cfg : Config) (ws : WriteState) (appStart : Nat) (m : Mem) :
    finishState cfg ws appStart m = ws ∨
    finishState cfg ws appStart m = { ws with aborted := true } ∨
    ∃ size, applicationFinalize ws.targetMask appStart ws.appMaximumWrittenEnd
        (vectorWord m appStart 0) (vectorWord m appStart 4) cfg.chip.ramEnd = some size ∧
      ws.appSettingsInvalidated = true ∧ ws.numBlocks ≤ ws.numWritten ∧
      finishState cfg ws appStart m =
        { ws with appSize := size, appStart := appStart, appValidated := true } := by
  unfold finishState
  by_cases hn : ws.numBlocks ≤ ws.numWritten
  · right
    rw [if_pos hn]
    unfold finalizeApplication
    cases hs : ws.appSettingsInvalidated
    · exact .inl rfl
    cases hfin : applicationFinalize ws.targetMask appStart ws.appMaximumWrittenEnd
        (vectorWord m appStart 0) (vectorWord m appStart 4) cfg.chip.ramEnd with
    | none =>
      left
      simp only [vectorWord, Nat.add_zero] at hfin
      simp [hfin]
    | some size =>
      refine .inr ⟨size, rfl, rfl, hn, ?_⟩
      simp only [vectorWord, Nat.add_zero] at hfin
      simp [hfin]
  · exact .inl (if_neg hn)

/-- Validation writes the verdict and nothing else. -/
theorem finishState_eq (cfg : Config) (ws : WriteState) (appStart : Nat) (m : Mem) :
    ∃ ab size start v, finishState cfg ws appStart m =
      { ws with aborted := ab, appSize := size, appStart := start, appValidated := v } := by
  rcases finishState_cases cfg ws appStart m with h | h | ⟨size, -, -, -, h⟩
  · exact ⟨ws.aborted, ws.appSize, ws.appStart, ws.appValidated, h⟩
  · exact ⟨true, ws.appSize, ws.appStart, ws.appValidated, h⟩
  · exact ⟨ws.aborted, size, appStart, true, h⟩

/-! ## Counters -/

structure Counters (ws : WriteState) : Prop extends Dims ws where
  count : ws.numWritten = popcount ws.writtenMask
  range : ∀ k, bit ws.writtenMask k = true → k < ws.numBlocks
  bounded : ws.numBlocks ≤ maxBlocks

theorem Counters.numWritten_le (h : Counters ws) : ws.numWritten ≤ ws.numBlocks := by
  rw [h.count]
  exact popcount_le h.range

theorem counters_fresh : Counters {} where
  written := by simp
  target := by simp
  erased := by simp
  count := (popcount_replicate _).symm
  range := fun k hk => by
    have hbit := bit_replicate (maxBlocks / 8 + 1) k
    rw [show bit (List.replicate _ 0#8) k = true from hk] at hbit
    cases hbit
  bounded := Nat.zero_le _

/-- The written blocks stay in range when the geometry is latched. -/
theorem Counters.latched (h : Counters ws) {n : Nat} (hn : ws.numBlocks = 0 ∨ ws.numBlocks = n)
    (k : Nat) (hk : bit ws.writtenMask k = true) : k < n := by
  have := h.range k hk
  omega

theorem Counters.effect (h : Counters ws) (he : AppEffect cfg b ws m ws' ops committed) :
    Counters ws' := by
  cases he with
  | @idle n kind ab hn hkind hab =>
    have hle : n ≤ maxBlocks := by
      have := h.bounded
      omega
    have hn0 : ws.numBlocks = 0 ∨ ws.numBlocks = n := by omega
    exact { h with range := h.latched hn0, bounded := hle }
  | invalidate hf hs =>
    exact { h with range := h.latched hf.numBlocks_eq, bounded := hf.numBlocks_le }
  | erase hf hp hs hbit hset =>
    exact { h with
      erased := (setBit?_length hset).trans h.erased
      range := h.latched hf.numBlocks_eq
      bounded := hf.numBlocks_le }
  | commit hf hfree htm hwm hops =>
    obtain ⟨ab, size, start, v, heq⟩ := finishState_eq cfg
      (commitState ws b (dfuBank0RegionStart m) _ _) (dfuBank0RegionStart m) (replay ops m)
    rw [heq]
    refine ⟨⟨(setBit?_length hwm).trans h.written, (setBit?_length htm).trans h.target, h.erased⟩,
      ?_, ?_, hf.numBlocks_le⟩
    · have hle : popcount ws.writtenMask ≤ maxBlocks :=
        h.count ▸ h.numWritten_le.trans h.bounded
      have hmax : maxBlocks = 4196 := rfl
      simp only [commitState, latch]
      rw [popcount_setBit? hwm hf.unwritten, h.count]
      exact add32_eq (by omega)
    · intro k hk
      simp only [commitState, latch, bit_setBit? hwm, Bool.or_eq_true, beq_iff_eq] at hk
      rcases hk with hk | rfl
      · exact h.latched hf.numBlocks_eq k hk
      · exact hf.blockNo_lt

/-! ## The verdict -/

/-- What a call leaves of the verdict: the old one, or one on the transfer it ends. -/
theorem AppEffect.verdict (he : AppEffect cfg b ws m ws' ops committed) :
    (ws'.appValidated = ws.appValidated ∧ ws'.appStart = ws.appStart ∧ ws'.appSize = ws.appSize) ∨
    (ws'.appValidated = true ∧ ws'.updateKind = .application ∧ 0 < ws'.numBlocks ∧
      ws'.numBlocks ≤ ws'.numWritten ∧ ∃ stop,
        applicationFinalize ws'.targetMask (dfuBank0RegionStart m) stop
          (vectorWord (replay ops m) (dfuBank0RegionStart m) 0)
          (vectorWord (replay ops m) (dfuBank0RegionStart m) 4) cfg.chip.ramEnd = some ws'.appSize ∧
        ws'.appStart = dfuBank0RegionStart m) := by
  cases he with
  | idle => exact .inl ⟨rfl, rfl, rfl⟩
  | invalidate => exact .inl ⟨rfl, rfl, rfl⟩
  | erase => exact .inl ⟨rfl, rfl, rfl⟩
  | commit hf hfree htm hwm hops =>
    rcases finishState_cases cfg (commitState ws b (dfuBank0RegionStart m) _ _)
        (dfuBank0RegionStart m) (replay ops m) with h | h | ⟨size, hfin, -, hn, h⟩
    · rw [h]
      exact .inl ⟨rfl, rfl, rfl⟩
    · rw [h]
      exact .inl ⟨rfl, rfl, rfl⟩
    · rw [h]
      have hpos : 0 < b.numBlocks := Nat.zero_lt_of_lt hf.blockNo_lt
      exact .inr ⟨rfl, rfl, hpos, hn, _, hfin, rfl⟩

/-- Once every block is written there is none left to accept. -/
theorem AppEffect.of_full (he : AppEffect cfg b ws m ws' ops committed) (h : Counters ws)
    (hpos : 0 < ws.numBlocks) (hfull : ws.numBlocks ≤ ws.numWritten) :
    ops = [] ∧ ∃ kind ab, Latches ws kind ∧
      ws' = { ws with updateKind := kind, aborted := ab } := by
  have hnone : ¬Fresh ws b .application := by
    intro hf
    have hlt : b.blockNo < ws.numBlocks := by
      have h1 := hf.numBlocks_eq
      have h2 := hf.blockNo_lt
      omega
    have hbit := bit_of_popcount h.range (h.count ▸ hfull) hlt
    rw [hf.unwritten] at hbit
    cases hbit
  cases he with
  | @idle n kind ab hn hkind hab =>
    obtain rfl : n = ws.numBlocks := by omega
    exact ⟨rfl, kind, ab, hkind, rfl⟩
  | invalidate hf => exact absurd hf hnone
  | erase hf => exact absurd hf hnone
  | commit hf => exact absurd hf hnone

theorem applicationFinalize_end {mask : List Byte} {start stop sp reset ramEnd size : Nat}
    (h : applicationFinalize mask start stop sp reset ramEnd = some size) :
    start + size ≤ userFlashEnd ∧ 0 < size := by
  unfold applicationFinalize at h
  split at h
  · cases h
  rename_i hrange
  simp only at h
  split at h
  · cases h
  obtain rfl := Option.some.inj h
  simp only [not_or] at hrange
  omega

theorem AppEffect.kind (he : AppEffect cfg b ws m ws' ops committed) :
    Latches ws ws'.updateKind := by
  cases he with
  | idle hn hkind => exact hkind
  | invalidate hf => exact hf.latches
  | erase hf => exact hf.latches
  | commit hf =>
    obtain ⟨ab, size, start, v, heq⟩ := finishState_eq cfg
      (commitState ws b (dfuBank0RegionStart m) _ _) (dfuBank0RegionStart m) (replay ops m)
    rw [heq]
    exact hf.latches

/-! ## Order of erases and programs -/

/-- The page of user flash that holds `x`. -/
def appPage (x : Nat) : Nat := (x - userFlashStart) / codePageSize

def InUser (x : Nat) : Prop := userFlashStart ≤ x ∧ x < userFlashEnd

structure TraceInv (ws : WriteState) (trace : List FlashOp) : Prop where
  quiet : ws.appSettingsInvalidated = false → trace = []
  cleared : ws.appSettingsInvalidated = true → ∃ rest, trace = invalidateAppSettings ++ rest ∧
    ∀ op ∈ rest, userFlashStart ≤ op.start ∧ op.stop ≤ userFlashEnd
  erased : ∀ x, InUser x →
    trace.countP (FlashOp.erasesAt x) = (bit ws.appErasedMask (appPage x)).toNat
  programmed : ∀ x, InUser x →
    trace.countP (FlashOp.programsAt x) ≤ (bit ws.targetMask (x / blockSize)).toNat
  erasedFirst : ErasedFirst InUser trace

theorem traceInv_fresh : TraceInv {} [] where
  quiet := fun _ => rfl
  cleared := fun h => by cases h
  erased := fun x _ => (congrArg Bool.toNat (bit_replicate _ _)).symm
  programmed := fun x _ => Nat.zero_le _
  erasedFirst := by
    intro pre op post x h
    cases pre <;> cases h

theorem settings_not_user {x : Nat} (h : InUser x) :
    (FlashOp.program bootloaderSettingsAddress [0, 0, 0, 0]).programsAt x = false := by
  have h2 := h.2
  have he : userFlashEnd = 0xEA000 := rfl
  have hb : bootloaderSettingsAddress = 0xFF000 := rfl
  simp only [FlashOp.programsAt, Bool.and_eq_false_iff, decide_eq_false_iff_not]
  omega

/-- The bytes of a page erase are those of its page. -/
theorem erasesAt_page {x : Nat} (hx : InUser x) (hp : Programs b m) :
    (FlashOp.erase (pageOf b.targetAddr) codePageSize).erasesAt x = (b.page == appPage x) := by
  have h1 := hx.1
  have h2 := hp.user_le
  have hs : userFlashStart = 0x1000 := rfl
  rw [Bool.eq_iff_iff]
  simp only [FlashOp.erasesAt, Bool.and_eq_true, decide_eq_true_eq, beq_iff_eq]
  unfold Block.page appPage pageOf
  rw [show codePageSize = 0x1000 from rfl]
  omega

/-- Only the erase action erases, and it erases the page it marks. -/
theorem AppEffect.erasesAt (h : AppEffect cfg b ws m ws' ops committed) {x : Nat} (hx : InUser x) :
    (bit ws'.appErasedMask (appPage x)).toNat =
      (bit ws.appErasedMask (appPage x)).toNat + ops.countP (FlashOp.erasesAt x) := by
  cases h with
  | idle => rfl
  | invalidate => rfl
  | erase hf hp hs hbit hset =>
    rw [flashNrf5xErase_page, List.countP_singleton, erasesAt_page hx hp]
    simp only [bit_setBit? hset]
    by_cases hpx : b.page = appPage x
    · rw [← hpx, hbit]
      simp
    · rw [beq_false_of_ne hpx]
      simp
  | commit hf hfree htm hwm hops =>
    have hcount : ops.countP (FlashOp.erasesAt x) = 0 := by
      rcases hops with ⟨-, -, -, rfl⟩ | ⟨-, rfl⟩ | ⟨-, -, -, rfl⟩
      · exact countP_erasesAt_wordsWrite x _ _
      · rfl
      · rfl
    obtain ⟨ab, size, start, v, heq⟩ := finishState_eq cfg
      (commitState ws b (dfuBank0RegionStart m) _ _) (dfuBank0RegionStart m) (replay ops m)
    rw [heq, hcount]
    rfl

/-- The bytes of a target are those of its 256-byte slot. -/
theorem slot_iff {a x : Nat} (hal : a % blockSize = 0) :
    (a ≤ x ∧ x < a + blockSize) ↔ a / blockSize = x / blockSize := by
  rw [show blockSize = 256 from rfl] at *
  omega

/-- A byte is programmed with its target's commit. -/
theorem AppEffect.programsAt (h : AppEffect cfg b ws m ws' ops committed)
    (hlen : b.payload.length = blockSize) {x : Nat} (hx : InUser x) :
    (bit ws.targetMask (x / blockSize)).toNat + ops.countP (FlashOp.programsAt x) ≤
      (bit ws'.targetMask (x / blockSize)).toNat := by
  cases h with
  | idle => exact Nat.le_refl _
  | invalidate =>
    rw [invalidateAppSettings, List.countP_singleton, settings_not_user hx]
    exact Nat.le_refl _
  | erase =>
    rw [flashNrf5xErase_page]
    exact Nat.le_refl _
  | @commit tm wm ops hf hfree htm hwm hops =>
    obtain ⟨ab, size, start, v, heq⟩ := finishState_eq cfg
      (commitState ws b (dfuBank0RegionStart m) tm wm) (dfuBank0RegionStart m) (replay ops m)
    rw [heq]
    simp only [commitState, latch, bit_setBit? htm]
    rcases hops with ⟨hp, -, -, rfl⟩ | ⟨-, rfl⟩ | ⟨-, -, -, rfl⟩
    · obtain ⟨hal, hfree⟩ := hfree hp.lt_end
      have hcount := countP_programsAt_wordsWrite x b.targetAddr b.payload
      rw [hlen] at hcount
      by_cases hslot : b.targetAddr / blockSize = x / blockSize
      · rw [decide_eq_true ((slot_iff hal).mpr hslot)] at hcount
        rw [← hslot, hfree]
        simpa using hcount
      · rw [decide_eq_false fun h => hslot ((slot_iff hal).mp h)] at hcount
        have : (b.targetAddr / blockSize == x / blockSize) = false := beq_false_of_ne hslot
        rw [this, Bool.or_false]
        exact Nat.add_le_add_left hcount _
    · cases bit ws.targetMask (x / blockSize) <;> simp
    · cases bit ws.targetMask (x / blockSize) <;> simp

theorem AppEffect.invalidated (h : AppEffect cfg b ws m ws' ops committed) :
    ws'.appSettingsInvalidated = true ∧ ops = invalidateAppSettings ∧
        ws.appSettingsInvalidated = false ∨
      ws'.appSettingsInvalidated = ws.appSettingsInvalidated ∧
        (ws.appSettingsInvalidated = false → ops = []) := by
  cases h with
  | idle => exact .inr ⟨rfl, fun _ => rfl⟩
  | invalidate hf hs => exact .inl ⟨rfl, rfl, hs⟩
  | erase hf hp hs => exact .inr ⟨rfl, fun h => by rw [hs] at h; cases h⟩
  | commit hf hfree htm hwm hops =>
    obtain ⟨ab, size, start, v, heq⟩ := finishState_eq cfg
      (commitState ws b (dfuBank0RegionStart m) _ _) (dfuBank0RegionStart m) (replay ops m)
    rw [heq]
    refine .inr ⟨rfl, fun h => ?_⟩
    rcases hops with ⟨-, hs, -⟩ | ⟨-, hops⟩ | ⟨-, -, -, hops⟩
    · rw [hs] at h
      cases h
    · exact hops
    · exact hops

/-- A programmed byte lies in a page already erased. -/
theorem AppEffect.programs_erased (h : AppEffect cfg b ws m ws' ops committed)
    (hlen : b.payload.length = blockSize) {op : FlashOp} (hop : op ∈ ops) {x : Nat}
    (hpr : op.programsAt x = true) (hx : InUser x) : bit ws.appErasedMask (appPage x) = true := by
  cases h with
  | idle => cases hop
  | invalidate =>
    rw [invalidateAppSettings, List.mem_singleton] at hop
    rw [hop, settings_not_user hx] at hpr
    cases hpr
  | erase =>
    rw [flashNrf5xErase_page, List.mem_singleton] at hop
    rw [hop] at hpr
    cases hpr
  | commit hf hfree htm hwm hops =>
    rcases hops with ⟨hp, -, hbit, rfl⟩ | ⟨-, rfl⟩ | ⟨-, -, -, rfl⟩
    · have hrange := programsAt_wordsWrite hop hpr
      obtain ⟨hal, -⟩ := hfree hp.lt_end
      have hpage : appPage x = b.page := by
        have h1 := hp.user_le
        have hs : userFlashStart = 0x1000 := rfl
        rw [hlen] at hrange
        rw [show blockSize = 256 from rfl] at hrange hal
        unfold appPage Block.page
        rw [show codePageSize = 0x1000 from rfl]
        omega
      rw [hpage]
      exact hbit
    · cases hop
    · cases hop

theorem TraceInv.effect {trace : List FlashOp} (h : TraceInv ws trace)
    (he : AppEffect cfg b ws m ws' ops committed) (hlen : b.payload.length = blockSize) :
    TraceInv ws' (trace ++ ops) := by
  refine ⟨?_, ?_, fun x hx => ?_, fun x hx => ?_, ?_⟩
  · intro hs
    rcases he.invalidated with ⟨h', -⟩ | ⟨heq, hops⟩
    · rw [h'] at hs
      cases hs
    · rw [heq] at hs
      rw [h.quiet hs, hops hs]
      rfl
  · intro hs
    rcases he.invalidated with ⟨-, hops, hq⟩ | ⟨heq, -⟩
    · rw [h.quiet hq, hops]
      exact ⟨[], by simp, fun op hop => by cases hop⟩
    · rw [heq] at hs
      obtain ⟨rest, rfl, hrest⟩ := h.cleared hs
      rcases he.ops_user hlen with ⟨-, hq, -⟩ | hin
      · rw [hq] at hs
        cases hs
      · refine ⟨rest ++ ops, List.append_assoc _ _ _, fun op hop => ?_⟩
        rcases List.mem_append.mp hop with hop | hop
        · exact hrest op hop
        · exact ⟨(hin op hop).user_le, (hin op hop).stop_le⟩
  · rw [List.countP_append, h.erased x hx, he.erasesAt hx]
  · rw [List.countP_append]
    exact (Nat.add_le_add_right (h.programmed x hx) _).trans (he.programsAt hlen hx)
  · refine h.erasedFirst.append fun op hop x hpr hx => ?_
    -- the mask bit of the page stands for an erase already in the trace
    have hcount := h.erased x hx
    rw [he.programs_erased hlen hop hpr hx] at hcount
    have hpos : 0 < trace.countP (FlashOp.erasesAt x) := by rw [hcount]; decide
    obtain ⟨o, ho, hox⟩ := List.countP_pos_iff.mp hpos
    exact ⟨o, ho, hox⟩

end OtaFix.Uf2
