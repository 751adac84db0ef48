import OtaFix.Uf2.Completion
import OtaFix.Uf2.Interrupted

/-!
# Staging a bootloader

A session of the bootloader family erases the staging area a page a call, writes
the blocks through the page cache, and asks the MBR to copy the staged image when
the transfer is complete. Over any run of one session the flash operations are
the erases of the staging pages, in order, and then programs inside them; the
copy is requested only of a complete transfer that passed the image policy.
-/

namespace OtaFix.Uf2

open Lib Lib.BitMask

/-! ## The staging area -/

def stagingPages : Nat := dfuBlImageMaxSize / codePageSize

/-- The first `k` erases of `erase_bootloader_staging`. -/
def stagingErases (k : Nat) : List FlashOp :=
  (List.range k).map fun i => .erase (bootloaderAddrNewReceived + i * codePageSize) codePageSize

/-- A program inside the staging area. -/
def StagingProgram (op : FlashOp) : Prop :=
  (∃ a d, op = .program a d) ∧ bootloaderAddrNewReceived ≤ op.start ∧
    op.stop ≤ bootloaderAddrNewReceived + dfuBlImageMaxSize

/-- The operations of a staging session: pages erased in order and, once all are,
programs inside them. -/
def StagingTrace (ops : List FlashOp) : Prop :=
  ∃ k ≤ stagingPages, ∃ programs, ops = stagingErases k ++ programs ∧
    (∀ op ∈ programs, StagingProgram op) ∧ (programs ≠ [] → k = stagingPages)

theorem stagingErases_succ (k : Nat) : stagingErases (k + 1) = stagingErases k ++
    flashNrf5xErase (bootloaderAddrNewReceived + k * codePageSize) codePageSize := by
  have hpage : pageOf (bootloaderAddrNewReceived + k * codePageSize) =
      bootloaderAddrNewReceived + k * codePageSize := by
    have hb : bootloaderAddrNewReceived = 0xE0000 := rfl
    unfold pageOf
    rw [show codePageSize = 0x1000 from rfl]
    omega
  have hone : flashNrf5xErase (bootloaderAddrNewReceived + k * codePageSize) codePageSize =
      [.erase (bootloaderAddrNewReceived + k * codePageSize) codePageSize] := by
    unfold flashNrf5xErase
    rw [hpage, show List.range (pageCount codePageSize) = [0] from rfl]
    simp
  rw [stagingErases, List.range_succ, List.map_append, hone]
  rfl

/-- Every operation of a staging session stays in the area. -/
theorem StagingTrace.inside {ops : List FlashOp} (h : StagingTrace ops) {op : FlashOp}
    (hop : op ∈ ops) : bootloaderAddrNewReceived ≤ op.start ∧
      op.stop ≤ bootloaderAddrNewReceived + dfuBlImageMaxSize := by
  obtain ⟨k, hk, programs, rfl, hprograms, -⟩ := h
  rcases List.mem_append.mp hop with hop | hop
  · rw [stagingErases, List.mem_map] at hop
    obtain ⟨i, hi, rfl⟩ := hop
    have hlt := List.mem_range.mp hi
    have hs : stagingPages = 10 := rfl
    have hm : dfuBlImageMaxSize = 0xA000 := rfl
    simp only [FlashOp.start, FlashOp.stop]
    rw [hm, show codePageSize = 0x1000 from rfl]
    omega
  · exact (hprograms op hop).2

theorem StagingTrace.spares {ops : List FlashOp} (h : StagingTrace ops) {x : Nat}
    (hx : x < bootloaderAddrNewReceived ∨ bootloaderAddrNewReceived + dfuBlImageMaxSize ≤ x) :
    Spares ops x := by
  intro op hop
  have := h.inside hop
  omega

/-! ## The page cache -/

/-- The cache is empty or holds a page of the staging area. -/
structure StagingCache (c : FlashCache) : Prop where
  aligned : ∀ p, c.addr = some p → p % codePageSize = 0
  length : ∀ p, c.addr = some p → c.buf.length = codePageSize
  inside : ∀ p, c.addr = some p → bootloaderAddrNewReceived ≤ p ∧
    p + codePageSize ≤ bootloaderAddrNewReceived + dfuBlImageMaxSize

variable {c : FlashCache} {m : Mem}

theorem StagingCache.of_none (h : c.addr = none) : StagingCache c := by
  constructor <;> intro p hp <;> rw [h] at hp <;> cases hp

theorem mem_wordsWrite_program {a : Nat} {d : List Byte} {op : FlashOp}
    (h : op ∈ wordsWrite a d) : ∃ a' d', op = .program a' d' := by
  induction a, d using wordsWrite.induct with
  | case1 a b0 b1 b2 b3 d ih =>
    rw [wordsWrite, List.mem_cons] at h
    rcases h with rfl | h
    · exact ⟨_, _, rfl⟩
    · exact ih h
  | case2 d a h4 =>
    rw [wordsWrite] at h
    · cases h
    · exact h4

theorem StagingCache.flush (h : StagingCache c) (m : Mem) :
    ∀ op ∈ (flashNrf5xFlush c m false).2, StagingProgram op := by
  intro op hop
  unfold flashNrf5xFlush at hop
  cases hp : c.addr with
  | none =>
    rw [hp] at hop
    cases hop
  | some p =>
    have hlen := h.length p hp
    have hin := h.inside p hp
    rw [hp] at hop
    simp only [Bool.false_eq_true, if_false, List.nil_append] at hop
    split at hop
    · cases hop
    · have hrange := mem_wordsWrite hop
      rw [hlen] at hrange
      exact ⟨mem_wordsWrite_program hop, by omega, by omega⟩

/-- One page of a write into the staging area. -/
theorem StagingCache.writePage (h : StagingCache c) (m : Mem) {dst : Nat} {src : List Byte}
    (hin : dst % codePageSize + src.length ≤ codePageSize)
    (hlo : bootloaderAddrNewReceived ≤ dst)
    (hhi : dst < bootloaderAddrNewReceived + dfuBlImageMaxSize) :
    StagingCache (writePage c m dst src false).1 ∧
      ∀ op ∈ (writePage c m dst src false).2, StagingProgram op := by
  have hload : StagingCache (loadPage c m dst false).1 ∧
      (loadPage c m dst false).1.buf.length = codePageSize ∧
      ∀ op ∈ (loadPage c m dst false).2, StagingProgram op := by
    unfold loadPage
    by_cases hp : c.addr = some (pageOf dst)
    · rw [if_pos hp]
      exact ⟨h, h.length _ hp, fun op hop => by cases hop⟩
    · rw [if_neg hp]
      simp only
      have hlen := slice_length (replay (flashNrf5xFlush c m false).2 m) (pageOf dst) codePageSize
      generalize slice (replay (flashNrf5xFlush c m false).2 m) (pageOf dst) codePageSize = buf at hlen
      refine ⟨⟨?_, fun _ _ => hlen, ?_⟩, hlen, h.flush m⟩
      · rintro p ⟨⟩
        exact pageOf_mod dst
      · rintro p ⟨⟩
        have hb : bootloaderAddrNewReceived = 0xE0000 := rfl
        have hm : dfuBlImageMaxSize = 0xA000 := rfl
        unfold pageOf
        rw [show codePageSize = 0x1000 from rfl]
        omega
  unfold OtaFix.writePage
  simp only
  generalize loadPage c m dst false = r at hload
  obtain ⟨hcache, hlen, hops⟩ := hload
  refine ⟨⟨hcache.aligned, fun p hp => ?_, hcache.inside⟩, hops⟩
  exact (memcpy_length (by rw [hlen]; exact hin)).trans hlen

theorem StagingCache.writeLoop (h : StagingCache c) (fuel : Nat) (m : Mem) {dst : Nat}
    {src : List Byte} (hlo : bootloaderAddrNewReceived ≤ dst)
    (hhi : dst + src.length ≤ bootloaderAddrNewReceived + dfuBlImageMaxSize) :
    StagingCache (writeLoop false fuel c m dst src).1 ∧
      ∀ op ∈ (writeLoop false fuel c m dst src).2, StagingProgram op := by
  induction fuel generalizing c m dst src with
  | zero => exact ⟨h, fun op hop => by cases hop⟩
  | succ fuel ih =>
    unfold OtaFix.writeLoop
    by_cases hnil : src = []
    · rw [if_pos hnil]
      exact ⟨h, fun op hop => by cases hop⟩
    rw [if_neg hnil]
    simp only
    have hpos : 0 < src.length := List.length_pos_iff.mpr hnil
    have hmod : dst % codePageSize < codePageSize := Nat.mod_lt _ (by decide)
    generalize hn : min (codePageSize - dst % codePageSize) src.length = n
    have hn2 : n ≤ src.length := by rw [← hn]; exact Nat.min_le_right _ _
    have hn3 : n ≤ codePageSize - dst % codePageSize := by rw [← hn]; exact Nat.min_le_left _ _
    have htake : (src.take n).length = n := by rw [List.length_take, Nat.min_eq_left hn2]
    have hroom : dst % codePageSize + (src.take n).length ≤ codePageSize := by
      rw [htake]
      omega
    obtain ⟨hfirst, hops⟩ := h.writePage m hroom hlo (by omega)
    generalize OtaFix.writePage c m dst (src.take n) false = r at hfirst hops
    have hleft : dst + n + (src.drop n).length ≤ bootloaderAddrNewReceived + dfuBlImageMaxSize := by
      rw [List.length_drop]
      omega
    obtain ⟨hrest, hops'⟩ := ih hfirst (replay r.2 m) (by omega) hleft
    refine ⟨hrest, fun op hop => ?_⟩
    rcases List.mem_append.mp hop with hop | hop
    · exact hops op hop
    · exact hops' op hop

/-! ## What a call does -/

variable {cfg : Config} {b : Block} {ws ws' : WriteState} {out : Outcome}

/-- A block with the expected UICR words. -/
structure UicrBlock (b : Block) : Prop where
  target : b.targetAddr = 0x10001000
  bootAddr : wordAt b.data 0x14 = bootloaderRegionStart
  mbrParam : wordAt b.data 0x18 = bootloaderMbrParamsPageAddress

/-- How an accepted block is staged: its UICR words are checked, its bytes written to the
erased area, or it is skipped. -/
inductive Stages (b : Block) (ws : WriteState) (c : FlashCache) (m : Mem) :
    Bool → FlashCache → List FlashOp → Prop where
  | uicr (h : UicrBlock b) : Stages b ws c m true c []
  | write (hlo : bootloaderRegionStart ≤ b.targetAddr)
      (hhi : b.targetAddr < bootloaderMbrParamsPageAddress)
      (herased : ws.bootloaderStagingErased = true) :
      Stages b ws c m ws.hasUicr
        (flashNrf5xWrite c m (bootloaderAddrNewReceived + (b.targetAddr - bootloaderRegionStart))
          b.payload false).1
        (flashNrf5xWrite c m (bootloaderAddrNewReceived + (b.targetAddr - bootloaderRegionStart))
          b.payload false).2
  | skip : Stages b ws c m ws.hasUicr c []

/-- The end of the transfer, if this block was the last. -/
def stageFinish (cfg : Config) (ws : WriteState) (c : FlashCache) (m : Mem) :
    WriteState × FlashCache × List FlashOp :=
  if ws.numBlocks ≤ ws.numWritten then finalizeBootloader cfg ws c m else (ws, c, [])

/-- A call in a session that is no application's: nothing but the latches, one page of the
staging area erased, or one block committed. -/
inductive StageEffect (cfg : Config) (b : Block) (ws : WriteState) (c : FlashCache) (m : Mem) :
    WriteState → FlashCache → List FlashOp → Bool → Prop where
  | idle {n : Nat} {kind : UpdateKind} {ab : Bool}
      (hn : n = ws.numBlocks ∨ ws.numBlocks = 0 ∧ n ≤ maxBlocks)
      (hkind : kind = ws.updateKind ∨ kind = .bootloader) (hab : ab = true ∨ ab = ws.aborted) :
      StageEffect cfg b ws c m { ws with numBlocks := n, updateKind := kind, aborted := ab } c []
        false
  | erase (hf : Fresh ws b .bootloader) (hopen : ws.bootloaderStagingErased = false)
      (hguard : cfg.guardLiveApp = true → ws.bootloaderEraseOffset = 0 →
        bootloaderAppIsValid cfg.chip m = true →
          otaDeltaLiveAppFitsBelow m bootloaderAddrNewReceived = true) :
      StageEffect cfg b ws c m
        { latch ws b .bootloader with
          bootloaderEraseOffset := ws.bootloaderEraseOffset + codePageSize
          bootloaderStagingErased := dfuBlImageMaxSize ≤ ws.bootloaderEraseOffset + codePageSize }
        c (flashNrf5xErase (bootloaderAddrNewReceived + ws.bootloaderEraseOffset) codePageSize)
        false
  | commit {wm : List Byte} {u : Bool} {c1 : FlashCache} {ops : List FlashOp} {w : WriteState}
      (hf : Fresh ws b .bootloader) (hal : b.targetAddr % blockSize = 0)
      (hwm : setBit? ws.writtenMask b.blockNo = some wm) (hst : Stages b ws c m u c1 ops)
      (hw : w = { latch ws b .bootloader with
        hasUicr := u, writtenMask := wm, numWritten := add32 ws.numWritten 1 }) :
      StageEffect cfg b ws c m (stageFinish cfg w c1 (replay ops m)).1
        (stageFinish cfg w c1 (replay ops m)).2.1
        (ops ++ (stageFinish cfg w c1 (replay ops m)).2.2) true

theorem StageEffect.abort (cfg : Config) (c : FlashCache) (m : Mem) (hf : Fresh ws b .bootloader) :
    StageEffect cfg b ws c m { latch ws b .bootloader with aborted := true } c [] false := by
  refine .idle ?_ (.inr rfl) (.inl rfl)
  rcases hf.numBlocks_eq with h | h
  · exact .inr ⟨h, hf.numBlocks_le⟩
  · exact .inl h.symm

theorem eraseBootloaderStaging_cases (cfg : Config) (c : FlashCache) (m : Mem)
    (hf : Fresh ws b .bootloader) :
    (ws.bootloaderStagingErased = true ∧
      eraseBootloaderStaging cfg (latch ws b .bootloader) m = none) ∨
    ∃ r, eraseBootloaderStaging cfg (latch ws b .bootloader) m = some r ∧
      StageEffect cfg b ws c m r.1 c r.2 false := by
  unfold eraseBootloaderStaging
  by_cases her : (latch ws b .bootloader).bootloaderStagingErased = true
  · rw [if_pos her]
    exact .inl ⟨her, rfl⟩
  rw [if_neg her]
  right
  split_ifs with hg
  · exact ⟨_, rfl, .abort cfg c m hf⟩
  · refine ⟨_, rfl, .erase hf (by simpa [latch] using her) fun h1 h2 h3 => ?_⟩
    simpa [latch, h1, h2, h3] using hg

/-- A bootloader block that is not stopped is staged; a stopped one is an abort or an erase. -/
theorem bootloaderBlock_cases (cfg : Config) (c : FlashCache) (m : Mem)
    (hf : Fresh ws b .bootloader) :
    (∃ r, (bootloaderBlock cfg b (latch ws b .bootloader) c m).stop = some r ∧
      StageEffect cfg b ws c m (bootloaderBlock cfg b (latch ws b .bootloader) c m).ws
        (bootloaderBlock cfg b (latch ws b .bootloader) c m).cache
        (bootloaderBlock cfg b (latch ws b .bootloader) c m).ops false) ∨
    ∃ u c1 ops, Stages b ws c m u c1 ops ∧
      bootloaderBlock cfg b (latch ws b .bootloader) c m =
        ⟨none, { latch ws b .bootloader with hasUicr := u }, c1, ops⟩ := by
  have habort := StageEffect.abort cfg c m hf
  unfold bootloaderBlock
  by_cases hu : b.targetAddr = 0x10001000
  · rw [if_pos hu]
    by_cases hwords : wordAt b.data 0x14 ≠ bootloaderRegionStart ∨
        wordAt b.data 0x18 ≠ bootloaderMbrParamsPageAddress
    · rw [if_pos hwords]
      exact .inl ⟨_, rfl, habort⟩
    · rw [if_neg hwords]
      rw [not_or, not_not, not_not] at hwords
      exact .inr ⟨_, _, _, .uicr ⟨hu, hwords.1, hwords.2⟩, rfl⟩
  rw [if_neg hu]
  by_cases hin : bootloaderRegionStart ≤ b.targetAddr ∧
      b.targetAddr < bootloaderMbrParamsPageAddress
  · rw [if_pos hin]
    rcases eraseBootloaderStaging_cases cfg c m hf with ⟨her, heq⟩ | ⟨r, heq, he⟩
    · rw [heq]
      exact .inr ⟨_, _, _, .write hin.1 hin.2 her, rfl⟩
    · rw [heq]
      exact .inl ⟨_, rfl, he⟩
  rw [if_neg hin]
  by_cases hlo : b.targetAddr < userFlashStart
  · rw [if_pos hlo]
    exact .inr ⟨_, _, _, .skip, rfl⟩
  · rw [if_neg hlo]
    exact .inl ⟨_, rfl, habort⟩

theorem commitBlock_stage {st : Staged} {w : WriteState} {appStart : Nat}
    (hw : transferCommit st.ws b.blockNo = some w) (hk : w.updateKind = .bootloader) :
    commitBlock cfg b .bootloader appStart st m =
      some ⟨.done, (stageFinish cfg w st.cache m).1, (stageFinish cfg w st.cache m).2.1,
        st.ops ++ (stageFinish cfg w st.cache m).2.2, true⟩ := by
  unfold commitBlock stageFinish
  simp only [reduceCtorEq, if_false, Option.bind_eq_bind, Option.bind_some, hw, hk, if_true]
  by_cases hfull : w.numBlocks ≤ w.numWritten
  · simp only [if_pos hfull]
  · simp only [if_neg hfull, List.append_nil]

theorem transferBlock_bootStage (hd : Dims ws) (hal : b.targetAddr % blockSize = 0)
    (hout : transferBlock cfg b .bootloader ws c m = some out) :
    StageEffect cfg b ws c m out.ws out.cache out.ops out.committed := by
  unfold transferBlock at hout
  rcases transferPrepare_cases hd b .bootloader with
    ⟨n, ab, hn, hab, hp⟩ | ⟨hna, h1, h2, hnum, hkind, hp⟩
  · rw [hp] at hout
    obtain rfl := Option.some.inj hout
    exact .idle hn (.inl rfl) hab
  rw [hp] at hout
  cases hbit : bit ws.writtenMask b.blockNo with
  | true =>
    simp only [hbit, if_true, Option.bind_eq_bind, Option.bind_some] at hout
    obtain rfl := Option.some.inj hout
    have hdup : duplicateBlock b .bootloader (latch ws b .bootloader) c m =
        ⟨.done, latch ws b .bootloader, c, [], false⟩ := by
      simp [duplicateBlock]
    rw [hdup]
    refine .idle ?_ (.inr rfl) (.inr rfl)
    rcases hnum with h | h
    · exact .inr ⟨h, h1⟩
    · exact .inl h.symm
  | false =>
    have hf : Fresh ws b .bootloader := ⟨hna, h1, h2, hnum, hkind, hbit⟩
    simp only [hbit, Bool.false_eq_true, if_false, Option.bind_eq_bind, Option.bind_some,
      reduceCtorEq] at hout
    rcases bootloaderBlock_cases cfg c m hf with ⟨r, hstop, he⟩ | ⟨u, c1, ops, hst, heq⟩
    · rw [hstop] at hout
      obtain rfl := Option.some.inj hout
      exact he
    rw [heq] at hout
    have hlt := blockNo_lt_mask hd h1 h2
    have htest := testBit?_eq hlt
    rw [hbit] at htest
    obtain ⟨wm, hwm⟩ : ∃ wm, setBit? ws.writtenMask b.blockNo = some wm := ⟨_, setBit?_eq hlt⟩
    have hw : transferCommit { latch ws b .bootloader with hasUicr := u } b.blockNo =
        some { latch ws b .bootloader with
          hasUicr := u, writtenMask := wm, numWritten := add32 ws.numWritten 1 } := by
      simp only [transferCommit, latch, htest, hwm, Option.bind_eq_bind, Option.bind_some,
        Bool.false_eq_true, if_false]
    generalize ({ latch ws b .bootloader with hasUicr := u } : WriteState) = w1 at hout hw
    rw [commitBlock_stage hw rfl] at hout
    obtain rfl := Option.some.inj hout
    exact .commit hf hal hwm hst rfl

/-! ## Kinds -/

theorem commitBlock_kind {kind : UpdateKind} {appStart : Nat} {st : Staged}
    (h : commitBlock cfg b kind appStart st m = some out) :
    out.ws.updateKind = st.ws.updateKind := by
  have hcount : ∀ {w w' : WriteState}, transferCommit w b.blockNo = some w' →
      w'.updateKind = w.updateKind := by
    intro w w' hw
    unfold transferCommit at hw
    obtain ⟨bit, -, hw⟩ := Option.bind_eq_some_iff.mp hw
    split_ifs at hw
    · obtain rfl := Option.some.inj hw
      rfl
    · obtain ⟨mask, -, hw⟩ := Option.bind_eq_some_iff.mp hw
      obtain rfl := Option.some.inj hw
      rfl
  have hfinal : ∀ w : WriteState, (finalizeApplication cfg w appStart m).updateKind = w.updateKind := by
    intro w
    unfold finalizeApplication
    simp only
    by_cases hinv : (!w.appSettingsInvalidated) = true
    · rw [if_pos hinv]
    · rw [if_neg hinv]
      generalize applicationFinalize _ _ _ _ _ _ = r
      cases r <;> rfl
  have hrest : ∀ w1 w2 : WriteState, w1.updateKind = st.ws.updateKind →
      transferCommit w1 b.blockNo = some w2 →
      (if w2.numBlocks ≤ w2.numWritten then
        if w2.updateKind = .bootloader then
          some (Outcome.mk .done (finalizeBootloader cfg w2 st.cache m).1
            (finalizeBootloader cfg w2 st.cache m).2.1
            (st.ops ++ (finalizeBootloader cfg w2 st.cache m).2.2) true)
        else
          some ⟨.done, finalizeApplication cfg w2 appStart m, flashNrf5xDiscard st.cache, st.ops, true⟩
      else some ⟨.done, w2, st.cache, st.ops, true⟩) = some out →
      out.ws.updateKind = st.ws.updateKind := by
    intro w1 w2 hk1 hw2 h
    have hk2 := (hcount hw2).trans hk1
    split_ifs at h
    · obtain rfl := Option.some.inj h
      exact (finalizeBootloader_kind _ _ _ _).trans hk2
    · obtain rfl := Option.some.inj h
      exact (hfinal w2).trans hk2
    · obtain rfl := Option.some.inj h
      exact hk2
  unfold commitBlock at h
  split_ifs at h
  · obtain ⟨w1, hw1, h⟩ := Option.bind_eq_some_iff.mp h
    obtain ⟨w2, hw2, h⟩ := Option.bind_eq_some_iff.mp h
    have hk1 : w1.updateKind = st.ws.updateKind := by
      obtain ⟨w0, htarget, rfl⟩ := Option.map_eq_some_iff.mp hw1
      obtain ⟨mask, -, rfl⟩ := Option.map_eq_some_iff.mp htarget
      rfl
    exact hrest w1 w2 hk1 hw2 h
  · simp only [Option.bind_eq_bind, Option.bind_some] at h
    obtain ⟨w2, hw2, h⟩ := Option.bind_eq_some_iff.mp h
    exact hrest st.ws w2 rfl hw2 h

/-- After the geometry and the kind are latched, nothing changes the kind. -/
theorem transferBlock_kind {kind : UpdateKind} {r : TransferResult × WriteState}
    (hp : transferPrepare ws b.numBlocks b.blockNo kind = some r)
    (hout : transferBlock cfg b kind ws c m = some out) :
    out.ws.updateKind = r.2.updateKind := by
  obtain ⟨r, w⟩ := r
  unfold transferBlock at hout
  rw [hp] at hout
  cases r with
  | aborted =>
    obtain rfl := Option.some.inj hout
    rfl
  | duplicate =>
    obtain rfl := Option.some.inj hout
    unfold duplicateBlock
    simp only
    split_ifs <;> rfl
  | accept =>
    simp only [Option.bind_eq_bind, Option.bind_some] at hout
    split_ifs at hout
    · obtain ⟨st, hst, h⟩ := Option.bind_eq_some_iff.mp hout
      have hkind := (applicationBlock_holds hst).updateKind
      split at h
      · obtain rfl := Option.some.inj h
        exact hkind
      · exact (commitBlock_kind h).trans hkind
    · have hkind := (bootloaderBlock_holds cfg b w c m).updateKind
      split at hout
      · obtain rfl := Option.some.inj hout
        exact hkind
      · exact (commitBlock_kind hout).trans hkind

theorem transferPrepare_kind {numBlocks blockNo : Nat} {kind : UpdateKind}
    {r : TransferResult × WriteState} (h : transferPrepare ws numBlocks blockNo kind = some r)
    (hk : ws.updateKind ≠ .none) : r.2.updateKind = ws.updateKind := by
  unfold transferPrepare at h
  simp only at h
  split_ifs at h with h1 h2 h3 h4
  · obtain rfl := Option.some.inj h
    rfl
  · obtain rfl := Option.some.inj h
    rfl
  · obtain rfl := Option.some.inj h
    rfl
  · obtain rfl := Option.some.inj h
    rfl
  · obtain ⟨bit, -, rfl⟩ := Option.map_eq_some_iff.mp h
    rw [not_and_or, not_not, not_not] at h4
    exact (h4.resolve_left hk).symm

/-- A latched kind stays. -/
theorem writeBlock_kind {lba : Nat} {sec : Sector}
    (hout : writeBlock cfg lba sec ws c m = some out) (hk : ws.updateKind ≠ .none) :
    out.ws.updateKind = ws.updateKind := by
  unfold writeBlock at hout
  split_ifs at hout
  · obtain rfl := Option.some.inj hout
    rfl
  · obtain rfl := Option.some.inj hout
    rfl
  · obtain rfl := Option.some.inj hout
    rfl
  split at hout
  · obtain rfl := Option.some.inj hout
    rfl
  · rename_i kind hkind
    cases hp : transferPrepare ws sec.block.numBlocks sec.block.blockNo kind with
    | none =>
      unfold transferBlock at hout
      rw [hp] at hout
      cases hout
    | some r => exact (transferBlock_kind hp hout).trans (transferPrepare_kind hp hk)

/-- An application block that is not turned away makes the session an application's. -/
theorem transferBlock_appStage (hd : Dims ws)
    (hout : transferBlock cfg b .application ws c m = some out)
    (hk : out.ws.updateKind ≠ .application) :
    StageEffect cfg b ws c m out.ws out.cache out.ops out.committed := by
  rcases transferPrepare_cases hd b .application with ⟨n, ab, hn, hab, hp⟩ | ⟨-, -, -, -, -, hp⟩
  · unfold transferBlock at hout
    rw [hp] at hout
    obtain rfl := Option.some.inj hout
    exact .idle hn (.inl rfl) hab
  · exact absurd (transferBlock_kind hp hout) hk

/-- A call that leaves no application session has a staging effect. -/
theorem writeBlock_stage {lba : Nat} {sec : Sector} (hd : Dims ws)
    (hout : writeBlock cfg lba sec ws c m = some out) (hk : out.ws.updateKind ≠ .application) :
    StageEffect cfg sec.block ws c m out.ws out.cache out.ops out.committed := by
  have hidle : StageEffect cfg sec.block ws c m ws c [] false :=
    .idle (n := ws.numBlocks) (.inl rfl) (.inl rfl) (.inr rfl)
  unfold writeBlock at hout
  split_ifs at hout with _ _ huf2
  · obtain rfl := Option.some.inj hout
    exact hidle
  · obtain rfl := Option.some.inj hout
    exact hidle
  · obtain rfl := Option.some.inj hout
    exact hidle
  split at hout
  · obtain rfl := Option.some.inj hout
    exact hidle
  · rename_i kind hkind
    rcases kindOf_cases hkind with rfl | rfl
    · exact transferBlock_appStage hd hout hk
    · have hal : sec.block.targetAddr % blockSize = 0 := by
        simp only [isUf2Block, Bool.not_eq_true', Bool.not_eq_false, Bool.and_eq_true,
          decide_eq_true_eq] at huf2
        exact huf2.2
      exact transferBlock_bootStage hd hal hout

/-- Staging never validates an application. -/
theorem StageEffect.validated {c' : FlashCache} {ops : List FlashOp} {committed : Bool}
    (he : StageEffect cfg b ws c m ws' c' ops committed) : ws'.appValidated = ws.appValidated := by
  cases he with
  | idle => rfl
  | erase => rfl
  | @commit wm u c1 ops w hf hal hwm hst hw =>
    have hwv : w.appValidated = ws.appValidated := by rw [hw]; rfl
    unfold stageFinish
    split_ifs
    · rcases finalizeBootloader_cases cfg w c1 (replay ops m) with h | ⟨h, -⟩ <;> rw [h]
      · exact hwv
      · exact hwv
    · exact hwv

/-- A call that validates an application does so at the boundary it found. -/
theorem writeBlock_validates {lba : Nat} {sec : Sector} (hd : Dims ws)
    (hout : writeBlock cfg lba sec ws c m = some out) (hnew : ws.appValidated = false)
    (hval : out.ws.appValidated = true) :
    out.ws.appStart = dfuBank0RegionStart m ∧
      ∃ stop, applicationFinalize out.ws.targetMask (dfuBank0RegionStart m) stop
        (vectorWord (replay out.ops m) (dfuBank0RegionStart m) 0)
        (vectorWord (replay out.ops m) (dfuBank0RegionStart m) 4) cfg.chip.ramEnd =
          some out.ws.appSize := by
  by_cases hk : out.ws.updateKind = .application
  · rcases writeBlock_effect cfg lba sec c m hd with ⟨out', hout', h⟩ | ⟨hnone, -⟩
    · obtain rfl : out' = out := Option.some.inj (hout'.symm.trans hout)
      rcases h with ⟨-, -, hboot⟩ | he
      · rw [hk] at hboot
        cases hboot
      · rcases he.verdict with ⟨h, -⟩ | ⟨-, -, -, -, stop, hfin, hstart⟩
        · rw [hval, hnew] at h
          cases h
        · exact ⟨hstart, stop, hfin⟩
    · rw [hout] at hnone
      cases hnone
  · have hkeep := (writeBlock_stage hd hout hk).validated
    rw [hval, hnew] at hkeep
    cases hkeep

/-! ## The invariant -/

/-- The operations so far, with the erase counter. -/
structure Erased (ws : WriteState) (ops programs : List FlashOp) (k : Nat) : Prop where
  offset : ws.bootloaderEraseOffset = k * codePageSize
  pages_le : k ≤ stagingPages
  flag : ws.bootloaderStagingErased = true ↔ k = stagingPages
  ops_eq : ops = stagingErases k ++ programs
  inside : ∀ op ∈ programs, StagingProgram op
  ordered : programs ≠ [] → k = stagingPages

/-- A session that is no application's: `m₀` is the flash it found, `acc` the blocks it
committed and `ops` what it did to flash. -/
structure Staging (cfg : Config) (m₀ : Mem) (ws : WriteState) (c : FlashCache) (m : Mem)
    (acc : List Block) (ops : List FlashOp) : Prop where
  counters : Counters ws
  erased : ∃ k programs, Erased ws ops programs k
  cache : StagingCache c
  cache_erased : c.addr ≠ none → ws.bootloaderStagingErased = true
  guarded : cfg.guardLiveApp = true → ws.bootloaderEraseOffset ≠ 0 →
    bootloaderAppIsValid cfg.chip m₀ = true →
      otaDeltaLiveAppFitsBelow m₀ bootloaderAddrNewReceived = true
  mem_eq : m = replay ops m₀
  uicr : ws.hasUicr = true → ws.updateKind = .bootloader ∧ ∃ b ∈ acc, UicrBlock b
  accounted : ∀ k, bit ws.writtenMask k = true → ∃ b ∈ acc, b.blockNo = k
  finished : ws.aborted = false → ws.numBlocks ≠ 0 → ws.numBlocks ≤ ws.numWritten →
    ws.hasUicr = true ∧ stagedBootloaderOk cfg m = true

variable {m₀ : Mem} {acc : List Block} {ops ops' : List FlashOp} {c' : FlashCache}

theorem staging_fresh (cfg : Config) (m₀ : Mem) (hc : c.addr = none) :
    Staging cfg m₀ {} c m₀ [] [] where
  counters := counters_fresh
  erased := by
    refine ⟨0, [], rfl, Nat.zero_le _, ?_, rfl, List.forall_mem_nil _, fun h => absurd rfl h⟩
    exact ⟨nofun, fun h => absurd h (by decide)⟩
  cache := .of_none hc
  cache_erased h := absurd hc h
  guarded _ h := absurd rfl h
  mem_eq := rfl
  uicr h := by cases h
  accounted k hk := by
    have hbit := bit_replicate (maxBlocks / 8 + 1) k
    rw [show bit (List.replicate _ 0#8) k = true from hk] at hbit
    cases hbit
  finished _ h := absurd rfl h

theorem Erased.trace {programs : List FlashOp} {k : Nat} (h : Erased ws ops programs k) :
    StagingTrace ops := ⟨k, h.pages_le, programs, h.ops_eq, h.inside, h.ordered⟩

/-- Nothing is done to flash before the first erase. -/
theorem Staging.untouched (h : Staging cfg m₀ ws c m acc ops) (h0 : ws.bootloaderEraseOffset = 0) :
    ops = [] := by
  obtain ⟨k, programs, he⟩ := h.erased
  have hoff := he.offset
  have hk : k = 0 := by
    rw [h0, show codePageSize = 0x1000 from rfl] at hoff
    omega
  have hp : programs = [] := by
    by_contra hne
    have := he.ordered hne
    have hs : stagingPages = 10 := rfl
    omega
  rw [he.ops_eq, hk, hp]
  rfl

/-- Programs that follow a complete erase. -/
theorem Erased.program {programs : List FlashOp} {k : Nat} (h : Erased ws ops programs k)
    (her : ws.bootloaderStagingErased = true ∨ ops' = []) (hin : ∀ op ∈ ops', StagingProgram op)
    (ho : ws'.bootloaderEraseOffset = ws.bootloaderEraseOffset)
    (hf : ws'.bootloaderStagingErased = ws.bootloaderStagingErased) :
    Erased ws' (ops ++ ops') (programs ++ ops') k where
  offset := ho.trans h.offset
  pages_le := h.pages_le
  flag := by rw [hf]; exact h.flag
  ops_eq := by rw [h.ops_eq, List.append_assoc]
  inside op hop := by
    rcases List.mem_append.mp hop with hop | hop
    · exact h.inside op hop
    · exact hin op hop
  ordered hne := by
    rcases her with her | rfl
    · exact h.flag.mp her
    · exact h.ordered (by rwa [List.append_nil] at hne)

theorem Staging.erase (h : Staging cfg m₀ ws c m acc ops) (hf : Fresh ws b .bootloader)
    (hopen : ws.bootloaderStagingErased = false)
    (hguard : cfg.guardLiveApp = true → ws.bootloaderEraseOffset = 0 →
      bootloaderAppIsValid cfg.chip m = true →
        otaDeltaLiveAppFitsBelow m bootloaderAddrNewReceived = true)
    (hws : ws' = { latch ws b .bootloader with
      bootloaderEraseOffset := ws.bootloaderEraseOffset + codePageSize
      bootloaderStagingErased := dfuBlImageMaxSize ≤ ws.bootloaderEraseOffset + codePageSize })
    (hops : ops' =
      flashNrf5xErase (bootloaderAddrNewReceived + ws.bootloaderEraseOffset) codePageSize) :
    Staging cfg m₀ ws' c (replay ops' m) acc (ops ++ ops') := by
  obtain ⟨k, programs, he⟩ := h.erased
  have hs : stagingPages = 10 := rfl
  have hmax : dfuBlImageMaxSize = 0xA000 := rfl
  have hp : codePageSize = 0x1000 := rfl
  have hoff := he.offset
  -- some page is left, and nothing is programmed yet
  have hk : k < stagingPages := by
    have hne : k ≠ stagingPages := fun hk => by
      rw [he.flag.mpr hk] at hopen
      cases hopen
    have := he.pages_le
    omega
  have hnil : programs = [] := by
    by_contra hne
    have := he.ordered hne
    omega
  have hcache : c.addr = none := by
    by_contra hne
    rw [h.cache_erased hne] at hopen
    cases hopen
  subst hws hops
  constructor
  · exact { h.counters with range := h.counters.latched hf.numBlocks_eq, bounded := hf.numBlocks_le }
  · refine ⟨k + 1, [], ?_, by omega, ?_, ?_, List.forall_mem_nil _, fun h => absurd rfl h⟩
    · simp only [hoff, Nat.succ_mul]
    · simp only [decide_eq_true_eq]
      rw [hoff, hp, hmax]
      omega
    · rw [he.ops_eq, hnil, hoff, List.append_nil, List.append_nil, stagingErases_succ]
  · exact h.cache
  · exact fun hne => absurd hcache hne
  · intro hg _
    by_cases h0 : ws.bootloaderEraseOffset = 0
    · have hm := hguard hg h0
      rwa [h.mem_eq, h.untouched h0] at hm
    · exact h.guarded hg h0
  · rw [replay_append, h.mem_eq]
  · exact fun hu => ⟨rfl, (h.uicr hu).2⟩
  · exact h.accounted
  · intro _ _ hfull
    have hlt := hf.not_full h.counters
    simp only [latch] at hfull
    omega

/-- The end of a transfer programs the staging area only, and completes it only when good. -/
theorem stageFinish_spec (cfg : Config) (w : WriteState) (m : Mem) (hcache : StagingCache c)
    (hs : c.addr ≠ none → w.bootloaderStagingErased = true) :
    StagingCache (stageFinish cfg w c m).2.1 ∧
      ((stageFinish cfg w c m).2.1.addr ≠ none → w.bootloaderStagingErased = true) ∧
      (∀ op ∈ (stageFinish cfg w c m).2.2, StagingProgram op) ∧
      (w.bootloaderStagingErased = true ∨ (stageFinish cfg w c m).2.2 = []) ∧
      ∃ ab, (stageFinish cfg w c m).1 = { w with aborted := ab } ∧
        (ab = false → w.numBlocks ≤ w.numWritten → w.hasUicr = true ∧
          stagedBootloaderOk cfg (replay (stageFinish cfg w c m).2.2 m) = true) := by
  unfold stageFinish
  by_cases hfull : w.numBlocks ≤ w.numWritten
  · rw [if_pos hfull]
    unfold finalizeBootloader
    simp only
    have hflush := hcache.flush m
    have hnone := flush_addr c m false
    have hops : w.bootloaderStagingErased = true ∨ (flashNrf5xFlush c m false).2 = [] := by
      cases hc : c.addr with
      | none =>
        right
        unfold flashNrf5xFlush
        rw [hc]
      | some p => exact .inl (hs (by rw [hc]; exact nofun))
    refine ⟨.of_none hnone, fun h => absurd hnone h, hflush, hops, ?_⟩
    split
    · exact ⟨true, rfl, nofun⟩
    · rename_i hok
      simp only [Bool.or_eq_true, Bool.not_eq_true', not_or, Bool.not_eq_false] at hok
      exact ⟨w.aborted, rfl, fun _ _ => ⟨hok.1.1, hok.2⟩⟩
  · rw [if_neg hfull]
    exact ⟨hcache, hs, List.forall_mem_nil _, .inr rfl, w.aborted, rfl, fun _ h => absurd h hfull⟩

/-- Staging a block touches the staging area only. -/
theorem Stages.spec {u : Bool} (hst : Stages b ws c m u c' ops') (hcache : StagingCache c)
    (hs : c.addr ≠ none → ws.bootloaderStagingErased = true)
    (hlen : b.payload.length = blockSize) (hal : b.targetAddr % blockSize = 0) :
    StagingCache c' ∧ (c'.addr ≠ none → ws.bootloaderStagingErased = true) ∧
      (∀ op ∈ ops', StagingProgram op) ∧ (ws.bootloaderStagingErased = true ∨ ops' = []) := by
  cases hst with
  | uicr => exact ⟨hcache, hs, List.forall_mem_nil _, .inr rfl⟩
  | skip => exact ⟨hcache, hs, List.forall_mem_nil _, .inr rfl⟩
  | write hlo hhi her =>
    have hroom : bootloaderAddrNewReceived + (b.targetAddr - bootloaderRegionStart) +
        b.payload.length ≤ bootloaderAddrNewReceived + dfuBlImageMaxSize := by
      have hb : bootloaderRegionStart = 0xF4000 := rfl
      have hm : bootloaderMbrParamsPageAddress = 0xFE000 := rfl
      have hmax : dfuBlImageMaxSize = 0xA000 := rfl
      rw [hlen, show blockSize = 256 from rfl]
      rw [show blockSize = 256 from rfl] at hal
      omega
    obtain ⟨h1, h2⟩ := hcache.writeLoop b.payload.length m (Nat.le_add_right _ _) hroom
    exact ⟨h1, fun _ => her, h2, .inl her⟩

theorem Staging.commit {wm : List Byte} {u : Bool} {w : WriteState}
    (h : Staging cfg m₀ ws c m acc ops) (hf : Fresh ws b .bootloader)
    (hwm : setBit? ws.writtenMask b.blockNo = some wm) (hst : Stages b ws c m u c' ops')
    (hlen : b.payload.length = blockSize) (hal : b.targetAddr % blockSize = 0)
    (hw : w = { latch ws b .bootloader with
      hasUicr := u, writtenMask := wm, numWritten := add32 ws.numWritten 1 }) :
    Staging cfg m₀ (stageFinish cfg w c' (replay ops' m)).1
      (stageFinish cfg w c' (replay ops' m)).2.1
      (replay (ops' ++ (stageFinish cfg w c' (replay ops' m)).2.2) m) (acc ++ [b])
      (ops ++ (ops' ++ (stageFinish cfg w c' (replay ops' m)).2.2)) := by
  obtain ⟨hcache, hcer, hin, hblank⟩ := hst.spec h.cache h.cache_erased hlen hal
  have hoff : w.bootloaderEraseOffset = ws.bootloaderEraseOffset := by rw [hw]; rfl
  have hflag : w.bootloaderStagingErased = ws.bootloaderStagingErased := by rw [hw]; rfl
  have huicr : w.hasUicr = u := by rw [hw]
  have hmask : w.writtenMask = wm := by rw [hw]
  have hcount : Counters w := by
    rw [hw]
    exact h.counters.counted hf hwm rfl rfl rfl rfl rfl
  rw [← hflag] at hcer hblank
  obtain ⟨hcache', hcer', hin', hblank', ab, hws, hok⟩ :=
    stageFinish_spec cfg w (replay ops' m) hcache hcer
  rw [hws]
  generalize (stageFinish cfg w c' (replay ops' m)).2.1 = cf at hcache' hcer'
  generalize (stageFinish cfg w c' (replay ops' m)).2.2 = opsf at hin' hblank' hok
  obtain ⟨k, programs, he⟩ := h.erased
  constructor
  · exact { hcount with }
  · refine ⟨k, programs ++ (ops' ++ opsf), he.program ?_ ?_ hoff hflag⟩
    · rw [← hflag]
      rcases hblank with h | rfl
      · exact .inl h
      · exact hblank'
    · intro op hop
      rcases List.mem_append.mp hop with hop | hop
      · exact hin op hop
      · exact hin' op hop
  · exact hcache'
  · exact hcer'
  · exact fun hg hne => h.guarded hg (hoff ▸ hne)
  · rw [replay_append, replay_append, replay_append, h.mem_eq]
  · intro hu
    rw [huicr] at hu
    refine ⟨by rw [hw]; rfl, ?_⟩
    cases hst with
    | uicr hb => exact ⟨b, by simp, hb⟩
    | write =>
      obtain ⟨-, o, ho, hb⟩ := h.uicr hu
      exact ⟨o, List.mem_append_left _ ho, hb⟩
    | skip =>
      obtain ⟨-, o, ho, hb⟩ := h.uicr hu
      exact ⟨o, List.mem_append_left _ ho, hb⟩
  · intro j hj
    rw [hmask, bit_setBit? hwm, Bool.or_eq_true, beq_iff_eq] at hj
    rcases hj with hj | rfl
    · obtain ⟨o, ho, hb⟩ := h.accounted j hj
      exact ⟨o, List.mem_append_left _ ho, hb⟩
    · exact ⟨b, by simp, rfl⟩
  · intro hna _ hfull
    rw [replay_append]
    exact hok hna hfull

/-- A call keeps the invariant. -/
theorem Staging.effect {committed : Bool} (h : Staging cfg m₀ ws c m acc ops)
    (he : StageEffect cfg b ws c m ws' c' ops' committed) (hlen : b.payload.length = blockSize) :
    Staging cfg m₀ ws' c' (replay ops' m) (if committed then acc ++ [b] else acc) (ops ++ ops') := by
  cases he with
  | @idle n kind ab hn hkind hab =>
    obtain ⟨k, programs, her⟩ := h.erased
    rw [List.append_nil]
    have hnw := h.counters.numWritten_le
    have hn0 : ws.numBlocks = 0 ∨ ws.numBlocks = n := by omega
    have hle : n ≤ maxBlocks := by
      have := h.counters.bounded
      omega
    refine ⟨{ h.counters with range := h.counters.latched hn0, bounded := hle },
      ⟨k, programs, { her with }⟩, h.cache, h.cache_erased, h.guarded, h.mem_eq, ?_, h.accounted,
      ?_⟩
    · intro hu
      refine ⟨?_, (h.uicr hu).2⟩
      rcases hkind with hk | hk
      · exact hk.trans (h.uicr hu).1
      · exact hk
    intro hna hne hfull
    simp only at hna hne hfull
    refine h.finished ?_ (by omega) (by omega)
    rcases hab with hab | hab
    · rw [hab] at hna
      cases hna
    · rw [← hab, hna]
  | erase hf hopen hguard => exact h.erase hf hopen hguard rfl rfl
  | commit hf hal hwm hst hw => exact h.commit hf hwm hst hlen hal hw

/-! ## Runs -/

/-- The events of one session: all but an eject, a mount and an unmount. -/
def MscEvent.inSession : MscEvent → Bool
  | .mount | .umount => false
  | .startStop start loadEject => start || !loadEject
  | _ => true

/-- The flash operations of a log. -/
def flashOps (log : List Act) : List FlashOp :=
  log.filterMap fun | .op o => some o | _ => none

theorem flashOps_append (log log' : List Act) : flashOps (log ++ log') = flashOps log ++ flashOps log' :=
  List.filterMap_append

theorem flashOps_ops (ops : List FlashOp) : flashOps (ops.map .op) = ops := by
  induction ops with
  | nil => rfl
  | cons o ops ih => exact congrArg (o :: ·) ih

/-- The transfer is complete, its UICR words were seen and the staged image is good. -/
structure CopyReady (cfg : Config) (s : Msc) (m : Mem) : Prop where
  started : s.ws.numBlocks ≠ 0
  blocks : ∀ k < s.ws.numBlocks, ∃ b ∈ s.accepted, b.blockNo = k
  uicr : ∃ b ∈ s.accepted, UicrBlock b
  staged : stagedBootloaderOk cfg m = true

structure StagingSession (cfg : MscConfig) (m₀ : Mem) (s : Msc × Nvm) : Prop where
  pending : s.1.appCompletionPending = false
  eject : s.1.exitAfterEject = false
  staging : Staging cfg.uf2 m₀ s.1.ws s.2.cache s.2.mem s.1.accepted (flashOps s.2.log)

/-- The session is an application's, or its staging is in order. -/
def AppOrStaging (cfg : MscConfig) (m₀ : Mem) (s : Msc × Nvm) : Prop :=
  s.1.ws.updateKind = .application ∧ s.1.exitAfterEject = false ∨ StagingSession cfg m₀ s

variable {mcfg : MscConfig} {s : Msc} {n : Nvm}

theorem StagingSession.sector {sec : Sector} (h : StagingSession mcfg m₀ (s, n))
    (he : StageEffect mcfg.uf2 sec.block s.ws n.cache n.mem out.ws out.cache out.ops out.committed) :
    StagingSession mcfg m₀ ({ s with
      ws := out.ws
      accepted := if out.committed then s.accepted ++ [sec.block] else s.accepted },
      out.store s.ws n) := by
  have hstep := h.staging.effect he (payload_length sec)
  obtain ⟨hmem, hlog⟩ := store_eq s.ws out n
  have hcache : (out.store s.ws n).cache = out.cache := by
    unfold Outcome.store
    split <;> rfl
  have hops : flashOps (out.store s.ws n).log = flashOps n.log ++ out.ops := by
    rw [hlog, flashOps_append, flashOps_append, flashOps_ops]
    split <;> exact List.append_nil _
  refine ⟨h.pending, h.eject, ?_⟩
  simp only [hmem, hcache, hops]
  exact hstep

theorem AppOrStaging.write10 (cfg : MscConfig) (lba : Nat) (sectors : List Sector) {s : Msc} {n : Nvm}
    (h : AppOrStaging cfg m₀ (s, n)) : AppOrStaging cfg m₀ (tudMscWrite10 cfg lba sectors s n) := by
  induction sectors generalizing lba s n with
  | nil => exact h
  | cons sec sectors ih =>
    unfold tudMscWrite10
    cases hout : writeBlock cfg.uf2 lba sec s.ws n.cache n.mem with
    | none => exact h.imp id fun h => ⟨h.pending, h.eject, h.staging⟩
    | some out =>
      have hnext : AppOrStaging cfg m₀ ({ s with
          ws := out.ws
          accepted := if out.committed then s.accepted ++ [sec.block] else s.accepted },
          out.store s.ws n) := by
        rcases h with ⟨h, he⟩ | h
        · have hne : s.ws.updateKind ≠ .none := by
            rw [h]
            decide
          exact .inl ⟨(writeBlock_kind hout hne).trans h, he⟩
        · by_cases hk : out.ws.updateKind = .application
          · exact .inl ⟨hk, h.eject⟩
          · exact .inr (h.sector (writeBlock_stage h.staging.counters.toDims hout hk))
      simp only
      by_cases hstop : (out.ws.aborted || decide (out.result = .busy)) = true
      · rw [if_pos hstop]
        exact hnext
      · rw [if_neg hstop]
        exact ih (lba + 1) hnext

/-- A completed transfer of a staging session may be copied. -/
theorem StagingSession.copyReady (h : StagingSession mcfg m₀ (s, n)) (hna : s.ws.aborted = false)
    (hne : s.ws.numBlocks ≠ 0) (hfull : s.ws.numBlocks ≤ s.ws.numWritten) :
    CopyReady mcfg.uf2 s n.mem := by
  obtain ⟨hu, hok⟩ := h.staging.finished hna hne hfull
  refine ⟨hne, fun k hk => ?_, (h.staging.uicr hu).2, hok⟩
  have hcount := h.staging.counters.count
  exact h.staging.accounted k
    (bit_of_popcount h.staging.counters.range (hcount ▸ hfull) hk)

/-- What an event of the session does besides writing sectors: nothing to flash. -/
theorem StagingSession.congr (h : StagingSession mcfg m₀ (s, n)) {s' : Msc} {n' : Nvm}
    (hp : s'.appCompletionPending = false) (he : s'.exitAfterEject = false) (hw : s'.ws = s.ws)
    (ha : s'.accepted = s.accepted) (hc : n'.cache = n.cache) (hm : n'.mem = n.mem)
    (hl : flashOps n'.log = flashOps n.log) : StagingSession mcfg m₀ (s', n') := by
  refine ⟨hp, he, ?_⟩
  simp only [hw, ha, hc, hm, hl]
  exact h.staging

theorem AppOrStaging.pendingCompleted (h : AppOrStaging mcfg m₀ (s, n)) :
    AppOrStaging mcfg m₀ (completePending s n) := by
  rcases h with ⟨hk, he⟩ | h
  · left
    unfold OtaFix.Uf2.completePending completeAppUpdate
    split_ifs <;> exact ⟨hk, he⟩
  · right
    have hp : s.appCompletionPending = false := h.pending
    have htake : (takePendingAppCompletion s).1 = false := by
      simp [takePendingAppCompletion, hp]
    unfold OtaFix.Uf2.completePending
    rw [htake]
    exact h.congr rfl h.eject rfl rfl rfl rfl rfl

theorem AppOrStaging.complete (h : AppOrStaging mcfg m₀ (s, n)) :
    AppOrStaging mcfg m₀ (tudMscWrite10Complete s n) := by
  rcases h with ⟨hk, he⟩ | h
  · left
    unfold tudMscWrite10Complete
    split_ifs <;> exact ⟨hk, he⟩
  right
  unfold tudMscWrite10Complete
  split_ifs with hab hfull hboot
  · exact h.congr rfl h.eject rfl rfl rfl rfl rfl
  · refine h.congr h.pending h.eject rfl rfl rfl rfl ?_
    exact (flashOps_append _ _).trans (List.append_nil _)
  · exact h
  · -- a complete transfer without a kind has no UICR block
    have hu := (h.staging.finished (by simpa using hab) hfull.1 hfull.2).1
    exact absurd (h.staging.uicr hu).1 hboot
  · exact h

theorem AppOrStaging.handle {e : MscEvent} (h : AppOrStaging mcfg m₀ (s, n))
    (he : e.inSession = true) : AppOrStaging mcfg m₀ (mscHandle mcfg e s n) := by
  have hflags : ∀ s' : Msc, s'.ws = s.ws → s'.accepted = s.accepted →
      s'.appCompletionPending = s.appCompletionPending → s'.exitAfterEject = false →
      AppOrStaging mcfg m₀ (s', n) := by
    intro s' hw ha hp he
    rcases h with ⟨hk, -⟩ | h
    · exact .inl ⟨(congrArg WriteState.updateKind hw).trans hk, he⟩
    · exact .inr (h.congr (hp.trans h.pending) he hw ha rfl rfl rfl)
  have heject : s.exitAfterEject = false := by
    rcases h with ⟨-, he⟩ | h
    · exact he
    · exact h.eject
  cases e with
  | write10 lba offset sectors =>
    simp only [mscHandle]
    split_ifs
    · exact h
    · exact h.write10 mcfg lba sectors
  | write10Complete => exact h.complete
  | scsiComplete cmd =>
    simp only [mscHandle, tudMscScsiComplete]
    by_cases hsync : cmd = 0x35
    · rw [if_pos hsync]
      exact h
    rw [if_neg hsync]
    generalize hr : (if s.appCompletionAfterEject && decide (cmd = scsiCmdStartStopUnit) then
      completePending s n else (s, n)) = r
    have hI : AppOrStaging mcfg m₀ r := by
      rw [← hr]
      split_ifs
      · exact h.pendingCompleted
      · exact h
    have hquiet : r.1.exitAfterEject = false := by
      rcases hI with ⟨-, he⟩ | h
      · exact he
      · exact h.eject
    rw [hquiet, Bool.and_false, Bool.false_and, if_neg (by decide)]
    exact hI
  | startStop start loadEject =>
    simp only [mscHandle, tudMscStartStop]
    have hno : (loadEject && !start) = false := by
      simp only [MscEvent.inSession] at he
      cases start <;> cases loadEject <;> simp_all
    rw [hno, if_neg (by decide)]
    exact h
  | commandBegin => exact hflags _ rfl rfl rfl heject
  | commandComplete => exact hflags _ rfl rfl rfl rfl
  | busReset => exact hflags _ rfl rfl rfl rfl
  | timer idleTicks =>
    simp only [mscHandle, appCompletionTimerHandler]
    split_ifs
    · exact h
    · exact h
    · exact h
    · exact h.pendingCompleted
  | mount => cases he
  | umount => cases he

theorem run_appOrStaging {cfg : MscConfig} {es : List MscEvent} (hc : c.addr = none)
    (hes : ∀ e ∈ es, e.inSession = true) :
    AppOrStaging cfg m₀ (es.foldl (mscStep cfg) ({}, ⟨c, m₀, []⟩)) := by
  have hstep : ∀ s e, AppOrStaging cfg m₀ s → e.inSession = true →
      AppOrStaging cfg m₀ (mscStep cfg s e) := by
    intro s e hs he
    unfold mscStep
    split
    · exact hs
    · exact AppOrStaging.handle hs he
  have hinit : AppOrStaging cfg m₀ (({}, ⟨c, m₀, []⟩) : Msc × Nvm) :=
    .inr ⟨rfl, rfl, staging_fresh cfg.uf2 m₀ hc⟩
  generalize (({}, ⟨c, m₀, []⟩) : Msc × Nvm) = s at hinit
  induction es generalizing s with
  | nil => exact hinit
  | cons e es ih =>
    exact ih (fun e' he' => hes e' (List.mem_cons_of_mem _ he')) _
      (hstep s e hinit (hes e List.mem_cons_self))

/-! ## The copy -/

/-- How often the MBR was asked to copy the staged image. -/
def copies (log : List Act) : Nat := log.count .copyBl

theorem copies_append (log log' : List Act) : copies (log ++ log') = copies log + copies log' :=
  List.count_append

theorem copies_ops (ops : List FlashOp) : copies (ops.map .op) = 0 := by
  rw [copies, List.count_eq_zero]
  simp

theorem copies_store (ws : WriteState) (out : Outcome) (n : Nvm) :
    copies (out.store ws n).log = copies n.log := by
  rw [(store_eq ws out n).2, copies_append, copies_append, copies_ops]
  split <;> rfl

theorem copies_write10 (cfg : MscConfig) (lba : Nat) (sectors : List Sector) (s : Msc) (n : Nvm) :
    copies (tudMscWrite10 cfg lba sectors s n).2.log = copies n.log := by
  induction sectors generalizing lba s n with
  | nil => rfl
  | cons sec sectors ih =>
    unfold tudMscWrite10
    cases writeBlock cfg.uf2 lba sec s.ws n.cache n.mem with
    | none => rfl
    | some out =>
      simp only
      by_cases hstop : (out.ws.aborted || decide (out.result = .busy)) = true
      · rw [if_pos hstop]
        exact copies_store s.ws out n
      · rw [if_neg hstop, ih]
        exact copies_store s.ws out n

theorem copies_completePending (s : Msc) (n : Nvm) :
    copies (completePending s n).2.log = copies n.log := by
  unfold completePending completeAppUpdate bootloaderDfuUpdateProcess
  simp only [appUpdateStatus, updateSettings, Nvm.saveSettings, if_true]
  split_ifs
  · rfl
  · simp only [Nvm.note, Nvm.run, copies_append, copies_ops]
    rfl
  · rfl

theorem copies_reset (s : Msc) (n : Nvm) : copies (uf2WriteSessionReset s n).2.log = copies n.log :=
  congrArg copies (uf2WriteSessionReset_log s n)

/-- Only the completion of a full bootloader transfer asks for a copy. -/
theorem mscHandle_copies {e : MscEvent}
    (h : copies n.log < copies (mscHandle mcfg e s n).2.log) :
    s.ws.aborted = false ∧ s.ws.numBlocks ≠ 0 ∧ s.ws.numBlocks ≤ s.ws.numWritten ∧
      s.ws.updateKind = .bootloader := by
  by_contra hnot
  have heq : copies (mscHandle mcfg e s n).2.log = copies n.log := by
    cases e with
    | write10 lba offset sectors =>
      simp only [mscHandle]
      split_ifs
      · rfl
      · exact copies_write10 mcfg lba sectors s n
    | write10Complete =>
      simp only [mscHandle, tudMscWrite10Complete]
      split_ifs with hab hfull hboot
      · rfl
      · exact absurd ⟨by simpa using hab, hfull.1, hfull.2, hboot⟩ hnot
      · rfl
      · rfl
      · rfl
    | scsiComplete cmd =>
      simp only [mscHandle, tudMscScsiComplete]
      by_cases hsync : cmd = 0x35
      · rw [if_pos hsync]
      rw [if_neg hsync]
      generalize hr : (if s.appCompletionAfterEject && decide (cmd = scsiCmdStartStopUnit) then
        completePending s n else (s, n)) = r
      have hcopies : copies r.2.log = copies n.log := by
        rw [← hr]
        split_ifs
        · exact copies_completePending s n
        · rfl
      split_ifs
      · exact (copies_reset r.1 r.2).trans hcopies
      · exact hcopies
    | startStop start loadEject =>
      simp only [mscHandle, tudMscStartStop]
      split_ifs
      · rfl
      · rfl
      · exact copies_reset s n
      · rfl
    | commandBegin => rfl
    | commandComplete => rfl
    | busReset => rfl
    | timer idleTicks =>
      simp only [mscHandle, appCompletionTimerHandler]
      split_ifs
      · rfl
      · rfl
      · rfl
      · exact copies_completePending s n
    | mount => exact copies_reset s n
    | umount => exact (copies_reset _ _).trans (copies_completePending s n)
  omega

/-! ## The contract -/

/-- What a session of the bootloader family guarantees: `m₀` is the flash it found. -/
structure StagingOk (cfg : MscConfig) (m₀ : Mem) (s : Msc × Nvm) : Prop where
  /-- The area is erased page by page, each once, then programmed. -/
  trace : StagingTrace (flashOps s.2.log)
  mem_eq : s.2.mem = replay (flashOps s.2.log) m₀
  /-- Nothing is erased under a live application that reaches into the area. -/
  spared : bootloaderAppIsValid cfg.uf2.chip m₀ = true →
    otaDeltaLiveAppFitsBelow m₀ bootloaderAddrNewReceived = false → flashOps s.2.log = []
  /-- At every point of the session. -/
  outside : ∀ j x, x < bootloaderAddrNewReceived ∨
    bootloaderAddrNewReceived + dfuBlImageMaxSize ≤ x →
      replay ((flashOps s.2.log).take j) m₀ x = m₀ x

theorem StagingSession.ok {cfg : MscConfig} {s : Msc × Nvm} (h : StagingSession cfg m₀ s)
    (hguard : cfg.uf2.guardLiveApp = true) : StagingOk cfg m₀ s := by
  obtain ⟨k, programs, he⟩ := h.staging.erased
  refine ⟨he.trace, h.staging.mem_eq, fun hv hfit => ?_, fun j x hx => ?_⟩
  · refine h.staging.untouched ?_
    by_contra h0
    rw [h.staging.guarded hguard h0 hv] at hfit
    cases hfit
  · exact replay_spares ((he.trace.spares hx).take j) m₀

/-- Over any run of one session that is the bootloader family's, flash changes only in the
staging area, which is erased before it is written, and the copy is requested only of a
complete transfer that passed the image policy. -/
theorem uf2_bootloader_staging {cfg : MscConfig} {es : List MscEvent} {s : Msc × Nvm}
    (hguard : cfg.uf2.guardLiveApp = true) (hc : c.addr = none)
    (hes : ∀ e ∈ es, e.inSession = true)
    (hs : s = es.foldl (mscStep cfg) ({}, ⟨c, m₀, []⟩)) (hk : s.1.ws.updateKind = .bootloader) :
    StagingOk cfg m₀ s ∧
      ∀ pre e post, es = pre ++ e :: post →
        let t := pre.foldl (mscStep cfg) ({}, ⟨c, m₀, []⟩)
        copies t.2.log < copies (mscStep cfg t e).2.log → CopyReady cfg.uf2 t.1 t.2.mem := by
  refine ⟨?_, ?_⟩
  · have hrun : AppOrStaging cfg m₀ s := hs ▸ run_appOrStaging hc hes
    rcases hrun with ⟨happ, -⟩ | h
    · rw [hk] at happ
      cases happ
    · exact h.ok hguard
  · intro pre e post heq t hcopy
    have hpre : ∀ e ∈ pre, e.inSession = true := fun e he => hes e (by simp [heq, he])
    have ht : AppOrStaging cfg m₀ t := run_appOrStaging hc hpre
    generalize t = t at ht hcopy
    unfold mscStep at hcopy
    split at hcopy
    · omega
    obtain ⟨hna, hne, hfull, hboot⟩ := mscHandle_copies hcopy
    rcases ht with ⟨happ, -⟩ | ht
    · rw [hboot] at happ
      cases happ
    · exact ht.copyReady hna hne hfull

/-- A sector with one block of the bootloader family. -/
def bootSector (target blockNo numBlocks : Nat) (payload : List Byte) : Sector where
  bytes := put32 0x0A324655 ++ put32 0x9E5D5157 ++ put32 0x2000 ++ put32 target ++ put32 256 ++
    put32 blockNo ++ put32 numBlocks ++ put32 familyBootId ++
    (payload ++ List.replicate 476 0).take 476 ++ put32 0x0AB16F30
  length_eq := by exact sector_length target blockNo numBlocks familyBootId payload

def guardedMscConfig : MscConfig :=
  { sampleMscConfig with uf2 := { sampleConfig with guardLiveApp := true } }

/-- The UICR block, then a block of the image offered three times. -/
def stagingRun : List MscEvent :=
  .write10 100 0 [bootSector 0x10001000 0 3
    (List.replicate 0x14 0 ++ put32 bootloaderRegionStart ++ put32 bootloaderMbrParamsPageAddress)] ::
  List.replicate 3 (.write10 101 0 [bootSector bootloaderRegionStart 1 3 []])

/-- Three pages are erased, and with them what the session guarantees. -/
theorem uf2_bootloader_stagingRun :
    let s := stagingRun.foldl (mscStep guardedMscConfig) ({}, ⟨{}, sdFlash, []⟩)
    flashOps s.2.log = stagingErases 3 ∧ StagingOk guardedMscConfig sdFlash s := by
  refine ⟨by decide +kernel, ?_⟩
  exact (uf2_bootloader_staging rfl rfl (by decide) rfl (by decide +kernel)).1

end OtaFix.Uf2
