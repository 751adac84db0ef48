import OtaFix.Uf2.WriteBlock

/-!
# What one application sector does

`AppEffect cfg b ws m ws' ops committed` lists the changes a call of
`write_block` can make in a session that is not a bootloader's: nothing but the
latches, the settings word cleared, one page erased, or one block committed.
`writeBlock_effect` inverts the function into it, for masks of their declared
sizes; there, no mask is accessed out of bounds.
-/

namespace OtaFix.Uf2

open Lib Lib.BitMask

/-- The masks have their declared sizes. -/
structure Dims (ws : WriteState) : Prop where
  written : ws.writtenMask.length = maxBlocks / 8 + 1
  target : ws.targetMask.length = (flashBlockCount + 7) / 8
  erased : ws.appErasedMask.length = (appPageCount + 7) / 8

/-- The geometry and kind of a block, latched. -/
def latch (ws : WriteState) (b : Block) (kind : UpdateKind) : WriteState :=
  { ws with numBlocks := b.numBlocks, updateKind := kind }

/-- A new block of the session: its geometry and kind agree, its number is unwritten. -/
structure Fresh (ws : WriteState) (b : Block) (kind : UpdateKind) : Prop where
  not_aborted : ws.aborted = false
  numBlocks_le : b.numBlocks ≤ maxBlocks
  blockNo_lt : b.blockNo < b.numBlocks
  numBlocks_eq : ws.numBlocks = 0 ∨ ws.numBlocks = b.numBlocks
  kind_eq : ws.updateKind = .none ∨ ws.updateKind = kind
  unwritten : bit ws.writtenMask b.blockNo = false

/-- The page number of a target. -/
def Block.page (b : Block) : Nat := (b.targetAddr - userFlashStart) / codePageSize

/-- A target of application flash. -/
structure Programs (b : Block) (m : Mem) : Prop where
  user_le : userFlashStart ≤ b.targetAddr
  app_le : dfuBank0RegionStart m ≤ b.targetAddr
  lt_end : b.targetAddr < userFlashEnd

/-- What storing an accepted block takes: it is programmed into its erased page, or
already there, or in the MBR's range, which is skipped. -/
def Stores (ws : WriteState) (b : Block) (m : Mem) (ops : List FlashOp) : Prop :=
  (Programs b m ∧ ws.appSettingsInvalidated = true ∧ bit ws.appErasedMask b.page = true ∧
    ops = wordsWrite b.targetAddr b.payload) ∨
  (b.targetAddr < userFlashStart ∧ ops = []) ∨
  (userFlashStart ≤ b.targetAddr ∧ b.targetAddr < dfuBank0RegionStart m ∧
    slice m b.targetAddr blockSize = b.payload ∧ ops = [])

/-- The state after a commit, before the transfer may be complete. -/
def commitState (ws : WriteState) (b : Block) (appStart : Nat) (tm wm : List Byte) : WriteState :=
  { latch ws b .application with
    targetMask := tm
    writtenMask := wm
    numWritten := add32 ws.numWritten 1
    appMaximumWrittenEnd := maximumWrittenEnd ws b appStart }

/-- Validate the transfer if this was its last block. -/
def finishState (cfg : Config) (ws : WriteState) (appStart : Nat) (m : Mem) : WriteState :=
  if ws.numBlocks ≤ ws.numWritten then finalizeApplication cfg ws appStart m else ws

/-- The session keeps its kind, or becomes an application's. -/
def Latches (ws : WriteState) (kind : UpdateKind) : Prop :=
  kind = ws.updateKind ∨ ws.updateKind = .none ∧ kind = .application

inductive AppEffect (cfg : Config) (b : Block) (ws : WriteState) (m : Mem) :
    WriteState → List FlashOp → Bool → Prop where
  | idle {n : Nat} {kind : UpdateKind} {ab : Bool}
      (hn : n = ws.numBlocks ∨ ws.numBlocks = 0 ∧ n ≤ maxBlocks)
      (hkind : Latches ws kind) (hab : ab = true ∨ ab = ws.aborted) :
      AppEffect cfg b ws m { ws with numBlocks := n, updateKind := kind, aborted := ab } [] false
  | invalidate (hf : Fresh ws b .application) (hs : ws.appSettingsInvalidated = false) :
      AppEffect cfg b ws m { latch ws b .application with appSettingsInvalidated := true }
        invalidateAppSettings false
  | erase {mask : List Byte} (hf : Fresh ws b .application) (hp : Programs b m)
      (hs : ws.appSettingsInvalidated = true) (hbit : bit ws.appErasedMask b.page = false)
      (hset : setBit? ws.appErasedMask b.page = some mask) :
      AppEffect cfg b ws m { latch ws b .application with appErasedMask := mask }
        (flashNrf5xErase b.targetAddr codePageSize) false
  | commit {tm wm : List Byte} {ops : List FlashOp} (hf : Fresh ws b .application)
      (hfree : b.targetAddr < userFlashEnd →
        b.targetAddr % blockSize = 0 ∧ bit ws.targetMask (b.targetAddr / blockSize) = false)
      (htm : setBit? ws.targetMask (b.targetAddr / blockSize) = some tm)
      (hwm : setBit? ws.writtenMask b.blockNo = some wm) (hops : Stores ws b m ops) :
      AppEffect cfg b ws m
        (finishState cfg (commitState ws b (dfuBank0RegionStart m) tm wm) (dfuBank0RegionStart m)
          (replay ops m)) ops true

variable {cfg : Config} {b : Block} {ws ws' : WriteState} {c : FlashCache} {m : Mem}

/-! ## The helpers, inverted -/

theorem transferPrepare_cases (hd : Dims ws) (b : Block) (kind : UpdateKind) :
    (∃ n ab, (n = ws.numBlocks ∨ ws.numBlocks = 0 ∧ n ≤ maxBlocks) ∧ (ab = true ∨ ab = ws.aborted) ∧
      transferPrepare ws b.numBlocks b.blockNo kind =
        some (.aborted, { ws with numBlocks := n, aborted := ab })) ∨
    (ws.aborted = false ∧ b.numBlocks ≤ maxBlocks ∧ b.blockNo < b.numBlocks ∧
      (ws.numBlocks = 0 ∨ ws.numBlocks = b.numBlocks) ∧
      (ws.updateKind = .none ∨ ws.updateKind = kind) ∧
      transferPrepare ws b.numBlocks b.blockNo kind =
        some (if bit ws.writtenMask b.blockNo then .duplicate else .accept, latch ws b kind)) := by
  unfold transferPrepare
  by_cases hab : ws.aborted = true
  · rw [if_pos hab]
    exact .inl ⟨ws.numBlocks, ws.aborted, .inl rfl, .inr rfl, rfl⟩
  rw [if_neg hab]
  by_cases hgeo : b.numBlocks = 0 ∨ maxBlocks < b.numBlocks ∨ b.numBlocks ≤ b.blockNo
  · rw [if_pos hgeo]
    exact .inl ⟨ws.numBlocks, true, .inl rfl, .inl rfl, rfl⟩
  rw [if_neg hgeo]
  by_cases hnum : ws.numBlocks ≠ 0 ∧ ws.numBlocks ≠ b.numBlocks
  · rw [if_pos hnum]
    exact .inl ⟨ws.numBlocks, true, .inl rfl, .inl rfl, rfl⟩
  rw [if_neg hnum]
  by_cases hkind : ws.updateKind ≠ .none ∧ ws.updateKind ≠ kind
  · rw [if_pos hkind]
    exact .inl ⟨b.numBlocks, true, by omega, .inl rfl, rfl⟩
  rw [if_neg hkind]
  refine .inr ⟨by simpa using hab, by omega, by omega, by omega, ?_, ?_⟩
  · rw [not_and_or, not_not, not_not] at hkind
    exact hkind
  · have hpos : b.blockNo / 8 < ws.writtenMask.length := by
      rw [hd.written]
      omega
    simp only [testBit?_eq hpos, Option.map_some, latch]

theorem targetPrepare_cases (hd : Dims ws) (hab : ws.aborted = false) {a : Nat}
    (hlt : a < userFlashEnd) :
    targetPrepare ws a flashSize = some (.aborted, { ws with aborted := true }) ∨
      (a % blockSize = 0 ∧ bit ws.targetMask (a / blockSize) = false ∧
        targetPrepare ws a flashSize = some (.accept, ws)) := by
  have hpos : a / blockSize / 8 < ws.targetMask.length := by
    have he : userFlashEnd = 0xEA000 := rfl
    have hb : blockSize = 256 := rfl
    have hc : flashBlockCount = 4096 := rfl
    rw [hd.target, hb]
    omega
  have hsz : ¬flashSize ≤ a := by
    have he : userFlashEnd = 0xEA000 := rfl
    have hf : flashSize = 0x100000 := rfl
    omega
  unfold targetPrepare
  by_cases hal : a % blockSize = 0
  · rw [if_neg (by simp [hab, hal, hsz])]
    simp only
    rw [if_neg (by omega), testBit?_eq hpos]
    cases hbit : bit ws.targetMask (a / blockSize)
    · exact .inr ⟨hal, rfl, rfl⟩
    · exact .inl rfl
  · rw [if_pos (.inr (.inl hal))]
    exact .inl rfl

theorem blockNo_lt_mask (hd : Dims ws) (h1 : b.numBlocks ≤ maxBlocks) (h2 : b.blockNo < b.numBlocks) :
    b.blockNo / 8 < ws.writtenMask.length := by
  rw [hd.written]
  omega

theorem page_lt (hp : Programs b m) : b.page / 8 < (appPageCount + 7) / 8 := by
  have h1 := hp.user_le
  have h2 := hp.lt_end
  have he : userFlashEnd = 0xEA000 := rfl
  have hs : userFlashStart = 0x1000 := rfl
  have hc : appPageCount = 233 := rfl
  unfold Block.page
  rw [show codePageSize = 0x1000 from rfl]
  omega

theorem programAppBlock_cases (hd : Dims ws) (hp : Programs b m) :
    (ws.appSettingsInvalidated = false ∧ programAppBlock b ws c =
      some ⟨some .busy, { ws with appSettingsInvalidated := true }, flashNrf5xDiscard c,
        invalidateAppSettings⟩) ∨
    (∃ mask, ws.appSettingsInvalidated = true ∧ bit ws.appErasedMask b.page = false ∧
      setBit? ws.appErasedMask b.page = some mask ∧ programAppBlock b ws c =
        some ⟨some .busy, { ws with appErasedMask := mask }, c,
          flashNrf5xErase b.targetAddr codePageSize⟩) ∨
    (ws.appSettingsInvalidated = true ∧ bit ws.appErasedMask b.page = true ∧
      programAppBlock b ws c = some ⟨none, ws, c, wordsWrite b.targetAddr b.payload⟩) := by
  have hpos : b.page / 8 < ws.appErasedMask.length := by
    rw [hd.erased]
    exact page_lt hp
  unfold programAppBlock appFlashNextAction
  cases hinv : ws.appSettingsInvalidated
  · exact .inl ⟨rfl, rfl⟩
  right
  rw [← Block.page, testBit?_eq hpos]
  cases hbit : bit ws.appErasedMask b.page
  · refine .inl ⟨_, rfl, rfl, setBit?_eq hpos, ?_⟩
    simp [setBit?_eq hpos]
  · exact .inr ⟨rfl, rfl, rfl⟩

theorem Fresh.latches (hf : Fresh ws b .application) : Latches ws .application := by
  rcases hf.kind_eq with h | h
  · exact .inr ⟨h, rfl⟩
  · exact .inl h.symm

/-- Nothing happens but an abort. -/
theorem AppEffect.abort (cfg : Config) (b : Block) (ws : WriteState) (m : Mem)
    (hf : Fresh ws b .application) :
    AppEffect cfg b ws m { latch ws b .application with aborted := true } [] false := by
  have hidle := fun hn => @AppEffect.idle cfg b ws m b.numBlocks .application true hn hf.latches
    (.inl rfl)
  refine hidle ?_
  rcases hf.numBlocks_eq with h | h
  · exact .inr ⟨h, hf.numBlocks_le⟩
  · exact .inl h.symm

theorem commitBlock_application (cfg : Config) (hd : Dims ws) (hf : Fresh ws b .application)
    (appStart : Nat) (c : FlashCache) (ops : List FlashOp) (m' : Mem) {tm : List Byte}
    (htm : setBit? ws.targetMask (b.targetAddr / blockSize) = some tm) :
    ∃ wm c', setBit? ws.writtenMask b.blockNo = some wm ∧
      commitBlock cfg b .application appStart ⟨none, latch ws b .application, c, ops⟩ m' =
        some ⟨.done, finishState cfg (commitState ws b appStart tm wm) appStart m', c', ops, true⟩ := by
  have hwp : b.blockNo / 8 < ws.writtenMask.length :=
    blockNo_lt_mask hd hf.numBlocks_le hf.blockNo_lt
  obtain ⟨wm, hwm⟩ : ∃ wm, setBit? ws.writtenMask b.blockNo = some wm := ⟨_, setBit?_eq hwp⟩
  have hbit := testBit?_eq hwp
  rw [hf.unwritten] at hbit
  have hcommit : commitBlock cfg b .application appStart
      ⟨none, latch ws b .application, c, ops⟩ m' =
        if b.numBlocks ≤ add32 ws.numWritten 1 then
          some ⟨.done, finalizeApplication cfg (commitState ws b appStart tm wm) appStart m',
            flashNrf5xDiscard c, ops, true⟩
        else some ⟨.done, commitState ws b appStart tm wm, c, ops, true⟩ := by
    simp [commitBlock, targetCommit, transferCommit, latch, commitState, htm, hwm, hbit,
      maximumWrittenEnd]
  refine ⟨wm, if b.numBlocks ≤ add32 ws.numWritten 1 then flashNrf5xDiscard c else c, hwm, ?_⟩
  have hfinish : finishState cfg (commitState ws b appStart tm wm) appStart m' =
      if b.numBlocks ≤ add32 ws.numWritten 1 then
        finalizeApplication cfg (commitState ws b appStart tm wm) appStart m'
      else commitState ws b appStart tm wm := rfl
  rw [hcommit, hfinish]
  split <;> rfl

theorem commitBlock_outside (cfg : Config) (appStart : Nat) (c : FlashCache) (ops : List FlashOp)
    (m' : Mem) (htm : setBit? ws.targetMask (b.targetAddr / blockSize) = none) :
    commitBlock cfg b .application appStart ⟨none, latch ws b .application, c, ops⟩ m' = none := by
  simp [commitBlock, targetCommit, latch, htm]

/-! ## The call, inverted -/

/-- An application block that goes on to its commit. -/
structure Stored (ws : WriteState) (b : Block) (m : Mem) (st : Staged) : Prop where
  stop : st.stop = none
  ws_eq : st.ws = latch ws b .application
  free : b.targetAddr < userFlashEnd →
    b.targetAddr % blockSize = 0 ∧ bit ws.targetMask (b.targetAddr / blockSize) = false
  stores : Stores ws b m st.ops

theorem applicationBlock_effect (cfg : Config) (c : FlashCache) (m : Mem) (hd : Dims ws)
    (hf : Fresh ws b .application) :
    ∃ st, applicationBlock b (latch ws b .application) c m = some st ∧
      ((∃ r, st.stop = some r ∧ AppEffect cfg b ws m st.ws st.ops false) ∨ Stored ws b m st) := by
  have hdl : Dims (latch ws b .application) := ⟨hd.written, hd.target, hd.erased⟩
  have habort := AppEffect.abort cfg b ws m hf
  -- the target is aborted, or free and classified
  obtain h | ⟨hfree, h⟩ :
      applicationBlock b (latch ws b .application) c m =
          some ⟨some .notUf2, { latch ws b .application with aborted := true }, c, []⟩ ∨
        ((b.targetAddr < userFlashEnd → b.targetAddr % blockSize = 0 ∧
            bit ws.targetMask (b.targetAddr / blockSize) = false) ∧
          applicationBlock b (latch ws b .application) c m =
            classifiedBlock b (latch ws b .application) c m) := by
    by_cases hlt : b.targetAddr < userFlashEnd
    · unfold applicationBlock
      rw [if_pos hlt]
      rcases targetPrepare_cases hdl hf.not_aborted hlt with h | ⟨hal, hfree, h⟩
      · left
        rw [h]
        rfl
      · refine .inr ⟨fun _ => ⟨hal, hfree⟩, ?_⟩
        rw [h]
        rfl
    · refine .inr ⟨fun h => absurd h hlt, ?_⟩
      unfold applicationBlock
      rw [if_neg hlt]
      rfl
  · exact ⟨_, h, .inl ⟨.notUf2, rfl, habort⟩⟩
  rw [h]
  unfold classifiedBlock targetClassify
  by_cases hu : b.targetAddr < userFlashStart
  · rw [if_pos hu]
    exact ⟨_, rfl, .inr ⟨rfl, rfl, hfree, .inr (.inl ⟨hu, rfl⟩)⟩⟩
  rw [if_neg hu]
  by_cases ha : b.targetAddr < dfuBank0RegionStart m
  · rw [if_pos ha]
    by_cases hm : slice m b.targetAddr blockSize = b.payload
    · refine ⟨_, if_neg (not_not.mpr hm), .inr ⟨rfl, rfl, hfree, .inr (.inr ?_)⟩⟩
      exact ⟨Nat.le_of_not_lt hu, ha, hm, rfl⟩
    · exact ⟨_, if_pos hm, .inl ⟨.notUf2, rfl, habort⟩⟩
  rw [if_neg ha]
  by_cases he : b.targetAddr < userFlashEnd
  · rw [if_pos he]
    have hp : Programs b m := ⟨Nat.le_of_not_lt hu, Nat.le_of_not_lt ha, he⟩
    rcases programAppBlock_cases (c := c) hdl hp with ⟨hs, h⟩ | ⟨mask, hs, hbit, hset, h⟩ | ⟨hs, hbit, h⟩
    · exact ⟨_, h, .inl ⟨.busy, rfl, .invalidate hf hs⟩⟩
    · exact ⟨_, h, .inl ⟨.busy, rfl, .erase hf hp hs hbit hset⟩⟩
    · exact ⟨_, h, .inr ⟨rfl, rfl, hfree, .inl ⟨hp, hs, hbit, rfl⟩⟩⟩
  · rw [if_neg he]
    exact ⟨_, rfl, .inl ⟨.notUf2, rfl, habort⟩⟩

/-- A bootloader block leaves the block masks and the kind alone. -/
theorem bootloaderBlock_keeps (cfg : Config) (b : Block) (ws : WriteState) (c : FlashCache)
    (m : Mem) : (bootloaderBlock cfg b ws c m).ws.updateKind = ws.updateKind ∧
      (bootloaderBlock cfg b ws c m).ws.writtenMask = ws.writtenMask := by
  unfold bootloaderBlock eraseBootloaderStaging
  split_ifs <;> exact ⟨rfl, rfl⟩

theorem finalizeBootloader_kind (cfg : Config) (ws : WriteState) (c : FlashCache) (m : Mem) :
    (finalizeBootloader cfg ws c m).1.updateKind = ws.updateKind := by
  unfold finalizeBootloader
  simp only
  split <;> rfl

theorem transferCommit_eq {n : Nat} (h : n / 8 < ws.writtenMask.length) :
    ∃ ws', transferCommit ws n = some ws' ∧ ws'.updateKind = ws.updateKind := by
  unfold transferCommit
  rw [testBit?_eq h, setBit?_eq h]
  cases bit ws.writtenMask n <;> exact ⟨_, rfl, rfl⟩

/-- A bootloader commit stays inside the masks and keeps the kind. -/
theorem commitBlock_bootloader (cfg : Config) {st : Staged} (hk : st.ws.updateKind = .bootloader)
    (h : b.blockNo / 8 < st.ws.writtenMask.length) (appStart : Nat) (m' : Mem) :
    ∃ out, commitBlock cfg b .bootloader appStart st m' = some out ∧
      out.ws.updateKind = .bootloader := by
  obtain ⟨ws', hws', hk'⟩ := transferCommit_eq h
  rw [hk] at hk'
  unfold commitBlock
  simp only [reduceCtorEq, if_false, Option.bind_eq_bind, Option.bind_some, hws', hk', if_true]
  split
  · exact ⟨_, rfl, (finalizeBootloader_kind _ _ _ _).trans hk'⟩
  · exact ⟨_, rfl, hk'⟩

theorem transferBlock_bootloader (cfg : Config) (b : Block) (c : FlashCache) (m : Mem)
    (hd : Dims ws) :
    ∃ out, transferBlock cfg b .bootloader ws c m = some out ∧
      (out.ws.updateKind = .bootloader ∨
        AppEffect cfg b ws m out.ws out.ops out.committed ∧ out.cache = c) := by
  unfold transferBlock
  rcases transferPrepare_cases hd b .bootloader with ⟨n, ab, hn, hab, h⟩ | ⟨-, h1, h2, -, -, h⟩
  · exact ⟨_, by rw [h]; rfl, .inr ⟨.idle hn (.inl rfl) hab, rfl⟩⟩
  rw [h]
  cases bit ws.writtenMask b.blockNo
  · have hkeep := bootloaderBlock_keeps cfg b (latch ws b .bootloader) c m
    cases hst : (bootloaderBlock cfg b (latch ws b .bootloader) c m).stop with
    | some r => exact ⟨_, by simp [hst]; rfl, .inl hkeep.1⟩
    | none =>
      have hlt : b.blockNo / 8 <
          (bootloaderBlock cfg b (latch ws b .bootloader) c m).ws.writtenMask.length := by
        have hmask := blockNo_lt_mask hd h1 h2
        rwa [hkeep.2]
      obtain ⟨out, hout, hk⟩ := commitBlock_bootloader cfg hkeep.1 hlt
        (dfuBank0RegionStart m) (replay (bootloaderBlock cfg b (latch ws b .bootloader) c m).ops m)
      exact ⟨out, by simpa [hst] using hout, .inl hk⟩
  · exact ⟨_, rfl, .inl rfl⟩

/-- The target of a stored block is in application flash or below it. -/
theorem Stores.target_lt {ops : List FlashOp} (h : Stores ws b m ops)
    (hb : dfuBank0RegionStart m ≤ userFlashEnd) : b.targetAddr < userFlashEnd := by
  have he : userFlashEnd = 0xEA000 := rfl
  have hs : userFlashStart = 0x1000 := rfl
  rcases h with ⟨hp, -⟩ | ⟨h, -⟩ | ⟨-, h, -⟩
  · exact hp.lt_end
  · omega
  · omega

theorem targetBit_eq (hd : Dims ws) (h : b.targetAddr < userFlashEnd) :
    ∃ tm, setBit? ws.targetMask (b.targetAddr / blockSize) = some tm := by
  refine ⟨_, setBit?_eq ?_⟩
  have he : userFlashEnd = 0xEA000 := rfl
  rw [hd.target, show blockSize = 256 from rfl, show flashBlockCount = 4096 from rfl]
  omega

/-- The application path: an effect, or an access past the target mask, which takes
a boundary beyond user flash. -/
theorem transferBlock_application (cfg : Config) (b : Block) (c : FlashCache) (m : Mem) (hd : Dims ws) :
    (∃ out, transferBlock cfg b .application ws c m = some out ∧
      AppEffect cfg b ws m out.ws out.ops out.committed) ∨
    (transferBlock cfg b .application ws c m = none ∧ userFlashEnd < dfuBank0RegionStart m) := by
  unfold transferBlock
  rcases transferPrepare_cases hd b .application with
    ⟨n, ab, hn, hab, h⟩ | ⟨hab, h1, h2, hnum, hkind, h⟩
  · exact .inl ⟨_, by rw [h]; rfl, .idle hn (.inl rfl) hab⟩
  have hidle : ∀ ab, ab = true ∨ ab = ws.aborted →
      AppEffect cfg b ws m { latch ws b .application with aborted := ab } [] false := by
    intro ab hab'
    refine .idle ?_ ?_ hab'
    · rcases hnum with h | h
      · exact .inr ⟨h, h1⟩
      · exact .inl h.symm
    · rcases hkind with h | h
      · exact .inr ⟨h, rfl⟩
      · exact .inl h.symm
  rw [h]
  cases hbit : bit ws.writtenMask b.blockNo
  · have hf : Fresh ws b .application := ⟨hab, h1, h2, hnum, hkind, hbit⟩
    obtain ⟨st, hst, ⟨r, hr, heff⟩ | hs⟩ := applicationBlock_effect cfg c m hd hf
    · exact .inl ⟨⟨r, st.ws, st.cache, st.ops, false⟩, by simp [hst, hr], heff⟩
    obtain ⟨stop, ws1, c1, ops⟩ := st
    obtain rfl : stop = none := hs.stop
    obtain rfl : ws1 = latch ws b .application := hs.ws_eq
    cases htm : setBit? ws.targetMask (b.targetAddr / blockSize) with
    | none =>
      refine .inr ⟨?_, ?_⟩
      · simpa [hst] using commitBlock_outside cfg (dfuBank0RegionStart m) c1 ops (replay ops m) htm
      · by_contra hb
        obtain ⟨tm, h⟩ := targetBit_eq hd (hs.stores.target_lt (Nat.le_of_not_lt hb))
        rw [h] at htm
        cases htm
    | some tm =>
      obtain ⟨wm, c', hwm, hc⟩ := commitBlock_application cfg hd hf
        (dfuBank0RegionStart m) c1 ops (replay ops m) htm
      refine .inl ⟨_, by simp [hst]; exact hc, ?_⟩
      exact .commit hf hs.free htm hwm hs.stores
  · left
    simp only [Option.bind_eq_bind, Option.bind_some, if_true, duplicateBlock]
    split
    · exact ⟨_, rfl, hidle true (.inl rfl)⟩
    · exact ⟨_, rfl, hidle ws.aborted (.inr rfl)⟩

theorem kindOf_cases {f : Nat} {kind : UpdateKind} (h : cfg.kindOf f = some kind) :
    kind = .application ∨ kind = .bootloader := by
  unfold Config.kindOf at h
  split_ifs at h
  · exact .inl (Option.some.inj h).symm
  · exact .inr (Option.some.inj h).symm

/-- A call has one of the effects, unless it is a block of the bootloader family or
reaches past the target mask because the boundary lies beyond user flash. -/
theorem writeBlock_effect (cfg : Config) (lba : Nat) (s : Sector) (c : FlashCache) (m : Mem)
    (hd : Dims ws) :
    (∃ out, writeBlock cfg lba s ws c m = some out ∧
      (isUf2Block s = true ∧ cfg.kindOf s.block.familyId = some .bootloader ∧
          out.ws.updateKind = .bootloader ∨
        AppEffect cfg s.block ws m out.ws out.ops out.committed)) ∨
    (writeBlock cfg lba s ws c m = none ∧ userFlashEnd < dfuBank0RegionStart m) := by
  have hidle : AppEffect cfg s.block ws m ws [] false :=
    .idle (n := ws.numBlocks) (.inl rfl) (.inl rfl) (.inr rfl)
  unfold writeBlock
  split_ifs with _ _ huf2
  · exact .inl ⟨_, rfl, .inr hidle⟩
  · exact .inl ⟨_, rfl, .inr hidle⟩
  · exact .inl ⟨_, rfl, .inr hidle⟩
  cases hk : cfg.kindOf s.block.familyId with
  | none => exact .inl ⟨_, rfl, .inr hidle⟩
  | some kind =>
    rcases kindOf_cases hk with rfl | rfl
    · rcases transferBlock_application cfg s.block c m hd with ⟨out, h, heff⟩ | h
      · exact .inl ⟨out, h, .inr heff⟩
      · exact .inr h
    · obtain ⟨out, h, hboot | ⟨heff, -⟩⟩ := transferBlock_bootloader cfg s.block c m hd
      · exact .inl ⟨out, h, .inl ⟨by simpa using huf2, rfl, hboot⟩⟩
      · exact .inl ⟨out, h, .inr heff⟩

end OtaFix.Uf2
