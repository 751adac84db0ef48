import OtaFix.Uf2.AppOrder

/-!
# What one bootloader sector does

A bootloader session stages its image and checks it with the last block. From
then on no block is accepted, so the staged image stays as it was checked.
-/

namespace OtaFix.Uf2

open Lib Lib.BitMask

variable {cfg : Config} {b : Block} {ws ws' : WriteState} {c : FlashCache} {m : Mem}
  {ops : List FlashOp} {committed : Bool}

/-- A bootloader session that is complete and not aborted has a good staged image. -/
def StagedOk (cfg : Config) (ws : WriteState) (m : Mem) : Prop :=
  ws.updateKind = .bootloader → ws.aborted = false → ws.numBlocks ≠ 0 →
    ws.numBlocks ≤ ws.numWritten → stagedBootloaderOk cfg m = true

/-- A new block means that some are missing. -/
theorem Fresh.not_full {kind : UpdateKind} (hf : Fresh ws b kind) (h : Counters ws) :
    ws.numWritten < b.numBlocks := by
  by_contra hfull
  have hbit := bit_of_popcount (h.latched hf.numBlocks_eq)
    (h.count ▸ Nat.le_of_not_lt hfull) hf.blockNo_lt
  rw [hf.unwritten] at hbit
  cases hbit

theorem StagedOk.effect (hS : StagedOk cfg ws m) (h : Counters ws)
    (he : AppEffect cfg b ws m ws' ops committed) : StagedOk cfg ws' (replay ops m) := by
  intro hk
  cases he with
  | @idle n kind ab hn hkind hab =>
    intro hna hn0 hfull
    have hle := h.numWritten_le
    simp only at hk hna hn0 hfull
    refine hS ?_ ?_ (by omega) (by omega)
    · rcases hkind with h | ⟨-, h⟩
      · rw [← h, hk]
      · rw [h] at hk
        cases hk
    · rcases hab with h | h
      · rw [h] at hna
        cases hna
      · rw [← h, hna]
  | invalidate => cases hk
  | erase => cases hk
  | commit =>
    obtain ⟨ab, size, start, v, heq⟩ := finishState_eq cfg
      (commitState ws b (dfuBank0RegionStart m) _ _) (dfuBank0RegionStart m) (replay ops m)
    rw [heq] at hk
    cases hk

/-- What a bootloader sector does to the session. -/
structure BootEffect (cfg : Config) (ws : WriteState) (m : Mem) (ws' : WriteState)
    (ops : List FlashOp) : Prop where
  kind : ws.updateKind = .none ∨ ws.updateKind = .bootloader
  counters : Counters ws'
  validated : ws'.appValidated = ws.appValidated
  staged : StagedOk cfg ws' (replay ops m)

/-- Staging a block writes only the staging fields of the session. -/
theorem bootloaderBlock_ws (cfg : Config) (b : Block) (ws : WriteState) (c : FlashCache)
    (m : Mem) :
    ∃ ab off er u, (bootloaderBlock cfg b ws c m).ws =
      { ws with
        aborted := ab, bootloaderEraseOffset := off, bootloaderStagingErased := er
        hasUicr := u } := by
  unfold bootloaderBlock eraseBootloaderStaging
  split_ifs <;> exact ⟨_, _, _, _, rfl⟩

theorem finalizeBootloader_cases (cfg : Config) (ws : WriteState) (c : FlashCache) (m : Mem) :
    (finalizeBootloader cfg ws c m).1 = { ws with aborted := true } ∨
      ((finalizeBootloader cfg ws c m).1 = ws ∧
        stagedBootloaderOk cfg (replay (finalizeBootloader cfg ws c m).2.2 m) = true) := by
  unfold finalizeBootloader
  simp only
  split
  · exact .inl rfl
  · rename_i hok
    simp only [Bool.or_eq_true, Bool.not_eq_true', not_or, Bool.not_eq_false] at hok
    exact .inr ⟨rfl, hok.2⟩

/-- The session after a bootloader block is written. -/
theorem Counters.counted (h : Counters ws) {kind : UpdateKind} (hf : Fresh ws b kind)
    {wm : List Byte} (hwm : setBit? ws.writtenMask b.blockNo = some wm)
    (h1 : ws'.numBlocks = b.numBlocks) (h2 : ws'.numWritten = add32 ws.numWritten 1)
    (h3 : ws'.writtenMask = wm) (h4 : ws'.targetMask = ws.targetMask)
    (h5 : ws'.appErasedMask = ws.appErasedMask) : Counters ws' where
  written := by rw [h3, setBit?_length hwm, h.written]
  target := h4 ▸ h.target
  erased := h5 ▸ h.erased
  count := by
    have hlt := hf.not_full h
    have hle := hf.numBlocks_le
    have hmax : maxBlocks = 4196 := rfl
    rw [h2, h3, popcount_setBit? hwm hf.unwritten, ← h.count, add32_eq (by omega)]
  range := by
    intro k hk
    rw [h3, bit_setBit? hwm, Bool.or_eq_true, beq_iff_eq] at hk
    rw [h1]
    rcases hk with hk | rfl
    · exact h.latched hf.numBlocks_eq k hk
    · exact hf.blockNo_lt
  bounded := h1 ▸ hf.numBlocks_le

theorem transferBlock_bootEffect {out : Outcome} (h : Counters ws)
    (hnone : ws.updateKind = .none → ws.numWritten = 0) (hS : StagedOk cfg ws m)
    (hout : transferBlock cfg b .bootloader ws c m = some out) :
    AppEffect cfg b ws m out.ws out.ops out.committed ∨
      BootEffect cfg ws m out.ws out.ops := by
  unfold transferBlock at hout
  rcases transferPrepare_cases h.toDims b .bootloader with
    ⟨n, ab, hn, hab, hp⟩ | ⟨hna, h1, h2, hnum, hkind, hp⟩
  · rw [hp] at hout
    obtain rfl := Option.some.inj hout
    exact .inl (.idle hn (.inl rfl) hab)
  rw [hp] at hout
  have hlatched : Counters (latch ws b .bootloader) :=
    { h with range := h.latched hnum, bounded := h1 }
  cases hbit : bit ws.writtenMask b.blockNo with
  | true =>
    -- a repeated block
    simp only [hbit, if_true, Option.bind_eq_bind, Option.bind_some] at hout
    obtain rfl := Option.some.inj hout
    have hdup : duplicateBlock b .bootloader (latch ws b .bootloader) c m =
        ⟨.done, latch ws b .bootloader, c, [], false⟩ := by
      simp [duplicateBlock]
    rw [hdup]
    refine .inr ⟨hkind, hlatched, rfl, fun _ _ hn0 hfull => ?_⟩
    simp only [latch] at hn0 hfull
    rcases hkind with hk | hk
    · have := hnone hk
      omega
    · have hle := h.numWritten_le
      exact hS hk hna (by omega) (by omega)
  | false =>
    have hf : Fresh ws b .bootloader := ⟨hna, h1, h2, hnum, hkind, hbit⟩
    have hlt := hf.not_full h
    simp only [hbit, Bool.false_eq_true, if_false, Option.bind_eq_bind, Option.bind_some,
      reduceCtorEq] at hout
    obtain ⟨ab, off, er, u, hws⟩ := bootloaderBlock_ws cfg b (latch ws b .bootloader) c m
    generalize bootloaderBlock cfg b (latch ws b .bootloader) c m = st at hout hws
    obtain ⟨stop, ws1, c1, ops1⟩ := st
    obtain rfl := hws
    cases stop with
    | some r =>
      obtain rfl := Option.some.inj hout
      refine .inr ⟨hkind, { hlatched with }, rfl, fun _ _ _ hfull => ?_⟩
      simp only [latch] at hfull
      omega
    | none =>
      obtain ⟨wm, hwm⟩ : ∃ wm, setBit? ws.writtenMask b.blockNo = some wm :=
        ⟨_, setBit?_eq (blockNo_lt_mask h.toDims h1 h2)⟩
      have htest := testBit?_eq (blockNo_lt_mask h.toDims h1 h2)
      rw [hbit] at htest
      simp only [commitBlock, transferCommit, latch, reduceCtorEq, if_false, Option.bind_eq_bind,
        Option.bind_some, htest, hwm, Bool.false_eq_true, if_true] at hout
      split at hout
      · obtain rfl := Option.some.inj hout
        simp only
        generalize hw : WriteState.mk _ _ _ _ _ _ _ _ _ _ _ _ _ _ _ = w
        have hcount : Counters w := by
          rw [← hw]
          exact h.counted hf hwm rfl rfl rfl rfl rfl
        have hval : w.appValidated = ws.appValidated := by rw [← hw]
        rcases finalizeBootloader_cases cfg w c1 (replay ops1 m) with heq | ⟨heq, hok⟩
        · rw [heq]
          exact .inr ⟨hkind, { hcount with }, hval, fun _ hna => by cases hna⟩
        · rw [heq]
          exact .inr ⟨hkind, hcount, hval, fun _ _ _ _ => by rw [replay_append]; exact hok⟩
      · rename_i hmore
        obtain rfl := Option.some.inj hout
        refine .inr ⟨hkind, h.counted hf hwm rfl rfl rfl rfl rfl, rfl, fun _ _ _ hfull => ?_⟩
        exact absurd hfull hmore

/-! ## The page cache -/

theorem classifiedBlock_cache {st : Staged} (h : classifiedBlock b ws c m = some st) :
    st.cache = c ∨ st.cache = flashNrf5xDiscard c := by
  unfold classifiedBlock at h
  split at h
  · simp only [programAppBlock, Option.bind_eq_bind, Option.bind_eq_some_iff] at h
    obtain ⟨⟨action, ws2⟩, -, h⟩ := h
    cases action <;> obtain rfl := Option.some.inj h
    · exact .inr rfl
    · exact .inl rfl
    · exact .inl rfl
  · split at h <;> obtain rfl := Option.some.inj h <;> exact .inl rfl
  · obtain rfl := Option.some.inj h
    exact .inl rfl
  · obtain rfl := Option.some.inj h
    exact .inl rfl

/-- The application path leaves the cache alone or discards it. -/
theorem applicationBlock_cache {st : Staged} (h : applicationBlock b ws c m = some st) :
    st.cache = c ∨ st.cache = flashNrf5xDiscard c := by
  have hafter : ∀ r : TransferResult × WriteState,
      (if r.1 = .aborted then some ⟨some .notUf2, r.2, c, []⟩
        else classifiedBlock b r.2 c m) = some st →
      st.cache = c ∨ st.cache = flashNrf5xDiscard c := by
    intro r h
    split at h
    · obtain rfl := Option.some.inj h
      exact .inl rfl
    · exact classifiedBlock_cache h
  unfold applicationBlock at h
  split at h <;> obtain ⟨r, -, h⟩ := Option.bind_eq_some_iff.mp h <;> exact hafter r h

theorem commitBlock_cache {st : Staged} {out : Outcome} {kind : UpdateKind} {appStart : Nat}
    (h : commitBlock cfg b kind appStart st m = some out)
    (hk : out.ws.updateKind ≠ .bootloader) :
    out.cache = st.cache ∨ out.cache = flashNrf5xDiscard st.cache := by
  unfold commitBlock at h
  split at h <;> obtain ⟨ws1, -, h⟩ := Option.bind_eq_some_iff.mp h <;>
    obtain ⟨ws2, -, h⟩ := Option.bind_eq_some_iff.mp h <;> split at h
  all_goals try (split at h)
  all_goals obtain rfl := Option.some.inj h
  all_goals first
    | exact .inl rfl
    | exact .inr rfl
    | exact absurd ((finalizeBootloader_kind _ _ _ _).trans ‹_›) hk

theorem duplicateBlock_cache (b : Block) (kind : UpdateKind) (ws : WriteState) (c : FlashCache)
    (m : Mem) : (duplicateBlock b kind ws c m).cache = c := by
  unfold duplicateBlock
  simp only
  split <;> rfl

theorem transferBlock_cache {out : Outcome} (h : transferBlock cfg b .application ws c m = some out)
    (hk : out.ws.updateKind ≠ .bootloader) :
    out.cache = c ∨ out.cache = flashNrf5xDiscard c := by
  unfold transferBlock at h
  obtain ⟨⟨r, ws1⟩, -, h⟩ := Option.bind_eq_some_iff.mp h
  cases r with
  | aborted =>
    obtain rfl := Option.some.inj h
    exact .inl rfl
  | duplicate =>
    obtain rfl := Option.some.inj h
    exact .inl (duplicateBlock_cache _ _ _ _ _)
  | accept =>
    simp only [if_true] at h
    obtain ⟨st, hst, h⟩ := Option.bind_eq_some_iff.mp h
    have hcache := applicationBlock_cache hst
    split at h
    · obtain rfl := Option.some.inj h
      exact hcache
    · rcases hcache with hcache | hcache <;> rcases commitBlock_cache h hk with h | h <;>
        rw [h, hcache] <;> simp [flashNrf5xDiscard]

theorem transferBlock_bootCache {out : Outcome} (hd : Dims ws)
    (h : transferBlock cfg b .bootloader ws c m = some out)
    (hk : out.ws.updateKind ≠ .bootloader) : out.cache = c := by
  obtain ⟨out', hout', hcases⟩ := transferBlock_bootloader cfg b c m hd
  rw [hout'] at h
  obtain rfl := Option.some.inj h
  rcases hcases with hboot | ⟨-, hcache⟩
  · exact absurd hboot hk
  · exact hcache

/-- Outside a bootloader session an empty cache stays empty. -/
theorem writeBlock_cache {lba : Nat} {sec : Sector} {out : Outcome} (hd : Dims ws)
    (hc : c.addr = none) (h : writeBlock cfg lba sec ws c m = some out)
    (hk : out.ws.updateKind ≠ .bootloader) : out.cache.addr = none := by
  unfold writeBlock at h
  split_ifs at h
  · obtain rfl := Option.some.inj h
    exact hc
  · obtain rfl := Option.some.inj h
    exact hc
  · obtain rfl := Option.some.inj h
    exact hc
  split at h
  · obtain rfl := Option.some.inj h
    exact hc
  · rename_i kind hkind
    rcases kindOf_cases hkind with rfl | rfl
    · rcases transferBlock_cache h hk with h | h <;> rw [h]
      · exact hc
      · rfl
    · rw [transferBlock_bootCache hd h hk]
      exact hc

/-! ## The call, inverted -/

/-- A call has the effect of an application sector or that of a bootloader sector. -/
theorem writeBlock_session (lba : Nat) (sec : Sector) (c : FlashCache) (m : Mem) (h : Counters ws)
    (hnone : ws.updateKind = .none → ws.numWritten = 0) (hS : StagedOk cfg ws m)
    (hb : dfuBank0RegionStart m ≤ userFlashEnd) :
    ∃ out, writeBlock cfg lba sec ws c m = some out ∧
      (AppEffect cfg sec.block ws m out.ws out.ops out.committed ∨
        out.ws.updateKind = .bootloader ∧ BootEffect cfg ws m out.ws out.ops) := by
  rcases writeBlock_effect cfg lba sec c m h.toDims with
    ⟨out, hout, ⟨huf2, hkind, hboot⟩ | he⟩ | ⟨-, hlt⟩
  · refine ⟨out, hout, ?_⟩
    have hidle : AppEffect cfg sec.block ws m ws [] false :=
      .idle (n := ws.numBlocks) (.inl rfl) (.inl rfl) (.inr rfl)
    unfold writeBlock at hout
    split_ifs at hout with h1 h2 h3
    · obtain rfl := Option.some.inj hout
      exact .inl hidle
    · obtain rfl := Option.some.inj hout
      exact .inl hidle
    · simp [huf2] at h3
    · rw [hkind] at hout
      rcases transferBlock_bootEffect h hnone hS hout with he | he
      · exact .inl he
      · exact .inr ⟨hboot, he⟩
  · exact ⟨out, hout, .inl he⟩
  · omega

/-- A sector of no known family changes nothing. -/
theorem writeBlock_foreign {sec : Sector}
    (h : isUf2Block sec = true → cfg.kindOf sec.block.familyId = none) (lba : Nat)
    (ws : WriteState) (c : FlashCache) (m : Mem) :
    ∃ r, writeBlock cfg lba sec ws c m = some ⟨r, ws, c, [], false⟩ := by
  unfold writeBlock
  split_ifs with _ _ huf2
  · exact ⟨_, rfl⟩
  · exact ⟨_, rfl⟩
  · exact ⟨_, rfl⟩
  · rw [h (by simpa using huf2)]
    exact ⟨_, rfl⟩

end OtaFix.Uf2
