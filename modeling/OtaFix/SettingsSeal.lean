import Mathlib.Data.List.GetD
import OtaFix.CrcDetect
import OtaFix.Image

/-!
# What the seal detects

A sealed settings record with one byte changed is refused, and is not taken for a
legacy record either. In the fields the CRC-16 tells; in the trailer the two
halves no longer complement each other, and the half that is left keeps it from
the all-ones trailer of a legacy record.
-/

namespace OtaFix

open Lib

/-! ## Records and their bytes -/

theorem put16_half (hi lo : Byte) : put16 (hi ++ lo) = [lo, hi] := by
  unfold put16
  rw [BitVec.extractLsb'_append_eq_right, BitVec.extractLsb'_append_eq_left]

/-- The record that 32 bytes hold. -/
def Settings.ofBytes (d : List Byte) : Settings where
  bank0 := halfAt d 0
  bank0Crc := halfAt d 2
  bank1 := halfAt d 4
  formatVersion := halfAt d 6
  bank0Size := wordAt d 8
  sdImageSize := wordAt d 12
  blImageSize := wordAt d 16
  appImageSize := wordAt d 20
  sdImageStart := wordAt d 24
  recordCrc := halfAt d 28
  recordCrcInv := halfAt d 30

theorem ofBytes_body {d : List Byte} (hd : d.length = 32) :
    (Settings.ofBytes d).body = d.take 28 := by
  have hbytes : (Settings.ofBytes d).body = (List.range 28).map (d.getD · 0) := by
    simp only [Settings.body, Settings.ofBytes, halfAt, wordAt, put16_half, put32_get32]
    rfl
  rw [hbytes]
  refine List.ext_getElem (by simp [hd]) fun i h1 h2 => ?_
  rw [List.length_map, List.length_range] at h1
  rw [List.getElem_map, List.getElem_range, List.getElem_take,
    List.getD_eq_getElem _ _ (by omega)]

/-- What is in flash reads as the record its bytes hold. -/
theorem readSettings_ofBytes (m : Mem) :
    readSettings m = .ofBytes (slice m bootloaderSettingsAddress 32) := by
  have hhalf : ∀ o, o + 2 ≤ 32 → halfAt (slice m bootloaderSettingsAddress 32) o =
      readHalf m (bootloaderSettingsAddress + o) := by
    intro o ho
    unfold halfAt readHalf
    rw [slice_getD_add (by omega), slice_getD_add (by omega)]
    rfl
  have hword : ∀ o, o + 4 ≤ 32 → wordAt (slice m bootloaderSettingsAddress 32) o =
      readWord m (bootloaderSettingsAddress + o) := fun o ho => wordAt_slice ho
  unfold Settings.ofBytes
  rw [hhalf 0 (by omega), hhalf 2 (by omega), hhalf 4 (by omega), hhalf 6 (by omega),
    hword 8 (by omega), hword 12 (by omega), hword 16 (by omega), hword 20 (by omega),
    hword 24 (by omega), hhalf 28 (by omega), hhalf 30 (by omega)]
  rfl

/-! ## One byte -/

theorem getD_set_ne {l : List Byte} {i j : Nat} {v : Byte} (h : i ≠ j) :
    (l.set i v).getD j 0 = l.getD j 0 := by
  rw [List.getD_eq_getElem?_getD, List.getElem?_set_ne h, ← List.getD_eq_getElem?_getD]

theorem halfAt_set {l : List Byte} {i k : Nat} {v : Byte} (h0 : i ≠ k) (h1 : i ≠ k + 1) :
    halfAt (l.set i v) k = halfAt l k := by
  unfold halfAt
  rw [getD_set_ne h0, getD_set_ne h1]

/-- One byte of a half changes it, and the other byte stays. -/
theorem halfAt_set_ne {l : List Byte} {i k : Nat} {v : Byte} (hi : i = k ∨ i = k + 1)
    (hlen : i < l.length) (hv : v ≠ l.getD i 0) :
    halfAt (l.set i v) k ≠ halfAt l k ∧ (halfAt l k = 0 → halfAt (l.set i v) k ≠ 0xFFFF) := by
  have hset : (l.set i v).getD i 0 = v := by
    rw [List.getD_eq_getElem _ _ (by rwa [List.length_set]), List.getElem_set_self]
  have hparts : ∀ {a b a' b' : Byte}, (a ++ b : BitVec 16) = a' ++ b' → a = a' ∧ b = b' := by
    intro a b a' b' heq
    have hlow := congrArg (BitVec.extractLsb' 0 8) heq
    have hhigh := congrArg (BitVec.extractLsb' 8 8) heq
    rw [BitVec.extractLsb'_append_eq_right, BitVec.extractLsb'_append_eq_right] at hlow
    rw [BitVec.extractLsb'_append_eq_left, BitVec.extractLsb'_append_eq_left] at hhigh
    exact ⟨hhigh, hlow⟩
  have hzero : (0 : BitVec 16) = (0 : Byte) ++ (0 : Byte) := by decide
  have hones : (0xFFFF : BitVec 16) = (0xFF : Byte) ++ (0xFF : Byte) := by decide
  unfold halfAt
  rcases hi with rfl | rfl
  · rw [hset, getD_set_ne (Nat.succ_ne_self i).symm, hzero, hones]
    refine ⟨fun heq => hv (hparts heq).2, fun h0 h1 => ?_⟩
    rw [(hparts h0).1] at h1
    exact absurd (hparts h1).1 (by decide)
  · rw [hset, getD_set_ne (Nat.succ_ne_self k), hzero, hones]
    refine ⟨fun heq => hv (hparts heq).1, fun h0 h1 => ?_⟩
    rw [(hparts h0).2] at h1
    exact absurd (hparts h1).2 (by decide)

/-! ## The seal -/

theorem sealed_halves (s : Settings) : halfAt s.sealed.bytes 28 = s.sealed.recordCrc ∧
    halfAt s.sealed.bytes 30 = s.sealed.recordCrcInv := by
  refine ⟨?_, ?_⟩
  · exact half_append s.sealed.recordCrc
  · exact half_append s.sealed.recordCrcInv

/-- A seal is valid and no legacy record; one byte of it changed, and it is refused and no
legacy record. -/
theorem bootloader_settings_seal_detects (s : Settings) :
    s.sealed.integrityValid = true ∧ s.sealed.isLegacy = false ∧
      ∀ i v, i < 32 → v ≠ s.sealed.bytes.getD i 0 →
        (Settings.ofBytes (s.sealed.bytes.set i v)).integrityValid = false ∧
        (Settings.ofBytes (s.sealed.bytes.set i v)).isLegacy = false := by
  refine ⟨s.sealed_integrityValid, s.sealed_not_legacy rfl rfl, fun i v hi hv => ?_⟩
  obtain ⟨hcrc, hinv⟩ := sealed_halves s
  have hlen : s.sealed.bytes.length = 32 := s.sealed.bytes_length
  set d := s.sealed.bytes.set i v with hd
  have hdlen : d.length = 32 := by rw [hd, List.length_set, hlen]
  have hbody := ofBytes_body hdlen
  have hcomp : s.sealed.recordCrcInv = ~~~s.sealed.recordCrc := s.sealed_recordCrcInv
  -- an admissible record has complementary halves over the CRC of its fields
  have hrefuse : (Settings.ofBytes d).isLegacy = false →
      (halfAt d 30 = ~~~halfAt d 28 → crc16 (d.take 28) ≠ halfAt d 28) →
      (Settings.ofBytes d).integrityValid = false := by
    intro hlegacy hne
    by_contra hvalid
    simp only [Settings.integrityValid, hlegacy, Bool.false_or, Bool.not_eq_false,
      Bool.and_eq_true, decide_eq_true_eq, hbody] at hvalid
    exact hne hvalid.1.2 hvalid.2
  suffices h : (Settings.ofBytes d).isLegacy = false ∧
      (halfAt d 30 = ~~~halfAt d 28 → crc16 (d.take 28) ≠ halfAt d 28) from ⟨hrefuse h.1 h.2, h.1⟩
  by_cases hfield : i < 28
  · have hcrc' : halfAt d 28 = s.sealed.recordCrc := by
      rw [hd, halfAt_set (by omega) (by omega), hcrc]
    have hinv' : halfAt d 30 = s.sealed.recordCrcInv := by
      rw [hd, halfAt_set (by omega) (by omega), hinv]
    refine ⟨s.sealed_not_legacy hcrc' hinv', fun _ => ?_⟩
    have hfields : s.sealed.bytes.take 28 = s.sealed.body := rfl
    have hdiff : DiffersWithin 1 s.sealed.body (d.take 28) := by
      rw [hd, List.take_set, hfields]
      refine differsWithin_set (d := 0) (by decide) hfield ?_
      rwa [← hfields, List.getD_eq_getElem?_getD, List.getElem?_take_of_lt hfield,
        ← List.getD_eq_getElem?_getD]
    rw [hcrc', s.sealed_recordCrc]
    exact (crc16_ne hdiff).symm
  · by_cases hlow : i < 30
    · have hinv' : halfAt d 30 = ~~~s.sealed.recordCrc := by
        rw [hd, halfAt_set (by omega) (by omega), hinv, hcomp]
      obtain ⟨hne, hones⟩ := halfAt_set_ne (k := 28) (by omega) (by omega) hv
      rw [← hd, hcrc] at hne hones
      refine ⟨?_, fun heq => ?_⟩
      · by_contra hlegacy
        simp only [Settings.isLegacy, Settings.ofBytes, Bool.not_eq_false, Bool.and_eq_true,
          decide_eq_true_eq, hinv'] at hlegacy
        refine hones ?_ hlegacy.1
        rw [← BitVec.not_not (b := s.sealed.recordCrc), hlegacy.2]
        rfl
      · rw [hinv'] at heq
        exact absurd (BitVec.not_inj.mp heq).symm hne
    · have hcrc' : halfAt d 28 = s.sealed.recordCrc := by
        rw [hd, halfAt_set (by omega) (by omega), hcrc]
      obtain ⟨hne, hones⟩ := halfAt_set_ne (k := 30) (by omega) (by omega) hv
      rw [← hd, hinv, hcomp] at hne hones
      refine ⟨?_, fun heq => ?_⟩
      · by_contra hlegacy
        simp only [Settings.isLegacy, Settings.ofBytes, Bool.not_eq_false, Bool.and_eq_true,
          decide_eq_true_eq, hcrc'] at hlegacy
        refine hones ?_ hlegacy.2
        rw [hlegacy.1]
        rfl
      · rw [hcrc'] at heq
        exact absurd heq hne

theorem bootloader_settings_seal_detects_byte :
    (Settings.ofBytes (({} : Settings).sealed.bytes.set 28 0xFF)).integrityValid = false ∧
      (Settings.ofBytes (({} : Settings).sealed.bytes.set 28 0xFF)).isLegacy = false :=
  (bootloader_settings_seal_detects {}).2.2 28 0xFF (by decide) (by decide +kernel)

end OtaFix
