import Mathlib.Data.List.GetD
import OtaFix.CrcDetect
import OtaFix.Mota.Apply

/-!
# Retained records

The three records that carry an authorization across a reset: the hybrid handoff,
the SD authorization and the SD boot token. Each ends in the CRC-32 of what is in
front, and its complement. What an encoder writes, the validator accepts; and a
valid record with changes within four consecutive bytes is refused, wherever these
lie.
-/

namespace OtaFix.Mota

open Lib

/-! ## Sealed records -/

/-- A record of `n` bytes, their CRC-32 and its complement. -/
structure SealedAt (n : Nat) (r : List Byte) : Prop where
  crc : BitVec.ofNat 32 (wordAt r n) = otafixCrc32Update 0 (r.take n)
  inverse : BitVec.ofNat 32 (wordAt r (n + 4)) = ~~~otafixCrc32Update 0 (r.take n)

def sealRecord (d : List Byte) : List Byte :=
  let crc := otafixCrc32Update 0 d
  d ++ (put32 crc.toNat ++ put32 (~~~crc).toNat)

theorem wordAt_drop (r : List Byte) (n i : Nat) : wordAt (r.drop n) i = wordAt r (n + i) := by
  unfold wordAt
  simp only [List.getD_eq_getElem?_getD, List.getElem?_drop, Nat.add_assoc]

/-- Two words in a row. -/
theorem wordAt_words {x y : Nat} (hx : x < 2 ^ 32) (hy : y < 2 ^ 32) :
    wordAt (put32 x ++ put32 y) 0 = x ∧ wordAt (put32 x ++ put32 y) 4 = y :=
  ⟨get32_put32 hx, get32_put32 hy⟩

theorem words_eq {e : List Byte} (he : e.length = 8) :
    e = put32 (wordAt e 0) ++ put32 (wordAt e 4) := by
  match e, he with
  | [b0, b1, b2, b3, b4, b5, b6, b7], _ =>
    change _ = put32 (get32 b0 b1 b2 b3) ++ put32 (get32 b4 b5 b6 b7)
    rw [put32_get32, put32_get32]
    rfl

theorem drop_eq_words {r : List Byte} {n : Nat} (hlen : r.length = n + 8) :
    r.drop n = put32 (wordAt r n) ++ put32 (wordAt r (n + 4)) := by
  have hdrop : (r.drop n).length = 8 := by rw [List.length_drop, hlen, Nat.add_sub_cancel_left]
  rw [words_eq hdrop, wordAt_drop, wordAt_drop]
  rfl

theorem sealRecord_sealedAt {d : List Byte} {n : Nat} (hd : d.length = n) :
    SealedAt n (sealRecord d) := by
  subst hd
  have htake : (sealRecord d).take d.length = d := List.take_left
  obtain ⟨hcrc, hinv⟩ := wordAt_words (otafixCrc32Update 0 d).isLt (~~~otafixCrc32Update 0 d).isLt
  have hdrop : (sealRecord d).drop d.length =
      put32 (otafixCrc32Update 0 d).toNat ++ put32 (~~~otafixCrc32Update 0 d).toNat :=
    List.drop_left
  rw [← hdrop, wordAt_drop] at hcrc hinv
  refine ⟨?_, ?_⟩
  · rw [htake, ← Nat.add_zero d.length, hcrc, BitVec.ofNat_toNat, BitVec.setWidth_eq]
  · rw [htake, hinv, BitVec.ofNat_toNat, BitVec.setWidth_eq]

theorem wordAt_ofNat_inj {r r' : List Byte} {i : Nat}
    (h : BitVec.ofNat 32 (wordAt r i) = BitVec.ofNat 32 (wordAt r' i)) :
    wordAt r i = wordAt r' i := by
  have hnat := congrArg BitVec.toNat h
  have hlt : ∀ d : List Byte, wordAt d i < 2 ^ 32 := fun d => get32_lt _ _ _ _
  rwa [BitVec.toNat_ofNat, BitVec.toNat_ofNat, Nat.mod_eq_of_lt (hlt r),
    Nat.mod_eq_of_lt (hlt r')] at hnat

/-- Changes within four consecutive bytes break the seal. -/
theorem SealedAt.burst {r r' : List Byte} {n : Nat} (h : SealedAt n r) (hlen : r.length = n + 8)
    (hdiff : DiffersWithin 4 r r') : ¬ SealedAt n r' := by
  intro h'
  obtain ⟨p, hpre, hpost⟩ := hdiff.window
  have hlen' : r'.length = n + 8 := hdiff.length.symm.trans hlen
  have hcrc : otafixCrc32Update 0 (r.take n) = otafixCrc32Update 0 (r'.take n) := by
    by_cases hp : p ≤ n
    · -- the complement is not reached
      have hrest : r.drop (n + 4) = r'.drop (n + 4) := by
        rw [show n + 4 = (p + 4) + (n - p) by omega, ← List.drop_drop, hpost, List.drop_drop]
      have hword : wordAt r (n + 4) = wordAt r' (n + 4) := by
        rw [← Nat.add_zero (n + 4), ← wordAt_drop, hrest, wordAt_drop]
      rw [← BitVec.not_inj, ← h.inverse, ← h'.inverse, hword]
    · rw [show n = min n p by omega, ← List.take_take, hpre, List.take_take]
  have htail : r.drop n = r'.drop n := by
    rw [drop_eq_words hlen, drop_eq_words hlen',
      wordAt_ofNat_inj (h.crc.trans (hcrc.trans h'.crc.symm)),
      wordAt_ofNat_inj (h.inverse.trans ((congrArg _ hcrc).trans h'.inverse.symm))]
  refine otafixCrc32Update_ne 0 ⟨?_, fun heq => hdiff.ne ?_, p, ?_, ?_⟩ hcrc
  · rw [List.length_take, List.length_take, hdiff.length]
  · rw [← List.take_append_drop n r, ← List.take_append_drop n r', heq, htail]
  · rw [List.take_take, List.take_take, Nat.min_comm, ← List.take_take, hpre, List.take_take]
  · rw [List.drop_take, List.drop_take, hpost]

/-! ## The records -/

/-- What a record's hash field holds. -/
def Digest : Type := { d : List Byte // d.length = 32 }

/-- `mota_sd_auth_encode`. -/
def motaSdAuthEncode (purpose formatVer : Byte)
    (firstSector sectorCount containerTotal cardSectorCount : Nat) (sha : Digest) : List Byte :=
  sealRecord (sdAuthMagic ++ put16 2 ++ put16 72 ++ [purpose, formatVer] ++ put16 0 ++
    put32 firstSector ++ put32 sectorCount ++ put32 containerTotal ++ put32 cardSectorCount ++
    sha.val)

/-- `mota_hybrid_handoff_encode`. -/
def motaHybridHandoffEncode (containerTotal flashStart flashLen ramLen : Nat) (sha : Digest) :
    List Byte :=
  sealRecord (hybridMagic ++ put16 1 ++ put16 72 ++ [1, 2] ++ put16 0 ++ put32 containerTotal ++
    put32 flashStart ++ put32 flashLen ++ put32 ramLen ++ sha.val)

/-- `mota_sd_boot_token_encode`. -/
def motaSdBootTokenEncode (total : Nat) (imageHash : Digest) : List Byte :=
  sealRecord (sdBootTokenMagic ++ put32 1 ++ put32 64 ++ put32 total ++
    put32 (~~~(BitVec.ofNat 32 total)).toNat ++ imageHash.val)

/-- The geometry of an SD authorization. -/
structure SdGeometry (firstSector sectorCount containerTotal cardSectorCount : Nat) : Prop where
  first_pos : 0 < firstSector
  total_pos : 0 < containerTotal
  total_lt : containerTotal < 2 ^ 32
  card_lt : cardSectorCount < 2 ^ 32
  fits : firstSector + sectorCount ≤ cardSectorCount
  count : sectorCount = (containerTotal - 1) / 512 + 1

/-- The geometry of a hybrid handoff. -/
structure HybridGeometry (containerTotal flashStart flashLen ramLen : Nat) : Prop where
  flash_pos : 0 < flashLen
  ram_pos : 0 < ramLen
  ram_le : ramLen ≤ hybridArenaSize
  total : containerTotal = flashLen + ramLen
  total_lt : containerTotal < 2 ^ 32
  start_lt : flashStart < 2 ^ 32

theorem recordSealed_iff {r : List Byte} : recordSealed r = true ↔ SealedAt 64 r := by
  unfold recordSealed
  rw [Bool.and_eq_true, decide_eq_true_eq, decide_eq_true_eq]
  exact ⟨fun h => ⟨h.1.symm, h.2⟩, fun h => ⟨h.crc.symm, h.inverse⟩⟩

theorem motaSdAuthValid_encode {purpose formatVer : Byte}
    {firstSector sectorCount containerTotal cardSectorCount : Nat} (sha : Digest)
    (h : SdGeometry firstSector sectorCount containerTotal cardSectorCount) :
    motaSdAuthValid (motaSdAuthEncode purpose formatVer firstSector sectorCount containerTotal
      cardSectorCount sha) purpose formatVer = true := by
  obtain ⟨hfirst, htotal, htotal_lt, hcard_lt, hfits, hcount⟩ := h
  set r := motaSdAuthEncode purpose formatVer firstSector sectorCount containerTotal
    cardSectorCount sha with hr
  have h16 : wordAt r 16 = firstSector := get32_put32 (by omega)
  have h20 : wordAt r 20 = sectorCount := get32_put32 (by omega)
  have h24 : wordAt r 24 = containerTotal := get32_put32 (by omega)
  have h28 : wordAt r 28 = cardSectorCount := get32_put32 (by omega)
  have hmagic : r.take 8 = sdAuthMagic := rfl
  have hversion : halfAt r 8 = 2 := half_append 2
  have hlength : halfAt r 10 = 72 := half_append 72
  have hpurpose : r.getD 12 0 = purpose := rfl
  have hformat : r.getD 13 0 = formatVer := rfl
  have hreserved : halfAt r 14 = 0 := half_append 0
  have hsealed : recordSealed r = true := by
    apply recordSealed_iff.mpr
    apply sealRecord_sealedAt
    rw [List.length_append, sha.property]
    rfl
  unfold motaSdAuthValid
  simp only [h16, h20, h24, h28, hmagic, hversion, hlength, hpurpose, hformat, hreserved, hsealed,
    decide_true, Bool.true_and, Bool.and_true, Bool.and_eq_true, decide_eq_true_eq]
  omega

theorem motaHybridHandoffValid_encode {containerTotal flashStart flashLen ramLen : Nat}
    (sha : Digest) (h : HybridGeometry containerTotal flashStart flashLen ramLen) :
    motaHybridHandoffValid (motaHybridHandoffEncode containerTotal flashStart flashLen ramLen sha) =
      true := by
  obtain ⟨hflash, hram, hram_le, htotal, htotal_lt, hstart_lt⟩ := h
  have harena : hybridArenaSize = 0x10000 := rfl
  set r := motaHybridHandoffEncode containerTotal flashStart flashLen ramLen sha with hr
  have h16 : wordAt r 16 = containerTotal := get32_put32 htotal_lt
  have h24 : wordAt r 24 = flashLen := get32_put32 (by omega)
  have h28 : wordAt r 28 = ramLen := get32_put32 (by omega)
  have hmagic : r.take 8 = hybridMagic := rfl
  have hversion : halfAt r 8 = 1 := half_append 1
  have hlength : halfAt r 10 = 72 := half_append 72
  have hpurpose : r.getD 12 0 = 1 := rfl
  have hformat : r.getD 13 0 = 2 := rfl
  have hreserved : halfAt r 14 = 0 := half_append 0
  have hsealed : recordSealed r = true := by
    apply recordSealed_iff.mpr
    apply sealRecord_sealedAt
    rw [List.length_append, sha.property]
    rfl
  unfold motaHybridHandoffValid
  simp only [h16, h24, h28, hmagic, hversion, hlength, hpurpose, hformat, hreserved, hsealed,
    decide_true, Bool.true_and, Bool.and_true, Bool.and_eq_true, decide_eq_true_eq]
  omega

theorem motaSdBootTokenValid_encode {total : Nat} (htotal : total < 2 ^ 32) (imageHash : Digest) :
    motaSdBootTokenValid (motaSdBootTokenEncode total imageHash) total imageHash.val = true := by
  set r := motaSdBootTokenEncode total imageHash with hr
  have h16 : wordAt r 16 = total := get32_put32 htotal
  have h20 : wordAt r 20 = (~~~(BitVec.ofNat 32 total)).toNat := get32_put32 (BitVec.isLt _)
  have hmagic : r.take 8 = sdBootTokenMagic := rfl
  have hversion : wordAt r 8 = 1 := get32_put32 (by omega)
  have hlength : wordAt r 12 = 64 := get32_put32 (by omega)
  have hhash : (r.drop 24).take 32 = imageHash.val := by
    change (imageHash.val ++ _).take 32 = _
    exact List.take_left' imageHash.property
  have hsealed : SealedAt 56 r := by
    apply sealRecord_sealedAt
    rw [List.length_append, imageHash.property]
    rfl
  unfold motaSdBootTokenValid
  simp only [h16, h20, hmagic, hversion, hlength, hhash, hsealed.crc, hsealed.inverse,
    BitVec.ofNat_toNat, BitVec.setWidth_eq, decide_true, Bool.and_true]

/-! ## Corruption -/

theorem motaSdAuthValid_burst {r r' : List Byte} {purpose formatVer : Byte}
    (hlen : r.length = 72) (h : motaSdAuthValid r purpose formatVer = true)
    (hdiff : DiffersWithin 4 r r') (purpose' formatVer' : Byte) :
    motaSdAuthValid r' purpose' formatVer' = false := by
  unfold motaSdAuthValid at h ⊢
  simp only [Bool.and_eq_true] at h
  rw [Bool.and_eq_false_iff]
  refine .inr (Bool.eq_false_iff.mpr fun hsealed => ?_)
  exact (recordSealed_iff.mp h.2).burst hlen hdiff (recordSealed_iff.mp hsealed)

theorem motaHybridHandoffValid_burst {r r' : List Byte} (hlen : r.length = 72)
    (h : motaHybridHandoffValid r = true) (hdiff : DiffersWithin 4 r r') :
    motaHybridHandoffValid r' = false := by
  unfold motaHybridHandoffValid at h ⊢
  simp only [Bool.and_eq_true] at h
  rw [Bool.and_eq_false_iff]
  refine .inr (Bool.eq_false_iff.mpr fun hsealed => ?_)
  exact (recordSealed_iff.mp h.2).burst hlen hdiff (recordSealed_iff.mp hsealed)

theorem motaSdBootTokenValid_sealed {r imageHash : List Byte} {total : Nat}
    (h : motaSdBootTokenValid r total imageHash = true) : SealedAt 56 r := by
  unfold motaSdBootTokenValid at h
  simp only [Bool.and_eq_true, decide_eq_true_eq] at h
  refine ⟨h.1.2.symm, ?_⟩
  rw [h.2]

theorem motaSdBootTokenValid_burst {r r' imageHash : List Byte} {total : Nat}
    (hlen : r.length = 64) (h : motaSdBootTokenValid r total imageHash = true)
    (hdiff : DiffersWithin 4 r r') (total' : Nat) (imageHash' : List Byte) :
    motaSdBootTokenValid r' total' imageHash' = false := by
  refine Bool.eq_false_iff.mpr fun h' => ?_
  exact (motaSdBootTokenValid_sealed h).burst hlen hdiff (motaSdBootTokenValid_sealed h')

/-- What the encoders write is accepted; and a valid record changed within four consecutive
bytes is refused. -/
theorem retained_records_detect :
    (∀ purpose formatVer first count total card sha, SdGeometry first count total card →
      motaSdAuthValid (motaSdAuthEncode purpose formatVer first count total card sha) purpose
        formatVer = true) ∧
    (∀ total start flashLen ramLen sha, HybridGeometry total start flashLen ramLen →
      motaHybridHandoffValid (motaHybridHandoffEncode total start flashLen ramLen sha) = true) ∧
    (∀ total imageHash, total < 2 ^ 32 →
      motaSdBootTokenValid (motaSdBootTokenEncode total imageHash) total imageHash.val = true) ∧
    (∀ r r', r.length = 72 → DiffersWithin 4 r r' →
      (∀ purpose formatVer, motaSdAuthValid r purpose formatVer = true →
        ∀ purpose' formatVer', motaSdAuthValid r' purpose' formatVer' = false) ∧
      (motaHybridHandoffValid r = true → motaHybridHandoffValid r' = false)) ∧
    (∀ r r' total imageHash, r.length = 64 → DiffersWithin 4 r r' →
      motaSdBootTokenValid r total imageHash = true →
      ∀ total' imageHash', motaSdBootTokenValid r' total' imageHash' = false) := by
  refine ⟨fun _ _ _ _ _ _ sha h => motaSdAuthValid_encode sha h,
    fun _ _ _ _ sha h => motaHybridHandoffValid_encode sha h,
    fun _ hash h => motaSdBootTokenValid_encode h hash, fun r r' hlen hdiff => ⟨?_, ?_⟩, ?_⟩
  · exact fun _ _ h => motaSdAuthValid_burst hlen h hdiff
  · exact fun h => motaHybridHandoffValid_burst hlen h hdiff
  · exact fun _ _ _ _ hlen hdiff h => motaSdBootTokenValid_burst hlen h hdiff

def zeroDigest : Digest := ⟨List.replicate 32 0, rfl⟩

def sampleAuth : List Byte := motaSdAuthEncode 1 2 100 16 0x2000 1000 zeroDigest

def sampleHandoff : List Byte := motaHybridHandoffEncode 0x2000 0x30000 0x1000 0x1000 zeroDigest

def sampleToken : List Byte := motaSdBootTokenEncode 0xA172 zeroDigest

/-- One record of each kind, and the same with its first sector, its flash address or its size
changed. -/
theorem retained_records_detect_samples :
    (motaSdAuthValid sampleAuth 1 2 = true ∧ motaSdAuthValid (sampleAuth.set 16 2) 1 2 = false) ∧
    (motaHybridHandoffValid sampleHandoff = true ∧
      motaHybridHandoffValid (sampleHandoff.set 22 2) = false) ∧
    motaSdBootTokenValid sampleToken 0xA172 (List.replicate 32 0) = true ∧
      motaSdBootTokenValid (sampleToken.set 18 1) 0x1A172 (List.replicate 32 0) = false := by
  obtain ⟨hauth, hhandoff, htoken, hrecord, hshort⟩ := retained_records_detect
  have hauth := hauth 1 2 100 16 0x2000 1000 zeroDigest
    ⟨by omega, by omega, by omega, by omega, by omega, by omega⟩
  have hhandoff := hhandoff 0x2000 0x30000 0x1000 0x1000 zeroDigest
    ⟨by decide, by decide, by decide, by decide, by decide, by decide⟩
  have htoken := htoken 0xA172 zeroDigest (by omega)
  have hlenAuth : sampleAuth.length = 72 := rfl
  have hlenHandoff : sampleHandoff.length = 72 := rfl
  have hlenToken : sampleToken.length = 64 := rfl
  have hbyteAuth : sampleAuth.getD 16 0 = 100 := rfl
  have hbyteHandoff : sampleHandoff.getD 22 0 = 3 := rfl
  have hbyteToken : sampleToken.getD 18 0 = 0 := rfl
  refine ⟨⟨hauth, ?_⟩, ⟨hhandoff, ?_⟩, htoken, ?_⟩
  · refine (hrecord sampleAuth (sampleAuth.set 16 2) hlenAuth ?_).1 1 2 hauth 1 2
    exact differsWithin_set (by omega) (by rw [hlenAuth]; decide) (by rw [hbyteAuth]; decide)
  · refine (hrecord sampleHandoff (sampleHandoff.set 22 2) hlenHandoff ?_).2 hhandoff
    exact differsWithin_set (by omega) (by rw [hlenHandoff]; decide) (by rw [hbyteHandoff]; decide)
  · refine hshort sampleToken (sampleToken.set 18 1) 0xA172 _ hlenToken ?_ htoken 0x1A172 _
    exact differsWithin_set (by omega) (by rw [hlenToken]; decide) (by rw [hbyteToken]; decide)

end OtaFix.Mota
