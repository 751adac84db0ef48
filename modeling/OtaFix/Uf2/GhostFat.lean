import OtaFix.Uf2.WriteBlock
import OtaFix.Lib.Fat16

/-!
# The synthetic volume

`read_block` (`ghostfat.c`) makes up a FAT16 volume sector by sector: the boot
block, two file allocation tables, a root directory with two information files and
`CURRENT.UF2`, and their data, where the sectors of `CURRENT.UF2` are UF2 blocks of
user flash. The number of these is fixed by `uf2_init`. The volume is read with the
general rules of the format (`Lib.Fat16`).
-/

namespace OtaFix.Uf2

open Lib

/-! ## Geometry -/

def sectorSize : Nat := 512

def bpbReservedSectors : Nat := 1

def bpbRootDirEntries : Nat := 64

def bpbTotalSectors : Nat := 0x10109

def fatEntriesPerSector : Nat := sectorSize / 2

def bpbSectorsPerFat : Nat :=
  bpbTotalSectors / fatEntriesPerSector + if bpbTotalSectors % fatEntriesPerSector ≠ 0 then 1 else 0

def dirEntriesPerSector : Nat := sectorSize / 32

def rootDirSectorCount : Nat := bpbRootDirEntries / dirEntriesPerSector

def numFiles : Nat := 3

def numInfoSectors : Nat := numFiles - 1

def trueUserFlashSize : Nat := userFlashEnd - userFlashStart

def uf2Sectors : Nat := trueUserFlashSize / blockSize

/-- The first cluster of `CURRENT.UF2`. -/
def uf2FirstSector : Nat := numInfoSectors + 2

def fsStartFat0Sector : Nat := bpbReservedSectors

def fsStartFat1Sector : Nat := fsStartFat0Sector + bpbSectorsPerFat

def fsStartRootdirSector : Nat := fsStartFat1Sector + bpbSectorsPerFat

def fsStartClustersSector : Nat := fsStartRootdirSector + rootDirSectorCount

def currentUf2FirstLba : Nat := fsStartClustersSector + numInfoSectors

/-- `uf2_init`: the sectors of `CURRENT.UF2`, for the settings in flash. -/
def uf2Init (m : Mem) : Nat :=
  let appStart := dfuBank0RegionStart m
  let appSize := (readSettings m).bank0Size
  if sub32 appStart userFlashStart < trueUserFlashSize ∧
      sub32 appSize 1 < sub32 userFlashEnd appStart then
    (sub32 appStart userFlashStart + appSize + blockSize - 1) % 2 ^ 32 / blockSize
  else uf2Sectors

/-! ## Contents -/

/-- A build of the volume: the shape of its directory, its label, texts and dates. -/
structure Volume where
  /-- `UF2_COMPACT_RECOVERY_VOLUME`. -/
  compact : Bool
  boardAppId : Nat
  volumeLabel : List Byte
  infoUf2File : List Byte
  indexFile : List Byte
  createTimeFine : Byte
  dosTime : BitVec 16
  dosDate : BitVec 16
  boardAppId_lt : boardAppId < 2 ^ 32
  volumeLabel_length : volumeLabel.length = 11
  infoUf2File_length : infoUf2File.length + 1 < sectorSize
  indexFile_length : indexFile.length + 1 < sectorSize

def bootBlock (v : Volume) : List Byte :=
  [0xEB, 0x3C, 0x90] ++ [0x55, 0x46, 0x32, 0x20, 0x55, 0x46, 0x32, 0x20] ++
    put16 (BitVec.ofNat 16 sectorSize) ++ [1] ++ put16 (BitVec.ofNat 16 bpbReservedSectors) ++ [2] ++
    put16 (BitVec.ofNat 16 bpbRootDirEntries) ++
    put16 (if 0xFFFF < bpbTotalSectors then 0 else BitVec.ofNat 16 bpbTotalSectors) ++ [0xF8] ++
    put16 (BitVec.ofNat 16 bpbSectorsPerFat) ++ put16 1 ++ put16 1 ++ put32 0 ++
    put32 (if 0xFFFF < bpbTotalSectors then bpbTotalSectors else 0) ++ [0x80, 0, 0x29] ++
    put32 0x00420042 ++ v.volumeLabel ++ [0x46, 0x41, 0x54, 0x31, 0x36, 0x20, 0x20, 0x20]

/-- `DirEntry`. -/
structure DirEntry where
  name : List Byte
  attrs : Byte := 0
  createTimeFine : Byte := 0
  createTime : BitVec 16 := 0
  createDate : BitVec 16 := 0
  lastAccessDate : BitVec 16 := 0
  highStartCluster : BitVec 16 := 0
  updateTime : BitVec 16 := 0
  updateDate : BitVec 16 := 0
  startCluster : Nat := 0
  size : Nat := 0

def DirEntry.bytes (d : DirEntry) : List Byte :=
  d.name ++ [d.attrs, 0, d.createTimeFine] ++ put16 d.createTime ++ put16 d.createDate ++
    put16 d.lastAccessDate ++ put16 d.highStartCluster ++ put16 d.updateTime ++ put16 d.updateDate ++
    put16 (BitVec.ofNat 16 d.startCluster) ++ put32 d.size

/-- `padded_memcpy`: from its first zero on a name is filled with blanks. -/
def paddedMemcpy : Nat → List Byte → List Byte
  | 0, _ => []
  | n + 1, [] => 0x20 :: paddedMemcpy n []
  | n + 1, b :: src => if b ≠ 0 then b :: paddedMemcpy n src else 0x20 :: paddedMemcpy n (b :: src)

/-- `INFO_UF2TXT`. -/
def infoName : List Byte := [0x49, 0x4E, 0x46, 0x4F, 0x5F, 0x55, 0x46, 0x32, 0x54, 0x58, 0x54]

/-- `INDEX   HTM`. -/
def indexName : List Byte := [0x49, 0x4E, 0x44, 0x45, 0x58, 0x20, 0x20, 0x20, 0x48, 0x54, 0x4D]

/-- `CURRENT UF2`. -/
def currentName : List Byte := [0x43, 0x55, 0x52, 0x52, 0x45, 0x4E, 0x54, 0x20, 0x55, 0x46, 0x32]

/-- The names in `info`, the texts first. -/
def fileNames : List (List Byte) := [infoName, indexName, currentName]

/-- The entry a build writes for file `i`; `compactFiles` has no dates for the information
files. -/
def fileEntry (v : Volume) (sectors i : Nat) : DirEntry :=
  let dated := !v.compact || i = numFiles - 1
  { name := if v.compact then fileNames.getD i [] else paddedMemcpy 11 (fileNames.getD i [])
    createTimeFine := if dated then v.createTimeFine else 0
    createTime := if dated then v.dosTime else 0
    createDate := if dated then v.dosDate else 0
    lastAccessDate := if dated then v.dosDate else 0
    updateTime := if dated then v.dosTime else 0
    updateDate := if dated then v.dosDate else 0
    startCluster := i + 2
    size := match i with
      | 0 => v.infoUf2File.length
      | 1 => v.indexFile.length
      | _ => sectors * sectorSize % 2 ^ 32 }

/-- The sector of zeros every read starts from. -/
def zeroSector : List Byte := List.replicate sectorSize 0

/-- A sector of the root directory; all files are in the first one. -/
def rootDirSector (v : Volume) (sectors sectionIdx : Nat) : List Byte :=
  if sectionIdx = 0 then
    memcpy zeroSector 0 ((DirEntry.mk (paddedMemcpy 11 v.volumeLabel) 0x28 0 0 0 0 0 0 0 0 0 ::
      (List.range numFiles).map (fileEntry v sectors)).flatMap DirEntry.bytes)
  else zeroSector

/-- One turn of the loop over the entries of a FAT sector. -/
def fatTurn (sectors sectionIdx : Nat) (data : List Byte) (i : Nat) : List Byte :=
  let v := sectionIdx * fatEntriesPerSector + i
  if sub32 v uf2FirstSector < sectors then
    memcpy data (2 * i) (put16 (BitVec.ofNat 16
      (if v = uf2FirstSector + sectors - 1 then 0xFFFF else v + 1)))
  else data

/-- A sector of a FAT; the first entries of the first one are the media descriptor and
the information files. -/
def fatSector (sectors sectionIdx : Nat) : List Byte :=
  let data := if sectionIdx = 0 then
      memcpy zeroSector 0 (0xF8 :: List.replicate ((numInfoSectors + 3) * 2 - 1) 0xFF)
    else zeroSector
  (List.range fatEntriesPerSector).foldl (fatTurn sectors sectionIdx) data

/-- Block `idx` of `CURRENT.UF2`. -/
def currentBlock (v : Volume) (sectors : Nat) (m : Mem) (idx : Nat) : List Byte :=
  let addr := userFlashStart + idx * blockSize
  put32 0x0A324655 ++ put32 0x9E5D5157 ++ put32 0x2000 ++ put32 addr ++ put32 blockSize ++
    put32 idx ++ put32 sectors ++ put32 v.boardAppId ++ slice m addr blockSize ++
    List.replicate (476 - blockSize) 0 ++ put32 0x0AB16F30

def dataSector (v : Volume) (sectors : Nat) (m : Mem) (sectionIdx : Nat) : List Byte :=
  if sectionIdx = 0 then memcpy zeroSector 0 v.infoUf2File
  else if sectionIdx = 1 then memcpy zeroSector 0 v.indexFile
  else if sectionIdx - numInfoSectors < sectors then
    currentBlock v sectors m (sectionIdx - numInfoSectors)
  else zeroSector

def readBlock (v : Volume) (sectors : Nat) (m : Mem) (blockNo : Nat) : List Byte :=
  if blockNo = 0 then memcpy (memcpy zeroSector 0 (bootBlock v)) 510 [0x55, 0xAA]
  else if blockNo < fsStartRootdirSector then
    let sectionIdx := blockNo - fsStartFat0Sector
    fatSector sectors
      (if bpbSectorsPerFat ≤ sectionIdx then sectionIdx - bpbSectorsPerFat else sectionIdx)
  else if blockNo < fsStartClustersSector then
    rootDirSector v sectors (blockNo - fsStartRootdirSector)
  else if blockNo < bpbTotalSectors then
    dataSector v sectors m (blockNo - fsStartClustersSector)
  else zeroSector

/-! ## Sizes -/

/-- Whatever the settings, `CURRENT.UF2` has at least one sector and at most those of user
flash. -/
theorem uf2Init_bounds (m : Mem) : 0 < uf2Init m ∧ uf2Init m ≤ uf2Sectors := by
  have hs : userFlashStart = 0x1000 := rfl
  have he : userFlashEnd = 0xEA000 := rfl
  have ht : trueUserFlashSize = 0xE9000 := rfl
  have hb : blockSize = 256 := rfl
  have hu : uf2Sectors = 0xE90 := rfl
  have hsize : (readSettings m).bank0Size < 2 ^ 32 := readWord_lt _ _
  have hstart : dfuBank0RegionStart m < 2 ^ 32 := by
    unfold dfuBank0RegionStart
    split
    · exact readWord_lt _ _
    · decide
  unfold uf2Init
  simp only
  split_ifs with h
  · unfold sub32 at *
    rw [hs, he, ht] at h
    rw [hs, hb, hu]
    omega
  · rw [hu]
    omega

/-! ## The tables -/

open Fat16

variable {v : Volume} {m : Mem} {sectors : Nat}

theorem half_put16 {n : Nat} (hn : n < 2 ^ 16) : half (put16 (BitVec.ofNat 16 n)) 0 = n := by
  simp only [half, put16, List.getD_cons_zero, List.getD_cons_succ, BitVec.extractLsb'_toNat,
    BitVec.toNat_ofNat, Nat.shiftRight_eq_div_pow, Nat.zero_add]
  omega

theorem put16_length (h : BitVec 16) : (put16 h).length = 2 := rfl

/-- A half word written into a sector. -/
theorem half_memcpy {data : List Byte} {i j : Nat} {h : BitVec 16} (hi : 2 * i + 2 ≤ data.length) :
    half (memcpy data (2 * i) (put16 h)) (2 * j) =
      if j = i then half (put16 h) 0 else half data (2 * j) := by
  have hfit : 2 * i + (put16 h).length ≤ data.length := hi
  unfold half
  rw [memcpy_getD hfit, memcpy_getD hfit, put16_length]
  by_cases hj : j = i
  · subst hj
    rw [if_pos ⟨by omega, by omega⟩, if_pos ⟨by omega, by omega⟩, if_pos rfl, Nat.sub_self,
      Nat.add_sub_cancel_left]
  · rw [if_neg (by omega), if_neg (by omega), if_neg hj]

/-- The entry of a cluster: the chain of `CURRENT.UF2`, the media descriptor and the
information files, and free clusters. -/
def fatValue (sectors c : Nat) : Nat :=
  if uf2FirstSector ≤ c ∧ c < uf2FirstSector + sectors then
    if c = uf2FirstSector + sectors - 1 then 0xFFFF else c + 1
  else if c = 0 then 0xFFF8
  else if c < uf2FirstSector + 1 then 0xFFFF
  else 0

theorem fatTurn_length {data : List Byte} (hlen : data.length = sectorSize) {i : Nat}
    (hi : i < fatEntriesPerSector) (sectionIdx : Nat) :
    (fatTurn sectors sectionIdx data i).length = sectorSize := by
  have hs : sectorSize = 512 := rfl
  have hf : fatEntriesPerSector = 256 := rfl
  unfold fatTurn
  simp only
  split
  · rw [memcpy_length (by rw [put16_length]; omega), hlen]
  · exact hlen

/-- A cluster of `CURRENT.UF2`. -/
def InCurrent (sectors c : Nat) : Prop := uf2FirstSector ≤ c ∧ c < uf2FirstSector + sectors

instance (sectors c : Nat) : Decidable (InCurrent sectors c) := inferInstanceAs (Decidable (_ ∧ _))

theorem fatValue_lt (hsec : sectors ≤ uf2Sectors) (c : Nat) : fatValue sectors c < 2 ^ 16 := by
  have hu : uf2Sectors = 0xE90 := rfl
  have h4 : uf2FirstSector = 4 := rfl
  unfold fatValue
  split_ifs <;> omega

/-- A turn writes its own entry, if that is one of `CURRENT.UF2`. -/
theorem fatTurn_half {data : List Byte} (hlen : data.length = sectorSize) {sectionIdx : Nat}
    (hidx : sectionIdx < bpbSectorsPerFat) (hsec : sectors ≤ uf2Sectors) {n j : Nat}
    (hn : n < fatEntriesPerSector) :
    half (fatTurn sectors sectionIdx data n) (2 * j) =
      if j = n ∧ InCurrent sectors (sectionIdx * fatEntriesPerSector + n) then
        fatValue sectors (sectionIdx * fatEntriesPerSector + n) else half data (2 * j) := by
  have hs : sectorSize = 512 := rfl
  have hf : fatEntriesPerSector = 256 := rfl
  have hp : bpbSectorsPerFat = 258 := rfl
  have hu : uf2Sectors = 0xE90 := rfl
  have h4 : uf2FirstSector = 4 := rfl
  have hmul : sectionIdx * fatEntriesPerSector < 0x10200 := by
    rw [hf]
    omega
  generalize hc : sectionIdx * fatEntriesPerSector + n = c
  have hsub : sub32 c uf2FirstSector < sectors ↔ InCurrent sectors c := by
    unfold sub32 InCurrent
    omega
  unfold fatTurn
  simp only [hc, hsub]
  by_cases hin : InCurrent sectors c
  · have hvalue : (if c = uf2FirstSector + sectors - 1 then 0xFFFF else c + 1) = fatValue sectors c := by
      unfold fatValue
      exact (if_pos hin).symm
    rw [if_pos hin, half_memcpy (by omega), hvalue, half_put16 (fatValue_lt hsec c)]
    exact if_congr (by simp [hin]) rfl rfl
  · rw [if_neg hin, if_neg fun h => hin h.2]

/-- The loop writes the entries of `CURRENT.UF2` and no others. -/
theorem fatLoop_spec {data : List Byte} (hlen : data.length = sectorSize) {sectionIdx : Nat}
    (hidx : sectionIdx < bpbSectorsPerFat) (hsec : sectors ≤ uf2Sectors) (n : Nat)
    (hn : n ≤ fatEntriesPerSector) :
    ((List.range n).foldl (fatTurn sectors sectionIdx) data).length = sectorSize ∧
      ∀ j, half ((List.range n).foldl (fatTurn sectors sectionIdx) data) (2 * j) =
        if j < n ∧ InCurrent sectors (sectionIdx * fatEntriesPerSector + j) then
          fatValue sectors (sectionIdx * fatEntriesPerSector + j)
        else half data (2 * j) := by
  induction n with
  | zero => exact ⟨hlen, fun j => by rw [if_neg fun h => Nat.not_lt_zero j h.1]; rfl⟩
  | succ n ih =>
    obtain ⟨hlength, hhalf⟩ := ih (Nat.le_of_succ_le hn)
    rw [List.range_succ, List.foldl_append, List.foldl_cons, List.foldl_nil]
    refine ⟨fatTurn_length hlength hn _, fun j => ?_⟩
    rw [fatTurn_half hlength hidx hsec hn, hhalf j]
    by_cases hjn : j = n
    · subst hjn
      by_cases hin : InCurrent sectors (sectionIdx * fatEntriesPerSector + j)
      · rw [if_pos ⟨rfl, hin⟩, if_pos ⟨Nat.lt_succ_self j, hin⟩]
      · rw [if_neg fun h => hin h.2, if_neg fun h => hin h.2, if_neg fun h => hin h.2]
    · rw [if_neg fun h => hjn h.1]
      exact if_congr (and_congr_left' (by omega)) rfl rfl

/-- The table before the loop: the media descriptor, and end marks for the reserved entry
and the first cluster of every file. -/
def fatHead : List Byte :=
  memcpy zeroSector 0 (0xF8 :: List.replicate ((numInfoSectors + 3) * 2 - 1) 0xFF)

theorem zeroSector_length : zeroSector.length = sectorSize := List.length_replicate

theorem zeroSector_getD (i : Nat) : zeroSector.getD i 0 = 0 := by
  unfold zeroSector
  rw [List.getD_eq_getElem?_getD, List.getElem?_replicate]
  split <;> rfl

theorem fatHead_fits : 0 + ((0xF8 : Byte) :: List.replicate ((numInfoSectors + 3) * 2 - 1) 0xFF).length ≤
    zeroSector.length := by
  rw [zeroSector_length]
  decide

theorem fatHead_half (c : Nat) : half fatHead (2 * c) =
    if c = 0 then 0xFFF8 else if c < uf2FirstSector + 1 then 0xFFFF else 0 := by
  have hlen : ((0xF8 : Byte) :: List.replicate ((numInfoSectors + 3) * 2 - 1) 0xFF).length = 10 := rfl
  have h4 : uf2FirstSector = 4 := rfl
  unfold half fatHead
  rw [memcpy_getD fatHead_fits, memcpy_getD fatHead_fits, hlen, zeroSector_getD, zeroSector_getD]
  by_cases hc : c < 5
  · rw [if_pos ⟨by omega, by omega⟩, if_pos ⟨by omega, by omega⟩]
    obtain rfl | rfl | rfl | rfl | rfl : c = 0 ∨ c = 1 ∨ c = 2 ∨ c = 3 ∨ c = 4 := by omega
    all_goals rfl
  · rw [if_neg (by omega), if_neg (by omega), if_neg (by omega), if_neg (by omega)]
    rfl

/-- Every entry of the tables. -/
theorem fatSector_half (hsec : sectors ≤ uf2Sectors) {c : Nat}
    (hc : c / fatEntriesPerSector < bpbSectorsPerFat) :
    half (fatSector sectors (c / fatEntriesPerSector)) (2 * (c % fatEntriesPerSector)) =
      fatValue sectors c := by
  have hf : fatEntriesPerSector = 256 := rfl
  have h4 : uf2FirstSector = 4 := rfl
  have hmod : c % fatEntriesPerSector < fatEntriesPerSector := Nat.mod_lt _ (by decide)
  have hsum : c / fatEntriesPerSector * fatEntriesPerSector + c % fatEntriesPerSector = c := by
    rw [Nat.mul_comm]
    exact Nat.div_add_mod _ _
  have hinit : (if c / fatEntriesPerSector = 0 then fatHead else zeroSector).length = sectorSize ∧
      half (if c / fatEntriesPerSector = 0 then fatHead else zeroSector)
        (2 * (c % fatEntriesPerSector)) =
        if c = 0 then 0xFFF8 else if c < uf2FirstSector + 1 then 0xFFFF else 0 := by
    by_cases h0 : c / fatEntriesPerSector = 0
    · rw [if_pos h0, show c % fatEntriesPerSector = c by rw [h0] at hsum; omega]
      exact ⟨(memcpy_length fatHead_fits).trans zeroSector_length, fatHead_half c⟩
    · have hlarge : fatEntriesPerSector ≤ c := by
        by_contra hlt
        exact h0 (Nat.div_eq_of_lt (by omega))
      rw [if_neg h0, if_neg (by omega), if_neg (by omega)]
      refine ⟨zeroSector_length, ?_⟩
      unfold half
      rw [zeroSector_getD, zeroSector_getD]
      rfl
  unfold fatSector
  simp only
  change half ((List.range fatEntriesPerSector).foldl (fatTurn sectors (c / fatEntriesPerSector))
    (if c / fatEntriesPerSector = 0 then fatHead else zeroSector)) _ = _
  rw [(fatLoop_spec hinit.1 hc hsec _ (Nat.le_refl _)).2, hsum, hinit.2]
  by_cases hin : InCurrent sectors c
  · rw [if_pos ⟨hmod, hin⟩]
  · rw [if_neg fun h => hin h.2]
    unfold fatValue
    exact (if_neg hin).symm

/-! ## The boot block and the directory -/

/-- The geometry the boot block states. -/
def bpb : Bpb := ⟨sectorSize, 1, bpbReservedSectors, 2, bpbRootDirEntries, bpbSectorsPerFat,
  bpbTotalSectors⟩

theorem bootBlock_length : (bootBlock v).length = 62 := by
  simp only [bootBlock, List.length_append, v.volumeLabel_length]
  rfl

theorem readBlock_boot_getD {i : Nat} (hi : i < 62) :
    (readBlock v sectors m 0).getD i 0 = (bootBlock v).getD i 0 := by
  have hs : sectorSize = 512 := rfl
  have hfit : 0 + (bootBlock v).length ≤ zeroSector.length := by
    rw [bootBlock_length, zeroSector_length]
    decide
  have hmark : 510 + [(0x55 : Byte), 0xAA].length ≤ (memcpy zeroSector 0 (bootBlock v)).length := by
    rw [memcpy_length hfit, zeroSector_length]
    decide
  unfold readBlock
  rw [if_pos rfl, memcpy_getD hmark, if_neg (by omega), memcpy_getD hfit, bootBlock_length,
    if_pos ⟨Nat.zero_le i, by omega⟩, Nat.sub_zero]

/-- The parameter block, in front of the drive number and the label. -/
def bootHead : List Byte :=
  [0xEB, 0x3C, 0x90] ++ [0x55, 0x46, 0x32, 0x20, 0x55, 0x46, 0x32, 0x20] ++
    put16 (BitVec.ofNat 16 sectorSize) ++ [1] ++ put16 (BitVec.ofNat 16 bpbReservedSectors) ++ [2] ++
    put16 (BitVec.ofNat 16 bpbRootDirEntries) ++
    put16 (if 0xFFFF < bpbTotalSectors then 0 else BitVec.ofNat 16 bpbTotalSectors) ++ [0xF8] ++
    put16 (BitVec.ofNat 16 bpbSectorsPerFat) ++ put16 1 ++ put16 1 ++ put32 0 ++
    put32 (if 0xFFFF < bpbTotalSectors then bpbTotalSectors else 0)

theorem bootBlock_head : ∃ rest, bootBlock v = bootHead ++ rest :=
  ⟨[0x80, 0, 0x29] ++ put32 0x00420042 ++ v.volumeLabel ++
    [0x46, 0x41, 0x54, 0x31, 0x36, 0x20, 0x20, 0x20],
    by simp only [bootBlock, bootHead, List.append_assoc]⟩

theorem parse_bootBlock : Bpb.parse (readBlock v sectors m 0) = bpb := by
  obtain ⟨rest, hrest⟩ := bootBlock_head (v := v)
  have hhead : Bpb.parse (readBlock v sectors m 0) = Bpb.parse bootHead := by
    refine Bpb.parse_congr fun i hi => ?_
    rw [readBlock_boot_getD (by omega), hrest, List.getD_eq_getElem?_getD,
      List.getElem?_append_left hi, List.getD_eq_getElem?_getD]
  rw [hhead]
  decide +kernel

theorem paddedMemcpy_length (n : Nat) (src : List Byte) : (paddedMemcpy n src).length = n := by
  induction n generalizing src with
  | zero => rfl
  | succ n ih =>
    cases src with
    | nil => rw [paddedMemcpy, List.length_cons, ih]
    | cons b src =>
      rw [paddedMemcpy]
      split <;> rw [List.length_cons, ih]

theorem DirEntry.bytes_length {d : DirEntry} (h : d.name.length = 11) : d.bytes.length = 32 := by
  simp only [DirEntry.bytes, List.length_append, h]
  rfl

theorem word_put32 {n : Nat} (hn : n < 2 ^ 32) : word (put32 n) 0 = n := by
  simp only [word, half, put32, List.getD_cons_zero, List.getD_cons_succ, BitVec.toNat_ofNat,
    Nat.zero_add]
  omega

/-- An entry as a host reads it. -/
theorem parse_bytes {d : DirEntry} (h : d.name.length = 11) (hstart : d.startCluster < 2 ^ 16)
    (hsize : d.size < 2 ^ 32) : File.parse d.bytes = ⟨d.name, d.attrs, d.startCluster, d.size⟩ := by
  obtain ⟨tail, htail, hbytes⟩ : ∃ tail : List Byte, tail =
      [d.attrs, 0, d.createTimeFine] ++ put16 d.createTime ++ put16 d.createDate ++
        put16 d.lastAccessDate ++ put16 d.highStartCluster ++ put16 d.updateTime ++
        put16 d.updateDate ++ put16 (BitVec.ofNat 16 d.startCluster) ++ put32 d.size ∧
      d.bytes = d.name ++ tail := ⟨_, rfl, by simp only [DirEntry.bytes, List.append_assoc]⟩
  have hget : ∀ i, (d.name ++ tail).getD (11 + i) 0 = tail.getD i 0 := by
    intro i
    rw [List.getD_eq_getElem?_getD, List.getElem?_append_right (by omega), h,
      Nat.add_sub_cancel_left, List.getD_eq_getElem?_getD]
  have hhalf : ∀ i, half (d.name ++ tail) (11 + i) = half tail i := fun i =>
    half_congr (hget i) (hget (i + 1))
  have hstart' : half tail 15 = d.startCluster := by
    rw [htail]
    exact half_put16 hstart
  have hsize' : word tail 17 = d.size := by
    rw [htail]
    exact word_put32 hsize
  have hattrs : tail.getD 0 0 = d.attrs := by
    rw [htail]
    rfl
  unfold File.parse
  rw [hbytes, List.take_left' h, show 26 = 11 + 15 from rfl, hhalf, hstart', ← hattrs, ← hget 0]
  congr 1
  rw [← hsize']
  unfold word
  rw [← hhalf, ← hhalf]

/-- The label of the volume, as an entry. -/
def labelEntry (v : Volume) : DirEntry := .mk (paddedMemcpy 11 v.volumeLabel) 0x28 0 0 0 0 0 0 0 0 0

/-- The entries of the root directory. -/
def rootFile (v : Volume) (sectors : Nat) : Nat → DirEntry
  | 0 => labelEntry v
  | i + 1 => fileEntry v sectors i

theorem fileEntry_name {i : Nat} (hi : i < numFiles) :
    (fileEntry v sectors i).name = fileNames.getD i [] := by
  have hn : numFiles = 3 := rfl
  have hpad : paddedMemcpy 11 (fileNames.getD i []) = fileNames.getD i [] := by
    obtain rfl | rfl | rfl : i = 0 ∨ i = 1 ∨ i = 2 := by omega
    all_goals rfl
  simp only [fileEntry, hpad, ite_self]

theorem rootFile_name_length {i : Nat} (hi : i < numFiles + 1) :
    (rootFile v sectors i).name.length = 11 := by
  have hn : numFiles = 3 := rfl
  cases i with
  | zero => exact paddedMemcpy_length 11 _
  | succ i =>
    rw [rootFile, fileEntry_name (by omega)]
    obtain rfl | rfl | rfl : i = 0 ∨ i = 1 ∨ i = 2 := by omega
    all_goals rfl

/-- The first sector of the root directory, entry by entry. -/
theorem rootDirSector_entry {i : Nat} (hi : i < numFiles + 1) :
    ((rootDirSector v sectors 0).drop (32 * i)).take 32 = (rootFile v sectors i).bytes := by
  have hn : numFiles = 3 := rfl
  have hlen : ∀ i, i < numFiles + 1 → (rootFile v sectors i).bytes.length = 32 := fun i hi =>
    DirEntry.bytes_length (rootFile_name_length hi)
  obtain ⟨rest, hrest⟩ : ∃ rest, rootDirSector v sectors 0 = [rootFile v sectors 0, rootFile v sectors 1,
      rootFile v sectors 2, rootFile v sectors 3].flatMap DirEntry.bytes ++ rest := by
    unfold rootDirSector
    rw [if_pos rfl, memcpy, List.take_zero, List.nil_append]
    exact ⟨_, rfl⟩
  simp only [List.flatMap_cons, List.flatMap_nil, List.append_nil, List.append_assoc] at hrest
  have h0 := hlen 0 (by omega)
  have h1 := hlen 1 (by omega)
  have h2 := hlen 2 (by omega)
  have h3 := hlen 3 (by omega)
  rw [hrest]
  obtain rfl | rfl | rfl | rfl : i = 0 ∨ i = 1 ∨ i = 2 ∨ i = 3 := by omega
  · rw [Nat.mul_zero, List.drop_zero, List.take_left' h0]
  · rw [show 32 * 1 = (rootFile v sectors 0).bytes.length by rw [h0], List.drop_left,
      List.take_left' h1]
  · rw [show 32 * 2 = 32 + 32 from rfl, ← List.drop_drop, List.drop_left' h0, List.drop_left' h1,
      List.take_left' h2]
  · rw [show 32 * 3 = 32 + (32 + 32) from rfl, ← List.drop_drop, ← List.drop_drop, List.drop_left' h0,
      List.drop_left' h1, List.drop_left' h2, List.take_left' h3]

theorem rootEntry_eq {i : Nat} (hi : i < numFiles + 1) :
    rootEntry (readBlock v sectors m) bpb i = ⟨(rootFile v sectors i).name, (rootFile v sectors i).attrs,
      (rootFile v sectors i).startCluster, (rootFile v sectors i).size⟩ := by
  have hn : numFiles = 3 := rfl
  have hs : sectorSize = 512 := rfl
  have hu : uf2Sectors = 0xE90 := rfl
  have hinfo := v.infoUf2File_length
  have hindex := v.indexFile_length
  have hroot : readBlock v sectors m (bpb.rootLba + i * 32 / bpb.sectorSize) =
      rootDirSector v sectors 0 := by
    rw [show bpb.rootLba + i * 32 / bpb.sectorSize = fsStartRootdirSector by
      rw [show bpb.sectorSize = 512 from rfl, Nat.div_eq_of_lt (by omega)]; rfl]
    rfl
  unfold rootEntry
  rw [hroot, show i * 32 % bpb.sectorSize = 32 * i by
    rw [show bpb.sectorSize = 512 from rfl]; omega, rootDirSector_entry hi]
  refine parse_bytes (rootFile_name_length hi) ?_ ?_
  · cases i with
    | zero => exact Nat.two_pow_pos 16
    | succ i =>
      change i + 2 < 2 ^ 16
      omega
  · obtain rfl | rfl | rfl | rfl : i = 0 ∨ i = 1 ∨ i = 2 ∨ i = 3 := by omega
    · exact Nat.two_pow_pos 32
    · change v.infoUf2File.length < 2 ^ 32
      omega
    · change v.indexFile.length < 2 ^ 32
      omega
    · exact Nat.mod_lt _ (Nat.two_pow_pos 32)

/-- A file of the volume. -/
def hostFile (v : Volume) (sectors i : Nat) : File :=
  ⟨fileNames.getD i [], 0, i + 2, (fileEntry v sectors i).size⟩

/-- A host finds every file under its name. -/
theorem lookup_file {i : Nat} (hi : i < numFiles) :
    lookup (readBlock v sectors m) bpb (fileNames.getD i []) = some (hostFile v sectors i) := by
  have hn : numFiles = 3 := rfl
  have hentry : ∀ i, i < numFiles →
      rootEntry (readBlock v sectors m) bpb (i + 1) = hostFile v sectors i := by
    intro i hi
    rw [rootEntry_eq (by omega), rootFile, fileEntry_name hi]
    rfl
  have hlabel : (!(rootEntry (readBlock v sectors m) bpb 0).attrs.getLsbD 3) = false := by
    rw [rootEntry_eq (by omega)]
    change (!(0x28 : Byte).getLsbD 3) = false
    decide
  have hplain : ∀ j, (!(hostFile v sectors j).attrs.getLsbD 3) = true := by
    intro j
    change (!(0 : Byte).getLsbD 3) = true
    decide
  obtain ⟨rest, hrange⟩ : ∃ rest, List.range bpb.rootEntries = 0 :: 1 :: 2 :: 3 :: rest := ⟨_, rfl⟩
  unfold lookup
  rw [hrange]
  simp only [List.map_cons, List.find?_cons, hlabel, hplain, Bool.and_false, Bool.and_true,
    hentry 0 (by omega), hentry 1 (by omega), hentry 2 (by omega)]
  obtain rfl | rfl | rfl : i = 0 ∨ i = 1 ∨ i = 2 := by omega
  all_goals rfl

/-! ## Sectors -/

theorem fatSector_length (sectors sectionIdx : Nat) :
    (fatSector sectors sectionIdx).length = sectorSize := by
  have hfold : ∀ n, n ≤ fatEntriesPerSector → ∀ data : List Byte, data.length = sectorSize →
      ((List.range n).foldl (fatTurn sectors sectionIdx) data).length = sectorSize := by
    intro n
    induction n with
    | zero => exact fun _ _ h => h
    | succ n ih =>
      intro hn data hlen
      rw [List.range_succ, List.foldl_append, List.foldl_cons, List.foldl_nil]
      exact fatTurn_length (ih (Nat.le_of_succ_le hn) data hlen) hn _
  unfold fatSector
  refine hfold _ (Nat.le_refl _) _ ?_
  split
  · exact (memcpy_length fatHead_fits).trans zeroSector_length
  · exact zeroSector_length

theorem rootDirSector_length (sectionIdx : Nat) :
    (rootDirSector v sectors sectionIdx).length = sectorSize := by
  unfold rootDirSector
  split
  · rw [memcpy_length, zeroSector_length]
    change 0 + ([rootFile v sectors 0, rootFile v sectors 1, rootFile v sectors 2,
      rootFile v sectors 3].flatMap DirEntry.bytes).length ≤ zeroSector.length
    have hlen : ∀ i, i < numFiles + 1 → (rootFile v sectors i).bytes.length = 32 := fun i hi =>
      DirEntry.bytes_length (rootFile_name_length hi)
    rw [zeroSector_length]
    simp only [List.flatMap_cons, List.flatMap_nil, List.append_nil, List.length_append]
    rw [hlen 0 (by decide), hlen 1 (by decide), hlen 2 (by decide), hlen 3 (by decide)]
    decide
  · exact zeroSector_length

theorem currentBlock_length (idx : Nat) : (currentBlock v sectors m idx).length = sectorSize := by
  simp only [currentBlock, List.length_append, List.length_replicate, slice_length]
  rfl

theorem dataSector_length (sectionIdx : Nat) : (dataSector v sectors m sectionIdx).length = sectorSize := by
  have hinfo := v.infoUf2File_length
  have hindex := v.indexFile_length
  unfold dataSector
  split_ifs
  · rw [memcpy_length (by rw [zeroSector_length]; omega), zeroSector_length]
  · rw [memcpy_length (by rw [zeroSector_length]; omega), zeroSector_length]
  · exact currentBlock_length _
  · exact zeroSector_length

theorem readBlock_length (v : Volume) (sectors : Nat) (m : Mem) (blockNo : Nat) :
    (readBlock v sectors m blockNo).length = sectorSize := by
  unfold readBlock
  split_ifs
  · rw [memcpy_length, memcpy_length, zeroSector_length]
    · rw [bootBlock_length, zeroSector_length]
      decide
    · rw [memcpy_length, zeroSector_length]
      · decide
      · rw [bootBlock_length, zeroSector_length]
        decide
  · exact fatSector_length _ _
  · exact rootDirSector_length _
  · exact dataSector_length _
  · exact zeroSector_length

/-- The sector a read returns. -/
def readSector (v : Volume) (sectors : Nat) (m : Mem) (blockNo : Nat) : Sector :=
  ⟨readBlock v sectors m blockNo, readBlock_length v sectors m blockNo⟩

theorem wordAt_put32 {n : Nat} (hn : n < 2 ^ 32) (l : List Byte) : wordAt (put32 n ++ l) 0 = n :=
  get32_put32 hn

/-- A word behind a word. -/
theorem wordAt_put32_add (n o : Nat) (l : List Byte) : wordAt (put32 n ++ l) (o + 4) = wordAt l o := by
  have hget : ∀ i, (put32 n ++ l).getD (i + 4) 0 = l.getD i 0 := fun _ => rfl
  unfold wordAt
  rw [hget, ← hget (o + 1), ← hget (o + 2), ← hget (o + 3)]

/-- A word behind a list. -/
theorem wordAt_append {l l' : List Byte} {o : Nat} (ho : l.length = o) :
    wordAt (l ++ l') o = wordAt l' 0 := by
  have hget : ∀ i, (l ++ l').getD (o + i) 0 = l'.getD i 0 := by
    intro i
    rw [List.getD_eq_getElem?_getD, List.getElem?_append_right (by omega), ho,
      Nat.add_sub_cancel_left, List.getD_eq_getElem?_getD]
  have h0 := hget 0
  rw [Nat.add_zero] at h0
  unfold wordAt
  rw [h0, hget 1, hget 2, hget 3]

theorem currentBlock_words {idx : Nat} (haddr : userFlashStart + idx * blockSize < 2 ^ 32)
    (hsec : sectors < 2 ^ 32) :
    let d := currentBlock v sectors m idx
    wordAt d 0 = 0x0A324655 ∧ wordAt d 4 = 0x9E5D5157 ∧ wordAt d 8 = 0x2000 ∧
      wordAt d 12 = userFlashStart + idx * blockSize ∧ wordAt d 16 = blockSize ∧ wordAt d 20 = idx ∧
      wordAt d 24 = sectors ∧ wordAt d 28 = v.boardAppId ∧ wordAt d 508 = 0x0AB16F30 := by
  have hidx : idx < 2 ^ 32 := by
    rw [show blockSize = 256 from rfl] at haddr
    omega
  have hlen : (slice m (userFlashStart + idx * blockSize) blockSize).length = 256 := slice_length _ _ _
  have hpad : (List.replicate (476 - blockSize) (0 : Byte)).length = 220 := List.length_replicate
  simp only [currentBlock, List.append_assoc]
  refine ⟨wordAt_put32 (by omega) _, ?_, ?_, ?_, ?_, ?_, ?_, ?_, ?_⟩
  · rw [wordAt_put32_add _ 0, wordAt_put32 (by omega)]
  · rw [wordAt_put32_add _ 4, wordAt_put32_add _ 0, wordAt_put32 (by omega)]
  · rw [wordAt_put32_add _ 8, wordAt_put32_add _ 4, wordAt_put32_add _ 0, wordAt_put32 haddr]
  · rw [wordAt_put32_add _ 12, wordAt_put32_add _ 8, wordAt_put32_add _ 4, wordAt_put32_add _ 0,
      wordAt_put32 (by decide)]
  · rw [wordAt_put32_add _ 16, wordAt_put32_add _ 12, wordAt_put32_add _ 8, wordAt_put32_add _ 4,
      wordAt_put32_add _ 0, wordAt_put32 hidx]
  · rw [wordAt_put32_add _ 20, wordAt_put32_add _ 16, wordAt_put32_add _ 12, wordAt_put32_add _ 8,
      wordAt_put32_add _ 4, wordAt_put32_add _ 0, wordAt_put32 hsec]
  · rw [wordAt_put32_add _ 24, wordAt_put32_add _ 20, wordAt_put32_add _ 16, wordAt_put32_add _ 12,
      wordAt_put32_add _ 8, wordAt_put32_add _ 4, wordAt_put32_add _ 0, wordAt_put32 v.boardAppId_lt]
  · rw [wordAt_put32_add _ 504, wordAt_put32_add _ 500, wordAt_put32_add _ 496, wordAt_put32_add _ 492,
      wordAt_put32_add _ 488, wordAt_put32_add _ 484, wordAt_put32_add _ 480, wordAt_put32_add _ 476,
      ← List.append_assoc, wordAt_append (by rw [List.length_append, hlen, hpad]), ← List.append_nil
      (put32 0x0AB16F30), wordAt_put32 (by omega)]

/-- Sector `k` of `CURRENT.UF2`. -/
theorem readSector_current {k : Nat} (hk : k < sectors) (hsec : sectors ≤ uf2Sectors) :
    let s := readSector v sectors m (currentUf2FirstLba + k)
    isUf2Block s = true ∧ s.block = ⟨userFlashStart + k * blockSize, k, sectors, v.boardAppId,
      slice m (userFlashStart + k * blockSize) blockSize ++ List.replicate (476 - blockSize) 0⟩ := by
  have hu : uf2Sectors = 0xE90 := rfl
  have hb : blockSize = 256 := rfl
  have hs : userFlashStart = 0x1000 := rfl
  have h1 : currentUf2FirstLba = 523 := rfl
  have h2 : fsStartClustersSector = 521 := rfl
  have h3 : fsStartRootdirSector = 517 := rfl
  have h4 : bpbTotalSectors = 0x10109 := rfl
  have h5 : numInfoSectors = 2 := rfl
  have hread : readBlock v sectors m (currentUf2FirstLba + k) = currentBlock v sectors m k := by
    unfold readBlock dataSector
    rw [if_neg (by omega), if_neg (by omega), if_neg (by omega), if_pos (by omega), if_neg (by omega),
      if_neg (by omega), if_pos (by omega),
      show currentUf2FirstLba + k - fsStartClustersSector - numInfoSectors = k by omega]
  obtain ⟨hm0, hm1, hflags, haddr, hpay, hno, hnum, hfam, hend⟩ :=
    show let d := currentBlock v sectors m k
      wordAt d 0 = 0x0A324655 ∧ wordAt d 4 = 0x9E5D5157 ∧ wordAt d 8 = 0x2000 ∧
      wordAt d 12 = userFlashStart + k * blockSize ∧ wordAt d 16 = blockSize ∧ wordAt d 20 = k ∧
      wordAt d 24 = sectors ∧ wordAt d 28 = v.boardAppId ∧ wordAt d 508 = 0x0AB16F30 from
    currentBlock_words (by rw [hb]; omega) (by omega)
  have hdata : ((currentBlock v sectors m k).drop 32).take 476 =
      slice m (userFlashStart + k * blockSize) blockSize ++ List.replicate (476 - blockSize) 0 := by
    have hlen : (slice m (userFlashStart + k * blockSize) blockSize ++
        List.replicate (476 - blockSize) (0 : Byte)).length = 476 := by
      rw [List.length_append, slice_length, List.length_replicate]
      rfl
    have hsplit : (currentBlock v sectors m k).drop 32 =
        (slice m (userFlashStart + k * blockSize) blockSize ++ List.replicate (476 - blockSize) 0) ++
          put32 0x0AB16F30 := by
      have hhead : (put32 0x0A324655 ++ put32 0x9E5D5157 ++ put32 0x2000 ++
        put32 (userFlashStart + k * blockSize) ++ put32 blockSize ++ put32 k ++ put32 sectors ++
        put32 v.boardAppId).length = 32 := rfl
      unfold currentBlock
      rw [List.append_assoc, List.append_assoc, List.drop_left' hhead, ← List.append_assoc]
    rw [hsplit, List.take_left' hlen]
  intro s
  have hbytes : s.bytes = currentBlock v sectors m k := hread
  constructor
  · unfold isUf2Block
    rw [hbytes, hm0, hm1, hflags, haddr, hpay, hend]
    have htarget : (userFlashStart + k * blockSize) % blockSize = 0 := by
      rw [hs, hb]
      omega
    rw [htarget]
    decide
  · unfold Sector.block
    rw [hbytes, haddr, hno, hnum, hfam, hdata]

/-! ## The volume -/

theorem entry_readBlock (hsec : sectors ≤ uf2Sectors) {c : Nat}
    (hc : c * 2 / bpb.sectorSize < bpb.sectorsPerFat) :
    entry (readBlock v sectors m) bpb c = fatValue sectors c := by
  have hf : fatEntriesPerSector = 256 := rfl
  have hp : bpbSectorsPerFat = 258 := rfl
  rw [show bpb.sectorSize = 512 from rfl, show bpb.sectorsPerFat = 258 from rfl] at hc
  have hdiv : c * 2 / 512 = c / fatEntriesPerSector := by
    rw [hf]
    omega
  have hmod : c * 2 % 512 = 2 * (c % fatEntriesPerSector) := by
    rw [hf]
    omega
  have hread : readBlock v sectors m (bpb.fatLba 0 (c * 2 / 512)) =
      fatSector sectors (c / fatEntriesPerSector) := by
    have hlba : bpb.fatLba 0 (c * 2 / 512) = 1 + c / fatEntriesPerSector := by
      rw [hdiv]
      change 1 + 0 * 258 + _ = _
      omega
    have h0 : fsStartFat0Sector = 1 := rfl
    have h3 : fsStartRootdirSector = 517 := rfl
    rw [hlba]
    unfold readBlock
    rw [if_neg (by omega), if_pos (by omega)]
    simp only
    rw [if_neg (by omega), h0, Nat.add_sub_cancel_left]
  unfold entry
  rw [show bpb.sectorSize = 512 from rfl, hread, hmod, fatSector_half hsec (by omega)]

theorem fat_copies {i : Nat} (hi : i < bpb.sectorsPerFat) :
    readBlock v sectors m (bpb.fatLba 0 i) = readBlock v sectors m (bpb.fatLba 1 i) := by
  have h0 : fsStartFat0Sector = 1 := rfl
  have h3 : fsStartRootdirSector = 517 := rfl
  have hp : bpbSectorsPerFat = 258 := rfl
  rw [show bpb.sectorsPerFat = 258 from rfl] at hi
  have hlba0 : bpb.fatLba 0 i = 1 + i := by
    change 1 + 0 * 258 + i = _
    omega
  have hlba1 : bpb.fatLba 1 i = 259 + i := by
    change 1 + 1 * 258 + i = _
    omega
  rw [hlba0, hlba1]
  unfold readBlock
  rw [if_neg (by omega), if_pos (by omega), if_neg (by omega), if_pos (by omega)]
  simp only
  rw [if_neg (by omega), if_pos (by omega),
    show 259 + i - fsStartFat0Sector - bpbSectorsPerFat = 1 + i - fsStartFat0Sector by omega]

/-- The chain of `CURRENT.UF2`. -/
theorem follow_current (hpos : 0 < sectors) (hsec : sectors ≤ uf2Sectors) {fuel : Nat}
    (hfuel : sectors ≤ fuel) : follow (entry (readBlock v sectors m) bpb) fuel uf2FirstSector =
      some (List.range' uf2FirstSector sectors) := by
  have hu : uf2Sectors = 0xE90 := rfl
  have h4 : uf2FirstSector = 4 := rfl
  obtain ⟨n, rfl⟩ := Nat.exists_eq_succ_of_ne_zero (Nat.ne_of_gt hpos)
  have hentry : ∀ i, i ≤ n → entry (readBlock v n.succ m) bpb (uf2FirstSector + i) =
      fatValue n.succ (uf2FirstSector + i) := by
    intro i hi
    refine entry_readBlock hsec ?_
    change (uf2FirstSector + i) * 2 / 512 < 258
    omega
  refine follow_run (fun i hi => ?_) (fun i hi => ?_) ?_ (by omega)
  · rw [hentry i (by omega)]
    unfold fatValue
    rw [if_pos (by omega), if_neg (by omega)]
  · unfold isEnd
    omega
  · rw [hentry n (Nat.le_refl n)]
    unfold fatValue isEnd
    rw [if_pos (by omega), if_pos (by omega)]
    omega

/-- What a host relies on, on a volume of geometry `b` with a `CURRENT.UF2` of `n` sectors:
the tables are equal, the chain of `CURRENT.UF2` is as long as its size says and its sectors
are its UF2 blocks in order, only it and the information files take up clusters, and its
sectors are the ones `write_block` passes over. -/
structure Consistent (cfg : Config) (serve : Nat → Sector) (m : Mem) (n : Nat) (b : Bpb)
    (current info index : File) : Prop where
  copies : ∀ i, i < b.sectorsPerFat → (serve (b.fatLba 0 i)).bytes = (serve (b.fatLba 1 i)).bytes
  current_found : lookup (fun x => (serve x).bytes) b currentName = some current
  info_found : lookup (fun x => (serve x).bytes) b infoName = some info
  index_found : lookup (fun x => (serve x).bytes) b indexName = some index
  chain : ∀ fuel, n ≤ fuel → follow (entry (fun x => (serve x).bytes) b) fuel current.startCluster =
    some (List.range' current.startCluster n)
  size : current.size = 512 * n
  info_end : isEnd (entry (fun x => (serve x).bytes) b info.startCluster)
  index_end : isEnd (entry (fun x => (serve x).bytes) b index.startCluster)
  allocated : ∀ c, 2 ≤ c → c * 2 / b.sectorSize < b.sectorsPerFat →
    (entry (fun x => (serve x).bytes) b c ≠ 0 ↔ c = info.startCluster ∨ c = index.startCluster ∨
      c ∈ List.range' current.startCluster n)
  blocks : ∀ k, k < n → isUf2Block (serve (b.clusterLba (current.startCluster + k))) = true ∧
    (serve (b.clusterLba (current.startCluster + k))).block.blockNo = k ∧
    (serve (b.clusterLba (current.startCluster + k))).block.numBlocks = n ∧
    (serve (b.clusterLba (current.startCluster + k))).block.targetAddr =
      userFlashStart + k * blockSize ∧
    (serve (b.clusterLba (current.startCluster + k))).block.payload =
      slice m (userFlashStart + k * blockSize) blockSize
  synthetic : ∀ lba, cfg.lbaIsSynthetic lba = true ↔
    ∃ k, k < n ∧ lba = b.clusterLba (current.startCluster + k)

/-- The build's configuration, with the extent of `CURRENT.UF2` that `uf2_init` fixes. -/
def Config.mounted (cfg : Config) (m : Mem) : Config :=
  { cfg with currentFirstLba := currentUf2FirstLba, currentSectors := uf2Init m }

theorem lbaIsSynthetic_mounted (cfg : Config) (m : Mem) (lba : Nat) :
    (cfg.mounted m).lbaIsSynthetic lba = true ↔
      currentUf2FirstLba ≤ lba ∧ lba - currentUf2FirstLba < uf2Init m := by
  unfold Config.lbaIsSynthetic
  rw [Bool.and_eq_true, decide_eq_true_eq, decide_eq_true_eq]
  simp only [Config.mounted]

theorem hostFile_current_size (hsec : sectors ≤ uf2Sectors) :
    (hostFile v sectors 2).size = 512 * sectors := by
  have hu : uf2Sectors = 0xE90 := rfl
  have hsize : sectorSize = 512 := rfl
  simp only [hostFile, fileEntry, hsize]
  omega

/-- Whatever the settings in the flash `m₀` of the mount, the volume is consistent, and stays so
while the flash it shows changes: `uf2Init m₀` is frozen, and the sectors read `m`. -/
theorem ghostFat_consistent (v : Volume) (cfg : Config) (m₀ : Mem) :
    ∃ current info index, ∀ m, Consistent (cfg.mounted m₀) (readSector v (uf2Init m₀) m) m
      (uf2Init m₀) (Bpb.parse (readBlock v (uf2Init m₀) m 0)) current info index := by
  have hu : uf2Sectors = 0xE90 := rfl
  have h4 : uf2FirstSector = 4 := rfl
  have hsize : sectorSize = 512 := rfl
  obtain ⟨hpos, hsec⟩ := uf2Init_bounds m₀
  have hsynthetic := lbaIsSynthetic_mounted cfg m₀
  generalize uf2Init m₀ = n at *
  have hlba : ∀ k, bpb.clusterLba (uf2FirstSector + k) = currentUf2FirstLba + k := by
    intro k
    have hdata : bpb.dataLba = 521 := by decide
    have hper : bpb.sectorsPerCluster = 1 := rfl
    have hcurrent : currentUf2FirstLba = 523 := by decide
    unfold Bpb.clusterLba
    rw [hdata, hper, hcurrent, h4]
    omega
  have hgeometry : bpb.sectorSize = 512 ∧ bpb.sectorsPerFat = 258 := ⟨rfl, rfl⟩
  have hentry : ∀ m c, c * 2 / 512 < 258 → entry (readBlock v n m) bpb c = fatValue n c := by
    intro m c hc
    refine entry_readBlock hsec ?_
    rw [hgeometry.1, hgeometry.2]
    exact hc
  have htext : ∀ c, 0 < c → c < uf2FirstSector → isEnd (fatValue n c) := by
    intro c h0 hc
    unfold fatValue isEnd
    rw [if_neg (by omega), if_neg (by omega), if_pos (by omega)]
    omega
  have hfirst : (hostFile v n 2).startCluster = uf2FirstSector := rfl
  refine ⟨hostFile v n 2, hostFile v n 0, hostFile v n 1, fun m => ?_⟩
  have hdisk : (fun x => (readSector v n m x).bytes) = readBlock v n m := rfl
  rw [parse_bootBlock]
  constructor
  case copies =>
    intro i hi
    exact fat_copies hi
  case current_found =>
    rw [hdisk]
    exact lookup_file (i := 2) (by decide)
  case info_found =>
    rw [hdisk]
    exact lookup_file (i := 0) (by decide)
  case index_found =>
    rw [hdisk]
    exact lookup_file (i := 1) (by decide)
  case chain =>
    intro fuel hfuel
    rw [hdisk, hfirst]
    exact follow_current hpos hsec hfuel
  case size =>
    exact hostFile_current_size hsec
  case info_end =>
    rw [hdisk, show (hostFile v n 0).startCluster = 2 from rfl, hentry m 2 (by omega)]
    exact htext 2 (by omega) (by omega)
  case index_end =>
    rw [hdisk, show (hostFile v n 1).startCluster = 3 from rfl, hentry m 3 (by omega)]
    exact htext 3 (by omega) (by omega)
  case allocated =>
    intro c h2 hc
    rw [hgeometry.1, hgeometry.2] at hc
    rw [hdisk, hentry m c hc, hfirst, List.mem_range'_1,
      show (hostFile v n 0).startCluster = 2 from rfl, show (hostFile v n 1).startCluster = 3 from rfl]
    unfold fatValue
    split_ifs <;> omega
  case blocks =>
    intro k hk
    have hcurrent := readSector_current (v := v) (m := m) hk hsec
    rw [hfirst, hlba k]
    obtain ⟨huf2, hblock⟩ := hcurrent
    refine ⟨huf2, by rw [hblock], by rw [hblock], by rw [hblock], ?_⟩
    rw [hblock]
    exact List.take_left' (slice_length _ _ _)
  case synthetic =>
    intro lba
    rw [hsynthetic, hfirst]
    refine ⟨fun h => ⟨lba - currentUf2FirstLba, h.2, ?_⟩, ?_⟩
    · rw [hlba]
      omega
    · rintro ⟨k, hk, rfl⟩
      rw [hlba]
      omega

end OtaFix.Uf2
