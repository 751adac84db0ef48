import Mathlib.Data.List.Basic
import Mathlib.Data.BitVec

/-!
# A FAT16 volume, as a host reads it

A `Disk` is a function from sectors to bytes. The geometry is read from the boot
sector (`Bpb.parse`), a cluster's successor from a copy of the file allocation table
(`entry`), the files from the root directory (`lookup`), and the clusters of a file
by following successors up to an end mark (`follow`).
-/

namespace Lib.Fat16

abbrev Disk := Nat → List (BitVec 8)

/-- The little-endian half word at an offset. -/
def half (d : List (BitVec 8)) (o : Nat) : Nat := (d.getD o 0).toNat + (d.getD (o + 1) 0).toNat * 2 ^ 8

def word (d : List (BitVec 8)) (o : Nat) : Nat := half d o + half d (o + 2) * 2 ^ 16

/-- The parameter block of the boot sector. -/
structure Bpb where
  sectorSize : Nat
  sectorsPerCluster : Nat
  reservedSectors : Nat
  fatCopies : Nat
  rootEntries : Nat
  sectorsPerFat : Nat
  totalSectors : Nat
  deriving DecidableEq, Repr

def Bpb.parse (d : List (BitVec 8)) : Bpb where
  sectorSize := half d 11
  sectorsPerCluster := (d.getD 13 0).toNat
  reservedSectors := half d 14
  fatCopies := (d.getD 16 0).toNat
  rootEntries := half d 17
  sectorsPerFat := half d 22
  totalSectors := if half d 19 = 0 then word d 32 else half d 19

namespace Bpb

variable (b : Bpb)

def rootLba : Nat := b.reservedSectors + b.fatCopies * b.sectorsPerFat

def dataLba : Nat := b.rootLba + b.rootEntries * 32 / b.sectorSize

/-- The first sector of a cluster; the first two clusters are none. -/
def clusterLba (c : Nat) : Nat := b.dataLba + (c - 2) * b.sectorsPerCluster

def fatLba (copy i : Nat) : Nat := b.reservedSectors + copy * b.sectorsPerFat + i

end Bpb

/-- The entry of a cluster in the first table. -/
def entry (disk : Disk) (b : Bpb) (c : Nat) : Nat :=
  half (disk (b.fatLba 0 (c * 2 / b.sectorSize))) (c * 2 % b.sectorSize)

/-- An end of a chain. -/
def isEnd (v : Nat) : Prop := 0xFFF8 ≤ v

instance (v : Nat) : Decidable (isEnd v) := inferInstanceAs (Decidable (0xFFF8 ≤ v))

/-- The clusters from `c` on, if an end mark comes within `fuel` of them. -/
def follow (next : Nat → Nat) : Nat → Nat → Option (List Nat)
  | 0, _ => none
  | fuel + 1, c => if isEnd (next c) then some [c] else (follow next fuel (next c)).map (c :: ·)

/-- A file of a directory. -/
structure File where
  name : List (BitVec 8)
  attrs : BitVec 8
  startCluster : Nat
  size : Nat
  deriving DecidableEq, Repr

def File.parse (d : List (BitVec 8)) : File := ⟨d.take 11, d.getD 11 0, half d 26, word d 28⟩

def rootEntry (disk : Disk) (b : Bpb) (i : Nat) : File :=
  .parse (((disk (b.rootLba + i * 32 / b.sectorSize)).drop (i * 32 % b.sectorSize)).take 32)

/-- The file of that name; a volume label is none. -/
def lookup (disk : Disk) (b : Bpb) (name : List (BitVec 8)) : Option File :=
  ((List.range b.rootEntries).map (rootEntry disk b)).find? fun f =>
    f.name == name && !f.attrs.getLsbD 3

/-! ## Chains -/

variable {next : Nat → Nat}

theorem follow_end {c fuel : Nat} (h : isEnd (next c)) (hf : 0 < fuel) :
    follow next fuel c = some [c] := by
  obtain ⟨fuel, rfl⟩ := Nat.exists_eq_succ_of_ne_zero (Nat.ne_of_gt hf)
  rw [Nat.succ_eq_add_one, follow, if_pos h]

/-- Where each cluster but the last points at the next one, the chain is the run of them. -/
theorem follow_run {c n fuel : Nat} (hnext : ∀ i, i < n → next (c + i) = c + i + 1)
    (hlt : ∀ i, i < n → ¬ isEnd (c + i + 1)) (hend : isEnd (next (c + n))) (hf : n < fuel) :
    follow next fuel c = some (List.range' c (n + 1)) := by
  induction n generalizing c fuel with
  | zero => exact follow_end hend hf
  | succ n ih =>
    obtain ⟨fuel, rfl⟩ := Nat.exists_eq_succ_of_ne_zero (Nat.ne_of_gt (Nat.zero_lt_of_lt hf))
    have h0 : next c = c + 1 := hnext 0 (Nat.succ_pos n)
    have hshift : ∀ i, c + (i + 1) = c + 1 + i := fun i => by omega
    rw [Nat.succ_eq_add_one, follow, h0, if_neg (hlt 0 (Nat.succ_pos n)),
      ih (fun i hi => by rw [← hshift, hnext (i + 1) (by omega)])
        (fun i hi => by rw [← hshift]; exact hlt (i + 1) (by omega)) (by rw [← hshift]; exact hend)
        (by omega), Option.map_some]
    rfl

/-! ## Fields -/

theorem half_congr {d d' : List (BitVec 8)} {o o' : Nat} (h0 : d.getD o 0 = d'.getD o' 0)
    (h1 : d.getD (o + 1) 0 = d'.getD (o' + 1) 0) : half d o = half d' o' := by
  unfold half
  rw [h0, h1]

/-- The parameter block is read from the first 36 bytes. -/
theorem Bpb.parse_congr {d d' : List (BitVec 8)} (h : ∀ i, i < 36 → d.getD i 0 = d'.getD i 0) :
    Bpb.parse d = Bpb.parse d' := by
  have hhalf : ∀ o, o < 35 → half d o = half d' o := fun o ho =>
    half_congr (h o (by omega)) (h (o + 1) (by omega))
  unfold Bpb.parse word
  rw [h 13 (by omega), h 16 (by omega), hhalf 11 (by omega), hhalf 14 (by omega), hhalf 17 (by omega),
    hhalf 19 (by omega), hhalf 22 (by omega), hhalf 32 (by omega), hhalf (32 + 2) (by omega)]

end Lib.Fat16
