import OtaFix.CrcDetect
import OtaFix.ImagePointer
import OtaFix.Lib.Tally

/-!
# The manifest patch tool

`patch_bootloader_manifest.py` fills in the CRC of a bootloader's manifest, and
`bootloader_image_classify` judges the result. They agree on every image whose manifest
lies inside it; the tool does not check that it does. What the firmware accepts as the
second format has one matching manifest, in the final envelope.
-/

namespace OtaFix.PatchManifest

open Lib

/-! ## `zlib.crc32` -/

def crcTable (n : Byte) : BitVec 32 :=
  (fun c : BitVec 32 => if c.getLsbD 0 then 0xEDB88320 ^^^ (c >>> 1) else c >>> 1)^[8]
    (n.setWidth 32)

def zlibCrc32 (data : List Byte) : BitVec 32 :=
  ~~~(data.foldl (fun c b => crcTable ((c ^^^ b.setWidth 32).setWidth 8) ^^^ (c >>> 8))
    0xFFFFFFFF)

/-- The table holds the steps of a byte; the rest of the register only moves down. -/
theorem crc32Byte_eq (c : BitVec 32) (b : Byte) :
    crc32Byte c b = crcTable ((c ^^^ b.setWidth 32).setWidth 8) ^^^ (c >>> 8) := by
  have hsteps : crcTable ((c ^^^ b.setWidth 32).setWidth 8) =
      crc32Bit^[8] (((c ^^^ b.setWidth 32).setWidth 8).setWidth 32) := by
    unfold crcTable
    congr 1
    funext x
    exact (crc32Bit_eq x).symm
  have hparts : c ^^^ b.setWidth 32 =
      ((c ^^^ b.setWidth 32).setWidth 8).setWidth 32 ^^^ ((c >>> 8) <<< 8) := by
    apply BitVec.eq_of_getLsbD_eq
    intro i hi
    simp only [BitVec.getLsbD_xor, BitVec.getLsbD_setWidth, BitVec.getLsbD_shiftLeft,
      BitVec.getLsbD_ushiftRight]
    by_cases hlow : i < 8
    · simp [hlow, hi]
    · have hb : b.getLsbD i = false := BitVec.getLsbD_of_ge b i (by omega)
      simp [hlow, hi, hb, show 8 + (i - 8) = i by omega]
  have hmoves : crc32Bit^[8] ((c >>> 8) <<< 8) = c >>> 8 := by
    apply crc32Bit_iterate_shiftLeft
    intro i hi
    rw [BitVec.getLsbD_ushiftRight]
    exact BitVec.getLsbD_of_ge c _ (by omega)
  unfold crc32Byte
  rw [hsteps]
  conv => lhs; rw [hparts]
  rw [crc32Bit_xorHom.iterate 8, hmoves]

theorem zlibCrc32_eq (data : List Byte) : zlibCrc32 data = crc32 data := by
  have hsame : (fun (c : BitVec 32) (b : Byte) =>
      crcTable ((c ^^^ b.setWidth 32).setWidth 8) ^^^ (c >>> 8)) = crc32Byte := by
    funext c b
    exact (crc32Byte_eq c b).symm
  unfold zlibCrc32 crc32 otafixCrc32Update
  rw [hsame]
  rfl

/-! ## The tool -/

/-- The addresses with data in ascending order, and the byte at each address; the rest is padding. -/
structure IntelHex where
  addresses : List Nat
  sorted : addresses.Pairwise (· < ·)
  byte : Nat → Byte
  padding : ∀ a, a ∉ addresses → byte a = 0xFF

def headerSize : Nat := 44

def extSize : Nat := 32

def crcOffset : Nat := 40

/-- `read_bytes`. -/
def readBytes (image : IntelHex) (address size : Nat) : List Byte := slice image.byte address size

/-- `device_name`, up to its end and padded with zeros behind it. -/
def nameValid (deviceName : List Byte) : Bool :=
  match deviceName.findIdx? (· = 0) with
  | none => false
  | some nameEnd => 0 < nameEnd &&
    (deviceName.take nameEnd).all (fun value => 0x21 ≤ value.toNat && value.toNat ≤ 0x7E) &&
    (deviceName.drop nameEnd).all (· = 0)

/-- The fields behind the magic numbers, the version and the size of the extension. -/
structure Extension where
  bootVersion : Nat
  sdFamily : Nat
  sdFwid : Nat
  appBase : Nat
  layoutAbi : Nat
  deriving DecidableEq, Repr

/-- A match of `find_manifest`. -/
structure Manifest where
  address : Nat
  imageStart : Nat
  imageSize : Nat
  deviceName : List Byte
  extension : Extension
  deriving DecidableEq, Repr

/-- The extension of a manifest, if it is one of the second format. -/
def extensionOf (e : List Byte) : Option Extension :=
  let ext : Extension :=
    ⟨wordAt e 12, (halfAt e 16).toNat, (halfAt e 18).toNat, wordAt e 20, (halfAt e 24).toNat⟩
  if wordAt e 0 = 0x324D4C42 ∧ wordAt e 4 = 0x54464F53 ∧ halfAt e 8 = 2 ∧
      (halfAt e 10).toNat = extSize ∧ ext.bootVersion ≠ 0 ∧ ext.bootVersion ≠ 0xFFFFFFFF ∧
      ext.bootVersion % 2 ^ 8 ≠ 0 ∧ ext.sdFamily ≠ 0 ∧ ext.sdFamily ≠ 0xFFFF ∧ ext.sdFwid ≠ 0 ∧
      ext.sdFwid ≠ 0xFFFF ∧ ext.appBase ≠ 0 ∧ ext.appBase % 0x1000 = 0 ∧ ext.layoutAbi = 1 ∧
      halfAt e 26 = 0 ∧ wordAt e 28 = 0 then
    some ext
  else none

/-- The checks of the loop of `find_manifest` on the fields behind a signature. -/
def manifestOf (address : Nat) (fields : List Byte) (extension : Option Extension) :
    Option Manifest :=
  let imageStart := wordAt fields 12
  let imageSize := wordAt fields 16
  let deviceName := (fields.drop 24).take 16
  match extension with
  | none => none
  | some extension =>
    if halfAt fields 8 = 1 ∧ (halfAt fields 10).toNat = headerSize ∧ 0 < imageSize ∧
        imageSize % 4 = 0 ∧
        (address : Int) = imageStart + imageSize - (headerSize + extSize : Nat) ∧
        nameValid deviceName = true then
      some ⟨address, imageStart, imageSize, deviceName.takeWhile (· ≠ 0), extension⟩
    else none

/-- One turn of `find_manifest`. -/
def manifestAt (image : IntelHex) (address : Nat) : Option Manifest :=
  if address % 4 ≠ 0 ∨ readBytes image address 8 ≠ manifestMagic then none
  else
    manifestOf address (readBytes image address headerSize)
      (extensionOf (readBytes image (address + headerSize) extSize))

/-- `find_manifest`; `none` is the `ValueError`. -/
def findManifest (image : IntelHex) : Option Manifest :=
  match image.addresses.filterMap (manifestAt image) with
  | [m] => some m
  | _ => none

/-- An index of a slice, counted from the end if it is negative. -/
def sliceIndex (length : Nat) (i : Int) : Nat :=
  if i < 0 then (i + length).toNat else min i.toNat length

/-- `l[i:j] = v`. -/
def assignSlice (l : List Byte) (i j : Int) (v : List Byte) : List Byte :=
  let first := sliceIndex l.length i
  l.take first ++ v ++ l.drop (max first (sliceIndex l.length j))

/-- `l[i] = v`; `none` is the `IndexError`. -/
def assignItem (l : List Byte) (i : Int) (v : Byte) : Option (List Byte) :=
  let k := if i < 0 then i + l.length else i
  if 0 ≤ k ∧ k < l.length then some (l.set k.toNat v) else none

/-- `patch_manifest`: the bytes it assigns in the HEX image, and the fixed-size binary. -/
def patchManifest (image : IntelHex) : Option (List (Nat × Byte) × List Byte) := do
  let m ← findManifest image
  let binary := readBytes image m.imageStart m.imageSize
  let checksumOffset : Int := m.address - m.imageStart + crcOffset
  let binary := assignSlice binary checksumOffset (checksumOffset + 4) [0, 0, 0, 0]
  let checksumBytes := put32 (zlibCrc32 binary).toNat
  let binary ← (List.range 4).foldlM
    (fun binary (i : Nat) => assignItem binary (checksumOffset + i) (checksumBytes.getD i 0)) binary
  pure ((List.range 4).map fun i => (m.address + crcOffset + i, checksumBytes.getD i 0), binary)

/-! ## The patched binary -/

variable {image : IntelHex} {m : Manifest}

/-- What is known of the manifest that `find_manifest` returns. -/
structure Found (image : IntelHex) (m : Manifest) : Prop where
  aligned : m.address % 4 = 0
  magic : slice image.byte m.address 8 = manifestMagic
  version : halfAt (slice image.byte m.address headerSize) 8 = 1
  header : (halfAt (slice image.byte m.address headerSize) 10).toNat = headerSize
  start : wordAt (slice image.byte m.address headerSize) 12 = m.imageStart
  size : wordAt (slice image.byte m.address headerSize) 16 = m.imageSize
  pos : 0 < m.imageSize
  words : m.imageSize % 4 = 0
  final : m.address + (headerSize + extSize) = m.imageStart + m.imageSize
  name : nameValid (((slice image.byte m.address headerSize).drop 24).take 16) = true
  deviceName : m.deviceName =
    (((slice image.byte m.address headerSize).drop 24).take 16).takeWhile (· ≠ 0)
  extension : extensionOf (slice image.byte (m.address + headerSize) extSize) = some m.extension

theorem manifestOf_some {address : Nat} {fields : List Byte} {ext : Option Extension}
    (h : manifestOf address fields ext = some m) :
    m.address = address ∧ halfAt fields 8 = 1 ∧ (halfAt fields 10).toNat = headerSize ∧
      wordAt fields 12 = m.imageStart ∧ wordAt fields 16 = m.imageSize ∧ 0 < m.imageSize ∧
      m.imageSize % 4 = 0 ∧ m.address + (headerSize + extSize) = m.imageStart + m.imageSize ∧
      nameValid ((fields.drop 24).take 16) = true ∧
      m.deviceName = ((fields.drop 24).take 16).takeWhile (· ≠ 0) ∧ ext = some m.extension := by
  unfold manifestOf at h
  cases ext with
  | none => cases h
  | some extension =>
    simp only at h
    split at h
    · rename_i hfields
      obtain rfl := Option.some.inj h
      obtain ⟨hversion, hheader, hpos, hwords, hfinal, hname⟩ := hfields
      exact ⟨rfl, hversion, hheader, rfl, rfl, hpos, hwords, by simp only; omega, hname, rfl, rfl⟩
    · cases h

theorem manifestAt_found {address : Nat} (h : manifestAt image address = some m) :
    Found image m := by
  unfold manifestAt readBytes at h
  by_cases hmagic : address % 4 ≠ 0 ∨ slice image.byte address 8 ≠ manifestMagic
  · rw [if_pos hmagic] at h
    cases h
  rw [if_neg hmagic] at h
  simp only [not_or, not_not] at hmagic
  obtain ⟨rfl, hversion, hheader, hstart, hsize, hpos, hwords, hfinal, hname, hdevice,
    hext⟩ := manifestOf_some h
  exact ⟨hmagic.1, hmagic.2, hversion, hheader, hstart, hsize, hpos, hwords, hfinal, hname,
    hdevice, hext⟩

theorem findManifest_found (h : findManifest image = some m) : Found image m := by
  unfold findManifest at h
  split at h
  · rename_i m' hone
    obtain rfl := Option.some.inj h
    have hmem : m' ∈ [m'] := List.mem_singleton_self m'
    rw [← hone, List.mem_filterMap] at hmem
    obtain ⟨address, -, hat⟩ := hmem
    exact manifestAt_found hat
  · cases h

/-! ## A window over the patched bytes -/

/-- Bytes beside the four that are replaced are the old ones. -/
theorem window_memcpy {l v : List Byte} {off o k : Nat} (hroom : off + v.length ≤ l.length)
    (h : o + k ≤ off ∨ off + v.length ≤ o) :
    ((memcpy l off v).drop o).take k = (l.drop o).take k := by
  have htake : (l.take off).length = off := by
    rw [List.length_take]
    omega
  apply List.ext_getElem?
  intro i
  rw [List.getElem?_take, List.getElem?_take]
  by_cases hi : i < k
  · rw [if_pos hi, if_pos hi, List.getElem?_drop, List.getElem?_drop]
    unfold memcpy
    rcases h with hbefore | hbehind
    · rw [List.append_assoc, List.getElem?_append_left (by omega),
        List.getElem?_take_of_lt (by omega)]
    · rw [List.getElem?_append_right (by simp; omega), List.getElem?_drop]
      congr 1
      simp
      omega
  · rw [if_neg hi, if_neg hi]

theorem wordAt_drop (l : List Byte) (n o : Nat) : wordAt (l.drop n) o = wordAt l (n + o) := by
  unfold wordAt
  simp only [List.getD_eq_getElem?_getD, List.getElem?_drop, Nat.add_assoc]

theorem wordAt_memcpy {l : List Byte} {off n : Nat} (hroom : off + 4 ≤ l.length)
    (hn : n < 2 ^ 32) : wordAt (memcpy l off (put32 n)) off = n := by
  have htake : (l.take off).length = off := by
    rw [List.length_take]
    omega
  rw [← Nat.add_zero off, ← wordAt_drop]
  unfold memcpy
  rw [Nat.add_zero, List.append_assoc, List.drop_left' htake]
  exact get32_put32 hn

/-- The firmware's CRC of an image is that of the image with zeros in the field. -/
theorem bootloaderImageCrc32_zeros {l : List Byte} {off : Nat} (hroom : off + 4 ≤ l.length)
    (hoff : off + 4 < 2 ^ 32) :
    bootloaderImageCrc32 l off = crc32 (memcpy l off [0, 0, 0, 0]) := by
  have hmasked : min (l.length - off) 4 = 4 := by omega
  unfold bootloaderImageCrc32 memcpy crc32
  rw [if_neg (by omega), hmasked, otafixCrc32Update_append, otafixCrc32Update_append]
  rfl

theorem memcpy_memcpy {l v w : List Byte} {off : Nat} (hlen : v.length = w.length)
    (hroom : off + v.length ≤ l.length) : memcpy (memcpy l off v) off w = memcpy l off w := by
  have htake : (l.take off).length = off := by
    rw [List.length_take]
    omega
  have hfirst : (memcpy l off v).take off = l.take off := by
    unfold memcpy
    rw [List.append_assoc, List.take_left' htake]
  have hrest : (memcpy l off v).drop (off + v.length) = l.drop (off + v.length) := by
    unfold memcpy
    rw [List.drop_left' (by simp; omega)]
  have hshape : memcpy (memcpy l off v) off w =
    (memcpy l off v).take off ++ w ++ (memcpy l off v).drop (off + w.length) := rfl
  rw [hshape, hfirst, ← hlen, hrest, hlen]
  rfl

/-! ## What the tool writes -/

theorem assignSlice_inside {l v : List Byte} {off : Nat} (hroom : off + v.length ≤ l.length) :
    assignSlice l (off : Int) ((off : Int) + v.length) v = memcpy l off v := by
  have hfirst : sliceIndex l.length (off : Int) = off := by
    unfold sliceIndex
    rw [if_neg (by omega)]
    omega
  have hlast : sliceIndex l.length ((off : Int) + v.length) = off + v.length := by
    unfold sliceIndex
    rw [if_neg (by omega)]
    omega
  unfold assignSlice memcpy
  simp only [hfirst, hlast]
  rw [Nat.max_eq_right (by omega)]

theorem memcpy_set {l v : List Byte} {off k : Nat} (hroom : off + v.length ≤ l.length)
    (hk : k < v.length) :
    (memcpy l off (v.take k)).set (off + k) (v.getD k 0) = memcpy l off (v.take (k + 1)) := by
  have htake : (v.take k).length = k := by
    rw [List.length_take]
    omega
  have hdrop : l.drop (off + k) = l.getD (off + k) 0 :: l.drop (off + k + 1) := by
    rw [List.drop_eq_getElem_cons (by omega), List.getD_eq_getElem?_getD,
      List.getElem?_eq_getElem (by omega)]
    rfl
  have hnext : v.take (k + 1) = v.take k ++ [v.getD k 0] := by
    rw [List.take_succ_eq_append_getElem hk, List.getD_eq_getElem?_getD,
      List.getElem?_eq_getElem hk]
    rfl
  have hlength : (l.take off ++ v.take k).length = off + k := by
    simp
    omega
  unfold memcpy
  rw [htake, hdrop, List.set_append_right _ _ (by omega), hlength, Nat.sub_self,
    List.set_cons_zero, hnext]
  simp only [List.append_assoc, List.cons_append, List.nil_append, List.length_append,
    List.length_cons, List.length_nil, htake, Nat.add_assoc]

/-- The loop over the bytes of the checksum. -/
theorem foldlM_assignItem {l v : List Byte} {off k : Nat} (hroom : off + v.length ≤ l.length)
    (hk : k ≤ v.length) :
    (List.range k).foldlM (fun binary (i : Nat) => assignItem binary ((off : Int) + i) (v.getD i 0))
      l = some (memcpy l off (v.take k)) := by
  induction k with
  | zero =>
    unfold memcpy
    simp
  | succ k ih =>
    have hlength : (memcpy l off (v.take k)).length = l.length := by
      apply memcpy_length
      rw [List.length_take]
      omega
    have hstore : assignItem (memcpy l off (v.take k)) ((off : Int) + k) (v.getD k 0) =
        some (memcpy l off (v.take (k + 1))) := by
      unfold assignItem
      simp only
      rw [if_neg (show ¬ (off : Int) + k < 0 by omega), if_pos (by omega),
        show ((off : Int) + k).toNat = off + k by omega, memcpy_set hroom (by omega)]
    rw [List.range_succ, List.foldlM_append, ih (by omega)]
    simp only [Option.bind_eq_bind, Option.bind_some, List.foldlM_cons, List.foldlM_nil]
    rw [hstore]
    rfl

/-- The bytes of the image before the tool, and what it puts into the field of the CRC. -/
def imageBytes (image : IntelHex) (m : Manifest) : List Byte :=
  readBytes image m.imageStart m.imageSize

def checksum (image : IntelHex) (m : Manifest) : Nat :=
  (bootloaderImageCrc32 (imageBytes image m) (m.imageSize - 36)).toNat

def patched (image : IntelHex) (m : Manifest) : List Byte :=
  memcpy (imageBytes image m) (m.imageSize - 36) (put32 (checksum image m))

@[simp] theorem imageBytes_length : (imageBytes image m).length = m.imageSize := slice_length _ _ _

theorem patchManifest_inside (hfind : findManifest image = some m)
    (hin : envelopeSize ≤ m.imageSize) (hsize : m.imageSize < 2 ^ 32) :
    patchManifest image = some ((List.range 4).map fun i =>
      (m.address + crcOffset + i, (put32 (checksum image m)).getD i 0), patched image m) := by
  have henvelope : envelopeSize = 76 := rfl
  have hfound := findManifest_found hfind
  have hoffset : (m.address : Int) - m.imageStart + crcOffset = ((m.imageSize - 36 : Nat) : Int) := by
    have hfinal := hfound.final
    simp only [headerSize, extSize, crcOffset] at hfinal ⊢
    omega
  have hroom : m.imageSize - 36 + 4 ≤ (imageBytes image m).length := by
    rw [imageBytes_length]
    omega
  have hbytes : readBytes image m.imageStart m.imageSize = imageBytes image m := rfl
  have hzeros : assignSlice (imageBytes image m) ((m.imageSize - 36 : Nat) : Int)
      (((m.imageSize - 36 : Nat) : Int) + 4) [0, 0, 0, 0] =
      memcpy (imageBytes image m) (m.imageSize - 36) [0, 0, 0, 0] := by
    apply assignSlice_inside
    exact hroom
  have hcrc : (zlibCrc32 (memcpy (imageBytes image m) (m.imageSize - 36) [0, 0, 0, 0])).toNat =
      checksum image m := by
    unfold checksum
    rw [zlibCrc32_eq, bootloaderImageCrc32_zeros hroom (by omega)]
  have hstores : (List.range 4).foldlM (fun binary (i : Nat) => assignItem binary
        (((m.imageSize - 36 : Nat) : Int) + i) ((put32 (checksum image m)).getD i 0))
      (memcpy (imageBytes image m) (m.imageSize - 36) [0, 0, 0, 0]) = some (patched image m) := by
    have hlength : (memcpy (imageBytes image m) (m.imageSize - 36) [0, 0, 0, 0]).length =
        (imageBytes image m).length := memcpy_length hroom
    rw [foldlM_assignItem (by rw [hlength]; exact hroom) (Nat.le_refl 4)]
    exact congrArg some (memcpy_memcpy (v := [0, 0, 0, 0]) rfl hroom)
  unfold patchManifest
  rw [hfind]
  simp only [Option.bind_eq_bind, Option.bind_some]
  rw [hoffset, hbytes, hzeros, hcrc, hstores]
  rfl

/-! ## What the firmware reads -/

/-- The vectors of the image are valid. -/
def VectorsValid (image : IntelHex) (m : Manifest) : Prop :=
  bootloaderImageVectorsValid (imageBytes image m) m.imageStart m.imageSize = true

/-- No other aligned place of the image has the magic numbers. -/
def OneMagic (image : IntelHex) (m : Manifest) : Prop :=
  ∀ a, a % 4 = 0 → m.imageStart ≤ a → a + 8 ≤ m.imageStart + m.imageSize →
    readBytes image a 8 = manifestMagic → a = m.address

/-- The manifest carries the board's id and name. -/
def ForBoard (image : IntelHex) (board : Board) (m : Manifest) : Prop :=
  wordAt (readBytes image m.address headerSize) 20 = board.boardId ∧
    readBytes image (m.address + 24) 16 = board.deviceName

/-- What the firmware is to report of an extension. -/
def infoOf (e : Extension) : ImageInfo :=
  ⟨e.bootVersion, e.sdFamily, e.sdFwid, e.appBase, e.layoutAbi⟩

theorem mem_offsets {size o : Nat} :
    o ∈ (List.range (size / 4 + 1)).map (4 * ·) ↔ o % 4 = 0 ∧ o ≤ size := by
  rw [List.mem_map]
  constructor
  · rintro ⟨k, hk, rfl⟩
    rw [List.mem_range] at hk
    omega
  · rintro ⟨hmod, hle⟩
    exact ⟨o / 4, List.mem_range.2 (by omega), by omega⟩

theorem nodup_offsets (size : Nat) : ((List.range (size / 4 + 1)).map (4 * ·)).Nodup := by
  refine List.Nodup.map ?_ List.nodup_range
  intro x y hxy
  simp only at hxy
  omega

variable {board : Board} {other : Bool} {bytes : List Byte} {start : Nat}

/-- The scan ends at the one match. -/
theorem bootloaderManifestFind_one {o : Nat}
    (hvectors : bootloaderImageVectorsValid bytes start bytes.length = true)
    (hend : start + bytes.length < 2 ^ 32) (haligned : o % 4 = 0)
    (hroom : o + manifestSize ≤ bytes.length)
    (h : ∀ x, x % 4 = 0 → x + manifestSize ≤ bytes.length →
      (manifestMatches board other bytes start x = true ↔ x = o)) :
    bootloaderManifestFind board other bytes start = some o := by
  have hscan : ((List.range (bytes.length / 4 + 1)).map (4 * ·)).filter (fun x =>
      x + manifestSize ≤ bytes.length && manifestMatches board other bytes start x) = [o] := by
    apply filter_one (nodup_offsets _) (mem_offsets.2 ⟨haligned, by omega⟩)
    intro x hx
    rw [Bool.and_eq_true, decide_eq_true_eq]
    constructor
    · rintro ⟨hxroom, hmatch⟩
      exact (h x (mem_offsets.1 hx).1 hxroom).1 hmatch
    · rintro rfl
      exact ⟨hroom, (h x haligned hroom).2 rfl⟩
  unfold bootloaderManifestFind
  rw [if_neg (by omega), hvectors]
  simp only [Bool.not_true, Bool.false_eq_true, if_false]
  rw [hscan]

theorem matches_of_find {o : Nat} (h : bootloaderManifestFind board other bytes start = some o)
    {x : Nat} (haligned : x % 4 = 0) (hroom : x + manifestSize ≤ bytes.length) :
    manifestMatches board other bytes start x = true ↔ x = o := by
  unfold bootloaderManifestFind at h
  split at h
  · cases h
  split at h
  · cases h
  simp only at h
  split at h
  · rename_i o' hscan
    obtain rfl := Option.some.inj h
    have hmem : x ∈ ((List.range (bytes.length / 4 + 1)).map (4 * ·)).filter (fun x =>
        x + manifestSize ≤ bytes.length && manifestMatches board other bytes start x) ↔ x = o' := by
      rw [hscan, List.mem_singleton]
    rw [List.mem_filter, mem_offsets, Bool.and_eq_true, decide_eq_true_eq] at hmem
    rw [← hmem]
    constructor
    · intro hmatch
      exact ⟨⟨haligned, by omega⟩, hroom, hmatch⟩
    · exact fun hx => hx.2.2
  · cases h

/-- The second format has its one manifest in the final envelope. -/
theorem classify_v2 {info : ImageInfo}
    (h : bootloaderImageClassify board other bytes start = .v2 info) :
    envelopeSize ≤ bytes.length ∧ ∀ x, x % 4 = 0 → x + manifestSize ≤ bytes.length →
      (manifestMatches board other bytes start x = true ↔ x = bytes.length - envelopeSize) := by
  unfold bootloaderImageClassify at h
  cases hfind : bootloaderManifestFind board other bytes start with
  | none =>
    rw [hfind] at h
    cases h
  | some o =>
    rw [hfind] at h
    simp only at h
    by_cases hfinal : bytes.length < envelopeSize ∨ o ≠ bytes.length - envelopeSize
    · rw [if_pos hfinal] at h
      cases h
    · rw [not_or, Nat.not_lt, not_not] at hfinal
      obtain ⟨hin, rfl⟩ := hfinal
      exact ⟨hin, fun x => matches_of_find hfind⟩

/-! ## The patched image is of the second format -/

theorem extensionOf_magic {e : List Byte} {ext : Extension} (h : extensionOf e = some ext) :
    wordAt e 0 = 0x324D4C42 := by
  unfold extensionOf at h
  simp only at h
  split at h
  · rename_i hok
    exact hok.1
  · cases h

/-- The tool asks more of an extension than the firmware does. -/
theorem bootloaderExtensionValidate_of {e : List Byte} {ext : Extension}
    (h : extensionOf e = some ext) : bootloaderExtensionValidate e = some (infoOf ext) := by
  unfold extensionOf at h
  simp only at h
  split at h
  · rename_i hok
    obtain rfl := Option.some.inj h
    obtain ⟨hmagic, hmagic', hversion, hsize, -, hblank, hlow, hfamily, -, hfwid, -, hbase, -, habi,
      hflags, hreserved⟩ := hok
    have hheader : halfAt e 10 = 32 := BitVec.eq_of_toNat_eq hsize
    unfold bootloaderExtensionValidate
    simp only
    rw [if_pos]
    · rfl
    · simp only [Bool.and_eq_true, decide_eq_true_eq]
      refine ⟨⟨⟨⟨⟨⟨⟨⟨⟨⟨⟨hmagic, hmagic'⟩, hversion⟩, hheader⟩, hblank⟩, hlow⟩, hfamily⟩, hfwid⟩,
        hbase⟩, ?_⟩, hflags⟩, hreserved⟩
      rw [habi]
      omega
  · cases h

theorem getD_of_wordAt {e : List Byte} {n : Nat} (h : wordAt e 0 = n) :
    e.getD 0 0 = BitVec.ofNat 8 n := by
  have hbytes := put32_get32 (e.getD 0 0) (e.getD 1 0) (e.getD 2 0) (e.getD 3 0)
  have hword : get32 (e.getD 0 0) (e.getD 1 0) (e.getD 2 0) (e.getD 3 0) = n := h
  rw [hword] at hbytes
  exact (List.cons.inj hbytes).1.symm

theorem nameValid_last {name : List Byte} (hlen : name.length = 16) (h : nameValid name = true) :
    name.getD 15 0 = 0 := by
  unfold nameValid at h
  split at h
  · cases h
  · rename_i nameEnd hend
    have hlt : nameEnd < 16 := by
      rw [← hlen]
      exact (List.findIdx?_eq_some_iff_findIdx_eq.1 hend).1
    rw [Bool.and_eq_true, List.all_eq_true] at h
    have hlast : name.getD 15 0 ∈ name.drop nameEnd := by
      rw [List.mem_drop_iff_getElem]
      refine ⟨15 - nameEnd, by omega, ?_⟩
      rw [List.getD_eq_getElem?_getD, List.getElem?_eq_getElem (by omega)]
      simp only [Option.getD_some]
      congr 1
      omega
    exact of_decide_eq_true (h.2 _ hlast)

theorem patched_length (image : IntelHex) (hin : envelopeSize ≤ m.imageSize) :
    (patched image m).length = m.imageSize := by
  have henvelope : envelopeSize = 76 := rfl
  have hput : (put32 (checksum image m)).length = 4 := rfl
  unfold patched
  rw [memcpy_length, imageBytes_length]
  rw [imageBytes_length, hput]
  omega

theorem window_patched (image : IntelHex) (hin : envelopeSize ≤ m.imageSize) {o k : Nat}
    (hk : o + k ≤ m.imageSize) (h : o + k ≤ m.imageSize - 36 ∨ m.imageSize - 32 ≤ o) :
    ((patched image m).drop o).take k = slice image.byte (m.imageStart + o) k := by
  have henvelope : envelopeSize = 76 := rfl
  have hput : (put32 (checksum image m)).length = 4 := rfl
  unfold patched
  rw [window_memcpy (by rw [imageBytes_length, hput]; omega) (by rw [hput]; omega)]
  unfold imageBytes readBytes
  rw [slice_drop (by omega), slice_take (by omega)]

theorem patched_vectors (hin : envelopeSize ≤ m.imageSize) (h : VectorsValid image m) :
    bootloaderImageVectorsValid (patched image m) m.imageStart m.imageSize = true := by
  have henvelope : envelopeSize = 76 := rfl
  have hfirst : (patched image m).take 8 = (imageBytes image m).take 8 := by
    have hwindow := window_patched image hin (o := 0) (k := 8) (by omega) (by omega)
    rw [List.drop_zero] at hwindow
    rw [hwindow]
    exact (slice_take (by omega)).symm
  have hword : ∀ o, o + 4 ≤ 8 → wordAt (patched image m) o = wordAt (imageBytes image m) o := by
    intro o ho
    rw [← wordAt_take ho, hfirst, wordAt_take ho]
  unfold VectorsValid bootloaderImageVectorsValid at h
  unfold bootloaderImageVectorsValid
  rw [patched_length image hin, hword 0 (by omega), hword 4 (by omega)]
  rw [imageBytes_length] at h
  exact h

theorem vectors_end {size : Nat} (hsize : size < 2 ^ 32)
    (h : bootloaderImageVectorsValid bytes start size = true) : start + size < 2 ^ 32 := by
  unfold bootloaderImageVectorsValid at h
  split at h
  · cases h
  · rename_i hroom
    omega

theorem Found.size_lt (h : Found image m) : m.imageSize < 2 ^ 32 := by
  rw [← h.size]
  exact get32_lt _ _ _ _

theorem Found.offset (h : Found image m) (hin : envelopeSize ≤ m.imageSize) :
    m.imageStart + (m.imageSize - envelopeSize) = m.address ∧ m.imageStart % 4 = 0 := by
  have hfinal := h.final
  have haligned := h.aligned
  have hwords := h.words
  simp only [headerSize, extSize] at hfinal
  simp only [envelopeSize] at hin ⊢
  omega

/-- The identity, the place and the CRC are as the firmware expects them. -/
theorem patched_matches (h : Found image m) (hin : envelopeSize ≤ m.imageSize)
    (hboard : ForBoard image board m) :
    manifestMatches board false (patched image m) m.imageStart (m.imageSize - envelopeSize) =
      true := by
  have henvelope : envelopeSize = 76 := rfl
  obtain ⟨hoffset, -⟩ := h.offset hin
  have hroom : m.imageSize - 36 + 4 ≤ (imageBytes image m).length := by
    rw [imageBytes_length]
    omega
  have hsize := h.size_lt
  obtain ⟨manifest, hmanifest⟩ : ∃ manifest,
    manifest = ((patched image m).drop (m.imageSize - envelopeSize)).take manifestSize := ⟨_, rfl⟩
  have hfields : manifest.take 40 = (slice image.byte m.address headerSize).take 40 := by
    rw [hmanifest, List.take_take, show min 40 manifestSize = 40 from rfl,
      window_patched image hin (by omega) (by omega), hoffset, slice_take (by decide)]
  have hhalf : ∀ o, o + 2 ≤ 40 →
      halfAt manifest o = halfAt (slice image.byte m.address headerSize) o := by
    intro o ho
    rw [← halfAt_take ho, hfields, halfAt_take ho]
  have hword : ∀ o, o + 4 ≤ 40 →
      wordAt manifest o = wordAt (slice image.byte m.address headerSize) o := by
    intro o ho
    rw [← wordAt_take ho, hfields, wordAt_take ho]
  have hmagic : manifest.take 8 = manifestMagic := by
    have htake : (manifest.take 40).take 8 = manifest.take 8 := by
      rw [List.take_take]
      rfl
    rw [← htake, hfields, List.take_take, show min 8 40 = 8 from rfl, slice_take (by decide)]
    exact h.magic
  have hheader : halfAt manifest 10 = 44 := by
    rw [hhalf 10 (by omega)]
    exact BitVec.eq_of_toNat_eq h.header
  have hname : (manifest.drop 24).take 16 = board.deviceName := by
    rw [hmanifest, List.drop_take, List.drop_drop, List.take_take,
      show min 16 (manifestSize - 24) = 16 from rfl, window_patched image hin (by omega) (by omega),
      ← Nat.add_assoc, hoffset]
    exact hboard.2
  have hchecksum : wordAt manifest 40 = checksum image m := by
    rw [hmanifest, wordAt_take (by decide), wordAt_drop,
      show m.imageSize - envelopeSize + 40 = m.imageSize - 36 by omega]
    exact wordAt_memcpy hroom (BitVec.isLt _)
  have hcrc : bootloaderImageCrc32 (patched image m) (m.imageSize - envelopeSize + 40) =
      BitVec.ofNat 32 (wordAt manifest 40) := by
    have hlength := patched_length image hin
    rw [hchecksum, show m.imageSize - envelopeSize + 40 = m.imageSize - 36 by omega,
      bootloaderImageCrc32_zeros (by omega) (by omega)]
    unfold patched
    rw [memcpy_memcpy (v := put32 (checksum image m)) (w := [0, 0, 0, 0]) rfl hroom,
      ← bootloaderImageCrc32_zeros hroom (by omega)]
    unfold checksum
    rw [BitVec.ofNat_toNat, BitVec.setWidth_eq]
  unfold manifestMatches
  rw [← hmanifest]
  simp only [Bool.and_eq_true, decide_eq_true_eq, Bool.and_false, Bool.false_eq_true, if_false]
  refine ⟨⟨⟨⟨⟨⟨hmagic, ?_⟩, hheader⟩, ?_⟩, ?_⟩, ?_, hname⟩, hcrc⟩
  · exact (hhalf 8 (by omega)).trans h.version
  · exact (hword 12 (by omega)).trans h.start
  · rw [patched_length image hin]
    exact (hword 16 (by omega)).trans h.size
  · exact (hword 20 (by omega)).trans hboard.1

/-- The word before the field ends in the zero behind the name, and the word after it begins with
another letter: no CRC makes new magic numbers. -/
theorem patched_magic (h : Found image m) (hin : envelopeSize ≤ m.imageSize)
    (hone : OneMagic image m) {x : Nat} (haligned : x % 4 = 0)
    (hroom : x + manifestSize ≤ m.imageSize)
    (hmagic : ((patched image m).drop x).take 8 = manifestMagic) :
    x = m.imageSize - envelopeSize := by
  have henvelope : envelopeSize = 76 := rfl
  have hsize : manifestSize = 44 := rfl
  obtain ⟨hoffset, hstart⟩ := h.offset hin
  have hwords := h.words
  have hbyte : ∀ i < 8, (patched image m).getD (x + i) 0 = manifestMagic.getD i 0 := by
    intro i hi
    rw [← hmagic, List.getD_eq_getElem?_getD, List.getD_eq_getElem?_getD,
      List.getElem?_take_of_lt hi, List.getElem?_drop]
  have hold : ∀ o, o < m.imageSize → (o < m.imageSize - 36 ∨ m.imageSize - 32 ≤ o) →
      (patched image m).getD o 0 = image.byte (m.imageStart + o) := by
    intro o ho haway
    have hwindow := window_patched image hin (o := o) (k := 1) (by omega) (by omega)
    have hfirst : (((patched image m).drop o).take 1).getD 0 0 = image.byte (m.imageStart + o) := by
      rw [hwindow]
      rfl
    rw [← hfirst, List.getD_eq_getElem?_getD, List.getD_eq_getElem?_getD,
      List.getElem?_take_of_lt (by omega), List.getElem?_drop]
    rfl
  rcases (show x + 8 ≤ m.imageSize - 36 ∨ x + 4 = m.imageSize - 36 ∨ x = m.imageSize - 36 ∨
    m.imageSize - 32 ≤ x by omega) with hbefore | hlast | hfield | hbehind
  · rw [window_patched image hin (by omega) (by omega)] at hmagic
    have := hone _ (by omega) (Nat.le_add_right _ _) (by omega) hmagic
    omega
  · have hzero : image.byte (m.address + 39) = 0 := by
      have hname := nameValid_last (by simp [headerSize]) h.name
      rw [List.getD_eq_getElem?_getD, List.getElem?_take_of_lt (by omega), List.getElem?_drop,
        slice_getElem? (by omega)] at hname
      exact hname
    have hletter := hbyte 3 (by omega)
    rw [hold _ (by omega) (by omega), show m.imageStart + (x + 3) = m.address + 39 by omega,
      hzero] at hletter
    exact absurd hletter (by omega)
  · have hext : image.byte (m.address + headerSize) = 0x42 := by
      have hfirst := getD_of_wordAt (extensionOf_magic h.extension)
      rw [slice_getD_add (by omega)] at hfirst
      exact hfirst
    have hletter := hbyte 4 (by omega)
    rw [hold _ (by omega) (by omega),
      show m.imageStart + (x + 4) = m.address + headerSize by simp only [headerSize]; omega,
      hext] at hletter
    exact absurd hletter (by omega)
  · rw [window_patched image hin (by omega) (by omega)] at hmagic
    have := hone _ (by omega) (Nat.le_add_right _ _) (by omega) hmagic
    omega

theorem classify_patched (h : Found image m) (hin : envelopeSize ≤ m.imageSize)
    (hvectors : VectorsValid image m) (hone : OneMagic image m) (hboard : ForBoard image board m) :
    bootloaderImageClassify board false (patched image m) m.imageStart =
      .v2 (infoOf m.extension) := by
  have henvelope : envelopeSize = 76 := rfl
  have hsize : manifestSize = 44 := rfl
  have hlength := patched_length image hin
  obtain ⟨hoffset, -⟩ := h.offset hin
  have hwords := h.words
  have hfind : bootloaderManifestFind board false (patched image m) m.imageStart =
      some (m.imageSize - envelopeSize) := by
    apply bootloaderManifestFind_one
    · rw [hlength]
      exact patched_vectors hin hvectors
    · rw [hlength]
      exact vectors_end h.size_lt hvectors
    · omega
    · omega
    intro x haligned hroom
    rw [hlength] at hroom
    constructor
    · intro hmatch
      apply patched_magic h hin hone haligned hroom
      unfold manifestMatches at hmatch
      simp only [Bool.and_eq_true, decide_eq_true_eq, List.take_take] at hmatch
      exact hmatch.1.1.1.1.1.1
    · rintro rfl
      exact patched_matches h hin hboard
  have hextension : ((patched image m).drop (m.imageSize - envelopeSize + manifestSize)).take 32 =
      slice image.byte (m.address + headerSize) extSize := by
    rw [window_patched image hin (by omega) (by omega), ← Nat.add_assoc, hoffset]
    rfl
  unfold bootloaderImageClassify
  rw [hfind]
  simp only
  rw [hlength, if_neg (by omega), hextension, bootloaderExtensionValidate_of h.extension]

/-! ## Images that do not hold their manifest -/

theorem assignItem_length {l l' : List Byte} {i : Int} {v : Byte} (h : assignItem l i v = some l') :
    l'.length = l.length := by
  unfold assignItem at h
  generalize (if i < 0 then i + l.length else i) = k at h
  simp only at h
  split at h
  · obtain rfl := Option.some.inj h
    exact List.length_set
  · cases h

theorem foldlM_assignItem_length {is : List Nat} {l l' : List Byte} {off : Int} {v : List Byte}
    (h : is.foldlM (fun binary (i : Nat) => assignItem binary (off + i) (v.getD i 0)) l = some l') :
    l'.length = l.length := by
  induction is generalizing l with
  | nil =>
    obtain rfl := Option.some.inj h
    rfl
  | cons i is ih =>
    rw [List.foldlM_cons, Option.bind_eq_bind, Option.bind_eq_some_iff] at h
    obtain ⟨l₁, hfirst, hrest⟩ := h
    rw [ih hrest, assignItem_length hfirst]

/-- A slice that is not all inside makes the list longer, but not by more than the new bytes. -/
theorem assignSlice_length_le (l v : List Byte) (i j : Int) :
    (assignSlice l i j v).length ≤ l.length + v.length := by
  unfold assignSlice
  simp only [List.length_append, List.length_take, List.length_drop]
  omega

theorem patchManifest_outside (hfind : findManifest image = some m)
    (hout : m.imageSize < envelopeSize) {w : List (Nat × Byte)} {binary : List Byte}
    (h : patchManifest image = some (w, binary)) : binary.length < envelopeSize := by
  have henvelope : envelopeSize = 76 := rfl
  have hfound := findManifest_found hfind
  have hwords := hfound.words
  have hoffset : (m.address : Int) - m.imageStart + crcOffset = (m.imageSize : Int) - 36 := by
    have hfinal := hfound.final
    simp only [headerSize, extSize, crcOffset] at hfinal ⊢
    omega
  unfold patchManifest at h
  rw [hfind] at h
  simp only [Option.bind_eq_bind, Option.bind_some, Option.bind_eq_some_iff] at h
  obtain ⟨stored, hstores, hpair⟩ := h
  obtain ⟨-, rfl⟩ := Prod.mk.inj (Option.some.inj hpair)
  rw [foldlM_assignItem_length hstores, hoffset]
  have hlength : (readBytes image m.imageStart m.imageSize).length = m.imageSize :=
    slice_length _ _ _
  by_cases hlast : m.imageSize = 72
  · have hslice := assignSlice_inside (l := readBytes image m.imageStart m.imageSize)
      (v := [0, 0, 0, 0])
      (show 36 + 4 ≤ _ by rw [hlength, hlast]; decide)
    rw [show (m.imageSize : Int) - 36 = ((36 : Nat) : Int) by omega]
    have hwhole := congrArg List.length hslice
    rw [memcpy_length (by rw [hlength, hlast]; decide), hlength] at hwhole
    exact lt_of_eq_of_lt hwhole hout
  · have hle := assignSlice_length_le (readBytes image m.imageStart m.imageSize) [0, 0, 0, 0]
      ((m.imageSize : Int) - 36) ((m.imageSize : Int) - 36 + 4)
    rw [hlength] at hle
    have hzeros : ([0, 0, 0, 0] : List Byte).length = 4 := rfl
    omega

/-! ## The tool and the firmware -/

/-- The firmware reads the manifest that the tool found in the binary that it wrote. -/
def Agrees (image : IntelHex) (board : Board) (m : Manifest) : Prop :=
  ∃ w binary, patchManifest image = some (w, binary) ∧
    bootloaderImageClassify board false binary m.imageStart = .v2 (infoOf m.extension)

theorem agrees_iff (hfind : findManifest image = some m) (hvectors : VectorsValid image m)
    (hone : OneMagic image m) (hboard : ForBoard image board m) :
    Agrees image board m ↔ envelopeSize ≤ m.imageSize := by
  have hfound := findManifest_found hfind
  constructor
  · rintro ⟨w, binary, hpatch, hclass⟩
    by_contra hout
    have hshort := patchManifest_outside hfind (by omega) hpatch
    have hlong := (classify_v2 hclass).1
    omega
  · intro hin
    exact ⟨_, _, patchManifest_inside hfind hin hfound.size_lt,
      classify_patched hfound hin hvectors hone hboard⟩

/-- Patching agrees with the firmware on exactly the images that hold their manifest; and what the
firmware takes for the second format has its one manifest in the final envelope. -/
theorem patch_manifest_agrees (board : Board) :
    (∀ image m, findManifest image = some m → VectorsValid image m → OneMagic image m →
      ForBoard image board m → (Agrees image board m ↔ envelopeSize ≤ m.imageSize)) ∧
    ∀ bytes start info, bootloaderImageClassify board false bytes start = .v2 info →
      envelopeSize ≤ bytes.length ∧ ∀ x, x % 4 = 0 → x + manifestSize ≤ bytes.length →
        (manifestMatches board false bytes start x = true ↔ x = bytes.length - envelopeSize) :=
  ⟨fun _ _ hfind hvectors hone hboard => agrees_iff hfind hvectors hone hboard,
    fun _ _ _ h => classify_v2 h⟩

/-! ## Two HEX files -/

/-- A HEX file with one run of data. -/
def hexOf (address : Nat) (data : List Byte) : IntelHex where
  addresses := (List.range data.length).map (address + ·)
  sorted := by
    apply List.Pairwise.map _ _ List.pairwise_lt_range
    intro x y hxy
    omega
  byte a := if a < address then 0xFF else data.getD (a - address) 0xFF
  padding a ha := by
    by_cases hlow : a < address
    · rw [if_pos hlow]
    · have hout : data.length ≤ a - address := by
        by_contra hin
        apply ha
        rw [List.mem_map]
        exact ⟨a - address, List.mem_range.2 (by omega), by omega⟩
      rw [if_neg hlow, List.getD_eq_getElem?_getD, List.getElem?_eq_none hout]
      rfl

/-- The bytes of an extension. -/
def extensionBytes (e : Extension) : List Byte :=
  put32 0x324D4C42 ++ put32 0x54464F53 ++ put16 2 ++ put16 32 ++ put32 e.bootVersion ++
    put16 (BitVec.ofNat 16 e.sdFamily) ++ put16 (BitVec.ofNat 16 e.sdFwid) ++ put32 e.appBase ++
    put16 (BitVec.ofNat 16 e.layoutAbi) ++ put16 0 ++ put32 0

/-- A manifest that is not signed yet, with its extension. -/
def envelopeOf (start size boardId : Nat) (name : List Byte) (e : Extension) : List Byte :=
  manifestMagic ++ put16 1 ++ put16 44 ++ put32 start ++ put32 size ++ put32 boardId ++ name ++
    put32 0 ++ extensionBytes e

def sampleExtension : Extension := ⟨0x109, 140, 0xB6, 0x26000, 1⟩

def marks : List Byte := List.replicate 4 0x21 ++ List.replicate 12 0

def hexBoard (boardId : Nat) : Board where
  boardId := boardId
  deviceName := marks
  deviceName_length := rfl
  softdeviceFamily := 140
  recoveryAllowAllBoards := false

/-- A vector table in front of its envelope. -/
def wholeHex : IntelHex :=
  hexOf 0xF4000 (put32 0x20001000 ++ put32 0xF4009 ++
    envelopeOf 0xF4000 84 0x239A00B3 marks sampleExtension)

def wholeManifest : Manifest := ⟨0xF4008, 0xF4000, 84, marks.take 4, sampleExtension⟩

theorem patch_manifest_agrees_whole : Agrees wholeHex (hexBoard 0x239A00B3) wholeManifest := by
  refine ((patch_manifest_agrees (hexBoard 0x239A00B3)).1 wholeHex wholeManifest ?_ ?_ ?_ ?_).2
    (by decide)
  · decide +kernel
  · unfold VectorsValid
    decide +kernel
  · have hmagic : ∀ j < 22, readBytes wholeHex (0xF4000 + 4 * j) 8 = manifestMagic → j = 2 := by
      decide +kernel
    intro a haligned hlow hhigh hread
    simp only [wholeManifest] at hlow hhigh ⊢
    obtain ⟨j, rfl⟩ : ∃ j, a = 0xF4000 + 4 * j := ⟨(a - 0xF4000) / 4, by omega⟩
    rw [hmagic j (by omega) hread]
  · unfold ForBoard
    decide +kernel

/-- An image of 56 bytes that begins inside its own manifest: the board id is the stack pointer and
the name is the reset vector. -/
def shortHex : IntelHex :=
  hexOf 0x212120EC (envelopeOf 0x21212100 56 0x20001000 marks sampleExtension)

def shortManifest : Manifest := ⟨0x212120EC, 0x21212100, 56, marks.take 4, sampleExtension⟩

theorem patch_manifest_short :
    findManifest shortHex = some shortManifest ∧ VectorsValid shortHex shortManifest ∧
      OneMagic shortHex shortManifest ∧ ForBoard shortHex (hexBoard 0x20001000) shortManifest ∧
      ¬ Agrees shortHex (hexBoard 0x20001000) shortManifest := by
  have hfind : findManifest shortHex = some shortManifest := by decide +kernel
  have hvectors : VectorsValid shortHex shortManifest := by
    unfold VectorsValid
    decide +kernel
  have hone : OneMagic shortHex shortManifest := by
    have hmagic : ∀ j < 14, readBytes shortHex (0x21212100 + 4 * j) 8 ≠ manifestMagic := by
      decide +kernel
    intro a haligned hlow hhigh hread
    simp only [shortManifest] at hlow hhigh
    obtain ⟨j, rfl⟩ : ∃ j, a = 0x21212100 + 4 * j := ⟨(a - 0x21212100) / 4, by omega⟩
    exact absurd hread (hmagic j (by omega))
  have hboard : ForBoard shortHex (hexBoard 0x20001000) shortManifest := by
    unfold ForBoard
    decide +kernel
  refine ⟨hfind, hvectors, hone, hboard, ?_⟩
  rw [agrees_iff hfind hvectors hone hboard]
  decide

end OtaFix.PatchManifest
