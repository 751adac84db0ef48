import OtaFix.FlashNrf5x
import OtaFix.Image
import OtaFix.Lib.Interrupted

/-!
# The swap of a SoftDevice

`dfu_sd_img_block_swap` of `dfu_single_bank.c`. The new SoftDevice lies in bank 0, above the old
one, and a larger one is moved down over its own beginning: in three rounds, two blocks of
`block_size` and the rest. The blocks are compared from the last one backwards to find where an
interrupted swap stopped.

The master boot record is a binary: `Mbr` is what it does, `Mbr.Sound` what its header promises.
-/

namespace OtaFix

open Lib

variable {P Q : Mem → Prop} {m m' m₀ : Mem} {ops : List FlashOp}

/-! ## The master boot record -/

/-- An error code, and the flash operations on the way. -/
abbrev Traced := NrfError × List FlashOp

structure Mbr where
  /-- `SD_MBR_COMMAND_COPY_SD`: source, destination and a number of words. -/
  copySd : Mem → Nat → Nat → Nat → Traced
  /-- `SD_MBR_COMMAND_COMPARE`: two blocks and a number of words. -/
  compare : Mem → Nat → Nat → Nat → NrfError

def pageUp (a : Nat) : Nat := pageOf (a + codePageSize - 1)

/-- The whole pages of the destination are erased and written; on success it holds the source, if
these pages spare it. The comparison "works like memcmp". -/
structure Mbr.Sound (mbr : Mbr) : Prop where
  inside : ∀ m src dst n op, op ∈ (mbr.copySd m src dst n).2 →
    pageOf dst ≤ op.start ∧ op.stop ≤ pageUp (dst + 4 * n)
  copied : ∀ m src dst n, src + 4 * n ≤ pageOf dst ∨ pageUp (dst + 4 * n) ≤ src →
    (mbr.copySd m src dst n).1 = .success →
    ∀ i < 4 * n, replay (mbr.copySd m src dst n).2 m (dst + i) = m (src + i)
  compared : ∀ m p q n, mbr.compare m p q n = .success ↔ slice m p (4 * n) = slice m q (4 * n)

def softdeviceRegionStart : Nat := mbrSize

/-- `dfu_compare_block`. -/
def dfuCompareBlock (mbr : Mbr) (m : Mem) (p q len : Nat) : NrfError := mbr.compare m p q (len / 4)

/-- `dfu_copy_sd`. -/
def dfuCopySd (mbr : Mbr) (src dst len : Nat) (m : Mem) : Traced := mbr.copySd m src dst (len / 4)

/-- `dfu_sd_img_block_swap`, with a bound on the depth of its recursion. -/
def dfuSdImgBlockSwap (mbr : Mbr) (blockSize : Nat) : Nat → Nat → Nat → Nat → Mem → Option Traced
  | 0, _, _, _, _ => none
  | depth + 1, src, dst, len, m =>
    if dfuCompareBlock mbr m src dst len = .success then some (.success, [])
    else
      (if softdeviceRegionStart < dst then
        dfuSdImgBlockSwap mbr blockSize depth (sub32 src blockSize) (sub32 dst blockSize)
          blockSize m
      else some (.success, [])).map fun back =>
        andThen .success m back fun m =>
          andThen .success m (dfuCopySd mbr src dst len m) fun m =>
            (dfuCompareBlock mbr m src dst len, [])

/-- Half of the room below the image, in whole pages. -/
def sdBlockSize (start : Nat) : Nat := pageOf (sub32 start softdeviceRegionStart / 2)

variable {mbr : Mbr} {src dst len start size b : Nat}

theorem compare_success (hmbr : mbr.Sound) {p q : Nat} (h4 : len % 4 = 0) :
    dfuCompareBlock mbr m p q len = .success ↔ ∀ i < len, m (p + i) = m (q + i) := by
  have hlen : 4 * (len / 4) = len := Nat.mul_div_cancel' (Nat.dvd_of_mod_eq_zero h4)
  rw [dfuCompareBlock, hmbr.compared, hlen]
  constructor
  · intro heq i hi
    have hget := congrArg (fun l : List Byte => l[i]?) heq
    simp only [slice_getElem? hi] at hget
    exact Option.some.inj hget
  · intro h
    refine List.ext_getElem? fun i => ?_
    obtain hi | hi := Nat.lt_or_ge i len
    · rw [slice_getElem? hi, slice_getElem? hi, h i hi]
    · rw [List.getElem?_eq_none (by rw [slice_length]; exact hi),
        List.getElem?_eq_none (by rw [slice_length]; exact hi)]

theorem pageOf_eq {a : Nat} (h : a % codePageSize = 0) : pageOf a = a :=
  Nat.div_mul_cancel (Nat.dvd_of_mod_eq_zero h)

theorem le_pageUp (a : Nat) : a ≤ pageUp a := by
  have hpage : codePageSize = 4096 := rfl
  have := (pageOf_le (a + codePageSize - 1)).2
  unfold pageUp
  omega

theorem pageUp_le {a e : Nat} (he : e % codePageSize = 0) (h : a ≤ e) : pageUp a ≤ e := by
  simp only [pageUp, pageOf, codePageSize] at he ⊢
  omega

/-- Nothing changed outside of `[lo, hi)`. -/
def Within (lo hi : Nat) (m m' : Mem) : Prop := ∀ x, x < lo ∨ hi ≤ x → m' x = m x

variable {F : Mem → NrfError → Prop}

theorem copySd_ran (hmbr : mbr.Sound) (h4 : len % 4 = 0)
    (hapart : src + len ≤ pageOf dst ∨ pageUp (dst + len) ≤ src)
    (hF : F m (dfuCopySd mbr src dst len m).1) :
    Ran .success F m (dfuCopySd mbr src dst len m)
      (Within (pageOf dst) (pageUp (dst + len)) m)
      (fun m' => Within (pageOf dst) (pageUp (dst + len)) m m' ∧
        ∀ i < len, m' (dst + i) = m (src + i)) := by
  have hlen : 4 * (len / 4) = len := Nat.mul_div_cancel' (Nat.dvd_of_mod_eq_zero h4)
  have hcuts : AtCuts (Within (pageOf dst) (pageUp (dst + len)) m)
      (dfuCopySd mbr src dst len m).2 m := by
    intro k x hx
    refine replay_spares (fun op hop => ?_) m
    obtain ⟨hlo, hhi⟩ := hmbr.inside m src dst (len / 4) op (List.mem_of_mem_take hop)
    rw [hlen] at hhi
    omega
  rw [← hlen] at hapart
  refine ⟨hcuts, fun hs => ⟨hcuts.whole, fun i hi => ?_⟩, fun _ => ⟨0, hF⟩⟩
  refine hmbr.copied m src dst (len / 4) hapart hs i ?_
  rw [hlen]
  exact hi

/-! ## Three rounds -/

/-- Where the image is and where it goes: `b` bytes of room for each of the first two rounds, and
a third round that spares the source of the second one. -/
structure Rounds (start size b : Nat) : Prop where
  aligned : start % codePageSize = 0
  block : b % codePageSize = 0
  positive : 0 < b
  room : softdeviceRegionStart + 2 * b ≤ start
  long : 2 * b ≤ size
  short : pageUp (softdeviceRegionStart + size) ≤ start + b
  words : size % 4 = 0
  small : start + size < 2 ^ 32

/-- The bytes `[i, j)` of the image have been moved. -/
def InPlace (m₀ : Mem) (start i j : Nat) (m : Mem) : Prop :=
  ∀ x, i ≤ x → x < j → m (softdeviceRegionStart + x) = m₀ (start + x)

/-- The bytes `[i, j)` of the image are still where they were received. -/
def SourceKept (m₀ : Mem) (start i j : Nat) (m : Mem) : Prop :=
  ∀ x, i ≤ x → x < j → m (start + x) = m₀ (start + x)

/-- What a swap keeps: until the third round it can start again, and the back of the image is in
place only behind its front; from then on the first two rounds are done. -/
inductive SwapInv (m₀ : Mem) (start size b : Nat) (m : Mem) : Prop where
  | early : SourceKept m₀ start 0 size m →
      (InPlace m₀ start b (2 * b) m → InPlace m₀ start 0 b m) →
      (InPlace m₀ start (2 * b) size m → InPlace m₀ start 0 (2 * b) m) →
      SwapInv m₀ start size b m
  | late : SourceKept m₀ start b size m → InPlace m₀ start 0 (2 * b) m → SwapInv m₀ start size b m

theorem InPlace.append {i j k : Nat} (h : InPlace m₀ start i j m) (h' : InPlace m₀ start j k m) :
    InPlace m₀ start i k m := by
  intro x hi hk
  obtain hj | hj := Nat.lt_or_ge x j
  · exact h x hi hj
  · exact h' x hj hk

theorem SourceKept.part {i j i' j' : Nat} (h : SourceKept m₀ start i j m) (hi : i ≤ i')
    (hj : j' ≤ j) : SourceKept m₀ start i' j' m := fun x h1 h2 => h x (by omega) (by omega)

theorem InPlace.within {i j lo hi : Nat} (h : InPlace m₀ start i j m) (hw : Within lo hi m m')
    (hout : softdeviceRegionStart + j ≤ lo ∨ hi ≤ softdeviceRegionStart + i) :
    InPlace m₀ start i j m' := by
  intro x h1 h2
  rw [hw _ (by omega)]
  exact h x h1 h2

theorem SourceKept.within {i j lo hi : Nat} (h : SourceKept m₀ start i j m) (hw : Within lo hi m m')
    (hout : start + j ≤ lo ∨ hi ≤ start + i) : SourceKept m₀ start i j m' := by
  intro x h1 h2
  rw [hw _ (by omega)]
  exact h x h1 h2

theorem SourceKept.get {i n k : Nat} (h : SourceKept m₀ start i (i + n) m) (hk : k < n) :
    m (start + i + k) = m₀ (start + i + k) := by
  rw [Nat.add_assoc]
  exact h (i + k) (Nat.le_add_right _ _) (Nat.add_lt_add_left hk _)

theorem inPlace_iff {i n : Nat} : InPlace m₀ start i (i + n) m ↔
    ∀ k < n, m (softdeviceRegionStart + i + k) = m₀ (start + i + k) := by
  simp only [Nat.add_assoc]
  constructor
  · exact fun h k hk => h (i + k) (Nat.le_add_right _ _) (Nat.add_lt_add_left hk _)
  · intro h x h1 h2
    have := h (x - i) (by omega)
    rwa [Nat.add_sub_cancel' h1] at this

/-- A block whose source is intact is compared with the image itself. -/
theorem compare_iff (hmbr : mbr.Sound) {i n : Nat} (h4 : n % 4 = 0) (h : SourceKept m₀ start i (i + n) m) :
    dfuCompareBlock mbr m (start + i) (softdeviceRegionStart + i) n = .success ↔
      InPlace m₀ start i (i + n) m := by
  rw [compare_success hmbr h4, inPlace_iff]
  refine forall₂_congr fun k hk => ?_
  rw [h.get hk]
  exact eq_comm

/-- A round: the block is copied and compared. -/
theorem round_ran {i n : Nat} (hmbr : mbr.Sound) (h4 : n % 4 = 0)
    (hsrc : SourceKept m₀ start i (i + n) m)
    (hapart : pageUp (softdeviceRegionStart + i + n) ≤ start + i)
    (hF : F m (dfuCopySd mbr (start + i) (softdeviceRegionStart + i) n m).1) :
    Ran .success F m
      (andThen .success m (dfuCopySd mbr (start + i) (softdeviceRegionStart + i) n m) fun m =>
        (dfuCompareBlock mbr m (start + i) (softdeviceRegionStart + i) n, []))
      (Within (pageOf (softdeviceRegionStart + i)) (pageUp (softdeviceRegionStart + i + n)) m)
      (fun m' => Within (pageOf (softdeviceRegionStart + i))
          (pageUp (softdeviceRegionStart + i + n)) m m' ∧ InPlace m₀ start i (i + n) m') := by
  refine (copySd_ran hmbr h4 (.inr hapart) hF).andThen fun m' hm' => ?_
  obtain ⟨hw, heq⟩ := hm'
  have hin : InPlace m₀ start i (i + n) m' :=
    inPlace_iff.mpr fun k hk => (heq k hk).trans (hsrc.get hk)
  have hsrc' : SourceKept m₀ start i (i + n) m' := hsrc.within hw (.inr hapart)
  have hcmp : dfuCompareBlock mbr m' (start + i) (softdeviceRegionStart + i) n = .success :=
    (compare_iff hmbr h4 hsrc').mpr hin
  exact ⟨.nil hw, fun _ => ⟨hw, hin⟩, fun hf => absurd hcmp hf⟩

/-- One level of the recursion: the block is in place, or the blocks before it are swapped and then
the block itself. -/
theorem level_ran {depth i n : Nat} {R : Mem → Prop} (hmbr : mbr.Sound) (h4 : n % 4 = 0)
    (hsrc : SourceKept m₀ start i (i + n) m)
    (hdone : InPlace m₀ start i (i + n) m → P m ∧ R m)
    (hback : ¬ InPlace m₀ start i (i + n) m → ∃ r,
      (if softdeviceRegionStart < softdeviceRegionStart + i then
        dfuSdImgBlockSwap mbr b depth (sub32 (start + i) b)
          (sub32 (softdeviceRegionStart + i) b) b m
      else some (.success, [])) = some r ∧ Ran .success F m r P Q)
    (hapart : pageUp (softdeviceRegionStart + i + n) ≤ start + i)
    (hF : ∀ m, F m (dfuCopySd mbr (start + i) (softdeviceRegionStart + i) n m).1)
    (hnext : ∀ m', Q m' → SourceKept m₀ start i (i + n) m' ∧
      ∀ m'', Within (pageOf (softdeviceRegionStart + i)) (pageUp (softdeviceRegionStart + i + n))
        m' m'' → P m'' ∧ (InPlace m₀ start i (i + n) m'' → R m'')) :
    ∃ r, dfuSdImgBlockSwap mbr b (depth + 1) (start + i) (softdeviceRegionStart + i) n m = some r ∧
      Ran .success F m r P R := by
  rw [dfuSdImgBlockSwap]
  split
  · rename_i hcmp
    obtain ⟨hp, hr⟩ := hdone ((compare_iff hmbr h4 hsrc).mp hcmp)
    exact ⟨_, rfl, .done hp hr⟩
  · rename_i hcmp
    obtain ⟨r, hr, hran⟩ := hback fun hin => hcmp ((compare_iff hmbr h4 hsrc).mpr hin)
    rw [hr]
    refine ⟨_, rfl, hran.andThen fun m' hq => ?_⟩
    obtain ⟨hsrc', hkeep⟩ := hnext m' hq
    exact (round_ran hmbr h4 hsrc' hapart (hF m')).mono (fun m'' hw => (hkeep m'' hw).1)
      fun m'' hw => (hkeep m'' hw.1).2 hw.2

theorem words_of_pages {n : Nat} (h : n % codePageSize = 0) : n % 4 = 0 := by
  simp only [codePageSize] at h
  omega

theorem page_add {a n : Nat} (ha : a % codePageSize = 0) (hn : n % codePageSize = 0) :
    (a + n) % codePageSize = 0 := by
  rw [Nat.add_mod, ha, hn]
  rfl

/-- The pages of the first two rounds are whole. -/
theorem Rounds.pages (hg : Rounds start size b) {i : Nat} (hi : i % codePageSize = 0) :
    pageOf (softdeviceRegionStart + i) = softdeviceRegionStart + i ∧
    pageUp (softdeviceRegionStart + i + b) = softdeviceRegionStart + i + b := by
  have h1 : (softdeviceRegionStart + i) % codePageSize = 0 := page_add rfl hi
  exact ⟨pageOf_eq h1, Nat.le_antisymm (pageUp_le (page_add h1 hg.block) (Nat.le_refl _))
    (le_pageUp _)⟩

/-- What the boot record answers in `m` to a copy of one of the rounds. -/
inductive RoundAnswers (mbr : Mbr) (start size b : Nat) (m : Mem) : NrfError → Prop where
  | first : RoundAnswers mbr start size b m (dfuCopySd mbr start softdeviceRegionStart b m).1
  | second : RoundAnswers mbr start size b m
      (dfuCopySd mbr (start + b) (softdeviceRegionStart + b) b m).1
  | third : RoundAnswers mbr start size b m
      (dfuCopySd mbr (start + 2 * b) (softdeviceRegionStart + 2 * b) (size - 2 * b) m).1

/-- Nothing is in place of the second round and of the third one. -/
structure Begun (m₀ : Mem) (start size b : Nat) (m : Mem) : Prop where
  source : SourceKept m₀ start 0 size m
  second : ¬ InPlace m₀ start b (2 * b) m
  third : ¬ InPlace m₀ start (2 * b) size m

theorem Begun.inv (h : Begun m₀ start size b m) : SwapInv m₀ start size b m :=
  .early h.source (fun hin => absurd hin h.second) fun hin => absurd hin h.third

theorem first_ran (hg : Rounds start size b) (hmbr : mbr.Sound) (h : Begun m₀ start size b m) :
    ∃ r, dfuSdImgBlockSwap mbr b 1 start softdeviceRegionStart b m = some r ∧
      Ran .success (RoundAnswers mbr start size b) m r (SwapInv m₀ start size b) fun m' =>
        Begun m₀ start size b m' ∧ InPlace m₀ start 0 b m' := by
  have hroom := hg.room
  have hlong := hg.long
  obtain ⟨hlo, hhi⟩ := hg.pages (i := 0) rfl
  rw [Nat.add_zero] at hlo hhi
  have hlevel := @level_ran (SwapInv m₀ start size b) (Begun m₀ start size b) m m₀ mbr start b
    (RoundAnswers mbr start size b) 0 0 b
    (fun m' => Begun m₀ start size b m' ∧ InPlace m₀ start 0 b m') hmbr (words_of_pages hg.block)
  simp only [Nat.add_zero, Nat.zero_add, Nat.lt_irrefl, if_false] at hlevel
  refine hlevel (h.source.part (Nat.le_refl _) (by omega)) (fun hin => ⟨h.inv, h, hin⟩)
    (fun _ => ⟨_, rfl, .done h.inv h⟩) (by omega) (fun _ => .first) fun m' hm' => ?_
  refine ⟨hm'.source.part (Nat.le_refl _) (by omega), fun m'' hw => ?_⟩
  rw [hlo, hhi] at hw
  have hback : Within softdeviceRegionStart (softdeviceRegionStart + b) m'' m' :=
    fun x hx => (hw x hx).symm
  have hbegun : Begun m₀ start size b m'' :=
    ⟨hm'.source.within hw (.inr (by omega)),
      fun hin => hm'.second (hin.within hback (.inr (by omega))),
      fun hin => hm'.third (hin.within hback (.inr (by omega)))⟩
  exact ⟨hbegun.inv, fun hin => ⟨hbegun, hin⟩⟩

/-- The first two rounds are done. -/
structure Fronted (m₀ : Mem) (start size b : Nat) (m : Mem) : Prop where
  source : SourceKept m₀ start b size m
  placed : InPlace m₀ start 0 (2 * b) m

theorem Fronted.inv (h : Fronted m₀ start size b m) : SwapInv m₀ start size b m :=
  .late h.source h.placed

/-- The back is not in place, and what there is in place of the rest was put there. -/
inductive Waiting (m₀ : Mem) (start size b : Nat) (m : Mem) : Prop where
  | early : SourceKept m₀ start 0 size m →
      (InPlace m₀ start b (2 * b) m → InPlace m₀ start 0 b m) →
      ¬ InPlace m₀ start (2 * b) size m → Waiting m₀ start size b m
  | late : Fronted m₀ start size b m → Waiting m₀ start size b m

theorem Waiting.inv (h : Waiting m₀ start size b m) : SwapInv m₀ start size b m := by
  cases h with
  | early hs h1 h2 => exact .early hs h1 fun hin => absurd hin h2
  | late h => exact h.inv

theorem second_ran (hg : Rounds start size b) (hmbr : mbr.Sound)
    (h : Waiting m₀ start size b m) :
    ∃ r, dfuSdImgBlockSwap mbr b 2 (start + b) (softdeviceRegionStart + b) b m = some r ∧
      Ran .success (RoundAnswers mbr start size b) m r (SwapInv m₀ start size b)
        (Fronted m₀ start size b) := by
  have hroom := hg.room
  have hlong := hg.long
  have hpos := hg.positive
  have hsmall := hg.small
  obtain ⟨hlo, hhi⟩ := hg.pages hg.block
  have hsource : SourceKept m₀ start b (b + b) m := by
    cases h with
    | early hs => exact hs.part (Nat.zero_le _) (by omega)
    | late h => exact h.source.part (Nat.le_refl _) (by omega)
  refine @level_ran (SwapInv m₀ start size b)
    (fun m' => Begun m₀ start size b m' ∧ InPlace m₀ start 0 b m') m m₀ mbr start b
    (RoundAnswers mbr start size b) 1 b b (Fronted m₀ start size b) hmbr (words_of_pages hg.block)
    hsource (fun hin => ?_) (fun hout => ?_) (by omega) (fun _ => .second) fun m' hm' => ?_
  · refine ⟨h.inv, ?_⟩
    rw [← Nat.two_mul] at hin
    cases h with
    | early hs hfirst => exact ⟨hs.part (Nat.zero_le _) (Nat.le_refl _), (hfirst hin).append hin⟩
    | late h => exact h
  · rw [if_pos (by omega), sub32_eq (by omega) (by omega), sub32_eq (by omega) (by omega),
      Nat.add_sub_cancel, Nat.add_sub_cancel]
    rw [← Nat.two_mul] at hout
    cases h with
    | early hs hfirst hback => exact first_ran hg hmbr ⟨hs, hout, hback⟩
    | late h =>
      refine absurd (fun x h1 h2 => h.placed x (Nat.zero_le _) h2) hout
  · obtain ⟨hbegun, hfirst⟩ := hm'
    refine ⟨hbegun.source.part (Nat.zero_le _) (by omega), fun m'' hw => ?_⟩
    rw [hlo, hhi] at hw
    have hsource' : SourceKept m₀ start 0 size m'' := hbegun.source.within hw (.inr (by omega))
    have hfirst' : InPlace m₀ start 0 b m'' := hfirst.within hw (.inl (by omega))
    refine ⟨.early hsource' (fun _ => hfirst') fun hin => ?_, fun hin => ?_⟩
    · have hback : Within (softdeviceRegionStart + b) (softdeviceRegionStart + b + b) m'' m' :=
        fun x hx => (hw x hx).symm
      exact absurd (hin.within hback (.inr (by omega))) hbegun.third
    · rw [← Nat.two_mul] at hin
      exact ⟨hsource'.part (Nat.zero_le _) (Nat.le_refl _), hfirst'.append hin⟩

/-- The call of `dfu_sd_image_swap` and of `dfu_sd_image_validate`. -/
def threeRounds (mbr : Mbr) (start size b : Nat) (m : Mem) : Option Traced :=
  dfuSdImgBlockSwap mbr b 3 (add32 start (2 * b)) (add32 softdeviceRegionStart (2 * b))
    (sub32 (add32 start size) (add32 start (2 * b))) m

theorem threeRounds_eq (hg : Rounds start size b) : threeRounds mbr start size b m =
    dfuSdImgBlockSwap mbr b 3 (start + 2 * b) (softdeviceRegionStart + 2 * b) (size - 2 * b) m := by
  obtain ⟨-, -, -, hroom, hlong, -, -, hsmall⟩ := hg
  have hsrc : add32 start (2 * b) = start + 2 * b := add32_eq (by omega)
  have hdst : add32 softdeviceRegionStart (2 * b) = softdeviceRegionStart + 2 * b :=
    add32_eq (by omega)
  have hend : add32 start size = start + size := add32_eq hsmall
  have hrest : sub32 (start + size) (start + 2 * b) = size - 2 * b := by
    rw [sub32_eq (by omega) (by omega), Nat.add_sub_add_left]
  rw [threeRounds, hsrc, hdst, hend, hrest]

theorem threeRounds_ran (hg : Rounds start size b) (hmbr : mbr.Sound)
    (h : SwapInv m₀ start size b m) : ∃ r, threeRounds mbr start size b m = some r ∧
      Ran .success (RoundAnswers mbr start size b) m r (SwapInv m₀ start size b)
        (InPlace m₀ start 0 size) := by
  have hroom := hg.room
  have hlong := hg.long
  have hpos := hg.positive
  have hsmall := hg.small
  have hshort := hg.short
  have hwords := hg.words
  have hb := hg.block
  have hrest : 2 * b + (size - 2 * b) = size := by omega
  have hend : softdeviceRegionStart + 2 * b + (size - 2 * b) = softdeviceRegionStart + size := by
    omega
  have hlo : pageOf (softdeviceRegionStart + 2 * b) = softdeviceRegionStart + 2 * b := by
    refine pageOf_eq (page_add rfl ?_)
    rw [Nat.two_mul]
    exact page_add hb hb
  have hsource : SourceKept m₀ start (2 * b) size m := by
    cases h with
    | early hs => exact hs.part (Nat.zero_le _) (Nat.le_refl _)
    | late hs => exact hs.part (by omega) (Nat.le_refl _)
  have h4 : (size - 2 * b) % 4 = 0 := by
    have := words_of_pages hb
    omega
  rw [threeRounds_eq hg]
  refine @level_ran (SwapInv m₀ start size b) (Fronted m₀ start size b) m m₀ mbr start b
    (RoundAnswers mbr start size b) 2 (2 * b) (size - 2 * b) (InPlace m₀ start 0 size) hmbr h4
    (hrest.symm ▸ hsource) (fun hin => ⟨h, ?_⟩) (fun hout => ?_) (by rw [hend]; omega) (fun _ => .third) fun m' hm' => ?_
  · rw [hrest] at hin
    cases h with
    | early hs hfirst hthird => exact (hthird hin).append hin
    | late hs hplaced => exact hplaced.append hin
  · rw [if_pos (by omega), sub32_eq (by omega) (by omega), sub32_eq (by omega) (by omega),
      show start + 2 * b - b = start + b by omega,
      show softdeviceRegionStart + 2 * b - b = softdeviceRegionStart + b by omega]
    rw [hrest] at hout
    refine second_ran hg hmbr ?_
    cases h with
    | early hs hfirst _ => exact .early hs hfirst hout
    | late hs hplaced => exact .late ⟨hs, hplaced⟩
  · rw [hrest, hend, hlo]
    refine ⟨hm'.source.part (by omega) (Nat.le_refl _), fun m'' hw => ?_⟩
    have hplaced : InPlace m₀ start 0 (2 * b) m'' := hm'.placed.within hw (.inl (by omega))
    exact ⟨.late (hm'.source.within hw (.inr hshort)) hplaced, fun hin => hplaced.append hin⟩

/-! ## Power cuts -/

/-- A swap that loses power behind `k` operations. -/
def cutRounds (mbr : Mbr) (start size b : Nat) (m : Mem) (k : Nat) : Mem :=
  cutAt m k (threeRounds mbr start size b m)

theorem rounds_of (haligned : start % codePageSize = 0) (hlow : 0x3000 ≤ start)
    (hover : start < softdeviceRegionStart + size)
    (hshort : pageUp (softdeviceRegionStart + size) ≤ start + sdBlockSize start)
    (hwords : size % 4 = 0) (hsmall : start + size < 2 ^ 32) :
    Rounds start size (sdBlockSize start) := by
  have hsub : sub32 start softdeviceRegionStart = start - softdeviceRegionStart :=
    sub32_eq (by omega) (Nat.le_trans (by decide) hlow)
  have hhalf := pageOf_le ((start - softdeviceRegionStart) / 2)
  have hsd : softdeviceRegionStart = 0x1000 := rfl
  have hpage : codePageSize = 0x1000 := rfl
  rw [← hsub] at hhalf
  change sdBlockSize start ≤ _ ∧ _ < sdBlockSize start + _ at hhalf
  rw [hsub] at hhalf
  have hblock : sdBlockSize start % codePageSize = 0 := pageOf_mod _
  refine ⟨haligned, hblock, ?_, by omega, by omega, hshort, hwords, hsmall⟩
  omega

theorem cutRounds_inv (hg : Rounds start size b) (hmbr : mbr.Sound)
    (h : SwapInv m₀ start size b m) (k : Nat) :
    SwapInv m₀ start size b (cutRounds mbr start size b m k) := by
  obtain ⟨r, hr, hran⟩ := threeRounds_ran hg hmbr h
  rw [cutRounds, hr, cutAt_some]
  exact hran.cuts k

/-- A larger SoftDevice is moved over its own beginning, and power is lost any number of times in
any of the rounds: where the next swap ends in success, all of the image is in place, and an error
is what the boot record answered to one of its copies. The back of the image must not be in place
by chance before the front is. -/
theorem sd_swap_survives (hmbr : mbr.Sound) (haligned : start % codePageSize = 0)
    (hlow : 0x3000 ≤ start) (hover : start < softdeviceRegionStart + size)
    (hshort : pageUp (softdeviceRegionStart + size) ≤ start + sdBlockSize start)
    (hwords : size % 4 = 0) (hsmall : start + size < 2 ^ 32)
    (hsecond : InPlace m₀ start (sdBlockSize start) (2 * sdBlockSize start) m₀ →
      InPlace m₀ start 0 (sdBlockSize start) m₀)
    (hthird : InPlace m₀ start (2 * sdBlockSize start) size m₀ →
      InPlace m₀ start 0 (2 * sdBlockSize start) m₀) (ks : List Nat) :
    let m := ks.foldl (cutRounds mbr start size (sdBlockSize start)) m₀
    ∃ r, threeRounds mbr start size (sdBlockSize start) m = some r ∧
      (r.1 = .success → InPlace m₀ start 0 size (replay r.2 m)) ∧
      (r.1 ≠ .success → ∃ k,
        RoundAnswers mbr start size (sdBlockSize start) (replay (r.2.take k) m) r.1) := by
  intro m
  have hg := rounds_of haligned hlow hover hshort hwords hsmall
  have hstart : SwapInv m₀ start size (sdBlockSize start) m₀ :=
    .early (fun _ _ _ => rfl) hsecond hthird
  have hinv : SwapInv m₀ start size (sdBlockSize start) m :=
    List.foldlRecOn ks _ hstart fun _ hm k _ => cutRounds_inv hg hmbr hm k
  obtain ⟨r, hr, hran⟩ := threeRounds_ran hg hmbr hinv
  exact ⟨r, hr, hran.success, hran.failed⟩

/-- A boot record that erases the destination at once. -/
def plainMbr : Mbr where
  copySd m src dst n := (.success, .erase (pageOf dst) (pageUp (dst + 4 * n) - pageOf dst) ::
    wordsWrite dst (slice m src (4 * n)))
  compare m p q n := if slice m p (4 * n) = slice m q (4 * n) then .success else .other

theorem plainMbr_sound : plainMbr.Sound where
  inside m src dst n op hop := by
    have hle : pageOf dst ≤ dst ∧ dst + 4 * n ≤ pageUp (dst + 4 * n) :=
      ⟨(pageOf_le dst).1, le_pageUp _⟩
    obtain rfl | hop := List.mem_cons.mp hop
    · simp only [FlashOp.start, FlashOp.stop]
      omega
    · have := mem_wordsWrite hop
      rw [slice_length] at this
      omega
  copied m src dst n hapart _ i hi := by
    have hle : pageOf dst ≤ dst ∧ dst + 4 * n ≤ pageUp (dst + 4 * n) :=
      ⟨(pageOf_le dst).1, le_pageUp _⟩
    have hlen : (slice m src (4 * n)).length = 4 * n := slice_length _ _ _
    show replay (wordsWrite dst _) _ _ = _
    rw [replay_wordsWrite_erased (by omega) (Nat.le_add_right dst i) (by omega)
      (FlashOp.apply_erase (by omega) (by omega)), Nat.add_sub_cancel_left, slice_getD_add hi]
  compared m p q n := by
    simp only [plainMbr]
    split_ifs with heq
    · exact iff_of_true rfl heq
    · exact iff_of_false (by simp) heq

def oldAndNew : Mem := fun x => if x < 0x6000 then 0 else 1

theorem RoundAnswers.plain {e : NrfError} (h : RoundAnswers plainMbr start size b m e) :
    e = .success := by
  cases h <;> rfl

/-- Power is lost in each of the three rounds; the swap behind that answers success. -/
theorem sd_swap_survives_oldAndNew :
    let m := [700, 3000, 2050].foldl (cutRounds plainMbr 0x5000 0x4004 (sdBlockSize 0x5000)) oldAndNew
    ∃ r, threeRounds plainMbr 0x5000 0x4004 (sdBlockSize 0x5000) m = some r ∧
      r.1 = .success ∧ InPlace oldAndNew 0x5000 0 0x4004 (replay r.2 m) := by
  intro m
  obtain ⟨r, hr, hplaced, hfailed⟩ := @sd_swap_survives oldAndNew plainMbr 0x5000 0x4004
    plainMbr_sound (by decide) (by decide) (by decide) (by decide) (by decide) (by decide)
    (fun h => absurd (h 0x2000 (by decide) (by decide)) (by decide))
    (fun h => absurd (h 0x4000 (by decide) (by decide)) (by decide)) [700, 3000, 2050]
  have hok : r.1 = .success := by
    by_contra hne
    obtain ⟨k, hk⟩ := hfailed hne
    exact hne hk.plain
  exact ⟨r, hr, hok, hplaced hok⟩

end OtaFix
