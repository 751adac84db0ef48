import OtaFix.Mota.Run

/-!
# The scan of the internal staging area

An application stages a container bottom-aligned below a ceiling. `scan_mota` walks the
pages from the top, so what it returns is the highest container that is itself
bottom-aligned (`scanFlash_highest`). Nothing below a container can hide it; a page of
its own payload can (`mota_scan_returns_iff`).
-/

namespace OtaFix.Mota

open Lib Prog

variable {env : Env} {cfg : Profile} {s s' : Device} {mem : Mem} {ceiling : Nat} {c : List Byte}

/-! ## Containers -/

/-- The fixed header of the container `c`. -/
def headerOf (c : List Byte) : List Byte := c.take motaHeaderLen

/-- The blocks of the payload, the last one perhaps short. -/
def blockCountOf (c : List Byte) : Nat :=
  (wordAt (headerOf c) 23 + 2 ^ ((headerOf c).getD 27 0).toNat - 1) /
    2 ^ ((headerOf c).getD 27 0).toNat

/-- A well-formed container: header, one hash a block, payload and trailer, with nothing
between them. -/
structure WellFormed (cfg : Profile) (c : List Byte) : Prop where
  magic : c.take 4 = motaMagic
  total : wordAt (headerOf c) 4 = c.length
  version : ((headerOf c).getD 8 0).toNat = 2 ∨
    (cfg.bootloaderUpdateEnabled = true ∧ ((headerOf c).getD 8 0).toNat = 3)
  blockSize : 0 < ((headerOf c).getD 27 0).toNat ∧ ((headerOf c).getD 27 0).toNat ≤ 24
  payload : 0 < wordAt (headerOf c) 23
  blocks : blockCountOf c ≤ 0xFFFF
  length : c.length = motaHeaderLen + blockCountOf c * 4 + wordAt (headerOf c) 23 +
    motaTrailer.length
  trailer : c.drop (c.length - motaTrailer.length) = motaTrailer

/-- The header fields of the container `c`, staged at `a`. -/
def fieldsOf (a : Nat) (c : List Byte) : MotaMin where
  isFull := ((headerOf c).getD 9 0).toNat &&& mflagFull ≠ 0
  approved := ((headerOf c).drop approvalOffset).take 4 = motaAprv
  formatVer := ((headerOf c).getD 8 0).toNat
  flags := ((headerOf c).getD 9 0).toNat
  hashAlgo := ((headerOf c).getD 10 0).toNat
  blockSizeLog2 := ((headerOf c).getD 27 0).toNat
  total := c.length
  imageSize := wordAt (headerOf c) 19
  payloadSize := wordAt (headerOf c) 23
  payloadAddr := a + (motaHeaderLen + blockCountOf c * 4)
  approvalAddr := a + approvalOffset
  targetId := wordAt (headerOf c) 11
  fwVersion := wordAt (headerOf c) 15
  blockCount := blockCountOf c
  imageHash := ((headerOf c).drop 32).take 32
  codecId := ((headerOf c).getD 64 0).toNat
  hwId := ((headerOf c).drop 65).take 32
  baseHash := ((headerOf c).drop 97).take 8

/-- Where a container of `len` bytes starts below `ceiling`. -/
def stageStart (ceiling len : Nat) : Nat :=
  (ceiling - len) - (ceiling - len) % codePageSize

/-- The flash holds the container bottom-aligned below the ceiling. -/
structure Staged (mem : Mem) (ceiling : Nat) (c : List Byte) : Prop where
  room : c.length ≤ ceiling
  /-- It is staged in the application region. -/
  above : dfuBank0RegionStart mem < stageStart ceiling c.length + codePageSize
  bytes : slice mem (stageStart ceiling c.length) c.length = c
  tail : ∀ x, stageStart ceiling c.length + c.length ≤ x → x < ceiling → mem x = 0xFF

/-- The ceilings that `scan_mota` accepts. -/
def Ceiling (cfg : Profile) (ceiling : Nat) : Prop :=
  ceiling = stageCeilingLegacy ∨ ceiling = stageCeilingExpanded ∨
    (cfg.qspiBootloaderUpdate = true ∧ ceiling = motaBlScratchStart)

theorem Ceiling.aligned (h : Ceiling cfg ceiling) : ceiling % codePageSize = 0 := by
  rcases h with rfl | rfl | ⟨-, rfl⟩ <;> rfl

theorem Ceiling.page_le (h : Ceiling cfg ceiling) : codePageSize ≤ ceiling := by
  rcases h with rfl | rfl | ⟨-, rfl⟩ <;> decide

/-! ## The parser over flash -/

/-- Nothing but internal flash is selected. -/
structure Internal (cfg : Profile) (g : Statics) : Prop where
  sd : cfg.sdSelected g = false
  hybrid : cfg.hybridSelected g = false
  qspi : cfg.qspiSelected g = false
  /-- The build has the internal scan. -/
  built : (cfg.sdCard && !cfg.sdOptional) = false

theorem Internal.still (h : Internal cfg s.statics) (hs : Still s s') : Internal cfg s'.statics :=
  ⟨(hs.source.sdSelected cfg).trans h.sd, (hs.source.hybridSelected cfg).trans h.hybrid,
    (hs.source.qspiSelected cfg).trans h.qspi, h.built⟩

theorem stagedRead_flash (h : Internal cfg s.statics) (a n : Nat) :
    (stagedRead cfg a n).Sat (handler env) (Reads cfg)
      (fun r s' => r = some (slice s.mem a n) ∧ Still s s') s := by
  have hread : Reads cfg (.stagedFlash a n) (after env .get s) := ⟨h.sd, .inr h.qspi⟩
  have hget : Still s (after env .get s) := still_after (show Reads cfg .get s from trivial)
  refine sat_get.mpr ⟨trivial, ?_⟩
  rw [if_neg (by rw [h.sd]; decide), if_neg (by rw [h.hybrid]; decide),
    if_neg (by rw [h.qspi]; decide)]
  exact sat_op.mpr ⟨hread, rfl, hget.trans (still_after hread)⟩

theorem parseMotaAt_flash (h : Internal cfg s.statics) (a limit : Nat) :
    (parseMotaAt cfg a limit).Sat (handler env) (Reads cfg)
      (fun r s' => r = containerAt cfg s.mem a limit ∧ Still s s') s := by
  unfold parseMotaAt containerAt
  simp only
  by_cases hlimit : limit < a
  · rw [if_pos hlimit, if_pos (.inl hlimit)]
    exact ⟨rfl, .refl s⟩
  by_cases havail : limit - a < motaHeaderLen + motaTrailer.length
  · rw [if_neg hlimit, if_pos havail, if_pos (.inr havail)]
    exact ⟨rfl, .refl s⟩
  rw [if_neg hlimit, if_neg havail, if_neg (not_or.mpr ⟨hlimit, havail⟩)]
  refine (stagedRead_flash h a motaHeaderLen).bind fun r s1 h1 => ?_
  obtain ⟨rfl, h1⟩ := h1
  simp only
  split_ifs with hmagic htotal htrailer
  · exact ⟨rfl, h1⟩
  · exact ⟨rfl, h1⟩
  all_goals
    refine (stagedRead_flash (h.still h1) _ _).bind fun t s2 h2 => ?_
    obtain ⟨rfl, h2⟩ := h2
    rw [h1.mem]
  · rw [if_pos (congrArg some htrailer)]
    exact ⟨rfl, h1.trans h2⟩
  · rw [if_neg fun heq => htrailer (Option.some.inj heq)]
    exact ⟨rfl, h1.trans h2⟩

/-! ## What the parser accepts -/

theorem blockCountOf_eq (c : List Byte) : blockCountOf c =
    wordAt (headerOf c) 23 / 2 ^ ((headerOf c).getD 27 0).toNat +
      (if wordAt (headerOf c) 23 % 2 ^ ((headerOf c).getD 27 0).toNat ≠ 0 then 1 else 0) := by
  unfold blockCountOf
  generalize hB : 2 ^ ((headerOf c).getD 27 0).toNat = B
  generalize wordAt (headerOf c) 23 = p
  have hpos : 0 < B := by rw [← hB]; exact Nat.two_pow_pos _
  have hdiv := Nat.div_add_mod p B
  have hlt := Nat.mod_lt p hpos
  rw [Nat.mul_comm] at hdiv
  split_ifs with h
  · rw [Nat.div_eq_iff hpos, Nat.add_mul]
    omega
  · rw [Nat.add_zero, Nat.div_eq_iff hpos]
    omega

theorem motaManifest_iff {a : Nat} {m : MotaMin} (hmin : motaTrailer.length ≤ c.length) :
    motaManifest cfg a c.length (headerOf c) = some m ↔
      (((headerOf c).getD 8 0).toNat = 2 ∨
        (cfg.bootloaderUpdateEnabled = true ∧ ((headerOf c).getD 8 0).toNat = 3)) ∧
      (0 < ((headerOf c).getD 27 0).toNat ∧ ((headerOf c).getD 27 0).toNat ≤ 24) ∧
      0 < wordAt (headerOf c) 23 ∧ blockCountOf c ≤ 0xFFFF ∧
      c.length = motaHeaderLen + blockCountOf c * 4 + wordAt (headerOf c) 23 + motaTrailer.length ∧
      m = fieldsOf a c := by
  have hzero : 0 < wordAt (headerOf c) 23 → 0 < blockCountOf c := by
    intro hp
    exact Nat.div_pos (by omega) (Nat.two_pow_pos _)
  unfold motaManifest
  simp only
  rw [← blockCountOf_eq]
  constructor
  · intro h
    rw [Option.ite_none_left_eq_some] at h
    obtain ⟨hver, h⟩ := h
    rw [Option.ite_none_left_eq_some] at h
    obtain ⟨hsize, h⟩ := h
    rw [Option.ite_none_left_eq_some] at h
    obtain ⟨hblocks, h⟩ := h
    rw [Option.ite_none_left_eq_some, Option.some_inj] at h
    obtain ⟨hend, rfl⟩ := h
    refine ⟨by tauto, by omega, by omega, by omega, by omega, rfl⟩
  · rintro ⟨hver, hsize, hpayload, hblocks, hlen, rfl⟩
    have := hzero hpayload
    rw [if_neg (by tauto), if_neg (by omega), if_neg (by omega), if_neg (by omega)]
    rfl

theorem headerOf_slice {a n : Nat} (h : motaHeaderLen ≤ n) :
    headerOf (slice mem a n) = slice mem a motaHeaderLen := by
  obtain ⟨k, rfl⟩ := Nat.exists_eq_add_of_le h
  rw [headerOf, slice_add, List.take_left' (slice_length _ _ _)]

theorem take_headerOf (c : List Byte) : (headerOf c).take 4 = c.take 4 := by
  rw [headerOf, List.take_take]
  rfl

/-- The last `k` bytes of a slice. -/
theorem slice_last {a n k : Nat} (h : k ≤ n) :
    (slice mem a n).drop (n - k) = slice mem (a + n - k) k := by
  rw [slice_drop (Nat.sub_le n k), Nat.sub_sub_self h, Nat.add_sub_assoc h]

/-- The parser accepts exactly the well-formed containers below its limit. -/
theorem containerAt_eq_some {a limit : Nat} {m : MotaMin} : containerAt cfg mem a limit = some m ↔
    ∃ c, WellFormed cfg c ∧ a + c.length ≤ limit ∧ slice mem a c.length = c ∧ m = fieldsOf a c := by
  have ht : motaTrailer.length = 5 := rfl
  have hh : motaHeaderLen = 205 := rfl
  unfold containerAt
  simp only
  constructor
  · intro h
    rw [Option.ite_none_left_eq_some] at h
    obtain ⟨hlimit, h⟩ := h
    rw [Option.ite_none_left_eq_some] at h
    obtain ⟨hmagic, h⟩ := h
    rw [Option.ite_none_left_eq_some] at h
    obtain ⟨htotal, h⟩ := h
    rw [Option.ite_none_right_eq_some] at h
    obtain ⟨htrailer, h⟩ := h
    generalize hn : wordAt (slice mem a motaHeaderLen) 4 = n at *
    rw [not_or] at hlimit htotal
    have hhead : headerOf (slice mem a n) = slice mem a motaHeaderLen := headerOf_slice (by omega)
    have hlen : (slice mem a n).length = n := slice_length _ _ _
    have hmanifest : motaManifest cfg a (slice mem a n).length (headerOf (slice mem a n)) = some m := by
      rw [hhead, hlen]
      exact h
    obtain ⟨hver, hsize, hpayload, hblocks, hlayout, rfl⟩ :=
      (motaManifest_iff (by rw [hlen]; omega)).mp hmanifest
    refine ⟨slice mem a n, ⟨?_, ?_, hver, hsize, hpayload, hblocks, hlayout, ?_⟩, by omega,
      by rw [hlen], rfl⟩
    · rw [← take_headerOf, hhead]
      exact not_not.mp hmagic
    · rw [hhead, hn, hlen]
    · rw [hlen, slice_last (by omega)]
      exact htrailer
  · rintro ⟨c, hc, hle, hbytes, rfl⟩
    have hlen := hc.length
    have hpos : motaHeaderLen + motaTrailer.length ≤ c.length := by omega
    have hhead : slice mem a motaHeaderLen = headerOf c := by
      rw [← headerOf_slice (by omega : motaHeaderLen ≤ c.length), hbytes]
    have htr := hc.trailer
    rw [← hbytes, slice_length, slice_last (by omega)] at htr
    rw [hhead, hc.total, if_neg (by omega), take_headerOf, if_neg (not_not.mpr hc.magic),
      if_neg (by omega), if_pos htr, motaManifest_iff (by omega)]
    exact ⟨hc.version, hc.blockSize, hc.payload, hc.blocks, hc.length, rfl⟩

/-! ## The walk -/

/-- A container at `a` that is bottom-aligned itself. -/
def Hit (cfg : Profile) (mem : Mem) (ceiling a : Nat) (m : MotaMin) : Prop :=
  containerAt cfg mem a ceiling = some m ∧ stageStart ceiling m.total = a

theorem stageStart_aligned (ceiling len : Nat) : stageStart ceiling len % codePageSize = 0 :=
  Nat.mod_eq_zero_of_dvd (Nat.dvd_sub_mod _)

theorem containerAt_magic {a limit : Nat} {m : MotaMin} (h : containerAt cfg mem a limit = some m) :
    slice mem a 4 = motaMagic := by
  obtain ⟨c, hc, -, hbytes, -⟩ := containerAt_eq_some.mp h
  have hlen := hc.length
  have hh : motaHeaderLen = 205 := rfl
  obtain ⟨k, hk⟩ := Nat.exists_eq_add_of_le (show 4 ≤ c.length by omega)
  rw [hk, slice_add] at hbytes
  rw [← hc.magic, ← hbytes, List.take_left' (slice_length _ _ _)]

/-- The walk returns the highest hit among its pages. -/
theorem scanPages_highest (h : Internal cfg s.statics) (base ceiling k : Nat) :
    (scanPages cfg base ceiling k).Sat (handler env) (Reads cfg) (fun r s' =>
      (∀ a m, r = some (a, m) → Hit cfg s.mem ceiling a m ∧
        ∀ j m', j < k → a < j * codePageSize → ¬ Hit cfg s.mem ceiling (j * codePageSize) m') ∧
      (r = none → ∀ j m', j < k → base < (j + 1) * codePageSize →
        ¬ Hit cfg s.mem ceiling (j * codePageSize) m') ∧ Still s s') s := by
  induction k generalizing s with
  | zero => exact ⟨(fun _ _ h => by cases h), fun _ j _ hj => absurd hj (Nat.not_lt_zero j), .refl s⟩
  | succ k ih =>
    unfold scanPages
    split_ifs with hbase
    · refine ⟨(fun _ _ h => by cases h), fun _ j m' hj hb => ?_, .refl s⟩
      have : (j + 1) * codePageSize ≤ (k + 1) * codePageSize := Nat.mul_le_mul_right _ hj
      omega
    have hr : Reads cfg (.stagedFlash (k * codePageSize) 4) s := ⟨h.sd, .inr h.qspi⟩
    have hst : Still s (after env (.stagedFlash (k * codePageSize) 4) s) := still_after hr
    refine sat_op.mpr ⟨hr, ?_⟩
    rw [show answer env (.stagedFlash (k * codePageSize) 4) s = slice s.mem (k * codePageSize) 4
      from rfl]
    refine Sat.bind (Q := fun r s' =>
      r = containerAt cfg s.mem (k * codePageSize) ceiling ∧ Still s s') ?_ fun r s1 h1 => ?_
    · split_ifs with hmagic
      · refine (parseMotaAt_flash (h.still hst) _ _).post fun r s' h' => ⟨?_, hst.trans h'.2⟩
        rw [h'.1, hst.mem]
      · refine ⟨?_, hst⟩
        cases hat : containerAt cfg s.mem (k * codePageSize) ceiling with
        | none => rfl
        | some m => exact absurd (containerAt_magic hat) hmagic
    obtain ⟨hr, h1⟩ := h1
    -- without a hit on page `k` the walk goes on below it
    have hnext : (∀ m', ¬ Hit cfg s.mem ceiling (k * codePageSize) m') →
        (scanPages cfg base ceiling k).Sat (handler env) (Reads cfg) (fun r s' =>
          (∀ a m, r = some (a, m) → Hit cfg s.mem ceiling a m ∧
            ∀ j m', j < k + 1 → a < j * codePageSize →
              ¬ Hit cfg s.mem ceiling (j * codePageSize) m') ∧
          (r = none → ∀ j m', j < k + 1 → base < (j + 1) * codePageSize →
            ¬ Hit cfg s.mem ceiling (j * codePageSize) m') ∧ Still s s') s1 := by
      intro hno
      refine (ih (h.still h1)).post fun r s' h' => ?_
      obtain ⟨hsome, hnone, h2⟩ := h'
      rw [h1.mem] at hsome hnone
      refine ⟨fun a m hr => ⟨(hsome a m hr).1, fun j m' hj hlt => ?_⟩, fun hr j m' hj hb => ?_,
        h1.trans h2⟩
      · rcases Nat.lt_succ_iff_lt_or_eq.mp hj with hj | rfl
        · exact (hsome a m hr).2 j m' hj hlt
        · exact hno m'
      · rcases Nat.lt_succ_iff_lt_or_eq.mp hj with hj | rfl
        · exact hnone hr j m' hj hb
        · exact hno m'
    cases r with
    | none => exact hnext fun m' hm => by rw [hm.1] at hr; cases hr
    | some m =>
      simp only
      split_ifs with hal
      · refine ⟨fun a m' heq => ?_, (fun h => by cases h), h1⟩
        obtain ⟨rfl, rfl⟩ := Prod.mk.inj (Option.some.inj heq)
        refine ⟨⟨hr.symm, hal⟩, fun j m' hj hlt => ?_⟩
        have := Nat.lt_of_mul_lt_mul_right hlt
        omega
      · refine hnext fun m' hm => hal ?_
        obtain rfl : m = m' := Option.some.inj (hr.trans hm.1)
        exact hm.2

/-- `scan_mota` on internal flash returns the highest hit below the ceiling. -/
theorem scanMota_highest (h : Internal cfg s.statics) (hc : Ceiling cfg ceiling) (env : Env) :
    (scanMota cfg ceiling).Sat (handler env) (fun _ _ => True) (fun r _ =>
      (∀ a m, r = some (a, m) → Hit cfg s.mem ceiling a m ∧ ∀ j m',
        j < (ceiling - motaMinLen) / codePageSize + 1 → a < j * codePageSize →
          ¬ Hit cfg s.mem ceiling (j * codePageSize) m') ∧
      (r = none → ∀ j m', j < (ceiling - motaMinLen) / codePageSize + 1 →
        dfuBank0RegionStart s.mem < (j + 1) * codePageSize →
          ¬ Hit cfg s.mem ceiling (j * codePageSize) m')) s := by
  have hget : Still s (after env .get s) := still_after (show Reads cfg .get s from trivial)
  have hview : Still s (after env .view (after env .get s)) :=
    hget.trans (still_after (show Reads cfg .view _ from trivial))
  refine Sat.bind (Q := fun r _ =>
    (∀ a m, r = some (a, m) → Hit cfg s.mem ceiling a m ∧ ∀ j m',
      j < (ceiling - motaMinLen) / codePageSize + 1 → a < j * codePageSize →
        ¬ Hit cfg s.mem ceiling (j * codePageSize) m') ∧
    (r = none → ∀ j m', j < (ceiling - motaMinLen) / codePageSize + 1 →
      dfuBank0RegionStart s.mem < (j + 1) * codePageSize →
        ¬ Hit cfg s.mem ceiling (j * codePageSize) m')) ?_ fun r s1 h1 => ?_
  · refine sat_get.mpr ⟨trivial, ?_⟩
    rw [if_neg (by rw [h.sd]; decide), if_neg (by rw [h.built]; decide),
      if_neg (by rw [h.hybrid]; decide), if_neg (by rw [h.qspi]; decide)]
    unfold scanFlash
    rw [if_neg (by unfold Ceiling at hc; tauto)]
    refine sat_op.mpr ⟨trivial, ?_⟩
    refine (scanPages_highest (h.still hview) _ ceiling _).mono (fun _ _ _ => trivial) fun r s' h' => ?_
    rw [hview.mem] at h'
    exact ⟨h'.1, h'.2.1⟩
  · cases r with
    | none => exact h1
    | some x => exact sat_op.mpr ⟨trivial, h1⟩

/-! ## The current container -/

/-- The payload of `c` holds, at a page boundary, a container that is bottom-aligned too. -/
structure Nests (cfg : Profile) (ceiling : Nat) (c c' : List Byte) : Prop where
  wellFormed : WellFormed cfg c'
  inside : ∃ k, 0 < k ∧ (c.drop (k * codePageSize)).take c'.length = c' ∧
    stageStart ceiling c'.length = stageStart ceiling c.length + k * codePageSize

theorem slice_inner {a n k l : Nat} (h : k + l ≤ n) :
    ((slice mem a n).drop k).take l = slice mem (a + k) l := by
  rw [slice_drop (by omega)]
  obtain ⟨j, hj⟩ := Nat.exists_eq_add_of_le (show l ≤ n - k by omega)
  rw [hj, slice_add, List.take_left' (slice_length _ _ _)]

theorem stageStart_le {len : Nat} : stageStart ceiling len ≤ ceiling - len := Nat.sub_le _ _

/-- A bottom-aligned container is a hit. -/
theorem WellFormed.hit {a : Nat} (hw : WellFormed cfg c) (ha : stageStart ceiling c.length = a)
    (hroom : c.length ≤ ceiling) (hbytes : slice mem a c.length = c) :
    Hit cfg mem ceiling a (fieldsOf a c) := by
  have hle : stageStart ceiling c.length ≤ ceiling - c.length := stageStart_le
  exact ⟨containerAt_eq_some.mpr ⟨c, hw, by omega, hbytes, rfl⟩, ha⟩

/-- The page of a bottom-aligned container is one of the walk. -/
theorem WellFormed.page (hw : WellFormed cfg c) {j : Nat}
    (hj : stageStart ceiling c.length = j * codePageSize) :
    j < (ceiling - motaMinLen) / codePageSize + 1 := by
  have hle : stageStart ceiling c.length ≤ ceiling - c.length := stageStart_le
  have hlen := hw.length
  have h1 : motaHeaderLen = 205 := rfl
  have h2 : motaTrailer.length = 5 := rfl
  have h3 : motaMinLen = 210 := rfl
  rw [Nat.lt_add_one_iff, Nat.le_div_iff_mul_le (by decide), ← hj]
  omega

/-- The erased tail holds no trailer, so a container that starts in `c` ends in it. -/
theorem Staged.nests {c' : List Byte} {a : Nat} (hs : Staged mem ceiling c)
    (hw' : WellFormed cfg c') (hbytes : slice mem a c'.length = c')
    (hal : stageStart ceiling c'.length = a) (hlt : stageStart ceiling c.length < a) :
    Nests cfg ceiling c c' := by
  have hp : codePageSize = 0x1000 := rfl
  have h1 := stageStart_aligned ceiling c.length
  have h2 := stageStart_aligned ceiling c'.length
  have hle : stageStart ceiling c'.length ≤ ceiling - c'.length := stageStart_le
  have hlen := hw'.length
  have ht : motaTrailer.length = 5 := rfl
  rw [hal, hp] at h2
  rw [hp] at h1
  obtain ⟨k, hk⟩ : ∃ k, a = stageStart ceiling c.length + k * codePageSize :=
    ⟨(a - stageStart ceiling c.length) / 0x1000, by rw [hp]; omega⟩
  have hlast : mem (a + c'.length - 1) = 0x36 := by
    have htr := hw'.trailer
    rw [← hbytes, slice_length, slice_last (by omega)] at htr
    have := congrArg (fun l => l[4]?) htr
    rw [slice_getElem? (by omega), show a + c'.length - motaTrailer.length + 4 =
      a + c'.length - 1 by omega] at this
    exact Option.some.inj this
  have hend : a + c'.length ≤ stageStart ceiling c.length + c.length := by
    by_contra hgt
    have hroom : c'.length ≤ ceiling := by omega
    have := hs.tail (a + c'.length - 1) (by omega) (by omega)
    rw [hlast] at this
    cases this
  refine ⟨hw', k, Nat.pos_of_ne_zero ?_, ?_, hal.trans hk⟩
  · rintro rfl
    omega
  · rw [← hs.bytes, slice_inner (by omega), ← hk]
    exact hbytes

/-- The scan returns the staged container, with its header, exactly when no page of the
container itself starts a bottom-aligned one. -/
theorem mota_scan_returns_iff (h : Internal cfg s.statics) (hc : Ceiling cfg ceiling)
    (hw : WellFormed cfg c) (hs : Staged s.mem ceiling c) (env : Env) :
    ((scanMota cfg ceiling).run (handler env) s).1 =
      some (stageStart ceiling c.length, fieldsOf (stageStart ceiling c.length) c) ↔
    ¬ ∃ c', Nests cfg ceiling c c' := by
  obtain ⟨hsome, hnone⟩ := (scanMota_highest h hc env).result
  generalize ((scanMota cfg ceiling).run (handler env) s).1 = r at *
  have hp : codePageSize = 0x1000 := rfl
  obtain ⟨k0, hk0⟩ : ∃ k0, stageStart ceiling c.length = k0 * codePageSize := by
    obtain ⟨k0, hk0⟩ := Nat.dvd_of_mod_eq_zero (stageStart_aligned ceiling c.length)
    exact ⟨k0, hk0.trans (Nat.mul_comm _ _)⟩
  have hhit : Hit cfg s.mem ceiling _ (fieldsOf _ c) := hw.hit rfl hs.room hs.bytes
  constructor
  · rintro hr ⟨c', hn⟩
    obtain ⟨k, hpos, hbytes, hstart⟩ := hn.inside
    have hlen : k * codePageSize + c'.length ≤ c.length := by
      have := congrArg List.length hbytes
      have hl' := hn.wellFormed.length
      have ht : motaTrailer.length = 5 := rfl
      rw [List.length_take, List.length_drop] at this
      omega
    have hroom := hs.room
    have hat : stageStart ceiling c'.length = (k0 + k) * codePageSize := by
      rw [hstart, hk0, Nat.add_mul]
    have hhit' := hn.wellFormed.hit hat (by omega) (show slice s.mem _ _ = _ by
      rw [← hat, hstart, ← slice_inner hlen, hs.bytes]
      exact hbytes)
    refine (hsome _ _ hr).2 (k0 + k) _ (hn.wellFormed.page hat) ?_ hhit'
    rw [hk0, Nat.add_mul, hp]
    omega
  · intro hno
    cases r with
    | none =>
      rw [hk0] at hhit
      refine absurd hhit (hnone rfl k0 _ (hw.page hk0) ?_)
      have := hs.above
      rw [hk0] at this
      rw [Nat.add_mul, Nat.one_mul]
      exact this
    | some x =>
      obtain ⟨⟨hat, hal⟩, habove⟩ := hsome x.1 x.2 rfl
      rcases Nat.lt_trichotomy x.1 (stageStart ceiling c.length) with hlt | heq | hgt
      · rw [hk0] at hlt hhit
        exact absurd hhit (habove k0 _ (hw.page hk0) hlt)
      · rw [heq, hhit.1] at hat
        rw [show x = (x.1, x.2) from rfl, heq, ← Option.some.inj hat]
      · obtain ⟨c', hw', -, hbytes, hfields⟩ := containerAt_eq_some.mp hat
        rw [hfields] at hal
        exact absurd ⟨c', hs.nests hw' hbytes hal hgt⟩ hno

/-! ## A container inside a container -/

/-- A build with internal staging only. -/
def internalProfile : Profile :=
  { sampleProfile with qspiFlash := false, qspiBootloaderUpdate := false, qspiXiaoIdentity := false }

/-- The fixed header of a container of 4324 bytes and its only block hash. -/
def outerHeader : List Byte :=
  motaMagic ++ put32 4324 ++ [2, 0, 0x12] ++ put32 0 ++ put32 1 ++ put32 16 ++ put32 4110 ++ [24] ++
    List.replicate 36 0 ++ [2] ++ List.replicate 136 0 ++ motaAprv ++ put32 0

/-- The container at 0xD2000 carries in its payload, at 0xD3000, a smaller one. -/
def nestedFlash : Mem := fun x =>
  if 0x3004 ≤ x ∧ x < 0x300C then (put32 sdMagicNumber ++ put32 0x26000).getD (x - 0x3004) 0
  else if 0xD2000 ≤ x ∧ x < 0xD30E4 then
    if x < 0xD3000 then outerHeader.getD (x - 0xD2000) 0
    else (sampleContainer sampleBaseHash ++ motaTrailer).getD (x - 0xD3000) 0
  else 0xFF

def nestedDevice : Device where
  mem := nestedFlash
  gpregret := otaApply
  gpregret2 := 0
  retained := []
  statics := internalProfile.boot

def outerContainer : List Byte := slice nestedFlash 0xD2000 4324

theorem outerContainer_wellFormed : WellFormed internalProfile outerContainer where
  magic := by decide +kernel
  total := by decide +kernel
  version := by decide +kernel
  blockSize := by decide +kernel
  payload := by decide +kernel
  blocks := by decide +kernel
  length := by decide +kernel
  trailer := by decide +kernel

theorem outerContainer_staged : Staged nestedFlash stageCeilingLegacy outerContainer := by
  have hlen : outerContainer.length = 4324 := slice_length _ _ _
  have hstart : stageStart stageCeilingLegacy outerContainer.length = 0xD2000 := by
    rw [hlen]
    rfl
  have hceil : stageCeilingLegacy = 0xD4000 := rfl
  refine ⟨by omega, ?_, by rw [hstart, hlen]; rfl, fun x h1 h2 => ?_⟩
  · rw [hstart]
    decide +kernel
  · rw [hstart, hlen] at h1
    unfold nestedFlash
    rw [if_neg (by omega), if_neg (by omega)]

theorem nestedDevice_internal : Internal internalProfile nestedDevice.statics :=
  ⟨rfl, rfl, rfl, rfl⟩

/-- The scan returns the container of the payload, at 0xD3000. -/
theorem scanMota_nested :
    ((scanMota internalProfile stageCeilingLegacy).run (handler {}) nestedDevice).1 ≠
      some (stageStart stageCeilingLegacy outerContainer.length,
        fieldsOf (stageStart stageCeilingLegacy outerContainer.length) outerContainer) := by
  intro h
  have hnested : (((scanMota internalProfile stageCeilingLegacy).run (handler {})
    nestedDevice).1.map Prod.fst) = some 0xD3000 := by decide +kernel
  rw [h, Option.map_some, show outerContainer.length = 4324 from slice_length _ _ _] at hnested
  revert hnested
  decide

/-- A well-formed container, staged as it should be, that the scan passes over. -/
theorem mota_scan_passes_over :
    Internal internalProfile nestedDevice.statics ∧ Ceiling internalProfile stageCeilingLegacy ∧
    WellFormed internalProfile outerContainer ∧
    Staged nestedDevice.mem stageCeilingLegacy outerContainer ∧
    ((scanMota internalProfile stageCeilingLegacy).run (handler {}) nestedDevice).1 ≠
      some (stageStart stageCeilingLegacy outerContainer.length,
        fieldsOf (stageStart stageCeilingLegacy outerContainer.length) outerContainer) :=
  ⟨nestedDevice_internal, .inl rfl, outerContainer_wellFormed, outerContainer_staged,
    scanMota_nested⟩

/-- What the payload holds there is such a container. -/
theorem outerContainer_nests : ∃ c', Nests internalProfile stageCeilingLegacy outerContainer c' := by
  by_contra hno
  exact scanMota_nested ((mota_scan_returns_iff nestedDevice_internal (.inl rfl)
    outerContainer_wellFormed outerContainer_staged {}).mpr hno)

end OtaFix.Mota
