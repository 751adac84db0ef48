import Mathlib.Order.Bounds.Basic
import OtaFix.Mota.Run

/-!
# Hybrid staging

A record that `hybrid_handoff_take` accepts describes one container: a flash prefix of
the least length that leaves at most an arena, ending at the expanded ceiling, and
its rest in the RAM arena. `hybrid_staged_read` reads it as one range of bytes.
-/

namespace OtaFix.Mota

open Lib Prog

variable {env : Env} {s : Device}

/-- The length of the RAM suffix, which is read by the check only. -/
def hybridRamLen (r : List Byte) : Nat := wordAt r 28

/-- The sums of the record, of its check and of the reads below it stay below `2 ^ 32`. -/
structure NoWrap (h : Hybrid) (ramLen : Nat) : Prop where
  flashEnd : h.flashStart + h.flashLen < 2 ^ 32
  total : h.flashLen + ramLen < 2 ^ 32
  containerEnd : h.flashStart + h.containerTotal < 2 ^ 32
  roundUp : hybridArenaSize + codePageSize < h.containerTotal →
    h.containerTotal - hybridArenaSize + codePageSize - 1 < 2 ^ 32

/-- A flash prefix that leaves at most one arena in RAM. -/
def Prefixes (containerTotal : Nat) : Set Nat :=
  {n | 0 < n ∧ codePageSize ∣ n ∧ containerTotal ≤ n + hybridArenaSize}

theorem hybridRequiredFlashLen_isLeast (containerTotal : Nat) :
    IsLeast (Prefixes containerTotal) (hybridRequiredFlashLen containerTotal) := by
  have hp : codePageSize = 0x1000 := rfl
  have ha : hybridArenaSize = 0x10000 := rfl
  unfold hybridRequiredFlashLen
  constructor
  · rw [Prefixes, Set.mem_ofPred_eq, Nat.dvd_iff_mod_eq_zero, hp, ha]
    split_ifs
    · simp only
      omega
    · omega
  · rintro n ⟨hpos, hdvd, hn⟩
    rw [Nat.dvd_iff_mod_eq_zero] at hdvd
    rw [hp] at hdvd ⊢
    rw [ha] at hn ⊢
    split_ifs
    · simp only
      omega
    · omega

/-- What the check vouches for. -/
structure Handoff (h : Hybrid) (ramLen : Nat) : Prop where
  ram_pos : 0 < ramLen
  ram_le : ramLen ≤ hybridArenaSize
  total : h.containerTotal = h.flashLen + ramLen
  least : IsLeast (Prefixes h.containerTotal) h.flashLen
  ceiling : h.flashStart + h.flashLen = stageCeilingExpanded
  noWrap : NoWrap h ramLen

theorem hybridHandoffValid_handoff {resetreas base : Nat} {r : List Byte}
    (h : hybridHandoffValid resetreas base r = true) : Handoff (hybridOf r) (hybridRamLen r) := by
  have hp : codePageSize = 0x1000 := rfl
  have ha : hybridArenaSize = 0x10000 := rfl
  have htotal : (hybridOf r).containerTotal < 2 ^ 32 := get32_lt _ _ _ _
  unfold hybridHandoffValid at h
  simp only [Bool.and_eq_true, decide_eq_true_eq] at h
  obtain ⟨⟨⟨⟨⟨⟨⟨⟨⟨-, hvalid⟩, -⟩, -⟩, -⟩, hwrap⟩, hceil⟩, -⟩, hend⟩, hlen⟩ := h
  unfold motaHybridHandoffValid at hvalid
  simp only [Bool.and_eq_true, decide_eq_true_eq, ne_eq] at hvalid
  obtain ⟨⟨⟨⟨⟨⟨-, hfl⟩, hrl⟩, hram⟩, hsum⟩, heq⟩, -⟩ := hvalid
  have hflash : (hybridOf r).flashLen = wordAt r 24 := rfl
  have hct : (hybridOf r).containerTotal = wordAt r 16 := rfl
  have hrl' : hybridRamLen r = wordAt r 28 := rfl
  refine ⟨by omega, by omega, by omega, ?_, hceil, by omega, by omega, by omega, by omega⟩
  rw [hlen]
  exact hybridRequiredFlashLen_isLeast _

/-- Only a valid record is taken, and it is kept as it was read. -/
theorem hybridHandoffTake_handoff (h : (hybridHandoffTake.run (handler env) s).1 = true) :
    Handoff (hybridHandoffTake.run (handler env) s).2.statics.hybrid (hybridRamLen s.retained) := by
  have hsat : hybridHandoffTake.Sat (handler env) (fun _ _ => True) (fun r s' => r = true →
      hybridHandoffValid env.resetreas (dfuBank0RegionStart s.mem) s.retained = true ∧
        s'.statics.hybrid = hybridOf s.retained) s := by
    refine sat_op.mpr ⟨trivial, sat_op.mpr ⟨trivial, sat_op.mpr ⟨trivial, ?_⟩⟩⟩
    change Sat _ _ _ (if hybridHandoffValid env.resetreas (dfuBank0RegionStart s.mem)
      s.retained = true then _ else _) _
    split_ifs with hv
    · exact ⟨trivial, trivial, fun _ => ⟨hv, rfl⟩⟩
    · exact ⟨trivial, trivial, nofun⟩
  obtain ⟨hv, hkept⟩ := hsat.result h
  rw [hkept]
  exact hybridHandoffValid_handoff hv

/-! ## Reads -/

/-- The container: its flash prefix, then its RAM suffix. -/
def hybridContainer (env : Env) (mem : Mem) (h : Hybrid) (ramLen : Nat) : List Byte :=
  slice mem h.flashStart h.flashLen ++ slice env.arena 0 ramLen

/-- The container as a range of addresses. -/
def containerByte (env : Env) (mem : Mem) (h : Hybrid) (x : Nat) : Byte :=
  if x < h.flashStart + h.flashLen then mem x else env.arena (x - (h.flashStart + h.flashLen))

theorem slice_containerByte_flash {mem : Mem} {h : Hybrid} {a n : Nat}
    (hn : a + n ≤ h.flashStart + h.flashLen) :
    slice (containerByte env mem h) a n = slice mem a n := by
  refine slice_congr fun x _ hx => ?_
  unfold containerByte
  rw [if_pos (by omega)]

theorem slice_containerByte_ram (env : Env) (mem : Mem) (h : Hybrid) (o n : Nat) :
    slice (containerByte env mem h) (h.flashStart + h.flashLen + o) n = slice env.arena o n := by
  refine List.map_congr_left fun i _ => ?_
  unfold containerByte
  rw [if_neg (by omega)]
  congr 1
  omega

theorem hybridContainer_eq (env : Env) (mem : Mem) (h : Hybrid) (ramLen : Nat) :
    hybridContainer env mem h ramLen =
      slice (containerByte env mem h) h.flashStart (h.flashLen + ramLen) := by
  have hram := slice_containerByte_ram env mem h 0 ramLen
  rw [Nat.add_zero] at hram
  rw [slice_add, slice_containerByte_flash (Nat.le_refl _), hram]
  rfl

/-- A part of the container. -/
theorem hybridContainer_part {mem : Mem} {h : Hybrid} {ramLen a n : Nat} (ha : h.flashStart ≤ a)
    (hn : a + n ≤ h.flashStart + (h.flashLen + ramLen)) :
    ((hybridContainer env mem h ramLen).drop (a - h.flashStart)).take n =
      slice (containerByte env mem h) a n := by
  rw [hybridContainer_eq, slice_drop (by omega), slice_take (by omega), Nat.add_sub_cancel' ha]

/-- A read inside the container returns its bytes, on either side of the boundary or across
it; any other read fails. -/
theorem hybridStagedRead_run {h : Hybrid} {ramLen : Nat} (hh : Handoff h ramLen) (a n : Nat) :
    ((hybridStagedRead h a n).run (handler env) s).1 =
      if h.flashStart ≤ a ∧ a + n ≤ h.flashStart + h.containerTotal then
        some (slice (containerByte env s.mem h) a n) else none := by
  have htotal := hh.total
  have hpos := hh.ram_pos
  have hle := hh.ram_le
  have hram : ∀ (s : Device) o k, o + k ≤ hybridArenaSize →
      answer env (.stagedRam o k) s = some (slice env.arena o k) := by
    intro s o k hk
    change (if hybridArenaSize < o ∨ hybridArenaSize - o < k then none else _) = _
    rw [if_neg (by omega)]
  unfold hybridStagedRead
  by_cases h0 : h.containerTotal = 0 ∨ a < h.flashStart
  · rw [if_pos h0, if_neg (by omega)]
    rfl
  rw [if_neg h0]
  simp only
  by_cases hout : h.containerTotal < a - h.flashStart ∨ h.containerTotal - (a - h.flashStart) < n
  · rw [if_pos hout, if_neg (by omega)]
    rfl
  have hrange : h.flashStart ≤ a ∧ a + n ≤ h.flashStart + h.containerTotal := by omega
  rw [if_neg hout, if_pos hrange]
  by_cases hoff : a - h.flashStart < h.flashLen
  · rw [if_pos hoff]
    set chunk := min (h.flashLen - (a - h.flashStart)) n with hc
    change (run _ (if n - chunk = 0 then ret (some (slice s.mem a chunk)) else _) _).1 = _
    by_cases hz : n - chunk = 0
    · -- the flash prefix alone
      rw [if_pos hz, show chunk = n by omega, slice_containerByte_flash (by omega)]
      rfl
    · -- across the boundary
      rw [if_neg hz]
      change Option.map (slice s.mem a chunk ++ ·) (answer env (.stagedRam
        (a - h.flashStart + chunk - h.flashLen) (n - chunk)) (after env (.stagedFlash a chunk) s)) = _
      rw [hram _ _ _ (by omega), show n = chunk + (n - chunk) by omega, slice_add,
        slice_containerByte_flash (by omega), show a + chunk = h.flashStart + h.flashLen +
          (a - h.flashStart + chunk - h.flashLen) by omega, slice_containerByte_ram]
      rw [show chunk + (n - chunk) - chunk = n - chunk by omega]
      rfl
  · rw [if_neg hoff]
    by_cases hz : n = 0
    · rw [if_pos hz, hz]
      rfl
    · -- the RAM suffix alone
      rw [if_neg hz]
      change answer env (.stagedRam (a - h.flashStart - h.flashLen) n) s = _
      rw [hram _ _ _ (by omega), show a = h.flashStart + h.flashLen +
        (a - h.flashStart - h.flashLen) by omega, slice_containerByte_ram]
      congr 2
      omega

/-- An accepted record describes one container, and reads inside it, and no others, return
its bytes. -/
theorem hybrid_staging_contiguous {env : Env} {s t : Device}
    (h : hybridHandoffTake.run (handler env) s = (true, t)) :
    (0 < hybridRamLen s.retained ∧ hybridRamLen s.retained ≤ hybridArenaSize) ∧
    t.statics.hybrid.containerTotal = t.statics.hybrid.flashLen + hybridRamLen s.retained ∧
    IsLeast (Prefixes t.statics.hybrid.containerTotal) t.statics.hybrid.flashLen ∧
    t.statics.hybrid.flashStart + t.statics.hybrid.flashLen = stageCeilingExpanded ∧
    NoWrap t.statics.hybrid (hybridRamLen s.retained) ∧
    ∀ (u : Device) a n, ((hybridStagedRead t.statics.hybrid a n).run (handler env) u).1 =
      if t.statics.hybrid.flashStart ≤ a ∧
          a + n ≤ t.statics.hybrid.flashStart + t.statics.hybrid.containerTotal then
        some (((hybridContainer env u.mem t.statics.hybrid (hybridRamLen s.retained)).drop
          (a - t.statics.hybrid.flashStart)).take n)
      else none := by
  have hh : Handoff t.statics.hybrid (hybridRamLen s.retained) := by
    have htake : (hybridHandoffTake.run (handler env) s).1 = true := by rw [h]
    have hkept := hybridHandoffTake_handoff htake
    rwa [h] at hkept
  refine ⟨⟨hh.ram_pos, hh.ram_le⟩, hh.total, hh.least, hh.ceiling, hh.noWrap, fun u a n => ?_⟩
  rw [hybridStagedRead_run hh]
  by_cases hin : t.statics.hybrid.flashStart ≤ a ∧
      a + n ≤ t.statics.hybrid.flashStart + t.statics.hybrid.containerTotal
  · rw [if_pos hin, if_pos hin, hybridContainer_part hin.1 (by rw [← hh.total]; exact hin.2)]
  · rw [if_neg hin, if_neg hin]

/-- A record for a page of flash and 256 bytes of RAM. -/
def sampleHybrid : List Byte :=
  hybridMagic ++ [1, 0, 72, 0, 1, 2, 0, 0] ++ put32 0x1100 ++ put32 0xEC000 ++ put32 0x1000 ++
    put32 0x100 ++ List.replicate 32 0 ++ put32 594465845 ++ put32 3700501450

/-- Sixteen bytes across the boundary of the sample's container. -/
theorem hybrid_staging_straddles : ∃ t,
    hybridHandoffTake.run (handler {}) (sampleDevice sampleProfile 0 0 sampleHybrid) = (true, t) ∧
    ((hybridStagedRead t.statics.hybrid 0xECFF8 16).run (handler {}) t).1 =
      some (((hybridContainer {} t.mem t.statics.hybrid (hybridRamLen sampleHybrid)).drop
        (0xECFF8 - t.statics.hybrid.flashStart)).take 16) := by
  have htake : (hybridHandoffTake.run (handler {})
      (sampleDevice sampleProfile 0 0 sampleHybrid)).1 = true := by decide +kernel
  have hstart : (hybridHandoffTake.run (handler {})
      (sampleDevice sampleProfile 0 0 sampleHybrid)).2.statics.hybrid.flashStart = 0xEC000 := by
    decide +kernel
  have htotal : (hybridHandoffTake.run (handler {})
      (sampleDevice sampleProfile 0 0 sampleHybrid)).2.statics.hybrid.containerTotal = 0x1100 := by
    decide +kernel
  generalize hrun : hybridHandoffTake.run (handler {})
    (sampleDevice sampleProfile 0 0 sampleHybrid) = p at htake hstart htotal ⊢
  obtain ⟨r, t⟩ := p
  obtain rfl : r = true := htake
  obtain ⟨-, -, -, -, -, hread⟩ := hybrid_staging_contiguous hrun
  have hin : t.statics.hybrid.flashStart ≤ 0xECFF8 ∧
      0xECFF8 + 16 ≤ t.statics.hybrid.flashStart + t.statics.hybrid.containerTotal := by
    simp only at hstart htotal
    omega
  refine ⟨t, rfl, ?_⟩
  rw [hread, if_pos hin]
  rfl

end OtaFix.Mota
