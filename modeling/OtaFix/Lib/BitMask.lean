import Mathlib.Data.Nat.Count
import Mathlib.Order.Interval.Finset.Nat

/-!
# Bit masks in byte arrays

Bit `i` of a mask lives in byte `i / 8` under `1 << (i % 8)`. Access outside
the array is `none`. `bit` is the total reading (`false` outside), `popcount`
the number of set bits, and `setBit` sets one.
-/

namespace Lib.BitMask

/-- The bit, or `none` outside the array. -/
def testBit? (mask : List (BitVec 8)) (i : Nat) : Option Bool :=
  mask[i / 8]?.map fun b => b &&& (1#8 <<< (i % 8)) != 0#8

/-- The mask with the bit set, or `none` outside the array. -/
def setBit? (mask : List (BitVec 8)) (i : Nat) : Option (List (BitVec 8)) :=
  if i / 8 < mask.length then some (mask.modify (i / 8) (· ||| (1#8 <<< (i % 8)))) else none

def bit (mask : List (BitVec 8)) (i : Nat) : Bool := (testBit? mask i).getD false

def popcount (mask : List (BitVec 8)) : Nat := Nat.count (fun i => bit mask i = true) (8 * mask.length)

variable {mask mask' : List (BitVec 8)} {i j : Nat}

theorem and_bit (b : BitVec 8) {k : Nat} (hk : k < 8) :
    (b &&& (1#8 <<< k) != 0#8) = b.getLsbD k := by
  rw [← BitVec.twoPow_eq, BitVec.and_twoPow]
  cases hb : b.getLsbD k
  · simp
  · have hne : BitVec.twoPow 8 k ≠ 0#8 := by
      intro h
      have := congrArg (·.getLsbD k) h
      simp [hk] at this
    simp [hne]

theorem bit_eq (mask : List (BitVec 8)) (i : Nat) :
    bit mask i = (mask.getD (i / 8) 0).getLsbD (i % 8) := by
  unfold bit testBit?
  rcases h : mask[i / 8]? with _ | b
  · simp [h]
  · simp only [Option.map_some, Option.getD_some, List.getD_eq_getElem?_getD, h]
    exact and_bit b (Nat.mod_lt _ (by decide))

theorem testBit?_eq (h : i / 8 < mask.length) : testBit? mask i = some (bit mask i) := by
  unfold bit testBit?
  rw [List.getElem?_eq_getElem h]
  rfl

theorem setBit?_eq (h : i / 8 < mask.length) :
    setBit? mask i = some (mask.modify (i / 8) (· ||| (1#8 <<< (i % 8)))) := if_pos h

theorem setBit?_length (h : setBit? mask i = some mask') : mask'.length = mask.length := by
  unfold setBit? at h
  split at h
  · cases h
    simp
  · cases h

theorem bit_setBit? (h : setBit? mask i = some mask') : bit mask' j = (bit mask j || i == j) := by
  unfold setBit? at h
  split at h
  · rename_i hlt
    cases h
    rw [bit_eq, bit_eq, List.getD_eq_getElem?_getD, List.getD_eq_getElem?_getD,
      List.getElem?_modify]
    by_cases hb : i / 8 = j / 8
    · have hj : j / 8 < mask.length := hb ▸ hlt
      have hk : i % 8 < 8 := Nat.mod_lt _ (by decide)
      simp only [hb, if_true, List.getElem?_eq_getElem hj, Option.map_eq_map, Option.map_some,
        Option.getD_some, BitVec.getLsbD_or, ← BitVec.twoPow_eq, BitVec.getLsbD_twoPow, hk,
        decide_true, Bool.true_and]
      congr 1
      rw [Bool.eq_iff_iff, decide_eq_true_eq, beq_iff_eq]
      omega
    · have hne : (i == j) = false := by
        rw [beq_eq_false_iff_ne]
        intro he
        exact hb (by rw [he])
      simp [hb, hne]
  · cases h

/-! ## Counting -/

theorem popcount_setBit? (h : setBit? mask i = some mask') (hb : bit mask i = false) :
    popcount mask' = popcount mask + 1 := by
  have hlen := setBit?_length h
  have hi : i < 8 * mask.length := by
    unfold setBit? at h
    split at h
    · omega
    · cases h
  simp only [popcount, hlen, Nat.count_eq_card_filter_range, bit_setBit? h]
  have hins : (Finset.range (8 * mask.length)).filter (fun k => (bit mask k || i == k) = true) =
      insert i ((Finset.range (8 * mask.length)).filter fun k => bit mask k = true) := by
    ext k
    simp only [Finset.mem_filter, Finset.mem_range, Finset.mem_insert, Bool.or_eq_true, beq_iff_eq]
    constructor
    · rintro ⟨hk, hm | rfl⟩
      · exact .inr ⟨hk, hm⟩
      · exact .inl rfl
    · rintro (rfl | ⟨hk, hm⟩)
      · exact ⟨hi, .inr rfl⟩
      · exact ⟨hk, .inl hm⟩
  rw [hins, Finset.card_insert_of_notMem (by simp [hb])]

/-- A mask with no bit set from `n` on counts at most `n`. -/
theorem popcount_le {n : Nat} (h : ∀ k, bit mask k = true → k < n) : popcount mask ≤ n := by
  rw [popcount, Nat.count_eq_card_filter_range]
  calc _ ≤ (Finset.range n).card := Finset.card_le_card fun k hk => by
        rw [Finset.mem_filter] at hk
        exact Finset.mem_range.mpr (h k hk.2)
    _ = n := Finset.card_range n

/-- A mask that counts `n` bits below `n` has them all. -/
theorem bit_of_popcount {n : Nat} (h : ∀ k, bit mask k = true → k < n) (hn : n ≤ popcount mask)
    {k : Nat} (hk : k < n) : bit mask k = true := by
  rw [popcount, Nat.count_eq_card_filter_range] at hn
  have hsub : (Finset.range (8 * mask.length)).filter (fun k => bit mask k = true) ⊆
      Finset.range n := fun k hk => by
    rw [Finset.mem_filter] at hk
    exact Finset.mem_range.mpr (h k hk.2)
  have heq := Finset.eq_of_subset_of_card_le hsub (by rwa [Finset.card_range])
  have hmem : k ∈ Finset.range n := Finset.mem_range.mpr hk
  rw [← heq, Finset.mem_filter] at hmem
  exact hmem.2

theorem bit_replicate (n i : Nat) : bit (List.replicate n 0#8) i = false := by
  rw [bit_eq, List.getD_eq_getElem?_getD, List.getElem?_replicate]
  split <;> simp

theorem popcount_replicate (n : Nat) : popcount (List.replicate n 0#8) = 0 :=
  Nat.le_zero.mp (popcount_le fun k hk => by rw [bit_replicate] at hk; cases hk)

end Lib.BitMask
