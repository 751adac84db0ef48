import Mathlib.Algebra.Group.Nat.Defs
import Mathlib.Data.List.Basic

/-!
# Bytes and 32-bit words

`uint32_t` values are natural numbers below `2 ^ 32`; `add32` and `sub32` are
the C operators on them, which wrap. `get32` and `put32` are the little-endian
accessors the wire formats and the flash records share, and `memcpy` is the
copy into a byte array at an offset.
-/

namespace OtaFix

abbrev Byte := BitVec 8

def add32 (a b : Nat) : Nat := (a + b) % 2 ^ 32

def sub32 (a b : Nat) : Nat := (a + 2 ^ 32 - b) % 2 ^ 32

theorem add32_eq {a b : Nat} (h : a + b < 2 ^ 32) : add32 a b = a + b := Nat.mod_eq_of_lt h

theorem sub32_eq {a b : Nat} (ha : a < 2 ^ 32) (h : b ≤ a) : sub32 a b = a - b := by
  unfold sub32
  rw [show a + 2 ^ 32 - b = (a - b) + 2 ^ 32 by omega, Nat.add_mod_right]
  exact Nat.mod_eq_of_lt (by omega)

/-- The 32-bit little-endian word held by four bytes. -/
def get32 (b0 b1 b2 b3 : Byte) : Nat :=
  b0.toNat + b1.toNat * 2 ^ 8 + b2.toNat * 2 ^ 16 + b3.toNat * 2 ^ 24

/-- The four little-endian bytes of a word. -/
def put32 (n : Nat) : List Byte :=
  [BitVec.ofNat 8 n, BitVec.ofNat 8 (n / 2 ^ 8), BitVec.ofNat 8 (n / 2 ^ 16),
    BitVec.ofNat 8 (n / 2 ^ 24)]

theorem get32_put32 {n : Nat} (h : n < 2 ^ 32) :
    get32 (BitVec.ofNat 8 n) (BitVec.ofNat 8 (n / 2 ^ 8)) (BitVec.ofNat 8 (n / 2 ^ 16))
      (BitVec.ofNat 8 (n / 2 ^ 24)) = n := by
  simp only [get32, BitVec.toNat_ofNat]
  omega

theorem put32_get32 (b0 b1 b2 b3 : Byte) : put32 (get32 b0 b1 b2 b3) = [b0, b1, b2, b3] := by
  have h0 := b0.isLt
  have h1 := b1.isLt
  have h2 := b2.isLt
  have h3 := b3.isLt
  simp only [put32, List.cons.injEq, and_true]
  refine ⟨?_, ?_, ?_, ?_⟩
  all_goals
    apply BitVec.eq_of_toNat_eq
    rw [BitVec.toNat_ofNat, get32]
    omega

/-- Copy `src` over `dst` from index `off` on. -/
def memcpy (dst : List Byte) (off : Nat) (src : List Byte) : List Byte :=
  dst.take off ++ src ++ dst.drop (off + src.length)

theorem memcpy_length {dst src : List Byte} {off : Nat} (h : off + src.length ≤ dst.length) :
    (memcpy dst off src).length = dst.length := by
  simp only [memcpy, List.length_append, List.length_take, List.length_drop]
  omega

/-- The bytes below the end of the copied range: the old ones, then the new ones. -/
theorem memcpy_take {dst src : List Byte} {off : Nat} (h : off ≤ dst.length) :
    (memcpy dst off src).take (off + src.length) = dst.take off ++ src := by
  unfold memcpy
  rw [List.take_append_of_le_length]
  · apply List.take_of_length_le
    rw [List.length_append, List.length_take]
    omega
  · simp [h]

end OtaFix
