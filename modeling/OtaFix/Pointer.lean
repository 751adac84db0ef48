import OtaFix.Image
import OtaFix.Lib.Loads

/-!
# Reading a buffer

The accessors of the image and packet checks over memory: each loads the bytes of its
field, and returns what the accessor of the same field returns on the list of the
buffer's bytes.
-/

namespace OtaFix

open Lib Prog

/-- `uint16_decode`. -/
def uint16DecodeAt (a : Nat) : Prog LoadRes (BitVec 16) := do
  let lo ← perform a
  let hi ← perform (a + 1)
  pure (hi ++ lo)

/-- `read_le32`. -/
def readLe32At (a : Nat) : Prog LoadRes Nat := do
  let b0 ← perform a
  let b1 ← perform (a + 1)
  let b2 ← perform (a + 2)
  let b3 ← perform (a + 3)
  pure (get32 b0 b1 b2 b3)

variable {f : Mem} {data len : Nat}

/-- The addresses of the buffer. -/
def InBuffer (data len a : Nat) : Prop := data ≤ a ∧ a < data + len

theorem loads_uint16 {o : Nat} (h : o + 2 ≤ len) :
    Loads f (InBuffer data len) (uint16DecodeAt (data + o)) (halfAt (slice f data len) o) := by
  have hlo : (slice f data len).getD o 0 = f (data + o) := slice_getD_add (by omega)
  have hhi : (slice f data len).getD (o + 1) 0 = f (data + o + 1) := slice_getD_add (by omega)
  unfold halfAt uint16DecodeAt
  rw [hlo, hhi]
  apply Loads.load (by unfold InBuffer; omega)
  apply Loads.load (by unfold InBuffer; omega)
  exact .ret _

theorem loads_word {o : Nat} (h : o + 4 ≤ len) :
    Loads f (InBuffer data len) (readLe32At (data + o)) (wordAt (slice f data len) o) := by
  rw [wordAt_slice h]
  unfold readWord readLe32At
  apply Loads.load (by unfold InBuffer; omega)
  apply Loads.load (by unfold InBuffer; omega)
  apply Loads.load (by unfold InBuffer; omega)
  apply Loads.load (by unfold InBuffer; omega)
  exact .ret _

/-- A part of the buffer. -/
theorem loads_part {o n : Nat} (h : o + n ≤ len) :
    Loads f (InBuffer data len) (loadSlice (data + o) n) (((slice f data len).drop o).take n) := by
  rw [slice_drop (by omega), slice_take (by omega)]
  apply loads_slice
  intro x h1 h2
  unfold InBuffer
  omega

theorem InBuffer.part {o n a : Nat} (h : o + n ≤ len) (ha : InBuffer (data + o) n a) :
    InBuffer data len a := by
  unfold InBuffer at ha ⊢
  omega

theorem memcpy_whole {dst src : List Byte} (h : src.length = dst.length) : memcpy dst 0 src = src := by
  unfold memcpy
  rw [List.take_zero, List.nil_append, Nat.zero_add, h, List.drop_length, List.append_nil]

end OtaFix
