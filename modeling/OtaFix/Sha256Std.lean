import Mathlib.Data.List.Induction
import OtaFix.Sha256

/-!
# SHA-256 by blocks

The hash as the standard gives it: the message is padded to whole blocks with
`0x80`, zeros and its bit length, and the blocks are compressed in order. The
streaming context of `sha256.c` keeps the hash of the blocks done and the bytes
of the open one (`update_eq`), so that its digest is this hash
(`sha256_eq_standard`).
-/

namespace OtaFix

namespace Sha256

/-- Block `i` of a message. -/
def block (msg : List Byte) (i : Nat) : List Byte := (msg.drop (64 * i)).take 64

/-- Compress the whole blocks of a message. -/
def compress (s : Hash) (msg : List Byte) : Hash :=
  (List.range (msg.length / 64)).foldl (fun s i => transform s (block msg i)) s

/-- The message, `0x80`, the zeros up to the last eight bytes of a block, the bit length. -/
def padded (msg : List Byte) : List Byte :=
  msg ++ 0x80 :: List.replicate ((119 - msg.length % 64) % 64) 0 ++ putBitlen (msg.length * 8 % 2 ^ 64)

/-- SHA-256 of a message. -/
def standard (msg : List Byte) : List Byte := digest (compress init.state (padded msg))

theorem putBitlen_length (n : Nat) : (putBitlen n).length = 8 := by simp [putBitlen]

/-- Bytes behind a block do not change it. -/
theorem block_append {m d : List Byte} {i : Nat} (h : 64 * i + 64 ≤ m.length) :
    block (m ++ d) i = block m i := by
  unfold block
  rw [List.drop_append_of_le_length (by omega),
    List.take_append_of_le_length (by rw [List.length_drop]; omega)]

/-- Blocks behind whole blocks. -/
theorem block_append_right {m d : List Byte} {k i : Nat} (h : m.length = 64 * k) :
    block (m ++ d) (k + i) = block d i := by
  unfold block
  rw [show 64 * (k + i) = m.length + 64 * i by omega, List.drop_length_add_append]

theorem compress_append {m d : List Byte} {k : Nat} (s : Hash) (h : m.length = 64 * k) :
    compress s (m ++ d) = compress (compress s m) d := by
  unfold compress
  rw [List.length_append, h, Nat.mul_add_div (by decide), Nat.mul_div_cancel_left k (by decide),
    List.range_add, List.foldl_append, List.foldl_map]
  have hm : (List.range k).foldl (fun s i => transform s (block (m ++ d) i)) s =
      (List.range k).foldl (fun s i => transform s (block m i)) s := by
    refine List.foldl_ext _ _ s fun s i hi => ?_
    rw [block_append]
    rw [List.mem_range] at hi
    omega
  rw [hm]
  refine List.foldl_ext _ _ _ fun s i _ => ?_
  rw [block_append_right h]

theorem compress_short {d : List Byte} (s : Hash) (h : d.length < 64) : compress s d = s := by
  unfold compress
  rw [Nat.div_eq_of_lt h]
  rfl

theorem compress_block {d : List Byte} (s : Hash) (h : d.length = 64) :
    compress s d = transform s d := by
  have hb : block d 0 = d := by
    unfold block
    rw [Nat.mul_zero, List.drop_zero, List.take_of_length_le (by omega)]
  unfold compress
  rw [h]
  exact congrArg (transform s) hb

/-- The whole blocks of a message, and the open one behind them. -/
theorem take_blocks_length (msg : List Byte) :
    (msg.take (64 * (msg.length / 64))).length = 64 * (msg.length / 64) := by
  rw [List.length_take]
  omega

theorem compress_blocks (s : Hash) (msg : List Byte) :
    compress s (msg.take (64 * (msg.length / 64))) = compress s msg := by
  have h := compress_append (d := msg.drop (64 * (msg.length / 64))) s (take_blocks_length msg)
  rw [List.take_append_drop] at h
  rw [h]
  refine (compress_short _ ?_).symm
  rw [List.length_drop]
  omega

/-- The streaming context: the hash of the blocks done, and the bytes of the open one. -/
theorem update_eq (msg : List Byte) : update init msg =
    ⟨compress init.state msg, msg.drop (64 * (msg.length / 64)),
      512 * (msg.length / 64) % 2 ^ 64⟩ := by
  induction msg using List.reverseRecOn with
  | nil => rfl
  | append_singleton m b ih =>
    set q := m.length / 64 with hq
    have hdrop : (m ++ [b]).drop (64 * q) = m.drop (64 * q) ++ [b] :=
      List.drop_append_of_le_length (by omega)
    have hcomp : compress init.state (m ++ [b]) =
        compress (compress init.state m) (m.drop (64 * q) ++ [b]) := by
      rw [← compress_blocks init.state m, ← compress_append _ (take_blocks_length m), ← hq,
        ← List.append_assoc, List.take_append_drop]
    have hlen : (m.drop (64 * q) ++ [b]).length = m.length - 64 * q + 1 := by simp
    have hsucc : (m ++ [b]).length = m.length + 1 := by simp
    rw [update_append, ih]
    change feed _ b = _
    unfold feed
    simp only
    rw [hcomp, hsucc]
    generalize compress init.state m = st
    by_cases hfull : (m.drop (64 * q) ++ [b]).length = 64
    · have hdata : (m ++ [b]).drop (64 * (q + 1)) = [] := List.drop_eq_nil_of_le (by omega)
      have hbits : (512 * q % 2 ^ 64 + 512) % 2 ^ 64 = 512 * (q + 1) % 2 ^ 64 := by omega
      rw [if_pos hfull, compress_block _ hfull, show (m.length + 1) / 64 = q + 1 by omega, hdata,
        hbits]
    · rw [if_neg hfull, compress_short st (by omega), show (m.length + 1) / 64 = q by omega, hdrop]

/-- The digest of the streaming context is the hash of the standard. -/
theorem sha256_eq_standard (msg : List Byte) : sha256 msg = standard msg := by
  unfold sha256 standard
  rw [update_eq]
  set q := msg.length / 64 with hq
  set tail := msg.drop (64 * q) with htail
  have hlen : tail.length = msg.length - 64 * q := by rw [htail, List.length_drop]
  have hbits : (512 * q % 2 ^ 64 + tail.length * 8) % 2 ^ 64 = msg.length * 8 % 2 ^ 64 := by omega
  have hpad : padded msg = msg.take (64 * q) ++
      (tail ++ 0x80 :: List.replicate ((119 - msg.length % 64) % 64) 0 ++
        putBitlen (msg.length * 8 % 2 ^ 64)) := by
    unfold padded
    rw [← List.append_assoc, ← List.append_assoc, List.take_append_drop]
  rw [hpad, compress_append _ (take_blocks_length msg), compress_blocks]
  generalize compress init.state msg = st
  unfold final
  simp only
  rw [hbits]
  have hmod : msg.length % 64 = tail.length := by omega
  by_cases h56 : 56 < (tail ++ [0x80]).length
  · -- the bit length goes into a block of its own
    rw [if_pos h56]
    rw [List.length_append, List.length_singleton] at h56 ⊢
    have hzeros : List.replicate ((119 - msg.length % 64) % 64) (0 : Byte) =
        List.replicate (64 - (tail.length + 1)) 0 ++ List.replicate 56 0 := by
      rw [List.replicate_append_replicate]
      congr 1
      omega
    have hsplit : tail ++ 0x80 :: List.replicate ((119 - msg.length % 64) % 64) 0 ++
        putBitlen (msg.length * 8 % 2 ^ 64) =
        (tail ++ [0x80] ++ List.replicate (64 - (tail.length + 1)) 0) ++
          (List.replicate 56 0 ++ putBitlen (msg.length * 8 % 2 ^ 64)) := by
      rw [hzeros]
      simp
    have hfirst : (tail ++ [0x80] ++ List.replicate (64 - (tail.length + 1)) (0 : Byte)).length =
        64 := by
      simp
      omega
    rw [hsplit, compress_append (k := 1) _ hfirst, compress_block _ hfirst, compress_block]
    · simp only [List.nil_append, List.length_nil, Nat.sub_zero]
    · simp [putBitlen_length]
  · rw [if_neg h56]
    rw [List.length_append, List.length_singleton] at h56
    have hzeros : (119 - msg.length % 64) % 64 = 56 - (tail ++ [0x80]).length := by
      rw [List.length_append, List.length_singleton]
      omega
    rw [hzeros, compress_block]
    · simp
    · simp [putBitlen_length]
      omega

end Sha256

end OtaFix
