import Mathlib.Logic.Function.Iterate
import OtaFix.Sha256Std

/-!
# SHA-256 for kernel evaluation

The rounds of `transform` over natural numbers, written for the kernel: its operations are
the built-in ones of `Nat`, a rotation reads the word doubled, and `forced` computes a value
before it is used. A long run of equal blocks is then a matter of seconds.
-/

namespace OtaFix

namespace Sha256

/-! ## Words -/

/-- Compute `n`, then go on with it. -/
def forced {α : Type} (n : Nat) (f : Nat → α) : α :=
  match n with
  | 0 => f 0
  | n + 1 => f (Nat.succ n)

@[simp] theorem forced_eq {α : Type} (n : Nat) (f : Nat → α) : forced n f = f n := by
  cases n <;> rfl

/-- `2 ^ 32`, and the factor that writes a word twice. -/
def wordSize : Nat := 4294967296

def twice : Nat := 4294967297

/-- The exclusive or of three rotations of a word, `y` being the word twice. -/
def rotations (y i j k : Nat) : Nat :=
  Nat.mod (Nat.xor (Nat.xor (Nat.shiftRight y i) (Nat.shiftRight y j)) (Nat.shiftRight y k)) wordSize

theorem shiftRight_twice (x : Word32) {i : Nat} (h : i < 32) :
    Nat.shiftRight (x.toNat * twice) i % wordSize = (x.rotateRight i).toNat := by
  have hx := x.isLt
  have htwice : x.toNat * twice = x.toNat <<< 32 ||| x.toNat := by
    rw [← Nat.shiftLeft_add_eq_or_of_lt hx, Nat.shiftLeft_eq, twice]
    omega
  have hsize : wordSize = 2 ^ 32 := rfl
  refine Nat.eq_of_testBit_eq fun j => ?_
  rw [BitVec.toNat_rotateRight, Nat.mod_eq_of_lt h, htwice, hsize]
  change (((x.toNat <<< 32 ||| x.toNat) >>> i) % 2 ^ 32).testBit j = _
  simp only [Nat.testBit_mod_two_pow, Nat.testBit_shiftRight, Nat.testBit_or, Nat.testBit_shiftLeft]
  by_cases hj : j < 32
  · by_cases hij : 32 ≤ i + j
    · have hz : x.toNat.testBit (i + j) = false :=
        Nat.testBit_lt_two_pow (Nat.lt_of_lt_of_le hx (Nat.pow_le_pow_right (by omega) hij))
      simp [hj, hij, hz, show 32 - i ≤ j by omega, show i + j - 32 = j - (32 - i) by omega]
    · simp [hj, hij, show ¬ 32 - i ≤ j by omega]
  · have hz : x.toNat.testBit (i + j) = false :=
      Nat.testBit_lt_two_pow (Nat.lt_of_lt_of_le hx (Nat.pow_le_pow_right (by omega) (by omega)))
    simp [hj, hz]

theorem rotations_eq (x : Word32) {i j k : Nat} (hi : i < 32) (hj : j < 32) (hk : k < 32) :
    rotations (Nat.mul x.toNat twice) i j k =
      (x.rotateRight i ^^^ x.rotateRight j ^^^ x.rotateRight k).toNat := by
  rw [BitVec.toNat_xor, BitVec.toNat_xor, ← shiftRight_twice x hi, ← shiftRight_twice x hj,
    ← shiftRight_twice x hk]
  exact (Nat.xor_mod_two_pow (n := 32)).trans (congrArg (· ^^^ _) (Nat.xor_mod_two_pow (n := 32)))

/-- `ch`, with two operations less. -/
def chN (x y z : Nat) : Nat := Nat.xor z (Nat.land x (Nat.xor y z))

theorem chN_eq (x y z : Word32) : chN x.toNat y.toNat z.toNat = (ch x y z).toNat := by
  have h : ch x y z = z ^^^ (x &&& (y ^^^ z)) := by
    unfold ch
    ext i hi
    simp
    cases x[i] <;> cases y[i] <;> cases z[i] <;> rfl
  rw [h, BitVec.toNat_xor, BitVec.toNat_and, BitVec.toNat_xor]
  rfl

def majN (x y z : Nat) : Nat := Nat.lor (Nat.land x y) (Nat.land z (Nat.lor x y))

theorem majN_eq (x y z : Word32) : majN x.toNat y.toNat z.toNat = (maj x y z).toNat := by
  have h : maj x y z = (x &&& y) ||| (z &&& (x ||| y)) := by
    unfold maj
    ext i hi
    simp
    cases x[i] <;> cases y[i] <;> cases z[i] <;> rfl
  rw [h, BitVec.toNat_or, BitVec.toNat_and, BitVec.toNat_and, BitVec.toNat_or]
  rfl

/-! ## Rounds -/

/-- The rounds with the words `kws`, constant and schedule added, then `k` of the variables. -/
def roundsN {α : Type} (k : Nat → Nat → Nat → Nat → Nat → Nat → Nat → Nat → α) :
    List Nat → Nat → Nat → Nat → Nat → Nat → Nat → Nat → Nat → α
  | [], a, b, c, d, e, f, g, h => k a b c d e f g h
  | kw :: kws, a, b, c, d, e, f, g, h =>
    forced (Nat.add (Nat.add (Nat.add h (rotations (Nat.mul e twice) 6 11 25)) (chN e f g)) kw)
      fun t1 => forced (Nat.mod (Nat.add t1
        (Nat.add (rotations (Nat.mul a twice) 2 13 22) (majN a b c))) wordSize)
      fun a' => forced (Nat.mod (Nat.add d t1) wordSize) fun e' => roundsN k kws a' a b c e' e f g

/-- The words of `roundsN` for a block. -/
def scheduleN (block : List Byte) : List Nat :=
  (k.zip (extend 48 (words block))).map fun km => (km.1 + km.2).toNat

theorem roundsN_eq {α : Type} (k : Nat → Nat → Nat → Nat → Nat → Nat → Nat → Nat → α)
    (kms : List (Word32 × Word32)) (s : Hash) :
    roundsN k (kms.map fun km => (km.1 + km.2).toNat) s.a.toNat s.b.toNat s.c.toNat s.d.toNat
      s.e.toNat s.f.toNat s.g.toNat s.h.toNat =
    (fun r : Hash => k r.a.toNat r.b.toNat r.c.toNat r.d.toNat r.e.toNat r.f.toNat r.g.toNat
      r.h.toNat) (kms.foldl round s) := by
  induction kms generalizing s with
  | nil => rfl
  | cons km kms ih =>
    rw [List.foldl_cons, ← ih]
    have h1 : (s.h.toNat + (ep1 s.e).toNat + (ch s.e s.f s.g).toNat + (km.1 + km.2).toNat +
        ((ep0 s.a).toNat + (maj s.a s.b s.c).toNat)) % wordSize = (round s km).a.toNat := by
      simp only [round, BitVec.toNat_add, wordSize]
      omega
    have h2 : (s.d.toNat + (s.h.toNat + (ep1 s.e).toNat + (ch s.e s.f s.g).toNat +
        (km.1 + km.2).toNat)) % wordSize = (round s km).e.toNat := by
      simp only [round, BitVec.toNat_add, wordSize]
      omega
    simp only [List.map_cons, roundsN, forced_eq, chN_eq, majN_eq,
      rotations_eq _ (show 6 < 32 by omega) (show 11 < 32 by omega) (show 25 < 32 by omega),
      rotations_eq _ (show 2 < 32 by omega) (show 13 < 32 by omega) (show 22 < 32 by omega)]
    rw [← h1, ← h2]
    rfl

/-! ## Blocks -/

/-- `n` blocks with the words `kws`. -/
def blocksN (kws : List Nat) : Nat → Nat → Nat → Nat → Nat → Nat → Nat → Nat → Nat → Hash
  | 0, a, b, c, d, e, f, g, h =>
    ⟨BitVec.ofNat 32 a, BitVec.ofNat 32 b, BitVec.ofNat 32 c, BitVec.ofNat 32 d, BitVec.ofNat 32 e,
      BitVec.ofNat 32 f, BitVec.ofNat 32 g, BitVec.ofNat 32 h⟩
  | n + 1, a, b, c, d, e, f, g, h =>
    roundsN (fun a' b' c' d' e' f' g' h' =>
      forced (Nat.mod (Nat.add a a') wordSize) fun a => forced (Nat.mod (Nat.add b b') wordSize)
      fun b => forced (Nat.mod (Nat.add c c') wordSize) fun c =>
      forced (Nat.mod (Nat.add d d') wordSize) fun d => forced (Nat.mod (Nat.add e e') wordSize)
      fun e => forced (Nat.mod (Nat.add f f') wordSize) fun f =>
      forced (Nat.mod (Nat.add g g') wordSize) fun g => forced (Nat.mod (Nat.add h h') wordSize)
      fun h => blocksN kws n a b c d e f g h) kws a b c d e f g h

def Hash.blocks (s : Hash) (kws : List Nat) (n : Nat) : Hash :=
  blocksN kws n s.a.toNat s.b.toNat s.c.toNat s.d.toNat s.e.toNat s.f.toNat s.g.toNat s.h.toNat

theorem blocks_eq (block : List Byte) (n : Nat) (s : Hash) :
    s.blocks (scheduleN block) n = (fun s => transform s block)^[n] s := by
  induction n generalizing s with
  | zero => simp [Hash.blocks, blocksN]
  | succ n ih =>
    have hadd : ∀ x y : Word32, Nat.mod (Nat.add x.toNat y.toNat) wordSize = (x + y).toNat :=
      fun x y => (BitVec.toNat_add x y).symm
    rw [Function.iterate_succ_apply, ← ih, Hash.blocks, blocksN, scheduleN, roundsN_eq]
    simp only [forced_eq, hadd]
    rfl

/-- Equal blocks one after the other. -/
theorem compress_replicate (s : Hash) {block : List Byte} (h : block.length = 64) (n : Nat) :
    compress s (List.replicate n block).flatten = s.blocks (scheduleN block) n := by
  rw [blocks_eq]
  induction n generalizing s with
  | zero => exact compress_short s (Nat.zero_lt_succ 63)
  | succ n ih =>
    rw [List.replicate_succ, List.flatten_cons, compress_append (k := 1) s (by rw [h]),
      compress_block s h, ih, Function.iterate_succ_apply]

/-- A run of one byte. -/
theorem compress_fill (s : Hash) (b : Byte) (n : Nat) : compress s (List.replicate (n * 64) b) =
    s.blocks (scheduleN (List.replicate 64 b)) n := by
  rw [← List.flatten_replicate_replicate]
  exact compress_replicate s List.length_replicate n

/-- The last block of a message of `n` bytes, with the fewer than 56 behind its whole blocks. -/
def lastBlock (tail : List Byte) (n : Nat) : List Byte :=
  tail ++ 0x80 :: List.replicate (55 - tail.length) 0 ++ putBitlen (n * 8 % 2 ^ 64)

theorem sha256_tail {m tail : List Byte} {k : Nat} (hm : m.length = 64 * k)
    (ht : tail.length < 56) : sha256 (m ++ tail) =
      digest (transform (compress init.state m) (lastBlock tail (m.length + tail.length))) := by
  have hpad : padded (m ++ tail) = m ++ lastBlock tail (m.length + tail.length) := by
    unfold padded lastBlock
    rw [List.length_append,
      show (119 - (m.length + tail.length) % 64) % 64 = 55 - tail.length by omega]
    simp only [List.append_assoc]
  have hlen : (lastBlock tail (m.length + tail.length)).length = 64 := by
    simp only [lastBlock, List.length_append, List.length_cons, List.length_replicate,
      putBitlen_length]
    omega
  rw [sha256_eq_standard, standard, hpad, compress_append _ hm, compress_block _ hlen]

end Sha256

end OtaFix
