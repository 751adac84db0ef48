import Mathlib.Data.Nat.NthRoot.Defs
import Mathlib.Data.Nat.Prime.Basic

/-!
# FIPS 180-4

SHA-256 of a message of whole bytes, section by section: the functions of 4.1.2,
the constants of 4.2.2 and 5.3.3 as roots of primes, the padding of 5.1.1, and the
hash computation of 6.2.2.
-/

namespace Lib.Fips180

abbrev Word := BitVec 32

def rotr (n : Nat) (x : Word) : Word := (x >>> n) ||| (x <<< (32 - n))

def shr (n : Nat) (x : Word) : Word := x >>> n

/-! ## Functions -/

def ch (x y z : Word) : Word := (x &&& y) ^^^ (~~~x &&& z)

def maj (x y z : Word) : Word := (x &&& y) ^^^ (x &&& z) ^^^ (y &&& z)

def bigSigma0 (x : Word) : Word := rotr 2 x ^^^ rotr 13 x ^^^ rotr 22 x

def bigSigma1 (x : Word) : Word := rotr 6 x ^^^ rotr 11 x ^^^ rotr 25 x

def sigma0 (x : Word) : Word := rotr 7 x ^^^ rotr 18 x ^^^ shr 3 x

def sigma1 (x : Word) : Word := rotr 17 x ^^^ rotr 19 x ^^^ shr 10 x

/-! ## Constants -/

/-- The first 32 bits of the fractional part of the `e`th root of `n`. -/
def rootBits (e n : Nat) : Word := BitVec.ofNat 32 (Nat.nthRoot e (n * 2 ^ (32 * e)))

/-- The primes below `n`. -/
def primesBelow (n : Nat) : List Nat := (List.range n).filter Nat.Prime

/-- The cube roots of the first sixty-four primes. -/
def k (t : Nat) : Word := rootBits 3 ((primesBelow 312).getD t 0)

def firstPrimes : List Nat :=
  [2, 3, 5, 7, 11, 13, 17, 19, 23, 29, 31, 37, 41, 43, 47, 53, 59, 61, 67, 71, 73, 79, 83, 89, 97,
    101, 103, 107, 109, 113, 127, 131, 137, 139, 149, 151, 157, 163, 167, 173, 179, 181, 191, 193,
    197, 199, 211, 223, 227, 229, 233, 239, 241, 251, 257, 263, 269, 271, 277, 281, 283, 293, 307,
    311]

/-- Below 18 * 18 a number with no divisor below 18 is prime. -/
theorem prime_iff_of_lt {n : Nat} (h : n < 324) :
    n.Prime ↔ 2 ≤ n ∧ ∀ d ∈ [2, 3, 5, 7, 11, 13, 17], d < n → n % d ≠ 0 := by
  constructor
  · intro hprime
    refine ⟨hprime.two_le, fun d hd hlt hmod => ?_⟩
    have hpos : 2 ≤ d := (show ∀ d ∈ [2, 3, 5, 7, 11, 13, 17], 2 ≤ d by decide) d hd
    rcases (Nat.dvd_prime hprime).1 (Nat.dvd_of_mod_eq_zero hmod) with hone | hself
    · omega
    · omega
  · rintro ⟨htwo, hnone⟩
    by_contra hcomposite
    have hsq : n.minFac ^ 2 ≤ n := Nat.minFac_sq_le_self (by omega) hcomposite
    have hfac : n.minFac.Prime := Nat.minFac_prime (by omega)
    have hlow : n.minFac < 18 := by
      by_contra hhigh
      have := Nat.pow_le_pow_left (Nat.le_of_not_lt hhigh) 2
      omega
    have hmem : ∀ p < 18, p.Prime → p ∈ [2, 3, 5, 7, 11, 13, 17] := by decide
    have hlt : n.minFac < n := by
      have hmul := Nat.mul_le_mul_right n.minFac hfac.two_le
      have := hfac.two_le
      rw [Nat.pow_two] at hsq
      omega
    exact hnone _ (hmem _ hlow hfac) hlt (Nat.mod_eq_zero_of_dvd n.minFac_dvd)

theorem primesBelow_312 : primesBelow 312 = firstPrimes := by
  have hsieve : primesBelow 312 = (List.range 312).filter fun n =>
      2 ≤ n ∧ ∀ d ∈ [2, 3, 5, 7, 11, 13, 17], d < n → n % d ≠ 0 := by
    unfold primesBelow
    apply List.filter_congr
    intro n hn
    rw [List.mem_range] at hn
    rw [decide_eq_decide]
    exact prime_iff_of_lt (by omega)
  rw [hsieve]
  decide +kernel

/-! ## Hash values -/

/-- The eight words of a hash value, and the eight working variables. -/
structure Vars where
  a : Word
  b : Word
  c : Word
  d : Word
  e : Word
  f : Word
  g : Word
  h : Word

/-- The square roots of the first eight primes. -/
def initial : Vars where
  a := rootBits 2 2
  b := rootBits 2 3
  c := rootBits 2 5
  d := rootBits 2 7
  e := rootBits 2 11
  f := rootBits 2 13
  g := rootBits 2 17
  h := rootBits 2 19

/-! ## Padding -/

/-- The number of zero bytes: with them the message and its first padding byte end eight bytes
before the end of a block. -/
def zeros (n : Nat) : Nat := (119 - n % 64) % 64

/-- The 64-bit length, most significant byte first. -/
def lengthBytes (bits : Nat) : List (BitVec 8) :=
  (List.range 8).map fun i => BitVec.ofNat 8 (bits / 2 ^ (8 * (7 - i)))

def pad (msg : List (BitVec 8)) : List (BitVec 8) :=
  msg ++ 0x80 :: List.replicate (zeros msg.length) 0 ++ lengthBytes (8 * msg.length)

/-- The number of zeros is the least that fills a block up to the length. -/
theorem zeros_least (n : Nat) : (n + 1 + zeros n) % 64 = 56 ∧
    ∀ z, (n + 1 + z) % 64 = 56 → zeros n ≤ z := by
  unfold zeros
  refine ⟨by omega, fun z hz => ?_⟩
  omega

/-! ## Hash computation -/

/-- Word `t` of a block. -/
def blockWord (block : List (BitVec 8)) (t : Nat) : Word :=
  block.getD (4 * t) 0 ++ block.getD (4 * t + 1) 0 ++ block.getD (4 * t + 2) 0 ++
    block.getD (4 * t + 3) 0

/-- The message schedule. -/
def schedule (m : Nat → Word) (t : Nat) : Word :=
  if t < 16 then m t
  else sigma1 (schedule m (t - 2)) + schedule m (t - 7) + sigma0 (schedule m (t - 15)) +
    schedule m (t - 16)
termination_by t

def step (v : Vars) (kt wt : Word) : Vars :=
  let t1 := v.h + bigSigma1 v.e + ch v.e v.f v.g + kt + wt
  let t2 := bigSigma0 v.a + maj v.a v.b v.c
  { h := v.g, g := v.f, f := v.e, e := v.d + t1, d := v.c, c := v.b, b := v.a, a := t1 + t2 }

def Vars.add (x y : Vars) : Vars :=
  ⟨x.a + y.a, x.b + y.b, x.c + y.c, x.d + y.d, x.e + y.e, x.f + y.f, x.g + y.g, x.h + y.h⟩

def compress (hash : Vars) (block : List (BitVec 8)) : Vars :=
  hash.add ((List.range 64).foldl (fun v t => step v (k t) (schedule (blockWord block) t)) hash)

/-- Block `i` of a padded message. -/
def block (msg : List (BitVec 8)) (i : Nat) : List (BitVec 8) := (msg.drop (64 * i)).take 64

def wordBytes (w : Word) : List (BitVec 8) :=
  [w.extractLsb' 24 8, w.extractLsb' 16 8, w.extractLsb' 8 8, w.extractLsb' 0 8]

/-- SHA-256. -/
def sha256 (msg : List (BitVec 8)) : List (BitVec 8) :=
  let blocks := pad msg
  let v := (List.range (blocks.length / 64)).foldl (fun v i => compress v (block blocks i)) initial
  [v.a, v.b, v.c, v.d, v.e, v.f, v.g, v.h].flatMap wordBytes

end Lib.Fips180
