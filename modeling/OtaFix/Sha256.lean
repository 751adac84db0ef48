import OtaFix.Word

/-!
# SHA-256

`sha256.c`, one byte at a time: the context holds the chaining value, the bytes
of the block under way and the bit count of the blocks done. Feeding a stream
in pieces is feeding it whole (`sha256Update_append`).
-/

namespace OtaFix

abbrev Word32 := BitVec 32

namespace Sha256

def ch (x y z : Word32) : Word32 := (x &&& y) ^^^ (~~~x &&& z)

def maj (x y z : Word32) : Word32 := (x &&& y) ^^^ (x &&& z) ^^^ (y &&& z)

def ep0 (x : Word32) : Word32 := x.rotateRight 2 ^^^ x.rotateRight 13 ^^^ x.rotateRight 22

def ep1 (x : Word32) : Word32 := x.rotateRight 6 ^^^ x.rotateRight 11 ^^^ x.rotateRight 25

def sig0 (x : Word32) : Word32 := x.rotateRight 7 ^^^ x.rotateRight 18 ^^^ (x >>> 3)

def sig1 (x : Word32) : Word32 := x.rotateRight 17 ^^^ x.rotateRight 19 ^^^ (x >>> 10)

/-- The round constants. -/
def k : List Word32 :=
  [0x428a2f98, 0x71374491, 0xb5c0fbcf, 0xe9b5dba5, 0x3956c25b, 0x59f111f1, 0x923f82a4, 0xab1c5ed5,
    0xd807aa98, 0x12835b01, 0x243185be, 0x550c7dc3, 0x72be5d74, 0x80deb1fe, 0x9bdc06a7, 0xc19bf174,
    0xe49b69c1, 0xefbe4786, 0x0fc19dc6, 0x240ca1cc, 0x2de92c6f, 0x4a7484aa, 0x5cb0a9dc, 0x76f988da,
    0x983e5152, 0xa831c66d, 0xb00327c8, 0xbf597fc7, 0xc6e00bf3, 0xd5a79147, 0x06ca6351, 0x14292967,
    0x27b70a85, 0x2e1b2138, 0x4d2c6dfc, 0x53380d13, 0x650a7354, 0x766a0abb, 0x81c2c92e, 0x92722c85,
    0xa2bfe8a1, 0xa81a664b, 0xc24b8b70, 0xc76c51a3, 0xd192e819, 0xd6990624, 0xf40e3585, 0x106aa070,
    0x19a4c116, 0x1e376c08, 0x2748774c, 0x34b0bcb5, 0x391c0cb3, 0x4ed8aa4a, 0x5b9cca4f, 0x682e6ff3,
    0x748f82ee, 0x78a5636f, 0x84c87814, 0x8cc70208, 0x90befffa, 0xa4506ceb, 0xbef9a3f7, 0xc67178f2]

/-- The chaining value. -/
structure Hash where
  a : Word32
  b : Word32
  c : Word32
  d : Word32
  e : Word32
  f : Word32
  g : Word32
  h : Word32
  deriving DecidableEq, Repr

/-- The big-endian words of a block. -/
def words : List Byte → List Word32
  | b0 :: b1 :: b2 :: b3 :: d => (b0 ++ b1 ++ b2 ++ b3 : BitVec 32) :: words d
  | _ => []

/-- `n` more words of the message schedule. -/
def extend : Nat → List Word32 → List Word32
  | 0, m => m
  | n + 1, m =>
    let i := m.length
    extend n (m ++ [sig1 (m.getD (i - 2) 0) + m.getD (i - 7) 0 + sig0 (m.getD (i - 15) 0) +
      m.getD (i - 16) 0])

def round (s : Hash) (km : Word32 × Word32) : Hash :=
  let t1 := s.h + ep1 s.e + ch s.e s.f s.g + km.1 + km.2
  let t2 := ep0 s.a + maj s.a s.b s.c
  ⟨t1 + t2, s.a, s.b, s.c, s.d + t1, s.e, s.f, s.g⟩

def transform (s : Hash) (block : List Byte) : Hash :=
  let r := (k.zip (extend 48 (words block))).foldl round s
  ⟨s.a + r.a, s.b + r.b, s.c + r.c, s.d + r.d, s.e + r.e, s.f + r.f, s.g + r.g, s.h + r.h⟩

/-- `sha256_ctx_t`: the chaining value, the bytes of the open block, the bits done. -/
structure Ctx where
  state : Hash
  data : List Byte := []
  bitlen : Nat := 0
  deriving DecidableEq, Repr

def init : Ctx where
  state := ⟨0x6a09e667, 0xbb67ae85, 0x3c6ef372, 0xa54ff53a, 0x510e527f, 0x9b05688c, 0x1f83d9ab,
    0x5be0cd19⟩

def feed (c : Ctx) (b : Byte) : Ctx :=
  let data := c.data ++ [b]
  if data.length = 64 then ⟨transform c.state data, [], (c.bitlen + 512) % 2 ^ 64⟩
  else { c with data := data }

def update (c : Ctx) (data : List Byte) : Ctx := data.foldl feed c

theorem update_append (c : Ctx) (a b : List Byte) : update c (a ++ b) = update (update c a) b :=
  List.foldl_append

/-- The 64-bit bit count, big-endian. -/
def putBitlen (n : Nat) : List Byte :=
  (List.range 8).map fun i => BitVec.ofNat 8 (n / 2 ^ (8 * (7 - i)))

def digest (s : Hash) : List Byte :=
  [s.a, s.b, s.c, s.d, s.e, s.f, s.g, s.h].flatMap fun w =>
    [w.extractLsb' 24 8, w.extractLsb' 16 8, w.extractLsb' 8 8, w.extractLsb' 0 8]

/-- Pad the open block with `0x80`, zeros and the bit count, over one block or two. -/
def final (c : Ctx) : List Byte :=
  let pad := c.data ++ [0x80]
  let bitlen := (c.bitlen + c.data.length * 8) % 2 ^ 64
  let s := if 56 < pad.length then
      (transform c.state (pad ++ List.replicate (64 - pad.length) 0), [])
    else (c.state, pad)
  digest (transform s.1 (s.2 ++ List.replicate (56 - s.2.length) 0 ++ putBitlen bitlen))

end Sha256

/-- The SHA-256 of a stream. -/
def sha256 (data : List Byte) : List Byte := Sha256.final (Sha256.update Sha256.init data)

theorem sha256_length (data : List Byte) : (sha256 data).length = 32 := rfl

example : sha256 [0x61, 0x62, 0x63] =
    [0xba, 0x78, 0x16, 0xbf, 0x8f, 0x01, 0xcf, 0xea, 0x41, 0x41, 0x40, 0xde, 0x5d, 0xae, 0x22, 0x23,
      0xb0, 0x03, 0x61, 0xa3, 0x96, 0x17, 0x7a, 0x9c, 0xb4, 0x10, 0xff, 0x61, 0xf2, 0x00, 0x15,
      0xad] := by
  decide +kernel

end OtaFix
