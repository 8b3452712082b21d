import Inquiry.Digest.Bytes

/-!
# SHA-256

The digest of a run of bytes, as the Secure Hash Standard defines it: the bytes
are padded to whole blocks of 64, and every block is mixed into eight words of
32 bits, which start as a fixed value and end as the digest.
-/

namespace Inquiry.Sha256

/-- The constants of the rounds: the first bits of the fractions of the cube roots of
    the first 64 primes. -/
def roundConstants : Array UInt32 := #[
  0x428a2f98, 0x71374491, 0xb5c0fbcf, 0xe9b5dba5, 0x3956c25b, 0x59f111f1, 0x923f82a4, 0xab1c5ed5,
  0xd807aa98, 0x12835b01, 0x243185be, 0x550c7dc3, 0x72be5d74, 0x80deb1fe, 0x9bdc06a7, 0xc19bf174,
  0xe49b69c1, 0xefbe4786, 0x0fc19dc6, 0x240ca1cc, 0x2de92c6f, 0x4a7484aa, 0x5cb0a9dc, 0x76f988da,
  0x983e5152, 0xa831c66d, 0xb00327c8, 0xbf597fc7, 0xc6e00bf3, 0xd5a79147, 0x06ca6351, 0x14292967,
  0x27b70a85, 0x2e1b2138, 0x4d2c6dfc, 0x53380d13, 0x650a7354, 0x766a0abb, 0x81c2c92e, 0x92722c85,
  0xa2bfe8a1, 0xa81a664b, 0xc24b8b70, 0xc76c51a3, 0xd192e819, 0xd6990624, 0xf40e3585, 0x106aa070,
  0x19a4c116, 0x1e376c08, 0x2748774c, 0x34b0bcb5, 0x391c0cb3, 0x4ed8aa4a, 0x5b9cca4f, 0x682e6ff3,
  0x748f82ee, 0x78a5636f, 0x84c87814, 0x8cc70208, 0x90befffa, 0xa4506ceb, 0xbef9a3f7, 0xc67178f2]

/-- The eight words that are mixed. -/
structure Chain where
  a : UInt32
  b : UInt32
  c : UInt32
  d : UInt32
  e : UInt32
  f : UInt32
  g : UInt32
  h : UInt32

/-- The words to start from: the first bits of the fractions of the square roots of the
    first eight primes. -/
def Chain.start : Chain :=
  ⟨0x6a09e667, 0xbb67ae85, 0x3c6ef372, 0xa54ff53a,
    0x510e527f, 0x9b05688c, 0x1f83d9ab, 0x5be0cd19⟩

/-- The words of two chains added one by one. -/
def Chain.add (x y : Chain) : Chain :=
  ⟨x.a + y.a, x.b + y.b, x.c + y.c, x.d + y.d, x.e + y.e, x.f + y.f, x.g + y.g, x.h + y.h⟩

/-- The words in order. -/
def Chain.words (x : Chain) : List UInt32 :=
  [x.a, x.b, x.c, x.d, x.e, x.f, x.g, x.h]

/-- A word turned to the right. -/
def rotate (x : UInt32) (n : UInt32) : UInt32 :=
  (x >>> n) ||| (x <<< (32 - n))

/-- The next word of the schedule, of which `w` has at least 16. -/
def extendSchedule (w : Array UInt32) : Array UInt32 :=
  let back (n : Nat) : UInt32 := w.getD (w.size - n) 0
  let s0 := rotate (back 15) 7 ^^^ rotate (back 15) 18 ^^^ (back 15 >>> 3)
  let s1 := rotate (back 2) 17 ^^^ rotate (back 2) 19 ^^^ (back 2 >>> 10)
  w.push (back 16 + s0 + back 7 + s1)

/-- One round, with its constant and its word of the schedule. -/
def round (x : Chain) (k w : UInt32) : Chain :=
  let s1 := rotate x.e 6 ^^^ rotate x.e 11 ^^^ rotate x.e 25
  let choice := (x.e &&& x.f) ^^^ (~~~x.e &&& x.g)
  let t1 := x.h + s1 + choice + k + w
  let s0 := rotate x.a 2 ^^^ rotate x.a 13 ^^^ rotate x.a 22
  let majority := (x.a &&& x.b) ^^^ (x.a &&& x.c) ^^^ (x.b &&& x.c)
  ⟨t1 + (s0 + majority), x.a, x.b, x.c, x.d + t1, x.e, x.f, x.g⟩

/-- Mixes a block of 16 words into the chain. -/
def compress (x : Chain) (block : Array UInt32) : Chain :=
  let schedule := Nat.repeat extendSchedule 48 block
  x.add ((List.range 64).foldl
    (fun y i => round y (roundConstants.getD i 0) (schedule.getD i 0)) x)

/-- The bytes padded to whole blocks: a one bit, zeros and the length in bits. -/
def pad (bytes : List UInt8) : List UInt8 :=
  let zeros := (119 - bytes.length % 64) % 64
  bytes ++ 0x80 :: List.replicate zeros 0 ++ Bytes.bigEndian 8 (8 * bytes.length)

/-- The words that bytes make, four by four. -/
def toWords : List UInt8 → List UInt32
  | a :: b :: c :: d :: rest =>
    ((a.toUInt32 <<< 24) ||| (b.toUInt32 <<< 16) ||| (c.toUInt32 <<< 8) ||| d.toUInt32) ::
      toWords rest
  | _ => []

/-- Mixes words into the chain, block by block; words left over at the end make no
    block. -/
def absorb (x : Chain) (words : List UInt32) : Chain :=
  if words.length < 16 then x
  else absorb (compress x (words.take 16).toArray) (words.drop 16)
termination_by words.length
decreasing_by
  rw [List.length_drop]
  omega

/-- The digest of a run of bytes. -/
def digest (bytes : List UInt8) : List UInt8 :=
  (absorb .start (toWords (pad bytes))).words.flatMap fun w => Bytes.bigEndian 4 w.toNat

end Inquiry.Sha256
