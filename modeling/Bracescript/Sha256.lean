import Bracescript.Bytes

/-!
# SHA-256

Digests identify the content of files and the entries of the compile cache.
-/

namespace Bracescript.Sha256

def roundConstants : Array UInt32 := #[
  0x428a2f98, 0x71374491, 0xb5c0fbcf, 0xe9b5dba5, 0x3956c25b, 0x59f111f1, 0x923f82a4, 0xab1c5ed5,
  0xd807aa98, 0x12835b01, 0x243185be, 0x550c7dc3, 0x72be5d74, 0x80deb1fe, 0x9bdc06a7, 0xc19bf174,
  0xe49b69c1, 0xefbe4786, 0x0fc19dc6, 0x240ca1cc, 0x2de92c6f, 0x4a7484aa, 0x5cb0a9dc, 0x76f988da,
  0x983e5152, 0xa831c66d, 0xb00327c8, 0xbf597fc7, 0xc6e00bf3, 0xd5a79147, 0x06ca6351, 0x14292967,
  0x27b70a85, 0x2e1b2138, 0x4d2c6dfc, 0x53380d13, 0x650a7354, 0x766a0abb, 0x81c2c92e, 0x92722c85,
  0xa2bfe8a1, 0xa81a664b, 0xc24b8b70, 0xc76c51a3, 0xd192e819, 0xd6990624, 0xf40e3585, 0x106aa070,
  0x19a4c116, 0x1e376c08, 0x2748774c, 0x34b0bcb5, 0x391c0cb3, 0x4ed8aa4a, 0x5b9cca4f, 0x682e6ff3,
  0x748f82ee, 0x78a5636f, 0x84c87814, 0x8cc70208, 0x90befffa, 0xa4506ceb, 0xbef9a3f7, 0xc67178f2]

/-- The eight working words. -/
structure Words where
  a : UInt32
  b : UInt32
  c : UInt32
  d : UInt32
  e : UInt32
  f : UInt32
  g : UInt32
  h : UInt32

def start : Words :=
  ⟨0x6a09e667, 0xbb67ae85, 0x3c6ef372, 0xa54ff53a, 0x510e527f, 0x9b05688c, 0x1f83d9ab, 0x5be0cd19⟩

def rotate (n x : UInt32) : UInt32 := (x >>> n) ||| (x <<< (32 - n))

/-- Extends the sixteen words of a block, newest first, by `n` more. -/
def extend : Nat → List UInt32 → List UInt32
  | 0, words => words
  | n + 1, words =>
    let at_ (i : Nat) := words.getD i 0
    let s0 := rotate 7 (at_ 14) ^^^ rotate 18 (at_ 14) ^^^ (at_ 14 >>> 3)
    let s1 := rotate 17 (at_ 1) ^^^ rotate 19 (at_ 1) ^^^ (at_ 1 >>> 10)
    extend n ((at_ 15 + s0 + at_ 6 + s1) :: words)

def step (v : Words) (kw : UInt32) : Words :=
  let s1 := rotate 6 v.e ^^^ rotate 11 v.e ^^^ rotate 25 v.e
  let choice := (v.e &&& v.f) ^^^ (~~~v.e &&& v.g)
  let t1 := v.h + s1 + choice + kw
  let s0 := rotate 2 v.a ^^^ rotate 13 v.a ^^^ rotate 22 v.a
  let majority := (v.a &&& v.b) ^^^ (v.a &&& v.c) ^^^ (v.b &&& v.c)
  ⟨t1 + s0 + majority, v.a, v.b, v.c, v.d + t1, v.e, v.f, v.g⟩

def Words.add (x y : Words) : Words :=
  ⟨x.a + y.a, x.b + y.b, x.c + y.c, x.d + y.d, x.e + y.e, x.f + y.f, x.g + y.g, x.h + y.h⟩

/-- Works one block of sixteen words into the state. -/
def compress (v : Words) (block : List UInt32) : Words :=
  let schedule := (extend 48 block.reverse).reverse
  v.add ((schedule.zip roundConstants.toList).foldl (fun v (w, k) => step v (w + k)) v)

/-- Big-endian words of a text whose length is a multiple of four. -/
def toWords : Bytes → List UInt32
  | a :: b :: c :: d :: rest =>
    ((a.toUInt32 <<< 24) ||| (b.toUInt32 <<< 16) ||| (c.toUInt32 <<< 8) ||| d.toUInt32) :: toWords rest
  | _ => []

/-- Works the first `n` blocks of the words into the state. -/
def blocks : Nat → Words → List UInt32 → Words
  | 0, v, _ => v
  | n + 1, v, words => blocks n (compress v (words.take 16)) (words.drop 16)

def bigEndian (count n : Nat) : Bytes :=
  (List.range count).map fun i => (n >>> (8 * (count - 1 - i))).toUInt8

/-- The text with a one bit, zeros and its length in bits behind it. -/
def pad (text : Bytes) : Bytes :=
  text ++ [0x80] ++ Bytes.repeated ((119 - text.length % 64) % 64) 0 ++ bigEndian 8 (8 * text.length)

def Words.bytes (v : Words) : Bytes :=
  [v.a, v.b, v.c, v.d, v.e, v.f, v.g, v.h].flatMap fun w => bigEndian 4 w.toNat

/-- The 32 bytes of the digest. -/
def digest (text : Bytes) : Bytes :=
  let words := toWords (pad text)
  (blocks (words.length / 16) start words).bytes

end Bracescript.Sha256
