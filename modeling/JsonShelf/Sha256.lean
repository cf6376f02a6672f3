/-
**The hash function SHA-256.**

Main definitions:

* `Sha256.hash` — the eight words of the hash of some bytes;
* `Sha256.hexDigest` — its text in lower-case hexadecimal digits.
-/

import JsonShelf.Json.Printer

set_option autoImplicit false

namespace JsonShelf.Sha256

/-- The initial hash value: the fractional parts of the square roots of the first eight primes. -/
def initial : List UInt32 :=
  [0x6a09e667, 0xbb67ae85, 0x3c6ef372, 0xa54ff53a, 0x510e527f, 0x9b05688c, 0x1f83d9ab, 0x5be0cd19]

/-- The round constants: the fractional parts of the cube roots of the first 64 primes. -/
def roundConstants : List UInt32 :=
  [0x428a2f98, 0x71374491, 0xb5c0fbcf, 0xe9b5dba5, 0x3956c25b, 0x59f111f1, 0x923f82a4, 0xab1c5ed5,
   0xd807aa98, 0x12835b01, 0x243185be, 0x550c7dc3, 0x72be5d74, 0x80deb1fe, 0x9bdc06a7, 0xc19bf174,
   0xe49b69c1, 0xefbe4786, 0x0fc19dc6, 0x240ca1cc, 0x2de92c6f, 0x4a7484aa, 0x5cb0a9dc, 0x76f988da,
   0x983e5152, 0xa831c66d, 0xb00327c8, 0xbf597fc7, 0xc6e00bf3, 0xd5a79147, 0x06ca6351, 0x14292967,
   0x27b70a85, 0x2e1b2138, 0x4d2c6dfc, 0x53380d13, 0x650a7354, 0x766a0abb, 0x81c2c92e, 0x92722c85,
   0xa2bfe8a1, 0xa81a664b, 0xc24b8b70, 0xc76c51a3, 0xd192e819, 0xd6990624, 0xf40e3585, 0x106aa070,
   0x19a4c116, 0x1e376c08, 0x2748774c, 0x34b0bcb5, 0x391c0cb3, 0x4ed8aa4a, 0x5b9cca4f, 0x682e6ff3,
   0x748f82ee, 0x78a5636f, 0x84c87814, 0x8cc70208, 0x90befffa, 0xa4506ceb, 0xbef9a3f7, 0xc67178f2]

/-- A word with its bits moved cyclically to the right. -/
def rotateRight (x : UInt32) (n : UInt32) : UInt32 :=
  (x >>> n) ||| (x <<< (32 - n))

/-- The words of the schedule, the last one first, with the next one added. -/
def extend (schedule : List UInt32) : List UInt32 :=
  let at_ (n : Nat) : UInt32 := schedule.getD (n - 1) 0
  let a := at_ 15
  let b := at_ 2
  let s0 := rotateRight a 7 ^^^ rotateRight a 18 ^^^ (a >>> 3)
  let s1 := rotateRight b 17 ^^^ rotateRight b 19 ^^^ (b >>> 10)
  (at_ 16 + s0 + at_ 7 + s1) :: schedule

/-- The 64 words of the schedule of a block. -/
def schedule (block : List UInt32) : List UInt32 :=
  (Nat.repeat extend 48 block.reverse).reverse

/-- The eight working words. -/
structure Working where
  a : UInt32
  b : UInt32
  c : UInt32
  d : UInt32
  e : UInt32
  f : UInt32
  g : UInt32
  h : UInt32

/-- One round, with the sum of its constant and its word of the schedule. -/
def Working.round (w : Working) (input : UInt32) : Working :=
  let s1 := rotateRight w.e 6 ^^^ rotateRight w.e 11 ^^^ rotateRight w.e 25
  let choice := (w.e &&& w.f) ^^^ (~~~w.e &&& w.g)
  let t1 := w.h + s1 + choice + input
  let s0 := rotateRight w.a 2 ^^^ rotateRight w.a 13 ^^^ rotateRight w.a 22
  let majority := (w.a &&& w.b) ^^^ (w.a &&& w.c) ^^^ (w.b &&& w.c)
  ⟨t1 + (s0 + majority), w.a, w.b, w.c, w.d + t1, w.e, w.f, w.g⟩

/-- The working words as a list. -/
def Working.toList (w : Working) : List UInt32 :=
  [w.a, w.b, w.c, w.d, w.e, w.f, w.g, w.h]

/-- The working words of a hash value. -/
def Working.ofList (value : List UInt32) : Working :=
  let at_ (n : Nat) : UInt32 := value.getD n 0
  ⟨at_ 0, at_ 1, at_ 2, at_ 3, at_ 4, at_ 5, at_ 6, at_ 7⟩

/-- The hash value after one more block. -/
def compress (value block : List UInt32) : List UInt32 :=
  let inputs := List.zipWith (· + ·) roundConstants (schedule block)
  List.zipWith (· + ·) value (inputs.foldl Working.round (Working.ofList value)).toList

/-- The `count` bytes of a number, the most significant first. -/
def bigEndian (count : Nat) (n : Nat) : List UInt8 :=
  (List.range count).reverse.map fun i => UInt8.ofNat (n / 256 ^ i)

/-- The bytes, a one bit, zeros, and the length in bits, to a multiple of 64 bytes. -/
def padded (bytes : List UInt8) : List UInt8 :=
  let zeros := (119 - bytes.length % 64) % 64
  bytes ++ 0x80 :: List.replicate zeros 0 ++ bigEndian 8 (8 * bytes.length)

/-- Four bytes to a word, the most significant first. -/
def wordsOf : List UInt8 → List UInt32
  | a :: b :: c :: d :: rest =>
    ((a.toUInt32 <<< 24) ||| (b.toUInt32 <<< 16) ||| (c.toUInt32 <<< 8) ||| d.toUInt32) ::
      wordsOf rest
  | _ => []

/-- Takes `count` blocks of sixteen words into the hash value. -/
def compressAll : Nat → List UInt32 → List UInt32 → List UInt32
  | 0, value, _ => value
  | count + 1, value, words => compressAll count (compress value (words.take 16)) (words.drop 16)

/-- The eight words of the hash. -/
def hash (bytes : List UInt8) : List UInt32 :=
  let words := wordsOf (padded bytes)
  compressAll (words.length / 16) initial words

/-- Eight hexadecimal digits. -/
def hexWord (x : UInt32) : List Char :=
  (List.range 8).reverse.map fun i => Json.hexChar (x.toNat / 16 ^ i % 16)

/-- The hash of the UTF-8 form of a text, in hexadecimal digits. -/
def hexDigest (s : String) : String :=
  String.ofList ((hash s.toUTF8.toList).flatMap hexWord)

end JsonShelf.Sha256
