/-!
# Digest/Xxh3 — the 64-bit XXH3 hash

XXH3 with a seed and the standard secret.  Inputs fall into classes by length: up to 16 bytes one
mixing step, up to 240 bytes a sum of folded products of 16-byte lanes, and beyond that eight
accumulators over 64-byte stripes.
-/

namespace ProbeWeaver.Xxh3

/-! ## Constants -/

def prime32a : UInt64 := 0x9E3779B1
def prime32b : UInt64 := 0x85EBCA77
def prime32c : UInt64 := 0xC2B2AE3D
def prime64a : UInt64 := 0x9E3779B185EBCA87
def prime64b : UInt64 := 0xC2B2AE3D27D4EB4F
def prime64c : UInt64 := 0x165667B19E3779F9
def prime64d : UInt64 := 0x85EBCA77C2B2AE63
def prime64e : UInt64 := 0x27D4EB2F165667C5
def primeMixA : UInt64 := 0x165667919E3779F9
def primeMixB : UInt64 := 0x9FB21C651E98DF25

/-- The standard secret. -/
def secret : ByteArray := ⟨#[
  0xb8, 0xfe, 0x6c, 0x39, 0x23, 0xa4, 0x4b, 0xbe, 0x7c, 0x01, 0x81, 0x2c, 0xf7, 0x21, 0xad, 0x1c,
  0xde, 0xd4, 0x6d, 0xe9, 0x83, 0x90, 0x97, 0xdb, 0x72, 0x40, 0xa4, 0xa4, 0xb7, 0xb3, 0x67, 0x1f,
  0xcb, 0x79, 0xe6, 0x4e, 0xcc, 0xc0, 0xe5, 0x78, 0x82, 0x5a, 0xd0, 0x7d, 0xcc, 0xff, 0x72, 0x21,
  0xb8, 0x08, 0x46, 0x74, 0xf7, 0x43, 0x24, 0x8e, 0xe0, 0x35, 0x90, 0xe6, 0x81, 0x3a, 0x26, 0x4c,
  0x3c, 0x28, 0x52, 0xbb, 0x91, 0xc3, 0x00, 0xcb, 0x88, 0xd0, 0x65, 0x8b, 0x1b, 0x53, 0x2e, 0xa3,
  0x71, 0x64, 0x48, 0x97, 0xa2, 0x0d, 0xf9, 0x4e, 0x38, 0x19, 0xef, 0x46, 0xa9, 0xde, 0xac, 0xd8,
  0xa8, 0xfa, 0x76, 0x3f, 0xe3, 0x9c, 0x34, 0x3f, 0xf9, 0xdc, 0xbb, 0xc7, 0xc7, 0x0b, 0x4f, 0x1d,
  0x8a, 0x51, 0xe0, 0x4b, 0xcd, 0xb4, 0x59, 0x31, 0xc8, 0x9f, 0x7e, 0xc9, 0xd9, 0x78, 0x73, 0x64,
  0xea, 0xc5, 0xac, 0x83, 0x34, 0xd3, 0xeb, 0xc3, 0xc5, 0x81, 0xa0, 0xff, 0xfa, 0x13, 0x63, 0xeb,
  0x17, 0x0d, 0xdd, 0x51, 0xb7, 0xf0, 0xda, 0x49, 0xd3, 0x16, 0x55, 0x26, 0x29, 0xd4, 0x68, 0x9e,
  0x2b, 0x16, 0xbe, 0x58, 0x7d, 0x47, 0xa1, 0xfc, 0x8f, 0xf8, 0xb8, 0xd1, 0x7a, 0xd0, 0x31, 0xce,
  0x45, 0xcb, 0x3a, 0x8f, 0x95, 0x16, 0x04, 0x28, 0xaf, 0xd7, 0xfb, 0xca, 0xbb, 0x4b, 0x40, 0x7e]⟩

/-! ## Words and mixing -/

/-- The byte at an index, zero past the end. -/
def byteAt (b : ByteArray) (i : Nat) : UInt64 := (b[i]?.getD 0).toUInt64

/-- The little-endian word of four bytes. -/
def word32 (b : ByteArray) (i : Nat) : UInt64 :=
  byteAt b i ||| (byteAt b (i + 1) <<< 8) ||| (byteAt b (i + 2) <<< 16) |||
    (byteAt b (i + 3) <<< 24)

/-- The little-endian word of eight bytes. -/
def word64 (b : ByteArray) (i : Nat) : UInt64 := word32 b i ||| (word32 b (i + 4) <<< 32)

/-- A word of the secret. -/
def secretWord (i : Nat) : UInt64 := word64 secret i

/-- The bits turned left. -/
def rotateLeft (x : UInt64) (n : UInt64) : UInt64 := (x <<< n) ||| (x >>> (64 - n))

/-- The low four bytes of a word in reverse. -/
def swap32 (x : UInt64) : UInt64 :=
  ((x &&& 0xff) <<< 24) ||| (((x >>> 8) &&& 0xff) <<< 16) ||| (((x >>> 16) &&& 0xff) <<< 8) |||
    ((x >>> 24) &&& 0xff)

/-- The eight bytes of a word in reverse. -/
def swap64 (x : UInt64) : UInt64 := (swap32 x <<< 32) ||| swap32 (x >>> 32)

/-- Both halves of the 128-bit product, one folded onto the other. -/
def foldedProduct (x y : UInt64) : UInt64 :=
  let product := x.toNat * y.toNat
  UInt64.ofNat product ^^^ UInt64.ofNat (product / UInt64.size)

/-- The final mixing of short inputs. -/
def avalancheShort (h : UInt64) : UInt64 :=
  let h := (h ^^^ (h >>> 33)) * prime64b
  let h := (h ^^^ (h >>> 29)) * prime64c
  h ^^^ (h >>> 32)

/-- The final mixing. -/
def avalanche (h : UInt64) : UInt64 :=
  let h := (h ^^^ (h >>> 37)) * primeMixA
  h ^^^ (h >>> 32)

/-- The final mixing of four to eight bytes. -/
def avalancheRotating (h length : UInt64) : UInt64 :=
  let h := (h ^^^ rotateLeft h 49 ^^^ rotateLeft h 24) * primeMixB
  let h := (h ^^^ ((h >>> 35) + length)) * primeMixB
  h ^^^ (h >>> 28)

/-! ## Short and middle inputs -/

/-- No byte. -/
def hashEmpty (seed : UInt64) : UInt64 :=
  avalancheShort (seed ^^^ secretWord 56 ^^^ secretWord 64)

/-- One to three bytes. -/
def hashTo3 (b : ByteArray) (seed : UInt64) : UInt64 :=
  let n := b.size
  let combined := (byteAt b 0 <<< 16) ||| (byteAt b (n / 2) <<< 24) ||| byteAt b (n - 1) |||
    (UInt64.ofNat n <<< 8)
  avalancheShort (combined ^^^ ((word32 secret 0 ^^^ word32 secret 4) + seed))

/-- Four to eight bytes. -/
def hashTo8 (b : ByteArray) (seed : UInt64) : UInt64 :=
  let seed := seed ^^^ (swap32 seed <<< 32)
  let flip := (secretWord 8 ^^^ secretWord 16) - seed
  let input := word32 b (b.size - 4) + (word32 b 0 <<< 32)
  avalancheRotating (input ^^^ flip) (UInt64.ofNat b.size)

/-- Nine to sixteen bytes. -/
def hashTo16 (b : ByteArray) (seed : UInt64) : UInt64 :=
  let low := word64 b 0 ^^^ ((secretWord 24 ^^^ secretWord 32) + seed)
  let high := word64 b (b.size - 8) ^^^ ((secretWord 40 ^^^ secretWord 48) - seed)
  avalanche (UInt64.ofNat b.size + swap64 low + high + foldedProduct low high)

/-- One lane of sixteen bytes against sixteen bytes of the secret. -/
def mixLane (b : ByteArray) (i s : Nat) (seed : UInt64) : UInt64 :=
  foldedProduct (word64 b i ^^^ (secretWord s + seed))
    (word64 b (i + 8) ^^^ (secretWord (s + 8) - seed))

/-- The sum of lanes, each given by its place and its place in the secret. -/
def mixLanes (b : ByteArray) (seed start : UInt64) (lanes : List (Nat × Nat)) : UInt64 :=
  lanes.foldl (fun acc (i, s) => acc + mixLane b i s seed) start

/-- What every sum of lanes starts from. -/
def lengthStart (n : Nat) : UInt64 := UInt64.ofNat n * prime64a

/-- Seventeen to 128 bytes: lanes from both ends inwards. -/
def hashTo128 (b : ByteArray) (seed : UInt64) : UInt64 :=
  let n := b.size
  let pairs := List.range ((n - 1) / 32 + 1)
  let lanes := pairs.flatMap fun k => [(16 * k, 32 * k), (n - 16 * (k + 1), 32 * k + 16)]
  avalanche (mixLanes b seed (lengthStart n) lanes)

/-- 129 to 240 bytes: eight lanes, then the others at a shifted place of the secret. -/
def hashTo240 (b : ByteArray) (seed : UInt64) : UInt64 :=
  let n := b.size
  let front := (List.range 8).map fun k => (16 * k, 16 * k)
  let middle := (List.range (n / 16 - 8)).map fun k => (16 * (k + 8), 16 * k + 3)
  let acc := avalanche (mixLanes b seed (lengthStart n) front)
  avalanche (mixLanes b seed acc (middle ++ [(n - 16, 119)]))

/-! ## Long inputs -/

/-- The eight accumulators. -/
abbrev Lanes := Vector UInt64 8

/-- The accumulators at the start. -/
def initialLanes : Lanes :=
  #v[prime32c, prime64a, prime64b, prime64c, prime64d, prime32b, prime64e, prime32a]

/-- The bytes of a word, low byte first. -/
def bytesOf (x : UInt64) : List UInt8 :=
  (List.range 8).map fun k => (x >>> UInt64.ofNat (8 * k)).toUInt8

/-- The secret with the seed added and taken away in turn. -/
def seededSecret (seed : UInt64) : ByteArray :=
  ⟨((List.range 12).flatMap fun k =>
    bytesOf (secretWord (16 * k) + seed) ++ bytesOf (secretWord (16 * k + 8) - seed)).toArray⟩

/-- The low four bytes of a word. -/
def lowHalf (x : UInt64) : UInt64 := x &&& 0xffffffff

/-- One stripe of 64 bytes against a place of the secret. -/
def addStripe (b key : ByteArray) (i s : Nat) (acc : Lanes) : Lanes :=
  Vector.ofFn fun k =>
    let mixed : UInt64 := word64 b (i + 8 * k.val) ^^^ word64 key (s + 8 * k.val)
    acc[k] + word64 b (i + 8 * (if k.val % 2 = 0 then k.val + 1 else k.val - 1)) +
      lowHalf mixed * (mixed >>> 32)

/-- So many stripes from a byte on, the secret moving on by eight bytes each. -/
def addStripes (b key : ByteArray) (first count : Nat) (acc : Lanes) : Lanes :=
  (List.range count).foldl (fun acc k => addStripe b key (first + 64 * k) (8 * k) acc) acc

/-- The mixing between blocks. -/
def scramble (key : ByteArray) (acc : Lanes) : Lanes :=
  Vector.ofFn fun k =>
    (acc[k] ^^^ (acc[k] >>> 47) ^^^ word64 key (128 + 8 * k.val)) * prime32a

/-- The accumulators folded into one word. -/
def mergeLanes (key : ByteArray) (n : Nat) (acc : Lanes) : UInt64 :=
  let fold (i : Fin 8) (j : Fin 8) (s : Nat) : UInt64 :=
    foldedProduct (acc[i] ^^^ word64 key s) (acc[j] ^^^ word64 key (s + 8))
  avalanche (lengthStart n + fold 0 1 11 + fold 2 3 27 + fold 4 5 43 + fold 6 7 59)

/-- More than 240 bytes: blocks of sixteen stripes, then the rest and the last stripe. -/
def hashLong (b : ByteArray) (seed : UInt64) : UInt64 :=
  let n := b.size
  let key := seededSecret seed
  let blocks := (n - 1) / 1024
  let acc := (List.range blocks).foldl
    (fun acc k => scramble key (addStripes b key (1024 * k) 16 acc)) initialLanes
  let acc := addStripes b key (1024 * blocks) ((n - 1 - 1024 * blocks) / 64) acc
  mergeLanes key n (addStripe b key (n - 64) 121 acc)

/-- **The hash of bytes under a seed.** -/
def hash (b : ByteArray) (seed : UInt64) : UInt64 :=
  if b.size = 0 then hashEmpty seed
  else if b.size ≤ 3 then hashTo3 b seed
  else if b.size ≤ 8 then hashTo8 b seed
  else if b.size ≤ 16 then hashTo16 b seed
  else if b.size ≤ 128 then hashTo128 b seed
  else if b.size ≤ 240 then hashTo240 b seed
  else hashLong b seed

end ProbeWeaver.Xxh3
