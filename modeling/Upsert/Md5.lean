/-! # The MD5 digest

The message is padded with a one bit, zeros and its length in bits to a whole number of 64-byte
blocks. Each block is sixteen little-endian words; sixty-four steps mix them into a chaining value
of four words, and the last chaining value, written little-endian, is the digest.
-/

namespace Upsert.Md5

/-! ## Words and bytes -/

/-- The bytes of a word, the least significant first. -/
def wordBytes (word : UInt32) : List UInt8 :=
  [word.toUInt8, (word >>> 8).toUInt8, (word >>> 16).toUInt8, (word >>> 24).toUInt8]

/-- The word whose bytes, the least significant first, are given. -/
def ofBytes (b0 b1 b2 b3 : UInt8) : UInt32 :=
  b0.toUInt32 ||| (b1.toUInt32 <<< 8) ||| (b2.toUInt32 <<< 16) ||| (b3.toUInt32 <<< 24)

/-- The bits of a word moved up by `n`, those that leave at the top coming in below. -/
def rotate (word n : UInt32) : UInt32 :=
  (word <<< n) ||| (word >>> (32 - n))

/-! ## Padding -/

/-- The number of zero bytes between the one bit and the length. -/
def zeroCount (length : Nat) : Nat := (119 - length % 64) % 64

/-- The length in bits as eight bytes, the least significant first. -/
def lengthBytes (length : Nat) : List UInt8 :=
  (List.range 8).map fun i => UInt8.ofNat ((8 * length) >>> (8 * i))

/-- The message, a one bit, zeros, and the length in bits. -/
def padded (message : List UInt8) : List UInt8 :=
  message ++ 0x80 :: List.replicate (zeroCount message.length) 0 ++ lengthBytes message.length

/-! ## Mixing a block -/

/-- The chaining value. -/
structure State where
  a : UInt32
  b : UInt32
  c : UInt32
  d : UInt32

/-- The chaining value before the first block. -/
def start : State := ⟨0x67452301, 0xefcdab89, 0x98badcfe, 0x10325476⟩

/-- The additive constants: the first 32 bits of the fractions of `|sin 1|`, …, `|sin 64|`. -/
def constants : Array UInt32 := #[
    0xd76aa478, 0xe8c7b756, 0x242070db, 0xc1bdceee,
    0xf57c0faf, 0x4787c62a, 0xa8304613, 0xfd469501,
    0x698098d8, 0x8b44f7af, 0xffff5bb1, 0x895cd7be,
    0x6b901122, 0xfd987193, 0xa679438e, 0x49b40821,
    0xf61e2562, 0xc040b340, 0x265e5a51, 0xe9b6c7aa,
    0xd62f105d, 0x02441453, 0xd8a1e681, 0xe7d3fbc8,
    0x21e1cde6, 0xc33707d6, 0xf4d50d87, 0x455a14ed,
    0xa9e3e905, 0xfcefa3f8, 0x676f02d9, 0x8d2a4c8a,
    0xfffa3942, 0x8771f681, 0x6d9d6122, 0xfde5380c,
    0xa4beea44, 0x4bdecfa9, 0xf6bb4b60, 0xbebfbc70,
    0x289b7ec6, 0xeaa127fa, 0xd4ef3085, 0x04881d05,
    0xd9d4d039, 0xe6db99e5, 0x1fa27cf8, 0xc4ac5665,
    0xf4292244, 0x432aff97, 0xab9423a7, 0xfc93a039,
    0x655b59c3, 0x8f0ccc92, 0xffeff47d, 0x85845dd1,
    0x6fa87e4f, 0xfe2ce6e0, 0xa3014314, 0x4e0811a1,
    0xf7537e82, 0xbd3af235, 0x2ad7d2bb, 0xeb86d391
  ]

/-- How far step `i` rotates: four amounts for each of the four rounds, taken in turn. -/
def shift (i : Nat) : UInt32 :=
  match i / 16, i % 4 with
  | 0, 0 => 7
  | 0, 1 => 12
  | 0, 2 => 17
  | 0, _ => 22
  | 1, 0 => 5
  | 1, 1 => 9
  | 1, 2 => 14
  | 1, _ => 20
  | 2, 0 => 4
  | 2, 1 => 11
  | 2, 2 => 16
  | 2, _ => 23
  | _, 0 => 6
  | _, 1 => 10
  | _, 2 => 15
  | _, _ => 21

/-- The word of the block that step `i` adds. -/
def wordIndex (i : Nat) : Nat :=
  match i / 16 with
  | 0 => i
  | 1 => (5 * i + 1) % 16
  | 2 => (3 * i + 5) % 16
  | _ => 7 * i % 16

/-- The bitwise function of the round that step `i` belongs to. -/
def mix (i : Nat) (b c d : UInt32) : UInt32 :=
  match i / 16 with
  | 0 => (b &&& c) ||| (~~~b &&& d)
  | 1 => (b &&& d) ||| (c &&& ~~~d)
  | 2 => b ^^^ c ^^^ d
  | _ => c ^^^ (b ||| ~~~d)

/-- One step on a block of sixteen words. -/
def step (block : Nat → UInt32) (s : State) (i : Nat) : State :=
  let sum := s.a + mix i s.b s.c s.d + constants.getD i 0 + block (wordIndex i)
  ⟨s.d, s.b + rotate sum (shift i), s.b, s.c⟩

/-- Mixes one block into the chaining value. -/
def compress (s : State) (block : Nat → UInt32) : State :=
  let t := (List.range 64).foldl (step block) s
  ⟨s.a + t.a, s.b + t.b, s.c + t.c, s.d + t.d⟩

/-- Word `i` of the bytes, counted from the byte `start`. -/
def wordAt (bytes : Array UInt8) (start i : Nat) : UInt32 :=
  let byteAt (k : Nat) : UInt8 := bytes.getD (start + 4 * i + k) 0
  ofBytes (byteAt 0) (byteAt 1) (byteAt 2) (byteAt 3)

/-- The sixteen bytes of the digest. -/
def digest (message : List UInt8) : List UInt8 :=
  let bytes := (padded message).toArray
  let last := (List.range (bytes.size / 64)).foldl
    (fun s k => compress s (wordAt bytes (64 * k))) start
  wordBytes last.a ++ wordBytes last.b ++ wordBytes last.c ++ wordBytes last.d

end Upsert.Md5
