import BoundaryHeap.Text.Padded

/-!
The SHA-256 digest of a row of bytes: the message is padded to blocks of sixteen 32-bit words, and
sixty-four rounds mix each block into a state of eight words.
-/

namespace BoundaryHeap.Digest

/-- The eight words that the rounds mix. -/
structure State where
  a : UInt32
  b : UInt32
  c : UInt32
  d : UInt32
  e : UInt32
  f : UInt32
  g : UInt32
  h : UInt32
  deriving Repr, DecidableEq

/-- The first 32 bits of the fractional parts of the square roots of the first eight primes. -/
def initial : State :=
  ⟨0x6a09e667, 0xbb67ae85, 0x3c6ef372, 0xa54ff53a, 0x510e527f, 0x9b05688c, 0x1f83d9ab, 0x5be0cd19⟩

/-- The first 32 bits of the fractional parts of the cube roots of the first 64 primes. -/
def constants : List UInt32 :=
  [0x428a2f98, 0x71374491, 0xb5c0fbcf, 0xe9b5dba5, 0x3956c25b, 0x59f111f1, 0x923f82a4, 0xab1c5ed5,
   0xd807aa98, 0x12835b01, 0x243185be, 0x550c7dc3, 0x72be5d74, 0x80deb1fe, 0x9bdc06a7, 0xc19bf174,
   0xe49b69c1, 0xefbe4786, 0x0fc19dc6, 0x240ca1cc, 0x2de92c6f, 0x4a7484aa, 0x5cb0a9dc, 0x76f988da,
   0x983e5152, 0xa831c66d, 0xb00327c8, 0xbf597fc7, 0xc6e00bf3, 0xd5a79147, 0x06ca6351, 0x14292967,
   0x27b70a85, 0x2e1b2138, 0x4d2c6dfc, 0x53380d13, 0x650a7354, 0x766a0abb, 0x81c2c92e, 0x92722c85,
   0xa2bfe8a1, 0xa81a664b, 0xc24b8b70, 0xc76c51a3, 0xd192e819, 0xd6990624, 0xf40e3585, 0x106aa070,
   0x19a4c116, 0x1e376c08, 0x2748774c, 0x34b0bcb5, 0x391c0cb3, 0x4ed8aa4a, 0x5b9cca4f, 0x682e6ff3,
   0x748f82ee, 0x78a5636f, 0x84c87814, 0x8cc70208, 0x90befffa, 0xa4506ceb, 0xbef9a3f7, 0xc67178f2]

/-- Turns a word right by a number of bits between 1 and 31. -/
def rotate (x : UInt32) (bits : UInt32) : UInt32 := (x >>> bits) ||| (x <<< (32 - bits))

/-- The words of a block followed by the 48 that the schedule derives from them. -/
def schedule (block : Array UInt32) : Array UInt32 :=
  (List.range 48).foldl (fun words i =>
    let near := words.getD (i + 1) 0
    let far := words.getD (i + 14) 0
    let s0 := rotate near 7 ^^^ rotate near 18 ^^^ (near >>> 3)
    let s1 := rotate far 17 ^^^ rotate far 19 ^^^ (far >>> 10)
    words.push (words.getD i 0 + s0 + words.getD (i + 9) 0 + s1)) block

/-- One round with its constant and its word of the schedule. -/
def round (s : State) (constant word : UInt32) : State :=
  let s1 := rotate s.e 6 ^^^ rotate s.e 11 ^^^ rotate s.e 25
  let choice := (s.e &&& s.f) ^^^ (~~~s.e &&& s.g)
  let first := s.h + s1 + choice + constant + word
  let s0 := rotate s.a 2 ^^^ rotate s.a 13 ^^^ rotate s.a 22
  let majority := (s.a &&& s.b) ^^^ (s.a &&& s.c) ^^^ (s.b &&& s.c)
  ⟨first + (s0 + majority), s.a, s.b, s.c, s.d + first, s.e, s.f, s.g⟩

/-- Mixes one block into the state. -/
def compress (s : State) (block : Array UInt32) : State :=
  let mixed := (constants.zip (schedule block).toList).foldl (fun s pair => round s pair.1 pair.2) s
  ⟨s.a + mixed.a, s.b + mixed.b, s.c + mixed.c, s.d + mixed.d,
    s.e + mixed.e, s.f + mixed.f, s.g + mixed.g, s.h + mixed.h⟩

/-- The `count` bytes of a number, most significant first. -/
def bigEndian (number : Nat) : Nat → List UInt8
  | 0 => []
  | count + 1 => bigEndian (number / 256) count ++ [UInt8.ofNat number]

/-- The message, a bit that ends it, zeros up to a whole block, and its length in bits. -/
def pad (message : ByteArray) : ByteArray :=
  let zeros := (119 - message.size % 64) % 64
  let tail := 0x80 :: List.replicate zeros 0 ++ bigEndian (message.size * 8) 8
  tail.foldl ByteArray.push message

/-- The byte at an offset, zero past the end. -/
def byteAt (bytes : ByteArray) (offset : Nat) : UInt8 :=
  if h : offset < bytes.size then bytes[offset] else 0

/-- The word at an offset, most significant byte first. -/
def wordAt (bytes : ByteArray) (offset : Nat) : UInt32 :=
  let byte := fun i => (byteAt bytes (offset + i)).toUInt32
  (byte 0 <<< 24) ||| (byte 1 <<< 16) ||| (byte 2 <<< 8) ||| byte 3

/-- The SHA-256 digest of a message. -/
def sha256 (message : ByteArray) : List UInt8 :=
  let padded := pad message
  let final := (List.range (padded.size / 64)).foldl (fun state i =>
    compress state ((List.range 16).map fun j => wordAt padded (64 * i + 4 * j)).toArray) initial
  [final.a, final.b, final.c, final.d, final.e, final.f, final.g, final.h].flatMap fun word =>
    bigEndian word.toNat 4

/-- A row of bytes in hexadecimal, two digits each. -/
def hexText (bytes : List UInt8) : String :=
  String.ofList (bytes.flatMap fun b => Text.padded 16 2 b.toNat)

end BoundaryHeap.Digest
