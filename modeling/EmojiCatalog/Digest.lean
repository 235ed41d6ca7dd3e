/-!
SHA-256, the digest that identifies an item's bytes.

A message is padded to whole blocks of 64 bytes, and the blocks are folded into a chaining value of
eight words, one compression a block.  The message schedule of a block is grown one word at a time
with the latest word first, so that every word it needs stands at a fixed distance.  A digest is
written as 64 lowercase hexadecimal digits.
-/

namespace EmojiCatalog.Digest

/-- A word of 32 bits, with addition modulo `2 ^ 32`. -/
abbrev Word := UInt32

/-! ### Words -/

/-- Rotates a word to the right by `n` places, `0 < n < 32`. -/
def rotateRight (x : Word) (n : Word) : Word := (x >>> n) ||| (x <<< (32 - n))

/-- Mixes the first word of a state into a round. -/
def bigSigma0 (x : Word) : Word := rotateRight x 2 ^^^ rotateRight x 13 ^^^ rotateRight x 22

/-- Mixes the fifth word of a state into a round. -/
def bigSigma1 (x : Word) : Word := rotateRight x 6 ^^^ rotateRight x 11 ^^^ rotateRight x 25

/-- Mixes the word fifteen places back into a schedule. -/
def smallSigma0 (x : Word) : Word := rotateRight x 7 ^^^ rotateRight x 18 ^^^ (x >>> 3)

/-- Mixes the word two places back into a schedule. -/
def smallSigma1 (x : Word) : Word := rotateRight x 17 ^^^ rotateRight x 19 ^^^ (x >>> 10)

/-- Takes each bit from `y` where `x` has a one, and from `z` where it has a zero. -/
def choose (x y z : Word) : Word := (x &&& y) ^^^ (~~~x &&& z)

/-- Takes each bit as the majority of three words has it. -/
def majority (x y z : Word) : Word := (x &&& y) ^^^ (x &&& z) ^^^ (y &&& z)

/-! ### The chaining value -/

/-- The eight words that a compression works on. -/
structure State where
  a : Word
  b : Word
  c : Word
  d : Word
  e : Word
  f : Word
  g : Word
  h : Word
  deriving DecidableEq, Repr

/-- The first 32 bits of the fractional parts of the square roots of the first eight primes. -/
def initial : State :=
  ⟨0x6a09e667, 0xbb67ae85, 0x3c6ef372, 0xa54ff53a,
   0x510e527f, 0x9b05688c, 0x1f83d9ab, 0x5be0cd19⟩

/-- The first 32 bits of the fractional parts of the cube roots of the first 64 primes. -/
def roundConstants : List Word :=
  [0x428a2f98, 0x71374491, 0xb5c0fbcf, 0xe9b5dba5, 0x3956c25b, 0x59f111f1, 0x923f82a4, 0xab1c5ed5,
   0xd807aa98, 0x12835b01, 0x243185be, 0x550c7dc3, 0x72be5d74, 0x80deb1fe, 0x9bdc06a7, 0xc19bf174,
   0xe49b69c1, 0xefbe4786, 0x0fc19dc6, 0x240ca1cc, 0x2de92c6f, 0x4a7484aa, 0x5cb0a9dc, 0x76f988da,
   0x983e5152, 0xa831c66d, 0xb00327c8, 0xbf597fc7, 0xc6e00bf3, 0xd5a79147, 0x06ca6351, 0x14292967,
   0x27b70a85, 0x2e1b2138, 0x4d2c6dfc, 0x53380d13, 0x650a7354, 0x766a0abb, 0x81c2c92e, 0x92722c85,
   0xa2bfe8a1, 0xa81a664b, 0xc24b8b70, 0xc76c51a3, 0xd192e819, 0xd6990624, 0xf40e3585, 0x106aa070,
   0x19a4c116, 0x1e376c08, 0x2748774c, 0x34b0bcb5, 0x391c0cb3, 0x4ed8aa4a, 0x5b9cca4f, 0x682e6ff3,
   0x748f82ee, 0x78a5636f, 0x84c87814, 0x8cc70208, 0x90befffa, 0xa4506ceb, 0xbef9a3f7, 0xc67178f2]

/-- The words of a state, in order. -/
def State.words (s : State) : List Word := [s.a, s.b, s.c, s.d, s.e, s.f, s.g, s.h]

/-- Adds two states word by word. -/
def State.add (s t : State) : State :=
  ⟨s.a + t.a, s.b + t.b, s.c + t.c, s.d + t.d, s.e + t.e, s.f + t.f, s.g + t.g, s.h + t.h⟩

/-! ### Padding -/

/-- The number of zero bytes between the marker and the length of a message of `n` bytes. -/
def zeroCount (n : Nat) : Nat := (119 - n % 64) % 64

/-- The eight bytes of a number, most significant first. -/
def lengthBytes (n : Nat) : List UInt8 :=
  [56, 48, 40, 32, 24, 16, 8, 0].map fun shift => UInt8.ofNat (n >>> shift)

/-- A message with the marker byte, zeros and its length in bits, filling whole blocks. -/
def pad (message : List UInt8) : List UInt8 :=
  message ++ 0x80 :: (List.replicate (zeroCount message.length) 0
    ++ lengthBytes (8 * message.length))

/-! ### Blocks -/

/-- The words of some bytes, four bytes a word, most significant first. -/
def wordsOf : List UInt8 → List Word
  | p :: q :: r :: s :: rest =>
    (p.toUInt32 <<< 24 ||| q.toUInt32 <<< 16 ||| r.toUInt32 <<< 8 ||| s.toUInt32) :: wordsOf rest
  | _ => []

/-- The next word of a schedule whose words are listed latest first. -/
def nextWord (latestFirst : List Word) : Word :=
  smallSigma1 (latestFirst.getD 1 0) + latestFirst.getD 6 0
    + smallSigma0 (latestFirst.getD 14 0) + latestFirst.getD 15 0

/-- Adds `n` words to a schedule whose words are listed latest first. -/
def extendSchedule : Nat → List Word → List Word
  | 0, ws => ws
  | n + 1, ws => extendSchedule n (nextWord ws :: ws)

/-- The 64 words of a block's message schedule, in order. -/
def schedule (block : List Word) : List Word := (extendSchedule 48 block.reverse).reverse

/-- One round: mixes in a round constant and a word of the schedule. -/
def round (s : State) (kw : Word × Word) : State :=
  let t1 := s.h + bigSigma1 s.e + choose s.e s.f s.g + kw.1 + kw.2
  let t2 := bigSigma0 s.a + majority s.a s.b s.c
  ⟨t1 + t2, s.a, s.b, s.c, s.d + t1, s.e, s.f, s.g⟩

/-- Folds a block of sixteen words into a chaining value. -/
def compress (s : State) (block : List Word) : State :=
  s.add ((roundConstants.zip (schedule block)).foldl round s)

/-- Folds the first `n` blocks of some words into a chaining value. -/
def compressAll : Nat → State → List Word → State
  | 0, s, _ => s
  | n + 1, s, ws => compressAll n (compress s (ws.take 16)) (ws.drop 16)

/-- The digest of a message. -/
def sha256 (message : List UInt8) : State :=
  let ws := wordsOf (pad message)
  compressAll (ws.length / 16) initial ws

/-! ### Digests as text -/

/-- The hexadecimal digits, in order. -/
def hexDigits : List Char := "0123456789abcdef".toList

/-- The lowercase hexadecimal digit of a number below sixteen. -/
def hexDigit (n : Nat) : Char := hexDigits.getD (n % 16) '0'

/-- The eight hexadecimal digits of a word. -/
def hexWord (w : Word) : List Char :=
  [28, 24, 20, 16, 12, 8, 4, 0].map fun shift => hexDigit (w.toNat >>> shift)

/-- The text of a digest. -/
def State.hex (s : State) : String := String.ofList (s.words.flatMap hexWord)

/-- The digest of a text's bytes, written in hexadecimal. -/
def ofText (s : String) : String := (sha256 s.toUTF8.data.toList).hex

end EmojiCatalog.Digest
