import EmojiCatalog.Digest
import Mathlib.Data.Nat.Find
import Mathlib.Data.Nat.NthRoot.Defs
import Mathlib.Data.Nat.Prime.Basic
/-!
SHA-256 as its standard words it.

The digest of a string of bits is defined here a second time, and shares nothing with the
implementation.  Padding is counted in bits and adds the least number of zeros that is enough.  A
word of a block is found by its number, a word of the message schedule by the recurrence over its
number, and the working variables by the number of rounds.  The constants are not listed but
computed, as the first 32 bits behind the point of roots of primes.

`roundConstants_eq` says that the table of the implementation holds those constants.  That the two
digests agree is shown in a module of its own.
-/

namespace EmojiCatalog.Digest

namespace Standard

/-- A word of 32 bits. -/
abbrev Word := BitVec 32

/-! ### Bits -/

/-- The bits of a number of fixed width, most significant first. -/
def bitsOf {w : Nat} (x : BitVec w) : List Bool := (List.range w).map x.getMsbD

/-- The number that some bits stand for, most significant first. -/
def valueOf (bits : List Bool) : Nat := bits.foldl (fun n b => 2 * n + b.toNat) 0

/-- The bits of some bytes. -/
def messageBits (message : List UInt8) : List Bool :=
  message.flatMap fun byte => bitsOf byte.toBitVec

/-- The word of a given number in some bits. -/
def wordAt (bits : List Bool) (i : Nat) : Word :=
  BitVec.ofNat 32 (valueOf ((bits.drop (32 * i)).take 32))

/-! ### Padding -/

theorem exists_zeroBits (l : Nat) : ∃ k, (l + 1 + k) % 512 = 448 :=
  ⟨959 - l % 512, by omega⟩

/-- The least number of zeros that leaves 64 bits of the last block after a message of `l` bits and
a one. -/
def zeroBits (l : Nat) : Nat := Nat.find (exists_zeroBits l)

/-- A message with a one, zeros, and its length in 64 bits. -/
def padded (bits : List Bool) : List Bool :=
  bits ++ true :: (List.replicate (zeroBits bits.length) false
    ++ bitsOf (BitVec.ofNat 64 bits.length))

/-! ### Functions of words -/

def ch (x y z : Word) : Word := (x &&& y) ^^^ (~~~x &&& z)

def maj (x y z : Word) : Word := (x &&& y) ^^^ (x &&& z) ^^^ (y &&& z)

def sum0 (x : Word) : Word := x.rotateRight 2 ^^^ x.rotateRight 13 ^^^ x.rotateRight 22

def sum1 (x : Word) : Word := x.rotateRight 6 ^^^ x.rotateRight 11 ^^^ x.rotateRight 25

def sigma0 (x : Word) : Word := x.rotateRight 7 ^^^ x.rotateRight 18 ^^^ (x >>> 3)

def sigma1 (x : Word) : Word := x.rotateRight 17 ^^^ x.rotateRight 19 ^^^ (x >>> 10)

/-! ### Constants -/

/-- The primes below a bound, ascending. -/
def primesBelow (n : Nat) : List Nat := (List.range n).filter Nat.Prime

/-- The first 32 bits behind the point of the `k`-th root of a number. -/
def rootFraction (k n : Nat) : Word := BitVec.ofNat 32 (Nat.nthRoot k (n <<< (32 * k)))

/-- The constant of a round, from the cube root of one of the first 64 primes. -/
def roundConstant (t : Nat) : Word := ((primesBelow 312).map (rootFraction 3)).getD t 0

/-! ### Rounds and blocks -/

/-- The eight working variables. -/
structure Variables where
  a : Word
  b : Word
  c : Word
  d : Word
  e : Word
  f : Word
  g : Word
  h : Word
  deriving DecidableEq, Repr

/-- The variables, in order. -/
def Variables.words (v : Variables) : List Word := [v.a, v.b, v.c, v.d, v.e, v.f, v.g, v.h]

/-- The sums of two variables each. -/
def Variables.add (v u : Variables) : Variables :=
  ⟨v.a + u.a, v.b + u.b, v.c + u.c, v.d + u.d, v.e + u.e, v.f + u.f, v.g + u.g, v.h + u.h⟩

/-- The word of a given number in the message schedule of a block. -/
def scheduled (block : Nat → Word) (t : Nat) : Word :=
  if t < 16 then block t
  else sigma1 (scheduled block (t - 2)) + scheduled block (t - 7)
    + sigma0 (scheduled block (t - 15)) + scheduled block (t - 16)
termination_by t

/-- One round, with its constant and its word of the schedule. -/
def round (k w : Word) (v : Variables) : Variables :=
  let t1 := v.h + sum1 v.e + ch v.e v.f v.g + k + w
  let t2 := sum0 v.a + maj v.a v.b v.c
  { a := t1 + t2, b := v.a, c := v.b, d := v.c, e := v.d + t1, f := v.e, g := v.f, h := v.g }

/-- The working variables of a block after some rounds. -/
def working (block : Nat → Word) (v : Variables) : Nat → Variables
  | 0 => v
  | t + 1 => round (roundConstant t) (scheduled block t) (working block v t)

/-- The variables before the first block, from the square roots of the first eight primes. -/
def initialValue : Variables :=
  let root (i : Nat) : Word := ((primesBelow 20).map (rootFraction 2)).getD i 0
  ⟨root 0, root 1, root 2, root 3, root 4, root 5, root 6, root 7⟩

/-- The value after some blocks of padded bits. -/
def valueAfter (bits : List Bool) : Nat → Variables
  | 0 => initialValue
  | i + 1 =>
    let v := valueAfter bits i
    v.add (working (fun j => wordAt bits (16 * i + j)) v 64)

/-- The digest of some bits. -/
def digest (bits : List Bool) : Variables :=
  valueAfter (padded bits) ((padded bits).length / 512)

/-! ### Hexadecimal -/

/-- The digits of some bits, four bits each. -/
def hexDigits : List Bool → List Char
  | p :: q :: r :: s :: rest => Nat.digitChar (valueOf [p, q, r, s]) :: hexDigits rest
  | _ => []

/-- The digest of a text's bytes in hexadecimal. -/
def hexDigest (s : String) : String :=
  String.ofList (hexDigits ((digest (messageBits s.toUTF8.data.toList)).words.flatMap bitsOf))

/-! ### The tables -/

/-- To find the primes it is enough to try divisors up to the square root. -/
theorem primesBelow_eq (n : Nat) :
    primesBelow n = (List.range n).filter fun p =>
      2 ≤ p && (List.range (Nat.sqrt p + 1)).all fun d => d < 2 || p % d != 0 := by
  refine List.filter_congr fun p _ => ?_
  rw [Bool.eq_iff_iff, decide_eq_true_iff, Nat.prime_def_le_sqrt]
  simp only [Bool.and_eq_true, decide_eq_true_eq, List.all_eq_true, List.mem_range,
    Bool.or_eq_true, bne_iff_ne, ne_eq, Nat.dvd_iff_mod_eq_zero]
  refine and_congr_right fun _ => forall_congr' fun d => ?_
  constructor
  · intro h hle
    exact (Nat.lt_or_ge d 2).imp_right fun htwo => h htwo (Nat.le_of_lt_succ hle)
  · intro h htwo hle
    exact (h (Nat.lt_succ_of_le hle)).resolve_left (Nat.not_lt.mpr htwo)

/-- Below the bounds stand the first 64 primes and the first eight. -/
theorem length_primesBelow : (primesBelow 312).length = 64 ∧ (primesBelow 20).length = 8 := by
  rw [primesBelow_eq, primesBelow_eq]
  decide +kernel

/-- The round constants of the implementation are those of the standard. -/
theorem roundConstants_eq :
    roundConstants.map UInt32.toBitVec = (primesBelow 312).map (rootFraction 3) := by
  rw [primesBelow_eq]
  decide +kernel

end Standard

end EmojiCatalog.Digest
