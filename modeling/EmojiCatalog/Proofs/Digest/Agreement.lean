import EmojiCatalog.Proofs.Digest.Standard
import Mathlib.Data.List.GetD
import Mathlib.Data.List.Induction
import Mathlib.Tactic.Ring
/-!
The digest is the one of its standard.

Both pad a message, split it into blocks and fold them, and differ in how they find what a step
needs.  The standard addresses: a word by its number in the bits, a word of the schedule by its
number in the block.  The implementation consumes: bytes four at a time, a schedule from its latest
word on, words sixteen at a time.  Each section relates one of these, from the bits of a byte up to
the digits of a digest, and the sections meet in `ofText_eq`, for messages of every length.
-/

namespace EmojiCatalog.Digest

open Standard (bitsOf valueOf messageBits wordAt)

/-! ### Bits of numbers -/

theorem valueOf_append (xs ys : List Bool) :
    valueOf (xs ++ ys) = valueOf xs * 2 ^ ys.length + valueOf ys := by
  induction ys using List.reverseRecOn with
  | nil => simp [valueOf]
  | append_singleton ys b ih =>
    have hstep : ∀ bits : List Bool, valueOf (bits ++ [b]) = 2 * valueOf bits + b.toNat :=
      fun bits => List.foldl_append
    rw [← List.append_assoc, hstep, hstep, ih, List.length_append, List.length_singleton, pow_succ]
    ring

theorem length_bitsOf {w : Nat} (x : BitVec w) : (bitsOf x).length = w := by
  rw [bitsOf, List.length_map, List.length_range]

/-- The bits of a number of fixed width are those of the number. -/
theorem bitsOf_eq {w : Nat} (x : BitVec w) :
    bitsOf x = (List.range w).map fun i => x.toNat.testBit (w - 1 - i) := by
  refine List.map_congr_left fun i hi => ?_
  rw [BitVec.getMsbD, decide_eq_true (List.mem_range.mp hi), Bool.true_and]
  rfl

theorem valueOf_testBit (w n : Nat) :
    valueOf ((List.range w).map fun i => n.testBit (w - 1 - i)) = n % 2 ^ w := by
  induction w with
  | zero => simp [valueOf, Nat.mod_one]
  | succ w ih =>
    -- the first bit is the one that the greater width adds
    have hrest : (List.range (w + 1)).map (fun i => n.testBit (w + 1 - 1 - i))
        = [n.testBit w] ++ (List.range w).map fun i => n.testBit (w - 1 - i) := by
      rw [List.range_succ_eq_map, List.map_cons, List.map_map]
      refine congrArg₂ _ rfl (List.map_congr_left fun i _ => ?_)
      show n.testBit (w + 1 - 1 - (i + 1)) = _
      rw [show w + 1 - 1 - (i + 1) = w - 1 - i by omega]
    rw [hrest, valueOf_append, ih, List.length_map, List.length_range, Nat.mod_pow_succ,
      ← Nat.toNat_testBit, Nat.add_comm, Nat.mul_comm]
    cases n.testBit w <;> rfl

theorem valueOf_bitsOf {w : Nat} (x : BitVec w) : valueOf (bitsOf x) = x.toNat := by
  rw [bitsOf_eq, valueOf_testBit, Nat.mod_eq_of_lt x.isLt]

/-! ### Words of bytes -/

theorem length_messageBits (message : List UInt8) :
    (messageBits message).length = 8 * message.length := by
  induction message with
  | nil => rfl
  | cons b message ih =>
    rw [messageBits, List.flatMap_cons, List.length_append, length_bitsOf, ← messageBits, ih,
      List.length_cons]
    omega

theorem messageBits_append (xs ys : List UInt8) :
    messageBits (xs ++ ys) = messageBits xs ++ messageBits ys :=
  List.flatMap_append

/-- Shifting a number beyond another one joins the two. -/
theorem or_shiftLeft {a b k : Nat} (h : b < 2 ^ k) : a <<< k ||| b = a * 2 ^ k + b := by
  rw [← Nat.shiftLeft_add_eq_or_of_lt h, Nat.shiftLeft_eq]

/-- Four bytes put together. -/
theorem toNat_ofBytes (p q r s : UInt8) :
    (p.toUInt32 <<< 24 ||| q.toUInt32 <<< 16 ||| r.toUInt32 <<< 8 ||| s.toUInt32).toNat
      = ((p.toNat * 256 + q.toNat) * 256 + r.toNat) * 256 + s.toNat := by
  have hp := p.toNat_lt
  have hq := q.toNat_lt
  have hr := r.toNat_lt
  have hs := s.toNat_lt
  have hsmall : ∀ {a k : Nat}, a < 2 ^ 8 → k ≤ 24 → a <<< k % 2 ^ 32 = a <<< k := by
    intro a k ha hk
    rw [Nat.shiftLeft_eq]
    refine Nat.mod_eq_of_lt ?_
    calc a * 2 ^ k < 2 ^ 8 * 2 ^ k := Nat.mul_lt_mul_of_pos_right ha (Nat.two_pow_pos k)
      _ ≤ 2 ^ 8 * 2 ^ 24 := Nat.mul_le_mul_left _ (Nat.pow_le_pow_right (by decide) hk)
  simp only [UInt32.toNat_or, UInt32.toNat_shiftLeft, UInt8.toNat_toUInt32, UInt32.reduceToNat,
    Nat.reduceMod]
  rw [hsmall hp (by decide), hsmall hq (by decide), hsmall hr (by decide)]
  -- the bytes are joined from the last one on
  have hrs : r.toNat <<< 8 ||| s.toNat = r.toNat * 2 ^ 8 + s.toNat := or_shiftLeft hs
  have hqrs : q.toNat <<< 16 ||| (r.toNat * 2 ^ 8 + s.toNat)
      = q.toNat * 2 ^ 16 + (r.toNat * 2 ^ 8 + s.toNat) := or_shiftLeft (by omega)
  rw [Nat.or_assoc, Nat.or_assoc, hrs, hqrs, or_shiftLeft (by omega)]
  omega

/-- The words of some bytes are those of their bits. -/
theorem wordAt_messageBits {bytes : List UInt8} {i : Nat} (h : 4 * i + 4 ≤ bytes.length) :
    wordAt (messageBits bytes) i = ((wordsOf bytes).getD i 0).toBitVec := by
  fun_induction wordsOf bytes generalizing i with
  | case1 p q r s rest ih =>
    have hbits : messageBits (p :: q :: r :: s :: rest)
        = messageBits [p, q, r, s] ++ messageBits rest := messageBits_append [p, q, r, s] rest
    have hlength : (messageBits [p, q, r, s]).length = 32 := length_messageBits _
    rw [hbits]
    cases i with
    | zero =>
      rw [wordAt, Nat.mul_zero, List.drop_zero, List.take_left' hlength]
      refine BitVec.eq_of_toNat_eq ?_
      show _ = UInt32.toNat _
      rw [BitVec.toNat_ofNat, List.getD_cons_zero, toNat_ofBytes]
      simp only [messageBits, List.flatMap_cons, List.flatMap_nil, List.append_nil, valueOf_append,
        valueOf_bitsOf, length_bitsOf, List.length_append]
      have hp : p.toBitVec.toNat < 256 := p.toNat_lt
      have hq : q.toBitVec.toNat < 256 := q.toNat_lt
      have hr : r.toBitVec.toNat < 256 := r.toNat_lt
      have hs : s.toBitVec.toNat < 256 := s.toNat_lt
      show _ = ((p.toBitVec.toNat * 256 + q.toBitVec.toNat) * 256 + r.toBitVec.toNat) * 256
        + s.toBitVec.toNat
      omega
    | succ i =>
      rw [List.getD_cons_succ, ← ih (by simp only [List.length_cons] at h; omega)]
      rw [wordAt, wordAt, Nat.mul_succ, Nat.add_comm, ← List.drop_drop, List.drop_left' hlength]
  | case2 bytes hshort =>
    rcases bytes with - | ⟨p, - | ⟨q, - | ⟨r, - | ⟨s, rest⟩⟩⟩⟩
    case cons.cons.cons.cons => exact (hshort p q r s rest rfl).elim
    all_goals
      simp only [List.length_cons, List.length_nil] at h
      omega

/-! ### Padding -/

/-- Whole bytes of zeros fill up the bits that the marker leaves. -/
theorem zeroBits_eq (n : Nat) : Standard.zeroBits (8 * n) = 7 + 8 * zeroCount n := by
  rw [Standard.zeroBits, Nat.find_eq_iff, zeroCount]
  refine ⟨by omega, fun k hk => ?_⟩
  omega

theorem messageBits_replicate (n : Nat) :
    messageBits (List.replicate n 0) = List.replicate (8 * n) false := by
  induction n with
  | zero => rfl
  | succ n ih =>
    have hzero : bitsOf (0 : UInt8).toBitVec = List.replicate 8 false := by decide
    rw [List.replicate_succ, messageBits, List.flatMap_cons, ← messageBits, ih, hzero,
      List.replicate_append_replicate, Nat.mul_succ, Nat.add_comm]

/-- The bytes of a length are those of its 64 bits. -/
theorem messageBits_lengthBytes (n : Nat) :
    messageBits (lengthBytes n) = bitsOf (BitVec.ofNat 64 n) := by
  have hbyte : ∀ shift, bitsOf (UInt8.ofNat (n >>> shift)).toBitVec
      = (List.range 8).map fun i => n.testBit (shift + (7 - i)) := by
    intro shift
    refine List.map_congr_left fun i hi => ?_
    have hi := List.mem_range.mp hi
    show (BitVec.ofNat 8 (n >>> shift)).getMsbD i = _
    rw [BitVec.getMsbD, BitVec.getLsbD_ofNat, Nat.testBit_shiftRight, decide_eq_true hi,
      decide_eq_true (by omega), Bool.true_and, Bool.true_and]
  have hlength : bitsOf (BitVec.ofNat 64 n)
      = (List.range 64).map fun i => n.testBit (63 - i) := by
    refine List.map_congr_left fun i hi => ?_
    have hi := List.mem_range.mp hi
    rw [BitVec.getMsbD, BitVec.getLsbD_ofNat, decide_eq_true hi, decide_eq_true (by omega),
      Bool.true_and, Bool.true_and]
  rw [hlength]
  simp only [messageBits, lengthBytes, List.map_cons, List.map_nil, List.flatMap_cons,
    List.flatMap_nil, hbyte]
  rfl

/-- The padded bytes are those of the padded bits. -/
theorem messageBits_pad (message : List UInt8) :
    messageBits (pad message) = Standard.padded (messageBits message) := by
  have hmarker : bitsOf (0x80 : UInt8).toBitVec = true :: List.replicate 7 false := by decide
  rw [Standard.padded, length_messageBits, zeroBits_eq, pad, messageBits_append,
    ← List.replicate_append_replicate, ← messageBits_replicate, ← messageBits_lengthBytes]
  congr 1
  rw [messageBits, List.flatMap_cons, ← messageBits, messageBits_append, hmarker,
    List.cons_append, List.append_assoc]

theorem length_pad (message : List UInt8) : (pad message).length % 64 = 0 := by
  simp only [pad, lengthBytes, zeroCount, List.length_append, List.length_cons,
    List.length_replicate, List.length_map, List.length_nil]
  omega

/-! ### Rounds -/

/-- The working variables of a state. -/
def State.variables (s : State) : Standard.Variables :=
  ⟨s.a.toBitVec, s.b.toBitVec, s.c.toBitVec, s.d.toBitVec, s.e.toBitVec, s.f.toBitVec,
    s.g.toBitVec, s.h.toBitVec⟩

theorem variables_round (s : State) (kw : Word × Word) :
    (round s kw).variables = Standard.round kw.1.toBitVec kw.2.toBitVec s.variables := rfl

theorem variables_add (s t : State) : (s.add t).variables = s.variables.add t.variables := rfl

/-! ### The message schedule -/

section Schedule

variable (block : Nat → Standard.Word)

/-- The first `n` words of the standard's schedule. -/
def scheduleUpTo (n : Nat) : List Word :=
  (List.range n).map fun t => UInt32.ofBitVec (Standard.scheduled block t)

theorem getD_reverse_scheduleUpTo {n j : Nat} (h : j < n) :
    (scheduleUpTo block n).reverse.getD j 0
      = UInt32.ofBitVec (Standard.scheduled block (n - 1 - j)) := by
  have hlength : (scheduleUpTo block n).length = n := by
    rw [scheduleUpTo, List.length_map, List.length_range]
  rw [List.getD_eq_getElem _ _ (by rwa [List.length_reverse, hlength]), List.getElem_reverse]
  simp only [scheduleUpTo, List.getElem_map, List.getElem_range, List.length_map,
    List.length_range]

/-- The next word is that of the recurrence. -/
theorem nextWord_reverse_scheduleUpTo {n : Nat} (h : 16 ≤ n) :
    nextWord (scheduleUpTo block n).reverse
      = UInt32.ofBitVec (Standard.scheduled block n) := by
  have hrecurrence : Standard.scheduled block n
      = Standard.sigma1 (Standard.scheduled block (n - 2)) + Standard.scheduled block (n - 7)
        + Standard.sigma0 (Standard.scheduled block (n - 15))
        + Standard.scheduled block (n - 16) := by
    rw [Standard.scheduled, if_neg (Nat.not_lt.mpr h)]
  rw [nextWord, getD_reverse_scheduleUpTo block (by omega : 1 < n),
    getD_reverse_scheduleUpTo block (by omega : 6 < n),
    getD_reverse_scheduleUpTo block (by omega : 14 < n),
    getD_reverse_scheduleUpTo block (by omega : 15 < n), hrecurrence, Nat.sub_sub, Nat.sub_sub,
    Nat.sub_sub, Nat.sub_sub]
  rfl

theorem extendSchedule_scheduleUpTo {n : Nat} (h : 16 ≤ n) (k : Nat) :
    extendSchedule k (scheduleUpTo block n).reverse = (scheduleUpTo block (n + k)).reverse := by
  induction k generalizing n with
  | zero => rfl
  | succ k ih =>
    have hnext : nextWord (scheduleUpTo block n).reverse :: (scheduleUpTo block n).reverse
        = (scheduleUpTo block (n + 1)).reverse := by
      rw [nextWord_reverse_scheduleUpTo block h, scheduleUpTo, scheduleUpTo, List.range_succ,
        List.map_append, List.map_singleton, List.reverse_append, List.reverse_singleton,
        List.singleton_append]
    rw [extendSchedule, hnext, ih (by omega), Nat.add_assoc, Nat.add_comm 1 k]

/-- The schedule of a block is the standard's. -/
theorem schedule_eq {words : List Word} (hlength : words.length = 16)
    (hblock : ∀ j < 16, (words.getD j 0).toBitVec = block j) :
    schedule words = scheduleUpTo block 64 := by
  have hwords : words = scheduleUpTo block 16 := by
    refine List.ext_getElem ?_ fun j hj _ => ?_
    · rw [hlength, scheduleUpTo, List.length_map, List.length_range]
    · have hfirst : Standard.scheduled block j = block j := by
        rw [Standard.scheduled, if_pos (hlength ▸ hj)]
      simp only [scheduleUpTo, List.getElem_map, List.getElem_range, hfirst]
      rw [← hblock j (hlength ▸ hj), List.getD_eq_getElem _ _ hj]
  rw [schedule, hwords, extendSchedule_scheduleUpTo block (Nat.le_refl 16), List.reverse_reverse]

end Schedule

/-! ### Blocks -/

/-- The standard's rounds as a fold. -/
theorem working_eq_foldl (block : Nat → Standard.Word) (v : Standard.Variables) (n : Nat) :
    Standard.working block v n = (List.range n).foldl
      (fun v t => Standard.round (Standard.roundConstant t) (Standard.scheduled block t) v) v := by
  induction n with
  | zero => rfl
  | succ n ih => rw [List.range_succ, List.foldl_append, ← ih]; rfl

theorem roundConstants_zip (block : Nat → Standard.Word) :
    roundConstants.zip (scheduleUpTo block 64) = (List.range 64).map fun t =>
      (UInt32.ofBitVec (Standard.roundConstant t),
        UInt32.ofBitVec (Standard.scheduled block t)) := by
  have hconstants : roundConstants = (List.range 64).map fun t =>
      UInt32.ofBitVec (Standard.roundConstant t) := by
    refine List.ext_getElem ?_ fun t ht _ => ?_
    · rw [List.length_map, List.length_range]
      rfl
    rw [List.getElem_map, List.getElem_range, Standard.roundConstant,
      ← Standard.roundConstants_eq, List.getD_eq_getElem _ _ (by simpa using ht),
      List.getElem_map]
  rw [hconstants, scheduleUpTo, List.zip_map']

/-- Folding in a block is what the standard does with it. -/
theorem variables_compress (s : State) {words : List Word} {block : Nat → Standard.Word}
    (hlength : words.length = 16) (hblock : ∀ j < 16, (words.getD j 0).toBitVec = block j) :
    (compress s words).variables
      = s.variables.add (Standard.working block s.variables 64) := by
  rw [compress, schedule_eq block hlength hblock, roundConstants_zip, variables_add,
    working_eq_foldl, List.foldl_map]
  refine congrArg _ ?_
  -- one round after the other
  generalize List.range 64 = ts
  have hrounds : ∀ s' : State, (ts.foldl (fun s t => round s
        (UInt32.ofBitVec (Standard.roundConstant t),
          UInt32.ofBitVec (Standard.scheduled block t))) s').variables
      = ts.foldl (fun v t =>
          Standard.round (Standard.roundConstant t) (Standard.scheduled block t) v)
          s'.variables := by
    induction ts with
    | nil => exact fun _ => rfl
    | cons t ts ih =>
      intro s'
      rw [List.foldl_cons, List.foldl_cons, ih, variables_round]
  exact hrounds s

/-- All blocks are folded in from the first one on. -/
theorem compressAll_eq_foldl (n : Nat) (s : State) (words : List Word) :
    compressAll n s words = (List.range n).foldl
      (fun s i => compress s ((words.drop (16 * i)).take 16)) s := by
  induction n generalizing s words with
  | zero => rfl
  | succ n ih =>
    rw [compressAll, ih, List.range_succ_eq_map, List.foldl_cons, List.foldl_map]
    simp only [List.drop_drop, Nat.mul_zero, List.drop_zero, Nat.succ_eq_add_one, Nat.mul_add,
      Nat.mul_one, Nat.add_comm 16]

theorem length_wordsOf (bytes : List UInt8) : (wordsOf bytes).length = bytes.length / 4 := by
  fun_induction wordsOf bytes with
  | case1 p q r s rest ih =>
    simp only [List.length_cons, ih]
    omega
  | case2 bytes hshort =>
    rcases bytes with - | ⟨p, - | ⟨q, - | ⟨r, - | ⟨s, rest⟩⟩⟩⟩
    case cons.cons.cons.cons => exact (hshort p q r s rest rfl).elim
    all_goals simp only [List.length_cons, List.length_nil, Nat.reduceAdd, Nat.reduceDiv]

theorem variables_initial : initial.variables = Standard.initialValue := by
  rw [Standard.initialValue, Standard.primesBelow_eq]
  decide +kernel

/-- After every number of blocks the two values agree. -/
theorem variables_compressAll {bytes : List UInt8} {n : Nat} (h : 64 * n ≤ bytes.length) :
    (compressAll n initial (wordsOf bytes)).variables
      = Standard.valueAfter (messageBits bytes) n := by
  rw [compressAll_eq_foldl]
  induction n with
  | zero => exact variables_initial
  | succ n ih =>
    have hlength : (((wordsOf bytes).drop (16 * n)).take 16).length = 16 := by
      rw [List.length_take, List.length_drop, length_wordsOf]
      omega
    rw [List.range_succ, List.foldl_append, List.foldl_cons, List.foldl_nil, Standard.valueAfter,
      ← ih (by omega)]
    refine variables_compress _ hlength fun j hj => ?_
    rw [wordAt_messageBits (by omega), List.getD_eq_getElem?_getD, List.getD_eq_getElem?_getD,
      List.getElem?_take_of_lt hj, List.getElem?_drop]

/-- The digest of a message is that of its bits. -/
theorem variables_sha256 (message : List UInt8) :
    (sha256 message).variables = Standard.digest (messageBits message) := by
  have hpad := length_pad message
  have hblocks : (wordsOf (pad message)).length / 16
      = (Standard.padded (messageBits message)).length / 512 := by
    rw [← messageBits_pad, length_messageBits, length_wordsOf]
    omega
  rw [sha256, Standard.digest, hblocks, ← messageBits_pad, variables_compressAll]
  rw [length_messageBits]
  omega

/-! ### Hexadecimal -/

/-- A digit stands for the four bits that a shift leaves lowest. -/
theorem digitChar_testBit (n shift : Nat) :
    Nat.digitChar (valueOf [n.testBit (shift + 3), n.testBit (shift + 2), n.testBit (shift + 1),
      n.testBit shift]) = hexDigit (n >>> shift) := by
  have hvalue := valueOf_testBit 4 (n >>> shift)
  have hdigit : ∀ k < 16, Nat.digitChar k = hexDigits.getD k '0' := by decide
  simp only [Nat.testBit_shiftRight] at hvalue
  rw [hexDigit, ← hdigit _ (Nat.mod_lt _ (by decide))]
  exact congrArg _ hvalue

/-- The digits of a word are those of its bits. -/
theorem hexDigits_bitsOf_append (w : Word) (rest : List Bool) :
    Standard.hexDigits (bitsOf w.toBitVec ++ rest) = hexWord w ++ Standard.hexDigits rest := by
  have hword : hexWord w = [28, 24, 20, 16, 12, 8, 4, 0].map fun shift =>
      Nat.digitChar (valueOf [w.toNat.testBit (shift + 3), w.toNat.testBit (shift + 2),
        w.toNat.testBit (shift + 1), w.toNat.testBit shift]) := by
    simp only [digitChar_testBit, hexWord]
  rw [hword, bitsOf_eq]
  rfl

theorem hexDigits_flatMap (ws : List Word) :
    Standard.hexDigits ((ws.map UInt32.toBitVec).flatMap bitsOf) = ws.flatMap hexWord := by
  induction ws with
  | nil => rfl
  | cons w ws ih =>
    rw [List.map_cons, List.flatMap_cons, List.flatMap_cons, hexDigits_bitsOf_append, ih]

/-- The digest of a text is the standard's. -/
theorem ofText_eq (s : String) : ofText s = Standard.hexDigest s := by
  have hwords : ∀ state : State, state.words.map UInt32.toBitVec = state.variables.words :=
    fun _ => rfl
  rw [Standard.hexDigest, ← variables_sha256, ← hwords, hexDigits_flatMap]
  rfl

example : ofText "abc" = "ba7816bf8f01cfea414140de5dae2223b00361a396177a9cb410ff61f20015ad" := by
  decide +kernel

/-! ### The written form -/

theorem hexDigit_mem (n : Nat) : hexDigit n ∈ hexDigits := by
  have hlt : n % 16 < hexDigits.length := Nat.mod_lt n (by decide)
  rw [hexDigit, List.getD_eq_getElem _ _ hlt]
  exact List.getElem_mem hlt

/-- A digest has 64 digits. -/
theorem length_ofText (s : String) : (ofText s).length = 64 := by
  rw [ofText, State.hex, String.length_ofList]
  rfl

/-- A digest consists of lowercase hexadecimal digits. -/
theorem mem_hexDigits_of_mem_ofText {s : String} {ch : Char} (h : ch ∈ (ofText s).toList) :
    ch ∈ hexDigits := by
  rw [ofText, State.hex, String.toList_ofList] at h
  obtain ⟨w, -, hw⟩ := List.mem_flatMap.mp h
  obtain ⟨shift, -, rfl⟩ := List.mem_map.mp hw
  exact hexDigit_mem _

end EmojiCatalog.Digest
