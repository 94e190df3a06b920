import Mathlib

/-! The register of a reflected cyclic redundancy check, bit by bit, for any
width and any polynomial. A step is linear over exclusive or; with the top bit
of the polynomial set it loses nothing. Several steps at once are the steps of
the low bits and a shift of the others, which is what a table of the low bits
makes use of. -/
namespace Exchange.BitwiseCrc
variable {w : Nat} (poly : BitVec w)

/-- One bit: the register is shifted, and the polynomial taken off if a bit fell out. -/
def bitStep (c : BitVec w) : BitVec w := if c.getLsbD 0 then poly ^^^ (c >>> 1) else c >>> 1

def steps (n : Nat) (c : BitVec w) : BitVec w := (bitStep poly)^[n] c

theorem steps_succ (n : Nat) (c : BitVec w) : steps poly (n + 1) c = steps poly n (bitStep poly c) := rfl

theorem bitStep_xor (x y : BitVec w) : bitStep poly (x ^^^ y) = bitStep poly x ^^^ bitStep poly y := by
  simp only [bitStep, BitVec.getLsbD_xor, BitVec.ushiftRight_xor_distrib]
  cases x.getLsbD 0 <;> cases y.getLsbD 0 <;> ext i <;> simp [Bool.xor_left_comm]

theorem steps_xor (n : Nat) (x y : BitVec w) : steps poly n (x ^^^ y) = steps poly n x ^^^ steps poly n y := by
  induction n generalizing x y with
  | zero => rfl
  | succ n ih => rw [steps_succ, bitStep_xor, ih, steps_succ, steps_succ]

variable {poly}

/-- Only nothing steps to nothing. -/
theorem bitStep_zero (top : poly.msb = true) {c : BitVec w} (zero : bitStep poly c = 0) : c = 0 := by
  unfold bitStep at zero
  split at zero
  · -- A bit fell out, so the top bit of the result is that of the polynomial.
    have same : poly = c >>> 1 := BitVec.xor_eq_zero_iff.mp zero
    rw [same, BitVec.msb_ushiftRight] at top
    simp at top
  · rename_i low
    apply BitVec.eq_of_getLsbD_eq
    intro i inside
    cases i with
    | zero => simpa using low
    | succ i =>
      have bit := congrArg (·.getLsbD i) zero
      simpa [Nat.add_comm] using bit

theorem bitStep_injective (top : poly.msb = true) : Function.Injective (bitStep poly) := by
  intro x y same
  have zero : bitStep poly (x ^^^ y) = 0 := by
    rw [bitStep_xor, same, BitVec.xor_self]
    rfl
  exact BitVec.xor_eq_zero_iff.mp (bitStep_zero top zero)

theorem steps_injective (top : poly.msb = true) (n : Nat) : Function.Injective (steps poly n) :=
  (bitStep_injective top).iterate n

/-- Nothing falls out of a register whose low bits are clear. -/
theorem steps_shifted (n : Nat) {c : BitVec w} (fits : c.toNat * 2 ^ n < 2 ^ w) : steps poly n (c <<< n) = c := by
  induction n with
  | zero => simp [steps]
  | succ n ih =>
    have double : c.toNat * 2 ^ (n + 1) = c.toNat * 2 ^ n * 2 := by rw [Nat.pow_succ, Nat.mul_assoc]
    have half : c.toNat * 2 ^ n < 2 ^ w := by omega
    have shifted : bitStep poly (c <<< (n + 1)) = c <<< n := by
      rw [bitStep, if_neg (by simp)]
      apply BitVec.eq_of_toNat_eq
      rw [BitVec.toNat_ushiftRight, BitVec.toNat_shiftLeft, BitVec.toNat_shiftLeft, Nat.shiftLeft_eq, Nat.shiftLeft_eq,
        Nat.mod_eq_of_lt fits, Nat.mod_eq_of_lt half, Nat.shiftRight_eq_div_pow, double]
      omega
    rw [steps_succ, shifted, ih half]

/-- The steps of the low bits, and a shift of the others. -/
theorem steps_split (n : Nat) {c low : BitVec w} (split : c = low ^^^ ((c >>> n) <<< n)) :
    steps poly n c = steps poly n low ^^^ (c >>> n) := by
  have fits : (c >>> n).toNat * 2 ^ n < 2 ^ w := by
    rw [BitVec.toNat_ushiftRight, Nat.shiftRight_eq_div_pow]
    exact (Nat.div_mul_le_self _ _).trans_lt c.isLt
  have shifted := @steps_shifted w poly n _ fits
  calc steps poly n c = steps poly n (low ^^^ ((c >>> n) <<< n)) := congrArg _ split
    _ = steps poly n low ^^^ (c >>> n) := by rw [steps_xor, shifted]

/-! ## Bits of a message -/

/-- One bit of the message: the polynomial is taken off if the bit that falls out
and the message's differ. -/
def takeBit (poly : BitVec w) (c : BitVec w) (bit : Bool) : BitVec w :=
  if (c.getLsbD 0 ^^ bit) = true then poly ^^^ (c >>> 1) else c >>> 1

def bitWord (bit : Bool) : BitVec w := BitVec.ofNat w bit.toNat

/-- Bits as a word, the first one lowest. -/
def word : List Bool → BitVec w
  | [] => 0
  | bit :: rest => bitWord bit ^^^ (word rest <<< 1)

theorem getLsbD_bitWord (bit : Bool) (i : Nat) :
    (bitWord bit : BitVec w).getLsbD i = (decide (i < w) && (decide (i = 0) && bit)) := by
  rw [bitWord, BitVec.getLsbD_ofNat]
  cases bit with
  | false => simp
  | true =>
    have one : Nat.testBit 1 i = decide (i = 0) := by
      rw [Bool.eq_iff_iff, Nat.testBit_one_eq_true_iff_self_eq_zero, decide_eq_true_iff]
    simp [one]

theorem takeBit_eq (wide : 0 < w) (c : BitVec w) (bit : Bool) :
    takeBit poly c bit = bitStep poly (c ^^^ bitWord bit) := by
  have low : (c ^^^ bitWord bit).getLsbD 0 = (c.getLsbD 0 ^^ bit) := by
    rw [BitVec.getLsbD_xor, getLsbD_bitWord]
    simp [wide]
  have high : (c ^^^ bitWord bit) >>> 1 = c >>> 1 := by
    apply BitVec.eq_of_getLsbD_eq
    intro i _
    rw [BitVec.getLsbD_ushiftRight, BitVec.getLsbD_ushiftRight, BitVec.getLsbD_xor, getLsbD_bitWord]
    simp
  rw [takeBit, bitStep, low, high]

theorem getLsbD_word (bits : List Bool) (i : Nat) :
    (word bits : BitVec w).getLsbD i = (decide (i < w) && bits.getD i false) := by
  induction bits generalizing i with
  | nil => simp [word]
  | cons bit rest ih =>
    rw [word, BitVec.getLsbD_xor, getLsbD_bitWord, BitVec.getLsbD_shiftLeft, ih]
    cases i with
    | zero => simp
    | succ i =>
      have less : i + 1 < w → i < w := fun inside => by omega
      by_cases inside : i + 1 < w <;> simp [inside, less]

/-- A word of fewer bits than the register holds has a shift that loses nothing. -/
theorem bitStep_shifted {c : BitVec w} (fits : c.toNat * 2 < 2 ^ w) : bitStep poly (c <<< 1) = c := by
  have one := @steps_shifted w poly 1 c (by simpa using fits)
  exact one

theorem word_lt (bits : List Bool) (fits : bits.length < w) : (word bits : BitVec w).toNat * 2 < 2 ^ w := by
  have small : (word bits : BitVec w).toNat < 2 ^ bits.length := by
    refine Nat.lt_pow_two_of_testBit _ fun i above => ?_
    have bit := getLsbD_word (w := w) bits i
    rw [BitVec.getLsbD] at bit
    rw [bit, List.getD_eq_default _ _ above, Bool.and_false]
  calc (word bits : BitVec w).toNat * 2 < 2 ^ bits.length * 2 := by omega
    _ = 2 ^ (bits.length + 1) := (Nat.pow_succ ..).symm
    _ ≤ 2 ^ w := Nat.pow_le_pow_right (by omega) fits

/-- Bits taken one by one are the steps of the register with the bits on it. -/
theorem takeBits (bits : List Bool) (fits : bits.length ≤ w) (c : BitVec w) :
    bits.foldl (takeBit poly) c = steps poly bits.length (c ^^^ word bits) := by
  induction bits generalizing c with
  | nil => simp [word, steps]
  | cons bit rest ih =>
    rw [List.length_cons] at fits
    have shifted := @bitStep_shifted w poly _ (word_lt rest (by omega))
    rw [List.foldl_cons, ih (by omega), takeBit_eq (by omega), List.length_cons, steps_succ, word,
      ← BitVec.xor_assoc, bitStep_xor poly (c ^^^ bitWord bit), shifted]

/-- As many bits as the register holds are told apart by it. -/
theorem word_injective {bits bits' : List Bool} (fits : bits.length ≤ w) (size : bits.length = bits'.length)
    (same : (word bits : BitVec w) = word bits') : bits = bits' := by
  refine List.ext_getElem size fun i inside inside' => ?_
  have bit : (word bits : BitVec w).getLsbD i = (word bits' : BitVec w).getLsbD i := by rw [same]
  rw [getLsbD_word, getLsbD_word, List.getD_eq_getElem _ _ inside, List.getD_eq_getElem _ _ inside'] at bit
  simpa [Nat.lt_of_lt_of_le inside fits] using bit

end Exchange.BitwiseCrc
