import Exchange.BitwiseCrc
import Exchange.Checksum

/-! The table-driven checksum takes eight bit steps for each byte. None of them
loses anything, so a single changed byte always changes the checksum. -/
namespace Exchange.ByteErrors
open BitwiseCrc

/-- The reflected polynomial of `checksum.hpp`. -/
def poly : BitVec 32 := 0xEDB88320#32

theorem poly_top : poly.msb = true := by decide

theorem bit_toBitVec (c : UInt32) :
    (if c &&& 1 ≠ 0 then (0xEDB88320 : UInt32) ^^^ (c >>> 1) else c >>> 1).toBitVec = bitStep poly c.toBitVec := by
  have low : c &&& 1 ≠ 0 ↔ c.toBitVec.getLsbD 0 = true := by
    rw [Ne, ← UInt32.toNat_inj, UInt32.toNat_and, BitVec.getLsbD, Nat.testBit_zero]
    simp [Nat.and_one_is_mod]
  rw [bitStep]
  by_cases fell : c &&& 1 ≠ 0
  · rw [if_pos fell, if_pos (low.mp fell)]
    rfl
  · rw [if_neg fell, if_neg (fun bit => fell (low.mpr bit))]
    rfl

/-- A loop that takes one bit step a turn. -/
theorem turns_toBitVec (turns : List Nat) (c : UInt32) :
    (turns.foldl (fun (c : UInt32) _ => if c &&& 1 ≠ 0 then (0xEDB88320 : UInt32) ^^^ (c >>> 1) else c >>> 1)
      c).toBitVec = steps poly turns.length c.toBitVec := by
  induction turns generalizing c with
  | nil => rfl
  | cons _ turns ih => rw [List.foldl_cons, ih, bit_toBitVec, List.length_cons, steps_succ]

theorem tableEntry_steps (i : UInt32) : (tableEntry i).toBitVec = steps poly 8 i.toBitVec :=
  turns_toBitVec (List.range 8) i

theorem low_byte (x : UInt32) : (x &&& 0xFF).toNat = x.toNat % 256 := by
  rw [UInt32.toNat_and]
  exact Nat.and_two_pow_sub_one_eq_mod x.toNat 8

theorem crcTable_get (x : UInt32) : crcTable[(x &&& 0xFF).toUInt8.toFin] = tableEntry (x &&& 0xFF) := by
  have index : UInt32.ofNat (x &&& 0xFF).toUInt8.toFin.val = x &&& 0xFF := by
    apply UInt32.toNat_inj.mp
    have value : (x &&& 0xFF).toUInt8.toFin.val = (x &&& 0xFF).toNat % 256 := rfl
    rw [value, UInt32.toNat_ofNat', low_byte]
    omega
  rw [crcTable]
  simp only [Fin.getElem_fin, Vector.getElem_ofFn]
  rw [index]

theorem low_split (c : BitVec 32) : c = (c &&& 0xFF#32) ^^^ ((c >>> 8) <<< 8) := by
  have mask : ∀ i < 32, (0xFF#32).getLsbD i = decide (i < 8) := by decide
  apply BitVec.eq_of_getLsbD_eq
  intro i inside
  rw [BitVec.getLsbD_xor, BitVec.getLsbD_and, mask i inside, BitVec.getLsbD_shiftLeft, BitVec.getLsbD_ushiftRight]
  by_cases low : i < 8
  · simp [low]
  · have there : 8 + (i - 8) = i := by omega
    simp [low, inside, there]

/-- A byte touches the low bits only. -/
theorem high_bits (crc : UInt32) (b : UInt8) : (crc ^^^ b.toUInt32).toBitVec >>> 8 = crc.toBitVec >>> 8 := by
  apply BitVec.eq_of_getLsbD_eq
  intro i inside
  have clear : b.toUInt32.toBitVec.getLsbD (8 + i) = false := by
    have width : b.toUInt32.toBitVec = b.toBitVec.setWidth 32 := rfl
    rw [width, BitVec.getLsbD_setWidth, BitVec.getLsbD_of_ge _ _ (by omega), Bool.and_false]
  rw [BitVec.getLsbD_ushiftRight, BitVec.getLsbD_ushiftRight, UInt32.toBitVec_xor, BitVec.getLsbD_xor, clear,
    Bool.xor_false]

/-- A byte of input is eight bit steps. -/
theorem crcStep_steps (crc : UInt32) (b : UInt8) :
    (crcStep crc b).toBitVec = steps poly 8 (crc ^^^ b.toUInt32).toBitVec := by
  have split := @steps_split 32 poly 8 _ _ (low_split (crc ^^^ b.toUInt32).toBitVec)
  rw [split, high_bits, crcStep, crcTable_get, UInt32.toBitVec_xor, tableEntry_steps]
  rfl

theorem crcStep_inj {crc crc' : UInt32} {b b' : UInt8} :
    crcStep crc b = crcStep crc' b' ↔ crc ^^^ b.toUInt32 = crc' ^^^ b'.toUInt32 := by
  rw [← UInt32.toBitVec_inj, crcStep_steps, crcStep_steps, (steps_injective poly_top 8).eq_iff, UInt32.toBitVec_inj]

theorem crcSteps_injective (data : Bytes) : Function.Injective fun crc => data.foldl crcStep crc := by
  induction data with
  | nil => exact fun _ _ same => same
  | cons b data ih =>
    intro crc crc' same
    have first := crcStep_inj.mp (ih same)
    exact (UInt32.xor_left_inj b.toUInt32).mp first

/-- Exchanging one byte changes the checksum. -/
theorem crc32_changed (front back : Bytes) {b b' : UInt8} (changed : b ≠ b') :
    crc32 (front ++ b :: back) ≠ crc32 (front ++ b' :: back) := by
  intro same
  have registers : (front ++ b :: back).foldl crcStep (~~~0) = (front ++ b' :: back).foldl crcStep (~~~0) :=
    UInt32.not_inj.mp same
  rw [List.foldl_append, List.foldl_append, List.foldl_cons, List.foldl_cons] at registers
  have bytes : b.toUInt32 = b'.toUInt32 :=
    (UInt32.xor_right_inj _).mp (crcStep_inj.mp (crcSteps_injective back registers))
  apply changed
  rw [← UInt8.toUInt8_toUInt32 b, bytes, UInt8.toUInt8_toUInt32]

theorem crc32_set {data : Bytes} {i : Nat} {b : UInt8} (changed : data.set i b ≠ data) :
    crc32 (data.set i b) ≠ crc32 data := by
  have inside : i < data.length := by
    by_contra beyond
    exact changed (List.set_eq_of_length_le (by omega))
  have split : data = data.take i ++ data[i] :: data.drop (i + 1) := by simp
  have replaced : data.set i b = data.take i ++ b :: data.drop (i + 1) := by
    rw [List.set_eq_take_append_cons_drop, if_pos inside]
  have different : b ≠ data[i] := by
    intro same
    subst same
    exact changed (replaced.trans split.symm)
  have detected := crc32_changed (data.take i) (data.drop (i + 1)) different
  rw [← replaced, ← split] at detected
  exact detected

end Exchange.ByteErrors
