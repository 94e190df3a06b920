import Mathlib

/-! Big-endian bytes of a number, written and read the way a shift loop does
it. Both directions undo each other: a number up to its width, and every byte
string. -/
namespace Exchange.BigEndian

/-- `width` bytes, the highest first. -/
def put (width value : Nat) : List UInt8 :=
  (List.range width).reverse.map fun k => UInt8.ofNat (value >>> (8 * k))

/-- The number read so far is shifted up by each byte. -/
def get (bytes : List UInt8) : Nat := bytes.foldl (fun value b => value <<< 8 ||| b.toNat) 0

@[simp] theorem put_length (width value : Nat) : (put width value).length = width := by
  simp [put]

theorem put_succ (width value : Nat) :
    put (width + 1) value = put width (value >>> 8) ++ [UInt8.ofNat value] := by
  simp only [put, List.range_succ_eq_map, List.reverse_cons, List.map_append, List.map_reverse, List.map_map,
    List.map_cons, List.map_nil, Nat.mul_zero, Nat.shiftRight_zero]
  congr 2
  refine List.map_congr_left fun k _ => ?_
  rw [Function.comp_apply, ← Nat.shiftRight_add]
  congr 2
  omega

theorem get_concat (bytes : List UInt8) (b : UInt8) : get (bytes ++ [b]) = get bytes * 256 + b.toNat := by
  rw [get, List.foldl_append, List.foldl_cons, List.foldl_nil, ← get,
    ← Nat.shiftLeft_add_eq_or_of_lt b.toNat_lt, Nat.shiftLeft_eq]

theorem get_put (width value : Nat) : get (put width value) = value % 256 ^ width := by
  induction width generalizing value with
  | zero => simp [put, get, Nat.mod_one]
  | succ width ih =>
    have split : value % 256 ^ (width + 1) = value % 256 + 256 * (value / 256 % 256 ^ width) := by
      rw [Nat.pow_succ', Nat.mod_mul]
    have high : value >>> 8 = value / 256 := Nat.shiftRight_eq_div_pow value 8
    rw [put_succ, get_concat, ih, UInt8.toNat_ofNat', high, split]
    omega

theorem put_get (bytes : List UInt8) : put bytes.length (get bytes) = bytes := by
  induction bytes using List.reverseRecOn with
  | nil => rfl
  | append_singleton bytes b ih =>
    have low := b.toNat_lt
    have rest : (get bytes * 256 + b.toNat) >>> 8 = get bytes := by
      rw [Nat.shiftRight_eq_div_pow]
      omega
    have last : UInt8.ofNat (get bytes * 256 + b.toNat) = b := by
      apply UInt8.toNat_inj.mp
      rw [UInt8.toNat_ofNat']
      omega
    rw [List.length_append, List.length_singleton, put_succ, get_concat, rest, last, ih]

theorem get_put_of_lt {width value : Nat} (fits : value < 256 ^ width) : get (put width value) = value := by
  rw [get_put, Nat.mod_eq_of_lt fits]

theorem put_get_of_length {bytes : List UInt8} {width : Nat} (length : bytes.length = width) :
    put width (get bytes) = bytes := by
  subst length
  exact put_get bytes

theorem get_lt (bytes : List UInt8) : get bytes < 256 ^ bytes.length := by
  rw [← put_get bytes, get_put, put_length]
  exact Nat.mod_lt _ (by positivity)

/-- Byte strings of one length stand for different numbers. -/
theorem get_injective {first second : List UInt8} (same : first.length = second.length)
    (value : get first = get second) : first = second := by
  rw [← put_get first, ← put_get second, same, value]

end Exchange.BigEndian
