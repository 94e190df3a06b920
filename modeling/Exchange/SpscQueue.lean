import Exchange.Types

/-! The single-producer single-consumer ring of `spsc_queue.hpp`. The indices
are machine words that only ever grow and wrap; a mask takes them to slots.
Between operations the ring holds a list, `push` appends to it and `pop` takes
its front. -/
namespace Exchange

/-- Types with a `std::move`: what is left in a value whose contents were taken. -/
class Movable (α : Type) where
  moved : α → α

/-- A ring. Its capacity is a power of two, and it never holds more than that. -/
structure SpscQueue (α : Type) where
  capacity : UInt64
  slots : UInt64 → α
  head : UInt64
  tail : UInt64
  powerOfTwo : ∃ exponent < 64, capacity.toNat = 2 ^ exponent
  bounded : (head - tail).toNat ≤ capacity.toNat

namespace SpscQueue
variable {α : Type}

/-- The loop of `round_up_pow2`. Beyond the highest power of two the shift
yields zero and the loop does not end, which no result stands for. -/
def doubleUpTo (v : UInt64) : Nat → UInt64 → Option UInt64
  | 0, _ => none
  | fuel + 1, p => if p < v then doubleUpTo v fuel (p <<< 1) else some p

def roundUpPow2 (v : UInt64) : Option UInt64 := doubleUpTo v 64 1

theorem doubleUpTo_power (v : UInt64) (fuel exponent : Nat) (p : UInt64) (fits : exponent + fuel ≤ 64)
    (power : exponent < 64 → p.toNat = 2 ^ exponent) {result : UInt64}
    (found : doubleUpTo v fuel p = some result) : ∃ k < 64, result.toNat = 2 ^ k := by
  induction fuel generalizing exponent p with
  | zero => simp [doubleUpTo] at found
  | succ fuel ih =>
    rw [doubleUpTo] at found
    split at found
    · refine ih (exponent + 1) (p <<< 1) (by omega) (fun below => ?_) found
      have bound : 2 ^ (exponent + 1) < 2 ^ 64 := Nat.pow_lt_pow_right (by omega) below
      rw [UInt64.toNat_shiftLeft, power (by omega), Nat.shiftLeft_eq]
      show 2 ^ exponent * 2 ^ 1 % 2 ^ 64 = _
      rw [← Nat.pow_add, Nat.mod_eq_of_lt bound]
    · cases found
      exact ⟨exponent, by omega, power (by omega)⟩

theorem roundUpPow2_power {v result : UInt64} (found : roundUpPow2 v = some result) :
    ∃ k < 64, result.toNat = 2 ^ k :=
  doubleUpTo_power v 64 0 1 (by omega) (fun _ => rfl) found

/-- The constructor: slots of default values, both indices at zero. -/
def create [Inhabited α] (capacity : UInt64) : Option (SpscQueue α) :=
  match found : roundUpPow2 capacity with
  | none => none
  | some rounded => some {
      capacity := rounded
      slots := fun _ => default
      head := 0
      tail := 0
      powerOfTwo := roundUpPow2_power found
      bounded := Nat.zero_le _ }

/-- `index & mask_`. -/
def slotOf (queue : SpscQueue α) (index : UInt64) : UInt64 := index &&& (queue.capacity - 1)

/-- `slots_[slot] = value`. -/
def store (slots : UInt64 → α) (slot : UInt64) (value : α) : UInt64 → α :=
  fun other => if other = slot then value else slots other

/-- `push`: `none` where the source returns `false`, without storing. -/
def push (queue : SpscQueue α) (value : α) : Option (SpscQueue α) :=
  let next := queue.head + 1
  if full : queue.capacity < next - queue.tail then none
  else some { queue with
    slots := store queue.slots (queue.slotOf queue.head) value
    head := next
    bounded := UInt64.le_iff_toNat_le.mp (UInt64.not_lt.mp full) }

theorem size_after_pop {head tail : UInt64} (filled : tail ≠ head) :
    (head - (tail + 1)).toNat + 1 = (head - tail).toNat := by
  have apart : tail.toNat ≠ head.toNat := fun same => filled (UInt64.toNat_inj.mp same)
  have first := head.toNat_lt
  have second := tail.toNat_lt
  simp only [UInt64.toNat_sub, UInt64.toNat_add, UInt64.toNat_one]
  omega

/-- `pop`: `none` where the source returns `false`. The slot is moved from. -/
def pop [Movable α] (queue : SpscQueue α) : Option (α × SpscQueue α) :=
  if empty : queue.tail = queue.head then none
  else
    let slot := queue.slotOf queue.tail
    some (queue.slots slot, { queue with
      slots := store queue.slots slot (Movable.moved (queue.slots slot))
      tail := queue.tail + 1
      bounded := by
        have less := size_after_pop empty
        have bounded := queue.bounded
        omega })

/-- The values in the ring, oldest first. -/
def contents (queue : SpscQueue α) : List α :=
  (List.range (queue.head - queue.tail).toNat).map fun place =>
    queue.slots (queue.slotOf (queue.tail + UInt64.ofNat place))

/-! ## The ring as a queue -/

variable (queue : SpscQueue α)

theorem capacity_dvd : queue.capacity.toNat ∣ 2 ^ 64 := by
  obtain ⟨exponent, small, power⟩ := queue.powerOfTwo
  rw [power]
  exact Nat.pow_dvd_pow 2 (by omega)

theorem slotOf_toNat (index : UInt64) :
    (queue.slotOf index).toNat = index.toNat % queue.capacity.toNat := by
  obtain ⟨exponent, small, power⟩ := queue.powerOfTwo
  have positive : 0 < 2 ^ exponent := Nat.two_pow_pos exponent
  have mask : (queue.capacity - 1).toNat = 2 ^ exponent - 1 := by
    rw [UInt64.toNat_sub_of_le _ _ (by rw [UInt64.le_iff_toNat_le, power]; exact positive), power]
    rfl
  rw [slotOf, UInt64.toNat_and, mask, Nat.and_two_pow_sub_one_eq_mod, power]

/-- Fewer places apart than the ring has slots, indices lie in different slots. -/
theorem slotOf_ne (tail : UInt64) {first second : Nat} (before : first < second)
    (near : second - first < queue.capacity.toNat) :
    queue.slotOf (tail + UInt64.ofNat first) ≠ queue.slotOf (tail + UInt64.ofNat second) := by
  intro same
  have slots := congrArg UInt64.toNat same
  have place : ∀ place, (queue.slotOf (tail + UInt64.ofNat place)).toNat =
      (tail.toNat + place) % queue.capacity.toNat := by
    intro place
    rw [slotOf_toNat, UInt64.toNat_add, Nat.mod_mod_of_dvd _ queue.capacity_dvd, UInt64.toNat_ofNat',
      Nat.add_mod, Nat.mod_mod_of_dvd _ queue.capacity_dvd, ← Nat.add_mod]
  rw [place, place] at slots
  have divides : queue.capacity.toNat ∣ second - first := by
    have apart := Nat.sub_mod_eq_zero_of_mod_eq slots.symm
    rw [show tail.toNat + second - (tail.toNat + first) = second - first by omega] at apart
    exact Nat.dvd_of_mod_eq_zero apart
  exact absurd (Nat.le_of_dvd (by omega) divides) (by omega)

theorem store_ne (slots : UInt64 → α) {slot other : UInt64} (value : α) (away : other ≠ slot) :
    store slots slot value other = slots other :=
  if_neg away

theorem contents_length : queue.contents.length = (queue.head - queue.tail).toNat := by
  simp [contents]

theorem create_contents [Inhabited α] {capacity : UInt64} {queue : SpscQueue α}
    (created : create capacity = some queue) : queue.contents = [] := by
  unfold create at created
  split at created
  · cases created
  · cases created
    simp [contents]

theorem head_eq : queue.head = queue.tail + UInt64.ofNat (queue.head - queue.tail).toNat := by
  rw [UInt64.ofNat_toNat, UInt64.add_comm, UInt64.sub_add_cancel]

theorem capacity_small : queue.capacity.toNat ≤ 2 ^ 63 := by
  obtain ⟨exponent, small, power⟩ := queue.powerOfTwo
  rw [power]
  exact Nat.pow_le_pow_right (by omega) (by omega)

theorem size_after_push : (queue.head + 1 - queue.tail).toNat = (queue.head - queue.tail).toNat + 1 := by
  have small := queue.capacity_small
  have bounded := queue.bounded
  have first := queue.head.toNat_lt
  have second := queue.tail.toNat_lt
  simp only [UInt64.toNat_sub, UInt64.toNat_add, UInt64.toNat_one] at *
  omega

/-- A push fails exactly on a full ring. -/
theorem push_none_iff (value : α) :
    queue.push value = none ↔ queue.contents.length = queue.capacity.toNat := by
  have bounded := queue.bounded
  have grown := queue.size_after_push
  rw [contents_length]
  by_cases full : queue.capacity < queue.head + 1 - queue.tail
  · simp only [push, full, ↓reduceDIte, true_iff]
    rw [UInt64.lt_iff_toNat_lt, grown] at full
    omega
  · simp only [push, full, ↓reduceDIte, reduceCtorEq, false_iff]
    rw [UInt64.lt_iff_toNat_lt, grown] at full
    omega

/-- A push that succeeds appends its value. -/
theorem push_contents {queue next : SpscQueue α} {value : α} (pushed : queue.push value = some next) :
    next.contents = queue.contents ++ [value] := by
  have grown := queue.size_after_push
  by_cases full : queue.capacity < queue.head + 1 - queue.tail
  · simp [push, full] at pushed
  simp only [push, full, ↓reduceDIte, Option.some.injEq] at pushed
  subst pushed
  rw [UInt64.lt_iff_toNat_lt, grown] at full
  simp only [contents, grown, List.range_succ, List.map_append, List.map_cons, List.map_nil]
  congr 1
  · refine List.map_congr_left fun place member => ?_
    have below := List.mem_range.mp member
    refine store_ne _ _ ?_
    have apart := queue.slotOf_ne queue.tail below (by omega)
    rw [← head_eq] at apart
    exact apart
  · rw [← head_eq]
    exact congrArg (fun stored => [stored]) (if_pos rfl)

variable [Movable α]

theorem pop_none_iff : queue.pop = none ↔ queue.contents = [] := by
  rw [← List.length_eq_zero_iff, contents_length]
  by_cases empty : queue.tail = queue.head
  · simp [pop, empty]
  · have less := size_after_pop empty
    simp only [pop, empty, ↓reduceDIte, reduceCtorEq, false_iff]
    omega

/-- A pop that succeeds takes the oldest value. -/
theorem pop_contents {queue next : SpscQueue α} {value : α} (popped : queue.pop = some (value, next)) :
    queue.contents = value :: next.contents := by
  by_cases empty : queue.tail = queue.head
  · simp [pop, empty] at popped
  have less := size_after_pop empty
  have bounded := queue.bounded
  simp only [pop, empty, ↓reduceDIte, Option.some.injEq, Prod.mk.injEq] at popped
  obtain ⟨rfl, rfl⟩ := popped
  simp only [contents, ← less, List.range_succ_eq_map, List.map_cons, List.map_map]
  congr 1
  · simp
  · refine List.map_congr_left fun place member => ?_
    have below := List.mem_range.mp member
    have shifted : queue.tail + UInt64.ofNat (place + 1) = queue.tail + 1 + UInt64.ofNat place := by
      rw [UInt64.ofNat_add, UInt64.add_assoc, UInt64.add_comm 1]
      rfl
    have apart := queue.slotOf_ne queue.tail (Nat.succ_pos place) (by omega)
    simp only [Function.comp, shifted]
    refine (store_ne _ _ ?_).symm
    rw [Nat.succ_eq_add_one, shifted] at apart
    simpa using apart.symm

end SpscQueue
end Exchange
