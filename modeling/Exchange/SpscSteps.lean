import Exchange.SpscQueue

/-! The ring of `spsc_queue.hpp` under two threads. `push` and `pop` are cut at
every access to memory that both threads see: the loads of the two indices, the
slot, the store of the own index. Between its accesses a thread holds copies of
the indices, and the copy of the other thread's index may be old. In whatever
order the accesses come, the slots from the reading index to the writing index
hold what was pushed and not yet popped. -/
namespace Exchange.SpscSteps
open SpscQueue (store)

/-- Where the producer is in `push`, with its locals. -/
inductive Producer (α : Type) where
  | idle
  /-- `head_` is loaded, `tail_` is next. -/
  | readTail (value : α) (head : UInt64)
  /-- Both are loaded: the test, then the slot. -/
  | write (value : α) (head tail : UInt64)
  /-- The slot is written, the store of `head_` is next. -/
  | publish (value : α) (head : UInt64)

/-- Where the consumer is in `pop`, with its locals. -/
inductive Consumer (α : Type) where
  | idle
  | readHead (tail : UInt64)
  | take (tail head : UInt64)
  /-- The value is moved out of its slot, the store of `tail_` is next. -/
  | release (tail : UInt64) (out : α)

/-- The shared ring, both threads, and what their calls have returned. -/
structure Machine (α : Type) where
  capacity : UInt64
  slots : UInt64 → α
  head : UInt64
  tail : UInt64
  producer : Producer α := .idle
  consumer : Consumer α := .idle
  /-- The values of the pushes that returned true. -/
  pushed : List α := []
  /-- The values of the pops that returned true. -/
  popped : List α := []

/-- One access by one thread. An idle producer is called with the value. -/
inductive Move (α : Type) where
  | produce (value : α)
  | consume

variable {α : Type}

namespace Machine

/-- `index & mask_`. -/
def slotOf (machine : Machine α) (index : UInt64) : UInt64 := index &&& (machine.capacity - 1)

/-- The next access of `push`. -/
def produce (machine : Machine α) (value : α) : Machine α :=
  match machine.producer with
  | .idle => { machine with producer := .readTail value machine.head }
  | .readTail value head => { machine with producer := .write value head machine.tail }
  | .write value head tail =>
    if machine.capacity < head + 1 - tail then { machine with producer := .idle }
    else { machine with
      slots := store machine.slots (machine.slotOf head) value
      producer := .publish value head }
  | .publish value head => { machine with
      head := head + 1
      producer := .idle
      pushed := machine.pushed ++ [value] }

/-- The next access of `pop`. -/
def consume [Movable α] (machine : Machine α) : Machine α :=
  match machine.consumer with
  | .idle => { machine with consumer := .readHead machine.tail }
  | .readHead tail => { machine with consumer := .take tail machine.head }
  | .take tail head =>
    if tail = head then { machine with consumer := .idle }
    else
      let slot := machine.slotOf tail
      { machine with
        slots := store machine.slots slot (Movable.moved (machine.slots slot))
        consumer := .release tail (machine.slots slot) }
  | .release tail out => { machine with
      tail := tail + 1
      consumer := .idle
      popped := machine.popped ++ [out] }

def step [Movable α] (machine : Machine α) : Move α → Machine α
  | .produce value => machine.produce value
  | .consume => machine.consume

/-- A new ring whose indices stand anywhere. -/
def start [Inhabited α] (capacity origin : UInt64) : Machine α where
  capacity := capacity
  slots _ := default
  head := origin
  tail := origin

/-- `push` with no access of the consumer in between, and whether it returns true. -/
def pushAlone (machine : Machine α) (value : α) : Bool × Machine α :=
  let tested := ((machine.produce value).produce value).produce value
  match tested.producer with
  | .publish _ _ => (true, tested.produce value)
  | _ => (false, tested)

/-- `pop` with no access of the producer in between. -/
def popAlone [Movable α] (machine : Machine α) : Bool × Machine α :=
  let tested := machine.consume.consume.consume
  match tested.consumer with
  | .release _ _ => (true, tested.consume)
  | _ => (false, tested)

/-- How far the indices are apart. -/
def occupancy (machine : Machine α) : Nat := (machine.head - machine.tail).toNat

/-- The value the consumer has moved out of its slot and not yet returned. -/
def inHand (machine : Machine α) : List α :=
  match machine.consumer with
  | .release _ out => [out]
  | _ => []

/-- The slots that still hold what they were written with, counted from `tail_`. -/
def unread (machine : Machine α) : List α :=
  (List.range' machine.inHand.length (machine.occupancy - machine.inHand.length)).map fun place =>
    machine.slots (machine.slotOf (machine.tail + UInt64.ofNat place))

/-- What is in the queue, oldest first. A value in the consumer's hand is in the
queue until `tail_` is stored. -/
def held (machine : Machine α) : List α := machine.inHand ++ machine.unread

end Machine

open Machine

/-- What the producer may rely on: its own index is current, its copy of the
other one leaves no more room than there is, and a written slot keeps its value. -/
def ProducerFits (machine : Machine α) : Prop :=
  match machine.producer with
  | .idle => True
  | .readTail _ head => head = machine.head
  | .write _ head tail => head = machine.head ∧ machine.occupancy ≤ (head - tail).toNat ∧
      (head - tail).toNat ≤ machine.capacity.toNat
  | .publish value head => head = machine.head ∧ machine.occupancy < machine.capacity.toNat ∧
      machine.slots (machine.slotOf head) = value

/-- What the consumer may rely on: its own index is current, and its copy of
the other one shows no value that is not there. -/
def ConsumerFits (machine : Machine α) : Prop :=
  match machine.consumer with
  | .idle => True
  | .readHead tail => tail = machine.tail
  | .take tail head => tail = machine.tail ∧ (head - tail).toNat ≤ machine.occupancy
  | .release tail _ => tail = machine.tail ∧ 0 < machine.occupancy

/-- The state of the ring between any two accesses. -/
structure Sound (machine : Machine α) : Prop where
  powerOfTwo : ∃ exponent < 64, machine.capacity.toNat = 2 ^ exponent
  bounded : machine.occupancy ≤ machine.capacity.toNat
  producer : ProducerFits machine
  consumer : ConsumerFits machine

/-- One access seen by a bounded queue: nothing, a value that goes in at the
back while there is room, or the value at the front that goes out. -/
inductive FifoStep (before after : Machine α) : Prop where
  | nothing (pushed : after.pushed = before.pushed) (popped : after.popped = before.popped)
      (held : after.held = before.held)
  | push (value : α) (room : before.held.length < before.capacity.toNat)
      (pushed : after.pushed = before.pushed ++ [value]) (popped : after.popped = before.popped)
      (held : after.held = before.held ++ [value])
  | pop (value : α) (pushed : after.pushed = before.pushed) (popped : after.popped = before.popped ++ [value])
      (held : before.held = value :: after.held)

/-! ## Indices and slots -/

variable {machine : Machine α}

/-- The ring without its threads. -/
def ring (sound : Sound machine) : SpscQueue α where
  capacity := machine.capacity
  slots := machine.slots
  head := machine.head
  tail := machine.tail
  powerOfTwo := sound.powerOfTwo
  bounded := sound.bounded

/-- Places of the ring that are not a whole turn apart are different slots. -/
theorem slotOf_ne (sound : Sound machine) {first second : Nat} (before : first < second)
    (near : second - first < machine.capacity.toNat) :
    machine.slotOf (machine.tail + UInt64.ofNat first) ≠ machine.slotOf (machine.tail + UInt64.ofNat second) :=
  (ring sound).slotOf_ne machine.tail before near

theorem head_place (sound : Sound machine) : machine.tail + UInt64.ofNat machine.occupancy = machine.head :=
  (ring sound).head_eq.symm

theorem occupancy_published (sound : Sound machine) :
    (machine.head + 1 - machine.tail).toNat = machine.occupancy + 1 :=
  (ring sound).size_after_push

theorem occupancy_released (filled : 0 < machine.occupancy) :
    (machine.head - (machine.tail + 1)).toNat = machine.occupancy - 1 := by
  have apart : machine.tail ≠ machine.head := by
    intro same
    simp [occupancy, same] at filled
  have less := SpscQueue.size_after_pop apart
  rw [occupancy]
  omega

theorem capacity_small (sound : Sound machine) : machine.capacity.toNat ≤ 2 ^ 63 := (ring sound).capacity_small

theorem place_succ (index : UInt64) (place : Nat) :
    index + 1 + UInt64.ofNat place = index + UInt64.ofNat (place + 1) := by
  rw [UInt64.ofNat_add, UInt64.add_assoc, UInt64.add_comm 1]
  rfl

/-- At most one value is in hand, and then it is one of the queue's. -/
theorem inHand_length (sound : Sound machine) : machine.inHand.length ≤ machine.occupancy := by
  have fits := sound.consumer
  unfold ConsumerFits at fits
  unfold inHand
  cases phase : machine.consumer with
  | release tail out =>
    simp only [phase] at fits
    exact fits.2
  | idle => exact Nat.zero_le _
  | readHead tail => exact Nat.zero_le _
  | take tail head => exact Nat.zero_le _

theorem held_length (sound : Sound machine) : machine.held.length = machine.occupancy := by
  have least := inHand_length sound
  simp only [held, unread, List.length_append, List.length_map, List.length_range']
  omega

/-- What the unread slots are: the places from `tail_` up to `head_`. -/
theorem place_bound (sound : Sound machine) {place : Nat}
    (member : place ∈ List.range' machine.inHand.length (machine.occupancy - machine.inHand.length)) :
    machine.inHand.length ≤ place ∧ place < machine.occupancy := by
  have least := inHand_length sound
  rw [List.mem_range'_1] at member
  omega

/-! ## The two threads -/

/-- The producer's slot is free: nothing that is held is overwritten. -/
theorem held_write (sound : Sound machine) (room : machine.occupancy < machine.capacity.toNat) (value : α)
    (producer : Producer α) :
    { machine with slots := store machine.slots (machine.slotOf machine.head) value, producer }.held =
      machine.held := by
  refine congrArg (machine.inHand ++ ·) (List.map_congr_left fun place member => ?_)
  obtain ⟨-, below⟩ := place_bound sound member
  refine SpscQueue.store_ne _ _ ?_
  rw [← head_place sound]
  exact slotOf_ne sound below (by omega)

/-- Storing `head_` puts the written slot into the queue. -/
theorem held_publish (sound : Sound machine) (producer : Producer α) (pushed : List α) :
    { machine with head := machine.head + 1, producer, pushed }.held =
      machine.held ++ [machine.slots (machine.slotOf machine.head)] := by
  have least := inHand_length sound
  have grown : { machine with head := machine.head + 1, producer, pushed }.occupancy = machine.occupancy + 1 :=
    occupancy_published sound
  have more : machine.occupancy + 1 - machine.inHand.length =
      machine.occupancy - machine.inHand.length + 1 := by omega
  have last : machine.inHand.length + (machine.occupancy - machine.inHand.length) = machine.occupancy := by omega
  unfold held unread
  rw [grown]
  change machine.inHand ++ (List.range' machine.inHand.length (machine.occupancy + 1 - machine.inHand.length)).map
    (fun place => machine.slots (machine.slotOf (machine.tail + UInt64.ofNat place))) = _
  rw [more, List.range'_1_concat, List.map_append, last, List.append_assoc, List.map_singleton, head_place sound]

/-- Moving the oldest value out of its slot leaves it in the queue. -/
theorem held_take (sound : Sound machine) (filled : 0 < machine.occupancy) (empty : machine.inHand = [])
    (moved : α) :
    { machine with
      slots := store machine.slots (machine.slotOf machine.tail) moved
      consumer := .release machine.tail (machine.slots (machine.slotOf machine.tail)) }.held = machine.held := by
  have bounded := sound.bounded
  obtain ⟨more, count⟩ : ∃ more, machine.occupancy = more + 1 := ⟨machine.occupancy - 1, by omega⟩
  have first : machine.tail + UInt64.ofNat 0 = machine.tail := by simp
  unfold held unread
  rw [empty, List.length_nil, Nat.sub_zero, count, List.range'_succ, List.map_cons, first, List.nil_append]
  refine congrArg (machine.slots (machine.slotOf machine.tail) :: ·) ?_
  change (List.range' 1 (machine.occupancy - 1)).map _ = _
  rw [count]
  refine List.map_congr_left fun place member => ?_
  rw [List.mem_range'_1] at member
  refine SpscQueue.store_ne _ _ ?_
  have apart := slotOf_ne sound (show 0 < place by omega) (by omega)
  rw [first] at apart
  exact apart.symm

/-- Storing `tail_` takes the value in hand out of the queue. -/
theorem held_release {out : α} (consumer : machine.consumer = .release machine.tail out)
    (filled : 0 < machine.occupancy) (popped : List α) :
    machine.held = out :: { machine with tail := machine.tail + 1, consumer := .idle, popped }.held := by
  have less : { machine with tail := machine.tail + 1, consumer := .idle, popped }.occupancy =
      machine.occupancy - 1 := occupancy_released filled
  have hand : machine.inHand = [out] := by simp [inHand, consumer]
  unfold held unread
  rw [hand, less]
  refine congrArg (out :: ·) ?_
  change (List.range' 1 (machine.occupancy - 1)).map _ = (List.range' 0 (machine.occupancy - 1)).map _
  rw [List.range'_eq_map_range, List.range'_eq_map_range, List.map_map, List.map_map]
  refine List.map_congr_left fun place _ => ?_
  simp only [Function.comp]
  change _ = machine.slots (machine.slotOf (machine.tail + 1 + UInt64.ofNat (0 + place)))
  rw [Nat.zero_add, place_succ, Nat.add_comm 1]

/-- Every access of `push` keeps the ring sound and is a step of a bounded queue. -/
theorem produce_fifo (sound : Sound machine) (value : α) :
    Sound (machine.produce value) ∧ FifoStep machine (machine.produce value) := by
  have fits := sound.producer
  have small := capacity_small sound
  unfold ProducerFits at fits
  unfold produce
  cases phase : machine.producer with
  | idle => exact ⟨⟨sound.powerOfTwo, sound.bounded, rfl, sound.consumer⟩, .nothing rfl rfl rfl⟩
  | readTail value head =>
    simp only [phase] at fits
    subst fits
    exact ⟨⟨sound.powerOfTwo, sound.bounded, ⟨rfl, Nat.le_refl _, sound.bounded⟩, sound.consumer⟩,
      .nothing rfl rfl rfl⟩
  | write value head tail =>
    simp only [phase] at fits
    obtain ⟨rfl, atLeast, atMost⟩ := fits
    simp only
    split
    · exact ⟨⟨sound.powerOfTwo, sound.bounded, trivial, sound.consumer⟩, .nothing rfl rfl rfl⟩
    · -- The copy of `tail_` may be old; the room it shows is still there.
      rename_i open_
      have room : machine.occupancy < machine.capacity.toNat := by
        rw [UInt64.lt_iff_toNat_lt] at open_
        have first := machine.head.toNat_lt
        have second := tail.toNat_lt
        simp only [UInt64.toNat_sub, UInt64.toNat_add, UInt64.toNat_one] at open_ atLeast atMost
        omega
      refine ⟨⟨sound.powerOfTwo, sound.bounded, ⟨rfl, room, if_pos rfl⟩, sound.consumer⟩, ?_⟩
      exact .nothing rfl rfl (held_write sound room value _)
  | publish value head =>
    simp only [phase] at fits
    obtain ⟨rfl, room, stored⟩ := fits
    have grown := occupancy_published sound
    have count := held_length sound
    have put := held_publish sound .idle (machine.pushed ++ [value])
    rw [stored] at put
    refine ⟨⟨sound.powerOfTwo, ?_, trivial, ?_⟩, .push value (by omega) rfl rfl put⟩
    · change (machine.head + 1 - machine.tail).toNat ≤ machine.capacity.toNat
      omega
    · have fits := sound.consumer
      unfold ConsumerFits at fits ⊢
      simp only
      cases consuming : machine.consumer with
      | idle => trivial
      | readHead tail => simpa only [consuming] using fits
      | take tail head =>
        simp only [consuming] at fits ⊢
        refine ⟨fits.1, ?_⟩
        change _ ≤ (machine.head + 1 - machine.tail).toNat
        omega
      | release tail out =>
        simp only [consuming] at fits ⊢
        refine ⟨fits.1, ?_⟩
        change _ < (machine.head + 1 - machine.tail).toNat
        omega

/-- A pop takes nothing from the room the producer has seen. -/
theorem producerFits_release (sound : Sound machine) (filled : 0 < machine.occupancy) (consumer : Consumer α)
    (popped : List α) : ProducerFits { machine with tail := machine.tail + 1, consumer, popped } := by
  have less : { machine with tail := machine.tail + 1, consumer, popped }.occupancy = machine.occupancy - 1 :=
    occupancy_released filled
  have fits := sound.producer
  unfold ProducerFits at fits ⊢
  rw [less]
  simp only
  cases producing : machine.producer with
  | idle => trivial
  | readTail value head => simpa only [producing] using fits
  | write value head tail =>
    simp only [producing] at fits ⊢
    exact ⟨fits.1, by omega, fits.2.2⟩
  | publish value head =>
    simp only [producing] at fits ⊢
    exact ⟨fits.1, by omega, fits.2.2⟩

/-- A written slot is not the one that is moved out of. -/
theorem producerFits_take (sound : Sound machine) (filled : 0 < machine.occupancy) (moved : α)
    (consumer : Consumer α) :
    ProducerFits { machine with slots := store machine.slots (machine.slotOf machine.tail) moved, consumer } := by
  have fits := sound.producer
  unfold ProducerFits at fits ⊢
  simp only
  cases producing : machine.producer with
  | idle => trivial
  | readTail value head => simpa only [producing] using fits
  | write value head tail =>
    simp only [producing] at fits
    exact fits
  | publish value head =>
    simp only [producing] at fits ⊢
    obtain ⟨rfl, room, stored⟩ := fits
    have first : machine.tail + UInt64.ofNat 0 = machine.tail := by simp
    have apart := slotOf_ne sound filled (by omega)
    rw [head_place sound, first] at apart
    refine ⟨rfl, room, ?_⟩
    rw [← stored]
    exact SpscQueue.store_ne _ _ apart.symm

/-- Every access of `pop` keeps the ring sound and is a step of a bounded queue. -/
theorem consume_fifo [Movable α] (sound : Sound machine) :
    Sound machine.consume ∧ FifoStep machine machine.consume := by
  have fits := sound.consumer
  unfold ConsumerFits at fits
  unfold consume
  cases phase : machine.consumer with
  | idle =>
    have same : { machine with consumer := .readHead machine.tail }.held = machine.held := by
      simp [held, unread, inHand, phase, occupancy, slotOf]
    exact ⟨⟨sound.powerOfTwo, sound.bounded, sound.producer, rfl⟩, .nothing rfl rfl same⟩
  | readHead tail =>
    simp only [phase] at fits
    subst fits
    have same : { machine with consumer := .take machine.tail machine.head }.held = machine.held := by
      simp [held, unread, inHand, phase, occupancy, slotOf]
    exact ⟨⟨sound.powerOfTwo, sound.bounded, sound.producer, ⟨rfl, Nat.le_refl _⟩⟩, .nothing rfl rfl same⟩
  | take tail head =>
    simp only [phase] at fits
    obtain ⟨rfl, atMost⟩ := fits
    simp only
    split
    · have same : { machine with consumer := .idle }.held = machine.held := by
        simp [held, unread, inHand, phase, occupancy, slotOf]
      exact ⟨⟨sound.powerOfTwo, sound.bounded, sound.producer, trivial⟩, .nothing rfl rfl same⟩
    · -- The copy of `head_` may be old; the value it shows is still there.
      rename_i apart
      have filled : 0 < machine.occupancy := by
        have seen : (head - machine.tail).toNat ≠ 0 := by
          intro none
          have zero : head - machine.tail = 0 := UInt64.toNat_inj.mp none
          exact apart (sub_eq_zero.mp zero).symm
        omega
      have empty : machine.inHand = [] := by simp [inHand, phase]
      refine ⟨⟨sound.powerOfTwo, sound.bounded, producerFits_take sound filled _ _, ⟨rfl, filled⟩⟩, ?_⟩
      exact .nothing rfl rfl (held_take sound filled empty _)
  | release tail out =>
    simp only [phase] at fits
    obtain ⟨rfl, filled⟩ := fits
    have bounded := sound.bounded
    have less := occupancy_released filled
    refine ⟨⟨sound.powerOfTwo, ?_, producerFits_release sound filled _ _, trivial⟩, ?_⟩
    · change (machine.head - (machine.tail + 1)).toNat ≤ machine.capacity.toNat
      omega
    · exact .pop out rfl rfl (held_release phase filled _)

theorem step_fifo [Movable α] (sound : Sound machine) (move : Move α) :
    Sound (machine.step move) ∧ FifoStep machine (machine.step move) := by
  cases move with
  | produce value => exact produce_fifo sound value
  | consume => exact consume_fifo sound

/-- The capacity never changes. -/
theorem step_capacity [Movable α] (machine : Machine α) (move : Move α) :
    (machine.step move).capacity = machine.capacity := by
  cases move with
  | produce value =>
    simp only [step, produce]
    split <;> try split
    all_goals rfl
  | consume =>
    simp only [step, consume]
    split <;> try split
    all_goals rfl

/-! ## Calls without interleaving -/

/-- Alone, `push` does to the ring what the ring's push as one step does. -/
theorem pushAlone_push (sound : Sound machine) (idle : machine.producer = .idle) (value : α) :
    machine.pushAlone value = match (ring sound).push value with
      | none => (false, machine)
      | some next => (true, { machine with
          slots := next.slots, head := next.head, pushed := machine.pushed ++ [value] }) := by
  have same : { machine with producer := .idle } = machine := by rw [← idle]
  by_cases full : machine.capacity < machine.head + 1 - machine.tail
  · have refused : (ring sound).push value = none := dif_pos full
    simp only [pushAlone, produce, idle, full, ↓reduceIte, refused, same]
  · have taken : ∃ bounded, (ring sound).push value = some { ring sound with
        slots := store machine.slots (machine.slotOf machine.head) value, head := machine.head + 1, bounded } :=
      ⟨_, dif_neg full⟩
    obtain ⟨bounded, taken⟩ := taken
    simp only [pushAlone, produce, idle, full, ↓reduceIte, taken]
    rfl

/-- Alone, `pop` does to the ring what the ring's pop as one step does. -/
theorem popAlone_pop [Movable α] (sound : Sound machine) (idle : machine.consumer = .idle) :
    machine.popAlone = match (ring sound).pop with
      | none => (false, machine)
      | some (out, next) => (true, { machine with
          slots := next.slots, tail := next.tail, popped := machine.popped ++ [out] }) := by
  have same : { machine with consumer := .idle } = machine := by rw [← idle]
  by_cases empty : machine.tail = machine.head
  · have refused : (ring sound).pop = none := dif_pos empty
    simp only [popAlone, consume, idle, if_pos empty, refused, same]
  · obtain ⟨bounded, taken⟩ : ∃ bounded, (ring sound).pop =
        some (machine.slots (machine.slotOf machine.tail), { ring sound with
          slots := store machine.slots (machine.slotOf machine.tail)
            (Movable.moved (machine.slots (machine.slotOf machine.tail)))
          tail := machine.tail + 1
          bounded }) :=
      ⟨_, dif_neg empty⟩
    simp only [popAlone, consume, idle, if_neg empty, taken]
    rfl

/-- Alone, `push` fails exactly on a full queue. -/
theorem pushAlone_fails_iff (sound : Sound machine) (idle : machine.producer = .idle) (value : α) :
    (machine.pushAlone value).1 = false ↔ machine.held.length = machine.capacity.toNat := by
  have size : (ring sound).contents.length = machine.held.length := by
    rw [SpscQueue.contents_length, held_length sound]
    rfl
  have full : (ring sound).push value = none ↔ machine.held.length = machine.capacity.toNat := by
    rw [← size]
    exact (ring sound).push_none_iff value
  rw [pushAlone_push sound idle]
  cases pushed : (ring sound).push value with
  | none => simpa [pushed] using full
  | some next =>
    simp only [pushed, reduceCtorEq, false_iff] at full
    simpa using full

/-- Alone, `pop` fails exactly on an empty queue. -/
theorem popAlone_fails_iff [Movable α] (sound : Sound machine) (idle : machine.consumer = .idle) :
    machine.popAlone.1 = false ↔ machine.held = [] := by
  have size : (ring sound).contents.length = machine.held.length := by
    rw [SpscQueue.contents_length, held_length sound]
    rfl
  have empty := (ring sound).pop_none_iff
  rw [← List.length_eq_zero_iff, size, List.length_eq_zero_iff] at empty
  rw [popAlone_pop sound idle]
  cases popped : (ring sound).pop with
  | none => simpa [popped] using empty
  | some taken =>
    simp only [popped, reduceCtorEq, false_iff] at empty
    simpa using empty

/-! ## Rounding the capacity -/

/-- The loop ends at the first power of two that is large enough. -/
theorem doubleUpTo_least {v : UInt64} (small : v.toNat ≤ 2 ^ 63) (fuel exponent : Nat) (p : UInt64)
    (fits : exponent + fuel = 64) (more : 0 < fuel) (power : p.toNat = 2 ^ exponent)
    (short : ∀ k < exponent, 2 ^ k < v.toNat) :
    ∃ result k, SpscQueue.doubleUpTo v fuel p = some result ∧ result.toNat = 2 ^ k ∧ v.toNat ≤ 2 ^ k ∧
      ∀ j < k, 2 ^ j < v.toNat := by
  induction fuel generalizing exponent p with
  | zero => omega
  | succ fuel ih =>
    rw [SpscQueue.doubleUpTo]
    split
    · rename_i below
      rw [UInt64.lt_iff_toNat_lt, power] at below
      have room : exponent < 63 := by
        by_contra high
        have top : 2 ^ 63 ≤ 2 ^ exponent := Nat.pow_le_pow_right (by omega) (by omega)
        omega
      have bound : 2 ^ (exponent + 1) < 2 ^ 64 := Nat.pow_lt_pow_right (by omega) (by omega)
      refine ih (exponent + 1) (p <<< 1) (by omega) (by omega) ?_ fun k less => ?_
      · rw [UInt64.toNat_shiftLeft, power, Nat.shiftLeft_eq]
        change 2 ^ exponent * 2 ^ 1 % 2 ^ 64 = _
        rw [← Nat.pow_add, Nat.mod_eq_of_lt bound]
      · rcases Nat.lt_succ_iff_lt_or_eq.mp less with earlier | rfl
        · exact short k earlier
        · exact below
    · rename_i enough
      rw [UInt64.lt_iff_toNat_lt, power] at enough
      exact ⟨p, exponent, rfl, power, by omega, short⟩

/-- `round_up_pow2` finds the least power of two that is not below the request. -/
theorem roundUpPow2_least {capacity : UInt64} (small : capacity.toNat ≤ 2 ^ 63) :
    ∃ rounded, SpscQueue.roundUpPow2 capacity = some rounded ∧
      IsLeast { power | max capacity.toNat 1 ≤ power ∧ ∃ k, power = 2 ^ k } rounded.toNat := by
  obtain ⟨rounded, k, found, power, enough, least⟩ :=
    doubleUpTo_least small 64 0 1 rfl (by omega) rfl (by simp)
  have positive := Nat.two_pow_pos k
  refine ⟨rounded, found, ⟨by rw [power]; omega, k, power⟩, ?_⟩
  rintro _ ⟨above, j, rfl⟩
  rw [power]
  by_contra less
  have before : j < k := (Nat.pow_lt_pow_iff_right (by omega)).mp (not_le.mp less)
  have short := least j before
  omega

/-! ## Every schedule -/

theorem start_sound [Inhabited α] {capacity : UInt64} (power : ∃ exponent < 64, capacity.toNat = 2 ^ exponent)
    (origin : UInt64) : Sound (start capacity origin : Machine α) :=
  ⟨power, by simp [start, occupancy], trivial, trivial⟩

/-- What a run of accesses has shown: the values popped and the values held are
the values pushed, in order, and the held ones fit the ring; the next access,
whichever it is, is a step of a bounded queue; and a call that runs alone fails
only on a full or an empty queue. -/
structure BoundedFifo [Movable α] (machine : Machine α) (capacity : Nat) : Prop where
  order : machine.pushed = machine.popped ++ machine.held
  room : machine.held.length ≤ capacity
  next : ∀ move, FifoStep machine (machine.step move)
  pushFails : ∀ value, machine.producer = .idle →
    ((machine.pushAlone value).1 = false ↔ machine.held.length = capacity)
  popFails : machine.consumer = .idle → (machine.popAlone.1 = false ↔ machine.held = [])

theorem order_kept {before after : Machine α} (fifo : FifoStep before after)
    (order : before.pushed = before.popped ++ before.held) : after.pushed = after.popped ++ after.held := by
  cases fifo with
  | nothing pushed popped held => rw [pushed, popped, held, order]
  | push value room pushed popped held => rw [pushed, popped, held, order, List.append_assoc]
  | pop value pushed popped held => rw [pushed, popped, order, held, List.append_assoc, List.singleton_append]

theorem run_sound [Movable α] (moves : List (Move α)) (sound : Sound machine)
    (order : machine.pushed = machine.popped ++ machine.held) :
    Sound (moves.foldl step machine) ∧ (moves.foldl step machine).capacity = machine.capacity ∧
      (moves.foldl step machine).pushed = (moves.foldl step machine).popped ++ (moves.foldl step machine).held := by
  induction moves generalizing machine with
  | nil => exact ⟨sound, rfl, order⟩
  | cons move moves ih =>
    obtain ⟨nextSound, fifo⟩ := step_fifo sound move
    obtain ⟨lastSound, capacity, lastOrder⟩ := ih nextSound (order_kept fifo order)
    exact ⟨lastSound, capacity.trans (step_capacity machine move), lastOrder⟩

/-- The ring refines a bounded queue of the least power of two that is not below
the requested capacity, under every interleaving of the accesses of one producer
and one consumer and wherever the indices start. -/
theorem ring_refines_bounded_fifo [Inhabited α] [Movable α] (capacity : UInt64)
    (small : capacity.toNat ≤ 2 ^ 63) (origin : UInt64) (moves : List (Move α)) :
    ∃ rounded, SpscQueue.roundUpPow2 capacity = some rounded ∧
      IsLeast { power | max capacity.toNat 1 ≤ power ∧ ∃ k, power = 2 ^ k } rounded.toNat ∧
      BoundedFifo (moves.foldl step (start rounded origin : Machine α)) rounded.toNat := by
  obtain ⟨rounded, found, least⟩ := roundUpPow2_least small
  have initial := start_sound (α := α) (SpscQueue.roundUpPow2_power found) origin
  obtain ⟨sound, width, order⟩ := run_sound moves initial (by simp [start, held, unread, inHand, occupancy])
  change _ = rounded at width
  refine ⟨rounded, found, least, order, ?_, fun move => (step_fifo sound move).2, fun value idle => ?_,
    popAlone_fails_iff sound⟩
  · rw [held_length sound]
    have bounded := sound.bounded
    rwa [width] at bounded
  · rw [pushAlone_fails_iff sound idle, width]

instance : Movable Nat := ⟨id⟩

/-- A ring for three, its indices about to wrap, with a push between the two
loads of a pop. -/
theorem wrapping_ring_refines :
    ∃ rounded, SpscQueue.roundUpPow2 3 = some rounded ∧
      IsLeast { power | max (3 : UInt64).toNat 1 ≤ power ∧ ∃ k, power = 2 ^ k } rounded.toNat ∧
      BoundedFifo ([Move.produce 7, .produce 7, .consume, .produce 7, .produce 7, .consume].foldl step
        (start rounded 18446744073709551615 : Machine Nat)) rounded.toNat :=
  ring_refines_bounded_fifo 3 (by decide) 18446744073709551615 _

end Exchange.SpscSteps
