import Exchange.PoolLayout

/-! What lies in the blocks of the pool. A link is only ever written into a free
block, so an owner finds in its block what it has written there, and the free
list is found as it was left. -/
namespace Exchange.LinkedPool
open ByteMemory (storeWord loadWord pushAll Range Chain)
open PoolResource (blockSize kBlocksPerChunk)

variable {world : World} {nodes rest : List UInt64} {held : Holding} {slot chunk address : UInt64} {own : Given}

/-- The list is linked through the free blocks, and blocks in use hold what was
written into them. -/
structure Stored (world : World) (nodes : List UInt64) : Prop where
  free : Chain world.bytes world.pool.free nodes
  written : ∀ held ∈ world.live, ∀ offset byte, held.written offset = some byte →
    offset < held.size ∧ world.bytes (held.address.toNat + offset) = byte

/-- Memory is laid out around these free blocks, and holds what it should. -/
def Holds (world : World) (nodes : List UInt64) : Prop := Laid world nodes ∧ Stored world nodes

def Kept (world : World) : Prop := ∃ nodes, Holds world nodes

/-! ## Parts that do not meet -/

theorem cell_base (pool : LinkedPool) (held : Holding) : (cell pool held).base = held.address.toNat := by
  by_cases pooled : Pooled pool held
  · rw [cell_pooled pooled, slotRange]
  · rw [cell_whole pooled]

section
variable (laid : Laid world nodes)
include laid

theorem slot_apart (free : slot ∈ nodes) (used : held ∈ world.live) :
    (slotRange world.pool slot).Apart (cell world.pool held) :=
  (List.pairwise_append.mp laid.parted).2.2 _ (List.mem_map_of_mem free) _ (List.mem_map_of_mem used)

theorem live_apart : world.live.Pairwise fun first second => (cell world.pool first).Apart (cell world.pool second) :=
  List.pairwise_map.mp (List.pairwise_append.mp laid.parted).2.1

/-- Blocks in use are told apart by where they are. -/
theorem cell_apart {other : Holding} (used : held ∈ world.live) (also : other ∈ world.live)
    (different : other ≠ held) :
    (cell world.pool other).Apart (cell world.pool held) :=
  Range.apart_of_mem (live_apart laid) also used different

theorem same_holding {other : Holding} (used : held ∈ world.live) (also : other ∈ world.live)
    (place : other.address = held.address) : other = held := by
  by_contra different
  have apart := cell_apart laid used also different
  have bases := apart.base_ne (cell_placed laid also).2.2.2.1 (cell_placed laid used).2.2.2.1
  rw [cell_base, cell_base, place] at bases
  exact bases rfl

/-- What is taken out of the blocks in use by its address. -/
theorem erased (used : held ∈ world.live) :
    world.live.Perm (held :: world.live.eraseP fun other => other.address = held.address) := by
  obtain ⟨other, before, behind, -, place, split, erased⟩ :=
    List.exists_of_eraseP (p := fun other : Holding => other.address = held.address) used (decide_eq_true rfl)
  have also : other ∈ world.live := by
    rw [split]
    exact List.mem_append_right _ (List.mem_cons_self ..)
  obtain rfl := same_holding laid used also (of_decide_eq_true place)
  rw [erased]
  exact (List.Perm.of_eq split).trans List.perm_middle

/-- The memory of a block in use, as `::operator new` gave it. -/
theorem own_given {address : Nat} (used : held ∈ world.live) (covers : held.range.Covers address) :
    ∃ own ∈ world.given, own.range.Covers address := by
  obtain ⟨-, -, within, -, own, given, outer⟩ := cell_placed laid used
  obtain ⟨low, high⟩ := within.trans outer
  exact ⟨own, given, Nat.le_trans low covers.1, Nat.lt_of_lt_of_le covers.2 high⟩

theorem link_within (free : slot ∈ nodes) : Range.Within ⟨slot.toNat, 8⟩ (slotRange world.pool slot) := by
  obtain ⟨-, -, low, -⟩ := slot_placed laid (laid.slots slot free)
  exact ⟨Nat.le_refl _, Nat.add_le_add_left low _⟩

end

/-- Memory may change where nothing is in use and no link lies. -/
theorem stored_frame (stored : Stored world nodes) {bytes : Nat → UInt8}
    (links : ∀ slot ∈ nodes, ∀ address, Range.Covers ⟨slot.toNat, 8⟩ address →
      bytes address = world.bytes address)
    (contents : ∀ held ∈ world.live, ∀ address, held.range.Covers address →
      bytes address = world.bytes address) :
    Stored { world with bytes } nodes where
  free := stored.free.frame fun slot member k within =>
    links slot member _ ⟨Nat.le_add_right _ _, Nat.add_lt_add_left within _⟩
  written := by
    intro held member offset byte wrote
    obtain ⟨within, found⟩ := stored.written held member offset byte wrote
    have same := contents held member _ ⟨Nat.le_add_right _ _, Nat.add_lt_add_left within _⟩
    exact ⟨within, same.trans found⟩

/-- A new block holds nothing its owner has written. -/
theorem written_new (stored : Stored world nodes) (type : ObjectType) (n : UInt64) :
    ∀ held ∈ (⟨address, type, n, fun _ => none⟩ : Holding) :: world.live, ∀ offset byte,
      held.written offset = some byte → offset < held.size ∧ world.bytes (held.address.toNat + offset) = byte :=
  List.forall_mem_cons.mpr ⟨fun _ _ wrote => absurd wrote (by simp), stored.written⟩

/-! ## Requests -/

/-- A single object of this type comes from a chunk. -/
def Suits (pool : LinkedPool) (type : ObjectType) : Prop :=
  pool.block ≠ 0 ∧ type.need = pool.block ∧ type.align = pool.align

/-- The pool once a single object of this type has been requested. -/
def settled (pool : LinkedPool) (type : ObjectType) : LinkedPool :=
  if pool.block = 0 then { pool with block := type.need, align := type.align } else pool

/-- The free blocks a request finds, those of a new chunk if there were none. -/
def available (pool : LinkedPool) (nodes : List UInt64) (new : Option UInt64) : List UInt64 :=
  if nodes = [] then (new.elim [] (slotsOf pool)).reverse else nodes

/-- Single objects like those of the first request come from the free list, and
all else from `::operator new`. -/
theorem allocate_cases (pool : LinkedPool) (bytes : Nat → UInt8) (type : ObjectType) (n : UInt64)
    (new : Option UInt64) :
    n = 1 ∧ Suits (settled pool type) type ∧
        PoolAllocator.allocate pool bytes type n new = (settled pool type).pop bytes new ∨
      (n = 1 → ¬ Suits pool type) ∧ (pool.block = 0 → n ≠ 1) ∧
        PoolAllocator.allocate pool bytes type n new = pool.fallback bytes (n * type.bytes) type.align new := by
  rw [PoolAllocator.allocate]
  split
  · rename_i several
    exact .inr ⟨fun one => absurd one several, fun _ => several, rfl⟩
  rename_i single
  obtain rfl := not_ne_iff.mp single
  rw [LinkedPool.allocate]
  split
  · -- The first request: from here on the pool takes what is like it.
    rename_i unset
    have low := type.le_need
    have set : type.need ≠ 0 := by
      intro zero
      rw [zero, UInt64.toNat_zero] at low
      omega
    rw [settled, if_pos unset]
    exact .inl ⟨rfl, ⟨set, rfl, rfl⟩, rfl⟩
  rename_i set
  split
  · rename_i other
    refine .inr ⟨fun _ suits => ?_, fun unset => absurd unset set, by rw [UInt64.one_mul]⟩
    exact other.elim (absurd suits.2.1) (absurd suits.2.2)
  · rename_i same
    rw [not_or, not_ne_iff, not_ne_iff] at same
    rw [settled, if_neg set]
    exact .inl ⟨rfl, ⟨set, same⟩, rfl⟩

theorem pop_grown (empty : world.pool.free = 0) : world.pool.pop world.bytes (some chunk) =
    { pool := { (world.pool.grow world.bytes chunk).1 with
        free := loadWord (world.pool.grow world.bytes chunk).2 (world.pool.grow world.bytes chunk).1.free.toNat }
      bytes := (world.pool.grow world.bytes chunk).2
      block := some (world.pool.grow world.bytes chunk).1.free
      given := some (chunkGiven world.pool chunk) } := by
  simp only [pop, if_pos empty, grow_eq, chunkGiven]

theorem holds_settled (holds : Holds world nodes) (type : ObjectType) :
    Holds { world with pool := settled world.pool type } nodes := by
  rw [settled]
  split
  · rename_i unset
    exact ⟨laid_settled holds.1 unset type, holds.2.free, holds.2.written⟩
  · exact holds

theorem holds_taken {type : ObjectType} (holds : Holds world (slot :: rest)) (suits : Suits world.pool type) :
    world.pool.free = slot ∧ Holds { world with
      pool := { world.pool with free := loadWord world.bytes world.pool.free.toNat }
      live := ⟨world.pool.free, type, 1, fun _ => none⟩ :: world.live } rest := by
  obtain ⟨laid, stored⟩ := holds
  have chain := stored.free
  generalize first : world.pool.free = head at chain
  cases chain with
  | cons some behind =>
    have popped : Laid { world with live := ⟨slot, type, 1, fun _ => none⟩ :: world.live } rest :=
      laid_popped laid rfl ⟨rfl, suits⟩
    exact ⟨rfl, laid_frame popped rfl rfl rfl (.refl _) rfl, behind, written_new stored type 1⟩

theorem holds_grown (holds : Holds world []) (set : world.pool.block ≠ 0)
    (fresh : Fresh world.given (chunkGiven world.pool chunk)) :
    Holds { world with
      pool := (world.pool.grow world.bytes chunk).1
      bytes := (world.pool.grow world.bytes chunk).2
      given := chunkGiven world.pool chunk :: world.given } (slotsOf world.pool chunk).reverse := by
  obtain ⟨laid, stored⟩ := holds
  have grown := laid_grown laid set fresh
  have room := chunk_room grown (List.mem_append_right _ (List.mem_singleton_self chunk))
  have free {slot : UInt64} (new : slot ∈ slotsOf world.pool chunk) :
      slot ∈ (slotsOf world.pool chunk).reverse ++ [] :=
    List.mem_append_left _ (List.mem_reverse.mpr new)
  have apart : (slotsOf world.pool chunk).Pairwise fun first second =>
      Range.Apart ⟨first.toNat, 8⟩ ⟨second.toNat, 8⟩ :=
    (List.pairwise_map.mp (slots_apart room)).imp_of_mem fun first second apart =>
      ((apart.within (link_within grown (free first))).symm.within (link_within grown (free second))).symm
  rw [grow_eq]
  generalize slotsOf world.pool chunk = slots at *
  have chain := stored.free.pushAll (fun slot new => (slot_placed grown (grown.slots slot (free new))).1) apart
    fun _ _ _ none => absurd none List.not_mem_nil
  rw [← List.append_nil slots.reverse]
  refine ⟨laid_frame grown rfl rfl rfl (.refl _) rfl, chain, ?_⟩
  intro held used offset byte wrote
  obtain ⟨within, found⟩ := stored.written held used offset byte wrote
  have covers : held.range.Covers (held.address.toNat + offset) :=
    ⟨Nat.le_add_right _ _, Nat.add_lt_add_left within _⟩
  refine ⟨within, .trans (ByteMemory.pushAll_apart (fun slot new => ?_) covers) found⟩
  have apart := (slot_apart grown (free new) used).within (link_within grown (free new))
  exact (apart.symm.within (cell_placed grown used).2.2.1).symm

theorem slotsOf_ne_nil (pool : LinkedPool) (chunk : UInt64) : (slotsOf pool chunk).reverse ≠ [] := by
  simp [slotsOf, kBlocksPerChunk]

/-- The first of the free blocks is handed out. -/
theorem holds_popped (holds : Holds world nodes) {type : ObjectType} (suits : Suits world.pool type)
    (new : Option UInt64)
    (fresh : ∀ given ∈ (world.pool.pop world.bytes new).given, Fresh world.given given) :
    (world.pool.pop world.bytes new).block = (available world.pool nodes new).head? ∧
      Holds (world.granted type 1 (world.pool.pop world.bytes new)) (available world.pool nodes new).tail := by
  have headed := holds.2.free.head_eq_zero
  cases nodes with
  | nil =>
    have empty := headed.mpr rfl
    cases new with
    | none =>
      rw [pop, if_pos empty]
      exact ⟨rfl, holds⟩
    | some chunk =>
      rw [pop_grown empty] at fresh ⊢
      have grown := holds_grown holds suits.1 (fresh _ rfl)
      have still : Suits (world.pool.grow world.bytes chunk).1 type := by
        rw [grow_eq]
        exact ⟨suits.1, suits.2.1, suits.2.2⟩
      obtain ⟨slot, rest, slots⟩ := List.exists_cons_of_ne_nil (slotsOf_ne_nil world.pool chunk)
      rw [available, if_pos rfl, Option.elim, slots]
      rw [slots] at grown
      generalize world.pool.grow world.bytes chunk = after at *
      obtain ⟨first, taken⟩ := holds_taken grown still
      exact ⟨congrArg some first, taken⟩
  | cons slot rest =>
    have some : world.pool.free ≠ 0 := mt headed.mp (List.cons_ne_nil _ _)
    obtain ⟨first, taken⟩ := holds_taken holds suits
    unfold pop
    rw [if_neg some, available, if_neg (List.cons_ne_nil _ _)]
    exact ⟨congrArg Option.some first, taken⟩

theorem holds_fallback (holds : Holds world nodes) {type : ObjectType} {n : UInt64}
    (whole : n = 1 → ¬ Suits world.pool type)
    (unset : world.pool.block = 0 → n ≠ 1) (bounded : n.toNat * type.bytes.toNat < 2 ^ 64) (new : Option UInt64)
    (fresh : ∀ given ∈ (world.pool.fallback world.bytes (n * type.bytes) type.align new).given,
      Fresh world.given given) :
    Holds (world.granted type n (world.pool.fallback world.bytes (n * type.bytes) type.align new)) nodes := by
  obtain ⟨laid, stored⟩ := holds
  cases new with
  | none => exact ⟨laid, stored⟩
  | some address =>
    have alone : ¬ Pooled world.pool ⟨address, type, n, fun _ => none⟩ := fun pooled => whole pooled.1 pooled.2
    have added := laid_whole laid alone unset bounded (fresh _ rfl)
    exact ⟨added, stored.free, written_new stored type n⟩

theorem kept_allocated (kept : Kept world) (type : ObjectType) (n : UInt64) (new : Option UInt64)
    (allowed : Allowed world (.allocate type n new)) :
    Kept (world.granted type n (PoolAllocator.allocate world.pool world.bytes type n new)) := by
  obtain ⟨nodes, holds⟩ := kept
  obtain ⟨bounded, fresh⟩ := allowed
  obtain ⟨rfl, suits, granted⟩ | ⟨whole, unset, granted⟩ := allocate_cases world.pool world.bytes type n new
  · rw [granted] at fresh ⊢
    exact ⟨_, (holds_popped (holds_settled holds type) suits new fresh).2⟩
  · rw [granted] at fresh ⊢
    exact ⟨_, holds_fallback holds whole unset bounded new fresh⟩

/-! ## Returns -/

theorem given_size (own : Given) : 0 < own.range.size := Nat.lt_of_lt_of_le Nat.zero_lt_one (Nat.le_max_right ..)

/-- What `::operator new` gave can be given back. -/
theorem delete_own {given : List Given} (apart : given.Pairwise fun first second => first.range.Apart second.range)
    (member : own ∈ given) : delete given (own.address, own.align) = .ok (given.erase own) := by
  cases found : given.find? fun other => other.address = own.address with
  | none =>
    have absent := List.find?_eq_none.mp found own member
    exact absurd (decide_eq_true rfl) absent
  | some other =>
    have place : other.address = own.address := by simpa using List.find?_some found
    have same : other = own := by
      by_contra different
      have bases := (Range.apart_of_mem apart (List.mem_of_find?_eq_some found) member different).base_ne
        (given_size other) (given_size own)
      exact bases (congrArg UInt64.toNat place)
    rw [delete, found, same]
    exact if_pos rfl

section
variable {type : ObjectType} {n : UInt64} {pool : LinkedPool} {bytes : Nat → UInt8}

theorem step_pushed (done : PoolAllocator.deallocate world.pool world.bytes type address n = (pool, bytes, none)) :
    step world (.deallocate address type n) =
      .ok ({ pool, bytes, live := world.live.eraseP fun held => held.address = address, given := world.given },
        .returned none) := by
  simp only [step, done]
  rfl

theorem step_deleted {deleted : UInt64 × UInt64} {given : List Given}
    (done : PoolAllocator.deallocate world.pool world.bytes type address n = (pool, bytes, some deleted))
    (gone : delete world.given deleted = .ok given) :
    step world (.deallocate address type n) =
      .ok ({ pool, bytes, live := world.live.eraseP fun held => held.address = address, given },
        .returned (some deleted)) := by
  simp only [step, done, Option.elim, gone]
  rfl

end

section
variable (holds : Holds world nodes) (used : held ∈ world.live)
include holds used

/-- A block of a chunk becomes the first free one. -/
theorem holds_pushed (pooled : Pooled world.pool held) :
    ∃ next, step world (.deallocate held.address held.type held.n) = .ok (next, .returned none) ∧
      next.pool = { world.pool with free := held.address } ∧
      next.live = (world.live.eraseP fun other => other.address = held.address) ∧
      Holds next (held.address :: nodes) := by
  obtain ⟨laid, stored⟩ := holds
  have without := erased laid used
  obtain ⟨one, set, size, align⟩ := pooled
  have done : PoolAllocator.deallocate world.pool world.bytes held.type held.address held.n =
      ({ world.pool with free := held.address }, storeWord world.bytes held.address.toNat world.pool.free, none) := by
    rw [PoolAllocator.deallocate, if_neg (not_ne_iff.mpr one), LinkedPool.deallocate, if_neg]
    exact fun other => other.elim set fun other => other.elim (absurd size) (absurd align)
  have pushed := laid_pushed laid without ⟨one, set, size, align⟩
  have link := link_within pushed (List.mem_cons_self ..)
  refine ⟨_, step_pushed done, rfl, rfl, laid_frame pushed rfl rfl rfl (.refl _) rfl, ?_⟩
  constructor
  · refine stored.free.push (cell_placed laid used).1 fun slot free => ?_
    have apart := (slot_apart laid free used).symm
    rw [cell_pooled ⟨one, set, size, align⟩] at apart
    exact ((apart.within link).symm.within (link_within laid free)).symm
  · intro other still offset byte wrote
    have member : other ∈ world.live := without.mem_iff.mpr (List.mem_cons_of_mem _ still)
    obtain ⟨within, found⟩ := stored.written other member offset byte wrote
    have apart := (slot_apart pushed (List.mem_cons_self ..) still).within link
    have clear := (apart.symm.within (cell_placed pushed still).2.2.1).symm
    have covers : other.range.Covers (other.address.toNat + offset) :=
      ⟨Nat.le_add_right _ _, Nat.add_lt_add_left within _⟩
    exact ⟨within, (ByteMemory.storeWord_apart clear covers).trans found⟩

/-- All other blocks go back to `::operator delete`, as what they were given for. -/
theorem holds_deleted (whole : ¬ Pooled world.pool held) :
    ∃ next, step world (.deallocate held.address held.type held.n) =
        .ok (next, .returned (some (held.address, held.type.align))) ∧
      next.pool = world.pool ∧ next.live = (world.live.eraseP fun other => other.address = held.address) ∧
      Holds next nodes := by
  obtain ⟨laid, stored⟩ := holds
  have without := erased laid used
  have done : PoolAllocator.deallocate world.pool world.bytes held.type held.address held.n =
      (world.pool, world.bytes, some (held.address, held.type.align)) := by
    rw [PoolAllocator.deallocate, LinkedPool.deallocate]
    split
    · rfl
    · rename_i one
      refine if_pos ?_
      by_contra same
      rw [not_or, not_or, not_ne_iff, not_ne_iff] at same
      exact whole ⟨not_ne_iff.mp one, same⟩
  have deleted := delete_own laid.apart (whole_given laid used whole)
  exact ⟨_, step_deleted done deleted, rfl, rfl, laid_deleted laid without whole, stored.free,
    fun other still => stored.written other (without.mem_iff.mpr (List.mem_cons_of_mem _ still))⟩

end

theorem kept_returned (kept : Kept world) {type : ObjectType} {n : UInt64}
    (allowed : Allowed world (.deallocate address type n)) :
    ∃ next reply, step world (.deallocate address type n) = .ok (next, reply) ∧ Kept next := by
  obtain ⟨nodes, holds⟩ := kept
  obtain ⟨held, used, rfl, rfl, rfl⟩ := allowed
  by_cases pooled : Pooled world.pool held
  · obtain ⟨next, ran, -, -, after⟩ := holds_pushed holds used pooled
    exact ⟨next, _, ran, _, after⟩
  · obtain ⟨next, ran, -, -, after⟩ := holds_deleted holds used pooled
    exact ⟨next, _, ran, _, after⟩

/-! ## Writes -/

theorem setByte_other {bytes : Nat → UInt8} {place other : Nat} {byte : UInt8} (different : other ≠ place) :
    setByte bytes place byte other = bytes other := if_neg different

theorem write_same (held : Holding) (offset : Nat) (byte : UInt8) :
    (held.write offset byte).written offset = some byte := if_pos rfl

theorem write_other {offset other : Nat} {byte : UInt8} (held : Holding) (different : other ≠ offset) :
    (held.write offset byte).written other = held.written other := if_neg different

/-- An owner finds what it wrote last, and everyone else what was there. -/
theorem holds_written (holds : Holds world nodes) {offset : Nat} (byte : UInt8)
    (allowed : Allowed world (.write address offset byte)) :
    ∃ next, step world (.write address offset byte) = .ok (next, .wrote) ∧ next.pool = world.pool ∧
      next.live = (world.live.map fun held => if held.address = address then held.write offset byte else held) ∧
      Holds next nodes := by
  obtain ⟨laid, stored⟩ := holds
  obtain ⟨held, used, rfl, inside⟩ := allowed
  have covers : held.range.Covers (held.address.toNat + offset) :=
    ⟨Nat.le_add_right _ _, Nat.add_lt_add_left inside _⟩
  refine ⟨_, rfl, rfl, rfl, ?_, ?_⟩
  · have written := laid_written laid fun other =>
      if other.address = held.address then (other.write offset byte).written else other.written
    refine laid_frame written rfl rfl rfl (.of_eq (List.map_congr_left fun other _ => ?_)) rfl
    split <;> rfl
  constructor
  · refine stored.free.frame fun slot free k within => setByte_other fun same => ?_
    have apart := (slot_apart laid free used).within (link_within laid free)
    have clear := apart.symm.within (cell_placed laid used).2.2.1
    refine clear.not_covers covers ?_
    rw [← same]
    exact ⟨Nat.le_add_right _ _, Nat.add_lt_add_left within _⟩
  · refine List.forall_mem_map.mpr fun other also => ?_
    split
    · rename_i place
      obtain rfl := same_holding laid used also place
      intro position last wrote
      by_cases here : position = offset
      · subst here
        rw [write_same] at wrote
        exact ⟨inside, (if_pos rfl).trans (Option.some.inj wrote)⟩
      · rw [write_other other here] at wrote
        obtain ⟨within, found⟩ := stored.written other used position last wrote
        exact ⟨within, (setByte_other fun same => here (Nat.add_left_cancel same)).trans found⟩
    · rename_i elsewhere
      intro position last wrote
      obtain ⟨within, found⟩ := stored.written other also position last wrote
      refine ⟨within, (setByte_other fun same => ?_).trans found⟩
      have apart := cell_apart laid used also fun same => elsewhere (congrArg Holding.address same)
      have clear := (apart.within (cell_placed laid also).2.2.1).symm.within (cell_placed laid used).2.2.1
      refine clear.not_covers covers ?_
      rw [← same]
      exact ⟨Nat.le_add_right _ _, Nat.add_lt_add_left within _⟩

theorem holds_elsewhere (holds : Holds world nodes) {place : Nat} (byte : UInt8)
    (allowed : Allowed world (.elsewhere place byte)) :
    ∃ next, step world (.elsewhere place byte) = .ok (next, .wrote) ∧
      next.pool = world.pool ∧ next.live = world.live ∧
      Holds next nodes := by
  obtain ⟨laid, stored⟩ := holds
  refine ⟨_, rfl, rfl, rfl, laid_frame laid rfl rfl rfl (.refl _) rfl, stored_frame stored ?_ ?_⟩
  · refine fun slot free other covers => setByte_other ?_
    rintro rfl
    obtain ⟨-, -, -, own, given, outer⟩ := slot_placed laid (laid.slots slot free)
    obtain ⟨low, high⟩ := (link_within laid free).trans outer
    exact allowed own given ⟨Nat.le_trans low covers.1, Nat.lt_of_lt_of_le covers.2 high⟩
  · refine fun held used other covers => setByte_other ?_
    rintro rfl
    obtain ⟨own, given, inside⟩ := own_given laid used covers
    exact allowed own given inside

/-! ## Runs -/

theorem kept_step (world : World) (call : Call) (kept : Kept world) (allowed : Allowed world call) :
    ∃ next reply, step world call = .ok (next, reply) ∧ Kept next := by
  cases call with
  | allocate type n new => exact ⟨_, _, rfl, kept_allocated kept type n new allowed⟩
  | deallocate address type n => exact kept_returned kept allowed
  | write address offset byte =>
    obtain ⟨nodes, holds⟩ := kept
    obtain ⟨next, ran, -, -, after⟩ := holds_written holds byte allowed
    exact ⟨next, _, ran, nodes, after⟩
  | elsewhere place byte =>
    obtain ⟨nodes, holds⟩ := kept
    obtain ⟨next, ran, -, -, after⟩ := holds_elsewhere holds byte allowed
    exact ⟨next, _, ran, nodes, after⟩

theorem holds_empty (bytes : Nat → UInt8) : Holds { pool := {}, bytes } [] := by
  refine ⟨?_, .nil, fun _ member => absurd member List.not_mem_nil⟩
  exact {
    sized := .inl ⟨rfl, rfl⟩
    unset := fun _ _ member => absurd member List.not_mem_nil
    bounded := fun _ member => absurd member List.not_mem_nil
    given := .refl _
    promised := fun _ member => absurd member List.not_mem_nil
    apart := .nil
    parted := .nil
    whole := .refl _ }

/-- Chunks go back one after the other. -/
theorem destroy_chunks {pool : LinkedPool} {chunks : List UInt64} {given others : List Given}
    (apart : given.Pairwise fun first second => first.range.Apart second.range)
    (all : given.Perm (chunks.map (chunkGiven pool) ++ others)) :
    ∃ left, chunks.foldlM (fun given chunk => delete given (chunk, pool.align)) given = Except.ok left ∧
      left.Perm others := by
  induction chunks generalizing given with
  | nil => exact ⟨given, rfl, all⟩
  | cons chunk chunks ih =>
    have member : chunkGiven pool chunk ∈ given := all.mem_iff.mpr (List.mem_cons_self ..)
    have fewer : (given.erase (chunkGiven pool chunk)).Perm (chunks.map (chunkGiven pool) ++ others) := by
      have erased := all.erase (chunkGiven pool chunk)
      rwa [List.map_cons, List.cons_append, List.erase_cons_head] at erased
    obtain ⟨left, ran, rest⟩ := ih (apart.sublist List.erase_sublist) fewer
    refine ⟨left, ?_, rest⟩
    rw [List.foldlM_cons, show delete given (chunk, pool.align) = _ from delete_own apart member]
    exact ran

theorem intact_of_kept (kept : Kept world) : Intact world := by
  obtain ⟨nodes, laid, stored⟩ := kept
  obtain ⟨left, destroyed, others⟩ := destroy_chunks laid.apart laid.given
  exact {
    aligned := by
      intro held used
      obtain ⟨somewhere, aligned, within, -, own, given, outer⟩ := cell_placed laid used
      have fits := (laid.promised own given).2.2
      exact ⟨somewhere, aligned, Nat.le_trans (within.trans outer).2 fits⟩
    apart := (live_apart laid).imp_of_mem fun first second apart =>
      ((apart.within (cell_placed laid first).2.2.1).symm.within (cell_placed laid second).2.2.1).symm
    written := fun held used offset byte wrote => (stored.written held used offset byte wrote).2
    free := by
      refine ⟨nodes, stored.free, (List.pairwise_append.mp laid.parted).1,
        fun node free held used => ?_, laid.whole⟩
      exact ((slot_apart laid free used).symm.within (cell_placed laid used).2.2.1).symm
    destroyed := ⟨left, destroyed, others⟩ }

/-- A node from a new chunk and a word of its own. The node is written to where its
link was, and is the next one handed out when it has been returned. -/
def nodeAndWordCalls : List Call :=
  let node : ObjectType := ⟨112, 16, 4, rfl, by decide, by decide⟩
  let word : ObjectType := ⟨2, 2, 1, rfl, by decide, by decide⟩
  [.allocate node 1 (some 65536), .write 180112 0 7, .allocate word 1 (some 262144), .write 262144 1 9,
    .elsewhere 5 1, .deallocate 180112 node 1, .allocate node 1 none, .deallocate 262144 word 1]

end Exchange.LinkedPool
