import Exchange.LinkedPool

/-! How the blocks of the pool lie in memory: free slots and blocks in use
never share a byte, and all of them lie in what `::operator new` gave. -/
namespace Exchange.LinkedPool
open ByteMemory (pushAll Range Chain)
open PoolResource (kBlocksPerChunk)

/-- All the memory a block in use stands for. -/
def cell (pool : LinkedPool) (held : Holding) : Range :=
  if Pooled pool held then slotRange pool held.address else ⟨held.address.toNat, max held.size 1⟩

def chunkGiven (pool : LinkedPool) (chunk : UInt64) : Given :=
  ⟨chunk, pool.block * UInt64.ofNat kBlocksPerChunk, pool.align⟩

def IsSlot (pool : LinkedPool) (slot : UInt64) : Prop :=
  ∃ chunk ∈ pool.chunks, ∃ i < kBlocksPerChunk, slot = chunk + UInt64.ofNat i * pool.block

/-- How free blocks, blocks in use and chunks lie in memory. -/
structure Laid (world : World) (nodes : List UInt64) : Prop where
  /-- The first request sets the size and the alignment. -/
  sized : (world.pool.block = 0 ∧ world.pool.chunks = []) ∨
    ∃ type : ObjectType, world.pool.block = type.need ∧ world.pool.align = type.align
  unset : world.pool.block = 0 → ∀ held ∈ world.live, held.n ≠ 1
  bounded : ∀ held ∈ world.live, held.size < 2 ^ 64
  given : world.given.Perm (world.pool.chunks.map (chunkGiven world.pool) ++
    (world.live.filter fun held => ¬ Pooled world.pool held).map Holding.given)
  promised : ∀ own ∈ world.given, own.address ≠ 0 ∧ own.align.toNat ∣ own.address.toNat ∧
    own.address.toNat + max own.size.toNat 1 ≤ 2 ^ 64
  apart : world.given.Pairwise fun first second => first.range.Apart second.range
  parted : (nodes.map (slotRange world.pool) ++ world.live.map (cell world.pool)).Pairwise Range.Apart
  /-- No slot is lost. -/
  whole : (nodes ++ (world.live.filter fun held => Pooled world.pool held).map Holding.address).Perm
    (world.pool.chunks.flatMap (slotsOf world.pool))

theorem mem_slotsOf {pool : LinkedPool} {slot : UInt64} :
    slot ∈ pool.chunks.flatMap (slotsOf pool) ↔ IsSlot pool slot := by
  simp only [IsSlot, slotsOf, List.mem_flatMap, List.mem_map, List.mem_range, eq_comm]

variable {world : World} {nodes rest : List UInt64} {held : Holding} {slot chunk : UInt64} {own : Given}

/-- Free blocks are slots. -/
theorem Laid.slots (laid : Laid world nodes) : ∀ slot ∈ nodes, IsSlot world.pool slot :=
  fun _ member => mem_slotsOf.mp (laid.whole.mem_iff.mp (List.mem_append_left _ member))

/-- So are the blocks that were handed out. -/
theorem Laid.pooled (laid : Laid world nodes) :
    ∀ held ∈ world.live, Pooled world.pool held → IsSlot world.pool held.address := by
  intro held member pooled
  have used : held ∈ world.live.filter fun other => Pooled world.pool other :=
    List.mem_filter.mpr ⟨member, decide_eq_true pooled⟩
  exact mem_slotsOf.mp (laid.whole.mem_iff.mp (List.mem_append_right _ (List.mem_map_of_mem used)))

theorem cell_pooled {pool : LinkedPool} (pooled : Pooled pool held) : cell pool held = slotRange pool held.address :=
  if_pos pooled

theorem cell_whole {pool : LinkedPool} (whole : ¬ Pooled pool held) :
    cell pool held = ⟨held.address.toNat, max held.size 1⟩ := if_neg whole

theorem held_given (bounded : held.size < 2 ^ 64) : held.given.range = ⟨held.address.toNat, max held.size 1⟩ := by
  have size : held.given.size.toNat = held.size := by
    rw [Holding.given, UInt64.toNat_mul]
    exact Nat.mod_eq_of_lt bounded
  rw [Given.range, size]
  rfl

/-! ## Slots of a chunk -/

/-- The size of a block is one that a type needs, and a chunk fits where it lies. -/
structure Room (pool : LinkedPool) (chunk : UInt64) : Prop where
  low : 8 ≤ pool.block.toNat
  high : pool.block.toNat < 2 ^ 54
  multiple : pool.align.toNat ∣ pool.block.toNat
  somewhere : chunk ≠ 0
  aligned : pool.align.toNat ∣ chunk.toNat
  fits : chunk.toNat + pool.block.toNat * kBlocksPerChunk ≤ 2 ^ 64

section
variable {pool : LinkedPool}

theorem grow_eq (bytes : Nat → UInt8) : pool.grow bytes chunk =
    ({ pool with chunks := pool.chunks ++ [chunk], free := (pushAll bytes pool.free (slotsOf pool chunk)).2 },
      (pushAll bytes pool.free (slotsOf pool chunk)).1) := by
  simp only [grow, slotsOf, pushAll, List.foldl_map]

theorem chunk_size (high : pool.block.toNat < 2 ^ 54) :
    (chunkGiven pool chunk).size.toNat = pool.block.toNat * kBlocksPerChunk := by
  have many : (UInt64.ofNat kBlocksPerChunk).toNat = kBlocksPerChunk := by decide
  have room : pool.block.toNat * kBlocksPerChunk < 2 ^ 64 := Nat.mul_lt_mul_of_pos_right high (by decide)
  rw [chunkGiven, UInt64.toNat_mul, many]
  exact Nat.mod_eq_of_lt room

theorem room_of_promised (low : 8 ≤ pool.block.toNat) (high : pool.block.toNat < 2 ^ 54)
    (multiple : pool.align.toNat ∣ pool.block.toNat)
    (promised : chunk ≠ 0 ∧ pool.align.toNat ∣ chunk.toNat ∧
      chunk.toNat + max (chunkGiven pool chunk).size.toNat 1 ≤ 2 ^ 64) : Room pool chunk := by
  obtain ⟨somewhere, aligned, fits⟩ := promised
  rw [chunk_size high] at fits
  exact ⟨low, high, multiple, somewhere, aligned, by omega⟩

variable (room : Room pool chunk)
include room

theorem chunk_range : (chunkGiven pool chunk).range = ⟨chunk.toNat, pool.block.toNat * kBlocksPerChunk⟩ := by
  have low := room.low
  have some : 1 ≤ pool.block.toNat * kBlocksPerChunk := by
    rw [kBlocksPerChunk]
    omega
  rw [Given.range, chunk_size room.high, Nat.max_eq_left some]
  rfl

theorem slot_toNat {i : Nat} (inside : i < kBlocksPerChunk) :
    (chunk + UInt64.ofNat i * pool.block).toNat = chunk.toNat + i * pool.block.toNat := by
  have fits := room.fits
  have low := room.low
  have upTo : i * pool.block.toNat + pool.block.toNat ≤ pool.block.toNat * kBlocksPerChunk := by
    rw [← Nat.succ_mul, Nat.mul_comm]
    exact Nat.mul_le_mul_left _ inside
  have index : (UInt64.ofNat i).toNat = i := by
    rw [UInt64.toNat_ofNat']
    exact Nat.mod_eq_of_lt (Nat.lt_trans inside (by decide))
  have product : (UInt64.ofNat i * pool.block).toNat = i * pool.block.toNat := by
    rw [UInt64.toNat_mul, index]
    exact Nat.mod_eq_of_lt (by omega)
  rw [UInt64.toNat_add, product]
  exact Nat.mod_eq_of_lt (by omega)

theorem slot_aligned {i : Nat} (inside : i < kBlocksPerChunk) :
    chunk + UInt64.ofNat i * pool.block ≠ 0 ∧ pool.align.toNat ∣ (chunk + UInt64.ofNat i * pool.block).toNat := by
  refine ⟨fun zero => ?_, ?_⟩
  · have place := slot_toNat room inside
    rw [zero] at place
    exact room.somewhere (UInt64.toNat_inj.mp (Nat.eq_zero_of_add_eq_zero_right place.symm))
  · rw [slot_toNat room inside]
    exact Nat.dvd_add room.aligned (room.multiple.mul_left i)

theorem slot_within {i : Nat} (inside : i < kBlocksPerChunk) :
    (slotRange pool (chunk + UInt64.ofNat i * pool.block)).Within (chunkGiven pool chunk).range := by
  have upTo : i * pool.block.toNat + pool.block.toNat ≤ pool.block.toNat * kBlocksPerChunk := by
    rw [← Nat.succ_mul, Nat.mul_comm]
    exact Nat.mul_le_mul_left _ inside
  rw [chunk_range room, slotRange, slot_toNat room inside]
  exact ⟨Nat.le_add_right _ _, by simp only; omega⟩

/-- No two slots of a chunk share a byte. -/
theorem slots_apart : ((slotsOf pool chunk).map (slotRange pool)).Pairwise Range.Apart := by
  rw [slotsOf, List.map_map, List.pairwise_map]
  refine List.pairwise_lt_range.imp_of_mem fun {i j} first second before => .inl ?_
  have next : i * pool.block.toNat + pool.block.toNat ≤ j * pool.block.toNat := by
    rw [← Nat.succ_mul]
    exact Nat.mul_le_mul_right _ before
  simp only [Function.comp_apply, slotRange, slot_toNat room (List.mem_range.mp first),
    slot_toNat room (List.mem_range.mp second)]
  omega

end

/-! ## What lies where -/

section
variable (laid : Laid world nodes)
include laid

theorem chunk_given (member : chunk ∈ world.pool.chunks) : chunkGiven world.pool chunk ∈ world.given :=
  laid.given.mem_iff.mpr (List.mem_append_left _ (List.mem_map_of_mem member))

theorem whole_given (member : held ∈ world.live) (whole : ¬ Pooled world.pool held) : held.given ∈ world.given :=
  laid.given.mem_iff.mpr <| List.mem_append_right _ <| List.mem_map_of_mem <|
    List.mem_filter.mpr ⟨member, decide_eq_true whole⟩

theorem chunk_room (member : chunk ∈ world.pool.chunks) : Room world.pool chunk := by
  obtain ⟨-, none⟩ | ⟨type, size, align⟩ := laid.sized
  · rw [none] at member
    exact absurd member List.not_mem_nil
  · have low := type.le_need
    refine room_of_promised ?_ ?_ ?_ (laid.promised _ (chunk_given laid member))
    · rw [size]
      omega
    · rw [size]
      exact type.need_lt
    · rw [size, align]
      exact type.align_dvd_need

/-- Every slot is somewhere, aligned, and part of a chunk that `::operator new` gave. -/
theorem slot_placed (isSlot : IsSlot world.pool slot) :
    slot ≠ 0 ∧ world.pool.align.toNat ∣ slot.toNat ∧ 8 ≤ world.pool.block.toNat ∧
      ∃ own ∈ world.given, (slotRange world.pool slot).Within own.range := by
  obtain ⟨chunk, member, i, inside, rfl⟩ := isSlot
  have room := chunk_room laid member
  obtain ⟨somewhere, aligned⟩ := slot_aligned room inside
  exact ⟨somewhere, aligned, room.low, _, chunk_given laid member, slot_within room inside⟩

theorem cell_placed (member : held ∈ world.live) :
    held.address ≠ 0 ∧ held.type.align.toNat ∣ held.address.toNat ∧ held.range.Within (cell world.pool held) ∧
      0 < (cell world.pool held).size ∧ ∃ own ∈ world.given, (cell world.pool held).Within own.range := by
  by_cases pooled : Pooled world.pool held
  · obtain ⟨somewhere, aligned, low, inside⟩ := slot_placed laid (laid.pooled held member pooled)
    have small := held.type.le_need
    rw [cell_pooled pooled]
    obtain ⟨one, -, size, align⟩ := pooled
    have size : held.type.need = world.pool.block := size
    rw [align]
    refine ⟨somewhere, aligned, ⟨Nat.le_refl _, ?_⟩, by simp only [slotRange]; omega, inside⟩
    rw [Holding.range, Holding.size, one, slotRange, ← size]
    have single : (1 : UInt64).toNat = 1 := rfl
    simp only [single]
    omega
  · have given := whole_given laid member pooled
    obtain ⟨somewhere, aligned, -⟩ := laid.promised _ given
    rw [cell_whole pooled]
    refine ⟨somewhere, aligned, ⟨Nat.le_refl _, ?_⟩, by simp only; omega, _, given, ?_⟩
    · rw [Holding.range]
      simp only
      omega
    · rw [held_given (laid.bounded held member)]
      exact ⟨Nat.le_refl _, Nat.le_refl _⟩

end

/-! ## What requests and returns do to the layout -/

/-- Only where things are counts. -/
theorem laid_frame {other : World} (laid : Laid world nodes) (block : other.pool.block = world.pool.block)
    (align : other.pool.align = world.pool.align) (chunks : other.pool.chunks = world.pool.chunks)
    (live : other.live.Perm world.live) (given : other.given = world.given) : Laid other nodes := by
  obtain ⟨⟨_, _, _, _⟩, _, lived, _⟩ := world
  obtain ⟨⟨_, _, _, _⟩, _, living, _⟩ := other
  obtain rfl := block
  obtain rfl := align
  obtain rfl := chunks
  obtain rfl := given
  exact {
    sized := laid.sized
    unset := fun none held member => laid.unset none held (live.mem_iff.mp member)
    bounded := fun held member => laid.bounded held (live.mem_iff.mp member)
    given := laid.given.trans (((live.filter _).map _).symm.append_left _)
    promised := laid.promised
    apart := laid.apart
    parted := laid.parted.perm ((live.map _).symm.append_left _) Range.Apart.symm
    whole := (((live.filter _).map _).append_left _).trans laid.whole }

/-- What is written into the blocks does not count. -/
theorem laid_written (laid : Laid world nodes) (written : Holding → Nat → Option UInt8) :
    Laid { world with live := world.live.map fun held => { held with written := written held } } nodes where
  sized := laid.sized
  unset := fun none => List.forall_mem_map.mpr (laid.unset none)
  bounded := List.forall_mem_map.mpr laid.bounded
  given := by
    rw [List.filter_map, List.map_map]
    exact laid.given
  promised := laid.promised
  apart := laid.apart
  parted := by
    rw [List.map_map]
    exact laid.parted
  whole := by
    rw [List.filter_map, List.map_map]
    exact laid.whole

section
variable (laid : Laid world nodes)
include laid

/-- The first request sets the size and the alignment. -/
theorem laid_settled (unset : world.pool.block = 0) (type : ObjectType) :
    Laid { world with pool := { world.pool with block := type.need, align := type.align } } nodes := by
  have chunks : world.pool.chunks = [] := by
    obtain ⟨-, none⟩ | ⟨other, size, -⟩ := laid.sized
    · exact none
    · have low := other.le_need
      rw [← size, unset, UInt64.toNat_zero] at low
      omega
  have none : nodes = [] := by
    refine List.eq_nil_iff_forall_not_mem.mpr fun slot member => ?_
    obtain ⟨chunk, inside, -⟩ := laid.slots slot member
    rw [chunks] at inside
    exact List.not_mem_nil inside
  subst none
  have before (held : Holding) : ¬ Pooled world.pool held := fun pooled => pooled.2.1 unset
  have given := laid.given
  have parted := laid.parted
  rw [chunks, List.map_nil, List.filter_eq_self.mpr fun held _ => decide_eq_true (before held)] at given
  rw [List.map_congr_left fun held _ => cell_whole (before held)] at parted
  have low := type.le_need
  generalize set : { world.pool with block := type.need, align := type.align } = pool
  have block : pool.block = type.need := set ▸ rfl
  have align : pool.align = type.align := set ▸ rfl
  have empty : pool.chunks = [] := set ▸ chunks
  have now : ∀ held ∈ world.live, ¬ Pooled pool held :=
    fun held member pooled => laid.unset unset held member pooled.1
  exact {
    sized := .inr ⟨type, block, align⟩
    unset := fun none => by
      rw [← block, none, UInt64.toNat_zero] at low
      omega
    bounded := laid.bounded
    given := by
      simp only [empty, List.map_nil]
      rw [List.filter_eq_self.mpr fun held member => decide_eq_true (now held member)]
      exact given
    promised := laid.promised
    apart := laid.apart
    parted := by
      rw [List.map_congr_left fun held member => cell_whole (now held member)]
      exact parted
    whole := by
      have none : (world.live.filter fun held => Pooled pool held) = [] :=
        List.filter_eq_nil_iff.mpr fun held member => by simpa using now held member
      simp only [none, empty]
      exact .refl _ }

theorem laid_popped (first : nodes = held.address :: rest)
    (pooled : Pooled world.pool held) : Laid { world with live := held :: world.live } rest := by
  subst first
  exact {
    sized := laid.sized
    unset := fun none => absurd none pooled.2.1
    bounded := List.forall_mem_cons.mpr ⟨by
      rw [Holding.size, pooled.1]
      exact (Nat.one_mul _).symm ▸ held.type.bytes.toNat_lt, laid.bounded⟩
    given := by
      rw [List.filter_cons_of_neg (by simpa using pooled)]
      exact laid.given
    promised := laid.promised
    apart := laid.apart
    parted := by
      refine laid.parted.perm ?_ Range.Apart.symm
      rw [List.map_cons, List.map_cons, cell_pooled pooled]
      exact List.perm_middle.symm
    whole := by
      rw [List.filter_cons_of_pos (by simpa using pooled), List.map_cons]
      exact List.perm_middle.trans laid.whole }

/-- All that is in use or free lies in what `::operator new` gave. -/
theorem range_given {range : Range}
    (member : range ∈ nodes.map (slotRange world.pool) ++ world.live.map (cell world.pool)) :
    ∃ own ∈ world.given, range.Within own.range := by
  rcases List.mem_append.mp member with free | used
  · obtain ⟨slot, inside, rfl⟩ := List.mem_map.mp free
    exact (slot_placed laid (laid.slots slot inside)).2.2.2
  · obtain ⟨held, inside, rfl⟩ := List.mem_map.mp used
    exact (cell_placed laid inside).2.2.2.2

/-- A new chunk, all of it free. -/
theorem laid_grown (set : world.pool.block ≠ 0) (fresh : Fresh world.given (chunkGiven world.pool chunk)) :
    Laid { world with
      pool := { world.pool with chunks := world.pool.chunks ++ [chunk] }
      given := chunkGiven world.pool chunk :: world.given } ((slotsOf world.pool chunk).reverse ++ nodes) := by
  obtain ⟨unset, -⟩ | ⟨type, size, align⟩ := laid.sized
  · exact absurd unset set
  obtain ⟨somewhere, aligned, fits, apart⟩ := fresh
  have low := type.le_need
  have room : Room world.pool chunk := by
    refine room_of_promised ?_ ?_ ?_ ⟨somewhere, aligned, fits⟩
    · rw [size]
      omega
    · rw [size]
      exact type.need_lt
    · rw [size, align]
      exact type.align_dvd_need
  exact {
    sized := .inr ⟨type, size, align⟩
    unset := laid.unset
    bounded := laid.bounded
    given := by
      rw [List.map_append, List.append_assoc]
      exact (laid.given.cons _).trans List.perm_middle.symm
    promised := List.forall_mem_cons.mpr ⟨⟨somewhere, aligned, fits⟩, laid.promised⟩
    apart := List.pairwise_cons.mpr ⟨apart, laid.apart⟩
    parted := by
      rw [List.map_append, List.append_assoc, List.map_reverse]
      refine List.pairwise_append.mpr ⟨?_, laid.parted, fun new isNew old isOld => ?_⟩
      · exact (slots_apart room).perm (List.reverse_perm _).symm Range.Apart.symm
      · obtain ⟨slot, member, rfl⟩ := List.mem_map.mp (List.mem_reverse.mp isNew)
        obtain ⟨i, inside, rfl⟩ := List.mem_map.mp member
        obtain ⟨own, given, within⟩ := range_given laid isOld
        have outside := (apart own given).within (slot_within room (List.mem_range.mp inside))
        exact (outside.symm.within within).symm
    whole := by
      rw [List.flatMap_append, List.flatMap_singleton, List.append_assoc]
      exact ((List.reverse_perm _).append laid.whole).trans List.perm_append_comm }

/-- A block that `::operator new` gave for itself. -/
theorem laid_whole (whole : ¬ Pooled world.pool held) (unset : world.pool.block = 0 → held.n ≠ 1)
    (bounded : held.size < 2 ^ 64) (fresh : Fresh world.given held.given) :
    Laid { world with live := held :: world.live, given := held.given :: world.given } nodes := by
  obtain ⟨somewhere, aligned, fits, apart⟩ := fresh
  exact {
    sized := laid.sized
    unset := fun none => List.forall_mem_cons.mpr ⟨unset none, laid.unset none⟩
    bounded := List.forall_mem_cons.mpr ⟨bounded, laid.bounded⟩
    given := by
      rw [List.filter_cons_of_pos (by simpa using whole), List.map_cons]
      exact (laid.given.cons _).trans List.perm_middle.symm
    promised := List.forall_mem_cons.mpr ⟨⟨somewhere, aligned, fits⟩, laid.promised⟩
    apart := List.pairwise_cons.mpr ⟨apart, laid.apart⟩
    parted := by
      rw [List.map_cons]
      refine List.Pairwise.perm (List.pairwise_cons.mpr ⟨fun old isOld => ?_, laid.parted⟩) List.perm_middle.symm
        Range.Apart.symm
      obtain ⟨own, given, within⟩ := range_given laid isOld
      rw [cell_whole whole, ← held_given bounded]
      exact ((apart own given).symm.within within).symm
    whole := by
      rw [List.filter_cons_of_neg (by simpa using whole)]
      exact laid.whole }

end

/-- A block of a chunk is free again. -/
theorem laid_pushed (laid : Laid world nodes) {live : List Holding} (used : world.live.Perm (held :: live))
    (pooled : Pooled world.pool held) : Laid { world with live } (held.address :: nodes) := by
  have before : Laid { world with live := held :: live } nodes := laid_frame laid rfl rfl rfl used.symm rfl
  exact {
    sized := before.sized
    unset := fun none => (List.forall_mem_cons.mp (before.unset none)).2
    bounded := (List.forall_mem_cons.mp before.bounded).2
    given := by
      have given := before.given
      rw [List.filter_cons_of_neg (by simpa using pooled)] at given
      exact given
    promised := before.promised
    apart := before.apart
    parted := by
      have parted := before.parted.perm List.perm_middle Range.Apart.symm
      rw [cell_pooled pooled] at parted
      exact parted
    whole := by
      have all := before.whole
      rw [List.filter_cons_of_pos (by simpa using pooled), List.map_cons] at all
      exact List.perm_middle.symm.trans all }

/-- A block of its own is gone. -/
theorem laid_deleted (laid : Laid world nodes) {live : List Holding} (used : world.live.Perm (held :: live))
    (whole : ¬ Pooled world.pool held) :
    Laid { world with live, given := world.given.erase held.given } nodes := by
  have before : Laid { world with live := held :: live } nodes := laid_frame laid rfl rfl rfl used.symm rfl
  exact {
    sized := before.sized
    unset := fun none => (List.forall_mem_cons.mp (before.unset none)).2
    bounded := (List.forall_mem_cons.mp before.bounded).2
    given := by
      have given := before.given
      rw [List.filter_cons_of_pos (by simpa using whole), List.map_cons] at given
      have fewer := (given.trans List.perm_middle).erase held.given
      rw [List.erase_cons_head] at fewer
      exact fewer
    promised := fun own member => before.promised own (List.mem_of_mem_erase member)
    apart := before.apart.sublist List.erase_sublist
    parted := before.parted.sublist (List.Sublist.append_left (List.sublist_cons_self ..) _)
    whole := by
      have all := before.whole
      rw [List.filter_cons_of_neg (by simpa using whole)] at all
      exact all }

end Exchange.LinkedPool
