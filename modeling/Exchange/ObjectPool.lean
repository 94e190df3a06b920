import Exchange.Runs

/-! The node pool of `object_pool.hpp`. Where a block came from is not recorded:
when it is returned, its size and alignment are compared with those of the pool
once more. They are set by the first request and stay, so the comparison comes
out as it did when the block was handed out, and only slots are ever linked. -/
namespace Exchange

/-- Memory that is handed out: a slot of a chunk, or what a call of `::operator new` gave. -/
inductive Block where
  | slot (chunk index : Nat)
  | whole (name : Nat)
  deriving DecidableEq

inductive Source where
  | pool
  | operatorNew
  deriving DecidableEq

def Block.source : Block → Source
  | .slot .. => .pool
  | .whole _ => .operatorNew

/-- The free list in the order of its links, and the chunks by the names of their memory. -/
structure PoolResource where
  block : UInt64 := 0
  align : UInt64 := 16
  free : List Block := []
  chunks : List Nat := []
  deriving DecidableEq

namespace PoolResource

def kBlocksPerChunk : Nat := 1024

/-- At least a pointer, rounded up to the alignment. -/
def blockSize (bytes align : UInt64) : UInt64 :=
  let b := if bytes < 8 then 8 else bytes
  (b + align - 1) &&& ~~~(align - 1)

/-- `grow`, with the chunk that `::operator new` gave. -/
def grow (pool : PoolResource) (chunk : Nat) : PoolResource :=
  { pool with
    chunks := pool.chunks ++ [chunk]
    free := (List.range kBlocksPerChunk).foldl (fun free i => Block.slot chunk i :: free) pool.free }

/-- The end of `allocate`: the head of the free list, of a pool that has grown
if it was empty. If `::operator new` throws there is no block. -/
def pop (pool : PoolResource) (new : Option Nat) : PoolResource × Option Block :=
  match pool.free, new with
  | [], none => (pool, none)
  | [], some chunk =>
    let pool := pool.grow chunk
    ({ pool with free := pool.free.tail }, pool.free.head?)
  | p :: rest, _ => ({ pool with free := rest }, some p)

/-- `allocate`, given what a call of `::operator new` gives. -/
def allocate (pool : PoolResource) (bytes align : UInt64) (new : Option Nat) : PoolResource × Option Block :=
  let need := blockSize bytes align
  if pool.block = 0 then pop { pool with block := need, align := align } new
  else if need ≠ pool.block ∨ align ≠ pool.align then (pool, new.map .whole)
  else pop pool new

/-- `deallocate`: the block goes to `::operator delete` or onto the free list. -/
def deallocate (pool : PoolResource) (p : Block) (bytes align : UInt64) : PoolResource × Source :=
  if pool.block = 0 ∨ blockSize bytes align ≠ pool.block ∨ align ≠ pool.align then (pool, .operatorNew)
  else ({ pool with free := p :: pool.free }, .pool)

def chunkSlots (chunk : Nat) : List Block := (List.range kBlocksPerChunk).map (Block.slot chunk)

/-- The slots of all chunks the pool has grown by. -/
def slots (pool : PoolResource) : List Block := pool.chunks.flatMap chunkSlots

end PoolResource

/-- A size and an alignment that can be requested: rounding the one up to the
other does not wrap around to nothing. -/
structure Layout where
  bytes : UInt64
  align : UInt64
  fits : PoolResource.blockSize bytes align ≠ 0
  deriving DecidableEq

/-- What has no bit outside a mask is at most the mask. -/
theorem le_of_and_not {x mask : UInt64} (outside : x &&& ~~~mask = 0) : x.toNat ≤ mask.toNat := by
  have within : x &&& mask = x := by
    apply UInt64.toBitVec_inj.mp
    apply BitVec.eq_of_getLsbD_eq
    intro i inside
    have bit := congrArg (fun word => word.toBitVec.getLsbD i) outside
    rw [UInt64.toBitVec_and, UInt64.toBitVec_not, BitVec.getLsbD_and, BitVec.getLsbD_not] at bit
    rw [UInt64.toBitVec_and, BitVec.getLsbD_and]
    cases set : x.toBitVec.getLsbD i with
    | false => rfl
    | true => simpa [set, inside] using bit
  rw [← within, UInt64.toNat_and]
  exact Nat.and_le_right

/-- Nothing is lost in rounding if the sum of size and alignment fits. -/
theorem PoolResource.blockSize_ne_zero {bytes align : UInt64} (aligned : 0 < align.toNat)
    (fits : max bytes.toNat 8 + align.toNat ≤ 2 ^ 64) : blockSize bytes align ≠ 0 := by
  intro zero
  rw [blockSize] at zero
  have least : (if bytes < 8 then 8 else bytes : UInt64).toNat = max bytes.toNat 8 := by
    split
    · rename_i small
      exact (Nat.max_eq_right (Nat.le_of_lt (UInt64.lt_iff_toNat_lt.mp small))).symm
    · rename_i large
      exact (Nat.max_eq_left (Nat.not_lt.mp fun less => large (UInt64.lt_iff_toNat_lt.mpr less))).symm
  generalize (if bytes < 8 then 8 else bytes : UInt64) = b at zero least
  have mask : (align - 1).toNat = align.toNat - 1 := by
    have one : (1 : UInt64).toNat = 1 := rfl
    rw [UInt64.toNat_sub, one]
    omega
  have sum : (b + align - 1).toNat = max bytes.toNat 8 + align.toNat - 1 := by
    have one : (1 : UInt64).toNat = 1 := rfl
    rw [UInt64.toNat_sub, UInt64.toNat_add, least, one]
    omega
  have small := le_of_and_not zero
  omega

/-- The size of a type is a multiple of its alignment, which leaves room to round it up. -/
theorem PoolResource.blockSize_of_type {bytes align : UInt64} {k : Nat} (power : align.toNat = 2 ^ k)
    (multiple : align.toNat ∣ bytes.toNat) : blockSize bytes align ≠ 0 := by
  have below : k < 64 := (Nat.pow_lt_pow_iff_right (by decide)).mp (power ▸ align.toNat_lt)
  have top : align.toNat ≤ 2 ^ 63 := power ▸ Nat.pow_le_pow_right (by decide) (Nat.le_of_lt_succ below)
  have whole : 2 ^ 64 = 2 ^ (64 - k) * align.toNat := by
    rw [power, ← Nat.pow_add, Nat.sub_add_cancel (Nat.le_of_lt below)]
  obtain ⟨count, size⟩ := multiple
  have room : count < 2 ^ (64 - k) := by
    refine Nat.lt_of_mul_lt_mul_left (a := align.toNat) ?_
    rw [← size, Nat.mul_comm align.toNat, ← whole]
    exact bytes.toNat_lt
  have fits : (count + 1) * align.toNat ≤ 2 ^ (64 - k) * align.toNat := Nat.mul_le_mul_right _ room
  rw [Nat.add_mul, Nat.mul_comm count, ← size, ← whole] at fits
  exact blockSize_ne_zero (power ▸ Nat.two_pow_pos k) (by omega)

/-- The size and the alignment of a type, which is what `PoolAllocator` requests. -/
def Layout.ofType (bytes align : UInt64) (k : Nat) (power : align.toNat = 2 ^ k)
    (multiple : align.toNat ∣ bytes.toNat) : Layout :=
  ⟨bytes, align, PoolResource.blockSize_of_type power multiple⟩

namespace PoolAllocator
open PoolResource

/-- Only single objects come from the resource. -/
def allocate (pool : PoolResource) (type : Layout) (n : UInt64) (new : Option Nat) : PoolResource × Option Block :=
  if n ≠ 1 then (pool, new.map .whole) else pool.allocate type.bytes type.align new

def deallocate (pool : PoolResource) (type : Layout) (p : Block) (n : UInt64) : PoolResource × Source :=
  if n ≠ 1 then (pool, .operatorNew) else pool.deallocate p type.bytes type.align

end PoolAllocator

namespace ObjectPool
open PoolResource

/-- A block in use, with what it was allocated for. -/
structure Loan where
  block : Block
  type : Layout
  n : UInt64
  deriving DecidableEq

/-- The pool, the blocks in use, and the number of calls so far, which names the
memory the next call gets from `::operator new`. -/
structure Memory where
  pool : PoolResource := {}
  live : List Loan := []
  calls : Nat := 0
  deriving DecidableEq

def Memory.blocks (memory : Memory) : List Block := memory.live.map Loan.block

inductive Call where
  | allocate (type : Layout) (n : UInt64) (granted : Bool)
  | deallocate (loan : Loan)
  deriving DecidableEq

inductive Reply where
  | handed (block : Option Block)
  | returned (block : Block) (source : Source)
  deriving DecidableEq

/-- One call. `granted` decides whether `::operator new` throws. -/
def step (memory : Memory) : Call → Except Empty (Memory × Reply)
  | .allocate type n granted =>
    let (pool, p) := PoolAllocator.allocate memory.pool type n (if granted then some memory.calls else none)
    .ok ({ pool, live := (p.map fun block => ⟨block, type, n⟩).toList ++ memory.live, calls := memory.calls + 1 },
      .handed p)
  | .deallocate loan =>
    let (pool, source) := PoolAllocator.deallocate memory.pool loan.type loan.block loan.n
    .ok ({ pool, live := memory.live.erase loan, calls := memory.calls + 1 }, .returned loan.block source)

/-- What is returned is in use, and was allocated for what it is returned as. -/
def Owned (memory : Memory) : Call → Prop
  | .allocate .. => True
  | .deallocate loan => loan ∈ memory.live

instance (memory : Memory) : DecidablePred (Owned memory)
  | .allocate .. => .isTrue trivial
  | .deallocate loan => inferInstanceAs (Decidable (loan ∈ memory.live))

/-- What holds after any number of calls. -/
structure Sound (memory : Memory) (replies : List Reply) : Prop where
  free_nodup : memory.pool.free.Nodup
  live_nodup : memory.blocks.Nodup
  disjoint : ∀ p ∈ memory.pool.free, p ∉ memory.blocks
  slots_nodup : memory.pool.slots.Nodup
  exact : ∀ p, p ∈ memory.pool.slots ↔ p ∈ memory.pool.free ∨ p ∈ memory.blocks ∧ p.source = .pool
  returned : ∀ p source, Reply.returned p source ∈ replies → source = p.source

variable {memory : Memory} {pool : PoolResource} {type : Layout} {n : UInt64}

/-! ## Slots -/

theorem mem_chunkSlots {chunk : Nat} {p : Block} :
    p ∈ chunkSlots chunk ↔ ∃ i < kBlocksPerChunk, p = .slot chunk i := by
  simp only [chunkSlots, List.mem_map, List.mem_range, eq_comm]

theorem mem_slots {p : Block} :
    p ∈ pool.slots ↔ ∃ chunk ∈ pool.chunks, ∃ i < kBlocksPerChunk, p = .slot chunk i := by
  simp only [slots, List.mem_flatMap, mem_chunkSlots]

theorem slots_source {p : Block} (member : p ∈ pool.slots) : p.source = .pool := by
  obtain ⟨_, -, _, -, rfl⟩ := mem_slots.mp member
  rfl

theorem slots_nodup (distinct : pool.chunks.Nodup) : pool.slots.Nodup := by
  refine List.nodup_flatMap.mpr ⟨fun chunk _ => ?_, distinct.imp fun {first second} other => ?_⟩
  · exact List.nodup_range.map fun _ _ same => (Block.slot.inj same).2
  · intro p inFirst inSecond
    obtain ⟨_, -, rfl⟩ := mem_chunkSlots.mp inFirst
    obtain ⟨_, -, same⟩ := mem_chunkSlots.mp inSecond
    exact other (Block.slot.inj same).1

theorem grow_free (chunk : Nat) : (pool.grow chunk).free = (chunkSlots chunk).reverse ++ pool.free := by
  simp only [grow, chunkSlots, List.foldl_flip_cons_eq_append]

@[simp] theorem grow_block (chunk : Nat) : (pool.grow chunk).block = pool.block := by simp only [grow]

@[simp] theorem grow_align (chunk : Nat) : (pool.grow chunk).align = pool.align := by simp only [grow]

theorem grow_slots (chunk : Nat) : (pool.grow chunk).slots = pool.slots ++ chunkSlots chunk := by
  simp [slots, grow]

/-! ## The invariant -/

/-- The comparison that is made for a block when it is handed out, and again when
it is returned. -/
def Takes (pool : PoolResource) (type : Layout) (n : UInt64) : Prop :=
  n = 1 ∧ pool.block ≠ 0 ∧ blockSize type.bytes type.align = pool.block ∧ type.align = pool.align

/-- The blocks in use that came from one source. -/
def blocksFrom (source : Source) (live : List Loan) : List Block :=
  (live.map Loan.block).filter fun p => p.source = source

theorem blocksFrom_own (loan : Loan) {source : Source} (own : loan.block.source = source) (live : List Loan) :
    blocksFrom source (loan :: live) = loan.block :: blocksFrom source live := by
  simp [blocksFrom, own]

theorem blocksFrom_other (loan : Loan) {source : Source} (other : loan.block.source ≠ source) (live : List Loan) :
    blocksFrom source (loan :: live) = blocksFrom source live := by
  simp [blocksFrom, other]

structure Kept (memory : Memory) : Prop where
  slots : (memory.pool.free ++ blocksFrom .pool memory.live).Perm memory.pool.slots
  wholes : (blocksFrom .operatorNew memory.live).Nodup
  chunks : memory.pool.chunks.Nodup
  named : ∀ chunk ∈ memory.pool.chunks, chunk < memory.calls
  namedWhole : ∀ name, Block.whole name ∈ memory.live.map Loan.block → name < memory.calls
  /-- Asking again gives the answer of the first time. -/
  source : ∀ loan ∈ memory.live, loan.block.source = .pool ↔ Takes memory.pool loan.type loan.n
  /-- Before the first request only arrays are in use. -/
  unset : memory.pool.block = 0 → ∀ loan ∈ memory.live, loan.n ≠ 1

theorem kept_empty : Kept {} where
  slots := .refl _
  wholes := .nil
  chunks := .nil
  named := by simp
  namedWhole := by simp
  source := by simp
  unset := by simp

section
variable (kept : Kept memory)
include kept

theorem kept_free_slot {p : Block} (member : p ∈ memory.pool.free) : p ∈ memory.pool.slots :=
  kept.slots.subset (List.mem_append_left _ member)

/-- The first request sets the size and the alignment. -/
theorem kept_settled (set : PoolResource) (free : set.free = memory.pool.free)
    (chunks : set.chunks = memory.pool.chunks)
    (settled : memory.pool.block = 0 ∧ set.block ≠ 0 ∨ set = memory.pool) : Kept { memory with pool := set } := by
  rcases settled with ⟨unset, block⟩ | rfl
  · have slots : set.slots = memory.pool.slots := by rw [PoolResource.slots, chunks, PoolResource.slots]
    exact {
      slots := by rw [slots, free]; exact kept.slots
      wholes := kept.wholes
      chunks := by rw [chunks]; exact kept.chunks
      named := by rw [chunks]; exact kept.named
      namedWhole := kept.namedWhole
      source := fun loan member =>
        ⟨fun pooled => absurd ((kept.source loan member).mp pooled).1 (kept.unset unset loan member),
          fun takes => absurd takes.1 (kept.unset unset loan member)⟩
      unset := fun none => absurd none block }
  · exact kept

theorem kept_called : Kept { memory with calls := memory.calls + 1 } :=
  { kept with
    named := fun chunk member => Nat.lt_succ_of_lt (kept.named chunk member)
    namedWhole := fun name member => Nat.lt_succ_of_lt (kept.namedWhole name member) }

theorem kept_grown : Kept { memory with pool := memory.pool.grow memory.calls, calls := memory.calls + 1 } where
  slots := by
    rw [grow_free, grow_slots, List.append_assoc]
    have sides := (List.reverse_perm (chunkSlots memory.calls)).append kept.slots
    exact sides.trans List.perm_append_comm
  wholes := kept.wholes
  chunks := by
    refine List.nodup_append.mpr ⟨kept.chunks, List.nodup_singleton _, ?_⟩
    intro chunk member new isNew same
    rw [List.mem_singleton.mp isNew] at same
    exact absurd (kept.named chunk member) (same ▸ Nat.lt_irrefl _)
  named := by
    intro chunk member
    rcases List.mem_append.mp member with old | new
    · exact Nat.lt_succ_of_lt (kept.named chunk old)
    · rw [List.mem_singleton.mp new]
      exact Nat.lt_succ_self _
  namedWhole := fun name member => Nat.lt_succ_of_lt (kept.namedWhole name member)
  source := by
    simp only [Takes, grow_block, grow_align]
    exact kept.source
  unset := by
    rw [grow_block]
    exact kept.unset

/-- The head of the free list is handed out. -/
theorem kept_popped {p : Block} {rest : List Block} (free : memory.pool.free = p :: rest)
    (takes : Takes memory.pool type n) :
    Kept { memory with pool := { memory.pool with free := rest }, live := ⟨p, type, n⟩ :: memory.live } := by
  have member : p ∈ memory.pool.slots := kept_free_slot kept (by simp [free])
  have pooled := slots_source member
  exact {
    slots := by
      have before := kept.slots
      rw [free, List.cons_append] at before
      rw [blocksFrom_own ⟨p, type, n⟩ pooled]
      exact List.perm_middle.trans before
    wholes := by
      rw [blocksFrom_other ⟨p, type, n⟩ (by simp [pooled])]
      exact kept.wholes
    chunks := kept.chunks
    named := kept.named
    namedWhole := by
      intro name inUse
      rcases List.mem_cons.mp inUse with rfl | old
      · cases pooled
      · exact kept.namedWhole name old
    source := by
      intro loan inUse
      rcases List.mem_cons.mp inUse with rfl | old
      · exact iff_of_true pooled takes
      · exact kept.source loan old
    unset := fun none => absurd none takes.2.1 }

/-- What `::operator new` gave is handed out. -/
theorem kept_whole (refused : ¬ Takes memory.pool type n) (unset : memory.pool.block = 0 → n ≠ 1) :
    Kept { memory with live := ⟨.whole memory.calls, type, n⟩ :: memory.live, calls := memory.calls + 1 } where
  slots := kept.slots
  wholes := by
    refine List.nodup_cons.mpr ⟨fun inUse => ?_, kept.wholes⟩
    exact absurd (kept.namedWhole _ (List.mem_of_mem_filter inUse)) (Nat.lt_irrefl _)
  chunks := kept.chunks
  named := fun chunk member => Nat.lt_succ_of_lt (kept.named chunk member)
  namedWhole := by
    intro name inUse
    rcases List.mem_cons.mp inUse with same | old
    · rw [Block.whole.inj same]
      exact Nat.lt_succ_self _
    · exact Nat.lt_succ_of_lt (kept.namedWhole name old)
  source := by
    intro loan inUse
    rcases List.mem_cons.mp inUse with rfl | old
    · exact iff_of_false (by simp [Block.source]) refused
    · exact kept.source loan old
  unset := by
    intro none loan inUse
    rcases List.mem_cons.mp inUse with rfl | old
    · exact unset none
    · exact kept.unset none loan old

end

/-- A block is no longer in use. -/
theorem kept_erased (kept : Kept memory) {loan : Loan} (free : List Block)
    (slots : (free ++ blocksFrom .pool (memory.live.erase loan)).Perm memory.pool.slots) :
    Kept { pool := { memory.pool with free }, live := memory.live.erase loan, calls := memory.calls + 1 } where
  slots := slots
  wholes := kept.wholes.sublist ((List.erase_sublist.map Loan.block).filter _)
  chunks := kept.chunks
  named := fun chunk member => Nat.lt_succ_of_lt (kept.named chunk member)
  namedWhole := by
    intro name member
    obtain ⟨other, still, whole⟩ := List.mem_map.mp member
    exact Nat.lt_succ_of_lt (kept.namedWhole name (List.mem_map.mpr ⟨other, List.mem_of_mem_erase still, whole⟩))
  source := fun other still => kept.source other (List.mem_of_mem_erase still)
  unset := fun none other still => kept.unset none other (List.mem_of_mem_erase still)

/-- A block that is returned goes where it came from. -/
theorem kept_returned (kept : Kept memory) {loan : Loan} (owned : loan ∈ memory.live) :
    ∃ next, step memory (.deallocate loan) = .ok (next, .returned loan.block loan.block.source) ∧ Kept next := by
  have split : (blocksFrom .pool memory.live).Perm (blocksFrom .pool (loan :: memory.live.erase loan)) :=
    ((List.perm_cons_erase owned).map Loan.block).filter _
  have moved := (split.symm.append_left memory.pool.free).trans kept.slots
  by_cases takes : Takes memory.pool loan.type loan.n
  · have pooled := (kept.source loan owned).mpr takes
    obtain ⟨one, set, size, align⟩ := takes
    have done : PoolAllocator.deallocate memory.pool loan.type loan.block loan.n =
        ({ memory.pool with free := loan.block :: memory.pool.free }, .pool) := by
      rw [PoolAllocator.deallocate, if_neg (not_ne_iff.mpr one), PoolResource.deallocate, if_neg]
      exact fun other => other.elim set fun other => other.elim (absurd size) (absurd align)
    rw [blocksFrom_own loan pooled] at moved
    exact ⟨_, by simp only [step, done, pooled],
      kept_erased kept (loan.block :: memory.pool.free) (List.perm_middle.symm.trans moved)⟩
  · have foreign : loan.block.source ≠ .pool := fun pooled => takes ((kept.source loan owned).mp pooled)
    have whole : loan.block.source = .operatorNew := by
      cases shape : loan.block.source with
      | operatorNew => rfl
      | pool => exact absurd shape foreign
    have done : PoolAllocator.deallocate memory.pool loan.type loan.block loan.n = (memory.pool, .operatorNew) := by
      rw [PoolAllocator.deallocate, PoolResource.deallocate]
      split
      · rfl
      · rename_i one
        refine if_pos ?_
        by_contra same
        rw [not_or, not_or, not_ne_iff, not_ne_iff] at same
        exact takes ⟨not_ne_iff.mp one, same⟩
    rw [blocksFrom_other loan foreign] at moved
    exact ⟨_, by simp only [step, done, whole], kept_erased kept memory.pool.free moved⟩

/-- With the first free slot, or a slot of a new chunk, or none. -/
theorem kept_handed (kept : Kept memory) (takes : Takes memory.pool type n) (granted : Bool) {set : PoolResource}
    {p : Option Block} (popped : memory.pool.pop (if granted then some memory.calls else none) = (set, p)) :
    Kept { pool := set, live := (p.map fun block => ⟨block, type, n⟩).toList ++ memory.live,
           calls := memory.calls + 1 } := by
  unfold pop at popped
  split at popped
  · cases popped
    exact kept_called kept
  · rename_i chunk empty new
    have name : chunk = memory.calls := by
      cases granted with
      | false => cases new
      | true => exact (Option.some.inj new).symm
    have grown := kept_grown kept
    subst name
    cases shape : (memory.pool.grow memory.calls).free with
    | nil =>
      rw [grow_free] at shape
      exact absurd (congrArg List.length shape) (by simp [chunkSlots, kBlocksPerChunk])
    | cons first rest =>
      simp only [shape, Prod.mk.injEq] at popped
      obtain ⟨rfl, rfl⟩ := popped
      have stillTakes : Takes (memory.pool.grow memory.calls) type n := by
        simpa only [Takes, grow_block, grow_align] using takes
      exact kept_popped grown shape stillTakes
  · rename_i first rest free
    cases popped
    exact kept_called (kept_popped kept free takes)

theorem kept_fallback (kept : Kept memory) (refused : ¬ Takes memory.pool type n)
    (unset : memory.pool.block = 0 → n ≠ 1)
    (granted : Bool) :
    Kept {
      pool := memory.pool
      live := (((if granted then some memory.calls else none).map Block.whole).map
        fun block => (⟨block, type, n⟩ : Loan)).toList ++ memory.live
      calls := memory.calls + 1 } := by
  cases granted with
  | false => exact kept_called kept
  | true => exact kept_whole kept refused unset

/-- A request is met by the pool or by `::operator new`. -/
theorem kept_requested (kept : Kept memory) {granted : Bool} {set : PoolResource} {p : Option Block}
    (result : PoolAllocator.allocate memory.pool type n (if granted then some memory.calls else none) = (set, p)) :
    Kept { pool := set, live := (p.map fun block => ⟨block, type, n⟩).toList ++ memory.live,
           calls := memory.calls + 1 } := by
  rw [PoolAllocator.allocate] at result
  split at result
  · rename_i several
    cases result
    exact kept_fallback kept (fun takes => several takes.1) (fun _ => several) granted
  rename_i single
  have one := not_ne_iff.mp single
  rw [PoolResource.allocate] at result
  split at result
  · -- The first request: from here on the pool takes what is like it.
    rename_i unset
    have first := kept_settled kept { memory.pool with
      block := blockSize type.bytes type.align, align := type.align } rfl rfl (.inl ⟨unset, type.fits⟩)
    exact kept_handed first ⟨one, type.fits, rfl, rfl⟩ granted result
  rename_i set
  split at result
  · rename_i other
    cases result
    refine kept_fallback kept ?_ (fun unset => absurd unset set) granted
    rintro ⟨-, -, size, align⟩
    exact other.elim (absurd size) (absurd align)
  · rename_i same
    rw [not_or, not_ne_iff, not_ne_iff] at same
    exact kept_handed kept ⟨one, set, same⟩ granted result

theorem kept_allocated (kept : Kept memory) (type : Layout) (n : UInt64) (granted : Bool) :
    ∃ next p, step memory (.allocate type n granted) = .ok (next, .handed p) ∧ Kept next := by
  cases result : PoolAllocator.allocate memory.pool type n (if granted then some memory.calls else none) with
  | mk set p => exact ⟨_, p, by simp only [step, result], kept_requested kept result⟩

/-! ## Runs -/

theorem blocks_nodup (kept : Kept memory) : memory.blocks.Nodup := by
  have free := (kept.slots.nodup_iff.mpr (slots_nodup kept.chunks))
  have pooled : (blocksFrom .pool memory.live).Nodup := (List.nodup_append.mp free).2.1
  have sorted := List.filter_append_perm (fun p : Block => p.source = .pool) memory.blocks
  have rest : memory.blocks.filter (fun p => !decide (p.source = .pool)) = blocksFrom .operatorNew memory.live := by
    refine List.filter_congr fun p _ => ?_
    cases p <;> rfl
  rw [rest] at sorted
  refine sorted.nodup_iff.mp (List.nodup_append.mpr ⟨pooled, kept.wholes, ?_⟩)
  intro p inPool other inWholes same
  have source := (List.mem_filter.mp inPool).2
  have otherSource := (List.mem_filter.mp inWholes).2
  rw [same] at source
  rw [of_decide_eq_true source] at otherSource
  cases of_decide_eq_true otherSource

theorem mem_blocksFrom {p : Block} {source : Source} :
    p ∈ blocksFrom source memory.live ↔ p ∈ memory.blocks ∧ p.source = source := by
  rw [blocksFrom, List.mem_filter, decide_eq_true_iff, Memory.blocks]

theorem sound_of_kept (kept : Kept memory) {replies : List Reply}
    (returned : ∀ p source, Reply.returned p source ∈ replies → source = p.source) : Sound memory replies := by
  have distinct := slots_nodup kept.chunks
  have sides := List.nodup_append.mp (kept.slots.nodup_iff.mpr distinct)
  exact {
    free_nodup := sides.1
    live_nodup := blocks_nodup kept
    disjoint := by
      intro p free inUse
      have pooled := slots_source (kept_free_slot kept free)
      exact sides.2.2 p free p (mem_blocksFrom.mpr ⟨inUse, pooled⟩) rfl
    slots_nodup := distinct
    exact := by
      intro p
      rw [← kept.slots.mem_iff, List.mem_append, mem_blocksFrom]
    returned }

/-- The invariant with the returns so far, each to where the block came from. -/
def KeptSoFar (memory : Memory) (replies : List Reply) : Prop :=
  Kept memory ∧ ∀ p source, Reply.returned p source ∈ replies → source = p.source

theorem kept_step (memory : Memory) (replies : List Reply) (call : Call) (soFar : KeptSoFar memory replies)
    (owned : Owned memory call) :
    ∃ next reply, step memory call = .ok (next, reply) ∧ KeptSoFar next (replies ++ [reply]) := by
  obtain ⟨kept, returned⟩ := soFar
  cases call with
  | allocate type n granted =>
    obtain ⟨next, p, ran, kept⟩ := kept_allocated kept type n granted
    refine ⟨next, _, ran, kept, fun block source member => ?_⟩
    rcases List.mem_append.mp member with before | now
    · exact returned block source before
    · cases List.mem_singleton.mp now
  | deallocate loan =>
    obtain ⟨next, ran, kept⟩ := kept_returned kept owned
    refine ⟨next, _, ran, kept, fun block source member => ?_⟩
    rcases List.mem_append.mp member with before | now
    · exact returned block source before
    · cases List.mem_singleton.mp now
      rfl

/-- Whatever is requested and returned in whatever order, no block is handed out
twice or lost, and each goes back to where it came from. -/
theorem pool_sound (calls : List Call) (owned : Meets step Owned {} calls) :
    ∃ memory replies, run step {} calls = .ok (memory, replies) ∧ Sound memory replies := by
  have start : KeptSoFar {} [] := ⟨kept_empty, by simp⟩
  obtain ⟨memory, replies, ran, kept, returned⟩ := Runs.run_history Owned KeptSoFar kept_step [] start owned
  exact ⟨memory, replies, ran, sound_of_kept kept returned⟩

/-- A node and a word: the word is not the pool's, and the node returned is the next one handed out. -/
def nodeAndWord : List Call :=
  let node := Layout.ofType 104 8 3 rfl (by decide)
  let word := Layout.ofType 4 4 2 rfl (by decide)
  [.allocate node 1 true, .allocate word 1 true, .deallocate ⟨.slot 0 1023, node, 1⟩, .allocate node 1 true,
    .deallocate ⟨.whole 1, word, 1⟩]

theorem node_and_word_sound :
    ∃ memory replies, run step {} nodeAndWord = .ok (memory, replies) ∧ Sound memory replies :=
  pool_sound nodeAndWord (by decide +kernel)

end ObjectPool
end Exchange
